import Botnats.Authorizer

/-!
# Session writes and watched sessions

`SessionSync` with its lock. The only suspension under the lock is the call of
`put_session`, so between two calls the drain is a function of the state. A queued
dict has a number for its identity: `write` tells by it whether the entry it wrote is
still the queued one.
-/
namespace Botnats

open Json

/-- A dict in `pending` -/
structure Queued where
  id : ℕ
  session : Fields

/-- A call that takes the lock. -/
inductive SyncTask
  | sync (identity : Str) (session : Fields)
  | retry

/-- The holder of the lock waits for `put_session` of one entry, `rest` is what remains
of its snapshot. `since` and `start` are the numbers of dicts made when the drain and
when this write began. -/
structure SessionWrite where
  task : SyncTask
  key : Str
  entry : Queued
  rest : List (Str × Queued)
  since : ℕ
  start : ℕ

/-- The attributes of `SessionSync`, the number of dicts that were queued, the tasks
waiting for the lock and its holder. -/
structure SessionSync where
  authorizer : Authorizer
  pending : List (Str × Queued)
  watched : List (Str × (Str × ℚ))
  watchedIdentities : List (Str × (ℕ × Bool))
  made : ℕ
  waiting : List SyncTask
  writing : Option SessionWrite

namespace SessionSync

def init : SessionSync := ⟨⟨defaultCasemapping, []⟩, [], [], [], 0, [], none⟩

/-! ## Identities of commands in flight -/

/-- `watch_identity` -/
def watchIdentity (s : SessionSync) (identity : Str) : SessionSync :=
  let key := casefold identity .ascii
  let entry := (Assoc.lookup key s.watchedIdentities).getD (0, false)
  { s with
    watchedIdentities := Assoc.assign key (entry.1 + 1, entry.2) s.watchedIdentities }

/-- `unwatch_identity` -/
def unwatchIdentity (s : SessionSync) (identity : Str) : SessionSync :=
  let key := casefold identity .ascii
  let entry := (Assoc.lookup key s.watchedIdentities).getD (1, true)
  let others := Assoc.discard key s.watchedIdentities
  { s with
    watchedIdentities :=
      if 1 < entry.1 then Assoc.assign key (entry.1 - 1, entry.2) others else others }

/-- `watched_valid` -/
def watchedValid (s : SessionSync) (identity : Str) : Bool :=
  match Assoc.lookup (casefold identity .ascii) s.watchedIdentities with
  | none => false
  | some entry => !entry.2

/-- `invalidate` -/
def invalidate (s : SessionSync) (identity : Str) : SessionSync :=
  let key := casefold identity .ascii
  match Assoc.lookup key s.watchedIdentities with
  | none => s
  | some entry =>
    { s with watchedIdentities := Assoc.assign key (entry.1, true) s.watchedIdentities }

/-- `invalidate_all` -/
def invalidateAll (s : SessionSync) : SessionSync :=
  { s with watchedIdentities := s.watchedIdentities.map fun e => (e.1, (e.2.1, true)) }

/-! ## Watched records -/

/-- `prune` -/
def prune (s : SessionSync) (now : ℚ) : SessionSync :=
  { s with watched := s.watched.filter fun e => now < e.2.2 }

/-- `forget` -/
def forget (s : SessionSync) (key : Str) : SessionSync :=
  match Assoc.lookup key s.watched with
  | none => s
  | some mapped =>
    { s with
      watched := Assoc.discard key s.watched
      authorizer := s.authorizer.dropSession mapped.1 }

/-- `replayed` -/
def replayed (s : SessionSync) (now : ℚ) (keys : List Str) : SessionSync :=
  let s := s.prune now
  ((s.watched.map Prod.fst).filter fun key => key ∉ keys).foldl forget s

/-- `Bot.on_irc_disconnect`, as far as sessions go -/
def disconnect (s : SessionSync) (now : ℚ) : SessionSync :=
  { s.invalidateAll with authorizer := s.authorizer.setCasemapping now defaultCasemapping }

variable (S : SessionScope)

/-- `observe` of a record that `valid_session` accepted; the import reads the clock
again. -/
def observe (s : SessionSync) (now later : ℚ) (key : Str) (record : Fields)
    (replaying : Bool) : SessionSync :=
  let s := if replaying then s else s.prune now
  match parseSessionRecord S record with
  | none => s
  | some parsed =>
    if now < parsed.expiresAt then
      { s with
        watched := Assoc.assign key (parsed.ircPrefix, parsed.expiresAt) s.watched
        authorizer := s.authorizer.importSession S later record }
    else s.forget key

/-- What reaches the sessions besides their writes: `get` and `prune` of the authorizer,
IRC, commands that come and go, and the watch of the bucket. -/
inductive Event
  | get (identity : Str)
  | prune
  | casemapping (value : Casemapping)
  | disconnect
  | watchIdentity (identity : Str)
  | unwatchIdentity (identity : Str)
  | observe (key : Str) (record : Fields) (replaying : Bool)
  | forget (key : Str)
  | replayed (keys : List Str)

/-- One such event; only `observe` reads the clock twice. -/
def handle (s : SessionSync) (now later : ℚ) : Event → SessionSync
  | .get identity => { s with authorizer := (s.authorizer.get now identity).2 }
  | .prune => { s with authorizer := s.authorizer.prune now }
  | .casemapping value => { s with authorizer := s.authorizer.setCasemapping now value }
  | .disconnect => s.disconnect now
  | .watchIdentity identity => s.watchIdentity identity
  | .unwatchIdentity identity => s.unwatchIdentity identity
  | .observe key record replaying => s.observe S now later key record replaying
  | .forget key => s.forget key
  | .replayed keys => s.replayed now keys

/-! ## The queue of writes -/

/-- The session that is queued under a key, as `parse` reads it. -/
def queuedSession (s : SessionSync) (now : ℚ) (key : Str) : Option Session :=
  (Assoc.lookup key s.pending).bind fun q => parseSession S now q.session

def enqueue (s : SessionSync) (key : Str) (session : Fields) : SessionSync :=
  { s with pending := Assoc.assign key ⟨s.made, session⟩ s.pending, made := s.made + 1 }

/-- `queue` -/
def queue (s : SessionSync) (now : ℚ) (identity : Str) (session : Fields) : SessionSync :=
  let key := casefold identity .ascii
  match s.queuedSession S now key, parseSession S now session with
  | none, _ => s.enqueue key session
  | some queued, some incoming =>
    if queued.order < incoming.order then s.enqueue key session else s
  | some _, none => s

/-- `revoke` of a complete prefix that was seen to quit or to change -/
def revoke (s : SessionSync) (now : ℚ) (identity : Str) : SessionSync :=
  let s := s.invalidate identity
  match s.authorizer.revoke S identity with
  | none => s
  | some (revoked, authorizer) =>
    let s := { s with authorizer := authorizer }.queue S now revoked.ircPrefix revoked.asdict
    { s with waiting := s.waiting ++ [.retry] }

/-- How a call that held the lock ended: the call, and whether its entry was written. -/
abbrev SyncOutcome := SyncTask × Bool

/-- The lock is released. -/
def leave (s : SessionSync) (task : SyncTask) : SessionSync × Option SyncOutcome :=
  ({ s with writing := none },
    some (task, match task with
      | .sync identity _ => (Assoc.lookup (casefold identity .ascii) s.pending).isNone
      | .retry => true))

/-- The loop of `drain` goes on with the rest of the snapshot. -/
def proceed (s : SessionSync) (task : SyncTask) (since : ℕ) :
    List (Str × Queued) → SessionSync × Option SyncOutcome
  | [] => s.leave task
  | (key, entry) :: rest =>
    ({ s with writing := some ⟨task, key, entry, rest, since, s.made⟩ }, none)

/-- The first waiting task gets the lock: it queues what it brought, and drains. -/
def acquire (s : SessionSync) (now : ℚ) : Option (SessionSync × Option SyncOutcome) :=
  match s.writing, s.waiting with
  | none, .sync identity session :: waiting =>
    let s := { s with waiting := waiting }.queue S now identity session
    some (s.proceed (.sync identity session) s.made s.pending)
  | none, .retry :: waiting => some ({ s with waiting := waiting }.proceed .retry s.made s.pending)
  | _, _ => none

/-- The replacement that `write` queues: the entry was a revocation, and a live session
won. -/
def escalation (now : ℚ) (session stored : Fields) : Option Session :=
  match Assoc.lookup (lit "revoked") session, parseSession S now stored with
  | some (.bool true), some winner => if winner.revoked then none else some (revocationOf S winner)
  | _, _ => none

/-- What `write` does with the entry it wrote, if that is still queued. -/
def settle (s : SessionSync) (now later : ℚ) (w : SessionWrite) (stored : Fields) : SessionSync :=
  if (Assoc.lookup w.key s.pending).map Queued.id = some w.entry.id then
    match escalation S now w.entry.session stored with
    | some replacement =>
      { s with authorizer := s.authorizer.importSession S later replacement.asdict }.enqueue
        w.key replacement.asdict
    | none => { s with pending := Assoc.discard w.key s.pending }
  else s

/-- `put_session` returned: the rest of `write`, with its three clock readings, and the
drain up to its next call. -/
def written (s : SessionSync) (now₁ now₂ now₃ : ℚ) (w : SessionWrite) (stored : Fields) :
    SessionSync × Option SyncOutcome :=
  ({ s with
      authorizer := s.authorizer.importSession S now₁ stored
      writing := none }.settle S now₂ now₃ w stored).proceed w.task w.since w.rest

/-- `put_session` raised one of `PUBLISH_ERRORS`: the drain stops. -/
def failed (s : SessionSync) (w : SessionWrite) : SessionSync × Option SyncOutcome :=
  s.leave w.task

/-- `put_session` raised another exception, which passes through the lock. -/
def raised (s : SessionSync) : SessionSync := { s with writing := none }

/-! ## What leaves the queue alone -/

/-- The queue, the numbering of dicts and the tasks at the lock are the same. -/
structure Aside (s t : SessionSync) : Prop where
  pending : t.pending = s.pending
  made : t.made = s.made
  waiting : t.waiting = s.waiting
  writing : t.writing = s.writing

variable {S} {s t : SessionSync} {now later : ℚ} {w : SessionWrite}

theorem Aside.refl (s : SessionSync) : Aside s s := ⟨rfl, rfl, rfl, rfl⟩

theorem Aside.trans {u : SessionSync} (h : Aside s t) (h' : Aside t u) : Aside s u :=
  ⟨h'.pending.trans h.pending, h'.made.trans h.made, h'.waiting.trans h.waiting,
    h'.writing.trans h.writing⟩

theorem aside_invalidate (s : SessionSync) (identity : Str) : Aside s (s.invalidate identity) := by
  unfold invalidate
  dsimp only
  split <;> exact ⟨rfl, rfl, rfl, rfl⟩

@[simp] theorem invalidate_authorizer (s : SessionSync) (identity : Str) :
    (s.invalidate identity).authorizer = s.authorizer := by
  unfold invalidate
  dsimp only
  split <;> rfl

theorem aside_forget (s : SessionSync) (key : Str) : Aside s (s.forget key) := by
  unfold forget
  split <;> exact ⟨rfl, rfl, rfl, rfl⟩

theorem aside_replayed (s : SessionSync) (now : ℚ) (keys : List Str) :
    Aside s (s.replayed now keys) := by
  have hpruned : Aside s (s.prune now) := ⟨rfl, rfl, rfl, rfl⟩
  exact List.foldlRecOn _ forget (motive := Aside s) hpruned
    fun t ht key _ => ht.trans (aside_forget t key)

theorem aside_observe (s : SessionSync) (now later : ℚ) (key : Str) (record : Fields)
    (replaying : Bool) : Aside s (s.observe S now later key record replaying) := by
  have hread : ∀ u : SessionSync, Aside u (u.observe S now later key record true) := by
    intro u
    simp only [observe, if_true]
    split
    · exact Aside.refl u
    · split_ifs
      · exact ⟨rfl, rfl, rfl, rfl⟩
      · exact aside_forget u key
  cases replaying with
  | true => exact hread s
  | false =>
    have hpruned : Aside s (s.prune now) := ⟨rfl, rfl, rfl, rfl⟩
    exact hpruned.trans (hread (s.prune now))

theorem aside_handle (s : SessionSync) (now later : ℚ) (e : Event) :
    Aside s (s.handle S now later e) := by
  cases e with
  | observe key record replaying => exact aside_observe s now later key record replaying
  | forget key => exact aside_forget s key
  | replayed keys => exact aside_replayed s now keys
  | _ => exact ⟨rfl, rfl, rfl, rfl⟩

/-! ## Where cached sessions come from -/

open Authorizer in
theorem adopts_forget {P : Session → Prop} (s : SessionSync) (key : Str) :
    Adopts P s.authorizer (s.forget key).authorizer := by
  unfold forget
  split
  · exact Adopts.refl P _
  · exact adopts_dropSession _ _

open Authorizer in
/-- Of the events only the watch brings a session into the cache. -/
theorem adopts_handle (s : SessionSync) (now later : ℚ) (e : Event) :
    Adopts (fun y => ∃ key record replaying, e = .observe key record replaying ∧
      parseSession S later record = some y) s.authorizer (s.handle S now later e).authorizer := by
  cases e with
  | get identity => exact adopts_get _ _ _
  | prune => exact adopts_prune _ _
  | casemapping value => exact adopts_setCasemapping _ _ _
  | disconnect => exact adopts_setCasemapping _ _ _
  | watchIdentity identity => exact Adopts.refl _ _
  | unwatchIdentity identity => exact Adopts.refl _ _
  | forget key => exact adopts_forget s key
  | replayed keys =>
    have hpruned : Adopts (fun _ => False) s.authorizer (s.prune now).authorizer := Adopts.refl _ _
    have hforgot : Adopts (fun _ => False) s.authorizer (s.replayed now keys).authorizer :=
      List.foldlRecOn _ forget
        (motive := fun t => Adopts (fun _ => False) s.authorizer t.authorizer) hpruned
        fun t ht key _ => ht.trans (adopts_forget t key)
    exact hforgot.mono fun _ hfalse => hfalse.elim
  | observe key record replaying =>
    have hread : ∀ u : SessionSync, Adopts (fun y => parseSession S later record = some y)
        u.authorizer (u.observe S now later key record true).authorizer := by
      intro u
      simp only [observe, if_true]
      split
      · exact Adopts.refl _ _
      · split_ifs
        · exact adopts_importSession _ _ _
        · exact adopts_forget u key
    have hobserve : Adopts (fun y => parseSession S later record = some y) s.authorizer
        (s.observe S now later key record replaying).authorizer := by
      cases replaying with
      | true => exact hread s
      | false => exact hread (s.prune now)
    exact hobserve.mono fun y hy => ⟨key, record, replaying, rfl, hy⟩

/-! ## The queue while it is drained -/

/-- `rest` is what remains of a snapshot that was taken when `since` dicts were made:
its entries are still queued, or have given way to later ones. -/
structure Drains (s : SessionSync) (since : ℕ) (rest : List (Str × Queued)) : Prop where
  distinct : Assoc.Distinct rest
  fresh : ∀ x ∈ rest, x.2.id < s.made
  same : ∀ x ∈ rest, ∀ y ∈ s.pending, y.2.id = x.2.id → y = x
  held : ∀ x ∈ rest, ∃ q, Assoc.lookup x.1 s.pending = some q ∧ (q = x.2 ∨ since ≤ q.id)
  since : since ≤ s.made

/-- The numbers of queued dicts tell them apart, and the holder of the lock drains. -/
structure Sound (s : SessionSync) : Prop where
  distinct : Assoc.Distinct s.pending
  fresh : ∀ x ∈ s.pending, x.2.id < s.made
  unique : ∀ x ∈ s.pending, ∀ y ∈ s.pending, y.2.id = x.2.id → y = x
  writing : ∀ w, s.writing = some w → w.since ≤ w.start ∧
    Drains s w.since ((w.key, w.entry) :: w.rest)

theorem sound_init : Sound init where
  distinct := List.nodup_nil
  fresh := by simp [init]
  unique := by simp [init]
  writing := by simp [init]

theorem Drains.congr {since : ℕ} {rest : List (Str × Queued)} (h : Drains s since rest)
    (hp : t.pending = s.pending) (hm : t.made = s.made) : Drains t since rest where
  distinct := h.distinct
  fresh := by rw [hm]; exact h.fresh
  same := by rw [hp]; exact h.same
  held := by rw [hp]; exact h.held
  since := by rw [hm]; exact h.since

theorem Sound.congr (h : Sound s) (hp : t.pending = s.pending) (hm : t.made = s.made)
    (hwriting : t.writing = s.writing) : Sound t where
  distinct := by rw [hp]; exact h.distinct
  fresh := by rw [hp, hm]; exact h.fresh
  unique := by rw [hp]; exact h.unique
  writing := by
    intro w hw
    rw [hwriting] at hw
    obtain ⟨hstart, hdrains⟩ := h.writing w hw
    exact ⟨hstart, hdrains.congr hp hm⟩

theorem Sound.aside (h : Sound s) (hst : Aside s t) : Sound t :=
  h.congr hst.pending hst.made hst.writing

/-- Releasing the lock. -/
theorem Sound.release (h : Sound s) : Sound { s with writing := none } where
  distinct := h.distinct
  fresh := h.fresh
  unique := h.unique
  writing := by simp

theorem Drains.tail {since : ℕ} {x : Str × Queued} {rest : List (Str × Queued)}
    (h : Drains s since (x :: rest)) : Drains s since rest where
  distinct := (List.nodup_cons.mp h.distinct).2
  fresh := fun y hy => h.fresh y (List.mem_cons_of_mem _ hy)
  same := fun y hy => h.same y (List.mem_cons_of_mem _ hy)
  held := fun y hy => h.held y (List.mem_cons_of_mem _ hy)
  since := h.since

theorem Drains.enqueue {since : ℕ} {rest : List (Str × Queued)} (h : Drains s since rest)
    (key : Str) (session : Fields) : Drains (s.enqueue key session) since rest where
  distinct := h.distinct
  fresh := fun x hx => Nat.lt_succ_of_lt (h.fresh x hx)
  same := by
    intro x hx y hy hid
    rcases Assoc.mem_assign hy with rfl | hy
    · have hlt := h.fresh x hx
      rw [← hid] at hlt
      exact absurd hlt (lt_irrefl _)
    · exact h.same x hx y hy hid
  held := by
    intro x hx
    by_cases hkey : key = x.1
    · subst hkey
      exact ⟨_, Assoc.lookup_assign_self _ _ _, .inr h.since⟩
    · obtain ⟨q, hq, hor⟩ := h.held x hx
      exact ⟨q, (Assoc.lookup_assign_of_ne _ _ hkey).trans hq, hor⟩
  since := h.since.trans (Nat.le_succ _)

/-- The entry of a snapshot is taken out of the queue; the others stay. -/
theorem Drains.discard {since : ℕ} {x : Str × Queued} {rest : List (Str × Queued)}
    (h : Drains s since (x :: rest)) :
    Drains { s with pending := Assoc.discard x.1 s.pending } since rest where
  distinct := h.tail.distinct
  fresh := h.tail.fresh
  same := fun y hy z hz => h.tail.same y hy z (List.mem_of_mem_filter hz)
  held := by
    intro y hy
    have hne : x.1 ≠ y.1 := by
      intro heq
      exact (List.nodup_cons.mp h.distinct).1 (List.mem_map.mpr ⟨y, hy, heq.symm⟩)
    obtain ⟨q, hq, hor⟩ := h.tail.held y hy
    exact ⟨q, (Assoc.lookup_discard_of_ne _ hne).trans hq, hor⟩
  since := h.since

theorem Sound.enqueue (h : Sound s) (key : Str) (session : Fields) :
    Sound (s.enqueue key session) where
  distinct := h.distinct.assign _ _
  fresh := by
    intro x hx
    rcases Assoc.mem_assign hx with rfl | hx
    · exact Nat.lt_succ_self _
    · exact Nat.lt_succ_of_lt (h.fresh x hx)
  unique := by
    intro x hx y hy hid
    rcases Assoc.mem_assign hx with rfl | hx <;> rcases Assoc.mem_assign hy with rfl | hy
    · rfl
    · exact absurd (hid ▸ h.fresh y hy) (lt_irrefl _)
    · exact absurd (hid ▸ h.fresh x hx) (lt_irrefl _)
    · exact h.unique x hx y hy hid
  writing := by
    intro w hw
    obtain ⟨hstart, hdrains⟩ := h.writing w hw
    exact ⟨hstart, hdrains.enqueue key session⟩

theorem Sound.discard (h : Sound s) (hw : s.writing = none) (key : Str) :
    Sound { s with pending := Assoc.discard key s.pending } where
  distinct := List.Nodup.sublist (List.Sublist.map _ List.filter_sublist) h.distinct
  fresh := fun x hx => h.fresh x (List.mem_of_mem_filter hx)
  unique := fun x hx y hy =>
    h.unique x (List.mem_of_mem_filter hx) y (List.mem_of_mem_filter hy)
  writing := by simp [hw]

/-- A call queues its dict, unless what is queued under the key ranks as high. -/
theorem queue_cases (s : SessionSync) (now : ℚ) (identity : Str) (session : Fields) :
    (s.queue S now identity session = s.enqueue (casefold identity .ascii) session ∧
      ∀ q, s.queuedSession S now (casefold identity .ascii) = some q →
        ∃ i, parseSession S now session = some i ∧ q.order < i.order) ∨
    (s.queue S now identity session = s ∧
      ∃ q, s.queuedSession S now (casefold identity .ascii) = some q ∧
        ∀ i, parseSession S now session = some i → i.order ≤ q.order) := by
  unfold queue
  dsimp only
  split
  · rename_i hqueued
    exact .inl ⟨rfl, by simp [hqueued]⟩
  · rename_i queued incoming hqueued hincoming
    split_ifs with hlt
    · refine .inl ⟨rfl, fun q hq => ?_⟩
      rw [hqueued] at hq
      obtain rfl := Option.some.inj hq
      exact ⟨incoming, hincoming, hlt⟩
    · refine .inr ⟨rfl, queued, hqueued, fun i hi => ?_⟩
      rw [hincoming] at hi
      obtain rfl := Option.some.inj hi
      exact not_lt.mp hlt
  · rename_i queued hqueued hincoming
    exact .inr ⟨rfl, queued, hqueued, by simp [hincoming]⟩

/-- A call never lowers what is queued under a key. -/
theorem queuedSession_queue (identity : Str)
    (session : Fields) {key : Str} {p : Session} (h : s.queuedSession S now key = some p) :
    ∃ p', (s.queue S now identity session).queuedSession S now key = some p' ∧
      p.order ≤ p'.order := by
  rcases queue_cases (S := S) s now identity session with ⟨heq, hlt⟩ | ⟨heq, -⟩
  · rw [heq]
    by_cases hkey : casefold identity .ascii = key
    · subst hkey
      obtain ⟨i, hi, horder⟩ := hlt p h
      exact ⟨i, by simpa [queuedSession, enqueue] using hi, horder.le⟩
    · refine ⟨p, ?_, le_rfl⟩
      rw [queuedSession, enqueue, Assoc.lookup_assign_of_ne _ _ hkey]
      exact h
  · rw [heq]
    exact ⟨p, h, le_rfl⟩

/-- After a call a record of at least its order is queued. -/
theorem queuedSession_handed (s : SessionSync) (identity : Str)
    {session : Fields} {r : Session} (h : parseSession S now session = some r) :
    ∃ p, (s.queue S now identity session).queuedSession S now (casefold identity .ascii) =
      some p ∧ r.order ≤ p.order := by
  rcases queue_cases (S := S) s now identity session with ⟨heq, -⟩ | ⟨heq, q, hq, hle⟩
  · rw [heq]
    exact ⟨r, by simpa [queuedSession, enqueue] using h, le_rfl⟩
  · rw [heq]
    exact ⟨q, hq, hle r h⟩

theorem Sound.queue (h : Sound s) (now : ℚ) (identity : Str) (session : Fields) :
    Sound (s.queue S now identity session) := by
  rcases queue_cases (S := S) s now identity session with ⟨heq, -⟩ | ⟨heq, -⟩
  · rw [heq]
    exact h.enqueue _ _
  · rw [heq]
    exact h

/-- The cache and the waiting calls do not enter into `queue`. -/
theorem queue_congr (s : SessionSync) (a : Authorizer) (tasks : List SyncTask) (now : ℚ)
    (identity : Str) (session : Fields) :
    { s with authorizer := a, waiting := tasks }.queue S now identity session =
      { s.queue S now identity session with authorizer := a, waiting := tasks } := by
  unfold queue
  dsimp only [queuedSession]
  split
  · rfl
  · split_ifs <;> rfl
  · rfl

@[simp] theorem queue_writing (s : SessionSync) (now : ℚ) (identity : Str) (session : Fields) :
    (s.queue S now identity session).writing = s.writing := by
  rcases queue_cases (S := S) s now identity session with ⟨heq, -⟩ | ⟨heq, -⟩
  · rw [heq]
    rfl
  · rw [heq]

theorem queue_authorizer (s : SessionSync) (now : ℚ) (identity : Str) (session : Fields) :
    (s.queue S now identity session).authorizer = s.authorizer := by
  rcases queue_cases (S := S) s now identity session with ⟨heq, -⟩ | ⟨heq, -⟩
  · rw [heq]
    rfl
  · rw [heq]

theorem queue_waiting (s : SessionSync) (now : ℚ) (identity : Str) (session : Fields) :
    (s.queue S now identity session).waiting = s.waiting := by
  rcases queue_cases (S := S) s now identity session with ⟨heq, -⟩ | ⟨heq, -⟩
  · rw [heq]
    rfl
  · rw [heq]

/-- `proceed` moves the holder of the lock alone. -/
theorem proceed_eq (s : SessionSync) (task : SyncTask) (since : ℕ) (rest : List (Str × Queued)) :
    (s.proceed task since rest).1 = { s with writing := match rest with
      | [] => none
      | (key, entry) :: rest => some ⟨task, key, entry, rest, since, s.made⟩ } := by
  cases rest <;> rfl

theorem Sound.proceed (h : Sound s) {task : SyncTask} {since : ℕ} {rest : List (Str × Queued)}
    (hd : Drains s since rest) : Sound (s.proceed task since rest).1 := by
  rw [proceed_eq]
  refine { h.release with writing := ?_ }
  intro w hw
  cases rest with
  | nil => simp at hw
  | cons x rest =>
    obtain rfl := Option.some.inj hw
    exact ⟨hd.since, hd.congr rfl rfl⟩

/-- A snapshot of the whole queue. -/
theorem Sound.drains (h : Sound s) : Drains s s.made s.pending where
  distinct := h.distinct
  fresh := h.fresh
  same := h.unique
  held := fun x hx => ⟨x.2, h.distinct.lookup hx, .inl rfl⟩
  since := le_rfl

theorem Sound.acquire (h : Sound s) {r : SessionSync × Option SyncOutcome}
    (hr : s.acquire S now = some r) : Sound r.1 := by
  unfold SessionSync.acquire at hr
  split at hr
  · rename_i identity session waiting hwriting hwaiting
    obtain rfl := Option.some.inj hr
    have hwaits : Sound { s with waiting := waiting } := h.congr rfl rfl rfl
    have hqueue := hwaits.queue (S := S) now identity session
    exact hqueue.proceed hqueue.drains
  · rename_i waiting hwriting hwaiting
    obtain rfl := Option.some.inj hr
    have hwaits : Sound { s with waiting := waiting } := h.congr rfl rfl rfl
    exact hwaits.proceed hwaits.drains
  · simp at hr

/-- `r` is `q` with a call fewer at the lock, and with a drain of the whole queue. -/
structure Takes (q r : SessionSync) : Prop where
  authorizer : r.authorizer = q.authorizer
  pending : r.pending = q.pending
  watched : r.watched = q.watched
  watchedIdentities : r.watchedIdentities = q.watchedIdentities
  drains : ∀ w, r.writing = some w → (w.key, w.entry) :: w.rest = q.pending

theorem takes_proceed (q : SessionSync) (waiting : List SyncTask) (task : SyncTask) :
    Takes q ({ q with waiting := waiting }.proceed task q.made q.pending).1 := by
  rw [proceed_eq]
  refine ⟨rfl, rfl, rfl, rfl, fun w hw => ?_⟩
  cases hp : q.pending with
  | nil => simp [hp] at hw
  | cons x rest =>
    obtain ⟨key, entry⟩ := x
    rw [hp] at hw
    obtain rfl := Option.some.inj hw
    rfl

/-- The call that gets the lock is the first that waits, and queues what it brings. -/
theorem acquire_cases {r : SessionSync × Option SyncOutcome} (hr : s.acquire S now = some r) :
    s.writing = none ∧
    ((∃ identity session, s.waiting = .sync identity session :: r.1.waiting ∧
      Takes (s.queue S now identity session) r.1) ∨
    (s.waiting = .retry :: r.1.waiting ∧ Takes s r.1)) := by
  unfold SessionSync.acquire at hr
  split at hr
  · rename_i identity session waiting hwriting hwaiting
    obtain rfl := Option.some.inj hr
    refine ⟨hwriting, .inl ⟨identity, session, ?_, ?_⟩⟩
    · simp only [proceed_eq, queue_waiting, hwaiting]
    · have hcongr := queue_congr (S := S) s s.authorizer waiting now identity session
      have htakes := takes_proceed (s.queue S now identity session) waiting (.sync identity session)
      have hcache := queue_authorizer (S := S) s now identity session
      rw [show ({ s with waiting := waiting } : SessionSync) =
        { s with authorizer := s.authorizer, waiting := waiting } from rfl, hcongr]
      simpa only [hcache] using htakes
  · rename_i waiting hwriting hwaiting
    obtain rfl := Option.some.inj hr
    refine ⟨hwriting, .inr ⟨?_, takes_proceed s waiting SyncTask.retry⟩⟩
    simp only [proceed_eq, hwaiting]
  · simp at hr

/-- `write` finds its entry replaced, replaces it by a revocation of the winner, or
takes it out of the queue. -/
theorem settle_cases (s : SessionSync) (now later : ℚ) (w : SessionWrite) (stored : Fields) :
    ((Assoc.lookup w.key s.pending).map Queued.id ≠ some w.entry.id ∧
      s.settle S now later w stored = s) ∨
    ((Assoc.lookup w.key s.pending).map Queued.id = some w.entry.id ∧
      ((∃ r, escalation S now w.entry.session stored = some r ∧ s.settle S now later w stored =
        { s with authorizer := s.authorizer.importSession S later r.asdict }.enqueue w.key
          r.asdict) ∨
      (escalation S now w.entry.session stored = none ∧ s.settle S now later w stored =
        { s with pending := Assoc.discard w.key s.pending }))) := by
  unfold settle
  split_ifs with hid
  · refine .inr ⟨hid, ?_⟩
    cases hesc : escalation S now w.entry.session stored with
    | none => exact .inr ⟨rfl, rfl⟩
    | some r => exact .inl ⟨r, rfl, rfl⟩
  · exact .inl ⟨hid, rfl⟩

/-- What a write does to its entry and to the cache; the drain goes on with the rest. -/
theorem written_cases (s : SessionSync) (now₁ now₂ now₃ : ℚ) (w : SessionWrite)
    (stored : Fields) :
    let t := (s.written S now₁ now₂ now₃ w stored).1
    t.waiting = s.waiting ∧ t.watched = s.watched ∧
    (((Assoc.lookup w.key s.pending).map Queued.id ≠ some w.entry.id ∧ t.pending = s.pending ∧
      t.authorizer = s.authorizer.importSession S now₁ stored) ∨
    ((Assoc.lookup w.key s.pending).map Queued.id = some w.entry.id ∧
      ((∃ r, escalation S now₂ w.entry.session stored = some r ∧
        t.pending = Assoc.assign w.key ⟨s.made, r.asdict⟩ s.pending ∧ t.authorizer =
          (s.authorizer.importSession S now₁ stored).importSession S now₃ r.asdict) ∨
      (escalation S now₂ w.entry.session stored = none ∧
        t.pending = Assoc.discard w.key s.pending ∧
        t.authorizer = s.authorizer.importSession S now₁ stored)))) := by
  intro t
  have ht : t = (s.written S now₁ now₂ now₃ w stored).1 := rfl
  rw [written, proceed_eq] at ht
  rcases settle_cases (S := S) { s with
      authorizer := s.authorizer.importSession S now₁ stored
      writing := none } now₂ now₃ w stored with ⟨hid, heq⟩ | ⟨hid, ⟨r, hr, heq⟩ | ⟨hnone, heq⟩⟩
  · rw [ht, heq]
    exact ⟨rfl, rfl, .inl ⟨hid, rfl, rfl⟩⟩
  · rw [ht, heq]
    exact ⟨rfl, rfl, .inr ⟨hid, .inl ⟨r, hr, rfl, rfl⟩⟩⟩
  · rw [ht, heq]
    exact ⟨rfl, rfl, .inr ⟨hid, .inr ⟨hnone, rfl, rfl⟩⟩⟩

theorem Sound.settle (h : Sound s) (now later : ℚ) (hw : s.writing = none)
    (hd : Drains s w.since ((w.key, w.entry) :: w.rest)) (stored : Fields) :
    Sound (s.settle S now later w stored) ∧
      Drains (s.settle S now later w stored) w.since w.rest := by
  rcases settle_cases (S := S) s now later w stored with ⟨-, heq⟩ | ⟨-, ⟨r, -, heq⟩ | ⟨-, heq⟩⟩
  · rw [heq]
    exact ⟨h, hd.tail⟩
  · rw [heq]
    have haside : Sound { s with authorizer := s.authorizer.importSession S later r.asdict } :=
      h.congr rfl rfl rfl
    have hdrains : Drains { s with authorizer := s.authorizer.importSession S later r.asdict }
        w.since w.rest := hd.tail.congr rfl rfl
    exact ⟨haside.enqueue _ _, hdrains.enqueue _ _⟩
  · rw [heq]
    exact ⟨h.discard hw _, hd.discard⟩

theorem Sound.written (h : Sound s) (hw : s.writing = some w) (now₁ now₂ now₃ : ℚ)
    (stored : Fields) : Sound (s.written S now₁ now₂ now₃ w stored).1 := by
  obtain ⟨-, hd⟩ := h.writing w hw
  have hreleased : Sound { s with
      authorizer := s.authorizer.importSession S now₁ stored
      writing := none } := h.release.congr rfl rfl rfl
  obtain ⟨hsettled, hrest⟩ := hreleased.settle (S := S) now₂ now₃ (w := w) rfl
    (hd.congr rfl rfl) stored
  exact hsettled.proceed hrest

theorem Sound.leave (h : Sound s) (task : SyncTask) : Sound (s.leave task).1 := h.release

/-- `revoke` has nothing to revoke, or queues the revocation it caches and calls `retry`. -/
theorem revoke_cases (s : SessionSync) (now : ℚ) (identity : Str) :
    (s.authorizer.revoke S identity = none ∧
      s.revoke S now identity = s.invalidate identity) ∨
    ∃ r a, s.authorizer.revoke S identity = some (r, a) ∧ s.revoke S now identity =
      { (s.invalidate identity).queue S now r.ircPrefix r.asdict with
        authorizer := a
        waiting := s.waiting ++ [.retry] } := by
  have hwaiting := (aside_invalidate s identity).waiting
  unfold revoke
  dsimp only
  rw [invalidate_authorizer]
  cases hr : s.authorizer.revoke S identity with
  | none => exact .inl ⟨rfl, rfl⟩
  | some r =>
    obtain ⟨r, a⟩ := r
    refine .inr ⟨r, a, rfl, ?_⟩
    have hcongr := queue_congr (S := S) (s.invalidate identity) a (s.invalidate identity).waiting
      now r.ircPrefix r.asdict
    rw [← hwaiting]
    exact congrArg (fun t : SessionSync => { t with waiting := t.waiting ++ [SyncTask.retry] }) hcongr

theorem Sound.revoke (h : Sound s) (now : ℚ) (identity : Str) :
    Sound (s.revoke S now identity) := by
  have hinvalid := h.aside (aside_invalidate s identity)
  rcases revoke_cases (S := S) s now identity with ⟨-, heq⟩ | ⟨r, a, -, heq⟩
  · rw [heq]
    exact hinvalid
  · rw [heq]
    exact (hinvalid.queue (S := S) now r.ircPrefix r.asdict).congr rfl rfl rfl

/-- A write does not touch the entries of other keys. -/
theorem written_lookup_of_ne {key : Str} (hne : w.key ≠ key) (now₁ now₂ now₃ : ℚ)
    (stored : Fields) : Assoc.lookup key (s.written S now₁ now₂ now₃ w stored).1.pending =
      Assoc.lookup key s.pending := by
  obtain ⟨-, -, ⟨-, heq, -⟩ | ⟨-, ⟨r, -, heq, -⟩ | ⟨-, heq, -⟩⟩⟩ :=
    written_cases (S := S) s now₁ now₂ now₃ w stored
  · rw [heq]
  · rw [heq, Assoc.lookup_assign_of_ne _ _ hne]
  · rw [heq, Assoc.lookup_discard_of_ne _ hne]

/-- The queued entry that has the number of the one under way is that one. -/
theorem Sound.current (h : Sound s) (hw : s.writing = some w)
    (hid : (Assoc.lookup w.key s.pending).map Queued.id = some w.entry.id) :
    Assoc.lookup w.key s.pending = some w.entry := by
  obtain ⟨q, hq, hqid⟩ := Option.map_eq_some_iff.mp hid
  obtain ⟨-, hd⟩ := h.writing w hw
  have heq := hd.same _ List.mem_cons_self _ (Assoc.mem_of_lookup hq) hqid
  exact hq.trans (congrArg (fun x : Str × Queued => some x.2) heq)

/-- A write takes out or replaces its own entry alone. -/
theorem Sound.written_lookup (h : Sound s) (hw : s.writing = some w) (now₁ now₂ now₃ : ℚ)
    (stored : Fields) : Assoc.lookup w.key (s.written S now₁ now₂ now₃ w stored).1.pending =
        Assoc.lookup w.key s.pending ∨ Assoc.lookup w.key s.pending = some w.entry := by
  obtain ⟨-, -, ⟨-, heq, -⟩ | ⟨hid, -⟩⟩ := written_cases (S := S) s now₁ now₂ now₃ w stored
  · exact .inl (congrArg (Assoc.lookup w.key) heq)
  · exact .inr (h.current hw hid)

/-- The replacement is the revocation of the session that won. -/
theorem escalation_eq_some {session stored : Fields} {r : Session}
    (h : escalation S now session stored = some r) :
    ∃ v, parseSession S now stored = some v ∧ v.revoked = false ∧ r = revocationOf S v := by
  unfold escalation at h
  split at h
  · rename_i v _ hv
    split_ifs at h with hrevoked
    exact ⟨v, hv, Bool.not_eq_true _ ▸ hrevoked, (Option.some.inj h).symm⟩
  · simp at h

open Authorizer in
/-- A write brings the stored session into the cache, and the revocation it queues. -/
theorem adopts_written (s : SessionSync) (now₁ now₂ now₃ : ℚ) (w : SessionWrite)
    (stored : Fields) : Adopts (fun y => parseSession S now₁ stored = some y ∨
      ∃ r q, escalation S now₂ w.entry.session stored = some r ∧
        Assoc.lookup w.key (s.written S now₁ now₂ now₃ w stored).1.pending = some q ∧
        q.session = r.asdict ∧ parseSession S now₃ r.asdict = some y)
      s.authorizer (s.written S now₁ now₂ now₃ w stored).1.authorizer := by
  have himport := adopts_importSession (S := S) s.authorizer now₁ stored
  obtain ⟨-, -, ⟨-, -, heq⟩ | ⟨-, ⟨r, hr, hpending, heq⟩ | ⟨-, -, heq⟩⟩⟩ :=
    written_cases (S := S) s now₁ now₂ now₃ w stored
  · rw [heq]
    exact himport.mono fun y hy => .inl hy
  · rw [heq, hpending]
    refine (himport.mono fun y hy => .inl hy).trans
      ((adopts_importSession (S := S) _ now₃ r.asdict).mono fun y hy => .inr ?_)
    exact ⟨r, _, hr, Assoc.lookup_assign_self _ _ _, rfl, hy⟩
  · rw [heq]
    exact himport.mono fun y hy => .inl hy

theorem written_waiting (s : SessionSync) (now₁ now₂ now₃ : ℚ) (w : SessionWrite)
    (stored : Fields) : (s.written S now₁ now₂ now₃ w stored).1.waiting = s.waiting :=
  (written_cases s now₁ now₂ now₃ w stored).1

end SessionSync

end Botnats
