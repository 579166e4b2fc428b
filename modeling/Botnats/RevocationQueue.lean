import Botnats.Machine
import Botnats.SessionSync

/-!
# Queued revocations

One bot's `SessionSync` in any order of its calls, with the answers of `put_session`
coming late, failing, or naming another writer's record. From the moment a revocation
is handed to `queue` until it expires, the queue holds a record of at least its order
under its key, or a write for that key has returned one. A write that was under way
when the revocation came counts: the queue keeps its record, which ranks as high.
-/
namespace Botnats

open Json

/-- What the statements refer to: a revocation is handed to `queue` under its key, and a
write that was issued when the trace had a given length returns a record of an order. -/
inductive SyncNote
  | handed (key : Str) (revocation : Session)
  | done (key : Str) (issued : ℕ) (order : SessionOrder)
  deriving DecidableEq

/-- `trace` is newest first; `issued` is its length when the last write was issued. -/
structure SyncRun where
  sync : SessionSync
  now : ℚ
  trace : List SyncNote
  issued : ℕ

/-- `grant` is the part of an AUTH that mints a session and calls `sync`. `queue` and
`sync` are calls with any dict, within the horizon as those that callers make are. -/
inductive SyncStep
  | clock (now : ℚ)
  | event (later : ℚ) (e : SessionSync.Event)
  | grant (issuer identity : Str)
  | revoke (identity : Str)
  | queue (identity : Str) (session : Fields)
  | sync (identity : Str) (session : Fields)
  | retry
  | acquire
  | stored (value : Fields) (later latest : ℚ)
  | failed
  | raised

namespace SyncRun

def init (now : ℚ) : SyncRun := ⟨SessionSync.init, now, [], 0⟩

variable (S : SessionScope)

/-- What `queue` is handed, if it is a revocation of the identity. -/
def handedNotes (identity : Str) (session : Fields) : List SyncNote :=
  match parseSessionRecord S session with
  | none => []
  | some r =>
    if r.revoked ∧ casefold r.ircPrefix .ascii = casefold identity .ascii then
      [.handed (casefold identity .ascii) r]
    else []

/-- No session beyond the horizon -/
def within (now : ℚ) (session : Fields) : Bool :=
  match parseSessionRecord S session with
  | none => true
  | some r => decide (r.expiresAt ≤ S.horizon now)

/-- Notes are added, and a write may be issued. -/
def advance (s : SyncRun) (sync : SessionSync) (now : ℚ) (notes : List SyncNote) : SyncRun :=
  ⟨sync, now, notes ++ s.trace, (notes ++ s.trace).length⟩

/-- The notes of the call that gets the lock -/
def acquireNotes (s : SyncRun) : List SyncNote :=
  match s.sync.waiting with
  | .sync identity session :: _ => handedNotes S identity session
  | _ => []

/-- The notes of a call of `revoke` -/
def revokeNotes (s : SyncRun) (identity : Str) : List SyncNote :=
  match (s.sync.invalidate identity).authorizer.revoke S identity with
  | none => []
  | some (revoked, _) => handedNotes S revoked.ircPrefix revoked.asdict

def step (s : SyncRun) : SyncStep → Option SyncRun
  | .clock now => if s.now ≤ now then some { s with now := now } else none
  | .event later e =>
    if s.now ≤ later then some { s with sync := s.sync.handle S s.now later e, now := later }
    else none
  | .grant issuer identity =>
    if issuer ≠ [] ∧ encodable issuer ∧ identity ≠ [] ∧ encodable identity then
      let granted := s.sync.authorizer.grant S issuer s.now identity
      some { s with
        sync := { s.sync with
          authorizer := granted.2
          waiting := s.sync.waiting ++ [.sync identity granted.1.asdict] } }
    else none
  | .revoke identity =>
    some { s with
      sync := s.sync.revoke S s.now identity
      trace := s.revokeNotes S identity ++ s.trace }
  | .queue identity session =>
    if within S s.now session then
      some { s with
        sync := s.sync.queue S s.now identity session
        trace := handedNotes S identity session ++ s.trace }
    else none
  | .sync identity session =>
    if within S s.now session then
      some { s with sync := { s.sync with waiting := s.sync.waiting ++ [.sync identity session] } }
    else none
  | .retry => some { s with sync := { s.sync with waiting := s.sync.waiting ++ [.retry] } }
  | .acquire =>
    (s.sync.acquire S s.now).map fun r => s.advance r.1 s.now (s.acquireNotes S)
  | .stored value later latest =>
    match s.sync.writing with
    | none => none
    | some w =>
      -- `SessionStore.put` returns the record it was given, or one that it may not replace.
      match sessionOrder S w.key (.obj w.entry.session), sessionOrder S w.key (.obj value) with
      | some own, some order =>
        if own ≤ order ∧ s.now ≤ later ∧ later ≤ latest then
          some (s.advance (s.sync.written S s.now later latest w value).1 latest
            [.done w.key s.issued order])
        else none
      | _, _ => none
  | .failed =>
    match s.sync.writing with
    | none => none
    | some w => some { s with sync := (s.sync.failed w).1 }
  | .raised =>
    match s.sync.writing with
    | none => none
    | some _ => some { s with sync := s.sync.raised }

/-- A record of at least the order of `r` is queued under its key. -/
def Queues (s : SyncRun) (key : Str) (r : Session) : Prop :=
  ∃ p, s.sync.queuedSession S s.now key = some p ∧ r.order ≤ p.order

/-- A write for the key returned a record of at least the order of `r`. -/
def Wrote (notes : List SyncNote) (key : Str) (r : Session) : Prop :=
  ∃ issued order, SyncNote.done key issued order ∈ notes ∧ r.order ≤ order

/-- No revocation that was handed in is lost before it expires. -/
def Kept (s : SyncRun) : Prop :=
  ∀ newer older key r, s.trace = newer ++ .handed key r :: older → s.now < r.expiresAt →
    Queues S s key r ∨ Wrote newer key r

structure Inv (s : SyncRun) : Prop where
  sound : s.sync.Sound
  bounded : s.sync.authorizer.Bounded S s.now
  tasks : ∀ identity session, .sync identity session ∈ s.sync.waiting →
    within S s.now session = true
  kept : Kept S s

variable {S} {s t : SyncRun}

theorem within_iff {now : ℚ} {session : Fields} : within S now session = true ↔
    ∀ r, parseSessionRecord S session = some r → r.expiresAt ≤ S.horizon now := by
  unfold within
  split
  · rename_i hparse
    simp [hparse]
  · rename_i r hparse
    simp [hparse]

theorem within_mono {now later : ℚ} {session : Fields} (h : within S now session = true)
    (hle : now ≤ later) : within S later session = true :=
  within_iff.mpr fun r hr => (within_iff.mp h r hr).trans (SessionScope.horizon_mono hle)

theorem inv_init (now : ℚ) : Inv S (init now) where
  sound := SessionSync.sound_init
  bounded := by simp [Authorizer.Bounded, Authorizer.Caches, init, SessionSync.init]
  tasks := by simp [init, SessionSync.init]
  kept := by simp [Kept, init]

/-- What `queue` notes is a revocation under its own key. -/
theorem handed_of_mem {identity key : Str} {session : Fields} {r : Session}
    (h : .handed key r ∈ handedNotes S identity session) :
    parseSessionRecord S session = some r ∧ key = casefold identity .ascii := by
  unfold handedNotes at h
  split at h
  · simp at h
  · rename_i r' hparse
    split_ifs at h
    · obtain ⟨rfl, rfl⟩ := SyncNote.handed.inj (List.mem_singleton.mp h)
      exact ⟨hparse, rfl⟩
    · simp at h

/-- A trace grows by notes in front: an earlier revocation keeps its place. -/
theorem split_trace {notes old newer older : List SyncNote} {key : Str} {r : Session}
    (h : notes ++ old = newer ++ .handed key r :: older) :
    .handed key r ∈ notes ∨ ∃ later, newer = notes ++ later ∧
      old = later ++ .handed key r :: older := by
  rcases List.append_eq_append_iff.mp h with ⟨later, rfl, hold⟩ | ⟨later, hnotes, -⟩
  · exact .inr ⟨later, rfl, hold⟩
  · cases later with
    | nil => exact .inr ⟨[], by simpa using hnotes.symm, by simp_all⟩
    | cons x later => exact .inl (by simp_all)

theorem Wrote.mono {notes notes' : List SyncNote} {key : Str} {r : Session}
    (h : Wrote notes key r) (hsub : ∀ x ∈ notes, x ∈ notes') : Wrote notes' key r := by
  obtain ⟨issued, order, hmem, hle⟩ := h
  exact ⟨issued, order, hsub _ hmem, hle⟩

/-- What was queued stays queued as long as the queue and the expiry allow. -/
theorem Queues.later {key : Str} {r : Session} (h : Queues S s key r)
    (hp : Assoc.lookup key t.sync.pending = Assoc.lookup key s.sync.pending)
    (hle : s.now ≤ t.now) (hlive : t.now < r.expiresAt) : Queues S t key r := by
  obtain ⟨p, hqueued, horder⟩ := h
  refine ⟨p, ?_, horder⟩
  obtain ⟨q, hq, hparse⟩ := Option.bind_eq_some_iff.mp hqueued
  rw [SessionSync.queuedSession, hp, hq]
  exact parseSession_later hparse hle (hlive.trans_le (Session.expiresAt_le horder))

/-- A step that adds notes keeps every revocation, if it keeps the queued ones or has
noted their write, and queues those it hands in. -/
theorem Kept.step (notes : List SyncNote) (h : Kept S s) (htrace : t.trace = notes ++ s.trace)
    (hle : s.now ≤ t.now)
    (hold : ∀ key r, t.now < r.expiresAt → Queues S s key r → Queues S t key r ∨ Wrote notes key r)
    (hnew : ∀ key r, t.now < r.expiresAt → .handed key r ∈ notes → Queues S t key r) :
    Kept S t := by
  intro newer older key r hsplit hlive
  rw [htrace] at hsplit
  rcases split_trace hsplit with hmem | ⟨later, rfl, hs⟩
  · exact .inl (hnew key r hlive hmem)
  · rcases h later older key r hs (hle.trans_lt hlive) with hqueued | hwrote
    · rcases hold key r hlive hqueued with hqueued | hwrote
      · exact .inl hqueued
      · exact .inr (hwrote.mono fun x hx => List.mem_append_left _ hx)
    · exact .inr (hwrote.mono fun x hx => List.mem_append_right _ hx)

/-- A step that leaves the queue alone keeps every revocation. -/
theorem Kept.aside (h : Kept S s) (htrace : t.trace = s.trace)
    (hp : t.sync.pending = s.sync.pending) (hle : s.now ≤ t.now) : Kept S t := by
  refine h.step [] (by simpa using htrace) hle (fun key r hlive hq => ?_) (by simp)
  exact .inl (hq.later (by rw [hp]) hle hlive)

/-! ## Calls of `queue` -/

/-- A call of `queue` keeps every revocation, its own included. -/
theorem Kept.queue {identity : Str} {session : Fields} (h : Kept S s)
    (hwithin : within S s.now session = true) (hnow : t.now = s.now)
    (hp : t.sync.pending = (s.sync.queue S s.now identity session).pending)
    (htrace : t.trace = handedNotes S identity session ++ s.trace) : Kept S t := by
  have hqueued : ∀ key, t.sync.queuedSession S t.now key =
      (s.sync.queue S s.now identity session).queuedSession S s.now key := by
    intro key
    rw [SessionSync.queuedSession, SessionSync.queuedSession, hp, hnow]
  refine h.step _ htrace hnow.ge (fun key r _ hq => .inl ?_) fun key r hlive hmem => ?_
  · obtain ⟨p, hq, horder⟩ := hq
    obtain ⟨p', hp', hle⟩ := SessionSync.queuedSession_queue identity session hq
    exact ⟨p', (hqueued key).trans hp', horder.trans hle⟩
  · obtain ⟨hparse, rfl⟩ := handed_of_mem hmem
    rw [hnow] at hlive
    obtain ⟨p, hp', hle⟩ := SessionSync.queuedSession_handed s.sync identity
      (parseSession_eq_some.mpr ⟨hparse, hlive, within_iff.mp hwithin r hparse⟩)
    exact ⟨p, (hqueued _).trans hp', hle⟩

/-! ## Writes -/

/-- The write of a record that ranks as high ends the need for it. -/
theorem Kept.written {w : SessionWrite} {value : Fields} {own order : SessionOrder}
    {later latest : ℚ} (h : Kept S s) (hsound : s.sync.Sound) (hw : s.sync.writing = some w)
    (hown : sessionOrder S w.key (.obj w.entry.session) = some own) (hle : own ≤ order)
    (hlater : s.now ≤ latest) :
    Kept S (s.advance (s.sync.written S s.now later latest w value).1 latest
      [.done w.key s.issued order]) := by
  refine h.step [.done w.key s.issued order] rfl hlater (fun key r hlive hq => ?_)
    (by simp)
  by_cases hkey : w.key = key
  · subst hkey
    rcases hsound.written_lookup (S := S) hw s.now later latest value with heq | hentry
    · exact .inl (hq.later heq hlater hlive)
    · -- the entry that was written is the one that ranks as high
      obtain ⟨p, hqueued, horder⟩ := hq
      rw [SessionSync.queuedSession, hentry, Option.bind_some] at hqueued
      obtain ⟨p', hp', -, rfl⟩ := sessionOrder_eq_some.mp hown
      rw [(parseSession_eq_some.mp hqueued).1] at hp'
      obtain rfl := Option.some.inj hp'
      exact .inr ⟨s.issued, order, List.mem_singleton_self _, horder.trans hle⟩
  · exact .inl (hq.later (SessionSync.written_lookup_of_ne hkey _ _ _ _) hlater hlive)

theorem Inv.revoke (h : Inv S s) (identity : Str) :
    Inv S { s with
      sync := s.sync.revoke S s.now identity
      trace := s.revokeNotes S identity ++ s.trace } := by
  have haside := SessionSync.aside_invalidate s.sync identity
  have hsame : (s.sync.invalidate identity).authorizer = s.sync.authorizer := by
    unfold SessionSync.invalidate
    dsimp only
    split <;> rfl
  have hsound := h.sound.revoke (S := S) s.now identity
  cases hrevoke : (s.sync.invalidate identity).authorizer.revoke S identity with
  | none =>
    have hnotes : s.revokeNotes S identity = [] := by rw [revokeNotes, hrevoke]
    have hsync : s.sync.revoke S s.now identity = s.sync.invalidate identity := by
      simp only [SessionSync.revoke, hrevoke]
    rw [hsync] at hsound ⊢
    rw [hnotes]
    refine ⟨hsound, hsame ▸ h.bounded, ?_, h.kept.aside rfl haside.pending le_rfl⟩
    simpa only [haside.waiting] using h.tasks
  | some r =>
    obtain ⟨revoked, authorizer⟩ := r
    obtain ⟨live, hlive, -, hrevoked, -⟩ := Authorizer.revoke_eq_some hrevoke
    have hold : (s.sync.invalidate identity).authorizer.Bounded S s.now := hsame ▸ h.bounded
    obtain ⟨hvalid, hhorizon⟩ := hold _ (Authorizer.caches_of_record hlive)
    have hsigned : revoked.Signed S := hrevoked ▸ hvalid.signed _ _ _
    have hexpires : revoked.expiresAt ≤ S.horizon s.now := hrevoked ▸ hhorizon
    have hbounded : authorizer.Bounded S s.now := by
      refine hold.adopts (Authorizer.adopts_revoke hrevoke) fun y hy => ?_
      rw [hy]
      exact ⟨hsigned.valid, hexpires⟩
    have hnotes : s.revokeNotes S identity = handedNotes S revoked.ircPrefix revoked.asdict := by
      rw [revokeNotes, hrevoke]
    have hwithin : within S s.now revoked.asdict = true := by
      rw [within_iff, hsigned.parse_asdict]
      intro r hr
      obtain rfl := Option.some.inj hr
      exact hexpires
    have hsync : s.sync.revoke S s.now identity =
        let u := { s.sync.invalidate identity with authorizer := authorizer }.queue S s.now
          revoked.ircPrefix revoked.asdict
        { u with waiting := u.waiting ++ [.retry] } := by
      simp only [SessionSync.revoke, hrevoke]
    rw [hsync] at hsound ⊢
    rw [hnotes]
    dsimp only at hsound ⊢
    refine ⟨hsound, ?_, ?_, ?_⟩
    · rw [SessionSync.queue_authorizer]
      exact hbounded
    · intro i d hmem
      rw [SessionSync.queue_waiting] at hmem
      rcases List.mem_append.mp hmem with hmem | hmem
      · exact h.tasks i d (haside.waiting ▸ hmem)
      · simp at hmem
    · have hkept : Kept S { s with
          sync := { s.sync.invalidate identity with authorizer := authorizer } } :=
        h.kept.aside rfl haside.pending le_rfl
      exact hkept.queue hwithin rfl rfl rfl

theorem Inv.acquire (h : Inv S s) {r : SessionSync × Option SessionSync.SyncOutcome}
    (hr : s.sync.acquire S s.now = some r) :
    Inv S (s.advance r.1 s.now (s.acquireNotes S)) := by
  have hsound := h.sound.acquire (S := S) hr
  unfold SessionSync.acquire at hr
  split at hr
  · rename_i identity session waiting hwriting hwaiting
    have hwithin := h.tasks identity session (by simp [hwaiting])
    have hnotes : s.acquireNotes S = handedNotes S identity session := by
      simp only [acquireNotes, hwaiting]
    obtain rfl := Option.some.inj hr
    rw [hnotes]
    refine ⟨hsound, ?_, ?_, ?_⟩
    · simp only [advance, SessionSync.proceed_eq, SessionSync.queue_authorizer]
      exact h.bounded
    · simp only [advance, SessionSync.proceed_eq, SessionSync.queue_waiting]
      exact fun i d hmem => h.tasks i d (hwaiting ▸ List.mem_cons_of_mem _ hmem)
    · have hkept : Kept S { s with sync := { s.sync with waiting := waiting } } :=
        h.kept.aside rfl rfl le_rfl
      refine hkept.queue hwithin rfl ?_ rfl
      simp only [advance, SessionSync.proceed_eq]
  · rename_i waiting hwriting hwaiting
    have hnotes : s.acquireNotes S = [] := by simp only [acquireNotes, hwaiting]
    obtain rfl := Option.some.inj hr
    rw [hnotes]
    refine ⟨hsound, ?_, ?_, ?_⟩
    · simp only [advance, SessionSync.proceed_eq]
      exact h.bounded
    · simp only [advance, SessionSync.proceed_eq]
      exact fun i d hmem => h.tasks i d (hwaiting ▸ List.mem_cons_of_mem _ hmem)
    · refine h.kept.aside rfl ?_ le_rfl
      simp only [advance, SessionSync.proceed_eq]
  · simp at hr

/-- A task joins those at the lock. -/
theorem Inv.wait (h : Inv S s) {task : SyncTask} {authorizer : Authorizer}
    (hbounded : authorizer.Bounded S s.now)
    (htask : ∀ identity session, task = .sync identity session →
      within S s.now session = true) :
    Inv S { s with
      sync := { s.sync with authorizer := authorizer, waiting := s.sync.waiting ++ [task] } } where
  sound := h.sound.congr rfl rfl rfl
  bounded := hbounded
  tasks := by
    intro i d hmem
    rcases List.mem_append.mp hmem with hmem | hmem
    · exact h.tasks i d hmem
    · exact htask i d (List.mem_singleton.mp hmem).symm
  kept := h.kept.aside rfl rfl le_rfl

theorem Inv.step {a : SyncStep} (h : Inv S s) (hst : step S s a = some t) : Inv S t := by
  cases a with
  | clock now =>
    simp only [SyncRun.step] at hst
    split_ifs at hst with hle
    obtain rfl := Option.some.inj hst
    exact ⟨h.sound, h.bounded.mono hle, fun i d hm => within_mono (h.tasks i d hm) hle,
      h.kept.aside rfl rfl hle⟩
  | event later e =>
    simp only [SyncRun.step] at hst
    split_ifs at hst with hle
    obtain rfl := Option.some.inj hst
    have haside := SessionSync.aside_handle (S := S) s.sync s.now later e
    refine ⟨h.sound.aside haside, ?_, fun i d hm => ?_, h.kept.aside rfl haside.pending hle⟩
    · refine (h.bounded.mono hle).adopts (SessionSync.adopts_handle s.sync s.now later e) ?_
      rintro y ⟨key, record, replaying, -, hy⟩
      exact Authorizer.bounded_of_parse hy
    · exact within_mono (h.tasks i d (haside.waiting ▸ hm)) hle
  | grant issuer identity =>
    simp only [SyncRun.step] at hst
    split_ifs at hst with hnames
    obtain rfl := Option.some.inj hst
    obtain ⟨hi, hie, hp, hpe⟩ := hnames
    have hsigned : (s.sync.authorizer.grant S issuer s.now identity).1.Signed S :=
      ⟨⟨hi, hie, hp, hpe⟩, rfl⟩
    have hexpires : (s.sync.authorizer.grant S issuer s.now identity).1.expiresAt ≤
        S.horizon s.now := by
      simp only [Authorizer.grant, createSession, SessionScope.horizon, sessionExpiryGrace]
      linarith
    refine h.wait ?_ fun i d htask => ?_
    · refine h.bounded.adopts (Authorizer.adopts_grant _ _ _ _) fun y hy => ?_
      rw [hy]
      exact ⟨hsigned.valid, hexpires⟩
    · obtain ⟨-, rfl⟩ := SyncTask.sync.inj htask
      rw [within_iff, hsigned.parse_asdict]
      intro r hr
      obtain rfl := Option.some.inj hr
      exact hexpires
  | revoke identity =>
    obtain rfl := Option.some.inj hst
    exact h.revoke identity
  | queue identity session =>
    simp only [SyncRun.step] at hst
    split_ifs at hst with hwithin
    obtain rfl := Option.some.inj hst
    refine ⟨h.sound.queue _ _ _, ?_, ?_, h.kept.queue hwithin rfl rfl rfl⟩
    · rw [SessionSync.queue_authorizer]
      exact h.bounded
    · rw [SessionSync.queue_waiting]
      exact h.tasks
  | sync identity session =>
    simp only [SyncRun.step] at hst
    split_ifs at hst with hwithin
    obtain rfl := Option.some.inj hst
    refine h.wait h.bounded fun i d htask => ?_
    obtain ⟨-, rfl⟩ := SyncTask.sync.inj htask
    exact hwithin
  | retry =>
    obtain rfl := Option.some.inj hst
    exact h.wait h.bounded (by simp)
  | acquire =>
    obtain ⟨r, hr, rfl⟩ := Option.map_eq_some_iff.mp hst
    exact h.acquire hr
  | stored value later latest =>
    simp only [SyncRun.step] at hst
    split at hst
    · simp at hst
    · rename_i w hw
      split at hst
      · rename_i own order hown horder
        split_ifs at hst with hle
        obtain rfl := Option.some.inj hst
        obtain ⟨hle, hlater, hlatest⟩ := hle
        refine ⟨h.sound.written hw _ _ _ _, ?_, ?_,
          h.kept.written h.sound hw hown hle (hlater.trans hlatest)⟩
        · refine (h.bounded.mono (hlater.trans hlatest)).adopts
            (SessionSync.adopts_written s.sync s.now later latest w value) ?_
          rintro y (hy | ⟨r, -, -, -, -, hy⟩)
          · obtain ⟨hvalid, hhorizon⟩ := Authorizer.bounded_of_parse hy
            exact ⟨hvalid, hhorizon.trans (SessionScope.horizon_mono (hlater.trans hlatest))⟩
          · exact Authorizer.bounded_of_parse hy
        · simp only [advance, SessionSync.written_waiting]
          exact fun i d hm => within_mono (h.tasks i d hm) (hlater.trans hlatest)
      · simp at hst
  | failed =>
    simp only [SyncRun.step] at hst
    split at hst
    · simp at hst
    · rename_i w hw
      obtain rfl := Option.some.inj hst
      exact ⟨h.sound.leave w.task, h.bounded, h.tasks, h.kept.aside rfl rfl le_rfl⟩
  | raised =>
    simp only [SyncRun.step] at hst
    split at hst
    · simp at hst
    · obtain rfl := Option.some.inj hst
      exact ⟨h.sound.release, h.bounded, h.tasks, h.kept.aside rfl rfl le_rfl⟩

/-- A revocation of the sample network, of version one -/
def sampleRevocation (ircPrefix : Str) (expiresAt : ℚ) : Session :=
  createSession sampleScope ircPrefix expiresAt (lit "bot") 1 true

end SyncRun

end Botnats
