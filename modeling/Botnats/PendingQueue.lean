import Botnats.Machine
import Botnats.AuthorizerImports
import Botnats.SessionBot

/-!
# What is pending can be written

The queue of a bot's session writes, driven by its grants, revocations and imports, by
changes of the casemapping and by the answers of the store. A queued record is signed, names
the identity that it is filed under and expires within the horizon, so that
`SessionStore.put` accepts it at every later clock reading.
-/
namespace Botnats

open Json

namespace Authorizer

variable {S : SessionScope} {a b : Authorizer} {now : ℚ} {r : Session} {identity issuer : Str}

/-- The revocation of a cached session can be written. -/
theorem Bounded.revoke (ha : a.Bounded S now) (hr : a.revoke S identity = some (r, b)) :
    r.Signed S ∧ r.expiresAt ≤ S.horizon now ∧ b.Bounded S now := by
  obtain ⟨x, hx, -, hrevocation, -⟩ := revoke_eq_some hr
  obtain ⟨hvalid, hhorizon⟩ := ha x (caches_of_record hx)
  have hsigned : r.Signed S := hrevocation ▸ hvalid.signed _ _ _
  have hexpires : r.expiresAt ≤ S.horizon now := hrevocation ▸ hhorizon
  refine ⟨hsigned, hexpires, ha.adopts (adopts_revoke hr) fun y hy => ?_⟩
  rw [hy]
  exact ⟨hsigned.valid, hexpires⟩

/-- So can a granted session. -/
theorem Bounded.grant (ha : a.Bounded S now) (hnames : issuer ≠ [] ∧ encodable issuer ∧
    identity ≠ [] ∧ encodable identity) :
    (a.grant S issuer now identity).1.Signed S ∧
      (a.grant S issuer now identity).1.expiresAt ≤ S.horizon now ∧
      (a.grant S issuer now identity).2.Bounded S now := by
  obtain ⟨hi, hie, hp, hpe⟩ := hnames
  have hsigned : (a.grant S issuer now identity).1.Signed S := ⟨⟨hi, hie, hp, hpe⟩, rfl⟩
  have hexpires : (a.grant S issuer now identity).1.expiresAt ≤ S.horizon now := by
    simp only [Authorizer.grant, createSession, SessionScope.horizon, sessionExpiryGrace]
    linarith
  refine ⟨hsigned, hexpires, ha.adopts (adopts_grant _ _ _ _) fun y hy => ?_⟩
  rw [hy]
  exact ⟨hsigned.valid, hexpires⟩

theorem Bounded.importValue (h : a.Bounded S now) (value : Json) :
    (a.importValue S now value).Bounded S now := by
  cases value with
  | obj record => exact h.adopts (adopts_importSession a now record) fun y hy => bounded_of_parse hy
  | _ => exact h

end Authorizer

namespace SessionSync

/-- `put` accepts what is queued, what the drain has taken from the queue and what the waiting
calls bring, and would accept what is cached. -/
structure Sendable (S : SessionScope) (now : ℚ) (u : SessionSync) : Prop where
  records : u.authorizer.Bounded S now
  entries : ∀ e, u.Entry e → sessionWritable S now e.1 (.obj e.2.session) = true
  waiting : ∀ i d, .sync i d ∈ u.waiting → sessionWritable S now i (.obj d) = true

variable {S : SessionScope} {u v : SessionSync} {now later latest : ℚ} {identity : Str}

theorem entry_queue {session : Fields} {e : Str × Queued}
    (he : (u.queue S now identity session).Entry e) :
    u.Entry e ∨ e.1 = casefold identity .ascii ∧ e.2.session = session := by
  rcases queue_cases (S := S) u now identity session with ⟨heq, -⟩ | ⟨heq, -⟩
  · rw [heq] at he
    rcases he with he | ⟨w, hw, he⟩
    · rcases Assoc.mem_assign he with rfl | he
      · exact .inr ⟨rfl, rfl⟩
      · exact .inl (.inl he)
    · exact .inl (.inr ⟨w, hw, he⟩)
  · rw [heq] at he
    exact .inl he

namespace Sendable

theorem init (now : ℚ) : Sendable S now SessionSync.init where
  records := by simp [Authorizer.Bounded, Authorizer.Caches, SessionSync.init]
  entries := by simp [Entry, SessionSync.init]
  waiting := by simp [SessionSync.init]

theorem mono (h : Sendable S now u) (hle : now ≤ later) : Sendable S later u where
  records := h.records.mono hle
  entries := fun e he => sessionWritable_mono (h.entries e he) hle
  waiting := fun i d hd => sessionWritable_mono (h.waiting i d hd) hle

/-- Only the cache changes. -/
theorem cache (h : Sendable S now u) {a : Authorizer} (ha : a.Bounded S now) :
    Sendable S now { u with authorizer := a } := ⟨ha, h.entries, h.waiting⟩

/-- A call joins those at the lock. -/
theorem wait (h : Sendable S now u) {task : SyncTask}
    (htask : ∀ i d, task = .sync i d → sessionWritable S now i (.obj d) = true) :
    Sendable S now { u with waiting := u.waiting ++ [task] } where
  records := h.records
  entries := h.entries
  waiting := by
    intro i d hmem
    rcases List.mem_append.mp hmem with hmem | hmem
    · exact h.waiting i d hmem
    · exact htask i d (List.mem_singleton.mp hmem).symm

/-- The queue, the lock and the waiting calls stay, with another cache. -/
theorem aside (h : Sendable S now u) (haside : Aside u v) (hrecords : v.authorizer.Bounded S now) :
    Sendable S now v where
  records := hrecords
  entries := by
    rintro e (he | ⟨w, hw, he⟩)
    · exact h.entries e (.inl (haside.pending ▸ he))
    · exact h.entries e (.inr ⟨w, haside.writing ▸ hw, he⟩)
  waiting := fun i d hd => h.waiting i d (haside.waiting ▸ hd)

/-- A record that `put` would accept is queued, or yields to the one queued already. -/
theorem queue (h : Sendable S now u) {session : Fields}
    (hwritable : sessionWritable S now identity (.obj session) = true) :
    Sendable S now (u.queue S now identity session) where
  records := by
    rw [queue_authorizer]
    exact h.records
  entries := by
    intro e he
    rcases entry_queue he with he | ⟨hkey, hsession⟩
    · exact h.entries e he
    · rw [hkey, hsession, sessionWritable_casefold]
      exact hwritable
  waiting := by
    rw [queue_waiting]
    exact h.waiting

theorem revoke (h : Sendable S now u) (identity : Str) : Sendable S now (u.revoke S now identity) := by
  have haside := aside_invalidate u identity
  have hinvalid : Sendable S now (u.invalidate identity) := by
    apply h.aside haside
    rw [invalidate_authorizer]
    exact h.records
  rcases revoke_cases (S := S) u now identity with ⟨-, heq⟩ | ⟨r, a, hr, heq⟩
  · rw [heq]
    exact hinvalid
  · obtain ⟨hsigned, hhorizon, hbounded⟩ := h.records.revoke hr
    have hwritable : sessionWritable S now r.ircPrefix (.obj r.asdict) = true :=
      hsigned.writable hhorizon rfl
    have hretry : ∀ i d, SyncTask.retry = .sync i d →
        sessionWritable S now i (.obj d) = true := by simp
    have hwait := ((hinvalid.queue hwritable).cache hbounded).wait hretry
    rw [heq]
    simp only [queue_waiting, haside.waiting] at hwait
    exact hwait

theorem acquire (h : Sendable S now u) {r : SessionSync × Option SyncOutcome}
    (hr : u.acquire S now = some r) : Sendable S now r.1 := by
  obtain ⟨-, hcases⟩ := acquire_cases hr
  -- the drain starts from the queue that the call leaves
  have htakes : ∀ q : SessionSync, Takes q r.1 → Sendable S now q →
      (∀ task ∈ r.1.waiting, task ∈ u.waiting) → Sendable S now r.1 := by
    intro q htakes hq hwaiting
    refine ⟨?_, fun e he => ?_, fun i d hd => h.waiting i d (hwaiting _ hd)⟩
    · rw [htakes.authorizer]
      exact hq.records
    · exact hq.entries e (entry_of_takes htakes he)
  rcases hcases with ⟨i, d, hwaiting, hqueue⟩ | ⟨hwaiting, hretry⟩
  · have hwritable := h.waiting i d (by simp [hwaiting])
    exact htakes _ hqueue (h.queue hwritable) (hwaiting ▸ fun _ => List.mem_cons_of_mem _)
  · exact htakes _ hretry h (hwaiting ▸ fun _ => List.mem_cons_of_mem _)

/-- `put_session` returned a record of the entry's identity. -/
theorem written (h : Sendable S now u) {w : SessionWrite} (hw : u.writing = some w)
    {value : Fields} (hvalue : ∃ order, sessionOrder S w.key (.obj value) = some order)
    (hlater : now ≤ later) (hlatest : later ≤ latest) :
    Sendable S latest (u.written S now later latest w value).1 := by
  have hnext := h.mono (hlater.trans hlatest)
  -- the revocation of a winner is filed under the winner's own identity
  have hescalation : ∀ r, escalation S later w.entry.session value = some r →
      sessionWritable S latest w.key (.obj r.asdict) = true := by
    intro r hr
    obtain ⟨x, hx, -, rfl⟩ := escalation_eq_some hr
    obtain ⟨hparse, -, hhorizon⟩ := parseSession_eq_some.mp hx
    obtain ⟨order, horder⟩ := hvalue
    obtain ⟨y, hy, hfold, -⟩ := sessionOrder_eq_some.mp horder
    obtain rfl := Option.some.inj (hparse.symm.trans hy)
    have hsigned := (valid_of_parse hparse).signed (S := S) x.expiresAt (x.version + 1) true
    exact hsigned.writable (hhorizon.trans (SessionScope.horizon_mono hlatest)) hfold
  refine ⟨?_, fun e he => ?_, ?_⟩
  · refine hnext.records.adopts (adopts_written u now later latest w value) ?_
    rintro y (hy | ⟨r, q, -, -, -, hy⟩)
    · obtain ⟨hvalid, hhorizon⟩ := Authorizer.bounded_of_parse hy
      exact ⟨hvalid, hhorizon.trans (SessionScope.horizon_mono (hlater.trans hlatest))⟩
    · exact Authorizer.bounded_of_parse hy
  · rcases entry_written hw he with he | ⟨r, hr, hkey, hsession⟩
    · exact hnext.entries e he
    · rw [hkey, hsession]
      exact hescalation r hr
  · rw [written_waiting]
    exact hnext.waiting

/-- The lock is released. -/
theorem release (h : Sendable S now u) : Sendable S now { u with writing := none } where
  records := h.records
  entries := by
    rintro e (he | ⟨w, hw, -⟩)
    · exact h.entries e (.inl he)
    · simp at hw
  waiting := h.waiting

end Sendable

end SessionSync

/-- `minted` are the sessions that `grant` and `TotpAuthorizer.revoke` returned. -/
structure PendingRun where
  sync : SessionSync
  now : ℚ
  minted : List Session

/-- `grant` and `destroy` are the functions of the authorizer, whose callers then call
`queue` or `sync` with what they got. `put_session` returns the record that it was given, or
one that it may not replace. -/
inductive PendingStep
  | clock (now : ℚ)
  | event (later : ℚ) (e : SessionSync.Event)
  | importSession (value : Json)
  | grant (issuer identity : Str)
  | destroy (identity : Str)
  | revoke (identity : Str)
  | queue (session : Session)
  | sync (session : Session)
  | retry
  | acquire
  | stored (later latest : ℚ)
  | outranked (value : Fields) (judged later latest : ℚ)
  | failed
  | raised

namespace PendingRun

def init (now : ℚ) : PendingRun := ⟨SessionSync.init, now, []⟩

variable (S : SessionScope)

/-- `put_session` answers, and `write` reads the clock twice more. -/
def answer (s : PendingRun) (w : SessionWrite) (value : Fields) (later latest : ℚ) :
    Option PendingRun :=
  if s.now ≤ later ∧ later ≤ latest then
    some { s with sync := (s.sync.written S s.now later latest w value).1, now := latest }
  else none

def step (s : PendingRun) : PendingStep → Option PendingRun
  | .clock now => if s.now ≤ now then some { s with now := now } else none
  | .event later e =>
    if s.now ≤ later then some { s with sync := s.sync.handle S s.now later e, now := later }
    else none
  | .importSession value =>
    some { s with
      sync := { s.sync with authorizer := s.sync.authorizer.importValue S s.now value } }
  | .grant issuer identity =>
    if issuer ≠ [] ∧ encodable issuer ∧ identity ≠ [] ∧ encodable identity then
      let granted := s.sync.authorizer.grant S issuer s.now identity
      some { s with
        sync := { s.sync with authorizer := granted.2 }
        minted := granted.1 :: s.minted }
    else none
  | .destroy identity =>
    match s.sync.authorizer.revoke S identity with
    | none => some s
    | some (revoked, authorizer) =>
      some { s with
        sync := { s.sync with authorizer := authorizer }
        minted := revoked :: s.minted }
  | .revoke identity => some { s with sync := s.sync.revoke S s.now identity }
  | .queue session =>
    if session ∈ s.minted then
      some { s with sync := s.sync.queue S s.now session.ircPrefix session.asdict }
    else none
  | .sync session =>
    if session ∈ s.minted then
      some { s with
        sync := { s.sync with
          waiting := s.sync.waiting ++ [.sync session.ircPrefix session.asdict] } }
    else none
  | .retry => some { s with sync := { s.sync with waiting := s.sync.waiting ++ [.retry] } }
  | .acquire => (s.sync.acquire S s.now).map fun r => { s with sync := r.1 }
  | .stored later latest =>
    match s.sync.writing with
    | none => none
    | some w => s.answer S w w.entry.session later latest
  | .outranked value judged later latest =>
    match s.sync.writing with
    | none => none
    | some w =>
      match sessionOrder S w.key (.obj w.entry.session) with
      | none => none
      | some order =>
        if sessionNewer S judged w.key order (.obj value) then none
        else s.answer S w value later latest
  | .failed =>
    match s.sync.writing with
    | none => none
    | some w => some { s with sync := (s.sync.failed w).1 }
  | .raised =>
    match s.sync.writing with
    | none => none
    | some _ => some { s with sync := s.sync.raised }

/-! ## The invariant -/

/-- The queue holds what `put` accepts, and what was minted can be queued. -/
structure Inv (s : PendingRun) : Prop where
  sendable : s.sync.Sendable S s.now
  minted : ∀ x ∈ s.minted, x.Signed S ∧ x.expiresAt ≤ S.horizon s.now

variable {S} {s t : PendingRun} {later latest : ℚ}

theorem inv_init (now : ℚ) : Inv S (init now) := ⟨.init now, by simp [init]⟩

/-- The clock goes on. -/
theorem Inv.tick (h : Inv S s) (hle : s.now ≤ later) : Inv S { s with now := later } :=
  ⟨h.sendable.mono hle,
    fun x hx => ⟨(h.minted x hx).1, (h.minted x hx).2.trans (SessionScope.horizon_mono hle)⟩⟩

/-- A minted session is accepted under its own identity. -/
theorem Inv.writable (h : Inv S s) {x : Session} (hx : x ∈ s.minted) :
    sessionWritable S s.now x.ircPrefix (.obj x.asdict) = true :=
  (h.minted x hx).1.writable (h.minted x hx).2 rfl

theorem Inv.mint (h : Inv S s) {x : Session} (hx : x.Signed S ∧ x.expiresAt ≤ S.horizon s.now) :
    ∀ y ∈ x :: s.minted, y.Signed S ∧ y.expiresAt ≤ S.horizon s.now := by
  intro y hy
  rcases List.mem_cons.mp hy with rfl | hy
  · exact hx
  · exact h.minted y hy

theorem Inv.answer (h : Inv S s) {w : SessionWrite} (hw : s.sync.writing = some w)
    {value : Fields} (hvalue : ∃ order, sessionOrder S w.key (.obj value) = some order)
    (hst : s.answer S w value later latest = some t) : Inv S t := by
  unfold PendingRun.answer at hst
  split_ifs at hst with hclock
  obtain rfl := Option.some.inj hst
  exact ⟨h.sendable.written hw hvalue hclock.1 hclock.2,
    (h.tick (hclock.1.trans hclock.2)).minted⟩

theorem Inv.step {a : PendingStep} (h : Inv S s) (hst : step S s a = some t) : Inv S t := by
  cases a with
  | clock now =>
    simp only [PendingRun.step] at hst
    split_ifs at hst with hle
    obtain rfl := Option.some.inj hst
    exact h.tick hle
  | event later e =>
    simp only [PendingRun.step] at hst
    split_ifs at hst with hle
    obtain rfl := Option.some.inj hst
    have hnext := h.tick hle
    refine ⟨hnext.sendable.aside (SessionSync.aside_handle (S := S) s.sync s.now later e) ?_,
      hnext.minted⟩
    refine hnext.sendable.records.adopts (SessionSync.adopts_handle s.sync s.now later e) ?_
    rintro y ⟨key, record, replaying, -, hy⟩
    exact Authorizer.bounded_of_parse hy
  | importSession value =>
    obtain rfl := Option.some.inj hst
    exact ⟨h.sendable.cache (h.sendable.records.importValue value), h.minted⟩
  | grant issuer identity =>
    simp only [PendingRun.step] at hst
    split_ifs at hst with hnames
    obtain rfl := Option.some.inj hst
    obtain ⟨hsigned, hexpires, hbounded⟩ := h.sendable.records.grant hnames
    exact ⟨h.sendable.cache hbounded, h.mint ⟨hsigned, hexpires⟩⟩
  | destroy identity =>
    simp only [PendingRun.step] at hst
    cases hr : s.sync.authorizer.revoke S identity with
    | none =>
      rw [hr] at hst
      obtain rfl := Option.some.inj hst
      exact h
    | some x =>
      rw [hr] at hst
      obtain rfl := Option.some.inj hst
      obtain ⟨hsigned, hexpires, hbounded⟩ := h.sendable.records.revoke hr
      exact ⟨h.sendable.cache hbounded, h.mint ⟨hsigned, hexpires⟩⟩
  | revoke identity =>
    obtain rfl := Option.some.inj hst
    exact ⟨h.sendable.revoke identity, h.minted⟩
  | queue session =>
    simp only [PendingRun.step] at hst
    split_ifs at hst with hminted
    obtain rfl := Option.some.inj hst
    exact ⟨h.sendable.queue (h.writable hminted), h.minted⟩
  | sync session =>
    simp only [PendingRun.step] at hst
    split_ifs at hst with hminted
    obtain rfl := Option.some.inj hst
    refine ⟨h.sendable.wait fun i d htask => ?_, h.minted⟩
    obtain ⟨rfl, rfl⟩ := SyncTask.sync.inj htask
    exact h.writable hminted
  | retry =>
    obtain rfl := Option.some.inj hst
    exact ⟨h.sendable.wait (by simp), h.minted⟩
  | acquire =>
    obtain ⟨r, hr, rfl⟩ := Option.map_eq_some_iff.mp hst
    exact ⟨h.sendable.acquire hr, h.minted⟩
  | stored later latest =>
    simp only [PendingRun.step] at hst
    cases hw : s.sync.writing with
    | none => simp [hw] at hst
    | some w =>
      rw [hw] at hst
      have hentry := h.sendable.entries (w.key, w.entry) (.inr ⟨w, hw, List.mem_cons_self⟩)
      obtain ⟨x, hparse, hfold, -⟩ := sessionWritable_iff.mp hentry
      exact h.answer hw ⟨_, sessionOrder_eq_some.mpr ⟨x, hparse, hfold, rfl⟩⟩ hst
  | outranked value judged later latest =>
    simp only [PendingRun.step] at hst
    cases hw : s.sync.writing with
    | none => simp [hw] at hst
    | some w =>
      rw [hw] at hst
      dsimp only at hst
      cases horder : sessionOrder S w.key (.obj w.entry.session) with
      | none => simp [horder] at hst
      | some order =>
        rw [horder] at hst
        dsimp only at hst
        split_ifs at hst with hnewer
        -- what `put` may not replace has an order
        have hvalue : ∃ held, sessionOrder S w.key (.obj value) = some held := by
          cases hheld : sessionOrder S w.key (.obj value) with
          | none => simp [sessionNewer, hheld] at hnewer
          | some held => exact ⟨held, rfl⟩
        exact h.answer hw hvalue hst
  | failed =>
    simp only [PendingRun.step] at hst
    cases hw : s.sync.writing with
    | none => simp [hw] at hst
    | some w =>
      rw [hw] at hst
      obtain rfl := Option.some.inj hst
      exact ⟨h.sendable.release, h.minted⟩
  | raised =>
    simp only [PendingRun.step] at hst
    cases hw : s.sync.writing with
    | none => simp [hw] at hst
    | some w =>
      rw [hw] at hst
      obtain rfl := Option.some.inj hst
      exact ⟨h.sendable.release, h.minted⟩

/-- Everything that is queued, or that a drain has taken from the queue, has an order under
its key and expires within the horizon, so that `put` raises no `ValueError` for it. -/
theorem pending_writable (S : SessionScope) (start : ℚ) (s : PendingRun)
    (h : Machine.Reachable (step S) (init start) s) :
    (∀ e ∈ s.sync.pending, ∃ order, sessionOrder S e.1 (.obj e.2.session) = some order ∧
      (ofLex order).1 ≤ S.horizon s.now) ∧
    (∀ e ∈ s.sync.pending, sessionWritable S s.now e.1 (.obj e.2.session) = true) ∧
    ∀ w, s.sync.writing = some w → ∀ e ∈ (w.key, w.entry) :: w.rest,
      sessionWritable S s.now e.1 (.obj e.2.session) = true := by
  have hinv : Inv S s :=
    h.invariant (fun s a t hs hst => hs.step hst) (inv_init start)
  refine ⟨fun e he => ?_, fun e he => hinv.sendable.entries e (.inl he),
    fun w hw e he => hinv.sendable.entries e (.inr ⟨w, hw, he⟩)⟩
  obtain ⟨x, hparse, hfold, hhorizon⟩ := sessionWritable_iff.mp (hinv.sendable.entries e (.inl he))
  exact ⟨x.order, sessionOrder_eq_some.mpr ⟨x, hparse, hfold, rfl⟩, hhorizon⟩

/-- A session is granted and its write fails; the user quits with the other spelling of the
prefix, and the casemapping changes. -/
def samplePending : List PendingStep :=
  [.grant (lit "bot") (lit "a[!u@h"),
    .sync (createSession sampleScope (lit "a[!u@h") 10 (lit "bot") 0 false), .acquire, .failed,
    .clock 3, .revoke (lit "a\x7b!u@h"), .event 4 (.casemapping .ascii), .acquire]

theorem pending_writable_revoked : ∃ s,
    Machine.run (step sampleScope) (init 0) samplePending = some s ∧ s.sync.pending ≠ [] ∧
    (∀ e ∈ s.sync.pending, ∃ order, sessionOrder sampleScope e.1 (.obj e.2.session) = some order ∧
      (ofLex order).1 ≤ sampleScope.horizon s.now) ∧
    (∀ e ∈ s.sync.pending, sessionWritable sampleScope s.now e.1 (.obj e.2.session) = true) ∧
    ∀ w, s.sync.writing = some w → ∀ e ∈ (w.key, w.entry) :: w.rest,
      sessionWritable sampleScope s.now e.1 (.obj e.2.session) = true := by
  have hrun : ((Machine.run (step sampleScope) (init 0) samplePending).any fun s =>
      !s.sync.pending.isEmpty) = true := by decide +kernel
  obtain ⟨s, hs, hpending⟩ := (Option.any_eq_true _ _).mp hrun
  refine ⟨s, hs, ?_, pending_writable sampleScope 0 s ⟨_, hs⟩⟩
  simpa using hpending

end PendingRun

end Botnats
