import Botnats.SessionMesh

/-!
# A refused AUTH

One `AuthFlow.authenticate` at a time, with the store that it writes to and the other steps
of its bot: identities that quit, disconnects, the watch, the writes of peers, keys that are
deleted, and answers of the store that are late, lost or name another record. A refusal
revokes what the cache then holds under the IRC fold of the prefix. Where that is filed under
the durable key of the prefix, and the granted session does not outrank it, the granted
session is dead.
-/
namespace Botnats

open Json

/-- The session names an identity that authenticates, and `put` accepts its expiry. -/
structure Filed (S : SessionScope) (names : Str → Bool) (now : ℚ) (y : Session) : Prop where
  named : names y.ircPrefix = true
  valid : y.Valid
  horizon : y.expiresAt ≤ S.horizon now

theorem admissible_filed {S : SessionScope} {names : Str → Bool}
    (hkeys : ∀ p q, names p = true → names q = true →
      sessionKey S p = sessionKey S q → casefold p .ascii = casefold q .ascii) :
    Admissible S (Filed S names) where
  mono := fun _ _ _ hle hy => ⟨hy.named, hy.valid, hy.horizon.trans (SessionScope.horizon_mono hle)⟩
  valid := fun _ _ hy => hy.valid
  horizon := fun _ _ hy => hy.horizon
  key := fun _ _ _ hy hz => hkeys _ _ hy.named hz.named
  revocation := fun _ _ hy _ => ⟨hy.named, hy.valid.create _ _ _, hy.horizon⟩

/-! ## The bucket -/

/-- The sessions bucket, what was ever written to it, and the keys that were ever deleted -/
structure SessionBucket where
  store : Bucket.Store Str Json
  history : List (Str × Json)
  deleted : List Str

namespace SessionBucket

def init : SessionBucket := ⟨Bucket.Store.empty Str Json, [], []⟩

def write (b : SessionBucket) (key : Str) (v : Json) : SessionBucket :=
  { b with store := b.store.write key v, history := (key, v) :: b.history }

def delete (b : SessionBucket) (key : Str) : SessionBucket :=
  { b with store := b.store.remove key, deleted := key :: b.deleted }

/-- `SessionStore.put` at the moment when it takes effect, with what it returns; `none` where
it raises `ValueError`. -/
def put (S : SessionScope) (b : SessionBucket) (now : ℚ) (identity : Str) (data : Fields) :
    Option (SessionBucket × Json) :=
  match sessionOrder S identity (.obj data) with
  | none => none
  | some order =>
    if sessionWritable S now identity (.obj data) then
      match b.store.value (sessionKey S identity) with
      | none => some (b.write (sessionKey S identity) (.obj data), .obj data)
      | some current =>
        if sessionNewer S now identity order current then
          some (b.write (sessionKey S identity) (.obj data), .obj data)
        else some (b, current)
    else none

variable (S : SessionScope)

/-- The session that a stored value reads as -/
def read : Json → Option Session
  | .obj record => parseSessionRecord S record
  | _ => none

/-- The session is what its key holds. -/
def Holds (b : SessionBucket) (x : Session) : Prop :=
  ∃ v, b.store.value (sessionKey S x.ircPrefix) = some v ∧ Reads S v x

/-- A live session that was written is held, or one of its identity that ranks at least as
high, unless its key was deleted. -/
structure Inv (P : ℚ → Session → Prop) (now : ℚ) (b : SessionBucket) : Prop where
  logged : ∀ k v, (k, v) ∈ b.history → ∃ y, Reads S v y ∧ k = sessionKey S y.ircPrefix ∧ P now y
  held : ∀ k v, b.store.value k = some v → (k, v) ∈ b.history
  current : ∀ y, Logged S b.history y → now < y.expiresAt →
    sessionKey S y.ircPrefix ∉ b.deleted →
    ∃ z, b.Holds S z ∧ casefold z.ircPrefix .ascii = casefold y.ircPrefix .ascii ∧
      y.order ≤ z.order

variable {S} {P : ℚ → Session → Prop} {now later : ℚ} {b b' : SessionBucket} {identity key : Str}
  {data : Fields} {v : Json} {x y z : Session}

theorem read_eq_some : read S v = some y ↔ Reads S v y := by
  constructor
  · intro h
    cases v with
    | obj record => exact ⟨record, rfl, h⟩
    | _ => simp [read] at h
  · rintro ⟨record, rfl, h⟩
    exact h

/-- A key holds one session. -/
theorem Holds.unique (hx : b.Holds S x) (hy : b.Holds S y)
    (hfold : casefold x.ircPrefix .ascii = casefold y.ircPrefix .ascii) : x = y := by
  obtain ⟨v, hv, hxv⟩ := hx
  obtain ⟨w, hw, hyw⟩ := hy
  rw [sessionKey_congr hfold] at hv
  obtain rfl := Option.some.inj (hv.symm.trans hw)
  exact hxv.unique hyw

theorem write_value_self (b : SessionBucket) (key : Str) (v : Json) :
    (b.write key v).store.value key = some v := by
  simp [write, Bucket.Store.value]

theorem write_value_of_ne (b : SessionBucket) {j : Str} (v : Json) (h : j ≠ key) :
    (b.write key v).store.value j = b.store.value j := by
  simp only [write, Bucket.Store.value, b.store.write_entries_of_ne v h]

theorem delete_value_self (b : SessionBucket) (key : Str) :
    (b.delete key).store.value key = none := by
  simp [delete, Bucket.Store.value]

theorem delete_value_of_ne (b : SessionBucket) {j : Str} (h : j ≠ key) :
    (b.delete key).store.value j = b.store.value j := by
  simp only [delete, Bucket.Store.value, b.store.remove_entries_of_ne h]

/-- `put` writes the record, or returns the stored one that it may not replace. -/
theorem put_cases (hput : b.put S now identity data = some (b', v)) :
    ∃ x, parseSessionRecord S data = some x ∧
      casefold x.ircPrefix .ascii = casefold identity .ascii ∧ x.expiresAt ≤ S.horizon now ∧
      (b' = b.write (sessionKey S identity) (.obj data) ∧ v = .obj data ∧
        (∀ current, b.store.value (sessionKey S identity) = some current →
          sessionNewer S now identity x.order current = true) ∨
      b' = b ∧ b.store.value (sessionKey S identity) = some v ∧
        sessionNewer S now identity x.order v = false) := by
  unfold put at hput
  split at hput
  · simp at hput
  · rename_i order horder
    split_ifs at hput with hwritable
    obtain ⟨x, hx, hfold, rfl⟩ := sessionOrder_eq_some.mp horder
    obtain ⟨x', hx', -, hhorizon⟩ := sessionWritable_iff.mp hwritable
    obtain rfl := Option.some.inj (hx.symm.trans hx')
    refine ⟨x, hx, hfold, hhorizon, ?_⟩
    split at hput
    · rename_i hnone
      obtain ⟨rfl, rfl⟩ := Prod.mk.inj (Option.some.inj hput)
      exact .inl ⟨rfl, rfl, fun current hcurrent => by simp [hnone] at hcurrent⟩
    · rename_i current hcurrent
      split_ifs at hput with hnewer
      · obtain ⟨rfl, rfl⟩ := Prod.mk.inj (Option.some.inj hput)
        refine .inl ⟨rfl, rfl, fun held hheld => ?_⟩
        obtain rfl := Option.some.inj (hcurrent.symm.trans hheld)
        exact hnewer
      · obtain ⟨rfl, rfl⟩ := Prod.mk.inj (Option.some.inj hput)
        exact .inr ⟨rfl, hcurrent, by simpa using hnewer⟩

/-- `put` returns, and leaves, what a call of `put_newer` does that no other races. -/
theorem put_alone {ι : Type*} (bot : ι) (hput : b.put S now identity data = some (b', v)) :
    ∃ c : SessionPut S ι, sessionPut S now bot identity data = some c ∧
      v = PutNewer.alone putData (putNewer now) c (b.store.value (putKey c)) ∧
      b'.store.value (putKey c) = some v := by
  unfold put at hput
  split at hput
  · simp at hput
  · rename_i order horder
    split_ifs at hput with hwritable
    have hcall : sessionPut S now bot identity data =
        some ⟨bot, identity, data, order, horder⟩ := by
      unfold sessionPut
      split
      · rename_i hnone
        simp [hnone] at horder
      · rename_i order' horder'
        obtain rfl := Option.some.inj (horder.symm.trans horder')
        rw [if_pos hwritable]
    refine ⟨_, hcall, ?_⟩
    simp only [putKey, PutNewer.alone, putData, putNewer]
    cases hheld : b.store.value (sessionKey S identity) with
    | none =>
      rw [hheld] at hput
      obtain ⟨rfl, rfl⟩ := Prod.mk.inj (Option.some.inj hput)
      exact ⟨rfl, write_value_self b _ _⟩
    | some current =>
      rw [hheld] at hput
      dsimp only at hput
      split_ifs at hput with hnewer
      · obtain ⟨rfl, rfl⟩ := Prod.mk.inj (Option.some.inj hput)
        exact ⟨(if_pos hnewer).symm, write_value_self b _ _⟩
      · obtain ⟨rfl, rfl⟩ := Prod.mk.inj (Option.some.inj hput)
        exact ⟨(if_neg hnewer).symm, hheld⟩

theorem put_history (hput : b.put S now identity data = some (b', v)) :
    ∀ e ∈ b.history, e ∈ b'.history := by
  obtain ⟨x, -, -, -, ⟨rfl, -⟩ | ⟨rfl, -⟩⟩ := put_cases hput
  · exact fun e he => List.mem_cons_of_mem _ he
  · exact fun e he => he

namespace Inv

theorem init (now : ℚ) : SessionBucket.init.Inv S P now where
  logged := by simp [SessionBucket.init]
  held := by simp [SessionBucket.init, Bucket.Store.value]
  current := by
    rintro y ⟨v, hv, -⟩
    simp [SessionBucket.init] at hv

theorem mono (hP : Admissible S P) (h : b.Inv S P now) (hle : now ≤ later) :
    b.Inv S P later where
  logged := by
    intro k v hkv
    obtain ⟨y, hy, hk, hPy⟩ := h.logged k v hkv
    exact ⟨y, hy, hk, hP.mono _ _ _ hle hPy⟩
  held := h.held
  current := fun y hy hlive => h.current y hy (hle.trans_lt hlive)

theorem delete (h : b.Inv S P now) (key : Str) : (b.delete key).Inv S P now where
  logged := h.logged
  held := by
    intro k v hv
    have hne : k ≠ key := by
      rintro rfl
      simp [delete_value_self] at hv
    rw [delete_value_of_ne b hne] at hv
    exact h.held k v hv
  current := by
    intro y hy hlive hkept
    obtain ⟨hne, hkept⟩ := not_or.mp (mt List.mem_cons.mpr hkept)
    obtain ⟨z, ⟨v, hv, hz⟩, hfold, horder⟩ := h.current y hy hlive hkept
    refine ⟨z, ⟨v, ?_, hz⟩, hfold, horder⟩
    rw [sessionKey_congr hfold] at hv ⊢
    rw [delete_value_of_ne b hne]
    exact hv

/-- A record that may be written is held from then on until it expires or is outranked. -/
theorem write (hP : Admissible S P) (h : b.Inv S P now)
    (hx : parseSessionRecord S data = some x)
    (hfold : casefold x.ircPrefix .ascii = casefold identity .ascii) (hPx : P now x)
    (hnewer : ∀ current, b.store.value (sessionKey S identity) = some current →
      sessionNewer S now identity x.order current = true) :
    (b.write (sessionKey S identity) (.obj data)).Inv S P now := by
  have hkey : sessionKey S identity = sessionKey S x.ircPrefix := (sessionKey_congr hfold).symm
  have hread : Reads S (.obj data) x := ⟨data, rfl, hx⟩
  have hholds : (b.write (sessionKey S identity) (.obj data)).Holds S x :=
    ⟨_, hkey ▸ write_value_self b _ _, hread⟩
  refine ⟨?_, ?_, ?_⟩
  · intro k v hkv
    rcases List.mem_cons.mp hkv with hkv | hkv
    · obtain ⟨rfl, rfl⟩ := Prod.mk.inj hkv
      exact ⟨x, hread, hkey, hPx⟩
    · exact h.logged k v hkv
  · intro k v hv
    by_cases hk : k = sessionKey S identity
    · subst hk
      rw [write_value_self] at hv
      obtain rfl := Option.some.inj hv
      exact List.mem_cons_self
    · rw [write_value_of_ne b _ hk] at hv
      exact List.mem_cons_of_mem _ (h.held k v hv)
  · rintro y ⟨v, hv, hy⟩ hlive hkept
    rcases List.mem_cons.mp hv with hv | hv
    · obtain ⟨-, rfl⟩ := Prod.mk.inj hv
      obtain rfl := hread.unique hy
      exact ⟨x, hholds, rfl, le_rfl⟩
    · obtain ⟨z, ⟨w, hw, hz⟩, hzfold, horder⟩ := h.current y ⟨v, hv, hy⟩ hlive hkept
      by_cases hk : sessionKey S z.ircPrefix = sessionKey S identity
      · -- what was held is replaced, and outranked
        obtain ⟨z', hz', -, hPz⟩ := h.logged _ _ (h.held _ _ hw)
        obtain rfl := hz.unique hz'
        have hzx : casefold z.ircPrefix .ascii = casefold x.ircPrefix .ascii :=
          hP.key now z x hPz hPx (hk.trans hkey)
        have hjudged := (hz.newer_iff (hzx.trans hfold) (hP.horizon _ _ hPz)).mp
          (hnewer w (hk ▸ hw))
        refine ⟨x, hholds, hzx.symm.trans hzfold, ?_⟩
        rcases hjudged with hexpired | hlt
        · exact absurd (hlive.trans_le (Session.expiresAt_le horder)) (not_lt.mpr hexpired)
        · exact horder.trans hlt.le
      · refine ⟨z, ⟨w, ?_, hz⟩, hzfold, horder⟩
        rw [write_value_of_ne b _ hk]
        exact hw

/-- What `put` returns is a written session of the identity that ranks at least as high. -/
theorem put (hP : Admissible S P) (h : b.Inv S P now)
    (hput : b.put S now identity data = some (b', v))
    (hPx : ∀ x, parseSessionRecord S data = some x → P now x) :
    b'.Inv S P now ∧ ∃ y, Reads S v y ∧
      casefold y.ircPrefix .ascii = casefold identity .ascii ∧ P now y ∧
      Logged S b'.history y ∧ ∀ x, parseSessionRecord S data = some x → x.order ≤ y.order := by
  obtain ⟨x, hx, hfold, -, ⟨rfl, rfl, hnewer⟩ | ⟨rfl, hv, holder⟩⟩ := put_cases hput
  · refine ⟨h.write hP hx hfold (hPx x hx) hnewer, x, ⟨data, rfl, hx⟩, hfold, hPx x hx, ?_, ?_⟩
    · exact ⟨_, sessionKey_congr hfold ▸ List.mem_cons_self, data, rfl, hx⟩
    · intro x' hx'
      obtain rfl := Option.some.inj (hx.symm.trans hx')
      exact le_rfl
  · obtain ⟨y, hy, hkey, hPy⟩ := h.logged _ _ (h.held _ _ hv)
    have hyx : casefold y.ircPrefix .ascii = casefold x.ircPrefix .ascii :=
      hP.key now y x hPy (hPx x hx) (hkey.symm.trans (sessionKey_congr hfold).symm)
    refine ⟨h, y, hy, hyx.trans hfold, hPy, ⟨v, hkey ▸ h.held _ _ hv, hy⟩, fun x' hx' => ?_⟩
    obtain rfl := Option.some.inj (hx.symm.trans hx')
    exact hy.le_of_not_newer (hyx.trans hfold) holder

end Inv

end SessionBucket

/-! ## Calls of `sync` -/

def SyncTask.isSync : SyncTask → Bool
  | .sync _ _ => true
  | .retry => false

theorem SyncTask.countP_sync (identity : Str) (session : Fields) :
    [SyncTask.sync identity session].countP SyncTask.isSync = 1 := rfl

namespace SessionSync

variable {S : SessionScope} {now : ℚ} {u u' : SessionSync}

/-- The calls of `sync` that wait for the lock or hold it -/
def syncs (u : SessionSync) : ℕ :=
  u.waiting.countP SyncTask.isSync + u.writing.elim 0 fun w => w.task.isSync.toNat

/-- The calls of `sync` that an outcome ends -/
def ended : Option SyncOutcome → ℕ
  | none => 0
  | some outcome => outcome.1.isSync.toNat

theorem Aside.syncs (h : Aside u u') : u'.syncs = u.syncs := by
  rw [SessionSync.syncs, h.waiting, h.writing, SessionSync.syncs]

/-- A call keeps the lock, or ends. -/
theorem syncs_proceed (u : SessionSync) (task : SyncTask) (since : ℕ)
    (rest : List (Str × Queued)) :
    (u.proceed task since rest).1.syncs + ended (u.proceed task since rest).2 =
      u.waiting.countP SyncTask.isSync + task.isSync.toNat := by
  cases rest with
  | nil => rfl
  | cons x rest => rfl

theorem syncs_acquire {r : SessionSync × Option SyncOutcome} (hr : u.acquire S now = some r) :
    r.1.syncs + ended r.2 = u.syncs := by
  unfold acquire at hr
  split at hr
  · rename_i identity session waiting hwriting hwaiting
    obtain rfl := Option.some.inj hr
    rw [syncs_proceed, queue_waiting, syncs, hwaiting, hwriting]
    simp [List.countP_cons, SyncTask.isSync]
  · rename_i waiting hwriting hwaiting
    obtain rfl := Option.some.inj hr
    rw [syncs_proceed, syncs, hwaiting, hwriting]
    simp [SyncTask.isSync]
  · simp at hr

theorem syncs_written {w : SessionWrite} (hw : u.writing = some w) (now₁ now₂ now₃ : ℚ)
    (stored : Fields) : (u.written S now₁ now₂ now₃ w stored).1.syncs +
      ended (u.written S now₁ now₂ now₃ w stored).2 = u.syncs := by
  have hwaiting := written_waiting (S := S) u now₁ now₂ now₃ w stored
  rw [written, proceed_eq] at hwaiting
  rw [written, syncs_proceed, hwaiting, syncs, hw, Option.elim_some]

theorem syncs_leave {w : SessionWrite} (hw : u.writing = some w) :
    (u.leave w.task).1.syncs + ended (u.leave w.task).2 = u.syncs := by
  simp only [syncs, hw, SessionSync.leave, ended, Option.elim_some, Option.elim_none]
  omega

theorem syncs_revoke (u : SessionSync) (identity : Str) :
    (u.revoke S now identity).syncs = u.syncs := by
  have haside := aside_invalidate u identity
  rcases revoke_cases (S := S) u now identity with ⟨-, heq⟩ | ⟨r, a, -, heq⟩
  · rw [heq, haside.syncs]
  · rw [heq, syncs, syncs]
    simp only [List.countP_append, queue_writing, haside.writing]
    simp [SyncTask.isSync]

end SessionSync

/-! ## The run of `authenticate` -/

/-- Where `authenticate` stands with the session that it granted: it waits for `sync`, has its
outcome, waits for `sync` of the revocation, and has replied. -/
inductive AuthPhase
  | idle
  | writing (session : Session)
  | written (session : Session) (ok : Bool)
  | revoking (session : Session)
  | refused (session : Session)
  | authorized (session : Session)
  deriving DecidableEq

namespace AuthPhase

def running : AuthPhase → Bool
  | .writing _ | .written _ _ | .revoking _ => true
  | _ => false

/-- A call of `sync` is under way. -/
def awaits : AuthPhase → ℕ
  | .writing _ | .revoking _ => 1
  | _ => 0

/-- The session that the run granted and that is not yet known to hold -/
def granted : AuthPhase → Option Session
  | .writing g | .written g _ => some g
  | _ => none

/-- The session that is refused, once it has been revoked -/
def refusal : AuthPhase → Option Session
  | .revoking g | .refused g => some g
  | _ => none

/-- `sync` has returned. -/
def resume (ok : Bool) : AuthPhase → AuthPhase
  | .writing g => .written g ok
  | .revoking g => .refused g
  | phase => phase

/-- A call has left the lock; there is one of `sync` at most. -/
def hears (phase : AuthPhase) : Option SessionSync.SyncOutcome → AuthPhase
  | some (.sync _ _, ok) => phase.resume ok
  | _ => phase

theorem hears_refusal (phase : AuthPhase) (o : Option SessionSync.SyncOutcome) :
    (phase.hears o).refusal = phase.refusal := by
  unfold hears
  split
  · cases phase <;> rfl
  · rfl

theorem hears_granted (phase : AuthPhase) (o : Option SessionSync.SyncOutcome) :
    (phase.hears o).granted = phase.granted := by
  unfold hears
  split
  · cases phase <;> rfl
  · rfl

theorem hears_awaits {phase : AuthPhase} {o : Option SessionSync.SyncOutcome} {n : ℕ}
    (h : n + SessionSync.ended o = phase.awaits) : n = (phase.hears o).awaits := by
  unfold hears
  split
  · rename_i identity session ok
    have hended : SessionSync.ended (some (.sync identity session, ok)) = 1 := rfl
    rw [hended] at h
    cases phase with
    | writing g | revoking g =>
      simp only [awaits, resume] at h ⊢
      omega
    | idle | written g ok | refused g | authorized g =>
      simp only [awaits] at h
      omega
  · rename_i hsync
    have hended : SessionSync.ended o = 0 := by
      match o, hsync with
      | none, _ => rfl
      | some (.retry, ok), _ => rfl
      | some (.sync identity session, ok), hsync => exact absurd rfl (hsync identity session ok)
    omega

end AuthPhase

/-- A bot whose commands run one after another, the bucket, the answer of `put_session` that
is on its way, and the writes that it no longer waits for. -/
structure AuthFlow where
  sync : SessionSync
  now : ℚ
  bucket : SessionBucket
  reply : Option Json
  strays : List (Str × Fields)
  phase : AuthPhase

/-- `watch` delivers a write of the bucket, `peer` is a put of another bot, `land` the moment
when the bot's own put takes effect, and `stray` that of one that it gave up. -/
inductive AuthStep
  | clock (later : ℚ)
  | event (e : SessionSync.Event)
  | watch (n : ℕ) (later : ℚ) (replaying : Bool)
  | revoke (identity : Str)
  | retry
  | acquire
  | land
  | answer (later latest : ℚ)
  | fail
  | stray (n : ℕ)
  | peer (identity : Str) (data : Fields)
  | delete (key : Str)
  | grant (identity : Str)
  | check

namespace AuthFlow

variable {ι : Type*} (N : SessionNetwork ι) (b : ι)

def init (now : ℚ) : AuthFlow := ⟨SessionSync.init, now, .init, none, [], .idle⟩

/-- What `authenticate` asks after its write -/
def holds (s : AuthFlow) (g : Session) (ok : Bool) : Bool :=
  ok && s.sync.authorizer.authorized s.now g.ircPrefix && s.sync.watchedValid g.ircPrefix

/-- `authorized` is asked only of a write that succeeded, and drops an expired record. -/
def asked (s : AuthFlow) (g : Session) (ok : Bool) : SessionSync :=
  if ok then s.sync.handle N.scope s.now s.now (.get g.ircPrefix) else s.sync

def step (s : AuthFlow) : AuthStep → Option AuthFlow
  | .clock later => if s.now ≤ later then some { s with now := later } else none
  | .event e =>
    match e with
    | .observe _ _ _ => none
    | e => some { s with sync := s.sync.handle N.scope s.now s.now e }
  | .watch n later replaying =>
    match s.bucket.history[n]? with
    | some (key, .obj record) =>
      if s.now ≤ later then
        some { s with
          sync := s.sync.observe N.scope s.now later key record replaying
          now := later }
      else none
    | _ => none
  | .revoke identity =>
    some { s with sync := s.sync.call N.scope (N.issuers b) s.now (.revoke identity) }
  | .retry => some { s with sync := s.sync.call N.scope (N.issuers b) s.now .retry }
  | .acquire =>
    (s.sync.acquire N.scope s.now).map fun r =>
      { s with sync := r.1, reply := none, phase := s.phase.hears r.2 }
  | .land =>
    match s.sync.writing, s.reply with
    | some w, none =>
      (s.bucket.put N.scope s.now w.key w.entry.session).map fun r =>
        { s with bucket := r.1, reply := some r.2 }
    | _, _ => none
  | .answer later latest =>
    match s.sync.writing, s.reply with
    | some w, some (.obj stored) =>
      if s.now ≤ later ∧ later ≤ latest then
        let r := s.sync.written N.scope s.now later latest w stored
        some { s with sync := r.1, now := latest, reply := none, phase := s.phase.hears r.2 }
      else none
    | _, _ => none
  | .fail =>
    match s.sync.writing with
    | none => none
    | some w =>
      let r := s.sync.failed w
      some { s with
        sync := r.1
        reply := none
        strays := if s.reply.isNone then (w.key, w.entry.session) :: s.strays else s.strays
        phase := s.phase.hears r.2 }
  | .stray n =>
    match s.strays[n]? with
    | none => none
    | some (identity, data) =>
      (s.bucket.put N.scope s.now identity data).map fun r =>
        { s with bucket := r.1, strays := s.strays.eraseIdx n }
  | .peer identity data =>
    if (parseSessionRecord N.scope data).any fun y => N.names y.ircPrefix then
      (s.bucket.put N.scope s.now identity data).map fun r => { s with bucket := r.1 }
    else none
  | .delete key => some { s with bucket := s.bucket.delete key }
  | .grant identity =>
    -- the code and the claim of its counter are good
    if s.phase.running = false ∧ N.names identity ∧ s.sync.watchedValid identity then
      some { s with
        sync := s.sync.call N.scope (N.issuers b) s.now (.grant identity)
        phase := .writing
          (s.sync.authorizer.grant N.scope (N.issuers b) s.now identity).1 }
    else none
  | .check =>
    match s.phase with
    | .written g ok =>
      let asked := s.asked N g ok
      if s.holds g ok then some { s with sync := asked, phase := .authorized g }
      else
        some { s with
          sync := asked.call N.scope (N.issuers b) s.now (.refuse g.ircPrefix)
          phase := if (asked.authorizer.revoke N.scope g.ircPrefix).isSome then .revoking g
            else .refused g }
    | _ => none

/-! ## The invariant -/

/-- A session of the durable identity that outranks the refused one was written, or the bot
is about to write it. -/
def Outranked (s : AuthFlow) (g : Session) : Prop :=
  ∃ x, casefold x.ircPrefix .ascii = casefold g.ircPrefix .ascii ∧ g.order < x.order ∧
    s.sync.Backed N.scope s.bucket.history x

/-- What `put_session` has returned for an entry -/
def Answers (now : ℚ) (history : List (Str × Json)) (w : SessionWrite) (v : Json) : Prop :=
  ∃ y, Reads N.scope v y ∧ casefold y.ircPrefix .ascii = w.key ∧
    Filed N.scope N.names now y ∧ Logged N.scope history y ∧
    ∀ x, parseSessionRecord N.scope w.entry.session = some x → x.order ≤ y.order

structure Inv (s : AuthFlow) : Prop where
  bot : s.sync.BotInv N.scope (Filed N.scope N.names) s.now s.bucket.history
  bucket : s.bucket.Inv N.scope (Filed N.scope N.names) s.now
  reply : ∀ w v, s.sync.writing = some w → s.reply = some v →
    Answers N s.now s.bucket.history w v
  strays : ∀ e ∈ s.strays, ∃ x, parseSessionRecord N.scope e.2 = some x ∧
    Filed N.scope N.names s.now x
  syncs : s.sync.syncs = s.phase.awaits
  granted : ∀ g, s.phase.granted = some g → g.revoked = false
  outranked : ∀ g, s.phase.refusal = some g → s.now < g.expiresAt → s.Outranked N g

variable {N} {b} {s t : AuthFlow} {u : SessionSync} {now later : ℚ} {bucket : SessionBucket}
  {history history' : List (Str × Json)} {reply : Option Json} {strays : List (Str × Fields)}
  {g : Session}

theorem filed (N : SessionNetwork ι) : Admissible N.scope (Filed N.scope N.names) :=
  admissible_filed N.key

theorem Answers.mono {w : SessionWrite} {v : Json} (h : Answers N now history w v)
    (hle : now ≤ later) (hsub : ∀ e ∈ history, e ∈ history') : Answers N later history' w v := by
  obtain ⟨y, hy, hfold, hPy, hlogged, horder⟩ := h
  exact ⟨y, hy, hfold, (filed N).mono _ _ _ hle hPy, hlogged.mono hsub, horder⟩

theorem inv_init (N : SessionNetwork ι) (now : ℚ) : Inv N (init now) where
  bot := SessionSync.BotInv.init _ _ _ _ defaultCasemapping
  bucket := SessionBucket.Inv.init now
  reply := by simp [init]
  strays := by simp [init]
  syncs := rfl
  granted := by simp [init, AuthPhase.granted]
  outranked := by simp [init, AuthPhase.refusal]

theorem botInv_call (h : u.BotInv N.scope (Filed N.scope N.names) now history) (issuer : Str)
    (c : SessionSync.Call) (hc : ∀ identity, c ≠ .grant identity) :
    (u.call N.scope issuer now c).BotInv N.scope (Filed N.scope N.names) now history :=
  h.call (filed N) fun identity heq => absurd heq (hc identity)

theorem Inv.strays_mono (h : Inv N s) (hle : s.now ≤ later) : ∀ e ∈ s.strays,
    ∃ x, parseSessionRecord N.scope e.2 = some x ∧ Filed N.scope N.names later x := by
  intro e he
  obtain ⟨x, hx, hPx⟩ := h.strays e he
  exact ⟨x, hx, (filed N).mono _ _ _ hle hPx⟩

/-- What outranks a refused session stays, where the bot passes on what it is about to write. -/
theorem Outranked.carries (h : s.Outranked N g)
    (hsub : ∀ e ∈ s.bucket.history, e ∈ bucket.history)
    (hcarries : SessionSync.Carries N.scope later bucket.history s.sync u)
    (hlive : later < g.expiresAt) {phase : AuthPhase} :
    Outranked N ⟨u, later, bucket, reply, strays, phase⟩ g := by
  obtain ⟨x, hfold, horder, hx⟩ := h
  exact ⟨x, hfold, horder,
    (hx.mono hsub).carries hcarries (hlive.trans_le (Session.expiresAt_le horder.le))⟩

/-- A step that goes on with the run of `authenticate` only where its call of `sync` ends. -/
theorem Inv.next (h : Inv N s) {o : Option SessionSync.SyncOutcome} (hle : s.now ≤ later)
    (hsub : ∀ e ∈ s.bucket.history, e ∈ bucket.history)
    (hbot : u.BotInv N.scope (Filed N.scope N.names) later bucket.history)
    (hbucket : bucket.Inv N.scope (Filed N.scope N.names) later)
    (hreply : ∀ w v, u.writing = some w → reply = some v → Answers N later bucket.history w v)
    (hstrays : ∀ e ∈ strays, ∃ x, parseSessionRecord N.scope e.2 = some x ∧
      Filed N.scope N.names later x)
    (hsyncs : u.syncs + SessionSync.ended o = s.sync.syncs)
    (hcarries : SessionSync.Carries N.scope later bucket.history s.sync u) :
    Inv N ⟨u, later, bucket, reply, strays, s.phase.hears o⟩ where
  bot := hbot
  bucket := hbucket
  reply := hreply
  strays := hstrays
  syncs := AuthPhase.hears_awaits (hsyncs.trans h.syncs)
  granted := fun g hg => h.granted g (AuthPhase.hears_granted s.phase o ▸ hg)
  outranked := by
    intro g hg hlive
    rw [AuthPhase.hears_refusal] at hg
    exact (h.outranked g hg (hle.trans_lt hlive)).carries hsub hcarries hlive

/-- The queue and the lock stay. -/
theorem Inv.aside (h : Inv N s) (hle : s.now ≤ later) (haside : SessionSync.Aside s.sync u)
    (hbot : u.BotInv N.scope (Filed N.scope N.names) later s.bucket.history) :
    Inv N { s with sync := u, now := later } := by
  have hpasses : SessionSync.Passes N.scope later s.sync u :=
    SessionSync.passes_of_eq haside.pending fun t ht => haside.waiting ▸ ht
  refine h.next (o := none) hle (fun _ he => he) hbot (h.bucket.mono (filed N) hle) ?_
    (h.strays_mono hle) haside.syncs hpasses.carries
  intro w v hw hv
  exact (h.reply w v (haside.writing ▸ hw) hv).mono hle fun _ he => he

theorem Inv.tick (h : Inv N s) (hle : s.now ≤ later) : Inv N { s with now := later } :=
  h.aside hle (.refl s.sync) (h.bot.mono (filed N) hle fun _ he => he)

/-- The bucket changes, and takes writes only. -/
theorem Inv.setBucket (h : Inv N s) (hsub : ∀ e ∈ s.bucket.history, e ∈ bucket.history)
    (hbucket : bucket.Inv N.scope (Filed N.scope N.names) s.now)
    (hreply : ∀ w v, s.sync.writing = some w → reply = some v →
      Answers N s.now bucket.history w v)
    (hstrays : ∀ e ∈ strays, ∃ x, parseSessionRecord N.scope e.2 = some x ∧
      Filed N.scope N.names s.now x) :
    Inv N { s with bucket := bucket, reply := reply, strays := strays } := by
  have hpasses : SessionSync.Passes N.scope s.now s.sync s.sync :=
    SessionSync.passes_of_eq rfl fun _ ht => ht
  exact h.next (o := none) le_rfl hsub (h.bot.mono (filed N) le_rfl hsub) hbucket hreply hstrays
    rfl hpasses.carries

/-- Another put takes effect. -/
theorem Inv.put (h : Inv N s) {identity : Str} {data : Fields} {v : Json}
    (hput : s.bucket.put N.scope s.now identity data = some (bucket, v))
    (hP : ∀ x, parseSessionRecord N.scope data = some x → Filed N.scope N.names s.now x)
    (hstrays : ∀ e ∈ strays, e ∈ s.strays) :
    Inv N { s with bucket := bucket, strays := strays } := by
  have hsub := SessionBucket.put_history hput
  refine h.setBucket hsub (h.bucket.put (filed N) hput hP).1 (fun w v hw hv => ?_)
    fun e he => h.strays e (hstrays e he)
  exact (h.reply w v hw hv).mono le_rfl hsub

/-! ## Grants and refusals -/

theorem filed_grant (b : ι) (a : Authorizer) {identity : Str} (hname : N.names identity = true) :
    Filed N.scope N.names now (a.grant N.scope (N.issuers b) now identity).1 where
  named := hname
  valid := ⟨N.issuer_ne b, N.issuer_text b, N.name_ne _ hname, N.name_text _ hname⟩
  horizon := by
    simp only [Authorizer.grant, createSession, SessionScope.horizon, sessionExpiryGrace]
    linarith

theorem Inv.grant (h : Inv N s) (hrunning : s.phase.running = false) {identity : Str}
    (hname : N.names identity = true) : Inv N { s with
      sync := s.sync.call N.scope (N.issuers b) s.now (.grant identity)
      phase := .writing (s.sync.authorizer.grant N.scope (N.issuers b) s.now identity).1 } where
  bot := by
    have hbot : (s.sync.call N.scope (N.issuers b) s.now (.grant identity)).BotInv N.scope
        (Filed N.scope N.names) s.now s.bucket.history := by
      refine h.bot.call (filed N) fun other hother => ?_
      obtain rfl := SessionSync.Call.grant.inj hother
      exact filed_grant b _ hname
    exact hbot
  bucket := h.bucket
  reply := h.reply
  strays := h.strays
  syncs := by
    have hsyncs := h.syncs
    have hnone : s.phase.awaits = 0 := by
      cases hphase : s.phase <;> simp_all [AuthPhase.running, AuthPhase.awaits]
    rw [hnone] at hsyncs
    simp only [SessionSync.syncs, SessionSync.call, List.countP_append,
      SyncTask.countP_sync] at hsyncs ⊢
    rw [AuthPhase.awaits]
    omega
  granted := by
    intro g hg
    obtain rfl := Option.some.inj hg
    rfl
  outranked := by simp [AuthPhase.refusal]

theorem asked_aside (s : AuthFlow) (g : Session) (ok : Bool) :
    SessionSync.Aside s.sync (s.asked N g ok) := by
  unfold asked
  split_ifs
  · exact SessionSync.aside_handle _ _ _ _
  · exact .refl _

theorem Inv.asked (h : Inv N s) (g : Session) (ok : Bool) : (s.asked N g ok).BotInv N.scope
    (Filed N.scope N.names) s.now s.bucket.history := by
  unfold AuthFlow.asked
  split_ifs
  · exact h.bot.handle s.now s.now (.get g.ircPrefix) (by simp)
  · exact h.bot

/-- A live record is not dropped. -/
theorem asked_authorizer {x : Session} (ok : Bool)
    (hx : s.sync.authorizer.record g.ircPrefix = some x) (hlive : s.now < x.expiresAt) :
    (s.asked N g ok).authorizer = s.sync.authorizer := by
  unfold asked
  split_ifs
  · simp only [SessionSync.handle, Authorizer.get, hx, if_neg (not_le.mpr hlive)]
    split_ifs <;> rfl
  · rfl

theorem syncs_refuse (u : SessionSync) (issuer identity : Str) :
    (u.call N.scope issuer now (.refuse identity)).syncs =
      u.syncs + if (u.authorizer.revoke N.scope identity).isSome then 1 else 0 := by
  simp only [SessionSync.call]
  split
  · rename_i hnone
    simp [hnone]
  · rename_i r a hr
    simp only [hr, SessionSync.syncs, List.countP_append, SyncTask.countP_sync,
      Option.isSome_some, if_true]
    omega

/-- The session that the cache holds under the durable key of the prefix, or its revocation,
outranks what is refused. -/
theorem Inv.backed_refuse (h : Inv N s) {x : Session} (ok : Bool) (issuer : Str)
    (hgranted : g.revoked = false) (hx : s.sync.authorizer.record g.ircPrefix = some x)
    (hfold : casefold x.ircPrefix .ascii = casefold g.ircPrefix .ascii)
    (horder : g.order ≤ x.order) (hlive : s.now < g.expiresAt) :
    ∃ y, casefold y.ircPrefix .ascii = casefold g.ircPrefix .ascii ∧ g.order < y.order ∧
      ((s.asked N g ok).call N.scope issuer s.now (.refuse g.ircPrefix)).Backed N.scope
        s.bucket.history y := by
  have hxlive : s.now < x.expiresAt := hlive.trans_le (Session.expiresAt_le horder)
  have hcache : (s.asked N g ok).authorizer = s.sync.authorizer := asked_authorizer ok hx hxlive
  have hbot := h.asked g ok
  simp only [SessionSync.call]
  split
  · rename_i hnone
    -- there is nothing to revoke, as the record is a revocation
    have hrevoked : x.revoked = true := by
      rw [hcache, Authorizer.revoke, hx] at hnone
      by_contra hlive
      simp [Bool.not_eq_true _ ▸ hlive] at hnone
    refine ⟨x, hfold, lt_of_le_of_ne horder fun heq => ?_, ?_⟩
    · have hsame := (Session.order_inj heq).2.2
      rw [hgranted, hrevoked] at hsame
      simp at hsame
    · exact hbot.backed x (hcache ▸ Authorizer.caches_of_record hx) hxlive
  · rename_i r a hr
    obtain ⟨y, hy, -, rfl, -⟩ := Authorizer.revoke_eq_some hr
    rw [hcache] at hy
    obtain rfl := Option.some.inj (hx.symm.trans hy)
    have hsigned : (revocationOf N.scope x).Signed N.scope :=
      (h.bot.records x (Authorizer.caches_of_record hx)).valid.signed _ _ _
    refine ⟨revocationOf N.scope x, hfold, horder.trans_lt (Session.order_lt_revocation x), ?_⟩
    exact SessionSync.backed_of_waits ⟨_, _, by simp, rfl, hsigned.parse_asdict⟩

/-- The condition on a step: a refusal finds in the cache, under the durable key of the
prefix, what the granted session does not outrank. -/
def finds (s : AuthFlow) : AuthStep → Bool
  | .check =>
    match s.phase with
    | .written g ok => s.holds g ok || (s.sync.authorizer.record g.ircPrefix).any fun x =>
      casefold x.ircPrefix .ascii = casefold g.ircPrefix .ascii ∧ g.order ≤ x.order
    | _ => true
  | _ => true

theorem Inv.check (h : Inv N s) (hfinds : s.finds .check = true)
    (hst : step N b s .check = some t) : Inv N t := by
  simp only [step] at hst
  split at hst
  · rename_i g ok hphase
    have haside := asked_aside (N := N) s g ok
    have hidle : s.sync.syncs = 0 := by
      rw [h.syncs, hphase]
      rfl
    by_cases hholds : s.holds g ok = true
    · rw [if_pos hholds] at hst
      obtain rfl := Option.some.inj hst
      have hasked := h.aside le_rfl haside (h.asked g ok)
      refine ⟨hasked.bot, hasked.bucket, hasked.reply, hasked.strays, ?_, ?_, ?_⟩
      · exact haside.syncs.trans hidle
      · simp [AuthPhase.granted]
      · simp [AuthPhase.refusal]
    · rw [if_neg hholds] at hst
      obtain rfl := Option.some.inj hst
      obtain ⟨x, hx, hrecord⟩ : ∃ x, s.sync.authorizer.record g.ircPrefix = some x ∧
          casefold x.ircPrefix .ascii = casefold g.ircPrefix .ascii ∧ g.order ≤ x.order := by
        simpa [finds, hphase, hholds, Option.any_eq_true] using hfinds
      refine ⟨?_, h.bucket, fun w v hw hv => ?_, h.strays, ?_, ?_, ?_⟩
      · exact botInv_call (h.asked g ok) (N.issuers b) (.refuse g.ircPrefix) (by simp)
      · rw [SessionSync.call_writing, haside.writing] at hw
        exact h.reply w v hw hv
      · rw [syncs_refuse, haside.syncs, hidle]
        split_ifs <;> rfl
      · intro g' hg'
        dsimp only at hg'
        split_ifs at hg' <;> simp [AuthPhase.granted] at hg'
      · intro g' hg' hlive
        have hgranted : g.revoked = false := h.granted g (hphase ▸ rfl)
        have hsame : g = g' := by
          dsimp only at hg'
          split_ifs at hg' <;> exact Option.some.inj hg'
        subst hsame
        exact h.backed_refuse ok (N.issuers b) hgranted hx hrecord.1 hrecord.2 hlive
  · simp at hst

/-! ## The answers of the store -/

theorem Inv.acquire (h : Inv N s) {r : SessionSync × Option SessionSync.SyncOutcome}
    (hr : s.sync.acquire N.scope s.now = some r) :
    Inv N { s with sync := r.1, reply := none, phase := s.phase.hears r.2 } :=
  h.next le_rfl (fun _ he => he) (h.bot.acquire (filed N) hr) h.bucket (by simp) h.strays
    (SessionSync.syncs_acquire hr) (h.bot.acquire_passes (filed N) hr).carries

/-- The bot's own put takes effect. -/
theorem Inv.land (h : Inv N s) {w : SessionWrite} (hw : s.sync.writing = some w) {v : Json}
    (hput : s.bucket.put N.scope s.now w.key w.entry.session = some (bucket, v)) :
    Inv N { s with bucket := bucket, reply := some v } := by
  obtain ⟨x, hx, hkey, hPx⟩ := h.bot.writing hw
  have hP : ∀ z, parseSessionRecord N.scope w.entry.session = some z →
      Filed N.scope N.names s.now z := by
    intro z hz
    obtain rfl := Option.some.inj (hx.symm.trans hz)
    exact hPx
  obtain ⟨hbucket, y, hy, hfold, hPy, hlogged, horder⟩ := h.bucket.put (filed N) hput hP
  refine h.setBucket (SessionBucket.put_history hput) hbucket (fun w' v' hw' hv' => ?_) h.strays
  obtain rfl := Option.some.inj (hw.symm.trans hw')
  obtain rfl := Option.some.inj hv'
  rw [hkey, casefold_ascii, ← hkey] at hfold
  exact ⟨y, hy, hfold, hPy, hlogged, horder⟩

/-- `put_session` returns. -/
theorem Inv.answer (h : Inv N s) {w : SessionWrite} (hw : s.sync.writing = some w)
    {stored : Fields} (hreply : s.reply = some (.obj stored)) {latest : ℚ}
    (hlater : s.now ≤ later) (hlatest : later ≤ latest) : Inv N { s with
      sync := (s.sync.written N.scope s.now later latest w stored).1
      now := latest
      reply := none
      phase := s.phase.hears (s.sync.written N.scope s.now later latest w stored).2 } := by
  obtain ⟨y, ⟨d, hd, hy⟩, hfold, hPy, hlogged, horder⟩ := h.reply w _ hw hreply
  obtain rfl := JsonOf.obj.inj hd
  have hle := hlater.trans hlatest
  have hbot := h.bot.written (filed N) hw hy hfold hPy hlogged horder s.now later latest
  refine h.next hle (fun _ he => he) (hbot.mono (filed N) hle fun _ he => he)
    (h.bucket.mono (filed N) hle) (by simp) (h.strays_mono hle)
    (SessionSync.syncs_written hw s.now later latest stored) fun z _ hz => ?_
  rcases h.bot.written_passes hw hfold horder s.now later latest hz with ⟨hzfold, hzorder⟩ | hz
  · exact (SessionSync.backed_of_logged hlogged).above hzfold hzorder
  · exact ⟨z, rfl, le_rfl, .inr hz⟩

/-- `put_session` raises, and its write may still take effect. -/
theorem Inv.fail (h : Inv N s) {w : SessionWrite} (hw : s.sync.writing = some w) :
    Inv N { s with
      sync := (s.sync.failed w).1
      reply := none
      strays := if s.reply.isNone then (w.key, w.entry.session) :: s.strays else s.strays
      phase := s.phase.hears (s.sync.failed w).2 } := by
  have hpasses : SessionSync.Passes N.scope s.now s.sync (s.sync.failed w).1 :=
    SessionSync.passes_of_eq rfl fun _ ht => ht
  refine h.next le_rfl (fun _ he => he) (h.bot.leave w.task) h.bucket (by simp) (fun e he => ?_)
    (SessionSync.syncs_leave hw) hpasses.carries
  split_ifs at he
  · rcases List.mem_cons.mp he with rfl | he
    · obtain ⟨x, hx, -, hPx⟩ := h.bot.writing hw
      exact ⟨x, hx, hPx⟩
    · exact h.strays e he
  · exact h.strays e he

/-! ## Runs -/

theorem Inv.revoke (h : Inv N s) (issuer identity : Str) :
    Inv N { s with sync := s.sync.call N.scope issuer s.now (.revoke identity) } := by
  refine h.next (o := none) le_rfl (fun _ he => he) ?_ h.bucket (fun w v hw hv => ?_) h.strays
    (SessionSync.syncs_revoke s.sync identity) (h.bot.passes_call (filed N) issuer _).carries
  · exact h.bot.revoke (filed N) identity
  · rw [SessionSync.call_writing] at hw
    exact h.reply w v hw hv

theorem Inv.retry (h : Inv N s) (issuer : Str) :
    Inv N { s with sync := s.sync.call N.scope issuer s.now .retry } := by
  refine h.next (o := none) le_rfl (fun _ he => he) ?_ h.bucket h.reply h.strays ?_
    (h.bot.passes_call (filed N) issuer _).carries
  · exact botInv_call h.bot issuer .retry (by simp)
  · simp [SessionSync.syncs, SessionSync.call, SessionSync.ended, SyncTask.isSync]

/-- The watch delivers a write. -/
theorem Inv.watch (h : Inv N s) {key : Str} {record : Fields}
    (hmem : (key, JsonOf.obj record) ∈ s.bucket.history) (hle : s.now ≤ later)
    (replaying : Bool) : Inv N { s with
      sync := s.sync.observe N.scope s.now later key record replaying
      now := later } := by
  have hbot := h.bot.handle s.now later (.observe key record replaying) ?_
  · exact h.aside hle (SessionSync.aside_observe _ _ _ _ _ _)
      (hbot.mono (filed N) hle fun _ he => he)
  · rintro key' record' replaying' heq z hz
    obtain ⟨rfl, rfl, rfl⟩ := SessionSync.Event.observe.inj heq
    obtain ⟨y, ⟨d, hd, hy⟩, rfl, hPy⟩ := h.bucket.logged _ _ hmem
    obtain rfl := JsonOf.obj.inj hd
    obtain rfl := Option.some.inj (hy.symm.trans hz)
    exact ⟨hPy, _, hmem, _, rfl, hy⟩

theorem Inv.step {a : AuthStep} (h : Inv N s) (hfinds : s.finds a = true)
    (hst : step N b s a = some t) : Inv N t := by
  cases a with
  | clock later =>
    simp only [AuthFlow.step] at hst
    split_ifs at hst with hle
    obtain rfl := Option.some.inj hst
    exact h.tick hle
  | event e =>
    simp only [AuthFlow.step] at hst
    split at hst
    · simp at hst
    · rename_i hobserve
      obtain rfl := Option.some.inj hst
      refine h.aside le_rfl (SessionSync.aside_handle _ _ _ _) ?_
      exact h.bot.handle s.now s.now e fun key record replaying heq =>
        absurd heq (hobserve key record replaying)
  | watch n later replaying =>
    simp only [AuthFlow.step] at hst
    split at hst
    · rename_i key record hnth
      split_ifs at hst with hle
      obtain rfl := Option.some.inj hst
      exact h.watch (List.mem_of_getElem? hnth) hle replaying
    · simp at hst
  | revoke identity =>
    obtain rfl := Option.some.inj hst
    exact h.revoke _ identity
  | retry =>
    obtain rfl := Option.some.inj hst
    exact h.retry _
  | acquire =>
    obtain ⟨r, hr, rfl⟩ := Option.map_eq_some_iff.mp hst
    exact h.acquire hr
  | land =>
    simp only [AuthFlow.step] at hst
    split at hst
    · rename_i w hw hreply
      obtain ⟨r, hr, rfl⟩ := Option.map_eq_some_iff.mp hst
      exact h.land hw hr
    · simp at hst
  | answer later latest =>
    simp only [AuthFlow.step] at hst
    split at hst
    · rename_i w stored hw hreply
      split_ifs at hst with hclock
      obtain rfl := Option.some.inj hst
      exact h.answer hw hreply hclock.1 hclock.2
    · simp at hst
  | fail =>
    simp only [AuthFlow.step] at hst
    split at hst
    · simp at hst
    · rename_i w hw
      obtain rfl := Option.some.inj hst
      exact h.fail hw
  | stray n =>
    simp only [AuthFlow.step] at hst
    split at hst
    · simp at hst
    · rename_i identity data hstray
      obtain ⟨r, hr, rfl⟩ := Option.map_eq_some_iff.mp hst
      obtain ⟨x, hx, hPx⟩ := h.strays _ (List.mem_of_getElem? hstray)
      refine h.put hr (fun z hz => ?_) fun e he => List.mem_of_mem_eraseIdx he
      obtain rfl := Option.some.inj (hx.symm.trans hz)
      exact hPx
  | peer identity data =>
    simp only [AuthFlow.step] at hst
    split_ifs at hst with hnamed
    obtain ⟨r, hr, rfl⟩ := Option.map_eq_some_iff.mp hst
    refine h.put hr (fun z hz => ?_) fun _ he => he
    obtain ⟨x, hx, -, hhorizon, -⟩ := SessionBucket.put_cases hr
    obtain rfl := Option.some.inj (hx.symm.trans hz)
    rw [hx, Option.any_some] at hnamed
    exact ⟨hnamed, valid_of_parse hx, hhorizon⟩
  | delete key =>
    obtain rfl := Option.some.inj hst
    refine h.setBucket (fun _ he => he) (h.bucket.delete key) h.reply h.strays
  | grant identity =>
    simp only [AuthFlow.step] at hst
    split_ifs at hst with hready
    obtain rfl := Option.some.inj hst
    exact h.grant hready.1 hready.2.1
  | check => exact h.check hfinds hst

/-- What becomes of a refused session: it never reached the bucket and is not queued, or under
its durable key the queue or the bucket holds what outranks it. -/
def Dead (N : SessionNetwork ι) (s : AuthFlow) (g : Session) : Prop :=
  (¬ Logged N.scope s.bucket.history g ∧ ¬ s.sync.Pends N.scope g) ∨
  ∃ x, casefold x.ircPrefix .ascii = casefold g.ircPrefix .ascii ∧ g.order < x.order ∧
    (s.sync.Pends N.scope x ∨ s.bucket.Holds N.scope x)

/-- Once no call of `sync` waits, what outranks the session is queued or held. -/
theorem Inv.dead (h : Inv N s) (hphase : s.phase = .refused g) (hlive : s.now < g.expiresAt)
    (hkept : sessionKey N.scope g.ircPrefix ∉ s.bucket.deleted) :
    ∃ x, casefold x.ircPrefix .ascii = casefold g.ircPrefix .ascii ∧ g.order < x.order ∧
      (s.sync.Pends N.scope x ∨ s.bucket.Holds N.scope x) := by
  obtain ⟨x, hfold, horder, y, hyfold, hyorder, hy⟩ := h.outranked g (hphase ▸ rfl) hlive
  have hyg : casefold y.ircPrefix .ascii = casefold g.ircPrefix .ascii := hyfold.trans hfold
  have hgy : g.order < y.order := horder.trans_le hyorder
  rcases hy with hlogged | hpends | ⟨i, d, hmem, -, -⟩
  · have hylive : s.now < y.expiresAt := hlive.trans_le (Session.expiresAt_le hgy.le)
    obtain ⟨z, hz, hzfold, hzorder⟩ :=
      h.bucket.current y hlogged hylive (sessionKey_congr hyg ▸ hkept)
    exact ⟨z, hzfold.trans hyg, hgy.trans_le hzorder, .inr hz⟩
  · exact ⟨y, hyg, hgy, .inl hpends⟩
  · -- the run has ended, and no other command waits for the lock
    have hnone : s.sync.syncs = 0 := by
      rw [h.syncs, hphase]
      rfl
    have hpos : 0 < s.sync.waiting.countP SyncTask.isSync :=
      List.countP_pos_iff.mpr ⟨_, hmem, rfl⟩
    rw [SessionSync.syncs] at hnone
    omega

/-- In a run whose refusals all find in the cache, under the durable key of the prefix, what
the granted session does not outrank, a refused session is dead until it expires, unless its
own key is deleted; and once nothing is pending, the bucket does not hold it. -/
theorem refused_dead (N : SessionNetwork ι) (b : ι) (start : ℚ) (as : List AuthStep) (s : AuthFlow)
    (g : Session) (hrun : Machine.run (step N b) (init start) as = some s)
    (hfinds : Machine.along (step N b) finds (init start) as = true)
    (hphase : s.phase = .refused g) (hlive : s.now < g.expiresAt)
    (hkept : sessionKey N.scope g.ircPrefix ∉ s.bucket.deleted) :
    Dead N s g ∧ (s.sync.pending = [] → ¬ s.bucket.Holds N.scope g) := by
  have hinv : Inv N s := Machine.run_invariant_along
    (fun _ _ _ h hp hst => h.step hp hst) (inv_init N start) hfinds hrun
  obtain ⟨x, hfold, horder, hx⟩ := hinv.dead hphase hlive hkept
  refine ⟨.inr ⟨x, hfold, horder, hx⟩, fun hempty hholds => ?_⟩
  rcases hx with ⟨q, hq, -⟩ | hx
  · rw [hempty] at hq
    simp at hq
  · obtain rfl := hx.unique hholds hfold
    exact lt_irrefl _ horder

/-- IRC is lost while the grant is written; the revocation takes its place. -/
def sampleRefusal : List AuthStep :=
  [.event (.watchIdentity (lit "a[!u@h")), .grant (lit "a[!u@h"), .acquire, .land,
    .event .disconnect, .answer 1 1, .check, .acquire, .land, .answer 2 2]

/-- The session that the sample runs grant -/
def sampleGranted : Session := createSession sampleScope (lit "a[!u@h") 10 (lit "f") 0 false

open SessionMesh (sampleNetwork)

theorem refused_dead_disconnect : ∃ s,
    Machine.run (step sampleNetwork false) (init 0) sampleRefusal = some s ∧
      Dead sampleNetwork s sampleGranted ∧
      (s.sync.pending = [] → ¬ s.bucket.Holds sampleScope sampleGranted) := by
  have hrun : ((Machine.run (step sampleNetwork false) (init 0) sampleRefusal).any fun s =>
      decide (s.phase = .refused sampleGranted ∧ s.now < 10 ∧ s.bucket.deleted = [])) = true := by
    decide +kernel
  obtain ⟨s, hs, hstate⟩ := (Option.any_eq_true _ _).mp hrun
  obtain ⟨hphase, hnow, hdeleted⟩ := of_decide_eq_true hstate
  refine ⟨s, hs, refused_dead sampleNetwork false 0 sampleRefusal s sampleGranted hs ?_ hphase
    hnow ?_⟩
  · decide +kernel
  · simp [hdeleted]

/-- While the grant is written, a session with a later expiry arrives for a prefix that the
casemapping of the disconnect identifies with the granted one. The refusal revokes that. -/
def sampleCollapse : List AuthStep :=
  [.event (.casemapping .ascii), .event (.watchIdentity (lit "a[!u@h")),
    .grant (lit "a[!u@h"), .acquire, .clock 1,
    .peer (lit "a\x7b!u@h") (createSession sampleScope (lit "a\x7b!u@h") 11 (lit "t") 0 false).asdict,
    .watch 0 1 false, .land, .event .disconnect, .answer 1 1, .check, .acquire, .land, .answer 1 1]

theorem not_refused_dead_all : ¬ ∀ (as : List AuthStep) (s : AuthFlow) (g : Session),
    Machine.run (step sampleNetwork false) (init 0) as = some s → s.phase = .refused g →
      s.now < g.expiresAt → s.bucket.deleted = [] → Dead sampleNetwork s g := by
  intro hall
  have hrun : ((Machine.run (step sampleNetwork false) (init 0) sampleCollapse).any fun s =>
      decide (s.phase = .refused sampleGranted ∧ s.now < 10 ∧ s.bucket.deleted = [] ∧
        s.sync.pending.isEmpty ∧
        (s.bucket.store.value (sessionKey sampleScope sampleGranted.ircPrefix)).bind
          (SessionBucket.read sampleScope) = some sampleGranted ∧
        (s.bucket.history.any fun e => e.1 = sessionKey sampleScope sampleGranted.ircPrefix ∧
          SessionBucket.read sampleScope e.2 = some sampleGranted))) = true := by
    decide +kernel
  obtain ⟨s, hs, hstate⟩ := (Option.any_eq_true _ _).mp hrun
  obtain ⟨hphase, hnow, hdeleted, hpending, hheld, hlogged⟩ := of_decide_eq_true hstate
  obtain ⟨v, hv, hread⟩ := Option.bind_eq_some_iff.mp hheld
  have hholds : s.bucket.Holds sampleScope sampleGranted :=
    ⟨v, hv, SessionBucket.read_eq_some.mp hread⟩
  rcases hall sampleCollapse s sampleGranted hs hphase hnow hdeleted with
    ⟨hnever, -⟩ | ⟨x, hfold, horder, ⟨q, hq, -⟩ | hx⟩
  · obtain ⟨⟨key, w⟩, hmem, hw⟩ := List.any_eq_true.mp hlogged
    obtain ⟨rfl, hw⟩ := of_decide_eq_true hw
    exact hnever ⟨w, hmem, SessionBucket.read_eq_some.mp hw⟩
  · rw [List.isEmpty_iff.mp hpending] at hq
    simp at hq
  · obtain rfl := hx.unique hholds hfold
    exact lt_irrefl _ horder

end AuthFlow

end Botnats
