import Botnats.PutNewer
import Botnats.Session

/-!
# The sessions bucket

`SessionStore.put` as a caller of the optimistic replacement of `PutNewer`, and what
holds of the bucket whatever its callers do: a stored session is replaced only once it
has expired, or by one that outranks it. A caller is told a stored session that ranks
at least as high as its own.
-/
namespace Botnats

open Json Bucket History

/-- A call of `SessionStore.put` that passed its check. -/
structure SessionPut (S : SessionScope) (ι : Type*) where
  bot : ι
  identity : Str
  data : Fields
  order : SessionOrder
  order_eq : sessionOrder S identity (.obj data) = some order

/-- The stored value reads as a session. -/
def Reads (S : SessionScope) (v : Json) (y : Session) : Prop :=
  ∃ d, v = .obj d ∧ parseSessionRecord S d = some y

/-- What the sessions of a run satisfy at a clock reading: they expire within the
horizon, and their bucket keys tell durable identities apart. -/
structure Admissible (S : SessionScope) (P : ℚ → Session → Prop) : Prop where
  mono : ∀ now later y, now ≤ later → P now y → P later y
  valid : ∀ now y, P now y → y.Valid
  horizon : ∀ now y, P now y → y.expiresAt ≤ S.horizon now
  key : ∀ now y z, P now y → P now z →
    sessionKey S y.ircPrefix = sessionKey S z.ircPrefix →
      casefold y.ircPrefix .ascii = casefold z.ircPrefix .ascii
  revocation : ∀ now y, P now y → y.revoked = false → P now (revocationOf S y)

section Puts

variable {S : SessionScope} {ι : Type*}

def putKey (c : SessionPut S ι) : Str := sessionKey S c.identity

def putData (c : SessionPut S ι) : Json := .obj c.data

/-- The `newer` of a put, at the clock reading of its judgement -/
def putNewer (now : ℚ) (c : SessionPut S ι) : Json → Bool := sessionNewer S now c.identity c.order

/-- One step of the bucket's network at a clock reading -/
def bucketStep (now : ℚ) (n : PutNewer.Net (SessionPut S ι) Str Json) (a : PutNewer.Act) :
    Option (PutNewer.Net (SessionPut S ι) Str Json ×
      Option (PutNewer.Outcome (SessionPut S ι) Json)) :=
  PutNewer.step putKey putData (putNewer now) casAttemptLimit n a

/-- The call of `SessionStore.put`; `none` where it raises `ValueError`. -/
def sessionPut (S : SessionScope) (now : ℚ) (bot : ι) (identity : Str) (data : Fields) :
    Option (SessionPut S ι) :=
  match h : sessionOrder S identity (.obj data) with
  | none => none
  | some order => if sessionWritable S now identity (.obj data) then
      some ⟨bot, identity, data, order, h⟩ else none

/-- The caller may replace the value at a clock reading. -/
def Replaces (now : ℚ) (c : SessionPut S ι) (v : Json) : Prop :=
  ∀ y, Reads S v y → casefold y.ircPrefix .ascii = casefold c.identity .ascii →
    y.expiresAt ≤ now ∨ y.order < c.order

end Puts

variable {S : SessionScope} {ι : Type*} {P : ℚ → Session → Prop} {now later : ℚ}
  {v w : Json} {y z : Session}

theorem Reads.unique (h : Reads S v y) (h' : Reads S v z) : y = z := by
  obtain ⟨d, rfl, hd⟩ := h
  obtain ⟨d', hd', hparse⟩ := h'
  obtain rfl := JsonOf.obj.inj hd'
  exact Option.some.inj (hd.symm.trans hparse)

theorem Reads.order {identity : Str} (h : Reads S v y)
    (hfold : casefold y.ircPrefix .ascii = casefold identity .ascii) :
    sessionOrder S identity v = some y.order := by
  obtain ⟨d, rfl, hd⟩ := h
  exact sessionOrder_eq_some.mpr ⟨y, hd, hfold, rfl⟩

/-- A stored session within the horizon may be replaced once it has expired, or by one that
outranks it. -/
theorem Reads.newer_iff {identity : Str} {order : SessionOrder} (h : Reads S v y)
    (hfold : casefold y.ircPrefix .ascii = casefold identity .ascii)
    (hhorizon : y.expiresAt ≤ S.horizon now) :
    sessionNewer S now identity order v = true ↔ y.expiresAt ≤ now ∨ y.order < order := by
  have hwithin : ¬ S.horizon now < y.expiresAt := not_lt.mpr hhorizon
  have hexpiry : (ofLex y.order).1 = y.expiresAt := rfl
  simp only [sessionNewer, h.order hfold, Bool.or_eq_true, decide_eq_true_eq, hexpiry, hwithin,
    or_false]

/-- What may not be replaced ranks at least as high. -/
theorem Reads.le_of_not_newer {identity : Str} {order : SessionOrder} (h : Reads S v y)
    (hfold : casefold y.ircPrefix .ascii = casefold identity .ascii)
    (holder : sessionNewer S now identity order v = false) : order ≤ y.order := by
  simp only [sessionNewer, h.order hfold, Bool.or_eq_false_iff,
    decide_eq_false_iff_not] at holder
  exact not_lt.mp holder.2

/-- The dict of a put reads as a session of its identity. -/
theorem SessionPut.reads (c : SessionPut S ι) : ∃ x, Reads S (putData c) x ∧
    casefold x.ircPrefix .ascii = casefold c.identity .ascii ∧ x.order = c.order := by
  obtain ⟨x, hx, hfold, horder⟩ := sessionOrder_eq_some.mp c.order_eq
  exact ⟨x, ⟨_, rfl, hx⟩, hfold, horder⟩

/-- A session takes the place of one that has expired or that it outranks. -/
def Succeeds (S : SessionScope) (now : ℚ) (_ : Str) (v w : Json) : Prop :=
  ∃ y z, Reads S v y ∧ Reads S w z ∧
    casefold y.ircPrefix .ascii = casefold z.ircPrefix .ascii ∧
    (y.expiresAt ≤ now ∨ y.order < z.order)

theorem succeeds_trans (k : Str) (u v w : Json) (h : Succeeds S now k u v)
    (h' : Succeeds S now k v w) : Succeeds S now k u w := by
  obtain ⟨x, y, hx, hy, hxy, hlt⟩ := h
  obtain ⟨y', z, hy', hz, hyz, hlt'⟩ := h'
  obtain rfl := hy.unique hy'
  refine ⟨x, z, hx, hz, hxy.trans hyz, ?_⟩
  rcases hlt with hexpired | hlt
  · exact .inl hexpired
  · rcases hlt' with hexpired | hlt'
    · exact .inl ((Session.expiresAt_le hlt.le).trans hexpired)
    · exact .inr (hlt.trans hlt')

theorem Succeeds.mono {k : Str} (h : Succeeds S now k v w) (hle : now ≤ later) :
    Succeeds S later k v w := by
  obtain ⟨y, z, hy, hz, hfold, hor⟩ := h
  exact ⟨y, z, hy, hz, hfold, hor.imp_left fun he => he.trans hle⟩

theorem Replaces.mono {c : SessionPut S ι} (h : Replaces now c v) (hle : now ≤ later) :
    Replaces later c v := fun y hy hfold => (h y hy hfold).imp_left fun he => he.trans hle

/-- The session was written under its key. -/
def Logged (S : SessionScope) (history : List (Str × Json)) (y : Session) : Prop :=
  ∃ v, (sessionKey S y.ircPrefix, v) ∈ history ∧ Reads S v y

/-- The session is what its key holds. -/
def Stored (S : SessionScope) (history : List (Str × Json)) (y : Session) : Prop :=
  ∃ e, entry (sessionKey S y.ircPrefix) history = some e ∧ Reads S e.value y

theorem Logged.mono {history history' : List (Str × Json)} (h : Logged S history y)
    (hsub : ∀ x ∈ history, x ∈ history') : Logged S history' y := by
  obtain ⟨v, hv, hy⟩ := h
  exact ⟨v, hsub _ hv, hy⟩

theorem Stored.logged {history : List (Str × Json)} (h : Stored S history y) :
    Logged S history y := by
  obtain ⟨e, he, hy⟩ := h
  exact ⟨e.value, (Holds.of_entry he).mem, hy⟩

/-- What holds of the bucket and its callers at a clock reading. -/
structure StoreInv (P : ℚ → Session → Prop) (now : ℚ)
    (n : PutNewer.Net (SessionPut S ι) Str Json) : Prop where
  net : PutNewer.Inv putKey putData (Replaces now) n
  chain : Chain (Succeeds S now) n.history
  logged : ∀ k v, (k, v) ∈ n.history → ∃ y, Reads S v y ∧ k = sessionKey S y.ircPrefix ∧ P now y
  calls : ∀ c, PutNewer.Calls n c → ∀ x, Reads S (putData c) x → P now x

namespace StoreInv

variable {n n' : PutNewer.Net (SessionPut S ι) Str Json}
  {o : Option (PutNewer.Outcome (SessionPut S ι) Json)}

theorem init (now : ℚ) :
    StoreInv P now (PutNewer.Net.init : PutNewer.Net (SessionPut S ι) Str Json) where
  net := PutNewer.inv_init
  chain := trivial
  logged := by simp [PutNewer.Net.init]
  calls := by simp [PutNewer.Calls, PutNewer.Net.init]

theorem mono (hP : Admissible S P) (h : StoreInv P now n) (hle : now ≤ later) :
    StoreInv P later n where
  net := h.net.mono fun _ _ hr => hr.mono hle
  chain := h.chain.mono fun _ _ _ hs => hs.mono hle
  logged := by
    intro k v hkv
    obtain ⟨y, hy, hk, hPy⟩ := h.logged k v hkv
    exact ⟨y, hy, hk, hP.mono _ _ _ hle hPy⟩
  calls := fun c hc x hx => hP.mono _ _ _ hle (h.calls c hc x hx)

theorem start (h : StoreInv P now n) {c : SessionPut S ι}
    (hc : ∀ x, Reads S (putData c) x → P now x) : StoreInv P now (n.start c) where
  net := h.net.start c
  chain := h.chain
  logged := h.logged
  calls := by
    intro d hd x hx
    rcases PutNewer.calls_start hd with hd | rfl
    · exact h.calls d hd x hx
    · exact hc x hx

/-- The session a call's dict reads as has the identity of the call. -/
theorem call_reads (h : StoreInv P now n) {c : SessionPut S ι} (hc : PutNewer.Calls n c) :
    ∃ x, Reads S (putData c) x ∧ casefold x.ircPrefix .ascii = casefold c.identity .ascii ∧
      x.order = c.order ∧ P now x := by
  obtain ⟨x, hx, hfold, horder⟩ := c.reads
  exact ⟨x, hx, hfold, horder, h.calls c hc x hx⟩

/-- A stored value under the key of a call has the identity of the call. -/
theorem stored_reads (hP : Admissible S P) (h : StoreInv P now n) {c : SessionPut S ι}
    (hc : PutNewer.Calls n c) (hv : (putKey c, v) ∈ n.history) :
    ∃ y, Reads S v y ∧ casefold y.ircPrefix .ascii = casefold c.identity .ascii ∧ P now y := by
  obtain ⟨y, hy, hk, hPy⟩ := h.logged _ _ hv
  obtain ⟨x, -, hfold, -, hPx⟩ := h.call_reads hc
  refine ⟨y, hy, ?_, hPy⟩
  rw [← hfold]
  apply hP.key now y x hPy hPx
  rw [← hk, putKey, sessionKey_congr hfold]

/-- A value that is judged older may be replaced: it is not beyond the horizon. -/
theorem replaces (hP : Admissible S P) (h : StoreInv P now n) {c : SessionPut S ι}
    (hv : (putKey c, v) ∈ n.history) (hnewer : putNewer now c v = true) : Replaces now c v := by
  intro y hy hfold
  obtain ⟨y', hy', -, hPy⟩ := h.logged _ _ hv
  obtain rfl := hy.unique hy'
  exact (hy.newer_iff hfold (hP.horizon _ _ hPy)).mp hnewer

/-- A step of a put, before its caller hears of it. -/
theorem moves (hP : Admissible S P) (h : StoreInv P now n)
    (hst : PutNewer.Moves putKey putData (putNewer now) n n' o) : StoreInv P now n' := by
  have hnet := h.net.moves (fun _ _ hv hnewer => h.replaces hP hv hnewer) hst
  have hcalls := (PutNewer.calls_of_moves hst).1
  rcases h.net.grows hst with heq | ⟨w, hw, heq, hreplaces⟩
  · refine ⟨hnet, ?_, ?_, fun c hc => h.calls c (hcalls c hc)⟩
    · rw [heq]
      exact h.chain
    · rw [heq]
      exact h.logged
  · have hcall : PutNewer.Calls n w.caller := .inr ⟨w, hw, rfl⟩
    obtain ⟨x, hx, hfold, horder, hPx⟩ := h.call_reads hcall
    refine ⟨hnet, ?_, ?_, fun c hc => h.calls c (hcalls c hc)⟩
    · rw [heq, chain_cons]
      refine ⟨fun e he => ?_, h.chain⟩
      obtain ⟨y, hy, hyfold, -⟩ := h.stored_reads hP hcall (Holds.of_entry he).mem
      refine ⟨y, x, hy, hx, hyfold.trans hfold.symm, ?_⟩
      rw [horder]
      exact hreplaces e he y hy hyfold
    · rw [heq]
      intro k v hkv
      rcases List.mem_cons.mp hkv with hkv | hkv
      · obtain ⟨rfl, rfl⟩ := Prod.mk.inj hkv
        exact ⟨x, hx, (sessionKey_congr hfold).symm, hPx⟩
      · exact h.logged k v hkv

/-- The history grows only. -/
theorem subset (h : StoreInv P now n)
    (hst : PutNewer.Moves putKey putData (putNewer now) n n' o) :
    n'.history = n.history ∨ ∃ x, n'.history = x :: n.history := by
  rcases h.net.grows hst with heq | ⟨w, -, heq, -⟩
  · exact .inl heq
  · exact .inr ⟨_, heq⟩

/-- What a put returns is a stored session of its identity that ranks at least as high
as its own. -/
theorem returned (hP : Admissible S P) (h : StoreInv P now n)
    {oc : PutNewer.Outcome (SessionPut S ι) Json}
    (hst : PutNewer.Moves putKey putData (putNewer now) n n' (some oc)) (hv : oc.result = some v) :
    ∃ y, Reads S v y ∧ casefold y.ircPrefix .ascii = casefold oc.caller.identity .ascii ∧
      oc.caller.order ≤ y.order ∧ P now y ∧ Logged S n'.history y := by
  obtain ⟨hmem, hhistory, hor⟩ := h.net.returned hst hv
  have hcall := (PutNewer.calls_of_moves hst).2 oc rfl
  obtain ⟨y, hy, hfold, hPy⟩ := h.stored_reads hP hcall hmem
  refine ⟨y, hy, hfold, ?_, hPy, v, ?_, hy⟩
  · rcases hor with hown | holder
    · obtain ⟨x, hx, -, horder, -⟩ := h.call_reads hcall
      rw [← hown] at hx
      obtain rfl := hx.unique hy
      exact horder.ge
    · exact hy.le_of_not_newer hfold holder
  · rw [hhistory, sessionKey_congr hfold]
    exact hmem

/-- While a session that was stored has not expired, its key holds a session of the same
identity that ranks at least as high. -/
theorem current (h : StoreInv P now n) (hy : Logged S n.history y) (hlive : now < y.expiresAt) :
    ∃ z, Stored S n.history z ∧ casefold z.ircPrefix .ascii = casefold y.ircPrefix .ascii ∧
      y.order ≤ z.order := by
  obtain ⟨v, hv, hread⟩ := hy
  obtain ⟨e, he, hor⟩ := h.chain.current succeeds_trans hv
  rcases hor with heq | ⟨y', z, hy', hz, hfold, hor⟩
  · exact ⟨y, ⟨e, he, heq ▸ hread⟩, rfl, le_rfl⟩
  · obtain rfl := hread.unique hy'
    refine ⟨z, ⟨e, ?_, hz⟩, hfold.symm, (hor.resolve_left (not_le.mpr hlive)).le⟩
    rw [sessionKey_congr hfold.symm]
    exact he

/-- An unexpired session is not written before an expired one of its key. -/
theorem not_before (h : StoreInv P now n) {k : Str} {i j : ℕ} (hy : Reads S v y)
    (hz : Reads S w z) (hi : Holds n.history k i v) (hj : Holds n.history k j w)
    (hlive : now < y.expiresAt) (hexpired : z.expiresAt ≤ now) : j < i := by
  rcases lt_trichotomy i j with hij | rfl | hij
  · obtain ⟨y', z', hy', hz', -, hor⟩ := h.chain.ordered succeeds_trans hi hj hij
    obtain rfl := hy.unique hy'
    obtain rfl := hz.unique hz'
    rcases hor with hle | hlt
    · exact absurd hle (not_le.mpr hlive)
    · exact absurd ((Session.expiresAt_le hlt.le).trans hexpired) (not_le.mpr hlive)
  · obtain ⟨-, rfl⟩ := hi.unique hj
    obtain rfl := hy.unique hz
    exact absurd hexpired (not_le.mpr hlive)
  · exact hij

end StoreInv

/-- A put that passed its check has the session of its dict within the horizon. -/
theorem sessionPut_eq_some {bot : ι} {identity : Str} {data : Fields} {c : SessionPut S ι}
    (h : sessionPut S now bot identity data = some c) :
    c.bot = bot ∧ c.identity = identity ∧ c.data = data := by
  unfold sessionPut at h
  split at h
  · simp at h
  · split_ifs at h
    obtain rfl := Option.some.inj h
    exact ⟨rfl, rfl, rfl⟩

end Botnats
