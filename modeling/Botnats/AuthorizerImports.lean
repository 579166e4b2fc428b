import Botnats.AuthorizerRekey
import Botnats.Newest

/-!
# The order of imports

While the casemapping stays, the sessions that a bot imported at one instant are indexed by
identity: the cache holds the highest of each, in whatever order they came. A revocation
that the bot made stays in the cache until a higher record takes its place or it expires,
and what expired earlier cannot be imported or granted later.
-/
namespace Botnats

open Json Newest

namespace Authorizer

section Model

variable (S : SessionScope)

/-- `parse` of any value -/
def parseValue (current : ℚ) : Json → Option Session
  | .obj record => parseSession S current record
  | _ => none

/-- `import_session` of any value -/
def importValue (a : Authorizer) (now : ℚ) : Json → Authorizer
  | .obj record => a.importSession S now record
  | _ => a

/-- Calls at one instant. `authorized` is `get`, compared with `None`. -/
inductive Call
  | importSession (value : Json)
  | prune
  | get (identity : Str)

def call (a : Authorizer) (now : ℚ) : Call → Authorizer
  | .importSession value => a.importValue S now value
  | .prune => a.prune now
  | .get identity => (a.get now identity).2

def runCalls (a : Authorizer) (now : ℚ) (calls : List Call) : Authorizer :=
  calls.foldl (fun a c => a.call S now c) a

/-- The imported values, in order -/
def imports (calls : List Call) : List Json :=
  calls.filterMap fun
    | .importSession value => some value
    | _ => none

/-- The sessions that `parse` accepts -/
def accepted (now : ℚ) (values : List Json) : List Session :=
  values.filterMap (parseValue S now)

/-- What follows a revocation -/
inductive Later
  | call (c : Call)
  | dropSession (identity : Str)
  | grant (identity : Str)

def later (issuer : Str) (a : Authorizer) (now : ℚ) : Later → Authorizer
  | .call c => a.call S now c
  | .dropSession identity => a.dropSession identity
  | .grant identity => (a.grant S issuer now identity).2

/-- Each call comes with its instant. -/
def runLater (issuer : Str) (a : Authorizer) (calls : List (ℚ × Later)) : Authorizer :=
  calls.foldl (fun a c => later S issuer a c.1 c.2) a

/-- The record that a call imports or grants -/
def brings (issuer : Str) (now : ℚ) : Later → Option Session
  | .call (.importSession value) => parseValue S now value
  | .grant identity => some (createSession S identity (now + S.ttl) issuer 0 false)
  | _ => none

end Model

variable {S : SessionScope} {a b : Authorizer} {now current : ℚ} {s r : Session}
  {identity issuer : Str} {m : Casemapping} {l : List Session}

theorem importValue_eq (S : SessionScope) (a : Authorizer) (now : ℚ) (value : Json) :
    a.importValue S now value =
      match parseValue S now value with
      | none => a
      | some incoming => a.keep incoming := by
  cases value <;> rfl

theorem live_of_parseValue {value : Json} (h : parseValue S now value = some s) :
    now < s.expiresAt := by
  cases value with
  | obj record => exact (parseSession_eq_some.mp h).2.1
  | _ => simp [parseValue] at h

/-! ## At one instant -/

/-- The cache indexes the sessions of the list under the fold of a casemapping. -/
structure Gathers (m : Casemapping) (l : List Session) (a : Authorizer) : Prop where
  casemapping : a.casemapping = m
  indexes : Indexes (fun s => foldIdentity m s.ircPrefix) Session.order l a.records
  distinct : Assoc.Distinct a.records

theorem gathers_nil (m : Casemapping) : Gathers m [] ⟨m, []⟩ := ⟨rfl, Indexes.nil, List.nodup_nil⟩

theorem Gathers.fold (h : Gathers m l a) (identity : Str) :
    a.fold identity = foldIdentity m identity := by rw [Authorizer.fold, h.casemapping]

/-- `keep` adopts a session into the index. -/
theorem Gathers.keep (h : Gathers m l a) (s : Session) : Gathers m (l ++ [s]) (a.keep s) := by
  have hrecord : a.record s.ircPrefix = Assoc.lookup (foldIdentity m s.ircPrefix) a.records := by
    rw [record, h.fold]
  have hstore (hnot : ¬ Covers Session.order a.records (foldIdentity m s.ircPrefix) s.order) :
      Gathers m (l ++ [s]) (a.store s) := by
    refine ⟨h.casemapping, ?_, h.distinct.assign _ _⟩
    rw [store, h.fold]
    exact h.indexes.assign hnot
  unfold Authorizer.keep
  cases hx : a.record s.ircPrefix with
  | none =>
    apply hstore
    rintro ⟨x, hlookup, -⟩
    rw [← hrecord, hx] at hlookup
    simp at hlookup
  | some x =>
    dsimp only
    rw [hrecord] at hx
    split_ifs with hlt
    · apply hstore
      rintro ⟨y, hy, hle⟩
      obtain rfl := Option.some.inj (hx.symm.trans hy)
      exact absurd hlt (not_lt.mpr hle)
    · exact ⟨h.casemapping, h.indexes.skip ⟨x, hx, not_lt.mp hlt⟩, h.distinct⟩

/-- What is cached comes from the list. -/
theorem Gathers.unexpired (h : Gathers m l a) (hlive : ∀ s ∈ l, now < s.expiresAt) :
    a.Unexpired now := by
  rintro ⟨key, s⟩ he
  exact hlive s (h.indexes.sound key s (h.distinct.lookup he)).1

theorem Unexpired.get (h : a.Unexpired now) (identity : Str) : (a.get now identity).2 = a := by
  unfold Authorizer.get
  cases hs : a.record identity with
  | none => rfl
  | some s =>
    have hlive : now < s.expiresAt := h _ (Assoc.mem_of_lookup hs)
    dsimp only
    rw [if_neg (not_le.mpr hlive)]
    split_ifs <;> rfl

theorem live_of_accepted {values : List Json} (hs : s ∈ accepted S now values) :
    now < s.expiresAt := by
  obtain ⟨value, -, hvalue⟩ := List.mem_filterMap.mp hs
  exact live_of_parseValue hvalue

/-- One call gathers what it imports. -/
theorem Gathers.call {values : List Json} (h : Gathers m (accepted S now values) a) (c : Call) :
    Gathers m (accepted S now (values ++ imports [c])) (a.call S now c) := by
  have hlive : a.Unexpired now := h.unexpired fun s hs => live_of_accepted hs
  cases c with
  | importSession value =>
    show Gathers m (accepted S now (values ++ [value])) (a.importValue S now value)
    rw [importValue_eq, accepted, List.filterMap_append]
    cases hparse : parseValue S now value with
    | none => simpa [hparse, accepted] using h
    | some incoming => simpa [hparse, accepted] using h.keep incoming
  | prune =>
    show Gathers m (accepted S now (values ++ [])) (a.prune now)
    rw [List.append_nil, hlive.prune]
    exact h
  | get identity =>
    show Gathers m (accepted S now (values ++ [])) (a.get now identity).2
    rw [List.append_nil, hlive.get]
    exact h

theorem gathers_runCalls (S : SessionScope) (m : Casemapping) (now : ℚ) (calls : List Call) :
    Gathers m (accepted S now (imports calls)) (runCalls S ⟨m, []⟩ now calls) := by
  induction calls using List.reverseRecOn with
  | nil => exact gathers_nil m
  | append_singleton calls c ih =>
    have hstep := ih.call c
    rw [runCalls, List.foldl_append, List.foldl_cons, List.foldl_nil]
    rw [imports, List.filterMap_append]
    exact hstep

/-- An identity is authorized by the newest session of its fold, unless it is revoked. -/
theorem Gathers.authorized_iff (h : Gathers m l a) (hlive : ∀ s ∈ l, now < s.expiresAt)
    (identity : Str) : a.authorized now identity = true ↔ ∃ s,
      IsNewest (fun s => foldIdentity m s.ircPrefix) Session.order l (foldIdentity m identity) s ∧
        s.revoked = false := by
  rw [authorized_eq, record, h.fold]
  constructor
  · intro hauthorized
    cases hx : Assoc.lookup (foldIdentity m identity) a.records with
    | none => simp [hx] at hauthorized
    | some x =>
      rw [hx] at hauthorized
      refine ⟨x, h.indexes.isNewest hx, ?_⟩
      simpa using (Bool.and_eq_true_iff.mp hauthorized).2
  · rintro ⟨s, hs, hrevoked⟩
    obtain ⟨x, hx, hle⟩ := h.indexes.complete s hs.mem
    rw [hs.named] at hx
    -- sessions that tie agree on the revoked flag
    have hnewest := h.indexes.isNewest hx
    have htie : s.order = x.order := le_antisymm hle (hs.le x hnewest.mem hnewest.named)
    have hflag : x.revoked = false := (Session.order_inj htie).2.2 ▸ hrevoked
    have hexpiry : now < x.expiresAt := hlive x hnewest.mem
    simp [hx, hflag, hexpiry]

/-! ## After a revocation -/

/-- The identity's record is the revocation, or none since the revocation expired. -/
structure Withheld (r : Session) (now : ℚ) (identity : Str) (a : Authorizer) : Prop where
  keyed : a.Keyed
  record : a.record identity = some r ∨ a.record identity = none ∧ r.expiresAt ≤ now

theorem Withheld.mono (h : Withheld r now identity a) (hle : now ≤ current) :
    Withheld r current identity a :=
  ⟨h.keyed, h.record.imp_right fun hnone => ⟨hnone.1, hnone.2.trans hle⟩⟩

/-- Another identity's record does not matter. -/
theorem Withheld.congr (h : Withheld r now identity a) (hb : b.Keyed)
    (heq : b.record identity = a.record identity) : Withheld r now identity b :=
  ⟨hb, by rw [heq]; exact h.record⟩

theorem Withheld.not_authorized (h : Withheld r now identity a) (hrevoked : r.revoked = true)
    (current : ℚ) : a.authorized current identity = false := by
  rw [authorized_eq]
  rcases h.record with hr | ⟨hnone, -⟩
  · simp [hr, hrevoked]
  · simp [hnone]

/-- What is live when the revocation is gone outranks it. -/
theorem Withheld.order_lt (h : Withheld r now identity a) (hnone : a.record identity = none)
    (hlive : now < s.expiresAt) : r.order < s.order := by
  rcases h.record with hr | ⟨-, hexpired⟩
  · simp [hnone] at hr
  · exact Session.order_lt_iff.mpr (.inl (hexpired.trans_lt hlive))

theorem Withheld.keep (h : Withheld r now identity a) (hlive : now < s.expiresAt)
    (hlow : a.fold s.ircPrefix = a.fold identity → ¬ r.order < s.order) :
    Withheld r now identity (a.keep s) := by
  refine h.congr (h.keyed.keep s) ?_
  have hlookup := lookup_keep a s (a.fold identity)
  rw [Authorizer.record, Authorizer.fold, keep_casemapping]
  refine hlookup.trans ?_
  by_cases hf : a.fold s.ircPrefix = a.fold identity
  · have hnot := hlow hf
    rw [if_pos hf]
    cases hx : Assoc.lookup (a.fold identity) a.records with
    | none => exact absurd (h.order_lt hx hlive) hnot
    | some x =>
      rcases h.record with hr | ⟨hnone, -⟩
      · obtain rfl := Option.some.inj (hx.symm.trans hr)
        show (if x.order < s.order then some s else some x) = a.record identity
        rw [if_neg hnot, hr]
      · rw [Authorizer.record, hx] at hnone
        simp at hnone
  · rw [if_neg hf]
    rfl

theorem Withheld.prune (h : Withheld r now identity a) : Withheld r now identity (a.prune now) := by
  have hkeyed : (a.prune now).Keyed := h.keyed.sub rfl List.filter_sublist
  refine ⟨hkeyed, ?_⟩
  have hlookup : (a.prune now).record identity =
      (a.record identity).filter fun s => decide (now < s.expiresAt) := by
    show Assoc.lookup (a.fold identity) (a.records.filter fun e => now < e.2.expiresAt) = _
    rw [h.keyed.distinct.lookup_filter]
    rfl
  rw [hlookup]
  rcases h.record with hr | ⟨hnone, hexpired⟩
  · rw [hr, Option.filter_some]
    by_cases hlive : now < r.expiresAt
    · simp [hlive]
    · simp [hlive, not_lt.mp hlive]
  · exact .inr ⟨by rw [hnone]; rfl, hexpired⟩

theorem record_discard (a : Authorizer) {p q : Str} (h : a.fold q ≠ a.fold p) :
    ({ a with records := Assoc.discard (a.fold q) a.records } : Authorizer).record p =
      a.record p := Assoc.lookup_discard_of_ne _ h

theorem Withheld.get (h : Withheld r now identity a) (q : Str) :
    Withheld r now identity (a.get now q).2 := by
  have hkeyed : (a.get now q).2.Keyed := h.keyed.get q
  unfold Authorizer.get at hkeyed ⊢
  cases hq : a.record q with
  | none => exact h
  | some s =>
    rw [hq] at hkeyed
    dsimp only at hkeyed ⊢
    split_ifs at hkeyed ⊢ with hexpired hrevoked
    · by_cases hf : a.fold q = a.fold identity
      · -- the revocation itself has expired
        refine ⟨hkeyed, .inr ⟨?_, ?_⟩⟩
        · show Assoc.lookup (a.fold identity) (Assoc.discard (a.fold q) a.records) = none
          rw [hf, Assoc.lookup_discard_self]
        · rcases h.record with hr | ⟨-, hgone⟩
          · rw [Authorizer.record, hf] at hq
            obtain rfl := Option.some.inj (hq.symm.trans hr)
            exact hexpired
          · exact hgone
      · exact h.congr hkeyed (record_discard a hf)
    · exact h
    · exact h

/-- `drop_session` does not drop a revocation. -/
theorem Withheld.dropSession (h : Withheld r now identity a) (hrevoked : r.revoked = true)
    (q : Str) : Withheld r now identity (a.dropSession q) := by
  refine h.congr (h.keyed.dropSession q) ?_
  unfold Authorizer.dropSession
  cases hq : a.record q with
  | none => rfl
  | some s =>
    dsimp only
    split_ifs with hdrops
    · apply record_discard
      intro hf
      rw [Authorizer.record, hf] at hq
      rcases h.record with hr | ⟨hnone, -⟩
      · obtain rfl := Option.some.inj (hq.symm.trans hr)
        rw [hrevoked] at hdrops
        exact absurd hdrops.1 (by decide)
      · rw [Authorizer.record, hq] at hnone
        simp at hnone
    · rfl

/-- A grant yields to a revocation that it does not outrank. -/
theorem Withheld.grant (h : Withheld r now identity a) (hrevoked : r.revoked = true) (q : Str)
    (hlow : a.fold q = a.fold identity →
      ¬ r.order < (createSession S q (now + S.ttl) issuer 0 false).order) :
    Withheld r now identity (a.grant S issuer now q).2 := by
  refine h.congr (h.keyed.grant issuer q) ?_
  have hlive : now < (createSession S q (now + S.ttl) issuer 0 false).expiresAt :=
    lt_add_of_pos_right now S.ttl_pos
  by_cases hf : a.fold q = a.fold identity
  · have hnot := hlow hf
    have hrecord : a.record q = a.record identity := by
      rw [Authorizer.record, Authorizer.record, hf]
    rcases h.record with hr | ⟨hnone, -⟩
    · unfold Authorizer.grant
      rw [hrecord, hr]
      dsimp only
      rw [if_neg (by simp [hrevoked, hnot]), hr]
    · exact absurd (h.order_lt hnone hlive) hnot
  · have hstore : (a.store (createSession S q (now + S.ttl) issuer 0 false)).record identity =
        a.record identity := Assoc.lookup_assign_of_ne _ _ hf
    unfold Authorizer.grant
    dsimp only
    split
    · exact hstore
    · split_ifs
      · exact hstore
      · rfl

/-- One call leaves an identity withheld unless it brings a higher record. -/
theorem Withheld.later (h : Withheld r now identity a) (hrevoked : r.revoked = true) (c : Later)
    (hlow : ∀ s, brings S issuer now c = some s → a.fold s.ircPrefix = a.fold identity →
      ¬ r.order < s.order) : Withheld r now identity (later S issuer a now c) := by
  cases c with
  | call c =>
    cases c with
    | importSession value =>
      show Withheld r now identity (a.importValue S now value)
      rw [importValue_eq]
      cases hparse : parseValue S now value with
      | none => exact h
      | some incoming => exact h.keep (live_of_parseValue hparse) (hlow incoming hparse)
    | prune => exact h.prune
    | get q => exact h.get q
  | dropSession q => exact h.dropSession hrevoked q
  | grant q => exact h.grant hrevoked q (hlow _ rfl)

@[simp] theorem later_casemapping (S : SessionScope) (issuer : Str) (a : Authorizer) (now : ℚ)
    (c : Later) : (later S issuer a now c).casemapping = a.casemapping := by
  cases c with
  | call c =>
    cases c with
    | importSession value =>
      show (a.importValue S now value).casemapping = a.casemapping
      rw [importValue_eq]
      split
      · rfl
      · exact keep_casemapping a _
    | prune => rfl
    | get q => exact get_casemapping a now q
  | dropSession q => exact dropSession_casemapping a q
  | grant q => exact grant_casemapping a issuer now q

theorem runLater_append (S : SessionScope) (issuer : Str) (a : Authorizer)
    (calls : List (ℚ × Later)) (c : ℚ × Later) :
    runLater S issuer a (calls ++ [c]) = later S issuer (runLater S issuer a calls) c.1 c.2 := by
  rw [runLater, List.foldl_append, List.foldl_cons, List.foldl_nil]
  rfl

@[simp] theorem runLater_casemapping (S : SessionScope) (issuer : Str) (a : Authorizer)
    (calls : List (ℚ × Later)) : (runLater S issuer a calls).casemapping = a.casemapping := by
  induction calls using List.reverseRecOn with
  | nil => rfl
  | append_singleton calls c ih => rw [runLater_append, later_casemapping, ih]

/-- `revoke` caches the revocation it returns. -/
theorem record_of_revoke (h : a.revoke S identity = some (r, b)) :
    b.record identity = some r ∧ r.revoked = true := by
  obtain ⟨s, -, -, rfl, rfl⟩ := revoke_eq_some h
  exact ⟨Assoc.lookup_assign_self _ _ _, rfl⟩

/-- The identity stays withheld while no call brings a higher record. -/
theorem withheld_runLater (hb : b.Keyed) (hr : b.record identity = some r)
    (hrevoked : r.revoked = true) {calls : List (ℚ × Later)}
    (hclock : calls.Pairwise fun x y => x.1 ≤ y.1)
    (hlow : ∀ c ∈ calls, ∀ s, brings S issuer c.1 c.2 = some s →
      b.fold s.ircPrefix = b.fold identity → ¬ r.order < s.order)
    (hnow : ∀ c ∈ calls, c.1 ≤ now) :
    Withheld r now identity (runLater S issuer b calls) := by
  induction calls using List.reverseRecOn generalizing now with
  | nil => exact ⟨hb, .inl hr⟩
  | append_singleton calls c ih =>
    obtain ⟨hbefore, -, hlast⟩ := List.pairwise_append.mp hclock
    have hwithheld : Withheld r c.1 identity (runLater S issuer b calls) :=
      ih hbefore (fun x hx => hlow x (List.mem_append_left _ hx))
        (fun x hx => hlast x hx c List.mem_cons_self)
    rw [runLater_append]
    have hstep : Withheld r c.1 identity
        (later S issuer (runLater S issuer b calls) c.1 c.2) := by
      refine hwithheld.later hrevoked c.2 fun s hs hf => ?_
      rw [Authorizer.fold, Authorizer.fold, runLater_casemapping] at hf
      exact hlow c (List.mem_append_right _ List.mem_cons_self) s hs hf
    exact hstep.mono (hnow c (List.mem_append_right _ List.mem_cons_self))

/-- What is cached after imports at one instant depends on what was imported alone, and a
revocation holds until a higher record is imported or granted. The empty cache is `Keyed`,
and every call keeps it so. -/
theorem imports_commute (S : SessionScope) (issuer : Str) :
    (∀ (m : Casemapping) (now : ℚ) (values : List Json) (calls : List Call),
      (imports calls).Perm values → ∀ identity,
        (runCalls S ⟨m, []⟩ now calls).authorized now identity = true ↔ ∃ s,
          IsNewest (fun s => foldIdentity m s.ircPrefix) Session.order (accepted S now values)
            (foldIdentity m identity) s ∧ s.revoked = false) ∧
    ∀ (a b : Authorizer) (identity : Str) (r : Session), a.Keyed →
      a.revoke S identity = some (r, b) → ∀ calls : List (ℚ × Later),
        calls.Pairwise (fun x y => x.1 ≤ y.1) →
        (∀ c ∈ calls, ∀ s, brings S issuer c.1 c.2 = some s →
          b.fold s.ircPrefix = b.fold identity → ¬ r.order < s.order) →
        ∀ now, (runLater S issuer b calls).authorized now identity = false := by
  constructor
  · intro m now values calls hperm identity
    have hgathers := gathers_runCalls S m now calls
    rw [hgathers.authorized_iff (fun s hs => live_of_accepted hs)]
    have hmem : ∀ s, s ∈ accepted S now (imports calls) ↔ s ∈ accepted S now values :=
      fun s => (hperm.filterMap _).mem_iff
    constructor
    · rintro ⟨s, hs, hrevoked⟩
      exact ⟨s, hs.congr hmem, hrevoked⟩
    · rintro ⟨s, hs, hrevoked⟩
      exact ⟨s, hs.congr fun y => (hmem y).symm, hrevoked⟩
  · intro a b identity r ha hr calls hclock hlow now
    have hb : b.Keyed := ha.revoke hr
    obtain ⟨hrecord, hrevoked⟩ := record_of_revoke hr
    have hnow : ∃ t, ∀ c ∈ calls, c.1 ≤ t := by
      rcases calls.eq_nil_or_concat with rfl | ⟨before, c, rfl⟩
      · exact ⟨0, by simp⟩
      · refine ⟨c.1, fun x hx => ?_⟩
        rw [List.concat_eq_append] at hx hclock
        rcases List.mem_append.mp hx with hx | hx
        · exact (List.pairwise_append.mp hclock).2.2 x hx c List.mem_cons_self
        · rw [List.mem_singleton.mp hx]
    obtain ⟨t, ht⟩ := hnow
    exact (withheld_runLater hb hrecord hrevoked hclock hlow ht).not_authorized hrevoked now

/-- A session of an administrator -/
def sampleSession : Session := createSession sampleScope (lit "a[!u@h") 10 (lit "bot") 0 false

/-- The bot that granted it -/
def sampleGranted : Authorizer :=
  (Authorizer.grant sampleScope ⟨.rfc1459, []⟩ (lit "bot") 0 (lit "a[!u@h")).2

/-- The bot revokes it. -/
def sampleRevocation : Session := revocationOf sampleScope sampleSession

/-- The session comes again, is dropped and expires, and someone else is granted one. -/
def sampleLater : List (ℚ × Later) :=
  [(1, .call (.importSession (.obj sampleSession.asdict))), (2, .dropSession (lit "a\x7b!u@h")),
    (2, .call .prune), (12, .call (.get (lit "a[!u@h"))), (13, .grant (lit "c!u@h"))]

theorem imports_commute_revoked :
    (let calls : List Call := [.importSession (.obj sampleRevocation.asdict), .prune,
        .get (lit "a\x7b!u@h"), .importSession (.obj sampleSession.asdict)]
      let values := [.obj sampleSession.asdict, .obj sampleRevocation.asdict]
      (imports calls).Perm values ∧
      ((runCalls sampleScope ⟨.rfc1459, []⟩ 1 calls).authorized 1 (lit "a[!u@h") = true ↔ ∃ s,
        IsNewest (fun s => foldIdentity .rfc1459 s.ircPrefix) Session.order
          (accepted sampleScope 1 values) (foldIdentity .rfc1459 (lit "a[!u@h")) s ∧
            s.revoked = false)) ∧
    ∃ r b, sampleGranted.Keyed ∧
      sampleGranted.revoke sampleScope (lit "a[!u@h") = some (r, b) ∧
      sampleLater.Pairwise (fun x y => x.1 ≤ y.1) ∧
      (∀ c ∈ sampleLater, ∀ s, brings sampleScope (lit "bot") c.1 c.2 = some s →
        b.fold s.ircPrefix = b.fold (lit "a[!u@h") → ¬ r.order < s.order) ∧
      (runLater sampleScope (lit "bot") b sampleLater).authorized 14 (lit "a[!u@h") = false := by
  have hkeyed : sampleGranted.Keyed := Keyed.grant ⟨by simp [Assoc.Distinct], by simp⟩ _ _
  constructor
  · have hperm : (imports [.importSession (.obj sampleRevocation.asdict), .prune,
        .get (lit "a\x7b!u@h"), .importSession (.obj sampleSession.asdict)]).Perm
        [.obj sampleSession.asdict, .obj sampleRevocation.asdict] :=
      List.Perm.swap _ _ _
    exact ⟨hperm, (imports_commute sampleScope (lit "bot")).1 .rfc1459 1 _ _ hperm _⟩
  · obtain ⟨⟨r, b⟩, hrevoke⟩ : ∃ x, sampleGranted.revoke sampleScope (lit "a[!u@h") = some x :=
      Option.isSome_iff_exists.mp (by decide +kernel)
    have hclock : sampleLater.Pairwise (fun x y => x.1 ≤ y.1) := by decide +kernel
    have hlow : ∀ c ∈ sampleLater, ∀ s, brings sampleScope (lit "bot") c.1 c.2 = some s →
        b.fold s.ircPrefix = b.fold (lit "a[!u@h") → ¬ r.order < s.order := by
      have hall : sampleLater.all (fun c => (brings sampleScope (lit "bot") c.1 c.2).all fun s =>
          (sampleGranted.revoke sampleScope (lit "a[!u@h")).all fun x =>
            !(decide (x.2.fold s.ircPrefix = x.2.fold (lit "a[!u@h")) &&
              decide (x.1.order < s.order))) = true := by decide +kernel
      intro c hc s hs hf hlt
      have hc := List.all_eq_true.mp hall c hc
      simp [hs, hrevoke, hf, hlt] at hc
    exact ⟨r, b, hkeyed, hrevoke, hclock, hlow,
      (imports_commute sampleScope (lit "bot")).2 _ b _ r hkeyed hrevoke _ hclock hlow 14⟩

end Authorizer

end Botnats
