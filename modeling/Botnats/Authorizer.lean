import Botnats.Session

/-!
# The cached sessions of a bot

The record table of `TotpAuthorizer`: the highest session or revocation seen for each
identity, under the fold of the server's casemapping. Every function that reads the
clock takes the reading as an argument.
-/
namespace Botnats

/-- `identity_fold` is `foldIdentity` of the current casemapping. -/
structure Authorizer where
  casemapping : Casemapping
  records : List (Str × Session)

namespace Authorizer

def fold (a : Authorizer) (identity : Str) : Str := foldIdentity a.casemapping identity

/-- The record cached for an identity. -/
def record (a : Authorizer) (identity : Str) : Option Session :=
  Assoc.lookup (a.fold identity) a.records

def store (a : Authorizer) (s : Session) : Authorizer :=
  { a with records := Assoc.assign (a.fold s.ircPrefix) s a.records }

/-- `drop_session` -/
def dropSession (a : Authorizer) (identity : Str) : Authorizer :=
  match a.record identity with
  | none => a
  | some s =>
    if s.revoked = false ∧ casefold s.ircPrefix .ascii = casefold identity .ascii then
      { a with records := Assoc.discard (a.fold identity) a.records }
    else a

/-- `get`, which drops an expired record -/
def get (a : Authorizer) (now : ℚ) (identity : Str) : Option Session × Authorizer :=
  match a.record identity with
  | none => (none, a)
  | some s =>
    if s.expiresAt ≤ now then
      (none, { a with records := Assoc.discard (a.fold identity) a.records })
    else if s.revoked then (none, a)
    else (some s, a)

/-- `authorized` -/
def authorized (a : Authorizer) (now : ℚ) (identity : Str) : Bool :=
  (a.get now identity).1.isSome

/-- `keep` -/
def keep (a : Authorizer) (incoming : Session) : Authorizer :=
  match a.record incoming.ircPrefix with
  | none => a.store incoming
  | some existing => if existing.order < incoming.order then a.store incoming else a

/-- `prune` -/
def prune (a : Authorizer) (current : ℚ) : Authorizer :=
  { a with records := a.records.filter fun e => current < e.2.expiresAt }

/-- `rekey` under a changed casemapping -/
def rekey (a : Authorizer) (now : ℚ) : Authorizer :=
  (a.prune now).records.foldl (fun b e => b.keep e.2) { a with records := [] }

/-- `ChannelManager.set_casemapping`, as far as sessions go -/
def setCasemapping (a : Authorizer) (now : ℚ) (value : Casemapping) : Authorizer :=
  if value = a.casemapping then a else { a with casemapping := value }.rekey now

variable (S : SessionScope)

/-- `grant` for the identity of a complete prefix -/
def grant (a : Authorizer) (issuer : Str) (now : ℚ) (identity : Str) : Session × Authorizer :=
  let session := createSession S identity (now + S.ttl) issuer 0 false
  (session,
    match a.record identity with
    | none => a.store session
    | some existing =>
      if existing.revoked = false ∨ existing.order < session.order then a.store session else a)

/-- `import_session` -/
def importSession (a : Authorizer) (now : ℚ) (value : Fields) : Authorizer :=
  match parseSession S now value with
  | none => a
  | some incoming => a.keep incoming

/-- `revoke`; `none` where there is nothing to revoke. -/
def revoke (a : Authorizer) (identity : Str) : Option (Session × Authorizer) :=
  match a.record identity with
  | none => none
  | some s =>
    if s.revoked then none
    else
      some (revocationOf S s,
        { a with records := Assoc.assign (a.fold identity) (revocationOf S s) a.records })

/-! ## Where cached sessions come from -/

def Caches (a : Authorizer) (s : Session) : Prop := ∃ key, (key, s) ∈ a.records

/-- Every session that `b` caches was cached in `a`, or has the property. -/
def Adopts (P : Session → Prop) (a b : Authorizer) : Prop := ∀ s, b.Caches s → a.Caches s ∨ P s

variable {S : SessionScope} {a b : Authorizer} {now later : ℚ} {s r : Session} {identity : Str}
  {P Q : Session → Prop}

theorem caches_of_record (h : a.record identity = some s) : a.Caches s :=
  ⟨_, Assoc.mem_of_lookup h⟩

theorem Adopts.refl (P : Session → Prop) (a : Authorizer) : Adopts P a a := fun _ hs => .inl hs

theorem Adopts.mono (h : Adopts P a b) (hPQ : ∀ s, P s → Q s) : Adopts Q a b :=
  fun s hs => (h s hs).imp_right (hPQ s)

theorem Adopts.trans {c : Authorizer} (h : Adopts P a b) (h' : Adopts P b c) : Adopts P a c :=
  fun s hs => (h' s hs).elim (h s) .inr

theorem adopts_of_subset (h : ∀ e ∈ b.records, e ∈ a.records) : Adopts P a b := by
  rintro s ⟨key, hmem⟩
  exact .inl ⟨key, h _ hmem⟩

theorem adopts_assign (a : Authorizer) (key : Str) (s : Session) :
    Adopts (· = s) a { a with records := Assoc.assign key s a.records } := by
  rintro t ⟨j, hmem⟩
  rcases Assoc.mem_assign hmem with heq | hmem
  · exact .inr (congrArg Prod.snd heq)
  · exact .inl ⟨j, hmem⟩

theorem adopts_discard (a : Authorizer) (key : Str) :
    Adopts P a { a with records := Assoc.discard key a.records } :=
  adopts_of_subset fun _ he => List.mem_of_mem_filter he

theorem adopts_dropSession (a : Authorizer) (identity : Str) :
    Adopts P a (a.dropSession identity) := by
  unfold dropSession
  split
  · exact Adopts.refl P a
  · split_ifs
    · exact adopts_discard a _
    · exact Adopts.refl P a

theorem adopts_get (a : Authorizer) (now : ℚ) (identity : Str) :
    Adopts P a (a.get now identity).2 := by
  unfold get
  split
  · exact Adopts.refl P a
  · split_ifs
    · exact adopts_discard a _
    · exact Adopts.refl P a
    · exact Adopts.refl P a

theorem adopts_keep (a : Authorizer) (s : Session) : Adopts (· = s) a (a.keep s) := by
  unfold keep
  split
  · exact adopts_assign a _ s
  · split_ifs
    · exact adopts_assign a _ s
    · exact Adopts.refl _ a

theorem adopts_prune (a : Authorizer) (current : ℚ) : Adopts P a (a.prune current) :=
  adopts_of_subset fun _ he => List.mem_of_mem_filter he

theorem adopts_setCasemapping (a : Authorizer) (now : ℚ) (value : Casemapping) :
    Adopts P a (a.setCasemapping now value) := by
  have hfold : ∀ (l : List (Str × Session)) (b : Authorizer),
      Adopts (fun s => ∃ e ∈ l, s = e.2) b (l.foldl (fun b e => b.keep e.2) b) := by
    intro l
    induction l with
    | nil => exact Adopts.refl _
    | cons e l ih =>
      intro b
      have hhead : Adopts (fun s => ∃ x ∈ e :: l, s = x.2) b (b.keep e.2) :=
        (adopts_keep b e.2).mono fun s hs => ⟨e, List.mem_cons_self, hs⟩
      refine hhead.trans ((ih (b.keep e.2)).mono fun s hs => ?_)
      obtain ⟨x, hx, hs⟩ := hs
      exact ⟨x, List.mem_cons_of_mem _ hx, hs⟩
  unfold setCasemapping
  split_ifs
  · exact Adopts.refl P a
  · intro s hs
    rcases hfold _ _ s hs with ⟨key, hmem⟩ | ⟨e, he, rfl⟩
    · simp at hmem
    · exact .inl ⟨e.1, List.mem_of_mem_filter he⟩

theorem adopts_importSession (a : Authorizer) (now : ℚ) (value : Fields) :
    Adopts (fun s => parseSession S now value = some s) a (a.importSession S now value) := by
  unfold importSession
  split
  · exact Adopts.refl _ a
  · rename_i incoming hparse
    exact (adopts_keep a incoming).mono fun s hs => hs ▸ hparse

theorem adopts_grant (a : Authorizer) (issuer : Str) (now : ℚ) (identity : Str) :
    Adopts (· = (a.grant S issuer now identity).1) a (a.grant S issuer now identity).2 := by
  unfold grant
  dsimp only
  split
  · exact adopts_assign a _ _
  · split_ifs
    · exact adopts_assign a _ _
    · exact Adopts.refl _ a

/-- What is revoked was cached, and its revocation takes its place. -/
theorem revoke_eq_some (h : a.revoke S identity = some (r, b)) :
    ∃ s, a.record identity = some s ∧ s.revoked = false ∧ r = revocationOf S s ∧
      b = { a with records := Assoc.assign (a.fold identity) r a.records } := by
  unfold revoke at h
  split at h
  · simp at h
  · rename_i s hs
    split_ifs at h with hrevoked
    · obtain ⟨rfl, rfl⟩ := Prod.mk.inj (Option.some.inj h)
      exact ⟨s, hs, Bool.not_eq_true _ ▸ hrevoked, rfl, rfl⟩

theorem adopts_revoke (h : a.revoke S identity = some (r, b)) : Adopts (· = r) a b := by
  obtain ⟨s, -, -, -, rfl⟩ := revoke_eq_some h
  exact adopts_assign a _ r

/-! ## Cached sessions within the horizon -/

/-- Every cached session is valid and expires within the horizon. -/
def Bounded (S : SessionScope) (now : ℚ) (a : Authorizer) : Prop :=
  ∀ s, a.Caches s → s.Valid ∧ s.expiresAt ≤ S.horizon now

theorem Bounded.mono (h : a.Bounded S now) (hle : now ≤ later) : a.Bounded S later := by
  intro s hs
  exact ⟨(h s hs).1, (h s hs).2.trans (SessionScope.horizon_mono hle)⟩

theorem Bounded.adopts (h : a.Bounded S now) (hab : Adopts P a b)
    (hP : ∀ s, P s → s.Valid ∧ s.expiresAt ≤ S.horizon now) : b.Bounded S now :=
  fun s hs => (hab s hs).elim (h s) (hP s)

/-- What an import brings in. -/
theorem bounded_of_parse {value : Fields} (h : parseSession S now value = some s) :
    s.Valid ∧ s.expiresAt ≤ S.horizon now := by
  obtain ⟨hrecord, -, hhorizon⟩ := parseSession_eq_some.mp h
  exact ⟨valid_of_parse hrecord, hhorizon⟩

end Authorizer

end Botnats
