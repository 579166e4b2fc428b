import Botnats.Authorizer

/-!
# Changing the casemapping

`rekey` collapses the cached sessions onto the new identity fold: of the sessions that
share a fold the first of those that rank highest stays. After a change to another
casemapping and back an identity has its session still if that was the one to stay, and
none otherwise.
-/
namespace Botnats

namespace Authorizer

/-- Every session is cached once, under the fold of its prefix. -/
structure Keyed (a : Authorizer) : Prop where
  distinct : Assoc.Distinct a.records
  fold : ∀ e ∈ a.records, e.1 = a.fold e.2.ircPrefix

/-- The sessions of `l` collapsed onto the fold of a casemapping -/
def collapse (m : Casemapping) (l : List (Str × Session)) : Authorizer :=
  l.foldl (fun b e => b.keep e.2) ⟨m, []⟩

/-- The session is the first of those that rank highest among the sessions of its fold. -/
def Leads (m : Casemapping) (l : List (Str × Session)) (s : Session) : Prop :=
  ∃ before key after, l = before ++ (key, s) :: after ∧
    (∀ e ∈ before, foldIdentity m e.2.ircPrefix = foldIdentity m s.ircPrefix →
      e.2.order < s.order) ∧
    ∀ e ∈ after, foldIdentity m e.2.ircPrefix = foldIdentity m s.ircPrefix →
      e.2.order ≤ s.order

variable {S : SessionScope} {a b : Authorizer} {now : ℚ} {s r : Session} {identity f : Str}
  {m : Casemapping} {l : List (Str × Session)}

theorem fold_congr (a : Authorizer) {p q : Str} (h : casefold p .ascii = casefold q .ascii) :
    a.fold p = a.fold q := foldIdentity_congr _ h

theorem record_congr {p q : Str} (h : a.fold p = a.fold q) : a.record p = a.record q := by
  rw [record, record, h]

/-- A session is cached under the fold of its prefix. -/
theorem Keyed.record_of_caches (h : a.Keyed) (hx : a.Caches s) :
    a.record s.ircPrefix = some s := by
  obtain ⟨key, hmem⟩ := hx
  have hkey : key = a.fold s.ircPrefix := h.fold _ hmem
  exact h.distinct.lookup (hkey ▸ hmem)

theorem rekey_eq (a : Authorizer) (now : ℚ) :
    a.rekey now = collapse a.casemapping (a.prune now).records := rfl

theorem collapse_append (m : Casemapping) (l : List (Str × Session)) (e : Str × Session) :
    collapse m (l ++ [e]) = (collapse m l).keep e.2 := by
  simp [collapse, List.foldl_append]

@[simp] theorem keep_casemapping (a : Authorizer) (s : Session) :
    (a.keep s).casemapping = a.casemapping := by
  unfold keep
  split
  · rfl
  · split_ifs <;> rfl

@[simp] theorem importSession_casemapping (a : Authorizer) (now : ℚ) (value : Fields) :
    (a.importSession S now value).casemapping = a.casemapping := by
  unfold importSession
  split
  · rfl
  · exact keep_casemapping _ _

@[simp] theorem dropSession_casemapping (a : Authorizer) (identity : Str) :
    (a.dropSession identity).casemapping = a.casemapping := by
  unfold dropSession
  split
  · rfl
  · split_ifs <;> rfl

@[simp] theorem get_casemapping (a : Authorizer) (now : ℚ) (identity : Str) :
    (a.get now identity).2.casemapping = a.casemapping := by
  unfold get
  split
  · rfl
  · split_ifs <;> rfl

@[simp] theorem grant_casemapping (a : Authorizer) (issuer : Str) (now : ℚ) (identity : Str) :
    (a.grant S issuer now identity).2.casemapping = a.casemapping := by
  unfold grant
  dsimp only
  split
  · rfl
  · split_ifs <;> rfl

@[simp] theorem collapse_casemapping (m : Casemapping) (l : List (Str × Session)) :
    (collapse m l).casemapping = m := by
  induction l using List.reverseRecOn with
  | nil => rfl
  | append_singleton l e ih => rw [collapse_append, keep_casemapping, ih]

theorem Keyed.store (h : a.Keyed) (s : Session) : (a.store s).Keyed where
  distinct := h.distinct.assign _ _
  fold := by
    intro e he
    rcases Assoc.mem_assign he with rfl | he
    · rfl
    · exact h.fold e he

theorem Keyed.sub (h : a.Keyed) (hm : b.casemapping = a.casemapping)
    (hsub : b.records.Sublist a.records) : b.Keyed where
  distinct := List.Nodup.sublist (hsub.map _) h.distinct
  fold := by
    intro e he
    rw [Authorizer.fold, hm]
    exact h.fold e (hsub.subset he)

theorem Keyed.keep (h : a.Keyed) (s : Session) : (a.keep s).Keyed := by
  unfold Authorizer.keep
  split
  · exact h.store s
  · split_ifs
    · exact h.store s
    · exact h

theorem Keyed.importSession (h : a.Keyed) (value : Fields) :
    (a.importSession S now value).Keyed := by
  unfold Authorizer.importSession
  split
  · exact h
  · exact h.keep _

theorem Keyed.dropSession (h : a.Keyed) (identity : Str) : (a.dropSession identity).Keyed := by
  unfold Authorizer.dropSession
  split
  · exact h
  · split_ifs
    · exact h.sub rfl List.filter_sublist
    · exact h

theorem Keyed.get (h : a.Keyed) (identity : Str) : (a.get now identity).2.Keyed := by
  unfold Authorizer.get
  split
  · exact h
  · split_ifs
    · exact h.sub rfl List.filter_sublist
    · exact h
    · exact h

theorem Keyed.grant (h : a.Keyed) (issuer identity : Str) :
    (a.grant S issuer now identity).2.Keyed := by
  unfold Authorizer.grant
  dsimp only
  split
  · exact h.store _
  · split_ifs
    · exact h.store _
    · exact h

theorem keyed_collapse (m : Casemapping) (l : List (Str × Session)) : (collapse m l).Keyed := by
  induction l using List.reverseRecOn with
  | nil => exact ⟨List.nodup_nil, by simp [collapse]⟩
  | append_singleton l e ih =>
    rw [collapse_append]
    exact ih.keep _

theorem Keyed.setCasemapping (h : a.Keyed) (m : Casemapping) : (a.setCasemapping now m).Keyed := by
  unfold Authorizer.setCasemapping
  split_ifs
  · exact h
  · exact keyed_collapse _ _

/-- The record of an identity is cached under the identity's own fold. -/
theorem Keyed.record (h : a.Keyed) (hs : a.record identity = some s) :
    a.fold s.ircPrefix = a.fold identity := (h.fold _ (Assoc.mem_of_lookup hs)).symm

theorem Keyed.revoke (h : a.Keyed) (hr : a.revoke S identity = some (r, b)) : b.Keyed := by
  obtain ⟨s, hs, -, rfl, rfl⟩ := revoke_eq_some hr
  have hfold : a.fold identity = a.fold (revocationOf S s).ircPrefix := (h.record hs).symm
  rw [hfold]
  exact h.store (revocationOf S s)

/-! ## What stays -/

/-- What is cached under a fold after one more session is kept -/
theorem lookup_keep (a : Authorizer) (s : Session) (f : Str) :
    Assoc.lookup f (a.keep s).records =
      if a.fold s.ircPrefix = f then
        match Assoc.lookup f a.records with
        | none => some s
        | some x => if x.order < s.order then some s else some x
      else Assoc.lookup f a.records := by
  unfold Authorizer.keep Authorizer.record
  by_cases hf : a.fold s.ircPrefix = f
  · subst hf
    rw [if_pos rfl]
    cases hx : Assoc.lookup (a.fold s.ircPrefix) a.records with
    | none => exact Assoc.lookup_assign_self _ _ _
    | some x =>
      dsimp only
      split_ifs
      · exact Assoc.lookup_assign_self _ _ _
      · exact hx
  · rw [if_neg hf]
    split
    · exact Assoc.lookup_assign_of_ne _ _ hf
    · split_ifs
      · exact Assoc.lookup_assign_of_ne _ _ hf
      · rfl

theorem Leads.mem (h : Leads m l s) : ∃ key, (key, s) ∈ l := by
  obtain ⟨before, key, after, rfl, -⟩ := h
  exact ⟨key, by simp⟩

/-- A session that leads ranks at least as high as all of its fold. -/
theorem Leads.le (h : Leads m l s) {e : Str × Session} (he : e ∈ l)
    (hf : foldIdentity m e.2.ircPrefix = foldIdentity m s.ircPrefix) : e.2.order ≤ s.order := by
  obtain ⟨before, key, after, rfl, hbefore, hafter⟩ := h
  rcases List.mem_append.mp he with he | he
  · exact (hbefore e he hf).le
  · rcases List.mem_cons.mp he with rfl | he
    · exact le_rfl
    · exact hafter e he hf

/-- One session of a fold leads. -/
theorem Leads.unique (h : Leads m l s) (h' : Leads m l r)
    (hf : foldIdentity m s.ircPrefix = foldIdentity m r.ircPrefix) : s = r := by
  obtain ⟨before, key, after, rfl, hbefore, hafter⟩ := h
  obtain ⟨before', key', after', heq, hbefore', hafter'⟩ := h'
  rcases List.append_eq_append_iff.mp heq with ⟨c, rfl, hc⟩ | ⟨c, rfl, hc⟩
  · cases c with
    | nil => exact congrArg Prod.snd (List.cons.inj hc).1
    | cons x c =>
      -- `s` stands before `r`
      obtain ⟨rfl, rfl⟩ := List.cons.inj hc
      have hlt := hbefore' (key, s) (by simp) hf
      have hle := hafter (key', r) (by simp) hf.symm
      exact absurd hle (not_le.mpr hlt)
  · cases c with
    | nil => exact (congrArg Prod.snd (List.cons.inj hc).1).symm
    | cons x c =>
      obtain ⟨rfl, rfl⟩ := List.cons.inj hc
      have hlt := hbefore (key', r) (by simp) hf.symm
      have hle := hafter' (key, s) (by simp) hf
      exact absurd hle (not_le.mpr hlt)

theorem Leads.append (h : Leads m l s) {e : Str × Session}
    (he : foldIdentity m e.2.ircPrefix = foldIdentity m s.ircPrefix → e.2.order ≤ s.order) :
    Leads m (l ++ [e]) s := by
  obtain ⟨before, key, after, rfl, hbefore, hafter⟩ := h
  refine ⟨before, key, after ++ [e], by simp, hbefore, fun x hx hf => ?_⟩
  rcases List.mem_append.mp hx with hx | hx
  · exact hafter x hx hf
  · obtain rfl := List.mem_singleton.mp hx
    exact he hf

theorem leads_last {e : Str × Session}
    (h : ∀ x ∈ l, foldIdentity m x.2.ircPrefix = foldIdentity m e.2.ircPrefix →
      x.2.order < e.2.order) : Leads m (l ++ [e]) e.2 := ⟨l, e.1, [], rfl, h, by simp⟩

/-- `rekey` keeps, under each fold, the session that leads. -/
theorem collapse_spec (m : Casemapping) (l : List (Str × Session)) (f : Str) :
    match Assoc.lookup f (collapse m l).records with
    | none => ∀ e ∈ l, foldIdentity m e.2.ircPrefix ≠ f
    | some x => foldIdentity m x.ircPrefix = f ∧ Leads m l x := by
  induction l using List.reverseRecOn with
  | nil => simp [collapse]
  | append_singleton l e ih =>
    rw [collapse_append, lookup_keep, Authorizer.fold, collapse_casemapping]
    by_cases hf : foldIdentity m e.2.ircPrefix = f
    · rw [if_pos hf]
      cases hlookup : Assoc.lookup f (collapse m l).records with
      | none =>
        rw [hlookup] at ih
        exact ⟨hf, leads_last fun x hx hxe => absurd (hxe.trans hf) (ih x hx)⟩
      | some x =>
        rw [hlookup] at ih
        obtain ⟨hxf, hx⟩ := ih
        dsimp only
        split_ifs with hlt
        · refine ⟨hf, leads_last fun y hy hye => ?_⟩
          exact (hx.le hy (hye.trans (hf.trans hxf.symm))).trans_lt hlt
        · exact ⟨hxf, hx.append fun _ => not_lt.mp hlt⟩
    · rw [if_neg hf]
      cases hlookup : Assoc.lookup f (collapse m l).records with
      | none =>
        rw [hlookup] at ih
        intro x hx
        rcases List.mem_append.mp hx with hx | hx
        · exact ih x hx
        · obtain rfl := List.mem_singleton.mp hx
          exact hf
      | some x =>
        rw [hlookup] at ih
        obtain ⟨hxf, hx⟩ := ih
        exact ⟨hxf, hx.append fun hex => absurd (hex.trans hxf) hf⟩

theorem lookup_collapse : Assoc.lookup f (collapse m l).records = some r ↔
    foldIdentity m r.ircPrefix = f ∧ Leads m l r := by
  have hspec := collapse_spec m l f
  constructor
  · intro h
    rwa [h] at hspec
  · rintro ⟨hrf, hr⟩
    cases hlookup : Assoc.lookup f (collapse m l).records with
    | none =>
      rw [hlookup] at hspec
      obtain ⟨key, hmem⟩ := hr.mem
      exact absurd hrf (hspec _ hmem)
    | some x =>
      rw [hlookup] at hspec
      rw [hspec.2.unique hr (hspec.1.trans hrf.symm)]

/-! ## There and back -/

/-- No cached session has expired. -/
def Unexpired (now : ℚ) (a : Authorizer) : Prop := ∀ e ∈ a.records, now < e.2.expiresAt

theorem Unexpired.prune (h : a.Unexpired now) : a.prune now = a := by
  rw [Authorizer.prune, List.filter_eq_self.mpr fun e he => decide_eq_true (h e he)]

theorem Keyed.mem_iff (h : a.Keyed) : (f, s) ∈ a.records ↔ Assoc.lookup f a.records = some s :=
  ⟨h.distinct.lookup, Assoc.mem_of_lookup⟩

theorem Unexpired.setCasemapping (h : a.Unexpired now) (hm : m ≠ a.casemapping) :
    a.setCasemapping now m = collapse m a.records := by
  have hpruned : ({ a with casemapping := m } : Authorizer).prune now = { a with casemapping := m } :=
    Unexpired.prune (a := { a with casemapping := m }) h
  rw [Authorizer.setCasemapping, if_neg hm, rekey_eq, hpruned]

/-- A session that is alone in its fold leads. -/
theorem leads_of_alone (hdistinct : Assoc.Distinct l) (hs : (f, s) ∈ l)
    (halone : ∀ e ∈ l, foldIdentity m e.2.ircPrefix = foldIdentity m s.ircPrefix → e.1 = f) :
    Leads m l s := by
  obtain ⟨before, after, rfl⟩ := List.append_of_mem hs
  rw [Assoc.Distinct, List.map_append, List.map_cons, List.nodup_append] at hdistinct
  obtain ⟨-, hafter, hbefore⟩ := hdistinct
  refine ⟨before, f, after, rfl, fun e he hf => ?_, fun e he hf => ?_⟩
  · have hef := halone e (List.mem_append_left _ he) hf
    exact absurd hef (hbefore _ (List.mem_map_of_mem he) _ List.mem_cons_self)
  · have hef := halone e (List.mem_append_right _ (List.mem_cons_of_mem _ he)) hf
    have hmem : e.1 ∈ after.map Prod.fst := List.mem_map_of_mem he
    rw [hef] at hmem
    exact absurd hmem (List.nodup_cons.mp hafter).1

theorem Keyed.leads (h : a.Keyed) (hs : (f, s) ∈ a.records) : Leads a.casemapping a.records s :=
  leads_of_alone h.distinct hs fun e he hf => (h.fold e he).trans (hf.trans (h.fold _ hs).symm)

/-- What an identity has cached after the casemapping went to `m` and back -/
theorem Keyed.record_roundTrip (h : a.Keyed) (hlive : a.Unexpired now) (m : Casemapping)
    (identity : Str) :
    ((a.setCasemapping now m).setCasemapping now a.casemapping).record identity = some r ↔
      a.record identity = some r ∧ Leads m a.records r := by
  by_cases hm : m = a.casemapping
  · subst hm
    simp only [Authorizer.setCasemapping, if_true]
    refine ⟨fun hr => ⟨hr, h.leads (Assoc.mem_of_lookup hr)⟩, fun hr => hr.1⟩
  · have hthere := hlive.setCasemapping hm
    set b := collapse m a.records with hb
    have hkeyed : b.Keyed := keyed_collapse m a.records
    -- what stayed was cached, and leads its new fold
    have hstay : ∀ k x, (k, x) ∈ b.records → (∃ j, (j, x) ∈ a.records) ∧ Leads m a.records x := by
      intro k x hx
      obtain ⟨-, hleads⟩ := lookup_collapse.mp (hkeyed.mem_iff.mp hx)
      exact ⟨hleads.mem, hleads⟩
    have hblive : b.Unexpired now := by
      rintro ⟨k, x⟩ hx
      obtain ⟨⟨j, hj⟩, -⟩ := hstay k x hx
      exact hlive (j, x) hj
    have hback : (a.setCasemapping now m).setCasemapping now a.casemapping =
        collapse a.casemapping b.records := by
      rw [hthere]
      refine hblive.setCasemapping ?_
      rw [hb, collapse_casemapping]
      exact Ne.symm hm
    have hfold : ((a.setCasemapping now m).setCasemapping now a.casemapping).record identity =
        Assoc.lookup (a.fold identity) (collapse a.casemapping b.records).records := by
      rw [hback, Authorizer.record, Authorizer.fold, collapse_casemapping]
      rfl
    rw [hfold, lookup_collapse]
    constructor
    · rintro ⟨hrf, hr⟩
      obtain ⟨k, hmem⟩ := hr.mem
      obtain ⟨⟨j, hj⟩, hleads⟩ := hstay k r hmem
      refine ⟨?_, hleads⟩
      have hjf : j = a.fold identity := (h.fold _ hj).trans hrf
      exact h.mem_iff.mp (hjf ▸ hj)
    · rintro ⟨hr, hleads⟩
      have hrf := h.record hr
      refine ⟨hrf, ?_⟩
      have hmem : (foldIdentity m r.ircPrefix, r) ∈ b.records :=
        hkeyed.mem_iff.mpr (lookup_collapse.mpr ⟨rfl, hleads⟩)
      -- sessions that stayed have different folds again
      refine leads_of_alone hkeyed.distinct hmem ?_
      rintro ⟨k, x⟩ hx hxr
      obtain ⟨⟨j, hj⟩, -⟩ := hstay k x hx
      have hjf : j = a.fold identity := (h.fold _ hj).trans (hxr.trans hrf)
      have hxeq : x = r := by
        have hlookup := h.mem_iff.mp (hjf ▸ hj)
        rw [show Assoc.lookup (a.fold identity) a.records = some r from hr] at hlookup
        exact (Option.some.inj hlookup).symm
      subst hxeq
      have hk : k = b.fold x.ircPrefix := hkeyed.fold _ hx
      rw [hk, Authorizer.fold, hb, collapse_casemapping]

/-- The record cached for an identity, if any, is the one to stay under `m`. -/
def Stays (m : Casemapping) (a : Authorizer) (identity : Str) : Prop :=
  ∀ s, a.record identity = some s → Leads m a.records s

theorem Keyed.record_of_stays (h : a.Keyed) (hlive : a.Unexpired now)
    (hstay : a.Stays m identity) :
    ((a.setCasemapping now m).setCasemapping now a.casemapping).record identity =
      a.record identity := by
  refine Option.ext fun r => ?_
  rw [h.record_roundTrip hlive]
  exact ⟨fun hr => hr.1, fun hr => ⟨hr, hstay r hr⟩⟩

theorem Keyed.record_of_not_stays (h : a.Keyed) (hlive : a.Unexpired now)
    (hstay : ¬ a.Stays m identity) :
    ((a.setCasemapping now m).setCasemapping now a.casemapping).record identity = none := by
  refine Option.eq_none_iff_forall_not_mem.mpr fun r hr => hstay fun s hs => ?_
  obtain ⟨hr, hleads⟩ := (h.record_roundTrip hlive m identity).mp hr
  rw [hr] at hs
  obtain rfl := Option.some.inj hs
  exact hleads

/-- Whether an identity is authorized depends on its cached record only. -/
theorem authorized_eq (a : Authorizer) (now : ℚ) (identity : Str) :
    a.authorized now identity =
      (a.record identity).any fun s => decide (now < s.expiresAt) && !s.revoked := by
  unfold authorized get
  split
  · rename_i hr
    rw [hr]
    rfl
  · rename_i s hr
    rw [hr]
    by_cases hle : s.expiresAt ≤ now
    · simp [hle]
    · cases hrev : s.revoked <;> simp [hle, hrev, not_le.mp hle]

/-- The revocation that `revoke` makes depends on the cached record only. -/
theorem revoke_fst (S : SessionScope) (a : Authorizer) (identity : Str) :
    (a.revoke S identity).map Prod.fst =
      ((a.record identity).filter fun s => !s.revoked).map (revocationOf S) := by
  unfold revoke
  split
  · rename_i hr
    rw [hr]
    rfl
  · rename_i s hr
    rw [hr]
    cases hrev : s.revoked <;> simp [hrev, Option.filter]

/-- An identity is authorized and revoked as before if its record was the one to stay, and
neither authorized nor revoked otherwise. -/
theorem setCasemapping_roundTrip (S : SessionScope) (h : a.Keyed) (hlive : a.Unexpired now)
    (m : Casemapping) (identity : Str) :
    let b := (a.setCasemapping now m).setCasemapping now a.casemapping
    (a.Stays m identity → b.authorized now identity = a.authorized now identity ∧
      (b.revoke S identity).map Prod.fst = (a.revoke S identity).map Prod.fst) ∧
    (¬ a.Stays m identity → b.authorized now identity = false ∧ b.revoke S identity = none) := by
  intro b
  constructor
  · intro hstay
    have hrecord : b.record identity = a.record identity := h.record_of_stays hlive hstay
    rw [authorized_eq, authorized_eq, revoke_fst, revoke_fst, hrecord]
    exact ⟨rfl, rfl⟩
  · intro hstay
    have hrecord : b.record identity = none := h.record_of_not_stays hlive hstay
    constructor
    · rw [authorized_eq, hrecord]
      rfl
    · rw [revoke, hrecord]

/-- Two sessions whose prefixes only the IRC casemappings fold together -/
def sampleCollision : Authorizer :=
  let first := (Authorizer.grant sampleScope ⟨.ascii, []⟩ (lit "bot") 0 (lit "a[!u@h")).2
  (first.grant sampleScope (lit "bot") 1 (lit "a\x7b!u@h")).2

theorem keyed_sampleCollision : sampleCollision.Keyed :=
  Keyed.grant (Keyed.grant ⟨by simp [Assoc.Distinct], by simp⟩ _ _) _ _

theorem unexpired_sampleCollision : sampleCollision.Unexpired 2 := by
  have hall : sampleCollision.records.all (fun e => decide (2 < e.2.expiresAt)) = true := by
    decide +kernel
  exact fun e he => of_decide_eq_true (List.all_eq_true.mp hall e he)

theorem setCasemapping_roundTrip_collision :
    sampleCollision.Keyed ∧ sampleCollision.Unexpired 2 ∧
    (let b := (sampleCollision.setCasemapping 2 .rfc1459).setCasemapping 2
      sampleCollision.casemapping
    (sampleCollision.Stays .rfc1459 (lit "a\x7b!u@h") →
      b.authorized 2 (lit "a\x7b!u@h") = sampleCollision.authorized 2 (lit "a\x7b!u@h") ∧
      (b.revoke sampleScope (lit "a\x7b!u@h")).map Prod.fst =
        (sampleCollision.revoke sampleScope (lit "a\x7b!u@h")).map Prod.fst) ∧
    (¬ sampleCollision.Stays .rfc1459 (lit "a\x7b!u@h") →
      b.authorized 2 (lit "a\x7b!u@h") = false ∧ b.revoke sampleScope (lit "a\x7b!u@h") = none)) :=
  ⟨keyed_sampleCollision, unexpired_sampleCollision,
    setCasemapping_roundTrip sampleScope keyed_sampleCollision unexpired_sampleCollision
      .rfc1459 (lit "a\x7b!u@h")⟩

/-- The session that ranks lower is lost on the way. -/
theorem not_setCasemapping_roundTrip_all :
    (¬ ∀ (a : Authorizer) (now : ℚ) (m : Casemapping) (identity : Str),
      a.Keyed → a.Unexpired now →
        ((a.setCasemapping now m).setCasemapping now a.casemapping).authorized now identity =
          a.authorized now identity) ∧
    ¬ ∀ (S : SessionScope) (a : Authorizer) (now : ℚ) (m : Casemapping) (identity : Str),
      a.Keyed → a.Unexpired now →
        (((a.setCasemapping now m).setCasemapping now a.casemapping).revoke S identity).isSome =
          (a.revoke S identity).isSome := by
  constructor
  · intro hall
    have hsame := hall sampleCollision 2 .rfc1459 (lit "a[!u@h") keyed_sampleCollision
      unexpired_sampleCollision
    exact absurd hsame (by decide +kernel)
  · intro hall
    have hsame := hall sampleScope sampleCollision 2 .rfc1459 (lit "a[!u@h")
      keyed_sampleCollision unexpired_sampleCollision
    exact absurd hsame (by decide +kernel)

end Authorizer

end Botnats
