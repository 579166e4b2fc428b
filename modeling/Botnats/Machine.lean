import Mathlib.Tactic

/-!
# Executable transition machines

A machine is a partial step function: `step s a` is the state after action `a`,
or `none` where `a` is not enabled. All nondeterminism lives in the actions, so
a run is a list of actions and can be evaluated. Invariants are proved for one
step and carried along a run by the rules below.
-/
namespace Machine

variable {σ α : Type*}

/-- Run the actions in order; `none` once one of them is not enabled. -/
def run (step : σ → α → Option σ) (s : σ) : List α → Option σ
  | [] => some s
  | a :: as => (step s a).bind fun t => run step t as

@[simp] theorem run_nil (step : σ → α → Option σ) (s : σ) : run step s [] = some s := rfl

theorem run_cons (step : σ → α → Option σ) (s : σ) (a : α) (as : List α) :
    run step s (a :: as) = (step s a).bind fun t => run step t as := rfl

theorem run_cons_eq_some {step : σ → α → Option σ} {s u : σ} {a : α} {as : List α} :
    run step s (a :: as) = some u ↔ ∃ t, step s a = some t ∧ run step t as = some u := by
  simp [run_cons, Option.bind_eq_some_iff]

theorem run_append {step : σ → α → Option σ} {s u : σ} {as bs : List α} :
    run step s (as ++ bs) = some u ↔ ∃ t, run step s as = some t ∧ run step t bs = some u := by
  induction as generalizing s with
  | nil => simp
  | cons a as ih =>
    simp only [List.cons_append, run_cons_eq_some, ih]
    constructor
    · rintro ⟨t, ht, w, hw, hu⟩
      exact ⟨w, ⟨t, ht, hw⟩, hu⟩
    · rintro ⟨w, ⟨t, ht, hw⟩, hu⟩
      exact ⟨t, ht, w, hw, hu⟩

/-- A state some run from `s` ends in. -/
def Reachable (step : σ → α → Option σ) (s t : σ) : Prop := ∃ as, run step s as = some t

theorem Reachable.refl (step : σ → α → Option σ) (s : σ) : Reachable step s s := ⟨[], rfl⟩

theorem Reachable.tail {step : σ → α → Option σ} {s t u : σ} {a : α}
    (h : Reachable step s t) (ha : step t a = some u) : Reachable step s u := by
  obtain ⟨as, has⟩ := h
  exact ⟨as ++ [a], run_append.mpr ⟨t, has, run_cons_eq_some.mpr ⟨u, ha, rfl⟩⟩⟩

/-- What every step preserves, every run preserves. -/
theorem run_invariant {step : σ → α → Option σ} {P : σ → Prop}
    (hstep : ∀ s a t, P s → step s a = some t → P t) {s t : σ} {as : List α}
    (hs : P s) (h : run step s as = some t) : P t := by
  induction as generalizing s with
  | nil =>
    obtain rfl : s = t := by simpa using h
    exact hs
  | cons a as ih =>
    obtain ⟨u, hu, hrun⟩ := run_cons_eq_some.mp h
    exact ih (hstep s a u hs hu) hrun

theorem Reachable.invariant {step : σ → α → Option σ} {P : σ → Prop}
    (hstep : ∀ s a t, P s → step s a = some t → P t) {s t : σ}
    (h : Reachable step s t) (hs : P s) : P t := by
  obtain ⟨as, has⟩ := h
  exact run_invariant hstep hs has

/-- An invariant that also reads the actions that led to the state. -/
theorem run_trace_invariant {step : σ → α → Option σ} {P : List α → σ → Prop} {s t : σ}
    {as : List α} (hs : P [] s)
    (hstep : ∀ as u a t, run step s as = some u → P as u → step u a = some t → P (as ++ [a]) t)
    (h : run step s as = some t) : P as t := by
  induction as using List.reverseRecOn generalizing t with
  | nil =>
    obtain rfl : s = t := by simpa using h
    exact hs
  | append_singleton as a ih =>
    obtain ⟨u, hu, hlast⟩ := run_append.mp h
    obtain ⟨t', ht, hnil⟩ := run_cons_eq_some.mp hlast
    obtain rfl : t' = t := by simpa using hnil
    exact hstep as u a t' hu (ih hu) ht

/-- The run `as` from `s`, split where `p` held for the last time: `before` leads there, and
`since` is what followed. -/
structure LastTime (step : σ → α → Option σ) (p : σ → Prop) (s : σ)
    (as before since : List α) : Prop where
  split : as = before ++ since
  held : ∃ t, run step s before = some t ∧ p t
  later : ∀ mid rest t, since = mid ++ rest → mid ≠ [] → run step s (before ++ mid) = some t → ¬ p t

theorem LastTime.here {step : σ → α → Option σ} {p : σ → Prop} {s t : σ} {as : List α}
    (h : run step s as = some t) (hp : p t) : LastTime step p s as as [] where
  split := (List.append_nil as).symm
  held := ⟨t, h, hp⟩
  later := by
    intro mid rest t hmid hne
    exact absurd (List.append_eq_nil_iff.mp hmid.symm).1 hne

/-- A step after which `p` does not hold comes later than the last time. -/
theorem LastTime.snoc {step : σ → α → Option σ} {p : σ → Prop} {s t : σ} {a : α}
    {as before since : List α} (h : LastTime step p s as before since)
    (hrun : run step s (as ++ [a]) = some t) (hp : ¬ p t) :
    LastTime step p s (as ++ [a]) before (since ++ [a]) where
  split := by rw [h.split, List.append_assoc]
  held := h.held
  later := by
    intro mid rest u hmid hne hu
    rcases List.eq_nil_or_concat rest with rfl | ⟨rest, b, rfl⟩
    · rw [List.append_nil] at hmid
      rw [← hmid, ← List.append_assoc, ← h.split, hrun] at hu
      obtain rfl := Option.some.inj hu
      exact hp
    · rw [List.concat_eq_append, ← List.append_assoc] at hmid
      obtain ⟨hsince, -⟩ := List.append_inj' hmid rfl
      exact h.later mid rest u hsince hne hu

/-- The last time is one moment. -/
theorem LastTime.unique {step : σ → α → Option σ} {p : σ → Prop} {s : σ}
    {as before since before' since' : List α} (h : LastTime step p s as before since)
    (h' : LastTime step p s as before' since') : before = before' ∧ since = since' := by
  have hearlier : ∀ {b c b' c' : List α}, LastTime step p s as b c → LastTime step p s as b' c' →
      ∀ mid, b' = b ++ mid → mid = [] := by
    intro b c b' c' hbc hbc' mid hmid
    by_contra hne
    obtain ⟨t, ht, hp⟩ := hbc'.held
    have hc : c = mid ++ c' := by
      have happ : b ++ c = b ++ (mid ++ c') := by
        rw [← hbc.split, hbc'.split, hmid, List.append_assoc]
      exact List.append_cancel_left happ
    exact hbc.later mid c' t hc hne (hmid ▸ ht) hp
  rcases List.append_eq_append_iff.mp (h.split.symm.trans h'.split) with ⟨mid, hb, hs⟩ | ⟨mid, hb, hs⟩
  · obtain rfl := hearlier h h' mid hb
    exact ⟨by simpa using hb.symm, by simpa using hs⟩
  · obtain rfl := hearlier h' h mid hb
    exact ⟨by simpa using hb, by simpa using hs.symm⟩

/-- Every action of a run meets `p` in the state it is taken in. -/
def along (step : σ → α → Option σ) (p : σ → α → Bool) (s : σ) : List α → Bool
  | [] => true
  | a :: as => p s a && (step s a).all fun t => along step p t as

/-- What every step that meets `p` preserves, every run of such steps preserves. -/
theorem run_invariant_along {step : σ → α → Option σ} {p : σ → α → Bool} {Q : σ → Prop}
    (hstep : ∀ s a t, Q s → p s a = true → step s a = some t → Q t) {s t : σ} {as : List α}
    (hs : Q s) (hp : along step p s as = true) (h : run step s as = some t) : Q t := by
  induction as generalizing s with
  | nil =>
    obtain rfl : s = t := by simpa using h
    exact hs
  | cons a as ih =>
    obtain ⟨u, hu, hrun⟩ := run_cons_eq_some.mp h
    obtain ⟨ha, hrest⟩ := Bool.and_eq_true_iff.mp hp
    rw [hu, Option.all_some] at hrest
    exact ih (hstep s a u hs ha hu) hrest hrun

end Machine
