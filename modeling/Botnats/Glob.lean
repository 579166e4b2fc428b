import Mathlib.Tactic

/-!
# Glob patterns

A pattern is a word over the alphabet of the values with two symbols set apart: `one`
matches any single symbol, `many` any word. Every symbol matches itself, these two
included.
-/
namespace Glob

variable {α : Type*} {one many : α}

/-- The pattern matches the value. -/
inductive Matches (one many : α) : List α → List α → Prop
  | nil : Matches one many [] []
  | same {c : α} {p v : List α} (h : Matches one many p v) : Matches one many (c :: p) (c :: v)
  | single {c : α} {p v : List α} (h : Matches one many p v) :
      Matches one many (one :: p) (c :: v)
  | empty {p v : List α} (h : Matches one many p v) : Matches one many (many :: p) v
  | extend {c : α} {p v : List α} (h : Matches one many (many :: p) v) :
      Matches one many (many :: p) (c :: v)

namespace Matches

/-- What follows `many` may match any suffix of the value. -/
theorem many_append {p v : List α} (h : Matches one many p v) (u : List α) :
    Matches one many (many :: p) (u ++ v) := by
  induction u with
  | nil => exact h.empty
  | cons c u ih => exact ih.extend

theorem many_drop {p value : List α} {n k : ℕ} (hle : n ≤ k)
    (h : Matches one many p (value.drop k)) : Matches one many (many :: p) (value.drop n) := by
  obtain ⟨d, rfl⟩ := Nat.exists_eq_add_of_le hle
  rw [← List.take_append_drop d (value.drop n), List.drop_drop]
  exact many_append h _

/-- `many` matches every word. -/
theorem many_self (v : List α) : Matches one many [many] v := by
  have h : Matches one many [many] (v ++ []) := many_append .nil v
  rwa [List.append_nil] at h

/-- A pattern of `many` alone matches the empty word. -/
theorem of_all_many {p : List α} (h : ∀ c ∈ p, c = many) : Matches one many p [] := by
  induction p with
  | nil => exact .nil
  | cons c p ih =>
    obtain rfl := h c List.mem_cons_self
    exact (ih fun d hd => h d (List.mem_cons_of_mem _ hd)).empty

/-! ## What a match says of its first symbol -/

/-- The empty word is matched by `many` alone. -/
theorem all_many {p : List α} (h : Matches one many p []) : ∀ c ∈ p, c = many := by
  induction p with
  | nil => simp
  | cons c p ih =>
    cases h with
    | empty h =>
      intro d hd
      rcases List.mem_cons.mp hd with rfl | hd
      · rfl
      · exact ih h d hd

/-- A symbol other than `many` takes one symbol of the value. -/
theorem of_cons {c d : α} {p v : List α} (hd : d ≠ many) (h : Matches one many (d :: p) (c :: v)) :
    (d = c ∨ d = one) ∧ Matches one many p v := by
  cases h with
  | same h => exact ⟨.inl rfl, h⟩
  | single h => exact ⟨.inr rfl, h⟩
  | empty h => exact absurd rfl hd
  | extend h => exact absurd rfl hd

/-- What follows `many` matches some suffix of the value. -/
theorem of_many {p v : List α} (h : Matches one many (many :: p) v) :
    ∃ k ≤ v.length, Matches one many p (v.drop k) := by
  induction v with
  | nil =>
    cases h with
    | empty h => exact ⟨0, le_rfl, h⟩
  | cons c v ih =>
    cases h with
    | same h => exact ⟨1, by simp, h⟩
    | single h => exact ⟨1, by simp, h⟩
    | empty h => exact ⟨0, Nat.zero_le _, h⟩
    | extend h =>
      obtain ⟨k, hle, hk⟩ := ih h
      exact ⟨k + 1, Nat.succ_le_succ hle, hk⟩

/-- A segment without `many` takes as many symbols as it has. -/
theorem drop_segment {q p v : List α} (hq : many ∉ q) (h : Matches one many (q ++ p) v) :
    q.length ≤ v.length ∧ Matches one many p (v.drop q.length) := by
  induction q generalizing v with
  | nil => exact ⟨Nat.zero_le _, h⟩
  | cons d q ih =>
    have hd : d ≠ many := fun heq => hq (heq ▸ List.mem_cons_self)
    have hq : many ∉ q := fun hmem => hq (List.mem_cons_of_mem _ hmem)
    cases v with
    | nil => exact absurd (h.all_many d (by simp)) hd
    | cons c v =>
      obtain ⟨hle, hrest⟩ := ih hq (h.of_cons hd).2
      exact ⟨Nat.succ_le_succ hle, hrest⟩

/-- A pattern without `many` matches values of its own length alone. -/
theorem length_eq {p v : List α} (hp : many ∉ p) (h : Matches one many p v) :
    p.length = v.length := by
  rw [← List.append_nil p] at h
  obtain ⟨hle, hrest⟩ := drop_segment hp h
  have hnil : v.drop p.length = [] := by
    cases hdrop : v.drop p.length with
    | nil => rfl
    | cons c u =>
      rw [hdrop] at hrest
      cases hrest
  have hge := List.drop_eq_nil_iff.mp hnil
  omega

theorem refl (p : List α) : Matches one many p p := by
  induction p with
  | nil => exact .nil
  | cons c p ih => exact ih.same

theorem same_append {p v : List α} (h : Matches one many p v) (u : List α) :
    Matches one many (u ++ p) (u ++ v) := by
  induction u with
  | nil => exact h
  | cons c u ih => exact ih.same

theorem replicate_one (v : List α) : Matches one many (List.replicate v.length one) v := by
  induction v with
  | nil => exact .nil
  | cons c v ih => exact ih.single

/-- Patterns in a row match what is theirs in a row. -/
theorem append {p q u v : List α} (hp : Matches one many p u) (hq : Matches one many q v) :
    Matches one many (p ++ q) (u ++ v) := by
  induction hp with
  | nil => exact hq
  | same _ ih => exact ih.same
  | single _ ih => exact ih.single
  | empty _ ih => exact ih.empty
  | extend _ ih => exact ih.extend

/-- A value that patterns in a row match is cut between them. -/
theorem of_append {p q w : List α} (h : Matches one many (p ++ q) w) :
    ∃ u v, w = u ++ v ∧ Matches one many p u ∧ Matches one many q v := by
  induction p generalizing w with
  | nil => exact ⟨[], w, rfl, .nil, h⟩
  | cons d p ih =>
    generalize hr : d :: p ++ q = r at h
    induction h with
    | nil => simp at hr
    | @same c r v h _ =>
      obtain ⟨rfl, rfl⟩ := List.cons.inj hr
      obtain ⟨u, v', rfl, hu, hv⟩ := ih h
      exact ⟨_, v', rfl, hu.same, hv⟩
    | @single c r v h _ =>
      obtain ⟨rfl, rfl⟩ := List.cons.inj hr
      obtain ⟨u, v', rfl, hu, hv⟩ := ih h
      exact ⟨c :: u, v', rfl, hu.single, hv⟩
    | @empty r v h _ =>
      obtain ⟨rfl, rfl⟩ := List.cons.inj hr
      obtain ⟨u, v', rfl, hu, hv⟩ := ih h
      exact ⟨u, v', rfl, hu.empty, hv⟩
    | @extend c r v h ihv =>
      obtain ⟨u, v', rfl, hu, hv⟩ := ihv hr
      obtain ⟨rfl, rfl⟩ := List.cons.inj hr
      exact ⟨c :: u, v', rfl, hu.extend, hv⟩

/-- A symbol that stands for itself begins what it matches. -/
theorem of_literal {s : α} {p w : List α} (hone : s ≠ one) (hmany : s ≠ many)
    (h : Matches one many (s :: p) w) : ∃ v, w = s :: v ∧ Matches one many p v := by
  cases w with
  | nil => exact absurd (h.all_many s List.mem_cons_self) hmany
  | cons c v =>
    obtain ⟨hor, hrest⟩ := h.of_cons hmany
    rcases hor with rfl | heq
    · exact ⟨v, rfl, hrest⟩
    · exact absurd heq hone

/-- A separator that stands once in the value is matched by the one in the pattern: what
stands on its sides is matched side by side, whatever `many` might take. -/
theorem separator_iff {s : α} {p q u v : List α} (hone : s ≠ one) (hmany : s ≠ many)
    (hu : s ∉ u) (hv : s ∉ v) :
    Matches one many (p ++ s :: q) (u ++ s :: v) ↔
      Matches one many p u ∧ Matches one many q v := by
  constructor
  · intro h
    obtain ⟨u', w, hcut, hp, hw⟩ := h.of_append
    obtain ⟨v', rfl, hq⟩ := hw.of_literal hone hmany
    obtain ⟨rfl, -, rfl⟩ := (List.append_cons_inj_of_notMem hu hv).mp hcut
    exact ⟨hp, hq⟩
  · rintro ⟨hp, hq⟩
    exact hp.append hq.same

end Matches

/-- The pattern matches the first `n` symbols of the value, and no fewer. -/
structure Shortest (one many : α) (p value : List α) (n : ℕ) : Prop where
  matched : Matches one many p (value.take n)
  least : ∀ m, Matches one many p (value.take m) → n ≤ m

theorem Shortest.unique {p value : List α} {n m : ℕ} (h : Shortest one many p value n)
    (h' : Shortest one many p value m) : n = m :=
  Nat.le_antisymm (h.least m h'.matched) (h'.least n h.matched)

end Glob
