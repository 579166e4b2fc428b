import Mathlib.Tactic

/-!
# Greedy packing

A list is cut into groups in order, each as long as it fits. Where every part of a group
that fits does too, no packing of the list has fewer groups.
-/
namespace Packing

variable {α : Type*}

/-- The groups of `l`, the first of them begun with `current` -/
def fill (fits : List α → Bool) (current : List α) : List α → List (List α)
  | [] => [current]
  | x :: l =>
    if fits (current ++ [x]) then fill fits (current ++ [x]) l else current :: fill fits [x] l

/-- Take items into a group for as long as it fits. -/
def pack (fits : List α → Bool) : List α → List (List α)
  | [] => []
  | x :: l => fill fits [x] l

/-- A packing of the list: its items in order, in groups that are not empty and fit -/
structure Packs (fits : List α → Bool) (l : List α) (groups : List (List α)) : Prop where
  flatten : groups.flatten = l
  nonempty : ∀ g ∈ groups, g ≠ []
  fits : ∀ g ∈ groups, fits g = true

/-- What fits does so in part: a group's beginnings and ends fit, if they are not empty. -/
structure Divisible (fits : List α → Bool) : Prop where
  front : ∀ a b, a ≠ [] → fits (a ++ b) = true → fits a = true
  back : ∀ a b, b ≠ [] → fits (a ++ b) = true → fits b = true

variable {fits : List α → Bool} {current l rest : List α} {groups : List (List α)}

theorem packs_fill (hcurrent : current ≠ []) (hfits : fits current = true)
    (hone : ∀ x ∈ l, fits [x] = true) : Packs fits (current ++ l) (fill fits current l) := by
  induction l generalizing current with
  | nil =>
    rw [fill]
    exact ⟨by simp, by simpa using hcurrent, by simpa using hfits⟩
  | cons x l ih =>
    have hlater : ∀ y ∈ l, fits [y] = true := fun y hy => hone y (List.mem_cons_of_mem x hy)
    rw [fill]
    split_ifs with hx
    · rw [List.append_cons]
      exact ih (by simp) hx hlater
    · have hrest := ih (List.cons_ne_nil x []) (hone x List.mem_cons_self) hlater
      refine ⟨by rw [List.flatten_cons, hrest.flatten, List.singleton_append], ?_, ?_⟩
      · intro g hg
        rcases List.mem_cons.mp hg with rfl | hg
        · exact hcurrent
        · exact hrest.nonempty g hg
      · intro g hg
        rcases List.mem_cons.mp hg with rfl | hg
        · exact hfits
        · exact hrest.fits g hg

theorem packs_pack (hone : ∀ x ∈ l, fits [x] = true) : Packs fits l (pack fits l) := by
  cases l with
  | nil => exact ⟨rfl, by simp [pack], by simp [pack]⟩
  | cons x l =>
    exact packs_fill (List.cons_ne_nil x []) (hone x List.mem_cons_self)
      fun y hy => hone y (List.mem_cons_of_mem x hy)

/-- What follows the first group is packed by itself. -/
theorem fill_eq (fits : List α → Bool) (current l : List α) :
    ∃ first rest, fill fits current l = first :: pack fits rest ∧ rest <:+ l := by
  induction l generalizing current with
  | nil => exact ⟨current, [], rfl, List.suffix_rfl⟩
  | cons x l ih =>
    rw [fill]
    split_ifs
    · obtain ⟨first, rest, heq, hsuffix⟩ := ih (current ++ [x])
      exact ⟨first, rest, heq, hsuffix.trans (List.suffix_cons x l)⟩
    · exact ⟨current, x :: l, rfl, List.suffix_rfl⟩

/-- The greedy group reaches at least as far as any that fits and begins where it does. -/
theorem fill_reaches (hdiv : Divisible fits) {more : List α} (hcurrent : current ≠ [])
    (hfits : fits (current ++ more) = true) :
    ∃ first left, fill fits current (more ++ rest) = first :: pack fits left ∧ left <:+ rest := by
  induction more generalizing current with
  | nil => exact fill_eq fits current rest
  | cons x more ih =>
    have hx : fits (current ++ [x]) = true := by
      refine hdiv.front _ more (by simp) ?_
      rwa [List.append_assoc]
    rw [List.cons_append, fill, if_pos hx]
    refine ih (by simp) ?_
    rwa [List.append_assoc]

/-- The end of a list takes no more groups than any packing of the list. -/
theorem length_pack_le_of_suffix (hdiv : Divisible fits) (h : Packs fits l groups)
    (hsuffix : rest <:+ l) : (pack fits rest).length ≤ groups.length := by
  induction groups generalizing l rest with
  | nil =>
    obtain rfl : l = [] := h.flatten.symm
    rw [List.suffix_nil.mp hsuffix]
    exact le_rfl
  | cons g groups ih =>
    have htail : Packs fits groups.flatten groups :=
      ⟨rfl, fun a ha => h.nonempty a (List.mem_cons_of_mem g ha),
        fun a ha => h.fits a (List.mem_cons_of_mem g ha)⟩
    obtain ⟨before, hbefore⟩ := hsuffix
    rw [← h.flatten, List.flatten_cons] at hbefore
    rw [List.length_cons]
    have hshort : rest <:+ groups.flatten → (pack fits rest).length ≤ groups.length + 1 :=
      fun hrest => (ih htail hrest).trans (Nat.le_succ _)
    rcases List.append_eq_append_iff.mp hbefore with ⟨part, hg, rfl⟩ | ⟨skipped, -, hrest⟩
    · cases part with
      | nil => exact hshort List.suffix_rfl
      | cons x more =>
        -- the rest begins within the first group, whose end fits
        have hpart : fits ([x] ++ more) = true :=
          hdiv.back before _ (by simp) (hg ▸ h.fits g List.mem_cons_self)
        obtain ⟨first, left, heq, hleft⟩ : ∃ first left,
            fill fits [x] (more ++ groups.flatten) = first :: pack fits left ∧
              left <:+ groups.flatten :=
          fill_reaches hdiv (List.cons_ne_nil x []) hpart
        rw [List.cons_append, pack, heq, List.length_cons]
        exact Nat.succ_le_succ (ih htail hleft)
    · exact hshort ⟨skipped, hrest.symm⟩

/-- The greedy packing is a shortest one. -/
theorem length_pack_le (hdiv : Divisible fits) (h : Packs fits l groups) :
    (pack fits l).length ≤ groups.length :=
  length_pack_le_of_suffix hdiv h List.suffix_rfl

end Packing
