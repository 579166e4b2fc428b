import Mathlib.Tactic

/-!
# Cutting words at separators

Cutting a word at its first separator, at the first place where one symbol follows another,
and into the pieces between separators. A map of words that keeps a separator commutes with
all of them; joining pieces and cutting them apart is the identity.
-/
namespace Splitting

variable {α β : Type*} [DecidableEq α] [DecidableEq β]

/-- What stands before the first separator, and what stands after it, if there is one. -/
def cutAt (sep : α) : List α → List α × Option (List α)
  | [] => ([], none)
  | c :: s => if c = sep then ([], some s) else (c :: (cutAt sep s).1, (cutAt sep s).2)

/-- What stands before the first `a` with a `b` behind it, and what stands after both. -/
def cutPair (a b : α) : List α → List α × Option (List α)
  | [] => ([], none)
  | [c] => ([c], none)
  | c :: d :: s =>
    if c = a ∧ d = b then ([], some s)
    else (c :: (cutPair a b (d :: s)).1, (cutPair a b (d :: s)).2)

/-- The pieces between separators that are not empty -/
def wordsOf (sep : α) (s : List α) : List (List α) := (s.splitOn sep).filter (· ≠ [])

/-- The word without one symbol at its end, if that stands there -/
def dropEnd (c : α) (s : List α) : List α := if s.getLast? = some c then s.dropLast else s

variable {a b sep : α} {s u v : List α}

theorem cutAt_of_notMem (h : sep ∉ s) : cutAt sep s = (s, none) := by
  induction s with
  | nil => rfl
  | cons c s ih =>
    obtain ⟨hne, htail⟩ := List.ne_and_not_mem_of_not_mem_cons h
    rw [cutAt, if_neg hne.symm, ih htail]

theorem cutAt_append (h : sep ∉ u) (v : List α) : cutAt sep (u ++ sep :: v) = (u, some v) := by
  induction u with
  | nil => rw [List.nil_append, cutAt, if_pos rfl]
  | cons c u ih =>
    obtain ⟨hne, htail⟩ := List.ne_and_not_mem_of_not_mem_cons h
    rw [List.cons_append, cutAt, if_neg hne.symm, ih htail]

theorem cutPair_of_notMem (h : a ∉ s) (b : α) : cutPair a b s = (s, none) := by
  induction s with
  | nil => rfl
  | cons c s ih =>
    obtain ⟨hne, htail⟩ := List.ne_and_not_mem_of_not_mem_cons h
    cases s with
    | nil => rfl
    | cons d s => rw [cutPair, if_neg fun heq => hne heq.1.symm, ih htail]

/-- A symbol that is not the first of the pair is passed. -/
theorem cutPair_cons_of_ne {c : α} (h : c ≠ a) (s : List α) :
    cutPair a b (c :: s) = (c :: (cutPair a b s).1, (cutPair a b s).2) := by
  cases s with
  | nil => rfl
  | cons d s => rw [cutPair, if_neg fun heq => h heq.1]

theorem cutPair_append (h : a ∉ u) (v : List α) :
    cutPair a b (u ++ v) = (u ++ (cutPair a b v).1, (cutPair a b v).2) := by
  induction u with
  | nil => rfl
  | cons c u ih =>
    obtain ⟨hne, htail⟩ := List.ne_and_not_mem_of_not_mem_cons h
    rw [List.cons_append, cutPair_cons_of_ne hne.symm, ih htail]
    rfl

theorem cutPair_pair (a b : α) (s : List α) : cutPair a b (a :: b :: s) = ([], some s) := by
  rw [cutPair, if_pos ⟨rfl, rfl⟩]

/-- The first symbol of the pair is passed where the second does not follow. -/
theorem cutPair_cons_of_head (h : s.head? ≠ some b) :
    cutPair a b (a :: s) = (a :: (cutPair a b s).1, (cutPair a b s).2) := by
  cases s with
  | nil => rfl
  | cons d s => rw [cutPair, if_neg fun heq => h (by rw [heq.2, List.head?_cons])]

@[simp] theorem dropEnd_append (c : α) (s : List α) : dropEnd c (s ++ [c]) = s := by
  simp [dropEnd]

/-! ## Maps that keep a separator -/

/-- The map takes what stands before and after an `a` apart from each other, the `a` to a
`b`, and nothing else to a `b`. -/
structure Keeps (f : List α → List β) (a : α) (b : β) : Prop where
  nil : f [] = []
  append : ∀ u v, f (u ++ a :: v) = f u ++ b :: f v
  notMem : ∀ u, a ∉ u → b ∉ f u

namespace Keeps

variable {f : List α → List β} {x y : α} {x' y' : β}

omit [DecidableEq α] [DecidableEq β] in
theorem cons (h : Keeps f x x') (s : List α) : f (x :: s) = x' :: f s := by
  simpa [h.nil] using h.append [] s

omit [DecidableEq α] [DecidableEq β] in
theorem mem_iff (h : Keeps f x x') (s : List α) : x' ∈ f s ↔ x ∈ s := by
  refine ⟨fun hmem => by_contra fun hfree => h.notMem s hfree hmem, fun hmem => ?_⟩
  obtain ⟨u, v, rfl⟩ := List.append_of_mem hmem
  rw [h.append]
  exact List.mem_append_right _ List.mem_cons_self

theorem cutAt (h : Keeps f x x') (s : List α) :
    cutAt x' (f s) = (f (cutAt x s).1, (cutAt x s).2.map f) := by
  by_cases hmem : x ∈ s
  · obtain ⟨u, v, rfl, hfree⟩ := List.eq_append_cons_of_mem hmem
    rw [h.append, cutAt_append (h.notMem u hfree), cutAt_append hfree]
    rfl
  · rw [cutAt_of_notMem (h.notMem s hmem), cutAt_of_notMem hmem]
    rfl

theorem splitOn (h : Keeps f x x') (s : List α) : (f s).splitOn x' = (s.splitOn x).map f := by
  induction hn : s.length using Nat.strong_induction_on generalizing s with
  | _ n ih =>
    by_cases hmem : x ∈ s
    · obtain ⟨u, v, rfl, hfree⟩ := List.eq_append_cons_of_mem hmem
      have hrest := ih v.length (by simp only [List.length_append, List.length_cons] at hn; omega)
        v rfl
      rw [h.append, List.splitOn_append_cons_self_of_not_mem (h.notMem u hfree),
        List.splitOn_append_cons_self_of_not_mem hfree, hrest]
      rfl
    · rw [List.splitOn_eq_singleton (h.notMem s hmem), List.splitOn_eq_singleton hmem]
      rfl

omit [DecidableEq β] in
theorem head (h : Keeps f x x') (hempty : ∀ s, f s = [] → s = []) (s : List α) :
    (f s).head? = some x' ↔ s.head? = some x := by
  constructor
  · intro hhead
    by_cases hmem : x ∈ s
    · obtain ⟨u, v, rfl, hfree⟩ := List.eq_append_cons_of_mem hmem
      cases hu : f u with
      | nil => rw [hempty u hu, List.nil_append, List.head?_cons]
      | cons c w =>
        rw [h.append, hu, List.cons_append, List.head?_cons] at hhead
        exact absurd (hu ▸ Option.some.inj hhead ▸ List.mem_cons_self) (h.notMem u hfree)
    · exact absurd (List.mem_of_mem_head? (Option.mem_def.mpr hhead)) (h.notMem s hmem)
  · intro hhead
    obtain ⟨v, rfl⟩ := List.head?_eq_some_iff.mp hhead
    rw [h.cons, List.head?_cons]

theorem cutPair (h : Keeps f x x') (h' : Keeps f y y') (hempty : ∀ s, f s = [] → s = [])
    (s : List α) : cutPair x' y' (f s) = (f (cutPair x y s).1, (cutPair x y s).2.map f) := by
  induction hn : s.length using Nat.strong_induction_on generalizing s with
  | _ n ih =>
    by_cases hmem : x ∈ s
    · obtain ⟨u, v, rfl, hfree⟩ := List.eq_append_cons_of_mem hmem
      have hrest := ih v.length (by simp only [List.length_append, List.length_cons] at hn; omega)
        v rfl
      rw [h.append, cutPair_append (h.notMem u hfree), cutPair_append hfree]
      by_cases hhead : v.head? = some y
      · obtain ⟨w, rfl⟩ := List.head?_eq_some_iff.mp hhead
        rw [h'.cons, cutPair_pair, cutPair_pair]
        simp
      · have hhead' : (f v).head? ≠ some y' := fun heq => hhead ((h'.head hempty v).mp heq)
        rw [cutPair_cons_of_head hhead, cutPair_cons_of_head hhead', hrest, h.append]
    · rw [cutPair_of_notMem (h.notMem s hmem), cutPair_of_notMem hmem]
      rfl

theorem wordsOf (h : Keeps f x x') (hempty : ∀ s, f s = [] → s = []) (s : List α) :
    wordsOf x' (f s) = (wordsOf x s).map f := by
  rw [Splitting.wordsOf, Splitting.wordsOf, h.splitOn, List.filter_map]
  congr 1
  refine List.filter_congr fun w _ => ?_
  have hiff : f w = [] ↔ w = [] := ⟨hempty w, fun hw => by rw [hw, h.nil]⟩
  simp [hiff]

theorem dropEnd (h : Keeps f x x') (hempty : ∀ s, f s = [] → s = []) (s : List α) :
    dropEnd x' (f s) = f (dropEnd x s) := by
  by_cases hlast : s.getLast? = some x
  · obtain ⟨u, rfl⟩ := List.getLast?_eq_some_iff.mp hlast
    rw [h.append, h.nil]
    simp [Splitting.dropEnd]
  · have hlast' : (f s).getLast? ≠ some x' := by
      intro heq
      by_cases hmem : x ∈ s
      · -- behind the last `x` there is something, and no `x'` in its image
        obtain ⟨w, t, hsplit, hfree⟩ := List.eq_append_cons_of_mem (List.mem_reverse.mpr hmem)
        have hs : s = t.reverse ++ x :: w.reverse := by
          rw [← List.reverse_reverse s, hsplit]
          simp
        have hw : w.reverse ≠ [] := fun hnil => hlast (by rw [hs, hnil]; simp)
        have hfw : f w.reverse ≠ [] := fun hnil => hw (hempty _ hnil)
        rw [hs, h.append, List.getLast?_append_of_ne_nil _ (List.cons_ne_nil _ _),
          List.getLast?_cons_of_ne_nil hfw] at heq
        exact h.notMem w.reverse (fun hx => hfree (List.mem_reverse.mp hx))
          (List.mem_of_getLast? heq)
      · exact h.notMem s hmem (List.mem_of_getLast? heq)
    rw [Splitting.dropEnd, if_neg hlast', Splitting.dropEnd, if_neg hlast]

end Keeps

/-! ## Joining and cutting apart -/

/-- Words that a separator keeps apart -/
def Separate (sep : α) (ws : List (List α)) : Prop := ∀ w ∈ ws, w ≠ [] ∧ sep ∉ w

theorem wordsOf_intercalate {ws : List (List α)} (h : Separate sep ws) :
    wordsOf sep ([sep].intercalate ws) = ws := by
  cases ws with
  | nil => simp [wordsOf]
  | cons w ws =>
    rw [wordsOf, List.splitOn_intercalate _ (fun l hl => (h l hl).2) (List.cons_ne_nil _ _)]
    exact List.filter_eq_self.mpr fun l hl => by simpa using (h l hl).1

omit [DecidableEq α] in
theorem mem_intercalate {c : α} {ws : List (List α)} (h : c ∈ [sep].intercalate ws) :
    c = sep ∨ ∃ w ∈ ws, c ∈ w := by
  induction ws with
  | nil => simp at h
  | cons w ws ih =>
    cases ws with
    | nil =>
      rw [List.intercalate_singleton] at h
      exact .inr ⟨w, List.mem_cons_self, h⟩
    | cons w' ws =>
      rw [List.intercalate_cons_cons, List.append_assoc] at h
      rcases List.mem_append.mp h with h | h
      · exact .inr ⟨w, List.mem_cons_self, h⟩
      · rcases List.mem_cons.mp h with rfl | h
        · exact .inl rfl
        · exact (ih h).imp_right fun ⟨l, hl, hc⟩ => ⟨l, List.mem_cons_of_mem _ hl, hc⟩

/-- Joined words, the first of which may begin with anything, hold no pair. -/
theorem cutPair_intercalate {w : List α} {ws : List (List α)} (h : Separate a (w :: ws))
    (hheads : ∀ w ∈ ws, w.head? ≠ some b) (tail : List α) :
    cutPair a b ([a].intercalate (w :: ws) ++ tail) =
      ([a].intercalate (w :: ws) ++ (cutPair a b tail).1, (cutPair a b tail).2) := by
  induction ws generalizing w with
  | nil =>
    rw [List.intercalate_singleton]
    exact cutPair_append (h w List.mem_cons_self).2 tail
  | cons w' ws ih =>
    have hw' := h w' (List.mem_cons_of_mem _ List.mem_cons_self)
    have hrest := ih (w := w') (fun l hl => h l (List.mem_cons_of_mem _ hl))
      fun l hl => hheads l (List.mem_cons_of_mem _ hl)
    have hhead : ([a].intercalate (w' :: ws) ++ tail).head? ≠ some b := by
      have hfirst := hheads w' List.mem_cons_self
      cases w' with
      | nil => exact absurd rfl hw'.1
      | cons c w' => rw [List.intercalate_cons_cons_left, List.cons_append]; exact hfirst
    rw [List.intercalate_cons_cons, List.append_assoc, List.append_assoc, List.singleton_append,
      cutPair_append (h w List.mem_cons_self).2, cutPair_cons_of_head hhead, hrest]
    simp

/-! ## The pieces of a cut word -/

theorem cutAt_spec {u v : List α} (h : cutAt sep s = (u, some v)) : s = u ++ sep :: v := by
  induction s generalizing u with
  | nil => simp [cutAt] at h
  | cons c s ih =>
    rw [cutAt] at h
    split_ifs at h with hc
    · obtain ⟨rfl, hv⟩ := Prod.mk.inj h
      rw [hc, Option.some.inj hv]
      rfl
    · obtain ⟨rfl, hv⟩ := Prod.mk.inj h
      exact congrArg (c :: ·) (ih (Prod.ext rfl hv))

theorem cutPair_spec (a b : α) (s : List α) :
    s = (cutPair a b s).1 ++ ((cutPair a b s).2.map fun t => a :: b :: t).getD [] := by
  induction s with
  | nil => rfl
  | cons c s ih =>
    cases s with
    | nil => rfl
    | cons d s =>
      rw [cutPair]
      split_ifs with h
      · rw [h.1, h.2]
        rfl
      · exact congrArg (c :: ·) ih

/-- No pair stands before the first one. -/
theorem cutPair_fst (a b : α) (s : List α) :
    cutPair a b (cutPair a b s).1 = ((cutPair a b s).1, none) := by
  induction s with
  | nil => rfl
  | cons c s ih =>
    by_cases hc : c = a
    · by_cases hhead : s.head? = some b
      · obtain ⟨t, rfl⟩ := List.head?_eq_some_iff.mp hhead
        rw [hc, cutPair_pair]
        rfl
      · have hfirst : (cutPair a b s).1.head? ≠ some b := by
          intro heq
          have hs := cutPair_spec a b s
          cases hcut : (cutPair a b s).1 with
          | nil => simp [hcut] at heq
          | cons d t =>
            rw [hcut, List.cons_append] at hs
            rw [hcut] at heq
            exact hhead (by rw [hs]; exact heq)
        rw [hc, cutPair_cons_of_head hhead, cutPair_cons_of_head hfirst, ih]
    · rw [cutPair_cons_of_ne hc, cutPair_cons_of_ne hc, ih]

omit [DecidableEq α] in
theorem length_intercalate {ws : List (List α)} (h : ws ≠ []) :
    ([sep].intercalate ws).length + 1 = (ws.map fun w => w.length + 1).sum := by
  induction ws with
  | nil => exact absurd rfl h
  | cons w ws ih =>
    cases ws with
    | nil => simp
    | cons w' ws =>
      have hrest := ih (List.cons_ne_nil _ _)
      rw [List.intercalate_cons_cons, List.map_cons, List.sum_cons, ← hrest]
      simp only [List.length_append, List.length_singleton]
      omega

/-- The pieces of a word are as long as the word, with one separator less than pieces. -/
theorem length_splitOn (sep : α) (s : List α) :
    s.length + 1 = ((s.splitOn sep).map fun w => w.length + 1).sum := by
  have h : ([sep].intercalate (s.splitOn sep)).length + 1 =
      ((s.splitOn sep).map fun w => w.length + 1).sum :=
    length_intercalate (List.splitOn_ne_nil sep s)
  rwa [List.intercalate_splitOn] at h

/-- The empty pieces are what the words leave out. -/
theorem sum_wordsOf (sep : α) (s : List α) :
    s.length + 1 =
      ((wordsOf sep s).map fun w => w.length + 1).sum + (s.splitOn sep).countP (· = []) := by
  rw [length_splitOn sep s, wordsOf]
  induction s.splitOn sep with
  | nil => rfl
  | cons w ws ih =>
    by_cases hw : w = []
    · simp only [hw, List.map_cons, List.sum_cons, ne_eq, not_true, decide_false,
        List.filter_cons_of_neg, Bool.false_eq_true, not_false_iff, decide_true,
        List.countP_cons_of_pos, List.length_nil, ih]
      omega
    · simp only [List.map_cons, List.sum_cons, ne_eq, hw, not_false_iff, decide_true,
        List.filter_cons_of_pos, decide_false, Bool.false_eq_true, List.countP_cons_of_neg, ih]
      omega

/-- Pieces hold no separator, and nothing that the word does not hold. -/
theorem splitOn_pieces (sep : α) (s : List α) :
    ∀ w ∈ s.splitOn sep, sep ∉ w ∧ ∀ c ∈ w, c ∈ s := by
  induction hn : s.length using Nat.strong_induction_on generalizing s with
  | _ n ih =>
    intro w hw
    by_cases hmem : sep ∈ s
    · obtain ⟨u, v, rfl, hfree⟩ := List.eq_append_cons_of_mem hmem
      rw [List.splitOn_append_cons_self_of_not_mem hfree] at hw
      rcases List.mem_cons.mp hw with rfl | hw
      · exact ⟨hfree, fun c hc => List.mem_append_left _ hc⟩
      · obtain ⟨hsep, hsub⟩ := ih v.length
          (by simp only [List.length_append, List.length_cons] at hn; omega) v rfl w hw
        exact ⟨hsep, fun c hc => List.mem_append_right _ (List.mem_cons_of_mem _ (hsub c hc))⟩
    · rw [List.splitOn_eq_singleton hmem] at hw
      rw [List.mem_singleton.mp hw]
      exact ⟨hmem, fun c hc => hc⟩

/-- The first piece begins as the word does, unless it is empty. -/
theorem splitOn_head {c : α} (hc : c ≠ sep) (s : List α) :
    ∃ w ws, (c :: s).splitOn sep = (c :: w) :: ws := by
  rw [List.splitOn_cons_eq_if_modifyHead, if_neg (by simpa using hc)]
  cases hsplit : s.splitOn sep with
  | nil => exact absurd hsplit (List.splitOn_ne_nil sep s)
  | cons w ws => exact ⟨w, ws, rfl⟩

theorem splitOn_sep (sep : α) (s : List α) : (sep :: s).splitOn sep = [] :: s.splitOn sep := by
  rw [List.splitOn_cons_eq_if_modifyHead, if_pos (by simp)]

/-- Without a pair, no piece but the first begins with the second symbol of the pair. -/
theorem splitOn_tail_heads (h : (cutPair a b s).2 = none) :
    ∀ w ∈ (s.splitOn a).tail, w.head? ≠ some b := by
  induction hn : s.length using Nat.strong_induction_on generalizing s with
  | _ n ih =>
    intro w hw
    by_cases hmem : a ∈ s
    · obtain ⟨u, v, rfl, hfree⟩ := List.eq_append_cons_of_mem hmem
      rw [cutPair_append hfree] at h
      rw [List.splitOn_append_cons_self_of_not_mem hfree, List.tail_cons] at hw
      by_cases hhead : v.head? = some b
      · obtain ⟨t, rfl⟩ := List.head?_eq_some_iff.mp hhead
        rw [cutPair_pair] at h
        cases h
      rw [cutPair_cons_of_head hhead] at h
      have hrest := ih v.length
        (by simp only [List.length_append, List.length_cons] at hn; omega) h rfl
      cases v with
      | nil =>
        rw [List.splitOn_nil] at hw
        simp [List.mem_singleton.mp hw]
      | cons d v =>
        by_cases hd : d = a
        · rw [hd, splitOn_sep] at hw hrest
          rcases List.mem_cons.mp hw with rfl | hw
          · simp
          · exact hrest w hw
        · obtain ⟨first, others, hsplit⟩ := splitOn_head hd v
          rw [hsplit] at hw hrest
          rcases List.mem_cons.mp hw with rfl | hw
          · exact hhead
          · exact hrest w hw
    · rw [List.splitOn_eq_singleton hmem] at hw
      simp at hw

end Splitting
