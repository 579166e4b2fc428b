import Mathlib.Tactic

/-!
# Sliding windows

Event times are a list in the order of the events. The window of length `window` that
ends at `t` is half open: it holds the times from `t - window`, exclusive, to `t`.
-/
namespace Sliding

variable {α : Type*} [LinearOrder α]

/-- The times after the cutoff -/
def recent (cutoff : α) (l : List α) : List α := l.filter fun e => cutoff < e

@[simp] theorem recent_nil (cutoff : α) : recent cutoff ([] : List α) = [] := rfl

@[simp] theorem mem_recent {cutoff e : α} {l : List α} :
    e ∈ recent cutoff l ↔ e ∈ l ∧ cutoff < e := by simp [recent]

theorem recent_append (cutoff : α) (l l' : List α) :
    recent cutoff (l ++ l') = recent cutoff l ++ recent cutoff l' := List.filter_append ..

theorem recent_recent {cutoff later : α} (h : cutoff ≤ later) (l : List α) :
    recent later (recent cutoff l) = recent later l := by
  unfold recent
  rw [List.filter_filter]
  refine List.filter_congr fun e _ => ?_
  by_cases he : later < e
  · simp [he, h.trans_lt he]
  · simp [he]

theorem recent_eq_nil {cutoff : α} {l : List α} (h : ∀ e ∈ l, e ≤ cutoff) :
    recent cutoff l = [] := by
  rw [recent, List.filter_eq_nil_iff]
  intro e he
  simpa using h e he

/-- In a list that is in order, the times up to the cutoff stand in front. -/
theorem dropWhile_eq_recent {l : List α} (h : l.Pairwise (· ≤ ·)) (cutoff : α) :
    l.dropWhile (· ≤ cutoff) = recent cutoff l := by
  induction l with
  | nil => rfl
  | cons e l ih =>
    obtain ⟨hfirst, hrest⟩ := List.pairwise_cons.mp h
    by_cases he : e ≤ cutoff
    · rw [List.dropWhile_cons_of_pos (by simpa using he), ih hrest, recent, recent,
        List.filter_cons_of_neg (by simpa using he)]
    · have hall : recent cutoff (e :: l) = e :: l := by
        refine List.filter_eq_self.mpr fun d hd => ?_
        rcases List.mem_cons.mp hd with rfl | hd
        · simpa using he
        · simpa using (not_le.mp he).trans_le (hfirst d hd)
      rw [List.dropWhile_cons_of_neg (by simpa using he), hall]

/-- In a list that is in order, nothing is later than the last. -/
theorem le_getLast {l : List α} (h : l.Pairwise (· ≤ ·)) {last : α}
    (hlast : l.getLast? = some last) : ∀ e ∈ l, e ≤ last := by
  obtain ⟨before, rfl⟩ := List.getLast?_eq_some_iff.mp hlast
  intro e he
  rcases List.mem_append.mp he with he | he
  · exact (List.pairwise_append.mp h).2.2 e he last List.mem_cons_self
  · exact (List.mem_singleton.mp he).le

variable [AddCommGroup α]

/-- The times in the window that ends at `t` -/
def within (window t : α) (l : List α) : List α :=
  l.filter fun e => t - window < e ∧ e ≤ t

/-- No window holds more than `limit` of the times. -/
def Limited (limit : ℕ) (window : α) (l : List α) : Prop :=
  ∀ t, (within window t l).length ≤ limit

theorem within_eq_recent (window : α) {t : α} {l : List α} (h : ∀ e ∈ l, e ≤ t) :
    within window t l = recent (t - window) l := by
  unfold within recent
  refine List.filter_congr fun e he => ?_
  simp [h e he]

theorem limited_nil (limit : ℕ) (window : α) : Limited limit window ([] : List α) :=
  fun _ => Nat.zero_le _

/-- One more event keeps the limit if the window that ends at it had room: every window
that holds it reaches back no further than that one. -/
theorem Limited.append [IsOrderedAddMonoid α] {limit : ℕ} {window now : α} {l : List α}
    (h : Limited limit window l) (hroom : (recent (now - window) l).length < limit) :
    Limited limit window (l ++ [now]) := by
  intro t
  rw [within, List.filter_append, List.length_append]
  by_cases hnow : t - window < now ∧ now ≤ t
  · have hsub : (within window t l).Sublist (recent (now - window) l) := by
      refine List.monotone_filter_right l fun e he => ?_
      simp only [decide_eq_true_eq] at he ⊢
      exact (sub_le_sub_right hnow.2 window).trans_lt he.1
    have hlen := hsub.length_le
    have hone : ([now].filter fun e => t - window < e ∧ e ≤ t).length = 1 := by simp [hnow]
    have hbefore : (l.filter fun e => t - window < e ∧ e ≤ t).length =
        (within window t l).length := rfl
    omega
  · have hnone : ([now].filter fun e => t - window < e ∧ e ≤ t).length = 0 := by
      rw [List.length_eq_zero_iff, List.filter_eq_nil_iff]
      intro e he
      rw [List.mem_singleton.mp he]
      simpa using hnow
    rw [hnone]
    exact h t

end Sliding
