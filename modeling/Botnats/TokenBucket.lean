import Mathlib.Tactic

/-!
# Token buckets

A bucket that holds up to `burst` tokens is refilled at `rate`, lazily: it remembers the
time that its count is of. Every release takes a token. The tokens spent since a time are
paid by a full bucket and by what has flowed in since.
-/
namespace Tokens

variable {α : Type*} [LinearOrder α]

/-- A count of tokens and the time that it is of -/
structure Level (α : Type*) where
  tokens : α
  updated : α

/-- The times from `a` on -/
def since (a : α) (l : List α) : List α := l.filter fun e => a ≤ e

/-- The times from `a` to `b`, both inclusive -/
def between (a b : α) (l : List α) : List α := l.filter fun e => a ≤ e ∧ e ≤ b

variable {releases : List α}

theorem since_eq_nil {a : α} (h : ∀ e ∈ releases, e < a) : since a releases = [] := by
  rw [since, List.filter_eq_nil_iff]
  intro e he
  simpa using h e he

theorem between_eq_since {a b : α} (h : ∀ e ∈ releases, e ≤ b) :
    between a b releases = since a releases := by
  unfold between since
  refine List.filter_congr fun e he => ?_
  simp [h e he]

variable [Field α]

def refill (burst rate : α) (level : Level α) (now : α) : Level α :=
  ⟨min burst (level.tokens + (now - level.updated) * rate), now⟩

/-- The level accounts for the releases. -/
structure Covers (burst rate : α) (level : Level α) (releases : List α) : Prop where
  nonneg : 0 ≤ level.tokens
  le_burst : level.tokens ≤ burst
  past : ∀ e ∈ releases, e ≤ level.updated
  paid : ∀ a ≤ level.updated,
    ((since a releases).length : α) ≤ burst - level.tokens + (level.updated - a) * rate
  bounded : ∀ a b, a ≤ b → ((between a b releases).length : α) ≤ burst + (b - a) * rate

variable [IsStrictOrderedRing α] {burst rate now : α} {level : Level α}

theorem covers_full (hburst : 0 ≤ burst) (hrate : 0 ≤ rate) (now : α) :
    Covers burst rate ⟨burst, now⟩ [] where
  nonneg := hburst
  le_burst := le_rfl
  past := by simp
  paid a ha := by
    simpa [since] using mul_nonneg (sub_nonneg.mpr ha) hrate
  bounded a b hab := by
    simpa [between] using add_nonneg hburst (mul_nonneg (sub_nonneg.mpr hab) hrate)

namespace Covers

/-- A refill gives no more than has flowed in. -/
theorem refill (h : Covers burst rate level releases) (hrate : 0 ≤ rate)
    (hnow : level.updated ≤ now) : Covers burst rate (refill burst rate level now) releases := by
  have hflow : 0 ≤ (now - level.updated) * rate := mul_nonneg (sub_nonneg.mpr hnow) hrate
  have hfull : (Tokens.refill burst rate level now).tokens ≤ burst := min_le_left _ _
  have hgain : (Tokens.refill burst rate level now).tokens ≤
      level.tokens + (now - level.updated) * rate := min_le_right _ _
  refine ⟨le_min (h.nonneg.trans h.le_burst) (add_nonneg h.nonneg hflow), hfull,
    fun e he => (h.past e he).trans hnow, fun a ha => ?_, h.bounded⟩
  change _ ≤ burst - _ + (now - a) * rate
  by_cases hold : a ≤ level.updated
  · have hpaid := h.paid a hold
    linarith
  · have hnone : since a releases = [] :=
      since_eq_nil fun e he => (h.past e he).trans_lt (not_le.mp hold)
    have hlater : 0 ≤ (now - a) * rate := mul_nonneg (sub_nonneg.mpr ha) hrate
    rw [hnone, List.length_nil, Nat.cast_zero]
    linarith

/-- Tokens may be thrown away. -/
theorem lower (h : Covers burst rate level releases) {tokens : α} (hnonneg : 0 ≤ tokens)
    (hle : tokens ≤ level.tokens) : Covers burst rate ⟨tokens, level.updated⟩ releases := by
  refine ⟨hnonneg, hle.trans h.le_burst, h.past, fun a ha => ?_, h.bounded⟩
  have hpaid := h.paid a ha
  change _ ≤ burst - tokens + _
  linarith

/-- A release takes a token that is there. -/
theorem spend (h : Covers burst rate level releases) (hrate : 0 ≤ rate)
    (htoken : 1 ≤ level.tokens) :
    Covers burst rate ⟨level.tokens - 1, level.updated⟩ (releases ++ [level.updated]) := by
  have hpast : ∀ e ∈ releases ++ [level.updated], e ≤ level.updated := by
    intro e he
    rcases List.mem_append.mp he with he | he
    · exact h.past e he
    · exact (List.mem_singleton.mp he).le
  have hpaid : ∀ a ≤ level.updated, ((since a (releases ++ [level.updated])).length : α) ≤
      burst - (level.tokens - 1) + (level.updated - a) * rate := by
    intro a ha
    have hone : since a [level.updated] = [level.updated] := by simp [since, ha]
    have hcount : (since a (releases ++ [level.updated])).length =
        (since a releases).length + 1 := by
      rw [since, List.filter_append, List.length_append, ← since, ← since, hone]
      rfl
    have hbefore := h.paid a ha
    rw [hcount, Nat.cast_add, Nat.cast_one]
    linarith
  refine ⟨sub_nonneg.mpr htoken, (sub_le_self _ zero_le_one).trans h.le_burst, hpast, hpaid,
    fun a b hab => ?_⟩
  by_cases hlast : a ≤ level.updated ∧ level.updated ≤ b
  · obtain ⟨ha, hb⟩ := hlast
    rw [between_eq_since fun e he => (hpast e he).trans hb]
    have hflow : (level.updated - a) * rate ≤ (b - a) * rate :=
      mul_le_mul_of_nonneg_right (sub_le_sub_right hb a) hrate
    have htotal := hpaid a ha
    linarith
  · have hnone : between a b [level.updated] = [] := by simpa [between] using hlast
    rw [between, List.filter_append, ← between, ← between, hnone, List.append_nil]
    exact h.bounded a b hab

/-- What a wait has paid for is spent at its end, with nothing left over. -/
theorem wait (h : Covers burst rate level releases) (hrate : 0 ≤ rate) (hburst : 1 ≤ burst)
    (hnow : level.updated ≤ now) (hwait : 1 ≤ level.tokens + (now - level.updated) * rate) :
    Covers burst rate ⟨0, now⟩ (releases ++ [now]) := by
  have htoken : 1 ≤ (Tokens.refill burst rate level now).tokens := le_min hburst hwait
  exact ((h.refill hrate hnow).spend hrate htoken).lower le_rfl (sub_nonneg.mpr htoken)

end Covers

end Tokens
