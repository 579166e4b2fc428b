import Botnats.Text

/-!
# Keyed digests and number texts

`mac` stands for `hmac.digest(secret, …, "sha256").hex()` under the coordination
secret, as a function of the text that is encoded and digested. `FloatText` is
the pair `float.hex`, `float.fromhex`, which the language documents to round-trip.
-/
namespace Botnats

/-- A Python float. Finite values are rationals. -/
inductive PyFloat
  | finite (q : ℚ)
  | negZero
  | inf (negative : Bool)
  | nan
  deriving DecidableEq

/-- The number a float denotes; `none` where `math.isfinite` is false. -/
def PyFloat.value : PyFloat → Option ℚ
  | .finite q => some q
  | .negZero => some 0
  | _ => none

structure FloatText where
  hex : ℚ → Str
  fromhex : Str → Option PyFloat
  fromhex_hex : ∀ q, fromhex (hex q) = some (.finite q)

theorem FloatText.hex_injective (F : FloatText) : Function.Injective F.hex := by
  intro p q h
  have hp := F.fromhex_hex p
  rw [h, F.fromhex_hex q] at hp
  injection hp with hp
  injection hp with hp
  exact hp.symm

/-- A rational in unary: sign, numerator, `e`, denominator. -/
def unary (q : ℚ) : Str :=
  (if q < 0 then 45 else 43) :: (List.replicate q.num.natAbs 49 ++ 101 :: List.replicate q.den 49)

def ofUnary : Str → Option PyFloat
  | [] => none
  | sign :: digits =>
    let num := (digits.takeWhile (· = 49)).length
    let den := (digits.dropWhile (· = 49)).length - 1
    some (.finite (if sign = 45 then -(num / den) else num / den))

theorem ofUnary_unary (q : ℚ) : ofUnary (unary q) = some (.finite q) := by
  have htake : ∀ n (rest : Str), (List.replicate n (49 : CodePoint) ++ 101 :: rest).takeWhile
      (fun c => decide (c = 49)) = List.replicate n 49 := by
    intro n rest
    induction n with
    | zero => simp
    | succ n ih => simp [List.replicate_succ, ih]
  have hdrop : ∀ n (rest : Str), (List.replicate n (49 : CodePoint) ++ 101 :: rest).dropWhile
      (fun c => decide (c = 49)) = 101 :: rest := by
    intro n rest
    induction n with
    | zero => simp
    | succ n ih => simp [List.replicate_succ, ih]
  have hden : (q.num : ℚ) / q.den = q := Rat.num_div_den q
  simp only [unary, ofUnary, htake, hdrop, List.length_replicate, List.length_cons,
    Nat.add_sub_cancel, Option.some.injEq, PyFloat.finite.injEq]
  by_cases hq : q < 0
  · have hnum : q.num < 0 := Rat.num_neg.mpr hq
    have habs : (q.num.natAbs : ℚ) = -q.num := by
      rw [Nat.cast_natAbs, abs_of_neg hnum]
      push_cast
      rfl
    simp [hq, habs, neg_div, hden]
  · have hnum : 0 ≤ q.num := Rat.num_nonneg.mpr (not_lt.mp hq)
    have habs : (q.num.natAbs : ℚ) = q.num := by
      rw [Nat.cast_natAbs, abs_of_nonneg hnum]
    simp [hq, habs, hden]

/-- Zero as Python writes it, any other number in unary. -/
def unaryFloatText : FloatText where
  hex q := if q = 0 then lit "0x0.0p+0" else unary q
  fromhex s := if s = lit "0x0.0p+0" then some (.finite 0) else ofUnary s
  fromhex_hex := by
    intro q
    by_cases hq : q = 0
    · simp [hq]
    · have hne : unary q ≠ lit "0x0.0p+0" := by
        intro h
        have hhead : (if q < 0 then 45 else 43 : CodePoint) = 48 := (List.cons.inj h).1
        split_ifs at hhead <;> simp at hhead
      simp [hq, hne, ofUnary_unary]

/-- `int` of a float. -/
def truncate (q : ℚ) : ℤ := if 0 ≤ q then ⌊q⌋ else ⌈q⌉

/-- `str` of a non-negative integer. -/
def decimal (n : ℕ) : Str := (Nat.toDigits 10 n).map fun c => ⟨c.toNat, char_lt c⟩

/-- `str` of an integer. -/
def integer (n : ℤ) : Str := if n < 0 then 45 :: decimal n.natAbs else decimal n.natAbs

theorem decimal_ne_nil (n : ℕ) : decimal n ≠ [] := by
  simp [decimal]

theorem decimal_digit {n : ℕ} {c : CodePoint} (h : c ∈ decimal n) : 48 ≤ c.val ∧ c.val ≤ 57 := by
  obtain ⟨d, hd, rfl⟩ := List.mem_map.mp h
  have hdigit := Nat.isDigit_of_mem_toDigits (by decide) (by decide) hd
  simp only [Char.isDigit, Bool.and_eq_true, decide_eq_true_eq] at hdigit
  exact hdigit

theorem decimal_injective : Function.Injective decimal := by
  intro m n h
  have hinj : Function.Injective fun c : Char => (⟨c.toNat, char_lt c⟩ : CodePoint) := by
    intro c d hcd
    have hval : c.toNat = d.toNat := by simpa only [Fin.mk.injEq] using hcd
    exact Char.toNat_inj.mp hval
  have hdigits := hinj.list_map h
  have hm := Nat.ofDigitChars_toDigits (b := 10) (n := m) (by decide) (by decide)
  rw [hdigits, Nat.ofDigitChars_toDigits (by decide) (by decide)] at hm
  exact hm.symm

theorem integer_char {n : ℤ} {c : CodePoint} (h : c ∈ integer n) :
    c.val = 45 ∨ 48 ≤ c.val ∧ c.val ≤ 57 := by
  unfold integer at h
  split_ifs at h with hn
  · rcases List.mem_cons.mp h with rfl | h
    · exact .inl rfl
    · exact .inr (decimal_digit h)
  · exact .inr (decimal_digit h)

theorem integer_ne_nil (n : ℤ) : integer n ≠ [] := by
  unfold integer
  split_ifs
  · simp
  · exact decimal_ne_nil _

theorem minus_not_mem_decimal (n : ℕ) : (45 : CodePoint) ∉ decimal n := by
  intro h
  have := (decimal_digit h).1
  simp at this

theorem integer_injective : Function.Injective integer := by
  intro m n h
  unfold integer at h
  split_ifs at h with hm hn hn
  · have habs := decimal_injective (List.cons.inj h).2
    omega
  · exact absurd (h ▸ List.mem_cons_self) (minus_not_mem_decimal _)
  · exact absurd (h ▸ List.mem_cons_self) (minus_not_mem_decimal _)
  · have habs := decimal_injective h
    omega

/-- `str` of a number, zero-padded to a width -/
def zeroPad (width n : ℕ) : Str :=
  List.replicate (width - (decimal n).length) 48 ++ decimal n

theorem zeroPad_digit {width n : ℕ} {c : CodePoint} (h : c ∈ zeroPad width n) :
    48 ≤ c.val ∧ c.val ≤ 57 := by
  rcases List.mem_append.mp h with h | h
  · rw [(List.mem_replicate.mp h).2]
    decide
  · exact decimal_digit h

theorem length_zeroPad {width n : ℕ} (hw : 0 < width) (h : n < 10 ^ width) :
    (zeroPad width n).length = width := by
  have hdecimal : (decimal n).length ≤ width := by
    rwa [decimal, List.length_map, Nat.length_toDigits_le_iff (by decide) hw]
  rw [zeroPad, List.length_append, List.length_replicate]
  omega

theorem hexText_zeroPad {width n : ℕ} (hw : 0 < width) (h : n < 10 ^ width) :
    hexText width (zeroPad width n) = true := by
  refine decide_eq_true ⟨length_zeroPad hw h, List.all_eq_true.mpr fun c hc => ?_⟩
  exact decide_eq_true (.inl (zeroPad_digit hc))

/-- `str.join` -/
def join (sep : Str) : List Str → Str
  | [] => []
  | [s] => s
  | s :: rest => s ++ sep ++ join sep rest

theorem join_eq_intercalate (sep : Str) (fields : List Str) :
    join sep fields = sep.intercalate fields := by
  induction fields with
  | nil => rfl
  | cons f rest ih =>
    cases rest with
    | nil => simp [join]
    | cons g rest =>
      rw [join, ih, List.intercalate_cons_cons]
      exact List.cons_ne_nil g rest

/-- `_sign_fields` -/
def signFields (mac : Str → Str) (fields : List Str) : Str := mac (join [0] fields)

/-- `_sign_fields` of fields that may hold surrogates; `none` where it raises. -/
def signEncoded (mac : Str → Str) (fields : List Str) : Option Str :=
  if fields.all encodable then some (signFields mac fields) else none

/-- A checksum in the place of the digest, of its width. -/
def sampleMac (t : Str) : Str := zeroPad 64 (t.foldl (fun n c => 31 * n + c.val) 7 % 10 ^ 64)

theorem sampleMac_hex (t : Str) : hexText 64 (sampleMac t) = true :=
  hexText_zeroPad (by decide) (Nat.mod_lt _ (by decide))

end Botnats
