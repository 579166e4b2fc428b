import Botnats.Signing

/-!
# Time-based one-time passwords

`totp` and `TotpAuthorizer.match`. The HMAC-SHA1 digest under the TOTP secret is a
parameter. A counter that does not fit eight bytes raises, as `int.to_bytes` does.
-/
namespace Botnats

def totpPeriod : ℚ := 30

def totpWindow : ℕ := 1

def totpCodeLength : ℕ := 6

/-- `int.to_bytes(8)`; `none` where it raises `OverflowError`. -/
def toBytes (n : ℤ) : Option (List Byte) :=
  if 0 ≤ n ∧ n < 2 ^ 64 then
    some ((List.range 8).map fun i => Fin.ofNat 256 (n.toNat / 256 ^ (7 - i)))
  else none

/-- `int.from_bytes` -/
def fromBytes (bytes : List Byte) : ℕ := bytes.foldl (fun n b => 256 * n + b.val) 0

/-- The `06d` format. -/
def padded (n : ℕ) : Str := List.replicate (6 - (decimal n).length) 48 ++ decimal n

/-- `totp`; `none` where it raises. -/
def totp (hmacSha1 : List Byte → Vector Byte 20) (counter : ℤ) : Option Str :=
  (toBytes counter).map fun message =>
    let digest := hmacSha1 message
    let offset := digest[19].val &&& 0x0F
    let value := fromBytes ((digest.toList.drop offset).take 4) &&& 0x7FFFFFFF
    padded (value % 1000000)

/-- The counters tried, the current one first. -/
def candidates (current : ℤ) : List ℤ :=
  (0 :: (List.range totpWindow).map (fun i : ℕ => -(i + 1 : ℤ)) ++
    (List.range totpWindow).map fun i : ℕ => (i + 1 : ℤ)).map (current + ·)

def matchLoop (hmacSha1 : List Byte → Vector Byte 20) (code : Str) :
    List ℤ → Except Unit (Option ℤ)
  | [] => .ok none
  | counter :: rest =>
    match totp hmacSha1 counter with
    | none => .error ()
    | some expected =>
      if expected = code then .ok (some counter) else matchLoop hmacSha1 code rest

/-- `TotpAuthorizer.match` at a clock reading -/
def matchCode (hmacSha1 : List Byte → Vector Byte 20) (code : Str) (now : ℚ) :
    Except Unit (Option ℤ) :=
  if code.length = totpCodeLength ∧ code.all fun c => decide (48 ≤ c ∧ c ≤ 57) then
    matchLoop hmacSha1 code (candidates ⌊now / totpPeriod⌋)
  else .ok none

variable {hmacSha1 : List Byte → Vector Byte 20} {code : Str}

theorem mem_candidates {counter current : ℤ} (h : counter ∈ candidates current) :
    current - totpWindow ≤ counter ∧ counter ≤ current + totpWindow := by
  obtain ⟨offset, hmem, rfl⟩ := List.mem_map.mp h
  simp only [List.cons_append, List.mem_cons, List.mem_append, List.mem_map,
    List.mem_range] at hmem
  rcases hmem with rfl | ⟨i, hi, rfl⟩ | ⟨i, hi, rfl⟩
  · omega
  · omega
  · omega

theorem matchLoop_eq_some {counters : List ℤ} {counter : ℤ}
    (h : matchLoop hmacSha1 code counters = .ok (some counter)) :
    counter ∈ counters ∧ totp hmacSha1 counter = some code := by
  induction counters with
  | nil => simp [matchLoop] at h
  | cons c rest ih =>
    simp only [matchLoop] at h
    cases ht : totp hmacSha1 c with
    | none => simp [ht] at h
    | some expected =>
      simp only [ht] at h
      split_ifs at h with he
      · simp only [Except.ok.injEq, Option.some.injEq] at h
        subst h he
        exact ⟨List.mem_cons_self, ht⟩
      · obtain ⟨hmem, hcode⟩ := ih h
        exact ⟨List.mem_cons_of_mem c hmem, hcode⟩

/-- A matched counter produced the code and is at most one period away. -/
theorem matchCode_eq_some {now : ℚ} {counter : ℤ}
    (h : matchCode hmacSha1 code now = .ok (some counter)) :
    totp hmacSha1 counter = some code ∧
      ⌊now / totpPeriod⌋ - totpWindow ≤ counter ∧ counter ≤ ⌊now / totpPeriod⌋ + totpWindow := by
  unfold matchCode at h
  split_ifs at h with hc
  · obtain ⟨hmem, hcode⟩ := matchLoop_eq_some h
    exact ⟨hcode, mem_candidates hmem⟩
  · simp at h

/-- Two readings at which one counter matches are less than three periods apart. -/
theorem matchCode_window {code' : Str} {now now' : ℚ} {counter : ℤ}
    (h : matchCode hmacSha1 code now = .ok (some counter))
    (h' : matchCode hmacSha1 code' now' = .ok (some counter)) :
    now' < now + 3 * totpPeriod := by
  obtain ⟨_, _, hle⟩ := matchCode_eq_some h
  obtain ⟨_, hge, _⟩ := matchCode_eq_some h'
  have hp : (0 : ℚ) < totpPeriod := by norm_num [totpPeriod]
  have hlo : (⌊now / totpPeriod⌋ : ℚ) * totpPeriod ≤ now :=
    (le_div_iff₀ hp).mp (Int.floor_le _)
  have hhi : now' < (⌊now' / totpPeriod⌋ + 1 : ℚ) * totpPeriod :=
    (div_lt_iff₀ hp).mp (Int.lt_floor_add_one _)
  have hfloor : (⌊now' / totpPeriod⌋ : ℚ) ≤ ⌊now / totpPeriod⌋ + 2 := by
    have : ⌊now' / totpPeriod⌋ ≤ ⌊now / totpPeriod⌋ + 2 := by
      simp only [totpWindow] at hle hge
      omega
    exact_mod_cast this
  have hmul := mul_le_mul_of_nonneg_right hfloor hp.le
  linarith

end Botnats
