import Botnats.Json

/-!
# Validation of channels, keys and revisions

`format_message` of `irc/protocol.py` and the channel part of `validators.py`, with
the exceptions they raise. A channel revision is a counter of twenty digits and a
random suffix, so revisions are ordered as strings the way their counters are.
-/
namespace Botnats

/-- `TypeError` and `ValueError` with their texts, and `UnicodeEncodeError`. -/
inductive Invalid
  | type (message : String)
  | value (message : String)
  | encoding
  deriving DecidableEq

def maxIrcMessageBytes : ℕ := 512

/-- `ILLEGAL_PARAM_CHARS` -/
def illegalParamChars : Str := [32, 0, 13, 10]

/-- `ILLEGAL_TRAILING_CHARS` -/
def illegalTrailingChars : Str := [0, 13, 10]

def asciiAlnum (c : CodePoint) : Bool :=
  decide (48 ≤ c.val ∧ c.val ≤ 57 ∨ 65 ≤ c.val ∧ c.val ≤ 90 ∨ 97 ≤ c.val ∧ c.val ≤ 122)

/-- A parameter that `format_message` refuses. -/
def illegalParam (param : Str) : Bool :=
  param.isEmpty || param.head? = some 58 || param.any fun c => illegalParamChars.contains c

/-- `format_message` -/
def formatMessage (command : Str) (params : List Str) (trailing : Option Str) :
    Except Invalid (List Byte) :=
  if command.isEmpty || !command.all asciiAlnum then
    .error (.value "IRC command contains unsupported characters")
  else if params.any illegalParam then
    .error (.value "IRC parameter contains unsupported characters")
  else if (trailing.getD []).any fun c => illegalTrailingChars.contains c then
    .error (.value "IRC trailing parameter contains unsupported characters")
  else
    let components := command :: params ++ (trailing.map fun t => 58 :: t).toList
    let message := join [32] components ++ [13, 10]
    if !encodable message then .error .encoding
    else if (utf8 message).length > maxIrcMessageBytes then
      .error (.value "IRC message exceeds 512 bytes")
    else .ok (utf8 message)

/-- `str.isspace` of one character -/
def isSpace (c : CodePoint) : Bool :=
  decide (9 ≤ c.val ∧ c.val ≤ 13 ∨ 28 ≤ c.val ∧ c.val ≤ 32 ∨ c.val = 0x85 ∨ c.val = 0xA0 ∨
    c.val = 0x1680 ∨ 0x2000 ≤ c.val ∧ c.val ≤ 0x200A ∨ c.val = 0x2028 ∨ c.val = 0x2029 ∨
    c.val = 0x202F ∨ c.val = 0x205F ∨ c.val = 0x3000)

/-- `_has_control_chars` -/
def hasControlChars (value : Str) : Bool := value.any fun c => isSpace c || c = 0

/-- `validate_channel` -/
def validateChannel (value : Str) : Except Invalid Str :=
  if value.length < 2 || !(value.head?.any fun c => (lit "#&+!").contains c) then
    .error (.value "channel must start with #, &, +, or !")
  else if value.contains 44 || value.contains 7 || hasControlChars value then
    .error (.value "channel contains unsupported characters")
  else .ok value

/-- `validate_key` -/
def validateKey (value : Str) : Except Invalid Str :=
  if value.isEmpty then .error (.value "channel key must not be empty")
  else if value.head? = some 58 || value.contains 44 || hasControlChars value then
    .error (.value "channel key contains unsupported characters")
  else .ok value

/-- `validate_target` -/
def validateTarget (value : Str) : Except Invalid Str :=
  if value.isEmpty then .error (.value "target must not be empty")
  else if value.head? = some 58 || hasControlChars value then
    .error (.value "target contains unsupported characters")
  else .ok value

/-- A channel is returned as it was given. -/
theorem validateChannel_eq {value channel : Str} (h : validateChannel value = .ok channel) :
    channel = value := by
  unfold validateChannel at h
  split_ifs at h
  exact (Except.ok.inj h).symm

theorem validateTarget_eq {value target : Str} (h : validateTarget value = .ok target) :
    target = value := by
  unfold validateTarget at h
  split_ifs at h
  exact (Except.ok.inj h).symm

/-- `validate_join`; it returns what it is given. -/
def validateJoin (channel : Str) (key : Option Str) : Except Invalid Unit :=
  match validateChannel channel with
  | .error e => .error e
  | .ok _ =>
    match key.mapM validateKey with
    | .error e => .error e
    | .ok _ =>
      match formatMessage (lit "JOIN") (channel :: key.toList) none with
      | .error e => .error e
      | .ok _ => .ok ()

def maxChannelRevision : ℕ := 2 ^ 63 - 1

def digit (c : CodePoint) : Bool := decide (48 ≤ c.val ∧ c.val ≤ 57)

/-- `int` of a string of digits. -/
def number (s : Str) : ℕ := s.foldl (fun n c => 10 * n + (c.val - 48)) 0

/-- `CHANNEL_REVISION_RE`, matched in full. -/
def channelRevision (s : Str) : Bool :=
  (s.take 20).all digit && (s.drop 20).head? = some 45 && hexText 32 (s.drop 21)

/-- The counter of a revision, as `revision_number` reads it -/
def revisionCounter (s : Str) : ℕ := number (partition 45 s).1

/-- `validate_channel_revision` of a string; everything else is invalid. -/
def validRevision (s : Str) : Bool :=
  channelRevision s && decide (revisionCounter s ≤ maxChannelRevision)

/-- `validate_channel_revision` of a field of a record -/
def validateChannelRevision : Option Json → Except Invalid Str
  | some (.str s) =>
    if validRevision s then .ok s else .error (.value "channel record has an invalid revision")
  | _ => .error (.value "channel record has an invalid revision")

/-- The revision that a counter and a suffix make -/
def mintRevision (n : ℕ) (suffix : Str) : Str := zeroPad 20 n ++ 45 :: suffix

/-- A revision is twenty digits, a dash and the suffix. -/
theorem channelRevision_split {s : Str} (h : channelRevision s = true) :
    ∃ d u, s = d ++ 45 :: u ∧ d.length = 20 ∧ (∀ c ∈ d, digit c = true) := by
  simp only [channelRevision, Bool.and_eq_true, decide_eq_true_eq] at h
  obtain ⟨⟨hdigits, hdash⟩, -⟩ := h
  obtain ⟨rest, hrest⟩ := List.head?_eq_some_iff.mp hdash
  refine ⟨s.take 20, rest, ?_, ?_, List.all_eq_true.mp hdigits⟩
  · rw [← hrest, List.take_append_drop]
  · have hlen := congrArg List.length hrest
    rw [List.length_drop, List.length_cons] at hlen
    rw [List.length_take]
    omega

theorem not_digit_dash : digit 45 = false := by decide

/-- The counter of a revision is the number before its dash. -/
theorem number_partition {d : Str} (hd : ∀ c ∈ d, digit c = true) (u : Str) :
    (partition 45 (d ++ 45 :: u)).1 = d := by
  rw [partition_append]
  intro h
  have hdash := hd 45 h
  rw [not_digit_dash] at hdash
  exact absurd hdash (by simp)

theorem foldl_number (s : Str) (n : ℕ) :
    s.foldl (fun n c => 10 * n + (c.val - 48)) n = n * 10 ^ s.length + number s := by
  induction s generalizing n with
  | nil => simp [number]
  | cons c s ih =>
    have hcons : number (c :: s) = (c.val - 48) * 10 ^ s.length + number s := by
      rw [number, List.foldl_cons, ih]
      simp
    rw [List.foldl_cons, ih, hcons, List.length_cons, pow_succ]
    ring

theorem number_cons (c : CodePoint) (s : Str) :
    number (c :: s) = (c.val - 48) * 10 ^ s.length + number s := by
  rw [number, List.foldl_cons, foldl_number]
  simp

theorem number_lt_pow {s : Str} (h : ∀ c ∈ s, digit c = true) : number s < 10 ^ s.length := by
  induction s with
  | nil => simp [number]
  | cons c s ih =>
    have hs := ih fun x hx => h x (List.mem_cons_of_mem c hx)
    have hc := of_decide_eq_true (h c List.mem_cons_self)
    have hdigit : c.val - 48 ≤ 9 := by omega
    calc number (c :: s) = (c.val - 48) * 10 ^ s.length + number s := number_cons c s
      _ < (c.val - 48) * 10 ^ s.length + 10 ^ s.length := by omega
      _ = (c.val - 48 + 1) * 10 ^ s.length := by ring
      _ ≤ 10 * 10 ^ s.length := Nat.mul_le_mul_right _ (by omega)
      _ = 10 ^ (c :: s).length := by rw [List.length_cons, pow_succ, mul_comm]

/-- The first digit decides between digit strings of one length. -/
theorem number_cons_lt {c d : CodePoint} {s t : Str} (hlen : s.length = t.length)
    (hs : ∀ a ∈ s, digit a = true) (hd : digit d = true) (h : c < d) (hc : digit c = true) :
    number (c :: s) < number (d :: t) := by
  have hlow := of_decide_eq_true hc
  have hhigh := of_decide_eq_true hd
  have hval : c.val < d.val := h
  have hbound := number_lt_pow hs
  calc number (c :: s) = (c.val - 48) * 10 ^ s.length + number s := number_cons c s
    _ < (c.val - 48) * 10 ^ s.length + 10 ^ s.length := by omega
    _ = (c.val - 48 + 1) * 10 ^ s.length := by ring
    _ ≤ (d.val - 48) * 10 ^ s.length := Nat.mul_le_mul_right _ (by omega)
    _ ≤ (d.val - 48) * 10 ^ t.length + number t := by rw [hlen]; exact Nat.le_add_right _ _
    _ = number (d :: t) := (number_cons d t).symm

/-- Digit strings of one length are ordered like their numbers. -/
theorem append_lt_of_number_lt {s t : Str} (hlen : s.length = t.length)
    (hs : ∀ c ∈ s, digit c = true) (ht : ∀ c ∈ t, digit c = true) (h : number s < number t)
    (x y : Str) : s ++ x < t ++ y := by
  induction s generalizing t with
  | nil =>
    obtain rfl : t = [] := List.length_eq_zero_iff.mp hlen.symm
    simp at h
  | cons c s ih =>
    cases t with
    | nil => simp at hlen
    | cons d t =>
      obtain ⟨hc, hs'⟩ := List.forall_mem_cons.mp hs
      obtain ⟨hd, ht'⟩ := List.forall_mem_cons.mp ht
      have hlen' : s.length = t.length := by simpa using hlen
      rw [List.cons_append, List.cons_append, List.cons_lt_cons_iff]
      rcases lt_trichotomy c d with hlt | rfl | hgt
      · exact .inl hlt
      · rw [number_cons, number_cons, hlen'] at h
        exact .inr ⟨rfl, ih hlen' hs' ht' (by omega)⟩
      · exact absurd h (number_cons_lt hlen'.symm ht' hc hgt hd).not_gt

theorem number_injective {s t : Str} (hlen : s.length = t.length)
    (hs : ∀ c ∈ s, digit c = true) (ht : ∀ c ∈ t, digit c = true) (h : number s = number t) :
    s = t := by
  induction s generalizing t with
  | nil => exact (List.length_eq_zero_iff.mp hlen.symm).symm
  | cons c s ih =>
    cases t with
    | nil => simp at hlen
    | cons d t =>
      obtain ⟨hc, hs'⟩ := List.forall_mem_cons.mp hs
      obtain ⟨hd, ht'⟩ := List.forall_mem_cons.mp ht
      have hlen' : s.length = t.length := by simpa using hlen
      rcases lt_trichotomy c d with hlt | rfl | hgt
      · exact absurd h (number_cons_lt hlen' hs' hd hlt hc).ne
      · rw [number_cons, number_cons, hlen'] at h
        rw [ih hlen' hs' ht' (Nat.add_left_cancel h)]
      · exact absurd h (number_cons_lt hlen'.symm ht' hc hgt hd).ne'

theorem number_decimal (n : ℕ) : number (decimal n) = n := by
  rw [number, decimal, List.foldl_map]
  exact Nat.ofDigitChars_toDigits (by decide) (by decide)

theorem number_replicate (k : ℕ) (s : Str) : number (List.replicate k 48 ++ s) = number s := by
  induction k with
  | zero => rfl
  | succ k ih =>
    rw [List.replicate_succ, List.cons_append, number_cons, ih]
    simp

@[simp] theorem number_zeroPad (width n : ℕ) : number (zeroPad width n) = n := by
  rw [zeroPad, number_replicate, number_decimal]

@[simp] theorem revisionCounter_mint (n : ℕ) (suffix : Str) :
    revisionCounter (mintRevision n suffix) = n := by
  rw [revisionCounter, mintRevision, number_partition fun _ hc => decide_eq_true (zeroPad_digit hc),
    number_zeroPad]

theorem validRevision_mint {n : ℕ} {suffix : Str} (hn : n ≤ maxChannelRevision)
    (hs : hexText 32 suffix = true) : validRevision (mintRevision n suffix) = true := by
  have hlen : (zeroPad 20 n).length = 20 :=
    length_zeroPad (by decide) (lt_of_le_of_lt hn (by decide))
  have hdrop : (zeroPad 20 n ++ 45 :: suffix).drop 20 = 45 :: suffix :=
    List.drop_left' hlen
  have hsuffix : (zeroPad 20 n ++ 45 :: suffix).drop 21 = suffix := by
    rw [show 21 = 20 + 1 from rfl, ← List.drop_drop, hdrop, List.drop_succ_cons, List.drop_zero]
  have htake : (zeroPad 20 n ++ 45 :: suffix).take 20 = zeroPad 20 n :=
    List.take_left' hlen
  rw [validRevision, revisionCounter_mint, Bool.and_eq_true, decide_eq_true_eq]
  refine ⟨?_, hn⟩
  simp only [channelRevision, mintRevision, hdrop, hsuffix, htake, hs, List.head?_cons,
    decide_true, Bool.and_true, List.all_eq_true]
  exact fun c hc => decide_eq_true (zeroPad_digit hc)

/-- A revision with the larger counter is the larger string. -/
theorem revision_lt {r r' : Str} (h : validRevision r = true) (h' : validRevision r' = true)
    (hlt : revisionCounter r < revisionCounter r') : r < r' := by
  obtain ⟨d, u, rfl, hd, hdigits⟩ := channelRevision_split (Bool.and_eq_true_iff.mp h).1
  obtain ⟨d', u', rfl, hd', hdigits'⟩ := channelRevision_split (Bool.and_eq_true_iff.mp h').1
  rw [revisionCounter, revisionCounter, number_partition hdigits, number_partition hdigits']
    at hlt
  exact append_lt_of_number_lt (hd.trans hd'.symm) hdigits hdigits' hlt _ _

end Botnats
