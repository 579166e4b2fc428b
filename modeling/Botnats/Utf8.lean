import Botnats.Text
import Botnats.Splitting

/-!
# Decoding with replacement

`bytes.decode(errors="replace")`: what begins like a character but does not go on like one
becomes a replacement character as a whole, and the byte that does not fit is read anew.
ASCII bytes stand for themselves wherever they stand, so cutting at them commutes with
decoding, and what `str.encode` made decodes to what it was made of.
-/
namespace Botnats

open Splitting

/-- A character that has begun: its bits so far, how many bytes follow the next one, and
between which bounds the next one has to be. -/
structure Pending where
  code : ℕ
  more : ℕ
  low : ℕ
  high : ℕ
  low_ge : 128 ≤ low
  high_le : high ≤ 191
  least : 128 ≤ (code * 64 + (low - 128)) * 64 ^ more
  most : (code * 64 + (high - 128) + 1) * 64 ^ more ≤ 0x110000

namespace Pending

/-- The bits after the next byte -/
def next (p : Pending) (b : Byte) : ℕ := p.code * 64 + (b.val - 128)

theorem next_least (p : Pending) {b : Byte} (h : p.low ≤ b.val) :
    128 ≤ p.next b * 64 ^ p.more := by
  have hle : p.code * 64 + (p.low - 128) ≤ p.next b := by
    unfold next
    omega
  exact p.least.trans (Nat.mul_le_mul_right _ hle)

theorem next_most (p : Pending) {b : Byte} (h : b.val ≤ p.high) :
    (p.next b + 1) * 64 ^ p.more ≤ 0x110000 := by
  have hle : p.next b + 1 ≤ p.code * 64 + (p.high - 128) + 1 := by
    unfold next
    omega
  exact (Nat.mul_le_mul_right _ hle).trans p.most

/-- What is read and what is pending after a byte within the bounds. -/
def accept (p : Pending) (b : Byte) (hlow : p.low ≤ b.val) (hhigh : b.val ≤ p.high) :
    Str × Option Pending :=
  match hmore : p.more with
  | 0 => ([⟨p.next b, by simpa [hmore] using p.next_most hhigh⟩], none)
  | more + 1 =>
    ([], some
      { code := p.next b, more, low := 128, high := 191
        low_ge := le_rfl
        high_le := le_rfl
        least := by simpa [hmore, pow_succ', mul_assoc] using p.next_least hlow
        most := by
          have h := p.next_most hhigh
          rw [hmore, pow_succ', ← mul_assoc] at h
          calc (p.next b * 64 + (191 - 128) + 1) * 64 ^ more
              = (p.next b + 1) * 64 * 64 ^ more := by ring
            _ ≤ 0x110000 := h })

end Pending

/-- U+FFFD -/
def replacement : CodePoint := 0xFFFD

/-- The first byte of a character; `none` where no character begins so. -/
def lead (b : Byte) : Option Pending :=
  if h : 0xC2 ≤ b.val ∧ b.val ≤ 0xDF then
    some ⟨b.val - 0xC0, 0, 128, 191, by omega, by omega, by omega, by omega⟩
  else if b.val = 0xE0 then
    some ⟨0, 1, 0xA0, 191, by decide, by decide, by decide, by decide⟩
  else if b.val = 0xED then
    some ⟨13, 1, 128, 0x9F, by decide, by decide, by decide, by decide⟩
  else if h : 0xE1 ≤ b.val ∧ b.val ≤ 0xEF then
    some ⟨b.val - 0xE0, 1, 128, 191, by omega, by omega, by omega, by omega⟩
  else if b.val = 0xF0 then
    some ⟨0, 2, 0x90, 191, by decide, by decide, by decide, by decide⟩
  else if h : 0xF1 ≤ b.val ∧ b.val ≤ 0xF3 then
    some ⟨b.val - 0xF0, 2, 128, 191, by omega, by omega, by omega, by omega⟩
  else if b.val = 0xF4 then
    some ⟨4, 2, 128, 0x8F, by decide, by decide, by decide, by decide⟩
  else none

/-- A byte where no character is pending -/
def startByte (b : Byte) : Str × Option Pending :=
  if b.val < 128 then ([⟨b.val, by omega⟩], none)
  else
    match lead b with
    | some p => ([], some p)
    | none => ([replacement], none)

def decodeByte : Option Pending → Byte → Str × Option Pending
  | none, b => startByte b
  | some p, b =>
    if h : p.low ≤ b.val ∧ b.val ≤ p.high then p.accept b h.1 h.2
    else (replacement :: (startByte b).1, (startByte b).2)

def decodeFrom : Option Pending → List Byte → Str
  | none, [] => []
  | some _, [] => [replacement]
  | state, b :: rest => (decodeByte state b).1 ++ decodeFrom (decodeByte state b).2 rest

/-- `bytes.decode(errors="replace")` -/
def decodeReplace (s : List Byte) : Str := decodeFrom none s

/-! ## ASCII bytes -/

/-- The character of an ASCII byte -/
def asciiChar (b : Byte) : CodePoint := ⟨b.val, by omega⟩

theorem startByte_ascii {b : Byte} (h : b.val < 128) : startByte b = ([asciiChar b], none) := by
  rw [startByte, if_pos h]
  rfl

/-- An ASCII byte ends what is pending and stands for itself. -/
theorem decodeFrom_append_ascii (state : Option Pending) (u : List Byte) {b : Byte}
    (h : b.val < 128) (v : List Byte) :
    decodeFrom state (u ++ b :: v) = decodeFrom state u ++ asciiChar b :: decodeFrom none v := by
  induction u generalizing state with
  | nil =>
    cases state with
    | none => simp [decodeFrom, decodeByte, startByte_ascii h]
    | some p =>
      have hlow : ¬ (p.low ≤ b.val ∧ b.val ≤ p.high) := fun hle => by
        have := p.low_ge
        omega
      simp [decodeFrom, decodeByte, startByte_ascii h, hlow]
  | cons c u ih =>
    rw [List.cons_append, decodeFrom, decodeFrom, ih, List.append_assoc]

theorem startByte_mem {b : Byte} {c : CodePoint} (hc : c ∈ (startByte b).1) (h : c.val < 128) :
    c.val = b.val := by
  unfold startByte at hc
  split_ifs at hc
  · rw [List.mem_singleton.mp hc]
  · cases hlead : lead b with
    | some p => simp [hlead] at hc
    | none =>
      simp only [hlead, List.mem_singleton] at hc
      rw [hc] at h
      exact absurd h (by decide)

theorem accept_mem {p : Pending} {b : Byte} {hlow : p.low ≤ b.val} {hhigh : b.val ≤ p.high}
    {c : CodePoint} (hc : c ∈ (p.accept b hlow hhigh).1) : 128 ≤ c.val := by
  unfold Pending.accept at hc
  split at hc
  · rename_i hmore
    rw [List.mem_singleton.mp hc]
    simpa [hmore] using p.next_least hlow
  · simp at hc

theorem decodeByte_mem {state : Option Pending} {b : Byte} {c : CodePoint}
    (hc : c ∈ (decodeByte state b).1) (h : c.val < 128) : c.val = b.val := by
  cases state with
  | none => exact startByte_mem hc h
  | some p =>
    rw [decodeByte] at hc
    split_ifs at hc with hbounds
    · have := accept_mem hc
      omega
    · rcases List.mem_cons.mp hc with rfl | hc
      · exact absurd h (by decide)
      · exact startByte_mem hc h

/-- An ASCII character comes from its byte. -/
theorem decodeFrom_mem {state : Option Pending} {s : List Byte} {c : CodePoint}
    (hc : c ∈ decodeFrom state s) (h : c.val < 128) : ∃ b ∈ s, b.val = c.val := by
  induction s generalizing state with
  | nil =>
    cases state with
    | none => simp [decodeFrom] at hc
    | some p =>
      rw [List.mem_singleton.mp hc] at h
      exact absurd h (by decide)
  | cons b s ih =>
    rw [decodeFrom] at hc
    rcases List.mem_append.mp hc with hc | hc
    · exact ⟨b, List.mem_cons_self, (decodeByte_mem hc h).symm⟩
    · obtain ⟨d, hd, heq⟩ := ih hc
      exact ⟨d, List.mem_cons_of_mem _ hd, heq⟩

/-- Decoding keeps every ASCII byte. -/
theorem keeps_decodeReplace {b : Byte} (h : b.val < 128) :
    Keeps decodeReplace b (asciiChar b) where
  nil := rfl
  append u v := decodeFrom_append_ascii none u h v
  notMem u hu hmem := by
    obtain ⟨d, hd, heq⟩ := decodeFrom_mem hmem h
    exact hu (Fin.ext heq ▸ hd)

/-! ## Lengths -/

/-- A byte gives one character or leaves one pending. -/
theorem startByte_length (b : Byte) :
    (startByte b).1.length + (startByte b).2.toList.length = 1 := by
  unfold startByte
  split_ifs
  · rfl
  · cases lead b <;> rfl

theorem accept_length (p : Pending) (b : Byte) (hlow : p.low ≤ b.val) (hhigh : b.val ≤ p.high) :
    (p.accept b hlow hhigh).1.length + (p.accept b hlow hhigh).2.toList.length = 1 := by
  unfold Pending.accept
  split <;> rfl

theorem decodeByte_length (state : Option Pending) (b : Byte) :
    (decodeByte state b).1.length + (decodeByte state b).2.toList.length ≤
      state.toList.length + 1 := by
  cases state with
  | none => exact (startByte_length b).le
  | some p =>
    rw [decodeByte]
    split_ifs with h
    · rw [accept_length]
      exact Nat.le_add_left 1 _
    · have := startByte_length b
      simp only [List.length_cons, Option.toList_some, List.length_nil]
      omega

/-- Decoding makes no more characters than there are bytes. -/
theorem decodeFrom_length (state : Option Pending) (s : List Byte) :
    (decodeFrom state s).length ≤ state.toList.length + s.length := by
  induction s generalizing state with
  | nil => cases state <;> simp [decodeFrom]
  | cons b s ih =>
    have hbyte := decodeByte_length state b
    have hrest := ih (decodeByte state b).2
    rw [decodeFrom, List.length_append, List.length_cons]
    omega

theorem decodeByte_ne_nil (p : Pending) (b : Byte) (h : (decodeByte (some p) b).1 = []) :
    ∃ p', (decodeByte (some p) b).2 = some p' := by
  rw [decodeByte] at h ⊢
  split_ifs at h ⊢ with hbounds
  have hlength := accept_length p b hbounds.1 hbounds.2
  cases hstate : (p.accept b hbounds.1 hbounds.2).2 with
  | none => simp [h, hstate] at hlength
  | some p' => exact ⟨p', rfl⟩

/-- What is pending becomes at least one character. -/
theorem decodeFrom_pending_ne_nil (p : Pending) (s : List Byte) : decodeFrom (some p) s ≠ [] := by
  induction s generalizing p with
  | nil => simp [decodeFrom]
  | cons b s ih =>
    rw [decodeFrom]
    intro hnil
    obtain ⟨hbyte, hrest⟩ := List.append_eq_nil_iff.mp hnil
    obtain ⟨p', hp'⟩ := decodeByte_ne_nil p b hbyte
    rw [hp'] at hrest
    exact ih p' hrest

theorem decodeReplace_eq_nil (s : List Byte) (h : decodeReplace s = []) : s = [] := by
  cases s with
  | nil => rfl
  | cons b s =>
    rw [decodeReplace, decodeFrom] at h
    obtain ⟨hbyte, hrest⟩ := List.append_eq_nil_iff.mp h
    have hlength := startByte_length b
    cases hstate : (startByte b).2 with
    | none =>
      rw [show (startByte b).1 = [] from hbyte, hstate] at hlength
      simp at hlength
    | some p =>
      rw [show (decodeByte none b).2 = some p from hstate] at hrest
      exact absurd hrest (decodeFrom_pending_ne_nil p s)

/-! ## What was encoded -/

theorem accept_last {p : Pending} (hmore : p.more = 0) {b : Byte} (hlow : p.low ≤ b.val)
    (hhigh : b.val ≤ p.high) {c : CodePoint} (hc : c.val = p.next b) :
    p.accept b hlow hhigh = ([c], none) := by
  unfold Pending.accept
  split
  · exact Prod.ext (congrArg ([·]) (Fin.ext hc.symm)) rfl
  · rename_i heq
    rw [hmore] at heq
    cases heq

theorem accept_more {p : Pending} {more : ℕ} (hmore : p.more = more + 1) {b : Byte}
    (hlow : p.low ≤ b.val) (hhigh : b.val ≤ p.high) : ∃ q : Pending,
      p.accept b hlow hhigh = ([], some q) ∧ q.code = p.next b ∧ q.more = more ∧
        q.low = 128 ∧ q.high = 191 := by
  unfold Pending.accept
  split
  · rename_i heq
    rw [hmore] at heq
    cases heq
  · rename_i more' heq
    obtain rfl : more' = more := by omega
    exact ⟨_, rfl, rfl, rfl, rfl, rfl⟩

/-- A pending character with all its bytes -/
theorem decodeFrom_pending (p : Pending) (b : Byte) (tail rest : List Byte) (c : CodePoint)
    (hlow : p.low ≤ b.val) (hhigh : b.val ≤ p.high)
    (htail : ∀ d ∈ tail, 128 ≤ d.val ∧ d.val ≤ 191) (hlength : p.more = tail.length)
    (hc : c.val = (b :: tail).foldl (fun n d => n * 64 + (d.val - 128)) p.code) :
    decodeFrom (some p) (b :: (tail ++ rest)) = c :: decodeFrom none rest := by
  induction tail generalizing p b with
  | nil =>
    have hnext : c.val = p.next b := by
      unfold Pending.next
      simpa only [List.foldl_cons, List.foldl_nil] using hc
    rw [decodeFrom, decodeByte, dif_pos ⟨hlow, hhigh⟩, accept_last hlength hlow hhigh hnext]
    rfl
  | cons d tail ih =>
    obtain ⟨q, hq, hcode, hmore, hqlow, hqhigh⟩ := accept_more hlength hlow hhigh
    obtain ⟨hd, htail⟩ := List.forall_mem_cons.mp htail
    have hnext : c.val = (d :: tail).foldl (fun n d => n * 64 + (d.val - 128)) q.code := by
      rw [hc, hcode, List.foldl_cons]
      rfl
    rw [decodeFrom, decodeByte, dif_pos ⟨hlow, hhigh⟩, hq, List.nil_append]
    refine ih q d (hqlow ▸ hd.1) (hqhigh ▸ hd.2) htail hmore hnext

/-- The bytes of a character with a lead byte are read as that character. -/
theorem decodeFrom_lead {p : Pending} {first b : Byte} (hfirst : 128 ≤ first.val)
    (hlead : lead first = some p) (tail rest : List Byte) (c : CodePoint)
    (hlow : p.low ≤ b.val) (hhigh : b.val ≤ p.high)
    (htail : ∀ d ∈ tail, 128 ≤ d.val ∧ d.val ≤ 191) (hlength : p.more = tail.length)
    (hc : c.val = (b :: tail).foldl (fun n d => n * 64 + (d.val - 128)) p.code) :
    decodeFrom none (first :: b :: (tail ++ rest)) = c :: decodeFrom none rest := by
  rw [decodeFrom, decodeByte, startByte, if_neg (by omega), hlead]
  exact decodeFrom_pending p b tail rest c hlow hhigh htail hlength hc

theorem lead_two {b : Byte} (hlow : 0xC2 ≤ b.val) (hhigh : b.val ≤ 0xDF) : ∃ p, lead b = some p ∧
    p.code = b.val - 0xC0 ∧ p.more = 0 ∧ p.low = 128 ∧ p.high = 191 := by
  rw [lead, dif_pos ⟨hlow, hhigh⟩]
  exact ⟨_, rfl, rfl, rfl, rfl, rfl⟩

theorem lead_three {b : Byte} (hlow : 0xE0 ≤ b.val) (hhigh : b.val ≤ 0xEF) : ∃ p, lead b = some p ∧
    p.code = b.val - 0xE0 ∧ p.more = 1 ∧ p.low = (if b.val = 0xE0 then 0xA0 else 128) ∧
      p.high = if b.val = 0xED then 0x9F else 191 := by
  rw [lead, dif_neg (by omega)]
  by_cases hfirst : b.val = 0xE0
  · rw [if_pos hfirst]
    exact ⟨_, rfl, by simp [hfirst], rfl, by simp [hfirst], by simp [hfirst]⟩
  rw [if_neg hfirst]
  by_cases hsurrogates : b.val = 0xED
  · rw [if_pos hsurrogates]
    exact ⟨_, rfl, by simp [hsurrogates], rfl, by simp [hsurrogates], by simp [hsurrogates]⟩
  rw [if_neg hsurrogates, dif_pos (by omega)]
  exact ⟨_, rfl, rfl, rfl, by simp [hfirst], by simp [hsurrogates]⟩

theorem lead_four {b : Byte} (hlow : 0xF0 ≤ b.val) (hhigh : b.val ≤ 0xF4) : ∃ p, lead b = some p ∧
    p.code = b.val - 0xF0 ∧ p.more = 2 ∧ p.low = (if b.val = 0xF0 then 0x90 else 128) ∧
      p.high = if b.val = 0xF4 then 0x8F else 191 := by
  rw [lead, dif_neg (by omega), if_neg (by omega), if_neg (by omega), dif_neg (by omega)]
  by_cases hfirst : b.val = 0xF0
  · rw [if_pos hfirst]
    exact ⟨_, rfl, by simp [hfirst], rfl, by simp [hfirst], by simp [hfirst]⟩
  rw [if_neg hfirst]
  by_cases hlast : b.val = 0xF4
  · rw [dif_neg (by omega), if_pos hlast]
    exact ⟨_, rfl, by simp [hlast], rfl, by simp [hlast], by simp [hlast]⟩
  rw [dif_pos (by omega)]
  exact ⟨_, rfl, rfl, rfl, by simp [hfirst], by simp [hlast]⟩

/-- The character is no surrogate. -/
def Scalar (c : CodePoint) : Prop := ¬ (0xD800 ≤ c.val ∧ c.val < 0xE000)

theorem byte_val {n : ℕ} (h : n < 256) : (Fin.ofNat 256 n).val = n := by
  rw [Fin.val_ofNat, Nat.mod_eq_of_lt h]

theorem decodeFrom_utf8Char {c : CodePoint} (h : Scalar c) (rest : List Byte) :
    decodeFrom none (utf8Char c ++ rest) = c :: decodeFrom none rest := by
  have hlast := c.isLt
  unfold Scalar at h
  unfold utf8Char
  split_ifs with h1 h2 h3
  · have hval := byte_val (n := c.val) (by omega)
    rw [List.singleton_append, decodeFrom, decodeByte, startByte_ascii (by omega)]
    exact congrArg (· :: decodeFrom none rest) (Fin.ext hval)
  · have hfirst := byte_val (n := 0xC0 + c.val / 64) (by omega)
    have hsecond := byte_val (n := 0x80 + c.val % 64) (by omega)
    obtain ⟨p, hp, hcode, hmore, hplow, hphigh⟩ := lead_two
      (b := Fin.ofNat 256 (0xC0 + c.val / 64)) (by omega) (by omega)
    refine decodeFrom_lead (by omega) hp [] rest c (by omega) (by omega) (by simp) hmore ?_
    rw [List.foldl_cons, List.foldl_nil]
    omega
  · have hfirst := byte_val (n := 0xE0 + c.val / 4096) (by omega)
    have hsecond := byte_val (n := 0x80 + c.val / 64 % 64) (by omega)
    have hthird := byte_val (n := 0x80 + c.val % 64) (by omega)
    obtain ⟨p, hp, hcode, hmore, hplow, hphigh⟩ := lead_three
      (b := Fin.ofNat 256 (0xE0 + c.val / 4096)) (by omega) (by omega)
    have hlow : p.low ≤ (Fin.ofNat 256 (0x80 + c.val / 64 % 64)).val := by
      rw [hplow]
      split_ifs <;> omega
    have hhigh : (Fin.ofNat 256 (0x80 + c.val / 64 % 64)).val ≤ p.high := by
      rw [hphigh]
      split_ifs <;> omega
    refine decodeFrom_lead (by omega) hp [Fin.ofNat 256 (0x80 + c.val % 64)] rest c hlow hhigh
      ?_ hmore ?_
    · rw [List.forall_mem_singleton]
      omega
    · simp only [List.foldl_cons, List.foldl_nil]
      omega
  · have hfirst := byte_val (n := 0xF0 + c.val / 262144) (by omega)
    have hsecond := byte_val (n := 0x80 + c.val / 4096 % 64) (by omega)
    have hthird := byte_val (n := 0x80 + c.val / 64 % 64) (by omega)
    have hfourth := byte_val (n := 0x80 + c.val % 64) (by omega)
    obtain ⟨p, hp, hcode, hmore, hplow, hphigh⟩ := lead_four
      (b := Fin.ofNat 256 (0xF0 + c.val / 262144)) (by omega) (by omega)
    have hlow : p.low ≤ (Fin.ofNat 256 (0x80 + c.val / 4096 % 64)).val := by
      rw [hplow]
      split_ifs <;> omega
    have hhigh : (Fin.ofNat 256 (0x80 + c.val / 4096 % 64)).val ≤ p.high := by
      rw [hphigh]
      split_ifs <;> omega
    refine decodeFrom_lead (by omega) hp [Fin.ofNat 256 (0x80 + c.val / 64 % 64),
      Fin.ofNat 256 (0x80 + c.val % 64)] rest c hlow hhigh ?_ hmore ?_
    · intro d hd
      rcases List.mem_cons.mp hd with rfl | hd
      · omega
      · rw [List.mem_singleton.mp hd]
        omega
    · simp only [List.foldl_cons, List.foldl_nil]
      omega

/-- What was encoded decodes to what it was. -/
theorem decodeReplace_utf8 {s : Str} (h : encodable s = true) : decodeReplace (utf8 s) = s := by
  induction s with
  | nil => rfl
  | cons c s ih =>
    simp only [encodable, List.all_cons, Bool.and_eq_true] at h
    have hc : Scalar c := by
      intro hsurrogate
      simp [hsurrogate] at h
    have hrest := ih h.2
    rw [decodeReplace] at hrest ⊢
    rw [utf8, List.flatMap_cons, decodeFrom_utf8Char hc]
    exact congrArg (c :: ·) hrest

/-- A byte below 128 in an encoded character is the character. -/
theorem utf8Char_mem {c : CodePoint} {b : Byte} (hb : b ∈ utf8Char c) (h : b.val < 128) :
    asciiChar b = c := by
  have hlast := c.isLt
  unfold utf8Char at hb
  split_ifs at hb with h1 h2 h3
  · have hval := byte_val (n := c.val) (by omega)
    obtain rfl := List.mem_singleton.mp hb
    exact Fin.ext hval
  · have hfirst := byte_val (n := 0xC0 + c.val / 64) (by omega)
    have hsecond := byte_val (n := 0x80 + c.val % 64) (by omega)
    simp only [List.mem_cons, List.not_mem_nil, or_false] at hb
    rcases hb with rfl | rfl <;> omega
  · have hfirst := byte_val (n := 0xE0 + c.val / 4096) (by omega)
    have hsecond := byte_val (n := 0x80 + c.val / 64 % 64) (by omega)
    have hthird := byte_val (n := 0x80 + c.val % 64) (by omega)
    simp only [List.mem_cons, List.not_mem_nil, or_false] at hb
    rcases hb with rfl | rfl | rfl <;> omega
  · have hfirst := byte_val (n := 0xF0 + c.val / 262144) (by omega)
    have hsecond := byte_val (n := 0x80 + c.val / 4096 % 64) (by omega)
    have hthird := byte_val (n := 0x80 + c.val / 64 % 64) (by omega)
    have hfourth := byte_val (n := 0x80 + c.val % 64) (by omega)
    simp only [List.mem_cons, List.not_mem_nil, or_false] at hb
    rcases hb with rfl | rfl | rfl | rfl <;> omega

/-- An ASCII byte in what was encoded stands for a character of it. -/
theorem utf8_mem {s : Str} {b : Byte} (hb : b ∈ utf8 s) (h : b.val < 128) : asciiChar b ∈ s := by
  obtain ⟨c, hc, hbc⟩ := List.mem_flatMap.mp hb
  rwa [utf8Char_mem hbc h]

end Botnats
