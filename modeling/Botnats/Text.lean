import Mathlib.Tactic

/-!
# Strings, casemappings and IRC identities

A Python string is a list of code points, surrogates included: a string decoded
from JSON may hold them. The three casemapping tables of `irc/protocol.py` map
the letters, and for two of them some punctuation, to the code point 32 above,
so a table is given by the last code point it moves.
-/
namespace Botnats

abbrev CodePoint := Fin 0x110000

instance neZero_codePoints : NeZero 0x110000 := ⟨by decide⟩

instance lawfulBEq_codePoint : LawfulBEq CodePoint := inferInstance

abbrev Str := List CodePoint

instance lawfulBEq_str : LawfulBEq Str := inferInstance

theorem char_lt (c : Char) : c.toNat < 0x110000 := by
  have h := c.valid
  simp only [UInt32.isValidChar, Nat.isValidChar] at h
  simp only [Char.toNat]
  omega

/-- The string a literal of the source denotes. -/
def lit (s : String) : Str := s.toList.map fun c => ⟨c.toNat, char_lt c⟩

abbrev Byte := Fin 256

instance neZero_bytes : NeZero 256 := ⟨by decide⟩

/-- `str.encode` of a character that is not a surrogate. -/
def utf8Char (c : CodePoint) : List Byte :=
  if c.val < 0x80 then [Fin.ofNat 256 c.val]
  else if c.val < 0x800 then
    [Fin.ofNat 256 (0xC0 + c.val / 64), Fin.ofNat 256 (0x80 + c.val % 64)]
  else if c.val < 0x10000 then
    [Fin.ofNat 256 (0xE0 + c.val / 4096), Fin.ofNat 256 (0x80 + c.val / 64 % 64),
      Fin.ofNat 256 (0x80 + c.val % 64)]
  else
    [Fin.ofNat 256 (0xF0 + c.val / 262144), Fin.ofNat 256 (0x80 + c.val / 4096 % 64),
      Fin.ofNat 256 (0x80 + c.val / 64 % 64), Fin.ofNat 256 (0x80 + c.val % 64)]

def utf8 (s : Str) : List Byte := s.flatMap utf8Char

/-- `[0-9a-f]{n}`, matched in full. -/
def hexText (n : ℕ) (s : Str) : Bool :=
  s.length = n ∧ s.all fun c => decide (48 ≤ c.val ∧ c.val ≤ 57 ∨ 97 ≤ c.val ∧ c.val ≤ 102)

/-- `IDENTIFIER_RE`, matched in full. -/
def identifier (s : Str) : Bool :=
  !s.isEmpty && s.all fun c => decide (65 ≤ c.val ∧ c.val ≤ 90 ∨ 97 ≤ c.val ∧ c.val ≤ 122 ∨
    48 ≤ c.val ∧ c.val ≤ 57 ∨ c.val = 95 ∨ c.val = 45)

/-- The string encodes to UTF-8: it holds no surrogate. -/
def encodable (s : Str) : Bool := s.all fun c => !decide (0xD800 ≤ c.val ∧ c.val < 0xE000)

theorem encodable_append (s t : Str) :
    encodable (s ++ t) = (encodable s && encodable t) := List.all_append

def Ascii (s : Str) : Prop := ∀ c ∈ s, c.val < 128

theorem ascii_of_all {s : Str} (h : (s.all fun c => decide (c.val < 128)) = true) : Ascii s := by
  intro c hc
  exact of_decide_eq_true (List.all_eq_true.mp h c hc)

/-- An ASCII string is encoded character by character. -/
theorem utf8_injOn {s t : Str} (hs : Ascii s) (ht : Ascii t) (h : utf8 s = utf8 t) : s = t := by
  induction s generalizing t with
  | nil =>
    cases t with
    | nil => rfl
    | cons d t => simp [utf8, utf8Char, ht d List.mem_cons_self] at h
  | cons c s ih =>
    have hc := hs c List.mem_cons_self
    cases t with
    | nil => simp [utf8, utf8Char, hc] at h
    | cons d t =>
      have hd := ht d List.mem_cons_self
      simp only [utf8, List.flatMap_cons, utf8Char, hc, hd, if_true, List.singleton_append,
        List.cons.injEq] at h
      have hval : c.val = d.val := by
        have := congrArg Fin.val h.1
        rw [Fin.val_ofNat, Fin.val_ofNat] at this
        omega
      rw [Fin.ext hval, ih (fun x hx => hs x (List.mem_cons_of_mem c hx))
        (fun x hx => ht x (List.mem_cons_of_mem d hx)) h.2]

inductive Casemapping
  | ascii
  | rfc1459
  | strictRfc1459
  deriving DecidableEq, Repr

/-- `DEFAULT_CASEMAPPING` -/
def defaultCasemapping : Casemapping := .rfc1459

/-- The last code point the table moves: `Z`, `^` or `]`. -/
def Casemapping.last : Casemapping → ℕ
  | .ascii => 90
  | .rfc1459 => 94
  | .strictRfc1459 => 93

theorem Casemapping.last_bounds (m : Casemapping) : 90 ≤ m.last ∧ m.last ≤ 94 := by
  cases m <;> simp [Casemapping.last]

/-- One entry of a table of `CASEMAP_TABLES`. -/
def foldChar (m : Casemapping) (c : CodePoint) : CodePoint :=
  if h : 65 ≤ c.val ∧ c.val ≤ m.last then
    ⟨c.val + 32, by have := m.last_bounds; omega⟩
  else c

theorem foldChar_val (m : Casemapping) (c : CodePoint) :
    (foldChar m c).val = if 65 ≤ c.val ∧ c.val ≤ m.last then c.val + 32 else c.val := by
  unfold foldChar
  split_ifs <;> rfl

theorem foldChar_ascii_val (c : CodePoint) :
    (foldChar .ascii c).val = if 65 ≤ c.val ∧ c.val ≤ 90 then c.val + 32 else c.val :=
  foldChar_val .ascii c

/-- Every casemapping folds at least what ASCII folds. -/
@[simp] theorem foldChar_ascii (m : Casemapping) (c : CodePoint) :
    foldChar m (foldChar .ascii c) = foldChar m c := by
  have hm := m.last_bounds
  apply Fin.ext
  rw [foldChar_val m, foldChar_val m, foldChar_ascii_val]
  by_cases h : 65 ≤ c.val ∧ c.val ≤ 90
  · rw [if_pos h, if_neg (by omega), if_pos (by omega)]
  · rw [if_neg h]

/-- No casemapping moves a character to one that stands before `A`. -/
theorem foldChar_eq_iff (m : Casemapping) {sep : CodePoint} (hsep : sep.val < 65) (c : CodePoint) :
    foldChar m c = sep ↔ c = sep := by
  rw [Fin.ext_iff, Fin.ext_iff, foldChar_val]
  split_ifs <;> omega

@[simp] theorem foldChar_foldChar (m : Casemapping) (c : CodePoint) :
    foldChar m (foldChar m c) = foldChar m c := by
  have hm := m.last_bounds
  apply Fin.ext
  rw [foldChar_val m (foldChar m c), foldChar_val m c]
  split_ifs <;> omega

/-- `casefold` -/
def casefold (s : Str) (m : Casemapping) : Str := s.map (foldChar m)

@[simp] theorem casefold_ascii (m : Casemapping) (s : Str) :
    casefold (casefold s .ascii) m = casefold s m := by
  simp [casefold, Function.comp_def]

@[simp] theorem casefold_casefold (m : Casemapping) (s : Str) :
    casefold (casefold s m) m = casefold s m := by
  simp [casefold, Function.comp_def]

/-- `str.partition` on a one-character separator; `none` when it is absent. -/
def partition (sep : CodePoint) : Str → Str × Option Str
  | [] => ([], none)
  | c :: cs =>
    if c = sep then ([], some cs)
    else
      let rest := partition sep cs
      (c :: rest.1, rest.2)

def bang : CodePoint := 33

/-- A separator that a function neither makes nor moves splits the image of a string. -/
theorem partition_map {f : CodePoint → CodePoint} {sep : CodePoint}
    (hf : ∀ c, f c = sep ↔ c = sep) (s : Str) :
    partition sep (s.map f) = ((partition sep s).1.map f, (partition sep s).2.map (List.map f)) := by
  induction s with
  | nil => rfl
  | cons c s ih =>
    simp only [List.map_cons, partition, hf]
    split_ifs with hc
    · rfl
    · simp [ih]

theorem partition_append {sep : CodePoint} {u : Str} (h : sep ∉ u) (v : Str) :
    partition sep (u ++ sep :: v) = (u, some v) := by
  induction u with
  | nil => simp [partition]
  | cons c u ih =>
    obtain ⟨hc, hu⟩ := not_or.mp (mt List.mem_cons.mpr h)
    rw [List.cons_append, partition, if_neg (Ne.symm hc), ih hu]

/-- The cut is made at the first separator. -/
theorem of_partition {sep : CodePoint} {s u v : Str} (h : partition sep s = (u, some v)) :
    sep ∉ u ∧ s = u ++ sep :: v := by
  induction s generalizing u with
  | nil => simp [partition] at h
  | cons c s ih =>
    rw [partition] at h
    split_ifs at h with hc
    · obtain ⟨rfl, hv⟩ := Prod.mk.inj h
      rw [hc, Option.some.inj hv]
      exact ⟨List.not_mem_nil, rfl⟩
    · obtain ⟨rfl, hv⟩ := Prod.mk.inj h
      obtain ⟨hnot, hs⟩ := ih (Prod.ext rfl hv)
      refine ⟨?_, congrArg (c :: ·) hs⟩
      rw [List.mem_cons, not_or]
      exact ⟨Ne.symm hc, hnot⟩

theorem partition_casefold (s : Str) :
    partition bang (casefold s .ascii) =
      (casefold (partition bang s).1 .ascii,
        (partition bang s).2.map fun rest => casefold rest .ascii) :=
  partition_map (foldChar_eq_iff .ascii (show bang.val < 65 by decide)) s

/-- `ISupportState.fold_identity`: the nick by the server's casemapping, the
rest of the identity by ASCII. -/
def foldIdentity (m : Casemapping) (identity : Str) : Str :=
  match partition bang identity with
  | (nick, none) => casefold nick m
  | (nick, some rest) => casefold nick m ++ bang :: casefold rest .ascii

/-- Identities under one durable key are one identity under every casemapping. -/
@[simp] theorem foldIdentity_casefold (m : Casemapping) (s : Str) :
    foldIdentity m (casefold s .ascii) = foldIdentity m s := by
  unfold foldIdentity
  rw [partition_casefold]
  rcases partition bang s with ⟨nick, _ | rest⟩ <;> simp

theorem foldIdentity_congr (m : Casemapping) {s t : Str}
    (h : casefold s .ascii = casefold t .ascii) : foldIdentity m s = foldIdentity m t := by
  rw [← foldIdentity_casefold, h, foldIdentity_casefold]

/-- Decomposed `nick!user@host` identity. -/
structure Prefix where
  nick : Str
  user : Option Str := none
  host : Option Str := none
  deriving DecidableEq, Repr

namespace Prefix

def complete (p : Prefix) : Bool := p.user.isSome && p.host.isSome

/-- `Prefix.render`; an incomplete prefix renders as its nick. -/
def render (p : Prefix) : Str :=
  match p.user, p.host with
  | some user, some host => p.nick ++ bang :: user ++ 64 :: host
  | _, _ => p.nick

end Prefix

end Botnats
