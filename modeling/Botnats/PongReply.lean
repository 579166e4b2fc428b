import Botnats.IrcLines
import Mathlib.Data.List.DropRight

/-!
# The reply to a PING

`pong_reply` takes a line apart once more, as bytes. It agrees with `parse_message` on the
lines that do not begin with a space, and its reply is no longer than the line unless the
line ends without a carriage return and has nothing to spare.
-/
namespace Botnats

open Splitting

/-- `PONG` -/
def pongWord : List Byte := [80, 79, 78, 71]

/-- What `pong_reply` leaves of a line that begins with the mark: what stands after the
first space, without the spaces at its head. -/
def dropMarked (mark : Byte) (rest : List Byte) : List Byte :=
  if rest.head? = some mark then ((cutAt 32 rest).2.getD []).dropWhile (· = 32) else rest

/-- `pong_reply` -/
def pongReply (line : List Byte) : List Byte :=
  let rest := dropMarked 58 (dropMarked 64 (line.rdropWhile fun b => b = 13 ∨ b = 10))
  let (head, trailing) := cutPair 32 58 rest
  let tokens := (head.splitOn 32).tail.filter (· ≠ [])
  let reply := [32].intercalate (pongWord :: tokens)
  match trailing with
  | some trailing => reply ++ [32, 58] ++ trailing ++ [13, 10]
  | none => reply ++ [13, 10]

/-! ## The bytes that a message was parsed from -/

/-- The line without its end -/
def lineBody (raw : List Byte) : List Byte := dropEnd 13 (dropEnd 10 raw)

/-- The parameters that `parse_message` reads, as they stand in the line -/
def rawParams (raw : List Byte) : Option (List (List Byte)) :=
  match splitMessage 64 58 32 (lineBody raw) with
  | .ok parts => some parts.allParams
  | .error _ => none

theorem asciiChar_keeps (b : Byte) (h : b.val < 128) : Keeps decodeReplace b (asciiChar b) :=
  keeps_decodeReplace h

theorem splitMessage_decode (body : List Byte) :
    splitMessage 64 58 32 (decodeReplace body) =
      (splitMessage 64 58 32 body).map (MessageParts.map decodeReplace) :=
  splitMessage_map (asciiChar_keeps 64 (by decide)) (asciiChar_keeps 58 (by decide))
    (asciiChar_keeps 32 (by decide)) decodeReplace_eq_nil body

theorem lineBody_decode (raw : List Byte) :
    dropEnd 13 (dropEnd 10 (decodeReplace raw)) = decodeReplace (lineBody raw) := by
  have hlf := (asciiChar_keeps 10 (by decide)).dropEnd decodeReplace_eq_nil raw
  have hcr := (asciiChar_keeps 13 (by decide)).dropEnd decodeReplace_eq_nil (dropEnd 10 raw)
  rw [lineBody, ← hcr]
  exact congrArg (dropEnd 13) hlf

/-- What an accepted line was parsed from -/
structure ParsedFrom (u : UpperCase) (raw : List Byte) (m : IRCMessage)
    (parts : MessageParts Byte) : Prop where
  control : ∀ b ∈ lineBody raw, b ≠ 13 ∧ b ≠ 10 ∧ b ≠ 0
  split : splitMessage 64 58 32 (lineBody raw) = .ok parts
  command : m.command = u.upper (decodeReplace parts.command)
  params : m.params = parts.allParams.map decodeReplace
  ircPrefix : m.ircPrefix = (parts.ircPrefix.map decodeReplace).map Prefix.parse

theorem parseMessage_decode_iff {u : UpperCase} {raw : List Byte} {m : IRCMessage} :
    parseMessage u (decodeReplace raw) = .ok m ↔ ∃ parts, ParsedFrom u raw m parts := by
  have hcontrol : ((decodeReplace (lineBody raw)).any fun c => illegalTrailingChars.contains c) =
      true ↔ 0 ∈ lineBody raw ∨ 13 ∈ lineBody raw ∨ 10 ∈ lineBody raw := by
    rw [← (asciiChar_keeps 0 (by decide)).mem_iff, ← (asciiChar_keeps 13 (by decide)).mem_iff,
      ← (asciiChar_keeps 10 (by decide)).mem_iff, List.any_eq_true]
    constructor
    · rintro ⟨c, hc, hbad⟩
      have hcases := List.contains_iff_mem.mp hbad
      simp only [illegalTrailingChars, List.mem_cons, List.not_mem_nil, or_false] at hcases
      rcases hcases with rfl | rfl | rfl
      · exact .inl hc
      · exact .inr (.inl hc)
      · exact .inr (.inr hc)
    · rintro (hc | hc | hc) <;> exact ⟨_, hc, by decide⟩
  rw [parseMessage, lineBody_decode, splitMessage_decode]
  by_cases hbad : 0 ∈ lineBody raw ∨ 13 ∈ lineBody raw ∨ 10 ∈ lineBody raw
  · rw [if_pos (hcontrol.mpr hbad)]
    constructor
    · intro h
      cases h
    · rintro ⟨parts, h⟩
      rcases hbad with hb | hb | hb
      · exact absurd rfl (h.control 0 hb).2.2
      · exact absurd rfl (h.control 13 hb).1
      · exact absurd rfl (h.control 10 hb).2.1
  rw [if_neg fun h => hbad (hcontrol.mp h)]
  cases hsplit : splitMessage 64 58 32 (lineBody raw) with
  | error e =>
    constructor
    · intro h
      cases h
    · rintro ⟨parts, h⟩
      rw [h.split] at hsplit
      cases hsplit
  | ok parts =>
    have hgood : ∀ b ∈ lineBody raw, b ≠ 13 ∧ b ≠ 10 ∧ b ≠ 0 := by
      intro b hb
      refine ⟨?_, ?_, ?_⟩
      · rintro rfl
        exact hbad (.inr (.inl hb))
      · rintro rfl
        exact hbad (.inr (.inr hb))
      · rintro rfl
        exact hbad (.inl hb)
    have hparams : (parts.map decodeReplace).allParams = parts.allParams.map decodeReplace := by
      cases htrailing : parts.trailing <;> simp [MessageParts.map, MessageParts.allParams, htrailing]
    constructor
    · intro h
      obtain rfl := Except.ok.inj h
      exact ⟨parts, hgood, hsplit, rfl, hparams, rfl⟩
    · rintro ⟨parts', h⟩
      obtain rfl : parts' = parts := Except.ok.inj (h.split.symm.trans hsplit)
      have hm : m = ⟨m.command, m.params, m.ircPrefix⟩ := rfl
      rw [hm, h.command, h.params, h.ircPrefix, ← hparams]
      rfl

/-! ## The line taken apart as bytes -/

/-- An accepted line is its body with either end. -/
theorem ParsedFrom.ending {u : UpperCase} {raw : List Byte} {m : IRCMessage}
    {parts : MessageParts Byte} (h : ParsedFrom u raw m parts) (hlast : raw.getLast? = some 10) :
    raw = lineBody raw ++ (if raw.dropLast.getLast? = some 13 then [13, 10] else [10]) ∧
      raw.rdropWhile (fun b => b = 13 ∨ b = 10) = lineBody raw := by
  obtain ⟨init, rfl⟩ := List.getLast?_eq_some_iff.mp hlast
  have hinit : (init ++ [10]).dropLast = init := List.dropLast_concat
  have hbody : lineBody (init ++ [10]) = dropEnd 13 init := by
    rw [lineBody, dropEnd_append]
  have hraw : init ++ [10] = lineBody (init ++ [10]) ++
      (if init.getLast? = some 13 then [13, 10] else [10]) := by
    rw [hbody, dropEnd]
    split_ifs with hcr
    · obtain ⟨before, rfl⟩ := List.getLast?_eq_some_iff.mp hcr
      simp
    · rfl
  rw [hinit]
  refine ⟨hraw, ?_⟩
  have hstrip : ∀ ending : List Byte, (∀ b ∈ ending, b = 13 ∨ b = 10) →
      (lineBody (init ++ [10]) ++ ending).rdropWhile (fun b => b = 13 ∨ b = 10) =
        lineBody (init ++ [10]) := by
    intro ending hending
    rw [List.rdropWhile, List.reverse_append, List.dropWhile_append_of_pos, ← List.rdropWhile]
    · refine List.rdropWhile_eq_self_iff.mpr fun hne hbad => ?_
      obtain ⟨hcr, hlf, -⟩ := h.control _ (List.getLast_mem hne)
      rcases of_decide_eq_true hbad with heq | heq
      · exact hcr heq
      · exact hlf heq
    · intro b hb
      exact decide_eq_true (hending b (List.mem_reverse.mp hb))
  rw [hraw, hstrip]
  · rw [← hraw]
  · intro b hb
    split_ifs at hb with hcr <;> simp only [List.mem_cons, List.not_mem_nil, or_false] at hb
    · exact hb
    · exact .inr hb

/-- The body of an accepted line is not empty, so it begins as the line does. -/
theorem ParsedFrom.head {u : UpperCase} {raw : List Byte} {m : IRCMessage}
    {parts : MessageParts Byte} (h : ParsedFrom u raw m parts) (hlast : raw.getLast? = some 10) :
    raw.head? = (lineBody raw).head? := by
  have hbody : lineBody raw ≠ [] := by
    intro hnil
    have hsplit := h.split
    rw [hnil] at hsplit
    cases hsplit
  conv_lhs => rw [(h.ending hlast).1]
  exact List.head?_append_of_ne_nil _ hbody

/-- Spaces at the head of what holds words do not matter. -/
theorem cutPair_dropWhile {rest : List Byte} (hwords : wordsOf 32 (cutPair 32 58 rest).1 ≠ []) :
    wordsOf 32 (cutPair 32 58 (rest.dropWhile (· = 32))).1 = wordsOf 32 (cutPair 32 58 rest).1 ∧
      (cutPair 32 58 (rest.dropWhile (· = 32))).2 = (cutPair 32 58 rest).2 ∧
      (rest.head? ≠ some 58 → (rest.dropWhile (· = 32)).head? ≠ some 58) := by
  induction rest with
  | nil => exact ⟨rfl, rfl, id⟩
  | cons c rest ih =>
    by_cases hc : c = 32
    · subst hc
      have hnext : rest.head? ≠ some 58 := by
        intro heq
        obtain ⟨t, rfl⟩ := List.head?_eq_some_iff.mp heq
        rw [cutPair_pair] at hwords
        exact hwords rfl
      have hskip : wordsOf 32 (32 :: (cutPair 32 58 rest).1) = wordsOf 32 (cutPair 32 58 rest).1 := by
        rw [wordsOf, splitOn_sep]
        rfl
      rw [cutPair_cons_of_head hnext, hskip] at hwords ⊢
      rw [List.dropWhile_cons_of_pos (by simp)]
      obtain ⟨hsame, htrailing, hhead⟩ := ih hwords
      exact ⟨hsame, htrailing, fun _ => hhead hnext⟩
    · rw [List.dropWhile_cons_of_neg (by simpa using hc)]
      exact ⟨rfl, rfl, id⟩

/-- What `pong_reply` looks for tokens in, beside what `parse_message` made of the body -/
structure PongRest (body rest : List Byte) (parts : MessageParts Byte) : Prop where
  head : rest.head? ≠ some 32
  words : wordsOf 32 (cutPair 32 58 rest).1 = parts.command :: parts.params
  trailing : (cutPair 32 58 rest).2 = parts.trailing
  suffix : rest <:+ body
  marked : body.head? = some 64 ∨ body.head? = some 58 → rest.length < body.length
  unmarked : body.head? ≠ some 64 → body.head? ≠ some 58 → rest = body

theorem head_dropWhile_ne (rest : List Byte) : (rest.dropWhile (· = 32)).head? ≠ some 32 := by
  intro heq
  have hhead := List.head?_dropWhile_not (fun b : Byte => decide (b = 32)) rest
  rw [heq] at hhead
  simp at hhead

theorem dropWhile_eq_self {rest : List Byte} (h : rest.head? ≠ some 32) :
    rest.dropWhile (· = 32) = rest := by
  cases rest with
  | nil => rfl
  | cons c rest => rw [List.dropWhile_cons_of_neg (by simpa using h)]

/-- Tags are dropped as `parse_message` drops them, with the spaces after them. -/
theorem dropMarked_tags {body rest : List Byte} (h : dropTags 64 32 body = some rest)
    (hhead : body.head? ≠ some 32) : dropMarked 64 body = rest.dropWhile (· = 32) ∧ rest <:+ body ∧
      (body.head? = some 64 → rest.length < body.length) ∧
      (body.head? ≠ some 64 → rest = body) := by
  rw [dropTags] at h
  by_cases htag : body.head? = some 64
  · rw [if_pos htag] at h
    have hbody := cutAt_spec (Prod.ext rfl h : cutAt 32 body = ((cutAt 32 body).1, some rest))
    have hsuffix : rest <:+ body := ⟨(cutAt 32 body).1 ++ [32], by rw [List.append_assoc]; exact hbody.symm⟩
    refine ⟨by rw [dropMarked, if_pos htag, h]; rfl, hsuffix, fun _ => ?_, fun hne => absurd htag hne⟩
    have hlength := congrArg List.length hbody
    simp only [List.length_append, List.length_cons] at hlength
    omega
  · rw [if_neg htag] at h
    obtain rfl := Option.some.inj h
    refine ⟨?_, List.suffix_refl _, fun heq => absurd heq htag, fun _ => rfl⟩
    rw [dropMarked, if_neg htag, dropWhile_eq_self hhead]

/-- So is the prefix, whether or not the spaces before it were dropped. -/
theorem dropMarked_prefix {rest rest' : List Byte} {ircPrefix : Option (List Byte)}
    (h : takePrefix 58 32 rest = some (ircPrefix, rest'))
    (hwords : wordsOf 32 (cutPair 32 58 rest').1 ≠ []) :
    dropMarked 58 (rest.dropWhile (· = 32)) = rest'.dropWhile (· = 32) ∧ rest' <:+ rest ∧
      (rest.head? = some 58 → rest'.length < rest.length) ∧
      (rest.head? ≠ some 58 → rest' = rest) := by
  rw [takePrefix] at h
  by_cases hmark : rest.head? = some 58
  · rw [if_pos hmark] at h
    obtain ⟨t, rfl⟩ := List.head?_eq_some_iff.mp hmark
    rw [List.tail_cons] at h
    cases hcut : cutAt 32 t with
    | mk rawPrefix after =>
      rw [hcut] at h
      cases after with
      | none => cases h
      | some after =>
        obtain rfl : after = rest' := (Prod.mk.inj (Option.some.inj h)).2
        have ht := cutAt_spec hcut
        have hsame : (cutAt 32 (58 :: t)).2 = some after := by
          rw [cutAt, if_neg (by decide), hcut]
        refine ⟨?_, ⟨58 :: rawPrefix ++ [32], by rw [ht]; simp⟩, fun _ => ?_,
          fun hne => absurd hmark hne⟩
        · rw [dropWhile_eq_self (by simp), dropMarked, if_pos hmark, hsame]
          rfl
        · have hlength := congrArg List.length ht
          simp only [List.length_append, List.length_cons] at hlength ⊢
          omega
  · rw [if_neg hmark] at h
    obtain rfl := (Prod.mk.inj (Option.some.inj h)).2
    refine ⟨?_, List.suffix_refl _, fun heq => absurd heq hmark, fun _ => rfl⟩
    rw [dropMarked, if_neg ((cutPair_dropWhile hwords).2.2 hmark)]

theorem splitMessage_eq_ok {body : List Byte} {parts : MessageParts Byte}
    (h : splitMessage 64 58 32 body = .ok parts) : ∃ rest rest', dropTags 64 32 body = some rest ∧
      takePrefix 58 32 rest = some (parts.ircPrefix, rest') ∧
      wordsOf 32 (cutPair 32 58 rest').1 = parts.command :: parts.params ∧
      (cutPair 32 58 rest').2 = parts.trailing := by
  unfold splitMessage at h
  cases htags : dropTags 64 32 body with
  | none => simp [htags] at h
  | some rest =>
    rw [htags] at h
    dsimp only at h
    cases hsource : takePrefix 58 32 rest with
    | none => simp [hsource] at h
    | some e =>
      obtain ⟨ircPrefix, rest'⟩ := e
      rw [hsource] at h
      dsimp only at h
      cases hwords : wordsOf 32 (cutPair 32 58 rest').1 with
      | nil => simp [hwords] at h
      | cons command params =>
        rw [hwords] at h
        obtain rfl := Except.ok.inj h
        exact ⟨rest, rest', rfl, hsource, hwords, rfl⟩

theorem pongRest {body : List Byte} {parts : MessageParts Byte}
    (h : splitMessage 64 58 32 body = .ok parts) (hhead : body.head? ≠ some 32) :
    PongRest body (dropMarked 58 (dropMarked 64 body)) parts := by
  obtain ⟨rest, rest', htags, hsource, hwords, htrailing⟩ := splitMessage_eq_ok h
  have hne : wordsOf 32 (cutPair 32 58 rest').1 ≠ [] := by
    rw [hwords]
    exact List.cons_ne_nil _ _
  obtain ⟨htagged, htagSuffix, htagLength, htagNone⟩ := dropMarked_tags htags hhead
  obtain ⟨hprefixed, hsuffix, hlength, hnone⟩ := dropMarked_prefix hsource hne
  obtain ⟨hsame, hsameTrailing, -⟩ := cutPair_dropWhile hne
  have hdropped : (rest'.dropWhile (· = 32)).length ≤ rest'.length :=
    (List.dropWhile_sublist _).length_le
  have hle := hsuffix.length_le
  have htagLe := htagSuffix.length_le
  rw [htagged, hprefixed]
  refine ⟨head_dropWhile_ne rest', hsame.trans hwords, hsameTrailing.trans htrailing,
    ((List.dropWhile_suffix _).trans hsuffix).trans htagSuffix, fun hmark => ?_, fun htag hcolon => ?_⟩
  · rcases hmark with htag | hcolon
    · have := htagLength htag
      omega
    · obtain rfl := htagNone (by rw [hcolon]; decide)
      have := hlength hcolon
      omega
  · obtain rfl := htagNone htag
    obtain rfl := hnone hcolon
    exact dropWhile_eq_self hhead

/-! ## The reply -/

/-- The tokens that `pong_reply` repeats -/
def pongTokens (rest : List Byte) : List (List Byte) :=
  ((cutPair 32 58 rest).1.splitOn 32).tail.filter (· ≠ [])

theorem pongReply_eq {raw body : List Byte}
    (h : raw.rdropWhile (fun b => b = 13 ∨ b = 10) = body) :
    pongReply raw = joinMessage 58 32
      (pongWord :: pongTokens (dropMarked 58 (dropMarked 64 body)))
      (cutPair 32 58 (dropMarked 58 (dropMarked 64 body))).2 ++ [13, 10] := by
  rw [pongReply, h, joinMessage]
  unfold pongTokens
  cases hcut : cutPair 32 58 (dropMarked 58 (dropMarked 64 body)) with
  | mk head trailing =>
    cases trailing with
    | none => simp
    | some trailing => simp

/-- The first piece is the command, unless a space stands first. -/
theorem pongTokens_of_head {rest : List Byte} {command : List Byte} {params : List (List Byte)}
    (hhead : rest.head? ≠ some 32)
    (hwords : wordsOf 32 (cutPair 32 58 rest).1 = command :: params) :
    pongTokens rest = params ∧ ((cutPair 32 58 rest).1.splitOn 32).head? = some command := by
  cases rest with
  | nil => cases hwords
  | cons c rest =>
    have hc : c ≠ 32 := by simpa using hhead
    obtain ⟨w, ws, hsplit⟩ := splitOn_head hc (cutPair 32 58 rest).1
    have hpieces : (cutPair 32 58 (c :: rest)).1.splitOn 32 = (c :: w) :: ws := by
      rw [cutPair_cons_of_ne hc]
      exact hsplit
    rw [wordsOf, hpieces, List.filter_cons_of_pos (by simp)] at hwords
    obtain ⟨hcommand, hparams⟩ := List.cons.inj hwords
    rw [pongTokens, hpieces, ← hcommand, ← hparams]
    exact ⟨rfl, rfl⟩

theorem pongTokens_of_space {rest : List Byte} (hwords : wordsOf 32 (cutPair 32 58 rest).1 ≠ [])
    (hhead : rest.head? = some 32) : pongTokens rest = wordsOf 32 (cutPair 32 58 rest).1 := by
  obtain ⟨t, rfl⟩ := List.head?_eq_some_iff.mp hhead
  have hnext : t.head? ≠ some 58 := by
    intro heq
    obtain ⟨t', rfl⟩ := List.head?_eq_some_iff.mp heq
    rw [cutPair_pair] at hwords
    exact hwords rfl
  rw [pongTokens, wordsOf, cutPair_cons_of_head hnext, splitOn_sep]
  rfl

/-- Tokens can stand in a line as parameters. -/
theorem pongTokens_spec (rest : List Byte) : ∀ w ∈ pongTokens rest,
    w ≠ [] ∧ (32 : Byte) ∉ w ∧ w.head? ≠ some 58 ∧ ∀ b ∈ w, b ∈ rest := by
  intro w hw
  obtain ⟨htail, hne⟩ := List.mem_filter.mp hw
  have hpiece := splitOn_pieces 32 (cutPair 32 58 rest).1 w (List.mem_of_mem_tail htail)
  have hhead := splitOn_tail_heads (congrArg Prod.snd (cutPair_fst 32 58 rest)) w htail
  refine ⟨by simpa using hne, hpiece.1, hhead, fun b hb => ?_⟩
  rw [cutPair_spec 32 58 rest]
  exact List.mem_append_left _ (hpiece.2 b hb)

/-- The reply splits into `PONG`, the tokens and the trailing bytes. -/
theorem splitMessage_reply (rest : List Byte) :
    splitMessage 64 58 32 (joinMessage 58 32 (pongWord :: pongTokens rest)
      (cutPair 32 58 rest).2) =
      .ok ⟨none, pongWord, pongTokens rest, (cutPair 32 58 rest).2⟩ := by
  refine splitMessage_joinMessage ?_ (fun w hw => (pongTokens_spec rest w hw).2.2.1)
    (by decide) (by decide)
  intro w hw
  rcases List.mem_cons.mp hw with rfl | hw
  · exact ⟨by decide, by decide⟩
  · exact ⟨(pongTokens_spec rest w hw).1, (pongTokens_spec rest w hw).2.1⟩

theorem lineBody_crlf (body : List Byte) : lineBody (body ++ [13, 10]) = body := by
  rw [lineBody, show body ++ [13, 10] = (body ++ [13]) ++ [10] by simp, dropEnd_append,
    dropEnd_append]

/-- The reply holds no bytes beyond `PONG`, the marks and those of the line. -/
theorem mem_reply {rest : List Byte} {b : Byte}
    (hb : b ∈ joinMessage 58 32 (pongWord :: pongTokens rest) (cutPair 32 58 rest).2) :
    b ∈ rest ∨ 32 ≤ b.val := by
  rw [joinMessage] at hb
  rcases List.mem_append.mp hb with hb | hb
  · rcases mem_intercalate hb with rfl | ⟨w, hw, hbw⟩
    · exact .inr (by decide)
    · rcases List.mem_cons.mp hw with rfl | hw
      · have hpong : ∀ b ∈ pongWord, 32 ≤ b.val := by simp [pongWord]
        exact .inr (hpong b hbw)
      · exact .inl ((pongTokens_spec rest w hw).2.2.2 b hbw)
  · cases htrailing : (cutPair 32 58 rest).2 with
    | none => simp [htrailing] at hb
    | some t =>
      have hspec := cutPair_spec 32 58 rest
      rw [htrailing, Option.map_some, Option.getD_some] at hb hspec
      rw [hspec]
      exact .inl (List.mem_append_right _ hb)

/-- What the bytes of the reply are worth: it is a line ending in CRLF that parses to a PONG
with the parameters, which stand in it as in the line, and it is no longer. -/
structure Echoes (u : UpperCase) (raw : List Byte) (params : List Str) : Prop where
  line : ∃ body, pongReply raw = body ++ [13, 10]
  parses : parseMessage u (decodeReplace (pongReply raw)) = .ok ⟨lit "PONG", params, none⟩
  bytes : ∃ bs, rawParams raw = some bs ∧ rawParams (pongReply raw) = some bs ∧
    params = bs.map decodeReplace
  length : (pongReply raw).length ≤ raw.length

/-- A line without a carriage return that spares no byte: no tags, no prefix, one space
between words and none behind them, and a command of four bytes -/
def Bare (raw : List Byte) : Prop :=
  raw.dropLast.getLast? ≠ some 13 ∧ raw.head? ≠ some 64 ∧ raw.head? ≠ some 58 ∧
    [] ∉ (cutPair 32 58 raw.dropLast).1.splitOn 32 ∧
    (((cutPair 32 58 raw.dropLast).1.splitOn 32).head?.map List.length) = some 4

/-- Only four characters have the upper case `PING`. -/
theorem UpperCase.length_of_ping (u : UpperCase) {s : Str} (h : u.upper s = lit "PING") :
    s.length = 4 := by
  have hone : ∀ c ∈ s, (u.char c).length = 1 := by
    intro c hc
    by_contra hne
    obtain ⟨d, hd, hcases⟩ := u.several c hne
    have hmem : d ∈ lit "PING" := h ▸ List.mem_flatMap.mpr ⟨c, hc, hd⟩
    have hnone : ∀ d ∈ lit "PING", ¬ (d = 70 ∨ d = 83 ∨ 128 ≤ d.val) := by
      intro d hd
      simp only [show lit "PING" = [80, 73, 78, 71] from rfl, List.mem_cons, List.not_mem_nil,
        or_false] at hd
      rcases hd with rfl | rfl | rfl | rfl <;> decide
    exact hnone d hmem hcases
  have hlength : (u.upper s).length = s.length := by
    rw [UpperCase.upper, List.length_flatMap, List.map_congr_left hone]
    simp
  rw [← hlength, h]
  rfl

theorem length_joinMessage (words : List (List Byte)) (hwords : words ≠ [])
    (trailing : Option (List Byte)) : (joinMessage 58 32 words trailing).length + 1 =
      (words.map fun w => w.length + 1).sum +
        ((trailing.map fun t => (32 : Byte) :: 58 :: t).getD []).length := by
  have h : ([(32 : Byte)].intercalate words).length + 1 =
      (words.map fun w => w.length + 1).sum := length_intercalate hwords
  rw [joinMessage, List.length_append]
  omega

/-- The bytes that the reply has more than the line, put on both sides -/
theorem pongReply_length {body rest : List Byte} {parts : MessageParts Byte}
    (h : PongRest body rest parts) :
    (joinMessage 58 32 (pongWord :: parts.params) parts.trailing).length + parts.command.length +
        ((cutPair 32 58 rest).1.splitOn 32).countP (· = []) = rest.length + 4 := by
  have hreply := length_joinMessage (pongWord :: parts.params) (List.cons_ne_nil _ _) parts.trailing
  have hpieces := sum_wordsOf 32 (cutPair 32 58 rest).1
  have hrest := congrArg List.length (cutPair_spec 32 58 rest)
  rw [h.words, List.map_cons, List.sum_cons] at hpieces
  rw [List.map_cons, List.sum_cons] at hreply
  rw [List.length_append, h.trailing] at hrest
  have hpong : pongWord.length = 4 := rfl
  omega

section Reply

variable {u : UpperCase} {raw : List Byte} {m : IRCMessage} {parts : MessageParts Byte}

theorem ParsedFrom.rawParams (h : ParsedFrom u raw m parts) :
    rawParams raw = some parts.allParams := by
  rw [Botnats.rawParams, h.split]

/-- A line that begins with a space has its command repeated. -/
theorem not_echoes_of_space (h : ParsedFrom u raw m parts) (hlast : raw.getLast? = some 10)
    (hspace : (lineBody raw).head? = some 32) : ¬ Echoes u raw m.params := by
  intro hechoes
  obtain ⟨rest, rest', htags, hsource, hwords, htrailing⟩ := splitMessage_eq_ok h.split
  obtain rfl : lineBody raw = rest := by
    rw [dropTags, if_neg (by rw [hspace]; decide)] at htags
    exact Option.some.inj htags
  obtain rfl : lineBody raw = rest' := by
    rw [takePrefix, if_neg (by rw [hspace]; decide)] at hsource
    exact (Prod.mk.inj (Option.some.inj hsource)).2
  have hdropped : dropMarked 58 (dropMarked 64 (lineBody raw)) = lineBody raw := by
    have hkept : ∀ mark : Byte, mark ≠ 32 → dropMarked mark (lineBody raw) = lineBody raw := by
      intro mark hmark
      rw [dropMarked, if_neg (by rw [hspace]; simpa using hmark.symm)]
    rw [hkept 64 (by decide), hkept 58 (by decide)]
  have htokens : pongTokens (lineBody raw) = parts.command :: parts.params := by
    rw [pongTokens_of_space (by rw [hwords]; exact List.cons_ne_nil _ _) hspace, hwords]
  obtain ⟨bs, hraw, hbytes, -⟩ := hechoes.bytes
  rw [h.rawParams] at hraw
  rw [← hraw, pongReply_eq (h.ending hlast).2, hdropped, Botnats.rawParams, lineBody_crlf,
    splitMessage_reply, htokens] at hbytes
  have hlength := congrArg List.length (Option.some.inj hbytes)
  simp only [MessageParts.allParams, htrailing, List.length_append, List.length_cons] at hlength
  omega

/-- Any other line has its parameters repeated. -/
theorem reply_parses (h : ParsedFrom u raw m parts) (hlast : raw.getLast? = some 10)
    (hspace : (lineBody raw).head? ≠ some 32) :
    pongReply raw = joinMessage 58 32 (pongWord :: parts.params) parts.trailing ++ [13, 10] ∧
    parseMessage u (decodeReplace (pongReply raw)) = .ok ⟨lit "PONG", m.params, none⟩ ∧
    Botnats.rawParams (pongReply raw) = some parts.allParams := by
  have hrest := pongRest h.split hspace
  have htokens := (pongTokens_of_head hrest.head hrest.words).1
  have hsplit := splitMessage_reply (dropMarked 58 (dropMarked 64 (lineBody raw)))
  have hreply := pongReply_eq (h.ending hlast).2
  have hmem : ∀ b ∈ joinMessage 58 32 (pongWord :: parts.params) parts.trailing,
      b ≠ 13 ∧ b ≠ 10 ∧ b ≠ 0 := by
    intro b hb
    rw [← htokens, ← hrest.trailing] at hb
    rcases mem_reply hb with hb | hb
    · exact h.control b (hrest.suffix.subset hb)
    · refine ⟨?_, ?_, ?_⟩ <;> rintro rfl <;> exact absurd hb (by decide)
  rw [htokens, hrest.trailing] at hreply hsplit
  have hparsed : ParsedFrom u (pongReply raw) ⟨lit "PONG", m.params, none⟩
      ⟨none, pongWord, parts.params, parts.trailing⟩ := by
    refine ⟨?_, ?_, ?_, h.params, rfl⟩
    · rwa [hreply, lineBody_crlf]
    · rw [hreply, lineBody_crlf]
      exact hsplit
    · have hdecode : decodeReplace pongWord = lit "PONG" := by decide
      have hascii : ∀ c ∈ lit "PONG", c.val < 128 := ascii_of_all (by decide)
      have hupper : lit "PONG" = (lit "PONG").map asciiUpper := by decide
      rw [hdecode, u.upper_ascii hascii]
      exact hupper
  exact ⟨hreply, parseMessage_decode_iff.mpr ⟨_, hparsed⟩, hparsed.rawParams⟩

/-- The reply to such a line is longer exactly if the line is bare. -/
theorem reply_longer_iff (h : ParsedFrom u raw m parts) (hlast : raw.getLast? = some 10)
    (hspace : (lineBody raw).head? ≠ some 32) (hping : m.command = lit "PING") :
    raw.length < (pongReply raw).length ↔ Bare raw := by
  have hrest := pongRest h.split hspace
  have hreply := congrArg List.length (reply_parses h hlast hspace).1
  have hlength := pongReply_length hrest
  have hraw := (h.ending hlast).1
  have hcommand : 4 ≤ parts.command.length := by
    have hfour := u.length_of_ping (h.command.symm.trans hping)
    have hle := decodeFrom_length none parts.command
    rw [← hfour]
    simpa [decodeReplace] using hle
  have hfirst := (pongTokens_of_head hrest.head hrest.words).2
  have hsuffix := hrest.suffix.length_le
  have hnone : ((cutPair 32 58 (dropMarked 58 (dropMarked 64 (lineBody raw)))).1.splitOn 32).countP
      (· = []) = 0 ↔
      [] ∉ (cutPair 32 58 (dropMarked 58 (dropMarked 64 (lineBody raw)))).1.splitOn 32 := by
    rw [List.countP_eq_zero]
    exact ⟨fun hall hmem => hall [] hmem (by simp), fun hmem w hw hw' =>
      hmem (of_decide_eq_true hw' ▸ hw)⟩
  have hhead := h.head hlast
  rw [List.length_append, List.length_cons, List.length_singleton] at hreply
  by_cases hcr : raw.dropLast.getLast? = some 13
  · rw [if_pos hcr] at hraw
    have hends := congrArg List.length hraw
    rw [List.length_append, List.length_cons, List.length_singleton] at hends
    exact iff_of_false (by omega) fun hbare => hbare.1 hcr
  rw [if_neg hcr] at hraw
  have hends := congrArg List.length hraw
  rw [List.length_append, List.length_singleton] at hends
  have hinit : raw.dropLast = lineBody raw := by
    conv_lhs => rw [hraw]
    exact List.dropLast_concat
  constructor
  · intro hlonger
    have htag : (lineBody raw).head? ≠ some 64 := fun heq => by
      have := hrest.marked (.inl heq)
      omega
    have hcolon : (lineBody raw).head? ≠ some 58 := fun heq => by
      have := hrest.marked (.inr heq)
      omega
    rw [hrest.unmarked htag hcolon] at hnone hfirst hlength
    refine ⟨hcr, hhead ▸ htag, hhead ▸ hcolon, ?_, ?_⟩
    · rw [hinit]
      exact hnone.mp (by omega)
    · rw [hinit, hfirst, Option.map_some]
      exact congrArg some (by omega)
  · rintro ⟨-, htag, hcolon, hpieces, hfour⟩
    rw [hhead] at htag hcolon
    rw [hrest.unmarked htag hcolon] at hnone hfirst hlength
    rw [hinit] at hpieces hfour
    rw [hfirst, Option.map_some] at hfour
    have hzero := hnone.mpr hpieces
    have hcommandFour := Option.some.inj hfour
    omega

end Reply

/-- The reply agrees with `parse_message` exactly if the line does not begin with a space
and is not bare. -/
theorem pongReply_echoes_iff (u : UpperCase) (raw : List Byte) (m : IRCMessage)
    (hcheck : checkLine raw = some true)
    (hparse : parseMessage u (decodeReplace raw) = .ok m) (hping : m.command = lit "PING") :
    Echoes u raw m.params ↔ raw.head? ≠ some 32 ∧ ¬ Bare raw := by
  obtain ⟨parts, h⟩ := parseMessage_decode_iff.mp hparse
  have hlast : raw.getLast? = some 10 := by
    by_contra hlast
    rw [checkLine, if_neg hlast] at hcheck
    cases hcheck
  rw [h.head hlast]
  by_cases hspace : (lineBody raw).head? = some 32
  · exact iff_of_false (not_echoes_of_space h hlast hspace) fun hcond => hcond.1 hspace
  have hlonger := reply_longer_iff h hlast hspace hping
  obtain ⟨hreply, hparses, hbytes⟩ := reply_parses h hlast hspace
  constructor
  · intro hechoes
    exact ⟨hspace, fun hbare => absurd hechoes.length (not_le.mpr (hlonger.mpr hbare))⟩
  · rintro ⟨-, hbare⟩
    exact ⟨⟨_, hreply⟩, hparses, ⟨_, h.rawParams, hbytes, h.params⟩, not_lt.mp fun hlt => hbare (hlonger.mp hlt)⟩

/-- `@id=1  PING  a :b c`, ended by a line feed alone, is answered by `PONG a :b c`. -/
theorem pongReply_echoes_tagged :
    Echoes asciiUpperCase (utf8 (lit "@id=1  PING  a :b c\n")) [lit "a", lit "b c"] := by
  have hparse : parseMessage asciiUpperCase (decodeReplace (utf8 (lit "@id=1  PING  a :b c\n"))) =
      .ok ⟨lit "PING", [lit "a", lit "b c"], none⟩ := by
    decide +kernel
  refine (pongReply_echoes_iff asciiUpperCase _ _ (by decide +kernel) hparse rfl).mpr
    ⟨by decide +kernel, fun hbare => hbare.2.1 (by decide +kernel)⟩

/-- ` PING a` is answered by `PONG PING a`. -/
theorem not_pongReply_echoes_all :
    ¬ ∀ (u : UpperCase) (raw : List Byte) (m : IRCMessage), checkLine raw = some true →
      parseMessage u (decodeReplace raw) = .ok m → m.command = lit "PING" →
      Echoes u raw m.params := by
  intro hall
  have hparse : parseMessage asciiUpperCase (decodeReplace (utf8 (lit " PING a\r\n"))) =
      .ok ⟨lit "PING", [lit "a"], none⟩ := by
    decide +kernel
  have hreply : parseMessage asciiUpperCase
      (decodeReplace (pongReply (utf8 (lit " PING a\r\n")))) =
      .ok ⟨lit "PONG", [lit "PING", lit "a"], none⟩ := by
    decide +kernel
  have hparses := (hall asciiUpperCase _ _ (by decide +kernel) hparse rfl).parses
  rw [hreply] at hparses
  exact absurd hparses (by decide)

end Botnats
