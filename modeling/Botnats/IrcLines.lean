import Botnats.Utf8
import Botnats.IrcEvents
import Botnats.Masks

/-!
# Lines of the IRC protocol

`format_message` and `parse_message`, which undo each other on whatever can be sent.
Splitting a line is stated for any alphabet: `parse_message` does it on characters, and what
it says of the bytes they were decoded from is the same split of the bytes.
-/
namespace Botnats

open Splitting

/-! ## Parsing -/

/-- The parts of a line -/
structure MessageParts (α : Type) where
  ircPrefix : Option (List α)
  command : List α
  params : List (List α)
  trailing : Option (List α)
  deriving DecidableEq

namespace MessageParts

variable {α β : Type}

/-- The parameters with the trailing text -/
def allParams (parts : MessageParts α) : List (List α) := parts.params ++ parts.trailing.toList

def map (f : List α → List β) (parts : MessageParts α) : MessageParts β :=
  ⟨parts.ircPrefix.map f, f parts.command, parts.params.map f, parts.trailing.map f⟩

end MessageParts

section Split

variable {α : Type} [DecidableEq α]

/-- What follows the tags, if there are any; `none` where nothing does. -/
def dropTags (tag space : α) (rest : List α) : Option (List α) :=
  if rest.head? = some tag then (cutAt space rest).2 else some rest

/-- The prefix, if there is one, and what follows it; `none` where nothing does. -/
def takePrefix (colon space : α) (rest : List α) : Option (Option (List α) × List α) :=
  if rest.head? = some colon then
    match cutAt space rest.tail with
    | (_, none) => none
    | (rawPrefix, some rest) => some (some rawPrefix, rest)
  else some (none, rest)

/-- `parse_message` after its look at control characters -/
def splitMessage (tag colon space : α) (line : List α) : Except Invalid (MessageParts α) :=
  match dropTags tag space line with
  | none => .error (.value "IRC tags were not followed by a command")
  | some rest =>
    match takePrefix colon space rest with
    | none => .error (.value "IRC prefix was not followed by a command")
    | some (ircPrefix, rest) =>
      let (middle, trailing) := cutPair space colon rest
      match wordsOf space middle with
      | [] => .error (.value "IRC message has no command")
      | command :: params => .ok ⟨ircPrefix, command, params, trailing⟩

end Split

/-- `str.upper` of an ASCII character -/
def asciiUpper (c : CodePoint) : CodePoint :=
  if h : 97 ≤ c.val ∧ c.val ≤ 122 then ⟨c.val - 32, by omega⟩ else c

/-- `str.upper`, character by character. An upper case of several characters holds an `F`,
an `S` or a character outside ASCII. -/
structure UpperCase where
  char : CodePoint → Str
  ascii : ∀ c : CodePoint, c.val < 128 → char c = [asciiUpper c]
  several : ∀ c, (char c).length ≠ 1 → ∃ d ∈ char c, d = 70 ∨ d = 83 ∨ 128 ≤ d.val

def UpperCase.upper (u : UpperCase) (s : Str) : Str := s.flatMap u.char

/-- `parse_message` -/
def parseMessage (u : UpperCase) (line : Str) : Except Invalid IRCMessage :=
  let rest := dropEnd 13 (dropEnd 10 line)
  if rest.any fun c => illegalTrailingChars.contains c then
    .error (.value "IRC message contains control characters")
  else
    match splitMessage 64 58 32 rest with
    | .error e => .error e
    | .ok parts => .ok ⟨u.upper parts.command, parts.allParams, parts.ircPrefix.map Prefix.parse⟩

/-- `check_line`; `none` where it raises. -/
def checkLine (raw : List Byte) : Option Bool :=
  if raw.getLast? = some 10 then some (raw.length ≤ maxIrcMessageBytes) else none

/-! ## Splitting what was joined -/

section Split

variable {α β : Type} [DecidableEq α] [DecidableEq β] {tag colon space : α}

/-- Words joined by spaces, with a trailing text -/
def joinMessage (colon space : α) (words : List (List α)) (trailing : Option (List α)) : List α :=
  [space].intercalate words ++ (trailing.map fun t => space :: colon :: t).getD []

theorem splitMessage_joinMessage {command : List α} {params : List (List α)}
    {trailing : Option (List α)} (hwords : Separate space (command :: params))
    (hparams : ∀ p ∈ params, p.head? ≠ some colon) (htag : command.head? ≠ some tag)
    (hcolon : command.head? ≠ some colon) :
    splitMessage tag colon space (joinMessage colon space (command :: params) trailing) =
      .ok ⟨none, command, params, trailing⟩ := by
  have hhead : (joinMessage colon space (command :: params) trailing).head? = command.head? := by
    have hcommand := (hwords command List.mem_cons_self).1
    cases command with
    | nil => exact absurd rfl hcommand
    | cons c command =>
      rw [joinMessage, List.intercalate_cons_cons_left]
      rfl
  have hcut : cutPair space colon (joinMessage colon space (command :: params) trailing) =
      ([space].intercalate (command :: params), trailing) := by
    rw [joinMessage, cutPair_intercalate hwords hparams]
    cases trailing with
    | none => simp [cutPair]
    | some t => simp [cutPair_pair]
  rw [splitMessage, dropTags, if_neg (hhead ▸ htag)]
  dsimp only
  rw [takePrefix, if_neg (hhead ▸ hcolon)]
  dsimp only
  rw [hcut]
  dsimp only
  rw [wordsOf_intercalate hwords]

/-- A map that keeps the three marks takes the parts of a line apart. -/
theorem splitMessage_map {f : List α → List β} {tag' colon' space' : β}
    (htag : Keeps f tag tag') (hcolon : Keeps f colon colon') (hspace : Keeps f space space')
    (hempty : ∀ s, f s = [] → s = []) (line : List α) :
    splitMessage tag' colon' space' (f line) =
      (splitMessage tag colon space line).map (MessageParts.map f) := by
  have htags : dropTags tag' space' (f line) = (dropTags tag space line).map f := by
    rw [dropTags, dropTags, hspace.cutAt]
    by_cases hhead : line.head? = some tag
    · rw [if_pos hhead, if_pos ((htag.head hempty line).mpr hhead)]
    · rw [if_neg hhead, if_neg fun h => hhead ((htag.head hempty line).mp h)]
      rfl
  have hsource : ∀ rest : List α, takePrefix colon' space' (f rest) =
      (takePrefix colon space rest).map fun e => (e.1.map f, f e.2) := by
    intro rest
    rw [takePrefix, takePrefix]
    by_cases hhead : rest.head? = some colon
    · rw [if_pos hhead, if_pos ((hcolon.head hempty rest).mpr hhead)]
      obtain ⟨t, rfl⟩ := List.head?_eq_some_iff.mp hhead
      rw [hcolon.cons, List.tail_cons, List.tail_cons, hspace.cutAt]
      cases hcut : cutAt space t with
      | mk rawPrefix after => cases after <;> rfl
    · rw [if_neg hhead, if_neg fun h => hhead ((hcolon.head hempty rest).mp h)]
      rfl
  rw [splitMessage, splitMessage, htags]
  cases dropTags tag space line with
  | none => rfl
  | some rest =>
    dsimp only [Option.map_some]
    rw [hsource]
    cases takePrefix colon space rest with
    | none => rfl
    | some e =>
      obtain ⟨ircPrefix, rest⟩ := e
      dsimp only [Option.map_some]
      rw [hspace.cutPair hcolon hempty]
      dsimp only
      rw [hspace.wordsOf hempty]
      cases wordsOf space (cutPair space colon rest).1 with
      | nil => rfl
      | cons command params => rfl

end Split

/-! ## What can be sent -/

theorem join_trailing {words : List Str} (h : words ≠ []) (trailing : Option Str) :
    join [32] (words ++ (trailing.map fun t => 58 :: t).toList) =
      joinMessage 58 32 words trailing := by
  rw [join_eq_intercalate, joinMessage]
  cases trailing with
  | none => simp
  | some t =>
    rw [Option.map_some, Option.toList_some, Option.map_some, Option.getD_some]
    induction words with
    | nil => exact absurd rfl h
    | cons w words ih =>
      cases words with
      | nil => simp [List.intercalate_cons_cons]
      | cons w' words =>
        have hrest := ih (List.cons_ne_nil _ _)
        simp only [List.cons_append] at hrest ⊢
        rw [List.intercalate_cons_cons, hrest, List.intercalate_cons_cons]
        simp

/-- What `format_message` asks of the parts of a line -/
structure Sendable (command : Str) (params : List Str) (trailing : Option Str) : Prop where
  nonempty : command ≠ []
  alnum : ∀ c ∈ command, asciiAlnum c = true
  params : ∀ p ∈ params, illegalParam p = false
  trailing : ∀ t, trailing = some t → ∀ c ∈ t, c ∉ illegalTrailingChars

theorem formatMessage_eq_ok {command : Str} {params : List Str} {trailing : Option Str}
    {b : List Byte} (h : formatMessage command params trailing = .ok b) :
    Sendable command params trailing ∧
      encodable (joinMessage 58 32 (command :: params) trailing ++ [13, 10]) = true ∧
      b = utf8 (joinMessage 58 32 (command :: params) trailing ++ [13, 10]) ∧
      b.length ≤ maxIrcMessageBytes := by
  unfold formatMessage at h
  split_ifs at h with hcommand hparams htrailing
  dsimp only at h
  rw [join_trailing (List.cons_ne_nil _ _)] at h
  split_ifs at h with hencodable hlength
  obtain rfl := Except.ok.inj h
  have htext : encodable (joinMessage 58 32 (command :: params) trailing ++ [13, 10]) = true := by
    simpa using hencodable
  refine ⟨⟨?_, ?_, ?_, ?_⟩, htext, rfl, not_lt.mp hlength⟩
  · rintro rfl
    simp at hcommand
  · intro c hc
    by_contra hbad
    have hall : command.all asciiAlnum = false :=
      List.all_eq_false.mpr ⟨c, hc, hbad⟩
    rw [hall] at hcommand
    simp at hcommand
  · intro q hq
    by_contra hbad
    exact hparams (List.any_eq_true.mpr ⟨q, hq, by simpa using hbad⟩)
  · rintro t rfl c hc hbad
    exact htrailing (List.any_eq_true.mpr ⟨c, hc, List.contains_iff_mem.mpr hbad⟩)

theorem Sendable.formatMessage {command : Str} {params : List Str} {trailing : Option Str}
    (h : Sendable command params trailing)
    (htext : encodable (joinMessage 58 32 (command :: params) trailing ++ [13, 10]) = true)
    (hlen : (utf8 (joinMessage 58 32 (command :: params) trailing ++ [13, 10])).length ≤
      maxIrcMessageBytes) :
    Botnats.formatMessage command params trailing =
      .ok (utf8 (joinMessage 58 32 (command :: params) trailing ++ [13, 10])) := by
  have hcommand : (command.isEmpty || !command.all asciiAlnum) = false := by
    simpa [h.nonempty] using h.alnum
  have hparams : params.any illegalParam = false :=
    List.any_eq_false.mpr fun p hp => by simp [h.params p hp]
  have htrailing : ((trailing.getD []).any fun c => illegalTrailingChars.contains c) = false := by
    cases trailing with
    | none => rfl
    | some t => simpa using h.trailing t rfl
  unfold Botnats.formatMessage
  dsimp only
  rw [join_trailing (List.cons_ne_nil _ _), hcommand, hparams, htrailing, htext]
  simp [hlen]

theorem asciiAlnum_bounds {c : CodePoint} (h : asciiAlnum c = true) : 48 ≤ c.val ∧ c.val < 128 ∧
    c.val ≠ 58 ∧ c.val ≠ 64 := by
  have hc : 48 ≤ c.val ∧ c.val ≤ 57 ∨ 65 ≤ c.val ∧ c.val ≤ 90 ∨ 97 ≤ c.val ∧ c.val ≤ 122 :=
    of_decide_eq_true h
  omega

/-- A parameter that can be sent is not empty, begins with no colon and holds nothing that
would end it. -/
theorem illegalParam_eq_false {param : Str} (h : illegalParam param = false) :
    param ≠ [] ∧ param.head? ≠ some 58 ∧ ∀ c ∈ param, c ∉ illegalParamChars := by
  simp only [illegalParam, Bool.or_eq_false_iff, decide_eq_false_iff_not] at h
  obtain ⟨⟨hempty, hcolon⟩, hchars⟩ := h
  refine ⟨by rintro rfl; simp at hempty, hcolon, fun c hc hbad => ?_⟩
  have hany := List.any_eq_false.mp hchars c hc
  exact hany (List.contains_iff_mem.mpr hbad)

namespace Sendable

variable {command : Str} {params : List Str} {trailing : Option Str}

theorem separate (h : Sendable command params trailing) : Separate 32 (command :: params) := by
  intro w hw
  rcases List.mem_cons.mp hw with rfl | hw
  · refine ⟨h.nonempty, fun hspace => ?_⟩
    have := (asciiAlnum_bounds (h.alnum _ hspace)).1
    exact absurd this (by decide)
  · obtain ⟨hempty, -, hchars⟩ := illegalParam_eq_false (h.params w hw)
    exact ⟨hempty, fun hspace => hchars 32 hspace (by decide)⟩

/-- No mark that opens tags or a prefix stands first. -/
theorem head_command (h : Sendable command params trailing) :
    command.head? ≠ some 64 ∧ command.head? ≠ some 58 := by
  cases hcommand : command with
  | nil => simp
  | cons c rest =>
    obtain ⟨-, -, hcolon, htag⟩ := asciiAlnum_bounds (h.alnum c (hcommand ▸ List.mem_cons_self))
    refine ⟨fun heq => htag ?_, fun heq => hcolon ?_⟩
    · rw [Option.some.inj heq]
      rfl
    · rw [Option.some.inj heq]
      rfl

/-- The text holds nothing that would end the line. -/
theorem not_control (h : Sendable command params trailing) {c : CodePoint}
    (hc : c ∈ joinMessage 58 32 (command :: params) trailing) : c ∉ illegalTrailingChars := by
  have hwords : ∀ w ∈ command :: params, ∀ c ∈ w, c ∉ illegalTrailingChars := by
    intro w hw d hd hbad
    rcases List.mem_cons.mp hw with rfl | hw
    · have hlow := (asciiAlnum_bounds (h.alnum d hd)).1
      simp only [illegalTrailingChars, List.mem_cons, List.not_mem_nil, or_false] at hbad
      rcases hbad with rfl | rfl | rfl <;> exact absurd hlow (by decide)
    · exact (illegalParam_eq_false (h.params w hw)).2.2 d hd (List.mem_cons_of_mem _ hbad)
  rw [joinMessage] at hc
  rcases List.mem_append.mp hc with hc | hc
  · rcases mem_intercalate hc with rfl | ⟨w, hw, hcw⟩
    · decide
    · exact hwords w hw c hcw
  · cases htrailing : trailing with
    | none => simp [htrailing] at hc
    | some t =>
      rw [htrailing, Option.map_some, Option.getD_some] at hc
      rcases List.mem_cons.mp hc with rfl | hc
      · decide
      · rcases List.mem_cons.mp hc with rfl | hc
        · decide
        · exact h.trailing t htrailing c hc

end Sendable

/-- The upper case of an ASCII string -/
theorem UpperCase.upper_ascii (u : UpperCase) {s : Str} (h : ∀ c ∈ s, c.val < 128) :
    u.upper s = s.map asciiUpper := by
  induction s with
  | nil => rfl
  | cons c s ih =>
    rw [UpperCase.upper, List.flatMap_cons, u.ascii c (h c List.mem_cons_self), List.map_cons]
    exact congrArg (asciiUpper c :: ·) (ih fun d hd => h d (List.mem_cons_of_mem _ hd))

/-- What is sent fits a line, holds no other end of line, and parses to what was sent. -/
theorem parseMessage_formatMessage (u : UpperCase) (command : Str) (params : List Str)
    (trailing : Option Str) (b : List Byte) (h : formatMessage command params trailing = .ok b) :
    b.length ≤ 512 ∧
    (∃ body, b = body ++ [13, 10] ∧ ∀ c ∈ body, c ≠ 13 ∧ c ≠ 10 ∧ c ≠ 0) ∧
    checkLine b = some true ∧
    utf8 (decodeReplace b) = b ∧
    parseMessage u (decodeReplace b) =
      .ok ⟨command.map asciiUpper, params ++ trailing.toList, none⟩ := by
  obtain ⟨hsendable, hencodable, rfl, hlength⟩ := formatMessage_eq_ok h
  set text := joinMessage 58 32 (command :: params) trailing with htext
  have hdecode : decodeReplace (utf8 (text ++ [13, 10])) = text ++ [13, 10] :=
    decodeReplace_utf8 hencodable
  have hutf8 : utf8 (text ++ [13, 10]) = utf8 text ++ [13, 10] := by
    rw [utf8, List.flatMap_append]
    rfl
  refine ⟨hlength, ⟨utf8 text, hutf8, fun c hc => ?_⟩, ?_, by rw [hdecode], ?_⟩
  · have hcontrol : c.val < 128 → asciiChar c ∉ illegalTrailingChars := fun hascii =>
      hsendable.not_control (utf8_mem hc hascii)
    refine ⟨?_, ?_, ?_⟩
    · rintro rfl
      exact hcontrol (by decide) (by decide)
    · rintro rfl
      exact hcontrol (by decide) (by decide)
    · rintro rfl
      exact hcontrol (by decide) (by decide)
  · have hlast : (utf8 (text ++ [13, 10])).getLast? = some 10 := by
      rw [hutf8]
      simp
    rw [checkLine, if_pos hlast, decide_eq_true hlength]
  · have hends : dropEnd 13 (dropEnd 10 (text ++ [13, 10])) = text := by
      rw [show text ++ [13, 10] = (text ++ [13]) ++ [10] by simp, dropEnd_append, dropEnd_append]
    have hcontrol : (text.any fun c => illegalTrailingChars.contains c) = false := by
      refine List.any_eq_false.mpr fun c hc hbad => ?_
      exact hsendable.not_control hc (List.contains_iff_mem.mp hbad)
    have hparts : splitMessage 64 58 32 text = .ok ⟨none, command, params, trailing⟩ :=
      splitMessage_joinMessage hsendable.separate
        (fun p hp => (illegalParam_eq_false (hsendable.params p hp)).2.1)
        hsendable.head_command.1 hsendable.head_command.2
    have hupper := u.upper_ascii fun c hc => (asciiAlnum_bounds (hsendable.alnum c hc)).2.1
    rw [hdecode, parseMessage, hends, hcontrol, if_neg Bool.false_ne_true, hparts, ← hupper]
    rfl

/-- An upper case that leaves what is not ASCII alone -/
def asciiUpperCase : UpperCase := ⟨fun c => [asciiUpper c], fun _ _ => rfl, fun _ h => absurd rfl h⟩

/-- A trailing text that begins with a colon and holds the mark of one -/
theorem parseMessage_formatMessage_colons :
    parseMessage asciiUpperCase (decodeReplace (utf8 (lit "privmsg #c ::a :b\r\n"))) =
      .ok ⟨lit "PRIVMSG", [lit "#c", lit ":a :b"], none⟩ := by
  have hsent : formatMessage (lit "privmsg") [lit "#c"] (some (lit ":a :b")) =
      .ok (utf8 (lit "privmsg #c ::a :b\r\n")) := by
    decide +kernel
  have h := parseMessage_formatMessage asciiUpperCase _ _ _ _ hsent
  exact h.2.2.2.2

end Botnats
