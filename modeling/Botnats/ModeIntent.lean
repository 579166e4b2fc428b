import Botnats.ModeArguments
import Botnats.PeerHelp

/-!
# The configured channel modes

`mode_intent` and `mode_string` of `config.py`, `enforce_modes` of `ChannelManager`, and
what `handle_mode` and `handle_end_of_names` set going about the modes of a channel. A line
with the configured modes leaves every required mode set and every forbidden one unset, and
reading it back asks for no further line.
-/
namespace Botnats

/-- `[A-Za-z]` -/
def asciiLetter (c : CodePoint) : Bool :=
  decide (65 ≤ c.val ∧ c.val ≤ 90 ∨ 97 ≤ c.val ∧ c.val ≤ 122)

/-- The rest of `(?:[+-][A-Za-z]+)+` after a sign, or after a letter -/
def modeRuns (signed : Bool) : Str → Bool
  | [] => !signed
  | c :: rest =>
    if asciiLetter c then modeRuns false rest
    else !signed && decide (c = 43 ∨ c = 45) && modeRuns true rest

/-- `MODE_STRING_RE`, matched in full. -/
def modeStringMatch : Str → Bool
  | [] => false
  | c :: rest => decide (c = 43 ∨ c = 45) && modeRuns true rest

/-- The letters under a plus and under a minus, as the loop of `mode_intent` collects them -/
def intentLetters (adding : Bool) : Str → Finset CodePoint × Finset CodePoint
  | [] => (∅, ∅)
  | c :: rest =>
    if c = 43 then intentLetters true rest
    else if c = 45 then intentLetters false rest
    else
      let (required, forbidden) := intentLetters adding rest
      if adding then (insert c required, forbidden) else (required, insert c forbidden)

/-- The modes that a channel shall have, and those it shall not have. -/
structure ModeIntent where
  required : Finset CodePoint
  forbidden : Finset CodePoint
  disjoint : Disjoint required forbidden

/-- `mode_intent` -/
def modeIntent (value : Str) : Except Invalid ModeIntent :=
  if value ≠ [] ∧ modeStringMatch value = false then
    .error (.value "irc.channel_modes contains unsupported characters")
  else if h : Disjoint (intentLetters true value).1 (intentLetters true value).2 then
    .ok ⟨(intentLetters true value).1, (intentLetters true value).2, h⟩
  else .error (.value "channel_modes cannot require and forbid the same mode")

namespace ModeIntent

/-- One of the modes needs an argument, of which a mode string has none. -/
def needsArgument (caps : ISupport) (intent : ModeIntent) : Bool :=
  decide ((intent.required.filter fun mode => modeRequiresArgument caps (true, mode)).Nonempty ∨
    (intent.forbidden.filter fun mode => modeRequiresArgument caps (false, mode)).Nonempty)

/-- The change undoes what is intended. -/
def undoneBy (intent : ModeIntent) (change : ModeChange) : Bool :=
  (!change.1 && decide (change.2.1 ∈ intent.required)) ||
    (change.1 && decide (change.2.1 ∈ intent.forbidden))

/-- The modes are as intended. -/
def Met (intent : ModeIntent) (active : Finset CodePoint) : Prop :=
  intent.required ⊆ active ∧ Disjoint intent.forbidden active

end ModeIntent

/-- `mode_string` of `irc.channel_modes`, which is empty by default -/
def modeString (value : Option Json) : Except Invalid Str :=
  match value.getD (.str []) with
  | .str value =>
    match modeIntent value with
    | .error e => .error e
    | .ok intent =>
      if intent.needsArgument .initial then
        .error (.value "irc.channel_modes contains a mode that requires an argument")
      else if value = [] then .ok value
      else
        match formatMessage (lit "MODE") [lit "#x", value] none with
        | .error e => .error e
        | .ok _ => .ok value
  | _ => .error (.type "irc.channel_modes must be a string")

/-- `enforce_modes`: the line it queues, if it queues one -/
def enforceModes (caps : ISupport) (value : Str) (intent : ModeIntent) (channel : Str)
    (sends : Bool) : Option (List Byte) :=
  if value = [] then none
  else if intent.needsArgument caps then none
  else
    match formatMessage (lit "MODE") [channel, value] none with
    | .error _ => none
    | .ok encoded => if sends then some encoded else none

/-- What a handler sets going: `enforce_modes` of a channel, or a request for operator
status on it. -/
inductive ModeTask
  | enforce (channel : Str)
  | requestOp (channel : Str)
  deriving DecidableEq

/-- A member is given operator status, or a rank above. -/
def grantsOp (caps : ISupport) (change : ModeChange) : Bool :=
  change.1 && change.2.2.isSome && decide (change.2.1 ≠ 107 ∧ change.2.1 ≠ 108 ∧ change.2.1 ≠ 98) &&
    decide (change.2.1 ∈ caps.operatorModes)

namespace IrcBot

variable (intent : ModeIntent) (b : IrcBot)

/-- The tasks of `handle_mode` -/
def modeTasks : List Str → List ModeTask
  | channel :: modes :: arguments =>
    match b.manager.runtime channel with
    | none => []
    | some c =>
      let changes := iterModeChanges b.caps modes arguments
      let lostEnforced := changes.any intent.undoneBy
      let sawNewOp := changes.any (grantsOp b.caps)
      let wasOpped := b.isSelfOpped c
      let opped := b.isSelfOpped (c.applyModeChanges b.caps modes arguments)
      if opped && (lostEnforced || !wasOpped) then [.enforce channel]
      else if !opped && (sawNewOp || wasOpped) then [.requestOp channel]
      else []
  | _ => []

/-- The line of `handle_mode`: an operator asks for a key that others do not see. -/
def modeLines : List Str → List (Str × List Str)
  | channel :: modes :: arguments =>
    match b.manager.runtime channel with
    | none => []
    | some c =>
      if b.isSelfOpped (c.applyModeChanges b.caps modes arguments) && !b.isSelfOpped c then
        [(lit "MODE", [channel])]
      else []
  | _ => []

/-- The task of `handle_end_of_names` -/
def endOfNamesTasks : List Str → List ModeTask
  | _ :: channel :: _ =>
    match b.manager.runtime channel with
    | none => []
    | some c => [if b.isSelfOpped c then .enforce channel else .requestOp channel]
  | _ => []

/-- The lines of `handle_end_of_names` -/
def endOfNamesLines : List Str → List (Str × List Str)
  | _ :: channel :: _ =>
    match b.manager.runtime channel with
    | none => []
    | some _ =>
      [(lit "WHO", [channel]), (lit "MODE", [channel]), (lit "MODE", [channel, lit "+b"])]
  | _ => []

/-- The tasks about the modes of a channel that a message sets going -/
def tasksOf (message : IRCMessage) : List ModeTask :=
  if message.command = lit "366" then b.endOfNamesTasks message.params
  else if message.command = lit "MODE" then b.modeTasks intent message.params
  else []

end IrcBot

/-! ## The letters of an intent -/

theorem mem_intentLetters (adding : Bool) (value : Str) (mode : CodePoint) :
    (mode ∈ (intentLetters adding value).1 ↔ (true, mode) ∈ modeLetters adding value) ∧
      (mode ∈ (intentLetters adding value).2 ↔ (false, mode) ∈ modeLetters adding value) := by
  induction value generalizing adding with
  | nil => simp [intentLetters, modeLetters]
  | cons c rest ih =>
    rw [intentLetters, modeLetters]
    by_cases hplus : c = 43
    · rw [if_pos hplus, if_pos hplus]
      exact ih true
    rw [if_neg hplus, if_neg hplus]
    by_cases hminus : c = 45
    · rw [if_pos hminus, if_pos hminus]
      exact ih false
    rw [if_neg hminus, if_neg hminus]
    obtain ⟨hrequired, hforbidden⟩ := ih adding
    cases adding with
    | true => simp [hrequired, hforbidden]
    | false => simp [hrequired, hforbidden]

/-- The intent of a mode string holds its letters by their signs. -/
theorem modeIntent_eq_ok {value : Str} {intent : ModeIntent} (h : modeIntent value = .ok intent)
    (mode : CodePoint) : (mode ∈ intent.required ↔ (true, mode) ∈ modeLetters true value) ∧
      (mode ∈ intent.forbidden ↔ (false, mode) ∈ modeLetters true value) := by
  unfold modeIntent at h
  split_ifs at h
  obtain rfl := Except.ok.inj h
  exact mem_intentLetters true value mode

/-- What `mode_string` accepts has an intent, takes no argument by the default classes, and
fits a line. -/
theorem modeString_eq_ok {field : Option Json} {value : Str} (h : modeString field = .ok value) :
    field.getD (.str []) = .str value ∧
      ∃ intent, modeIntent value = .ok intent ∧ intent.needsArgument .initial = false ∧
        (value ≠ [] → ∃ encoded, formatMessage (lit "MODE") [lit "#x", value] none = .ok encoded) := by
  unfold modeString at h
  cases hfield : field.getD (.str []) with
  | str text =>
    rw [hfield] at h
    dsimp only at h
    cases hintent : modeIntent text with
    | error e => simp [hintent] at h
    | ok intent =>
      rw [hintent] at h
      dsimp only at h
      split_ifs at h with hneeds hempty
      · obtain rfl := Except.ok.inj h
        exact ⟨rfl, intent, hintent, by simpa using hneeds, fun hne => absurd hempty hne⟩
      · cases hline : formatMessage (lit "MODE") [lit "#x", text] none with
        | error e => simp [hline] at h
        | ok encoded =>
          rw [hline] at h
          obtain rfl := Except.ok.inj h
          exact ⟨rfl, intent, hintent, by simpa using hneeds, fun _ => ⟨encoded, hline⟩⟩
  | null => simp [hfield] at h
  | bool _ => simp [hfield] at h
  | int _ => simp [hfield] at h
  | float _ => simp [hfield] at h
  | arr _ => simp [hfield] at h
  | obj _ => simp [hfield] at h

/-! ## The modes of a channel under changes -/

/-- A server sets and unsets the modes of a channel. -/
def applyLetters (active : Finset CodePoint) (letters : List (Bool × CodePoint)) :
    Finset CodePoint :=
  letters.foldl (fun active e => if e.1 then insert e.2 active else active.erase e.2) active

/-- Letters that never stand under both signs are set or unset as their sign says. -/
theorem mem_applyLetters {letters : List (Bool × CodePoint)}
    (h : ∀ mode, (true, mode) ∈ letters → (false, mode) ∉ letters) (active : Finset CodePoint)
    (mode : CodePoint) : mode ∈ applyLetters active letters ↔
      (true, mode) ∈ letters ∨ mode ∈ active ∧ (false, mode) ∉ letters := by
  induction letters using List.reverseRecOn with
  | nil => simp [applyLetters]
  | append_singleton letters e ih =>
    obtain ⟨adding, other⟩ := e
    have hfront : ∀ m, (true, m) ∈ letters → (false, m) ∉ letters := fun m hm hm' =>
      h m (List.mem_append_left _ hm) (List.mem_append_left _ hm')
    have hih := ih hfront
    have hlast : applyLetters active (letters ++ [(adding, other)]) =
        if adding then insert other (applyLetters active letters)
        else (applyLetters active letters).erase other := by
      rw [applyLetters, List.foldl_append]
      rfl
    rw [hlast]
    cases adding with
    | true =>
      have hclash : (false, other) ∉ letters := fun hm =>
        h other (by simp) (List.mem_append_left _ hm)
      by_cases hother : mode = other
      · subst hother
        simp
      · simp [hih, hother]
    | false =>
      have hclash : (true, other) ∉ letters := fun hm =>
        h other (List.mem_append_left _ hm) (by simp)
      by_cases hother : mode = other
      · subst hother
        simp [hclash]
      · simp [hih, hother]

/-- Applied as a whole, the configured modes are met. -/
theorem met_applyLetters {value : Str} {intent : ModeIntent} (h : modeIntent value = .ok intent)
    (active : Finset CodePoint) : intent.Met (applyLetters active (modeLetters true value)) := by
  have hdisjoint : ∀ mode, (true, mode) ∈ modeLetters true value →
      (false, mode) ∉ modeLetters true value := by
    intro mode hrequired hforbidden
    obtain ⟨hr, hf⟩ := modeIntent_eq_ok h mode
    exact Finset.disjoint_left.mp intent.disjoint (hr.mpr hrequired) (hf.mpr hforbidden)
  constructor
  · intro mode hmode
    exact (mem_applyLetters hdisjoint active mode).mpr (.inl ((modeIntent_eq_ok h mode).1.mp hmode))
  · rw [Finset.disjoint_left]
    intro mode hmode hactive
    have hforbidden := (modeIntent_eq_ok h mode).2.mp hmode
    rcases (mem_applyLetters hdisjoint active mode).mp hactive with hrequired | ⟨-, hkept⟩
    · exact hdisjoint mode hrequired hforbidden
    · exact hkept hforbidden

/-- Changes that undo nothing leave met modes met. -/
theorem ModeIntent.Met.applyLetters {intent : ModeIntent} {active : Finset CodePoint}
    (h : intent.Met active) {changes : List ModeChange}
    (hkept : changes.any intent.undoneBy = false) :
    intent.Met (applyLetters active (changes.map ModeChange.letter)) := by
  induction changes generalizing active with
  | nil => exact h
  | cons e changes ih =>
    obtain ⟨adding, mode, argument⟩ := e
    simp only [List.any_cons, Bool.or_eq_false_iff, undoneBy, Bool.and_eq_false_iff,
      decide_eq_false_iff_not] at hkept
    obtain ⟨⟨hunset, hset⟩, hrest⟩ := hkept
    have hnext : intent.Met (if adding then insert mode active else active.erase mode) := by
      cases adding with
      | true =>
        refine ⟨h.1.trans (Finset.subset_insert _ _), ?_⟩
        have hmode : mode ∉ intent.forbidden := by simpa using hset
        rw [if_pos rfl, Finset.disjoint_insert_right]
        exact ⟨hmode, h.2⟩
      | false =>
        have hmode : mode ∉ intent.required := by simpa using hunset
        refine ⟨fun x hx => ?_, h.2.mono_right (Finset.erase_subset _ _)⟩
        rw [if_neg Bool.false_ne_true, Finset.mem_erase]
        exact ⟨fun heq => hmode (heq ▸ hx), h.1 hx⟩
    exact ih hnext (by simpa [undoneBy] using hrest)

end Botnats
