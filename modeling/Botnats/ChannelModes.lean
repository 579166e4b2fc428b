import Botnats.ModeArguments
import Mathlib.Data.List.TakeWhile

/-!
# The tracked modes of a channel

`ChannelRuntime` with its mode string and its limit, under `handle_channel_modes` and
`handle_mode`. From a reply that shows the key on, the tracked modes, limit and key follow
those of the server line by line. A reply that leaves out the argument of a hidden key is
read right only where no argument after it is taken for another.
-/
namespace Botnats

/-- A channel's runtime with its `modes` and `limit`; `recorded` are the keys handed to
`record_key`, oldest first. -/
structure TrackedChannel where
  runtime : ChannelRuntime
  modes : Str
  limit : Option ℕ
  recorded : List (Option Str)

/-- The modes of the second, third and fourth class -/
def ISupport.channelModes (caps : ISupport) : Str :=
  caps.chanmodes.2.1 ++ caps.chanmodes.2.2.1 ++ caps.chanmodes.2.2.2

/-- `int` of ASCII digits; `none` for any other string. A line is far too short for the
number of digits at which `int` gives up. -/
def count (value : Str) : Option ℕ :=
  if value ≠ [] ∧ value.all (fun c => 48 ≤ c.val ∧ c.val ≤ 57) then
    some (value.foldl (fun n c => 10 * n + (c.val - 48)) 0)
  else none

namespace TrackedChannel

/-- `set_limit` -/
def setLimit (t : TrackedChannel) (value : Option Str) : TrackedChannel :=
  { t with limit := value.bind count }

/-- `process_key` -/
def processKey (t : TrackedChannel) (argument : Str) (adding : Bool) : TrackedChannel :=
  match t.runtime.setKey (if adding then some argument else none) with
  | (_, false) => t
  | (runtime, true) => { t with runtime := runtime, recorded := t.recorded ++ [runtime.key] }

/-- `process_setting` -/
def processSetting (t : TrackedChannel) (mode : CodePoint) (argument : Option Str)
    (adding : Bool) : TrackedChannel :=
  if mode = 108 then t.setLimit (if adding then argument else none)
  else
    match argument with
    | some argument =>
      if !adding || argument ≠ lit "*" then t.processKey argument adding else t
    | none => if !adding && t.runtime.key.isSome then t.processKey [] false else t

/-- `update_channel_modes` -/
def updateChannelModes (t : TrackedChannel) (mode : CodePoint) (adding : Bool) :
    TrackedChannel :=
  let current := t.modes.dropWhile (· = 43)
  if adding then
    if mode ∈ current then t else { t with modes := 43 :: (current ++ [mode]) }
  else if mode ∈ current then
    let remaining := current.filter (· ≠ mode)
    { t with modes := if remaining = [] then [] else 43 :: remaining }
  else t

/-- One change of `apply_mode_changes`; members and bans are those of the runtime. -/
def applyModeChange (caps : ISupport) (t : TrackedChannel) (change : ModeChange) :
    TrackedChannel :=
  let (adding, mode, argument) := change
  let updated := if mode ∈ caps.channelModes then t.updateChannelModes mode adding else t
  if mode = 107 ∨ mode = 108 then updated.processSetting mode argument adding
  else { updated with runtime := updated.runtime.applyModeChange caps change }

/-- `handle_mode` of a message to the channel, as far as it tracks the channel -/
def handleMode (caps : ISupport) (t : TrackedChannel) : List Str → TrackedChannel
  | _ :: modes :: arguments => (iterModeChanges caps modes arguments).foldl (applyModeChange caps) t
  | _ => t

/-- One change of a reply, on the limit and the key read so far -/
def replyChange (found : Option ℕ × Option Str) (change : ModeChange) : Option ℕ × Option Str :=
  let (adding, mode, argument) := change
  if adding && decide (mode = 108) then (argument.bind count, found.2)
  else if adding && decide (mode = 107) then
    -- `argument or "*"`
    (found.1, some (match argument with
      | none | some [] => lit "*"
      | some argument => argument))
  else found

/-- `handle_channel_modes` of a reply for the channel -/
def handleChannelModes (caps : ISupport) (t : TrackedChannel) : List Str → TrackedChannel
  | _ :: _ :: modes :: arguments =>
    let (limit, key) := (iterModeChanges caps modes arguments).foldl replyChange (none, none)
    let read := { t with modes := modes, limit := limit }
    if key = some (lit "*") ∨ key = read.runtime.key then read
    else read.processKey (key.getD []) key.isSome
  | _ => t

end TrackedChannel

/-! ## Limits and keys -/

/-- A server that writes its limit in decimal is read right. -/
theorem count_decimal (n : ℕ) : count (decimal n) = some n := by
  have hdigits : (decimal n).all (fun c => 48 ≤ c.val ∧ c.val ≤ 57) = true :=
    List.all_eq_true.mpr fun c hc => decide_eq_true (decimal_digit hc)
  rw [count, if_pos ⟨decimal_ne_nil n, hdigits⟩, decimal, List.foldl_map]
  have hvalue : Nat.ofDigitChars 10 (Nat.toDigits 10 n) 0 = n :=
    Nat.ofDigitChars_toDigits (by decide) (by decide)
  rw [Nat.ofDigitChars_eq_foldl] at hvalue
  exact congrArg some hvalue

/-- `set_key` takes the key. -/
def UsableKey (key : Str) : Prop := validateKey key = .ok key

namespace ChannelRuntime

theorem setKey_none (c : ChannelRuntime) : c.setKey none = ({ c with key := none }, true) := rfl

theorem setKey_usable (c : ChannelRuntime) {key : Str} (h : UsableKey key) :
    c.setKey (some key) = ({ c with key := some key }, true) := by
  rw [setKey, Option.mapM_some, show validateKey key = .ok key from h]
  rfl

theorem setKey_unusable (c : ChannelRuntime) {key : Str} (h : ¬ UsableKey key) :
    c.setKey (some key) = (c, false) := by
  have herror : ∃ e, validateKey key = .error e := by
    unfold UsableKey validateKey at h
    unfold validateKey
    split_ifs at h ⊢
    · exact ⟨_, rfl⟩
    · exact ⟨_, rfl⟩
    · exact absurd rfl h
  obtain ⟨e, he⟩ := herror
  rw [setKey, Option.mapM_some, he]
  rfl

end ChannelRuntime

/-! ## The server's side -/

/-- What a server has of a channel: its active modes of the second, third and fourth class,
its limit, and the key last shown since the last `-k`. -/
structure ServerModes where
  active : Finset CodePoint
  limit : Option ℕ
  shownKey : Option Str
  deriving DecidableEq

namespace ServerModes

/-- A server takes a change; a `*` stands for a key that it hides. -/
def apply (caps : ISupport) (s : ServerModes) (change : ModeChange) : ServerModes where
  active :=
    if change.2.1 ∈ caps.channelModes then
      if change.1 then insert change.2.1 s.active else s.active.erase change.2.1
    else s.active
  limit := if change.2.1 = 108 then if change.1 then change.2.2.bind count else none else s.limit
  shownKey :=
    if change.2.1 = 107 then
      if change.1 then if change.2.2 = some (lit "*") then s.shownKey else change.2.2 else none
    else s.shownKey

/-- The server whose full state is listed, and whose key is among what is listed. -/
def listed (changes : List ModeChange) : ServerModes where
  active := (changes.map fun e => e.2.1).toFinset
  limit := ((changes.find? fun e => e.2.1 = 108).bind fun e => e.2.2).bind count
  shownKey := (changes.find? fun e => e.2.1 = 107).bind fun e => e.2.2

end ServerModes

/-- The changes are a batch as a server sends it: arguments where they are required, a
count for a limit, and for a key a usable one or `*`. -/
structure SentBatch (caps : ISupport) (changes : List ModeChange) : Prop where
  paired : ModeChange.Paired caps changes
  limits : ∀ s, (true, 108, some s) ∈ changes → (count s).isSome
  keys : ∀ key, (true, 107, some key) ∈ changes → key = lit "*" ∨ UsableKey key

/-- The changes are a channel's full state: modes that are set, each once. -/
structure FullState (caps : ISupport) (changes : List ModeChange) : Prop where
  adding : ∀ e ∈ changes, e.1 = true
  nodup : (changes.map fun e => e.2.1).Nodup
  paired : ModeChange.Paired caps changes
  limits : ∀ s, (true, 108, some s) ∈ changes → (count s).isSome

/-- The text and the arguments of a line that tells the batch, the argument of its only
`-k` perhaps left out. -/
structure TellsBatch (changes : List ModeChange) (text : Str) (arguments : List Str) : Prop where
  renders : Renders true (changes.map ModeChange.letter) text
  carried : arguments = ModeChange.arguments changes ∨
    ∃ before argument after, changes = before ++ (false, 107, argument) :: after ∧
      (∀ e ∈ before ++ after, ModeChange.letter e ≠ (false, 107)) ∧
      arguments = ModeChange.arguments before ++ ModeChange.arguments after

/-! ## One change -/

/-- The letters of a mode string -/
def modeSet (modes : Str) : Str := modes.filter fun c => c ≠ 43 ∧ c ≠ 45

/-- The tracked channel agrees with the server. -/
structure Tracks (t : TrackedChannel) (s : ServerModes) : Prop where
  nodup : (modeSet t.modes).Nodup
  active : ∀ mode, mode ∈ modeSet t.modes ↔ mode ∈ s.active
  limit : t.limit = s.limit
  key : t.runtime.key = s.shownKey

theorem modeSet_dropWhile (modes : Str) :
    modeSet (modes.dropWhile (· = 43)) = modeSet modes := by
  induction modes with
  | nil => rfl
  | cons c modes ih =>
    by_cases hc : c = 43
    · rw [List.dropWhile_cons_of_pos (by simpa using hc), ih, hc]
      rfl
    · rw [List.dropWhile_cons_of_neg (by simpa using hc)]

theorem mem_modeSet {modes : Str} {mode : CodePoint} (hplus : mode ≠ 43) (hminus : mode ≠ 45) :
    mode ∈ modeSet modes ↔ mode ∈ modes := by
  simp [modeSet, hplus, hminus]

namespace TrackedChannel

variable {t : TrackedChannel} {mode : CodePoint}

/-- Setting a mode appends its letter, if it is not there. -/
theorem modeSet_updateChannelModes_add (t : TrackedChannel) (hplus : mode ≠ 43)
    (hminus : mode ≠ 45) :
    modeSet (t.updateChannelModes mode true).modes =
      if mode ∈ modeSet t.modes then modeSet t.modes else modeSet t.modes ++ [mode] := by
  have hmem : mode ∈ t.modes.dropWhile (· = 43) ↔ mode ∈ modeSet t.modes := by
    rw [← mem_modeSet hplus hminus, modeSet_dropWhile]
  by_cases h : mode ∈ modeSet t.modes
  · simp only [updateChannelModes, if_true, hmem, h]
  · simp only [updateChannelModes, if_true, hmem, h, if_false]
    have hset : modeSet (43 :: (t.modes.dropWhile (· = 43) ++ [mode])) =
        modeSet (t.modes.dropWhile (· = 43)) ++ [mode] := by
      simp [modeSet, hplus, hminus]
    rw [hset, modeSet_dropWhile]

/-- Unsetting a mode takes its letter out. -/
theorem modeSet_updateChannelModes_remove (t : TrackedChannel) (hplus : mode ≠ 43)
    (hminus : mode ≠ 45) :
    modeSet (t.updateChannelModes mode false).modes = (modeSet t.modes).filter (· ≠ mode) := by
  have hmem : mode ∈ t.modes.dropWhile (· = 43) ↔ mode ∈ modeSet t.modes := by
    rw [← mem_modeSet hplus hminus, modeSet_dropWhile]
  have hremaining : modeSet ((t.modes.dropWhile (· = 43)).filter (· ≠ mode)) =
      (modeSet t.modes).filter (· ≠ mode) := by
    rw [← modeSet_dropWhile t.modes, modeSet, modeSet, List.filter_filter, List.filter_filter]
    exact List.filter_congr fun c _ => Bool.and_comm _ _
  by_cases h : mode ∈ modeSet t.modes
  · simp only [updateChannelModes, Bool.false_eq_true, if_false, hmem, h, if_true]
    split_ifs with hempty
    · rw [← hremaining, hempty]
    · rw [← hremaining]
      rfl
  · simp only [updateChannelModes, Bool.false_eq_true, if_false, hmem, h]
    refine (List.filter_eq_self.mpr fun c hc => ?_).symm
    simpa using fun heq : c = mode => h (heq ▸ hc)

@[simp] theorem updateChannelModes_runtime (t : TrackedChannel) (mode : CodePoint)
    (adding : Bool) : (t.updateChannelModes mode adding).runtime = t.runtime := by
  unfold updateChannelModes
  dsimp only
  split_ifs <;> rfl

@[simp] theorem updateChannelModes_limit (t : TrackedChannel) (mode : CodePoint)
    (adding : Bool) : (t.updateChannelModes mode adding).limit = t.limit := by
  unfold updateChannelModes
  dsimp only
  split_ifs <;> rfl

@[simp] theorem processKey_modes (t : TrackedChannel) (argument : Str) (adding : Bool) :
    (t.processKey argument adding).modes = t.modes := by
  unfold processKey
  split <;> rfl

@[simp] theorem processKey_limit (t : TrackedChannel) (argument : Str) (adding : Bool) :
    (t.processKey argument adding).limit = t.limit := by
  unfold processKey
  split <;> rfl

theorem processKey_usable (t : TrackedChannel) {key : Str} (h : UsableKey key) :
    t.processKey key true = { t with
      runtime := { t.runtime with key := some key }
      recorded := t.recorded ++ [some key] } := by
  rw [processKey, if_pos rfl, ChannelRuntime.setKey_usable _ h]

theorem processKey_unusable (t : TrackedChannel) {key : Str} (h : ¬ UsableKey key) :
    t.processKey key true = t := by
  rw [processKey, if_pos rfl, ChannelRuntime.setKey_unusable _ h]

theorem processKey_removing (t : TrackedChannel) (argument : Str) :
    t.processKey argument false = { t with
      runtime := { t.runtime with key := none }
      recorded := t.recorded ++ [none] } := rfl

theorem processKey_runtime (t : TrackedChannel) (argument : Str) (adding : Bool) :
    (t.processKey argument adding).runtime =
      (t.runtime.setKey (if adding then some argument else none)).1 := by
  cases adding with
  | false => rfl
  | true =>
    rw [if_pos rfl]
    by_cases h : UsableKey argument
    · rw [processKey_usable t h, ChannelRuntime.setKey_usable _ h]
    · rw [processKey_unusable t h, ChannelRuntime.setKey_unusable _ h]

theorem processSetting_count (t : TrackedChannel) (argument : Option Str) (adding : Bool) :
    t.processSetting 108 argument adding = t.setLimit (if adding then argument else none) := by
  unfold processSetting
  rw [if_pos rfl]

theorem processSetting_some (t : TrackedChannel) {mode : CodePoint} (hmode : mode ≠ 108)
    (argument : Str) (adding : Bool) : t.processSetting mode (some argument) adding =
      if !adding || argument ≠ lit "*" then t.processKey argument adding else t := by
  unfold processSetting
  rw [if_neg hmode]

theorem processSetting_none (t : TrackedChannel) {mode : CodePoint} (hmode : mode ≠ 108)
    (adding : Bool) : t.processSetting mode none adding =
      if !adding && t.runtime.key.isSome then t.processKey [] false else t := by
  unfold processSetting
  rw [if_neg hmode]

@[simp] theorem processSetting_modes (t : TrackedChannel) (mode : CodePoint)
    (argument : Option Str) (adding : Bool) :
    (t.processSetting mode argument adding).modes = t.modes := by
  by_cases hmode : mode = 108
  · rw [hmode, processSetting_count]
    rfl
  cases argument with
  | none =>
    rw [processSetting_none t hmode, apply_ite TrackedChannel.modes, processKey_modes, ite_self]
  | some argument =>
    rw [processSetting_some t hmode, apply_ite TrackedChannel.modes, processKey_modes, ite_self]

/-- `process_setting` sets the limit that the server has. -/
theorem processSetting_limit (t : TrackedChannel) (mode : CodePoint) (argument : Option Str)
    (adding : Bool) : (t.processSetting mode argument adding).limit =
      if mode = 108 then if adding then argument.bind count else none else t.limit := by
  by_cases hmode : mode = 108
  · rw [hmode, processSetting_count, if_pos rfl]
    cases adding with
    | true => rfl
    | false => rfl
  rw [if_neg hmode]
  cases argument with
  | none =>
    rw [processSetting_none t hmode, apply_ite TrackedChannel.limit, processKey_limit, ite_self]
  | some argument =>
    rw [processSetting_some t hmode, apply_ite TrackedChannel.limit, processKey_limit, ite_self]

/-- `process_setting` sets the key last shown, or clears it. -/
theorem processSetting_key (t : TrackedChannel) {argument : Option Str} {adding : Bool}
    (hcarried : adding = true → argument.isSome = true)
    (husable : adding = true → ∀ key, argument = some key → key = lit "*" ∨ UsableKey key) :
    (t.processSetting 107 argument adding).runtime.key =
      if adding then if argument = some (lit "*") then t.runtime.key else argument else none := by
  have hmode : (107 : CodePoint) ≠ 108 := by decide
  cases adding with
  | true =>
    obtain ⟨key, rfl⟩ := Option.isSome_iff_exists.mp (hcarried rfl)
    rw [processSetting_some t hmode]
    by_cases hhidden : key = lit "*"
    · simp [hhidden]
    · have hkey := (husable rfl key rfl).resolve_left hhidden
      simp [hhidden, processKey_usable t hkey]
  | false =>
    cases argument with
    | some key => simp [processSetting_some t hmode, processKey_removing]
    | none =>
      rw [processSetting_none t hmode]
      cases hkey : t.runtime.key with
      | none => simp [hkey]
      | some key => simp [processKey_removing]

/-- Members and bans stay out of the modes, the limit and the key. -/
theorem applyModeChange_other_key (caps : ISupport) (c : ChannelRuntime) {change : ModeChange}
    (h : ¬ (change.2.1 = 107 ∨ change.2.1 = 108)) : (c.applyModeChange caps change).key = c.key := by
  obtain ⟨adding, mode, argument⟩ := change
  unfold ChannelRuntime.applyModeChange
  dsimp only at h ⊢
  rw [if_neg h]
  cases argument with
  | none => rfl
  | some argument => dsimp only; split_ifs <;> rfl

/-- The runtime changes as without the modes and the limit. -/
theorem applyModeChange_runtime (caps : ISupport) (t : TrackedChannel) (change : ModeChange) :
    (t.applyModeChange caps change).runtime = t.runtime.applyModeChange caps change := by
  obtain ⟨adding, mode, argument⟩ := change
  by_cases hmode : mode = 107 ∨ mode = 108
  · have hupdated : ∀ updated : TrackedChannel, updated.runtime = t.runtime →
        (updated.processSetting mode argument adding).runtime =
          t.runtime.processSetting mode argument adding := by
      intro updated hruntime
      by_cases hlimit : mode = 108
      · rw [hlimit, processSetting_count]
        exact hruntime
      cases argument with
      | none =>
        rw [processSetting_none _ hlimit, ChannelRuntime.processSetting, if_neg hlimit,
          apply_ite TrackedChannel.runtime, processKey_runtime, hruntime]
        cases adding with
        | true => simp
        | false =>
          cases hkey : t.runtime.key with
          | none =>
            have hsame : (t.runtime.setKey none).1 = t.runtime := by
              rw [ChannelRuntime.setKey_none, ← hkey]
            simp [hsame]
          | some key => simp
      | some argument =>
        rw [processSetting_some _ hlimit, ChannelRuntime.processSetting, if_neg hlimit,
          apply_ite TrackedChannel.runtime, processKey_runtime, hruntime]
        cases adding with
        | true => by_cases hhidden : argument = lit "*" <;> simp [hhidden]
        | false => simp
    simp only [applyModeChange, ChannelRuntime.applyModeChange, if_pos hmode]
    split_ifs
    · exact hupdated _ (updateChannelModes_runtime t mode adding)
    · exact hupdated _ rfl
  · simp only [applyModeChange, if_neg hmode]
    split_ifs
    · rw [updateChannelModes_runtime]
    · rfl

end TrackedChannel

/-! ## A change on both sides -/

namespace TrackedChannel

variable {caps : ISupport} {change : ModeChange}

theorem applyModeChange_modes (caps : ISupport) (t : TrackedChannel) (change : ModeChange) :
    (t.applyModeChange caps change).modes =
      if change.2.1 ∈ caps.channelModes then (t.updateChannelModes change.2.1 change.1).modes
      else t.modes := by
  obtain ⟨adding, mode, argument⟩ := change
  unfold applyModeChange
  dsimp only
  split_ifs
  · rw [processSetting_modes]
  · rw [processSetting_modes]
  · rfl
  · rfl

theorem applyModeChange_limit (caps : ISupport) (t : TrackedChannel) (change : ModeChange) :
    (t.applyModeChange caps change).limit =
      if change.2.1 = 108 then if change.1 then change.2.2.bind count else none else t.limit := by
  obtain ⟨adding, mode, argument⟩ := change
  have hupdated : (if mode ∈ caps.channelModes then t.updateChannelModes mode adding
      else t).limit = t.limit := by
    rw [apply_ite TrackedChannel.limit, updateChannelModes_limit, ite_self]
  unfold applyModeChange
  dsimp only
  by_cases hmode : mode = 107 ∨ mode = 108
  · rw [if_pos hmode, processSetting_limit, hupdated]
  · rw [if_neg hmode, if_neg fun hlimit => hmode (.inr hlimit)]
    exact hupdated

/-- What a `+k` of the server's carries: its key, or `*` -/
def CarriesKey (change : ModeChange) : Prop :=
  change.1 = true → change.2.1 = 107 →
    ∃ key, change.2.2 = some key ∧ (key = lit "*" ∨ UsableKey key)

theorem applyModeChange_key (caps : ISupport) (t : TrackedChannel) (h : CarriesKey change) :
    (t.applyModeChange caps change).runtime.key =
      if change.2.1 = 107 then
        if change.1 then if change.2.2 = some (lit "*") then t.runtime.key else change.2.2 else none
      else t.runtime.key := by
  obtain ⟨adding, mode, argument⟩ := change
  have hupdated : (if mode ∈ caps.channelModes then t.updateChannelModes mode adding
      else t).runtime = t.runtime := by
    rw [apply_ite TrackedChannel.runtime, updateChannelModes_runtime, ite_self]
  unfold applyModeChange
  dsimp only at h ⊢
  by_cases hkey : mode = 107
  · subst hkey
    rw [if_pos (.inl rfl), if_pos rfl, processSetting_key, hupdated]
    · intro hadding
      obtain ⟨key, hargument, -⟩ := h hadding rfl
      exact Option.isSome_iff_exists.mpr ⟨key, hargument⟩
    · intro hadding key hargument
      obtain ⟨key', hargument', husable⟩ := h hadding rfl
      obtain rfl : key' = key := Option.some.inj (hargument'.symm.trans hargument)
      exact husable
  · rw [if_neg hkey]
    by_cases hlimit : mode = 108
    · rw [if_pos (.inr hlimit), hlimit, processSetting_count]
      rw [hlimit] at hupdated
      exact congrArg ChannelRuntime.key hupdated
    · rw [if_neg fun hmode => hmode.elim hkey hlimit]
      dsimp only
      rw [hupdated]
      exact applyModeChange_other_key caps t.runtime fun hmode => hmode.elim hkey hlimit

end TrackedChannel

section Tracking

open TrackedChannel

variable {caps : ISupport} {t : TrackedChannel} {s : ServerModes}

/-- A change of the server's is followed. -/
theorem Tracks.applyModeChange (h : Tracks t s) {change : ModeChange}
    (hplus : change.2.1 ≠ 43) (hminus : change.2.1 ≠ 45) (hkey : CarriesKey change) :
    Tracks (t.applyModeChange caps change) (s.apply caps change) := by
  have hmodes := applyModeChange_modes caps t change
  refine ⟨?_, fun mode => ?_, ?_, ?_⟩
  · rw [hmodes]
    split_ifs with hclass
    · cases hadding : change.1 with
      | true =>
        rw [modeSet_updateChannelModes_add t hplus hminus]
        split_ifs with hmem
        · exact h.nodup
        · rw [← List.concat_eq_append]
          exact h.nodup.concat hmem
      | false =>
        rw [modeSet_updateChannelModes_remove t hplus hminus]
        exact h.nodup.filter _
    · exact h.nodup
  · rw [hmodes, ServerModes.apply]
    dsimp only
    split_ifs with hclass hadding
    · rw [hadding, modeSet_updateChannelModes_add t hplus hminus, Finset.mem_insert, ← h.active]
      split_ifs with hmem
      · constructor
        · exact fun hmode => .inr hmode
        · rintro (rfl | hmode)
          · exact hmem
          · exact hmode
      · rw [List.mem_append, List.mem_singleton, or_comm]
    · rw [Bool.not_eq_true] at hadding
      rw [hadding, modeSet_updateChannelModes_remove t hplus hminus, List.mem_filter,
        Finset.mem_erase, ← h.active, and_comm]
      simp
    · exact h.active mode
  · rw [applyModeChange_limit, ServerModes.apply, h.limit]
  · rw [applyModeChange_key caps t hkey, ServerModes.apply, h.key]

theorem Tracks.foldl (h : Tracks t s) {changes : List ModeChange}
    (hletters : ∀ e ∈ changes, e.2.1 ≠ 43 ∧ e.2.1 ≠ 45) (hkeys : ∀ e ∈ changes, CarriesKey e) :
    Tracks (changes.foldl (TrackedChannel.applyModeChange caps) t)
      (changes.foldl (ServerModes.apply caps) s) := by
  induction changes generalizing t s with
  | nil => exact h
  | cons e changes ih =>
    obtain ⟨hplus, hminus⟩ := hletters e List.mem_cons_self
    exact ih (h.applyModeChange hplus hminus (hkeys e List.mem_cons_self))
      (fun e he => hletters e (List.mem_cons_of_mem _ he))
      fun e he => hkeys e (List.mem_cons_of_mem _ he)

theorem SentBatch.carriesKey {changes : List ModeChange} (h : SentBatch caps changes)
    (hclass : (107 : CodePoint) ∈ caps.chanmodes.2.1) {e : ModeChange} (he : e ∈ changes) :
    CarriesKey e := by
  obtain ⟨adding, mode, argument⟩ := e
  rintro (rfl : adding = true) (rfl : mode = 107)
  have hcarried := h.paired _ he
  have hrequires : modeRequiresArgument caps (true, 107) = true := by
    simp [modeRequiresArgument, hclass]
  obtain ⟨key, rfl⟩ := Option.isSome_iff_exists.mp (hcarried.trans hrequires)
  exact ⟨key, rfl, h.keys key he⟩

/-- A line is followed, whether or not its only `-k` shows an argument. -/
theorem Tracks.handleMode (h : Tracks t s) {changes : List ModeChange} {channel text : Str}
    {arguments : List Str} (hclass : (107 : CodePoint) ∈ caps.chanmodes.2.1)
    (hsent : SentBatch caps changes)
    (htells : TellsBatch changes text arguments) :
    Tracks (t.handleMode caps (channel :: text :: arguments))
      (changes.foldl (ServerModes.apply caps) s) := by
  have hletters : ∀ e ∈ changes, e.2.1 ≠ 43 ∧ e.2.1 ≠ 45 := fun e he =>
    htells.renders.not_sign _ (List.mem_map_of_mem he)
  have hkeys : ∀ e ∈ changes, CarriesKey e := fun e he => hsent.carriesKey hclass he
  rcases htells.carried with rfl | ⟨before, argument, after, rfl, honly, rfl⟩
  · rw [TrackedChannel.handleMode, iterModeChanges_of_renders htells.renders hsent.paired]
    exact h.foldl hletters hkeys
  · rw [TrackedChannel.handleMode, iterModeChanges_of_stripped htells.renders hsent.paired
      fun e he => honly e (List.mem_append_left _ he)]
    -- the server takes a `-k` alike with and without its argument
    have hserver : (before ++ (false, 107, argument) :: after).foldl (ServerModes.apply caps) s =
        (before ++ (false, 107, none) :: after).foldl (ServerModes.apply caps) s := by
      rw [List.foldl_append, List.foldl_append, List.foldl_cons, List.foldl_cons]
      rfl
    rw [hserver]
    refine h.foldl (fun e he => ?_) fun e he => ?_
    · rcases List.mem_append.mp he with he | he
      · exact hletters e (List.mem_append_left _ he)
      · rcases List.mem_cons.mp he with rfl | he
        · exact ⟨by decide, by decide⟩
        · exact hletters e (List.mem_append_right _ (List.mem_cons_of_mem _ he))
    · rcases List.mem_append.mp he with he | he
      · exact hkeys e (List.mem_append_left _ he)
      · rcases List.mem_cons.mp he with rfl | he
        · rintro ⟨⟩
        · exact hkeys e (List.mem_append_right _ (List.mem_cons_of_mem _ he))

/-! ## The reply -/

/-- Without an `l` the limit stays as it was. -/
theorem foldl_replyChange_fst {changes : List ModeChange} (h : ∀ e ∈ changes, e.2.1 ≠ 108)
    (found : Option ℕ × Option Str) : (changes.foldl replyChange found).1 = found.1 := by
  refine List.foldlRecOn changes replyChange (motive := fun f => f.1 = found.1) rfl
    fun f hf e he => ?_
  simp only [replyChange, h e he, decide_false, Bool.and_false, Bool.false_eq_true, if_false]
  split_ifs <;> exact hf

/-- Without a `k` the key does. -/
theorem foldl_replyChange_snd {changes : List ModeChange} (h : ∀ e ∈ changes, e.2.1 ≠ 107)
    (found : Option ℕ × Option Str) : (changes.foldl replyChange found).2 = found.2 := by
  refine List.foldlRecOn changes replyChange (motive := fun f => f.2 = found.2) rfl
    fun f hf e he => ?_
  simp only [replyChange, h e he, decide_false, Bool.and_false, Bool.false_eq_true, if_false]
  split_ifs <;> exact hf

/-- The last `+l` gives the limit. -/
theorem foldl_replyChange_limit {before after : List ModeChange} (argument : Option Str)
    (hafter : ∀ e ∈ after, e.2.1 ≠ 108) (found : Option ℕ × Option Str) :
    ((before ++ (true, 108, argument) :: after).foldl replyChange found).1 =
      argument.bind count := by
  rw [List.foldl_append, List.foldl_cons, foldl_replyChange_fst hafter]
  rfl

/-- `argument or "*"` -/
def argumentOrStar : Option Str → Str
  | none | some [] => lit "*"
  | some argument => argument

/-- The last `+k` gives the key. -/
theorem foldl_replyChange_key {before after : List ModeChange} (argument : Option Str)
    (hafter : ∀ e ∈ after, e.2.1 ≠ 107) (found : Option ℕ × Option Str) :
    ((before ++ (true, 107, argument) :: after).foldl replyChange found).2 =
      some (argumentOrStar argument) := by
  rw [List.foldl_append, List.foldl_cons, foldl_replyChange_snd hafter]
  rfl

/-- In a full state a letter stands once. -/
theorem FullState.others {before after : List ModeChange} {e : ModeChange}
    (h : FullState caps (before ++ e :: after)) : ∀ e' ∈ before ++ after, e'.2.1 ≠ e.2.1 := by
  intro e' he' heq
  have hnodup := h.nodup
  rw [List.map_append, List.map_cons, List.nodup_middle, ← List.map_append] at hnodup
  exact (List.nodup_cons.mp hnodup).1 (heq ▸ List.mem_map_of_mem he')

theorem FullState.left {before after : List ModeChange} (h : FullState caps (before ++ after)) :
    FullState caps before where
  adding e he := h.adding e (List.mem_append_left _ he)
  nodup := h.nodup.sublist ((List.sublist_append_left before after).map _)
  paired e he := h.paired e (List.mem_append_left _ he)
  limits s hs := h.limits s (List.mem_append_left _ hs)

theorem FullState.split {changes : List ModeChange} (h : FullState caps changes) {e : ModeChange}
    (he : e ∈ changes) : ∃ before after, changes = before ++ (true, e.2.1, e.2.2) :: after ∧
      ∀ e' ∈ before ++ after, e'.2.1 ≠ e.2.1 := by
  obtain ⟨before, after, rfl⟩ := List.append_of_mem he
  have hadding : e = (true, e.2.1, e.2.2) := Prod.ext (h.adding e he) rfl
  exact ⟨before, after, by rw [← hadding], h.others⟩

theorem find_letter {before after : List ModeChange} {mode : CodePoint} {argument : Option Str}
    (h : ∀ e ∈ before ++ after, e.2.1 ≠ mode) :
    (before ++ (true, mode, argument) :: after).find? (fun e => e.2.1 = mode) =
      some (true, mode, argument) := by
  rw [List.find?_append, List.find?_eq_none.mpr, Option.none_or, List.find?_cons_of_pos (by simp)]
  intro e he
  simpa using h e (List.mem_append_left _ he)

/-- What is read off a full state: its limit, and the key with `*` for one that is hidden. -/
theorem FullState.foldl_replyChange {changes : List ModeChange} (h : FullState caps changes) :
    changes.foldl replyChange (none, none) =
      ((ServerModes.listed changes).limit,
        (changes.find? fun e => e.2.1 = 107).map fun e => argumentOrStar e.2.2) := by
  refine Prod.ext ?_ ?_
  · by_cases hlimit : ∃ e ∈ changes, e.2.1 = 108
    · obtain ⟨e, he, hmode⟩ := hlimit
      obtain ⟨before, after, rfl, hother⟩ := h.split he
      rw [hmode] at hother ⊢
      rw [foldl_replyChange_limit _ fun e' he' => hother e' (List.mem_append_right _ he'),
        ServerModes.listed, find_letter hother, Option.bind_some]
    · have hnone : ∀ e ∈ changes, e.2.1 ≠ 108 := fun e he heq => hlimit ⟨e, he, heq⟩
      rw [foldl_replyChange_fst hnone, ServerModes.listed, List.find?_eq_none.mpr]
      · rfl
      · simpa using hnone
  · by_cases hkey : ∃ e ∈ changes, e.2.1 = 107
    · obtain ⟨e, he, hmode⟩ := hkey
      obtain ⟨before, after, rfl, hother⟩ := h.split he
      rw [hmode] at hother ⊢
      rw [foldl_replyChange_key _ fun e' he' => hother e' (List.mem_append_right _ he'),
        find_letter hother, Option.map_some]
    · have hnone : ∀ e ∈ changes, e.2.1 ≠ 107 := fun e he heq => hkey ⟨e, he, heq⟩
      rw [foldl_replyChange_snd hnone, List.find?_eq_none.mpr]
      · rfl
      · simpa using hnone

/-- A usable key is not empty. -/
theorem UsableKey.argumentOrStar {key : Str} (h : UsableKey key) :
    argumentOrStar (some key) = key := by
  cases key with
  | nil => simp [UsableKey, validateKey] at h
  | cons c key => rfl

/-- After a reply that shows the key, or that has none, the channel is tracked. -/
theorem tracks_handleChannelModes (t : TrackedChannel) {changes : List ModeChange}
    {client channel text : Str} (hfull : FullState caps changes)
    (htext : Renders true (changes.map ModeChange.letter) text)
    (hclass : (107 : CodePoint) ∈ caps.chanmodes.2.1)
    (hshown : ∀ key, (true, 107, some key) ∈ changes → key ≠ lit "*" ∧ UsableKey key) :
    Tracks (t.handleChannelModes caps (client :: channel :: text :: ModeChange.arguments changes))
      (ServerModes.listed changes) := by
  have hmodes : modeSet text = changes.map fun e => e.2.1 := by
    rw [modeSet, htext.filter_text, List.map_map]
    rfl
  have hread : ∀ t' : TrackedChannel, t'.modes = text →
      t'.limit = (ServerModes.listed changes).limit →
      t'.runtime.key = (ServerModes.listed changes).shownKey →
      Tracks t' (ServerModes.listed changes) := by
    intro t' htext' hlimit hkey
    refine ⟨?_, fun mode => ?_, hlimit, hkey⟩
    · rw [htext', hmodes]
      exact hfull.nodup
    · rw [htext', hmodes, ServerModes.listed, List.mem_toFinset]
  rw [TrackedChannel.handleChannelModes, iterModeChanges_of_renders htext hfull.paired,
    hfull.foldl_replyChange]
  dsimp only
  cases hfind : changes.find? fun e => e.2.1 = 107 with
  | none =>
    have hnone : (ServerModes.listed changes).shownKey = none := by
      rw [ServerModes.listed, hfind]
      rfl
    rw [Option.map_none]
    by_cases hkept : t.runtime.key = none
    · rw [if_pos (.inr hkept.symm)]
      exact hread _ rfl rfl (hkept.trans hnone.symm)
    · rw [if_neg fun h => h.elim (by simp) fun h => hkept h.symm]
      exact hread _ rfl rfl hnone.symm
  | some e =>
    obtain ⟨adding, mode, argument⟩ := e
    obtain rfl : mode = 107 := by simpa using List.find?_some hfind
    have he := List.mem_of_find?_eq_some hfind
    obtain rfl : adding = true := hfull.adding _ he
    have hrequires : modeRequiresArgument caps (true, 107) = true := by
      simp [modeRequiresArgument, hclass]
    obtain ⟨key, rfl⟩ := Option.isSome_iff_exists.mp ((hfull.paired _ he).trans hrequires)
    obtain ⟨hstar, husable⟩ := hshown key he
    have hshownKey : (ServerModes.listed changes).shownKey = some key := by
      rw [ServerModes.listed, hfind]
      rfl
    rw [Option.map_some, husable.argumentOrStar]
    by_cases hkept : t.runtime.key = some key
    · rw [if_pos (.inr hkept.symm)]
      exact hread _ rfl rfl (hkept.trans hshownKey.symm)
    · rw [if_neg fun h => h.elim (fun h => hstar (Option.some.inj h)) fun h => hkept h.symm,
        Option.getD_some, Option.isSome_some, processKey_usable _ husable]
      exact hread _ rfl rfl hshownKey.symm

end Tracking

/-! ## A hidden key -/

section Hidden

variable {caps : ISupport} {before after : List ModeChange} {key : Str}

/-- The reply left the key alone, asked for no write, and showed the limit. -/
structure KeyUntouched (t t' : TrackedChannel) (limit : Option ℕ) : Prop where
  limit : t'.limit = limit
  key : t'.runtime.key = t.runtime.key
  recorded : t'.recorded = t.recorded

/-- What is taken for the hidden key is nothing that would replace the stored one. -/
def KeyHarmless (stored argument : Option Str) : Prop :=
  ∀ a, argument = some a → a = lit "*" ∨ stored = some a ∨ ¬ UsableKey a

/-- A limit after the hidden key is followed by an argument of the same value. -/
def LimitKept (after : List ModeChange) : Prop :=
  match after.dropWhile fun e => e.2.1 ≠ 108 with
  | [] => True
  | (_, _, argument) :: rest =>
    (ModeChange.arguments rest).head?.bind count = argument.bind count

/-- The key that is read is the argument itself, or there is nothing to read. -/
theorem argumentOrStar_cases (argument : Option Str) :
    argument = some (argumentOrStar argument) ∨
      argumentOrStar argument = lit "*" ∧ ∀ a, argument = some a → ¬ UsableKey a := by
  match argument with
  | none => exact .inr ⟨rfl, by simp⟩
  | some [] =>
    refine .inr ⟨rfl, ?_⟩
    rintro a ⟨⟩
    simp [UsableKey, validateKey]
  | some (c :: rest) => exact .inl rfl

theorem keyHarmless_iff {stored argument : Option Str} :
    KeyHarmless stored argument ↔
      some (argumentOrStar argument) = some (lit "*") ∨
        some (argumentOrStar argument) = stored ∨ ¬ UsableKey (argumentOrStar argument) := by
  rcases argumentOrStar_cases argument with hsame | ⟨hstar, hunusable⟩
  · refine ⟨fun h => ?_, fun h a ha => ?_⟩
    · rcases h _ hsame with heq | heq | hunusable
      · exact .inl (congrArg some heq)
      · exact .inr (.inl heq.symm)
      · exact .inr (.inr hunusable)
    · obtain rfl : argumentOrStar argument = a := Option.some.inj (hsame.symm.trans ha)
      rcases h with heq | heq | hunusable
      · exact .inl (Option.some.inj heq)
      · exact .inr (.inl heq.symm)
      · exact .inr (.inr hunusable)
  · exact ⟨fun _ => .inl (congrArg some hstar), fun _ a ha => .inr (.inr (hunusable a ha))⟩

/-- A reply in which an argument, or none, is read for the key leaves it alone exactly if
the argument is harmless. -/
theorem keyUntouched_iff (t : TrackedChannel) {client channel text : Str} {arguments : List Str}
    {found limit : Option ℕ} {argument : Option Str}
    (hread : (iterModeChanges caps text arguments).foldl TrackedChannel.replyChange (none, none) =
      (found, some (argumentOrStar argument))) :
    KeyUntouched t (t.handleChannelModes caps (client :: channel :: text :: arguments)) limit ↔
      KeyHarmless t.runtime.key argument ∧ found = limit := by
  rw [TrackedChannel.handleChannelModes, hread, keyHarmless_iff]
  dsimp only
  by_cases hkept : some (argumentOrStar argument) = some (lit "*") ∨
      some (argumentOrStar argument) = t.runtime.key
  · rw [if_pos hkept]
    refine ⟨fun h => ⟨?_, h.limit⟩, fun h => ⟨h.2, rfl, rfl⟩⟩
    exact hkept.imp_right .inl
  rw [if_neg hkept, Option.getD_some, Option.isSome_some]
  obtain ⟨hstar, hstored⟩ := not_or.mp hkept
  by_cases husable : UsableKey (argumentOrStar argument)
  · rw [TrackedChannel.processKey_usable _ husable]
    refine ⟨fun h => absurd h.key hstored, fun h => ?_⟩
    rcases h.1 with heq | heq | hunusable
    · exact absurd heq hstar
    · exact absurd heq hstored
    · exact absurd husable hunusable
  · rw [TrackedChannel.processKey_unusable _ husable]
    exact ⟨fun h => ⟨.inr (.inr husable), h.limit⟩, fun h => ⟨h.2, rfl, rfl⟩⟩

/-- The limit of a state does not depend on its key. -/
theorem listed_limit (before after : List ModeChange) (argument : Option Str) :
    (ServerModes.listed (before ++ (true, 107, argument) :: after)).limit =
      (ServerModes.listed (before ++ after)).limit := by
  have hne : ((107 : CodePoint) = 108) = False := by decide
  simp only [ServerModes.listed, List.find?_append, List.find?_cons, hne, decide_false]

/-- A state with another argument shown for its key -/
theorem FullState.replaceKey (h : FullState caps (before ++ (true, 107, some key) :: after))
    (shown : Str) : FullState caps (before ++ (true, 107, some shown) :: after) := by
  have hother : ∀ e ∈ before ++ (true, 107, some shown) :: after, e ≠ (true, 107, some shown) →
      e ∈ before ++ (true, 107, some key) :: after := by
    intro e he hne
    rcases List.mem_append.mp he with he | he
    · exact List.mem_append_left _ he
    · exact List.mem_append_right _ (List.mem_cons_of_mem _
        ((List.mem_cons.mp he).resolve_left hne))
  have hkey : (true, 107, some key) ∈ before ++ (true, 107, some key) :: after :=
    List.mem_append_right _ List.mem_cons_self
  refine ⟨fun e he => ?_, ?_, fun e he => ?_, fun s hs => h.limits s (hother _ hs (by simp))⟩
  · by_cases heq : e = (true, 107, some shown)
    · rw [heq]
    · exact h.adding e (hother e he heq)
  · simpa using h.nodup
  · by_cases heq : e = (true, 107, some shown)
    · have hcarried := h.paired _ hkey
      rw [heq]
      exact hcarried
    · exact h.paired e (hother e he heq)

/-- Batches of the same letters lack the same ones. -/
theorem mode_ne_of_letters {l l' : List ModeChange} {mode : CodePoint}
    (hletters : l'.map ModeChange.letter = l.map ModeChange.letter)
    (h : ∀ e ∈ l, e.2.1 ≠ mode) : ∀ e ∈ l', e.2.1 ≠ mode := by
  intro e he
  obtain ⟨e', he', hsame⟩ := List.mem_map.mp (hletters ▸ List.mem_map_of_mem he)
  have hmode : e'.2.1 = e.2.1 := congrArg Prod.snd hsame
  exact hmode ▸ h e' he'

theorem limitKept_of_forall (h : ∀ e ∈ after, e.2.1 ≠ 108) : LimitKept after := by
  have hall : after.dropWhile (fun e => e.2.1 ≠ 108) = [] :=
    List.dropWhile_eq_nil_iff.mpr fun e he => by simpa using h e he
  rw [LimitKept, hall]
  trivial

theorem limitKept_append {inner outer : List ModeChange} {argument : Option Str}
    (h : ∀ e ∈ inner, e.2.1 ≠ 108) : LimitKept (inner ++ (true, 108, argument) :: outer) ↔
      (ModeChange.arguments outer).head?.bind count = argument.bind count := by
  have hinner : (inner ++ (true, 108, argument) :: outer).dropWhile (fun e => e.2.1 ≠ 108) =
      (true, 108, argument) :: outer := by
    rw [List.dropWhile_append_of_pos, List.dropWhile_cons_of_neg (by simp)]
    intro e he
    simpa using h e he
  rw [LimitKept, hinner]

/-- A limit after the hidden key is read off the argument after its own. -/
theorem FullState.omitted_limit {inner outer : List ModeChange} {argument : Option Str}
    (h : FullState caps (before ++ (true, 107, some key) ::
      (inner ++ (true, 108, argument) :: outer)))
    (hlimit : (108 : CodePoint) ∈ caps.chanmodes.2.2.1) (shown : Option Str)
    (found : Option ℕ × Option Str) :
    ((before ++ (true, 107, shown) ::
        takeArguments ((inner ++ (true, 108, argument) :: outer).map
            fun e => (e.letter, e.2.2.isSome))
          (ModeChange.arguments (inner ++ (true, 108, argument) :: outer)).tail).foldl
        TrackedChannel.replyChange found).1 =
      (ServerModes.listed (before ++ (true, 107, some key) ::
        (inner ++ (true, 108, argument) :: outer))).limit ↔
    LimitKept (inner ++ (true, 108, argument) :: outer) := by
  rw [← List.cons_append, ← List.append_assoc] at h
  have hothers := h.others
  have hrequires : modeRequiresArgument caps (true, 108) = true := by
    simp [modeRequiresArgument, hlimit]
  obtain ⟨value, rfl⟩ := Option.isSome_iff_exists.mp
    ((h.paired _ (List.mem_append_right _ List.mem_cons_self)).trans hrequires)
  have hlisted : (ServerModes.listed (before ++ (true, 107, some key) ::
      (inner ++ (true, 108, some value) :: outer))).limit = count value := by
    rw [← List.cons_append, ← List.append_assoc, ServerModes.listed]
    dsimp only
    rw [find_letter hothers]
    rfl
  have hinner : ∀ e ∈ inner, e.2.1 ≠ 108 := fun e he =>
    hothers e (List.mem_append_left _ (List.mem_append_right _ (List.mem_cons_of_mem _ he)))
  obtain ⟨head, tail, hshifted, htail⟩ := takeArguments_shifted inner outer true 108 value
  have htailNone := mode_ne_of_letters htail fun e he => hothers e (List.mem_append_right _ he)
  rw [hlisted, limitKept_append hinner, hshifted, ← List.cons_append, ← List.append_assoc]
  exact iff_of_eq (congrArg (· = count value) (foldl_replyChange_limit _ htailNone found))

/-- What is read off a reply without the key's argument: the next argument for the key, and
for a limit after it the argument after its own. -/
theorem FullState.foldl_replyChange_omitted
    (h : FullState caps (before ++ (true, 107, some key) :: after))
    (hlimit : (108 : CodePoint) ∈ caps.chanmodes.2.2.1) :
    ∃ found, (before ++ (true, 107, (ModeChange.arguments after).head?) ::
        takeArguments (after.map fun e => (e.letter, e.2.2.isSome))
          (ModeChange.arguments after).tail).foldl TrackedChannel.replyChange (none, none) =
        (found, some (argumentOrStar (ModeChange.arguments after).head?)) ∧
      (found = (ServerModes.listed (before ++ (true, 107, some key) :: after)).limit ↔
        LimitKept after) := by
  obtain ⟨rest, hrest, hletters⟩ := takeArguments_drop after [] (ModeChange.arguments after).tail
  simp only [List.append_nil, takeArguments] at hrest
  have hrestKey := mode_ne_of_letters hletters fun e he => h.others e (List.mem_append_right _ he)
  refine ⟨_, Prod.ext rfl (foldl_replyChange_key _ (hrest ▸ hrestKey) _), ?_⟩
  by_cases hafter : ∃ e ∈ after, e.2.1 = 108
  · obtain ⟨⟨adding, mode, argument⟩, he, rfl⟩ := hafter
    obtain ⟨inner, outer, rfl⟩ := List.append_of_mem he
    obtain rfl : adding = true :=
      h.adding _ (List.mem_append_right _ (List.mem_cons_of_mem _ he))
    exact h.omitted_limit hlimit _ _
  · have hnone : ∀ e ∈ after, e.2.1 ≠ 108 := fun e he heq => hafter ⟨e, he, heq⟩
    have hrestNone := mode_ne_of_letters hletters hnone
    refine iff_of_true ?_ (limitKept_of_forall hnone)
    rw [listed_limit, hrest, List.foldl_append, List.foldl_cons]
    refine (foldl_replyChange_fst hrestNone _).trans ?_
    show (before.foldl TrackedChannel.replyChange (none, none)).1 = _
    rw [h.left.foldl_replyChange]
    have hfind : after.find? (fun e => e.2.1 = 108) = none :=
      List.find?_eq_none.mpr (by simpa using hnone)
    simp only [ServerModes.listed, List.find?_append, hfind, Option.or_none]

/-- A `*` shown for the key leaves the key alone. A reply that leaves the key's argument out
does exactly if the argument in its place is harmless and no other is read for the limit. -/
theorem hiddenKey_untouched (caps : ISupport) (hlimit : (108 : CodePoint) ∈ caps.chanmodes.2.2.1)
    (t : TrackedChannel) (before after : List ModeChange) (key client channel text : Str)
    (hfull : FullState caps (before ++ (true, 107, some key) :: after))
    (htext : Renders true ((before ++ (true, 107, some key) :: after).map ModeChange.letter) text) :
    KeyUntouched t (t.handleChannelModes caps (client :: channel :: text ::
      (ModeChange.arguments before ++ lit "*" :: ModeChange.arguments after)))
      (ServerModes.listed (before ++ (true, 107, some key) :: after)).limit ∧
    (KeyUntouched t (t.handleChannelModes caps (client :: channel :: text ::
      (ModeChange.arguments before ++ ModeChange.arguments after)))
      (ServerModes.listed (before ++ (true, 107, some key) :: after)).limit ↔
      KeyHarmless t.runtime.key (ModeChange.arguments after).head? ∧ LimitKept after) := by
  constructor
  · have hshown := hfull.replaceKey (lit "*")
    have hletters : (before ++ (true, 107, some (lit "*")) :: after).map ModeChange.letter =
        (before ++ (true, 107, some key) :: after).map ModeChange.letter := by
      rw [List.map_append, List.map_cons, List.map_append, List.map_cons]
      rfl
    have hargs : ModeChange.arguments before ++ lit "*" :: ModeChange.arguments after =
        ModeChange.arguments (before ++ (true, 107, some (lit "*")) :: after) := by
      simp [ModeChange.arguments]
    have hread := hshown.foldl_replyChange
    rw [listed_limit, ← listed_limit before after (some (lit "*")), hargs]
    refine (keyUntouched_iff t (?_ : _ = (_, some (argumentOrStar (some (lit "*")))))).mpr ⟨?_, rfl⟩
    · rw [iterModeChanges_of_renders (hletters ▸ htext) hshown.paired, hread,
        find_letter hshown.others]
      rfl
    · rintro a ⟨⟩
      exact .inl rfl
  · obtain ⟨found, hread, hfound⟩ := hfull.foldl_replyChange_omitted hlimit
    rw [← hfound]
    refine keyUntouched_iff t ?_
    rw [iterModeChanges_of_omitted htext hfull.paired hfull.adding]
    exact hread

end Hidden

/-- A channel of which the key `secret` is known -/
def keyedChannel : TrackedChannel :=
  ⟨{ ChannelRuntime.fresh .rfc1459 (lit "#c") none with key := some (lit "secret") }, [], none, []⟩

/-- In the order `lk` both replies leave the key alone. -/
theorem hiddenKey_untouched_last :
    KeyUntouched keyedChannel (keyedChannel.handleChannelModes .initial
      [lit "b", lit "#c", lit "+lk", lit "10", lit "*"]) (some 10) ∧
    KeyUntouched keyedChannel (keyedChannel.handleChannelModes .initial
      [lit "b", lit "#c", lit "+lk", lit "10"]) (some 10) := by
  have hfull : FullState .initial [(true, 108, some (lit "10")), (true, 107, some (lit "secret"))] := by
    refine ⟨by decide, by decide, by decide, fun s hs => ?_⟩
    obtain rfl : s = lit "10" := by simpa using hs
    decide +kernel
  have h := hiddenKey_untouched .initial (by decide) keyedChannel [(true, 108, some (lit "10"))] []
    (lit "secret") (lit "b") (lit "#c") (lit "+lk") hfull
    (.plus (.letter (by decide) (by decide) (.letter (by decide) (by decide) .nil)))
  have hlimit : (ServerModes.listed [(true, 108, some (lit "10")),
      (true, 107, some (lit "secret"))]).limit = some 10 := by
    decide +kernel
  rw [List.singleton_append, hlimit] at h
  exact ⟨h.1, h.2.mpr ⟨by simp [ModeChange.arguments, KeyHarmless], trivial⟩⟩

/-- In the order `kl` the limit is taken for the key. -/
theorem not_hiddenKey_untouched_all :
    ¬ ∀ (caps : ISupport) (t : TrackedChannel) (before after : List ModeChange)
      (key client channel text : Str), (107 : CodePoint) ∈ caps.chanmodes.2.1 →
      (108 : CodePoint) ∈ caps.chanmodes.2.2.1 →
      FullState caps (before ++ (true, 107, some key) :: after) →
      Renders true ((before ++ (true, 107, some key) :: after).map ModeChange.letter) text →
      KeyUntouched t (t.handleChannelModes caps (client :: channel :: text ::
        (ModeChange.arguments before ++ ModeChange.arguments after)))
        (ServerModes.listed (before ++ (true, 107, some key) :: after)).limit := by
  intro hall
  have hfull : FullState .initial [(true, 107, some (lit "secret")), (true, 108, some (lit "10"))] := by
    refine ⟨by decide, by decide, by decide, fun s hs => ?_⟩
    obtain rfl : s = lit "10" := by simpa using hs
    decide +kernel
  have h := hall .initial keyedChannel [] [(true, 108, some (lit "10"))] (lit "secret") (lit "b")
    (lit "#c") (lit "+kl") (by decide) (by decide) hfull
    (.plus (.letter (by decide) (by decide) (.letter (by decide) (by decide) .nil)))
  have hkey : (keyedChannel.handleChannelModes .initial
      [lit "b", lit "#c", lit "+kl", lit "10"]).runtime.key = some (lit "10") := by
    decide
  exact absurd (hkey.symm.trans h.key) (by decide)

/-- A MODE line -/
structure ModeLine where
  changes : List ModeChange
  channel : Str
  text : Str
  arguments : List Str

/-- From a reply that shows the key, or that has none, the tracked modes, limit and key are
the server's after every line. -/
theorem handleMode_simulates (caps : ISupport) (hkey : (107 : CodePoint) ∈ caps.chanmodes.2.1)
    (t : TrackedChannel) (state : List ModeChange) (client channel text : Str) (lines : List ModeLine)
    (hstate : FullState caps state) (htext : Renders true (state.map ModeChange.letter) text)
    (hshown : ∀ key, (true, 107, some key) ∈ state → key ≠ lit "*" ∧ UsableKey key)
    (hsent : ∀ l ∈ lines, SentBatch caps l.changes ∧ TellsBatch l.changes l.text l.arguments) :
    Tracks
      (lines.foldl (fun t l => t.handleMode caps (l.channel :: l.text :: l.arguments))
        (t.handleChannelModes caps (client :: channel :: text :: ModeChange.arguments state)))
      (lines.foldl (fun s l => l.changes.foldl (ServerModes.apply caps) s)
        (ServerModes.listed state)) := by
  have hstart : Tracks
      (t.handleChannelModes caps (client :: channel :: text :: ModeChange.arguments state))
      (ServerModes.listed state) := tracks_handleChannelModes t hstate htext hkey hshown
  induction lines using List.reverseRecOn with
  | nil => exact hstart
  | append_singleton lines l ih =>
    rw [List.foldl_append, List.foldl_append, List.foldl_cons, List.foldl_nil, List.foldl_cons,
      List.foldl_nil]
    obtain ⟨hbatch, htells⟩ := hsent l (List.mem_append_right _ (List.mem_singleton.mpr rfl))
    have hbefore := ih fun l hl => hsent l (List.mem_append_left _ hl)
    exact hbefore.handleMode hkey hbatch htells

/-- After `+nk secret`, the line `+l-k 5 secret` leaves the modes `n` and `l`. -/
theorem handleMode_simulates_unset :
    Tracks
      ((keyedChannel.handleChannelModes .initial [lit "b", lit "#c", lit "+nk", lit "secret"]).handleMode
        .initial [lit "#c", lit "+l-k", lit "5", lit "secret"])
      ⟨{108, 110}, some 5, none⟩ := by
  let line : ModeLine := ⟨[(true, 108, some (lit "5")), (false, 107, some (lit "secret"))],
    lit "#c", lit "+l-k", [lit "5", lit "secret"]⟩
  have hstate : FullState .initial [(true, 110, none), (true, 107, some (lit "secret"))] :=
    ⟨by decide, by decide, by decide, by simp⟩
  have hbatch : SentBatch .initial line.changes := by
    refine ⟨by decide, fun s hs => ?_, by simp [line]⟩
    obtain rfl : s = lit "5" := by simpa [line] using hs
    decide +kernel
  have htells : TellsBatch line.changes line.text line.arguments :=
    ⟨.plus (.letter (by decide) (by decide) (.minus (.letter (by decide) (by decide) .nil))),
      .inl rfl⟩
  have h := handleMode_simulates .initial (by decide) keyedChannel
    [(true, 110, none), (true, 107, some (lit "secret"))] (lit "b") (lit "#c") (lit "+nk") [line]
    hstate (.plus (.letter (by decide) (by decide) (.letter (by decide) (by decide) .nil)))
    (fun key hkey => by
      obtain rfl : key = lit "secret" := by simpa using hkey
      exact ⟨by decide, by unfold UsableKey; decide +kernel⟩)
    (fun l hl => by
      obtain rfl := List.mem_singleton.mp hl
      exact ⟨hbatch, htells⟩)
  have hserver : line.changes.foldl (ServerModes.apply .initial)
      (ServerModes.listed [(true, 110, none), (true, 107, some (lit "secret"))]) =
      ⟨{108, 110}, some 5, none⟩ := by
    decide +kernel
  exact hserver ▸ h

end Botnats
