import Botnats.Correction
import Botnats.JoinTracking
import Botnats.MemberTracking
import Botnats.ModeIntent

/-!
# Enforcing the channel modes

One channel that the bot wants, on a server that takes MODE lines from its operators only.
Others set and unset modes and ranks in any order, the bot comes and goes, and it reads of
all that in order but late. It is alarmed where `handle_mode` or `handle_end_of_names`
spawns `enforce_modes`; the task runs some time later, and its line reaches the server later
still. With nothing under way, a channel that the bot is operator of has its modes as
configured, unless the last line was not queued.
-/
namespace Botnats

/-- What a server has of the channel: its modes, and the modes of the bot's membership while
the bot is on it. -/
structure ModeServer where
  active : Finset CodePoint
  seat : Option (List CodePoint)

/-- A line of the server, with what the bot finds when it reads it. -/
structure ServerLine where
  message : IRCMessage
  link : Str → IrcLink
  now : ℚ

/-- The ranks, the casemapping and the capabilities of a connection; the folded nick of the
bot and the folded name of the channel; and the configured modes. -/
structure Enforcement where
  r : MemberRanks
  base : ISupport
  cm : Casemapping
  self : Str
  folded : Str
  value : Str
  intent : ModeIntent
  configured : modeIntent value = .ok intent

namespace Enforcement

variable (E : Enforcement)

def caps : ISupport := E.base.parsePrefix E.r.value

/-- The bot's modes after a change, which may name another member -/
def seatChange (modes : List CodePoint) (e : ModeChange) : List CodePoint :=
  if e.2.1 ∈ E.r.modes ∧ e.2.2.any fun nick => casefold nick E.cm = E.self then
    if e.1 then e.2.1 :: modes else modes.filter (· ≠ e.2.1)
  else modes

/-- A member of which a change is told gets or loses one of the advertised ranks, if the
letter is read as one. -/
def Ranks (e : ModeChange) : Prop :=
  e.2.2.isSome = true → e.2.1 ∈ E.caps.operatorModes → e.2.1 ∈ E.r.modes

/-- An entry of a NAMES reply, which shows the bot with its modes -/
def Listed (modes : List CodePoint) (entry : Str) (nick : Str) : Prop :=
  ∃ symbols, entry = symbols ++ nick ∧ E.r.NickOk nick ∧ symbols ⊆ E.r.symbols ∧
    (casefold nick E.cm = E.self → E.r.Shown modes symbols)

/-- The lines of a NAMES reply, with the bot in one of them -/
structure Names (modes : List CodePoint) (lines : List Str) : Prop where
  sound : ∀ line ∈ lines, ∀ entry ∈ splitWords line, ∃ nick, E.Listed modes entry nick
  own : ∃ line ∈ lines, ∃ entry ∈ splitWords line, ∃ nick,
    E.Listed modes entry nick ∧ casefold nick E.cm = E.self

/-- What others do to the channel: the server lets the bot in, with any modes, and tells it
who is there; it lets the bot go; and someone sends a MODE line. -/
inductive Changes : ModeServer → List ServerLine → ModeServer → Prop
  | enter {s : ModeServer} {lines : List ServerLine} {active : Finset CodePoint}
    {modes : List CodePoint} {channel target kind : Str} {params last names : List Str}
    {p sender : Prefix} (out : s.seat = none) (fold : casefold channel E.cm = E.folded)
    (own : casefold p.nick E.cm = E.self) (ranked : modes ⊆ E.r.modes) (listed : E.Names modes names)
    (sent : lines.map ServerLine.message = ⟨lit "JOIN", channel :: params, some p⟩ ::
      (names.map fun line => ⟨lit "353", [target, kind, channel, line], some sender⟩) ++
        [⟨lit "366", target :: channel :: last, some sender⟩]) :
    Changes s lines ⟨active, some modes⟩
  | part {s : ModeServer} {line : ServerLine} {channel : Str} {params : List Str} {p : Prefix}
    (fold : casefold channel E.cm = E.folded) (own : casefold p.nick E.cm = E.self)
    (sent : line.message = ⟨lit "PART", channel :: params, some p⟩) :
    Changes s [line] ⟨s.active, none⟩
  | kick {s : ModeServer} {line : ServerLine} {channel target : Str} {params : List Str}
    {by' : Option Prefix} (fold : casefold channel E.cm = E.folded)
    (own : casefold target E.cm = E.self)
    (sent : line.message = ⟨lit "KICK", channel :: target :: params, by'⟩) :
    Changes s [line] ⟨s.active, none⟩
  | batch {s : ModeServer} {line : ServerLine} {seat : List CodePoint} {channel text : Str}
    {changes : List ModeChange} {by' : Option Prefix} (on : s.seat = some seat)
    (fold : casefold channel E.cm = E.folded)
    (letters : Renders true (changes.map ModeChange.letter) text)
    (paired : ModeChange.Paired E.caps changes)
    (ranks : ∀ e ∈ changes, E.Ranks e)
    (sent : line.message =
      ⟨lit "MODE", channel :: text :: ModeChange.arguments changes, by'⟩) :
    Changes s [line] ⟨applyLetters s.active (changes.map ModeChange.letter),
      some (changes.foldl E.seatChange seat)⟩

/-- The bot has the server's operator rank, or one above. -/
def Operator (s : ModeServer) : Prop := ∃ modes, s.seat = some modes ∧ E.r.Operator modes

/-- The server takes the line of `enforce_modes`, whose modes need no argument. From an
operator it applies it, and tells the channel of the changes; else it refuses. -/
inductive Corrects : ModeServer → List ServerLine → ModeServer → Prop
  | applied {s : ModeServer} (operator : E.Operator s)
    (plain : E.intent.needsArgument E.caps = false) :
    Corrects s [] { s with active := applyLetters s.active (modeLetters true E.value) }
  | told {s : ModeServer} {line : ServerLine} {channel text : Str} {changes : List ModeChange}
    {by' : Option Prefix} (operator : E.Operator s)
    (plain : E.intent.needsArgument E.caps = false) (fold : casefold channel E.cm = E.folded)
    (letters : Renders true (changes.map ModeChange.letter) text)
    (bare : ∀ e ∈ changes, e.2.2 = none)
    (own : ∀ e ∈ changes, e.letter ∈ modeLetters true E.value)
    (sent : line.message = ⟨lit "MODE", [channel, text], by'⟩) :
    Corrects s [line] { s with active := applyLetters s.active (modeLetters true E.value) }
  | refused {s : ModeServer} (stranger : ¬ E.Operator s) : Corrects s [] s

/-- The bot's record of itself on the channel shows its modes. -/
def SeatShown (seat : Option (List CodePoint)) (members : List (Str × ChannelMember)) : Prop :=
  match seat with
  | none => Assoc.lookup E.self members = none
  | some modes => modes ⊆ E.r.modes ∧ ∃ member, Assoc.lookup E.self members = some member ∧
      ∀ mode ∈ E.caps.operatorModes, mode ∈ member.modes ↔ mode ∈ modes

/-- The bot knows its nick and wants the channel, whose members are as `P` says. -/
structure Knows (P : List (Str × ChannelMember) → Prop) (b : IrcBot) : Prop where
  nick : casefold b.currentNick E.cm = E.self
  desired : (b.manager.standing E.folded).isSome = true
  tracked : IrcServer.Tracked E.cm E.caps (fun f members => f = E.folded → P members) b

variable (S : SessionScope)

/-- The bot and the server. A correction is attempted for a channel as the message spelled
it, and goes out where the connection takes it. -/
def control : Correction ModeServer IrcBot ServerLine (Str × Bool) where
  authority := E.Operator
  inOrder s := E.intent.Met s.active
  read b line := b.onMessage S line.link line.now line.message
  alarm b line := (b.tasksOf E.intent line.message).any fun task =>
    match task with
    | .enforce channel => decide (b.manager.fold channel = E.folded)
    | .requestOp _ => false
  goes b o := (enforceModes b.caps E.value E.intent o.1 o.2).isSome
  tracks b s := E.Knows (E.SeatShown s.seat) b
  change := E.Changes
  correct := E.Corrects

/-! ## The bot's record of itself -/

variable {E} {S}

theorem SeatShown.congr {seat : Option (List CodePoint)} {members members' : List (Str × ChannelMember)}
    (h : E.SeatShown seat members)
    (hsame : Assoc.lookup E.self members' = Assoc.lookup E.self members) :
    E.SeatShown seat members' := by
  unfold SeatShown at h ⊢
  rwa [hsame]

/-- A key leaves the members alone. -/
theorem members_processSetting (c : ChannelRuntime) (mode : CodePoint) (argument : Option Str)
    (adding : Bool) : (c.processSetting mode argument adding).members = c.members := by
  have hset : ∀ key, (c.setKey key).1.members = c.members := by
    intro key
    unfold ChannelRuntime.setKey
    split <;> rfl
  unfold ChannelRuntime.processSetting
  cases argument with
  | none =>
    dsimp only
    split_ifs <;> simp only [hset]
  | some argument =>
    dsimp only
    split_ifs <;> first | exact hset _ | rfl

theorem seatChange_of_not_rank {modes : List CodePoint} {e : ModeChange} (h : e.2.1 ∉ E.r.modes) :
    E.seatChange modes e = modes := if_neg fun hrank => h hrank.1

theorem seatChange_none (modes : List CodePoint) (adding : Bool) (mode : CodePoint) :
    E.seatChange modes (adding, mode, none) = modes := if_neg (by simp)

theorem seatChange_subset {modes : List CodePoint} (h : modes ⊆ E.r.modes) (e : ModeChange) :
    E.seatChange modes e ⊆ E.r.modes := by
  unfold seatChange
  split_ifs with hown
  · exact List.cons_subset.mpr ⟨hown.1, h⟩
  · exact fun mode hmode => h (List.mem_of_mem_filter hmode)
  · exact h

/-- A change of the bot's rank reaches its record. -/
theorem SeatShown.applyModeChange {c : ChannelRuntime} {modes : List CodePoint}
    (h : E.SeatShown (some modes) c.members) (hc : c.casemapping = E.cm) {e : ModeChange}
    (hrank : E.Ranks e) :
    E.SeatShown (some (E.seatChange modes e)) (c.applyModeChange E.caps e).members := by
  obtain ⟨adding, mode, argument⟩ := e
  obtain ⟨hsub, member, hmember, hshown⟩ := h
  have hsub' := seatChange_subset hsub (adding, mode, argument)
  have hkeep : ∀ members, E.seatChange modes (adding, mode, argument) = modes →
      Assoc.lookup E.self members = Assoc.lookup E.self c.members →
      E.SeatShown (some (E.seatChange modes (adding, mode, argument))) members := by
    intro members hseat hsame
    rw [hseat]
    exact ⟨hsub, member, hsame.trans hmember, hshown⟩
  have hletter : mode ∈ ([43, 45, 98, 107, 108] : Str) →
      E.seatChange modes (adding, mode, argument) = modes := fun hmem =>
    seatChange_of_not_rank fun hmode => E.r.letters mode hmode hmem
  unfold ChannelRuntime.applyModeChange
  dsimp only
  by_cases hsetting : mode = 107 ∨ mode = 108
  · rw [if_pos hsetting]
    refine hkeep _ (hletter ?_) (by rw [members_processSetting])
    rcases hsetting with rfl | rfl <;> decide
  rw [if_neg hsetting]
  cases argument with
  | none => exact hkeep _ (seatChange_none modes adding mode) rfl
  | some nick =>
    dsimp only
    by_cases hban : mode = 98
    · rw [if_pos hban]
      refine hkeep _ (hletter (by rw [hban]; decide)) ?_
      cases adding <;> rfl
    rw [if_neg hban]
    by_cases hop : mode ∈ E.caps.operatorModes
    · rw [if_pos hop, ChannelRuntime.processOp]
      by_cases hown : casefold nick E.cm = E.self
      · have hseat : E.seatChange modes (adding, mode, some nick) =
            if adding then mode :: modes else modes.filter (· ≠ mode) :=
          if_pos ⟨hrank rfl hop, by simpa using hown⟩
        refine ⟨hsub', _, by rw [ChannelRuntime.lookup_withMember, hc, if_pos hown], fun o ho => ?_⟩
        rw [hseat, hmember]
        have hold := hshown o ho
        dsimp only [Option.getD_some]
        cases adding with
        | true =>
          rw [if_pos rfl, if_pos rfl, List.mem_cons, ← hold]
          split_ifs with htracked
          · exact ⟨.inr, fun h => h.elim (fun heq => heq ▸ htracked) id⟩
          · rw [List.mem_append, List.mem_singleton, or_comm]
        | false =>
          rw [if_neg Bool.false_ne_true, if_neg Bool.false_ne_true, List.mem_filter,
            List.mem_filter, hold]
      · refine hkeep _ (if_neg fun h => hown (by simpa using h.2)) ?_
        rw [ChannelRuntime.lookup_withMember, hc, if_neg hown]
    · rw [if_neg hop]
      refine ⟨hsub', member, hmember, fun o ho => ?_⟩
      have hne : o ≠ mode := fun heq => hop (heq ▸ ho)
      rw [hshown o ho]
      unfold seatChange
      split_ifs <;> simp [hne]

theorem SeatShown.changes {c : ChannelRuntime} {modes : List CodePoint} {changes : List ModeChange}
    (h : E.SeatShown (some modes) c.members) (hc : c.casemapping = E.cm)
    (hrank : ∀ e ∈ changes, E.Ranks e) :
    E.SeatShown (some (changes.foldl E.seatChange modes))
      (changes.foldl (ChannelRuntime.applyModeChange E.caps) c).members := by
  induction changes generalizing c modes with
  | nil => exact h
  | cons e changes ih =>
    exact ih (h.applyModeChange hc (hrank e List.mem_cons_self))
      ((IrcServer.applyModeChange_casemapping _ c e).trans hc)
      fun x hx => hrank x (List.mem_cons_of_mem e hx)

/-- The bot takes itself for an operator exactly where the server does. -/
theorem Knows.isSelfOpped_iff {P : List (Str × ChannelMember) → Prop} {b : IrcBot} {s : ModeServer}
    (h : E.Knows P b) {c : ChannelRuntime} (hshown : E.SeatShown s.seat c.members) :
    b.isSelfOpped c = true ↔ E.Operator s := by
  have hself : b.manager.fold b.currentNick = E.self := by
    rw [ChannelManager.fold, h.tracked.casemapping, h.nick]
  unfold IrcBot.isSelfOpped Operator
  rw [hself, h.tracked.caps]
  cases hseat : s.seat with
  | none =>
    rw [hseat] at hshown
    rw [show Assoc.lookup E.self c.members = none from hshown]
    simp
  | some modes =>
    rw [hseat] at hshown
    obtain ⟨hsub, member, hmember, hops⟩ := hshown
    rw [hmember]
    refine (E.r.isOpped_iff E.base hsub hops).trans ?_
    simp

/-! ## Reading the lines -/

variable {P P' : List (Str × ChannelMember) → Prop} {b : IrcBot} {s : ModeServer} {channel : Str}

theorem Knows.mono (h : E.Knows P b) (hP : ∀ members, P members → P' members) : E.Knows P' b :=
  ⟨h.nick, h.desired, h.tracked.mono fun _ members hmembers hf => hP members (hmembers hf)⟩

/-- The runtime of the channel -/
theorem Knows.runtime (h : E.Knows P b) (hfold : casefold channel E.cm = E.folded) :
    ∃ c, b.manager.runtime channel = some c ∧ c.casemapping = E.cm ∧ P c.members := by
  have hdesired := h.desired
  rw [ChannelManager.standing, Option.isSome_map] at hdesired
  obtain ⟨c, hc⟩ := Option.isSome_iff_exists.mp hdesired
  obtain ⟨hcm, hP⟩ := h.tracked.runtime _ c hc
  refine ⟨c, ?_, hcm, hP rfl⟩
  rw [ChannelManager.runtime, ChannelManager.fold, h.tracked.casemapping, hfold, hc]

theorem desired_mapRuntime (m : ChannelManager) (channel : Str)
    (change : ChannelRuntime → ChannelRuntime) (f : Str) :
    ((m.mapRuntime channel change).standing f).isSome = (m.standing f).isSome := by
  rw [ChannelManager.standing_mapRuntime]
  split_ifs <;> simp [ChannelManager.standing]

theorem desired_handleJoin (b : IrcBot) (link : Str → IrcLink) (message : IRCMessage) (f : Str) :
    ((b.handleJoin link message).manager.standing f).isSome = (b.manager.standing f).isSome := by
  unfold IrcBot.handleJoin
  split
  · split
    · dsimp only
      split_ifs <;> rfl
    · dsimp only
      split_ifs
      · rw [(IrcBot.keeps_setIdentity _ _ _).1.standing]
        exact desired_mapRuntime _ _ _ _
      · exact desired_mapRuntime _ _ _ _
      · exact desired_mapRuntime _ _ _ _
  · rfl

/-- A line after which one runtime is another. -/
theorem Knows.line (h : E.Knows P b) (hfold : casefold channel E.cm = E.folded)
    {change : ChannelRuntime → ChannelRuntime}
    (hchange : ∀ c, c.casemapping = E.cm → P c.members →
      (change c).casemapping = E.cm ∧ P' (change c).members) :
    E.Knows P' { b with manager := b.manager.mapRuntime channel change } where
  nick := h.nick
  desired := (desired_mapRuntime _ _ _ _).trans h.desired
  tracked := by
    refine h.tracked.reshapeAt (IrcBot.reshapes_mapRuntime b channel change)
      (fun c hc hP => ?_) fun f members hf _ hfolded => ?_
    · obtain ⟨hcm, hP'⟩ := hchange c hc (hP hfold)
      exact ⟨hcm, fun _ => hP'⟩
    · exact absurd (hfolded.trans hfold.symm) hf

/-- A batch of changes, as the bot reads it. -/
theorem Knows.batch {seat : List CodePoint} (h : E.Knows (E.SeatShown (some seat)) b)
    (hfold : casefold channel E.cm = E.folded) {changes : List ModeChange} {text : Str}
    {arguments : List Str} (hread : iterModeChanges E.caps text arguments = changes)
    (hrank : ∀ e ∈ changes, E.Ranks e)
    (link : Str → IrcLink) (now : ℚ) (by' : Option Prefix) :
    E.Knows (E.SeatShown (some (changes.foldl E.seatChange seat)))
      (b.onMessage S link now ⟨lit "MODE", channel :: text :: arguments, by'⟩) := by
  refine h.line hfold fun c hc hshown => ?_
  rw [ChannelRuntime.applyModeChanges, h.tracked.caps, hread]
  exact ⟨(IrcServer.foldl_applyModeChange_casemapping _ changes c).trans hc,
    hshown.changes hc hrank⟩

/-- The bot leaves the channel. -/
theorem Knows.leave (h : E.Knows P b) (hfold : casefold channel E.cm = E.folded) :
    E.Knows (E.SeatShown none) { b with
      manager := b.manager.mapRuntime channel ChannelRuntime.reset } :=
  h.line hfold fun _ hc _ => ⟨hc, rfl⟩

theorem Knows.isSelf (h : E.Knows P b) {nick : Str} (hown : casefold nick E.cm = E.self) :
    b.isSelf nick = true := (h.tracked.isSelf h.nick).mpr hown

/-- The bot's own JOIN; what it records of the members does not matter before NAMES. -/
theorem Knows.join (h : E.Knows P b) (params : List Str) (p : Prefix) (link : Str → IrcLink)
    (now : ℚ) : E.Knows (fun _ => True)
      (b.onMessage S link now ⟨lit "JOIN", channel :: params, some p⟩) where
  nick := by rw [(IrcBot.reshapes_join (S := S) b link now channel params p).nick, h.nick]
  desired := (desired_handleJoin b link ⟨lit "JOIN", channel :: params, some p⟩ _).trans h.desired
  tracked := by
    have htracked : IrcServer.Tracked E.cm E.caps (fun _ _ => True) b :=
      h.tracked.mono fun _ _ _ => trivial
    refine htracked.reshape
      (IrcBot.reshapes_join b link now channel params p) fun f c hc _ => ?_
    split_ifs
    · exact ⟨(IrcServer.joinedBy_casemapping p _ c).trans hc, fun _ => trivial⟩
    · exact ⟨hc, fun _ => trivial⟩

/-- What the bot has recorded of itself between its JOIN and the end of NAMES -/
def Entering (E : Enforcement) (modes : List CodePoint) (seen : Prop)
    (members : List (Str × ChannelMember)) : Prop :=
  seen → E.SeatShown (some modes) members

theorem Entering.entry {modes : List CodePoint} {seen : Prop} {c : ChannelRuntime} {nick entry : Str}
    (h : Entering E modes seen c.members) (hc : c.casemapping = E.cm) (hsub : modes ⊆ E.r.modes)
    (hlisted : E.Listed modes entry nick) :
    Entering E modes (seen ∨ casefold nick E.cm = E.self)
      (IrcBot.nameMember E.caps c entry).members := by
  obtain ⟨symbols, rfl, hnick, hsymbols, hshown⟩ := hlisted
  obtain ⟨hread, hmodes⟩ := undecorate_symbols E.base hnick hsymbols
  have hmember : IrcBot.nameMember E.caps c (symbols ++ nick) = c.withMember nick fun member =>
      { member with modes := (undecorate E.caps (symbols ++ nick)).1 } := by
    unfold IrcBot.nameMember
    dsimp only
    rw [show (undecorate E.caps (symbols ++ nick)).2 = nick from hread, if_neg hnick.ne]
  intro hseen
  by_cases hown : casefold nick E.cm = E.self
  · refine ⟨hsub, _, by rw [hmember, ChannelRuntime.lookup_withMember, hc, if_pos hown],
      fun mode hmode => ?_⟩
    refine (hmodes mode).trans ?_
    rw [(hshown hown).iff hsub]
    exact and_iff_right hmode
  · refine (h (hseen.resolve_right hown)).congr ?_
    rw [hmember, ChannelRuntime.lookup_withMember, hc, if_neg hown]

/-- The entries of one line, by induction on those still to come -/
theorem Entering.entries {modes : List CodePoint} {seen : Prop} {c : ChannelRuntime}
    {entries : List Str} (h : Entering E modes seen c.members) (hc : c.casemapping = E.cm)
    (hsub : modes ⊆ E.r.modes)
    (hlisted : ∀ entry ∈ entries, ∃ nick, E.Listed modes entry nick) :
    Entering E modes (seen ∨ ∃ entry ∈ entries, ∃ nick, E.Listed modes entry nick ∧
      casefold nick E.cm = E.self) (entries.foldl (IrcBot.nameMember E.caps) c).members := by
  induction entries generalizing c seen with
  | nil => simpa using h
  | cons entry entries ih =>
    have hrest := fun e he => hlisted e (List.mem_cons_of_mem entry he)
    have hcm := (IrcServer.nameMember_casemapping E.caps c entry).trans hc
    rintro (hseen | ⟨e, he, nick, hnick, hown⟩)
    · obtain ⟨nick, hnick⟩ := hlisted entry List.mem_cons_self
      exact ih (h.entry hc hsub hnick) hcm hrest (.inl (.inl hseen))
    · rcases List.mem_cons.mp he with rfl | he
      · exact ih (h.entry hc hsub hnick) hcm hrest (.inl (.inr hown))
      · obtain ⟨first, hfirst⟩ := hlisted entry List.mem_cons_self
        exact ih (h.entry hc hsub hfirst) hcm hrest (.inr ⟨e, he, nick, hnick, hown⟩)

/-- The NAMES reply, by induction on the lines still to come -/
theorem Knows.names {modes : List CodePoint} {seen : Prop} {target kind : Str}
    {sender : Option Prefix} {names : List Str} {lines : List ServerLine}
    (h : E.Knows (Entering E modes seen) b) (hfold : casefold channel E.cm = E.folded)
    (hsub : modes ⊆ E.r.modes)
    (hsound : ∀ line ∈ names, ∀ entry ∈ splitWords line, ∃ nick, E.Listed modes entry nick)
    (hlines : lines.map ServerLine.message =
      names.map fun line => ⟨lit "353", [target, kind, channel, line], sender⟩) :
    E.Knows (Entering E modes (seen ∨ ∃ line ∈ names, ∃ entry ∈ splitWords line, ∃ nick,
      E.Listed modes entry nick ∧ casefold nick E.cm = E.self))
      (lines.foldl (E.control S).read b) := by
  induction names generalizing b seen lines with
  | nil =>
    obtain rfl := List.map_eq_nil_iff.mp hlines
    simpa using h
  | cons line names ih =>
    obtain ⟨first, rest, rfl, hfirst, hrest⟩ := List.map_eq_cons_iff.mp hlines
    have hone : E.Knows (Entering E modes (seen ∨ ∃ entry ∈ splitWords line, ∃ nick,
        E.Listed modes entry nick ∧ casefold nick E.cm = E.self)) ((E.control S).read b first) := by
      have hread : (E.control S).read b first = { b with
          manager := b.manager.mapRuntime channel fun c =>
            (splitWords line).foldl (IrcBot.nameMember b.caps) c } := by
        show b.onMessage S first.link first.now first.message = _
        rw [hfirst]
        rfl
      rw [hread]
      refine h.line hfold fun c hc hentering => ?_
      rw [h.tracked.caps]
      refine ⟨?_, ?_⟩
      · exact (IrcServer.foldl_nameMember_casemapping _ _ c).trans hc
      · exact hentering.entries hc hsub (hsound line List.mem_cons_self)
    refine (ih hone (fun l hl => hsound l (List.mem_cons_of_mem line hl)) hrest).mono ?_
    rintro members hmembers (hseen | ⟨l, hl, hentry⟩)
    · exact hmembers (.inl (.inl hseen))
    · rcases List.mem_cons.mp hl with rfl | hl
      · exact hmembers (.inl (.inr hentry))
      · exact hmembers (.inr ⟨l, hl, hentry⟩)

/-- Once the bot has read who is there, it has recorded its own modes. -/
theorem Knows.enter {modes : List CodePoint} {target kind : Str} {params last names : List Str}
    {p sender : Prefix} {lines : List ServerLine} (h : E.Knows P b)
    (hfold : casefold channel E.cm = E.folded) (hsub : modes ⊆ E.r.modes)
    (hnames : E.Names modes names)
    (hsent : lines.map ServerLine.message = ⟨lit "JOIN", channel :: params, some p⟩ ::
      (names.map fun line => ⟨lit "353", [target, kind, channel, line], some sender⟩) ++
        [⟨lit "366", target :: channel :: last, some sender⟩]) :
    ∃ front final, lines = front ++ [final] ∧
      final.message = ⟨lit "366", target :: channel :: last, some sender⟩ ∧
      E.Knows (E.SeatShown (some modes)) (front.foldl (E.control S).read b) := by
  obtain ⟨front, ending, rfl, hfront, hending⟩ := List.map_eq_append_iff.mp hsent
  obtain ⟨final, rest, rfl, hfinal, hrest⟩ := List.map_eq_cons_iff.mp hending
  obtain rfl := List.map_eq_nil_iff.mp hrest
  obtain ⟨first, entries, rfl, hfirst, hentries⟩ := List.map_eq_cons_iff.mp hfront
  refine ⟨_, final, rfl, hfinal, ?_⟩
  have hjoined : E.Knows (fun _ => True) ((E.control S).read b first) := by
    show E.Knows _ (b.onMessage S first.link first.now first.message)
    rw [hfirst]
    exact h.join params p first.link first.now
  have hentering : E.Knows (Entering E modes False) ((E.control S).read b first) :=
    hjoined.mono fun _ _ hseen => hseen.elim
  refine (hentering.names (S := S) hfold hsub hnames.sound hentries).mono fun members hmembers => ?_
  exact hmembers (.inr hnames.own)

/-- The bot is alarmed at the end of NAMES where it is an operator. -/
theorem alarm_endOfNames {b : IrcBot} {modes : List CodePoint} {line : ServerLine} {target : Str}
    {last : List Str} {sender : Prefix} (h : E.Knows (E.SeatShown (some modes)) b)
    (hfold : casefold channel E.cm = E.folded)
    (hline : line.message = ⟨lit "366", target :: channel :: last, some sender⟩)
    (hoperator : E.r.Operator modes) : (E.control S).alarm b line = true := by
  obtain ⟨c, hc, -, hshown⟩ := h.runtime hfold
  have hopped : b.isSelfOpped c = true :=
    (h.isSelfOpped_iff (s := ⟨∅, some modes⟩) hshown).mpr ⟨modes, rfl, hoperator⟩
  have htasks : b.tasksOf E.intent line.message = [.enforce channel] := by
    have hroute : b.tasksOf E.intent ⟨lit "366", target :: channel :: last, some sender⟩ =
        b.endOfNamesTasks (target :: channel :: last) := rfl
    rw [hline, hroute, IrcBot.endOfNamesTasks, hc]
    simp only [hopped, if_true]
  show (b.tasksOf E.intent line.message).any _ = true
  rw [htasks]
  simp [ChannelManager.fold, h.tracked.casemapping, hfold]

/-- What `handle_mode` sets going when it reads a batch -/
theorem modeTasks_batch {seat : List CodePoint} (h : E.Knows (E.SeatShown (some seat)) b)
    (hfold : casefold channel E.cm = E.folded) {changes : List ModeChange} {text : Str}
    {arguments : List Str} (hread : iterModeChanges E.caps text arguments = changes)
    (hrank : ∀ e ∈ changes, E.Ranks e) :
    ∃ was opped : Bool, (was = true ↔ E.r.Operator seat) ∧
      (opped = true ↔ E.r.Operator (changes.foldl E.seatChange seat)) ∧
      b.modeTasks E.intent (channel :: text :: arguments) =
        if opped && (changes.any E.intent.undoneBy || !was) then [.enforce channel]
        else if !opped && (changes.any (grantsOp E.caps) || was) then [.requestOp channel]
        else [] := by
  obtain ⟨c, hc, hcm, hshown⟩ := h.runtime hfold
  have hafter : E.SeatShown (some (changes.foldl E.seatChange seat))
      (c.applyModeChanges E.caps text arguments).members := by
    rw [ChannelRuntime.applyModeChanges, hread]
    exact hshown.changes hcm hrank
  refine ⟨b.isSelfOpped c, b.isSelfOpped (c.applyModeChanges E.caps text arguments), ?_, ?_, ?_⟩
  · refine (h.isSelfOpped_iff (s := ⟨∅, some seat⟩) hshown).trans ?_
    simp [Operator]
  · refine (h.isSelfOpped_iff (s := ⟨∅, some (changes.foldl E.seatChange seat)⟩) hafter).trans ?_
    simp [Operator]
  · rw [IrcBot.modeTasks, hc]
    dsimp only
    rw [h.tracked.caps, hread]

/-- A batch that leaves the bot an operator alarms it, if it undoes what is intended or the
bot was none before. -/
theorem alarm_batch {seat : List CodePoint} (h : E.Knows (E.SeatShown (some seat)) b)
    (hfold : casefold channel E.cm = E.folded) {changes : List ModeChange} {text : Str}
    {arguments : List Str} {by' : Option Prefix} {line : ServerLine}
    (hline : line.message = ⟨lit "MODE", channel :: text :: arguments, by'⟩)
    (hread : iterModeChanges E.caps text arguments = changes)
    (hrank : ∀ e ∈ changes, E.Ranks e)
    (hoperator : E.r.Operator (changes.foldl E.seatChange seat))
    (hcause : ¬ E.r.Operator seat ∨ changes.any E.intent.undoneBy = true) :
    (E.control S).alarm b line = true := by
  obtain ⟨was, opped, hwas, hopped, htasks⟩ := modeTasks_batch h hfold hread hrank
  have hroute : b.tasksOf E.intent line.message = b.modeTasks E.intent (channel :: text :: arguments) := by
    rw [hline]
    rfl
  have hcond : (opped && (changes.any E.intent.undoneBy || !was)) = true := by
    rw [hopped.mpr hoperator, Bool.true_and, Bool.or_eq_true, Bool.not_eq_true']
    refine hcause.symm.imp_right fun hnot => ?_
    exact eq_false_of_ne_true (mt hwas.mp hnot)
  show (b.tasksOf E.intent line.message).any _ = true
  rw [hroute, htasks, if_pos hcond]
  simp [ChannelManager.fold, h.tracked.casemapping, hfold]

/-- Changes that carry no argument leave the bot's modes alone. -/
theorem foldl_seatChange_bare {changes : List ModeChange} (h : ∀ e ∈ changes, e.2.2 = none)
    (seat : List CodePoint) : changes.foldl E.seatChange seat = seat := by
  induction changes with
  | nil => rfl
  | cons e changes ih =>
    obtain ⟨adding, mode, argument⟩ := e
    obtain rfl : argument = none := h _ List.mem_cons_self
    rw [List.foldl_cons, seatChange_none]
    exact ih fun x hx => h x (List.mem_cons_of_mem _ hx)

/-- A batch without arguments is read right. -/
theorem iterModeChanges_bare {changes : List ModeChange} {text : Str}
    (htext : Renders true (changes.map ModeChange.letter) text)
    (hown : ∀ e ∈ changes, e.letter ∈ modeLetters true E.value)
    (hbare : ∀ e ∈ changes, e.2.2 = none) (hplain : E.intent.needsArgument E.caps = false) :
    iterModeChanges E.caps text [] = changes := by
  have hpaired : ModeChange.Paired E.caps changes := by
    intro e he
    rw [hbare e he]
    simp only [ModeIntent.needsArgument, Finset.filter_nonempty_iff, decide_eq_false_iff_not, not_or,
      not_exists, not_and, Bool.not_eq_true] at hplain
    obtain ⟨hrequired, hforbidden⟩ := hplain
    have hletter := hown e he
    obtain ⟨adding, mode, argument⟩ := e
    have hmem := modeIntent_eq_ok E.configured mode
    cases adding with
    | true => exact (hrequired mode (hmem.1.mpr hletter)).symm
    | false => exact (hforbidden mode (hmem.2.mpr hletter)).symm
  have hnone : ModeChange.arguments changes = [] := by
    rw [ModeChange.arguments, List.filterMap_eq_nil_iff]
    exact hbare
  have hread := iterModeChanges_of_renders htext hpaired
  rwa [hnone] at hread

/-! ## Every change and every correction -/

/-- The bot keeps track of what others do, and is alarmed where that calls for a line. -/
theorem reads_change {lines : List ServerLine} {s' : ModeServer}
    (h : E.Knows (E.SeatShown s.seat) b) (hs : E.Changes s lines s') :
    E.Knows (E.SeatShown s'.seat) (lines.foldl (E.control S).read b) ∧
      (E.Operator s' → ¬ E.Operator s ∨ E.intent.Met s.active →
        E.intent.Met s'.active ∨ (E.control S).alarms b lines = true) := by
  cases hs with
  | @enter _ active modes channel target kind params last names p sender out fold own ranked listed sent =>
    obtain ⟨front, final, rfl, hfinal, hknows⟩ := h.enter (S := S) fold ranked listed sent
    have hread : (E.control S).read (front.foldl (E.control S).read b) final =
        front.foldl (E.control S).read b := by
      show IrcBot.onMessage S _ final.link final.now final.message = _
      rw [hfinal]
      rfl
    refine ⟨?_, fun hoperator _ => .inr ?_⟩
    · rw [List.foldl_append, List.foldl_cons, List.foldl_nil, hread]
      exact hknows
    · obtain ⟨_, hseat, hrank⟩ := hoperator
      obtain rfl := Option.some.inj hseat
      have halarm := alarm_endOfNames (S := S) hknows fold hfinal hrank
      rw [Correction.alarms_append, Correction.alarms, halarm, Bool.true_or, Bool.or_true]
  | @part line channel params p fold own sent =>
    refine ⟨?_, fun hoperator => ?_⟩
    · show E.Knows _ (b.onMessage S line.link line.now line.message)
      have hself : b.isSelf p.nick = true := h.isSelf own
      have hread : b.onMessage S line.link line.now line.message =
          { b with manager := b.manager.mapRuntime channel ChannelRuntime.reset } := by
        rw [sent]
        show b.handlePart ⟨lit "PART", channel :: params, some p⟩ = _
        simp only [IrcBot.handlePart, hself, if_true]
      rw [hread]
      exact h.leave fold
    · obtain ⟨_, hseat, -⟩ := hoperator
      exact absurd hseat (by simp)
  | @kick line channel target params by' fold own sent =>
    refine ⟨?_, fun hoperator => ?_⟩
    · show E.Knows _ (b.onMessage S line.link line.now line.message)
      have hself : b.isSelf target = true := h.isSelf own
      have hread : b.onMessage S line.link line.now line.message =
          { b with manager := b.manager.mapRuntime channel ChannelRuntime.reset } := by
        rw [sent]
        show b.handleKick ⟨lit "KICK", channel :: target :: params, by'⟩ = _
        simp only [IrcBot.handleKick, hself, if_true]
      rw [hread]
      exact h.leave fold
    · obtain ⟨_, hseat, -⟩ := hoperator
      exact absurd hseat (by simp)
  | @batch line seat channel text changes by' on fold letters paired ranks sent =>
    rw [on] at h
    have hread := iterModeChanges_of_renders letters paired
    refine ⟨?_, fun hoperator hbefore => ?_⟩
    · show E.Knows _ (b.onMessage S line.link line.now line.message)
      rw [sent]
      exact h.batch fold hread ranks line.link line.now by'
    · obtain ⟨_, hseat, hrank⟩ := hoperator
      obtain rfl := Option.some.inj hseat
      have halarms : (E.control S).alarms b [line] = (E.control S).alarm b line := by
        rw [Correction.alarms, Correction.alarms, Bool.or_false]
      by_cases hcause : ¬ E.r.Operator seat ∨ changes.any E.intent.undoneBy = true
      · exact .inr (halarms.trans (alarm_batch h fold sent hread ranks hrank hcause))
      · obtain ⟨hwas, hkept⟩ := not_or.mp hcause
        have hmet : E.intent.Met s.active :=
          hbefore.resolve_left fun hnot => hnot ⟨seat, on, not_not.mp hwas⟩
        exact .inl (hmet.applyLetters (by simpa using hkept))

/-- What the server tells of the bot's own line sets nothing going. -/
theorem quiet_told {seat : List CodePoint} (h : E.Knows (E.SeatShown (some seat)) b)
    (hoperator : E.r.Operator seat) (hfold : casefold channel E.cm = E.folded)
    {changes : List ModeChange} {text : Str}
    (hread : iterModeChanges E.caps text [] = changes) (hbare : ∀ e ∈ changes, e.2.2 = none)
    (hown : ∀ e ∈ changes, e.letter ∈ modeLetters true E.value) :
    b.modeTasks E.intent [channel, text] = [] := by
  have hrank : ∀ e ∈ changes, E.Ranks e := by
    intro e he hsome
    rw [hbare e he] at hsome
    exact absurd hsome (by simp)
  obtain ⟨was, opped, hwas, hopped, htasks⟩ := modeTasks_batch h hfold hread hrank
  rw [foldl_seatChange_bare hbare] at hopped
  have hkept : changes.any E.intent.undoneBy = false := by
    rw [List.any_eq_false]
    intro e he
    have hletter := hown e he
    obtain ⟨adding, mode, argument⟩ := e
    have hmem := modeIntent_eq_ok E.configured mode
    have hdisjoint : mode ∈ E.intent.required → mode ∉ E.intent.forbidden := fun hrequired =>
      Finset.disjoint_left.mp E.intent.disjoint hrequired
    cases adding with
    | true => simpa [ModeIntent.undoneBy] using hdisjoint (hmem.1.mpr hletter)
    | false =>
      have hforbidden := hmem.2.mpr hletter
      simpa [ModeIntent.undoneBy] using fun hrequired => hdisjoint hrequired hforbidden
  rw [htasks, hkept, hwas.mpr hoperator, hopped.mpr hoperator]
  rfl

/-- The bot keeps track of its own corrections too, and reads of none of them with alarm. -/
theorem reads_correct {lines : List ServerLine} {s' : ModeServer}
    (h : E.Knows (E.SeatShown s.seat) b) (hs : E.Corrects s lines s') :
    E.Knows (E.SeatShown s'.seat) (lines.foldl (E.control S).read b) ∧
      ∀ line ∈ lines, b.tasksOf E.intent line.message = [] := by
  cases hs with
  | applied operator plain => exact ⟨h, by simp⟩
  | refused stranger => exact ⟨h, by simp⟩
  | @told line channel text changes by' operator plain fold letters bare own sent =>
    obtain ⟨seat, hseat, hrank⟩ := operator
    rw [hseat] at h
    have hread := iterModeChanges_bare letters own bare plain
    refine ⟨?_, fun line' hline' => ?_⟩
    · show E.Knows (E.SeatShown s.seat) (b.onMessage S line.link line.now line.message)
      have hranks : ∀ e ∈ changes, E.Ranks e := by
        intro e he hsome
        rw [bare e he] at hsome
        exact absurd hsome (by simp)
      have hknows := h.batch (S := S) fold hread hranks line.link line.now by'
      rw [foldl_seatChange_bare bare] at hknows
      rw [hseat, sent]
      exact hknows
    · obtain rfl := List.mem_singleton.mp hline'
      rw [sent]
      exact quiet_told h hrank fold hread bare own

theorem sound_control : (E.control S).Sound where
  change b s lines s' h hs := (reads_change h hs).1
  correct b s lines s' h hs := (reads_correct h hs).1
  alarmed b s lines s' h hs := (reads_change h hs).2
  corrected s lines s' hs hoperator := by
    cases hs with
    | applied operator plain => exact met_applyLetters E.configured _
    | told operator plain fold letters bare own sent => exact met_applyLetters E.configured _
    | refused stranger => exact absurd hoperator stranger

/-- A connection on which the bot has not entered the channel yet -/
structure Starts (w : Correction.World (E.control S)) : Prop where
  out : w.server.seat = none
  messages : w.messages = []
  knows : E.Knows (E.SeatShown none) w.client

theorem Starts.inv {w : Correction.World (E.control S)} (h : Starts w) : w.Inv where
  tracks := by
    rw [h.messages]
    show E.Knows (E.SeatShown w.server.seat) w.client
    rw [h.out]
    exact h.knows
  inOrder hoperator := by
    obtain ⟨modes, hseat, -⟩ := hoperator
    rw [h.out] at hseat
    exact absurd hseat (by simp)

/-- With nothing under way a channel that the bot is operator of has its modes as configured,
unless its last line was not queued; and what the server tells of a line of the bot's sets
nothing going, so the bot does not answer itself. -/
theorem modes_enforced (E : Enforcement) (S : SessionScope) (w w' : Correction.World (E.control S))
    (hstart : Starts w) (hrun : Relation.ReflTransGen Correction.Step w w') :
    (w'.Settled → w'.failed = false → E.Operator w'.server → E.intent.Met w'.server.active) ∧
      ∀ lines s', E.Corrects w'.server lines s' → ∀ line ∈ lines,
        (w'.messages.foldl (E.control S).read w'.client).tasksOf E.intent line.message = [] := by
  have hinv := hstart.inv.run sound_control hrun
  refine ⟨fun hsettled hfailed hoperator => hinv.inOrder_of_settled hsettled hfailed hoperator, ?_⟩
  intro lines s' hs
  exact (reads_correct (S := S) hinv.tracks hs).2

/-- `+n-s` on `#c` -/
def sampleEnforcement : Enforcement where
  r := IrcServer.sampleRanks
  base := .initial
  cm := .rfc1459
  self := lit "b"
  folded := lit "#c"
  value := lit "+n-s"
  intent := ⟨{110}, {115}, by decide⟩
  configured := by rfl

/-- What the bot finds as it reads the line -/
def sampleLine (message : IRCMessage) : ServerLine := ⟨message, fun _ => ⟨true, false, true⟩, 0⟩

/-- The server lets the bot in as the operator of a channel with `+s`. -/
def sampleLines : List ServerLine :=
  [sampleLine ⟨lit "JOIN", [lit "#c"], some ⟨lit "B", none, none⟩⟩,
    sampleLine ⟨lit "353", [lit "B", lit "=", lit "#c", lit "@B"], some ⟨lit "server", none, none⟩⟩,
    sampleLine ⟨lit "366", [lit "B", lit "#c"], some ⟨lit "server", none, none⟩⟩]

def sampleWorld : Correction.World (sampleEnforcement.control sampleScope) where
  server := ⟨∅, none⟩
  messages := []
  client := IrcServer.sampleTracker
  attempts := 0
  requests := 0
  failed := false

theorem starts_sampleWorld : Starts sampleWorld where
  out := rfl
  messages := rfl
  knows := by
    refine ⟨by decide, by decide +kernel, rfl, rfl, fun f c hc => ?_⟩
    have hall : (IrcServer.sampleTracker.manager.channels.all fun e =>
        decide (e.2.casemapping = .rfc1459) && e.2.members.isEmpty) = true := by decide +kernel
    have hone := List.all_eq_true.mp hall _ (Assoc.mem_of_lookup hc)
    obtain ⟨hcm, hempty⟩ := Bool.and_eq_true_iff.mp hone
    refine ⟨of_decide_eq_true hcm, fun _ => ?_⟩
    show Assoc.lookup _ c.members = none
    rw [List.isEmpty_iff.mp hempty]
    rfl

theorem changes_sampleLines :
    sampleEnforcement.Changes sampleWorld.server sampleLines ⟨{115}, some [111]⟩ := by
  have hwords : splitWords (lit "@B") = [lit "@B"] := by decide +kernel
  have hlisted : sampleEnforcement.Listed [111] (lit "@B") (lit "B") := by
    refine ⟨[64], rfl, IrcServer.nickOk_sample (by decide) (by decide), by decide, fun _ e he => ?_⟩
    have hall : ((IrcServer.sampleRanks.symbols.zip IrcServer.sampleRanks.modes).all fun e =>
        decide (e.1 ∈ ([64] : Str) ↔ e.2 ∈ ([111] : List CodePoint))) = true := by decide
    exact of_decide_eq_true (List.all_eq_true.mp hall e he)
  have hnames : sampleEnforcement.Names [111] [lit "@B"] := by
    refine ⟨fun line hline entry hentry => ?_, lit "@B", by simp, lit "@B", ?_, lit "B", hlisted, by decide⟩
    · rw [List.mem_singleton.mp hline, hwords] at hentry
      obtain rfl := List.mem_singleton.mp hentry
      exact ⟨_, hlisted⟩
    · rw [hwords]
      exact List.mem_singleton.mpr rfl
  have hsent : sampleLines.map ServerLine.message =
      ⟨lit "JOIN", lit "#c" :: [], some ⟨lit "B", none, none⟩⟩ ::
        ([lit "@B"].map fun line =>
          ⟨lit "353", [lit "B", lit "=", lit "#c", line], some ⟨lit "server", none, none⟩⟩) ++
        [⟨lit "366", lit "B" :: lit "#c" :: [], some ⟨lit "server", none, none⟩⟩] := rfl
  exact .enter rfl (by decide) (by decide) (by decide) hnames hsent

/-- The bot enters, reads that it is an operator, and its line is taken. -/
theorem modes_enforced_enter : ∃ w' : Correction.World (sampleEnforcement.control sampleScope),
    Relation.ReflTransGen Correction.Step sampleWorld w' ∧ w'.Settled ∧
      sampleEnforcement.Operator w'.server ∧ sampleEnforcement.intent.Met w'.server.active := by
  let C := sampleEnforcement.control sampleScope
  let s : ModeServer := ⟨{115}, some [111]⟩
  let s' : ModeServer := ⟨applyLetters {115} (modeLetters true (lit "+n-s")), some [111]⟩
  let join := sampleLine ⟨lit "JOIN", [lit "#c"], some ⟨lit "B", none, none⟩⟩
  let names := sampleLine ⟨lit "353", [lit "B", lit "=", lit "#c", lit "@B"],
    some ⟨lit "server", none, none⟩⟩
  let last := sampleLine ⟨lit "366", [lit "B", lit "#c"], some ⟨lit "server", none, none⟩⟩
  let b₁ := C.read IrcServer.sampleTracker join
  let b₂ := C.read b₁ names
  let b₃ := C.read b₂ last
  have hoperator : ∀ active, sampleEnforcement.Operator ⟨active, some [111]⟩ := fun active =>
    ⟨[111], rfl, 0, by decide, 111, by decide, by decide⟩
  have hjoin : C.alarm IrcServer.sampleTracker join = false := by decide +kernel
  have hnames : C.alarm b₁ names = false := by decide +kernel
  have hlast : C.alarm b₂ last = true := by decide +kernel
  have hgoes : C.goes b₃ (lit "#c", true) = true := by decide +kernel
  have hread : ∀ m rest b alarmed, C.alarm b m = alarmed → Correction.Step
      (⟨s, m :: rest, b, 0, 0, false⟩ : Correction.World C)
      ⟨s, rest, C.read b m, if alarmed then 1 else 0, 0, false⟩ := by
    intro m rest b alarmed halarm
    rw [← halarm]
    exact .read rfl
  have hattempt : Correction.Step (⟨s, [], b₃, 1, 0, false⟩ : Correction.World C)
      ⟨s, [], b₃, 0, 1, false⟩ := by
    have hstep := Correction.Step.attempt (w := (⟨s, [], b₃, 1, 0, false⟩ : Correction.World C)) rfl
      (lit "#c", true)
    rwa [hgoes] at hstep
  have hserve : Correction.Step (⟨s, [], b₃, 0, 1, false⟩ : Correction.World C)
      ⟨s', [], b₃, 0, 0, false⟩ := .serve rfl (Corrects.applied (hoperator _) (by decide +kernel))
  have hrun : Relation.ReflTransGen Correction.Step sampleWorld
      (⟨s', [], b₃, 0, 0, false⟩ : Correction.World C) :=
    .tail (.tail (.tail (.tail (.tail (.single (.change changes_sampleLines))
      (hread join [names, last] _ false hjoin)) (hread names [last] b₁ false hnames))
      (hread last [] b₂ true hlast)) hattempt) hserve
  exact ⟨_, hrun, ⟨rfl, rfl, rfl⟩, hoperator _,
    (modes_enforced _ _ _ _ starts_sampleWorld hrun).1 ⟨rfl, rfl, rfl⟩ rfl (hoperator _)⟩

end Enforcement

end Botnats
