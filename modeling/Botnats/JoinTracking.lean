import Botnats.IrcEvents
import Botnats.Machine

/-!
# Joining and leaving channels

The lines that the bot queues to join and leave channels, a server that takes them in
order, and the lines with which it answers. A JOIN of a channel the bot is on is ignored;
every JOIN and PART that takes effect is echoed. Whether a line is taken into the queue,
whether a pending JOIN has timed out and how the server answers a JOIN is left open.

The bot's view agrees with the server's once both queues are empty, unless a record made
a channel desired again that the bot could not leave yet: its runtime starts over, the
JOIN is ignored, and no answer ever comes.
-/
namespace Botnats

/-- A line the bot queues for the server. -/
inductive IrcLine
  | join (channel : Str) (key : Option Str)
  | part (channel : Str)
  deriving DecidableEq

/-- A line about the bot itself that the server has sent and the bot not read yet. -/
inductive ServerReply
  | joined (channel : Str) (sender : Prefix)
  | parted (channel : Str) (sender : Prefix)
  | kicked (channel nick : Str)
  | refused (numeric channel nick : Str)
  deriving DecidableEq

/-- The line as the bot parses it. -/
def ServerReply.message : ServerReply → IRCMessage
  | .joined channel sender => ⟨lit "JOIN", [channel], some sender⟩
  | .parted channel sender => ⟨lit "PART", [channel], some sender⟩
  | .kicked channel nick => ⟨lit "KICK", [channel, nick], none⟩
  | .refused numeric channel nick => ⟨numeric, [nick, channel], none⟩

/-- The numerics that refuse a JOIN and that the bot handles. -/
def joinRefusals : List Str := [lit "471", lit "473", lit "474", lit "475"]

/-- How a server answers a JOIN; a refusal by another numeric is `dropped`, as the bot
only logs it. -/
inductive JoinAnswer
  | accepted
  | refused (numeric : Str)
  | dropped

namespace ChannelRuntime

/-- The line of `safe_join` -/
def joinLines (c : ChannelRuntime) (link : IrcLink) : List IrcLine :=
  if link.sends then [.join c.channel c.key] else []

end ChannelRuntime

namespace ChannelManager

/-- The lines of `join_desired` -/
def joinDesiredLines (m : ChannelManager) (known : Bool) (link : Str → IrcLink) : List IrcLine :=
  if !known then []
  else m.channels.flatMap fun e =>
    if e.2.joinDue (link e.1) then e.2.joinLines (link e.1) else []

/-- The record changes what the bot knows of its channel. -/
def applies (m : ChannelManager) (record : ChannelRecord) : Bool :=
  !atLeast m.sourceRecords (casefold record.channel .ascii) record.revision &&
    !atLeast m.channelRecords (m.fold record.channel) record.revision

/-- The lines of `apply_record` -/
def recordLines (m : ChannelManager) (link : IrcLink) (record : ChannelRecord) : List IrcLine :=
  let before := Assoc.lookup (m.fold record.channel) m.channels
  if !m.applies record then []
  else if record.present then
    if link.ready && (before.map (·.joinDue link)).getD true then
      match (m.applyRecord link record).runtime record.channel with
      | some c => c.joinLines link
      | none => []
    else []
  else if before.isSome && link.sends then [.part record.channel]
  else []

/-- `retry_pending_parts`, where `sends` answers for each channel -/
def retryPendingParts (m : ChannelManager) (sends : Str → Bool) : ChannelManager :=
  { m with pendingParts := m.pendingParts.filter fun e =>
    (Assoc.lookup e.1 m.channels).isNone && !sends e.1 }

/-- The lines of `retry_pending_parts` -/
def retryLines (m : ChannelManager) (sends : Str → Bool) : List IrcLine :=
  m.pendingParts.flatMap fun e =>
    if (Assoc.lookup e.1 m.channels).isNone && sends e.1 then [.part e.2] else []

/-- `safe_join` of a channel not joined, as an invitation asks for it -/
def invited (m : ChannelManager) (channel : Str) (link : IrcLink) : ChannelManager :=
  m.mapRuntime channel fun c => if c.joined then c else c.safeJoin link

def invitedLines (m : ChannelManager) (channel : Str) (link : IrcLink) : List IrcLine :=
  match m.runtime channel with
  | some c => if c.joined then [] else c.joinLines link
  | none => []

end ChannelManager

namespace IrcBot

/-- The lines of `set_identity` -/
def identityLines (b : IrcBot) (link : Str → IrcLink) (p : Prefix) : List IrcLine :=
  let (b, changed) := b.recordIdentity p
  if changed then b.manager.joinDesiredLines b.identity.isSome link else []

/-- The lines of `handle_join` -/
def joinEchoLines (b : IrcBot) (link : Str → IrcLink) (channel : Str) (p : Prefix) :
    List IrcLine :=
  match b.manager.runtime channel with
  | none => if b.isSelf p.nick && (link (b.manager.fold channel)).sends then [.part channel] else []
  | some _ =>
    let seen (c : ChannelRuntime) := c.withMember p.nick fun member =>
      { member with ircPrefix := some p }
    let m := b.manager.mapRuntime channel fun c => seen { c.reset with join := .joined }
    if b.isSelf p.nick && p.complete then { b with manager := m }.identityLines link p else []

/-- The lines with which the bot reacts to a line of the server -/
def replyLines (b : IrcBot) (link : Str → IrcLink) : ServerReply → List IrcLine
  | .joined channel sender => b.joinEchoLines link channel sender
  | _ => []

end IrcBot

/-- The bot, the lines it has queued, the channels the server has it on, by folded name,
and the server's lines under way. -/
structure JoinWorld where
  bot : IrcBot
  queue : List IrcLine
  on : Str → Bool
  replies : List ServerReply

inductive JoinStep
  | record (link : IrcLink) (record : ChannelRecord)
  | retryParts (sends : Str → Bool)
  | joinDesired (link : Str → IrcLink)
  | invited (channel : Str) (link : IrcLink)
  | serve (sender : Prefix) (answer : JoinAnswer)
  | kick (channel nick : Str)
  | deliver (link : Str → IrcLink) (now : ℚ)

namespace JoinWorld

def fold (w : JoinWorld) (channel : Str) : Str := w.bot.manager.fold channel

def withManager (w : JoinWorld) (m : ChannelManager) (lines : List IrcLine) : JoinWorld :=
  { w with bot := { w.bot with manager := m }, queue := w.queue ++ lines }

/-- The server lets the bot in or out of a channel, and says so. -/
def turn (w : JoinWorld) (channel : Str) (on : Bool) (reply : ServerReply) : JoinWorld :=
  { w with
    on := Function.update w.on (w.fold channel) on
    replies := w.replies ++ [reply] }

/-- The server takes the next line. -/
def serve (w : JoinWorld) (sender : Prefix) (answer : JoinAnswer) : IrcLine → JoinWorld
  | .join channel _ =>
    if w.on (w.fold channel) then w
    else
      match answer with
      | .accepted => w.turn channel true (.joined channel sender)
      | .refused numeric =>
        { w with replies := w.replies ++ [.refused numeric channel sender.nick] }
      | .dropped => w
  | .part channel =>
    if w.on (w.fold channel) then w.turn channel false (.parted channel sender) else w

def handled : JoinAnswer → Bool
  | .refused numeric => numeric ∈ joinRefusals
  | _ => true

variable (S : SessionScope)

/-- The server shows the bot under its nick. -/
def step (w : JoinWorld) : JoinStep → Option JoinWorld
  | .record link record =>
    let m := w.bot.manager
    some (w.withManager (m.applyRecord link record) (m.recordLines link record))
  | .retryParts sends =>
    let m := w.bot.manager
    some (w.withManager (m.retryPendingParts sends) (m.retryLines sends))
  | .joinDesired link =>
    let m := w.bot.manager
    let known := w.bot.identity.isSome
    some (w.withManager (m.joinDesired known link) (m.joinDesiredLines known link))
  | .invited channel link =>
    let m := w.bot.manager
    some (w.withManager (m.invited channel link) (m.invitedLines channel link))
  | .serve sender answer =>
    match w.queue with
    | [] => none
    | line :: rest =>
      if w.bot.isSelf sender.nick && handled answer then
        some ({ w with queue := rest }.serve sender answer line)
      else none
  | .kick channel nick =>
    if w.on (w.fold channel) && w.bot.isSelf nick then
      some (w.turn channel false (.kicked channel nick))
    else none
  | .deliver link now =>
    match w.replies with
    | [] => none
    | reply :: rest => some { w with
        bot := w.bot.onMessage S link now reply.message
        queue := w.queue ++ w.bot.replyLines link reply
        replies := rest }

/-- A fresh connection, registered under a known identity: no channel joined, none left
to part, nothing under way. -/
structure Start (w : JoinWorld) : Prop where
  registered : w.bot.registered = true
  identity : w.bot.identity.isSome
  idle : ∀ e ∈ w.bot.manager.channels, e.2.join = .idle
  parts : w.bot.manager.pendingParts = []
  queue : w.queue = []
  on : ∀ f, w.on f = false
  replies : w.replies = []

/-- With nothing under way, the channels the server has the bot on are the joined ones
and those it has still to leave. -/
def Agrees (w : JoinWorld) : Prop :=
  w.queue = [] → w.replies = [] → ∀ f,
    (w.on f = true →
      (∃ c, Assoc.lookup f w.bot.manager.channels = some c ∧ c.join = .joined) ∨
      (Assoc.lookup f w.bot.manager.channels = none ∧
        (Assoc.lookup f w.bot.manager.pendingParts).isSome)) ∧
    ∀ c, Assoc.lookup f w.bot.manager.channels = some c → c.join = .joined → w.on f = true

end JoinWorld

/-! ## What a channel's place depends on -/

/-- What the line asks the server to leave. -/
def IrcLine.parts (cm : Casemapping) (f : Str) : IrcLine → Bool
  | .part channel => casefold channel cm = f
  | .join _ _ => false

/-- Whether the line says that the bot came to, or left, a channel. -/
def ServerReply.turn (cm : Casemapping) (f : Str) : ServerReply → Option Bool
  | .joined channel _ => if casefold channel cm = f then some true else none
  | .parted channel _ => if casefold channel cm = f then some false else none
  | .kicked channel _ => if casefold channel cm = f then some false else none
  | .refused _ _ _ => none

/-- The line is about the bot. -/
def ServerReply.own (b : IrcBot) : ServerReply → Bool
  | .joined _ sender => b.isSelf sender.nick
  | .parted _ sender => b.isSelf sender.nick
  | .kicked _ nick => b.isSelf nick
  | .refused numeric _ _ => numeric ∈ joinRefusals

theorem ServerReply.own_congr (reply : ServerReply) {b b' : IrcBot}
    (hnick : b'.currentNick = b.currentNick)
    (hcm : b'.manager.casemapping = b.manager.casemapping) : reply.own b' = reply.own b := by
  have hself : ∀ nick, b'.isSelf nick = b.isSelf nick := by
    intro nick
    rw [IrcBot.isSelf, IrcBot.isSelf, ChannelManager.fold, ChannelManager.fold,
      ChannelManager.fold, ChannelManager.fold, hnick, hcm]
  cases reply <;> simp only [ServerReply.own, hself]

/-- Whether a channel is desired, and joined. -/
def ChannelManager.standing (m : ChannelManager) (f : Str) : Option Bool :=
  (Assoc.lookup f m.channels).map ChannelRuntime.joined

/-! ## What the bot's steps leave in place -/

namespace ChannelManager

/-- No channel is joined or left, and none is added to those to leave. -/
structure Keeps (m m' : ChannelManager) : Prop where
  casemapping : m'.casemapping = m.casemapping
  parts : m'.pendingParts = m.pendingParts
  standing : ∀ f, m'.standing f = m.standing f

theorem Keeps.refl (m : ChannelManager) : Keeps m m := ⟨rfl, rfl, fun _ => rfl⟩

theorem Keeps.trans {m m' m'' : ChannelManager} (h : Keeps m m') (h' : Keeps m' m'') :
    Keeps m m'' :=
  ⟨h'.casemapping.trans h.casemapping, h'.parts.trans h.parts,
    fun f => (h'.standing f).trans (h.standing f)⟩

/-- A JOIN goes out for a channel that is not joined, and does not join it. -/
theorem joined_safeJoin {c : ChannelRuntime} (h : c.joined = false) (link : IrcLink) :
    (c.safeJoin link).joined = false := by
  unfold ChannelRuntime.safeJoin
  split_ifs
  · simp [ChannelRuntime.joined]
  · exact h

theorem joined_of_joinDue {c : ChannelRuntime} {link : IrcLink} (h : c.joinDue link = true) :
    c.joined = false := by
  cases hjoin : c.join <;> simp_all [ChannelRuntime.joinDue, ChannelRuntime.joined]

theorem keeps_joinDesired (m : ChannelManager) (known : Bool) (link : Str → IrcLink) :
    Keeps m (m.joinDesired known link) := by
  unfold joinDesired
  split_ifs
  · exact Keeps.refl m
  · refine ⟨rfl, rfl, fun f => ?_⟩
    have hlookup := Assoc.lookup_map_key
      (fun k c => if ChannelRuntime.joinDue c (link k) then c.safeJoin (link k) else c) f m.channels
    simp only [standing, hlookup, Option.map_map]
    refine Option.map_congr fun c _ => ?_
    simp only [Function.comp]
    split_ifs with hdue
    · rw [joined_safeJoin (joined_of_joinDue hdue), joined_of_joinDue hdue]
    · rfl

theorem standing_fold (m : ChannelManager) (channel : Str) :
    m.standing (m.fold channel) = (m.runtime channel).map ChannelRuntime.joined := rfl

/-- One runtime changes; what becomes of a channel is what becomes of it. -/
theorem standing_mapRuntime (m : ChannelManager) (channel : Str)
    (change : ChannelRuntime → ChannelRuntime) (f : Str) :
    (m.mapRuntime channel change).standing f =
      if m.fold channel = f then (Assoc.lookup f m.channels).map fun c => (change c).joined
      else m.standing f := by
  unfold mapRuntime runtime
  split
  · rename_i hnone
    split_ifs with hf
    · subst hf
      simp [standing, hnone]
    · rfl
  · rename_i c hc
    split_ifs with hf
    · subst hf
      simp [standing, hc]
    · simp [standing, Assoc.lookup_assign_of_ne _ _ hf]

@[simp] theorem mapRuntime_pendingParts (m : ChannelManager) (channel : Str)
    (change : ChannelRuntime → ChannelRuntime) :
    (m.mapRuntime channel change).pendingParts = m.pendingParts := by
  unfold mapRuntime
  split <;> rfl

theorem keeps_mapRuntime (m : ChannelManager) (channel : Str)
    (change : ChannelRuntime → ChannelRuntime) (h : ∀ c, (change c).joined = c.joined) :
    Keeps m (m.mapRuntime channel change) := by
  refine ⟨m.mapRuntime_casemapping channel change, m.mapRuntime_pendingParts channel change,
    fun f => ?_⟩
  rw [standing_mapRuntime]
  split_ifs
  · simp only [h]
    rfl
  · rfl

theorem keeps_invited (m : ChannelManager) (channel : Str) (link : IrcLink) :
    Keeps m (m.invited channel link) := by
  refine keeps_mapRuntime m channel _ fun c => ?_
  split_ifs with hjoined
  · rfl
  · rw [joined_safeJoin (by simpa using hjoined) link]
    simpa using hjoined

theorem keeps_refuse (m : ChannelManager) (channel : Str) :
    Keeps m (m.mapRuntime channel ChannelRuntime.refuseJoin) := by
  refine keeps_mapRuntime m channel _ fun c => ?_
  unfold ChannelRuntime.refuseJoin
  split_ifs with hjoining
  · simp [ChannelRuntime.joined, hjoining]
  · rfl

/-- A record the bot knows already moves nothing. -/
theorem applyRecord_stale {m : ChannelManager} {record : ChannelRecord}
    (h : m.applies record = false) (link : IrcLink) : Keeps m (m.applyRecord link record) := by
  unfold applyRecord
  by_cases hsource : atLeast m.sourceRecords (casefold record.channel .ascii)
      record.revision = true
  · rw [if_pos hsource]
    exact Keeps.refl m
  · have hmerged : atLeast m.channelRecords (m.fold record.channel) record.revision = true := by
      simpa [applies, hsource] using h
    rw [if_neg hsource]
    dsimp only
    rw [if_pos hmerged]
    exact ⟨rfl, rfl, fun _ => rfl⟩

/-- A record that is news is kept, and joins or leaves its channel. -/
theorem applyRecord_news {m : ChannelManager} {record : ChannelRecord}
    (h : m.applies record = true) (link : IrcLink) :
    ∃ n : ChannelManager, n.casemapping = m.casemapping ∧ n.channels = m.channels ∧
      n.pendingParts = m.pendingParts ∧ m.applyRecord link record =
        if record.present then
          n.applyPresent link record (Assoc.lookup (m.fold record.channel) m.channelRecords)
        else n.applyParted link record := by
  simp only [applies, Bool.and_eq_true, Bool.not_eq_true'] at h
  refine ⟨{ m with
    sourceRecords := Assoc.assign (casefold record.channel .ascii) record m.sourceRecords
    channelRecords := Assoc.assign (m.fold record.channel) record m.channelRecords },
    rfl, rfl, rfl, ?_⟩
  unfold applyRecord
  rw [if_neg (by simp [h.1])]
  dsimp only
  rw [if_neg (by exact fun hmerged => absurd (h.2.symm.trans hmerged) (by simp))]

/-- A present record leaves its channel joined or to be joined. -/
theorem applyPresent_standing (m : ChannelManager) (link : IrcLink) (record : ChannelRecord)
    (current : Option ChannelRecord) (f : Str) :
    (m.applyPresent link record current).standing f =
      if m.fold record.channel = f then some ((m.standing f).getD false) else m.standing f := by
  have hjoin : ∀ c : ChannelRuntime,
      (if link.ready && c.joinDue link then c.safeJoin link else c).joined = c.joined := by
    intro c
    split_ifs with hdue
    · have hjoined := joined_of_joinDue (Bool.and_eq_true_iff.mp hdue).2
      rw [joined_safeJoin hjoined link, hjoined]
    · rfl
  have hold : ∀ existing : Option ChannelRuntime,
      (existing.getD (.fresh m.casemapping [] none)).joined =
        (existing.map ChannelRuntime.joined).getD false := by
    intro existing
    cases existing <;> rfl
  obtain ⟨c, hc, hjoined⟩ : ∃ c, (m.applyPresent link record current).channels =
      Assoc.assign (m.fold record.channel) c m.channels ∧
        c.joined = ((m.standing (m.fold record.channel)).getD false) := by
    refine ⟨_, rfl, (hjoin _).trans ?_⟩
    split_ifs
    · exact hold _
    · exact hold _
  rw [standing, hc]
  by_cases hf : m.fold record.channel = f
  · subst hf
    rw [if_pos rfl, Assoc.lookup_assign_self, Option.map_some, hjoined]
  · rw [if_neg hf, Assoc.lookup_assign_of_ne _ _ hf, standing]

theorem applyRecord_present {m : ChannelManager} {record : ChannelRecord}
    (h : m.applies record = true) (hpresent : record.present = true) (link : IrcLink) :
    (m.applyRecord link record).casemapping = m.casemapping ∧
    (m.applyRecord link record).pendingParts =
      Assoc.discard (m.fold record.channel) m.pendingParts ∧
    ∀ f, (m.applyRecord link record).standing f =
      if m.fold record.channel = f then some ((m.standing f).getD false) else m.standing f := by
  obtain ⟨n, hcm, hchannels, hparts, happly⟩ := applyRecord_news h link
  have hfold : n.fold record.channel = m.fold record.channel := by rw [fold, hcm, fold]
  rw [happly, if_pos hpresent]
  refine ⟨hcm, ?_, fun f => ?_⟩
  · rw [← hfold, ← hparts]
    rfl
  · rw [applyPresent_standing, hfold, standing, hchannels, standing]

/-- A tombstone leaves its channel, at once or later. -/
theorem applyRecord_parted {m : ChannelManager} {record : ChannelRecord}
    (h : m.applies record = true) (hpresent : record.present = false) (link : IrcLink) :
    (m.applyRecord link record).casemapping = m.casemapping ∧
    (m.applyRecord link record).pendingParts =
      (if (m.standing (m.fold record.channel)).isSome && !link.sends then
        Assoc.assign (m.fold record.channel) record.channel m.pendingParts
      else m.pendingParts) ∧
    ∀ f, (m.applyRecord link record).standing f =
      if m.fold record.channel = f then none else m.standing f := by
  obtain ⟨n, hcm, hchannels, hparts, happly⟩ := applyRecord_news h link
  have hfold : n.fold record.channel = m.fold record.channel := by rw [fold, hcm, fold]
  rw [happly, if_neg (by simp [hpresent])]
  unfold applyParted
  dsimp only
  rw [hfold, hchannels, hparts]
  cases hlookup : Assoc.lookup (m.fold record.channel) m.channels with
  | none =>
    refine ⟨hcm, by simp [standing, hlookup, hparts], fun f => ?_⟩
    by_cases hf : m.fold record.channel = f
    · subst hf
      simp [standing, hchannels, hlookup]
    · simp [standing, hchannels, hf]
  | some c =>
    refine ⟨hcm, ?_, fun f => ?_⟩
    · simp only [standing, hlookup, Option.map_some, Option.isSome_some, Bool.true_and]
      cases link.sends <;> rfl
    · by_cases hf : m.fold record.channel = f
      · subst hf
        simp [standing]
      · simp [standing, hf, Assoc.lookup_discard_of_ne _ hf]

theorem joinLines_parts (c : ChannelRuntime) (link : IrcLink) (cm : Casemapping) (f : Str) :
    (c.joinLines link).any (IrcLine.parts cm f) = false := by
  unfold ChannelRuntime.joinLines
  split_ifs <;> rfl

/-- A present record asks to leave nothing. -/
theorem recordLines_present (m : ChannelManager) (link : IrcLink) {record : ChannelRecord}
    (hpresent : record.present = true) (cm : Casemapping) (f : Str) :
    (m.recordLines link record).any (IrcLine.parts cm f) = false := by
  unfold recordLines
  dsimp only
  rw [if_pos hpresent]
  split_ifs
  · rfl
  · split
    · exact joinLines_parts _ link cm f
    · rfl
  · rfl

/-- A tombstone asks to leave its channel, where it was desired. -/
theorem recordLines_parted {m : ChannelManager} {record : ChannelRecord}
    (h : m.applies record = true) (hpresent : record.present = false) (link : IrcLink) (f : Str) :
    (m.recordLines link record).any (IrcLine.parts m.casemapping f) =
      ((m.standing (m.fold record.channel)).isSome && link.sends &&
        decide (m.fold record.channel = f)) := by
  unfold recordLines
  dsimp only
  rw [if_neg (by simp [h]), if_neg (by simp [hpresent]), standing, Option.isSome_map]
  split_ifs with hsends
  · rw [hsends, Bool.true_and, List.any_cons, List.any_nil, Bool.or_false]
    rfl
  · simp only [Bool.not_eq_true] at hsends
    rw [hsends]
    rfl

theorem joinDesiredLines_parts (m : ChannelManager) (known : Bool) (link : Str → IrcLink)
    (cm : Casemapping) (f : Str) :
    (m.joinDesiredLines known link).any (IrcLine.parts cm f) = false := by
  unfold joinDesiredLines
  split_ifs
  · rfl
  · rw [List.any_flatMap, List.any_eq_false]
    intro e _
    split_ifs
    · simp [joinLines_parts]
    · simp

theorem invitedLines_parts (m : ChannelManager) (channel : Str) (link : IrcLink)
    (cm : Casemapping) (f : Str) :
    (m.invitedLines channel link).any (IrcLine.parts cm f) = false := by
  unfold invitedLines
  split
  · split_ifs
    · rfl
    · exact joinLines_parts _ link cm f
  · rfl

end ChannelManager

namespace IrcBot

theorem keeps_setIdentity (b : IrcBot) (link : Str → IrcLink) (p : Prefix) :
    ChannelManager.Keeps b.manager (b.setIdentity link p).manager ∧
      (b.setIdentity link p).currentNick = b.currentNick := by
  have hrecord : (b.recordIdentity p).1.manager = b.manager ∧
      (b.recordIdentity p).1.currentNick = b.currentNick := by
    unfold recordIdentity
    cases p.user with
    | none => exact ⟨rfl, rfl⟩
    | some user => cases p.host <;> exact ⟨rfl, rfl⟩
  unfold setIdentity
  dsimp only
  split_ifs
  · refine ⟨?_, hrecord.2⟩
    rw [hrecord.1]
    exact ChannelManager.keeps_joinDesired _ _ _
  · exact ⟨hrecord.1 ▸ ChannelManager.Keeps.refl _, hrecord.2⟩

variable (S : SessionScope) (b : IrcBot) (link : Str → IrcLink) (now : ℚ)

theorem onMessage_joined (channel : Str) (p : Prefix) :
    b.onMessage S link now (ServerReply.joined channel p).message =
      b.handleJoin link ⟨lit "JOIN", [channel], some p⟩ := rfl

theorem onMessage_parted (channel : Str) (p : Prefix) :
    b.onMessage S link now (ServerReply.parted channel p).message =
      b.handlePart ⟨lit "PART", [channel], some p⟩ := rfl

theorem onMessage_kicked (channel nick : Str) :
    b.onMessage S link now (ServerReply.kicked channel nick).message =
      b.handleKick ⟨lit "KICK", [channel, nick], none⟩ := rfl

theorem onMessage_refused {numeric : Str} (h : numeric ∈ joinRefusals) (channel nick : Str) :
    b.onMessage S link now (ServerReply.refused numeric channel nick).message =
      b.handleRefused ⟨numeric, [nick, channel], none⟩ := by
  simp only [joinRefusals, List.mem_cons, List.not_mem_nil, or_false] at h
  rcases h with rfl | rfl | rfl | rfl <;> rfl

variable {b}

/-- The echo of a JOIN joins a desired channel; one that is not desired is left, at once
or later. -/
theorem handleJoin_self (channel : Str) {p : Prefix} (hself : b.isSelf p.nick = true) :
    let b' := b.handleJoin link ⟨lit "JOIN", [channel], some p⟩
    b'.currentNick = b.currentNick ∧ b'.manager.casemapping = b.manager.casemapping ∧
    (∀ f, b'.manager.standing f =
      if b.manager.fold channel = f then (b.manager.standing f).map fun _ => true
      else b.manager.standing f) ∧
    b'.manager.pendingParts =
      if (b.manager.standing (b.manager.fold channel)).isNone &&
          !(link (b.manager.fold channel)).sends then
        Assoc.assign (b.manager.fold channel) channel b.manager.pendingParts
      else b.manager.pendingParts := by
  intro b'
  cases hruntime : b.manager.runtime channel with
  | none =>
    have hstanding : b.manager.standing (b.manager.fold channel) = none :=
      Option.map_eq_none_iff.mpr hruntime
    have hsame : ∀ f, b.manager.standing f =
        if b.manager.fold channel = f then (b.manager.standing f).map fun _ => true
        else b.manager.standing f := by
      intro f
      split_ifs with hf
      · subst hf
        simp [hstanding]
      · rfl
    cases hsends : (link (b.manager.fold channel)).sends with
    | true =>
      have hb : b' = b := by simp [b', handleJoin, hruntime, hself, hsends]
      rw [hb]
      exact ⟨rfl, rfl, hsame, by simp⟩
    | false =>
      have hb : b' = { b with manager := { b.manager with
          pendingParts := Assoc.assign (b.manager.fold channel) channel
            b.manager.pendingParts } } := by
        simp [b', handleJoin, hruntime, hself, hsends]
      rw [hb]
      exact ⟨rfl, rfl, hsame, by simp [hstanding]⟩
  | some c =>
    have hstanding : (b.manager.standing (b.manager.fold channel)).isNone = false := by
      rw [ChannelManager.standing_fold, hruntime]
      rfl
    set change : ChannelRuntime → ChannelRuntime := fun c =>
      ({ c.reset with join := .joined } : ChannelRuntime).withMember p.nick fun member =>
        { member with ircPrefix := some p } with hchange
    set m := b.manager.mapRuntime channel change with hm
    have hjoins : ∀ f, m.standing f =
        if b.manager.fold channel = f then (b.manager.standing f).map fun _ => true
        else b.manager.standing f := by
      intro f
      rw [hm, ChannelManager.standing_mapRuntime]
      split_ifs
      · simp [ChannelManager.standing, hchange, ChannelRuntime.withMember,
          ChannelRuntime.joined, Function.comp_def]
      · rfl
    have hcasemapping : m.casemapping = b.manager.casemapping := by simp [hm]
    have hparts : m.pendingParts = b.manager.pendingParts := by simp [hm]
    simp only [hstanding, Bool.false_and, Bool.false_eq_true, if_false]
    by_cases hcomplete : p.complete = true
    · have hb : b' = { b with manager := m }.setIdentity link p := by
        simp [b', handleJoin, hruntime, hself, hcomplete, hm, hchange]
      obtain ⟨hkeeps, hnick⟩ := keeps_setIdentity { b with manager := m } link p
      rw [hb]
      exact ⟨hnick, hkeeps.casemapping.trans hcasemapping,
        fun f => (hkeeps.standing f).trans (hjoins f), hkeeps.parts.trans hparts⟩
    · have hb : b' = { b with manager := m } := by
        simp [b', handleJoin, hruntime, hself, hcomplete, hm, hchange]
      rw [hb]
      exact ⟨rfl, hcasemapping, hjoins, hparts⟩

/-- The echo of a JOIN asks to leave the channel alone, where it is not desired. -/
theorem joinEchoLines_parts (channel : Str) {p : Prefix} (hself : b.isSelf p.nick = true)
    (f : Str) :
    (b.joinEchoLines link channel p).any (IrcLine.parts b.manager.casemapping f) =
      ((b.manager.standing (b.manager.fold channel)).isNone &&
        (link (b.manager.fold channel)).sends && decide (b.manager.fold channel = f)) := by
  unfold joinEchoLines
  cases hruntime : b.manager.runtime channel with
  | none =>
    have hstanding : b.manager.standing (b.manager.fold channel) = none :=
      Option.map_eq_none_iff.mpr hruntime
    rw [hstanding]
    cases hsends : (link (b.manager.fold channel)).sends with
    | true =>
      simp only [hself, Bool.and_self, if_true, List.any_cons, List.any_nil,
        Bool.or_false, Option.isNone_none, Bool.true_and]
      rfl
    | false => simp
  | some c =>
    have hstanding : (b.manager.standing (b.manager.fold channel)).isNone = false := by
      rw [ChannelManager.standing_fold, hruntime]
      rfl
    simp only [hstanding, Bool.false_and]
    split_ifs
    · unfold identityLines
      dsimp only
      split_ifs
      · exact ChannelManager.joinDesiredLines_parts _ _ _ _ _
      · rfl
    · rfl

/-- The echo of a PART, and a KICK of the bot, reset the channel. -/
theorem mapRuntime_reset (m : ChannelManager) (channel f : Str) :
    (m.mapRuntime channel ChannelRuntime.reset).standing f =
      if m.fold channel = f then (m.standing f).map fun _ => false else m.standing f := by
  rw [ChannelManager.standing_mapRuntime]
  split_ifs
  · simp [ChannelManager.standing, ChannelRuntime.reset, ChannelRuntime.joined,
      Function.comp_def]
  · rfl

end IrcBot

namespace JoinWorld

def standing (w : JoinWorld) (f : Str) : Option Bool := w.bot.manager.standing f

def pending (w : JoinWorld) (f : Str) : Bool :=
  (Assoc.lookup f w.bot.manager.pendingParts).isSome

/-- A PART of the channel is queued. -/
def parting (w : JoinWorld) (f : Str) : Bool :=
  w.queue.any (IrcLine.parts w.bot.manager.casemapping f)

/-- The last turn of the channel that the bot has not read. -/
def lastTurn (w : JoinWorld) (f : Str) : Option Bool :=
  (w.replies.filterMap (ServerReply.turn w.bot.manager.casemapping f)).getLast?

/-- The bot is on the channel and knows it, and its PART failed. -/
def lingers (w : JoinWorld) (f : Str) : Bool :=
  w.pending f && w.on f && !w.parting f && (w.lastTurn f).isNone

/-- No record makes a channel desired again that the bot lingers on. -/
def clean (w : JoinWorld) : JoinStep → Bool
  | .record _ record => !(record.present && w.bot.manager.applies record &&
      (w.standing (w.fold record.channel)).isNone && w.lingers (w.fold record.channel))
  | _ => true

/-- A channel whose turns the bot has all read. -/
structure Tracks (standing : Option Bool) (pending parting on : Bool) : Prop where
  joined : standing = some true → on = true
  idle : standing = some false → on = true → parting = true
  absent : standing = none → on = true → pending = true ∨ parting = true

/-- A channel becomes desired: it starts over, unless it was desired before. -/
theorem Tracks.desired {standing : Option Bool} {pending parting on : Bool}
    (h : Tracks standing pending parting on)
    (hleft : standing = none → on = true → pending = true → parting = true) :
    Tracks (some (standing.getD false)) false parting on := by
  cases standing with
  | some joined => exact ⟨h.joined, h.idle, by simp⟩
  | none =>
    refine ⟨by simp, fun _ hon => ?_, by simp⟩
    rcases h.absent rfl hon with hpending | hparting
    · exact hleft rfl hon hpending
    · exact hparting

structure InStep (w : JoinWorld) : Prop where
  keyed : ∀ e ∈ w.bot.manager.pendingParts, w.fold e.2 = e.1
  own : ∀ reply ∈ w.replies, reply.own w.bot = true
  turned : ∀ f e, w.lastTurn f = some e → w.on f = e
  tracks : ∀ f, w.lastTurn f = none → Tracks (w.standing f) (w.pending f) (w.parting f) (w.on f)

/-- With nothing under way, every turn has been read. -/
theorem InStep.agrees {w : JoinWorld} (h : InStep w) : w.Agrees := by
  intro hqueue hreplies f
  have hlast : w.lastTurn f = none := by simp [lastTurn, hreplies]
  have hparting : w.parting f = false := by simp [parting, hqueue]
  have htracks := h.tracks f hlast
  rw [hparting] at htracks
  refine ⟨fun hon => ?_, fun c hc hjoined => ?_⟩
  · cases hlookup : Assoc.lookup f w.bot.manager.channels with
    | none =>
      have hstanding : w.standing f = none := by
        simp [standing, ChannelManager.standing, hlookup]
      exact .inr ⟨rfl, (htracks.absent hstanding hon).resolve_right (by simp)⟩
    | some c =>
      refine .inl ⟨c, rfl, ?_⟩
      by_contra hnot
      have hstanding : w.standing f = some false := by
        simp [standing, ChannelManager.standing, hlookup, ChannelRuntime.joined, hnot]
      exact absurd (htracks.idle hstanding hon) (by simp)
  · refine htracks.joined ?_
    simp [standing, ChannelManager.standing, hc, ChannelRuntime.joined, hjoined]

/-- A fresh connection. -/
theorem Start.inStep {w : JoinWorld} (h : Start w) : InStep w := by
  refine ⟨by simp [h.parts], by simp [h.replies], by simp [lastTurn, h.replies], fun f _ => ?_⟩
  have hoff := h.on f
  refine ⟨fun hjoined => ?_, fun _ hon => by simp [hoff] at hon, fun _ hon => by simp [hoff] at hon⟩
  obtain ⟨c, hc, hcjoined⟩ := Option.map_eq_some_iff.mp hjoined
  have hidle : c.join = .idle := h.idle _ (Assoc.mem_of_lookup hc)
  simp [ChannelRuntime.joined, hidle] at hcjoined

section Steps

variable {w : JoinWorld}

/-- A step of the bot by itself: it changes its view and queues lines. -/
theorem InStep.withManager (h : InStep w) {m : ChannelManager} {lines : List IrcLine}
    (hcm : m.casemapping = w.bot.manager.casemapping)
    (hkeyed : ∀ e ∈ m.pendingParts, w.fold e.2 = e.1)
    (htracks : ∀ f, Tracks (w.standing f) (w.pending f) (w.parting f) (w.on f) →
      w.lastTurn f = none → Tracks (m.standing f) (Assoc.lookup f m.pendingParts).isSome
        (w.parting f || lines.any (IrcLine.parts w.bot.manager.casemapping f)) (w.on f)) :
    InStep (w.withManager m lines) := by
  have hlast : ∀ f, (w.withManager m lines).lastTurn f = w.lastTurn f := by
    intro f
    simp only [lastTurn, JoinWorld.withManager, hcm]
  refine ⟨fun e he => ?_, fun reply hreply => ?_, fun f e he => ?_, fun f hf => ?_⟩
  · have hkey := hkeyed e he
    simpa [JoinWorld.fold, JoinWorld.withManager, ChannelManager.fold, hcm] using hkey
  · have hown := h.own reply hreply
    have hnick : (w.withManager m lines).bot.currentNick = w.bot.currentNick := rfl
    exact (ServerReply.own_congr reply hnick hcm).trans hown
  · exact h.turned f e (hlast f ▸ he)
  · have hold := h.tracks f (hlast f ▸ hf)
    have hnew := htracks f hold (hlast f ▸ hf)
    simpa [standing, pending, parting, JoinWorld.withManager, hcm, List.any_append] using hnew

/-- A step that joins and leaves nothing. -/
theorem InStep.keeps (h : InStep w) {m : ChannelManager} {lines : List IrcLine}
    (hm : ChannelManager.Keeps w.bot.manager m)
    (hlines : ∀ f, lines.any (IrcLine.parts w.bot.manager.casemapping f) = false) :
    InStep (w.withManager m lines) := by
  refine h.withManager hm.casemapping (fun e he => h.keyed e (hm.parts ▸ he)) fun f hf _ => ?_
  rw [hm.standing, hm.parts, hlines, Bool.or_false]
  exact hf

/-- A record that makes a channel desired, or leaves it. -/
theorem InStep.record (h : InStep w) (link : IrcLink) (record : ChannelRecord)
    (hclean : w.clean (.record link record) = true) :
    InStep (w.withManager (w.bot.manager.applyRecord link record)
      (w.bot.manager.recordLines link record)) := by
  cases happlies : w.bot.manager.applies record with
  | false =>
    refine h.keeps (ChannelManager.applyRecord_stale happlies link) fun f => ?_
    simp [ChannelManager.recordLines, happlies]
  | true =>
    cases hpresent : record.present with
    | true =>
      obtain ⟨hcm, hparts, hstanding⟩ :=
        ChannelManager.applyRecord_present happlies hpresent link
      refine h.withManager hcm (fun e he => ?_) fun f hf hlast => ?_
      · rw [hparts] at he
        exact h.keyed e (List.mem_of_mem_filter he)
      · rw [hstanding, hparts, ChannelManager.recordLines_present _ _ hpresent, Bool.or_false]
        by_cases hfold : w.bot.manager.fold record.channel = f
        · subst hfold
          rw [if_pos rfl, Assoc.lookup_discard_self]
          refine hf.desired fun hnone hon hpending => ?_
          -- the bot does not linger on a channel that becomes desired
          by_contra hparting
          have hstay : w.lingers (w.fold record.channel) = true := by
            simp only [lingers, JoinWorld.fold, hpending, hon, hlast, Option.isNone_none,
              Bool.and_true, Bool.true_and]
            simpa using hparting
          have habsent : (w.standing (w.fold record.channel)).isNone = true := by
            simpa [JoinWorld.fold] using hnone
          simp [clean, hpresent, happlies, hstay, habsent] at hclean
        · rw [if_neg hfold, Assoc.lookup_discard_of_ne _ hfold]
          exact hf
    | false =>
      obtain ⟨hcm, hparts, hstanding⟩ :=
        ChannelManager.applyRecord_parted happlies hpresent link
      refine h.withManager hcm (fun e he => ?_) fun f hf _ => ?_
      · rw [hparts] at he
        split_ifs at he
        · rcases Assoc.mem_assign he with rfl | he
          · rfl
          · exact h.keyed e he
        · exact h.keyed e he
      · rw [hstanding, hparts, ChannelManager.recordLines_parted happlies hpresent]
        by_cases hfold : w.bot.manager.fold record.channel = f
        · subst hfold
          rw [if_pos rfl]
          cases hs : w.bot.manager.standing (w.bot.manager.fold record.channel) with
          | none =>
            have hs' : w.standing (w.bot.manager.fold record.channel) = none := hs
            rw [hs'] at hf
            simpa [hs, pending] using hf
          | some joined =>
            refine ⟨by simp, by simp, fun _ _ => ?_⟩
            cases link.sends <;> simp
        · rw [if_neg hfold]
          split_ifs
          · simpa [hfold, pending, standing, Assoc.lookup_assign_of_ne _ _ hfold] using hf
          · simpa [hfold, pending, standing] using hf

/-- What is still to leave is asked for again, and kept where the line is refused. -/
theorem InStep.retryParts (h : InStep w) (sends : Str → Bool) :
    InStep (w.withManager (w.bot.manager.retryPendingParts sends)
      (w.bot.manager.retryLines sends)) := by
  refine h.withManager rfl (fun e he => h.keyed e (List.mem_of_mem_filter he)) fun f hf _ => ?_
  refine ⟨hf.joined, fun hidle hon => ?_, fun habsent hon => ?_⟩
  · rw [hf.idle hidle hon]
    rfl
  · rcases hf.absent habsent hon with hpending | hparting
    · obtain ⟨channel, hchannel⟩ := Option.isSome_iff_exists.mp hpending
      have hmem := Assoc.mem_of_lookup hchannel
      have hnone : (Assoc.lookup f w.bot.manager.channels).isNone = true := by
        have hlookup : Assoc.lookup f w.bot.manager.channels = none :=
          Option.map_eq_none_iff.mp habsent
        simp [hlookup]
      cases hsends : sends f with
      | true =>
        refine .inr ?_
        rw [Bool.or_eq_true]
        refine .inr (List.any_eq_true.mpr ⟨.part channel, ?_, ?_⟩)
        · exact List.mem_flatMap.mpr ⟨(f, channel), hmem, by simp [hnone, hsends]⟩
        · exact decide_eq_true (h.keyed _ hmem)
      | false =>
        refine .inl ?_
        have hkept : (f, channel) ∈ (w.bot.manager.retryPendingParts sends).pendingParts :=
          List.mem_filter.mpr ⟨hmem, by simp [hnone, hsends]⟩
        by_contra hlost
        have hlookup : Assoc.lookup f (w.bot.manager.retryPendingParts sends).pendingParts = none := by
          simpa using hlost
        exact Assoc.lookup_eq_none.mp hlookup _ hkept rfl
    · refine .inr ?_
      rw [hparting]
      rfl

/-- The server moves the bot in or out of a channel and says so. -/
theorem InStep.turn (h : InStep w) {channel : Str} {on : Bool} {reply : ServerReply}
    (hreply : ∀ f, reply.turn w.bot.manager.casemapping f =
      if w.fold channel = f then some on else none)
    (hown : reply.own w.bot = true) : InStep (w.turn channel on reply) := by
  have hlast : ∀ f, (w.turn channel on reply).lastTurn f =
      if w.fold channel = f then some on else w.lastTurn f := by
    intro f
    simp only [lastTurn, JoinWorld.turn, List.filterMap_append]
    by_cases hf : w.fold channel = f
    · simp [hreply, hf]
    · simp [hreply, hf]
  have hon : ∀ f, (w.turn channel on reply).on f = if w.fold channel = f then on else w.on f := by
    intro f
    by_cases hf : w.fold channel = f
    · subst hf
      simp [JoinWorld.turn]
    · rw [if_neg hf]
      exact Function.update_of_ne (Ne.symm hf) _ _
  refine ⟨h.keyed, fun r hr => ?_, fun f e he => ?_, fun f hf => ?_⟩
  · rcases List.mem_append.mp hr with hr | hr
    · exact h.own r hr
    · exact List.mem_singleton.mp hr ▸ hown
  · rw [hlast] at he
    rw [hon]
    split_ifs at he ⊢
    · exact Option.some.inj he
    · exact h.turned f e he
  · rw [hlast] at hf
    rw [hon]
    split_ifs at hf ⊢
    exact h.tracks f hf

/-- A line leaves the queue; only a PART on the head is missed. -/
theorem InStep.pop (h : InStep w) (line : IrcLine) {rest : List IrcLine}
    (hqueue : w.queue = line :: rest)
    (hline : ∀ f, line.parts w.bot.manager.casemapping f = true → w.on f = true →
      w.lastTurn f ≠ none) : InStep { w with queue := rest } := by
  refine ⟨h.keyed, h.own, h.turned, fun f hf => ?_⟩
  have hold := h.tracks f hf
  have hparting : w.parting f = (line.parts w.bot.manager.casemapping f ||
      rest.any (IrcLine.parts w.bot.manager.casemapping f)) := by
    simp [parting, hqueue]
  rw [hparting] at hold
  have hmissed : w.on f = true → line.parts w.bot.manager.casemapping f = false := by
    intro hon
    by_contra hparts
    exact hline f (by simpa using hparts) hon hf
  refine ⟨hold.joined, fun hidle hon => ?_, fun habsent hon => ?_⟩
  · have hstill := hold.idle hidle hon
    rwa [hmissed hon, Bool.false_or] at hstill
  · have hstill := hold.absent habsent hon
    rwa [hmissed hon, Bool.false_or] at hstill

/-- A refusal turns no channel. -/
theorem InStep.refuse (h : InStep w) {numeric : Str} (hnumeric : numeric ∈ joinRefusals)
    (channel nick : Str) :
    InStep { w with replies := w.replies ++ [.refused numeric channel nick] } := by
  have hlast : ∀ f, ({ w with replies := w.replies ++ [.refused numeric channel nick] } :
      JoinWorld).lastTurn f = w.lastTurn f := by
    intro f
    simp [lastTurn, List.filterMap_append, ServerReply.turn]
  refine ⟨h.keyed, fun r hr => ?_, fun f e he => h.turned f e (hlast f ▸ he),
    fun f hf => h.tracks f (hlast f ▸ hf)⟩
  rcases List.mem_append.mp hr with hr | hr
  · exact h.own r hr
  · obtain rfl := List.mem_singleton.mp hr
    simpa [ServerReply.own] using hnumeric

theorem InStep.serve (h : InStep w) {line : IrcLine} {rest : List IrcLine}
    (hqueue : w.queue = line :: rest) {sender : Prefix} {answer : JoinAnswer}
    (hself : w.bot.isSelf sender.nick = true) (hhandled : handled answer = true) :
    InStep ({ w with queue := rest }.serve sender answer line) := by
  cases line with
  | join channel key =>
    have hpop : InStep { w with queue := rest } :=
      h.pop (.join channel key) hqueue fun f hparts => by simp [IrcLine.parts] at hparts
    unfold JoinWorld.serve
    dsimp only
    split_ifs
    · exact hpop
    · cases answer with
      | accepted => exact hpop.turn (fun f => rfl) hself
      | refused numeric => exact hpop.refuse (by simpa [handled] using hhandled) channel _
      | dropped => exact hpop
  | part channel =>
    unfold JoinWorld.serve
    dsimp only
    split_ifs with hon
    · have hturn : InStep (w.turn channel false (.parted channel sender)) :=
        h.turn (fun f => rfl) hself
      refine hturn.pop (.part channel) hqueue fun f hparts hstill => ?_
      obtain rfl : w.fold channel = f := of_decide_eq_true hparts
      simp [JoinWorld.turn] at hstill
    · refine h.pop (.part channel) hqueue fun f hparts hstill => ?_
      obtain rfl : w.fold channel = f := of_decide_eq_true hparts
      exact absurd hstill hon

/-- The bot reads a line of the server that turns no channel. -/
theorem InStep.read (h : InStep w) {reply : ServerReply} {rest : List ServerReply}
    (hreplies : w.replies = reply :: rest) {bot : IrcBot} {lines : List IrcLine}
    (hnick : bot.currentNick = w.bot.currentNick)
    (hcm : bot.manager.casemapping = w.bot.manager.casemapping)
    (hkeyed : ∀ e ∈ bot.manager.pendingParts, w.fold e.2 = e.1)
    (htracks : ∀ f, (rest.filterMap (ServerReply.turn w.bot.manager.casemapping f)) = [] →
      (∀ e, reply.turn w.bot.manager.casemapping f = some e → w.on f = e) →
      (reply.turn w.bot.manager.casemapping f = none →
        Tracks (w.standing f) (w.pending f) (w.parting f) (w.on f)) →
      Tracks (bot.manager.standing f) (Assoc.lookup f bot.manager.pendingParts).isSome
        (w.parting f || lines.any (IrcLine.parts w.bot.manager.casemapping f)) (w.on f)) :
    InStep { w with bot := bot, queue := w.queue ++ lines, replies := rest } := by
  have hlast : ∀ f, ({ w with bot := bot, queue := w.queue ++ lines, replies := rest } :
      JoinWorld).lastTurn f =
        (rest.filterMap (ServerReply.turn w.bot.manager.casemapping f)).getLast? := by
    intro f
    simp only [lastTurn, hcm]
  have hbefore : ∀ f, w.lastTurn f = ((reply.turn w.bot.manager.casemapping f).toList ++
      rest.filterMap (ServerReply.turn w.bot.manager.casemapping f)).getLast? := by
    intro f
    simp only [lastTurn, hreplies, List.filterMap_cons]
    cases reply.turn w.bot.manager.casemapping f <;> rfl
  refine ⟨fun e he => ?_, fun r hr => ?_, fun f e he => ?_, fun f hf => ?_⟩
  · have hkey := hkeyed e he
    simpa [JoinWorld.fold, ChannelManager.fold, hcm] using hkey
  · have hown := h.own r (hreplies ▸ List.mem_cons_of_mem _ hr)
    exact (ServerReply.own_congr r hnick hcm).trans hown
  · rw [hlast] at he
    refine h.turned f e ?_
    rw [hbefore, List.getLast?_append, he]
    rfl
  · rw [hlast, List.getLast?_eq_none_iff] at hf
    have hnew := htracks f hf (fun e he => h.turned f e (by rw [hbefore, hf, he]; rfl))
      fun hnone => h.tracks f (by rw [hbefore, hf, hnone]; rfl)
    simpa [standing, pending, parting, hcm, List.any_append] using hnew

/-- The bot reads that it came to a channel. -/
theorem InStep.readJoined (h : InStep w) {channel : Str} {p : Prefix} {rest : List ServerReply}
    (hreplies : w.replies = .joined channel p :: rest) (S : SessionScope) (link : Str → IrcLink)
    (now : ℚ) :
    InStep { w with
      bot := w.bot.onMessage S link now (ServerReply.joined channel p).message
      queue := w.queue ++ w.bot.replyLines link (.joined channel p)
      replies := rest } := by
  have hself : w.bot.isSelf p.nick = true :=
    h.own (.joined channel p) (hreplies ▸ List.mem_cons_self)
  rw [IrcBot.onMessage_joined]
  obtain ⟨hnick, hcm, hstanding, hparts⟩ := IrcBot.handleJoin_self link channel hself
  have hlines := IrcBot.joinEchoLines_parts link channel hself
  refine h.read hreplies hnick hcm (fun e he => ?_) fun f _ hon hsame => ?_
  · rw [hparts] at he
    split_ifs at he
    · rcases Assoc.mem_assign he with rfl | he
      · rfl
      · exact h.keyed e he
    · exact h.keyed e he
  · rw [hstanding, hparts, IrcBot.replyLines, hlines]
    by_cases hf : w.bot.manager.fold channel = f
    · subst hf
      have hturned : w.on (w.bot.manager.fold channel) = true := hon true (if_pos rfl)
      rw [if_pos rfl, hturned]
      cases hs : w.bot.manager.standing (w.bot.manager.fold channel) with
      | some joined => exact ⟨fun _ => rfl, by simp, by simp⟩
      | none =>
        -- the channel is not desired: a PART goes out, or is still to go
        refine ⟨fun _ => rfl, by simp, fun _ _ => ?_⟩
        cases (link (w.bot.manager.fold channel)).sends <;> simp
    · rw [if_neg hf, decide_eq_false hf, Bool.and_false, Bool.or_false]
      have hold := hsame (if_neg hf)
      split_ifs
      · rw [Assoc.lookup_assign_of_ne _ _ hf]
        exact hold
      · exact hold

/-- The bot reads that it left a channel, or was kicked out of it. -/
theorem InStep.readLeft (h : InStep w) (channel : Str) {reply : ServerReply}
    {rest : List ServerReply} (hreplies : w.replies = reply :: rest) {bot : IrcBot}
    (hreply : ∀ f, reply.turn w.bot.manager.casemapping f =
      if w.fold channel = f then some false else none)
    (hbot : bot = { w.bot with
      manager := w.bot.manager.mapRuntime channel ChannelRuntime.reset }) :
    InStep { w with bot := bot, queue := w.queue ++ [], replies := rest } := by
  subst hbot
  refine h.read hreplies rfl (ChannelManager.mapRuntime_casemapping _ _ _) (fun e he => ?_)
    fun f _ hon hsame => ?_
  · exact h.keyed e (by simpa using he)
  · rw [IrcBot.mapRuntime_reset, ChannelManager.mapRuntime_pendingParts, List.any_nil,
      Bool.or_false]
    by_cases hf : w.bot.manager.fold channel = f
    · have hoff : w.on f = false := hon false ((hreply f).trans (if_pos hf))
      rw [if_pos hf, hoff]
      refine ⟨fun hjoined => ?_, by simp, by simp⟩
      obtain ⟨_, _, himpossible⟩ := Option.map_eq_some_iff.mp hjoined
      simp at himpossible
    · rw [if_neg hf]
      exact hsame ((hreply f).trans (if_neg hf))

theorem InStep.deliver (h : InStep w) {reply : ServerReply} {rest : List ServerReply}
    (hreplies : w.replies = reply :: rest) (S : SessionScope) (link : Str → IrcLink) (now : ℚ) :
    InStep { w with
      bot := w.bot.onMessage S link now reply.message
      queue := w.queue ++ w.bot.replyLines link reply
      replies := rest } := by
  have hown := h.own reply (hreplies ▸ List.mem_cons_self)
  cases reply with
  | joined channel p => exact h.readJoined hreplies S link now
  | parted channel p =>
    have hself : w.bot.isSelf p.nick = true := hown
    refine h.readLeft channel hreplies (fun f => rfl) ?_
    rw [IrcBot.onMessage_parted]
    simp [IrcBot.handlePart, hself]
  | kicked channel nick =>
    have hself : w.bot.isSelf nick = true := hown
    refine h.readLeft channel hreplies (fun f => rfl) ?_
    rw [IrcBot.onMessage_kicked]
    simp [IrcBot.handleKick, hself]
  | refused numeric channel nick =>
    have hnumeric : numeric ∈ joinRefusals := by simpa [ServerReply.own] using hown
    rw [IrcBot.onMessage_refused S w.bot link now hnumeric]
    have hkeeps := ChannelManager.keeps_refuse w.bot.manager channel
    refine h.read hreplies rfl hkeeps.casemapping (fun e he => ?_) fun f _ _ hsame => ?_
    · exact h.keyed e (hkeeps.parts ▸ he)
    · have hlines : w.bot.replyLines link (.refused numeric channel nick) = [] := rfl
      rw [hlines, List.any_nil, Bool.or_false]
      have hmanager : (w.bot.handleRefused ⟨numeric, [nick, channel], none⟩).manager =
          w.bot.manager.mapRuntime channel ChannelRuntime.refuseJoin := rfl
      rw [hmanager, hkeeps.standing, hkeeps.parts]
      exact hsame rfl

theorem InStep.step (h : InStep w) {S : SessionScope} {a : JoinStep} {t : JoinWorld}
    (hclean : w.clean a = true) (hst : w.step S a = some t) : InStep t := by
  cases a with
  | record link record => exact Option.some.inj hst ▸ h.record link record hclean
  | retryParts sends => exact Option.some.inj hst ▸ h.retryParts sends
  | joinDesired link =>
    obtain rfl := Option.some.inj hst
    exact h.keeps (ChannelManager.keeps_joinDesired _ _ link) fun f =>
      ChannelManager.joinDesiredLines_parts _ _ link _ f
  | invited channel link =>
    obtain rfl := Option.some.inj hst
    exact h.keeps (ChannelManager.keeps_invited _ channel link) fun f =>
      ChannelManager.invitedLines_parts _ channel link _ f
  | serve sender answer =>
    simp only [JoinWorld.step] at hst
    split at hst
    · simp at hst
    · rename_i line rest hqueue
      split_ifs at hst with hguard
      obtain ⟨hself, hhandled⟩ := Bool.and_eq_true_iff.mp hguard
      exact Option.some.inj hst ▸ h.serve hqueue hself hhandled
  | kick channel nick =>
    simp only [JoinWorld.step] at hst
    split_ifs at hst with hguard
    exact Option.some.inj hst ▸ h.turn (fun f => rfl) (Bool.and_eq_true_iff.mp hguard).2
  | deliver link now =>
    simp only [JoinWorld.step] at hst
    split at hst
    · simp at hst
    · rename_i reply rest hreplies
      exact Option.some.inj hst ▸ h.deliver hreplies S link now

end Steps

/-- On a fresh connection the bot's view agrees with the server's whenever nothing is
under way, in every run in which no record makes a channel desired again that the bot
lingers on. -/
theorem agrees_of_clean (S : SessionScope) {w₀ w : JoinWorld} {as : List JoinStep}
    (hstart : Start w₀) (hclean : Machine.along (step S) clean w₀ as = true)
    (hrun : Machine.run (step S) w₀ as = some w) : w.Agrees :=
  (Machine.run_invariant_along (fun _ _ _ h hc hst => InStep.step h hc hst) hstart.inStep
    hclean hrun).agrees

def sampleLink : IrcLink := ⟨true, false, true⟩

def sampleSelf : Prefix := ⟨lit "b", some (lit "u"), some (lit "g")⟩

/-- The bot `b`, registered, with nothing joined. -/
def sampleWorld : JoinWorld :=
  ⟨⟨ChannelManager.init, .initial, lit "b", true, some sampleSelf, SessionSync.init⟩, [],
    fun _ => false, []⟩

theorem start_sampleWorld : Start sampleWorld :=
  ⟨rfl, rfl, by simp [sampleWorld, ChannelManager.init], rfl, rfl, fun _ => rfl, rfl⟩

/-- The bot joins `#c`; its PART finds the queue full, and the channel is desired again. -/
def rejoined : List JoinStep :=
  [.record sampleLink ⟨lit "#c", none, true, lit "1"⟩, .serve sampleSelf .accepted,
    .deliver (fun _ => sampleLink) 0,
    .record ⟨true, false, false⟩ ⟨lit "#c", none, false, lit "2"⟩,
    .record sampleLink ⟨lit "#c", none, true, lit "3"⟩, .serve sampleSelf .accepted]

theorem not_agrees_rejoined : ∃ w, Start sampleWorld ∧
    Machine.run (step sampleScope) sampleWorld rejoined = some w ∧ ¬ w.Agrees := by
  have hview : (Machine.run (step sampleScope) sampleWorld rejoined).map (fun w =>
      (w.queue, w.replies, w.on (lit "#c"),
        (Assoc.lookup (lit "#c") w.bot.manager.channels).map ChannelRuntime.join)) =
      some ([], [], true, some .joining) := by
    decide +kernel
  obtain ⟨w, hrun, hw⟩ := Option.map_eq_some_iff.mp hview
  simp only [Prod.mk.injEq] at hw
  obtain ⟨hqueue, hreplies, hon, hjoin⟩ := hw
  obtain ⟨c, hc, hjoining⟩ := Option.map_eq_some_iff.mp hjoin
  refine ⟨w, start_sampleWorld, hrun, fun hagrees => ?_⟩
  rcases (hagrees hqueue hreplies (lit "#c")).1 hon with ⟨d, hd, hjoined⟩ | ⟨hnone, -⟩
  · obtain rfl : c = d := Option.some.inj (hc.symm.trans hd)
    simp [hjoined] at hjoining
  · simp [hc] at hnone

/-- With a PART that is taken, the echo arrives before the second JOIN takes effect. -/
def leftInTime : List JoinStep :=
  [.record sampleLink ⟨lit "#c", none, true, lit "1"⟩, .serve sampleSelf .accepted,
    .deliver (fun _ => sampleLink) 0, .record sampleLink ⟨lit "#c", none, false, lit "2"⟩,
    .record sampleLink ⟨lit "#c", none, true, lit "3"⟩, .serve sampleSelf .accepted,
    .serve sampleSelf .accepted, .deliver (fun _ => sampleLink) 0,
    .deliver (fun _ => sampleLink) 0]

theorem agrees_of_clean_leftInTime : ∃ w, Machine.run (step sampleScope) sampleWorld leftInTime = some w ∧
    w.on (lit "#c") = true ∧ w.Agrees := by
  have hclean : Machine.along (step sampleScope) clean sampleWorld leftInTime = true := by
    decide +kernel
  have hview : (Machine.run (step sampleScope) sampleWorld leftInTime).map (fun w =>
      w.on (lit "#c")) = some true := by
    decide +kernel
  obtain ⟨w, hrun, hon⟩ := Option.map_eq_some_iff.mp hview
  exact ⟨w, hrun, hon, agrees_of_clean sampleScope start_sampleWorld hclean hrun⟩

end JoinWorld

end Botnats
