import Botnats.Envelope
import Botnats.IrcEvents
import Botnats.Masks

/-!
# Answering a peer's help request

`BotPresence` and `PresenceRegistry` of `presence.py`, the delivery of a help request in
`HelpRequests`, and the four actions of `ChannelManager` that answer one. An action does
not suspend: it looks at the registry and at the channel and queues its lines at once.

The registry is keyed by `str.casefold`, of which nothing is assumed here.
-/
namespace Botnats

open Json

structure BotPresence where
  botId : Str
  host : Str
  instanceId : Str
  nick : Str
  user : Str
  deriving DecidableEq

namespace BotPresence

/-- `BotPresence.from_dict`; `none` where it raises. -/
def fromDict : Json → Option BotPresence
  | .obj d =>
    let field (name : String) := (text (lit name) d).filter (· ≠ [])
    match field "bot_id", field "host", field "instance_id", field "nick", field "user" with
    | some botId, some host, some instanceId, some nick, some user =>
      some ⟨botId, host, instanceId, nick, user⟩
    | _, _, _, _, _ => none
  | _ => none

/-- `to_prefix` -/
def toPrefix (p : BotPresence) : Prefix := ⟨p.nick, some p.user, some p.host⟩

/-- `matches` -/
def matchesPrefix (p : BotPresence) (other : Prefix) (m : Casemapping) : Bool :=
  p.toPrefix.matchesPrefix other m

end BotPresence

/-- Each entry is a presence with its deadline. -/
structure PresenceRegistry where
  ttl : ℚ
  entries : List (Str × BotPresence × ℚ)

namespace PresenceRegistry

variable (fold : Str → Str)

/-- `prune` -/
def prune (g : PresenceRegistry) (now : ℚ) : PresenceRegistry :=
  { g with entries := g.entries.filter fun e => now < e.2.2 }

/-- `active`, and the registry it leaves -/
def active (g : PresenceRegistry) (now : ℚ) : PresenceRegistry × List BotPresence :=
  (g.prune now, (g.prune now).entries.map fun e => e.2.1)

/-- `has`, and the registry it leaves -/
def has (g : PresenceRegistry) (now : ℚ) (presence : BotPresence) : PresenceRegistry × Bool :=
  (g.prune now,
    match Assoc.lookup (fold presence.botId) (g.prune now).entries with
    | none => false
    | some entry => entry.1 = presence)

/-- `remove` -/
def remove (g : PresenceRegistry) (botId : Str) : PresenceRegistry :=
  { g with entries := Assoc.discard (fold botId) g.entries }

/-- `update` -/
def update (g : PresenceRegistry) (now : ℚ) (presence : BotPresence) : PresenceRegistry :=
  { g with entries := Assoc.assign (fold presence.botId) (presence, now + g.ttl) g.entries }

end PresenceRegistry

/-! ## Delivery -/

/-- `payload["presence"]["bot_id"]`, where it is a string -/
def presenceBotId (payload : Fields) : Option Str :=
  match Assoc.lookup (lit "presence") payload with
  | some (.obj presence) => text (lit "bot_id") presence
  | _ => none

/-- `sender_owns_presence` -/
def senderOwnsPresence (sender : Str) (payload : Fields) : Bool :=
  presenceBotId payload = some sender

/-- `subject.rpartition(".")[2]` -/
def lastToken (subject : Str) : Str := (subject.reverse.takeWhile (· ≠ 46)).reverse

section Delivery

variable (F : FloatRepr) (mac : Str → Str) (loads : List Byte → Except LoadsError Json)

/-- `decode_action`: the nonces seen after the call, and the payload -/
def decodeAction (seen : SeenNonces) (now : ℚ) (subject : Str) (value : List Byte) :
    SeenNonces × Option Fields :=
  match decode F mac loads seen now subject value with
  | (seen, .ok (sender, payload)) =>
    (seen, if senderOwnsPresence sender payload then some payload else none)
  | (seen, .error _) => (seen, none)

/-- `deliver` by a bot whose coordinator is ready or not: the nonces seen after the call,
and the kind and the payload handed to the bot -/
def deliver (botId : Str) (ready : Bool) (seen : SeenNonces) (now : ℚ) (subject : Str)
    (value : List Byte) : SeenNonces × Option (Str × Fields) :=
  if !ready then (seen, none)
  else
    match decodeAction F mac loads seen now subject value with
    | (seen, some payload) =>
      (seen, if presenceBotId payload ≠ some botId then some (lastToken subject, payload) else none)
    | (seen, none) => (seen, none)

end Delivery

section Delivery

variable {F : FloatRepr} {mac : Str → Str} {loads : List Byte → Except LoadsError Json}

/-- A request that is handed on comes from an accepted envelope whose sender is the bot
of its presence, and another than this bot. -/
theorem deliver_eq_some {botId subject kind : Str} {ready : Bool} {seen seen' : SeenNonces}
    {now : ℚ} {value : List Byte} {payload : Fields}
    (h : deliver F mac loads botId ready seen now subject value = (seen', some (kind, payload))) :
    kind = lastToken subject ∧ ∃ p, readEnvelope loads value = .ok p ∧
      Accepts F mac seen now subject p ∧ payload = Assoc.discard subjectField p.payload ∧
      presenceBotId payload = some p.sender ∧ p.sender ≠ botId := by
  unfold deliver decodeAction at h
  split_ifs at h
  · simp at h
  · cases hd : decode F mac loads seen now subject value with
    | mk seenAfter result =>
      cases result with
      | error e => simp [hd] at h
      | ok result =>
        obtain ⟨p, hp, ha, rfl⟩ := decode_eq_ok hd
        simp only [hd] at h
        by_cases howns : senderOwnsPresence p.sender (Assoc.discard subjectField p.payload) = true
        · have hid : presenceBotId (Assoc.discard subjectField p.payload) = some p.sender :=
            of_decide_eq_true howns
          simp only [howns, if_true] at h
          split_ifs at h with hother
          · simp only [Prod.mk.injEq, Option.some.injEq] at h
            obtain ⟨-, rfl, rfl⟩ := h
            refine ⟨rfl, p, hp, ha, rfl, hid, fun hsame => hother ?_⟩
            rw [hid, hsame]
          · simp at h
        · simp [howns] at h

end Delivery

/-! ## The actions -/

/-- What an action sends: `INVITE nick channel`, `MODE channel +mode nick`,
`MODE channel -b mask` or `MODE channel +l target`. -/
inductive HelpLine
  | invite (nick channel : Str)
  | op (channel : Str) (mode : CodePoint) (nick : Str)
  | unban (channel mask : Str)
  | limit (channel : Str) (target : ℕ)
  deriving DecidableEq

namespace IrcBot

/-- `is_self_opped` -/
def isSelfOpped (b : IrcBot) (c : ChannelRuntime) : Bool :=
  match Assoc.lookup (b.manager.fold b.currentNick) c.members with
  | none => false
  | some member => b.caps.isOpped member.modes

/-- The checks of `help_eligible` on the member that the presence names. -/
def awaitsOp (b : IrcBot) (c : ChannelRuntime) (presence : BotPresence) : Bool :=
  match Assoc.lookup (b.manager.fold presence.nick) c.members with
  | none => false
  | some member =>
    !b.caps.isOpped member.modes &&
      member.ircPrefix.any fun p => presence.matchesPrefix p b.manager.casemapping

end IrcBot

/-- What an action reads of the bot. -/
structure Helper where
  bot : IrcBot
  connected : Bool
  registry : PresenceRegistry

/-- What an action finds as it runs: two readings of the clock, the limit of the channel,
which its runtime leaves out here, and which lines the connection takes. -/
structure Moment where
  now : ℚ
  later : ℚ
  limit : Option ℤ
  sends : HelpLine → Bool

namespace Helper

variable (fold : Str → Str)

/-- `help_eligible`, and the registry it leaves -/
def helpEligible (h : Helper) (now : ℚ) (payload : Fields) (requireMember : Bool) :
    PresenceRegistry × Option (Str × BotPresence × ChannelRuntime) :=
  match text (lit "channel") payload,
    (Assoc.lookup (lit "presence") payload).bind BotPresence.fromDict with
  | some channel, some presence =>
    match h.bot.manager.runtime channel with
    | none => (h.registry, none)
    | some c =>
      let (registry, live) := h.registry.has fold now presence
      if live && h.connected && h.bot.isSelfOpped c &&
          (!requireMember || h.bot.awaitsOp c presence) then
        (registry, some (channel, presence, c))
      else (registry, none)
  | _, _ => (h.registry, none)

/-- An action: where the request is eligible, the lines of the action go out up to the
first that is refused. -/
def answer (h : Helper) (m : Moment) (payload : Fields) (requireMember : Bool)
    (lines : Str → BotPresence → ChannelRuntime → List HelpLine) :
    PresenceRegistry × List HelpLine :=
  match h.helpEligible fold m.now payload requireMember with
  | (registry, none) => (registry, [])
  | (registry, some (channel, presence, c)) =>
    (registry, (lines channel presence c).takeWhile m.sends)

/-- `invite_peer` -/
def invitePeer (h : Helper) (m : Moment) (payload : Fields) : PresenceRegistry × List HelpLine :=
  h.answer fold m payload false fun channel presence _ => [.invite presence.nick channel]

/-- `op_peer` -/
def opPeer (h : Helper) (m : Moment) (payload : Fields) : PresenceRegistry × List HelpLine :=
  h.answer fold m payload true fun channel presence _ => [.op channel h.bot.caps.opMode presence.nick]

/-- `unban_peer` -/
def unbanPeer (h : Helper) (m : Moment) (payload : Fields) : PresenceRegistry × List HelpLine :=
  h.answer fold m payload false fun channel presence c =>
    let masks := (c.bans.map Prod.snd).insertionSort fun s t => s ≤ t
    (masks.filter fun mask => maskMatches mask presence.toPrefix h.bot.manager.casemapping).map
      fun mask => .unban channel mask

/-- `make_room`; a channel with a limit has the active peers counted, by a clock read
again. -/
def makeRoom (botId : Str) (h : Helper) (m : Moment) (payload : Fields) :
    PresenceRegistry × List HelpLine :=
  match h.helpEligible fold m.now payload false with
  | (registry, none) => (registry, [])
  | (registry, some (channel, _, c)) =>
    match m.limit with
    | none => (registry, [])
    | some limit =>
      let (registry, peers) := registry.active m.later
      let leftOut := peers.countP fun peer => decide (fold peer.botId ≠ fold botId) &&
        (Assoc.lookup (h.bot.manager.fold peer.nick) c.members).isNone
      let target := c.members.length + leftOut
      if leftOut = 0 ∨ (target : ℤ) ≤ limit then (registry, [])
      else (registry, [HelpLine.limit channel target].takeWhile m.sends)

/-- `help_actions` -/
def helpActions (botId kind : Str) :
    Option (Helper → Moment → Fields → PresenceRegistry × List HelpLine) :=
  if kind = lit "invite" then some (invitePeer fold)
  else if kind = lit "limit" then some (makeRoom fold botId)
  else if kind = lit "op" then some (opPeer fold)
  else if kind = lit "unban" then some (unbanPeer fold)
  else none

/-- `help_after_delay`, once the delay is over: the registry it leaves, and its lines -/
def helpAfterDelay (botId : Str) (h : Helper) (m : Moment) (kind : Str) (payload : Fields) :
    PresenceRegistry × List HelpLine :=
  match helpActions fold botId kind with
  | none => (h.registry, [])
  | some action => action h m payload

end Helper

/-! ## What a line needs -/

variable {fold : Str → Str} {botId kind channel : Str} {h : Helper} {m : Moment}
  {payload : Fields} {presence : BotPresence} {c : ChannelRuntime} {requireMember : Bool}

/-- The checks that stand before every line. -/
structure Eligible (fold : Str → Str) (h : Helper) (now : ℚ) (payload : Fields) (channel : Str)
    (presence : BotPresence) (c : ChannelRuntime) : Prop where
  named : text (lit "channel") payload = some channel
  given : (Assoc.lookup (lit "presence") payload).bind BotPresence.fromDict = some presence
  runtime : h.bot.manager.runtime channel = some c
  live : ∃ deadline, (fold presence.botId, presence, deadline) ∈ h.registry.entries ∧ now < deadline
  connected : h.connected = true
  opped : h.bot.isSelfOpped c = true

/-- The member that the presence names waits for operator status under its prefix. -/
def IrcBot.Waits (b : IrcBot) (c : ChannelRuntime) (presence : BotPresence) : Prop :=
  ∃ member p, Assoc.lookup (b.manager.fold presence.nick) c.members = some member ∧
    b.caps.isOpped member.modes = false ∧ member.ircPrefix = some p ∧ p.complete = true ∧
    presence.matchesPrefix p b.manager.casemapping = true

/-- The line answers the kind, on the channel and for the presence of the request. -/
def HelpLine.Answers (b : IrcBot) (c : ChannelRuntime) (kind channel : Str)
    (presence : BotPresence) : HelpLine → Prop
  | .invite nick target => kind = lit "invite" ∧ target = channel ∧ nick = presence.nick
  | .op target mode nick => kind = lit "op" ∧ target = channel ∧ mode = b.caps.opMode ∧
      nick = presence.nick ∧ b.Waits c presence
  | .unban target mask => kind = lit "unban" ∧ target = channel ∧ mask ∈ c.bans.map Prod.snd ∧
      maskMatches mask presence.toPrefix b.manager.casemapping = true ∧
      StandsFor mask presence.toPrefix b.manager.casemapping
  | .limit target _ => kind = lit "limit" ∧ target = channel

theorem Prefix.complete_of_matchesPrefix {p other : Prefix} {m : Casemapping}
    (h : p.matchesPrefix other m = true) : other.complete = true := by
  unfold Prefix.matchesPrefix at h
  split at h
  · rename_i hu hh
    simp [Prefix.complete, hu, hh]
  · simp at h

theorem IrcBot.waits_of_awaitsOp {b : IrcBot} (h : b.awaitsOp c presence = true) :
    b.Waits c presence := by
  unfold IrcBot.awaitsOp at h
  split at h
  · simp at h
  · rename_i member hmember
    rw [Bool.and_eq_true, Bool.not_eq_true', Option.any_eq_true] at h
    obtain ⟨hopped, p, hp, hmatch⟩ := h
    exact ⟨member, p, hmember, hopped, hp, Prefix.complete_of_matchesPrefix hmatch, hmatch⟩

/-- `has` finds a presence that is equal in every field and has not expired. -/
theorem PresenceRegistry.live_of_has {g : PresenceRegistry} {now : ℚ}
    (h : (g.has fold now presence).2 = true) :
    ∃ deadline, (fold presence.botId, presence, deadline) ∈ g.entries ∧ now < deadline := by
  dsimp only [has] at h
  split at h
  · simp at h
  · rename_i entry hentry
    obtain ⟨p, deadline⟩ := entry
    obtain rfl : p = presence := of_decide_eq_true h
    obtain ⟨hmem, hlive⟩ := List.mem_filter.mp (Assoc.mem_of_lookup hentry)
    exact ⟨deadline, hmem, of_decide_eq_true hlive⟩

theorem BotPresence.fromDict_botId {v : Json} (h : fromDict v = some presence) :
    ∃ d, v = .obj d ∧ text (lit "bot_id") d = some presence.botId := by
  unfold fromDict at h
  split at h
  · rename_i d
    dsimp only at h
    split at h
    · rename_i hid _ _ _ _
      obtain rfl := Option.some.inj h
      exact ⟨d, rfl, (Option.filter_eq_some_iff.mp hid).1⟩
    · simp at h
  · simp at h

/-- The presence of an eligible request is the one whose owner was checked on delivery. -/
theorem Eligible.presenceBotId {now : ℚ} (he : Eligible fold h now payload channel presence c) :
    presenceBotId payload = some presence.botId := by
  obtain ⟨v, hv, hpresence⟩ := Option.bind_eq_some_iff.mp he.given
  obtain ⟨d, rfl, hid⟩ := BotPresence.fromDict_botId hpresence
  simp only [Botnats.presenceBotId, hv, hid]

namespace Helper

theorem helpEligible_eq_some {now : ℚ} {registry : PresenceRegistry}
    (he : h.helpEligible fold now payload requireMember = (registry, some (channel, presence, c))) :
    Eligible fold h now payload channel presence c ∧
      (requireMember = true → h.bot.Waits c presence) := by
  unfold helpEligible at he
  split at he
  · rename_i target peer htarget hpeer
    split at he
    · simp at he
    · rename_i d hruntime
      dsimp only at he
      split_ifs at he with hcond
      · simp only [Prod.mk.injEq, Option.some.injEq] at he
        obtain ⟨-, rfl, rfl, rfl⟩ := he
        simp only [Bool.and_eq_true, Bool.or_eq_true, Bool.not_eq_true'] at hcond
        obtain ⟨⟨⟨hlive, hconnected⟩, hopped⟩, hmember⟩ := hcond
        refine ⟨⟨htarget, hpeer, hruntime, PresenceRegistry.live_of_has hlive, hconnected, hopped⟩,
          fun hrequire => IrcBot.waits_of_awaitsOp ?_⟩
        simpa [hrequire] using hmember
      · simp at he
  · simp at he

/-- Every line of an action is one of its lines for an eligible request. -/
theorem mem_answer {lines : Str → BotPresence → ChannelRuntime → List HelpLine} {line : HelpLine}
    (hline : line ∈ (h.answer fold m payload requireMember lines).2) :
    ∃ channel presence c, Eligible fold h m.now payload channel presence c ∧
      (requireMember = true → h.bot.Waits c presence) ∧ line ∈ lines channel presence c := by
  unfold answer at hline
  split at hline
  · simp at hline
  · rename_i registry channel presence c he
    obtain ⟨heligible, hwaits⟩ := helpEligible_eq_some he
    exact ⟨channel, presence, c, heligible, hwaits, (List.takeWhile_sublist _).subset hline⟩

theorem mem_makeRoom {line : HelpLine} (hline : line ∈ (h.makeRoom fold botId m payload).2) :
    ∃ channel presence c target, Eligible fold h m.now payload channel presence c ∧
      line = .limit channel target := by
  unfold makeRoom at hline
  split at hline
  · simp at hline
  · rename_i registry channel presence c he
    cases hlimit : m.limit with
    | none => simp [hlimit] at hline
    | some limit =>
      simp only [hlimit] at hline
      split_ifs at hline
      · simp at hline
      · have hmem := (List.takeWhile_sublist _).subset hline
        exact ⟨channel, presence, c, _, (helpEligible_eq_some he).1, List.mem_singleton.mp hmem⟩

theorem helpActions_cases {action : Helper → Moment → Fields → PresenceRegistry × List HelpLine}
    (ha : helpActions fold botId kind = some action) :
    kind = lit "invite" ∧ action = invitePeer fold ∨
      kind = lit "limit" ∧ action = makeRoom fold botId ∨
      kind = lit "op" ∧ action = opPeer fold ∨
      kind = lit "unban" ∧ action = unbanPeer fold := by
  unfold helpActions at ha
  split_ifs at ha with hinvite hlimit hop hunban
  · exact .inl ⟨hinvite, (Option.some.inj ha).symm⟩
  · exact .inr (.inl ⟨hlimit, (Option.some.inj ha).symm⟩)
  · exact .inr (.inr (.inl ⟨hop, (Option.some.inj ha).symm⟩))
  · exact .inr (.inr (.inr ⟨hunban, (Option.some.inj ha).symm⟩))

/-- Whatever the kind, each line that goes out answers it for an eligible request. -/
theorem mem_helpAfterDelay {line : HelpLine}
    (hline : line ∈ (h.helpAfterDelay fold botId m kind payload).2) :
    ∃ channel presence c, Eligible fold h m.now payload channel presence c ∧
      line.Answers h.bot c kind channel presence := by
  unfold helpAfterDelay at hline
  cases ha : helpActions fold botId kind with
  | none => simp [ha] at hline
  | some action =>
    simp only [ha] at hline
    rcases helpActions_cases ha with ⟨hkind, rfl⟩ | ⟨hkind, rfl⟩ | ⟨hkind, rfl⟩ | ⟨hkind, rfl⟩
    · obtain ⟨channel, presence, c, he, -, hmem⟩ := mem_answer hline
      obtain rfl := List.mem_singleton.mp hmem
      exact ⟨channel, presence, c, he, hkind, rfl, rfl⟩
    · obtain ⟨channel, presence, c, target, he, rfl⟩ := mem_makeRoom hline
      exact ⟨channel, presence, c, he, hkind, rfl⟩
    · obtain ⟨channel, presence, c, he, hwaits, hmem⟩ := mem_answer hline
      obtain rfl := List.mem_singleton.mp hmem
      exact ⟨channel, presence, c, he, hkind, rfl, rfl, rfl, hwaits rfl⟩
    · obtain ⟨channel, presence, c, he, -, hmem⟩ := mem_answer hline
      obtain ⟨mask, hmask, rfl⟩ := List.mem_map.mp hmem
      obtain ⟨hsorted, hmatch⟩ := List.mem_filter.mp hmask
      have htracked : mask ∈ c.bans.map Prod.snd := (List.perm_insertionSort _ _).subset hsorted
      exact ⟨channel, presence, c, he, hkind, rfl, htracked, hmatch, standsFor_of_maskMatches hmatch⟩

theorem prune_subset (g : PresenceRegistry) (now : ℚ) : (g.prune now).entries ⊆ g.entries :=
  fun _ he => List.mem_of_mem_filter he

theorem helpEligible_subset {now : ℚ} :
    (h.helpEligible fold now payload requireMember).1.entries ⊆ h.registry.entries := by
  unfold helpEligible
  split
  · split
    · exact List.Subset.refl _
    · dsimp only
      split_ifs
      · exact prune_subset _ _
      · exact prune_subset _ _
  · exact List.Subset.refl _

theorem answer_subset {lines : Str → BotPresence → ChannelRuntime → List HelpLine} :
    (h.answer fold m payload requireMember lines).1.entries ⊆ h.registry.entries := by
  have hsub := @helpEligible_subset fold h payload requireMember m.now
  unfold answer
  split <;> rename_i he <;> rw [he] at hsub <;> exact hsub

theorem makeRoom_subset :
    (h.makeRoom fold botId m payload).1.entries ⊆ h.registry.entries := by
  have hsub := @helpEligible_subset fold h payload false m.now
  unfold makeRoom
  split
  · rename_i he
    rw [he] at hsub
    exact hsub
  · rename_i registry channel presence c he
    rw [he] at hsub
    have hactive : (registry.active m.later).1.entries ⊆ h.registry.entries :=
      List.Subset.trans (prune_subset _ _) hsub
    cases hlimit : m.limit with
    | none => exact hsub
    | some limit =>
      dsimp only
      split_ifs
      · exact hactive
      · exact hactive

/-- No action adds to the registry. -/
theorem helpAfterDelay_subset :
    (h.helpAfterDelay fold botId m kind payload).1.entries ⊆ h.registry.entries := by
  unfold helpAfterDelay
  cases ha : helpActions fold botId kind with
  | none => exact List.Subset.refl _
  | some action =>
    rcases helpActions_cases ha with ⟨-, rfl⟩ | ⟨-, rfl⟩ | ⟨-, rfl⟩ | ⟨-, rfl⟩
    · exact answer_subset
    · exact makeRoom_subset
    · exact answer_subset
    · exact answer_subset

end Helper

end Botnats
