import Botnats.Members
import Botnats.SessionSync

/-!
# Events from IRC

The handlers of `IRCEventHandler` that change channels, members, sessions or the bot's
own identity. None of them suspends: a line is queued or refused at once, and help
requests, key records and the presence write run in tasks of their own.
-/
namespace Botnats

/-- A parsed message; a command is in upper case. -/
structure IRCMessage where
  command : Str
  params : List Str
  ircPrefix : Option Prefix
  deriving DecidableEq

/-- The part of `Bot` that IRC events change. The identity's bot and instance are fixed. -/
structure IrcBot where
  manager : ChannelManager
  caps : ISupport
  currentNick : Str
  registered : Bool
  identity : Option Prefix
  sessions : SessionSync

/-- `str.split` without a separator -/
def splitWords (s : Str) : List Str := (s.splitOnP isSpace).filter (· ≠ [])

/-- An entry of a NAMES reply: the operator modes its symbols stand for, and the nick. -/
def undecorate (caps : ISupport) : Str → List CodePoint × Str
  | [] => ([], [])
  | c :: rest =>
    match Assoc.lookup c caps.memberPrefixes with
    | none => ([], c :: rest)
    | some mode =>
      let (modes, nick) := undecorate caps rest
      (if mode ∈ caps.operatorModes ∧ mode ∉ modes then mode :: modes else modes, nick)

/-- The operator modes among the flags of a WHO reply. -/
def whoModes (caps : ISupport) (flags : Str) : List CodePoint :=
  (caps.memberPrefixes.filter fun e => e.1 ∈ flags ∧ e.2 ∈ caps.operatorModes).map Prod.snd

namespace IrcBot

/-- `is_self` -/
def isSelf (b : IrcBot) (nickname : Str) : Bool :=
  b.manager.fold nickname = b.manager.fold b.currentNick

/-- `SelfIdentity.set`, and whether the identity changed; the nick is the current one. -/
def recordIdentity (b : IrcBot) (p : Prefix) : IrcBot × Bool :=
  match p.user, p.host with
  | some user, some host =>
    let identity : Prefix := ⟨b.currentNick, some user, some host⟩
    ({ b with identity := some identity }, b.identity ≠ some identity)
  | _, _ => (b, false)

/-- `set_identity` -/
def setIdentity (b : IrcBot) (link : Str → IrcLink) (p : Prefix) : IrcBot :=
  let (b, changed) := b.recordIdentity p
  if changed then { b with manager := b.manager.joinDesired b.identity.isSome link } else b

/-- `track_registration`, of a NICK message -/
def trackNick (b : IrcBot) (p : Prefix) (newNick : Str) : IrcBot :=
  if b.isSelf p.nick then { b with currentNick := newNick } else b

variable (S : SessionScope)

/-- A session is revoked under a complete prefix alone. -/
def revokeComplete (b : IrcBot) (now : ℚ) (p : Prefix) : IrcBot :=
  { b with sessions := if p.complete then b.sessions.revoke S now p.render else b.sessions }

/-- Where the user of a folded nick is the bot itself, its identity changes too. -/
def followSelf (b : IrcBot) (link : Str → IrcLink) (folded : Str) (next : Prefix → Prefix) :
    IrcBot :=
  match b.identity with
  | none => b
  | some identity =>
    if folded = b.manager.fold identity.nick then b.setIdentity link (next identity) else b

/-- `user or other or None` -/
def orElse (value other : Option Str) : Option Str :=
  (value.filter (· ≠ [])).or (other.filter (· ≠ []))

/-- `handle_chghost` -/
def handleChghost (b : IrcBot) (link : Str → IrcLink) (now : ℚ) (message : IRCMessage) : IrcBot :=
  match message.ircPrefix, message.params with
  | some p, newUser :: newHost :: _ =>
    let newPrefix : Prefix := ⟨p.nick, some newUser, some newHost⟩
    let (oldPrefix, m) := b.manager.changeMemberHost p newPrefix
    ({ b with manager := m }.revokeComplete S now oldPrefix).followSelf link
      (b.manager.fold p.nick) fun _ => newPrefix
  | _, _ => b

/-- `handle_nick` -/
def handleNick (b : IrcBot) (link : Str → IrcLink) (now : ℚ) (message : IRCMessage) : IrcBot :=
  match message.ircPrefix, message.params.getLast? with
  | some p, some newNick =>
    let (oldPrefix, m) := b.manager.renameMember p newNick
    -- a new nick is a new identity, which must authenticate again
    ({ b with manager := m }.revokeComplete S now oldPrefix).followSelf link
      (b.manager.fold p.nick) fun identity =>
        ⟨newNick, orElse oldPrefix.user identity.user, orElse oldPrefix.host identity.host⟩
  | _, _ => b

/-- `handle_quit`, which completes no partial prefix -/
def handleQuit (b : IrcBot) (now : ℚ) (message : IRCMessage) : IrcBot :=
  match message.ircPrefix with
  | none => b
  | some p => { b with manager := b.manager.forgetMember p.nick }.revokeComplete S now p

/-- `handle_join`; `link` answers for the PART of a channel that is not desired. -/
def handleJoin (b : IrcBot) (link : Str → IrcLink) (message : IRCMessage) : IrcBot :=
  match message.ircPrefix, message.params with
  | some p, channel :: _ =>
    match b.manager.runtime channel with
    | none =>
      let folded := b.manager.fold channel
      if b.isSelf p.nick ∧ (link folded).sends = false then
        { b with manager := { b.manager with
          pendingParts := Assoc.assign folded channel b.manager.pendingParts } }
      else b
    | some _ =>
      let seen (c : ChannelRuntime) := c.withMember p.nick fun member =>
        { member with ircPrefix := some p }
      if b.isSelf p.nick then
        let m := b.manager.mapRuntime channel fun c => seen { c.reset with join := .joined }
        let b := { b with manager := m }
        if p.complete then b.setIdentity link p else b
      else { b with manager := b.manager.mapRuntime channel seen }
  | _, _ => b

/-- `handle_part` -/
def handlePart (b : IrcBot) (message : IRCMessage) : IrcBot :=
  match message.ircPrefix, message.params with
  | some p, channel :: _ =>
    let leave (c : ChannelRuntime) := if b.isSelf p.nick then c.reset else c.remove p.nick
    { b with manager := b.manager.mapRuntime channel leave }
  | _, _ => b

/-- `handle_kick` -/
def handleKick (b : IrcBot) (message : IRCMessage) : IrcBot :=
  match message.params with
  | channel :: target :: _ =>
    let leave (c : ChannelRuntime) := if b.isSelf target then c.reset else c.remove target
    { b with manager := b.manager.mapRuntime channel leave }
  | _ => b

/-- `handle_mode` -/
def handleMode (b : IrcBot) (message : IRCMessage) : IrcBot :=
  match message.params with
  | channel :: modes :: arguments =>
    let change (c : ChannelRuntime) := c.applyModeChanges b.caps modes arguments
    { b with manager := b.manager.mapRuntime channel change }
  | _ => b

/-- One entry of `handle_names`. -/
def nameMember (caps : ISupport) (c : ChannelRuntime) (decorated : Str) : ChannelRuntime :=
  let (modes, nick) := undecorate caps decorated
  if nick = [] then c else c.withMember nick fun member => { member with modes := modes }

/-- `handle_names`: the channel is the last parameter but one. -/
def handleNames (b : IrcBot) (message : IRCMessage) : IrcBot :=
  match message.params.reverse with
  | names :: channel :: _ :: _ :: _ =>
    let name (c : ChannelRuntime) := (splitWords names).foldl (nameMember b.caps) c
    { b with manager := b.manager.mapRuntime channel name }
  | _ => b

/-- `handle_who` -/
def handleWho (b : IrcBot) (link : Str → IrcLink) (message : IRCMessage) : IrcBot :=
  match message.params with
  | _ :: channel :: user :: host :: _ :: nick :: flags :: _ :: _ =>
    match b.manager.runtime channel with
    | none => b
    | some _ =>
      let p : Prefix := ⟨nick, some user, some host⟩
      let seen (member : ChannelMember) : ChannelMember :=
        { member with ircPrefix := some p, modes := whoModes b.caps flags }
      let b := { b with manager := b.manager.mapRuntime channel fun c => c.withMember nick seen }
      if b.isSelf nick then b.setIdentity link p else b
  | _ => b

/-- `handle_ban_list` -/
def handleBanList (b : IrcBot) (message : IRCMessage) : IrcBot :=
  match message.params with
  | _ :: channel :: mask :: _ =>
    { b with manager := b.manager.mapRuntime channel fun c => c.addBan mask }
  | _ => b

/-- `join_refused` of the numerics 471, 473, 474 and 475 -/
def handleRefused (b : IrcBot) (message : IRCMessage) : IrcBot :=
  match message.params with
  | _ :: channel :: _ =>
    { b with manager := b.manager.mapRuntime channel ChannelRuntime.refuseJoin }
  | _ => b

/-- `track_registration` and `handle_welcome` -/
def handleWelcome (b : IrcBot) (message : IRCMessage) : IrcBot :=
  { b with
    currentNick := message.params.headD b.currentNick
    registered := true
    identity := none
    manager := b.manager.reset }

/-- The client tracks its nick, then `on_irc_message` routes the message. -/
def onMessage (b : IrcBot) (link : Str → IrcLink) (now : ℚ) (message : IRCMessage) : IrcBot :=
  if message.command = lit "001" then b.handleWelcome message
  else if message.command = lit "352" then b.handleWho link message
  else if message.command = lit "353" then b.handleNames message
  else if message.command = lit "367" then b.handleBanList message
  else if message.command ∈ [lit "471", lit "473", lit "474", lit "475"] then b.handleRefused message
  else if message.command = lit "CHGHOST" then b.handleChghost S link now message
  else if message.command = lit "JOIN" then b.handleJoin link message
  else if message.command = lit "KICK" then b.handleKick message
  else if message.command = lit "MODE" then b.handleMode message
  else if message.command = lit "NICK" then
    let tracked := match message.ircPrefix, message.params.getLast? with
      | some p, some newNick => b.trackNick p newNick
      | _, _ => b
    tracked.handleNick S link now message
  else if message.command = lit "PART" then b.handlePart message
  else if message.command = lit "QUIT" then b.handleQuit S now message
  else b

/-! ## What the identity and the nick leave alone -/

@[simp] theorem setIdentity_sessions (b : IrcBot) (link : Str → IrcLink) (p : Prefix) :
    (b.setIdentity link p).sessions = b.sessions := by
  unfold setIdentity recordIdentity
  cases p.user with
  | none => rfl
  | some user =>
    cases p.host with
    | none => rfl
    | some host => dsimp only; split_ifs <;> rfl

@[simp] theorem followSelf_sessions (b : IrcBot) (link : Str → IrcLink) (folded : Str)
    (next : Prefix → Prefix) : (b.followSelf link folded next).sessions = b.sessions := by
  unfold followSelf
  split
  · rfl
  · split_ifs
    · exact setIdentity_sessions _ _ _
    · rfl

@[simp] theorem trackNick_manager (b : IrcBot) (p : Prefix) (newNick : Str) :
    (b.trackNick p newNick).manager = b.manager := by
  unfold trackNick
  split_ifs <;> rfl

@[simp] theorem trackNick_sessions (b : IrcBot) (p : Prefix) (newNick : Str) :
    (b.trackNick p newNick).sessions = b.sessions := by
  unfold trackNick
  split_ifs <;> rfl

end IrcBot

end Botnats
