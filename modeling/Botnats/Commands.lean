import Botnats.PeerHelp
import Botnats.ReplyLines
import Botnats.Triples

/-!
# Commands

`CommandHandler`, each command up to its first wait on JetStream, and `auto_op`. Until then
nothing suspends: a command reads the bot as it stands and queues its lines at once. What
follows the waits is in `CommandTurns`.
-/
namespace Botnats

open Triples

/-- What a command reads of the bot. `modes` and `limit` are those of the runtime of a folded
channel, `late` says whether a pending JOIN timed out, `suffix` is the one that a revision
draws, `scope`, `issuer` and `hmacSha1` are those of the authorizer, `fold` is `str.casefold`,
and `unencodable` is the text of a `UnicodeEncodeError`. -/
structure CommandBot where
  bot : IrcBot
  registry : PresenceRegistry
  connected : Bool
  botId : Str
  channelModes : Str
  modes : Str → Str
  limit : Str → Option ℕ
  late : Bool
  now : ℚ
  suffix : Str
  scope : SessionScope
  issuer : Str
  hmacSha1 : List Byte → Vector Byte 20
  upper : UpperCase
  fold : Str → Str
  unencodable : Str

/-- What a command waits for: nothing, as it is done or has raised what `dispatch` does not
catch; in `authenticate` the answers of `request_auth` and `request_claim`, `sync` of the session
that it granted or revoked, and the turn of the task that runs `auto_op`; the write of
`channel_update`, which carries the channel in its record; or the status of JetStream. -/
inductive CommandNext
  | done
  | raised
  | attempt (identity code : Str)
  | claim (counter : Option ℤ)
  | grant (session : Session)
  | revoke (session : Session)
  | opping
  | put (manager : ChannelManager) (record : ChannelRecord) (expected : Option Str)
  | status

/-- `ConnectionError` and `ValueError`, with their texts -/
inductive CommandError
  | connection (message : Str)
  | value (message : Str)

def CommandError.text : CommandError → Str
  | .connection message => message
  | .value message => message

abbrev Command := Program SendLoop CommandError

/-- `parse_command` -/
def parseCommand (u : UpperCase) (value : Str) : Except Str (Str × List Str) :=
  match splitWords value with
  | [] => .error (lit "empty command")
  | word :: words => .ok (u.upper word, words)

/-- `limit_identity` -/
def limitIdentity (p : Prefix) : Str :=
  casefold (match p.host with
    | some host => if host = [] then p.render else host
    | none => p.render) .ascii

/-- `sorted` under a key -/
def sortedBy {α : Type} (key : α → Str) (xs : List α) : List α :=
  xs.mergeSort fun a b => decide (key a ≤ key b)

namespace CommandBot

variable (c : CommandBot)

/-- `str` of what a check raises -/
def invalidText : Invalid → Str
  | .type message => lit message
  | .value message => lit message
  | .encoding => c.unencodable

/-- The value of a check, or what it raises -/
def check {α : Type} : Except Invalid α → Command α
  | .ok a => pure a
  | .error e => throw (.value (c.invalidText e))

/-- `irc.send` -/
def send (command : Str) (params : List Str) (trailing : Option Str) : Command PUnit := do
  let encoded ← c.check (formatMessage command params trailing)
  match (← get).send c.connected encoded with
  | .error message => throw (.connection message)
  | .ok t => set t

/-- `reply` -/
def reply (nickname message : Str) : Command PUnit := do
  set (Botnats.reply (← get) c.connected nickname message)

/-- The loop of `reply_list`, from `current` on -/
def replyItems (limit : ℕ) (nickname head current : Str) : List Str → Command PUnit
  | [] => c.reply nickname current
  | item :: items => do
    let candidate := current ++ 32 :: item
    if !encodable candidate then throw (.value c.unencodable)
    else if (utf8 candidate).length > limit then
      c.reply nickname current
      replyItems limit nickname head (head ++ 32 :: item) items
    else replyItems limit nickname head candidate items

/-- `reply_list` -/
def replyList (nickname head : Str) (items : List Str) : Command PUnit := do
  let frame ← c.check (privmsg nickname [])
  c.replyItems (maxIrcMessageBytes - frame.length) nickname head head items

/-- `authorized` -/
def authorized (sender : Prefix) : Bool :=
  c.bot.sessions.authorizer.authorized c.now sender.render

/-- `opped_channel` -/
def oppedChannel (channel : Str) : Command ChannelRuntime :=
  match c.bot.manager.runtime channel with
  | none => throw (.value (lit "Not opped on " ++ channel))
  | some runtime =>
    if c.bot.isSelfOpped runtime then pure runtime
    else throw (.value (lit "Not opped on " ++ channel))

/-- The member of a runtime that a target names -/
def member (runtime : ChannelRuntime) (target : Str) : Option ChannelMember :=
  Assoc.lookup (c.bot.manager.fold target) runtime.members

/-- `channel_update` up to its write -/
def channelUpdate (channel : Str) (key : Option Str) (present : Bool) :
    Command CommandNext := do
  let (manager, record) ←
    c.check (c.bot.manager.channelUpdate c.channelModes channel key present c.suffix)
  return .put manager record (c.bot.manager.durableRevision channel)

/-! ## The commands -/

def cmdBan (sender : Prefix) : List Str → Command CommandNext
  | [channel, mask] => do
    let channel ← c.check (validateChannel channel)
    let mask ← c.check (validateTarget mask)
    let _ ← c.oppedChannel channel
    c.send (lit "MODE") [channel, lit "+b", mask] none
    c.reply sender.nick (lit "Banned " ++ mask ++ lit " on " ++ channel)
    return .done
  | _ => throw (.value (lit "BAN <channel> <mask>"))

def cmdGetbans (sender : Prefix) : List Str → Command CommandNext
  | [channel] => do
    let channel ← c.check (validateChannel channel)
    match c.bot.manager.runtime channel with
    | none => c.reply sender.nick (lit "No record for " ++ channel)
    | some runtime =>
      if runtime.bans.isEmpty then
        c.reply sender.nick (lit "No bans tracked for " ++ channel)
      else
        (sortedBy id (runtime.bans.map Prod.snd)).forM fun mask =>
          c.reply sender.nick (channel ++ lit " +b " ++ mask)
    return .done
  | _ => throw (.value (lit "GETBANS <channel>"))

/-- The line of `GETMODES`; an argument that is missing or empty is left out. -/
def modesLine (channel : Str) (runtime : ChannelRuntime) : Str :=
  let modes := c.modes (c.bot.manager.fold channel)
  let value (mode : CodePoint) : Option Str :=
    if mode = 107 then runtime.key.filter (· ≠ [])
    else if mode = 108 then (c.limit (c.bot.manager.fold channel)).map decimal else none
  join [32] (channel :: modes :: modes.filterMap value)

def cmdGetmodes (sender : Prefix) : List Str → Command CommandNext
  | [channel] => do
    let channel ← c.check (validateChannel channel)
    match c.bot.manager.runtime channel with
    | none => c.reply sender.nick (lit "No record for " ++ channel)
    | some runtime =>
      if (c.modes (c.bot.manager.fold channel)).isEmpty then
        c.reply sender.nick (lit "No modes tracked for " ++ channel)
      else c.reply sender.nick (c.modesLine channel runtime)
    return .done
  | _ => throw (.value (lit "GETMODES <channel>"))

/-- The members as `GETUSERS` lists them -/
def userNames (runtime : ChannelRuntime) : List Str :=
  sortedBy (fun n => c.fold (n.dropWhile (· = 64))) (runtime.members.map fun e =>
    if c.bot.caps.isOpped e.2.modes then 64 :: e.2.nick else e.2.nick)

def cmdGetusers (sender : Prefix) : List Str → Command CommandNext
  | [channel] => do
    let channel ← c.check (validateChannel channel)
    match c.bot.manager.runtime channel with
    | none => c.reply sender.nick (lit "No record for " ++ channel)
    | some runtime =>
      if runtime.members.isEmpty then
        c.reply sender.nick (lit "No users tracked for " ++ channel)
      else c.replyList sender.nick channel (c.userNames runtime)
    return .done
  | _ => throw (.value (lit "GETUSERS <channel>"))

/-- The channels as `GETCHANS` lists them -/
def channelNames : List Str :=
  (sortedBy (fun runtime => c.fold runtime.channel) (c.bot.manager.channels.map Prod.snd)).map
    fun runtime =>
      if !runtime.joined then 45 :: runtime.channel
      else if c.bot.isSelfOpped runtime then 64 :: runtime.channel
      else runtime.channel

def cmdGetchans (sender : Prefix) : List Str → Command CommandNext
  | [] => do
    if c.bot.manager.channels.isEmpty then c.reply sender.nick (lit "No channels tracked")
    else c.replyList sender.nick (lit "Channels") c.channelNames
    return .done
  | _ => throw (.value (lit "GETCHANS takes no arguments"))

/-- What `DEOP` takes from a member: the operator modes from the highest that it has -/
def modesToDrop (member : ChannelMember) : Str :=
  c.bot.caps.operatorModes.dropWhile fun mode => decide (mode ∉ member.modes)

def cmdDeop (sender : Prefix) : List Str → Command CommandNext
  | [channel, target] => do
    let channel ← c.check (validateChannel channel)
    let target ← c.check (validateTarget target)
    let runtime ← c.oppedChannel channel
    match (c.member runtime target).filter fun m => c.bot.caps.isOpped m.modes with
    | none => c.reply sender.nick (target ++ lit " is not opped on " ++ channel)
    | some member =>
      (c.modesToDrop member).forM fun mode =>
        c.send (lit "MODE") [channel, [45, mode], member.nick] none
      c.reply sender.nick (lit "Deopped " ++ member.nick ++ lit " on " ++ channel)
    return .done
  | _ => throw (.value (lit "DEOP <channel> <nick>"))

def cmdInvite (sender : Prefix) : List Str → Command CommandNext
  | [channel, target] => do
    let channel ← c.check (validateChannel channel)
    let target ← c.check (validateTarget target)
    let _ ← c.oppedChannel channel
    c.send (lit "INVITE") [target, channel] none
    c.reply sender.nick (lit "Invited " ++ target ++ lit " to " ++ channel)
    return .done
  | _ => throw (.value (lit "INVITE <channel> <nick>"))

def cmdJoin : List Str → Command CommandNext
  | [channel] => do
    let channel ← c.check (validateChannel channel)
    c.channelUpdate channel none true
  | [channel, key] => do
    let channel ← c.check (validateChannel channel)
    let key ← c.check (validateKey key)
    c.channelUpdate channel (some key) true
  | _ => throw (.value (lit "JOIN <channel> [key]"))

def cmdKick (sender : Prefix) : List Str → Command CommandNext
  | channel :: target :: words => do
    let channel ← c.check (validateChannel channel)
    let target ← c.check (validateTarget target)
    let runtime ← c.oppedChannel channel
    match c.member runtime target with
    | none => c.reply sender.nick (target ++ lit " not found on " ++ channel)
    | some member =>
      let reason := join [32] words
      c.send (lit "KICK") [channel, member.nick] (if reason = [] then none else some reason)
      c.reply sender.nick (lit "Kicked " ++ member.nick ++ lit " from " ++ channel)
    return .done
  | _ => throw (.value (lit "KICK <channel> <nick> [reason]"))

def cmdOp (sender : Prefix) : List Str → Command CommandNext
  | [channel, target] => do
    let channel ← c.check (validateChannel channel)
    let target ← c.check (validateTarget target)
    let runtime ← c.oppedChannel channel
    match (c.member runtime target).filter fun m => m.ircPrefix.any Prefix.complete with
    | none => c.reply sender.nick (target ++ lit " not found on " ++ channel)
    | some member =>
      if c.bot.caps.isOpped member.modes then
        c.reply sender.nick (member.nick ++ lit " is already opped on " ++ channel)
      else
        c.send (lit "MODE") [channel, [43, c.bot.caps.opMode], member.nick] none
        c.reply sender.nick (lit "Opped " ++ member.nick ++ lit " on " ++ channel)
    return .done
  | _ => throw (.value (lit "OP <channel> <nick>"))

def cmdPart : List Str → Command CommandNext
  | [channel] => do
    let channel ← c.check (validateChannel channel)
    c.channelUpdate channel none false
  | _ => throw (.value (lit "PART <channel>"))

/-- The first line of `STATUS` -/
def statusLine : Str :=
  let joined := (c.bot.manager.channels.filter fun e => e.2.joined).length
  let peers := ((c.registry.active c.now).2.filter fun peer =>
    c.fold peer.botId ≠ c.fold c.botId).length
  lit "bot id=" ++ c.botId ++ lit " nick=" ++ c.bot.currentNick ++ lit " peers=" ++
    decimal peers ++ lit " channels=" ++ decimal joined

def cmdStatus (sender : Prefix) : List Str → Command CommandNext
  | [] => do
    c.reply sender.nick c.statusLine
    return .status
  | _ => throw (.value (lit "STATUS takes no arguments"))

def cmdUnban (sender : Prefix) : List Str → Command CommandNext
  | [channel, mask] => do
    let channel ← c.check (validateChannel channel)
    let mask ← c.check (validateTarget mask)
    let runtime ← c.oppedChannel channel
    match Assoc.lookup (c.bot.manager.fold mask) runtime.bans with
    | none => c.reply sender.nick (lit "No matching ban for " ++ mask ++ lit " on " ++ channel)
    | some stored =>
      c.send (lit "MODE") [channel, lit "-b", stored] none
      c.reply sender.nick (lit "Unbanned " ++ stored ++ lit " on " ++ channel)
    return .done
  | _ => throw (.value (lit "UNBAN <channel> <mask>"))

/-- `handlers` -/
def handlers (sender : Prefix) : List (Str × (List Str → Command CommandNext)) :=
  [(lit "BAN", c.cmdBan sender), (lit "GETBANS", c.cmdGetbans sender),
    (lit "GETCHANS", c.cmdGetchans sender), (lit "GETMODES", c.cmdGetmodes sender),
    (lit "GETUSERS", c.cmdGetusers sender), (lit "DEOP", c.cmdDeop sender),
    (lit "INVITE", c.cmdInvite sender), (lit "JOIN", c.cmdJoin),
    (lit "KICK", c.cmdKick sender), (lit "OP", c.cmdOp sender), (lit "PART", c.cmdPart),
    (lit "STATUS", c.cmdStatus sender), (lit "UNBAN", c.cmdUnban sender)]

/-- `authenticate` up to `request_auth` -/
def authenticate (sender : Prefix) (arguments : List Str) : Command CommandNext :=
  if !sender.complete then pure .done
  else
    match arguments with
    | [code] => pure (.attempt (limitIdentity sender) code)
    | _ => do
      c.reply sender.nick (lit "AUTH <totp-code>")
      return .done

/-- `str(error) or "Command failed"` -/
def failure (message : Str) : Str := if message = [] then lit "Command failed" else message

/-- `dispatch` -/
def dispatch (sender : Prefix) (text : Str) : Command CommandNext :=
  match parseCommand c.upper text with
  | .error message => do
    if c.authorized sender then c.reply sender.nick (failure message)
    return .done
  | .ok (name, arguments) =>
    if name = lit "AUTH" then c.authenticate sender arguments
    else if !c.authorized sender then return .done
    else
      match Assoc.lookup name (c.handlers sender) with
      | none => do
        c.reply sender.nick (lit "Unknown command")
        return .done
      | some handler =>
        tryCatch (handler arguments) fun error => do
          c.reply sender.nick (failure error.text)
          return .done

/-- `auto_op` in one channel -/
def autoOpIn (sender : Prefix) (runtime : ChannelRuntime) : Command PUnit :=
  if !c.bot.isSelfOpped runtime then pure ⟨⟩
  else
    match (c.member runtime sender.nick).filter fun m =>
        m.ircPrefix.any fun p => sender.matchesPrefix p c.bot.manager.casemapping with
    | none => pure ⟨⟩
    | some member =>
      if c.bot.caps.isOpped member.modes then pure ⟨⟩
      else
        tryCatch (c.send (lit "MODE") [runtime.channel, [43, c.bot.caps.opMode], member.nick] none)
          fun error => match error with
            | .connection _ => pure ⟨⟩
            | .value message => throw (.value message)

/-- `auto_op` -/
def autoOp (sender : Prefix) : Command PUnit :=
  (c.bot.manager.channels.map Prod.snd).forM (c.autoOpIn sender)

end CommandBot

/-! ## What goes to the queue -/

/-- The parts of a line -/
structure Outgoing where
  command : Str
  params : List Str
  trailing : Option Str

def Outgoing.Encodes (m : Outgoing) (encoded : List Byte) : Prop :=
  formatMessage m.command m.params m.trailing = .ok encoded

/-- The messages go to the end of the queue, and nothing else changes. -/
def SendLoop.Takes (s : SendLoop) (ms : List Outgoing) (t : SendLoop) : Prop :=
  ∃ lines, List.Forall₂ Outgoing.Encodes ms lines ∧
    t = { s with outbound := s.outbound ++ lines, queued := s.queued ++ lines }

namespace SendLoop

variable {s t u : SendLoop} {ms ms' : List Outgoing} {m : Outgoing} {encoded : List Byte}

theorem takes_nil (s : SendLoop) : s.Takes [] s := ⟨[], .nil, by simp⟩

theorem Takes.append (h : s.Takes ms t) (h' : t.Takes ms' u) : s.Takes (ms ++ ms') u := by
  obtain ⟨lines, hlines, rfl⟩ := h
  obtain ⟨lines', hlines', rfl⟩ := h'
  exact ⟨lines ++ lines', List.rel_append hlines hlines', by simp⟩

theorem takes_of_send {connected : Bool} (hm : m.Encodes encoded)
    (h : s.send connected encoded = .ok t) : s.Takes [m] t := by
  unfold SendLoop.send at h
  split_ifs at h
  obtain rfl := Except.ok.inj h
  exact ⟨[encoded], .cons hm .nil, rfl⟩

/-- The messages since `s` are as `P` says. -/
def Gained (s : SendLoop) (P : List Outgoing → Prop) (t : SendLoop) : Prop :=
  ∃ ms, s.Takes ms t ∧ P ms

end SendLoop

namespace CommandBot

open SendLoop

variable {c : CommandBot} {s : SendLoop} {P : List Outgoing → Prop} {α β : Type}

theorem exec_send (command : Str) (params : List Str) (trailing : Option Str) :
    exec (c.send command params trailing) s = match formatMessage command params trailing with
      | .error e => (.error (.value (c.invalidText e)), s)
      | .ok encoded =>
        match s.send c.connected encoded with
        | .error message => (.error (.connection message), s)
        | .ok t => (.ok ⟨⟩, t) := by
  cases hformat : formatMessage command params trailing with
  | error e => simp [send, check, hformat]
  | ok encoded =>
    cases hsend : s.send c.connected encoded <;> simp [send, check, hformat, exec_bind, hsend]

@[simp] theorem exec_reply (nickname message : Str) :
    exec (c.reply nickname message) s = (.ok ⟨⟩, Botnats.reply s c.connected nickname message) := by
  simp [reply, exec_bind]

/-- A line goes to the queue, or the send raises and leaves the queue. -/
theorem triple_send (command : Str) (params : List Str) (trailing : Option Str) :
    Triple (Gained s P) (c.send command params trailing)
      (fun _ => Gained s fun ms => ∃ earlier, P earlier ∧
        ms = earlier ++ [⟨command, params, trailing⟩])
      fun _ => Gained s P := by
  rintro t ⟨ms, htakes, hP⟩
  rw [exec_send]
  split
  · exact ⟨ms, htakes, hP⟩
  · rename_i encoded hformat
    split
    · exact ⟨ms, htakes, hP⟩
    · rename_i t' hsend
      have hm : Outgoing.Encodes ⟨command, params, trailing⟩ encoded := hformat
      exact ⟨_, htakes.append (takes_of_send hm hsend), ms, hP, rfl⟩

/-- A reply goes to the queue or is dropped. -/
theorem reply_takes (connected : Bool) (nickname message : Str) :
    s.Takes [⟨lit "PRIVMSG", [nickname], some message⟩]
      (Botnats.reply s connected nickname message) ∨
    Botnats.reply s connected nickname message = s := by
  unfold Botnats.reply
  split
  · exact .inr rfl
  · rename_i encoded hformat
    split
    · exact .inr rfl
    · rename_i t hsend
      have hm : Outgoing.Encodes ⟨lit "PRIVMSG", [nickname], some message⟩ encoded := hformat
      exact .inl (takes_of_send hm hsend)

/-- A reply never raises. -/
theorem triple_reply {E : CommandError → SendLoop → Prop} {nickname message : Str}
    (hP : ∀ ms, P ms → P (ms ++ [⟨lit "PRIVMSG", [nickname], some message⟩])) :
    Triple (Gained s P) (c.reply nickname message) (fun _ => Gained s P) E := by
  rintro t ⟨ms, htakes, hms⟩
  rw [exec_reply]
  rcases reply_takes c.connected nickname message with hreply | hreply
  · exact ⟨_, htakes.append hreply, hP ms hms⟩
  · rw [hreply]
    exact ⟨ms, htakes, hms⟩

/-! ## What a command may send -/

/-- The bot is an operator of the channel. -/
def Opped (c : CommandBot) (channel : Str) (runtime : ChannelRuntime) : Prop :=
  c.bot.manager.runtime channel = some runtime ∧ c.bot.isSelfOpped runtime = true

/-- The lines of a command with its arguments: it acts on the channel that they name, and only
there where the bot is an operator. -/
inductive Permits (c : CommandBot) : Str → List Str → Outgoing → Prop
  | ban {channel mask : Str} {runtime : ChannelRuntime} (opped : c.Opped channel runtime) :
    Permits c (lit "BAN") [channel, mask] ⟨lit "MODE", [channel, lit "+b", mask], none⟩
  | unban {channel mask stored : Str} {runtime : ChannelRuntime} (opped : c.Opped channel runtime)
    (tracked : Assoc.lookup (c.bot.manager.fold mask) runtime.bans = some stored) :
    Permits c (lit "UNBAN") [channel, mask] ⟨lit "MODE", [channel, lit "-b", stored], none⟩
  | invite {channel target : Str} {runtime : ChannelRuntime} (opped : c.Opped channel runtime) :
    Permits c (lit "INVITE") [channel, target] ⟨lit "INVITE", [target, channel], none⟩
  | kick {channel target : Str} {words : List Str} {runtime : ChannelRuntime}
    {member : ChannelMember} {reason : Option Str} (opped : c.Opped channel runtime)
    (found : c.member runtime target = some member) :
    Permits c (lit "KICK") (channel :: target :: words)
      ⟨lit "KICK", [channel, member.nick], reason⟩
  | op {channel target : Str} {runtime : ChannelRuntime} {member : ChannelMember}
    (opped : c.Opped channel runtime) (found : c.member runtime target = some member)
    (lower : c.bot.caps.isOpped member.modes = false) :
    Permits c (lit "OP") [channel, target]
      ⟨lit "MODE", [channel, [43, c.bot.caps.opMode], member.nick], none⟩
  | deop {channel target : Str} {runtime : ChannelRuntime} {member : ChannelMember}
    {mode : CodePoint} (opped : c.Opped channel runtime)
    (found : c.member runtime target = some member)
    (higher : c.bot.caps.isOpped member.modes = true) (dropped : mode ∈ c.modesToDrop member) :
    Permits c (lit "DEOP") [channel, target]
      ⟨lit "MODE", [channel, [45, mode], member.nick], none⟩

/-- `AUTH` sends nothing but replies before it waits. -/
theorem Permits.ne_auth {c : CommandBot} {name : Str} {arguments : List Str} {m : Outgoing}
    (h : c.Permits name arguments m) : name ≠ lit "AUTH" := by
  cases h <;> decide

theorem not_permits_nil {c : CommandBot} (m : Outgoing) : ¬ c.Permits [] [] m := by
  rintro (_ | _ | _ | _ | _ | _)

/-- The lines of a command, replies to its sender among them -/
def Allows (c : CommandBot) (sender : Prefix) (name : Str) (arguments : List Str)
    (m : Outgoing) : Prop :=
  (∃ message, m = ⟨lit "PRIVMSG", [sender.nick], some message⟩) ∨ c.Permits name arguments m

/-- Every message since `s` is as `A` says. -/
def Within (s : SendLoop) (A : Outgoing → Prop) : SendLoop → Prop :=
  Gained s fun ms => ∀ m ∈ ms, A m

variable {A : Outgoing → Prop} {sender : Prefix} {name text : Str} {arguments : List Str}

theorem keeps_send {command : Str} {params : List Str} {trailing : Option Str}
    (h : A ⟨command, params, trailing⟩) : Keeps (Within s A) (c.send command params trailing) := by
  refine (triple_send command params trailing).weaken (fun _ h => h) ?_ fun _ _ h => h
  rintro _ t ⟨ms, htakes, earlier, hearlier, rfl⟩
  refine ⟨_, htakes, fun m hm => ?_⟩
  rcases List.mem_append.mp hm with hm | hm
  · exact hearlier m hm
  · rw [List.mem_singleton.mp hm]
    exact h

theorem triple_reply_within {E : CommandError → SendLoop → Prop} {nickname message : Str}
    (h : A ⟨lit "PRIVMSG", [nickname], some message⟩) :
    Triple (Within s A) (c.reply nickname message) (fun _ => Within s A) E := by
  refine triple_reply fun ms hms m hm => ?_
  rcases List.mem_append.mp hm with hm | hm
  · exact hms m hm
  · rw [List.mem_singleton.mp hm]
    exact h

theorem keeps_reply (message : Str) :
    Keeps (Within s (c.Allows sender name arguments)) (c.reply sender.nick message) :=
  triple_reply_within (.inl ⟨message, rfl⟩)

/-- What follows a check sees the value that passed. -/
theorem triple_check {P : SendLoop → Prop} {Q : β → SendLoop → Prop}
    {E : CommandError → SendLoop → Prop} {e : Except Invalid α} {f : α → Command β}
    (hraise : ∀ error t, P t → E error t) (h : ∀ a, e = .ok a → Triple P (f a) Q E) :
    Triple P (c.check e >>= f) Q E := by
  cases e with
  | error e => exact fun t ht => hraise (.value (c.invalidText e)) t ht
  | ok a => exact h a rfl

/-- What follows `opped_channel` has a runtime where the bot is an operator. -/
theorem triple_oppedChannel {P : SendLoop → Prop} {Q : β → SendLoop → Prop}
    {E : CommandError → SendLoop → Prop} {channel : Str} {f : ChannelRuntime → Command β}
    (hraise : ∀ error t, P t → E error t)
    (h : ∀ runtime, c.Opped channel runtime → Triple P (f runtime) Q E) :
    Triple P (c.oppedChannel channel >>= f) Q E := by
  have hthrow : Triple P (throw (.value (lit "Not opped on " ++ channel)) : Command β) Q E :=
    fun t ht => hraise _ t ht
  unfold oppedChannel
  split
  · exact hthrow
  · rename_i runtime hruntime
    split_ifs with hopped
    · exact h runtime ⟨hruntime, hopped⟩
    · exact hthrow

/-- The command keeps `I`, and what it then waits for is as `K` says. -/
def Leads (I : SendLoop → Prop) (K : CommandNext → Prop) (x : Command CommandNext) : Prop :=
  Triple I x (fun next t => I t ∧ K next) fun _ => I

variable {I : SendLoop → Prop} {K : CommandNext → Prop}

theorem leads_pure {next : CommandNext} (h : K next) : Leads I K (pure next) :=
  fun _ ht => ⟨ht, h⟩

theorem leads_throw (error : CommandError) : Leads I K (throw error) := fun _ ht => ht

theorem keeps_leads {x : Command α} {f : α → Command CommandNext} (hx : Keeps I x)
    (hf : ∀ a, Leads I K (f a)) : Leads I K (x >>= f) :=
  Triple.bind hx hf

theorem keeps_done {x : Command PUnit} (h : Keeps I x) :
    Leads I (· = .done) (x >>= fun _ => pure CommandNext.done) :=
  keeps_leads h fun _ => leads_pure rfl

theorem leads_check {e : Except Invalid α} {f : α → Command CommandNext}
    (h : ∀ a, e = .ok a → Leads I K (f a)) : Leads I K (c.check e >>= f) :=
  triple_check (fun _ _ ht => ht) h

theorem leads_oppedChannel {channel : Str} {f : ChannelRuntime → Command CommandNext}
    (h : ∀ runtime, c.Opped channel runtime → Leads I K (f runtime)) :
    Leads I K (c.oppedChannel channel >>= f) :=
  triple_oppedChannel (fun _ _ ht => ht) h

theorem keeps_replyItems (limit : ℕ) (head current : Str) (items : List Str) :
    Keeps (Within s (c.Allows sender name arguments))
      (c.replyItems limit sender.nick head current items) := by
  induction items generalizing current with
  | nil => exact keeps_reply current
  | cons item items ih =>
    unfold replyItems
    refine Keeps.ite (fun _ => keeps_throw _) fun _ => Keeps.ite (fun _ => ?_) fun _ => ih _
    exact (keeps_reply current).bind fun _ => ih _

theorem keeps_replyList (head : Str) (items : List Str) :
    Keeps (Within s (c.Allows sender name arguments)) (c.replyList sender.nick head items) :=
  triple_check (fun _ _ ht => ht) fun _ _ => keeps_replyItems _ _ _ _

/-- What a command waits for, by its name and arguments. -/
inductive Awaits : Str → List Str → CommandNext → Prop
  | done (name : Str) (arguments : List Str) : Awaits name arguments .done
  | attempt (identity code : Str) : Awaits (lit "AUTH") [code] (.attempt identity code)
  | join {channel : Str} {words : List Str} {manager : ChannelManager} {record : ChannelRecord}
    {expected : Option Str} (named : record.channel = channel) (present : record.present = true) :
    Awaits (lit "JOIN") (channel :: words) (.put manager record expected)
  | part {channel : Str} {manager : ChannelManager} {record : ChannelRecord}
    {expected : Option Str} (named : record.channel = channel) (absent : record.present = false) :
    Awaits (lit "PART") [channel] (.put manager record expected)
  | status : Awaits (lit "STATUS") [] .status

/-- `channel_update` waits for the write of a record of the channel. -/
theorem leads_channelUpdate {channel : Str} {key : Option Str} {present : Bool}
    (h : ∀ manager record expected, record.channel = channel → record.present = present →
      K (.put manager record expected)) :
    Leads I K (c.channelUpdate channel key present) := by
  refine leads_check fun updated hupdated => leads_pure ?_
  obtain ⟨manager, record⟩ := updated
  unfold ChannelManager.channelUpdate at hupdated
  dsimp only at hupdated
  split at hupdated
  · simp at hupdated
  · unfold ChannelManager.newRecord at hupdated
    cases hnew : ChannelRecord.new channel
        (if present && key.isNone then (c.bot.manager.runtime channel).bind ChannelRuntime.key
          else key) present ((Assoc.lookup (c.bot.manager.fold channel)
          c.bot.manager.channelRecords).map ChannelRecord.revision) c.bot.manager.lastRevision
        c.suffix with
    | error e =>
      rw [hnew] at hupdated
      simp [Except.map] at hupdated
    | ok r =>
      rw [hnew] at hupdated
      obtain ⟨rfl, rfl⟩ := Prod.mk.inj (Except.ok.inj hupdated)
      obtain ⟨hchannel, -, hpresent⟩ := ChannelRecord.new_fields hnew
      exact h _ _ _ hchannel hpresent

/-! ## Each command stays within what it may send -/

theorem leads_cmdBan : Leads (Within s (c.Allows sender (lit "BAN") arguments)) (· = .done)
    (c.cmdBan sender arguments) := by
  unfold cmdBan
  split
  · refine leads_check fun channel hchannel => leads_check fun mask hmask =>
      leads_oppedChannel fun runtime hopped => ?_
    obtain rfl := validateChannel_eq hchannel
    obtain rfl := validateTarget_eq hmask
    exact keeps_leads (keeps_send (.inr (.ban hopped))) fun _ => keeps_done (keeps_reply _)
  · exact leads_throw _

theorem leads_cmdGetbans : Leads (Within s (c.Allows sender name arguments)) (· = .done)
    (c.cmdGetbans sender arguments) := by
  unfold cmdGetbans
  split
  · refine leads_check fun channel _ => ?_
    dsimp only
    split
    · exact keeps_done (keeps_reply _)
    · split_ifs
      · exact keeps_done (keeps_reply _)
      · exact keeps_done (keeps_forM fun mask _ => keeps_reply _)
  · exact leads_throw _

theorem leads_cmdGetmodes : Leads (Within s (c.Allows sender name arguments)) (· = .done)
    (c.cmdGetmodes sender arguments) := by
  unfold cmdGetmodes
  split
  · refine leads_check fun channel _ => ?_
    dsimp only
    split
    · exact keeps_done (keeps_reply _)
    · split_ifs <;> exact keeps_done (keeps_reply _)
  · exact leads_throw _

theorem leads_cmdGetusers : Leads (Within s (c.Allows sender name arguments)) (· = .done)
    (c.cmdGetusers sender arguments) := by
  unfold cmdGetusers
  split
  · refine leads_check fun channel _ => ?_
    dsimp only
    split
    · exact keeps_done (keeps_reply _)
    · split_ifs
      · exact keeps_done (keeps_reply _)
      · exact keeps_done (keeps_replyList _ _)
  · exact leads_throw _

theorem leads_cmdGetchans : Leads (Within s (c.Allows sender name arguments)) (· = .done)
    (c.cmdGetchans sender arguments) := by
  unfold cmdGetchans
  split
  · dsimp only
    split_ifs
    · exact keeps_done (keeps_reply _)
    · exact keeps_done (keeps_replyList _ _)
  · exact leads_throw _

theorem leads_cmdDeop : Leads (Within s (c.Allows sender (lit "DEOP") arguments)) (· = .done)
    (c.cmdDeop sender arguments) := by
  unfold cmdDeop
  split
  · refine leads_check fun channel hchannel => leads_check fun target htarget =>
      leads_oppedChannel fun runtime hopped => ?_
    obtain rfl := validateChannel_eq hchannel
    obtain rfl := validateTarget_eq htarget
    dsimp only
    split
    · exact keeps_done (keeps_reply _)
    · rename_i member hfilter
      obtain ⟨hmember, hhigher⟩ := Option.filter_eq_some_iff.mp hfilter
      have hloop : Keeps (Within s (c.Allows sender (lit "DEOP") [channel, target]))
          ((c.modesToDrop member).forM fun mode =>
            c.send (lit "MODE") [channel, [45, mode], member.nick] none) :=
        keeps_forM fun mode hmode => keeps_send (.inr (.deop hopped hmember hhigher hmode))
      exact keeps_leads hloop fun _ => keeps_done (keeps_reply _)
  · exact leads_throw _

theorem leads_cmdInvite : Leads (Within s (c.Allows sender (lit "INVITE") arguments)) (· = .done)
    (c.cmdInvite sender arguments) := by
  unfold cmdInvite
  split
  · refine leads_check fun channel hchannel => leads_check fun target htarget =>
      leads_oppedChannel fun runtime hopped => ?_
    obtain rfl := validateChannel_eq hchannel
    obtain rfl := validateTarget_eq htarget
    exact keeps_leads (keeps_send (.inr (.invite hopped))) fun _ => keeps_done (keeps_reply _)
  · exact leads_throw _

theorem leads_cmdJoin : Leads (Within s A) (Awaits (lit "JOIN") arguments)
    (c.cmdJoin arguments) := by
  unfold cmdJoin
  split
  · refine leads_check fun channel hchannel => leads_channelUpdate fun _ _ _ hnamed hpresent => ?_
    obtain rfl := validateChannel_eq hchannel
    exact .join hnamed hpresent
  · refine leads_check fun channel hchannel => leads_check fun key _ =>
      leads_channelUpdate fun _ _ _ hnamed hpresent => ?_
    obtain rfl := validateChannel_eq hchannel
    exact .join hnamed hpresent
  · exact leads_throw _

theorem leads_cmdKick : Leads (Within s (c.Allows sender (lit "KICK") arguments)) (· = .done)
    (c.cmdKick sender arguments) := by
  unfold cmdKick
  split
  · refine leads_check fun channel hchannel => leads_check fun target htarget =>
      leads_oppedChannel fun runtime hopped => ?_
    obtain rfl := validateChannel_eq hchannel
    obtain rfl := validateTarget_eq htarget
    dsimp only
    split
    · exact keeps_done (keeps_reply _)
    · rename_i member hmember
      exact keeps_leads (keeps_send (.inr (.kick hopped hmember))) fun _ => keeps_done (keeps_reply _)
  · exact leads_throw _

theorem leads_cmdOp : Leads (Within s (c.Allows sender (lit "OP") arguments)) (· = .done)
    (c.cmdOp sender arguments) := by
  unfold cmdOp
  split
  · refine leads_check fun channel hchannel => leads_check fun target htarget =>
      leads_oppedChannel fun runtime hopped => ?_
    obtain rfl := validateChannel_eq hchannel
    obtain rfl := validateTarget_eq htarget
    dsimp only
    split
    · exact keeps_done (keeps_reply _)
    · rename_i member hfilter
      obtain ⟨hmember, -⟩ := Option.filter_eq_some_iff.mp hfilter
      split_ifs with hlower
      · exact keeps_done (keeps_reply _)
      · exact keeps_leads (keeps_send (.inr (.op hopped hmember (Bool.eq_false_iff.mpr hlower))))
          fun _ => keeps_done (keeps_reply _)
  · exact leads_throw _

theorem leads_cmdPart : Leads (Within s A) (Awaits (lit "PART") arguments)
    (c.cmdPart arguments) := by
  unfold cmdPart
  split
  · refine leads_check fun channel hchannel => leads_channelUpdate fun _ _ _ hnamed habsent => ?_
    obtain rfl := validateChannel_eq hchannel
    exact .part hnamed habsent
  · exact leads_throw _

theorem leads_cmdStatus : Leads (Within s (c.Allows sender name arguments))
    (Awaits (lit "STATUS") arguments) (c.cmdStatus sender arguments) := by
  unfold cmdStatus
  split
  · exact keeps_leads (keeps_reply _) fun _ => leads_pure .status
  · exact leads_throw _

theorem leads_cmdUnban : Leads (Within s (c.Allows sender (lit "UNBAN") arguments)) (· = .done)
    (c.cmdUnban sender arguments) := by
  unfold cmdUnban
  split
  · refine leads_check fun channel hchannel => leads_check fun mask hmask =>
      leads_oppedChannel fun runtime hopped => ?_
    obtain rfl := validateChannel_eq hchannel
    obtain rfl := validateTarget_eq hmask
    dsimp only
    split
    · exact keeps_done (keeps_reply _)
    · rename_i stored hstored
      exact keeps_leads (keeps_send (.inr (.unban hopped hstored))) fun _ => keeps_done (keeps_reply _)
  · exact leads_throw _

theorem Leads.awaits {x : Command CommandNext} (h : Leads I (· = .done) x) (name : Str)
    (arguments : List Str) : Leads I (Awaits name arguments) x := by
  refine Triple.weaken h (fun _ ht => ht) ?_ fun _ _ ht => ht
  rintro next t ⟨ht, rfl⟩
  exact ⟨ht, .done name arguments⟩

/-- The handler of a command stays within what the command may send. -/
theorem leads_handler {handler : List Str → Command CommandNext}
    (h : Assoc.lookup name (c.handlers sender) = some handler) :
    Leads (Within s (c.Allows sender name arguments)) (Awaits name arguments)
      (handler arguments) := by
  have hmem := Assoc.mem_of_lookup h
  simp only [handlers, List.mem_cons, Prod.mk.injEq, List.not_mem_nil, or_false] at hmem
  rcases hmem with ⟨rfl, rfl⟩ | ⟨rfl, rfl⟩ | ⟨rfl, rfl⟩ | ⟨rfl, rfl⟩ | ⟨rfl, rfl⟩ | ⟨rfl, rfl⟩ |
    ⟨rfl, rfl⟩ | ⟨rfl, rfl⟩ | ⟨rfl, rfl⟩ | ⟨rfl, rfl⟩ | ⟨rfl, rfl⟩ | ⟨rfl, rfl⟩ | ⟨rfl, rfl⟩
  · exact leads_cmdBan.awaits _ _
  · exact leads_cmdGetbans.awaits _ _
  · exact leads_cmdGetchans.awaits _ _
  · exact leads_cmdGetmodes.awaits _ _
  · exact leads_cmdGetusers.awaits _ _
  · exact leads_cmdDeop.awaits _ _
  · exact leads_cmdInvite.awaits _ _
  · exact leads_cmdJoin
  · exact leads_cmdKick.awaits _ _
  · exact leads_cmdOp.awaits _ _
  · exact leads_cmdPart
  · exact leads_cmdStatus
  · exact leads_cmdUnban.awaits _ _

theorem within_start (s : SendLoop) (A : Outgoing → Prop) : Within s A s :=
  ⟨[], takes_nil s, by simp⟩

/-- A reply, after which nothing is left to do -/
theorem triple_answer (message : Str) :
    Triple (Within s (c.Allows sender name arguments))
      (c.reply sender.nick message >>= fun _ => pure CommandNext.done)
      (fun next t => Within s (c.Allows sender name arguments) t ∧ Awaits name arguments next)
      fun _ _ => False :=
  (triple_reply_within (.inl ⟨message, rfl⟩)).bind fun _ _ ht => ⟨ht, .done _ _⟩

/-- Nothing that a command raises leaves `dispatch`. -/
theorem triple_dispatch (sender : Prefix)
    (hparse : parseCommand c.upper text = .ok (name, arguments)) :
    Triple (Within s (c.Allows sender name arguments)) (c.dispatch sender text)
      (fun next t => Within s (c.Allows sender name arguments) t ∧ Awaits name arguments next)
      fun _ _ => False := by
  unfold dispatch
  rw [hparse]
  dsimp only
  split_ifs with hauth
  · subst hauth
    unfold authenticate
    split_ifs
    · exact fun _ ht => ⟨ht, .done _ _⟩
    · split
      · exact fun _ ht => ⟨ht, .attempt _ _⟩
      · exact triple_answer _
  · exact fun _ ht => ⟨ht, .done _ _⟩
  · split
    · exact triple_answer _
    · rename_i handler hhandler
      exact Triple.tryCatch (leads_handler hhandler) fun error => triple_answer _

/-- A text that is no command is answered by a reply at most. -/
theorem triple_dispatch_empty (sender : Prefix) (name : Str) (arguments : List Str) {message : Str}
    (hparse : parseCommand c.upper text = .error message) :
    Triple (Within s (c.Allows sender name arguments)) (c.dispatch sender text)
      (fun next t => Within s (c.Allows sender name arguments) t ∧ next = .done)
      fun _ _ => False := by
  unfold dispatch
  rw [hparse]
  dsimp only
  split_ifs
  · exact (triple_reply_within (.inl ⟨_, rfl⟩)).bind fun _ _ ht => ⟨ht, rfl⟩
  · exact fun _ ht => ⟨ht, rfl⟩

/-- Nobody who is not authorized has anything done for another command than `AUTH`. -/
theorem exec_dispatch_unauthorized (hunauthorized : c.authorized sender = false) {text : Str}
    (hother : ∀ arguments, parseCommand c.upper text ≠ .ok (lit "AUTH", arguments)) (s : SendLoop) :
    exec (c.dispatch sender text) s = (.ok .done, s) := by
  unfold dispatch
  split
  · simp [hunauthorized]
  · rename_i name arguments hparse
    rw [if_neg, if_pos (by simp [hunauthorized])]
    · rfl
    · rintro rfl
      exact hother arguments hparse

/-- What a text does before its first wait: it does not raise, its lines are those of the command
that it names, and it waits for what that command waits for. Where that is not `AUTH` and its
sender is not authorized, or the text names no command, it does nothing but reply. -/
theorem exec_dispatch (c : CommandBot) (sender : Prefix) (text : Str) (s : SendLoop) :
    ∃ name arguments next ms t, exec (c.dispatch sender text) s = (.ok next, t) ∧ s.Takes ms t ∧
      (∀ m ∈ ms, c.Allows sender name arguments m) ∧ Awaits name arguments next ∧
      (parseCommand c.upper text = .ok (name, arguments) ∧
          (c.authorized sender = true ∨ name = lit "AUTH") ∨
        next = .done ∧ ∀ m, ¬ c.Permits name arguments m) := by
  cases hparse : parseCommand c.upper text with
  | error message =>
    have hrun := triple_dispatch_empty sender [] [] hparse s (within_start s _)
    rcases hexec : exec (c.dispatch sender text) s with ⟨e | next, t⟩ <;> rw [hexec] at hrun
    · exact hrun.elim
    · obtain ⟨⟨ms, htakes, hms⟩, rfl⟩ := hrun
      exact ⟨[], [], .done, ms, t, rfl, htakes, hms, .done _ _, .inr ⟨rfl, not_permits_nil⟩⟩
  | ok parsed =>
    obtain ⟨name, arguments⟩ := parsed
    by_cases hmay : c.authorized sender = true ∨ name = lit "AUTH"
    · have hrun := triple_dispatch sender hparse s (within_start s _)
      rcases hexec : exec (c.dispatch sender text) s with ⟨e | next, t⟩ <;> rw [hexec] at hrun
      · exact hrun.elim
      · obtain ⟨⟨ms, htakes, hms⟩, hawaits⟩ := hrun
        exact ⟨name, arguments, next, ms, t, rfl, htakes, hms, hawaits, .inl ⟨rfl, hmay⟩⟩
    · rw [not_or, Bool.not_eq_true] at hmay
      refine ⟨[], [], .done, [], s, exec_dispatch_unauthorized hmay.1 (fun other hauth => ?_) s,
        takes_nil s, by simp, .done _ _, .inr ⟨rfl, not_permits_nil⟩⟩
      exact hmay.2 (Prod.mk.inj (Except.ok.inj (hparse.symm.trans hauth))).1

end CommandBot

end Botnats
