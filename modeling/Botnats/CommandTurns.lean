import Botnats.ChannelPuts
import Botnats.Commands
import Botnats.JoinTracking
import Botnats.SessionCover
import Botnats.Totp

/-!
# Commands over their waits

What follows the waits of a command: the write of a channel record with `apply_record`, the
second line of `STATUS`, and `authenticate` up to the end of `auto_op`. From one turn of a
command to the next the bot may have changed in any way.
-/
namespace Botnats

open Triples

/-- What a wait ends with: a value, an error that `dispatch` catches from its handlers, with
its text, or another error. -/
inductive Answered (α : Type)
  | returned (value : α)
  | failed (message : Str)
  | raised

/-- What may end a wait -/
def CommandNext.Answer : CommandNext → Type
  | .done | .raised => Empty
  | .attempt _ _ | .claim _ | .grant _ | .revoke _ => Answered Bool
  | .opping => Unit
  | .put _ _ _ => Answered Json
  | .status => Answered Str

/-- A write that returns gives a record that orders at its key. -/
def CommandNext.Fits (mac : Str → Str) (network : Str) : (next : CommandNext) → next.Answer → Prop
  | .put _ record _, .returned stored =>
    ∃ revision, channelOrder mac network (channelKey mac record.channel) stored = some revision
  | _, _ => True

/-- A line of `safe_join` or `apply_record` -/
def IrcLine.outgoing : IrcLine → Outgoing
  | .join channel key => ⟨lit "JOIN", match key.filter (· ≠ []) with
      | none => [channel]
      | some key => [channel, key], none⟩
  | .part channel => ⟨lit "PART", [channel], none⟩

namespace CommandBot

variable (c : CommandBot)

/-- What the connection answers to `apply_record` -/
def link (sends : Bool) : IrcLink :=
  ⟨c.bot.registered && c.bot.identity.isSome, c.late, sends⟩

def sendLine (line : IrcLine) : Command PUnit :=
  c.send line.outgoing.command line.outgoing.params line.outgoing.trailing

/-- The runtime that `apply_record` has at hand when it may send a JOIN -/
def joining (record : ChannelRecord) : Option ChannelRuntime :=
  (c.bot.manager.applyRecord ⟨false, c.late, false⟩ record).runtime record.channel

/-- `safe_join`, and whether the line went to the queue -/
def safeJoin (runtime : ChannelRuntime) : Command Bool :=
  tryCatch (do
      c.sendLine (.join runtime.channel runtime.key)
      return true)
    fun _ => return false

/-- `apply_record` with its lines: what it leaves, and the text of what it raises -/
def applyRecord (record : ChannelRecord) : Command (ChannelManager × Option Str) :=
  let left (sends : Bool) := c.bot.manager.applyRecord (c.link sends) record
  if !c.bot.manager.applies record then return (left false, none)
  else if record.present then
    match c.joining record with
    | none => return (left false, none)
    | some runtime =>
      if (c.link false).ready && runtime.joinDue (c.link false) then do
        let sent ← c.safeJoin runtime
        return (left sent, none)
      else return (left false, none)
  else
    match c.bot.manager.runtime record.channel with
    | none => return (left false, none)
    | some _ =>
      tryCatch (do
          c.sendLine (.part record.channel)
          return (left true, none))
        fun error => match error with
          | .connection _ => return (left false, none)
          -- the channel is gone, and not kept for another PART
          | .value message => return (left true, some message)

/-- What `dispatch` does with an error of a handler -/
def fail (sender : Prefix) (bot : IrcBot) (message : Str) : Command (IrcBot × CommandNext) := do
  c.reply sender.nick (failure message)
  return (bot, .done)

/-- `channel_update` once its write has returned -/
def channelUpdated (sender : Prefix) (record : ChannelRecord) (stored : Json) :
    Command (IrcBot × CommandNext) :=
  match parseChannelRecord stored with
  | .error (.type _) => return (c.bot, .raised)
  | .error e => c.fail sender c.bot (c.invalidText e)
  | .ok authoritative => do
    let (manager, error) ← c.applyRecord authoritative
    match error with
    | some message => c.fail sender { c.bot with manager := manager } message
    | none =>
      c.reply sender.nick
        (if authoritative ≠ record then lit "Update superseded for " ++ record.channel
        else if record.present then lit "Joining " ++ record.channel
        else lit "Parting " ++ record.channel)
      return ({ c.bot with manager := manager }, .done)

/-- The end of a refused `authenticate` -/
def refuse (sender : Prefix) (bot : IrcBot) : Command (IrcBot × CommandNext) := do
  c.reply sender.nick (lit "Authorization failed")
  return (bot, .done)

/-- `authenticate` once `request_claim` has answered -/
def claimed (sender : Prefix) (counter : Option ℤ) (won : Bool) : Command (IrcBot × CommandNext) :=
  let sessions := c.bot.sessions
  if counter.isSome && won && sessions.watchedValid sender.render then
    return ({ c.bot with
        sessions := sessions.call c.scope c.issuer c.now (.grant sender.render) },
      .grant (sessions.authorizer.grant c.scope c.issuer c.now sender.render).1)
  else c.refuse sender c.bot

/-- `authenticate` once `sync` of the granted session has returned -/
def granted (sender : Prefix) (written : Bool) : Command (IrcBot × CommandNext) :=
  -- `authorized` is asked only of a write that succeeded, and drops an expired record
  let asked := if written then c.bot.sessions.call c.scope c.issuer c.now (.get sender.render)
    else c.bot.sessions
  if written && c.authorized sender && c.bot.sessions.watchedValid sender.render then do
    c.reply sender.nick (lit "Authorized")
    return ({ c.bot with sessions := asked }, .opping)
  else
    match asked.authorizer.revoke c.scope sender.render with
    | none => c.refuse sender { c.bot with sessions := asked }
    | some (revoked, _) =>
      return ({ c.bot with
          sessions := asked.call c.scope c.issuer c.now (.refuse sender.render) },
        .revoke revoked)

/-- The next turn of a command: what it does once its wait has ended, on the bot as it then is -/
def resume (sender : Prefix) : (next : CommandNext) → next.Answer → Command (IrcBot × CommandNext)
  | .attempt _ code, .returned allowed =>
    if allowed then
      match matchCode c.hmacSha1 code c.now with
      | .error _ => return (c.bot, .raised)
      | .ok counter => return (c.bot, .claim counter)
    else return (c.bot, .done)
  | .claim counter, .returned won => c.claimed sender counter won
  | .grant _, .returned written => c.granted sender written
  | .revoke _, .returned _ => c.refuse sender c.bot
  | .attempt _ _, _ | .claim _, _ | .grant _, _ | .revoke _, _ => return (c.bot, .raised)
  | .opping, _ =>
    tryCatch (do
        c.autoOp sender
        return (c.bot, .done))
      fun _ => return (c.bot, .raised)
  | .put _ record _, .returned stored => c.channelUpdated sender record stored
  | .status, .returned line => do
    c.reply sender.nick line
    return (c.bot, .done)
  | .put _ _ _, .failed message | .status, .failed message => c.fail sender c.bot message
  | .put _ _ _, .raised | .status, .raised => return (c.bot, .raised)

end CommandBot

/-! ## The lines of a record -/

namespace ChannelManager

variable {m : ChannelManager} {link : IrcLink} {record : ChannelRecord}

/-- The runtime of a present record before its JOIN, which is due unless the bot was on the
channel or is on its way -/
theorem applyPresent_joining (m : ChannelManager) (record : ChannelRecord)
    (current : Option ChannelRecord) :
    ∃ c : ChannelRuntime, c.channel = record.channel ∧
      (∀ link, c.joinDue link = ((Assoc.lookup (m.fold record.channel) m.channels).map
        (·.joinDue link)).getD true) ∧
      ∀ link, (m.applyPresent link record current).runtime record.channel =
        some (if link.ready && c.joinDue link then c.safeJoin link else c) := by
  refine ⟨_, ?_, fun link => ?_, fun link => Assoc.lookup_assign_self _ _ _⟩
  · split_ifs <;> rfl
  · cases Assoc.lookup (m.fold record.channel) m.channels with
    | none => rfl
    | some existing =>
      dsimp only [Option.getD_some, Option.map_some]
      split_ifs <;> rfl

theorem applyRecord_joining (h : m.applies record = true) (hpresent : record.present = true) :
    ∃ c : ChannelRuntime, c.channel = record.channel ∧
      (∀ link, c.joinDue link = ((Assoc.lookup (m.fold record.channel) m.channels).map
        (·.joinDue link)).getD true) ∧
      ∀ link, (m.applyRecord link record).runtime record.channel =
        some (if link.ready && c.joinDue link then c.safeJoin link else c) := by
  simp only [applies, Bool.and_eq_true, Bool.not_eq_true'] at h
  obtain ⟨c, hchannel, hdue, hruntime⟩ := applyPresent_joining { m with
    sourceRecords := Assoc.assign (casefold record.channel .ascii) record m.sourceRecords
    channelRecords := Assoc.assign (m.fold record.channel) record m.channelRecords } record
    (Assoc.lookup (m.fold record.channel) m.channelRecords)
  refine ⟨c, hchannel, hdue, fun link => (congrArg (fun n : ChannelManager =>
    n.runtime record.channel) ?_).trans (hruntime link)⟩
  rw [applyRecord]
  dsimp only
  rw [if_neg (by simp [h.1]), if_neg (fun hc => absurd (h.2.symm.trans hc) (by simp)),
    if_pos hpresent]

/-- A record that is news asks for a JOIN of its channel while the bot is registered, or for its
PART. -/
theorem mem_recordLines {line : IrcLine} (h : line ∈ m.recordLines link record) :
    m.applies record = true ∧
      ((record.present = true ∧ link.ready = true ∧ ∃ key, line = .join record.channel key) ∨
        record.present = false ∧ line = .part record.channel) := by
  unfold recordLines at h
  dsimp only at h
  split_ifs at h with hstale hpresent hjoin hparts
  · cases h
  · have happlies : m.applies record = true := by simpa using hstale
    obtain ⟨c, hchannel, -, hruntime⟩ := applyRecord_joining happlies hpresent
    rw [hruntime] at h
    refine ⟨happlies, .inl ⟨hpresent, (Bool.and_eq_true_iff.mp hjoin).1, ?_⟩⟩
    have hsafe : ∀ d : ChannelRuntime, line ∈ d.joinLines link → d.channel = record.channel →
        ∃ key, line = .join record.channel key := by
      intro d hline hd
      unfold ChannelRuntime.joinLines at hline
      split_ifs at hline
      · exact ⟨d.key, by rw [List.mem_singleton.mp hline, hd]⟩
      · cases hline
    split_ifs at h
    · refine hsafe _ h ?_
      rw [ChannelRuntime.safeJoin]
      split_ifs <;> exact hchannel
    · exact hsafe _ h hchannel
  · cases h
  · exact ⟨by simpa using hstale, .inr ⟨by simpa using hpresent, List.mem_singleton.mp h⟩⟩
  · cases h

/-- What is not taken is no line. -/
theorem recordLines_refused (hsends : link.sends = false) : m.recordLines link record = [] := by
  unfold recordLines
  dsimp only
  split_ifs
  · rfl
  · split
    · simp [ChannelRuntime.joinLines, hsends]
    · rfl
  · rfl
  · rename_i hparts
    simp [hsends] at hparts
  · rfl

end ChannelManager

namespace CommandBot

open SendLoop

variable {c : CommandBot} {s : SendLoop} {sender : Prefix} {mac : Str → Str} {network : Str}

theorem exec_sendLine (c : CommandBot) (line : IrcLine) (s : SendLoop) :
    (∃ t, exec (c.sendLine line) s = (.ok ⟨⟩, t) ∧ s.Takes [line.outgoing] t) ∨
      ∃ error, exec (c.sendLine line) s = (.error error, s) := by
  rw [sendLine, exec_send]
  split
  · exact .inr ⟨_, rfl⟩
  · rename_i encoded hformat
    split
    · exact .inr ⟨_, rfl⟩
    · rename_i t hsend
      have hm : line.outgoing.Encodes encoded := hformat
      exact .inl ⟨t, rfl, takes_of_send hm hsend⟩

theorem exec_safeJoin (c : CommandBot) (runtime : ChannelRuntime) (s : SendLoop) :
    ∃ sent ms t, exec (c.safeJoin runtime) s = (.ok sent, t) ∧ s.Takes ms t ∧
      ms = if sent then [(IrcLine.join runtime.channel runtime.key).outgoing] else [] := by
  rw [safeJoin, exec_tryCatch, exec_bind]
  rcases exec_sendLine c (.join runtime.channel runtime.key) s with
    ⟨t, hexec, htakes⟩ | ⟨error, hexec⟩
  · exact ⟨true, _, t, by rw [hexec]; rfl, htakes, rfl⟩
  · exact ⟨false, [], s, by rw [hexec]; rfl, takes_nil s, rfl⟩

/-- `apply_record` leaves the manager as the connection answers, and its lines are those that
the connection took; it raises only after a channel is gone whose PART cannot be encoded. -/
theorem exec_applyRecord (c : CommandBot) (record : ChannelRecord) (s : SendLoop) :
    ∃ sends error ms t, exec (c.applyRecord record) s =
        (.ok (c.bot.manager.applyRecord (c.link sends) record, error), t) ∧ s.Takes ms t ∧
      ms = if error.isSome then [] else
        (c.bot.manager.recordLines (c.link sends) record).map IrcLine.outgoing := by
  have hnone : ∀ x : Command (ChannelManager × Option Str),
      exec x s = (.ok (c.bot.manager.applyRecord (c.link false) record, none), s) →
      ∃ sends error ms t, exec x s =
        (.ok (c.bot.manager.applyRecord (c.link sends) record, error), t) ∧ s.Takes ms t ∧
      ms = if error.isSome then [] else
        (c.bot.manager.recordLines (c.link sends) record).map IrcLine.outgoing :=
    fun x hx => ⟨false, none, [], s, hx, takes_nil s,
      by simp [ChannelManager.recordLines_refused (show (c.link false).sends = false from rfl)]⟩
  unfold applyRecord
  dsimp only
  split_ifs with hstale hpresent
  · exact hnone _ rfl
  · have happlies : c.bot.manager.applies record = true := by simpa using hstale
    obtain ⟨runtime, hchannel, hdue, hruntime⟩ :=
      ChannelManager.applyRecord_joining happlies hpresent
    have hjoining : c.joining record = some runtime := hruntime ⟨false, c.late, false⟩
    rw [hjoining]
    dsimp only
    split_ifs with hjoin
    · obtain ⟨sent, ms, t, hexec, htakes, hms⟩ := exec_safeJoin c runtime s
      refine ⟨sent, none, ms, t, by rw [exec_bind, hexec]; rfl, htakes, ?_⟩
      cases sent with
      | false =>
        simp [hms, ChannelManager.recordLines_refused (show (c.link false).sends = false from rfl)]
      | true =>
        have hready : ((c.link true).ready && ((Assoc.lookup (c.bot.manager.fold record.channel)
            c.bot.manager.channels).map (·.joinDue (c.link true))).getD true) = true := by
          rw [← hdue]
          exact hjoin
        have hjoin' : ((c.link true).ready && runtime.joinDue (c.link true)) = true := hjoin
        have hlines : c.bot.manager.recordLines (c.link true) record =
            [.join runtime.channel runtime.key] := by
          rw [ChannelManager.recordLines]
          rw [if_neg (by simp [happlies]), if_pos hpresent, if_pos hready, hruntime, if_pos hjoin']
          simp [ChannelRuntime.joinLines, ChannelRuntime.safeJoin, link]
        simp [hms, hlines]
    · exact hnone _ rfl
  · have happlies : c.bot.manager.applies record = true := by simpa using hstale
    cases hold : c.bot.manager.runtime record.channel with
    | none => exact hnone _ rfl
    | some runtime =>
      dsimp only
      rw [exec_tryCatch, exec_bind]
      rcases exec_sendLine c (.part record.channel) s with ⟨t, hexec, htakes⟩ | ⟨error, hexec⟩
      · refine ⟨true, none, _, t, by rw [hexec]; rfl, htakes, ?_⟩
        have hsome : ((Assoc.lookup (c.bot.manager.fold record.channel)
            c.bot.manager.channels).isSome && (c.link true).sends) = true := by
          rw [show Assoc.lookup _ _ = some runtime from hold]
          rfl
        have hlines : c.bot.manager.recordLines (c.link true) record = [.part record.channel] := by
          rw [ChannelManager.recordLines]
          rw [if_neg (by simp [happlies]), if_neg hpresent, if_pos hsome]
        simp [hlines]
      · rw [hexec]
        cases error with
        | connection message => exact hnone _ rfl
        | value message => exact ⟨true, some message, [], s, rfl, takes_nil s, rfl⟩

/-! ## What one turn does -/

/-- What ends a wait in an error that nothing catches: an answer in `authenticate` that raises,
a clock with a counter of TOTP that does not fit eight bytes, a line of `auto_op` that cannot be
encoded, or what is no `ValueError` and none of `PUBLISH_ERRORS`. -/
inductive Unguarded (c : CommandBot) (sender : Prefix) :
    (next : CommandNext) → next.Answer → Prop
  | attempt {identity code : Str} {answer : Answered Bool} (h : ∀ b, answer ≠ .returned b) :
    Unguarded c sender (.attempt identity code) answer
  | code {identity code : Str} (h : matchCode c.hmacSha1 code c.now = .error ()) :
    Unguarded c sender (.attempt identity code) (Answered.returned true : Answered Bool)
  | claim {counter : Option ℤ} {answer : Answered Bool} (h : ∀ b, answer ≠ .returned b) :
    Unguarded c sender (.claim counter) answer
  | grant {session : Session} {answer : Answered Bool} (h : ∀ b, answer ≠ .returned b) :
    Unguarded c sender (.grant session) answer
  | revoke {session : Session} {answer : Answered Bool} (h : ∀ b, answer ≠ .returned b) :
    Unguarded c sender (.revoke session) answer
  | opping {runtime : ChannelRuntime} {member : ChannelMember} {e : Invalid}
    (mem : runtime ∈ c.bot.manager.channels.map Prod.snd)
    (found : c.member runtime sender.nick = some member)
    (h : formatMessage (lit "MODE") [runtime.channel, [43, c.bot.caps.opMode], member.nick] none =
      .error e) : Unguarded c sender .opping ()
  | put {manager : ChannelManager} {record : ChannelRecord} {expected : Option Str} :
    Unguarded c sender (.put manager record expected) (Answered.raised : Answered Json)
  | status : Unguarded c sender .status (Answered.raised : Answered Str)

/-- What a command waits for after a wait has ended -/
inductive Follows (c : CommandBot) (sender : Prefix) :
    (next : CommandNext) → next.Answer → CommandNext → Prop
  | done {next : CommandNext} {answer : next.Answer} : Follows c sender next answer .done
  | raised {next : CommandNext} {answer : next.Answer} (h : c.Unguarded sender next answer) :
    Follows c sender next answer .raised
  | claim {identity code : Str} {counter : Option ℤ}
    (h : matchCode c.hmacSha1 code c.now = .ok counter) :
    Follows c sender (.attempt identity code) (Answered.returned true : Answered Bool)
      (.claim counter)
  | grant {counter : ℤ} {session : Session}
    (valid : c.bot.sessions.watchedValid sender.render = true) :
    Follows c sender (.claim (some counter)) (Answered.returned true : Answered Bool)
      (.grant session)
  | revoke {session revoked : Session} {answer : Answered Bool} :
    Follows c sender (.grant session) answer (.revoke revoked)
  | opping {session : Session} (authorized : c.authorized sender = true)
    (valid : c.bot.sessions.watchedValid sender.render = true) :
    Follows c sender (.grant session) (Answered.returned true : Answered Bool) .opping

/-- The lines that a command queues after a wait: replies to its sender, the JOIN or PART of a
record that the write returned and that is news, and what makes the sender an operator where the
bot is one. -/
inductive Sends (c : CommandBot) (sender : Prefix) :
    (next : CommandNext) → next.Answer → Outgoing → Prop
  | reply {next : CommandNext} {answer : next.Answer} (message : Str) :
    Sends c sender next answer ⟨lit "PRIVMSG", [sender.nick], some message⟩
  | record {manager : ChannelManager} {record stored : ChannelRecord} {expected : Option Str}
    {value : Json} {line : IrcLine} (parsed : parseChannelRecord value = .ok stored)
    (among : line ∈ c.bot.manager.recordLines (c.link true) stored) :
    Sends c sender (.put manager record expected) (Answered.returned value : Answered Json)
      line.outgoing
  | op {f : Str} {runtime : ChannelRuntime} {member : ChannelMember}
    (mem : (f, runtime) ∈ c.bot.manager.channels) (opped : c.bot.isSelfOpped runtime = true)
    (found : c.member runtime sender.nick = some member)
    (same : member.ircPrefix.any fun p => sender.matchesPrefix p c.bot.manager.casemapping)
    (lower : c.bot.caps.isOpped member.modes = false) :
    Sends c sender .opping ()
      ⟨lit "MODE", [runtime.channel, [43, c.bot.caps.opMode], member.nick], none⟩

/-- A turn that queues only lines of `A` and goes on as `K` says -/
def Goes (s : SendLoop) (A : Outgoing → Prop) (K : CommandNext → Prop)
    (x : Command (IrcBot × CommandNext)) : Prop :=
  Triple (Within s A) x (fun r t => Within s A t ∧ K r.2) fun _ _ => False

section Goes

variable {A : Outgoing → Prop} {K : CommandNext → Prop} {bot : IrcBot} {next : CommandNext}

theorem goes_pure (h : K next) : Goes s A K (pure (bot, next)) := fun _ ht => ⟨ht, h⟩

theorem goes_reply {message : Str} (hA : A ⟨lit "PRIVMSG", [sender.nick], some message⟩)
    (h : K next) : Goes s A K (c.reply sender.nick message >>= fun _ => pure (bot, next)) :=
  (triple_reply_within hA).bind fun _ => goes_pure h

theorem goes_fail {message : Str} (hA : ∀ message, A ⟨lit "PRIVMSG", [sender.nick], some message⟩)
    (h : K .done) : Goes s A K (c.fail sender bot message) :=
  goes_reply (hA _) h

theorem goes_refuse (hA : ∀ message, A ⟨lit "PRIVMSG", [sender.nick], some message⟩)
    (h : K .done) : Goes s A K (c.refuse sender bot) :=
  goes_reply (hA _) h

end Goes

/-- The end of `channel_update` queues lines of the returned record, and replies. -/
theorem goes_channelUpdated {manager : ChannelManager} {record : ChannelRecord}
    {expected : Option Str} {stored : Json} {r : ChannelRecord}
    (hparse : parseChannelRecord stored = .ok r) :
    Goes s
      (c.Sends sender (.put manager record expected) (Answered.returned stored : Answered Json))
      (c.Follows sender (.put manager record expected) (Answered.returned stored : Answered Json))
      (c.channelUpdated sender record stored) := by
  rintro t ⟨earlier, hearlier, hsends⟩
  rw [channelUpdated, hparse]
  dsimp only
  obtain ⟨sends, error, ms, u, hexec, htakes, hms⟩ := exec_applyRecord c r t
  rw [exec_bind, hexec]
  have hwithin : Within s (c.Sends sender (.put manager record expected)
      (Answered.returned stored : Answered Json)) u := by
    refine ⟨_, hearlier.append htakes, fun m hm => ?_⟩
    rcases List.mem_append.mp hm with hm | hm
    · exact hsends m hm
    · rw [hms] at hm
      split_ifs at hm
      · cases hm
      · obtain ⟨line, hline, rfl⟩ := List.mem_map.mp hm
        cases sends with
        | false =>
          rw [ChannelManager.recordLines_refused rfl] at hline
          cases hline
        | true => exact .record hparse hline
  cases error with
  | none => exact goes_reply (.reply _) .done u hwithin
  | some message => exact goes_fail .reply .done u hwithin

/-- In a channel `auto_op` raises only where its line cannot be encoded. -/
theorem triple_autoOpIn_within {f : Str} {runtime : ChannelRuntime}
    (hmem : (f, runtime) ∈ c.bot.manager.channels) :
    Triple (Within s (c.Sends sender .opping ())) (c.autoOpIn sender runtime)
      (fun _ => Within s (c.Sends sender .opping ()))
      fun _ t => Within s (c.Sends sender .opping ()) t ∧ c.Unguarded sender .opping () := by
  intro t ht
  unfold autoOpIn
  split_ifs with hopped
  · exact ht
  · split
    · exact ht
    · rename_i member hfilter
      obtain ⟨hmember, hsame⟩ := Option.filter_eq_some_iff.mp hfilter
      split_ifs with hlower
      · exact ht
      · have hop := Sends.op hmem (by simpa using hopped) hmember hsame
          (Bool.eq_false_iff.mpr hlower)
        have hsend := keeps_send (c := c) hop t ht
        rw [exec_tryCatch]
        rcases hexec : exec (c.send (lit "MODE")
          [runtime.channel, [43, c.bot.caps.opMode], member.nick] none) t with ⟨e | _, u⟩ <;>
          rw [hexec] at hsend
        · cases e with
          | connection message => exact hsend
          | value message =>
            refine ⟨hsend, ?_⟩
            rw [exec_send] at hexec
            split at hexec
            · rename_i hformat
              exact .opping (List.mem_map_of_mem hmem) hmember hformat
            · split at hexec <;> cases hexec
        · exact hsend

/-- A turn does not raise: it queues lines that it may, and waits for what may follow. -/
theorem goes_resume (c : CommandBot) (sender : Prefix) (s : SendLoop) (next : CommandNext)
    {answer : next.Answer} (h : next.Fits mac network answer) :
    Goes s (c.Sends sender next answer) (c.Follows sender next answer)
      (c.resume sender next answer) := by
  cases next with
  | done => exact answer.elim
  | raised => exact answer.elim
  | attempt identity code =>
    cases answer with
    | returned allowed =>
      cases allowed with
      | false => exact goes_pure .done
      | true =>
        rw [resume, if_pos rfl]
        split
        · rename_i hcode
          exact goes_pure (.raised (.code hcode))
        · rename_i counter hcode
          exact goes_pure (.claim hcode)
    | failed message => exact goes_pure (.raised (.attempt fun _ => nofun))
    | raised => exact goes_pure (.raised (.attempt fun _ => nofun))
  | claim counter =>
    cases answer with
    | returned won =>
      rw [resume, claimed]
      dsimp only
      split_ifs with hall
      · simp only [Bool.and_eq_true] at hall
        obtain ⟨⟨hsome, rfl⟩, hvalid⟩ := hall
        obtain ⟨k, rfl⟩ := Option.isSome_iff_exists.mp hsome
        exact goes_pure (.grant hvalid)
      · exact goes_refuse .reply .done
    | failed message => exact goes_pure (.raised (.claim fun _ => nofun))
    | raised => exact goes_pure (.raised (.claim fun _ => nofun))
  | grant session =>
    cases answer with
    | returned written =>
      rw [resume, granted]
      dsimp only
      by_cases hall : (written && c.authorized sender &&
          c.bot.sessions.watchedValid sender.render) = true
      · rw [if_pos hall]
        simp only [Bool.and_eq_true] at hall
        obtain ⟨⟨rfl, hauthorized⟩, hvalid⟩ := hall
        exact goes_reply (.reply _) (.opping hauthorized hvalid)
      · rw [if_neg hall]
        split
        · exact goes_refuse .reply .done
        · exact goes_pure .revoke
    | failed message => exact goes_pure (.raised (.grant fun _ => nofun))
    | raised => exact goes_pure (.raised (.grant fun _ => nofun))
  | revoke session =>
    cases answer with
    | returned written => exact goes_refuse .reply .done
    | failed message => exact goes_pure (.raised (.revoke fun _ => nofun))
    | raised => exact goes_pure (.raised (.revoke fun _ => nofun))
  | opping =>
    have hloop : Triple (Within s (c.Sends sender .opping ())) (c.autoOp sender)
        (fun _ => Within s (c.Sends sender .opping ())) fun _ t =>
          Within s (c.Sends sender .opping ()) t ∧ c.Unguarded sender .opping () := by
      refine triple_forM (fun _ => Within s (c.Sends sender .opping ())) _
        fun done runtime rest hsplit => ?_
      have hruntime : runtime ∈ c.bot.manager.channels.map Prod.snd := by simp [hsplit]
      obtain ⟨⟨f, runtime⟩, hmem, rfl⟩ := List.mem_map.mp hruntime
      exact triple_autoOpIn_within hmem
    have hended : Triple (Within s (c.Sends sender .opping ())) (do
        c.autoOp sender
        return (c.bot, CommandNext.done)) (fun r t => Within s (c.Sends sender .opping ()) t ∧
          c.Follows sender .opping () r.2) fun _ t =>
          Within s (c.Sends sender .opping ()) t ∧ c.Unguarded sender .opping () :=
      Triple.bind hloop fun _ _ ht => ⟨ht, .done⟩
    exact hended.tryCatch fun _ _ ht => ⟨ht.1, .raised ht.2⟩
  | put manager record expected =>
    cases answer with
    | returned stored =>
      obtain ⟨v, horder⟩ := h
      obtain ⟨r, hparse, -, -⟩ := ChannelCall.channelOrder_eq_some horder
      exact goes_channelUpdated hparse
    | failed message => exact goes_fail .reply .done
    | raised => exact goes_pure (.raised .put)
  | status =>
    cases answer with
    | returned line => exact goes_reply (.reply _) .done
    | failed message => exact goes_fail .reply .done
    | raised => exact goes_pure (.raised .status)

theorem exec_resume (c : CommandBot) (sender : Prefix) {next : CommandNext} {answer : next.Answer}
    (h : next.Fits mac network answer) (s : SendLoop) :
    ∃ bot after ms t, exec (c.resume sender next answer) s = (.ok (bot, after), t) ∧
      s.Takes ms t ∧ (∀ m ∈ ms, c.Sends sender next answer m) ∧
      c.Follows sender next answer after := by
  have hrun := goes_resume c sender s next h s (within_start s _)
  rcases hexec : exec (c.resume sender next answer) s with ⟨e | ⟨bot, after⟩, t⟩ <;>
    rw [hexec] at hrun
  · exact hrun.elim
  · obtain ⟨⟨ms, htakes, hms⟩, hfollows⟩ := hrun
    exact ⟨bot, after, ms, t, rfl, htakes, hms, hfollows⟩

end CommandBot

/-! ## The turns of a command -/

/-- The lines are new in the queue, and nothing else changed. -/
def SendLoop.Queues (s : SendLoop) (lines : List (List Byte)) (t : SendLoop) : Prop :=
  t = { s with outbound := s.outbound ++ lines, queued := s.queued ++ lines }

/-- A turn: the bot as it then is, what ended the wait before it, and the lines that it queues -/
structure CommandTurn where
  bot : CommandBot
  answered : Option (Sigma CommandNext.Answer)
  lines : List (List Byte)

/-- The turns of the text of a sender so far, and what it now waits for. A turn meets any bot,
any queue and any end of its wait. -/
inductive CommandTurns (mac : Str → Str) (network : Str) (sender : Prefix) (text : Str) :
    List CommandTurn → CommandNext → Prop
  | dispatch (c : CommandBot) {s t : SendLoop} {next : CommandNext} {lines : List (List Byte)}
    (run : exec (c.dispatch sender text) s = (.ok next, t)) (queues : s.Queues lines t) :
    CommandTurns mac network sender text [⟨c, none, lines⟩] next
  | resume {turns : List CommandTurn} {next : CommandNext}
    (before : CommandTurns mac network sender text turns next) (c : CommandBot)
    {answer : next.Answer} (fits : next.Fits mac network answer) {s t : SendLoop} {bot : IrcBot}
    {after : CommandNext} {lines : List (List Byte)}
    (run : exec (c.resume sender next answer) s = (.ok (bot, after), t))
    (queues : s.Queues lines t) :
    CommandTurns mac network sender text (turns ++ [⟨c, some ⟨next, answer⟩, lines⟩]) after

namespace CommandTurn

/-- The text names the command at its first turn. -/
def Names (turn : CommandTurn) (text name : Str) (arguments : List Str) : Prop :=
  turn.answered = none ∧ parseCommand turn.bot.upper text = .ok (name, arguments)

/-- The turn after an attempt was allowed, whose code is that of a counter -/
def Matched (turn : CommandTurn) (code : Str) (counter : ℤ) : Prop :=
  (∃ identity, turn.answered =
      some ⟨.attempt identity code, (Answered.returned true : Answered Bool)⟩) ∧
    matchCode turn.bot.hmacSha1 code turn.bot.now = .ok (some counter)

/-- The turn after the claim of a counter was won, by a sender whose identity holds -/
def Claimed (turn : CommandTurn) (sender : Prefix) (counter : ℤ) : Prop :=
  turn.answered = some ⟨.claim (some counter), (Answered.returned true : Answered Bool)⟩ ∧
    turn.bot.bot.sessions.watchedValid sender.render = true

/-- The turn after the session was written, while it is authorized and the identity holds -/
def Granted (turn : CommandTurn) (sender : Prefix) : Prop :=
  (∃ session, turn.answered = some ⟨.grant session, (Answered.returned true : Answered Bool)⟩) ∧
    turn.bot.authorized sender = true ∧ turn.bot.bot.sessions.watchedValid sender.render = true

end CommandTurn

/-- An authorized sender asks for the record: by `JOIN` of its channel or by `PART`. -/
def Asked (sender : Prefix) (text : Str) (turns : List CommandTurn) (record : ChannelRecord) :
    Prop :=
  ∃ turn ∈ turns, turn.bot.authorized sender = true ∧
    ((record.present = true ∧ ∃ words, turn.Names text (lit "JOIN") (record.channel :: words)) ∨
      (record.present = false ∧ turn.Names text (lit "PART") [record.channel]))

/-- The text is an `AUTH` whose code is that of the counter, in an attempt that was allowed. -/
def Proved (text : Str) (turns : List CommandTurn) (counter : ℤ) : Prop :=
  ∃ code, (∃ turn ∈ turns, turn.Names text (lit "AUTH") [code]) ∧
    ∃ turn ∈ turns, turn.Matched code counter

/-- The sender proved a counter, won its claim, and was granted a session that was written. -/
def Authenticated (sender : Prefix) (text : Str) (turns : List CommandTurn) : Prop :=
  (∃ counter, Proved text turns counter ∧ ∃ turn ∈ turns, turn.Claimed sender counter) ∧
    ∃ turn ∈ turns, turn.Granted sender

/-- The turn applies a record that came back from a write that the sender asked for: that of a
channel with the same key, which is news to the bot. -/
structure CommandTurn.Applies (mac : Str → Str) (sender : Prefix) (text : Str)
    (turns : List CommandTurn) (turn : CommandTurn) (stored : ChannelRecord) : Prop where
  asked : ∃ manager record expected value, turn.answered =
      some ⟨.put manager record expected, (Answered.returned value : Answered Json)⟩ ∧
    parseChannelRecord value = .ok stored ∧ Asked sender text turns record ∧
    channelKey mac stored.channel = channelKey mac record.channel
  news : turn.bot.bot.manager.applies stored = true

/-- The lines of a turn: replies to the sender; at the first turn those of an authorized command;
after the write of a `JOIN` or `PART` the JOIN or PART of the returned record; and after an
`AUTH` that succeeded what makes the sender an operator where the bot is one. -/
inductive Warranted (mac : Str → Str) (sender : Prefix) (text : Str) (turns : List CommandTurn)
    (turn : CommandTurn) : Outgoing → Prop
  | reply (message : Str) :
    Warranted mac sender text turns turn ⟨lit "PRIVMSG", [sender.nick], some message⟩
  | command {name : Str} {arguments : List Str} {m : Outgoing}
    (names : turn.Names text name arguments) (authorized : turn.bot.authorized sender = true)
    (permits : turn.bot.Permits name arguments m) : Warranted mac sender text turns turn m
  | join {stored : ChannelRecord} {key : Option Str}
    (applies : turn.Applies mac sender text turns stored) (present : stored.present = true)
    (ready : (turn.bot.link true).ready = true) :
    Warranted mac sender text turns turn (IrcLine.join stored.channel key).outgoing
  | part {stored : ChannelRecord} (applies : turn.Applies mac sender text turns stored)
    (absent : stored.present = false) :
    Warranted mac sender text turns turn (IrcLine.part stored.channel).outgoing
  | op {f : Str} {runtime : ChannelRuntime} {member : ChannelMember}
    (authenticated : Authenticated sender text turns)
    (mem : (f, runtime) ∈ turn.bot.bot.manager.channels)
    (opped : turn.bot.bot.isSelfOpped runtime = true)
    (found : turn.bot.member runtime sender.nick = some member)
    (same : member.ircPrefix.any fun p =>
      sender.matchesPrefix p turn.bot.bot.manager.casemapping)
    (lower : turn.bot.bot.caps.isOpped member.modes = false) :
    Warranted mac sender text turns turn
      ⟨lit "MODE", [runtime.channel, [43, turn.bot.bot.caps.opMode], member.nick], none⟩

section Turns

variable {mac : Str → Str} {network : Str} {sender : Prefix} {text : Str}
  {turns turns' : List CommandTurn} {turn : CommandTurn} {next : CommandNext} {m : Outgoing}
  {record : ChannelRecord} {counter : ℤ}

theorem Asked.mono (h : Asked sender text turns record) (hsub : turns ⊆ turns') :
    Asked sender text turns' record := by
  obtain ⟨turn, hturn, hasked⟩ := h
  exact ⟨turn, hsub hturn, hasked⟩

theorem Proved.mono (h : Proved text turns counter) (hsub : turns ⊆ turns') :
    Proved text turns' counter := by
  obtain ⟨code, ⟨first, hfirst, hnames⟩, turn, hturn, hmatched⟩ := h
  exact ⟨code, ⟨first, hsub hfirst, hnames⟩, turn, hsub hturn, hmatched⟩

theorem Authenticated.mono (h : Authenticated sender text turns) (hsub : turns ⊆ turns') :
    Authenticated sender text turns' := by
  obtain ⟨⟨counter, hproved, turn, hturn, hclaimed⟩, turn', hturn', hgranted⟩ := h
  exact ⟨⟨counter, hproved.mono hsub, turn, hsub hturn, hclaimed⟩, turn', hsub hturn', hgranted⟩

theorem CommandTurn.Applies.mono (h : turn.Applies mac sender text turns record)
    (hsub : turns ⊆ turns') : turn.Applies mac sender text turns' record := by
  obtain ⟨⟨manager, wanted, expected, value, hanswered, hparse, hasked, hkey⟩, hnews⟩ := h
  exact ⟨⟨manager, wanted, expected, value, hanswered, hparse, hasked.mono hsub, hkey⟩, hnews⟩

theorem Warranted.mono (h : Warranted mac sender text turns turn m) (hsub : turns ⊆ turns') :
    Warranted mac sender text turns' turn m := by
  cases h with
  | reply message => exact .reply message
  | command names authorized permits => exact .command names authorized permits
  | join applies present ready => exact .join (applies.mono hsub) present ready
  | part applies absent => exact .part (applies.mono hsub) absent
  | op authenticated mem opped found same lower =>
    exact .op (authenticated.mono hsub) mem opped found same lower

/-- The new lines are those of the messages that went to the queue. -/
theorem SendLoop.Takes.encodes {s t : SendLoop} {ms : List Outgoing} {lines : List (List Byte)}
    (h : s.Takes ms t) (hqueues : s.Queues lines t) {encoded : List Byte} (hmem : encoded ∈ lines) :
    ∃ m ∈ ms, m.Encodes encoded := by
  obtain ⟨lines', hencodes, rfl⟩ := h
  have hlines : lines' = lines := List.append_cancel_left (congrArg SendLoop.outbound hqueues)
  subst hlines
  clear hqueues
  induction hencodes with
  | nil => cases hmem
  | cons hm _ ih =>
    rcases List.mem_cons.mp hmem with rfl | hmem
    · exact ⟨_, List.mem_cons_self, hm⟩
    · obtain ⟨m, hmem, hm⟩ := ih hmem
      exact ⟨m, List.mem_cons_of_mem _ hmem, hm⟩

/-- What the turns so far make of the next wait -/
def Stands (sender : Prefix) (text : Str) (turns : List CommandTurn) : CommandNext → Prop
  | .attempt _ code => ∃ turn ∈ turns, turn.Names text (lit "AUTH") [code]
  | .claim counter => ∀ k, counter = some k → Proved text turns k
  | .grant _ => ∃ k, Proved text turns k ∧ ∃ turn ∈ turns, turn.Claimed sender k
  | .opping => Authenticated sender text turns
  | .put _ record _ => Asked sender text turns record
  | .done | .raised | .revoke _ | .status => True

theorem SendLoop.Queues.eq_nil {s : SendLoop} {lines : List (List Byte)} (h : s.Queues lines s) :
    lines = [] :=
  List.append_cancel_left ((congrArg SendLoop.outbound h).symm.trans (List.append_nil _).symm)

theorem dispatch_silent {c : CommandBot} {s t : SendLoop} {lines : List (List Byte)}
    (hunauthorized : c.authorized sender = false)
    (hother : ∀ arguments, parseCommand c.upper text ≠ .ok (lit "AUTH", arguments))
    (hrun : exec (c.dispatch sender text) s = (.ok next, t)) (hqueues : s.Queues lines t) :
    next = .done ∧ lines = [] := by
  rw [CommandBot.exec_dispatch_unauthorized hunauthorized hother] at hrun
  obtain ⟨hnext, rfl⟩ := Prod.mk.inj hrun
  exact ⟨(Except.ok.inj hnext).symm, hqueues.eq_nil⟩

/-- The first turn -/
theorem warranted_dispatch {c : CommandBot} {s t : SendLoop} {lines : List (List Byte)}
    (hrun : exec (c.dispatch sender text) s = (.ok next, t)) (hqueues : s.Queues lines t) :
    (∀ encoded ∈ lines, ∃ m : Outgoing, m.Encodes encoded ∧
      Warranted mac sender text [⟨c, none, lines⟩] ⟨c, none, lines⟩ m) ∧
    Stands sender text [⟨c, none, lines⟩] next := by
  obtain ⟨name, arguments, next', ms, t', hexec, htakes, hms, hawaits, hparse⟩ :=
    CommandBot.exec_dispatch c sender text s
  obtain ⟨hnext, rfl⟩ := Prod.mk.inj (hrun.symm.trans hexec)
  obtain rfl := Except.ok.inj hnext
  rcases hparse with ⟨hparse, hmay⟩ | ⟨rfl, hnone⟩
  · refine ⟨fun encoded hencoded => ?_, ?_⟩
    · obtain ⟨m, hm, hencodes⟩ := htakes.encodes hqueues hencoded
      rcases hms m hm with ⟨message, rfl⟩ | hpermits
      · exact ⟨_, hencodes, .reply message⟩
      · exact ⟨m, hencodes,
          .command ⟨rfl, hparse⟩ (hmay.resolve_right hpermits.ne_auth) hpermits⟩
    · cases hawaits with
      | done | status => trivial
      | attempt => exact ⟨_, List.mem_singleton_self _, rfl, hparse⟩
      | join named present =>
        exact ⟨_, List.mem_singleton_self _, hmay.resolve_right (by decide),
          .inl ⟨present, _, rfl, named ▸ hparse⟩⟩
      | part named absent =>
        exact ⟨_, List.mem_singleton_self _, hmay.resolve_right (by decide),
          .inr ⟨absent, rfl, named ▸ hparse⟩⟩
  · refine ⟨fun encoded hencoded => ?_, trivial⟩
    obtain ⟨m, hm, hencodes⟩ := htakes.encodes hqueues hencoded
    obtain ⟨message, rfl⟩ := (hms m hm).resolve_right (hnone m)
    exact ⟨_, hencodes, .reply message⟩

/-- A further turn -/
theorem warranted_resume {c : CommandBot} {answer : next.Answer} {s t : SendLoop} {bot : IrcBot}
    {after : CommandNext} {lines : List (List Byte)} (hstands : Stands sender text turns next)
    (hfits : next.Fits mac network answer)
    (hrun : exec (c.resume sender next answer) s = (.ok (bot, after), t))
    (hqueues : s.Queues lines t) :
    (∀ encoded ∈ lines, ∃ m : Outgoing, m.Encodes encoded ∧
      Warranted mac sender text (turns ++ [⟨c, some ⟨next, answer⟩, lines⟩])
        ⟨c, some ⟨next, answer⟩, lines⟩ m) ∧
    Stands sender text (turns ++ [⟨c, some ⟨next, answer⟩, lines⟩]) after := by
  obtain ⟨bot', after', ms, t', hexec, htakes, hms, hfollows⟩ :=
    CommandBot.exec_resume c sender hfits s
  obtain ⟨hafter, rfl⟩ := Prod.mk.inj (hrun.symm.trans hexec)
  obtain ⟨-, rfl⟩ := Prod.mk.inj (Except.ok.inj hafter)
  have hsub : turns ⊆ turns ++ [⟨c, some ⟨next, answer⟩, lines⟩] := List.subset_append_left _ _
  have hlast : (⟨c, some ⟨next, answer⟩, lines⟩ : CommandTurn) ∈
      turns ++ [⟨c, some ⟨next, answer⟩, lines⟩] := by simp
  refine ⟨fun encoded hencoded => ?_, ?_⟩
  · obtain ⟨m, hm, hencodes⟩ := htakes.encodes hqueues hencoded
    refine ⟨m, hencodes, ?_⟩
    cases hms m hm with
    | reply message => exact .reply message
    | record parsed among =>
      obtain ⟨revision, horder⟩ := hfits
      obtain ⟨stored, hparse, -, hkey⟩ := ChannelCall.channelOrder_eq_some horder
      obtain rfl := Except.ok.inj (hparse.symm.trans parsed)
      obtain ⟨happlies, hline⟩ := ChannelManager.mem_recordLines among
      have hasked := Asked.mono hstands hsub
      rcases hline with ⟨hpresent, hready, key, rfl⟩ | ⟨habsent, rfl⟩
      · exact .join ⟨⟨_, _, _, _, rfl, hparse, hasked, hkey⟩, happlies⟩ hpresent hready
      · exact .part ⟨⟨_, _, _, _, rfl, hparse, hasked, hkey⟩, happlies⟩ habsent
    | op mem opped found same lower =>
      exact .op (Authenticated.mono hstands hsub) mem opped found same lower
  · cases hfollows with
    | done | raised | revoke => trivial
    | claim hcode =>
      rintro k rfl
      obtain ⟨first, hfirst, hnames⟩ := hstands
      exact ⟨_, ⟨first, hsub hfirst, hnames⟩, _, hlast, ⟨_, rfl⟩, hcode⟩
    | grant valid => exact ⟨_, (hstands _ rfl).mono hsub, _, hlast, rfl, valid⟩
    | opping authorized valid =>
      obtain ⟨k, hproved, turn, hturn, hclaimed⟩ := hstands
      exact ⟨⟨k, hproved.mono hsub, turn, hsub hturn, hclaimed⟩, _, hlast, ⟨_, rfl⟩, authorized,
        valid⟩

/-- Every line of a command is warranted, and so is what it waits for. -/
theorem CommandTurns.warranted (h : CommandTurns mac network sender text turns next) :
    (∀ turn ∈ turns, ∀ encoded ∈ turn.lines, ∃ m : Outgoing, m.Encodes encoded ∧
      Warranted mac sender text turns turn m) ∧ Stands sender text turns next := by
  induction h with
  | dispatch c run queues =>
    obtain ⟨hlines, hstands⟩ := warranted_dispatch run queues
    refine ⟨fun turn hturn => ?_, hstands⟩
    obtain rfl := List.mem_singleton.mp hturn
    exact hlines
  | resume before c fits run queues ih =>
    obtain ⟨hlines, hstands⟩ := warranted_resume ih.2 fits run queues
    refine ⟨fun turn hturn => ?_, hstands⟩
    rcases List.mem_append.mp hturn with hturn | hturn
    · intro encoded hencoded
      obtain ⟨m, hencodes, hm⟩ := ih.1 turn hturn encoded hencoded
      exact ⟨m, hencodes, hm.mono (List.subset_append_left _ _)⟩
    · obtain rfl := List.mem_singleton.mp hturn
      exact hlines

/-- How many more turns a wait leads to at most -/
def CommandNext.left : CommandNext → ℕ
  | .done | .raised => 0
  | .revoke _ | .opping | .put _ _ _ | .status => 1
  | .grant _ => 2
  | .claim _ => 3
  | .attempt _ _ => 4

theorem CommandBot.Follows.left_lt {c : CommandBot} {answer : next.Answer} {after : CommandNext}
    (h : c.Follows sender next answer after) : after.left < next.left := by
  have hwaits : 0 < next.left := by
    cases next with
    | done | raised => exact answer.elim
    | _ => simp [CommandNext.left]
  cases h with
  | done | raised => exact hwaits
  | _ => simp [CommandNext.left]

/-- A command is over after at most five turns. -/
theorem CommandTurns.length_left (h : CommandTurns mac network sender text turns next) :
    turns.length + next.left ≤ 5 := by
  induction h with
  | @dispatch c s t next lines run queues =>
    have hleft : next.left ≤ 4 := by cases next <;> simp [CommandNext.left]
    rw [List.length_singleton]
    omega
  | @resume turns next before c answer fits s t bot after lines run queues ih =>
    obtain ⟨bot', after', ms, t', hexec, -, -, hfollows⟩ :=
      CommandBot.exec_resume c sender fits s
    obtain ⟨-, rfl⟩ := Prod.mk.inj (Except.ok.inj (Prod.mk.inj (run.symm.trans hexec)).1)
    have hleft := hfollows.left_lt
    rw [List.length_append, List.length_singleton]
    omega

/-- Where the first turn is silent, there is no other. -/
theorem CommandTurns.silent (h : CommandTurns mac network sender text turns next)
    (hturn : turn ∈ turns) (hfirst : turn.answered = none)
    (hunauthorized : turn.bot.authorized sender = false)
    (hother : ∀ arguments, ¬ turn.Names text (lit "AUTH") arguments) :
    turns = [turn] ∧ turn.lines = [] ∧ next = .done := by
  induction h with
  | dispatch c run queues =>
    obtain rfl := List.mem_singleton.mp hturn
    obtain ⟨hnext, hlines⟩ := dispatch_silent hunauthorized
      (fun arguments hparse => hother arguments ⟨rfl, hparse⟩) run queues
    exact ⟨rfl, hlines, hnext⟩
  | @resume turns next before c answer fits s t bot after lines run queues ih =>
    rcases List.mem_append.mp hturn with hturn | hturn
    · obtain ⟨-, -, rfl⟩ := ih hturn
      exact answer.elim
    · obtain rfl := List.mem_singleton.mp hturn
      cases hfirst

/-- What a command raises out of `dispatch` comes from the wait before its last turn. -/
theorem CommandTurns.raised (h : CommandTurns mac network sender text turns .raised) :
    ∃ earlier c before answer lines, turns = earlier ++ [⟨c, some ⟨before, answer⟩, lines⟩] ∧
      c.Unguarded sender before answer := by
  cases h with
  | @dispatch c s t _ lines run queues =>
    obtain ⟨name, arguments, next, ms, t', hexec, -, -, hawaits, -⟩ :=
      CommandBot.exec_dispatch c sender text s
    obtain rfl := Except.ok.inj (Prod.mk.inj (run.symm.trans hexec)).1
    cases hawaits
  | @resume turns next before c answer fits s t bot _ lines run queues =>
    obtain ⟨bot', after', ms, t', hexec, -, -, hfollows⟩ := CommandBot.exec_resume c sender fits s
    obtain ⟨-, rfl⟩ := Prod.mk.inj (Except.ok.inj (Prod.mk.inj (run.symm.trans hexec)).1)
    cases hfollows with
    | raised hunguarded => exact ⟨turns, c, next, answer, lines, rfl, hunguarded⟩

/-- A command over all its turns, whatever happens to the bot between them. Each of its lines is
warranted: a reply to its sender, a line of an authorized command on a channel where the bot is
an operator, the JOIN or PART of a record that an authorized `JOIN` or `PART` asked for, or what
makes the sender an operator after its `AUTH` was granted a session. Without a session every
text but `AUTH` is ignored. Every turn ends, up to the first wait none raises, and the command
is over after at most five. -/
theorem commands_contained (h : CommandTurns mac network sender text turns next) :
    (∀ turn ∈ turns, ∀ encoded ∈ turn.lines, ∃ m : Outgoing, m.Encodes encoded ∧
      Warranted mac sender text turns turn m) ∧
    (∀ turn ∈ turns, turn.answered = none → turn.bot.authorized sender = false →
      (∀ arguments, ¬ turn.Names text (lit "AUTH") arguments) →
      turns = [turn] ∧ turn.lines = [] ∧ next = .done) ∧
    (next = .raised → ∃ earlier c before answer lines,
      turns = earlier ++ [⟨c, some ⟨before, answer⟩, lines⟩] ∧ c.Unguarded sender before answer) ∧
    turns.length ≤ 5 ∧
    (∀ c s, ∃ first lines t, exec (CommandBot.dispatch c sender text) s = (.ok first, t) ∧
      s.Queues lines t ∧ CommandTurns mac network sender text [⟨c, none, lines⟩] first) ∧
    ∀ c (answer : next.Answer) s, next.Fits mac network answer → ∃ bot after lines t,
      exec (CommandBot.resume c sender next answer) s = (.ok (bot, after), t) ∧ s.Queues lines t ∧
      CommandTurns mac network sender text (turns ++ [⟨c, some ⟨next, answer⟩, lines⟩]) after := by
  refine ⟨h.warranted.1, fun turn hturn hfirst hunauthorized hother =>
    h.silent hturn hfirst hunauthorized hother, ?_, ?_, fun c s => ?_, fun c answer s hfits => ?_⟩
  · rintro rfl
    exact h.raised
  · have hleft := h.length_left
    omega
  · obtain ⟨-, -, first, ms, t, hexec, ⟨lines, -, hqueues⟩, -, -, -⟩ :=
      CommandBot.exec_dispatch c sender text s
    exact ⟨first, lines, t, hexec, hqueues, .dispatch c hexec hqueues⟩
  · obtain ⟨bot, after, ms, t, hexec, ⟨lines, -, hqueues⟩, -, -⟩ :=
      CommandBot.exec_resume c sender hfits s
    exact ⟨bot, after, lines, t, hexec, hqueues, h.resume c hfits hexec hqueues⟩

end Turns

/-- A bot on no channel, with a session of `a!u@h` -/
def sampleJoiner : CommandBot where
  bot := ⟨.init, .initial, lit "B", true, some ⟨lit "B", some (lit "u"), some (lit "g")⟩,
    { SessionSync.init with
      authorizer := Authorizer.store ⟨defaultCasemapping, []⟩
        ⟨9, lit "x", lit "a!u@h", false, 1, []⟩ }⟩
  registry := ⟨60, []⟩
  connected := true
  botId := lit "x"
  channelModes := []
  modes := fun _ => []
  limit := fun _ => none
  late := false
  now := 0
  suffix := List.replicate 32 97
  scope := sampleScope
  issuer := lit "x"
  hmacSha1 := fun _ => Vector.replicate 20 0
  upper := asciiUpperCase
  fold := id
  unencodable := []

def sampleSender : Prefix := ⟨lit "a", some (lit "u"), some (lit "h")⟩

def CommandNext.isDone : CommandNext → Bool
  | .done => true
  | _ => false

/-- Whether the command waits for its record's write and, once the record is stored, ends with a
JOIN of `#c` queued -/
def sampleJoins : CommandNext → Bool
  | .put manager record expected =>
    let stored := signedRecord sampleMac (lit "net") record
    let answer : (CommandNext.put manager record expected).Answer :=
      (Answered.returned stored : Answered Json)
    let resumed := exec (sampleJoiner.resume sampleSender (.put manager record expected) answer)
      (SendLoop.init 0)
    (channelOrder sampleMac (lit "net") (channelKey sampleMac record.channel) stored).isSome &&
      resumed.1.toOption.any (fun after => after.2.isDone) &&
      resumed.2.outbound.any fun encoded =>
        decide (formatMessage (lit "JOIN") [lit "#c"] none = .ok encoded)
  | _ => false

/-- `JOIN #c`: its record is written, and the bot joins. -/
theorem commands_contained_join : ∃ turns turn encoded,
    CommandTurns sampleMac (lit "net") sampleSender (lit "JOIN #c") turns .done ∧ turn ∈ turns ∧
    encoded ∈ turn.lines ∧ (IrcLine.join (lit "#c") none).outgoing.Encodes encoded ∧
    ∃ m : Outgoing, m.Encodes encoded ∧
      Warranted sampleMac sampleSender (lit "JOIN #c") turns turn m := by
  have hjoins : (exec (sampleJoiner.dispatch sampleSender (lit "JOIN #c"))
      (SendLoop.init 0)).1.toOption.any sampleJoins = true := by decide +kernel
  obtain ⟨-, -, first, -, t, hexec, ⟨lines, -, hqueues⟩, -, -, -⟩ :=
    CommandBot.exec_dispatch sampleJoiner sampleSender (lit "JOIN #c") (SendLoop.init 0)
  rw [hexec] at hjoins
  cases first with
  | put manager record expected =>
    simp only [Except.toOption, Option.any_some, sampleJoins, Bool.and_eq_true] at hjoins
    obtain ⟨⟨horder, hdone⟩, hline⟩ := hjoins
    have hfits : (CommandNext.put manager record expected).Fits sampleMac (lit "net")
        (Answered.returned (signedRecord sampleMac (lit "net") record) : Answered Json) :=
      Option.isSome_iff_exists.mp horder
    obtain ⟨bot, after, -, u, hresume, ⟨joined, -, hqueues'⟩, -, -⟩ :=
      CommandBot.exec_resume sampleJoiner sampleSender hfits (SendLoop.init 0)
    rw [hresume] at hdone hline
    have hrun := (CommandTurns.dispatch sampleJoiner hexec hqueues).resume sampleJoiner hfits
      hresume hqueues'
    cases after with
    | done =>
      obtain ⟨encoded, hmem, hencodes⟩ := List.any_eq_true.mp hline
      have hjoined : encoded ∈ joined := by simpa [hqueues', SendLoop.init] using hmem
      have hjoin : formatMessage (lit "JOIN") [lit "#c"] none = .ok encoded :=
        of_decide_eq_true hencodes
      exact ⟨_, _, encoded, hrun, List.mem_append_right _ (List.mem_singleton_self _), hjoined,
        hjoin, (commands_contained hrun).1 _
          (List.mem_append_right _ (List.mem_singleton_self _)) encoded hjoined⟩
    | _ => cases hdone
  | _ => cases hjoins

end Botnats
