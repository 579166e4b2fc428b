import Botnats.IrcEvents
import Botnats.IrcLines
import Botnats.Machine

/-!
# Getting the configured nickname back

A bot that had to register under another nickname watches the configured one: by MONITOR
where the server has it, else by asking every few seconds. A notice that the nickname is free
may cross a line of the bot, a line of another user may come first, and services may rename
the bot at any time. The server answers every `MONITOR +` with the state of its target.

The watch is followed over one registration. Of the ISUPPORT tokens MONITOR alone is read.
-/
namespace Botnats

/-- The nickname watch, with the fields of the bot that it reads. `polling` tells that an
`ison_poll_loop` sleeps, `starting` counts the tasks of `monitor_nick` that have not run. -/
structure NickWatch where
  casemapping : Casemapping
  desiredNick : Str
  currentNick : Str
  registered : Bool
  monitor : Bool
  polling : Bool
  starting : ℕ

/-- `NICK name`, `MONITOR + target`, `MONITOR - target` and `ISON target` -/
inductive NickLine
  | nick (name : Str)
  | monitorAdd (target : Str)
  | monitorRemove (target : Str)
  | ison (target : Str)

def NickLine.target : NickLine → Str
  | .nick name => name
  | .monitorAdd target => target
  | .monitorRemove target => target
  | .ison target => target

namespace NickWatch

/-- `caps.fold` -/
def fold (s : NickWatch) (nick : Str) : Str := casefold nick s.casemapping

/-- The bot has the desired nickname, as far as it knows. -/
def reclaimed (s : NickWatch) : Bool := s.fold s.currentNick = s.fold s.desiredNick

/-- `start_nick_watch` -/
def startNickWatch (s : NickWatch) : NickWatch :=
  if s.reclaimed then { s with polling := false }
  else if s.monitor then { s with polling := false, starting := s.starting + 1 }
  else { s with polling := true }

/-- `stop_nick_watch_async` -/
def stopNickWatchAsync (s : NickWatch) : NickWatch × List NickLine :=
  ({ s with polling := false }, if s.monitor then [.monitorRemove s.desiredNick] else [])

/-- `monitor_nick` -/
def monitorNick (s : NickWatch) : NickWatch × List NickLine :=
  ({ s with starting := s.starting - 1 }, [.monitorAdd s.desiredNick])

/-- `ison_poll_loop`, from the end of its sleep to the next -/
def isonPoll (s : NickWatch) : NickWatch × List NickLine :=
  if s.reclaimed then ({ s with polling := false }, []) else (s, [.ison s.desiredNick])

/-- `try_nick_reclaim` -/
def tryNickReclaim (s : NickWatch) : List NickLine :=
  if s.reclaimed then [] else [.nick s.desiredNick]

/-- `handle_monitor_offline` -/
def handleMonitorOffline (s : NickWatch) (message : IRCMessage) : NickWatch × List NickLine :=
  match message.params.getLast? with
  | none => (s, [])
  | some targets =>
    if (targets.splitOn 44).any fun target => s.fold (partition 33 target).1 = s.fold s.desiredNick
    then (s, s.tryNickReclaim) else (s, [])

/-- `handle_ison_reply` -/
def handleIsonReply (s : NickWatch) (message : IRCMessage) : NickWatch × List NickLine :=
  match message.params.getLast? with
  | none => (s, [])
  | some nicks =>
    if (splitWords nicks).any fun nick => s.fold nick = s.fold s.desiredNick then (s, [])
    else (s, s.tryNickReclaim)

/-- `handle_isupport` of one token -/
def applyIsupport (u : UpperCase) (s : NickWatch) (token : Str) : NickWatch :=
  match (partition 61 token).1 with
  | 45 :: name => if u.upper name = lit "MONITOR" then { s with monitor := false } else s
  | name => if u.upper name = lit "MONITOR" then { s with monitor := true }.startNickWatch else s

/-- `handle_isupport` -/
def handleIsupport (u : UpperCase) (s : NickWatch) (message : IRCMessage) : NickWatch :=
  let tokens := message.params.tail
  let tokens := if (tokens.getLast?.any fun token => 32 ∈ token) then tokens.dropLast else tokens
  tokens.foldl (applyIsupport u) s

/-- `handle_welcome`, after `track_registration` -/
def handleWelcome (s : NickWatch) (message : IRCMessage) : NickWatch :=
  { s with
    currentNick := message.params.headD s.currentNick
    registered := true }.startNickWatch

/-- `track_registration` of a NICK message -/
def track (casemapping : Casemapping) (currentNick : Str) (message : IRCMessage) : Str :=
  match message.ircPrefix, message.params.getLast? with
  | some p, some newNick =>
    if message.command = lit "NICK" ∧ casefold p.nick casemapping = casefold currentNick casemapping
    then newNick else currentNick
  | _, _ => currentNick

/-- `handle_nick`, as far as it goes on with the watch -/
def handleNick (s : NickWatch) (message : IRCMessage) : NickWatch × List NickLine :=
  match message.ircPrefix, message.params.getLast? with
  | some _, some newNick =>
    if s.fold newNick = s.fold s.currentNick then
      if s.fold newNick = s.fold s.desiredNick then s.stopNickWatchAsync
      else if s.registered then (s.startNickWatch, []) else (s, [])
    else (s, [])
  | _, _ => (s, [])

/-- The client tracks its nick, then `on_irc_message` routes the message. -/
def onMessage (u : UpperCase) (s : NickWatch) (message : IRCMessage) : NickWatch × List NickLine :=
  if message.command = lit "001" then (s.handleWelcome message, [])
  else if message.command = lit "005" then (s.handleIsupport u message, [])
  else if message.command = lit "303" then s.handleIsonReply message
  else if message.command = lit "731" then s.handleMonitorOffline message
  else if message.command = lit "NICK" then
    { s with currentNick := track s.casemapping s.currentNick message }.handleNick message
  else (s, [])

end NickWatch

/-! ## The server and the other users -/

/-- A bot and its server: the lines and the messages on their way, the nick that the server
has for the bot, the other user that has the desired one, whether the bot monitors it, and
whether a line of the bot was refused, by its own queue or by the server. -/
structure NickWorld where
  watch : NickWatch
  outbound : List NickLine
  inbound : List IRCMessage
  nick : Str
  holder : Option Str
  monitored : Bool
  refused : Bool

/-- `poll`, `monitor` and `hear` are the bot's, `sends` tells whether its queue takes a line.
`serve` is the server's answer to a line; it may refuse a nickname that is free. It may
`advertise` MONITOR and `rename` the bot. Another user may `take` the desired nickname and
`leave` it. -/
inductive NickStep
  | poll (sends : Bool)
  | monitor (sends : Bool)
  | hear (sends : Bool)
  | serve (grants : Bool)
  | advertise
  | rename (name : Str) (noticeFirst : Bool)
  | take (name : Str)
  | leave

namespace NickWorld

/-- After 001 under a nick -/
def init (casemapping : Casemapping) (desiredNick nick : Str) (holder : Option Str) : NickWorld :=
  let fresh : NickWatch := ⟨casemapping, desiredNick, desiredNick, false, false, false, 0⟩
  ⟨fresh.handleWelcome ⟨lit "001", [nick], none⟩, [], [], nick, holder, false, false⟩

def fold (w : NickWorld) (nick : Str) : Str := w.watch.fold nick

/-- The bot has the desired nickname. -/
def Owns (w : NickWorld) : Prop := w.fold w.nick = w.fold w.watch.desiredNick

instance (w : NickWorld) : Decidable w.Owns := inferInstanceAs (Decidable (_ = _))

/-- The bot goes on, and its lines are queued or refused. -/
def submit (w : NickWorld) (sends : Bool) (r : NickWatch × List NickLine) : NickWorld :=
  { w with
    watch := r.1
    outbound := if sends then w.outbound ++ r.2 else w.outbound
    refused := w.refused || (!sends && !r.2.isEmpty) }

def tell (w : NickWorld) (messages : List IRCMessage) : NickWorld :=
  { w with inbound := w.inbound ++ messages }

def offline (w : NickWorld) : IRCMessage := ⟨lit "731", [w.nick, w.watch.desiredNick], none⟩

def nickMessage (w : NickWorld) (name : Str) : IRCMessage :=
  ⟨lit "NICK", [name], some ⟨w.nick, none, none⟩⟩

/-- The server obeys a line. -/
def obey (w : NickWorld) (grants : Bool) : NickLine → NickWorld
  | .nick name =>
    if w.nick = name then w
    else if w.holder.isSome then w.tell [⟨lit "433", [w.nick, name, lit "in use"], none⟩]
    else if grants then { w with nick := name }.tell [w.nickMessage name]
    else { w with refused := true }.tell [⟨lit "437", [w.nick, name, lit "unavailable"], none⟩]
  | .monitorAdd target =>
    let w := { w with monitored := true }
    if w.holder.isSome ∨ w.Owns then w.tell [⟨lit "730", [w.nick, target], none⟩]
    else w.tell [w.offline]
  | .monitorRemove _ => { w with monitored := false }
  | .ison _ =>
    let online := w.holder.getD (if w.Owns then w.nick else [])
    w.tell [⟨lit "303", [w.nick, online], none⟩]

/-- The messages that tell the bot of a new nick -/
def renameMessages (w : NickWorld) (name : Str) (noticeFirst : Bool) : List IRCMessage :=
  if w.monitored ∧ w.Owns ∧ w.fold name ≠ w.fold w.watch.desiredNick then
    if noticeFirst then [w.offline, w.nickMessage name] else [w.nickMessage name, w.offline]
  else [w.nickMessage name]

def step (u : UpperCase) (w : NickWorld) : NickStep → Option NickWorld
  | .poll sends => if w.watch.polling then some (w.submit sends w.watch.isonPoll) else none
  | .monitor sends =>
    if 0 < w.watch.starting then some (w.submit sends w.watch.monitorNick) else none
  | .hear sends =>
    match w.inbound with
    | [] => none
    | message :: rest =>
      some ({ w with inbound := rest }.submit sends (w.watch.onMessage u message))
  | .serve grants =>
    match w.outbound with
    | [] => none
    | line :: rest => some ({ w with outbound := rest }.obey grants line)
  | .advertise =>
    some (w.tell [⟨lit "005", [w.nick, lit "MONITOR=100", lit "are supported by this server"], none⟩])
  | .rename name noticeFirst =>
    if name = w.nick ∨ w.fold name = w.fold w.watch.desiredNick ∧ w.holder.isSome then none
    else some ({ w with nick := name }.tell (w.renameMessages name noticeFirst))
  | .take name =>
    if w.holder = none ∧ ¬ w.Owns ∧ w.fold name = w.fold w.watch.desiredNick then
      some { w with holder := some name }
    else none
  | .leave =>
    if w.holder = none then none
    else some ({ w with holder := none }.tell (if w.monitored then [w.offline] else []))

end NickWorld

/-! ## What a message does to the watch -/

namespace NickWatch

variable {u : UpperCase} {s : NickWatch} {message : IRCMessage}

/-- The two belong to one registration. -/
structure SameTask (s t : NickWatch) : Prop where
  casemapping : t.casemapping = s.casemapping
  desiredNick : t.desiredNick = s.desiredNick
  registered : t.registered = s.registered

/-- The bot polls where there is nothing better. -/
def Polls (s : NickWatch) : Prop := s.monitor = false → s.reclaimed = false → s.polling = true

/-- What a message does, but for the lines that it is answered with: a poll goes on where it is
needed, and a task of `monitor_nick` is there unless the bot had been watching before. -/
structure Hears (s t : NickWatch) : Prop extends SameTask s t where
  starting : s.starting ≤ t.starting
  polls : s.Polls → t.Polls
  monitors : t.monitor = true → t.reclaimed = false →
    0 < t.starting ∨ s.monitor = true ∧ s.reclaimed = false

theorem Hears.refl (s : NickWatch) : s.Hears s where
  casemapping := rfl
  desiredNick := rfl
  registered := rfl
  starting := le_refl _
  polls := id
  monitors := fun hmonitor hlost => .inr ⟨hmonitor, hlost⟩

theorem Hears.trans {t v : NickWatch} (h : s.Hears t) (h' : t.Hears v) : s.Hears v where
  casemapping := h'.casemapping.trans h.casemapping
  desiredNick := h'.desiredNick.trans h.desiredNick
  registered := h'.registered.trans h.registered
  starting := h.starting.trans h'.starting
  polls := h'.polls ∘ h.polls
  monitors := by
    intro hmonitor hlost
    rcases h'.monitors hmonitor hlost with hstart | ⟨hmonitor, hlost⟩
    · exact .inl hstart
    · rcases h.monitors hmonitor hlost with hstart | hbefore
      · exact .inl (hstart.trans_le h'.starting)
      · exact .inr hbefore

/-- A watch that is started anew is complete, whatever it was before. -/
theorem hears_startNickWatch {t : NickWatch} (hsame : s.SameTask t) (hstart : s.starting ≤ t.starting) :
    s.Hears t.startNickWatch := by
  unfold startNickWatch
  split_ifs with hreclaimed hmonitor
  · refine { hsame with starting := hstart, polls := ?_, monitors := ?_ }
    · exact fun _ _ hlost => absurd (hreclaimed.symm.trans hlost) (by decide)
    · exact fun _ hlost => absurd (hreclaimed.symm.trans hlost) (by decide)
  · refine { hsame with starting := hstart.trans (Nat.le_succ _), polls := ?_, monitors := ?_ }
    · exact fun _ hnone => absurd (hmonitor.symm.trans hnone) (by decide)
    · exact fun _ _ => .inl (Nat.succ_pos _)
  · refine { hsame with starting := hstart, polls := ?_, monitors := ?_ }
    · exact fun _ _ _ => rfl
    · exact fun htrue => absurd htrue hmonitor

/-- The server registers the bot once, and takes nothing back that it advertised. -/
def Plain (message : IRCMessage) : Prop :=
  message.command ≠ lit "001" ∧
    (message.command = lit "005" → ∀ token ∈ message.params.tail, token.head? ≠ some 45)

theorem hears_applyIsupport {token : Str} (htoken : token.head? ≠ some 45) :
    s.Hears (s.applyIsupport u token) := by
  unfold applyIsupport
  split
  · rename_i name hname
    refine absurd ?_ htoken
    cases token with
    | nil => simp [partition] at hname
    | cons c rest =>
      rw [partition] at hname
      split_ifs at hname
      exact congrArg some (List.cons.inj hname).1
  · split_ifs
    · exact hears_startNickWatch ⟨rfl, rfl, rfl⟩ (le_refl _)
    · exact Hears.refl s

theorem hears_handleIsupport (hplain : ∀ token ∈ message.params.tail, token.head? ≠ some 45) :
    s.Hears (s.handleIsupport u message) := by
  have hfold : ∀ (tokens : List Str) (t : NickWatch), (∀ token ∈ tokens, token.head? ≠ some 45) →
      t.Hears (tokens.foldl (applyIsupport u) t) := by
    intro tokens
    induction tokens with
    | nil => exact fun t _ => Hears.refl t
    | cons token tokens ih =>
      intro t htokens
      exact (hears_applyIsupport (htokens token List.mem_cons_self)).trans
        (ih _ fun other hother => htokens other (List.mem_cons_of_mem _ hother))
  unfold handleIsupport
  dsimp only
  split_ifs
  · exact hfold _ s fun token htoken => hplain token (List.mem_of_mem_dropLast htoken)
  · exact hfold _ s hplain

theorem handleMonitorOffline_fst : (s.handleMonitorOffline message).1 = s := by
  unfold handleMonitorOffline
  split
  · rfl
  · split_ifs <;> rfl

theorem handleIsonReply_fst : (s.handleIsonReply message).1 = s := by
  unfold handleIsonReply
  split
  · rfl
  · split_ifs <;> rfl

theorem track_of_command_ne {casemapping : Casemapping} {nick : Str}
    (h : message.command ≠ lit "NICK") : track casemapping nick message = nick := by
  unfold track
  split
  · rw [if_neg fun hcond => h hcond.1]
  · rfl

theorem track_ne {casemapping : Casemapping} {nick : Str}
    (h : track casemapping nick message ≠ nick) : message.ircPrefix ≠ none ∧
      message.params.getLast? = some (track casemapping nick message) := by
  unfold track at h ⊢
  split at h
  · rename_i p newNick hp hnew
    split_ifs at h with hcond
    · simp [hp, hnew, hcond]
    · exact absurd rfl h
  · exact absurd rfl h

theorem hears_stop {t : NickWatch} (hsame : s.SameTask t) (hstart : s.starting ≤ t.starting)
    (hreclaimed : t.reclaimed = true) : s.Hears t.stopNickWatchAsync.1 := by
  refine { hsame with starting := hstart, polls := ?_, monitors := ?_ }
  · exact fun _ _ hlost => absurd (hreclaimed.symm.trans hlost) (by decide)
  · exact fun _ hlost => absurd (hreclaimed.symm.trans hlost) (by decide)

/-- A registered bot looks at the watch whenever a NICK message names its nick. -/
theorem handleNick_cases (hregistered : s.registered = true) :
    s.handleNick message = (s, []) ∧ (∀ newNick, message.ircPrefix ≠ none →
        message.params.getLast? = some newNick → s.fold newNick ≠ s.fold s.currentNick) ∨
    s.handleNick message = s.stopNickWatchAsync ∧ s.reclaimed = true ∨
    s.handleNick message = (s.startNickWatch, []) := by
  unfold handleNick
  split
  · rename_i p newNick hp hnew
    split_ifs with hself hdesired
    · exact .inr (.inl ⟨rfl, decide_eq_true (hself.symm.trans hdesired)⟩)
    · exact .inr (.inr rfl)
    · refine .inl ⟨rfl, ?_⟩
      intro other _ hother
      obtain rfl : newNick = other := Option.some.inj (hnew.symm.trans hother)
      exact hself
  · rename_i hnone
    refine .inl ⟨rfl, ?_⟩
    intro newNick hp hnew
    obtain ⟨p, hp⟩ := Option.ne_none_iff_exists'.mp hp
    exact absurd hnew (hnone p newNick hp)

theorem hears_handleNick (hregistered : s.registered = true) : s.Hears
    ({ s with currentNick := track s.casemapping s.currentNick message }.handleNick message).1 := by
  rcases @handleNick_cases { s with currentNick := track s.casemapping s.currentNick message }
    message hregistered with ⟨hkeep, hother⟩ | ⟨hstop, hreclaimed⟩ | hstart
  · have hsame : track s.casemapping s.currentNick message = s.currentNick := by
      by_contra hne
      obtain ⟨hp, hnew⟩ := track_ne hne
      exact hother _ hp hnew rfl
    rw [hkeep, hsame]
    exact Hears.refl s
  · rw [hstop]
    exact hears_stop ⟨rfl, rfl, rfl⟩ (le_refl _) hreclaimed
  · rw [hstart]
    exact hears_startNickWatch ⟨rfl, rfl, rfl⟩ (le_refl _)

@[simp] theorem startNickWatch_currentNick : s.startNickWatch.currentNick = s.currentNick := by
  unfold startNickWatch
  split_ifs <;> rfl

theorem handleIsupport_currentNick : (s.handleIsupport u message).currentNick = s.currentNick := by
  have htoken : ∀ (t : NickWatch) (token : Str),
      (t.applyIsupport u token).currentNick = t.currentNick := by
    intro t token
    unfold applyIsupport
    split
    · split_ifs <;> rfl
    · split_ifs
      · exact startNickWatch_currentNick
      · rfl
  have hfold : ∀ (tokens : List Str) (t : NickWatch),
      (tokens.foldl (applyIsupport u) t).currentNick = t.currentNick := by
    intro tokens
    induction tokens with
    | nil => exact fun _ => rfl
    | cons token tokens ih => exact fun t => (ih _).trans (htoken t token)
  exact hfold _ s

theorem handleNick_currentNick : (s.handleNick message).1.currentNick = s.currentNick := by
  unfold handleNick
  split
  · split_ifs
    · rfl
    · exact startNickWatch_currentNick
    · rfl
    · rfl
  · rfl

theorem hears_onMessage (hregistered : s.registered = true) (hplain : Plain message) :
    s.Hears (s.onMessage u message).1 := by
  unfold onMessage
  rw [if_neg hplain.1]
  split_ifs with h005 h303 h731 hnick
  · exact hears_handleIsupport (hplain.2 h005)
  · rw [handleIsonReply_fst]
    exact Hears.refl s
  · rw [handleMonitorOffline_fst]
    exact Hears.refl s
  · exact hears_handleNick hregistered
  · exact Hears.refl s

theorem onMessage_currentNick (hplain : Plain message) : (s.onMessage u message).1.currentNick =
    track s.casemapping s.currentNick message := by
  unfold onMessage
  rw [if_neg hplain.1]
  split_ifs with h005 h303 h731 hnick
  · rw [handleIsupport_currentNick, track_of_command_ne (by rw [h005]; decide)]
  · rw [handleIsonReply_fst, track_of_command_ne (by rw [h303]; decide)]
  · rw [handleMonitorOffline_fst, track_of_command_ne (by rw [h731]; decide)]
  · exact handleNick_currentNick
  · exact (track_of_command_ne hnick).symm

theorem mem_tryNickReclaim {line : NickLine} (h : line ∈ s.tryNickReclaim) :
    line = .nick s.desiredNick := by
  unfold tryNickReclaim at h
  split_ifs at h
  · simp at h
  · exact List.mem_singleton.mp h

/-- The lines that answer a message: the desired nickname is asked for, or given up watching
once the bot has it. -/
theorem mem_onMessage {line : NickLine} (hregistered : s.registered = true)
    (h : line ∈ (s.onMessage u message).2) : line = .nick s.desiredNick ∨
      line = .monitorRemove s.desiredNick ∧ (s.onMessage u message).1.reclaimed = true := by
  unfold onMessage at h ⊢
  split_ifs at h ⊢
  · simp at h
  · simp at h
  · unfold handleIsonReply at h
    split at h
    · simp at h
    · split_ifs at h
      · simp at h
      · exact .inl (mem_tryNickReclaim h)
  · unfold handleMonitorOffline at h
    split at h
    · simp at h
    · split_ifs at h
      · exact .inl (mem_tryNickReclaim h)
      · simp at h
  · rcases @handleNick_cases { s with currentNick := track s.casemapping s.currentNick message }
      message hregistered with ⟨hkeep, -⟩ | ⟨hstop, hreclaimed⟩ | hstart
    · simp [hkeep] at h
    · rw [hstop] at h ⊢
      simp only [stopNickWatchAsync] at h
      split_ifs at h
      · exact .inr ⟨List.mem_singleton.mp h, hreclaimed⟩
      · simp at h
    · simp [hstart] at h
  · simp at h

theorem partition_of_not_mem {sep : CodePoint} {nick : Str} (h : sep ∉ nick) :
    partition sep nick = (nick, none) := by
  induction nick with
  | nil => rfl
  | cons c nick ih =>
    obtain ⟨hc, hrest⟩ := not_or.mp (mt List.mem_cons.mpr h)
    rw [partition, if_neg (Ne.symm hc), ih hrest]

/-- The server tells that a nick is free. -/
def Offline (nick : Str) (message : IRCMessage) : Prop :=
  message.command = lit "731" ∧ message.params.getLast? = some nick

theorem onMessage_offline (hcomma : 44 ∉ s.desiredNick) (hbang : 33 ∉ s.desiredNick)
    (hoffline : Offline s.desiredNick message) (hlost : s.reclaimed = false) :
    s.onMessage u message = (s, [.nick s.desiredNick]) := by
  obtain ⟨hcommand, hparams⟩ := hoffline
  have hfree : (s.desiredNick.splitOn 44).any fun target =>
      s.fold (partition 33 target).1 = s.fold s.desiredNick := by
    rw [List.splitOn_eq_singleton hcomma]
    simp [partition_of_not_mem hbang]
  unfold onMessage
  rw [hcommand, if_neg (by decide), if_neg (by decide), if_neg (by decide), if_pos rfl]
  unfold handleMonitorOffline tryNickReclaim
  rw [hparams]
  simp [hfree, hlost]

end NickWatch

/-! ## No notice is lost -/

namespace NickWorld

variable {u : UpperCase} {w w' : NickWorld}

/-- The nick that the bot takes for its own once it has heard the messages. -/
def heard (w : NickWorld) (messages : List IRCMessage) : Str :=
  messages.foldl (NickWatch.track w.watch.casemapping) w.watch.currentNick

/-- Whether the bot monitors once the server has served the lines. -/
def subscribed (monitored : Bool) (lines : List NickLine) : Bool :=
  lines.foldl (fun on line =>
    match line with
    | .monitorAdd _ => true
    | .monitorRemove _ => false
    | _ => on) monitored

/-- Something is under way after which the bot will know that the nickname is free: its own
line, a task that will send one, a notice, or the news that it has lost the nickname. -/
inductive Alarm (w : NickWorld) : Prop
  | asked (h : .nick w.watch.desiredNick ∈ w.outbound)
  | watched (h : .monitorAdd w.watch.desiredNick ∈ w.outbound)
  | starting (h : 0 < w.watch.starting)
  | offline (message : IRCMessage) (hmem : message ∈ w.inbound)
      (h : NickWatch.Offline w.watch.desiredNick message)
  | owning (before after : List IRCMessage) (hsplit : w.inbound = before ++ after)
      (h : w.fold (w.heard before) = w.fold w.watch.desiredNick)

structure Inv (w : NickWorld) : Prop where
  registered : w.watch.registered = true
  comma : 44 ∉ w.watch.desiredNick
  bang : 33 ∉ w.watch.desiredNick
  targets : ∀ line ∈ w.outbound, line.target = w.watch.desiredNick
  plain : ∀ message ∈ w.inbound, NickWatch.Plain message
  told : w.heard w.inbound = w.nick
  polls : w.watch.Polls
  monitors : w.watch.monitor = true → w.refused = false → w.watch.reclaimed = false →
    0 < w.watch.starting ∨ subscribed w.monitored w.outbound = true
  alarm : w.watch.monitor = true → w.refused = false → w.holder = none → ¬ w.Owns → w.Alarm

theorem heard_append (w : NickWorld) (before after : List IRCMessage) :
    w.heard (before ++ after) =
      after.foldl (NickWatch.track w.watch.casemapping) (w.heard before) := List.foldl_append

/-- What the server says besides NICK does not change the nick. -/
theorem foldl_track (casemapping : Casemapping) {messages : List IRCMessage} (nick : Str)
    (h : ∀ message ∈ messages, message.command ≠ lit "NICK") :
    messages.foldl (NickWatch.track casemapping) nick = nick := by
  induction messages with
  | nil => rfl
  | cons message messages ih =>
    rw [List.foldl_cons, NickWatch.track_of_command_ne (h message List.mem_cons_self)]
    exact ih fun other hother => h other (List.mem_cons_of_mem _ hother)

theorem track_nickMessage (w : NickWorld) (name : Str) (casemapping : Casemapping) :
    NickWatch.track casemapping w.nick (w.nickMessage name) = name := by
  simp [NickWatch.track, nickMessage]

/-- More lines and more messages keep an alarm, and so does serving what is no alarm. -/
theorem Alarm.mono (h : w.Alarm) (hwatch : w'.watch = w.watch)
    (hout : ∀ line ∈ w.outbound, line = .nick w.watch.desiredNick ∨
      line = .monitorAdd w.watch.desiredNick → line ∈ w'.outbound)
    {messages : List IRCMessage} (hin : w'.inbound = w.inbound ++ messages) : w'.Alarm := by
  cases h with
  | asked h => exact .asked (by rw [hwatch]; exact hout _ h (.inl rfl))
  | watched h => exact .watched (by rw [hwatch]; exact hout _ h (.inr rfl))
  | starting h => exact .starting (by rw [hwatch]; exact h)
  | offline message hmem h =>
    exact .offline message (by rw [hin]; exact List.mem_append_left _ hmem) (by rw [hwatch]; exact h)
  | owning before after hsplit h =>
    refine .owning before (after ++ messages) (by rw [hin, hsplit, List.append_assoc]) ?_
    simp only [heard, fold, hwatch] at h ⊢
    exact h

theorem plain_mk {command : Str} (params : List Str) (p : Option Prefix)
    (h : command ≠ lit "001" ∧ command ≠ lit "005") : NickWatch.Plain ⟨command, params, p⟩ :=
  ⟨h.1, fun hsupport => absurd hsupport h.2⟩

theorem offline_plain (w : NickWorld) :
    NickWatch.Plain w.offline ∧ w.offline.command ≠ lit "NICK" :=
  ⟨plain_mk _ _ (by decide), (by decide : lit "731" ≠ lit "NICK")⟩

/-- The server tells something that is no change of nick. -/
theorem Inv.tell (hi : w.Inv) {messages : List IRCMessage}
    (h : ∀ message ∈ messages, NickWatch.Plain message ∧ message.command ≠ lit "NICK") :
    (w.tell messages).Inv where
  registered := hi.registered
  comma := hi.comma
  bang := hi.bang
  targets := hi.targets
  plain := by
    intro message hmem
    rcases List.mem_append.mp hmem with hmem | hmem
    · exact hi.plain message hmem
    · exact (h message hmem).1
  told := by
    have ht := hi.told
    rw [show (w.tell messages).heard (w.tell messages).inbound = w.heard (w.inbound ++ messages) from rfl,
      heard_append, ht, foldl_track _ _ fun message hmem => (h message hmem).2]
    rfl
  polls := hi.polls
  monitors := hi.monitors
  alarm := by
    intro hmonitor hrefused hfree hlost
    exact (hi.alarm hmonitor hrefused hfree hlost).mono rfl (fun line hline _ => hline) rfl

/-- The server gives the bot another nick and tells it so, and no notice is missing: the bot
took the desired nickname for its own, or there was an alarm before. -/
theorem Inv.renamed (hi : w.Inv) {name : Str} (before after : List IRCMessage)
    (hplain : ∀ message ∈ before ++ after, NickWatch.Plain message ∧ message.command ≠ lit "NICK")
    (hlater : w.holder = none → w.fold name ≠ w.fold w.watch.desiredNick →
      w.watch.monitor = true → w.refused = false → w.Alarm) :
    ({ w with nick := name }.tell (before ++ w.nickMessage name :: after)).Inv where
  registered := hi.registered
  comma := hi.comma
  bang := hi.bang
  targets := hi.targets
  plain := by
    intro message hmem
    rcases List.mem_append.mp hmem with hmem | hmem
    · exact hi.plain message hmem
    · rcases List.mem_append.mp hmem with hmem | hmem
      · exact (hplain message (List.mem_append_left _ hmem)).1
      · rcases List.mem_cons.mp hmem with rfl | hmem
        · exact plain_mk _ _ (by decide)
        · exact (hplain message (List.mem_append_right _ hmem)).1
  told := by
    have hbefore := foldl_track w.watch.casemapping w.nick fun message hmem =>
      (hplain message (List.mem_append_left after hmem)).2
    have hafter := foldl_track w.watch.casemapping name fun message hmem =>
      (hplain message (List.mem_append_right before hmem)).2
    change w.heard (w.inbound ++ (before ++ w.nickMessage name :: after)) = name
    rw [heard_append, hi.told, List.foldl_append, hbefore, List.foldl_cons, track_nickMessage, hafter]
  polls := hi.polls
  monitors := hi.monitors
  alarm := by
    intro hmonitor hrefused hfree hlost
    exact (hlater hfree hlost hmonitor hrefused).mono rfl (fun line hline _ => hline) rfl

theorem Inv.rename (hi : w.Inv) {name : Str} (noticeFirst : Bool) :
    ({ w with nick := name }.tell (w.renameMessages name noticeFirst)).Inv := by
  have hlater : w.holder = none → w.fold name ≠ w.fold w.watch.desiredNick →
      w.watch.monitor = true → w.refused = false → w.Alarm := by
    intro hfree _ hmonitor hrefused
    by_cases hown : w.Owns
    · refine .owning w.inbound [] (List.append_nil _).symm ?_
      rw [hi.told]
      exact hown
    · exact hi.alarm hmonitor hrefused hfree hown
  have hoffline : ∀ message ∈ [w.offline], NickWatch.Plain message ∧ message.command ≠ lit "NICK" := by
    intro message hmem
    obtain rfl := List.mem_singleton.mp hmem
    exact w.offline_plain
  unfold renameMessages
  split_ifs
  · exact hi.renamed [w.offline] [] hoffline hlater
  · exact hi.renamed [] [w.offline] hoffline hlater
  · exact hi.renamed [] [] (by simp) hlater

theorem Inv.take (hi : w.Inv) (name : Str) : Inv { w with holder := some name } :=
  { hi with alarm := fun _ _ hfree => by simp at hfree }

theorem subscribed_cons {monitored : Bool} {lines : List NickLine}
    (h : subscribed monitored lines = true) :
    monitored = true ∨ ∃ target, .monitorAdd target ∈ lines := by
  induction lines generalizing monitored with
  | nil => exact .inl h
  | cons line lines ih =>
    rcases ih h with hon | ⟨target, hmem⟩
    · cases line with
      | nick name => exact .inl hon
      | monitorAdd target => exact .inr ⟨target, List.mem_cons_self⟩
      | monitorRemove target => simp at hon
      | ison target => exact .inl hon
    · exact .inr ⟨target, List.mem_cons_of_mem _ hmem⟩

/-- The other user leaves: the bot is told, or will ask. -/
theorem Inv.leave (hi : w.Inv) :
    ({ w with holder := none }.tell (if w.monitored then [w.offline] else [])).Inv := by
  have hnotice : ∀ message ∈ (if w.monitored then [w.offline] else []),
      NickWatch.Plain message ∧ message.command ≠ lit "NICK" := by
    intro message hmem
    split_ifs at hmem
    · obtain rfl := List.mem_singleton.mp hmem
      exact w.offline_plain
    · simp at hmem
  have htold := (hi.tell hnotice).told
  refine { hi.tell hnotice with told := htold, alarm := ?_ }
  intro hmonitor hrefused _ hlost
  by_cases hon : w.monitored = true
  · refine .offline w.offline ?_ ⟨rfl, rfl⟩
    simp [NickWorld.tell, hon]
  · cases hown : w.watch.reclaimed with
    | true =>
      exact .owning [] (w.inbound ++ if w.monitored then [w.offline] else []) rfl (of_decide_eq_true hown)
    | false =>
      rcases hi.monitors hmonitor hrefused hown with hstart | hsub
      · exact .starting hstart
      · obtain ⟨target, hmem⟩ := (subscribed_cons hsub).resolve_left hon
        obtain rfl : target = w.watch.desiredNick := hi.targets _ hmem
        exact .watched hmem

theorem Inv.advertise (hi : w.Inv) : (w.tell
    [⟨lit "005", [w.nick, lit "MONITOR=100", lit "are supported by this server"], none⟩]).Inv := by
  apply hi.tell
  intro message hmem
  obtain rfl := List.mem_singleton.mp hmem
  refine ⟨⟨?_, ?_⟩, ?_⟩
  · change lit "005" ≠ lit "001"
    decide
  · intro _
    change ∀ token ∈ [lit "MONITOR=100", lit "are supported by this server"], token.head? ≠ some 45
    decide
  · change lit "005" ≠ lit "NICK"
    decide

/-- A line is served that neither asks for the nickname nor changes what the bot monitors. -/
theorem Inv.served (hi : w.Inv) {line : NickLine} {rest : List NickLine} (hout : w.outbound = line :: rest)
    {monitored refused : Bool} 
    (hmonitored : monitored = subscribed w.monitored [line])
    (hrefused : refused = false → w.refused = false)
    (halarm : w.watch.monitor = true → refused = false → w.holder = none → ¬ w.Owns →
      Alarm { w with outbound := rest, monitored := monitored, refused := refused }) :
    Inv { w with outbound := rest, monitored := monitored, refused := refused } where
  registered := hi.registered
  comma := hi.comma
  bang := hi.bang
  targets := by
    intro other hmem
    exact hi.targets other (by rw [hout]; exact List.mem_cons_of_mem _ hmem)
  plain := hi.plain
  told := hi.told
  polls := hi.polls
  monitors := by
    intro hmonitor hno hlost
    have hm := hi.monitors hmonitor (hrefused hno) hlost
    rw [hout] at hm
    rw [hmonitored]
    exact hm
  alarm := halarm

/-- A numeric that the bot does not take for news of its nick. -/
theorem Inv.numeric (hi : w.Inv) {command : Str} (params : List Str)
    (h : command ≠ lit "001" ∧ command ≠ lit "005" ∧ command ≠ lit "NICK") :
    (w.tell [⟨command, params, none⟩]).Inv := by
  apply hi.tell
  intro message hmem
  obtain rfl := List.mem_singleton.mp hmem
  exact ⟨plain_mk _ _ ⟨h.1, h.2.1⟩, h.2.2⟩

/-- An alarm is not over when another line is served. -/
theorem Alarm.served (h : w.Alarm) {line : NickLine} {rest : List NickLine}
    (hout : w.outbound = line :: rest) {monitored refused : Bool}
    (hnick : ∀ name, line ≠ .nick name) (hadd : ∀ target, line ≠ .monitorAdd target) :
    Alarm { w with outbound := rest, monitored := monitored, refused := refused } := by
  refine h.mono rfl ?_ (List.append_nil _).symm
  intro other hmem hkind
  rw [hout] at hmem
  refine (List.mem_cons.mp hmem).resolve_left ?_
  rintro rfl
  rcases hkind with hkind | hkind
  · exact hnick _ hkind
  · exact hadd _ hkind

theorem Inv.obey (hi : w.Inv) {line : NickLine} {rest : List NickLine}
    (hout : w.outbound = line :: rest) (grants : Bool) :
    Inv ({ w with outbound := rest }.obey grants line) := by
  have hline := hi.targets line (by rw [hout]; exact List.mem_cons_self)
  cases line with
  | nick name =>
    obtain rfl : name = w.watch.desiredNick := hline
    have hserved : ∀ refused : Bool, (refused = false → w.refused = false) →
        (refused = false → w.holder = none → w.Owns) →
        Inv { w with outbound := rest, refused := refused } := fun refused hrefused howns =>
      hi.served hout rfl hrefused fun _ hno hfree hlost => absurd (howns hno hfree) hlost
    simp only [NickWorld.obey]
    split_ifs with hsame hheld hgrants
    · exact hserved w.refused id fun _ _ => congrArg w.fold hsame
    · have hother := hserved w.refused id fun _ hfree => by simp [hfree] at hheld
      exact hother.numeric _ (by decide)
    · have hnew : Inv ({ w with nick := w.watch.desiredNick }.tell
          [w.nickMessage w.watch.desiredNick]) :=
        hi.renamed [] [] (by simp) fun _ hlost => absurd rfl hlost
      exact hnew.served hout rfl id fun _ _ _ hlost => absurd rfl hlost
    · have hother := hserved true (by simp) (by simp)
      exact hother.numeric _ (by decide)
  | monitorAdd target =>
    simp only [NickWorld.obey]
    split_ifs with honline
    · have hserved : Inv { w with outbound := rest, monitored := true } :=
        hi.served hout rfl id fun _ _ hfree hlost => by
          rcases honline with hheld | howns
          · have hnone : w.holder = none := hfree
            simp [hnone] at hheld
          · exact absurd howns hlost
      exact hserved.numeric _ (by decide)
    · have htold : (w.tell [w.offline]).Inv := hi.tell fun message hmem => by
        obtain rfl := List.mem_singleton.mp hmem
        exact w.offline_plain
      refine htold.served hout rfl id fun _ _ _ _ => ?_
      exact .offline w.offline (List.mem_append_right _ (List.mem_singleton.mpr rfl)) ⟨rfl, rfl⟩
  | monitorRemove target =>
    refine hi.served hout rfl id fun hmonitor hno hfree hlost => ?_
    exact (hi.alarm hmonitor hno hfree hlost).served hout (by simp) (by simp)
  | ison target =>
    have hserved : Inv { w with outbound := rest } := by
      refine hi.served hout rfl id fun hmonitor hno hfree hlost => ?_
      exact (hi.alarm hmonitor hno hfree hlost).served hout (by simp) (by simp)
    exact hserved.numeric _ (by decide)

theorem subscribed_append {monitored : Bool} {lines more : List NickLine}
    (h : subscribed monitored lines = true) (hkeep : ∀ target, .monitorRemove target ∉ more) :
    subscribed monitored (lines ++ more) = true := by
  rw [subscribed, List.foldl_append]
  change subscribed (subscribed monitored lines) more = true
  rw [h]
  induction more with
  | nil => rfl
  | cons line more ih =>
    have hmore : subscribed true more = true :=
      ih fun target hmem => hkeep target (List.mem_cons_of_mem _ hmem)
    cases line with
    | monitorRemove target => exact absurd List.mem_cons_self (hkeep target)
    | nick name => exact hmore
    | monitorAdd target => exact hmore
    | ison target => exact hmore

/-- A turn of the bot, after which it has the rest of the messages still to hear -/
theorem Inv.submit (hi : w.Inv) {t : NickWatch} {lines : List NickLine} {rest : List IRCMessage}
    (hhears : w.watch.Hears t) (hrest : rest ⊆ w.inbound)
    (htold : rest.foldl (NickWatch.track w.watch.casemapping) t.currentNick = w.nick)
    (htargets : ∀ line ∈ lines, line.target = w.watch.desiredNick)
    (hkeep : t.reclaimed = false → ∀ target, .monitorRemove target ∉ lines) (sends : Bool)
    (halarm : t.monitor = true → (sends = false → lines = []) → w.refused = false →
      w.holder = none → ¬ w.Owns → Alarm ({ w with inbound := rest }.submit sends (t, lines))) :
    Inv ({ w with inbound := rest }.submit sends (t, lines)) := by
  have hquiet : ({ w with inbound := rest }.submit sends (t, lines)).refused = false →
      w.refused = false ∧ (sends = false → lines = []) := by
    intro hno
    simp only [NickWorld.submit, Bool.or_eq_false_iff] at hno
    refine ⟨hno.1, fun hsends => ?_⟩
    simpa [hsends] using hno.2
  exact
    { registered := hhears.registered.trans hi.registered
      comma := by
        change 44 ∉ t.desiredNick
        rw [hhears.desiredNick]
        exact hi.comma
      bang := by
        change 33 ∉ t.desiredNick
        rw [hhears.desiredNick]
        exact hi.bang
      targets := by
        intro line hmem
        refine Eq.trans ?_ hhears.desiredNick.symm
        simp only [NickWorld.submit] at hmem
        split_ifs at hmem
        · rcases List.mem_append.mp hmem with hmem | hmem
          · exact hi.targets line hmem
          · exact htargets line hmem
        · exact hi.targets line hmem
      plain := fun message hmem => hi.plain message (hrest hmem)
      told := by
        rw [← hhears.casemapping] at htold
        exact htold
      polls := hhears.polls hi.polls
      monitors := by
        intro hmonitor hno hlost
        rcases hhears.monitors hmonitor hlost with hstart | ⟨hbefore, hknown⟩
        · exact .inl hstart
        · rcases hi.monitors hbefore (hquiet hno).1 hknown with hstart | hsub
          · exact .inl (hstart.trans_le hhears.starting)
          · right
            simp only [NickWorld.submit]
            split_ifs
            · exact subscribed_append hsub (hkeep hlost)
            · exact hsub
      alarm := by
        intro hmonitor hno hfree hlost
        refine halarm hmonitor (hquiet hno).2 (hquiet hno).1 hfree ?_
        intro hown
        refine hlost ?_
        change casefold w.nick t.casemapping = casefold t.desiredNick t.casemapping
        rw [hhears.desiredNick, hhears.casemapping]
        exact hown }

theorem Inv.poll (hi : w.Inv) (sends : Bool) : (w.submit sends w.watch.isonPoll).Inv := by
  unfold NickWatch.isonPoll
  split_ifs with hreclaimed
  · have hhears : w.watch.Hears { w.watch with polling := false } :=
      NickWatch.hears_stop ⟨rfl, rfl, rfl⟩ (le_refl _) hreclaimed
    refine hi.submit hhears (List.Subset.refl _) hi.told (by simp) (by simp) sends ?_
    intro _ _ _ _ _
    exact .owning [] w.inbound rfl (of_decide_eq_true hreclaimed)
  · refine hi.submit (NickWatch.Hears.refl _) (List.Subset.refl _) hi.told ?_ (by simp) sends ?_
    · intro line hmem
      obtain rfl := List.mem_singleton.mp hmem
      rfl
    · intro hmonitor _ hno hfree hlost
      refine (hi.alarm hmonitor hno hfree hlost).mono rfl ?_ (List.append_nil _).symm
      intro line hmem _
      simp only [NickWorld.submit]
      split_ifs
      · exact List.mem_append_left _ hmem
      · exact hmem

/-- The task sends its line, or fails for good. -/
theorem Inv.monitor (hi : w.Inv) (sends : Bool) : (w.submit sends w.watch.monitorNick).Inv := by
  cases sends with
  | false =>
    have hrefused : (w.submit false w.watch.monitorNick).refused = true := by
      simp [NickWorld.submit, NickWatch.monitorNick]
    exact
      { registered := hi.registered, comma := hi.comma, bang := hi.bang, targets := hi.targets
        plain := hi.plain, told := hi.told, polls := hi.polls
        monitors := fun _ hno => absurd (hrefused.symm.trans hno) (by decide)
        alarm := fun _ hno => absurd (hrefused.symm.trans hno) (by decide) }
  | true =>
    refine
      { registered := hi.registered, comma := hi.comma, bang := hi.bang, targets := ?_
        plain := hi.plain, told := hi.told, polls := hi.polls, monitors := ?_, alarm := ?_ }
    · intro line hmem
      rcases List.mem_append.mp hmem with hmem | hmem
      · exact hi.targets line hmem
      · obtain rfl := List.mem_singleton.mp hmem
        rfl
    · intro _ _ _
      right
      change subscribed w.monitored (w.outbound ++ [.monitorAdd w.watch.desiredNick]) = true
      simp [subscribed]
    · intro _ _ _ _
      exact .watched (List.mem_append_right _ (List.mem_singleton.mpr rfl))

/-- An alarm outlives the next message, or that message makes the bot ask for the nickname. -/
theorem Alarm.hear (halarm : w.Alarm) (hi : w.Inv) {message : IRCMessage} {rest : List IRCMessage}
    (hin : w.inbound = message :: rest) (hknown : w.watch.reclaimed = false) {sends : Bool}
    (hsent : sends = false → (w.watch.onMessage u message).2 = []) :
    Alarm ({ w with inbound := rest }.submit sends (w.watch.onMessage u message)) := by
  have hplain : NickWatch.Plain message := hi.plain message (by rw [hin]; exact List.mem_cons_self)
  have hhears := NickWatch.hears_onMessage (u := u) hi.registered hplain
  have hnick := NickWatch.onMessage_currentNick (u := u) (s := w.watch) hplain
  have hout : ∀ line ∈ w.outbound,
      line ∈ ({ w with inbound := rest }.submit sends (w.watch.onMessage u message)).outbound := by
    intro line hmem
    simp only [submit]
    split_ifs
    · exact List.mem_append_left _ hmem
    · exact hmem
  have hdesired : ({ w with inbound := rest }.submit sends
      (w.watch.onMessage u message)).watch.desiredNick = w.watch.desiredNick := hhears.desiredNick
  cases halarm with
  | asked h => exact .asked (by rw [hdesired]; exact hout _ h)
  | watched h => exact .watched (by rw [hdesired]; exact hout _ h)
  | starting h => exact .starting (h.trans_le hhears.starting)
  | offline other hmem h =>
    rw [hin] at hmem
    rcases List.mem_cons.mp hmem with rfl | hmem
    · have hasks := NickWatch.onMessage_offline (u := u) hi.comma hi.bang h hknown
      cases sends with
      | false => simp [hasks] at hsent
      | true => exact .asked (by simp [submit, hasks])
    · exact .offline other hmem (by rw [hdesired]; exact h)
  | owning before after hsplit h =>
    cases before with
    | nil => exact absurd ((decide_eq_true h).symm.trans hknown) (by decide)
    | cons first before =>
      rw [hin, List.cons_append] at hsplit
      obtain ⟨rfl, rfl⟩ := List.cons.inj hsplit
      refine .owning before after rfl ?_
      rw [hdesired]
      change casefold (before.foldl (NickWatch.track (w.watch.onMessage u message).1.casemapping)
        (w.watch.onMessage u message).1.currentNick) (w.watch.onMessage u message).1.casemapping = _
      rw [hhears.casemapping, hnick]
      refine h.trans ?_
      simp only [fold, NickWatch.fold, submit, hhears.casemapping]

theorem Inv.hear (hi : w.Inv) {message : IRCMessage} {rest : List IRCMessage}
    (hin : w.inbound = message :: rest) (sends : Bool) :
    Inv ({ w with inbound := rest }.submit sends (w.watch.onMessage u message)) := by
  have hplain : NickWatch.Plain message := hi.plain message (by rw [hin]; exact List.mem_cons_self)
  have hhears := NickWatch.hears_onMessage (u := u) hi.registered hplain
  have hnick := NickWatch.onMessage_currentNick (u := u) (s := w.watch) hplain
  have hlines : ∀ line ∈ (w.watch.onMessage u message).2, line = .nick w.watch.desiredNick ∨
      line = .monitorRemove w.watch.desiredNick ∧ (w.watch.onMessage u message).1.reclaimed = true :=
    fun line hmem => NickWatch.mem_onMessage hi.registered hmem
  refine hi.submit hhears ?_ ?_ ?_ ?_ sends ?_
  · rw [hin]
    exact List.subset_cons_self _ _
  · rw [hnick]
    have ht := hi.told
    rw [hin] at ht
    exact ht
  · intro line hmem
    rcases hlines line hmem with rfl | ⟨rfl, -⟩
    · rfl
    · rfl
  · intro hlost target hmem
    rcases hlines _ hmem with h | ⟨-, hreclaimed⟩
    · simp at h
    · exact absurd (hreclaimed.symm.trans hlost) (by decide)
  · intro hmonitor hsent hno hfree hlost
    cases hreclaimed : (w.watch.onMessage u message).1.reclaimed with
    | true => exact .owning [] rest rfl (of_decide_eq_true hreclaimed)
    | false =>
      rcases hhears.monitors hmonitor hreclaimed with hstart | ⟨hbefore, hknown⟩
      · exact .starting hstart
      · exact (hi.alarm hbefore hno hfree hlost).hear hi hin hknown hsent

theorem Inv.step (hi : w.Inv) {a : NickStep} (hstep : w.step u a = some w') : w'.Inv := by
  cases a with
  | poll sends =>
    simp only [NickWorld.step] at hstep
    split_ifs at hstep
    obtain rfl := Option.some.inj hstep
    exact hi.poll sends
  | monitor sends =>
    simp only [NickWorld.step] at hstep
    split_ifs at hstep
    obtain rfl := Option.some.inj hstep
    exact hi.monitor sends
  | hear sends =>
    simp only [NickWorld.step] at hstep
    split at hstep
    · simp at hstep
    · rename_i message rest hin
      obtain rfl := Option.some.inj hstep
      exact hi.hear hin sends
  | serve grants =>
    simp only [NickWorld.step] at hstep
    split at hstep
    · simp at hstep
    · rename_i line rest hout
      obtain rfl := Option.some.inj hstep
      exact hi.obey hout grants
  | advertise =>
    obtain rfl := Option.some.inj hstep
    exact hi.advertise
  | rename name noticeFirst =>
    simp only [NickWorld.step] at hstep
    split_ifs at hstep
    obtain rfl := Option.some.inj hstep
    exact hi.rename noticeFirst
  | take name =>
    simp only [NickWorld.step] at hstep
    split_ifs at hstep
    obtain rfl := Option.some.inj hstep
    exact hi.take name
  | leave =>
    simp only [NickWorld.step] at hstep
    by_cases hnone : w.holder = none
    · simp [hnone] at hstep
    · rw [if_neg hnone] at hstep
      obtain rfl := Option.some.inj hstep
      exact hi.leave

theorem inv_init {casemapping : Casemapping} {desiredNick nick : Str} {holder : Option Str}
    (hcomma : 44 ∉ desiredNick) (hbang : 33 ∉ desiredNick) :
    (init casemapping desiredNick nick holder).Inv := by
  let fresh : NickWatch := ⟨casemapping, desiredNick, nick, true, false, false, 0⟩
  have hhears : NickWatch.Hears { fresh with polling := true } fresh.startNickWatch :=
    NickWatch.hears_startNickWatch ⟨rfl, rfl, rfl⟩ (le_refl _)
  have hmonitor : fresh.startNickWatch.monitor = false := by
    unfold NickWatch.startNickWatch
    split_ifs <;> rfl
  exact
    { registered := hhears.registered
      comma := by
        change 44 ∉ fresh.startNickWatch.desiredNick
        rw [hhears.desiredNick]
        exact hcomma
      bang := by
        change 33 ∉ fresh.startNickWatch.desiredNick
        rw [hhears.desiredNick]
        exact hbang
      targets := fun line hmem => absurd hmem List.not_mem_nil
      plain := fun message hmem => absurd hmem List.not_mem_nil
      told := NickWatch.startNickWatch_currentNick
      polls := hhears.polls fun _ _ => rfl
      monitors := fun htrue => absurd (htrue.symm.trans hmonitor) (by decide)
      alarm := fun htrue => absurd (htrue.symm.trans hmonitor) (by decide) }

theorem obey_watch (w : NickWorld) (grants : Bool) (line : NickLine) :
    (w.obey grants line).watch = w.watch := by
  cases line with
  | nick name =>
    simp only [obey]
    split_ifs <;> rfl
  | monitorAdd target =>
    simp only [obey]
    split_ifs <;> rfl
  | monitorRemove target => rfl
  | ison target => rfl

theorem Inv.step_desiredNick (hi : w.Inv) {a : NickStep} (hstep : w.step u a = some w') :
    w'.watch.desiredNick = w.watch.desiredNick := by
  cases a with
  | poll sends =>
    simp only [NickWorld.step] at hstep
    split_ifs at hstep
    obtain rfl := Option.some.inj hstep
    change w.watch.isonPoll.1.desiredNick = _
    unfold NickWatch.isonPoll
    split_ifs <;> rfl
  | monitor sends =>
    simp only [NickWorld.step] at hstep
    split_ifs at hstep
    obtain rfl := Option.some.inj hstep
    rfl
  | hear sends =>
    simp only [NickWorld.step] at hstep
    split at hstep
    · simp at hstep
    · rename_i message rest hin
      obtain rfl := Option.some.inj hstep
      have hplain : NickWatch.Plain message := hi.plain message (by rw [hin]; exact List.mem_cons_self)
      exact (NickWatch.hears_onMessage hi.registered hplain).desiredNick
  | serve grants =>
    simp only [NickWorld.step] at hstep
    split at hstep
    · simp at hstep
    · obtain rfl := Option.some.inj hstep
      rw [obey_watch]
  | advertise =>
    obtain rfl := Option.some.inj hstep
    rfl
  | rename name noticeFirst =>
    simp only [NickWorld.step] at hstep
    split_ifs at hstep
    obtain rfl := Option.some.inj hstep
    rfl
  | take name =>
    simp only [NickWorld.step] at hstep
    split_ifs at hstep
    obtain rfl := Option.some.inj hstep
    rfl
  | leave =>
    simp only [NickWorld.step] at hstep
    by_cases hnone : w.holder = none
    · simp [hnone] at hstep
    · rw [if_neg hnone] at hstep
      obtain rfl := Option.some.inj hstep
      rfl

/-- Nothing that the bot or the server says is on its way. -/
structure AtRest (w : NickWorld) : Prop where
  outbound : w.outbound = []
  inbound : w.inbound = []
  starting : w.watch.starting = 0

/-- One poll gets a free nickname. -/
theorem poll_round (hrest : w.AtRest) (hnick : w.watch.currentNick = w.nick) (hlost : ¬ w.Owns)
    (hmonitor : w.watch.monitor = false) (hpolling : w.watch.polling = true)
    (hfree : w.holder = none) : ∃ w', Machine.run (step u) w
      [.poll true, .serve true, .hear true, .serve true, .hear true] = some w' ∧
      w'.nick = w.watch.desiredNick ∧ w'.watch.currentNick = w.watch.desiredNick := by
  obtain ⟨hout, hin, -⟩ := hrest
  have hknown : w.watch.reclaimed = false := by
    refine decide_eq_false fun hsame => hlost ?_
    rw [hnick] at hsame
    exact hsame
  have hother : w.nick ≠ w.watch.desiredNick := fun hsame => hlost (congrArg w.fold hsame)
  let asked : NickWorld := { w with outbound := [.ison w.watch.desiredNick] }
  let told : NickWorld := { w with inbound := [⟨lit "303", [w.nick, []], none⟩] }
  let asking : NickWorld := { w with outbound := [.nick w.watch.desiredNick] }
  let granted : NickWorld := { w with
    nick := w.watch.desiredNick
    inbound := [w.nickMessage w.watch.desiredNick] }
  let last : NickWorld := { w with
    nick := w.watch.desiredNick
    watch := { w.watch with polling := false, currentNick := w.watch.desiredNick } }
  have hpoll : w.step u (.poll true) = some asked := by
    simp [NickWorld.step, hpolling, NickWatch.isonPoll, hknown, NickWorld.submit, hout, asked]
  have hison : asked.step u (.serve true) = some told := by
    have hoff : ¬ Owns { w with outbound := [], inbound := [], holder := none } := hlost
    simp [NickWorld.step, asked, NickWorld.obey, hfree, hoff, NickWorld.tell, hin, told, hout]
  have hreply : told.step u (.hear true) = some asking := by
    have hanswer : w.watch.onMessage u ⟨lit "303", [w.nick, []], none⟩ =
        (w.watch, [.nick w.watch.desiredNick]) := by
      rw [NickWatch.onMessage, if_neg (by decide : lit "303" ≠ lit "001"),
        if_neg (by decide : lit "303" ≠ lit "005"), if_pos rfl]
      simp [NickWatch.handleIsonReply, splitWords, NickWatch.tryNickReclaim, hknown]
    simp [NickWorld.step, told, hanswer, NickWorld.submit, hout, hin, asking]
  have hgrant : asking.step u (.serve true) = some granted := by
    simp [NickWorld.step, asking, NickWorld.obey, hother, hfree, NickWorld.tell, hin, granted, hout,
      NickWorld.nickMessage]
  have hnews : granted.step u (.hear true) = some last := by
    have hheard : w.watch.onMessage u (w.nickMessage w.watch.desiredNick) = (last.watch, []) := by
      have htrack := w.track_nickMessage w.watch.desiredNick w.watch.casemapping
      have hcommand : (w.nickMessage w.watch.desiredNick).command = lit "NICK" := rfl
      rw [NickWatch.onMessage, hcommand, if_neg (by decide : lit "NICK" ≠ lit "001"),
        if_neg (by decide : lit "NICK" ≠ lit "005"), if_neg (by decide : lit "NICK" ≠ lit "303"),
        if_neg (by decide : lit "NICK" ≠ lit "731"), if_pos rfl, hnick, htrack]
      simp [NickWatch.handleNick, NickWorld.nickMessage, NickWatch.fold, NickWatch.stopNickWatchAsync,
        hmonitor, last]
    simp [NickWorld.step, granted, hheard, NickWorld.submit, hout, hin, last]
  refine ⟨last, ?_, rfl, rfl⟩
  simp [Machine.run_cons, hpoll, hison, hreply, hgrant, hnews]

/-- At rest the bot knows its nick, and it has the desired one, or it will: where it monitors,
another user has it, unless a line of the bot was refused; where it polls, the next poll gets
it once no other user has it. -/
theorem nick_reclaimed {casemapping : Casemapping} {desiredNick nick : Str} {holder : Option Str}
    (hcomma : 44 ∉ desiredNick) (hbang : 33 ∉ desiredNick)
    (h : Machine.Reachable (step u) (init casemapping desiredNick nick holder) w)
    (hrest : w.AtRest) : w.watch.currentNick = w.nick ∧
    (w.fold w.nick = w.fold desiredNick ∨
      (w.watch.monitor = true → w.refused = false → w.monitored = true ∧ w.holder.isSome = true) ∧
      (w.watch.monitor = false → w.watch.polling = true ∧ (w.holder = none →
        ∃ w', Machine.run (step u) w
          [.poll true, .serve true, .hear true, .serve true, .hear true] = some w' ∧
          w'.nick = desiredNick ∧ w'.watch.currentNick = desiredNick))) := by
  have hstart : (init casemapping desiredNick nick holder).watch.desiredNick = desiredNick := by
    simp only [init, NickWatch.handleWelcome, NickWatch.startNickWatch]
    split_ifs <;> rfl
  obtain ⟨hi, rfl⟩ : w.Inv ∧ w.watch.desiredNick = desiredNick :=
    h.invariant (P := fun w => w.Inv ∧ w.watch.desiredNick = desiredNick)
      (fun _ _ _ hi hstep => ⟨hi.1.step hstep, (hi.1.step_desiredNick hstep).trans hi.2⟩)
      ⟨inv_init hcomma hbang, hstart⟩
  have hnick : w.watch.currentNick = w.nick := by
    have ht := hi.told
    rwa [hrest.inbound] at ht
  refine ⟨hnick, ?_⟩
  by_cases hown : w.Owns
  · exact .inl hown
  have hlost : w.watch.reclaimed = false := by
    refine decide_eq_false fun hsame => hown ?_
    rw [hnick] at hsame
    exact hsame
  refine .inr ⟨?_, ?_⟩
  · intro hmonitor hno
    constructor
    · rcases hi.monitors hmonitor hno hlost with hstart | hsub
      · rw [hrest.starting] at hstart
        omega
      · rw [hrest.outbound] at hsub
        exact hsub
    · rw [Option.isSome_iff_ne_none]
      intro hfree
      cases hi.alarm hmonitor hno hfree hown with
      | asked h => simp [hrest.outbound] at h
      | watched h => simp [hrest.outbound] at h
      | starting h => simp [hrest.starting] at h
      | offline message hmem => simp [hrest.inbound] at hmem
      | owning before after hsplit h =>
        rw [hrest.inbound] at hsplit
        obtain ⟨rfl, -⟩ := List.append_eq_nil_iff.mp hsplit.symm
        exact absurd ((decide_eq_true h).symm.trans hlost) (by decide)
  · intro hmonitor
    have hpolling := hi.polls hmonitor hlost
    exact ⟨hpolling, poll_round hrest hnick hown hmonitor hpolling⟩

/-- The other user leaves and takes the nickname again before the line of the bot arrives. -/
def sampleRace : List NickStep :=
  [.advertise, .hear true, .monitor true, .serve true, .hear true, .leave, .hear true,
    .take (lit "BOT"), .serve true, .hear true]

theorem nick_reclaimed_race : ∃ w, Machine.run (step asciiUpperCase)
      (init .rfc1459 (lit "bot") (lit "bot_") (some (lit "Bot"))) sampleRace = some w ∧
    w.AtRest ∧ ¬ w.fold w.nick = w.fold (lit "bot") ∧ w.monitored = true ∧ w.holder.isSome = true := by
  have hview : (Machine.run (step asciiUpperCase)
      (init .rfc1459 (lit "bot") (lit "bot_") (some (lit "Bot"))) sampleRace).map (fun w =>
        (w.outbound.isEmpty && w.inbound.isEmpty, w.watch.starting,
          decide (w.fold w.nick = w.fold (lit "bot")), w.watch.monitor, w.refused)) =
      some (true, 0, false, true, false) := by
    decide +kernel
  obtain ⟨w, hrun, hw⟩ := Option.map_eq_some_iff.mp hview
  simp only [Prod.mk.injEq, Bool.and_eq_true, List.isEmpty_iff, decide_eq_false_iff_not] at hw
  obtain ⟨⟨hout, hin⟩, hstart, hlost, hmonitor, hno⟩ := hw
  obtain ⟨-, hown | ⟨hmonitored, -⟩⟩ := nick_reclaimed (u := asciiUpperCase) (by decide)
    (by decide) ⟨sampleRace, hrun⟩ ⟨hout, hin, hstart⟩
  · exact absurd hown hlost
  · obtain ⟨hon, hholder⟩ := hmonitored hmonitor hno
    exact ⟨w, hrun, ⟨hout, hin, hstart⟩, hlost, hon, hholder⟩

end NickWorld

end Botnats
