import Botnats.Registration

/-!
# One connection after another

`run_connection` reads lines under a timer: it asks a silent server for a sign of life, and gives
up a server that does not answer or does not register. `run_forever` goes to the next server after
a session that did not last, and waits longer after each in a row.
-/
namespace Botnats

/-- `REGISTRATION_TIMEOUT` -/
def registrationTimeout : ℚ := 60

/-- `STABLE_SESSION_SECONDS` -/
def stableSessionSeconds : ℚ := 60

/-- What `IRCClientConfig` checks of the timeouts and the servers -/
structure IrcClientConfig (ι : Type) where
  connectTimeout : ℚ
  idleTimeout : ℚ
  pongTimeout : ℚ
  servers : List ι
  connect_pos : 0 < connectTimeout
  idle_pos : 0 < idleTimeout
  pong_pos : 0 < pongTimeout
  servers_ne : servers ≠ []

/-- Why a connection ended: a PING was not answered, the server did not register the client, the
client was closed, or another error -/
inductive EndReason
  | silent
  | unregistered
  | stopped
  | failed
  deriving DecidableEq

/-- What happened on a connection: a complete line came, with its message where it has one, or the
client sent a PING. -/
inductive ConnectionEvent
  | line (time : ℚ) (message : Option IRCMessage)
  | ping (time : ℚ) (token : Str)

/-- A call of `run_connection`: its server, when it began, when it was connected, what happened,
newest first, and how it ended -/
structure Visit (ι : Type) where
  server : ι
  start : ℚ
  opened : Option ℚ
  events : List ConnectionEvent
  ended : Option (EndReason × ℚ)

/-- Where `run_connection` waits: for the connection, for a line, for its PING to be written, for a
message to be handled; or it has ended and the connection is closed. -/
inductive VisitPhase
  | connecting (due : ℚ)
  | reading (due : ℚ)
  | asking
  | handling
  | leaving

/-- Where `run_forever` stands. -/
inductive LoopPhase (ι : Type)
  | starting
  | visiting (visit : Visit ι) (phase : VisitPhase)
  | sleeping (due : ℚ)
  | stopped

/-- The client and its loop. `past` holds the calls that are over, with the time when their
connections were closed, newest first. -/
structure Connections (ι : Type) where
  client : IrcClient
  stopping : Bool
  phase : LoopPhase ι
  now : ℚ
  pongDeadline : ℚ
  registrationDeadline : ℚ
  index : ℕ
  backoff : ℕ
  past : List (Visit ι × ℚ)

/-- `others` is what the sender and the handlers change of the client meanwhile; `broken` raises
in `readline`. `drawn` and `token` are drawn, and so is `jitter`. -/
inductive ConnectionStep
  | begin
  | connected (ok : Bool)
  | line (raw : List Byte) (drawn : Str)
  | timeout (token : Str)
  | went (ok : Bool)
  | broken
  | closed (jitter : Fin 1000)
  | wake
  | close
  | others (outbound : List IRCMessage) (casemapping : Casemapping) (nicknameLength : ℕ)
  | pass (time : ℚ)

namespace Connections

variable {ι : Type} (cfg : IrcClientConfig ι) (u : UpperCase)

def init (client : IrcClient) : Connections ι := ⟨client, false, .starting, 0, 0, 0, 0, 0, []⟩

/-- The end of `run_connection` -/
def leave (w : Connections ι) (v : Visit ι) (reason : EndReason) : Connections ι :=
  { w with phase := .visiting { v with ended := some (reason, w.now) } .leaving }

/-- `timeout`, of the next `readline` -/
def timeout (w : Connections ι) : ℚ :=
  let timeout := match w.client.pingToken with
    | none => cfg.idleTimeout
    | some _ => max 0 (w.pongDeadline - w.now)
  if w.client.registered then timeout
  else min timeout (max 0 (w.registrationDeadline - w.now))

/-- The head of the loop of `run_connection` -/
def resume (w : Connections ι) (v : Visit ι) : Connections ι :=
  if w.stopping then w.leave v .stopped
  else { w with phase := .visiting v (.reading (w.now + w.timeout cfg)) }

/-- A connection is there, or it could not be made in time. -/
def establish (w : Connections ι) (v : Visit ι) (ok : Bool) : Connections ι :=
  if ok then
    match w.client.establish with
    | none => w.leave v .failed
    | some client =>
      let v := { v with opened := some w.now }
      { w with client := client, registrationDeadline := w.now + registrationTimeout }.resume cfg v
  else w.leave v .failed

/-- `readline` returned. -/
def readLine (w : Connections ι) (v : Visit ι) (raw : List Byte) (drawn : Str) : Connections ι :=
  match checkLine raw with
  | none => w.leave v .failed
  | some false => w.resume cfg { v with events := .line w.now none :: v.events }
  | some true =>
    match parseMessage u (decodeReplace raw) with
    | .error _ => w.resume cfg { v with events := .line w.now none :: v.events }
    | .ok message =>
      let v := { v with events := .line w.now (some message) :: v.events }
      match w.client.dispatchLine u drawn message with
      | none => w.leave v .failed
      | some client => { w with client := client, phase := .visiting v .handling }

/-- `TimeoutError` -/
def timeOut (w : Connections ι) (v : Visit ι) (token : Str) : Connections ι :=
  if w.client.registered = false ∧ w.registrationDeadline ≤ w.now then w.leave v .unregistered
  else if w.client.pingToken.isSome then w.leave v .silent
  else
    { w with
      client := { w.client with pingToken := some token }
      pongDeadline := w.now + cfg.pongTimeout
      phase := .visiting { v with events := .ping w.now token :: v.events } .asking }

/-- The pause after `backoff` sessions that did not last -/
def pause (backoff : ℕ) : ℚ := min 30 ((3 / 2) ^ backoff)

/-- The rest of the turn of `run_forever`, once the connection is closed -/
def settle (w : Connections ι) (v : Visit ι) (jitter : Fin 1000) : Connections ι :=
  let w := { w with past := (v, w.now) :: w.past }
  if w.stopping then { w with phase := .stopped }
  else if w.client.registered ∧ stableSessionSeconds ≤ w.now - v.start then
    { w with backoff := 0, phase := .sleeping (w.now + (pause 0 + jitter / 1000)) }
  else
    let backoff := min (w.backoff + 1) 8
    { w with
      index := w.index + 1
      backoff := backoff
      phase := .sleeping (w.now + (pause backoff + jitter / 1000)) }

def server (index : ℕ) : ι :=
  cfg.servers.get ⟨index % cfg.servers.length,
    Nat.mod_lt _ (List.length_pos_iff.mpr cfg.servers_ne)⟩

def step (w : Connections ι) : ConnectionStep → Option (Connections ι)
  | .begin =>
    match w.phase with
    | .starting =>
      if w.stopping then some { w with phase := .stopped }
      else some { w with
        client := { w.client with registered := false }
        phase := .visiting ⟨server cfg w.index, w.now, none, [], none⟩
          (.connecting (w.now + cfg.connectTimeout)) }
    | _ => none
  | .connected ok =>
    match w.phase with
    | .visiting v (.connecting due) => if ok ∧ due < w.now then none else some (w.establish cfg v ok)
    | _ => none
  | .line raw drawn =>
    match w.phase with
    | .visiting v (.reading _) => some (w.readLine cfg u v raw drawn)
    | _ => none
  | .timeout token =>
    match w.phase with
    | .visiting v (.reading due) => if due ≤ w.now then some (w.timeOut cfg v token) else none
    | _ => none
  | .went ok =>
    match w.phase with
    | .visiting v .asking | .visiting v .handling =>
      some (if ok then w.resume cfg v else w.leave v .failed)
    | _ => none
  | .broken =>
    match w.phase with
    | .visiting v (.reading _) => some (w.leave v .failed)
    | _ => none
  | .closed jitter =>
    match w.phase with
    | .visiting v .leaving => some (w.settle v jitter)
    | _ => none
  | .wake =>
    match w.phase with
    | .sleeping due => if due ≤ w.now then some { w with phase := .starting } else none
    | _ => none
  | .close => some { w with stopping := true }
  | .others outbound casemapping nicknameLength =>
    some { w with client := { w.client with
      outbound := outbound
      casemapping := casemapping
      nicknameLength := nicknameLength } }
  | .pass time => if w.now ≤ time then some { w with now := time } else none

end Connections

/-! ## What a connection shows -/

/-- The line is the answer to a PING with the token. -/
def ConnectionEvent.answers (token : Str) : ConnectionEvent → Bool
  | .line _ (some m) => decide (m.command = lit "PONG" ∧ m.params.getLast? = some token)
  | _ => false

/-- The line registers the client. -/
def ConnectionEvent.welcomes : ConnectionEvent → Bool
  | .line _ (some m) => decide (m.command = lit "001")
  | _ => false

/-- The PING that is not answered yet, and when it was sent -/
def outstanding : List ConnectionEvent → Option (ℚ × Str)
  | [] => none
  | .ping time token :: _ => some (time, token)
  | .line time message :: events => (outstanding events).filter fun asked =>
      !(ConnectionEvent.line time message).answers asked.2

namespace Visit

variable {ι : Type} (cfg : IrcClientConfig ι)

def registered (v : Visit ι) : Bool := v.events.any ConnectionEvent.welcomes

/-- A PING is sent where none is outstanding, and after a silence. -/
def Patient (opened : Option ℚ) (q : ℚ) (before : List ConnectionEvent) : Prop :=
  outstanding before = none ∧ (∀ t m, .line t m ∈ before → t + cfg.idleTimeout ≤ q) ∧
    ∃ o, opened = some o ∧ o + cfg.idleTimeout ≤ q

/-- A connection is given up for a PING that was not answered in time, or because it was not
registered in time. -/
structure Fair (v : Visit ι) : Prop where
  patient : ∀ after q token before, v.events = after ++ .ping q token :: before →
    Patient cfg v.opened q before
  silent : ∀ t, v.ended = some (.silent, t) →
    ∃ q token, outstanding v.events = some (q, token) ∧ q + cfg.pongTimeout ≤ t
  unregistered : ∀ t, v.ended = some (.unregistered, t) →
    v.registered = false ∧ ∃ o, v.opened = some o ∧ o + registrationTimeout ≤ t

end Visit

namespace IrcClient

variable {c c' : IrcClient} {u : UpperCase}

/-- The token and the registration are the same. -/
def Same (c c' : IrcClient) : Prop := c'.pingToken = c.pingToken ∧ c'.registered = c.registered

theorem same_send {command : Str} {params : List Str} {trailing : Option Str}
    (h : c.send command params trailing = some c') : c.Same c' := by
  rw [send_eq_some h]
  exact ⟨rfl, rfl⟩

theorem same_handleCap {m : IRCMessage} (h : c.handleCap u m = some c') : c.Same c' := by
  have hend : ∀ {d : IrcClient}, d.endCaps = some c' → d.Same c' := by
    intro d hd
    rw [endCaps_eq_some hd]
    exact ⟨rfl, rfl⟩
  have hrequest : ∀ {d : IrcClient} {offered : Finset Str} {otherwise : Option IrcClient},
      d.requestCaps offered otherwise = some c' → (otherwise = some c' → d.Same c') →
      d.Same c' := by
    intro d offered otherwise hd hotherwise
    rcases requestCaps_eq_some hd with ⟨text, -, rfl⟩ | ⟨-, hd⟩
    · exact ⟨rfl, rfl⟩
    · exact hotherwise hd
  have hsame : ∀ {d : IrcClient}, some d = some c' → d.Same c' := by
    rintro d ⟨⟩
    exact ⟨rfl, rfl⟩
  unfold handleCap at h
  split at h
  · dsimp only at h
    split_ifs at h
    · exact hsame h
    · obtain ⟨htoken, hregistered⟩ := hsame h
      exact ⟨htoken, hregistered⟩
    · obtain ⟨htoken, hregistered⟩ := hrequest h hend
      exact ⟨htoken, hregistered⟩
    · exact hrequest h hsame
    · exact hend h
    · exact hsame h
  · exact hsame h

/-- What `run_connection` reads of the client after a line -/
theorem dispatchLine_watched {drawn : Str} {m : IRCMessage} (time : ℚ)
    (h : c.dispatchLine u drawn m = some c') :
    c'.pingToken = c.pingToken.filter (fun token =>
      !(ConnectionEvent.line time (some m)).answers token) ∧
    c'.registered = (c.registered || (ConnectionEvent.line time (some m)).welcomes) := by
  have hquiet : c.Same c' → (∀ token, c.pingToken = some token →
      ¬ (m.command = lit "PONG" ∧ m.params.getLast? = some token)) → m.command ≠ lit "001" →
      c'.pingToken = c.pingToken.filter (fun token =>
        !(ConnectionEvent.line time (some m)).answers token) ∧
      c'.registered = (c.registered || (ConnectionEvent.line time (some m)).welcomes) := by
    rintro ⟨htoken, hregistered⟩ hpong hwelcome
    rw [htoken, hregistered]
    constructor
    · cases hc : c.pingToken with
      | none => rfl
      | some token => simp [ConnectionEvent.answers, Option.filter, hpong token hc]
    · simp [ConnectionEvent.welcomes, hwelcome]
  by_cases hcap : m.command = lit "CAP"
  · rw [dispatchLine_cap hcap] at h
    have hne : lit "CAP" ≠ lit "PONG" ∧ lit "CAP" ≠ lit "001" := by decide
    rw [← hcap] at hne
    exact hquiet (same_handleCap h) (fun token _ hpong => hne.1 hpong.1) hne.2
  · unfold dispatchLine at h
    split_ifs at h with hping hanswer hrefused
    · obtain rfl := Option.some.inj h
      have hne : lit "PING" ≠ lit "PONG" ∧ lit "PING" ≠ lit "001" := by decide
      rw [← hping] at hne
      exact hquiet ⟨rfl, rfl⟩ (fun token _ hpong => hne.1 hpong.1) hne.2
    · obtain rfl := Option.some.inj h
      obtain ⟨hpong, hsome, hlast⟩ := hanswer
      obtain ⟨token, htoken⟩ := Option.isSome_iff_exists.mp hsome
      have hne : lit "PONG" ≠ lit "001" := by decide
      rw [← hpong] at hne
      rw [htoken] at hlast ⊢
      constructor
      · simp [ConnectionEvent.answers, Option.filter, hpong, hlast]
      · simp [ConnectionEvent.welcomes, hne]
    · have hne : ∀ command ∈ nickRefusals, command ≠ lit "PONG" ∧ command ≠ lit "001" := by decide
      obtain ⟨hpong, hwelcome⟩ := hne m.command hrefused.1
      unfold nickCollision at h
      split_ifs at h
      obtain ⟨htoken, hregistered⟩ := same_send h
      exact hquiet ⟨htoken, hregistered⟩ (fun token _ h => hpong h.1) hwelcome
    · obtain rfl := Option.some.inj h
      have htoken : (c.trackRegistration m).pingToken = c.pingToken := by
        unfold trackRegistration
        split_ifs <;> rfl
      have hpong : ∀ token, c.pingToken = some token →
          ¬ (m.command = lit "PONG" ∧ m.params.getLast? = some token) := by
        rintro token hsome ⟨hpong, hlast⟩
        exact hanswer ⟨hpong, by rw [hsome]; rfl, hlast.trans hsome.symm⟩
      by_cases hwelcome : m.command = lit "001"
      · have hne : lit "001" ≠ lit "PONG" := by decide
        rw [← hwelcome] at hne
        rw [htoken]
        constructor
        · cases hc : c.pingToken with
          | none => rfl
          | some token => simp [ConnectionEvent.answers, Option.filter, hne]
        · simp [ConnectionEvent.welcomes, trackRegistration, hwelcome]
      · refine hquiet ⟨htoken, ?_⟩ hpong hwelcome
        unfold trackRegistration
        rw [if_neg hwelcome]
        split_ifs <;> rfl

theorem establish_fresh (h : c.establish = some c') :
    c'.pingToken = none ∧ c'.registered = false := by
  unfold establish at h
  obtain ⟨c₁, h₁, h⟩ := Option.bind_eq_some_iff.mp h
  obtain ⟨c₂, h₂, h₃⟩ := Option.bind_eq_some_iff.mp h
  rw [send_eq_some h₃, send_eq_some h₂, send_eq_some h₁]
  exact ⟨rfl, rfl⟩

/-- The line that registers the client is always handled. -/
theorem not_welcome_of_raised {drawn : Str} {m : IRCMessage}
    (h : c.dispatchLine u drawn m = none) : m.command ≠ lit "001" := by
  intro hwelcome
  have hne : lit "001" ≠ lit "PING" ∧ lit "001" ≠ lit "PONG" ∧ lit "001" ∉ nickRefusals ∧
      lit "001" ≠ lit "CAP" := by decide
  obtain ⟨hping, hpong, hrefusal, hcap⟩ := hne
  unfold dispatchLine at h
  rw [hwelcome, if_neg hping, if_neg fun h => hpong h.1, if_neg fun h => hrefusal h.1,
    if_neg hcap] at h
  cases h

end IrcClient

/-! ## What the loops keep -/

namespace Connections

variable {ι : Type} (cfg : IrcClientConfig ι)

/-- The client was registered in the session, and the session was a long one. -/
def lasted (e : Visit ι × ℚ) : Bool :=
  e.1.registered && decide (stableSessionSeconds ≤ e.2 - e.1.start)

/-- How many sessions did not last -/
def failures (past : List (Visit ι × ℚ)) : ℕ := past.countP fun e => !lasted e

/-- How many sessions since the last that lasted -/
def streak (past : List (Visit ι × ℚ)) : ℕ := (past.takeWhile fun e => !lasted e).length

/-- The pause after the last session is over. -/
def Rested (past : List (Visit ι × ℚ)) (time : ℚ) : Prop :=
  ∀ e ∈ past.head?, e.2 + pause (min (streak past) 8) ≤ time

/-- The session that follows the past ones -/
structure Turn (past : List (Visit ι × ℚ)) (v : Visit ι) : Prop where
  server : v.server = server cfg (failures past)
  start : Rested past v.start

/-- `run_connection` knows of the connection what it needs. -/
structure Watches (w : Connections ι) (v : Visit ι) : Prop where
  ended : v.ended = none
  token : w.client.pingToken = (outstanding v.events).map Prod.snd
  deadline : ∀ q token, outstanding v.events = some (q, token) →
    w.pongDeadline = q + cfg.pongTimeout
  opened : ∃ o, v.opened = some o ∧ w.registrationDeadline = o + registrationTimeout
  registered : w.client.registered = v.registered

/-- The timer of `readline` does not end before what it is for. -/
def Timed (w : Connections ι) (v : Visit ι) (due : ℚ) : Prop :=
  w.client.registered = false ∧ w.registrationDeadline ≤ due ∨
  match outstanding v.events with
  | none => (∀ t m, .line t m ∈ v.events → t + cfg.idleTimeout ≤ due) ∧
      ∀ o, v.opened = some o → o + cfg.idleTimeout ≤ due
  | some _ => w.pongDeadline ≤ due

/-- The timer of `readline` does not end later than it has to. -/
structure Soon (w : Connections ι) (v : Visit ι) (due : ℚ) : Prop where
  idle : outstanding v.events = none → due ≤ w.now + cfg.idleTimeout
  pong : ∀ q token, outstanding v.events = some (q, token) → due ≤ max w.now (q + cfg.pongTimeout)
  registration : v.registered = false → ∀ o, v.opened = some o →
    due ≤ max w.now (o + registrationTimeout)

/-- Nothing happened later than now. -/
structure Recorded (w : Connections ι) (v : Visit ι) : Prop where
  lines : ∀ t m, .line t m ∈ v.events → t ≤ w.now
  opened : ∀ o, v.opened = some o → o ≤ w.now

def Stands (w : Connections ι) (v : Visit ι) : VisitPhase → Prop
  | .connecting _ => v.events = [] ∧ v.opened = none ∧ v.ended = none ∧ w.client.registered = false
  | .reading due => Watches cfg w v ∧ Timed cfg w v due ∧ Soon cfg w v due
  | .asking | .handling => Watches cfg w v
  | .leaving => w.client.registered = v.registered

def Current (w : Connections ι) : LoopPhase ι → Prop
  | .starting => Rested w.past w.now
  | .visiting v p => Turn cfg w.past v ∧ v.Fair cfg ∧ w.Recorded v ∧ Stands cfg w v p
  | .sleeping due => Rested w.past due
  | .stopped => True

structure Inv (w : Connections ι) : Prop where
  current : Current cfg w w.phase
  counts : w.phase = .stopped ∨ w.index = failures w.past ∧ w.backoff = min (streak w.past) 8
  past : ∀ newer e older, w.past = newer ++ e :: older → e.1.Fair cfg ∧ Turn cfg older e.1

variable {cfg} {u : UpperCase} {w w' : Connections ι} {v : Visit ι}

/-- A step that leaves the past alone -/
theorem Inv.congr (hi : Inv cfg w) (hpast : w'.past = w.past) (hindex : w'.index = w.index)
    (hbackoff : w'.backoff = w.backoff) (hstopped : w.phase = .stopped → w'.phase = .stopped)
    (hcurrent : Current cfg w' w'.phase) : Inv cfg w' where
  current := hcurrent
  counts := by
    rw [hindex, hbackoff, hpast]
    exact hi.counts.imp_left hstopped
  past := by
    rw [hpast]
    exact hi.past

theorem inv_init (client : IrcClient) : Inv cfg (init client : Connections ι) where
  current := by simp [init, Current, Rested]
  counts := .inr ⟨rfl, rfl⟩
  past := by simp [init]

/-- What a visit in progress keeps when it ends. -/
theorem current_leave {reason : EndReason} (hturn : Turn cfg w.past v) (hfair : v.Fair cfg)
    (hrecorded : w.Recorded v) (hregistered : w.client.registered = v.registered)
    (hsilent : reason = .silent → ∃ q token, outstanding v.events = some (q, token) ∧
      q + cfg.pongTimeout ≤ w.now)
    (hunregistered : reason = .unregistered → v.registered = false ∧
      ∃ o, v.opened = some o ∧ o + registrationTimeout ≤ w.now) :
    Current cfg (w.leave v reason) (w.leave v reason).phase := by
  refine ⟨⟨hturn.server, hturn.start⟩, ⟨hfair.patient, fun t ht => ?_, fun t ht => ?_⟩,
    ⟨hrecorded.lines, hrecorded.opened⟩, hregistered⟩
  · obtain ⟨hreason, rfl⟩ := Prod.mk.inj (Option.some.inj ht)
    exact hsilent hreason
  · obtain ⟨hreason, rfl⟩ := Prod.mk.inj (Option.some.inj ht)
    exact hunregistered hreason

theorem timed_timeout (hrecorded : w.Recorded v) (hwatches : Watches cfg w v) :
    Timed cfg w v (w.now + w.timeout cfg) := by
  have hlate : ∀ deadline : ℚ, deadline ≤ w.now + max 0 (deadline - w.now) := by
    intro deadline
    have hmax := le_max_right 0 (deadline - w.now)
    linarith
  have hasked : ∀ timeout : ℚ, (match w.client.pingToken with
      | none => cfg.idleTimeout
      | some _ => max 0 (w.pongDeadline - w.now)) = timeout →
      match outstanding v.events with
      | none => (∀ t m, .line t m ∈ v.events → t + cfg.idleTimeout ≤ w.now + timeout) ∧
          ∀ o, v.opened = some o → o + cfg.idleTimeout ≤ w.now + timeout
      | some _ => w.pongDeadline ≤ w.now + timeout := by
    rintro timeout rfl
    rw [hwatches.token]
    cases outstanding v.events with
    | none =>
      dsimp only [Option.map_none]
      constructor
      · intro t m hline
        have hpast := hrecorded.lines t m hline
        linarith
      · intro o ho
        have hpast := hrecorded.opened o ho
        linarith
    | some asked => exact hlate _
  unfold timeout Timed
  dsimp only
  split_ifs with hregistered
  · exact .inr (hasked _ rfl)
  · rcases min_choice (match w.client.pingToken with
      | none => cfg.idleTimeout
      | some _ => max 0 (w.pongDeadline - w.now)) (max 0 (w.registrationDeadline - w.now)) with
      hmin | hmin
    · rw [hmin]
      exact .inr (hasked _ rfl)
    · rw [hmin]
      exact .inl ⟨eq_false_of_ne_true hregistered, hlate _⟩

theorem soon_timeout (hwatches : Watches cfg w v) : Soon cfg w v (w.now + w.timeout cfg) := by
  have hlate : ∀ deadline : ℚ, w.now + max 0 (deadline - w.now) = max w.now deadline := by
    intro deadline
    rw [← max_add_add_left]
    congr 1
    · ring
    · ring
  have hshort : ∀ timeout : ℚ, (match w.client.pingToken with
      | none => cfg.idleTimeout
      | some _ => max 0 (w.pongDeadline - w.now)) = timeout → w.timeout cfg ≤ timeout := by
    rintro _ rfl
    unfold timeout
    dsimp only
    split_ifs
    · exact le_refl _
    · exact min_le_left _ _
  refine ⟨fun hnone => ?_, fun q token hasked => ?_, fun hv o ho => ?_⟩
  · have hle := hshort cfg.idleTimeout (by rw [hwatches.token, hnone]; rfl)
    gcongr
  · have hle := hshort (max 0 (w.pongDeadline - w.now)) (by rw [hwatches.token, hasked]; rfl)
    rw [← hwatches.deadline q token hasked, ← hlate]
    gcongr
  · obtain ⟨o', ho', hdeadline⟩ := hwatches.opened
    obtain rfl := Option.some.inj (ho.symm.trans ho')
    rw [← hdeadline, ← hlate]
    have hle : w.timeout cfg ≤ max 0 (w.registrationDeadline - w.now) := by
      unfold timeout
      rw [hwatches.registered, hv]
      exact min_le_right _ _
    gcongr

theorem current_resume (hturn : Turn cfg w.past v) (hfair : v.Fair cfg) (hrecorded : w.Recorded v)
    (hwatches : Watches cfg w v) : Current cfg (w.resume cfg v) (w.resume cfg v).phase := by
  unfold resume
  split_ifs with hstopping
  · exact current_leave hturn hfair hrecorded hwatches.registered (by simp) (by simp)
  · have htimed := timed_timeout hrecorded hwatches
    obtain ⟨hidle, hpong, hregistration⟩ := soon_timeout hwatches
    exact ⟨hturn, hfair, ⟨hrecorded.lines, hrecorded.opened⟩,
      ⟨hwatches.ended, hwatches.token, hwatches.deadline, hwatches.opened, hwatches.registered⟩,
      htimed, hidle, hpong, hregistration⟩

/-- A line, which may answer the PING and register the client -/
theorem Watches.line (h : Watches cfg w v) {client : IrcClient} {message : Option IRCMessage}
    {phase : LoopPhase ι}
    (htoken : client.pingToken = w.client.pingToken.filter fun token =>
      !(ConnectionEvent.line w.now message).answers token)
    (hregistered : client.registered =
      (w.client.registered || (ConnectionEvent.line w.now message).welcomes)) :
    Watches cfg { w with client := client, phase := phase }
      { v with events := .line w.now message :: v.events } where
  ended := h.ended
  token := by
    rw [htoken, h.token, outstanding]
    cases outstanding v.events with
    | none => rfl
    | some asked => simp only [Option.map_some, Option.filter]; split_ifs <;> rfl
  deadline := by
    intro q token hasked
    rw [outstanding, Option.filter_eq_some_iff] at hasked
    exact h.deadline q token hasked.1
  opened := h.opened
  registered := by
    rw [hregistered, h.registered, Visit.registered, Visit.registered, List.any_cons, Bool.or_comm]

theorem fair_line (h : v.Fair cfg) (hended : v.ended = none) (time : ℚ)
    (message : Option IRCMessage) :
    Visit.Fair cfg { v with events := .line time message :: v.events } where
  patient := by
    intro after q token before hevents
    cases after with
    | nil => simp at hevents
    | cons e after =>
      obtain ⟨-, hrest⟩ := List.cons.inj hevents
      exact h.patient after q token before hrest
  silent := fun t ht => by simp [hended] at ht
  unregistered := fun t ht => by simp [hended] at ht

theorem Recorded.line (h : w.Recorded v) (message : Option IRCMessage) :
    w.Recorded { v with events := .line w.now message :: v.events } where
  lines := by
    intro t m hline
    rcases List.mem_cons.mp hline with heq | hline
    · exact (ConnectionEvent.line.inj heq).1.le
    · exact h.lines t m hline
  opened := h.opened

theorem current_readLine (hturn : Turn cfg w.past v) (hfair : v.Fair cfg) (hrecorded : w.Recorded v)
    (hwatches : Watches cfg w v) (raw : List Byte) (drawn : Str) :
    Current cfg (w.readLine cfg u v raw drawn) (w.readLine cfg u v raw drawn).phase := by
  have hskip : Current cfg (w.resume cfg { v with events := .line w.now none :: v.events })
      (w.resume cfg { v with events := .line w.now none :: v.events }).phase := by
    refine current_resume ⟨hturn.server, hturn.start⟩ (fair_line hfair hwatches.ended w.now none)
      (hrecorded.line none) (hwatches.line ?_ ?_)
    · cases w.client.pingToken <;> rfl
    · simp [ConnectionEvent.welcomes]
  unfold readLine
  split
  · exact current_leave hturn hfair hrecorded hwatches.registered (by simp) (by simp)
  · exact hskip
  · split
    · exact hskip
    · rename_i message hmessage
      have hfair' := fair_line hfair hwatches.ended w.now (some message)
      have hrecorded' := hrecorded.line (some message)
      dsimp only
      split
      · rename_i hraised
        have hsilent : (ConnectionEvent.line w.now (some message)).welcomes = false :=
          decide_eq_false (IrcClient.not_welcome_of_raised hraised)
        have hregistered := hwatches.registered
        refine current_leave ⟨hturn.server, hturn.start⟩ hfair' hrecorded' ?_ (by simp) (by simp)
        rw [Visit.registered, List.any_cons, hsilent, Bool.false_or]
        exact hregistered
      · rename_i client hclient
        obtain ⟨htoken, hregistered⟩ := IrcClient.dispatchLine_watched w.now hclient
        exact ⟨⟨hturn.server, hturn.start⟩, hfair', ⟨hrecorded'.lines, hrecorded'.opened⟩,
          hwatches.line htoken hregistered⟩

theorem current_establish (hturn : Turn cfg w.past v) (hfair : v.Fair cfg) (hrecorded : w.Recorded v)
    {due : ℚ} (hstands : Stands cfg w v (.connecting due)) (ok : Bool) :
    Current cfg (w.establish cfg v ok) (w.establish cfg v ok).phase := by
  obtain ⟨hevents, hopened, hended, hregistered⟩ := hstands
  have hnone : v.registered = false := by simp [Visit.registered, hevents]
  have hleave : Current cfg (w.leave v .failed) (w.leave v .failed).phase :=
    current_leave hturn hfair hrecorded (hregistered.trans hnone.symm) (by simp) (by simp)
  unfold establish
  split_ifs
  · split
    · exact hleave
    · rename_i client hclient
      obtain ⟨htoken, hfresh⟩ := IrcClient.establish_fresh hclient
      dsimp only
      refine current_resume ⟨hturn.server, hturn.start⟩ ⟨?_, ?_, ?_⟩ ⟨?_, ?_⟩ ⟨?_, ?_, ?_, ?_, ?_⟩
      · simp [hevents]
      · simp [hended]
      · simp [hended]
      · simp [hevents]
      · simp
      · exact hended
      · rw [htoken, hevents]
        rfl
      · simp [hevents, outstanding]
      · exact ⟨w.now, rfl, rfl⟩
      · exact hfresh.trans hnone.symm
  · exact hleave

/-- The timer ends. -/
theorem current_timeOut (hturn : Turn cfg w.past v) (hfair : v.Fair cfg) (hrecorded : w.Recorded v)
    (hwatches : Watches cfg w v) {due : ℚ} (htimed : Timed cfg w v due) (hdue : due ≤ w.now)
    (token : Str) : Current cfg (w.timeOut cfg v token) (w.timeOut cfg v token).phase := by
  obtain ⟨o, hopened, hdeadline⟩ := hwatches.opened
  unfold timeOut
  split_ifs with hlate hasked
  · obtain ⟨hregistered, hlate⟩ := hlate
    refine current_leave hturn hfair hrecorded hwatches.registered (by simp) fun _ => ?_
    exact ⟨hwatches.registered.symm.trans hregistered, o, hopened, hdeadline ▸ hlate⟩
  · have htimed := htimed.resolve_left fun h => hlate ⟨h.1, h.2.trans hdue⟩
    rw [hwatches.token, Option.isSome_map] at hasked
    obtain ⟨⟨q, sent⟩, hsent⟩ := Option.isSome_iff_exists.mp hasked
    refine current_leave hturn hfair hrecorded hwatches.registered (fun _ => ⟨q, sent, hsent, ?_⟩)
      (by simp)
    rw [hsent] at htimed
    rw [← hwatches.deadline q sent hsent]
    exact htimed.trans hdue
  · have htimed := htimed.resolve_left fun h => hlate ⟨h.1, h.2.trans hdue⟩
    have hnone : outstanding v.events = none := by
      rw [hwatches.token, Option.isSome_map] at hasked
      simpa using hasked
    rw [hnone] at htimed
    obtain ⟨hlines, hquiet⟩ := htimed
    refine ⟨⟨hturn.server, hturn.start⟩, ⟨?_, ?_, ?_⟩, ⟨?_, hrecorded.opened⟩,
      ⟨hwatches.ended, rfl, ?_, ⟨o, hopened, hdeadline⟩, hwatches.registered⟩⟩
    · intro after q sent before hevents
      cases after with
      | nil =>
        obtain ⟨hping, rfl⟩ := List.cons.inj hevents
        obtain ⟨rfl, rfl⟩ := ConnectionEvent.ping.inj hping
        exact ⟨hnone, fun t m hline => (hlines t m hline).trans hdue, o, hopened,
          (hquiet o hopened).trans hdue⟩
      | cons e after =>
        obtain ⟨-, hrest⟩ := List.cons.inj hevents
        exact hfair.patient after q sent before hrest
    · simp [hwatches.ended]
    · simp [hwatches.ended]
    · intro t m hline
      exact hrecorded.lines t m ((List.mem_cons.mp hline).resolve_left (by simp))
    · intro q sent hsent
      obtain ⟨rfl, -⟩ := Prod.mk.inj (Option.some.inj hsent)
      rfl

theorem failures_cons (e : Visit ι × ℚ) (past : List (Visit ι × ℚ)) :
    failures (e :: past) = if lasted e then failures past else failures past + 1 := by
  rw [failures, List.countP_cons]
  cases lasted e <;> simp [failures]

theorem streak_cons (e : Visit ι × ℚ) (past : List (Visit ι × ℚ)) :
    streak (e :: past) = if lasted e then 0 else streak past + 1 := by
  rw [streak, List.takeWhile_cons]
  cases lasted e <;> simp [streak]

/-- The session is over, and counts as one that lasted or as one that did not. -/
theorem Inv.settle (hi : Inv cfg w) (hphase : w.phase = .visiting v .leaving) (jitter : Fin 1000) :
    Inv cfg (w.settle v jitter) := by
  have hcurrent := hi.current
  rw [hphase] at hcurrent
  obtain ⟨hturn, hfair, -, hregistered⟩ := hcurrent
  obtain ⟨hindex, hbackoff⟩ := hi.counts.resolve_left (by simp [hphase])
  have hpast : ∀ newer e older, (v, w.now) :: w.past = newer ++ e :: older →
      e.1.Fair cfg ∧ Turn cfg older e.1 := by
    intro newer e older heq
    cases newer with
    | nil =>
      obtain ⟨rfl, rfl⟩ := List.cons.inj heq
      exact ⟨hfair, hturn⟩
    | cons d newer => exact hi.past newer e older (List.cons.inj heq).2
  have hjitter : (0 : ℚ) ≤ (jitter : ℕ) / 1000 := by positivity
  have hrested : ∀ backoff : ℕ, min (streak ((v, w.now) :: w.past)) 8 = backoff →
      Rested ((v, w.now) :: w.past) (w.now + (pause backoff + (jitter : ℕ) / 1000)) := by
    rintro backoff rfl e he
    obtain rfl : (v, w.now) = e := by simpa using he
    dsimp only
    linarith
  unfold Connections.settle
  dsimp only
  by_cases hstopping : w.stopping = true
  · rw [if_pos hstopping]
    exact ⟨trivial, .inl rfl, hpast⟩
  · rw [if_neg hstopping]
    by_cases hlasted : w.client.registered = true ∧ stableSessionSeconds ≤ w.now - v.start
    · have hlong : lasted (v, w.now) = true := by
        rw [lasted, ← hregistered, hlasted.1, decide_eq_true hlasted.2]
        rfl
      rw [if_pos hlasted]
      have hcounts := failures_cons (v, w.now) w.past
      have hstreak := streak_cons (v, w.now) w.past
      rw [if_pos hlong] at hcounts hstreak
      refine ⟨hrested 0 (by rw [hstreak]; rfl), .inr ⟨?_, ?_⟩, hpast⟩
      · rw [hcounts]
        exact hindex
      · rw [hstreak]
        rfl
    · have hshort : lasted (v, w.now) = false := by
        rw [lasted, ← hregistered, Bool.and_eq_false_iff]
        by_cases hwelcomed : w.client.registered = true
        · exact .inr (decide_eq_false fun hlong => hlasted ⟨hwelcomed, hlong⟩)
        · exact .inl (eq_false_of_ne_true hwelcomed)
      rw [if_neg hlasted]
      have hcounts := failures_cons (v, w.now) w.past
      have hstreak := streak_cons (v, w.now) w.past
      rw [if_neg (by simp [hshort])] at hcounts hstreak
      have hnext : min (streak ((v, w.now) :: w.past)) 8 = min (w.backoff + 1) 8 := by
        rw [hstreak, hbackoff]
        omega
      refine ⟨hrested _ hnext, .inr ⟨?_, hnext.symm⟩, hpast⟩
      rw [hcounts]
      exact congrArg (· + 1) hindex

/-- Time passes, and what the loops do not read of the client changes. -/
theorem current_mono (hpast : w'.past = w.past) (htoken : w'.client.pingToken = w.client.pingToken)
    (hregistered : w'.client.registered = w.client.registered)
    (hpong : w'.pongDeadline = w.pongDeadline)
    (hdeadline : w'.registrationDeadline = w.registrationDeadline) (hnow : w.now ≤ w'.now)
    {phase : LoopPhase ι} (h : Current cfg w phase) : Current cfg w' phase := by
  have hwatches : ∀ {v : Visit ι}, Watches cfg w v → Watches cfg w' v := by
    intro v hv
    refine ⟨hv.ended, htoken.trans hv.token, ?_, ?_, hregistered.trans hv.registered⟩
    · rw [hpong]
      exact hv.deadline
    · rw [hdeadline]
      exact hv.opened
  cases phase with
  | starting =>
    have hrested : Rested w'.past w.now := by
      rw [hpast]
      exact h
    exact fun e he => (hrested e he).trans hnow
  | sleeping due =>
    have hrested : Rested w'.past due := by
      rw [hpast]
      exact h
    exact hrested
  | stopped => trivial
  | visiting v p =>
    obtain ⟨hturn, hfair, hrecorded, hstands⟩ := h
    refine ⟨by rw [hpast]; exact hturn, hfair, ⟨fun t m hline => ?_, fun o ho => ?_⟩, ?_⟩
    · exact (hrecorded.lines t m hline).trans hnow
    · exact (hrecorded.opened o ho).trans hnow
    · cases p with
      | connecting due =>
        obtain ⟨hevents, hopened, hended, hfresh⟩ := hstands
        exact ⟨hevents, hopened, hended, hregistered.trans hfresh⟩
      | reading due =>
        obtain ⟨hknown, htimed, hsoon⟩ := hstands
        refine ⟨hwatches hknown, ?_, fun hnone => ?_, fun q token hasked => ?_, fun hv o ho => ?_⟩
        · rw [Timed, hregistered, hdeadline, hpong]
          exact htimed
        · exact (hsoon.idle hnone).trans (by gcongr)
        · exact (hsoon.pong q token hasked).trans (by gcongr)
        · exact (hsoon.registration hv o ho).trans (by gcongr)
      | asking => exact hwatches hstands
      | handling => exact hwatches hstands
      | leaving => exact hregistered.trans hstands

theorem Inv.mono (hi : Inv cfg w) (hphase : w'.phase = w.phase) (hpast : w'.past = w.past)
    (hindex : w'.index = w.index) (hbackoff : w'.backoff = w.backoff)
    (htoken : w'.client.pingToken = w.client.pingToken)
    (hregistered : w'.client.registered = w.client.registered)
    (hpong : w'.pongDeadline = w.pongDeadline)
    (hdeadline : w'.registrationDeadline = w.registrationDeadline) (hnow : w.now ≤ w'.now) :
    Inv cfg w' := by
  refine hi.congr hpast hindex hbackoff hphase.trans ?_
  rw [hphase]
  exact current_mono hpast htoken hregistered hpong hdeadline hnow hi.current

/-- A step of `run_connection` -/
theorem Inv.visit (hi : Inv cfg w) {p : VisitPhase} (hphase : w.phase = .visiting v p)
    (hpast : w'.past = w.past) (hindex : w'.index = w.index) (hbackoff : w'.backoff = w.backoff)
    (h : Turn cfg w.past v → v.Fair cfg → w.Recorded v → Stands cfg w v p →
      Current cfg w' w'.phase) : Inv cfg w' := by
  have hcurrent := hi.current
  rw [hphase] at hcurrent
  obtain ⟨hturn, hfair, hrecorded, hstands⟩ := hcurrent
  exact hi.congr hpast hindex hbackoff (by simp [hphase]) (h hturn hfair hrecorded hstands)

/-- What the steps of `run_connection` leave alone -/
theorem resume_past (w : Connections ι) (v : Visit ι) : (w.resume cfg v).past = w.past ∧
    (w.resume cfg v).index = w.index ∧ (w.resume cfg v).backoff = w.backoff := by
  unfold resume
  split_ifs <;> exact ⟨rfl, rfl, rfl⟩

theorem establish_past (cfg : IrcClientConfig ι) (w : Connections ι) (v : Visit ι) (ok : Bool) :
    (w.establish cfg v ok).past = w.past ∧ (w.establish cfg v ok).index = w.index ∧
      (w.establish cfg v ok).backoff = w.backoff := by
  unfold establish
  split_ifs
  · split
    · exact ⟨rfl, rfl, rfl⟩
    · exact resume_past _ _
  · exact ⟨rfl, rfl, rfl⟩

theorem readLine_past (cfg : IrcClientConfig ι) (u : UpperCase) (w : Connections ι) (v : Visit ι)
    (raw : List Byte) (drawn : Str) :
    (w.readLine cfg u v raw drawn).past = w.past ∧
      (w.readLine cfg u v raw drawn).index = w.index ∧
      (w.readLine cfg u v raw drawn).backoff = w.backoff := by
  unfold readLine
  split
  · exact ⟨rfl, rfl, rfl⟩
  · exact resume_past _ _
  · split
    · exact resume_past _ _
    · dsimp only
      split <;> exact ⟨rfl, rfl, rfl⟩

theorem timeOut_past (cfg : IrcClientConfig ι) (w : Connections ι) (v : Visit ι) (token : Str) :
    (w.timeOut cfg v token).past = w.past ∧ (w.timeOut cfg v token).index = w.index ∧
      (w.timeOut cfg v token).backoff = w.backoff := by
  unfold timeOut
  split_ifs <;> exact ⟨rfl, rfl, rfl⟩

theorem Inv.step (hi : Inv cfg w) {a : ConnectionStep} (h : step cfg u w a = some w') :
    Inv cfg w' := by
  have hcurrent := hi.current
  cases a with
  | begin =>
    simp only [Connections.step] at h
    split at h
    · rename_i hphase
      split_ifs at h with hstopping
      · obtain rfl := Option.some.inj h
        exact ⟨trivial, .inl rfl, hi.past⟩
      · obtain rfl := Option.some.inj h
        obtain ⟨hindex, -⟩ := hi.counts.resolve_left (by simp [hphase])
        rw [hphase] at hcurrent
        refine hi.congr rfl rfl rfl (by simp [hphase]) ⟨⟨?_, hcurrent⟩, ⟨?_, ?_, ?_⟩, ⟨?_, ?_⟩, ?_⟩
        · exact congrArg (server cfg) hindex
        all_goals simp [Stands]
    · cases h
  | connected ok =>
    simp only [Connections.step] at h
    split at h
    · rename_i v due hphase
      split_ifs at h
      obtain rfl := Option.some.inj h
      obtain ⟨hpast, hindex, hbackoff⟩ := establish_past cfg w v ok
      exact hi.visit hphase hpast hindex hbackoff fun hturn hfair hrecorded hstands =>
        current_establish hturn hfair hrecorded hstands ok
    · cases h
  | line raw drawn =>
    simp only [Connections.step] at h
    split at h
    · rename_i v due hphase
      obtain rfl := Option.some.inj h
      obtain ⟨hpast, hindex, hbackoff⟩ := readLine_past cfg u w v raw drawn
      exact hi.visit hphase hpast hindex hbackoff fun hturn hfair hrecorded hstands =>
        current_readLine hturn hfair hrecorded hstands.1 raw drawn
    · cases h
  | timeout token =>
    simp only [Connections.step] at h
    split at h
    · rename_i v due hphase
      split_ifs at h with hdue
      obtain rfl := Option.some.inj h
      obtain ⟨hpast, hindex, hbackoff⟩ := timeOut_past cfg w v token
      exact hi.visit hphase hpast hindex hbackoff fun hturn hfair hrecorded hstands =>
        current_timeOut hturn hfair hrecorded hstands.1 hstands.2.1 hdue token
    · cases h
  | went ok =>
    have hgoes : ∀ v, Turn cfg w.past v → v.Fair cfg → w.Recorded v → Watches cfg w v →
        Current cfg (if ok then w.resume cfg v else w.leave v .failed)
          (if ok then w.resume cfg v else w.leave v .failed).phase := by
      intro v hturn hfair hrecorded hwatches
      split_ifs
      · exact current_resume hturn hfair hrecorded hwatches
      · exact current_leave hturn hfair hrecorded hwatches.registered (by simp) (by simp)
    have hsame : ∀ v, (if ok then w.resume cfg v else w.leave v .failed).past = w.past ∧
        (if ok then w.resume cfg v else w.leave v .failed).index = w.index ∧
        (if ok then w.resume cfg v else w.leave v .failed).backoff = w.backoff := by
      intro v
      split_ifs
      · exact resume_past w v
      · exact ⟨rfl, rfl, rfl⟩
    simp only [Connections.step] at h
    split at h
    · rename_i v hphase
      obtain rfl := Option.some.inj h
      obtain ⟨hpast, hindex, hbackoff⟩ := hsame v
      exact hi.visit hphase hpast hindex hbackoff (hgoes v)
    · rename_i v hphase
      obtain rfl := Option.some.inj h
      obtain ⟨hpast, hindex, hbackoff⟩ := hsame v
      exact hi.visit hphase hpast hindex hbackoff (hgoes v)
    · cases h
  | broken =>
    simp only [Connections.step] at h
    split at h
    · rename_i v due hphase
      obtain rfl := Option.some.inj h
      exact hi.visit hphase rfl rfl rfl fun hturn hfair hrecorded hstands =>
        current_leave hturn hfair hrecorded hstands.1.registered (by simp) (by simp)
    · cases h
  | closed jitter =>
    simp only [Connections.step] at h
    split at h
    · rename_i v hphase
      obtain rfl := Option.some.inj h
      exact hi.settle hphase jitter
    · cases h
  | wake =>
    simp only [Connections.step] at h
    split at h
    · rename_i due hphase
      split_ifs at h with hdue
      obtain rfl := Option.some.inj h
      rw [hphase] at hcurrent
      exact hi.congr rfl rfl rfl (by simp [hphase]) fun e he => (hcurrent e he).trans hdue
    · cases h
  | close =>
    obtain rfl := Option.some.inj h
    exact hi.mono rfl rfl rfl rfl rfl rfl rfl rfl (le_refl w.now)
  | others outbound casemapping nicknameLength =>
    obtain rfl := Option.some.inj h
    exact hi.mono rfl rfl rfl rfl rfl rfl rfl rfl (le_refl w.now)
  | pass time =>
    simp only [Connections.step] at h
    split_ifs at h with htime
    obtain rfl := Option.some.inj h
    exact hi.mono rfl rfl rfl rfl rfl rfl rfl rfl htime

/-- The calls of `run_connection`, the present one first -/
def visits (w : Connections ι) : List (Visit ι) :=
  (match w.phase with
    | .visiting v _ => [v]
    | _ => []) ++ w.past.map Prod.fst

theorem Inv.fair (hi : Inv cfg w) (hv : v ∈ w.visits) : v.Fair cfg := by
  rcases List.mem_append.mp hv with hv | hv
  · have hcurrent := hi.current
    split at hv
    · rename_i v' p hphase
      obtain rfl := List.mem_singleton.mp hv
      rw [hphase] at hcurrent
      exact hcurrent.2.1
    · simp at hv
  · obtain ⟨e, he, rfl⟩ := List.mem_map.mp hv
    obtain ⟨newer, older, hpast⟩ := List.append_of_mem he
    exact (hi.past newer e older hpast).1

/-- Sessions in a row that did not last go round all servers. -/
theorem Inv.round (hi : Inv cfg w) {newer block older : List (Visit ι × ℚ)}
    (hpast : w.past = newer ++ block ++ older) (hblock : ∀ e ∈ block, lasted e = false)
    (hlength : cfg.servers.length ≤ block.length) {s : ι} (hs : s ∈ cfg.servers) :
    ∃ e ∈ block, e.1.server = s := by
  obtain ⟨i, hi', rfl⟩ := List.mem_iff_getElem.mp hs
  have hpos : 0 < cfg.servers.length := List.length_pos_iff.mpr cfg.servers_ne
  -- The session with `j` sessions of the block before it has the turn of the server `i`.
  obtain ⟨j, hj, hturn⟩ : ∃ j < cfg.servers.length,
      (failures older + j) % cfg.servers.length = i := by
    refine ⟨(i + (cfg.servers.length - failures older % cfg.servers.length)) % cfg.servers.length,
      Nat.mod_lt _ hpos, ?_⟩
    have hmod := Nat.mod_lt (failures older) hpos
    have hsplit := Nat.div_add_mod (failures older) cfg.servers.length
    have hsum : failures older + (i + (cfg.servers.length - failures older % cfg.servers.length)) =
        i + cfg.servers.length * (failures older / cfg.servers.length + 1) := by
      rw [Nat.mul_add, Nat.mul_one]
      omega
    rw [Nat.add_mod_mod, hsum, Nat.add_mul_mod_self_left, Nat.mod_eq_of_lt hi']
  obtain ⟨k, hk⟩ : ∃ k, k + 1 + j = block.length := ⟨block.length - 1 - j, by omega⟩
  have hkt : k < block.length := by omega
  have hsplit : block.take k ++ block[k] :: block.drop (k + 1) = block := by
    rw [List.getElem_cons_drop, List.take_append_drop]
  refine ⟨block[k], List.getElem_mem hkt, ?_⟩
  have hrest : failures (block.drop (k + 1) ++ older) = j + failures older := by
    rw [failures, List.countP_append, List.countP_eq_length.mpr, List.length_drop]
    · congr 1
      omega
    · intro e he
      simp [hblock e (List.mem_of_mem_drop he)]
  have hwhole : w.past = (newer ++ block.take k) ++ block[k] :: (block.drop (k + 1) ++ older) := by
    rw [hpast, List.append_assoc, List.append_assoc, ← List.cons_append,
      ← List.append_assoc (block.take k), hsplit]
  have hserver := (hi.past _ _ _ hwhole).2.server
  rw [hserver, hrest, server]
  have hindex : (j + failures older) % cfg.servers.length = i := by
    rw [Nat.add_comm]
    exact hturn
  simp [hindex]

/-- A connection is given up as late as its timers say and no later. A PING is sent where none is
outstanding, after `idle_timeout` without a line; a connection ends as silent `pong_timeout` after a
PING that no line has answered, and as unregistered after `REGISTRATION_TIMEOUT` without the
welcome; and while it waits for a line none of these is due later than it says. The servers take
turns: after a session that lasted the same comes again, after one that did not the next, with a
pause that grows with each in a row, and as many in a row as there are servers go round all. -/
theorem connections_kept (client : IrcClient)
    (h : Machine.Reachable (step cfg u) (init client) w) :
    (∀ v ∈ w.visits,
      (∀ (after before : List ConnectionEvent) (q : ℚ) (token : Str),
        v.events = after ++ .ping q token :: before →
        outstanding before = none ∧ (∀ t m, .line t m ∈ before → t + cfg.idleTimeout ≤ q) ∧
          ∃ o, v.opened = some o ∧ o + cfg.idleTimeout ≤ q) ∧
      (∀ t, v.ended = some (.silent, t) →
        ∃ q token, outstanding v.events = some (q, token) ∧ q + cfg.pongTimeout ≤ t) ∧
      ∀ t, v.ended = some (.unregistered, t) →
        v.registered = false ∧ ∃ o, v.opened = some o ∧ o + registrationTimeout ≤ t) ∧
    (∀ (v : Visit ι) (due : ℚ), w.phase = .visiting v (.reading due) →
      (outstanding v.events = none → due ≤ w.now + cfg.idleTimeout) ∧
      (∀ q token, outstanding v.events = some (q, token) → due ≤ max w.now (q + cfg.pongTimeout)) ∧
      (v.registered = false → ∀ o, v.opened = some o → due ≤ max w.now (o + registrationTimeout))) ∧
    (∀ (newer older : List (Visit ι × ℚ)) (e : Visit ι × ℚ), w.past = newer ++ e :: older →
      e.1.server = server cfg (failures older) ∧
      ∀ d ∈ older.head?, d.2 + pause (min (streak older) 8) ≤ e.1.start) ∧
    ∀ newer block older : List (Visit ι × ℚ), w.past = newer ++ block ++ older →
      (∀ e ∈ block, lasted e = false) →
      cfg.servers.length ≤ block.length → ∀ s ∈ cfg.servers, ∃ e ∈ block, e.1.server = s := by
  have hi : Inv cfg w := h.invariant (fun _ _ _ hi hstep => hi.step hstep) (inv_init client)
  refine ⟨fun v hv => ?_, fun v due hphase => ?_, fun newer older e hpast => ?_,
    fun newer block older hpast hblock hlength s hs => hi.round hpast hblock hlength hs⟩
  · obtain ⟨hpatient, hsilent, hunregistered⟩ := hi.fair hv
    exact ⟨fun after before q token => hpatient after q token before, hsilent, hunregistered⟩
  · have hcurrent := hi.current
    rw [hphase] at hcurrent
    obtain ⟨-, -, -, -, -, hidle, hpong, hregistration⟩ := hcurrent
    exact ⟨hidle, hpong, hregistration⟩
  · obtain ⟨-, hserver, hstart⟩ := hi.past newer e older hpast
    exact ⟨hserver, hstart⟩

theorem sampleTimeouts_pos : (0 : ℚ) < 10 ∧ (0 : ℚ) < 120 ∧ (0 : ℚ) < 30 := by norm_num

def sampleConfig : IrcClientConfig ℕ where
  connectTimeout := 10
  idleTimeout := 120
  pongTimeout := 30
  servers := [0, 1]
  connect_pos := sampleTimeouts_pos.1
  idle_pos := sampleTimeouts_pos.2.1
  pong_pos := sampleTimeouts_pos.2.2
  servers_ne := List.cons_ne_nil 0 [1]

/-- A server welcomes the client and then falls silent. -/
def sampleSilence : List ConnectionStep :=
  [.begin, .connected true, .line (utf8 (lit ":s 001 B :hi\r\n")) [], .went true, .pass 120,
    .timeout (lit "t"), .went true, .pass 150, .timeout (lit "x"), .closed 0, .pass 151, .wake,
    .begin]

theorem connections_kept_silence : ∃ w,
    Machine.run (step sampleConfig asciiUpperCase) (init Registration.sampleClient)
      sampleSilence = some w ∧
    w.past.map (fun e => (e.1.server, e.1.ended)) = [(0, some (.silent, 150))] ∧
    ∀ e ∈ w.past, ∃ q token, outstanding e.1.events = some (q, token) ∧ q + 30 ≤ 150 := by
  have hview : (Machine.run (step sampleConfig asciiUpperCase) (init Registration.sampleClient)
      sampleSilence).map (fun w => w.past.map fun e => (e.1.server, e.1.ended)) =
      some [(0, some (.silent, 150))] := by
    decide +kernel
  obtain ⟨w, hrun, hpast⟩ := Option.map_eq_some_iff.mp hview
  refine ⟨w, hrun, hpast, fun e he => ?_⟩
  have hmem := List.mem_map_of_mem (f := fun e => (e.1.server, e.1.ended)) he
  rw [hpast] at hmem
  have hended : e.1.ended = some (.silent, 150) := (Prod.mk.inj (List.mem_singleton.mp hmem)).2
  have hvisit : e.1 ∈ w.visits := List.mem_append_right _ (List.mem_map_of_mem he)
  exact ((connections_kept Registration.sampleClient ⟨sampleSilence, hrun⟩).1 e.1 hvisit).2.1 150
    hended

end Connections

end Botnats
