import Botnats.IrcEvents
import Botnats.IrcLines
import Botnats.SendLoop

/-!
# Registration on a server

One connection of `IRCClient` and the server at its other end, from CAP, NICK and USER on.
Lines wait in the outbound queue, on the wire and before the client, and the two sides go on
in any order; the server takes or refuses nicks and capabilities as it likes, offers more of
them later and renames the bot. CAP END is sent at most once, and where nothing is under way
the bot is registered, under the nick that the server has for it, with every capability that
it wants and the server offers.
-/
namespace Botnats

/-- `DESIRED_CAPS`, in the order of `sorted` -/
def desiredCaps : List Str := [lit "chghost", lit "multi-prefix"]

def nickCollisionLimit : ℕ := 20

def defaultNickLength : ℕ := 9

/-- The names of the capabilities in a text, without their values -/
def capNames (text : Str) : Finset Str :=
  ((splitWords text).map fun cap => (partition 61 cap).1).toFinset

/-- The numerics that refuse a nick -/
def nickRefusals : List Str := [lit "432", lit "433", lit "436", lit "437"]

/-- The part of `IRCClient` that a connection changes. Lines are queued as a server reads
them. -/
structure IrcClient where
  capAvailable : Finset Str
  capNegotiating : Bool
  capLsDone : Bool
  casemapping : Casemapping
  currentNick : Str
  desiredNick : Str
  nicknameAttempts : ℕ
  nicknameLength : ℕ
  registered : Bool
  pingToken : Option Str
  outbound : List IRCMessage

namespace IrcClient

/-- `send`; `none` where it raises, which ends the connection if the read loop sends. -/
def send (c : IrcClient) (command : Str) (params : List Str) (trailing : Option Str) :
    Option IrcClient :=
  match formatMessage command params trailing with
  | .error _ => none
  | .ok _ =>
    if c.outbound.length < outboundLimit then
      some { c with outbound := c.outbound ++ [⟨command, params ++ trailing.toList, none⟩] }
    else none

/-- `establish`, once the server is connected -/
def establish (c : IrcClient) : Option IrcClient := do
  let c ← { c with
    capAvailable := ∅, capNegotiating := true, capLsDone := false, currentNick := c.desiredNick
    nicknameAttempts := 0, registered := false, pingToken := none, outbound := [] }.send
      (lit "CAP") [lit "LS", lit "302"] none
  let c ← c.send (lit "NICK") [c.currentNick] none
  c.send (lit "USER") [c.desiredNick, lit "0", lit "*"] (some c.desiredNick)

/-- `CAP REQ` for what is wanted of an offer, if anything is -/
def requestCaps (c : IrcClient) (offered : Finset Str) (otherwise : Option IrcClient) :
    Option IrcClient :=
  let wanted := desiredCaps.filter (· ∈ offered)
  if wanted = [] then otherwise
  else c.send (lit "CAP") [lit "REQ"] (some (join [32] wanted))

/-- `CAP END` -/
def endCaps (c : IrcClient) : Option IrcClient :=
  (c.send (lit "CAP") [lit "END"] none).map fun c => { c with capNegotiating := false }

/-- `handle_cap` -/
def handleCap (u : UpperCase) (c : IrcClient) (message : IRCMessage) : Option IrcClient :=
  match message.params with
  | _ :: name :: third :: rest =>
    let subcommand := u.upper name
    let caps := capNames ((third :: rest).getLast (by simp))
    if subcommand = lit "LS" then
      if !c.capNegotiating then some c
      else
        let c := { c with capAvailable := c.capAvailable ∪ caps }
        if rest ≠ [] ∧ third = lit "*" then some c
        else
          let c := { c with capLsDone := true }
          c.requestCaps c.capAvailable c.endCaps
    else if subcommand = lit "NEW" then c.requestCaps caps (some c)
    else if (subcommand = lit "ACK" ∨ subcommand = lit "NAK") ∧ c.capNegotiating = true ∧
        c.capLsDone = true then c.endCaps
    else some c
  | _ => some c

/-- `nick_collision`; `next_nickname` draws `drawn`, which may be any nick here. -/
def nickCollision (c : IrcClient) (drawn : Str) : Option IrcClient :=
  if nickCollisionLimit < c.nicknameAttempts + 1 then none
  else { c with nicknameAttempts := c.nicknameAttempts + 1, currentNick := drawn }.send
    (lit "NICK") [drawn] none

/-- `track_registration` -/
def trackRegistration (c : IrcClient) (message : IRCMessage) : IrcClient :=
  if message.command = lit "001" then
    { c with
      capNegotiating := false, registered := true, nicknameAttempts := 0
      currentNick := message.params.headD c.currentNick }
  else if message.command = lit "NICK" ∧ (message.ircPrefix.any fun p =>
      decide (casefold p.nick c.casemapping = casefold c.currentNick c.casemapping)) then
    { c with currentNick := message.params.getLastD c.currentNick }
  else c

/-- `dispatch_line`. The answer to a PING does not go through the queue. -/
def dispatchLine (u : UpperCase) (c : IrcClient) (drawn : Str) (message : IRCMessage) :
    Option IrcClient :=
  if message.command = lit "PING" then some c
  else if message.command = lit "PONG" ∧ c.pingToken.isSome ∧
      message.params.getLast? = c.pingToken then some { c with pingToken := none }
  else if message.command ∈ nickRefusals ∧ c.registered = false then c.nickCollision drawn
  else if message.command = lit "CAP" then c.handleCap u message
  else some (c.trackRegistration message)

end IrcClient

/-- What a server keeps of a client that registers, and how many CAP END it has read -/
structure RegistrationServer where
  offered : Finset Str
  enabled : Finset Str
  negotiating : Bool
  ended : ℕ
  user : Bool
  nick : Option Str
  welcomed : Bool
  refused : Bool

namespace RegistrationServer

/-- A line of the server about capabilities -/
def capLine (sender : Option Prefix) (target name : Str) (rest : List Str) : IRCMessage :=
  ⟨lit "CAP", target :: name :: rest, sender⟩

/-- The lines of a server that lists its capabilities -/
def listing (sender : Option Prefix) (target : Str) (texts : List Str) (last : Str) :
    List IRCMessage :=
  (texts.map fun text => capLine sender target (lit "LS") [lit "*", text]) ++
    [capLine sender target (lit "LS") [last]]

/-- A line that has no part in registration -/
def Unrelated (s : RegistrationServer) (m : IRCMessage) : Prop :=
  m.command ≠ lit "001" ∧ m.command ≠ lit "CAP" ∧ m.command ∉ nickRefusals ∧
    (m.command = lit "NICK" → s.welcomed = true ∧ ∀ p n cm, m.ircPrefix = some p →
      s.nick = some n → casefold p.nick cm ≠ casefold n cm)

/-- The server reads a line and answers. It may take another nick for the one it was asked
for, such as a shorter one. -/
inductive Serves : RegistrationServer → IRCMessage → List IRCMessage → RegistrationServer → Prop
  | list {s : RegistrationServer} {sender : Option Prefix} {target last : Str} {texts : List Str}
    (all : ∀ cap ∈ s.offered, ∃ text ∈ texts ++ [last], cap ∈ capNames text) :
    Serves s ⟨lit "CAP", [lit "LS", lit "302"], none⟩ (listing sender target texts last)
      { s with negotiating := true }
  | ack {s : RegistrationServer} {sender : Option Prefix} {target text shown : Str} :
    Serves s ⟨lit "CAP", [lit "REQ", text], none⟩ [capLine sender target (lit "ACK") [shown]]
      { s with enabled := s.enabled ∪ capNames text }
  | nak {s : RegistrationServer} {sender : Option Prefix} {target text shown : Str} :
    Serves s ⟨lit "CAP", [lit "REQ", text], none⟩ [capLine sender target (lit "NAK") [shown]]
      { s with refused := true }
  | capEnd {s : RegistrationServer} : Serves s ⟨lit "CAP", [lit "END"], none⟩ []
      { s with negotiating := false, ended := s.ended + 1 }
  | user {s : RegistrationServer} {params : List Str} : Serves s ⟨lit "USER", params, none⟩ []
      { s with user := true }
  | nick {s : RegistrationServer} {params : List Str} {n : Str} (early : s.welcomed = false) :
    Serves s ⟨lit "NICK", params, none⟩ [] { s with nick := some n }
  | rename {s : RegistrationServer} {params rest : List Str} {p : Prefix} {n : Str}
    (late : s.welcomed = true) (old : s.nick = some p.nick) :
    Serves s ⟨lit "NICK", params, none⟩ [⟨lit "NICK", rest ++ [n], some p⟩]
      { s with nick := some n }
  | refuse {s : RegistrationServer} {params answer : List Str} {numeric : Str}
    {sender : Option Prefix} (refusal : numeric ∈ nickRefusals) :
    Serves s ⟨lit "NICK", params, none⟩ [⟨numeric, answer, sender⟩] s
  | other {s : RegistrationServer} {m : IRCMessage} (cap : m.command ≠ lit "CAP")
    (user : m.command ≠ lit "USER") (nick : m.command ≠ lit "NICK") : Serves s m [] s

/-- The server waits for nothing before it welcomes the client. -/
def Ready (s : RegistrationServer) : Prop :=
  s.user = true ∧ s.nick.isSome = true ∧ s.negotiating = false

/-- What the server says of its own accord: it welcomes the client, offers capabilities,
renames the client, and says what does not matter here. -/
inductive Speaks : RegistrationServer → IRCMessage → RegistrationServer → Prop
  | welcome {s : RegistrationServer} {sender : Option Prefix} {n : Str} {rest : List Str}
    (ready : s.Ready) (early : s.welcomed = false) (nick : s.nick = some n) :
    Speaks s ⟨lit "001", n :: rest, sender⟩ { s with welcomed := true }
  | offer {s : RegistrationServer} {sender : Option Prefix} {target text : Str} :
    Speaks s (capLine sender target (lit "NEW") [text])
      { s with offered := s.offered ∪ capNames text }
  | rename {s : RegistrationServer} {rest : List Str} {p : Prefix} {n : Str}
    (late : s.welcomed = true) (old : s.nick = some p.nick) :
    Speaks s ⟨lit "NICK", rest ++ [n], some p⟩ { s with nick := some n }
  | unrelated {s : RegistrationServer} {m : IRCMessage} (unrelated : s.Unrelated m) : Speaks s m s

end RegistrationServer

/-- The client, whether the connection lasts, the lines on the wire to the server, the server,
and its lines that the client has not read. -/
structure Registration where
  client : IrcClient
  alive : Bool
  wire : List IRCMessage
  server : RegistrationServer
  messages : List IRCMessage

namespace Registration

/-- The lines that the server has not read -/
def requests (w : Registration) : List IRCMessage := w.wire ++ w.client.outbound

/-- A connection has just been established. -/
structure Starts (w : Registration) : Prop where
  established : ∃ c : IrcClient, c.establish = some w.client
  alive : w.alive = true
  wire : w.wire = []
  messages : w.messages = []
  ended : w.server.ended = 0
  negotiating : w.server.negotiating = false
  user : w.server.user = false
  nick : w.server.nick = none
  welcomed : w.server.welcomed = false

/-- Either side goes on while the connection lasts. Besides the read loop, other tasks queue
lines: a NICK only once registered. PING and PONG pass the queue by, and stay out of the
wire. -/
inductive Step (u : UpperCase) : Registration → Registration → Prop
  | transmit {w : Registration} {m : IRCMessage} {rest : List IRCMessage} (alive : w.alive = true)
    (h : w.client.outbound = m :: rest) :
    Step u w { w with client := { w.client with outbound := rest }, wire := w.wire ++ [m] }
  | serve {w : Registration} {m : IRCMessage} {rest answers : List IRCMessage}
    {s : RegistrationServer} (alive : w.alive = true) (h : w.wire = m :: rest)
    (hs : w.server.Serves m answers s) :
    Step u w { w with wire := rest, server := s, messages := w.messages ++ answers }
  | speak {w : Registration} {m : IRCMessage} {s : RegistrationServer} (alive : w.alive = true)
    (hs : w.server.Speaks m s) : Step u w { w with server := s, messages := w.messages ++ [m] }
  | read {w : Registration} {m : IRCMessage} {rest : List IRCMessage} {drawn : Str} {c : IrcClient}
    (alive : w.alive = true) (h : w.messages = m :: rest)
    (hread : w.client.dispatchLine u drawn m = some c) :
    Step u w { w with client := c, messages := rest }
  | say {w : Registration} {command : Str} {params : List Str} {trailing : Option Str}
    {c : IrcClient} (alive : w.alive = true) (cap : command ≠ lit "CAP")
    (user : command ≠ lit "USER") (nick : command = lit "NICK" → w.client.registered = true)
    (hsend : w.client.send command params trailing = some c) : Step u w { w with client := c }
  | ping {w : Registration} (token : Str) (alive : w.alive = true)
    (idle : w.client.pingToken = none) :
    Step u w { w with client := { w.client with pingToken := some token } }
  | learn {w : Registration} (casemapping : Casemapping) (length : ℕ) (alive : w.alive = true) :
    Step u w { w with
      client := { w.client with casemapping := casemapping, nicknameLength := length } }
  | lose {w : Registration} : Step u w { w with alive := false }

/-- Nothing is under way. -/
def Settled (w : Registration) : Prop :=
  w.requests = [] ∧ w.messages = [] ∧ (w.server.Ready → w.server.welcomed = true)

end Registration

/-! ## What the client does with a line -/

namespace IrcClient

variable {c c' : IrcClient} {u : UpperCase}

theorem send_eq_some {command : Str} {params : List Str} {trailing : Option Str}
    (h : c.send command params trailing = some c') :
    c' = { c with outbound := c.outbound ++ [⟨command, params ++ trailing.toList, none⟩] } := by
  unfold send at h
  split at h
  · simp at h
  · split_ifs at h
    exact (Option.some.inj h).symm

/-- The request for the capabilities of a text -/
def capRequest (text : Str) : IRCMessage := ⟨lit "CAP", [lit "REQ", text], none⟩

def endRequest : IRCMessage := ⟨lit "CAP", [lit "END"], none⟩

def listRequest : IRCMessage := ⟨lit "CAP", [lit "LS", lit "302"], none⟩

theorem endCaps_eq_some (h : c.endCaps = some c') :
    c' = { c with capNegotiating := false, outbound := c.outbound ++ [endRequest] } := by
  obtain ⟨d, hd, rfl⟩ := Option.map_eq_some_iff.mp h
  rw [send_eq_some hd]
  rfl

/-- A request for wanted capabilities names each of them. -/
theorem mem_capNames_join {p : Str → Bool} {cap : Str} (h : cap ∈ desiredCaps.filter p) :
    cap ∈ capNames (join [32] (desiredCaps.filter p)) := by
  have hboth : lit "chghost" ∈ capNames (join [32] [lit "chghost", lit "multi-prefix"]) ∧
      lit "multi-prefix" ∈ capNames (join [32] [lit "chghost", lit "multi-prefix"]) := by
    decide +kernel
  have hchghost : lit "chghost" ∈ capNames (join [32] [lit "chghost"]) := by decide +kernel
  have hprefix : lit "multi-prefix" ∈ capNames (join [32] [lit "multi-prefix"]) := by decide +kernel
  have hfilter : desiredCaps.filter p =
      (if p (lit "chghost") then [lit "chghost"] else []) ++
        if p (lit "multi-prefix") then [lit "multi-prefix"] else [] := by
    rw [desiredCaps, List.filter_cons, List.filter_cons, List.filter_nil]
    split_ifs <;> rfl
  rw [hfilter] at h ⊢
  split_ifs at h ⊢
  · rcases List.mem_pair.mp h with rfl | rfl
    · exact hboth.1
    · exact hboth.2
  · obtain rfl := List.mem_singleton.mp h
    exact hchghost
  · obtain rfl := List.mem_singleton.mp h
    exact hprefix
  · simp at h

/-- A request names what is wanted of the offer. -/
theorem requestCaps_eq_some {offered : Finset Str} {otherwise : Option IrcClient}
    (h : c.requestCaps offered otherwise = some c') :
    (∃ text, (∀ cap ∈ desiredCaps, cap ∈ offered → cap ∈ capNames text) ∧
        c' = { c with outbound := c.outbound ++ [capRequest text] }) ∨
      (∀ cap ∈ desiredCaps, cap ∉ offered) ∧ otherwise = some c' := by
  unfold requestCaps at h
  dsimp only at h
  split_ifs at h with hwanted
  · refine .inr ⟨fun cap hcap hoffered => ?_, h⟩
    exact List.filter_eq_nil_iff.mp hwanted cap hcap (decide_eq_true hoffered)
  · refine .inl ⟨_, fun cap hcap hoffered => mem_capNames_join ?_, send_eq_some h⟩
    exact List.mem_filter.mpr ⟨hcap, decide_eq_true hoffered⟩

/-- A subcommand of a server reads as it is written. -/
theorem upper_subcommand (u : UpperCase) {name : Str}
    (h : name ∈ [lit "LS", lit "NEW", lit "ACK", lit "NAK"]) : u.upper name = name := by
  have hascii : ∀ name ∈ [lit "LS", lit "NEW", lit "ACK", lit "NAK"],
      (name.all fun c => decide (c.val < 128)) = true ∧ name.map asciiUpper = name := by decide
  obtain ⟨hall, hsame⟩ := hascii name h
  rw [u.upper_ascii fun c hc => of_decide_eq_true (List.all_eq_true.mp hall c hc), hsame]

open RegistrationServer in
/-- A line of a listing that is not its last -/
theorem handleCap_more (sender : Option Prefix) (target text : Str) :
    c.handleCap u (capLine sender target (lit "LS") [lit "*", text]) =
      some (if c.capNegotiating then { c with capAvailable := c.capAvailable ∪ capNames text }
        else c) := by
  simp only [handleCap, capLine, upper_subcommand u List.mem_cons_self, if_true]
  cases hneg : c.capNegotiating <;> simp

open RegistrationServer in
/-- The last line of a listing, after the negotiation -/
theorem handleCap_closed (sender : Option Prefix) (target text : Str)
    (hneg : c.capNegotiating = false) :
    c.handleCap u (capLine sender target (lit "LS") [text]) = some c := by
  simp [handleCap, capLine, upper_subcommand u List.mem_cons_self, hneg]

open RegistrationServer in
/-- The last line of a listing: the client asks for what it wants, or ends the negotiation. -/
theorem handleCap_last (sender : Option Prefix) (target text : Str)
    (hneg : c.capNegotiating = true)
    (h : c.handleCap u (capLine sender target (lit "LS") [text]) = some c') :
    (∃ wanted, (∀ cap ∈ desiredCaps, cap ∈ c.capAvailable ∪ capNames text →
        cap ∈ capNames wanted) ∧ c' = { c with
        capAvailable := c.capAvailable ∪ capNames text, capLsDone := true
        outbound := c.outbound ++ [capRequest wanted] }) ∨
      (∀ cap ∈ desiredCaps, cap ∉ c.capAvailable ∪ capNames text) ∧ c' = { c with
        capAvailable := c.capAvailable ∪ capNames text, capLsDone := true, capNegotiating := false
        outbound := c.outbound ++ [endRequest] } := by
  simp only [handleCap, capLine, upper_subcommand u List.mem_cons_self, if_true, hneg,
    Bool.not_true, Bool.false_eq_true, if_false, ne_eq, not_true_eq_false, false_and,
    List.getLast_singleton] at h
  rcases requestCaps_eq_some h with ⟨wanted, hwanted, rfl⟩ | ⟨hnone, hend⟩
  · exact .inl ⟨wanted, hwanted, by rw [hneg]⟩
  · exact .inr ⟨hnone, endCaps_eq_some hend⟩

open RegistrationServer in
/-- An offer: the client asks for what it wants of it. -/
theorem handleCap_new (sender : Option Prefix) (target text : Str)
    (h : c.handleCap u (capLine sender target (lit "NEW") [text]) = some c') :
    (∃ wanted, (∀ cap ∈ desiredCaps, cap ∈ capNames text → cap ∈ capNames wanted) ∧
        c' = { c with outbound := c.outbound ++ [capRequest wanted] }) ∨
      (∀ cap ∈ desiredCaps, cap ∉ capNames text) ∧ c' = c := by
  have hne : lit "NEW" ≠ lit "LS" := by decide
  simp only [handleCap, capLine, upper_subcommand u (List.mem_cons_of_mem _ List.mem_cons_self),
    if_true, if_neg hne, List.getLast_singleton] at h
  exact (requestCaps_eq_some h).imp_right fun ⟨hnone, hc⟩ => ⟨hnone, (Option.some.inj hc).symm⟩

open RegistrationServer in
/-- An answer ends the negotiation once the listing is complete. -/
theorem handleCap_answer (sender : Option Prefix) (target text : Str) {name : Str}
    (hname : name ∈ [lit "ACK", lit "NAK"])
    (h : c.handleCap u (capLine sender target name [text]) = some c') :
    c.capNegotiating = true ∧ c.capLsDone = true ∧
        c' = { c with capNegotiating := false, outbound := c.outbound ++ [endRequest] } ∨
      ¬ (c.capNegotiating = true ∧ c.capLsDone = true) ∧ c' = c := by
  have hne : ∀ name ∈ [lit "ACK", lit "NAK"], name ≠ lit "LS" ∧ name ≠ lit "NEW" ∧
      (name = lit "ACK" ∨ name = lit "NAK") ∧
      name ∈ [lit "LS", lit "NEW", lit "ACK", lit "NAK"] := by decide
  obtain ⟨hls, hnew, hanswer, hmem⟩ := hne name hname
  simp only [handleCap, capLine, upper_subcommand u hmem, if_neg hls, if_neg hnew, hanswer,
    true_and] at h
  split_ifs at h with hdone
  · exact .inl ⟨hdone.1, hdone.2, endCaps_eq_some h⟩
  · exact .inr ⟨hdone, (Option.some.inj h).symm⟩

theorem dispatchLine_cap {drawn : Str} {m : IRCMessage} (hcap : m.command = lit "CAP") :
    c.dispatchLine u drawn m = c.handleCap u m := by
  have hne : lit "CAP" ≠ lit "PING" ∧ lit "CAP" ≠ lit "PONG" ∧ lit "CAP" ∉ nickRefusals := by decide
  unfold dispatchLine
  rw [hcap, if_neg hne.1, if_neg fun h => hne.2.1 h.1, if_neg fun h => hne.2.2 h.1, if_pos rfl]

/-- What a line that is not about capabilities can do to the client -/
theorem dispatchLine_cases {drawn : Str} {m : IRCMessage} (hcap : m.command ≠ lit "CAP")
    (h : c.dispatchLine u drawn m = some c') :
    (m.command ≠ lit "001" ∧ m.command ∉ nickRefusals ∧ m.command ≠ lit "NICK" ∧
        ∃ token, c' = { c with pingToken := token }) ∨
      (m.command ∈ nickRefusals ∧ c.registered = false ∧ ∃ attempts, c' = { c with
        nicknameAttempts := attempts, currentNick := drawn
        outbound := c.outbound ++ [⟨lit "NICK", [drawn], none⟩] }) ∨
      (m.command ∈ nickRefusals → c.registered = true) ∧ c' = c.trackRegistration m := by
  have hping : lit "PING" ≠ lit "001" ∧ lit "PING" ∉ nickRefusals ∧ lit "PING" ≠ lit "NICK" := by
    decide
  have hpong : lit "PONG" ≠ lit "001" ∧ lit "PONG" ∉ nickRefusals ∧ lit "PONG" ≠ lit "NICK" := by
    decide
  unfold dispatchLine at h
  split_ifs at h with hp hq hr
  · rw [hp]
    exact .inl ⟨hping.1, hping.2.1, hping.2.2, c.pingToken, (Option.some.inj h).symm⟩
  · rw [hq.1]
    exact .inl ⟨hpong.1, hpong.2.1, hpong.2.2, none, (Option.some.inj h).symm⟩
  · refine .inr (.inl ⟨hr.1, hr.2, c.nicknameAttempts + 1, ?_⟩)
    unfold nickCollision at h
    split_ifs at h
    exact send_eq_some h
  · refine .inr (.inr ⟨fun hrefusal => ?_, (Option.some.inj h).symm⟩)
    by_contra hregistered
    exact hr ⟨hrefusal, by simpa using hregistered⟩

/-- The nick that the client goes by once it is registered -/
def knownNick (c : IrcClient) : Option Str := if c.registered then some c.currentNick else none

theorem knownNick_eq_some {nick : Str} (h : c.knownNick = some nick) :
    c.registered = true ∧ c.currentNick = nick := by
  unfold knownNick at h
  split_ifs at h with hregistered
  exact ⟨hregistered, Option.some.inj h⟩

end IrcClient

/-- The nick that the client is told of once it is registered -/
def RegistrationServer.toldNick (s : RegistrationServer) : Option Str :=
  if s.welcomed then s.nick else none

namespace Registration

open IrcClient RegistrationServer

/-! ## The nick -/

/-- What a line says of the client's nick -/
inductive Tells : Option Str → IRCMessage → Option Str → Prop
  | welcome {n : Str} {rest : List Str} {sender : Option Prefix} :
    Tells none ⟨lit "001", n :: rest, sender⟩ (some n)
  | rename {n : Str} {rest : List Str} {p : Prefix} :
    Tells (some p.nick) ⟨lit "NICK", rest ++ [n], some p⟩ (some n)
  | stranger {n : Str} {m : IRCMessage} (command : m.command = lit "NICK")
    (other : ∀ p cm, m.ircPrefix = some p → casefold p.nick cm ≠ casefold n cm) :
    Tells (some n) m (some n)
  | quiet {nick : Option Str} {m : IRCMessage} (welcome : m.command ≠ lit "001")
    (rename : m.command ≠ lit "NICK") : Tells nick m nick

inductive Telling : Option Str → List IRCMessage → Option Str → Prop
  | nil {nick : Option Str} : Telling nick [] nick
  | cons {nick nick' nick'' : Option Str} {m : IRCMessage} {ms : List IRCMessage}
    (head : Tells nick m nick') (tail : Telling nick' ms nick'') : Telling nick (m :: ms) nick''

theorem Telling.concat {nick nick' nick'' : Option Str} {ms : List IRCMessage} {m : IRCMessage}
    (h : Telling nick ms nick') (hm : Tells nick' m nick'') : Telling nick (ms ++ [m]) nick'' := by
  induction h with
  | nil => exact .cons hm .nil
  | cons head _ ih => exact .cons head (ih hm)

theorem Telling.quiet {nick nick' : Option Str} {ms answers : List IRCMessage}
    (h : Telling nick ms nick')
    (hquiet : ∀ m ∈ answers, m.command ≠ lit "001" ∧ m.command ≠ lit "NICK") :
    Telling nick (ms ++ answers) nick' := by
  induction answers generalizing ms with
  | nil => rwa [List.append_nil]
  | cons m answers ih =>
    obtain ⟨hwelcome, hrename⟩ := hquiet m List.mem_cons_self
    rw [show ms ++ m :: answers = (ms ++ [m]) ++ answers by simp]
    exact ih (h.concat (.quiet hwelcome hrename)) fun x hx => hquiet x (List.mem_cons_of_mem _ hx)

/-- No line takes the nick away again. -/
theorem Telling.isSome {nick nick' : Option Str} {ms : List IRCMessage} (h : Telling nick ms nick')
    (hsome : nick.isSome = true) : nick'.isSome = true := by
  induction h with
  | nil => exact hsome
  | cons head _ ih =>
    refine ih ?_
    cases head with
    | welcome => rfl
    | rename => rfl
    | stranger => rfl
    | quiet => exact hsome

/-- A refusal is not a line of another kind. -/
theorem refusal_ne {m : IRCMessage} (h : m.command ∈ nickRefusals) :
    m.command ≠ lit "001" ∧ m.command ≠ lit "NICK" ∧ m.command ≠ lit "CAP" := by
  have hall : ∀ command ∈ nickRefusals,
      command ≠ lit "001" ∧ command ≠ lit "NICK" ∧ command ≠ lit "CAP" := by decide
  exact hall m.command h

/-- The client goes by the nick that it is told of. -/
theorem knownNick_dispatchLine {u : UpperCase} {c c' : IrcClient} {drawn : Str} {m : IRCMessage}
    {nick : Option Str} (hm : Tells c.knownNick m nick) (hcap : m.command ≠ lit "CAP")
    (h : c.dispatchLine u drawn m = some c') : c'.knownNick = nick := by
  have hwelcome : lit "NICK" ≠ lit "001" := by decide
  generalize hknown : c.knownNick = known at hm
  rcases dispatchLine_cases hcap h with ⟨hne, -, hrename, token, rfl⟩ |
      ⟨hrefusal, hregistered, attempts, rfl⟩ | ⟨-, rfl⟩
  · cases hm with
    | welcome => exact absurd rfl hne
    | rename => exact absurd rfl hrename
    | stranger command => exact absurd command hrename
    | quiet => exact hknown
  · obtain rfl : none = known := by rw [← hknown, knownNick, hregistered, if_neg Bool.false_ne_true]
    cases hm with
    | welcome => exact absurd rfl (refusal_ne hrefusal).1
    | quiet => rw [knownNick, hregistered, if_neg Bool.false_ne_true]
  · cases hm with
    | welcome => rfl
    | @rename n rest p =>
      obtain ⟨hregistered, hcurrent⟩ := knownNick_eq_some hknown
      have hself : (lit "NICK" = lit "NICK" ∧ ((some p).any fun p => decide
          (casefold p.nick c.casemapping = casefold c.currentNick c.casemapping)) = true) := by
        simp [hcurrent]
      rw [trackRegistration, if_neg hwelcome, if_pos hself, knownNick]
      dsimp only
      rw [if_pos hregistered, List.getLastD_concat]
    | @stranger n _ command other =>
      obtain ⟨-, hcurrent⟩ := knownNick_eq_some hknown
      have hother : ¬ ((m.ircPrefix.any fun p => decide
          (casefold p.nick c.casemapping = casefold c.currentNick c.casemapping)) = true) := by
        intro hany
        obtain ⟨p, hp, hsame⟩ := (Option.any_eq_true _ _).mp hany
        exact other p c.casemapping hp (hcurrent ▸ of_decide_eq_true hsame)
      rw [trackRegistration, command, if_neg hwelcome, if_neg fun h => hother h.2, hknown]
    | quiet hne hrename =>
      rw [trackRegistration, if_neg hne, if_neg fun h => hrename h.1, hknown]

theorem cap_ne : lit "CAP" ≠ lit "001" ∧ lit "CAP" ≠ lit "NICK" ∧ lit "CAP" ∉ nickRefusals := by
  decide

/-- A NICK request, and a refusal of one -/
def isNick (m : IRCMessage) : Bool := decide (m.command = lit "NICK")

def isRefusal (m : IRCMessage) : Bool := decide (m.command ∈ nickRefusals)

/-- Before the server welcomes the client, one NICK is under way, refused or taken. -/
structure NickInv (reqs : List IRCMessage) (c : IrcClient) (s : RegistrationServer)
    (ms : List IRCMessage) : Prop where
  told : Telling c.knownNick ms s.toldNick
  nicks : s.welcomed = false →
    reqs.countP isNick + ms.countP isRefusal + (if s.nick.isSome then 1 else 0) = 1
  named : s.welcomed = true → s.nick.isSome = true

variable {u : UpperCase} {reqs ms answers : List IRCMessage} {c c' : IrcClient}
  {s s' : RegistrationServer} {m : IRCMessage}

theorem NickInv.registered (h : NickInv reqs c s ms) (hregistered : c.registered = true) :
    s.welcomed = true := by
  have hsome := h.told.isSome (by rw [knownNick, if_pos hregistered]; rfl)
  unfold toldNick at hsome
  split_ifs at hsome with hwelcomed
  · exact hwelcomed
  · simp at hsome

/-- A request about something else -/
theorem NickInv.quiet (h : NickInv (m :: reqs) c s ms) (hm : m.command ≠ lit "NICK")
    (hanswers : ∀ a ∈ answers, a.command = lit "CAP") (hwelcomed : s'.welcomed = s.welcomed)
    (hnick : s'.nick = s.nick) : NickInv reqs c s' (ms ++ answers) where
  told := by
    have hsame : s'.toldNick = s.toldNick := by rw [toldNick, toldNick, hwelcomed, hnick]
    rw [hsame]
    exact h.told.quiet fun a ha => hanswers a ha ▸ ⟨cap_ne.1, cap_ne.2.1⟩
  nicks hearly := by
    have hnone : answers.countP isRefusal = 0 := by
      refine List.countP_eq_zero.mpr fun a ha => ?_
      simpa [isRefusal, hanswers a ha] using cap_ne.2.2
    have hold := h.nicks (hwelcomed ▸ hearly)
    rw [List.countP_cons_of_neg (by simpa [isNick] using hm)] at hold
    rw [List.countP_append, hnone, hnick]
    exact hold
  named hlate := hnick ▸ h.named (hwelcomed ▸ hlate)

/-- The line that welcomes the client comes from a server that has. -/
theorem NickInv.welcomed_of_read (h : NickInv reqs c s (m :: ms)) (hm : m.command = lit "001") :
    s.welcomed = true := by
  have htold := h.told
  generalize c.knownNick = known at htold
  have hsome : s.toldNick.isSome = true := by
    cases htold with
    | cons head tail =>
      refine tail.isSome ?_
      cases head with
      | welcome => rfl
      | rename => rfl
      | stranger => rfl
      | quiet welcome => exact absurd hm welcome
  unfold toldNick at hsome
  split_ifs at hsome with hwelcomed
  · exact hwelcomed
  · simp at hsome

theorem NickInv.serve (h : NickInv (m :: reqs) c s ms) (hs : s.Serves m answers s') :
    NickInv reqs c s' (ms ++ answers) := by
  have huser : lit "USER" ≠ lit "NICK" := by decide
  cases hs with
  | @list sender target last texts all =>
    refine h.quiet cap_ne.2.1 (fun a ha => ?_) rfl rfl
    rcases List.mem_append.mp ha with ha | ha
    · obtain ⟨text, -, rfl⟩ := List.mem_map.mp ha
      rfl
    · rw [List.mem_singleton.mp ha]
      rfl
  | ack => exact h.quiet cap_ne.2.1 (fun a ha => by rw [List.mem_singleton.mp ha]; rfl) rfl rfl
  | nak => exact h.quiet cap_ne.2.1 (fun a ha => by rw [List.mem_singleton.mp ha]; rfl) rfl rfl
  | capEnd => exact h.quiet cap_ne.2.1 (by simp) rfl rfl
  | user => exact h.quiet huser (by simp) rfl rfl
  | other cap user nick => exact h.quiet nick (by simp) rfl rfl
  | @nick params n early =>
    have hold := h.nicks early
    rw [List.countP_cons_of_pos rfl] at hold
    refine ⟨?_, fun _ => ?_, fun hlate =>
      absurd (early.symm.trans hlate) Bool.false_ne_true⟩
    · have htold := h.told
      rw [toldNick, if_neg (by simp [early])] at htold ⊢
      rwa [List.append_nil]
    · rw [List.append_nil]
      simp only [Option.isSome_some, if_true]
      omega
  | @rename params rest p n late old =>
    refine ⟨?_, fun hearly => absurd (hearly.symm.trans late) Bool.false_ne_true, fun _ => rfl⟩
    have htold := h.told
    rw [toldNick, if_pos late, old] at htold
    rw [toldNick, if_pos late]
    exact htold.concat .rename
  | @refuse params answer numeric sender refusal =>
    have hne := refusal_ne (m := ⟨numeric, answer, sender⟩) refusal
    refine ⟨h.told.concat (.quiet hne.1 hne.2.1), fun hearly => ?_, h.named⟩
    have hold := h.nicks hearly
    rw [List.countP_cons_of_pos rfl] at hold
    have hone : isRefusal ⟨numeric, answer, sender⟩ = true := decide_eq_true refusal
    rw [List.countP_append, List.countP_singleton, if_pos hone]
    omega

theorem NickInv.speak (h : NickInv reqs c s ms) (hs : s.Speaks m s') :
    NickInv reqs c s' (ms ++ [m]) := by
  have hplain : ∀ m : IRCMessage, m.command ∉ nickRefusals → (ms ++ [m]).countP isRefusal =
      ms.countP isRefusal := by
    intro m hm
    have hnone : isRefusal m = false := decide_eq_false hm
    rw [List.countP_append, List.countP_singleton, hnone, if_neg Bool.false_ne_true, Nat.add_zero]
  cases hs with
  | @welcome sender n rest ready early nick =>
    refine ⟨?_, fun hearly => absurd hearly (by simp), fun _ => ready.2.1⟩
    have htold := h.told
    rw [toldNick, if_neg (by simp [early])] at htold
    rw [toldNick, if_pos rfl, nick]
    exact htold.concat .welcome
  | offer =>
    refine ⟨h.told.concat (.quiet cap_ne.1 cap_ne.2.1), fun hearly => ?_, h.named⟩
    rw [hplain _ cap_ne.2.2]
    exact h.nicks hearly
  | @rename rest p n late old =>
    refine ⟨?_, fun hearly => absurd (hearly.symm.trans late) Bool.false_ne_true, fun _ => rfl⟩
    have htold := h.told
    rw [toldNick, if_pos late, old] at htold
    rw [toldNick, if_pos late]
    exact htold.concat .rename
  | unrelated hunrelated =>
    obtain ⟨hwelcome, -, hrefusal, hother⟩ := hunrelated
    refine ⟨h.told.concat ?_, fun hearly => ?_, h.named⟩
    · by_cases hrename : m.command = lit "NICK"
      · obtain ⟨hlate, hdiffer⟩ := hother hrename
        obtain ⟨n, hn⟩ := Option.isSome_iff_exists.mp (h.named hlate)
        rw [toldNick, if_pos hlate, hn]
        exact .stranger hrename fun p cm hp => hdiffer p n cm hp hn
      · exact .quiet hwelcome hrename
    · rw [hplain m hrefusal]
      exact h.nicks hearly

/-- Reading a line; `sent` is what the client queues. -/
theorem NickInv.read {sent : List IRCMessage} (h : NickInv reqs c s (m :: ms))
    (hknown : ∀ nick, Tells c.knownNick m nick → c'.knownNick = nick)
    (hsent : s.welcomed = false → sent.countP isNick = if isRefusal m then 1 else 0) :
    NickInv (reqs ++ sent) c' s ms where
  told := by
    have htold := h.told
    generalize c.knownNick = known at htold hknown
    cases htold with
    | cons head tail =>
      rw [hknown _ head]
      exact tail
  nicks hearly := by
    have hold := h.nicks hearly
    rw [List.countP_append, hsent hearly]
    rw [List.countP_cons] at hold
    omega
  named := h.named

/-! ## The capabilities -/

/-- A line of the server about capabilities -/
inductive CapLine : IRCMessage → Prop
  | more (sender : Option Prefix) (target text : Str) :
    CapLine (capLine sender target (lit "LS") [lit "*", text])
  | last (sender : Option Prefix) (target text : Str) :
    CapLine (capLine sender target (lit "LS") [text])
  | answer (sender : Option Prefix) (target text : Str) {name : Str}
    (h : name ∈ [lit "ACK", lit "NAK"]) : CapLine (capLine sender target name [text])
  | offer (sender : Option Prefix) (target text : Str) :
    CapLine (capLine sender target (lit "NEW") [text])

/-- The last line of a listing, and an answer to a request -/
def LastLine (m : IRCMessage) : Prop :=
  ∃ sender target text, m = capLine sender target (lit "LS") [text]

def AnswerLine (m : IRCMessage) : Prop :=
  ∃ sender target text, ∃ name ∈ [lit "ACK", lit "NAK"], m = capLine sender target name [text]

/-- A negotiating client has its listing under way, or the answer to a request. -/
inductive Progress (reqs : List IRCMessage) (c : IrcClient) (ms : List IRCMessage) : Prop
  | unlisted (done : c.capLsDone = false) (h : listRequest ∈ reqs)
  | listing (done : c.capLsDone = false) {m : IRCMessage} (hm : m ∈ ms) (h : LastLine m)
  | requested (done : c.capLsDone = true) {text : Str} (h : capRequest text ∈ reqs)
  | answered (done : c.capLsDone = true) {m : IRCMessage} (hm : m ∈ ms) (h : AnswerLine m)

/-- A capability that the server offers is enabled, or will be unless it refuses. -/
inductive Owed (cap : Str) (reqs : List IRCMessage) (c : IrcClient) (s : RegistrationServer)
    (ms : List IRCMessage) : Prop
  | refused (h : s.refused = true)
  | enabled (h : cap ∈ s.enabled)
  | requested {text : Str} (h : capRequest text ∈ reqs) (hcap : cap ∈ capNames text)
  | offered {sender : Option Prefix} {target text : Str}
    (h : capLine sender target (lit "NEW") [text] ∈ ms) (hcap : cap ∈ capNames text)
  | unlisted (h : listRequest ∈ reqs)
  | listing {sender : Option Prefix} {target text : Str} {front rest : List IRCMessage}
    (open' : c.capNegotiating = true ∧ c.capLsDone = false)
    (h : ms = front ++ capLine sender target (lit "LS") [text] :: rest)
    (first : ∀ m ∈ front, ¬ LastLine m)
    (hcap : cap ∈ c.capAvailable ∪ capNames text ∨ ∃ sender target text',
      capLine sender target (lit "LS") [lit "*", text'] ∈ front ∧ cap ∈ capNames text')

/-- Nothing has reached the server yet. -/
structure Fresh (reqs : List IRCMessage) (c : IrcClient) (s : RegistrationServer)
    (ms : List IRCMessage) : Prop where
  first : ∃ rest, reqs = listRequest :: rest ∧ listRequest ∉ rest
  user : s.user = false
  ended : s.ended = 0
  open' : c.capNegotiating = true ∧ c.capLsDone = false
  unlisted : ∀ m ∈ ms, ¬ LastLine m

structure CapInv (reqs : List IRCMessage) (c : IrcClient) (s : RegistrationServer)
    (ms : List IRCMessage) : Prop where
  lines : ∀ m ∈ ms, m.command = lit "CAP" → CapLine m
  fresh : listRequest ∈ reqs → Fresh reqs c s ms
  negotiating : s.negotiating = true ↔ listRequest ∉ reqs ∧ s.ended = 0
  ends : reqs.count endRequest + s.ended = if c.capNegotiating then 0 else 1
  progress : c.capNegotiating = true → Progress reqs c ms
  user : s.user = true ∨ ∃ params, ⟨lit "USER", params, none⟩ ∈ reqs
  welcomed : s.welcomed = true → s.ended = 1
  owed : ∀ cap ∈ desiredCaps, cap ∈ s.offered → Owed cap reqs c s ms

theorem capRequest_ne (text : Str) : capRequest text ≠ listRequest ∧ capRequest text ≠ endRequest := by
  have hne : lit "REQ" ≠ lit "LS" := by decide
  simp [capRequest, listRequest, endRequest, hne]

theorem endRequest_ne : endRequest ≠ listRequest := by decide

variable {cap : Str} {sent : List IRCMessage}

theorem Progress.append (h : Progress reqs c ms) : Progress reqs c (ms ++ answers) := by
  cases h with
  | unlisted done h => exact .unlisted done h
  | listing done hm h => exact .listing done (List.mem_append_left _ hm) h
  | requested done h => exact .requested done h
  | answered done hm h => exact .answered done (List.mem_append_left _ hm) h

theorem Owed.append (h : Owed cap reqs c s ms) (henabled : s.enabled ⊆ s'.enabled)
    (hrefused : s.refused = true → s'.refused = true) : Owed cap reqs c s' (ms ++ answers) := by
  cases h with
  | refused h => exact .refused (hrefused h)
  | enabled h => exact .enabled (henabled h)
  | requested h hcap => exact .requested h hcap
  | offered h hcap => exact .offered (List.mem_append_left _ h) hcap
  | unlisted h => exact .unlisted h
  | listing open' h first hcap =>
    exact .listing open' (by rw [h, List.append_assoc, List.cons_append]) first hcap

/-- The listing is served before anything else. -/
theorem CapInv.listed (h : CapInv (m :: reqs) c s ms) : listRequest ∉ reqs := by
  intro hmem
  obtain ⟨rest, heq, hnot⟩ := (h.fresh (List.mem_cons_of_mem _ hmem)).first
  obtain ⟨-, rfl⟩ := List.cons.inj heq
  exact hnot hmem

/-- The server lists its capabilities. -/
theorem CapInv.list (h : CapInv (listRequest :: reqs) c s ms) {sender : Option Prefix}
    {target last : Str} {texts : List Str}
    (all : ∀ cap ∈ s.offered, ∃ text ∈ texts ++ [last], cap ∈ capNames text) :
    CapInv reqs c { s with negotiating := true } (ms ++ listing sender target texts last) := by
  have hfresh := h.fresh List.mem_cons_self
  have hmore : ∀ text, ¬ LastLine (capLine sender target (lit "LS") [lit "*", text]) := by
    rintro text ⟨_, _, _, heq⟩
    simp [capLine] at heq
  refine ⟨fun m hm hcap => ?_, fun hmem => absurd hmem h.listed, ?_, ?_, fun _ => ?_, ?_,
    h.welcomed, fun cap _ hoffered => ?_⟩
  · rcases List.mem_append.mp hm with hm | hm
    · exact h.lines m hm hcap
    rcases List.mem_append.mp hm with hm | hm
    · obtain ⟨text, -, rfl⟩ := List.mem_map.mp hm
      exact .more sender target text
    · rw [List.mem_singleton.mp hm]
      exact .last sender target last
  · simp [h.listed, hfresh.ended]
  · have hends := h.ends
    rwa [List.count_cons_of_ne endRequest_ne.symm] at hends
  · exact .listing hfresh.open'.2 (by simp [listing]) ⟨sender, target, last, rfl⟩
  · refine h.user.imp_right fun ⟨params, hmem⟩ => ⟨params, ?_⟩
    have huser : lit "USER" ≠ lit "CAP" := by decide
    exact (List.mem_cons.mp hmem).resolve_left fun heq => huser (congrArg IRCMessage.command heq)
  · have hms : ms ++ listing sender target texts last = (ms ++ texts.map fun text =>
        capLine sender target (lit "LS") [lit "*", text]) ++
          capLine sender target (lit "LS") [last] :: [] := by
      rw [listing, List.append_assoc]
    refine .listing hfresh.open' hms (fun m hm => ?_) ?_
    · rcases List.mem_append.mp hm with hm | hm
      · exact hfresh.unlisted m hm
      · obtain ⟨text, -, rfl⟩ := List.mem_map.mp hm
        exact hmore text
    · obtain ⟨text, htext, hcap⟩ := all cap hoffered
      rcases List.mem_append.mp htext with htext | htext
      · exact .inr ⟨sender, target, text, List.mem_append_right _ (List.mem_map_of_mem htext), hcap⟩
      · rw [List.mem_singleton.mp htext] at hcap
        exact .inl (Finset.mem_union_right _ hcap)

/-- The server reads a line that is not the request for its listing. -/
theorem CapInv.later (h : CapInv (m :: reqs) c s ms) (hm : m ≠ listRequest)
    (hlines : ∀ a ∈ answers, a.command = lit "CAP" → CapLine a)
    (hrequest : ∀ text, m = capRequest text → (∃ a ∈ answers, AnswerLine a) ∧
      (s'.refused = true ∨ ∀ cap ∈ capNames text, cap ∈ s'.enabled))
    (hended : s'.ended = s.ended + if m = endRequest then 1 else 0)
    (hnegotiating : s'.negotiating = (s.negotiating && decide (m ≠ endRequest)))
    (huser : s'.user = true ∨ m.command ≠ lit "USER" ∧ s'.user = s.user)
    (hwelcomed : s'.welcomed = s.welcomed) (hoffered : s'.offered = s.offered)
    (henabled : s.enabled ⊆ s'.enabled) (hrefused : s.refused = true → s'.refused = true) :
    CapInv reqs c s' (ms ++ answers) := by
  have hopen : listRequest ∉ m :: reqs := fun hmem =>
    (List.mem_cons.mp hmem).elim (fun heq => hm heq.symm) h.listed
  have hends := h.ends
  have hsplit : (m :: reqs).count endRequest = reqs.count endRequest +
      if m = endRequest then 1 else 0 := by
    rw [List.count_cons]
    simp
  rw [hsplit] at hends
  have hneg := h.negotiating
  refine ⟨fun a ha hcap => ?_, fun hmem => absurd hmem h.listed, ?_, ?_, fun hc => ?_, ?_,
    fun hlate => ?_, fun cap hcap hoffer => ?_⟩
  · exact (List.mem_append.mp ha).elim (fun ha => h.lines a ha hcap) fun ha => hlines a ha hcap
  · rw [hnegotiating, hended, Bool.and_eq_true, hneg, decide_eq_true_iff]
    split_ifs with hend <;> simp [hopen, h.listed, hend]
  · rw [hended]
    omega
  · cases h.progress hc with
    | unlisted _ hmem => exact absurd hmem hopen
    | listing done hl hlast => exact .listing done (List.mem_append_left _ hl) hlast
    | @requested done text hmem =>
      rcases List.mem_cons.mp hmem with heq | hmem
      · obtain ⟨⟨a, ha, hanswer⟩, -⟩ := hrequest text heq.symm
        exact .answered done (List.mem_append_right _ ha) hanswer
      · exact .requested done hmem
    | answered done ha hanswer => exact .answered done (List.mem_append_left _ ha) hanswer
  · rcases huser with huser | ⟨hother, hsame⟩
    · exact .inl huser
    · rw [hsame]
      refine h.user.imp_right fun ⟨params, hmem⟩ => ⟨params, ?_⟩
      refine (List.mem_cons.mp hmem).resolve_left fun heq => ?_
      exact hother (congrArg IRCMessage.command heq).symm
  · have hone := h.welcomed (hwelcomed ▸ hlate)
    rw [hended]
    split_ifs at hends ⊢ <;> omega
  · cases h.owed cap hcap (hoffered ▸ hoffer) with
    | refused h => exact .refused (hrefused h)
    | enabled h => exact .enabled (henabled h)
    | @requested text hmem hnamed =>
      rcases List.mem_cons.mp hmem with heq | hmem
      · rcases (hrequest text heq.symm).2 with hno | hyes
        · exact .refused hno
        · exact .enabled (hyes cap hnamed)
      · exact .requested hmem hnamed
    | offered hmem hnamed => exact .offered (List.mem_append_left _ hmem) hnamed
    | unlisted hmem => exact absurd hmem hopen
    | listing open' hms first hnamed =>
      exact .listing open' (by rw [hms, List.append_assoc, List.cons_append]) first hnamed

theorem CapInv.serve (h : CapInv (m :: reqs) c s ms) (hs : s.Serves m answers s') :
    CapInv reqs c s' (ms ++ answers) := by
  have huser : lit "CAP" ≠ lit "USER" ∧ lit "USER" ≠ lit "CAP" ∧ lit "NICK" ≠ lit "CAP" ∧
      lit "NICK" ≠ lit "USER" := by decide
  have hother : ∀ {m : IRCMessage}, m.command ≠ lit "CAP" → m ≠ listRequest ∧ m ≠ endRequest ∧
      ∀ text, m ≠ capRequest text := fun {m} hm =>
    ⟨fun heq => hm (by rw [heq]; rfl), fun heq => hm (by rw [heq]; rfl),
      fun text heq => hm (by rw [heq]; rfl)⟩
  -- a request of another kind changes nothing here
  have hkeep : ∀ {m : IRCMessage} {answers : List IRCMessage} {s' : RegistrationServer},
      CapInv (m :: reqs) c s ms → m.command ≠ lit "CAP" → (∀ a ∈ answers, a.command ≠ lit "CAP") →
      (s'.user = true ∨ m.command ≠ lit "USER" ∧ s'.user = s.user) → s'.ended = s.ended →
      s'.negotiating = s.negotiating → s'.welcomed = s.welcomed → s'.offered = s.offered →
      s'.enabled = s.enabled → s'.refused = s.refused → CapInv reqs c s' (ms ++ answers) := by
    intro m answers s' h hm hanswers huser hended hneg hwelcomed hoffered henabled hrefused
    obtain ⟨hlist, hend, hrequest⟩ := hother hm
    refine h.later hlist (fun a ha hcap => absurd hcap (hanswers a ha))
      (fun text heq => absurd heq (hrequest text)) (by rw [hended, if_neg hend]; rfl) ?_ huser
      hwelcomed hoffered (henabled ▸ Finset.Subset.refl _) (fun hr => hrefused ▸ hr)
    rw [hneg, decide_eq_true hend, Bool.and_true]
  cases hs with
  | list all => exact h.list all
  | @ack sender target text shown =>
    refine h.later (capRequest_ne text).1 (fun a ha _ => ?_) (fun text' heq => ⟨?_, .inr ?_⟩)
      (if_neg (capRequest_ne text).2 ▸ rfl) ?_ (.inr ⟨huser.1, rfl⟩) rfl rfl
      Finset.subset_union_left id
    · rw [List.mem_singleton.mp ha]
      exact .answer sender target shown List.mem_cons_self
    · exact ⟨_, List.mem_singleton_self _, sender, target, shown, _, List.mem_cons_self, rfl⟩
    · obtain rfl : text = text' := by simpa [capRequest] using heq
      exact fun cap hcap => Finset.mem_union_right _ hcap
    · exact (Bool.and_true _).symm.trans (congrArg _ (decide_eq_true (capRequest_ne text).2).symm)
  | @nak sender target text shown =>
    refine h.later (capRequest_ne text).1 (fun a ha _ => ?_) (fun text' heq => ⟨?_, .inl rfl⟩)
      (if_neg (capRequest_ne text).2 ▸ rfl) ?_ (.inr ⟨huser.1, rfl⟩) rfl rfl
      (Finset.Subset.refl _) fun _ => rfl
    · rw [List.mem_singleton.mp ha]
      exact .answer sender target shown (List.mem_cons_of_mem _ List.mem_cons_self)
    · exact ⟨_, List.mem_singleton_self _, sender, target, shown, _,
        List.mem_cons_of_mem _ List.mem_cons_self, rfl⟩
    · exact (Bool.and_true _).symm.trans (congrArg _ (decide_eq_true (capRequest_ne text).2).symm)
  | capEnd =>
    exact h.later endRequest_ne (by simp) (fun text heq => absurd heq.symm (capRequest_ne text).2)
      (if_pos rfl ▸ rfl) (by simp [endRequest]) (.inr ⟨huser.1, rfl⟩) rfl rfl
      (Finset.Subset.refl _) id
  | user => exact hkeep h huser.2.1 (by simp) (.inl rfl) rfl rfl rfl rfl rfl rfl
  | nick early => exact hkeep h huser.2.2.1 (by simp) (.inr ⟨huser.2.2.2, rfl⟩) rfl rfl rfl rfl rfl rfl
  | rename late old =>
    refine hkeep h huser.2.2.1 (fun a ha => ?_) (.inr ⟨huser.2.2.2, rfl⟩) rfl rfl rfl rfl rfl rfl
    rw [List.mem_singleton.mp ha]
    exact huser.2.2.1
  | refuse refusal =>
    refine hkeep h huser.2.2.1 (fun a ha => ?_) (.inr ⟨huser.2.2.2, rfl⟩) rfl rfl rfl rfl rfl rfl
    rw [List.mem_singleton.mp ha]
    exact fun heq => cap_ne.2.2 (heq ▸ refusal)
  | other cap user nick => exact hkeep h cap (by simp) (.inr ⟨user, rfl⟩) rfl rfl rfl rfl rfl rfl

/-- A line that the server says of its own accord -/
theorem CapInv.said (h : CapInv reqs c s ms) (hline : m.command = lit "CAP" → CapLine m)
    (hlast : ¬ LastLine m) (hnegotiating : s'.negotiating = s.negotiating)
    (hended : s'.ended = s.ended) (huser : s'.user = s.user)
    (hwelcomed : s'.welcomed = true → s.ended = 1) (henabled : s'.enabled = s.enabled)
    (hrefused : s'.refused = s.refused)
    (hoffered : ∀ cap ∈ s'.offered, cap ∈ s.offered ∨ Owed cap reqs c s' (ms ++ [m])) :
    CapInv reqs c s' (ms ++ [m]) where
  lines a ha hcap := by
    rcases List.mem_append.mp ha with ha | ha
    · exact h.lines a ha hcap
    · rw [List.mem_singleton.mp ha] at hcap ⊢
      exact hline hcap
  fresh hmem := by
    have hfresh := h.fresh hmem
    refine ⟨hfresh.first, huser.trans hfresh.user, hended.trans hfresh.ended, hfresh.open',
      fun a ha => ?_⟩
    rcases List.mem_append.mp ha with ha | ha
    · exact hfresh.unlisted a ha
    · rwa [List.mem_singleton.mp ha]
  negotiating := by
    rw [hnegotiating, hended]
    exact h.negotiating
  ends := hended ▸ h.ends
  progress hc := (h.progress hc).append
  user := huser ▸ h.user
  welcomed hlate := hended ▸ hwelcomed hlate
  owed cap hcap hoffer := by
    rcases hoffered cap hoffer with hold | hnew
    · exact (h.owed cap hcap hold).append (henabled ▸ Finset.Subset.refl _) fun hr => hrefused ▸ hr
    · exact hnew

theorem CapInv.speak (h : CapInv reqs c s ms) (hs : s.Speaks m s') :
    CapInv reqs c s' (ms ++ [m]) := by
  have hlast : ∀ {m : IRCMessage}, m.command ≠ lit "CAP" → ¬ LastLine m := by
    rintro m hm ⟨_, _, _, rfl⟩
    exact hm rfl
  have hrename : lit "NICK" ≠ lit "CAP" := by decide
  cases hs with
  | @welcome sender n rest ready early nick =>
    obtain ⟨huser, -, hneg⟩ := ready
    have hone : s.ended = 1 := by
      have hlisted : listRequest ∉ reqs := fun hmem => by simp [(h.fresh hmem).user] at huser
      have hne : s.ended ≠ 0 := fun hzero => by
        simp [h.negotiating.mpr ⟨hlisted, hzero⟩] at hneg
      have hends := h.ends
      split_ifs at hends <;> omega
    exact h.said (fun hcap => absurd hcap.symm cap_ne.1) (hlast cap_ne.1.symm) rfl rfl rfl
      (fun _ => hone) rfl rfl fun cap hcap => .inl hcap
  | @offer sender target text =>
    refine h.said (fun _ => .offer sender target text) ?_ rfl rfl rfl h.welcomed rfl rfl
      fun cap hcap => ?_
    · rintro ⟨sender', target', text', heq⟩
      have hname : lit "NEW" ≠ lit "LS" := by decide
      simp only [capLine, IRCMessage.mk.injEq, List.cons.injEq] at heq
      exact hname heq.2.1.2.1
    · refine (Finset.mem_union.mp hcap).imp_right fun hnew => ?_
      exact .offered (List.mem_append_right _ (List.mem_singleton_self _)) hnew
  | rename late old =>
    exact h.said (fun hcap => absurd hcap hrename) (hlast hrename) rfl rfl rfl h.welcomed rfl rfl
      fun cap hcap => .inl hcap
  | unrelated hunrelated =>
    exact h.said (fun hcap => absurd hcap hunrelated.2.1) (hlast hunrelated.2.1) rfl rfl rfl
      h.welcomed rfl rfl fun cap hcap => .inl hcap

/-- The client reads a line, and queues `sent`. -/
theorem CapInv.heard (h : CapInv reqs c s (m :: ms)) (hsent : listRequest ∉ sent)
    (hopen : ¬ LastLine m → c.capNegotiating = true ∧ c.capLsDone = false →
      c'.capNegotiating = true ∧ c'.capLsDone = false)
    (hends : sent.count endRequest + (if c.capNegotiating then 0 else 1) =
      if c'.capNegotiating then 0 else 1)
    (hprogress : c'.capNegotiating = true → Progress (reqs ++ sent) c' ms)
    (howed : ∀ cap ∈ desiredCaps, Owed cap reqs c s (m :: ms) → Owed cap (reqs ++ sent) c' s ms) :
    CapInv (reqs ++ sent) c' s ms where
  lines a ha hcap := h.lines a (List.mem_cons_of_mem _ ha) hcap
  fresh hmem := by
    have hfresh := h.fresh ((List.mem_append.mp hmem).resolve_right hsent)
    obtain ⟨rest, rfl, hrest⟩ := hfresh.first
    refine ⟨⟨rest ++ sent, rfl, fun hin => ?_⟩, hfresh.user, hfresh.ended, ?_,
      fun a ha => hfresh.unlisted a (List.mem_cons_of_mem _ ha)⟩
    · exact (List.mem_append.mp hin).elim hrest hsent
    · exact hopen (hfresh.unlisted m List.mem_cons_self) hfresh.open'
  negotiating := by
    rw [h.negotiating, List.mem_append, not_or, and_iff_left hsent]
  ends := by
    have hold := h.ends
    rw [List.count_append]
    omega
  progress := hprogress
  user := h.user.imp_right fun ⟨params, hmem⟩ => ⟨params, List.mem_append_left _ hmem⟩
  welcomed := h.welcomed
  owed cap hcap hoffered := howed cap hcap (h.owed cap hcap hoffered)

theorem Owed.heard (h : Owed cap reqs c s (m :: ms))
    (hnew : ∀ sender target text, m = capLine sender target (lit "NEW") [text] →
      cap ∈ capNames text → ∃ wanted, capRequest wanted ∈ sent ∧ cap ∈ capNames wanted)
    (hlast : ∀ sender target text, m = capLine sender target (lit "LS") [text] →
      c.capNegotiating = true → cap ∈ c.capAvailable ∪ capNames text →
      ∃ wanted, capRequest wanted ∈ sent ∧ cap ∈ capNames wanted)
    (hopen : ¬ LastLine m → c.capNegotiating = true ∧ c.capLsDone = false →
      c'.capNegotiating = true ∧ c'.capLsDone = false)
    (havailable : c.capAvailable ⊆ c'.capAvailable)
    (hmore : ∀ sender target text, m = capLine sender target (lit "LS") [lit "*", text] →
      c.capNegotiating = true → capNames text ⊆ c'.capAvailable) :
    Owed cap (reqs ++ sent) c' s ms := by
  cases h with
  | refused h => exact .refused h
  | enabled h => exact .enabled h
  | requested h hcap => exact .requested (List.mem_append_left _ h) hcap
  | @offered sender target text h hcap =>
    rcases List.mem_cons.mp h with heq | h
    · obtain ⟨wanted, hsent, hwanted⟩ := hnew sender target text heq.symm hcap
      exact .requested (List.mem_append_right _ hsent) hwanted
    · exact .offered h hcap
  | unlisted h => exact .unlisted (List.mem_append_left _ h)
  | @listing sender target text front rest open' h first hcap =>
    cases front with
    | nil =>
      obtain ⟨rfl, rfl⟩ := List.cons.inj h
      have hin : cap ∈ c.capAvailable ∪ capNames text :=
        hcap.resolve_right fun ⟨_, _, _, hmem, _⟩ => List.not_mem_nil hmem
      obtain ⟨wanted, hsent, hwanted⟩ := hlast sender target text rfl open'.1 hin
      exact .requested (List.mem_append_right _ hsent) hwanted
    | cons head front =>
      obtain ⟨rfl, rfl⟩ := List.cons.inj h
      refine .listing (hopen (first m List.mem_cons_self) open') rfl
        (fun a ha => first a (List.mem_cons_of_mem _ ha)) ?_
      rcases hcap with hcap | ⟨sender', target', text', hmem, hcap⟩
      · rcases Finset.mem_union.mp hcap with hcap | hcap
        · exact .inl (Finset.mem_union_left _ (havailable hcap))
        · exact .inl (Finset.mem_union_right _ hcap)
      · rcases List.mem_cons.mp hmem with heq | hmem
        · refine .inl (Finset.mem_union_left _ ?_)
          exact hmore sender' target' text' heq.symm open'.1 hcap
        · exact .inr ⟨sender', target', text', hmem, hcap⟩

/-- More lines of the client, which negotiates as before -/
theorem CapInv.more (h : CapInv reqs c s ms) (hsent : ∀ r ∈ sent, r ≠ listRequest ∧ r ≠ endRequest)
    (hneg : c'.capNegotiating = c.capNegotiating) (hdone : c'.capLsDone = c.capLsDone)
    (havailable : c'.capAvailable = c.capAvailable) : CapInv (reqs ++ sent) c' s ms where
  lines := h.lines
  fresh hmem := by
    have hfresh := h.fresh ((List.mem_append.mp hmem).resolve_right fun hin => (hsent _ hin).1 rfl)
    obtain ⟨rest, rfl, hrest⟩ := hfresh.first
    refine ⟨⟨rest ++ sent, rfl, fun hin => ?_⟩, hfresh.user, hfresh.ended, ?_, hfresh.unlisted⟩
    · exact (List.mem_append.mp hin).elim hrest fun hin => (hsent _ hin).1 rfl
    · exact ⟨hneg.trans hfresh.open'.1, hdone.trans hfresh.open'.2⟩
  negotiating := by
    rw [h.negotiating, List.mem_append, not_or, and_iff_left fun hin => (hsent _ hin).1 rfl]
  ends := by
    rw [List.count_append, List.count_eq_zero.mpr fun hin => (hsent _ hin).2 rfl, hneg]
    exact h.ends
  progress hc := by
    cases h.progress (hneg ▸ hc) with
    | unlisted done h => exact .unlisted (hdone.trans done) (List.mem_append_left _ h)
    | listing done hm h => exact .listing (hdone.trans done) hm h
    | requested done h => exact .requested (hdone.trans done) (List.mem_append_left _ h)
    | answered done hm h => exact .answered (hdone.trans done) hm h
  user := h.user.imp_right fun ⟨params, hmem⟩ => ⟨params, List.mem_append_left _ hmem⟩
  welcomed := h.welcomed
  owed cap hcap hoffered := by
    cases h.owed cap hcap hoffered with
    | refused h => exact .refused h
    | enabled h => exact .enabled h
    | requested h hin => exact .requested (List.mem_append_left _ h) hin
    | offered h hin => exact .offered h hin
    | unlisted h => exact .unlisted (List.mem_append_left _ h)
    | listing open' h first hin =>
      exact .listing ⟨hneg.trans open'.1, hdone.trans open'.2⟩ h first (havailable ▸ hin)

theorem NickInv.more (h : NickInv reqs c s ms) (hknown : c'.knownNick = c.knownNick)
    (hsent : s.welcomed = false → ∀ r ∈ sent, r.command ≠ lit "NICK") :
    NickInv (reqs ++ sent) c' s ms where
  told := hknown ▸ h.told
  nicks hearly := by
    have hnone : sent.countP isNick = 0 :=
      List.countP_eq_zero.mpr fun r hr => by simpa [isNick] using hsent hearly r hr
    rw [List.countP_append, hnone]
    exact h.nicks hearly
  named := h.named

theorem Progress.heard (h : Progress reqs c (m :: ms)) (hlast : ¬ LastLine m)
    (hanswer : ¬ AnswerLine m) (hdone : c'.capLsDone = c.capLsDone) :
    Progress (reqs ++ sent) c' ms := by
  cases h with
  | unlisted done h => exact .unlisted (hdone.trans done) (List.mem_append_left _ h)
  | listing done hm h =>
    refine .listing (hdone.trans done) ((List.mem_cons.mp hm).resolve_left fun heq => ?_) h
    exact hlast (heq ▸ h)
  | requested done h => exact .requested (hdone.trans done) (List.mem_append_left _ h)
  | answered done hm h =>
    refine .answered (hdone.trans done) ((List.mem_cons.mp hm).resolve_left fun heq => ?_) h
    exact hanswer (heq ▸ h)

/-! The kinds of lines about capabilities differ. -/

section Lines

variable {sender sender' : Option Prefix} {target target' text text' name name' : Str}

theorem capLine_ne (h : name ≠ name') :
    capLine sender target name [text] ≠ capLine sender' target' name' [text'] := by
  simp [capLine, h]

theorem capLine_ne_more : capLine sender target name [text] ≠
    capLine sender' target' name' [lit "*", text'] := by
  simp [capLine]

theorem capLine_text (h : capLine sender target name [text] = capLine sender' target' name' [text']) :
    text = text' := by
  simp only [capLine, IRCMessage.mk.injEq, List.cons.injEq] at h
  exact h.2.1.2.2.1

theorem names_ne : lit "LS" ≠ lit "NEW" ∧ lit "LS" ∉ [lit "ACK", lit "NAK"] ∧
    lit "NEW" ∉ [lit "ACK", lit "NAK"] := by decide

theorem not_lastLine (h : name ≠ lit "LS") : ¬ LastLine (capLine sender target name [text]) := by
  rintro ⟨_, _, _, heq⟩
  exact capLine_ne h heq

theorem not_answerLine (h : name ∉ [lit "ACK", lit "NAK"]) :
    ¬ AnswerLine (capLine sender target name [text]) := by
  rintro ⟨_, _, _, name', hname, heq⟩
  have hsame : name = name' := by
    by_contra hne
    exact capLine_ne hne heq
  exact h (hsame ▸ hname)

end Lines

/-- A line after which the client negotiates as before -/
theorem CapInv.same (h : CapInv reqs c s (m :: ms)) (hlast : ¬ LastLine m) (hanswer : ¬ AnswerLine m)
    (hsent : ∀ r ∈ sent, r ≠ listRequest ∧ r ≠ endRequest)
    (hneg : c'.capNegotiating = c.capNegotiating) (hdone : c'.capLsDone = c.capLsDone)
    (havailable : c.capAvailable ⊆ c'.capAvailable)
    (hmore : ∀ sender target text, m = capLine sender target (lit "LS") [lit "*", text] →
      c.capNegotiating = true → capNames text ⊆ c'.capAvailable)
    (hnew : ∀ cap ∈ desiredCaps, ∀ sender target text,
      m = capLine sender target (lit "NEW") [text] → cap ∈ capNames text →
      ∃ wanted, capRequest wanted ∈ sent ∧ cap ∈ capNames wanted) :
    CapInv (reqs ++ sent) c' s ms := by
  have hopen : ¬ LastLine m → c.capNegotiating = true ∧ c.capLsDone = false →
      c'.capNegotiating = true ∧ c'.capLsDone = false := fun _ ⟨hc, hd⟩ =>
    ⟨hneg.trans hc, hdone.trans hd⟩
  refine h.heard (fun hmem => (hsent _ hmem).1 rfl) hopen ?_ (fun hc => ?_) fun cap hcap howed => ?_
  · rw [List.count_eq_zero.mpr fun hmem => (hsent _ hmem).2 rfl, hneg, Nat.zero_add]
  · exact (h.progress (hneg ▸ hc)).heard hlast hanswer hdone
  · refine howed.heard (hnew cap hcap) (fun sender target text heq => ?_) hopen havailable hmore
    exact absurd ⟨sender, target, text, heq⟩ hlast

/-- What comes of a line about capabilities: the client queues `sent`. -/
structure HeardCap (reqs : List IRCMessage) (c c' : IrcClient) (s : RegistrationServer)
    (ms sent : List IRCMessage) : Prop where
  outbound : c'.outbound = c.outbound ++ sent
  commands : ∀ r ∈ sent, r.command = lit "CAP"
  known : c'.knownNick = c.knownNick
  inv : CapInv (reqs ++ sent) c' s ms

section Heard

variable {sender : Option Prefix} {target text name : Str}

theorem CapInv.heardMore
    (h : CapInv reqs c s (capLine sender target (lit "LS") [lit "*", text] :: ms))
    (hread : c.handleCap u (capLine sender target (lit "LS") [lit "*", text]) = some c') :
    HeardCap reqs c c' s ms [] := by
  have hlast : ¬ LastLine (capLine sender target (lit "LS") [lit "*", text]) := by
    rintro ⟨_, _, _, heq⟩
    exact capLine_ne_more heq.symm
  have hanswer : ¬ AnswerLine (capLine sender target (lit "LS") [lit "*", text]) := by
    rintro ⟨_, _, _, _, _, heq⟩
    exact capLine_ne_more heq.symm
  obtain rfl := Option.some.inj ((handleCap_more sender target text).symm.trans hread)
  refine ⟨?_, by simp, ?_, h.same hlast hanswer (by simp) ?_ ?_ ?_ ?_ ?_⟩
  · split_ifs <;> exact (List.append_nil _).symm
  · split_ifs <;> rfl
  · split_ifs <;> rfl
  · split_ifs <;> rfl
  · split_ifs
    · exact Finset.subset_union_left
    · exact Finset.Subset.refl _
  · intro sender' target' text' heq hneg
    have htext : text = text' := by
      simp only [capLine, IRCMessage.mk.injEq, List.cons.injEq] at heq
      exact heq.2.1.2.2.2.1
    rw [if_pos hneg, htext]
    exact Finset.subset_union_right
  · intro cap _ sender' target' text' heq
    exact absurd heq.symm capLine_ne_more

theorem CapInv.heardLast (h : CapInv reqs c s (capLine sender target (lit "LS") [text] :: ms))
    (hread : c.handleCap u (capLine sender target (lit "LS") [text]) = some c') :
    ∃ sent, HeardCap reqs c c' s ms sent := by
  have hlast : LastLine (capLine sender target (lit "LS") [text]) := ⟨sender, target, text, rfl⟩
  cases hneg : c.capNegotiating with
  | false =>
    have hnot : ¬ c.capNegotiating = true := by simp [hneg]
    obtain rfl := Option.some.inj ((handleCap_closed sender target text hneg).symm.trans hread)
    refine ⟨[], (List.append_nil _).symm, by simp, rfl, h.heard (by simp)
      (fun hother => absurd hlast hother) (by simp) (fun hc => absurd hc hnot) fun cap _ howed => ?_⟩
    exact howed.heard (fun _ _ _ heq => absurd heq (capLine_ne names_ne.1))
      (fun _ _ _ _ hc => absurd hc hnot) (fun hother => absurd hlast hother) (Finset.Subset.refl _)
      fun _ _ _ heq => absurd heq capLine_ne_more
  | true =>
    rcases handleCap_last sender target text hneg hread with ⟨wanted, hwanted, rfl⟩ | ⟨hnot, rfl⟩
    · refine ⟨[capRequest wanted], rfl, by simp [capRequest], rfl, h.heard ?_
        (fun hother => absurd hlast hother) ?_
        (fun _ => .requested rfl (List.mem_append_right _ (List.mem_singleton_self (capRequest wanted))))
        fun cap hcap howed => ?_⟩
      · exact fun hmem => (capRequest_ne wanted).1 (List.mem_singleton.mp hmem).symm
      · rw [List.count_singleton, if_neg (by simpa using (capRequest_ne wanted).2), hneg,
          Nat.zero_add]
      · refine howed.heard (fun _ _ _ heq => absurd heq (capLine_ne names_ne.1))
          (fun sender' target' text' heq _ hin => ?_) (fun hother => absurd hlast hother)
          Finset.subset_union_left fun _ _ _ heq => absurd heq capLine_ne_more
        obtain rfl := capLine_text heq
        exact ⟨wanted, List.mem_singleton_self _, hwanted cap hcap hin⟩
    · refine ⟨[endRequest], rfl, by simp [endRequest], rfl, h.heard ?_
        (fun hother => absurd hlast hother) ?_ (fun hc => absurd hc Bool.false_ne_true)
        fun cap hcap howed => ?_⟩
      · exact fun hmem => endRequest_ne (List.mem_singleton.mp hmem).symm
      · simp [hneg]
      · refine howed.heard (fun _ _ _ heq => absurd heq (capLine_ne names_ne.1))
          (fun sender' target' text' heq _ hin => ?_) (fun hother => absurd hlast hother)
          Finset.subset_union_left fun _ _ _ heq => absurd heq capLine_ne_more
        obtain rfl := capLine_text heq
        exact absurd hin (hnot cap hcap)

theorem CapInv.heardAnswer (h : CapInv reqs c s (capLine sender target name [text] :: ms))
    (hname : name ∈ [lit "ACK", lit "NAK"])
    (hread : c.handleCap u (capLine sender target name [text]) = some c') :
    ∃ sent, HeardCap reqs c c' s ms sent := by
  have hls : name ≠ lit "LS" := fun heq => names_ne.2.1 (heq ▸ hname)
  have hnew : name ≠ lit "NEW" := fun heq => names_ne.2.2 (heq ▸ hname)
  have hlast := @not_lastLine sender target text _ hls
  rcases handleCap_answer sender target text hname hread with ⟨hneg, hdone, rfl⟩ | ⟨hnot, hc⟩
  · have hopen : ¬ (c.capNegotiating = true ∧ c.capLsDone = false) := fun h =>
      Bool.false_ne_true (h.2.symm.trans hdone)
    refine ⟨[endRequest], rfl, by simp [endRequest], rfl, h.heard ?_ (fun _ h => absurd h hopen) ?_
      (fun hc => absurd hc Bool.false_ne_true) fun cap hcap howed => ?_⟩
    · exact fun hmem => endRequest_ne (List.mem_singleton.mp hmem).symm
    · simp [hneg]
    · exact howed.heard (fun _ _ _ heq => absurd heq (capLine_ne hnew))
        (fun s t x heq => absurd ⟨s, t, x, heq⟩ hlast) (fun _ h => absurd h hopen)
        (Finset.Subset.refl _) fun _ _ _ heq => absurd heq capLine_ne_more
  · rw [hc]
    refine ⟨[], (List.append_nil _).symm, by simp, rfl, h.heard (by simp) (fun _ h => h) (by simp)
      (fun hneg => ?_) fun cap hcap howed => ?_⟩
    · have hdone : c.capLsDone = false := by
        by_contra hdone
        exact hnot ⟨hneg, by simpa using hdone⟩
      cases h.progress hneg with
      | unlisted done h => exact .unlisted done (List.mem_append_left _ h)
      | listing done hm h =>
        refine .listing done ((List.mem_cons.mp hm).resolve_left fun heq => ?_) h
        exact hlast (heq ▸ h)
      | requested done => exact absurd (hdone.symm.trans done) Bool.false_ne_true
      | answered done => exact absurd (hdone.symm.trans done) Bool.false_ne_true
    · exact howed.heard (fun _ _ _ heq => absurd heq (capLine_ne hnew))
        (fun s t x heq => absurd ⟨s, t, x, heq⟩ hlast) (fun _ h => h) (Finset.Subset.refl _)
        fun _ _ _ heq => absurd heq capLine_ne_more

theorem CapInv.heardOffer (h : CapInv reqs c s (capLine sender target (lit "NEW") [text] :: ms))
    (hread : c.handleCap u (capLine sender target (lit "NEW") [text]) = some c') :
    ∃ sent, HeardCap reqs c c' s ms sent := by
  have hlast := @not_lastLine sender target text _ names_ne.1.symm
  have hanswer := @not_answerLine sender target text _ names_ne.2.2
  rcases handleCap_new sender target text hread with ⟨wanted, hwanted, rfl⟩ | ⟨hnot, hc⟩
  · refine ⟨[capRequest wanted], rfl, by simp [capRequest], rfl, h.same hlast hanswer
      (fun r hr => ?_) rfl rfl (Finset.Subset.refl _)
      (fun _ _ _ heq => absurd heq capLine_ne_more) fun cap hcap sender' target' text' heq hin => ?_⟩
    · rw [List.mem_singleton.mp hr]
      exact capRequest_ne wanted
    · obtain rfl := capLine_text heq
      exact ⟨wanted, List.mem_singleton_self _, hwanted cap hcap hin⟩
  · rw [hc]
    refine ⟨[], (List.append_nil _).symm, by simp, rfl, h.same hlast hanswer (by simp) rfl rfl
      (Finset.Subset.refl _) (fun _ _ _ heq => absurd heq capLine_ne_more)
      fun cap hcap sender' target' text' heq hin => ?_⟩
    obtain rfl := capLine_text heq
    exact absurd hin (hnot cap hcap)

end Heard

theorem CapInv.heardCap (h : CapInv reqs c s (m :: ms)) (hcap : m.command = lit "CAP")
    (hread : c.handleCap u m = some c') : ∃ sent, HeardCap reqs c c' s ms sent := by
  cases h.lines m List.mem_cons_self hcap with
  | more sender target text => exact ⟨[], h.heardMore hread⟩
  | last sender target text => exact h.heardLast hread
  | answer sender target text hname => exact h.heardAnswer hname hread
  | offer sender target text => exact h.heardOffer hread

/-! ## Whole runs -/

/-- What holds of the two sides and of what is between them -/
structure Inv (w : Registration) : Prop where
  nick : NickInv w.requests w.client w.server w.messages
  cap : CapInv w.requests w.client w.server w.messages

/-- Reading a line keeps the invariant of the nick and that of the capabilities. -/
theorem heard {drawn : Str} (hn : NickInv reqs c s (m :: ms)) (hc : CapInv reqs c s (m :: ms))
    (hread : c.dispatchLine u drawn m = some c') :
    ∃ sent, c'.outbound = c.outbound ++ sent ∧ NickInv (reqs ++ sent) c' s ms ∧
      CapInv (reqs ++ sent) c' s ms := by
  by_cases hcap : m.command = lit "CAP"
  · rw [dispatchLine_cap hcap] at hread
    obtain ⟨sent, hout, hcommands, hknown, hinv⟩ := hc.heardCap hcap hread
    refine ⟨sent, hout, hn.read (fun nick htells => ?_) fun _ => ?_, hinv⟩
    · rw [hknown]
      generalize c.knownNick = known at htells
      cases htells with
      | welcome => exact absurd hcap.symm cap_ne.1
      | rename => exact absurd hcap.symm cap_ne.2.1
      | stranger command => exact absurd (hcap.symm.trans command) cap_ne.2.1
      | quiet => rfl
    · have hplain : isRefusal m = false := decide_eq_false (hcap ▸ cap_ne.2.2)
      rw [hplain, if_neg Bool.false_ne_true, List.countP_eq_zero]
      intro r hr
      simpa [isNick, hcommands r hr] using cap_ne.2.1
  have hlast : ¬ LastLine m := by
    rintro ⟨_, _, _, rfl⟩
    exact hcap rfl
  have hanswer : ¬ AnswerLine m := by
    rintro ⟨_, _, _, _, _, rfl⟩
    exact hcap rfl
  have hsame : ∀ {sent : List IRCMessage}, (∀ r ∈ sent, r.command = lit "NICK") →
      c'.capNegotiating = c.capNegotiating → c'.capLsDone = c.capLsDone →
      c'.capAvailable = c.capAvailable → CapInv (reqs ++ sent) c' s ms := by
    intro sent hsent hneg hdone havailable
    refine hc.same hlast hanswer (fun r hr => ?_) hneg hdone (havailable ▸ Finset.Subset.refl _)
      (fun _ _ _ heq => absurd (heq ▸ rfl) hcap) fun _ _ _ _ _ heq => absurd (heq ▸ rfl) hcap
    have hne := cap_ne.2.1
    exact ⟨fun heq => hne (by rw [← hsent r hr, heq]; rfl), fun heq => hne (by rw [← hsent r hr, heq]; rfl)⟩
  have hknown : ∀ nick, Tells c.knownNick m nick → c'.knownNick = nick := fun nick htells =>
    knownNick_dispatchLine htells hcap hread
  rcases dispatchLine_cases hcap hread with ⟨-, hrefusal, -, token, rfl⟩ |
      ⟨hrefusal, hregistered, attempts, rfl⟩ | ⟨hrefusal, rfl⟩
  · refine ⟨[], (List.append_nil _).symm, hn.read hknown fun _ => ?_, hsame (by simp) rfl rfl rfl⟩
    have hplain : isRefusal m = false := decide_eq_false hrefusal
    rw [hplain]
    rfl
  · refine ⟨[⟨lit "NICK", [drawn], none⟩], rfl, hn.read hknown fun _ => ?_,
      hsame (by simp) rfl rfl rfl⟩
    have hyes : isRefusal m = true := decide_eq_true hrefusal
    rw [hyes]
    rfl
  · have hclosed : m.command = lit "001" → c.capNegotiating = false := fun hwelcome => by
      have hends := hc.ends
      rw [hc.welcomed (hn.welcomed_of_read hwelcome)] at hends
      by_contra hneg
      rw [if_pos (by simpa using hneg)] at hends
      omega
    refine ⟨[], ?_, hn.read hknown fun hearly => ?_, hsame (by simp) ?_ ?_ ?_⟩
    · unfold trackRegistration
      split_ifs <;> exact (List.append_nil _).symm
    · have hplain : isRefusal m = false := decide_eq_false fun hmem =>
        Bool.false_ne_true (hearly.symm.trans (hn.registered (hrefusal hmem)))
      rw [hplain]
      rfl
    · unfold trackRegistration
      split_ifs with hwelcome
      · exact (hclosed hwelcome).symm
      · rfl
      · rfl
    · unfold trackRegistration
      split_ifs <;> rfl
    · unfold trackRegistration
      split_ifs <;> rfl

/-- A step of the client that is not about registration -/
theorem Inv.quiet {w : Registration} (h : w.Inv) (hout : c.outbound = w.client.outbound)
    (hknown : c.knownNick = w.client.knownNick)
    (hneg : c.capNegotiating = w.client.capNegotiating) (hdone : c.capLsDone = w.client.capLsDone)
    (havailable : c.capAvailable = w.client.capAvailable) : Inv { w with client := c } := by
  have hsame : w.wire ++ c.outbound = w.requests ++ [] := by rw [hout, requests, List.append_nil]
  refine ⟨?_, ?_⟩
  · show NickInv (w.wire ++ c.outbound) _ _ _
    rw [hsame]
    exact h.nick.more hknown (by simp)
  · show CapInv (w.wire ++ c.outbound) _ _ _
    rw [hsame]
    exact h.cap.more (by simp) hneg hdone havailable

/-- Either side's next step keeps the invariant. -/
theorem Inv.step {w w' : Registration} (h : w.Inv) (hst : Step u w w') : w'.Inv := by
  cases hst with
  | @transmit m rest alive hout =>
    have hsame : (w.wire ++ [m]) ++ rest = w.requests := by
      rw [requests, hout, List.append_assoc, List.singleton_append]
    have hall : (w.wire ++ [m]) ++ rest = w.requests ++ [] := by rw [hsame, List.append_nil]
    refine ⟨?_, ?_⟩
    · show NickInv ((w.wire ++ [m]) ++ rest) _ _ _
      rw [hall]
      exact h.nick.more rfl (by simp)
    · show CapInv ((w.wire ++ [m]) ++ rest) _ _ _
      rw [hall]
      exact h.cap.more (by simp) rfl rfl rfl
  | @serve m rest answers s' alive hwire hs =>
    have hsame : m :: (rest ++ w.client.outbound) = w.requests := by
      rw [requests, hwire, List.cons_append]
    obtain ⟨hn, hc⟩ := h
    rw [← hsame] at hn hc
    exact ⟨hn.serve hs, hc.serve hs⟩
  | speak alive hs => exact ⟨h.nick.speak hs, h.cap.speak hs⟩
  | @read m rest drawn c' alive hm hread =>
    obtain ⟨hn, hc⟩ := h
    rw [hm] at hn hc
    obtain ⟨sent, hout, hn', hc'⟩ := heard hn hc hread
    have hsame : w.wire ++ c'.outbound = w.requests ++ sent := by
      rw [hout, requests, List.append_assoc]
    refine ⟨?_, ?_⟩
    · show NickInv (w.wire ++ c'.outbound) _ _ _
      rwa [hsame]
    · show CapInv (w.wire ++ c'.outbound) _ _ _
      rwa [hsame]
  | @say command params trailing c' alive cap user nick hsend =>
    rw [send_eq_some hsend]
    have hsame : w.wire ++ (w.client.outbound ++ [⟨command, params ++ trailing.toList, none⟩]) =
        w.requests ++ [⟨command, params ++ trailing.toList, none⟩] := by
      rw [requests, List.append_assoc]
    refine ⟨?_, ?_⟩
    · show NickInv (w.wire ++ (w.client.outbound ++ [_])) _ _ _
      rw [hsame]
      refine h.nick.more rfl fun hearly r hr heq => ?_
      rw [List.mem_singleton.mp hr] at heq
      exact Bool.false_ne_true (hearly.symm.trans (h.nick.registered (nick heq)))
    · show CapInv (w.wire ++ (w.client.outbound ++ [_])) _ _ _
      rw [hsame]
      refine h.cap.more (fun r hr => ?_) rfl rfl rfl
      rw [List.mem_singleton.mp hr]
      exact ⟨fun heq => cap (congrArg IRCMessage.command heq),
        fun heq => cap (congrArg IRCMessage.command heq)⟩
  | ping token alive idle => exact h.quiet rfl rfl rfl rfl rfl
  | learn casemapping length alive => exact h.quiet rfl rfl rfl rfl rfl
  | lose => exact ⟨h.nick, h.cap⟩

theorem Inv.run {w w' : Registration} (h : w.Inv)
    (hrun : Relation.ReflTransGen (Step u) w w') : w'.Inv := by
  induction hrun with
  | refl => exact h
  | tail _ hst ih => exact ih.step hst

/-- The lines of a new connection -/
theorem establish_eq_some (h : c.establish = some c') : ∃ nick user, c'.outbound =
      [listRequest, ⟨lit "NICK", nick, none⟩, ⟨lit "USER", user, none⟩] ∧
    c'.capNegotiating = true ∧ c'.capLsDone = false ∧ c'.registered = false := by
  unfold establish at h
  obtain ⟨c₁, h₁, h⟩ := Option.bind_eq_some_iff.mp h
  obtain ⟨c₂, h₂, h₃⟩ := Option.bind_eq_some_iff.mp h
  rw [send_eq_some h₃, send_eq_some h₂, send_eq_some h₁]
  exact ⟨_, _, rfl, rfl, rfl, rfl⟩

theorem Starts.inv {w : Registration} (h : w.Starts) : w.Inv := by
  obtain ⟨c, hc⟩ := h.established
  obtain ⟨nick, user, hout, hneg, hdone, hregistered⟩ := establish_eq_some hc
  have hreqs : w.requests = [listRequest, ⟨lit "NICK", nick, none⟩, ⟨lit "USER", user, none⟩] := by
    rw [requests, h.wire, hout, List.nil_append]
  have hknown : w.client.knownNick = none := by
    rw [knownNick, hregistered, if_neg Bool.false_ne_true]
  have hne : lit "NICK" ≠ lit "CAP" ∧ lit "USER" ≠ lit "CAP" ∧ lit "USER" ≠ lit "NICK" ∧
      lit "CAP" ≠ lit "NICK" := by decide
  have htold : w.server.toldNick = none := by rw [toldNick, h.welcomed, if_neg Bool.false_ne_true]
  refine ⟨⟨?_, fun _ => ?_, fun hlate => ?_⟩, ⟨?_, fun _ => ?_, ?_, ?_, fun _ => ?_, ?_,
    fun hlate => ?_, fun cap _ hoffered => ?_⟩⟩
  · rw [hknown, htold, h.messages]
    exact .nil
  · simp [hreqs, h.messages, h.nick, isNick, listRequest, hne]
  · simp [h.welcomed] at hlate
  · simp [h.messages]
  · refine ⟨⟨_, hreqs, ?_⟩, h.user, h.ended, ⟨hneg, hdone⟩, by simp [h.messages]⟩
    simp [listRequest, hne.1.symm, hne.2.1.symm]
  · simp [h.negotiating, hreqs]
  · simp [hreqs, h.ended, hneg, listRequest, endRequest, hne]
  · exact .unlisted hdone (by simp [hreqs])
  · exact .inr ⟨user, by simp [hreqs]⟩
  · simp [h.welcomed] at hlate
  · exact .unlisted (by simp [hreqs])

/-- On no connection does the client send CAP END twice. Where nothing is under way it is
registered under the nick that the server has for it, its negotiation is over, and unless the
server refused a request, every capability that it wants and the server offers is enabled. -/
theorem registration_settles (u : UpperCase) (w w' : Registration) (hstart : w.Starts)
    (hrun : Relation.ReflTransGen (Step u) w w') :
    w'.server.ended + w'.requests.count endRequest ≤ 1 ∧
      (w'.Settled → w'.client.registered = true ∧ w'.server.welcomed = true ∧
        w'.server.nick = some w'.client.currentNick ∧ w'.server.ended = 1 ∧
        w'.server.negotiating = false ∧ (w'.server.refused = false →
          ∀ cap ∈ desiredCaps, cap ∈ w'.server.offered → cap ∈ w'.server.enabled)) := by
  obtain ⟨hn, hc⟩ := hstart.inv.run hrun
  refine ⟨?_, fun hsettled => ?_⟩
  · have hends := hc.ends
    split_ifs at hends <;> omega
  obtain ⟨hreqs, hms, hready⟩ := hsettled
  rw [hreqs, hms] at hn hc
  have hneg : w'.client.capNegotiating = false := by
    by_contra hopen
    cases hc.progress (by simpa using hopen) with
    | unlisted _ h => simp at h
    | listing _ hm => simp at hm
    | requested _ h => simp at h
    | answered _ hm => simp at hm
  have hended : w'.server.ended = 1 := by
    have hends := hc.ends
    rw [hneg] at hends
    simpa using hends
  have hclosed : w'.server.negotiating = false := by
    by_contra hopen
    have := (hc.negotiating.mp (by simpa using hopen)).2
    omega
  have huser : w'.server.user = true := hc.user.resolve_right (by simp)
  have hwelcomed : w'.server.welcomed = true := by
    by_contra hearly
    have hnick := hn.nicks (by simpa using hearly)
    refine hearly (hready ⟨huser, ?_, hclosed⟩)
    by_contra hnone
    simp [hnone] at hnick
  have htold : w'.client.knownNick = w'.server.toldNick := by
    have htold := hn.told
    generalize w'.client.knownNick = known at htold
    cases htold
    rfl
  obtain ⟨n, hnick⟩ := Option.isSome_iff_exists.mp (hn.named hwelcomed)
  rw [toldNick, if_pos hwelcomed, hnick] at htold
  obtain ⟨hregistered, hcurrent⟩ := knownNick_eq_some htold
  refine ⟨hregistered, hwelcomed, by rw [hnick, hcurrent], hended, hclosed,
    fun hrefused cap hcap hoffered => ?_⟩
  cases hc.owed cap hcap hoffered with
  | refused h => exact absurd (hrefused.symm.trans h) Bool.false_ne_true
  | enabled h => exact h
  | requested h => simp at h
  | offered h => simp at h
  | unlisted h => simp at h
  | listing _ h => simp at h

def sampleClient : IrcClient where
  capAvailable := ∅
  capNegotiating := false
  capLsDone := false
  casemapping := .rfc1459
  currentNick := lit "b"
  desiredNick := lit "b"
  nicknameAttempts := 0
  nicknameLength := defaultNickLength
  registered := false
  pingToken := none
  outbound := []

/-- A server that offers `chghost` -/
def sampleServer : RegistrationServer where
  offered := {lit "chghost"}
  enabled := ∅
  negotiating := false
  ended := 0
  user := false
  nick := none
  welcomed := false
  refused := false

def sampleStart : Registration where
  client := sampleClient.establish.getD sampleClient
  alive := true
  wire := []
  server := sampleServer
  messages := []

theorem eq_some_getD {α : Type*} {o : Option α} (h : o.isSome = true) (a : α) :
    o = some (o.getD a) := by
  cases o with
  | none => simp at h
  | some => rfl

theorem starts_sampleStart : sampleStart.Starts where
  established := ⟨sampleClient, eq_some_getD (by decide +kernel) sampleClient⟩
  alive := rfl
  wire := rfl
  messages := rfl
  ended := rfl
  negotiating := rfl
  user := rfl
  nick := rfl
  welcomed := rfl

/-- The server refuses the nick once, and enables `chghost`. -/
theorem registration_settles_sample : ∃ w' : Registration,
    Relation.ReflTransGen (Step asciiUpperCase) sampleStart w' ∧ w'.Settled ∧
      w'.server.nick = some w'.client.currentNick ∧ lit "chghost" ∈ w'.server.enabled := by
  let cap := lit "chghost"
  let welcome : IRCMessage := ⟨lit "001", [lit "a"], none⟩
  let push : Registration → Registration := fun w =>
    { w with
      client := { w.client with outbound := w.client.outbound.tail }
      wire := w.wire ++ w.client.outbound.take 1 }
  let reply : Registration → RegistrationServer → List IRCMessage → Registration :=
    fun w s answers => { w with wire := w.wire.tail, server := s, messages := w.messages ++ answers }
  let hear : Registration → Registration := fun w =>
    { w with
      client := (w.client.dispatchLine asciiUpperCase (lit "a") (w.messages.headD welcome)).getD
        w.client
      messages := w.messages.tail }
  have hpush : ∀ w, w.alive = true → w.client.outbound.isEmpty = false →
      Step asciiUpperCase w (push w) := by
    intro w halive hout
    cases h : w.client.outbound with
    | nil => simp [h] at hout
    | cons m rest =>
      have hstep := Step.transmit (u := asciiUpperCase) halive h
      simpa [push, h] using hstep
  have hreply : ∀ w m s answers, w.alive = true → w.wire.head? = some m →
      w.server.Serves m answers s → Step asciiUpperCase w (reply w s answers) := by
    intro w m s answers halive hwire hs
    obtain ⟨rest, hrest⟩ := List.head?_eq_some_iff.mp hwire
    have hstep := Step.serve (u := asciiUpperCase) halive hrest hs
    simpa [reply, hrest] using hstep
  have hhear : ∀ w m, w.alive = true → w.messages.head? = some m →
      (w.client.dispatchLine asciiUpperCase (lit "a") m).isSome = true →
      Step asciiUpperCase w (hear w) := by
    intro w m halive hm hsome
    obtain ⟨rest, hrest⟩ := List.head?_eq_some_iff.mp hm
    have hstep := Step.read halive hrest (eq_some_getD hsome w.client)
    simpa [hear, hrest] using hstep
  let w₃ := push (push (push sampleStart))
  let w₄ := reply w₃ { w₃.server with negotiating := true } (listing none (lit "*") [] cap)
  let w₅ := reply w₄ w₄.server [⟨lit "433", [lit "*", lit "b"], none⟩]
  let w₆ := reply w₅ { w₅.server with user := true } []
  let w₁₀ := push (push (hear (hear w₆)))
  let w₁₁ := reply w₁₀ { w₁₀.server with enabled := w₁₀.server.enabled ∪ capNames cap }
    [capLine none (lit "*") (lit "ACK") [cap]]
  let w₁₂ := reply w₁₁ { w₁₁.server with nick := some (lit "a") } []
  let w₁₄ := push (hear w₁₂)
  let w₁₅ := reply w₁₄ { w₁₄.server with negotiating := false, ended := w₁₄.server.ended + 1 } []
  let w₁₆ : Registration := { w₁₅ with
    server := { w₁₅.server with welcomed := true }, messages := w₁₅.messages ++ [welcome] }
  have h₃ : Relation.ReflTransGen (Step asciiUpperCase) sampleStart w₃ :=
    .tail (.tail (.single (hpush sampleStart rfl (by decide +kernel)))
      (hpush (push sampleStart) rfl (by decide +kernel)))
      (hpush (push (push sampleStart)) rfl (by decide +kernel))
  have h₄ : Step asciiUpperCase w₃ w₄ := by
    refine hreply w₃ listRequest _ _ rfl (by decide +kernel) (.list fun offered hoffered => ?_)
    obtain rfl := Finset.mem_singleton.mp hoffered
    exact ⟨lit "chghost", by simp [cap], by decide +kernel⟩
  have h₅ : Step asciiUpperCase w₄ w₅ :=
    hreply w₄ ⟨lit "NICK", [lit "b"], none⟩ _ _ rfl (by decide +kernel) (.refuse (by decide))
  have h₆ : Step asciiUpperCase w₅ w₆ :=
    hreply w₅ ⟨lit "USER", [lit "b", lit "0", lit "*", lit "b"], none⟩ _ _ rfl (by decide +kernel) .user
  have h₈ : Relation.ReflTransGen (Step asciiUpperCase) w₆ (hear (hear w₆)) :=
    .tail (.single (hhear w₆ (capLine none (lit "*") (lit "LS") [cap]) rfl (by decide +kernel)
      (by decide +kernel)))
      (hhear (hear w₆) ⟨lit "433", [lit "*", lit "b"], none⟩ rfl (by decide +kernel) (by decide +kernel))
  have h₁₀ : Relation.ReflTransGen (Step asciiUpperCase) (hear (hear w₆)) w₁₀ :=
    .tail (.single (hpush (hear (hear w₆)) rfl (by decide +kernel)))
      (hpush (push (hear (hear w₆))) rfl (by decide +kernel))
  have h₁₁ : Step asciiUpperCase w₁₀ w₁₁ :=
    hreply w₁₀ (capRequest cap) _ _ rfl (by decide +kernel) .ack
  have h₁₂ : Step asciiUpperCase w₁₁ w₁₂ :=
    hreply w₁₁ ⟨lit "NICK", [lit "a"], none⟩ _ _ rfl (by decide +kernel) (.nick rfl)
  have h₁₄ : Relation.ReflTransGen (Step asciiUpperCase) w₁₂ w₁₄ :=
    .tail (.single (hhear w₁₂ (capLine none (lit "*") (lit "ACK") [cap]) rfl (by decide +kernel)
      (by decide +kernel))) (hpush (hear w₁₂) rfl (by decide +kernel))
  have h₁₅ : Step asciiUpperCase w₁₄ w₁₅ :=
    hreply w₁₄ endRequest _ _ rfl (by decide +kernel) .capEnd
  have h₁₆ : Step asciiUpperCase w₁₅ w₁₆ := .speak rfl (.welcome ⟨rfl, rfl, rfl⟩ rfl rfl)
  have h₁₇ : Step asciiUpperCase w₁₆ (hear w₁₆) :=
    hhear w₁₆ welcome rfl (by decide +kernel) (by decide +kernel)
  have hrun : Relation.ReflTransGen (Step asciiUpperCase) sampleStart (hear w₁₆) :=
    (((((((h₃.tail h₄).tail h₅).tail h₆).trans h₈).trans h₁₀).tail h₁₁).tail h₁₂).trans
      (((h₁₄.tail h₁₅).tail h₁₆).tail h₁₇)
  have hsettled : (hear w₁₆).Settled := ⟨by decide +kernel, by decide +kernel, fun _ => rfl⟩
  have hresult := (registration_settles asciiUpperCase sampleStart _ starts_sampleStart hrun).2 hsettled
  exact ⟨_, hrun, hsettled, hresult.2.2.1, hresult.2.2.2.2.2 rfl cap (by decide)
    (Finset.mem_singleton_self _)⟩

end Registration

end Botnats
