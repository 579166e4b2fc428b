import Botnats.IrcEvents
import Mathlib.Logic.Function.Basic

/-!
# The server's side of the channels

Users and the modes of the members of each channel, as a server with multi-prefix keeps
them, and the lines a step of the server sends to the bot. The server names users and
channels by their folds; a line may spell them in any way that folds the same.
-/
namespace Botnats

/-- What a server advertises as PREFIX: the membership modes and their symbols, the
highest rank first. `b`, `k` and `l` are channel modes everywhere. -/
structure MemberRanks where
  modes : Str
  symbols : Str
  modes_ne : modes ≠ []
  length_eq : modes.length = symbols.length
  modes_nodup : modes.Nodup
  symbols_nodup : symbols.Nodup
  closing : (41 : CodePoint) ∉ modes
  letters : ∀ mode ∈ modes, mode ∉ ([43, 45, 98, 107, 108] : Str)

namespace MemberRanks

/-- The value of the token. -/
def value (r : MemberRanks) : Str := 40 :: (r.modes ++ 41 :: r.symbols)

/-- The rank of a channel operator: that of `@`, else of the conventional mode. -/
def operatorRank (r : MemberRanks) : Option ℕ :=
  if (64 : CodePoint) ∈ r.symbols then some (r.symbols.idxOf 64)
  else (([111, 97, 113] : Str).find? fun mode => mode ∈ r.modes).map fun mode => r.modes.idxOf mode

/-- A member with these modes is an operator or ranks above. -/
def Operator (r : MemberRanks) (modes : List CodePoint) : Prop :=
  ∃ rank, r.operatorRank = some rank ∧ ∃ mode ∈ modes, r.modes.idxOf mode ≤ rank

/-- The symbols shown for a member with these modes. -/
def Shown (r : MemberRanks) (modes : List CodePoint) (symbols : Str) : Prop :=
  ∀ e ∈ r.symbols.zip r.modes, e.1 ∈ symbols ↔ e.2 ∈ modes

/-- A nick has no space and does not begin with a symbol. -/
structure NickOk (r : MemberRanks) (nick : Str) : Prop where
  ne : nick ≠ []
  spaceless : ∀ c ∈ nick, isSpace c = false
  plain : ∀ c, nick.head? = some c → c ∉ r.symbols

end MemberRanks

/-- A user as the server shows it. -/
structure ServerUser where
  nick : Str
  user : Str
  host : Str
  deriving DecidableEq

namespace ServerUser

def toPrefix (x : ServerUser) : Prefix := ⟨x.nick, some x.user, some x.host⟩

/-- A prefix under which the server may send a line of the user, partial or complete. -/
structure Sends (x : ServerUser) (p : Prefix) : Prop where
  nick : p.nick = x.nick
  complete : p.complete = true → p = x.toPrefix

end ServerUser

/-- The connected users by folded nick, the modes of a channel's members by folded channel
and nick, and the folded nick of the bot. -/
structure IrcServer where
  users : Str → Option ServerUser
  seats : Str → Str → Option (List CodePoint)
  self : Str

namespace IrcServer

/-- The bot is on the channel. -/
def Sees (s : IrcServer) (f : Str) : Prop := s.seats f s.self ≠ none

/-- The user is the bot, or on a channel with it. -/
def Shares (s : IrcServer) (k : Str) : Prop := k = s.self ∨ ∃ f, s.Sees f ∧ s.seats f k ≠ none

def seat (s : IrcServer) (f k : Str) (modes : Option (List CodePoint)) : IrcServer :=
  { s with seats := Function.update s.seats f (Function.update (s.seats f) k modes) }

/-- A user connects, or shows another user name and host. -/
def put (s : IrcServer) (k : Str) (x : ServerUser) : IrcServer :=
  { s with users := Function.update s.users k (some x) }

/-- A user leaves the server. -/
def forget (s : IrcServer) (k : Str) : IrcServer :=
  { s with
    users := Function.update s.users k none
    seats := fun f => Function.update (s.seats f) k none }

/-- A user goes by another nick; every seat moves with it. -/
def rename (s : IrcServer) (k k' : Str) (x : ServerUser) : IrcServer where
  users := Function.update (Function.update s.users k none) k' (some x)
  seats := fun f => Function.update (Function.update (s.seats f) k none) k' (s.seats f k)
  self := if s.self = k then k' else s.self

/-- One membership change: the sign, the mode and the member. -/
def change (f : Str) (s : IrcServer) (e : Bool × CodePoint × Str) : IrcServer :=
  s.seat f e.2.2 ((s.seats f e.2.2).map fun modes =>
    if e.1 then e.2.1 :: modes else modes.filter (· ≠ e.2.1))

/-- What holds of every state of the server. -/
structure Consistent (r : MemberRanks) (cm : Casemapping) (s : IrcServer) : Prop where
  user : ∀ k x, s.users k = some x → casefold x.nick cm = k ∧ r.NickOk x.nick
  seated : ∀ f k modes, s.seats f k = some modes → (∃ x, s.users k = some x) ∧ modes ⊆ r.modes
  self : ∃ x, s.users s.self = some x

/-- An entry of a NAMES reply stands for a member. -/
def Listed (r : MemberRanks) (s : IrcServer) (f entry k : Str) : Prop :=
  ∃ x modes symbols, s.users k = some x ∧ s.seats f k = some modes ∧
    entry = symbols ++ x.nick ∧ symbols ⊆ r.symbols ∧ r.Shown modes symbols

/-- The lines of a full NAMES reply. -/
structure Names (r : MemberRanks) (s : IrcServer) (f : Str) (lines : List Str) : Prop where
  sound : ∀ line ∈ lines, ∀ entry ∈ splitWords line, ∃ k, s.Listed r f entry k
  full : ∀ k, s.seats f k ≠ none → ∃ line ∈ lines, ∃ entry ∈ splitWords line, s.Listed r f entry k

/-- A line reaches the bot where the bot must see it. -/
def Delivered (visible : Prop) (message : IRCMessage) (messages : List IRCMessage) : Prop :=
  messages = [message] ∨ ¬ visible ∧ messages = []

/-- A step of the server, and the lines it sends to the bot. -/
inductive Step (r : MemberRanks) (cm : Casemapping) (s : IrcServer) :
    List IRCMessage → IrcServer → Prop
  | connect {x : ServerUser} (nick : r.NickOk x.nick) (free : s.users (casefold x.nick cm) = none) :
    Step r cm s [] (s.put (casefold x.nick cm) x)
  | join {channel k : Str} {x : ServerUser} {p : Prefix} {params : List Str}
    {messages : List IRCMessage} (other : k ≠ s.self) (user : s.users k = some x)
    (absent : s.seats (casefold channel cm) k = none) (sender : x.Sends p)
    (sent : Delivered (s.Sees (casefold channel cm)) ⟨lit "JOIN", channel :: params, some p⟩
      messages) :
    Step r cm s messages (s.seat (casefold channel cm) k (some []))
  | joinSelf {channel : Str} {x : ServerUser} {p sender : Prefix} {params : List Str}
    {modes : List CodePoint} {target kind : Str} {lines : List Str}
    (user : s.users s.self = some x) (absent : s.seats (casefold channel cm) s.self = none)
    (sends : x.Sends p) (ranked : modes ⊆ r.modes)
    (names : Names r (s.seat (casefold channel cm) s.self (some modes)) (casefold channel cm) lines) :
    Step r cm s (⟨lit "JOIN", channel :: params, some p⟩ :: lines.map fun line =>
        ⟨lit "353", [target, kind, channel, line], some sender⟩)
      (s.seat (casefold channel cm) s.self (some modes))
  | part {channel k : Str} {x : ServerUser} {p : Prefix} {params : List Str}
    {messages : List IRCMessage} (user : s.users k = some x)
    (present : s.seats (casefold channel cm) k ≠ none) (sender : x.Sends p)
    (sent : Delivered (s.Sees (casefold channel cm)) ⟨lit "PART", channel :: params, some p⟩
      messages) :
    Step r cm s messages (s.seat (casefold channel cm) k none)
  | kick {channel target : Str} {by' : Option Prefix} {params : List Str}
    {messages : List IRCMessage}
    (present : s.seats (casefold channel cm) (casefold target cm) ≠ none)
    (sent : Delivered (s.Sees (casefold channel cm))
      ⟨lit "KICK", channel :: target :: params, by'⟩ messages) :
    Step r cm s messages (s.seat (casefold channel cm) (casefold target cm) none)
  | quit {k : Str} {x : ServerUser} {p : Prefix} {params : List Str} {messages : List IRCMessage}
    (other : k ≠ s.self) (user : s.users k = some x) (sender : x.Sends p)
    (sent : Delivered (s.Shares k) ⟨lit "QUIT", params, some p⟩ messages) :
    Step r cm s messages (s.forget k)
  | nick {k newNick : Str} {x : ServerUser} {p : Prefix} {messages : List IRCMessage}
    (user : s.users k = some x) (nick : r.NickOk newNick)
    (free : casefold newNick cm = k ∨ s.users (casefold newNick cm) = none) (sender : x.Sends p)
    (sent : Delivered (s.Shares k) ⟨lit "NICK", [newNick], some p⟩ messages) :
    Step r cm s messages (s.rename k (casefold newNick cm) { x with nick := newNick })
  | chghost {k newUser newHost : Str} {x : ServerUser} {p : Prefix} {params : List Str}
    {messages : List IRCMessage} (user : s.users k = some x) (sender : x.Sends p)
    (sent : Delivered (s.Shares k) ⟨lit "CHGHOST", newUser :: newHost :: params, some p⟩ messages) :
    Step r cm s messages (s.put k { x with user := newUser, host := newHost })
  | mode {channel text : Str} {by' : Option Prefix} {arguments : List Str}
    {changes : List (Bool × CodePoint × Str)} {messages : List IRCMessage}
    (letters : modeLetters true text = changes.map fun e => (e.1, e.2.1))
    (nicks : arguments.map (casefold · cm) = changes.map fun e => e.2.2)
    (ranked : ∀ e ∈ changes, e.2.1 ∈ r.modes)
    (present : ∀ e ∈ changes, s.seats (casefold channel cm) e.2.2 ≠ none)
    (sent : Delivered (s.Sees (casefold channel cm))
      ⟨lit "MODE", channel :: text :: arguments, by'⟩ messages) :
    Step r cm s messages (changes.foldl (change (casefold channel cm)) s)
  | who {channel k target server flags realname : Str} {x : ServerUser} {sender : Prefix}
    {modes : List CodePoint} {params : List Str} (user : s.users k = some x)
    (present : s.seats (casefold channel cm) k = some modes) (shown : r.Shown modes flags) :
    Step r cm s [⟨lit "352", [target, channel, x.user, x.host, server, x.nick, flags, realname] ++
      params, some sender⟩] s

/-- The bot handles the lines one by one. -/
inductive Handles (S : SessionScope) : IrcBot → List IRCMessage → IrcBot → Prop
  | nil (b : IrcBot) : Handles S b [] b
  | cons {b b' : IrcBot} {message : IRCMessage} {messages : List IRCMessage}
    (link : Str → IrcLink) (now : ℚ)
    (rest : Handles S (b.onMessage S link now message) messages b') :
    Handles S b (message :: messages) b'

/-- A history of the server and the bot that reads its lines. -/
inductive History (r : MemberRanks) (cm : Casemapping) (S : SessionScope) (s₀ : IrcServer)
    (b₀ : IrcBot) : IrcServer → IrcBot → Prop
  | start : History r cm S s₀ b₀ s₀ b₀
  | step {s s' : IrcServer} {b b' : IrcBot} {messages : List IRCMessage}
    (earlier : History r cm S s₀ b₀ s b) (step : Step r cm s messages s')
    (handled : Handles S b messages b') : History r cm S s₀ b₀ s' b'

/-- The bot has read the server's PREFIX and casemapping, and is on no channel yet. -/
structure Starts (r : MemberRanks) (base : ISupport) (cm : Casemapping) (s : IrcServer)
    (b : IrcBot) : Prop where
  consistent : s.Consistent r cm
  outside : ∀ f, ¬ s.Sees f
  casemapping : b.manager.casemapping = cm
  caps : b.caps = base.parsePrefix r.value
  nick : casefold b.currentNick cm = s.self
  runtime : ∀ f c, Assoc.lookup f b.manager.channels = some c → c.casemapping = cm

/-- The members of a runtime are those of the server's channel: the keys are the folded
nicks, a stored nick folds to its key, a member is opped where the server has it at
operator rank or above, and a complete prefix is the current one. -/
structure Agrees (r : MemberRanks) (cm : Casemapping) (caps : ISupport) (s : IrcServer)
    (f : Str) (c : ChannelRuntime) : Prop where
  keys : ∀ k, (∃ member, Assoc.lookup k c.members = some member) ↔
    ∃ x, s.users k = some x ∧ casefold x.nick cm = k ∧ s.seats f k ≠ none
  nick : ∀ k member, Assoc.lookup k c.members = some member → casefold member.nick cm = k
  opped : ∀ k member modes, Assoc.lookup k c.members = some member →
    s.seats f k = some modes → (caps.isOpped member.modes = true ↔ r.Operator modes)
  known : ∀ k member x p, Assoc.lookup k c.members = some member → s.users k = some x →
    member.ircPrefix = some p → p.complete = true → p = x.toPrefix

end IrcServer

end Botnats
