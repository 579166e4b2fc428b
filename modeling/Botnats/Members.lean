import Botnats.ChannelManager

/-!
# Members of the desired channels

The membership part of `ISupportState`, MODE changes with their arguments, and what
`ChannelRuntime` and `ChannelManager` do to the members of a channel. A member sits
under the fold of its nick by the casemapping of its runtime; the manager renames and
rehosts under its own.
-/
namespace Botnats

/-- What `ISupportState` holds of modes; `memberPrefixes` maps symbols to modes. -/
structure ISupport where
  chanmodes : Str × Str × Str × Str
  memberPrefixes : List (CodePoint × CodePoint)
  membershipModes : Str
  opMode : CodePoint
  deriving DecidableEq

namespace ISupport

/-- `%h`, `&a`, `+v`, `@o`, `~q` -/
def defaultMemberPrefixes : List (CodePoint × CodePoint) :=
  [(37, 104), (38, 97), (43, 118), (64, 111), (126, 113)]

/-- The capabilities before a server advertised any. -/
def initial : ISupport :=
  ⟨(lit "beI", lit "k", lit "l", lit "imnst"), defaultMemberPrefixes, lit "qaohv", 111⟩

/-- `operator_modes`: the membership modes of at least the operator's rank. -/
def operatorModes (caps : ISupport) : Str :=
  if caps.opMode ∈ caps.membershipModes then
    caps.membershipModes.take (caps.membershipModes.idxOf caps.opMode + 1)
  else [caps.opMode]

/-- `is_opped` -/
def isOpped (caps : ISupport) (modes : List CodePoint) : Bool :=
  modes.any fun mode => decide (mode ∈ caps.operatorModes)

/-- `parse_prefix` -/
def parsePrefix (caps : ISupport) (value : Str) : ISupport :=
  if value = [] ∨ value = lit "()" then
    { caps with memberPrefixes := [], membershipModes := [], opMode := 111 }
  else
    match value with
    | [] => caps
    | opening :: rest =>
      if opening ≠ 40 then caps
      else
        match partition 41 rest with
        | (_, none) => caps
        | (modes, some symbols) =>
          if modes = [] ∨ modes.length ≠ symbols.length then caps
          else
            -- `dict(zip(symbols, modes))`: a repeated symbol keeps its place, and its last mode
            let prefixes := (symbols.zip modes).foldl (fun d e => Assoc.assign e.1 e.2 d) []
            let fallback := (([111, 97, 113] : Str).find? fun mode => mode ∈ modes).getD 111
            { caps with
              memberPrefixes := prefixes
              membershipModes := modes
              opMode := (Assoc.lookup 64 prefixes).getD fallback }

end ISupport

/-! ## Mode changes -/

/-- The letters of a mode string, each with its sign. -/
def modeLetters (adding : Bool) : Str → List (Bool × CodePoint)
  | [] => []
  | c :: rest =>
    if c = 43 then modeLetters true rest
    else if c = 45 then modeLetters false rest
    else (adding, c) :: modeLetters adding rest

/-- `mode_requires_argument` -/
def modeRequiresArgument (caps : ISupport) (change : Bool × CodePoint) : Bool :=
  decide (change.2 ∈ caps.chanmodes.1 ++ caps.chanmodes.2.1 ++ caps.membershipModes) ||
    (change.1 && decide (change.2 ∈ caps.chanmodes.2.2.1))

/-- The first `-k` that would consume an argument consumes none. -/
def relaxKey : List ((Bool × CodePoint) × Bool) → List ((Bool × CodePoint) × Bool)
  | [] => []
  | (change, consume) :: rest =>
    if change = (false, 107) ∧ consume then (change, false) :: rest
    else (change, consume) :: relaxKey rest

/-- Each change takes its argument, while there are any. -/
def takeArguments : List ((Bool × CodePoint) × Bool) → List Str →
    List (Bool × CodePoint × Option Str)
  | [], _ => []
  | ((adding, mode), true) :: rest, argument :: arguments =>
    (adding, mode, some argument) :: takeArguments rest arguments
  | ((adding, mode), _) :: rest, arguments => (adding, mode, none) :: takeArguments rest arguments

/-- `iter_mode_changes` -/
def iterModeChanges (caps : ISupport) (modes : Str) (arguments : List Str) :
    List (Bool × CodePoint × Option Str) :=
  let changes := (modeLetters true modes).map fun change =>
    (change, modeRequiresArgument caps change)
  let consumed := (changes.filter Prod.snd).length
  takeArguments (if consumed = arguments.length + 1 then relaxKey changes else changes) arguments

/-! ## Members and bans of one channel -/

namespace ChannelRuntime

/-- `member`, and what is then done to it: it is made where it is missing, and takes the
nick as it was written. -/
def withMember (c : ChannelRuntime) (nickname : Str) (f : ChannelMember → ChannelMember) :
    ChannelRuntime :=
  let folded := casefold nickname c.casemapping
  let found := (Assoc.lookup folded c.members).getD ⟨nickname, [], none⟩
  { c with members := Assoc.assign folded (f { found with nick := nickname }) c.members }

/-- `remove` -/
def remove (c : ChannelRuntime) (nickname : Str) : ChannelRuntime :=
  { c with members := Assoc.discard (casefold nickname c.casemapping) c.members }

/-- `add_ban` -/
def addBan (c : ChannelRuntime) (mask : Str) : ChannelRuntime :=
  { c with bans := Assoc.assign (casefold mask c.casemapping) mask c.bans }

/-- `remove_ban` -/
def removeBan (c : ChannelRuntime) (mask : Str) : ChannelRuntime :=
  { c with bans := Assoc.discard (casefold mask c.casemapping) c.bans }

/-- `process_op` -/
def processOp (c : ChannelRuntime) (mode : CodePoint) (nick : Str) (adding : Bool) :
    ChannelRuntime :=
  c.withMember nick fun member => { member with
    modes := if adding then
        if mode ∈ member.modes then member.modes else member.modes ++ [mode]
      else member.modes.filter (· ≠ mode) }

/-- `process_setting`, as far as it sets the key. -/
def processSetting (c : ChannelRuntime) (mode : CodePoint) (argument : Option Str)
    (adding : Bool) : ChannelRuntime :=
  if mode = 108 then c
  else
    match argument with
    | some key =>
      if adding then if key = lit "*" then c else (c.setKey (some key)).1
      else (c.setKey none).1
    | none => if adding then c else (c.setKey none).1

/-- One change of `apply_mode_changes`. -/
def applyModeChange (caps : ISupport) (c : ChannelRuntime)
    (change : Bool × CodePoint × Option Str) : ChannelRuntime :=
  let (adding, mode, argument) := change
  if mode = 107 ∨ mode = 108 then c.processSetting mode argument adding
  else
    match argument with
    | none => c
    | some argument =>
      if mode = 98 then if adding then c.addBan argument else c.removeBan argument
      else if mode ∈ caps.operatorModes then c.processOp mode argument adding
      else c

/-- `apply_mode_changes`, as far as it changes the runtime. -/
def applyModeChanges (c : ChannelRuntime) (caps : ISupport) (modes : Str)
    (arguments : List Str) : ChannelRuntime :=
  (iterModeChanges caps modes arguments).foldl (applyModeChange caps) c

end ChannelRuntime

/-! ## Users in every channel -/

/-- The identity that a partial prefix is completed to, once a member record was seen. -/
def Prefix.completed (p : Prefix) (known : Option Prefix) : Prefix :=
  if p.complete then p
  else
    match known with
    | none => p
    | some q => if q.complete then q else p

namespace ChannelManager

/-- `forget_member` -/
def forgetMember (m : ChannelManager) (nick : Str) : ChannelManager :=
  { m with channels := m.channels.map fun e => (e.1, e.2.remove nick) }

/-- The identity of a user that the members of the channels complete, channel by channel. -/
def knownPrefix (m : ChannelManager) (p : Prefix) : Prefix :=
  m.channels.foldl (fun old e =>
    match Assoc.lookup (m.fold p.nick) e.2.members with
    | none => old
    | some member => old.completed member.ircPrefix) p

/-- A member under a new nick, with its prefix. -/
def renamed (member : ChannelMember) (newNick : Str) : ChannelMember :=
  { member with
    nick := newNick
    ircPrefix := member.ircPrefix.map fun p => { p with nick := newNick } }

/-- `rename_member` in one channel. -/
def renameIn (oldFolded newFolded newNick : Str) (c : ChannelRuntime) : ChannelRuntime :=
  match Assoc.lookup oldFolded c.members with
  | none => c
  | some member =>
    { c with members :=
      Assoc.assign newFolded (renamed member newNick) (Assoc.discard oldFolded c.members) }

/-- `rename_member`: the full old prefix, and the members under their new names. -/
def renameMember (m : ChannelManager) (p : Prefix) (newNick : Str) : Prefix × ChannelManager :=
  (m.knownPrefix p, { m with
    channels := m.channels.map fun e =>
      (e.1, renameIn (m.fold p.nick) (m.fold newNick) newNick e.2) })

/-- `change_member_host` in one channel. -/
def rehostIn (folded : Str) (newPrefix : Prefix) (c : ChannelRuntime) : ChannelRuntime :=
  match Assoc.lookup folded c.members with
  | none => c
  | some member =>
    { c with members := Assoc.assign folded { member with ircPrefix := some newPrefix } c.members }

/-- `change_member_host`: the full old prefix, and the members with their new host. -/
def changeMemberHost (m : ChannelManager) (p newPrefix : Prefix) : Prefix × ChannelManager :=
  (m.knownPrefix p, { m with
    channels := m.channels.map fun e => (e.1, rehostIn (m.fold p.nick) newPrefix e.2) })

end ChannelManager

end Botnats
