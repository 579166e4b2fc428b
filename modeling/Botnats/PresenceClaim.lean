import Botnats.Machine
import Botnats.Bucket
import Botnats.Presence

/-!
# The claim on a presence key

`PresenceClaim` of `nats/claim.py` with the store operations it awaits, for any
number of processes with one bot ID and one key. A process holds its lock for one
operation at a time; the operation is a stage that moves when an answer arrives,
while watched records and disconnects change the claim in between. Writes travel on
their own and may land after their operation failed. Anybody may write or remove
the key at any time.

A revision a process holds was given to a correctly signed record of that process,
whichever of the four ways it was learned; that is what its next compare-and-set
removes.
-/
namespace Botnats

open Bucket Json

inductive PresenceState
  | unclaimed
  | owned
  | duplicate
  deriving DecidableEq

/-- What the operation that holds the lock waits for. In the loop of
`PresenceStore.reclaim` a stage carries the number of the round. -/
inductive Stage
  | updating
  | creating
  | getting (round : ℕ)
  | read (round : ℕ) (entry : Option (Entry (Option Json)))
  | recreating (round : ℕ)
  | overwriting (round : ℕ)
  | deleting

/-- The operation under way: the generation it started at, and the answer to its
write `serial`, a revision or `none` for a lost race. -/
structure Operation where
  generation : ℕ
  stage : Stage
  serial : ℕ
  answer : Option (Option ℕ)

/-- The fields of `PresenceClaim` that change. -/
structure Claim where
  generation : ℕ
  last : Fields
  revision : Option ℕ
  state : PresenceState
  operation : Option Operation

inductive WriteKind
  | create
  | update (last : ℕ)
  | delete (last : ℕ)

/-- How an operation goes on: `claim` and `recreate` create the key, `refresh` renews
the process's own record, `overwrite` replaces a value judged at a reading. -/
inductive Next
  | finish
  | claim
  | recreate (round : ℕ)
  | refresh (last : ℕ)
  | overwrite (round last : ℕ) (judged : ℚ)
  | delete (last : ℕ)
  | get (round : ℕ)

namespace Claim

def owned (c : Claim) : Bool := c.state = .owned

/-- `PresenceClaim.reset` -/
def reset (c : Claim) : Claim :=
  { c with
    generation := c.generation + 1
    state := if c.owned then .unclaimed else c.state
    revision := none }

/-- `PresenceClaim.transition` -/
def transition (c : Claim) (state : PresenceState) (revision : Option ℕ) : Claim :=
  { c with
    generation := if state ≠ c.state then c.generation + 1 else c.generation
    state := state
    revision := revision }

/-- `PresenceClaim.adopt` -/
def adopt (c : Claim) (revision : ℕ) : Claim := c.transition .owned (some revision)

/-- `PresenceClaim.yield_key` -/
def yieldKey (c : Claim) : Claim := c.transition .duplicate none

/-- `PresenceClaim.observe`; `own` compares the instance IDs. -/
def observe (c : Claim) (own : Bool) (revision : ℕ) : Claim :=
  if own then c.adopt (max (c.revision.getD 0) revision) else c.yieldKey

@[simp] theorem observe_operation (c : Claim) (own : Bool) (revision : ℕ) :
    (c.observe own revision).operation = c.operation := by
  unfold observe
  split_ifs <;> rfl

/-- The end of `PresenceClaim.claim` -/
def settle (c : Claim) (generation : ℕ) (revision : Option ℕ) : Claim :=
  if generation ≠ c.generation then c
  else
    match revision with
    | none => c.yieldKey
    | some revision => c.adopt revision

/-- `put` up to its first write. -/
def put (c : Claim) (presence : Fields) : Claim × Next :=
  let c := { c with last := presence }
  match c.owned, c.revision with
  | true, some revision => (c, .refresh revision)
  | _, _ => (c, .claim)

/-- `reclaim` up to its first write. -/
def reclaim (c : Claim) : Claim × Next :=
  if c.owned then (c, .finish) else (c, .claim)

/-- `expired` up to its first write. -/
def expired (c : Claim) : Claim × Next :=
  (if c.owned then c.transition .unclaimed none else c, .claim)

/-- `release` up to its write. -/
def release (c : Claim) : Claim × Next :=
  match c.owned, c.revision with
  | true, some revision => (c, .delete revision)
  | _, _ => (c.reset, .finish)

/-- A round of the loop of `PresenceStore.reclaim` lost a race. -/
def retry (round : ℕ) : Next := if round + 1 < 2 then .get (round + 1) else .finish

/-- The operation goes on with the answer to its write. -/
def resume (c : Claim) (generation : ℕ) (stage : Stage) (answer : Option ℕ) : Claim × Next :=
  match stage, answer with
  | .updating, some revision =>
    if generation ≠ c.generation then (c, .finish)
    else ({ c with revision := some revision }, .finish)
  | .updating, none =>
    if generation ≠ c.generation then (c, .finish)
    else (c.transition .unclaimed none, .claim)
  | .creating, some revision => (c.settle generation (some revision), .finish)
  | .creating, none => (c, .get 0)
  | .recreating _, some revision => (c.settle generation (some revision), .finish)
  | .recreating round, none => (c, retry round)
  | .overwriting _, some revision => (c.settle generation (some revision), .finish)
  | .overwriting round, none => (c, retry round)
  | .deleting, _ => (c.reset, .finish)
  | _, _ => (c, .finish)

/-- A `clear` process: nothing claimed, nothing under way. -/
def init (botId instanceId : Str) : Claim :=
  ⟨0, presenceFields botId [] instanceId [] [], none, .unclaimed, none⟩

end Claim

section Values

variable (mac : Str → Str) (network : Str)

/-- The value is a correctly signed record of the instance. -/
def ownRecord (instanceId : Str) : Option Json → Bool
  | some (.obj d) => signedPresence mac network d && text (lit "instance_id") d = some instanceId
  | _ => false

/-- The instance a stored value names. -/
def instanceOf : Option Json → Option Str
  | some (.obj d) => text (lit "instance_id") d
  | _ => none

/-- `PresenceStore.valid` of a stored value; what is no object is not valid. -/
def validValue (ttl now : ℚ) : Option Json → Bool
  | some (.obj d) => validPresence mac network ttl now d
  | _ => false

/-- `PresenceStore.reclaim` once `kv.get` has answered in a round. -/
def Claim.readEntry (ttl : ℚ) (instanceId : Str) (c : Claim) (generation round : ℕ) (now : ℚ) :
    Option (Entry (Option Json)) → Claim × Next
  | none => (c, .recreate round)
  | some e =>
    if validValue mac network ttl now e.value then
      (c.settle generation
        (if ownRecord mac network instanceId e.value then some e.revision else none), .finish)
    else (c, .overwrite round e.revision now)

end Values

/-- A write under way. -/
structure PresenceWrite (ι : Type*) where
  proc : ι
  serial : ℕ
  key : Str
  value : Option Json
  kind : WriteKind
  judged : Option ℚ

/-- A value that a process's update or delete removed, kept for the statements
below; `judged` is the reading at which the process rejected it. -/
structure Removal (ι : Type*) where
  proc : ι
  value : Option Json
  judged : Option ℚ

/-- `events` are the values the key was given, with their revisions. -/
structure ClaimMesh (ι : Type*) where
  bucket : Store Str (Option Json)
  procs : ι → Claim
  net : List (PresenceWrite ι)
  serial : ℕ
  events : List (ℕ × Option Json)
  removals : List (Removal ι)

inductive ClaimStep (ι : Type*)
  | put (i : ι) (host nick user : Str) (now : ℚ)
  | reclaim (i : ι) (now : ℚ)
  | expired (i : ι) (now : ℚ)
  | release (i : ι)
  | observe (i : ι) (n : ℕ) (now : ℚ)
  | reset (i : ι)
  | get (i : ι)
  | read (i : ι) (now : ℚ)
  | land (n : ℕ)
  | resume (i : ι) (now : ℚ)
  | fail (i : ι)
  | cancel (i : ι)
  | forge (key : Str) (value : Option Json)
  | expire (key : Str)

/-- `bot_id.casefold()` of an identifier. -/
def presenceKey (botId : Str) : Str := casefold botId .ascii

/-- `BotPresence.from_dict` and the checks of `observe_presence` on a record of `key`. -/
def observable (mac : Str → Str) (network key : Str) (ttl now : ℚ) (d : Fields) : Bool :=
  [lit "bot_id", lit "host", lit "instance_id", lit "nick", lit "user"].all
      (fun name => (text name d).any fun s => !s.isEmpty) &&
    ((text (lit "bot_id") d).any fun s => identifier s && casefold s .ascii = key) &&
    validPresence mac network ttl now d

namespace ClaimMesh

variable {ι : Type*}
variable (mac : Str → Str) (network botId : Str) (ttl : ℚ) (inst : ι → Str)

def init : ClaimMesh ι :=
  ⟨Store.empty Str (Option Json), fun i => Claim.init botId (inst i), [], 0, [], []⟩

variable [DecidableEq ι]

def setProc (s : ClaimMesh ι) (i : ι) (c : Claim) : ClaimMesh ι :=
  { s with procs := Function.update s.procs i c }

/-- Send a write and wait for its answer. -/
def send (s : ClaimMesh ι) (i : ι) (c : Claim) (generation : ℕ) (stage : Stage)
    (value : Option Json) (kind : WriteKind) (judged : Option ℚ) : ClaimMesh ι :=
  { s.setProc i { c with operation := some ⟨generation, stage, s.serial, none⟩ } with
    net := ⟨i, s.serial, presenceKey botId, value, kind, judged⟩ :: s.net
    serial := s.serial + 1 }

/-- Send the signed presence; an operation whose presence cannot be signed raises. -/
def sendSigned (s : ClaimMesh ι) (i : ι) (c : Claim) (generation : ℕ) (stage : Stage)
    (kind : WriteKind) (judged : Option ℚ) (now : ℚ) : ClaimMesh ι :=
  match signPresence mac network now c.last with
  | some value => s.send botId i c generation stage (some value) kind judged
  | none => s.setProc i { c with operation := none }

/-- The operation of `i` goes on; `claim` and `put` record the generation they start at. -/
def perform (s : ClaimMesh ι) (i : ι) (generation : ℕ) (now : ℚ) :
    Claim × Next → ClaimMesh ι
  | (c, .finish) => s.setProc i { c with operation := none }
  | (c, .claim) => s.sendSigned mac network botId i c c.generation .creating .create none now
  | (c, .recreate round) =>
    s.sendSigned mac network botId i c generation (.recreating round) .create none now
  | (c, .refresh last) =>
    s.sendSigned mac network botId i c c.generation .updating (.update last) none now
  | (c, .overwrite round last judged) =>
    s.sendSigned mac network botId i c generation (.overwriting round) (.update last)
      (some judged) now
  | (c, .delete last) => s.send botId i c generation .deleting none (.delete last) none
  | (c, .get round) =>
    s.setProc i { c with operation := some ⟨generation, .getting round, s.serial, none⟩ }

/-- The answer reaches the operation that waits for the write. -/
def answer (s : ClaimMesh ι) (w : PresenceWrite ι) (a : Option ℕ) : ClaimMesh ι :=
  let c := s.procs w.proc
  match c.operation with
  | some op =>
    if op.serial = w.serial then
      s.setProc w.proc { c with operation := some { op with answer := some a } }
    else s
  | none => s

/-- The value the write removes. -/
def removed (s : ClaimMesh ι) (w : PresenceWrite ι) : List (Removal ι) :=
  ((s.bucket.value w.key).map fun v => ⟨w.proc, v, w.judged⟩).toList

/-- The bucket executes a write; an update or a delete removes the value it finds. -/
def execute (s : ClaimMesh ι) (w : PresenceWrite ι) : ClaimMesh ι :=
  match w.kind with
  | .create =>
    match s.bucket.create w.key w.value with
    | some b =>
      ({ s with bucket := b, events := (s.bucket.next, w.value) :: s.events }).answer w
        (some s.bucket.next)
    | none => s.answer w none
  | .update last =>
    match s.bucket.update w.key w.value last with
    | some b =>
      ({ s with
        bucket := b
        events := (s.bucket.next, w.value) :: s.events
        removals := removed s w ++ s.removals }).answer w (some s.bucket.next)
    | none => s.answer w none
  | .delete last =>
    match s.bucket.delete w.key last with
    | some b =>
      ({ s with
        bucket := b
        removals := removed s w ++ s.removals }).answer w none
    | none => s.answer w none

/-- Start an operation once the lock is free. -/
def start (s : ClaimMesh ι) (i : ι) (now : ℚ) (f : Claim → Claim × Next) :
    Option (ClaimMesh ι) :=
  if (s.procs i).operation.isNone then
    some (s.perform mac network botId i (s.procs i).generation now (f (s.procs i)))
  else none

def step (s : ClaimMesh ι) : ClaimStep ι → Option (ClaimMesh ι)
  | .put i host nick user now =>
    s.start mac network botId i now fun c => c.put (presenceFields botId host (inst i) nick user)
  | .reclaim i now => s.start mac network botId i now Claim.reclaim
  | .expired i now => s.start mac network botId i now Claim.expired
  | .release i => s.start mac network botId i 0 Claim.release
  | .observe i n now =>
    match s.events[n]? with
    | some (revision, some (.obj d)) =>
      if observable mac network (presenceKey botId) ttl now d then
        let own := text (lit "instance_id") d = some (inst i)
        some (s.setProc i ((s.procs i).observe own revision))
      else some s
    | _ => none
  | .reset i => some (s.setProc i (s.procs i).reset)
  | .get i =>
    match (s.procs i).operation with
    | some op =>
      match op.stage with
      | .getting round =>
        some (s.setProc i { s.procs i with
          operation := some { op with stage := .read round (s.bucket.entries (presenceKey botId)) } })
      | _ => none
    | none => none
  | .read i now =>
    match (s.procs i).operation with
    | some op =>
      match op.stage with
      | .read round entry =>
        some (s.perform mac network botId i op.generation now
          ((s.procs i).readEntry mac network ttl (inst i) op.generation round now entry))
      | _ => none
    | none => none
  | .land n =>
    match s.net[n]? with
    | some w => some (({ s with net := s.net.eraseIdx n } : ClaimMesh ι).execute w)
    | none => none
  | .resume i now =>
    match (s.procs i).operation with
    | some op =>
      match op.answer with
      | some a =>
        some (s.perform mac network botId i op.generation now
          ((s.procs i).resume op.generation op.stage a))
      | none => none
    | none => none
  | .fail i =>
    match (s.procs i).operation with
    | some op =>
      match op.stage with
      | .deleting => some (s.setProc i { (s.procs i).reset with operation := none })
      | _ => some (s.setProc i { s.procs i with operation := none })
    | none => none
  | .cancel i => some (s.setProc i { s.procs i with operation := none })
  | .forge k value =>
    some { s with
      bucket := s.bucket.write k value
      events := if k = presenceKey botId then (s.bucket.next, value) :: s.events else s.events }
  | .expire k => some { s with bucket := s.bucket.remove k }

/-! ## The invariant -/

section Invariant

variable {mac network botId ttl inst}

/-- The revision was given to a correctly signed record of the instance. -/
def Held (mac : Str → Str) (network botId : Str) (b : Store Str (Option Json)) (instanceId : Str)
    (revision : ℕ) : Prop :=
  ∃ v, Known b (presenceKey botId) revision v ∧ ownRecord mac network instanceId v

/-- What an update or a delete may remove: a record of the process itself, or a
value that was not valid when the process read it. -/
def Removable (mac : Str → Str) (network : Str) (ttl : ℚ) (instanceId : Str) (judged : Option ℚ)
    (v : Option Json) : Prop :=
  match judged with
  | none => ownRecord mac network instanceId v
  | some now => validValue mac network ttl now v = false

/-- What a claim says about its own revision and presence. -/
structure ClaimOk (mac : Str → Str) (network botId : Str) (b : Store Str (Option Json))
    (instanceId : Str) (c : Claim) : Prop where
  last : text (lit "instance_id") c.last = some instanceId
  held : ∀ r, c.revision = some r → Held mac network botId b instanceId r

/-- What an operation under way has learned. -/
structure OperationOk (mac : Str → Str) (network botId : Str) (b : Store Str (Option Json))
    (instanceId : Str) (op : Operation) : Prop where
  answered : ∀ r, op.answer = some (some r) → Held mac network botId b instanceId r
  read : ∀ round e, op.stage = .read round (some e) →
    Known b (presenceKey botId) e.revision e.value

/-- A write under way carries a record of its process, or none, and removes only
what it may remove. -/
structure WriteOk (mac : Str → Str) (network botId : Str) (ttl : ℚ) (b : Store Str (Option Json))
    (instanceId : Str) (w : PresenceWrite ι) : Prop where
  key : w.key = presenceKey botId
  value : (∀ last, w.kind ≠ .delete last) → ownRecord mac network instanceId w.value
  justified : ∀ last, w.kind = .update last ∨ w.kind = .delete last →
    ∃ v, Known b (presenceKey botId) last v ∧ Removable mac network ttl instanceId w.judged v

structure Inv (mac : Str → Str) (network botId : Str) (ttl : ℚ) (inst : ι → Str)
    (s : ClaimMesh ι) : Prop where
  claims : ∀ i, ClaimOk mac network botId s.bucket (inst i) (s.procs i)
  operations : ∀ i op, (s.procs i).operation = some op →
    OperationOk mac network botId s.bucket (inst i) op
  writes : ∀ w ∈ s.net, WriteOk mac network botId ttl s.bucket (inst w.proc) w
  events : ∀ e ∈ s.events, Known s.bucket (presenceKey botId) e.1 e.2
  removals : ∀ r ∈ s.removals, Removable mac network ttl (inst r.proc) r.judged r.value

section Claims

variable {b b' : Store Str (Option Json)} {instanceId : Str} {c : Claim}

theorem ownRecord_instance {v : Option Json} (h : ownRecord mac network instanceId v) :
    instanceOf v = some instanceId := by
  unfold ownRecord at h
  split at h
  · simp only [Bool.and_eq_true, decide_eq_true_eq] at h
    exact h.2
  · simp at h

theorem Held.mono (hb : Extends b b') {r : ℕ} (h : Held mac network botId b instanceId r) :
    Held mac network botId b' instanceId r := by
  obtain ⟨v, hk, ho⟩ := h
  exact ⟨v, hb _ _ _ hk, ho⟩

theorem ClaimOk.mono (hb : Extends b b') (h : ClaimOk mac network botId b instanceId c) :
    ClaimOk mac network botId b' instanceId c :=
  ⟨h.last, fun r hr => (h.held r hr).mono hb⟩

/-- A claim with another revision is sound if the revision is held. -/
theorem ClaimOk.of_revision (h : ClaimOk mac network botId b instanceId c) {d : Claim}
    (hlast : d.last = c.last)
    (hrev : d.revision = none ∨ d.revision = c.revision ∨
      ∃ r, d.revision = some r ∧ Held mac network botId b instanceId r) :
    ClaimOk mac network botId b instanceId d := by
  refine ⟨hlast ▸ h.last, fun r hr => ?_⟩
  rcases hrev with hnone | hsame | ⟨r', hr', hheld⟩
  · simp [hnone] at hr
  · exact h.held r (hsame ▸ hr)
  · rw [hr'] at hr
    exact Option.some.inj hr ▸ hheld

theorem ClaimOk.reset (h : ClaimOk mac network botId b instanceId c) :
    ClaimOk mac network botId b instanceId c.reset :=
  h.of_revision rfl (.inl rfl)

theorem ClaimOk.transition (h : ClaimOk mac network botId b instanceId c) (state : PresenceState) :
    ClaimOk mac network botId b instanceId (c.transition state none) :=
  h.of_revision rfl (.inl rfl)

theorem ClaimOk.adopt (h : ClaimOk mac network botId b instanceId c) {r : ℕ}
    (hr : Held mac network botId b instanceId r) :
    ClaimOk mac network botId b instanceId (c.adopt r) :=
  h.of_revision rfl (.inr (.inr ⟨r, rfl, hr⟩))

theorem ClaimOk.settle (h : ClaimOk mac network botId b instanceId c) (generation : ℕ)
    {revision : Option ℕ}
    (hr : ∀ r, revision = some r → Held mac network botId b instanceId r) :
    ClaimOk mac network botId b instanceId (c.settle generation revision) := by
  unfold Claim.settle
  split_ifs with hg
  · exact h
  · cases revision with
    | none => exact h.transition .duplicate
    | some r => exact h.adopt (hr r rfl)

/-- A watched record of the process itself: the greater revision is one of the two. -/
theorem ClaimOk.observe (h : ClaimOk mac network botId b instanceId c) {own : Bool} {r : ℕ}
    (hr : own = true → Held mac network botId b instanceId r) :
    ClaimOk mac network botId b instanceId (c.observe own r) := by
  unfold Claim.observe
  split_ifs with hown
  · refine h.adopt ?_
    cases hrev : c.revision with
    | none => simpa using hr hown
    | some r' =>
      rcases max_choice r' r with hmax | hmax
      · simpa [hmax] using h.held r' hrev
      · simpa [hmax] using hr hown
  · exact h.transition .duplicate

/-- How an operation may go on. -/
def NextOk (mac : Str → Str) (network botId : Str) (ttl : ℚ) (b : Store Str (Option Json))
    (instanceId : Str) : Next → Prop
  | .overwrite _ last judged =>
    ∃ v, Known b (presenceKey botId) last v ∧
      Removable mac network ttl instanceId (some judged) v
  | .refresh last | .delete last => Held mac network botId b instanceId last
  | _ => True

/-- A claim together with how its operation goes on. -/
def StepOk (mac : Str → Str) (network botId : Str) (ttl : ℚ) (b : Store Str (Option Json))
    (instanceId : Str) (p : Claim × Next) : Prop :=
  ClaimOk mac network botId b instanceId p.1 ∧ NextOk mac network botId ttl b instanceId p.2

theorem ClaimOk.put (h : ClaimOk mac network botId b instanceId c) {presence : Fields}
    (hp : text (lit "instance_id") presence = some instanceId) :
    StepOk mac network botId ttl b instanceId (c.put presence) := by
  unfold Claim.put
  dsimp only
  split
  · rename_i revision _ hrev
    exact ⟨⟨hp, h.held⟩, h.held revision hrev⟩
  · exact ⟨⟨hp, h.held⟩, trivial⟩

theorem ClaimOk.reclaim (h : ClaimOk mac network botId b instanceId c) :
    StepOk mac network botId ttl b instanceId c.reclaim := by
  unfold Claim.reclaim
  split_ifs
  · exact ⟨h, trivial⟩
  · exact ⟨h, trivial⟩

theorem ClaimOk.expired (h : ClaimOk mac network botId b instanceId c) :
    StepOk mac network botId ttl b instanceId c.expired := by
  refine ⟨?_, trivial⟩
  simp only [Claim.expired]
  split_ifs
  · exact h.transition .unclaimed
  · exact h

theorem ClaimOk.release (h : ClaimOk mac network botId b instanceId c) :
    StepOk mac network botId ttl b instanceId c.release := by
  unfold Claim.release
  split
  · rename_i revision _ hrev
    exact ⟨h, h.held revision hrev⟩
  · exact ⟨h.reset, trivial⟩

theorem nextOk_retry (round : ℕ) :
    NextOk mac network botId ttl b instanceId (Claim.retry round) := by
  unfold Claim.retry
  split_ifs <;> trivial

/-- The answer to a write: the revision of a record of the process itself, or a lost
race. -/
theorem ClaimOk.resume (h : ClaimOk mac network botId b instanceId c) (generation : ℕ)
    (stage : Stage) {answer : Option ℕ}
    (ha : ∀ r, answer = some r → Held mac network botId b instanceId r) :
    StepOk mac network botId ttl b instanceId (c.resume generation stage answer) := by
  cases stage with
  | updating =>
    cases answer with
    | none =>
      simp only [Claim.resume]
      split_ifs with hg
      · exact ⟨h, trivial⟩
      · exact ⟨h.transition .unclaimed, trivial⟩
    | some r =>
      simp only [Claim.resume]
      split_ifs with hg
      · exact ⟨h, trivial⟩
      · exact ⟨h.of_revision rfl (.inr (.inr ⟨r, rfl, ha r rfl⟩)), trivial⟩
  | creating =>
    cases answer with
    | none => exact ⟨h, trivial⟩
    | some r => exact ⟨h.settle generation ha, trivial⟩
  | recreating round =>
    cases answer with
    | none => exact ⟨h, nextOk_retry round⟩
    | some r => exact ⟨h.settle generation ha, trivial⟩
  | overwriting round =>
    cases answer with
    | none => exact ⟨h, nextOk_retry round⟩
    | some r => exact ⟨h.settle generation ha, trivial⟩
  | deleting => cases answer <;> exact ⟨h.reset, trivial⟩
  | getting round => cases answer <;> exact ⟨h, trivial⟩
  | read round entry => cases answer <;> exact ⟨h, trivial⟩

/-- The answer to a read: the revision of a valid record of the process itself is
taken over, and a value that is not valid is overwritten. -/
theorem ClaimOk.readEntry (h : ClaimOk mac network botId b instanceId c)
    (generation round : ℕ) (now : ℚ) {entry : Option (Entry (Option Json))}
    (he : ∀ e, entry = some e → Known b (presenceKey botId) e.revision e.value) :
    StepOk mac network botId ttl b instanceId
      (c.readEntry mac network ttl instanceId generation round now entry) := by
  cases entry with
  | none => exact ⟨h, trivial⟩
  | some e =>
    have hknown := he e rfl
    simp only [Claim.readEntry]
    split_ifs with hvalid hown
    · have hheld : ∀ r, some e.revision = some r →
          Held mac network botId b instanceId r := by
        intro r hr
        obtain rfl := Option.some.inj hr
        exact ⟨e.value, hknown, hown⟩
      exact ⟨h.settle generation hheld, trivial⟩
    · have hnone : ∀ r, none = some r → Held mac network botId b instanceId r :=
        fun r hr => by simp at hr
      exact ⟨h.settle generation hnone, trivial⟩
    · exact ⟨h, e.value, hknown, by simpa [Removable] using hvalid⟩

end Claims

section Steps

variable {s : ClaimMesh ι}

omit [DecidableEq ι] in
theorem inv_init : Inv mac network botId ttl inst (init botId inst) where
  claims := fun i => ⟨rfl, by simp [init, Claim.init]⟩
  operations := by simp [init, Claim.init]
  writes := by simp [init]
  events := by simp [init]
  removals := by simp [init]

/-- One process moves on to a sound claim and a sound operation. -/
theorem Inv.setProc (h : Inv mac network botId ttl inst s) {i : ι} {c : Claim}
    (hc : ClaimOk mac network botId s.bucket (inst i) c)
    (hop : ∀ op, c.operation = some op → OperationOk mac network botId s.bucket (inst i) op) :
    Inv mac network botId ttl inst (s.setProc i c) := by
  refine { h with claims := ?_, operations := ?_ }
  · intro j
    by_cases hj : j = i
    · subst hj
      simpa [ClaimMesh.setProc] using hc
    · simpa [ClaimMesh.setProc, hj] using h.claims j
  · intro j op hjop
    by_cases hj : j = i
    · subst hj
      exact hop op (by simpa [ClaimMesh.setProc] using hjop)
    · exact h.operations j op (by simpa [ClaimMesh.setProc, hj] using hjop)

/-- A sound claim does not depend on the operation it is in. -/
theorem ClaimOk.operation {b : Store Str (Option Json)} {instanceId : Str} {c : Claim}
    (h : ClaimOk mac network botId b instanceId c) (op : Option Operation) :
    ClaimOk mac network botId b instanceId { c with operation := op } := ⟨h.last, h.held⟩

theorem Inv.send (h : Inv mac network botId ttl inst s) {i : ι} {c : Claim}
    (hc : ClaimOk mac network botId s.bucket (inst i) c) {generation : ℕ} {stage : Stage}
    (hstage : ∀ round e, stage ≠ .read round e) {value : Option Json} {kind : WriteKind}
    {judged : Option ℚ}
    (hw : WriteOk mac network botId ttl s.bucket (inst i)
      ⟨i, s.serial, presenceKey botId, value, kind, judged⟩) :
    Inv mac network botId ttl inst (s.send botId i c generation stage value kind judged) := by
  have hset : Inv mac network botId ttl inst
      (s.setProc i { c with operation := some ⟨generation, stage, s.serial, none⟩ }) := by
    refine h.setProc (hc.operation _) fun op hop => ?_
    obtain rfl := Option.some.inj hop
    exact ⟨by simp, fun round e he => absurd he (hstage round _)⟩
  refine { hset with writes := ?_ }
  intro w hmem
  rcases List.mem_cons.mp hmem with rfl | hmem
  · exact hw
  · exact h.writes w hmem

theorem Inv.sendSigned (h : Inv mac network botId ttl inst s) {i : ι} {c : Claim}
    (hc : ClaimOk mac network botId s.bucket (inst i) c) {generation : ℕ} {stage : Stage}
    (hstage : ∀ round e, stage ≠ .read round e) {kind : WriteKind} {judged : Option ℚ} {now : ℚ}
    (hdelete : ∀ last, kind ≠ .delete last)
    (hj : ∀ last, kind = .update last → ∃ v, Known s.bucket (presenceKey botId) last v ∧
      Removable mac network ttl (inst i) judged v) :
    Inv mac network botId ttl inst
      (s.sendSigned mac network botId i c generation stage kind judged now) := by
  unfold ClaimMesh.sendSigned
  split
  · rename_i value hvalue
    obtain ⟨r, rfl, hsigned, hinstance⟩ := signPresence_eq_some hvalue
    refine h.send hc hstage ⟨rfl, fun _ => ?_, fun last hkind => ?_⟩
    · simp [ownRecord, hsigned, hinstance, hc.last]
    · rcases hkind with hkind | hkind
      · exact hj last hkind
      · exact absurd hkind (hdelete last)
  · exact h.setProc (hc.operation none) (by simp)

theorem Inv.perform (h : Inv mac network botId ttl inst s) {i : ι} {generation : ℕ} {now : ℚ}
    {p : Claim × Next} (hp : StepOk mac network botId ttl s.bucket (inst i) p) :
    Inv mac network botId ttl inst (s.perform mac network botId i generation now p) := by
  obtain ⟨c, next⟩ := p
  obtain ⟨hc, hn⟩ := hp
  cases next with
  | finish => exact h.setProc (hc.operation none) (by simp)
  | claim => exact h.sendSigned hc (by simp) (by simp) (by simp)
  | recreate round => exact h.sendSigned hc (by simp) (by simp) (by simp)
  | refresh last =>
    refine h.sendSigned hc (by simp) (by simp) fun last' hkind => ?_
    exact WriteKind.update.inj hkind ▸ hn
  | overwrite round last judged =>
    refine h.sendSigned hc (by simp) (by simp) fun last' hkind => ?_
    exact WriteKind.update.inj hkind ▸ hn
  | delete last =>
    refine h.send hc (by simp) ⟨rfl, fun hne => absurd rfl (hne last), fun last' hkind => ?_⟩
    have hlast : last = last' := by simpa using hkind
    exact hlast ▸ hn
  | get round =>
    refine h.setProc (hc.operation _) fun op hop => ?_
    obtain rfl := Option.some.inj hop
    exact ⟨by simp, by simp⟩

omit [DecidableEq ι] in
/-- A change of the bucket that forgets nothing keeps what was learned. -/
theorem Inv.extend (h : Inv mac network botId ttl inst s) {b : Store Str (Option Json)}
    (hb : Extends s.bucket b) : Inv mac network botId ttl inst { s with bucket := b } where
  claims := fun i => (h.claims i).mono hb
  operations := fun i op hop =>
    ⟨fun r hr => ((h.operations i op hop).answered r hr).mono hb,
      fun round e he => hb _ _ _ ((h.operations i op hop).read round e he)⟩
  writes := fun w hw => ⟨(h.writes w hw).key, (h.writes w hw).value, fun last hk => by
    obtain ⟨v, hknown, hv⟩ := (h.writes w hw).justified last hk
    exact ⟨v, hb _ _ _ hknown, hv⟩⟩
  events := fun e he => hb _ _ _ (h.events e he)
  removals := h.removals

theorem Inv.answer (h : Inv mac network botId ttl inst s) {w : PresenceWrite ι} {a : Option ℕ}
    (ha : ∀ r, a = some r → Held mac network botId s.bucket (inst w.proc) r) :
    Inv mac network botId ttl inst (s.answer w a) := by
  unfold ClaimMesh.answer
  dsimp only
  split
  · rename_i op hop
    split_ifs with hserial
    · refine h.setProc ((h.claims w.proc).operation _) fun op' hop' => ?_
      obtain rfl := Option.some.inj hop'
      refine ⟨fun r hr => ha r (by simpa using hr), ?_⟩
      exact (h.operations w.proc op hop).read
    · exact h
  · exact h

omit [DecidableEq ι] in
/-- A value that an update or a delete removes is one it may remove. -/
theorem Inv.removed (h : Inv mac network botId ttl inst s) {w : PresenceWrite ι}
    (hw : WriteOk mac network botId ttl s.bucket (inst w.proc) w) {last : ℕ}
    (hkind : w.kind = .update last ∨ w.kind = .delete last)
    (hrev : s.bucket.revision w.key = some last) :
    ∀ r ∈ s.removed w ++ s.removals,
      Removable mac network ttl (inst r.proc) r.judged r.value := by
  intro r hr
  rcases List.mem_append.mp hr with hr | hr
  · obtain ⟨v, hknown, hv⟩ := hw.justified last hkind
    rw [← hw.key] at hknown
    have hvalue : s.bucket.value w.key = some v := by
      rw [Store.value, hknown.current hrev]
      rfl
    have hr' : r = ⟨w.proc, v, w.judged⟩ := by
      simpa [ClaimMesh.removed, hvalue] using hr
    rw [hr']
    exact hv
  · exact h.removals r hr

omit [DecidableEq ι] in
/-- The revision a write took was given to the record of its process. -/
theorem held_written {b : Store Str (Option Json)} {w : PresenceWrite ι} {instanceId : Str}
    (hkey : w.key = presenceKey botId) (hvalue : ownRecord mac network instanceId w.value) :
    ∀ r, some b.next = some r →
      Held mac network botId (b.write w.key w.value) instanceId r := by
  intro r hr
  obtain rfl := Option.some.inj hr
  exact ⟨w.value, hkey ▸ Known.written b w.key w.value, hvalue⟩

omit [DecidableEq ι] in
theorem Inv.event (h : Inv mac network botId ttl inst s) {e : ℕ × Option Json}
    (he : Known s.bucket (presenceKey botId) e.1 e.2) :
    Inv mac network botId ttl inst { s with events := e :: s.events } :=
  { h with events := List.forall_mem_cons.mpr ⟨he, h.events⟩ }

theorem Inv.execute (h : Inv mac network botId ttl inst s) {w : PresenceWrite ι}
    (hw : WriteOk mac network botId ttl s.bucket (inst w.proc) w) :
    Inv mac network botId ttl inst (s.execute w) := by
  have hlost : Inv mac network botId ttl inst (s.answer w none) := h.answer (by simp)
  have hext := h.extend (Extends.write s.bucket w.key w.value)
  have hknown : Known (s.bucket.write w.key w.value) (presenceKey botId) s.bucket.next w.value :=
    hw.key ▸ Known.written s.bucket w.key w.value
  unfold ClaimMesh.execute
  cases hkind : w.kind with
  | create =>
    simp only
    split
    · rename_i b hb
      obtain ⟨_, rfl⟩ := Store.create_eq_some.mp hb
      have hvalue := hw.value (by simp [hkind])
      exact (hext.event (e := (s.bucket.next, w.value)) hknown).answer
        (held_written hw.key hvalue)
    · exact hlost
  | update last =>
    simp only
    split
    · rename_i b hb
      obtain ⟨hrev, rfl⟩ := Store.update_eq_some.mp hb
      have hvalue := hw.value (by simp [hkind])
      have hrem := h.removed hw (.inl hkind) hrev
      have hevent := hext.event (e := (s.bucket.next, w.value)) hknown
      have hdone : Inv mac network botId ttl inst { s with
          bucket := s.bucket.write w.key w.value
          events := (s.bucket.next, w.value) :: s.events
          removals := s.removed w ++ s.removals } :=
        ⟨hevent.claims, hevent.operations, hevent.writes, hevent.events, hrem⟩
      exact hdone.answer (held_written hw.key hvalue)
    · exact hlost
  | delete last =>
    simp only
    split
    · rename_i b hb
      obtain ⟨hrev, rfl⟩ := Store.delete_eq_some.mp hb
      have hrem := h.removed hw (.inr hkind) hrev
      have hext := h.extend (Extends.remove s.bucket w.key)
      have hdone : Inv mac network botId ttl inst { s with
          bucket := s.bucket.remove w.key
          removals := s.removed w ++ s.removals } :=
        ⟨hext.claims, hext.operations, hext.writes, hext.events, hrem⟩
      exact hdone.answer (by simp)
    · exact hlost

theorem Inv.start (h : Inv mac network botId ttl inst s) {i : ι} {now : ℚ}
    {f : Claim → Claim × Next} {t : ClaimMesh ι}
    (hf : ∀ c, ClaimOk mac network botId s.bucket (inst i) c →
      StepOk mac network botId ttl s.bucket (inst i) (f c))
    (hst : s.start mac network botId i now f = some t) : Inv mac network botId ttl inst t := by
  simp only [ClaimMesh.start] at hst
  split_ifs at hst
  obtain rfl := Option.some.inj hst
  exact h.perform (hf _ (h.claims i))

/-- Every step keeps the invariant. -/
theorem Inv.step {t : ClaimMesh ι} {a : ClaimStep ι} (h : Inv mac network botId ttl inst s)
    (hst : step mac network botId ttl inst s a = some t) : Inv mac network botId ttl inst t := by
  cases a with
  | put i host nick user now => exact h.start (fun c hc => hc.put rfl) hst
  | reclaim i now => exact h.start (fun c hc => hc.reclaim) hst
  | expired i now => exact h.start (fun c hc => hc.expired) hst
  | release i => exact h.start (fun c hc => hc.release) hst
  | observe i n now =>
    simp only [ClaimMesh.step] at hst
    split at hst
    · rename_i revision d hn
      split_ifs at hst with hobs
      · obtain rfl := Option.some.inj hst
        refine h.setProc ((h.claims i).observe fun hown => ?_) fun op hop =>
          h.operations i op (by simpa using hop)
        refine ⟨some (.obj d), h.events _ (List.mem_of_getElem? hn), ?_⟩
        have hvalid : validPresence mac network ttl now d := by
          simp only [observable, Bool.and_eq_true] at hobs
          exact hobs.2
        simp only [ownRecord, validPresence_signed hvalid, Bool.true_and]
        exact hown
      · obtain rfl := Option.some.inj hst
        exact h
    · simp at hst
  | reset i =>
    obtain rfl := Option.some.inj hst
    exact h.setProc (h.claims i).reset (h.operations i)
  | get i =>
    simp only [ClaimMesh.step] at hst
    split at hst
    · rename_i op hop
      split at hst
      · rename_i round hstage
        obtain rfl := Option.some.inj hst
        refine h.setProc ((h.claims i).operation _) fun op' hop' => ?_
        obtain rfl := Option.some.inj hop'
        refine ⟨(h.operations i op hop).answered, fun round' e he => ?_⟩
        have hentry := (Stage.read.inj he).2
        exact Known.of_entry hentry
      · simp at hst
    · simp at hst
  | read i now =>
    simp only [ClaimMesh.step] at hst
    split at hst
    · rename_i op hop
      split at hst
      · rename_i round entry hstage
        obtain rfl := Option.some.inj hst
        refine h.perform ((h.claims i).readEntry op.generation round now fun e he => ?_)
        exact (h.operations i op hop).read round e (he ▸ hstage)
      · simp at hst
    · simp at hst
  | land n =>
    simp only [ClaimMesh.step] at hst
    split at hst
    · rename_i w hn
      obtain rfl := Option.some.inj hst
      have hdrop : Inv mac network botId ttl inst { s with net := s.net.eraseIdx n } :=
        { h with writes := fun v hv => h.writes v (List.mem_of_mem_eraseIdx hv) }
      exact hdrop.execute (h.writes w (List.mem_of_getElem? hn))
    · simp at hst
  | resume i now =>
    simp only [ClaimMesh.step] at hst
    split at hst
    · rename_i op hop
      split at hst
      · rename_i a ha
        obtain rfl := Option.some.inj hst
        refine h.perform ((h.claims i).resume op.generation op.stage fun r hr => ?_)
        exact (h.operations i op hop).answered r (hr ▸ ha)
      · simp at hst
    · simp at hst
  | fail i =>
    simp only [ClaimMesh.step] at hst
    split at hst
    · split at hst
      · obtain rfl := Option.some.inj hst
        exact h.setProc ((h.claims i).reset.operation none) (by simp)
      · obtain rfl := Option.some.inj hst
        exact h.setProc ((h.claims i).operation none) (by simp)
    · simp at hst
  | cancel i =>
    obtain rfl := Option.some.inj hst
    exact h.setProc ((h.claims i).operation none) (by simp)
  | forge k value =>
    obtain rfl := Option.some.inj hst
    have hext := h.extend (Extends.write s.bucket k value)
    refine { hext with events := ?_ }
    split_ifs with hk
    · subst hk
      exact List.forall_mem_cons.mpr ⟨Known.written _ _ _, hext.events⟩
    · exact hext.events
  | expire k =>
    obtain rfl := Option.some.inj hst
    exact h.extend (Extends.remove s.bucket k)

end Steps

end Invariant

/-- Whatever a process's update or delete removed was a correctly signed record of the
process itself or a value it had just rejected; another instance's record only as
the latter. -/
theorem removals_safe (mac : Str → Str) (network botId : Str) (ttl : ℚ) (inst : ι → Str)
    (hinst : Function.Injective inst) (s : ClaimMesh ι)
    (h : Machine.Reachable (step mac network botId ttl inst) (init botId inst) s) :
    ∀ r ∈ s.removals,
      (ownRecord mac network (inst r.proc) r.value ∨
        ∃ now, r.judged = some now ∧ validValue mac network ttl now r.value = false) ∧
      ∀ j, j ≠ r.proc → ownRecord mac network (inst j) r.value →
        ∃ now, r.judged = some now ∧ validValue mac network ttl now r.value = false := by
  have hinv : Inv mac network botId ttl inst s :=
    h.invariant (fun _ _ _ hi hst => hi.step hst) inv_init
  intro r hr
  have hrem := hinv.removals r hr
  cases hj : r.judged with
  | some now =>
    have hinvalid : validValue mac network ttl now r.value = false := by
      simpa [Removable, hj] using hrem
    exact ⟨.inr ⟨now, rfl, hinvalid⟩, fun _ _ _ => ⟨now, rfl, hinvalid⟩⟩
  | none =>
    have hown : ownRecord mac network (inst r.proc) r.value := by
      simpa [Removable, hj] using hrem
    refine ⟨.inl hown, fun j hne hother => ?_⟩
    have hsame := (ownRecord_instance hother).symm.trans (ownRecord_instance hown)
    exact absurd (hinst (Option.some.inj hsame)) hne

/-- Two processes claim one bot ID; the first loses the key to a forged value, takes
it back and refreshes it, and the second finds a live peer. -/
def contest : List (ClaimStep Bool) :=
  [.put true (lit "h") (lit "n") (lit "u") 100, .land 0, .resume true 100, .forge (lit "bot") none,
    .put true (lit "h") (lit "n") (lit "u") 110, .land 0, .resume true 110, .land 0,
    .resume true 110, .get true, .read true 111, .land 0, .resume true 112,
    .put true (lit "h") (lit "n") (lit "u") 120, .observe true 0 121, .land 0, .resume true 122,
    .put false (lit "h") (lit "m") (lit "u") 130, .land 0, .resume false 130, .get false,
    .read false 130]

theorem removals_safe_contest : ∃ s,
    Machine.run (step (fun _ => List.replicate 64 48) (lit "net") (lit "Bot") 90
      fun b => cond b (lit "1") (lit "2")) (init (lit "Bot") fun b => cond b (lit "1") (lit "2"))
      contest = some s ∧
    (s.removals.map fun r => (r.proc, r.judged)) = [(true, none), (true, some 111)] ∧
    (s.procs true).state = .owned ∧ (s.procs false).state = .duplicate ∧
    ∀ r ∈ s.removals, ownRecord (fun _ => List.replicate 64 48) (lit "net")
      (cond r.proc (lit "1") (lit "2")) r.value ∨ ∃ now, r.judged = some now ∧
        validValue (fun _ => List.replicate 64 48) (lit "net") 90 now r.value = false := by
  have hrun : (Machine.run (step (fun _ => List.replicate 64 48) (lit "net") (lit "Bot") 90
      fun b => cond b (lit "1") (lit "2")) (init (lit "Bot") fun b => cond b (lit "1") (lit "2"))
      contest).map (fun s => ((s.removals.map fun r => (r.proc, r.judged)),
        (s.procs true).state, (s.procs false).state)) =
      some ([(true, none), (true, some 111)], .owned, .duplicate) := by
    decide +kernel
  obtain ⟨s, hs, hview⟩ := Option.map_eq_some_iff.mp hrun
  obtain ⟨hremovals, hstates⟩ := Prod.mk.inj hview
  obtain ⟨htrue, hfalse⟩ := Prod.mk.inj hstates
  refine ⟨s, hs, hremovals, htrue, hfalse, fun r hr => ?_⟩
  exact (removals_safe (fun _ => List.replicate 64 48) (lit "net") (lit "Bot") 90
    (fun b => cond b (lit "1") (lit "2")) (by decide) s ⟨contest, hs⟩ r hr).1

end ClaimMesh
end Botnats
