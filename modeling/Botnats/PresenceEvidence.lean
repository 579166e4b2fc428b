import Botnats.PresenceClaim

/-!
# The evidence behind a presence claim

What each process has learned about its key, beside the claims themselves: the answer
to a write of its own, a record read by `reclaim`, and a watched event, each with its
revision. The watch delivers revisions in order, any of them late or never; the answer
to a write may be older than what the watch has delivered since.

A claim follows the evidence it applied last. That is the newest record once the watch
has delivered the newest record, except when another instance's event found the claim
already a duplicate: entering a state again invalidates nothing under way.
-/
namespace Botnats

open Bucket Json

/-- One record of the key a process learned of. `applied` says that the claim took it
up: a result that arrives after an ownership change is discarded. -/
structure Evidence where
  revision : ℕ
  own : Bool
  applied : Bool
  watched : Bool
  deriving DecidableEq

namespace Stage

/-- The stage waits for the revision of a record it wrote. -/
def stores : Stage → Bool
  | .updating | .creating | .recreating _ | .overwriting _ => true
  | _ => false

/-- The stage belongs to an operation that began on an owned key. -/
def holding : Stage → Bool
  | .updating | .deleting => true
  | _ => false

end Stage

/-- An operation under way that no ownership change has invalidated. -/
def Claim.engaged (c : Claim) : Bool :=
  c.operation.any fun op => op.generation = c.generation

/-- `last` is the revision the watch delivered last; `overtaken` says that the event
observed last was another instance's and found the claim a duplicate with an operation
still under way. -/
structure EvidenceMesh (ι : Type*) where
  mesh : ClaimMesh ι
  seen : ι → List Evidence
  last : ι → ℕ
  overtaken : ι → Bool

namespace EvidenceMesh

variable {ι : Type*} [DecidableEq ι]
variable (mac : Str → Str) (network botId : Str) (ttl : ℚ) (inst : ι → Str)

def init : EvidenceMesh ι :=
  ⟨ClaimMesh.init botId inst, fun _ => [], fun _ => 0, fun _ => false⟩

/-- What a process learns in a step. -/
def learns (s : ClaimMesh ι) : ClaimStep ι → Option (ι × Evidence)
  | .observe i n now =>
    match s.events[n]? with
    | some (revision, some (.obj d)) =>
      if observable mac network (presenceKey botId) ttl now d then
        some (i, ⟨revision, text (lit "instance_id") d = some (inst i), true, true⟩)
      else none
    | _ => none
  | .read i now =>
    match (s.procs i).operation with
    | some op =>
      match op.stage with
      | .read _ (some e) =>
        if validValue mac network ttl now e.value then
          some (i, ⟨e.revision, ownRecord mac network (inst i) e.value,
            op.generation = (s.procs i).generation, false⟩)
        else none
      | _ => none
    | none => none
  | .resume i _ =>
    match (s.procs i).operation with
    | some op =>
      match op.stage.stores, op.answer with
      | true, some (some r) =>
        some (i, ⟨r, true, op.generation = (s.procs i).generation, false⟩)
      | _, _ => none
    | none => none
  | _ => none

/-- No disconnect, and watched events only in the order of their revisions. -/
def admits (s : EvidenceMesh ι) : ClaimStep ι → Bool
  | .reset _ => false
  | .observe i n _ => (s.mesh.events[n]?).any fun e => s.last i ≤ e.1
  | _ => true

def noted (s : EvidenceMesh ι) (a : ClaimStep ι) : ι → List Evidence :=
  match learns mac network botId ttl inst s.mesh a with
  | some (i, e) => Function.update s.seen i (e :: s.seen i)
  | none => s.seen

def delivered (s : EvidenceMesh ι) : ClaimStep ι → ι → ℕ
  | .observe i n _ =>
    Function.update s.last i (((s.mesh.events[n]?).map Prod.fst).getD (s.last i))
  | _ => s.last

/-- Whether an event finds a duplicate with an operation under way. -/
def overtakes (s : EvidenceMesh ι) (a : ClaimStep ι) : ι → Bool :=
  match learns mac network botId ttl inst s.mesh a with
  | some (i, e) =>
    if e.watched then
      Function.update s.overtaken i
        (!e.own && (s.mesh.procs i).state = .duplicate && (s.mesh.procs i).engaged)
    else s.overtaken
  | none => s.overtaken

def step (s : EvidenceMesh ι) (a : ClaimStep ι) : Option (EvidenceMesh ι) :=
  if s.admits a then
    (ClaimMesh.step mac network botId ttl inst s.mesh a).map fun m =>
      { mesh := m
        seen := s.noted mac network botId ttl inst a
        last := s.delivered a
        overtaken := s.overtakes mac network botId ttl inst a }
  else none

/-! ## What the evidence says -/

/-- The evidence a claim took up last, and the event it observed last. -/
def lastApplied (seen : List Evidence) : Option Evidence := seen.find? Evidence.applied

def lastWatched (seen : List Evidence) : Option Evidence := seen.find? Evidence.watched

/-- No evidence is newer than `w`. -/
def Newest (seen : List Evidence) (w : Evidence) : Prop :=
  ∀ e ∈ seen, e.revision ≤ w.revision

/-- The state of a claim against the evidence of its process. -/
structure Verdict (state : PresenceState) (seen : List Evidence) (overtaken : Bool) : Prop where
  owned : state = .owned → ∃ e, lastApplied seen = some e ∧ e.own = true
  duplicate : state = .duplicate → ∃ e, lastApplied seen = some e ∧ e.own = false
  foreign : overtaken = true → ∀ w, lastWatched seen = some w → w.own = false
  yielded : ∀ w, lastWatched seen = some w → Newest seen w → state = .duplicate → w.own = false
  kept : ∀ w, lastWatched seen = some w → Newest seen w → state = .owned →
    w.own = true ∨ overtaken = true

section Verdicts

variable {state : PresenceState} {seen : List Evidence} {overtaken : Bool} {e w : Evidence}

theorem lastWatched_cons (h : e.watched = false) : lastWatched (e :: seen) = lastWatched seen := by
  simp [lastWatched, h]

theorem Newest.tail (h : Newest (e :: seen) w) : Newest seen w :=
  fun f hf => h f (List.mem_cons_of_mem e hf)

theorem verdict_nil : Verdict .unclaimed [] false := by
  constructor <;> simp [lastWatched]

/-- A claim that only lost the key is neither owned nor a duplicate. -/
theorem Verdict.unclaimed (h : Verdict state seen overtaken) :
    Verdict .unclaimed seen overtaken := by
  refine ⟨?_, ?_, h.foreign, ?_, ?_⟩ <;> simp

/-- Discarded evidence moves nothing. -/
theorem Verdict.discard (h : Verdict state seen overtaken) (happ : e.applied = false)
    (hw : e.watched = false) : Verdict state (e :: seen) overtaken := by
  have happlied : lastApplied (e :: seen) = lastApplied seen := by simp [lastApplied, happ]
  refine ⟨?_, ?_, ?_, ?_, ?_⟩
  · rw [happlied]
    exact h.owned
  · rw [happlied]
    exact h.duplicate
  · rw [lastWatched_cons hw]
    exact h.foreign
  · rw [lastWatched_cons hw]
    exact fun v hv hnew => h.yielded v hv hnew.tail
  · rw [lastWatched_cons hw]
    exact fun v hv hnew => h.kept v hv hnew.tail

/-- An own record is adopted: the event observed last is not another instance's newer
one, unless it was overtaken. -/
theorem Verdict.adopt (h : Verdict state seen overtaken) (happ : e.applied = true)
    (hw : e.watched = false) (hown : e.own = true)
    (hlate : ∀ w, lastWatched seen = some w → Newest seen w → e.revision ≤ w.revision →
      w.own = true ∨ overtaken = true) :
    Verdict .owned (e :: seen) overtaken := by
  refine ⟨fun _ => ⟨e, by simp [lastApplied, happ], hown⟩, by simp, ?_, by simp, ?_⟩
  · rw [lastWatched_cons hw]
    exact h.foreign
  · rw [lastWatched_cons hw]
    exact fun v hv hnew _ => hlate v hv hnew.tail (hnew e List.mem_cons_self)

/-- Another instance's record is yielded to. -/
theorem Verdict.yield (h : Verdict state seen overtaken) (happ : e.applied = true)
    (hw : e.watched = false) (hown : e.own = false)
    (hlate : ∀ w, lastWatched seen = some w → e.revision ≤ w.revision → w.own = false) :
    Verdict .duplicate (e :: seen) overtaken := by
  refine ⟨by simp, fun _ => ⟨e, by simp [lastApplied, happ], hown⟩, ?_, ?_, by simp⟩
  · rw [lastWatched_cons hw]
    exact h.foreign
  · rw [lastWatched_cons hw]
    exact fun v hv hnew _ => hlate v hv (hnew e List.mem_cons_self)

/-- An observed event decides the state at once. -/
theorem verdict_observed (happ : e.applied = true) (hw : e.watched = true)
    (hover : overtaken = true → e.own = false) :
    Verdict (if e.own then .owned else .duplicate) (e :: seen) overtaken := by
  have happlied : lastApplied (e :: seen) = some e := by simp [lastApplied, happ]
  have hwatched : lastWatched (e :: seen) = some e := by simp [lastWatched, hw]
  cases hown : e.own with
  | true =>
    refine ⟨fun _ => ⟨e, happlied, hown⟩, by simp, fun ho => ?_, by simp, fun v hv _ _ => ?_⟩
    · simp [hover ho] at hown
    · rw [hwatched] at hv
      exact .inl (Option.some.inj hv ▸ hown)
  | false =>
    refine ⟨by simp, fun _ => ⟨e, happlied, hown⟩, fun _ v hv => ?_, fun v hv _ _ => ?_, by simp⟩
    all_goals
      rw [hwatched] at hv
      exact Option.some.inj hv ▸ hown

end Verdicts

/-! ## The operation under way -/

/-- What an operation has learned is not older than revision `w`. -/
def After (w : ℕ) (op : Operation) : Prop :=
  (∀ r, op.answer = some (some r) → w < r) ∧
    ∀ round e, op.stage = .read round (some e) → w ≤ e.revision

/-- An operation that nothing has invalidated began in the present state: on an owned
key exactly if it refreshes or deletes; and after the event observed last, unless the
key is owned or the event overtook it. -/
structure Underway (c : Claim) (seen : List Evidence) (overtaken : Bool) : Prop where
  revision : c.state = .owned → c.revision.isSome
  past : ∀ op, c.operation = some op → op.generation ≤ c.generation
  phase : ∀ op, c.operation = some op → op.generation = c.generation →
    (op.stage.holding = true ↔ c.state = .owned)
  fresh : ∀ w op, lastWatched seen = some w → c.operation = some op →
    op.generation = c.generation → c.state ≠ .owned →
    (c.state = .duplicate → overtaken = false) → After w.revision op

/-- How an operation may go on from a claim. -/
def Poised (generation : ℕ) (p : Claim × Next) : Prop :=
  (p.1.state = .owned → p.1.revision.isSome) ∧
  match p.2 with
  | .finish => True
  | .claim => p.1.state ≠ .owned
  | .refresh _ => p.1.state = .owned
  | .delete _ => generation ≤ p.1.generation ∧
    (generation = p.1.generation → p.1.state = .owned)
  | .recreate _ | .overwrite _ _ _ | .get _ => generation ≤ p.1.generation ∧
    (generation = p.1.generation → p.1.state ≠ .owned)

/-- What an operation knows when it goes on: nothing yet. -/
structure Begun (generation : ℕ) (p : Claim × Next) (op : Operation) : Prop where
  answer : op.answer = none
  stage : ∀ round e, op.stage ≠ .read round e
  past : op.generation ≤ p.1.generation
  phase : op.generation = p.1.generation → (op.stage.holding = true ↔ p.1.state = .owned)

section Claims

variable {c : Claim} {seen : List Evidence} {overtaken : Bool}

/-- The claim waits for nothing. -/
theorem underway_idle (h : c.operation = none) (hrev : c.state = .owned → c.revision.isSome) :
    Underway c seen overtaken :=
  ⟨hrev, by simp [h], by simp [h], by simp [h]⟩

theorem Begun.underway {generation : ℕ} {p : Claim × Next} {op : Operation}
    (h : Begun generation p op) (hrev : p.1.state = .owned → p.1.revision.isSome) :
    Underway { p.1 with operation := some op } seen overtaken := by
  refine ⟨hrev, fun o ho => ?_, fun o ho => ?_, fun w o _ ho _ _ _ => ?_⟩
  all_goals obtain rfl : op = o := Option.some.inj ho
  · exact h.past
  · exact h.phase
  · exact ⟨by simp [h.answer], fun round e he => absurd he (h.stage round _)⟩

/-- Evidence that is no watched event does not touch the operation. -/
theorem Underway.learn (h : Underway c seen overtaken) {e : Evidence} (hw : e.watched = false) :
    Underway c (e :: seen) overtaken := by
  refine ⟨h.revision, h.past, h.phase, ?_⟩
  rw [lastWatched_cons hw]
  exact h.fresh

/-- An observed event invalidates what is under way, finds the key owned, or overtakes. -/
theorem Underway.observe (h : Underway c seen overtaken) {own : Bool} {r : ℕ} {e : Evidence}
    {overtaken' : Bool}
    (hover : own = false → c.state = .duplicate → c.engaged = true → overtaken' = true) :
    Underway (c.observe own r) (e :: seen) overtaken' := by
  cases own with
  | true =>
    simp only [Claim.observe, if_true, Claim.adopt]
    refine ⟨fun _ => rfl, fun op hop => ?_, fun op hop hgen => ?_, fun w op _ _ _ hstate => ?_⟩
    · have hpast := h.past op hop
      simp only [Claim.transition]
      split_ifs <;> omega
    · by_cases hs : PresenceState.owned = c.state
      · have hgen : op.generation = c.generation := by simpa [Claim.transition, hs] using hgen
        simpa [Claim.transition, hs] using h.phase op hop hgen
      · have hgen : op.generation = c.generation + 1 := by
          simpa [Claim.transition, hs] using hgen
        have hpast := h.past op hop
        omega
    · exact absurd rfl hstate
  | false =>
    simp only [Claim.observe, Bool.false_eq_true, if_false, Claim.yieldKey]
    refine ⟨by simp [Claim.transition], fun op hop => ?_, fun op hop hgen => ?_,
      fun w op _ hop hgen _ hlate => ?_⟩
    · have hpast := h.past op hop
      simp only [Claim.transition]
      split_ifs <;> omega
    · by_cases hs : PresenceState.duplicate = c.state
      · have hgen : op.generation = c.generation := by simpa [Claim.transition, hs] using hgen
        simpa [Claim.transition, ← hs] using h.phase op hop hgen
      · have hgen : op.generation = c.generation + 1 := by
          simpa [Claim.transition, hs] using hgen
        have hpast := h.past op hop
        omega
    · by_cases hs : PresenceState.duplicate = c.state
      · have hgen : op.generation = c.generation := by simpa [Claim.transition, hs] using hgen
        have hengaged : c.engaged = true := by
          have hop' : c.operation = some op := hop
          simp [Claim.engaged, hop', hgen]
        have hovertaken := hover rfl hs.symm hengaged
        simp [hlate rfl] at hovertaken
      · have hgen : op.generation = c.generation + 1 := by
          simpa [Claim.transition, hs] using hgen
        have hpast := h.past op hop
        omega

theorem Underway.put (h : Underway c seen overtaken) (generation : ℕ) (presence : Fields) :
    Poised generation (c.put presence) := by
  unfold Claim.put
  dsimp only
  split
  · rename_i revision howned hrev
    have hstate : c.state = .owned := by simpa [Claim.owned] using howned
    exact ⟨h.revision, hstate⟩
  · rename_i hnot
    refine ⟨h.revision, fun hstate => ?_⟩
    obtain ⟨r, hr⟩ := Option.isSome_iff_exists.mp (h.revision hstate)
    exact hnot r (by simpa [Claim.owned] using hstate) hr

theorem Underway.reclaim (h : Underway c seen overtaken) (generation : ℕ) :
    Poised generation c.reclaim := by
  unfold Claim.reclaim
  split_ifs with howned
  · exact ⟨h.revision, trivial⟩
  · exact ⟨h.revision, by simpa [Claim.owned] using howned⟩

theorem Underway.expired (h : Underway c seen overtaken) (generation : ℕ) :
    Poised generation c.expired := by
  unfold Claim.expired
  split_ifs with howned
  · exact ⟨by simp [Claim.transition], by simp [Claim.transition]⟩
  · exact ⟨h.revision, by simpa [Claim.owned] using howned⟩

theorem reset_state_ne (c : Claim) : c.reset.state ≠ .owned := by
  unfold Claim.reset Claim.owned
  dsimp only
  split_ifs with howned
  · simp
  · simpa using howned

theorem Underway.release (h : Underway c seen overtaken) :
    Poised c.generation c.release := by
  unfold Claim.release
  split
  · rename_i revision howned hrev
    exact ⟨h.revision, le_refl _, fun _ => by simpa [Claim.owned] using howned⟩
  · exact ⟨fun hstate => absurd hstate (reset_state_ne c), trivial⟩

theorem settle_revision (h : c.state = .owned → c.revision.isSome) (generation : ℕ)
    (revision : Option ℕ) :
    (c.settle generation revision).state = .owned →
      (c.settle generation revision).revision.isSome := by
  unfold Claim.settle
  split_ifs with hgen
  · exact h
  · cases revision with
    | none => simp [Claim.yieldKey, Claim.transition]
    | some r => simp [Claim.adopt, Claim.transition]

/-- An operation that began on a key not owned and lost a race goes on as it was. -/
theorem Underway.poised_same (h : Underway c seen overtaken) {op : Operation}
    (hop : c.operation = some op) (hstage : op.stage.holding = false) {next : Next}
    (hnext : next = .finish ∨ (∃ round, next = .recreate round) ∨
      (∃ round last judged, next = .overwrite round last judged) ∨ ∃ round, next = .get round) :
    Poised op.generation (c, next) := by
  have hrace : op.generation ≤ c.generation ∧
      (op.generation = c.generation → c.state ≠ .owned) := by
    refine ⟨h.past op hop, fun hgen hstate => ?_⟩
    have hholding := (h.phase op hop hgen).mpr hstate
    simp [hstage] at hholding
  rcases hnext with rfl | ⟨round, rfl⟩ | ⟨round, last, judged, rfl⟩ | ⟨round, rfl⟩
  · exact ⟨h.revision, trivial⟩
  · exact ⟨h.revision, hrace⟩
  · exact ⟨h.revision, hrace⟩
  · exact ⟨h.revision, hrace⟩

theorem retry_cases (round : ℕ) :
    Claim.retry round = .finish ∨ (∃ r, Claim.retry round = .recreate r) ∨
      (∃ r last judged, Claim.retry round = .overwrite r last judged) ∨
        ∃ r, Claim.retry round = .get r := by
  unfold Claim.retry
  split_ifs
  · exact .inr (.inr (.inr ⟨_, rfl⟩))
  · exact .inl rfl

theorem Underway.resume (h : Underway c seen overtaken) {op : Operation}
    (hop : c.operation = some op) (answer : Option ℕ) :
    Poised op.generation (c.resume op.generation op.stage answer) := by
  cases hstage : op.stage with
  | updating =>
    cases answer with
    | none =>
      simp only [Claim.resume]
      split_ifs
      · exact ⟨h.revision, trivial⟩
      · exact ⟨by simp [Claim.transition], by simp [Claim.transition]⟩
    | some r =>
      simp only [Claim.resume]
      split_ifs
      · exact ⟨h.revision, trivial⟩
      · exact ⟨fun _ => rfl, trivial⟩
  | creating =>
    cases answer with
    | none =>
      exact h.poised_same hop (by simp [hstage, Stage.holding]) (.inr (.inr (.inr ⟨0, rfl⟩)))
    | some r => exact ⟨settle_revision h.revision _ _, trivial⟩
  | recreating round =>
    cases answer with
    | none => exact h.poised_same hop (by simp [hstage, Stage.holding]) (retry_cases round)
    | some r => exact ⟨settle_revision h.revision _ _, trivial⟩
  | overwriting round =>
    cases answer with
    | none => exact h.poised_same hop (by simp [hstage, Stage.holding]) (retry_cases round)
    | some r => exact ⟨settle_revision h.revision _ _, trivial⟩
  | deleting =>
    cases answer <;> exact ⟨fun hstate => absurd hstate (reset_state_ne c), trivial⟩
  | getting round => cases answer <;> exact ⟨h.revision, trivial⟩
  | read round entry => cases answer <;> exact ⟨h.revision, trivial⟩

theorem Underway.readEntry (h : Underway c seen overtaken) {op : Operation}
    (hop : c.operation = some op) {round : ℕ} {entry : Option (Entry (Option Json))}
    (hstage : op.stage = .read round entry) (instanceId : Str) (now : ℚ) :
    Poised op.generation
      (c.readEntry mac network ttl instanceId op.generation round now entry) := by
  have hholding : op.stage.holding = false := by simp [hstage, Stage.holding]
  unfold Claim.readEntry
  split
  · exact h.poised_same hop hholding (.inr (.inl ⟨round, rfl⟩))
  · split_ifs
    · exact ⟨settle_revision h.revision _ _, trivial⟩
    · exact ⟨settle_revision h.revision _ _, trivial⟩
    · exact h.poised_same hop hholding (.inr (.inr (.inl ⟨round, _, now, rfl⟩)))

end Claims

/-! ## The log of the key -/

section Log

variable {mac network botId ttl inst}

/-- The events are the key's values in the order they were written; the key holds the
newest one, or none. What an operation has learned is among them. -/
structure Logged (botId : Str) (inst : ι → Str) (s : ClaimMesh ι) : Prop where
  sorted : s.events.Pairwise fun a b => b.1 < a.1
  issued : ∀ x ∈ s.events, x.1 < s.bucket.next
  current : ∀ e, s.bucket.entries (presenceKey botId) = some e →
    (e.revision, e.value) ∈ s.events ∧ ∀ x ∈ s.events, x.1 ≤ e.revision
  answers : ∀ i op r, (s.procs i).operation = some op → op.answer = some (some r) →
    ∃ v, (r, v) ∈ s.events ∧ instanceOf v = some (inst i)
  readings : ∀ i op round e, (s.procs i).operation = some op →
    op.stage = .read round (some e) → (e.revision, e.value) ∈ s.events

variable {s : ClaimMesh ι}

omit [DecidableEq ι] in
/-- A revision names one value. -/
theorem Logged.unique (h : Logged botId inst s) {r : ℕ} {v w : Option Json}
    (hv : (r, v) ∈ s.events) (hw : (r, w) ∈ s.events) : v = w := by
  have hsame : s.events.Pairwise fun a b => a.1 = b.1 → a = b :=
    h.sorted.imp fun hlt heq => absurd heq (by omega)
  have hback : s.events.Pairwise (flip fun a b => a.1 = b.1 → a = b) :=
    h.sorted.imp fun hlt heq => absurd heq (by omega)
  have heq := hsame.forall_of_forall_of_flip (fun _ _ _ => rfl) hback hv hw rfl
  exact (Prod.mk.inj heq).2

omit [DecidableEq ι] in
theorem logged_init : Logged botId inst (ClaimMesh.init botId inst) := by
  constructor <;> simp [ClaimMesh.init, Claim.init]

theorem Logged.setProc (h : Logged botId inst s) {i : ι} {c : Claim}
    (hop : ∀ op, c.operation = some op →
      (∀ r, op.answer = some (some r) →
        ∃ v, (r, v) ∈ s.events ∧ instanceOf v = some (inst i)) ∧
      ∀ round e, op.stage = .read round (some e) → (e.revision, e.value) ∈ s.events) :
    Logged botId inst (s.setProc i c) := by
  refine { h with answers := ?_, readings := ?_ }
  · intro j op r hj hr
    by_cases hji : j = i
    · subst hji
      exact (hop op (by simpa [ClaimMesh.setProc] using hj)).1 r hr
    · exact h.answers j op r (by simpa [ClaimMesh.setProc, hji] using hj) hr
  · intro j op round e hj hr
    by_cases hji : j = i
    · subst hji
      exact (hop op (by simpa [ClaimMesh.setProc] using hj)).2 round e hr
    · exact h.readings j op round e (by simpa [ClaimMesh.setProc, hji] using hj) hr

/-- The operation that a process is left with when it goes on. -/
theorem perform_spec (mac : Str → Str) (network botId : Str) (s : ClaimMesh ι) (i : ι) (generation : ℕ) (now : ℚ) {p : Claim × Next}
    (hp : Poised generation p) : ∃ op,
    (s.perform mac network botId i generation now p).procs =
      Function.update s.procs i { p.1 with operation := op } ∧
    (s.perform mac network botId i generation now p).bucket = s.bucket ∧
    (s.perform mac network botId i generation now p).events = s.events ∧
    ∀ o, op = some o → Begun generation p o := by
  obtain ⟨c, next⟩ := p
  obtain ⟨-, hnext⟩ := hp
  have hsigned : ∀ g stage kind judged,
      Begun generation (c, next) ⟨g, stage, s.serial, none⟩ → ∃ op,
      (s.sendSigned mac network botId i c g stage kind judged now).procs =
        Function.update s.procs i { c with operation := op } ∧
      (s.sendSigned mac network botId i c g stage kind judged now).bucket = s.bucket ∧
      (s.sendSigned mac network botId i c g stage kind judged now).events = s.events ∧
      ∀ o, op = some o → Begun generation (c, next) o := by
    intro g stage kind judged hbegun
    unfold ClaimMesh.sendSigned
    split
    · exact ⟨_, rfl, rfl, rfl, fun o ho => Option.some.inj ho ▸ hbegun⟩
    · exact ⟨none, rfl, rfl, rfl, by simp⟩
  cases next with
  | finish => exact ⟨none, rfl, rfl, rfl, by simp⟩
  | claim =>
    refine hsigned c.generation .creating .create none ⟨rfl, by simp, le_refl _, fun _ => ?_⟩
    simp [Stage.holding, show c.state ≠ .owned from hnext]
  | recreate round =>
    refine hsigned generation (.recreating round) .create none
      ⟨rfl, by simp, hnext.1, fun hgen => ?_⟩
    simp [Stage.holding, show c.state ≠ .owned from hnext.2 hgen]
  | refresh last =>
    refine hsigned c.generation .updating (.update last) none ⟨rfl, by simp, le_refl _, fun _ => ?_⟩
    simp [Stage.holding, show c.state = .owned from hnext]
  | overwrite round last judged =>
    refine hsigned generation (.overwriting round) (.update last) (some judged)
      ⟨rfl, by simp, hnext.1, fun hgen => ?_⟩
    simp [Stage.holding, show c.state ≠ .owned from hnext.2 hgen]
  | delete last =>
    refine ⟨_, rfl, rfl, rfl, fun o ho => ?_⟩
    obtain rfl := Option.some.inj ho
    refine ⟨rfl, by simp, hnext.1, fun hgen => ?_⟩
    simp [Stage.holding, show c.state = .owned from hnext.2 hgen]
  | get round =>
    refine ⟨_, rfl, rfl, rfl, fun o ho => ?_⟩
    obtain rfl := Option.some.inj ho
    refine ⟨rfl, by simp, hnext.1, fun hgen => ?_⟩
    simp [Stage.holding, show c.state ≠ .owned from hnext.2 hgen]

omit [DecidableEq ι] in
/-- The log depends on the bucket, the events and the claims only. -/
theorem Logged.congr {t : ClaimMesh ι} (h : Logged botId inst s) (hb : t.bucket = s.bucket)
    (he : t.events = s.events) (hp : t.procs = s.procs) : Logged botId inst t := by
  constructor
  · rw [he]
    exact h.sorted
  · rw [he, hb]
    exact h.issued
  · rw [he, hb]
    exact h.current
  · rw [he, hp]
    exact h.answers
  · rw [he, hp]
    exact h.readings

theorem Logged.perform (h : Logged botId inst s) (i : ι) (generation : ℕ) (now : ℚ)
    {p : Claim × Next} (hp : Poised generation p) :
    Logged botId inst (s.perform mac network botId i generation now p) := by
  obtain ⟨op, hprocs, hb, he, hbegun⟩ := perform_spec mac network botId s i generation now hp
  refine (h.setProc (i := i) (c := { p.1 with operation := op }) fun o ho => ?_).congr hb he hprocs
  have hnew := hbegun o ho
  exact ⟨by simp [hnew.answer], fun round e hstage => absurd hstage (hnew.stage round _)⟩

omit [DecidableEq ι] in
/-- A write of the key is a new event above all others. -/
theorem Logged.write (h : Logged botId inst s) (v : Option Json) :
    Logged botId inst { s with
      bucket := s.bucket.write (presenceKey botId) v
      events := (s.bucket.next, v) :: s.events } where
  sorted := List.pairwise_cons.mpr ⟨fun x hx => h.issued x hx, h.sorted⟩
  issued := by
    intro x hx
    rcases List.mem_cons.mp hx with rfl | hx
    · exact Nat.lt_succ_self _
    · exact Nat.lt_succ_of_lt (h.issued x hx)
  current := by
    intro e he
    obtain rfl : Entry.mk s.bucket.next v = e := by simpa using he
    refine ⟨List.mem_cons_self, fun x hx => ?_⟩
    rcases List.mem_cons.mp hx with rfl | hx
    · exact le_refl _
    · exact (h.issued x hx).le
  answers := by
    intro i op r hop hr
    obtain ⟨w, hw, hinst⟩ := h.answers i op r hop hr
    exact ⟨w, List.mem_cons_of_mem _ hw, hinst⟩
  readings := fun i op round e hop hstage =>
    List.mem_cons_of_mem _ (h.readings i op round e hop hstage)

omit [DecidableEq ι] in
/-- Whatever leaves the key as it is, or removes it, adds no event. -/
theorem Logged.extend (h : Logged botId inst s) {b : Store Str (Option Json)}
    (hnext : s.bucket.next ≤ b.next)
    (hkey : ∀ e, b.entries (presenceKey botId) = some e →
      s.bucket.entries (presenceKey botId) = some e) :
    Logged botId inst { s with bucket := b } :=
  { h with
    issued := fun x hx => (h.issued x hx).trans_le hnext
    current := fun e he => h.current e (hkey e he) }

omit [DecidableEq ι] in
theorem Logged.remove (h : Logged botId inst s) (k : Str) :
    Logged botId inst { s with bucket := s.bucket.remove k } := by
  refine h.extend (Nat.le_succ _) fun e he => ?_
  by_cases hk : presenceKey botId = k
  · subst hk
    simp at he
  · rwa [Store.remove_entries_of_ne _ hk] at he

theorem Logged.answer (h : Logged botId inst s) {w : PresenceWrite ι} {a : Option ℕ}
    (ha : ∀ r, a = some r → ∃ v, (r, v) ∈ s.events ∧ instanceOf v = some (inst w.proc)) :
    Logged botId inst (s.answer w a) := by
  unfold ClaimMesh.answer
  dsimp only
  split
  · rename_i op hop
    split_ifs with hserial
    · refine h.setProc fun op' hop' => ?_
      obtain rfl := Option.some.inj hop'
      exact ⟨fun r hr => ha r (by simpa using hr), fun round e he =>
        h.readings w.proc op round e hop he⟩
    · exact h
  · exact h

/-- A write that lands has the key of the processes and a record of its own. -/
theorem Logged.execute (h : Logged botId inst s) {w : PresenceWrite ι}
    (hw : ClaimMesh.WriteOk mac network botId ttl s.bucket (inst w.proc) w) :
    Logged botId inst (s.execute w) := by
  have hlost : Logged botId inst (s.answer w none) := h.answer (by simp)
  have hwritten : (∀ last, w.kind ≠ .delete last) →
      ∀ r, some s.bucket.next = some r →
        ∃ v, (r, v) ∈ (s.bucket.next, w.value) :: s.events ∧
          instanceOf v = some (inst w.proc) := by
    intro hkind r hr
    obtain rfl := Option.some.inj hr
    exact ⟨w.value, List.mem_cons_self, ClaimMesh.ownRecord_instance (hw.value hkind)⟩
  have hevent := h.write w.value
  rw [← hw.key] at hevent
  unfold ClaimMesh.execute
  cases hkind : w.kind with
  | create =>
    simp only
    split
    · rename_i b hb
      obtain ⟨_, rfl⟩ := Store.create_eq_some.mp hb
      exact hevent.answer (hwritten (by simp [hkind]))
    · exact hlost
  | update last =>
    simp only
    split
    · rename_i b hb
      obtain ⟨_, rfl⟩ := Store.update_eq_some.mp hb
      refine Logged.answer ?_ (hwritten (by simp [hkind]))
      exact hevent.congr rfl rfl rfl
    · exact hlost
  | delete last =>
    simp only
    split
    · rename_i b hb
      obtain ⟨_, rfl⟩ := Store.delete_eq_some.mp hb
      refine Logged.answer ?_ (by simp)
      exact (h.remove w.key).congr rfl rfl rfl
    · exact hlost

end Log

/-! ## Every step keeps the claims behind their evidence -/

section Steps

variable {mac network botId ttl inst}

/-- A valid record is the process's own exactly if it names its instance. -/
theorem ownRecord_of_valid {now : ℚ} {v : Option Json} (instanceId : Str)
    (h : validValue mac network ttl now v = true) :
    ownRecord mac network instanceId v = decide (instanceOf v = some instanceId) := by
  match v, h with
  | some (.obj d), h =>
    have hsigned : signedPresence mac network d = true := validPresence_signed h
    simp only [ownRecord, instanceOf, hsigned, Bool.true_and]
    exact decide_eq_decide.mpr Iff.rfl

/-- One process: its claim against what it has learned. -/
structure Backed (events : List (ℕ × Option Json)) (instanceId : Str) (c : Claim)
    (seen : List Evidence) (last : ℕ) (overtaken : Bool) : Prop where
  known : ∀ e ∈ seen, ∃ v, (e.revision, v) ∈ events ∧
    e.own = decide (instanceOf v = some instanceId)
  order : ∀ e ∈ seen, e.watched = true → e.revision ≤ last
  latest : ∀ w, lastWatched seen = some w → ∀ e ∈ seen, e.watched = true →
    e.revision ≤ w.revision
  underway : Underway c seen overtaken
  verdict : Verdict c.state seen overtaken

structure Justified (mac : Str → Str) (network botId : Str) (ttl : ℚ) (inst : ι → Str)
    (s : EvidenceMesh ι) : Prop where
  mesh : ClaimMesh.Inv mac network botId ttl inst s.mesh
  logged : Logged botId inst s.mesh
  backed : ∀ i, Backed s.mesh.events (inst i) (s.mesh.procs i) (s.seen i) (s.last i)
    (s.overtaken i)

theorem lastWatched_mem {seen : List Evidence} {w : Evidence} (h : lastWatched seen = some w) :
    w ∈ seen ∧ w.watched = true :=
  ⟨List.mem_of_find?_eq_some h, List.find?_some h⟩

section Process

variable {events : List (ℕ × Option Json)} {instanceId : Str} {c : Claim}
variable {seen : List Evidence} {last : ℕ} {overtaken : Bool}

theorem Backed.mono (h : Backed events instanceId c seen last overtaken)
    {events' : List (ℕ × Option Json)} (hevents : ∀ x ∈ events, x ∈ events') :
    Backed events' instanceId c seen last overtaken :=
  { h with
    known := fun e he => by
      obtain ⟨v, hv, hown⟩ := h.known e he
      exact ⟨v, hevents _ hv, hown⟩ }

/-- The process learns nothing; it may lose the key. -/
theorem Backed.still (h : Backed events instanceId c seen last overtaken) {d : Claim}
    {last' : ℕ} (hlast : last ≤ last') (hunder : Underway d seen overtaken)
    (hstate : d.state = c.state ∨ d.state = .unclaimed) :
    Backed events instanceId d seen last' overtaken where
  known := h.known
  order := fun e he hw => (h.order e he hw).trans hlast
  latest := h.latest
  underway := hunder
  verdict := by
    rcases hstate with hsame | hlost
    · rw [hsame]
      exact h.verdict
    · rw [hlost]
      exact h.verdict.unclaimed

/-- The process ends its operation with a record of the key. -/
theorem Backed.learn (h : Backed events instanceId c seen last overtaken) {d : Claim}
    (hidle : d.operation = none) (hrev : d.state = .owned → d.revision.isSome) {e : Evidence}
    (hw : e.watched = false)
    (he : ∃ v, (e.revision, v) ∈ events ∧ e.own = decide (instanceOf v = some instanceId))
    (hverdict : Verdict d.state (e :: seen) overtaken) :
    Backed events instanceId d (e :: seen) last overtaken where
  known := List.forall_mem_cons.mpr ⟨he, h.known⟩
  order := List.forall_mem_cons.mpr ⟨fun hwatched => by simp [hw] at hwatched, h.order⟩
  latest := by
    rw [lastWatched_cons hw]
    exact fun w hlast => List.forall_mem_cons.mpr
      ⟨fun hwatched => by simp [hw] at hwatched, h.latest w hlast⟩
  underway := underway_idle hidle hrev
  verdict := hverdict

/-- The process observes an event; the watch delivers none older than the last. -/
theorem Backed.watch (h : Backed events instanceId c seen last overtaken) {e : Evidence}
    (happ : e.applied = true) (hw : e.watched = true) (hlast : last ≤ e.revision)
    (he : ∃ v, (e.revision, v) ∈ events ∧ e.own = decide (instanceOf v = some instanceId)) :
    Backed events instanceId (c.observe e.own e.revision) (e :: seen) e.revision
      (!e.own && c.state = .duplicate && c.engaged) where
  known := List.forall_mem_cons.mpr ⟨he, h.known⟩
  order := List.forall_mem_cons.mpr
    ⟨fun _ => le_refl _, fun f hf hfw => (h.order f hf hfw).trans hlast⟩
  latest := by
    intro w hwatched
    obtain rfl : e = w := by simpa [lastWatched, hw] using hwatched
    exact List.forall_mem_cons.mpr
      ⟨fun _ => le_refl _, fun f hf hfw => (h.order f hf hfw).trans hlast⟩
  underway := by
    refine h.underway.observe fun hown hstate hengaged => ?_
    simp [hown, hstate, hengaged]
  verdict := by
    have hstate : (c.observe e.own e.revision).state = if e.own then .owned else .duplicate := by
      cases e.own <;> rfl
    rw [hstate]
    refine verdict_observed happ hw fun hover => ?_
    simp only [Bool.and_eq_true, Bool.not_eq_true'] at hover
    exact hover.1.1

end Process

/-- The claim with the answer to its write: owned, unless the key changed hands. -/
theorem resume_stored (c : Claim) (generation : ℕ) {stage : Stage} (hstage : stage.stores = true)
    (hphase : generation = c.generation → (stage.holding = true ↔ c.state = .owned)) (r : ℕ) :
    (c.resume generation stage (some r)).2 = .finish ∧
      (c.resume generation stage (some r)).1.state =
        if generation = c.generation then .owned else c.state := by
  have hsettle : (c.settle generation (some r)).state =
      if generation = c.generation then .owned else c.state := by
    by_cases hgen : generation = c.generation <;>
      simp [Claim.settle, hgen, Claim.adopt, Claim.transition]
  cases stage with
  | updating =>
    by_cases hgen : generation = c.generation
    · have howned : c.state = .owned := (hphase hgen).mp rfl
      simp [Claim.resume, hgen, howned]
    · simp [Claim.resume, hgen]
  | creating => exact ⟨rfl, hsettle⟩
  | recreating round => exact ⟨rfl, hsettle⟩
  | overwriting round => exact ⟨rfl, hsettle⟩
  | deleting => simp [Stage.stores] at hstage
  | getting round => simp [Stage.stores] at hstage
  | read round entry => simp [Stage.stores] at hstage

theorem reset_state (c : Claim) : c.reset.state = c.state ∨ c.reset.state = .unclaimed := by
  unfold Claim.reset
  dsimp only
  split_ifs
  · exact .inr rfl
  · exact .inl rfl

/-- A lost race, or an answer that brings no record, leaves the state or drops the key. -/
theorem resume_empty (c : Claim) (generation : ℕ) (stage : Stage) {answer : Option ℕ}
    (h : stage.stores = false ∨ answer = none) :
    (c.resume generation stage answer).1.state = c.state ∨
      (c.resume generation stage answer).1.state = .unclaimed := by
  cases stage with
  | updating =>
    obtain rfl : answer = none := by simpa [Stage.stores] using h
    simp only [Claim.resume]
    split_ifs
    · exact .inl rfl
    · exact .inr rfl
  | creating =>
    obtain rfl : answer = none := by simpa [Stage.stores] using h
    exact .inl rfl
  | recreating round =>
    obtain rfl : answer = none := by simpa [Stage.stores] using h
    exact .inl rfl
  | overwriting round =>
    obtain rfl : answer = none := by simpa [Stage.stores] using h
    exact .inl rfl
  | deleting => cases answer <;> exact reset_state c
  | getting round => cases answer <;> exact .inl rfl
  | read round entry => cases answer <;> exact .inl rfl

section Results

variable {c : Claim} {seen : List Evidence} {overtaken : Bool} {op : Operation}

/-- The answer to a write: adopted unless the key changed hands, and then newer than
the event observed last, unless that one was the process's own or overtook the write. -/
theorem verdict_stored (hunder : Underway c seen overtaken)
    (hverdict : Verdict c.state seen overtaken) (hop : c.operation = some op)
    (hstage : op.stage.stores = true) {r : ℕ} (hr : op.answer = some (some r)) :
    Verdict (c.resume op.generation op.stage (some r)).1.state
      (⟨r, true, op.generation = c.generation, false⟩ :: seen) overtaken := by
  rw [(resume_stored c op.generation hstage (hunder.phase op hop) r).2]
  by_cases hgen : op.generation = c.generation
  · rw [if_pos hgen]
    refine hverdict.adopt (by simpa using hgen) rfl rfl fun w hw hnew hle => ?_
    by_cases howned : c.state = .owned
    · exact hverdict.kept w hw hnew howned
    · by_contra hnot
      obtain ⟨-, hover⟩ := not_or.mp hnot
      have hafter := hunder.fresh w op hw hop hgen howned fun _ => by simpa using hover
      have hlt := hafter.1 r hr
      simp only at hle
      omega
  · rw [if_neg hgen]
    exact hverdict.discard (by simpa using hgen) rfl

/-- A record read by `reclaim`: applied unless the key changed hands, and then not older
than the event observed last, unless that one overtook the reading. -/
theorem verdict_read (hunder : Underway c seen overtaken)
    (hverdict : Verdict c.state seen overtaken) (hop : c.operation = some op) {round : ℕ}
    {e : Entry (Option Json)} (hstage : op.stage = .read round (some e)) {own : Bool}
    (hsame : ∀ w, lastWatched seen = some w → w.revision = e.revision → w.own = own) :
    Verdict (c.settle op.generation (if own then some e.revision else none)).state
      (⟨e.revision, own, op.generation = c.generation, false⟩ :: seen) overtaken := by
  by_cases hgen : op.generation = c.generation
  · have hnot : c.state ≠ .owned := fun howned => by
      have hholding := (hunder.phase op hop hgen).mpr howned
      simp [hstage, Stage.holding] at hholding
    have hlate : ∀ w, lastWatched seen = some w → e.revision ≤ w.revision →
        w.own = own ∨ (c.state = .duplicate ∧ overtaken = true) := by
      intro w hw hle
      by_contra hcon
      obtain ⟨hne, hover⟩ := not_or.mp hcon
      have hafter := hunder.fresh w op hw hop hgen hnot fun hdup => by
        simpa [hdup] using hover
      have hge := hafter.2 round e hstage
      exact hne (hsame w hw (by omega))
    cases own with
    | true =>
      have hstate : (c.settle op.generation (some e.revision)).state = .owned := by
        simp [Claim.settle, hgen, Claim.adopt, Claim.transition]
      rw [if_pos rfl, hstate]
      refine hverdict.adopt (by simpa using hgen) rfl rfl fun w hw _ hle => ?_
      exact (hlate w hw hle).imp_right And.right
    | false =>
      have hstate : (c.settle op.generation none).state = .duplicate := by
        simp [Claim.settle, hgen, Claim.yieldKey, Claim.transition]
      rw [if_neg Bool.false_ne_true, hstate]
      refine hverdict.yield (by simpa using hgen) rfl rfl fun w hw hle => ?_
      rcases hlate w hw hle with hown | ⟨-, hover⟩
      · exact hown
      · exact hverdict.foreign hover w hw
  · have hstate : ∀ revision, (c.settle op.generation revision).state = c.state := by
      intro revision
      simp [Claim.settle, hgen]
    rw [hstate]
    exact hverdict.discard (by simpa using hgen) rfl

/-- The answer to a write reaches the operation that waits for it. -/
theorem Underway.answered (h : Underway c seen overtaken) (hop : c.operation = some op)
    {a : Option ℕ} (ha : ∀ r, a = some r → ∀ w, lastWatched seen = some w → w.revision < r) :
    Underway { c with operation := some { op with answer := some a } } seen overtaken := by
  refine ⟨h.revision, fun o ho => ?_, fun o ho => ?_, fun w o hw ho hgen hnot hdup => ?_⟩
  all_goals obtain rfl : { op with answer := some a } = o := Option.some.inj ho
  · exact h.past op hop
  · exact h.phase op hop
  · refine ⟨fun r hr => ha r (by simpa using hr) w hw, ?_⟩
    exact (h.fresh w op hw hop hgen hnot hdup).2

/-- The key is read: what it holds is not older than any event. -/
theorem Underway.got (h : Underway c seen overtaken) (hop : c.operation = some op) {round : ℕ}
    (hstage : op.stage = .getting round) {entry : Option (Entry (Option Json))}
    (he : ∀ e, entry = some e → ∀ w, lastWatched seen = some w → w.revision ≤ e.revision) :
    Underway { c with operation := some { op with stage := .read round entry } } seen
      overtaken := by
  refine ⟨h.revision, fun o ho => ?_, fun o ho hgen => ?_, fun w o hw ho hgen hnot hdup => ?_⟩
  all_goals obtain rfl : { op with stage := .read round entry } = o := Option.some.inj ho
  · exact h.past op hop
  · have hphase := h.phase op hop hgen
    rw [hstage] at hphase
    exact hphase
  · refine ⟨(h.fresh w op hw hop hgen hnot hdup).1, fun round' e hread => ?_⟩
    exact he e (Stage.read.inj hread).2 w hw

end Results

variable {s t : EvidenceMesh ι}

omit [DecidableEq ι] in
theorem justified_init : Justified mac network botId ttl inst (init botId inst) where
  mesh := ClaimMesh.inv_init
  logged := logged_init
  backed := fun _ => ⟨by simp [init], by simp [init], by simp [init, lastWatched],
    underway_idle rfl (by simp [init, ClaimMesh.init, Claim.init]), verdict_nil⟩

omit [DecidableEq ι] in
/-- What a process has learned is older than the next revision. -/
theorem Justified.issued (h : Justified mac network botId ttl inst s) (i : ι) {w : Evidence}
    (hw : lastWatched (s.seen i) = some w) : w.revision < s.mesh.bucket.next := by
  obtain ⟨v, hv, -⟩ := (h.backed i).known w (lastWatched_mem hw).1
  exact h.logged.issued _ hv

omit [DecidableEq ι] in
/-- One process moves; the others keep what they have. -/
theorem Justified.move (h : Justified mac network botId ttl inst s)
    (hmesh : ClaimMesh.Inv mac network botId ttl inst t.mesh) (hlogged : Logged botId inst t.mesh)
    (hevents : ∀ x ∈ s.mesh.events, x ∈ t.mesh.events) {i : ι}
    (hothers : ∀ j, j ≠ i → t.mesh.procs j = s.mesh.procs j ∧ t.seen j = s.seen j ∧
      t.last j = s.last j ∧ t.overtaken j = s.overtaken j)
    (hself : Backed t.mesh.events (inst i) (t.mesh.procs i) (t.seen i) (t.last i)
      (t.overtaken i)) :
    Justified mac network botId ttl inst t where
  mesh := hmesh
  logged := hlogged
  backed := by
    intro j
    by_cases hj : j = i
    · exact hj ▸ hself
    · obtain ⟨hprocs, hseen, hlast, hover⟩ := hothers j hj
      rw [hprocs, hseen, hlast, hover]
      exact (h.backed j).mono hevents

/-- A process's claim alone moves, and nobody learns anything. -/
theorem Justified.setProc (h : Justified mac network botId ttl inst s) {i : ι} {c : Claim}
    (hmesh : ClaimMesh.Inv mac network botId ttl inst (s.mesh.setProc i c))
    (hlogged : Logged botId inst (s.mesh.setProc i c))
    (hunder : Underway c (s.seen i) (s.overtaken i))
    (hstate : c.state = (s.mesh.procs i).state ∨ c.state = .unclaimed) :
    Justified mac network botId ttl inst ⟨s.mesh.setProc i c, s.seen, s.last, s.overtaken⟩ := by
  refine h.move hmesh hlogged (fun x hx => hx) (i := i) (fun j hj => ?_) ?_
  · exact ⟨Function.update_of_ne hj _ _, rfl, rfl, rfl⟩
  · have hself : (s.mesh.setProc i c).procs i = c := by simp [ClaimMesh.setProc]
    simp only [hself]
    exact (h.backed i).still (le_refl _) hunder hstate

/-- A process whose operation goes on without having learned anything. -/
theorem Justified.perform (h : Justified mac network botId ttl inst s) (i : ι) (generation : ℕ)
    (now : ℚ) {p : Claim × Next} (hp : Poised generation p)
    (hstep : ClaimMesh.StepOk mac network botId ttl s.mesh.bucket (inst i) p)
    (hstate : p.1.state = (s.mesh.procs i).state ∨ p.1.state = .unclaimed) :
    Justified mac network botId ttl inst
      ⟨s.mesh.perform mac network botId i generation now p, s.seen, s.last, s.overtaken⟩ := by
  obtain ⟨op, hprocs, hb, he, hbegun⟩ :=
    perform_spec mac network botId s.mesh i generation now hp
  refine h.move (h.mesh.perform hstep) (h.logged.perform i generation now hp)
    (fun x hx => by rwa [he]) (i := i) (fun j hj => ?_) ?_
  · exact ⟨by rw [hprocs, Function.update_of_ne hj], rfl, rfl, rfl⟩
  · simp only [hprocs, he, Function.update_self]
    refine (h.backed i).still (le_refl _) ?_ hstate
    cases op with
    | none => exact underway_idle rfl hp.1
    | some o => exact (hbegun o rfl).underway hp.1

/-- A process ends its operation with a record of the key. -/
theorem Justified.learn (h : Justified mac network botId ttl inst s) {i : ι} {c : Claim}
    (hc : ClaimMesh.ClaimOk mac network botId s.mesh.bucket (inst i) c)
    (hrev : c.state = .owned → c.revision.isSome) {e : Evidence} (hw : e.watched = false)
    (he : ∃ v, (e.revision, v) ∈ s.mesh.events ∧ e.own = decide (instanceOf v = some (inst i)))
    (hverdict : Verdict c.state (e :: s.seen i) (s.overtaken i)) :
    Justified mac network botId ttl inst
      ⟨s.mesh.setProc i { c with operation := none },
        Function.update s.seen i (e :: s.seen i), s.last, s.overtaken⟩ := by
  refine h.move (h.mesh.setProc (hc.operation none) (by simp)) (h.logged.setProc (by simp))
    (fun x hx => hx) (i := i) (fun j hj => ?_) ?_
  · exact ⟨Function.update_of_ne hj _ _, Function.update_of_ne hj _ _, rfl, rfl⟩
  · have hself : (s.mesh.setProc i { c with operation := none }).procs i =
        { c with operation := none } := by simp [ClaimMesh.setProc]
    rw [hself]
    simp only [Function.update_self]
    exact (h.backed i).learn (d := { c with operation := none }) rfl hrev hw he hverdict

omit [DecidableEq ι] in
/-- The bucket changes, or a process gets an answer; nobody learns anything. -/
theorem Justified.served (h : Justified mac network botId ttl inst s) {m : ClaimMesh ι}
    (hmesh : ClaimMesh.Inv mac network botId ttl inst m) (hlogged : Logged botId inst m)
    (hevents : ∀ x ∈ s.mesh.events, x ∈ m.events)
    (hprocs : ∀ i, m.procs i = s.mesh.procs i ∨ ∃ op a, (s.mesh.procs i).operation = some op ∧
      (∀ r, a = some r → r = s.mesh.bucket.next) ∧
      m.procs i = { s.mesh.procs i with operation := some { op with answer := some a } }) :
    Justified mac network botId ttl inst ⟨m, s.seen, s.last, s.overtaken⟩ where
  mesh := hmesh
  logged := hlogged
  backed := by
    intro i
    refine Backed.mono ?_ hevents
    rcases hprocs i with hsame | ⟨op, a, hop, ha, hnew⟩
    · simp only [hsame]
      exact h.backed i
    · simp only [hnew]
      refine (h.backed i).still (le_refl _) ?_ (.inl rfl)
      refine (h.backed i).underway.answered hop fun r hr w hw => ?_
      rw [ha r hr]
      exact h.issued i hw

theorem answer_procs (m : ClaimMesh ι) (w : PresenceWrite ι) (a : Option ℕ) (i : ι) :
    (m.answer w a).procs i = m.procs i ∨ ∃ op, (m.procs i).operation = some op ∧
      (m.answer w a).procs i =
        { m.procs i with operation := some { op with answer := some a } } := by
  unfold ClaimMesh.answer
  dsimp only
  split
  · rename_i op hop
    split_ifs
    · by_cases hi : i = w.proc
      · subst hi
        exact .inr ⟨op, hop, Function.update_self _ _ _⟩
      · exact .inl (Function.update_of_ne hi _ _)
    · exact .inl rfl
  · exact .inl rfl

theorem answer_events (m : ClaimMesh ι) (w : PresenceWrite ι) (a : Option ℕ) :
    (m.answer w a).events = m.events := by
  unfold ClaimMesh.answer
  dsimp only
  split
  · split_ifs <;> rfl
  · rfl

/-- A write that lands forgets no event, and answers its process at most. -/
theorem execute_spec (m : ClaimMesh ι) (w : PresenceWrite ι) :
    (∀ x ∈ m.events, x ∈ (m.execute w).events) ∧
      ∀ i, (m.execute w).procs i = m.procs i ∨ ∃ op a, (m.procs i).operation = some op ∧
        (∀ r, a = some r → r = m.bucket.next) ∧
        (m.execute w).procs i =
          { m.procs i with operation := some { op with answer := some a } } := by
  have hanswer : ∀ (n : ClaimMesh ι) (a : Option ℕ), n.procs = m.procs →
      (∀ x ∈ m.events, x ∈ n.events) → (∀ r, a = some r → r = m.bucket.next) →
      (∀ x ∈ m.events, x ∈ (n.answer w a).events) ∧
      ∀ i, (n.answer w a).procs i = m.procs i ∨ ∃ op a', (m.procs i).operation = some op ∧
        (∀ r, a' = some r → r = m.bucket.next) ∧
        (n.answer w a).procs i =
          { m.procs i with operation := some { op with answer := some a' } } := by
    intro n a hn hevents ha
    refine ⟨fun x hx => by simpa [answer_events] using hevents x hx, fun i => ?_⟩
    rcases answer_procs n w a i with hsame | ⟨op, hop, hnew⟩
    · exact .inl (by rw [hsame, hn])
    · rw [hn] at hop hnew
      exact .inr ⟨op, a, hop, ha, hnew⟩
  have hlost := hanswer m none rfl (fun x hx => hx) (by simp)
  unfold ClaimMesh.execute
  cases w.kind with
  | create =>
    simp only
    split
    · exact hanswer _ _ rfl (fun x hx => List.mem_cons_of_mem _ hx) (by simp)
    · exact hlost
  | update last =>
    simp only
    split
    · exact hanswer _ _ rfl (fun x hx => List.mem_cons_of_mem _ hx) (by simp)
    · exact hlost
  | delete last =>
    simp only
    split
    · exact hanswer _ _ rfl (fun x hx => hx) (by simp)
    · exact hlost

/-- A step in which nobody learns anything. -/
theorem unlearned {a : ClaimStep ι}
    (hlearns : learns mac network botId ttl inst s.mesh a = none) :
    s.noted mac network botId ttl inst a = s.seen ∧
      s.overtakes mac network botId ttl inst a = s.overtaken := by
  simp [noted, overtakes, hlearns]

theorem Justified.start (h : Justified mac network botId ttl inst s) {i : ι} {now : ℚ}
    {f : Claim → Claim × Next} {m : ClaimMesh ι}
    (hpoised : Poised (s.mesh.procs i).generation (f (s.mesh.procs i)))
    (hok : ClaimMesh.StepOk mac network botId ttl s.mesh.bucket (inst i) (f (s.mesh.procs i)))
    (hstate : (f (s.mesh.procs i)).1.state = (s.mesh.procs i).state ∨
      (f (s.mesh.procs i)).1.state = .unclaimed)
    (hst : s.mesh.start mac network botId i now f = some m) :
    Justified mac network botId ttl inst ⟨m, s.seen, s.last, s.overtaken⟩ := by
  simp only [ClaimMesh.start] at hst
  split_ifs at hst
  obtain rfl := Option.some.inj hst
  exact h.perform i _ now hpoised hok hstate

theorem put_state (c : Claim) (presence : Fields) : (c.put presence).1.state = c.state := by
  unfold Claim.put
  dsimp only
  split <;> rfl

theorem reclaim_state (c : Claim) : c.reclaim.1.state = c.state := by
  unfold Claim.reclaim
  split_ifs <;> rfl

theorem expired_state (c : Claim) :
    c.expired.1.state = c.state ∨ c.expired.1.state = .unclaimed := by
  unfold Claim.expired
  split_ifs
  · exact .inr rfl
  · exact .inl rfl

theorem release_state (c : Claim) :
    c.release.1.state = c.state ∨ c.release.1.state = .unclaimed := by
  unfold Claim.release
  split
  · exact .inl rfl
  · exact reset_state c

/-- The answer to a read arrives. -/
theorem Justified.read (h : Justified mac network botId ttl inst s) {i : ι} {now : ℚ}
    {op : Operation} (hop : (s.mesh.procs i).operation = some op) {round : ℕ}
    {entry : Option (Entry (Option Json))} (hstage : op.stage = .read round entry) :
    Justified mac network botId ttl inst
      ⟨s.mesh.perform mac network botId i op.generation now
          ((s.mesh.procs i).readEntry mac network ttl (inst i) op.generation round now entry),
        s.noted mac network botId ttl inst (.read i now), s.last,
        s.overtakes mac network botId ttl inst (.read i now)⟩ := by
  have hback := h.backed i
  have hentry : ∀ e, entry = some e →
      Known s.mesh.bucket (presenceKey botId) e.revision e.value :=
    fun e he => (h.mesh.operations i op hop).read round e (he ▸ hstage)
  have hok : ClaimMesh.StepOk mac network botId ttl s.mesh.bucket (inst i)
      ((s.mesh.procs i).readEntry mac network ttl (inst i) op.generation round now entry) :=
    (h.mesh.claims i).readEntry op.generation round now hentry
  have hpoised : Poised op.generation
      ((s.mesh.procs i).readEntry mac network ttl (inst i) op.generation round now entry) :=
    hback.underway.readEntry mac network ttl hop hstage (inst i) now
  cases entry with
  | none =>
    have hlearns : learns mac network botId ttl inst s.mesh (.read i now) = none := by
      simp [learns, hop, hstage]
    rw [(unlearned hlearns).1, (unlearned hlearns).2]
    exact h.perform i _ now hpoised hok (.inl rfl)
  | some e =>
    by_cases hvalid : validValue mac network ttl now e.value = true
    · have hlearns : learns mac network botId ttl inst s.mesh (.read i now) =
          some (i, ⟨e.revision, ownRecord mac network (inst i) e.value,
            op.generation = (s.mesh.procs i).generation, false⟩) := by
        simp [learns, hop, hstage, hvalid]
      simp only [noted, overtakes, hlearns]
      simp only [Claim.readEntry, hvalid, if_true] at hok hpoised ⊢
      have hlogged := h.logged.readings i op round e hop hstage
      have hown := ownRecord_of_valid (inst i) hvalid
      refine h.learn hok.1 hpoised.1 rfl ⟨e.value, hlogged, hown⟩ ?_
      refine verdict_read hback.underway hback.verdict hop hstage fun w hw hrev => ?_
      obtain ⟨v, hv, hvown⟩ := hback.known w (lastWatched_mem hw).1
      rw [hrev] at hv
      rw [hvown, hown, h.logged.unique hv hlogged]
    · have hlearns : learns mac network botId ttl inst s.mesh (.read i now) = none := by
        simp [learns, hop, hstage, hvalid]
      rw [(unlearned hlearns).1, (unlearned hlearns).2]
      refine h.perform i _ now hpoised hok (.inl ?_)
      simp [Claim.readEntry, hvalid]

/-- The answer to a write arrives. -/
theorem Justified.resume (h : Justified mac network botId ttl inst s) {i : ι} {now : ℚ}
    {op : Operation} (hop : (s.mesh.procs i).operation = some op) {a : Option ℕ}
    (ha : op.answer = some a) :
    Justified mac network botId ttl inst
      ⟨s.mesh.perform mac network botId i op.generation now
          ((s.mesh.procs i).resume op.generation op.stage a),
        s.noted mac network botId ttl inst (.resume i now), s.last,
        s.overtakes mac network botId ttl inst (.resume i now)⟩ := by
  have hback := h.backed i
  have hok : ClaimMesh.StepOk mac network botId ttl s.mesh.bucket (inst i)
      ((s.mesh.procs i).resume op.generation op.stage a) :=
    (h.mesh.claims i).resume op.generation op.stage fun r hr =>
      (h.mesh.operations i op hop).answered r (hr ▸ ha)
  have hpoised := hback.underway.resume hop a
  by_cases hstored : op.stage.stores = true ∧ a ≠ none
  · obtain ⟨hstage, hsome⟩ := hstored
    obtain ⟨r, rfl⟩ := Option.ne_none_iff_exists'.mp hsome
    have hlearns : learns mac network botId ttl inst s.mesh (.resume i now) =
        some (i, ⟨r, true, op.generation = (s.mesh.procs i).generation, false⟩) := by
      simp [learns, hop, hstage, ha]
    have hfinish := (resume_stored (s.mesh.procs i) op.generation hstage
      (hback.underway.phase op hop) r).1
    have hmove : s.mesh.perform mac network botId i op.generation now
        ((s.mesh.procs i).resume op.generation op.stage (some r)) =
          s.mesh.setProc i { ((s.mesh.procs i).resume op.generation op.stage (some r)).1 with
            operation := none } := by
      rw [← Prod.eta ((s.mesh.procs i).resume op.generation op.stage (some r)), hfinish]
      rfl
    simp only [noted, overtakes, hlearns, hmove]
    obtain ⟨v, hv, hinst⟩ := h.logged.answers i op r hop ha
    refine h.learn hok.1 hpoised.1 rfl ⟨v, hv, by simp [hinst]⟩ ?_
    exact verdict_stored hback.underway hback.verdict hop hstage ha
  · have hempty : op.stage.stores = false ∨ a = none := by
      by_contra hcon
      exact hstored (by simpa using hcon)
    have hlearns : learns mac network botId ttl inst s.mesh (.resume i now) = none := by
      rcases hempty with hstage | rfl
      · simp [learns, hop, hstage]
      · cases hstage : op.stage.stores <;> simp [learns, hop, hstage, ha]
    rw [(unlearned hlearns).1, (unlearned hlearns).2]
    exact h.perform i _ now hpoised hok (resume_empty _ _ _ hempty)

/-- The watch delivers an event. -/
theorem Justified.observe (h : Justified mac network botId ttl inst s) {i : ι} {n : ℕ} {now : ℚ}
    {m : ClaimMesh ι} (hadmits : s.admits (.observe i n now) = true)
    (hmesh : ClaimMesh.Inv mac network botId ttl inst m)
    (hst : ClaimMesh.step mac network botId ttl inst s.mesh (.observe i n now) = some m) :
    Justified mac network botId ttl inst
      ⟨m, s.noted mac network botId ttl inst (.observe i n now), s.delivered (.observe i n now),
        s.overtakes mac network botId ttl inst (.observe i n now)⟩ := by
  have hback := h.backed i
  simp only [ClaimMesh.step] at hst
  split at hst
  · rename_i revision d hn
    have hmem : (revision, some (.obj d)) ∈ s.mesh.events := List.mem_of_getElem? hn
    have hlast : s.last i ≤ revision := by simpa [admits, hn] using hadmits
    have hdelivered : s.delivered (.observe i n now) = Function.update s.last i revision := by
      simp [delivered, hn]
    rw [hdelivered]
    split_ifs at hst with hobs
    · obtain rfl := Option.some.inj hst
      set own : Bool := decide (text (lit "instance_id") d = some (inst i)) with hown
      have hlearns : learns mac network botId ttl inst s.mesh (.observe i n now) =
          some (i, ⟨revision, own, true, true⟩) := by
        simp [learns, hn, hobs, hown]
      simp only [noted, overtakes, hlearns, if_true]
      refine h.move hmesh (h.logged.setProc fun op hop => ?_) (fun x hx => hx) (i := i)
        (fun j hj => ?_) ?_
      · rw [Claim.observe_operation] at hop
        exact ⟨fun r hr => h.logged.answers i op r hop hr,
          fun round e he => h.logged.readings i op round e hop he⟩
      · exact ⟨Function.update_of_ne hj _ _, Function.update_of_ne hj _ _,
          Function.update_of_ne hj _ _, Function.update_of_ne hj _ _⟩
      · simp only [ClaimMesh.setProc, Function.update_self]
        exact hback.watch (e := ⟨revision, own, true, true⟩) rfl rfl hlast
          ⟨some (.obj d), hmem, hown.trans (decide_eq_decide.mpr Iff.rfl)⟩
    · obtain rfl := Option.some.inj hst
      have hlearns : learns mac network botId ttl inst s.mesh (.observe i n now) = none := by
        simp [learns, hn, hobs]
      simp only [noted, overtakes, hlearns]
      refine h.move hmesh h.logged (fun x hx => hx) (i := i) (fun j hj => ?_) ?_
      · exact ⟨rfl, rfl, Function.update_of_ne hj _ _, rfl⟩
      · simp only [Function.update_self]
        exact hback.still hlast hback.underway (.inl rfl)
  · simp at hst

theorem Justified.step (h : Justified mac network botId ttl inst s) {a : ClaimStep ι}
    (hst : step mac network botId ttl inst s a = some t) :
    Justified mac network botId ttl inst t := by
  unfold EvidenceMesh.step at hst
  split_ifs at hst with hadmits
  obtain ⟨m, hm, rfl⟩ := Option.map_eq_some_iff.mp hst
  have hmesh : ClaimMesh.Inv mac network botId ttl inst m := h.mesh.step hm
  cases a with
  | put i host nick user now =>
    exact h.start (f := fun c => c.put (presenceFields botId host (inst i) nick user))
      ((h.backed i).underway.put _ _) ((h.mesh.claims i).put rfl) (.inl (put_state _ _)) hm
  | reclaim i now =>
    exact h.start ((h.backed i).underway.reclaim _) (h.mesh.claims i).reclaim
      (.inl (reclaim_state _)) hm
  | expired i now =>
    exact h.start ((h.backed i).underway.expired _) (h.mesh.claims i).expired
      (expired_state _) hm
  | release i =>
    exact h.start (h.backed i).underway.release (h.mesh.claims i).release (release_state _) hm
  | observe i n now => exact h.observe hadmits hmesh hm
  | reset i => simp [admits] at hadmits
  | get i =>
    simp only [ClaimMesh.step] at hm
    split at hm
    · rename_i op hop
      split at hm
      · rename_i round hstage
        obtain rfl := Option.some.inj hm
        refine h.setProc hmesh (h.logged.setProc fun o ho => ?_) ?_ (.inl rfl)
        · obtain rfl := Option.some.inj ho
          refine ⟨fun r hr => h.logged.answers i op r hop hr, fun round' e he => ?_⟩
          exact (h.logged.current e (Stage.read.inj he).2).1
        · refine (h.backed i).underway.got hop hstage fun e he w hw => ?_
          obtain ⟨v, hv, -⟩ := (h.backed i).known w (lastWatched_mem hw).1
          exact (h.logged.current e he).2 _ hv
      · simp at hm
    · simp at hm
  | read i now =>
    simp only [ClaimMesh.step] at hm
    split at hm
    · rename_i op hop
      split at hm
      · rename_i round entry hstage
        obtain rfl := Option.some.inj hm
        exact h.read hop hstage
      · simp at hm
    · simp at hm
  | land n =>
    simp only [ClaimMesh.step] at hm
    split at hm
    · rename_i w hn
      obtain rfl := Option.some.inj hm
      have hw := h.mesh.writes w (List.mem_of_getElem? hn)
      have hdrop : Logged botId inst { s.mesh with net := s.mesh.net.eraseIdx n } :=
        h.logged.congr rfl rfl rfl
      obtain ⟨hkept, hprocs⟩ := execute_spec { s.mesh with net := s.mesh.net.eraseIdx n } w
      exact h.served hmesh (hdrop.execute hw) hkept hprocs
    · simp at hm
  | resume i now =>
    simp only [ClaimMesh.step] at hm
    split at hm
    · rename_i op hop
      split at hm
      · rename_i a ha
        obtain rfl := Option.some.inj hm
        exact h.resume hop ha
      · simp at hm
    · simp at hm
  | fail i =>
    simp only [ClaimMesh.step] at hm
    split at hm
    · split at hm
      · obtain rfl := Option.some.inj hm
        exact h.setProc hmesh (h.logged.setProc (by simp))
          (underway_idle rfl fun hstate => absurd hstate (reset_state_ne _)) (reset_state _)
      · obtain rfl := Option.some.inj hm
        exact h.setProc hmesh (h.logged.setProc (by simp))
          (underway_idle rfl (h.backed i).underway.revision) (.inl rfl)
    · simp at hm
  | cancel i =>
    obtain rfl := Option.some.inj hm
    exact h.setProc hmesh (h.logged.setProc (by simp))
      (underway_idle rfl (h.backed i).underway.revision) (.inl rfl)
  | forge k value =>
    obtain rfl := Option.some.inj hm
    by_cases hk : k = presenceKey botId
    · subst hk
      refine h.served hmesh ?_ ?_ fun i => .inl rfl
      · simpa using h.logged.write value
      · simp only [if_true]
        exact fun x hx => List.mem_cons_of_mem _ hx
    · refine h.served hmesh ?_ ?_ fun i => .inl rfl
      · simp only [if_neg hk]
        refine h.logged.extend (Nat.le_succ _) fun e he => ?_
        rwa [Store.write_entries_of_ne _ _ (Ne.symm hk)] at he
      · simp only [if_neg hk]
        exact fun x hx => hx
  | expire k =>
    obtain rfl := Option.some.inj hm
    exact h.served hmesh (h.logged.remove k) (fun x hx => hx) fun i => .inl rfl

end Steps

/-- In every run without disconnects a claim follows the evidence it applied last. Once
the watch has delivered the newest record the process knows of, it follows that record,
unless another instance's event found the claim a duplicate with an operation of its own
under way. -/
theorem follows_evidence (mac : Str → Str) (network botId : Str) (ttl : ℚ) (inst : ι → Str)
    (s : EvidenceMesh ι)
    (h : Machine.Reachable (step mac network botId ttl inst) (init botId inst) s) (i : ι) :
    ((s.mesh.procs i).state = .owned → ∃ e, lastApplied (s.seen i) = some e ∧ e.own = true) ∧
    ((s.mesh.procs i).state = .duplicate →
      ∃ e, lastApplied (s.seen i) = some e ∧ e.own = false) ∧
    ∀ e ∈ s.seen i, e.watched = true → Newest (s.seen i) e →
      ((s.mesh.procs i).state = .duplicate → e.own = false) ∧
      ((s.mesh.procs i).state = .owned → e.own = true ∨ s.overtaken i = true) := by
  have hjust : Justified mac network botId ttl inst s :=
    h.invariant (fun _ _ _ hj hst => hj.step hst) justified_init
  have hback := hjust.backed i
  refine ⟨hback.verdict.owned, hback.verdict.duplicate, fun e he hwatched hnewest => ?_⟩
  -- the newest record is the one observed last
  obtain ⟨w, hw⟩ : ∃ w, lastWatched (s.seen i) = some w :=
    Option.isSome_iff_exists.mp (List.find?_isSome.mpr ⟨e, he, hwatched⟩)
  have hrev : w.revision = e.revision :=
    le_antisymm (hnewest w (lastWatched_mem hw).1) (hback.latest w hw e he hwatched)
  have hsame : w.own = e.own := by
    obtain ⟨v, hv, hvown⟩ := hback.known w (lastWatched_mem hw).1
    obtain ⟨u, hu, huown⟩ := hback.known e he
    rw [hrev] at hv
    rw [hvown, huown, hjust.logged.unique hv hu]
  have hnew : Newest (s.seen i) w := fun f hf => (hnewest f hf).trans hrev.ge
  rw [← hsame]
  exact ⟨hback.verdict.yielded w hw hnew, hback.verdict.kept w hw hnew⟩

/-- Two processes with one bot ID. -/
def duel (as : List (ClaimStep Bool)) : Option (EvidenceMesh Bool) :=
  Machine.run (step (fun _ => List.replicate 64 48) (lit "net") (lit "Bot") 90
    fun b => cond b (lit "1") (lit "2")) (init (lit "Bot") fun b => cond b (lit "1") (lit "2")) as

/-- The first process at the end of a run. -/
def standing (s : EvidenceMesh Bool) : PresenceState × List Evidence :=
  ((s.mesh.procs true).state, s.seen true)

theorem duel_standing (as : List (ClaimStep Bool)) (state : PresenceState) (seen : List Evidence)
    (h : (duel as).map standing = some (state, seen)) :
    ∃ s, duel as = some s ∧ (s.mesh.procs true).state = state ∧ s.seen true = seen := by
  obtain ⟨s, hs, hview⟩ := Option.map_eq_some_iff.mp h
  exact ⟨s, hs, congrArg Prod.fst hview, congrArg Prod.snd hview⟩

/-- A record of the other instance expires; while the first one creates the key anew,
the event of that record arrives, and the answer to the write is discarded. -/
def lateEvent : List (ClaimStep Bool) :=
  [.put false (lit "h") (lit "m") (lit "u") 100, .land 0, .resume false 100,
    .expire (presenceKey (lit "Bot")), .put true (lit "h") (lit "n") (lit "u") 110, .land 0,
    .observe true 1 110, .resume true 111]

/-- The other instance took the key over; the event of the process's own old record
arrives after `reclaim` has read the other's. -/
def lateOwnEvent : List (ClaimStep Bool) :=
  [.put true (lit "h") (lit "n") (lit "u") 100, .land 0, .resume true 100,
    .expire (presenceKey (lit "Bot")), .put false (lit "h") (lit "m") (lit "u") 110, .land 0,
    .put true (lit "h") (lit "n") (lit "u") 111, .land 0, .resume true 111, .land 0,
    .resume true 111, .get true, .read true 112, .observe true 1 113]

/-- A duplicate creates the expired key, and loses it again before the answer arrives;
the other's new record finds it a duplicate still. -/
def overtakenWrite : List (ClaimStep Bool) :=
  [.put false (lit "h") (lit "m") (lit "u") 100, .land 0, .resume false 100,
    .observe true 0 101, .expire (presenceKey (lit "Bot")),
    .put true (lit "h") (lit "n") (lit "u") 110, .land 0, .expire (presenceKey (lit "Bot")),
    .put false (lit "h") (lit "m") (lit "u") 111, .land 0, .resume false 111, .land 0,
    .resume false 111, .observe true 0 112, .resume true 113]

theorem not_newest_evidence :
    (∃ s, duel lateEvent = some s ∧ (s.mesh.procs true).state = .duplicate ∧
      ∃ e ∈ s.seen true, e.own = true ∧ Newest (s.seen true) e) ∧
    (∃ s, duel lateOwnEvent = some s ∧ (s.mesh.procs true).state = .owned ∧
      ∃ e ∈ s.seen true, e.own = false ∧ Newest (s.seen true) e) ∧
    ∃ s, duel overtakenWrite = some s ∧ (s.mesh.procs true).state = .owned ∧
      ∃ e ∈ s.seen true, e.own = false ∧ e.watched = true ∧ Newest (s.seen true) e := by
  refine ⟨?_, ?_, ?_⟩
  · obtain ⟨s, hs, hstate, hseen⟩ := duel_standing lateEvent .duplicate
      [⟨3, true, false, false⟩, ⟨1, false, true, true⟩] (by decide +kernel)
    refine ⟨s, hs, hstate, ?_⟩
    rw [hseen]
    exact ⟨⟨3, true, false, false⟩, by simp, rfl, by simp [Newest]⟩
  · obtain ⟨s, hs, hstate, hseen⟩ := duel_standing lateOwnEvent .owned
      [⟨1, true, true, true⟩, ⟨3, false, true, false⟩, ⟨1, true, true, false⟩]
      (by decide +kernel)
    refine ⟨s, hs, hstate, ?_⟩
    rw [hseen]
    exact ⟨⟨3, false, true, false⟩, by simp, rfl, by simp [Newest]⟩
  · obtain ⟨s, hs, hstate, hseen⟩ := duel_standing overtakenWrite .owned
      [⟨3, true, true, false⟩, ⟨5, false, true, true⟩, ⟨1, false, true, true⟩]
      (by decide +kernel)
    refine ⟨s, hs, hstate, ?_⟩
    rw [hseen]
    exact ⟨⟨5, false, true, true⟩, by simp, rfl, rfl, by simp [Newest]⟩

/-- Once the other's own event arrives, the first process is a duplicate. -/
theorem follows_evidence_duel : ∃ s, duel (lateOwnEvent ++ [.observe true 0 114]) = some s ∧
    (s.mesh.procs true).state = .duplicate ∧
    (∃ e, lastApplied (s.seen true) = some e ∧ e.own = false) ∧
    ∃ e ∈ s.seen true, e.watched = true ∧ Newest (s.seen true) e ∧ e.own = false := by
  obtain ⟨s, hs, hstate, hseen⟩ := duel_standing
    (lateOwnEvent ++ [.observe true 0 114]) .duplicate [⟨3, false, true, true⟩,
      ⟨1, true, true, true⟩, ⟨3, false, true, false⟩, ⟨1, true, true, false⟩] (by decide +kernel)
  have hall := follows_evidence (fun _ => List.replicate 64 48) (lit "net") (lit "Bot") 90
    (fun b => cond b (lit "1") (lit "2")) s ⟨_, hs⟩ true
  have hmem : (⟨3, false, true, true⟩ : Evidence) ∈ s.seen true := by simp [hseen]
  have hnewest : Newest (s.seen true) ⟨3, false, true, true⟩ := by simp [Newest, hseen]
  exact ⟨s, hs, hstate, hall.2.1 hstate, _, hmem, rfl, hnewest,
    (hall.2.2 _ hmem rfl hnewest).1 hstate⟩

end EvidenceMesh

end Botnats
