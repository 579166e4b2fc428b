import Botnats.PresenceClaim

/-!
# Ownership across the awaits of a claim

One `PresenceClaim` and whatever its store answers. The call that holds the lock stands at
one of its four awaits, and the watch and disconnects change the claim meanwhile. Every
change of ownership and every reset moves the generation, which is how an answer finds out
that it comes too late.
-/
namespace Botnats

/-- The awaits of `PresenceClaim`, by the store operation -/
inductive Awaiting
  | update
  | create
  | reclaim
  | delete
  deriving DecidableEq

inductive ClaimOp
  | put
  | reclaim
  | expired
  | release
  deriving DecidableEq

/-- The call that holds the lock, with the generation its write or claim began at. `since`
counts the resets up to then; `overtaken` notes a change of the state, or a reset, while
the first update is under way. -/
structure ClaimCall where
  op : ClaimOp
  awaiting : Awaiting
  generation : ℕ
  since : ℕ
  overtaken : Bool

/-- A `put` that returned without raising -/
structure PutReturn where
  owned : Bool
  overtaken : Bool
  deriving DecidableEq

structure ClaimRun where
  claim : Claim
  call : Option ClaimCall
  resets : ℕ
  returned : List PutReturn

/-- A call begins when it takes the lock. `answer` is what the store returns, `fail` an
exception that is passed on; a delete is answered also where `release` suppresses one.
`release` resets the claim without a write unless it is owned. -/
inductive ClaimEvent
  | put (presence : Fields)
  | reclaim
  | expired
  | release
  | answer (revision : Option ℕ)
  | fail
  | observe (own : Bool) (revision : ℕ)
  | reset

/-- The claim and what the call does next, once the store has answered -/
def ClaimCall.resumed (k : ClaimCall) (c : Claim) (answer : Option ℕ) : Claim × Next :=
  match k.awaiting with
  | .update => c.resume k.generation .updating answer
  | .create => c.resume k.generation .creating answer
  | .reclaim => (c.settle k.generation answer, .finish)
  | .delete => c.resume k.generation .deleting none

namespace ClaimRun

def init (botId instanceId : Str) : ClaimRun := ⟨Claim.init botId instanceId, none, 0, []⟩

/-- The call goes on to its next await, or to its end. Behind a claim `put` requires
ownership; behind its first update it does not. -/
def proceed (s : ClaimRun) (k : ClaimCall) : Next → ClaimRun
  | .refresh _ => { s with call := some { k with
      awaiting := .update, generation := s.claim.generation, since := s.resets } }
  | .claim => { s with call := some { k with
      awaiting := .create
      generation := s.claim.generation
      since := s.resets
      overtaken := false } }
  | .delete _ => { s with call := some { k with
      awaiting := .delete, generation := s.claim.generation, since := s.resets } }
  | .get _ => { s with call := some { k with awaiting := .reclaim } }
  | _ => { s with
      call := none
      returned :=
        if k.op = .put ∧ (k.awaiting = .update ∨ s.claim.owned = true) then
          s.returned ++ [⟨s.claim.owned, k.overtaken⟩]
        else s.returned }

/-- Begin a call while the lock is free. -/
def start (s : ClaimRun) (op : ClaimOp) (p : Claim × Next) (resets : ℕ) : Option ClaimRun :=
  if s.call.isNone then
    some (({ s with claim := p.1, resets := resets } : ClaimRun).proceed
      ⟨op, .create, p.1.generation, resets, false⟩ p.2)
  else none

/-- The claim changes while the call that holds the lock waits. -/
def meanwhile (s : ClaimRun) (c : Claim) (resets : ℕ) : ClaimRun :=
  { s with
    claim := c
    resets := resets
    call := s.call.map fun k =>
      if k.awaiting = .update ∧ (c.state ≠ s.claim.state ∨ resets ≠ s.resets) then
        { k with overtaken := true }
      else k }

variable (botId : Str)

def step (s : ClaimRun) : ClaimEvent → Option ClaimRun
  | .put presence =>
    if Json.text (lit "bot_id") presence = some botId then
      s.start .put (s.claim.put presence) s.resets
    else some s
  | .reclaim => s.start .reclaim s.claim.reclaim s.resets
  | .expired => s.start .expired s.claim.expired s.resets
  | .release =>
    s.start .release s.claim.release
      (if s.claim.owned = true ∧ s.claim.revision.isSome then s.resets else s.resets + 1)
  | .answer revision =>
    match s.call with
    | none => none
    | some k =>
      let p := k.resumed s.claim revision
      let resets := if k.awaiting = .delete then s.resets + 1 else s.resets
      some (({ s with claim := p.1, resets := resets } : ClaimRun).proceed k p.2)
  | .fail => if s.call.isSome then some { s with call := none } else none
  | .observe own revision => some (s.meanwhile (s.claim.observe own revision) s.resets)
  | .reset => some (s.meanwhile s.claim.reset (s.resets + 1))

/-! ## The invariant -/

/-- The claim is owned at a revision, or not owned and at none. -/
def Paired (c : Claim) : Prop := c.state = .owned ↔ c.revision.isSome = true

/-- The call has not run ahead of the claim. A reset since its write or its claim began has
moved the generation, and so has a change of the state since its first update did. -/
structure CallOk (c : Claim) (resets : ℕ) (k : ClaimCall) : Prop where
  generation : k.generation ≤ c.generation
  since : k.since ≤ resets
  stale : k.since < resets → k.generation < c.generation
  current : k.awaiting = .update → k.overtaken = false →
    k.generation = c.generation ∧ c.state = .owned
  overtaken : k.awaiting = .update → k.overtaken = true → k.generation < c.generation

structure Inv (s : ClaimRun) : Prop where
  paired : Paired s.claim
  call : ∀ k, s.call = some k → CallOk s.claim s.resets k
  returned : ∀ r ∈ s.returned, r.owned = true ∨ r.overtaken = true

variable {botId : Str} {s t : ClaimRun} {c d : Claim} {k : ClaimCall}

theorem owned_iff : c.owned = true ↔ c.state = .owned := decide_eq_true_iff

theorem paired_transition {state : PresenceState} {revision : Option ℕ}
    (h : state = .owned ↔ revision.isSome = true) : Paired (c.transition state revision) := h

theorem paired_reset (c : Claim) : Paired c.reset := by
  have hstate : c.reset.state ≠ .owned := by
    unfold Claim.reset
    dsimp only
    split_ifs with howned
    · simp
    · exact fun heq => howned (owned_iff.mpr heq)
  exact iff_of_false hstate (by simp [Claim.reset])

theorem paired_observe (c : Claim) (own : Bool) (revision : ℕ) :
    Paired (c.observe own revision) := by
  unfold Claim.observe
  split_ifs
  · exact paired_transition (by simp)
  · exact paired_transition (by simp)

theorem paired_settle (h : Paired c) (generation : ℕ) (revision : Option ℕ) :
    Paired (c.settle generation revision) := by
  unfold Claim.settle
  split_ifs
  · exact h
  · cases revision with
    | none => exact paired_transition (by simp)
    | some revision => exact paired_transition (by simp)

/-- A transition moves the generation exactly if it changes the state. -/
theorem observe_generation (c : Claim) (own : Bool) (revision : ℕ) :
    (c.observe own revision).generation =
      if (c.observe own revision).state ≠ c.state then c.generation + 1 else c.generation := by
  cases own <;> rfl

/-- The call keeps up with a change of the claim that moves the generation with the state
and with every reset. -/
theorem Inv.meanwhile (h : Inv s) {resets : ℕ} (hpaired : Paired c)
    (hle : s.claim.generation ≤ c.generation) (hresets : s.resets ≤ resets)
    (hmoved : c.state ≠ s.claim.state ∨ resets ≠ s.resets → s.claim.generation < c.generation)
    (hsame : c.state = s.claim.state → resets = s.resets → c.generation = s.claim.generation) :
    Inv (s.meanwhile c resets) := by
  refine ⟨hpaired, fun k hk => ?_, h.returned⟩
  obtain ⟨k, hk', rfl⟩ := Option.map_eq_some_iff.mp hk
  have hcall := h.call k hk'
  have hstale : k.since < resets → k.generation < c.generation := by
    intro hlt
    by_cases hreset : resets = s.resets
    · exact (hcall.stale (hreset ▸ hlt)).trans_le hle
    · exact hcall.generation.trans_lt (hmoved (.inr hreset))
  change CallOk c resets _
  split_ifs with hchange
  · refine ⟨hcall.generation.trans hle, hcall.since.trans hresets, hstale, by simp, fun _ _ => ?_⟩
    exact hcall.generation.trans_lt (hmoved hchange.2)
  · refine ⟨hcall.generation.trans hle, hcall.since.trans hresets, hstale, fun hupdate hfresh => ?_,
      fun hupdate hover => (hcall.overtaken hupdate hover).trans_le hle⟩
    obtain ⟨hstate, hreset⟩ := not_or.mp fun hor => hchange ⟨hupdate, hor⟩
    obtain ⟨heq, howned⟩ := hcall.current hupdate hfresh
    rw [not_not] at hstate hreset
    exact ⟨heq.trans (hsame hstate hreset).symm, hstate.trans howned⟩

/-- What a call needs to go on: ownership for an update, itself for the next await of the
same claim, and one of the two grounds of a `put` to return behind its update. -/
def Ready (s : ClaimRun) (k : ClaimCall) : Next → Prop
  | .refresh _ => s.claim.state = .owned ∧ k.overtaken = false
  | .claim => True
  | .delete _ => True
  | .get _ => CallOk s.claim s.resets k
  | _ => k.awaiting = .update → s.claim.state = .owned ∨ k.overtaken = true

theorem inv_proceed {next : Next} (hpaired : Paired s.claim)
    (hreturned : ∀ r ∈ s.returned, r.owned = true ∨ r.overtaken = true)
    (hready : Ready s k next) : Inv (s.proceed k next) := by
  have hbegin : ∀ awaiting overtaken, (awaiting = .update →
      s.claim.state = .owned ∧ overtaken = false) →
      CallOk s.claim s.resets ⟨k.op, awaiting, s.claim.generation, s.resets, overtaken⟩ := by
    intro awaiting overtaken hupdate
    refine ⟨le_rfl, le_rfl, fun h => absurd h (lt_irrefl _), fun hu _ => ⟨rfl, (hupdate hu).1⟩, ?_⟩
    intro hu hover
    rw [(hupdate hu).2] at hover
    simp at hover
  have hend : (k.awaiting = .update → s.claim.state = .owned ∨ k.overtaken = true) →
      ∀ r ∈ (if k.op = .put ∧ (k.awaiting = .update ∨ s.claim.owned = true) then
        s.returned ++ [⟨s.claim.owned, k.overtaken⟩] else s.returned),
      r.owned = true ∨ r.overtaken = true := by
    intro hgrounds r hr
    split_ifs at hr with hput
    · rcases List.mem_append.mp hr with hr | hr
      · exact hreturned r hr
      · rw [List.mem_singleton.mp hr]
        rcases hput.2 with hupdate | howned
        · exact (hgrounds hupdate).imp owned_iff.mpr id
        · exact .inl howned
    · exact hreturned r hr
  cases next with
  | refresh last =>
    refine ⟨hpaired, fun k' hk => ?_, hreturned⟩
    obtain rfl := Option.some.inj hk
    exact hbegin _ _ fun _ => hready
  | claim =>
    refine ⟨hpaired, fun k' hk => ?_, hreturned⟩
    obtain rfl := Option.some.inj hk
    exact hbegin _ _ (by simp)
  | delete last =>
    refine ⟨hpaired, fun k' hk => ?_, hreturned⟩
    obtain rfl := Option.some.inj hk
    exact hbegin _ _ (by simp)
  | get round =>
    refine ⟨hpaired, fun k' hk => ?_, hreturned⟩
    obtain rfl := Option.some.inj hk
    exact ⟨hready.generation, hready.since, hready.stale, by simp, by simp⟩
  | finish => exact ⟨hpaired, by simp [proceed], hend hready⟩
  | recreate round => exact ⟨hpaired, by simp [proceed], hend hready⟩
  | overwrite round last judged => exact ⟨hpaired, by simp [proceed], hend hready⟩

/-- A call that begins may go on. -/
theorem Inv.start (h : Inv s) {op : ClaimOp} {p : Claim × Next} {resets : ℕ}
    (hpaired : Paired p.1) (hnext : ∀ last, p.2 = .refresh last → p.1.state = .owned)
    (hget : ∀ round, p.2 ≠ .get round) (hstart : s.start op p resets = some t) : Inv t := by
  unfold ClaimRun.start at hstart
  split_ifs at hstart
  obtain rfl := Option.some.inj hstart
  refine inv_proceed hpaired h.returned ?_
  obtain ⟨c, next⟩ := p
  cases next with
  | refresh last => exact ⟨hnext last rfl, rfl⟩
  | claim => exact trivial
  | delete last => exact trivial
  | get round => exact absurd rfl (hget round)
  | finish => simp [Ready]
  | recreate round => simp [Ready]
  | overwrite round last judged => simp [Ready]

theorem Inv.put (h : Inv s) {presence : Fields} {resets : ℕ}
    (hstart : s.start .put (s.claim.put presence) resets = some t) : Inv t := by
  refine h.start ?_ ?_ ?_ hstart <;> unfold Claim.put <;> dsimp only <;> split
  · exact h.paired
  · exact h.paired
  · rename_i howned _
    exact fun _ _ => owned_iff.mp howned
  · simp
  · simp
  · simp

theorem Inv.reclaim (h : Inv s) {resets : ℕ}
    (hstart : s.start .reclaim s.claim.reclaim resets = some t) : Inv t := by
  refine h.start ?_ ?_ ?_ hstart <;> unfold Claim.reclaim <;> split_ifs
  · exact h.paired
  · exact h.paired
  all_goals simp

theorem Inv.expired (h : Inv s) {resets : ℕ}
    (hstart : s.start .expired s.claim.expired resets = some t) : Inv t := by
  refine h.start ?_ (by simp [Claim.expired]) (by simp [Claim.expired]) hstart
  unfold Claim.expired
  dsimp only
  split_ifs
  · exact paired_transition (by simp)
  · exact h.paired

theorem Inv.release (h : Inv s) {resets : ℕ}
    (hstart : s.start .release s.claim.release resets = some t) : Inv t := by
  refine h.start ?_ ?_ ?_ hstart <;> unfold Claim.release <;> split
  · exact h.paired
  · exact paired_reset s.claim
  all_goals simp

/-- A call whose generation has passed changes nothing, unless its end is a reset. -/
theorem resumed_stale (hstale : k.generation < c.generation) (answer : Option ℕ) :
    (k.resumed c answer).1 = c ∨ k.awaiting = .delete ∧ (k.resumed c answer).1 = c.reset := by
  have hne : k.generation ≠ c.generation := hstale.ne
  unfold ClaimCall.resumed
  cases hawaiting : k.awaiting with
  | update => cases answer <;> simp [Claim.resume, hne]
  | create => cases answer <;> simp [Claim.resume, Claim.settle, hne]
  | reclaim => simp [Claim.settle, hne]
  | delete => exact .inr ⟨rfl, rfl⟩

/-- The first update was overtaken, or it finds the claim owned and its generation kept. -/
theorem CallOk.update_cases {resets : ℕ} (h : CallOk c resets k) (hupdate : k.awaiting = .update) :
    (k.generation ≠ c.generation ∧ k.overtaken = true) ∨
    (k.generation = c.generation ∧ c.state = .owned) := by
  cases hover : k.overtaken with
  | true => exact .inl ⟨(h.overtaken hupdate hover).ne, rfl⟩
  | false => exact .inr (h.current hupdate hover)

/-- The claim stays paired, and the call may go on. -/
theorem Inv.answer (h : Inv s) (hk : s.call = some k) (answer : Option ℕ) :
    Inv (({ s with
      claim := (k.resumed s.claim answer).1
      resets := if k.awaiting = .delete then s.resets + 1 else s.resets } : ClaimRun).proceed k
        (k.resumed s.claim answer).2) := by
  have hcall := h.call k hk
  unfold ClaimCall.resumed
  cases hawaiting : k.awaiting with
  | update =>
    rcases hcall.update_cases hawaiting with ⟨hpast, hover⟩ | ⟨hgeneration, howned⟩
    · have heq : s.claim.resume k.generation .updating answer = (s.claim, .finish) := by
        cases answer <;> simp [Claim.resume, hpast]
      simp only [heq]
      exact inv_proceed h.paired h.returned fun _ => .inr hover
    · cases answer with
      | some revision =>
        simp only [Claim.resume, hgeneration, ne_eq, not_true, if_false]
        exact inv_proceed (iff_of_true howned rfl) h.returned fun _ => .inl howned
      | none =>
        simp only [Claim.resume, hgeneration, ne_eq, not_true, if_false]
        exact inv_proceed (paired_transition (by simp)) h.returned trivial
  | create =>
    cases answer with
    | some revision =>
      exact inv_proceed (paired_settle h.paired _ _) h.returned
        fun hupdate => absurd (hawaiting.symm.trans hupdate) (by simp)
    | none => exact inv_proceed h.paired h.returned hcall
  | reclaim =>
    exact inv_proceed (paired_settle h.paired _ _) h.returned
      fun hupdate => absurd (hawaiting.symm.trans hupdate) (by simp)
  | delete =>
    exact inv_proceed (paired_reset s.claim) h.returned
      fun hupdate => absurd (hawaiting.symm.trans hupdate) (by simp)

theorem inv_init (botId instanceId : Str) : Inv (init botId instanceId) where
  paired := iff_of_false (by simp [init, Claim.init]) (by simp [init, Claim.init])
  call := by simp [init]
  returned := by simp [init]

theorem Inv.step (h : Inv s) {e : ClaimEvent} (hstep : step botId s e = some t) : Inv t := by
  cases e with
  | put presence =>
    simp only [ClaimRun.step] at hstep
    split_ifs at hstep
    · exact h.put hstep
    · obtain rfl := Option.some.inj hstep
      exact h
  | reclaim => exact h.reclaim hstep
  | expired => exact h.expired hstep
  | release => exact h.release hstep
  | answer revision =>
    simp only [ClaimRun.step] at hstep
    split at hstep
    · cases hstep
    · rename_i k hk
      obtain rfl := Option.some.inj hstep
      exact h.answer hk revision
  | fail =>
    simp only [ClaimRun.step] at hstep
    split_ifs at hstep
    obtain rfl := Option.some.inj hstep
    exact ⟨h.paired, by simp, h.returned⟩
  | observe own revision =>
    obtain rfl := Option.some.inj hstep
    have hgeneration := observe_generation s.claim own revision
    refine h.meanwhile (paired_observe _ _ _) ?_ le_rfl (fun hchange => ?_) fun hsame _ => ?_
    · rw [hgeneration]
      split_ifs <;> omega
    · rw [hgeneration, if_pos (hchange.resolve_right (by simp))]
      omega
    · rw [hgeneration, if_neg (by simpa using hsame)]
  | reset =>
    obtain rfl := Option.some.inj hstep
    have hgeneration : s.claim.reset.generation = s.claim.generation + 1 := rfl
    exact h.meanwhile (paired_reset _) (by omega) (by omega) (fun _ => by omega)
      fun _ hsame => by omega

/-- Across its awaits the claim is owned exactly while it has a revision, an answer to what
began before a reset gives it neither, and a `put` returns owning the key, unless its own
first update was overtaken. -/
theorem ownership_consistent (botId instanceId : Str) (s : ClaimRun)
    (hs : Machine.Reachable (step botId) (init botId instanceId) s) :
    (s.claim.state = .owned ↔ s.claim.revision.isSome = true) ∧
    (∀ k answer t, s.call = some k → k.since < s.resets →
      step botId s (.answer answer) = some t →
      (t.claim.state = .owned → s.claim.state = .owned) ∧
        ∀ r, t.claim.revision = some r → s.claim.revision = some r) ∧
    ∀ r ∈ s.returned, r.owned = true ∨ r.overtaken = true := by
  have hinv : Inv s := hs.invariant (fun _ _ _ h hstep => h.step hstep)
    (inv_init botId instanceId)
  refine ⟨hinv.paired, fun k answer t hk hreset hstep => ?_, hinv.returned⟩
  have hclaim : t.claim = (k.resumed s.claim answer).1 := by
    simp only [step, hk] at hstep
    obtain rfl := Option.some.inj hstep
    generalize (k.resumed s.claim answer).2 = next
    cases next <;> rfl
  rcases resumed_stale ((hinv.call k hk).stale hreset) answer with hsame | ⟨-, hreset⟩
  · rw [hclaim, hsame]
    exact ⟨id, fun r hr => hr⟩
  · rw [hclaim, hreset]
    have hpaired := paired_reset s.claim
    refine ⟨fun howned => ?_, fun r hr => ?_⟩
    · simpa [Claim.reset] using hpaired.mp howned
    · simp [Claim.reset] at hr

/-- A `put` whose update is overtaken by a disconnect returns without the key, and one that
begins before a disconnect leaves nothing of its claim. -/
def disconnects : List ClaimEvent :=
  [.put (presenceFields (lit "a") [] [] [] []), .answer (some 1),
    .put (presenceFields (lit "a") [] [] [] []), .reset, .answer (some 2), .reclaim,
    .answer none, .reset]

theorem ownership_consistent_disconnects : ∃ s t,
    Machine.run (step (lit "a")) (init (lit "a") (lit "i")) disconnects = some s ∧
    s.returned = [⟨true, false⟩, ⟨false, true⟩] ∧
    step (lit "a") s (.answer (some 3)) = some t ∧
    (s.claim.state = .owned ↔ s.claim.revision.isSome = true) ∧
    ∀ r, t.claim.revision = some r → s.claim.revision = some r := by
  have hrun : (Machine.run (step (lit "a")) (init (lit "a") (lit "i")) disconnects).any (fun s =>
      decide (s.returned = [⟨true, false⟩, ⟨false, true⟩]) &&
        s.call.any fun k => decide (k.since < s.resets)) = true := by
    decide +kernel
  obtain ⟨s, hs, hfacts⟩ := (Option.any_eq_true _ _).mp hrun
  obtain ⟨hreturned, hwaits⟩ := Bool.and_eq_true_iff.mp hfacts
  obtain ⟨k, hk, hsince⟩ := (Option.any_eq_true _ _).mp hwaits
  obtain ⟨hpaired, hstale, -⟩ := ownership_consistent (lit "a") (lit "i") s ⟨disconnects, hs⟩
  have hstep : ∃ t, step (lit "a") s (.answer (some 3)) = some t := by
    simp only [step, hk]
    exact ⟨_, rfl⟩
  obtain ⟨t, ht⟩ := hstep
  exact ⟨s, t, hs, of_decide_eq_true hreturned, ht, hpaired,
    (hstale k (some 3) t hk (of_decide_eq_true hsince) ht).2⟩

end ClaimRun

end Botnats
