import Botnats.Machine
import Botnats.Bucket
import Botnats.Signing
import Mathlib.Order.WithBot
import Mathlib.Data.Real.Basic

/-!
# The mesh-wide authentication limit

`AttemptStore.allow` reserves one of three slots per identity, each a key of a
shared bucket that holds the time of its last use. A call is a program counter
that moves at every await; its writes travel to the bucket on their own, so they
may land late, or after the call has already failed. The machine runs any number
of calls from any number of bots against one bucket.

The bucket may lose entries. Which entries is a parameter of the machine: the
limit holds when an entry is lost only once it is a window old for every reading
still to come, and fails when age is measured by the bucket's own clock.
-/
namespace Botnats

open Bucket

def attemptLimit : ℕ := 3

def attemptWindow : ℚ := 60

/-- `AttemptStore.key` -/
def attemptKey (mac : Str → Str) (identity : Str) (slot : ℕ) : Str :=
  signFields mac [lit "botnats-auth-attempt-v1", identity, decimal slot]

/-- A write under way: `create` when `last` is `none`, else `update`. -/
structure AttemptWrite where
  call : ℕ
  key : Str
  stamp : ℚ
  last : Option ℕ
  deriving DecidableEq

/-- Where a call waits. `written` is a write the bucket has answered. -/
inductive AttemptPc
  | opening
  | getting (slot : ℕ)
  | writing (slot : ℕ) (last : Option ℕ)
  | written (slot : ℕ) (landed : Bool)
  | returned (allowed : Bool)
  deriving DecidableEq

/-- One call of `allow`. `raised` records that an operation of it raised. -/
structure AttemptCall where
  identity : Str
  current : ℚ
  pc : AttemptPc
  raised : Bool := false
  deriving DecidableEq

/-- `continue` of the slot loop, or its end. -/
def nextSlot (slot : ℕ) : AttemptPc :=
  if slot + 1 < attemptLimit then .getting (slot + 1) else .returned false

/-- The loop body once `kv.get` has answered for `slot`: a missing key is
created; a value that does not read as a finite time, or a time still inside the
window, passes to the next slot; an older time is replaced by compare-and-set. -/
def allowGot (F : FloatText) (current : ℚ) (slot : ℕ) :
    Option (Entry (Option Str)) → AttemptPc
  | none => .writing slot none
  | some e =>
    match (e.value.bind F.fromhex).bind PyFloat.value with
    | none => nextSlot slot
    | some timestamp =>
      if current - attemptWindow < timestamp then nextSlot slot
      else .writing slot (some e.revision)

/-- The loop body once its write is answered. -/
def allowWrote (slot : ℕ) : Bool → AttemptPc
  | true => .returned true
  | false => nextSlot slot

namespace AttemptPc

/-- The call still runs. -/
def running : AttemptPc → Bool
  | .returned _ => false
  | _ => true

/-- A write of the call took effect and its answer says so. -/
def won : AttemptPc → Bool
  | .written _ landed => landed
  | .returned allowed => allowed
  | _ => false

/-- The loop only visits the slots below the limit. -/
def inRange : AttemptPc → Prop
  | .getting slot | .writing slot _ | .written slot _ => slot < attemptLimit
  | _ => True

end AttemptPc

theorem nextSlot_inRange (slot : ℕ) : (nextSlot slot).inRange := by
  unfold nextSlot
  split_ifs with h
  · exact h
  · trivial

@[simp] theorem nextSlot_won (slot : ℕ) : (nextSlot slot).won = false := by
  unfold nextSlot
  split_ifs <;> rfl

theorem nextSlot_ne_writing (slot j : ℕ) (last : Option ℕ) :
    nextSlot slot ≠ .writing j last := by
  unfold nextSlot
  split_ifs <;> simp

/-- After a read the call moves on, or it issues a write in the same slot: a
`create` of a missing key, or an update of a time at least a window old. -/
theorem allowGot_cases (F : FloatText) (current : ℚ) (slot : ℕ)
    (entry : Option (Entry (Option Str))) :
    allowGot F current slot entry = nextSlot slot ∨
    (entry = none ∧ allowGot F current slot entry = .writing slot none) ∨
    ∃ e timestamp, entry = some e ∧ (e.value.bind F.fromhex).bind PyFloat.value = some timestamp ∧
      timestamp + attemptWindow ≤ current ∧
      allowGot F current slot entry = .writing slot (some e.revision) := by
  rcases entry with _ | e
  · exact .inr (.inl ⟨rfl, rfl⟩)
  · simp only [allowGot]
    cases hv : (e.value.bind F.fromhex).bind PyFloat.value with
    | none => exact .inl rfl
    | some timestamp =>
      by_cases h : current - attemptWindow < timestamp
      · exact .inl (by simp [h])
      · exact .inr (.inr ⟨e, timestamp, rfl, hv, by linarith, by simp [h]⟩)

/-- One write that took effect, kept for the statements below. -/
structure Landing where
  call : ℕ
  key : Str
  stamp : ℚ

/-- All calls and the bucket. A call is named by its position; `landings` has
the newest first. `clock` and `writtenAt` are the bucket's own time; `horizon` is
below every reading of a call under way or still to come. -/
structure AttemptState where
  bucket : Store Str (Option Str)
  calls : List AttemptCall
  net : List AttemptWrite
  landings : List Landing
  clock : ℚ
  writtenAt : Str → ℚ
  horizon : WithBot ℚ

inductive AttemptAction
  | start (identity : Str) (current : ℚ) (available : Bool)
  | opened (i : ℕ)
  | get (i : ℕ)
  | land (n : ℕ)
  | reply (i : ℕ)
  | fail (i : ℕ)
  | tick (time : ℚ)
  | commit (horizon : ℚ)
  | lose (key : Str)

namespace AttemptState

def init : AttemptState :=
  ⟨Store.empty Str (Option Str), [], [], [], 0, fun _ => 0, ⊥⟩

/-- No write under way, and no call that still runs, is older than `h`. -/
def Committed (s : AttemptState) (h : ℚ) : Prop :=
  (∀ w ∈ s.net, h ≤ w.stamp) ∧ ∀ c ∈ s.calls, c.pc.running → h ≤ c.current

instance (s : AttemptState) (h : ℚ) : Decidable (s.Committed h) :=
  inferInstanceAs (Decidable (_ ∧ _))

section Step

variable (F : FloatText) (mac : Str → Str)

/-- The write a call waits for, if it waits for one. -/
def waiting (i : ℕ) (c : AttemptCall) : Option AttemptWrite :=
  match c.pc with
  | .writing slot last => some ⟨i, attemptKey mac c.identity slot, c.current, last⟩
  | _ => none

/-- A call moves on; a write it issues leaves for the bucket. -/
def goto (s : AttemptState) (i : ℕ) (c : AttemptCall) (pc : AttemptPc) : AttemptState :=
  let c := { c with pc := pc }
  { s with calls := s.calls.set i c, net := (waiting mac i c).toList ++ s.net }

/-- The bucket executes one write: the value is the encoded time of the call. -/
def submit (b : Store Str (Option Str)) (w : AttemptWrite) : Option (Store Str (Option Str)) :=
  match w.last with
  | none => b.create w.key (some (F.hex w.stamp))
  | some last => b.update w.key (some (F.hex w.stamp)) last

/-- The answer reaches the call if it still waits for this write. -/
def answer (s : AttemptState) (w : AttemptWrite) (landed : Bool) : AttemptState :=
  match s.calls[w.call]? with
  | some c =>
    match c.pc with
    | .writing slot _ =>
      if waiting mac w.call c = some w then
        { s with calls := s.calls.set w.call { c with pc := .written slot landed } }
      else s
    | _ => s
  | none => s

/-- One step. `loses s key` says that the bucket may lose the key's entry. -/
def step (loses : AttemptState → Str → Bool) (s : AttemptState) :
    AttemptAction → Option AttemptState
  | .start identity current available =>
    if s.horizon ≤ current then
      let pc := if available then .opening else .returned false
      some { s with calls := s.calls ++ [⟨identity, current, pc, false⟩] }
    else none
  | .opened i =>
    match s.calls[i]? with
    | some c => if c.pc = .opening then some (s.goto mac i c (.getting 0)) else none
    | none => none
  | .get i =>
    match s.calls[i]? with
    | some c =>
      match c.pc with
      | .getting slot =>
        some (s.goto mac i c
          (allowGot F c.current slot (s.bucket.entries (attemptKey mac c.identity slot))))
      | _ => none
    | none => none
  | .land n =>
    match s.net[n]? with
    | some w =>
      let s := { s with net := s.net.eraseIdx n }
      match submit F s.bucket w with
      | some b =>
        some (({ s with
          bucket := b
          landings := ⟨w.call, w.key, w.stamp⟩ :: s.landings
          writtenAt := Function.update s.writtenAt w.key s.clock } : AttemptState).answer mac w true)
      | none => some (s.answer mac w false)
    | none => none
  | .reply i =>
    match s.calls[i]? with
    | some c =>
      match c.pc with
      | .written slot landed => some (s.goto mac i c (allowWrote slot landed))
      | _ => none
    | none => none
  | .fail i =>
    match s.calls[i]? with
    | some c =>
      if c.pc.running then
        some { s with calls := s.calls.set i { c with pc := .returned false, raised := true } }
      else none
    | none => none
  | .tick time => if s.clock ≤ time then some { s with clock := time } else none
  | .commit h => if s.horizon ≤ h ∧ s.Committed h then some { s with horizon := h } else none
  | .lose key =>
    if (s.bucket.entries key).isSome ∧ loses s key then
      some { s with bucket := s.bucket.remove key }
    else none

end Step

/-- The time an entry holds. -/
def stampOf (F : FloatText) (s : AttemptState) (key : Str) : Option ℚ :=
  (s.bucket.entries key).bind fun e => (e.value.bind F.fromhex).bind PyFloat.value

/-- The entry is a window old for every reading still to come. -/
def outdated (F : FloatText) (s : AttemptState) (key : Str) : Bool :=
  match stampOf F s key with
  | some stamp => decide (((stamp + attemptWindow : ℚ) : WithBot ℚ) ≤ s.horizon)
  | none => false

/-- The entry was written a window ago by the bucket's clock. -/
def agedOut (s : AttemptState) (key : Str) : Bool :=
  decide (s.writtenAt key + attemptWindow ≤ s.clock)

/-! ## The invariant -/

section Invariant

variable {F : FloatText} {mac : Str → Str}

/-- Every write under way was justified when it was issued, and every write that
took effect left its time where the next one must clear it by a window. -/
structure Inv (F : FloatText) (mac : Str → Str) (s : AttemptState) : Prop where
  inRange : ∀ c ∈ s.calls, c.pc.inRange
  running : ∀ c ∈ s.calls, c.pc.running → s.horizon ≤ c.current
  issued : ∀ w ∈ s.net, s.horizon ≤ w.stamp
  justified : ∀ w ∈ s.net, ∀ r, w.last = some r → ∃ stamp,
    Known s.bucket w.key r (some (F.hex stamp)) ∧ stamp + attemptWindow ≤ w.stamp
  held : ∀ key e, s.bucket.entries key = some e → ∃ stamp, e.value = some (F.hex stamp) ∧
    ∀ l ∈ s.landings, l.key = key → l.stamp ≤ stamp
  absent : ∀ key, s.bucket.entries key = none → ∀ l ∈ s.landings, l.key = key →
    ((l.stamp + attemptWindow : ℚ) : WithBot ℚ) ≤ s.horizon
  spaced : s.landings.Pairwise fun new old =>
    new.key = old.key → old.stamp + attemptWindow ≤ new.stamp
  won : ∀ i c, s.calls[i]? = some c → c.pc.won → ∃ slot < attemptLimit,
    ⟨i, attemptKey mac c.identity slot, c.current⟩ ∈ s.landings
  denied : ∀ c ∈ s.calls, c.raised → c.pc = .returned false

theorem inv_init : Inv F mac init where
  inRange := by simp [init]
  running := by simp [init]
  issued := by simp [init]
  justified := by simp [init]
  held := by simp [init]
  absent := by simp [init]
  spaced := by simp [init]
  won := by simp [init]
  denied := by simp [init]

/-- What a call may move to: a position in range that claims no new success, and
whose write, if it issues one, is justified by what the bucket holds. -/
structure Allowed (F : FloatText) (mac : Str → Str) (s : AttemptState) (i : ℕ)
    (c : AttemptCall) (pc : AttemptPc) : Prop where
  inRange : pc.inRange
  won : pc.won → c.pc.won
  raised : c.raised = false
  justified : ∀ w, waiting mac i { c with pc := pc } = some w → ∀ r, w.last = some r →
    ∃ stamp, Known s.bucket w.key r (some (F.hex stamp)) ∧ stamp + attemptWindow ≤ w.stamp

theorem waiting_eq_some {i : ℕ} {c : AttemptCall} {w : AttemptWrite} :
    waiting mac i c = some w ↔ ∃ slot, c.pc = .writing slot w.last ∧ w.call = i ∧
      w.key = attemptKey mac c.identity slot ∧ w.stamp = c.current := by
  rcases w with ⟨call, key, stamp, last⟩
  cases hpc : c.pc with
  | writing slot last' =>
    simp only [waiting, hpc, Option.some.injEq, AttemptWrite.mk.injEq, AttemptPc.writing.injEq]
    constructor
    · rintro ⟨rfl, rfl, rfl, rfl⟩
      exact ⟨slot, ⟨rfl, rfl⟩, rfl, rfl, rfl⟩
    · rintro ⟨_, ⟨rfl, rfl⟩, rfl, rfl, rfl⟩
      exact ⟨rfl, rfl, rfl, rfl⟩
  | _ => simp [waiting, hpc]

/-- A call that moves to an allowed position keeps the invariant. -/
theorem Inv.goto {s : AttemptState} (h : Inv F mac s) {i : ℕ} {c : AttemptCall}
    {pc : AttemptPc} (hc : s.calls[i]? = some c) (hrun : c.pc.running)
    (ha : Allowed F mac s i c pc) : Inv F mac (s.goto mac i c pc) where
  inRange := by
    intro d hd
    rcases List.mem_or_eq_of_mem_set hd with hd | rfl
    · exact h.inRange d hd
    · exact ha.inRange
  running := by
    intro d hd hdr
    rcases List.mem_or_eq_of_mem_set hd with hd | rfl
    · exact h.running d hd hdr
    · exact h.running c (List.mem_of_getElem? hc) hrun
  issued := by
    intro w hw
    rcases List.mem_append.mp hw with hw | hw
    · obtain ⟨slot, _, _, _, hstamp⟩ := waiting_eq_some.mp (Option.mem_toList.mp hw)
      rw [hstamp]
      exact h.running c (List.mem_of_getElem? hc) hrun
    · exact h.issued w hw
  justified := by
    intro w hw r hr
    rcases List.mem_append.mp hw with hw | hw
    · exact ha.justified w (Option.mem_toList.mp hw) r hr
    · exact h.justified w hw r hr
  held := h.held
  absent := h.absent
  spaced := h.spaced
  won := by
    intro j d hd hdw
    by_cases hij : i = j
    · subst hij
      obtain rfl : d = { c with pc := pc } := by
        have hlt := (List.getElem?_eq_some_iff.mp hc).1
        simpa [AttemptState.goto, List.getElem?_set, hlt, eq_comm] using hd
      exact h.won i c hc (ha.won hdw)
    · refine h.won j d ?_ hdw
      simpa [AttemptState.goto, List.getElem?_set, hij] using hd
  denied := by
    intro d hd hdr
    rcases List.mem_or_eq_of_mem_set hd with hd | rfl
    · exact h.denied d hd hdr
    · simp [ha.raised] at hdr

/-- No running call has raised. -/
theorem Inv.raised_of_running {s : AttemptState} (h : Inv F mac s) {c : AttemptCall}
    (hc : c ∈ s.calls) (hrun : c.pc.running) : c.raised = false := by
  by_contra hr
  have hpc := h.denied c hc (by simpa using hr)
  simp [hpc, AttemptPc.running] at hrun

/-- The position after a read is allowed. -/
theorem Inv.allowed_got {s : AttemptState} (h : Inv F mac s) {i : ℕ} {c : AttemptCall}
    {slot : ℕ} (hc : s.calls[i]? = some c) (hpc : c.pc = .getting slot) :
    Allowed F mac s i c
      (allowGot F c.current slot (s.bucket.entries (attemptKey mac c.identity slot))) := by
  have hmem := List.mem_of_getElem? hc
  have hslot : slot < attemptLimit := by simpa [hpc, AttemptPc.inRange] using h.inRange c hmem
  have hraised := h.raised_of_running hmem (by simp [hpc, AttemptPc.running])
  rcases allowGot_cases F c.current slot (s.bucket.entries (attemptKey mac c.identity slot))
    with hg | ⟨_, hg⟩ | ⟨e, stamp, he, hv, hold, hg⟩
  · rw [hg]
    refine ⟨nextSlot_inRange slot, by simp, hraised, ?_⟩
    intro w hw
    obtain ⟨j, hj, _⟩ := waiting_eq_some.mp hw
    exact absurd hj (nextSlot_ne_writing slot j _)
  · rw [hg]
    refine ⟨hslot, by simp [AttemptPc.won], hraised, ?_⟩
    intro w hw r hr
    obtain ⟨j, hj, _⟩ := waiting_eq_some.mp hw
    simp [hr] at hj
  · rw [hg]
    refine ⟨hslot, by simp [AttemptPc.won], hraised, ?_⟩
    intro w hw r hr
    obtain ⟨j, hj, _, hkey, hstamp⟩ := waiting_eq_some.mp hw
    simp only [AttemptPc.writing.injEq] at hj
    obtain ⟨rfl, hlast⟩ := hj
    obtain ⟨held, hheld, _⟩ := h.held _ e he
    rw [hheld] at hv
    simp only [Option.bind_some, F.fromhex_hex, PyFloat.value, Option.some.injEq] at hv
    subst hv
    have hrev : e.revision = r := by simpa [hr] using hlast
    refine ⟨held, ?_, by rw [hstamp]; exact hold⟩
    rw [hkey, ← hrev, ← hheld]
    exact Known.of_entry he

/-- A write that takes effect clears every earlier one on its key by a window. -/
theorem Inv.clear {s : AttemptState} (h : Inv F mac s) {w : AttemptWrite} (hw : w ∈ s.net)
    {b : Store Str (Option Str)} (hb : submit F s.bucket w = some b) :
    b = s.bucket.write w.key (some (F.hex w.stamp)) ∧
      ∀ l ∈ s.landings, l.key = w.key → l.stamp + attemptWindow ≤ w.stamp := by
  cases hlast : w.last with
  | none =>
    obtain ⟨hnone, rfl⟩ := Store.create_eq_some.mp (by simpa [submit, hlast] using hb)
    refine ⟨rfl, fun l hl hk => ?_⟩
    have := (h.absent w.key hnone l hl hk).trans (h.issued w hw)
    exact WithBot.coe_le_coe.mp this
  | some r =>
    obtain ⟨hrev, rfl⟩ := Store.update_eq_some.mp (by simpa [submit, hlast] using hb)
    refine ⟨rfl, fun l hl hk => ?_⟩
    obtain ⟨stamp, hknown, hold⟩ := h.justified w hw r hlast
    obtain ⟨stamp', hval, hle⟩ := h.held w.key _ (hknown.current hrev)
    obtain rfl : stamp = stamp' := F.hex_injective (by simpa using hval)
    exact (add_le_add_left (hle l hl hk) attemptWindow).trans hold

/-- The bucket after a write took effect, before its answer travels. -/
theorem Inv.landed {s : AttemptState} (h : Inv F mac s) {n : ℕ} {w : AttemptWrite}
    (hn : s.net[n]? = some w) {b : Store Str (Option Str)} (hb : submit F s.bucket w = some b) :
    Inv F mac { s with
      bucket := b
      net := s.net.eraseIdx n
      landings := ⟨w.call, w.key, w.stamp⟩ :: s.landings
      writtenAt := Function.update s.writtenAt w.key s.clock } := by
  have hw := List.mem_of_getElem? hn
  obtain ⟨rfl, hclear⟩ := h.clear hw hb
  refine {
    inRange := h.inRange
    running := h.running
    issued := fun v hv => h.issued v (List.mem_of_mem_eraseIdx hv)
    justified := ?_
    held := ?_
    absent := ?_
    spaced := ?_
    won := ?_
    denied := h.denied }
  · intro v hv r hr
    obtain ⟨stamp, hknown, hold⟩ := h.justified v (List.mem_of_mem_eraseIdx hv) r hr
    exact ⟨stamp, hknown.write _ _, hold⟩
  · intro key e he
    by_cases hk : key = w.key
    · subst hk
      obtain rfl : _ = e := by simpa using he
      refine ⟨w.stamp, rfl, fun l hl hlk => ?_⟩
      rcases List.mem_cons.mp hl with rfl | hl
      · exact le_rfl
      · have := hclear l hl hlk
        simp only [attemptWindow] at this
        linarith
    · simp only [s.bucket.write_entries_of_ne _ hk] at he
      obtain ⟨stamp, hval, hle⟩ := h.held key e he
      refine ⟨stamp, hval, fun l hl hlk => ?_⟩
      rcases List.mem_cons.mp hl with rfl | hl
      · exact absurd hlk.symm hk
      · exact hle l hl hlk
  · intro key hnone l hl hlk
    by_cases hk : key = w.key
    · subst hk
      simp at hnone
    · simp only [s.bucket.write_entries_of_ne _ hk] at hnone
      rcases List.mem_cons.mp hl with rfl | hl
      · exact absurd hlk.symm hk
      · exact h.absent key hnone l hl hlk
  · exact List.pairwise_cons.mpr ⟨fun l hl hk => hclear l hl hk.symm, h.spaced⟩
  · intro i c hc hcw
    obtain ⟨slot, hslot, hmem⟩ := h.won i c hc hcw
    exact ⟨slot, hslot, List.mem_cons_of_mem _ hmem⟩

/-- The answer of a write that landed is on record. -/
theorem Inv.answer {s : AttemptState} (h : Inv F mac s) {w : AttemptWrite} {landed : Bool}
    (hl : landed = true → ⟨w.call, w.key, w.stamp⟩ ∈ s.landings) :
    Inv F mac (s.answer mac w landed) := by
  unfold AttemptState.answer
  split
  · rename_i c hc
    split
    · rename_i slot last hpc
      split_ifs with hw
      · have hmem := List.mem_of_getElem? hc
        have hrun : c.pc.running := by simp [hpc, AttemptPc.running]
        obtain ⟨j, hj, _, hkey, hstamp⟩ := waiting_eq_some.mp hw
        obtain ⟨rfl, _⟩ : j = slot ∧ _ := by simpa [hpc, eq_comm] using hj
        have hslot : j < attemptLimit := by simpa [hpc, AttemptPc.inRange] using h.inRange c hmem
        refine {
          inRange := ?_, running := ?_, issued := h.issued, justified := h.justified
          held := h.held, absent := h.absent, spaced := h.spaced, won := ?_, denied := ?_ }
        · intro d hd
          rcases List.mem_or_eq_of_mem_set hd with hd | rfl
          · exact h.inRange d hd
          · exact hslot
        · intro d hd hdr
          rcases List.mem_or_eq_of_mem_set hd with hd | rfl
          · exact h.running d hd hdr
          · exact h.running c hmem hrun
        · intro i d hd hdw
          by_cases hi : w.call = i
          · subst hi
            obtain rfl : d = { c with pc := .written j landed } := by
              have hlt := (List.getElem?_eq_some_iff.mp hc).1
              simpa [List.getElem?_set, hlt, eq_comm] using hd
            exact ⟨j, hslot, by simpa [← hkey, ← hstamp] using hl hdw⟩
          · exact h.won i d (by simpa [List.getElem?_set, hi] using hd) hdw
        · intro d hd hdr
          rcases List.mem_or_eq_of_mem_set hd with hd | rfl
          · exact h.denied d hd hdr
          · simp [h.raised_of_running hmem hrun] at hdr
      · exact h
    · exact h
  · exact h

theorem allowWrote_inRange (slot : ℕ) (landed : Bool) : (allowWrote slot landed).inRange := by
  cases landed with
  | true => trivial
  | false => exact nextSlot_inRange slot

theorem allowWrote_ne_writing (slot j : ℕ) (landed : Bool) (last : Option ℕ) :
    allowWrote slot landed ≠ .writing j last := by
  cases landed with
  | true => simp [allowWrote]
  | false => exact nextSlot_ne_writing slot j last

/-- The position after an answered write is allowed. -/
theorem Inv.allowed_wrote {s : AttemptState} (h : Inv F mac s) {i : ℕ} {c : AttemptCall}
    {slot : ℕ} {landed : Bool} (hc : s.calls[i]? = some c) (hpc : c.pc = .written slot landed) :
    Allowed F mac s i c (allowWrote slot landed) := by
  have hraised := h.raised_of_running (List.mem_of_getElem? hc) (by simp [hpc, AttemptPc.running])
  refine ⟨allowWrote_inRange slot landed, ?_, hraised, ?_⟩
  · intro hwon
    cases landed with
    | true => simp [hpc, AttemptPc.won]
    | false => simp [allowWrote] at hwon
  · intro w hw
    obtain ⟨j, hj, _⟩ := waiting_eq_some.mp hw
    exact absurd hj (allowWrote_ne_writing slot j landed _)

/-- A new call has not written yet. -/
theorem Inv.start {s : AttemptState} (h : Inv F mac s) {c : AttemptCall}
    (hle : s.horizon ≤ c.current) (hpc : c.pc = .opening ∨ c.pc = .returned false)
    (hraised : c.raised = false) : Inv F mac { s with calls := s.calls ++ [c] } := by
  have hwon : c.pc.won = false := by
    rcases hpc with hpc | hpc <;> simp [hpc, AttemptPc.won]
  refine { h with inRange := ?_, running := ?_, won := ?_, denied := ?_ }
  · intro d hd
    rcases List.mem_append.mp hd with hd | hd
    · exact h.inRange d hd
    · obtain rfl := List.mem_singleton.mp hd
      rcases hpc with hpc | hpc <;> simp [hpc, AttemptPc.inRange]
  · intro d hd hdr
    rcases List.mem_append.mp hd with hd | hd
    · exact h.running d hd hdr
    · obtain rfl := List.mem_singleton.mp hd
      exact hle
  · intro i d hd hdw
    rw [List.getElem?_append] at hd
    split_ifs at hd with hi
    · exact h.won i d hd hdw
    · obtain rfl := List.mem_singleton.mp (List.mem_of_getElem? hd)
      simp [hwon] at hdw
  · intro d hd hdr
    rcases List.mem_append.mp hd with hd | hd
    · exact h.denied d hd hdr
    · obtain rfl := List.mem_singleton.mp hd
      simp [hraised] at hdr

/-- A call in which an operation raised returns false. -/
theorem Inv.fail {s : AttemptState} (h : Inv F mac s) {i : ℕ} {c : AttemptCall} :
    Inv F mac { s with calls := s.calls.set i { c with pc := .returned false, raised := true } } := by
  refine { h with inRange := ?_, running := ?_, won := ?_, denied := ?_ }
  · intro d hd
    rcases List.mem_or_eq_of_mem_set hd with hd | rfl
    · exact h.inRange d hd
    · trivial
  · intro d hd hdr
    rcases List.mem_or_eq_of_mem_set hd with hd | rfl
    · exact h.running d hd hdr
    · simp [AttemptPc.running] at hdr
  · intro j d hd hdw
    rw [List.getElem?_set] at hd
    split_ifs at hd with hij hlt
    · obtain rfl := Option.some.inj hd
      simp [AttemptPc.won] at hdw
    · exact h.won j d hd hdw
  · intro d hd hdr
    rcases List.mem_or_eq_of_mem_set hd with hd | rfl
    · exact h.denied d hd hdr
    · rfl

/-- Readings still to come only get later. -/
theorem Inv.commit {s : AttemptState} (h : Inv F mac s) {time : ℚ} (hle : s.horizon ≤ time)
    (hc : s.Committed time) : Inv F mac { s with horizon := time } where
  inRange := h.inRange
  running := fun c hm hr => WithBot.coe_le_coe.mpr (hc.2 c hm hr)
  issued := fun w hw => WithBot.coe_le_coe.mpr (hc.1 w hw)
  justified := h.justified
  held := h.held
  absent := fun key hnone l hl hk => (h.absent key hnone l hl hk).trans hle
  spaced := h.spaced
  won := h.won
  denied := h.denied

/-- An outdated entry may go: every write that landed on its key is outdated too. -/
theorem Inv.lose {s : AttemptState} (h : Inv F mac s) {key : Str}
    (hsome : (s.bucket.entries key).isSome) (hout : outdated F s key) :
    Inv F mac { s with bucket := s.bucket.remove key } := by
  obtain ⟨e, he⟩ := Option.isSome_iff_exists.mp hsome
  obtain ⟨stamp, hval, hle⟩ := h.held key e he
  have hstamp : stampOf F s key = some stamp := by
    simp [stampOf, he, hval, F.fromhex_hex, PyFloat.value]
  have hold : ((stamp + attemptWindow : ℚ) : WithBot ℚ) ≤ s.horizon := by
    simp only [outdated, hstamp] at hout
    exact of_decide_eq_true hout
  refine { h with justified := ?_, held := ?_, absent := ?_ }
  · intro w hw r hr
    obtain ⟨stamp', hknown, hold'⟩ := h.justified w hw r hr
    exact ⟨stamp', hknown.remove key, hold'⟩
  · intro k e' he'
    by_cases hk : k = key
    · subst hk
      simp at he'
    · simp only [s.bucket.remove_entries_of_ne hk] at he'
      exact h.held k e' he'
  · intro k hnone l hl hlk
    by_cases hk : k = key
    · subst hk
      have hls := add_le_add_left (hle l hl hlk) attemptWindow
      exact (WithBot.coe_le_coe.mpr hls).trans hold
    · simp only [s.bucket.remove_entries_of_ne hk] at hnone
      exact h.absent k hnone l hl hlk

/-- Every step keeps the invariant. -/
theorem Inv.step {s t : AttemptState} {a : AttemptAction} (h : Inv F mac s)
    (hst : step F mac (outdated F) s a = some t) : Inv F mac t := by
  cases a with
  | start identity current available =>
    simp only [AttemptState.step, Option.ite_none_right_eq_some] at hst
    obtain ⟨hle, hst⟩ := hst
    obtain rfl := Option.some.inj hst
    refine h.start hle ?_ rfl
    cases available with
    | true => exact .inl rfl
    | false => exact .inr rfl
  | opened i =>
    simp only [AttemptState.step] at hst
    split at hst
    · rename_i c hc
      split_ifs at hst with hpc
      obtain rfl := Option.some.inj hst
      have hrun : c.pc.running := by simp [hpc, AttemptPc.running]
      refine h.goto hc hrun ⟨by simp [AttemptPc.inRange, attemptLimit], by simp [AttemptPc.won],
        h.raised_of_running (List.mem_of_getElem? hc) hrun, ?_⟩
      intro w hw
      simp [waiting] at hw
    · simp at hst
  | get i =>
    simp only [AttemptState.step] at hst
    split at hst
    · rename_i c hc
      split at hst
      · rename_i slot hpc
        obtain rfl := Option.some.inj hst
        exact h.goto hc (by simp [hpc, AttemptPc.running]) (h.allowed_got hc hpc)
      · simp at hst
    · simp at hst
  | land n =>
    simp only [AttemptState.step] at hst
    split at hst
    · rename_i w hn
      split at hst
      · rename_i b hb
        obtain rfl := Option.some.inj hst
        exact (h.landed hn hb).answer fun _ => List.mem_cons_self
      · obtain rfl := Option.some.inj hst
        have hdrop : Inv F mac { s with net := s.net.eraseIdx n } := {
          h with
          issued := fun v hv => h.issued v (List.mem_of_mem_eraseIdx hv)
          justified := fun v hv => h.justified v (List.mem_of_mem_eraseIdx hv) }
        exact hdrop.answer (by simp)
    · simp at hst
  | reply i =>
    simp only [AttemptState.step] at hst
    split at hst
    · rename_i c hc
      split at hst
      · rename_i slot landed hpc
        obtain rfl := Option.some.inj hst
        exact h.goto hc (by simp [hpc, AttemptPc.running]) (h.allowed_wrote hc hpc)
      · simp at hst
    · simp at hst
  | fail i =>
    simp only [AttemptState.step] at hst
    split at hst
    · split_ifs at hst with hrun
      obtain rfl := Option.some.inj hst
      exact h.fail
    · simp at hst
  | tick time =>
    simp only [AttemptState.step] at hst
    split_ifs at hst with hle
    obtain rfl := Option.some.inj hst
    exact { h with }
  | commit time =>
    simp only [AttemptState.step] at hst
    split_ifs at hst with hc
    obtain rfl := Option.some.inj hst
    exact h.commit hc.1 hc.2
  | lose key =>
    simp only [AttemptState.step] at hst
    split_ifs at hst with hl
    obtain rfl := Option.some.inj hst
    exact h.lose hl.1 hl.2

/-- Two writes on one key whose times share a window are one write. -/
theorem Inv.landing_unique {s : AttemptState} (h : Inv F mac s) {l m : Landing}
    (hl : l ∈ s.landings) (hm : m ∈ s.landings) (hk : l.key = m.key)
    (hlm : l.stamp < m.stamp + attemptWindow) (hml : m.stamp < l.stamp + attemptWindow) :
    l = m := by
  by_contra hne
  obtain ⟨i, hi, rfl⟩ := List.mem_iff_getElem.mp hl
  obtain ⟨j, hj, rfl⟩ := List.mem_iff_getElem.mp hm
  have hij : i ≠ j := by
    intro hij
    subst hij
    exact hne rfl
  have hpair := List.pairwise_iff_getElem.mp h.spaced
  rcases Nat.lt_or_gt_of_ne hij with hlt | hlt
  · have := hpair i j hi hj hlt hk
    linarith
  · have := hpair j i hj hi hlt hk.symm
    linarith

end Invariant

/-- Call `i` was made for `identity` at a time in the window `(t - 60, t]` and
returned true. -/
def Granted (s : AttemptState) (identity : Str) (t : ℝ) (i : ℕ) : Prop :=
  ∃ c, s.calls[i]? = some c ∧ c.identity = identity ∧ c.pc = .returned true ∧
    t - 60 < c.current ∧ (c.current : ℝ) ≤ t

section Limit

variable {F : FloatText} {mac : Str → Str} {s : AttemptState}

/-- A granted call holds one of the slots of its identity. -/
theorem Inv.slot (h : Inv F mac s) {identity : Str} {t : ℝ} {i : ℕ}
    (hg : Granted s identity t i) : ∃ slot, slot < attemptLimit ∧ ∃ stamp : ℚ,
      ⟨i, attemptKey mac identity slot, stamp⟩ ∈ s.landings ∧ t - 60 < stamp ∧ (stamp : ℝ) ≤ t := by
  obtain ⟨c, hc, rfl, hpc, hlo, hhi⟩ := hg
  obtain ⟨slot, hslot, hmem⟩ := h.won i c hc (by simp [hpc, AttemptPc.won])
  exact ⟨slot, hslot, c.current, hmem, hlo, hhi⟩

/-- Two granted calls with one slot are one call. -/
theorem Inv.slot_inj (h : Inv F mac s) {key : Str} {t : ℝ} {i j : ℕ} {p q : ℚ}
    (hi : ⟨i, key, p⟩ ∈ s.landings) (hj : ⟨j, key, q⟩ ∈ s.landings)
    (hp : t - 60 < p ∧ (p : ℝ) ≤ t) (hq : t - 60 < q ∧ (q : ℝ) ≤ t) : i = j := by
  have hpq : p < q + attemptWindow := by
    have : (p : ℝ) < ((q + 60 : ℚ) : ℝ) := by
      push_cast
      linarith [hp.2, hq.1]
    exact_mod_cast this
  have hqp : q < p + attemptWindow := by
    have : (q : ℝ) < ((p + 60 : ℚ) : ℝ) := by
      push_cast
      linarith [hq.2, hp.1]
    exact_mod_cast this
  have heq := h.landing_unique hi hj rfl hpq hqp
  exact congrArg Landing.call heq

theorem Inv.limit (h : Inv F mac s) (identity : Str) (t : ℝ) :
    {i | Granted s identity t i}.encard ≤ attemptLimit := by
  choose! slot hslot using fun i (hi : Granted s identity t i) => h.slot hi
  have hmaps : Set.MapsTo slot {i | Granted s identity t i} (Finset.range attemptLimit) := by
    intro i hi
    simpa using (hslot i hi).1
  have hinj : Set.InjOn slot {i | Granted s identity t i} := by
    intro i hi j hj hij
    obtain ⟨_, p, hp, hpt⟩ := hslot i hi
    obtain ⟨_, q, hq, hqt⟩ := hslot j hj
    rw [hij] at hp
    exact h.slot_inj hp hq hpt hqt
  calc {i | Granted s identity t i}.encard
      ≤ (Finset.range attemptLimit : Set ℕ).encard := Set.encard_le_encard_of_injOn hmaps hinj
    _ = attemptLimit := by rw [Set.encard_coe_eq_coe_finsetCard, Finset.card_range]

end Limit

/-- In every run in which the bucket only loses outdated entries, at most three
calls of an identity with a time in one window returned true, and a call in
which an operation raised returned false. -/
theorem allow_limit (F : FloatText) (mac : Str → Str) (s : AttemptState)
    (h : Machine.Reachable (step F mac (outdated F)) init s) :
    (∀ identity (t : ℝ), {i | Granted s identity t i}.encard ≤ attemptLimit) ∧
      ∀ c ∈ s.calls, c.raised → c.pc = .returned false := by
  have hinv : Inv F mac s :=
    h.invariant (fun _ _ _ hi hst => hi.step hst) inv_init
  exact ⟨hinv.limit, hinv.denied⟩

/-- Four calls at one reading, the reads of all before the writes of any. -/
def fourCalls : List AttemptAction :=
  [.start (lit "u@h") 0 true, .start (lit "u@h") 0 true, .start (lit "u@h") 0 true,
    .start (lit "u@h") 0 true, .opened 0, .opened 1, .opened 2, .opened 3,
    .get 0, .get 1, .get 2, .get 3, .land 0, .land 0, .land 0, .land 0,
    .reply 3, .reply 2, .reply 1, .reply 0,
    .get 2, .get 1, .get 0, .land 0, .land 0, .land 0, .reply 2, .reply 1, .reply 0,
    .get 1, .get 2, .land 0, .land 0, .reply 1, .reply 2]

theorem allow_limit_four : ∃ s,
    Machine.run (step unaryFloatText id (outdated unaryFloatText)) init fourCalls = some s ∧
    s.calls.map AttemptCall.pc =
      [.returned true, .returned false, .returned true, .returned true] ∧
    (∀ identity (t : ℝ), {i | Granted s identity t i}.encard ≤ attemptLimit) ∧
      ∀ c ∈ s.calls, c.raised → c.pc = .returned false := by
  have hrun : (Machine.run (step unaryFloatText id (outdated unaryFloatText)) init fourCalls).map
      (fun s => s.calls.map AttemptCall.pc) =
      some [.returned true, .returned false, .returned true, .returned true] := by
    decide +kernel
  obtain ⟨s, hs, hcalls⟩ := Option.map_eq_some_iff.mp hrun
  exact ⟨s, hs, hcalls, allow_limit unaryFloatText id s ⟨fourCalls, hs⟩⟩

/-- A call that goes through the slots below `slot` and lands in `slot`. -/
def oneCall (i slot : ℕ) : List AttemptAction :=
  [.start (lit "u@h") 0 true, .opened i] ++ List.replicate (slot + 1) (.get i) ++
    [.land 0, .reply i]

/-- Three calls fill the slots; a window later by the bucket's clock the first
slot is gone, and a caller whose clock still reads the same time takes it. -/
def slowClock : List AttemptAction :=
  oneCall 0 0 ++ oneCall 1 1 ++ oneCall 2 2 ++
    [.tick 60, .lose (attemptKey id (lit "u@h") 0)] ++ oneCall 3 0

theorem not_allow_limit_agedOut : ¬ ∀ (F : FloatText) (mac : Str → Str) (s : AttemptState),
    Machine.Reachable (step F mac agedOut) init s →
      (∀ identity (t : ℝ), {i | Granted s identity t i}.encard ≤ attemptLimit) ∧
        ∀ c ∈ s.calls, c.raised → c.pc = .returned false := by
  intro hall
  have hrun : (Machine.run (step unaryFloatText id agedOut) init slowClock).map
      AttemptState.calls = some (List.replicate 4 ⟨lit "u@h", 0, .returned true, false⟩) := by
    decide +kernel
  obtain ⟨s, hs, hcalls⟩ := Option.map_eq_some_iff.mp hrun
  have hle := (hall unaryFloatText id s ⟨slowClock, hs⟩).1 (lit "u@h") 0
  have hsub : (Finset.range 4 : Set ℕ) ⊆ {i | Granted s (lit "u@h") 0 i} := by
    intro i hi
    have hlt : i < 4 := by simpa using hi
    refine ⟨⟨lit "u@h", 0, .returned true, false⟩, ?_, rfl, rfl, by norm_num, by norm_num⟩
    rw [hcalls, List.getElem?_replicate, if_pos hlt]
  have hcard := (Set.encard_le_encard hsub).trans hle
  rw [Set.encard_coe_eq_coe_finsetCard, Finset.card_range] at hcard
  have : (4 : ℕ) ≤ 3 := by exact_mod_cast hcard
  omega

end AttemptState
end Botnats
