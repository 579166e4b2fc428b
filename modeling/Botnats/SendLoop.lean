import Botnats.Machine
import Botnats.Text
import Botnats.TokenBucket

/-!
# The sender of an IRC connection

`send` and `send_loop` of `IRCClient`, with one event for each of the loop's waits. The
waits end at any time that the clock has reached, a sleep no sooner than it is due.
-/
namespace Botnats

open Tokens

def sendBurst : ℚ := 4

def sendRate : ℚ := 1

def outboundLimit : ℕ := 64

/-- What the loop waits for. A line that was taken from the queue is in the hands of the
sleeping loop. -/
inductive SendPhase
  | getting
  | sleeping (encoded : List Byte) (due : ℚ)
  | sending
  | ended
  deriving DecidableEq

/-- A line that went to `send_immediate`: when it left the queue and the tokens that there
were then, and when it was released. -/
structure Release where
  encoded : List Byte
  taken : ℚ
  available : ℚ
  time : ℚ
  deriving DecidableEq

/-- The loop of one connection. `queued` and `released` record what went in and out. -/
structure SendLoop where
  clock : ℚ
  outbound : List (List Byte)
  level : Level ℚ
  phase : SendPhase
  queued : List (List Byte)
  released : List Release

namespace SendLoop

def init (now : ℚ) : SendLoop := ⟨now, [], ⟨sendBurst, now⟩, .getting, [], []⟩

/-- `send` of an encoded line, `connected` as far as the writer goes -/
def send (s : SendLoop) (connected : Bool) (encoded : List Byte) : Except Str SendLoop :=
  if connected = false ∨ s.phase = .ended then .error (lit "IRC is not connected")
  else if outboundLimit ≤ s.outbound.length then .error (lit "IRC outbound queue is full")
  else .ok { s with outbound := s.outbound ++ [encoded], queued := s.queued ++ [encoded] }

/-- The call of `send_immediate`, with the tokens that are left -/
def release (s : SendLoop) (encoded : List Byte) (taken available now tokens : ℚ) : SendLoop :=
  { s with
    clock := now
    level := ⟨tokens, now⟩
    phase := .sending
    released := s.released ++ [⟨encoded, taken, available, now⟩] }

/-- The loop from `outbound.get` to its next wait -/
def take (s : SendLoop) (now : ℚ) (encoded : List Byte) (rest : List (List Byte)) : SendLoop :=
  let level := refill sendBurst sendRate s.level now
  let s := { s with outbound := rest }
  if level.tokens < 1 then
    { s with
      clock := now
      level
      phase := .sleeping encoded (now + (1 - level.tokens) / sendRate) }
  else s.release encoded now level.tokens now (level.tokens - 1)

/-- What happens at a connection. `sent` ends the call of `send_immediate`, with an error if
it is `false`; `cancel` is that of `stop_sender`. -/
inductive Event
  | send (connected : Bool) (encoded : List Byte)
  | get (now : ℚ)
  | wake (now : ℚ)
  | sent (now : ℚ) (ok : Bool)
  | cancel

def step (s : SendLoop) : Event → Option SendLoop
  | .send connected encoded =>
    match s.send connected encoded with
    | .ok t => some t
    | .error _ => some s
  | .get now =>
    match s.phase, s.outbound with
    | .getting, encoded :: rest => if s.clock ≤ now then some (s.take now encoded rest) else none
    | _, _ => none
  | .wake now =>
    match s.phase with
    | .sleeping encoded due =>
      if s.clock ≤ now ∧ due ≤ now then
        some (s.release encoded s.level.updated s.level.tokens now 0)
      else none
    | _ => none
  | .sent now ok =>
    match s.phase with
    | .sending =>
      if s.clock ≤ now then
        some { s with clock := now, phase := if ok then .getting else .ended }
      else none
    | _ => none
  | .cancel => some { s with phase := .ended }

/-- The line that the sleeping loop holds -/
def inHand (s : SendLoop) : List (List Byte) :=
  match s.phase with
  | .sleeping encoded _ => [encoded]
  | _ => []

/-- The times of the releases -/
def times (s : SendLoop) : List ℚ := s.released.map Release.time

def lines (s : SendLoop) : List (List Byte) := s.released.map Release.encoded

/-- The bucket pays for the releases, the lines stand in the order of the queue, and only a
line without a token is delayed. -/
structure Inv (s : SendLoop) : Prop where
  covers : Covers sendBurst sendRate s.level s.times
  clock : s.level.updated ≤ s.clock
  due : ∀ encoded due, s.phase = .sleeping encoded due →
    s.level.tokens < 1 ∧ due = s.level.updated + (1 - s.level.tokens) / sendRate
  order : s.phase ≠ .ended → s.queued = s.lines ++ s.inHand ++ s.outbound
  released : s.lines <+: s.queued
  delayed : ∀ r ∈ s.released, r.available < 1 ∨ r.time = r.taken

variable {s t : SendLoop} {now : ℚ} {encoded : List Byte} {rest : List (List Byte)}

theorem sendRate_nonneg : 0 ≤ sendRate := by norm_num [sendRate]

theorem inv_init (now : ℚ) : Inv (init now) where
  covers := covers_full (by norm_num [sendBurst]) sendRate_nonneg now
  clock := le_rfl
  due := by simp [init]
  order _ := rfl
  released := List.prefix_rfl
  delayed := by simp [init]

/-- A release keeps the invariant if the bucket pays for it. -/
theorem inv_release {taken available tokens : ℚ}
    (hcovers : Covers sendBurst sendRate ⟨tokens, now⟩ (s.times ++ [now]))
    (horder : s.queued = s.lines ++ encoded :: s.outbound)
    (hdelayed : ∀ r ∈ s.released, r.available < 1 ∨ r.time = r.taken)
    (hnew : available < 1 ∨ now = taken) :
    Inv (s.release encoded taken available now tokens) where
  covers := by simpa [times, release] using hcovers
  clock := le_rfl
  due := by simp [release]
  order _ := by simp [release, lines, inHand, horder]
  released := by simp [release, lines, horder]
  delayed := by
    intro r hr
    rcases List.mem_append.mp hr with hr | hr
    · exact hdelayed r hr
    · rw [List.mem_singleton.mp hr]
      exact hnew

theorem Inv.send (h : Inv s) {connected : Bool} (hsend : s.send connected encoded = .ok t) :
    Inv t := by
  unfold SendLoop.send at hsend
  split_ifs at hsend
  obtain rfl := Except.ok.inj hsend
  refine ⟨h.covers, h.clock, h.due, fun hrunning => ?_, ?_, h.delayed⟩
  · simp only [h.order hrunning, ← List.append_assoc]
    rfl
  · exact h.released.trans (List.prefix_append _ _)

/-- A line that leaves the queue is released at once if there is a token for it. -/
theorem Inv.take (h : Inv s) (hphase : s.phase = .getting) (hout : s.outbound = encoded :: rest)
    (hclock : s.clock ≤ now) : Inv (s.take now encoded rest) := by
  have hcovers := h.covers.refill sendRate_nonneg (h.clock.trans hclock)
  have horder : s.queued = s.lines ++ encoded :: rest := by
    rw [h.order (by simp [hphase]), inHand, hphase, hout, List.append_nil]
  unfold SendLoop.take
  dsimp only
  split_ifs with htokens
  · refine ⟨hcovers, le_rfl, ?_, fun _ => ?_, h.released, h.delayed⟩
    · rintro held due hsleep
      obtain ⟨-, rfl⟩ := SendPhase.sleeping.inj hsleep
      exact ⟨htokens, rfl⟩
    · exact horder.trans (List.append_cons _ _ _)
  · exact inv_release (s := { s with outbound := rest })
      (hcovers.spend sendRate_nonneg (not_lt.mp htokens)) horder h.delayed (.inr rfl)

/-- The sleep has paid for the line that was held. -/
theorem Inv.wake (h : Inv s) {due : ℚ} (hphase : s.phase = .sleeping encoded due)
    (hclock : s.clock ≤ now) (hdue : due ≤ now) :
    Inv (s.release encoded s.level.updated s.level.tokens now 0) := by
  obtain ⟨htokens, heq⟩ := h.due encoded due hphase
  have hwait : 1 ≤ s.level.tokens + (now - s.level.updated) * sendRate := by
    rw [heq, sendRate, div_one] at hdue
    rw [sendRate, mul_one]
    linarith
  refine inv_release ?_ ?_ h.delayed (.inl htokens)
  · exact h.covers.wait sendRate_nonneg (by norm_num [sendBurst]) (h.clock.trans hclock) hwait
  · rw [h.order (by simp [hphase]), inHand, hphase, List.append_assoc, List.singleton_append]

theorem Inv.step (h : Inv s) {e : Event} (hstep : step s e = some t) : Inv t := by
  cases e with
  | send connected encoded =>
    simp only [SendLoop.step] at hstep
    split at hstep
    · rename_i hsend
      obtain rfl := Option.some.inj hstep
      exact h.send hsend
    · obtain rfl := Option.some.inj hstep
      exact h
  | get now =>
    simp only [SendLoop.step] at hstep
    split at hstep
    · rename_i encoded rest hphase hout
      split_ifs at hstep with hclock
      obtain rfl := Option.some.inj hstep
      exact h.take hphase hout hclock
    · cases hstep
  | wake now =>
    simp only [SendLoop.step] at hstep
    split at hstep
    · rename_i encoded due hphase
      split_ifs at hstep with hclock
      obtain rfl := Option.some.inj hstep
      exact h.wake hphase hclock.1 hclock.2
    · cases hstep
  | sent now ok =>
    simp only [SendLoop.step] at hstep
    split at hstep
    · rename_i hphase
      by_cases hclock : s.clock ≤ now
      · rw [if_pos hclock] at hstep
        obtain rfl := Option.some.inj hstep
        have horder := h.order (by simp [hphase])
        rw [inHand, hphase] at horder
        refine ⟨h.covers, h.clock.trans hclock, ?_, fun hrunning => ?_, h.released, h.delayed⟩
        · cases ok <;> simp
        · cases ok with
          | true => exact horder
          | false => exact absurd rfl hrunning
      · rw [if_neg hclock] at hstep
        cases hstep
    · cases hstep
  | cancel =>
    obtain rfl := Option.some.inj hstep
    exact ⟨h.covers, h.clock, by simp, by simp, h.released, h.delayed⟩

/-- However late the loop wakes from its waits: no interval sees more releases than a full
bucket and its refill pay for, the tokens stay within the bucket, the lines go out in the
order of the queue, and only a line that finds less than a token is delayed. -/
theorem paced (start : ℚ) (s : SendLoop) (hs : Machine.Reachable step (init start) s) :
    (∀ a T, 0 ≤ T →
      ((s.released.filter fun r => a ≤ r.time ∧ r.time ≤ a + T).length : ℚ) ≤
        sendBurst + sendRate * T) ∧
    (0 ≤ s.level.tokens ∧ s.level.tokens ≤ sendBurst) ∧
    s.released.map Release.encoded <+: s.queued ∧
    (∀ r ∈ s.released, r.taken ≠ r.time → r.available < 1) ∧
    ∀ encoded due, s.phase = .sleeping encoded due → s.level.tokens < 1 := by
  have hinv : Inv s := hs.invariant (fun _ _ _ h hstep => h.step hstep) (inv_init start)
  refine ⟨fun a T hT => ?_, ⟨hinv.covers.nonneg, hinv.covers.le_burst⟩, hinv.released, ?_,
    fun encoded due hphase => (hinv.due encoded due hphase).1⟩
  · have hbound := hinv.covers.bounded a (a + T) (le_add_of_nonneg_right hT)
    have hcount : (between a (a + T) s.times).length =
        (s.released.filter fun r => a ≤ r.time ∧ r.time ≤ a + T).length := by
      rw [between, times, List.filter_map, List.length_map]
      rfl
    rw [hcount, add_sub_cancel_left] at hbound
    rwa [mul_comm sendRate T]
  · intro r hr hne
    exact (hinv.delayed r hr).resolve_right (Ne.symm hne)

/-- Six lines at once, the first four of them out before the loop sleeps -/
def sixLines : List Event :=
  (List.range 6).map (fun i => Event.send true [Fin.ofNat 256 i]) ++
    [.get 0, .sent 0 true, .get 0, .sent 0 true, .get 0, .sent 0 true, .get 0, .sent 0 true,
      .get 0, .wake 3, .sent 3 true, .get 3, .wake 4]

/-- The last two lines wait, and the oversleep of the first of them gives nothing back. -/
theorem paced_sixLines : ∃ s, Machine.run step (init 0) sixLines = some s ∧
    s.released.map Release.time = [0, 0, 0, 0, 3, 4] ∧
    ((s.released.filter fun r => 3 ≤ r.time ∧ r.time ≤ 3 + 1).length : ℚ) ≤
      sendBurst + sendRate * 1 ∧
    ∀ r ∈ s.released, r.taken ≠ r.time → r.available < 1 := by
  have hrun : (Machine.run step (init 0) sixLines).map (fun s => s.released.map Release.time) =
      some [0, 0, 0, 0, 3, 4] := by decide +kernel
  obtain ⟨s, hs, htimes⟩ := Option.map_eq_some_iff.mp hrun
  obtain ⟨hbound, -, -, hdelayed, -⟩ := paced 0 s ⟨sixLines, hs⟩
  exact ⟨s, hs, htimes, hbound 3 1 (by norm_num), hdelayed⟩

end SendLoop

end Botnats
