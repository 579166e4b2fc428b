import Mathlib.Tactic

/-!
# Keeping a remote state in order

A client watches a server through a queue of messages and corrects it through a queue of
requests. Others change the server meanwhile, and it takes a request only while the client
has authority over it. Some of what the client reads alarms it; for every alarm it attempts
a correction some time later, which goes out or fails.

If each change that leaves the server out of order under the client's authority alarms the
client as it reads of it, then the server is in order whenever nothing is under way, unless
the last attempt failed.
-/

structure Correction (σ β μ ω : Type*) where
  authority : σ → Prop
  inOrder : σ → Prop
  read : β → μ → β
  alarm : β → μ → Bool
  goes : β → ω → Bool
  tracks : β → σ → Prop
  change : σ → List μ → σ → Prop
  correct : σ → List μ → σ → Prop

namespace Correction

variable {σ β μ ω : Type*} (C : Correction σ β μ ω)

/-- Reading the messages alarms the client. -/
def alarms (b : β) : List μ → Bool
  | [] => false
  | m :: ms => C.alarm b m || alarms (C.read b m) ms

theorem alarms_append (b : β) (ms ms' : List μ) :
    C.alarms b (ms ++ ms') = (C.alarms b ms || C.alarms (ms.foldl C.read b) ms') := by
  induction ms generalizing b with
  | nil => rfl
  | cons m ms ih => rw [List.cons_append, alarms, alarms, ih, Bool.or_assoc, List.foldl_cons]

/-- What the client and the server owe: the client keeps track of the server, a change that
needs a correction alarms it, and a correction that is taken puts the server in order. -/
structure Sound : Prop where
  change : ∀ b s ms s', C.tracks b s → C.change s ms s' → C.tracks (ms.foldl C.read b) s'
  correct : ∀ b s ms s', C.tracks b s → C.correct s ms s' → C.tracks (ms.foldl C.read b) s'
  alarmed : ∀ b s ms s', C.tracks b s → C.change s ms s' → C.authority s' →
    ¬ C.authority s ∨ C.inOrder s → C.inOrder s' ∨ C.alarms b ms = true
  corrected : ∀ s ms s', C.correct s ms s' → C.authority s' → C.inOrder s'

/-- The server, its messages that the client has not read, the client, the corrections it
has yet to attempt, the requests on their way, and whether the last attempt failed. -/
structure World (C : Correction σ β μ ω) where
  server : σ
  messages : List μ
  client : β
  attempts : ℕ
  requests : ℕ
  failed : Bool

variable {C}

inductive Step : World C → World C → Prop
  | change {w : World C} {ms : List μ} {s' : σ} (h : C.change w.server ms s') :
    Step w { w with server := s', messages := w.messages ++ ms }
  | read {w : World C} {m : μ} {rest : List μ} (h : w.messages = m :: rest) :
    Step w { w with
      messages := rest
      client := C.read w.client m
      attempts := if C.alarm w.client m then w.attempts + 1 else w.attempts }
  | attempt {w : World C} {n : ℕ} (h : w.attempts = n + 1) (o : ω) :
    Step w { w with
      attempts := n
      requests := if C.goes w.client o then w.requests + 1 else w.requests
      failed := !C.goes w.client o }
  | serve {w : World C} {n : ℕ} {ms : List μ} {s' : σ} (h : w.requests = n + 1)
    (hs : C.correct w.server ms s') :
    Step w { w with server := s', messages := w.messages ++ ms, requests := n }

/-- Nothing is under way. -/
def World.Settled (w : World C) : Prop :=
  w.messages = [] ∧ w.attempts = 0 ∧ w.requests = 0

/-- The client has tracked the server once it has read every message; and under its
authority the server is in order, or a correction is under way or will be. -/
structure World.Inv (w : World C) : Prop where
  tracks : C.tracks (w.messages.foldl C.read w.client) w.server
  inOrder : C.authority w.server → C.inOrder w.server ∨ w.failed = true ∨
    0 < w.attempts ∨ 0 < w.requests ∨ C.alarms w.client w.messages = true

theorem World.Inv.step (hC : C.Sound) {w w' : World C} (h : w.Inv) (hst : Step w w') : w'.Inv := by
  cases hst with
  | @change ms s' hchange =>
    refine ⟨?_, fun hauthority => ?_⟩
    · rw [List.foldl_append]
      exact hC.change _ _ _ _ h.tracks hchange
    · dsimp only
      rw [C.alarms_append, Bool.or_eq_true]
      have hlater := hC.alarmed _ _ _ _ h.tracks hchange hauthority
      by_cases hold : C.authority w.server
      · rcases h.inOrder hold with horder | hfailed | hattempts | hrequests | halarms
        · exact (hlater (.inr horder)).imp_right fun h => .inr (.inr (.inr (.inr h)))
        · exact .inr (.inl hfailed)
        · exact .inr (.inr (.inl hattempts))
        · exact .inr (.inr (.inr (.inl hrequests)))
        · exact .inr (.inr (.inr (.inr (.inl halarms))))
      · exact (hlater (.inl hold)).imp_right fun h => .inr (.inr (.inr (.inr h)))
  | @read m rest hm =>
    have htracks := h.tracks
    rw [hm, List.foldl_cons] at htracks
    refine ⟨htracks, fun hauthority => ?_⟩
    dsimp only
    rcases h.inOrder hauthority with horder | hfailed | hattempts | hrequests | halarms
    · exact .inl horder
    · exact .inr (.inl hfailed)
    · refine .inr (.inr (.inl ?_))
      split_ifs
      · omega
      · exact hattempts
    · exact .inr (.inr (.inr (.inl hrequests)))
    · rw [hm, alarms, Bool.or_eq_true] at halarms
      rcases halarms with halarm | hrest
      · rw [if_pos halarm]
        exact .inr (.inr (.inl (Nat.succ_pos _)))
      · exact .inr (.inr (.inr (.inr hrest)))
  | @attempt n hn o =>
    refine ⟨h.tracks, fun hauthority => ?_⟩
    dsimp only
    cases hgoes : C.goes w.client o with
    | false => exact .inr (.inl rfl)
    | true => exact .inr (.inr (.inr (.inl (Nat.succ_pos _))))
  | @serve n ms s' hn hcorrect =>
    refine ⟨?_, fun hauthority => .inl (hC.corrected _ _ _ hcorrect hauthority)⟩
    rw [List.foldl_append]
    exact hC.correct _ _ _ _ h.tracks hcorrect

theorem World.Inv.run (hC : C.Sound) {w w' : World C} (h : w.Inv)
    (hrun : Relation.ReflTransGen Step w w') : w'.Inv := by
  induction hrun with
  | refl => exact h
  | tail _ hst ih => exact ih.step hC hst

/-- A server under the client's authority is in order once nothing is under way, unless the
last attempt failed. -/
theorem World.Inv.inOrder_of_settled {w : World C} (h : w.Inv) (hsettled : w.Settled)
    (hfailed : w.failed = false) (hauthority : C.authority w.server) :
    C.inOrder w.server := by
  obtain ⟨hmessages, hattempts, hrequests⟩ := hsettled
  rcases h.inOrder hauthority with horder | hlast | hpending | hpending | halarms
  · exact horder
  · rw [hfailed] at hlast
    exact absurd hlast (by simp)
  · omega
  · omega
  · rw [hmessages] at halarms
    exact absurd halarms (by simp [alarms])

end Correction
