import Mathlib.Tactic

/-!
# Programs that change a state and may fail

Preconditions and postconditions of programs that read and write a state and may raise. What
such a program did to the state before it raised stays done.
-/

namespace Triples

variable {σ ε α β : Type}

abbrev Program (σ ε α : Type) := ExceptT ε (StateM σ) α

/-- The outcome of a program, and the state that it leaves -/
def exec (x : Program σ ε α) (s : σ) : Except ε α × σ := StateT.run (ExceptT.run x) s

@[simp] theorem exec_pure (a : α) (s : σ) : exec (pure a : Program σ ε α) s = (.ok a, s) := rfl

@[simp] theorem exec_throw (e : ε) (s : σ) : exec (throw e : Program σ ε α) s = (.error e, s) := rfl

@[simp] theorem exec_get (s : σ) : exec (get : Program σ ε σ) s = (.ok s, s) := rfl

@[simp] theorem exec_set (t s : σ) : exec (set t : Program σ ε PUnit) s = (.ok ⟨⟩, t) := rfl

theorem exec_bind (x : Program σ ε α) (f : α → Program σ ε β) (s : σ) :
    exec (x >>= f) s = match exec x s with
      | (.ok a, t) => exec (f a) t
      | (.error e, t) => (.error e, t) := by
  show StateT.run (ExceptT.run (x >>= f)) s = _
  rw [exec]
  rcases h : StateT.run (ExceptT.run x) s with ⟨_ | _, t⟩ <;>
    simp [ExceptT.run_bind, StateT.run_bind, h] <;> rfl

theorem exec_tryCatch (x : Program σ ε α) (handle : ε → Program σ ε α) (s : σ) :
    exec (tryCatch x handle) s = match exec x s with
      | (.ok a, t) => (.ok a, t)
      | (.error e, t) => exec (handle e) t := by
  have hunfold : exec (tryCatch x handle) s = StateT.run (ExceptT.run x >>= fun r => match r with
      | .ok a => pure (.ok a)
      | .error e => ExceptT.run (handle e)) s := rfl
  rw [hunfold, StateT.run_bind, exec]
  rcases StateT.run (ExceptT.run x) s with ⟨_ | _, t⟩ <;> rfl

/-- The program ended as `Q` says, or raised as `E` says. -/
def Outcome (Q : α → σ → Prop) (E : ε → σ → Prop) : Except ε α × σ → Prop
  | (.ok a, s) => Q a s
  | (.error e, s) => E e s

/-- From a state as `P` says the program ends as `Q` says, or raises as `E` says. -/
def Triple (P : σ → Prop) (x : Program σ ε α) (Q : α → σ → Prop) (E : ε → σ → Prop) : Prop :=
  ∀ s, P s → Outcome Q E (exec x s)

section Rules

variable {P P' : σ → Prop} {Q Q' : α → σ → Prop} {S : β → σ → Prop} {E E' : ε → σ → Prop}

theorem Outcome.mono {r : Except ε α × σ} (h : Outcome Q E r) (hQ : ∀ a s, Q a s → Q' a s)
    (hE : ∀ e s, E e s → E' e s) : Outcome Q' E' r := by
  rcases r with ⟨e | a, s⟩
  · exact hE e s h
  · exact hQ a s h

theorem Triple.weaken {x : Program σ ε α} (h : Triple P x Q E) (hP : ∀ s, P' s → P s)
    (hQ : ∀ a s, Q a s → Q' a s) (hE : ∀ e s, E e s → E' e s) : Triple P' x Q' E' :=
  fun s hs => (h s (hP s hs)).mono hQ hE

/-- What ends without a step keeps what held. -/
theorem triple_return (I : σ → Prop) (a : α) :
    Triple I (pure a : Program σ ε α) (fun _ => I) E := fun _ hs => hs

theorem triple_throw (e : ε) : Triple (E e) (throw e : Program σ ε α) Q E := fun _ hs => hs

theorem Triple.bind {x : Program σ ε α} {f : α → Program σ ε β} (hx : Triple P x Q E)
    (hf : ∀ a, Triple (Q a) (f a) S E) : Triple P (x >>= f) S E := by
  intro s hs
  have hx := hx s hs
  rw [exec_bind]
  rcases h : exec x s with ⟨e | a, t⟩ <;> rw [h] at hx
  · exact hx
  · exact hf a t hx

/-- What is caught ends as what is not. -/
theorem Triple.tryCatch {x : Program σ ε α} {handle : ε → Program σ ε α} {E₁ : ε → σ → Prop}
    (hx : Triple P x Q E₁) (hhandle : ∀ e, Triple (E₁ e) (handle e) Q E) :
    Triple P (tryCatch x handle) Q E := by
  intro s hs
  have hx := hx s hs
  rw [exec_tryCatch]
  rcases h : exec x s with ⟨e | a, t⟩ <;> rw [h] at hx
  · exact hhandle e t hx
  · exact hx

/-- A loop under an invariant on the turns that are done -/
theorem triple_forM {γ : Type} {f : γ → Program σ ε PUnit} (I : List γ → σ → Prop) (xs : List γ)
    (h : ∀ done x rest, xs = done ++ x :: rest →
      Triple (I done) (f x) (fun _ => I (done ++ [x])) E) :
    Triple (I []) (xs.forM f) (fun _ => I xs) E := by
  have hrest : ∀ rest done, xs = done ++ rest → Triple (I done) (rest.forM f) (fun _ => I xs) E := by
    intro rest
    induction rest with
    | nil =>
      intro done hxs
      rw [hxs, List.append_nil]
      exact triple_return (I done) PUnit.unit
    | cons x rest ih =>
      intro done hxs
      refine (h done x rest hxs).bind fun _ => ih (done ++ [x]) ?_
      rw [hxs, List.append_assoc, List.singleton_append]
  exact hrest xs [] rfl

end Rules

/-- The program keeps `I`, whether it ends or raises. -/
def Keeps (I : σ → Prop) (x : Program σ ε α) : Prop := Triple I x (fun _ => I) (fun _ => I)

section Keeps

variable {I : σ → Prop}

theorem keeps_pure (a : α) : Keeps I (pure a : Program σ ε α) := triple_return I a

theorem keeps_throw (e : ε) : Keeps I (throw e : Program σ ε α) :=
  triple_throw (E := fun _ => I) e

theorem Keeps.bind {x : Program σ ε α} {f : α → Program σ ε β} (hx : Keeps I x)
    (hf : ∀ a, Keeps I (f a)) : Keeps I (x >>= f) := Triple.bind hx hf

theorem Keeps.ite {p : Prop} [Decidable p] {x y : Program σ ε α} (hx : p → Keeps I x)
    (hy : ¬ p → Keeps I y) : Keeps I (if p then x else y) := by
  split_ifs with h
  · exact hx h
  · exact hy h

/-- A loop keeps what every turn keeps. -/
theorem keeps_forM {γ : Type} {f : γ → Program σ ε PUnit} {xs : List γ}
    (h : ∀ x ∈ xs, Keeps I (f x)) : Keeps I (xs.forM f) := by
  induction xs with
  | nil => exact keeps_pure _
  | cons x xs ih =>
    exact (h x List.mem_cons_self).bind fun _ => ih fun y hy => h y (List.mem_cons_of_mem _ hy)

end Keeps

end Triples
