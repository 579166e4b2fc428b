import Botnats.History

/-!
# Optimistic replacement over a shared bucket

Any number of callers each store one value under one key: read the key, give up if
the value there should stay, else write under the revision that was read, and start
again after a lost race. Requests travel on their own. A caller may fail at any
point, a write under way may then still take effect, or be lost. `J c v` says that
caller `c` may replace the value `v`; a write that takes effect replaces only such
values.
-/
namespace PutNewer

open Bucket History

variable {C K V : Type*}

/-- Where a caller stands in a round. -/
inductive Stage (V : Type*)
  | reading (round : ℕ)
  | read (round : ℕ) (entry : Option (Entry V))
  | writing (round : ℕ)
  | wrote (round : ℕ) (won : Bool)

structure Put (C V : Type*) where
  caller : C
  stage : Stage V

/-- A write on its way, in a round of a put; `last` is the revision it names. -/
structure Write (C : Type*) where
  put : ℕ
  round : ℕ
  caller : C
  last : Option ℕ

structure Net (C K V : Type*) where
  history : List (K × V)
  puts : ℕ → Option (Put C V)
  next : ℕ
  flight : List (Write C)

/-- How a put ended: the authoritative value, or `none` for an exception. -/
structure Outcome (C V : Type*) where
  caller : C
  result : Option V

/-- `serve` and `land` are the bucket's steps, the others the caller's. -/
inductive Act
  | serve (i : ℕ)
  | judge (i : ℕ)
  | land (m : ℕ)
  | drop (m : ℕ)
  | resume (i : ℕ)
  | fail (i : ℕ)

namespace Net

def init : Net C K V := ⟨[], fun _ => none, 0, []⟩

def setPut (n : Net C K V) (i : ℕ) (p : Option (Put C V)) : Net C K V :=
  { n with puts := Function.update n.puts i p }

def start (c : C) (n : Net C K V) : Net C K V :=
  { n.setPut n.next (some ⟨c, .reading 0⟩) with next := n.next + 1 }

def settle (n : Net C K V) (i : ℕ) (c : C) (result : Option V) :
    Net C K V × Option (Outcome C V) := (n.setPut i none, some ⟨c, result⟩)

/-- The write of a round leaves. -/
def send (n : Net C K V) (i round : ℕ) (c : C) (last : Option ℕ) : Net C K V :=
  { n.setPut i (some ⟨c, .writing round⟩) with flight := ⟨i, round, c, last⟩ :: n.flight }

/-- A put that still waits for the write hears whether it won. -/
def answer (n : Net C K V) (w : Write C) (won : Bool) : Net C K V :=
  match n.puts w.put with
  | some ⟨c, .writing round⟩ =>
    if round = w.round then n.setPut w.put (some ⟨c, .wrote round won⟩) else n
  | _ => n

@[simp] theorem setPut_history (n : Net C K V) (i : ℕ) (p : Option (Put C V)) :
    (n.setPut i p).history = n.history := rfl

@[simp] theorem setPut_flight (n : Net C K V) (i : ℕ) (p : Option (Put C V)) :
    (n.setPut i p).flight = n.flight := rfl

@[simp] theorem setPut_next (n : Net C K V) (i : ℕ) (p : Option (Put C V)) :
    (n.setPut i p).next = n.next := rfl

theorem setPut_puts (n : Net C K V) (i : ℕ) (p : Option (Put C V)) (j : ℕ) :
    (n.setPut i p).puts j = if j = i then p else n.puts j := by
  simp [setPut, Function.update_apply]

theorem answer_eq (n : Net C K V) (w : Write C) (won : Bool) : n.answer w won = n ∨
    ∃ c, n.puts w.put = some ⟨c, .writing w.round⟩ ∧
      n.answer w won = n.setPut w.put (some ⟨c, .wrote w.round won⟩) := by
  unfold answer
  split
  · rename_i c round hput
    split_ifs with hr
    · subst hr
      exact .inr ⟨c, hput, rfl⟩
    · exact .inl rfl
  · exact .inl rfl

end Net

section Step

variable [DecidableEq K] (key : C → K) (data : C → V) (newer : C → V → Bool) (limit : ℕ)

/-- The write arrives at the bucket. -/
def Net.land (n : Net C K V) (w : Write C) : Net C K V :=
  match write (key w.caller) (data w.caller) w.last n.history with
  | some history => ({ n with history := history }).answer w true
  | none => n.answer w false

/-- One step of the net; a put that ends reports its outcome. -/
def step (n : Net C K V) : Act → Option (Net C K V × Option (Outcome C V))
  | .serve i =>
    match n.puts i with
    | some ⟨c, .reading round⟩ =>
      some (n.setPut i (some ⟨c, .read round (entry (key c) n.history)⟩), none)
    | _ => none
  | .judge i =>
    match n.puts i with
    | some ⟨c, .read round none⟩ => some (n.send i round c none, none)
    | some ⟨c, .read round (some e)⟩ =>
      if newer c e.value then some (n.send i round c (some e.revision), none)
      else some (n.settle i c (some e.value))
    | _ => none
  | .land m =>
    match n.flight[m]? with
    | some w => some (({ n with flight := n.flight.eraseIdx m }).land key data w, none)
    | none => none
  | .drop m =>
    match n.flight[m]? with
    | some _ => some ({ n with flight := n.flight.eraseIdx m }, none)
    | none => none
  | .resume i =>
    match n.puts i with
    | some ⟨c, .wrote _ true⟩ => some (n.settle i c (some (data c)))
    | some ⟨c, .wrote round false⟩ =>
      if round + 1 < limit then some (n.setPut i (some ⟨c, .reading (round + 1)⟩), none)
      else some (n.settle i c none)
    | _ => none
  | .fail i =>
    match n.puts i with
    | some ⟨c, _⟩ => some (n.settle i c none)
    | none => none

end Step

/-- The caller is somewhere in the net. -/
def Calls (n : Net C K V) (c : C) : Prop :=
  (∃ i p, n.puts i = some p ∧ p.caller = c) ∨ ∃ w ∈ n.flight, w.caller = c

section State

variable {key : C → K} {data : C → V} {J : C → V → Prop}

/-- What a caller was told is so, and a write under way names a revision whose value
its caller may replace. -/
structure Inv (key : C → K) (data : C → V) (J : C → V → Prop) (n : Net C K V) : Prop where
  read : ∀ i c round e, n.puts i = some ⟨c, .read round (some e)⟩ →
    Holds n.history (key c) e.revision e.value
  won : ∀ i c round, n.puts i = some ⟨c, .wrote round true⟩ → (key c, data c) ∈ n.history
  flight : ∀ w ∈ n.flight, ∀ r, w.last = some r →
    ∃ v, Holds n.history (key w.caller) r v ∧ J w.caller v
  owner : ∀ w ∈ n.flight, w.put < n.next ∧ ∀ p, n.puts w.put = some p → p.caller = w.caller
  unused : ∀ i, n.next ≤ i → n.puts i = none

theorem inv_init : Inv key data J (Net.init : Net C K V) where
  read := by simp [Net.init]
  won := by simp [Net.init]
  flight := by simp [Net.init]
  owner := by simp [Net.init]
  unused := by simp [Net.init]

variable {n n' : Net C K V} {c : C} {o : Option (Outcome C V)}

theorem Inv.mono {J' : C → V → Prop} (h : Inv key data J n) (hJ : ∀ c v, J c v → J' c v) :
    Inv key data J' n where
  read := h.read
  won := h.won
  flight := by
    intro w hw r hr
    obtain ⟨v, hv, hj⟩ := h.flight w hw r hr
    exact ⟨v, hv, hJ _ _ hj⟩
  owner := h.owner
  unused := h.unused

theorem Inv.start (h : Inv key data J n) (c : C) : Inv key data J (n.start c) := by
  have hputs : ∀ i, (n.start c).puts i = if i = n.next then some ⟨c, .reading 0⟩ else n.puts i :=
    n.setPut_puts n.next (some ⟨c, .reading 0⟩)
  refine { read := ?_, won := ?_, flight := h.flight, owner := ?_, unused := ?_ }
  · intro i d round e hi
    rw [hputs] at hi
    split_ifs at hi with hnew
    · simp at hi
    · exact h.read i d round e hi
  · intro i d round hi
    rw [hputs] at hi
    split_ifs at hi with hnew
    · simp at hi
    · exact h.won i d round hi
  · intro w hw
    have hlt := (h.owner w hw).1
    refine ⟨Nat.lt_succ_of_lt hlt, fun p hp => ?_⟩
    rw [hputs, if_neg (by omega)] at hp
    exact (h.owner w hw).2 p hp
  · intro i hi
    have hlt : n.next < i := hi
    rw [hputs, if_neg (by omega)]
    exact h.unused i hlt.le

/-- A put moves to a stage that says what is so. -/
theorem Inv.setPut (h : Inv key data J n) {i : ℕ} {stage stage' : Stage V}
    (hput : n.puts i = some ⟨c, stage⟩)
    (hread : ∀ round e, stage' = .read round (some e) → Holds n.history (key c) e.revision e.value)
    (hwon : ∀ round, stage' = .wrote round true → (key c, data c) ∈ n.history) :
    Inv key data J (n.setPut i (some ⟨c, stage'⟩)) := by
  refine { read := ?_, won := ?_, flight := h.flight, owner := ?_, unused := ?_ }
  · intro j d round e hj
    rw [Net.setPut_puts] at hj
    split_ifs at hj with hji
    · obtain ⟨rfl, hstage⟩ := Put.mk.inj (Option.some.inj hj)
      exact hread round e hstage
    · exact h.read j d round e hj
  · intro j d round hj
    rw [Net.setPut_puts] at hj
    split_ifs at hj with hji
    · obtain ⟨rfl, hstage⟩ := Put.mk.inj (Option.some.inj hj)
      exact hwon round hstage
    · exact h.won j d round hj
  · intro w hw
    refine ⟨(h.owner w hw).1, fun p hp => ?_⟩
    rw [Net.setPut_puts] at hp
    split_ifs at hp with hwi
    · rw [← Option.some.inj hp]
      exact (h.owner w hw).2 ⟨c, stage⟩ (hwi ▸ hput)
    · exact (h.owner w hw).2 p hp
  · intro j hj
    rw [Net.setPut_puts, if_neg ?_]
    · exact h.unused j hj
    · intro hji
      have hnone := h.unused j hj
      rw [hji, hput] at hnone
      simp at hnone

theorem Inv.endPut (h : Inv key data J n) (i : ℕ) : Inv key data J (n.setPut i none) := by
  have hsub : ∀ j p, (n.setPut i none).puts j = some p → n.puts j = some p := by
    intro j p hj
    rw [Net.setPut_puts] at hj
    split_ifs at hj with hji
    exact hj
  refine { read := fun j d round e hj => h.read j d round e (hsub j _ hj),
           won := fun j d round hj => h.won j d round (hsub j _ hj), flight := h.flight,
           owner := fun w hw => ⟨(h.owner w hw).1, fun p hp => (h.owner w hw).2 p (hsub _ p hp)⟩,
           unused := fun j hj => ?_ }
  rw [Net.setPut_puts, h.unused j hj, ite_self]

theorem Inv.send (h : Inv key data J n) {i round : ℕ} {stage : Stage V} {last : Option ℕ}
    (hput : n.puts i = some ⟨c, stage⟩)
    (hlast : ∀ r, last = some r → ∃ v, Holds n.history (key c) r v ∧ J c v) :
    Inv key data J (n.send i round c last) := by
  have hset : Inv key data J (n.setPut i (some ⟨c, .writing round⟩)) :=
    h.setPut hput (by simp) (by simp)
  refine { hset with flight := ?_, owner := ?_ }
  · intro w hw r hr
    rcases List.mem_cons.mp hw with rfl | hw
    · exact hlast r hr
    · exact h.flight w hw r hr
  · intro w hw
    rcases List.mem_cons.mp hw with rfl | hw
    · refine ⟨?_, fun p hp => ?_⟩
      · by_contra hge
        have hnone := h.unused i (not_lt.mp hge)
        rw [hput] at hnone
        simp at hnone
      · have heq : (n.setPut i (some ⟨c, .writing round⟩)).puts i = some p := hp
        rw [Net.setPut_puts, if_pos rfl] at heq
        rw [← Option.some.inj heq]
    · exact hset.owner w hw

theorem Inv.answer (h : Inv key data J n) {w : Write C} {won : Bool}
    (howner : ∀ p, n.puts w.put = some p → p.caller = w.caller)
    (hwon : won = true → (key w.caller, data w.caller) ∈ n.history) :
    Inv key data J (n.answer w won) := by
  rcases n.answer_eq w won with heq | ⟨c, hput, heq⟩
  · rw [heq]
    exact h
  · rw [heq]
    have hc : c = w.caller := howner _ hput
    refine h.setPut hput (by simp) fun round hstage => ?_
    rw [hc]
    exact hwon (Stage.wrote.inj hstage).2

/-- The history grows by a write of the net. -/
theorem Inv.write (h : Inv key data J n) (e : K × V) :
    Inv key data J { n with history := e :: n.history } where
  read := fun i c round d hi => (h.read i c round d hi).cons e
  won := fun i c round hi => List.mem_cons_of_mem e (h.won i c round hi)
  flight := by
    intro w hw r hr
    obtain ⟨v, hv, hj⟩ := h.flight w hw r hr
    exact ⟨v, hv.cons e, hj⟩
  owner := h.owner
  unused := h.unused

theorem Inv.dropWrite (h : Inv key data J n) (m : ℕ) :
    Inv key data J { n with flight := n.flight.eraseIdx m } where
  read := h.read
  won := h.won
  flight := fun w hw => h.flight w (List.mem_of_mem_eraseIdx hw)
  owner := fun w hw => h.owner w (List.mem_of_mem_eraseIdx hw)
  unused := h.unused

theorem answer_history (n : Net C K V) (w : Write C) (won : Bool) :
    (n.answer w won).history = n.history := by
  rcases n.answer_eq w won with heq | ⟨c, -, heq⟩ <;> rw [heq]
  rfl

theorem calls_setPut {i : ℕ} {c d : C} {stage stage' : Stage V}
    (hput : n.puts i = some ⟨c, stage⟩) (h : Calls (n.setPut i (some ⟨c, stage'⟩)) d) :
    Calls n d := by
  rcases h with ⟨j, p, hj, hp⟩ | hw
  · rw [Net.setPut_puts] at hj
    split_ifs at hj with hji
    · refine .inl ⟨i, ⟨c, stage⟩, hput, ?_⟩
      rw [← hp, ← Option.some.inj hj]
    · exact .inl ⟨j, p, hj, hp⟩
  · exact .inr hw

theorem calls_endPut {i : ℕ} {d : C} (h : Calls (n.setPut i none) d) : Calls n d := by
  rcases h with ⟨j, p, hj, hp⟩ | hw
  · rw [Net.setPut_puts] at hj
    split_ifs at hj with hji
    exact .inl ⟨j, p, hj, hp⟩
  · exact .inr hw

theorem calls_answer {w : Write C} {won : Bool} {d : C} (h : Calls (n.answer w won) d) :
    Calls n d := by
  rcases n.answer_eq w won with heq | ⟨c, hput, heq⟩
  · rwa [heq] at h
  · rw [heq] at h
    exact calls_setPut hput h

theorem calls_start {c d : C} (h : Calls (n.start c) d) : Calls n d ∨ d = c := by
  rcases h with ⟨i, p, hi, hp⟩ | hw
  · have hputs := n.setPut_puts n.next (some ⟨c, .reading 0⟩) i
    rw [show (n.start c).puts i = _ from hputs] at hi
    split_ifs at hi with hnew
    · rw [← Option.some.inj hi] at hp
      exact .inr hp.symm
    · exact .inl (.inl ⟨i, p, hi, hp⟩)
  · exact .inl (.inr hw)

end State

section Moves

variable [DecidableEq K] {key : C → K} {data : C → V} {newer : C → V → Bool} {limit : ℕ}
variable {J : C → V → Prop} {n n' : Net C K V} {o : Option (Outcome C V)}

/-- What a step can do: a put moves on, sends its write or ends, and a write takes
effect or is lost. -/
inductive Moves (key : C → K) (data : C → V) (newer : C → V → Bool) (n : Net C K V) :
    Net C K V → Option (Outcome C V) → Prop
  | move {i : ℕ} {c : C} {stage stage' : Stage V} (put : n.puts i = some ⟨c, stage⟩)
      (read : ∀ round e, stage' = .read round (some e) → entry (key c) n.history = some e)
      (won : ∀ round, stage' ≠ .wrote round true) :
      Moves key data newer n (n.setPut i (some ⟨c, stage'⟩)) none
  | send {i round : ℕ} {c : C} {e : Option (Entry V)}
      (put : n.puts i = some ⟨c, .read round e⟩)
      (judged : ∀ d, e = some d → newer c d.value = true) :
      Moves key data newer n (n.send i round c (e.map Entry.revision)) none
  | land {m : ℕ} {w : Write C} (mem : n.flight[m]? = some w) :
      Moves key data newer n (({ n with flight := n.flight.eraseIdx m }).land key data w) none
  | drop (m : ℕ) : Moves key data newer n { n with flight := n.flight.eraseIdx m } none
  | keep {i round : ℕ} {c : C} {e : Entry V} (put : n.puts i = some ⟨c, .read round (some e)⟩)
      (judged : newer c e.value = false) :
      Moves key data newer n (n.setPut i none) (some ⟨c, some e.value⟩)
  | win {i round : ℕ} {c : C} (put : n.puts i = some ⟨c, .wrote round true⟩) :
      Moves key data newer n (n.setPut i none) (some ⟨c, some (data c)⟩)
  | fail {i : ℕ} {c : C} {stage : Stage V} (put : n.puts i = some ⟨c, stage⟩) :
      Moves key data newer n (n.setPut i none) (some ⟨c, none⟩)

theorem moves_of_step {a : Act} (hst : step key data newer limit n a = some (n', o)) :
    Moves key data newer n n' o := by
  cases a with
  | serve i =>
    simp only [step] at hst
    split at hst
    · rename_i c round hput
      obtain ⟨rfl, rfl⟩ := Prod.mk.inj (Option.some.inj hst)
      exact .move hput (fun r e hstage => (Stage.read.inj hstage).2) (by simp)
    · simp at hst
  | judge i =>
    simp only [step] at hst
    split at hst
    · rename_i c round hput
      obtain ⟨rfl, rfl⟩ := Prod.mk.inj (Option.some.inj hst)
      exact .send hput (by simp)
    · rename_i c round e hput
      split_ifs at hst with hn
      · obtain ⟨rfl, rfl⟩ := Prod.mk.inj (Option.some.inj hst)
        refine .send hput fun d hd => ?_
        rw [← Option.some.inj hd]
        exact hn
      · obtain ⟨rfl, rfl⟩ := Prod.mk.inj (Option.some.inj hst)
        exact .keep hput (Bool.not_eq_true _ ▸ hn)
    · simp at hst
  | land m =>
    simp only [step] at hst
    split at hst
    · rename_i w hm
      obtain ⟨rfl, rfl⟩ := Prod.mk.inj (Option.some.inj hst)
      exact .land hm
    · simp at hst
  | drop m =>
    simp only [step] at hst
    split at hst
    · obtain ⟨rfl, rfl⟩ := Prod.mk.inj (Option.some.inj hst)
      exact .drop m
    · simp at hst
  | resume i =>
    simp only [step] at hst
    split at hst
    · rename_i c round hput
      obtain ⟨rfl, rfl⟩ := Prod.mk.inj (Option.some.inj hst)
      exact .win hput
    · rename_i c round hput
      split_ifs at hst with hr
      · obtain ⟨rfl, rfl⟩ := Prod.mk.inj (Option.some.inj hst)
        exact .move hput (by simp) (by simp)
      · obtain ⟨rfl, rfl⟩ := Prod.mk.inj (Option.some.inj hst)
        exact .fail hput
    · simp at hst
  | fail i =>
    simp only [step] at hst
    split at hst
    · rename_i c stage hput
      obtain ⟨rfl, rfl⟩ := Prod.mk.inj (Option.some.inj hst)
      exact .fail hput
    · simp at hst

theorem Inv.land (h : Inv key data J n) {w : Write C}
    (howner : ∀ p, n.puts w.put = some p → p.caller = w.caller) :
    Inv key data J (n.land key data w) := by
  unfold Net.land
  cases hw : History.write (key w.caller) (data w.caller) w.last n.history with
  | none => exact h.answer howner (by simp)
  | some s =>
    obtain ⟨-, rfl⟩ := write_eq_some.mp hw
    exact (h.write _).answer howner fun _ => List.mem_cons_self

/-- Every step of the net keeps the invariant, if a caller may replace the stored values
that it finds older. -/
theorem Inv.moves (h : Inv key data J n)
    (hnewer : ∀ c v, (key c, v) ∈ n.history → newer c v = true → J c v)
    (hst : Moves key data newer n n' o) : Inv key data J n' := by
  cases hst with
  | move put read won =>
    exact h.setPut put (fun round e hs => Holds.of_entry (read round e hs))
      fun round hs => absurd hs (won round)
  | send put judged =>
    refine h.send put fun r hr => ?_
    obtain ⟨d, rfl, rfl⟩ := Option.map_eq_some_iff.mp hr
    have hread := h.read _ _ _ d put
    exact ⟨d.value, hread, hnewer _ _ hread.mem (judged d rfl)⟩
  | land mem => exact (h.dropWrite _).land (h.owner _ (List.mem_of_getElem? mem)).2
  | drop m => exact h.dropWrite m
  | keep put judged => exact h.endPut _
  | win put => exact h.endPut _
  | fail put => exact h.endPut _

/-- The history grows only by a write under way, over nothing or over a value that
its caller may replace. -/
theorem Inv.grows (h : Inv key data J n) (hst : Moves key data newer n n' o) :
    n'.history = n.history ∨ ∃ w ∈ n.flight,
      n'.history = (key w.caller, data w.caller) :: n.history ∧
      ∀ e, entry (key w.caller) n.history = some e → J w.caller e.value := by
  cases hst with
  | land mem =>
    rename_i m w
    unfold Net.land
    cases hw : History.write (key w.caller) (data w.caller) w.last n.history with
    | none => exact .inl (answer_history _ _ _)
    | some s =>
      obtain ⟨hlast, rfl⟩ := write_eq_some.mp hw
      have hmem := List.mem_of_getElem? mem
      refine .inr ⟨w, hmem, answer_history _ _ _, fun e he => ?_⟩
      rw [he, Option.map_some] at hlast
      obtain ⟨v, hv, hj⟩ := h.flight w hmem e.revision hlast.symm
      rw [hv.current he rfl]
      exact hj
  | _ => exact .inl rfl

/-- What a put returns is stored under its key: its own value, or one it may not
replace. -/
theorem Inv.returned (h : Inv key data J n) {oc : Outcome C V} {v : V}
    (hst : Moves key data newer n n' (some oc)) (hv : oc.result = some v) :
    (key oc.caller, v) ∈ n.history ∧ n'.history = n.history ∧
      (v = data oc.caller ∨ newer oc.caller v = false) := by
  cases hst with
  | keep put judged =>
    obtain rfl := Option.some.inj hv
    exact ⟨(h.read _ _ _ _ put).mem, rfl, .inr judged⟩
  | win put =>
    obtain rfl := Option.some.inj hv
    exact ⟨h.won _ _ _ put, rfl, .inl rfl⟩
  | fail put => simp at hv

/-- A step that reports nothing keeps the caller of every put under way. -/
theorem caller_of_moves (hst : Moves key data newer n n' none) {i : ℕ} {p : Put C V}
    (hi : n'.puts i = some p) : ∃ q, n.puts i = some q ∧ q.caller = p.caller := by
  have hset : ∀ {j : ℕ} {c : C} {stage : Stage V} (stage' : Stage V), n.puts j = some ⟨c, stage⟩ →
      (n.setPut j (some ⟨c, stage'⟩)).puts i = some p → ∃ q, n.puts i = some q ∧
        q.caller = p.caller := by
    intro j c stage stage' hput hi
    rw [Net.setPut_puts] at hi
    split_ifs at hi with hij
    · rw [← Option.some.inj hi, hij]
      exact ⟨_, hput, rfl⟩
    · exact ⟨p, hi, rfl⟩
  cases hst with
  | move put read won => exact hset _ put hi
  | send put judged => exact hset _ put hi
  | land mem =>
    rename_i m w
    have hanswer : ∀ (s : List (K × V)) (won : Bool),
        (({ n with history := s, flight := n.flight.eraseIdx m } : Net C K V).answer w won).puts i =
          some p → ∃ q, n.puts i = some q ∧ q.caller = p.caller := by
      intro s won hi
      rcases Net.answer_eq ({ n with history := s, flight := n.flight.eraseIdx m } : Net C K V) w
        won with heq | ⟨c, hput, heq⟩
      · rw [heq] at hi
        exact ⟨p, hi, rfl⟩
      · rw [heq] at hi
        exact hset (.wrote w.round won) hput hi
    unfold Net.land at hi
    split at hi
    · exact hanswer _ _ hi
    · exact hanswer n.history _ hi
  | drop m => exact ⟨p, hi, rfl⟩

/-- A put that reports has ended. -/
theorem ended_of_moves {oc : Outcome C V} (hst : Moves key data newer n n' (some oc)) :
    ∃ i stage, n.puts i = some ⟨oc.caller, stage⟩ ∧ n' = n.setPut i none := by
  cases hst with
  | keep put judged => exact ⟨_, _, put, rfl⟩
  | win put => exact ⟨_, _, put, rfl⟩
  | fail put => exact ⟨_, _, put, rfl⟩

/-- No step adds a caller, and an outcome is that of a caller. -/
theorem calls_of_moves (hst : Moves key data newer n n' o) :
    (∀ c, Calls n' c → Calls n c) ∧ ∀ oc ∈ o, Calls n oc.caller := by
  cases hst with
  | move put read won => exact ⟨fun c hc => calls_setPut put hc, by simp⟩
  | send put judged =>
    refine ⟨fun c hc => ?_, by simp⟩
    rcases hc with hc | ⟨w, hw, rfl⟩
    · exact calls_setPut put (.inl hc)
    · rcases List.mem_cons.mp hw with rfl | hw
      · exact .inl ⟨_, _, put, rfl⟩
      · exact .inr ⟨w, hw, rfl⟩
  | land mem =>
    rename_i m w
    refine ⟨fun c hc => ?_, by simp⟩
    have hsub : ∀ s : List (K × V), Calls { n with history := s, flight := n.flight.eraseIdx m } c →
        Calls n c := by
      rintro s (hc | ⟨v, hv, hc⟩)
      · exact .inl hc
      · exact .inr ⟨v, List.mem_of_mem_eraseIdx hv, hc⟩
    unfold Net.land at hc
    split at hc
    · exact hsub _ (calls_answer hc)
    · exact hsub n.history (calls_answer hc)
  | drop m =>
    refine ⟨fun c hc => ?_, by simp⟩
    rcases hc with hc | ⟨v, hv, hc⟩
    · exact .inl hc
    · exact .inr ⟨v, List.mem_of_mem_eraseIdx hv, hc⟩
  | keep put judged => exact ⟨fun c hc => calls_endPut hc, by simpa using .inl ⟨_, _, put, rfl⟩⟩
  | win put => exact ⟨fun c hc => calls_endPut hc, by simpa using .inl ⟨_, _, put, rfl⟩⟩
  | fail put => exact ⟨fun c hc => calls_endPut hc, by simpa using .inl ⟨_, _, put, rfl⟩⟩

end Moves

/-! ## A put that meets no other -/

section Alone

variable [DecidableEq K] (key : C → K) (data : C → V) (newer : C → V → Bool) (limit : ℕ)

/-- The value that the key holds, and the put returns, after a put without a race. -/
def alone (c : C) (stored : Option V) : V :=
  match stored with
  | some v => if newer c v then data c else v
  | none => data c

/-- Steps in a row, up to the first outcome -/
def run (n : Net C K V) : List Act → Option (Net C K V × Option (Outcome C V))
  | [] => some (n, none)
  | a :: as =>
    match step key data newer limit n a with
    | some (n', none) => run n' as
    | other => other

/-- A write that names the current revision wins. -/
theorem run_send (n : Net C K V) (i : ℕ) (c : C) (hflight : n.flight = []) :
    ∃ n', run key data newer limit
        (n.send i 0 c ((entry (key c) n.history).map Entry.revision)) [.land 0, .resume i] =
          some (n', some ⟨c, some (data c)⟩) ∧ n'.history = (key c, data c) :: n.history := by
  set last := (entry (key c) n.history).map Entry.revision with hlast
  set sent := n.send i 0 c last with hsent
  set landed : Net C K V := { sent with history := (key c, data c) :: n.history, flight := [] }
    with hlanded
  have hput : landed.puts i = some ⟨c, .writing 0⟩ := by simp [hlanded, hsent, Net.send, Net.setPut]
  have hwrite : write (key c) (data c) last n.history = some ((key c, data c) :: n.history) :=
    if_pos hlast.symm
  have hanswer : landed.answer ⟨i, 0, c, last⟩ true =
      landed.setPut i (some ⟨c, .wrote 0 true⟩) := by simp [Net.answer, hput]
  have hland : step key data newer limit sent (.land 0) =
      some (landed.setPut i (some ⟨c, .wrote 0 true⟩), none) := by
    simp only [step, hsent, Net.send, hflight, List.getElem?_cons_zero, List.eraseIdx_cons_zero,
      Net.land, Net.setPut_history, hwrite]
    exact congrArg (fun x => some (x, none)) hanswer
  have hresume : step key data newer limit (landed.setPut i (some ⟨c, .wrote 0 true⟩)) (.resume i) =
      some ((landed.setPut i (some ⟨c, .wrote 0 true⟩)).setPut i none, some ⟨c, some (data c)⟩) := by
    simp only [step, Net.setPut_puts, if_true, Net.settle]
  refine ⟨(landed.setPut i (some ⟨c, .wrote 0 true⟩)).setPut i none, ?_, rfl⟩
  rw [run, hland]
  simp only [run, hresume]

/-- A put whose steps follow each other returns what the key then holds. -/
theorem run_alone (n : Net C K V) (c : C) (hflight : n.flight = []) :
    ∃ n', run key data newer limit (n.start c)
        [.serve n.next, .judge n.next, .land 0, .resume n.next] =
          some (n', some ⟨c, some (alone data newer c ((entry (key c) n.history).map Entry.value))⟩) ∧
      (entry (key c) n'.history).map Entry.value =
        some (alone data newer c ((entry (key c) n.history).map Entry.value)) := by
  set r := entry (key c) n.history with hr
  set n' := (n.start c).setPut n.next (some ⟨c, .read 0 r⟩) with hn'
  have hserve : step key data newer limit (n.start c) (.serve n.next) = some (n', none) := by
    simp [step, Net.start, Net.setPut, hn', hr]
  have hput : n'.puts n.next = some ⟨c, .read 0 r⟩ := by simp [hn', Net.setPut]
  have hsend := run_send key data newer limit n' n.next c hflight
  have hhistory : n'.history = n.history := rfl
  rw [hhistory, ← hr] at hsend
  obtain ⟨won, hwon, hnew⟩ := hsend
  have hentry : (entry (key c) won.history).map Entry.value = some (data c) := by simp [hnew]
  cases hcase : r with
  | none =>
    rw [hcase] at hput hwon
    have hjudge : step key data newer limit n' (.judge n.next) =
        some (n'.send n.next 0 c none, none) := by simp only [step, hput]
    refine ⟨won, ?_, hentry⟩
    simp only [run, hserve, hjudge] at hwon ⊢
    exact hwon
  | some e =>
    rw [hcase] at hput hwon
    by_cases hnewer : newer c e.value = true
    · have hjudge : step key data newer limit n' (.judge n.next) =
          some (n'.send n.next 0 c (some e.revision), none) := by
        simp only [step, hput, hnewer, if_true]
      refine ⟨won, ?_, ?_⟩
      · simp only [run, hserve, hjudge, alone, Option.map_some, hnewer, if_true] at hwon ⊢
        exact hwon
      · simp only [alone, Option.map_some, hnewer, if_true]
        exact hentry
    · have hkeep : newer c e.value = false := Bool.not_eq_true _ ▸ hnewer
      have hjudge : step key data newer limit n' (.judge n.next) =
          some (n'.settle n.next c (some e.value)) := by
        simp only [step, hput, hkeep, Bool.false_eq_true, if_false]
      refine ⟨n'.setPut n.next none, ?_, ?_⟩
      · simp only [run, hserve, hjudge, Net.settle, alone, Option.map_some, hkeep,
          Bool.false_eq_true, if_false]
      · simp only [alone, Option.map_some, hkeep, Bool.false_eq_true, if_false,
          Net.setPut_history, hhistory, ← hr, hcase]

end Alone

end PutNewer
