import Botnats.Bucket

/-!
# The history of a bucket

Where nothing is deleted, a bucket is the list of its writes, newest first: a
revision is a place in that list, the current entry of a key is its last write, and
a watch is a position that moves over the writes in order. `Holds` is what a client
knows after a read, and stays true. `Chain` says that each write is related to the
value it replaced.
-/
namespace History

open Bucket

variable {K V : Type*}

section Entries

variable [DecidableEq K]

/-- The current entry of a key. -/
def entry (k : K) : List (K × V) → Option (Entry V)
  | [] => none
  | (j, v) :: s => if j = k then some ⟨s.length + 1, v⟩ else entry k s

/-- Write the key while its revision is `last`, `none` for an absent key. -/
def write (k : K) (v : V) (last : Option ℕ) (s : List (K × V)) : Option (List (K × V)) :=
  if (entry k s).map Entry.revision = last then some ((k, v) :: s) else none

@[simp] theorem entry_nil (k : K) : entry k ([] : List (K × V)) = none := rfl

@[simp] theorem entry_cons_self (k : K) (v : V) (s : List (K × V)) :
    entry k ((k, v) :: s) = some ⟨s.length + 1, v⟩ := by simp [entry]

theorem entry_cons_of_ne {j k : K} (v : V) (s : List (K × V)) (h : j ≠ k) :
    entry k ((j, v) :: s) = entry k s := by simp [entry, h]

theorem write_eq_some {k : K} {v : V} {last : Option ℕ} {s t : List (K × V)} :
    write k v last s = some t ↔ (entry k s).map Entry.revision = last ∧ t = (k, v) :: s := by
  unfold write
  split_ifs with h <;> simp [h, eq_comm]

end Entries

/-- Write number `r` put `v` under `k`. -/
def Holds (s : List (K × V)) (k : K) (r : ℕ) (v : V) : Prop :=
  ∃ newer older, s = newer ++ (k, v) :: older ∧ older.length + 1 = r

theorem Holds.cons {s : List (K × V)} {k : K} {r : ℕ} {v : V} (h : Holds s k r v) (e : K × V) :
    Holds (e :: s) k r v := by
  obtain ⟨newer, older, rfl, hr⟩ := h
  exact ⟨e :: newer, older, rfl, hr⟩

theorem Holds.mem {s : List (K × V)} {k : K} {r : ℕ} {v : V} (h : Holds s k r v) :
    (k, v) ∈ s := by
  obtain ⟨newer, older, rfl, -⟩ := h
  simp

theorem Holds.revision_le {s : List (K × V)} {k : K} {r : ℕ} {v : V} (h : Holds s k r v) :
    r ≤ s.length := by
  obtain ⟨newer, older, rfl, hr⟩ := h
  rw [List.length_append, List.length_cons]
  omega

/-- A revision is given out once. -/
theorem Holds.unique {s : List (K × V)} {j k : K} {r : ℕ} {v w : V} (h : Holds s j r v)
    (h' : Holds s k r w) : j = k ∧ v = w := by
  obtain ⟨newer, older, rfl, hr⟩ := h
  obtain ⟨newer', older', heq, hr'⟩ := h'
  have hlen : newer.length = newer'.length := by
    have := congrArg List.length heq
    simp only [List.length_append, List.length_cons] at this
    omega
  obtain ⟨-, htail⟩ := List.append_inj heq hlen
  simpa using (List.cons.inj htail).1

theorem Holds.cases_cons {s : List (K × V)} {x : K × V} {k : K} {r : ℕ} {v : V}
    (h : Holds (x :: s) k r v) : (x = (k, v) ∧ r = s.length + 1) ∨ Holds s k r v := by
  obtain ⟨newer, older, heq, hr⟩ := h
  cases newer with
  | nil =>
    obtain ⟨rfl, rfl⟩ := List.cons.inj heq
    exact .inl ⟨rfl, hr.symm⟩
  | cons y newer =>
    obtain ⟨-, rfl⟩ := List.cons.inj heq
    exact .inr ⟨newer, older, rfl, hr⟩

theorem Holds.of_cons {s : List (K × V)} {x : K × V} {k : K} {r : ℕ} {v : V}
    (h : Holds (x :: s) k r v) (hr : r ≤ s.length) : Holds s k r v := by
  refine h.cases_cons.resolve_left fun hx => ?_
  have := hx.2
  omega

section Current

variable [DecidableEq K]

theorem Holds.of_entry {s : List (K × V)} {k : K} {e : Entry V} (h : entry k s = some e) :
    Holds s k e.revision e.value := by
  induction s with
  | nil => simp at h
  | cons x s ih =>
    obtain ⟨j, v⟩ := x
    by_cases hj : j = k
    · subst hj
      rw [entry_cons_self] at h
      obtain rfl := Option.some.inj h
      exact ⟨[], s, rfl, rfl⟩
    · rw [entry_cons_of_ne v s hj] at h
      exact (ih h).cons _

/-- A compare-and-set on what a client knows replaces exactly that. -/
theorem Holds.current {s : List (K × V)} {k : K} {r : ℕ} {v : V} {e : Entry V}
    (h : Holds s k r v) (he : entry k s = some e) (hr : e.revision = r) : e.value = v := by
  have hheld := Holds.of_entry he
  rw [hr] at hheld
  exact (hheld.unique h).2

theorem exists_entry_of_mem {s : List (K × V)} {k : K} {v : V} (h : (k, v) ∈ s) :
    ∃ e, entry k s = some e := by
  induction s with
  | nil => simp at h
  | cons x s ih =>
    obtain ⟨j, w⟩ := x
    by_cases hj : j = k
    · exact ⟨⟨s.length + 1, w⟩, by simp [entry, hj]⟩
    · rw [entry_cons_of_ne w s hj]
      refine ih ((List.mem_cons.mp h).resolve_left fun heq => hj ?_)
      exact (congrArg Prod.fst heq).symm

/-- The current entry of a key is its last write. -/
theorem Holds.le_current {s : List (K × V)} {k : K} {r : ℕ} {v : V} {e : Entry V}
    (h : Holds s k r v) (he : entry k s = some e) : r ≤ e.revision := by
  induction s with
  | nil => simp at he
  | cons x s ih =>
    obtain ⟨j, w⟩ := x
    by_cases hj : j = k
    · subst hj
      rw [entry_cons_self] at he
      obtain rfl := Option.some.inj he
      exact h.revision_le
    · rw [entry_cons_of_ne w s hj] at he
      refine ih (h.cases_cons.resolve_left fun hx => hj ?_) he
      exact congrArg Prod.fst hx.1

/-- Write number `r`. -/
def nth (r : ℕ) : List (K × V) → Option (K × V)
  | [] => none
  | x :: s => if r = s.length + 1 then some x else nth r s

omit [DecidableEq K] in
theorem holds_of_nth {s : List (K × V)} {r : ℕ} {k : K} {v : V} (h : nth r s = some (k, v)) :
    Holds s k r v := by
  induction s with
  | nil => simp [nth] at h
  | cons x s ih =>
    unfold nth at h
    split_ifs at h with hr
    · obtain rfl := Option.some.inj h
      exact ⟨[], s, rfl, hr.symm⟩
    · exact (ih h).cons x

/-- Every value that replaced another under its key is related to it. -/
def Chain (R : K → V → V → Prop) : List (K × V) → Prop
  | [] => True
  | (k, v) :: s => (∀ e, entry k s = some e → R k e.value v) ∧ Chain R s

theorem chain_cons {R : K → V → V → Prop} {k : K} {v : V} {s : List (K × V)} :
    Chain R ((k, v) :: s) ↔ (∀ e, entry k s = some e → R k e.value v) ∧ Chain R s := Iff.rfl

theorem Chain.mono {R Q : K → V → V → Prop} (hRQ : ∀ k v w, R k v w → Q k v w)
    {s : List (K × V)} (h : Chain R s) : Chain Q s := by
  induction s with
  | nil => trivial
  | cons x s ih => exact ⟨fun e he => hRQ _ _ _ (h.1 e he), ih h.2⟩

/-- Along a transitive relation everything written leads to the current value. -/
theorem Chain.current {R : K → V → V → Prop} (htrans : ∀ k a b c, R k a b → R k b c → R k a c)
    {s : List (K × V)} (h : Chain R s) {k : K} {v : V} (hm : (k, v) ∈ s) :
    ∃ e, entry k s = some e ∧ (e.value = v ∨ R k v e.value) := by
  induction s with
  | nil => simp at hm
  | cons x s ih =>
    obtain ⟨j, w⟩ := x
    obtain ⟨hlast, hs⟩ := chain_cons.mp h
    by_cases hj : j = k
    · subst hj
      refine ⟨⟨s.length + 1, w⟩, entry_cons_self j w s, ?_⟩
      rcases List.mem_cons.mp hm with heq | hm
      · exact .inl (congrArg Prod.snd heq).symm
      · obtain ⟨e, he, hv⟩ := ih hs hm
        have hw := hlast e he
        rcases hv with rfl | hv
        · exact .inr hw
        · exact .inr (htrans _ _ _ _ hv hw)
    · rw [entry_cons_of_ne w s hj]
      refine ih hs ((List.mem_cons.mp hm).resolve_left fun heq => hj ?_)
      exact (congrArg Prod.fst heq).symm

/-- Along a transitive relation an earlier value of a key leads to a later one. -/
theorem Chain.ordered {R : K → V → V → Prop} (htrans : ∀ k a b c, R k a b → R k b c → R k a c)
    {s : List (K × V)} (h : Chain R s) {k : K} {m n : ℕ} {v w : V} (hv : Holds s k m v)
    (hw : Holds s k n w) (hmn : m < n) : R k v w := by
  induction s with
  | nil =>
    obtain ⟨newer, older, heq, -⟩ := hv
    simp at heq
  | cons x s ih =>
    obtain ⟨j, u⟩ := x
    have hn := hw.revision_le
    rw [List.length_cons] at hn
    have hv' := hv.of_cons (by omega)
    rcases hw.cases_cons with ⟨hx, -⟩ | hw'
    · obtain ⟨rfl, rfl⟩ := Prod.mk.inj hx
      obtain ⟨e, he, hev⟩ := Chain.current htrans h.2 hv'.mem
      have hlast := h.1 e he
      rcases hev with rfl | hev
      · exact hlast
      · exact htrans _ _ _ _ hev hlast
    · exact ih h.2 hv' hw'

/-- Two values of one key are equal or related one way or the other. -/
theorem Chain.comparable {R : K → V → V → Prop}
    (htrans : ∀ k a b c, R k a b → R k b c → R k a c) {s : List (K × V)} (h : Chain R s) {k : K}
    {v w : V} (hv : (k, v) ∈ s) (hw : (k, w) ∈ s) : v = w ∨ R k v w ∨ R k w v := by
  induction s with
  | nil => simp at hv
  | cons x s ih =>
    obtain ⟨j, u⟩ := x
    obtain ⟨hlast, hs⟩ := chain_cons.mp h
    have hreach : ∀ y, (j, y) ∈ s → R j y u := by
      intro y hy
      obtain ⟨e, he, hey⟩ := Chain.current htrans hs hy
      rcases hey with rfl | hey
      · exact hlast e he
      · exact htrans _ _ _ _ hey (hlast e he)
    rcases List.mem_cons.mp hv with hv' | hv' <;> rcases List.mem_cons.mp hw with hw' | hw'
    · exact .inl ((congrArg Prod.snd hv').trans (congrArg Prod.snd hw').symm)
    · obtain ⟨rfl, rfl⟩ := Prod.mk.inj hv'
      exact .inr (.inr (hreach w hw'))
    · obtain ⟨rfl, rfl⟩ := Prod.mk.inj hw'
      exact .inr (.inl (hreach v hv'))
    · exact ih hs hv' hw'

/-- Every current entry among the first `n` writes has the property: what a watch
that stands at `n` has handed on. -/
def Delivered (P : K → V → Prop) (n : ℕ) (s : List (K × V)) : Prop :=
  ∀ k e, entry k s = some e → e.revision ≤ n → P k e.value

namespace Delivered

variable {P Q : K → V → Prop} {m n : ℕ} {s : List (K × V)}

theorem mono (h : Delivered P n s) (hPQ : ∀ k v, P k v → Q k v) (hm : m ≤ n) :
    Delivered Q m s := fun k e he hr => hPQ k e.value (h k e he (hr.trans hm))

theorem zero (P : K → V → Prop) (s : List (K × V)) : Delivered P 0 s := by
  intro k e he hr
  obtain ⟨_, older, _, hlen⟩ := Holds.of_entry he
  omega

theorem write (h : Delivered P n s) (hn : n ≤ s.length) (k : K) (v : V) :
    Delivered P n ((k, v) :: s) := by
  intro j e he hr
  by_cases hj : k = j
  · subst hj
    rw [entry_cons_self] at he
    obtain rfl := Option.some.inj he
    simp only at hr
    omega
  · rw [entry_cons_of_ne v s hj] at he
    exact h j e he hr

/-- The watch hands on its next write. -/
theorem next (h : Delivered P n s) {k : K} {v : V} (hnth : nth (n + 1) s = some (k, v))
    (hP : P k v) : Delivered P (n + 1) s := by
  intro j e he hr
  by_cases hlast : e.revision = n + 1
  · have hheld := Holds.of_entry he
    rw [hlast] at hheld
    obtain ⟨rfl, hv⟩ := hheld.unique (holds_of_nth hnth)
    rw [hv]
    exact hP
  · exact h j e he (by omega)

/-- The watch leaves out a write that a later one replaced. -/
theorem skip (h : Delivered P n s) {k : K} {v : V} (hnth : nth (n + 1) s = some (k, v))
    (hold : (entry k s).map Entry.revision ≠ some (n + 1)) : Delivered P (n + 1) s := by
  intro j e he hr
  by_cases hlast : e.revision = n + 1
  · have hheld := Holds.of_entry he
    rw [hlast] at hheld
    obtain ⟨rfl, -⟩ := hheld.unique (holds_of_nth hnth)
    exact absurd (by rw [he, Option.map_some, hlast]) hold
  · exact h j e he (by omega)

theorem all (h : Delivered P n s) (hn : s.length ≤ n) {k : K} {e : Entry V}
    (he : entry k s = some e) : P k e.value := h k e he ((Holds.of_entry he).revision_le.trans hn)

end Delivered

end Current

end History
