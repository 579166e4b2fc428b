import Mathlib.Tactic

/-!
# A key-value bucket with compare-and-set writes

The server side of a revisioned key-value store: every write takes the next
revision, `create` succeeds only on an absent key, `update` and `delete` only
while the key still has the revision they name. A revision is never given out
twice, so what a client read at a revision stays true of that revision for good:
`Known` is that fact, every operation preserves it, and a compare-and-set that
succeeds replaces exactly the value its issuer knew.
-/
namespace Bucket

variable {K V : Type*}

structure Entry (V : Type*) where
  revision : ℕ
  value : V

/-- A bucket state. `next` is above every revision in use. -/
structure Store (K V : Type*) where
  entries : K → Option (Entry V)
  next : ℕ
  fresh : ∀ k e, entries k = some e → e.revision < next

namespace Store

/-- Revisions are numbered from one. -/
def empty (K V : Type*) : Store K V where
  entries := fun _ => none
  next := 1
  fresh := by simp

@[simp] theorem empty_entries (k : K) : (empty K V).entries k = none := rfl

/-- The current value of a key, as a read sees it. -/
def value (b : Store K V) (k : K) : Option V := (b.entries k).map Entry.value

def revision (b : Store K V) (k : K) : Option ℕ := (b.entries k).map Entry.revision

variable [DecidableEq K]

/-- Put a value at the next revision, whatever the key held. -/
def write (b : Store K V) (k : K) (v : V) : Store K V where
  entries := Function.update b.entries k (some ⟨b.next, v⟩)
  next := b.next + 1
  fresh := by
    intro j e he
    by_cases hj : j = k
    · subst hj
      simp only [Function.update_self, Option.some.injEq] at he
      simp [← he]
    · rw [Function.update_of_ne hj] at he
      exact Nat.lt_succ_of_lt (b.fresh j e he)

/-- Remove a key. A delete marker takes a revision of its own. -/
def remove (b : Store K V) (k : K) : Store K V where
  entries := Function.update b.entries k none
  next := b.next + 1
  fresh := by
    intro j e he
    by_cases hj : j = k
    · subst hj
      simp at he
    · rw [Function.update_of_ne hj] at he
      exact Nat.lt_succ_of_lt (b.fresh j e he)

@[simp] theorem write_entries_self (b : Store K V) (k : K) (v : V) :
    (b.write k v).entries k = some ⟨b.next, v⟩ := by simp [write]

theorem write_entries_of_ne (b : Store K V) {j k : K} (v : V) (h : j ≠ k) :
    (b.write k v).entries j = b.entries j := by simp [write, h]

@[simp] theorem write_next (b : Store K V) (k : K) (v : V) :
    (b.write k v).next = b.next + 1 := rfl

@[simp] theorem remove_entries_self (b : Store K V) (k : K) :
    (b.remove k).entries k = none := by simp [remove]

theorem remove_entries_of_ne (b : Store K V) {j k : K} (h : j ≠ k) :
    (b.remove k).entries j = b.entries j := by simp [remove, h]

@[simp] theorem remove_next (b : Store K V) (k : K) : (b.remove k).next = b.next + 1 := rfl

/-- Create the key if it is absent. -/
def create (b : Store K V) (k : K) (v : V) : Option (Store K V) :=
  if b.revision k = none then some (b.write k v) else none

/-- Replace the value while the key still has revision `last`. -/
def update (b : Store K V) (k : K) (v : V) (last : ℕ) : Option (Store K V) :=
  if b.revision k = some last then some (b.write k v) else none

/-- Delete the key while it still has revision `last`. -/
def delete (b : Store K V) (k : K) (last : ℕ) : Option (Store K V) :=
  if b.revision k = some last then some (b.remove k) else none

theorem create_eq_some {b b' : Store K V} {k : K} {v : V} :
    b.create k v = some b' ↔ b.entries k = none ∧ b' = b.write k v := by
  simp only [create, revision, Option.map_eq_none_iff]
  split_ifs with h <;> simp [h, eq_comm]

theorem update_eq_some {b b' : Store K V} {k : K} {v : V} {last : ℕ} :
    b.update k v last = some b' ↔ b.revision k = some last ∧ b' = b.write k v := by
  simp only [update]
  split_ifs with h <;> simp [h, eq_comm]

theorem delete_eq_some {b b' : Store K V} {k : K} {last : ℕ} :
    b.delete k last = some b' ↔ b.revision k = some last ∧ b' = b.remove k := by
  simp only [delete]
  split_ifs with h <;> simp [h, eq_comm]

end Store

/-- Revision `r` of key `k` was given to the value `v`. -/
structure Known (b : Store K V) (k : K) (r : ℕ) (v : V) : Prop where
  issued : r < b.next
  value_eq : ∀ e, b.entries k = some e → e.revision = r → e.value = v

namespace Known

variable {b : Store K V} {j k : K} {r : ℕ} {v w : V}

theorem of_entry {e : Entry V} (h : b.entries k = some e) : Known b k e.revision e.value where
  issued := b.fresh k e h
  value_eq := by
    intro e' he' _
    rw [h] at he'
    rw [Option.some.inj he']

/-- A compare-and-set on a known revision finds the known value. -/
theorem current (h : Known b k r v) (hr : b.revision k = some r) :
    b.entries k = some ⟨r, v⟩ := by
  obtain ⟨e, he, her⟩ := Option.map_eq_some_iff.mp hr
  have hv := h.value_eq e he her
  rw [he, ← her, ← hv]

variable [DecidableEq K]

theorem write (h : Known b k r v) (j : K) (w : V) : Known (b.write j w) k r v where
  issued := Nat.lt_succ_of_lt h.issued
  value_eq := by
    intro e he hr
    by_cases hkj : k = j
    · subst hkj
      simp only [Store.write_entries_self, Option.some.injEq] at he
      have := h.issued
      subst he
      simp only at hr
      omega
    · rw [b.write_entries_of_ne w hkj] at he
      exact h.value_eq e he hr

theorem remove (h : Known b k r v) (j : K) : Known (b.remove j) k r v where
  issued := Nat.lt_succ_of_lt h.issued
  value_eq := by
    intro e he hr
    by_cases hkj : k = j
    · subst hkj
      simp at he
    · rw [b.remove_entries_of_ne hkj] at he
      exact h.value_eq e he hr

/-- The value a write leaves is known under the revision it took. -/
theorem written (b : Store K V) (k : K) (v : V) : Known (b.write k v) k b.next v :=
  of_entry (e := ⟨b.next, v⟩) (by simp)

end Known

/-- Whatever was known of one state is known of the other. -/
def Extends (b b' : Store K V) : Prop := ∀ k r v, Known b k r v → Known b' k r v

namespace Extends

theorem refl (b : Store K V) : Extends b b := fun _ _ _ h => h

variable [DecidableEq K]

theorem write (b : Store K V) (k : K) (v : V) : Extends b (b.write k v) :=
  fun _ _ _ h => h.write k v

theorem remove (b : Store K V) (k : K) : Extends b (b.remove k) := fun _ _ _ h => h.remove k

end Extends

end Bucket
