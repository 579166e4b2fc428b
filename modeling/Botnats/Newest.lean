import Botnats.Assoc

/-!
# The newest of each name

Items have a name and a rank. A dictionary indexes a list of items if it holds, under
each name, one that no other item of the name outranks. Adopting an item keeps that, and
the index of a coarser naming can be made from the items of a finer index as well as from
all of them.
-/
namespace Newest

variable {K J α β : Type*} [LinearOrder β]
variable {name : α → K} {rank : α → β} {d d' : List (K × α)} {l l' : List α} {k : K} {x y : α}

/-- No item of the name outranks this one. -/
structure IsNewest (name : α → K) (rank : α → β) (l : List α) (k : K) (x : α) : Prop where
  mem : x ∈ l
  named : name x = k
  le : ∀ y ∈ l, name y = k → rank y ≤ rank x

/-- Ranks tell the items of the list apart. -/
def Ranked (rank : α → β) (l : List α) : Prop := ∀ x ∈ l, ∀ y ∈ l, rank x = rank y → x = y

theorem IsNewest.unique (hl : Ranked rank l) (hx : IsNewest name rank l k x)
    (hy : IsNewest name rank l k y) : x = y :=
  hl x hx.mem y hy.mem (le_antisymm (hy.le x hx.mem hx.named) (hx.le y hy.mem hy.named))

/-- Only what the list holds matters. -/
theorem IsNewest.congr (h : ∀ y, y ∈ l ↔ y ∈ l') (hx : IsNewest name rank l k x) :
    IsNewest name rank l' k x :=
  ⟨(h x).mp hx.mem, hx.named, fun y hy => hx.le y ((h y).mpr hy)⟩

variable [DecidableEq K] [DecidableEq J]

/-- The dictionary holds an item of each name that is as high as any. -/
structure Indexes (name : α → K) (rank : α → β) (l : List α) (d : List (K × α)) : Prop where
  sound : ∀ k x, Assoc.lookup k d = some x → x ∈ l ∧ name x = k
  complete : ∀ y ∈ l, ∃ x, Assoc.lookup (name y) d = some x ∧ rank y ≤ rank x

theorem Indexes.nil : Indexes name rank [] [] := ⟨by simp, by simp⟩

theorem Indexes.isNewest (h : Indexes name rank l d) (hx : Assoc.lookup k d = some x) :
    IsNewest name rank l k x := by
  obtain ⟨hmem, hnamed⟩ := h.sound k x hx
  refine ⟨hmem, hnamed, fun y hy hyk => ?_⟩
  obtain ⟨z, hz, hle⟩ := h.complete y hy
  rw [hyk, hx] at hz
  rwa [Option.some.inj hz]

theorem Indexes.lookup_iff (h : Indexes name rank l d) (hl : Ranked rank l) :
    Assoc.lookup k d = some x ↔ IsNewest name rank l k x := by
  refine ⟨h.isNewest, fun hx => ?_⟩
  obtain ⟨z, hz, -⟩ := h.complete x hx.mem
  rw [hx.named] at hz
  rw [hz, hx.unique hl (h.isNewest hz)]

/-- Dictionaries that index the same items read alike. -/
theorem Indexes.lookup_eq (h : Indexes name rank l d) (h' : Indexes name rank l' d')
    (hl : Ranked rank l) (hmem : ∀ y, y ∈ l ↔ y ∈ l') (k : K) :
    Assoc.lookup k d = Assoc.lookup k d' := by
  have hl' : Ranked rank l' := fun x hx y hy => hl x ((hmem x).mpr hx) y ((hmem y).mpr hy)
  refine Option.ext fun x => ?_
  rw [h.lookup_iff hl, h'.lookup_iff hl']
  exact ⟨fun hx => hx.congr hmem, fun hx => hx.congr fun y => (hmem y).symm⟩

/-- The dictionary holds an item of the name that ranks as high. -/
def Covers (rank : α → β) (d : List (K × α)) (k : K) (r : β) : Prop :=
  ∃ x, Assoc.lookup k d = some x ∧ r ≤ rank x

/-- An item that is covered already leaves the dictionary an index. -/
theorem Indexes.skip (h : Indexes name rank l d) (hx : Covers rank d (name x) (rank x)) :
    Indexes name rank (l ++ [x]) d where
  sound k y hy := ⟨List.mem_append_left _ (h.sound k y hy).1, (h.sound k y hy).2⟩
  complete y hy := by
    rcases List.mem_append.mp hy with hy | hy
    · exact h.complete y hy
    · obtain rfl := List.mem_singleton.mp hy
      exact hx

/-- An item that is not covered takes its name's place. -/
theorem Indexes.assign (h : Indexes name rank l d) (hx : ¬ Covers rank d (name x) (rank x)) :
    Indexes name rank (l ++ [x]) (Assoc.assign (name x) x d) where
  sound k y hy := by
    by_cases hk : name x = k
    · subst hk
      rw [Assoc.lookup_assign_self] at hy
      obtain rfl := Option.some.inj hy
      exact ⟨by simp, rfl⟩
    · rw [Assoc.lookup_assign_of_ne _ _ hk] at hy
      exact ⟨List.mem_append_left _ (h.sound k y hy).1, (h.sound k y hy).2⟩
  complete y hy := by
    by_cases hk : name x = name y
    · rw [← hk]
      refine ⟨x, Assoc.lookup_assign_self _ _ _, ?_⟩
      rcases List.mem_append.mp hy with hy | hy
      · obtain ⟨z, hz, hle⟩ := h.complete y hy
        rw [← hk] at hz
        by_contra hlt
        exact hx ⟨z, hz, (not_le.mp hlt).le.trans hle⟩
      · obtain rfl := List.mem_singleton.mp hy
        exact le_rfl
    · rw [Assoc.lookup_assign_of_ne _ _ hk]
      rcases List.mem_append.mp hy with hy | hy
      · exact h.complete y hy
      · exact absurd (by rw [List.mem_singleton.mp hy]) hk

section Coarsen

variable {coarse : α → J} {e : List (J × α)}

/-- What a finer index holds of an item, a coarser one covers. -/
theorem Indexes.covers (h : Indexes name rank l d) (he : Indexes coarse rank l e)
    (hcoarse : ∀ x y, name x = name y → coarse x = coarse y)
    (hx : Covers rank d (name x) (rank x)) : Covers rank e (coarse x) (rank x) := by
  obtain ⟨y, hy, hle⟩ := hx
  obtain ⟨hmem, hnamed⟩ := h.sound _ _ hy
  obtain ⟨z, hz, hle'⟩ := he.complete y hmem
  rw [hcoarse y x hnamed] at hz
  exact ⟨z, hz, hle.trans hle'⟩

/-- An index of the items of a finer index indexes all items. -/
theorem Indexes.coarsen (h : Indexes name rank l d)
    (hcoarse : ∀ x y, name x = name y → coarse x = coarse y)
    (he : Indexes coarse rank (d.map Prod.snd) e) (hd : Assoc.Distinct d) :
    Indexes coarse rank l e where
  sound k x hx := by
    obtain ⟨hmem, hnamed⟩ := he.sound k x hx
    obtain ⟨p, hp, rfl⟩ := List.mem_map.mp hmem
    exact ⟨(h.sound p.1 p.2 (hd.lookup hp)).1, hnamed⟩
  complete y hy := by
    obtain ⟨x, hx, hle⟩ := h.complete y hy
    obtain ⟨z, hz, hle'⟩ := he.complete x
      (List.mem_map.mpr ⟨(name y, x), Assoc.mem_of_lookup hx, rfl⟩)
    rw [hcoarse x y (h.sound _ _ hx).2] at hz
    exact ⟨z, hz, hle.trans hle'⟩

/-- An index of all items indexes the items of a finer index. -/
theorem Indexes.restrict (h : Indexes name rank l d) (hl : Ranked rank l)
    (hcoarse : ∀ x y, name x = name y → coarse x = coarse y)
    (he : Indexes coarse rank l e) (hd : Assoc.Distinct d) :
    Indexes coarse rank (d.map Prod.snd) e where
  sound k x hx := by
    obtain ⟨hmem, hnamed⟩ := he.sound k x hx
    -- the newest of the coarse name is the newest of its own name
    have hnewest : IsNewest name rank l (name x) x := by
      refine ⟨hmem, rfl, fun y hy hyx => (he.isNewest hx).le y hy ?_⟩
      rw [hcoarse y x hyx, hnamed]
    have hlookup := (h.lookup_iff hl).mpr hnewest
    exact ⟨List.mem_map.mpr ⟨(name x, x), Assoc.mem_of_lookup hlookup, rfl⟩, hnamed⟩
  complete y hy := by
    obtain ⟨p, hp, rfl⟩ := List.mem_map.mp hy
    exact he.complete p.2 (h.sound p.1 p.2 (hd.lookup hp)).1

end Coarsen

end Newest
