import Mathlib.Tactic

/-!
# Association lists as dictionaries

An insertion-ordered dictionary is a list of pairs. `assign` replaces a value in
place or appends the pair, `discard` removes a key, `sortByKey` orders the pairs.
Reading a key commutes with each of them.
-/
namespace Assoc

variable {K V W : Type*}

section Keys

variable [DecidableEq K]

def lookup (k : K) : List (K × V) → Option V
  | [] => none
  | (j, v) :: rest => if j = k then some v else lookup k rest

def assign (k : K) (v : V) : List (K × V) → List (K × V)
  | [] => [(k, v)]
  | (j, w) :: rest => if j = k then (j, v) :: rest else (j, w) :: assign k v rest

def discard (k : K) (d : List (K × V)) : List (K × V) := d.filter fun e => e.1 ≠ k

@[simp] theorem lookup_nil (k : K) : lookup k ([] : List (K × V)) = none := rfl

theorem lookup_cons (k : K) (e : K × V) (d : List (K × V)) :
    lookup k (e :: d) = if e.1 = k then some e.2 else lookup k d := rfl

@[simp] theorem lookup_cons_self (k : K) (v : V) (d : List (K × V)) :
    lookup k ((k, v) :: d) = some v := by simp [lookup_cons]

theorem lookup_cons_of_ne {j k : K} (v : V) (d : List (K × V)) (h : j ≠ k) :
    lookup k ((j, v) :: d) = lookup k d := by simp [lookup_cons, h]

theorem mem_of_lookup {k : K} {v : V} {d : List (K × V)} (h : lookup k d = some v) :
    (k, v) ∈ d := by
  induction d with
  | nil => simp at h
  | cons e d ih =>
    rw [lookup_cons] at h
    split_ifs at h with he
    · have hv : e.2 = v := Option.some.inj h
      rw [← he, ← hv]
      exact List.mem_cons_self
    · exact List.mem_cons_of_mem e (ih h)

theorem lookup_eq_none {k : K} {d : List (K × V)} :
    lookup k d = none ↔ ∀ e ∈ d, e.1 ≠ k := by
  induction d with
  | nil => simp
  | cons e d ih =>
    rw [lookup_cons]
    split_ifs with he
    · simp [he]
    · simp [he, ih]

theorem lookup_append (k : K) (d d' : List (K × V)) :
    lookup k (d ++ d') = (lookup k d).or (lookup k d') := by
  induction d with
  | nil => simp
  | cons e d ih =>
    simp only [List.cons_append, lookup_cons]
    split_ifs with he
    · rfl
    · exact ih

theorem lookup_map (f : V → W) (k : K) (d : List (K × V)) :
    lookup k (d.map fun e => (e.1, f e.2)) = (lookup k d).map f := by
  induction d with
  | nil => rfl
  | cons e d ih =>
    simp only [List.map_cons, lookup_cons]
    split_ifs with he
    · rfl
    · exact ih

/-- The new value may depend on the key it stays under. -/
theorem lookup_map_key (f : K → V → W) (k : K) (d : List (K × V)) :
    lookup k (d.map fun e => (e.1, f e.1 e.2)) = (lookup k d).map (f k) := by
  induction d with
  | nil => rfl
  | cons e d ih =>
    simp only [List.map_cons, lookup_cons]
    split_ifs with he
    · rw [he, Option.map_some]
    · exact ih

/-- Renaming keys and values renames what a key reads, if no other key gets its name. -/
theorem lookup_rename {J : Type*} [DecidableEq J] {f : K → J} (g : V → W) {k : K}
    {d : List (K × V)} (h : ∀ e ∈ d, f e.1 = f k → e.1 = k) :
    lookup (f k) (d.map fun e => (f e.1, g e.2)) = (lookup k d).map g := by
  induction d with
  | nil => rfl
  | cons e d ih =>
    have hd := ih fun x hx => h x (List.mem_cons_of_mem e hx)
    simp only [List.map_cons, lookup_cons]
    by_cases he : e.1 = k
    · simp [he]
    · have hne : f e.1 ≠ f k := fun hf => he (h e List.mem_cons_self hf)
      simp [he, hne, hd]

theorem discard_rename {J : Type*} [DecidableEq J] {f : K → J} (g : V → W) {k : K}
    {d : List (K × V)} (h : ∀ e ∈ d, f e.1 = f k → e.1 = k) :
    discard (f k) (d.map fun e => (f e.1, g e.2)) =
      (discard k d).map fun e => (f e.1, g e.2) := by
  simp only [discard, List.filter_map]
  congr 1
  refine List.filter_congr fun e he => ?_
  have hiff : f e.1 = f k ↔ e.1 = k := ⟨h e he, fun hk => by rw [hk]⟩
  simp [hiff]

@[simp] theorem lookup_assign_self (k : K) (v : V) (d : List (K × V)) :
    lookup k (assign k v d) = some v := by
  induction d with
  | nil => simp [assign]
  | cons e d ih =>
    obtain ⟨j, w⟩ := e
    simp only [assign]
    split_ifs with hj
    · simp [lookup_cons, hj]
    · rw [lookup_cons_of_ne w _ hj, ih]

theorem lookup_assign_of_ne {j k : K} (v : V) (d : List (K × V)) (h : j ≠ k) :
    lookup k (assign j v d) = lookup k d := by
  induction d with
  | nil => simp [assign, lookup_cons, h]
  | cons e d ih =>
    obtain ⟨i, w⟩ := e
    simp only [assign]
    split_ifs with hi
    · subst hi
      rw [lookup_cons_of_ne _ _ h, lookup_cons_of_ne _ _ h]
    · simp only [lookup_cons, ih]

theorem mem_assign {k : K} {v : V} {e : K × V} {d : List (K × V)} (h : e ∈ assign k v d) :
    e = (k, v) ∨ e ∈ d := by
  induction d with
  | nil => exact .inl (List.mem_singleton.mp h)
  | cons a d ih =>
    obtain ⟨j, w⟩ := a
    simp only [assign] at h
    split_ifs at h with hj
    · rcases List.mem_cons.mp h with rfl | h
      · exact .inl (by rw [hj])
      · exact .inr (List.mem_cons_of_mem _ h)
    · rcases List.mem_cons.mp h with rfl | h
      · exact .inr List.mem_cons_self
      · exact (ih h).imp_right (List.mem_cons_of_mem _)

theorem mem_assign_of_ne {k : K} (v : V) {e : K × V} {d : List (K × V)} (h : e ∈ d)
    (hk : e.1 ≠ k) : e ∈ assign k v d := by
  induction d with
  | nil => exact absurd h List.not_mem_nil
  | cons a d ih =>
    obtain ⟨j, w⟩ := a
    simp only [assign]
    split_ifs with hj
    · rcases List.mem_cons.mp h with rfl | h
      · exact absurd hj hk
      · exact List.mem_cons_of_mem _ h
    · rcases List.mem_cons.mp h with rfl | h
      · exact List.mem_cons_self
      · exact List.mem_cons_of_mem _ (ih h)

@[simp] theorem lookup_discard_self (k : K) (d : List (K × V)) :
    lookup k (discard k d) = none := by
  simp [lookup_eq_none, discard]

theorem lookup_discard_of_ne {j k : K} (d : List (K × V)) (h : j ≠ k) :
    lookup k (discard j d) = lookup k d := by
  induction d with
  | nil => rfl
  | cons e d ih =>
    simp only [discard, List.filter_cons] at ih ⊢
    split_ifs with he
    · rw [lookup_cons, lookup_cons, ih]
    · have hej : e.1 = j := by simpa using he
      rw [ih, lookup_cons, if_neg (by rw [hej]; exact h)]

theorem discard_of_lookup_eq_none {k : K} {d : List (K × V)} (h : lookup k d = none) :
    discard k d = d := by
  rw [discard, List.filter_eq_self]
  intro e he
  simpa using lookup_eq_none.mp h e he

theorem discard_append (k : K) (d d' : List (K × V)) :
    discard k (d ++ d') = discard k d ++ discard k d' := List.filter_append ..

@[simp] theorem discard_singleton (k : K) (v : V) : discard k [(k, v)] = [] := by simp [discard]

theorem length_discard_le (k : K) (d : List (K × V)) : (discard k d).length ≤ d.length :=
  List.length_filter_le _ d

theorem length_discard_lt {k : K} {d : List (K × V)} (h : lookup k d ≠ none) :
    (discard k d).length < d.length := by
  refine List.length_filter_lt_length_iff_exists.mpr ?_
  obtain ⟨v, hv⟩ := Option.ne_none_iff_exists'.mp h
  exact ⟨(k, v), mem_of_lookup hv, by simp⟩

/-- Put the pair last, as `move_to_end` does. -/
def putLast (k : K) (v : V) (d : List (K × V)) : List (K × V) := discard k d ++ [(k, v)]

@[simp] theorem lookup_putLast_self (k : K) (v : V) (d : List (K × V)) :
    lookup k (putLast k v d) = some v := by
  rw [putLast, lookup_append, lookup_discard_self, lookup_cons_self]
  rfl

theorem lookup_putLast_of_ne {j k : K} (v : V) (d : List (K × V)) (h : j ≠ k) :
    lookup k (putLast j v d) = lookup k d := by
  rw [putLast, lookup_append, lookup_discard_of_ne d h, lookup_cons_of_ne v [] h, lookup_nil,
    Option.or_none]

theorem mem_putLast {k : K} {v : V} {e : K × V} {d : List (K × V)} (h : e ∈ putLast k v d) :
    e = (k, v) ∨ e ∈ d := by
  rcases List.mem_append.mp h with h | h
  · exact .inr (List.mem_of_mem_filter h)
  · exact .inl (List.mem_singleton.mp h)

theorem discard_map (f : V → W) (k : K) (d : List (K × V)) :
    discard k (d.map fun e => (e.1, f e.2)) = (discard k d).map fun e => (e.1, f e.2) := by
  simp [discard, List.filter_map, Function.comp_def]

/-- Distinct keys. -/
def Distinct (d : List (K × V)) : Prop := (d.map Prod.fst).Nodup

theorem Distinct.assign {d : List (K × V)} (h : Distinct d) (k : K) (v : V) :
    Distinct (assign k v d) := by
  induction d with
  | nil => simp [Assoc.assign, Distinct]
  | cons e d ih =>
    obtain ⟨he, hd⟩ := List.nodup_cons.mp h
    simp only [Assoc.assign]
    split_ifs with hk
    · exact h
    · refine List.nodup_cons.mpr ⟨fun hmem => ?_, ih hd⟩
      obtain ⟨x, hx, hxe⟩ := List.mem_map.mp hmem
      rcases mem_assign hx with rfl | hx
      · exact hk hxe.symm
      · exact he (List.mem_map.mpr ⟨x, hx, hxe⟩)

theorem Distinct.lookup {k : K} {v : V} {d : List (K × V)} (h : Distinct d) (hm : (k, v) ∈ d) :
    lookup k d = some v := by
  induction d with
  | nil => simp at hm
  | cons e d ih =>
    obtain ⟨hne, hd⟩ := List.nodup_cons.mp h
    rcases List.mem_cons.mp hm with rfl | hm
    · simp
    · have hk : e.1 ≠ k := by
        intro hk
        exact hne (hk ▸ List.mem_map_of_mem (f := Prod.fst) hm)
      rw [lookup_cons, if_neg hk]
      exact ih hd hm

theorem Distinct.lookup_filter {d : List (K × V)} (h : Distinct d) (p : K × V → Bool) (k : K) :
    Assoc.lookup k (d.filter p) = (Assoc.lookup k d).filter fun v => p (k, v) := by
  induction d with
  | nil => rfl
  | cons e d ih =>
    obtain ⟨hne, hd⟩ := List.nodup_cons.mp h
    by_cases hk : e.1 = k
    · subst hk
      have hnone : Assoc.lookup e.1 d = none := by
        rw [lookup_eq_none]
        intro x hx hxe
        exact hne (hxe ▸ List.mem_map_of_mem (f := Prod.fst) hx)
      rw [lookup_cons, if_pos rfl, List.filter_cons]
      split_ifs with hp
      · rw [lookup_cons, if_pos rfl, Option.filter_some, if_pos hp]
      · rw [ih hd, hnone, Option.filter_some, if_neg hp]
        rfl
    · rw [lookup_cons, if_neg hk, List.filter_cons]
      split_ifs
      · rw [lookup_cons, if_neg hk, ih hd]
      · exact ih hd

theorem mem_foldl_assign {name : V → K} {l : List V} {d : List (K × V)} {e : K × V}
    (h : e ∈ l.foldl (fun d v => assign (name v) v d) d) :
    e ∈ d ∨ ∃ v ∈ l, e = (name v, v) := by
  induction l generalizing d with
  | nil => exact .inl h
  | cons v l ih =>
    rcases ih h with h | ⟨w, hw, heq⟩
    · rcases mem_assign h with rfl | h
      · exact .inr ⟨v, List.mem_cons_self, rfl⟩
      · exact .inl h
    · exact .inr ⟨w, List.mem_cons_of_mem v hw, heq⟩

theorem assign_of_not_mem {k : K} (v : V) {d : List (K × V)} (h : k ∉ d.map Prod.fst) :
    assign k v d = d ++ [(k, v)] := by
  induction d with
  | nil => rfl
  | cons e d ih =>
    obtain ⟨j, w⟩ := e
    simp only [List.map_cons, List.mem_cons, not_or] at h
    rw [assign, if_neg (Ne.symm h.1), ih h.2, List.cons_append]

/-- Pairs with distinct keys are their own dictionary. -/
theorem foldl_assign_eq {l d : List (K × V)} (h : Distinct (d ++ l)) :
    l.foldl (fun d e => assign e.1 e.2 d) d = d ++ l := by
  induction l generalizing d with
  | nil => simp
  | cons e l ih =>
    have hnot : e.1 ∉ d.map Prod.fst := by
      intro hmem
      rw [Distinct, List.map_append] at h
      exact List.disjoint_of_nodup_append h hmem (by simp)
    rw [List.foldl_cons, assign_of_not_mem _ hnot, ih (by simpa using h)]
    simp

end Keys

section Sorting

variable [LinearOrder K]

/-- The pairs in the order of their keys. -/
def sortByKey (d : List (K × V)) : List (K × V) := d.insertionSort fun a b => a.1 ≤ b.1

theorem sortByKey_cons (e : K × V) (d : List (K × V)) :
    sortByKey (e :: d) = (sortByKey d).orderedInsert (fun a b => a.1 ≤ b.1) e := rfl

theorem sortByKey_pairwise (d : List (K × V)) :
    (sortByKey d).Pairwise fun a b => a.1 ≤ b.1 := by
  have htotal : Std.Total fun a b : K × V => a.1 ≤ b.1 := ⟨fun a b => le_total a.1 b.1⟩
  have htrans : IsTrans (K × V) fun a b => a.1 ≤ b.1 := ⟨fun _ _ _ => le_trans⟩
  exact List.pairwise_insertionSort _ d

theorem sortByKey_perm (d : List (K × V)) : (sortByKey d).Perm d := List.perm_insertionSort _ d

theorem mem_sortByKey {e : K × V} {d : List (K × V)} : e ∈ sortByKey d ↔ e ∈ d :=
  (sortByKey_perm d).mem_iff

@[simp] theorem sortByKey_sortByKey (d : List (K × V)) : sortByKey (sortByKey d) = sortByKey d :=
  List.Pairwise.insertionSort_eq (sortByKey_pairwise d)

theorem sortByKey_map (f : V → W) (d : List (K × V)) :
    sortByKey (d.map fun e => (e.1, f e.2)) = (sortByKey d).map fun e => (e.1, f e.2) := by
  exact (List.map_insertionSort _ _ (fun e : K × V => (e.1, f e.2)) d
    fun _ _ _ _ => Iff.rfl).symm

variable [DecidableEq K]

theorem lookup_orderedInsert (k : K) (e : K × V) (d : List (K × V)) :
    lookup k (d.orderedInsert (fun a b => a.1 ≤ b.1) e) = lookup k (e :: d) := by
  induction d with
  | nil => rfl
  | cons a d ih =>
    simp only [List.orderedInsert]
    split_ifs with hle
    · rfl
    · rw [lookup_cons, ih, lookup_cons, lookup_cons, lookup_cons]
      by_cases ha : a.1 = k
      · have he : e.1 ≠ k := fun he => hle (by rw [he, ha])
        simp [ha, he]
      · simp [ha]

/-- Sorting does not change what a key reads. -/
@[simp] theorem lookup_sortByKey (k : K) (d : List (K × V)) :
    lookup k (sortByKey d) = lookup k d := by
  induction d with
  | nil => rfl
  | cons e d ih => rw [sortByKey_cons, lookup_orderedInsert, lookup_cons, lookup_cons, ih]

theorem discard_orderedInsert (k : K) (e : K × V) {d : List (K × V)}
    (h : d.Pairwise fun a b => a.1 ≤ b.1) :
    discard k (d.orderedInsert (fun a b => a.1 ≤ b.1) e) =
      if e.1 = k then discard k d
      else (discard k d).orderedInsert (fun a b => a.1 ≤ b.1) e := by
  induction d with
  | nil =>
    split_ifs with he
    · simp [discard, he]
    · simp [discard, he]
  | cons a d ih =>
    obtain ⟨hle, hd⟩ := List.pairwise_cons.mp h
    have hall : e.1 ≤ a.1 → ∀ b ∈ discard k (a :: d), e.1 ≤ b.1 := by
      intro hea b hb
      rcases List.mem_cons.mp (List.mem_of_mem_filter hb) with rfl | hb
      · exact hea
      · exact hea.trans (hle b hb)
    have hins : ∀ l : List (K × V), (∀ b ∈ l, e.1 ≤ b.1) →
        l.orderedInsert (fun a b => a.1 ≤ b.1) e = e :: l := by
      intro l hl
      cases l with
      | nil => rfl
      | cons b l => simp [List.orderedInsert, hl b List.mem_cons_self]
    simp only [List.orderedInsert]
    split_ifs with hea he he
    · simp [discard, he]
    · rw [hins _ (hall hea)]
      simp [discard, he]
    · have := ih hd
      rw [if_pos he] at this
      simp only [discard, List.filter_cons] at this ⊢
      rw [this]
    · have := ih hd
      rw [if_neg he] at this
      simp only [discard, List.filter_cons] at this ⊢
      split_ifs with ha
      · rw [this]
        simp [List.orderedInsert, hea]
      · rw [this]

/-- Sorting commutes with removing a key. -/
theorem discard_sortByKey (k : K) (d : List (K × V)) :
    discard k (sortByKey d) = sortByKey (discard k d) := by
  induction d with
  | nil => rfl
  | cons e d ih =>
    rw [sortByKey_cons, discard_orderedInsert k e (sortByKey_pairwise d), ih]
    split_ifs with he
    · simp [discard, he]
    · have hcons : discard k (e :: d) = e :: discard k d := by simp [discard, he]
      rw [hcons, sortByKey_cons]

end Sorting

end Assoc
