import Botnats.Assoc
import Botnats.Signing

/-!
# JSON values and their canonical text

The values `json.loads` builds and the text `json.dumps` writes with sorted keys
and compact separators. `ensure_ascii` escapes a string by its UTF-16 code units,
so the text does not tell a surrogate pair from the character it stands for:
`canonical` is a value up to the order of keys and up to joining such pairs, and
the text determines exactly that.
-/
namespace Botnats

/-- A parsed JSON value over a type of strings; objects in insertion order. -/
inductive JsonOf (σ : Type)
  | null
  | bool (b : Bool)
  | int (n : ℤ)
  | float (x : PyFloat)
  | str (s : σ)
  | arr (items : List (JsonOf σ))
  | obj (fields : List (σ × JsonOf σ))

abbrev Json := JsonOf Str

abbrev Fields := List (Str × Json)

/-- `CAS_ATTEMPT_LIMIT`: the rounds in which `put_newer` tries to replace a stored value -/
def casAttemptLimit : ℕ := 8

namespace JsonOf

variable {σ τ : Type}

theorem induct {P : JsonOf σ → Prop} (null : P .null) (bool : ∀ b, P (.bool b))
    (int : ∀ n, P (.int n)) (float : ∀ x, P (.float x)) (str : ∀ s, P (.str s))
    (arr : ∀ items, (∀ v ∈ items, P v) → P (.arr items))
    (obj : ∀ fields, (∀ e ∈ fields, P e.2) → P (.obj fields)) : ∀ v, P v
  | .null => null
  | .bool b => bool b
  | .int n => int n
  | .float x => float x
  | .str s => str s
  | .arr vs => arr vs (items vs)
  | .obj es => obj es (fields es)
where
  items : ∀ (vs : List (JsonOf σ)), ∀ v ∈ vs, P v
    | [] => List.forall_mem_nil _
    | w :: ws => List.forall_mem_cons.mpr ⟨induct null bool int float str arr obj w, items ws⟩
  fields : ∀ (es : List (σ × JsonOf σ)), ∀ e ∈ es, P e.2
    | [] => List.forall_mem_nil _
    | (_, w) :: ws =>
      List.forall_mem_cons.mpr ⟨induct null bool int float str arr obj w, fields ws⟩

/-- Rewrite every string, keys included. -/
def map (f : σ → τ) : JsonOf σ → JsonOf τ
  | .null => .null
  | .bool b => .bool b
  | .int n => .int n
  | .float x => .float x
  | .str s => .str (f s)
  | .arr vs => .arr (mapItems vs)
  | .obj es => .obj (mapFields es)
where
  mapItems : List (JsonOf σ) → List (JsonOf τ)
    | [] => []
    | v :: vs => map f v :: mapItems vs
  mapFields : List (σ × JsonOf σ) → List (τ × JsonOf τ)
    | [] => []
    | (k, v) :: es => (f k, map f v) :: mapFields es

@[simp] theorem mapItems_eq (f : σ → τ) (vs : List (JsonOf σ)) :
    map.mapItems f vs = vs.map (map f) := by
  induction vs with
  | nil => rfl
  | cons v vs ih => simp [map.mapItems, ih]

@[simp] theorem mapFields_eq (f : σ → τ) (es : List (σ × JsonOf σ)) :
    map.mapFields f es = es.map fun e => (f e.1, map f e.2) := by
  induction es with
  | nil => rfl
  | cons e es ih => simp [map.mapFields, ih]

end JsonOf

namespace Json

/-- `sort_keys`: the fields of every object in the order of their keys. -/
def sortKeys : Json → Json
  | .arr vs => .arr (items vs)
  | .obj es => .obj (Assoc.sortByKey (fields es))
  | v => v
where
  items : List Json → List Json
    | [] => []
    | v :: vs => sortKeys v :: items vs
  fields : Fields → Fields
    | [] => []
    | (k, v) :: es => (k, sortKeys v) :: fields es

@[simp] theorem sortKeys_items (vs : List Json) : sortKeys.items vs = vs.map sortKeys := by
  induction vs with
  | nil => rfl
  | cons v vs ih => simp [sortKeys.items, ih]

@[simp] theorem sortKeys_fields (es : Fields) :
    sortKeys.fields es = es.map fun e => (e.1, sortKeys e.2) := by
  induction es with
  | nil => rfl
  | cons e es ih => simp [sortKeys.fields, ih]

@[simp] theorem sortKeys_arr (vs : List Json) : sortKeys (.arr vs) = .arr (vs.map sortKeys) := by
  simp [sortKeys]

@[simp] theorem sortKeys_obj (es : Fields) :
    sortKeys (.obj es) = .obj (Assoc.sortByKey (es.map fun e => (e.1, sortKeys e.2))) := by
  simp [sortKeys]

@[simp] theorem sortKeys_str (s : Str) : sortKeys (.str s) = .str s := rfl

@[simp] theorem sortKeys_int (n : ℤ) : sortKeys (.int n) = .int n := rfl

@[simp] theorem sortKeys_sortKeys (v : Json) : sortKeys (sortKeys v) = sortKeys v := by
  induction v using JsonOf.induct with
  | arr vs ih =>
    simp only [sortKeys_arr, List.map_map]
    congr 1
    exact List.map_congr_left fun v hv => ih v hv
  | obj es ih =>
    simp only [sortKeys_obj]
    rw [← Assoc.sortByKey_map, Assoc.sortByKey_sortByKey, List.map_map]
    congr 2
    exact List.map_congr_left fun e he => Prod.ext rfl (ih e he)
  | _ => rfl

end Json

/-! ## Code units and escapes -/

abbrev CodeUnit := Fin 0x10000

instance neZero_codeUnits : NeZero 0x10000 := ⟨by decide⟩

/-- The code units of one code point. -/
def units (c : CodePoint) : List CodeUnit :=
  if h : c.val < 0x10000 then [⟨c.val, h⟩]
  else [Fin.ofNat 0x10000 (0xD800 + (c.val - 0x10000) / 1024),
    Fin.ofNat 0x10000 (0xDC00 + (c.val - 0x10000) % 1024)]

def utf16 (s : Str) : List CodeUnit := s.flatMap units

/-- A string of code points below the surrogates. -/
def Low (s : Str) : Prop := ∀ c ∈ s, c.val < 0xD800

theorem low_of_all {s : Str} (h : (s.all fun c => decide (c.val < 0xD800)) = true) : Low s := by
  intro c hc
  exact of_decide_eq_true (List.all_eq_true.mp h c hc)

theorem units_of_lt {c : CodePoint} (h : c.val < 0x10000) : units c = [⟨c.val, h⟩] := by
  simp [units, h]

/-- A character outside the basic plane starts with a surrogate. -/
theorem units_of_le {c : CodePoint} (h : 0x10000 ≤ c.val) :
    ∃ u v, units c = [u, v] ∧ u.val = 0xD800 + (c.val - 0x10000) / 1024 ∧
      v.val = 0xDC00 + (c.val - 0x10000) % 1024 := by
  have hc := c.isLt
  refine ⟨_, _, by rw [units, dif_neg (by omega)], ?_, ?_⟩
  · rw [Fin.val_ofNat, Nat.mod_eq_of_lt (by omega)]
  · rw [Fin.val_ofNat, Nat.mod_eq_of_lt (by omega)]

theorem units_ne_nil (c : CodePoint) : units c ≠ [] := by
  unfold units
  split_ifs <;> simp

/-- Two characters are told apart by their code units, unless one is a high
surrogate and the other is outside the basic plane. -/
theorem units_inj {c d : CodePoint} {x y : List CodeUnit}
    (hc : 0x10000 ≤ d.val → ¬ (0xD800 ≤ c.val ∧ c.val < 0xDC00))
    (hd : 0x10000 ≤ c.val → ¬ (0xD800 ≤ d.val ∧ d.val < 0xDC00))
    (h : units c ++ x = units d ++ y) : c = d ∧ x = y := by
  have hclt := c.isLt
  have hdlt := d.isLt
  by_cases hcb : c.val < 0x10000
  · rw [units_of_lt hcb, List.singleton_append] at h
    by_cases hdb : d.val < 0x10000
    · rw [units_of_lt hdb, List.singleton_append] at h
      obtain ⟨hhead, htail⟩ := List.cons.inj h
      have hval : c.val = d.val := by simpa using hhead
      exact ⟨Fin.ext hval, htail⟩
    · obtain ⟨u, v, hu, huv, _⟩ := units_of_le (not_lt.mp hdb)
      rw [hu, List.cons_append] at h
      have hval : c.val = u.val := congrArg Fin.val (List.cons.inj h).1
      have := hc (not_lt.mp hdb)
      omega
  · obtain ⟨u, v, hu, huv, hvv⟩ := units_of_le (not_lt.mp hcb)
    rw [hu, List.cons_append] at h
    by_cases hdb : d.val < 0x10000
    · rw [units_of_lt hdb, List.singleton_append] at h
      have hval : u.val = d.val := congrArg Fin.val (List.cons.inj h).1
      have := hd (not_lt.mp hcb)
      omega
    · obtain ⟨u', v', hu', huv', hvv'⟩ := units_of_le (not_lt.mp hdb)
      rw [hu', List.cons_append] at h
      obtain ⟨hhead, htail⟩ := List.cons.inj h
      obtain ⟨hhead', htail'⟩ := List.cons.inj htail
      have hval : u.val = u'.val := congrArg Fin.val hhead
      have hval' : v.val = v'.val := congrArg Fin.val hhead'
      exact ⟨Fin.ext (by omega), htail'⟩

theorem utf16_cons (c : CodePoint) (s : Str) : utf16 (c :: s) = units c ++ utf16 s := rfl

theorem utf16_eq_nil {s : Str} (h : utf16 s = []) : s = [] := by
  cases s with
  | nil => rfl
  | cons c s =>
    rw [utf16_cons] at h
    exact absurd (List.append_eq_nil_iff.mp h).1 (units_ne_nil c)

/-- No other string has the code units of a string below the surrogates. -/
theorem utf16_inj_of_low {s t : Str} (hs : Low s) (h : utf16 s = utf16 t) : s = t := by
  induction s generalizing t with
  | nil => exact (utf16_eq_nil h.symm).symm
  | cons c s ih =>
    cases t with
    | nil => exact utf16_eq_nil h
    | cons d t =>
      have hc := hs c List.mem_cons_self
      obtain ⟨rfl, htail⟩ := units_inj (fun _ => by omega) (fun _ => by omega) h
      rw [ih (fun x hx => hs x (List.mem_cons_of_mem c hx)) htail]

/-- A string without surrogates. -/
def WellFormed (s : Str) : Prop := ∀ c ∈ s, ¬ (0xD800 ≤ c.val ∧ c.val < 0xE000)

theorem Low.wellFormed {s : Str} (h : Low s) : WellFormed s := by
  intro c hc hsur
  have := h c hc
  omega

/-- The code units tell strings without surrogates apart. -/
theorem utf16_injOn {s t : Str} (hs : WellFormed s) (ht : WellFormed t)
    (h : utf16 s = utf16 t) : s = t := by
  induction s generalizing t with
  | nil => exact (utf16_eq_nil h.symm).symm
  | cons c s ih =>
    cases t with
    | nil => exact utf16_eq_nil h
    | cons d t =>
      have hc := hs c List.mem_cons_self
      have hd := ht d List.mem_cons_self
      obtain ⟨rfl, htail⟩ := units_inj (fun _ => by omega) (fun _ => by omega) h
      rw [ih (fun x hx => hs x (List.mem_cons_of_mem c hx))
        (fun x hx => ht x (List.mem_cons_of_mem c hx)) htail]

def hexDigit (n : ℕ) : CodePoint := Fin.ofNat 0x110000 (if n < 10 then 48 + n else 87 + n)

/-- The escape of one code unit. -/
def escapeUnit (u : CodeUnit) : Str :=
  if u = 34 then [92, 34]
  else if u = 92 then [92, 92]
  else if u = 10 then [92, 110]
  else if u = 13 then [92, 114]
  else if u = 9 then [92, 116]
  else if u = 12 then [92, 102]
  else if u = 8 then [92, 98]
  else if 32 ≤ u.val ∧ u.val ≤ 126 then [⟨u.val, by omega⟩]
  else [92, 117, hexDigit (u.val / 4096), hexDigit (u.val / 256 % 16),
    hexDigit (u.val / 16 % 16), hexDigit (u.val % 16)]

/-- A string literal with its closing quote. -/
def quote (s : List CodeUnit) : Str := 34 :: (s.flatMap escapeUnit ++ [34])

def hexValue (c : CodePoint) : ℕ := if c.val < 58 then c.val - 48 else c.val - 87

theorem hexValue_hexDigit : ∀ n < 16, hexValue (hexDigit n) = n := by decide

/-- Read one escape back. -/
def readUnit : Str → ℕ × Str
  | 92 :: 117 :: a :: b :: c :: d :: rest =>
    (hexValue a * 4096 + hexValue b * 256 + hexValue c * 16 + hexValue d, rest)
  | 92 :: c :: rest =>
    (if c = 110 then 10 else if c = 114 then 13 else if c = 116 then 9
      else if c = 102 then 12 else if c = 98 then 8 else c.val, rest)
  | c :: rest => (c.val, rest)
  | [] => (0, [])

theorem readUnit_escapeUnit (u : CodeUnit) (rest : Str) :
    readUnit (escapeUnit u ++ rest) = (u.val, rest) := by
  unfold escapeUnit
  split_ifs with h1 h2 h3 h4 h5 h6 h7 h8
  · subst h1; rfl
  · subst h2; rfl
  · subst h3; rfl
  · subst h4; rfl
  · subst h5; rfl
  · subst h6; rfl
  · subst h7; rfl
  · have hne : (⟨u.val, by omega⟩ : CodePoint) ≠ 92 := by
      intro h
      have hval := Fin.ext_iff.mp h
      exact h2 (Fin.ext hval)
    simp only [List.cons_append, List.nil_append]
    unfold readUnit
    split
    · rename_i heq
      exact absurd (List.cons.inj heq).1 hne
    · rename_i heq
      exact absurd (List.cons.inj heq).1 hne
    · rename_i heq
      obtain ⟨rfl, rfl⟩ := List.cons.inj heq
      rfl
    · rename_i heq
      simp at heq
  · have hu := u.isLt
    simp only [List.cons_append, List.nil_append, readUnit, Prod.mk.injEq, and_true]
    rw [hexValue_hexDigit _ (by omega), hexValue_hexDigit _ (by omega),
      hexValue_hexDigit _ (by omega), hexValue_hexDigit _ (by omega)]
    omega

theorem escapeUnit_inj {u v : CodeUnit} {r r' : Str}
    (h : escapeUnit u ++ r = escapeUnit v ++ r') : u = v ∧ r = r' := by
  have hread := readUnit_escapeUnit u r
  rw [h, readUnit_escapeUnit v r'] at hread
  obtain ⟨hval, hrest⟩ := Prod.mk.inj hread
  exact ⟨Fin.ext hval.symm, hrest.symm⟩

/-- An escape is not empty and does not start with a quote. -/
theorem escapeUnit_head (u : CodeUnit) : ∃ c rest, escapeUnit u = c :: rest ∧ c ≠ 34 := by
  unfold escapeUnit
  split_ifs with h1 h2 h3 h4 h5 h6 h7 h8
  all_goals refine ⟨_, _, rfl, ?_⟩
  · decide
  · decide
  · decide
  · decide
  · decide
  · decide
  · decide
  · intro h
    have hval := Fin.ext_iff.mp h
    exact h1 (Fin.ext hval)
  · decide

theorem quote_inj {s t : List CodeUnit} {r r' : Str} (h : quote s ++ r = quote t ++ r') :
    s = t ∧ r = r' := by
  simp only [quote, List.cons_append, List.cons.injEq, true_and, List.append_assoc,
    List.nil_append] at h
  induction s generalizing t with
  | nil =>
    cases t with
    | nil => simpa using h
    | cons v t =>
      obtain ⟨c, rest, he, hc⟩ := escapeUnit_head v
      simp only [List.flatMap_nil, List.nil_append, List.flatMap_cons, he, List.cons_append,
        List.cons.injEq] at h
      exact absurd h.1.symm hc
  | cons u s ih =>
    cases t with
    | nil =>
      obtain ⟨c, rest, he, hc⟩ := escapeUnit_head u
      simp only [List.flatMap_nil, List.nil_append, List.flatMap_cons, he, List.cons_append,
        List.cons.injEq] at h
      exact absurd h.1 hc
    | cons v t =>
      simp only [List.flatMap_cons, List.append_assoc] at h
      obtain ⟨rfl, hrest⟩ := escapeUnit_inj h
      obtain ⟨rfl, hr⟩ := ih hrest
      exact ⟨rfl, hr⟩

/-! ## Canonical text -/

/-- `float.__repr__` as JSON writes it: distinct texts made of the characters of
numbers, `NaN` and `Infinity`, none of them the text of an integer. -/
structure FloatRepr where
  repr : PyFloat → Str
  injective : Function.Injective repr
  ne_nil : ∀ x, repr x ≠ []
  numeric : ∀ x, ∀ c ∈ repr x, c ∈ lit "+-.0123456789eINafinty"
  ne_integer : ∀ x n, repr x ≠ integer n

/-- The text of a float in unary, and the fixed texts of the values that are no
ordinary number. -/
def unaryRepr : PyFloat → Str
  | .finite q => unary q
  | .negZero => lit "-0.0"
  | .inf false => lit "Infinity"
  | .inf true => lit "-Infinity"
  | .nan => lit "NaN"

def ofUnaryRepr (s : Str) : Option PyFloat :=
  if s = lit "-0.0" then some .negZero
  else if s = lit "Infinity" then some (.inf false)
  else if s = lit "-Infinity" then some (.inf true)
  else if s = lit "NaN" then some .nan
  else ofUnary s

/-- After its sign a unary text goes on with `1` or `e`. -/
theorem unary_eq (q : ℚ) : ∃ c d rest, unary q = c :: d :: rest ∧ (c = 45 ∨ c = 43) ∧
    (d = 49 ∨ d = 101) := by
  have hsign : (if q < 0 then 45 else 43 : CodePoint) = 45 ∨
      (if q < 0 then 45 else 43 : CodePoint) = 43 := by
    split_ifs <;> simp
  cases hn : q.num.natAbs with
  | zero => exact ⟨_, 101, _, by rw [unary, hn]; rfl, hsign, .inr rfl⟩
  | succ n => exact ⟨_, 49, _, by rw [unary, hn, List.replicate_succ]; rfl, hsign, .inl rfl⟩

theorem ofUnaryRepr_unaryRepr (x : PyFloat) : ofUnaryRepr (unaryRepr x) = some x := by
  cases x with
  | finite q =>
    obtain ⟨c, d, rest, hq, hc, hd⟩ := unary_eq q
    have hne : ∀ t : Str, (t.take 2 ∈ [lit "-0", lit "In", lit "-I", lit "Na"]) → unary q ≠ t := by
      intro t ht heq
      rw [← heq, hq] at ht
      rcases hc with rfl | rfl <;> rcases hd with rfl | rfl <;> simp [lit] at ht
    rw [ofUnaryRepr, unaryRepr, if_neg (hne _ (by decide)), if_neg (hne _ (by decide)),
      if_neg (hne _ (by decide)), if_neg (hne _ (by decide)), ofUnary_unary]
  | negZero => rfl
  | inf negative => cases negative <;> rfl
  | nan => rfl

/-- A text of floats with the properties asked for. -/
def unaryFloatRepr : FloatRepr where
  repr := unaryRepr
  injective := by
    intro x y h
    have hx := ofUnaryRepr_unaryRepr x
    rw [h, ofUnaryRepr_unaryRepr] at hx
    exact (Option.some.inj hx).symm
  ne_nil := by
    intro x
    cases x with
    | inf negative => cases negative <;> decide
    | finite q => simp [unaryRepr, unary]
    | _ => decide
  numeric := by
    have hfixed : ∀ s : Str, (s.all fun c => decide (c ∈ lit "+-.0123456789eINafinty")) = true →
        ∀ c ∈ s, c ∈ lit "+-.0123456789eINafinty" :=
      fun s hs c hc => of_decide_eq_true (List.all_eq_true.mp hs c hc)
    intro x
    cases x with
    | finite q =>
      intro c hc
      have hchar : c = 45 ∨ c = 43 ∨ c = 49 ∨ c = 101 := by
        simp only [unaryRepr, unary, List.mem_cons, List.mem_append, List.mem_replicate] at hc
        rcases hc with hc | hc | hc | hc
        · split_ifs at hc with hq
          · exact .inl hc
          · exact .inr (.inl hc)
        · exact .inr (.inr (.inl hc.2))
        · exact .inr (.inr (.inr hc))
        · exact .inr (.inr (.inl hc.2))
      rcases hchar with rfl | rfl | rfl | rfl <;> decide
    | negZero => exact hfixed _ (by decide)
    | inf negative => cases negative <;> exact hfixed _ (by decide)
    | nan => exact hfixed _ (by decide)
  ne_integer := by
    have hletter : ∀ (c : CodePoint) (n : ℤ), c.val = 46 ∨ 57 < c.val → c ∉ integer n := by
      intro c n hc hmem
      have := integer_char hmem
      omega
    intro x n h
    cases x with
    | finite q =>
      refine hletter 101 n (by decide) (h ▸ ?_)
      simp [unaryRepr, unary]
    | negZero => exact hletter 46 n (by decide) (h ▸ by decide)
    | inf negative =>
      refine hletter 73 n (by decide) (h ▸ ?_)
      cases negative <;> decide
    | nan => exact hletter 78 n (by decide) (h ▸ by decide)

namespace JsonOf

variable (F : FloatRepr)

/-- The compact text of a value whose strings are given by their code units. -/
def render : JsonOf (List CodeUnit) → Str
  | .null => lit "null"
  | .bool b => if b then lit "true" else lit "false"
  | .int n => integer n
  | .float x => F.repr x
  | .str s => quote s
  | .arr vs => 91 :: (join [44] (items vs) ++ [93])
  | .obj es => 123 :: (join [44] (fields es) ++ [125])
where
  items : List (JsonOf (List CodeUnit)) → List Str
    | [] => []
    | v :: vs => render v :: items vs
  fields : List (List CodeUnit × JsonOf (List CodeUnit)) → List Str
    | [] => []
    | (k, v) :: es => (quote k ++ 58 :: render v) :: fields es

@[simp] theorem render_items (vs : List (JsonOf (List CodeUnit))) :
    render.items F vs = vs.map (render F) := by
  induction vs with
  | nil => rfl
  | cons v vs ih => simp [render.items, ih]

@[simp] theorem render_fields (es : List (List CodeUnit × JsonOf (List CodeUnit))) :
    render.fields F es = es.map fun e => quote e.1 ++ 58 :: render F e.2 := by
  induction es with
  | nil => rfl
  | cons e es ih => simp [render.fields, ih]

end JsonOf

/-! ## The text determines the value -/

/-- A character of no delimiter. -/
def Token (c : CodePoint) : Prop := c ∉ ([34, 44, 58, 91, 93, 123, 125] : List CodePoint)

instance (c : CodePoint) : Decidable (Token c) := inferInstanceAs (Decidable (_ ∉ _))

/-- What may follow a value inside a text. -/
def Stop (r : Str) : Prop := ∀ c ∈ r.head?, c = 44 ∨ c = 93 ∨ c = 125

theorem stop_nil : Stop [] := by simp [Stop]

theorem stop_cons {c : CodePoint} (h : c = 44 ∨ c = 93 ∨ c = 125) (r : Str) : Stop (c :: r) := by
  simpa [Stop] using h

theorem Stop.not_token {c : CodePoint} {r : Str} (h : Stop (c :: r)) : ¬ Token c := by
  rcases h c rfl with rfl | rfl | rfl <;> decide

theorem token_append_inj {a b r r' : Str} (ha : ∀ c ∈ a, Token c) (hb : ∀ c ∈ b, Token c)
    (hr : Stop r) (hr' : Stop r') (h : a ++ r = b ++ r') : a = b ∧ r = r' := by
  induction a generalizing b with
  | nil =>
    cases b with
    | nil => exact ⟨rfl, h⟩
    | cons d b =>
      rw [List.nil_append, List.cons_append] at h
      exact absurd (hb d List.mem_cons_self) (h ▸ hr).not_token
  | cons c a ih =>
    cases b with
    | nil =>
      rw [List.nil_append, List.cons_append] at h
      exact absurd (ha c List.mem_cons_self) (h ▸ hr').not_token
    | cons d b =>
      obtain ⟨rfl, htail⟩ := List.cons.inj h
      obtain ⟨rfl, hrest⟩ := ih (fun x hx => ha x (List.mem_cons_of_mem _ hx))
        (fun x hx => hb x (List.mem_cons_of_mem _ hx)) htail
      exact ⟨rfl, hrest⟩

/-- Two lists joined by commas, whose pieces can be told apart, agree piece by piece. -/
theorem join_inj {α : Type*} {f : α → Str} {as bs : List α} {e : CodePoint} {r r' : Str}
    (he : e = 93 ∨ e = 125) (hhead : ∀ a, ∃ c rest, f a = c :: rest ∧ ¬ Stop [c])
    (hf : ∀ a ∈ as, ∀ b s s', Stop s → Stop s' → f a ++ s = f b ++ s' → a = b ∧ s = s')
    (h : join [44] (as.map f) ++ e :: r = join [44] (bs.map f) ++ e :: r') :
    as = bs ∧ r = r' := by
  have hstop : ∀ s, Stop (e :: s) := fun s => stop_cons (.inr he) s
  have hcomma : (44 : CodePoint) ≠ e := by
    rcases he with rfl | rfl <;> decide
  have hclash : ∀ (a : α) (t u : Str), f a ++ t ≠ e :: u := by
    intro a t u heq
    obtain ⟨c, rest, hc, hns⟩ := hhead a
    rw [hc, List.cons_append] at heq
    exact hns ((List.cons.inj heq).1 ▸ hstop [])
  induction as generalizing bs with
  | nil =>
    cases bs with
    | nil => exact ⟨rfl, (List.cons.inj h).2⟩
    | cons b bs =>
      cases bs with
      | nil => exact absurd h.symm (hclash b _ _)
      | cons b' bs =>
        simp only [List.map_cons, join, List.append_assoc] at h
        exact absurd h.symm (hclash b _ _)
  | cons a as ih =>
    have hmem : ∀ x ∈ as, x ∈ a :: as := fun x hx => List.mem_cons_of_mem a hx
    cases bs with
    | nil =>
      cases as with
      | nil => exact absurd h (hclash a _ _)
      | cons a' as =>
        simp only [List.map_cons, join, List.append_assoc] at h
        exact absurd h (hclash a _ _)
    | cons b bs =>
      have hstep := hf a List.mem_cons_self b
      cases as with
      | nil =>
        cases bs with
        | nil =>
          obtain ⟨rfl, hrest⟩ := hstep _ _ (hstop _) (hstop _) h
          exact ⟨rfl, (List.cons.inj hrest).2⟩
        | cons b' bs =>
          simp only [List.map_cons, List.map_nil, join, List.append_assoc] at h
          obtain ⟨_, hrest⟩ := hstep _ _ (hstop _) (stop_cons (.inl rfl) _) h
          exact absurd (List.cons.inj hrest).1.symm hcomma
      | cons a' as =>
        cases bs with
        | nil =>
          simp only [List.map_cons, List.map_nil, join, List.append_assoc] at h
          obtain ⟨_, hrest⟩ := hstep _ _ (stop_cons (.inl rfl) _) (hstop _) h
          exact absurd (List.cons.inj hrest).1 hcomma
        | cons b' bs =>
          simp only [List.map_cons, join, List.append_assoc] at h
          obtain ⟨rfl, hrest⟩ := hstep _ _ (stop_cons (.inl rfl) _) (stop_cons (.inl rfl) _) h
          have hjoin : join [44] ((a' :: as).map f) ++ e :: r =
              join [44] ((b' :: bs).map f) ++ e :: r' := (List.cons.inj hrest).2
          obtain ⟨htail, hr⟩ := ih (fun x hx => hf x (hmem x hx)) hjoin
          exact ⟨by rw [htail], hr⟩

namespace JsonOf

variable {F : FloatRepr}

/-- Values written without delimiters. -/
def Atom : JsonOf (List CodeUnit) → Prop
  | .str _ | .arr _ | .obj _ => False
  | _ => True

theorem integer_token {n : ℤ} {c : CodePoint} (h : c ∈ integer n) : Token c := by
  have hc := integer_char h
  intro hmem
  simp only [List.mem_cons, List.not_mem_nil, or_false] at hmem
  rcases hmem with rfl | rfl | rfl | rfl | rfl | rfl | rfl <;> simp at hc

theorem token_of_all {s : Str} (h : (s.all fun c => decide (Token c)) = true) :
    ∀ c ∈ s, Token c := by
  intro c hc
  exact of_decide_eq_true (List.all_eq_true.mp h c hc)

theorem Atom.token {v : JsonOf (List CodeUnit)} (h : Atom v) : ∀ c ∈ v.render F, Token c := by
  cases v with
  | null => exact token_of_all (s := lit "null") (by decide)
  | bool b =>
    cases b with
    | true => exact token_of_all (s := lit "true") (by decide)
    | false => exact token_of_all (s := lit "false") (by decide)
  | int n => exact fun c hc => integer_token hc
  | float x =>
    have hall : ∀ c ∈ lit "+-.0123456789eINafinty", Token c := token_of_all (by decide)
    exact fun c hc => hall c (F.numeric x c hc)
  | str s => exact h.elim
  | arr vs => exact h.elim
  | obj es => exact h.elim

theorem Atom.ne_nil {v : JsonOf (List CodeUnit)} (h : Atom v) : v.render F ≠ [] := by
  cases v with
  | null => simp [render, lit]
  | bool b => cases b <;> simp [render, lit]
  | int n => exact integer_ne_nil n
  | float x => exact F.ne_nil x
  | str s => exact h.elim
  | arr vs => exact h.elim
  | obj es => exact h.elim

/-- `u` and `l`, one of which every keyword has, are in no number. -/
theorem not_mem_number {c : CodePoint} (hc : c = 117 ∨ c = 108) :
    (∀ n, c ∉ integer n) ∧ ∀ x, c ∉ F.repr x := by
  have hfloat : ((lit "+-.0123456789eINafinty").all fun d => decide (d ≠ 117 ∧ d ≠ 108)) = true := by
    decide
  refine ⟨fun n hn => ?_, fun x hx => ?_⟩
  · have hval := integer_char hn
    rcases hc with rfl | rfl <;> simp at hval
  · have hne := of_decide_eq_true (List.all_eq_true.mp hfloat c (F.numeric x c hx))
    rcases hc with rfl | rfl
    · exact hne.1 rfl
    · exact hne.2 rfl

/-- The text of a keyword, or the number the text is of. -/
theorem Atom.cases {v : JsonOf (List CodeUnit)} (h : Atom v) :
    (v = .null ∨ v = .bool true ∨ v = .bool false) ∨ (∃ n, v = .int n) ∨ ∃ x, v = .float x := by
  cases v with
  | null => exact .inl (.inl rfl)
  | bool b => cases b <;> simp
  | int n => exact .inr (.inl ⟨n, rfl⟩)
  | float x => exact .inr (.inr ⟨x, rfl⟩)
  | str s => exact h.elim
  | arr vs => exact h.elim
  | obj es => exact h.elim

theorem keyword_letter {v : JsonOf (List CodeUnit)}
    (h : v = .null ∨ v = .bool true ∨ v = .bool false) :
    ∃ c : CodePoint, (c = 117 ∨ c = 108) ∧ c ∈ v.render F := by
  rcases h with rfl | rfl | rfl
  · exact ⟨117, .inl rfl, by simp [render, lit]⟩
  · exact ⟨117, .inl rfl, by simp [render, lit]⟩
  · exact ⟨108, .inr rfl, by simp [render, lit]⟩

theorem Atom.render_inj {v w : JsonOf (List CodeUnit)} (hv : Atom v) (hw : Atom w)
    (h : v.render F = w.render F) : v = w := by
  have hnum : ∀ {u u' : JsonOf (List CodeUnit)}, u.render F = u'.render F →
      (u = .null ∨ u = .bool true ∨ u = .bool false) →
      ¬ ((∃ n, u' = .int n) ∨ ∃ x, u' = .float x) := by
    intro u u' huu hu hu'
    obtain ⟨c, hc, hmem⟩ := keyword_letter (F := F) hu
    rw [huu] at hmem
    rcases hu' with ⟨n, rfl⟩ | ⟨x, rfl⟩
    · exact (not_mem_number (F := F) hc).1 n hmem
    · exact (not_mem_number hc).2 x hmem
  rcases hv.cases with hk | hn
  · rcases hw.cases with hk' | hn'
    · rcases hk with rfl | rfl | rfl <;> rcases hk' with rfl | rfl | rfl <;>
        first | rfl | (exfalso; revert h; simp [render, lit])
    · exact absurd hn' (hnum h hk)
  · rcases hw.cases with hk' | hn'
    · exact absurd hn (hnum h.symm hk')
    · rcases hn with ⟨m, rfl⟩ | ⟨x, rfl⟩
      · rcases hn' with ⟨n, rfl⟩ | ⟨y, rfl⟩
        · exact congrArg JsonOf.int (integer_injective h)
        · exact absurd h.symm (F.ne_integer y m)
      · rcases hn' with ⟨n, rfl⟩ | ⟨y, rfl⟩
        · exact absurd h (F.ne_integer x n)
        · exact congrArg JsonOf.float (F.injective h)

/-- A text starts with a token character, a quote or an opening bracket. -/
theorem render_head (v : JsonOf (List CodeUnit)) :
    ∃ c rest, v.render F = c :: rest ∧ ¬ Stop [c] := by
  have hopen : ∀ c : CodePoint, c = 34 ∨ c = 91 ∨ c = 123 → ¬ Stop [c] := by
    intro c hc hs
    have := hs c rfl
    rcases hc with rfl | rfl | rfl <;> simp at this
  by_cases hv : Atom v
  · obtain ⟨c, rest, hc⟩ := List.exists_cons_of_ne_nil (hv.ne_nil (F := F))
    refine ⟨c, rest, hc, fun hs => hs.not_token ?_⟩
    exact hv.token c (hc ▸ List.mem_cons_self)
  · cases v with
    | str s => exact ⟨34, _, rfl, hopen 34 (.inl rfl)⟩
    | arr vs => exact ⟨91, _, rfl, hopen 91 (.inr (.inl rfl))⟩
    | obj es => exact ⟨123, _, rfl, hopen 123 (.inr (.inr rfl))⟩
    | _ => exact absurd trivial hv

/-- The text of an atom does not start as a composite value does. -/
theorem Atom.ne_composite {v : JsonOf (List CodeUnit)} (hv : Atom v) {c : CodePoint}
    (hc : c = 34 ∨ c = 91 ∨ c = 123) (r t : Str) : v.render F ++ r ≠ c :: t := by
  intro h
  obtain ⟨d, rest, hd⟩ := List.exists_cons_of_ne_nil (hv.ne_nil (F := F))
  rw [hd, List.cons_append] at h
  have htoken := hv.token d (hd ▸ List.mem_cons_self)
  rw [(List.cons.inj h).1] at htoken
  rcases hc with rfl | rfl | rfl <;> exact absurd htoken (by decide)

/-- A text followed by a delimiter or by nothing determines its value. -/
theorem render_inj (v : JsonOf (List CodeUnit)) : ∀ w r r', Stop r → Stop r' →
    v.render F ++ r = w.render F ++ r' → v = w ∧ r = r' := by
  have hatom : ∀ v, Atom v → ∀ w r r', Stop r → Stop r' →
      v.render F ++ r = w.render F ++ r' → v = w ∧ r = r' := by
    intro v hv w r r' hr hr' h
    by_cases hw : Atom w
    · obtain ⟨htext, hrest⟩ := token_append_inj hv.token hw.token hr hr' h
      exact ⟨hv.render_inj hw htext, hrest⟩
    · cases w with
      | str s => exact absurd h (hv.ne_composite (.inl rfl) _ _)
      | arr vs => exact absurd h (hv.ne_composite (.inr (.inl rfl)) _ _)
      | obj es => exact absurd h (hv.ne_composite (.inr (.inr rfl)) _ _)
      | _ => exact absurd trivial hw
  induction v using JsonOf.induct with
  | null => exact hatom _ trivial
  | bool b => exact hatom _ trivial
  | int n => exact hatom _ trivial
  | float x => exact hatom _ trivial
  | str s =>
    intro w r r' hr hr' h
    by_cases hw : Atom w
    · exact absurd h.symm (hw.ne_composite (.inl rfl) _ _)
    · cases w with
      | str t =>
        obtain ⟨rfl, hrest⟩ := quote_inj h
        exact ⟨rfl, hrest⟩
      | arr vs => exact absurd (List.cons.inj h).1 (by decide)
      | obj es => exact absurd (List.cons.inj h).1 (by decide)
      | _ => exact absurd trivial hw
  | arr vs ih =>
    intro w r r' hr hr' h
    by_cases hw : Atom w
    · exact absurd h.symm (hw.ne_composite (.inr (.inl rfl)) _ _)
    · cases w with
      | str t => exact absurd (List.cons.inj h).1 (by decide)
      | arr ws =>
        have hjoin : join [44] (vs.map (render F)) ++ 93 :: r =
            join [44] (ws.map (render F)) ++ 93 :: r' := by
          simpa [render] using h
        obtain ⟨rfl, hrest⟩ := join_inj (.inl rfl) render_head ih hjoin
        exact ⟨rfl, hrest⟩
      | obj es => exact absurd (List.cons.inj h).1 (by decide)
      | _ => exact absurd trivial hw
  | obj es ih =>
    intro w r r' hr hr' h
    by_cases hw : Atom w
    · exact absurd h.symm (hw.ne_composite (.inr (.inr rfl)) _ _)
    · cases w with
      | str t => exact absurd (List.cons.inj h).1 (by decide)
      | arr ws => exact absurd (List.cons.inj h).1 (by decide)
      | obj fs =>
        have hjoin : join [44] (es.map fun e => quote e.1 ++ 58 :: render F e.2) ++ 125 :: r =
            join [44] (fs.map fun e => quote e.1 ++ 58 :: render F e.2) ++ 125 :: r' := by
          simpa [render] using h
        have hhead : ∀ e : List CodeUnit × JsonOf (List CodeUnit), ∃ c rest,
            quote e.1 ++ 58 :: render F e.2 = c :: rest ∧ ¬ Stop [c] :=
          fun e => ⟨34, _, rfl, fun hs => absurd (hs 34 rfl) (by decide)⟩
        have hfield : ∀ e ∈ es, ∀ f s s', Stop s → Stop s' →
            (quote e.1 ++ 58 :: render F e.2) ++ s = (quote f.1 ++ 58 :: render F f.2) ++ s' →
            e = f ∧ s = s' := by
          intro e he f s s' hs hs' hf
          simp only [List.append_assoc, List.cons_append] at hf
          obtain ⟨hkey, htail⟩ := quote_inj hf
          obtain ⟨hvalue, hrest⟩ := ih e he f.2 s s' hs hs' (List.cons.inj htail).2
          exact ⟨Prod.ext hkey hvalue, hrest⟩
        obtain ⟨rfl, hrest⟩ := join_inj (.inr rfl) hhead hfield hjoin
        exact ⟨rfl, hrest⟩
      | _ => exact absurd trivial hw

theorem escapeUnit_ascii (u : CodeUnit) : Ascii (escapeUnit u) := by
  have hdigit : ∀ n < 16, (hexDigit n).val < 128 := by decide
  have hu := u.isLt
  unfold escapeUnit
  split_ifs
  all_goals simp only [Ascii, List.forall_mem_cons, List.not_mem_nil, false_imp_iff, implies_true,
    and_true]
  · decide
  · decide
  · decide
  · decide
  · decide
  · decide
  · decide
  · omega
  · exact ⟨by decide, by decide, hdigit _ (by omega), hdigit _ (by omega), hdigit _ (by omega),
      hdigit _ (by omega)⟩

theorem quote_ascii (s : List CodeUnit) : Ascii (quote s) := by
  intro c hc
  rcases List.mem_cons.mp hc with rfl | hc
  · decide
  · rcases List.mem_append.mp hc with hc | hc
    · obtain ⟨u, _, hu⟩ := List.mem_flatMap.mp hc
      exact escapeUnit_ascii u c hu
    · obtain rfl := List.mem_singleton.mp hc
      decide

theorem join_ascii {parts : List Str} (h : ∀ s ∈ parts, Ascii s) : Ascii (join [44] parts) := by
  induction parts with
  | nil => exact fun c hc => absurd hc List.not_mem_nil
  | cons s parts ih =>
    have htail := ih fun t ht => h t (List.mem_cons_of_mem s ht)
    cases parts with
    | nil => exact h s List.mem_cons_self
    | cons t parts =>
      intro c hc
      rw [join, List.mem_append, List.mem_append] at hc
      · rcases hc with (hc | hc) | hc
        · exact h s List.mem_cons_self c hc
        · obtain rfl := List.mem_singleton.mp hc
          decide
        · exact htail c hc
      · simp

theorem render_ascii (v : JsonOf (List CodeUnit)) : Ascii (v.render F) := by
  have hbracket : ∀ {a b : CodePoint} {s : Str}, a.val < 128 → b.val < 128 → Ascii s →
      Ascii (a :: (s ++ [b])) := by
    intro a b s ha hb hs c hc
    rcases List.mem_cons.mp hc with rfl | hc
    · exact ha
    · rcases List.mem_append.mp hc with hc | hc
      · exact hs c hc
      · obtain rfl := List.mem_singleton.mp hc
        exact hb
  induction v using JsonOf.induct with
  | null => exact ascii_of_all (s := lit "null") (by decide)
  | bool b =>
    cases b with
    | true => exact ascii_of_all (s := lit "true") (by decide)
    | false => exact ascii_of_all (s := lit "false") (by decide)
  | int n =>
    intro c hc
    have := integer_char hc
    omega
  | float x =>
    have hall : Ascii (lit "+-.0123456789eINafinty") := ascii_of_all (by decide)
    exact fun c hc => hall c (F.numeric x c hc)
  | str s => exact quote_ascii s
  | arr vs ih =>
    rw [render, render_items]
    refine hbracket (by decide) (by decide) (join_ascii fun s hs => ?_)
    obtain ⟨v, hv, rfl⟩ := List.mem_map.mp hs
    exact ih v hv
  | obj es ih =>
    rw [render, render_fields]
    refine hbracket (by decide) (by decide) (join_ascii fun s hs => ?_)
    obtain ⟨e, he, rfl⟩ := List.mem_map.mp hs
    intro c hc
    rcases List.mem_append.mp hc with hc | hc
    · exact quote_ascii e.1 c hc
    · rcases List.mem_cons.mp hc with rfl | hc
      · decide
      · exact ih e he c hc

end JsonOf

namespace Json

/-- A value up to the order of keys and up to joining surrogate pairs. -/
def canonical (v : Json) : JsonOf (List CodeUnit) := (sortKeys v).map utf16

/-- `json.dumps` with `separators=(",", ":")` and `sort_keys=True`. -/
def dumps (F : FloatRepr) (v : Json) : Str := (canonical v).render F

/-- Two values have one text exactly when they are the same up to the order of
keys and up to joining surrogate pairs. -/
theorem dumps_inj {F : FloatRepr} {v w : Json} :
    dumps F v = dumps F w ↔ canonical v = canonical w := by
  constructor
  · intro h
    have happ : (canonical v).render F ++ [] = (canonical w).render F ++ [] := by
      simpa [dumps] using h
    exact (JsonOf.render_inj _ _ _ _ stop_nil stop_nil happ).1
  · intro h
    rw [dumps, dumps, h]

@[simp] theorem canonical_sortKeys (v : Json) : canonical (sortKeys v) = canonical v := by
  simp [canonical]

@[simp] theorem dumps_sortKeys (F : FloatRepr) (v : Json) : dumps F (sortKeys v) = dumps F v := by
  simp [dumps]

/-- The text is ASCII, so its bytes are its characters. -/
theorem dumps_ascii (F : FloatRepr) (v : Json) : Ascii (dumps F v) := JsonOf.render_ascii _

theorem canonical_obj (es : Fields) : canonical (.obj es) =
    .obj ((Assoc.sortByKey es).map fun e => (utf16 e.1, canonical e.2)) := by
  simp only [canonical, sortKeys_obj, JsonOf.map, JsonOf.mapFields_eq, Assoc.sortByKey_map,
    List.map_map]
  rfl

theorem canonical_arr (vs : List Json) : canonical (.arr vs) = .arr (vs.map canonical) := by
  simp only [canonical, sortKeys_arr, JsonOf.map, JsonOf.mapItems_eq, List.map_map]
  rfl

theorem canonical_str_inj {s t : Str} :
    canonical (.str s) = canonical (.str t) ↔ utf16 s = utf16 t := by
  simp [canonical, sortKeys, JsonOf.map]

theorem canonical_int_inj {m n : ℤ} : canonical (.int m) = canonical (.int n) ↔ m = n := by
  simp [canonical, sortKeys, JsonOf.map]

/-- Values with one text read alike at every key below the surrogates. -/
theorem canonical_lookup {es fs : Fields} {key : Str} (hkey : Low key)
    (h : canonical (.obj es) = canonical (.obj fs)) :
    (Assoc.lookup key es).map canonical = (Assoc.lookup key fs).map canonical := by
  have hsame : ∀ (d : Fields), ∀ e ∈ d, utf16 e.1 = utf16 key → e.1 = key :=
    fun _ _ _ he => (utf16_inj_of_low hkey he.symm).symm
  have hread : ∀ d : Fields, (Assoc.lookup key d).map canonical =
      Assoc.lookup (utf16 key)
        ((Assoc.sortByKey d).map fun e => (utf16 e.1, canonical e.2)) := by
    intro d
    rw [Assoc.lookup_rename _ (hsame _), Assoc.lookup_sortByKey]
  rw [canonical_obj, canonical_obj] at h
  rw [hread, hread, JsonOf.obj.inj h]

/-- Values with one text still have one text without such a key. -/
theorem canonical_discard {es fs : Fields} {key : Str} (hkey : Low key)
    (h : canonical (.obj es) = canonical (.obj fs)) :
    canonical (.obj (Assoc.discard key es)) = canonical (.obj (Assoc.discard key fs)) := by
  have hsame : ∀ (d : Fields), ∀ e ∈ d, utf16 e.1 = utf16 key → e.1 = key :=
    fun _ _ _ he => (utf16_inj_of_low hkey he.symm).symm
  have hcut : ∀ d : Fields, canonical (.obj (Assoc.discard key d)) =
      .obj (Assoc.discard (utf16 key)
        ((Assoc.sortByKey d).map fun e => (utf16 e.1, canonical e.2))) := by
    intro d
    rw [canonical_obj, Assoc.discard_rename _ (hsame _), Assoc.discard_sortByKey]
  rw [canonical_obj, canonical_obj] at h
  rw [hcut, hcut, JsonOf.obj.inj h]

/-- The fields of an object as they come back from its text. -/
def sortedFields (d : Fields) : Fields :=
  Assoc.sortByKey (d.map fun e => (e.1, sortKeys e.2))

theorem sortKeys_obj_eq (d : Fields) : sortKeys (.obj d) = .obj (sortedFields d) :=
  sortKeys_obj d

theorem lookup_sortedFields (k : Str) (d : Fields) :
    Assoc.lookup k (sortedFields d) = (Assoc.lookup k d).map sortKeys := by
  rw [sortedFields, Assoc.lookup_sortByKey, Assoc.lookup_map]

theorem discard_sortedFields (k : Str) (d : Fields) :
    Assoc.discard k (sortedFields d) = sortedFields (Assoc.discard k d) := by
  rw [sortedFields, Assoc.discard_sortByKey, Assoc.discard_map]
  rfl

/-- The string a field holds. -/
def text (key : Str) (d : Fields) : Option Str :=
  match Assoc.lookup key d with
  | some (.str s) => some s
  | _ => none

theorem text_sortedFields (key : Str) (d : Fields) : text key (sortedFields d) = text key d := by
  rw [text, text, lookup_sortedFields]
  cases Assoc.lookup key d with
  | none => rfl
  | some v => cases v <;> rfl

/-- Every string, float and list of object keys inside a value satisfies a predicate. -/
def All (str : Str → Prop) (float : PyFloat → Prop) (keys : List Str → Prop) : Json → Prop
  | .float x => float x
  | .str s => str s
  | .arr vs => items vs
  | .obj es => keys (es.map Prod.fst) ∧ fields es
  | _ => True
where
  items : List Json → Prop
    | [] => True
    | v :: vs => All str float keys v ∧ items vs
  fields : Fields → Prop
    | [] => True
    | (k, v) :: es => (str k ∧ All str float keys v) ∧ fields es

/-- No string inside the value holds a surrogate. -/
def NoSurrogates : Json → Prop := All WellFormed (fun _ => True) fun _ => True

/-- A value as the language's JSON library round-trips it. -/
def Proper : Json → Prop := All WellFormed (fun x => x.value.isSome) List.Nodup

theorem all_items {str : Str → Prop} {float : PyFloat → Prop} {keys : List Str → Prop}
    (vs : List Json) :
    All.items str float keys vs ↔ ∀ v ∈ vs, All str float keys v := by
  induction vs with
  | nil => simp [All.items]
  | cons v vs ih => simp [All.items, ih]

theorem all_fields {str : Str → Prop} {float : PyFloat → Prop} {keys : List Str → Prop}
    (es : Fields) :
    All.fields str float keys es ↔ ∀ e ∈ es, str e.1 ∧ All str float keys e.2 := by
  induction es with
  | nil => simp [All.fields]
  | cons e es ih => simp [All.fields, ih]

/-- Without surrogates the text determines the value up to the order of keys. -/
theorem canonical_injOn (v : Json) : ∀ w, NoSurrogates v → NoSurrogates w →
    canonical v = canonical w → sortKeys v = sortKeys w := by
  induction v using JsonOf.induct with
  | str s =>
    intro w hv hw h
    cases w with
    | str t => rw [utf16_injOn hv hw (canonical_str_inj.mp h)]
    | _ => simp [canonical, sortKeys, JsonOf.map] at h
  | arr vs ih =>
    intro w hv hw h
    cases w with
    | arr ws =>
      rw [canonical_arr, canonical_arr] at h
      have hv' := (all_items vs).mp hv
      have hw' := (all_items ws).mp hw
      have hlist : vs.map sortKeys = ws.map sortKeys := by
        have hmap := JsonOf.arr.inj h
        have hlen : vs.length = ws.length := by simpa using congrArg List.length hmap
        refine List.ext_getElem (by simpa using hlen) fun i hi hi' => ?_
        have hi₁ : i < vs.length := by simpa using hi
        have hi₂ : i < ws.length := by simpa using hi'
        have hcan : canonical vs[i] = canonical ws[i] := by
          have := List.getElem_of_eq hmap (by simpa using hi₁)
          simpa using this
        have hmem := List.getElem_mem hi₁
        simpa using ih _ hmem _ (hv' _ hmem) (hw' _ (List.getElem_mem hi₂)) hcan
      simp [hlist]
    | _ => simp [canonical, sortKeys, JsonOf.map] at h
  | obj es ih =>
    intro w hv hw h
    cases w with
    | obj fs =>
      rw [canonical_obj, canonical_obj] at h
      have hv' : ∀ e ∈ Assoc.sortByKey es, WellFormed e.1 ∧ NoSurrogates e.2 :=
        fun e he => (all_fields es).mp hv.2 e (Assoc.mem_sortByKey.mp he)
      have hw' : ∀ e ∈ Assoc.sortByKey fs, WellFormed e.1 ∧ NoSurrogates e.2 :=
        fun e he => (all_fields fs).mp hw.2 e (Assoc.mem_sortByKey.mp he)
      have hlist : (Assoc.sortByKey es).map (fun e => (e.1, sortKeys e.2)) =
          (Assoc.sortByKey fs).map fun e => (e.1, sortKeys e.2) := by
        have hmap := JsonOf.obj.inj h
        have hlen : (Assoc.sortByKey es).length = (Assoc.sortByKey fs).length := by
          simpa using congrArg List.length hmap
        refine List.ext_getElem (by simpa using hlen) fun i hi hi' => ?_
        have hi₁ : i < (Assoc.sortByKey es).length := by simpa using hi
        have hi₂ : i < (Assoc.sortByKey fs).length := by simpa using hi'
        have hpair := List.getElem_of_eq hmap (by simpa using hi₁)
        simp only [List.getElem_map, Prod.mk.injEq] at hpair
        have hmem := List.getElem_mem hi₁
        have he := hv' _ hmem
        have hf := hw' _ (List.getElem_mem hi₂)
        simp only [List.getElem_map, Prod.mk.injEq]
        exact ⟨utf16_injOn he.1 hf.1 hpair.1,
          ih _ (Assoc.mem_sortByKey.mp hmem) _ he.2 hf.2 hpair.2⟩
      rw [sortKeys_obj, sortKeys_obj, Assoc.sortByKey_map, Assoc.sortByKey_map, hlist]
    | _ => simp [canonical, sortKeys, JsonOf.map] at h
  | _ =>
    intro w hv hw h
    cases w <;> simp_all [canonical, sortKeys, JsonOf.map]

end Json

end Botnats
