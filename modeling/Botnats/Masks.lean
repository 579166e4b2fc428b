import Botnats.Glob
import Botnats.Text

/-!
# Prefixes and masks

`Prefix.parse`, `Prefix.matches` and `mask_matches` of `irc/protocol.py`. A mask is
matched part by part; the loop over one part goes back to the last `*` it passed, never
to an earlier one.
-/
namespace Botnats

namespace Prefix

/-- `value or None` -/
def nonEmpty (value : Str) : Option Str := if value = [] then none else some value

/-- `Prefix.parse` -/
def parse (value : Str) : Prefix :=
  match partition bang value with
  | (_, none) =>
    let (nick, host) := partition 64 value
    ⟨nick, none, host.bind nonEmpty⟩
  | (nick, some remainder) =>
    let (user, host) := partition 64 remainder
    ⟨nick, nonEmpty user, host.bind nonEmpty⟩

/-- `Prefix.matches` -/
def matchesPrefix (p other : Prefix) (m : Casemapping) : Bool :=
  match p.user, p.host, other.user, other.host with
  | some sUser, some sHost, some oUser, some oHost =>
    decide (casefold p.nick m = casefold other.nick m ∧
      casefold sUser .ascii = casefold oUser .ascii ∧
      casefold sHost .ascii = casefold oHost .ascii)
  | _, _, _, _ => false

end Prefix

/-- The loop of `_glob_matches`, from its four variables on. The last `*` passed is at
`star`, and was last tried against what begins at `starValue`. -/
def globLoop (pattern value : Str) (patternIndex valueIndex : ℕ) (star : Option ℕ) (starValue : ℕ)
    (h : starValue ≤ valueIndex) : Bool :=
  match hvalue : value[valueIndex]? with
  | none => (pattern.drop patternIndex).all fun c => c = 42
  | some c =>
    if hsame : pattern[patternIndex]? = some c ∨ pattern[patternIndex]? = some 63 then
      globLoop pattern value (patternIndex + 1) (valueIndex + 1) star starValue (by omega)
    else if hstar : pattern[patternIndex]? = some 42 then
      globLoop pattern value (patternIndex + 1) valueIndex (some patternIndex) valueIndex le_rfl
    else
      match star with
      | some starIndex =>
        globLoop pattern value (starIndex + 1) (starValue + 1) (some starIndex) (starValue + 1)
          le_rfl
      | none => false
termination_by (value.length - starValue,
  (value.length - valueIndex) + (pattern.length - patternIndex))
decreasing_by
  all_goals have hlt := (List.getElem?_eq_some_iff.mp hvalue).1
  · have hp : patternIndex < pattern.length := by
      rcases hsame with hsame | hsame <;> exact (List.getElem?_eq_some_iff.mp hsame).1
    exact Prod.Lex.right _ (by omega)
  · have hp := (List.getElem?_eq_some_iff.mp hstar).1
    rcases h.eq_or_lt with rfl | h
    · exact Prod.Lex.right _ (by omega)
    · exact Prod.Lex.left _ _ (by omega)
  · exact Prod.Lex.left _ _ (by omega)

/-- `_glob_matches` -/
def globMatches (pattern value : Str) : Bool := globLoop pattern value 0 0 none 0 le_rfl

/-- `mask_matches`: a part that the mask leaves out is `*`. -/
def maskMatches (mask : Str) (p : Prefix) (m : Casemapping) : Bool :=
  let parsed := Prefix.parse mask
  globMatches (casefold parsed.nick m) (casefold p.nick m) &&
    globMatches (casefold (parsed.user.getD (lit "*")) .ascii) (casefold (p.user.getD []) .ascii) &&
    globMatches (casefold (parsed.host.getD (lit "*")) .ascii) (casefold (p.host.getD []) .ascii)

/-! ## What a match says -/

/-- `?` stands for any character and `*` for any string. -/
abbrev Matching (pattern value : Str) : Prop := Glob.Matches (63 : CodePoint) 42 pattern value

/-- The mask stands for the identity. -/
def StandsFor (mask : Str) (p : Prefix) (m : Casemapping) : Prop :=
  let parsed := Prefix.parse mask
  Matching (casefold parsed.nick m) (casefold p.nick m) ∧
    Matching (casefold (parsed.user.getD (lit "*")) .ascii) (casefold (p.user.getD []) .ascii) ∧
    Matching (casefold (parsed.host.getD (lit "*")) .ascii) (casefold (p.host.getD []) .ascii)

theorem drop_of_getElem? {α : Type*} {l : List α} {i : ℕ} {c : α} (h : l[i]? = some c) :
    l.drop i = c :: l.drop (i + 1) := by
  obtain ⟨hlt, rfl⟩ := List.getElem?_eq_some_iff.mp h
  exact List.drop_eq_getElem_cons hlt

section Loop

variable {pattern value : Str} {pi vi sv : ℕ} {star : Option ℕ} {h : sv ≤ vi} {c : CodePoint}

theorem globLoop_end (hvalue : value[vi]? = none) :
    globLoop pattern value pi vi star sv h = (pattern.drop pi).all fun c => c = 42 := by
  rw [globLoop.eq_def]
  split
  · rfl
  · rename_i d hd
    rw [hvalue] at hd
    simp at hd

theorem globLoop_some (hvalue : value[vi]? = some c) :
    globLoop pattern value pi vi star sv h =
      if pattern[pi]? = some c ∨ pattern[pi]? = some 63 then
        globLoop pattern value (pi + 1) (vi + 1) star sv (by omega)
      else if pattern[pi]? = some 42 then
        globLoop pattern value (pi + 1) vi (some pi) vi le_rfl
      else
        match star with
        | some si => globLoop pattern value (si + 1) (sv + 1) (some si) (sv + 1) le_rfl
        | none => false := by
  conv_lhs => rw [globLoop.eq_def]
  split
  · rename_i hd
    rw [hvalue] at hd
    simp at hd
  · rename_i d hd
    obtain rfl := Option.some.inj (hvalue.symm.trans hd)
    split_ifs <;> rfl

end Loop

/-- Where the loop ends well, the rest of the pattern matches the rest of the value, or
what follows the last `*` matches a later part of it. -/
theorem matching_of_globLoop {pattern value : Str} {pi vi sv : ℕ} {star : Option ℕ}
    {h : sv ≤ vi} (hloop : globLoop pattern value pi vi star sv h = true) :
    Matching (pattern.drop pi) (value.drop vi) ∨
      ∃ si k, star = some si ∧ sv ≤ k ∧ Matching (pattern.drop (si + 1)) (value.drop k) := by
  induction pi, vi, star, sv, h using globLoop.induct pattern value with
  | case1 pi vi star sv h hvalue =>
    rw [globLoop_end hvalue, List.all_eq_true] at hloop
    rw [List.drop_eq_nil_of_le (List.getElem?_eq_none_iff.mp hvalue)]
    exact .inl (Glob.Matches.of_all_many fun c hc => of_decide_eq_true (hloop c hc))
  | case2 pi vi star sv h c hvalue hsame ih =>
    rw [globLoop_some hvalue, if_pos hsame] at hloop
    refine (ih hloop).imp_left fun hrest => ?_
    rw [drop_of_getElem? hvalue]
    rcases hsame with hsame | hsame
    · rw [drop_of_getElem? hsame]
      exact hrest.same
    · rw [drop_of_getElem? hsame]
      exact hrest.single
  | case3 pi vi star sv h c hvalue hsame hstar ih =>
    rw [globLoop_some hvalue, if_neg hsame, if_pos hstar] at hloop
    left
    rw [drop_of_getElem? hstar]
    rcases ih hloop with hrest | ⟨si, k, hsi, hle, hrest⟩
    · exact hrest.empty
    · obtain rfl := Option.some.inj hsi
      exact hrest.many_drop hle
  | case4 pi vi sv h c hvalue hsame hstar si ih =>
    rw [globLoop_some hvalue, if_neg hsame, if_neg hstar] at hloop
    right
    rcases ih hloop with hrest | ⟨si', k, hsi, hle, hrest⟩
    · exact ⟨si, sv + 1, rfl, by omega, hrest⟩
    · exact ⟨si', k, hsi, by omega, hrest⟩
  | case5 pi vi sv h c hvalue hsame hstar =>
    rw [globLoop_some hvalue, if_neg hsame, if_neg hstar] at hloop
    simp at hloop

theorem matching_of_globMatches {pattern value : Str} (h : globMatches pattern value = true) :
    Matching pattern value := by
  rcases matching_of_globLoop h with h | ⟨si, k, hsi, -⟩
  · exact h
  · simp at hsi

/-! ## Which matches the loop misses -/

/-- A symbol that is neither `?` nor `*` nor that of the value stops every match. -/
theorem not_matching_of_mismatch {pattern value : Str} {pi vi : ℕ} {c : CodePoint}
    (hvalue : value[vi]? = some c)
    (hsame : ¬ (pattern[pi]? = some c ∨ pattern[pi]? = some 63))
    (hstar : ¬ pattern[pi]? = some 42) : ¬ Matching (pattern.drop pi) (value.drop vi) := by
  intro hmatch
  rw [drop_of_getElem? hvalue] at hmatch
  cases hp : pattern[pi]? with
  | none =>
    rw [List.drop_eq_nil_of_le (List.getElem?_eq_none_iff.mp hp)] at hmatch
    cases hmatch
  | some d =>
    rw [drop_of_getElem? hp] at hmatch
    have hd : d ≠ 42 := fun heq => hstar (heq ▸ hp)
    rcases (hmatch.of_cons hd).1 with rfl | rfl
    · exact hsame (.inl hp)
    · exact hsame (.inr hp)

/-- Where the part of the pattern after the last `*` passed begins -/
def afterStar (star : Option ℕ) : ℕ := star.elim 0 (· + 1)

/-- The pattern has passed a plain segment since its last `*`, as the value has since the
last try. -/
def Passed (pattern : Str) (pi vi sv : ℕ) (star : Option ℕ) : Prop :=
  ∃ q, pattern.drop (afterStar star) = q ++ pattern.drop pi ∧ (42 : CodePoint) ∉ q ∧
    pi = afterStar star + q.length ∧ vi = sv + q.length

theorem passed_start (pattern : Str) : Passed pattern 0 0 0 none :=
  ⟨[], rfl, List.not_mem_nil, rfl, rfl⟩

theorem passed_star (pattern : Str) (si vi : ℕ) : Passed pattern (si + 1) vi vi (some si) :=
  ⟨[], rfl, List.not_mem_nil, rfl, rfl⟩

/-- The segment grows by a symbol other than `*`. -/
theorem Passed.same {pattern : Str} {pi vi sv : ℕ} {star : Option ℕ} {d : CodePoint}
    (h : Passed pattern pi vi sv star) (hd : pattern[pi]? = some d) (hplain : d ≠ 42) :
    Passed pattern (pi + 1) (vi + 1) sv star := by
  obtain ⟨q, hq, hplainq, hpi, hvi⟩ := h
  refine ⟨q ++ [d], ?_, ?_, ?_, ?_⟩
  · rw [hq, drop_of_getElem? hd, List.append_assoc, List.singleton_append]
  · rw [List.mem_append, List.mem_singleton]
    exact fun hor => hor.elim hplainq fun heq => hplain heq.symm
  · rw [List.length_append, List.length_singleton, hpi]
    rfl
  · rw [List.length_append, List.length_singleton, hvi]
    rfl

/-- A later start of what follows the last `*` leaves the rest a later part. -/
theorem Passed.later {pattern value : Str} {pi vi sv k : ℕ} {star : Option ℕ}
    (h : Passed pattern pi vi sv star) (hle : sv ≤ k)
    (hk : Matching (pattern.drop (afterStar star)) (value.drop k)) :
    Matching (pattern.drop pi) (value.drop (vi + (k - sv))) := by
  obtain ⟨q, hq, hplain, -, rfl⟩ := h
  rw [hq] at hk
  have hrest := (hk.drop_segment hplain).2
  rw [List.drop_drop] at hrest
  have heq : sv + q.length + (k - sv) = k + q.length := by omega
  rwa [heq]

/-- In a run of the loop from its four variables on, a `*` of the pattern is compared with a
`*` of the value. -/
inductive StarsMeet (pattern value : Str) : ℕ → ℕ → Option ℕ → ℕ → Prop
  | here {pi vi sv : ℕ} {star : Option ℕ} (hstar : pattern[pi]? = some 42)
    (hvalue : value[vi]? = some 42) : StarsMeet pattern value pi vi star sv
  | same {pi vi sv : ℕ} {star : Option ℕ} {c : CodePoint} (hvalue : value[vi]? = some c)
    (hsame : pattern[pi]? = some c ∨ pattern[pi]? = some 63)
    (h : StarsMeet pattern value (pi + 1) (vi + 1) star sv) :
    StarsMeet pattern value pi vi star sv
  | star {pi vi sv : ℕ} {star : Option ℕ} {c : CodePoint} (hvalue : value[vi]? = some c)
    (hsame : ¬ (pattern[pi]? = some c ∨ pattern[pi]? = some 63))
    (hstar : pattern[pi]? = some 42) (h : StarsMeet pattern value (pi + 1) vi (some pi) vi) :
    StarsMeet pattern value pi vi star sv
  | back {pi vi sv si : ℕ} {c : CodePoint} (hvalue : value[vi]? = some c)
    (hsame : ¬ (pattern[pi]? = some c ∨ pattern[pi]? = some 63))
    (hstar : ¬ pattern[pi]? = some 42)
    (h : StarsMeet pattern value (si + 1) (sv + 1) (some si) (sv + 1)) :
    StarsMeet pattern value pi vi (some si) sv

/-- Where the loop fails, the rest of the pattern does not match the rest of the value, nor
does what follows the last `*` match a later part of it, if no `*` meets a `*` on the way. -/
theorem not_matching_of_globLoop {pattern value : Str} {pi vi sv : ℕ} {star : Option ℕ}
    {h : sv ≤ vi} (hmeet : ¬ StarsMeet pattern value pi vi star sv)
    (hpassed : Passed pattern pi vi sv star)
    (hloop : globLoop pattern value pi vi star sv h = false) :
    ¬ Matching (pattern.drop pi) (value.drop vi) ∧
      ∀ si, star = some si → ∀ k, sv ≤ k →
        ¬ Matching (pattern.drop (si + 1)) (value.drop k) := by
  induction pi, vi, star, sv, h using globLoop.induct pattern value with
  | case1 pi vi star sv h hvalue =>
    rw [globLoop_end hvalue, List.all_eq_false] at hloop
    obtain ⟨c, hc, hne⟩ := hloop
    have hlen := List.getElem?_eq_none_iff.mp hvalue
    have hend : ∀ j, vi ≤ j → ¬ Matching (pattern.drop pi) (value.drop j) := by
      intro j hj hmatch
      rw [show value.drop j = [] from List.drop_eq_nil_of_le (hlen.trans hj)] at hmatch
      exact hne (decide_eq_true (hmatch.all_many c hc))
    refine ⟨hend vi le_rfl, ?_⟩
    rintro si rfl k hle hk
    exact hend _ (Nat.le_add_right _ _) (hpassed.later hle hk)
  | case2 pi vi star sv h c hvalue hsame ih =>
    rw [globLoop_some hvalue, if_pos hsame] at hloop
    obtain ⟨d, hd, hplaind⟩ : ∃ d, pattern[pi]? = some d ∧ d ≠ 42 := by
      rcases hsame with hsame | hsame
      · refine ⟨c, hsame, ?_⟩
        rintro rfl
        exact hmeet (.here hsame hvalue)
      · exact ⟨63, hsame, by decide⟩
    obtain ⟨hrest, hstar⟩ := ih (fun hnext => hmeet (.same hvalue hsame hnext))
      (hpassed.same hd hplaind) hloop
    refine ⟨fun hmatch => hrest ?_, hstar⟩
    rw [drop_of_getElem? hd, drop_of_getElem? hvalue] at hmatch
    exact (hmatch.of_cons hplaind).2
  | case3 pi vi star sv h c hvalue hsame hstar ih =>
    rw [globLoop_some hvalue, if_neg hsame, if_pos hstar] at hloop
    obtain ⟨-, hnew⟩ := ih (fun hnext => hmeet (.star hvalue hsame hstar hnext))
      (passed_star pattern pi vi) hloop
    -- what matches from the new `*` on matches from some later part on
    have hrest : ∀ j, vi ≤ j → ¬ Matching (pattern.drop pi) (value.drop j) := by
      intro j hj hmatch
      rw [drop_of_getElem? hstar] at hmatch
      obtain ⟨k, -, hk⟩ := hmatch.of_many
      rw [List.drop_drop] at hk
      exact hnew pi rfl _ (hj.trans (Nat.le_add_right _ _)) hk
    refine ⟨hrest vi le_rfl, ?_⟩
    rintro si rfl k hle hk
    exact hrest _ (Nat.le_add_right _ _) (hpassed.later hle hk)
  | case4 pi vi sv h c hvalue hsame hstar si ih =>
    rw [globLoop_some hvalue, if_neg hsame, if_neg hstar] at hloop
    obtain ⟨-, hnext⟩ := ih (fun hnext => hmeet (.back hvalue hsame hstar hnext))
      (passed_star pattern si (sv + 1)) hloop
    have hrest := not_matching_of_mismatch hvalue hsame hstar
    refine ⟨hrest, fun si' hsi k hle hk => ?_⟩
    obtain rfl := Option.some.inj hsi
    rcases hle.eq_or_lt with rfl | hlt
    · have hlater := hpassed.later le_rfl hk
      rw [Nat.sub_self, Nat.add_zero] at hlater
      exact hrest hlater
    · exact hnext si rfl k hlt hk
  | case5 pi vi sv h c hvalue hsame hstar =>
    exact ⟨not_matching_of_mismatch hvalue hsame hstar, by simp⟩

/-! ## Where a `*` meets a `*` -/

/-- The shortest beginning of the value that the pattern up to one of its `*` matches is
followed by a `*`. -/
def StarFollows (pattern value : Str) : Prop :=
  ∃ p rest n, pattern = p ++ 42 :: rest ∧ Glob.Shortest 63 42 p value n ∧ value[n]? = some 42

/-- What the loop has found out where no `*` has met a `*` yet: the passed part of the pattern
matches that of the value, and where more of the pattern up to a `*` matches a beginning of
the value, what follows the last `*` passed begins no earlier than it is tried. -/
structure Tried (pattern value : Str) (pi vi : ℕ) (star : Option ℕ) (sv : ℕ) : Prop where
  passed : Passed pattern pi vi sv star
  starred : ∀ si, star = some si → pattern[si]? = some 42
  began : Matching (pattern.take (afterStar star)) (value.take sv)
  read : Matching (pattern.take pi) (value.take vi)
  later : ∀ p rest n, pattern = p ++ 42 :: rest → afterStar star ≤ p.length →
    Matching p (value.take n) → ∃ k, sv ≤ k ∧ k ≤ (value.take n).length ∧
      (star = none → k = sv) ∧ Matching (p.drop (afterStar star)) ((value.take n).drop k)

namespace Tried

variable {pattern value p rest : Str} {pi vi sv si k n : ℕ} {star : Option ℕ} {c d : CodePoint}

theorem start (pattern value : Str) : Tried pattern value 0 0 none 0 where
  passed := passed_start pattern
  starred := by simp
  began := .nil
  read := .nil
  later := fun _ _ _ _ _ hp => ⟨0, le_rfl, Nat.zero_le _, fun _ => rfl, hp⟩

theorem after_le (h : Tried pattern value pi vi star sv) : afterStar star ≤ pi := by
  obtain ⟨q, -, -, hpi, -⟩ := h.passed
  omega

/-- Where what follows the last `*` begins somewhere, the rest goes on from there. -/
theorem rest_matches (h : Tried pattern value pi vi star sv) (hsplit : pattern = p ++ 42 :: rest)
    (hle : afterStar star ≤ p.length) (hk : sv ≤ k) (hkn : k ≤ (value.take n).length)
    (hmatch : Matching (p.drop (afterStar star)) ((value.take n).drop k)) :
    pi ≤ p.length ∧ vi + (k - sv) ≤ (value.take n).length ∧
      Matching (p.drop pi) ((value.take n).drop (vi + (k - sv))) := by
  obtain ⟨q, hq, hplain, hpi, hvi⟩ := h.passed
  -- the segment ends before the `*`
  obtain ⟨u, hu⟩ : ∃ u, p.drop (afterStar star) = q ++ u := by
    have hcut : p.drop (afterStar star) ++ 42 :: rest = q ++ pattern.drop pi := by
      rw [← hq, hsplit, List.drop_append_of_le_length hle]
    rcases List.append_eq_append_iff.mp hcut with ⟨u, hu, htail⟩ | ⟨u, hu, -⟩
    · cases u with
      | nil => exact ⟨[], by rw [hu, List.append_nil, List.append_nil]⟩
      | cons c u =>
        obtain ⟨rfl, -⟩ := List.cons.inj htail
        exact absurd (hu ▸ List.mem_append_right _ List.mem_cons_self) hplain
    · exact ⟨u, hu⟩
  have hlength := congrArg List.length hu
  rw [List.length_drop, List.length_append] at hlength
  have hdrop : p.drop pi = u := by
    rw [hpi, ← List.drop_drop, hu, List.drop_left]
  rw [hu] at hmatch
  obtain ⟨hroom, hrest⟩ := hmatch.drop_segment hplain
  rw [List.length_drop] at hroom
  rw [List.drop_drop] at hrest
  refine ⟨by omega, by omega, ?_⟩
  have heq : vi + (k - sv) = k + q.length := by omega
  rwa [hdrop, heq]

/-- At a `*` the value has been read no further than the pattern before it needs. -/
theorem shortest (h : Tried pattern value pi vi star sv) (hstar : pattern[pi]? = some 42) :
    Glob.Shortest 63 42 (pattern.take pi) value vi where
  matched := h.read
  least := by
    intro m hm
    have hlt := (List.getElem?_eq_some_iff.mp hstar).1
    have hsplit : pattern = pattern.take pi ++ 42 :: pattern.drop (pi + 1) := by
      rw [← drop_of_getElem? hstar, List.take_append_drop]
    obtain ⟨q, -, -, hpi, -⟩ := h.passed
    have hlength : (pattern.take pi).length = pi := List.length_take_of_le hlt.le
    obtain ⟨k, hk, hkm, -, hbegin⟩ := h.later _ _ m hsplit (by omega) hm
    obtain ⟨-, hend, -⟩ := h.rest_matches hsplit (by omega) hk hkm hbegin
    have := List.length_take_le m value
    omega

theorem same (h : Tried pattern value pi vi star sv) (hvalue : value[vi]? = some c)
    (hsame : pattern[pi]? = some c ∨ pattern[pi]? = some 63) (hd : pattern[pi]? = some d)
    (hplain : d ≠ 42) : Tried pattern value (pi + 1) (vi + 1) star sv where
  passed := h.passed.same hd hplain
  starred := h.starred
  began := h.began
  read := by
    have hone : Matching [d] [c] := by
      rcases hsame with hsame | hsame <;> obtain rfl := Option.some.inj (hsame.symm.trans hd)
      · exact Glob.Matches.nil.same
      · exact Glob.Matches.nil.single
    rw [List.take_add_one, List.take_add_one, hd, hvalue]
    exact h.read.append hone
  later := h.later

theorem pass (h : Tried pattern value pi vi star sv) (hstar : pattern[pi]? = some 42) :
    Tried pattern value (pi + 1) vi (some pi) vi := by
  have hread : Matching (pattern.take (pi + 1)) (value.take vi) := by
    have hmany : Matching [42] [] := Glob.Matches.many_self []
    have h' := h.read.append hmany
    rwa [List.append_nil, ← Option.toList_some, ← hstar, ← List.take_add_one] at h'
  refine ⟨passed_star pattern pi vi, ?_, hread, hread, ?_⟩
  · intro si hsi
    obtain rfl := Option.some.inj hsi
    exact hstar
  · intro p rest n hsplit hle hp
    have hpi : pi < p.length := hle
    obtain ⟨q, -, -, hafter, -⟩ := h.passed
    obtain ⟨k, hk, hkn, -, hbegin⟩ := h.later p rest n hsplit (by omega) hp
    obtain ⟨-, hend, hmatch⟩ := h.rest_matches hsplit (by omega) hk hkn hbegin
    have hp42 : p[pi]? = some 42 := by
      rw [hsplit, List.getElem?_append_left hpi] at hstar
      exact hstar
    rw [drop_of_getElem? hp42] at hmatch
    obtain ⟨j, hj, hrest⟩ := hmatch.of_many
    rw [List.length_drop] at hj
    rw [List.drop_drop] at hrest
    exact ⟨_, by omega, by omega, by simp, hrest⟩

/-- After a mismatch what follows the last `*` does not begin where it was tried. -/
theorem mismatch (h : Tried pattern value pi vi star sv) (hvalue : value[vi]? = some c)
    (hsame : ¬ (pattern[pi]? = some c ∨ pattern[pi]? = some 63))
    (hstar : ¬ pattern[pi]? = some 42) (hsplit : pattern = p ++ 42 :: rest) (hpi : pi ≤ p.length) :
    ¬ Matching (p.drop pi) ((value.take n).drop vi) := by
  have hlt : pi < p.length := by
    rcases hpi.eq_or_lt with rfl | hlt
    · exact absurd (by rw [hsplit]; simp) hstar
    · exact hlt
  have hd : p[pi]? = some p[pi] := List.getElem?_eq_getElem hlt
  have hsymbol : pattern[pi]? = some p[pi] := by
    rw [hsplit, List.getElem?_append_left hlt, hd]
  have hplain : p[pi] ≠ 42 := fun heq => hstar (hsymbol.trans (congrArg some heq))
  intro hmatch
  rw [drop_of_getElem? hd] at hmatch
  cases hrest : (value.take n).drop vi with
  | nil =>
    rw [hrest] at hmatch
    exact hplain (hmatch.all_many _ List.mem_cons_self)
  | cons c' v =>
    rw [hrest] at hmatch
    have hc : (value.take n)[vi]? = some c' := by
      rw [← List.head?_drop, hrest, List.head?_cons]
    obtain rfl : c = c' := by
      have hle := (List.getElem?_eq_some_iff.mp hc).1
      rw [List.length_take] at hle
      rw [List.getElem?_take_of_lt (by omega), hvalue] at hc
      exact Option.some.inj hc
    rcases (hmatch.of_cons hplain).1 with heq | heq
    · exact hsame (.inl (hsymbol.trans (congrArg some heq)))
    · exact hsame (.inr (hsymbol.trans (congrArg some heq)))

theorem back (h : Tried pattern value pi vi (some si) sv) (hvalue : value[vi]? = some c)
    (hsame : ¬ (pattern[pi]? = some c ∨ pattern[pi]? = some 63))
    (hstar : ¬ pattern[pi]? = some 42) :
    Tried pattern value (si + 1) (sv + 1) (some si) (sv + 1) := by
  have hread : Matching (pattern.take (si + 1)) (value.take (sv + 1)) := by
    -- the `*` takes one symbol more
    have hbegan : Matching (pattern.take (si + 1)) (value.take sv) := h.began
    rw [List.take_add_one, h.starred si rfl] at hbegan ⊢
    obtain ⟨u, v, hcut, hu, -⟩ := hbegan.of_append
    rw [List.take_add_one, hcut, List.append_assoc]
    exact hu.append (Glob.Matches.many_self _)
  refine ⟨passed_star pattern si (sv + 1), h.starred, hread, hread, ?_⟩
  intro p rest n hsplit hle hp
  obtain ⟨k, hk, hkn, -, hbegin⟩ := h.later p rest n hsplit hle hp
  obtain ⟨hpi, -, hmatch⟩ := h.rest_matches hsplit hle hk hkn hbegin
  have hne : k ≠ sv := by
    rintro rfl
    rw [Nat.sub_self, Nat.add_zero] at hmatch
    exact h.mismatch hvalue hsame hstar hsplit hpi hmatch
  exact ⟨k, by omega, hkn, by simp, hbegin⟩

/-- A `*` meets a `*` where the shortest beginning ends. -/
theorem starFollows (h : Tried pattern value pi vi star sv)
    (hmeet : StarsMeet pattern value pi vi star sv) : StarFollows pattern value := by
  have hhere : ∀ {pi vi sv : ℕ} {star : Option ℕ}, Tried pattern value pi vi star sv →
      pattern[pi]? = some 42 → value[vi]? = some 42 → StarFollows pattern value := by
    intro pi vi sv star h hstar hvalue
    refine ⟨pattern.take pi, pattern.drop (pi + 1), vi, ?_, h.shortest hstar, hvalue⟩
    rw [← drop_of_getElem? hstar, List.take_append_drop]
  induction hmeet with
  | here hstar hvalue => exact hhere h hstar hvalue
  | @same pi vi sv star c hvalue hsame _ ih =>
    obtain ⟨d, hd⟩ : ∃ d, pattern[pi]? = some d := hsame.elim (fun h => ⟨_, h⟩) fun h => ⟨_, h⟩
    by_cases hplain : d = 42
    · subst hplain
      rw [hd] at hsame
      obtain rfl : 42 = c := by simpa using hsame
      exact hhere h hd hvalue
    · exact ih (h.same hvalue hsame hd hplain)
  | star _ _ hstar _ ih => exact ih (h.pass hstar)
  | back hvalue hsame hstar _ ih => exact ih (h.back hvalue hsame hstar)

/-- Where the shortest beginning before a `*` not yet passed is followed by a `*`, the two
meet. -/
theorem starsMeet (h : Tried pattern value pi vi star sv) (hle : sv ≤ vi)
    (hsplit : pattern = p ++ 42 :: rest) (hpi : pi ≤ p.length)
    (hshort : Glob.Shortest 63 42 p value n) (hfollows : value[n]? = some 42) :
    StarsMeet pattern value pi vi star sv := by
  have hlast : pattern[p.length]? = some 42 := by rw [hsplit]; simp
  have hn := (List.getElem?_eq_some_iff.mp hfollows).1
  induction pi, vi, star, sv, hle using globLoop.induct pattern value with
  | case1 pi vi star sv hle hvalue =>
    obtain ⟨k, hk, hkn, -, hbegin⟩ := h.later p rest n hsplit (h.after_le.trans hpi) hshort.matched
    obtain ⟨-, hend, -⟩ := h.rest_matches hsplit (h.after_le.trans hpi) hk hkn hbegin
    have hlen := List.getElem?_eq_none_iff.mp hvalue
    have := List.length_take_le n value
    omega
  | case2 pi vi star sv hle c hvalue hsame ih =>
    obtain ⟨d, hd⟩ : ∃ d, pattern[pi]? = some d := hsame.elim (fun h => ⟨_, h⟩) fun h => ⟨_, h⟩
    by_cases hplain : d = 42
    · subst hplain
      rw [hd] at hsame
      obtain rfl : 42 = c := by simpa using hsame
      exact .here hd hvalue
    · have hne : pi ≠ p.length := by
        rintro rfl
        exact hplain (Option.some.inj (hd.symm.trans hlast))
      exact .same hvalue hsame (ih (h.same hvalue hsame hd hplain) (by omega))
  | case3 pi vi star sv hle c hvalue hsame hstar ih =>
    have hne : pi ≠ p.length := by
      rintro rfl
      have hshortest := h.shortest hstar
      rw [hsplit, List.take_left] at hshortest
      obtain rfl := hshortest.unique hshort
      exact hsame (.inl (hstar.trans (hfollows.symm.trans hvalue)))
    exact .star hvalue hsame hstar (ih (h.pass hstar) (by omega))
  | case4 pi vi sv hle c hvalue hsame hstar si ih =>
    exact .back hvalue hsame hstar (ih (h.back hvalue hsame hstar) (h.after_le.trans hpi))
  | case5 pi vi sv hle c hvalue hsame hstar =>
    obtain ⟨k, hk, hkn, hnone, hbegin⟩ :=
      h.later p rest n hsplit (h.after_le.trans hpi) hshort.matched
    obtain ⟨-, -, hmatch⟩ := h.rest_matches hsplit (h.after_le.trans hpi) hk hkn hbegin
    rw [hnone rfl, Nat.sub_self, Nat.add_zero] at hmatch
    exact absurd hmatch (h.mismatch hvalue hsame hstar hsplit hpi)

end Tried

theorem starsMeet_iff (pattern value : Str) :
    StarsMeet pattern value 0 0 none 0 ↔ StarFollows pattern value := by
  constructor
  · exact (Tried.start pattern value).starFollows
  · rintro ⟨p, rest, n, hsplit, hshort, hfollows⟩
    exact (Tried.start pattern value).starsMeet le_rfl hsplit (Nat.zero_le _) hshort hfollows

theorem globMatches_of_not_follows {pattern value : Str} (h : ¬ StarFollows pattern value) :
    globMatches pattern value = true ↔ Matching pattern value := by
  refine ⟨matching_of_globMatches, fun hmatch => ?_⟩
  by_contra hfalse
  exact (not_matching_of_globLoop (mt (starsMeet_iff pattern value).mp h) (passed_start pattern)
    (Bool.not_eq_true _ ▸ hfalse)).1 hmatch

/-- A `*` follows only where both hold one. -/
theorem StarFollows.mem {pattern value : Str} (h : StarFollows pattern value) :
    (42 : CodePoint) ∈ pattern ∧ (42 : CodePoint) ∈ value := by
  obtain ⟨p, rest, n, rfl, -, hfollows⟩ := h
  exact ⟨by simp, List.mem_of_getElem? hfollows⟩

theorem matching_iff_globMatches {pattern value : Str}
    (hplain : (42 : CodePoint) ∉ pattern ∨ (42 : CodePoint) ∉ value) :
    globMatches pattern value = true ↔ Matching pattern value :=
  globMatches_of_not_follows fun h => hplain.elim (fun hout => hout h.mem.1) fun hout =>
    hout h.mem.2

/-- Equal beginnings are passed without a `*`, even where both hold one. -/
theorem globMatches_same_append (u pattern value : Str) (h : ¬ Matching pattern value) :
    globMatches (u ++ pattern) (u ++ value) = false := by
  have hskip : ∀ n ≤ u.length, globMatches (u ++ pattern) (u ++ value) =
      globLoop (u ++ pattern) (u ++ value) n n none 0 (Nat.zero_le _) := by
    intro n hn
    induction n with
    | zero => rfl
    | succ n ih =>
      have hlt : n < u.length := hn
      have hsame : ∀ w : Str, (u ++ w)[n]? = some u[n] := by
        intro w
        rw [List.getElem?_append_left hlt, List.getElem?_eq_getElem hlt]
      rw [ih hlt.le, globLoop_some (hsame value), if_pos (.inl (hsame pattern))]
  rw [hskip u.length le_rfl]
  by_contra hloop
  rcases matching_of_globLoop (Bool.not_eq_false _ ▸ hloop) with hmatch | ⟨si, k, hsi, -⟩
  · rw [List.drop_left, List.drop_left] at hmatch
    exact h hmatch
  · simp at hsi

/-- Every value with a `*` is missed by a pattern that matches it. -/
theorem exists_missed_pattern {value : Str} (h : (42 : CodePoint) ∈ value) :
    ∃ pattern, Matching pattern value ∧ globMatches pattern value = false := by
  obtain ⟨u, v, rfl⟩ := List.append_of_mem h
  -- one `?` too many after the `*` that stands for nothing
  set r : Str := 63 :: List.replicate v.length 63 with hr
  have hplain : (42 : CodePoint) ∉ r := by simp [hr]
  refine ⟨u ++ 42 :: r, ?_, ?_⟩
  · have hrest : Matching r (42 :: v) := (Glob.Matches.replicate_one v).single
    exact hrest.empty.same_append u
  · have hnot : ¬ Matching r v := fun hmatch => by
      have hlen := Glob.Matches.length_eq hplain hmatch
      rw [hr, List.length_cons, List.length_replicate] at hlen
      omega
    have hmissed := globMatches_same_append (u ++ [42]) r v hnot
    simpa using hmissed

/-- Every pattern with a `*` misses a value that it matches. -/
theorem exists_missed_value {pattern : Str} (h : (42 : CodePoint) ∈ pattern) :
    ∃ value, Matching pattern value ∧ globMatches pattern value = false := by
  obtain ⟨after, before, hsplit, hplain⟩ := List.eq_append_cons_of_mem (List.mem_reverse.mpr h)
  have hpattern : pattern = before.reverse ++ 42 :: after.reverse := by
    rw [← List.reverse_reverse pattern, hsplit]
    simp
  have hlast : (42 : CodePoint) ∉ after.reverse := fun hmem => hplain (List.mem_reverse.mp hmem)
  -- the last `*` stands for two characters, the first of them a `*`
  refine ⟨before.reverse ++ 42 :: 42 :: after.reverse, ?_, ?_⟩
  · rw [hpattern]
    exact (Glob.Matches.refl after.reverse).empty.extend.extend.same_append _
  · have hnot : ¬ Matching after.reverse (42 :: after.reverse) := fun hmatch => by
      have hlen := Glob.Matches.length_eq hlast hmatch
      rw [List.length_cons] at hlen
      omega
    have hmissed := globMatches_same_append (before.reverse ++ [42]) _ _ hnot
    rw [hpattern]
    simpa using hmissed

/-- A pair is judged rightly where no shortest beginning before a `*` of the pattern is
followed by a `*`, which is where the loop compares no `*` with a `*`. Every pattern judges a
value rightly if and only if the value holds no `*`, and a pattern judges every value rightly
if and only if it holds no `*` itself. -/
theorem globMatches_exact (pattern value : Str) :
    (¬ StarFollows pattern value → (globMatches pattern value = true ↔ Matching pattern value)) ∧
    (StarFollows pattern value ↔ StarsMeet pattern value 0 0 none 0) ∧
    ((∀ p, globMatches p value = true ↔ Matching p value) ↔ (42 : CodePoint) ∉ value) ∧
    ((∀ v, globMatches pattern v = true ↔ Matching pattern v) ↔
      (42 : CodePoint) ∉ pattern) := by
  refine ⟨globMatches_of_not_follows, (starsMeet_iff pattern value).symm, ?_, ?_⟩
  · refine ⟨fun hall hstar => ?_, fun hplain p => matching_iff_globMatches (.inr hplain)⟩
    obtain ⟨p, hmatch, hmissed⟩ := exists_missed_pattern hstar
    rw [(hall p).mpr hmatch] at hmissed
    simp at hmissed
  · refine ⟨fun hall hstar => ?_, fun hplain v => matching_iff_globMatches (.inl hplain)⟩
    obtain ⟨v, hmatch, hmissed⟩ := exists_missed_value hstar
    rw [(hall v).mpr hmatch] at hmissed
    simp at hmissed

/-- The pattern `*` misses the value `*a`. -/
theorem not_globMatches_exact_all :
    ¬ ∀ pattern value, globMatches pattern value = true ↔ Matching pattern value := by
  intro hall
  have hmatch : Matching (lit "*") (lit "*a") := Glob.Matches.nil.empty.extend.extend
  have hmissed : globMatches (lit "*") (lit "*a") = false :=
    globMatches_same_append (lit "*") [] (lit "a") (by rintro ⟨⟩)
  rw [(hall _ _).mpr hmatch] at hmissed
  simp at hmissed

/-- A mask that `mask_matches` accepts stands for the identity. -/
theorem standsFor_of_maskMatches {mask : Str} {p : Prefix} {m : Casemapping}
    (h : maskMatches mask p m = true) : StandsFor mask p m := by
  simp only [maskMatches, Bool.and_eq_true] at h
  obtain ⟨⟨hnick, huser⟩, hhost⟩ := h
  exact ⟨matching_of_globMatches hnick, matching_of_globMatches huser,
    matching_of_globMatches hhost⟩

end Botnats
