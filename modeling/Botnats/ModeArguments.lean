import Botnats.Members

/-!
# Pairing mode changes with their arguments

A batch of changes is written as a string of signs and letters, followed by the arguments
that some of the letters take. Reading it gives the batch back, also where the server
leaves out the argument of its one `-k`.
-/
namespace Botnats

/-- A change: whether the mode is set, its letter, and the argument it carries -/
abbrev ModeChange := Bool × CodePoint × Option Str

namespace ModeChange

def letter (e : ModeChange) : Bool × CodePoint := (e.1, e.2.1)

/-- The arguments of a batch, in order -/
def arguments (l : List ModeChange) : List Str := l.filterMap fun e => e.2.2

/-- Every change carries an argument exactly when `mode_requires_argument` says so. -/
def Paired (caps : ISupport) (l : List ModeChange) : Prop :=
  ∀ e ∈ l, e.2.2.isSome = modeRequiresArgument caps e.letter

instance (caps : ISupport) (l : List ModeChange) : Decidable (Paired caps l) :=
  inferInstanceAs (Decidable (∀ e ∈ l, _))

end ModeChange

/-- The text writes the letters with a sign in front of every letter whose direction is not
that of the letter before it, and any number of signs more. -/
inductive Renders : Bool → List (Bool × CodePoint) → Str → Prop
  | nil {adding : Bool} : Renders adding [] []
  | plus {adding : Bool} {letters : List (Bool × CodePoint)} {text : Str}
      (h : Renders true letters text) : Renders adding letters (43 :: text)
  | minus {adding : Bool} {letters : List (Bool × CodePoint)} {text : Str}
      (h : Renders false letters text) : Renders adding letters (45 :: text)
  | letter {adding : Bool} {mode : CodePoint} {letters : List (Bool × CodePoint)} {text : Str}
      (hplus : mode ≠ 43) (hminus : mode ≠ 45) (h : Renders adding letters text) :
      Renders adding ((adding, mode) :: letters) (mode :: text)

namespace Renders

variable {adding : Bool} {letters : List (Bool × CodePoint)} {text : Str}

theorem modeLetters (h : Renders adding letters text) : modeLetters adding text = letters := by
  induction h with
  | nil => rfl
  | plus h ih => simpa [Botnats.modeLetters] using ih
  | minus h ih => simpa [Botnats.modeLetters] using ih
  | letter hplus hminus h ih => rw [Botnats.modeLetters, if_neg hplus, if_neg hminus, ih]

/-- No letter is a sign. -/
theorem not_sign (h : Renders adding letters text) : ∀ e ∈ letters, e.2 ≠ 43 ∧ e.2 ≠ 45 := by
  induction h with
  | nil => simp
  | plus h ih => exact ih
  | minus h ih => exact ih
  | letter hplus hminus h ih =>
    intro e he
    rcases List.mem_cons.mp he with rfl | he
    · exact ⟨hplus, hminus⟩
    · exact ih e he

/-- The characters of the text that are no signs are its letters. -/
theorem filter_text (h : Renders adding letters text) :
    text.filter (fun c => c ≠ 43 ∧ c ≠ 45) = letters.map Prod.snd := by
  induction h with
  | nil => rfl
  | plus h ih => exact ih
  | minus h ih => exact ih
  | letter hplus hminus h ih =>
    rw [List.filter_cons_of_pos (by simp [hplus, hminus]), ih, List.map_cons]

/-- Every list of letters has such a text. -/
theorem exists_text (adding : Bool) (letters : List (Bool × CodePoint))
    (h : ∀ e ∈ letters, e.2 ≠ 43 ∧ e.2 ≠ 45) : ∃ text, Renders adding letters text := by
  induction letters generalizing adding with
  | nil => exact ⟨[], .nil⟩
  | cons e letters ih =>
    obtain ⟨direction, mode⟩ := e
    obtain ⟨hplus, hminus⟩ := h _ List.mem_cons_self
    obtain ⟨text, htext⟩ := ih direction fun e he => h e (List.mem_cons_of_mem _ he)
    have hrest := Renders.letter hplus hminus htext
    cases direction with
    | true => exact ⟨43 :: mode :: text, hrest.plus⟩
    | false => exact ⟨45 :: mode :: text, hrest.minus⟩

end Renders

section Pairing

variable {caps : ISupport} {before after l : List ModeChange}

/-- The changes with what is expected of them are the changes with what they carry. -/
theorem ModeChange.Paired.expected (h : ModeChange.Paired caps l) :
    (l.map ModeChange.letter).map (fun change => (change, modeRequiresArgument caps change)) =
      l.map fun e => (e.letter, e.2.2.isSome) := by
  rw [List.map_map]
  exact List.map_congr_left fun e he => Prod.ext rfl (h e he).symm

theorem carried_length (l : List ModeChange) :
    ((l.map fun e => (e.letter, e.2.2.isSome)).filter Prod.snd).length =
      (ModeChange.arguments l).length := by
  induction l with
  | nil => rfl
  | cons e l ih =>
    obtain ⟨adding, mode, argument⟩ := e
    cases argument with
    | none => simpa [ModeChange.arguments] using ih
    | some argument => simpa [ModeChange.arguments] using ih

/-- A stretch of changes takes its own arguments and leaves the rest. -/
theorem takeArguments_append (l : List ModeChange) (tail : List ((Bool × CodePoint) × Bool))
    (rest : List Str) :
    takeArguments ((l.map fun e => (e.letter, e.2.2.isSome)) ++ tail)
      (ModeChange.arguments l ++ rest) = l ++ takeArguments tail rest := by
  induction l with
  | nil => rfl
  | cons e l ih =>
    obtain ⟨adding, mode, argument⟩ := e
    cases argument with
    | none => exact congrArg ((adding, mode, none) :: ·) ih
    | some argument => exact congrArg ((adding, mode, some argument) :: ·) ih

theorem takeArguments_carried (l : List ModeChange) :
    takeArguments (l.map fun e => (e.letter, e.2.2.isSome)) (ModeChange.arguments l) = l := by
  simpa [takeArguments] using takeArguments_append l [] []

/-- What comes before the first `-k` is left as it is. -/
theorem relaxKey_append (hbefore : ∀ e ∈ before, e.letter ≠ (false, 107))
    (tail : List ((Bool × CodePoint) × Bool)) :
    relaxKey ((before.map fun e => (e.letter, e.2.2.isSome)) ++ tail) =
      (before.map fun e => (e.letter, e.2.2.isSome)) ++ relaxKey tail := by
  induction before with
  | nil => rfl
  | cons e before ih =>
    have hfirst := hbefore e List.mem_cons_self
    rw [List.map_cons, List.cons_append, relaxKey, if_neg fun h => hfirst h.1,
      ih fun e he => hbefore e (List.mem_cons_of_mem _ he), List.cons_append]

/-- Reading what was written gives the batch back. -/
theorem iterModeChanges_of_renders {text : Str} (htext : Renders true (l.map ModeChange.letter) text)
    (hpaired : ModeChange.Paired caps l) :
    iterModeChanges caps text (ModeChange.arguments l) = l := by
  have hcount := carried_length l
  rw [iterModeChanges, htext.modeLetters, hpaired.expected]
  rw [if_neg (by omega), takeArguments_carried]

/-- Where the one `-k` lost its argument, only that change reads differently. -/
theorem iterModeChanges_of_stripped {text : Str} {argument : Option Str}
    (htext : Renders true ((before ++ (false, 107, argument) :: after).map ModeChange.letter) text)
    (hpaired : ModeChange.Paired caps (before ++ (false, 107, argument) :: after))
    (hbefore : ∀ e ∈ before, e.letter ≠ (false, 107)) :
    iterModeChanges caps text (ModeChange.arguments before ++ ModeChange.arguments after) =
      before ++ (false, 107, none) :: after := by
  cases argument with
  | none =>
    have hargs : ModeChange.arguments before ++ ModeChange.arguments after =
        ModeChange.arguments (before ++ (false, 107, none) :: after) := by
      simp [ModeChange.arguments]
    rw [hargs]
    exact iterModeChanges_of_renders htext hpaired
  | some argument =>
    have hcount := carried_length (before ++ (false, 107, some argument) :: after)
    have hshort : (ModeChange.arguments (before ++ (false, 107, some argument) :: after)).length =
        (ModeChange.arguments before ++ ModeChange.arguments after).length + 1 := by
      simp [ModeChange.arguments]
      omega
    rw [iterModeChanges, htext.modeLetters, hpaired.expected]
    rw [if_pos (hcount.trans hshort), List.map_append, relaxKey_append hbefore, List.map_cons,
      relaxKey, if_pos ⟨rfl, rfl⟩, takeArguments_append]
    exact congrArg (before ++ (false, 107, none) :: ·) (takeArguments_carried after)

/-- A stretch of changes takes as many arguments as it should carry, while there are any. -/
theorem takeArguments_drop (l : List ModeChange) (tail : List ((Bool × CodePoint) × Bool))
    (rest : List Str) : ∃ head : List ModeChange,
      takeArguments ((l.map fun e => (e.letter, e.2.2.isSome)) ++ tail) rest =
        head ++ takeArguments tail (rest.drop (ModeChange.arguments l).length) ∧
      head.map ModeChange.letter = l.map ModeChange.letter := by
  induction l generalizing rest with
  | nil => exact ⟨[], rfl, rfl⟩
  | cons e l ih =>
    obtain ⟨adding, mode, argument⟩ := e
    cases argument with
    | none =>
      obtain ⟨head, hhead, hletters⟩ := ih rest
      exact ⟨(adding, mode, none) :: head, congrArg ((adding, mode, none) :: ·) hhead,
        congrArg ((adding, mode) :: ·) hletters⟩
    | some argument =>
      cases rest with
      | nil =>
        obtain ⟨head, hhead, hletters⟩ := ih []
        rw [List.drop_nil] at hhead ⊢
        exact ⟨(adding, mode, none) :: head, congrArg ((adding, mode, none) :: ·) hhead,
          congrArg ((adding, mode) :: ·) hletters⟩
      | cons first rest =>
        obtain ⟨head, hhead, hletters⟩ := ih rest
        exact ⟨(adding, mode, some first) :: head, congrArg ((adding, mode, some first) :: ·) hhead,
          congrArg ((adding, mode) :: ·) hletters⟩

theorem takeArguments_cons (change : Bool × CodePoint) (changes : List ((Bool × CodePoint) × Bool))
    (rest : List Str) : takeArguments ((change, true) :: changes) rest =
      (change.1, change.2, rest.head?) :: takeArguments changes rest.tail := by
  cases rest <;> rfl

/-- Where one argument is missing in front, a change takes the argument of the next. -/
theorem takeArguments_shifted (before after : List ModeChange) (adding : Bool) (mode : CodePoint)
    (argument : Str) : ∃ head tail : List ModeChange,
      takeArguments ((before ++ (adding, mode, some argument) :: after).map
          fun e => (e.letter, e.2.2.isSome))
        (ModeChange.arguments (before ++ (adding, mode, some argument) :: after)).tail =
        head ++ (adding, mode, (ModeChange.arguments after).head?) :: tail ∧
      tail.map ModeChange.letter = after.map ModeChange.letter := by
  obtain ⟨head, hhead, -⟩ := takeArguments_drop before
    (((adding, mode), true) :: after.map fun e => (e.letter, e.2.2.isSome))
    (ModeChange.arguments (before ++ (adding, mode, some argument) :: after)).tail
  obtain ⟨tail, htail, hletters⟩ := takeArguments_drop after [] (ModeChange.arguments after).tail
  have hdrop : (ModeChange.arguments (before ++ (adding, mode, some argument) :: after)).tail.drop
      (ModeChange.arguments before).length = ModeChange.arguments after := by
    simp [ModeChange.arguments]
  rw [hdrop, takeArguments_cons] at hhead
  simp only [List.append_nil, takeArguments] at htail
  refine ⟨head, tail, ?_, hletters⟩
  rw [List.map_append, List.map_cons, ← htail]
  exact hhead

/-- Where a `+k` lost its argument, it takes the next one, and so on. -/
theorem iterModeChanges_of_omitted {text : Str} {key : Str}
    (htext : Renders true ((before ++ (true, 107, some key) :: after).map ModeChange.letter) text)
    (hpaired : ModeChange.Paired caps (before ++ (true, 107, some key) :: after))
    (hadding : ∀ e ∈ before ++ (true, 107, some key) :: after, e.1 = true) :
    iterModeChanges caps text (ModeChange.arguments before ++ ModeChange.arguments after) =
      before ++ (true, 107, (ModeChange.arguments after).head?) ::
        takeArguments (after.map fun e => (e.letter, e.2.2.isSome))
          (ModeChange.arguments after).tail := by
  have hcount := carried_length (before ++ (true, 107, some key) :: after)
  have hshort : (ModeChange.arguments (before ++ (true, 107, some key) :: after)).length =
      (ModeChange.arguments before ++ ModeChange.arguments after).length + 1 := by
    simp [ModeChange.arguments]
    omega
  -- no change is a `-k`
  have hkept : relaxKey ((before ++ (true, 107, some key) :: after).map
      fun e => (e.letter, e.2.2.isSome)) =
      (before ++ (true, 107, some key) :: after).map fun e => (e.letter, e.2.2.isSome) := by
    have hsame := relaxKey_append
      (fun e (he : e ∈ before ++ (true, 107, some key) :: after) heq => Bool.noConfusion ((hadding e he).symm.trans (Prod.mk.inj heq).1)) []
    simpa [relaxKey] using hsame
  rw [iterModeChanges, htext.modeLetters, hpaired.expected, if_pos (hcount.trans hshort), hkept,
    List.map_append, List.map_cons, takeArguments_append]
  exact congrArg (before ++ ·) (takeArguments_cons _ _ _)

end Pairing

/-- A batch that is written with its arguments reads back as it is; without the argument of
its only `-k`, it reads back with `none` there and every other pairing intact. -/
theorem iterModeChanges_roundTrip (caps : ISupport) (l : List ModeChange) (text : Str)
    (htext : Renders true (l.map ModeChange.letter) text) (hpaired : ModeChange.Paired caps l) :
    iterModeChanges caps text (ModeChange.arguments l) = l ∧
    ∀ (before : List ModeChange) (argument : Option Str) (after : List ModeChange),
      l = before ++ (false, 107, argument) :: after →
      (∀ e ∈ before ++ after, ModeChange.letter e ≠ (false, 107)) →
      iterModeChanges caps text (ModeChange.arguments before ++ ModeChange.arguments after) =
        before ++ (false, 107, none) :: after := by
  refine ⟨iterModeChanges_of_renders htext hpaired, ?_⟩
  rintro before argument after rfl honly
  exact iterModeChanges_of_stripped htext hpaired fun e he => honly e (List.mem_append_left _ he)

/-- `++o-k+-+b` with the arguments `n`, `s` and `m`, and without `s` -/
theorem iterModeChanges_roundTrip_batch :
    iterModeChanges .initial (lit "++o-k+-+b") [lit "n", lit "s", lit "m"] =
      [(true, 111, some (lit "n")), (false, 107, some (lit "s")), (true, 98, some (lit "m"))] ∧
    iterModeChanges .initial (lit "++o-k+-+b") [lit "n", lit "m"] =
      [(true, 111, some (lit "n")), (false, 107, none), (true, 98, some (lit "m"))] := by
  have h := iterModeChanges_roundTrip .initial
    [(true, 111, some (lit "n")), (false, 107, some (lit "s")), (true, 98, some (lit "m"))]
    (lit "++o-k+-+b")
    (.plus (.plus (.letter (by decide) (by decide) (.minus (.letter (by decide) (by decide)
      (.plus (.minus (.plus (.letter (by decide) (by decide) .nil)))))))))
    (by decide)
  exact ⟨h.1, h.2 [(true, 111, some (lit "n"))] (some (lit "s")) [(true, 98, some (lit "m"))] rfl
    (by decide)⟩

end Botnats
