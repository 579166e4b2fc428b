import Botnats.ChannelManager

/-!
# The order of revisions

Revisions compare as strings. The counter has a fixed width that the greatest one does not
exceed, so the strings are ordered like the pairs of counter and suffix, and the floor of a
manager puts each revision it mints above the earlier ones.
-/
namespace Botnats

/-! ## Strings and pairs -/

/-- What follows the dash of a revision -/
def revisionSuffix (s : Str) : Str := ((partition 45 s).2).getD []

/-- The pair that a revision stands for, in lexicographic order -/
def revisionPair (s : Str) : ℕ ×ₗ Str := toLex (revisionCounter s, revisionSuffix s)

/-- A valid revision, taken apart. -/
theorem validRevision_split {r : Str} (h : validRevision r = true) :
    ∃ d, r = d ++ 45 :: revisionSuffix r ∧ d.length = 20 ∧ (∀ c ∈ d, digit c = true) ∧
      revisionCounter r = number d := by
  obtain ⟨d, u, rfl, hd, hdigits⟩ := channelRevision_split (Bool.and_eq_true_iff.mp h).1
  have hdash : (45 : CodePoint) ∉ d := by
    intro hmem
    have hdigit := hdigits 45 hmem
    rw [not_digit_dash] at hdigit
    cases hdigit
  refine ⟨d, ?_, hd, hdigits, ?_⟩
  · rw [revisionSuffix, partition_append hdash, Option.getD_some]
  · rw [revisionCounter, partition_append hdash]

theorem append_lt_append_iff (d u v : Str) : d ++ u < d ++ v ↔ u < v := by
  induction d with
  | nil => rfl
  | cons c d ih => simp [ih]

/-- Valid revisions of one counter are ordered by their suffixes. -/
theorem revision_lt_of_counter_eq {r r' : Str} (h : validRevision r = true)
    (h' : validRevision r' = true) (hcounter : revisionCounter r = revisionCounter r') :
    (r < r' ↔ revisionSuffix r < revisionSuffix r') ∧
      (r = r' ↔ revisionSuffix r = revisionSuffix r') := by
  obtain ⟨d, hr, hd, hdigits, hnumber⟩ := validRevision_split h
  obtain ⟨d', hr', hd', hdigits', hnumber'⟩ := validRevision_split h'
  obtain rfl : d = d' := number_injective (hd.trans hd'.symm) hdigits hdigits' (by
    rw [← hnumber, ← hnumber', hcounter])
  refine ⟨?_, ⟨fun heq => by rw [heq], fun hsuffix => by rw [hr, hr', hsuffix]⟩⟩
  have hlt := append_lt_append_iff d (45 :: revisionSuffix r) (45 :: revisionSuffix r')
  rw [← hr, ← hr'] at hlt
  simpa [List.cons_lt_cons_iff] using hlt

theorem revision_lt_iff {r r' : Str} (h : validRevision r = true) (h' : validRevision r' = true) :
    r < r' ↔ revisionPair r < revisionPair r' := by
  simp only [revisionPair, Prod.Lex.toLex_lt_toLex]
  rcases lt_trichotomy (revisionCounter r) (revisionCounter r') with hlt | heq | hgt
  · simp [revision_lt h h' hlt, hlt]
  · rw [(revision_lt_of_counter_eq h h' heq).1]
    simp [heq]
  · have hrev := revision_lt h' h hgt
    simp [hrev.not_gt, hgt.not_gt, hgt.ne']

theorem revision_eq_iff {r r' : Str} (h : validRevision r = true) (h' : validRevision r' = true) :
    r = r' ↔ revisionPair r = revisionPair r' := by
  constructor
  · exact congrArg revisionPair
  · intro hpair
    obtain ⟨hcounter, hsuffix⟩ := Prod.mk.inj (toLex.injective hpair)
    exact (revision_lt_of_counter_eq h h' hcounter).2.mpr hsuffix

/-! ## Statements that read a state or raise -/

section Raising

variable {ε σ α β : Type}

theorem run_get_bind (f : σ → ExceptT ε (StateM σ) β) (s : σ) :
    StateT.run (ExceptT.run (get >>= f)) s = StateT.run (ExceptT.run (f s)) s := rfl

theorem run_ok_bind (a : α) (f : α → ExceptT ε (StateM σ) β) (s : σ) :
    StateT.run (ExceptT.run (MonadExcept.ofExcept (.ok a) >>= f)) s =
      StateT.run (ExceptT.run (f a)) s := rfl

theorem run_error_bind (e : ε) (f : α → ExceptT ε (StateM σ) β) (s : σ) :
    StateT.run (ExceptT.run (MonadExcept.ofExcept (.error e : Except ε α) >>= f)) s =
      (.error e, s) := rfl

end Raising

/-! ## Calls of `new_record` -/

/-- A call with its arguments, and the `uuid4().hex` that it draws -/
structure NewRecord where
  channel : Str
  key : Option Str
  present : Bool
  after : Option Str
  suffix : Str
  hex : hexText 32 suffix = true

namespace NewRecord

/-- `new_record`, one statement after the other. What is assigned before an exception stays
assigned. -/
def call (c : NewRecord) : ExceptT Invalid (StateM ChannelManager) ChannelRecord := do
  let m ← get
  let record ← MonadExcept.ofExcept
    (ChannelRecord.new c.channel c.key c.present c.after m.lastRevision c.suffix)
  let number ← MonadExcept.ofExcept (revisionNumber record.revision)
  modify fun m => { m with lastRevision := number }
  return record

/-- The outcome of the call, and the manager after it -/
def run (c : NewRecord) (m : ChannelManager) : Except Invalid ChannelRecord × ChannelManager :=
  StateT.run (ExceptT.run c.call) m

/-- The channel and the key pass, and neither the floor nor `after` is the last counter. -/
structure Accepted (c : NewRecord) (m : ChannelManager) : Prop where
  join : validateJoin c.channel c.key = .ok ()
  floor : m.lastRevision < maxChannelRevision
  after : ∀ a, c.after = some a →
    validRevision a = true ∧ revisionCounter a < maxChannelRevision

variable {c : NewRecord} {m m' : ChannelManager} {r : ChannelRecord} {e : Invalid}

theorem run_of_new_error
    (h : ChannelRecord.new c.channel c.key c.present c.after m.lastRevision c.suffix = .error e) :
    c.run m = (.error e, m) := by
  rw [run, call, run_get_bind, h, run_error_bind]

/-- What `new` returns passes the check of `revision_number`. -/
theorem run_of_new_ok
    (h : ChannelRecord.new c.channel c.key c.present c.after m.lastRevision c.suffix = .ok r) :
    c.run m = (.ok r, { m with lastRevision := revisionCounter r.revision }) := by
  obtain ⟨-, -, -, hvalid, -⟩ := ChannelRecord.new_eq_ok c.hex h
  have hnumber : revisionNumber r.revision = .ok (revisionCounter r.revision) := by
    rw [revisionNumber, validateChannelRevision, if_pos hvalid.revision]
    rfl
  rw [run, call, run_get_bind, h, run_ok_bind, hnumber, run_ok_bind]
  rfl

/-- The call is `ChannelManager.newRecord`, and an exception keeps the manager. -/
theorem run_eq_ok : c.run m = (.ok r, m') ↔
    m.newRecord c.channel c.key c.present c.after c.suffix = .ok (m', r) := by
  unfold ChannelManager.newRecord
  cases hnew : ChannelRecord.new c.channel c.key c.present c.after m.lastRevision c.suffix with
  | error e =>
    rw [run_of_new_error hnew]
    simp [Except.map]
  | ok record =>
    rw [run_of_new_ok hnew]
    simp [Except.map, and_comm]

theorem run_cases (c : NewRecord) (m : ChannelManager) :
    (∃ e, c.run m = (.error e, m)) ∨
    ∃ r, c.run m = (.ok r, { m with lastRevision := revisionCounter r.revision }) ∧
      validRevision r.revision = true ∧ m.lastRevision < revisionCounter r.revision ∧
      ∀ a, c.after = some a → a < r.revision := by
  cases hnew : ChannelRecord.new c.channel c.key c.present c.after m.lastRevision c.suffix with
  | error e => exact .inl ⟨e, run_of_new_error hnew⟩
  | ok r =>
    obtain ⟨-, -, -, hvalid, hfloor, hafter⟩ := ChannelRecord.new_eq_ok c.hex hnew
    exact .inr ⟨r, run_of_new_ok hnew, hvalid.revision, hfloor, hafter⟩

/-- A call raises where it does not accept its arguments, and nowhere else. -/
theorem run_error_iff (c : NewRecord) (m : ChannelManager) :
    (∃ e, (c.run m).1 = .error e) ↔ ¬ c.Accepted m := by
  have hok : c.Accepted m ↔ ∃ r,
      ChannelRecord.new c.channel c.key c.present c.after m.lastRevision c.suffix = .ok r := by
    constructor
    · intro h
      obtain ⟨previous, hprevious, hlt⟩ : ∃ previous,
          ChannelRecord.previousCounter m.lastRevision c.after = .ok previous ∧
            previous < maxChannelRevision := by
        cases hafter : c.after with
        | none => exact ⟨_, rfl, h.floor⟩
        | some a =>
          obtain ⟨hvalid, hlt⟩ := h.after a hafter
          refine ⟨max m.lastRevision (revisionCounter a), ?_, max_lt h.floor hlt⟩
          rw [ChannelRecord.previousCounter, revisionNumber, validateChannelRevision,
            if_pos hvalid]
          rfl
      refine ⟨⟨c.channel, c.key, c.present, mintRevision (previous + 1) c.suffix⟩, ?_⟩
      simp only [ChannelRecord.new, hprevious, h.join]
      rw [if_neg (by omega)]
    · rintro ⟨r, hr⟩
      unfold ChannelRecord.new at hr
      split at hr
      · cases hr
      · rename_i previous hprevious
        obtain ⟨hfloor, hafter⟩ := ChannelRecord.previousCounter_eq_ok hprevious
        split_ifs at hr with hmax
        split at hr
        · cases hr
        · rename_i hjoin
          refine ⟨hjoin, by omega, fun a ha => ?_⟩
          obtain ⟨hvalid, hle⟩ := hafter a ha
          exact ⟨hvalid, by omega⟩
  rw [hok]
  cases hnew : ChannelRecord.new c.channel c.key c.present c.after m.lastRevision c.suffix with
  | error e => simp [run_of_new_error hnew]
  | ok r => simp [run_of_new_ok hnew]

/-- Nothing follows the greatest counter. -/
example : (run ⟨lit "#a", none, true, some (mintRevision maxChannelRevision (List.replicate 32 97)),
    List.replicate 32 98, by decide⟩ .init).1 =
      .error (.value "channel revision counter is exhausted") := by
  decide +kernel

/-- Calls of one manager, with their outcomes in order -/
def runAll (m : ChannelManager) (cs : List NewRecord) :
    List (Except Invalid ChannelRecord) × ChannelManager :=
  cs.foldl (fun s c => (s.1 ++ [(c.run s.2).1], (c.run s.2).2)) ([], m)

theorem runAll_concat (m : ChannelManager) (cs : List NewRecord) (c : NewRecord) :
    runAll m (cs ++ [c]) = ((runAll m cs).1 ++ [(c.run (runAll m cs).2).1],
      (c.run (runAll m cs).2).2) := by
  rw [runAll, List.foldl_append]
  rfl

/-- The floor is at least the counter of every revision that was returned. -/
theorem runAll_floor (m : ChannelManager) (cs : List NewRecord) :
    ∀ r, .ok r ∈ (runAll m cs).1 → validRevision r.revision = true ∧
      revisionCounter r.revision ≤ (runAll m cs).2.lastRevision := by
  induction cs using List.reverseRecOn with
  | nil => simp [runAll]
  | append_singleton cs c ih =>
    intro r hr
    rw [runAll_concat, List.mem_append, List.mem_singleton] at hr
    rw [runAll_concat]
    rcases run_cases c (runAll m cs).2 with ⟨e, he⟩ | ⟨r', hr', hvalid, hfloor, -⟩
    · rw [he] at hr ⊢
      rcases hr with hr | hr
      · exact ih r hr
      · cases hr
    · rw [hr'] at hr ⊢
      rcases hr with hr | hr
      · obtain ⟨hearlier, hle⟩ := ih r hr
        exact ⟨hearlier, hle.trans hfloor.le⟩
      · obtain rfl := Except.ok.inj hr
        exact ⟨hvalid, le_rfl⟩

theorem revisions_ordered :
    (∀ r r', validRevision r = true → validRevision r' = true →
      (r < r' ↔ revisionPair r < revisionPair r') ∧ (r = r' ↔ revisionPair r = revisionPair r')) ∧
    ∀ (m : ChannelManager) (earlier : List NewRecord) (c : NewRecord),
      (∀ r, (c.run (runAll m earlier).2).1 = .ok r → validRevision r.revision = true ∧
        (∀ after, c.after = some after → after < r.revision) ∧
        ∀ r', .ok r' ∈ (runAll m earlier).1 → r'.revision < r.revision) ∧
      (∀ e, (c.run (runAll m earlier).2).1 = .error e →
        (c.run (runAll m earlier).2).2.lastRevision = (runAll m earlier).2.lastRevision) ∧
      ((∃ e, (c.run (runAll m earlier).2).1 = .error e) ↔ ¬ c.Accepted (runAll m earlier).2) := by
  refine ⟨fun r r' h h' => ⟨revision_lt_iff h h', revision_eq_iff h h'⟩, fun m earlier c => ?_⟩
  have hraised := run_error_iff c (runAll m earlier).2
  rcases run_cases c (runAll m earlier).2 with ⟨e, he⟩ | ⟨r, hr, hvalid, hfloor, hafter⟩
  · rw [he] at hraised ⊢
    refine ⟨fun r hr => ?_, fun _ _ => rfl, hraised⟩
    cases hr
  · rw [hr] at hraised ⊢
    refine ⟨fun r' hr' => ?_, fun e he => ?_, hraised⟩
    · obtain rfl := Except.ok.inj hr'
      refine ⟨hvalid, hafter, fun r' hr' => ?_⟩
      obtain ⟨hearlier, hle⟩ := runAll_floor m earlier r' hr'
      exact revision_lt hearlier hvalid (hle.trans_lt hfloor)
    · cases he

/-- A record of `#a` after a revision -/
def sample (after : Option Str) : NewRecord :=
  ⟨lit "#a", none, true, after, List.replicate 32 97, by decide⟩

/-- The floor passes `after`, and the next revision both. -/
theorem revisions_ordered_sample :
    let after := mintRevision 7 (List.replicate 32 102)
    ∃ r r', (runAll .init [sample (some after)]).1 = [.ok r] ∧
      ((sample none).run (runAll .init [sample (some after)]).2).1 = .ok r' ∧
      after < r.revision ∧ r.revision < r'.revision := by
  intro after
  have hfirst : ((sample (some after)).run ChannelManager.init).1 =
      .ok ⟨lit "#a", none, true, mintRevision 8 (List.replicate 32 97)⟩ := by decide +kernel
  have hsecond : ((sample none).run (runAll .init [sample (some after)]).2).1 =
      .ok ⟨lit "#a", none, true, mintRevision 9 (List.replicate 32 97)⟩ := by decide +kernel
  have hall : (runAll .init [sample (some after)]).1 =
      [.ok ⟨lit "#a", none, true, mintRevision 8 (List.replicate 32 97)⟩] := by
    rw [← hfirst]
    rfl
  obtain ⟨-, hordered⟩ := revisions_ordered
  obtain ⟨-, hafter, -⟩ := (hordered .init [] (sample (some after))).1 _ hfirst
  obtain ⟨-, -, hearlier⟩ := (hordered .init [sample (some after)] (sample none)).1 _ hsecond
  refine ⟨_, _, hall, hsecond, hafter after rfl, hearlier _ ?_⟩
  rw [hall]
  exact List.mem_singleton_self _

end NewRecord

end Botnats
