import Botnats.Machine
import Botnats.Text

/-!
# Discovery of the bot's own identity

A bot learns the user and the host under which it is seen only after it has registered.
`SelfIdentity.discover` asks for them until they are known and gives the connection up if they
never are. A task of it outlives its connection and may wake on a later one, and the identity
may be learned on the way from other messages.
-/
namespace Botnats

/-- `IDENTITY_RETRY_ATTEMPTS` -/
def identityRetryAttempts : ℕ := 5

/-- `IDENTITY_RETRY_DELAY` -/
def identityRetryDelay : ℚ := 5

/-- The registration state of `SelfIdentity`; of `current` the prefix is what matters here. -/
structure SelfIdentity where
  current : Option Prefix
  generation : ℕ
  registered : Bool

namespace SelfIdentity

/-- `reset` -/
def reset (s : SelfIdentity) : SelfIdentity := ⟨none, s.generation + 1, false⟩

/-- `on_registered` -/
def onRegistered (s : SelfIdentity) : SelfIdentity := { s.reset with registered := true }

/-- `set`; an incomplete prefix is no identity. -/
def set (s : SelfIdentity) (p : Prefix) : SelfIdentity :=
  if p.complete then { s with current := some p } else s

end SelfIdentity

/-- A call of `discover` that sleeps until `wakes`, after it has sent `sent` queries. -/
structure DiscoverTask where
  generation : ℕ
  sent : ℕ
  wakes : ℚ

/-- Something that happened in a generation, on a connection, at a time. -/
structure Occasion where
  generation : ℕ
  connection : ℕ
  time : ℚ
  deriving DecidableEq

/-- The identity, the connection, which lasts as long as `run_connection` runs and takes lines
as long as its writer is open, and the calls of `discover`. The lists are kept for the
statements, newest first. -/
structure Discovery where
  identity : SelfIdentity
  connection : ℕ
  running : Bool
  writable : Bool
  now : ℚ
  tasks : List DiscoverTask
  registrations : List Occasion
  queries : List Occasion
  learned : List Occasion
  refusals : List Occasion
  closings : List Occasion

/-- `fail` closes the writer for another reason than discovery, `lost` ends the connection.
`wake` lets a call go on; `sends` tells whether the queue takes its line. -/
inductive DiscoveryStep
  | establish
  | welcome
  | learn (p : Prefix)
  | fail
  | lost
  | wake (n : ℕ) (sends : Bool)
  | pass (time : ℚ)

namespace Discovery

def init : Discovery := ⟨⟨none, 0, false⟩, 0, false, false, 0, [], [], [], [], [], []⟩

/-- Now, in the present generation and on the present connection -/
def mark (w : Discovery) : Occasion := ⟨w.identity.generation, w.connection, w.now⟩

/-- A call of `discover` from the end of a sleep to the next, or to its end -/
def discover (w : Discovery) (n : ℕ) (task : DiscoverTask) (sends : Bool) : Discovery :=
  let ended := { w with tasks := w.tasks.eraseIdx n }
  let wanted := task.generation = w.identity.generation ∧ w.identity.current = none
  if task.sent < identityRetryAttempts then
    if wanted then
      if w.writable then
        if sends then
          { w with
            tasks := w.tasks.eraseIdx n ++ [{ task with
              sent := task.sent + 1
              wakes := w.now + identityRetryDelay }]
            queries := w.mark :: w.queries }
        else { ended with refusals := w.mark :: w.refusals }
      else ended
    else ended
  else if wanted then { ended with writable := false, closings := w.mark :: w.closings }
  else ended

def step (w : Discovery) : DiscoveryStep → Option Discovery
  | .establish =>
    if w.running then none
    else some { w with connection := w.connection + 1, running := true, writable := true }
  | .welcome =>
    if w.running then
      let registered := { w with identity := w.identity.onRegistered }
      some { registered with
        tasks := w.tasks ++ [⟨registered.identity.generation, 0, w.now⟩]
        registrations := registered.mark :: w.registrations }
    else none
  | .learn p =>
    if w.running then
      some { w with
        identity := w.identity.set p
        learned := if p.complete then w.mark :: w.learned else w.learned }
    else none
  | .fail => some { w with writable := false }
  | .lost =>
    if w.running then
      some { w with identity := w.identity.reset, running := false, writable := false }
    else none
  | .wake n sends =>
    match w.tasks[n]? with
    | none => none
    | some task => if task.wakes ≤ w.now then some (w.discover n task sends) else none
  | .pass time => if w.now ≤ time then some { w with now := time } else none

/-! ## What the calls leave true -/

/-- The registration that a call, a query or a closing belongs to -/
def Since (w : Discovery) (generation : ℕ) (r : Occasion) : Prop :=
  r ∈ w.registrations ∧ r.generation = generation

/-- The queries of a generation -/
def asked (w : Discovery) (generation : ℕ) : List Occasion :=
  w.queries.filter fun q => q.generation = generation

/-- A call has asked as often as it counts, a delay apart since its registration. -/
structure Paced (w : Discovery) (task : DiscoverTask) : Prop where
  since : ∃ r, w.Since task.generation r ∧ r.time + task.sent * identityRetryDelay ≤ task.wakes
  asked : (w.asked task.generation).length = task.sent
  sent : task.sent ≤ identityRetryAttempts
  later : ∀ q ∈ w.asked task.generation, q.time + identityRetryDelay ≤ task.wakes
  soon : task.wakes ≤ w.now + identityRetryDelay

/-- A closing comes after all queries of its registration, on the connection of it, and before
anything was learned. -/
structure Earned (w : Discovery) (c : Occasion) : Prop where
  since : ∃ r, w.Since c.generation r ∧ r.connection = c.connection ∧
    r.time + identityRetryAttempts * identityRetryDelay ≤ c.time
  asked : (w.asked c.generation).length = identityRetryAttempts
  unknown : ∀ l ∈ w.learned, l.generation = c.generation → c.time ≤ l.time

structure Inv (w : Discovery) : Prop where
  home : ∀ r, w.Since w.identity.generation r →
    w.identity.registered = true ∧ r.connection = w.connection
  registered : w.identity.registered = true → w.running = true ∧ ∃ r, w.Since w.identity.generation r
  past : ∀ r ∈ w.registrations, r.generation ≤ w.identity.generation
  paced : ∀ task ∈ w.tasks, w.Paced task
  apart : (w.tasks.map DiscoverTask.generation).Nodup
  queries : ∀ q ∈ w.queries, ∃ r, w.Since q.generation r ∧ r.connection = q.connection
  spaced : w.queries.Pairwise fun later earlier => later.generation = earlier.generation →
    earlier.time + identityRetryDelay ≤ later.time
  learned : ∀ l ∈ w.learned, l.generation ≤ w.identity.generation ∧
    (l.generation = w.identity.generation → w.identity.current ≠ none)
  closings : ∀ c ∈ w.closings, w.Earned c ∧ c.time ≤ w.now ∧
    ∀ task ∈ w.tasks, task.generation ≠ c.generation
  unknown : w.identity.registered = true → w.writable = true → w.identity.current = none →
    (∃ task ∈ w.tasks, task.generation = w.identity.generation) ∨
      ∃ f ∈ w.refusals, f.generation = w.identity.generation

variable {w w' : Discovery} {task : DiscoverTask} {c : Occasion}

theorem Paced.mono (h : w.Paced task) (hreg : ∀ r ∈ w.registrations, r ∈ w'.registrations)
    (hasked : w'.asked task.generation = w.asked task.generation) (hnow : w.now ≤ w'.now) :
    w'.Paced task where
  since := by
    obtain ⟨r, ⟨hr, hgen⟩, htime⟩ := h.since
    exact ⟨r, ⟨hreg r hr, hgen⟩, htime⟩
  asked := by rw [hasked, h.asked]
  sent := h.sent
  later := by
    rw [hasked]
    exact h.later
  soon := h.soon.trans (by gcongr)

theorem Earned.mono (h : w.Earned c) (hreg : ∀ r ∈ w.registrations, r ∈ w'.registrations)
    (hasked : w'.asked c.generation = w.asked c.generation)
    (hlearned : ∀ l ∈ w'.learned, l ∈ w.learned ∨ c.time ≤ l.time) : w'.Earned c where
  since := by
    obtain ⟨r, ⟨hr, hgen⟩, hrest⟩ := h.since
    exact ⟨r, ⟨hreg r hr, hgen⟩, hrest⟩
  asked := by rw [hasked, h.asked]
  unknown := by
    intro l hl hgen
    rcases hlearned l hl with hl | htime
    · exact h.unknown l hl hgen
    · exact htime

theorem inv_init : init.Inv where
  home := fun r hr => absurd hr.1 List.not_mem_nil
  registered := fun h => by simp [init] at h
  past := by simp [init]
  paced := by simp [init]
  apart := by simp [init]
  queries := by simp [init]
  spaced := by simp [init]
  learned := by simp [init]
  closings := by simp [init]
  unknown := fun h => by simp [init] at h

/-- The connection or its writer changes while the bot is not registered, or the writer is
closed. -/
theorem Inv.connection (hi : w.Inv) {connection : ℕ} {running writable : Bool}
    (h : w.identity.registered = false ∨
      connection = w.connection ∧ running = w.running ∧ writable = false) :
    Inv { w with connection := connection, running := running, writable := writable } := by
  refine { hi with home := ?_, registered := ?_, paced := ?_, closings := ?_, unknown := ?_ }
  · intro r hr
    obtain ⟨hregistered, hconnection⟩ := hi.home r hr
    rcases h with h | ⟨rfl, -, -⟩
    · exact absurd (hregistered.symm.trans h) (by decide)
    · exact ⟨hregistered, hconnection⟩
  · intro hregistered
    rcases h with h | ⟨-, rfl, -⟩
    · exact absurd (hregistered.symm.trans h) (by decide)
    · exact hi.registered hregistered
  · exact fun task htask => (hi.paced task htask).mono (fun _ hr => hr) rfl (le_refl _)
  · intro c hc
    obtain ⟨hearned, hrest⟩ := hi.closings c hc
    exact ⟨hearned.mono (fun _ hr => hr) rfl fun _ hl => .inl hl, hrest⟩
  · intro hregistered hwritable
    rcases h with h | ⟨-, -, rfl⟩
    · exact absurd (hregistered.symm.trans h) (by decide)
    · simp at hwritable

/-- The generation has no query, no call and no registration yet. -/
theorem Inv.asked_next (hi : w.Inv) : w.asked (w.identity.generation + 1) = [] := by
  rw [asked, List.filter_eq_nil_iff]
  intro q hq
  obtain ⟨r, ⟨hr, hgen⟩, -⟩ := hi.queries q hq
  have hpast := hi.past r hr
  simp only [decide_eq_true_eq]
  omega

theorem Inv.task_past (hi : w.Inv) (htask : task ∈ w.tasks) :
    task.generation ≤ w.identity.generation := by
  obtain ⟨r, ⟨hr, hgen⟩, -⟩ := (hi.paced task htask).since
  rw [← hgen]
  exact hi.past r hr

theorem Inv.lost (hi : w.Inv) :
    Inv { w with identity := w.identity.reset, running := false, writable := false } where
  home := by
    rintro r ⟨hr, hgen⟩
    have hpast := hi.past r hr
    simp only [SelfIdentity.reset] at hgen
    omega
  registered := fun h => by simp [SelfIdentity.reset] at h
  past := fun r hr => (hi.past r hr).trans (Nat.le_succ _)
  paced := fun task htask => (hi.paced task htask).mono (fun _ hr => hr) rfl (le_refl _)
  apart := hi.apart
  queries := hi.queries
  spaced := hi.spaced
  learned := by
    intro l hl
    have hpast := (hi.learned l hl).1
    refine ⟨hpast.trans (Nat.le_succ _), fun hgen => ?_⟩
    simp only [SelfIdentity.reset] at hgen
    omega
  closings := by
    intro c hc
    obtain ⟨hearned, hrest⟩ := hi.closings c hc
    exact ⟨hearned.mono (fun _ hr => hr) rfl fun _ hl => .inl hl, hrest⟩
  unknown := fun h => by simp [SelfIdentity.reset] at h

theorem Inv.welcome (hi : w.Inv) (hrunning : w.running = true) :
    Inv { w with
      identity := w.identity.onRegistered
      tasks := w.tasks ++ [⟨w.identity.generation + 1, 0, w.now⟩]
      registrations := ⟨w.identity.generation + 1, w.connection, w.now⟩ :: w.registrations } where
  home := by
    rintro r ⟨hr, hgen⟩
    rcases List.mem_cons.mp hr with rfl | hr
    · exact ⟨rfl, rfl⟩
    · have hpast := hi.past r hr
      simp only [SelfIdentity.onRegistered, SelfIdentity.reset] at hgen
      omega
  registered := fun _ => ⟨hrunning, _, List.mem_cons_self, rfl⟩
  past := by
    intro r hr
    rcases List.mem_cons.mp hr with rfl | hr
    · exact le_refl _
    · exact (hi.past r hr).trans (Nat.le_succ _)
  paced := by
    intro task htask
    rcases List.mem_append.mp htask with htask | htask
    · exact (hi.paced task htask).mono (fun _ hr => List.mem_cons_of_mem _ hr) rfl (le_refl _)
    · obtain rfl := List.mem_singleton.mp htask
      have hnone := hi.asked_next
      refine ⟨⟨_, ⟨List.mem_cons_self, rfl⟩, by simp⟩, ?_, Nat.zero_le _, ?_, ?_⟩
      · exact congrArg List.length hnone
      · intro q hq
        exact absurd (hnone ▸ hq) List.not_mem_nil
      · simp [identityRetryDelay]
  apart := by
    rw [List.map_append, List.nodup_append]
    refine ⟨hi.apart, by simp, ?_⟩
    intro generation hmem other hother
    obtain ⟨task, htask, rfl⟩ := List.mem_map.mp hmem
    obtain rfl : other = w.identity.generation + 1 := by simpa using hother
    have hpast := hi.task_past htask
    omega
  queries := by
    intro q hq
    obtain ⟨r, ⟨hr, hgen⟩, hconnection⟩ := hi.queries q hq
    exact ⟨r, ⟨List.mem_cons_of_mem _ hr, hgen⟩, hconnection⟩
  spaced := hi.spaced
  learned := by
    intro l hl
    have hpast := (hi.learned l hl).1
    refine ⟨hpast.trans (Nat.le_succ _), fun hgen => ?_⟩
    simp only [SelfIdentity.onRegistered, SelfIdentity.reset] at hgen
    omega
  closings := by
    intro c hc
    obtain ⟨hearned, hpast, htasks⟩ := hi.closings c hc
    refine ⟨hearned.mono (fun _ hr => List.mem_cons_of_mem _ hr) rfl fun _ hl => .inl hl, hpast, ?_⟩
    intro task htask
    rcases List.mem_append.mp htask with htask | htask
    · exact htasks task htask
    · obtain rfl := List.mem_singleton.mp htask
      obtain ⟨r, ⟨hr, hgen⟩, -⟩ := hearned.since
      have hbefore := hi.past r hr
      simp only
      omega
  unknown := fun _ _ _ => .inl ⟨_, List.mem_append_right _ (List.mem_singleton.mpr rfl), rfl⟩

theorem Inv.learn (hi : w.Inv) (p : Prefix) :
    Inv { w with
      identity := w.identity.set p
      learned := if p.complete then w.mark :: w.learned else w.learned } := by
  by_cases hp : p.complete = true
  · simp only [SelfIdentity.set, hp, if_true]
    refine { hi with paced := ?_, learned := ?_, closings := ?_, unknown := ?_ }
    · exact fun task htask => (hi.paced task htask).mono (fun _ hr => hr) rfl (le_refl _)
    · intro l hl
      rcases List.mem_cons.mp hl with rfl | hl
      · exact ⟨le_refl _, by simp⟩
      · exact ⟨(hi.learned l hl).1, by simp⟩
    · intro c hc
      obtain ⟨hearned, hpast, htasks⟩ := hi.closings c hc
      refine ⟨hearned.mono (fun _ hr => hr) rfl ?_, hpast, htasks⟩
      intro l hl
      rcases List.mem_cons.mp hl with rfl | hl
      · exact .inr hpast
      · exact .inl hl
    · intro _ _ hnone
      simp at hnone
  · simpa [SelfIdentity.set, hp] using hi

theorem Inv.pass (hi : w.Inv) {time : ℚ} (h : w.now ≤ time) : Inv { w with now := time } := by
  refine { hi with paced := ?_, closings := ?_ }
  · exact fun task htask => (hi.paced task htask).mono (fun _ hr => hr) rfl h
  · intro c hc
    obtain ⟨hearned, hpast, htasks⟩ := hi.closings c hc
    exact ⟨hearned.mono (fun _ hr => hr) rfl fun _ hl => .inl hl, hpast.trans h, htasks⟩

/-- A call ends; where the identity is still wanted, the writer is closed or a line refused. -/
theorem Inv.ended (hi : w.Inv) {n : ℕ} (hn : w.tasks[n]? = some task) {writable : Bool}
    {refusals : List Occasion} (hwritable : writable = true → w.writable = true)
    (hrefusals : ∀ f ∈ w.refusals, f ∈ refusals)
    (h : task.generation = w.identity.generation → w.identity.current = none →
      writable = false ∨ ∃ f ∈ refusals, f.generation = w.identity.generation) :
    Inv { w with tasks := w.tasks.eraseIdx n, writable := writable, refusals := refusals } := by
  have hsub : ∀ other ∈ w.tasks.eraseIdx n, other ∈ w.tasks := fun _ => List.mem_of_mem_eraseIdx
  refine { hi with paced := ?_, apart := ?_, closings := ?_, unknown := ?_ }
  · exact fun other hother => (hi.paced other (hsub other hother)).mono (fun _ hr => hr) rfl (le_refl _)
  · exact hi.apart.sublist ((List.eraseIdx_sublist _ _).map _)
  · intro c hc
    obtain ⟨hearned, hpast, htasks⟩ := hi.closings c hc
    exact ⟨hearned.mono (fun _ hr => hr) rfl fun _ hl => .inl hl, hpast,
      fun other hother => htasks other (hsub other hother)⟩
  · intro hregistered hopen hnone
    by_cases hsame : task.generation = w.identity.generation
    · rcases h hsame hnone with hclosed | hrefused
      · exact absurd (hclosed.symm.trans hopen) (by decide)
      · exact .inr hrefused
    · rcases hi.unknown hregistered (hwritable hopen) hnone with ⟨other, hother, hgen⟩ | ⟨f, hf, hgen⟩
      · obtain ⟨i, hi⟩ := List.mem_iff_getElem?.mp hother
        refine .inl ⟨other, List.mem_eraseIdx_iff_getElem?.mpr ⟨i, ?_, hi⟩, hgen⟩
        rintro rfl
        obtain rfl : task = other := Option.some.inj (hn.symm.trans hi)
        exact hsame hgen
      · exact .inr ⟨f, hrefusals f hf, hgen⟩

/-- A call belongs to the present registration, and nothing of another call does. -/
theorem Inv.current (hi : w.Inv) (htask : task ∈ w.tasks)
    (hsame : task.generation = w.identity.generation) :
    w.identity.registered = true ∧ ∃ r, w.Since w.identity.generation r ∧
      r.connection = w.connection ∧ r.time + task.sent * identityRetryDelay ≤ task.wakes := by
  obtain ⟨r, hr, htime⟩ := (hi.paced task htask).since
  rw [hsame] at hr
  obtain ⟨hregistered, hconnection⟩ := hi.home r hr
  exact ⟨hregistered, r, hr, hconnection, htime⟩

theorem Inv.other {n : ℕ} (hi : w.Inv) (hn : w.tasks[n]? = some task) {other : DiscoverTask}
    (hother : other ∈ w.tasks.eraseIdx n) : other.generation ≠ task.generation := by
  intro hgen
  have hmap : ∀ {j : ℕ} {t : DiscoverTask}, w.tasks[j]? = some t →
      (w.tasks.map DiscoverTask.generation)[j]? = some t.generation := by
    intro j t hj
    rw [List.getElem?_map, hj, Option.map_some]
  obtain ⟨i, hne, hi'⟩ := List.mem_eraseIdx_iff_getElem?.mp hother
  have hlength := (List.getElem?_eq_some_iff.mp (hmap hi')).1
  refine hne ((List.getElem?_inj hlength hi.apart).mp ?_)
  rw [hmap hi', hmap hn, hgen]

theorem Inv.asks (hi : w.Inv) {n : ℕ} (hn : w.tasks[n]? = some task)
    (hwakes : task.wakes ≤ w.now) (hsent : task.sent < identityRetryAttempts)
    (hsame : task.generation = w.identity.generation) :
    Inv { w with
      tasks := w.tasks.eraseIdx n ++ [{ task with
        sent := task.sent + 1
        wakes := w.now + identityRetryDelay }]
      queries := w.mark :: w.queries } := by
  have htask : task ∈ w.tasks := List.mem_of_getElem? hn
  have hpaced := hi.paced task htask
  obtain ⟨-, r, hr, hconnection, htime⟩ := hi.current htask hsame
  have hasked : ∀ generation, generation ≠ w.identity.generation →
      asked { w with queries := w.mark :: w.queries } generation = w.asked generation := by
    intro generation hne
    exact List.filter_cons_of_neg (decide_eq_false (Ne.symm hne) ▸ Bool.false_ne_true)
  have hown : asked { w with queries := w.mark :: w.queries } task.generation =
      w.mark :: w.asked task.generation :=
    List.filter_cons_of_pos (decide_eq_true hsame.symm)
  have hrest : ∀ other ∈ w.tasks.eraseIdx n, other ∈ w.tasks ∧ other.generation ≠ task.generation :=
    fun other hother => ⟨List.mem_of_mem_eraseIdx hother, hi.other hn hother⟩
  refine { hi with
    paced := ?_, apart := ?_, queries := ?_, spaced := ?_, closings := ?_, unknown := ?_ }
  · intro other hother
    rcases List.mem_append.mp hother with hother | hother
    · obtain ⟨hmem, hne⟩ := hrest other hother
      exact (hi.paced other hmem).mono (fun _ hr => hr) (hasked _ (hsame ▸ hne)) (le_refl _)
    · obtain rfl := List.mem_singleton.mp hother
      refine ⟨⟨r, ⟨hr.1, hr.2.trans hsame.symm⟩, ?_⟩, ?_, hsent, ?_, le_refl _⟩
      · push_cast
        linarith
      · exact (congrArg List.length hown).trans (congrArg (· + 1) hpaced.asked)
      · intro q hq
        rcases List.mem_cons.mp (hown ▸ hq) with rfl | hq
        · exact le_refl _
        · have hlater := hpaced.later q hq
          simp only [identityRetryDelay] at hlater ⊢
          linarith
  · rw [List.map_append, List.nodup_append]
    refine ⟨hi.apart.sublist ((List.eraseIdx_sublist _ _).map _), by simp, ?_⟩
    intro generation hmem other hother
    obtain ⟨t, ht, rfl⟩ := List.mem_map.mp hmem
    obtain rfl : other = task.generation := by simpa using hother
    exact (hrest t ht).2
  · intro q hq
    rcases List.mem_cons.mp hq with rfl | hq
    · exact ⟨r, hr, hconnection⟩
    · exact hi.queries q hq
  · refine List.pairwise_cons.mpr ⟨?_, hi.spaced⟩
    intro q hq hgen
    have hmem : q ∈ w.asked task.generation :=
      List.mem_filter.mpr ⟨hq, decide_eq_true (hgen.symm.trans hsame.symm)⟩
    exact (hpaced.later q hmem).trans hwakes
  · intro c hc
    obtain ⟨hearned, hpast, htasks⟩ := hi.closings c hc
    have hne : c.generation ≠ w.identity.generation := fun h => htasks task htask (hsame.trans h.symm)
    refine ⟨hearned.mono (fun _ hr => hr) (hasked _ hne) fun _ hl => .inl hl, hpast, ?_⟩
    intro other hother
    rcases List.mem_append.mp hother with hother | hother
    · exact htasks other (hrest other hother).1
    · obtain rfl := List.mem_singleton.mp hother
      exact htasks task htask
  · exact fun _ _ _ => .inl ⟨_, List.mem_append_right _ (List.mem_singleton.mpr rfl), hsame⟩

theorem Inv.closes (hi : w.Inv) {n : ℕ} (hn : w.tasks[n]? = some task)
    (hwakes : task.wakes ≤ w.now) (hsent : ¬ task.sent < identityRetryAttempts)
    (hsame : task.generation = w.identity.generation) (hnone : w.identity.current = none) :
    Inv { w with
      tasks := w.tasks.eraseIdx n
      writable := false
      closings := w.mark :: w.closings } := by
  have htask : task ∈ w.tasks := List.mem_of_getElem? hn
  have hpaced := hi.paced task htask
  obtain ⟨-, r, hr, hconnection, htime⟩ := hi.current htask hsame
  have hall : task.sent = identityRetryAttempts := le_antisymm hpaced.sent (not_lt.mp hsent)
  have hended : Inv { w with tasks := w.tasks.eraseIdx n, writable := false } :=
    hi.ended hn (by simp) (fun _ hf => hf) fun _ _ => .inl rfl
  refine { hended with paced := ?_, closings := ?_ }
  · intro other hother
    exact (hended.paced other hother).mono (fun _ hr => hr) rfl (le_refl _)
  · intro c hc
    rcases List.mem_cons.mp hc with rfl | hc
    · refine ⟨⟨⟨r, hr, hconnection, ?_⟩, ?_, ?_⟩, le_refl _, ?_⟩
      · rw [hall] at htime
        exact htime.trans hwakes
      · rw [← hall, ← hpaced.asked]
        exact congrArg (fun generation => (w.asked generation).length) hsame.symm
      · intro l hl hgen
        exact absurd hnone ((hi.learned l hl).2 hgen)
      · intro other hother hgen
        exact hi.other hn hother (hgen.trans hsame.symm)
    · obtain ⟨hearned, hrest⟩ := hended.closings c hc
      exact ⟨hearned.mono (fun _ hr => hr) rfl fun _ hl => .inl hl, hrest⟩

theorem Inv.discover (hi : w.Inv) {n : ℕ} (hn : w.tasks[n]? = some task)
    (hwakes : task.wakes ≤ w.now) (sends : Bool) : (w.discover n task sends).Inv := by
  unfold Discovery.discover
  dsimp only
  split_ifs with hsent hwanted hopen hsends hwanted
  · exact hi.asks hn hwakes hsent hwanted.1
  · exact hi.ended hn id (fun _ hf => List.mem_cons_of_mem _ hf)
      fun _ _ => .inr ⟨_, List.mem_cons_self, rfl⟩
  · exact hi.ended hn id (fun _ hf => hf) fun _ _ => .inl (Bool.not_eq_true _ ▸ hopen)
  · exact hi.ended hn id (fun _ hf => hf) fun hsame hnone => absurd ⟨hsame, hnone⟩ hwanted
  · exact hi.closes hn hwakes hsent hwanted.1 hwanted.2
  · exact hi.ended hn id (fun _ hf => hf) fun hsame hnone => absurd ⟨hsame, hnone⟩ hwanted

theorem Inv.not_registered (hi : w.Inv) (h : w.running = false) : w.identity.registered = false := by
  cases hregistered : w.identity.registered with
  | false => rfl
  | true => exact absurd ((hi.registered hregistered).1.symm.trans h) (by decide)

theorem Inv.step (hi : w.Inv) {a : DiscoveryStep} (hstep : w.step a = some w') : w'.Inv := by
  cases a with
  | establish =>
    simp only [Discovery.step] at hstep
    split_ifs at hstep with hrunning
    obtain rfl := Option.some.inj hstep
    exact hi.connection (.inl (hi.not_registered (Bool.not_eq_true _ ▸ hrunning)))
  | welcome =>
    simp only [Discovery.step] at hstep
    split_ifs at hstep with hrunning
    obtain rfl := Option.some.inj hstep
    exact hi.welcome hrunning
  | learn p =>
    simp only [Discovery.step] at hstep
    by_cases hrunning : w.running = true
    · rw [if_pos hrunning] at hstep
      obtain rfl := Option.some.inj hstep
      exact hi.learn p
    · simp [hrunning] at hstep
  | fail =>
    obtain rfl := Option.some.inj hstep
    exact hi.connection (.inr ⟨rfl, rfl, rfl⟩)
  | lost =>
    simp only [Discovery.step] at hstep
    split_ifs at hstep
    obtain rfl := Option.some.inj hstep
    exact hi.lost
  | wake n sends =>
    simp only [Discovery.step] at hstep
    split at hstep
    · simp at hstep
    · rename_i task hn
      split_ifs at hstep with hwakes
      obtain rfl := Option.some.inj hstep
      exact hi.discover hn hwakes sends
  | pass time =>
    simp only [Discovery.step] at hstep
    split_ifs at hstep with htime
    obtain rfl := Option.some.inj hstep
    exact hi.pass htime

/-- Discovery closes the connection that it was started for and no other, after five queries of
which each comes a delay after the one before, and only where nothing was learned before. As
long as a registered bot does not know its identity and can write, a call for its registration
goes on within a delay, unless a query was refused. -/
theorem discovery_sound (h : Machine.Reachable step init w) :
    (∀ c ∈ w.closings, ∃ r ∈ w.registrations, r.generation = c.generation ∧
      r.connection = c.connection ∧
      r.time + identityRetryAttempts * identityRetryDelay ≤ c.time ∧
      (w.asked c.generation).length = identityRetryAttempts ∧
      ∀ l ∈ w.learned, l.generation = c.generation → c.time ≤ l.time) ∧
    (∀ q ∈ w.queries, ∃ r ∈ w.registrations, r.generation = q.generation ∧
      r.connection = q.connection) ∧
    (w.queries.Pairwise fun later earlier => later.generation = earlier.generation →
      earlier.time + identityRetryDelay ≤ later.time) ∧
    (w.identity.registered = true → w.writable = true → w.identity.current = none →
      (∃ task ∈ w.tasks, task.generation = w.identity.generation ∧
        task.wakes ≤ w.now + identityRetryDelay) ∨
      ∃ f ∈ w.refusals, f.generation = w.identity.generation) := by
  have hi : w.Inv := h.invariant (fun _ _ _ hi hstep => hi.step hstep) inv_init
  refine ⟨?_, ?_, hi.spaced, ?_⟩
  · intro c hc
    obtain ⟨hearned, -⟩ := hi.closings c hc
    obtain ⟨r, ⟨hr, hgen⟩, hconnection, htime⟩ := hearned.since
    exact ⟨r, hr, hgen, hconnection, htime, hearned.asked, hearned.unknown⟩
  · intro q hq
    obtain ⟨r, ⟨hr, hgen⟩, hconnection⟩ := hi.queries q hq
    exact ⟨r, hr, hgen, hconnection⟩
  · intro hregistered hopen hnone
    rcases hi.unknown hregistered hopen hnone with ⟨task, htask, hgen⟩ | hrefused
    · exact .inl ⟨task, htask, hgen, (hi.paced task htask).soon⟩
    · exact .inr hrefused

/-- A connection is lost after the first query. The call for it wakes on the next connection,
which stays silent. -/
def sampleSilence : List DiscoveryStep :=
  [.establish, .welcome, .wake 0 true, .lost, .establish, .welcome, .wake 1 true, .pass 5,
    .wake 0 true, .wake 0 true, .pass 10, .wake 0 true, .pass 15, .wake 0 true, .pass 20,
    .wake 0 true, .pass 25, .wake 0 true]

theorem discovery_sound_silence : ∃ w, Machine.run step init sampleSilence = some w ∧
    w.closings = [⟨3, 2, 25⟩] ∧ ∀ c ∈ w.closings, ∃ r ∈ w.registrations,
      r.generation = c.generation ∧ r.connection = c.connection ∧
      r.time + identityRetryAttempts * identityRetryDelay ≤ c.time ∧
      (w.asked c.generation).length = identityRetryAttempts ∧
      ∀ l ∈ w.learned, l.generation = c.generation → c.time ≤ l.time := by
  have hview : (Machine.run step init sampleSilence).map closings = some [⟨3, 2, 25⟩] := by
    decide +kernel
  obtain ⟨w, hrun, hclosings⟩ := Option.map_eq_some_iff.mp hview
  exact ⟨w, hrun, hclosings, (discovery_sound ⟨sampleSilence, hrun⟩).1⟩

end Discovery

end Botnats
