import Botnats.Machine

/-!
# Watch tasks and their generations

`start_watches`, `cancel_watches`, `run_watch` and the replay markers of
`nats/coordinator.py`. A call that finds tasks to cancel waits for them; meanwhile
other calls begin, the connection comes and goes, and the cancelled tasks run on as
long as their cleanup takes, or for good where it swallows the cancellation. What runs
between two awaits is one step.
-/
namespace Botnats

inductive WatchName
  | channels
  | presence
  | sessions
  deriving DecidableEq

/-- `WATCH_NAMES` -/
def watchNames : Finset WatchName := {.channels, .presence, .sessions}

theorem mem_watchNames (name : WatchName) : name ∈ watchNames := by
  cases name <;> decide

/-- Where a task stands in `run_watch`. `marked` is kept for the statements below: the
present iteration has called `mark_watch_synced`. -/
inductive WatchPhase
  | created
  | watching (marked : Bool)
  | sleeping
  | done
  deriving DecidableEq

/-- A task of `run_watch`. `context` is `WATCH_GENERATION` in the task's own context,
and `cancelled` a cancellation that has been asked for and not been raised yet. -/
structure WatchTask where
  name : WatchName
  generation : ℕ
  context : Option ℕ
  phase : WatchPhase
  cancelled : Bool

/-- A call that waits for tasks it cancelled: of `start_watches` with its generation, or
of `cancel_watches` alone. `abandoned` once the caller itself was cancelled. -/
structure WatchCall where
  generation : Option ℕ
  awaits : List ℕ
  abandoned : Bool
  returned : Bool

/-- The fields of `Coordinator` that decide about watches and readiness. Tasks and calls
are numbered by their position. -/
structure Watches where
  connected : Bool
  storesReady : Bool
  owned : Bool
  generation : ℕ
  synced : Finset WatchName
  watchTasks : List ℕ
  tasks : List WatchTask
  calls : List WatchCall

/-- How a watch body ends. -/
inductive WatchExit
  | finished
  | failed
  | crashed
  | cancelled
  deriving DecidableEq

/-- `run` gives control to a task before its body or after its sleep, `swallow` replaces a
cancellation in the body by something else, and `environment` is what the connection,
the stores and the presence claim do. -/
inductive WatchStep
  | startWatches
  | cancelWatches
  | resumeCall (n : ℕ)
  | abandonCall (n : ℕ)
  | run (i : ℕ)
  | mark (i : ℕ)
  | swallow (i : ℕ)
  | leave (i : ℕ) (exit : WatchExit)
  | environment (connected storesReady owned : Bool)

/-- The task that takes the step. -/
def WatchStep.task : WatchStep → Option ℕ
  | .run i | .mark i | .swallow i | .leave i _ => some i
  | _ => none

namespace Watches

/-- `Coordinator.__init__`, not connected yet -/
def init : Watches := ⟨false, false, false, 0, ∅, [], [], []⟩

/-- `Coordinator.ready` -/
def ready (s : Watches) : Bool :=
  s.connected && s.storesReady && s.synced = watchNames && s.owned

/-- `discard_watch_synced` -/
def discardWatchSynced (s : Watches) (name : WatchName) (generation : ℕ) : Watches :=
  if generation = s.generation then { s with synced := s.synced.erase name } else s

/-- `mark_watch_synced` in a context -/
def markWatchSynced (s : Watches) (context : Option ℕ) (name : WatchName) : Watches :=
  if context = none ∨ context = some s.generation then
    { s with synced := insert name s.synced }
  else s

def setTask (s : Watches) (i : ℕ) (t : WatchTask) : Watches :=
  { s with tasks := s.tasks.set i t }

/-- `task.cancel()` for each of the tasks -/
def cancelTasks (ids : List ℕ) (tasks : List WatchTask) : List WatchTask :=
  tasks.mapIdx fun i t => if i ∈ ids then { t with cancelled := true } else t

/-- `cancel_watches` up to its await -/
def cancelAll (s : Watches) : Watches :=
  { s with watchTasks := [], tasks := cancelTasks s.watchTasks s.tasks }

def created (name : WatchName) (generation : ℕ) : WatchTask :=
  ⟨name, generation, none, .created, false⟩

/-- The end of `start_watches` -/
def spawn (s : Watches) (generation : ℕ) : Watches :=
  { s with
    tasks := s.tasks ++ [created .channels generation, created .presence generation,
      created .sessions generation]
    watchTasks := s.watchTasks ++
      [s.tasks.length, s.tasks.length + 1, s.tasks.length + 2] }

/-- Wait for the cancelled tasks; with none there is nothing to wait for. -/
def await (s : Watches) (generation : Option ℕ) (awaits : List ℕ) : Watches :=
  { s with calls := s.calls ++ [⟨generation, awaits, false, false⟩] }

/-- `start_watches` up to its first await -/
def startWatches (s : Watches) : Watches :=
  let generation := s.generation + 1
  let t := cancelAll { s with generation := generation, synced := ∅ }
  if s.watchTasks = [] then t.spawn generation else t.await (some generation) s.watchTasks

/-- `cancel_watches` -/
def cancelWatches (s : Watches) : Watches :=
  if s.watchTasks = [] then s else s.cancelAll.await none s.watchTasks

def isDone (s : Watches) (i : ℕ) : Bool :=
  (s.tasks[i]?).all fun t => t.phase = .done

/-- The cancelled tasks have ended: a superseded call of `start_watches` returns, and the
present one creates its tasks. -/
def resumeCall (s : Watches) (n : ℕ) (c : WatchCall) : Watches :=
  let t := { s with calls := s.calls.set n { c with returned := true } }
  match c.generation, c.abandoned with
  | some generation, false => if s.generation ≠ generation then t else t.spawn generation
  | _, _ => t

/-- The head of the loop in `run_watch` -/
def iterate (s : Watches) (i : ℕ) (t : WatchTask) : Watches :=
  if s.connected && t.generation = s.generation then
    (s.setTask i { t with phase := .watching false }).discardWatchSynced t.name t.generation
  else s.setTask i { t with phase := .done }

/-- A task gets control at the start or after its sleep; a cancellation asked for before
is raised there. -/
def run (s : Watches) (i : ℕ) (t : WatchTask) : Option Watches :=
  match t.phase with
  | .created =>
    if t.cancelled then some (s.setTask i { t with phase := .done })
    else some (s.iterate i { t with context := some t.generation })
  | .sleeping =>
    if t.cancelled then some (s.setTask i { t with phase := .done }) else some (s.iterate i t)
  | _ => none

/-- The watch body ends; the marker goes in any case. -/
def leave (s : Watches) (i : ℕ) (t : WatchTask) (exit : WatchExit) : Watches :=
  let phase : WatchPhase :=
    match exit with
    | .finished => .sleeping
    | .failed | .crashed => if s.connected then .sleeping else .done
    | .cancelled => .done
  (s.setTask i { t with phase := phase }).discardWatchSynced t.name t.generation

def step (s : Watches) : WatchStep → Option Watches
  | .startWatches => some s.startWatches
  | .cancelWatches => some s.cancelWatches
  | .resumeCall n =>
    match s.calls[n]? with
    | some c => if !c.returned && c.awaits.all s.isDone then some (s.resumeCall n c) else none
    | none => none
  | .abandonCall n =>
    match s.calls[n]? with
    | some c =>
      if c.returned then none
      else some { s with
        calls := s.calls.set n { c with abandoned := true }
        tasks := cancelTasks c.awaits s.tasks }
    | none => none
  | .run i => (s.tasks[i]?).bind fun t => s.run i t
  | .mark i =>
    match s.tasks[i]? with
    | some t =>
      match t.phase with
      | .watching _ =>
        some ((s.setTask i { t with phase := .watching true }).markWatchSynced t.context t.name)
      | _ => none
    | none => none
  | .swallow i =>
    match s.tasks[i]? with
    | some t =>
      match t.phase with
      | .watching _ =>
        if t.cancelled then some (s.setTask i { t with cancelled := false }) else none
      | _ => none
    | none => none
  | .leave i exit =>
    match s.tasks[i]? with
    | some t =>
      match t.phase with
      | .watching _ => some (s.leave i t exit)
      | _ => none
    | none => none
  | .environment connected storesReady owned => some { s with
      connected := connected
      storesReady := storesReady
      owned := owned }

/-! ## The markers and the tasks behind them -/

/-- The task has started its loop and not ended it. -/
def begun (t : WatchTask) : Prop := t.phase = .sleeping ∨ ∃ marked, t.phase = .watching marked

/-- What a task is, whatever it does. -/
def key (t : WatchTask) : WatchName × ℕ := (t.name, t.generation)

/-- Tasks are created once for a name and a generation, and not before their call has
waited; a marker stands for a task of the present generation that has marked in its
present iteration. -/
structure Tracked (s : Watches) : Prop where
  past : ∀ t ∈ s.tasks, t.generation ≤ s.generation
  context : ∀ t ∈ s.tasks, begun t → t.context = some t.generation
  single : (s.tasks.map key).Nodup
  waiting : ∀ c ∈ s.calls, ∀ g, c.generation = some g → g ≤ s.generation ∧
    (c.returned = false → ∀ t ∈ s.tasks, t.generation ≠ g)
  distinct : ∀ (m n : ℕ) (c d : WatchCall) (g : ℕ), s.calls[m]? = some c → s.calls[n]? = some d →
    c.generation = some g → d.generation = some g → m = n
  marked : ∀ name ∈ s.synced, ∃ t ∈ s.tasks, t.name = name ∧ t.generation = s.generation ∧
    t.phase = .watching true

theorem tracked_init : Tracked init := by
  constructor <;> simp [init]

variable {s : Watches} {i : ℕ} {t : WatchTask}

/-- A name and a generation belong to one task. -/
theorem Tracked.unique (h : Tracked s) {j : ℕ} {u : WatchTask} (hi : s.tasks[i]? = some t)
    (hj : s.tasks[j]? = some u) (hkey : key t = key u) : i = j := by
  obtain ⟨hilt, rfl⟩ := List.getElem?_eq_some_iff.mp hi
  obtain ⟨hjlt, rfl⟩ := List.getElem?_eq_some_iff.mp hj
  have hi' : i < (s.tasks.map key).length := by simpa using hilt
  have hj' : j < (s.tasks.map key).length := by simpa using hjlt
  have hsame : (s.tasks.map key)[i] = (s.tasks.map key)[j] := by simpa using hkey
  exact (h.single.getElem_inj_iff).mp hsame

/-- The marker of a task's name, while its generation is the present one, is its own. -/
theorem Tracked.marked_self (h : Tracked s) (hi : s.tasks[i]? = some t)
    (hgen : t.generation = s.generation) (hname : t.name ∈ s.synced) :
    t.phase = .watching true := by
  obtain ⟨u, hu, huname, hugen, huphase⟩ := h.marked t.name hname
  obtain ⟨j, hj⟩ := List.getElem?_of_mem hu
  have hij : i = j := h.unique hi hj (by simp [key, huname, hgen, hugen])
  subst hij
  obtain rfl : t = u := by simpa [hi] using hj
  exact huphase

/-- A task moves on. It may add and remove the marker of its own name, as long as it is
marked while the marker is there. -/
theorem Tracked.setTask (h : Tracked s) (hi : s.tasks[i]? = some t) (u : WatchTask)
    (synced : Finset WatchName) (hkey : key u = key t)
    (hcontext : begun u → u.context = some u.generation)
    (hsub : ∀ name ∈ synced, name ∈ s.synced ∨ (name = t.name ∧ t.generation = s.generation))
    (hown : t.generation = s.generation → t.name ∈ synced → u.phase = .watching true) :
    Tracked { s.setTask i u with synced := synced } := by
  obtain ⟨hname, hgen⟩ := Prod.mk.inj hkey
  have htmem : t ∈ s.tasks := List.mem_of_getElem? hi
  obtain ⟨hilt, hit⟩ := List.getElem?_eq_some_iff.mp hi
  have hmem : ∀ v ∈ s.tasks.set i u, v ∈ s.tasks ∨ v = u :=
    fun v hv => List.mem_or_eq_of_mem_set hv
  refine ⟨fun v hv => ?_, fun v hv => ?_, ?_, fun c hc g hg => ?_, h.distinct, fun name hsync => ?_⟩
  · rcases hmem v hv with hv | rfl
    · exact h.past v hv
    · rw [hgen]
      exact h.past t htmem
  · rcases hmem v hv with hv | rfl
    · exact h.context v hv
    · exact hcontext
  · have hkeys : (s.tasks.set i u).map key = s.tasks.map key := by
      rw [List.map_set, hkey]
      apply List.ext_getElem?
      intro j
      rw [List.getElem?_set]
      split_ifs with hij hlt
      · subst hij
        simp [hi]
      · subst hij
        simp at hlt
        omega
      · rfl
    simpa [Watches.setTask, hkeys] using h.single
  · refine ⟨(h.waiting c hc g hg).1, fun hret v hv => ?_⟩
    rcases hmem v hv with hv | rfl
    · exact (h.waiting c hc g hg).2 hret v hv
    · rw [hgen]
      exact (h.waiting c hc g hg).2 hret t htmem
  · by_cases hself : name = t.name ∧ t.generation = s.generation
    · obtain ⟨rfl, hcurrent⟩ := hself
      refine ⟨u, List.mem_set hilt u, hname, hgen.trans hcurrent, hown hcurrent hsync⟩
    · have hold : name ∈ s.synced := (hsub name hsync).resolve_right hself
      obtain ⟨v, hv, hvname, hvgen, hvphase⟩ := h.marked name hold
      obtain ⟨j, hj⟩ := List.getElem?_of_mem hv
      have hji : i ≠ j := by
        rintro rfl
        obtain rfl : t = v := by simpa [hi] using hj
        exact hself ⟨hvname.symm, hvgen⟩
      refine ⟨v, ?_, hvname, hvgen, hvphase⟩
      exact List.mem_of_getElem? ((List.getElem?_set_ne hji).trans hj)

theorem cancelTasks_getElem? (ids : List ℕ) (tasks : List WatchTask) (i : ℕ) :
    (cancelTasks ids tasks)[i]? =
      (tasks[i]?).map fun t => if i ∈ ids then { t with cancelled := true } else t := by
  simp [cancelTasks, List.getElem?_mapIdx]

/-- A task asked to cancel is the same task. -/
theorem mem_cancelTasks {ids : List ℕ} {tasks : List WatchTask} {u : WatchTask}
    (h : u ∈ cancelTasks ids tasks) : ∃ t ∈ tasks, key u = key t ∧ u.context = t.context ∧
      u.phase = t.phase := by
  obtain ⟨i, hi⟩ := List.getElem?_of_mem h
  rw [cancelTasks_getElem?] at hi
  obtain ⟨t, ht, rfl⟩ := Option.map_eq_some_iff.mp hi
  refine ⟨t, List.mem_of_getElem? ht, ?_⟩
  split_ifs <;> exact ⟨rfl, rfl, rfl⟩

theorem cancelTasks_mem (ids : List ℕ) {tasks : List WatchTask} (h : t ∈ tasks) :
    ∃ u ∈ cancelTasks ids tasks, key u = key t ∧ u.phase = t.phase := by
  obtain ⟨i, hi⟩ := List.getElem?_of_mem h
  have hu := cancelTasks_getElem? ids tasks i
  rw [hi] at hu
  refine ⟨_, List.mem_of_getElem? hu, ?_⟩
  split_ifs <;> exact ⟨rfl, rfl⟩

theorem map_key_cancelTasks (ids : List ℕ) (tasks : List WatchTask) :
    (cancelTasks ids tasks).map key = tasks.map key := by
  apply List.ext_getElem?
  intro i
  rw [List.getElem?_map, cancelTasks_getElem?, List.getElem?_map, Option.map_map]
  congr 1
  funext t
  simp only [Function.comp]
  split_ifs <;> rfl

/-- Cancelling asks; it ends no task and takes no marker. -/
theorem Tracked.ask (h : Tracked s) (ids watchTasks : List ℕ) :
    Tracked { s with watchTasks := watchTasks, tasks := cancelTasks ids s.tasks } := by
  have hgen : ∀ u t : WatchTask, key u = key t → u.generation = t.generation :=
    fun u t hkey => (Prod.mk.inj hkey).2
  refine ⟨fun u hu => ?_, fun u hu hbegun => ?_, ?_, fun c hc g hg => ?_, h.distinct,
    fun name hname => ?_⟩
  · obtain ⟨t, ht, hkey, -, -⟩ := mem_cancelTasks hu
    rw [hgen u t hkey]
    exact h.past t ht
  · obtain ⟨t, ht, hkey, hcontext, hphase⟩ := mem_cancelTasks hu
    rw [hcontext, hgen u t hkey]
    exact h.context t ht (by simpa [begun, hphase] using hbegun)
  · rw [map_key_cancelTasks]
    exact h.single
  · refine ⟨(h.waiting c hc g hg).1, fun hret u hu => ?_⟩
    obtain ⟨t, ht, hkey, -, -⟩ := mem_cancelTasks hu
    rw [hgen u t hkey]
    exact (h.waiting c hc g hg).2 hret t ht
  · obtain ⟨t, ht, htname, htgen, hphase⟩ := h.marked name hname
    obtain ⟨u, hu, hkey, huphase⟩ := cancelTasks_mem ids ht
    refine ⟨u, hu, ?_, (hgen u t hkey).trans htgen, huphase.trans hphase⟩
    exact (Prod.mk.inj hkey).1.trans htname

/-- A new generation begins without markers; no task and no call has it yet. -/
theorem Tracked.bump (h : Tracked s) :
    Tracked { s with generation := s.generation + 1, synced := ∅ } where
  past := fun t ht => Nat.le_succ_of_le (h.past t ht)
  context := h.context
  single := h.single
  waiting := fun c hc g hg => ⟨Nat.le_succ_of_le (h.waiting c hc g hg).1, (h.waiting c hc g hg).2⟩
  distinct := h.distinct
  marked := by simp

/-- Create the tasks of the present generation, once no call that waits has it. -/
theorem Tracked.spawn (h : Tracked s) (hnew : ∀ t ∈ s.tasks, t.generation ≠ s.generation)
    (hcalls : ∀ c ∈ s.calls, c.generation = some s.generation → c.returned = true) :
    Tracked (s.spawn s.generation) := by
  have hmem : ∀ t ∈ (s.spawn s.generation).tasks, t ∈ s.tasks ∨
      ∃ name, t = created name s.generation := by
    intro t ht
    rcases List.mem_append.mp ht with ht | ht
    · exact .inl ht
    · simp only [List.mem_cons, List.not_mem_nil, or_false] at ht
      rcases ht with rfl | rfl | rfl <;> exact .inr ⟨_, rfl⟩
  refine ⟨fun t ht => ?_, fun t ht hbegun => ?_, ?_, fun c hc g hg => ?_, h.distinct,
    fun name hname => ?_⟩
  · rcases hmem t ht with ht | ⟨name, rfl⟩
    · exact h.past t ht
    · exact le_refl _
  · rcases hmem t ht with ht | ⟨name, rfl⟩
    · exact h.context t ht hbegun
    · simp [begun, created] at hbegun
  · have hkeys : (s.spawn s.generation).tasks.map key = s.tasks.map key ++
        [(.channels, s.generation), (.presence, s.generation), (.sessions, s.generation)] := by
      simp [Watches.spawn, created, key]
    rw [hkeys, List.nodup_append]
    refine ⟨h.single, by simp, fun k hk k' hk' heq => ?_⟩
    obtain ⟨t, ht, rfl⟩ := List.mem_map.mp hk
    have hgen : k'.2 = s.generation := by
      simp only [List.mem_cons, List.not_mem_nil, or_false] at hk'
      rcases hk' with rfl | rfl | rfl <;> rfl
    exact hnew t ht ((congrArg Prod.snd heq).trans hgen)
  · refine ⟨(h.waiting c hc g hg).1, fun hret t ht => ?_⟩
    rcases hmem t ht with ht | ⟨name, rfl⟩
    · exact (h.waiting c hc g hg).2 hret t ht
    · rintro rfl
      have hreturned := hcalls c hc hg
      simp [hret] at hreturned
  · obtain ⟨t, ht, hrest⟩ := h.marked name hname
    exact ⟨t, List.mem_append_left _ ht, hrest⟩

/-- A call begins to wait; a call of `start_watches` brings a generation of its own. -/
theorem Tracked.await (h : Tracked s) (generation : Option ℕ) (awaits : List ℕ)
    (hpast : ∀ g, generation = some g → g ≤ s.generation)
    (hnew : ∀ g, generation = some g → ∀ t ∈ s.tasks, t.generation ≠ g)
    (hcalls : ∀ g, generation = some g → ∀ c ∈ s.calls, c.generation ≠ some g) :
    Tracked (s.await generation awaits) := by
  refine ⟨h.past, h.context, h.single, fun c hc g hg => ?_, fun m n c d g hm hn hc hd => ?_,
    h.marked⟩
  · rcases List.mem_append.mp hc with hc | hc
    · exact h.waiting c hc g hg
    · obtain rfl := List.mem_singleton.mp hc
      exact ⟨hpast g hg, fun _ => hnew g hg⟩
  · have hcases : ∀ k e, (s.await generation awaits).calls[k]? = some e →
        s.calls[k]? = some e ∨ (k = s.calls.length ∧ e.generation = generation) := by
      intro k e hk
      simp only [Watches.await, List.getElem?_append] at hk
      split_ifs at hk with hlt
      · exact .inl hk
      · have hzero : k - s.calls.length = 0 := by
          by_contra hne
          obtain ⟨j, hj⟩ := Nat.exists_eq_succ_of_ne_zero hne
          simp [hj] at hk
        rw [hzero] at hk
        refine .inr ⟨by omega, ?_⟩
        simpa using congrArg (Option.map WatchCall.generation) hk.symm
    rcases hcases m c hm with hm' | ⟨rfl, hmg⟩
    · rcases hcases n d hn with hn' | ⟨rfl, hng⟩
      · exact h.distinct m n c d g hm' hn' hc hd
      · exact absurd hc (hcalls g (hng.symm.trans hd) c (List.mem_of_getElem? hm'))
    · rcases hcases n d hn with hn' | ⟨rfl, hng⟩
      · exact absurd hd (hcalls g (hmg.symm.trans hc) d (List.mem_of_getElem? hn'))
      · rfl

theorem Tracked.startWatches (h : Tracked s) : Tracked s.startWatches := by
  have hnew : ∀ t ∈ s.tasks, t.generation ≠ s.generation + 1 := fun t ht hgen => by
    have hle := h.past t ht
    omega
  have hcalls : ∀ c ∈ s.calls, c.generation ≠ some (s.generation + 1) := fun c hc hgen => by
    have hle := (h.waiting c hc _ hgen).1
    omega
  have hall := h.bump.ask s.watchTasks []
  have hkept : ∀ t ∈ cancelTasks s.watchTasks s.tasks, t.generation ≠ s.generation + 1 := by
    intro u hu
    obtain ⟨t, ht, hkey, -, -⟩ := mem_cancelTasks hu
    rw [(Prod.mk.inj hkey).2]
    exact hnew t ht
  unfold Watches.startWatches
  dsimp only
  split_ifs
  · exact hall.spawn hkept fun c hc hgen => absurd hgen (hcalls c hc)
  · refine hall.await _ _ (fun g hg => ?_) (fun g hg t ht => ?_) (fun g hg c hc => ?_)
    all_goals obtain rfl := Option.some.inj hg
    · exact le_refl _
    · exact hkept t ht
    · exact hcalls c hc

theorem Tracked.cancelWatches (h : Tracked s) : Tracked s.cancelWatches := by
  unfold Watches.cancelWatches
  split_ifs
  · exact h
  · exact (h.ask s.watchTasks []).await none _ (by simp) (by simp) (by simp)

/-- A call that ends, or whose caller is cancelled, keeps its generation. -/
theorem Tracked.setCall (h : Tracked s) {n : ℕ} {c d : WatchCall} (hn : s.calls[n]? = some c)
    (hgen : d.generation = c.generation) (hret : d.returned = false → c.returned = false) :
    Tracked { s with calls := s.calls.set n d } := by
  have hcmem : c ∈ s.calls := List.mem_of_getElem? hn
  refine ⟨h.past, h.context, h.single, fun e he g hg => ?_, fun m k e f g hm hk he hf => ?_,
    h.marked⟩
  · rcases List.mem_or_eq_of_mem_set he with he | rfl
    · exact h.waiting e he g hg
    · obtain ⟨hle, hwait⟩ := h.waiting c hcmem g (hgen ▸ hg)
      exact ⟨hle, fun hopen => hwait (hret hopen)⟩
  · have hold : ∀ (j : ℕ) (e : WatchCall), (s.calls.set n d)[j]? = some e →
        ∃ e' : WatchCall, s.calls[j]? = some e' ∧ e.generation = e'.generation := by
      intro j e hj
      rw [List.getElem?_set] at hj
      split_ifs at hj with hnj hlt
      · subst hnj
        obtain rfl := Option.some.inj hj
        exact ⟨c, hn, hgen⟩
      · exact ⟨e, hj, rfl⟩
    obtain ⟨e', hm', heq⟩ := hold m e hm
    obtain ⟨f', hk', hfq⟩ := hold k f hk
    exact h.distinct m k e' f' g hm' hk' (heq ▸ he) (hfq ▸ hf)

/-- A call goes on: only one of the present generation creates tasks, and it is the only
one of its generation. -/
theorem Tracked.resumeCall (h : Tracked s) {n : ℕ} {c : WatchCall} (hn : s.calls[n]? = some c)
    (hopen : c.returned = false) : Tracked (s.resumeCall n c) := by
  have hcmem : c ∈ s.calls := List.mem_of_getElem? hn
  have hset : Tracked { s with calls := s.calls.set n { c with returned := true } } :=
    h.setCall hn rfl (by simp)
  unfold Watches.resumeCall
  dsimp only
  split
  · rename_i generation hgen hkept
    split_ifs with hstale
    · exact hset
    · obtain rfl : s.generation = generation := not_not.mp hstale
      refine hset.spawn ((h.waiting c hcmem _ hgen).2 hopen) fun d hd hdgen => ?_
      obtain ⟨m, hm⟩ := List.getElem?_of_mem hd
      by_cases hmn : n = m
      · subst hmn
        obtain ⟨hlt, -⟩ := List.getElem?_eq_some_iff.mp hn
        rw [List.getElem?_set_self hlt] at hm
        rw [← Option.some.inj hm]
      · rw [List.getElem?_set_ne hmn] at hm
        exact absurd (h.distinct n m c d _ hn hm hgen hdgen) hmn
  · exact hset

/-- The head of the loop: the task begins an iteration without its marker, or ends. -/
theorem Tracked.iterate (h : Tracked s) (hi : s.tasks[i]? = some t) {u : WatchTask}
    (hkey : key u = key t) (hcontext : u.context = some u.generation)
    (hphase : t.phase ≠ .watching true) : Tracked (s.iterate i u) := by
  obtain ⟨hname, hgen⟩ := Prod.mk.inj hkey
  unfold Watches.iterate
  split_ifs with hloop
  · have hcurrent : u.generation = s.generation := by
      simp only [Bool.and_eq_true, decide_eq_true_eq] at hloop
      exact hloop.2
    have hstep := h.setTask hi { u with phase := .watching false }
      (s.synced.erase u.name) hkey (fun _ => hcontext)
      (fun name hn => .inl (Finset.mem_of_mem_erase hn))
      (fun _ hn => by simp [hname] at hn)
    simpa [discardWatchSynced, hcurrent, Watches.setTask] using hstep
  · refine h.setTask hi { u with phase := .done } s.synced hkey ?_
      (fun _ hn => .inl hn) fun hg hn => absurd (h.marked_self hi hg hn) hphase
    simp [begun]

theorem Tracked.finish (h : Tracked s) (hi : s.tasks[i]? = some t)
    (hphase : t.phase ≠ .watching true) : Tracked (s.setTask i { t with phase := .done }) := by
  refine h.setTask hi { t with phase := .done } s.synced rfl ?_
    (fun _ hn => .inl hn) fun hg hn => absurd (h.marked_self hi hg hn) hphase
  simp [begun]

theorem Tracked.run (h : Tracked s) (hi : s.tasks[i]? = some t) {s' : Watches}
    (hst : s.run i t = some s') : Tracked s' := by
  unfold Watches.run at hst
  split at hst
  · rename_i hphase
    have hnot : t.phase ≠ .watching true := by simp [hphase]
    split_ifs at hst
    · exact Option.some.inj hst ▸ h.finish hi hnot
    · exact Option.some.inj hst ▸ h.iterate hi rfl rfl hnot
  · rename_i hphase
    have hnot : t.phase ≠ .watching true := by simp [hphase]
    split_ifs at hst
    · exact Option.some.inj hst ▸ h.finish hi hnot
    · have hcontext := h.context t (List.mem_of_getElem? hi) (.inl hphase)
      exact Option.some.inj hst ▸ h.iterate hi rfl hcontext hnot
  · simp at hst

/-- A watch marks its name: if its generation is the present one, the marker is its own. -/
theorem Tracked.mark (h : Tracked s) (hi : s.tasks[i]? = some t) {marked : Bool}
    (hphase : t.phase = .watching marked) :
    Tracked ((s.setTask i { t with phase := .watching true }).markWatchSynced t.context
      t.name) := by
  have hcontext := h.context t (List.mem_of_getElem? hi) (.inr ⟨marked, hphase⟩)
  by_cases hgen : t.generation = s.generation
  · have hstep := h.setTask hi { t with phase := .watching true }
      (insert t.name s.synced) rfl (fun _ => hcontext)
      (fun name hn => (Finset.mem_insert.mp hn).symm.imp_right fun heq => ⟨heq, hgen⟩)
      (fun _ _ => rfl)
    simpa [markWatchSynced, Watches.setTask, hcontext, hgen] using hstep
  · have hstep := h.setTask hi { t with phase := .watching true }
      s.synced rfl (fun _ => hcontext) (fun _ hn => .inl hn) (fun _ _ => rfl)
    simpa [markWatchSynced, Watches.setTask, hcontext, hgen] using hstep

theorem Tracked.swallow (h : Tracked s) (hi : s.tasks[i]? = some t) :
    Tracked (s.setTask i { t with cancelled := false }) := by
  have hcontext := h.context t (List.mem_of_getElem? hi)
  have hown := h.marked_self hi
  exact h.setTask hi { t with cancelled := false } s.synced rfl hcontext (fun _ hn => .inl hn) hown

/-- The end of a watch body takes its marker along, unless another generation has it. -/
theorem Tracked.leave (h : Tracked s) (hi : s.tasks[i]? = some t) {marked : Bool}
    (hphase : t.phase = .watching marked) (exit : WatchExit) : Tracked (s.leave i t exit) := by
  have hcontext := h.context t (List.mem_of_getElem? hi) (.inr ⟨marked, hphase⟩)
  unfold Watches.leave
  dsimp only
  by_cases hgen : t.generation = s.generation
  · have hstep : ∀ phase, Tracked { s.setTask i { t with phase := phase } with
        synced := s.synced.erase t.name } := fun phase =>
      h.setTask hi { t with phase := phase } (s.synced.erase t.name) rfl (fun _ => hcontext)
        (fun name hn => .inl (Finset.mem_of_mem_erase hn)) fun _ hn => by simp at hn
    simpa [discardWatchSynced, Watches.setTask, hgen] using hstep _
  · have hstep : ∀ phase, Tracked { s.setTask i { t with phase := phase } with
        synced := s.synced } := fun phase =>
      h.setTask hi { t with phase := phase } s.synced rfl (fun _ => hcontext)
        (fun name hn => .inl hn) fun hg _ => absurd hg hgen
    simpa [discardWatchSynced, Watches.setTask, hgen] using hstep _

theorem Tracked.step (h : Tracked s) {a : WatchStep} {s' : Watches}
    (hst : s.step a = some s') : Tracked s' := by
  cases a with
  | startWatches => exact Option.some.inj hst ▸ h.startWatches
  | cancelWatches => exact Option.some.inj hst ▸ h.cancelWatches
  | resumeCall n =>
    simp only [Watches.step] at hst
    split at hst
    · rename_i c hn
      split_ifs at hst with hdone
      simp only [Bool.and_eq_true, Bool.not_eq_true'] at hdone
      exact Option.some.inj hst ▸ h.resumeCall hn hdone.1
    · simp at hst
  | abandonCall n =>
    simp only [Watches.step] at hst
    split at hst
    · rename_i c hn
      split_ifs at hst
      have hset : Tracked { s with calls := s.calls.set n { c with abandoned := true } } :=
        h.setCall hn rfl (fun hret => hret)
      exact Option.some.inj hst ▸ hset.ask c.awaits s.watchTasks
    · simp at hst
  | run i =>
    obtain ⟨t, hi, hrun⟩ := Option.bind_eq_some_iff.mp hst
    exact h.run hi hrun
  | mark i =>
    simp only [Watches.step] at hst
    split at hst
    · rename_i t hi
      split at hst
      · rename_i marked hphase
        exact Option.some.inj hst ▸ h.mark hi hphase
      · simp at hst
    · simp at hst
  | swallow i =>
    simp only [Watches.step] at hst
    split at hst
    · rename_i t hi
      split at hst
      · split_ifs at hst
        exact Option.some.inj hst ▸ h.swallow hi
      · simp at hst
    · simp at hst
  | leave i exit =>
    simp only [Watches.step] at hst
    split at hst
    · rename_i t hi
      split at hst
      · rename_i marked hphase
        exact Option.some.inj hst ▸ h.leave hi hphase exit
      · simp at hst
    · simp at hst
  | environment connected storesReady owned =>
    obtain rfl := Option.some.inj hst
    exact ⟨h.past, h.context, h.single, h.waiting, h.distinct, h.marked⟩

@[simp] theorem setTask_synced (s : Watches) (i : ℕ) (t : WatchTask) :
    (s.setTask i t).synced = s.synced := rfl

/-- The discards of a superseded task leave the markers alone. -/
theorem discard_superseded (s : Watches) (name : WatchName) {generation : ℕ}
    (h : generation ≠ s.generation) : s.discardWatchSynced name generation = s := by
  simp [discardWatchSynced, h]

/-- A step of a superseded task leaves the markers alone. -/
theorem Tracked.superseded (h : Tracked s) {a : WatchStep} {s' : Watches}
    (hst : s.step a = some s') (ha : a.task = some i) (hi : s.tasks[i]? = some t)
    (hold : t.generation ≠ s.generation) : s'.synced = s.synced := by
  have hdiscard : ∀ u : WatchTask,
      ((s.setTask i u).discardWatchSynced t.name t.generation).synced = s.synced := by
    intro u
    rw [discard_superseded (s.setTask i u) t.name hold, setTask_synced]
  have hiterate : ∀ u : WatchTask, u.generation = t.generation →
      (s.iterate i u).synced = s.synced := by
    intro u hu
    have hsuperseded : u.generation ≠ s.generation := hu ▸ hold
    simp [Watches.iterate, hsuperseded]
  cases a with
  | run j =>
    obtain rfl : j = i := by simpa [WatchStep.task] using ha
    simp only [Watches.step, hi, Option.bind_some, Watches.run] at hst
    split at hst
    · split_ifs at hst
      · exact Option.some.inj hst ▸ rfl
      · exact Option.some.inj hst ▸ hiterate _ rfl
    · split_ifs at hst
      · exact Option.some.inj hst ▸ rfl
      · exact Option.some.inj hst ▸ hiterate _ rfl
    · simp at hst
  | mark j =>
    obtain rfl : j = i := by simpa [WatchStep.task] using ha
    simp only [Watches.step, hi] at hst
    split at hst
    · rename_i marked hphase
      have hcontext := h.context t (List.mem_of_getElem? hi) (.inr ⟨marked, hphase⟩)
      obtain rfl := Option.some.inj hst
      simp [markWatchSynced, hcontext, Watches.setTask, hold]
    · simp at hst
  | swallow j =>
    obtain rfl : j = i := by simpa [WatchStep.task] using ha
    simp only [Watches.step, hi] at hst
    split at hst
    · split_ifs at hst
      exact Option.some.inj hst ▸ rfl
    · simp at hst
  | leave j exit =>
    obtain rfl : j = i := by simpa [WatchStep.task] using ha
    simp only [Watches.step, hi] at hst
    split at hst
    · exact Option.some.inj hst ▸ hdiscard _
    · simp at hst
  | startWatches => simp [WatchStep.task] at ha
  | cancelWatches => simp [WatchStep.task] at ha
  | resumeCall n => simp [WatchStep.task] at ha
  | abandonCall n => simp [WatchStep.task] at ha
  | environment connected storesReady owned => simp [WatchStep.task] at ha

/-- A ready coordinator has replayed every watch: each name was marked by a task of the
present generation in the iteration it is still in. A superseded task changes no marker,
and a generation has one task for a name, whatever calls of `start_watches` overlapped. -/
theorem ready_current (s : Watches) (h : Machine.Reachable step init s) :
    (s.ready = true → ∀ name, ∃ t ∈ s.tasks, t.name = name ∧ t.generation = s.generation ∧
      t.phase = .watching true) ∧
    (∀ a i t s', a.task = some i → s.tasks[i]? = some t → t.generation ≠ s.generation →
      s.step a = some s' → s'.synced = s.synced) ∧
    ∀ (i j : ℕ) (t u : WatchTask), s.tasks[i]? = some t → s.tasks[j]? = some u →
      t.name = u.name → t.generation = s.generation → u.generation = s.generation → i = j := by
  have htracked : Tracked s := h.invariant (fun _ _ _ ht hst => ht.step hst) tracked_init
  refine ⟨fun hready name => ?_, fun a i t s' ha hi hold hst => ?_,
    fun i j t u hi hj hname ht hu => ?_⟩
  · have hsynced : s.synced = watchNames := by
      simp only [ready, Bool.and_eq_true, decide_eq_true_eq] at hready
      exact hready.1.2
    exact htracked.marked name (hsynced ▸ mem_watchNames name)
  · exact htracked.superseded hst ha hi hold
  · exact htracked.unique hi hj (by simp [key, hname, ht, hu])

/-- Two overlapping starts; a task of the first generation marks while it is cancelled
and outlives its cancellation, and the second generation replays. -/
def overlap : List WatchStep :=
  [.environment true true true, .startWatches, .run 0, .run 1, .run 2, .mark 0, .startWatches,
    .startWatches, .mark 0, .swallow 0, .leave 0 .failed, .run 0, .run 3, .run 4, .run 5, .mark 3,
    .mark 4, .mark 5, .leave 1 .cancelled, .leave 2 .cancelled, .resumeCall 0]

theorem ready_current_overlap : ∃ s, Machine.run step init overlap = some s ∧
    s.ready = true ∧ s.generation = 3 ∧ s.tasks.length = 6 ∧
    ∀ name, ∃ t ∈ s.tasks, t.name = name ∧ t.generation = s.generation ∧
      t.phase = .watching true := by
  have hrun : (Machine.run step init overlap).map (fun s =>
      (s.ready, s.generation, s.tasks.length)) = some (true, 3, 6) := by
    decide +kernel
  obtain ⟨s, hs, hview⟩ := Option.map_eq_some_iff.mp hrun
  obtain ⟨hready, hrest⟩ := Prod.mk.inj hview
  obtain ⟨hgen, hlength⟩ := Prod.mk.inj hrest
  exact ⟨s, hs, hready, hgen, hlength, (ready_current s ⟨overlap, hs⟩).1 hready⟩

end Watches

end Botnats
