import Botnats.IdentityRevocation
import Botnats.Machine

/-!
# Commands and the watches of their identities

`queue_command` watches the identity of a command from its arrival on, and the `finally` of
`run_command` ends that watch once the command is over, whether it was handled, failed, or
was cancelled while it waited for the lock. The watch of an identity counts its commands
under one ASCII fold, however they spell it, and remembers an invalidation as long as one of
them is left.
-/
namespace Botnats

namespace SessionSync

variable {S : SessionScope}

/-! ## What a key reads after each operation -/

theorem lookup_watchIdentity (s : SessionSync) (identity key : Str) :
    Assoc.lookup key (s.watchIdentity identity).watchedIdentities =
      if casefold identity .ascii = key then
        let entry := (Assoc.lookup key s.watchedIdentities).getD (0, false)
        some (entry.1 + 1, entry.2)
      else Assoc.lookup key s.watchedIdentities := by
  split_ifs with hkey
  · subst hkey
    exact Assoc.lookup_assign_self _ _ _
  · exact Assoc.lookup_assign_of_ne _ _ hkey

theorem lookup_unwatchIdentity (s : SessionSync) (identity key : Str) :
    Assoc.lookup key (s.unwatchIdentity identity).watchedIdentities =
      if casefold identity .ascii = key then
        let entry := (Assoc.lookup key s.watchedIdentities).getD (1, true)
        if 1 < entry.1 then some (entry.1 - 1, entry.2) else none
      else Assoc.lookup key s.watchedIdentities := by
  unfold unwatchIdentity
  split_ifs with hkey
  · subst hkey
    dsimp only
    split_ifs with hcount
    · exact Assoc.lookup_assign_self _ _ _
    · exact Assoc.lookup_discard_self _ _
  · dsimp only
    split_ifs with hcount
    · rw [Assoc.lookup_assign_of_ne _ _ hkey, Assoc.lookup_discard_of_ne _ hkey]
    · exact Assoc.lookup_discard_of_ne _ hkey

theorem lookup_invalidate (s : SessionSync) (identity key : Str) :
    Assoc.lookup key (s.invalidate identity).watchedIdentities =
      (Assoc.lookup key s.watchedIdentities).map fun entry =>
        (entry.1, entry.2 || decide (casefold identity .ascii = key)) := by
  unfold invalidate
  dsimp only
  by_cases hkey : casefold identity .ascii = key
  · subst hkey
    cases hlookup : Assoc.lookup (casefold identity .ascii) s.watchedIdentities with
    | none => simp [hlookup]
    | some entry => simp
  · have hsame : (Assoc.lookup key s.watchedIdentities).map (fun entry =>
        (entry.1, entry.2 || decide (casefold identity .ascii = key))) =
        Assoc.lookup key s.watchedIdentities := by
      simp [hkey]
    rw [hsame]
    split
    · rfl
    · exact Assoc.lookup_assign_of_ne _ _ hkey

theorem lookup_invalidateAll (s : SessionSync) (key : Str) :
    Assoc.lookup key s.invalidateAll.watchedIdentities =
      (Assoc.lookup key s.watchedIdentities).map fun entry => (entry.1, true) :=
  Assoc.lookup_map (fun entry : ℕ × Bool => (entry.1, true)) key s.watchedIdentities

theorem watchedValid_iff (s : SessionSync) (identity : Str) : s.watchedValid identity = true ↔
    ∃ count, Assoc.lookup (casefold identity .ascii) s.watchedIdentities = some (count, false) := by
  unfold watchedValid
  cases Assoc.lookup (casefold identity .ascii) s.watchedIdentities with
  | none => simp
  | some entry => simp [Prod.ext_iff]

@[simp] theorem forget_watchedIdentities (s : SessionSync) (key : Str) :
    (s.forget key).watchedIdentities = s.watchedIdentities := by
  unfold forget
  split <;> rfl

@[simp] theorem replayed_watchedIdentities (s : SessionSync) (now : ℚ) (keys : List Str) :
    (s.replayed now keys).watchedIdentities = s.watchedIdentities := by
  have hpruned : (s.prune now).watchedIdentities = s.watchedIdentities := rfl
  exact List.foldlRecOn _ forget (motive := fun t => t.watchedIdentities = s.watchedIdentities)
    hpruned fun t ht key _ => (forget_watchedIdentities t key).trans ht

@[simp] theorem observe_watchedIdentities (s : SessionSync) (now later : ℚ) (key : Str)
    (record : Fields) (replaying : Bool) :
    (s.observe S now later key record replaying).watchedIdentities = s.watchedIdentities := by
  have hread : ∀ u : SessionSync,
      (u.observe S now later key record true).watchedIdentities = u.watchedIdentities := by
    intro u
    simp only [observe, if_true]
    split
    · rfl
    · split_ifs
      · rfl
      · exact forget_watchedIdentities u key
  cases replaying with
  | true => exact hread s
  | false => exact hread (s.prune now)

/-- The events by which commands come and go -/
def Event.watches : Event → Bool
  | .watchIdentity _ | .unwatchIdentity _ => true
  | _ => false

def Event.disconnects : Event → Bool
  | .disconnect => true
  | _ => false

/-- The casemapping, the watch of the bucket and the cache leave the table alone. -/
theorem lookup_handle (s : SessionSync) (now later : ℚ) {e : Event} (he : e.watches = false)
    (key : Str) : Assoc.lookup key (s.handle S now later e).watchedIdentities =
      (Assoc.lookup key s.watchedIdentities).map fun entry => (entry.1, entry.2 || e.disconnects) := by
  have hkept : ∀ {t : SessionSync}, e.disconnects = false →
      t.watchedIdentities = s.watchedIdentities → Assoc.lookup key t.watchedIdentities =
        (Assoc.lookup key s.watchedIdentities).map fun entry =>
          (entry.1, entry.2 || e.disconnects) := by
    intro t hquiet ht
    simp [ht, hquiet]
  cases e with
  | watchIdentity identity => cases he
  | unwatchIdentity identity => cases he
  | disconnect =>
    have hall : (s.disconnect now).watchedIdentities = s.invalidateAll.watchedIdentities := rfl
    simp only [handle, hall, lookup_invalidateAll, Event.disconnects, Bool.or_true]
  | observe k record replaying =>
    exact hkept rfl (observe_watchedIdentities s now later k record replaying)
  | forget k => exact hkept rfl (forget_watchedIdentities s k)
  | replayed keys => exact hkept rfl (replayed_watchedIdentities s now keys)
  | _ => exact hkept rfl rfl

end SessionSync

/-! ## Runs of commands -/

/-- The sessions of a bot, and the identities of its commands that are queued or running, in
order of arrival. -/
structure CommandRuns where
  sessions : SessionSync
  commands : List Str

/-- A command arrives, or the one at a position is over; identities quit or change, IRC is
lost, and the sessions handle whatever else reaches them. -/
inductive CommandStep
  | arrive (identity : Str)
  | complete (n : ℕ)
  | invalidate (identity : Str)
  | invalidateAll
  | revoke (now : ℚ) (identity : Str)
  | handle (now later : ℚ) (e : SessionSync.Event)

/-- The step invalidates the commands of a folded identity. -/
def CommandStep.invalidates (key : Str) : CommandStep → Bool
  | .invalidate identity | .revoke _ identity => casefold identity .ascii = key
  | .invalidateAll => true
  | .handle _ _ e => e.disconnects
  | _ => false

namespace CommandRuns

def init : CommandRuns := ⟨SessionSync.init, []⟩

/-- The commands of a folded identity -/
def inFlight (s : CommandRuns) (key : Str) : ℕ :=
  s.commands.countP fun identity => casefold identity .ascii = key

variable (S : SessionScope)

def step (s : CommandRuns) : CommandStep → Option CommandRuns
  | .arrive identity => some ⟨s.sessions.watchIdentity identity, s.commands ++ [identity]⟩
  | .complete n =>
    (s.commands[n]?).map fun identity =>
      ⟨s.sessions.unwatchIdentity identity, s.commands.eraseIdx n⟩
  | .invalidate identity => some { s with sessions := s.sessions.invalidate identity }
  | .invalidateAll => some { s with sessions := s.sessions.invalidateAll }
  | .revoke now identity => some { s with sessions := s.sessions.revoke S now identity }
  | .handle now later e =>
    if e.watches then none else some { s with sessions := s.sessions.handle S now later e }

variable {S} {s t : CommandRuns} {a : CommandStep} {as : List CommandStep} {key : Str}

theorem inFlight_pos : 0 < s.inFlight key ↔
    ∃ identity ∈ s.commands, casefold identity .ascii = key := by
  simp [inFlight, List.countP_pos_iff]

theorem inFlight_append (sessions : SessionSync) (commands : List Str) (identity key : Str) :
    inFlight ⟨sessions, commands ++ [identity]⟩ key =
      inFlight ⟨sessions, commands⟩ key + if casefold identity .ascii = key then 1 else 0 := by
  simp [inFlight, List.countP_append, List.countP_singleton]

theorem inFlight_eraseIdx (sessions : SessionSync) {commands : List Str} {identity : Str} {n : ℕ}
    (hn : commands[n]? = some identity) (key : Str) :
    inFlight ⟨sessions, commands⟩ key = inFlight ⟨sessions, commands.eraseIdx n⟩ key +
      if casefold identity .ascii = key then 1 else 0 := by
  obtain ⟨hlt, rfl⟩ := List.getElem?_eq_some_iff.mp hn
  have hperm := List.getElem_cons_eraseIdx_perm hlt
  simp only [inFlight]
  rw [← hperm.countP_eq, List.countP_cons]
  simp

/-- What one step does to the commands of a folded identity and to their watch -/
theorem step_cases (h : step S s a = some t) (key : Str) :
    (t.inFlight key = s.inFlight key + 1 ∧ a.invalidates key = false ∧
      Assoc.lookup key t.sessions.watchedIdentities =
        let entry := (Assoc.lookup key s.sessions.watchedIdentities).getD (0, false)
        some (entry.1 + 1, entry.2)) ∨
    (s.inFlight key = t.inFlight key + 1 ∧ a.invalidates key = false ∧
      Assoc.lookup key t.sessions.watchedIdentities =
        let entry := (Assoc.lookup key s.sessions.watchedIdentities).getD (1, true)
        if 1 < entry.1 then some (entry.1 - 1, entry.2) else none) ∨
    (t.inFlight key = s.inFlight key ∧
      Assoc.lookup key t.sessions.watchedIdentities =
        (Assoc.lookup key s.sessions.watchedIdentities).map fun entry =>
          (entry.1, entry.2 || a.invalidates key)) := by
  cases a with
  | arrive identity =>
    obtain rfl := Option.some.inj h
    have hcount := inFlight_append s.sessions s.commands identity key
    have hlookup := s.sessions.lookup_watchIdentity identity key
    by_cases hkey : casefold identity .ascii = key
    · rw [if_pos hkey] at hcount hlookup
      exact .inl ⟨hcount, rfl, hlookup⟩
    · rw [if_neg hkey] at hcount hlookup
      exact .inr (.inr ⟨hcount, by simp [hlookup, CommandStep.invalidates]⟩)
  | complete n =>
    obtain ⟨identity, hn, rfl⟩ := Option.map_eq_some_iff.mp h
    have hcount := inFlight_eraseIdx s.sessions hn key
    have hlookup := s.sessions.lookup_unwatchIdentity identity key
    by_cases hkey : casefold identity .ascii = key
    · rw [if_pos hkey] at hcount hlookup
      exact .inr (.inl ⟨hcount, rfl, hlookup⟩)
    · rw [if_neg hkey] at hcount hlookup
      exact .inr (.inr ⟨hcount.symm, by simp [hlookup, CommandStep.invalidates]⟩)
  | invalidate identity =>
    obtain rfl := Option.some.inj h
    exact .inr (.inr ⟨rfl, s.sessions.lookup_invalidate identity key⟩)
  | invalidateAll =>
    obtain rfl := Option.some.inj h
    refine .inr (.inr ⟨rfl, ?_⟩)
    simp only [SessionSync.lookup_invalidateAll, CommandStep.invalidates, Bool.or_true]
  | revoke now identity =>
    obtain rfl := Option.some.inj h
    refine .inr (.inr ⟨rfl, ?_⟩)
    rw [SessionSync.revoke_watchedIdentities]
    exact s.sessions.lookup_invalidate identity key
  | handle now later e =>
    simp only [step] at h
    split_ifs at h with he
    obtain rfl := Option.some.inj h
    exact .inr (.inr ⟨rfl, s.sessions.lookup_handle now later (by simpa using he) key⟩)

/-- The entry of an identity with `count` commands -/
def entry (count : ℕ) (invalidated : Bool) : Option (ℕ × Bool) :=
  if count = 0 then none else some (count, invalidated)

@[simp] theorem entry_zero (invalidated : Bool) : entry 0 invalidated = none := rfl

theorem entry_of_pos {count : ℕ} (h : 0 < count) (invalidated : Bool) :
    entry count invalidated = some (count, invalidated) := if_neg h.ne'

variable (S) in
/-- The table counts the commands of a folded identity after the run `as`, and tells whether
they were invalidated since there was none. -/
def Counted (key : Str) (as : List CommandStep) (s : CommandRuns) : Prop :=
  ∃ before since, Machine.LastTime (step S) (fun u => u.inFlight key = 0) init as before since ∧
    Assoc.lookup key s.sessions.watchedIdentities =
      entry (s.inFlight key) (since.any (CommandStep.invalidates key))

theorem counted_init (key : Str) : Counted S key [] init :=
  ⟨[], [], .here rfl rfl, rfl⟩

theorem counted_step (hs : Machine.run (step S) init as = some s) (h : Counted S key as s)
    (ha : step S s a = some t) : Counted S key (as ++ [a]) t := by
  have ht : Machine.run (step S) init (as ++ [a]) = some t :=
    Machine.run_append.mpr ⟨s, hs, Machine.run_cons_eq_some.mpr ⟨t, ha, rfl⟩⟩
  obtain ⟨before, since, hlast, hlookup⟩ := h
  rcases Nat.eq_zero_or_pos (t.inFlight key) with hidle | hpos
  · -- the last command is over, or there was none
    refine ⟨as ++ [a], [], .here ht hidle, ?_⟩
    rw [hidle, entry_zero]
    rcases step_cases ha key with ⟨hcount, -⟩ | ⟨hcount, -, heq⟩ | ⟨hcount, heq⟩
    · omega
    · rw [hidle] at hcount
      rw [heq, hlookup, hcount]
      rfl
    · rw [heq, hlookup, ← hcount, hidle]
      rfl
  · refine ⟨before, since ++ [a], hlast.snoc ht hpos.ne', ?_⟩
    rw [entry_of_pos hpos, List.any_append, List.any_cons, List.any_nil, Bool.or_false]
    rcases step_cases ha key with ⟨hcount, hquiet, heq⟩ | ⟨hcount, hquiet, heq⟩ | ⟨hcount, heq⟩
    · rw [heq, hlookup, hcount, hquiet, Bool.or_false]
      rcases Nat.eq_zero_or_pos (s.inFlight key) with hidle | hmore
      · -- the first command: nothing has happened since there was none
        obtain ⟨-, rfl⟩ := hlast.unique (.here hs hidle)
        simp [hidle]
      · rw [entry_of_pos hmore]
        rfl
    · have hmore : 0 < s.inFlight key := by omega
      rw [heq, hlookup, entry_of_pos hmore, hquiet, Bool.or_false]
      simp [hcount, hpos]
    · have hmore : 0 < s.inFlight key := by omega
      rw [heq, hlookup, entry_of_pos hmore, hcount]
      rfl

theorem counted (h : Machine.run (step S) init as = some s) (key : Str) : Counted S key as s :=
  Machine.run_trace_invariant (counted_init key)
    (fun _ _ _ _ hs hcounted ha => counted_step hs hcounted ha) h

theorem watches_count (h : Machine.run (step S) init as = some s) :
    (∀ key, (Assoc.lookup key s.sessions.watchedIdentities).isSome = true ↔
      ∃ identity ∈ s.commands, casefold identity .ascii = key) ∧
    (∀ key count invalidated,
      Assoc.lookup key s.sessions.watchedIdentities = some (count, invalidated) →
        count = s.inFlight key) ∧
    ∀ identity, s.sessions.watchedValid identity = true ↔
      (∃ other ∈ s.commands, casefold other .ascii = casefold identity .ascii) ∧
      ∃ before since, Machine.LastTime (step S)
          (fun u => u.inFlight (casefold identity .ascii) = 0) init as before since ∧
        ∀ a ∈ since, a.invalidates (casefold identity .ascii) = false := by
  refine ⟨?_, ?_, ?_⟩
  · intro key
    obtain ⟨before, since, -, hlookup⟩ := counted h key
    rw [← inFlight_pos, hlookup]
    rcases Nat.eq_zero_or_pos (s.inFlight key) with hidle | hpos
    · simp [hidle]
    · simp [entry_of_pos hpos, hpos]
  · intro key count invalidated hentry
    obtain ⟨before, since, -, hlookup⟩ := counted h key
    rw [hlookup] at hentry
    rcases Nat.eq_zero_or_pos (s.inFlight key) with hidle | hpos
    · simp [hidle] at hentry
    · rw [entry_of_pos hpos] at hentry
      exact (Prod.mk.inj (Option.some.inj hentry)).1.symm
  · intro identity
    obtain ⟨before, since, hlast, hlookup⟩ := counted h (casefold identity .ascii)
    rw [SessionSync.watchedValid_iff, ← inFlight_pos, hlookup]
    constructor
    · rintro ⟨count, hentry⟩
      rcases Nat.eq_zero_or_pos (s.inFlight (casefold identity .ascii)) with hidle | hpos
      · simp [hidle] at hentry
      · rw [entry_of_pos hpos] at hentry
        have hquiet := (Prod.mk.inj (Option.some.inj hentry)).2
        exact ⟨hpos, before, since, hlast, by simpa using hquiet⟩
    · rintro ⟨hpos, before', since', hlast', hquiet⟩
      obtain ⟨-, rfl⟩ := hlast.unique hlast'
      refine ⟨s.inFlight (casefold identity .ascii), ?_⟩
      rw [entry_of_pos hpos, List.any_eq_false.mpr (by simpa using hquiet)]

/-- Two spellings of one identity overlap; the one that comes after the QUIT stays invalid
when the other ends, under another casemapping. -/
def sampleOverlap : List CommandStep :=
  [.arrive (lit "A!u@h"), .invalidate (lit "a!u@h"), .arrive (lit "a!U@h"),
    .handle 0 0 (.casemapping .ascii), .complete 0]

theorem watches_count_overlap : ∃ s, Machine.run (step sampleScope) init sampleOverlap = some s ∧
    Assoc.lookup (lit "a!u@h") s.sessions.watchedIdentities = some (1, true) ∧
    s.inFlight (lit "a!u@h") = 1 ∧
    ∃ identity ∈ s.commands, casefold identity .ascii = lit "a!u@h" := by
  have hrun : ((Machine.run (step sampleScope) init sampleOverlap).any fun s => decide
      (Assoc.lookup (lit "a!u@h") s.sessions.watchedIdentities = some (1, true))) = true := by
    decide +kernel
  obtain ⟨s, hs, hstate⟩ := (Option.any_eq_true _ _).mp hrun
  have hentry := of_decide_eq_true hstate
  obtain ⟨hkeys, hcounts, -⟩ := watches_count hs
  exact ⟨s, hs, hentry, (hcounts _ _ _ hentry).symm, (hkeys _).mp (by rw [hentry]; rfl)⟩

end CommandRuns

end Botnats
