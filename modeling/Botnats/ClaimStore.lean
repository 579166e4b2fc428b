import Botnats.Machine
import Botnats.Bucket
import Botnats.Totp

/-!
# Single use of TOTP codes

`AuthFlow.authenticate` up to its grant step, with `ClaimStore.claim`, for any
number of bots. Time is the bucket's. A bot reads its own clock when it matches a
code; the `create` of its claim then travels on its own, takes effect within
`claimDelay` of the match if at all, and its answer may be lost. The bucket keeps
an entry for at least `claimTtl`.
-/
namespace Botnats

open Bucket

def claimTtl : ℚ := 300

/-- A claim takes effect within this time of the match before it. -/
def claimDelay : ℚ := 60

/-- `ClaimStore.key` -/
def claimKey (mac : Str → Str) (counter : ℤ) : Str :=
  signFields mac [lit "botnats-auth-claim-v1", integer counter]

/-- Where a run of `authenticate` waits; `granting` is its grant step. -/
inductive AuthPc
  | limiting
  | opening (counter : Option ℤ)
  | creating (counter : Option ℤ)
  | answered (counter : Option ℤ) (created : Bool)
  | granting (counter : ℤ)
  | failed
  deriving DecidableEq

structure AuthRun (β : Type*) where
  bot : β
  code : Str
  matchedAt : ℚ
  pc : AuthPc

structure ClaimWrite where
  run : ℕ
  key : Str
  matchedAt : ℚ
  deriving DecidableEq

/-- A claim that took effect, kept for the statements below. -/
structure Creation where
  run : ℕ
  key : Str
  matchedAt : ℚ
  time : ℚ

/-- A run is named by its position; `creations` has the newest first. -/
structure ClaimState (β : Type*) where
  now : ℚ
  bucket : Store Str Str
  createdAt : Str → ℚ
  runs : List (AuthRun β)
  net : List ClaimWrite
  creations : List Creation

inductive ClaimAction (β : Type*)
  | start (bot : β) (sender : Prefix) (arguments : List Str)
  | limited (i : ℕ) (allowed ready : Bool)
  | opened (i : ℕ)
  | land (n : ℕ)
  | reply (i : ℕ) (valid : Bool)
  | fail (i : ℕ)
  | tick (time : ℚ)
  | expire (key : Str)

/-- The entry checks of `authenticate`. -/
def authStart (sender : Prefix) : List Str → Option Str
  | [code] => if sender.complete then some code else none
  | _ => none

/-- Once the attempt limit has answered: the code is matched, and a claim is made
even for a wrong code, under the counter `-1`. A match that raises, or a mesh that
is not ready, ends the run. -/
def authLimited (allowed ready : Bool) (matched : Except Unit (Option ℤ)) : AuthPc :=
  if allowed then
    match matched with
    | .ok counter => if ready then .opening counter else .failed
    | .error _ => .failed
  else .failed

/-- Once the claim has answered. -/
def authClaimed (created valid : Bool) : Option ℤ → AuthPc
  | some counter => if created && valid then .granting counter else .failed
  | none => .failed

namespace AuthPc

/-- The counter that `match` returned. -/
def counter : AuthPc → Option ℤ
  | .opening counter | .creating counter | .answered counter _ => counter
  | .granting counter => some counter
  | _ => none

/-- The run waits for its claim. -/
def claiming : AuthPc → Bool
  | .opening _ | .creating _ | .answered _ _ => true
  | _ => false

/-- The run's claim took effect and its answer says so. -/
def won : AuthPc → Bool
  | .answered _ created => created
  | .granting _ => true
  | _ => false

end AuthPc

theorem authLimited_cases (allowed ready : Bool) (matched : Except Unit (Option ℤ)) :
    authLimited allowed ready matched = .failed ∨
      ∃ counter, matched = .ok counter ∧ authLimited allowed ready matched = .opening counter := by
  unfold authLimited
  cases allowed with
  | false => simp
  | true =>
    cases matched with
    | error e => simp
    | ok counter =>
      cases ready with
      | false => simp
      | true => exact .inr ⟨counter, rfl, rfl⟩

theorem authClaimed_cases (created valid : Bool) (counter : Option ℤ) :
    authClaimed created valid counter = .failed ∨
      created = true ∧ ∃ c, counter = some c ∧
        authClaimed created valid counter = .granting c := by
  cases counter with
  | none => exact .inl rfl
  | some c =>
    simp only [authClaimed]
    split_ifs with h
    · exact .inr ⟨(Bool.and_eq_true_iff.mp h).1, c, rfl, rfl⟩
    · exact .inl rfl

namespace ClaimState

variable {β : Type*}

def init (β : Type*) : ClaimState β := ⟨0, Store.empty Str Str, fun _ => 0, [], [], []⟩

section Step

variable (hmacSha1 : List Byte → Vector Byte 20) (mac : Str → Str) (clock : β → ℚ → ℚ)

/-- The write a run waits for, if it waits for one. -/
def waiting (i : ℕ) (r : AuthRun β) : Option ClaimWrite :=
  match r.pc with
  | .creating counter => some ⟨i, claimKey mac (counter.getD (-1)), r.matchedAt⟩
  | _ => none

/-- A run moves on; a claim it issues leaves for the bucket. -/
def goto (s : ClaimState β) (i : ℕ) (r : AuthRun β) (pc : AuthPc) : ClaimState β :=
  let r := { r with pc := pc }
  { s with runs := s.runs.set i r, net := (waiting mac i r).toList ++ s.net }

/-- The answer reaches the run if it still waits for this write. -/
def answer (s : ClaimState β) (w : ClaimWrite) (created : Bool) : ClaimState β :=
  match s.runs[w.run]? with
  | some r =>
    if waiting mac w.run r = some w then
      { s with runs := s.runs.set w.run { r with pc := .answered r.pc.counter created } }
    else s
  | none => s

def step (s : ClaimState β) : ClaimAction β → Option (ClaimState β)
  | .start bot sender arguments =>
    let run : AuthRun β :=
      match authStart sender arguments with
      | some code => ⟨bot, code, s.now, .limiting⟩
      | none => ⟨bot, [], s.now, .failed⟩
    some { s with runs := s.runs ++ [run] }
  | .limited i allowed ready =>
    match s.runs[i]? with
    | some r =>
      if r.pc = .limiting then
        let matched := matchCode hmacSha1 r.code (clock r.bot s.now)
        some (s.goto mac i { r with matchedAt := s.now } (authLimited allowed ready matched))
      else none
    | none => none
  | .opened i =>
    match s.runs[i]? with
    | some r =>
      match r.pc with
      | .opening counter => some (s.goto mac i r (.creating counter))
      | _ => none
    | none => none
  | .land n =>
    match s.net[n]? with
    | some w =>
      let s := { s with net := s.net.eraseIdx n }
      match s.bucket.create w.key (lit "1") with
      | some b =>
        if s.now ≤ w.matchedAt + claimDelay then
          some (({ s with
            bucket := b
            createdAt := Function.update s.createdAt w.key s.now
            creations := ⟨w.run, w.key, w.matchedAt, s.now⟩ :: s.creations } :
              ClaimState β).answer mac w true)
        else none
      | none => some (s.answer mac w false)
    | none => none
  | .reply i valid =>
    match s.runs[i]? with
    | some r =>
      match r.pc with
      | .answered counter created => some (s.goto mac i r (authClaimed created valid counter))
      | _ => none
    | none => none
  | .fail i =>
    match s.runs[i]? with
    | some r => if r.pc.claiming then some (s.goto mac i r .failed) else none
    | none => none
  | .tick time => if s.now ≤ time then some { s with now := time } else none
  | .expire key =>
    if (s.bucket.entries key).isSome ∧ s.createdAt key + claimTtl ≤ s.now then
      some { s with bucket := s.bucket.remove key }
    else none

end Step

/-! ## The invariant -/

section Invariant

variable {hmacSha1 : List Byte → Vector Byte 20} {mac : Str → Str} {clock : β → ℚ → ℚ}

/-- A run that holds a counter matched it at its own reading; a run whose claim
succeeded is the one that created the counter's key. -/
structure RunOk (hmacSha1 : List Byte → Vector Byte 20) (mac : Str → Str) (clock : β → ℚ → ℚ)
    (s : ClaimState β) (i : ℕ) (r : AuthRun β) : Prop where
  past : r.matchedAt ≤ s.now
  matched : ∀ c, r.pc.counter = some c →
    matchCode hmacSha1 r.code (clock r.bot r.matchedAt) = .ok (some c)
  won : r.pc.won → ∀ c, r.pc.counter = some c → ∃ time,
    ⟨i, claimKey mac c, r.matchedAt, time⟩ ∈ s.creations

/-- Creations of one key are a lifetime apart, each close to its match. -/
structure Inv (hmacSha1 : List Byte → Vector Byte 20) (mac : Str → Str) (clock : β → ℚ → ℚ)
    (s : ClaimState β) : Prop where
  runs : ∀ i r, s.runs[i]? = some r → RunOk hmacSha1 mac clock s i r
  sent : ∀ w ∈ s.net, w.matchedAt ≤ s.now
  prompt : ∀ c ∈ s.creations, c.matchedAt ≤ c.time ∧ c.time ≤ c.matchedAt + claimDelay
  held : ∀ key e, s.bucket.entries key = some e → ∀ c ∈ s.creations, c.key = key →
    c.time ≤ s.createdAt key
  absent : ∀ key, s.bucket.entries key = none → ∀ c ∈ s.creations, c.key = key →
    c.time + claimTtl ≤ s.now
  spaced : s.creations.Pairwise fun new old => new.key = old.key → old.time + claimTtl ≤ new.time

theorem inv_init : Inv hmacSha1 mac clock (init β) where
  runs := by simp [init]
  sent := by simp [init]
  prompt := by simp [init]
  held := by simp [init]
  absent := by simp [init]
  spaced := by simp [init]

theorem waiting_eq_some {i : ℕ} {r : AuthRun β} {w : ClaimWrite} (h : waiting mac i r = some w) :
    ∃ counter, r.pc = .creating counter ∧
      w = ⟨i, claimKey mac (counter.getD (-1)), r.matchedAt⟩ := by
  unfold waiting at h
  cases hpc : r.pc with
  | creating counter =>
    simp only [hpc, Option.some.injEq] at h
    exact ⟨counter, rfl, h.symm⟩
  | _ => simp [hpc] at h

theorem RunOk.failed {s : ClaimState β} {i : ℕ} {r : AuthRun β} (hpast : r.matchedAt ≤ s.now)
    (hpc : r.pc = .failed) : RunOk hmacSha1 mac clock s i r where
  past := hpast
  matched := by simp [hpc, AuthPc.counter]
  won := by simp [hpc, AuthPc.won]

/-- Time and creations go on without a run. -/
theorem RunOk.later {s t : ClaimState β} {i : ℕ} {r : AuthRun β} (h : RunOk hmacSha1 mac clock s i r)
    (hnow : s.now ≤ t.now) (hcreations : s.creations ⊆ t.creations) :
    RunOk hmacSha1 mac clock t i r where
  past := h.past.trans hnow
  matched := h.matched
  won hwon c hc := by
    obtain ⟨time, hmem⟩ := h.won hwon c hc
    exact ⟨time, hcreations hmem⟩

/-- Replacing one run by a sound one keeps the invariant. -/
theorem Inv.set {s : ClaimState β} (h : Inv hmacSha1 mac clock s) {i : ℕ} {r : AuthRun β}
    (hr : RunOk hmacSha1 mac clock s i r) :
    Inv hmacSha1 mac clock { s with runs := s.runs.set i r } := by
  refine { h with runs := ?_ }
  intro j d hd
  rw [List.getElem?_set] at hd
  split_ifs at hd with hij hlt
  · obtain rfl := Option.some.inj hd
    subst hij
    exact hr.later le_rfl (List.Subset.refl _)
  · exact (h.runs j d hd).later le_rfl (List.Subset.refl _)

theorem Inv.goto {s : ClaimState β} (h : Inv hmacSha1 mac clock s) {i : ℕ} {r : AuthRun β}
    {pc : AuthPc} (hr : RunOk hmacSha1 mac clock s i { r with pc := pc }) :
    Inv hmacSha1 mac clock (s.goto mac i r pc) := by
  refine { h.set hr with runs := ?_, sent := ?_ }
  · exact fun j d hd => ((h.set hr).runs j d hd).later le_rfl (List.Subset.refl _)
  · intro w hw
    rcases List.mem_append.mp hw with hw | hw
    · obtain ⟨_, _, rfl⟩ := waiting_eq_some (Option.mem_toList.mp hw)
      exact hr.past
    · exact h.sent w hw

/-- A claim takes effect only on a key that no claim has held for a lifetime. -/
theorem Inv.created {s : ClaimState β} (h : Inv hmacSha1 mac clock s) {n : ℕ} {w : ClaimWrite}
    (hn : s.net[n]? = some w) (habs : s.bucket.entries w.key = none)
    (hprompt : s.now ≤ w.matchedAt + claimDelay) :
    Inv hmacSha1 mac clock { s with
      bucket := s.bucket.write w.key (lit "1")
      net := s.net.eraseIdx n
      createdAt := Function.update s.createdAt w.key s.now
      creations := ⟨w.run, w.key, w.matchedAt, s.now⟩ :: s.creations } := by
  have hclear := h.absent w.key habs
  have hold : ∀ c ∈ s.creations, c.key = w.key → c.time ≤ s.now := by
    intro c hc hk
    have := hclear c hc hk
    simp only [claimTtl] at this
    linarith
  refine { runs := ?_, sent := ?_, prompt := ?_, held := ?_, absent := ?_, spaced := ?_ }
  · intro i r hr
    exact (h.runs i r hr).later le_rfl (List.subset_cons_self _ _)
  · exact fun v hv => h.sent v (List.mem_of_mem_eraseIdx hv)
  · intro c hc
    rcases List.mem_cons.mp hc with rfl | hc
    · exact ⟨h.sent w (List.mem_of_getElem? hn), hprompt⟩
    · exact h.prompt c hc
  · intro key e he c hc hk
    by_cases hkey : key = w.key
    · subst hkey
      simp only [Function.update_self]
      rcases List.mem_cons.mp hc with rfl | hc
      · exact le_rfl
      · exact hold c hc hk
    · simp only [Function.update_of_ne hkey]
      simp only [s.bucket.write_entries_of_ne _ hkey] at he
      rcases List.mem_cons.mp hc with rfl | hc
      · exact absurd hk.symm hkey
      · exact h.held key e he c hc hk
  · intro key hnone c hc hk
    by_cases hkey : key = w.key
    · subst hkey
      simp at hnone
    · simp only [s.bucket.write_entries_of_ne _ hkey] at hnone
      rcases List.mem_cons.mp hc with rfl | hc
      · exact absurd hk.symm hkey
      · exact h.absent key hnone c hc hk
  · exact List.pairwise_cons.mpr ⟨fun c hc hk => hclear c hc hk.symm, h.spaced⟩

/-- The answer of a claim that took effect is on record. -/
theorem Inv.answer {s : ClaimState β} (h : Inv hmacSha1 mac clock s) {w : ClaimWrite}
    {created : Bool}
    (hc : created = true → ∃ time, ⟨w.run, w.key, w.matchedAt, time⟩ ∈ s.creations) :
    Inv hmacSha1 mac clock (s.answer mac w created) := by
  unfold ClaimState.answer
  split
  · rename_i r hr
    split_ifs with hw
    · have hrun := h.runs _ r hr
      obtain ⟨counter, hpc, hwr⟩ := waiting_eq_some hw
      refine h.set ⟨hrun.past, hrun.matched, ?_⟩
      intro hwon c hcounter
      obtain ⟨time, hmem⟩ := hc hwon
      have hcc : counter = some c := by simpa [hpc, AuthPc.counter] using hcounter
      rw [hwr, hcc] at hmem
      exact ⟨time, by rw [hwr]; exact hmem⟩
    · exact h
  · exact h

/-- A run that ends without a grant. -/
theorem Inv.end {s : ClaimState β} (h : Inv hmacSha1 mac clock s) {i : ℕ} {r : AuthRun β}
    (hpast : r.matchedAt ≤ s.now) : Inv hmacSha1 mac clock (s.goto mac i r .failed) :=
  h.goto (RunOk.failed hpast rfl)

/-- A claim is gone a lifetime after it was created. -/
theorem Inv.expire {s : ClaimState β} (h : Inv hmacSha1 mac clock s) {key : Str}
    (hsome : (s.bucket.entries key).isSome) (hold : s.createdAt key + claimTtl ≤ s.now) :
    Inv hmacSha1 mac clock { s with bucket := s.bucket.remove key } := by
  obtain ⟨e, he⟩ := Option.isSome_iff_exists.mp hsome
  refine { h with runs := ?_, held := ?_, absent := ?_ }
  · exact fun i r hr => (h.runs i r hr).later le_rfl (List.Subset.refl _)
  · intro k e' he' c hc hk
    by_cases hkey : k = key
    · subst hkey
      simp at he'
    · simp only [s.bucket.remove_entries_of_ne hkey] at he'
      exact h.held k e' he' c hc hk
  · intro k hnone c hc hk
    by_cases hkey : k = key
    · subst hkey
      have hcreated := h.held k e he c hc hk
      linarith
    · simp only [s.bucket.remove_entries_of_ne hkey] at hnone
      exact h.absent k hnone c hc hk

/-- Every step keeps the invariant. -/
theorem Inv.step {s t : ClaimState β} {a : ClaimAction β} (h : Inv hmacSha1 mac clock s)
    (hst : step hmacSha1 mac clock s a = some t) : Inv hmacSha1 mac clock t := by
  cases a with
  | start bot sender arguments =>
    obtain rfl := Option.some.inj hst
    refine { h with runs := ?_ }
    intro i r hr
    rw [List.getElem?_append] at hr
    split_ifs at hr with hi
    · exact (h.runs i r hr).later le_rfl (List.Subset.refl _)
    · obtain rfl := List.mem_singleton.mp (List.mem_of_getElem? hr)
      cases authStart sender arguments with
      | none => exact RunOk.failed le_rfl rfl
      | some code => exact ⟨le_rfl, by simp [AuthPc.counter], by simp [AuthPc.won]⟩
  | limited i allowed ready =>
    simp only [ClaimState.step] at hst
    split at hst
    · rename_i r hr
      split_ifs at hst with hpc
      obtain rfl := Option.some.inj hst
      rcases authLimited_cases allowed ready (matchCode hmacSha1 r.code (clock r.bot s.now))
        with hl | ⟨counter, hm, hl⟩
      · rw [hl]
        exact h.end le_rfl
      · rw [hl]
        refine h.goto ⟨le_rfl, ?_, by simp [AuthPc.won]⟩
        intro c hc
        obtain rfl : counter = some c := hc
        exact hm
    · simp at hst
  | opened i =>
    simp only [ClaimState.step] at hst
    split at hst
    · rename_i r hr
      split at hst
      · rename_i counter hpc
        obtain rfl := Option.some.inj hst
        have hrun := h.runs i r hr
        refine h.goto ⟨hrun.past, fun c hc => hrun.matched c ?_, by simp [AuthPc.won]⟩
        simpa [hpc, AuthPc.counter] using hc
      · simp at hst
    · simp at hst
  | land n =>
    simp only [ClaimState.step] at hst
    split at hst
    · rename_i w hn
      split at hst
      · rename_i b hb
        obtain ⟨habs, rfl⟩ := Store.create_eq_some.mp hb
        split_ifs at hst with hprompt
        obtain rfl := Option.some.inj hst
        exact (h.created hn habs hprompt).answer fun _ => ⟨s.now, List.mem_cons_self⟩
      · obtain rfl := Option.some.inj hst
        have hdrop : Inv hmacSha1 mac clock { s with net := s.net.eraseIdx n } := {
          h with
          runs := fun i r hr => (h.runs i r hr).later le_rfl (List.Subset.refl _)
          sent := fun v hv => h.sent v (List.mem_of_mem_eraseIdx hv) }
        exact hdrop.answer (by simp)
    · simp at hst
  | reply i valid =>
    simp only [ClaimState.step] at hst
    split at hst
    · rename_i r hr
      split at hst
      · rename_i counter created hpc
        obtain rfl := Option.some.inj hst
        have hrun := h.runs i r hr
        rcases authClaimed_cases created valid counter with hf | ⟨hcr, c, hc, hg⟩
        · rw [hf]
          exact h.end hrun.past
        · rw [hg]
          subst hcr hc
          refine h.goto ⟨hrun.past, fun d hd => hrun.matched d ?_, fun _ d hd => ?_⟩
          · simpa [hpc, AuthPc.counter] using hd
          · refine hrun.won (by simp [hpc, AuthPc.won]) d ?_
            simpa [hpc, AuthPc.counter] using hd
      · simp at hst
    · simp at hst
  | fail i =>
    simp only [ClaimState.step] at hst
    split at hst
    · rename_i r hr
      split_ifs at hst
      obtain rfl := Option.some.inj hst
      exact h.end (h.runs i r hr).past
    · simp at hst
  | tick time =>
    simp only [ClaimState.step] at hst
    split_ifs at hst with hle
    obtain rfl := Option.some.inj hst
    refine { h with runs := ?_, sent := ?_, absent := ?_ }
    · exact fun i r hr => (h.runs i r hr).later hle (List.Subset.refl _)
    · exact fun w hw => (h.sent w hw).trans hle
    · exact fun key hnone c hc hk => (h.absent key hnone c hc hk).trans hle
  | expire key =>
    simp only [ClaimState.step] at hst
    split_ifs at hst with hold
    obtain rfl := Option.some.inj hst
    exact h.expire hold.1 hold.2

end Invariant

/-- Run `i` reached its grant step with its claim of `counter` successful. -/
def Granting (s : ClaimState β) (counter : ℤ) (i : ℕ) : Prop :=
  ∃ r, s.runs[i]? = some r ∧ r.pc = .granting counter

section Once

variable {hmacSha1 : List Byte → Vector Byte 20} {mac : Str → Str} {clock : β → ℚ → ℚ}
  {s : ClaimState β}

/-- A creation a lifetime after another of the same counter comes from a match whose
reading is out of the counter's window. -/
theorem Inv.not_later (h : Inv hmacSha1 mac clock s)
    (agree : ∀ b b' t t', |(clock b t - t) - (clock b' t' - t')| ≤ 100) {i j : ℕ}
    {r r' : AuthRun β} (hr : s.runs[i]? = some r) (hr' : s.runs[j]? = some r') {counter : ℤ}
    (hc : r.pc.counter = some counter) (hc' : r'.pc.counter = some counter) {key : Str}
    {time time' : ℚ} (hmem : ⟨i, key, r.matchedAt, time⟩ ∈ s.creations)
    (hmem' : ⟨j, key, r'.matchedAt, time'⟩ ∈ s.creations) : time' < time + claimTtl := by
  by_contra hge
  have hwin := matchCode_window ((h.runs i r hr).matched counter hc)
    ((h.runs j r' hr').matched counter hc')
  have hlo := (h.prompt _ hmem).1
  have hhi := (h.prompt _ hmem').2
  have hskew := (abs_le.mp (agree r.bot r'.bot r.matchedAt r'.matchedAt)).2
  simp only [totpPeriod, claimTtl, claimDelay, not_lt] at *
  linarith

theorem Inv.once (h : Inv hmacSha1 mac clock s)
    (agree : ∀ b b' t t', |(clock b t - t) - (clock b' t' - t')| ≤ 100) (counter : ℤ) :
    {i | Granting s counter i}.Subsingleton := by
  intro i hi j hj
  obtain ⟨r, hr, hpc⟩ := hi
  obtain ⟨r', hr', hpc'⟩ := hj
  have hc : r.pc.counter = some counter := by simp [hpc, AuthPc.counter]
  have hc' : r'.pc.counter = some counter := by simp [hpc', AuthPc.counter]
  obtain ⟨time, hmem⟩ := (h.runs i r hr).won (by simp [hpc, AuthPc.won]) counter hc
  obtain ⟨time', hmem'⟩ := (h.runs j r' hr').won (by simp [hpc', AuthPc.won]) counter hc'
  have hlt := h.not_later agree hr hr' hc hc' hmem hmem'
  have hgt := h.not_later agree hr' hr hc' hc hmem' hmem
  by_contra hij
  obtain ⟨m, hm, hme⟩ := List.mem_iff_getElem.mp hmem
  obtain ⟨n, hn, hne⟩ := List.mem_iff_getElem.mp hmem'
  have hmn : m ≠ n := by
    intro hmn
    subst hmn
    rw [hme] at hne
    exact hij (Creation.mk.inj hne).1
  have hpair := List.pairwise_iff_getElem.mp h.spaced
  rcases Nat.lt_or_gt_of_ne hmn with hlt' | hlt'
  · have hsp := hpair m n hm hn hlt'
    rw [hme, hne] at hsp
    have := hsp rfl
    linarith
  · have hsp := hpair n m hn hm hlt'
    rw [hme, hne] at hsp
    have := hsp rfl
    linarith

end Once

/-- With clocks whose offsets from the bucket's time stay within 100 seconds of
each other, at most one run reaches its grant step with a given counter. -/
theorem claim_once (hmacSha1 : List Byte → Vector Byte 20) (mac : Str → Str)
    (clock : β → ℚ → ℚ) (agree : ∀ b b' t t', |(clock b t - t) - (clock b' t' - t')| ≤ 100)
    (s : ClaimState β) (h : Machine.Reachable (step hmacSha1 mac clock) (init β) s) (counter : ℤ) :
    {i | Granting s counter i}.Subsingleton := by
  have hinv : Inv hmacSha1 mac clock s :=
    h.invariant (fun _ _ _ hi hst => hi.step hst) inv_init
  exact hinv.once agree counter

/-- The digests of the counters 0, 1 and 2 under the key `12345678901234567890`. -/
def sampleDigest (message : List Byte) : Vector Byte 20 :=
  match message.getLast? with
  | some 0 =>
    #v[204, 147, 207, 24, 80, 141, 148, 147, 76, 100, 182, 93, 139, 167, 102, 127, 183, 205, 228, 176]
  | some 1 =>
    #v[117, 164, 138, 25, 212, 203, 225, 0, 100, 78, 138, 193, 57, 126, 234, 116, 122, 45, 51, 171]
  | some 2 =>
    #v[11, 172, 183, 250, 8, 47, 239, 48, 120, 34, 17, 147, 139, 193, 197, 231, 4, 22, 255, 68]
  | _ => Vector.replicate 20 0

example : totp sampleDigest 1 = some (lit "287082") := by decide

/-- Two bots with clocks 45 seconds apart receive one code at the same time. -/
def replayedCode : List (ClaimAction Bool) :=
  [.start true ⟨lit "a", some (lit "u"), some (lit "h")⟩ [lit "287082"],
    .start false ⟨lit "b", some (lit "u"), some (lit "h")⟩ [lit "287082"],
    .limited 0 true true, .limited 1 true true, .opened 1, .opened 0, .tick 60, .land 0, .land 0,
    .reply 1 true, .reply 0 true]

theorem claim_once_replayed : ∃ s,
    Machine.run (step sampleDigest id fun b t => t + cond b 30 75) (init Bool) replayedCode =
      some s ∧
    s.runs.map AuthRun.pc = [.granting 1, .failed] ∧ {i | Granting s 1 i}.Subsingleton := by
  have hrun : (Machine.run (step sampleDigest id fun b t => t + cond b 30 75) (init Bool)
      replayedCode).map (fun s => s.runs.map AuthRun.pc) = some [.granting 1, .failed] := by
    decide +kernel
  obtain ⟨s, hs, hpc⟩ := Option.map_eq_some_iff.mp hrun
  refine ⟨s, hs, hpc, claim_once sampleDigest id _ ?_ s ⟨replayedCode, hs⟩ 1⟩
  intro b b' t t'
  cases b <;> cases b' <;> norm_num

end ClaimState
end Botnats
