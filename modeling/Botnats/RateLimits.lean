import Botnats.Assoc
import Botnats.SlidingWindow
import Botnats.Text

/-!
# The command limiter

`RateLimiter` of `commands.py`. The buckets stand in the order of their last use, the
least recent first. One that is evicted holds no event of a window that a later call
looks at, so that what the buckets hold is all that the limit depends on.
-/
namespace Botnats

open Sliding

/-- The bounds of a limiter; `capacity` is `MAX_RATE_BUCKETS`. -/
structure RateBounds where
  limit : ℕ
  window : ℚ
  capacity : ℕ
  limit_pos : 0 < limit
  window_pos : 0 < window
  capacity_pos : 0 < capacity

structure RateLimiter extends RateBounds where
  buckets : List (Str × List ℚ)

namespace RateLimiter

def init (bounds : RateBounds) : RateLimiter := ⟨bounds, []⟩

/-- `evict_stale`; there is a bucket to look at. -/
def evictStale (r : RateLimiter) (h : r.buckets ≠ []) (cutoff : ℚ) : Bool × RateLimiter :=
  let oldest := r.buckets.head h
  if oldest.2.getLast?.any fun last => cutoff < last then (false, r)
  else (true, { r with buckets := Assoc.discard oldest.1 r.buckets })

/-- What `check` does with the bucket of the key -/
def record (r : RateLimiter) (key : Str) (bucket : List ℚ) (now : ℚ) : Bool × RateLimiter :=
  let kept := bucket.dropWhile (· ≤ now - r.window)
  if r.limit ≤ kept.length then (false, { r with buckets := Assoc.putLast key kept r.buckets })
  else (true, { r with buckets := Assoc.putLast key (kept ++ [now]) r.buckets })

/-- `check` -/
def check (r : RateLimiter) (key : Str) (now : ℚ) : Bool × RateLimiter :=
  match Assoc.lookup key r.buckets with
  | some bucket => r.record key bucket now
  | none =>
    if hfull : r.capacity ≤ r.buckets.length then
      let oldest :=
        r.evictStale (List.ne_nil_of_length_pos (r.capacity_pos.trans_le hfull)) (now - r.window)
      if oldest.1 then oldest.2.record key [] now else (false, oldest.2)
    else r.record key [] now

/-- The times that the limiter holds for the key -/
def bucket (r : RateLimiter) (key : Str) : List ℚ := (Assoc.lookup key r.buckets).getD []

variable {r : RateLimiter} {key : Str} {now cutoff : ℚ}

theorem evictStale_cases (h : r.buckets ≠ []) (hordered : ∀ e ∈ r.buckets, e.2.Pairwise (· ≤ ·)) :
    r.evictStale h cutoff = (false, r) ∨
    ∃ old stale, Assoc.lookup old r.buckets = some stale ∧ (∀ t ∈ stale, t ≤ cutoff) ∧
      r.evictStale h cutoff = (true, { r with buckets := Assoc.discard old r.buckets }) := by
  unfold evictStale
  dsimp only
  split_ifs with hfresh
  · exact .inl rfl
  · right
    obtain ⟨first, rest, hbuckets⟩ := List.exists_cons_of_ne_nil h
    have hmem : first ∈ r.buckets := hbuckets ▸ List.mem_cons_self
    simp only [hbuckets, List.head_cons] at hfresh ⊢
    refine ⟨first.1, first.2, Assoc.lookup_cons_self _ _ _, ?_, rfl⟩
    cases hlast : first.2.getLast? with
    | none =>
      rw [List.getLast?_eq_none_iff] at hlast
      simp [hlast]
    | some last =>
      rw [hlast, Option.any_some, decide_eq_true_eq, not_lt] at hfresh
      exact fun t ht => (le_getLast (hordered first hmem) hlast t ht).trans hfresh

/-- The bucket of the key goes to the end with the times of the window, and with the call
where there is room for it. -/
theorem record_cases (r : RateLimiter) (key : Str) {bucket : List ℚ}
    (hordered : bucket.Pairwise (· ≤ ·)) (now : ℚ) :
    (r.limit ≤ (recent (now - r.window) bucket).length ∧ r.record key bucket now = (false,
      { r with buckets := Assoc.putLast key (recent (now - r.window) bucket) r.buckets })) ∨
    ((recent (now - r.window) bucket).length < r.limit ∧ r.record key bucket now = (true,
      { r with
        buckets := Assoc.putLast key (recent (now - r.window) bucket ++ [now]) r.buckets })) := by
  unfold record
  dsimp only
  rw [dropWhile_eq_recent hordered]
  split_ifs with hfull
  · exact .inl ⟨hfull, rfl⟩
  · exact .inr ⟨not_le.mp hfull, rfl⟩

/-- A call for a new key is refused at capacity. Every other call is judged by the bucket of
its key, after an eviction at most that takes no time of any window to come. -/
theorem check_cases (hsize : r.buckets.length ≤ r.capacity)
    (hordered : ∀ e ∈ r.buckets, e.2.Pairwise (· ≤ ·)) (key : Str) (now : ℚ) :
    (Assoc.lookup key r.buckets = none ∧ r.check key now = (false, r)) ∨
    ∃ rest : List (Str × List ℚ),
      r.check key now = { r with buckets := rest }.record key (r.bucket key) now ∧
      (∀ e ∈ rest, e ∈ r.buckets) ∧ (Assoc.discard key rest).length < r.capacity ∧
      ∀ k, recent (now - r.window) ((Assoc.lookup k rest).getD []) =
        recent (now - r.window) (r.bucket k) := by
  cases hlookup : Assoc.lookup key r.buckets with
  | some times =>
    refine .inr ⟨r.buckets, ?_, fun e he => he, ?_, fun k => rfl⟩
    · rw [check, bucket, hlookup]
      rfl
    · exact (Assoc.length_discard_lt (by rw [hlookup]; simp)).trans_le hsize
  | none =>
    unfold check bucket
    simp only [hlookup, Option.getD_none]
    by_cases hfull : r.capacity ≤ r.buckets.length
    · rw [dif_pos hfull]
      have hne : r.buckets ≠ [] := List.ne_nil_of_length_pos (r.capacity_pos.trans_le hfull)
      have hevicted : r.evictStale hne (now - r.window) = (false, r) ∨
          ∃ old stale, Assoc.lookup old r.buckets = some stale ∧ (∀ t ∈ stale, t ≤ now - r.window) ∧
            r.evictStale hne (now - r.window) =
              (true, { r with buckets := Assoc.discard old r.buckets }) :=
        evictStale_cases hne hordered
      rcases hevicted with heq | ⟨old, stale, hold, hstale, heq⟩
      · exact .inl ⟨trivial, by simp [heq]⟩
      · refine .inr ⟨Assoc.discard old r.buckets, by simp [heq],
          fun e he => List.mem_of_mem_filter he, ?_, fun k => ?_⟩
        · have hlt := Assoc.length_discard_lt (k := old) (by rw [hold]; simp)
          exact (Assoc.length_discard_le key _).trans_lt (hlt.trans_le hsize)
        · by_cases hk : old = k
          · subst hk
            rw [Assoc.lookup_discard_self, hold, Option.getD_none, Option.getD_some,
              recent_eq_nil hstale]
            rfl
          · rw [Assoc.lookup_discard_of_ne _ hk]
    · rw [dif_neg hfull]
      refine .inr ⟨r.buckets, rfl, fun e he => he, ?_, fun k => rfl⟩
      exact (Assoc.length_discard_le key _).trans_lt (not_le.mp hfull)

end RateLimiter

/-! ## Runs -/

structure RateCall where
  key : Str
  time : ℚ

/-- A limiter with the calls that it has answered -/
structure RateRun where
  limiter : RateLimiter
  log : List (RateCall × Bool)

namespace RateRun

def check (u : RateRun) (c : RateCall) : RateRun :=
  let (allowed, limiter) := u.limiter.check c.key c.time
  ⟨limiter, u.log ++ [(c, allowed)]⟩

/-- The times of the calls for the key that were allowed -/
def allowed (u : RateRun) (key : Str) : List ℚ :=
  (u.log.filter fun e => e.2 && e.1.key = key).map fun e => e.1.time

end RateRun

def RateLimiter.run (r : RateLimiter) (calls : List RateCall) : RateRun :=
  calls.foldl RateRun.check ⟨r, []⟩

/-- The limiter has seen the calls of the log alone, none of them later than `now`, and
holds every allowed time of a window that a call from now on looks at. -/
structure RateRun.Sound (bounds : RateBounds) (u : RateRun) (now : ℚ) : Prop where
  same : u.limiter.toRateBounds = bounds
  size : u.limiter.buckets.length ≤ bounds.capacity
  ordered : ∀ e ∈ u.limiter.buckets, e.2.Pairwise (· ≤ ·)
  held : ∀ e ∈ u.limiter.buckets, ∀ t ∈ e.2, t ≤ now
  past : ∀ e ∈ u.log, e.1.time ≤ now
  kept : ∀ key, recent (now - bounds.window) (u.allowed key) =
    recent (now - bounds.window) (u.limiter.bucket key)
  limited : ∀ key, Limited bounds.limit bounds.window (u.allowed key)

namespace RateRun

variable {bounds : RateBounds} {u : RateRun} {now next : ℚ} {c : RateCall}

theorem Sound.init (bounds : RateBounds) (now : ℚ) :
    Sound bounds ⟨RateLimiter.init bounds, []⟩ now where
  same := rfl
  size := Nat.zero_le _
  ordered := by simp [RateLimiter.init]
  held := by simp [RateLimiter.init]
  past := by simp
  kept _ := rfl
  limited _ := limited_nil _ _

theorem Sound.later (h : Sound bounds u now) (hle : now ≤ next) : Sound bounds u next where
  same := h.same
  size := h.size
  ordered := h.ordered
  held := fun e he t ht => (h.held e he t ht).trans hle
  past := fun e he => (h.past e he).trans hle
  kept := fun key => by
    have hcutoff := sub_le_sub_right hle bounds.window
    rw [← recent_recent hcutoff, h.kept key, recent_recent hcutoff]
  limited := h.limited

theorem Sound.allowed_past (h : Sound bounds u now) (key : Str) :
    ∀ t ∈ u.allowed key, t ≤ now := by
  intro t ht
  obtain ⟨e, he, rfl⟩ := List.mem_map.mp ht
  exact h.past e (List.mem_of_mem_filter he)

theorem allowed_check (u : RateRun) (c : RateCall) (key : Str) :
    (u.check c).allowed key = u.allowed key ++
      if (u.limiter.check c.key c.time).1 = true ∧ c.key = key then [c.time] else [] := by
  simp only [check, allowed, List.filter_append, List.map_append]
  congr 1
  by_cases hkey : c.key = key <;> cases (u.limiter.check c.key c.time).1 <;> simp [hkey]

/-- The bucket of the key is in order. -/
theorem Sound.bucket_ordered (h : Sound bounds u now) (key : Str) :
    (u.limiter.bucket key).Pairwise (· ≤ ·) := by
  unfold RateLimiter.bucket
  cases hlookup : Assoc.lookup key u.limiter.buckets with
  | none => exact List.Pairwise.nil
  | some times => exact h.ordered _ (Assoc.mem_of_lookup hlookup)

theorem Sound.bucket_held (h : Sound bounds u now) (key : Str) :
    ∀ t ∈ u.limiter.bucket key, t ≤ now := by
  unfold RateLimiter.bucket
  cases hlookup : Assoc.lookup key u.limiter.buckets with
  | none => simp
  | some times => exact h.held _ (Assoc.mem_of_lookup hlookup)

/-- A call leaves the other keys alone, but for an eviction; what it leaves of its own key
is stated. -/
theorem Sound.put (h : Sound bounds u now) {ok : Bool} {rest : List (Str × List ℚ)}
    {times : List ℚ}
    (hcheck : u.limiter.check c.key c.time =
      (ok, { u.limiter with buckets := Assoc.putLast c.key times rest }))
    (hsub : ∀ e ∈ rest, e ∈ u.limiter.buckets)
    (hroom : (Assoc.discard c.key rest).length < bounds.capacity)
    (hrest : ∀ k, recent (now - bounds.window) ((Assoc.lookup k rest).getD []) =
      recent (now - bounds.window) (u.limiter.bucket k))
    (hordered : times.Pairwise (· ≤ ·)) (hheld : ∀ t ∈ times, t ≤ now) (hc : c.time = now)
    (hkept : recent (now - bounds.window) ((u.check c).allowed c.key) =
      recent (now - bounds.window) times)
    (hlimited : Limited bounds.limit bounds.window ((u.check c).allowed c.key)) :
    Sound bounds (u.check c) now := by
  have hlimiter : (u.check c).limiter =
      { u.limiter with buckets := Assoc.putLast c.key times rest } := by
    simp only [RateRun.check, hcheck]
  have hother : ∀ key, c.key ≠ key → (u.check c).allowed key = u.allowed key := by
    intro key hkey
    rw [allowed_check, if_neg (by simp [hkey]), List.append_nil]
  constructor
  · rw [hlimiter]
    exact h.same
  · rw [hlimiter, Assoc.putLast, List.length_append, List.length_singleton]
    exact hroom
  · intro e he
    rw [hlimiter] at he
    rcases Assoc.mem_putLast he with rfl | he
    · exact hordered
    · exact h.ordered e (hsub e he)
  · intro e he
    rw [hlimiter] at he
    rcases Assoc.mem_putLast he with rfl | he
    · exact hheld
    · exact h.held e (hsub e he)
  · intro e he
    rcases List.mem_append.mp he with he | he
    · exact h.past e he
    · rw [List.mem_singleton.mp he]
      exact hc.le
  · intro key
    by_cases hkey : c.key = key
    · subst hkey
      rw [hkept, hlimiter, RateLimiter.bucket, Assoc.lookup_putLast_self, Option.getD_some]
    · rw [hother key hkey, hlimiter, RateLimiter.bucket, Assoc.lookup_putLast_of_ne _ _ hkey,
        hrest key, h.kept key]
  · intro key
    by_cases hkey : c.key = key
    · exact hkey ▸ hlimited
    · rw [hother key hkey]
      exact h.limited key

theorem Sound.check (h : Sound bounds u now) (hc : c.time = now) :
    Sound bounds (u.check c) now := by
  obtain rfl := h.same
  rcases RateLimiter.check_cases h.size h.ordered c.key c.time with
    ⟨-, hrefused⟩ | ⟨rest, hcheck, hsub, hroom, hrest⟩
  · have hsame : ∀ key, (u.check c).allowed key = u.allowed key := by
      intro key
      rw [allowed_check, hrefused, if_neg (by simp), List.append_nil]
    have hlimiter : (u.check c).limiter = u.limiter := by simp only [RateRun.check, hrefused]
    refine ⟨by rw [hlimiter], hlimiter ▸ h.size, hlimiter ▸ h.ordered, hlimiter ▸ h.held, ?_,
      fun key => by rw [hsame, hlimiter, h.kept], fun key => hsame key ▸ h.limited key⟩
    intro e he
    rcases List.mem_append.mp he with he | he
    · exact h.past e he
    · rw [List.mem_singleton.mp he]
      exact hc.le
  · subst hc
    set cutoff := c.time - u.limiter.window with hcutoff
    have hbucket := h.bucket_ordered c.key
    have hkeptOrdered : (recent cutoff (u.limiter.bucket c.key)).Pairwise (· ≤ ·) :=
      hbucket.filter _
    have hkeptHeld : ∀ t ∈ recent cutoff (u.limiter.bucket c.key), t ≤ c.time := fun t ht =>
      h.bucket_held c.key t (mem_recent.mp ht).1
    have hpast : cutoff < c.time := sub_lt_self _ u.limiter.window_pos
    rcases RateLimiter.record_cases { u.limiter with buckets := rest } c.key hbucket c.time with
      ⟨hfull, hrecord⟩ | ⟨hfree, hrecord⟩
    · have hallowed : (u.check c).allowed c.key = u.allowed c.key := by
        rw [allowed_check, hcheck, hrecord, if_neg (by simp), List.append_nil]
      refine h.put (hcheck.trans hrecord) hsub hroom hrest hkeptOrdered hkeptHeld rfl ?_ ?_
      · rw [hallowed, h.kept, recent_recent le_rfl]
      · exact hallowed ▸ h.limited c.key
    · have hallowed : (u.check c).allowed c.key = u.allowed c.key ++ [c.time] := by
        rw [allowed_check, hcheck, hrecord, if_pos ⟨rfl, rfl⟩]
      refine h.put (hcheck.trans hrecord) hsub hroom hrest ?_ ?_ rfl ?_ ?_
      · refine List.pairwise_append.mpr ⟨hkeptOrdered, List.pairwise_singleton _ _, ?_⟩
        intro t ht d hd
        rw [List.mem_singleton.mp hd]
        exact hkeptHeld t ht
      · intro t ht
        rcases List.mem_append.mp ht with ht | ht
        · exact hkeptHeld t ht
        · exact (List.mem_singleton.mp ht).le
      · rw [hallowed, recent_append, recent_append, h.kept, recent_recent le_rfl]
      · rw [hallowed]
        refine (h.limited c.key).append ?_
        rw [h.kept]
        exact hfree

/-- What holds at the last call holds after a run of calls that are in order. -/
theorem Sound.run (bounds : RateBounds) (calls : List RateCall)
    (hclock : calls.Pairwise fun a b => a.time ≤ b.time) (now : ℚ)
    (hnow : ∀ c ∈ calls, c.time ≤ now) :
    Sound bounds ((RateLimiter.init bounds).run calls) now := by
  induction calls using List.reverseRecOn generalizing now with
  | nil => exact Sound.init bounds now
  | append_singleton calls c ih =>
    obtain ⟨hbefore, -, hlast⟩ := List.pairwise_append.mp hclock
    have hsound := ih hbefore c.time fun d hd => hlast d hd c List.mem_cons_self
    rw [RateLimiter.run, List.foldl_append]
    exact (hsound.check rfl).later (hnow c (by simp))

end RateRun

/-- No window of a key holds more allowed calls than the limit, whatever was evicted, the
buckets stay within the capacity, and a call for a key that has a bucket is allowed exactly
if its window has room. -/
theorem limited_despite_eviction (bounds : RateBounds) (calls : List RateCall)
    (hclock : calls.Pairwise fun a b => a.time ≤ b.time) :
    let u := (RateLimiter.init bounds).run calls
    (∀ key t, (within bounds.window t (u.allowed key)).length ≤ bounds.limit) ∧
    u.limiter.buckets.length ≤ bounds.capacity ∧
    ∀ key now, (∀ c ∈ calls, c.time ≤ now) → Assoc.lookup key u.limiter.buckets ≠ none →
      ((u.limiter.check key now).1 = true ↔
        (within bounds.window now (u.allowed key)).length < bounds.limit) := by
  intro u
  have hlatest : ∃ latest, ∀ c ∈ calls, c.time ≤ latest := by
    cases hlast : calls.getLast? with
    | none => exact ⟨0, by simp [List.getLast?_eq_none_iff.mp hlast]⟩
    | some last =>
      obtain ⟨before, rfl⟩ := List.getLast?_eq_some_iff.mp hlast
      refine ⟨last.time, fun c hc => ?_⟩
      rcases List.mem_append.mp hc with hc | hc
      · exact (List.pairwise_append.mp hclock).2.2 c hc last List.mem_cons_self
      · exact (congrArg RateCall.time (List.mem_singleton.mp hc)).le
  obtain ⟨latest, hlatest⟩ := hlatest
  have hend := RateRun.Sound.run bounds calls hclock latest hlatest
  refine ⟨hend.limited, hend.size, fun key now hnow hbucket => ?_⟩
  have hsound := RateRun.Sound.run bounds calls hclock now hnow
  obtain ⟨times, htimes⟩ := Option.ne_none_iff_exists'.mp hbucket
  have hcheck : u.limiter.check key now = u.limiter.record key (u.limiter.bucket key) now := by
    rw [RateLimiter.check, RateLimiter.bucket, htimes]
    rfl
  have hsame : u.limiter.toRateBounds = bounds := hsound.same
  rw [within_eq_recent _ (hsound.allowed_past key), hsound.kept, hcheck]
  rcases u.limiter.record_cases key (hsound.bucket_ordered key) now with
    ⟨hfull, hrecord⟩ | ⟨hfree, hrecord⟩
  · rw [hsame] at hfull
    rw [hrecord]
    exact ⟨fun h => absurd h (by simp), fun h => absurd h hfull.not_gt⟩
  · rw [hsame] at hfree
    rw [hrecord]
    exact iff_of_true rfl hfree

/-- Two calls of one key in a window of two, with room for one bucket alone -/
def churn : List RateCall :=
  [⟨lit "a", 0⟩, ⟨lit "b", 1⟩, ⟨lit "a", 1⟩, ⟨lit "b", 2⟩, ⟨lit "b", 4⟩]

def narrow : RateBounds := ⟨1, 2, 1, by decide, by norm_num, by decide⟩

/-- The second key waits until the bucket of the first is stale. -/
theorem limited_despite_eviction_churn :
    ((RateLimiter.init narrow).run churn).log.map Prod.snd = [true, false, false, true, true] ∧
    (within 2 3 (((RateLimiter.init narrow).run churn).allowed (lit "b"))).length ≤ 1 ∧
    (((RateLimiter.init narrow).run churn).limiter.check (lit "b") 5).1 = false := by
  have hclock : churn.Pairwise fun a b => a.time ≤ b.time := by decide +kernel
  obtain ⟨hwindow, -, hexact⟩ := limited_despite_eviction narrow churn hclock
  refine ⟨by decide +kernel, hwindow (lit "b") 3, ?_⟩
  have hiff := hexact (lit "b") 5 (by decide +kernel) (by decide +kernel)
  exact Bool.eq_false_iff.mpr (mt hiff.mp (by decide +kernel))

end Botnats
