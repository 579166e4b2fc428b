import Botnats.SessionSync
import Botnats.SessionStore

/-!
# A bot and the sessions bucket

What a bot caches is never ahead of the bucket alone: every unexpired session in its
cache was written, or one of the same durable identity that ranks at least as high was
written, is queued, or is brought by a call that waits for the lock. Each operation of
the bot keeps this, whatever watch, casemapping and other identities do.
-/
namespace Botnats

open Json

namespace SessionSync

variable (S : SessionScope)

/-- The session is queued under its key. -/
def Pends (u : SessionSync) (x : Session) : Prop :=
  ∃ q, Assoc.lookup (casefold x.ircPrefix .ascii) u.pending = some q ∧
    parseSessionRecord S q.session = some x

/-- A call that waits for the lock brings the session. -/
def Waits (u : SessionSync) (x : Session) : Prop :=
  ∃ i d, .sync i d ∈ u.waiting ∧ casefold i .ascii = casefold x.ircPrefix .ascii ∧
    parseSessionRecord S d = some x

/-- A session of the same durable identity that ranks at least as high was written, or
the bot brings it. -/
def Backed (history : List (Str × Json)) (u : SessionSync) (y : Session) : Prop :=
  ∃ x, casefold x.ircPrefix .ascii = casefold y.ircPrefix .ascii ∧ y.order ≤ x.order ∧
    (Logged S history x ∨ u.Pends S x ∨ u.Waits S x)

/-- The queued entries, and those of the running drain -/
def Entry (u : SessionSync) (e : Str × Queued) : Prop :=
  e ∈ u.pending ∨ ∃ w, u.writing = some w ∧ e ∈ (w.key, w.entry) :: w.rest

/-- What holds of a bot at a clock reading, beside the history of the bucket. -/
structure BotInv (P : ℚ → Session → Prop) (now : ℚ) (history : List (Str × Json))
    (u : SessionSync) : Prop where
  sound : u.Sound
  records : ∀ s, u.authorizer.Caches s → P now s
  entries : ∀ e, u.Entry e → ∃ x, parseSessionRecord S e.2.session = some x ∧
    e.1 = casefold x.ircPrefix .ascii ∧ P now x
  waiting : ∀ i d, .sync i d ∈ u.waiting → ∃ x, parseSessionRecord S d = some x ∧
    casefold i .ascii = casefold x.ircPrefix .ascii ∧ P now x
  backed : ∀ s, u.authorizer.Caches s → now < s.expiresAt → Backed S history u s

variable {S} {P : ℚ → Session → Prop} {now later : ℚ} {history history' : List (Str × Json)}
  {u u' : SessionSync} {x y : Session}

/-- What one state is about to write is backed in the other until it expires. -/
def Carries (S : SessionScope) (now : ℚ) (history : List (Str × Json)) (u u' : SessionSync) :
    Prop := ∀ x, now < x.expiresAt → u.Pends S x ∨ u.Waits S x → Backed S history u' x

/-- What one state is about to write, or something of its identity that ranks at least as
high, the other is about to write until it expires. -/
def Passes (S : SessionScope) (now : ℚ) (u u' : SessionSync) : Prop :=
  ∀ x, now < x.expiresAt → u.Pends S x ∨ u.Waits S x → ∃ p,
    casefold p.ircPrefix .ascii = casefold x.ircPrefix .ascii ∧ x.order ≤ p.order ∧
      (u'.Pends S p ∨ u'.Waits S p)

theorem Passes.carries (h : Passes S now u u') : Carries S now history u u' := by
  intro x hlive hx
  obtain ⟨p, hfold, horder, hp⟩ := h x hlive hx
  exact ⟨p, hfold, horder, .inr hp⟩

/-- Where neither the queue nor the waiting calls shrink, everything is passed on. -/
theorem passes_of_eq (hp : u'.pending = u.pending) (hw : ∀ t ∈ u.waiting, t ∈ u'.waiting) :
    Passes S now u u' := by
  rintro x _ (hx | ⟨i, d, hmem, hx⟩)
  · refine ⟨x, rfl, le_rfl, .inl ?_⟩
    rw [Pends, hp]
    exact hx
  · exact ⟨x, rfl, le_rfl, .inr ⟨i, d, hw _ hmem, hx⟩⟩

theorem Backed.mono (h : Backed S history u y) (hsub : ∀ x ∈ history, x ∈ history') :
    Backed S history' u y := by
  obtain ⟨x, hfold, horder, hor⟩ := h
  exact ⟨x, hfold, horder, hor.imp_left fun hx => hx.mono hsub⟩

theorem backed_of_pends (h : u.Pends S y) : Backed S history u y := ⟨y, rfl, le_rfl, .inr (.inl h)⟩

theorem backed_of_waits (h : u.Waits S y) : Backed S history u y := ⟨y, rfl, le_rfl, .inr (.inr h)⟩

theorem backed_of_logged (h : Logged S history y) : Backed S history u y :=
  ⟨y, rfl, le_rfl, .inl h⟩

/-- A session is backed by one that is backed and ranks at least as high. -/
theorem Backed.above (h : Backed S history u x)
    (hfold : casefold x.ircPrefix .ascii = casefold y.ircPrefix .ascii)
    (horder : y.order ≤ x.order) : Backed S history u y := by
  obtain ⟨z, hzfold, hzorder, hz⟩ := h
  exact ⟨z, hzfold.trans hfold, horder.trans hzorder, hz⟩

theorem Backed.carries (h : Backed S history u y) (hc : Carries S now history u u')
    (hlive : now < y.expiresAt) : Backed S history u' y := by
  obtain ⟨x, hfold, horder, hx | hx⟩ := h
  · exact ⟨x, hfold, horder, .inl hx⟩
  · exact (hc x (hlive.trans_le (Session.expiresAt_le horder)) hx).above hfold horder

/-- What is queued under the key of a session reads as a session of its identity. -/
theorem pends_of_queuedSession {key : Str} {p : Session}
    (h : u.queuedSession S now key = some p) (hkey : key = casefold p.ircPrefix .ascii) :
    u.Pends S p := by
  obtain ⟨q, hq, hp⟩ := Option.bind_eq_some_iff.mp h
  exact ⟨q, hkey ▸ hq, (parseSession_eq_some.mp hp).1⟩

/-- The entries of a drain that has just taken its snapshot are the queued ones. -/
theorem entry_of_takes {q : SessionSync} {e : Str × Queued} (h : Takes q u) (he : u.Entry e) :
    q.Entry e := by
  rcases he with he | ⟨w, hw, he⟩
  · exact .inl (h.pending ▸ he)
  · exact .inl (h.drains w hw ▸ he)

/-- A write leaves the entries there were, but for the revocation it queues. -/
theorem entry_written {w : SessionWrite} {stored : Fields} {e : Str × Queued}
    {now₁ now₂ now₃ : ℚ} (hw : u.writing = some w)
    (he : (u.written S now₁ now₂ now₃ w stored).1.Entry e) :
    u.Entry e ∨ ∃ r, escalation S now₂ w.entry.session stored = some r ∧ e.1 = w.key ∧
      e.2.session = r.asdict := by
  have hrest : ∀ x ∈ w.rest, u.Entry x := fun x hx => .inr ⟨w, hw, List.mem_cons_of_mem _ hx⟩
  rcases he with he | ⟨w', hw', he⟩
  · obtain ⟨-, -, ⟨-, heq, -⟩ | ⟨-, ⟨r, hr, heq, -⟩ | ⟨-, heq, -⟩⟩⟩ :=
      written_cases (S := S) u now₁ now₂ now₃ w stored
    · rw [heq] at he
      exact .inl (.inl he)
    · rw [heq] at he
      rcases Assoc.mem_assign he with rfl | he
      · exact .inr ⟨r, hr, rfl, rfl⟩
      · exact .inl (.inl he)
    · rw [heq] at he
      exact .inl (.inl (List.mem_of_mem_filter he))
  · refine .inl (hrest e ?_)
    rw [SessionSync.written, proceed_eq] at hw'
    cases hr : w.rest with
    | nil => simp [hr] at hw'
    | cons x rest =>
      obtain ⟨key, entry⟩ := x
      rw [hr] at hw'
      obtain rfl := Option.some.inj hw'
      exact he

namespace BotInv

theorem init (S : SessionScope) (P : ℚ → Session → Prop) (now : ℚ)
    (history : List (Str × Json)) (m : Casemapping) :
    BotInv S P now history { SessionSync.init with authorizer := ⟨m, []⟩ } where
  sound := sound_init.congr rfl rfl rfl
  records := by simp [Authorizer.Caches]
  entries := by simp [Entry, SessionSync.init]
  waiting := by simp [SessionSync.init]
  backed := by simp [Authorizer.Caches]

theorem mono (hP : Admissible S P) (h : BotInv S P now history u) (hle : now ≤ later)
    (hsub : ∀ x ∈ history, x ∈ history') : BotInv S P later history' u where
  sound := h.sound
  records := fun s hs => hP.mono _ _ _ hle (h.records s hs)
  entries := by
    intro e he
    obtain ⟨x, hx, hkey, hPx⟩ := h.entries e he
    exact ⟨x, hx, hkey, hP.mono _ _ _ hle hPx⟩
  waiting := by
    intro i d hmem
    obtain ⟨x, hx, hfold, hPx⟩ := h.waiting i d hmem
    exact ⟨x, hx, hfold, hP.mono _ _ _ hle hPx⟩
  backed := fun s hs hlive => (h.backed s hs (hle.trans_lt hlive)).mono hsub

/-- The session that a queued dict reads as has its key. -/
theorem pends (h : BotInv S P now history u) (hx : u.Pends S x) : P now x := by
  obtain ⟨q, hq, hparse⟩ := hx
  obtain ⟨x', hx', -, hPx⟩ := h.entries (_, q) (.inl (Assoc.mem_of_lookup hq))
  rw [hparse] at hx'
  obtain rfl := Option.some.inj hx'
  exact hPx

/-- An operation of the bot: what it adopts is backed, and what it was about to write
is carried over. -/
theorem step {Q : Session → Prop} (h : BotInv S P now history u) (hsound : u'.Sound)
    (hadopts : Authorizer.Adopts Q u.authorizer u'.authorizer)
    (hnew : ∀ s, Q s → P now s ∧ (now < s.expiresAt → Backed S history u' s))
    (hentries : ∀ e, u'.Entry e → u.Entry e ∨ ∃ x, parseSessionRecord S e.2.session = some x ∧
      e.1 = casefold x.ircPrefix .ascii ∧ P now x)
    (hwaiting : ∀ i d, .sync i d ∈ u'.waiting → .sync i d ∈ u.waiting ∨
      ∃ x, parseSessionRecord S d = some x ∧
        casefold i .ascii = casefold x.ircPrefix .ascii ∧ P now x)
    (hcarries : Carries S now history u u') : BotInv S P now history u' where
  sound := hsound
  records := fun s hs => (hadopts s hs).elim (h.records s) fun hq => (hnew s hq).1
  entries := fun e he => (hentries e he).elim (h.entries e) id
  waiting := fun i d hmem => (hwaiting i d hmem).elim (h.waiting i d) id
  backed := by
    intro s hs hlive
    rcases hadopts s hs with hold | hq
    · exact (h.backed s hold hlive).carries hcarries hlive
    · exact (hnew s hq).2 hlive

/-- A change of the cache that adopts backed sessions alone. -/
theorem adopt {Q : Session → Prop} (h : BotInv S P now history u) (haside : Aside u u')
    (hadopts : Authorizer.Adopts Q u.authorizer u'.authorizer)
    (hnew : ∀ s, Q s → P now s ∧ (now < s.expiresAt → Backed S history u' s)) :
    BotInv S P now history u' := by
  refine h.step (h.sound.aside haside) hadopts hnew (fun e he => .inl ?_)
    (fun i d hmem => .inl (haside.waiting ▸ hmem)) ((passes_of_eq haside.pending ?_).carries)
  · simpa only [Entry, haside.pending, haside.writing] using he
  · rw [haside.waiting]
    exact fun _ ht => ht

/-- An event, if the watch reports what was written. -/
theorem handle (h : BotInv S P now history u) (earlier later : ℚ) (e : Event)
    (hobserve : ∀ key record replaying, e = .observe key record replaying →
      ∀ y, parseSessionRecord S record = some y → P now y ∧ Logged S history y) :
    BotInv S P now history (u.handle S earlier later e) := by
  refine h.adopt (aside_handle u earlier later e) (adopts_handle u earlier later e) ?_
  rintro s ⟨key, record, replaying, rfl, hs⟩
  obtain ⟨hPs, hlogged⟩ := hobserve key record replaying rfl s (parseSession_eq_some.mp hs).1
  exact ⟨hPs, fun _ => backed_of_logged hlogged⟩

/-- A call joins those that wait for the lock, and its session may be cached. -/
theorem wait (h : BotInv S P now history u) {a : Authorizer} {Q : Session → Prop}
    {task : SyncTask} (hadopts : Authorizer.Adopts Q u.authorizer a)
    (htask : ∀ i d, task = .sync i d → ∃ x, parseSessionRecord S d = some x ∧
      casefold i .ascii = casefold x.ircPrefix .ascii ∧ P now x)
    (hnew : ∀ s, Q s → ∃ i d, task = .sync i d ∧ parseSessionRecord S d = some s) :
    BotInv S P now history { u with authorizer := a, waiting := u.waiting ++ [task] } := by
  refine h.step (h.sound.congr rfl rfl rfl) hadopts (fun s hs => ?_) (fun _ he => .inl he)
    (fun i d hmem => ?_) ?_
  · obtain ⟨i, d, rfl, hd⟩ := hnew s hs
    obtain ⟨x, hx, hfold, hPx⟩ := htask i d rfl
    rw [hd] at hx
    obtain rfl := Option.some.inj hx
    exact ⟨hPx, fun _ => backed_of_waits ⟨i, d, by simp, hfold, hd⟩⟩
  · rcases List.mem_append.mp hmem with hmem | hmem
    · exact .inl hmem
    · exact .inr (htask i d (List.mem_singleton.mp hmem).symm)
  · have hpasses : Passes S now u { u with authorizer := a, waiting := u.waiting ++ [task] } :=
      passes_of_eq rfl fun _ ht => List.mem_append_left _ ht
    exact hpasses.carries

/-- `queue` keeps a session queued for every unexpired one that was, and for its own. -/
theorem queue (hP : Admissible S P) (h : BotInv S P now history u) (identity : Str)
    {session : Fields} (hx : parseSessionRecord S session = some x)
    (hfold : casefold identity .ascii = casefold x.ircPrefix .ascii) (hPx : P now x) :
    (∀ e, (u.queue S now identity session).Entry e → u.Entry e ∨
      ∃ x, parseSessionRecord S e.2.session = some x ∧
        e.1 = casefold x.ircPrefix .ascii ∧ P now x) ∧
    ∀ y, now < y.expiresAt → u.Pends S y ∨ y = x →
      ∃ p, casefold p.ircPrefix .ascii = casefold y.ircPrefix .ascii ∧ y.order ≤ p.order ∧
        (u.queue S now identity session).Pends S p := by
  have hentries : ∀ e, (u.queue S now identity session).Entry e → u.Entry e ∨
      ∃ x, parseSessionRecord S e.2.session = some x ∧
        e.1 = casefold x.ircPrefix .ascii ∧ P now x := by
    intro e he
    rcases queue_cases (S := S) u now identity session with ⟨heq, -⟩ | ⟨heq, -⟩
    · rw [heq] at he
      rcases he with he | he
      · rcases Assoc.mem_assign he with rfl | he
        · exact .inr ⟨x, hx, hfold, hPx⟩
        · exact .inl (.inl he)
      · exact .inl (.inr he)
    · rw [heq] at he
      exact .inl he
  -- what is queued under a key after the call is a session of that key
  have hqueued : ∀ key p, (u.queue S now identity session).queuedSession S now key = some p →
      casefold p.ircPrefix .ascii = key ∧ (u.queue S now identity session).Pends S p := by
    intro key p hp
    obtain ⟨q, hq, hparse⟩ := Option.bind_eq_some_iff.mp hp
    obtain ⟨p', hp', hkey, -⟩ := (hentries (key, q) (.inl (Assoc.mem_of_lookup hq))).elim
      (h.entries _) id
    rw [(parseSession_eq_some.mp hparse).1] at hp'
    obtain rfl := Option.some.inj hp'
    exact ⟨hkey.symm, pends_of_queuedSession hp hkey⟩
  refine ⟨hentries, fun y hlive hy => ?_⟩
  rcases hy with hy | rfl
  · have hPy := h.pends hy
    obtain ⟨q, hq, hparse⟩ := hy
    have hread : u.queuedSession S now (casefold y.ircPrefix .ascii) = some y := by
      rw [queuedSession, hq, Option.bind_some]
      exact parseSession_eq_some.mpr ⟨hparse, hlive, hP.horizon _ _ hPy⟩
    obtain ⟨p, hp, hle⟩ := queuedSession_queue identity session hread
    obtain ⟨hkey, hpends⟩ := hqueued _ p hp
    exact ⟨p, hkey, hle, hpends⟩
  · obtain ⟨p, hp, hle⟩ := queuedSession_handed u identity
      (parseSession_eq_some.mpr ⟨hx, hlive, hP.horizon _ _ hPx⟩)
    obtain ⟨hkey, hpends⟩ := hqueued _ p hp
    exact ⟨p, hkey.trans hfold, hle, hpends⟩

/-- What `revoke` finds to revoke, and the revocation it makes. -/
theorem revocation (hP : Admissible S P) (h : BotInv S P now history u) {identity : Str}
    {r : Session} {a : Authorizer} (hr : u.authorizer.revoke S identity = some (r, a)) :
    P now r ∧ r.Signed S := by
  obtain ⟨s, hs, hlive, rfl, -⟩ := Authorizer.revoke_eq_some hr
  have hPs := h.records s (Authorizer.caches_of_record hs)
  exact ⟨hP.revocation _ _ hPs hlive, (hP.valid _ _ hPs).signed _ _ _⟩

theorem invalidate (h : BotInv S P now history u) (identity : Str) :
    BotInv S P now history (u.invalidate identity) := by
  refine h.adopt (Q := fun _ => False) (aside_invalidate u identity) ?_ (by simp)
  rw [invalidate_authorizer]
  exact Authorizer.Adopts.refl _ _

/-- `revoke` queues the revocation and takes nothing away. -/
theorem revoke_passes (hP : Admissible S P) (h : BotInv S P now history u) (identity : Str) :
    Passes S now u (u.revoke S now identity) ∧
      ∀ r a, u.authorizer.revoke S identity = some (r, a) → now < r.expiresAt →
        ∃ p, casefold p.ircPrefix .ascii = casefold r.ircPrefix .ascii ∧ r.order ≤ p.order ∧
          (u.revoke S now identity).Pends S p := by
  have haside := aside_invalidate u identity
  rcases revoke_cases (S := S) u now identity with ⟨hnone, heq⟩ | ⟨r, a, hr, heq⟩
  · rw [heq]
    refine ⟨passes_of_eq haside.pending fun t ht => haside.waiting ▸ ht, fun r a hr => ?_⟩
    rw [hnone] at hr
    simp at hr
  · obtain ⟨hPr, hsigned⟩ := h.revocation hP hr
    obtain ⟨-, hqueued⟩ := (h.invalidate identity).queue hP r.ircPrefix hsigned.parse_asdict rfl hPr
    rw [heq]
    refine ⟨fun x hlive hx => ?_, fun r' a' hr' hlive => ?_⟩
    · rcases hx with hx | ⟨i, d, hmem, hx⟩
      · have hpends : (u.invalidate identity).Pends S x := by
          rw [Pends, haside.pending]
          exact hx
        obtain ⟨p, hfold, horder, hp⟩ := hqueued x hlive (.inl hpends)
        exact ⟨p, hfold, horder, .inl hp⟩
      · exact ⟨x, rfl, le_rfl, .inr ⟨i, d, List.mem_append_left _ hmem, hx⟩⟩
    · rw [hr] at hr'
      obtain ⟨rfl, rfl⟩ := Prod.mk.inj (Option.some.inj hr')
      exact hqueued r hlive (.inr rfl)

/-- The bot revokes a cached session, and queues the revocation. -/
theorem revoke (hP : Admissible S P) (h : BotInv S P now history u) (identity : Str) :
    BotInv S P now history (u.revoke S now identity) := by
  have hsound := h.sound.revoke (S := S) now identity
  obtain ⟨hpasses, hqueued⟩ := h.revoke_passes hP identity
  rcases revoke_cases (S := S) u now identity with ⟨-, heq⟩ | ⟨r, a, hr, heq⟩
  · rw [heq]
    exact h.invalidate identity
  · obtain ⟨hPr, hsigned⟩ := h.revocation hP hr
    have haside := aside_invalidate u identity
    obtain ⟨hentries, -⟩ := (h.invalidate identity).queue hP r.ircPrefix hsigned.parse_asdict rfl hPr
    refine h.step (Q := (· = r)) hsound ?_ (fun y hy => ?_) (fun e he => ?_)
      (fun i d hmem => .inl ?_) hpasses.carries
    · rw [heq]
      exact Authorizer.adopts_revoke hr
    · obtain rfl : y = r := hy
      refine ⟨hPr, fun hlive => ?_⟩
      obtain ⟨p, hfold, horder, hp⟩ := hqueued y a hr hlive
      exact ⟨p, hfold, horder, .inr (.inl hp)⟩
    · rw [heq] at he
      simpa only [Entry, haside.pending, haside.writing] using hentries e he
    · rw [heq] at hmem
      exact (List.mem_append.mp hmem).resolve_right (by simp)

/-- The call that gets the lock takes nothing away. -/
theorem acquire_passes (hP : Admissible S P) (h : BotInv S P now history u)
    {r : SessionSync × Option SyncOutcome} (hr : u.acquire S now = some r) :
    Passes S now u r.1 := by
  obtain ⟨-, ⟨identity, session, hwaiting, htakes⟩ | ⟨hwaiting, htakes⟩⟩ := acquire_cases hr
  · obtain ⟨x, hx, hfold, hPx⟩ := h.waiting identity session (by simp [hwaiting])
    obtain ⟨-, hqueued⟩ := h.queue hP _ hx hfold hPx
    have hpends : ∀ y, now < y.expiresAt → u.Pends S y ∨ y = x → ∃ p,
        casefold p.ircPrefix .ascii = casefold y.ircPrefix .ascii ∧ y.order ≤ p.order ∧
          (r.1.Pends S p ∨ r.1.Waits S p) := by
      intro y hylive hy
      obtain ⟨p, hpfold, horder, q, hq, hparse⟩ := hqueued y hylive hy
      exact ⟨p, hpfold, horder, .inl ⟨q, htakes.pending ▸ hq, hparse⟩⟩
    intro y hylive hy
    rcases hy with hy | ⟨i, d, hmem, hyi, hyd⟩
    · exact hpends y hylive (.inl hy)
    · rw [hwaiting] at hmem
      rcases List.mem_cons.mp hmem with heq | hmem
      · -- the call that got the lock has queued what it brought
        obtain ⟨rfl, rfl⟩ := SyncTask.sync.inj heq
        rw [hx] at hyd
        exact hpends y hylive (.inr (Option.some.inj hyd).symm)
      · exact ⟨y, rfl, le_rfl, .inr ⟨i, d, hmem, hyi, hyd⟩⟩
  · intro y hylive hy
    rcases hy with ⟨q, hq, hparse⟩ | ⟨i, d, hmem, hyi, hyd⟩
    · exact ⟨y, rfl, le_rfl, .inl ⟨q, htakes.pending ▸ hq, hparse⟩⟩
    · rw [hwaiting] at hmem
      exact ⟨y, rfl, le_rfl, .inr ⟨i, d, (List.mem_cons.mp hmem).resolve_left (by simp), hyi,
        hyd⟩⟩

/-- A call gets the lock. -/
theorem acquire (hP : Admissible S P) (h : BotInv S P now history u)
    {r : SessionSync × Option SyncOutcome} (hr : u.acquire S now = some r) :
    BotInv S P now history r.1 := by
  have hsound := h.sound.acquire (S := S) hr
  have hpasses := h.acquire_passes hP hr
  obtain ⟨-, ⟨identity, session, hwaiting, htakes⟩ | ⟨hwaiting, htakes⟩⟩ := acquire_cases hr
  · obtain ⟨x, hx, hfold, hPx⟩ := h.waiting identity session (by simp [hwaiting])
    obtain ⟨hentries, -⟩ := h.queue hP _ hx hfold hPx
    have hcache : r.1.authorizer = u.authorizer :=
      htakes.authorizer.trans (queue_authorizer u now identity session)
    refine h.step (Q := fun _ => False) hsound ?_ (by simp)
      (fun e he => hentries e (entry_of_takes htakes he)) (fun i d hmem => .inl ?_)
      hpasses.carries
    · rw [hcache]
      exact Authorizer.Adopts.refl _ _
    · rw [hwaiting]
      exact List.mem_cons_of_mem _ hmem
  · refine h.step (Q := fun _ => False) hsound ?_ (by simp)
      (fun e he => .inl (entry_of_takes htakes he)) (fun i d hmem => .inl ?_) hpasses.carries
    · rw [htakes.authorizer]
      exact Authorizer.Adopts.refl _ _
    · rw [hwaiting]
      exact List.mem_cons_of_mem _ hmem

/-- A call leaves the lock. -/
theorem leave (h : BotInv S P now history u) (task : SyncTask) :
    BotInv S P now history (u.leave task).1 := by
  refine h.step (Q := fun _ => False) (h.sound.leave task) (Authorizer.Adopts.refl _ _) (by simp)
    (fun e he => .inl ?_) (fun _ _ hmem => .inl hmem) (passes_of_eq rfl fun _ ht => ht).carries
  rcases he with he | ⟨w, hw, -⟩
  · exact .inl he
  · simp [SessionSync.leave] at hw

/-- The session of the entry under way -/
theorem writing (h : BotInv S P now history u) {w : SessionWrite} (hw : u.writing = some w) :
    ∃ x, parseSessionRecord S w.entry.session = some x ∧
      w.key = casefold x.ircPrefix .ascii ∧ P now x :=
  h.entries (w.key, w.entry) (.inr ⟨w, hw, List.mem_cons_self⟩)

/-- A write takes from the queue what gave way to the stored session alone. -/
theorem written_passes (h : BotInv S P now history u) {w : SessionWrite} {stored : Fields}
    (hw : u.writing = some w) (hfold : casefold y.ircPrefix .ascii = w.key)
    (hle : ∀ x, parseSessionRecord S w.entry.session = some x → x.order ≤ y.order)
    (now₁ now₂ now₃ : ℚ) {z : Session} (hz : u.Pends S z ∨ u.Waits S z) :
    casefold y.ircPrefix .ascii = casefold z.ircPrefix .ascii ∧ z.order ≤ y.order ∨
      (u.written S now₁ now₂ now₃ w stored).1.Pends S z ∨
      (u.written S now₁ now₂ now₃ w stored).1.Waits S z := by
  rcases hz with ⟨q, hq, hparse⟩ | ⟨i, d, hmem, hzi, hzd⟩
  · by_cases hzkey : w.key = casefold z.ircPrefix .ascii
    · rcases h.sound.written_lookup (S := S) hw now₁ now₂ now₃ stored with heq | hentry
      · refine .inr (.inl ⟨q, ?_, hparse⟩)
        rw [← hzkey, heq, hzkey]
        exact hq
      · -- the entry that was written gives way to the stored session
        rw [← hzkey, hentry] at hq
        obtain rfl := Option.some.inj hq
        exact .inl ⟨hfold.trans hzkey, hle z hparse⟩
    · refine .inr (.inl ⟨q, ?_, hparse⟩)
      rw [written_lookup_of_ne hzkey]
      exact hq
  · refine .inr (.inr ⟨i, d, ?_, hzi, hzd⟩)
    rw [written_waiting]
    exact hmem

/-- A write returned a stored session that ranks at least as high. -/
theorem written (hP : Admissible S P) (h : BotInv S P now history u) {w : SessionWrite}
    {stored : Fields} (hw : u.writing = some w) (hy : parseSessionRecord S stored = some y)
    (hfold : casefold y.ircPrefix .ascii = w.key) (hPy : P now y) (hlogged : Logged S history y)
    (hle : ∀ x, parseSessionRecord S w.entry.session = some x → x.order ≤ y.order)
    (now₁ now₂ now₃ : ℚ) :
    BotInv S P now history (u.written S now₁ now₂ now₃ w stored).1 := by
  have hsound := h.sound.written (S := S) hw now₁ now₂ now₃ stored
  obtain ⟨x, hx, hkey, hPx⟩ := h.writing hw
  have hadopts := adopts_written (S := S) u now₁ now₂ now₃ w stored
  -- the revocation of the winner is queued
  have hescalation : ∀ t r, escalation S t w.entry.session stored = some r →
      P now r ∧ r.Signed S ∧ casefold r.ircPrefix .ascii = w.key := by
    intro t r hr
    obtain ⟨v, hv, hvlive, rfl⟩ := escalation_eq_some hr
    rw [(parseSession_eq_some.mp hv).1] at hy
    obtain rfl := Option.some.inj hy
    exact ⟨hP.revocation _ _ hPy hvlive, (hP.valid _ _ hPy).signed _ _ _, hfold⟩
  refine h.step hsound hadopts ?_ (fun e he => ?_) (fun i d hmem => .inl ?_)
    (fun z _ hz => ?_)
  · rintro s (hs | ⟨r, q, hr, hq, hqr, hs⟩)
    · rw [(parseSession_eq_some.mp hs).1] at hy
      obtain rfl := Option.some.inj hy
      exact ⟨hPy, fun _ => backed_of_logged hlogged⟩
    · obtain ⟨hPr, hsigned, hrkey⟩ := hescalation _ r hr
      have hparse := (parseSession_eq_some.mp hs).1
      rw [hsigned.parse_asdict] at hparse
      obtain rfl := Option.some.inj hparse
      exact ⟨hPr, fun _ => backed_of_pends ⟨q, hrkey ▸ hq, hqr ▸ hsigned.parse_asdict⟩⟩
  · rcases entry_written hw he with he | ⟨r, hr, hekey, hesession⟩
    · exact .inl he
    · obtain ⟨hPr, hsigned, hrkey⟩ := hescalation _ r hr
      exact .inr ⟨r, hesession ▸ hsigned.parse_asdict, hekey.trans hrkey.symm, hPr⟩
  · rw [written_waiting] at hmem
    exact hmem
  · have hpasses : casefold y.ircPrefix .ascii = casefold z.ircPrefix .ascii ∧
        z.order ≤ y.order ∨ (u.written S now₁ now₂ now₃ w stored).1.Pends S z ∨
          (u.written S now₁ now₂ now₃ w stored).1.Waits S z :=
      h.written_passes hw hfold hle now₁ now₂ now₃ hz
    rcases hpasses with ⟨hzfold, horder⟩ | hz
    · exact (backed_of_logged hlogged).above hzfold horder
    · exact ⟨z, rfl, le_rfl, .inr hz⟩

end BotInv

end SessionSync

end Botnats
