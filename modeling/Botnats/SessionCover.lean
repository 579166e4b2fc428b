import Botnats.SessionBot
import Botnats.AuthorizerRekey

/-!
# What comes to the cache of a bot

While the casemapping stays, an unexpired cached session gives way only to one of its fold
that ranks at least as high, unless the watch takes it away. A session that is cached,
queued, brought by a call that waits for the lock, or written where the watch has not come
yet is coming to the bot, and the operations of the bot keep it so.
-/
namespace Botnats

open Json History

namespace Authorizer

/-- For every unexpired session that one table caches, the other caches one of its fold
that ranks at least as high. -/
def Raises (now : ℚ) (a b : Authorizer) : Prop :=
  ∀ x, a.Caches x → now < x.expiresAt →
    ∃ y, b.Caches y ∧ a.fold y.ircPrefix = a.fold x.ircPrefix ∧ x.order ≤ y.order

variable {S : SessionScope} {a b c : Authorizer} {now : ℚ} {s r x : Session} {identity : Str}

theorem Raises.refl (now : ℚ) (a : Authorizer) : Raises now a a :=
  fun x hx _ => ⟨x, hx, rfl, le_rfl⟩

theorem Raises.trans (h : Raises now a b) (h' : Raises now b c)
    (hm : b.casemapping = a.casemapping) : Raises now a c := by
  intro x hx hlive
  obtain ⟨y, hy, hfold, horder⟩ := h x hx hlive
  obtain ⟨z, hz, hzfold, hzorder⟩ := h' y hy (hlive.trans_le (Session.expiresAt_le horder))
  refine ⟨z, hz, ?_, horder.trans hzorder⟩
  rw [fold, fold, hm] at hzfold
  exact hzfold.trans hfold

/-- A session replaces the one of its fold, which ranks no higher. -/
theorem Keyed.raises_store (h : a.Keyed)
    (hs : ∀ x, a.record s.ircPrefix = some x → now < x.expiresAt → x.order ≤ s.order) :
    Raises now a (a.store s) := by
  intro x hx hlive
  have hrecord := h.record_of_caches hx
  by_cases hfold : a.fold s.ircPrefix = a.fold x.ircPrefix
  · exact ⟨s, ⟨_, Assoc.mem_of_lookup (Assoc.lookup_assign_self _ _ _)⟩, hfold,
      hs x ((record_congr hfold).trans hrecord) hlive⟩
  · refine ⟨x, ⟨a.fold x.ircPrefix, Assoc.mem_of_lookup ?_⟩, rfl, le_rfl⟩
    exact (Assoc.lookup_assign_of_ne _ _ hfold).trans hrecord

theorem Keyed.raises_keep (h : a.Keyed) (s : Session) : Raises now a (a.keep s) := by
  unfold Authorizer.keep
  split
  · rename_i hnone
    exact h.raises_store fun x hx => absurd (hnone.symm.trans hx) (by simp)
  · rename_i y hy
    split_ifs with hlt
    · refine h.raises_store fun x hx _ => ?_
      obtain rfl := Option.some.inj (hy.symm.trans hx)
      exact hlt.le
    · exact Raises.refl now a

/-- What was kept is cached, or outranked. -/
theorem caches_keep (a : Authorizer) (s : Session) : ∃ y, (a.keep s).Caches y ∧
    s.order ≤ y.order ∧ (a.Keyed → a.fold y.ircPrefix = a.fold s.ircPrefix) := by
  unfold keep
  split
  · exact ⟨s, ⟨_, Assoc.mem_of_lookup (Assoc.lookup_assign_self _ _ _)⟩, le_rfl, fun _ => rfl⟩
  · rename_i y hy
    split_ifs with hlt
    · exact ⟨s, ⟨_, Assoc.mem_of_lookup (Assoc.lookup_assign_self _ _ _)⟩, le_rfl, fun _ => rfl⟩
    · exact ⟨y, caches_of_record hy, not_lt.mp hlt, fun h => h.record hy⟩

theorem Keyed.raises_importSession (h : a.Keyed) (later : ℚ) (value : Fields) :
    Raises now a (a.importSession S later value) := by
  unfold Authorizer.importSession
  split
  · exact Raises.refl now a
  · exact h.raises_keep _

theorem Keyed.raises_get (h : a.Keyed) (identity : Str) : Raises now a (a.get now identity).2 := by
  unfold Authorizer.get
  split
  · exact Raises.refl now a
  · rename_i s hs
    split_ifs with hexpired hrevoked
    · intro x hx hlive
      have hrecord := h.record_of_caches hx
      refine ⟨x, ⟨a.fold x.ircPrefix, Assoc.mem_of_lookup ?_⟩, rfl, le_rfl⟩
      -- only the expired record leaves
      have hne : a.fold identity ≠ a.fold x.ircPrefix := by
        intro hfold
        rw [record_congr hfold] at hs
        obtain rfl := Option.some.inj (hs.symm.trans hrecord)
        exact absurd hlive (not_lt.mpr hexpired)
      exact (Assoc.lookup_discard_of_ne _ hne).trans hrecord
    · exact Raises.refl now a
    · exact Raises.refl now a

theorem raises_prune (now : ℚ) (a : Authorizer) : Raises now a (a.prune now) := by
  rintro x ⟨key, hmem⟩ hlive
  exact ⟨x, ⟨key, List.mem_filter.mpr ⟨hmem, decide_eq_true hlive⟩⟩, rfl, le_rfl⟩

/-- A grant replaces a session, which expires no later than the new one, or a revocation
that it outranks. -/
theorem Keyed.raises_grant (h : a.Keyed) (issuer identity : Str)
    (hle : ∀ x, a.record identity = some x → x.revoked = false →
      x.order ≤ (a.grant S issuer now identity).1.order) :
    Raises now a (a.grant S issuer now identity).2 := by
  unfold Authorizer.grant at hle ⊢
  dsimp only at hle ⊢
  split
  · rename_i hnone
    exact h.raises_store fun x hx => absurd (hnone.symm.trans hx) (by simp)
  · rename_i y hy
    split_ifs with hor
    · refine h.raises_store fun x hx _ => ?_
      obtain rfl := Option.some.inj (hy.symm.trans hx)
      rcases hor with hrevoked | hlt
      · exact hle y hy hrevoked
      · exact hlt.le
    · exact Raises.refl now a

/-- A revocation takes the place of its session. -/
theorem Keyed.raises_revoke (h : a.Keyed) (hr : a.revoke S identity = some (r, b)) :
    Raises now a b := by
  obtain ⟨s, hs, -, rfl, rfl⟩ := revoke_eq_some hr
  have hfold : a.fold identity = a.fold (revocationOf S s).ircPrefix := (h.record hs).symm
  rw [hfold]
  refine h.raises_store (s := revocationOf S s) fun x hx _ => ?_
  rw [← record_congr hfold] at hx
  obtain rfl := Option.some.inj (hs.symm.trans hx)
  exact (Session.order_lt_revocation s).le

/-- `drop_session` takes a session of the durable identity alone. -/
theorem Keyed.caches_dropSession (h : a.Keyed) (identity : Str) (hx : a.Caches x) :
    (a.dropSession identity).Caches x ∨
      casefold x.ircPrefix .ascii = casefold identity .ascii := by
  unfold Authorizer.dropSession
  split
  · exact .inl hx
  · rename_i s hs
    split_ifs with hdrops
    · by_cases hfold : a.fold identity = a.fold x.ircPrefix
      · rw [record_congr hfold] at hs
        obtain rfl := Option.some.inj (hs.symm.trans (h.record_of_caches hx))
        exact .inr hdrops.2
      · refine .inl ⟨a.fold x.ircPrefix, Assoc.mem_of_lookup ?_⟩
        exact (Assoc.lookup_discard_of_ne _ hfold).trans (h.record_of_caches hx)
    · exact .inl hx

end Authorizer

/-- The bots make sessions for the names alone, at their clock readings: a session has
version 0 and its revocation has version 1. -/
structure Minted (S : SessionScope) (names : Str → Bool) (now : ℚ) (y : Session) : Prop where
  named : names y.ircPrefix = true
  valid : y.Valid
  fresh : y.expiresAt ≤ now + S.ttl
  version : y.version = if y.revoked then 1 else 0

section Minting

variable {S : SessionScope} {names : Str → Bool} {now : ℚ} {y : Session} {issuer identity : Str}

/-- The durable keys of the names are those of their identities. -/
theorem admissible_minted (hkeys : ∀ p q, names p = true → names q = true →
    sessionKey S p = sessionKey S q → casefold p .ascii = casefold q .ascii) :
    Admissible S (Minted S names) where
  mono := fun _ _ _ hle hy => { hy with fresh := by linarith [hy.fresh] }
  valid := fun _ _ hy => hy.valid
  horizon := by
    intro now y hy
    have hfresh := hy.fresh
    simp only [SessionScope.horizon, sessionExpiryGrace]
    linarith
  key := fun _ y z hy hz => hkeys _ _ hy.named hz.named
  revocation := by
    intro now y hy hrevoked
    refine ⟨hy.named, hy.valid.create _ _ _, hy.fresh, ?_⟩
    have hversion := hy.version
    rw [hrevoked] at hversion
    simp [revocationOf, createSession, hversion]

theorem minted_grant (a : Authorizer) (hname : names identity = true) (hne : identity ≠ [])
    (htext : encodable identity = true) (hissuer : issuer ≠ [])
    (hissuerText : encodable issuer = true) :
    Minted S names now (a.grant S issuer now identity).1 :=
  ⟨hname, ⟨hissuer, hissuerText, hne, htext⟩, le_rfl, rfl⟩

/-- A session that the bots made ranks no higher than one granted now. -/
theorem Minted.le_grant (h : Minted S names now y) (hrevoked : y.revoked = false)
    (a : Authorizer) (issuer identity : Str) :
    y.order ≤ (a.grant S issuer now identity).1.order := by
  have hversion := h.version
  rw [hrevoked] at hversion
  rcases h.fresh.lt_or_eq with hlt | heq
  · exact (Session.order_lt_iff.mpr (.inl hlt)).le
  · refine le_of_eq ?_
    simp [Session.order, Authorizer.grant, createSession, heq, hversion, hrevoked]

end Minting

namespace SessionSync

/-- What the other parts of a bot do with its sessions while IRC is connected; `grant` and
`refuse` are the two calls of `sync` in `authenticate`. -/
inductive Call
  | grant (identity : Str)
  | refuse (identity : Str)
  | revoke (identity : Str)
  | retry
  | get (identity : Str)
  | prune
  | watchIdentity (identity : Str)
  | unwatchIdentity (identity : Str)

def call (S : SessionScope) (issuer : Str) (u : SessionSync) (now : ℚ) : Call → SessionSync
  | .grant identity =>
    let granted := u.authorizer.grant S issuer now identity
    { u with
      authorizer := granted.2
      waiting := u.waiting ++ [.sync identity granted.1.asdict] }
  | .refuse identity =>
    match u.authorizer.revoke S identity with
    | none => u
    | some (revoked, authorizer) =>
      { u with
        authorizer := authorizer
        waiting := u.waiting ++ [.sync revoked.ircPrefix revoked.asdict] }
  | .revoke identity => u.revoke S now identity
  | .retry => { u with waiting := u.waiting ++ [.retry] }
  | .get identity => u.handle S now now (.get identity)
  | .prune => u.handle S now now .prune
  | .watchIdentity identity => u.handle S now now (.watchIdentity identity)
  | .unwatchIdentity identity => u.handle S now now (.unwatchIdentity identity)

/-- The bot keeps what it caches and what it is about to write, or something that ranks at
least as high. -/
structure Conserves (S : SessionScope) (now : ℚ) (u u' : SessionSync) : Prop where
  casemapping : u'.authorizer.casemapping = u.authorizer.casemapping
  keyed : u'.authorizer.Keyed
  raises : Authorizer.Raises now u.authorizer u'.authorizer
  passes : Passes S now u u'
  watched : u'.watched = u.watched

variable {S : SessionScope} {P : ℚ → Session → Prop} {names : Str → Bool} {now : ℚ}
  {history : List (Str × Json)} {u : SessionSync} {issuer identity : Str}

theorem queue_watched (u : SessionSync) (now : ℚ) (identity : Str) (session : Fields) :
    (u.queue S now identity session).watched = u.watched := by
  rcases queue_cases (S := S) u now identity session with ⟨heq, -⟩ | ⟨heq, -⟩
  · rw [heq, enqueue]
  · rw [heq]

theorem invalidate_watched (u : SessionSync) (identity : Str) :
    (u.invalidate identity).watched = u.watched := by
  unfold invalidate
  dsimp only
  split <;> rfl

theorem call_writing (S : SessionScope) (issuer : Str) (u : SessionSync) (now : ℚ) (c : Call) :
    (u.call S issuer now c).writing = u.writing := by
  cases c with
  | refuse identity =>
    simp only [call]
    split <;> rfl
  | revoke identity =>
    rcases revoke_cases (S := S) u now identity with ⟨-, heq⟩ | ⟨r, a, -, heq⟩
    · rw [call, heq]
      exact (aside_invalidate u identity).writing
    · rw [call, heq]
      exact (queue_writing _ _ _ _).trans (aside_invalidate u identity).writing
  | _ => rfl

/-- A call joins those that wait for the lock, and the cache changes for the better. -/
theorem conserves_wait {a : Authorizer} (hm : a.casemapping = u.authorizer.casemapping)
    (hkeyed : a.Keyed) (hraises : Authorizer.Raises now u.authorizer a) (task : SyncTask) :
    Conserves S now u { u with authorizer := a, waiting := u.waiting ++ [task] } where
  casemapping := hm
  keyed := hkeyed
  raises := hraises
  passes := passes_of_eq rfl fun _ ht => List.mem_append_left _ ht
  watched := rfl

/-- Only the cache changes, for the better. -/
theorem conserves_cache {a : Authorizer} (hm : a.casemapping = u.authorizer.casemapping)
    (hkeyed : a.Keyed) (hraises : Authorizer.Raises now u.authorizer a) :
    Conserves S now u { u with authorizer := a } :=
  ⟨hm, hkeyed, hraises, passes_of_eq rfl fun _ ht => ht, rfl⟩

namespace BotInv

theorem conserves_revoke (hP : Admissible S P) (h : BotInv S P now history u)
    (hkeyed : u.authorizer.Keyed) (identity : Str) :
    Conserves S now u (u.revoke S now identity) := by
  obtain ⟨hpasses, -⟩ := h.revoke_passes hP identity
  rcases revoke_cases (S := S) u now identity with ⟨-, heq⟩ | ⟨r, a, hr, heq⟩
  · have hcache := invalidate_authorizer u identity
    refine ⟨?_, ?_, ?_, hpasses, ?_⟩
    · rw [heq, hcache]
    · rw [heq, hcache]
      exact hkeyed
    · rw [heq, hcache]
      exact Authorizer.Raises.refl now _
    · rw [heq, invalidate_watched]
  · refine ⟨?_, ?_, ?_, hpasses, ?_⟩
    · obtain ⟨s, -, -, -, rfl⟩ := Authorizer.revoke_eq_some hr
      rw [heq]
    · rw [heq]
      exact hkeyed.revoke hr
    · rw [heq]
      exact hkeyed.raises_revoke hr
    · rw [heq]
      exact (queue_watched _ _ _ _).trans (invalidate_watched u identity)

theorem conserves_call (hP : Admissible S (Minted S names))
    (h : BotInv S (Minted S names) now history u) (hkeyed : u.authorizer.Keyed) (issuer : Str)
    (c : Call) : Conserves S now u (u.call S issuer now c) := by
  have hsame : Authorizer.Raises now u.authorizer u.authorizer := .refl now _
  cases c with
  | grant identity =>
    refine conserves_wait (Authorizer.grant_casemapping _ _ _ _) (hkeyed.grant _ _)
      (hkeyed.raises_grant _ _ fun x hx hrevoked => ?_) _
    exact (h.records x (Authorizer.caches_of_record hx)).le_grant hrevoked _ _ _
  | refuse identity =>
    simp only [call]
    split
    · exact ⟨rfl, hkeyed, hsame, passes_of_eq rfl fun _ ht => ht, rfl⟩
    · rename_i r a hr
      have hm : a.casemapping = u.authorizer.casemapping := by
        obtain ⟨s, -, -, -, rfl⟩ := Authorizer.revoke_eq_some hr
        rfl
      exact conserves_wait hm (hkeyed.revoke hr) (hkeyed.raises_revoke hr) _
  | revoke identity => exact h.conserves_revoke hP hkeyed identity
  | retry => exact conserves_wait rfl hkeyed hsame .retry
  | get identity =>
    exact conserves_cache (Authorizer.get_casemapping _ _ _) (hkeyed.get _) (hkeyed.raises_get _)
  | prune =>
    exact conserves_cache rfl (hkeyed.sub rfl List.filter_sublist) (Authorizer.raises_prune _ _)
  | watchIdentity identity =>
    exact ⟨rfl, hkeyed, hsame, passes_of_eq rfl fun _ ht => ht, rfl⟩
  | unwatchIdentity identity =>
    exact ⟨rfl, hkeyed, hsame, passes_of_eq rfl fun _ ht => ht, rfl⟩

/-- A call takes nothing away from what is about to be written. -/
theorem passes_call (hP : Admissible S P) (h : BotInv S P now history u) (issuer : Str)
    (c : Call) : Passes S now u (u.call S issuer now c) := by
  cases c with
  | grant identity => exact passes_of_eq rfl fun _ ht => List.mem_append_left _ ht
  | refuse identity =>
    simp only [SessionSync.call]
    split
    · exact passes_of_eq rfl fun _ ht => ht
    · exact passes_of_eq rfl fun _ ht => List.mem_append_left _ ht
  | revoke identity => exact (h.revoke_passes hP identity).1
  | retry => exact passes_of_eq rfl fun _ ht => List.mem_append_left _ ht
  | get identity => exact passes_of_eq rfl fun _ ht => ht
  | prune => exact passes_of_eq rfl fun _ ht => ht
  | watchIdentity identity => exact passes_of_eq rfl fun _ ht => ht
  | unwatchIdentity identity => exact passes_of_eq rfl fun _ ht => ht

/-- A call of `sync` brings a session that may be written. -/
theorem call (hP : Admissible S P) (h : BotInv S P now history u) {c : Call}
    (hgrant : ∀ identity, c = .grant identity →
      P now (u.authorizer.grant S issuer now identity).1) :
    BotInv S P now history (u.call S issuer now c) := by
  cases c with
  | grant identity =>
    have hgranted := hgrant identity rfl
    have hparse : parseSessionRecord S (u.authorizer.grant S issuer now identity).1.asdict =
        some (u.authorizer.grant S issuer now identity).1 :=
      (Session.Signed.mk (hP.valid _ _ hgranted) rfl).parse_asdict
    refine h.wait (Authorizer.adopts_grant _ _ _ _) (fun i d htask => ?_) fun s hs => ?_
    · obtain ⟨rfl, rfl⟩ := SyncTask.sync.inj htask
      exact ⟨_, hparse, rfl, hgranted⟩
    · obtain rfl : s = _ := hs
      exact ⟨_, _, rfl, hparse⟩
  | refuse identity =>
    simp only [SessionSync.call]
    split
    · exact h
    · rename_i r a hr
      obtain ⟨hPr, hsigned⟩ := h.revocation hP hr
      refine h.wait (Authorizer.adopts_revoke hr) (fun i d htask => ?_) fun s hs => ?_
      · obtain ⟨rfl, rfl⟩ := SyncTask.sync.inj htask
        exact ⟨r, hsigned.parse_asdict, rfl, hPr⟩
      · obtain rfl : s = r := hs
        exact ⟨_, _, rfl, hsigned.parse_asdict⟩
  | revoke identity => exact h.revoke hP identity
  | retry =>
    exact h.wait (Q := fun _ => False) (Authorizer.Adopts.refl _ _) (by simp) (by simp)
  | get identity => exact h.handle now now (.get identity) (by simp)
  | prune => exact h.handle now now .prune (by simp)
  | watchIdentity identity => exact h.handle now now (.watchIdentity identity) (by simp)
  | unwatchIdentity identity => exact h.handle now now (.unwatchIdentity identity) (by simp)

theorem conserves_acquire (hP : Admissible S P) (h : BotInv S P now history u)
    (hkeyed : u.authorizer.Keyed) {r : SessionSync × Option SyncOutcome}
    (hr : u.acquire S now = some r) : Conserves S now u r.1 := by
  have hpasses := h.acquire_passes hP hr
  have hcache : r.1.authorizer = u.authorizer ∧ r.1.watched = u.watched := by
    obtain ⟨-, ⟨identity, session, -, htakes⟩ | ⟨-, htakes⟩⟩ := acquire_cases hr
    · exact ⟨htakes.authorizer.trans (queue_authorizer _ _ _ _),
        htakes.watched.trans (queue_watched _ _ _ _)⟩
    · exact ⟨htakes.authorizer, htakes.watched⟩
  refine ⟨by rw [hcache.1], ?_, ?_, hpasses, hcache.2⟩
  · rw [hcache.1]
    exact hkeyed
  · rw [hcache.1]
    exact .refl now _

end BotInv

/-! ## Sessions that come to the cache -/

/-- The session was written under its key where the watch, which has passed `n` writes,
has still to come. -/
def Ahead (S : SessionScope) (n : ℕ) (history : List (Str × Json)) (x : Session) : Prop :=
  ∃ r v, n < r ∧ Holds history (sessionKey S x.ircPrefix) r v ∧ Reads S v x

/-- The session is cached, is about to be written, or lies ahead of the watch. -/
def Brings (S : SessionScope) (n : ℕ) (history : List (Str × Json)) (u : SessionSync)
    (x : Session) : Prop :=
  u.authorizer.Caches x ∨ (u.Pends S x ∨ u.Waits S x) ∨ Ahead S n history x

/-- A session of the same fold that ranks at least as high comes to the cache. -/
def Coming (S : SessionScope) (n : ℕ) (history : List (Str × Json)) (u : SessionSync)
    (y : Session) : Prop :=
  ∃ x, u.authorizer.fold x.ircPrefix = u.authorizer.fold y.ircPrefix ∧ y.order ≤ x.order ∧
    Brings S n history u x

variable {n n' : ℕ} {history' : List (Str × Json)} {u' : SessionSync} {x y z : Session}

theorem coming_of_brings (h : Brings S n history u y) : Coming S n history u y :=
  ⟨y, rfl, le_rfl, h⟩

/-- What comes for a session comes for one of its fold that ranks lower. -/
theorem Coming.above (h : Coming S n history u x)
    (hfold : u.authorizer.fold x.ircPrefix = u.authorizer.fold y.ircPrefix)
    (horder : y.order ≤ x.order) : Coming S n history u y := by
  obtain ⟨z, hzfold, hzorder, hz⟩ := h
  exact ⟨z, hzfold.trans hfold, horder.trans hzorder, hz⟩

/-- A step under which something comes for everything that was brought. -/
theorem Coming.step (h : Coming S n history u y) (hlive : now < y.expiresAt)
    (hm : u'.authorizer.casemapping = u.authorizer.casemapping)
    (hstep : ∀ x, now < x.expiresAt → Brings S n history u x → Coming S n' history' u' x) :
    Coming S n' history' u' y := by
  obtain ⟨x, hfold, horder, hx⟩ := h
  refine (hstep x (hlive.trans_le (Session.expiresAt_le horder)) hx).above ?_ horder
  rw [Authorizer.fold, Authorizer.fold, hm]
  exact hfold

theorem Ahead.mono (h : Ahead S n history x) (hn : n' ≤ n) : Ahead S n' history x := by
  obtain ⟨r, v, hr, hx⟩ := h
  exact ⟨r, v, hn.trans_lt hr, hx⟩

theorem Ahead.cons (h : Ahead S n history x) (e : Str × Json) : Ahead S n (e :: history) x := by
  obtain ⟨r, v, hr, hheld, hx⟩ := h
  exact ⟨r, v, hr, hheld.cons e, hx⟩

/-- The writes of the bucket grow, and the watch starts again. -/
theorem Coming.mono (h : Coming S n history u y)
    (hahead : ∀ x, Ahead S n history x → Ahead S n' history' x) : Coming S n' history' u y := by
  obtain ⟨x, hfold, horder, hx⟩ := h
  exact ⟨x, hfold, horder, hx.imp_right (Or.imp_right (hahead x))⟩

theorem Coming.conserves (h : Coming S n history u y) (hc : Conserves S now u u')
    (hlive : now < y.expiresAt) : Coming S n history u' y := by
  refine h.step hlive hc.casemapping fun x hxlive hx => ?_
  rcases hx with hx | hx | hx
  · obtain ⟨z, hz, hfold, horder⟩ := hc.raises x hx hxlive
    refine ⟨z, ?_, horder, .inl hz⟩
    rw [Authorizer.fold, Authorizer.fold, hc.casemapping]
    exact hfold
  · obtain ⟨z, hfold, horder, hz⟩ := hc.passes x hxlive hx
    exact ⟨z, Authorizer.fold_congr _ hfold, horder, .inr (.inl hz)⟩
  · exact coming_of_brings (.inr (.inr hx))

/-! ## The cache and the watched keys after a write and a delivery -/

/-- The cache has the casemapping, and the watched prefixes are under their keys. -/
structure Regular (S : SessionScope) (m : Casemapping) (u : SessionSync) : Prop where
  casemapping : u.authorizer.casemapping = m
  keyed : u.authorizer.Keyed
  watched : ∀ e ∈ u.watched, e.1 = sessionKey S e.2.1

variable {m : Casemapping} {w : SessionWrite} {stored record : Fields} {key : Str}
  {now₁ now₂ now₃ later : ℚ}

theorem Regular.init (S : SessionScope) (m : Casemapping) :
    Regular S m { SessionSync.init with authorizer := ⟨m, []⟩ } :=
  ⟨rfl, ⟨List.nodup_nil, by simp⟩, by simp [SessionSync.init]⟩

theorem Regular.conserves (h : Regular S m u) (hc : Conserves S now u u') : Regular S m u' :=
  ⟨hc.casemapping.trans h.casemapping, hc.keyed, by rw [hc.watched]; exact h.watched⟩

/-- A write imports the stored session, and perhaps the revocation that it queues. -/
theorem written_cache (u : SessionSync) (now₁ now₂ now₃ : ℚ) (w : SessionWrite)
    (stored : Fields) : (u.written S now₁ now₂ now₃ w stored).1.watched = u.watched ∧
      ((u.written S now₁ now₂ now₃ w stored).1.authorizer =
          u.authorizer.importSession S now₁ stored ∨
        ∃ r : Session, (u.written S now₁ now₂ now₃ w stored).1.authorizer =
          (u.authorizer.importSession S now₁ stored).importSession S now₃ r.asdict) := by
  obtain ⟨-, hwatched, ⟨-, -, heq⟩ | ⟨-, ⟨r, -, -, heq⟩ | ⟨-, -, heq⟩⟩⟩ :=
    written_cases (S := S) u now₁ now₂ now₃ w stored
  · exact ⟨hwatched, .inl heq⟩
  · exact ⟨hwatched, .inr ⟨r, heq⟩⟩
  · exact ⟨hwatched, .inl heq⟩

theorem Regular.written (h : Regular S m u) (now₁ now₂ now₃ : ℚ) (w : SessionWrite)
    (stored : Fields) : Regular S m (u.written S now₁ now₂ now₃ w stored).1 := by
  obtain ⟨hwatched, hcache⟩ := written_cache (S := S) u now₁ now₂ now₃ w stored
  have hfirst : (u.authorizer.importSession S now₁ stored).Keyed := h.keyed.importSession stored
  rcases hcache with heq | ⟨r, heq⟩
  · refine ⟨?_, ?_, by rw [hwatched]; exact h.watched⟩
    · rw [heq, Authorizer.importSession_casemapping, h.casemapping]
    · rw [heq]
      exact hfirst
  · refine ⟨?_, ?_, by rw [hwatched]; exact h.watched⟩
    · rw [heq, Authorizer.importSession_casemapping, Authorizer.importSession_casemapping,
        h.casemapping]
    · rw [heq]
      exact hfirst.importSession _

theorem Regular.raises_written (h : Regular S m u) (now₁ now₂ now₃ : ℚ) (w : SessionWrite)
    (stored : Fields) : Authorizer.Raises now (u.authorizer.importSession S now₁ stored)
      (u.written S now₁ now₂ now₃ w stored).1.authorizer := by
  obtain ⟨-, heq | ⟨r, heq⟩⟩ := written_cache (S := S) u now₁ now₂ now₃ w stored
  · rw [heq]
    exact .refl now _
  · rw [heq]
    exact (h.keyed.importSession stored).raises_importSession now₃ _

/-- A session that is imported while it is live is cached, or outranked. -/
theorem Regular.caches_import (h : Regular S m u) (hy : parseSession S now stored = some y) :
    ∃ z, (u.authorizer.importSession S now stored).Caches z ∧
      u.authorizer.fold z.ircPrefix = u.authorizer.fold y.ircPrefix ∧ y.order ≤ z.order := by
  obtain ⟨z, hz, horder, hfold⟩ := Authorizer.caches_keep u.authorizer y
  refine ⟨z, ?_, hfold h.keyed, horder⟩
  rw [Authorizer.importSession, hy]
  exact hz

/-- What is written reaches the cache. -/
theorem BotInv.coming_written (hP : Admissible S P) (h : BotInv S P now history u)
    (hu : Regular S m u) (hw : u.writing = some w) (hy : parseSessionRecord S stored = some y)
    (hfold : casefold y.ircPrefix .ascii = w.key) (hPy : P now y)
    (hle : ∀ x, parseSessionRecord S w.entry.session = some x → x.order ≤ y.order)
    (h₁ : now ≤ now₁) (h₂ : now₁ ≤ later) (hz : Coming S n history u z)
    (hlive : later < z.expiresAt) :
    Coming S n history (u.written S now₁ now₂ now₃ w stored).1 z := by
  have hm : (u.written S now₁ now₂ now₃ w stored).1.authorizer.casemapping =
      u.authorizer.casemapping :=
    (hu.written (S := S) now₁ now₂ now₃ w stored).casemapping.trans hu.casemapping.symm
  have hraises : Authorizer.Raises later (u.authorizer.importSession S now₁ stored)
      (u.written S now₁ now₂ now₃ w stored).1.authorizer :=
    hu.raises_written now₁ now₂ now₃ w stored
  -- what the import has in the cache comes for all that it outranks
  have hcached : ∀ x v, (u.authorizer.importSession S now₁ stored).Caches v →
      later < v.expiresAt → u.authorizer.fold v.ircPrefix = u.authorizer.fold x.ircPrefix →
      x.order ≤ v.order → Coming S n history (u.written S now₁ now₂ now₃ w stored).1 x := by
    intro x v hv hvlive hvfold hvorder
    obtain ⟨v', hv', hv'fold, hv'order⟩ := hraises v hv hvlive
    refine ⟨v', ?_, hvorder.trans hv'order, .inl hv'⟩
    rw [Authorizer.fold, Authorizer.fold, Authorizer.importSession_casemapping] at hv'fold
    rw [Authorizer.fold, Authorizer.fold, hm]
    exact hv'fold.trans hvfold
  refine hz.step hlive hm fun x hxlive hx => ?_
  rcases hx with hx | hx | hx
  · obtain ⟨v, hv, hvfold, hvorder⟩ := hu.keyed.raises_importSession now₁ stored x hx hxlive
    exact hcached x v hv (hxlive.trans_le (Session.expiresAt_le hvorder)) hvfold hvorder
  · have hpasses : casefold y.ircPrefix .ascii = casefold x.ircPrefix .ascii ∧
        x.order ≤ y.order ∨ (u.written S now₁ now₂ now₃ w stored).1.Pends S x ∨
          (u.written S now₁ now₂ now₃ w stored).1.Waits S x :=
      h.written_passes hw hfold hle now₁ now₂ now₃ hx
    rcases hpasses with ⟨hxfold, horder⟩ | hx
    · have hylive : now₁ < y.expiresAt :=
        (h₂.trans_lt hxlive).trans_le (Session.expiresAt_le horder)
      have hparse : parseSession S now₁ stored = some y := parseSession_eq_some.mpr
        ⟨hy, hylive, (hP.horizon _ _ hPy).trans (SessionScope.horizon_mono h₁)⟩
      obtain ⟨v, hv, hvfold, hvorder⟩ := hu.caches_import hparse
      refine hcached x v hv ?_ (hvfold.trans (Authorizer.fold_congr _ hxfold))
        (horder.trans hvorder)
      exact hxlive.trans_le (Session.expiresAt_le (horder.trans hvorder))
    · exact coming_of_brings (.inr (.inl hx))
  · exact coming_of_brings (.inr (.inr hx))

/-- A deletion takes a session from the cache only if it has the watched identity. -/
theorem Regular.caches_forget (h : Regular S m u) (key : Str) (hx : u.authorizer.Caches x) :
    (u.forget key).authorizer.Caches x ∨
      ∃ e, (key, e) ∈ u.watched ∧ casefold x.ircPrefix .ascii = casefold e.1 .ascii := by
  unfold SessionSync.forget
  split
  · exact .inl hx
  · rename_i e he
    rcases h.keyed.caches_dropSession e.1 hx with hx | hfold
    · exact .inl hx
    · exact .inr ⟨e, Assoc.mem_of_lookup he, hfold⟩

theorem forget_watched (u : SessionSync) (key : Str) : (u.forget key).watched ⊆ u.watched := by
  unfold forget
  split
  · exact fun _ he => he
  · exact fun _ he => List.mem_of_mem_filter he

theorem Regular.forget (h : Regular S m u) (key : Str) : Regular S m (u.forget key) := by
  refine ⟨?_, ?_, fun e he => h.watched e (forget_watched u key he)⟩
  · rw [← h.casemapping, SessionSync.forget]
    split
    · rfl
    · exact Authorizer.dropSession_casemapping _ _
  · rw [SessionSync.forget]
    split
    · exact h.keyed
    · exact h.keyed.dropSession _

theorem Regular.prune (h : Regular S m u) (now : ℚ) : Regular S m (u.prune now) :=
  ⟨h.casemapping, h.keyed, fun e he => h.watched e (List.mem_of_mem_filter he)⟩

/-- The keys that a replay leaves out are forgotten, one after the other. -/
theorem Regular.forgets {keys : List Str} (h : Regular S m u) (l : List Str)
    (hl : ∀ key ∈ l, key ∉ keys) : Regular S m (l.foldl SessionSync.forget u) ∧
      ∀ x, u.authorizer.Caches x → (l.foldl SessionSync.forget u).authorizer.Caches x ∨
        ∃ e ∈ u.watched, e.1 ∉ keys ∧ casefold x.ircPrefix .ascii = casefold e.2.1 .ascii := by
  induction l generalizing u with
  | nil => exact ⟨h, fun x hx => .inl hx⟩
  | cons key l ih =>
    obtain ⟨hregular, hcaches⟩ := ih (h.forget key) fun j hj => hl j (List.mem_cons_of_mem _ hj)
    refine ⟨hregular, fun x hx => ?_⟩
    rcases h.caches_forget key hx with hx | ⟨e, he, hfold⟩
    · rcases hcaches x hx with hx | ⟨e, he, hrest⟩
      · exact .inl hx
      · exact .inr ⟨e, forget_watched u key he, hrest⟩
    · exact .inr ⟨(key, e), he, hl key List.mem_cons_self, hfold⟩

theorem Regular.replayed (h : Regular S m u) (now : ℚ) (keys : List Str) :
    Regular S m (u.replayed now keys) ∧
      ∀ x, u.authorizer.Caches x → (u.replayed now keys).authorizer.Caches x ∨
        ∃ e ∈ u.watched, e.1 ∉ keys ∧ casefold x.ircPrefix .ascii = casefold e.2.1 .ascii := by
  obtain ⟨hregular, hcaches⟩ := (h.prune now).forgets
    (((u.prune now).watched.map Prod.fst).filter fun key => key ∉ keys)
    (fun key hkey => show key ∉ keys from of_decide_eq_true (List.mem_filter.mp hkey).2)
  refine ⟨hregular, fun x hx => ?_⟩
  rcases hcaches x hx with hx | ⟨e, he, hrest⟩
  · exact .inl hx
  · exact .inr ⟨e, List.mem_of_mem_filter he, hrest⟩

theorem Aside.brings (h : Aside u u') (hx : u.Pends S x ∨ u.Waits S x) :
    u'.Pends S x ∨ u'.Waits S x := by
  rwa [Pends, Waits, h.pending, h.waiting]

/-- A cached session that the watch takes away has one of its durable identity that is
about to be written, or stored. -/
theorem BotInv.stored_or_brings {ι : Type*} {net : PutNewer.Net (SessionPut S ι) Str Json}
    (h : BotInv S P now net.history u) (hstore : StoreInv P now net)
    (hx : u.authorizer.Caches x) (hlive : now < x.expiresAt) : ∃ z,
      casefold z.ircPrefix .ascii = casefold x.ircPrefix .ascii ∧ x.order ≤ z.order ∧
        (Stored S net.history z ∨ u.Pends S z ∨ u.Waits S z) := by
  obtain ⟨z, hfold, horder, hz | hz⟩ := h.backed x hx hlive
  · obtain ⟨v, hv, hvfold, hvorder⟩ :=
      hstore.current hz (hlive.trans_le (Session.expiresAt_le horder))
    exact ⟨v, hvfold.trans hfold, horder.trans hvorder, .inl hv⟩
  · exact ⟨z, hfold, horder, .inr hz⟩

/-- The watch forgets sessions that lie ahead of it. -/
theorem BotInv.coming_forgotten {ι : Type*} {net : PutNewer.Net (SessionPut S ι) Str Json}
    (h : BotInv S P now net.history u) (hstore : StoreInv P now net) (haside : Aside u u')
    (hx : u.authorizer.Caches x) (hlive : now < x.expiresAt)
    (hahead : ∀ z, casefold z.ircPrefix .ascii = casefold x.ircPrefix .ascii →
      now < z.expiresAt → Stored S net.history z → Ahead S n net.history z) :
    Coming S n net.history u' x := by
  obtain ⟨z, hfold, horder, hz⟩ := h.stored_or_brings hstore hx hlive
  refine ⟨z, Authorizer.fold_congr _ hfold, horder, .inr ?_⟩
  rcases hz with hz | hz
  · exact .inr (hahead z hfold (hlive.trans_le (Session.expiresAt_le horder)) hz)
  · exact .inl (haside.brings hz)

/-- What a replay that is complete leaves out lies ahead of the watch. -/
theorem BotInv.coming_replayed {ι : Type*} {net : PutNewer.Net (SessionPut S ι) Str Json}
    {keys : List Str} (h : BotInv S P now net.history u) (hstore : StoreInv P now net)
    (hu : Regular S m u) (hkeys : Delivered (fun key _ => key ∈ keys) n net.history)
    (hz : Coming S n net.history u z) (hlive : now < z.expiresAt) :
    Coming S n net.history (u.replayed now keys) z := by
  obtain ⟨hregular, hcaches⟩ := hu.replayed now keys
  have haside := aside_replayed u now keys
  refine hz.step hlive (hregular.casemapping.trans hu.casemapping.symm) fun x hxlive hx => ?_
  rcases hx with hx | hx | hx
  · rcases hcaches x hx with hkept | ⟨e, he, hout, hfold⟩
    · exact coming_of_brings (.inl hkept)
    · refine h.coming_forgotten hstore haside hx hxlive fun v hvfold _ hv => ?_
      obtain ⟨entry, hentry, hread⟩ := hv
      refine ⟨entry.revision, entry.value, ?_, Holds.of_entry hentry, hread⟩
      -- a key that the replay has passed is not left out
      by_contra hpassed
      have hmem := hkeys _ _ hentry (not_lt.mp hpassed)
      rw [sessionKey_congr (hvfold.trans hfold), ← hu.watched e he] at hmem
      exact hout hmem
  · exact coming_of_brings (.inr (.inl (haside.brings hx)))
  · exact coming_of_brings (.inr (.inr hx))

/-- A record of the watch is imported while its session is live, and forgotten else. -/
theorem observe_eq (u : SessionSync) (now later : ℚ) (key : Str) (replaying : Bool)
    (hy : parseSessionRecord S record = some y) :
    ∃ v : SessionSync, (v = u ∨ v = u.prune now) ∧
      u.observe S now later key record replaying =
        if now < y.expiresAt then
          { v with
            watched := Assoc.assign key (y.ircPrefix, y.expiresAt) v.watched
            authorizer := v.authorizer.importSession S later record }
        else v.forget key := by
  cases replaying with
  | true => exact ⟨u, .inl rfl, by simp only [observe, if_true, hy]⟩
  | false =>
    refine ⟨u.prune now, .inr rfl, ?_⟩
    simp only [observe, Bool.false_eq_true, if_false, hy]

theorem Regular.observe (h : Regular S m u) (now later : ℚ) (replaying : Bool)
    (hy : parseSessionRecord S record = some y) (hkey : key = sessionKey S y.ircPrefix) :
    Regular S m (u.observe S now later key record replaying) := by
  obtain ⟨v, hv, heq⟩ := observe_eq u now later key replaying hy
  have hregular : Regular S m v := by
    rcases hv with rfl | rfl
    · exact h
    · exact h.prune now
  rw [heq]
  split_ifs
  · refine ⟨(Authorizer.importSession_casemapping _ _ _).trans hregular.casemapping,
      hregular.keyed.importSession _, fun e he => ?_⟩
    rcases Assoc.mem_assign he with rfl | he
    · exact hkey
    · exact hregular.watched e he
  · exact hregular.forget key

/-- The watch delivers its next write. -/
theorem BotInv.coming_observe {ι : Type*} {net : PutNewer.Net (SessionPut S ι) Str Json}
    (hP : Admissible S P) (h : BotInv S P now net.history u) (hstore : StoreInv P now net)
    (hu : Regular S m u) (replaying : Bool) (hy : parseSessionRecord S record = some y)
    (hkey : key = sessionKey S y.ircPrefix) (hPy : P now y)
    (hheld : Holds net.history key (n + 1) (.obj record)) (hle : now ≤ later)
    (hz : Coming S n net.history u z) (hlive : later < z.expiresAt) :
    Coming S (n + 1) net.history (u.observe S now later key record replaying) z := by
  have hm : (u.observe S now later key record replaying).authorizer.casemapping =
      u.authorizer.casemapping :=
    (hu.observe now later replaying hy hkey).casemapping.trans hu.casemapping.symm
  have haside := aside_observe (S := S) u now later key record replaying
  obtain ⟨v, hv, heq⟩ := observe_eq u now later key replaying hy
  have hcache : v.authorizer = u.authorizer := by
    rcases hv with rfl | rfl <;> rfl
  have hregular : Regular S m v := by
    rcases hv with rfl | rfl
    · exact hu
    · exact hu.prune now
  have hwatched : v.watched ⊆ u.watched := by
    rcases hv with rfl | rfl
    · exact fun _ he => he
    · exact fun _ he => List.mem_of_mem_filter he
  -- what the import has in the cache
  have himported : now < y.expiresAt → ∀ x, later < x.expiresAt →
      (u.authorizer.Caches x ∨ y = x) →
      Coming S (n + 1) net.history (u.observe S now later key record replaying) x := by
    intro hylive x hxlive hx
    have hcached : ∃ z, (u.authorizer.importSession S later record).Caches z ∧
        u.authorizer.fold z.ircPrefix = u.authorizer.fold x.ircPrefix ∧ x.order ≤ z.order := by
      rcases hx with hx | rfl
      · exact hu.keyed.raises_importSession later record x hx hxlive
      · exact hu.caches_import (parseSession_eq_some.mpr
          ⟨hy, hxlive, (hP.horizon _ _ hPy).trans (SessionScope.horizon_mono hle)⟩)
    obtain ⟨z, hz, hfold, horder⟩ := hcached
    refine ⟨z, ?_, horder, .inl ?_⟩
    · rw [Authorizer.fold, Authorizer.fold, hm]
      exact hfold
    · rw [heq, if_pos hylive, hcache]
      exact hz
  refine hz.step hlive hm fun x hxlive hx => ?_
  have hxnow : now < x.expiresAt := hle.trans_lt hxlive
  rcases hx with hx | hx | ⟨r, value, hr, hxheld, hread⟩
  · by_cases hylive : now < y.expiresAt
    · exact himported hylive x hxlive (.inl hx)
    · rcases hregular.caches_forget key (hcache ▸ hx) with hkept | ⟨e, he, hfold⟩
      · refine coming_of_brings (.inl ?_)
        rw [heq, if_neg hylive]
        exact hkept
      · -- a live session is written after the expired one of its key
        refine h.coming_forgotten hstore haside hx hxnow fun t htfold htlive ht => ?_
        obtain ⟨entry, hentry, htread⟩ := ht
        have hkeys : sessionKey S t.ircPrefix = key := by
          rw [sessionKey_congr (htfold.trans hfold)]
          exact (hu.watched _ (hwatched he)).symm
        have htheld := Holds.of_entry hentry
        refine ⟨entry.revision, entry.value, ?_, htheld, htread⟩
        rw [hkeys] at htheld
        exact hstore.not_before htread ⟨record, rfl, hy⟩ htheld hheld htlive
          (not_lt.mp hylive)
  · exact coming_of_brings (.inr (.inl (haside.brings hx)))
  · rcases Nat.lt_or_ge (n + 1) r with hlater | hnext
    · exact coming_of_brings (.inr (.inr ⟨r, value, hlater, hxheld, hread⟩))
    · -- the session is the one that is delivered
      obtain rfl : r = n + 1 := by omega
      obtain ⟨-, rfl⟩ := hheld.unique hxheld
      have hyread : Reads S (.obj record) y := ⟨record, rfl, hy⟩
      obtain rfl := hyread.unique hread
      exact himported hxnow y hxlive (.inr rfl)

end SessionSync

end Botnats
