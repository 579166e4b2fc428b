import Botnats.IrcEvents

/-!
# Revocation of a visible identity change

NICK and CHGHOST complete a partial prefix from the members before they overwrite them;
QUIT does not. `Completed` is the condition under which the session of the user who
changed is revoked.
-/
namespace Botnats

namespace ChannelManager

/-- The complete identity under which a channel knows a nick. -/
def knownIn (m : ChannelManager) (nick : Str) (c : ChannelRuntime) : Option Prefix :=
  ((Assoc.lookup (m.fold nick) c.members).bind ChannelMember.ircPrefix).filter Prefix.complete

/-- The first channel that knows a complete identity of a nick decides. -/
def firstKnown (m : ChannelManager) (nick : Str) : Option Prefix :=
  m.channels.findSome? fun e => m.knownIn nick e.2

/-- The first complete member record completes a partial prefix. -/
theorem knownPrefix_eq (m : ChannelManager) (p : Prefix) :
    m.knownPrefix p = if p.complete then p else (m.firstKnown p.nick).getD p := by
  have hstep : ∀ f : Prefix → Str × ChannelRuntime → Prefix,
      (∀ old e, f old e = (Assoc.lookup (m.fold p.nick) e.2.members).elim old fun member =>
        old.completed member.ircPrefix) →
      ∀ (l : List (Str × ChannelRuntime)) (old : Prefix), l.foldl f old =
        if old.complete then old
        else (l.findSome? fun e => m.knownIn p.nick e.2).getD old := by
    intro f hf l
    induction l with
    | nil => intro old; simp
    | cons e l ih =>
      intro old
      rw [List.foldl_cons, ih, List.findSome?_cons, knownIn, hf]
      cases Assoc.lookup (m.fold p.nick) e.2.members with
      | none => rfl
      | some member =>
        obtain ⟨nick, modes, known⟩ := member
        dsimp only [Option.bind_some, Option.elim_some, Prefix.completed]
        by_cases hold : old.complete = true
        · simp [hold]
        · cases known with
          | none => simp [hold]
          | some q =>
            by_cases hq : q.complete = true <;> simp [hold, hq, Option.filter]
  refine hstep _ (fun old e => ?_) m.channels p
  cases Assoc.lookup (m.fold p.nick) e.2.members <;> rfl

theorem firstKnown_complete {m : ChannelManager} {nick : Str} {q : Prefix}
    (h : m.firstKnown nick = some q) : q.complete = true := by
  obtain ⟨e, -, he⟩ := List.exists_of_findSome?_eq_some h
  exact (Option.filter_eq_some_iff.mp he).2

/-- Where the channels agree on a nick, the first that knows it is right. -/
theorem firstKnown_of_agree {m : ChannelManager} {nick : Str} {p : Prefix}
    (hknown : ∃ e ∈ m.channels, m.knownIn nick e.2 = some p)
    (hagree : ∀ e ∈ m.channels, ∀ q, m.knownIn nick e.2 = some q → q = p) :
    m.firstKnown nick = some p := by
  obtain ⟨e, he, hp⟩ := hknown
  cases hfirst : m.firstKnown nick with
  | none =>
    have hnone := List.findSome?_eq_none_iff.mp hfirst e he
    rw [hp] at hnone
    cases hnone
  | some q =>
    obtain ⟨e', he', hq⟩ := List.exists_of_findSome?_eq_some hfirst
    rw [hagree e' he' q hq]

end ChannelManager

/-! ## What a revocation does to one identity -/

namespace SessionSync

variable {S : SessionScope} {s : SessionSync} {now : ℚ} {identity other : Str} {x : Session}

theorem invalidate_invalid (s : SessionSync) (h : casefold identity .ascii = casefold other .ascii) :
    (s.invalidate identity).watchedValid other = false := by
  simp only [invalidate, watchedValid, ← h]
  cases hlookup : Assoc.lookup (casefold identity .ascii) s.watchedIdentities with
  | none => simp only [hlookup]
  | some entry => simp only [Assoc.lookup_assign_self, Bool.not_true]

theorem invalidate_of_ne (s : SessionSync) (h : casefold identity .ascii ≠ casefold other .ascii) :
    (s.invalidate identity).watchedValid other = s.watchedValid other := by
  simp only [invalidate, watchedValid]
  cases Assoc.lookup (casefold identity .ascii) s.watchedIdentities with
  | none => rfl
  | some entry => simp only [Assoc.lookup_assign_of_ne _ _ h]

/-- The commands in flight that `revoke` invalidates are those of its identity. -/
theorem revoke_watchedIdentities (s : SessionSync) (now : ℚ) (identity : Str) :
    (s.revoke S now identity).watchedIdentities = (s.invalidate identity).watchedIdentities := by
  have hqueue : ∀ (u : SessionSync) (i : Str) (d : Fields),
      (u.queue S now i d).watchedIdentities = u.watchedIdentities := by
    intro u i d
    rcases queue_cases (S := S) u now i d with ⟨heq, -⟩ | ⟨heq, -⟩
    · rw [heq, enqueue]
    · rw [heq]
  rcases revoke_cases (S := S) s now identity with ⟨-, heq⟩ | ⟨r, a, -, heq⟩
  · rw [heq]
  · rw [heq, hqueue]

theorem revoke_watchedValid (s : SessionSync) (now : ℚ) (identity other : Str) :
    (s.revoke S now identity).watchedValid other = (s.invalidate identity).watchedValid other := by
  rw [watchedValid, revoke_watchedIdentities, watchedValid]

/-- A record that is live and no revocation is the active session. -/
theorem active_iff (a : Authorizer) : (a.get now identity).1 = some x ↔
    a.record identity = some x ∧ now < x.expiresAt ∧ x.revoked = false := by
  unfold Authorizer.get
  cases hrecord : a.record identity with
  | none => simp
  | some y =>
    dsimp only
    split_ifs with hexpired hrevoked
    · simp only [Option.some.injEq, false_iff, not_and]
      rintro rfl hlive
      exact absurd hlive (not_lt.mpr hexpired)
    · simp only [Option.some.injEq, false_iff, not_and]
      rintro rfl -
      simp [hrevoked]
    · simp only [Option.some.injEq]
      constructor
      · rintro rfl
        exact ⟨rfl, not_le.mp hexpired, Bool.not_eq_true _ ▸ hrevoked⟩
      · exact fun h => h.1

/-- Revoking an identity of the session's fold takes the session away. -/
theorem revoke_unauthorized (hactive : (s.authorizer.get now other).1 = some x)
    (hfold : s.authorizer.fold identity = s.authorizer.fold other) (t : ℚ) :
    (s.revoke S now identity).authorizer.authorized t other = false := by
  obtain ⟨hrecord, hlive, hrevoked⟩ := (active_iff _).mp hactive
  have hsame : s.authorizer.record identity = some x := by
    rw [Authorizer.record, hfold]
    exact hrecord
  rcases revoke_cases (S := S) s now identity with ⟨hnone, -⟩ | ⟨r, a, hsome, heq⟩
  · simp [Authorizer.revoke, hsame, hrevoked] at hnone
  · obtain ⟨y, hy, -, rfl, rfl⟩ := Authorizer.revoke_eq_some hsome
    have hread : Authorizer.record { s.authorizer with
        records := Assoc.assign (s.authorizer.fold identity) (revocationOf S y)
          s.authorizer.records } other = some (revocationOf S y) := by
      rw [hfold]
      exact Assoc.lookup_assign_self _ _ _
    rw [heq, Authorizer.authorized, Option.isSome_eq_false_iff, Option.isNone_iff_eq_none]
    by_contra hget
    obtain ⟨z, hz⟩ := Option.ne_none_iff_exists'.mp hget
    obtain ⟨hz, -, hfalse⟩ := (active_iff _).mp hz
    rw [hread] at hz
    obtain rfl := Option.some.inj hz
    cases hfalse

/-- Revoking an identity of another fold leaves the session. -/
theorem revoke_active_of_ne (hfold : s.authorizer.fold identity ≠ s.authorizer.fold other) :
    ((s.revoke S now identity).authorizer.get now other).1 = (s.authorizer.get now other).1 := by
  rcases revoke_cases (S := S) s now identity with ⟨-, heq⟩ | ⟨r, a, hsome, heq⟩
  · rw [heq, invalidate_authorizer]
  · obtain ⟨y, -, -, -, rfl⟩ := Authorizer.revoke_eq_some hsome
    have hread : Authorizer.record { s.authorizer with
        records := Assoc.assign (s.authorizer.fold identity) r s.authorizer.records } other =
        s.authorizer.record other := Assoc.lookup_assign_of_ne _ _ hfold
    rw [heq, Authorizer.get, Authorizer.get, hread]
    cases s.authorizer.record other with
    | none => rfl
    | some y => dsimp only; split_ifs <;> rfl

/-- The revocation of an active session is queued under the session's own durable key,
unless what was queued there ranks as high. -/
theorem revoke_queued (hbounded : s.authorizer.Bounded S now)
    (hactive : (s.authorizer.get now other).1 = some x)
    (hfold : s.authorizer.fold identity = s.authorizer.fold other) :
    ∃ q, (s.revoke S now identity).queuedSession S now (casefold x.ircPrefix .ascii) = some q ∧
      x.order < q.order ∧ (q.revoked = true ∨
        s.queuedSession S now (casefold x.ircPrefix .ascii) = some q) := by
  obtain ⟨hrecord, hlive, hrevoked⟩ := (active_iff _).mp hactive
  have hsame : s.authorizer.record identity = some x := by
    rw [Authorizer.record, hfold]
    exact hrecord
  obtain ⟨hvalid, hhorizon⟩ := hbounded x (Authorizer.caches_of_record hrecord)
  rcases revoke_cases (S := S) s now identity with ⟨hnone, -⟩ | ⟨r, a, hsome, heq⟩
  · simp [Authorizer.revoke, hsame, hrevoked] at hnone
  obtain ⟨y, hy, -, rfl, -⟩ := Authorizer.revoke_eq_some hsome
  rw [hsame] at hy
  obtain rfl := Option.some.inj hy
  have hparse : parseSession S now (revocationOf S x).asdict = some (revocationOf S x) := by
    have hsigned : (revocationOf S x).Signed S := hvalid.signed _ _ _
    rw [hsigned.parseSession, if_pos ⟨hlive, hhorizon⟩]
  have hbefore : (s.invalidate identity).queuedSession S now (casefold x.ircPrefix .ascii) =
      s.queuedSession S now (casefold x.ircPrefix .ascii) := by
    rw [queuedSession, queuedSession, (aside_invalidate s identity).pending]
  have hafter : (s.revoke S now identity).queuedSession S now (casefold x.ircPrefix .ascii) =
      ((s.invalidate identity).queue S now x.ircPrefix (revocationOf S x).asdict).queuedSession
        S now (casefold x.ircPrefix .ascii) := by
    rw [heq]
    rfl
  have hlt := Session.order_lt_revocation (S := S) x
  rw [hafter]
  rcases queue_cases (S := S) (s.invalidate identity) now x.ircPrefix (revocationOf S x).asdict with
    ⟨hqueue, -⟩ | ⟨hqueue, q, hq, hle⟩
  · refine ⟨revocationOf S x, ?_, hlt, .inl rfl⟩
    rw [hqueue]
    simpa [queuedSession, enqueue] using hparse
  · refine ⟨q, ?_, hlt.trans_le (hle _ hparse), .inr (hbefore ▸ hq)⟩
    rw [hqueue]
    exact hq

end SessionSync

/-! ## The three handlers -/

/-- A message by which the visible identity of its sender changes or ends. -/
def IRCMessage.ChangesIdentity (message : IRCMessage) : Prop :=
  message.command = lit "NICK" ∧ message.params ≠ [] ∨
    message.command = lit "CHGHOST" ∧ 2 ≤ message.params.length ∨ message.command = lit "QUIT"

namespace IrcBot

variable {S : SessionScope} {b : IrcBot} {now : ℚ} {message : IRCMessage} {p : Prefix}

theorem handleNick_sessions (b : IrcBot) (link : Str → IrcLink) (now : ℚ)
    (hp : message.ircPrefix = some p) (hparams : message.params ≠ []) :
    (b.handleNick S link now message).sessions =
      (b.revokeComplete S now (b.manager.knownPrefix p)).sessions := by
  have hnew := List.getLast?_eq_some_getLast hparams
  simp only [handleNick, hp, hnew, followSelf_sessions]
  rfl

theorem handleChghost_sessions (b : IrcBot) (link : Str → IrcLink) (now : ℚ)
    (hp : message.ircPrefix = some p) (hparams : 2 ≤ message.params.length) :
    (b.handleChghost S link now message).sessions =
      (b.revokeComplete S now (b.manager.knownPrefix p)).sessions := by
  obtain ⟨command, params, ircPrefix⟩ := message
  cases params with
  | nil => simp at hparams
  | cons newUser params =>
    cases params with
    | nil => simp at hparams
    | cons newHost params =>
      simp only at hp
      simp only [handleChghost, hp, followSelf_sessions]
      rfl

theorem handleQuit_sessions (b : IrcBot) (now : ℚ) (hp : message.ircPrefix = some p) :
    (b.handleQuit S now message).sessions = (b.revokeComplete S now p).sessions := by
  simp only [handleQuit, hp]
  rfl

/-- NICK and CHGHOST complete the prefix before they revoke it, QUIT takes it as it is. -/
theorem onMessage_sessions (b : IrcBot) (link : Str → IrcLink) (now : ℚ)
    (hmessage : message.ChangesIdentity) (hp : message.ircPrefix = some p) :
    (b.onMessage S link now message).sessions = (b.revokeComplete S now
      (if message.command = lit "QUIT" then p else b.manager.knownPrefix p)).sessions := by
  rcases hmessage with ⟨hcommand, hparams⟩ | ⟨hcommand, hparams⟩ | hcommand
  · have hnew := List.getLast?_eq_some_getLast hparams
    have hroute : b.onMessage S link now message =
        (b.trackNick p (message.params.getLast hparams)).handleNick S link now message := by
      simp only [onMessage, hcommand, hp, hnew]
      rfl
    rw [hroute, handleNick_sessions _ _ _ hp hparams, hcommand, if_neg (by decide)]
    simp only [revokeComplete, trackNick_manager, trackNick_sessions]
  · have hroute : b.onMessage S link now message = b.handleChghost S link now message := by
      simp only [onMessage, hcommand]
      rfl
    rw [hroute, handleChghost_sessions _ _ _ hp hparams, hcommand, if_neg (by decide)]
  · have hroute : b.onMessage S link now message = b.handleQuit S now message := by
      simp only [onMessage, hcommand]
      rfl
    rw [hroute, handleQuit_sessions _ _ hp, hcommand, if_pos rfl]

/-! ## The session of the user -/

/-- The session `x` of an identity is revoked: the identity is not authorized any more,
its commands in flight are invalid, and a record that outranks the session is queued
under the session's own durable key: a revocation, or what was queued before. -/
structure Revoked (S : SessionScope) (now : ℚ) (before after : SessionSync) (identity : Str)
    (x : Session) : Prop where
  unauthorized : ∀ t, after.authorizer.authorized t identity = false
  invalid : after.watchedValid identity = false
  queued : ∃ q, after.queuedSession S now (casefold x.ircPrefix .ascii) = some q ∧
    x.order < q.order ∧ (q.revoked = true ∨
      before.queuedSession S now (casefold x.ircPrefix .ascii) = some q)

/-- The handler comes to know the identity: the prefix is complete, or the message is not
a QUIT and the first channel that knows the nick knows it under this identity; a command
of the identity that is still valid is found by its ASCII fold alone. -/
def Completed (b : IrcBot) (message : IRCMessage) (p : Prefix) (identity : Str) : Prop :=
  p.complete = true ∨ message.command ≠ lit "QUIT" ∧ ∃ q, b.manager.firstKnown p.nick = some q ∧
    b.sessions.authorizer.fold q.render = b.sessions.authorizer.fold identity ∧
    (casefold q.render .ascii = casefold identity .ascii ∨
      b.sessions.watchedValid identity = false)

/-- Where the channels agree on the identity of a nick, NICK and CHGHOST come to know it. -/
theorem completed_of_agree {P : Prefix} (hquit : message.command ≠ lit "QUIT")
    (hknown : ∃ e ∈ b.manager.channels, b.manager.knownIn p.nick e.2 = some P)
    (hagree : ∀ e ∈ b.manager.channels, ∀ q, b.manager.knownIn p.nick e.2 = some q → q = P) :
    b.Completed message p P.render :=
  .inr ⟨hquit, P, ChannelManager.firstKnown_of_agree hknown hagree, rfl, .inl rfl⟩

open SessionSync in
/-- What `revoke` of one identity means for the session of another. -/
theorem revoked_iff {s : SessionSync} {identity other : Str} {x : Session}
    (hbounded : s.authorizer.Bounded S now) (hactive : (s.authorizer.get now other).1 = some x) :
    Revoked S now s (s.revoke S now identity) other x ↔
      s.authorizer.fold identity = s.authorizer.fold other ∧
        (casefold identity .ascii = casefold other .ascii ∨ s.watchedValid other = false) := by
  constructor
  · intro h
    have hfold : s.authorizer.fold identity = s.authorizer.fold other := by
      by_contra hne
      have hsame := h.unauthorized now
      rw [Authorizer.authorized, revoke_active_of_ne hne, hactive] at hsame
      cases hsame
    refine ⟨hfold, or_iff_not_imp_left.mpr fun hne => ?_⟩
    have hinvalid := h.invalid
    rwa [revoke_watchedValid, invalidate_of_ne s hne] at hinvalid
  · rintro ⟨hfold, hascii⟩
    refine ⟨revoke_unauthorized hactive hfold, ?_, revoke_queued hbounded hactive hfold⟩
    rw [revoke_watchedValid]
    by_cases hne : casefold identity .ascii = casefold other .ascii
    · exact invalidate_invalid s hne
    · rw [invalidate_of_ne s hne]
      exact hascii.resolve_left hne

/-- The identity change of a user revokes the user's session exactly where the handler
comes to know the identity. A complete prefix is the user's own. -/
theorem revoked_iff_completed (b : IrcBot) (link : Str → IrcLink) (now : ℚ)
    (message : IRCMessage) (p P : Prefix) (x : Session)
    (hbounded : b.sessions.authorizer.Bounded S now) (hmessage : message.ChangesIdentity)
    (hp : message.ircPrefix = some p) (hown : p.complete = true → p = P)
    (hactive : (b.sessions.authorizer.get now P.render).1 = some x) :
    Revoked S now b.sessions (b.onMessage S link now message).sessions P.render x ↔
      b.Completed message p P.render := by
  have hkept : ¬ Revoked S now b.sessions b.sessions P.render x := by
    intro h
    have hsame := h.unauthorized now
    rw [Authorizer.authorized, hactive] at hsame
    cases hsame
  rw [onMessage_sessions b link now hmessage hp, revokeComplete, Completed]
  by_cases hcomplete : p.complete = true
  · obtain rfl := hown hcomplete
    rw [ChannelManager.knownPrefix_eq, if_pos hcomplete, ite_self, if_pos hcomplete,
      revoked_iff hbounded hactive]
    simp [hcomplete]
  by_cases hquit : message.command = lit "QUIT"
  · simp [hquit, hcomplete, hkept]
  rw [if_neg hquit, ChannelManager.knownPrefix_eq, if_neg hcomplete]
  cases hfirst : b.manager.firstKnown p.nick with
  | none => simp [hcomplete, hkept]
  | some q =>
    rw [Option.getD_some, if_pos (ChannelManager.firstKnown_complete hfirst),
      revoked_iff hbounded hactive]
    simp [hcomplete, hquit]

/-- A bot in one channel with an administrator `n!u@h`. -/
def sampleBot : IrcBot :=
  let link : Str → IrcLink := fun _ => ⟨true, false, true⟩
  let record : ChannelRecord := ⟨lit "#c", none, true, lit "1"⟩
  let granted := (Authorizer.grant sampleScope ⟨.rfc1459, []⟩ (lit "bot") 0 (lit "n!u@h")).2
  let welcomed : IrcBot := ⟨ChannelManager.init.applyRecord (link []) record, .initial, lit "b",
    true, none, { SessionSync.init with authorizer := granted }⟩
  let joins (p : Prefix) : IRCMessage := ⟨lit "JOIN", [lit "#c"], some p⟩
  (welcomed.onMessage sampleScope link 0 (joins ⟨lit "b", some (lit "u"), some (lit "g")⟩)).onMessage
    sampleScope link 0 (joins ⟨lit "n", some (lit "u"), some (lit "h")⟩)

/-- The full prefix of the administrator, and one that shows the nick alone. -/
def sampleAdmin : Prefix := ⟨lit "n", some (lit "u"), some (lit "h")⟩

def samplePartial : Prefix := ⟨lit "n", none, none⟩

theorem bounded_sampleBot : sampleBot.sessions.authorizer.Bounded sampleScope 0 := by
  have hall : sampleBot.sessions.authorizer.records.all (fun e =>
      decide (e.2.Valid ∧ e.2.expiresAt ≤ sampleScope.horizon 0)) = true := by
    decide +kernel
  rintro s ⟨key, hmem⟩
  exact of_decide_eq_true (List.all_eq_true.mp hall _ hmem)

theorem revoked_iff_completed_nickOnly :
    ∃ x, (sampleBot.sessions.authorizer.get 0 sampleAdmin.render).1 = some x ∧
      (Revoked sampleScope 0 sampleBot.sessions (sampleBot.onMessage sampleScope
        (fun _ => ⟨true, false, true⟩) 0 ⟨lit "NICK", [lit "m"], some samplePartial⟩).sessions
        sampleAdmin.render x ↔
      sampleBot.Completed ⟨lit "NICK", [lit "m"], some samplePartial⟩ samplePartial
        sampleAdmin.render) := by
  have hactive : (sampleBot.sessions.authorizer.get 0 sampleAdmin.render).1.isSome = true := by
    decide +kernel
  obtain ⟨x, hx⟩ := Option.isSome_iff_exists.mp hactive
  exact ⟨x, hx, revoked_iff_completed sampleBot _ 0 _ samplePartial sampleAdmin x bounded_sampleBot
    (.inl ⟨rfl, by simp⟩) rfl (by decide) hx⟩

/-- A QUIT that shows the nick alone leaves the session of the known user live. -/
theorem not_revoked_partialQuit : ¬ ∀ (S : SessionScope) (b : IrcBot) (link : Str → IrcLink)
    (now : ℚ) (message : IRCMessage) (p P : Prefix) (x : Session),
    b.sessions.authorizer.Bounded S now → message.ChangesIdentity → message.ircPrefix = some p →
    P.complete = true → (∃ e ∈ b.manager.channels, b.manager.knownIn P.nick e.2 = some P) →
    p.nick = P.nick → (p.complete = true → p = P) → (p.complete = true ∨ p.user = none) →
    (b.sessions.authorizer.get now P.render).1 = some x →
    Revoked S now b.sessions (b.onMessage S link now message).sessions P.render x := by
  intro h
  have hactive : (sampleBot.sessions.authorizer.get 0 sampleAdmin.render).1.isSome = true := by
    decide +kernel
  obtain ⟨x, hx⟩ := Option.isSome_iff_exists.mp hactive
  have hknown : sampleBot.manager.channels.any (fun e => decide
      (sampleBot.manager.knownIn sampleAdmin.nick e.2 = some sampleAdmin)) = true := by
    decide +kernel
  obtain ⟨e, he, hsame⟩ := List.any_eq_true.mp hknown
  have hrevoked := h sampleScope sampleBot (fun _ => ⟨true, false, true⟩) 0
    ⟨lit "QUIT", [], some samplePartial⟩ samplePartial sampleAdmin x bounded_sampleBot
    (.inr (.inr rfl)) rfl rfl ⟨e, he, of_decide_eq_true hsame⟩ rfl (by decide) (.inr rfl) hx
  have hlive : (sampleBot.onMessage sampleScope (fun _ => ⟨true, false, true⟩) 0
      ⟨lit "QUIT", [], some samplePartial⟩).sessions.authorizer.authorized 0
        sampleAdmin.render = true := by
    decide +kernel
  rw [hrevoked.unauthorized 0] at hlive
  cases hlive

end IrcBot

end Botnats
