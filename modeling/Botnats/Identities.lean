import Botnats.AuthorizerRekey
import Botnats.Masks

/-!
# Identities as whole strings

A mask and an identity are compared part by part, each part under its own table, while a
server matches the string `nick!user@host` as one, and sessions are filed under the fold
of that string. The separators make the two views one.
-/
namespace Botnats

variable {m : Casemapping} {nick user host s t : Str} {p q : Prefix}

/-- `nick!user@host`, the nick folded by the casemapping and the rest by ASCII -/
def wholeFold (m : Casemapping) (nick user host : Str) : Str :=
  casefold nick m ++ bang :: casefold user .ascii ++ 64 :: casefold host .ascii

theorem mem_casefold {c : CodePoint} (hc : c.val < 65) : c ∈ casefold s m ↔ c ∈ s := by
  rw [casefold, List.mem_map]
  constructor
  · rintro ⟨d, hd, heq⟩
    rwa [(foldChar_eq_iff m hc d).mp heq] at hd
  · exact fun hmem => ⟨c, hmem, (foldChar_eq_iff m hc c).mpr rfl⟩

theorem bang_mem_casefold : bang ∈ casefold s m ↔ bang ∈ s := mem_casefold (by decide)

theorem at_mem_casefold : (64 : CodePoint) ∈ casefold s m ↔ (64 : CodePoint) ∈ s :=
  mem_casefold (by decide)

theorem star_mem_casefold : (42 : CodePoint) ∈ casefold s m ↔ (42 : CodePoint) ∈ s :=
  mem_casefold (by decide)

theorem cut_inj {sep : CodePoint} {u u' v v' : Str} (hu : sep ∉ u) (hu' : sep ∉ u') :
    u ++ sep :: v = u' ++ sep :: v' ↔ u = u' ∧ v = v' := by
  constructor
  · intro heq
    have hcut := congrArg (partition sep) heq
    rw [partition_append hu, partition_append hu'] at hcut
    obtain ⟨rfl, hv⟩ := Prod.mk.inj hcut
    exact ⟨rfl, Option.some.inj hv⟩
  · rintro ⟨rfl, rfl⟩
    rfl

namespace Prefix

/-- The parts of an identity are read back where the separators stand first. -/
theorem parse_whole (hnick : bang ∉ nick) (huser : (64 : CodePoint) ∉ user)
    (huserNe : user ≠ []) (hhostNe : host ≠ []) :
    parse (nick ++ bang :: user ++ 64 :: host) = ⟨nick, some user, some host⟩ := by
  rw [List.append_assoc, List.cons_append, parse, partition_append hnick]
  dsimp only
  rw [partition_append huser]
  simp [nonEmpty, huserNe, hhostNe]

end Prefix

/-! ## Masks -/

/-- A mask `nick!user@host` with each separator in its place alone; its wildcards stand
anywhere in the parts. -/
structure CanonicalMask where
  nick : Str
  user : Str
  host : Str
  nonempty : ∀ part ∈ [nick, user, host], part ≠ []
  unseparated : ∀ part ∈ [nick, user, host], bang ∉ part ∧ (64 : CodePoint) ∉ part

def CanonicalMask.text (mask : CanonicalMask) : Str :=
  mask.nick ++ bang :: mask.user ++ 64 :: mask.host

/-- An identity without a separator or a wildcard in its parts -/
structure PlainIdentity where
  nick : Str
  user : Str
  host : Str
  plain : ∀ part ∈ [nick, user, host], ∀ c ∈ [bang, 64, 42, 63], c ∉ part

def PlainIdentity.toPrefix (identity : PlainIdentity) : Prefix :=
  ⟨identity.nick, some identity.user, some identity.host⟩

theorem CanonicalMask.parse_text (mask : CanonicalMask) :
    Prefix.parse mask.text = ⟨mask.nick, some mask.user, some mask.host⟩ :=
  Prefix.parse_whole (mask.unseparated _ (by simp)).1 (mask.unseparated _ (by simp)).2
    (mask.nonempty _ (by simp)) (mask.nonempty _ (by simp))

/-- One pattern matches the whole identity exactly if the parts match. -/
theorem matching_wholeFold (maskNick maskUser maskHost : Str) (identity : PlainIdentity) :
    Matching (wholeFold m maskNick maskUser maskHost)
        (wholeFold m identity.nick identity.user identity.host) ↔
      Matching (casefold maskNick m) (casefold identity.nick m) ∧
        Matching (casefold maskUser .ascii) (casefold identity.user .ascii) ∧
        Matching (casefold maskHost .ascii) (casefold identity.host .ascii) := by
  have hbang : ∀ part ∈ [identity.nick, identity.user, identity.host], bang ∉ part :=
    fun part hpart => identity.plain part hpart bang (by simp)
  have hat : ∀ part ∈ [identity.nick, identity.user, identity.host], (64 : CodePoint) ∉ part :=
    fun part hpart => identity.plain part hpart 64 (by simp)
  have hbefore : (64 : CodePoint) ∉ casefold identity.nick m ++
      bang :: casefold identity.user .ascii := by
    rw [List.mem_append, List.mem_cons, at_mem_casefold, at_mem_casefold, not_or, not_or]
    exact ⟨hat _ (by simp), by decide, hat _ (by simp)⟩
  unfold wholeFold
  rw [Matching, Glob.Matches.separator_iff (by decide) (by decide) hbefore
      (mt at_mem_casefold.mp (hat _ (by simp))),
    Glob.Matches.separator_iff (by decide) (by decide) (mt bang_mem_casefold.mp (hbang _ (by simp)))
      (mt bang_mem_casefold.mp (hbang _ (by simp))), and_assoc]

/-- Matching part by part is matching the whole string: no wildcard reaches over a
separator. -/
theorem maskMatches_iff_whole (mask : CanonicalMask) (identity : PlainIdentity)
    (m : Casemapping) :
    maskMatches mask.text identity.toPrefix m = true ↔
      Matching (wholeFold m mask.nick mask.user mask.host)
        (wholeFold m identity.nick identity.user identity.host) := by
  have hstar : ∀ part ∈ [identity.nick, identity.user, identity.host], ∀ m',
      (42 : CodePoint) ∉ casefold part m' := by
    intro part hpart m' hmem
    exact identity.plain part hpart 42 (by simp) (star_mem_casefold.mp hmem)
  rw [matching_wholeFold]
  simp only [maskMatches, mask.parse_text, PlainIdentity.toPrefix, Option.getD_some,
    Bool.and_eq_true]
  rw [matching_iff_globMatches (.inr (hstar _ (by simp) m)),
    matching_iff_globMatches (.inr (hstar _ (by simp) .ascii)),
    matching_iff_globMatches (.inr (hstar _ (by simp) .ascii)), and_assoc]

theorem wildMask_nonempty : ∀ part ∈ [lit "N?*", lit "*", lit "*.B"], part ≠ [] := by decide

theorem wildMask_unseparated : ∀ part ∈ [lit "N?*", lit "*", lit "*.B"],
    bang ∉ part ∧ (64 : CodePoint) ∉ part := by decide

def wildMask : CanonicalMask :=
  ⟨lit "N?*", lit "*", lit "*.B", wildMask_nonempty, wildMask_unseparated⟩

theorem plainIdentity_plain : ∀ part ∈ [lit "nICK", lit "u", lit "a.b"],
    ∀ c ∈ [bang, 64, 42, 63], c ∉ part := by
  have hall : ([lit "nICK", lit "u", lit "a.b"].all fun part =>
      [bang, 64, 42, 63].all fun c => decide (c ∉ part)) = true := by decide +kernel
  exact fun part hpart c hc =>
    of_decide_eq_true (List.all_eq_true.mp (List.all_eq_true.mp hall part hpart) c hc)

def plainIdentity : PlainIdentity := ⟨lit "nICK", lit "u", lit "a.b", plainIdentity_plain⟩

/-- `N?*!*@*.B` matches `nick!u@a.b` as one pattern, and so part by part. -/
theorem maskMatches_iff_whole_wild :
    maskMatches wildMask.text plainIdentity.toPrefix .rfc1459 = true := by
  refine (maskMatches_iff_whole wildMask plainIdentity .rfc1459).mpr ?_
  have hmask : wholeFold .rfc1459 wildMask.nick wildMask.user wildMask.host =
      lit "n?*!*@*.b" := by decide
  have hidentity : wholeFold .rfc1459 plainIdentity.nick plainIdentity.user plainIdentity.host =
      lit "nick!u@a.b" := by decide
  rw [hmask, hidentity]
  have hhost : Matching (lit "*.b") (lit "a.b") := Glob.Matches.nil.same.same.empty.extend
  have huser : Matching (lit "*@*.b") (lit "u@a.b") := hhost.same.empty.extend
  exact huser.same.empty.extend.extend.single.same

/-! ## Sessions -/

/-- What `Prefix.parse` finds in a complete identity -/
structure Parsed (p : Prefix) (user host : Str) : Prop where
  eq : p = ⟨p.nick, some user, some host⟩
  bang_notMem : bang ∉ p.nick
  at_notMem : (64 : CodePoint) ∉ user
  user_ne : user ≠ []
  host_ne : host ≠ []

theorem nonEmpty_eq_some (h : Prefix.nonEmpty s = some user) :
    s = user ∧ user ≠ [] := by
  unfold Prefix.nonEmpty at h
  split_ifs at h with hs
  obtain rfl := Option.some.inj h
  exact ⟨rfl, hs⟩

/-- A complete identity was cut at its first `!` and at the first `@` behind it. -/
theorem parsed_of_complete (h : (Prefix.parse s).complete = true) :
    ∃ user host, Parsed (Prefix.parse s) user host := by
  simp only [Prefix.complete, Bool.and_eq_true, Option.isSome_iff_exists] at h
  obtain ⟨⟨user, huser⟩, host, hhost⟩ := h
  refine ⟨user, host, ?_⟩
  unfold Prefix.parse at huser hhost ⊢
  rcases hcut : partition bang s with ⟨nick, rest⟩
  cases rest with
  | none => simp [hcut] at huser
  | some remainder =>
    rcases hsplit : partition 64 remainder with ⟨before, after⟩
    simp only [hcut, hsplit] at huser hhost ⊢
    obtain ⟨rfl, huserNe⟩ := nonEmpty_eq_some huser
    cases after with
    | none => simp at hhost
    | some after =>
      obtain ⟨rfl, hhostNe⟩ := nonEmpty_eq_some hhost
      exact ⟨by simp [Prefix.nonEmpty, huserNe, hhostNe], (of_partition hcut).1,
        (of_partition hsplit).1, huserNe, hhostNe⟩

namespace Parsed

variable {pUser pHost qUser qHost : Str}

theorem render (h : Parsed p user host) : p.render = p.nick ++ bang :: user ++ 64 :: host := by
  rw [h.eq, Prefix.render]

/-- An identity is rendered as it was read. -/
theorem parse_render (h : Parsed p user host) : Prefix.parse p.render = p := by
  rw [h.render, Prefix.parse_whole h.bang_notMem h.at_notMem h.user_ne h.host_ne]
  exact h.eq.symm

theorem foldIdentity_render (h : Parsed p user host) (m : Casemapping) :
    foldIdentity m p.render = wholeFold m p.nick user host := by
  rw [h.render, List.append_assoc, List.cons_append, foldIdentity, partition_append h.bang_notMem]
  simp [wholeFold, casefold, (foldChar_eq_iff .ascii (show (64 : CodePoint).val < 65 by decide) 64)]

/-- The separators of two folds stand at the same places. -/
theorem wholeFold_eq_iff (hp : Parsed p pUser pHost) (hq : Parsed q qUser qHost) :
    wholeFold m p.nick pUser pHost = wholeFold m q.nick qUser qHost ↔
      casefold p.nick m = casefold q.nick m ∧ casefold pUser .ascii = casefold qUser .ascii ∧
        casefold pHost .ascii = casefold qHost .ascii := by
  unfold wholeFold
  rw [List.append_assoc, List.append_assoc, List.cons_append, List.cons_append,
    cut_inj (mt bang_mem_casefold.mp hp.bang_notMem) (mt bang_mem_casefold.mp hq.bang_notMem),
    cut_inj (mt at_mem_casefold.mp hp.at_notMem) (mt at_mem_casefold.mp hq.at_notMem)]

/-- Two identities have one fold exactly if they match. -/
theorem foldIdentity_iff_matches (hp : Parsed p pUser pHost) (hq : Parsed q qUser qHost) :
    foldIdentity m p.render = foldIdentity m q.render ↔ p.matchesPrefix q m = true := by
  rw [hp.foldIdentity_render, hq.foldIdentity_render, hp.wholeFold_eq_iff hq]
  unfold Prefix.matchesPrefix
  rw [hp.eq, hq.eq]
  exact decide_eq_true_iff.symm

end Parsed

/-- The lookup for the sender finds the session. -/
def Authorizer.Admits (a : Authorizer) (now : ℚ) (session : Session) (sender : Prefix) : Prop :=
  (a.get now sender.render).1 = some session

/-- A lookup finds the live session filed under its key. -/
theorem Authorizer.get_of_record {a : Authorizer} {now : ℚ} {identity : Str} {session : Session}
    (h : a.record identity = some session) (hlive : now < session.expiresAt)
    (hgranted : session.revoked = false) : a.get now identity = (some session, a) := by
  unfold Authorizer.get
  rw [h]
  simp only [if_neg hlive.not_ge, hgranted]
  rfl

/-- A live session is found by those that share the fold of its prefix. -/
theorem Authorizer.Keyed.admits_iff {a : Authorizer} (h : a.Keyed) {session : Session} {now : ℚ}
    (hcached : a.Caches session) (hlive : now < session.expiresAt)
    (hgranted : session.revoked = false) (p : Prefix) :
    a.Admits now session p ↔ a.fold p.render = a.fold session.ircPrefix := by
  have hrecord := h.record_of_caches hcached
  constructor
  · intro hget
    unfold Admits Authorizer.get at hget
    split at hget
    · simp at hget
    · rename_i found hfound
      split_ifs at hget
      obtain rfl := Option.some.inj hget
      exact (h.fold _ (Assoc.mem_of_lookup hfound))
  · intro hfold
    rw [Admits, get_of_record ((record_congr hfold).trans hrecord) hlive hgranted]

/-- A grant authorizes those who share the fold of its prefix, unless they have a record
of their own. -/
theorem Authorizer.authorized_grant (S : SessionScope) (a : Authorizer) (issuer identity : Str)
    {granted now : ℚ} (hlive : now < granted + S.ttl) {sender : Str}
    (hnone : a.record sender = none) :
    (a.grant S issuer granted identity).2.authorized now sender = true ↔
      a.fold sender = a.fold identity := by
  have hlookup : ∀ b : Authorizer, b.record sender = none → b.authorized now sender = false := by
    intro b hb
    simp [authorized, Authorizer.get, hb]
  by_cases hfold : a.fold sender = a.fold identity
  · have hfirst : a.record identity = none := by rw [← record_congr hfold, hnone]
    have hstored : (a.store (createSession S identity (granted + S.ttl) issuer 0 false)).record
        sender = some (createSession S identity (granted + S.ttl) issuer 0 false) := by
      unfold record
      exact hfold ▸ Assoc.lookup_assign_self _ _ _
    simp only [hfold, iff_true, Authorizer.grant, hfirst, authorized]
    rw [get_of_record hstored hlive rfl]
    rfl
  · have hkept : ∀ session : Session, session.ircPrefix = identity →
        (a.store session).record sender = none := by
      rintro session rfl
      exact (Assoc.lookup_assign_of_ne _ _ (Ne.symm hfold)).trans hnone
    simp only [hfold, iff_false, Bool.not_eq_true]
    refine hlookup _ ?_
    unfold Authorizer.grant
    dsimp only
    split
    · exact hkept _ rfl
    · split_ifs
      · exact hkept _ rfl
      · exact hnone

/-- Reading, folding and matching identities agree: an identity is rendered as it was
read, its fold is that of the identities that match it, and the durable key refines the
fold. So a session admits the senders that match the identity that it was granted to. -/
theorem identities_agree (hp : (Prefix.parse s).complete = true)
    (hq : (Prefix.parse t).complete = true) :
    let p := Prefix.parse s
    let q := Prefix.parse t
    Prefix.parse p.render = p ∧
    (∀ m, foldIdentity m p.render = foldIdentity m q.render ↔ p.matchesPrefix q m = true) ∧
    (casefold p.render .ascii = casefold q.render .ascii →
      ∀ m, p.matchesPrefix q m = true) ∧
    (∀ (a : Authorizer) (session : Session) (now : ℚ), a.Keyed → a.Caches session →
      session.ircPrefix = q.render → session.revoked = false → now < session.expiresAt →
      (a.Admits now session p ↔ p.matchesPrefix q a.casemapping = true)) ∧
    ∀ (S : SessionScope) (a : Authorizer) (issuer : Str) (granted now : ℚ),
      a.record p.render = none → now < granted + S.ttl →
      ((a.grant S issuer granted q.render).2.authorized now p.render = true ↔
        p.matchesPrefix q a.casemapping = true) := by
  intro p q
  obtain ⟨pUser, pHost, hread⟩ := parsed_of_complete hp
  obtain ⟨qUser, qHost, hreadq⟩ := parsed_of_complete hq
  have hfold : ∀ m, foldIdentity m p.render = foldIdentity m q.render ↔
      p.matchesPrefix q m = true := fun m => hread.foldIdentity_iff_matches hreadq
  refine ⟨hread.parse_render, hfold, ?_, ?_, ?_⟩
  · intro hkey m
    exact (hfold m).mp (foldIdentity_congr m hkey)
  · intro a session now hkeyed hcached hprefix hgranted hlive
    rw [hkeyed.admits_iff hcached hlive hgranted, hprefix]
    exact hfold a.casemapping
  · intro S a issuer granted now hnone hlive
    rw [Authorizer.authorized_grant S a issuer q.render hlive hnone]
    exact hfold a.casemapping

/-- Two spellings of an identity with odd characters in each part -/
theorem identities_agree_sample :
    let a : Authorizer := ⟨.rfc1459, []⟩
    (a.grant sampleScope (lit "bot") 0 (lit "al[ice!~A@x@Y!z")).2.authorized 1
      (lit "AL\x7bICE!~a@X@y!Z") = true := by
  intro a
  have hagree := identities_agree (s := lit "AL\x7bICE!~a@X@y!Z") (t := lit "al[ice!~A@x@Y!z")
    (by decide) (by decide)
  exact (hagree.2.2.2.2 sampleScope a (lit "bot") 0 1 rfl (by norm_num [sampleScope])).mpr
    (by decide)

end Botnats
