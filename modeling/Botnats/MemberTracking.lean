import Botnats.MemberHandlers

/-!
# Tracked members

`Mirrors` ties the members of a runtime to the server's view of the channel. It is kept
because what a handler makes of the runtimes agrees with what the server's step makes of
the seats; a NAMES reply builds it entry by entry.
-/
namespace Botnats

namespace IrcServer

/-- A tracked member agrees with the server's user and modes. -/
structure Shows (cm : Casemapping) (ops : Str) (x : ServerUser) (modes : List CodePoint)
    (member : ChannelMember) : Prop where
  nick : casefold member.nick cm = casefold x.nick cm
  modes : ∀ mode ∈ ops, mode ∈ member.modes ↔ mode ∈ modes
  known : ∀ p, member.ircPrefix = some p → p.complete = true → p = x.toPrefix

/-- The tracked members are those that the server has on the channel. -/
structure Mirrors (cm : Casemapping) (ops : Str) (s : IrcServer) (f : Str)
    (members : List (Str × ChannelMember)) : Prop where
  absent : ∀ k, s.seats f k = none → Assoc.lookup k members = none
  present : ∀ k x modes, s.users k = some x → s.seats f k = some modes →
    ∃ member, Assoc.lookup k members = some member ∧ Shows cm ops x modes member

variable {r : MemberRanks} {cm : Casemapping} {ops : Str} {s s' : IrcServer} {f k : Str}
  {members members' : List (Str × ChannelMember)}

/-- A channel whose seats and users stay. -/
theorem Mirrors.congr (h : Mirrors cm ops s f members) (hseats : ∀ k, s'.seats f k = s.seats f k)
    (husers : ∀ k, s.seats f k ≠ none → s'.users k = s.users k) : Mirrors cm ops s' f members where
  absent := fun k hk => h.absent k (hseats k ▸ hk)
  present := by
    intro k x modes hx hmodes
    rw [hseats] at hmodes
    rw [husers k (by simp [hmodes])] at hx
    exact h.present k x modes hx hmodes

/-- One seat and one member change. -/
theorem Mirrors.update (h : Mirrors cm ops s f members) (k : Str)
    (hseats : ∀ j, j ≠ k → s'.seats f j = s.seats f j) (husers : ∀ j, j ≠ k → s'.users j = s.users j)
    (hlookup : ∀ j, j ≠ k → Assoc.lookup j members' = Assoc.lookup j members)
    (habsent : s'.seats f k = none → Assoc.lookup k members' = none)
    (hpresent : ∀ x modes, s'.users k = some x → s'.seats f k = some modes →
      ∃ member, Assoc.lookup k members' = some member ∧ Shows cm ops x modes member) :
    Mirrors cm ops s' f members' where
  absent := by
    intro j hj
    by_cases hjk : j = k
    · exact hjk ▸ habsent (hjk ▸ hj)
    · rw [hlookup j hjk]
      exact h.absent j (hseats j hjk ▸ hj)
  present := by
    intro j x modes hx hmodes
    by_cases hjk : j = k
    · subst hjk
      exact hpresent x modes hx hmodes
    · rw [hlookup j hjk]
      exact h.present j x modes (husers j hjk ▸ hx) (hseats j hjk ▸ hmodes)

/-! ## A full NAMES reply -/

/-- Part of a NAMES reply is in: the members sit in the channel, and the modes of those
listed so far are the server's. -/
structure Listing (cm : Casemapping) (ops : Str) (s : IrcServer) (f : Str) (listed : Str → Prop)
    (members : List (Str × ChannelMember)) : Prop where
  sound : ∀ k member, Assoc.lookup k members = some member → ∃ x modes, s.users k = some x ∧
    s.seats f k = some modes ∧ casefold member.nick cm = casefold x.nick cm ∧
    ∀ p, member.ircPrefix = some p → p.complete = true → p = x.toPrefix
  full : ∀ k, listed k → ∃ member modes, Assoc.lookup k members = some member ∧
    s.seats f k = some modes ∧ ∀ mode ∈ ops, mode ∈ member.modes ↔ mode ∈ modes

theorem Listing.mirrors {listed : Str → Prop} (h : Listing cm ops s f listed members)
    (hall : ∀ k, s.seats f k ≠ none → listed k) : Mirrors cm ops s f members where
  absent := by
    intro k hk
    cases hlookup : Assoc.lookup k members with
    | none => rfl
    | some member =>
      obtain ⟨x, modes, -, hmodes, -⟩ := h.sound k member hlookup
      rw [hk] at hmodes
      cases hmodes
  present := by
    intro k x modes hx hmodes
    obtain ⟨member, modes', hlookup, hmodes', hops⟩ := h.full k (hall k (by simp [hmodes]))
    obtain ⟨x', -, hx', -, hnick, hknown⟩ := h.sound k member hlookup
    rw [hx] at hx'
    rw [hmodes] at hmodes'
    obtain rfl := Option.some.inj hx'
    obtain rfl := Option.some.inj hmodes'
    exact ⟨member, hlookup, hnick, hops, hknown⟩

/-- An entry stands for one member. -/
theorem Listed.unique (hs : s.Consistent r cm) (base : ISupport) {entry j : Str}
    (hk : s.Listed r f entry k) (hj : s.Listed r f entry j) : j = k := by
  obtain ⟨x, modes, symbols, hx, -, hentry, hsub, -⟩ := hk
  obtain ⟨y, modes', symbols', hy, -, hentry', hsub', -⟩ := hj
  obtain ⟨hfold, hnick⟩ := hs.user k x hx
  obtain ⟨hfold', hnick'⟩ := hs.user j y hy
  have hread := (undecorate_symbols base hnick hsub).1
  have hread' := (undecorate_symbols base hnick' hsub').1
  rw [← hentry] at hread
  rw [← hentry'] at hread'
  rw [← hfold, ← hfold', ← hread, ← hread']

theorem Listing.entry (hs : s.Consistent r cm) {base : ISupport} {c : ChannelRuntime}
    {listed : Str → Prop} (hc : c.casemapping = cm)
    (h : Listing cm (base.parsePrefix r.value).operatorModes s f listed c.members) {entry : Str}
    (hentry : ∃ k, s.Listed r f entry k) :
    Listing cm (base.parsePrefix r.value).operatorModes s f
      (fun j => listed j ∨ s.Listed r f entry j)
      (IrcBot.nameMember (base.parsePrefix r.value) c entry).members := by
  obtain ⟨k, hk⟩ := hentry
  obtain ⟨x, modes, symbols, hx, hseat, heq, hsub, hshown⟩ := id hk
  obtain ⟨hfold, hnick⟩ := hs.user k x hx
  obtain ⟨-, hranked⟩ := hs.seated f k modes hseat
  obtain ⟨hread, hmodes⟩ := undecorate_symbols base hnick hsub
  rw [← heq] at hread hmodes
  have hmember : IrcBot.nameMember (base.parsePrefix r.value) c entry = c.withMember x.nick
      fun member => { member with
        modes := (undecorate (base.parsePrefix r.value) entry).1 } := by
    unfold IrcBot.nameMember
    dsimp only
    rw [hread, if_neg hnick.ne]
  have hlookup : ∀ j, Assoc.lookup j (IrcBot.nameMember (base.parsePrefix r.value) c entry).members =
      if k = j then some { (Assoc.lookup j c.members).getD ⟨x.nick, [], none⟩ with
        nick := x.nick, modes := (undecorate (base.parsePrefix r.value) entry).1 }
      else Assoc.lookup j c.members := by
    intro j
    rw [hmember, ChannelRuntime.lookup_withMember, hc, hfold]
  have hops : ∀ mode ∈ (base.parsePrefix r.value).operatorModes,
      mode ∈ (undecorate (base.parsePrefix r.value) entry).1 ↔ mode ∈ modes := by
    intro mode hop
    rw [hmodes, hshown.iff hranked]
    exact and_iff_right hop
  refine ⟨fun j member hj => ?_, fun j hj => ?_⟩
  · rw [hlookup] at hj
    split_ifs at hj with hjk
    · subst hjk
      obtain rfl := Option.some.inj hj
      refine ⟨x, modes, hx, hseat, rfl, fun p hp hcomplete => ?_⟩
      cases hold : Assoc.lookup k c.members with
      | none => simp [hold] at hp
      | some old =>
        rw [hold] at hp
        obtain ⟨y, -, hy, -, -, hknown⟩ := h.sound k old hold
        rw [hx] at hy
        obtain rfl := Option.some.inj hy
        exact hknown p hp hcomplete
    · exact h.sound j member hj
  · by_cases hjk : k = j
    · subst hjk
      exact ⟨_, modes, by rw [hlookup, if_pos rfl], hseat, hops⟩
    · obtain ⟨member, modes', hmember, hrest⟩ :=
        h.full j (hj.resolve_right fun hlisted => hjk (hk.unique hs base hlisted).symm)
      exact ⟨member, modes', by rw [hlookup, if_neg hjk, hmember], hrest⟩

theorem nameMember_casemapping (caps : ISupport) (c : ChannelRuntime) (entry : Str) :
    (IrcBot.nameMember caps c entry).casemapping = c.casemapping := by
  unfold IrcBot.nameMember
  dsimp only
  split_ifs <;> rfl

theorem foldl_nameMember_casemapping (caps : ISupport) (entries : List Str) (c : ChannelRuntime) :
    (entries.foldl (IrcBot.nameMember caps) c).casemapping = c.casemapping :=
  List.foldlRecOn entries _ (motive := fun d => d.casemapping = c.casemapping) rfl
    fun d hd entry _ => (nameMember_casemapping caps d entry).trans hd

theorem Listing.entries (hs : s.Consistent r cm) {base : ISupport} {listed : Str → Prop}
    (entries : List Str) {c : ChannelRuntime} (hc : c.casemapping = cm)
    (h : Listing cm (base.parsePrefix r.value).operatorModes s f listed c.members)
    (hentries : ∀ entry ∈ entries, ∃ k, s.Listed r f entry k) :
    Listing cm (base.parsePrefix r.value).operatorModes s f
      (fun j => listed j ∨ ∃ entry ∈ entries, s.Listed r f entry j)
      (entries.foldl (IrcBot.nameMember (base.parsePrefix r.value)) c).members := by
  induction entries generalizing listed c with
  | nil => simpa using h
  | cons entry entries ih =>
    have hone := h.entry hs hc (hentries entry List.mem_cons_self)
    have hrest := ih ((nameMember_casemapping _ c entry).trans hc) hone
      fun e he => hentries e (List.mem_cons_of_mem entry he)
    refine ⟨hrest.sound, fun k hk => hrest.full k ?_⟩
    rcases hk with hk | ⟨e, he, hk⟩
    · exact .inl (.inl hk)
    · rcases List.mem_cons.mp he with rfl | he
      · exact .inl (.inr hk)
      · exact .inr ⟨e, he, hk⟩

/-! ## The bot beside the server -/

/-- The runtimes of the bot have the server's casemapping, and members as `P` says. -/
structure Tracked (cm : Casemapping) (caps : ISupport)
    (P : Str → List (Str × ChannelMember) → Prop) (b : IrcBot) : Prop where
  casemapping : b.manager.casemapping = cm
  caps : b.caps = caps
  runtime : ∀ f c, Assoc.lookup f b.manager.channels = some c →
    c.casemapping = cm ∧ P f c.members

variable {caps : ISupport} {P P' : Str → List (Str × ChannelMember) → Prop} {b b' : IrcBot}
  {g : Str → ChannelRuntime → ChannelRuntime}

theorem Tracked.reshape (h : Tracked cm caps P b) (hr : b.Reshapes g b')
    (hg : ∀ f c, c.casemapping = cm → P f c.members →
      (g f c).casemapping = cm ∧ P' f (g f c).members) : Tracked cm caps P' b' where
  casemapping := hr.casemapping.trans h.casemapping
  caps := hr.caps.trans h.caps
  runtime := by
    intro f c' hc'
    obtain ⟨c, hc, hmembers, hcasemapping⟩ := hr.runtime f c' hc'
    obtain ⟨hcm, hP⟩ := h.runtime f c hc
    rw [hmembers, hcasemapping]
    exact hg f c hcm hP

/-- A line about one channel. -/
theorem Tracked.reshapeAt (h : Tracked cm caps P b) {channel : Str}
    {change : ChannelRuntime → ChannelRuntime}
    (hr : b.Reshapes (fun f c => if b.manager.fold channel = f then change c else c) b')
    (hat : ∀ c, c.casemapping = cm → P (casefold channel cm) c.members →
      (change c).casemapping = cm ∧ P' (casefold channel cm) (change c).members)
    (hother : ∀ f members, f ≠ casefold channel cm → P f members → P' f members) :
    Tracked cm caps P' b' := by
  have hfold : b.manager.fold channel = casefold channel cm := by
    rw [ChannelManager.fold, h.casemapping]
  refine h.reshape hr fun f c hc hP => ?_
  rw [hfold]
  by_cases hf : casefold channel cm = f
  · subst hf
    rw [if_pos rfl]
    exact hat c hc hP
  · rw [if_neg hf]
    exact ⟨hc, hother f _ (Ne.symm hf) hP⟩

theorem Tracked.mono (h : Tracked cm caps P b) (hP : ∀ f members, P f members → P' f members) :
    Tracked cm caps P' b :=
  ⟨h.casemapping, h.caps, fun f c hc => (h.runtime f c hc).imp_right (hP f c.members)⟩

/-- What holds of the bot beside the server: it knows its nick, and the members of every
channel that it is on are the server's. -/
structure Tracks (r : MemberRanks) (base : ISupport) (cm : Casemapping) (s : IrcServer)
    (b : IrcBot) : Prop where
  consistent : s.Consistent r cm
  nick : casefold b.currentNick cm = s.self
  tracked : Tracked cm (base.parsePrefix r.value) (fun f members =>
    s.Sees f → Mirrors cm (base.parsePrefix r.value).operatorModes s f members) b

variable {base : ISupport}

theorem Tracked.isSelf (h : Tracked cm caps P b) {self nick : Str}
    (hself : casefold b.currentNick cm = self) :
    b.isSelf nick = true ↔ casefold nick cm = self := by
  rw [IrcBot.isSelf, decide_eq_true_iff, ChannelManager.fold, ChannelManager.fold, h.casemapping,
    hself]

/-- The JOIN of another user. -/
theorem Mirrors.join (hs : s.Consistent r cm) {x : ServerUser} {p : Prefix} {c : ChannelRuntime}
    (hc : c.casemapping = cm) (h : Mirrors cm ops s f c.members) (hx : s.users k = some x)
    (habsent : s.seats f k = none) (hp : x.Sends p) :
    Mirrors cm ops (s.seat f k (some [])) f (c.joinedBy p false).members := by
  have hfold : casefold p.nick c.casemapping = k := by
    rw [hc]
    exact hs.sender_fold hx hp
  have hlookup : ∀ j, Assoc.lookup j (c.joinedBy p false).members = if k = j then
      some { (Assoc.lookup j c.members).getD ⟨p.nick, [], none⟩ with
        nick := p.nick, ircPrefix := some p } else Assoc.lookup j c.members := by
    intro j
    rw [ChannelRuntime.joinedBy, if_neg Bool.false_ne_true, ChannelRuntime.lookup_withMember, hfold]
  refine h.update k (fun j hj => seat_of_ne s f _ hj) (fun j _ => rfl)
    (fun j hj => by rw [hlookup, if_neg (Ne.symm hj)]) (by simp) fun y modes hy hmodes => ?_
  rw [seat_users, hx] at hy
  rw [seat_same] at hmodes
  obtain rfl := Option.some.inj hy
  obtain rfl := Option.some.inj hmodes
  refine ⟨_, by rw [hlookup, if_pos rfl], ?_⟩
  rw [h.absent k habsent]
  refine ⟨congrArg (casefold · cm) hp.nick, fun mode _ => Iff.rfl, fun q hq hcomplete => ?_⟩
  obtain rfl := Option.some.inj hq
  exact hp.complete hcomplete

/-- A user who is not the bot leaves a channel. -/
theorem Mirrors.remove {c : ChannelRuntime} {nick : Str} (hfold : casefold nick c.casemapping = k)
    (h : Mirrors cm ops s f c.members) (hseats : ∀ j, j ≠ k → s'.seats f j = s.seats f j)
    (husers : ∀ j, j ≠ k → s'.users j = s.users j) (hgone : s'.seats f k = none) :
    Mirrors cm ops s' f (c.remove nick).members := by
  refine h.update k hseats husers (fun j hj => ?_) (fun _ => ?_) (by simp [hgone])
  · rw [ChannelRuntime.lookup_remove, hfold, if_neg (Ne.symm hj)]
  · rw [ChannelRuntime.lookup_remove, hfold, if_pos rfl]

/-- A WHO reply. -/
theorem Mirrors.who (hs : s.Consistent r cm) {x : ServerUser} {modes : List CodePoint}
    {flags : Str} {c : ChannelRuntime} (hc : c.casemapping = cm)
    (h : Mirrors cm (base.parsePrefix r.value).operatorModes s f c.members)
    (hx : s.users k = some x) (hseat : s.seats f k = some modes) (hshown : r.Shown modes flags) :
    Mirrors cm (base.parsePrefix r.value).operatorModes s f
      (c.withMember x.nick fun member => { member with
        ircPrefix := some ⟨x.nick, some x.user, some x.host⟩
        modes := whoModes (base.parsePrefix r.value) flags }).members := by
  have hfold : casefold x.nick c.casemapping = k := by
    rw [hc]
    exact hs.nick_eq hx
  refine h.update k (fun _ _ => rfl) (fun _ _ => rfl)
    (fun j hj => by rw [ChannelRuntime.lookup_withMember, hfold, if_neg (Ne.symm hj)])
    (by simp [hseat]) fun y modes' hy hmodes' => ?_
  rw [hx] at hy
  rw [hseat] at hmodes'
  obtain rfl := Option.some.inj hy
  obtain rfl := Option.some.inj hmodes'
  refine ⟨_, by rw [ChannelRuntime.lookup_withMember, hfold, if_pos rfl], rfl, fun mode hop => ?_,
    fun p hp _ => (Option.some.inj hp).symm⟩
  exact mem_whoModes hshown (hs.seated f k modes hseat).2 hop

/-- A user's host changes. -/
theorem Mirrors.rehost {x : ServerUser} {newUser newHost nick : Str} {c : ChannelRuntime}
    (hnick : nick = x.nick) (h : Mirrors cm ops s f c.members) (hx : s.users k = some x) :
    Mirrors cm ops (s.put k { x with user := newUser, host := newHost }) f
      (ChannelManager.rehostIn k ⟨nick, some newUser, some newHost⟩ c).members := by
  have husers : ∀ j, j ≠ k →
      (s.put k { x with user := newUser, host := newHost }).users j = s.users j := by
    intro j hj
    rw [put_users, if_neg hj]
  unfold ChannelManager.rehostIn
  cases hlookup : Assoc.lookup k c.members with
  | none =>
    refine h.update k (fun _ _ => rfl) husers (fun _ _ => rfl) (fun _ => hlookup)
      fun y modes hy hmodes => ?_
    obtain ⟨member, hmember, -⟩ := h.present k x modes hx hmodes
    rw [hlookup] at hmember
    cases hmember
  | some member =>
    refine h.update k (fun _ _ => rfl) husers
      (fun j hj => Assoc.lookup_assign_of_ne _ _ (Ne.symm hj)) (fun hnone => ?_)
      fun y modes hy hmodes => ?_
    · have habsent := h.absent k hnone
      rw [hlookup] at habsent
      cases habsent
    · rw [put_users, if_pos rfl] at hy
      obtain rfl := Option.some.inj hy
      obtain ⟨member', hmember', hshows⟩ := h.present k x modes hx hmodes
      rw [hlookup] at hmember'
      obtain rfl := Option.some.inj hmember'
      refine ⟨_, Assoc.lookup_assign_self _ _ _, hshows.nick, hshows.modes, fun p hp _ => ?_⟩
      rw [← Option.some.inj hp, hnick]
      rfl

/-- A user goes by another nick. -/
theorem Mirrors.rename (hs : s.Consistent r cm) {x : ServerUser} {newNick : Str}
    {c : ChannelRuntime} (h : Mirrors cm ops s f c.members) (hx : s.users k = some x)
    (hfree : casefold newNick cm = k ∨ s.users (casefold newNick cm) = none) :
    Mirrors cm ops (s.rename k (casefold newNick cm) { x with nick := newNick }) f
      (ChannelManager.renameIn k (casefold newNick cm) newNick c).members := by
  unfold ChannelManager.renameIn
  cases hlookup : Assoc.lookup k c.members with
  | none =>
    have habsent : s.seats f k = none := by
      by_contra hne
      obtain ⟨modes, hmodes⟩ := Option.ne_none_iff_exists'.mp hne
      obtain ⟨member, hmember, -⟩ := h.present k x modes hx hmodes
      rw [hlookup] at hmember
      cases hmember
    have hnew : s.seats f (casefold newNick cm) = none := by
      rcases hfree with heq | hnone
      · rw [heq, habsent]
      · exact hs.free hnone f
    refine h.congr (fun j => ?_) fun j hj => ?_
    · rw [rename_seats]
      split_ifs with hj hk
      · rw [hj, hnew, habsent]
      · rw [hk, habsent]
      · rfl
    · rw [rename_users, if_neg, if_neg]
      · exact fun hk => hj (hk ▸ habsent)
      · exact fun hk => hj (hk ▸ hnew)
  | some member =>
    have hread : ∀ j, Assoc.lookup j (Assoc.assign (casefold newNick cm)
        (ChannelManager.renamed member newNick) (Assoc.discard k c.members)) =
        if j = casefold newNick cm then some (ChannelManager.renamed member newNick)
        else if j = k then none else Assoc.lookup j c.members := by
      intro j
      by_cases hj : j = casefold newNick cm
      · rw [if_pos hj, hj, Assoc.lookup_assign_self]
      · rw [if_neg hj, Assoc.lookup_assign_of_ne _ _ (Ne.symm hj)]
        by_cases hjk : j = k
        · rw [if_pos hjk, hjk, Assoc.lookup_discard_self]
        · rw [if_neg hjk, Assoc.lookup_discard_of_ne _ (Ne.symm hjk)]
    refine ⟨fun j hj => ?_, fun j y modes hy hmodes => ?_⟩
    · rw [rename_seats] at hj
      rw [hread]
      split_ifs at hj ⊢
      · have habsent := h.absent k hj
        rw [hlookup] at habsent
        cases habsent
      · rfl
      · exact h.absent j hj
    · rw [rename_users] at hy
      rw [rename_seats] at hmodes
      rw [hread]
      split_ifs at hy hmodes ⊢
      · obtain rfl := Option.some.inj hy
        obtain ⟨member', hmember', hshows⟩ := h.present k x modes hx hmodes
        rw [hlookup] at hmember'
        obtain rfl := Option.some.inj hmember'
        refine ⟨_, rfl, rfl, hshows.modes, fun p hp hcomplete => ?_⟩
        obtain ⟨q, hq, rfl⟩ := Option.map_eq_some_iff.mp hp
        rw [hshows.known q hq hcomplete]
        rfl
      · exact h.present j y modes hy hmodes

/-! ## Membership modes -/

theorem takeArguments_all (changes : List (Bool × CodePoint × Str)) (arguments : List Str)
    (hlength : arguments.length = changes.length) :
    takeArguments (changes.map fun e => ((e.1, e.2.1), true)) arguments =
      List.zipWith (fun e argument => (e.1, e.2.1, some argument)) changes arguments := by
  induction changes generalizing arguments with
  | nil => simp [takeArguments]
  | cons e changes ih =>
    cases arguments with
    | nil => simp at hlength
    | cons argument arguments =>
      rw [List.map_cons, takeArguments, List.zipWith_cons_cons, ih arguments (by simpa using hlength)]

/-- Membership changes take an argument each. -/
theorem iterModeChanges_members {text : Str} {arguments : List Str}
    {changes : List (Bool × CodePoint × Str)}
    (hletters : modeLetters true text = changes.map fun e => (e.1, e.2.1))
    (hlength : arguments.length = changes.length) (hranked : ∀ e ∈ changes, e.2.1 ∈ r.modes) :
    iterModeChanges (base.parsePrefix r.value) text arguments =
      List.zipWith (fun e argument => (e.1, e.2.1, some argument)) changes arguments := by
  have hmembership : (base.parsePrefix r.value).membershipModes = r.modes := by
    rw [r.parsePrefix_value]
  have hall : (changes.map fun e => (e.1, e.2.1)).map (fun change =>
      (change, modeRequiresArgument (base.parsePrefix r.value) change)) =
      changes.map fun e => ((e.1, e.2.1), true) := by
    rw [List.map_map]
    refine List.map_congr_left fun e he => ?_
    have hmem : e.2.1 ∈ (base.parsePrefix r.value).chanmodes.1 ++
        (base.parsePrefix r.value).chanmodes.2.1 ++ (base.parsePrefix r.value).membershipModes := by
      rw [hmembership]
      exact List.mem_append_right _ (hranked e he)
    simp only [Function.comp_apply, modeRequiresArgument, hmem, decide_true, Bool.true_or]
  have hconsumed : ((changes.map fun e => ((e.1, e.2.1), true)).filter Prod.snd).length =
      changes.length := by
    rw [List.filter_eq_self.mpr, List.length_map]
    intro e he
    obtain ⟨x, -, rfl⟩ := List.mem_map.mp he
    rfl
  rw [iterModeChanges, hletters, hall, hconsumed, if_neg (by omega)]
  exact takeArguments_all changes arguments hlength

theorem Mirrors.applyModeChange {c : ChannelRuntime} {mode : CodePoint} {nick : Str}
    (h : Mirrors cm (base.parsePrefix r.value).operatorModes s f c.members) (adding : Bool)
    (hfold : casefold nick c.casemapping = k) (hseat : s.seats f k ≠ none)
    (hs : s.Consistent r cm) (hc : c.casemapping = cm) (hmode : mode ∈ r.modes) :
    Mirrors cm (base.parsePrefix r.value).operatorModes (change f s (adding, mode, k)) f
      (c.applyModeChange (base.parsePrefix r.value) (adding, mode, some nick)).members := by
  obtain ⟨modes, hmodes⟩ := Option.ne_none_iff_exists'.mp hseat
  obtain ⟨x, hx⟩ := hs.seated_user hseat
  obtain ⟨member, hmember, hshows⟩ := h.present k x modes hx hmodes
  have hletters := r.letters mode hmode
  simp only [List.mem_cons, List.not_mem_nil, or_false, not_or] at hletters
  obtain ⟨-, -, h98, h107, h108⟩ := hletters
  have hseats : ∀ j, j ≠ k → (change f s (adding, mode, k)).seats f j = s.seats f j :=
    fun j hj => seat_of_ne s f _ hj
  have hnew : (change f s (adding, mode, k)).seats f k =
      some (if adding then mode :: modes else modes.filter (· ≠ mode)) := by
    rw [change, seat_same, hmodes, Option.map_some]
  unfold ChannelRuntime.applyModeChange
  dsimp only
  rw [if_neg (not_or.mpr ⟨h107, h108⟩), if_neg h98]
  by_cases hop : mode ∈ (base.parsePrefix r.value).operatorModes
  · rw [if_pos hop, ChannelRuntime.processOp]
    refine h.update k hseats (fun _ _ => rfl)
      (fun j hj => by rw [ChannelRuntime.lookup_withMember, hfold, if_neg (Ne.symm hj)])
      (by simp [hnew]) fun y modes' hy hmodes' => ?_
    obtain rfl := Option.some.inj (hx.symm.trans hy)
    obtain rfl := Option.some.inj (hnew.symm.trans hmodes')
    refine ⟨_, by rw [ChannelRuntime.lookup_withMember, hfold, if_pos rfl], ?_, fun o ho => ?_, ?_⟩
    · rw [← hc, hfold, hc, hs.nick_eq hx]
    · rw [hmember]
      have hold := hshows.modes o ho
      dsimp only [Option.getD_some]
      cases adding with
      | true =>
        rw [if_pos rfl, if_pos rfl, List.mem_cons, ← hold]
        split_ifs with htracked
        · constructor
          · exact .inr
          · rintro (rfl | ho)
            · exact htracked
            · exact ho
        · rw [List.mem_append, List.mem_singleton, or_comm]
      | false =>
        rw [if_neg Bool.false_ne_true, if_neg Bool.false_ne_true, List.mem_filter, List.mem_filter,
          hold]
    · rw [hmember]
      exact hshows.known
  · rw [if_neg hop]
    refine h.update k hseats (fun _ _ => rfl) (fun _ _ => rfl) (by simp [hnew])
      fun y modes' hy hmodes' => ?_
    obtain rfl := Option.some.inj (hx.symm.trans hy)
    obtain rfl := Option.some.inj (hnew.symm.trans hmodes')
    refine ⟨member, hmember, hshows.nick, fun o ho => ?_, hshows.known⟩
    have hne : o ≠ mode := fun heq => hop (heq ▸ ho)
    rw [hshows.modes o ho]
    cases adding <;> simp [hne]

theorem applyModeChange_casemapping (caps : ISupport) (c : ChannelRuntime)
    (e : Bool × CodePoint × Option Str) :
    (c.applyModeChange caps e).casemapping = c.casemapping := by
  have hset : ∀ key, (c.setKey key).1.casemapping = c.casemapping := by
    intro key
    unfold ChannelRuntime.setKey
    split <;> rfl
  obtain ⟨adding, mode, argument⟩ := e
  unfold ChannelRuntime.applyModeChange ChannelRuntime.processSetting
  cases argument with
  | none =>
    dsimp only
    split_ifs <;> simp only [hset]
  | some argument =>
    dsimp only
    split_ifs <;> first | exact hset _ | rfl

theorem foldl_applyModeChange_casemapping (caps : ISupport)
    (changes : List (Bool × CodePoint × Option Str)) (c : ChannelRuntime) :
    (changes.foldl (ChannelRuntime.applyModeChange caps) c).casemapping = c.casemapping :=
  List.foldlRecOn changes _ (motive := fun d => d.casemapping = c.casemapping) rfl
    fun d hd e _ => (applyModeChange_casemapping caps d e).trans hd

/-- A line of membership changes. -/
theorem Mirrors.changes {changes : List (Bool × CodePoint × Str)} {arguments : List Str}
    {c : ChannelRuntime} (h : Mirrors cm (base.parsePrefix r.value).operatorModes s f c.members)
    (hs : s.Consistent r cm) (hc : c.casemapping = cm)
    (hnicks : arguments.map (casefold · cm) = changes.map fun e => e.2.2)
    (hranked : ∀ e ∈ changes, e.2.1 ∈ r.modes) (hpresent : ∀ e ∈ changes, s.seats f e.2.2 ≠ none) :
    Mirrors cm (base.parsePrefix r.value).operatorModes (changes.foldl (change f) s) f
      ((List.zipWith (fun e argument => (e.1, e.2.1, some argument)) changes arguments).foldl
        (ChannelRuntime.applyModeChange (base.parsePrefix r.value)) c).members := by
  induction changes generalizing s c arguments with
  | nil => simpa using h
  | cons e changes ih =>
    cases arguments with
    | nil => simp at hnicks
    | cons nick arguments =>
      simp only [List.map_cons, List.cons.injEq] at hnicks
      obtain ⟨hnick, hnicks⟩ := hnicks
      have hpresent' := hpresent e List.mem_cons_self
      have hranked' := hranked e List.mem_cons_self
      have hone := h.applyModeChange e.1 (hc ▸ hnick) hpresent' hs hc hranked'
      rw [List.zipWith_cons_cons, List.foldl_cons, List.foldl_cons]
      refine ih hone (hs.change hranked' hpresent')
        ((applyModeChange_casemapping _ c _).trans hc) hnicks
        (fun x hx => hranked x (List.mem_cons_of_mem e hx)) fun x hx => ?_
      rw [ne_eq, change_seats_eq_none]
      exact hpresent x (List.mem_cons_of_mem e hx)

/-! ## One step -/

theorem joinedBy_casemapping (p : Prefix) (self : Bool) (c : ChannelRuntime) :
    (c.joinedBy p self).casemapping = c.casemapping := by
  cases self <;> rfl

/-- A NAMES reply of the channel `f₀` comes in: the members listed so far are right there,
the other channels are as they were. -/
def Entering (cm : Casemapping) (ops : Str) (s s' : IrcServer) (f₀ : Str) (listed : Str → Prop)
    (f : Str) (members : List (Str × ChannelMember)) : Prop :=
  if f = f₀ then Listing cm ops s' f listed members else s.Sees f → Mirrors cm ops s f members

/-- The bot's own JOIN. -/
theorem Tracks.enter {S : SessionScope} (h : Tracks r base cm s b) {channel : Str}
    {x : ServerUser} {p : Prefix} (params : List Str) {modes : List CodePoint}
    (hx : s.users s.self = some x) (hp : x.Sends p) (link : Str → IrcLink) (now : ℚ) :
    casefold (b.onMessage S link now ⟨lit "JOIN", channel :: params, some p⟩).currentNick cm =
      s.self ∧
    Tracked cm (base.parsePrefix r.value) (Entering cm (base.parsePrefix r.value).operatorModes s
      (s.seat (casefold channel cm) s.self (some modes)) (casefold channel cm) fun _ => False)
      (b.onMessage S link now ⟨lit "JOIN", channel :: params, some p⟩) := by
  have hfold := h.consistent.sender_fold hx hp
  have hjoin := IrcBot.reshapes_join (S := S) b link now channel params p
  have hself : b.isSelf p.nick = true := (h.tracked.isSelf h.nick).mpr hfold
  refine ⟨by rw [hjoin.nick, h.nick], ?_⟩
  refine h.tracked.reshapeAt hjoin (fun c hc _ => ?_) fun f members hf hP => ?_
  · refine ⟨(joinedBy_casemapping _ _ c).trans hc, ?_⟩
    rw [Entering, if_pos rfl, hself]
    refine ⟨fun k member hk => ?_, fun k hk => hk.elim⟩
    rw [ChannelRuntime.joinedBy, if_pos rfl, ChannelRuntime.lookup_withMember] at hk
    have hreset : casefold p.nick c.reset.casemapping = s.self := by
      rw [← hfold, ← hc]
      rfl
    rw [hreset] at hk
    split_ifs at hk with hkself
    · obtain rfl := Option.some.inj hk
      refine ⟨x, modes, ?_, ?_, congrArg (casefold · cm) hp.nick, fun q hq hcomplete => ?_⟩
      · rw [seat_users, ← hkself, hx]
      · rw [← hkself, seat_same]
      · obtain rfl := Option.some.inj hq
        exact hp.complete hcomplete
    · cases hk
  · rw [Entering, if_neg hf]
    exact hP

/-- One line of the NAMES reply. -/
theorem Tracked.names {S : SessionScope} (hs' : s'.Consistent r cm) {channel : Str}
    {listed : Str → Prop} (h : Tracked cm (base.parsePrefix r.value) (Entering cm
      (base.parsePrefix r.value).operatorModes s s' (casefold channel cm) listed) b)
    (target kind line : Str) (sender : Option Prefix) (link : Str → IrcLink) (now : ℚ)
    (hsound : ∀ entry ∈ splitWords line, ∃ k, Listed r s' (casefold channel cm) entry k) :
    Tracked cm (base.parsePrefix r.value) (Entering cm (base.parsePrefix r.value).operatorModes s s'
      (casefold channel cm) fun k => listed k ∨
        ∃ entry ∈ splitWords line, Listed r s' (casefold channel cm) entry k)
      (b.onMessage S link now ⟨lit "353", [target, kind, channel, line], sender⟩) := by
  have hline := IrcBot.reshapes_names (S := S) b link now target kind channel line sender
  rw [h.caps] at hline
  refine h.reshapeAt hline (fun c hc hlisting => ?_) fun f members hf hP => ?_
  · refine ⟨(foldl_nameMember_casemapping _ _ c).trans hc, ?_⟩
    rw [Entering, if_pos rfl] at hlisting ⊢
    exact hlisting.entries hs' (splitWords line) hc hsound
  · rw [Entering, if_neg hf] at hP ⊢
    exact hP

/-- All lines of the NAMES reply, by induction on those still to come. -/
theorem Tracked.reply {S : SessionScope} (hs' : s'.Consistent r cm) {channel target kind : Str}
    {sender : Option Prefix} {lines : List Str} {self : Str} {listed : Str → Prop}
    (h : Tracked cm (base.parsePrefix r.value) (Entering cm
      (base.parsePrefix r.value).operatorModes s s' (casefold channel cm) listed) b)
    (hnick : casefold b.currentNick cm = self)
    (hsound : ∀ line ∈ lines, ∀ entry ∈ splitWords line, ∃ k,
      Listed r s' (casefold channel cm) entry k)
    (hh : Handles S b (lines.map fun line => ⟨lit "353", [target, kind, channel, line], sender⟩) b') :
    casefold b'.currentNick cm = self ∧ Tracked cm (base.parsePrefix r.value) (Entering cm
      (base.parsePrefix r.value).operatorModes s s' (casefold channel cm) fun k => listed k ∨
        ∃ line ∈ lines, ∃ entry ∈ splitWords line, Listed r s' (casefold channel cm) entry k) b' := by
  induction lines generalizing b listed with
  | nil =>
    cases hh
    exact ⟨hnick, by simpa using h⟩
  | cons line lines ih =>
    cases hh with
    | cons link now hrest =>
      have hone := h.names (S := S) hs' target kind line sender link now
        (hsound line List.mem_cons_self)
      have hstays := IrcBot.reshapes_names (S := S) b link now target kind channel line sender
      obtain ⟨hnick', htracked⟩ := ih hone (by rw [hstays.nick, hnick])
        (fun l hl => hsound l (List.mem_cons_of_mem line hl)) hrest
      refine ⟨hnick', htracked.mono fun f members hP => ?_⟩
      unfold Entering at hP ⊢
      by_cases hf : f = casefold channel cm
      · rw [if_pos hf] at hP ⊢
        refine ⟨hP.sound, fun k hk => hP.full k ?_⟩
        rcases hk with hk | ⟨l, hl, hk⟩
        · exact .inl (.inl hk)
        · rcases List.mem_cons.mp hl with rfl | hl
          · exact .inl (.inr hk)
          · exact .inr ⟨l, hl, hk⟩
      · rw [if_neg hf] at hP ⊢
        exact hP

/-- The bot's own JOIN with a full NAMES reply. -/
theorem Tracks.joinSelf {S : SessionScope} (h : Tracks r base cm s b) {channel : Str}
    {x : ServerUser} {p sender : Prefix} {params : List Str} {modes : List CodePoint}
    {target kind : Str} {lines : List Str} (hx : s.users s.self = some x) (hp : x.Sends p)
    (hranked : modes ⊆ r.modes)
    (hnames : Names r (s.seat (casefold channel cm) s.self (some modes)) (casefold channel cm) lines)
    (hh : Handles S b (⟨lit "JOIN", channel :: params, some p⟩ :: lines.map fun line =>
      ⟨lit "353", [target, kind, channel, line], some sender⟩) b') :
    Tracks r base cm (s.seat (casefold channel cm) s.self (some modes)) b' := by
  have hs' : (s.seat (casefold channel cm) s.self (some modes)).Consistent r cm := by
    refine h.consistent.seat ⟨x, hx⟩ fun modes' hmodes' => ?_
    obtain rfl := Option.some.inj hmodes'
    exact hranked
  cases hh with
  | cons link now hrest =>
    obtain ⟨hnick, hentered⟩ := h.enter (S := S) params hx hp link now
    obtain ⟨hnick', htracked⟩ := hentered.reply hs' hnick hnames.sound hrest
    refine ⟨hs', hnick', htracked.mono fun f members hP hsees => ?_⟩
    unfold Entering at hP
    by_cases hf : f = casefold channel cm
    · rw [if_pos hf] at hP
      refine hP.mirrors fun k hk => .inr ?_
      rw [hf] at hk
      exact hnames.full k hk
    · rw [if_neg hf] at hP
      rw [Sees, seat_self, seat_of_channel_ne s _ _ hf] at hsees
      refine (hP hsees).congr (fun k => ?_) fun k _ => rfl
      rw [seat_of_channel_ne s _ _ hf]

/-- A line about one seat. -/
theorem Tracks.seat (h : Tracks r base cm s b) {channel : Str} {v : Option (List CodePoint)}
    {change : ChannelRuntime → ChannelRuntime}
    (hs' : (s.seat (casefold channel cm) k v).Consistent r cm)
    (hr : b.Reshapes (fun f c => if b.manager.fold channel = f then change c else c) b')
    (hat : ∀ c, c.casemapping = cm → (s.Sees (casefold channel cm) →
        Mirrors cm (base.parsePrefix r.value).operatorModes s (casefold channel cm) c.members) →
      (change c).casemapping = cm ∧ ((s.seat (casefold channel cm) k v).Sees (casefold channel cm) →
        Mirrors cm (base.parsePrefix r.value).operatorModes (s.seat (casefold channel cm) k v)
          (casefold channel cm) (change c).members)) :
    Tracks r base cm (s.seat (casefold channel cm) k v) b' := by
  refine ⟨hs', by rw [hr.nick, h.nick, seat_self], h.tracked.reshapeAt hr hat ?_⟩
  intro f members hf hP hsees
  rw [Sees, seat_self, seat_of_channel_ne s _ _ hf] at hsees
  refine (hP hsees).congr (fun j => ?_) fun j _ => rfl
  rw [seat_of_channel_ne s _ _ hf]

/-- A seat changes in a channel that the bot is not on, and stays outside of. -/
theorem Tracks.unseen (h : Tracks r base cm s b) {v : Option (List CodePoint)}
    (hs' : (s.seat f k v).Consistent r cm) (hout : ¬ (s.seat f k v).Sees f) :
    Tracks r base cm (s.seat f k v) b := by
  refine ⟨hs', h.nick, h.tracked.mono fun f' members hP hsees => ?_⟩
  by_cases hf : f' = f
  · exact absurd (hf ▸ hsees) hout
  · rw [Sees, seat_self, seat_of_channel_ne s _ _ hf] at hsees
    refine (hP hsees).congr (fun j => ?_) fun j _ => rfl
    rw [seat_of_channel_ne s _ _ hf]

/-- A user, perhaps the bot, leaves a channel: the runtime is reset or loses the member. -/
theorem Tracks.leave (h : Tracks r base cm s b) {channel nick : Str}
    {change : ChannelRuntime → ChannelRuntime} (hfold : casefold nick cm = k)
    (hk : s.seats (casefold channel cm) k ≠ none)
    (hchange : ∀ c, change c = if b.isSelf nick then c.reset else c.remove nick)
    (hr : b.Reshapes (fun f c => if b.manager.fold channel = f then change c else c) b') :
    Tracks r base cm (s.seat (casefold channel cm) k none) b' := by
  have hs' : (s.seat (casefold channel cm) k none).Consistent r cm :=
    h.consistent.seat (h.consistent.seated_user hk) (by simp)
  refine h.seat hs' hr fun c hc hP => ?_
  rw [hchange]
  by_cases hself : k = s.self
  · rw [if_pos ((h.tracked.isSelf h.nick).mpr (hfold.trans hself))]
    refine ⟨hc, fun hsees => ?_⟩
    rw [Sees, seat_self, ← hself, seat_same] at hsees
    exact absurd rfl hsees
  · rw [if_neg fun hown => hself (hfold.symm.trans ((h.tracked.isSelf h.nick).mp hown))]
    refine ⟨hc, fun hsees => ?_⟩
    rw [sees_seat_of_ne s _ _ _ hself] at hsees
    exact (hP hsees).remove (hc ▸ hfold) (fun j hj => seat_of_ne s _ _ hj) (fun _ _ => rfl)
      (seat_same s _ _ _)

/-- The line of a step is handled, or there is none. -/
theorem handled_of_delivered {S : SessionScope} {visible : Prop} {message : IRCMessage}
    {messages : List IRCMessage} (hsent : Delivered visible message messages)
    (hh : Handles S b messages b') :
    (∃ link now, b' = b.onMessage S link now message) ∨ ¬ visible ∧ b' = b := by
  rcases hsent with rfl | ⟨hhidden, rfl⟩
  · cases hh with
    | cons link now hrest =>
      cases hrest
      exact .inl ⟨link, now, rfl⟩
  · cases hh
    exact .inr ⟨hhidden, rfl⟩

theorem sees_of_forget (hf : (s.forget k).Sees f) : s.Sees f := by
  rw [Sees, forget_seats] at hf
  split_ifs at hf
  · exact absurd rfl hf
  · exact hf

theorem rename_self (s : IrcServer) (k k' : Str) (x : ServerUser) :
    (s.rename k k' x).self = if s.self = k then k' else s.self := rfl

/-- A new nick moves nobody into a channel or out of one. -/
theorem Consistent.sees_rename (h : s.Consistent r cm) {k' : Str} {x : ServerUser}
    (hfree : k' = k ∨ s.users k' = none) : (s.rename k k' x).Sees f ↔ s.Sees f := by
  rw [Sees, Sees, rename_seats, rename_self]
  by_cases hk : s.self = k
  · rw [if_pos hk, if_pos rfl, hk]
  · have hne : s.self ≠ k' := by
      intro heq
      obtain ⟨y, hy⟩ := h.self
      rcases hfree with hsame | hnone
      · exact hk (heq.trans hsame)
      · rw [← heq, hy] at hnone
        cases hnone
    rw [if_neg hk, if_neg hne, if_neg hk]

/-- A user on none of the bot's channels is a member of none of them. -/
theorem absent_of_hidden (hhidden : ¬ s.Shares k) (hsees : s.Sees f) : s.seats f k = none := by
  by_contra hne
  exact hhidden (.inr ⟨f, hsees, hne⟩)

/-- A user who leaves a channel is the bot, or leaves one that the bot is on or not. -/
theorem sees_of_seat_none (hpresent : s.seats f k ≠ none) (hsees : (s.seat f k none).Sees f) :
    s.Sees f := by
  by_cases hself : k = s.self
  · rw [Sees, ← hself]
    exact hpresent
  · rwa [sees_seat_of_ne s _ _ _ hself] at hsees

section Lines

variable {S : SessionScope} {x : ServerUser} {p : Prefix} {params : List Str}
  {messages : List IRCMessage} {newNick newUser newHost channel text : Str}

theorem Tracks.forget (h : Tracks r base cm s b) (hs' : (s.forget k).Consistent r cm)
    (user : s.users k = some x) (sender : x.Sends p)
    (sent : Delivered (s.Shares k) ⟨lit "QUIT", params, some p⟩ messages)
    (hh : Handles S b messages b') : Tracks r base cm (s.forget k) b' := by
  have hfold := h.consistent.sender_fold user sender
  have hseats : ∀ f j, j ≠ k → (s.forget k).seats f j = s.seats f j := by
    intro f j hj
    rw [forget_seats, if_neg hj]
  have husers : ∀ j, j ≠ k → (s.forget k).users j = s.users j := by
    intro j hj
    rw [forget_users, if_neg hj]
  have hgone : ∀ f, (s.forget k).seats f k = none := fun f => by rw [forget_seats, if_pos rfl]
  rcases handled_of_delivered sent hh with ⟨link, now, rfl⟩ | ⟨hhidden, rfl⟩
  · have hr := IrcBot.reshapes_quit (S := S) b link now params p
    refine ⟨hs', by rw [hr.nick, h.nick]; rfl, h.tracked.reshape hr fun f c hc hP => ?_⟩
    refine ⟨hc, fun hf => ?_⟩
    exact (hP (sees_of_forget hf)).remove (hc ▸ hfold) (hseats f) husers (hgone f)
  · refine ⟨hs', h.nick, h.tracked.mono fun f members hP hf => ?_⟩
    have hsees := sees_of_forget hf
    exact (hP hsees).update k (hseats f) husers (fun _ _ => rfl)
      (fun _ => (hP hsees).absent k (absent_of_hidden hhidden hsees)) (by simp [hgone])

theorem Tracks.rename (h : Tracks r base cm s b)
    (hs' : (s.rename k (casefold newNick cm) { x with nick := newNick }).Consistent r cm)
    (user : s.users k = some x)
    (free : casefold newNick cm = k ∨ s.users (casefold newNick cm) = none) (sender : x.Sends p)
    (sent : Delivered (s.Shares k) ⟨lit "NICK", [newNick], some p⟩ messages)
    (hh : Handles S b messages b') :
    Tracks r base cm (s.rename k (casefold newNick cm) { x with nick := newNick }) b' := by
  have hfold := h.consistent.sender_fold user sender
  rcases handled_of_delivered sent hh with ⟨link, now, rfl⟩ | ⟨hhidden, rfl⟩
  · have hr := IrcBot.reshapes_nick (S := S) b link now newNick p
    have htracked : Tracked cm (base.parsePrefix r.value) (fun f members =>
        s.Sees f → Mirrors cm (base.parsePrefix r.value).operatorModes s f members)
        (b.trackNick p newNick) := by
      obtain ⟨hcm, hcaps, hruntime⟩ := h.tracked
      unfold IrcBot.trackNick
      split_ifs <;> exact ⟨hcm, hcaps, hruntime⟩
    have hnewFold : b.manager.fold newNick = casefold newNick cm := by
      rw [ChannelManager.fold, h.tracked.casemapping]
    have hpFold : b.manager.fold p.nick = k := by
      rw [ChannelManager.fold, h.tracked.casemapping, hfold]
    refine ⟨hs', ?_, htracked.reshape hr fun f c hc hP => ?_⟩
    · rw [hr.nick, rename_self, IrcBot.trackNick]
      by_cases hk : s.self = k
      · rw [if_pos hk, if_pos ((h.tracked.isSelf h.nick).mpr (hfold.trans hk.symm))]
      · rw [if_neg hk, if_neg fun hown =>
          hk (((h.tracked.isSelf h.nick).mp hown).symm.trans hfold), h.nick]
    · rw [hnewFold, hpFold]
      refine ⟨?_, fun hf =>
        (hP ((h.consistent.sees_rename free).mp hf)).rename h.consistent user free⟩
      unfold ChannelManager.renameIn
      split <;> exact hc
  · have hother : s.self ≠ k := fun heq => hhidden (.inl heq.symm)
    refine ⟨hs', ?_, h.tracked.mono fun f members hP hf => ?_⟩
    · rw [h.nick, rename_self, if_neg hother]
    · have hsees := (h.consistent.sees_rename free).mp hf
      have habsent := absent_of_hidden hhidden hsees
      have hnew : s.seats f (casefold newNick cm) = none := by
        rcases free with heq | hnone
        · rw [heq, habsent]
        · exact h.consistent.free hnone f
      refine (hP hsees).congr (fun j => ?_) fun j hj => ?_
      · rw [rename_seats]
        split_ifs with hj hk
        · rw [hj, hnew, habsent]
        · rw [hk, habsent]
        · rfl
      · rw [rename_users, if_neg, if_neg]
        · exact fun hk => hj (hk ▸ habsent)
        · exact fun hk => hj (hk ▸ hnew)

theorem Tracks.rehost (h : Tracks r base cm s b)
    (hs' : (s.put k { x with user := newUser, host := newHost }).Consistent r cm)
    (user : s.users k = some x) (sender : x.Sends p)
    (sent : Delivered (s.Shares k) ⟨lit "CHGHOST", newUser :: newHost :: params, some p⟩ messages)
    (hh : Handles S b messages b') :
    Tracks r base cm (s.put k { x with user := newUser, host := newHost }) b' := by
  rcases handled_of_delivered sent hh with ⟨link, now, rfl⟩ | ⟨hhidden, rfl⟩
  · have hr := IrcBot.reshapes_chghost (S := S) b link now newUser newHost params p
    have hpFold : b.manager.fold p.nick = k := by
      rw [ChannelManager.fold, h.tracked.casemapping, h.consistent.sender_fold user sender]
    refine ⟨hs', by rw [hr.nick, h.nick]; rfl, h.tracked.reshape hr fun f c hc hP => ?_⟩
    rw [hpFold]
    refine ⟨?_, fun hf => (hP hf).rehost sender.nick user⟩
    unfold ChannelManager.rehostIn
    split <;> exact hc
  · refine ⟨hs', h.nick, h.tracked.mono fun f members hP hf => ?_⟩
    refine (hP hf).congr (fun _ => rfl) fun j hj => ?_
    rw [put_users, if_neg]
    rintro rfl
    exact hhidden (.inr ⟨f, hf, hj⟩)

theorem Tracks.changes (h : Tracks r base cm s b) {by' : Option Prefix} {arguments : List Str}
    {changes : List (Bool × CodePoint × Str)}
    (hs' : (changes.foldl (IrcServer.change (casefold channel cm)) s).Consistent r cm)
    (letters : modeLetters true text = changes.map fun e => (e.1, e.2.1))
    (nicks : arguments.map (casefold · cm) = changes.map fun e => e.2.2)
    (ranked : ∀ e ∈ changes, e.2.1 ∈ r.modes)
    (present : ∀ e ∈ changes, s.seats (casefold channel cm) e.2.2 ≠ none)
    (sent : Delivered (s.Sees (casefold channel cm))
      ⟨lit "MODE", channel :: text :: arguments, by'⟩ messages)
    (hh : Handles S b messages b') :
    Tracks r base cm (changes.foldl (IrcServer.change (casefold channel cm)) s) b' := by
  obtain ⟨husers, hself⟩ := changes_users (casefold channel cm) changes s
  have hsees : ∀ f, (changes.foldl (IrcServer.change (casefold channel cm)) s).Sees f ↔ s.Sees f := by
    intro f
    rw [Sees, Sees, hself, ne_eq, changes_seats_eq_none]
  have hother : ∀ f members, f ≠ casefold channel cm →
      (s.Sees f → Mirrors cm (base.parsePrefix r.value).operatorModes s f members) →
      (changes.foldl (IrcServer.change (casefold channel cm)) s).Sees f →
      Mirrors cm (base.parsePrefix r.value).operatorModes
        (changes.foldl (IrcServer.change (casefold channel cm)) s) f members := by
    intro f members hf hP hfsees
    refine (hP ((hsees f).mp hfsees)).congr (fun k => ?_) fun k _ => ?_
    · rw [changes_of_channel_ne changes s hf]
    · rw [husers]
  rcases handled_of_delivered sent hh with ⟨link, now, rfl⟩ | ⟨hhidden, rfl⟩
  · have hr := IrcBot.reshapes_mode (S := S) b link now channel text arguments by'
    refine ⟨hs', by rw [hr.nick, h.nick, hself], h.tracked.reshapeAt hr (fun c hc hP => ?_) hother⟩
    have hlength : arguments.length = changes.length := by
      simpa using congrArg List.length nicks
    rw [h.tracked.caps, ChannelRuntime.applyModeChanges,
      iterModeChanges_members letters hlength ranked]
    refine ⟨?_, fun hf => ((hP ((hsees _).mp hf)).changes h.consistent hc nicks ranked present)⟩
    exact foldl_applyModeChange_casemapping _ _ c ▸ hc
  · refine ⟨hs', by rw [h.nick, hself], h.tracked.mono fun f members hP hf => ?_⟩
    by_cases hchannel : f = casefold channel cm
    · exact absurd ((hsees f).mp hf) (hchannel ▸ hhidden)
    · exact hother f members hchannel hP hf

end Lines

/-- Every step of the server, handled by the bot, keeps the members tracked. -/
theorem Tracks.step {S : SessionScope} (h : Tracks r base cm s b) {messages : List IRCMessage}
    (hst : Step r cm s messages s') (hh : Handles S b messages b') : Tracks r base cm s' b' := by
  have hs' := h.consistent.step hst
  cases hst with
  | @connect x nick free =>
    cases hh
    refine ⟨hs', h.nick, h.tracked.mono fun f members hP hsees => ?_⟩
    refine (hP hsees).congr (fun _ => rfl) fun k hk => ?_
    rw [put_users, if_neg]
    rintro rfl
    exact hk (h.consistent.free free f)
  | @join channel k x p params messages other user absent sender sent =>
    have hfold := h.consistent.sender_fold user sender
    rcases handled_of_delivered sent hh with ⟨link, now, rfl⟩ | ⟨hhidden, rfl⟩
    · have hself : b.isSelf p.nick = false := by
        rw [Bool.eq_false_iff, ne_eq, h.tracked.isSelf h.nick, hfold]
        exact other
      refine h.seat hs' (IrcBot.reshapes_join b link now channel params p) fun c hc hP => ?_
      refine ⟨(joinedBy_casemapping _ _ c).trans hc, fun hsees => ?_⟩
      rw [sees_seat_of_ne s _ _ _ other] at hsees
      rw [hself]
      exact (hP hsees).join h.consistent hc user absent sender
    · exact h.unseen hs' (by rwa [sees_seat_of_ne s _ _ _ other])
  | joinSelf user absent sends ranked names => exact h.joinSelf user sends ranked names hh
  | @part channel k x p params messages user present sender sent =>
    have hfold := h.consistent.sender_fold user sender
    rcases handled_of_delivered sent hh with ⟨link, now, rfl⟩ | ⟨hhidden, rfl⟩
    · exact h.leave hfold present (fun _ => rfl) (IrcBot.reshapes_part b link now channel params p)
    · exact h.unseen hs' fun hsees => hhidden (sees_of_seat_none present hsees)
  | @kick channel target by' params messages present sent =>
    rcases handled_of_delivered sent hh with ⟨link, now, rfl⟩ | ⟨hhidden, rfl⟩
    · exact h.leave rfl present (fun _ => rfl)
        (IrcBot.reshapes_kick b link now channel target params by')
    · exact h.unseen hs' fun hsees => hhidden (sees_of_seat_none present hsees)
  | quit other user sender sent => exact h.forget hs' user sender sent hh
  | nick user nick free sender sent => exact h.rename hs' user free sender sent hh
  | chghost user sender sent => exact h.rehost hs' user sender sent hh
  | mode letters nicks ranked present sent =>
    exact h.changes hs' letters nicks ranked present sent hh
  | @who channel k target server flags realname x sender modes params user present shown =>
    cases hh with
    | cons link now hrest =>
      cases hrest
      have hr := IrcBot.reshapes_who (S := S) b link now target channel x.user x.host server x.nick
        flags realname params (some sender)
      rw [h.tracked.caps] at hr
      refine ⟨hs', by rw [hr.nick, h.nick], h.tracked.reshapeAt hr (fun c hc hP => ?_)
        fun f members _ hP => hP⟩
      exact ⟨hc, fun hf => (hP hf).who h.consistent hc user present shown⟩

/-- In every history the bot tracks the members of the channels that it is on. -/
theorem tracks_of_history {S : SessionScope} {s₀ : IrcServer} {b₀ : IrcBot}
    (hstart : Starts r base cm s₀ b₀) (h : History r cm S s₀ b₀ s b) : Tracks r base cm s b := by
  induction h with
  | start =>
    refine ⟨hstart.consistent, hstart.nick, hstart.casemapping, hstart.caps, fun f c hc => ?_⟩
    exact ⟨hstart.runtime f c hc, fun hsees => absurd hsees (hstart.outside f)⟩
  | step _ hst hh ih => exact ih.step hst hh

theorem Mirrors.agrees (hs : s.Consistent r cm) {c : ChannelRuntime}
    (h : Mirrors cm (base.parsePrefix r.value).operatorModes s f c.members) :
    Agrees r cm (base.parsePrefix r.value) s f c := by
  have hshows : ∀ k member, Assoc.lookup k c.members = some member → ∃ x modes,
      s.users k = some x ∧ s.seats f k = some modes ∧
      Shows cm (base.parsePrefix r.value).operatorModes x modes member := by
    intro k member hmember
    have hseat : s.seats f k ≠ none := by
      intro hnone
      rw [h.absent k hnone] at hmember
      cases hmember
    obtain ⟨modes, hmodes⟩ := Option.ne_none_iff_exists'.mp hseat
    obtain ⟨x, hx⟩ := hs.seated_user hseat
    obtain ⟨member', hmember', hshows⟩ := h.present k x modes hx hmodes
    rw [hmember] at hmember'
    obtain rfl := Option.some.inj hmember'
    exact ⟨x, modes, hx, hmodes, hshows⟩
  refine ⟨fun k => ⟨?_, ?_⟩, fun k member hmember => ?_, fun k member modes hmember hmodes => ?_,
    fun k member x p hmember hx => ?_⟩
  · rintro ⟨member, hmember⟩
    obtain ⟨x, modes, hx, hmodes, -⟩ := hshows k member hmember
    exact ⟨x, hx, hs.nick_eq hx, by simp [hmodes]⟩
  · rintro ⟨x, hx, -, hseat⟩
    obtain ⟨modes, hmodes⟩ := Option.ne_none_iff_exists'.mp hseat
    obtain ⟨member, hmember, -⟩ := h.present k x modes hx hmodes
    exact ⟨member, hmember⟩
  · obtain ⟨x, modes, hx, -, hmember⟩ := hshows k member hmember
    rw [hmember.nick, hs.nick_eq hx]
  · obtain ⟨x, modes', hx, hmodes', hmember⟩ := hshows k member hmember
    obtain rfl := Option.some.inj (hmodes.symm.trans hmodes')
    exact r.isOpped_iff base (hs.seated f k modes hmodes).2 hmember.modes
  · obtain ⟨y, modes, hy, -, hmember⟩ := hshows k member hmember
    obtain rfl := Option.some.inj (hx.symm.trans hy)
    exact hmember.known p

/-- A step by which the bot leaves a channel is its own PART or KICK. -/
theorem members_of_leave {S : SessionScope} (h : Tracks r base cm s b) {messages : List IRCMessage}
    (hst : Step r cm s messages s') (hh : Handles S b messages b') (hbefore : s.Sees f)
    (hafter : ¬ s'.Sees f) {c' : ChannelRuntime}
    (hc' : Assoc.lookup f b'.manager.channels = some c') : c'.members = [] := by
  have hseat : ∀ channel k, s' = s.seat (casefold channel cm) k none →
      casefold channel cm = f ∧ k = s.self := by
    rintro channel k rfl
    have hself : k = s.self := by
      by_contra hne
      exact hafter ((sees_seat_of_ne s f _ none hne).mpr hbefore)
    refine ⟨?_, hself⟩
    by_contra hne
    rw [Sees, seat_self, seat_of_channel_ne s _ _ (Ne.symm hne)] at hafter
    exact hafter hbefore
  have hreset : ∀ channel nick (change : ChannelRuntime → ChannelRuntime),
      casefold channel cm = f → casefold nick cm = s.self →
      (∀ c, change c = if b.isSelf nick then c.reset else c.remove nick) →
      b.Reshapes (fun f c => if b.manager.fold channel = f then change c else c) b' →
      c'.members = [] := by
    intro channel nick change hchannel hnick hchange hr
    obtain ⟨c, -, hmembers, -⟩ := hr.runtime f c' hc'
    have hfold : b.manager.fold channel = f := by
      rw [ChannelManager.fold, h.tracked.casemapping, hchannel]
    rw [hmembers, if_pos hfold, hchange, if_pos ((h.tracked.isSelf h.nick).mpr hnick)]
    rfl
  cases hst with
  | connect nick free => exact absurd hbefore hafter
  | join other user absent sender sent =>
    exact absurd ((sees_seat_of_ne s _ _ _ other).mpr hbefore) hafter
  | @joinSelf channel x p sender params modes target kind lines user absent sends ranked names =>
    have hne : f ≠ casefold channel cm := by
      rintro rfl
      exact hbefore absent
    rw [Sees, seat_self, seat_of_channel_ne s _ _ hne] at hafter
    exact absurd hbefore hafter
  | @part channel k x p params messages user present sender sent =>
    obtain ⟨hchannel, hself⟩ := hseat channel k rfl
    have hfold := (h.consistent.sender_fold user sender).trans hself
    rcases handled_of_delivered sent hh with ⟨link, now, rfl⟩ | ⟨hhidden, rfl⟩
    · exact hreset channel p.nick _ hchannel hfold (fun _ => rfl)
        (IrcBot.reshapes_part b link now channel params p)
    · exact absurd (hchannel ▸ hbefore) hhidden
  | @kick channel target by' params messages present sent =>
    obtain ⟨hchannel, hself⟩ := hseat channel (casefold target cm) rfl
    rcases handled_of_delivered sent hh with ⟨link, now, rfl⟩ | ⟨hhidden, rfl⟩
    · exact hreset channel target _ hchannel hself (fun _ => rfl)
        (IrcBot.reshapes_kick b link now channel target params by')
    · exact absurd (hchannel ▸ hbefore) hhidden
  | @quit k x p params messages other user sender sent =>
    refine absurd ?_ hafter
    rw [Sees, forget_seats]
    exact fun hnone => hbefore ((if_neg (Ne.symm other)).symm.trans hnone)
  | nick user nick free sender sent =>
    exact absurd ((h.consistent.sees_rename free).mpr hbefore) hafter
  | chghost user sender sent => exact absurd hbefore hafter
  | @mode channel text by' arguments changes messages letters nicks ranked present sent =>
    refine absurd ?_ hafter
    rw [Sees, (changes_users _ changes s).2, ne_eq, changes_seats_eq_none]
    exact hbefore
  | who user present shown => exact absurd hbefore hafter

/-- Member tracking simulates the server: in every history the runtime of each channel that
the bot is on has the channel's members, and a step by which the bot leaves a channel
leaves its runtime without members. -/
theorem members_agree {S : SessionScope} {s₀ : IrcServer} {b₀ : IrcBot}
    (hstart : Starts r base cm s₀ b₀) (h : History r cm S s₀ b₀ s b) :
    (∀ f c, Assoc.lookup f b.manager.channels = some c → s.Sees f → Agrees r cm b.caps s f c) ∧
    ∀ messages s' b', Step r cm s messages s' → Handles S b messages b' → ∀ f c, s.Sees f →
      ¬ s'.Sees f → Assoc.lookup f b'.manager.channels = some c → c.members = [] := by
  have htracks := tracks_of_history hstart h
  refine ⟨fun f c hc hsees => ?_, fun messages s' b' hst hh f c hbefore hafter hc =>
    members_of_leave htracks hst hh hbefore hafter hc⟩
  rw [htracks.tracked.caps]
  exact ((htracks.tracked.runtime f c hc).2 hsees).agrees htracks.consistent

/-- PREFIX=(ov)@+ -/
def sampleRanks : MemberRanks where
  modes := lit "ov"
  symbols := lit "@+"
  modes_ne := by decide
  length_eq := rfl
  modes_nodup := by decide
  symbols_nodup := by decide
  closing := by decide
  letters := by
    intro mode hmode
    rcases List.mem_pair.mp hmode with rfl | rfl <;> decide

/-- A nick of one letter. -/
theorem nickOk_sample {c : CodePoint} (hspace : isSpace c = false) (hplain : c ∉ lit "@+") :
    sampleRanks.NickOk [c] where
  ne := by simp
  spaceless := by
    intro d hd
    rw [List.mem_singleton.mp hd, hspace]
  plain := by
    intro d hd
    rw [← Option.some.inj hd]
    exact hplain

/-- The bot `b` is on no channel, `n` is the operator of `#c`. -/
def sampleServer : IrcServer where
  users k := if k = lit "b" then some ⟨lit "B", lit "u", lit "g"⟩
    else if k = lit "n" then some ⟨lit "N", lit "u", lit "h"⟩ else none
  seats f k := if f = lit "#c" ∧ k = lit "n" then some [111] else none
  self := lit "b"

/-- A bot that wants `#c`. -/
def sampleTracker : IrcBot where
  manager := ChannelManager.init.applyRecord ⟨true, false, true⟩ ⟨lit "#C", none, true, lit "1"⟩
  caps := ISupport.initial.parsePrefix sampleRanks.value
  currentNick := lit "B"
  registered := true
  identity := none
  sessions := SessionSync.init

theorem starts_sample : Starts sampleRanks .initial .rfc1459 sampleServer sampleTracker where
  consistent := by
    refine ⟨fun k x hk => ?_, fun f k modes hk => ?_, _, rfl⟩
    · simp only [sampleServer] at hk
      split_ifs at hk with hb hn
      · obtain rfl := Option.some.inj hk
        exact ⟨hb ▸ by decide, nickOk_sample (by decide) (by decide)⟩
      · obtain rfl := Option.some.inj hk
        exact ⟨hn ▸ by decide, nickOk_sample (by decide) (by decide)⟩
    · simp only [sampleServer] at hk ⊢
      split_ifs at hk with hn
      obtain rfl := Option.some.inj hk
      exact ⟨⟨_, by rw [hn.2]; rfl⟩, List.cons_subset.mpr ⟨by decide, List.nil_subset _⟩⟩
  outside := by
    intro f hsees
    refine hsees (if_neg ?_)
    rintro ⟨-, hself⟩
    exact absurd hself (by decide)
  casemapping := rfl
  caps := rfl
  nick := by decide
  runtime := by
    have hall : (sampleTracker.manager.channels.all fun e =>
        decide (e.2.casemapping = .rfc1459)) = true := by decide +kernel
    exact fun f c hc => of_decide_eq_true (List.all_eq_true.mp hall _ (Assoc.mem_of_lookup hc))

def sampleMembers : IrcServer := sampleServer.seat (lit "#c") (lit "b") (some [])

/-- The bot `b` reads one line. -/
def sampleReads (b : IrcBot) (message : IRCMessage) : IrcBot :=
  b.onMessage sampleScope (fun _ => ⟨true, false, true⟩) 0 message

theorem handles_sampleReads (b : IrcBot) (message : IRCMessage) :
    Handles sampleScope b [message] (sampleReads b message) :=
  .cons (fun _ => ⟨true, false, true⟩) 0 (.nil _)

def sampleJoined : IrcBot :=
  sampleReads (sampleReads sampleTracker ⟨lit "JOIN", [lit "#c"], some ⟨lit "B", none, none⟩⟩)
    ⟨lit "353", [lit "B", lit "=", lit "#c", lit "@N B"], some ⟨lit "server", none, none⟩⟩

/-- The bot joins, and NAMES lists both members. -/
theorem history_sampleJoined : History sampleRanks .rfc1459 sampleScope sampleServer sampleTracker
    sampleMembers sampleJoined := by
  have hwords : splitWords (lit "@N B") = [lit "@N", lit "B"] := by decide +kernel
  have hshown : ∀ modes symbols : Str, ((sampleRanks.symbols.zip sampleRanks.modes).all fun e =>
      decide (e.1 ∈ symbols ↔ e.2 ∈ modes)) = true → sampleRanks.Shown modes symbols :=
    fun modes symbols hall e he => of_decide_eq_true (List.all_eq_true.mp hall e he)
  have hn : Listed sampleRanks sampleMembers (lit "#c") (lit "@N") (lit "n") :=
    ⟨⟨lit "N", lit "u", lit "h"⟩, [111], [64], rfl, rfl, rfl,
      List.cons_subset.mpr ⟨by decide, List.nil_subset _⟩, hshown _ _ (by decide)⟩
  have hb : Listed sampleRanks sampleMembers (lit "#c") (lit "B") (lit "b") :=
    ⟨⟨lit "B", lit "u", lit "g"⟩, [], [], rfl, rfl, rfl, List.nil_subset _, hshown _ _ (by decide)⟩
  have hnames : Names sampleRanks sampleMembers (lit "#c") [lit "@N B"] := by
    refine ⟨fun line hline entry hentry => ?_, fun k hk => ?_⟩
    · rw [List.mem_singleton.mp hline, hwords] at hentry
      rcases List.mem_pair.mp hentry with rfl | rfl
      · exact ⟨_, hn⟩
      · exact ⟨_, hb⟩
    · refine ⟨lit "@N B", by simp, ?_⟩
      rw [hwords]
      by_cases hself : k = lit "b"
      · exact ⟨lit "B", by simp, hself ▸ hb⟩
      · have hseat : sampleServer.seats (lit "#c") k ≠ none :=
          seat_of_ne sampleServer (lit "#c") (some []) hself ▸ hk
        have hkn : k = lit "n" := by
          by_contra hne
          exact hseat (if_neg fun h => hne h.2)
        exact ⟨lit "@N", by simp, hkn ▸ hn⟩
  have hstep : Step sampleRanks .rfc1459 sampleServer
      (⟨lit "JOIN", [lit "#c"], some ⟨lit "B", none, none⟩⟩ :: [lit "@N B"].map fun line =>
        ⟨lit "353", [lit "B", lit "=", lit "#c", line], some ⟨lit "server", none, none⟩⟩)
      sampleMembers :=
    Step.joinSelf (x := ⟨lit "B", lit "u", lit "g"⟩) rfl rfl ⟨rfl, by decide⟩ (List.nil_subset _)
      hnames
  exact .step .start hstep (.cons (fun _ => ⟨true, false, true⟩) 0 (handles_sampleReads _ _))

def sampleRenamed : IrcServer :=
  sampleMembers.rename (lit "n") (lit "m") ⟨lit "M", lit "u", lit "h"⟩

def sampleRehosted : IrcServer := sampleRenamed.put (lit "m") ⟨lit "M", lit "v", lit "i"⟩

def sampleVoiced : IrcServer :=
  [(false, 111, lit "m"), (true, 118, lit "m")].foldl (change (lit "#c")) sampleRehosted

def sampleFollower : IrcBot :=
  [⟨lit "NICK", [lit "M"], some ⟨lit "N", some (lit "u"), some (lit "h")⟩⟩,
    ⟨lit "CHGHOST", [lit "v", lit "i"], some ⟨lit "M", none, none⟩⟩,
    ⟨lit "MODE", [lit "#C", lit "-o+v", lit "m", lit "M"], none⟩].foldl sampleReads sampleJoined

/-- `N` takes the nick `M`, another user and host, and a voice in the place of its rank. -/
theorem history_sampleFollower : History sampleRanks .rfc1459 sampleScope sampleServer
    sampleTracker sampleVoiced sampleFollower := by
  have hnick : Step sampleRanks .rfc1459 sampleMembers
      [⟨lit "NICK", [lit "M"], some ⟨lit "N", some (lit "u"), some (lit "h")⟩⟩] sampleRenamed :=
    Step.nick (x := ⟨lit "N", lit "u", lit "h"⟩) rfl (nickOk_sample (by decide) (by decide))
      (.inr (by decide +kernel)) ⟨rfl, fun _ => rfl⟩ (.inl rfl)
  have hhost : Step sampleRanks .rfc1459 sampleRenamed
      [⟨lit "CHGHOST", [lit "v", lit "i"], some ⟨lit "M", none, none⟩⟩] sampleRehosted :=
    Step.chghost (x := ⟨lit "M", lit "u", lit "h"⟩) rfl ⟨rfl, by decide⟩ (.inl rfl)
  have hmode : Step sampleRanks .rfc1459 sampleRehosted
      [⟨lit "MODE", [lit "#C", lit "-o+v", lit "m", lit "M"], none⟩] sampleVoiced :=
    Step.mode (by decide) (by decide) (by decide) (by decide +kernel) (.inl rfl)
  exact ((history_sampleJoined.step hnick (handles_sampleReads _ _)).step hhost
    (handles_sampleReads _ _)).step hmode (handles_sampleReads _ _)

/-- The bot tracks `M` as the server has it. -/
theorem members_agree_renamed : ∃ c,
    Assoc.lookup (lit "#c") sampleFollower.manager.channels = some c ∧
    Agrees sampleRanks .rfc1459 sampleFollower.caps sampleVoiced (lit "#c") c ∧
    sampleVoiced.seats (lit "#c") (lit "m") = some [118] := by
  have hruntime : (Assoc.lookup (lit "#c") sampleFollower.manager.channels).isSome = true := by
    decide +kernel
  obtain ⟨c, hc⟩ := Option.isSome_iff_exists.mp hruntime
  have hsees : sampleVoiced.Sees (lit "#c") := by
    rw [Sees]
    decide +kernel
  exact ⟨c, hc, (members_agree starts_sample history_sampleFollower).1 _ c hc hsees, rfl⟩

end IrcServer

end Botnats
