import Botnats.CommandEffects

/-!
# Who is made an operator

Without a command the bot makes operators in two places: a peer that asks for it and is known
to be alive, and the user of a session that was just granted. Both go by the tracked members,
so what they do to the server's channels rests on what the bot has kept of them.
-/
namespace Botnats

open Triples SendLoop

/-! ## Channels keep their names -/


namespace ChannelManager

/-- The keys of the channels and the names that the runtimes use -/
def titles (m : ChannelManager) : List (Str × Str) := m.channels.map fun e => (e.1, e.2.channel)

/-- Every runtime is kept under the fold of its name. -/
structure Named (m : ChannelManager) : Prop where
  distinct : Assoc.Distinct m.channels
  fold : ∀ e ∈ m.channels, m.fold e.2.channel = e.1

variable {m m' : ChannelManager}

theorem Named.congr (h : m.Named) (htitles : m'.titles = m.titles)
    (hcasemapping : m'.casemapping = m.casemapping) : m'.Named where
  distinct := by
    have hkeys : ∀ n : ChannelManager, n.channels.map Prod.fst = n.titles.map Prod.fst := by
      intro n
      simp [titles, Function.comp_def]
    rw [Assoc.Distinct, hkeys, htitles, ← hkeys]
    exact h.distinct
  fold := by
    intro e he
    have hmem : (e.1, e.2.channel) ∈ m'.titles := List.mem_map.mpr ⟨e, he, rfl⟩
    rw [htitles] at hmem
    obtain ⟨d, hd, heq⟩ := List.mem_map.mp hmem
    obtain ⟨hkey, hname⟩ := Prod.mk.inj heq
    rw [← hkey, ← hname, ChannelManager.fold, hcasemapping]
    exact h.fold d hd

theorem titles_mapRuntime (m : ChannelManager) (channel : Str)
    {f : ChannelRuntime → ChannelRuntime} (h : ∀ c, (f c).channel = c.channel) :
    (m.mapRuntime channel f).titles = m.titles := by
  have hassign : ∀ (k : Str) (c : ChannelRuntime) (d : List (Str × ChannelRuntime)),
      Assoc.lookup k d = some c → (Assoc.assign k (f c) d).map (fun e => (e.1, e.2.channel)) =
        d.map fun e => (e.1, e.2.channel) := by
    intro k c d hc
    induction d with
    | nil => simp at hc
    | cons e d ih =>
      rw [Assoc.lookup_cons] at hc
      rw [Assoc.assign]
      split_ifs at hc ⊢
      · obtain rfl := Option.some.inj hc
        simp [h]
      · rw [List.map_cons, List.map_cons, ih hc]
  unfold mapRuntime
  split
  · rfl
  · rename_i c hc
    exact hassign _ c _ hc

theorem titles_map (m : ChannelManager) {change : Str × ChannelRuntime → ChannelRuntime}
    (h : ∀ e, (change e).channel = e.2.channel) :
    titles { m with channels := m.channels.map fun e => (e.1, change e) } = m.titles := by
  simp [titles, h]

end ChannelManager

namespace IrcBot

open ChannelManager

variable {S : SessionScope} {b : IrcBot}

theorem titles_setIdentity (b : IrcBot) (link : Str → IrcLink) (p : Prefix) :
    (b.setIdentity link p).manager.titles = b.manager.titles := by
  have hjoin : ∀ (m : ChannelManager) (known : Bool),
      (m.joinDesired known link).titles = m.titles := by
    intro m known
    unfold joinDesired
    split_ifs
    · rfl
    · refine titles_map m fun e => ?_
      unfold ChannelRuntime.safeJoin
      split_ifs <;> rfl
  unfold setIdentity recordIdentity
  cases p.user with
  | none => rfl
  | some user =>
    cases p.host with
    | none => rfl
    | some host =>
      dsimp only
      split_ifs
      · exact hjoin _ _
      · rfl

theorem titles_followSelf (b : IrcBot) (link : Str → IrcLink) (folded : Str)
    (next : Prefix → Prefix) : (b.followSelf link folded next).manager.titles = b.manager.titles := by
  unfold followSelf
  split
  · rfl
  · split_ifs
    · exact titles_setIdentity b link _
    · rfl

theorem applyModeChanges_channel (c : ChannelRuntime) (caps : ISupport) (modes : Str)
    (arguments : List Str) : (c.applyModeChanges caps modes arguments).channel = c.channel := by
  have hkey : ∀ (d : ChannelRuntime) (key : Option Str), (d.setKey key).1.channel = d.channel := by
    intro d key
    unfold ChannelRuntime.setKey
    split <;> rfl
  have hsetting : ∀ (d : ChannelRuntime) (mode : CodePoint) (argument : Option Str) (adding : Bool),
      (d.processSetting mode argument adding).channel = d.channel := by
    intro d mode argument adding
    unfold ChannelRuntime.processSetting
    split
    · rfl
    · cases argument with
      | none => cases adding <;> rfl
      | some key =>
        dsimp only
        split_ifs <;> first | rfl | exact hkey _ _
  refine List.foldlRecOn (motive := fun d : ChannelRuntime => d.channel = c.channel) _ _ rfl
    fun d hd e _ => Eq.trans ?_ hd
  obtain ⟨adding, mode, argument⟩ := e
  unfold ChannelRuntime.applyModeChange
  dsimp only
  split
  · exact hsetting _ _ _ _
  · cases argument with
    | none => rfl
    | some argument =>
      dsimp only
      split_ifs <;> rfl

theorem nameMember_channel (caps : ISupport) (c : ChannelRuntime) (entry : Str) :
    (nameMember caps c entry).channel = c.channel := by
  unfold nameMember
  dsimp only
  split_ifs <;> rfl

variable (S) (b) (link : Str → IrcLink) (now : ℚ) (message : IRCMessage)

theorem titles_handleWho : (b.handleWho link message).manager.titles = b.manager.titles := by
  unfold handleWho
  split
  · split
    · rfl
    · dsimp only
      split_ifs
      · exact (titles_setIdentity _ link _).trans (titles_mapRuntime _ _ fun c => rfl)
      · exact titles_mapRuntime _ _ fun c => rfl
  · rfl

theorem titles_handleNames : (b.handleNames message).manager.titles = b.manager.titles := by
  unfold handleNames
  split
  · refine titles_mapRuntime _ _ fun c => ?_
    refine List.foldlRecOn (motive := fun d : ChannelRuntime => d.channel = c.channel) _ _ rfl
      fun d hd entry _ => ?_
    exact (nameMember_channel b.caps d entry).trans hd
  · rfl

theorem titles_handleBanList : (b.handleBanList message).manager.titles = b.manager.titles := by
  unfold handleBanList
  split
  · exact titles_mapRuntime _ _ fun c => rfl
  · rfl

theorem titles_handleRefused : (b.handleRefused message).manager.titles = b.manager.titles := by
  unfold handleRefused
  split
  · refine titles_mapRuntime _ _ fun c => ?_
    unfold ChannelRuntime.refuseJoin
    split_ifs <;> rfl
  · rfl

theorem titles_handleChghost :
    (b.handleChghost S link now message).manager.titles = b.manager.titles := by
  unfold handleChghost
  split
  · refine (titles_followSelf _ link _ _).trans (titles_map _ fun e => ?_)
    unfold rehostIn
    split <;> rfl
  · rfl

theorem titles_handleNick : (b.handleNick S link now message).manager.titles = b.manager.titles := by
  unfold handleNick
  split
  · refine (titles_followSelf _ link _ _).trans (titles_map _ fun e => ?_)
    unfold renameIn
    split <;> rfl
  · rfl

theorem titles_handleJoin : (b.handleJoin link message).manager.titles = b.manager.titles := by
  unfold handleJoin
  split
  · split
    · dsimp only
      split_ifs <;> rfl
    · dsimp only
      split_ifs
      · exact (titles_setIdentity _ link _).trans (titles_mapRuntime _ _ fun c => rfl)
      · exact titles_mapRuntime _ _ fun c => rfl
      · exact titles_mapRuntime _ _ fun c => rfl
  · rfl

theorem titles_handleKick : (b.handleKick message).manager.titles = b.manager.titles := by
  unfold handleKick
  split
  · refine titles_mapRuntime _ _ fun c => ?_
    split_ifs <;> rfl
  · rfl

theorem titles_handleMode : (b.handleMode message).manager.titles = b.manager.titles := by
  unfold handleMode
  split
  · exact titles_mapRuntime _ _ fun c => applyModeChanges_channel c b.caps _ _
  · rfl

theorem titles_handlePart : (b.handlePart message).manager.titles = b.manager.titles := by
  unfold handlePart
  split
  · refine titles_mapRuntime _ _ fun c => ?_
    split_ifs <;> rfl
  · rfl

theorem titles_handleQuit : (b.handleQuit S now message).manager.titles = b.manager.titles := by
  unfold handleQuit
  split
  · rfl
  · exact titles_map _ fun e => rfl

/-- No line renames a channel or changes where it is kept. -/
theorem titles_onMessage : (b.onMessage S link now message).manager.titles = b.manager.titles := by
  unfold onMessage
  repeat'
    refine iteInduction (motive := fun x : IrcBot => x.manager.titles = b.manager.titles)
      (fun _ => ?_) fun _ => ?_
  · exact titles_map _ fun e => rfl
  · exact titles_handleWho b link message
  · exact titles_handleNames b message
  · exact titles_handleBanList b message
  · exact titles_handleRefused b message
  · exact titles_handleChghost S b link now message
  · exact titles_handleJoin b link message
  · exact titles_handleKick b message
  · exact titles_handleMode b message
  · refine (titles_handleNick S _ link now message).trans ?_
    split
    · rw [trackNick_manager]
    · rfl
  · exact titles_handlePart b message
  · exact titles_handleQuit S b now message
  · rfl

end IrcBot

namespace IrcServer

variable {r : MemberRanks} {base : ISupport} {cm : Casemapping} {S : SessionScope}
  {s s' : IrcServer} {b b' : IrcBot} {c : CommandBot}

theorem titles_of_history {s₀ : IrcServer} {b₀ : IrcBot} (h : History r cm S s₀ b₀ s b) :
    b.manager.titles = b₀.manager.titles := by
  have hhandles : ∀ {b b' : IrcBot} {messages : List IRCMessage}, Handles S b messages b' →
      b'.manager.titles = b.manager.titles := by
    intro b b' messages hhandled
    induction hhandled with
    | nil => rfl
    | cons link now rest ih => exact ih.trans (IrcBot.titles_onMessage S _ link now _)
  induction h with
  | start => rfl
  | step earlier hstep hhandled ih => exact (hhandles hhandled).trans ih

theorem named_of_history {s₀ : IrcServer} {b₀ : IrcBot} (hstart : Starts r base cm s₀ b₀)
    (hnamed : b₀.manager.Named) (h : History r cm S s₀ b₀ s b) : b.manager.Named :=
  hnamed.congr (titles_of_history h)
    ((tracks_of_history hstart h).tracked.casemapping.trans hstart.casemapping.symm)

/-! ## Members that await the rank -/

/-- The user with this prefix is on the channel below the operators, of which the bot is one. -/
structure Awaits (r : MemberRanks) (cm : Casemapping) (s : IrcServer) (p : Prefix) (f : Str)
    (modes : List CodePoint) : Prop where
  user : ∃ x, s.users (casefold p.nick cm) = some x ∧ p.matchesPrefix x.toPrefix cm = true
  seat : s.seats f (casefold p.nick cm) = some modes
  lower : ¬ r.Operator modes
  operates : s.Operates r f s.self

/-- The bot knows the user with this prefix as a member. -/
def Knows (c : CommandBot) (p : Prefix) (runtime : ChannelRuntime) (member : ChannelMember) :
    Prop :=
  c.member runtime p.nick = some member ∧
    ∃ q, member.ircPrefix = some q ∧ p.matchesPrefix q c.bot.manager.casemapping = true

variable {p : Prefix} {channel : Str} {runtime : ChannelRuntime} {member : ChannelMember}
  {modes : List CodePoint}

/-- A member that the bot knows has the prefix at the server, and its rank there. -/
theorem Knows.shown (h : Tracks r base cm s c.bot)
    (hruntime : c.bot.manager.runtime channel = some runtime)
    (hop : s.Operates r (casefold channel cm) s.self) (hknown : Knows c p runtime member) :
    casefold member.nick cm = casefold p.nick cm ∧
    ∃ x modes, s.users (casefold p.nick cm) = some x ∧ p.matchesPrefix x.toPrefix cm = true ∧
      s.seats (casefold channel cm) (casefold p.nick cm) = some modes ∧
      (c.bot.caps.isOpped member.modes = true ↔ r.Operator modes) := by
  obtain ⟨hmember, q, hq, hmatch⟩ := hknown
  rw [h.tracked.casemapping] at hmatch
  rcases h.member hruntime hop p.nick with ⟨-, hnone⟩ |
    ⟨x, modes, found, hx, hseat, hranked, hfound, hshows⟩
  · rw [hmember] at hnone
    cases hnone
  · obtain rfl := Option.some.inj (hmember.symm.trans hfound)
    obtain rfl := hshows.known q hq (Prefix.complete_of_matchesPrefix hmatch)
    refine ⟨?_, x, modes, hx, hmatch, hseat, ?_⟩
    · rw [hshows.nick, h.consistent.nick_eq hx]
    · rw [h.tracked.caps]
      exact hshows.isOpped hranked

theorem Knows.awaits (h : Tracks r base cm s c.bot)
    (hruntime : c.bot.manager.runtime channel = some runtime)
    (hop : s.Operates r (casefold channel cm) s.self) (hknown : Knows c p runtime member)
    (hlower : c.bot.caps.isOpped member.modes = false) :
    ∃ modes, s.Awaits r cm p (casefold channel cm) modes := by
  obtain ⟨-, x, modes, hx, hmatch, hseat, hopped⟩ := hknown.shown h hruntime hop
  refine ⟨modes, ⟨x, hx, hmatch⟩, hseat, fun hoperator => ?_, hop⟩
  rw [hopped.mpr hoperator] at hlower
  cases hlower

/-- The operator's mode for a member, at a server that has changed elsewhere. -/
theorem Awaits.obey (h : Tracks r base cm s c.bot) {p : Prefix} {f : Str}
    (hawaits : s.Awaits r cm p f modes) (hseat : s'.seats f = s.seats f) (hself : s'.self = s.self)
    {channel nick : Str} (hchannel : casefold channel cm = f)
    (hnick : casefold nick cm = casefold p.nick cm) :
    s'.obey r cm ⟨lit "MODE", [channel, [43, c.bot.caps.opMode], nick], none⟩ =
      s'.seat f (casefold p.nick cm) (some (c.bot.caps.opMode :: modes)) := by
  have hhigh := (highMode_of_operates base hawaits.operates).1
  rw [← h.tracked.caps] at hhigh
  have hop : s'.Operates r f s'.self := by
    obtain ⟨own, hown, hoperator⟩ := hawaits.operates
    exact ⟨own, by rw [hseat, hself, hown], hoperator⟩
  have hobey : s'.obey r cm ⟨lit "MODE", [channel, [43, c.bot.caps.opMode], nick], none⟩ = _ :=
    obey_mode hhigh true channel nick
  rw [hchannel, hnick, if_pos hop, change, hseat, hawaits.seat] at hobey
  exact hobey

/-! ## Peers -/

end IrcServer

/-- The line of an action as it goes to the server -/
def HelpLine.outgoing : HelpLine → Outgoing
  | .invite nick channel => ⟨lit "INVITE", [nick, channel], none⟩
  | .op channel mode nick => ⟨lit "MODE", [channel, [43, mode], nick], none⟩
  | .unban channel mask => ⟨lit "MODE", [channel, lit "-b", mask], none⟩
  | .limit channel target => ⟨lit "MODE", [channel, lit "+l", decimal target], none⟩

namespace IrcServer

variable {r : MemberRanks} {base : ISupport} {cm : Casemapping} {s : IrcServer} {c : CommandBot}

/-- Of the lines of an action only that of an operator's mode changes a membership. -/
theorem obey_outgoing {line : HelpLine} (h : ∀ channel mode nick, line ≠ .op channel mode nick) :
    s.obey r cm line.outgoing = s := by
  cases line with
  | invite nick channel => simp [HelpLine.outgoing, obey, lit]
  | op channel mode nick => exact absurd rfl (h channel mode nick)
  | unban channel mask =>
    exact obey_setting (by decide : (98 : CodePoint) ∈ ([98, 107, 108] : Str)) false channel mask
  | limit channel target =>
    exact obey_setting (by decide : (108 : CodePoint) ∈ ([98, 107, 108] : Str)) true channel
      (decimal target)

/-- What the answer to a request does to the server. -/
def helped (r : MemberRanks) (cm : Casemapping) (s : IrcServer) (lines : List HelpLine) :
    IrcServer :=
  (lines.map HelpLine.outgoing).foldl (obey r cm) s

theorem helped_of_not_op {lines : List HelpLine}
    (h : ∀ line ∈ lines, ∀ channel mode nick, line ≠ .op channel mode nick) :
    s.helped r cm lines = s := by
  unfold helped
  rw [List.foldl_map]
  refine List.foldlRecOn (motive := fun s' => s' = s) _ _ rfl fun s' hs' line hline => ?_
  rw [obey_outgoing (h line hline), hs']

variable {fold : Str → Str} {botId kind : Str} {m : Moment} {payload : Fields} {h : Helper}

/-- The lines of `op_peer` are one at most. -/
theorem opPeer_lines (fold : Str → Str) (m : Moment) (payload : Fields) (hh : h.bot = c.bot) :
    (h.opPeer fold m payload).2 = [] ∨ ∃ channel presence runtime member,
      Eligible fold h m.now payload channel presence runtime ∧
      Knows c presence.toPrefix runtime member ∧ c.bot.caps.isOpped member.modes = false ∧
      (h.opPeer fold m payload).2 = [.op channel c.bot.caps.opMode presence.nick] := by
  unfold Helper.opPeer Helper.answer
  split
  · exact .inl rfl
  · rename_i registry channel presence runtime he
    obtain ⟨heligible, hwaits⟩ := Helper.helpEligible_eq_some he
    obtain ⟨member, q, hmember, hlower, hq, -, hmatch⟩ := hwaits rfl
    rw [hh] at hmember hlower hmatch ⊢
    by_cases hsends : m.sends (.op channel c.bot.caps.opMode presence.nick) = true
    · refine .inr ⟨channel, presence, runtime, member, heligible, ⟨hmember, q, hq, hmatch⟩,
        hlower, ?_⟩
      simp [hsends]
    · exact .inl (by simp [hsends])

theorem helpEligible_member {now : ℚ} {channel : Str} {presence : BotPresence}
    {runtime : ChannelRuntime}
    (he : (h.helpEligible fold now payload false).2 = some (channel, presence, runtime)) :
    (h.helpEligible fold now payload true).2 =
      if h.bot.awaitsOp runtime presence then some (channel, presence, runtime) else none := by
  unfold Helper.helpEligible at he ⊢
  split at he
  · split at he
    · cases he
    · dsimp only at he ⊢
      split_ifs at he with hcond
      · obtain ⟨rfl, rfl, rfl⟩ := Option.some.inj he
        rw [Bool.and_eq_true] at hcond
        rw [hcond.1]
        cases h.bot.awaitsOp runtime presence <;> rfl
  · cases he

/-- An eligible request for a member that the bot knows has it made an operator, if it is none. -/
theorem helped_eligible (ht : Tracks r base cm s c.bot) (hh : h.bot = c.bot) {channel : Str}
    {presence : BotPresence} {runtime : ChannelRuntime} {member : ChannelMember}
    (he : (h.helpEligible fold m.now payload false).2 = some (channel, presence, runtime))
    (hknown : Knows c presence.toPrefix runtime member)
    (hop : s.Operates r (casefold channel cm) s.self)
    (hsends : m.sends (.op channel c.bot.caps.opMode presence.nick) = true) :
    (s.helped r cm (h.helpAfterDelay fold botId m (lit "op") payload).2).Operates r
      (casefold channel cm) (casefold presence.nick cm) := by
  have hruntime : c.bot.manager.runtime channel = some runtime := by
    rw [← hh]
    exact (Helper.helpEligible_eq_some (Prod.ext rfl he)).1.runtime
  have hlines : h.helpAfterDelay fold botId m (lit "op") payload = h.opPeer fold m payload := rfl
  obtain ⟨hnick, x, modes, hx, hmatch, hseat, hopped⟩ := hknown.shown ht hruntime hop
  obtain ⟨hmember, q, hq, hprefix⟩ := hknown
  have hmember : Assoc.lookup (c.bot.manager.fold presence.nick) runtime.members = some member :=
    hmember
  have hawaits : h.bot.awaitsOp runtime presence = !c.bot.caps.isOpped member.modes := by
    rw [hh, IrcBot.awaitsOp, hmember]
    have hprefix : presence.matchesPrefix q c.bot.manager.casemapping = true := hprefix
    simp [hq, hprefix]
  have hmemberCheck := helpEligible_member he
  rw [hawaits] at hmemberCheck
  rw [hlines, Helper.opPeer, Helper.answer]
  by_cases hoperator : r.Operator modes
  · rw [hopped.mpr hoperator] at hmemberCheck
    split
    · exact ⟨modes, hseat, hoperator⟩
    · rename_i he'
      rw [he'] at hmemberCheck
      cases hmemberCheck
  · have hlower := eq_false_of_ne_true (mt hopped.mp hoperator)
    have hawaits : s.Awaits r cm presence.toPrefix (casefold channel cm) modes :=
      ⟨⟨x, hx, hmatch⟩, hseat, hoperator, hop⟩
    rw [hlower] at hmemberCheck
    split
    · rename_i he'
      rw [he'] at hmemberCheck
      cases hmemberCheck
    · rename_i he'
      rw [he'] at hmemberCheck
      obtain ⟨rfl, rfl, rfl⟩ := Option.some.inj hmemberCheck
      have hobey : s.obey r cm (HelpLine.outgoing (.op channel c.bot.caps.opMode presence.nick)) =
          _ := hawaits.obey ht rfl rfl rfl rfl
      have hhigh := (highMode_of_operates base hop).1.operator
      rw [← ht.tracked.caps] at hhigh
      dsimp only
      rw [hh, List.takeWhile_cons_of_pos hsends, List.takeWhile_nil, helped, List.map_singleton,
        List.foldl_cons, List.foldl_nil, hobey]
      exact ⟨_, seat_same _ _ _ _, operator_iff.mpr ⟨_, List.mem_cons_self, hhigh⟩⟩

/-- An answer leaves the members as they are, or makes the member an operator that the request
names with a presence which is live. -/
theorem helped_cases (ht : Tracks r base cm s c.bot) (hh : h.bot = c.bot) :
    s.helped r cm (h.helpAfterDelay fold botId m kind payload).2 = s ∨
    kind = lit "op" ∧ ∃ channel presence runtime modes,
      Eligible fold h m.now payload channel presence runtime ∧
      s.Awaits r cm presence.toPrefix (casefold channel cm) modes ∧
      s.helped r cm (h.helpAfterDelay fold botId m kind payload).2 =
        s.seat (casefold channel cm) (casefold presence.nick cm)
          (some (c.bot.caps.opMode :: modes)) := by
  by_cases hkind : kind = lit "op"
  · subst hkind
    have hlines : h.helpAfterDelay fold botId m (lit "op") payload = h.opPeer fold m payload := rfl
    rw [hlines]
    rcases opPeer_lines fold m payload hh with hnone |
      ⟨channel, presence, runtime, member, heligible, hknown, hlower, hline⟩
    · exact .inl (by rw [hnone]; rfl)
    · rw [hline]
      have hruntime := heligible.runtime
      rw [hh] at hruntime
      by_cases hop : s.Operates r (casefold channel cm) s.self
      · obtain ⟨modes, hawaits⟩ := hknown.awaits ht hruntime hop hlower
        exact .inr ⟨rfl, channel, presence, runtime, modes, heligible, hawaits,
          hawaits.obey ht rfl rfl rfl rfl⟩
      · have hrefused : s.obey r cm
            (HelpLine.outgoing (.op channel c.bot.caps.opMode presence.nick)) = s :=
          obey_stranger hop rfl
        exact .inl hrefused
  · refine .inl (helped_of_not_op fun line hline channel mode nick heq => hkind ?_)
    subst heq
    obtain ⟨_, _, _, -, hanswers⟩ := Helper.mem_helpAfterDelay hline
    exact hanswers.1

/-! ## The user of a session -/

/-- The bot is an operator of a channel by its own members where it is one by the server's. -/
theorem isSelfOpped_of_operates (h : Tracks r base cm s c.bot) {channel : Str}
    {runtime : ChannelRuntime} (hruntime : c.bot.manager.runtime channel = some runtime)
    (hop : s.Operates r (casefold channel cm) s.self) : c.bot.isSelfOpped runtime = true := by
  obtain ⟨own, hown, hoperator⟩ := id hop
  rcases h.member hruntime hop c.bot.currentNick with ⟨hnone, -⟩ |
    ⟨x, modes, member, -, hseat, hranked, hmember, hshows⟩
  · rw [h.nick, hown] at hnone
    cases hnone
  · rw [h.nick, hown] at hseat
    obtain rfl := Option.some.inj hseat
    have hlookup : Assoc.lookup (c.bot.manager.fold c.bot.currentNick) runtime.members =
        some member := hmember
    rw [IrcBot.isSelfOpped, hlookup]
    dsimp only
    rw [h.tracked.caps]
    exact (hshows.isOpped hranked).mpr hoperator

/-- What the lines of `auto_op` do on the channels of `done`. -/
structure Handed (r : MemberRanks) (cm : Casemapping) (mode : CodePoint) (p : Prefix)
    (s : IrcServer) (done : List ChannelRuntime) (s' : IrcServer) : Prop where
  self : s'.self = s.self
  seats : ∀ f k, s'.seats f k = s.seats f k ∨ k = casefold p.nick cm ∧
    (∃ runtime ∈ done, casefold runtime.channel cm = f) ∧
    ∃ modes, s.Awaits r cm p f modes ∧ s'.seats f k = some (mode :: modes)

variable {p : Prefix} {mode : CodePoint} {done : List ChannelRuntime} {s' : IrcServer}
  {runtime : ChannelRuntime} {f k : Str}

theorem Handed.mono (h : Handed r cm mode p s done s') (runtime : ChannelRuntime) :
    Handed r cm mode p s (done ++ [runtime]) s' := by
  refine ⟨h.self, fun f k => (h.seats f k).imp_right ?_⟩
  rintro ⟨hk, ⟨d, hd, hf⟩, hrest⟩
  exact ⟨hk, ⟨d, List.mem_append_left _ hd, hf⟩, hrest⟩

/-- Nobody loses the rank. -/
theorem Handed.operates (h : Handed r cm mode p s done s') (hop : s.Operates r f k) :
    s'.Operates r f k := by
  obtain ⟨modes, hmodes, hoperator⟩ := hop
  rcases h.seats f k with hsame | ⟨rfl, -, modes', hawaits, -⟩
  · exact ⟨modes, hsame.trans hmodes, hoperator⟩
  · obtain rfl := Option.some.inj (hmodes.symm.trans hawaits.seat)
    exact absurd hoperator hawaits.lower

/-- A channel that is not done yet, or where the bot is no operator, is as it was. -/
theorem Handed.untouched (h : Handed r cm mode p s done s')
    (hf : (∀ runtime ∈ done, casefold runtime.channel cm ≠ f) ∨ ¬ s.Operates r f s.self) :
    s'.seats f = s.seats f := by
  funext k
  refine (h.seats f k).resolve_right ?_
  rintro ⟨-, ⟨d, hd, hdf⟩, modes, hawaits, -⟩
  rcases hf with hf | hf
  · exact hf d hd hdf
  · exact hf hawaits.operates

variable {member : ChannelMember} {loop : SendLoop}

/-- The line for a member that the bot knows and has below the operators -/
def opLine (c : CommandBot) (runtime : ChannelRuntime) (member : ChannelMember) : Outgoing :=
  ⟨lit "MODE", [runtime.channel, [43, c.bot.caps.opMode], member.nick], none⟩

/-- The queue does not take the line after the first of the messages. -/
def Refused (c : CommandBot) (loop : SendLoop) (ms : List Outgoing) (m : Outgoing) : Prop :=
  ∃ sent rest t message, ms = sent ++ rest ∧ loop.Takes sent t ∧
    exec (c.send m.command m.params m.trailing) t = (.error (.connection message), t)

theorem Refused.append {ms : List Outgoing} {m : Outgoing} (h : Refused c loop ms m)
    (ms' : List Outgoing) : Refused c loop (ms ++ ms') m := by
  obtain ⟨sent, rest, t, message, rfl, htakes, hsend⟩ := h
  exact ⟨sent, rest ++ ms', t, message, List.append_assoc _ _ _, htakes, hsend⟩

/-- The line for a member that the bot knows cannot be encoded. -/
def Unencodable (c : CommandBot) (p : Prefix) (runtime : ChannelRuntime) : Prop :=
  ∃ member e, Knows c p runtime member ∧
    formatMessage (lit "MODE") [runtime.channel, [43, c.bot.caps.opMode], member.nick] none =
      .error e

/-- In a channel `auto_op` sends the line for the user, where it may and the queue takes it. -/
theorem triple_autoOpIn (c : CommandBot) (p : Prefix) (runtime : ChannelRuntime) (t : SendLoop) :
    Triple (fun u => u = t) (c.autoOpIn p runtime)
      (fun _ u => (u = t ∧ ∀ member, Knows c p runtime member → c.bot.isSelfOpped runtime = true →
          c.bot.caps.isOpped member.modes = true ∨ Refused c t [] (opLine c runtime member)) ∨
        ∃ member, Knows c p runtime member ∧ c.bot.caps.isOpped member.modes = false ∧
          t.Takes [opLine c runtime member] u)
      fun _ u => u = t ∧ Unencodable c p runtime := by
  rintro u rfl
  have hfilter : ∀ {found : Option ChannelMember} {member : ChannelMember},
      Knows c p runtime member → (c.member runtime p.nick).filter (fun m =>
        m.ircPrefix.any fun q => p.matchesPrefix q c.bot.manager.casemapping) = found →
      found = some member := by
    rintro found member ⟨hmember, q, hq, hmatch⟩ rfl
    simp [hmember, hq, hmatch, Option.filter]
  unfold CommandBot.autoOpIn
  by_cases hopped : c.bot.isSelfOpped runtime = true
  · rw [if_neg (by simp [hopped])]
    split
    · rename_i hnone
      exact .inl ⟨rfl, fun member hknown => absurd (hfilter hknown hnone) (by simp)⟩
    · rename_i member hsome
      by_cases hlower : c.bot.caps.isOpped member.modes = true
      · rw [if_pos hlower]
        refine .inl ⟨rfl, fun other hknown _ => .inl ?_⟩
        obtain rfl := Option.some.inj (hfilter hknown hsome)
        exact hlower
      · rw [if_neg hlower, exec_tryCatch, CommandBot.exec_send]
        have hknown : Knows c p runtime member := by
          obtain ⟨hmember, hany⟩ := Option.filter_eq_some_iff.mp hsome
          obtain ⟨q, hq, hmatch⟩ := (Option.any_eq_true _ _).mp hany
          exact ⟨hmember, q, hq, hmatch⟩
        cases hformat : formatMessage (lit "MODE")
            [runtime.channel, [43, c.bot.caps.opMode], member.nick] none with
        | error e => exact ⟨rfl, member, e, hknown, hformat⟩
        | ok encoded =>
          dsimp only
          cases hsend : u.send c.connected encoded with
          | error message =>
            refine .inl ⟨rfl, fun other hother _ => .inr ⟨[], [], u, message, rfl, takes_nil u, ?_⟩⟩
            obtain rfl := Option.some.inj (hfilter hother hsome)
            rw [CommandBot.exec_send]
            simp only [opLine, hformat, hsend]
          | ok u' =>
            have hencodes : Outgoing.Encodes (opLine c runtime member) encoded := hformat
            exact .inr ⟨member, hknown, eq_false_of_ne_true hlower, takes_of_send hencodes hsend⟩
  · rw [if_pos (by simp [hopped])]
    exact .inl ⟨rfl, fun member _ hself => absurd hself hopped⟩

/-- The line reaches the member where the bot is an operator, and nobody where it is none. -/
theorem Handed.line (ht : Tracks r base cm s c.bot)
    (h : Handed r cm c.bot.caps.opMode p s done s')
    (hnew : ∀ d ∈ done, casefold d.channel cm ≠ casefold runtime.channel cm)
    (hruntime : c.bot.manager.runtime runtime.channel = some runtime)
    (hknown : Knows c p runtime member) (hlower : c.bot.caps.isOpped member.modes = false) :
    Handed r cm c.bot.caps.opMode p s (done ++ [runtime]) (s'.obey r cm (opLine c runtime member)) ∧
      (∀ f k, s'.Operates r f k → (s'.obey r cm (opLine c runtime member)).Operates r f k) ∧
      (s.Operates r (casefold runtime.channel cm) s.self →
        (s'.obey r cm (opLine c runtime member)).Operates r (casefold runtime.channel cm)
          (casefold p.nick cm)) := by
  by_cases hop : s.Operates r (casefold runtime.channel cm) s.self
  · obtain ⟨modes, hawaits⟩ := hknown.awaits ht hruntime hop hlower
    have hnick := (hknown.shown ht hruntime hop).1
    have hobey : s'.obey r cm (opLine c runtime member) = _ :=
      hawaits.obey ht (h.untouched (.inl hnew)) h.self rfl hnick
    have hhigh := (highMode_of_operates base hop).1.operator
    rw [← ht.tracked.caps] at hhigh
    have hreached : (s'.obey r cm (opLine c runtime member)).Operates r
        (casefold runtime.channel cm) (casefold p.nick cm) := by
      rw [hobey]
      exact ⟨_, seat_same _ _ _ _, operator_iff.mpr ⟨_, List.mem_cons_self, hhigh⟩⟩
    have hother : ∀ f k, ¬ (f = casefold runtime.channel cm ∧ k = casefold p.nick cm) →
        (s'.obey r cm (opLine c runtime member)).seats f k = s'.seats f k := by
      intro f k hne
      rw [hobey]
      by_cases hf : f = casefold runtime.channel cm
      · subst hf
        exact seat_of_ne _ _ _ fun hk => hne ⟨rfl, hk⟩
      · rw [seat_of_channel_ne _ _ _ hf]
    refine ⟨⟨by rw [hobey]; exact h.self, fun f k => ?_⟩, ?_, fun _ => hreached⟩
    · by_cases hat : f = casefold runtime.channel cm ∧ k = casefold p.nick cm
      · obtain ⟨rfl, rfl⟩ := hat
        rw [hobey]
        exact .inr ⟨rfl, ⟨runtime, by simp, rfl⟩, modes, hawaits, seat_same _ _ _ _⟩
      · rw [hother f k hat]
        exact (h.mono runtime).seats f k
    · rintro f k ⟨modes', hmodes, hoperator⟩
      by_cases hat : f = casefold runtime.channel cm ∧ k = casefold p.nick cm
      · obtain ⟨rfl, rfl⟩ := hat
        exact hreached
      · exact ⟨modes', (hother f k hat).trans hmodes, hoperator⟩
  · have hnot : ¬ s'.Operates r (casefold runtime.channel cm) s'.self := by
      rintro ⟨modes, hmodes, hoperator⟩
      rw [h.untouched (.inr hop), h.self] at hmodes
      exact hop ⟨modes, hmodes, hoperator⟩
    rw [obey_stranger hnot rfl]
    exact ⟨h.mono runtime, fun _ _ => id, fun hyes => absurd hyes hop⟩

/-- On the channels of `done` where the bot is an operator and knows the user, the user is one
after the messages, unless the queue did not take its line. -/
def Served (r : MemberRanks) (cm : Casemapping) (c : CommandBot) (p : Prefix) (s : IrcServer)
    (loop : SendLoop) (done : List ChannelRuntime) (ms : List Outgoing) : Prop :=
  ∀ runtime ∈ done, ∀ member, Knows c p runtime member →
    s.Operates r (casefold runtime.channel cm) s.self →
    (ms.foldl (obey r cm) s).Operates r (casefold runtime.channel cm) (casefold p.nick cm) ∨
      Refused c loop ms (opLine c runtime member)

/-- The lines of `auto_op` up to a channel -/
def Handing (r : MemberRanks) (cm : Casemapping) (c : CommandBot) (p : Prefix) (s : IrcServer)
    (loop : SendLoop) (done : List ChannelRuntime) (t : SendLoop) : Prop :=
  ∃ ms, loop.Takes ms t ∧ Handed r cm c.bot.caps.opMode p s done (ms.foldl (obey r cm) s) ∧
    Served r cm c p s loop done ms

theorem runtime_of_named (hnamed : c.bot.manager.Named)
    (hmem : runtime ∈ c.bot.manager.channels.map Prod.snd) :
    c.bot.manager.runtime runtime.channel = some runtime := by
  obtain ⟨e, he, rfl⟩ := List.mem_map.mp hmem
  rw [ChannelManager.runtime, hnamed.fold e he]
  exact hnamed.distinct.lookup he

/-- One channel more -/
theorem triple_handing (ht : Tracks r base cm s c.bot) (hnamed : c.bot.manager.Named)
    (hmem : runtime ∈ c.bot.manager.channels.map Prod.snd)
    (hnew : ∀ d ∈ done, casefold d.channel cm ≠ casefold runtime.channel cm) :
    Triple (Handing r cm c p s loop done) (c.autoOpIn p runtime)
      (fun _ => Handing r cm c p s loop (done ++ [runtime]))
      fun _ t => Handing r cm c p s loop done t ∧ Unencodable c p runtime := by
  rintro t ⟨ms, htakes, hhanded, hserved⟩
  have hruntime := runtime_of_named hnamed hmem
  refine (triple_autoOpIn c p runtime t t rfl).mono ?_ ?_
  · rintro _ u (⟨rfl, hsilent⟩ | ⟨member, hknown, hlower, hline⟩)
    · refine ⟨ms, htakes, hhanded.mono runtime, fun d hd member hknown hop => ?_⟩
      rcases List.mem_append.mp hd with hd | hd
      · exact hserved d hd member hknown hop
      · obtain rfl := List.mem_singleton.mp hd
        have hself := isSelfOpped_of_operates ht hruntime hop
        rcases hsilent member hknown hself with hopped | hrefused
        · obtain ⟨-, x, modes, -, -, hseat, hiff⟩ := hknown.shown ht hruntime hop
          exact .inl (hhanded.operates ⟨modes, hseat, hiff.mp hopped⟩)
        · obtain ⟨sent, rest, t', message, hnil, hsent, hsend⟩ := hrefused
          obtain ⟨rfl, rfl⟩ := List.append_eq_nil_iff.mp hnil.symm
          exact .inr ⟨ms, [], t', message, (List.append_nil ms).symm, by
            simpa using htakes.append hsent, hsend⟩
    · obtain ⟨hhanded', hkept, hreached⟩ := hhanded.line ht hnew hruntime hknown hlower
      rw [Handing]
      refine ⟨ms ++ [opLine c runtime member], htakes.append hline, ?_,
        fun d hd other hother hop => ?_⟩
      · rw [List.foldl_append]
        exact hhanded'
      · rw [List.foldl_append]
        rcases List.mem_append.mp hd with hd | hd
        · exact (hserved d hd other hother hop).imp (hkept _ _) fun hrefused => hrefused.append _
        · obtain rfl := List.mem_singleton.mp hd
          exact .inl (hreached hop)
  · rintro _ u ⟨rfl, hunencodable⟩
    exact ⟨⟨ms, htakes, hhanded, hserved⟩, hunencodable⟩

theorem triple_autoOp (ht : Tracks r base cm s c.bot) (hnamed : c.bot.manager.Named) :
    Triple (Handing r cm c p s loop []) (c.autoOp p)
      (fun _ => Handing r cm c p s loop (c.bot.manager.channels.map Prod.snd))
      fun _ t => ∃ done failed rest, c.bot.manager.channels.map Prod.snd = done ++ failed :: rest ∧
        Handing r cm c p s loop done t ∧ Unencodable c p failed := by
  refine triple_forM (Handing r cm c p s loop) _ fun done runtime rest hsplit => ?_
  have hmem : ∀ d, d ∈ done ∨ d = runtime → d ∈ c.bot.manager.channels.map Prod.snd := by
    intro d hd
    rw [hsplit, List.mem_append, List.mem_cons]
    rcases hd with hd | hd
    · exact .inl hd
    · exact .inr (.inl hd)
  refine (triple_handing ht hnamed (hmem runtime (.inr rfl)) fun d hd hsame => ?_).weaken
    (fun _ h => h) (fun _ _ h => h) fun _ _ h => ⟨done, runtime, rest, hsplit, h⟩
  have hkeys : (c.bot.manager.channels.map Prod.fst) =
      (c.bot.manager.channels.map Prod.snd).map fun d => casefold d.channel cm := by
    rw [List.map_map]
    refine List.map_congr_left fun e he => ?_
    rw [Function.comp_apply, ← ht.tracked.casemapping]
    exact (hnamed.fold e he).symm
  have hnodup := hnamed.distinct
  rw [Assoc.Distinct, hkeys, hsplit, List.map_append, List.nodup_append] at hnodup
  exact hnodup.2.2 _ (List.mem_map.mpr ⟨d, hd, rfl⟩) _ List.mem_cons_self hsame

/-- Operator status goes to those who are owed it. Whatever a peer asks, the answer makes at most
one member an operator: the one that its request names, on the channel it names, with a presence
that is live and the user and host that the server has; and where the bot may and the line goes
out it does so. `auto_op` makes nobody but its user an operator, with the user and host that the
server has, and on every channel where the bot is an operator and knows them, unless the queue
does not take the line; it goes through all channels, or up to one whose line cannot be encoded.
The server takes the lines at once. -/
theorem ops_handed_out {S : SessionScope} {s₀ : IrcServer} {b₀ : IrcBot}
    (hstart : Starts r base cm s₀ b₀) (hnamed : b₀.manager.Named)
    (h : History r cm S s₀ b₀ s c.bot) :
    (∀ (fold : Str → Str) (botId : Str) (g : Helper) (m : Moment) (kind : Str) (payload : Fields),
      g.bot = c.bot → s.helped r cm (g.helpAfterDelay fold botId m kind payload).2 = s ∨
      kind = lit "op" ∧ ∃ channel presence runtime modes,
        Eligible fold g m.now payload channel presence runtime ∧
        s.Awaits r cm presence.toPrefix (casefold channel cm) modes ∧
        s.helped r cm (g.helpAfterDelay fold botId m kind payload).2 =
          s.seat (casefold channel cm) (casefold presence.nick cm)
            (some (c.bot.caps.opMode :: modes))) ∧
    (∀ (fold : Str → Str) (botId : Str) (g : Helper) (m : Moment) (payload : Fields)
      (channel : Str) (presence : BotPresence) (runtime : ChannelRuntime) (member : ChannelMember),
      g.bot = c.bot →
      (g.helpEligible fold m.now payload false).2 = some (channel, presence, runtime) →
      Knows c presence.toPrefix runtime member → s.Operates r (casefold channel cm) s.self →
      m.sends (.op channel c.bot.caps.opMode presence.nick) = true →
      (s.helped r cm (g.helpAfterDelay fold botId m (lit "op") payload).2).Operates r
        (casefold channel cm) (casefold presence.nick cm)) ∧
    (∀ (p : Prefix) (loop : SendLoop), ∃ ms done, loop.Takes ms (exec (c.autoOp p) loop).2 ∧
      (∀ f k, (ms.foldl (obey r cm) s).seats f k = s.seats f k ∨ k = casefold p.nick cm ∧
        ∃ modes, s.Awaits r cm p f modes ∧
          (ms.foldl (obey r cm) s).seats f k = some (c.bot.caps.opMode :: modes)) ∧
      ((exec (c.autoOp p) loop).1 = .ok ⟨⟩ → done = c.bot.manager.channels.map Prod.snd) ∧
      (∀ error, (exec (c.autoOp p) loop).1 = .error error → ∃ failed rest,
        c.bot.manager.channels.map Prod.snd = done ++ failed :: rest ∧ Unencodable c p failed) ∧
      ∀ (channel : Str) (runtime : ChannelRuntime) (member : ChannelMember),
        c.bot.manager.runtime channel = some runtime → runtime ∈ done →
        Knows c p runtime member → s.Operates r (casefold channel cm) s.self →
        (ms.foldl (obey r cm) s).Operates r (casefold channel cm) (casefold p.nick cm) ∨
          Refused c loop ms (opLine c runtime member)) := by
  have ht := tracks_of_history hstart h
  have hnames := named_of_history hstart hnamed h
  refine ⟨fun fold botId g m kind payload hg => helped_cases ht hg,
    fun fold botId g m payload channel presence runtime member hg he hknown hop hsends =>
      helped_eligible ht hg he hknown hop hsends, fun p loop => ?_⟩
  have hbegin : Handing r cm c p s loop [] loop :=
    ⟨[], takes_nil loop, ⟨rfl, fun f k => .inl rfl⟩, fun _ hd => absurd hd List.not_mem_nil⟩
  have hrun := triple_autoOp ht hnames loop hbegin
  obtain ⟨done, ms, htakes, hhanded, hserved, hok, herror⟩ : ∃ done ms,
      loop.Takes ms (exec (c.autoOp p) loop).2 ∧
      Handed r cm c.bot.caps.opMode p s done (ms.foldl (obey r cm) s) ∧
      Served r cm c p s loop done ms ∧
      ((exec (c.autoOp p) loop).1 = .ok ⟨⟩ → done = c.bot.manager.channels.map Prod.snd) ∧
      ∀ error, (exec (c.autoOp p) loop).1 = .error error → ∃ failed rest,
        c.bot.manager.channels.map Prod.snd = done ++ failed :: rest ∧ Unencodable c p failed := by
    rcases hexec : exec (c.autoOp p) loop with ⟨e | _, t⟩ <;> rw [hexec] at hrun
    · obtain ⟨done, failed, rest, hsplit, ⟨ms, htakes, hhanded, hserved⟩, hfailed⟩ := hrun
      exact ⟨done, ms, htakes, hhanded, hserved, nofun, fun _ _ => ⟨failed, rest, hsplit, hfailed⟩⟩
    · obtain ⟨ms, htakes, hhanded, hserved⟩ := hrun
      exact ⟨_, ms, htakes, hhanded, hserved, fun _ => rfl, nofun⟩
  refine ⟨ms, done, htakes, fun f k => (hhanded.seats f k).imp_right ?_, hok, herror, ?_⟩
  · rintro ⟨hk, -, hrest⟩
    exact ⟨hk, hrest⟩
  · intro channel runtime member hruntime hdone hknown hop
    have hfold := hnames.fold _ (Assoc.mem_of_lookup hruntime)
    rw [ChannelManager.fold, ChannelManager.fold, ht.tracked.casemapping] at hfold
    have hreached := hserved runtime hdone member hknown
    rw [hfold] at hreached
    exact hreached hop

/-- A queue that has room after the messages took every line before. -/
theorem not_refused {ms : List Outgoing} {m : Outgoing} {t : SendLoop} (htakes : loop.Takes ms t)
    (hconnected : c.connected = true) (hphase : t.phase ≠ .ended)
    (hroom : t.outbound.length < outboundLimit) : ¬ Refused c loop ms m := by
  rintro ⟨sent, rest, u, message, rfl, ⟨lines, hlines, rfl⟩, hsend⟩
  obtain ⟨lines', hlines', rfl⟩ := htakes
  have hbefore : (loop.outbound ++ lines).length < outboundLimit := by
    have hsent := hlines.length_eq
    have hall := hlines'.length_eq
    simp only [List.length_append] at hall hroom ⊢
    omega
  rw [CommandBot.exec_send] at hsend
  split at hsend
  · cases hsend
  · rw [SendLoop.send, if_neg (by simp [hconnected, hphase]), if_neg (not_le.mpr hbefore)] at hsend
    cases hsend

def sampleUser : Prefix := ⟨lit "N", some (lit "u"), some (lit "h")⟩

def sampleLeft : IrcBot :=
  sampleOperator.onMessage sampleScope (fun _ => ⟨true, false, true⟩) 0
    ⟨lit "PART", [lit "#c"], some sampleUser⟩

/-- `N` left `#c` and came back. -/
def sampleReturned : CommandBot :=
  { sampleCommands with
    bot := sampleLeft.onMessage sampleScope (fun _ => ⟨true, false, true⟩) 0
      ⟨lit "JOIN", [lit "#c"], some sampleUser⟩ }

def sampleChannel : IrcServer :=
  ((sampleServer.seat (lit "#c") (lit "b") (some [111])).seat (lit "#c") (lit "n") none).seat
    (lit "#c") (lit "n") (some [])

theorem history_sampleReturned : History sampleRanks .rfc1459 sampleScope sampleServer sampleTracker
    sampleChannel sampleReturned.bot := by
  have hsends : (⟨lit "N", lit "u", lit "h"⟩ : ServerUser).Sends sampleUser := ⟨rfl, fun _ => rfl⟩
  have hpart : Step sampleRanks .rfc1459 (sampleServer.seat (lit "#c") (lit "b") (some [111]))
      [⟨lit "PART", [lit "#c"], some sampleUser⟩]
      ((sampleServer.seat (lit "#c") (lit "b") (some [111])).seat (lit "#c") (lit "n") none) :=
    Step.part (k := lit "n") rfl (by decide +kernel) hsends (.inl rfl)
  have hjoin : Step sampleRanks .rfc1459
      ((sampleServer.seat (lit "#c") (lit "b") (some [111])).seat (lit "#c") (lit "n") none)
      [⟨lit "JOIN", [lit "#c"], some sampleUser⟩] sampleChannel :=
    Step.join (k := lit "n") (by decide) rfl (by decide +kernel) hsends (.inl rfl)
  have hparted : Handles sampleScope sampleOperator [⟨lit "PART", [lit "#c"], some sampleUser⟩]
      sampleLeft := .cons (fun _ => ⟨true, false, true⟩) 0 (.nil _)
  have hjoined : Handles sampleScope sampleLeft [⟨lit "JOIN", [lit "#c"], some sampleUser⟩]
      sampleReturned.bot := .cons (fun _ => ⟨true, false, true⟩) 0 (.nil _)
  exact .step (.step history_sampleOperator hpart hparted) hjoin hjoined

theorem named_sampleTracker : sampleTracker.manager.Named where
  distinct := by
    rw [Assoc.Distinct]
    decide +kernel
  fold := by
    have hall : (sampleTracker.manager.channels.all fun e =>
        decide (sampleTracker.manager.fold e.2.channel = e.1)) = true := by decide +kernel
    exact fun e he => of_decide_eq_true (List.all_eq_true.mp hall e he)

/-- `auto_op` makes `N` an operator again. -/
theorem ops_handed_out_returned : ∃ ms,
    (SendLoop.init 0).Takes ms (exec (sampleReturned.autoOp sampleUser) (SendLoop.init 0)).2 ∧
    ¬ sampleChannel.Operates sampleRanks (lit "#c") (lit "n") ∧
    (ms.foldl (obey sampleRanks .rfc1459) sampleChannel).Operates sampleRanks (lit "#c")
      (lit "n") := by
  obtain ⟨ms, done, htakes, -, hdone, -, hserved⟩ :=
    (ops_handed_out (c := sampleReturned) starts_sample named_sampleTracker
      history_sampleReturned).2.2 sampleUser (SendLoop.init 0)
  have hview : (match exec (sampleReturned.autoOp sampleUser) (SendLoop.init 0) with
      | (.ok _, t) => decide (t.phase ≠ .ended ∧ t.outbound.length < outboundLimit)
      | (.error _, _) => false) = true := by decide +kernel
  have hknown : ((sampleReturned.bot.manager.runtime (lit "#c")).any fun runtime =>
      (sampleReturned.member runtime (lit "N")).any fun member =>
        member.ircPrefix.any fun q => sampleUser.matchesPrefix q .rfc1459) = true := by
    decide +kernel
  obtain ⟨runtime, hruntime, hknown⟩ := (Option.any_eq_true _ _).mp hknown
  obtain ⟨member, hmember, hknown⟩ := (Option.any_eq_true _ _).mp hknown
  obtain ⟨q, hq, hmatch⟩ := (Option.any_eq_true _ _).mp hknown
  refine ⟨ms, htakes, by decide +kernel, ?_⟩
  rcases hexec : exec (sampleReturned.autoOp sampleUser) (SendLoop.init 0) with ⟨e | _, t⟩
  · rw [hexec] at hview
    cases hview
  · rw [hexec] at hview hdone htakes
    obtain ⟨hphase, hroom⟩ := of_decide_eq_true hview
    refine (hserved (lit "#c") runtime member hruntime ?_ ⟨hmember, q, hq, hmatch⟩
      (by decide +kernel)).resolve_right (not_refused htakes rfl hphase hroom)
    rw [hdone rfl]
    exact List.mem_map.mpr ⟨_, Assoc.mem_of_lookup hruntime, rfl⟩

end IrcServer

end Botnats
