import Botnats.Commands
import Botnats.MemberTracking

/-!
# What commands do to a channel

`OP`, `DEOP` and `KICK` read the tracked members. A server that does what its operators ask
for then makes of their lines what the commands say, by its own view of the channel.
-/
namespace Botnats

open Triples

instance (r : MemberRanks) (modes : List CodePoint) : Decidable (r.Operator modes) :=
  match h : r.operatorRank with
  | none => isFalse (by simp [MemberRanks.Operator, h])
  | some rank => decidable_of_iff ((modes.any fun mode => decide (r.modes.idxOf mode ≤ rank)) = true)
      (by simp [MemberRanks.Operator, h])

namespace IrcServer

/-- The user is an operator of the channel. -/
def Operates (r : MemberRanks) (s : IrcServer) (f k : Str) : Prop :=
  ∃ modes, s.seats f k = some modes ∧ r.Operator modes

instance (r : MemberRanks) (s : IrcServer) (f k : Str) : Decidable (s.Operates r f k) :=
  match h : s.seats f k with
  | none => isFalse (by simp [Operates, h])
  | some modes => decidable_of_iff (r.Operator modes) (by simp [Operates, h])

/-- The membership changes of a MODE line whose letters have an argument each -/
def setModes (r : MemberRanks) (cm : Casemapping) (f : Str) (s : IrcServer) (text : Str)
    (arguments : List Str) : IrcServer :=
  ((modeLetters true text).zip arguments).foldl (fun s e =>
    if e.1.2 ∈ r.modes then s.change f (e.1.1, e.1.2, casefold e.2 cm) else s) s

/-- A line of the bot to a server that does what an operator asks for. -/
def obey (r : MemberRanks) (cm : Casemapping) (s : IrcServer) (m : Outgoing) : IrcServer :=
  match m.params with
  | channel :: nick :: rest =>
    if ¬ s.Operates r (casefold channel cm) s.self then s
    else if m.command = lit "MODE" then s.setModes r cm (casefold channel cm) nick rest
    else if m.command = lit "KICK" then s.seat (casefold channel cm) (casefold nick cm) none
    else s
  | _ => s

/-- The bot makes a member an operator, if it is one itself. -/
def promote (r : MemberRanks) (mode : CodePoint) (f k : Str) (s : IrcServer) : IrcServer :=
  if s.Operates r f s.self then
    s.seat f k ((s.seats f k).map fun modes => if r.Operator modes then modes else mode :: modes)
  else s

/-- The bot takes every rank of an operator and above from a member. -/
def demote (r : MemberRanks) (f k : Str) (s : IrcServer) : IrcServer :=
  if s.Operates r f s.self then
    s.seat f k ((s.seats f k).map fun modes => modes.filter fun mode => ¬ r.Operator [mode])
  else s

/-- The bot removes a member. -/
def expel (r : MemberRanks) (f k : Str) (s : IrcServer) : IrcServer :=
  if s.Operates r f s.self then s.seat f k none else s

variable {r : MemberRanks} {cm : Casemapping} {s : IrcServer} {f k channel nick : Str}
  {modes : List CodePoint} {mode : CodePoint}

theorem seat_eq_self {v : Option (List CodePoint)} (h : s.seats f k = v) : s.seat f k v = s := by
  subst h
  simp [seat]

theorem seat_seat (s : IrcServer) (f k : Str) (v w : Option (List CodePoint)) :
    (s.seat f k v).seat f k w = s.seat f k w := by
  simp [seat]

theorem operator_singleton : r.Operator [mode] ↔
    ∃ rank, r.operatorRank = some rank ∧ r.modes.idxOf mode ≤ rank := by
  simp [MemberRanks.Operator]

/-- A member is an operator by one of its modes. -/
theorem operator_iff : r.Operator modes ↔ ∃ mode ∈ modes, r.Operator [mode] := by
  constructor
  · rintro ⟨rank, hrank, mode, hmode, hle⟩
    exact ⟨mode, hmode, operator_singleton.mpr ⟨rank, hrank, hle⟩⟩
  · rintro ⟨mode, hmode, hop⟩
    obtain ⟨rank, hrank, hle⟩ := operator_singleton.mp hop
    exact ⟨rank, hrank, mode, hmode, hle⟩

/-- A rank that the server advertises, which is at least an operator's -/
structure HighMode (r : MemberRanks) (mode : CodePoint) : Prop where
  mem : mode ∈ r.modes
  operator : r.Operator [mode]

theorem HighMode.letters (h : HighMode r mode) (adding : Bool) :
    modeLetters true [if adding then 43 else 45, mode] = [(adding, mode)] := by
  have hsigns := r.letters mode h.mem
  simp only [List.mem_cons, not_or] at hsigns
  cases adding <;> simp [modeLetters, hsigns.1, hsigns.2.1]

/-- A MODE line of one high mode -/
theorem setModes_one (h : HighMode r mode) (adding : Bool) (s : IrcServer) (f nick : Str) :
    s.setModes r cm f [if adding then 43 else 45, mode] [nick] =
      s.change f (adding, mode, casefold nick cm) := by
  simp [setModes, h.letters, h.mem]

theorem obey_mode (h : HighMode r mode) (adding : Bool) (channel nick : Str) :
    s.obey r cm ⟨lit "MODE", [channel, [if adding then 43 else 45, mode], nick], none⟩ =
      if s.Operates r (casefold channel cm) s.self then
        s.change (casefold channel cm) (adding, mode, casefold nick cm) else s := by
  rw [obey]
  dsimp only
  rw [if_pos rfl, setModes_one h, ite_not]

theorem obey_kick (channel nick : Str) (reason : Option Str) :
    s.obey r cm ⟨lit "KICK", [channel, nick], reason⟩ =
      s.expel r (casefold channel cm) (casefold nick cm) := by
  rw [obey, expel]
  dsimp only
  rw [if_neg (show lit "KICK" ≠ lit "MODE" by decide), if_pos rfl, ite_not]

/-- From a user who is no operator there is no rank to take. -/
theorem change_high (h : HighMode r mode) (hnot : ¬ s.Operates r f k) :
    s.change f (false, mode, k) = s := by
  refine seat_eq_self ?_
  cases hseat : s.seats f k with
  | none => rfl
  | some modes =>
    have habsent : mode ∉ modes := fun hmode =>
      hnot ⟨modes, hseat, operator_iff.mpr ⟨mode, hmode, h.operator⟩⟩
    simp only [Option.map_some, Bool.false_eq_true, if_false, Option.some.injEq]
    exact (List.filter_eq_self.mpr fun m hm => decide_eq_true (ne_of_mem_of_not_mem hm habsent)).symm

/-- The bot may take a rank from another user while it is an operator, and from itself in
any case: where it is none, it has no rank to lose. -/
theorem obey_drop (h : HighMode r mode)
    (hmay : s.Operates r (casefold channel cm) s.self ∨ casefold nick cm = s.self) :
    s.obey r cm ⟨lit "MODE", [channel, [45, mode], nick], none⟩ =
      s.change (casefold channel cm) (false, mode, casefold nick cm) := by
  have hobey : s.obey r cm ⟨lit "MODE", [channel, [45, mode], nick], none⟩ = _ :=
    obey_mode h false channel nick
  rw [hobey]
  split_ifs with hop
  · rfl
  · rw [hmay.resolve_left hop, change_high h hop]

/-- The lines of `DEOP` take their ranks one by one. -/
theorem obey_drops (drops : List CodePoint) (hdrops : ∀ mode ∈ drops, HighMode r mode)
    (hmay : s.Operates r (casefold channel cm) s.self ∨ casefold nick cm = s.self) :
    (drops.map fun mode => (⟨lit "MODE", [channel, [45, mode], nick], none⟩ : Outgoing)).foldl
        (obey r cm) s =
      s.seat (casefold channel cm) (casefold nick cm)
        ((s.seats (casefold channel cm) (casefold nick cm)).map
          fun modes => modes.filter fun mode => mode ∉ drops) := by
  induction drops generalizing s with
  | nil => simpa using (seat_eq_self rfl).symm
  | cons mode drops ih =>
    rw [List.map_cons, List.foldl_cons, obey_drop (hdrops mode List.mem_cons_self) hmay, ih
      fun m hm => hdrops m (List.mem_cons_of_mem mode hm)]
    · rw [change, seat_seat, seat_same, Option.map_map]
      refine congrArg (s.seat _ _) (Option.map_congr fun modes _ => ?_)
      simp [List.filter_filter, Bool.and_comm]
    · by_cases hself : casefold nick cm = s.self
      · exact .inr hself
      · obtain ⟨modes, hseat, hop⟩ := hmay.resolve_right hself
        exact .inl ⟨modes, (seat_of_ne s _ _ (Ne.symm hself)).trans hseat, hop⟩

variable {base : ISupport}

theorem highMode_iff : mode ∈ r.modes ∧ mode ∈ (base.parsePrefix r.value).operatorModes ↔
    HighMode r mode := by
  constructor
  · rintro ⟨hmem, hop⟩
    exact ⟨hmem, operator_singleton.mpr ((r.mem_operatorModes base hmem).mp hop)⟩
  · rintro ⟨hmem, hop⟩
    exact ⟨hmem, (r.mem_operatorModes base hmem).mpr (operator_singleton.mp hop)⟩

/-- Where there are operators, they are made by the operator mode, and all modes of their
ranks are advertised. -/
theorem highMode_of_operates (base : ISupport) (h : s.Operates r f k) :
    HighMode r (base.parsePrefix r.value).opMode ∧
      ∀ mode ∈ (base.parsePrefix r.value).operatorModes, HighMode r mode := by
  obtain ⟨modes, -, rank, hrank, -⟩ := h
  have hmembership : (base.parsePrefix r.value).membershipModes = r.modes := by
    rw [MemberRanks.parsePrefix_value]
  rcases r.opMode_cases base with ⟨hop, hopRank⟩ | ⟨-, hnone⟩
  · refine ⟨⟨hop, operator_singleton.mpr ⟨_, hopRank, le_rfl⟩⟩, fun mode hmode => ?_⟩
    have hmem : mode ∈ r.modes := by
      rw [ISupport.operatorModes, hmembership, if_pos hop] at hmode
      exact List.mem_of_mem_take hmode
    exact highMode_iff.mp ⟨hmem, hmode⟩
  · rw [hnone] at hrank
    cases hrank

/-- The ranks that `DEOP` takes are all those of the member. -/
theorem filter_modesToDrop {c : CommandBot} {member : ChannelMember}
    (hcaps : c.bot.caps = base.parsePrefix r.value) (hranked : modes ⊆ r.modes)
    (hmodes : ∀ mode ∈ (base.parsePrefix r.value).operatorModes, mode ∈ member.modes ↔ mode ∈ modes) :
    (modes.filter fun mode => mode ∉ c.modesToDrop member) =
      modes.filter fun mode => ¬ r.Operator [mode] := by
  refine List.filter_congr fun mode hmode => decide_eq_decide.mpr (not_congr ?_)
  rw [operator_singleton, ← r.mem_operatorModes base (hranked hmode), CommandBot.modesToDrop, hcaps]
  constructor
  · exact fun h => (List.dropWhile_sublist _).subset h
  · intro hop
    rw [← List.takeWhile_append_dropWhile
      (p := fun mode => decide (mode ∉ member.modes))
      (l := (base.parsePrefix r.value).operatorModes), List.mem_append] at hop
    refine hop.resolve_left fun htake => ?_
    have hnot := of_decide_eq_true (List.all_eq_true.mp List.all_takeWhile mode htake)
    exact hnot ((hmodes mode (List.takeWhile_sublist _ |>.subset htake)).mpr hmode)

end IrcServer

/-! ## The lines of the commands -/

namespace CommandBot

open SendLoop

variable {c : CommandBot} {loop : SendLoop}

/-- The lines of `DEOP` in a channel -/
def deopLines (c : CommandBot) (channel target : Str) (runtime : ChannelRuntime) : List Outgoing :=
  match (c.member runtime target).filter fun m => c.bot.caps.isOpped m.modes with
  | none => []
  | some member => (c.modesToDrop member).map fun mode =>
      ⟨lit "MODE", [channel, [45, mode], member.nick], none⟩

/-- The lines of `KICK` in a channel -/
def kickLines (c : CommandBot) (channel target : Str) (words : List Str)
    (runtime : ChannelRuntime) : List Outgoing :=
  match c.member runtime target with
  | none => []
  | some member => [⟨lit "KICK", [channel, member.nick],
      if join [32] words = [] then none else some (join [32] words)⟩]

/-- The lines of `OP` in a channel -/
def opLines (c : CommandBot) (channel target : Str) (runtime : ChannelRuntime) : List Outgoing :=
  match (c.member runtime target).filter fun m => m.ircPrefix.any Prefix.complete with
  | none => []
  | some member =>
    if c.bot.caps.isOpped member.modes then []
    else [⟨lit "MODE", [channel, [43, c.bot.caps.opMode], member.nick], none⟩]

/-- The lines went to the queue, and then replies. -/
def Acted (loop : SendLoop) (nickname : Str) (lines : List Outgoing) : SendLoop → Prop :=
  Gained loop fun ms => ∃ replies, ms = lines ++ replies ∧
    ∀ m ∈ replies, ∃ message, m = ⟨lit "PRIVMSG", [nickname], some message⟩

theorem triple_reply_acted {E : CommandError → SendLoop → Prop} (nickname message : Str)
    (lines : List Outgoing) : Triple (Acted loop nickname lines) (c.reply nickname message)
      (fun _ => Acted loop nickname lines) E := by
  refine triple_reply fun ms h => ?_
  obtain ⟨replies, rfl, hreplies⟩ := h
  refine ⟨replies ++ [_], List.append_assoc _ _ _, fun m hm => ?_⟩
  rcases List.mem_append.mp hm with hm | hm
  · exact hreplies m hm
  · exact ⟨message, List.mem_singleton.mp hm⟩

/-- A line after other lines of the command -/
theorem triple_send_acted (command : Str) (params : List Str) (trailing : Option Str)
    (lines : List Outgoing) :
    Triple (Gained loop fun ms => ms = lines) (c.send command params trailing)
      (fun _ => Gained loop fun ms => ms = lines ++ [⟨command, params, trailing⟩])
      fun _ _ => True := by
  refine (triple_send command params trailing).weaken (fun _ h => h) ?_ fun _ _ _ => trivial
  rintro _ t ⟨ms, htakes, earlier, rfl, rfl⟩
  exact ⟨_, htakes, rfl⟩

theorem acted_of_lines {lines : List Outgoing} {t : SendLoop} (nickname : Str)
    (h : Gained loop (fun ms => ms = lines) t) : Acted loop nickname lines t := by
  obtain ⟨ms, htakes, rfl⟩ := h
  exact ⟨ms, htakes, [], by simp, by simp⟩

/-- A command that acts by lines, each of which is queued, and then replies -/
theorem triple_act {x : Command PUnit} {lines : List Outgoing} (nickname message : Str)
    (h : Triple (Gained loop fun ms => ms = []) x (fun _ => Gained loop fun ms => ms = lines)
      fun _ _ => True) :
    Triple (Gained loop fun ms => ms = []) (x >>= fun _ => do
        c.reply nickname message
        pure CommandNext.done)
      (fun _ => Acted loop nickname lines) fun _ _ => True := by
  refine h.bind fun _ => Triple.bind (Q := fun _ => Acted loop nickname lines) ?_ fun _ =>
    triple_return _ _
  exact (triple_reply_acted nickname message lines).weaken (fun t ht => acted_of_lines nickname ht)
    (fun _ _ h => h) fun _ _ h => h

/-- A command that only replies -/
theorem triple_refuse (nickname message : Str) :
    Triple (Gained loop fun ms => ms = []) (c.reply nickname message >>= fun _ =>
        pure CommandNext.done)
      (fun _ => Acted loop nickname []) fun _ _ => True :=
  triple_act nickname message (x := pure ⟨⟩) (triple_return _ _)

theorem triple_cmdDeop (c : CommandBot) (sender : Prefix) (channel target : Str) (loop : SendLoop) :
    Triple (Gained loop fun ms => ms = []) (c.cmdDeop sender [channel, target])
      (fun _ t => ∃ runtime, c.Opped channel runtime ∧
        Acted loop sender.nick (c.deopLines channel target runtime) t) fun _ _ => True := by
  unfold cmdDeop
  refine triple_check (fun _ _ _ => trivial) fun channel' hchannel =>
    triple_check (fun _ _ _ => trivial) fun target' htarget =>
      triple_oppedChannel (fun _ _ _ => trivial) fun runtime hopped => ?_
  obtain rfl := validateChannel_eq hchannel
  obtain rfl := validateTarget_eq htarget
  refine Triple.weaken (Q := fun _ => Acted loop sender.nick (c.deopLines channel' target' runtime))
    ?_ (fun _ h => h) (fun _ t ht => ⟨runtime, hopped, ht⟩) fun _ _ h => h
  dsimp only
  split
  · rename_i hfilter
    rw [deopLines, hfilter]
    exact triple_refuse _ _
  · rename_i member hfilter
    rw [deopLines, hfilter]
    refine triple_act _ _ ?_
    refine triple_forM (fun done => Gained loop fun ms => ms = done.map fun mode =>
      ⟨lit "MODE", [channel', [45, mode], member.nick], none⟩) _ fun done mode _ _ => ?_
    rw [List.map_append]
    exact triple_send_acted _ _ _ _

theorem triple_cmdKick (c : CommandBot) (sender : Prefix) (channel target : Str)
    (words : List Str) (loop : SendLoop) :
    Triple (Gained loop fun ms => ms = []) (c.cmdKick sender (channel :: target :: words))
      (fun _ t => ∃ runtime, c.Opped channel runtime ∧
        Acted loop sender.nick (c.kickLines channel target words runtime) t) fun _ _ => True := by
  unfold cmdKick
  refine triple_check (fun _ _ _ => trivial) fun channel' hchannel =>
    triple_check (fun _ _ _ => trivial) fun target' htarget =>
      triple_oppedChannel (fun _ _ _ => trivial) fun runtime hopped => ?_
  obtain rfl := validateChannel_eq hchannel
  obtain rfl := validateTarget_eq htarget
  refine Triple.weaken
    (Q := fun _ => Acted loop sender.nick (c.kickLines channel' target' words runtime))
    ?_ (fun _ h => h) (fun _ t ht => ⟨runtime, hopped, ht⟩) fun _ _ h => h
  dsimp only
  split
  · rename_i hmember
    rw [kickLines, hmember]
    exact triple_refuse _ _
  · rename_i member hmember
    rw [kickLines, hmember]
    exact triple_act _ _ (triple_send_acted _ _ _ [])

theorem triple_cmdOp (c : CommandBot) (sender : Prefix) (channel target : Str) (loop : SendLoop) :
    Triple (Gained loop fun ms => ms = []) (c.cmdOp sender [channel, target])
      (fun _ t => ∃ runtime, c.Opped channel runtime ∧
        Acted loop sender.nick (c.opLines channel target runtime) t) fun _ _ => True := by
  unfold cmdOp
  refine triple_check (fun _ _ _ => trivial) fun channel' hchannel =>
    triple_check (fun _ _ _ => trivial) fun target' htarget =>
      triple_oppedChannel (fun _ _ _ => trivial) fun runtime hopped => ?_
  obtain rfl := validateChannel_eq hchannel
  obtain rfl := validateTarget_eq htarget
  refine Triple.weaken (Q := fun _ => Acted loop sender.nick (c.opLines channel' target' runtime))
    ?_ (fun _ h => h) (fun _ t ht => ⟨runtime, hopped, ht⟩) fun _ _ h => h
  dsimp only
  split
  · rename_i hfilter
    rw [opLines, hfilter]
    exact triple_refuse _ _
  · rename_i member hfilter
    rw [opLines, hfilter]
    dsimp only
    split_ifs
    · exact triple_refuse _ _
    · exact triple_act _ _ (triple_send_acted _ _ _ [])

end CommandBot

namespace IrcServer

variable {r : MemberRanks} {base : ISupport} {cm : Casemapping} {s : IrcServer} {b : IrcBot}
  {c : CommandBot} {channel target : Str} {words : List Str} {runtime : ChannelRuntime}

/-- A server refuses who is no operator. -/
theorem obey_stranger {m : Outgoing} {rest : List Str}
    (hnot : ¬ s.Operates r (casefold channel cm) s.self) (hm : m.params = channel :: rest) :
    s.obey r cm m = s := by
  rw [obey, hm]
  cases rest with
  | nil => rfl
  | cons nick rest => exact if_pos hnot

theorem obey_strangers {lines : List Outgoing}
    (hnot : ¬ s.Operates r (casefold channel cm) s.self)
    (hlines : ∀ m ∈ lines, ∃ rest, m.params = channel :: rest) :
    lines.foldl (obey r cm) s = s := by
  induction lines with
  | nil => rfl
  | cons m lines ih =>
    obtain ⟨rest, hrest⟩ := hlines m List.mem_cons_self
    rw [List.foldl_cons, obey_stranger hnot hrest]
    exact ih fun m hm => hlines m (List.mem_cons_of_mem _ hm)

theorem obey_replies (nickname : Str) {replies : List Outgoing}
    (h : ∀ m ∈ replies, ∃ message, m = ⟨lit "PRIVMSG", [nickname], some message⟩) :
    replies.foldl (obey r cm) s = s := by
  induction replies with
  | nil => rfl
  | cons m replies ih =>
    obtain ⟨message, rfl⟩ := h m List.mem_cons_self
    exact ih fun m hm => h m (List.mem_cons_of_mem _ hm)

/-- The member that a target names is the server's. -/
theorem Tracks.member (h : Tracks r base cm s c.bot)
    (hruntime : c.bot.manager.runtime channel = some runtime)
    (hop : s.Operates r (casefold channel cm) s.self) (target : Str) :
    (s.seats (casefold channel cm) (casefold target cm) = none ∧ c.member runtime target = none) ∨
    ∃ x modes member, s.users (casefold target cm) = some x ∧
      s.seats (casefold channel cm) (casefold target cm) = some modes ∧ modes ⊆ r.modes ∧
      c.member runtime target = some member ∧
      Shows cm (base.parsePrefix r.value).operatorModes x modes member := by
  obtain ⟨own, hown, -⟩ := hop
  have hcm := h.tracked.casemapping
  rw [ChannelManager.runtime, ChannelManager.fold, hcm] at hruntime
  have hmirrors := (h.tracked.runtime _ _ hruntime).2 (by simp [Sees, hown])
  rw [CommandBot.member, ChannelManager.fold, hcm]
  cases hseat : s.seats (casefold channel cm) (casefold target cm) with
  | none => exact .inl ⟨rfl, hmirrors.absent _ hseat⟩
  | some modes =>
    obtain ⟨⟨x, hx⟩, hranked⟩ := h.consistent.seated _ _ modes hseat
    obtain ⟨member, hmember, hshows⟩ := hmirrors.present _ x modes hx hseat
    exact .inr ⟨x, modes, member, hx, rfl, hranked, hmember, hshows⟩

theorem Shows.isOpped {x : ServerUser} {modes : List CodePoint} {member : ChannelMember}
    (h : Shows cm (base.parsePrefix r.value).operatorModes x modes member) (hranked : modes ⊆ r.modes) :
    (base.parsePrefix r.value).isOpped member.modes = true ↔ r.Operator modes :=
  r.isOpped_iff base hranked h.modes

theorem obey_deopLines (h : Tracks r base cm s c.bot)
    (hruntime : c.bot.manager.runtime channel = some runtime) :
    (c.deopLines channel target runtime).foldl (obey r cm) s =
      s.demote r (casefold channel cm) (casefold target cm) := by
  rw [demote, CommandBot.deopLines, h.tracked.caps]
  split_ifs with hop
  · rcases h.member hruntime hop target with ⟨hseat, hmember⟩ |
      ⟨x, modes, member, hx, hseat, hranked, hmember, hshows⟩
    · rw [hmember, hseat]
      exact (seat_eq_self hseat).symm
    · rw [hmember, hseat, Option.map_some]
      by_cases hopped : (base.parsePrefix r.value).isOpped member.modes = true
      · have hnick : casefold member.nick cm = casefold target cm := by
          rw [hshows.nick, h.consistent.nick_eq hx]
        have hdrops : ∀ mode ∈ c.modesToDrop member, HighMode r mode := by
          intro mode hmode
          have hmode := (List.dropWhile_sublist _).subset hmode
          rw [h.tracked.caps] at hmode
          exact (highMode_of_operates base hop).2 mode hmode
        have hfilter : (some member).filter (fun m => (base.parsePrefix r.value).isOpped m.modes) =
            some member := by simp [Option.filter, hopped]
        rw [hfilter]
        dsimp only
        rw [obey_drops _ hdrops (.inl hop), hnick, hseat, Option.map_some,
          filter_modesToDrop h.tracked.caps hranked hshows.modes]
      · have hfilter : (some member).filter (fun m => (base.parsePrefix r.value).isOpped m.modes) =
            none := by simp [Option.filter, hopped]
        rw [hfilter]
        dsimp only [List.foldl_nil]
        refine (seat_eq_self ?_).symm
        rw [hseat, Option.some.injEq, eq_comm, List.filter_eq_self]
        intro mode hmode
        refine decide_eq_true fun hmodeOp => hopped ?_
        exact (hshows.isOpped hranked).mpr (operator_iff.mpr ⟨mode, hmode, hmodeOp⟩)
  · refine obey_strangers hop fun m hm => ?_
    split at hm
    · simp at hm
    · obtain ⟨mode, -, rfl⟩ := List.mem_map.mp hm
      exact ⟨_, rfl⟩

theorem obey_kickLines (h : Tracks r base cm s c.bot)
    (hruntime : c.bot.manager.runtime channel = some runtime) :
    (c.kickLines channel target words runtime).foldl (obey r cm) s =
      s.expel r (casefold channel cm) (casefold target cm) := by
  by_cases hop : s.Operates r (casefold channel cm) s.self
  · rw [CommandBot.kickLines]
    rcases h.member hruntime hop target with ⟨hseat, hmember⟩ |
      ⟨x, modes, member, hx, -, -, hmember, hshows⟩
    · rw [hmember, expel, if_pos hop]
      exact (seat_eq_self hseat).symm
    · rw [hmember]
      dsimp only [List.foldl_cons, List.foldl_nil]
      rw [obey_kick, hshows.nick, h.consistent.nick_eq hx]
  · rw [expel, if_neg hop]
    refine obey_strangers hop fun m hm => ?_
    rw [CommandBot.kickLines] at hm
    split at hm
    · simp at hm
    · rw [List.mem_singleton.mp hm]
      exact ⟨_, rfl⟩

/-- `OP` leaves a member alone whose user and host the bot does not know. -/
theorem obey_opLines (h : Tracks r base cm s c.bot)
    (hruntime : c.bot.manager.runtime channel = some runtime)
    (hknown : ∀ member, c.member runtime target = some member →
      member.ircPrefix.any Prefix.complete = true) :
    (c.opLines channel target runtime).foldl (obey r cm) s =
      s.promote r c.bot.caps.opMode (casefold channel cm) (casefold target cm) := by
  rw [promote, CommandBot.opLines, h.tracked.caps]
  split_ifs with hop
  · rcases h.member hruntime hop target with ⟨hseat, hmember⟩ |
      ⟨x, modes, member, hx, hseat, hranked, hmember, hshows⟩
    · rw [hmember, hseat]
      exact (seat_eq_self hseat).symm
    · have hfilter : (some member).filter (fun m => m.ircPrefix.any Prefix.complete) =
          some member := by simp [Option.filter, hknown member hmember]
      rw [hmember, hseat, Option.map_some, hfilter]
      dsimp only
      have hisOpped := hshows.isOpped hranked
      by_cases hopped : r.Operator modes
      · rw [if_pos (hisOpped.mpr hopped), if_pos hopped]
        exact (seat_eq_self hseat).symm
      · rw [if_neg (mt hisOpped.mp hopped), if_neg hopped, List.foldl_cons, List.foldl_nil]
        have hobey : s.obey r cm ⟨lit "MODE", [channel, [43, _], member.nick], none⟩ = _ :=
          obey_mode (highMode_of_operates base hop).1 true channel member.nick
        rw [if_pos hop, change, hshows.nick, h.consistent.nick_eq hx, hseat] at hobey
        exact hobey
  · refine obey_strangers hop fun m hm => ?_
    split at hm
    · simp at hm
    · split_ifs at hm
      · simp at hm
      · rw [List.mem_singleton.mp hm]
        exact ⟨_, rfl⟩

/-! ## What a command may do -/

/-- The command may change the seat of a member, which its arguments name. -/
inductive Aims (cm : Casemapping) : Str → List Str → Str → Str → Prop
  | op (channel target : Str) :
    Aims cm (lit "OP") [channel, target] (casefold channel cm) (casefold target cm)
  | deop (channel target : Str) :
    Aims cm (lit "DEOP") [channel, target] (casefold channel cm) (casefold target cm)
  | kick (channel target : Str) (words : List Str) :
    Aims cm (lit "KICK") (channel :: target :: words) (casefold channel cm) (casefold target cm)

theorem Aims.unique {name : Str} {arguments : List Str} {f k f' k' : Str}
    (h : Aims cm name arguments f k) (h' : Aims cm name arguments f' k') : f' = f ∧ k' = k := by
  have hhead : ∀ {f k : Str}, Aims cm name arguments f k →
      arguments.head?.map (casefold · cm) = some f ∧
      arguments[1]?.map (casefold · cm) = some k := by
    rintro f k (_ | _ | _) <;> exact ⟨rfl, rfl⟩
  have h := hhead h
  have h' := hhead h'
  rw [h.1, h.2] at h'
  exact ⟨(Option.some.inj h'.1).symm, (Option.some.inj h'.2).symm⟩

/-- A setting of the channel changes no membership. -/
theorem obey_setting {letter : CodePoint} (h : letter ∈ ([98, 107, 108] : Str)) (adding : Bool)
    (channel argument : Str) :
    s.obey r cm ⟨lit "MODE", [channel, [if adding then 43 else 45, letter], argument], none⟩ = s := by
  have habsent : letter ∉ r.modes := fun hmem =>
    r.letters letter hmem (List.mem_cons_of_mem 43 (List.mem_cons_of_mem 45 h))
  have hsigns : letter ≠ 43 ∧ letter ≠ 45 := by
    constructor <;> rintro rfl <;> exact absurd h (by decide)
  have hletters : modeLetters true [if adding then 43 else 45, letter] = [(adding, letter)] := by
    cases adding <;> simp [modeLetters, hsigns.1, hsigns.2]
  rw [obey]
  dsimp only
  rw [if_pos rfl, setModes, hletters]
  simp [habsent]

/-- A line that a command may send leaves the server as it is, or changes the seat that the
command names on a channel where the bot is an operator. -/
theorem obey_permitted (h : Tracks r base cm s c.bot) {name : Str} {arguments : List Str}
    {m : Outgoing} (hm : c.Permits name arguments m) (s' : IrcServer) :
    s'.obey r cm m = s' ∨ ∃ f k, Aims cm name arguments f k ∧ s'.Operates r f s'.self ∧
      (s.Operates r f s.self → ∃ v, s'.obey r cm m = s'.seat f k v) := by
  have hfold : ∀ {channel target : Str} {runtime : ChannelRuntime} {member : ChannelMember},
      c.Opped channel runtime → c.member runtime target = some member →
      s.Operates r (casefold channel cm) s.self →
      casefold member.nick cm = casefold target cm := by
    intro channel target runtime member hopped hmember hop
    rcases h.member hopped.1 hop target with ⟨-, hnone⟩ | ⟨x, modes, found, hx, -, -, hfound, hshows⟩
    · rw [hmember] at hnone
      cases hnone
    · obtain rfl := Option.some.inj (hmember.symm.trans hfound)
      rw [hshows.nick, h.consistent.nick_eq hx]
  cases hm with
  | @ban channel mask runtime opped => exact .inl (obey_setting (by decide) true channel mask)
  | @unban channel mask stored runtime opped tracked => exact .inl (obey_setting (by decide) false channel stored)
  | @invite channel target runtime opped => exact .inl (by simp [obey, lit])
  | @kick channel target words runtime member reason opped found =>
    rw [obey_kick, expel]
    split_ifs with hop
    · exact .inr ⟨_, _, .kick channel target words, hop, fun hbot =>
        ⟨none, by rw [hfold opped found hbot]⟩⟩
    · exact .inl rfl
  | @op channel target runtime member opped found lower =>
    by_cases hop : s'.Operates r (casefold channel cm) s'.self
    · rw [h.tracked.caps]
      have hobey : s'.obey r cm ⟨lit "MODE", [channel, [43, _], member.nick], none⟩ = _ :=
        obey_mode (highMode_of_operates base hop).1 true channel member.nick
      rw [if_pos hop, change] at hobey
      exact .inr ⟨_, _, .op channel target, hop, fun hbot =>
        ⟨_, by rw [← hfold opped found hbot]; exact hobey⟩⟩
    · exact .inl (obey_stranger hop rfl)
  | @deop channel target runtime member mode opped found higher dropped =>
    by_cases hop : s'.Operates r (casefold channel cm) s'.self
    · have hmode := (List.dropWhile_sublist _).subset dropped
      rw [h.tracked.caps] at hmode
      have hobey : s'.obey r cm ⟨lit "MODE", [channel, [45, mode], member.nick], none⟩ = _ :=
        obey_mode ((highMode_of_operates base hop).2 mode hmode) false channel member.nick
      rw [if_pos hop, change] at hobey
      exact .inr ⟨_, _, .deop channel target, hop, fun hbot =>
        ⟨_, by rw [← hfold opped found hbot]; exact hobey⟩⟩
    · exact .inl (obey_stranger hop rfl)

/-- So do all lines of a command together. -/
theorem obey_permitted_all (h : Tracks r base cm s c.bot) {sender : Prefix} {name : Str}
    {arguments : List Str} {ms : List Outgoing}
    (hms : ∀ m ∈ ms, c.Allows sender name arguments m) :
    ms.foldl (obey r cm) s = s ∨ ∃ f k, Aims cm name arguments f k ∧ s.Operates r f s.self ∧
      ∃ v, ms.foldl (obey r cm) s = s.seat f k v := by
  refine List.foldlRecOn ms _ (motive := fun s' => s' = s ∨ ∃ f k, Aims cm name arguments f k ∧
    s.Operates r f s.self ∧ ∃ v, s' = s.seat f k v) (.inl rfl) fun s' hs' m hm => ?_
  rcases hms m hm with ⟨message, rfl⟩ | hpermits
  · exact hs'
  · rcases obey_permitted h hpermits s' with hsame | ⟨f, k, haims, hop, hseat⟩
    · rwa [hsame]
    · rcases hs' with rfl | ⟨f', k', haims', hop', v, rfl⟩
      · obtain ⟨v, hv⟩ := hseat hop
        exact .inr ⟨f, k, haims, hop, v, hv⟩
      · obtain ⟨rfl, rfl⟩ := haims'.unique haims
        obtain ⟨w, hw⟩ := hseat hop'
        exact .inr ⟨_, _, haims, hop', w, by rw [hw, seat_seat]⟩

/-- The commands on the tracked members do to the server's members what they say. In every
history the lines of a text before its first wait change at most one seat: that of the member
which the command's arguments name, on a channel where the bot is an operator, and only for an
authorized sender. A `DEOP` that does
not raise takes every rank from an operator's up, a `KICK` removes the member, and an `OP` of a
member whose user and host the bot knows makes it an operator. -/
theorem commands_act {S : SessionScope} {s₀ : IrcServer} {b₀ : IrcBot}
    (hstart : Starts r base cm s₀ b₀) (h : History r cm S s₀ b₀ s c.bot) (sender : Prefix)
    (loop : SendLoop) :
    (∀ text, ∃ next ms t, exec (c.dispatch sender text) loop = (.ok next, t) ∧ loop.Takes ms t ∧
      (ms.foldl (obey r cm) s = s ∨ ∃ name arguments f k,
        parseCommand c.upper text = .ok (name, arguments) ∧ Aims cm name arguments f k ∧
        c.authorized sender = true ∧ s.Operates r f s.self ∧
        ∃ v, ms.foldl (obey r cm) s = s.seat f k v)) ∧
    (∀ channel target next t,
      exec (c.cmdDeop sender [channel, target]) loop = (.ok next, t) → ∃ ms, loop.Takes ms t ∧
        ms.foldl (obey r cm) s = s.demote r (casefold channel cm) (casefold target cm)) ∧
    (∀ channel target words next t,
      exec (c.cmdKick sender (channel :: target :: words)) loop = (.ok next, t) →
      ∃ ms, loop.Takes ms t ∧
        ms.foldl (obey r cm) s = s.expel r (casefold channel cm) (casefold target cm)) ∧
    ∀ channel target next t,
      (∀ runtime member, c.bot.manager.runtime channel = some runtime →
        c.member runtime target = some member → member.ircPrefix.any Prefix.complete = true) →
      exec (c.cmdOp sender [channel, target]) loop = (.ok next, t) → ∃ ms, loop.Takes ms t ∧
        ms.foldl (obey r cm) s =
          s.promote r c.bot.caps.opMode (casefold channel cm) (casefold target cm) := by
  have htracks := tracks_of_history hstart h
  have hacted : ∀ {lines : List Outgoing} {t : SendLoop}, CommandBot.Acted loop sender.nick lines t →
      ∃ ms, loop.Takes ms t ∧ ms.foldl (obey r cm) s = lines.foldl (obey r cm) s := by
    rintro lines t ⟨ms, htakes, replies, rfl, hreplies⟩
    exact ⟨_, htakes, by rw [List.foldl_append, obey_replies sender.nick hreplies]⟩
  have hstarted : loop.Gained (fun ms => ms = []) loop := ⟨[], SendLoop.takes_nil loop, rfl⟩
  refine ⟨fun text => ?_, fun channel target next t hexec => ?_,
    fun channel target words next t hexec => ?_, fun channel target next t hknown hexec => ?_⟩
  · obtain ⟨name, arguments, next, ms, t, hexec, htakes, hms, -, hparse⟩ :=
      CommandBot.exec_dispatch c sender text loop
    refine ⟨next, ms, t, hexec, htakes, ?_⟩
    by_cases hpermitted : ∃ m ∈ ms, c.Permits name arguments m
    · obtain ⟨m, -, hm⟩ := hpermitted
      obtain ⟨hnamed, hmay⟩ := hparse.resolve_right fun hnone => hnone.2 m hm
      rcases obey_permitted_all htracks hms with hsame | ⟨f, k, haims, hop, hseat⟩
      · exact .inl hsame
      · exact .inr ⟨name, arguments, f, k, hnamed, haims, hmay.resolve_right hm.ne_auth, hop,
          hseat⟩
    · refine .inl (obey_replies sender.nick fun m hm => ?_)
      exact (hms m hm).resolve_right fun hpermits => hpermitted ⟨m, hm, hpermits⟩
  · have hrun := c.triple_cmdDeop sender channel target loop loop hstarted
    rw [hexec] at hrun
    obtain ⟨runtime, hopped, hlines⟩ := hrun
    obtain ⟨ms, htakes, hms⟩ := hacted hlines
    exact ⟨ms, htakes, hms.trans (obey_deopLines htracks hopped.1)⟩
  · have hrun := c.triple_cmdKick sender channel target words loop loop hstarted
    rw [hexec] at hrun
    obtain ⟨runtime, hopped, hlines⟩ := hrun
    obtain ⟨ms, htakes, hms⟩ := hacted hlines
    exact ⟨ms, htakes, hms.trans (obey_kickLines htracks hopped.1)⟩
  · have hrun := c.triple_cmdOp sender channel target loop loop hstarted
    rw [hexec] at hrun
    obtain ⟨runtime, hopped, hlines⟩ := hrun
    obtain ⟨ms, htakes, hms⟩ := hacted hlines
    exact ⟨ms, htakes, hms.trans (obey_opLines htracks hopped.1 fun member hmember =>
      hknown runtime member hopped.1 hmember)⟩

/-- The bot `b` after it joined `#c` as an operator -/
def sampleOperator : IrcBot :=
  let joined := sampleTracker.onMessage sampleScope (fun _ => ⟨true, false, true⟩) 0
    ⟨lit "JOIN", [lit "#c"], some ⟨lit "B", none, none⟩⟩
  joined.onMessage sampleScope (fun _ => ⟨true, false, true⟩) 0
    ⟨lit "353", [lit "B", lit "=", lit "#c", lit "@N @B"], some ⟨lit "server", none, none⟩⟩

def sampleCommands : CommandBot where
  bot := sampleOperator
  registry := ⟨60, []⟩
  connected := true
  botId := lit "x"
  channelModes := []
  modes := fun _ => []
  limit := fun _ => none
  late := false
  now := 0
  suffix := []
  scope := sampleScope
  issuer := lit "x"
  hmacSha1 := fun _ => Vector.replicate 20 0
  upper := asciiUpperCase
  fold := id
  unencodable := []

/-- `N` is an operator when the bot joins. -/
theorem history_sampleOperator : History sampleRanks .rfc1459 sampleScope sampleServer sampleTracker
    (sampleServer.seat (lit "#c") (lit "b") (some [111])) sampleOperator := by
  have hwords : splitWords (lit "@N @B") = [lit "@N", lit "@B"] := by decide +kernel
  have hshown : ((sampleRanks.symbols.zip sampleRanks.modes).all fun e =>
      decide (e.1 ∈ ([64] : Str) ↔ e.2 ∈ ([111] : Str))) = true := by decide
  have hop : sampleRanks.Shown [111] [64] :=
    fun e he => of_decide_eq_true (List.all_eq_true.mp hshown e he)
  have hn : Listed sampleRanks (sampleServer.seat (lit "#c") (lit "b") (some [111])) (lit "#c")
      (lit "@N") (lit "n") :=
    ⟨⟨lit "N", lit "u", lit "h"⟩, [111], [64], rfl, rfl, rfl,
      List.cons_subset.mpr ⟨by decide, List.nil_subset _⟩, hop⟩
  have hb : Listed sampleRanks (sampleServer.seat (lit "#c") (lit "b") (some [111])) (lit "#c")
      (lit "@B") (lit "b") :=
    ⟨⟨lit "B", lit "u", lit "g"⟩, [111], [64], rfl, rfl, rfl,
      List.cons_subset.mpr ⟨by decide, List.nil_subset _⟩, hop⟩
  have hnames : Names sampleRanks (sampleServer.seat (lit "#c") (lit "b") (some [111])) (lit "#c")
      [lit "@N @B"] := by
    refine ⟨fun line hline entry hentry => ?_, fun k hk => ?_⟩
    · rw [List.mem_singleton.mp hline, hwords] at hentry
      rcases List.mem_pair.mp hentry with rfl | rfl
      · exact ⟨_, hn⟩
      · exact ⟨_, hb⟩
    · refine ⟨lit "@N @B", by simp, ?_⟩
      rw [hwords]
      by_cases hself : k = lit "b"
      · exact ⟨lit "@B", by simp, hself ▸ hb⟩
      · have hseat : sampleServer.seats (lit "#c") k ≠ none :=
          seat_of_ne sampleServer (lit "#c") (some [111]) hself ▸ hk
        have hkn : k = lit "n" := by
          by_contra hne
          exact hseat (if_neg fun h => hne h.2)
        exact ⟨lit "@N", by simp, hkn ▸ hn⟩
  have hstep : Step sampleRanks .rfc1459 sampleServer
      (⟨lit "JOIN", [lit "#c"], some ⟨lit "B", none, none⟩⟩ :: [lit "@N @B"].map fun line =>
        ⟨lit "353", [lit "B", lit "=", lit "#c", line], some ⟨lit "server", none, none⟩⟩)
      (sampleServer.seat (lit "#c") (lit "b") (some [111])) :=
    Step.joinSelf (x := ⟨lit "B", lit "u", lit "g"⟩) rfl rfl ⟨rfl, by decide⟩
      (List.cons_subset.mpr ⟨by decide, List.nil_subset _⟩) hnames
  exact .step .start hstep (.cons _ 0 (.cons _ 0 (.nil _)))

/-- `DEOP #c n` takes the rank of `N`. -/
theorem commands_act_deop : ∃ ms t, (SendLoop.init 0).Takes ms t ∧
    ms.foldl (obey sampleRanks .rfc1459)
      (sampleServer.seat (lit "#c") (lit "b") (some [111])) =
    (sampleServer.seat (lit "#c") (lit "b") (some [111])).demote sampleRanks (lit "#c") (lit "n") ∧
    (sampleServer.seat (lit "#c") (lit "b") (some [111])).Operates sampleRanks (lit "#c") (lit "n") ∧
    ¬ ((sampleServer.seat (lit "#c") (lit "b") (some [111])).demote sampleRanks (lit "#c")
      (lit "n")).Operates sampleRanks (lit "#c") (lit "n") := by
  have hok : (match (exec (sampleCommands.cmdDeop ⟨lit "a", some (lit "u"), some (lit "h")⟩
      [lit "#c", lit "n"]) (SendLoop.init 0)).1 with
      | .ok _ => true
      | .error _ => false) = true := by decide +kernel
  rcases hexec : exec (sampleCommands.cmdDeop ⟨lit "a", some (lit "u"), some (lit "h")⟩
      [lit "#c", lit "n"]) (SendLoop.init 0) with ⟨e | next, t⟩
  · rw [hexec] at hok
    cases hok
  · obtain ⟨ms, htakes, hms⟩ := (commands_act (c := sampleCommands) starts_sample
      history_sampleOperator ⟨lit "a", some (lit "u"), some (lit "h")⟩ (SendLoop.init 0)).2.1
      (lit "#c") (lit "n") next t hexec
    exact ⟨ms, t, htakes, hms, by decide +kernel, by decide +kernel⟩

end IrcServer

end Botnats
