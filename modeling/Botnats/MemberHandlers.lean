import Botnats.ServerChannels

/-!
# What lines and server steps do

The advertised ranks as the bot reads them, the entries of NAMES and WHO, what each
handler makes of the runtimes (`Reshapes`), and what each step of the server makes of the
seats.
-/
namespace Botnats

/-! ## The advertised ranks -/

namespace MemberRanks

variable (r : MemberRanks) (base : ISupport)

theorem partition_modes (modes symbols : Str) (h : (41 : CodePoint) ∉ modes) :
    partition 41 (modes ++ 41 :: symbols) = (modes, some symbols) := by
  induction modes with
  | nil => rfl
  | cons c modes ih =>
    have hc : c ≠ 41 := fun hc => h (hc ▸ List.mem_cons_self)
    rw [List.cons_append, partition, if_neg hc, ih fun hm => h (List.mem_cons_of_mem c hm)]

/-- The symbols are distinct, so the dictionary is the list of pairs. -/
theorem parsePrefix_value : base.parsePrefix r.value = { base with
    memberPrefixes := r.symbols.zip r.modes
    membershipModes := r.modes
    opMode := (Assoc.lookup 64 (r.symbols.zip r.modes)).getD
      ((([111, 97, 113] : Str).find? fun mode => mode ∈ r.modes).getD 111) } := by
  have hkeys : (r.symbols.zip r.modes).map Prod.fst = r.symbols :=
    List.map_fst_zip r.length_eq.ge
  have hdict : (r.symbols.zip r.modes).foldl (fun d e => Assoc.assign e.1 e.2 d) [] =
      r.symbols.zip r.modes := by
    have hdistinct : Assoc.Distinct ([] ++ r.symbols.zip r.modes) := by
      rw [List.nil_append, Assoc.Distinct, hkeys]
      exact r.symbols_nodup
    exact Assoc.foldl_assign_eq hdistinct
  have hne : ¬ (r.value = [] ∨ r.value = lit "()") := by
    rw [not_or]
    refine ⟨by simp [value], fun h => ?_⟩
    have hlength := congrArg List.length h
    have hpos := List.length_pos_iff.mpr r.modes_ne
    have hlit : (lit "()").length = 2 := rfl
    have hsame := r.length_eq
    simp only [value, List.length_cons, List.length_append, hlit] at hlength
    omega
  unfold ISupport.parsePrefix
  rw [if_neg hne]
  simp only [value, ne_eq, not_true, if_false, partition_modes r.modes r.symbols r.closing, hdict]
  rw [if_neg]
  simp [r.modes_ne, r.length_eq]

theorem distinct_prefixes : Assoc.Distinct (r.symbols.zip r.modes) := by
  rw [Assoc.Distinct, List.map_fst_zip r.length_eq.ge]
  exact r.symbols_nodup

/-- A mode stands where its symbol does. -/
theorem idxOf_of_lookup {symbols modes : Str} {symbol mode : CodePoint} (hmodes : modes.Nodup)
    (h : Assoc.lookup symbol (symbols.zip modes) = some mode) :
    mode ∈ modes ∧ modes.idxOf mode = symbols.idxOf symbol := by
  induction symbols generalizing modes with
  | nil => simp at h
  | cons c symbols ih =>
    cases modes with
    | nil => simp at h
    | cons m modes =>
      obtain ⟨hm, hnodup⟩ := List.nodup_cons.mp hmodes
      rw [List.zip_cons_cons, Assoc.lookup_cons] at h
      split_ifs at h with hc
      · obtain rfl := Option.some.inj h
        dsimp only at hc
        subst hc
        simp
      · obtain ⟨hmem, hidx⟩ := ih hnodup h
        have hne : m ≠ mode := fun heq => hm (heq ▸ hmem)
        refine ⟨List.mem_cons_of_mem _ hmem, ?_⟩
        rw [List.idxOf_cons_ne _ hne, List.idxOf_cons_ne _ hc, hidx]

/-- The operator's mode is an advertised one of the operator's rank, or none is. -/
theorem opMode_cases :
    ((base.parsePrefix r.value).opMode ∈ r.modes ∧
      r.operatorRank = some (r.modes.idxOf (base.parsePrefix r.value).opMode)) ∨
    ((base.parsePrefix r.value).opMode ∉ r.modes ∧ r.operatorRank = none) := by
  rw [parsePrefix_value, operatorRank]
  by_cases hat : (64 : CodePoint) ∈ r.symbols
  · have hkey : (64 : CodePoint) ∈ (r.symbols.zip r.modes).map Prod.fst := by
      rwa [List.map_fst_zip r.length_eq.ge]
    obtain ⟨e, he, hfst⟩ := List.mem_map.mp hkey
    obtain ⟨symbol, mode⟩ := e
    obtain rfl : symbol = 64 := hfst
    have hlookup := r.distinct_prefixes.lookup he
    obtain ⟨hmem, hidx⟩ := idxOf_of_lookup r.modes_nodup hlookup
    simp only [hlookup, Option.getD_some, if_pos hat, hmem, hidx, true_and, true_or]
  · have hnone : Assoc.lookup 64 (r.symbols.zip r.modes) = none := by
      refine Assoc.lookup_eq_none.mpr fun e he heq => hat ?_
      rw [← heq]
      exact (List.of_mem_zip he).1
    rw [hnone, Option.getD_none, if_neg hat]
    cases hfind : ([111, 97, 113] : Str).find? fun mode => mode ∈ r.modes with
    | none =>
      have h111 := List.find?_eq_none.mp hfind 111 (by simp)
      exact .inr ⟨by simpa using h111, rfl⟩
    | some mode =>
      have hmem := List.find?_some hfind
      exact .inl ⟨by simpa using hmem, rfl⟩

/-- `operator_modes` holds the advertised modes of the operator's rank and above. -/
theorem mem_operatorModes {mode : CodePoint} (hmode : mode ∈ r.modes) :
    mode ∈ (base.parsePrefix r.value).operatorModes ↔
      ∃ rank, r.operatorRank = some rank ∧ r.modes.idxOf mode ≤ rank := by
  have hmodes : (base.parsePrefix r.value).membershipModes = r.modes := by rw [parsePrefix_value]
  rw [ISupport.operatorModes, hmodes]
  rcases r.opMode_cases base with ⟨hop, hrank⟩ | ⟨hop, hrank⟩
  · rw [if_pos hop, List.mem_take_iff_idxOf_lt hmode, hrank]
    simp
  · rw [if_neg hop, hrank, List.mem_singleton]
    simp only [reduceCtorEq, false_and, exists_false, iff_false]
    rintro rfl
    exact hop hmode

/-- Tracked operator modes that agree with the server's decide the rank. -/
theorem isOpped_iff {tracked modes : List CodePoint} (hranked : modes ⊆ r.modes)
    (h : ∀ mode ∈ (base.parsePrefix r.value).operatorModes, mode ∈ tracked ↔ mode ∈ modes) :
    (base.parsePrefix r.value).isOpped tracked = true ↔ r.Operator modes := by
  rw [ISupport.isOpped, List.any_eq_true, Operator]
  constructor
  · rintro ⟨mode, hmem, hop⟩
    have hop := of_decide_eq_true hop
    have hmode := (h mode hop).mp hmem
    obtain ⟨rank, hrank, hle⟩ := (r.mem_operatorModes base (hranked hmode)).mp hop
    exact ⟨rank, hrank, mode, hmode, hle⟩
  · rintro ⟨rank, hrank, mode, hmode, hle⟩
    have hop := (r.mem_operatorModes base (hranked hmode)).mpr ⟨rank, hrank, hle⟩
    exact ⟨mode, (h mode hop).mpr hmode, decide_eq_true hop⟩

/-- The symbols of a member stand for its modes. -/
theorem Shown.iff {r : MemberRanks} {modes symbols : List CodePoint} (h : r.Shown modes symbols)
    (hranked : modes ⊆ r.modes) (mode : CodePoint) :
    (∃ symbol ∈ symbols, (symbol, mode) ∈ r.symbols.zip r.modes) ↔ mode ∈ modes := by
  constructor
  · rintro ⟨symbol, hsymbol, hmem⟩
    exact (h _ hmem).mp hsymbol
  · intro hmode
    have hsnd : mode ∈ (r.symbols.zip r.modes).map Prod.snd := by
      rw [List.map_snd_zip r.length_eq.le]
      exact hranked hmode
    obtain ⟨e, he, rfl⟩ := List.mem_map.mp hsnd
    exact ⟨e.1, (h e he).mpr hmode, he⟩

end MemberRanks

/-! ## Entries of NAMES and WHO -/

section Replies

variable {r : MemberRanks} {modes : List CodePoint}

theorem mem_whoModes {base : ISupport} {flags : Str} (hshown : r.Shown modes flags) (hranked : modes ⊆ r.modes)
    {mode : CodePoint} (hop : mode ∈ (base.parsePrefix r.value).operatorModes) :
    mode ∈ whoModes (base.parsePrefix r.value) flags ↔ mode ∈ modes := by
  have hprefixes : (base.parsePrefix r.value).memberPrefixes = r.symbols.zip r.modes := by
    rw [r.parsePrefix_value]
  rw [← hshown.iff hranked mode, whoModes, hprefixes]
  simp only [List.mem_map, List.mem_filter, decide_eq_true_eq]
  constructor
  · rintro ⟨e, ⟨he, hflag, -⟩, rfl⟩
    exact ⟨e.1, hflag, he⟩
  · rintro ⟨symbol, hflag, he⟩
    exact ⟨(symbol, mode), ⟨he, hflag, hop⟩, rfl⟩

theorem undecorate_plain {caps : ISupport} {nick : Str}
    (h : ∀ c, nick.head? = some c → Assoc.lookup c caps.memberPrefixes = none) :
    undecorate caps nick = ([], nick) := by
  cases nick with
  | nil => rfl
  | cons c rest => rw [undecorate, h c rfl]

/-- The symbols are taken off one by one, and the operator modes among theirs collected. -/
theorem undecorate_symbols (base : ISupport) {nick symbols : Str} (hnick : r.NickOk nick)
    (hsymbols : symbols ⊆ r.symbols) :
    (undecorate (base.parsePrefix r.value) (symbols ++ nick)).2 = nick ∧
      ∀ mode, mode ∈ (undecorate (base.parsePrefix r.value) (symbols ++ nick)).1 ↔
        mode ∈ (base.parsePrefix r.value).operatorModes ∧
          ∃ symbol ∈ symbols, (symbol, mode) ∈ r.symbols.zip r.modes := by
  have hprefixes : (base.parsePrefix r.value).memberPrefixes = r.symbols.zip r.modes := by
    rw [r.parsePrefix_value]
  induction symbols with
  | nil =>
    rw [List.nil_append, undecorate_plain]
    · simp
    · intro c hc
      rw [hprefixes]
      exact Assoc.lookup_eq_none.mpr fun e he heq =>
        hnick.plain c hc (heq ▸ (List.of_mem_zip he).1)
  | cons c symbols ih =>
    obtain ⟨hnickEq, hmodes⟩ := ih fun x hx => hsymbols (List.mem_cons_of_mem c hx)
    have hkey : c ∈ (r.symbols.zip r.modes).map Prod.fst := by
      rw [List.map_fst_zip r.length_eq.ge]
      exact hsymbols List.mem_cons_self
    obtain ⟨⟨symbol, mode⟩, he, rfl⟩ := List.mem_map.mp hkey
    have hlookup := r.distinct_prefixes.lookup he
    have hunique : ∀ x, (symbol, x) ∈ r.symbols.zip r.modes → x = mode := by
      intro x hx
      have hsame := r.distinct_prefixes.lookup hx
      exact Option.some.inj (hsame.symm.trans hlookup)
    simp only [List.cons_append, undecorate, hprefixes, hlookup]
    refine ⟨hnickEq, fun x => ?_⟩
    have hhead : (∃ y ∈ symbol :: symbols, (y, x) ∈ r.symbols.zip r.modes) ↔
        x = mode ∨ ∃ y ∈ symbols, (y, x) ∈ r.symbols.zip r.modes := by
      simp only [List.mem_cons, exists_eq_or_imp]
      constructor
      · exact Or.imp_left (hunique x)
      · rintro (rfl | h)
        · exact .inl he
        · exact .inr h
    rw [hhead]
    split_ifs with hop
    · rw [List.mem_cons, hmodes]
      constructor
      · rintro (rfl | ⟨hx, h⟩)
        · exact ⟨hop.1, .inl rfl⟩
        · exact ⟨hx, .inr h⟩
      · rintro ⟨hx, rfl | h⟩
        · exact .inl rfl
        · exact .inr ⟨hx, h⟩
    · rw [hmodes]
      constructor
      · rintro ⟨hx, h⟩
        exact ⟨hx, .inr h⟩
      · rintro ⟨hx, rfl | h⟩
        · have hmem : x ∈ (undecorate (base.parsePrefix r.value) (symbols ++ nick)).1 := by
            by_contra hnot
            exact hop ⟨hx, hnot⟩
          exact (hmodes x).mp hmem
        · exact ⟨hx, h⟩

end Replies

/-! ## What the handlers make of the runtimes -/

namespace ChannelRuntime

variable (c : ChannelRuntime) (nick k : Str)

theorem lookup_withMember (f : ChannelMember → ChannelMember) :
    Assoc.lookup k (c.withMember nick f).members =
      if casefold nick c.casemapping = k then
        some (f { (Assoc.lookup k c.members).getD ⟨nick, [], none⟩ with nick := nick })
      else Assoc.lookup k c.members := by
  unfold withMember
  split_ifs with hk
  · subst hk
    exact Assoc.lookup_assign_self _ _ _
  · exact Assoc.lookup_assign_of_ne _ _ hk

/-- What a JOIN makes of the members. -/
def joinedBy (p : Prefix) (self : Bool) (c : ChannelRuntime) : ChannelRuntime :=
  (if self then c.reset else c).withMember p.nick fun member => { member with ircPrefix := some p }

theorem lookup_remove : Assoc.lookup k (c.remove nick).members =
    if casefold nick c.casemapping = k then none else Assoc.lookup k c.members := by
  unfold remove
  split_ifs with hk
  · subst hk
    exact Assoc.lookup_discard_self _ _
  · exact Assoc.lookup_discard_of_ne _ hk

end ChannelRuntime

namespace IrcBot

/-- `b'` has the runtimes of `b` with the members that `g` makes of them. -/
structure Reshapes (g : Str → ChannelRuntime → ChannelRuntime) (b b' : IrcBot) : Prop where
  casemapping : b'.manager.casemapping = b.manager.casemapping
  caps : b'.caps = b.caps
  nick : b'.currentNick = b.currentNick
  runtime : ∀ f c', Assoc.lookup f b'.manager.channels = some c' →
    ∃ c, Assoc.lookup f b.manager.channels = some c ∧ c'.members = (g f c).members ∧
      c'.casemapping = (g f c).casemapping

variable {S : SessionScope} {b b' b'' : IrcBot} {g : Str → ChannelRuntime → ChannelRuntime}

/-- A step that leaves the channels alone. -/
theorem Reshapes.same (hchannels : b'.manager.channels = b.manager.channels)
    (hcasemapping : b'.manager.casemapping = b.manager.casemapping) (hcaps : b'.caps = b.caps)
    (hnick : b'.currentNick = b.currentNick) : Reshapes (fun _ c => c) b b' :=
  ⟨hcasemapping, hcaps, hnick, fun _ c h => ⟨c, hchannels ▸ h, rfl, rfl⟩⟩

theorem Reshapes.refl (b : IrcBot) : Reshapes (fun _ c => c) b b := .same rfl rfl rfl rfl

/-- What keeps the members may follow. -/
theorem Reshapes.trans (h : Reshapes g b b') (h' : Reshapes (fun _ c => c) b' b'') :
    Reshapes g b b'' where
  casemapping := h'.casemapping.trans h.casemapping
  caps := h'.caps.trans h.caps
  nick := h'.nick.trans h.nick
  runtime := by
    intro f c'' hc''
    obtain ⟨c', hc', hmembers', hcasemapping'⟩ := h'.runtime f c'' hc''
    obtain ⟨c, hc, hmembers, hcasemapping⟩ := h.runtime f c' hc'
    exact ⟨c, hc, hmembers'.trans hmembers, hcasemapping'.trans hcasemapping⟩

/-- One runtime changes. -/
theorem reshapes_mapRuntime (b : IrcBot) (channel : Str) (change : ChannelRuntime → ChannelRuntime) :
    Reshapes (fun f c => if b.manager.fold channel = f then change c else c) b
      { b with manager := b.manager.mapRuntime channel change } where
  casemapping := ChannelManager.mapRuntime_casemapping _ _ _
  caps := rfl
  nick := rfl
  runtime := by
    intro f c' hc'
    obtain ⟨c, hc, rfl⟩ := ChannelManager.lookup_mapRuntime hc'
    exact ⟨c, hc, rfl, rfl⟩

/-- Every runtime changes. -/
theorem reshapes_map {m : ChannelManager} (change : ChannelRuntime → ChannelRuntime)
    (hm : m = { b.manager with channels := b.manager.channels.map fun e => (e.1, change e.2) }) :
    Reshapes (fun _ => change) b { b with manager := m } where
  casemapping := by rw [hm]
  caps := rfl
  nick := rfl
  runtime := by
    intro f c' hc'
    rw [hm] at hc'
    rw [Assoc.lookup_map] at hc'
    obtain ⟨c, hc, rfl⟩ := Option.map_eq_some_iff.mp hc'
    exact ⟨c, hc, rfl, rfl⟩

theorem reshapes_joinDesired (b : IrcBot) (known : Bool) (link : Str → IrcLink) :
    Reshapes (fun _ c => c) b { b with manager := b.manager.joinDesired known link } := by
  unfold ChannelManager.joinDesired
  split_ifs
  · exact Reshapes.refl b
  · refine ⟨rfl, rfl, rfl, fun f c' hc' => ?_⟩
    rw [Assoc.lookup_map_key (fun f (c : ChannelRuntime) =>
      if c.joinDue (link f) then c.safeJoin (link f) else c)] at hc'
    obtain ⟨c, hc, rfl⟩ := Option.map_eq_some_iff.mp hc'
    refine ⟨c, hc, ?_⟩
    unfold ChannelRuntime.safeJoin
    split_ifs <;> exact ⟨rfl, rfl⟩

theorem reshapes_setIdentity (b : IrcBot) (link : Str → IrcLink) (p : Prefix) :
    Reshapes (fun _ c => c) b (b.setIdentity link p) := by
  unfold setIdentity recordIdentity
  cases p.user with
  | none => exact Reshapes.refl b
  | some user =>
    cases p.host with
    | none => exact Reshapes.refl b
    | some host =>
      have hsame : Reshapes (fun _ c => c) b
          { b with identity := some ⟨b.currentNick, some user, some host⟩ } :=
        .same rfl rfl rfl rfl
      dsimp only
      split_ifs
      · exact hsame.trans (reshapes_joinDesired _ _ link)
      · exact hsame

theorem reshapes_followSelf (b : IrcBot) (link : Str → IrcLink) (folded : Str)
    (next : Prefix → Prefix) : Reshapes (fun _ c => c) b (b.followSelf link folded next) := by
  unfold followSelf
  split
  · exact Reshapes.refl b
  · split_ifs
    · exact reshapes_setIdentity b link _
    · exact Reshapes.refl b

theorem reshapes_revokeComplete (b : IrcBot) (now : ℚ) (p : Prefix) :
    Reshapes (fun _ c => c) b (b.revokeComplete S now p) := .same rfl rfl rfl rfl

variable (b) (link : Str → IrcLink) (now : ℚ)

/-- One runtime changes where it is the channel's; else there is none. -/
theorem Reshapes.missing {b : IrcBot} {channel : Str} (h : b.manager.runtime channel = none)
    (change : ChannelRuntime → ChannelRuntime) :
    Reshapes (fun f c => if b.manager.fold channel = f then change c else c) b b := by
  refine ⟨rfl, rfl, rfl, fun f c hf => ⟨c, hf, ?_⟩⟩
  have hne : b.manager.fold channel ≠ f := by
    rintro rfl
    have hsome := h.symm.trans hf
    cases hsome
  rw [if_neg hne]
  exact ⟨rfl, rfl⟩

theorem reshapes_join (channel : Str) (params : List Str) (p : Prefix) :
    Reshapes (fun f c => if b.manager.fold channel = f then c.joinedBy p (b.isSelf p.nick) else c)
      b (b.onMessage S link now ⟨lit "JOIN", channel :: params, some p⟩) := by
  have hroute : b.onMessage S link now ⟨lit "JOIN", channel :: params, some p⟩ =
      b.handleJoin link ⟨lit "JOIN", channel :: params, some p⟩ := rfl
  rw [hroute, handleJoin]
  dsimp only
  cases hc : b.manager.runtime channel with
  | none =>
    have hkeep := Reshapes.missing hc fun c => c.joinedBy p (b.isSelf p.nick)
    dsimp only
    by_cases hfailed : b.isSelf p.nick = true ∧ (link (b.manager.fold channel)).sends = false
    · rw [if_pos hfailed]
      exact hkeep.trans (.same rfl rfl rfl rfl)
    · rw [if_neg hfailed]
      exact hkeep
  | some c =>
    dsimp only
    by_cases hself : b.isSelf p.nick = true
    · rw [if_pos hself, hself]
      have hmap := reshapes_mapRuntime b channel fun c =>
        ({ c.reset with join := .joined } : ChannelRuntime).withMember p.nick fun member =>
          { member with ircPrefix := some p }
      have hjoined : Reshapes (fun f c => if b.manager.fold channel = f then c.joinedBy p true
          else c) b { b with manager := b.manager.mapRuntime channel fun c =>
            ({ c.reset with join := .joined } : ChannelRuntime).withMember p.nick fun member =>
              { member with ircPrefix := some p } } := by
        refine ⟨hmap.casemapping, rfl, rfl, fun f c' hc' => ?_⟩
        obtain ⟨c, hc, hmembers, hcasemapping⟩ := hmap.runtime f c' hc'
        refine ⟨c, hc, ?_⟩
        rw [hmembers, hcasemapping]
        split_ifs <;> exact ⟨rfl, rfl⟩
      by_cases hcomplete : p.complete = true
      · rw [if_pos hcomplete]
        exact hjoined.trans (reshapes_setIdentity _ link p)
      · rw [if_neg hcomplete]
        exact hjoined
    · rw [if_neg hself, eq_false_of_ne_true hself]
      exact reshapes_mapRuntime b channel _

theorem reshapes_part (channel : Str) (params : List Str) (p : Prefix) :
    Reshapes (fun f c => if b.manager.fold channel = f then
        if b.isSelf p.nick then c.reset else c.remove p.nick else c) b
      (b.onMessage S link now ⟨lit "PART", channel :: params, some p⟩) :=
  reshapes_mapRuntime b channel _

theorem reshapes_kick (channel target : Str) (params : List Str) (by' : Option Prefix) :
    Reshapes (fun f c => if b.manager.fold channel = f then
        if b.isSelf target then c.reset else c.remove target else c) b
      (b.onMessage S link now ⟨lit "KICK", channel :: target :: params, by'⟩) :=
  reshapes_mapRuntime b channel _

theorem reshapes_mode (channel text : Str) (arguments : List Str) (by' : Option Prefix) :
    Reshapes (fun f c => if b.manager.fold channel = f then
        c.applyModeChanges b.caps text arguments else c) b
      (b.onMessage S link now ⟨lit "MODE", channel :: text :: arguments, by'⟩) :=
  reshapes_mapRuntime b channel _

theorem reshapes_names (target kind channel line : Str) (sender : Option Prefix) :
    Reshapes (fun f c => if b.manager.fold channel = f then
        (splitWords line).foldl (nameMember b.caps) c else c) b
      (b.onMessage S link now ⟨lit "353", [target, kind, channel, line], sender⟩) :=
  reshapes_mapRuntime b channel _

theorem reshapes_who (target channel user host server nick flags realname : Str)
    (params : List Str) (sender : Option Prefix) :
    Reshapes (fun f c => if b.manager.fold channel = f then
        c.withMember nick fun member => { member with
          ircPrefix := some ⟨nick, some user, some host⟩, modes := whoModes b.caps flags } else c) b
      (b.onMessage S link now ⟨lit "352", [target, channel, user, host, server, nick, flags,
        realname] ++ params, sender⟩) := by
  have hroute : b.onMessage S link now ⟨lit "352", [target, channel, user, host, server, nick, flags,
      realname] ++ params, sender⟩ = b.handleWho link ⟨lit "352", [target, channel, user, host,
        server, nick, flags, realname] ++ params, sender⟩ := rfl
  rw [hroute]
  simp only [handleWho, List.cons_append, List.nil_append]
  cases hc : b.manager.runtime channel with
  | none => exact Reshapes.missing hc _
  | some c =>
    have hmap := reshapes_mapRuntime b channel fun c => c.withMember nick fun member =>
      { member with ircPrefix := some ⟨nick, some user, some host⟩, modes := whoModes b.caps flags }
    dsimp only
    split
    · exact hmap.trans (reshapes_setIdentity _ link _)
    · exact hmap

theorem reshapes_quit (params : List Str) (p : Prefix) :
    Reshapes (fun _ c => c.remove p.nick) b
      (b.onMessage S link now ⟨lit "QUIT", params, some p⟩) := by
  have hmap : Reshapes (fun _ c => c.remove p.nick) b
      { b with manager := b.manager.forgetMember p.nick } := reshapes_map _ rfl
  exact hmap.trans (reshapes_revokeComplete _ now p)

theorem reshapes_chghost (newUser newHost : Str) (params : List Str) (p : Prefix) :
    Reshapes (fun _ => ChannelManager.rehostIn (b.manager.fold p.nick)
        ⟨p.nick, some newUser, some newHost⟩) b
      (b.onMessage S link now ⟨lit "CHGHOST", newUser :: newHost :: params, some p⟩) := by
  have hmap : Reshapes (fun _ => ChannelManager.rehostIn (b.manager.fold p.nick)
      ⟨p.nick, some newUser, some newHost⟩) b { b with
        manager := (b.manager.changeMemberHost p ⟨p.nick, some newUser, some newHost⟩).2 } :=
    reshapes_map _ rfl
  exact (hmap.trans (reshapes_revokeComplete _ now _)).trans (reshapes_followSelf _ link _ _)

/-- NICK also moves the bot's own nick. -/
theorem reshapes_nick (newNick : Str) (p : Prefix) :
    Reshapes (fun _ => ChannelManager.renameIn (b.manager.fold p.nick) (b.manager.fold newNick)
        newNick) (b.trackNick p newNick)
      (b.onMessage S link now ⟨lit "NICK", [newNick], some p⟩) := by
  have hfold : (b.trackNick p newNick).manager = b.manager := trackNick_manager b p newNick
  have hmap : Reshapes (fun _ => ChannelManager.renameIn (b.manager.fold p.nick)
      (b.manager.fold newNick) newNick) (b.trackNick p newNick) { b.trackNick p newNick with
        manager := ((b.trackNick p newNick).manager.renameMember p newNick).2 } :=
    reshapes_map _ (by rw [hfold]; rfl)
  exact (hmap.trans (reshapes_revokeComplete _ now _)).trans (reshapes_followSelf _ link _ _)

end IrcBot

/-! ## The server's seats -/

namespace IrcServer

variable {r : MemberRanks} {cm : Casemapping} {s s' : IrcServer} {f f' k j : Str}
  {v : Option (List CodePoint)}

@[simp] theorem seat_users (s : IrcServer) (f k : Str) (v : Option (List CodePoint)) :
    (s.seat f k v).users = s.users := rfl

@[simp] theorem seat_self (s : IrcServer) (f k : Str) (v : Option (List CodePoint)) :
    (s.seat f k v).self = s.self := rfl

@[simp] theorem seat_same (s : IrcServer) (f k : Str) (v : Option (List CodePoint)) :
    (s.seat f k v).seats f k = v := by
  simp [seat]

theorem seat_of_ne (s : IrcServer) (f : Str) (v : Option (List CodePoint)) (h : j ≠ k) :
    (s.seat f k v).seats f j = s.seats f j := by
  simp [seat, h]

theorem seat_of_channel_ne (s : IrcServer) (k : Str) (v : Option (List CodePoint)) (h : f' ≠ f) :
    (s.seat f k v).seats f' = s.seats f' := by
  simp [seat, h]

theorem sees_seat_of_ne (s : IrcServer) (f' f : Str) (v : Option (List CodePoint)) (h : k ≠ s.self) :
    (s.seat f k v).Sees f' ↔ s.Sees f' := by
  unfold Sees
  by_cases hf : f' = f
  · subst hf
    rw [seat_self, seat_of_ne s f' v (Ne.symm h)]
  · rw [seat_self, seat_of_channel_ne s k v hf]

theorem put_users (s : IrcServer) (k : Str) (x : ServerUser) (j : Str) :
    (s.put k x).users j = if j = k then some x else s.users j := by
  simp [put, Function.update_apply]

theorem forget_users (s : IrcServer) (k j : Str) :
    (s.forget k).users j = if j = k then none else s.users j := by
  simp [forget, Function.update_apply]

theorem forget_seats (s : IrcServer) (k f j : Str) :
    (s.forget k).seats f j = if j = k then none else s.seats f j := by
  simp [forget, Function.update_apply]

theorem rename_users (s : IrcServer) (k k' : Str) (x : ServerUser) (j : Str) :
    (s.rename k k' x).users j = if j = k' then some x else if j = k then none else s.users j := by
  simp [rename, Function.update_apply]

theorem rename_seats (s : IrcServer) (k k' : Str) (x : ServerUser) (f j : Str) :
    (s.rename k k' x).seats f j =
      if j = k' then s.seats f k else if j = k then none else s.seats f j := by
  simp [rename, Function.update_apply]

theorem Consistent.nick_eq (h : s.Consistent r cm) {x : ServerUser} (hx : s.users k = some x) :
    casefold x.nick cm = k := (h.user k x hx).1

/-- A line bears the folded nick of the user who sends it. -/
theorem Consistent.sender_fold (h : s.Consistent r cm) {x : ServerUser} {p : Prefix}
    (hx : s.users k = some x) (hp : x.Sends p) : casefold p.nick cm = k := by
  rw [hp.nick]
  exact h.nick_eq hx

theorem Consistent.seat (h : s.Consistent r cm) (hk : ∃ x, s.users k = some x)
    (hv : ∀ modes, v = some modes → modes ⊆ r.modes) : (s.seat f k v).Consistent r cm where
  user := h.user
  seated := by
    intro f' j modes hj
    by_cases hf : f' = f
    · subst hf
      by_cases hjk : j = k
      · subst hjk
        rw [seat_same] at hj
        exact ⟨hk, hv modes hj⟩
      · rw [seat_of_ne s f' v hjk] at hj
        exact h.seated f' j modes hj
    · rw [seat_of_channel_ne s k v hf] at hj
      exact h.seated f' j modes hj
  self := h.self

theorem Consistent.seated_user (h : s.Consistent r cm) (hk : s.seats f k ≠ none) :
    ∃ x, s.users k = some x := by
  obtain ⟨modes, hmodes⟩ := Option.ne_none_iff_exists'.mp hk
  exact (h.seated f k modes hmodes).1

theorem Consistent.change (h : s.Consistent r cm) {e : Bool × CodePoint × Str}
    (hranked : e.2.1 ∈ r.modes) (hpresent : s.seats f e.2.2 ≠ none) :
    (IrcServer.change f s e).Consistent r cm := by
  refine h.seat (h.seated_user hpresent) fun modes hmodes => ?_
  obtain ⟨old, hold, rfl⟩ := Option.map_eq_some_iff.mp hmodes
  have hsub := (h.seated f e.2.2 old hold).2
  split_ifs
  · exact List.cons_subset.mpr ⟨hranked, hsub⟩
  · exact fun mode hmode => hsub (List.mem_of_mem_filter hmode)

/-- A change leaves every seat taken or free. -/
theorem change_seats_eq_none (s : IrcServer) (f : Str) (e : Bool × CodePoint × Str) (f' k : Str) :
    (change f s e).seats f' k = none ↔ s.seats f' k = none := by
  unfold change
  by_cases hf : f' = f
  · subst hf
    by_cases hk : k = e.2.2
    · subst hk
      simp
    · rw [seat_of_ne s f' _ hk]
  · rw [seat_of_channel_ne s _ _ hf]

theorem changes_seats_eq_none (f : Str) (changes : List (Bool × CodePoint × Str)) (s : IrcServer)
    (f' k : Str) : (changes.foldl (change f) s).seats f' k = none ↔ s.seats f' k = none := by
  induction changes generalizing s with
  | nil => rfl
  | cons e changes ih => rw [List.foldl_cons, ih, change_seats_eq_none]

theorem changes_users (f : Str) (changes : List (Bool × CodePoint × Str)) (s : IrcServer) :
    (changes.foldl (change f) s).users = s.users ∧ (changes.foldl (change f) s).self = s.self := by
  induction changes generalizing s with
  | nil => exact ⟨rfl, rfl⟩
  | cons e changes ih => exact ih (change f s e)

theorem changes_of_channel_ne (changes : List (Bool × CodePoint × Str)) (s : IrcServer)
    (h : f' ≠ f) : (changes.foldl (change f) s).seats f' = s.seats f' := by
  induction changes generalizing s with
  | nil => rfl
  | cons e changes ih => rw [List.foldl_cons, ih, change, seat_of_channel_ne s _ _ h]

theorem Consistent.changes {changes : List (Bool × CodePoint × Str)} (h : s.Consistent r cm)
    (hranked : ∀ e ∈ changes, e.2.1 ∈ r.modes) (hpresent : ∀ e ∈ changes, s.seats f e.2.2 ≠ none) :
    (changes.foldl (IrcServer.change f) s).Consistent r cm := by
  induction changes generalizing s with
  | nil => exact h
  | cons e changes ih =>
    refine ih (h.change (hranked e List.mem_cons_self) (hpresent e List.mem_cons_self))
      (fun x hx => hranked x (List.mem_cons_of_mem e hx)) fun x hx => ?_
    rw [ne_eq, change_seats_eq_none]
    exact hpresent x (List.mem_cons_of_mem e hx)

theorem Consistent.forget (h : s.Consistent r cm) (hk : k ≠ s.self) :
    (s.forget k).Consistent r cm where
  user := by
    intro j x hj
    rw [forget_users] at hj
    split_ifs at hj
    exact h.user j x hj
  seated := by
    intro f j modes hj
    rw [forget_seats] at hj
    rw [forget_users]
    split_ifs at hj ⊢
    exact h.seated f j modes hj
  self := by
    obtain ⟨x, hx⟩ := h.self
    exact ⟨x, by rw [forget_users]; exact (if_neg (Ne.symm hk)).trans hx⟩

theorem Consistent.free (h : s.Consistent r cm) (hk : s.users k = none) (f : Str) :
    s.seats f k = none := by
  by_contra hne
  obtain ⟨x, hx⟩ := h.seated_user hne
  rw [hk] at hx
  cases hx

theorem Consistent.rename (h : s.Consistent r cm) {x : ServerUser} {newNick : Str}
    (hnick : r.NickOk newNick)
    (hfree : casefold newNick cm = k ∨ s.users (casefold newNick cm) = none) :
    (s.rename k (casefold newNick cm) { x with nick := newNick }).Consistent r cm where
  user := by
    intro j y hj
    rw [rename_users] at hj
    split_ifs at hj with hj'
    · obtain rfl := Option.some.inj hj
      exact ⟨hj'.symm, hnick⟩
    · exact h.user j y hj
  seated := by
    intro f j modes hj
    rw [rename_seats] at hj
    rw [rename_users]
    split_ifs at hj ⊢
    · exact ⟨⟨_, rfl⟩, (h.seated f k modes hj).2⟩
    · exact h.seated f j modes hj
  self := by
    obtain ⟨y, hy⟩ := h.self
    have hself : (s.rename k (casefold newNick cm) { x with nick := newNick }).self =
        if s.self = k then casefold newNick cm else s.self := rfl
    rw [hself, rename_users]
    by_cases hk : s.self = k
    · rw [if_pos hk, if_pos rfl]
      exact ⟨_, rfl⟩
    · have hne : s.self ≠ casefold newNick cm := by
        intro heq
        rcases hfree with hsame | hnone
        · exact hk (heq.trans hsame)
        · rw [← heq, hy] at hnone
          cases hnone
      rw [if_neg hk, if_neg hne, if_neg hk]
      exact ⟨y, hy⟩

theorem Consistent.put (h : s.Consistent r cm) {x : ServerUser} (hfold : casefold x.nick cm = k)
    (hnick : r.NickOk x.nick) : (s.put k x).Consistent r cm := by
  have hsome : ∀ j, (∃ y, s.users j = some y) → ∃ y, (s.put k x).users j = some y := by
    rintro j ⟨y, hy⟩
    rw [put_users]
    split_ifs
    · exact ⟨x, rfl⟩
    · exact ⟨y, hy⟩
  refine ⟨fun j y hj => ?_, fun f j modes hj => ?_, hsome _ h.self⟩
  · rw [put_users] at hj
    split_ifs at hj with hjk
    · obtain rfl := Option.some.inj hj
      exact ⟨hfold.trans hjk.symm, hnick⟩
    · exact h.user j y hj
  · obtain ⟨hy, hsub⟩ := h.seated f j modes hj
    exact ⟨hsome j hy, hsub⟩

/-- Every step keeps the server consistent. -/
theorem Consistent.step (h : s.Consistent r cm) {messages : List IRCMessage}
    (hst : Step r cm s messages s') : s'.Consistent r cm := by
  cases hst with
  | connect nick free => exact h.put rfl nick
  | join other user absent sender sent =>
    refine h.seat ⟨_, user⟩ fun modes hmodes => ?_
    obtain rfl := Option.some.inj hmodes
    exact List.nil_subset _
  | joinSelf user absent sends ranked names =>
    refine h.seat ⟨_, user⟩ fun modes hmodes => ?_
    obtain rfl := Option.some.inj hmodes
    exact ranked
  | part user present sender sent => exact h.seat ⟨_, user⟩ (by simp)
  | kick present sent => exact h.seat (h.seated_user present) (by simp)
  | quit other user sender sent => exact h.forget other
  | nick user nick free sender sent => exact h.rename nick free
  | chghost user sender sent =>
    obtain ⟨hfold, hnick⟩ := h.user _ _ user
    exact h.put hfold hnick
  | mode letters nicks ranked present sent => exact h.changes ranked present
  | who user present shown => exact h

end IrcServer

end Botnats
