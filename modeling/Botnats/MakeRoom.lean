import Botnats.PeerHelp

/-!
# Making room in a full channel

A bot that finds a channel full asks its peers, and several of them may answer at once. Each
counts the members it has been told of and the bots of its own registry left out of them. A bot
that joins meanwhile moves from the one count to the other. So while the registries list the
same bots, and nobody else comes and nobody goes, every line names the same limit, however old
what a peer has been told.
-/
namespace Botnats

open Json

/-- Who is in a channel, by folded nick, and its limit. -/
structure Occupancy where
  members : Finset Str
  limit : Option ℤ

inductive Occurrence
  | joined (nick : Str)
  | left (nick : Str)
  | limited (target : ℕ)

def Occupancy.after (o : Occupancy) : Occurrence → Occupancy
  | .joined nick => { o with members := insert nick o.members }
  | .left nick => { o with members := o.members.erase nick }
  | .limited target => { o with limit := some target }

/-- One of the bots joined, or the limit became `target`. -/
inductive Occurrence.Expected (bots : Finset Str) (target : ℕ) : Occurrence → Prop
  | joined {nick : Str} (hbot : nick ∈ bots) : Expected bots target (.joined nick)
  | limited : Expected bots target (.limited target)

theorem Occupancy.subset_after (o : Occupancy) {bots : Finset Str} {target : ℕ} {e : Occurrence}
    (he : e.Expected bots target) : o.members ⊆ (o.after e).members := by
  cases he with
  | joined hbot => exact Finset.subset_insert _ _
  | limited => exact Finset.Subset.refl _

theorem Occupancy.subset_foldl (o : Occupancy) {bots : Finset Str} {target : ℕ}
    {news : List Occurrence} (hnews : ∀ e ∈ news, e.Expected bots target) :
    o.members ⊆ (news.foldl Occupancy.after o).members := by
  induction news generalizing o with
  | nil => exact Finset.Subset.refl _
  | cons e news ih =>
    have hrest := ih (o.after e) fun d hd => hnews d (List.mem_cons_of_mem e hd)
    exact (o.subset_after (hnews e List.mem_cons_self)).trans hrest

/-! ## The answer of one peer -/

variable {fold : Str → Str} {bots : Finset Str} {name botId : Str} {view : Occupancy}
  {h : Helper} {m : Moment} {payload : Fields}

namespace Helper

/-- The presences that a peer counts -/
def livePeers (h : Helper) (m : Moment) : List BotPresence :=
  ((h.registry.prune m.now).active m.later).2

/-- What a peer reads as it answers: the channel as it has been told of it, and in its own
registry these bots, every one once, itself under its current nick. -/
structure Sees (fold : Str → Str) (bots : Finset Str) (name botId : Str) (view : Occupancy)
    (h : Helper) (m : Moment) (payload : Fields) : Prop where
  named : text (lit "channel") payload = some name
  limit : m.limit = view.limit
  distinct : ∀ c, h.bot.manager.runtime name = some c → Assoc.Distinct c.members
  members : ∀ c, h.bot.manager.runtime name = some c →
    (c.members.map Prod.fst).toFinset = view.members
  apart : ((h.livePeers m).map fun peer => h.bot.manager.fold peer.nick).Nodup
  live : ((h.livePeers m).map fun peer => h.bot.manager.fold peer.nick).toFinset = bots
  own : ∀ peer ∈ h.livePeers m, fold peer.botId = fold botId →
    h.bot.manager.fold peer.nick = h.bot.manager.fold h.bot.currentNick

theorem helpEligible_registry {now : ℚ} {registry : PresenceRegistry} {requireMember : Bool}
    {found : Str × BotPresence × ChannelRuntime}
    (he : h.helpEligible fold now payload requireMember = (registry, some found)) :
    registry = h.registry.prune now := by
  unfold helpEligible at he
  split at he
  · split at he
    · simp at he
    · dsimp only at he
      split_ifs at he
      · exact (congrArg Prod.fst he).symm
      · simp at he
  · simp at he

theorem mem_of_isSelfOpped {b : IrcBot} {c : ChannelRuntime} (hopped : b.isSelfOpped c = true) :
    b.manager.fold b.currentNick ∈ c.members.map Prod.fst := by
  unfold IrcBot.isSelfOpped at hopped
  split at hopped
  · simp at hopped
  · rename_i member hmember
    exact List.mem_map.mpr ⟨_, Assoc.mem_of_lookup hmember, rfl⟩

/-- The bots left out are those that are no members; the peer itself is one. -/
theorem Sees.leftOut {c : ChannelRuntime} (hs : h.Sees fold bots name botId view m payload)
    (hc : h.bot.manager.runtime name = some c) (hopped : h.bot.isSelfOpped c = true) :
    (h.livePeers m).countP (fun peer => decide (fold peer.botId ≠ fold botId) &&
      (Assoc.lookup (h.bot.manager.fold peer.nick) c.members).isNone) = (bots \ view.members).card := by
  have hmem : ∀ nick, (Assoc.lookup nick c.members).isNone = true ↔ nick ∉ view.members := by
    intro nick
    rw [Option.isNone_iff_eq_none, Assoc.lookup_eq_none, ← hs.members c hc]
    simp only [List.mem_toFinset, List.mem_map, not_exists, not_and, ne_eq]
  have hself : h.bot.manager.fold h.bot.currentNick ∈ view.members := by
    rw [← hs.members c hc, List.mem_toFinset]
    exact mem_of_isSelfOpped hopped
  have hcount : ∀ peer ∈ h.livePeers m, (decide (fold peer.botId ≠ fold botId) &&
      (Assoc.lookup (h.bot.manager.fold peer.nick) c.members).isNone) = true ↔
      decide (h.bot.manager.fold peer.nick ∉ view.members) = true := by
    intro peer hpeer
    rw [Bool.and_eq_true, hmem, decide_eq_true_eq, decide_eq_true_eq, and_iff_right_iff_imp]
    intro hout hid
    rw [hs.own peer hpeer hid] at hout
    exact hout hself
  rw [List.countP_congr hcount, ← Function.comp_def (fun nick => decide (nick ∉ view.members)),
    ← List.countP_map, List.countP_eq_length_filter,
    ← List.toFinset_card_of_nodup (hs.apart.filter _), List.toFinset_filter, hs.live]
  congr 1
  ext nick
  simp

/-- The limit of a line, whatever part of the bots has been seen to join -/
theorem Sees.target {c : ChannelRuntime} (hs : h.Sees fold bots name botId view m payload)
    (hc : h.bot.manager.runtime name = some c) (hopped : h.bot.isSelfOpped c = true) :
    c.members.length + (h.livePeers m).countP (fun peer => decide (fold peer.botId ≠ fold botId) &&
      (Assoc.lookup (h.bot.manager.fold peer.nick) c.members).isNone) =
    (view.members ∪ bots).card := by
  have hlength : c.members.length = view.members.card := by
    rw [← hs.members c hc, List.toFinset_card_of_nodup (hs.distinct c hc), List.length_map]
  rw [hs.leftOut hc hopped, hlength, add_comm, Finset.card_sdiff_add_card, Finset.union_comm]

/-- An eligible peer that sees a bot left out of a limit too low for all of them raises it. -/
theorem Sees.makeRoom_eq {registry : PresenceRegistry} {presence : BotPresence}
    {c : ChannelRuntime} (hs : h.Sees fold bots name botId view m payload)
    (he : h.helpEligible fold m.now payload false = (registry, some (name, presence, c))) :
    (h.makeRoom fold botId m payload).2 =
      match view.limit with
      | none => []
      | some limit =>
        if bots ⊆ view.members ∨ ((view.members ∪ bots).card : ℤ) ≤ limit then []
        else [HelpLine.limit name (view.members ∪ bots).card].takeWhile m.sends := by
  obtain ⟨heligible, -⟩ := helpEligible_eq_some he
  have hpeers : (registry.active m.later).2 = h.livePeers m := by
    rw [helpEligible_registry he, livePeers]
  have hnone : (bots \ view.members).card = 0 ↔ bots ⊆ view.members := by
    rw [Finset.card_eq_zero, Finset.sdiff_eq_empty_iff_subset]
  unfold makeRoom
  rw [he, ← hs.limit]
  cases m.limit with
  | none => rfl
  | some limit =>
    dsimp only
    rw [hpeers, hs.target heligible.runtime heligible.opped,
      hs.leftOut heligible.runtime heligible.opped]
    simp only [hnone]
    split_ifs <;> rfl

/-- A line names the limit that leaves room for every bot, and the peer saw a lower one. -/
theorem Sees.makeRoom_cases (hs : h.Sees fold bots name botId view m payload) :
    (h.makeRoom fold botId m payload).2 = [] ∨
    (h.makeRoom fold botId m payload).2 = [HelpLine.limit name (view.members ∪ bots).card] ∧
      ∃ limit, view.limit = some limit ∧ limit < (view.members ∪ bots).card := by
  cases he : h.helpEligible fold m.now payload false with
  | mk registry found =>
    cases found with
    | none => exact .inl (by unfold makeRoom; rw [he])
    | some found =>
      obtain ⟨channel, presence, c⟩ := found
      obtain rfl : channel = name := by
        have hnamed := (helpEligible_eq_some he).1.named
        rw [hs.named] at hnamed
        exact (Option.some.inj hnamed).symm
      rw [hs.makeRoom_eq he]
      cases hlimit : view.limit with
      | none => exact .inl rfl
      | some limit =>
        dsimp only
        split_ifs with hcond
        · exact .inl rfl
        · by_cases hsends : m.sends (HelpLine.limit channel (view.members ∪ bots).card) = true
          · exact .inr ⟨by simp [hsends], limit, rfl, not_le.mp fun hle => hcond (.inr hle)⟩
          · exact .inl (by simp [hsends])

end Helper

/-! ## Several peers at once -/

/-- The channel on the server, the lines that are on their way to it in any order, and for
each peer what it has been told of the channel and what it has still to read. -/
structure Room (ι : Type*) where
  channel : Occupancy
  lines : List HelpLine
  view : ι → Occupancy
  news : ι → List Occurrence

namespace Room

variable {ι : Type*}

/-- Something happens in the channel, and every peer is told. -/
def occur (w : Room ι) (e : Occurrence) : Room ι :=
  { w with channel := w.channel.after e, news := fun i => w.news i ++ [e] }

/-- The members of the channel and the bots: what a raised limit has room for -/
def capacity (bots : Finset Str) (w : Room ι) : ℕ := (w.channel.members ∪ bots).card

/-- What happens next: a peer whose registry lists `known` answers a request, the server
obeys a line, a user joins or leaves, or a peer is told what happened. -/
inductive Event (ι : Type*)
  | answer (i : ι) (known : Finset Str)
  | obey (target : ℕ)
  | enter (nick : Str)
  | leave (nick : Str)
  | told (i : ι)

variable (fold : Str → Str) (name : Str) (botId : ι → Str)

inductive Step [DecidableEq ι] : Room ι → Event ι → Room ι → Prop
  | answer (w : Room ι) (i : ι) (known : Finset Str) (h : Helper) (m : Moment) (payload : Fields)
      (hsees : h.Sees fold known name (botId i) (w.view i) m payload) :
      Step w (.answer i known)
        { w with lines := w.lines ++ (h.makeRoom fold (botId i) m payload).2 }
  | obey (w : Room ι) (before after : List HelpLine) (target : ℕ)
      (hline : w.lines = before ++ .limit name target :: after) :
      Step w (.obey target) ({ w with lines := before ++ after }.occur (.limited target))
  | enter (w : Room ι) (nick : Str) (hout : nick ∉ w.channel.members)
      (hroom : ∀ limit, w.channel.limit = some limit → (w.channel.members.card : ℤ) < limit) :
      Step w (.enter nick) (w.occur (.joined nick))
  | leave (w : Room ι) (nick : Str) (hin : nick ∈ w.channel.members) :
      Step w (.leave nick) (w.occur (.left nick))
  | told (w : Room ι) (i : ι) (e : Occurrence) (rest : List Occurrence)
      (hnews : w.news i = e :: rest) :
      Step w (.told i) { w with
        view := Function.update w.view i ((w.view i).after e)
        news := Function.update w.news i rest }

/-- The registry of a peer that answers lists these bots, nobody else joins, and nobody
leaves. -/
def Event.Calm (bots : Finset Str) : Event ι → Prop
  | .answer _ known => known = bots
  | .enter nick => nick ∈ bots
  | .leave _ => False
  | _ => True

/-- A step in calm -/
def CalmStep [DecidableEq ι] (bots : Finset Str) (w w' : Room ι) : Prop :=
  ∃ e, e.Calm bots ∧ Step fold name botId w e w'

/-- No line is on its way, and every peer knows the channel as it is. -/
structure Starts (w : Room ι) : Prop where
  lines : w.lines = []
  view : ∀ i, w.view i = w.channel
  news : ∀ i, w.news i = []

variable {fold name botId}

/-- The limit is what it was, or what was enough for all. -/
def Either (o : Occupancy) (bots : Finset Str) (limit : Option ℤ) : Prop :=
  limit = o.limit ∨ limit = some ((o.members ∪ bots).card : ℤ)

/-- What the joins and the lines in any order leave true of a channel that was `o`. -/
structure Inv (bots : Finset Str) (name : Str) (o : Occupancy) (w : Room ι) : Prop where
  grown : o.members ⊆ w.channel.members
  bounded : w.channel.members ⊆ o.members ∪ bots
  told : ∀ i, (w.news i).foldl Occupancy.after (w.view i) = w.channel
  seen : ∀ i, o.members ⊆ (w.view i).members
  lines : ∀ line ∈ w.lines, line = .limit name (o.members ∪ bots).card
  limit : Either o bots w.channel.limit
  views : ∀ i, Either o bots (w.view i).limit
  news : ∀ i, ∀ e ∈ w.news i, e.Expected bots (o.members ∪ bots).card
  raises : w.lines ≠ [] ∨ w.channel.limit ≠ o.limit →
    ∃ limit, o.limit = some limit ∧ limit < (o.members ∪ bots).card

/-- A peer has been told of some of the bots that joined, and no others did. -/
theorem Inv.union {o : Occupancy} {w : Room ι} (hi : w.Inv bots name o) (i : ι) :
    (w.view i).members ∪ bots = o.members ∪ bots := by
  have hview : (w.view i).members ⊆ w.channel.members := by
    rw [← hi.told i]
    exact Occupancy.subset_foldl _ (hi.news i)
  apply Finset.Subset.antisymm
  · exact Finset.union_subset (hview.trans hi.bounded) Finset.subset_union_right
  · exact Finset.union_subset_union_left (hi.seen i)

theorem Inv.capacity {o : Occupancy} {w : Room ι} (hi : w.Inv bots name o) :
    w.capacity bots = (o.members ∪ bots).card := by
  rw [Room.capacity]
  congr 1
  apply Finset.Subset.antisymm
  · exact Finset.union_subset hi.bounded Finset.subset_union_right
  · exact Finset.union_subset_union_left hi.grown

theorem Starts.inv {w : Room ι} (hs : w.Starts) : w.Inv bots name w.channel where
  grown := Finset.Subset.refl _
  bounded := Finset.subset_union_left
  told := by
    intro i
    rw [hs.news i, hs.view i, List.foldl_nil]
  seen := by
    intro i
    rw [hs.view i]
  lines := by simp [hs.lines]
  limit := .inl rfl
  views := by
    intro i
    rw [hs.view i]
    exact .inl rfl
  news := by simp [hs.news]
  raises := by simp [hs.lines]

theorem foldl_occur {w : Room ι} {i : ι}
    (ht : (w.news i).foldl Occupancy.after (w.view i) = w.channel) (e : Occurrence) :
    ((w.occur e).news i).foldl Occupancy.after ((w.occur e).view i) = (w.occur e).channel := by
  simp only [occur, List.foldl_append, ht, List.foldl_cons, List.foldl_nil]

theorem Inv.answer {o : Occupancy} {w : Room ι} (hi : w.Inv bots name o) {i : ι} {h : Helper}
    {m : Moment} {payload : Fields}
    (hsees : h.Sees fold bots name (botId i) (w.view i) m payload) :
    Inv bots name o { w with lines := w.lines ++ (h.makeRoom fold (botId i) m payload).2 } := by
  rcases hsees.makeRoom_cases with hnil | ⟨hline, limit, hview, hlt⟩
  · rw [hnil, List.append_nil]
    exact hi
  · rw [hi.union i] at hline hlt
    have hlow : o.limit = some limit := by
      rcases hi.views i with h | h
      · rw [← h, hview]
      · rw [hview, Option.some.injEq] at h
        omega
    refine { hi with lines := ?_, raises := fun _ => ⟨limit, hlow, hlt⟩ }
    intro line hmem
    rcases List.mem_append.mp hmem with hmem | hmem
    · exact hi.lines line hmem
    · rw [hline] at hmem
      exact List.mem_singleton.mp hmem

theorem Inv.obey {o : Occupancy} {w : Room ι} (hi : w.Inv bots name o)
    {before after : List HelpLine} {target : ℕ}
    (hline : w.lines = before ++ .limit name target :: after) :
    Inv bots name o ({ w with lines := before ++ after }.occur (.limited target)) := by
  obtain rfl : target = (o.members ∪ bots).card := by
    have hmem := hi.lines (.limit name target) (by simp [hline])
    exact (HelpLine.limit.inj hmem).2
  obtain ⟨limit, hlow, hlt⟩ := hi.raises (.inl (by simp [hline]))
  exact
    { grown := hi.grown
      bounded := hi.bounded
      told := fun i => foldl_occur (w := { w with lines := before ++ after }) (hi.told i) _
      seen := hi.seen
      lines := by
        intro line hmem
        apply hi.lines line
        rw [hline]
        rcases List.mem_append.mp hmem with hmem | hmem
        · exact List.mem_append_left _ hmem
        · exact List.mem_append_right _ (List.mem_cons_of_mem _ hmem)
      limit := .inr rfl
      views := hi.views
      news := by
        intro i e hmem
        rcases List.mem_append.mp hmem with hmem | hmem
        · exact hi.news i e hmem
        · obtain rfl := List.mem_singleton.mp hmem
          exact .limited
      raises := fun _ => ⟨limit, hlow, hlt⟩ }

theorem Inv.enter {o : Occupancy} {w : Room ι} (hi : w.Inv bots name o) {nick : Str}
    (hbot : nick ∈ bots) : Inv bots name o (w.occur (.joined nick)) where
  grown := hi.grown.trans (Finset.subset_insert _ _)
  bounded := Finset.insert_subset (Finset.mem_union_right _ hbot) hi.bounded
  told := fun i => foldl_occur (hi.told i) _
  seen := hi.seen
  lines := hi.lines
  limit := hi.limit
  views := hi.views
  news := by
    intro i e hmem
    rcases List.mem_append.mp hmem with hmem | hmem
    · exact hi.news i e hmem
    · obtain rfl := List.mem_singleton.mp hmem
      exact .joined hbot
  raises := hi.raises

theorem Inv.hear [DecidableEq ι] {o : Occupancy} {w : Room ι} (hi : w.Inv bots name o) {i : ι}
    {e : Occurrence} {rest : List Occurrence} (hnews : w.news i = e :: rest) :
    Inv bots name o { w with
      view := Function.update w.view i ((w.view i).after e)
      news := Function.update w.news i rest } where
  grown := hi.grown
  bounded := hi.bounded
  told := by
    intro j
    by_cases hj : j = i
    · subst hj
      simpa [hnews] using hi.told j
    · simpa [hj] using hi.told j
  seen := by
    intro j
    by_cases hj : j = i
    · subst hj
      simpa using (hi.seen j).trans ((w.view j).subset_after (hi.news j e (by simp [hnews])))
    · simpa [hj] using hi.seen j
  lines := hi.lines
  limit := hi.limit
  views := by
    intro j
    by_cases hj : j = i
    · subst hj
      simp only [Function.update_self]
      cases hi.news j e (by simp [hnews]) with
      | joined hbot => exact hi.views j
      | limited => exact .inr rfl
    · simpa [hj] using hi.views j
  news := by
    intro j d hmem
    by_cases hj : j = i
    · subst hj
      simp only [Function.update_self] at hmem
      exact hi.news j d (by simp [hnews, hmem])
    · simp only [Function.update_of_ne hj] at hmem
      exact hi.news j d hmem
  raises := hi.raises

theorem Inv.step [DecidableEq ι] {o : Occupancy} {w w' : Room ι} (hi : w.Inv bots name o)
    (hstep : CalmStep fold name botId bots w w') : w'.Inv bots name o := by
  obtain ⟨e, hcalm, hstep⟩ := hstep
  cases hstep with
  | answer i known h m payload hsees =>
    obtain rfl : known = bots := hcalm
    exact hi.answer hsees
  | obey before after target hline => exact hi.obey hline
  | enter nick hout hroom => exact hi.enter hcalm
  | leave nick hin => exact hcalm.elim
  | told i e rest hnews => exact hi.hear hnews

theorem Inv.run [DecidableEq ι] {o : Occupancy} {w w' : Room ι} (hi : w.Inv bots name o)
    (hrun : Relation.ReflTransGen (CalmStep fold name botId bots) w w') : w'.Inv bots name o := by
  induction hrun with
  | refl => exact hi
  | tail _ hstep ih => exact ih.step hstep

/-- Every bot left out gets in, if the limit is all that keeps it out. -/
def HasRoom (bots : Finset Str) (w : Room ι) : Prop :=
  ∀ nick ∈ bots, nick ∉ w.channel.members →
    ∀ limit, w.channel.limit = some limit → (w.channel.members.card : ℤ) < limit

theorem Inv.hasRoom {o : Occupancy} {w : Room ι} (hi : w.Inv bots name o) {limit : ℤ}
    (hlimit : w.channel.limit = some limit) (hhigh : (o.members ∪ bots).card ≤ limit) :
    w.HasRoom bots := by
  intro nick hbot hout low hlow
  obtain rfl : limit = low := Option.some.inj (hlimit.symm.trans hlow)
  have hproper : w.channel.members ⊂ o.members ∪ bots :=
    Finset.ssubset_iff_of_subset hi.bounded |>.mpr ⟨nick, Finset.mem_union_right _ hbot, hout⟩
  have hcard := Finset.card_lt_card hproper
  omega

/-- Whatever the order of answers, lines, joins and news, while the registries of the peers that
answer list the same bots, and nobody else joins and nobody leaves: all lines name the same
limit, the limit changes to that one alone, upwards, and then leaves room for every bot left
out. A peer that may answer and has been told everything sends the line, or the room is
there. -/
theorem room_made [DecidableEq ι] {w₀ w : Room ι} (hstart : w₀.Starts)
    (hrun : Relation.ReflTransGen (CalmStep fold name botId bots) w₀ w) :
    (∀ line ∈ w.lines, line = .limit name (w₀.capacity bots)) ∧
    (w.channel.limit = w₀.channel.limit ∨ w.HasRoom bots ∧ ∃ limit,
      w₀.channel.limit = some limit ∧ limit < w₀.capacity bots ∧
        w.channel.limit = some (w₀.capacity bots : ℤ)) ∧
    ∀ (i : ι) (h : Helper) (m : Moment) (payload : Fields) (registry : PresenceRegistry)
        (presence : BotPresence) (c : ChannelRuntime), w.news i = [] →
      h.Sees fold bots name (botId i) (w.view i) m payload →
      h.helpEligible fold m.now payload false = (registry, some (name, presence, c)) →
      (∀ line, m.sends line = true) →
      (h.makeRoom fold (botId i) m payload).2 = [.limit name (w₀.capacity bots)] ∨
        w.HasRoom bots ∧ (h.makeRoom fold (botId i) m payload).2 = [] := by
  have hi : w.Inv bots name w₀.channel := hstart.inv.run hrun
  refine ⟨hi.lines, ?_, ?_⟩
  · by_cases hsame : w.channel.limit = w₀.channel.limit
    · exact .inl hsame
    · have hraised := hi.limit.resolve_left hsame
      obtain ⟨limit, hlow, hlt⟩ := hi.raises (.inr hsame)
      exact .inr ⟨hi.hasRoom hraised le_rfl, limit, hlow, hlt, hraised⟩
  · intro i h m payload registry presence c hnews hsees he hsends
    have htold : w.view i = w.channel := by
      have ht := hi.told i
      rwa [hnews, List.foldl_nil] at ht
    have hunion := hi.union i
    rw [hsees.makeRoom_eq he, hunion, htold]
    cases hlimit : w.channel.limit with
    | none =>
      refine .inr ⟨?_, rfl⟩
      intro nick hbot hout limit hnone
      rw [hlimit] at hnone
      simp at hnone
    | some limit =>
      dsimp only
      split_ifs with hcond
      · refine .inr ⟨?_, rfl⟩
        rcases hcond with hin | hhigh
        · intro nick hbot hout
          exact absurd (hin hbot) hout
        · exact hi.hasRoom hlimit hhigh
      · exact .inl (by simp [hsends, Room.capacity])

/-- `#c` holds two bots and is full; a third is left out. -/
def sampleRoom : Room Bool :=
  let o : Occupancy := ⟨{lit "a", lit "g"}, some 2⟩
  ⟨o, [], fun _ => o, fun _ => []⟩

def samplePresences : List BotPresence :=
  [⟨lit "alpha", lit "h", lit "i", lit "a", lit "u"⟩,
    ⟨lit "beta", lit "h", lit "i", lit "p", lit "u"⟩,
    ⟨lit "gamma", lit "h", lit "i", lit "g", lit "u"⟩]

/-- A bot of `#c` under a nick -/
def sampleHelper (nick : Str) : Helper where
  bot :=
    { manager := { ChannelManager.init with
        channels := [(lit "#c", ⟨lit "#c", none, .joined, defaultCasemapping,
          [(lit "a", ⟨lit "a", [111], none⟩), (lit "g", ⟨lit "g", [111], none⟩)], []⟩)] }
      caps := ISupport.initial
      currentNick := nick
      registered := true
      identity := none
      sessions := SessionSync.init }
  connected := true
  registry := ⟨90, samplePresences.map fun p => (p.botId, p, 90)⟩

def sampleMoment : Moment := ⟨1, 1, some 2, fun _ => true⟩

/-- The request of `beta` -/
def samplePayload : Fields :=
  [(lit "channel", .str (lit "#c")),
    (lit "presence", .obj [(lit "bot_id", .str (lit "beta")), (lit "host", .str (lit "h")),
      (lit "instance_id", .str (lit "i")), (lit "nick", .str (lit "p")), (lit "user", .str (lit "u"))])]

def sampleBots : Finset Str := {lit "a", lit "g", lit "p"}

def sampleId (i : Bool) : Str := if i then lit "gamma" else lit "alpha"

def sampleNick (i : Bool) : Str := if i then lit "g" else lit "a"

theorem sees_sampleHelper (i : Bool) (w : Room Bool) (hview : w.view i = sampleRoom.view i) :
    (sampleHelper (sampleNick i)).Sees (fun s => casefold s .ascii) sampleBots (lit "#c")
      (sampleId i) (w.view i) sampleMoment samplePayload where
  named := by decide +kernel
  limit := by rw [hview]; rfl
  distinct := by
    intro c hc
    have hd : ((sampleHelper (sampleNick i)).bot.manager.runtime (lit "#c")).all
        (fun c => decide ((c.members.map Prod.fst).Nodup)) = true := by
      cases i <;> decide +kernel
    rw [hc] at hd
    exact (of_decide_eq_true hd : (c.members.map Prod.fst).Nodup)
  members := by
    intro c hc
    have hd : ((sampleHelper (sampleNick i)).bot.manager.runtime (lit "#c")).all
        (fun c => decide ((c.members.map Prod.fst).toFinset = (sampleRoom.view i).members)) = true := by
      cases i <;> decide +kernel
    rw [hc] at hd
    rw [hview]
    exact of_decide_eq_true hd
  apart := by cases i <;> decide +kernel
  live := by cases i <;> decide +kernel
  own := by cases i <;> decide +kernel

/-- Both peers answer before either line arrives; the bot joins between the two. -/
theorem room_made_both : ∃ w : Room Bool, w.channel.limit = some 3 ∧ w.lines = [] ∧
    lit "p" ∈ w.channel.members ∧ (w.channel.limit = sampleRoom.channel.limit ∨
      w.HasRoom sampleBots ∧ ∃ limit, sampleRoom.channel.limit = some limit ∧
        limit < sampleRoom.capacity sampleBots ∧
          w.channel.limit = some (sampleRoom.capacity sampleBots : ℤ)) := by
  have hline : ∀ i : Bool, ((sampleHelper (sampleNick i)).makeRoom (fun s => casefold s .ascii)
      (sampleId i) sampleMoment samplePayload).2 = [.limit (lit "#c") 3] := by
    decide +kernel
  let answered (n : ℕ) : Room Bool :=
    { sampleRoom with lines := List.replicate n (.limit (lit "#c") 3) }
  have hanswer : ∀ (i : Bool) (n : ℕ), CalmStep (fun s => casefold s .ascii) (lit "#c") sampleId
      sampleBots (answered n) (answered (n + 1)) := by
    intro i n
    have h : Step (fun s => casefold s .ascii) (lit "#c") sampleId (answered n)
        (.answer i sampleBots)
        { answered n with lines := (answered n).lines ++ ((sampleHelper (sampleNick i)).makeRoom
          (fun s => casefold s .ascii) (sampleId i) sampleMoment samplePayload).2 } :=
      .answer _ i _ _ _ _ (sees_sampleHelper i _ rfl)
    rw [hline i] at h
    refine ⟨.answer i sampleBots, rfl, ?_⟩
    simpa only [answered, List.replicate_succ', List.append_nil] using h
  let raised : Room Bool := (answered 1).occur (.limited 3)
  let entered : Room Bool := raised.occur (.joined (lit "p"))
  let last : Room Bool := { entered with lines := [] }.occur (.limited 3)
  have hraised : CalmStep (fun s => casefold s .ascii) (lit "#c") sampleId sampleBots (answered 2)
      raised :=
    ⟨.obey 3, trivial, Step.obey (answered 2) [] [.limit (lit "#c") 3] 3 rfl⟩
  have hentered : CalmStep (fun s => casefold s .ascii) (lit "#c") sampleId sampleBots raised
      entered := by
    refine ⟨.enter (lit "p"), ?_, Step.enter raised (lit "p") (by decide) ?_⟩
    · show lit "p" ∈ sampleBots
      decide
    · intro limit hlimit
      obtain rfl : (3 : ℤ) = limit := Option.some.inj hlimit
      decide
  have hlast : CalmStep (fun s => casefold s .ascii) (lit "#c") sampleId sampleBots entered last :=
    ⟨.obey 3, trivial, Step.obey entered [] [] 3 rfl⟩
  have hrun : Relation.ReflTransGen
      (CalmStep (fun s => casefold s .ascii) (lit "#c") sampleId sampleBots) sampleRoom last :=
    ((((Relation.ReflTransGen.refl.tail (hanswer false 0)).tail (hanswer true 1)).tail
      hraised).tail hentered).tail hlast
  have hmade := room_made ⟨rfl, fun _ => rfl, fun _ => rfl⟩ hrun
  exact ⟨last, rfl, rfl, by decide, hmade.2.1⟩

end Room

end Botnats
