import Botnats.IrcLines
import Botnats.Packing
import Botnats.SendLoop

/-!
# List replies

`reply` and `reply_list` of `CommandHandler`. The lines of a list are its greedy packing
under the size of one message. None of them is too long to be sent; those that find the
queue of the connection full are dropped.
-/
namespace Botnats

open Packing

/-- The message that `reply` sends -/
def privmsg (nickname message : Str) : Except Invalid (List Byte) :=
  formatMessage (lit "PRIVMSG") [nickname] (some message)

/-- `reply`, which drops a line that cannot be sent -/
def reply (s : SendLoop) (connected : Bool) (nickname message : Str) : SendLoop :=
  match privmsg nickname message with
  | .error _ => s
  | .ok encoded =>
    match s.send connected encoded with
    | .error _ => s
    | .ok t => t

/-- The loop of `reply_list`, from `current` on -/
def replyItems (limit : ℕ) (connected : Bool) (nickname head : Str) (s : SendLoop)
    (current : Str) : List Str → Except Invalid SendLoop
  | [] => .ok (reply s connected nickname current)
  | item :: items =>
    let candidate := current ++ 32 :: item
    if !encodable candidate then .error .encoding
    else if (utf8 candidate).length > limit then
      replyItems limit connected nickname head (reply s connected nickname current)
        (head ++ 32 :: item) items
    else replyItems limit connected nickname head s candidate items

/-- `reply_list` -/
def replyList (s : SendLoop) (connected : Bool) (nickname head : Str) (items : List Str) :
    Except Invalid SendLoop :=
  match privmsg nickname [] with
  | .error e => .error e
  | .ok frame =>
    replyItems (maxIrcMessageBytes - frame.length) connected nickname head s head items

/-- A line with the items of a group -/
def renderLine (head : Str) (group : List Str) : Str :=
  head ++ group.flatMap fun item => 32 :: item

variable {nickname head m : Str} {items group : List Str} {groups : List (List Str)} {s : SendLoop}

/-! ## What a message holds -/

theorem utf8_append (s t : Str) : utf8 (s ++ t) = utf8 s ++ utf8 t := List.flatMap_append

/-- What stands before the message -/
def privmsgStart (nickname : Str) : Str := lit "PRIVMSG " ++ nickname ++ [32, 58]

theorem joinMessage_privmsg (nickname m : Str) :
    joinMessage 58 32 [lit "PRIVMSG", nickname] (some m) = privmsgStart nickname ++ m := by
  simp [joinMessage, privmsgStart, lit, List.intercalate_cons_cons]

/-- A nickname that messages can be sent to, with the room that it leaves -/
structure Addressable (nickname : Str) : Prop where
  legal : illegalParam nickname = false
  text : encodable nickname = true
  room : (utf8 (privmsgStart nickname)).length + 2 ≤ maxIrcMessageBytes

/-- The bytes that a message may have -/
def messageLimit (nickname : Str) : ℕ :=
  maxIrcMessageBytes - ((utf8 (privmsgStart nickname)).length + 2)

/-- A text that a message can hold -/
structure Legal (m : Str) : Prop where
  plain : ∀ c ∈ m, c ∉ illegalTrailingChars
  text : encodable m = true

theorem length_privmsg (nickname m : Str) :
    (utf8 (privmsgStart nickname ++ m ++ [13, 10])).length =
      (utf8 (privmsgStart nickname)).length + 2 + (utf8 m).length := by
  have hend : (utf8 [13, 10]).length = 2 := by decide
  rw [utf8_append, utf8_append, List.length_append, List.length_append, hend]
  omega

theorem privmsg_eq_ok_iff {encoded : List Byte} :
    privmsg nickname m = .ok encoded ↔ Addressable nickname ∧ Legal m ∧
      (utf8 m).length ≤ messageLimit nickname ∧
      encoded = utf8 (privmsgStart nickname ++ m ++ [13, 10]) := by
  have hsize := length_privmsg nickname m
  constructor
  · intro h
    obtain ⟨hsend, htext, rfl, hlen⟩ := formatMessage_eq_ok h
    rw [joinMessage_privmsg] at htext hlen ⊢
    simp only [encodable_append, privmsgStart, Bool.and_eq_true] at htext
    rw [hsize] at hlen
    refine ⟨⟨hsend.params nickname List.mem_cons_self, htext.1.1.1.2, by omega⟩,
      ⟨hsend.trailing m rfl, htext.1.2⟩, ?_, rfl⟩
    rw [messageLimit]
    omega
  · rintro ⟨haddress, hlegal, hlen, rfl⟩
    have hroom := haddress.room
    rw [messageLimit] at hlen
    have hsend : Sendable (lit "PRIVMSG") [nickname] (some m) := by
      refine ⟨by simp [lit], List.all_eq_true.mp (by decide +kernel), by simpa using haddress.legal, fun t ht => ?_⟩
      obtain rfl := Option.some.inj ht
      exact hlegal.plain
    have htext : encodable (privmsgStart nickname ++ m ++ [13, 10]) = true := by
      simp only [encodable_append, privmsgStart, haddress.text, hlegal.text]
      decide
    have hformat := hsend.formatMessage (joinMessage_privmsg nickname m ▸ htext)
      (by rw [joinMessage_privmsg, hsize]; omega)
    rwa [joinMessage_privmsg] at hformat

/-! ## Groups -/

theorem length_renderLine (head : Str) (group : List Str) :
    (utf8 (renderLine head group)).length =
      (utf8 head).length + (group.map fun item => (utf8 item).length + 1).sum := by
  have hspace : (utf8 [32]).length = 1 := by decide
  rw [renderLine, utf8_append, List.length_append]
  congr 1
  induction group with
  | nil => rfl
  | cons item group ih =>
    rw [List.flatMap_cons, utf8_append, List.length_append, ih, List.map_cons, List.sum_cons,
      ← List.singleton_append, utf8_append, List.length_append, hspace]
    omega

theorem renderLine_append (head : Str) (group : List Str) (item : Str) :
    renderLine head (group ++ [item]) = renderLine head group ++ 32 :: item := by
  simp [renderLine]

theorem legal_append {a b : Str} (ha : Legal a) (hb : Legal b) : Legal (a ++ b) := by
  refine ⟨fun c hc => ?_, ?_⟩
  · rcases List.mem_append.mp hc with hc | hc
    · exact ha.plain c hc
    · exact hb.plain c hc
  · rw [encodable_append, ha.text, hb.text]
    rfl

theorem Legal.of_append {a b : Str} (h : Legal (a ++ b)) : Legal a ∧ Legal b := by
  obtain ⟨ha, hb⟩ := Bool.and_eq_true_iff.mp (encodable_append a b ▸ h.text)
  exact ⟨⟨fun c hc => h.plain c (List.mem_append_left _ hc), ha⟩,
    ⟨fun c hc => h.plain c (List.mem_append_right _ hc), hb⟩⟩

theorem legal_renderLine (hhead : Legal head) (hgroup : ∀ item ∈ group, Legal (32 :: item)) :
    Legal (renderLine head group) := by
  induction group using List.reverseRecOn with
  | nil => simpa [renderLine] using hhead
  | append_singleton group item ih =>
    rw [renderLine_append]
    exact legal_append (ih fun i hi => hgroup i (List.mem_append_left _ hi))
      (hgroup item (by simp))

/-- The line of the group is short enough. -/
def fitsLine (limit : ℕ) (head : Str) (group : List Str) : Bool :=
  (utf8 (renderLine head group)).length ≤ limit

theorem divisible_fitsLine (limit : ℕ) (head : Str) : Divisible (fitsLine limit head) := by
  constructor
  · intro a b _ hfits
    simp only [fitsLine, decide_eq_true_eq, length_renderLine, List.map_append,
      List.sum_append] at hfits ⊢
    omega
  · intro a b _ hfits
    simp only [fitsLine, decide_eq_true_eq, length_renderLine, List.map_append,
      List.sum_append] at hfits ⊢
    omega

/-! ## What the loop sends -/

/-- The lines go out one after the other. -/
def replies (s : SendLoop) (connected : Bool) (nickname head : Str) (groups : List (List Str)) :
    SendLoop :=
  groups.foldl (fun s group => reply s connected nickname (renderLine head group)) s

/-- The loop cuts the list where the greedy packing does. -/
theorem replyItems_eq {limit : ℕ} {connected : Bool} {current : List Str} (hhead : Legal head)
    (hcurrent : ∀ item ∈ current, Legal (32 :: item))
    (hitems : ∀ item ∈ items, Legal (32 :: item)) (s : SendLoop) :
    replyItems limit connected nickname head s (renderLine head current) items =
      .ok (replies s connected nickname head (fill (fitsLine limit head) current items)) := by
  induction items generalizing current s with
  | nil => rfl
  | cons item items ih =>
    have hitem := hitems item List.mem_cons_self
    have hlater : ∀ i ∈ items, Legal (32 :: i) := fun i hi => hitems i (List.mem_cons_of_mem _ hi)
    have hgrown : ∀ i ∈ current ++ [item], Legal (32 :: i) := by
      intro i hi
      rcases List.mem_append.mp hi with hi | hi
      · exact hcurrent i hi
      · exact (List.mem_singleton.mp hi) ▸ hitem
    have htext := (legal_renderLine hhead hgrown).text
    have hone : head ++ 32 :: item = renderLine head [item] := by simp [renderLine]
    rw [replyItems, fill, ← renderLine_append, htext]
    by_cases hfits : fitsLine limit head (current ++ [item]) = true
    · have hshort : ¬ (utf8 (renderLine head (current ++ [item]))).length > limit :=
        not_lt.mpr (of_decide_eq_true hfits)
      rw [if_pos hfits]
      simpa [hshort] using ih hgrown hlater s
    · have hlong : (utf8 (renderLine head (current ++ [item]))).length > limit :=
        not_le.mp fun hle => hfits (decide_eq_true hle)
      rw [if_neg hfits, hone]
      simpa [hlong, replies] using ih (by simpa using hitem) hlater
        (reply s connected nickname (renderLine head current))

/-- The nickname and the head with any one of the items can be sent. -/
structure Listable (nickname head : Str) (items : List Str) : Prop where
  nonempty : items ≠ []
  each : ∀ item ∈ items, ∃ encoded, privmsg nickname (head ++ 32 :: item) = .ok encoded

theorem Listable.parts (h : Listable nickname head items) :
    Addressable nickname ∧ Legal head ∧ (∀ item ∈ items, Legal (32 :: item)) ∧
      ∀ item ∈ items, fitsLine (messageLimit nickname) head [item] = true := by
  have heach : ∀ item ∈ items, Addressable nickname ∧ Legal head ∧ Legal (32 :: item) ∧
      fitsLine (messageLimit nickname) head [item] = true := by
    intro item hitem
    obtain ⟨encoded, hencoded⟩ := h.each item hitem
    obtain ⟨haddress, hlegal, hlen, -⟩ := privmsg_eq_ok_iff.mp hencoded
    refine ⟨haddress, hlegal.of_append.1, hlegal.of_append.2, decide_eq_true ?_⟩
    simpa [renderLine] using hlen
  obtain ⟨first, hfirst⟩ := List.exists_mem_of_ne_nil items h.nonempty
  exact ⟨(heach first hfirst).1, (heach first hfirst).2.1, fun item hitem => (heach item hitem).2.2.1,
    fun item hitem => (heach item hitem).2.2.2⟩

/-- A group is a message of its own exactly if its line is short enough. -/
theorem privmsg_renderLine (h : Listable nickname head items)
    (hgroup : ∀ item ∈ group, item ∈ items) :
    (∃ encoded, privmsg nickname (renderLine head group) = .ok encoded) ↔
      fitsLine (messageLimit nickname) head group = true := by
  obtain ⟨haddress, hhead, hitems, -⟩ := h.parts
  have hlegal := legal_renderLine hhead fun item hitem => hitems item (hgroup item hitem)
  rw [fitsLine, decide_eq_true_eq]
  constructor
  · rintro ⟨encoded, hencoded⟩
    exact (privmsg_eq_ok_iff.mp hencoded).2.2.1
  · exact fun hlen => ⟨_, privmsg_eq_ok_iff.mpr ⟨haddress, hlegal, hlen, rfl⟩⟩

theorem replyList_eq (h : Listable nickname head items) (s : SendLoop) (connected : Bool) :
    replyList s connected nickname head items = .ok
      (replies s connected nickname head (pack (fitsLine (messageLimit nickname) head) items)) := by
  obtain ⟨haddress, hhead, hitems, hone⟩ := h.parts
  have hempty : Legal [] := ⟨by simp, rfl⟩
  have hframe : privmsg nickname [] = .ok (utf8 (privmsgStart nickname ++ [] ++ [13, 10])) :=
    privmsg_eq_ok_iff.mpr ⟨haddress, hempty, Nat.zero_le _, rfl⟩
  have hlimit : maxIrcMessageBytes - (utf8 (privmsgStart nickname ++ [] ++ [13, 10])).length =
      messageLimit nickname := by
    rw [length_privmsg]
    rfl
  rw [replyList, hframe]
  dsimp only
  rw [hlimit]
  have hbegin : renderLine head [] = head := by simp [renderLine]
  have hloop : replyItems (messageLimit nickname) connected nickname head s
      (renderLine head []) items = .ok (replies s connected nickname head
        (fill (fitsLine (messageLimit nickname) head) [] items)) :=
    replyItems_eq hhead (by simp) hitems s
  rw [hbegin] at hloop
  rw [hloop]
  cases items with
  | nil => exact absurd rfl h.nonempty
  | cons item items =>
    rw [fill, List.nil_append, if_pos (hone item List.mem_cons_self), pack]

/-- While the connection is up a line that can be sent is queued, if there is room. -/
theorem outbound_reply (hup : s.phase ≠ .ended) {encoded : List Byte}
    (hencoded : privmsg nickname m = .ok encoded) :
    (reply s true nickname m).phase = s.phase ∧ (reply s true nickname m).outbound =
      s.outbound ++ [encoded].take (outboundLimit - s.outbound.length) := by
  simp only [reply, hencoded, SendLoop.send, hup, or_false, Bool.true_eq_false, if_false]
  by_cases hfull : outboundLimit ≤ s.outbound.length
  · rw [if_pos hfull, Nat.sub_eq_zero_of_le hfull]
    simp
  · have hroom : outboundLimit - s.outbound.length = outboundLimit - s.outbound.length - 1 + 1 := by
      omega
    rw [if_neg hfull, hroom, List.take_succ_cons]
    simp

/-- The lines are queued until the queue is full. -/
theorem outbound_replies (hup : s.phase ≠ .ended) {encoded : List (List Byte)}
    (hencoded : groups.map (fun group => privmsg nickname (renderLine head group)) =
      encoded.map .ok) :
    (replies s true nickname head groups).outbound =
      s.outbound ++ encoded.take (outboundLimit - s.outbound.length) := by
  induction groups generalizing s encoded with
  | nil =>
    obtain rfl : encoded = [] := by simpa using hencoded.symm
    simp [replies]
  | cons group groups ih =>
    cases encoded with
    | nil => simp at hencoded
    | cons line encoded =>
      obtain ⟨hline, hlines⟩ := List.cons.inj hencoded
      obtain ⟨hphase, hout⟩ := outbound_reply hup hline
      have hrest := ih (s := reply s true nickname (renderLine head group))
        (by rwa [hphase]) hlines
      rw [replies, List.foldl_cons, ← replies, hrest, hout]
      cases hroom : outboundLimit - s.outbound.length with
      | zero =>
        have hnone : outboundLimit - (s.outbound ++ List.take 0 [line]).length = 0 := by
          rw [List.take_zero, List.append_nil]
          exact hroom
        rw [hnone]
        simp
      | succ room =>
        have hless : outboundLimit - (s.outbound ++ List.take (room + 1) [line]).length = room := by
          rw [List.take_succ_cons, List.take_nil, List.length_append, List.length_singleton]
          omega
        rw [hless, List.take_succ_cons, List.take_succ_cons, List.take_nil, List.append_assoc,
          List.singleton_append]

/-- The lines of a list reply fit and hold the items in order, in groups as few as can be.
While the connection is up they are queued until the queue is full. -/
theorem replyList_complete (nickname head : Str) (items : List Str) (s : SendLoop)
    (h : Listable nickname head items) (hup : s.phase ≠ .ended) :
    ∃ (groups : List (List Str)) (encoded : List (List Byte)) (t : SendLoop), (∀ g ∈ groups, g ≠ []) ∧ groups.flatten = items ∧
      groups.map (fun g => privmsg nickname (renderLine head g)) = encoded.map .ok ∧
      (∀ line ∈ encoded, line.length ≤ maxIrcMessageBytes) ∧
      (∀ other : List (List Str), (∀ g ∈ other, g ≠ [] ∧
          ∃ line, privmsg nickname (renderLine head g) = .ok line) →
        other.flatten = items → groups.length ≤ other.length) ∧
      replyList s true nickname head items = .ok t ∧
      t.outbound = s.outbound ++ encoded.take (outboundLimit - s.outbound.length) := by
  obtain ⟨haddress, hhead, hitems, hone⟩ := h.parts
  have hpacks := packs_pack hone
  set groups := pack (fitsLine (messageLimit nickname) head) items with hgroups
  have hmem : ∀ g ∈ groups, ∀ item ∈ g, item ∈ items := by
    intro g hg item hitem
    rw [← hpacks.flatten]
    exact List.mem_flatten.mpr ⟨g, hg, hitem⟩
  set encoded := groups.map fun g =>
    utf8 (privmsgStart nickname ++ renderLine head g ++ [13, 10]) with hencoded
  have hlines : groups.map (fun g => privmsg nickname (renderLine head g)) =
      encoded.map .ok := by
    rw [hencoded, List.map_map]
    refine List.map_congr_left fun g hg => ?_
    have hfits : (utf8 (renderLine head g)).length ≤ messageLimit nickname :=
      of_decide_eq_true (hpacks.fits g hg)
    exact privmsg_eq_ok_iff.mpr ⟨haddress,
      legal_renderLine hhead fun item hitem => hitems item (hmem g hg item hitem), hfits, rfl⟩
  refine ⟨groups, encoded, _, hpacks.nonempty, hpacks.flatten, hlines, ?_, ?_,
    replyList_eq h s true, outbound_replies hup hlines⟩
  · intro line hline
    have hsent : Except.ok line ∈ encoded.map (Except.ok (ε := Invalid)) :=
      List.mem_map_of_mem hline
    rw [← hlines] at hsent
    obtain ⟨g, -, hg⟩ := List.mem_map.mp hsent
    exact (formatMessage_eq_ok hg).2.2.2
  · intro other hother hflatten
    refine length_pack_le (divisible_fitsLine _ head) ⟨hflatten, fun g hg => (hother g hg).1, ?_⟩
    intro g hg
    refine (privmsg_renderLine h fun item hitem => ?_).mp (hother g hg).2
    rw [← hflatten]
    exact List.mem_flatten.mpr ⟨g, hg, hitem⟩

/-- A head that leaves room for a single item of ten letters -/
def wideHead : Str := List.replicate 480 97

def wideItem : Str := List.replicate 10 98

def sampleItems : List Str := [wideItem, lit "\u00e9", wideItem, lit "c"]

theorem listable_sample : Listable (lit "n") wideHead sampleItems := by
  refine ⟨by simp [sampleItems], fun item hitem => ?_⟩
  have hsent : (privmsg (lit "n") (wideHead ++ 32 :: item)).toOption.isSome = true := by
    simp only [sampleItems, List.mem_cons, List.not_mem_nil, or_false] at hitem
    rcases hitem with rfl | rfl | rfl | rfl <;> decide +kernel
  cases hcase : privmsg (lit "n") (wideHead ++ 32 :: item) with
  | error e =>
    rw [hcase] at hsent
    cases hsent
  | ok encoded => exact ⟨encoded, rfl⟩

/-- The list takes two lines, which are queued. -/
theorem replyList_complete_sample : ∃ (groups : List (List Str)) (t : SendLoop),
    groups.flatten = sampleItems ∧ groups.length = 2 ∧
    replyList (.init 0) true (lit "n") wideHead sampleItems = .ok t ∧ t.outbound.length = 2 := by
  obtain ⟨groups, encoded, t, -, hflatten, hlines, -, hleast, hrun, hout⟩ :=
    replyList_complete (lit "n") wideHead sampleItems (.init 0) listable_sample (by decide)
  have htwo : groups.length ≤ [[wideItem, lit "\u00e9"], [wideItem, lit "c"]].length := by
    refine hleast [[wideItem, lit "\u00e9"], [wideItem, lit "c"]] (fun g hg => ?_)
      (by simp [sampleItems])
    have hmem : ∀ item ∈ g, item ∈ sampleItems := by
      have hpages : ([[wideItem, lit "\u00e9"], [wideItem, lit "c"]].all fun g =>
          g.all fun item => decide (item ∈ sampleItems)) = true := by decide +kernel
      exact fun item hitem =>
        of_decide_eq_true (List.all_eq_true.mp (List.all_eq_true.mp hpages g hg) item hitem)
    refine ⟨?_, (privmsg_renderLine listable_sample hmem).mpr ?_⟩
    · rcases List.mem_pair.mp hg with rfl | rfl <;> simp
    · rcases List.mem_pair.mp hg with rfl | rfl <;> decide +kernel
  have hlength : groups.length = 2 := by
    refine le_antisymm htwo ?_
    match groups, hflatten, hlines with
    | [], hflatten, _ => simp [sampleItems] at hflatten
    | [g], hflatten, hlines =>
      obtain rfl : g = sampleItems := by simpa using hflatten
      have hlong : (privmsg (lit "n") (renderLine wideHead sampleItems)).toOption = none := by
        decide +kernel
      cases encoded with
      | nil => cases hlines
      | cons line encoded =>
        have hline : privmsg (lit "n") (renderLine wideHead sampleItems) = .ok line :=
          (List.cons.inj hlines).1
        rw [hline] at hlong
        cases hlong
    | _ :: _ :: _, _, _ => simp
  refine ⟨groups, t, hflatten, hlength, hrun, ?_⟩
  have hsame := congrArg List.length hlines
  rw [List.length_map, List.length_map, hlength] at hsame
  rw [hout, List.take_of_length_le (by rw [← hsame]; decide)]
  simp [SendLoop.init, ← hsame]

/-! ## A list that is longer than the queue -/

def wideItems : List Str := List.replicate 65 wideItem

theorem listable_wide : Listable (lit "n") wideHead wideItems := by
  refine ⟨by simp [wideItems], fun item hitem => ?_⟩
  obtain rfl := List.eq_of_mem_replicate hitem
  have hlegal : Legal (wideHead ++ 32 :: wideItem) :=
    ⟨by
      intro c hc
      rcases List.mem_append.mp hc with hc | hc
      · rw [List.eq_of_mem_replicate hc]
        decide
      · rcases List.mem_cons.mp hc with rfl | hc
        · decide
        · rw [List.eq_of_mem_replicate hc]
          decide, by decide +kernel⟩
  exact ⟨_, privmsg_eq_ok_iff.mpr
    ⟨⟨by decide +kernel, by decide +kernel, by decide +kernel⟩, hlegal, by decide +kernel, rfl⟩⟩

/-- The queue of a connection takes no line above its limit. -/
theorem outbound_replies_le (hle : s.outbound.length ≤ outboundLimit) (connected : Bool) :
    (replies s connected nickname head groups).outbound.length ≤ outboundLimit := by
  induction groups generalizing s with
  | nil => exact hle
  | cons group groups ih =>
    refine ih (s := reply s connected nickname (renderLine head group)) ?_
    unfold reply SendLoop.send
    split
    · exact hle
    · split
      · exact hle
      · rename_i hsend
        split_ifs at hsend with hdown hfull
        obtain rfl := Except.ok.inj hsend
        rw [List.length_append, List.length_singleton]
        omega

/-- A list of 65 lines loses the last of them, though nothing else waits to be sent. -/
theorem not_replyList_complete :
    ¬ ∀ (nickname head : Str) (items : List Str) (s t : SendLoop), Listable nickname head items →
      (∀ item ∈ items, (32 : CodePoint) ∉ item) → s.phase ≠ .ended →
      replyList s true nickname head items = .ok t →
      ∃ (groups : List (List Str)) (encoded : List (List Byte)), groups.flatten = items ∧
        groups.map (fun g => privmsg nickname (renderLine head g)) = encoded.map .ok ∧
        t.outbound = s.outbound ++ encoded := by
  intro hall
  have hspace : ∀ item ∈ wideItems, (32 : CodePoint) ∉ item := by
    intro item hitem hmem
    obtain rfl := List.eq_of_mem_replicate hitem
    exact absurd (List.eq_of_mem_replicate hmem) (by decide)
  obtain ⟨groups, encoded, hflatten, hlines, hout⟩ := hall (lit "n") wideHead wideItems
    (.init 0) _ listable_wide hspace (by decide) (replyList_eq listable_wide (.init 0) true)
  have hqueue := congrArg List.length hout
  have hle : (replies (.init 0) true (lit "n") wideHead
      (pack (fitsLine (messageLimit (lit "n")) wideHead) wideItems)).outbound.length ≤ outboundLimit :=
    outbound_replies_le (Nat.zero_le _) true
  rw [hqueue] at hle
  have hgroups : groups.length ≤ 64 := by
    have hsame := congrArg List.length hlines
    rw [List.length_map, List.length_map] at hsame
    rw [hsame]
    exact hle
  -- each line has room for one item
  have hone : ∀ g ∈ groups, g.length ≤ 1 := by
    intro g hg
    have hitems : ∀ item ∈ g, item = wideItem := by
      intro item hitem
      have hmem : item ∈ groups.flatten := List.mem_flatten.mpr ⟨g, hg, hitem⟩
      rw [hflatten] at hmem
      exact List.eq_of_mem_replicate hmem
    have hsent : privmsg (lit "n") (renderLine wideHead g) ∈ encoded.map (Except.ok (ε := Invalid)) :=
      hlines ▸ List.mem_map_of_mem hg
    obtain ⟨line, -, hline⟩ := List.mem_map.mp hsent
    have hlen := (privmsg_eq_ok_iff.mp hline.symm).2.2.1
    have hlimit : messageLimit (lit "n") = 499 := by decide +kernel
    have hwide : (utf8 wideHead).length = 480 ∧ (utf8 wideItem).length = 10 := by decide +kernel
    rw [length_renderLine, hlimit, List.eq_replicate_of_mem hitems, List.map_replicate,
      List.sum_replicate, hwide.1, hwide.2] at hlen
    simp only [smul_eq_mul] at hlen
    omega
  have htotal : groups.flatten.length ≤ groups.length := by
    rw [List.length_flatten]
    calc (groups.map List.length).sum ≤ (groups.map fun _ => 1).sum :=
          List.sum_le_sum fun g hg => hone g hg
      _ = groups.length := by simp
  rw [hflatten] at htotal
  exact absurd (htotal.trans hgroups) (by decide)

end Botnats
