import Botnats.PeerHelp
import Mathlib.Data.List.TakeWhile

/-!
# The tracked bans

`add_ban` and `remove_ban` keep one mask for each fold of a whole mask by the casemapping
of the channel, while `mask_matches` folds what follows the nick by ASCII. Masks under one
key match alike exactly if what follows their nicks folds alike by ASCII.
-/
namespace Botnats

variable {m : Casemapping} {a b : Str}

/-! ## Masks of one key -/

theorem nonEmpty_map (f : CodePoint → CodePoint) (s : Str) :
    Prefix.nonEmpty (s.map f) = (Prefix.nonEmpty s).map (List.map f) := by
  cases s <;> rfl

/-- Parsing commutes with folding. -/
theorem parse_casefold (s : Str) (m : Casemapping) :
    Prefix.parse (casefold s m) = ⟨casefold (Prefix.parse s).nick m,
      (Prefix.parse s).user.map (casefold · m), (Prefix.parse s).host.map (casefold · m)⟩ := by
  have hbang := partition_map (foldChar_eq_iff m (show bang.val < 65 by decide))
  have hat := partition_map (foldChar_eq_iff m (show (64 : CodePoint).val < 65 by decide))
  have hhost : ∀ o : Option Str, (o.map (List.map (foldChar m))).bind Prefix.nonEmpty =
      (o.bind Prefix.nonEmpty).map (casefold · m) := by
    intro o
    cases o with
    | none => rfl
    | some host => exact nonEmpty_map _ host
  unfold Prefix.parse casefold
  rw [hbang]
  cases hsplit : partition bang s with
  | mk nick rest =>
    cases rest with
    | none => simp only [Option.map_none, hat, hhost]; rfl
    | some remainder => simp only [Option.map_some, hat, hhost, nonEmpty_map]; rfl

/-- What follows the nick folds alike by ASCII; a part that is left out is `*`. -/
structure SameTail (a b : Str) : Prop where
  user : casefold ((Prefix.parse a).user.getD (lit "*")) .ascii =
    casefold ((Prefix.parse b).user.getD (lit "*")) .ascii
  host : casefold ((Prefix.parse a).host.getD (lit "*")) .ascii =
    casefold ((Prefix.parse b).host.getD (lit "*")) .ascii

instance (a b : Str) : Decidable (SameTail a b) :=
  decidable_of_iff (_ ∧ _) ⟨fun h => ⟨h.1, h.2⟩, fun h => ⟨h.user, h.host⟩⟩

/-- The masks match the same prefixes. -/
def Alike (m : Casemapping) (a b : Str) : Prop :=
  ∀ p : Prefix, p.complete = true → maskMatches a p m = maskMatches b p m

theorem Alike.refl (m : Casemapping) (a : Str) : Alike m a a := fun _ _ => rfl

/-- The parts of masks of one key have one fold. -/
theorem parts_of_key (hkey : casefold a m = casefold b m) :
    casefold (Prefix.parse a).nick m = casefold (Prefix.parse b).nick m ∧
    casefold ((Prefix.parse a).user.getD (lit "*")) m =
      casefold ((Prefix.parse b).user.getD (lit "*")) m ∧
    casefold ((Prefix.parse a).host.getD (lit "*")) m =
      casefold ((Prefix.parse b).host.getD (lit "*")) m := by
  have hparse := (parse_casefold a m).symm.trans ((congrArg Prefix.parse hkey).trans
    (parse_casefold b m))
  obtain ⟨hnick, huser, hhost⟩ := Prefix.mk.inj hparse
  have hgetD : ∀ o : Option Str, casefold (o.getD (lit "*")) m =
      (o.map (casefold · m)).getD (casefold (lit "*") m) := by
    intro o
    cases o <;> rfl
  refine ⟨hnick, ?_, ?_⟩
  · rw [hgetD, hgetD, huser]
  · rw [hgetD, hgetD, hhost]

theorem SameTail.alike (h : SameTail a b) (hkey : casefold a m = casefold b m) : Alike m a b := by
  intro p _
  simp only [maskMatches, (parts_of_key hkey).1, h.user, h.host]

/-- The characters of a pattern that are no `*` -/
def plain (pattern : Str) : Str := pattern.filter (· ≠ 42)

theorem not_mem_plain (pattern : Str) : (42 : CodePoint) ∉ plain pattern := by
  simp [plain]

/-- A pattern matches its own characters with every `*` empty. -/
theorem matching_plain (pattern : Str) : Matching pattern (plain pattern) := by
  induction pattern with
  | nil => exact .nil
  | cons c pattern ih =>
    by_cases hc : c = 42
    · subst hc
      exact ih.empty
    · rw [plain, List.filter_cons_of_pos (by simpa using hc)]
      exact ih.same

/-- A pattern takes at least its plain characters. -/
theorem plain_length_le {pattern value : Str} (h : Matching pattern value) :
    (plain pattern).length ≤ value.length := by
  induction h with
  | nil => exact le_rfl
  | @same c p v h ih =>
    rw [plain, List.filter_cons]
    split_ifs
    · exact Nat.succ_le_succ ih
    · exact ih.trans (Nat.le_succ _)
  | @single c p v h ih => exact Nat.succ_le_succ ih
  | empty h ih => exact ih
  | extend h ih => exact ih.trans (Nat.le_succ _)

/-- Where it takes no more, every `*` is empty. -/
theorem matching_of_plain_length {pattern value : Str} (h : Matching pattern value)
    (hlen : value.length ≤ (plain pattern).length) : Matching (plain pattern) value := by
  induction h with
  | nil => exact .nil
  | @same c p v h ih =>
    have hle := plain_length_le h
    rw [plain, List.filter_cons] at hlen ⊢
    split_ifs at hlen ⊢ with hc
    · exact (ih (Nat.le_of_succ_le_succ hlen)).same
    · exact absurd hlen (by simp only [plain, List.length_cons] at *; omega)
  | @single c p v h ih => exact (ih (Nat.le_of_succ_le_succ hlen)).single
  | empty h ih => exact ih hlen
  | @extend c p v h ih =>
    have hle := plain_length_le h
    simp only [List.length_cons] at hlen
    exact absurd (hlen.trans hle) (by omega)

theorem plain_cons (c : CodePoint) (pattern : Str) :
    plain (c :: pattern) = if c = 42 then plain pattern else c :: plain pattern := by
  rw [plain, List.filter_cons]
  by_cases hc : c = 42 <;> simp [hc, plain]

/-- Strings of one fold agree character by character. -/
theorem casefold_eq_iff {p q : Str} : casefold p m = casefold q m ↔
    List.Forall₂ (fun c d => foldChar m c = foldChar m d) p q := by
  rw [casefold, casefold, ← List.forall₂_eq_eq_eq, List.forall₂_map_left_iff,
    List.forall₂_map_right_iff]

/-- They hold their wildcards at the same places. -/
theorem wildcard_iff {c d : CodePoint} (hfold : foldChar m c = foldChar m d) {wild : CodePoint}
    (hwild : wild.val < 65) : c = wild ↔ d = wild := by
  rw [← foldChar_eq_iff m hwild c, hfold, foldChar_eq_iff m hwild d]

theorem plain_length_eq {p q : Str} (hfold : casefold p m = casefold q m) :
    (plain p).length = (plain q).length := by
  rw [casefold_eq_iff] at hfold
  induction hfold with
  | nil => rfl
  | @cons c d p q hhead htail ih =>
    have hiff := wildcard_iff hhead (show (42 : CodePoint).val < 65 by decide)
    rw [plain_cons, plain_cons]
    by_cases hc : c = 42
    · rw [if_pos hc, if_pos (hiff.mp hc)]
      exact ih
    · rw [if_neg hc, if_neg fun hd => hc (hiff.mpr hd)]
      exact congrArg (· + 1) ih

/-- Patterns of one fold that match the same plain characters are equal. -/
theorem eq_of_matching_plain {p q : Str} (hfold : casefold p m = casefold q m)
    (h : Matching q (plain p)) : p = q := by
  have hmatch := matching_of_plain_length h (plain_length_eq hfold).le
  clear h
  rw [casefold_eq_iff] at hfold
  induction hfold with
  | nil => rfl
  | @cons c d p q hhead htail ih =>
    have hiff := wildcard_iff hhead (show (42 : CodePoint).val < 65 by decide)
    rw [plain_cons, plain_cons] at hmatch
    by_cases hd : d = 42
    · have hc : c = 42 := hiff.mpr hd
      rw [if_pos hc, if_pos hd] at hmatch
      rw [hc, hd, ih hmatch]
    · rw [if_neg fun hc => hd (hiff.mp hc), if_neg hd] at hmatch
      obtain ⟨hor, hrest⟩ := hmatch.of_cons hd
      have hdc : d = c := by
        rcases hor with heq | heq
        · exact heq
        · exact heq.trans ((wildcard_iff hhead (show (63 : CodePoint).val < 65 by decide)).mpr heq).symm
      rw [hdc, ih hrest]

theorem casefold_plain (p : Str) : casefold (plain (casefold p m)) m = plain (casefold p m) := by
  rw [casefold]
  conv_rhs => rw [← List.map_id (plain (casefold p m))]
  refine List.map_congr_left fun c hc => ?_
  obtain ⟨d, -, rfl⟩ := List.mem_map.mp (List.mem_of_mem_filter hc)
  exact foldChar_foldChar m d

/-- Masks of one key match alike exactly if their tails fold alike. -/
theorem alike_iff_sameTail (hkey : casefold a m = casefold b m) : Alike m a b ↔ SameTail a b := by
  refine ⟨fun halike => ?_, fun h => h.alike hkey⟩
  obtain ⟨-, huser, hhost⟩ := parts_of_key hkey
  -- the prefix that the mask matches with every `*` empty
  set p : Prefix := ⟨plain (casefold (Prefix.parse a).nick m),
    some (plain (casefold ((Prefix.parse a).user.getD (lit "*")) .ascii)),
    some (plain (casefold ((Prefix.parse a).host.getD (lit "*")) .ascii))⟩ with hp
  have hself : ∀ pattern, globMatches pattern (plain pattern) = true := fun pattern =>
    (matching_iff_globMatches (.inr (not_mem_plain pattern))).mpr (matching_plain pattern)
  have hown : maskMatches a p m = true := by
    simp only [maskMatches, hp, Option.getD_some, casefold_plain, hself, Bool.and_self]
  rw [halike p rfl] at hown
  obtain ⟨-, huserMatch, hhostMatch⟩ := standsFor_of_maskMatches hown
  simp only [hp, Option.getD_some, casefold_plain] at huserMatch hhostMatch
  have hascii : ∀ s t : Str, casefold s m = casefold t m →
      casefold (casefold s .ascii) m = casefold (casefold t .ascii) m := by
    intro s t hst
    rw [casefold_ascii, casefold_ascii, hst]
  exact ⟨eq_of_matching_plain (hascii _ _ huser) huserMatch,
    eq_of_matching_plain (hascii _ _ hhost) hhostMatch⟩

/-! ## The table along a run -/

/-- A change of the tracked bans -/
inductive BanChange
  | add (mask : Str)
  | remove (mask : Str)

def BanChange.mask : BanChange → Str
  | .add mask => mask
  | .remove mask => mask

namespace ChannelRuntime

def changeBan (c : ChannelRuntime) : BanChange → ChannelRuntime
  | .add mask => c.addBan mask
  | .remove mask => c.removeBan mask

theorem changeBan_casemapping (c : ChannelRuntime) (e : BanChange) :
    (c.changeBan e).casemapping = c.casemapping := by
  cases e <;> rfl

theorem foldl_changeBan_casemapping (c : ChannelRuntime) (l : List BanChange) :
    (l.foldl changeBan c).casemapping = c.casemapping :=
  List.foldlRecOn l changeBan (motive := fun d => d.casemapping = c.casemapping) rfl
    fun d hd e _ => (changeBan_casemapping d e).trans hd

/-- The table holds, under the key of the mask, one with the same tail. -/
def Tracks (c : ChannelRuntime) (mask : Str) : Prop :=
  ∃ a, Assoc.lookup (casefold mask c.casemapping) c.bans = some a ∧
    casefold a c.casemapping = casefold mask c.casemapping ∧ SameTail a mask

theorem tracks_addBan (c : ChannelRuntime) (mask : Str) : (c.addBan mask).Tracks mask :=
  ⟨mask, Assoc.lookup_assign_self _ _ _, rfl, rfl, rfl⟩

/-- A change keeps the mask tracked: what it puts under the key has the same tail, and
what it removes there would match alike. -/
theorem Tracks.changeBan {c : ChannelRuntime} {mask : Str} (h : c.Tracks mask) {e : BanChange}
    (htail : casefold e.mask c.casemapping = casefold mask c.casemapping → SameTail e.mask mask)
    (hkept : ∀ a, e = .remove a → ¬ Alike c.casemapping a mask) :
    (c.changeBan e).Tracks mask := by
  obtain ⟨a, ha, hkey, hsame⟩ := h
  unfold Tracks
  rw [changeBan_casemapping]
  cases e with
  | add b =>
    by_cases hb : casefold b c.casemapping = casefold mask c.casemapping
    · refine ⟨b, ?_, hb, htail hb⟩
      rw [← hb]
      exact Assoc.lookup_assign_self _ _ _
    · exact ⟨a, (Assoc.lookup_assign_of_ne _ _ hb).trans ha, hkey, hsame⟩
  | remove b =>
    have hb : casefold b c.casemapping ≠ casefold mask c.casemapping := fun hb =>
      hkept b rfl ((htail hb).alike hb)
    exact ⟨a, (Assoc.lookup_discard_of_ne _ hb).trans ha, hkey, hsame⟩

theorem Tracks.run {c : ChannelRuntime} {mask : Str} (h : c.Tracks mask) {l : List BanChange}
    (htail : ∀ e ∈ l, casefold e.mask c.casemapping = casefold mask c.casemapping →
      SameTail e.mask mask)
    (hkept : ∀ a, .remove a ∈ l → ¬ Alike c.casemapping a mask) :
    (l.foldl ChannelRuntime.changeBan c).Tracks mask := by
  induction l generalizing c with
  | nil => exact h
  | cons e l ih =>
    have hm := changeBan_casemapping c e
    rw [List.foldl_cons]
    refine ih (h.changeBan (htail e List.mem_cons_self) ?_) ?_ ?_
    · rintro a rfl
      exact hkept a List.mem_cons_self
    · rw [hm]
      exact fun e' he' => htail e' (List.mem_cons_of_mem _ he')
    · rw [hm]
      exact fun a ha => hkept a (List.mem_cons_of_mem _ ha)

theorem Tracks.alike {c : ChannelRuntime} {mask : Str} (h : c.Tracks mask) :
    ∃ a ∈ c.bans.map Prod.snd, Alike c.casemapping a mask := by
  obtain ⟨a, ha, hkey, hsame⟩ := h
  exact ⟨a, List.mem_map_of_mem (Assoc.mem_of_lookup ha), hsame.alike hkey⟩

end ChannelRuntime

/-- `unban_peer` removes every tracked ban that matches the peer, while its lines go
out. -/
theorem unban_mem {fold : Str → Str} {h : Helper} {t : Moment} {payload : Fields}
    {registry : PresenceRegistry} {channel : Str} {presence : BotPresence} {c : ChannelRuntime}
    (helig : h.helpEligible fold t.now payload false = (registry, some (channel, presence, c)))
    (hsends : ∀ line, t.sends line = true) (ha : a ∈ c.bans.map Prod.snd)
    (hmatch : maskMatches a presence.toPrefix h.bot.manager.casemapping = true) :
    .unban channel a ∈ (h.unbanPeer fold t payload).2 := by
  have hall : ∀ lines : List HelpLine, lines.takeWhile t.sends = lines := fun lines =>
    List.takeWhile_eq_self_iff.mpr fun line _ => hsends line
  simp only [Helper.unbanPeer, Helper.answer, helig, hall, List.mem_map]
  refine ⟨a, List.mem_filter.mpr ⟨?_, hmatch⟩, rfl⟩
  exact (List.perm_insertionSort _ _).symm.subset ha

/-- Masks of one key match the same prefixes exactly if what follows their nicks folds
alike by ASCII. In a run where this holds of the masks that come under the key of an added
mask, and after which no mask that matches alike was removed, the table holds one that
matches alike, and `unban_peer` removes it from a peer that it matches. -/
theorem banTable_merges (m : Casemapping) :
    (∀ a b, casefold a m = casefold b m → (Alike m a b ↔ SameTail a b)) ∧
    ∀ (c : ChannelRuntime) (mask : Str) (before after : List BanChange), c.casemapping = m →
      (∀ e ∈ after, casefold e.mask m = casefold mask m → SameTail e.mask mask) →
      (∀ a, .remove a ∈ after → ¬ Alike m a mask) →
      ∃ a, Alike m a mask ∧
        a ∈ (((before ++ .add mask :: after).foldl ChannelRuntime.changeBan c).bans.map
          Prod.snd) ∧
        ∀ (fold : Str → Str) (h : Helper) (t : Moment) (payload : Fields)
          (registry : PresenceRegistry) (channel : Str) (presence : BotPresence),
          h.bot.manager.casemapping = m →
          h.helpEligible fold t.now payload false = (registry, some (channel, presence,
            (before ++ .add mask :: after).foldl ChannelRuntime.changeBan c)) →
          (∀ line, t.sends line = true) → maskMatches mask presence.toPrefix m = true →
          .unban channel a ∈ (h.unbanPeer fold t payload).2 := by
  refine ⟨fun a b => alike_iff_sameTail, fun c mask before after hm htail hkept => ?_⟩
  set d := (before.foldl ChannelRuntime.changeBan c).addBan mask with hd
  have hdm : d.casemapping = m :=
    (ChannelRuntime.foldl_changeBan_casemapping c before).trans hm
  have hfold : (before ++ .add mask :: after).foldl ChannelRuntime.changeBan c =
      after.foldl ChannelRuntime.changeBan d := by
    rw [List.foldl_append, List.foldl_cons]
    rfl
  have htracks := ChannelRuntime.Tracks.run
    (ChannelRuntime.tracks_addBan (before.foldl ChannelRuntime.changeBan c) mask)
    (l := after) (by rw [← hd, hdm]; exact htail) (by rw [← hd, hdm]; exact hkept)
  rw [← hd] at htracks
  obtain ⟨a, ha, halike⟩ := htracks.alike
  rw [ChannelRuntime.foldl_changeBan_casemapping, hdm] at halike
  rw [hfold]
  refine ⟨a, halike, ha, ?_⟩
  intro fold h t payload registry channel presence hcasemapping helig hsends hmatch
  refine unban_mem helig hsends ha ?_
  rw [hcasemapping, halike presence.toPrefix rfl]
  exact hmatch

/-- A bot with the operator mode in one channel, and a peer that it knows -/
def oppedChannel : ChannelRuntime :=
  { ChannelRuntime.fresh .rfc1459 (lit "#c") none with
    members := [(lit "b", ⟨lit "b", [111], none⟩)] }

def bannedPeer : BotPresence := ⟨lit "peer", lit "h", lit "i", lit "n", lit "u"⟩

def bannedHelper (c : ChannelRuntime) : Helper :=
  ⟨⟨{ ChannelManager.init with channels := [(lit "#c", c)] }, .initial, lit "b", true, none,
    SessionSync.init⟩, true, ⟨60, [(lit "peer", bannedPeer, 60)]⟩⟩

def unbanRequest : Fields :=
  [(lit "channel", JsonOf.str (lit "#c")), (lit "presence", .obj [(lit "bot_id", .str (lit "peer")),
    (lit "host", .str (lit "h")), (lit "instance_id", .str (lit "i")), (lit "nick", .str (lit "n")),
    (lit "user", .str (lit "u"))])]

/-- The peer is freed of `*!*@h` by the removal of `*!*@H`, which took its place. -/
theorem banTable_merges_hosts :
    ∃ a, Alike .rfc1459 a (lit "*!*@h") ∧
      .unban (lit "#c") a ∈ ((bannedHelper ((oppedChannel.changeBan (.add (lit "*!*@h"))).changeBan
        (.add (lit "*!*@H")))).unbanPeer id ⟨0, 0, none, fun _ => true⟩ unbanRequest).2 := by
  obtain ⟨a, halike, -, hunban⟩ := (banTable_merges .rfc1459).2 oppedChannel (lit "*!*@h") []
    [.add (lit "*!*@H")] rfl (by decide) (by simp)
  have hmatch : maskMatches (lit "*!*@h") bannedPeer.toPrefix .rfc1459 = true := by
    have hhost : globMatches (lit "h") (lit "h") = true :=
      (matching_iff_globMatches (.inl (by decide))).mpr (Glob.Matches.refl _)
    have hany : globMatches (lit "*") (lit "n") = true ∧ globMatches (lit "*") (lit "u") = true :=
      ⟨(matching_iff_globMatches (.inr (by decide))).mpr Glob.Matches.nil.empty.extend,
        (matching_iff_globMatches (.inr (by decide))).mpr Glob.Matches.nil.empty.extend⟩
    exact (Bool.and_eq_true _ _).mpr ⟨(Bool.and_eq_true _ _).mpr hany, hhost⟩
  exact ⟨a, halike, hunban id (bannedHelper _) ⟨0, 0, none, fun _ => true⟩ unbanRequest _ _
    bannedPeer rfl rfl (fun _ => rfl) hmatch⟩

/-- Under rfc1459 the masks `*!*@a[` and `*!*@a{` share a key, and only the first matches a
host `a[`. Once both are set, removing the second leaves the table empty. -/
theorem not_banTable_merges_all :
    ¬ (∀ (m : Casemapping) (a b : Str), casefold a m = casefold b m → Alike m a b) ∧
    ¬ ∀ (c : ChannelRuntime) (mask : Str) (before after : List BanChange),
      (∀ a, .remove a ∈ after → ¬ Alike c.casemapping a mask) →
      ∃ a ∈ ((before ++ .add mask :: after).foldl ChannelRuntime.changeBan c).bans.map Prod.snd,
        Alike c.casemapping a mask := by
  have hkey : casefold (lit "*!*@a[") .rfc1459 = casefold (lit "*!*@a\x7b") .rfc1459 := by
    decide
  have htail : ¬ SameTail (lit "*!*@a[") (lit "*!*@a\x7b") := by decide
  have hother : ¬ Alike .rfc1459 (lit "*!*@a\x7b") (lit "*!*@a[") := by
    rw [alike_iff_sameTail hkey.symm]
    decide
  refine ⟨fun hall => htail ((alike_iff_sameTail hkey).mp (hall _ _ _ hkey)), fun hall => ?_⟩
  let c : ChannelRuntime := .fresh .rfc1459 (lit "#x") none
  obtain ⟨a, ha, -⟩ := hall c (lit "*!*@a[") []
    [.add (lit "*!*@a\x7b"), .remove (lit "*!*@a\x7b")] (by
      intro b hb
      simp only [List.mem_cons, BanChange.remove.injEq, reduceCtorEq, List.not_mem_nil, or_false,
        false_or] at hb
      rw [hb]
      exact hother)
  have hempty : (([] ++ .add (lit "*!*@a[") :: [.add (lit "*!*@a\x7b"),
      .remove (lit "*!*@a\x7b")] : List BanChange).foldl ChannelRuntime.changeBan c).bans = [] := by
    decide
  rw [hempty] at ha
  simp at ha

end Botnats
