import Botnats.Validators

/-!
# Channel records

`ChannelRecord` and the parts of `ChannelStore` that do not touch the bucket. A
stored value is what `json.loads` reads from it, `null` where it reads nothing.
-/
namespace Botnats

open Json

/-- A channel update, including part tombstones for offline peers. -/
structure ChannelRecord where
  channel : Str
  key : Option Str
  present : Bool
  revision : Str
  deriving DecidableEq

/-- The `key` of a record; `none` where the field is missing or no string. -/
def keyField (d : Fields) : Option (Option Str) :=
  match Assoc.lookup (lit "key") d with
  | some .null => some none
  | some (.str key) => some (some key)
  | _ => none

/-- `parse_channel_record` -/
def parseChannelRecord : Json → Except Invalid ChannelRecord
  | .obj d =>
    match text (lit "channel") d with
    | none => .error (.type "channel record has an invalid channel")
    | some channel =>
      match keyField d with
      | none => .error (.value "channel record has an invalid key")
      | some key =>
        match Assoc.lookup (lit "present") d with
        | some (.bool present) =>
          match validateJoin channel key with
          | .error e => .error e
          | .ok _ =>
            match validateChannelRevision (Assoc.lookup (lit "revision") d) with
            | .error e => .error e
            | .ok revision => .ok ⟨channel, key, present, revision⟩
        | _ => .error (.type "channel record has an invalid presence flag")
  | _ => .error (.type "channel record must be an object")

/-- `revision_number` -/
def revisionNumber (revision : Str) : Except Invalid ℕ :=
  (validateChannelRevision (some (.str revision))).map revisionCounter

namespace ChannelRecord

/-- What `parse_channel_record` checks of a record's fields. -/
structure Valid (r : ChannelRecord) : Prop where
  join : validateJoin r.channel r.key = .ok ()
  revision : validRevision r.revision = true

instance (r : ChannelRecord) : Decidable r.Valid :=
  decidable_of_iff (validateJoin r.channel r.key = .ok () ∧ validRevision r.revision = true)
    ⟨fun h => ⟨h.1, h.2⟩, fun h => ⟨h.join, h.revision⟩⟩

/-- `asdict` -/
def asdict (r : ChannelRecord) : Fields :=
  [(lit "channel", .str r.channel), (lit "key", r.key.elim .null .str),
    (lit "present", .bool r.present), (lit "revision", .str r.revision)]

/-- The counter that a new revision has to pass. -/
def previousCounter (floor : ℕ) : Option Str → Except Invalid ℕ
  | none => .ok floor
  | some after => (revisionNumber after).map (max floor)

/-- `ChannelRecord.new` with the suffix it draws -/
def new (channel : Str) (key : Option Str) (present : Bool) (after : Option Str) (floor : ℕ)
    (suffix : Str) : Except Invalid ChannelRecord :=
  match previousCounter floor after with
  | .error e => .error e
  | .ok previous =>
    if previous + 1 > maxChannelRevision then
      .error (.value "channel revision counter is exhausted")
    else
      match validateJoin channel key with
      | .error e => .error e
      | .ok _ => .ok ⟨channel, key, present, mintRevision (previous + 1) suffix⟩

end ChannelRecord

section Store

variable (mac : Str → Str) (network : Str)

/-- `ChannelStore.key` -/
def channelKey (channel : Str) : Str :=
  signFields mac [lit "botnats-channel-v1", casefold channel .ascii]

/-- `str(int(flag))` -/
def flagText (flag : Bool) : Str := if flag then lit "1" else lit "0"

/-- `channel_signature`. The fields of a parsed record encode. -/
def channelSignature (r : ChannelRecord) : Str :=
  signFields mac [lit "botnats-channel-record-v1", network, r.channel, flagText r.key.isSome,
    r.key.getD [], flagText r.present, r.revision]

/-- The record that `ChannelStore.sign` makes of a parsed one. -/
def signedRecord (r : ChannelRecord) : Json :=
  .obj (r.asdict ++ [(lit "signature", .str (channelSignature mac network r))])

/-- `ChannelStore.order` -/
def channelOrder (key : Str) (value : Json) : Option Str :=
  match value, parseChannelRecord value with
  | .obj d, .ok r =>
    match text (lit "signature") d with
    | none => none
    | some signature =>
      if channelKey mac r.channel ≠ key ∨ ¬ hexText 64 signature then none
      else if channelSignature mac network r ≠ signature then none
      else some r.revision
  | _, _ => none

/-- The `newer` of `ChannelStore.put`; what is no object orders as nothing. -/
def channelNewer (key : Str) (expected : Option Str) (current : Json) : Bool :=
  match channelOrder mac network key current with
  | none => true
  | some revision => some revision = expected

end Store

namespace ChannelRecord

variable {mac : Str → Str} {network : Str}

theorem keyField_asdict (r : ChannelRecord) (extra : Fields) :
    keyField (r.asdict ++ extra) = some r.key := by
  cases hk : r.key <;> simp [keyField, asdict, hk, Assoc.lookup, lit]

/-- A valid record is read back from its fields. -/
theorem parse_asdict {r : ChannelRecord} (h : r.Valid) (extra : Fields) :
    parseChannelRecord (.obj (r.asdict ++ extra)) = .ok r := by
  have hchannel : text (lit "channel") (r.asdict ++ extra) = some r.channel := rfl
  have hpresent : Assoc.lookup (lit "present") (r.asdict ++ extra) = some (.bool r.present) := by
    simp [asdict, Assoc.lookup, lit]
  have hrevision : Assoc.lookup (lit "revision") (r.asdict ++ extra) =
      some (.str r.revision) := by
    simp [asdict, Assoc.lookup, lit]
  simp only [parseChannelRecord, hchannel, keyField_asdict, hpresent, hrevision, h.join,
    validateChannelRevision, h.revision, if_true]

/-- A signed record orders by its revision under its own key. -/
theorem order_signed {r : ChannelRecord} (h : r.Valid) (hmac : ∀ t, hexText 64 (mac t)) :
    channelOrder mac network (channelKey mac r.channel) (signedRecord mac network r) =
      some r.revision := by
  have hsignature : text (lit "signature") (r.asdict ++
      [(lit "signature", .str (channelSignature mac network r))]) =
        some (channelSignature mac network r) := by
    simp [text, asdict, Assoc.lookup, lit]
  simp only [channelOrder, signedRecord, parse_asdict h, hsignature]
  have hhex : hexText 64 (channelSignature mac network r) = true := hmac _
  rw [if_neg (by simp [hhex]), if_neg (by simp)]

theorem signedRecord_injective : Function.Injective (signedRecord mac network) := by
  intro r s h
  have hfields := JsonOf.obj.inj h
  obtain ⟨rchannel, rkey, rpresent, rrevision⟩ := r
  obtain ⟨schannel, skey, spresent, srevision⟩ := s
  cases rkey <;> cases skey <;> simp_all [asdict]

theorem previousCounter_eq_ok {floor n : ℕ} {after : Option Str}
    (h : previousCounter floor after = .ok n) :
    floor ≤ n ∧ ∀ a, after = some a → validRevision a = true ∧ revisionCounter a ≤ n := by
  cases after with
  | none =>
    obtain rfl := Except.ok.inj h
    exact ⟨le_rfl, by simp⟩
  | some a =>
    simp only [previousCounter, revisionNumber, validateChannelRevision] at h
    split_ifs at h with ha
    · obtain rfl := Except.ok.inj h
      refine ⟨le_max_left _ _, fun b hb => ?_⟩
      obtain rfl := Option.some.inj hb
      exact ⟨ha, le_max_right _ _⟩
    · simp [Except.map] at h

theorem new_fields {channel : Str} {key : Option Str} {present : Bool} {after : Option Str}
    {floor : ℕ} {suffix : Str} {r : ChannelRecord}
    (h : new channel key present after floor suffix = .ok r) :
    r.channel = channel ∧ r.key = key ∧ r.present = present := by
  unfold new at h
  split at h
  · simp at h
  · split_ifs at h
    split at h
    · simp at h
    · obtain rfl := Except.ok.inj h
      exact ⟨rfl, rfl, rfl⟩

/-- A new record is valid, and its revision is above both the floor and the revision
it follows. -/
theorem new_eq_ok {channel : Str} {key : Option Str} {present : Bool} {after : Option Str}
    {floor : ℕ} {suffix : Str} {r : ChannelRecord} (hs : hexText 32 suffix = true)
    (h : new channel key present after floor suffix = .ok r) :
    r.channel = channel ∧ r.key = key ∧ r.present = present ∧ r.Valid ∧
      floor < revisionCounter r.revision ∧ ∀ a, after = some a → a < r.revision := by
  unfold new at h
  split at h
  · simp at h
  · rename_i previous hprevious
    obtain ⟨hfloor, hafter⟩ := previousCounter_eq_ok hprevious
    split_ifs at h with hmax
    split at h
    · simp at h
    · rename_i hjoin
      obtain rfl := Except.ok.inj h
      have hvalid := validRevision_mint (not_lt.mp hmax) hs
      refine ⟨rfl, rfl, rfl, ⟨hjoin, hvalid⟩, ?_, fun a ha => ?_⟩
      · rw [revisionCounter_mint]
        omega
      · obtain ⟨hvalid', hle⟩ := hafter a ha
        apply revision_lt hvalid' hvalid
        rw [revisionCounter_mint]
        omega

end ChannelRecord

end Botnats
