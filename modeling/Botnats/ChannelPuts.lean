import Botnats.ChannelMesh

/-!
# Two writes in a row

A bot writes a channel twice while nobody else does, against whatever was left at the
channel's key before. What is no validly signed record of the channel is replaced; a newer
record is adopted and replaced by the second write. An older one is neither, since the
write names the revision the bot has applied, and the bot applies no older record.
-/
namespace Botnats

open Json

/-- A `channel_update` command or a `write_key`, with the suffix it draws -/
inductive ChannelCall
  | update (channel : Str) (key : Option Str) (present : Bool) (suffix : Str)
  | writeKey (channel : Str) (key : Option Str) (suffix : Str)

namespace ChannelCall

def channel : ChannelCall → Str
  | update channel .. => channel
  | writeKey channel .. => channel

/-- The record that the call writes; `none` where it raises or needs no write. -/
def minted (modes : Str) (m : ChannelManager) :
    ChannelCall → Option (ChannelManager × ChannelRecord)
  | update channel key present suffix =>
    if hexText 32 suffix then (m.channelUpdate modes channel key present suffix).toOption else none
  | writeKey channel key suffix =>
    if hexText 32 suffix then
      match m.writeKey channel key suffix with
      | .ok (m', some record) => some (m', record)
      | _ => none
    else none

/-- What the bot does with the value that the put returned -/
def applied (link : IrcLink) (m : ChannelManager) (value : Json) : ChannelCall → ChannelManager
  | update .. => m.applyStored link value
  | writeKey channel .. => m.keyStored link channel value

section Put

variable (mac : Str → Str) (network modes : Str)

/-- `ChannelStore.put` of a record with its `expected`, without a race -/
def stores (record : ChannelRecord) (expected : Option Str) (stored : Option Json) : Json :=
  PutNewer.alone (fun c : ChannelRecord × Option Str => signedRecord mac network c.1)
    (fun c => channelNewer mac network (channelKey mac c.1.channel) c.2) (record, expected) stored

/-- A call and its put: the bot after it, the record, and the value that the put returned
and the key then holds. `put` refuses a record that does not order. -/
def put (link : IrcLink) (m : ChannelManager) (stored : Option Json) (call : ChannelCall) :
    Option (ChannelManager × ChannelRecord × Json) :=
  match call.minted modes m with
  | none => none
  | some (m', record) =>
    if (channelOrder mac network (channelKey mac record.channel)
        (signedRecord mac network record)).isSome then
      let value := stores mac network record (m.durableRevision call.channel) stored
      some (call.applied link m' value, record, value)
    else none

/-- The key holds a validly signed record of the channel that is older than the one the
bot has applied. -/
def RolledBack (m : ChannelManager) (channel : Str) (stored : Option Json) : Prop :=
  ∃ value v s, stored = some value ∧
    channelOrder mac network (channelKey mac channel) value = some v ∧
    m.durableRevision channel = some s ∧ v < s

end Put

section Facts

variable {mac : Str → Str} {network modes : Str} {link : IrcLink} {m m' : ChannelManager}
  {call : ChannelCall} {record r : ChannelRecord} {value : Json} {v : Str}

/-- The call mints a record above the one that its put names. -/
theorem minted_of_merged (h : m.Merged) (hc : call.minted modes m = some (m', record)) :
    ChannelManager.Minted m m' call.channel record := by
  cases call with
  | update channel key present suffix =>
    simp only [minted] at hc
    split_ifs at hc with hs
    cases hu : m.channelUpdate modes channel key present suffix with
    | error e => simp [hu, Except.toOption] at hc
    | ok x =>
      rw [hu] at hc
      obtain rfl := Option.some.inj hc
      exact h.channelUpdate hs hu
  | writeKey channel key suffix =>
    simp only [minted] at hc
    split_ifs at hc with hs
    split at hc
    · rename_i m₁ record₁ hw
      obtain ⟨rfl, rfl⟩ := Prod.mk.inj (Option.some.inj hc)
      exact (h.writeKey hs hw).2.2 _ rfl
    · simp at hc

theorem channelOrder_eq_some {key : Str} (h : channelOrder mac network key value = some v) :
    ∃ r, parseChannelRecord value = .ok r ∧ r.revision = v ∧ channelKey mac r.channel = key := by
  unfold channelOrder at h
  split at h
  · rename_i hparse
    split at h
    · simp at h
    · split_ifs at h with hkey hmac
      obtain rfl := Option.some.inj h
      exact ⟨_, hparse, rfl, not_not.mp (not_or.mp hkey).1⟩
  · simp at h

/-- A call applies the returned value to the records as they are. -/
theorem applied_eq (link : IrcLink) (m : ChannelManager) (value : Json) (call : ChannelCall) :
    ∃ m₀ : ChannelManager, m₀.sourceRecords = m.sourceRecords ∧ (m.Merged → m₀.Merged) ∧
      call.applied link m value = m₀.applyStored link value := by
  cases call with
  | update channel key present suffix => exact ⟨m, rfl, id, rfl⟩
  | writeKey channel key suffix =>
    exact ⟨{ m with pendingKeys := Assoc.discard (casefold channel .ascii) m.pendingKeys }, rfl,
      fun h => h.congr rfl rfl rfl, rfl⟩

theorem durableRevision_applyRecord (m : ChannelManager) (link : IrcLink) (r : ChannelRecord) :
    (m.applyRecord link r).durableRevision r.channel =
      if ChannelManager.atLeast m.sourceRecords (casefold r.channel .ascii) r.revision = true then
        m.durableRevision r.channel
      else some r.revision := by
  rcases m.applyRecord_records link r with ⟨hat, heq⟩ | ⟨hold, -, hs, -⟩
  · rw [heq, if_pos hat]
  · rw [ChannelManager.durableRevision, hs, Assoc.lookup_assign_self, if_neg (by simp [hold])]
    rfl

theorem durableRevision_congr {channel other : Str}
    (h : casefold channel .ascii = casefold other .ascii) :
    m.durableRevision channel = m.durableRevision other := by
  rw [ChannelManager.durableRevision, ChannelManager.durableRevision, h]

/-- An older record leaves the revision that the next write names, a newer one sets it. -/
theorem durableRevision_applied {channel : Str} (hparse : parseChannelRecord value = .ok r)
    (hfold : casefold r.channel .ascii = casefold channel .ascii) :
    (call.applied link m value).durableRevision channel =
      if ∃ s, m.durableRevision channel = some s ∧ r.revision ≤ s then m.durableRevision channel
      else some r.revision := by
  obtain ⟨m₀, hsource, -, heq⟩ := applied_eq link m value call
  have hdurable : ∀ c, m₀.durableRevision c = m.durableRevision c := by
    intro c
    rw [ChannelManager.durableRevision, hsource]
    rfl
  have hiff : ChannelManager.atLeast m₀.sourceRecords (casefold r.channel .ascii) r.revision =
      true ↔ ∃ s, m.durableRevision channel = some s ∧ r.revision ≤ s := by
    rw [ChannelManager.atLeast_iff, hsource, hfold]
    simp [ChannelManager.durableRevision]
  rw [heq, ChannelManager.applyStored, hparse, ← durableRevision_congr hfold]
  rw [durableRevision_applyRecord, hdurable]
  simp only [hiff, durableRevision_congr hfold]

theorem Merged.applied (h : m.Merged) (value : Json) :
    (call.applied link m value).Merged := by
  obtain ⟨m₀, -, hmerged, heq⟩ := applied_eq link m value call
  rw [heq, ChannelManager.applyStored]
  split
  · exact (hmerged h).applyRecord link _
  · exact hmerged h

/-- What a put of one call does -/
structure Puts (mac : Str → Str) (network : Str) (link : IrcLink) (m : ChannelManager)
    (stored : Option Json) (call : ChannelCall) (m' : ChannelManager) (record : ChannelRecord)
    (value : Json) : Prop where
  value_eq : value = stores mac network record (m.durableRevision call.channel) stored
  named : record.channel = call.channel
  valid : record.Valid
  newer : ∀ e, m.durableRevision call.channel = some e → e < record.revision
  after : ∃ m₀ : ChannelManager, m₀.Merged ∧ m₀.sourceRecords = m.sourceRecords ∧
    m' = call.applied link m₀ value

theorem puts_of_put {stored : Option Json} (h : m.Merged)
    (hput : call.put mac network modes link m stored = some (m', record, value)) :
    Puts mac network link m stored call m' record value := by
  unfold put at hput
  split at hput
  · simp at hput
  · rename_i m₀ record₀ hminted
    dsimp only at hput
    split_ifs at hput
    obtain ⟨rfl, rfl, rfl⟩ : call.applied link m₀ _ = m' ∧ record₀ = record ∧ _ = value := by
      simpa using hput
    have hmint := minted_of_merged h hminted
    exact ⟨rfl, hmint.named, hmint.valid, hmint.newer, m₀, hmint.merged, hmint.source, rfl⟩

/-- A put returns the stored value where that orders and is not the one it names. -/
theorem stores_eq (record : ChannelRecord) (expected : Option Str) (stored : Option Json) :
    stores mac network record expected stored = signedRecord mac network record ∨
      ∃ v, stored = some (stores mac network record expected stored) ∧
        channelOrder mac network (channelKey mac record.channel)
          (stores mac network record expected stored) = some v ∧ some v ≠ expected := by
  unfold stores PutNewer.alone
  cases stored with
  | none => exact .inl rfl
  | some value =>
    dsimp only
    split_ifs with hnewer
    · exact .inl rfl
    · refine .inr ?_
      unfold channelNewer at hnewer
      split at hnewer
      · exact absurd rfl hnewer
      · rename_i v horder
        exact ⟨v, rfl, horder, fun heq => hnewer (by simp [heq])⟩

/-- A put whose `expected` is not the revision at the key leaves the value there. -/
theorem stores_of_ne {expected : Option Str}
    (horder : channelOrder mac network (channelKey mac record.channel) value = some v)
    (hne : some v ≠ expected) : stores mac network record expected (some value) = value := by
  have hnewer : channelNewer mac network (channelKey mac record.channel) expected value = false := by
    simp [channelNewer, horder, hne]
  simp [stores, PutNewer.alone, hnewer]

end Facts

section Progress

variable {mac : Str → Str} {network modes : Str} {link : IrcLink}
  {m m₁ m₂ : ChannelManager} {first second : ChannelCall} {r₁ r₂ : ChannelRecord}
  {stored : Option Json} {v₁ v₂ : Json}

/-- The signed record of a call orders by its revision, if it orders at all. -/
theorem order_signed_revision {r : ChannelRecord} {key v : Str} (h : r.Valid)
    (horder : channelOrder mac network key (signedRecord mac network r) = some v) :
    v = r.revision := by
  obtain ⟨s, hparse, hrevision, -⟩ := channelOrder_eq_some horder
  rw [signedRecord, ChannelRecord.parse_asdict h] at hparse
  rw [← hrevision, ← Except.ok.inj hparse]

/-- Of two puts in a row one is stored, exactly if the key did not hold a validly signed
record of the channel older than the one the bot had applied. -/
theorem put_stored_iff (h : m.Merged)
    (hkey : ∀ value r, stored = some value → parseChannelRecord value = .ok r →
      channelKey mac r.channel = channelKey mac first.channel →
        casefold r.channel .ascii = casefold first.channel .ascii)
    (hsame : casefold second.channel .ascii = casefold first.channel .ascii)
    (hfirst : first.put mac network modes link m stored = some (m₁, r₁, v₁))
    (hsecond : second.put mac network modes link m₁ (some v₁) = some (m₂, r₂, v₂)) :
    (v₁ = signedRecord mac network r₁ ∨ v₂ = signedRecord mac network r₂) ↔
      ¬ RolledBack mac network m first.channel stored := by
  have hputs := puts_of_put h hfirst
  obtain ⟨m₀, hmerged, hsource, hm₁⟩ := hputs.after
  have hmerged₁ : m₁.Merged := hm₁ ▸ Merged.applied hmerged v₁
  have hputs' := puts_of_put hmerged₁ hsecond
  have hkey₁ : channelKey mac r₁.channel = channelKey mac first.channel := by rw [hputs.named]
  have hkey₂ : channelKey mac r₂.channel = channelKey mac first.channel := by
    rw [hputs'.named, channelKey, channelKey, hsame]
  have hdurable₀ : ∀ c, m₀.durableRevision c = m.durableRevision c := by
    intro c
    rw [ChannelManager.durableRevision, hsource]
    rfl
  constructor
  · rintro hstored ⟨value, v, s, rfl, horder, hs, hlt⟩
    obtain ⟨r, hparse, hrevision, hchannel⟩ := channelOrder_eq_some horder
    have hfold := hkey value r rfl hparse hchannel
    -- the first put returns the old value, and the bot does not apply it
    have hv₁ : v₁ = value := by
      rw [hputs.value_eq]
      refine stores_of_ne (by rw [hkey₁]; exact horder) ?_
      rw [hs]
      exact fun heq => hlt.ne (Option.some.inj heq)
    have hs₁ : m₁.durableRevision first.channel = some s := by
      rw [hm₁, hv₁, durableRevision_applied hparse hfold, hdurable₀]
      rw [if_pos ⟨s, hs, by rw [hrevision]; exact hlt.le⟩, hs]
    have hs₂ : m₁.durableRevision second.channel = some s := by
      rw [durableRevision_congr hsame, hs₁]
    have hv₂ : v₂ = value := by
      rw [hputs'.value_eq, hv₁]
      refine stores_of_ne (by rw [hkey₂]; exact horder) ?_
      rw [hs₂]
      exact fun heq => hlt.ne (Option.some.inj heq)
    -- neither record has the old revision
    rcases hstored with hstored | hstored
    · rw [← hv₁, hstored] at horder
      have heq := order_signed_revision hputs.valid horder
      exact absurd (hputs.newer s hs) (not_lt.mpr (heq ▸ hlt.le))
    · rw [← hv₂, hstored] at horder
      have heq := order_signed_revision hputs'.valid horder
      exact absurd (hputs'.newer s hs₂) (not_lt.mpr (heq ▸ hlt.le))
  · intro hnot
    rcases stores_eq r₁ (m.durableRevision first.channel) stored with hown | hold
    · exact .inl (hputs.value_eq.trans hown)
    · rw [← hputs.value_eq] at hold
      obtain ⟨v, hstored, horder, hne⟩ := hold
      rw [hkey₁] at horder
      obtain ⟨r, hparse, hrevision, hchannel⟩ := channelOrder_eq_some horder
      have hfold := hkey v₁ r hstored hparse hchannel
      -- the bot adopts the newer record, and the second put names it
      have hs₁ : m₁.durableRevision first.channel = some v := by
        rw [hm₁, durableRevision_applied hparse hfold, hdurable₀, if_neg, hrevision]
        rintro ⟨s, hs, hle⟩
        rw [hrevision] at hle
        refine hnot ⟨v₁, v, s, hstored, horder, hs, lt_of_le_of_ne hle ?_⟩
        rintro rfl
        exact hne hs.symm
      right
      rw [hputs'.value_eq, durableRevision_congr hsame, hs₁]
      have hnewer : channelNewer mac network (channelKey mac r₂.channel) (some v) v₁ = true := by
        rw [hkey₂]
        simp [channelNewer, horder]
      simp [stores, PutNewer.alone, hnewer]

/-- A record of `#a` -/
def sampleRecord (n : ℕ) (present : Bool) : ChannelRecord :=
  ⟨lit "#a", none, present, mintRevision n (List.replicate 32 97)⟩

/-- A bot that has applied two records of `#a` -/
def sampleBot : ChannelManager :=
  (ChannelManager.init.applyRecord ⟨false, false, true⟩ (sampleRecord 1 true)).applyRecord
    ⟨false, false, true⟩ (sampleRecord 2 true)

theorem merged_sampleBot : sampleBot.Merged :=
  (ChannelManager.merged_init.applyRecord _ _).applyRecord _ _

/-- A `PART` command for `#a` -/
def samplePart : ChannelCall := .update (lit "#a") none false (List.replicate 32 98)

/-- What two `PART` commands return, and what they write, by revision -/
def partTwice (stored : Option Json) : Option (List (Option Str)) :=
  let order := channelOrder sampleMac (lit "net") (channelKey sampleMac (lit "#a"))
  (samplePart.put sampleMac (lit "net") [] ⟨false, false, true⟩ sampleBot stored).bind fun x =>
    (samplePart.put sampleMac (lit "net") [] ⟨false, false, true⟩ x.1 (some x.2.2)).map fun y =>
      [order x.2.2, order (signedRecord sampleMac (lit "net") x.2.1), order y.2.2,
        order (signedRecord sampleMac (lit "net") y.2.1)]

theorem exists_of_partTwice {orders : List (Option Str)}
    (h : partTwice stored = some orders) : ∃ m₁ r₁ v₁ m₂ r₂ v₂,
      samplePart.put sampleMac (lit "net") [] ⟨false, false, true⟩ sampleBot stored =
        some (m₁, r₁, v₁) ∧
      samplePart.put sampleMac (lit "net") [] ⟨false, false, true⟩ m₁ (some v₁) =
        some (m₂, r₂, v₂) ∧
      [v₁, signedRecord sampleMac (lit "net") r₁, v₂, signedRecord sampleMac (lit "net") r₂].map
        (channelOrder sampleMac (lit "net") (channelKey sampleMac (lit "#a"))) = orders := by
  unfold partTwice at h
  obtain ⟨⟨m₁, r₁, v₁⟩, hfirst, hrest⟩ := Option.bind_eq_some_iff.mp h
  dsimp only at hrest
  obtain ⟨⟨m₂, r₂, v₂⟩, hsecond, horders⟩ := Option.map_eq_some_iff.mp hrest
  refine ⟨m₁, r₁, v₁, m₂, r₂, v₂, hfirst, hsecond, ?_⟩
  simp only [List.map_cons, List.map_nil]
  exact horders

theorem named_of_signed {r : ChannelRecord} (hvalid : r.Valid) {value : Json}
    {record : ChannelRecord}
    (hvalue : some (signedRecord sampleMac (lit "net") r) = some value)
    (hparse : parseChannelRecord value = .ok record) : record = r := by
  obtain rfl := Option.some.inj hvalue
  rw [signedRecord, ChannelRecord.parse_asdict hvalid] at hparse
  exact (Except.ok.inj hparse).symm

/-- A peer has written a newer record, which the first put returns. -/
theorem put_stored_iff_newer : ∃ r₁ v₁ r₂ v₂,
    channelOrder sampleMac (lit "net") (channelKey sampleMac (lit "#a")) v₁ =
      some (sampleRecord 5 true).revision ∧
    ((v₁ = signedRecord sampleMac (lit "net") r₁ ∨ v₂ = signedRecord sampleMac (lit "net") r₂) ↔
      ¬ RolledBack sampleMac (lit "net") sampleBot samplePart.channel
        (some (signedRecord sampleMac (lit "net") (sampleRecord 5 true)))) := by
  have hvalid : (sampleRecord 5 true).Valid := by decide +kernel
  have hrun : (partTwice (some (signedRecord sampleMac (lit "net") (sampleRecord 5 true)))).map
      List.head? = some (some (some (sampleRecord 5 true).revision)) := by decide +kernel
  obtain ⟨orders, horders, hhead⟩ := Option.map_eq_some_iff.mp hrun
  obtain ⟨m₁, r₁, v₁, m₂, r₂, v₂, hfirst, hsecond, hall⟩ := exists_of_partTwice horders
  rw [← hall] at hhead
  refine ⟨r₁, v₁, r₂, v₂, Option.some.inj hhead, put_stored_iff merged_sampleBot
    (fun value r hvalue hparse _ => ?_) rfl hfirst hsecond⟩
  rw [named_of_signed hvalid hvalue hparse]
  rfl

/-- The first record of the channel, put back at its key, stands in the way of both
writes. -/
theorem not_put_stored_older : ¬ ∀ (mac : Str → Str) (network modes : Str) (link : IrcLink)
    (m m₁ m₂ : ChannelManager) (stored : Option Json) (first second : ChannelCall)
    (r₁ r₂ : ChannelRecord) (v₁ v₂ : Json), m.Merged →
      (∀ value r, stored = some value → parseChannelRecord value = .ok r →
        casefold r.channel .ascii = casefold first.channel .ascii) →
      casefold second.channel .ascii = casefold first.channel .ascii →
      first.put mac network modes link m stored = some (m₁, r₁, v₁) →
      second.put mac network modes link m₁ (some v₁) = some (m₂, r₂, v₂) →
        v₁ = signedRecord mac network r₁ ∨ v₂ = signedRecord mac network r₂ := by
  intro hall
  have hvalid : (sampleRecord 1 true).Valid := by decide +kernel
  have hrun : partTwice (some (signedRecord sampleMac (lit "net") (sampleRecord 1 true))) =
      some ([1, 3, 1, 4].map fun n => some (mintRevision n (List.replicate 32
        (if n = 1 then 97 else 98)))) := by decide +kernel
  obtain ⟨m₁, r₁, v₁, m₂, r₂, v₂, hfirst, hsecond, horders⟩ := exists_of_partTwice hrun
  simp only [List.map_cons, List.map_nil, List.cons.injEq, and_true] at horders
  obtain ⟨hv₁, hr₁, hv₂, hr₂⟩ := horders
  have hstored := hall sampleMac (lit "net") [] ⟨false, false, true⟩ sampleBot m₁ m₂
    (some (signedRecord sampleMac (lit "net") (sampleRecord 1 true))) samplePart samplePart r₁ r₂
    v₁ v₂ merged_sampleBot (fun value r hvalue hparse => by
      rw [named_of_signed hvalid hvalue hparse]
      rfl) rfl hfirst hsecond
  rcases hstored with heq | heq
  · rw [heq, hr₁] at hv₁
    exact absurd hv₁ (by decide +kernel)
  · rw [heq, hr₂] at hv₂
    exact absurd hv₂ (by decide +kernel)

end Progress

end ChannelCall

end Botnats
