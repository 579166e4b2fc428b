import Botnats.Machine
import Botnats.PutNewer
import Botnats.ChannelManager

/-!
# The channels bucket, shared by any number of bots

Every bot runs `channel_update` commands and key writes against one bucket, through
`ChannelStore.put`, and watches the bucket. Key writes may run side by side here,
which the key lock only narrows. A watch moves over the writes in order, may leave
out what a later write replaced, and may start again from an earlier write.
-/
namespace Botnats

open Bucket History

/-- A record that `ChannelStore.put` signed, with the revision it was written after;
`keyed` tells a key write from a command. -/
structure ChannelPut (ι : Type*) where
  bot : ι
  record : ChannelRecord
  expected : Option Str
  keyed : Bool
  valid : record.Valid

/-- `cursors` counts the writes each bot's watch has passed. -/
structure ChannelMesh (ι : Type*) where
  net : PutNewer.Net (ChannelPut ι) Str Json
  bots : ι → ChannelManager
  cursors : ι → ℕ

/-- `update` and `writeKey` start a put, `net` is a step of one, `live` any change of a
desired channel's live state by IRC, its key included. -/
inductive ChannelStep (ι : Type*)
  | update (b : ι) (channel : Str) (key : Option Str) (present : Bool) (suffix : Str)
  | writeKey (b : ι) (channel : Str) (key : Option Str) (suffix : Str)
  | net (a : PutNewer.Act) (link : IrcLink)
  | deliver (b : ι) (link : IrcLink)
  | skip (b : ι)
  | rewind (b : ι) (cursor : ℕ)
  | casemapping (b : ι) (value : Casemapping)
  | disconnect (b : ι)
  | live (b : ι) (channel : Str) (change : ChannelRuntime → ChannelRuntime)

namespace ChannelMesh

variable {ι : Type*}

def init (ι : Type*) : ChannelMesh ι := ⟨PutNewer.Net.init, fun _ => .init, fun _ => 0⟩

/-- The writes of the bucket, newest first. -/
def history (s : ChannelMesh ι) : List (Str × Json) := s.net.history

section Step

variable [DecidableEq ι] (mac : Str → Str) (network modes : Str)

def setBot (s : ChannelMesh ι) (b : ι) (m : ChannelManager) : ChannelMesh ι :=
  { s with bots := Function.update s.bots b m }

@[simp] theorem setBot_bots_self (s : ChannelMesh ι) (b : ι) (m : ChannelManager) :
    (s.setBot b m).bots b = m := by simp [setBot]

theorem setBot_bots_of_ne (s : ChannelMesh ι) {b c : ι} (m : ChannelManager) (h : c ≠ b) :
    (s.setBot b m).bots c = s.bots c := by simp [setBot, h]

def setCursor (s : ChannelMesh ι) (b : ι) (n : ℕ) : ChannelMesh ι :=
  { s with cursors := Function.update s.cursors b n }

@[simp] theorem setCursor_cursors_self (s : ChannelMesh ι) (b : ι) (n : ℕ) :
    (s.setCursor b n).cursors b = n := by simp [setCursor]

theorem setCursor_cursors_of_ne (s : ChannelMesh ι) {b c : ι} (n : ℕ) (h : c ≠ b) :
    (s.setCursor b n).cursors c = s.cursors c := by simp [setCursor, h]

def putKey (c : ChannelPut ι) : Str := channelKey mac c.record.channel

def putData (c : ChannelPut ι) : Json := signedRecord mac network c.record

/-- The `newer` of a put -/
def putNewer (c : ChannelPut ι) : Json → Bool :=
  channelNewer mac network (putKey mac c) c.expected

/-- `ChannelStore.put` is called; it refuses a record that `sign` refuses. -/
def startPut (s : ChannelMesh ι) (b : ι) (record : ChannelRecord) (expected : Option Str)
    (keyed : Bool) : ChannelMesh ι :=
  if valid : record.Valid then { s with net := s.net.start ⟨b, record, expected, keyed, valid⟩ }
  else s

/-- A put has returned or raised. -/
def finish (s : ChannelMesh ι) (link : IrcLink)
    (o : PutNewer.Outcome (ChannelPut ι) Json) : ChannelMesh ι :=
  let m := s.bots o.caller.bot
  s.setBot o.caller.bot <|
    match o.result, o.caller.keyed with
    | some stored, true => m.keyStored link o.caller.record.channel stored
    | some stored, false => m.applyStored link stored
    | none, true => m.keyFailed o.caller.record.channel
    | none, false => m

/-- `watch_channels` on one entry -/
def watchChannels (m : ChannelManager) (link : IrcLink) (key : Str) (value : Json) : ChannelManager :=
  if (channelOrder mac network key value).isSome then m.applyStored link value else m

def step (s : ChannelMesh ι) : ChannelStep ι → Option (ChannelMesh ι)
  | .update b channel key present suffix =>
    if hexText 32 suffix then
      match (s.bots b).channelUpdate modes channel key present suffix with
      | .error _ => some s
      | .ok (m, record) =>
        some ((s.setBot b m).startPut b record ((s.bots b).durableRevision channel) false)
    else none
  | .writeKey b channel key suffix =>
    if hexText 32 suffix then
      match (s.bots b).writeKey channel key suffix with
      | .error _ => some s
      | .ok (m, none) => some (s.setBot b m)
      | .ok (m, some record) =>
        some ((s.setBot b m).startPut b record ((s.bots b).durableRevision channel) true)
    else none
  | .net a link =>
    match PutNewer.step (putKey mac) (putData mac network) (putNewer mac network)
      casAttemptLimit s.net a with
    | none => none
    | some (net, none) => some { s with net := net }
    | some (net, some o) => some ({ s with net := net }.finish link o)
  | .deliver b link =>
    match nth (s.cursors b + 1) s.history with
    | none => none
    | some (key, value) =>
      some ((s.setBot b (watchChannels mac network (s.bots b) link key value)).setCursor b
        (s.cursors b + 1))
  | .skip b =>
    match nth (s.cursors b + 1) s.history with
    | none => none
    | some (key, _) =>
      if (entry key s.history).map Entry.revision ≠ some (s.cursors b + 1) then
        some (s.setCursor b (s.cursors b + 1))
      else none
  | .rewind b cursor => if cursor ≤ s.cursors b then some (s.setCursor b cursor) else none
  | .casemapping b value => some (s.setBot b ((s.bots b).setCasemapping value))
  | .disconnect b => some (s.setBot b (s.bots b).disconnect)
  | .live b channel change => some (s.setBot b ((s.bots b).mapRuntime channel change))

end Step

section Safety

variable {mac : Str → Str} {network modes : Str}

/-- A record replaces an older one of the same channel. -/
def Succeeds (mac : Str → Str) (network : Str) (_ : Str) (v w : Json) : Prop :=
  ∃ r r', v = signedRecord mac network r ∧ w = signedRecord mac network r' ∧
    r.revision < r'.revision ∧ casefold r.channel .ascii = casefold r'.channel .ascii

theorem succeeds_trans (key : Str) (u v w : Json) (h : Succeeds mac network key u v)
    (h' : Succeeds mac network key v w) : Succeeds mac network key u w := by
  obtain ⟨r, r', rfl, hv, hlt, hfold⟩ := h
  obtain ⟨s, s', hs, rfl, hlt', hfold'⟩ := h'
  obtain rfl := ChannelRecord.signedRecord_injective (hv.symm.trans hs)
  exact ⟨r, s', rfl, rfl, hlt.trans hlt', hfold.trans hfold'⟩

/-- The record was written under its key. -/
def Stored (mac : Str → Str) (network : Str) (history : List (Str × Json))
    (r : ChannelRecord) : Prop :=
  r.Valid ∧ (channelKey mac r.channel, signedRecord mac network r) ∈ history

/-- A bot knows only stored records, and merges them. -/
structure BotOk (mac : Str → Str) (network : Str) (history : List (Str × Json))
    (m : ChannelManager) : Prop where
  merged : m.Merged
  source : ∀ a r, Assoc.lookup a m.sourceRecords = some r → Stored mac network history r

/-- What a put names as `expected` is older than its record, and was stored for the
same channel. -/
def PutOk (mac : Str → Str) (network : Str) (history : List (Str × Json))
    (c : ChannelPut ι) : Prop :=
  ∀ e, c.expected = some e → e < c.record.revision ∧ ∃ r, Stored mac network history r ∧
    r.revision = e ∧ casefold r.channel .ascii = casefold c.record.channel .ascii

/-- The bot has applied the value. -/
def Applied (mac : Str → Str) (network : Str) (m : ChannelManager) (_ : Str) (v : Json) : Prop :=
  ∀ r, v = signedRecord mac network r →
    ChannelManager.atLeast m.sourceRecords (casefold r.channel .ascii) r.revision = true

structure Inv (mac : Str → Str) (network : Str) (s : ChannelMesh ι) : Prop where
  net : PutNewer.Inv (putKey mac) (putData mac network)
    (fun c v => putNewer mac network c v = true) s.net
  chain : Chain (Succeeds mac network) s.history
  stored : ∀ k v, (k, v) ∈ s.history → ∃ r, r.Valid ∧ k = channelKey mac r.channel ∧
    v = signedRecord mac network r
  puts : ∀ c, PutNewer.Calls s.net c → PutOk mac network s.history c
  bots : ∀ b, BotOk mac network s.history (s.bots b)
  cursor : ∀ b, s.cursors b ≤ s.history.length
  watched : ∀ b, Delivered (Applied mac network (s.bots b)) (s.cursors b) s.history

theorem inv_init : Inv mac network (init ι) where
  net := PutNewer.inv_init
  chain := trivial
  stored := by simp [init, history, PutNewer.Net.init]
  puts := by simp [init, PutNewer.Calls, PutNewer.Net.init]
  bots := fun b => ⟨ChannelManager.merged_init, by simp [init, ChannelManager.init]⟩
  cursor := by simp [init]
  watched := fun b => Delivered.zero _ _

theorem Stored.mono {history history' : List (Str × Json)} {r : ChannelRecord}
    (h : Stored mac network history r) (hsub : ∀ x ∈ history, x ∈ history') :
    Stored mac network history' r := ⟨h.1, hsub _ h.2⟩

theorem BotOk.mono {history history' : List (Str × Json)} {m : ChannelManager}
    (h : BotOk mac network history m) (hsub : ∀ x ∈ history, x ∈ history') :
    BotOk mac network history' m :=
  ⟨h.merged, fun a r ha => (h.source a r ha).mono hsub⟩

theorem PutOk.mono {history history' : List (Str × Json)} {c : ChannelPut ι}
    (h : PutOk mac network history c) (hsub : ∀ x ∈ history, x ∈ history') :
    PutOk mac network history' c := by
  intro e he
  obtain ⟨hlt, r, hr, hrest⟩ := h e he
  exact ⟨hlt, r, hr.mono hsub, hrest⟩

theorem BotOk.applyRecord {history : List (Str × Json)} {m : ChannelManager}
    (h : BotOk mac network history m) (link : IrcLink) {record : ChannelRecord}
    (hr : Stored mac network history record) :
    BotOk mac network history (m.applyRecord link record) where
  merged := h.merged.applyRecord link record
  source := by
    intro a r ha
    rcases m.applyRecord_source link record ha with hold | rfl
    · exact h.source a r hold
    · exact hr

/-- A stored value is read back and applied. -/
theorem applyStored_signed (m : ChannelManager) (link : IrcLink) {r : ChannelRecord}
    (hr : r.Valid) : m.applyStored link (signedRecord mac network r) = m.applyRecord link r := by
  simp only [ChannelManager.applyStored, signedRecord, ChannelRecord.parse_asdict hr]

variable {s t : ChannelMesh ι}

/-- Records of one key with one revision are one record. -/
theorem Inv.unique (h : Inv mac network s) {k : Str} {r r' : ChannelRecord}
    (hr : (k, signedRecord mac network r) ∈ s.history)
    (hr' : (k, signedRecord mac network r') ∈ s.history) (hrev : r.revision = r'.revision) :
    r = r' := by
  have hne : ∀ x y : ChannelRecord, x.revision = y.revision →
      ¬ Succeeds mac network k (signedRecord mac network x) (signedRecord mac network y) := by
    rintro x y hxy ⟨x', y', hx, hy, hlt, -⟩
    obtain rfl := ChannelRecord.signedRecord_injective hx
    obtain rfl := ChannelRecord.signedRecord_injective hy
    exact hlt.ne hxy
  rcases h.chain.comparable succeeds_trans hr hr' with heq | hsucc | hsucc
  · exact ChannelRecord.signedRecord_injective heq
  · exact absurd hsucc (hne r r' hrev)
  · exact absurd hsucc (hne r' r hrev.symm)

/-- What a put may replace is the record it names, and is older than its own. -/
theorem Inv.succeeds (h : Inv mac network s) (hmac : ∀ t, hexText 64 (mac t))
    {c : ChannelPut ι} (hc : PutNewer.Calls s.net c) {v : Json}
    (hv : (putKey mac c, v) ∈ s.history) (hnewer : putNewer mac network c v = true) :
    ∃ r, v = signedRecord mac network r ∧ c.expected = some r.revision ∧
      Succeeds mac network (putKey mac c) v (putData mac network c) := by
  obtain ⟨r, hvalid, hkey, rfl⟩ := h.stored _ _ hv
  have hexpected : c.expected = some r.revision := by
    rw [putNewer, channelNewer, hkey, ChannelRecord.order_signed hvalid hmac] at hnewer
    exact (of_decide_eq_true hnewer).symm
  obtain ⟨hlt, r', hr', hrev, hfold⟩ := h.puts c hc _ hexpected
  have hr'mem : (putKey mac c, signedRecord mac network r') ∈ s.history := by
    have hkeys : channelKey mac r'.channel = putKey mac c := by
      rw [putKey, channelKey, channelKey, hfold]
    rw [← hkeys]
    exact hr'.2
  obtain rfl := h.unique hr'mem hv hrev
  refine ⟨r', rfl, hexpected, r', c.record, rfl, rfl, hlt, hfold⟩

/-- A step of a put, before its caller hears of it. -/
theorem Inv.moves (h : Inv mac network s) (hmac : ∀ t, hexText 64 (mac t))
    {net : PutNewer.Net (ChannelPut ι) Str Json}
    {o : Option (PutNewer.Outcome (ChannelPut ι) Json)}
    (hst : PutNewer.Moves (putKey mac) (putData mac network) (putNewer mac network) s.net net o) :
    Inv mac network { s with net := net } := by
  have hnet := h.net.moves (fun _ _ _ hn => hn) hst
  have hcalls := (PutNewer.calls_of_moves hst).1
  rcases h.net.grows hst with heq | ⟨w, hw, heq, hnewer⟩
  · have hhistory : ({ s with net := net } : ChannelMesh ι).history = s.history := heq
    constructor
    · exact hnet
    · rw [hhistory]
      exact h.chain
    · rw [hhistory]
      exact h.stored
    · rw [hhistory]
      exact fun c hc => h.puts c (hcalls c hc)
    · rw [hhistory]
      exact h.bots
    · rw [hhistory]
      exact h.cursor
    · rw [hhistory]
      exact h.watched
  · have hhistory : ({ s with net := net } : ChannelMesh ι).history =
        (putKey mac w.caller, putData mac network w.caller) :: s.history := heq
    have hsub : ∀ x ∈ s.history, x ∈ (putKey mac w.caller, putData mac network w.caller) ::
        s.history := fun x hx => List.mem_cons_of_mem _ hx
    have hw' : PutNewer.Calls s.net w.caller := .inr ⟨w, hw, rfl⟩
    constructor
    · exact hnet
    · rw [hhistory, chain_cons]
      refine ⟨fun e he => ?_, h.chain⟩
      obtain ⟨r, -, -, hsucc⟩ := h.succeeds hmac hw' (Holds.of_entry he).mem (hnewer e he)
      exact hsucc
    · rw [hhistory]
      intro k v hkv
      rcases List.mem_cons.mp hkv with heq | hkv
      · obtain ⟨rfl, rfl⟩ := Prod.mk.inj heq
        exact ⟨w.caller.record, w.caller.valid, rfl, rfl⟩
      · exact h.stored k v hkv
    · rw [hhistory]
      exact fun c hc => (h.puts c (hcalls c hc)).mono hsub
    · rw [hhistory]
      exact fun b => (h.bots b).mono hsub
    · rw [hhistory]
      exact fun b => (h.cursor b).trans (Nat.le_succ _)
    · rw [hhistory]
      exact fun b => (h.watched b).write (h.cursor b) _ _

section Steps

variable [DecidableEq ι]

/-- A bot changes: its source records stay as new as they were. -/
theorem Inv.setBot (h : Inv mac network s) {b : ι} {m : ChannelManager}
    (hm : BotOk mac network s.history m)
    (hmono : ∀ name revision,
      ChannelManager.atLeast (s.bots b).sourceRecords name revision = true →
        ChannelManager.atLeast m.sourceRecords name revision = true) :
    Inv mac network (s.setBot b m) := by
  refine { h with bots := fun c => ?_, watched := fun c => ?_ }
  · by_cases hc : c = b
    · subst hc
      rw [setBot_bots_self]
      exact hm
    · rw [setBot_bots_of_ne s m hc]
      exact h.bots c
  · by_cases hc : c = b
    · subst hc
      rw [setBot_bots_self]
      exact (h.watched c).mono (fun k v hv r hr => hmono _ _ (hv r hr)) le_rfl
    · rw [setBot_bots_of_ne s m hc]
      exact h.watched c

/-- A bot changes without a change of its source records. -/
theorem Inv.setBot_of_source (h : Inv mac network s) {b : ι} {m : ChannelManager}
    (hm : m.Merged) (hs : m.sourceRecords = (s.bots b).sourceRecords) :
    Inv mac network (s.setBot b m) := by
  refine h.setBot ⟨hm, fun a r ha => ?_⟩ fun name revision hat => ?_
  · rw [hs] at ha
    exact (h.bots b).source a r ha
  · rwa [hs]

theorem Inv.applyRecord (h : Inv mac network s) (b : ι) (link : IrcLink) {r : ChannelRecord}
    (hr : Stored mac network s.history r) {m : ChannelManager} (hm : m.Merged)
    (hs : m.sourceRecords = (s.bots b).sourceRecords) :
    Inv mac network (s.setBot b (m.applyRecord link r)) := by
  have hok : BotOk mac network s.history m := by
    refine ⟨hm, fun a r ha => ?_⟩
    rw [hs] at ha
    exact (h.bots b).source a r ha
  refine h.setBot (hok.applyRecord link hr) fun name revision hat => ?_
  apply ChannelManager.applyRecord_atLeast
  rwa [hs]

/-- A put is called with a record minted by the bot. -/
theorem Inv.startPut (h : Inv mac network s) {b : ι} {m : ChannelManager} {channel : Str}
    {record : ChannelRecord} (hm : ChannelManager.Minted (s.bots b) m channel record)
    (keyed : Bool) :
    Inv mac network ((s.setBot b m).startPut b record ((s.bots b).durableRevision channel)
      keyed) := by
  have hbot := h.setBot_of_source hm.merged hm.source
  unfold ChannelMesh.startPut
  rw [dif_pos hm.valid]
  refine { hbot with net := hbot.net.start _, puts := fun c hc => ?_ }
  rcases PutNewer.calls_start hc with hc | rfl
  · exact h.puts c hc
  · intro e he
    refine ⟨hm.newer e he, ?_⟩
    obtain ⟨r, hr, rfl⟩ := Option.map_eq_some_iff.mp he
    refine ⟨r, (h.bots b).source _ r hr, rfl, ?_⟩
    rw [hm.named]
    exact ((h.bots b).merged.named _ r hr).symm

/-- A put returns a stored record, which its bot applies, or raises. -/
theorem Inv.finish (h : Inv mac network s) (link : IrcLink)
    {o : PutNewer.Outcome (ChannelPut ι) Json}
    (ho : ∀ v, o.result = some v → (putKey mac o.caller, v) ∈ s.history) :
    Inv mac network (s.finish link o) := by
  have hmerged := (h.bots o.caller.bot).merged
  unfold ChannelMesh.finish
  cases hresult : o.result with
  | none =>
    cases o.caller.keyed with
    | true => exact h.setBot_of_source (hmerged.congr rfl rfl rfl) rfl
    | false => exact h.setBot_of_source hmerged rfl
  | some v =>
    obtain ⟨r, hvalid, hkey, rfl⟩ := h.stored _ _ (ho v hresult)
    have hr : Stored mac network s.history r := ⟨hvalid, hkey ▸ ho _ hresult⟩
    cases o.caller.keyed with
    | true =>
      simp only [ChannelManager.keyStored, applyStored_signed _ _ hvalid]
      exact h.applyRecord _ link hr (hmerged.congr rfl rfl rfl) rfl
    | false =>
      simp only [applyStored_signed _ _ hvalid]
      exact h.applyRecord _ link hr hmerged rfl

theorem Inv.setCursor (h : Inv mac network s) {b : ι} {n : ℕ} (hn : n ≤ s.history.length)
    (hd : Delivered (Applied mac network (s.bots b)) n s.history) :
    Inv mac network (s.setCursor b n) := by
  refine { h with cursor := fun c => ?_, watched := fun c => ?_ }
  · by_cases hc : c = b
    · subst hc
      rw [setCursor_cursors_self]
      exact hn
    · rw [setCursor_cursors_of_ne s n hc]
      exact h.cursor c
  · by_cases hc : c = b
    · subst hc
      rw [setCursor_cursors_self]
      exact hd
    · rw [setCursor_cursors_of_ne s n hc]
      exact h.watched c

/-- The watch hands its next write to the bot. -/
theorem Inv.deliver (h : Inv mac network s) (hmac : ∀ t, hexText 64 (mac t)) {b : ι}
    (link : IrcLink) {key : Str} {value : Json}
    (hnth : nth (s.cursors b + 1) s.history = some (key, value)) :
    Inv mac network ((s.setBot b (watchChannels mac network (s.bots b) link key value)).setCursor
      b (s.cursors b + 1)) := by
  have hheld := holds_of_nth hnth
  obtain ⟨r, hvalid, hkey, rfl⟩ := h.stored _ _ hheld.mem
  have hr : Stored mac network s.history r := ⟨hvalid, hkey ▸ hheld.mem⟩
  have happly : watchChannels mac network (s.bots b) link key (signedRecord mac network r) =
      (s.bots b).applyRecord link r := by
    rw [watchChannels, hkey, ChannelRecord.order_signed hvalid hmac,
      applyStored_signed _ _ hvalid]
    rfl
  rw [happly]
  have hbot := h.applyRecord b link hr (h.bots b).merged rfl
  refine hbot.setCursor hheld.revision_le ((hbot.watched b).next hnth fun r' hr' => ?_)
  obtain rfl := ChannelRecord.signedRecord_injective hr'
  rw [setBot_bots_self]
  exact (s.bots b).applyRecord_atLeast_self link _

/-- Every step keeps the invariant. -/
theorem Inv.step (h : Inv mac network s) (hmac : ∀ t, hexText 64 (mac t)) {a : ChannelStep ι}
    (hst : step mac network modes s a = some t) : Inv mac network t := by
  cases a with
  | update b channel key present suffix =>
    simp only [ChannelMesh.step] at hst
    split_ifs at hst with hs
    split at hst
    · obtain rfl := Option.some.inj hst
      exact h
    · rename_i m record hu
      obtain rfl := Option.some.inj hst
      exact h.startPut ((h.bots b).merged.channelUpdate hs hu) false
  | writeKey b channel key suffix =>
    simp only [ChannelMesh.step] at hst
    split_ifs at hst with hs
    split at hst
    · obtain rfl := Option.some.inj hst
      exact h
    · rename_i m hw
      obtain rfl := Option.some.inj hst
      obtain ⟨hmerged, hsource, -⟩ := (h.bots b).merged.writeKey hs hw
      exact h.setBot_of_source hmerged hsource
    · rename_i m record hw
      obtain rfl := Option.some.inj hst
      obtain ⟨-, -, hminted⟩ := (h.bots b).merged.writeKey hs hw
      exact h.startPut (hminted record rfl) true
  | net a link =>
    simp only [ChannelMesh.step] at hst
    split at hst
    · simp at hst
    · rename_i net hnet
      obtain rfl := Option.some.inj hst
      exact h.moves hmac (PutNewer.moves_of_step hnet)
    · rename_i net o hnet
      obtain rfl := Option.some.inj hst
      have hmoves := PutNewer.moves_of_step hnet
      refine (h.moves hmac hmoves).finish link fun v hv => ?_
      obtain ⟨hmem, heq, -⟩ := h.net.returned hmoves hv
      have hhistory : ({ s with net := net } : ChannelMesh ι).history = s.history := heq
      rw [hhistory]
      exact hmem
  | deliver b link =>
    simp only [ChannelMesh.step] at hst
    split at hst
    · simp at hst
    · rename_i key value hnth
      obtain rfl := Option.some.inj hst
      exact h.deliver hmac link hnth
  | skip b =>
    simp only [ChannelMesh.step] at hst
    split at hst
    · simp at hst
    · rename_i key value hnth
      split_ifs at hst with hold
      obtain rfl := Option.some.inj hst
      exact h.setCursor (holds_of_nth hnth).revision_le ((h.watched b).skip hnth hold)
  | rewind b cursor =>
    simp only [ChannelMesh.step] at hst
    split_ifs at hst with hc
    obtain rfl := Option.some.inj hst
    exact h.setCursor (hc.trans (h.cursor b)) ((h.watched b).mono (fun _ _ hv => hv) hc)
  | casemapping b value =>
    obtain rfl := Option.some.inj hst
    exact h.setBot_of_source ((h.bots b).merged.setCasemapping value) (by simp)
  | disconnect b =>
    obtain rfl := Option.some.inj hst
    exact h.setBot_of_source (h.bots b).merged.disconnect (by simp)
  | live b channel change =>
    obtain rfl := Option.some.inj hst
    exact h.setBot_of_source ((h.bots b).merged.mapRuntime channel change) (by simp)

omit [DecidableEq ι] in
theorem startPut_history (s : ChannelMesh ι) (b : ι) (record : ChannelRecord)
    (expected : Option Str) (keyed : Bool) :
    (s.startPut b record expected keyed).history = s.history := by
  unfold ChannelMesh.startPut
  split_ifs <;> rfl

/-- Only a step of a put writes to the bucket. -/
theorem step_history {a : ChannelStep ι} (hst : ChannelMesh.step mac network modes s a = some t) :
    t.history = s.history ∨ ∃ net o, t.history = net.history ∧
      PutNewer.Moves (putKey mac) (putData mac network) (putNewer mac network) s.net net o := by
  cases a with
  | net a link =>
    simp only [ChannelMesh.step] at hst
    split at hst
    · simp at hst
    · rename_i net hnet
      obtain rfl := Option.some.inj hst
      exact .inr ⟨net, none, rfl, PutNewer.moves_of_step hnet⟩
    · rename_i net o hnet
      obtain rfl := Option.some.inj hst
      exact .inr ⟨net, some o, rfl, PutNewer.moves_of_step hnet⟩
  | update b channel key present suffix =>
    simp only [ChannelMesh.step] at hst
    split_ifs at hst
    split at hst <;> obtain rfl := Option.some.inj hst
    · exact .inl rfl
    · exact .inl (by rw [startPut_history]; rfl)
  | writeKey b channel key suffix =>
    simp only [ChannelMesh.step] at hst
    split_ifs at hst
    split at hst <;> obtain rfl := Option.some.inj hst
    · exact .inl rfl
    · exact .inl rfl
    · exact .inl (by rw [startPut_history]; rfl)
  | deliver b link =>
    simp only [ChannelMesh.step] at hst
    split at hst
    · simp at hst
    · obtain rfl := Option.some.inj hst
      exact .inl rfl
  | skip b =>
    simp only [ChannelMesh.step] at hst
    split at hst
    · simp at hst
    · split_ifs at hst
      obtain rfl := Option.some.inj hst
      exact .inl rfl
  | rewind b cursor =>
    simp only [ChannelMesh.step] at hst
    split_ifs at hst
    obtain rfl := Option.some.inj hst
    exact .inl rfl
  | casemapping b value | disconnect b | live b channel change =>
    obtain rfl := Option.some.inj hst
    exact .inl rfl

/-- A write that replaces a record named its revision, and is newer. -/
theorem Inv.replaced (h : Inv mac network s) (hmac : ∀ t, hexText 64 (mac t))
    {a : ChannelStep ι} (hst : ChannelMesh.step mac network modes s a = some t) {k : Str}
    {e e' : Entry Json} (he : entry k s.history = some e) (he' : entry k t.history = some e')
    (hne : e' ≠ e) :
    ∃ w ∈ s.net.flight, ∃ r, e.value = signedRecord mac network r ∧
      e'.value = signedRecord mac network w.caller.record ∧
      w.caller.expected = some r.revision ∧ r.revision < w.caller.record.revision := by
  rcases step_history hst with heq | ⟨net, o, heq, hmoves⟩
  · rw [heq, he] at he'
    exact absurd (Option.some.inj he').symm hne
  rcases h.net.grows hmoves with hsame | ⟨w, hw, hcons, hnewer⟩
  · rw [heq, hsame] at he'
    exact absurd (Option.some.inj (he'.symm.trans he)) hne
  · rw [heq, hcons] at he'
    by_cases hk : putKey mac w.caller = k
    · subst hk
      rw [entry_cons_self] at he'
      obtain rfl := Option.some.inj he'
      have hcalls : PutNewer.Calls s.net w.caller := .inr ⟨w, hw, rfl⟩
      obtain ⟨r, hr, hexpected, x, y, hx, hy, hlt, -⟩ :=
        h.succeeds hmac hcalls (Holds.of_entry he).mem (hnewer e he)
      obtain rfl := ChannelRecord.signedRecord_injective (hr.symm.trans hx)
      obtain rfl := ChannelRecord.signedRecord_injective hy
      exact ⟨w, hw, r, hr, rfl, hexpected, hlt⟩
    · rw [entry_cons_of_ne _ _ hk] at he'
      exact absurd (Option.some.inj (he'.symm.trans he)) hne

end Steps

/-- The stored record of a known one's key is at least as new, and of the same channel. -/
theorem Inv.current (h : Inv mac network s) {r : ChannelRecord}
    (hr : Stored mac network s.history r) : ∃ e r',
      entry (channelKey mac r.channel) s.history = some e ∧
      e.value = signedRecord mac network r' ∧ r.revision ≤ r'.revision ∧
      casefold r.channel .ascii = casefold r'.channel .ascii := by
  obtain ⟨e, he, hsame | hsucc⟩ := h.chain.current succeeds_trans hr.2
  · exact ⟨e, r, he, hsame, le_rfl, rfl⟩
  · obtain ⟨x, r', hx, hr', hlt, hfold⟩ := hsucc
    obtain rfl := ChannelRecord.signedRecord_injective hx
    exact ⟨e, r', he, hr', hlt.le, hfold⟩

/-- A bot whose watch has passed every write knows the stored record of every key. -/
theorem Inv.agrees (h : Inv mac network s) {b : ι} (hb : s.cursors b = s.history.length) {k : Str}
    {e : Entry Json} (he : entry k s.history = some e) :
    ∃ r, e.value = signedRecord mac network r ∧ k = channelKey mac r.channel ∧
      Assoc.lookup (casefold r.channel .ascii) (s.bots b).sourceRecords = some r := by
  obtain ⟨r, hvalid, hkey, hr⟩ := h.stored k e.value (Holds.of_entry he).mem
  refine ⟨r, hr, hkey, ?_⟩
  obtain ⟨r', hr', hle⟩ := ChannelManager.atLeast_iff.mp ((h.watched b).all hb.ge he r hr)
  have hstored := (h.bots b).source _ r' hr'
  have hname := (h.bots b).merged.named _ r' hr'
  obtain ⟨e', r'', he', hr'', hle', -⟩ := h.current hstored
  have hkeys : channelKey mac r'.channel = k := by
    rw [hkey, channelKey, channelKey, hname]
  rw [hkeys, he] at he'
  obtain rfl := Option.some.inj he'
  obtain rfl := ChannelRecord.signedRecord_injective (hr.symm.trans hr'')
  have hmem : (k, signedRecord mac network r') ∈ s.history := hkeys ▸ hstored.2
  obtain rfl := h.unique hmem (hr ▸ (Holds.of_entry he).mem) (le_antisymm hle' hle)
  exact hr'

end Safety

/-- Channel records form a compare-and-set chain and converge. In every reachable
state, a step that replaces a stored record performs a write whose `expected` is
exactly that record's revision, and whose own revision is greater; no bot knows a
record newer than the stored one; and a bot whose watch has passed every write
agrees with the bucket on every key. -/
theorem records_converge [DecidableEq ι] (mac : Str → Str) (network modes : Str)
    (hmac : ∀ t, hexText 64 (mac t)) (s : ChannelMesh ι)
    (hs : Machine.Reachable (step mac network modes) (init ι) s) :
    (∀ a t, step mac network modes s a = some t → ∀ k e e', entry k s.history = some e →
      entry k t.history = some e' → e' ≠ e →
      ∃ w ∈ s.net.flight, ∃ r, e.value = signedRecord mac network r ∧
        e'.value = signedRecord mac network w.caller.record ∧
        w.caller.expected = some r.revision ∧ r.revision < w.caller.record.revision) ∧
    (∀ b a r, Assoc.lookup a (s.bots b).sourceRecords = some r →
      ∃ e r', entry (channelKey mac a) s.history = some e ∧
        e.value = signedRecord mac network r' ∧ r.revision ≤ r'.revision) ∧
    ∀ b, s.cursors b = s.history.length →
      (∀ k e, entry k s.history = some e →
        ∃ r, e.value = signedRecord mac network r ∧ k = channelKey mac r.channel ∧
          Assoc.lookup (casefold r.channel .ascii) (s.bots b).sourceRecords = some r) ∧
      ∀ a r, Assoc.lookup a (s.bots b).sourceRecords = some r →
        ∃ e, entry (channelKey mac a) s.history = some e ∧
          e.value = signedRecord mac network r := by
  have h : Inv mac network s := hs.invariant (fun _ _ _ h hst => h.step hmac hst) inv_init
  have hcurrent : ∀ b a r, Assoc.lookup a (s.bots b).sourceRecords = some r →
      ∃ e r', entry (channelKey mac a) s.history = some e ∧
        e.value = signedRecord mac network r' ∧ r.revision ≤ r'.revision ∧
        a = casefold r'.channel .ascii := by
    intro b a r ha
    have hname := (h.bots b).merged.named a r ha
    obtain ⟨e, r', he, hr', hle, hfold⟩ := h.current ((h.bots b).source a r ha)
    refine ⟨e, r', ?_, hr', hle, hname.trans hfold⟩
    rw [channelKey, hname, casefold_ascii]
    exact he
  refine ⟨fun a t hst k e e' he he' hne => h.replaced hmac hst he he' hne, ?_, ?_⟩
  · intro b a r ha
    obtain ⟨e, r', he, hr', hle, -⟩ := hcurrent b a r ha
    exact ⟨e, r', he, hr', hle⟩
  · intro b hb
    refine ⟨fun k e he => h.agrees hb he, fun a r ha => ?_⟩
    obtain ⟨e, r', he, hr', -, hname⟩ := hcurrent b a r ha
    obtain ⟨r'', hr'', -, hknown⟩ := h.agrees hb he
    obtain rfl := ChannelRecord.signedRecord_injective (hr'.symm.trans hr'')
    rw [← hname, ha] at hknown
    rw [Option.some.inj hknown]
    exact ⟨e, he, hr'⟩

/-- One bot joins a channel; then a command of the other bot and a key write race, the
command wins, and the loser takes the winner. -/
def sampleRace : List (ChannelStep Bool) :=
  let link : IrcLink := ⟨true, false, true⟩
  let put := fun a => ChannelStep.net a link
  [.update false (lit "#a") none true (List.replicate 32 97),
    put (.serve 0), put (.judge 0), put (.land 0), put (.resume 0),
    .deliver false link, .deliver true link,
    .update true (lit "#A") (some (lit "k")) true (List.replicate 32 98),
    .writeKey false (lit "#a") (some (lit "x")) (List.replicate 32 99),
    put (.serve 1), put (.judge 1), put (.serve 2), put (.judge 2), put (.land 1), put (.land 0),
    put (.resume 2), put (.serve 2), put (.judge 2), put (.resume 1),
    .deliver false link, .deliver true link]

theorem records_converge_race : ∃ s,
    Machine.run (step sampleMac (lit "net") []) (init Bool) sampleRace = some s ∧
      s.history.length = 2 ∧ ∀ b k e, entry k s.history = some e →
        ∃ r, e.value = signedRecord sampleMac (lit "net") r ∧ k = channelKey sampleMac r.channel ∧
          Assoc.lookup (casefold r.channel .ascii) (s.bots b).sourceRecords = some r := by
  have hrun : (Machine.run (step sampleMac (lit "net") []) (init Bool) sampleRace).map
      (fun s => (s.history.length, s.cursors false, s.cursors true)) = some (2, 2, 2) := by
    decide +kernel
  obtain ⟨s, hs, hlen⟩ := Option.map_eq_some_iff.mp hrun
  obtain ⟨hlength, hfalse, htrue⟩ : s.history.length = 2 ∧ s.cursors false = 2 ∧
    s.cursors true = 2 := by simpa using hlen
  refine ⟨s, hs, hlength, fun b => ?_⟩
  refine ((records_converge sampleMac (lit "net") [] sampleMac_hex s ⟨sampleRace, hs⟩).2.2 b
    ?_).1
  cases b with
  | false => rw [hfalse, hlength]
  | true => rw [htrue, hlength]

end ChannelMesh

end Botnats
