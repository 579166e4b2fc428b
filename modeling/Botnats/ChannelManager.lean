import Botnats.ChannelRecord
import Botnats.Assoc

/-!
# The channel manager

The records a bot knows, twice: `sourceRecords` under the ASCII fold that keys the
store, `channelRecords` under the IRC fold, where equivalent names merge. A write
names the revision under its own key and is minted after the merged record; `Merged`
is what makes the second at least the first, and every step keeps it.
-/
namespace Botnats

open Json

inductive JoinState
  | idle
  | joining
  | joined
  deriving DecidableEq

/-- `ChannelMember`; the modes are a set of letters. -/
structure ChannelMember where
  nick : Str
  modes : List CodePoint
  ircPrefix : Option Prefix
  deriving DecidableEq

/-- What `ChannelRuntime` holds of a desired channel: the name, the key, the join state,
and the members and ban masks under their folds. -/
structure ChannelRuntime where
  channel : Str
  key : Option Str
  join : JoinState
  casemapping : Casemapping
  members : List (Str × ChannelMember)
  bans : List (Str × Str)
  deriving DecidableEq

/-- What the IRC connection answers while a step runs: whether the bot is registered
with an identity, whether a pending JOIN timed out, and whether a line is taken. -/
structure IrcLink where
  ready : Bool
  late : Bool
  sends : Bool

namespace ChannelRuntime

/-- The runtime of a channel that the bot has not joined. -/
def fresh (casemapping : Casemapping) (channel : Str) (key : Option Str) : ChannelRuntime :=
  ⟨channel, key, .idle, casemapping, [], []⟩

def joined (c : ChannelRuntime) : Bool := c.join = .joined

/-- `join_due` -/
def joinDue (c : ChannelRuntime) (link : IrcLink) : Bool :=
  c.join = .idle || (c.join = .joining && link.late)

/-- `safe_join` -/
def safeJoin (c : ChannelRuntime) (link : IrcLink) : ChannelRuntime :=
  if link.sends then { c with join := .joining } else c

/-- `refuse_join` -/
def refuseJoin (c : ChannelRuntime) : ChannelRuntime :=
  if c.join = .joining then { c with join := .idle } else c

/-- `reset` -/
def reset (c : ChannelRuntime) : ChannelRuntime :=
  { c with join := .idle, members := [], bans := [] }

/-- `set_key` and its answer -/
def setKey (c : ChannelRuntime) (key : Option Str) : ChannelRuntime × Bool :=
  match key.mapM validateKey with
  | .error _ => (c, false)
  | .ok _ => ({ c with key := key }, true)

end ChannelRuntime

/-- The fields of `ChannelManager` that change, with the casemapping in force. -/
structure ChannelManager where
  casemapping : Casemapping
  channelRecords : List (Str × ChannelRecord)
  sourceRecords : List (Str × ChannelRecord)
  channels : List (Str × ChannelRuntime)
  pendingParts : List (Str × Str)
  pendingKeys : List (Str × Str)
  lastRevision : ℕ

namespace ChannelManager

def init : ChannelManager := ⟨defaultCasemapping, [], [], [], [], [], 0⟩

def fold (m : ChannelManager) (channel : Str) : Str := casefold channel m.casemapping

/-- The live owner of a desired channel. -/
def runtime (m : ChannelManager) (channel : Str) : Option ChannelRuntime :=
  Assoc.lookup (m.fold channel) m.channels

def mapRuntime (m : ChannelManager) (channel : Str) (f : ChannelRuntime → ChannelRuntime) :
    ChannelManager :=
  match m.runtime channel with
  | none => m
  | some c => { m with channels := Assoc.assign (m.fold channel) (f c) m.channels }

/-- The record under a name is at least as new. -/
def atLeast (records : List (Str × ChannelRecord)) (name revision : Str) : Bool :=
  match Assoc.lookup name records with
  | none => false
  | some r => decide (revision ≤ r.revision)

/-- `apply_record` of a present record over the merged record before it. -/
def applyPresent (m : ChannelManager) (link : IrcLink) (record : ChannelRecord)
    (current : Option ChannelRecord) : ChannelManager :=
  let folded := m.fold record.channel
  let existing := Assoc.lookup folded m.channels
  let c := { existing.getD (.fresh m.casemapping [] none) with channel := record.channel }
  -- a record that carries the old key over leaves the key observed on IRC
  let c := if existing.isNone || current.map ChannelRecord.key ≠ some record.key then
    { c with key := record.key } else c
  let c := if link.ready && c.joinDue link then c.safeJoin link else c
  { m with
    pendingParts := Assoc.discard folded m.pendingParts
    channels := Assoc.assign folded c m.channels }

/-- `apply_record` of a tombstone. -/
def applyParted (m : ChannelManager) (link : IrcLink) (record : ChannelRecord) :
    ChannelManager :=
  let folded := m.fold record.channel
  match Assoc.lookup folded m.channels with
  | none => m
  | some _ =>
    { m with
      channels := Assoc.discard folded m.channels
      pendingParts := if link.sends then m.pendingParts
        else Assoc.assign folded record.channel m.pendingParts }

/-- `apply_record` -/
def applyRecord (m : ChannelManager) (link : IrcLink) (record : ChannelRecord) :
    ChannelManager :=
  let sourceKey := casefold record.channel .ascii
  let folded := m.fold record.channel
  if atLeast m.sourceRecords sourceKey record.revision then m
  else
    let m := { m with sourceRecords := Assoc.assign sourceKey record m.sourceRecords }
    if atLeast m.channelRecords folded record.revision then m
    else
      let current := Assoc.lookup folded m.channelRecords
      let m := { m with channelRecords := Assoc.assign folded record m.channelRecords }
      if record.present then m.applyPresent link record current else m.applyParted link record

/-- One record of the loop of `set_casemapping`. -/
def mergeRecord (casemapping : Casemapping) (records : List (Str × ChannelRecord))
    (record : ChannelRecord) : List (Str × ChannelRecord) :=
  let folded := casefold record.channel casemapping
  if atLeast records folded record.revision then records
  else Assoc.assign folded record records

/-- `set_casemapping` to a known casemapping. -/
def setCasemapping (m : ChannelManager) (casemapping : Casemapping) : ChannelManager :=
  if casemapping = m.casemapping then m
  else
    let records := (m.sourceRecords.map Prod.snd).foldl (mergeRecord casemapping) []
    let joined := (m.channels.map Prod.snd).filter ChannelRuntime.joined
    let channels := (records.filter fun e => e.2.present).map fun e =>
      (e.1, ChannelRuntime.fresh casemapping e.2.channel e.2.key)
    let leaving := (m.pendingParts.map Prod.snd ++ joined.map ChannelRuntime.channel).filter
      fun channel => (Assoc.lookup (casefold channel casemapping) channels).isNone
    { m with
      casemapping := casemapping
      channelRecords := records
      channels := channels
      pendingParts := leaving.foldl
        (fun parts channel => Assoc.assign (casefold channel casemapping) channel parts) [] }

/-- `reset` -/
def reset (m : ChannelManager) : ChannelManager :=
  { m with
    channels := m.channels.map fun e => (e.1, e.2.reset)
    pendingParts := [] }

/-- The channel steps of `Bot.on_irc_disconnect`. -/
def disconnect (m : ChannelManager) : ChannelManager :=
  (m.setCasemapping defaultCasemapping).reset

/-- `join_desired`, once the bot knows its identity; `link` answers for each channel, as
the queue can fill up in between. -/
def joinDesired (m : ChannelManager) (known : Bool) (link : Str → IrcLink) : ChannelManager :=
  if !known then m
  else
    { m with channels := m.channels.map fun e =>
      (e.1, if e.2.joinDue (link e.1) then e.2.safeJoin (link e.1) else e.2) }

/-- `durable_revision` -/
def durableRevision (m : ChannelManager) (channel : Str) : Option Str :=
  (Assoc.lookup (casefold channel .ascii) m.sourceRecords).map ChannelRecord.revision

/-- `new_record` with the suffix it draws -/
def newRecord (m : ChannelManager) (channel : Str) (key : Option Str) (present : Bool)
    (after : Option Str) (suffix : Str) : Except Invalid (ChannelManager × ChannelRecord) :=
  (ChannelRecord.new channel key present after m.lastRevision suffix).map fun r =>
    ({ m with lastRevision := revisionCounter r.revision }, r)

/-- `CommandHandler.channel_update` up to its write; `modes` are the configured ones. -/
def channelUpdate (modes : Str) (m : ChannelManager) (channel : Str) (key : Option Str)
    (present : Bool) (suffix : Str) : Except Invalid (ChannelManager × ChannelRecord) :=
  let line := if present && !modes.isEmpty then
    (formatMessage (lit "MODE") [channel, modes] none).map fun _ => () else .ok ()
  match line with
  | .error e => .error e
  | .ok _ =>
    let current := Assoc.lookup (m.fold channel) m.channelRecords
    let key := if present && key.isNone then (m.runtime channel).bind ChannelRuntime.key else key
    m.newRecord channel key present (current.map ChannelRecord.revision) suffix

/-- `write_key` up to its write: it needs none, or writes a record. -/
def writeKey (m : ChannelManager) (channel : Str) (key : Option Str) (suffix : Str) :
    Except Invalid (ChannelManager × Option ChannelRecord) :=
  let done := ({ m with
    pendingKeys := Assoc.discard (casefold channel .ascii) m.pendingKeys }, none)
  match Assoc.lookup (m.fold channel) m.channelRecords with
  | none => .ok done
  | some current =>
    if !current.present || current.key = key then .ok done
    else (m.newRecord channel key true (some current.revision) suffix).map fun x => (x.1, some x.2)

/-- `write_key` once its write failed. -/
def keyFailed (m : ChannelManager) (channel : Str) : ChannelManager :=
  { m with pendingKeys := Assoc.assign (casefold channel .ascii) channel m.pendingKeys }

/-- `apply_record` of what `from_dict` reads; a value it refuses changes nothing. -/
def applyStored (m : ChannelManager) (link : IrcLink) (stored : Json) : ChannelManager :=
  match parseChannelRecord stored with
  | .ok record => m.applyRecord link record
  | .error _ => m

/-- `write_key` once its write returned the authoritative record. -/
def keyStored (m : ChannelManager) (link : IrcLink) (channel : Str) (stored : Json) :
    ChannelManager :=
  { m with pendingKeys := Assoc.discard (casefold channel .ascii) m.pendingKeys }.applyStored
    link stored

theorem atLeast_iff {records : List (Str × ChannelRecord)} {name revision : Str} :
    atLeast records name revision = true ↔
      ∃ r, Assoc.lookup name records = some r ∧ revision ≤ r.revision := by
  unfold atLeast
  cases Assoc.lookup name records <;> simp

/-- Replacing a record by a newer one loses nothing. -/
theorem atLeast_assign {records : List (Str × ChannelRecord)} {name revision folded : Str}
    {record : ChannelRecord} (hold : atLeast records folded record.revision = false)
    (h : atLeast records name revision = true) :
    atLeast (Assoc.assign folded record records) name revision = true := by
  obtain ⟨r, hr, hle⟩ := atLeast_iff.mp h
  by_cases hn : folded = name
  · subst hn
    rw [atLeast, hr, decide_eq_false_iff_not, not_le] at hold
    refine atLeast_iff.mpr ⟨record, Assoc.lookup_assign_self folded record records, ?_⟩
    exact hle.trans hold.le
  · refine atLeast_iff.mpr ⟨r, ?_, hle⟩
    rw [Assoc.lookup_assign_of_ne record records hn, hr]

theorem atLeast_assign_self (records : List (Str × ChannelRecord)) (folded : Str)
    (record : ChannelRecord) :
    atLeast (Assoc.assign folded record records) folded record.revision = true :=
  atLeast_iff.mpr ⟨record, Assoc.lookup_assign_self folded record records, le_rfl⟩

section Apply

variable (m : ChannelManager) (link : IrcLink) (record : ChannelRecord)

@[simp] theorem mapRuntime_sourceRecords (channel : Str) (f : ChannelRuntime → ChannelRuntime) :
    (m.mapRuntime channel f).sourceRecords = m.sourceRecords := by
  unfold mapRuntime
  split <;> rfl

@[simp] theorem mapRuntime_channelRecords (channel : Str) (f : ChannelRuntime → ChannelRuntime) :
    (m.mapRuntime channel f).channelRecords = m.channelRecords := by
  unfold mapRuntime
  split <;> rfl

@[simp] theorem mapRuntime_casemapping (channel : Str) (f : ChannelRuntime → ChannelRuntime) :
    (m.mapRuntime channel f).casemapping = m.casemapping := by
  unfold mapRuntime
  split <;> rfl

variable {m} in
theorem lookup_mapRuntime {channel f : Str} {change : ChannelRuntime → ChannelRuntime}
    {c' : ChannelRuntime}
    (h : Assoc.lookup f (m.mapRuntime channel change).channels = some c') :
    ∃ c, Assoc.lookup f m.channels = some c ∧
      c' = if m.fold channel = f then change c else c := by
  unfold mapRuntime at h
  split at h
  · rename_i hnone
    refine ⟨c', h, ?_⟩
    rw [if_neg]
    rintro rfl
    exact absurd (hnone.symm.trans h) (by simp)
  · rename_i c hc
    by_cases hf : m.fold channel = f
    · subst hf
      simp only [Assoc.lookup_assign_self, Option.some.injEq] at h
      exact ⟨c, hc, by rw [if_pos rfl, h]⟩
    · simp only [Assoc.lookup_assign_of_ne _ _ hf] at h
      exact ⟨c', h, by rw [if_neg hf]⟩

@[simp] theorem applyParted_sourceRecords :
    (m.applyParted link record).sourceRecords = m.sourceRecords := by
  simp only [applyParted]
  cases Assoc.lookup (m.fold record.channel) m.channels <;> rfl

@[simp] theorem applyParted_channelRecords :
    (m.applyParted link record).channelRecords = m.channelRecords := by
  simp only [applyParted]
  cases Assoc.lookup (m.fold record.channel) m.channels <;> rfl

@[simp] theorem applyParted_casemapping :
    (m.applyParted link record).casemapping = m.casemapping := by
  simp only [applyParted]
  cases Assoc.lookup (m.fold record.channel) m.channels <;> rfl

/-- What `apply_record` does to the records: nothing for a record already known, else
the source record is replaced, and the merged one where it is older. -/
theorem applyRecord_records :
    (atLeast m.sourceRecords (casefold record.channel .ascii) record.revision = true ∧
      m.applyRecord link record = m) ∨
    (atLeast m.sourceRecords (casefold record.channel .ascii) record.revision = false ∧
      (m.applyRecord link record).casemapping = m.casemapping ∧
      (m.applyRecord link record).sourceRecords =
        Assoc.assign (casefold record.channel .ascii) record m.sourceRecords ∧
      (m.applyRecord link record).channelRecords =
        if atLeast m.channelRecords (m.fold record.channel) record.revision then m.channelRecords
        else Assoc.assign (m.fold record.channel) record m.channelRecords) := by
  simp only [applyRecord]
  cases hs : atLeast m.sourceRecords (casefold record.channel .ascii) record.revision with
  | true => exact .inl ⟨rfl, by simp⟩
  | false =>
    refine .inr ⟨rfl, ?_⟩
    cases hc : atLeast m.channelRecords (m.fold record.channel) record.revision with
    | true => simp
    | false => cases record.present <;> simp [applyPresent]

end Apply

/-- Source records sit under their own names, and the merged record of each is at
least as new. -/
structure Merged (m : ChannelManager) : Prop where
  named : ∀ a r, Assoc.lookup a m.sourceRecords = some r → a = casefold r.channel .ascii
  newest : ∀ a r, Assoc.lookup a m.sourceRecords = some r →
    atLeast m.channelRecords (m.fold r.channel) r.revision = true

theorem merged_init : Merged init where
  named := by simp [init]
  newest := by simp [init]

variable {m m' : ChannelManager}

/-- Only the records and the casemapping matter. -/
theorem Merged.congr (h : Merged m) (hc : m'.casemapping = m.casemapping)
    (hs : m'.sourceRecords = m.sourceRecords) (hr : m'.channelRecords = m.channelRecords) :
    Merged m' where
  named := by
    rw [hs]
    exact h.named
  newest := by
    rw [hs, hr]
    intro a r ha
    rw [fold, hc]
    exact h.newest a r ha

theorem Merged.mapRuntime (h : Merged m) (channel : Str) (f : ChannelRuntime → ChannelRuntime) :
    Merged (m.mapRuntime channel f) := h.congr (by simp) (by simp) (by simp)

theorem Merged.applyRecord (h : Merged m) (link : IrcLink) (record : ChannelRecord) :
    Merged (m.applyRecord link record) := by
  rcases m.applyRecord_records link record with ⟨-, heq⟩ | ⟨-, hc, hs, hr⟩
  · rw [heq]
    exact h
  · have hkept : ∀ name revision, atLeast m.channelRecords name revision = true →
        atLeast (m.applyRecord link record).channelRecords name revision = true := by
      intro name revision hold
      rw [hr]
      split_ifs with hat
      · exact hold
      · exact atLeast_assign (Bool.not_eq_true _ ▸ hat) hold
    constructor
    · intro a r ha
      rw [hs] at ha
      by_cases hn : casefold record.channel .ascii = a
      · subst hn
        rw [Assoc.lookup_assign_self] at ha
        rw [Option.some.inj ha]
      · rw [Assoc.lookup_assign_of_ne _ _ hn] at ha
        exact h.named a r ha
    · intro a r ha
      rw [hs] at ha
      rw [fold, hc]
      by_cases hn : casefold record.channel .ascii = a
      · subst hn
        rw [Assoc.lookup_assign_self] at ha
        obtain rfl := Option.some.inj ha
        rw [hr]
        split_ifs with hat
        · exact hat
        · exact atLeast_assign_self _ _ _
      · rw [Assoc.lookup_assign_of_ne _ _ hn] at ha
        exact hkept _ _ (h.newest a r ha)

/-- The loop of `set_casemapping` leaves the newest record of each name. -/
theorem atLeast_foldl (casemapping : Casemapping) (l : List ChannelRecord)
    (records : List (Str × ChannelRecord)) :
    (∀ name revision, atLeast records name revision = true →
      atLeast (l.foldl (mergeRecord casemapping) records) name revision = true) ∧
    ∀ r ∈ l, atLeast (l.foldl (mergeRecord casemapping) records)
      (casefold r.channel casemapping) r.revision = true := by
  induction l generalizing records with
  | nil => exact ⟨fun _ _ h => h, by simp⟩
  | cons r l ih =>
    obtain ⟨hkept, hmem⟩ := ih (mergeRecord casemapping records r)
    have hstep : ∀ name revision, atLeast records name revision = true →
        atLeast (mergeRecord casemapping records r) name revision = true := by
      intro name revision hold
      simp only [mergeRecord]
      split_ifs with hat
      · exact hold
      · exact atLeast_assign (Bool.not_eq_true _ ▸ hat) hold
    refine ⟨fun name revision hold => hkept name revision (hstep name revision hold), ?_⟩
    intro s hs
    rcases List.mem_cons.mp hs with rfl | hs
    · apply hkept
      simp only [mergeRecord]
      split_ifs with hat
      · exact hat
      · exact atLeast_assign_self _ _ _
    · exact hmem s hs

@[simp] theorem setCasemapping_sourceRecords (m : ChannelManager) (casemapping : Casemapping) :
    (m.setCasemapping casemapping).sourceRecords = m.sourceRecords := by
  unfold setCasemapping
  split_ifs <;> rfl

theorem Merged.setCasemapping (h : Merged m) (casemapping : Casemapping) :
    Merged (m.setCasemapping casemapping) := by
  unfold ChannelManager.setCasemapping
  split_ifs with hc
  · exact h
  · refine ⟨h.named, fun a r ha => (atLeast_foldl casemapping _ []).2 r ?_⟩
    exact List.mem_map.mpr ⟨(a, r), Assoc.mem_of_lookup ha, rfl⟩

theorem Merged.disconnect (h : Merged m) : Merged m.disconnect :=
  (h.setCasemapping defaultCasemapping).congr rfl rfl rfl

@[simp] theorem disconnect_sourceRecords (m : ChannelManager) :
    m.disconnect.sourceRecords = m.sourceRecords := setCasemapping_sourceRecords m _

section Sources

variable (m : ChannelManager) (link : IrcLink) (record : ChannelRecord)

/-- Source records only get newer. -/
theorem applyRecord_atLeast {name revision : Str}
    (h : atLeast m.sourceRecords name revision = true) :
    atLeast (m.applyRecord link record).sourceRecords name revision = true := by
  rcases m.applyRecord_records link record with ⟨-, heq⟩ | ⟨hold, -, hs, -⟩
  · rwa [heq]
  · rw [hs]
    exact atLeast_assign hold h

theorem applyRecord_atLeast_self :
    atLeast (m.applyRecord link record).sourceRecords (casefold record.channel .ascii)
      record.revision = true := by
  rcases m.applyRecord_records link record with ⟨hat, heq⟩ | ⟨-, -, hs, -⟩
  · rwa [heq]
  · rw [hs]
    exact atLeast_assign_self _ _ _

theorem applyRecord_source {a : Str} {r : ChannelRecord}
    (h : Assoc.lookup a (m.applyRecord link record).sourceRecords = some r) :
    Assoc.lookup a m.sourceRecords = some r ∨ r = record := by
  rcases m.applyRecord_records link record with ⟨-, heq⟩ | ⟨-, -, hs, -⟩
  · rw [heq] at h
    exact .inl h
  · rw [hs] at h
    by_cases hn : casefold record.channel .ascii = a
    · subst hn
      rw [Assoc.lookup_assign_self] at h
      exact .inr (Option.some.inj h).symm
    · rw [Assoc.lookup_assign_of_ne _ _ hn] at h
      exact .inl h

end Sources

/-- What a record that is to be written carries: it names the channel, and is newer
than the record stored under its key. -/
structure Minted (m m' : ChannelManager) (channel : Str) (record : ChannelRecord) : Prop where
  merged : Merged m'
  source : m'.sourceRecords = m.sourceRecords
  named : record.channel = channel
  valid : record.Valid
  newer : ∀ e, m.durableRevision channel = some e → e < record.revision

/-- A record minted after the merged one is newer than the one stored under its key. -/
theorem Merged.minted (h : Merged m) {channel : Str} {key : Option Str} {present : Bool}
    {suffix : Str} {record : ChannelRecord} (hs : hexText 32 suffix = true)
    (hnew : m.newRecord channel key present ((Assoc.lookup (m.fold channel) m.channelRecords).map
      ChannelRecord.revision) suffix = .ok (m', record)) : Minted m m' channel record := by
  unfold newRecord at hnew
  cases hr : ChannelRecord.new channel key present ((Assoc.lookup (m.fold channel)
      m.channelRecords).map ChannelRecord.revision) m.lastRevision suffix with
  | error e =>
    rw [hr] at hnew
    simp [Except.map] at hnew
  | ok r =>
    rw [hr] at hnew
    obtain ⟨rfl, rfl⟩ := Prod.mk.inj (Except.ok.inj hnew)
    obtain ⟨hchannel, -, -, hvalid, -, hafter⟩ := ChannelRecord.new_eq_ok hs hr
    refine ⟨h.congr rfl rfl rfl, rfl, hchannel, hvalid, fun e he => ?_⟩
    obtain ⟨r', hr', rfl⟩ := Option.map_eq_some_iff.mp he
    obtain ⟨current, hcurrent, hle⟩ := atLeast_iff.mp (h.newest _ r' hr')
    have hfold : m.fold channel = m.fold r'.channel := by
      rw [fold, fold, ← casefold_ascii, h.named _ r' hr', casefold_ascii]
    rw [← hfold] at hcurrent
    exact lt_of_le_of_lt hle (hafter _ (by rw [hcurrent]; rfl))

theorem Merged.channelUpdate (h : Merged m) {modes channel : Str} {key : Option Str}
    {present : Bool} {suffix : Str} {record : ChannelRecord} (hs : hexText 32 suffix = true)
    (hu : m.channelUpdate modes channel key present suffix = .ok (m', record)) :
    Minted m m' channel record := by
  simp only [ChannelManager.channelUpdate] at hu
  split at hu
  · simp at hu
  · exact h.minted hs hu

/-- A key write needs no record, or writes one minted after the merged one. -/
theorem Merged.writeKey (h : Merged m) {channel : Str} {key : Option Str} {suffix : Str}
    {written : Option ChannelRecord} (hs : hexText 32 suffix = true)
    (hw : m.writeKey channel key suffix = .ok (m', written)) :
    Merged m' ∧ m'.sourceRecords = m.sourceRecords ∧
      ∀ record, written = some record → Minted m m' channel record := by
  simp only [ChannelManager.writeKey] at hw
  split at hw
  · obtain ⟨rfl, rfl⟩ := Prod.mk.inj (Except.ok.inj hw)
    exact ⟨h.congr rfl rfl rfl, rfl, by simp⟩
  · rename_i current hcurrent
    split_ifs at hw with hkey
    · obtain ⟨rfl, rfl⟩ := Prod.mk.inj (Except.ok.inj hw)
      exact ⟨h.congr rfl rfl rfl, rfl, by simp⟩
    · cases hr : m.newRecord channel key true (some current.revision) suffix with
      | error e =>
        rw [hr] at hw
        simp [Except.map] at hw
      | ok x =>
        rw [hr] at hw
        obtain ⟨rfl, rfl⟩ := Prod.mk.inj (Except.ok.inj hw)
        have hminted : Minted m x.1 channel x.2 := h.minted hs (by rw [hcurrent]; exact hr)
        refine ⟨hminted.merged, hminted.source, fun record hrecord => ?_⟩
        obtain rfl := Option.some.inj hrecord
        exact hminted

end ChannelManager

end Botnats
