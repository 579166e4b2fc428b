import Botnats.Machine
import Botnats.ChannelManager

/-!
# Observed channel keys

A key seen on IRC is set on the runtime at once, and a task records it; record tasks
and retry ticks take the key lock in the order they came. While the holder of the
lock waits for the store, records, IRC events and further observations come in.
After every step a desired channel's key is in its durable record, or the last task
waiting for that channel carries it, or the channel is pending. The exceptions are
kept in `dropped`: a tick that found the bot outside the channel, a key that makes
no record, a write that lost the race to a record that carries the current key over,
and a write that another record at least as new has overtaken when it returns.
-/
namespace Botnats

inductive KeyTask
  | record (channel : Str) (key : Option Str)
  | retry

/-- The holder of the key lock while it waits for `put_channel`; a retry tick has more
pending names to go through. -/
structure KeyWrite where
  channel : Str
  key : Option Str
  record : ChannelRecord
  expected : Option Str
  rest : List (Str × Str)

/-- `queue` holds the tasks that wait for the lock. `dropped` is kept for the
statements. -/
structure KeyState where
  manager : ChannelManager
  queue : List KeyTask
  writing : Option KeyWrite
  dropped : List Str

/-- `observe` is `process_key`, `tick` a call of `retry_pending_keys`, `next` gives the
lock to the first task, `stored` and `failed` answer the write under way. -/
inductive KeyEvent
  | observe (channel : Str) (key : Option Str)
  | tick
  | next (suffix : Str)
  | stored (value : Json) (link : IrcLink) (suffix : Str)
  | failed
  | apply (record : ChannelRecord) (link : IrcLink)
  | seat (channel : Str) (join : JoinState)
  | joinDesired (known : Bool) (link : Str → IrcLink)
  | welcome
  | disconnect
  | casemapping (value : Casemapping)

namespace ChannelManager

def clearPending (m : ChannelManager) (name : Str) : ChannelManager :=
  { m with pendingKeys := Assoc.discard name m.pendingKeys }

/-- The key in the current durable record of a folded name. -/
def recordKey (m : ChannelManager) (folded : Str) : Option (Option Str) :=
  (Assoc.lookup folded m.channelRecords).map ChannelRecord.key

/-- A name of the channel is in `pending_keys`, under its own ASCII fold. -/
def KeyPending (m : ChannelManager) (folded : Str) : Prop :=
  ∃ channel, (casefold channel .ascii, channel) ∈ m.pendingKeys ∧ m.fold channel = folded

end ChannelManager

namespace KeyState

def init : KeyState := ⟨.init, [], none, []⟩

/-- A record task has the lock. -/
def recordTask (s : KeyState) (channel : Str) (key : Option Str) (suffix : Str) : KeyState :=
  match s.manager.writeKey channel key suffix with
  | .error _ => { s with dropped := channel :: s.dropped }
  | .ok (m, none) => { s with manager := m }
  | .ok (m, some record) =>
    { s with
      manager := m
      writing := some ⟨channel, key, record, s.manager.durableRevision channel, []⟩ }

/-- The loop of `retry_pending_keys`, up to its first write. -/
def retryKeys (suffix : Str) (s : KeyState) : List (Str × Str) → KeyState
  | [] => s
  | (name, channel) :: rest =>
    match s.manager.runtime channel with
    | none => retryKeys suffix { s with manager := s.manager.clearPending name } rest
    | some c =>
      if c.joined then
        match s.manager.writeKey channel c.key suffix with
        | .error _ => { s with dropped := channel :: s.dropped }
        | .ok (m, none) => retryKeys suffix { s with manager := m } rest
        | .ok (m, some record) =>
          { s with
            manager := m
            writing := some ⟨channel, c.key, record, s.manager.durableRevision channel, rest⟩ }
      else
        retryKeys suffix { s with
          manager := s.manager.clearPending name
          dropped := channel :: s.dropped } rest

/-- The write lost the race: another record came back, which carries the key of the
current one over. -/
def lostRace (m : ChannelManager) (w : KeyWrite) (record : ChannelRecord) : Bool :=
  decide (record ≠ w.record ∧ m.recordKey (m.fold w.channel) = some record.key)

/-- When the record comes back, another one at least as new is the current one, with
another key than the written. -/
def overtaken (m : ChannelManager) (w : KeyWrite) (record : ChannelRecord) : Bool :=
  (Assoc.lookup (m.fold w.channel) m.channelRecords).any fun current =>
    decide (current ≠ record ∧ record.revision ≤ current.revision ∧ current.key ≠ w.key)

/-- The write returned a record of the channel's own key in the store. -/
def storedKey (s : KeyState) (w : KeyWrite) (value : Json) (record : ChannelRecord)
    (link : IrcLink) : KeyState :=
  { s with
    manager := s.manager.keyStored link w.channel value
    writing := none
    dropped := if lostRace s.manager w record || overtaken s.manager w record then
      w.channel :: s.dropped else s.dropped }

def step (s : KeyState) : KeyEvent → Option KeyState
  | .observe channel key =>
    match s.manager.runtime channel with
    | none => none
    | some c =>
      if (c.setKey key).2 then
        some { s with
          manager := s.manager.mapRuntime channel fun c => (c.setKey key).1
          queue := s.queue ++ [.record channel key]
          dropped := s.dropped.filter fun name => s.manager.fold name ≠ s.manager.fold channel }
      else some s
  | .tick => some { s with queue := s.queue ++ [.retry] }
  | .next suffix =>
    if s.writing.isNone ∧ hexText 32 suffix then
      match s.queue with
      | [] => none
      | .record channel key :: queue =>
        some ({ s with queue := queue }.recordTask channel key suffix)
      | .retry :: queue =>
        some (retryKeys suffix { s with queue := queue } s.manager.pendingKeys)
    else none
  | .stored value link suffix =>
    match s.writing, parseChannelRecord value with
    | some w, .ok record =>
      if casefold record.channel .ascii = casefold w.channel .ascii ∧ hexText 32 suffix then
        some (retryKeys suffix (s.storedKey w value record link) w.rest)
      else none
    | _, _ => none
  | .failed =>
    match s.writing with
    | none => none
    | some w => some { s with manager := s.manager.keyFailed w.channel, writing := none }
  | .apply record link => some { s with manager := s.manager.applyRecord link record }
  | .seat channel join =>
    some { s with manager := s.manager.mapRuntime channel fun c => { c with join := join } }
  | .joinDesired known link => some { s with manager := s.manager.joinDesired known link }
  | .welcome => some { s with manager := s.manager.reset }
  | .disconnect => some { s with manager := s.manager.disconnect }
  | .casemapping value => some { s with manager := s.manager.setCasemapping value }

/-- The key writes under way and waiting, in order. -/
def tasks (s : KeyState) : List (Str × Option Str) :=
  (s.writing.map fun w => (w.channel, w.key)).toList ++ s.queue.filterMap fun
    | .record channel key => some (channel, key)
    | .retry => none

/-- The key that the last task for a folded name carries. -/
def lastKey (m : ChannelManager) (folded : Str) : List (Str × Option Str) → Option (Option Str)
  | [] => none
  | t :: ts => (lastKey m folded ts).or (if m.fold t.1 = folded then some t.2 else none)

end KeyState

namespace ChannelManager

variable {m : ChannelManager} {link : IrcLink} {record : ChannelRecord}

@[simp] theorem safeJoin_key (c : ChannelRuntime) (link : IrcLink) :
    (c.safeJoin link).key = c.key := by
  unfold ChannelRuntime.safeJoin
  split_ifs <;> rfl

/-- Every desired channel has a present record. -/
def Desired (m : ChannelManager) : Prop :=
  ∀ f c, Assoc.lookup f m.channels = some c →
    ∃ r, Assoc.lookup f m.channelRecords = some r ∧ r.present = true

/-- Every pending name is the ASCII fold of its channel. -/
def PendingNamed (m : ChannelManager) : Prop :=
  ∀ e ∈ m.pendingKeys, e.1 = casefold e.2 .ascii

theorem recordKey_assign (m : ChannelManager) (folded : Str) (record : ChannelRecord) :
    { m with channelRecords := Assoc.assign folded record m.channelRecords }.recordKey folded =
      some record.key := by
  rw [recordKey, Assoc.lookup_assign_self, Option.map_some]

theorem recordKey_assign_of_ne (m : ChannelManager) {folded f : Str} (record : ChannelRecord)
    (h : folded ≠ f) :
    { m with channelRecords := Assoc.assign folded record m.channelRecords }.recordKey f =
      m.recordKey f := by
  rw [recordKey, recordKey, Assoc.lookup_assign_of_ne _ _ h]

/-- The runtime that a present record leaves: it keeps its key only where the record
carries the current key over. -/
theorem applyPresent_runtime {current : Option ChannelRecord} {f : Str} {c' : ChannelRuntime}
    (h : Assoc.lookup f (m.applyPresent link record current).channels = some c') :
    (m.fold record.channel = f ∧ (c'.key = record.key ∨
      ∃ c, Assoc.lookup f m.channels = some c ∧ c'.key = c.key ∧
        current.map ChannelRecord.key = some record.key)) ∨
    (m.fold record.channel ≠ f ∧ Assoc.lookup f m.channels = some c') := by
  by_cases hf : m.fold record.channel = f
  · refine .inl ⟨hf, ?_⟩
    subst hf
    simp only [applyPresent, Assoc.lookup_assign_self, Option.some.injEq] at h
    cases hexisting : Assoc.lookup (m.fold record.channel) m.channels with
    | none =>
      refine .inl ?_
      rw [← h, hexisting]
      split_ifs <;> simp_all
    | some c =>
      rw [hexisting] at h
      by_cases hkey : current.map ChannelRecord.key = some record.key
      · refine .inr ⟨c, rfl, ?_, hkey⟩
        rw [← h]
        split_ifs <;> simp_all
      · refine .inl ?_
        rw [← h]
        split_ifs <;> simp_all
  · refine .inr ⟨hf, ?_⟩
    simpa only [applyPresent, Assoc.lookup_assign_of_ne _ _ hf] using h

theorem applyParted_runtime {f : Str} {c' : ChannelRuntime}
    (h : Assoc.lookup f (m.applyParted link record).channels = some c') :
    m.fold record.channel ≠ f ∧ Assoc.lookup f m.channels = some c' := by
  simp only [applyParted] at h
  cases hexisting : Assoc.lookup (m.fold record.channel) m.channels with
  | none =>
    rw [hexisting] at h
    refine ⟨fun hf => ?_, h⟩
    subst hf
    rw [hexisting] at h
    simp at h
  | some c =>
    rw [hexisting] at h
    by_cases hf : m.fold record.channel = f
    · subst hf
      simp at h
    · rw [Assoc.lookup_discard_of_ne _ hf] at h
      exact ⟨hf, h⟩

/-- `apply_record` leaves the merged records alone, or adopts a present record or a
tombstone. -/
theorem applyRecord_cases (m : ChannelManager) (link : IrcLink) (record : ChannelRecord) :
    (∃ source, m.applyRecord link record = { m with sourceRecords := source }) ∨
    (∃ source, record.present = true ∧ m.applyRecord link record =
      { m with
        sourceRecords := source
        channelRecords := Assoc.assign (m.fold record.channel) record m.channelRecords
      }.applyPresent link record (Assoc.lookup (m.fold record.channel) m.channelRecords)) ∨
    (∃ source, record.present = false ∧ m.applyRecord link record =
      { m with
        sourceRecords := source
        channelRecords := Assoc.assign (m.fold record.channel) record m.channelRecords
      }.applyParted link record) := by
  simp only [applyRecord]
  split_ifs with hs hc hp
  · exact .inl ⟨m.sourceRecords, rfl⟩
  · exact .inl ⟨_, rfl⟩
  · exact .inr (.inl ⟨_, hp, rfl⟩)
  · exact .inr (.inr ⟨_, Bool.not_eq_true _ ▸ hp, rfl⟩)

/-- After a record is applied, a desired channel has the key of its record, or both
are as they were. -/
theorem applyRecord_runtime {f : Str} {c' : ChannelRuntime}
    (h : Assoc.lookup f (m.applyRecord link record).channels = some c') :
    (m.applyRecord link record).recordKey f = some c'.key ∨
      ∃ c, Assoc.lookup f m.channels = some c ∧ c'.key = c.key ∧
        (m.applyRecord link record).recordKey f = m.recordKey f := by
  rcases applyRecord_cases m link record with ⟨source, heq⟩ | ⟨source, -, heq⟩ | ⟨source, -, heq⟩
  · rw [heq] at h ⊢
    exact .inr ⟨c', h, rfl, rfl⟩
  · rw [heq] at h ⊢
    rcases applyPresent_runtime h with ⟨rfl, hkey | ⟨c, hc, hkey, hcurrent⟩⟩ | ⟨hf, hc⟩
    · exact .inl ((recordKey_assign m _ record).trans (congrArg some hkey.symm))
    · exact .inr ⟨c, hc, hkey, (recordKey_assign m _ record).trans hcurrent.symm⟩
    · exact .inr ⟨c', hc, rfl, recordKey_assign_of_ne m record hf⟩
  · rw [heq] at h ⊢
    obtain ⟨hf, hc⟩ := applyParted_runtime h
    refine .inr ⟨c', hc, rfl, ?_⟩
    rw [recordKey, applyParted_channelRecords]
    exact recordKey_assign_of_ne m record hf

theorem Desired.applyRecord (hd : m.Desired) (link : IrcLink) (record : ChannelRecord) :
    (m.applyRecord link record).Desired := by
  intro f c h
  rcases applyRecord_cases m link record with
    ⟨source, heq⟩ | ⟨source, hp, heq⟩ | ⟨source, -, heq⟩
  · rw [heq] at h ⊢
    exact hd f c h
  · rw [heq] at h ⊢
    rcases applyPresent_runtime h with ⟨rfl, -⟩ | ⟨hf, hc⟩
    · exact ⟨record, Assoc.lookup_assign_self _ _ _, hp⟩
    · obtain ⟨r, hr, hpresent⟩ := hd f c hc
      exact ⟨r, (Assoc.lookup_assign_of_ne _ _ hf).trans hr, hpresent⟩
  · rw [heq] at h ⊢
    obtain ⟨hf, hc⟩ := applyParted_runtime h
    obtain ⟨r, hr, hpresent⟩ := hd f c hc
    rw [applyParted_channelRecords]
    exact ⟨r, (Assoc.lookup_assign_of_ne _ _ hf).trans hr, hpresent⟩

theorem distinct_foldl (casemapping : Casemapping) (l : List ChannelRecord)
    (records : List (Str × ChannelRecord)) (h : Assoc.Distinct records) :
    Assoc.Distinct (l.foldl (mergeRecord casemapping) records) := by
  refine List.foldlRecOn l (mergeRecord casemapping) (motive := Assoc.Distinct) h fun d hd r _ => ?_
  simp only [mergeRecord]
  split_ifs
  · exact hd
  · exact hd.assign _ _

/-- A new casemapping makes every runtime from its record. -/
theorem setCasemapping_runtime {casemapping : Casemapping}
    (hne : casemapping ≠ m.casemapping) {f : Str} {c : ChannelRuntime}
    (h : Assoc.lookup f (m.setCasemapping casemapping).channels = some c) :
    ∃ r, Assoc.lookup f (m.setCasemapping casemapping).channelRecords = some r ∧
      r.present = true ∧ r.key = c.key := by
  simp only [setCasemapping, if_neg hne] at h ⊢
  obtain ⟨e, he, heq⟩ := List.mem_map.mp (Assoc.mem_of_lookup h)
  obtain ⟨hmem, hpresent⟩ := List.mem_filter.mp he
  obtain ⟨rfl, rfl⟩ := Prod.mk.inj heq
  exact ⟨e.2, (distinct_foldl _ _ [] List.nodup_nil).lookup hmem, hpresent, rfl⟩

/-- Nothing but join states and pending parts differs, and nothing becomes desired. -/
structure SameKeys (m m' : ChannelManager) : Prop where
  casemapping : m'.casemapping = m.casemapping
  source : m'.sourceRecords = m.sourceRecords
  records : m'.channelRecords = m.channelRecords
  pending : m'.pendingKeys = m.pendingKeys
  runtime : ∀ f c', Assoc.lookup f m'.channels = some c' →
    ∃ c, Assoc.lookup f m.channels = some c ∧ c'.key = c.key

theorem SameKeys.map {m' : ChannelManager} (g : Str → ChannelRuntime → ChannelRuntime)
    (hg : ∀ f c, (g f c).key = c.key)
    (hchannels : m'.channels = m.channels.map fun e => (e.1, g e.1 e.2))
    (hc : m'.casemapping = m.casemapping) (hs : m'.sourceRecords = m.sourceRecords)
    (hr : m'.channelRecords = m.channelRecords) (hp : m'.pendingKeys = m.pendingKeys) :
    SameKeys m m' := by
  refine ⟨hc, hs, hr, hp, fun f c' h => ?_⟩
  rw [hchannels, Assoc.lookup_map_key] at h
  obtain ⟨c, hlookup, rfl⟩ := Option.map_eq_some_iff.mp h
  exact ⟨c, hlookup, hg f c⟩

theorem sameKeys_reset (m : ChannelManager) : SameKeys m m.reset :=
  .map (fun _ => ChannelRuntime.reset) (fun _ _ => rfl) rfl rfl rfl rfl rfl

theorem sameKeys_joinDesired (m : ChannelManager) (known : Bool) (link : Str → IrcLink) :
    SameKeys m (m.joinDesired known link) := by
  unfold joinDesired
  split_ifs
  · exact ⟨rfl, rfl, rfl, rfl, fun f c h => ⟨c, h, rfl⟩⟩
  · refine .map (fun f c => if c.joinDue (link f) then c.safeJoin (link f) else c)
      (fun f c => ?_) rfl rfl rfl rfl rfl
    split_ifs
    · exact safeJoin_key c (link f)
    · rfl

theorem sameKeys_seat (m : ChannelManager) (channel : Str) (join : JoinState) :
    SameKeys m (m.mapRuntime channel fun c => { c with join := join }) := by
  refine ⟨by simp, by simp, by simp, ?_, fun f c' h => ?_⟩
  · unfold mapRuntime
    split <;> rfl
  · obtain ⟨c, hc, rfl⟩ := lookup_mapRuntime h
    refine ⟨c, hc, ?_⟩
    split_ifs <;> rfl

end ChannelManager

namespace KeyState

open ChannelManager

theorem lastKey_append (m : ChannelManager) (f : Str) (ts : List (Str × Option Str))
    (t : Str × Option Str) :
    lastKey m f (ts ++ [t]) = if m.fold t.1 = f then some t.2 else lastKey m f ts := by
  induction ts with
  | nil => simp [lastKey]
  | cons u ts ih =>
    rw [List.cons_append, lastKey, ih, lastKey]
    split_ifs <;> simp

theorem lastKey_congr {m m' : ChannelManager} (h : m'.casemapping = m.casemapping) (f : Str)
    (ts : List (Str × Option Str)) : lastKey m' f ts = lastKey m f ts := by
  induction ts with
  | nil => rfl
  | cons t ts ih => rw [lastKey, lastKey, ih, fold, fold, h]

/-- The key of a desired channel is accounted for: it is in the record, or the last
task carries it, or it is pending and no task is left, or it was dropped. -/
def Kept (m : ChannelManager) (ts : List (Str × Option Str)) (dropped : List Str) (f : Str)
    (key : Option Str) : Prop :=
  m.recordKey f = some key ∨ lastKey m f ts = some key ∨
    (lastKey m f ts = none ∧ m.KeyPending f) ∨ ∃ name ∈ dropped, m.fold name = f

structure Inv (m : ChannelManager) (ts : List (Str × Option Str)) (dropped : List Str) : Prop where
  desired : m.Desired
  named : m.PendingNamed
  merged : m.Merged
  kept : ∀ f c, Assoc.lookup f m.channels = some c → Kept m ts dropped f c.key

variable {m m' : ChannelManager} {ts : List (Str × Option Str)} {dropped : List Str}

theorem inv_init : Inv init.manager init.tasks init.dropped where
  desired := by simp [init, ChannelManager.init, Desired]
  named := by simp [init, ChannelManager.init, PendingNamed]
  merged := merged_init
  kept := by simp [init, ChannelManager.init]

theorem KeyPending.congr {f : Str} (h : m.KeyPending f) (hc : m'.casemapping = m.casemapping)
    (hp : m'.pendingKeys = m.pendingKeys) : m'.KeyPending f := by
  obtain ⟨channel, hmem, hfold⟩ := h
  exact ⟨channel, hp ▸ hmem, by rw [fold, hc]; exact hfold⟩

theorem Kept.congr {f : Str} {key : Option Str} (h : Kept m ts dropped f key)
    (hc : m'.casemapping = m.casemapping) (hr : m'.recordKey f = m.recordKey f)
    (hp : m'.pendingKeys = m.pendingKeys) : Kept m' ts dropped f key := by
  rcases h with h | h | ⟨h, hpending⟩ | ⟨name, hname, hfold⟩
  · exact .inl (hr.trans h)
  · exact .inr (.inl ((lastKey_congr hc f ts).trans h))
  · exact .inr (.inr (.inl ⟨(lastKey_congr hc f ts).trans h, KeyPending.congr hpending hc hp⟩))
  · exact .inr (.inr (.inr ⟨name, hname, by rw [fold, hc]; exact hfold⟩))

theorem Inv.sameKeys (h : Inv m ts dropped) (hs : SameKeys m m') : Inv m' ts dropped where
  desired := by
    intro f c' hc'
    obtain ⟨c, hc, -⟩ := hs.runtime f c' hc'
    rw [hs.records]
    exact h.desired f c hc
  named := by
    intro e he
    exact h.named e (hs.pending ▸ he)
  merged := h.merged.congr hs.casemapping hs.source hs.records
  kept := by
    intro f c' hc'
    obtain ⟨c, hc, hkey⟩ := hs.runtime f c' hc'
    rw [hkey]
    exact (h.kept f c hc).congr hs.casemapping (by rw [recordKey, recordKey, hs.records])
      hs.pending

theorem applyRecord_frame (m : ChannelManager) (link : IrcLink) (record : ChannelRecord) :
    (m.applyRecord link record).casemapping = m.casemapping ∧
      (m.applyRecord link record).pendingKeys = m.pendingKeys := by
  rcases applyRecord_cases m link record with ⟨source, heq⟩ | ⟨source, -, heq⟩ | ⟨source, -, heq⟩
  · rw [heq]
    exact ⟨rfl, rfl⟩
  · rw [heq]
    exact ⟨rfl, rfl⟩
  · rw [heq]
    simp only [applyParted]
    cases Assoc.lookup _ m.channels <;> exact ⟨rfl, rfl⟩

/-- A record of the mesh leaves every key accounted for. -/
theorem Inv.applyRecord (h : Inv m ts dropped) (link : IrcLink) (record : ChannelRecord) :
    Inv (m.applyRecord link record) ts dropped := by
  obtain ⟨hcase, hpending⟩ := applyRecord_frame m link record
  refine ⟨h.desired.applyRecord link record, fun e he => h.named e (hpending ▸ he),
    h.merged.applyRecord link record, ?_⟩
  intro f c' hc'
  rcases applyRecord_runtime hc' with hagree | ⟨c, hc, hkey, hrecord⟩
  · exact .inl hagree
  · rw [hkey]
    exact (h.kept f c hc).congr hcase hrecord hpending

theorem Inv.setCasemapping (h : Inv m ts dropped) (casemapping : Casemapping) :
    Inv (m.setCasemapping casemapping) ts dropped := by
  by_cases hc : casemapping = m.casemapping
  · have hsame : m.setCasemapping casemapping = m := by
      rw [ChannelManager.setCasemapping, if_pos hc]
    rwa [hsame]
  · refine ⟨fun f c hf => ?_, fun e he => ?_, h.merged.setCasemapping _, fun f c hf => ?_⟩
    · obtain ⟨r, hr, hpresent, -⟩ := setCasemapping_runtime hc hf
      exact ⟨r, hr, hpresent⟩
    · simp only [ChannelManager.setCasemapping, if_neg hc] at he
      exact h.named e he
    · obtain ⟨r, hr, -, hkey⟩ := setCasemapping_runtime hc hf
      refine .inl ?_
      rw [recordKey, hr, Option.map_some, hkey]

theorem KeyPending.clear {f channel : Str} (h : m.KeyPending f) (hf : m.fold channel ≠ f) :
    (m.clearPending (casefold channel .ascii)).KeyPending f := by
  obtain ⟨other, hmem, hfold⟩ := h
  refine ⟨other, List.mem_filter.mpr ⟨hmem, decide_eq_true fun heq => hf ?_⟩, hfold⟩
  rw [← hfold, fold, fold, ← casefold_ascii, ← heq, casefold_ascii]

theorem KeyPending.failed {f : Str} (h : m.KeyPending f) (channel : Str) :
    (m.keyFailed channel).KeyPending f := by
  obtain ⟨other, hmem, hfold⟩ := h
  by_cases hname : casefold other .ascii = casefold channel .ascii
  · refine ⟨channel, Assoc.mem_of_lookup (Assoc.lookup_assign_self _ _ _), ?_⟩
    change m.fold channel = f
    rw [← hfold, fold, fold, ← casefold_ascii, ← hname, casefold_ascii]
  · exact ⟨other, Assoc.mem_assign_of_ne _ hmem hname, hfold⟩

theorem PendingNamed.clear (h : m.PendingNamed) (name : Str) :
    (m.clearPending name).PendingNamed :=
  fun e he => h e (List.mem_of_mem_filter he)

theorem merged_clear (h : m.Merged) (name : Str) : (m.clearPending name).Merged :=
  h.congr rfl rfl rfl

/-- A key write is done at once where the record has the key, or is sent. -/
theorem writeKey_cases {channel : Str} {key : Option Str} {suffix : Str}
    {written : Option ChannelRecord} (h : m.writeKey channel key suffix = .ok (m', written)) :
    (written = none ∧ m' = m.clearPending (casefold channel .ascii) ∧
      ∀ r, Assoc.lookup (m.fold channel) m.channelRecords = some r → r.present = true →
        r.key = key) ∨
    ∃ r, written = some r ∧ r.key = key ∧ SameKeys m m' := by
  simp only [writeKey] at h
  split at h
  · rename_i hnone
    obtain ⟨rfl, rfl⟩ := Prod.mk.inj (Except.ok.inj h)
    exact .inl ⟨rfl, rfl, by simp [hnone]⟩
  · rename_i current hcurrent
    split_ifs at h with hkey
    · obtain ⟨rfl, rfl⟩ := Prod.mk.inj (Except.ok.inj h)
      refine .inl ⟨rfl, rfl, fun r hr hpresent => ?_⟩
      obtain rfl := Option.some.inj (hcurrent.symm.trans hr)
      simpa [hpresent] using hkey
    · cases hnew : m.newRecord channel key true (some current.revision) suffix with
      | error e =>
        rw [hnew] at h
        simp [Except.map] at h
      | ok x =>
        rw [hnew] at h
        obtain ⟨rfl, rfl⟩ := Prod.mk.inj (Except.ok.inj h)
        refine .inr ⟨x.2, rfl, ?_⟩
        simp only [newRecord] at hnew
        cases hr : ChannelRecord.new channel key true (some current.revision) m.lastRevision
            suffix with
        | error e =>
          rw [hr] at hnew
          simp [Except.map] at hnew
        | ok r =>
          rw [hr] at hnew
          obtain rfl := Except.ok.inj hnew
          exact ⟨(ChannelRecord.new_fields hr).2.1, rfl, rfl, rfl, rfl, fun f c hc => ⟨c, hc, rfl⟩⟩

/-- The first task ends: what it carried is in the record, pending or dropped. -/
theorem Kept.finish {channel f : Str} {key k : Option Str} {dropped' : List Str}
    (h : Kept m ((channel, key) :: ts) dropped f k) (hc : m'.casemapping = m.casemapping)
    (hr : m'.recordKey f = m.recordKey f)
    (hp : m.fold channel ≠ f → m.KeyPending f → m'.KeyPending f)
    (hd : ∀ name ∈ dropped, name ∈ dropped')
    (hdone : m.fold channel = f → k = key →
      m'.recordKey f = some k ∨ m'.KeyPending f ∨ ∃ name ∈ dropped', m.fold name = f) :
    Kept m' ts dropped' f k := by
  have hlast := lastKey_congr hc f ts
  have hfold : ∀ name, m'.fold name = m.fold name := fun name => by rw [fold, fold, hc]
  rcases h with h | h | ⟨h, hpending⟩ | ⟨name, hname, hname'⟩
  · exact .inl (hr.trans h)
  · rw [lastKey] at h
    cases hts : lastKey m f ts with
    | some k' =>
      rw [hts, Option.some_or] at h
      exact .inr (.inl (hlast.trans (hts.trans h)))
    | none =>
      rw [hts, Option.none_or] at h
      split_ifs at h with hf
      rcases hdone hf (Option.some.inj h).symm with hrec | hpend | ⟨name, hname, hname'⟩
      · exact .inl hrec
      · exact .inr (.inr (.inl ⟨hlast.trans hts, hpend⟩))
      · exact .inr (.inr (.inr ⟨name, hname, (hfold name).trans hname'⟩))
  · rw [lastKey, Option.or_eq_none_iff] at h
    have hf : m.fold channel ≠ f := fun hf => by simp [hf] at h
    exact .inr (.inr (.inl ⟨hlast.trans h.1, hp hf hpending⟩))
  · exact .inr (.inr (.inr ⟨name, hd name hname, (hfold name).trans hname'⟩))

/-- A task that carries the key of the runtime starts. -/
theorem Kept.push {channel f : Str} {key k : Option Str} (h : Kept m ts dropped f k)
    (hk : m.fold channel = f → k = key) : Kept m ((channel, key) :: ts) dropped f k := by
  rcases h with h | h | ⟨h, hpending⟩ | h
  · exact .inl h
  · exact .inr (.inl (by rw [lastKey, h, Option.some_or]))
  · by_cases hf : m.fold channel = f
    · refine .inr (.inl ?_)
      rw [lastKey, h, Option.none_or, if_pos hf, hk hf]
    · refine .inr (.inr (.inl ⟨?_, hpending⟩))
      rw [lastKey, h, Option.none_or, if_neg hf]
  · exact .inr (.inr (.inr h))

/-- A pending name is cleared while no task waits for it. -/
theorem Kept.clear {channel f : Str} {k : Option Str} {dropped' : List Str}
    (h : Kept m ts dropped f k) (hd : ∀ name ∈ dropped, name ∈ dropped')
    (hdone : m.fold channel = f → m.recordKey f = some k ∨ ∃ name ∈ dropped', m.fold name = f) :
    Kept (m.clearPending (casefold channel .ascii)) ts dropped' f k := by
  have hlast : lastKey (m.clearPending (casefold channel .ascii)) f ts = lastKey m f ts := by
    apply lastKey_congr
    rfl
  by_cases hf : m.fold channel = f
  · rcases hdone hf with hrec | hdrop
    · exact .inl hrec
    · exact .inr (.inr (.inr hdrop))
  · rcases h with h | h | ⟨h, hpending⟩ | ⟨name, hname, hfold⟩
    · exact .inl h
    · exact .inr (.inl (hlast.trans h))
    · exact .inr (.inr (.inl ⟨hlast.trans h, KeyPending.clear hpending hf⟩))
    · exact .inr (.inr (.inr ⟨name, hd name hname, hfold⟩))

/-- A write carries the key of its task, and a tick's remaining names are folds. -/
structure Sound (w : KeyWrite) : Prop where
  key : w.record.key = w.key
  rest : ∀ e ∈ w.rest, e.1 = casefold e.2 .ascii

/-- The invariant of a state -/
structure Good (s : KeyState) : Prop where
  inv : Inv s.manager s.tasks s.dropped
  writing : ∀ w, s.writing = some w → Sound w

/-- The loop of a retry tick keeps every key accounted for. -/
theorem Good.retryKeys (suffix : Str) {s : KeyState} (hw : s.writing = none)
    (h : Inv s.manager s.tasks s.dropped) (items : List (Str × Str))
    (hitems : ∀ e ∈ items, e.1 = casefold e.2 .ascii) : Good (retryKeys suffix s items) := by
  induction items generalizing s with
  | nil => exact ⟨h, by simp [KeyState.retryKeys, hw]⟩
  | cons e items ih =>
    obtain ⟨name, channel⟩ := e
    obtain rfl : name = casefold channel .ascii := hitems _ List.mem_cons_self
    have hrest := fun e he => hitems e (List.mem_cons_of_mem _ he)
    simp only [KeyState.retryKeys]
    cases hruntime : s.manager.runtime channel with
    | none =>
      refine ih (s := { s with manager := _ }) hw ⟨h.desired, PendingNamed.clear h.named _,
        merged_clear h.merged _, ?_⟩ hrest
      intro f c hc
      refine (h.kept f c hc).clear (fun _ hn => hn) fun hf => ?_
      rw [runtime, hf] at hruntime
      exact absurd (hruntime.symm.trans hc) (by simp)
    | some c =>
      have hown : ∀ f d, Assoc.lookup f s.manager.channels = some d →
          s.manager.fold channel = f → d = c := by
        intro f d hd hf
        rw [runtime, hf] at hruntime
        exact Option.some.inj (hd.symm.trans hruntime)
      simp only
      split_ifs with hj
      · cases hwrite : s.manager.writeKey channel c.key suffix with
        | error e =>
          refine ⟨⟨h.desired, h.named, h.merged, fun f d hd => ?_⟩, by simp [hw]⟩
          rcases h.kept f d hd with hk | hk | hk | ⟨n, hn, hfold⟩
          · exact .inl hk
          · exact .inr (.inl hk)
          · exact .inr (.inr (.inl hk))
          · exact .inr (.inr (.inr ⟨n, List.mem_cons_of_mem _ hn, hfold⟩))
        | ok x =>
          obtain ⟨m', written⟩ := x
          rcases writeKey_cases hwrite with ⟨rfl, rfl, hsame⟩ | ⟨r, rfl, hcarries, hsame⟩
          · refine ih (s := { s with manager := _ }) hw ⟨h.desired, PendingNamed.clear h.named _,
              merged_clear h.merged _, ?_⟩ hrest
            intro f d hd
            refine (h.kept f d hd).clear (fun _ hn => hn) fun hf => .inl ?_
            obtain rfl := hown f d hd hf
            obtain ⟨r, hr, hpresent⟩ := h.desired f d hd
            subst hf
            rw [recordKey, hr, Option.map_some, hsame r hr hpresent]
          · have hinv := h.sameKeys hsame
            constructor
            · have htasks : tasks { s with
                  manager := m'
                  writing := some ⟨channel, c.key, r, s.manager.durableRevision channel, items⟩ } =
                  (channel, c.key) :: s.tasks := by simp [tasks, hw]
              refine ⟨hinv.desired, hinv.named, hinv.merged, fun f d hd => ?_⟩
              rw [htasks]
              refine (hinv.kept f d hd).push fun hf => ?_
              obtain ⟨d', hd', hkey⟩ := hsame.runtime f d hd
              rw [hkey, hown f d' hd' (by rw [← hf, fold, fold, hsame.casemapping])]
            · intro w hw'
              obtain rfl := Option.some.inj hw'
              exact ⟨hcarries, hrest⟩
      · refine ih (s := { s with manager := _, dropped := _ }) hw
          ⟨h.desired, PendingNamed.clear h.named _, merged_clear h.merged _, ?_⟩ hrest
        intro f d hd
        refine (h.kept f d hd).clear (fun _ hn => List.mem_cons_of_mem _ hn) fun hf => .inr ?_
        exact ⟨channel, List.mem_cons_self, hf⟩

/-- A record task takes the lock. -/
theorem Good.recordTask {s : KeyState} {channel : Str} {key : Option Str} (suffix : Str)
    (hw : s.writing = none) (h : Inv s.manager ((channel, key) :: s.tasks) s.dropped) :
    Good (s.recordTask channel key suffix) := by
  unfold KeyState.recordTask
  cases hwrite : s.manager.writeKey channel key suffix with
  | error e =>
    refine ⟨⟨h.desired, h.named, h.merged, fun f c hc => ?_⟩, by simp [hw]⟩
    refine (h.kept f c hc).finish rfl rfl (fun _ hp => hp)
      (fun _ hn => List.mem_cons_of_mem _ hn) fun hf _ => .inr (.inr ?_)
    exact ⟨channel, List.mem_cons_self, hf⟩
  | ok x =>
    obtain ⟨m', written⟩ := x
    rcases writeKey_cases hwrite with ⟨rfl, rfl, hsame⟩ | ⟨r, rfl, hcarries, hsame⟩
    · refine ⟨⟨h.desired, PendingNamed.clear h.named _, merged_clear h.merged _,
        fun f c hc => ?_⟩, by simp [hw]⟩
      refine (h.kept f c hc).finish rfl rfl (fun hf hp => KeyPending.clear hp hf)
        (fun _ hn => hn) fun hf hk => .inl ?_
      obtain ⟨r, hr, hpresent⟩ := h.desired f c hc
      subst hf
      have hkey : s.manager.recordKey (s.manager.fold channel) = some c.key := by
        rw [recordKey, hr, Option.map_some, hsame r hr hpresent, hk]
      exact hkey
    · constructor
      · have htasks : tasks { s with
            manager := m'
            writing := some ⟨channel, key, r, s.manager.durableRevision channel, []⟩ } =
            (channel, key) :: s.tasks := by simp [tasks, hw]
        rw [htasks]
        exact h.sameKeys hsame
      · intro w hw'
        obtain rfl := Option.some.inj hw'
        exact ⟨hcarries, by simp⟩

/-- Where the record that came back is not newer than what the bot has, it is the current one,
or another one at least as new is. -/
theorem current_of_old (h : m.Merged) {f : Str} {record : ChannelRecord}
    (hf : m.fold record.channel = f)
    (hold : atLeast m.sourceRecords (casefold record.channel .ascii) record.revision = true ∨
      atLeast m.channelRecords (m.fold record.channel) record.revision = true) :
    ∃ current, Assoc.lookup f m.channelRecords = some current ∧
      record.revision ≤ current.revision := by
  subst hf
  rcases hold with hold | hold
  · obtain ⟨r, hr, hle⟩ := atLeast_iff.mp hold
    obtain ⟨current, hcurrent, hnewer⟩ := atLeast_iff.mp (h.newest _ r hr)
    have hname : m.fold r.channel = m.fold record.channel := by
      rw [fold, fold, ← casefold_ascii, ← h.named _ r hr, casefold_ascii]
    exact ⟨current, hname ▸ hcurrent, hle.trans hnewer⟩
  · exact atLeast_iff.mp hold

/-- A write that neither lost the race nor was overtaken leaves its key in the record, unless
the record that came back changed the key of the runtime. -/
theorem recordKey_answered (h : m.Merged) {w : KeyWrite} (hw : Sound w) {record : ChannelRecord}
    (link : IrcLink) (hname : m.fold record.channel = m.fold w.channel)
    (hlost : lostRace m w record = false) (hover : overtaken m w record = false)
    (hsame : (m.applyRecord link record).recordKey (m.fold w.channel) =
      m.recordKey (m.fold w.channel)) :
    m.recordKey (m.fold w.channel) = some w.key := by
  have hback : m.recordKey (m.fold w.channel) = some record.key →
      m.recordKey (m.fold w.channel) = some w.key := by
    intro hkey
    have hwon : record = w.record := by
      by_contra hne
      exact of_decide_eq_false hlost ⟨hne, hkey⟩
    rw [hkey, hwon, hw.key]
  have hold : ∀ current, Assoc.lookup (m.fold w.channel) m.channelRecords = some current →
      record.revision ≤ current.revision → m.recordKey (m.fold w.channel) = some w.key := by
    intro current hcurrent hle
    by_cases heq : current = record
    · subst heq
      exact hback (by rw [recordKey, hcurrent, Option.map_some])
    · rw [overtaken, hcurrent, Option.any_some] at hover
      have hkey : current.key = w.key := by
        by_contra hne
        exact of_decide_eq_false hover ⟨heq, hle, hne⟩
      rw [recordKey, hcurrent, Option.map_some, hkey]
  rcases m.applyRecord_records link record with ⟨hat, -⟩ | ⟨-, -, -, hr⟩
  · obtain ⟨current, hcurrent, hle⟩ := current_of_old h hname (.inl hat)
    exact hold current hcurrent hle
  · split_ifs at hr with hat
    · obtain ⟨current, hcurrent, hle⟩ := current_of_old h hname (.inr hat)
      exact hold current hcurrent hle
    · rw [recordKey, hr, hname, Assoc.lookup_assign_self, Option.map_some] at hsame
      exact hback hsame.symm

/-- The write under way returns: its key is in the record, or it lost the race, or it was
overtaken. -/
theorem Good.storedKey {s : KeyState} (h : Good s) {w : KeyWrite} (hw : s.writing = some w)
    {value : Json} {record : ChannelRecord} (hparse : parseChannelRecord value = .ok record)
    (hname : casefold record.channel .ascii = casefold w.channel .ascii) (link : IrcLink) :
    Inv (s.storedKey w value record link).manager (s.storedKey w value record link).tasks
      (s.storedKey w value record link).dropped := by
  have htasks : s.tasks = (w.channel, w.key) :: (s.storedKey w value record link).tasks := by
    simp [tasks, hw, KeyState.storedKey]
  have hmanager : (s.storedKey w value record link).manager =
      (s.manager.clearPending (casefold w.channel .ascii)).applyRecord link record := by
    simp [KeyState.storedKey, keyStored, applyStored, hparse, clearPending]
  have hinv := h.inv
  rw [htasks] at hinv
  have hmerged := merged_clear hinv.merged (casefold w.channel .ascii)
  obtain ⟨hcase, hpending⟩ := applyRecord_frame
    (s.manager.clearPending (casefold w.channel .ascii)) link record
  have hsub : ∀ name ∈ s.dropped, name ∈ (s.storedKey w value record link).dropped := by
    intro name hn
    simp only [KeyState.storedKey]
    split_ifs
    · exact List.mem_cons_of_mem _ hn
    · exact hn
  have hfold : s.manager.fold record.channel = s.manager.fold w.channel := by
    rw [fold, fold, ← casefold_ascii, hname, casefold_ascii]
  rw [hmanager]
  refine ⟨?_, fun e he => ?_, hmerged.applyRecord link record, fun f c' hc' => ?_⟩
  · have hdesired : (s.manager.clearPending (casefold w.channel .ascii)).Desired := hinv.desired
    exact hdesired.applyRecord link record
  · rw [hpending] at he
    exact PendingNamed.clear hinv.named _ e he
  · rcases applyRecord_runtime hc' with hagree | ⟨c, hc, hkey, hrecord⟩
    · exact .inl hagree
    · rw [hkey]
      refine (hinv.kept f c hc).finish hcase hrecord
        (fun hf hp => KeyPending.congr (KeyPending.clear hp hf) hcase hpending) hsub ?_
      intro hf hk
      cases hnoted : lostRace s.manager w record || overtaken s.manager w record with
      | true =>
        refine .inr (.inr ⟨w.channel, ?_, hf⟩)
        simp only [KeyState.storedKey, hnoted, if_true]
        exact List.mem_cons_self
      | false =>
        obtain ⟨hlost, hover⟩ := Bool.or_eq_false_iff.mp hnoted
        subst hf
        refine .inl (hrecord.trans ?_)
        rw [hk]
        exact recordKey_answered (m := s.manager.clearPending (casefold w.channel .ascii)) hmerged
          (h.writing w hw) link hfold hlost hover hrecord

theorem Good.failed {s : KeyState} (h : Good s) {w : KeyWrite} (hw : s.writing = some w) :
    Good { s with manager := s.manager.keyFailed w.channel, writing := none } := by
  have htasks : s.tasks = (w.channel, w.key) :: tasks { s with
      manager := s.manager.keyFailed w.channel, writing := none } := by
    simp [tasks, hw]
  have hinv := h.inv
  rw [htasks] at hinv
  refine ⟨⟨hinv.desired, fun e he => ?_, hinv.merged.congr rfl rfl rfl, fun f c hc => ?_⟩, by simp⟩
  · rcases Assoc.mem_assign he with rfl | he
    · rfl
    · exact hinv.named e he
  · refine (hinv.kept f c hc).finish rfl rfl (fun _ hp => KeyPending.failed hp w.channel)
      (fun _ hn => hn) fun hf _ => .inr (.inl ?_)
    exact ⟨w.channel, Assoc.mem_of_lookup (Assoc.lookup_assign_self _ _ _), hf⟩

/-- A key is seen on IRC: the runtime takes it, and a task waits to record it. -/
theorem Good.observe {s : KeyState} (h : Good s) {channel : Str} {key : Option Str}
    {c : ChannelRuntime} (hkey : (c.setKey key).2 = true) :
    Good { s with
      manager := s.manager.mapRuntime channel fun c => (c.setKey key).1
      queue := s.queue ++ [.record channel key]
      dropped := s.dropped.filter fun name => s.manager.fold name ≠ s.manager.fold channel } := by
  have hset : ∀ d : ChannelRuntime, (d.setKey key).1.key = key := by
    intro d
    unfold ChannelRuntime.setKey at hkey ⊢
    cases hv : key.mapM validateKey with
    | error e => simp [hv] at hkey
    | ok k => rfl
  have htasks : tasks { s with
      manager := s.manager.mapRuntime channel fun c => (c.setKey key).1
      queue := s.queue ++ [.record channel key]
      dropped := s.dropped.filter fun name => s.manager.fold name ≠ s.manager.fold channel } =
      s.tasks ++ [(channel, key)] := by
    simp [tasks, List.filterMap_append]
  have hpending : (s.manager.mapRuntime channel fun c => (c.setKey key).1).pendingKeys =
      s.manager.pendingKeys := by
    unfold mapRuntime
    split <;> rfl
  refine ⟨⟨fun f c' hc' => ?_, fun e he => ?_, h.inv.merged.mapRuntime _ _, fun f c' hc' => ?_⟩,
    h.writing⟩
  · obtain ⟨c, hc, -⟩ := lookup_mapRuntime hc'
    rw [mapRuntime_channelRecords]
    exact h.inv.desired f c hc
  · rw [hpending] at he
    exact h.inv.named e he
  · rw [htasks]
    obtain ⟨d, hd, rfl⟩ := lookup_mapRuntime hc'
    by_cases hf : s.manager.fold channel = f
    · refine .inr (.inl ?_)
      rw [if_pos hf, hset, lastKey_append, if_pos (by rw [fold, mapRuntime_casemapping]; exact hf)]
    · rw [if_neg hf]
      rcases (h.inv.kept f d hd).congr (mapRuntime_casemapping _ _ _)
        (by rw [recordKey, recordKey, mapRuntime_channelRecords]) hpending with
        hk | hk | ⟨hk, hp⟩ | ⟨name, hn, hfold⟩
      · exact .inl hk
      · refine .inr (.inl ?_)
        rw [lastKey_append, if_neg (by rw [fold, mapRuntime_casemapping]; exact hf), hk]
      · refine .inr (.inr (.inl ⟨?_, hp⟩))
        rw [lastKey_append, if_neg (by rw [fold, mapRuntime_casemapping]; exact hf), hk]
      · refine .inr (.inr (.inr ⟨name, ?_, hfold⟩))
        rw [fold, mapRuntime_casemapping] at hfold
        refine List.mem_filter.mpr ⟨hn, decide_eq_true fun heq => hf ?_⟩
        rw [← heq, ← hfold]
        rfl

/-- Every step keeps every key accounted for. -/
theorem Good.step {s t : KeyState} (h : Good s) {a : KeyEvent}
    (hst : KeyState.step s a = some t) : Good t := by
  cases a with
  | observe channel key =>
    simp only [KeyState.step] at hst
    split at hst
    · simp at hst
    · split_ifs at hst with hkey <;> obtain rfl := Option.some.inj hst
      · exact h.observe hkey
      · exact h
  | tick =>
    obtain rfl := Option.some.inj hst
    have htasks : tasks { s with queue := s.queue ++ [.retry] } = s.tasks := by simp [tasks]
    exact ⟨htasks ▸ h.inv, h.writing⟩
  | next suffix =>
    simp only [KeyState.step] at hst
    split_ifs at hst with hw
    have hidle : s.writing = none := Option.isNone_iff_eq_none.mp hw.1
    split at hst
    · simp at hst
    · rename_i channel key queue hqueue
      obtain rfl := Option.some.inj hst
      refine Good.recordTask (s := { s with queue := queue }) suffix hidle ?_
      have htasks : s.tasks = (channel, key) :: tasks { s with queue := queue } := by
        simp [tasks, hidle, hqueue]
      rw [← htasks]
      exact h.inv
    · rename_i queue hqueue
      obtain rfl := Option.some.inj hst
      refine Good.retryKeys (s := { s with queue := queue }) suffix hidle ?_ _ h.inv.named
      have htasks : s.tasks = tasks { s with queue := queue } := by
        simp [tasks, hidle, hqueue]
      rw [← htasks]
      exact h.inv
  | stored value link suffix =>
    simp only [KeyState.step] at hst
    split at hst
    · rename_i w record hw hparse
      split_ifs at hst with hname
      obtain rfl := Option.some.inj hst
      exact Good.retryKeys suffix rfl (h.storedKey hw hparse hname.1 link) _ (h.writing w hw).rest
    · simp at hst
  | failed =>
    simp only [KeyState.step] at hst
    split at hst
    · simp at hst
    · rename_i w hw
      obtain rfl := Option.some.inj hst
      exact h.failed hw
  | apply record link =>
    obtain rfl := Option.some.inj hst
    exact ⟨h.inv.applyRecord link record, h.writing⟩
  | seat channel join =>
    obtain rfl := Option.some.inj hst
    exact ⟨h.inv.sameKeys (sameKeys_seat _ _ _), h.writing⟩
  | joinDesired known link =>
    obtain rfl := Option.some.inj hst
    exact ⟨h.inv.sameKeys (sameKeys_joinDesired _ _ _), h.writing⟩
  | welcome =>
    obtain rfl := Option.some.inj hst
    exact ⟨h.inv.sameKeys (sameKeys_reset _), h.writing⟩
  | disconnect =>
    obtain rfl := Option.some.inj hst
    exact ⟨(h.inv.setCasemapping _).sameKeys (sameKeys_reset _), h.writing⟩
  | casemapping value =>
    obtain rfl := Option.some.inj hst
    exact ⟨h.inv.setCasemapping value, h.writing⟩

end KeyState

end Botnats
