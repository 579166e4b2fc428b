import Botnats.ChannelKeys
import Botnats.Newest

/-!
# The channel tables

`apply_record` keeps the two record tables and the desired channels up to date record by
record, and `set_casemapping` makes them anew. In both ways the tables index the records
seen: `sourceRecords` by the ASCII fold of the name, `channelRecords` by the IRC fold.
-/
namespace Botnats

namespace ChannelManager

open Newest

variable {m : ChannelManager} {link : IrcLink} {record : ChannelRecord} {f : Str}
  {current : Option ChannelRecord}

/-- The names that the store keys -/
def sourceName (r : ChannelRecord) : Str := casefold r.channel .ascii

theorem atLeast_iff_covers {records : List (Str × ChannelRecord)} {name revision : Str} :
    atLeast records name revision = true ↔
      Covers ChannelRecord.revision records name revision := atLeast_iff

/-- Names of one ASCII fold have one fold under every casemapping. -/
theorem fold_congr (casemapping : Casemapping) (r s : ChannelRecord)
    (h : sourceName r = sourceName s) :
    casefold r.channel casemapping = casefold s.channel casemapping := by
  rw [← casefold_ascii, show casefold r.channel .ascii = casefold s.channel .ascii from h,
    casefold_ascii]

/-- The two record tables index the records seen. -/
structure Indexed (seen : List ChannelRecord) (m : ChannelManager) : Prop where
  source : Indexes sourceName ChannelRecord.revision seen m.sourceRecords
  merged : Indexes (fun r => m.fold r.channel) ChannelRecord.revision seen m.channelRecords
  distinct : Assoc.Distinct m.sourceRecords

theorem indexed_init : Indexed [] init where
  source := .nil
  merged := .nil
  distinct := List.nodup_nil

variable {seen : List ChannelRecord}

theorem Indexed.applyRecord (h : Indexed seen m) (link : IrcLink) (record : ChannelRecord) :
    Indexed (seen ++ [record]) (m.applyRecord link record) := by
  rcases m.applyRecord_records link record with ⟨hat, heq⟩ | ⟨hold, hc, hs, hr⟩
  · rw [heq]
    have hcovers := atLeast_iff_covers.mp hat
    refine ⟨h.source.skip hcovers, h.merged.skip ?_, h.distinct⟩
    exact h.source.covers h.merged (fold_congr m.casemapping) hcovers
  · have hfold : ∀ r : ChannelRecord, (m.applyRecord link record).fold r.channel =
        m.fold r.channel := by
      intro r
      rw [fold, fold, hc]
    have hnot : ¬ Covers ChannelRecord.revision m.sourceRecords (sourceName record)
        record.revision := by
      rw [← atLeast_iff_covers, sourceName, hold]
      simp
    refine ⟨hs ▸ h.source.assign hnot, ?_, hs ▸ h.distinct.assign _ _⟩
    simp only [hfold, hr]
    split_ifs with hat
    · exact h.merged.skip (atLeast_iff_covers.mp hat)
    · exact h.merged.assign fun hcovers => hat (atLeast_iff_covers.mpr hcovers)

/-- The loop of `set_casemapping` indexes the records it goes through. -/
theorem indexes_foldl (casemapping : Casemapping) (l : List ChannelRecord) :
    Indexes (fun r => casefold r.channel casemapping) ChannelRecord.revision l
      (l.foldl (mergeRecord casemapping) []) := by
  induction l using List.reverseRecOn with
  | nil => exact .nil
  | append_singleton l r ih =>
    rw [List.foldl_append, List.foldl_cons, List.foldl_nil, mergeRecord]
    split_ifs with hat
    · exact ih.skip (atLeast_iff_covers.mp hat)
    · exact ih.assign fun hcovers => hat (atLeast_iff_covers.mpr hcovers)

theorem Indexed.setCasemapping (h : Indexed seen m) (casemapping : Casemapping) :
    Indexed seen (m.setCasemapping casemapping) := by
  unfold ChannelManager.setCasemapping
  split_ifs with hc
  · exact h
  · refine ⟨h.source, ?_, h.distinct⟩
    exact h.source.coarsen (fold_congr casemapping) (indexes_foldl casemapping _) h.distinct

/-- Exactly the channels with a present record are desired, under the current casemapping;
what is pending is not desired, and is named by its fold. -/
structure Tables (m : ChannelManager) : Prop where
  desired : ∀ f, (Assoc.lookup f m.channels).isSome = true ↔
    ∃ r, Assoc.lookup f m.channelRecords = some r ∧ r.present = true
  casemapping : ∀ f c, Assoc.lookup f m.channels = some c → c.casemapping = m.casemapping
  parting : ∀ e ∈ m.pendingParts, e.1 = m.fold e.2 ∧ Assoc.lookup e.1 m.channels = none

theorem tables_init : Tables init where
  desired := by simp [init]
  casemapping := by simp [init]
  parting := by simp [init]

@[simp] theorem safeJoin_casemapping (c : ChannelRuntime) (link : IrcLink) :
    (c.safeJoin link).casemapping = c.casemapping := by
  unfold ChannelRuntime.safeJoin
  split_ifs <;> rfl

/-- A present record makes its channel desired. -/
theorem lookup_applyPresent_self (m : ChannelManager) (link : IrcLink) (record : ChannelRecord)
    (current : Option ChannelRecord) : ∃ c : ChannelRuntime,
      Assoc.lookup (m.fold record.channel) (m.applyPresent link record current).channels = some c ∧
      c.casemapping = ((Assoc.lookup (m.fold record.channel) m.channels).map
        ChannelRuntime.casemapping).getD m.casemapping := by
  simp only [applyPresent, Assoc.lookup_assign_self]
  refine ⟨_, rfl, ?_⟩
  cases Assoc.lookup (m.fold record.channel) m.channels with
  | none => split_ifs <;> simp [ChannelRuntime.fresh]
  | some c => split_ifs <;> simp

theorem lookup_applyPresent_of_ne (m : ChannelManager) (link : IrcLink) (record : ChannelRecord)
    (current : Option ChannelRecord) (h : m.fold record.channel ≠ f) :
    Assoc.lookup f (m.applyPresent link record current).channels = Assoc.lookup f m.channels :=
  Assoc.lookup_assign_of_ne _ _ h

theorem lookup_applyParted (m : ChannelManager) (link : IrcLink) (record : ChannelRecord)
    (f : Str) : Assoc.lookup f (m.applyParted link record).channels =
      if m.fold record.channel = f then none else Assoc.lookup f m.channels := by
  simp only [applyParted]
  split
  · rename_i hnone
    split_ifs with hf
    · rw [← hf, hnone]
    · rfl
  · by_cases hf : m.fold record.channel = f
    · rw [if_pos hf, ← hf]
      exact Assoc.lookup_discard_self _ _
    · rw [if_neg hf]
      exact Assoc.lookup_discard_of_ne _ hf

/-- What a tombstone leaves pending was pending, or is its channel. -/
theorem mem_applyParted {e : Str × Str} (h : e ∈ (m.applyParted link record).pendingParts) :
    e = (m.fold record.channel, record.channel) ∨ e ∈ m.pendingParts := by
  simp only [applyParted] at h
  split at h
  · exact .inr h
  · split_ifs at h
    · exact .inr h
    · exact Assoc.mem_assign h

/-- The record merged into the table of its IRC fold -/
def merge (m : ChannelManager) (record : ChannelRecord) : ChannelManager :=
  { m with channelRecords := Assoc.assign (m.fold record.channel) record m.channelRecords }

@[simp] theorem merge_fold (m : ChannelManager) (record : ChannelRecord) (s : Str) :
    (m.merge record).fold s = m.fold s := rfl

theorem Tables.applyPresent (h : Tables m) (hr : record.present = true) :
    Tables ((m.merge record).applyPresent link record current) := by
  obtain ⟨c, hc, hcase⟩ := lookup_applyPresent_self (m.merge record) link record current
  constructor
  · intro f
    change _ ↔ ∃ r, Assoc.lookup f (m.merge record).channelRecords = some r ∧ r.present = true
    by_cases hf : m.fold record.channel = f
    · subst hf
      have hlookup := Assoc.lookup_assign_self (m.fold record.channel) record m.channelRecords
      exact ⟨fun _ => ⟨record, hlookup, hr⟩, fun _ => Option.isSome_of_eq_some hc⟩
    · rw [lookup_applyPresent_of_ne (m.merge record) link record current hf, merge,
        Assoc.lookup_assign_of_ne _ _ hf]
      exact h.desired f
  · intro f d hd
    by_cases hf : m.fold record.channel = f
    · subst hf
      obtain rfl := Option.some.inj (hc.symm.trans hd)
      rw [hcase]
      cases hold : Assoc.lookup ((m.merge record).fold record.channel)
          (m.merge record).channels with
      | none => rfl
      | some d => exact h.casemapping _ d hold
    · rw [lookup_applyPresent_of_ne (m.merge record) link record current hf] at hd
      exact h.casemapping f d hd
  · intro e he
    obtain ⟨hmem, hne⟩ := List.mem_filter.mp he
    have hne : m.fold record.channel ≠ e.1 := fun hf => by simp [← hf, merge, fold] at hne
    obtain ⟨hfold, hnone⟩ := h.parting e hmem
    refine ⟨hfold, ?_⟩
    rw [lookup_applyPresent_of_ne (m.merge record) link record current hne]
    exact hnone

theorem Tables.applyParted (h : Tables m) (hr : record.present = false) :
    Tables ((m.merge record).applyParted link record) := by
  have hfold : ∀ s, ((m.merge record).applyParted link record).fold s = m.fold s := by
    intro s
    rw [fold, applyParted_casemapping]
    rfl
  constructor
  · intro f
    rw [lookup_applyParted, applyParted_channelRecords, merge_fold]
    by_cases hf : m.fold record.channel = f
    · subst hf
      have hlookup := Assoc.lookup_assign_self (m.fold record.channel) record m.channelRecords
      constructor
      · intro hsome
        rw [if_pos rfl] at hsome
        exact absurd hsome (by simp)
      · rintro ⟨r, hlookup', hpresent⟩
        obtain rfl := Option.some.inj (hlookup.symm.trans hlookup')
        exact absurd hpresent (by simp [hr])
    · rw [if_neg hf, merge, Assoc.lookup_assign_of_ne _ _ hf]
      exact h.desired f
  · intro f d hd
    rw [applyParted_casemapping]
    rw [lookup_applyParted] at hd
    split_ifs at hd
    exact h.casemapping f d hd
  · intro e he
    rw [hfold, lookup_applyParted]
    rcases mem_applyParted he with rfl | he
    · exact ⟨rfl, if_pos rfl⟩
    · obtain ⟨hname, hnone⟩ := h.parting e he
      refine ⟨hname, ?_⟩
      split_ifs
      · rfl
      · exact hnone

theorem Tables.applyRecord (h : Tables m) (link : IrcLink) (record : ChannelRecord) :
    Tables (m.applyRecord link record) := by
  rcases applyRecord_cases m link record with
    ⟨source, heq⟩ | ⟨source, hp, heq⟩ | ⟨source, hp, heq⟩
  · rw [heq]
    exact ⟨h.desired, h.casemapping, h.parting⟩
  · have hsource : Tables { m with sourceRecords := source } :=
      ⟨h.desired, h.casemapping, h.parting⟩
    rw [heq]
    exact hsource.applyPresent hp
  · have hsource : Tables { m with sourceRecords := source } :=
      ⟨h.desired, h.casemapping, h.parting⟩
    rw [heq]
    exact hsource.applyParted hp

theorem Tables.mapRuntime (h : Tables m) (channel : Str) (change : ChannelRuntime → ChannelRuntime)
    (hchange : ∀ c, (change c).casemapping = c.casemapping) :
    Tables (m.mapRuntime channel change) := by
  have hsome : ∀ f, (Assoc.lookup f (m.mapRuntime channel change).channels).isSome =
      (Assoc.lookup f m.channels).isSome := by
    intro f
    unfold ChannelManager.mapRuntime
    split
    · rfl
    · rename_i c hc
      by_cases hf : m.fold channel = f
      · subst hf
        rw [show Assoc.lookup (m.fold channel) m.channels = some c from hc]
        simp
      · simp only [Assoc.lookup_assign_of_ne _ _ hf]
  constructor
  · intro f
    rw [hsome, mapRuntime_channelRecords]
    exact h.desired f
  · intro f c' hc'
    obtain ⟨c, hc, rfl⟩ := lookup_mapRuntime hc'
    rw [mapRuntime_casemapping, ← h.casemapping f c hc]
    split_ifs
    · exact hchange c
    · rfl
  · intro e he
    have hparts : (m.mapRuntime channel change).pendingParts = m.pendingParts := by
      unfold ChannelManager.mapRuntime
      split <;> rfl
    rw [hparts] at he
    obtain ⟨hname, hnone⟩ := h.parting e he
    refine ⟨by rw [fold, mapRuntime_casemapping]; exact hname, ?_⟩
    have := hsome e.1
    rw [hnone] at this
    exact Option.isSome_eq_false_iff.mp this |> Option.isNone_iff_eq_none.mp

theorem Tables.setCasemapping (h : Tables m) (casemapping : Casemapping) :
    Tables (m.setCasemapping casemapping) := by
  by_cases hc : casemapping = m.casemapping
  · rw [ChannelManager.setCasemapping, if_pos hc]
    exact h
  · have hdistinct := distinct_foldl casemapping (m.sourceRecords.map Prod.snd) [] List.nodup_nil
    simp only [ChannelManager.setCasemapping, if_neg hc]
    constructor
    · intro f
      rw [Assoc.lookup_map (fun r : ChannelRecord => ChannelRuntime.fresh casemapping r.channel
        r.key), hdistinct.lookup_filter, Option.isSome_map, Option.isSome_iff_exists]
      simp only [Option.filter_eq_some_iff]
    · intro f c hf
      rw [Assoc.lookup_map (fun r : ChannelRecord => ChannelRuntime.fresh casemapping r.channel
        r.key)] at hf
      obtain ⟨r, -, rfl⟩ := Option.map_eq_some_iff.mp hf
      rfl
    · intro e he
      rcases Assoc.mem_foldl_assign he with he | ⟨channel, hchannel, rfl⟩
      · simp at he
      · exact ⟨rfl, Option.isNone_iff_eq_none.mp (List.mem_filter.mp hchannel).2⟩

end ChannelManager

/-! ## Runs -/

/-- `apply_record` with what the connection answers, `set_casemapping`, or another join
state of a desired channel. -/
inductive TableEvent
  | record (link : IrcLink) (r : ChannelRecord)
  | casemapping (value : Casemapping)
  | seat (channel : Str) (join : JoinState)

namespace TableEvent

open ChannelManager Newest

def apply (m : ChannelManager) : TableEvent → ChannelManager
  | record link r => m.applyRecord link r
  | casemapping value => m.setCasemapping value
  | seat channel join => m.mapRuntime channel fun c => { c with join := join }

/-- The tables after the events, from empty ones -/
def run (events : List TableEvent) : ChannelManager := events.foldl apply init

/-- The records that are applied, in order -/
def seen (events : List TableEvent) : List ChannelRecord :=
  events.filterMap fun
    | record _ r => some r
    | _ => none

theorem run_append (events : List TableEvent) (e : TableEvent) :
    run (events ++ [e]) = apply (run events) e := by
  rw [run, List.foldl_append]
  rfl

theorem seen_append (events : List TableEvent) (e : TableEvent) :
    seen (events ++ [e]) = seen events ++ seen [e] := by
  rw [seen, List.filterMap_append]
  rfl

theorem indexed_run (events : List TableEvent) : Indexed (seen events) (run events) := by
  induction events using List.reverseRecOn with
  | nil => exact indexed_init
  | append_singleton events e ih =>
    rw [run_append, seen_append]
    cases e with
    | record link r => exact ih.applyRecord link r
    | casemapping value =>
      rw [show seen [casemapping value] = [] from rfl, List.append_nil]
      exact ih.setCasemapping value
    | seat channel join =>
      rw [show seen [seat channel join] = [] from rfl, List.append_nil]
      refine ⟨?_, ?_, ?_⟩
      · rw [apply, mapRuntime_sourceRecords]
        exact ih.source
      · simp only [apply, fold, mapRuntime_casemapping, mapRuntime_channelRecords]
        exact ih.merged
      · rw [apply, mapRuntime_sourceRecords]
        exact ih.distinct

theorem tables_run (events : List TableEvent) : Tables (run events) := by
  induction events using List.reverseRecOn with
  | nil => exact tables_init
  | append_singleton events e ih =>
    rw [run_append]
    cases e with
    | record link r => exact ih.applyRecord link r
    | casemapping value => exact ih.setCasemapping value
    | seat channel join => exact ih.mapRuntime channel _ fun _ => rfl

/-- Revisions tell the records seen apart. -/
theorem ranked_seen {events : List TableEvent}
    (h : (seen events).Pairwise fun r s => r.revision ≠ s.revision) :
    Ranked ChannelRecord.revision (seen events) := by
  have hsymm : Std.Symm fun r s : ChannelRecord => r.revision ≠ s.revision :=
    ⟨fun _ _ hrs => hrs.symm⟩
  intro r hr s hs heq
  by_contra hne
  exact h.forall hr hs hne heq

/-- The tables are those rebuilt from the records seen, in whatever order they came. -/
theorem run_rebuilt (events : List TableEvent)
    (h : (seen events).Pairwise fun r s => r.revision ≠ s.revision) :
    (∀ a r, Assoc.lookup a (run events).sourceRecords = some r ↔
      IsNewest sourceName ChannelRecord.revision (seen events) a r) ∧
    (∀ f r, Assoc.lookup f (run events).channelRecords = some r ↔
      IsNewest (fun r => (run events).fold r.channel) ChannelRecord.revision
        ((run events).sourceRecords.map Prod.snd) f r) ∧
    (∀ f, (Assoc.lookup f (run events).channels).isSome = true ↔
      ∃ r, Assoc.lookup f (run events).channelRecords = some r ∧ r.present = true) ∧
    (∀ f c, Assoc.lookup f (run events).channels = some c →
      c.casemapping = (run events).casemapping) ∧
    (∀ e ∈ (run events).pendingParts, e.1 = (run events).fold e.2 ∧
      Assoc.lookup e.1 (run events).channels = none) ∧
    ∀ others, (seen others).Perm (seen events) →
      (run others).casemapping = (run events).casemapping →
      (∀ a, Assoc.lookup a (run others).sourceRecords =
        Assoc.lookup a (run events).sourceRecords) ∧
      (∀ f, Assoc.lookup f (run others).channelRecords =
        Assoc.lookup f (run events).channelRecords) ∧
      ∀ f, (Assoc.lookup f (run others).channels).isSome =
        (Assoc.lookup f (run events).channels).isSome := by
  have hranked := ranked_seen h
  have hindexed := indexed_run events
  have htables := tables_run events
  refine ⟨fun a r => hindexed.source.lookup_iff hranked, fun f r => ?_, htables.desired,
    htables.casemapping, htables.parting, fun others hperm hcase => ?_⟩
  · have hrestrict := hindexed.source.restrict hranked (fold_congr (run events).casemapping)
      hindexed.merged hindexed.distinct
    refine hrestrict.lookup_iff fun r hr s hs => ?_
    obtain ⟨p, hp, rfl⟩ := List.mem_map.mp hr
    obtain ⟨q, hq, rfl⟩ := List.mem_map.mp hs
    exact hranked p.2 (hindexed.source.sound _ _ (hindexed.distinct.lookup hp)).1 q.2
      (hindexed.source.sound _ _ (hindexed.distinct.lookup hq)).1
  · have hother := indexed_run others
    have hmem : ∀ y, y ∈ seen events ↔ y ∈ seen others := fun y => hperm.mem_iff.symm
    have hmerged : ∀ f, Assoc.lookup f (run others).channelRecords =
        Assoc.lookup f (run events).channelRecords := by
      have hothers : Indexes (fun r => (run events).fold r.channel) ChannelRecord.revision
          (seen others) (run others).channelRecords := by
        have hmerged := hother.merged
        simp only [fold, hcase] at hmerged
        exact hmerged
      exact fun f => (hindexed.merged.lookup_eq hothers hranked hmem f).symm
    refine ⟨fun a => (hindexed.source.lookup_eq hother.source hranked hmem a).symm, hmerged,
      fun f => Bool.eq_iff_iff.mpr ?_⟩
    rw [htables.desired, (tables_run others).desired, hmerged]

/-- Two spellings that merge, split and merge again while a tombstone comes in. -/
def splitting : List TableEvent :=
  [.record ⟨false, false, true⟩ ⟨lit "#a[", none, true, mintRevision 1 (List.replicate 32 97)⟩,
    .casemapping .ascii,
    .record ⟨false, false, true⟩ ⟨lit "#a\x7b", none, false,
      mintRevision 2 (List.replicate 32 98)⟩,
    .casemapping .rfc1459]

theorem run_rebuilt_splitting :
    ((seen splitting).Pairwise fun r s => r.revision ≠ s.revision) ∧
    (Assoc.lookup (lit "#a\x7b") (run splitting).channels).isSome = false ∧
    ((Assoc.lookup (lit "#a\x7b") (run splitting).channels).isSome = true ↔
      ∃ r, Assoc.lookup (lit "#a\x7b") (run splitting).channelRecords = some r ∧
        r.present = true) := by
  have hpairwise : (seen splitting).Pairwise fun r s => r.revision ≠ s.revision := by
    decide +kernel
  exact ⟨hpairwise, by decide +kernel, (run_rebuilt splitting hpairwise).2.2.1 _⟩

end TableEvent

end Botnats
