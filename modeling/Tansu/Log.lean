import Tansu.Compaction
import Tansu.Deflated

/-!
# Compacting a log

A log is a list of batches, the oldest first. The repository compacts one batch at a time:
`Batch::compact` takes as its head the set of keys that appear later in the log, and
`Batch::keys` gives the keys of a batch. The loop that runs over a log is not under `src/`;
`compactLog` models it from the specification, compacting each batch against the keys of
every batch after it.

`compactLog_last_write_wins` shows that this keeps, across the whole log, exactly the last
record of each key. Null-keyed records are left out of that statement: whether a batch keeps
them depends on whether its compaction dropped anything, as `Batch.compact_records` shows.
A compacted batch keeps the keys of the batch outside its head (`Batch.compact_keys`), so
every suffix of a compacted log has the keys it had, and `compactLog_idempotent` shows that
compacting the log again drops nothing. A log grows between compactions:
`compactLog_append` shows that compacting the compacted log with new batches after it gives
the batches a compaction of the whole log gives, so compaction can run incrementally.

A compacted batch is written back in place of the batch it compacts. `compact_written_back`
shows that it reads back from its encoding and takes no more bytes than the batch did.
-/

namespace Tansu.Inflated

/-- Modelled from the spec: the head of a batch, the keys of the batches after it. -/
def laterKeys (later : List Batch) : Finset Bytes :=
  later.foldr (fun batch keys => batch.keys ∪ keys) ∅

/-- Modelled from the spec: each batch of a log compacted against the keys of the batches
after it, failing when one compaction fails. -/
def compactLog : List Batch → Except Error (List Compaction)
  | [] => .ok []
  | batch :: later => do
    let compaction ← batch.compact (laterKeys later)
    let rest ← compactLog later
    pure (compaction :: rest)

/-- The keys after a batch include its own keys and those after it. -/
@[simp] theorem laterKeys_cons (batch : Batch) (later : List Batch) :
    laterKeys (batch :: later) = batch.keys ∪ laterKeys later := rfl

/-- A log compacts when its first batch and the rest of it do. -/
theorem compactLog_cons_ok {batch : Batch} {later : List Batch} {compactions : List Compaction}
    (compacted : compactLog (batch :: later) = .ok compactions) :
    ∃ compaction rest, batch.compact (laterKeys later) = .ok compaction ∧
      compactLog later = .ok rest ∧ compactions = compaction :: rest := by
  simp only [compactLog] at compacted
  cases first : batch.compact (laterKeys later) with
  | error failure => simp [first] at compacted
  | ok compaction =>
    cases others : compactLog later with
    | error failure => simp [first, others] at compacted
    | ok rest =>
      simp only [first, others, except_ok_bind, except_pure, Except.ok.injEq] at compacted
      exact ⟨compaction, rest, rfl, rfl, compacted.symm⟩

/-- A key is in the head of a batch exactly when a record of a later batch has it. -/
theorem mem_laterKeys (later : List Batch) (key : Bytes) :
    key ∈ laterKeys later ↔
      ∃ record ∈ (later.map Batch.records).flatten, record.key = some key := by
  induction later with
  | nil => simp [laterKeys]
  | cons batch others inductionHypothesis =>
    simp only [laterKeys, List.foldr_cons, Finset.mem_union, Batch.mem_keys] at inductionHypothesis ⊢
    rw [inductionHypothesis]
    simp [or_and_right, exists_or]

/-- Whichever way `Batch::compact` goes, the records it keeps with a given key are those
`latest` keeps. -/
theorem Batch.compact_filter_key {batch : Batch} {head : Finset Bytes} {compaction : Compaction}
    (distinct : (batch.records.map Record.offsetDelta).Nodup)
    (compacted : batch.compact head = .ok compaction) (key : Bytes) :
    compaction.batch.records.filter (fun record => record.key = some key) =
      (latest head batch.records).filter (fun record => record.key = some key) := by
  obtain ⟨counted, -⟩ := Batch.compact_eq distinct compacted
  obtain ⟨-, records⟩ := Batch.compact_records distinct compacted
  rw [records]
  split
  · rfl
  · rw [latest_eq_of_length head batch.records (by omega), List.filter_filter]
    exact List.filter_congr (fun record _ => by cases record.key <;> simp)

/-- A batch keeps its maximum offset when it keeps its fields. -/
theorem Batch.SameFields.maxOffset {batch other : Batch} (same : batch.SameFields other) :
    batch.maxOffset = other.maxOffset := by
  simp only [Batch.maxOffset, same.baseOffset, same.lastOffsetDelta]

/-- The keys of a compacted batch are those of the batch outside the head. -/
theorem Batch.compact_keys {batch : Batch} {head : Finset Bytes} {compaction : Compaction}
    (distinct : (batch.records.map Record.offsetDelta).Nodup)
    (compacted : batch.compact head = .ok compaction) :
    compaction.batch.keys = batch.keys \ head := by
  ext key
  have present (records : List Record) : (∃ record ∈ records, record.key = some key) ↔
      records.filter (fun record => record.key = some key) ≠ [] := by
    simp [List.filter_eq_nil_iff]
  rw [Finset.mem_sdiff, Batch.mem_keys, Batch.mem_keys, present, present,
    Batch.compact_filter_key distinct compacted, latest_filter_key]
  by_cases inHead : key ∈ head
  · simp [inHead]
  · rw [if_neg inHead]
    cases last : (batch.records.filter (fun record => record.key = some key)).getLast? with
    | none => simp [inHead, List.getLast?_eq_none_iff.mp last]
    | some found =>
      have nonempty : batch.records.filter (fun record => record.key = some key) ≠ [] := by
        rintro empty
        simp [empty] at last
      simp [inHead, nonempty]

/-- What holds of a batch holds of every batch of the log that holds it twice. -/
theorem forall_mem_pair {batch : Batch} {property : Batch → Prop} (holds : property batch) :
    ∀ other ∈ [batch, batch], property other := by
  simp [holds]

/-- The log holding the batch `nullKeyBuilder` builds twice compacts to an empty first batch,
all three of its records dropped and two counted, and a second batch that keeps only its last
record, one dropped and counted. -/
theorem compactLog_null_key_pair {batch : Batch} (built : nullKeyBuilder.build = .ok batch) :
    ∃ first second, compactLog [batch, batch] = .ok [first, second] ∧ first.records = 2 ∧
      first.batch.records = [] ∧ second.records = 1 ∧
      second.batch.records = [⟨0, 0, 2, some [107], some [99], []⟩] := by
  obtain ⟨other, second, otherBuilt, records, increasing, compacted, one, kept⟩ :=
    nullKeyBuilder_compact
  obtain rfl : batch = other := Except.ok.inj (built.symm.trans otherBuilt)
  have keys : batch.keys = {[107]} := by
    rw [Batch.keys, records]
    decide
  have distinct := increasing.nodup
  obtain ⟨first, firstCompacted⟩ := Batch.compact_ok batch {[107]} (Batch.fits_of_built built)
  obtain ⟨counted, -⟩ := Batch.compact_eq distinct firstCompacted
  obtain ⟨-, firstRecords⟩ := Batch.compact_records distinct firstCompacted
  have emptied : latest {[107]} batch.records = [] := by
    rw [records]
    decide
  have two : first.records = 2 := by
    rw [emptied, records] at counted
    simpa using counted
  refine ⟨first, second, ?_, two, by rw [firstRecords, if_pos (by omega), emptied], one, kept⟩
  simp [compactLog, laterKeys, keys, firstCompacted, compacted]

/-- Log-level last write wins: compacting every batch of a log of built batches against the
keys of the later batches succeeds, keeps every batch's fields and so its maximum offset,
and leaves across the log exactly one record of each key that occurs in it, the last one.

Proof: by induction over the log. The batch at the front keeps the last of its records with
a key when no later batch has the key (`latest_filter_key`), and none of them otherwise. -/
theorem compactLog_last_write_wins (batches : List Batch)
    (built : ∀ batch ∈ batches, ∃ builder : Builder, builder.build = .ok batch)
    (increasing : ∀ batch ∈ batches, OffsetDeltasIncrease batch.records) :
    ∃ compactions, compactLog batches = .ok compactions ∧
      List.Forall₂ (fun compaction batch => compaction.batch.SameFields batch ∧
        compaction.batch.maxOffset = batch.maxOffset) compactions batches ∧
      ∀ key, (compactions.map fun compaction => compaction.batch.records).flatten.filter
          (fun record => record.key = some key) =
        ((batches.map Batch.records).flatten.filter
          (fun record => record.key = some key)).getLast?.toList := by
  induction batches with
  | nil => exact ⟨[], rfl, List.Forall₂.nil, fun key => rfl⟩
  | cons batch later inductionHypothesis =>
    obtain ⟨rest, compactedRest, sameRest, lastRest⟩ := inductionHypothesis
      (fun other member => built other (List.mem_cons_of_mem batch member))
      (fun other member => increasing other (List.mem_cons_of_mem batch member))
    obtain ⟨builder, batchBuilt⟩ := built batch (List.mem_cons_self batch later)
    have distinct := (increasing batch (List.mem_cons_self batch later)).nodup
    obtain ⟨compaction, compacted⟩ :=
      Batch.compact_ok batch (laterKeys later) (Batch.fits_of_built batchBuilt)
    have same := (Batch.compact_records distinct compacted).1
    refine ⟨compaction :: rest, by simp [compactLog, compacted, compactedRest],
      List.Forall₂.cons ⟨same, same.maxOffset⟩ sameRest, fun key => ?_⟩
    simp only [List.map_cons, List.flatten_cons, List.filter_append,
      Batch.compact_filter_key distinct compacted, latest_filter_key, lastRest]
    by_cases inLater : key ∈ laterKeys later
    · obtain ⟨record, member, keyed⟩ := (mem_laterKeys later key).mp inLater
      have present : (later.map Batch.records).flatten.filter (fun record => record.key = some key) ≠ [] :=
        List.ne_nil_of_mem (List.mem_filter.mpr ⟨member, by simp [keyed]⟩)
      rw [if_pos inLater, List.nil_append, List.getLast?_append_of_ne_nil _ present]
    · have absent : (later.map Batch.records).flatten.filter (fun record => record.key = some key) = [] :=
        List.filter_eq_nil_iff.mpr (fun record member keyed =>
          inLater ((mem_laterKeys later key).mpr ⟨record, member, by simpa using keyed⟩))
      simp [inLater, absent]

/-- A log holding the batch `nullKeyBuilder` builds twice meets the law. The key `k` is in both
copies: the first copy loses all its records, the second keeps only its last. -/
theorem compactLog_last_write_wins_null_key :
    ∃ batch, nullKeyBuilder.build = .ok batch ∧ batch.records = nullKeyRecords ∧
      (∀ other ∈ [batch, batch], ∃ builder : Builder, builder.build = .ok other) ∧
      (∀ other ∈ [batch, batch], OffsetDeltasIncrease other.records) ∧
      ∃ compactions, compactLog [batch, batch] = .ok compactions ∧
        List.Forall₂ (fun compaction other => compaction.batch.SameFields other ∧
          compaction.batch.maxOffset = other.maxOffset) compactions [batch, batch] ∧
        (∀ key, (compactions.map fun compaction => compaction.batch.records).flatten.filter
            (fun record => record.key = some key) =
          (([batch, batch].map Batch.records).flatten.filter
            (fun record => record.key = some key)).getLast?.toList) ∧
        compactions.map (fun compaction => compaction.batch.records) =
          [[], [⟨0, 0, 2, some [107], some [99], []⟩]] := by
  obtain ⟨batch, -, built, records, increasing, -⟩ := nullKeyBuilder_compact
  have builtBoth : ∀ other ∈ [batch, batch], ∃ builder : Builder, builder.build = .ok other :=
    forall_mem_pair ⟨nullKeyBuilder, built⟩
  replace increasing : ∀ other ∈ [batch, batch], OffsetDeltasIncrease other.records :=
    forall_mem_pair increasing
  obtain ⟨compactions, compacted, same, last⟩ := compactLog_last_write_wins _ builtBoth increasing
  obtain ⟨first, second, pair, -, emptied, -, kept⟩ := compactLog_null_key_pair built
  obtain rfl : compactions = [first, second] := Except.ok.inj (compacted.symm.trans pair)
  exact ⟨batch, built, records, builtBoth, increasing, [first, second], compacted, same, last,
    by simp [emptied, kept]⟩

/-- Compacting a log leaves every suffix with the keys it had: each batch loses only keys
that a later batch has. -/
theorem compactLog_laterKeys {batches : List Batch} {compactions : List Compaction}
    (increasing : ∀ batch ∈ batches, OffsetDeltasIncrease batch.records)
    (compacted : compactLog batches = .ok compactions) :
    laterKeys (compactions.map Compaction.batch) = laterKeys batches := by
  induction batches generalizing compactions with
  | nil =>
    cases compacted
    rfl
  | cons batch later inductionHypothesis =>
    obtain ⟨compaction, rest, first, others, rfl⟩ := compactLog_cons_ok compacted
    have distinct := (increasing batch (List.mem_cons_self batch later)).nodup
    rw [List.map_cons, laterKeys_cons, laterKeys_cons, Batch.compact_keys distinct first,
      inductionHypothesis (fun other member => increasing other (List.mem_cons_of_mem batch member))
        others, Finset.sdiff_union_self_eq_union]

/-- Log compaction is idempotent: compacting the compacted log of built batches again drops
nothing and returns every batch as it is.

Proof: by induction over the log. The later batches keep their keys (`compactLog_laterKeys`),
so each batch is compacted again against the same head, which drops nothing
(`Batch.compact_again`). -/
theorem compactLog_idempotent (batches : List Batch)
    (built : ∀ batch ∈ batches, ∃ builder : Builder, builder.build = .ok batch)
    (increasing : ∀ batch ∈ batches, OffsetDeltasIncrease batch.records) :
    ∃ compactions, compactLog batches = .ok compactions ∧
      compactLog (compactions.map Compaction.batch) =
        .ok (compactions.map fun compaction => { compaction with records := 0 }) := by
  induction batches with
  | nil => exact ⟨[], rfl, rfl⟩
  | cons batch later inductionHypothesis =>
    have laterIncreasing := fun other member => increasing other (List.mem_cons_of_mem batch member)
    obtain ⟨rest, compactedRest, again⟩ := inductionHypothesis
      (fun other member => built other (List.mem_cons_of_mem batch member)) laterIncreasing
    obtain ⟨builder, batchBuilt⟩ := built batch (List.mem_cons_self batch later)
    have fits := Batch.fits_of_built batchBuilt
    have distinct := (increasing batch (List.mem_cons_self batch later)).nodup
    obtain ⟨compaction, compacted⟩ := Batch.compact_ok batch (laterKeys later) fits
    refine ⟨compaction :: rest, by simp [compactLog, compacted, compactedRest], ?_⟩
    simp [compactLog, compactLog_laterKeys laterIncreasing compactedRest,
      Batch.compact_again fits distinct compacted, again]

/-- A log holding the batch `nullKeyBuilder` builds twice compacts, two records of the first copy
and one of the second counted, to a log that compacts to itself. -/
theorem compactLog_idempotent_null_key :
    ∃ batch, nullKeyBuilder.build = .ok batch ∧ batch.records = nullKeyRecords ∧
      (∀ other ∈ [batch, batch], ∃ builder : Builder, builder.build = .ok other) ∧
      (∀ other ∈ [batch, batch], OffsetDeltasIncrease other.records) ∧
      ∃ compactions, compactLog [batch, batch] = .ok compactions ∧
        compactLog (compactions.map Compaction.batch) =
          .ok (compactions.map fun compaction => { compaction with records := 0 }) ∧
        compactions.map Compaction.records = [2, 1] := by
  obtain ⟨batch, -, built, records, increasing, -⟩ := nullKeyBuilder_compact
  have builtBoth : ∀ other ∈ [batch, batch], ∃ builder : Builder, builder.build = .ok other :=
    forall_mem_pair ⟨nullKeyBuilder, built⟩
  replace increasing : ∀ other ∈ [batch, batch], OffsetDeltasIncrease other.records :=
    forall_mem_pair increasing
  obtain ⟨compactions, compacted, again⟩ := compactLog_idempotent _ builtBoth increasing
  obtain ⟨first, second, pair, two, -, one, -⟩ := compactLog_null_key_pair built
  obtain rfl : compactions = [first, second] := Except.ok.inj (compacted.symm.trans pair)
  exact ⟨batch, built, records, builtBoth, increasing, [first, second], compacted, again,
    by simp [two, one]⟩

/-- The keys after a batch in a grown log: those of the old log after it, and the new ones. -/
theorem laterKeys_append (later more : List Batch) :
    laterKeys (later ++ more) = laterKeys later ∪ laterKeys more := by
  induction later with
  | nil => simp [laterKeys]
  | cons batch others inductionHypothesis =>
    rw [List.cons_append, laterKeys_cons, laterKeys_cons, inductionHypothesis, Finset.union_assoc]

/-- A log of built batches compacts. -/
theorem compactLog_ok (batches : List Batch)
    (built : ∀ batch ∈ batches, ∃ builder : Builder, builder.build = .ok batch) :
    ∃ compactions, compactLog batches = .ok compactions := by
  induction batches with
  | nil => exact ⟨[], rfl⟩
  | cons batch later inductionHypothesis =>
    obtain ⟨rest, compactedRest⟩ :=
      inductionHypothesis (fun other member => built other (List.mem_cons_of_mem batch member))
    obtain ⟨builder, batchBuilt⟩ := built batch (List.mem_cons_self batch later)
    obtain ⟨compaction, compacted⟩ :=
      Batch.compact_ok batch (laterKeys later) (Batch.fits_of_built batchBuilt)
    exact ⟨compaction :: rest, by simp [compactLog, compacted, compactedRest]⟩

/-- Log compaction is incremental: compacting a log, appending batches to the compacted log
and compacting again gives the batches one compaction of the grown log gives, and the
records the two passes drop add up to those the one pass drops.

Proof: by induction over the old log. A compacted suffix keeps its keys
(`compactLog_laterKeys`), so the second pass compacts each batch against the keys of its old
successors and of the new batches, and two compactions compose into one against both heads
(`Batch.compact_union`). -/
theorem compactLog_append (batches more : List Batch)
    (built : ∀ batch ∈ batches ++ more, ∃ builder : Builder, builder.build = .ok batch)
    (increasing : ∀ batch ∈ batches ++ more, OffsetDeltasIncrease batch.records) :
    ∃ first second whole, compactLog batches = .ok first ∧
      compactLog (first.map Compaction.batch ++ more) = .ok second ∧
      compactLog (batches ++ more) = .ok whole ∧
      second.map Compaction.batch = whole.map Compaction.batch ∧
      (whole.map Compaction.records).sum =
        (first.map Compaction.records).sum + (second.map Compaction.records).sum := by
  induction batches with
  | nil =>
    obtain ⟨whole, compacted⟩ := compactLog_ok more built
    exact ⟨[], whole, whole, rfl, compacted, compacted, rfl, by simp⟩
  | cons batch later inductionHypothesis =>
    obtain ⟨first, second, whole, firstRest, secondRest, wholeRest, sameBatches, sums⟩ :=
      inductionHypothesis (fun other member => built other (List.mem_cons_of_mem batch member))
        (fun other member => increasing other (List.mem_cons_of_mem batch member))
    obtain ⟨builder, batchBuilt⟩ := built batch (List.mem_cons_self _ _)
    have fits := Batch.fits_of_built batchBuilt
    have distinct := (increasing batch (List.mem_cons_self _ _)).nodup
    obtain ⟨compaction, compacted⟩ := Batch.compact_ok batch (laterKeys later) fits
    have laterIncreasing : ∀ other ∈ later, OffsetDeltasIncrease other.records := fun other member =>
      increasing other (List.mem_cons_of_mem batch (List.mem_append_left more member))
    have head : laterKeys (first.map Compaction.batch ++ more) =
        laterKeys later ∪ laterKeys more := by
      rw [laterKeys_append, compactLog_laterKeys laterIncreasing firstRest]
    obtain ⟨compactedFits, -⟩ := Batch.compact_fits fits distinct compacted
    obtain ⟨again, compactedAgain⟩ :=
      Batch.compact_ok compaction.batch (laterKeys later ∪ laterKeys more) compactedFits
    have union := Batch.compact_union fits distinct compacted compactedAgain
    rw [← Finset.union_assoc, Finset.union_self, ← laterKeys_append] at union
    refine ⟨compaction :: first, again :: second,
      { batch := again.batch, records := compaction.records + again.records } :: whole,
      by simp [compactLog, compacted, firstRest], ?_, ?_, ?_, ?_⟩
    · simp [compactLog, head, compactedAgain, secondRest]
    · simp [compactLog, union, wholeRest]
    · simp [sameBatches]
    · simp only [List.map_cons, List.sum_cons, sums]
      omega

/-- The batch `nullKeyBuilder` builds, compacted alone, one record counted, and then with a copy
of it appended, compacts as the log of both, where two records of the first copy and one of
the second are counted. -/
theorem compactLog_append_null_key :
    ∃ batch, nullKeyBuilder.build = .ok batch ∧ batch.records = nullKeyRecords ∧
      (∀ other ∈ [batch] ++ [batch], ∃ builder : Builder, builder.build = .ok other) ∧
      (∀ other ∈ [batch] ++ [batch], OffsetDeltasIncrease other.records) ∧
      ∃ first second whole, compactLog [batch] = .ok first ∧
        compactLog (first.map Compaction.batch ++ [batch]) = .ok second ∧
        compactLog ([batch] ++ [batch]) = .ok whole ∧
        second.map Compaction.batch = whole.map Compaction.batch ∧
        (whole.map Compaction.records).sum =
          (first.map Compaction.records).sum + (second.map Compaction.records).sum ∧
        first.map Compaction.records = [1] ∧ whole.map Compaction.records = [2, 1] := by
  obtain ⟨batch, compaction, built, records, increasing, compacted, one, -⟩ := nullKeyBuilder_compact
  have builtBoth : ∀ other ∈ [batch] ++ [batch], ∃ builder : Builder, builder.build = .ok other :=
    forall_mem_pair ⟨nullKeyBuilder, built⟩
  replace increasing : ∀ other ∈ [batch] ++ [batch], OffsetDeltasIncrease other.records :=
    forall_mem_pair increasing
  obtain ⟨first, second, whole, single, again, both, same, sums⟩ :=
    compactLog_append _ _ builtBoth increasing
  obtain ⟨pairFirst, pairSecond, pair, two, -, pairOne, -⟩ := compactLog_null_key_pair built
  have alone : compactLog [batch] = .ok [compaction] := by
    simp [compactLog, laterKeys, compacted]
  obtain rfl : first = [compaction] := Except.ok.inj (single.symm.trans alone)
  obtain rfl : whole = [pairFirst, pairSecond] := Except.ok.inj (both.symm.trans pair)
  exact ⟨batch, built, records, builtBoth, increasing, [compaction], second, [pairFirst, pairSecond],
    single, again, both, same, sums, by simp [one], by simp [two, pairOne]⟩

/-! ## Compacted batches on the wire -/

/-- What compaction writes back is fit to replace the batch it compacts: for every built
uncompressed batch of magic 2, the compacted batch reads back from its encoding in front of
any bytes, and its encoding is no longer than the batch's, and shorter whenever compaction
dropped a record.

Proof: the compacted batch is built either way, with the batch's magic and attributes, so it
is framed (`Batch.uncompressed_framed`) and reads back (`Batch.deserialize_run_uncompressed`);
its records are a sublist of the batch's, missing at least one when the count is positive. -/
theorem compact_written_back (builder : Builder) (batch : Batch) (built : builder.build = .ok batch)
    (magic : builder.magic = 2) (uncompressed : Compression.tryFrom builder.attributes = .ok .None)
    (increasing : OffsetDeltasIncrease batch.records) (head : Finset Bytes)
    (decompress : Compression → Bytes → Except Error Bytes) :
    ∃ compaction, batch.compact head = .ok compaction ∧
      (∀ rest, (Batch.deserialize decompress).run (compaction.batch.serialize ++ rest) =
        .ok (compaction.batch, rest)) ∧
      compaction.batch.serialize.length ≤ batch.serialize.length ∧
      (0 < compaction.records → compaction.batch.serialize.length < batch.serialize.length) := by
  have distinct := increasing.nodup
  obtain ⟨compaction, compacted⟩ := Batch.compact_ok batch head (Batch.fits_of_built built)
  obtain ⟨counted, rebuilt⟩ := Batch.compact_eq distinct compacted
  obtain ⟨same, records⟩ := Batch.compact_records distinct compacted
  obtain ⟨back, -⟩ := Builder.build_ok built
  obtain ⟨rebuilder, builtBack⟩ : ∃ builder : Builder, builder.build = .ok compaction.batch := by
    split at rebuilt
    · exact ⟨_, rebuilt⟩
    · exact ⟨builder, rebuilt ▸ built⟩
  have sameMagic : compaction.batch.magic = 2 := by
    rw [same.magic, ← magic, ← back]
    rfl
  have sameAttributes : compaction.batch.attributes = builder.attributes := by
    rw [same.attributes, ← back]
    rfl
  have shorter (positive : 0 < compaction.records) :
      compaction.batch.serialize.length < batch.serialize.length := by
    have keyed : keyedCount batch.records ≤ batch.records.length := List.countP_le_length _
    rw [Batch.serialize_length_records, Batch.serialize_length_records, records, if_pos positive]
    have := flatten_length_lt_of_sublist Record.serialize Record.serialize_ne_nil
      (latest_sublist head batch.records) (by omega)
    omega
  refine ⟨compaction, compacted, fun rest => Batch.deserialize_run_uncompressed decompress _
      (Batch.uncompressed_framed _ _ builtBack sameMagic) (sameAttributes ▸ uncompressed)
      (Batch.crcSegment_length_lt builtBack) rest, ?_, shorter⟩
  by_cases positive : 0 < compaction.records
  · exact (shorter positive).le
  · rw [if_neg positive] at rebuilt
    rw [rebuilt]

/-- The batch `nullKeyBuilder` builds is written back as it should after compaction against the
empty head, which counts one record and rebuilds the batch. -/
theorem compact_written_back_null_key :
    ∃ batch, nullKeyBuilder.build = .ok batch ∧ batch.records = nullKeyRecords ∧
      nullKeyBuilder.magic = 2 ∧ Compression.tryFrom nullKeyBuilder.attributes = .ok .None ∧
      OffsetDeltasIncrease batch.records ∧
      ∃ compaction, batch.compact ∅ = .ok compaction ∧
        (∀ rest, (Batch.deserialize (fun _ bytes => .ok bytes)).run
          (compaction.batch.serialize ++ rest) = .ok (compaction.batch, rest)) ∧
        compaction.batch.serialize.length ≤ batch.serialize.length ∧
        (0 < compaction.records → compaction.batch.serialize.length < batch.serialize.length) ∧
        compaction.records = 1 := by
  obtain ⟨batch, compaction, built, records, increasing, compacted, one, -⟩ := nullKeyBuilder_compact
  obtain ⟨result, resulted, decodes, noLonger, shorter⟩ :=
    compact_written_back _ _ built rfl rfl increasing ∅ (fun _ bytes => .ok bytes)
  obtain rfl : result = compaction := Except.ok.inj (resulted.symm.trans compacted)
  exact ⟨batch, built, records, rfl, rfl, increasing, result, resulted, decodes, noLonger, shorter,
    one⟩

end Tansu.Inflated
