import Tansu.Inflated

/-!
# Compaction of a batch

`Batch::compact` walks the records once, keeping in a `BTreeMap` the offset delta of the
last record seen for each key outside the head set and counting the records it drops: a
keyed record whose key is in the head, or whose key was already in the map. When the
count is positive it retains the records whose offset delta is one of the map's values and
rebuilds the batch; otherwise it returns the batch as it was.

`latest` states what the walk computes: the keyed records outside the head that no later
record of the batch shares a key with. `compactLoop_eq` is the loop invariant, and
`Batch.compact_eq` restates the whole function through `latest` for every batch whose
offset deltas are distinct. From it, `compact_exact` describes compaction of every built
batch, and `compact_compose` shows that compacting against two heads one after the other is
compacting once against both.

Null-keyed records never enter the map and are never counted, but the retain step drops
them whenever it runs: `compact_drops_null_key` and `compact_undercounts_null_key` evaluate
that on a batch the source's tests do not cover.
-/

namespace Tansu.Inflated

/-- `Compaction`: the compacted batch and the number of records dropped. -/
structure Compaction where
  batch : Batch
  records : Nat
  deriving DecidableEq, Repr

/-- `BTreeMap::insert` on the map from keys to offset deltas, held as a list of entries with
distinct keys: the previous value of the key, if any, and the updated map. -/
def insertOffset (map : List (Bytes × BitVec 32)) (key : Bytes) (offsetDelta : BitVec 32) :
    Option (BitVec 32) × List (Bytes × BitVec 32) :=
  ((map.find? (fun entry => entry.1 = key)).map Prod.snd,
    (key, offsetDelta) :: map.filter (fun entry => entry.1 ≠ key))

/-- One iteration of the loop of `Batch::compact`: the map of last offset deltas by key and
the count of dropped records, after one more record. -/
def compactStep (head : Finset Bytes) (state : List (Bytes × BitVec 32) × Nat) (record : Record) :
    List (Bytes × BitVec 32) × Nat :=
  match record.key with
  | none => state
  | some key =>
    if key ∈ head then (state.1, state.2 + 1)
    else
      let (previous, map) := insertOffset state.1 key record.offsetDelta
      (map, if previous.isSome then state.2 + 1 else state.2)

/-- The loop of `Batch::compact` over a list of records. -/
def compactLoop (head : Finset Bytes) (records : List Record) : List (Bytes × BitVec 32) × Nat :=
  records.foldl (compactStep head) ([], 0)

/-- `Batch::compact`. -/
def Batch.compact (batch : Batch) (head : Finset Bytes) : Except Error Compaction :=
  let (lastDeltaOffsetForKey, records) := compactLoop head batch.records
  if records > 0 then
    let deltaOffsetsToRetain := lastDeltaOffsetForKey.map Prod.snd
    ({ batch with records := batch.records.filter (fun record =>
        record.offsetDelta ∈ deltaOffsetsToRetain) }.intoBuilder.build).map
      (fun compacted => { batch := compacted, records })
  else .ok { batch, records }

/-! ## The records compaction keeps -/

/-- The keyed records outside the head that no later record shares a key with. -/
def latest (head : Finset Bytes) : List Record → List Record
  | [] => []
  | record :: later =>
    match record.key with
    | none => latest head later
    | some key =>
      if key ∉ head ∧ ∀ other ∈ later, other.key ≠ some key then record :: latest head later
      else latest head later

/-- The number of records with a key. -/
def keyedCount (records : List Record) : Nat := records.countP (fun record => record.key.isSome)

/-- Compaction keeps some of the records, in their order. -/
theorem latest_sublist (head : Finset Bytes) (records : List Record) :
    (latest head records).Sublist records := by
  induction records with
  | nil => exact List.Sublist.slnil
  | cons record later inductionHypothesis =>
    unfold latest
    split
    · exact inductionHypothesis.cons record
    · split
      · exact inductionHypothesis.cons₂ record
      · exact inductionHypothesis.cons record

/-- Every record compaction keeps has a key that is not in the head. -/
theorem key_of_mem_latest {head : Finset Bytes} {records : List Record} {record : Record}
    (member : record ∈ latest head records) : ∃ key, record.key = some key ∧ key ∉ head := by
  induction records with
  | nil => cases member
  | cons first later inductionHypothesis =>
    unfold latest at member
    split at member
    · exact inductionHypothesis member
    · rename_i key keyed
      split at member
      · rename_i kept
        rcases List.mem_cons.mp member with rfl | member
        · exact ⟨key, keyed, kept.1⟩
        · exact inductionHypothesis member
      · exact inductionHypothesis member

/-- The records `latest` keeps for one key: none when the key is in the head, else the last
record with that key. -/
theorem latest_filter_key (head : Finset Bytes) (records : List Record) (key : Bytes) :
    (latest head records).filter (fun record => record.key = some key) =
      if key ∈ head then [] else (records.filter (fun record => record.key = some key)).getLast?.toList := by
  induction records with
  | nil => simp [latest]
  | cons first later inductionHypothesis =>
    cases keyed : first.key with
    | none => simp [latest, keyed, inductionHypothesis]
    | some firstKey =>
      by_cases same : firstKey = key
      · subst same
        by_cases inHead : firstKey ∈ head
        · simp [latest, keyed, inHead, inductionHypothesis]
        · by_cases last : ∀ other ∈ later, other.key ≠ some firstKey
          · have dropped : later.filter (fun record => record.key = some firstKey) = [] := by
              simpa [List.filter_eq_nil_iff] using last
            simp [latest, keyed, inHead, if_pos last, inductionHypothesis, dropped]
          · obtain ⟨other, member, otherKey⟩ : ∃ other ∈ later, other.key = some firstKey := by
              simpa using last
            obtain ⟨found, findFound⟩ := Option.isSome_iff_exists.mp
              (List.find?_isSome.mpr ⟨other, List.mem_reverse.mpr member, by simpa using otherKey⟩ :
                (later.reverse.find? (fun record => record.key = some firstKey)).isSome)
            simp [latest, keyed, inHead, if_neg last, inductionHypothesis, List.getLast?_cons, findFound]
      · simp only [latest, keyed]
        split <;> simp [keyed, same, inductionHypothesis]

/-- A record that compaction never keeps leaves the kept records as they were. -/
theorem latest_append_of_dropped (head : Finset Bytes) (records : List Record) (record : Record)
    (dropped : ∀ key, record.key = some key → key ∈ head) :
    latest head (records ++ [record]) = latest head records := by
  induction records with
  | nil =>
    cases keyed : record.key with
    | none => simp [latest, keyed]
    | some key => simp [latest, keyed, dropped key keyed]
  | cons first later inductionHypothesis =>
    cases keyed : first.key with
    | none => simp [latest, keyed, inductionHypothesis]
    | some key =>
      have unchanged : (key ∉ head ∧ ∀ other ∈ later ++ [record], other.key ≠ some key) ↔
          (key ∉ head ∧ ∀ other ∈ later, other.key ≠ some key) := by
        simp only [List.mem_append, List.mem_singleton, or_imp, forall_and, forall_eq]
        exact ⟨fun ⟨outside, absent, _⟩ => ⟨outside, absent⟩,
          fun ⟨outside, absent⟩ => ⟨outside, absent, fun recordKey => outside (dropped key recordKey)⟩⟩
      simp only [List.cons_append, latest, List.append_eq, keyed, unchanged, inductionHypothesis]

/-- A keyed record outside the head is kept, and the record it supersedes, if any, is not. -/
theorem latest_append_of_kept (head : Finset Bytes) (records : List Record) (record : Record)
    (key : Bytes) (keyed : record.key = some key) (outside : key ∉ head) :
    latest head (records ++ [record]) =
      (latest head records).filter (fun other => other.key ≠ some key) ++ [record] := by
  induction records with
  | nil => simp [latest, keyed, outside]
  | cons first later inductionHypothesis =>
    cases firstKeyed : first.key with
    | none => simp [latest, firstKeyed, inductionHypothesis]
    | some firstKey =>
      by_cases same : firstKey = key
      · subst same
        have superseded : ¬(firstKey ∉ head ∧ ∀ other ∈ later ++ [record], other.key ≠ some firstKey) :=
          fun ⟨_, absent⟩ => absent record (by simp) keyed
        simp only [List.cons_append, latest, List.append_eq, firstKeyed, if_neg superseded,
          inductionHypothesis]
        split <;> simp [firstKeyed]
      · have distinct : record.key ≠ some firstKey := by simp [keyed, Ne.symm same]
        have unchanged : (firstKey ∉ head ∧ ∀ other ∈ later ++ [record], other.key ≠ some firstKey) ↔
            (firstKey ∉ head ∧ ∀ other ∈ later, other.key ≠ some firstKey) := by
          simp only [List.mem_append, List.mem_singleton, or_imp, forall_and, forall_eq]
          exact ⟨fun ⟨outside, absent, _⟩ => ⟨outside, absent⟩,
            fun ⟨outside, absent⟩ => ⟨outside, absent, distinct⟩⟩
        simp only [List.cons_append, latest, List.append_eq, firstKeyed, unchanged,
          inductionHypothesis]
        split <;> simp [firstKeyed, same]

/-- One more record adds one to the count when it has a key. -/
@[simp] theorem keyedCount_append_singleton (records : List Record) (record : Record) :
    keyedCount (records ++ [record]) = keyedCount records + if record.key.isSome then 1 else 0 := by
  simp [keyedCount, List.countP_append, List.countP_cons]

/-- Compacting the kept records against a second head keeps what compacting against both
heads keeps. -/
theorem latest_latest (head next : Finset Bytes) (records : List Record) :
    latest next (latest head records) = latest (head ∪ next) records := by
  induction records with
  | nil => rfl
  | cons first later inductionHypothesis =>
    cases keyed : first.key with
    | none => simp [latest, keyed, inductionHypothesis]
    | some key =>
      by_cases kept : key ∉ head ∧ ∀ other ∈ later, other.key ≠ some key
      · have absent : ∀ other ∈ latest head later, other.key ≠ some key :=
          fun other member => kept.2 other ((latest_sublist head later).subset member)
        have same : (key ∉ next ∧ ∀ other ∈ latest head later, other.key ≠ some key) ↔
            (key ∉ head ∪ next ∧ ∀ other ∈ later, other.key ≠ some key) := by
          simp only [Finset.mem_union, not_or, kept.1, not_false_eq_true, true_and]
          exact ⟨fun ⟨outside, _⟩ => ⟨outside, kept.2⟩, fun ⟨outside, _⟩ => ⟨outside, absent⟩⟩
        simp only [latest, keyed, if_pos kept, same, inductionHypothesis]
      · have dropped : ¬(key ∉ head ∪ next ∧ ∀ other ∈ later, other.key ≠ some key) :=
          fun ⟨outside, absent⟩ => kept ⟨fun member => outside (Finset.mem_union_left next member), absent⟩
        simp only [latest, keyed, if_neg kept, if_neg dropped, inductionHypothesis]

/-- Null-keyed records do not change what compaction keeps. -/
theorem latest_filter_keyed (head : Finset Bytes) (records : List Record) :
    latest head (records.filter (fun record => record.key.isSome)) = latest head records := by
  induction records with
  | nil => rfl
  | cons first later inductionHypothesis =>
    cases keyed : first.key with
    | none => simp [latest, keyed, inductionHypothesis]
    | some key =>
      have unchanged : (∀ other ∈ later.filter (fun record => record.key.isSome), other.key ≠ some key) ↔
          ∀ other ∈ later, other.key ≠ some key := by
        simp only [List.mem_filter, and_imp]
        exact ⟨fun absent other member same => absent other member (by simp [same]) same,
          fun absent other member _ => absent other member⟩
      rw [List.filter_cons_of_pos (by simp [keyed])]
      simp only [latest, keyed, unchanged, inductionHypothesis]

/-- Every kept record has a key. -/
theorem latest_filter_isSome (head : Finset Bytes) (records : List Record) :
    (latest head records).filter (fun record => record.key.isSome) = latest head records := by
  rw [List.filter_eq_self]
  intro record member
  obtain ⟨key, keyed, _⟩ := key_of_mem_latest member
  simp [keyed]

/-- Every record compaction keeps has a key. -/
theorem keyedCount_latest (head : Finset Bytes) (records : List Record) :
    keyedCount (latest head records) = (latest head records).length := by
  rw [keyedCount, List.countP_eq_length_filter, latest_filter_isSome]

/-- When compaction keeps as many records as have a key, it keeps every keyed record. -/
theorem latest_eq_of_length (head : Finset Bytes) (records : List Record)
    (counted : (latest head records).length = keyedCount records) :
    latest head records = records.filter (fun record => record.key.isSome) := by
  have sub := (latest_sublist head records).filter (fun record => record.key.isSome)
  rw [latest_filter_isSome] at sub
  exact sub.eq_of_length (by rw [counted, keyedCount, List.countP_eq_length_filter])

/-! ## The loop of `Batch::compact` -/

/-- The entry the map of `Batch::compact` holds for a kept record. -/
def entryOf (record : Record) : Bytes × BitVec 32 := (record.key.getD [], record.offsetDelta)

/-- A kept record's entry has the record's key. -/
theorem entryOf_key_eq {head : Finset Bytes} {records : List Record} {record : Record}
    (member : record ∈ latest head records) (key : Bytes) :
    (entryOf record).1 = key ↔ record.key = some key := by
  obtain ⟨recordKey, keyed, _⟩ := key_of_mem_latest member
  simp [entryOf, keyed]

/-- At most one kept record has a given key. -/
theorem latest_filter_key_length_le (head : Finset Bytes) (records : List Record) (key : Bytes) :
    ((latest head records).filter (fun record => record.key = some key)).length ≤ 1 := by
  rw [latest_filter_key]
  split
  · simp
  · cases (records.filter (fun record => record.key = some key)).getLast? <;> simp

/-- One iteration keeps the loop's invariant: the map holds the entries of the records kept so
far, the newest first, and the count and the kept records together number the keyed records. -/
theorem compactStep_invariant (head : Finset Bytes) (records : List Record) (record : Record)
    (count : Nat) (counted : count + (latest head records).length = keyedCount records) :
    (compactStep head (((latest head records).map entryOf).reverse, count) record).1 =
        ((latest head (records ++ [record])).map entryOf).reverse ∧
      (compactStep head (((latest head records).map entryOf).reverse, count) record).2 +
        (latest head (records ++ [record])).length = keyedCount (records ++ [record]) := by
  cases keyed : record.key with
  | none =>
    rw [latest_append_of_dropped head records record (by simp [keyed])]
    simp [compactStep, keyed, counted]
  | some key =>
    by_cases inHead : key ∈ head
    · rw [latest_append_of_dropped head records record (by simp [keyed, inHead])]
      simp [compactStep, keyed, inHead, ← counted]
      omega
    · rw [latest_append_of_kept head records record key keyed inHead]
      have partition := @List.length_eq_length_filter_add _ (latest head records)
        (fun other => other.key = some key)
      have atMostOne := latest_filter_key_length_le head records key
      have filtered : ((latest head records).map entryOf).reverse.filter
          (fun entry => entry.1 ≠ key) =
          (((latest head records).filter (fun other => other.key ≠ some key)).map entryOf).reverse := by
        rw [List.filter_reverse, List.filter_map]
        congr 2
        exact List.filter_congr (fun other member => by simp [Function.comp_def, entryOf_key_eq member])
      have found : (((latest head records).map entryOf).reverse.find?
          (fun entry => entry.1 = key)).isSome ↔
          0 < ((latest head records).filter (fun other => other.key = some key)).length := by
        simp only [List.find?_isSome, List.mem_reverse, List.mem_map, List.length_pos, ne_eq,
          List.filter_eq_nil_iff, not_forall, not_not, decide_eq_true_eq]
        constructor
        · rintro ⟨_, ⟨other, member, rfl⟩, hit⟩
          exact ⟨other, member, (entryOf_key_eq member key).mp hit⟩
        · rintro ⟨other, member, hit⟩
          exact ⟨_, ⟨other, member, rfl⟩, (entryOf_key_eq member key).mpr hit⟩
      simp only [compactStep, keyed, if_neg inHead, insertOffset, filtered, Option.isSome_map', found]
      refine ⟨by simp [entryOf, keyed], ?_⟩
      split <;> simp [keyed, ← counted] <;> omega

/-- The loop of `Batch::compact` over any records: the map holds the entries of the kept
records, the newest first, and the count is the number of keyed records not kept.

Proof: by induction from the right over the records, one `compactStep_invariant` per record. -/
theorem compactLoop_eq (head : Finset Bytes) (records : List Record) :
    (compactLoop head records).1 = ((latest head records).map entryOf).reverse ∧
      (compactLoop head records).2 + (latest head records).length = keyedCount records := by
  induction records using List.reverseRecOn with
  | nil => exact ⟨rfl, rfl⟩
  | append_singleton records record inductionHypothesis =>
    obtain ⟨map, counted⟩ := inductionHypothesis
    have unfolded : compactLoop head (records ++ [record]) =
        compactStep head (compactLoop head records) record := by
      simp only [compactLoop, List.foldl_append, List.foldl_cons, List.foldl_nil]
    rw [unfolded, ← Prod.eta (compactLoop head records), map]
    exact compactStep_invariant head records record _ counted

/-! ## What `Batch::compact` returns -/

/-- Retaining the elements of a list whose image is an image of a sublist gives the sublist
back, when the images are distinct. -/
theorem filter_mem_map_of_sublist {α β : Type} [DecidableEq β] (f : α → β) {kept all : List α}
    (sub : kept.Sublist all) (distinct : (all.map f).Nodup) :
    all.filter (fun element => f element ∈ kept.map f) = kept := by
  induction sub with
  | slnil => rfl
  | @cons kept all element sub inductionHypothesis =>
    rw [List.map_cons, List.nodup_cons] at distinct
    have absent : f element ∉ kept.map f := fun member => distinct.1 ((sub.map f).subset member)
    rw [List.filter_cons_of_neg (by simpa using absent), inductionHypothesis distinct.2]
  | @cons₂ kept all element sub inductionHypothesis =>
    rw [List.map_cons, List.nodup_cons] at distinct
    rw [List.filter_cons_of_pos (by simp)]
    refine congrArg _ ((List.filter_congr (fun other member => ?_)).trans (inductionHypothesis distinct.2))
    have differs : f other ≠ f element := fun same => distinct.1 (same ▸ List.mem_map_of_mem f member)
    simp [differs]

/-- The records' offset deltas strictly increase as `i32` values. -/
def OffsetDeltasIncrease (records : List Record) : Prop :=
  records.Pairwise (fun earlier later => earlier.offsetDelta.toInt < later.offsetDelta.toInt)

/-- Increasing offset deltas can be decided. -/
instance (records : List Record) : Decidable (OffsetDeltasIncrease records) :=
  inferInstanceAs (Decidable (List.Pairwise _ _))

/-- Increasing offset deltas are distinct. -/
theorem OffsetDeltasIncrease.nodup {records : List Record} (increasing : OffsetDeltasIncrease records) :
    (records.map Record.offsetDelta).Nodup :=
  List.pairwise_map.mpr (increasing.imp (fun less same => (same ▸ less).false))

/-- `Batch::compact` succeeds on every batch whose builder fits an `i32`: the batch it
rebuilds has fewer records. -/
theorem Batch.compact_ok (batch : Batch) (head : Finset Bytes)
    (fits : batch.intoBuilder.sizeInBytes < 2 ^ 31) : ∃ compaction, batch.compact head = .ok compaction := by
  unfold Batch.compact
  rw [← Prod.eta (compactLoop head batch.records)]
  dsimp only
  split
  · obtain ⟨rebuilt, built, -⟩ := build_subset batch _ fits (List.filter_sublist batch.records)
    exact ⟨_, by rw [built]; rfl⟩
  · exact ⟨_, rfl⟩

/-- What `Batch::compact` returns for a batch whose offset deltas are distinct: it counts the
keyed records it does not keep, and when that count is positive it rebuilds the batch from the
kept records, otherwise it returns the batch as it was.

Proof: the retain step keeps exactly the kept records, by `compactLoop_eq` and
`filter_mem_map_of_sublist`. -/
theorem Batch.compact_eq {batch : Batch} {head : Finset Bytes} {compaction : Compaction}
    (distinct : (batch.records.map Record.offsetDelta).Nodup)
    (compacted : batch.compact head = .ok compaction) :
    compaction.records + (latest head batch.records).length = keyedCount batch.records ∧
      if 0 < compaction.records then
        { batch with records := latest head batch.records }.intoBuilder.build = .ok compaction.batch
      else compaction.batch = batch := by
  obtain ⟨map, counted⟩ := compactLoop_eq head batch.records
  have retained : batch.records.filter (fun record =>
      record.offsetDelta ∈ (compactLoop head batch.records).1.map Prod.snd) =
      latest head batch.records := by
    rw [map, List.map_reverse, List.map_map]
    simpa using filter_mem_map_of_sublist Record.offsetDelta (latest_sublist head batch.records) distinct
  unfold Batch.compact at compacted
  rw [← Prod.eta (compactLoop head batch.records)] at compacted
  dsimp only at compacted
  rw [retained] at compacted
  split at compacted
  · rename_i positive
    cases built : { batch with records := latest head batch.records }.intoBuilder.build with
    | error failure => simp [built, Except.map] at compacted
    | ok rebuilt =>
      simp only [built, Except.map, Except.ok.injEq] at compacted
      subst compacted
      exact ⟨counted, by rw [if_pos positive]⟩
  · rename_i nothing
    simp only [Except.ok.injEq] at compacted
    subst compacted
    exact ⟨counted, by rw [if_neg nothing]⟩

/-- The batch `Batch::compact` returns has the fields of the batch it compacts, and the kept
records when it dropped any, else all of them. -/
theorem Batch.compact_records {batch : Batch} {head : Finset Bytes} {compaction : Compaction}
    (distinct : (batch.records.map Record.offsetDelta).Nodup)
    (compacted : batch.compact head = .ok compaction) :
    compaction.batch.SameFields batch ∧
      compaction.batch.records =
        if 0 < compaction.records then latest head batch.records else batch.records := by
  obtain ⟨-, rebuilt⟩ := Batch.compact_eq distinct compacted
  split
  · rename_i positive
    rw [if_pos positive] at rebuilt
    exact Batch.intoBuilder_eq (Builder.build_ok rebuilt).1
  · rename_i nothing
    rw [if_neg nothing] at rebuilt
    exact rebuilt ▸ ⟨Batch.SameFields.refl _, rfl⟩

/-- Building a builder that fits and compacting the batch it builds, in terms of the records
the builder holds. -/
theorem Builder.build_compact (builder : Builder) (records : List Record)
    (converted : builder.records = records.map Record.into) (fits : builder.sizeInBytes < 2 ^ 31)
    (distinct : (records.map Record.offsetDelta).Nodup) (head : Finset Bytes) :
    ∃ batch compaction, builder.build = .ok batch ∧ batch.records = records ∧
      batch.compact head = .ok compaction ∧
      compaction.records = keyedCount records - (latest head records).length ∧
      compaction.batch.records = if 0 < compaction.records then latest head records else records := by
  obtain ⟨batch, built⟩ := Builder.build_of_fits builder fits
  have batchRecords : batch.records = records := List.map_injective_iff.mpr Record.into_injective
    ((congrArg Builder.records (Builder.build_ok built).1).trans converted)
  obtain ⟨compaction, compacted⟩ := Batch.compact_ok batch head (Batch.fits_of_built built)
  rw [← batchRecords] at distinct ⊢
  obtain ⟨counted, -⟩ := Batch.compact_eq distinct compacted
  exact ⟨batch, compaction, built, rfl, compacted, by omega, (Batch.compact_records distinct compacted).2⟩

/-- The bytes of a decimal number, as `format!` writes it. -/
def decimal (number : Nat) : Bytes := (Nat.toDigits 10 number).map fun digit => digit.toNat.toUInt8

/-- The records of the source's compaction tests: record `i` has offset and timestamp delta `i`,
and the key and value the tests index by the pairs below, `k` or `v` then the index. -/
def compactionTestRecords : List Record :=
  ([(1, 1), (2, 2), (1, 3), (1, 4), (3, 5), (2, 6), (4, 7), (5, 8), (5, 9), (2, 10), (6, 11)].enum).map
    fun (offsetDelta, keyIndex, valueIndex) =>
      ⟨0, BitVec.ofNat 64 offsetDelta, BitVec.ofNat 32 offsetDelta, some (107 :: decimal keyIndex),
        some (118 :: decimal valueIndex), []⟩

/-- The builder of the source's compaction tests. -/
def compactionTestBuilder : Builder :=
  { baseOffset := 98789, partitionLeaderEpoch := -1, magic := 2, attributes := 0,
    lastOffsetDelta := 10, baseTimestamp := 1721978771334, maxTimestamp := 1721978771334 + 11 - 1,
    producerId := -1, producerEpoch := 0, baseSequence := 0,
    records := compactionTestRecords.map Record.into }

/-- The source's `compaction` test: against the empty head, five records are dropped and the
offset deltas 3, 4, 6, 8, 9 and 10 are retained. -/
example : ∃ batch compaction, compactionTestBuilder.build = .ok batch ∧
    batch.compact ∅ = .ok compaction ∧ compaction.records = 5 ∧
    compaction.batch.records.map Record.offsetDelta = [3, 4, 6, 8, 9, 10] := by
  obtain ⟨batch, compaction, built, -, compacted, counted, kept⟩ :=
    Builder.build_compact compactionTestBuilder compactionTestRecords rfl (by decide) (by decide) ∅
  have five : compaction.records = 5 := by rw [counted]; decide
  exact ⟨batch, compaction, built, compacted, five, by rw [kept, five]; decide⟩

/-- The source's `compaction_with_key_in_head_of_log` test: with `k6` in the head, six records
are dropped and the offset deltas 3, 4, 6, 8 and 9 are retained. -/
example : ∃ batch compaction, compactionTestBuilder.build = .ok batch ∧
    batch.compact {[107, 54]} = .ok compaction ∧ compaction.records = 6 ∧
    compaction.batch.records.map Record.offsetDelta = [3, 4, 6, 8, 9] := by
  obtain ⟨batch, compaction, built, -, compacted, counted, kept⟩ :=
    Builder.build_compact compactionTestBuilder compactionTestRecords rfl (by decide) (by decide)
      {[107, 54]}
  have six : compaction.records = 6 := by rw [counted]; decide
  exact ⟨batch, compaction, built, compacted, six, by rw [kept, six]; decide⟩

/-- The records of a batch the compaction tests of the source do not cover: the first has no
key, the other two share the key `k`. -/
def nullKeyRecords : List Record :=
  [⟨0, 0, 0, none, some [97], []⟩, ⟨0, 0, 1, some [107], some [98], []⟩,
    ⟨0, 0, 2, some [107], some [99], []⟩]

/-- A builder of those records, its other fields those of the source's `batch` test. -/
def nullKeyBuilder : Builder :=
  { batchTestBuilder with lastOffsetDelta := 2, records := nullKeyRecords.map Record.into }

/-- The batch built from `nullKeyBuilder` has strictly increasing offset deltas, and compacting
it against the empty head counts one dropped record, the first record with the key `k`, and
keeps only the last record. -/
theorem nullKeyBuilder_compact :
    ∃ batch compaction, nullKeyBuilder.build = .ok batch ∧ batch.records = nullKeyRecords ∧
      OffsetDeltasIncrease batch.records ∧ batch.compact ∅ = .ok compaction ∧
      compaction.records = 1 ∧ compaction.batch.records = [⟨0, 0, 2, some [107], some [99], []⟩] := by
  obtain ⟨batch, compaction, built, records, compacted, counted, kept⟩ :=
    Builder.build_compact nullKeyBuilder nullKeyRecords rfl (by decide) (by decide) ∅
  have one : compaction.records = 1 := by rw [counted]; decide
  exact ⟨batch, compaction, built, records, by rw [records]; decide, compacted, one,
    by rw [kept, one]; decide⟩

/-- Compaction drops a record without a key: the batch built from `nullKeyBuilder` has
strictly increasing offset deltas, and compacting it against the empty head leaves out its
first record, which has no key. -/
theorem compact_drops_null_key :
    ∃ batch compaction, nullKeyBuilder.build = .ok batch ∧ OffsetDeltasIncrease batch.records ∧
      batch.compact ∅ = .ok compaction ∧ ⟨0, 0, 0, none, some [97], []⟩ ∈ batch.records ∧
      ⟨0, 0, 0, none, some [97], []⟩ ∉ compaction.batch.records := by
  obtain ⟨batch, compaction, built, records, increasing, compacted, -, kept⟩ := nullKeyBuilder_compact
  exact ⟨batch, compaction, built, increasing, compacted, by rw [records]; decide,
    by rw [kept]; decide⟩

/-- The count misses that record: compacting the batch built from `nullKeyBuilder` against the
empty head drops two of its three records and reports one. -/
theorem compact_undercounts_null_key :
    ∃ batch compaction, nullKeyBuilder.build = .ok batch ∧ OffsetDeltasIncrease batch.records ∧
      batch.compact ∅ = .ok compaction ∧ compaction.records = 1 ∧
      batch.records.length - compaction.batch.records.length = 2 := by
  obtain ⟨batch, compaction, built, records, increasing, compacted, counted, kept⟩ :=
    nullKeyBuilder_compact
  exact ⟨batch, compaction, built, increasing, compacted, counted,
    by rw [records, kept]; rfl⟩

/-- What compaction does to a built batch whose offset deltas strictly increase: it succeeds,
keeps every field but the length and the CRC, and counts the keyed records it does not keep,
those whose key is in the head and those a later record of their key supersedes. When that
count is zero it returns the batch unchanged; otherwise it returns what `Builder::build` makes
of the batch with the last record of each key outside the head, so without its null-keyed
records. -/
theorem compact_exact (builder : Builder) (batch : Batch) (built : builder.build = .ok batch)
    (increasing : OffsetDeltasIncrease batch.records) (head : Finset Bytes) :
    ∃ compaction, batch.compact head = .ok compaction ∧ compaction.batch.SameFields batch ∧
      compaction.records + (latest head batch.records).length = keyedCount batch.records ∧
      compaction.batch.records =
        (if 0 < compaction.records then latest head batch.records else batch.records) ∧
      if 0 < compaction.records then
        { batch with records := latest head batch.records }.intoBuilder.build = .ok compaction.batch
      else compaction.batch = batch := by
  obtain ⟨compaction, compacted⟩ := Batch.compact_ok batch head (Batch.fits_of_built built)
  obtain ⟨counted, rebuilt⟩ := Batch.compact_eq increasing.nodup compacted
  obtain ⟨same, records⟩ := Batch.compact_records increasing.nodup compacted
  exact ⟨compaction, compacted, same, counted, records, rebuilt⟩

/-- The batch `nullKeyBuilder` builds compacts as described against the empty head, where one
record is counted and the batch is rebuilt. -/
theorem compact_exact_null_key :
    ∃ batch, nullKeyBuilder.build = .ok batch ∧ batch.records = nullKeyRecords ∧
      OffsetDeltasIncrease batch.records ∧
      ∃ compaction, batch.compact ∅ = .ok compaction ∧ compaction.batch.SameFields batch ∧
        compaction.records + (latest ∅ batch.records).length = keyedCount batch.records ∧
        compaction.batch.records =
          (if 0 < compaction.records then latest ∅ batch.records else batch.records) ∧
        (if 0 < compaction.records then
          { batch with records := latest ∅ batch.records }.intoBuilder.build = .ok compaction.batch
        else compaction.batch = batch) ∧ compaction.records = 1 := by
  obtain ⟨batch, compaction, built, records, increasing, compacted, one, -⟩ := nullKeyBuilder_compact
  obtain ⟨result, resulted, same, counted, kept, rebuilt⟩ := compact_exact _ _ built increasing ∅
  obtain rfl : result = compaction := Except.ok.inj (resulted.symm.trans compacted)
  exact ⟨batch, built, records, increasing, result, resulted, same, counted, kept, rebuilt, one⟩

/-- What a compacted batch keeps: compacting it again against a second head keeps what one
compaction against both heads keeps, and its keyed records are those the compaction did not
count as dropped. -/
theorem Batch.compact_latest {batch : Batch} {head : Finset Bytes} {compaction : Compaction}
    (distinct : (batch.records.map Record.offsetDelta).Nodup)
    (compacted : batch.compact head = .ok compaction) :
    (∀ next, latest next compaction.batch.records = latest (head ∪ next) batch.records) ∧
      compaction.records + keyedCount compaction.batch.records = keyedCount batch.records := by
  obtain ⟨counted, -⟩ := Batch.compact_eq distinct compacted
  obtain ⟨-, records⟩ := Batch.compact_records distinct compacted
  rw [records]
  split
  · exact ⟨fun next => latest_latest head next batch.records, by rw [keyedCount_latest]; exact counted⟩
  · rename_i nothing
    have all := latest_eq_of_length head batch.records (by omega)
    exact ⟨fun next => by rw [← latest_latest, all, latest_filter_keyed], by omega⟩

/-- A compacted batch can be compacted again: its builder fits and its offset deltas are
distinct. -/
theorem Batch.compact_fits {batch : Batch} {head : Finset Bytes} {compaction : Compaction}
    (fits : batch.intoBuilder.sizeInBytes < 2 ^ 31)
    (distinct : (batch.records.map Record.offsetDelta).Nodup)
    (compacted : batch.compact head = .ok compaction) :
    compaction.batch.intoBuilder.sizeInBytes < 2 ^ 31 ∧
      (compaction.batch.records.map Record.offsetDelta).Nodup := by
  obtain ⟨-, rebuilt⟩ := Batch.compact_eq distinct compacted
  obtain ⟨-, records⟩ := Batch.compact_records distinct compacted
  rw [records]
  split
  · rename_i positive
    rw [if_pos positive] at rebuilt
    exact ⟨Batch.fits_of_built rebuilt,
      ((latest_sublist head batch.records).map Record.offsetDelta).nodup distinct⟩
  · rename_i nothing
    rw [if_neg nothing] at rebuilt
    exact ⟨rebuilt ▸ fits, distinct⟩

/-- Compacting a compacted batch against the same head drops nothing and returns it as it
is. -/
theorem Batch.compact_again {batch : Batch} {head : Finset Bytes} {compaction : Compaction}
    (fits : batch.intoBuilder.sizeInBytes < 2 ^ 31)
    (distinct : (batch.records.map Record.offsetDelta).Nodup)
    (compacted : batch.compact head = .ok compaction) :
    compaction.batch.compact head = .ok { compaction with records := 0 } := by
  obtain ⟨compactedFits, compactedDistinct⟩ := Batch.compact_fits fits distinct compacted
  obtain ⟨composed, keyed⟩ := Batch.compact_latest distinct compacted
  obtain ⟨counted, -⟩ := Batch.compact_eq distinct compacted
  obtain ⟨again, repeated⟩ := Batch.compact_ok compaction.batch head compactedFits
  obtain ⟨againCounted, againRebuilt⟩ := Batch.compact_eq compactedDistinct repeated
  rw [composed, Finset.union_self] at againCounted againRebuilt
  have nothing : again.records = 0 := by omega
  rw [if_neg (by omega)] at againRebuilt
  rw [repeated, ← againRebuilt, ← nothing]

/-- The step of incremental compaction: compacting a compacted batch against a second head
gives what one compaction against both heads gives, and the counts add up.

Proof: `Batch.compact_latest` relates the records both ways keep and the counts; the batches
agree because both are rebuilt from the same records with the same fields, or both are the
batch as it was. -/
theorem Batch.compact_union {batch : Batch} {head next : Finset Bytes} {first second : Compaction}
    (fits : batch.intoBuilder.sizeInBytes < 2 ^ 31)
    (distinct : (batch.records.map Record.offsetDelta).Nodup)
    (compacted : batch.compact head = .ok first) (again : first.batch.compact next = .ok second) :
    batch.compact (head ∪ next) =
      .ok { batch := second.batch, records := first.records + second.records } := by
  obtain ⟨-, firstDistinct⟩ := Batch.compact_fits fits distinct compacted
  obtain ⟨composed, firstKeyed⟩ := Batch.compact_latest distinct compacted
  obtain ⟨firstCounted, firstRebuilt⟩ := Batch.compact_eq distinct compacted
  obtain ⟨firstSame, firstRecords⟩ := Batch.compact_records distinct compacted
  obtain ⟨secondCounted, secondRebuilt⟩ := Batch.compact_eq firstDistinct again
  obtain ⟨union, unionCompacted⟩ := Batch.compact_ok batch (head ∪ next) fits
  obtain ⟨unionCounted, unionRebuilt⟩ := Batch.compact_eq distinct unionCompacted
  rw [composed] at secondCounted secondRebuilt
  have unionCount : union.records = first.records + second.records := by omega
  have unionBatch : union.batch = second.batch := by
    by_cases positive : 0 < second.records
    · rw [if_pos positive, firstSame.intoBuilder_records] at secondRebuilt
      rw [if_pos (by omega)] at unionRebuilt
      exact Except.ok.inj (unionRebuilt.symm.trans secondRebuilt)
    · rw [if_neg positive] at secondRebuilt
      by_cases firstPositive : 0 < first.records
      · rw [if_pos firstPositive] at firstRebuilt firstRecords
        rw [firstRecords, keyedCount_latest] at secondCounted
        have kept : latest (head ∪ next) batch.records = latest head batch.records := by
          rw [← latest_latest]
          exact (latest_sublist next _).eq_of_length (by rw [latest_latest]; omega)
        rw [if_pos (by omega), kept, firstRebuilt] at unionRebuilt
        rw [secondRebuilt, Except.ok.inj unionRebuilt]
      · rw [if_neg firstPositive] at firstRebuilt
        rw [if_neg (by omega)] at unionRebuilt
        rw [unionRebuilt, secondRebuilt, firstRebuilt]
  rw [unionCompacted, ← unionCount, ← unionBatch]

/-- Compaction composes: compacting against one head and then another gives the batch one
compaction against both heads gives, the two counts adding up to its count, and compacting a
compacted batch against the same head again drops nothing and returns it unchanged.

Proof: the first part is the step lemma `Batch.compact_union`, the last `Batch.compact_again`. -/
theorem compact_compose (builder : Builder) (batch : Batch) (built : builder.build = .ok batch)
    (increasing : OffsetDeltasIncrease batch.records) (head next : Finset Bytes) :
    ∃ first second, batch.compact head = .ok first ∧ first.batch.compact next = .ok second ∧
      batch.compact (head ∪ next) =
        .ok { batch := second.batch, records := first.records + second.records } ∧
      first.batch.compact head = .ok { first with records := 0 } := by
  have fits := Batch.fits_of_built built
  have distinct := increasing.nodup
  obtain ⟨first, compacted⟩ := Batch.compact_ok batch head fits
  obtain ⟨second, again⟩ :=
    Batch.compact_ok first.batch next (Batch.compact_fits fits distinct compacted).1
  exact ⟨first, second, compacted, again, Batch.compact_union fits distinct compacted again,
    Batch.compact_again fits distinct compacted⟩

/-- The batch `nullKeyBuilder` builds compacts against the empty head and then against its key
`k` as in one step against both. Each of the two steps drops a record: the first the superseded
record with the key `k`, the second the last one. -/
theorem compact_compose_null_key :
    ∃ batch, nullKeyBuilder.build = .ok batch ∧ batch.records = nullKeyRecords ∧
      OffsetDeltasIncrease batch.records ∧
      ∃ first second, batch.compact ∅ = .ok first ∧ first.batch.compact {[107]} = .ok second ∧
        batch.compact (∅ ∪ {[107]}) =
          .ok { batch := second.batch, records := first.records + second.records } ∧
        first.batch.compact ∅ = .ok { first with records := 0 } ∧
        first.records = 1 ∧ second.records = 1 := by
  obtain ⟨batch, compaction, built, records, increasing, compacted, one, kept⟩ :=
    nullKeyBuilder_compact
  obtain ⟨first, second, firstCompacted, again, union, repeated⟩ :=
    compact_compose _ _ built increasing ∅ {[107]}
  obtain rfl : first = compaction := Except.ok.inj (firstCompacted.symm.trans compacted)
  have secondOne : second.records = 1 := by
    obtain ⟨counted, -⟩ := Batch.compact_eq (by rw [kept]; decide) again
    rw [kept] at counted
    simpa [latest, keyedCount] using counted
  exact ⟨batch, built, records, increasing, first, second, firstCompacted, again, union, repeated,
    one, secondOne⟩

end Tansu.Inflated
