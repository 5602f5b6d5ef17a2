import Tansu.Record
import Tansu.Crc

/-!
# Inflated batches and their builder

An inflated batch carries its records as structured values. Its builder holds every header
field except the two the builder computes, `batch_length` and `crc`: `build` takes the
length from the builder's `ByteSize`, a field-by-field sum that writes nothing, and the
CRC from the bytes the encoder writes into a CRC-32C digest for the fields from
`attributes` through the records, the records written from their builders. A batch
converts back into a builder by dropping those two fields.

The two computations are separate paths from the serializer that the batch derives, and
`build_crc_and_length` shows that they agree with it for every builder. `rebuild_built`
shows that building the builder of a built batch reproduces it, and `build_subset` that a
batch whose records are a sublist of a built batch's records builds as well.
-/

namespace Tansu.Inflated

/-- `inflated::Batch`. -/
structure Batch where
  baseOffset : BitVec 64
  batchLength : BitVec 32
  partitionLeaderEpoch : BitVec 32
  magic : BitVec 8
  crc : BitVec 32
  attributes : BitVec 16
  lastOffsetDelta : BitVec 32
  baseTimestamp : BitVec 64
  maxTimestamp : BitVec 64
  producerId : BitVec 64
  producerEpoch : BitVec 16
  baseSequence : BitVec 32
  records : List Record
  deriving DecidableEq, Repr

/-- `inflated::Builder`. Its `Sequence` of record builders is held as a list. -/
structure Builder where
  baseOffset : BitVec 64
  partitionLeaderEpoch : BitVec 32
  magic : BitVec 8
  attributes : BitVec 16
  lastOffsetDelta : BitVec 32
  baseTimestamp : BitVec 64
  maxTimestamp : BitVec 64
  producerId : BitVec 64
  producerEpoch : BitVec 16
  baseSequence : BitVec 32
  records : List Record.Builder
  deriving DecidableEq, Repr

/-- Modelled from the spec: `ByteSize` of a `Sequence` of record builders, the `i32` count and
each record's size. -/
def recordsSize (records : List Record.Builder) : Nat :=
  4 + (records.map Record.Builder.sizeInBytes).sum

/-- `ByteSize for Builder`: the fixed fields from `partition_leader_epoch` on, the `u32`
crc included, then the records. Sizes cannot fail, so the `Result` is left out. -/
def Builder.sizeInBytes (builder : Builder) : Nat :=
  4 + 1 + 4 + 2 + 4 + 8 + 8 + 8 + 2 + 4 + recordsSize builder.records

/-- What `Builder::crc` has the encoder write into the digest, one write per field. -/
def Builder.crcWrites (builder : Builder) : List Bytes :=
  [serializeI16 builder.attributes, serializeI32 builder.lastOffsetDelta,
    serializeI64 builder.baseTimestamp, serializeI64 builder.maxTimestamp,
    serializeI64 builder.producerId, serializeI16 builder.producerEpoch,
    serializeI32 builder.baseSequence, sequence Record.Builder.serialize builder.records]

/-- `Builder::crc`. The encoder into the digest never fails in the model. -/
def Builder.crc (builder : Builder) : Except Error (BitVec 32) :=
  .ok (builder.crcWrites.foldl Digest.update Digest.new).finalize

/-- `i32::try_from` of a size. -/
def i32TryFrom (size : Nat) : Except Error (BitVec 32) :=
  if size < 2 ^ 31 then .ok (BitVec.ofNat 32 size) else .error .TryFromInt

/-- `Builder::build`. -/
def Builder.build (builder : Builder) : Except Error Batch := do
  let batchLength ← i32TryFrom builder.sizeInBytes
  let crc ← builder.crc
  let records ← builder.records.mapM Record.tryFrom
  pure { baseOffset := builder.baseOffset, batchLength,
         partitionLeaderEpoch := builder.partitionLeaderEpoch, magic := builder.magic, crc,
         attributes := builder.attributes, lastOffsetDelta := builder.lastOffsetDelta,
         baseTimestamp := builder.baseTimestamp, maxTimestamp := builder.maxTimestamp,
         producerId := builder.producerId, producerEpoch := builder.producerEpoch,
         baseSequence := builder.baseSequence, records }

/-- `From<Batch> for Builder`, `Batch::into_builder`. -/
def Batch.intoBuilder (batch : Batch) : Builder :=
  { baseOffset := batch.baseOffset, partitionLeaderEpoch := batch.partitionLeaderEpoch,
    magic := batch.magic, attributes := batch.attributes, lastOffsetDelta := batch.lastOffsetDelta,
    baseTimestamp := batch.baseTimestamp, maxTimestamp := batch.maxTimestamp,
    producerId := batch.producerId, producerEpoch := batch.producerEpoch,
    baseSequence := batch.baseSequence, records := batch.records.map Record.into }

/-- `Batch::max_offset`: the base offset plus the widened last offset delta, wrapping as a
release build of the source does. -/
def Batch.maxOffset (batch : Batch) : BitVec 64 :=
  batch.baseOffset + batch.lastOffsetDelta.signExtend 64

/-- One step of the fold of `Batch::keys`: a record's key, if it has one, joins the set. -/
def insertKey (keys : Finset Bytes) (record : Record) : Finset Bytes :=
  match record.key with
  | some key => insert key keys
  | none => keys

/-- `Batch::keys`: the set of the records' non-null keys. -/
def Batch.keys (batch : Batch) : Finset Bytes := batch.records.foldl insertKey ∅

/-- Folding `insertKey` adds exactly the records' non-null keys. -/
theorem mem_foldl_insertKey (records : List Record) (keys : Finset Bytes) (key : Bytes) :
    key ∈ records.foldl insertKey keys ↔ key ∈ keys ∨ ∃ record ∈ records, record.key = some key := by
  induction records generalizing keys with
  | nil => simp
  | cons first later inductionHypothesis =>
    cases keyed : first.key with
    | none => simp [insertKey, keyed, inductionHypothesis]
    | some firstKey =>
      simp only [List.foldl_cons, insertKey, keyed, inductionHypothesis, Finset.mem_insert,
        List.mem_cons, exists_eq_or_imp, Option.some.injEq]
      tauto

/-- A key is in a batch's key set exactly when one of its records has it. -/
theorem Batch.mem_keys (batch : Batch) (key : Bytes) :
    key ∈ batch.keys ↔ ∃ record ∈ batch.records, record.key = some key := by
  simp [Batch.keys, mem_foldl_insertKey]

/-- The derived `Serialize for Batch`, its records written as `Sequence::<Record>`. -/
def Batch.serialize (batch : Batch) : Bytes :=
  serializeI64 batch.baseOffset ++ serializeI32 batch.batchLength ++
    serializeI32 batch.partitionLeaderEpoch ++ serializeI8 batch.magic ++ serializeU32 batch.crc ++
    serializeI16 batch.attributes ++ serializeI32 batch.lastOffsetDelta ++
    serializeI64 batch.baseTimestamp ++ serializeI64 batch.maxTimestamp ++
    serializeI64 batch.producerId ++ serializeI16 batch.producerEpoch ++
    serializeI32 batch.baseSequence ++ sequence Record.serialize batch.records

/-- The bytes a batch's CRC covers: its encoding from `attributes` through the records. -/
def Batch.crcSegment (batch : Batch) : Bytes :=
  serializeI16 batch.attributes ++ serializeI32 batch.lastOffsetDelta ++
    serializeI64 batch.baseTimestamp ++ serializeI64 batch.maxTimestamp ++
    serializeI64 batch.producerId ++ serializeI16 batch.producerEpoch ++
    serializeI32 batch.baseSequence ++ sequence Record.serialize batch.records

/-- The encoding after `base_offset` and `batch_length`: the bytes `batch_length` counts. -/
theorem Batch.serialize_drop_length (batch : Batch) :
    batch.serialize.drop 12 = serializeI32 batch.partitionLeaderEpoch ++ serializeI8 batch.magic ++
      serializeU32 batch.crc ++ batch.crcSegment := by
  simp only [Batch.serialize, Batch.crcSegment, List.append_assoc]
  rw [← List.append_assoc (serializeI64 _)]
  exact List.drop_left' (by simp [serializeI64, serializeI32])

/-- A batch's encoding is its 61 bytes of fixed fields and record count, then its records. -/
theorem Batch.serialize_length_records (batch : Batch) :
    batch.serialize.length = 61 + ((batch.records.map Record.serialize).flatten).length := by
  simp [Batch.serialize, sequence, serializeI8, serializeI16, serializeI32, serializeU32, serializeI64]
  omega

/-- The encoding after the CRC. -/
theorem Batch.serialize_drop_crc (batch : Batch) : batch.serialize.drop 21 = batch.crcSegment := by
  rw [show 21 = 12 + 9 from rfl, ← List.drop_drop, Batch.serialize_drop_length]
  exact List.drop_left' (by simp [serializeI32, serializeI8, serializeU32])

/-- The builder of the `batch` test of `inflated.rs`: one record whose value is `def`. -/
def batchTestBuilder : Builder :=
  { baseOffset := 0, partitionLeaderEpoch := -1, magic := 2, attributes := 0,
    lastOffsetDelta := 0, baseTimestamp := 1707058170165, maxTimestamp := 1707058170165,
    producerId := 1, producerEpoch := 0, baseSequence := 1,
    records := [⟨0, 0, 0, ⟨none⟩, ⟨some [100, 101, 102]⟩, []⟩] }

/-- The batch that test expects, with the `batch_length` and `crc` it asserts. -/
def batchTestBatch : Batch :=
  { baseOffset := 0, batchLength := 59, partitionLeaderEpoch := -1, magic := 2,
    crc := 1126819645, attributes := 0, lastOffsetDelta := 0,
    baseTimestamp := 1707058170165, maxTimestamp := 1707058170165, producerId := 1,
    producerEpoch := 0, baseSequence := 1,
    records := [⟨0, 0, 0, none, some [100, 101, 102], []⟩] }

/-- The model computes the length and CRC the `batch` test asserts. -/
theorem batchTestBuilder_build : batchTestBuilder.build = .ok batchTestBatch := by
  have size : batchTestBuilder.sizeInBytes = 59 := by decide
  simp only [Builder.build, i32TryFrom, size, Builder.crc]
  simp [List.mapM.loop, Builder.crcWrites, batchTestBuilder, batchTestBatch, Digest.update,
    Digest.finalize, Digest.new, crcByte, crcBits, crcBit, castagnoli, Record.tryFrom, sequence,
    Record.Builder.serialize, delimited, recordFields, serializeI8, serializeI16, serializeI32,
    serializeI64, fixedWidth, bigEndian, varIntSequence, serializeVarInt, serializeLongVarInt,
    signedVarint, varint, leb128, zigzag, octets, lengthI32]

/-! ## What `build` computes -/

/-- A successful build keeps every builder field, computes the length from the builder's
size and the CRC from the bytes written to the digest. -/
theorem Builder.build_ok {builder : Builder} {batch : Batch} (built : builder.build = .ok batch) :
    batch.intoBuilder = builder ∧ builder.sizeInBytes < 2 ^ 31 ∧
      batch.batchLength = BitVec.ofNat 32 builder.sizeInBytes ∧
      batch.crc = crc32c builder.crcWrites.flatten := by
  obtain ⟨records, converted, back⟩ := Record.mapM_tryFrom builder.records
  unfold Builder.build i32TryFrom at built
  split at built
  · rename_i fits
    simp only [Builder.crc, converted, except_ok_bind, except_pure, Except.ok.injEq] at built
    subst built
    exact ⟨by simp [Batch.intoBuilder, back], fits, rfl, by rw [Digest.foldl_update]; rfl⟩
  · cases built

/-- A builder whose size fits an `i32` builds. -/
theorem Builder.build_of_fits (builder : Builder) (fits : builder.sizeInBytes < 2 ^ 31) :
    ∃ batch, builder.build = .ok batch := by
  obtain ⟨records, converted, _⟩ := Record.mapM_tryFrom builder.records
  simp only [Builder.build, i32TryFrom, if_pos fits, Builder.crc, converted, except_ok_bind,
    except_pure]
  exact ⟨_, rfl⟩

/-- A batch writes its records as their builders write them. -/
theorem Batch.crcWrites_intoBuilder (batch : Batch) :
    batch.intoBuilder.crcWrites.flatten = batch.crcSegment := by
  simp only [Builder.crcWrites, Batch.intoBuilder, Batch.crcSegment, sequence, List.length_map,
    List.map_map, Function.comp_def, Record.into_serialize, List.flatten_cons, List.flatten_nil,
    List.append_nil, List.append_assoc]

/-- The size of a batch's builder counts the bytes of the batch's encoding after its length. -/
theorem Batch.intoBuilder_size (batch : Batch) :
    batch.intoBuilder.sizeInBytes = (batch.serialize.drop 12).length := by
  have records := flatten_map_length Record.serialize (fun record => record.into.sizeInBytes)
    batch.records (fun record => by rw [← Record.into_serialize, Record.Builder.serialize_length])
  simp only [Builder.sizeInBytes, recordsSize, Batch.intoBuilder, List.map_map, Function.comp_def,
    Batch.serialize_drop_length, Batch.crcSegment, sequence, List.length_append, records,
    serializeI8, serializeI16, serializeI32, serializeU32, serializeI64, fixedWidth_length]
  omega

/-- The bytes `Builder::crc` writes into the digest are the built batch's encoding after its
CRC field, so the CRC covers exactly that segment. -/
theorem Builder.build_crc {builder : Builder} {batch : Batch} (built : builder.build = .ok batch) :
    builder.crcWrites.flatten = batch.serialize.drop 21 ∧
      batch.crc = crc32c (batch.serialize.drop 21) := by
  obtain ⟨back, -, -, crc⟩ := Builder.build_ok built
  have writes : builder.crcWrites.flatten = batch.serialize.drop 21 := by
    rw [← back, Batch.crcWrites_intoBuilder, Batch.serialize_drop_crc]
  exact ⟨writes, writes ▸ crc⟩

/-- A built batch's `batch_length` counts its encoding from `partition_leader_epoch` to the end. -/
theorem Builder.build_length {builder : Builder} {batch : Batch} (built : builder.build = .ok batch) :
    batch.batchLength.toNat = (batch.serialize.drop 12).length := by
  obtain ⟨back, fits, length, -⟩ := Builder.build_ok built
  rw [length, ← Batch.intoBuilder_size, back, BitVec.toNat_ofNat, Nat.mod_eq_of_lt (by omega)]

/-- Builder bookkeeping agrees with the encoding: the bytes `Builder::crc` writes into the
digest are the built batch's encoding after its CRC field, so the CRC covers exactly that
segment, and `batch_length` counts the encoding from `partition_leader_epoch` to the end. -/
theorem build_crc_and_length (builder : Builder) (batch : Batch) (built : builder.build = .ok batch) :
    builder.crcWrites.flatten = batch.serialize.drop 21 ∧
      batch.crc = crc32c (batch.serialize.drop 21) ∧
      batch.batchLength.toNat = (batch.serialize.drop 12).length :=
  ⟨(Builder.build_crc built).1, (Builder.build_crc built).2, Builder.build_length built⟩

/-- The source's `batch` test meets the law. -/
theorem build_crc_and_length_batch_test :
    batchTestBuilder.build = .ok batchTestBatch ∧
      (batchTestBuilder.crcWrites.flatten = batchTestBatch.serialize.drop 21 ∧
        batchTestBatch.crc = crc32c (batchTestBatch.serialize.drop 21) ∧
        batchTestBatch.batchLength.toNat = (batchTestBatch.serialize.drop 12).length) :=
  ⟨batchTestBuilder_build, build_crc_and_length _ _ batchTestBuilder_build⟩

/-- The encoding of that batch is the 71 bytes of the source's `batch_decode` test. -/
example : batchTestBatch.serialize = [0, 0, 0, 0, 0, 0, 0, 0, 0, 0, 0, 59, 255, 255, 255, 255, 2,
    67, 41, 231, 61, 0, 0, 0, 0, 0, 0, 0, 0, 1, 141, 116, 152, 137, 53, 0, 0, 1, 141, 116, 152,
    137, 53, 0, 0, 0, 0, 0, 0, 0, 1, 0, 0, 0, 0, 0, 1, 0, 0, 0, 1, 18, 0, 0, 0, 1, 6, 100, 101, 102,
    0] := by
  simp [Batch.serialize, batchTestBatch, sequence, Record.serialize, delimited, recordFields,
    serializeI8, serializeI16, serializeI32, serializeU32, serializeI64, fixedWidth, bigEndian,
    varIntSequence, serializeVarInt, serializeLongVarInt, signedVarint, varint, leb128, zigzag,
    octets, lengthI32]

/-- Rebuilding a built batch is the identity: its builder is the builder it was built from. -/
theorem rebuild_built (builder : Builder) (batch : Batch) (built : builder.build = .ok batch) :
    batch.intoBuilder.build = .ok batch := by
  rw [(Builder.build_ok built).1, built]

/-- The batch of the source's `batch` test rebuilds to itself. -/
theorem rebuild_built_batch_test :
    batchTestBuilder.build = .ok batchTestBatch ∧ batchTestBatch.intoBuilder.build = .ok batchTestBatch :=
  ⟨batchTestBuilder_build, rebuild_built _ _ batchTestBuilder_build⟩

/-! ## Batches rebuilt from fewer records -/

/-- Two batches agree on every field a builder holds except the records. -/
structure Batch.SameFields (batch other : Batch) : Prop where
  baseOffset : batch.baseOffset = other.baseOffset
  partitionLeaderEpoch : batch.partitionLeaderEpoch = other.partitionLeaderEpoch
  magic : batch.magic = other.magic
  attributes : batch.attributes = other.attributes
  lastOffsetDelta : batch.lastOffsetDelta = other.lastOffsetDelta
  baseTimestamp : batch.baseTimestamp = other.baseTimestamp
  maxTimestamp : batch.maxTimestamp = other.maxTimestamp
  producerId : batch.producerId = other.producerId
  producerEpoch : batch.producerEpoch = other.producerEpoch
  baseSequence : batch.baseSequence = other.baseSequence

/-- A batch has the same fields as itself. -/
theorem Batch.SameFields.refl (batch : Batch) : batch.SameFields batch :=
  ⟨rfl, rfl, rfl, rfl, rfl, rfl, rfl, rfl, rfl, rfl⟩

/-- A batch's builder determines every field but the two `build` computes. -/
theorem Batch.intoBuilder_eq {batch other : Batch} {records : List Record}
    (same : batch.intoBuilder = { other with records := records }.intoBuilder) :
    batch.SameFields other ∧ batch.records = records := by
  simp only [Batch.intoBuilder, Builder.mk.injEq] at same
  obtain ⟨h1, h2, h3, h4, h5, h6, h7, h8, h9, h10, converted⟩ := same
  refine ⟨⟨h1, h2, h3, h4, h5, h6, h7, h8, h9, h10⟩, ?_⟩
  exact List.map_injective_iff.mpr Record.into_injective converted

/-- A built batch's builder fits an `i32`. -/
theorem Batch.fits_of_built {builder : Builder} {batch : Batch} (built : builder.build = .ok batch) :
    batch.intoBuilder.sizeInBytes < 2 ^ 31 := by
  obtain ⟨back, fits, -⟩ := Builder.build_ok built
  rwa [back]

/-- The bytes a built batch's CRC covers fit an `i32` length. -/
theorem Batch.crcSegment_length_lt {builder : Builder} {batch : Batch}
    (built : builder.build = .ok batch) : batch.crcSegment.length < 2 ^ 31 := by
  obtain ⟨-, fits, length, -⟩ := Builder.build_ok built
  have counted := Builder.build_length built
  rw [Batch.serialize_drop_length, length, BitVec.toNat_ofNat] at counted
  simp only [List.length_append] at counted
  omega

/-- Batches with the same fields have the same builder once given the same records. -/
theorem Batch.SameFields.intoBuilder_records {batch other : Batch} (same : batch.SameFields other)
    (records : List Record) :
    { batch with records := records }.intoBuilder = { other with records := records }.intoBuilder := by
  simp only [Batch.intoBuilder, same.baseOffset, same.partitionLeaderEpoch, same.magic,
    same.attributes, same.lastOffsetDelta, same.baseTimestamp, same.maxTimestamp, same.producerId,
    same.producerEpoch, same.baseSequence]

/-- A batch whose records are a sublist of those of a batch whose builder fits builds, to a
batch with the fields of the first and exactly those records. -/
theorem build_subset (batch : Batch) (records : List Record)
    (fits : batch.intoBuilder.sizeInBytes < 2 ^ 31) (sub : records.Sublist batch.records) :
    ∃ rebuilt, { batch with records := records }.intoBuilder.build = .ok rebuilt ∧
      rebuilt.SameFields batch ∧ rebuilt.records = records := by
  have smaller : { batch with records := records }.intoBuilder.sizeInBytes ≤
      batch.intoBuilder.sizeInBytes := by
    have sum := ((sub.map Record.into).map Record.Builder.sizeInBytes).sum_le_sum
      (fun _ _ => Nat.zero_le _)
    simp only [Builder.sizeInBytes, recordsSize, Batch.intoBuilder] at sum ⊢
    omega
  obtain ⟨rebuilt, built⟩ := Builder.build_of_fits { batch with records := records }.intoBuilder
    (by omega)
  exact ⟨rebuilt, built, Batch.intoBuilder_eq (Builder.build_ok built).1⟩

end Tansu.Inflated
