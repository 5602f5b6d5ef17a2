import Tansu.Inflated

/-!
# Deflated batches and decoding

A deflated batch carries its records as one opaque block after their count, compressed
as its attributes say. Decoding reads the fixed header, refuses any magic but 2, takes
the `batch_length - 9` bytes after the CRC field, checks their CRC-32C and reads the
remaining fields from them; the record data is whatever follows the record count. The
deflated codec is not under `src/`; it is modelled here from the specification's record
codec. `TryFrom<deflated::Batch>` for the inflated batch is in `inflated.rs`; it converts
the record data, decompressed if needed, into exactly `record_count` records.

`Deflated.Batch.deserialize_run` is the round trip of the deflated codec for every batch
whose length, magic and CRC are consistent with its bytes, and
`Deflated.Batch.deserialize_run_ok` its converse: the decoder accepts nothing else. The
second rests on inversion lemmas for each reader (`bind_run_ok`, `take_run_ok`,
`readFixedWidth_run_ok`), so a corrupted CRC, a wrong magic or a short length is never read
as a batch. `serialize_deserialize` lifts the round trip to inflated batches: every
uncompressed batch of magic 2 that a builder builds is read back from the derived
serializer's output, with nothing consumed past it; `Batch.deserialize_sound` lifts the
converse; and `Frame.tryFrom_map_uncompressed` inflates every frame of uncompressed batches
back from its deflated form.

From the two directions follow the properties a reader of a stream of batches relies on.
Decoding never looks past the batch it reads (`Batch.deserialize_ignores_rest`), refuses
every proper prefix of what it accepted (`Batch.deserialize_rejects_truncated`), and refuses
every input one byte away from what it accepted, from the magic on
(`Batch.deserialize_rejects_changed_byte`): the CRC-32C detects every one-byte change of the
bytes it covers.
-/

namespace Tansu

/-- Modelled from the spec: the `Compression` of a batch, bits 0 to 2 of its attributes. -/
inductive Compression where
  | None
  | Gzip
  | Snappy
  | Lz4
  | Zstd
  deriving DecidableEq, Repr

/-- Modelled from the spec: `Compression::try_from` of the attributes. -/
def Compression.tryFrom (attributes : BitVec 16) : Except Error Compression :=
  match (attributes &&& 7).toNat with
  | 0 => .ok .None
  | 1 => .ok .Gzip
  | 2 => .ok .Snappy
  | 3 => .ok .Lz4
  | 4 => .ok .Zstd
  | _ => .error .UnknownCompression

namespace Deflated

/-- Modelled from the spec: `deflated::Batch`, its records an opaque block after their count. -/
structure Batch where
  baseOffset : BitVec 64
  batchLength : BitVec 32
  partitionLeaderEpoch : BitVec 32
  magic : BitVec 8
  crc : BitVec 32
  attributes : BitVec 16
  lastOffsetDelta : BitVec 32
  baseTimestamp : BitVec 64
  maxTimestamp : BitVec 64
  producerId : BitVec 64
  producerEpoch : BitVec 16
  baseSequence : BitVec 32
  recordCount : BitVec 32
  recordData : Bytes
  deriving DecidableEq, Repr

/-- Modelled from the spec: `deflated::Frame`, a sequence of deflated batches. -/
structure Frame where
  batches : List Batch
  deriving DecidableEq, Repr

/-- Modelled from the spec: the bytes the CRC covers, from `attributes` to the end. -/
def Batch.covered (batch : Batch) : Bytes :=
  serializeI16 batch.attributes ++ serializeI32 batch.lastOffsetDelta ++
    serializeI64 batch.baseTimestamp ++ serializeI64 batch.maxTimestamp ++
    serializeI64 batch.producerId ++ serializeI16 batch.producerEpoch ++
    serializeI32 batch.baseSequence ++ serializeI32 batch.recordCount ++ batch.recordData

/-- Modelled from the spec: `Serialize for deflated::Batch`. -/
def Batch.serialize (batch : Batch) : Bytes :=
  serializeI64 batch.baseOffset ++ serializeI32 batch.batchLength ++
    serializeI32 batch.partitionLeaderEpoch ++ serializeI8 batch.magic ++ serializeU32 batch.crc ++
    batch.covered

/-- Read to the end of the input. -/
def rest : Decoder Bytes := fun input => .ok (input, [])

/-- Modelled from the spec: the fields after the CRC, read from the bytes it covers. -/
def Batch.readCovered (baseOffset : BitVec 64) (batchLength partitionLeaderEpoch : BitVec 32)
    (magic : BitVec 8) (crc : BitVec 32) : Decoder Batch := do
  let attributes ← deserializeI16
  let lastOffsetDelta ← deserializeI32
  let baseTimestamp ← deserializeI64
  let maxTimestamp ← deserializeI64
  let producerId ← deserializeI64
  let producerEpoch ← deserializeI16
  let baseSequence ← deserializeI32
  let recordCount ← deserializeI32
  let recordData ← rest
  pure { baseOffset, batchLength, partitionLeaderEpoch, magic, crc, attributes, lastOffsetDelta,
         baseTimestamp, maxTimestamp, producerId, producerEpoch, baseSequence, recordCount,
         recordData }

/-- Modelled from the spec: `Deserialize for deflated::Batch`. A magic other than 2 is
unknown; a length shorter than the fixed fields is invalid; the CRC must match the bytes
it covers. -/
def Batch.deserialize : Decoder Batch := do
  let baseOffset ← deserializeI64
  let batchLength ← deserializeI32
  let partitionLeaderEpoch ← deserializeI32
  let magic ← deserializeI8
  let crc ← deserializeU32
  if magic ≠ 2 then throw .UnknownMagic
  if batchLength.toInt < 49 then throw .InvalidLength
  let covered ← take (batchLength.toInt.toNat - 9)
  if crc32c covered ≠ crc then throw .CorruptBatch
  StateT.lift (whole (Batch.readCovered baseOffset batchLength partitionLeaderEpoch magic crc)
    covered)

/-- A deflated batch whose header agrees with its bytes: magic 2, a length that counts the
nine bytes after it and the bytes the CRC covers, and a CRC of those bytes. -/
structure Batch.Framed (batch : Batch) : Prop where
  magic : batch.magic = 2
  length : batch.batchLength.toInt = 9 + batch.covered.length
  crc : batch.crc = crc32c batch.covered

/-- The fields after the checksum read back from the covered bytes. -/
theorem Batch.readCovered_run (batch : Batch) :
    (Batch.readCovered batch.baseOffset batch.batchLength batch.partitionLeaderEpoch batch.magic
      batch.crc).run batch.covered = .ok (batch, []) := by
  simp only [Batch.readCovered, Batch.covered, List.append_assoc, StateT.run_bind,
    deserializeI16_run, deserializeI32_run, deserializeI64_run, except_ok_bind]
  rfl

/-- What the covered-field reader accepts is the covered bytes of the batch it returns, and
the header fields it was given are the batch's. -/
theorem Batch.readCovered_run_ok {baseOffset : BitVec 64} {batchLength partitionLeaderEpoch : BitVec 32}
    {magic : BitVec 8} {crc : BitVec 32} {covered : Bytes} {batch : Batch}
    (read : (Batch.readCovered baseOffset batchLength partitionLeaderEpoch magic crc).run covered =
      .ok (batch, [])) :
    covered = batch.covered ∧ batch.baseOffset = baseOffset ∧ batch.batchLength = batchLength ∧
      batch.partitionLeaderEpoch = partitionLeaderEpoch ∧ batch.magic = magic ∧ batch.crc = crc := by
  simp only [Batch.readCovered] at read
  obtain ⟨attributes, input1, readAttributes, read⟩ := bind_run_ok read
  obtain ⟨lastOffsetDelta, input2, readLastOffsetDelta, read⟩ := bind_run_ok read
  obtain ⟨baseTimestamp, input3, readBaseTimestamp, read⟩ := bind_run_ok read
  obtain ⟨maxTimestamp, input4, readMaxTimestamp, read⟩ := bind_run_ok read
  obtain ⟨producerId, input5, readProducerId, read⟩ := bind_run_ok read
  obtain ⟨producerEpoch, input6, readProducerEpoch, read⟩ := bind_run_ok read
  obtain ⟨baseSequence, input7, readBaseSequence, read⟩ := bind_run_ok read
  obtain ⟨recordCount, input8, readRecordCount, read⟩ := bind_run_ok read
  obtain ⟨recordData, input9, readRecordData, read⟩ := bind_run_ok read
  simp only [StateT.run_pure, except_pure, Except.ok.injEq, Prod.mk.injEq] at read
  obtain ⟨rfl, rfl⟩ := read
  simp only [rest, StateT.run, Except.ok.injEq, Prod.mk.injEq] at readRecordData
  obtain ⟨rfl, -⟩ := readRecordData
  rw [readFixedWidth_run_ok (by decide) readAttributes,
    readFixedWidth_run_ok (by decide) readLastOffsetDelta,
    readFixedWidth_run_ok (by decide) readBaseTimestamp,
    readFixedWidth_run_ok (by decide) readMaxTimestamp,
    readFixedWidth_run_ok (by decide) readProducerId,
    readFixedWidth_run_ok (by decide) readProducerEpoch,
    readFixedWidth_run_ok (by decide) readBaseSequence,
    readFixedWidth_run_ok (by decide) readRecordCount]
  simp [Batch.covered, serializeI16, serializeI32, serializeI64]

/-- Every framed deflated batch reads back, leaving the rest of the input. -/
theorem Batch.deserialize_run (batch : Batch) (framed : batch.Framed) (rest : Bytes) :
    Batch.deserialize.run (batch.serialize ++ rest) = .ok (batch, rest) := by
  have fixed : 40 ≤ batch.covered.length := by
    simp only [Batch.covered, List.length_append, serializeI16, serializeI32, serializeI64,
      fixedWidth_length]
    omega
  have notShort : ¬batch.batchLength.toInt < 49 := by
    rw [framed.length]
    omega
  have count : batch.batchLength.toInt.toNat - 9 = batch.covered.length := by
    rw [framed.length]
    omega
  have covered := whole_of_run _ _ _ (Batch.readCovered_run batch)
  simp only [Batch.deserialize, Batch.serialize, List.append_assoc, StateT.run_bind,
    deserializeI64_run, deserializeI32_run, deserializeI8_run, deserializeU32_run, except_ok_bind]
  simp [framed.magic.symm, notShort, count, ← framed.crc, StateT.lift, covered]

/-- The decoder accepts nothing but encodings: whatever it reads is the serialization of a
framed batch, the one it returns, followed by the bytes it leaves. -/
theorem Batch.deserialize_run_ok {input rest : Bytes} {batch : Batch}
    (read : Batch.deserialize.run input = .ok (batch, rest)) :
    batch.Framed ∧ input = batch.serialize ++ rest := by
  simp only [Batch.deserialize] at read
  obtain ⟨baseOffset, input1, readBase, read⟩ := bind_run_ok read
  obtain ⟨batchLength, input2, readLength, read⟩ := bind_run_ok read
  obtain ⟨partitionLeaderEpoch, input3, readEpoch, read⟩ := bind_run_ok read
  obtain ⟨magic, input4, readMagic, read⟩ := bind_run_ok read
  obtain ⟨crc, input5, readCrc, read⟩ := bind_run_ok read
  split at read
  · simp at read
  rename_i magicTwo
  simp only [pure_bind] at read
  split at read
  · simp at read
  obtain ⟨covered, input6, readCovered, read⟩ := bind_run_ok read
  split at read
  · simp at read
  rename_i matched
  obtain ⟨accepted, rfl⟩ := lift_run_ok read
  obtain ⟨fields, sameBase, sameLength, sameEpoch, sameMagic, sameCrc⟩ :=
    Batch.readCovered_run_ok (run_of_whole accepted)
  obtain ⟨taken, splitCovered⟩ := take_run_ok readCovered
  have counted : batch.batchLength.toInt = 9 + batch.covered.length := by
    rw [sameLength, ← fields, taken]
    omega
  refine ⟨⟨sameMagic.trans (not_not.mp magicTwo), counted,
    by rw [sameCrc, ← fields, not_not.mp matched]⟩, ?_⟩
  rw [readFixedWidth_run_ok (by decide) readBase, readFixedWidth_run_ok (by decide) readLength,
    readFixedWidth_run_ok (by decide) readEpoch, readFixedWidth_run_ok (by decide) readMagic,
    readFixedWidth_run_ok (by decide) readCrc, splitCovered, fields]
  simp [Batch.serialize, sameBase, sameLength, sameEpoch, sameMagic, sameCrc,
    serializeI8, serializeI32, serializeU32, serializeI64]

/-! ## Changed and truncated input

The CRC covers every byte from the attributes on, and the magic and the CRC field are checked
against fixed values: what a framed batch writes from its magic on is a function of its
covered bytes (`framedTail_eq_of_cons`), and by `crc32c_append_cons_injective` no one-byte
change maps it to another such string. The length field fixes how many bytes the decoder
takes, so no proper prefix of an encoding decodes either. -/

/-- A list split around one of its elements keeps that split in any prefix long enough to
hold the element. -/
theorem prefix_of_append_eq_cons {front back before after : Bytes} {byte : UInt8}
    (split : front ++ back = before ++ byte :: after) (within : before.length < front.length) :
    front = before ++ byte :: after.take (front.length - before.length - 1) := by
  have taken := congrArg (List.take front.length) split
  rw [List.take_left' rfl, List.take_append_eq_append_take, List.take_of_length_le (by omega)] at taken
  obtain ⟨count, counted⟩ : ∃ count, front.length - before.length = count + 1 :=
    ⟨_, (Nat.succ_pred_eq_of_pos (by omega)).symm⟩
  rw [counted, List.take_succ_cons] at taken
  rwa [counted, Nat.add_sub_cancel]

/-- What a framed batch writes from its magic on depends on its covered bytes alone, and no
change of one byte turns what one such batch writes into what another writes. -/
theorem framedTail_eq_of_cons {covered other before after : Bytes} {byte changed : UInt8}
    (encoded : serializeI8 2 ++ serializeU32 (crc32c covered) ++ covered = before ++ byte :: after)
    (otherEncoded : serializeI8 2 ++ serializeU32 (crc32c other) ++ other = before ++ changed :: after) :
    changed = byte := by
  have fixedLength (bytes : Bytes) : (serializeI8 2 ++ serializeU32 (crc32c bytes)).length = 5 := by
    simp [serializeI8, serializeU32]
  by_cases inCovered : 5 ≤ before.length
  · have heads := congrArg (List.take 5) encoded
    have otherHeads := congrArg (List.take 5) otherEncoded
    have tails := congrArg (List.drop 5) encoded
    have otherTails := congrArg (List.drop 5) otherEncoded
    rw [List.take_left' (fixedLength covered), List.take_append_of_le_length inCovered] at heads
    rw [List.take_left' (fixedLength other), List.take_append_of_le_length inCovered] at otherHeads
    rw [List.drop_left' (fixedLength covered), List.drop_append_of_le_length inCovered] at tails
    rw [List.drop_left' (fixedLength other), List.drop_append_of_le_length inCovered] at otherTails
    have sameCrc := fixedWidth_injective (by decide) (List.append_cancel_left (heads.trans otherHeads.symm))
    rw [tails, otherTails] at sameCrc
    exact crc32c_append_cons_injective _ after sameCrc.symm
  · have sameCovered : covered = other := by
      have tails := congrArg (List.drop 5) encoded
      have otherTails := congrArg (List.drop 5) otherEncoded
      obtain ⟨count, counted⟩ : ∃ count, 5 - before.length = count + 1 :=
        ⟨_, (Nat.succ_pred_eq_of_pos (by omega)).symm⟩
      rw [List.drop_left' (fixedLength covered), List.drop_append_eq_append_drop,
        List.drop_eq_nil_of_le (by omega), counted, List.drop_succ_cons] at tails
      rw [List.drop_left' (fixedLength other), List.drop_append_eq_append_drop,
        List.drop_eq_nil_of_le (by omega), counted, List.drop_succ_cons] at otherTails
      rw [tails, otherTails]
    rw [sameCovered, otherEncoded] at encoded
    simpa using encoded

/-- From its magic on, a framed batch writes the magic 2, the CRC-32C of its covered bytes,
and those bytes. -/
theorem Batch.Framed.serialize_drop_magic {batch : Batch} (framed : batch.Framed) :
    batch.serialize.drop 16 = serializeI8 2 ++ serializeU32 (crc32c batch.covered) ++ batch.covered := by
  simp only [Batch.serialize, framed.magic, framed.crc, List.append_assoc]
  rw [← List.append_assoc (serializeI64 _), ← List.append_assoc (serializeI64 _ ++ _)]
  exact List.drop_left' (by simp [serializeI64, serializeI32])

/-- A deflated batch's encoding is its 21 bytes of header, then the bytes the CRC covers. -/
theorem Batch.serialize_length (batch : Batch) : batch.serialize.length = 21 + batch.covered.length := by
  simp [Batch.serialize, serializeI8, serializeI32, serializeU32, serializeI64]
  omega

/-- The first twelve bytes of a framed batch's encoding, its base offset and its length, fix
how many bytes it covers. -/
theorem Batch.Framed.covered_length_eq {batch other : Batch} (framed : batch.Framed)
    (otherFramed : other.Framed) {rest otherRest : Bytes}
    (start : (batch.serialize ++ rest).take 12 = (other.serialize ++ otherRest).take 12) :
    batch.covered.length = other.covered.length := by
  have split (batch : Batch) (rest : Bytes) : batch.serialize ++ rest =
      (serializeI64 batch.baseOffset ++ serializeI32 batch.batchLength) ++
      (serializeI32 batch.partitionLeaderEpoch ++ serializeI8 batch.magic ++ serializeU32 batch.crc ++
        batch.covered ++ rest) := by
    simp only [Batch.serialize, List.append_assoc]
  have startLength (batch : Batch) :
      (serializeI64 batch.baseOffset ++ serializeI32 batch.batchLength).length = 12 := by
    simp [serializeI64, serializeI32]
  rw [split batch rest, split other otherRest, List.take_left' (startLength batch),
    List.take_left' (startLength other)] at start
  obtain ⟨-, sameLength⟩ := List.append_inj start (by simp [serializeI64])
  have counted := framed.length
  have otherCounted := otherFramed.length
  rw [fixedWidth_injective (by decide) sameLength] at counted
  omega

/-- Two framed batches whose encodings, each followed by some bytes, differ in at most one
byte from the magic on, within the first batch, have the same byte there. -/
theorem Batch.Framed.changed_byte {batch other : Batch} (framed : batch.Framed)
    (otherFramed : other.Framed) {rest otherRest before after : Bytes} {byte changed : UInt8}
    (encoded : batch.serialize ++ rest = before ++ byte :: after)
    (otherEncoded : other.serialize ++ otherRest = before ++ changed :: after)
    (fromMagic : 16 ≤ before.length) (inBatch : before.length < batch.serialize.length) :
    changed = byte := by
  have start : (other.serialize ++ otherRest).take 12 = (batch.serialize ++ rest).take 12 := by
    rw [encoded, otherEncoded, List.take_append_of_le_length (by omega),
      List.take_append_of_le_length (by omega)]
  have sameCovered := otherFramed.covered_length_eq framed start
  have tailLength (covered : Bytes) :
      (serializeI8 2 ++ serializeU32 (crc32c covered) ++ covered).length = 5 + covered.length := by
    simp [serializeI8, serializeU32]
    omega
  have tails (batch : Batch) (framed : batch.Framed) (rest : Bytes) (byte : UInt8)
      (encoded : batch.serialize ++ rest = before ++ byte :: after) :
      serializeI8 2 ++ serializeU32 (crc32c batch.covered) ++ batch.covered ++ rest =
        before.drop 16 ++ byte :: after := by
    have dropped := congrArg (List.drop 16) encoded
    rwa [List.drop_append_of_le_length (by rw [Batch.serialize_length]; omega),
      framed.serialize_drop_magic, List.drop_append_of_le_length fromMagic] at dropped
  rw [Batch.serialize_length] at inBatch
  have within : (before.drop 16).length < 5 + batch.covered.length := by
    rw [List.length_drop]
    omega
  have tail := prefix_of_append_eq_cons (tails batch framed rest byte encoded)
    (by rw [tailLength]; exact within)
  have otherTail := prefix_of_append_eq_cons (tails other otherFramed otherRest changed otherEncoded)
    (by rw [tailLength, sameCovered]; exact within)
  rw [tailLength] at tail
  rw [tailLength, sameCovered] at otherTail
  exact framedTail_eq_of_cons tail otherTail

/-- The decoder refuses every input that differs from the encoding of a framed batch in one
byte, anywhere from the magic to the end of the batch. -/
theorem Batch.deserialize_changed_byte {batch : Batch} (framed : batch.Framed) {rest before after : Bytes}
    {byte changed : UInt8} (encoded : batch.serialize ++ rest = before ++ byte :: after)
    (differs : changed ≠ byte) (fromMagic : 16 ≤ before.length)
    (inBatch : before.length < batch.serialize.length) :
    ∃ failure, Batch.deserialize.run (before ++ changed :: after) = .error failure := by
  cases read : Batch.deserialize.run (before ++ changed :: after) with
  | error failure => exact ⟨failure, rfl⟩
  | ok result =>
    obtain ⟨other, otherRest⟩ := result
    obtain ⟨otherFramed, split⟩ := Batch.deserialize_run_ok read
    exact absurd (framed.changed_byte otherFramed encoded split.symm fromMagic inBatch) differs

/-- The decoder refuses every proper prefix of the encoding of a framed batch. -/
theorem Batch.deserialize_take {batch : Batch} (framed : batch.Framed) {count : Nat}
    (shorter : count < batch.serialize.length) :
    ∃ failure, Batch.deserialize.run (batch.serialize.take count) = .error failure := by
  cases read : Batch.deserialize.run (batch.serialize.take count) with
  | error failure => exact ⟨failure, rfl⟩
  | ok result =>
    obtain ⟨other, otherRest⟩ := result
    obtain ⟨otherFramed, split⟩ := Batch.deserialize_run_ok read
    have lengths := congrArg List.length split
    rw [List.length_take, List.length_append, Nat.min_eq_left shorter.le, Batch.serialize_length] at lengths
    have start : (batch.serialize ++ []).take 12 = (other.serialize ++ otherRest).take 12 := by
      rw [← split, List.append_nil, List.take_take, Nat.min_eq_left (by omega)]
    have sameCovered := framed.covered_length_eq otherFramed start
    rw [Batch.serialize_length] at shorter
    omega

end Deflated

namespace Inflated

/-- `inflated::Frame`. -/
structure Frame where
  batches : List Batch
  deriving DecidableEq, Repr

section Decompression

-- The decompressors of gzip, snappy, lz4 and zstd are libraries outside the repository.
variable (decompress : Compression → Bytes → Except Error Bytes)

/-- Modelled from the spec: `TryFrom<deflated::Batch> for Vec<Record>`. The record data,
decompressed unless uncompressed, must hold exactly `record_count` records. -/
def tryIntoRecords (batch : Deflated.Batch) : Except Error (List Record) := do
  let compression ← Compression.tryFrom batch.attributes
  let data ← match compression with
    | .None => pure batch.recordData
    | compressed => decompress compressed batch.recordData
  if batch.recordCount.toInt < 0 then throw .InvalidLength
  whole (readItems Record.deserialize batch.recordCount.toInt.toNat) data

/-- `TryFrom<deflated::Batch> for Batch`. -/
def Batch.tryFrom (value : Deflated.Batch) : Except Error Batch := do
  let records ← tryIntoRecords decompress value
  pure { baseOffset := value.baseOffset, batchLength := value.batchLength,
         partitionLeaderEpoch := value.partitionLeaderEpoch, magic := value.magic, crc := value.crc,
         attributes := value.attributes, lastOffsetDelta := value.lastOffsetDelta,
         baseTimestamp := value.baseTimestamp, maxTimestamp := value.maxTimestamp,
         producerId := value.producerId, producerEpoch := value.producerEpoch,
         baseSequence := value.baseSequence, records }

/-- `TryFrom<deflated::Frame> for Frame`: the batches inflated in order, the first failure
returned. -/
def Frame.tryFrom (deflated : Deflated.Frame) : Except Error Frame :=
  (deflated.batches.mapM (Batch.tryFrom decompress)).map Frame.mk

/-- `Deserialize for Batch`, through `deflated::Batch` as `serde(try_from)` directs. -/
def Batch.deserialize : Decoder Batch := do
  let deflated ← Deflated.Batch.deserialize
  StateT.lift (Batch.tryFrom decompress deflated)

end Decompression

/-- The deflated batch an uncompressed inflated batch is written as: its records serialized
after their count. -/
def Batch.uncompressed (batch : Batch) : Deflated.Batch :=
  { baseOffset := batch.baseOffset, batchLength := batch.batchLength,
    partitionLeaderEpoch := batch.partitionLeaderEpoch, magic := batch.magic, crc := batch.crc,
    attributes := batch.attributes, lastOffsetDelta := batch.lastOffsetDelta,
    baseTimestamp := batch.baseTimestamp, maxTimestamp := batch.maxTimestamp,
    producerId := batch.producerId, producerEpoch := batch.producerEpoch,
    baseSequence := batch.baseSequence, recordCount := lengthI32 batch.records.length,
    recordData := (batch.records.map Record.serialize).flatten }

/-- The covered bytes of the framed batch are the bytes the inflated batch
checksums. -/
theorem Batch.uncompressed_covered (batch : Batch) : batch.uncompressed.covered = batch.crcSegment := by
  simp only [Deflated.Batch.covered, Batch.uncompressed, Batch.crcSegment, sequence, List.append_assoc]

/-- Framing an inflated batch keeps its encoding. -/
theorem Batch.uncompressed_serialize (batch : Batch) : batch.uncompressed.serialize = batch.serialize := by
  simp only [Deflated.Batch.serialize, Batch.uncompressed_covered, Batch.serialize, Batch.crcSegment,
    List.append_assoc]
  rfl

/-- A built batch of magic 2 is framed: its length and CRC agree with its bytes. -/
theorem Batch.uncompressed_framed (builder : Builder) (batch : Batch)
    (built : builder.build = .ok batch) (magic : batch.magic = 2) : batch.uncompressed.Framed := by
  obtain ⟨_, fits, length, _⟩ := Builder.build_ok built
  have crc := (Builder.build_crc built).2
  have counted := Builder.build_length built
  rw [Batch.serialize_drop_crc] at crc
  rw [Batch.serialize_drop_length] at counted
  have small : batch.batchLength.toNat < 2 ^ 31 := by
    rw [length, BitVec.toNat_ofNat]
    omega
  refine ⟨magic, ?_, by rw [Batch.uncompressed_covered]; exact crc⟩
  have positive : 2 * batch.batchLength.toNat < 2 ^ 32 := by omega
  rw [Batch.uncompressed_covered, show batch.uncompressed.batchLength = batch.batchLength from rfl,
    BitVec.toInt_eq_toNat_cond, if_pos positive, counted]
  simp [serializeI32, serializeI8, serializeU32]
  omega

/-- The records of an uncompressed batch whose covered bytes fit an `i32` read back from its
deflated form, and so does the batch. -/
theorem Batch.tryFrom_uncompressed (decompress : Compression → Bytes → Except Error Bytes)
    (batch : Batch) (uncompressed : Compression.tryFrom batch.attributes = .ok .None)
    (short : batch.crcSegment.length < 2 ^ 31) :
    Batch.tryFrom decompress batch.uncompressed = .ok batch := by
  have data : (batch.records.map Record.serialize).flatten.length < 2 ^ 31 := by
    simp only [Batch.crcSegment, sequence, List.length_append] at short
    omega
  have count := lengthI32_toInt batch.records.length (Nat.lt_of_le_of_lt
    (length_le_flatten_length Record.serialize batch.records (fun record => by
      simp [Record.serialize, delimited, serializeVarInt, signedVarint, varint_ne_nil])) data)
  have records := whole_of_run _ _ _ (readItems_run Record.deserialize Record.serialize
    batch.records [] (fun record member rest => Record.deserialize_run record rest
      (Nat.lt_of_le_of_lt (length_le_flatten Record.serialize batch.records record member) data)))
  rw [List.append_nil] at records
  simp only [Batch.tryFrom, tryIntoRecords, Batch.uncompressed, uncompressed, except_ok_bind,
    except_pure, count, Int.toNat_ofNat, records, show ¬((batch.records.length : Int) < 0) by omega,
    if_false]

/-- A batch whose deflated form is framed and uncompressed, with covered bytes that fit an
`i32`, reads back from its encoding. -/
theorem Batch.deserialize_run_uncompressed (decompress : Compression → Bytes → Except Error Bytes)
    (batch : Batch) (framed : batch.uncompressed.Framed)
    (uncompressed : Compression.tryFrom batch.attributes = .ok .None)
    (short : batch.crcSegment.length < 2 ^ 31) (rest : Bytes) :
    (Batch.deserialize decompress).run (batch.serialize ++ rest) = .ok (batch, rest) := by
  rw [← Batch.uncompressed_serialize]
  simp only [Batch.deserialize, StateT.run_bind, Deflated.Batch.deserialize_run _ framed,
    except_ok_bind, StateT.lift, Batch.tryFrom_uncompressed decompress batch uncompressed short]
  rfl

/-- A frame of uncompressed batches whose covered bytes fit an `i32` inflates back from its
deflated form, batch by batch. -/
theorem Frame.tryFrom_map_uncompressed (decompress : Compression → Bytes → Except Error Bytes)
    (batches : List Batch)
    (each : ∀ batch ∈ batches, Compression.tryFrom batch.attributes = .ok .None ∧
      batch.crcSegment.length < 2 ^ 31) :
    Frame.tryFrom decompress ⟨batches.map Batch.uncompressed⟩ = .ok ⟨batches⟩ := by
  have inflated : (batches.map Batch.uncompressed).mapM (Batch.tryFrom decompress) = .ok batches := by
    induction batches with
    | nil => rfl
    | cons batch later inductionHypothesis =>
      obtain ⟨uncompressed, short⟩ := each batch (List.mem_cons_self batch later)
      simp only [List.map_cons, List.mapM_cons, except_ok_bind, except_pure,
        Batch.tryFrom_uncompressed decompress batch uncompressed short,
        inductionHypothesis (fun other member => each other (List.mem_cons_of_mem batch member))]
  simp only [Frame.tryFrom, inflated]
  rfl

/-- A frame of the source's `batch` test batch inflates back from its deflated form. -/
theorem Frame.tryFrom_map_uncompressed_batch_test :
    (∀ batch ∈ [batchTestBatch], Compression.tryFrom batch.attributes = .ok .None ∧
      batch.crcSegment.length < 2 ^ 31) ∧
    Frame.tryFrom (fun _ bytes => .ok bytes) ⟨[batchTestBatch].map Batch.uncompressed⟩ =
      .ok ⟨[batchTestBatch]⟩ :=
  have each : ∀ batch ∈ [batchTestBatch], Compression.tryFrom batch.attributes = .ok .None ∧
      batch.crcSegment.length < 2 ^ 31 := fun batch member => by
    rw [List.mem_singleton.mp member]
    exact ⟨rfl, by decide⟩
  ⟨each, Frame.tryFrom_map_uncompressed _ _ each⟩

/-- Batch codec round trip: every uncompressed batch of magic 2 that a builder builds is read
back from its encoding, with exactly the bytes written consumed. -/
theorem serialize_deserialize (decompress : Compression → Bytes → Except Error Bytes)
    (builder : Builder) (batch : Batch) (built : builder.build = .ok batch)
    (magic : builder.magic = 2) (uncompressed : Compression.tryFrom builder.attributes = .ok .None)
    (rest : Bytes) : (Batch.deserialize decompress).run (batch.serialize ++ rest) = .ok (batch, rest) := by
  obtain ⟨back, fits, length, _⟩ := Builder.build_ok built
  have batchMagic : batch.magic = 2 := (congrArg Builder.magic back).trans magic
  have batchAttributes : batch.attributes = builder.attributes := congrArg Builder.attributes back
  have short : batch.crcSegment.length < 2 ^ 31 := by
    have counted := Builder.build_length built
    rw [Batch.serialize_drop_length, length, BitVec.toNat_ofNat] at counted
    simp only [List.length_append] at counted
    omega
  rw [← Batch.uncompressed_serialize]
  simp only [Batch.deserialize, StateT.run_bind,
    Deflated.Batch.deserialize_run _ (Batch.uncompressed_framed builder batch built batchMagic),
    except_ok_bind, StateT.lift, Batch.tryFrom_uncompressed decompress batch
      (batchAttributes ▸ uncompressed) short]
  rfl

/-- The batch of the source's `batch` test reads back from its encoding. -/
theorem serialize_deserialize_batch_test :
    batchTestBuilder.build = .ok batchTestBatch ∧ batchTestBuilder.magic = 2 ∧
      Compression.tryFrom batchTestBuilder.attributes = .ok .None ∧
      (Batch.deserialize (fun _ bytes => .ok bytes)).run (batchTestBatch.serialize ++ []) =
        .ok (batchTestBatch, []) :=
  ⟨batchTestBuilder_build, rfl, rfl,
    serialize_deserialize _ _ _ batchTestBuilder_build rfl rfl []⟩

/-- Decoding accepts only encodings: every batch it reads comes from a framed deflated batch
(magic 2, a length and a CRC that agree with its bytes) whose serialization is exactly the
bytes consumed, and is that batch's inflation. -/
theorem Batch.deserialize_sound (decompress : Compression → Bytes → Except Error Bytes)
    {input rest : Bytes} {batch : Batch}
    (read : (Batch.deserialize decompress).run input = .ok (batch, rest)) :
    ∃ deflated : Deflated.Batch, deflated.Framed ∧ input = deflated.serialize ++ rest ∧
      Batch.tryFrom decompress deflated = .ok batch := by
  obtain ⟨deflated, middle, readDeflated, converted⟩ := bind_run_ok read
  obtain ⟨inflated, rfl⟩ := lift_run_ok converted
  obtain ⟨framed, split⟩ := Deflated.Batch.deserialize_run_ok readDeflated
  exact ⟨deflated, framed, split, inflated⟩

/-- The encoding of the source's `batch` test batch is accepted as it is. -/
theorem batchTestBatch_deserialize :
    (Batch.deserialize (fun _ bytes => .ok bytes)).run batchTestBatch.serialize =
      .ok (batchTestBatch, []) := by
  simpa using Batch.deserialize_run_uncompressed _ batchTestBatch
    (Batch.uncompressed_framed _ _ batchTestBuilder_build rfl) rfl (by decide) []

/-- The encoding of the source's `batch` test batch is accepted, as the encoding of a framed
deflated batch. -/
theorem Batch.deserialize_sound_batch_test :
    (Batch.deserialize (fun _ bytes => .ok bytes)).run batchTestBatch.serialize =
      .ok (batchTestBatch, []) ∧
    ∃ deflated : Deflated.Batch, deflated.Framed ∧
      batchTestBatch.serialize = deflated.serialize ++ [] ∧
      Batch.tryFrom (fun _ bytes => .ok bytes) deflated = .ok batchTestBatch :=
  ⟨batchTestBatch_deserialize, Batch.deserialize_sound _ batchTestBatch_deserialize⟩

/-- Decoding detects every one-byte change: whenever it accepts an input, changing any one of
the bytes it consumed, from the magic to the end of the batch, makes it refuse the input.
The base offset, the length and the partition leader epoch come before the magic and are
outside the statement: the CRC does not cover them.

Proof: what was accepted is a framed batch (`Deflated.Batch.deserialize_run_ok`); a changed
input that were accepted would be another framed batch one byte away from it, which
`Deflated.Batch.Framed.changed_byte` rules out. -/
theorem Batch.deserialize_rejects_changed_byte (decompress : Compression → Bytes → Except Error Bytes)
    {before after rest : Bytes} {byte changed : UInt8} {batch : Batch}
    (read : (Batch.deserialize decompress).run (before ++ byte :: after) = .ok (batch, rest))
    (differs : changed ≠ byte) (fromMagic : 16 ≤ before.length)
    (consumed : rest.length ≤ after.length) :
    ∃ failure, (Batch.deserialize decompress).run (before ++ changed :: after) = .error failure := by
  obtain ⟨deflated, middle, readDeflated, converted⟩ := bind_run_ok read
  obtain ⟨-, rfl⟩ := lift_run_ok converted
  obtain ⟨framed, split⟩ := Deflated.Batch.deserialize_run_ok readDeflated
  have inBatch : before.length < deflated.serialize.length := by
    have lengths := congrArg List.length split
    simp only [List.length_append, List.length_cons] at lengths
    omega
  obtain ⟨failure, failed⟩ :=
    Deflated.Batch.deserialize_changed_byte framed split.symm differs fromMagic inBatch
  exact ⟨failure, by simp [Batch.deserialize, failed]⟩

/-- The encoding of the source's `batch` test batch with its byte 40, a byte of its maximum
timestamp, changed is refused. -/
theorem Batch.deserialize_rejects_changed_byte_batch_test :
    (Batch.deserialize (fun _ bytes => .ok bytes)).run (batchTestBatch.serialize.take 40 ++
        batchTestBatch.serialize.getD 40 0 :: batchTestBatch.serialize.drop 41) =
        .ok (batchTestBatch, []) ∧
      batchTestBatch.serialize.getD 40 0 + 1 ≠ batchTestBatch.serialize.getD 40 0 ∧
      16 ≤ (batchTestBatch.serialize.take 40).length ∧
      ([] : Bytes).length ≤ (batchTestBatch.serialize.drop 41).length ∧
      ∃ failure, (Batch.deserialize (fun _ bytes => .ok bytes)).run (batchTestBatch.serialize.take 40 ++
        (batchTestBatch.serialize.getD 40 0 + 1) :: batchTestBatch.serialize.drop 41) = .error failure := by
  have split : batchTestBatch.serialize.take 40 ++ batchTestBatch.serialize.getD 40 0 ::
      batchTestBatch.serialize.drop 41 = batchTestBatch.serialize := by
    rw [List.getD_eq_getElem _ _ (by decide), List.getElem_cons_drop, List.take_append_drop]
  have read := batchTestBatch_deserialize
  rw [← split] at read
  have differs : batchTestBatch.serialize.getD 40 0 + 1 ≠ batchTestBatch.serialize.getD 40 0 := by
    decide
  have fromMagic : 16 ≤ (batchTestBatch.serialize.take 40).length := by decide
  have consumed : ([] : Bytes).length ≤ (batchTestBatch.serialize.drop 41).length := Nat.zero_le _
  exact ⟨read, differs, fromMagic, consumed,
    Batch.deserialize_rejects_changed_byte _ read differs fromMagic consumed⟩

/-- Decoding never looks past the batch it reads: whatever follows the bytes it consumed, it
reads the same batch from them and leaves what follows as it is.

Proof: the consumed bytes are the encoding of a framed batch (`Deflated.Batch.deserialize_run_ok`),
and every framed batch reads back in front of any bytes (`Deflated.Batch.deserialize_run`). -/
theorem Batch.deserialize_ignores_rest (decompress : Compression → Bytes → Except Error Bytes)
    {consumed rest : Bytes} {batch : Batch}
    (read : (Batch.deserialize decompress).run (consumed ++ rest) = .ok (batch, rest)) (other : Bytes) :
    (Batch.deserialize decompress).run (consumed ++ other) = .ok (batch, other) := by
  obtain ⟨deflated, middle, readDeflated, converted⟩ := bind_run_ok read
  obtain ⟨inflated, rfl⟩ := lift_run_ok converted
  obtain ⟨framed, split⟩ := Deflated.Batch.deserialize_run_ok readDeflated
  rw [List.append_cancel_right split]
  simp only [Batch.deserialize, StateT.run_bind, Deflated.Batch.deserialize_run _ framed,
    except_ok_bind, StateT.lift, inflated]
  rfl

/-- The source's `batch` test batch reads the same in front of any byte. -/
theorem Batch.deserialize_ignores_rest_batch_test :
    (Batch.deserialize (fun _ bytes => .ok bytes)).run (batchTestBatch.serialize ++ []) =
        .ok (batchTestBatch, []) ∧
      (Batch.deserialize (fun _ bytes => .ok bytes)).run (batchTestBatch.serialize ++ [0]) =
        .ok (batchTestBatch, [0]) :=
  have read : (Batch.deserialize (fun _ bytes => .ok bytes)).run (batchTestBatch.serialize ++ []) =
      .ok (batchTestBatch, []) := by
    simpa using batchTestBatch_deserialize
  ⟨read, Batch.deserialize_ignores_rest _ read [0]⟩

/-- Decoding refuses truncated input: whenever it accepts an input, it refuses every proper
prefix of the bytes it consumed.

Proof: the batch's length field fixes how long its encoding is
(`Deflated.Batch.Framed.covered_length_eq`), so a prefix that were accepted would hold a whole
encoding of that length. -/
theorem Batch.deserialize_rejects_truncated (decompress : Compression → Bytes → Except Error Bytes)
    {input rest : Bytes} {batch : Batch}
    (read : (Batch.deserialize decompress).run input = .ok (batch, rest)) {count : Nat}
    (shorter : count < input.length - rest.length) :
    ∃ failure, (Batch.deserialize decompress).run (input.take count) = .error failure := by
  obtain ⟨deflated, middle, readDeflated, converted⟩ := bind_run_ok read
  obtain ⟨-, rfl⟩ := lift_run_ok converted
  obtain ⟨framed, split⟩ := Deflated.Batch.deserialize_run_ok readDeflated
  rw [split, List.length_append, Nat.add_sub_cancel] at shorter
  obtain ⟨failure, failed⟩ := Deflated.Batch.deserialize_take framed shorter
  refine ⟨failure, ?_⟩
  rw [split, List.take_append_of_le_length shorter.le]
  simp [Batch.deserialize, failed]

/-- The encoding of the source's `batch` test batch without its last byte is refused. -/
theorem Batch.deserialize_rejects_truncated_batch_test :
    (Batch.deserialize (fun _ bytes => .ok bytes)).run batchTestBatch.serialize =
        .ok (batchTestBatch, []) ∧
      70 < batchTestBatch.serialize.length - ([] : Bytes).length ∧
      ∃ failure, (Batch.deserialize (fun _ bytes => .ok bytes)).run
        (batchTestBatch.serialize.take 70) = .error failure :=
  have shorter : 70 < batchTestBatch.serialize.length - ([] : Bytes).length := by decide
  ⟨batchTestBatch_deserialize, shorter,
    Batch.deserialize_rejects_truncated _ batchTestBatch_deserialize shorter⟩

end Inflated

end Tansu
