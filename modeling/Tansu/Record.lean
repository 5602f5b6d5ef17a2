import Tansu.Codec

/-!
# Records and headers

`header.rs` defines a record header, a nullable key and value, and its builder, which holds
the same two fields as `Octets`; both serialize each field as octets. The record itself and
its builder live in a part of the codec that is not under `src/`. They are modelled from
the specification's data model: an offset delta, a timestamp delta, a nullable key and
value and a sequence of headers, together with the attributes byte that the encoded batch
of `inflated.rs`'s tests carries before the timestamp delta.

A record is written as a zig-zag varint length followed by exactly that many bytes of
fields; the reader decodes the fields within that length and refuses leftovers. The
builder's `ByteSize` sums field sizes without writing, and `Record.Builder.serialize_length`
shows that it counts exactly the bytes written. Converting a record to a builder and back,
in either order, is the identity.
-/

namespace Tansu

/-! ## Headers -/

/-- `record::header::Header`. -/
structure Header where
  key : Option Bytes
  value : Option Bytes
  deriving DecidableEq, Repr

/-- `record::header::Builder`. -/
structure Header.Builder where
  key : Octets
  value : Octets
  deriving DecidableEq, Repr

/-- `From<Builder> for Header`. -/
def Header.Builder.into (builder : Header.Builder) : Header :=
  { key := builder.key.val, value := builder.value.val }

/-- `From<Header> for Builder`. -/
def Header.into (header : Header) : Header.Builder :=
  { key := ⟨header.key⟩, value := ⟨header.value⟩ }

/-- A header converted to a builder and back is the header. -/
@[simp] theorem Header.into_into (header : Header) : header.into.into = header := rfl

/-- A header builder converted to a header and back is the builder. -/
@[simp] theorem Header.Builder.into_into (builder : Header.Builder) : builder.into.into = builder := rfl

/-- `Serialize for Header`: both fields as octets. -/
def Header.serialize (header : Header) : Bytes := octets header.key ++ octets header.value

/-- `Serialize for Builder`: both fields as octets. -/
def Header.Builder.serialize (builder : Header.Builder) : Bytes :=
  octets builder.key.val ++ octets builder.value.val

/-- `ByteSize for Builder`: the key's size plus the value's. Sizes of octets cannot fail, so
the `Result` of the source is always `Ok` and is left out. -/
def Header.Builder.sizeInBytes (builder : Header.Builder) : Nat :=
  octetsSize builder.key.val + octetsSize builder.value.val

/-- `Deserialize for Header`. -/
def Header.deserialize : Decoder Header := do
  let key ← readOctets
  let value ← readOctets
  pure { key, value }

/-- A header builder's size counts exactly the bytes of its encoding. -/
@[simp] theorem Header.Builder.serialize_length (builder : Header.Builder) :
    builder.serialize.length = builder.sizeInBytes := by
  simp [Header.Builder.serialize, Header.Builder.sizeInBytes]

/-- Both fields fit the `i32` length of octets. -/
def Header.Fits (header : Header) : Prop :=
  (∀ bytes ∈ header.key, bytes.length < 2 ^ 31) ∧ ∀ bytes ∈ header.value, bytes.length < 2 ^ 31

/-- A header whose fields fit the `i32` length of octets reads back. -/
theorem Header.deserialize_run (header : Header) (rest : Bytes) (fits : header.Fits) :
    Header.deserialize.run (header.serialize ++ rest) = .ok (header, rest) := by
  simp only [Header.deserialize, Header.serialize, List.append_assoc, StateT.run_bind,
    readOctets_run _ _ fits.1, readOctets_run _ _ fits.2, except_ok_bind]
  rfl

/-- A header whose encoding is shorter than `2 ^ 31` bytes fits. -/
theorem Header.fits_of_length (header : Header) (short : header.serialize.length < 2 ^ 31) :
    header.Fits := by
  obtain ⟨key, value⟩ := header
  simp only [Header.serialize, List.length_append, octets_length] at short
  constructor <;> intro bytes member <;> simp only [Option.mem_def] at member <;> subst member <;>
    simp only [octetsSize] at short <;> omega

/-! ## Records -/

/-- Modelled from the spec: `record::Record`, which is not under `src/`. Its fields are
those of the specification's data model, and the attributes byte of the wire format. -/
structure Record where
  attributes : BitVec 8
  timestampDelta : BitVec 64
  offsetDelta : BitVec 32
  key : Option Bytes
  value : Option Bytes
  headers : List Header
  deriving DecidableEq, Repr

/-- Modelled from the spec: `record::Builder`, the same fields held as the codec's
wrappers, octets for the key and value and header builders for the headers. -/
structure Record.Builder where
  attributes : BitVec 8
  timestampDelta : BitVec 64
  offsetDelta : BitVec 32
  key : Octets
  value : Octets
  headers : List Header.Builder
  deriving DecidableEq, Repr

/-- Modelled from the spec: `TryFrom<Builder> for Record`, field by field. The
specification gives it no failure. -/
def Record.tryFrom (builder : Record.Builder) : Except Error Record :=
  .ok { attributes := builder.attributes, timestampDelta := builder.timestampDelta,
        offsetDelta := builder.offsetDelta, key := builder.key.val, value := builder.value.val,
        headers := builder.headers.map Header.Builder.into }

/-- Modelled from the spec: `From<Record> for Builder`, field by field. -/
def Record.into (record : Record) : Record.Builder :=
  { attributes := record.attributes, timestampDelta := record.timestampDelta,
    offsetDelta := record.offsetDelta, key := ⟨record.key⟩, value := ⟨record.value⟩,
    headers := record.headers.map Header.into }

/-- Converting a record to a builder and back returns the record. -/
@[simp] theorem Record.tryFrom_into (record : Record) : Record.tryFrom record.into = .ok record := by
  simp [Record.tryFrom, Record.into, Function.comp_def]

/-- Two records with the same builder are the same record. -/
theorem Record.into_injective : Function.Injective Record.into := fun record other same => by
  simpa using congrArg Record.tryFrom same

/-- Converting a builder to a record and back returns the builder. -/
theorem Record.into_tryFrom (builder : Record.Builder) (record : Record)
    (converted : Record.tryFrom builder = .ok record) : record.into = builder := by
  simp only [Record.tryFrom, Except.ok.injEq] at converted
  subst converted
  simp [Record.into, Function.comp_def]

/-- Converting builders to records one by one always succeeds, and converting the records
back returns the builders. -/
theorem Record.mapM_tryFrom (builders : List Record.Builder) :
    ∃ records, builders.mapM Record.tryFrom = .ok records ∧ records.map Record.into = builders := by
  induction builders with
  | nil => exact ⟨[], rfl, rfl⟩
  | cons builder others inductionHypothesis =>
    obtain ⟨records, converted, back⟩ := inductionHypothesis
    obtain ⟨record, head⟩ : ∃ record, Record.tryFrom builder = .ok record := ⟨_, rfl⟩
    refine ⟨record :: records, ?_, ?_⟩
    · simp only [List.mapM_cons, head, converted, except_ok_bind, except_pure]
    · simp only [List.map_cons, back, Record.into_tryFrom builder record head]

/-- The fields after a record's length: attributes, timestamp delta, offset delta, key,
value, and the varint sequence of headers. -/
def recordFields {α : Type} (attributes : BitVec 8) (timestampDelta : BitVec 64)
    (offsetDelta : BitVec 32) (key value : Option Bytes) (header : α → Bytes) (headers : List α) :
    Bytes :=
  serializeI8 attributes ++ serializeLongVarInt timestampDelta ++ serializeVarInt offsetDelta ++
    octets key ++ octets value ++ varIntSequence header headers

/-- A length-delimited region: its varint length, then its bytes. -/
def delimited (body : Bytes) : Bytes := serializeVarInt (lengthI32 body.length) ++ body

/-- Modelled from the spec: `Serialize for Record`. -/
def Record.serialize (record : Record) : Bytes :=
  delimited (recordFields record.attributes record.timestampDelta record.offsetDelta record.key
    record.value Header.serialize record.headers)

/-- Modelled from the spec: `Serialize for Builder`, the record's wire format from the
builder's fields. -/
def Record.Builder.serialize (builder : Record.Builder) : Bytes :=
  delimited (recordFields builder.attributes builder.timestampDelta builder.offsetDelta
    builder.key.val builder.value.val Header.Builder.serialize builder.headers)

/-- Modelled from the spec: `ByteSize for Builder`, the fields' sizes after the length. -/
def Record.Builder.bodySize (builder : Record.Builder) : Nat :=
  1 + signedVarintSize builder.timestampDelta + signedVarintSize builder.offsetDelta +
    octetsSize builder.key.val + octetsSize builder.value.val +
    signedVarintSize (lengthI32 builder.headers.length) +
    (builder.headers.map Header.Builder.sizeInBytes).sum

/-- Modelled from the spec: `ByteSize for Builder`, the length's varint and the fields. -/
def Record.Builder.sizeInBytes (builder : Record.Builder) : Nat :=
  signedVarintSize (lengthI32 builder.bodySize) + builder.bodySize

/-- Items whose sizes count their bytes have, written one after the other,
the sum of their sizes as length. -/
theorem flatten_map_length {α : Type} (write : α → Bytes) (size : α → Nat) (items : List α)
    (agrees : ∀ item, (write item).length = size item) :
    ((items.map write).flatten).length = (items.map size).sum := by
  induction items with
  | nil => rfl
  | cons first others inductionHypothesis => simp [agrees, inductionHypothesis]

/-- A builder's size counts exactly the bytes its encoding has. -/
@[simp] theorem Record.Builder.serialize_length (builder : Record.Builder) :
    builder.serialize.length = builder.sizeInBytes := by
  have headers := flatten_map_length Header.Builder.serialize Header.Builder.sizeInBytes
    builder.headers Header.Builder.serialize_length
  have body : (recordFields builder.attributes builder.timestampDelta builder.offsetDelta
      builder.key.val builder.value.val Header.Builder.serialize builder.headers).length =
      builder.bodySize := by
    simp only [recordFields, varIntSequence, List.length_append,
      headers, Record.Builder.bodySize, serializeI8, fixedWidth_length, serializeLongVarInt,
      serializeVarInt, signedVarint_length, octets_length]
    omega
  simp only [Record.Builder.serialize, delimited, List.length_append, serializeVarInt,
    signedVarint_length, body, Record.Builder.sizeInBytes]

/-- A record's builder writes what the record writes. -/
@[simp] theorem Record.into_serialize (record : Record) : record.into.serialize = record.serialize := by
  simp only [Record.into, Record.Builder.serialize, Record.serialize, recordFields,
    varIntSequence_map, Function.comp_def]
  rfl

/-- Modelled from the spec: the fields of a record, read within its length. -/
def Record.readFields : Decoder Record := do
  let attributes ← deserializeI8
  let timestampDelta ← deserializeLongVarInt
  let offsetDelta ← deserializeVarInt
  let key ← readOctets
  let value ← readOctets
  let headers ← readVarIntSequence Header.deserialize
  pure { attributes, timestampDelta, offsetDelta, key, value, headers }

/-- Modelled from the spec: `Deserialize for Record`, a length and then exactly that many
bytes of fields. -/
def Record.deserialize : Decoder Record := do
  let length ← readCount
  within length Record.readFields

/-- Every header has a nonempty encoding. -/
theorem Header.serialize_ne_nil (header : Header) : header.serialize ≠ [] := by
  simp [Header.serialize, octets_ne_nil]

/-- Every record has a nonempty encoding: its length comes first. -/
theorem Record.serialize_ne_nil (record : Record) : record.serialize ≠ [] := by
  simp [Record.serialize, delimited, serializeVarInt, signedVarint, varint_ne_nil]

/-- Every record whose encoding is shorter than `2 ^ 31` bytes reads back. The bound makes
every length inside it fit the `i32` it is written as. -/
theorem Record.deserialize_run (record : Record) (rest : Bytes)
    (short : record.serialize.length < 2 ^ 31) :
    Record.deserialize.run (record.serialize ++ rest) = .ok (record, rest) := by
  obtain ⟨attributes, timestampDelta, offsetDelta, key, value, headers⟩ := record
  have counted := length_le_flatten_length Header.serialize headers Header.serialize_ne_nil
  simp only [Record.serialize, delimited, recordFields, varIntSequence, List.length_append,
    octets_length] at short
  have each (header : Header) (member : header ∈ headers) : header.Fits :=
    Header.fits_of_length header (Nat.lt_of_le_of_lt
      (length_le_flatten Header.serialize headers header member) (by omega))
  have keyFits : ∀ bytes ∈ key, bytes.length < 2 ^ 31 := fun bytes member => by
    have := length_le_octetsSize member
    omega
  have valueFits : ∀ bytes ∈ value, bytes.length < 2 ^ 31 := fun bytes member => by
    have := length_le_octetsSize member
    omega
  have sequence := readVarIntSequence_run Header.deserialize Header.serialize headers []
    (by omega) (fun header member rest => Header.deserialize_run header rest (each header member))
  have body : Record.readFields.run (recordFields attributes timestampDelta offsetDelta key value
      Header.serialize headers ++ []) =
      .ok (⟨attributes, timestampDelta, offsetDelta, key, value, headers⟩, []) := by
    simp only [recordFields, Record.readFields, List.append_assoc, StateT.run_bind,
      deserializeI8_run, deserializeLongVarInt_run, deserializeVarInt_run, except_ok_bind,
      readOctets_run _ _ keyFits, readOctets_run _ _ valueFits, sequence, StateT.run_pure, except_pure]
  have bodyShort : (recordFields attributes timestampDelta offsetDelta key value Header.serialize
      headers).length < 2 ^ 31 := by
    simp only [recordFields, varIntSequence, List.length_append, octets_length]
    omega
  rw [List.append_nil] at body
  simp only [Record.deserialize, Record.serialize, delimited, List.append_assoc, StateT.run_bind,
    readCount_run _ bodyShort, except_ok_bind, within_run _ _ _ _ body]

end Tansu
