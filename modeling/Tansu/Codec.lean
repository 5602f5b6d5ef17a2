import Tansu.Primitive

/-!
# Octets and sequences

Record keys, values and header fields are nullable octets: an `i32` zig-zag varint
length, `-1` for null, followed by the bytes. Records are a sequence with an `i32`
big-endian count, and the headers of a record a sequence with a varint count. The
`ByteSize` of each encoding is computed by arithmetic on the lengths, without writing
bytes; `octets_length` and `varint_length` show that the two paths agree.

A length is written as the `i32` it converts to. Lengths of `2 ^ 31` bytes or more do not
read back; the batch builder refuses such sizes before anything is written.
-/

namespace Tansu

/-! ## Sizes -/

/-- Bytes of a varint, counted without writing it: one byte per seven bits. -/
def leb128Size : Nat → Nat → Nat
  | 0, _ => 1
  | fuel + 1, n => if n < 128 then 1 else leb128Size fuel (n / 128) + 1

/-- Rust `ByteSize` of an unsigned varint. -/
def varintSize (n : Nat) : Nat := leb128Size n n

/-- The size counted without writing is the length of the bytes written, for every fuel. -/
theorem leb128_length (fuel n : Nat) : (leb128 fuel n).length = leb128Size fuel n := by
  induction fuel generalizing n with
  | zero => rfl
  | succ fuel inductionHypothesis =>
    simp only [leb128, leb128Size]
    split <;> simp [inductionHypothesis]

/-- A varint has as many bytes as `ByteSize` counts. -/
@[simp] theorem varint_length (n : Nat) : (varint n).length = varintSize n :=
  leb128_length n n

/-- Rust `ByteSize` of a zig-zag varint. -/
def signedVarintSize {width : Nat} (value : BitVec width) : Nat := varintSize (zigzag value.toInt)

/-- A zig-zag varint has as many bytes as `ByteSize` counts. -/
@[simp] theorem signedVarint_length {width : Nat} (value : BitVec width) :
    (signedVarint value).length = signedVarintSize value := varint_length _

/-! ## Lengths -/

/-- A length as the `i32` it is written as. -/
def lengthI32 (n : Nat) : BitVec 32 := BitVec.ofNat 32 n

/-- A length below `2 ^ 31` is the `i32` it is written as. -/
theorem lengthI32_toInt (n : Nat) (fits : n < 2 ^ 31) : (lengthI32 n).toInt = n := by
  have small : n % 2 ^ 32 = n := Nat.mod_eq_of_lt (by omega)
  simp only [lengthI32, BitVec.toInt, BitVec.toNat_ofNat, small]
  split <;> omega

/-- Run a reader over the whole of `bytes`, which it must consume. -/
def whole {α : Type} (read : Decoder α) (bytes : Bytes) : Except Error α :=
  match read.run bytes with
  | .ok (value, []) => .ok value
  | .ok (_, _ :: _) => .error .InvalidLength
  | .error error => .error error

/-- A reader run over a whole region succeeds only by consuming all of it. -/
theorem run_of_whole {α : Type} {read : Decoder α} {bytes : Bytes} {value : α}
    (accepted : whole read bytes = .ok value) : read.run bytes = .ok (value, []) := by
  unfold whole at accepted
  split at accepted
  · rename_i ran
    cases accepted
    exact ran
  · cases accepted
  · cases accepted

/-- Run a reader over exactly the next `count` bytes, which it must consume whole. -/
def within {α : Type} (count : Nat) (read : Decoder α) : Decoder α := do
  let bytes ← take count
  StateT.lift (whole read bytes)

/-- A reader that consumes a region whole succeeds on it under `whole`. -/
theorem whole_of_run {α : Type} (read : Decoder α) (bytes : Bytes) (value : α)
    (consumed : read.run bytes = .ok (value, [])) : whole read bytes = .ok value := by
  simp only [whole, consumed]

/-- A reader that consumes a delimited region whole returns its value after the region. -/
theorem within_run {α : Type} (read : Decoder α) (bytes rest : Bytes) (value : α)
    (consumed : read.run bytes = .ok (value, [])) :
    (within bytes.length read).run (bytes ++ rest) = .ok (value, rest) := by
  simp only [within, StateT.run_bind, take_run_append, except_ok_bind,
    whole_of_run read bytes value consumed]
  rfl

/-! ## Octets -/

/-- Rust `Octets`: a nullable byte string. -/
structure Octets where
  val : Option Bytes
  deriving DecidableEq, Repr

/-- `Octets::serialize`: the varint length, `-1` for null, then the bytes. -/
def octets : Option Bytes → Bytes
  | none => serializeVarInt (-1)
  | some bytes => serializeVarInt (lengthI32 bytes.length) ++ bytes

/-- `Octets::deserialize`. A length below `-1` is invalid. -/
def readOctets : Decoder (Option Bytes) := do
  let length ← deserializeVarInt
  if length.toInt = -1 then pure none
  else if length.toInt < -1 then throw .InvalidLength
  else some <$> take length.toInt.toNat

/-- `ByteSize` of `Octets`, computed from the length alone. -/
def octetsSize : Option Bytes → Nat
  | none => signedVarintSize (-1 : BitVec 32)
  | some bytes => signedVarintSize (lengthI32 bytes.length) + bytes.length

/-- Octets are never empty: the length comes first, also for null. -/
theorem octets_ne_nil (value : Option Bytes) : octets value ≠ [] := by
  cases value <;> simp [octets, serializeVarInt, signedVarint, varint_ne_nil]

/-- Octets have as many bytes as `ByteSize` counts. -/
@[simp] theorem octets_length (value : Option Bytes) : (octets value).length = octetsSize value := by
  cases value <;> simp [octets, octetsSize, serializeVarInt]

/-- A byte string is no longer than the size of its octets. -/
theorem length_le_octetsSize {value : Option Bytes} {bytes : Bytes} (member : bytes ∈ value) :
    bytes.length ≤ octetsSize value := by
  rw [Option.mem_def.mp member, octetsSize]
  omega

/-- Null and every byte string shorter than `2 ^ 31` read back. -/
@[simp] theorem readOctets_run (value : Option Bytes) (rest : Bytes)
    (fits : ∀ bytes ∈ value, bytes.length < 2 ^ 31) :
    readOctets.run (octets value ++ rest) = .ok (value, rest) := by
  cases value with
  | none => rfl
  | some bytes =>
    have length := lengthI32_toInt bytes.length (fits bytes rfl)
    simp only [readOctets, octets, List.append_assoc, StateT.run_bind, deserializeVarInt_run,
      except_ok_bind, length]
    simp [show ¬((bytes.length : Int) = -1) by omega, show ¬((bytes.length : Int) < -1) by omega]

/-! ## Sequences -/

/-- Rust `Sequence<T>`: an `i32` big-endian count, then each item. -/
def sequence {α : Type} (item : α → Bytes) (items : List α) : Bytes :=
  serializeI32 (lengthI32 items.length) ++ (items.map item).flatten

/-- Rust `VarIntSequence<T>`: a varint count, then each item. -/
def varIntSequence {α : Type} (item : α → Bytes) (items : List α) : Bytes :=
  serializeVarInt (lengthI32 items.length) ++ (items.map item).flatten

/-- One item's encoding is no longer than the whole sequence's. -/
theorem length_le_flatten {α : Type} (write : α → Bytes) (items : List α) (item : α)
    (member : item ∈ items) : (write item).length ≤ ((items.map write).flatten).length := by
  induction items with
  | nil => cases member
  | cons first others inductionHypothesis =>
    simp only [List.map_cons, List.flatten_cons, List.length_append]
    rcases List.mem_cons.mp member with rfl | member
    · omega
    · have := inductionHypothesis member
      omega

/-- Items with non-empty encodings are no more than the bytes they take. -/
theorem length_le_flatten_length {α : Type} (write : α → Bytes) (items : List α)
    (nonempty : ∀ item, write item ≠ []) : items.length ≤ ((items.map write).flatten).length := by
  induction items with
  | nil => exact Nat.le_refl 0
  | cons first others inductionHypothesis =>
    have : 0 < (write first).length := List.length_pos.mpr (nonempty first)
    simp only [List.length_cons, List.map_cons, List.flatten_cons, List.length_append]
    omega

/-- Keeping a sublist of items keeps no more bytes, and fewer when it keeps fewer items whose
encodings are not empty. -/
theorem flatten_length_le_of_sublist {α : Type} (write : α → Bytes) {kept items : List α}
    (sub : kept.Sublist items) : ((kept.map write).flatten).length ≤ ((items.map write).flatten).length := by
  simpa only [List.length_flatten, List.map_map] using
    (sub.map (List.length ∘ write)).sum_le_sum (fun _ _ => Nat.zero_le _)

/-- Leaving out at least one item shortens the encoding of a list whose items
all have a nonempty encoding. -/
theorem flatten_length_lt_of_sublist {α : Type} (write : α → Bytes) (nonempty : ∀ item, write item ≠ [])
    {kept items : List α} (sub : kept.Sublist items) (shorter : kept.length < items.length) :
    ((kept.map write).flatten).length < ((items.map write).flatten).length := by
  induction sub with
  | slnil => cases shorter
  | cons item sub _ =>
    have : 0 < (write item).length := List.length_pos.mpr (nonempty item)
    have := flatten_length_le_of_sublist write sub
    simp only [List.map_cons, List.flatten_cons, List.length_append]
    omega
  | cons₂ item _ inductionHypothesis =>
    simp only [List.map_cons, List.flatten_cons, List.length_append, List.length_cons] at shorter ⊢
    have := inductionHypothesis (by omega)
    omega

/-- Writing converted items is writing the items with the conversion. -/
@[simp] theorem varIntSequence_map {α β : Type} (item : β → Bytes) (convert : α → β)
    (items : List α) : varIntSequence item (items.map convert) = varIntSequence (item ∘ convert) items := by
  simp [varIntSequence]

/-- Read `count` items one after the other. -/
def readItems {α : Type} (item : Decoder α) : Nat → Decoder (List α)
  | 0 => pure []
  | count + 1 => do
    let first ← item
    let others ← readItems item count
    pure (first :: others)

/-- Items that each read back from their own encoding read back as a list. -/
theorem readItems_run {α : Type} (item : Decoder α) (write : α → Bytes) (items : List α)
    (rest : Bytes) (roundTrip : ∀ value ∈ items, ∀ rest, item.run (write value ++ rest) = .ok (value, rest)) :
    (readItems item items.length).run ((items.map write).flatten ++ rest) = .ok (items, rest) := by
  induction items with
  | nil => rfl
  | cons first others inductionHypothesis =>
    have head := roundTrip first (List.mem_cons_self _ _) ((others.map write).flatten ++ rest)
    have tail := inductionHypothesis (fun value member => roundTrip value (List.mem_cons_of_mem _ member))
    simp only [readItems, List.length_cons, List.map_cons, List.flatten_cons, List.append_assoc,
      StateT.run_bind, head, except_ok_bind, tail, StateT.run_pure, except_pure]

/-- Read a varint count that is not negative. -/
def readCount : Decoder Nat := do
  let count ← deserializeVarInt
  if count.toInt < 0 then throw .InvalidLength else pure count.toInt.toNat

/-- A count below `2 ^ 31` reads back. -/
@[simp] theorem readCount_run (count : Nat) (fits : count < 2 ^ 31) (rest : Bytes) :
    readCount.run (serializeVarInt (lengthI32 count) ++ rest) = .ok (count, rest) := by
  have length := lengthI32_toInt count fits
  simp only [readCount, StateT.run_bind, deserializeVarInt_run, except_ok_bind,
    length, show ¬((count : Int) < 0) by omega, if_false, Int.toNat_ofNat, StateT.run_pure,
    except_pure]

/-- `VarIntSequence::deserialize`: a varint count, then that many items. -/
def readVarIntSequence {α : Type} (item : Decoder α) : Decoder (List α) := do
  let count ← readCount
  readItems item count

/-- A sequence of fewer than `2 ^ 31` items that each read back reads back. -/
theorem readVarIntSequence_run {α : Type} (item : Decoder α) (write : α → Bytes) (items : List α)
    (rest : Bytes) (fits : items.length < 2 ^ 31)
    (roundTrip : ∀ value ∈ items, ∀ rest, item.run (write value ++ rest) = .ok (value, rest)) :
    (readVarIntSequence item).run (varIntSequence write items ++ rest) = .ok (items, rest) := by
  simp only [readVarIntSequence, varIntSequence, List.append_assoc, StateT.run_bind,
    readCount_run _ fits, except_ok_bind, readItems_run item write items rest roundTrip]

end Tansu
