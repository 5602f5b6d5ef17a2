import Mathlib

/-!
# Primitive codec

The record batch codec writes its fields with three primitive encodings: fixed-width
big-endian integers, zig-zag signed base-128 varints, and nullable octets whose length
is such a varint, `-1` standing for null. The encoder and decoder of the repository are
not under `src/`; they are modelled here from the specification's description of the
primitive codec, and checked against the one encoded batch that the tests of
`inflated.rs` spell out byte by byte.

Writers are total functions to byte lists. Readers are state transformers over the
remaining input that fail with `InsufficientBytes` on a short read, `InvalidVarint` on a
varint longer than ten bytes, overlong (not minimal) or outside its declared width, and
`InvalidLength` on a negative length other than the null marker. The reader laws below are
round trips that leave arbitrary trailing input untouched, so readers compose field by
field, and inversion lemmas (`bind_run_ok`, `take_run_ok`, `readFixedWidth_run_ok`,
`readVarint_run_ok`) that go the other way, from a successful read back to the bytes it
consumed.
-/

namespace Tansu

/-- Modelled from the spec: the codec errors of the specification's primitive and
record codecs, and the integer conversion failure of `i32::try_from`. -/
inductive Error where
  | InsufficientBytes
  | InvalidVarint
  | InvalidLength
  | CorruptBatch
  | UnknownMagic
  | UnknownCompression
  | TryFromInt
  deriving DecidableEq, Repr

/-- Rust `Bytes`: an immutable byte string. -/
abbrev Bytes := List UInt8

/-- A reader consumes a prefix of its input and returns the rest with its value. -/
abbrev Decoder := StateT Bytes (Except Error)

/-- A successful result passes its value on. -/
@[simp] theorem except_ok_bind {α β : Type} (a : α) (f : α → Except Error β) :
    (Except.ok a >>= f) = f a := rfl

/-- `pure` in `Except` is success. -/
@[simp] theorem except_pure {α : Type} (a : α) : (pure a : Except Error α) = .ok a := rfl

/-- A failure stops the computation that follows it. -/
@[simp] theorem except_error_bind {α β : Type} (e : Error) (f : α → Except Error β) :
    (Except.error e >>= f) = Except.error e := rfl

/-- Take exactly `count` bytes, or fail when fewer remain. -/
def take (count : Nat) : Decoder Bytes := fun input =>
  if count ≤ input.length then .ok (input.take count, input.drop count)
  else .error .InsufficientBytes

/-- Read one byte. -/
def readByte : Decoder UInt8 := fun input =>
  match input with
  | [] => .error .InsufficientBytes
  | byte :: rest => .ok (byte, rest)

/-- Taking as many bytes as a prefix has returns that prefix. -/
@[simp] theorem take_run_append (bytes rest : Bytes) :
    (take bytes.length).run (bytes ++ rest) = .ok (bytes, rest) := by
  simp [take, StateT.run]

/-- Reading a byte returns the first one. -/
@[simp] theorem readByte_run_cons (byte : UInt8) (rest : Bytes) :
    readByte.run (byte :: rest) = .ok (byte, rest) := rfl

/-- A reader that throws fails on every input and consumes nothing. -/
@[simp] theorem throw_run {α : Type} (failure : Error) (input : Bytes) :
    (throw failure : Decoder α).run input = .error failure := rfl

/-- Two readers in sequence succeed only when each does, the second on what the first left. -/
theorem bind_run_ok {α β : Type} {first : Decoder α} {next : α → Decoder β} {input rest : Bytes}
    {result : β} (ran : (first >>= next).run input = .ok (result, rest)) :
    ∃ value middle, first.run input = .ok (value, middle) ∧
      (next value).run middle = .ok (result, rest) := by
  rw [StateT.run_bind] at ran
  cases firstRan : first.run input with
  | error failure => simp [firstRan] at ran
  | ok pair =>
    obtain ⟨value, middle⟩ := pair
    rw [firstRan, except_ok_bind] at ran
    exact ⟨value, middle, rfl, ran⟩

/-- A lifted computation succeeds with its value and consumes nothing. -/
theorem lift_run_ok {α : Type} {computation : Except Error α} {input rest : Bytes} {value : α}
    (ran : (StateT.lift computation : Decoder α).run input = .ok (value, rest)) :
    computation = .ok value ∧ rest = input := by
  cases computation with
  | error failure => cases ran
  | ok result =>
    simp only [StateT.run_lift, except_ok_bind, except_pure, Except.ok.injEq, Prod.mk.injEq] at ran
    exact ⟨by rw [ran.1], ran.2.symm⟩

/-- What `take` returns is the next `count` bytes of its input. -/
theorem take_run_ok {count : Nat} {input bytes rest : Bytes}
    (taken : (take count).run input = .ok (bytes, rest)) :
    bytes.length = count ∧ input = bytes ++ rest := by
  simp only [take, StateT.run] at taken
  split at taken
  · rename_i enough
    simp only [Except.ok.injEq, Prod.mk.injEq] at taken
    obtain ⟨rfl, rfl⟩ := taken
    exact ⟨List.length_take_of_le enough, (List.take_append_drop count input).symm⟩
  · cases taken

/-! ## Fixed-width integers -/

/-- A number is written as the byte it agrees with modulo `256`. -/
theorem uint8_ofNat_eq {n : Nat} {byte : UInt8} (low : n % 256 = byte.toNat) : UInt8.ofNat n = byte :=
  UInt8.eq_of_toBitVec_eq (BitVec.eq_of_toNat_eq low)

/-- The `width` low-order bytes of `n`, most significant first. -/
def bigEndian : Nat → Nat → Bytes
  | 0, _ => []
  | width + 1, n => bigEndian width (n / 256) ++ [UInt8.ofNat n]

/-- Read a big-endian number back: each byte shifts the accumulated value by eight bits. -/
def ofBigEndian (bytes : Bytes) : Nat :=
  bytes.foldl (fun acc byte => 256 * acc + byte.toNat) 0

/-- A big-endian number of `width` bytes has `width` bytes. -/
@[simp] theorem bigEndian_length (width n : Nat) : (bigEndian width n).length = width := by
  induction width generalizing n with
  | zero => rfl
  | succ width inductionHypothesis => simp [bigEndian, inductionHypothesis]

/-- Big-endian bytes denote the number modulo the range of their width. -/
theorem ofBigEndian_bigEndian (width n : Nat) :
    ofBigEndian (bigEndian width n) = n % 256 ^ width := by
  induction width generalizing n with
  | zero => simp [bigEndian, ofBigEndian, Nat.mod_one]
  | succ width inductionHypothesis =>
    have low : (UInt8.ofNat n).toNat = n % 256 := rfl
    have high := inductionHypothesis (n / 256)
    simp only [ofBigEndian] at high
    simp only [bigEndian, ofBigEndian, List.foldl_append, high, List.foldl_cons,
      List.foldl_nil, low, Nat.pow_succ', Nat.mod_mul]
    omega

/-- Big-endian bytes are the bytes of the number they denote. -/
theorem bigEndian_ofBigEndian (bytes : Bytes) : bigEndian bytes.length (ofBigEndian bytes) = bytes := by
  induction bytes using List.reverseRecOn with
  | nil => rfl
  | append_singleton init last inductionHypothesis =>
    have bounded : last.toNat < 256 := last.toNat_lt_size
    have value : ofBigEndian (init ++ [last]) = 256 * ofBigEndian init + last.toNat := by
      simp [ofBigEndian, List.foldl_append]
    have low : UInt8.ofNat (256 * ofBigEndian init + last.toNat) = last := uint8_ofNat_eq (by omega)
    have high : (256 * ofBigEndian init + last.toNat) / 256 = ofBigEndian init := by omega
    rw [List.length_append, List.length_singleton, bigEndian, value, high, low, inductionHypothesis]

/-- A big-endian number read from `n` bytes is below `256 ^ n`. -/
theorem ofBigEndian_lt (bytes : Bytes) : ofBigEndian bytes < 256 ^ bytes.length := by
  induction bytes using List.reverseRecOn with
  | nil => decide
  | append_singleton init last inductionHypothesis =>
    have bounded : last.toNat < 256 := last.toNat_lt_size
    have value : ofBigEndian (init ++ [last]) = 256 * ofBigEndian init + last.toNat := by
      simp [ofBigEndian, List.foldl_append]
    rw [value, List.length_append, List.length_singleton, Nat.pow_succ]
    omega

/-- Serialize a fixed-width integer as its `width / 8` big-endian bytes. -/
def fixedWidth {width : Nat} (value : BitVec width) : Bytes :=
  bigEndian (width / 8) value.toNat

/-- Deserialize a fixed-width big-endian integer. -/
def readFixedWidth (width : Nat) : Decoder (BitVec width) := do
  let bytes ← take (width / 8)
  pure (BitVec.ofNat width (ofBigEndian bytes))

/-- A fixed-width integer takes `width / 8` bytes. -/
@[simp] theorem fixedWidth_length {width : Nat} (value : BitVec width) :
    (fixedWidth value).length = width / 8 := bigEndian_length _ _

/-- A whole number of bytes reads back every fixed-width value. -/
@[simp] theorem readFixedWidth_run {width : Nat} (whole : width % 8 = 0) (value : BitVec width)
    (rest : Bytes) : (readFixedWidth width).run (fixedWidth value ++ rest) = .ok (value, rest) := by
  have range : 256 ^ (width / 8) = 2 ^ width := by
    rw [show (256 : Nat) = 2 ^ 8 from rfl, ← Nat.pow_mul]
    congr 1
    omega
  have taken := take_run_append (fixedWidth value) rest
  rw [fixedWidth_length] at taken
  simp only [readFixedWidth, StateT.run_bind, taken, except_ok_bind]
  simp [fixedWidth, ofBigEndian_bigEndian, range, Nat.mod_eq_of_lt value.isLt]

/-- Distinct values have distinct fixed-width encodings. -/
theorem fixedWidth_injective {width : Nat} (whole : width % 8 = 0) :
    Function.Injective (@fixedWidth width) := fun first second same => by
  have read := readFixedWidth_run whole first []
  rw [same, readFixedWidth_run whole second []] at read
  simpa using read.symm

/-- Whatever a fixed-width read accepts is the encoding of the value it returns. -/
theorem readFixedWidth_run_ok {width : Nat} (whole : width % 8 = 0) {input rest : Bytes}
    {value : BitVec width} (read : (readFixedWidth width).run input = .ok (value, rest)) :
    input = fixedWidth value ++ rest := by
  obtain ⟨bytes, middle, taken, converted⟩ := bind_run_ok read
  obtain ⟨length, split⟩ := take_run_ok taken
  simp only [StateT.run_pure, except_pure, Except.ok.injEq, Prod.mk.injEq] at converted
  obtain ⟨rfl, rfl⟩ := converted
  have range : 256 ^ (width / 8) = 2 ^ width := by
    rw [show (256 : Nat) = 2 ^ 8 from rfl, ← Nat.pow_mul]
    congr 1
    omega
  have small := ofBigEndian_lt bytes
  rw [length, range] at small
  rw [split, fixedWidth, BitVec.toNat_ofNat, Nat.mod_eq_of_lt small, ← length, bigEndian_ofBigEndian]

/-- Rust `i8`, one byte. -/
def serializeI8 (value : BitVec 8) : Bytes := fixedWidth value
/-- Rust `i16`, two big-endian bytes. -/
def serializeI16 (value : BitVec 16) : Bytes := fixedWidth value
/-- Rust `i32`, four big-endian bytes. -/
def serializeI32 (value : BitVec 32) : Bytes := fixedWidth value
/-- Rust `u32`, four big-endian bytes. -/
def serializeU32 (value : BitVec 32) : Bytes := fixedWidth value
/-- Rust `i64`, eight big-endian bytes. -/
def serializeI64 (value : BitVec 64) : Bytes := fixedWidth value

/-- Reader of `serializeI8`. -/
def deserializeI8 : Decoder (BitVec 8) := readFixedWidth 8
/-- Reader of `serializeI16`. -/
def deserializeI16 : Decoder (BitVec 16) := readFixedWidth 16
/-- Reader of `serializeI32`. -/
def deserializeI32 : Decoder (BitVec 32) := readFixedWidth 32
/-- Reader of `serializeU32`. -/
def deserializeU32 : Decoder (BitVec 32) := readFixedWidth 32
/-- Reader of `serializeI64`. -/
def deserializeI64 : Decoder (BitVec 64) := readFixedWidth 64

/-- `deserializeI8` reads back what `serializeI8` wrote. -/
@[simp] theorem deserializeI8_run (value : BitVec 8) (rest : Bytes) :
    deserializeI8.run (serializeI8 value ++ rest) = .ok (value, rest) :=
  readFixedWidth_run (by decide) value rest
/-- `deserializeI16` reads back what `serializeI16` wrote. -/
@[simp] theorem deserializeI16_run (value : BitVec 16) (rest : Bytes) :
    deserializeI16.run (serializeI16 value ++ rest) = .ok (value, rest) :=
  readFixedWidth_run (by decide) value rest
/-- `deserializeI32` reads back what `serializeI32` wrote. -/
@[simp] theorem deserializeI32_run (value : BitVec 32) (rest : Bytes) :
    deserializeI32.run (serializeI32 value ++ rest) = .ok (value, rest) :=
  readFixedWidth_run (by decide) value rest
/-- `deserializeU32` reads back what `serializeU32` wrote. -/
@[simp] theorem deserializeU32_run (value : BitVec 32) (rest : Bytes) :
    deserializeU32.run (serializeU32 value ++ rest) = .ok (value, rest) :=
  readFixedWidth_run (by decide) value rest
/-- `deserializeI64` reads back what `serializeI64` wrote. -/
@[simp] theorem deserializeI64_run (value : BitVec 64) (rest : Bytes) :
    deserializeI64.run (serializeI64 value ++ rest) = .ok (value, rest) :=
  readFixedWidth_run (by decide) value rest

/-! ## Varints -/

/-- Unsigned base-128 digits of `n`, least significant first, the high bit set on every
byte but the last. The first argument only bounds the recursion: `varint` passes `n`
itself, and every step divides `n` by 128. -/
def leb128 : Nat → Nat → Bytes
  | 0, n => [UInt8.ofNat n]
  | fuel + 1, n =>
    if n < 128 then [UInt8.ofNat n] else UInt8.ofNat (n % 128 + 128) :: leb128 fuel (n / 128)

/-- The unsigned varint of `n`. -/
def varint (n : Nat) : Bytes := leb128 n n

/-- Any bound at least `n` gives the same digits. -/
theorem leb128_fuel (fuel other n : Nat) (enough : n ≤ fuel) (alsoEnough : n ≤ other) :
    leb128 fuel n = leb128 other n := by
  induction fuel generalizing n other with
  | zero => cases other <;> simp_all [leb128]
  | succ fuel inductionHypothesis =>
    cases other with
    | zero => simp_all [leb128]
    | succ other =>
      simp only [leb128]
      split
      · rfl
      · rw [inductionHypothesis other (n / 128) (by omega) (by omega)]

/-- One digit of the varint, and the varint of the remaining high digits. -/
theorem varint_eq (n : Nat) : varint n =
    if n < 128 then [UInt8.ofNat n] else UInt8.ofNat (n % 128 + 128) :: varint (n / 128) := by
  cases n with
  | zero => rfl
  | succ m =>
    simp only [varint, leb128]
    split
    · rfl
    · rw [leb128_fuel m ((m + 1) / 128) ((m + 1) / 128) (by omega) (Nat.le_refl _)]

/-- Read an unsigned varint of at most `limit` bytes. A continuation byte whose high digits
are all zero makes the encoding overlong, and is refused as the spec's `InvalidVarint`. -/
def readVarint : Nat → Decoder Nat
  | 0 => throw .InvalidVarint
  | limit + 1 => do
    let byte ← readByte
    if byte.toNat < 128 then pure byte.toNat
    else do
      let high ← readVarint limit
      if high = 0 then throw .InvalidVarint
      else pure (byte.toNat - 128 + 128 * high)

/-- Every varint has at least one byte, even the one of zero. -/
theorem varint_ne_nil (n : Nat) : varint n ≠ [] := by
  rw [varint_eq]
  split <;> simp

/-- A value below `128 ^ (digits + 1)` takes at most `digits + 1` bytes. -/
theorem varint_length_le (n digits : Nat) (small : n < 128 ^ (digits + 1)) :
    (varint n).length ≤ digits + 1 := by
  induction digits generalizing n with
  | zero => rw [varint_eq, if_pos (by simpa using small)]; rfl
  | succ digits inductionHypothesis =>
    rw [varint_eq]
    split
    · simp
    · have high : n / 128 < 128 ^ (digits + 1) := by
        rw [Nat.pow_succ] at small
        omega
      simpa using inductionHypothesis (n / 128) high

/-- A varint within the reader's limit reads back, leaving the rest of the input. -/
@[simp] theorem readVarint_run (limit n : Nat) (rest : Bytes) (short : (varint n).length ≤ limit) :
    (readVarint limit).run (varint n ++ rest) = .ok (n, rest) := by
  induction limit generalizing n with
  | zero =>
    have := varint_ne_nil n
    simp_all
  | succ limit inductionHypothesis =>
    rw [varint_eq] at short ⊢
    split
    · rename_i small
      have low : (UInt8.ofNat n).toNat = n := Nat.mod_eq_of_lt (by omega)
      simp [readVarint, low, small]
    · rename_i large
      have low : (UInt8.ofNat (n % 128 + 128)).toNat = n % 128 + 128 :=
        Nat.mod_eq_of_lt (by omega)
      simp only [List.length_cons, if_neg large] at short
      have high := inductionHypothesis (n / 128) (by omega)
      simp only [readVarint, List.cons_append, StateT.run_bind, readByte_run_cons, except_ok_bind,
        low, show ¬(n % 128 + 128 < 128) by omega, if_false, high, show ¬(n / 128 = 0) by omega,
        StateT.run_pure, except_pure]
      congr 2
      omega

/-- The reader accepts only the bytes the writer writes: whatever it reads, it read from the
value's own varint, which fits its limit. -/
theorem readVarint_run_ok {limit : Nat} {input rest : Bytes} {n : Nat}
    (read : (readVarint limit).run input = .ok (n, rest)) :
    input = varint n ++ rest ∧ (varint n).length ≤ limit := by
  induction limit generalizing input rest n with
  | zero => cases read
  | succ limit inductionHypothesis =>
    cases input with
    | nil => cases read
    | cons byte tail =>
      have bounded : byte.toNat < 256 := byte.toNat_lt_size
      simp only [readVarint, StateT.run_bind, readByte_run_cons, except_ok_bind] at read
      split at read
      · rename_i small
        simp only [StateT.run_pure, except_pure, Except.ok.injEq, Prod.mk.injEq] at read
        obtain ⟨rfl, rfl⟩ := read
        rw [varint_eq, if_pos small, uint8_ofNat_eq (Nat.mod_eq_of_lt bounded)]
        exact ⟨rfl, by simp⟩
      · rename_i large
        obtain ⟨high, middle, highRead, checked⟩ := bind_run_ok read
        split at checked
        · cases checked
        simp only [StateT.run_pure, except_pure, Except.ok.injEq, Prod.mk.injEq] at checked
        obtain ⟨rfl, rfl⟩ := checked
        obtain ⟨encoded, short⟩ := inductionHypothesis highRead
        rw [varint_eq, if_neg (by omega), uint8_ofNat_eq (show _ % 256 = byte.toNat by omega),
          show (byte.toNat - 128 + 128 * high) / 128 = high by omega]
        exact ⟨by rw [encoded]; rfl, by simpa using short⟩

/-- The two-byte encoding of zero is overlong. -/
example : (readVarint 10).run [128, 0] = .error .InvalidVarint := rfl

/-- Zig-zag folds signed values onto the naturals: `0, -1, 1, -2, …` to `0, 1, 2, 3, …`. -/
def zigzag (value : Int) : Nat :=
  if 0 ≤ value then 2 * value.toNat else 2 * (-value).toNat - 1

/-- The inverse of `zigzag`: even numbers are the non-negative values. -/
def unzigzag (n : Nat) : Int :=
  if n % 2 = 0 then ((n / 2 : Nat) : Int) else -(((n + 1) / 2 : Nat) : Int)

/-- `unzigzag` undoes `zigzag` on every integer. -/
@[simp] theorem unzigzag_zigzag (value : Int) : unzigzag (zigzag value) = value := by
  unfold zigzag unzigzag
  split <;> split <;> omega

/-- The signed range of a `width`-bit value bounds its zig-zag code by `2 ^ width`. -/
theorem zigzag_lt (value : Int) (width : Nat) (below : value < 2 ^ width)
    (above : -2 ^ width ≤ value) : zigzag value < 2 ^ (width + 1) := by
  have cast : ((2 ^ width : Nat) : Int) = 2 ^ width := Int.natCast_pow 2 width
  rw [Nat.pow_succ]
  unfold zigzag
  split <;> omega

/-- Two's complement values lie in the signed range of their width. -/
theorem toInt_range {width : Nat} (value : BitVec (width + 1)) :
    -2 ^ width ≤ value.toInt ∧ value.toInt < 2 ^ width := by
  have bound := value.isLt
  have double : (2 : Nat) ^ (width + 1) = 2 * 2 ^ width := by rw [Nat.pow_succ, Nat.mul_comm]
  have cast : ((2 ^ width : Nat) : Int) = 2 ^ width := Int.natCast_pow 2 width
  rw [BitVec.toInt]
  split <;> omega

/-- Reading a value back from its two's complement integer. -/
theorem ofInt_toInt {width : Nat} (value : BitVec width) : BitVec.ofInt width value.toInt = value :=
  BitVec.toInt_inj.mp (by rw [BitVec.toInt_ofInt, BitVec.toInt_eq_toNat_bmod, Int.bmod_bmod])

/-- A zig-zag varint: Rust `VarInt` for `i32` and `LongVarInt` for `i64`. -/
def signedVarint {width : Nat} (value : BitVec width) : Bytes := varint (zigzag value.toInt)

/-- Read a zig-zag varint of at most ten bytes that fits `width` signed bits. -/
def readSignedVarint (width : Nat) : Decoder (BitVec width) := do
  let n ← readVarint 10
  let value := unzigzag n
  if -2 ^ (width - 1) ≤ value ∧ value < 2 ^ (width - 1) then pure (BitVec.ofInt width value)
  else throw .InvalidVarint

/-- Every value of one to 64 bits reads back from its zig-zag varint. -/
@[simp] theorem readSignedVarint_run {width : Nat} (positive : 0 < width) (wide : width ≤ 64)
    (value : BitVec width) (rest : Bytes) :
    (readSignedVarint width).run (signedVarint value ++ rest) = .ok (value, rest) := by
  obtain ⟨bits, rfl⟩ : ∃ bits, width = bits + 1 := ⟨width - 1, by omega⟩
  obtain ⟨above, below⟩ := toInt_range value
  have code := zigzag_lt value.toInt bits below above
  have limit : (2 : Nat) ^ (bits + 1) ≤ 128 ^ (9 + 1) :=
    calc (2 : Nat) ^ (bits + 1) ≤ 2 ^ 70 := Nat.pow_le_pow_right (by decide) (by omega)
      _ = 128 ^ (9 + 1) := by decide
  have short := varint_length_le (zigzag value.toInt) 9 (by omega)
  simp [readSignedVarint, signedVarint, readVarint_run 10 _ rest short, above, below,
    ofInt_toInt]

/-- Rust `VarInt`: a zig-zag varint of an `i32`. -/
def serializeVarInt (value : BitVec 32) : Bytes := signedVarint value
/-- Rust `LongVarInt`: a zig-zag varint of an `i64`. -/
def serializeLongVarInt (value : BitVec 64) : Bytes := signedVarint value
/-- Reader of `serializeVarInt`. -/
def deserializeVarInt : Decoder (BitVec 32) := readSignedVarint 32
/-- Reader of `serializeLongVarInt`. -/
def deserializeLongVarInt : Decoder (BitVec 64) := readSignedVarint 64

/-- `deserializeVarInt` reads back what `serializeVarInt` wrote. -/
@[simp] theorem deserializeVarInt_run (value : BitVec 32) (rest : Bytes) :
    deserializeVarInt.run (serializeVarInt value ++ rest) = .ok (value, rest) :=
  readSignedVarint_run (by decide) (by decide) value rest
/-- `deserializeLongVarInt` reads back what `serializeLongVarInt` wrote. -/
@[simp] theorem deserializeLongVarInt_run (value : BitVec 64) (rest : Bytes) :
    deserializeLongVarInt.run (serializeLongVarInt value ++ rest) = .ok (value, rest) :=
  readSignedVarint_run (by decide) (by decide) value rest

end Tansu
