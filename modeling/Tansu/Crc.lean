import Tansu.Primitive

/-!
# CRC-32C

`Builder::crc` hashes the batch with the `crc` crate's `CRC_32_ISCSI` algorithm through an
`io::Write` adaptor that passes every buffer the encoder writes to `Digest::update`. The
crate is a dependency, not part of the repository; this module models the algorithm the
specification names, CRC-32C with the Castagnoli polynomial, bit by bit in its reflected
form: initial register all ones, final register complemented.

A digest is its running register, and `Digest.update_append` shows that feeding bytes in
two writes or in one gives the same digest, so how the encoder splits its output into
writes does not matter. `crc32c_append_cons_injective` is the error detection a decoder
relies on: changing any one byte of a string changes its CRC.
-/

namespace Tansu

/-- The Castagnoli polynomial `0x1EDC6F41`, bit-reflected. -/
def castagnoli : BitVec 32 := 0x82F63B78#32

/-- Shift one bit out of the reflected register, folding in the polynomial on a carry. -/
def crcBit (register : BitVec 32) : BitVec 32 :=
  if register.getLsbD 0 then (register >>> 1) ^^^ castagnoli else register >>> 1

/-- Shift `count` bits out of the register. -/
def crcBits : Nat → BitVec 32 → BitVec 32
  | 0, register => register
  | count + 1, register => crcBits count (crcBit register)

/-- A byte enters the low end of the register, which then shifts out eight bits. -/
def crcByte (register : BitVec 32) (byte : UInt8) : BitVec 32 :=
  crcBits 8 (register ^^^ byte.toBitVec.setWidth 32)

/-- `crc::Digest` for `CRC_32_ISCSI`: the running register. -/
structure Digest where
  register : BitVec 32

/-- `Crc::digest`: a fresh digest, its register all ones. -/
def Digest.new : Digest := ⟨0xFFFFFFFF#32⟩

/-- `Digest::update`. -/
def Digest.update (digest : Digest) (bytes : Bytes) : Digest :=
  ⟨bytes.foldl crcByte digest.register⟩

/-- `Digest::finalize`: the register complemented. -/
def Digest.finalize (digest : Digest) : BitVec 32 := digest.register ^^^ 0xFFFFFFFF#32

/-- CRC-32C of a byte string. -/
def crc32c (bytes : Bytes) : BitVec 32 := (Digest.new.update bytes).finalize

/-- Two writes update a digest as one write of both. -/
theorem Digest.update_append (digest : Digest) (first second : Bytes) :
    (digest.update first).update second = digest.update (first ++ second) := by
  simp [Digest.update, List.foldl_append]

/-- Writes folded into a digest hash their concatenation. -/
theorem Digest.foldl_update (digest : Digest) (writes : List Bytes) :
    writes.foldl Digest.update digest = digest.update writes.flatten := by
  induction writes generalizing digest with
  | nil => rfl
  | cons first others inductionHypothesis =>
    simp [inductionHypothesis, Digest.update_append]

/-! ## One changed byte changes the CRC

A step of the register is linear in exclusive or and sends no register but zero to zero, so
it loses no information; neither does a byte entering the register. Two byte strings that
differ in one byte therefore leave different registers, and different CRCs. -/

/-- Exclusive or with a fixed mask loses no information. -/
theorem xor_inj_left {mask first second : BitVec 32} (same : mask ^^^ first = mask ^^^ second) :
    first = second := by
  simpa [← BitVec.xor_assoc] using congrArg (mask ^^^ ·) same

/-- The same, the mask on the right. -/
theorem xor_inj_right {mask first second : BitVec 32} (same : first ^^^ mask = second ^^^ mask) :
    first = second :=
  xor_inj_left (by rwa [BitVec.xor_comm mask, BitVec.xor_comm mask])

/-- A step of the register is linear in exclusive or. -/
theorem crcBit_xor (first second : BitVec 32) :
    crcBit (first ^^^ second) = crcBit first ^^^ crcBit second := by
  unfold crcBit
  simp only [BitVec.getLsbD_xor, BitVec.ushiftRight_xor_distrib]
  cases first.getLsbD 0 <;> cases second.getLsbD 0 <;> simp <;> ac_nf
  rw [← BitVec.xor_assoc, BitVec.xor_self, BitVec.zero_xor]

/-- Only the zero register steps to zero: a carry sets the top bit, which a shift clears. -/
theorem crcBit_eq_zero {register : BitVec 32} (zero : crcBit register = 0#32) : register = 0#32 := by
  have bounded := register.isLt
  unfold crcBit at zero
  split at zero
  · have shifted : register >>> 1 = castagnoli := by
      simpa [BitVec.xor_assoc] using congrArg (· ^^^ castagnoli) zero
    have values := congrArg BitVec.toNat shifted
    simp [castagnoli] at values
    omega
  · rename_i low
    apply BitVec.eq_of_toNat_eq
    have values := congrArg BitVec.toNat zero
    simp [BitVec.getLsbD, Nat.testBit] at low values
    simp
    omega

/-- A step of the register loses no information. -/
theorem crcBit_injective : Function.Injective crcBit := fun first second same => by
  have zero : crcBit (first ^^^ second) = 0#32 := by rw [crcBit_xor, same, BitVec.xor_self]
  exact @xor_inj_left second _ _ (by rw [BitVec.xor_comm, crcBit_eq_zero zero, BitVec.xor_self])

/-- Nor do any number of steps. -/
theorem crcBits_injective (count : Nat) : Function.Injective (crcBits count) := by
  induction count with
  | zero => exact fun _ _ same => same
  | succ count inductionHypothesis =>
    exact fun _ _ same => crcBit_injective (inductionHypothesis same)

/-- Registers that differ before a byte enters still differ after it. -/
theorem crcByte_injective_register (byte : UInt8) :
    Function.Injective fun register => crcByte register byte :=
  fun first second same => @xor_inj_left (byte.toBitVec.setWidth 32) _ _ (by
    rw [BitVec.xor_comm _ first, BitVec.xor_comm _ second]
    exact crcBits_injective 8 same)

/-- Different bytes entering the same register leave different registers. -/
theorem crcByte_injective (register : BitVec 32) : Function.Injective (crcByte register) :=
  fun first second same => by
    have widened := congrArg BitVec.toNat (xor_inj_left (crcBits_injective 8 same))
    simp at widened
    apply UInt8.eq_of_toBitVec_eq
    apply BitVec.eq_of_toNat_eq
    have firstBounded := first.toBitVec.isLt
    have secondBounded := second.toBitVec.isLt
    omega

/-- Registers that differ before a string of bytes enters still differ after it. -/
theorem foldl_crcByte_injective (bytes : Bytes) :
    Function.Injective fun register => bytes.foldl crcByte register := by
  induction bytes with
  | nil => exact fun _ _ same => same
  | cons byte rest inductionHypothesis =>
    exact fun _ _ same => crcByte_injective_register byte (inductionHypothesis same)

/-- CRC-32C tells apart every two byte strings that differ in exactly one byte. -/
theorem crc32c_append_cons_injective (before after : Bytes) :
    Function.Injective fun byte => crc32c (before ++ byte :: after) := fun first second same => by
  simp only [crc32c, Digest.finalize, Digest.update, List.foldl_append, List.foldl_cons] at same
  exact crcByte_injective _ (foldl_crcByte_injective after (xor_inj_right same))

set_option maxRecDepth 8000 in
/-- The catalogue check value of `CRC_32_ISCSI`, the CRC of the ASCII digits `123456789`. -/
example : crc32c [49, 50, 51, 52, 53, 54, 55, 56, 57] = 0xE3069283#32 := by decide

end Tansu
