import Petunia.Lib.CTypes
import Petunia.Lib.Framing

set_option autoImplicit false

/-!
# The byte format of an IPC connection

Numbers travel in network byte order (`wire.c`), and a message as a type byte, its size in eight
bytes and its contents (`sipc.c`).

* `puts`, `gets`, `putll`, `getll`: the numbers; **`gets_puts`**, **`getll_putll`**: what is written
  is read back;
* `Payload`: the contents of a message, whose size fits a `size_t`;
* `outhdr`, `Payload.encode`: the header and the bytes of a message;
* **`encode_unambiguous`**: the bytes of a connection determine its messages.
-/

namespace Petunia.Ipc

open CTypes Framing

/-! ## Numbers -/

/-- `nn_puts`. -/
def puts (val : UInt16) : Bytes := [(val >>> 8 &&& 0xff).toUInt8, (val &&& 0xff).toUInt8]

/-- `nn_gets`. -/
def gets (buf : Bytes) : UInt16 := (buf.getD 0 0).toUInt16 <<< 8 ||| (buf.getD 1 0).toUInt16

/-- `nn_putll`. -/
def putll (val : UInt64) : Bytes :=
  [(val >>> 56 &&& 0xff).toUInt8, (val >>> 48 &&& 0xff).toUInt8, (val >>> 40 &&& 0xff).toUInt8,
    (val >>> 32 &&& 0xff).toUInt8, (val >>> 24 &&& 0xff).toUInt8, (val >>> 16 &&& 0xff).toUInt8,
    (val >>> 8 &&& 0xff).toUInt8, (val &&& 0xff).toUInt8]

/-- `nn_getll`. -/
def getll (buf : Bytes) : UInt64 :=
  (buf.getD 0 0).toUInt64 <<< 56 ||| (buf.getD 1 0).toUInt64 <<< 48 |||
    (buf.getD 2 0).toUInt64 <<< 40 ||| (buf.getD 3 0).toUInt64 <<< 32 |||
    (buf.getD 4 0).toUInt64 <<< 24 ||| (buf.getD 5 0).toUInt64 <<< 16 |||
    (buf.getD 6 0).toUInt64 <<< 8 ||| (buf.getD 7 0).toUInt64 <<< 0

@[simp] theorem length_puts (val : UInt16) : (puts val).length = 2 := rfl

@[simp] theorem length_putll (val : UInt64) : (putll val).length = 8 := rfl

/-- The eight bits at position `s`, cut out and put back. -/
def octet {w : ℕ} (v : BitVec w) (s : ℕ) : BitVec w :=
  BitVec.setWidth w (BitVec.setWidth 8 (v >>> s &&& 255#w)) <<< s

theorem getLsbD_octet {w : ℕ} (v : BitVec w) {i : ℕ} (hi : i < w) (s : ℕ) :
    (octet v s).getLsbD i = (decide (s ≤ i ∧ i < s + 8) && v.getLsbD i) := by
  have h255 : ∀ j, Nat.testBit 255 j = decide (j < 8) := Nat.testBit_two_pow_sub_one 8
  simp only [octet, BitVec.getLsbD_shiftLeft, BitVec.getLsbD_setWidth, BitVec.getLsbD_and,
    BitVec.getLsbD_ushiftRight, BitVec.getLsbD_ofNat, h255]
  by_cases hs : s ≤ i
  · rw [Nat.add_sub_cancel' hs]
    by_cases h8 : i < s + 8
    · have h8' : i - s < 8 := by omega
      have hw : i - s < w := by omega
      simp [hi, hs, h8, h8', hw]
    · have h8' : ¬ i - s < 8 := by omega
      simp [h8, h8']
  · have hlt : i < s := Nat.lt_of_not_le hs
    simp [hs, hlt]

theorem toBitVec_gets_puts (val : UInt16) :
    (gets (puts val)).toBitVec = octet val.toBitVec 8 ||| octet val.toBitVec 0 := by
  rw [octet, octet, BitVec.ushiftRight_zero, BitVec.shiftLeft_zero]
  rfl

theorem toBitVec_getll_putll (val : UInt64) : (getll (putll val)).toBitVec =
    octet val.toBitVec 56 ||| octet val.toBitVec 48 ||| octet val.toBitVec 40 |||
      octet val.toBitVec 32 ||| octet val.toBitVec 24 ||| octet val.toBitVec 16 |||
      octet val.toBitVec 8 ||| octet val.toBitVec 0 := rfl

/-- **A 16-bit number is read back.** -/
theorem gets_puts (val : UInt16) : gets (puts val) = val := by
  refine UInt16.eq_of_toBitVec_eq (BitVec.eq_of_getLsbD_eq fun i hi => ?_)
  simp only [toBitVec_gets_puts, BitVec.getLsbD_or, getLsbD_octet val.toBitVec hi]
  cases val.toBitVec.getLsbD i <;> simp; omega

/-- **A 64-bit number is read back.** -/
theorem getll_putll (val : UInt64) : getll (putll val) = val := by
  refine UInt64.eq_of_toBitVec_eq (BitVec.eq_of_getLsbD_eq fun i hi => ?_)
  simp only [toBitVec_getll_putll, BitVec.getLsbD_or, getLsbD_octet val.toBitVec hi]
  cases val.toBitVec.getLsbD i <;> simp; omega

/-! ## Messages -/

/-- The contents of a message; a `size_t` holds their size. -/
@[ext] structure Payload where
  bytes : Bytes
  size_lt : bytes.length < 2 ^ 64
  deriving DecidableEq

/-- `NN_SIPC_MSG_NORMAL`. -/
def msgNormal : UInt8 := 1

/-- `outhdr` for contents of this size. -/
def outhdr (size : ℕ) : Bytes := msgNormal :: putll (UInt64.ofNat size)

/-- What `nn_sipc_send` puts on the wire. -/
def Payload.encode (p : Payload) : Bytes := outhdr p.bytes.length ++ p.bytes

@[simp] theorem length_outhdr (size : ℕ) : (outhdr size).length = 9 := rfl

/-- The size in a header is read back. -/
theorem toNat_getll_outhdr (p : Payload) :
    (getll ((outhdr p.bytes.length).drop 1)).toNat = p.bytes.length := by
  change (getll (putll _)).toNat = _
  rw [getll_putll, UInt64.toNat_ofNat', Nat.mod_eq_of_lt p.size_lt]

/-- The header of a message determines where it ends. -/
theorem isPrefixCode_encode : IsPrefixCode Payload.encode :=
  .of_header (n := 9) (by decide) (fun _ => rfl)
    (fun p q h => by rw [← toNat_getll_outhdr p, ← toNat_getll_outhdr q, h])
    fun _ _ _ h => Payload.ext h

/-- **The bytes of a connection determine its messages.** Where they begin with the bytes of some
messages, these are the first ones sent, and what follows are the bytes of the others; so the bytes
can be decoded in one way only, message after message. -/
theorem encode_unambiguous {ps qs : List Payload} {rest : Bytes}
    (h : ps.flatMap Payload.encode ++ rest = qs.flatMap Payload.encode) :
    ∃ rs, qs = ps ++ rs ∧ rest = rs.flatMap Payload.encode :=
  isPrefixCode_encode.cut h

/-- An empty message begins the bytes of two. -/
theorem encode_unambiguous_two : ∃ rs, [(⟨[], by decide⟩ : Payload), ⟨[7], by decide⟩] =
    [⟨[], by decide⟩] ++ rs ∧ [1, 0, 0, 0, 0, 0, 0, 0, 1, 7] = rs.flatMap Payload.encode :=
  @encode_unambiguous [⟨[], by decide⟩] _ _ rfl

end Petunia.Ipc
