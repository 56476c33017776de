import Mathlib.Data.List.TakeWhile
import Mathlib.Tactic.NormNum

set_option autoImplicit false

/-!
# C integers and C strings

* `cInt`: what an `int` holds after the implicit conversion of a 64-bit size (`cInt_eq_iff`: the
  size itself exactly below `2 ^ 31`);
* `CString`, `cStr`: what a `const char *` shows of a buffer (`cStr_terminated`, `cStr_bytes`: a C
  string is read back from its bytes, with or without the terminator).
-/

namespace CTypes

/-- The bytes of a `std::string` or of a buffer. -/
abbrev Bytes := List UInt8

/-- A 64-bit size converted to a 32-bit `int`. -/
@[irreducible] def cInt (n : ℕ) : ℤ := (BitVec.ofNat 32 n).toInt

theorem cInt_eq (n : ℕ) : cInt n = (n : ℤ).bmod (2 ^ 32) := by
  unfold cInt
  exact BitVec.toInt_ofNat' n

theorem cInt_lt (n : ℕ) : cInt n < 2 ^ 31 := by
  rw [cInt_eq, Int.bmod]
  norm_num
  split_ifs <;> omega

/-- **A conversion to `int` keeps exactly the sizes below `2 ^ 31`.** -/
theorem cInt_eq_iff {n : ℕ} : cInt n = n ↔ n < 2 ^ 31 := by
  rw [cInt_eq, Int.bmod]
  norm_num
  split_ifs <;> constructor <;> intro h <;> omega

theorem cInt_of_lt {n : ℕ} (h : n < 2 ^ 31) : cInt n = n := cInt_eq_iff.mpr h

/-- The smallest size that converts to `0` and is not `0`. -/
theorem cInt_two_pow : cInt (2 ^ 32) = 0 := by
  unfold cInt
  decide

/-- A size below `2 ^ 32` whose conversion is not negative is kept. -/
theorem cInt_of_nonneg {n : ℕ} (h : n < 2 ^ 32) (h0 : 0 ≤ cInt n) : cInt n = n := by
  refine cInt_of_lt ?_
  rw [cInt_eq, Int.bmod] at h0
  norm_num at h0
  split_ifs at h0 <;> omega

/-- **The bytes that survive a conversion of the size to `int`.** If the converted size is not
negative, it covers the whole of `b` exactly when `b` is shorter than `2 ^ 32`. -/
theorem take_cInt_eq_iff {b : Bytes} (h0 : 0 ≤ cInt b.length) :
    b.take (cInt b.length).toNat = b ↔ b.length < 2 ^ 32 := by
  constructor
  · intro h
    have h1 := congrArg List.length h
    have h2 := cInt_lt b.length
    rw [List.length_take] at h1
    omega
  · intro h
    rw [cInt_of_nonneg h h0, Int.toNat_natCast, List.take_length]

/-- A C string: what a reader of a `const char *` sees before the terminator. -/
@[ext] structure CString where
  bytes : Bytes
  zero_notMem : (0 : UInt8) ∉ bytes
  deriving DecidableEq

/-- The C string at the start of a buffer: its bytes before the first `NUL`. -/
def cStr (s : Bytes) : CString :=
  ⟨s.takeWhile (· ≠ 0), fun h => by simpa using List.mem_takeWhile_imp h⟩

/-- **A C string is read back from its bytes and terminator**, whatever follows them. -/
theorem cStr_terminated (c : CString) (rest : Bytes) : cStr (c.bytes ++ 0 :: rest) = c := by
  obtain ⟨s, h⟩ := c
  refine CString.ext ?_
  change (s ++ 0 :: rest).takeWhile (· ≠ 0) = s
  rw [List.takeWhile_append_of_pos fun b hb => by simpa using fun e : b = 0 => h (e ▸ hb)]
  simp

@[simp] theorem cStr_bytes (c : CString) : cStr c.bytes = c :=
  CString.ext <| List.takeWhile_eq_self_iff.mpr fun b hb => by
    simpa using fun e : b = 0 => c.zero_notMem (e ▸ hb)

/-- **A buffer is its own C string** exactly if it has no `NUL`. -/
theorem bytes_cStr_eq_iff {s : Bytes} : (cStr s).bytes = s ↔ (0 : UInt8) ∉ s := by
  constructor
  · intro h h0
    rw [← h] at h0
    exact (cStr s).zero_notMem h0
  · intro h
    exact List.takeWhile_eq_self_iff.mpr fun b hb => by simpa using fun e : b = 0 => h (e ▸ hb)

end CTypes
