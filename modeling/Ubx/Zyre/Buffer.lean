import Ubx.Zyre.Step

/-!
# The receive buffer of the zyre bridge

`max_msg_length` is an `int`; `zyre_bridge_init` stores it in an `unsigned long` before it
checks it, and `zyre_bridge_step` multiplies it with the size of a pointer and writes the
terminator behind the bytes read; `src/zyre_bridge/src/zyre_bridge.cpp:107–114,258–281`.
-/

namespace Ubx.Zyre

open Ubx.Base

/-- Bits of `unsigned long` and `size_t`, and bytes of a pointer. -/
structure Target where
  width : Nat
  pointerSize : Nat
  width_ge : 32 ≤ width
  pointerSize_gt : 1 < pointerSize
  pointerSize_lt : pointerSize < 2 ^ 31

/-- 64 bits. -/
def lp64 : Target := ⟨64, 8, by decide, by decide, by decide⟩

/-- 32 bits. -/
def ilp32 : Target := ⟨32, 4, by decide, by decide, by decide⟩

namespace Target

variable (T : Target)

/-- `inf->max_msg_length = *max_msg_length`. -/
def unsignedLong (n : Int32) : BitVec T.width := BitVec.ofInt T.width n.toInt

/-- The value gets past `if (inf->max_msg_length <= 0)`. -/
def lengthAccepted (n : Int32) : Bool := !decide (T.unsignedLong n ≤ 0)

/-- `inf->max_msg_length * sizeof(char*)`. -/
def requested (n : Int32) : BitVec T.width :=
  T.unsignedLong n * BitVec.ofNat T.width T.pointerSize

/-- Only positive values are accepted, neither the conversion nor the multiplication wraps
on them, and the terminator of every message that is read lies within the buffer. -/
structure LengthSafe (n : Int32) : Prop where
  positive : T.lengthAccepted n = true → 0 < n.toInt
  converted : T.lengthAccepted n = true → ((T.unsignedLong n).toNat : Int) = n.toInt
  multiplied : T.lengthAccepted n = true →
    (T.requested n).toNat = (T.unsignedLong n).toNat * T.pointerSize
  terminated : T.lengthAccepted n = true → ∀ readBytes, 0 < readBytes →
    readBytes ≤ (T.unsignedLong n).toNat → readBytes < (T.requested n).toNat

variable {T}

/-- An `int` is smaller than half the range of `unsigned long`. -/
theorem two_pow_le (T : Target) : 2 ^ 32 ≤ 2 ^ T.width :=
  Nat.pow_le_pow_right (by omega) T.width_ge

/-- A value that is not negative is kept. -/
theorem toNat_unsignedLong_of_nonneg {n : Int32} (h : 0 ≤ n.toInt) :
    ((T.unsignedLong n).toNat : Int) = n.toInt := by
  have hw := T.two_pow_le
  have hlt := n.toInt_lt
  rw [unsignedLong, BitVec.toNat_ofInt, Int.emod_eq_of_lt h (by omega), Int.toNat_of_nonneg h]

/-- A negative value wraps to a positive one. -/
theorem toNat_unsignedLong_of_neg {n : Int32} (h : n.toInt < 0) :
    0 < (T.unsignedLong n).toNat := by
  have hw := T.two_pow_le
  have hle := n.le_toInt
  have hmod : n.toInt % ((2 ^ T.width : Nat) : Int) = n.toInt + ((2 ^ T.width : Nat) : Int) := by
    rw [← Int.add_emod_right]
    exact Int.emod_eq_of_lt (by omega) (by omega)
  rw [unsignedLong, BitVec.toNat_ofInt, hmod]
  omega

/-- Every value but zero is accepted. -/
theorem lengthAccepted_iff (n : Int32) : T.lengthAccepted n = true ↔ n.toInt ≠ 0 := by
  have hzero : T.unsignedLong n ≤ 0 ↔ (T.unsignedLong n).toNat = 0 := by
    rw [BitVec.le_def]
    exact Nat.le_zero
  rw [lengthAccepted, Bool.not_eq_true', decide_eq_false_iff_not, hzero]
  by_cases h : 0 ≤ n.toInt
  · have := toNat_unsignedLong_of_nonneg (T := T) h
    omega
  · have := toNat_unsignedLong_of_neg (T := T) (Int.not_le.mp h)
    omega

/-- What is requested from `malloc`, up to wrapping. -/
theorem toNat_requested (n : Int32) :
    (T.requested n).toNat = (T.unsignedLong n).toNat * T.pointerSize % 2 ^ T.width := by
  have hw := T.two_pow_le
  have hp := T.pointerSize_lt
  have hsize : T.pointerSize % 2 ^ T.width = T.pointerSize := Nat.mod_eq_of_lt (by omega)
  rw [requested, BitVec.toNat_mul, BitVec.toNat_ofNat, hsize]

/-- A value is safe when it is zero, or positive and its product fits. -/
theorem lengthSafe_iff (n : Int32) :
    T.LengthSafe n ↔ 0 ≤ n.toInt ∧ n.toInt * T.pointerSize < ((2 ^ T.width : Nat) : Int) := by
  constructor
  · intro h
    by_cases hz : n.toInt = 0
    · have hw := T.two_pow_le
      rw [hz]
      omega
    · have hacc := (lengthAccepted_iff (T := T) n).mpr hz
      have hpos := h.positive hacc
      have hlt : (T.unsignedLong n).toNat * T.pointerSize < 2 ^ T.width := by
        rw [← h.multiplied hacc]
        exact (T.requested n).isLt
      refine ⟨Int.le_of_lt hpos, ?_⟩
      rw [← h.converted hacc]
      exact_mod_cast hlt
  · rintro ⟨hnn, hlt⟩
    have hconv := toNat_unsignedLong_of_nonneg (T := T) hnn
    have hlt' : (T.unsignedLong n).toNat * T.pointerSize < 2 ^ T.width := by
      rw [← hconv] at hlt
      exact_mod_cast hlt
    have hreq : (T.requested n).toNat = (T.unsignedLong n).toNat * T.pointerSize := by
      rw [toNat_requested, Nat.mod_eq_of_lt hlt']
    have hpos (hacc : T.lengthAccepted n = true) : 0 < n.toInt := by
      have := (lengthAccepted_iff n).mp hacc
      omega
    refine ⟨hpos, fun _ ↦ hconv, fun _ ↦ hreq, fun _ readBytes hread hle ↦ ?_⟩
    rw [hreq]
    have hpointer := T.pointerSize_gt
    have hdouble : (T.unsignedLong n).toNat * 2 ≤ (T.unsignedLong n).toNat * T.pointerSize :=
      Nat.mul_le_mul_left _ hpointer
    omega

end Target

/-! ### The functions of the block -/

/-- With 64 bits the conversion is the one of `zyre_bridge_init`, -/
theorem toNat_unsignedLong_lp64 (n : Int32) :
    (lp64.unsignedLong n).toNat = (toUnsignedLong n).toNat := by
  have hbits : (toUnsignedLong n).toBitVec = n.toBitVec.signExtend 64 := rfl
  rw [← UInt64.toNat_toBitVec, hbits]
  rfl

/-- the check is its check, -/
theorem lengthAccepted_lp64_iff (n : Int32) :
    lp64.lengthAccepted n = true ↔ ¬ toUnsignedLong n ≤ 0 := by
  have hint : n.toInt = 0 ↔ n = 0 := by rw [← Int32.toInt_inj, Int32.toInt_zero]
  rw [Target.lengthAccepted_iff, toUnsignedLong_le_zero_iff, ne_eq, hint]

/-- and the request is the one of `zyre_bridge_step`. -/
theorem toNat_requested_lp64 (n : Int32) :
    (lp64.requested n).toNat = mallocSize (toUnsignedLong n) := by
  rw [mallocSize, UInt64.toNat_mul, Target.toNat_requested, toNat_unsignedLong_lp64]
  rfl

/-- Exactly the values that are not negative are safe with 64 bits; with 32 bits they must
also stay below a quarter of the range. -/
theorem lengthSafe_iff_range (n : Int32) :
    (lp64.LengthSafe n ↔ 0 ≤ n.toInt) ∧
      (ilp32.LengthSafe n ↔ 0 ≤ n.toInt ∧ n.toInt < 2 ^ 30) := by
  have hlt := n.toInt_lt
  have h64 : (lp64.pointerSize : Int) = 8 ∧ ((2 ^ lp64.width : Nat) : Int) = 2 ^ 64 :=
    ⟨rfl, by norm_num [lp64]⟩
  have h32 : (ilp32.pointerSize : Int) = 4 ∧ ((2 ^ ilp32.width : Nat) : Int) = 2 ^ 32 :=
    ⟨rfl, by norm_num [ilp32]⟩
  rw [Target.lengthSafe_iff, Target.lengthSafe_iff, h64.1, h64.2, h32.1, h32.2]
  constructor
  · omega
  · omega

/-- `-1` gets past the check and becomes the largest value; `2 ^ 30` pointers of four bytes
are none. -/
theorem accepted_not_safe :
    lp64.lengthAccepted (-1) = true ∧ (lp64.unsignedLong (-1)).toNat = 2 ^ 64 - 1 ∧
      ¬ lp64.LengthSafe (-1) ∧
      ilp32.lengthAccepted 1073741824 = true ∧ (ilp32.requested 1073741824).toNat = 0 ∧
      ¬ ilp32.LengthSafe 1073741824 := by
  refine ⟨by decide, by decide, fun h ↦ ?_, by decide, by decide, fun h ↦ ?_⟩
  · exact absurd (h.positive (by decide)) (by decide)
  · exact absurd (h.multiplied (by decide)) (by decide)

end Ubx.Zyre
