import Mathlib.Algebra.Group.Nat.Defs
import Mathlib.Data.List.TakeWhile

/-!
# Byte strings, C strings and `std::string`

Wire frames, port messages and JSON texts are lists of bytes. A `char *` is read up to
its first NUL; a `std::string` keeps its length. `size_t` subtraction wraps on 64 bits.
-/

namespace Ubx.Base

/-- A sequence of bytes of any length and content. -/
abbrev Bytes := List UInt8

/-- The UTF-8 bytes of a string literal. -/
def ofString (s : String) : Bytes := s.toUTF8.data.toList

/-- The C string that starts at `mem`: everything before the first NUL. -/
def cString (mem : Bytes) : Bytes := mem.takeWhile (· ≠ 0)

/-- Reading up to the first NUL keeps a string that holds none. -/
theorem cString_eq_self {t : Bytes} (h : 0 ∉ t) : cString t = t := by
  apply List.takeWhile_eq_self_iff.mpr
  intro b hb
  simp only [ne_eq, decide_not, Bool.not_eq_eq_eq_not, Bool.not_true, decide_eq_false_iff_not]
  rintro rfl
  exact h hb

/-- What is read up to the first NUL holds none. -/
theorem zero_not_mem_cString (mem : Bytes) : 0 ∉ cString mem := by
  intro h
  have := List.mem_takeWhile_imp h
  simp at this

/-- A terminator written behind `t` cuts off whatever the buffer held there. -/
theorem cString_append_zero (t rest : Bytes) : cString (t ++ 0 :: rest) = cString t := by
  induction t with
  | nil => simp [cString]
  | cons b t ih =>
    simp only [cString, List.cons_append, List.takeWhile_cons] at ih ⊢
    split
    · rw [ih]
    · rfl

/-- `std::string::compare`: unsigned byte order, a proper prefix first. -/
def strCompare : Bytes → Bytes → Int
  | [], [] => 0
  | [], _ :: _ => -1
  | _ :: _, [] => 1
  | a :: as, b :: bs => if a < b then -1 else if b < a then 1 else strCompare as bs

/-- `compare` answers zero exactly on equal strings. -/
theorem strCompare_eq_zero_iff (a b : Bytes) : strCompare a b = 0 ↔ a = b := by
  induction a generalizing b with
  | nil => cases b <;> simp [strCompare]
  | cons x a ih =>
    cases b with
    | nil => simp [strCompare]
    | cons y b =>
      simp only [strCompare, List.cons.injEq]
      split
      · next h => simp [UInt8.ne_of_lt h]
      · next h =>
        split
        · next h' => simp [(UInt8.ne_of_lt h').symm]
        · next h' =>
          have he : x = y := UInt8.le_antisymm (UInt8.not_lt.mp h') (UInt8.not_lt.mp h)
          simp [he, ih]

/-- `size_t` subtraction, which wraps below zero. -/
def sizeSub (a b : Nat) : Nat := if b ≤ a then a - b else a + 2 ^ 64 - b

/-- `std::string::substr`; `none` is the `out_of_range` exception. -/
def substr (t : Bytes) (pos n : Nat) : Option Bytes :=
  if pos ≤ t.length then some ((t.drop pos).take n) else none

/-- `t.substr(1, t.size() - 2)` drops the first and the last byte of a longer text. -/
theorem substr_inner (a b : UInt8) (t : Bytes) :
    substr (a :: (t ++ [b])) 1 (sizeSub (a :: (t ++ [b])).length 2) = some t := by
  have hl : sizeSub (a :: (t ++ [b])).length 2 = t.length := by
    simp only [sizeSub, List.length_cons, List.length_append, List.length_nil]
    split <;> omega
  rw [hl]
  simp [substr]

end Ubx.Base
