import Mathlib.Data.List.Count

/-!
# Counting in a trace

How often something has happened since something else happened last, or since the start
of the trace.
-/

namespace Ubx.Base

universe u

variable {α : Type u} (reset hit : α → Bool)

/-- Entries that satisfy `hit` behind the last one that satisfies `reset`. -/
def countSince (trace : List α) : Nat := (trace.reverse.takeWhile (!reset ·)).countP hit

variable {reset hit}

/-- A reset starts over, a hit counts, and anything else does not. -/
theorem countSince_concat (trace : List α) (a : α) :
    countSince reset hit (trace ++ [a]) =
      if reset a then 0
      else if hit a then countSince reset hit trace + 1 else countSince reset hit trace := by
  cases hr : reset a <;> cases ha : hit a <;> simp [countSince, hr, ha]

end Ubx.Base
