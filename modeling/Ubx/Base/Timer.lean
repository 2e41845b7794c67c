import Mathlib.Algebra.Order.Ring.Defs
import Mathlib.Tactic.Linarith
import Mathlib.Tactic.Ring

/-!
# Timers that are looked at

A timer goes off at the first look behind its time, and is wound up again from a second
reading of the clock. So it goes off late, but never twice within its interval, and how often
it goes off is known up to how far the looks are apart.
-/

namespace Ubx.Base

universe u

/-- The reading a timer was wound up at, and how often it has gone off. -/
structure Timer (α : Type u) where
  base : α
  fired : Nat

section

variable {α : Type u} [CommRing α] [LinearOrder α] [IsStrictOrderedRing α]

/-- A look at a timer, with two readings of the clock. -/
def Timer.look (interval : α) (t : Timer α) (r : α × α) : Timer α :=
  if t.base + interval < r.1 then ⟨r.2, t.fired + 1⟩ else t

/-- Readings behind `last`, of a clock that does not go back. The looks are at most `gap`
apart, and so are the two readings of each. -/
def Paced (gap : α) : α × α → List (α × α) → Prop
  | _, [] => True
  | last, r :: rs => (last.2 ≤ r.1 ∧ r.1 ≤ r.2) ∧ (r.1 ≤ last.1 + gap ∧ r.2 ≤ r.1 + gap) ∧
      Paced gap r rs

/-- A timer that was started at `start`, where the last look was at `last`. -/
structure Timer.Regular (start interval gap : α) (t : Timer α) (last : α × α) : Prop where
  lower : start + t.fired * interval ≤ t.base
  upper : t.base ≤ start + t.fired * (interval + 2 * gap)
  base_le : t.base ≤ last.2
  last_le : last.1 ≤ t.base + interval
  close : last.2 ≤ last.1 + gap

variable {start interval gap : α} {t : Timer α} {last r : α × α}

/-- Before the first look. -/
theorem Timer.Regular.begin (hi : 0 ≤ interval) (hg : 0 ≤ gap) :
    Timer.Regular start interval gap ⟨start, 0⟩ (start, start) where
  lower := by simp
  upper := by simp
  base_le := le_refl _
  last_le := by
    show start ≤ start + interval
    linarith
  close := by
    show start ≤ start + gap
    linarith

/-- One more look. -/
theorem Timer.Regular.look (h : t.Regular start interval gap last) (hi : 0 ≤ interval)
    (horder : last.2 ≤ r.1 ∧ r.1 ≤ r.2) (hgap : r.1 ≤ last.1 + gap ∧ r.2 ≤ r.1 + gap) :
    (t.look interval r).Regular start interval gap r := by
  obtain ⟨hlower, hupper, hbase, hlast, -⟩ := h
  rw [Timer.look]
  split
  · next hover =>
    constructor
    · show start + ((t.fired + 1 : Nat) : α) * interval ≤ r.2
      rw [Nat.cast_succ, add_mul, one_mul]
      linarith [horder.2]
    · show r.2 ≤ start + ((t.fired + 1 : Nat) : α) * (interval + 2 * gap)
      rw [Nat.cast_succ, add_mul, one_mul]
      linarith [hgap.1, hgap.2]
    · exact le_refl _
    · show r.1 ≤ r.2 + interval
      linarith [horder.2]
    · exact hgap.2
  · next hover =>
    refine ⟨hlower, hupper, ?_, not_lt.mp hover, hgap.2⟩
    linarith [horder.1, horder.2]

/-- How often a timer goes off in the time that has passed. -/
theorem Timer.Regular.rate (h : t.Regular start interval gap last) (hg : 0 ≤ gap) :
    t.fired * interval ≤ last.2 - start ∧
      last.2 - start ≤ (t.fired + 1) * (interval + 2 * gap) := by
  obtain ⟨hlower, hupper, hbase, hlast, hclose⟩ := h
  constructor
  · linarith
  · rw [add_mul, one_mul]
    linarith

end

end Ubx.Base
