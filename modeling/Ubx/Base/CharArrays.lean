import Ubx.Base.Bytes

/-!
# Strings in a piece of memory

A structure of character arrays is a piece of memory. `strcpy` writes a text and its
terminator wherever they end, and a reader goes on to the first NUL, in the array or behind
it; neither may leave the piece.
-/

namespace Ubx.Base

/-- `strcpy` of `t` to `off`; `none` if it writes behind the memory. -/
def strcpy (mem : Bytes) (off : Nat) (t : Bytes) : Option Bytes :=
  if off + t.length < mem.length then
    some (mem.take off ++ t ++ 0 :: mem.drop (off + t.length + 1))
  else none

/-- The string at `off`; `none` if there is no NUL before the end of the memory. -/
def readString (mem : Bytes) (off : Nat) : Option Bytes :=
  if 0 ∈ mem.drop off then some (cString (mem.drop off)) else none

/-- The string `t` and its terminator stand at `off`. -/
def StringAt (mem : Bytes) (off : Nat) (t : Bytes) : Prop :=
  0 ∉ t ∧ t ++ [0] <+: mem.drop off

variable {mem mem' t u : Bytes} {off off' : Nat}

/-- A string that stands somewhere is read there. -/
theorem StringAt.readString_eq (h : StringAt mem off t) : readString mem off = some t := by
  obtain ⟨hzero, rest, hrest⟩ := h
  have happend : mem.drop off = t ++ 0 :: rest := by
    rw [← hrest, List.append_assoc, List.singleton_append]
  rw [readString, happend, if_pos (by simp), cString_append_zero, cString_eq_self hzero]

/-- `strcpy` succeeds if text and terminator fit into the memory. -/
theorem strcpy_eq (h : off + t.length < mem.length) :
    strcpy mem off t = some (mem.take off ++ t ++ 0 :: mem.drop (off + t.length + 1)) :=
  if_pos h

/-- The memory keeps its length. -/
theorem length_of_strcpy (h : strcpy mem off t = some mem') : mem'.length = mem.length := by
  rw [strcpy] at h
  split at h
  · obtain rfl := Option.some.inj h
    simp only [List.length_append, List.length_take, List.length_cons, List.length_drop]
    omega
  · exact absurd h (by simp)

/-- The text that has been copied stands there. -/
theorem stringAt_of_strcpy (hzero : 0 ∉ t) (h : strcpy mem off t = some mem') :
    StringAt mem' off t := by
  rw [strcpy] at h
  split at h
  · obtain rfl := Option.some.inj h
    refine ⟨hzero, mem.drop (off + t.length + 1), ?_⟩
    rw [List.append_assoc (mem.take off), List.drop_left' (by simp; omega), List.append_assoc,
      List.singleton_append]
  · exact absurd h (by simp)

/-- No byte outside of text and terminator changes. -/
theorem getElem?_strcpy (h : strcpy mem off t = some mem') {i : Nat}
    (hi : i < off ∨ off + t.length < i) : mem'[i]? = mem[i]? := by
  rw [strcpy] at h
  split at h
  · obtain rfl := Option.some.inj h
    rcases hi with hi | hi
    · rw [List.append_assoc, List.getElem?_append_left (by simp; omega),
        List.getElem?_take_of_lt hi]
    · have hlength : (mem.take off ++ t).length = off + t.length := by simp; omega
      obtain ⟨k, rfl⟩ := Nat.exists_eq_add_of_lt hi
      rw [List.getElem?_append_right (by omega), hlength,
        show off + t.length + k + 1 - (off + t.length) = k + 1 by omega,
        List.getElem?_cons_succ, List.getElem?_drop]
      congr 1
      omega
  · exact absurd h (by simp)

/-- The frame rule: a string that text and terminator do not touch is still there. -/
theorem StringAt.strcpy (hat : StringAt mem off' u) (h : strcpy mem off t = some mem')
    (hdisjoint : off' + u.length < off ∨ off + t.length < off') : StringAt mem' off' u := by
  refine ⟨hat.1, List.prefix_iff_getElem?.mpr fun i hi ↦ ?_⟩
  have hmem := List.prefix_iff_getElem?.mp hat.2 i hi
  have hlt : i < u.length + 1 := by simpa using hi
  rw [List.getElem?_drop] at hmem ⊢
  rw [getElem?_strcpy h (by omega), hmem]

/-- There is a string exactly if a NUL follows. -/
theorem readString_isSome_iff : (readString mem off).isSome = true ↔ 0 ∈ mem.drop off := by
  rw [readString]
  split <;> simp [*]

/-- A reader that starts earlier finds a NUL as well. -/
theorem readString_isSome_of_le (hle : off' ≤ off) (h : (readString mem off).isSome = true) :
    (readString mem off').isSome = true := by
  rw [readString_isSome_iff] at h ⊢
  exact (List.drop_suffix_drop_left mem hle).subset h

end Ubx.Base
