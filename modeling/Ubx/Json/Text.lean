import Ubx.Json.Value
import Mathlib.Data.Nat.Digits.Lemmas

/-!
# JSON text

The compact single-line serialisation: items and members separated by a comma and a
space, a colon and a space after a key, non-ASCII bytes as they are. Quotes, backslashes
and control characters are escaped in strings; nothing else is quoted.
-/

namespace Ubx.Json

open Ubx.Base

/-! ### Numbers -/

/-- Decimal digits of a natural number. -/
def natText (n : Nat) : Bytes :=
  if n = 0 then [0x30] else (Nat.digits 10 n).reverse.map fun d ↦ UInt8.ofNat (0x30 + d)

/-- Decimal text of an integer. -/
def intText (i : Int) : Bytes := if i < 0 then 0x2D :: natText i.natAbs else natText i.natAbs

private theorem toNat_digit {d : Nat} (h : d < 10) : (UInt8.ofNat (0x30 + d)).toNat = 0x30 + d := by
  rw [UInt8.toNat_ofNat']
  omega

private theorem isDigit_digit {d : Nat} (h : d < 10) : isDigit (UInt8.ofNat (0x30 + d)) = true := by
  simp only [isDigit, Bool.and_eq_true, decide_eq_true_eq, UInt8.le_iff_toNat_le, toNat_digit h]
  constructor
  · change 0x30 ≤ _
    omega
  · change _ ≤ 0x39
    omega

/-- Decimal text is made of digits. -/
theorem isDigit_of_mem_natText {n : Nat} {b : UInt8} (h : b ∈ natText n) : isDigit b = true := by
  unfold natText at h
  split at h
  · obtain rfl : b = 0x30 := by simpa using h
    decide
  · obtain ⟨d, hd, rfl⟩ := List.mem_map.mp h
    exact isDigit_digit (Nat.digits_lt_base (by decide) (List.mem_reverse.mp hd))

/-- Decimal text is never empty. -/
theorem natText_ne_nil (n : Nat) : natText n ≠ [] := by
  unfold natText
  split
  · simp
  · next h => simpa [Nat.digits_eq_nil_iff_eq_zero] using h

/-- Decimal text has no leading zero, zero itself apart. -/
theorem head?_natText {n : Nat} (h : (natText n).head? = some 0x30) : natText n = [0x30] := by
  unfold natText at h ⊢
  split
  · rfl
  · next hn =>
    exfalso
    rw [if_neg hn, List.head?_map, List.head?_reverse, Option.map_eq_some_iff] at h
    obtain ⟨d, hd, hz⟩ := h
    rw [List.getLast?_eq_some_getLast (Nat.digits_ne_nil_iff_ne_zero.mpr hn)] at hd
    have hlt : d < 10 := by
      obtain rfl := Option.some.inj hd
      exact Nat.digits_lt_base (by decide) (List.getLast_mem _)
    have hne : d ≠ 0 := by
      obtain rfl := Option.some.inj hd
      exact Nat.getLast_digit_ne_zero 10 hn
    have ht := congrArg UInt8.toNat hz
    rw [toNat_digit hlt] at ht
    change 0x30 + d = 0x30 at ht
    omega

/-- The number a digit string denotes. -/
def digitsValue (ds : Bytes) : Nat := Nat.ofDigits 10 (ds.reverse.map fun b ↦ b.toNat - 0x30)

/-- Decimal text denotes its number. -/
theorem digitsValue_natText (n : Nat) : digitsValue (natText n) = n := by
  unfold digitsValue natText
  split
  · next h => simp [h]
  · rw [← List.map_reverse, List.reverse_reverse, List.map_map]
    have hm : (Nat.digits 10 n).map ((fun b ↦ b.toNat - 0x30) ∘ fun d ↦ UInt8.ofNat (0x30 + d)) =
        (Nat.digits 10 n).map id := by
      apply List.map_congr_left
      intro d hd
      simp only [Function.comp, toNat_digit (Nat.digits_lt_base (by decide) hd), id]
      omega
    rw [hm, List.map_id, Nat.ofDigits_digits]

/-- Decimal text starts with no sign. -/
theorem exists_natText (n : Nat) : ∃ b r, natText n = b :: r ∧ b ≠ 0x2D := by
  cases ht : natText n with
  | nil => exact absurd ht (natText_ne_nil n)
  | cons b r =>
    have hd := isDigit_of_mem_natText (n := n) (b := b) (by rw [ht]; simp)
    refine ⟨b, r, rfl, ?_⟩
    rintro rfl
    exact absurd hd (by decide)

/-- Integers print as integer lexemes. -/
theorem numberKind_intText (i : Int) : numberKind (intText i) = some .integer := by
  have hb : unsignedLexeme (intText i) = natText i.natAbs := by
    unfold intText
    split
    · rfl
    · obtain ⟨b, r, ht, hne⟩ := exists_natText i.natAbs
      rw [ht, unsignedLexeme, if_neg hne]
  have hall : ∀ b ∈ natText i.natAbs, isDigit b = true := fun b ↦ isDigit_of_mem_natText
  have htake : (natText i.natAbs).takeWhile isDigit = natText i.natAbs :=
    List.takeWhile_eq_self_iff.mpr hall
  have hdrop : (natText i.natAbs).dropWhile isDigit = [] := List.dropWhile_eq_nil_iff.mpr hall
  simp only [numberKind, hb, htake, hdrop, natText_ne_nil, false_or]
  rw [if_neg]
  · rfl
  · rintro ⟨hh, hne⟩
    exact hne (head?_natText hh)

private theorem isNumberByte_of_isDigit {b : UInt8} (h : isDigit b = true) :
    isNumberByte b = true := by
  simp [isNumberByte, h]

private theorem isNumberByte_of_isDigits {t : Bytes} (h : isDigits t = true) :
    ∀ b ∈ t, isNumberByte b = true := by
  simp only [isDigits, Bool.and_eq_true, List.all_eq_true] at h
  exact fun b hb ↦ isNumberByte_of_isDigit (h.2 b hb)

private theorem isNumberByte_of_isExponent {t : Bytes} (h : isExponent t = true) :
    ∀ b ∈ t, isNumberByte b = true := by
  unfold isExponent at h
  split at h
  · next e s r =>
    simp only [Bool.and_eq_true, Bool.or_eq_true, decide_eq_true_eq] at h
    obtain ⟨he, hr⟩ := h
    have hb : isNumberByte e = true := by obtain rfl | rfl := he <;> decide
    obtain hr | ⟨hs, hr⟩ := hr
    · exact List.forall_mem_cons.mpr ⟨hb, isNumberByte_of_isDigits hr⟩
    · have hn : isNumberByte s = true := by obtain rfl | rfl := hs <;> decide
      exact List.forall_mem_cons.mpr ⟨hb, List.forall_mem_cons.mpr
        ⟨hn, isNumberByte_of_isDigits hr⟩⟩
  · exact absurd h (by simp)

private theorem isNumberByte_of_isFraction {t : Bytes} (h : isFraction t = true) :
    ∀ b ∈ t, isNumberByte b = true := by
  unfold isFraction at h
  split at h
  · exact absurd h (by simp)
  · next c r =>
    split at h
    · next hc =>
      subst hc
      simp only [Bool.and_eq_true, Bool.or_eq_true, decide_eq_true_eq] at h
      obtain ⟨hd, hr⟩ := h
      refine List.forall_mem_cons.mpr ⟨by decide, fun b hb ↦ ?_⟩
      rw [← List.takeWhile_append_dropWhile (p := isDigit) (l := r), List.mem_append] at hb
      obtain hb | hb := hb
      · exact isNumberByte_of_isDigits hd b hb
      · obtain hr | hr := hr
        · simp [hr] at hb
        · exact isNumberByte_of_isExponent hr b hb
    · exact isNumberByte_of_isExponent h

/-- A number lexeme splits into an optional minus, a digit, and number bytes. -/
theorem numberKind_shape {t : Bytes} {k : NumberKind} (h : numberKind t = some k) :
    ∃ d r, isDigit d = true ∧ (∀ b ∈ r, isNumberByte b = true) ∧
      (t = d :: r ∨ t = 0x2D :: d :: r) := by
  simp only [numberKind] at h
  split at h
  · exact absurd h (by simp)
  · next hds =>
    rw [not_or] at hds
    have hrest : ∀ b ∈ (unsignedLexeme t).dropWhile isDigit, isNumberByte b = true := by
      split at h
      · next hn => simp [hn]
      · split at h
        · next hf => exact isNumberByte_of_isFraction hf
        · exact absurd h (by simp)
    obtain ⟨d, ds, hd⟩ := List.exists_cons_of_ne_nil hds.1
    have hall := List.all_eq_true.mp (List.all_takeWhile (l := unsignedLexeme t) (p := isDigit))
    rw [hd] at hall
    refine ⟨d, ds ++ (unsignedLexeme t).dropWhile isDigit, hall d (by simp), ?_, ?_⟩
    · intro b hb
      obtain hb | hb := List.mem_append.mp hb
      · exact isNumberByte_of_isDigit (hall b (by simp [hb]))
      · exact hrest b hb
    · have ht : unsignedLexeme t = d :: (ds ++ (unsignedLexeme t).dropWhile isDigit) := by
        rw [← List.cons_append, ← hd, List.takeWhile_append_dropWhile]
      rw [← ht]
      cases t with
      | nil => exact Or.inl rfl
      | cons c r =>
        simp only [unsignedLexeme]
        split
        · next hc => exact Or.inr (by rw [hc])
        · exact Or.inl rfl

/-- A number lexeme consists of number bytes. -/
theorem isNumberByte_of_mem {t : Bytes} {k : NumberKind} (h : numberKind t = some k) :
    ∀ b ∈ t, isNumberByte b = true := by
  obtain ⟨d, r, hd, hr, rfl | rfl⟩ := numberKind_shape h
  · exact List.forall_mem_cons.mpr ⟨isNumberByte_of_isDigit hd, hr⟩
  · exact List.forall_mem_cons.mpr ⟨by decide, List.forall_mem_cons.mpr
      ⟨isNumberByte_of_isDigit hd, hr⟩⟩

/-! ### Strings -/

/-- Upper-case hexadecimal digit. -/
def hexDigit (n : UInt8) : UInt8 := if n < 10 then 0x30 + n else 0x37 + n

/-- How a byte is written inside a string. -/
def escapeByte (b : UInt8) : Bytes :=
  if b = 0x22 then [0x5C, 0x22]
  else if b = 0x5C then [0x5C, 0x5C]
  else if b = 0x08 then [0x5C, 0x62]
  else if b = 0x0C then [0x5C, 0x66]
  else if b = 0x0A then [0x5C, 0x6E]
  else if b = 0x0D then [0x5C, 0x72]
  else if b = 0x09 then [0x5C, 0x74]
  else if b < 0x20 then [0x5C, 0x75, 0x30, 0x30, hexDigit (b / 16), hexDigit (b % 16)]
  else [b]

/-- A string's content between its quotes. -/
def escape (s : Bytes) : Bytes := s.flatMap escapeByte

/-- A quoted string. -/
def quote (s : Bytes) : Bytes := 0x22 :: (escape s ++ [0x22])

/-- Bytes that a string prints as they are. -/
def isPlain (b : UInt8) : Bool := b ≠ 0x22 && b ≠ 0x5C && 0x20 ≤ b

/-- An escape is the byte itself when plain, and starts with a backslash otherwise. -/
theorem escapeByte_cases (b : UInt8) :
    (isPlain b = true ∧ escapeByte b = [b]) ∨
      (isPlain b = false ∧ ∃ r, escapeByte b = 0x5C :: r) := by
  unfold escapeByte isPlain
  grind

/-- Plain strings are not escaped. -/
theorem escape_plain {s : Bytes} (h : s.all isPlain = true) : escape s = s := by
  induction s with
  | nil => rfl
  | cons b s ih =>
    simp only [List.all_cons, Bool.and_eq_true] at h
    obtain ⟨-, hb⟩ | ⟨hn, -⟩ := escapeByte_cases b
    · rw [escape, List.flatMap_cons, hb, ← escape, ih h.2]
      rfl
    · rw [h.1] at hn
      exact absurd hn (by simp)

/-- The escaping lemma: only a plain string itself has that string as escaped text. -/
theorem escape_eq_plain_iff {s e : Bytes} (he : e.all isPlain = true) : escape s = e ↔ s = e := by
  constructor
  · intro h
    induction s generalizing e with
    | nil => exact h
    | cons b s ih =>
      rw [escape, List.flatMap_cons, ← escape] at h
      obtain ⟨-, hb⟩ | ⟨-, r, hb⟩ := escapeByte_cases b
      · subst h
        rw [hb, List.singleton_append, List.all_cons, Bool.and_eq_true] at he
        rw [hb, List.singleton_append, ← ih he.2 rfl]
      · rw [hb] at h
        subst h
        exact absurd he (by simp [isPlain])
  · rintro rfl
    exact escape_plain he

/-! ### Values -/

/-- What stands between two items or members. -/
def separator : Bytes := [0x2C, 0x20]

mutual

/-- The serialisation of a value. -/
def text : Json → Bytes
  | .null => ofString "null"
  | .bool true => ofString "true"
  | .bool false => ofString "false"
  | .integer n => intText n.toInt
  | .real x => x.val
  | .string s => quote s
  | .array xs => 0x5B :: (separator.intercalate (texts xs) ++ [0x5D])
  | .object ms => 0x7B :: (separator.intercalate (memberTexts ms) ++ [0x7D])

/-- The serialised items of an array. -/
def texts : List Json → List Bytes
  | [] => []
  | x :: xs => text x :: texts xs

/-- The serialised members of an object. -/
def memberTexts : List (Bytes × Json) → List Bytes
  | [] => []
  | (k, v) :: ms => (quote k ++ 0x3A :: 0x20 :: text v) :: memberTexts ms

end

/-- Bytes a value's text may start with. -/
def isStart (b : UInt8) : Bool :=
  isDigit b || b = 0x2D || b = 0x22 || b = 0x5B || b = 0x7B || b = 0x6E || b = 0x74 || b = 0x66

private theorem text_start_of_numberKind {t : Bytes} {k : NumberKind}
    (h : numberKind t = some k) : ∃ b r, t = b :: r ∧ isStart b = true := by
  obtain ⟨d, r, hd, -, rfl | rfl⟩ := numberKind_shape h
  · exact ⟨d, r, rfl, by simp [isStart, hd]⟩
  · exact ⟨_, _, rfl, by decide⟩

/-- A value's text is never empty, and its first byte tells that a value starts. -/
theorem text_start (v : Json) : ∃ b r, text v = b :: r ∧ isStart b = true := by
  cases v with
  | null => exact ⟨_, _, rfl, by decide⟩
  | bool b => cases b <;> exact ⟨_, _, rfl, by decide⟩
  | integer n => exact text_start_of_numberKind (numberKind_intText n.toInt)
  | real x => exact text_start_of_numberKind x.property
  | string s => exact ⟨_, _, rfl, by decide⟩
  | array xs => exact ⟨_, _, by rw [text], by decide⟩
  | object ms => exact ⟨_, _, by rw [text], by decide⟩

private theorem zero_not_mem_of_numberKind {t : Bytes} {k : NumberKind}
    (h : numberKind t = some k) : 0 ∉ t := fun hz ↦
  absurd (isNumberByte_of_mem h 0 hz) (by decide)

/-- Hexadecimal digits are printable ASCII. -/
theorem hexDigit_range {n : UInt8} (h : n < 16) : 0x30 ≤ hexDigit n ∧ hexDigit n < 0x80 := by
  have hlt : n.toNat < 16 := UInt8.lt_iff_toNat_lt.mp h
  unfold hexDigit
  split
  · simp only [UInt8.le_iff_toNat_le, UInt8.lt_iff_toNat_lt, UInt8.toNat_add, UInt8.reduceToNat]
    omega
  · simp only [UInt8.le_iff_toNat_le, UInt8.lt_iff_toNat_lt, UInt8.toNat_add, UInt8.reduceToNat]
    omega

/-- Both halves of a control character are digits. -/
theorem nibbles_lt {b : UInt8} (h : b < 0x20) : b / 16 < 16 ∧ b % 16 < 16 := by
  have hlt : b.toNat < 32 := UInt8.lt_iff_toNat_lt.mp h
  simp only [UInt8.lt_iff_toNat_lt, UInt8.toNat_div, UInt8.toNat_mod, UInt8.reduceToNat]
  omega

private theorem zero_not_mem_escapeByte (b : UInt8) : 0 ∉ escapeByte b := by
  have hx : ∀ n : UInt8, n < 16 → hexDigit n ≠ 0 := by
    intro n hn hz
    have hle := (hexDigit_range hn).1
    rw [hz] at hle
    exact absurd hle (by decide)
  have hd : b < 0x20 → b / 16 < 16 ∧ b % 16 < 16 := nibbles_lt
  unfold escapeByte
  grind

/-- Quoted text holds no NUL, whatever the string. -/
theorem zero_not_mem_quote (s : Bytes) : 0 ∉ quote s := by
  simp only [quote, escape, List.mem_cons, List.mem_append, List.mem_flatMap]
  rintro (h | ⟨b, -, hb⟩ | h | h)
  · exact absurd h (by decide)
  · exact zero_not_mem_escapeByte b hb
  · exact absurd h (by decide)
  · exact absurd h (by simp)

private theorem zero_not_mem_intercalate {ts : List Bytes} (h : ∀ t ∈ ts, 0 ∉ t) :
    0 ∉ separator.intercalate ts := by
  induction ts with
  | nil => simp
  | cons t ts ih =>
    cases ts with
    | nil => simpa using h t
    | cons u ts =>
      rw [List.intercalate_cons_cons, List.mem_append, List.mem_append]
      rintro ((ht | hs) | hr)
      · exact h t (by simp) ht
      · exact absurd hs (by decide)
      · exact ih (fun t ht ↦ h t (List.mem_cons_of_mem _ ht)) hr

/-- Serialised text is a C string: it holds no NUL. -/
theorem zero_not_mem_text (v : Json) : 0 ∉ text v := by
  induction v using ind with
  | null => decide
  | bool b => cases b <;> decide
  | integer n => exact zero_not_mem_of_numberKind (numberKind_intText n.toInt)
  | real x => exact zero_not_mem_of_numberKind x.property
  | string s => exact zero_not_mem_quote s
  | array xs ih =>
    have hts : ∀ t ∈ texts xs, 0 ∉ t := by
      induction xs with
      | nil => simp [texts]
      | cons x xs ihx =>
        rw [texts]
        exact List.forall_mem_cons.mpr
          ⟨ih x (by simp), ihx fun y hy ↦ ih y (List.mem_cons_of_mem _ hy)⟩
    simp [text, zero_not_mem_intercalate hts]
  | object ms ih =>
    have hts : ∀ t ∈ memberTexts ms, 0 ∉ t := by
      induction ms with
      | nil => simp [memberTexts]
      | cons m ms ihm =>
        obtain ⟨k, v⟩ := m
        rw [memberTexts]
        refine List.forall_mem_cons.mpr ⟨?_, ihm fun y hy ↦ ih y (List.mem_cons_of_mem _ hy)⟩
        have hv : 0 ∉ text v := ih (k, v) (by simp)
        simp [zero_not_mem_quote, hv]
    simp [text, zero_not_mem_intercalate hts]

/-! ### Text without its first and last byte -/

/-- Upper-case letters other than `E`: no number, literal, array or object has one right
behind the first byte of its text. -/
def isNameStart (b : UInt8) : Bool := 0x41 ≤ b && b ≤ 0x5A && b ≠ 0x45

/-- Names that the stripped text of a value equals only if the value is that string. -/
def isName : Bytes → Bool
  | [] => false
  | b :: t => isNameStart b && (b :: t).all isPlain

/-- `substr(1, size() - 2)` of a value's text. -/
def stripped (v : Json) : Option Bytes := substr (text v) 1 (sizeSub (text v).length 2)

/-- Stripping a string's text leaves its escaped content. -/
theorem stripped_string (s : Bytes) : stripped (.string s) = some (escape s) := by
  rw [stripped, text, quote, substr_inner]

private theorem isNameStart_of_isNumberByte {b : UInt8} (h : isNumberByte b = true) :
    isNameStart b = false := by
  unfold isNumberByte isDigit at h
  unfold isNameStart
  grind

private theorem isNameStart_of_isStart {b : UInt8} (h : isStart b = true) :
    isNameStart b = false := by
  unfold isStart isDigit at h
  unfold isNameStart
  grind

private theorem second_of_numberKind {a b : UInt8} {r : Bytes} {k : NumberKind}
    (h : numberKind (a :: b :: r) = some k) : isNameStart b = false :=
  isNameStart_of_isNumberByte (isNumberByte_of_mem h b (by simp))

/-- Behind the first byte of a text that is no string, no name starts. -/
theorem isNameStart_second {v : Json} (hv : ∀ s, v ≠ .string s) {a b : UInt8} {r : Bytes}
    (h : text v = a :: b :: r) : isNameStart b = false := by
  cases v with
  | null =>
    obtain ⟨-, h⟩ := List.cons.inj h
    obtain ⟨rfl, -⟩ := List.cons.inj h
    decide
  | bool c =>
    cases c <;>
    · obtain ⟨-, h⟩ := List.cons.inj h
      obtain ⟨rfl, -⟩ := List.cons.inj h
      decide
  | integer n =>
    have hk := numberKind_intText n.toInt
    rw [text] at h
    rw [h] at hk
    exact second_of_numberKind hk
  | real x =>
    have hk := x.property
    rw [text] at h
    rw [h] at hk
    exact second_of_numberKind hk
  | string s => exact absurd rfl (hv s)
  | array xs =>
    rw [text] at h
    obtain ⟨-, h⟩ := List.cons.inj h
    cases xs with
    | nil =>
      obtain ⟨rfl, -⟩ := List.cons.inj h
      decide
    | cons x xs =>
      obtain ⟨c, t, ht, hc⟩ := text_start x
      have hb : c = b := by
        cases xs with
        | nil => simp only [texts, List.intercalate_singleton, ht] at h; exact (List.cons.inj h).1
        | cons y xs =>
          simp only [texts, List.intercalate_cons_cons, ht] at h
          exact (List.cons.inj h).1
      exact hb ▸ isNameStart_of_isStart hc
  | object ms =>
    rw [text] at h
    obtain ⟨-, h⟩ := List.cons.inj h
    cases ms with
    | nil =>
      obtain ⟨rfl, -⟩ := List.cons.inj h
      decide
    | cons m ms =>
      obtain ⟨k, v⟩ := m
      have hb : 0x22 = b := by
        cases ms with
        | nil =>
          simp only [memberTexts, quote, List.intercalate_singleton] at h
          exact (List.cons.inj h).1
        | cons m ms =>
          obtain ⟨k', v'⟩ := m
          simp only [memberTexts, List.intercalate_cons_cons, quote] at h
          exact (List.cons.inj h).1
      exact hb ▸ by decide

/-- Comparing stripped text with a name is comparing the decoded string with it. -/
theorem stripped_eq_name_iff {v : Json} {e : Bytes} (he : isName e = true) :
    stripped v = some e ↔ v = .string e := by
  cases e with
  | nil => exact absurd he (by simp [isName])
  | cons b t =>
    rw [isName, Bool.and_eq_true] at he
    obtain ⟨hb, hp⟩ := he
    by_cases hv : ∃ s, v = .string s
    · obtain ⟨s, rfl⟩ := hv
      rw [stripped_string, Option.some.injEq, escape_eq_plain_iff hp, Json.string.injEq]
    · have hs : ∀ s, v ≠ .string s := fun s hs ↦ hv ⟨s, hs⟩
      refine ⟨fun h ↦ ?_, fun h ↦ absurd h (hs _)⟩
      obtain ⟨a, r, ht, -⟩ := text_start v
      rw [stripped, ht, substr, if_pos (by simp), Option.some.injEq] at h
      cases r with
      | nil => exact absurd h (by simp)
      | cons c r =>
        have hc : c = b := by
          rw [List.drop_succ_cons, List.drop_zero] at h
          cases hn : sizeSub (a :: c :: r).length 2 with
          | zero => rw [hn] at h; exact absurd h (by simp)
          | succ n => rw [hn, List.take_succ_cons] at h; exact (List.cons.inj h).1
        have := isNameStart_second hs ht
        rw [hc, hb] at this
        exact absurd this (by simp)

end Ubx.Json
