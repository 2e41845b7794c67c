import Ubx.Base.Bytes
import Mathlib.Data.List.Nodup

/-!
# JSON values

Values of the JSON data model as a C library hands them out: strings are byte strings,
integers are 64 bits wide, an object keeps its members in insertion order. A real is
named by the lexeme the printer writes for it, so no floating point is computed.
-/

namespace Ubx.Json

open Ubx.Base

private def isCont (b : UInt8) : Bool := 0x80 ≤ b && b ≤ 0xBF

/-- Well-formed UTF-8: no overlong form, no surrogate, nothing above U+10FFFF. -/
def utf8Valid : Bytes → Bool
  | [] => true
  | a :: r =>
    if a < 0x80 then utf8Valid r else
    match r with
    | [] => false
    | b :: r =>
      if 0xC2 ≤ a && a ≤ 0xDF then isCont b && utf8Valid r else
      match r with
      | [] => false
      | c :: r =>
        if 0xE0 ≤ a && a ≤ 0xEF then
          isCont b && isCont c && (a ≠ 0xE0 || 0xA0 ≤ b) && (a ≠ 0xED || b ≤ 0x9F) &&
            utf8Valid r
        else
        match r with
        | [] => false
        | d :: r =>
          0xF0 ≤ a && a ≤ 0xF4 && isCont b && isCont c && isCont d &&
            (a ≠ 0xF0 || 0x90 ≤ b) && (a ≠ 0xF4 || b ≤ 0x8F) && utf8Valid r

private theorem not_lt_of_isCont {b : UInt8} (h : isCont b = true) : ¬ b < 0x80 := by
  simp only [isCont, Bool.and_eq_true, decide_eq_true_eq] at h
  exact UInt8.not_lt.mpr h.1

/-- ASCII bytes in front do not matter. -/
theorem utf8Valid_append {t : Bytes} (ht : ∀ b ∈ t, b < 0x80) (r : Bytes) :
    utf8Valid (t ++ r) = utf8Valid r := by
  induction t with
  | nil => rfl
  | cons b t ih =>
    rw [List.forall_mem_cons] at ht
    rw [← ih ht.2, List.cons_append, utf8Valid.eq_def]
    simp only [ht.1, ↓reduceIte]

/-- Writing ASCII for ASCII keeps a string valid. -/
theorem utf8Valid_flatMap {f : UInt8 → Bytes} (hascii : ∀ b < 0x80, ∀ c ∈ f b, c < 0x80)
    (hrest : ∀ b, ¬ b < 0x80 → f b = [b]) {s : Bytes} (h : utf8Valid s = true) :
    utf8Valid (s.flatMap f) = true := by
  fun_induction utf8Valid s with
  | case1 => rfl
  | case2 a r ha ih =>
    rw [List.flatMap_cons, utf8Valid_append (hascii a ha)]
    exact ih h
  | case3 | case5 | case7 => exact absurd h (by simp)
  | case4 a ha b r hr ih =>
    simp only [Bool.and_eq_true] at h
    have hb := not_lt_of_isCont h.1
    simp only [List.flatMap_cons, hrest a ha, hrest b hb, List.singleton_append]
    rw [utf8Valid.eq_def]
    simp only [ha, hr, ↓reduceIte, Bool.and_eq_true]
    exact ⟨h.1, ih h.2⟩
  | case6 a ha b hr c r hr' ih =>
    simp only [Bool.and_eq_true] at h
    have hb := not_lt_of_isCont h.1.1.1.1
    have hc := not_lt_of_isCont h.1.1.1.2
    simp only [List.flatMap_cons, hrest a ha, hrest b hb, hrest c hc, List.singleton_append]
    rw [utf8Valid.eq_def]
    simp only [ha, hr, hr', ↓reduceIte, Bool.false_eq_true, Bool.and_eq_true]
    exact ⟨h.1, ih h.2⟩
  | case8 a ha b hr c hr' d r ih =>
    simp only [Bool.and_eq_true] at h
    have hb := not_lt_of_isCont h.1.1.1.1.1.2
    have hc := not_lt_of_isCont h.1.1.1.1.2
    have hd := not_lt_of_isCont h.1.1.1.2
    simp only [List.flatMap_cons, hrest a ha, hrest b hb, hrest c hc, hrest d hd,
      List.singleton_append]
    rw [utf8Valid.eq_def]
    simp only [ha, hr, hr', ↓reduceIte, Bool.false_eq_true, Bool.and_eq_true]
    exact ⟨h.1, ih h.2⟩

/-- Decimal digits `0` to `9`. -/
def isDigit (b : UInt8) : Bool := 0x30 ≤ b && b ≤ 0x39

/-- Bytes that occur in number lexemes: digits, `+`, `-`, `.`, `e` and `E`. -/
def isNumberByte (b : UInt8) : Bool :=
  isDigit b || b = 0x2B || b = 0x2D || b = 0x2E || b = 0x65 || b = 0x45

/-- What a number lexeme denotes. -/
inductive NumberKind
  | integer
  | real
  deriving DecidableEq

/-- One digit or more. -/
def isDigits (t : Bytes) : Bool := t ≠ [] && t.all isDigit

/-- `e` or `E`, an optional sign, digits. -/
def isExponent : Bytes → Bool
  | e :: s :: r =>
    (e = 0x65 || e = 0x45) && (isDigits (s :: r) || ((s = 0x2B || s = 0x2D) && isDigits r))
  | _ => false

/-- What makes a lexeme a real: a fraction, an exponent or both. -/
def isFraction : Bytes → Bool
  | [] => false
  | c :: r =>
    if c = 0x2E then
      isDigits (r.takeWhile isDigit) &&
        (r.dropWhile isDigit = [] || isExponent (r.dropWhile isDigit))
    else isExponent (c :: r)

/-- The number after its sign. -/
def unsignedLexeme : Bytes → Bytes
  | [] => []
  | c :: r => if c = 0x2D then r else c :: r

/-- Classify a number lexeme: optional minus, digits without a leading zero, and for a
real a fraction, an exponent or both. -/
def numberKind (t : Bytes) : Option NumberKind :=
  let body := unsignedLexeme t
  let ds := body.takeWhile isDigit
  let rest := body.dropWhile isDigit
  if ds = [] ∨ (ds.head? = some 0x30 ∧ ds ≠ [0x30]) then none
  else if rest = [] then some .integer
  else if isFraction rest then some .real else none

/-- A finite double, named by the lexeme the printer writes for it. -/
def RealLexeme := { t : Bytes // numberKind t = some .real }

end Ubx.Json

namespace Ubx

open Ubx.Base Ubx.Json

/-- A decoded JSON value. -/
inductive Json
  | null
  | bool (b : Bool)
  | integer (n : Int64)
  | real (x : RealLexeme)
  | string (s : Bytes)
  | array (xs : List Json)
  | object (ms : List (Bytes × Json))

namespace Json

/-- Induction over a value with its items and member values. -/
@[elab_as_elim] theorem ind {P : Json → Prop} (null : P .null) (bool : ∀ b, P (.bool b))
    (integer : ∀ n, P (.integer n)) (real : ∀ x, P (.real x)) (string : ∀ s, P (.string s))
    (array : ∀ xs, (∀ x ∈ xs, P x) → P (.array xs))
    (object : ∀ ms, (∀ m ∈ ms, P m.2) → P (.object ms)) : ∀ v, P v
  | .null => null
  | .bool b => bool b
  | .integer n => integer n
  | .real x => real x
  | .string s => string s
  | .array xs => array xs fun x _ ↦ ind null bool integer real string array object x
  | .object ms => object ms fun m _ ↦ ind null bool integer real string array object m.2
termination_by v => sizeOf v
decreasing_by
  · next h =>
    have := List.sizeOf_lt_of_mem h
    simp only [Json.array.sizeOf_spec]
    omega
  · next h =>
    have := List.sizeOf_lt_of_mem h
    have : sizeOf m = 1 + sizeOf m.1 + sizeOf m.2 := rfl
    simp only [Json.object.sizeOf_spec]
    omega

mutual

/-- Levels of values one in the other, as the decoder counts them: a scalar is one. -/
def nesting : Json → Nat
  | .array xs => nestingItems xs + 1
  | .object ms => nestingMembers ms + 1
  | _ => 1

/-- The deepest of some items. -/
def nestingItems : List Json → Nat
  | [] => 0
  | x :: xs => max (nesting x) (nestingItems xs)

/-- The deepest of some members. -/
def nestingMembers : List (Bytes × Json) → Nat
  | [] => 0
  | (_, v) :: ms => max (nesting v) (nestingMembers ms)

end

/-- A member lies no deeper than the deepest. -/
theorem nesting_le_nestingMembers {m : Bytes × Json} {ms : List (Bytes × Json)} (h : m ∈ ms) :
    m.2.nesting ≤ nestingMembers ms := by
  induction ms with
  | nil => exact absurd h List.not_mem_nil
  | cons a ms ih =>
    rw [nestingMembers]
    rcases List.mem_cons.mp h with rfl | h
    · exact Nat.le_max_left _ _
    · exact Nat.le_trans (ih h) (Nat.le_max_right _ _)

/-- `json_is_array`. -/
def isArray : Json → Bool
  | .array _ => true
  | _ => false

/-- `json_is_object`. -/
def isObject : Json → Bool
  | .object _ => true
  | _ => false

/-- The value under `key` in a member list. -/
def lookup (key : Bytes) : List (Bytes × Json) → Option Json
  | [] => none
  | (k, v) :: ms => if k = key then some v else lookup key ms

/-- Replace the value under `key` in place, or append a new member. -/
def insert (key : Bytes) (value : Json) : List (Bytes × Json) → List (Bytes × Json)
  | [] => [(key, value)]
  | (k, v) :: ms => if k = key then (k, value) :: ms else (k, v) :: insert key value ms

/-- `json_object_get`: NULL for an absent key or a value that is no object. -/
def objectGet : Json → Bytes → Option Json
  | .object ms, key => lookup key ms
  | _, _ => none

/-- `json_object_set`: no effect on a value that is no object. -/
def objectSet : Json → Bytes → Json → Json
  | .object ms, key, value => .object (insert key value ms)
  | v, _, _ => v

/-- `json_string_value`: NULL unless the value is a string. -/
def stringValue : Json → Option Bytes
  | .string s => some s
  | _ => none

/-- Only objects have members. -/
theorem objectGet_eq_some {v w : Json} {key : Bytes} (h : v.objectGet key = some w) :
    ∃ ms, v = .object ms ∧ lookup key ms = some w := by
  cases v with
  | object ms => exact ⟨ms, rfl, h⟩
  | _ => simp [objectGet] at h

/-- A found value is one of the members. -/
theorem mem_of_lookup {key : Bytes} {ms : List (Bytes × Json)} {v : Json}
    (h : lookup key ms = some v) : (key, v) ∈ ms := by
  induction ms with
  | nil => simp [lookup] at h
  | cons m ms ih =>
    obtain ⟨k, w⟩ := m
    simp only [lookup] at h
    split at h
    · next hk => simp_all
    · exact List.mem_cons_of_mem _ (ih h)

/-- The value of a member is less deep than the object. -/
theorem nesting_objectGet_lt {v w : Json} {key : Bytes} (h : v.objectGet key = some w) :
    w.nesting < v.nesting := by
  obtain ⟨ms, rfl, hl⟩ := objectGet_eq_some h
  have hle := nesting_le_nestingMembers (mem_of_lookup hl)
  rw [nesting]
  exact Nat.lt_succ_of_le hle

/-- A key that is not there yet is appended. -/
theorem insert_fresh {key : Bytes} {value : Json} {ms : List (Bytes × Json)}
    (h : key ∉ ms.map Prod.fst) : insert key value ms = ms ++ [(key, value)] := by
  induction ms with
  | nil => rfl
  | cons m ms ih =>
    obtain ⟨k, w⟩ := m
    simp only [List.map_cons, List.mem_cons, not_or] at h
    simp only [insert, if_neg (Ne.symm h.1), List.cons_append, ih h.2]

/-- Writing a member adds its key at most once. -/
theorem keys_insert (key : Bytes) (value : Json) (ms : List (Bytes × Json)) :
    (insert key value ms).map Prod.fst =
      if key ∈ ms.map Prod.fst then ms.map Prod.fst else ms.map Prod.fst ++ [key] := by
  induction ms with
  | nil => rfl
  | cons m ms ih =>
    obtain ⟨k, w⟩ := m
    simp only [insert]
    split
    · next h => simp [h]
    · next h =>
      simp only [List.map_cons, ih, List.mem_cons, Ne.symm h, false_or]
      split <;> rfl

/-- A key that is not among the members has no value. -/
theorem lookup_eq_none {key : Bytes} {ms : List (Bytes × Json)} (h : key ∉ ms.map Prod.fst) :
    lookup key ms = none := by
  induction ms with
  | nil => rfl
  | cons m ms ih =>
    obtain ⟨k, v⟩ := m
    rw [List.map_cons, List.mem_cons, not_or] at h
    rw [lookup, if_neg (Ne.symm h.1), ih h.2]

/-- After a write a key has the value written for it, or its value from before. -/
theorem lookup_insert (k key : Bytes) (value : Json) (ms : List (Bytes × Json)) :
    lookup k (insert key value ms) = if key = k then some value else lookup k ms := by
  induction ms with
  | nil => rfl
  | cons m ms ih =>
    obtain ⟨k', v⟩ := m
    rw [insert]
    by_cases hk : k' = key
    · subst hk
      rw [if_pos rfl, lookup, lookup]
      split
      · rfl
      · rfl
    · rw [if_neg hk, lookup, lookup, ih]
      by_cases h : k' = k
      · subst h
        rw [if_pos rfl, if_pos rfl, if_neg (Ne.symm hk)]
      · rw [if_neg h, if_neg h]

/-- Write members one after the other, as `json_object_foreach` with `json_object_set`. -/
def merge (ms : List (Bytes × Json)) : List (Bytes × Json) → List (Bytes × Json)
  | [] => ms
  | (k, v) :: ps => merge (insert k v ms) ps

/-- Of two members with one key the one that is merged over the other stays. -/
theorem lookup_merge (key : Bytes) {ps : List (Bytes × Json)} (hn : (ps.map Prod.fst).Nodup)
    (ms : List (Bytes × Json)) : lookup key (merge ms ps) = (lookup key ps).or (lookup key ms) := by
  induction ps generalizing ms with
  | nil => rfl
  | cons p ps ih =>
    obtain ⟨k, v⟩ := p
    rw [List.map_cons, List.nodup_cons] at hn
    rw [merge, ih hn.2, lookup_insert, lookup]
    by_cases h : k = key
    · subst h
      rw [if_pos rfl, if_pos rfl, lookup_eq_none hn.1]
      rfl
    · rw [if_neg h, if_neg h]

/-- The members after a write are the written one and members from before. -/
theorem mem_insert {key : Bytes} {value : Json} {ms : List (Bytes × Json)} {m : Bytes × Json}
    (h : m ∈ insert key value ms) : m = (key, value) ∨ m ∈ ms := by
  induction ms with
  | nil => simpa [insert] using h
  | cons a ms ih =>
    obtain ⟨k, w⟩ := a
    simp only [insert] at h
    split at h
    · next hk => grind
    · grind

/-- A string a decoder may hand out: valid UTF-8 without an embedded NUL. -/
def ValidString (s : Bytes) : Prop := 0 ∉ s ∧ utf8Valid s = true

instance (s : Bytes) : Decidable (ValidString s) := inferInstanceAs (Decidable (_ ∧ _))

/-- A value a decoder may hand out: valid strings, no key twice in an object, and for
reals lexemes that are printed for some double. -/
inductive WF (printed : RealLexeme → Prop) : Json → Prop
  | null : WF printed .null
  | bool (b : Bool) : WF printed (.bool b)
  | integer (n : Int64) : WF printed (.integer n)
  | real {x : RealLexeme} : printed x → WF printed (.real x)
  | string {s : Bytes} : ValidString s → WF printed (.string s)
  | array {xs : List Json} : (∀ x ∈ xs, WF printed x) → WF printed (.array xs)
  | object {ms : List (Bytes × Json)} : (ms.map Prod.fst).Nodup →
      (∀ m ∈ ms, ValidString m.1) → (∀ m ∈ ms, WF printed m.2) → WF printed (.object ms)

variable {printed : RealLexeme → Prop}

/-- Members of a well-formed object are well-formed. -/
theorem WF.objectGet {v w : Json} {key : Bytes} (h : WF printed v)
    (hw : v.objectGet key = some w) : WF printed w := by
  obtain ⟨ms, rfl, hl⟩ := objectGet_eq_some hw
  cases h with
  | object _ _ hm => exact hm _ (mem_of_lookup hl)

/-- An object is well-formed with valid keys, none of them twice, and well-formed values. -/
theorem WF.of_keys {ms : List (Bytes × Json)}
    (hk : (ms.map Prod.fst).Nodup ∧ ∀ k ∈ ms.map Prod.fst, ValidString k)
    (hv : ∀ v ∈ ms.map Prod.snd, WF printed v) : WF printed (.object ms) := by
  apply WF.object hk.1
  · intro m hm
    exact hk.2 m.1 (List.mem_map_of_mem hm)
  · intro m hm
    exact hv m.2 (List.mem_map_of_mem hm)

/-- Setting a member of a well-formed object keeps it well-formed. -/
theorem WF.objectSet {v w : Json} {key : Bytes} (hv : WF printed v) (hk : ValidString key)
    (hw : WF printed w) : WF printed (v.objectSet key w) := by
  cases hv with
  | object hn hs hm =>
    refine .object ?_ (fun m hmem ↦ ?_) fun m hmem ↦ ?_
    · rw [keys_insert]
      split
      · exact hn
      · next hf => exact List.nodup_append.mpr ⟨hn, by simp, by grind⟩
    · obtain rfl | ho := mem_insert hmem
      · exact hk
      · exact hs m ho
    · obtain rfl | ho := mem_insert hmem
      · exact hw
      · exact hm m ho
  | null => exact .null
  | bool b => exact .bool b
  | integer n => exact .integer n
  | real hx => exact .real hx
  | string hs => exact .string hs
  | array hx => exact .array hx

/-- Merging members into a well-formed object keeps it well-formed. -/
theorem WF.merge {ms ps : List (Bytes × Json)} (h : WF printed (.object ms))
    (hk : ∀ p ∈ ps, ValidString p.1) (hv : ∀ p ∈ ps, WF printed p.2) :
    WF printed (.object (merge ms ps)) := by
  induction ps generalizing ms with
  | nil => exact h
  | cons p ps ih =>
    rw [List.forall_mem_cons] at hk hv
    exact ih (h.objectSet hk.1 hv.1) hk.2 hv.2

/-- The empty object. -/
theorem WF.empty : WF printed (.object []) := .object (by simp) (by simp) (by simp)

end Json
end Ubx
