import Ubx.Json.Text

/-!
# Which text hides a string

Comparing the text of a value without its first and last byte with an entry stands in for
comparing decoded strings. What it takes for the two to agree, value by value and for all
values at once.
-/

namespace Ubx.Json

open Ubx.Base

/-- The text of `v` without its first and last byte misleads about the entry `e`: it is `e`
though `v` is not the string `e`, or the other way round. -/
def Misleads : Json → Bytes → Prop
  | .null, e => e = ofString "ul"
  | .bool true, e => e = ofString "ru"
  | .bool false, e => e = ofString "als"
  | .integer n, e => ∃ a b, intText n.toInt = a :: (e ++ [b])
  | .real x, e => ∃ a b, x.val = a :: (e ++ [b])
  -- an entry with an escaped byte is missed, and its escaped form is taken for it
  | .string s, e => if s = e then e.all isPlain = false else escape s = e
  | .array xs, e => separator.intercalate (texts xs) = e
  | .object ms, e => separator.intercalate (memberTexts ms) = e

/-- An entry that no value misleads about: a valid string is printed as it is, and no other
value has the entry between the first and the last byte of its text. -/
structure Unmistakable (printed : RealLexeme → Prop) (e : Bytes) : Prop where
  plain : ValidString e → e.all isPlain = true
  literal : e ∉ [ofString "ul", ofString "ru", ofString "als"]
  integer : ∀ (n : Int64) a b, intText n.toInt ≠ a :: (e ++ [b])
  real : ∀ x : RealLexeme, printed x → ∀ a b, x.val ≠ a :: (e ++ [b])
  array : ∀ xs, (Json.array xs).WF printed → separator.intercalate (texts xs) ≠ e
  object : ∀ ms, (Json.object ms).WF printed → separator.intercalate (memberTexts ms) ≠ e

/-! ### Escaping -/

/-- Escapes are ASCII. -/
theorem escapeByte_ascii {b c : UInt8} (hb : b < 0x80) (hc : c ∈ escapeByte b) : c < 0x80 := by
  have hx : ∀ n : UInt8, n < 16 → hexDigit n < 0x80 := fun n hn ↦ (hexDigit_range hn).2
  have hd : b < 0x20 → b / 16 < 16 ∧ b % 16 < 16 := nibbles_lt
  unfold escapeByte at hc
  split_ifs at hc <;>
    simp only [List.mem_cons, List.not_mem_nil, or_false] at hc <;>
    grind

/-- An escape is longer than the byte it stands for. -/
theorem two_le_length_escapeByte {b : UInt8} (h : isPlain b = false) :
    2 ≤ (escapeByte b).length := by
  unfold isPlain at h
  unfold escapeByte
  grind

/-- Only plain strings are their own escaped form. -/
theorem escape_eq_self_iff {s : Bytes} : escape s = s ↔ s.all isPlain = true := by
  have hle (t : Bytes) : t.length ≤ (escape t).length := by
    induction t with
    | nil => simp
    | cons b t ih =>
      rw [escape, List.flatMap_cons, ← escape, List.length_append, List.length_cons]
      obtain ⟨-, hb⟩ | ⟨hp, -⟩ := escapeByte_cases b
      · rw [hb, List.length_singleton]
        omega
      · have := two_le_length_escapeByte hp
        omega
  refine ⟨fun h ↦ ?_, escape_plain⟩
  induction s with
  | nil => rfl
  | cons b s ih =>
    rw [escape, List.flatMap_cons, ← escape] at h
    obtain ⟨hp, hb⟩ | ⟨hp, -⟩ := escapeByte_cases b
    · rw [hb, List.singleton_append, List.cons.injEq] at h
      rw [List.all_cons, hp, ih h.2]
      rfl
    · have hlen := congrArg List.length h
      rw [List.length_append, List.length_cons] at hlen
      have := two_le_length_escapeByte hp
      have := hle s
      omega

/-- The escaped form of a valid string is one as well. -/
theorem validString_escape {s : Bytes} (h : ValidString s) : ValidString (escape s) := by
  refine ⟨fun hz ↦ zero_not_mem_quote s ?_, utf8Valid_flatMap (fun b hb c hc ↦ ?_) ?_ h.2⟩
  · simp [quote, hz]
  · exact escapeByte_ascii hb hc
  · intro b hb
    obtain ⟨-, he⟩ | ⟨hp, -⟩ := escapeByte_cases b
    · exact he
    · have hge : 0x20 ≤ b := UInt8.le_trans (by decide) (UInt8.not_lt.mp hb)
      have hquote : b ≠ 0x22 := by
        rintro rfl
        exact hb (by decide)
      have hslash : b ≠ 0x5C := by
        rintro rfl
        exact hb (by decide)
      simp [isPlain, hge, hquote, hslash] at hp

/-! ### Stripping -/

private theorem inner_eq_iff {x y : UInt8} {t e : Bytes} :
    (∃ a b, x :: (t ++ [y]) = a :: (e ++ [b])) ↔ t = e := by
  constructor
  · rintro ⟨a, b, h⟩
    exact (List.append_inj' (List.cons.inj h).2 rfl).1
  · rintro rfl
    exact ⟨x, y, rfl⟩

/-- What is left without the first and the last byte, unless it is nothing. -/
theorem stripped_eq_some_iff {v : Json} {e : Bytes} (he : e ≠ []) :
    stripped v = some e ↔ ∃ a b, text v = a :: (e ++ [b]) := by
  obtain ⟨a, r, ht, -⟩ := text_start v
  rw [stripped, ht]
  rcases List.eq_nil_or_concat r with rfl | ⟨r, b, rfl⟩
  · simp [substr, he.symm]
  · rw [List.concat_eq_append, substr_inner, Option.some.injEq, inner_eq_iff]

/-- Stripping misleads exactly where the definition says so. -/
theorem stripped_exact_iff {v : Json} {e : Bytes} (he : e ≠ []) :
    (stripped v = some e ↔ v = .string e) ↔ ¬ Misleads v e := by
  have hnull : ofString "null" = 0x6E :: (ofString "ul" ++ [0x6C]) := by decide
  have htrue : ofString "true" = 0x74 :: (ofString "ru" ++ [0x65]) := by decide
  have hfalse : ofString "false" = 0x66 :: (ofString "als" ++ [0x65]) := by decide
  cases v with
  | string s =>
    rw [stripped_string, Option.some.injEq, Json.string.injEq, Misleads]
    by_cases h : s = e
    · subst h
      simp [escape_eq_self_iff]
    · simp [h]
  | null => rw [stripped_eq_some_iff he, text, hnull, inner_eq_iff]; simp [Misleads, eq_comm]
  | bool c =>
    cases c
    · rw [stripped_eq_some_iff he, text, hfalse, inner_eq_iff]; simp [Misleads, eq_comm]
    · rw [stripped_eq_some_iff he, text, htrue, inner_eq_iff]; simp [Misleads, eq_comm]
  | integer n => rw [stripped_eq_some_iff he, text]; simp [Misleads]
  | real x => rw [stripped_eq_some_iff he, text]; simp [Misleads]
  | array xs => rw [stripped_eq_some_iff he, text, inner_eq_iff]; simp [Misleads]
  | object ms => rw [stripped_eq_some_iff he, text, inner_eq_iff]; simp [Misleads]

/-- No well-formed value misleads about an entry exactly when it is unmistakable. -/
theorem forall_not_misleads_iff {printed : RealLexeme → Prop} (e : Bytes) :
    (∀ v, v.WF printed → ¬ Misleads v e) ↔ Unmistakable printed e := by
  constructor
  · intro h
    constructor
    · intro hv
      simpa [Misleads] using h (.string e) (.string hv)
    · have hn := h .null .null
      have ht := h (.bool true) (.bool true)
      have hf := h (.bool false) (.bool false)
      simp only [Misleads] at hn ht hf
      simp [hn, ht, hf]
    · exact fun n a b hab ↦ h (.integer n) (.integer n) ⟨a, b, hab⟩
    · exact fun x hx a b hab ↦ h (.real x) (.real hx) ⟨a, b, hab⟩
    · exact fun xs hxs he ↦ h (.array xs) hxs he
    · exact fun ms hms he ↦ h (.object ms) hms he
  · intro h v hv
    have hlit := h.literal
    simp only [List.mem_cons, not_or] at hlit
    cases v with
    | null => exact hlit.1
    | bool c =>
      cases c
      · exact hlit.2.2.1
      · exact hlit.2.1
    | integer n => exact fun ⟨a, b, hab⟩ ↦ h.integer n a b hab
    | real x =>
      cases hv with
      | real hx => exact fun ⟨a, b, hab⟩ ↦ h.real x hx a b hab
    | string s =>
      cases hv with
      | string hs =>
        rw [Misleads]
        split
        · next he =>
          subst he
          simp [h.plain hs]
        · next hne =>
          intro he
          have hplain := h.plain (he ▸ validString_escape hs)
          exact hne ((escape_eq_plain_iff hplain).mp he)
    | array xs => exact h.array xs hv
    | object ms => exact h.object ms hv

/-- Names are unmistakable. -/
theorem unmistakable_of_isName {printed : RealLexeme → Prop} {e : Bytes} (h : isName e = true) :
    Unmistakable printed e := by
  have hne : e ≠ [] := by
    rintro rfl
    exact absurd h (by decide)
  exact (forall_not_misleads_iff e).mp fun v _ ↦
    (stripped_exact_iff hne).mp (stripped_eq_name_iff h)

end Ubx.Json
