import Ubx.Json.Parse

/-!
# Printing and parsing are inverse

The parser accepts every printed document and returns the printed value; whatever it
accepts is a well-formed document.
-/

namespace Ubx.Json

open Ubx.Base

/-! ### Strings -/

private theorem hexValue_hexDigit {n : UInt8} (h : n < 16) :
    hexValue (hexDigit n) = some n.toNat := by
  have hlt : n.toNat < 16 := UInt8.lt_iff_toNat_lt.mp h
  have hall : ∀ k < 16, hexValue (hexDigit (UInt8.ofNat k)) = some k := by decide
  simpa using hall n.toNat hlt

private theorem hex4_control {b : UInt8} (h : b < 0x20) :
    hex4 0x30 0x30 (hexDigit (b / 16)) (hexDigit (b % 16)) = some b.toNat := by
  have hlt : b.toNat < 32 := UInt8.lt_iff_toNat_lt.mp h
  obtain ⟨hd, hm⟩ := nibbles_lt h
  have hz : hexValue 0x30 = some 0 := rfl
  simp only [hex4, hz, hexValue_hexDigit hd, hexValue_hexDigit hm, UInt8.toNat_div,
    UInt8.toNat_mod, UInt8.reduceToNat, Option.bind_eq_bind, Option.bind_some, Option.pure_def,
    Option.some.injEq]
  omega

private theorem utf8Encode_control {b : UInt8} (h : b < 0x20) : utf8Encode b.toNat = [b] := by
  have hlt : b.toNat < 32 := UInt8.lt_iff_toNat_lt.mp h
  have hall : ∀ k < 32, utf8Encode k = [UInt8.ofNat k] := by decide
  simpa using hall b.toNat hlt

private theorem parseChars_plain {b : UInt8} (h22 : ¬b = 0x22) (h20 : ¬b < 0x20) (h5c : b ≠ 0x5C)
    (r : Bytes) : parseChars (b :: r) = prepend [b] (parseChars r) := by
  rw [parseChars.eq_def]
  simp only [if_neg h22, if_neg h20, if_pos h5c]

private theorem parseChars_short {e b : UInt8} (he : e ≠ 0x75) (hb : unescapeByte e = some b)
    (r : Bytes) : parseChars (0x5C :: e :: r) = prepend [b] (parseChars r) := by
  have h1 : ¬(0x5C : UInt8) = 0x22 := by decide
  have h2 : ¬(0x5C : UInt8) < 0x20 := by decide
  rw [parseChars.eq_def]
  simp only [h1, h2, ↓reduceIte, ne_eq, not_true_eq_false, he, not_false_eq_true, hb]

private theorem parseChars_control {b : UInt8} (h : b < 0x20) (r : Bytes) :
    parseChars (0x5C :: 0x75 :: 0x30 :: 0x30 :: hexDigit (b / 16) :: hexDigit (b % 16) :: r) =
      prepend [b] (parseChars r) := by
  have hlt : b.toNat < 0xD800 := by
    have : b.toNat < 32 := UInt8.lt_iff_toNat_lt.mp h
    omega
  have h1 : ¬(0x5C : UInt8) = 0x22 := by decide
  have h2 : ¬(0x5C : UInt8) < 0x20 := by decide
  rw [parseChars.eq_def]
  simp only [h1, h2, ↓reduceIte, ne_eq, not_true_eq_false, hex4_control h, hlt, true_or,
    utf8Encode_control h]

private theorem parseChars_escapeByte (b : UInt8) (r : Bytes) :
    parseChars (escapeByte b ++ r) = prepend [b] (parseChars r) := by
  unfold escapeByte
  split
  · next h => subst h; exact parseChars_short (by decide) rfl r
  split
  · next h => subst h; exact parseChars_short (by decide) rfl r
  split
  · next h => subst h; exact parseChars_short (by decide) rfl r
  split
  · next h => subst h; exact parseChars_short (by decide) rfl r
  split
  · next h => subst h; exact parseChars_short (by decide) rfl r
  split
  · next h => subst h; exact parseChars_short (by decide) rfl r
  split
  · next h => subst h; exact parseChars_short (by decide) rfl r
  split
  · next h => exact parseChars_control h r
  · next h22 h5c _ _ _ _ _ h20 => exact parseChars_plain h22 h20 h5c r

/-- Unescaping reads back an escaped string. -/
theorem parseChars_escape (s r : Bytes) : parseChars (escape s ++ 0x22 :: r) = some (s, r) := by
  induction s with
  | nil =>
    rw [escape, List.flatMap_nil, List.nil_append, parseChars.eq_def]
    rfl
  | cons b s ih =>
    rw [escape, List.flatMap_cons, List.append_assoc, parseChars_escapeByte, ← escape, ih]
    rfl

/-- A quoted valid string is read back. -/
theorem parseString_escape {s : Bytes} (h : ValidString s) (r : Bytes) :
    parseString (escape s ++ 0x22 :: r) = some (s, r) := by
  rw [parseString, parseChars_escape]
  simp [h]

/-! ### Numbers -/

/-- Input that does not go on with a number. -/
def NumberEnds (r : Bytes) : Prop := ∀ b ∈ r.head?, isNumberByte b = false

private theorem takeWhile_lexeme {t r : Bytes} (ht : ∀ b ∈ t, isNumberByte b = true)
    (hr : NumberEnds r) :
    (t ++ r).takeWhile isNumberByte = t ∧ (t ++ r).dropWhile isNumberByte = r := by
  rw [List.takeWhile_append_of_pos ht, List.dropWhile_append_of_pos ht]
  cases r with
  | nil => simp
  | cons b r =>
    have hb := hr b rfl
    simp [hb]

private theorem lexemeValue_intText (i : Int) : lexemeValue (intText i) = i := by
  unfold intText
  split
  · next h =>
    simp only [lexemeValue, List.head?_cons, ↓reduceIte, unsignedLexeme, digitsValue_natText]
    omega
  · next h =>
    obtain ⟨b, r, ht, hne⟩ := exists_natText i.natAbs
    have hv := digitsValue_natText i.natAbs
    rw [ht] at hv ⊢
    simp only [lexemeValue, List.head?_cons, Option.some.injEq, hne, ↓reduceIte, unsignedLexeme,
      hv]
    omega

private theorem ofLexeme_integer (n : Int64) : ofLexeme (intText n.toInt) = some (.integer n) := by
  have hk := numberKind_intText n.toInt
  simp only [ofLexeme, hk, Option.some.injEq, reduceCtorEq, ↓reduceDIte, lexemeValue_intText,
    true_and]
  rw [if_pos ⟨n.le_toInt, n.toInt_lt⟩, Int64.ofInt_toInt]

private theorem ofLexeme_real (x : RealLexeme) : ofLexeme x.val = some (.real x) := by
  rw [ofLexeme, dif_pos x.property]
  rfl

private theorem parseScalar_lexeme {t r : Bytes} {k : NumberKind} {v : Json}
    (hk : numberKind t = some k) (hr : NumberEnds r) (hv : ofLexeme t = some v) :
    parseScalar (t ++ r) = some (v, r) := by
  obtain ⟨ht, hd⟩ := takeWhile_lexeme (isNumberByte_of_mem hk) hr
  have hn : ∀ b w, isStart b = true → isNumberByte b = false →
      stripPrefix (b :: w) (t ++ r) = none := by
    intro b w _ hb
    obtain ⟨d, u, hdig, -, rfl | rfl⟩ := numberKind_shape hk
    · have : b ≠ d := by
        rintro rfl
        simp [isNumberByte, hdig] at hb
      simp [stripPrefix, this]
    · have : b ≠ 0x2D := by
        rintro rfl
        exact absurd hb (by decide)
      simp [stripPrefix, this]
  have h1 : stripPrefix (ofString "null") (t ++ r) = none := hn _ _ (by decide) (by decide)
  have h2 : stripPrefix (ofString "true") (t ++ r) = none := hn _ _ (by decide) (by decide)
  have h3 : stripPrefix (ofString "false") (t ++ r) = none := hn _ _ (by decide) (by decide)
  simp only [parseScalar, h1, h2, h3, parseNumber, ht, hd, hv, Option.map_some]

/-! ### Values -/

private theorem skipWs_space (t : Bytes) : skipWs (0x20 :: t) = skipWs t := rfl

private theorem skipWs_cons {b : UInt8} (h : isStart b = true) (r : Bytes) :
    skipWs (b :: r) = b :: r := by
  have hb : ¬(b = 0x20 ∨ b = 0x09 ∨ b = 0x0A ∨ b = 0x0D) := by
    rintro (rfl | rfl | rfl | rfl) <;> exact absurd h (by decide)
  unfold skipWs
  rw [List.dropWhile_cons_of_neg]
  simpa [or_assoc] using hb

private theorem parseValue_space (n : Nat) (t : Bytes) :
    parseValue n (0x20 :: t) = parseValue n t := by
  cases n with
  | zero => rfl
  | succ n => rw [parseValue, parseValue, skipWs_space]

private theorem parseItems_space (n : Nat) (t : Bytes) :
    parseItems n (0x20 :: t) = parseItems n t := by
  cases n with
  | zero => rfl
  | succ n => rw [parseItems, parseItems, parseValue_space]

private theorem parseMembers_space (n : Nat) (acc : List (Bytes × Json)) (t : Bytes) :
    parseMembers n acc (0x20 :: t) = parseMembers n acc t := by
  cases n with
  | zero => rfl
  | succ n => rw [parseMembers, parseMembers, skipWs_space]

/-- The parser reads `v` back from its text, whatever follows. -/
def ReadsBack (v : Json) : Prop :=
  ∀ n r, 2 * (text v).length ≤ n → NumberEnds r → parseValue n (text v ++ r) = some (v, r)

private theorem parseValue_scalar {b : UInt8} {t : Bytes} (n : Nat) (hs : isStart b = true)
    (hb : b ≠ 0x22 ∧ b ≠ 0x5B ∧ b ≠ 0x7B) :
    parseValue (n + 1) (b :: t) = parseScalar (b :: t) := by
  rw [parseValue, skipWs_cons hs]
  simp only [hb.1, hb.2.1, hb.2.2, ↓reduceIte]

private theorem fuel_succ {v : Json} {n : Nat} (h : 2 * (text v).length ≤ n) :
    ∃ m, n = m + 2 ∧ 2 * (text v).length ≤ m + 2 := by
  obtain ⟨b, r, ht, -⟩ := text_start v
  rw [ht, List.length_cons] at h ⊢
  exact ⟨n - 2, by omega, by omega⟩

private theorem readsBack_lexeme {v : Json} {k : NumberKind} (hk : numberKind (text v) = some k)
    (hv : ofLexeme (text v) = some v) : ReadsBack v := by
  intro n r hn hr
  obtain ⟨n, rfl, -⟩ := fuel_succ hn
  obtain ⟨d, u, hd, -, ht⟩ := numberKind_shape hk
  have hstart : ∃ b w, text v = b :: w ∧ isStart b = true ∧ b ≠ 0x22 ∧ b ≠ 0x5B ∧ b ≠ 0x7B := by
    obtain ht | ht := ht
    · refine ⟨d, u, ht, by simp [isStart, hd], ?_⟩
      refine ⟨?_, ?_, ?_⟩ <;>
      · rintro rfl
        exact absurd hd (by decide)
    · exact ⟨0x2D, d :: u, ht, by decide, by decide⟩
  obtain ⟨b, w, hb, hs, hne⟩ := hstart
  have hp := parseScalar_lexeme hk hr hv
  rw [hb] at hp ⊢
  rw [List.cons_append, parseValue_scalar _ hs hne, ← List.cons_append, hp]

private theorem readsBack_string {s : Bytes} (hs : ValidString s) : ReadsBack (.string s) := by
  intro n r hn _
  obtain ⟨n, rfl, -⟩ := fuel_succ hn
  rw [text, quote, List.cons_append, List.append_assoc, parseValue, skipWs_cons (by decide)]
  simp only [↓reduceIte, List.singleton_append, parseString_escape hs, Option.map_some]

private theorem parseItems_texts {x : Json} {xs : List Json} (h : ∀ y ∈ x :: xs, ReadsBack y) :
    ∀ n r, 2 * (separator.intercalate (texts (x :: xs))).length < n →
      parseItems n (separator.intercalate (texts (x :: xs)) ++ 0x5D :: r) =
        some (x :: xs, r) := by
  induction xs generalizing x with
  | nil =>
    intro n r hn
    simp only [texts, List.intercalate_singleton] at hn ⊢
    obtain ⟨n, rfl⟩ : ∃ m, n = m + 1 := ⟨n - 1, by omega⟩
    rw [parseItems, h x (by simp) n _ (by omega) (by simp [NumberEnds]; decide)]
    rfl
  | cons y ys ih =>
    intro n r hn
    have hlen : separator.length = 2 := rfl
    simp only [texts, List.intercalate_cons_cons, List.length_append] at hn
    obtain ⟨n, rfl⟩ : ∃ m, n = m + 1 := ⟨n - 1, by omega⟩
    have hrest := ih (fun z hz ↦ h z (List.mem_cons_of_mem _ hz)) n r (by
      simp only [texts]
      omega)
    simp only [texts] at hrest
    simp only [texts, List.intercalate_cons_cons, List.append_assoc]
    rw [parseItems, h x (by simp) n _ (by omega) (by simp [NumberEnds, separator]; decide)]
    have hsep : skipWs (separator ++ (separator.intercalate (text y :: texts ys) ++ 0x5D :: r)) =
        0x2C :: 0x20 :: (separator.intercalate (text y :: texts ys) ++ 0x5D :: r) := rfl
    simp only [hsep, ↓reduceIte, parseItems_space, hrest, Option.map_some]

private theorem parseMembers_step {k : Bytes} {v : Json} {acc : List (Bytes × Json)}
    (hk : ValidString k) (hv : ReadsBack v) (hf : k ∉ acc.map Prod.fst) {n : Nat} {c : UInt8}
    (r : Bytes) (hc : isNumberByte c = false) (hs : skipWs (c :: r) = c :: r)
    (hn : 2 * (text v).length ≤ n) :
    parseMembers (n + 1) acc (quote k ++ 0x3A :: 0x20 :: text v ++ c :: r) =
      if c = 0x2C then parseMembers n (acc ++ [(k, v)]) r
      else if c = 0x7D then some (acc ++ [(k, v)], r) else none := by
  have hq : skipWs (quote k ++ 0x3A :: 0x20 :: text v ++ c :: r) =
      0x22 :: (escape k ++ 0x22 :: 0x3A :: 0x20 :: (text v ++ c :: r)) := by
    simp only [quote, List.cons_append, List.append_assoc, List.nil_append]
    exact skipWs_cons (by decide) _
  have hcolon : skipWs (0x3A :: 0x20 :: (text v ++ c :: r)) =
      0x3A :: 0x20 :: (text v ++ c :: r) := rfl
  rw [parseMembers, hq]
  simp only [ne_eq, not_true_eq_false, ↓reduceIte, parseString_escape hk, hcolon,
    parseValue_space, hv n (c :: r) hn (by simpa [NumberEnds] using hc), insert_fresh hf, hs]

private theorem not_mem_keys {k : Bytes} {v : Json} {acc ms : List (Bytes × Json)}
    (hn : ((acc ++ (k, v) :: ms).map Prod.fst).Nodup) : k ∉ acc.map Prod.fst := by
  rw [List.map_append, List.nodup_append] at hn
  intro hmem
  exact hn.2.2 k hmem k (by simp) rfl

private theorem parseMembers_texts {k : Bytes} {v : Json} {ms acc : List (Bytes × Json)}
    (hk : ∀ p ∈ (k, v) :: ms, ValidString p.1) (h : ∀ p ∈ (k, v) :: ms, ReadsBack p.2)
    (hn : ((acc ++ (k, v) :: ms).map Prod.fst).Nodup) :
    ∀ n r, 2 * (separator.intercalate (memberTexts ((k, v) :: ms))).length < n →
      parseMembers n acc (separator.intercalate (memberTexts ((k, v) :: ms)) ++ 0x7D :: r) =
        some (acc ++ (k, v) :: ms, r) := by
  induction ms generalizing k v acc with
  | nil =>
    intro n r hl
    have hf := not_mem_keys hn
    have hv : ReadsBack v := h (k, v) (by simp)
    simp only [memberTexts, List.intercalate_singleton, List.length_append,
      List.length_cons] at hl ⊢
    obtain ⟨n, rfl⟩ : ∃ m, n = m + 1 := ⟨n - 1, by omega⟩
    rw [parseMembers_step (hk (k, v) (by simp)) hv hf r (by decide) rfl (by omega)]
    rfl
  | cons p ps ih =>
    intro n r hl
    obtain ⟨k', v'⟩ := p
    have hf := not_mem_keys hn
    have hv : ReadsBack v := h (k, v) (by simp)
    obtain ⟨u, us, hus⟩ : ∃ u us, memberTexts ((k', v') :: ps) = u :: us :=
      ⟨_, _, by rw [memberTexts]⟩
    have hlen : separator.length = 2 := rfl
    rw [memberTexts, hus] at hl ⊢
    simp only [List.intercalate_cons_cons, List.length_append, List.length_cons] at hl
    obtain ⟨n, rfl⟩ : ∃ m, n = m + 1 := ⟨n - 1, by omega⟩
    have hn' : ((acc ++ [(k, v)] ++ (k', v') :: ps).map Prod.fst).Nodup := by simpa using hn
    have hrest := ih (fun z hz ↦ hk z (List.mem_cons_of_mem _ hz))
      (fun z hz ↦ h z (List.mem_cons_of_mem _ hz)) hn' n r (by rw [hus]; omega)
    rw [hus] at hrest
    have hcat :
        separator.intercalate ((quote k ++ 0x3A :: 0x20 :: text v) :: u :: us) ++ 0x7D :: r =
        quote k ++ 0x3A :: 0x20 :: text v ++
          0x2C :: 0x20 :: (separator.intercalate (u :: us) ++ 0x7D :: r) := by
      simp [List.intercalate_cons_cons, separator]
    rw [hcat, parseMembers_step (hk (k, v) (by simp)) hv hf _ (by decide) rfl (by omega)]
    simp only [↓reduceIte, parseMembers_space, hrest, List.append_assoc,
      List.singleton_append]

private theorem readsBack_array {xs : List Json} (h : ∀ x ∈ xs, ReadsBack x) :
    ReadsBack (.array xs) := by
  intro n r hn _
  obtain ⟨n, rfl, hn⟩ := fuel_succ hn
  rw [text, List.cons_append, parseValue, skipWs_cons (by decide)]
  cases xs with
  | nil => rfl
  | cons x xs =>
    obtain ⟨b, t, ht, hb⟩ := text_start x
    have hhead : ∃ u, separator.intercalate (texts (x :: xs)) = b :: u := by
      cases xs with
      | nil => exact ⟨t, by simp only [texts, List.intercalate_singleton, ht]⟩
      | cons y xs => exact ⟨_, by simp only [texts, List.intercalate_cons_cons, ht]; rfl⟩
    obtain ⟨u, hu⟩ := hhead
    have hne : b ≠ 0x5D := by
      rintro rfl
      exact absurd hb (by decide)
    have hl : 2 * (separator.intercalate (texts (x :: xs))).length < n + 1 := by
      simp only [text, List.length_cons, List.length_append] at hn
      omega
    have hp := parseItems_texts h (n + 1) r hl
    rw [hu] at hp ⊢
    simp only [List.append_assoc, List.cons_append, List.nil_append] at hp ⊢
    have h1 : ¬(0x5B : UInt8) = 0x22 := by decide
    simp only [h1, ↓reduceIte, skipWs_cons hb, List.head?_cons, Option.some.injEq, hne, hp,
      Option.map_some]

private theorem readsBack_object {ms : List (Bytes × Json)} (hn : (ms.map Prod.fst).Nodup)
    (hk : ∀ m ∈ ms, ValidString m.1) (h : ∀ m ∈ ms, ReadsBack m.2) : ReadsBack (.object ms) := by
  intro n r hl _
  obtain ⟨n, rfl, hl⟩ := fuel_succ hl
  rw [text, List.cons_append, parseValue, skipWs_cons (by decide)]
  cases ms with
  | nil => rfl
  | cons m ms =>
    obtain ⟨k, v⟩ := m
    have hhead : ∃ u, separator.intercalate (memberTexts ((k, v) :: ms)) = 0x22 :: u := by
      rw [memberTexts]
      cases ms with
      | nil => exact ⟨_, by simp only [memberTexts, List.intercalate_singleton]; rfl⟩
      | cons p ms =>
        obtain ⟨k', v'⟩ := p
        exact ⟨_, by simp only [memberTexts, List.intercalate_cons_cons]; rfl⟩
    obtain ⟨u, hu⟩ := hhead
    have hl : 2 * (separator.intercalate (memberTexts ((k, v) :: ms))).length < n + 1 := by
      simp only [text, List.length_cons, List.length_append] at hl
      omega
    have hn' : (([] ++ (k, v) :: ms).map Prod.fst).Nodup := by simpa using hn
    have hp := parseMembers_texts hk h hn' (n + 1) r hl
    rw [hu] at hp ⊢
    simp only [List.append_assoc, List.cons_append, List.nil_append] at hp ⊢
    have h1 : ¬(0x7B : UInt8) = 0x22 := by decide
    have h2 : ¬(0x7B : UInt8) = 0x5B := by decide
    have h3 : ¬(0x22 : UInt8) = 0x7D := by decide
    simp only [h1, h2, h3, ↓reduceIte, skipWs_cons (b := 0x22) (by decide), List.head?_cons,
      Option.some.injEq, hp, Option.map_some]

/-- Every well-formed value is read back from its text. -/
theorem readsBack_of_wf {printed : RealLexeme → Prop} {v : Json} (h : WF printed v) :
    ReadsBack v := by
  induction h with
  | null =>
    intro n r hn _
    obtain ⟨n, rfl, -⟩ := fuel_succ hn
    rfl
  | bool b =>
    intro n r hn _
    obtain ⟨n, rfl, -⟩ := fuel_succ hn
    cases b <;> rfl
  | integer n => exact readsBack_lexeme (numberKind_intText n.toInt) (ofLexeme_integer n)
  | @real x _ => exact readsBack_lexeme x.property (ofLexeme_real x)
  | string hs => exact readsBack_string hs
  | array _ ih => exact readsBack_array ih
  | object hn hk _ ih => exact readsBack_object hn hk ih

/-- Parsing the text of a well-formed document gives the document. -/
theorem parse_text {printed : RealLexeme → Prop} {v : Json} (h : WF printed v)
    (hd : isDocument v = true) : parse (text v) = some v := by
  have hp := readsBack_of_wf h (2 * (text v).length) [] (Nat.le_refl _) (by simp [NumberEnds])
  rw [List.append_nil] at hp
  simp only [parse, hp, hd, true_and]
  rfl

/-- The text of any other value is no document. -/
theorem parse_text_scalar {printed : RealLexeme → Prop} {v : Json} (h : WF printed v)
    (hd : isDocument v = false) : parse (text v) = none := by
  have hp := readsBack_of_wf h (2 * (text v).length) [] (Nat.le_refl _) (by simp [NumberEnds])
  rw [List.append_nil] at hp
  simp only [parse, hp, hd, Bool.false_eq_true, false_and, ↓reduceIte]

/-! ### What the parser accepts is well-formed -/

/-- The parser keeps the lexeme of a real, whatever it is. -/
def anyLexeme (_ : RealLexeme) : Prop := True

private theorem validString_of_parseString {t s r : Bytes} (h : parseString t = some (s, r)) :
    ValidString s := by
  simpa using (Option.filter_eq_some_iff.mp h).2

private theorem wf_of_ofLexeme {t : Bytes} {v : Json} (h : ofLexeme t = some v) :
    WF anyLexeme v := by
  unfold ofLexeme at h
  split at h
  · obtain rfl := Option.some.inj h
    exact .real trivial
  · split at h
    · obtain rfl := Option.some.inj h
      exact .integer _
    · exact absurd h (by simp)

private theorem wf_of_parseScalar {t r : Bytes} {v : Json} (h : parseScalar t = some (v, r)) :
    WF anyLexeme v := by
  unfold parseScalar at h
  split at h
  · obtain ⟨rfl, -⟩ := Prod.mk.inj (Option.some.inj h)
    exact .null
  · obtain ⟨rfl, -⟩ := Prod.mk.inj (Option.some.inj h)
    exact .bool _
  · obtain ⟨rfl, -⟩ := Prod.mk.inj (Option.some.inj h)
    exact .bool _
  · obtain ⟨w, hw, he⟩ := Option.map_eq_some_iff.mp h
    obtain ⟨rfl, -⟩ := Prod.mk.inj he
    exact wf_of_ofLexeme hw

/-- With `n` units of fuel the three parsers only build well-formed values. -/
private structure Sound (n : Nat) : Prop where
  value : ∀ {t v r}, parseValue n t = some (v, r) → WF anyLexeme v
  items : ∀ {t xs r}, parseItems n t = some (xs, r) → ∀ x ∈ xs, WF anyLexeme x
  members : ∀ {acc t ms r}, WF anyLexeme (.object acc) → parseMembers n acc t = some (ms, r) →
    WF anyLexeme (.object ms)

private theorem Sound.value_succ {n : Nat} (h : Sound n) {t r : Bytes} {v : Json}
    (hp : parseValue (n + 1) t = some (v, r)) : WF anyLexeme v := by
  rw [parseValue] at hp
  split at hp
  · exact absurd hp (by simp)
  split at hp
  · obtain ⟨p, hs, he⟩ := Option.map_eq_some_iff.mp hp
    obtain ⟨rfl, -⟩ := Prod.mk.inj he
    exact .string (validString_of_parseString hs)
  split at hp
  · split at hp
    · obtain ⟨rfl, -⟩ := Prod.mk.inj (Option.some.inj hp)
      exact .array (by simp)
    · obtain ⟨p, hi, he⟩ := Option.map_eq_some_iff.mp hp
      obtain ⟨rfl, -⟩ := Prod.mk.inj he
      exact .array (h.items hi)
  split at hp
  · split at hp
    · obtain ⟨rfl, -⟩ := Prod.mk.inj (Option.some.inj hp)
      exact .empty
    · obtain ⟨p, hm, he⟩ := Option.map_eq_some_iff.mp hp
      obtain ⟨rfl, -⟩ := Prod.mk.inj he
      exact h.members .empty hm
  · exact wf_of_parseScalar hp

private theorem Sound.items_succ {n : Nat} (h : Sound n) {t r : Bytes} {xs : List Json}
    (hp : parseItems (n + 1) t = some (xs, r)) : ∀ x ∈ xs, WF anyLexeme x := by
  rw [parseItems] at hp
  split at hp
  · exact absurd hp (by simp)
  next v r' hv =>
  have hw := h.value hv
  split at hp
  · exact absurd hp (by simp)
  split at hp
  · obtain ⟨p, hi, he⟩ := Option.map_eq_some_iff.mp hp
    obtain ⟨rfl, -⟩ := Prod.mk.inj he
    exact List.forall_mem_cons.mpr ⟨hw, h.items hi⟩
  split at hp
  · obtain ⟨rfl, -⟩ := Prod.mk.inj (Option.some.inj hp)
    simpa using hw
  · exact absurd hp (by simp)

private theorem Sound.members_succ {n : Nat} (h : Sound n) {acc ms : List (Bytes × Json)}
    {t r : Bytes} (hacc : WF anyLexeme (.object acc))
    (hp : parseMembers (n + 1) acc t = some (ms, r)) :
    WF anyLexeme (.object ms) := by
  rw [parseMembers] at hp
  split at hp
  · exact absurd hp (by simp)
  split at hp
  · exact absurd hp (by simp)
  split at hp
  · exact absurd hp (by simp)
  next k r' hk =>
  split at hp
  · exact absurd hp (by simp)
  split at hp
  · exact absurd hp (by simp)
  split at hp
  · exact absurd hp (by simp)
  next v r'' hv =>
  have hset : WF anyLexeme (.object (insert k v acc)) :=
    hacc.objectSet (validString_of_parseString hk) (h.value hv)
  split at hp
  · exact absurd hp (by simp)
  split at hp
  · exact h.members hset hp
  split at hp
  · obtain ⟨rfl, -⟩ := Prod.mk.inj (Option.some.inj hp)
    exact hset
  · exact absurd hp (by simp)

private theorem sound (n : Nat) : Sound n := by
  induction n with
  | zero =>
    exact ⟨by simp [parseValue], by simp [parseItems], by simp [parseMembers]⟩
  | succ n ih => exact ⟨ih.value_succ, ih.items_succ, ih.members_succ⟩

/-- A parsed text is a well-formed document. -/
theorem wf_of_parse {t : Bytes} {v : Json} (h : parse t = some v) :
    WF anyLexeme v ∧ isDocument v = true := by
  unfold parse at h
  split at h
  · exact absurd h (by simp)
  · next w r hw =>
    split at h
    · next hd =>
      obtain rfl := Option.some.inj h
      exact ⟨(sound _).value hw, hd.1⟩
    · exact absurd h (by simp)

end Ubx.Json
