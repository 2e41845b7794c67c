import Ubx.Json.Text

/-!
# A JSON parser

A recursive-descent parser over bytes, on fuel. The last of two members with one key
wins, in the place of the first. Strings must be valid UTF-8 and may not hold a NUL, and
only an array or an object is a document.
-/

namespace Ubx.Json

open Ubx.Base

/-- Skip spaces, tabs, line feeds and carriage returns. -/
def skipWs : Bytes → Bytes :=
  List.dropWhile fun b ↦ b = 0x20 || b = 0x09 || b = 0x0A || b = 0x0D

/-! ### Strings -/

/-- The value of a hexadecimal digit. -/
def hexValue (b : UInt8) : Option Nat :=
  if isDigit b then some (b.toNat - 0x30)
  else if 0x41 ≤ b && b ≤ 0x46 then some (b.toNat - 0x37)
  else if 0x61 ≤ b && b ≤ 0x66 then some (b.toNat - 0x57)
  else none

/-- Four hexadecimal digits. -/
def hex4 (a b c d : UInt8) : Option Nat := do
  return 4096 * (← hexValue a) + 256 * (← hexValue b) + 16 * (← hexValue c) + (← hexValue d)

/-- The UTF-8 bytes of a code point. -/
def utf8Encode (n : Nat) : Bytes := String.utf8EncodeChar (Char.ofNat n)

/-- The byte a single-character escape stands for. -/
def unescapeByte (b : UInt8) : Option UInt8 :=
  if b = 0x22 then some 0x22
  else if b = 0x5C then some 0x5C
  else if b = 0x2F then some 0x2F
  else if b = 0x62 then some 0x08
  else if b = 0x66 then some 0x0C
  else if b = 0x6E then some 0x0A
  else if b = 0x72 then some 0x0D
  else if b = 0x74 then some 0x09
  else none

/-- Put decoded bytes in front of the rest of a string. -/
def prepend (t : Bytes) : Option (Bytes × Bytes) → Option (Bytes × Bytes) :=
  Option.map fun p ↦ (t ++ p.1, p.2)

/-- The content of a string behind its opening quote, and the input behind the closing one. -/
def parseChars : Bytes → Option (Bytes × Bytes)
  | [] => none
  | c :: r =>
    if c = 0x22 then some ([], r)
    else if c < 0x20 then none
    else if c ≠ 0x5C then prepend [c] (parseChars r)
    else match r with
      | [] => none
      | e :: r =>
        if e ≠ 0x75 then
          match unescapeByte e with
          | none => none
          | some b => prepend [b] (parseChars r)
        else match r with
          | h₁ :: h₂ :: h₃ :: h₄ :: r =>
            match hex4 h₁ h₂ h₃ h₄ with
            | none => none
            | some n =>
              if n < 0xD800 ∨ 0xDFFF < n then prepend (utf8Encode n) (parseChars r)
              else match r with
                -- a high surrogate is followed by the escape of a low one
                | 0x5C :: 0x75 :: l₁ :: l₂ :: l₃ :: l₄ :: r =>
                  match hex4 l₁ l₂ l₃ l₄ with
                  | none => none
                  | some m =>
                    if n ≤ 0xDBFF ∧ 0xDC00 ≤ m ∧ m ≤ 0xDFFF then
                      prepend (utf8Encode (0x10000 + 1024 * (n - 0xD800) + (m - 0xDC00)))
                        (parseChars r)
                    else none
                | _ => none
          | _ => none

/-- A string behind its opening quote. -/
def parseString (t : Bytes) : Option (Bytes × Bytes) :=
  (parseChars t).filter fun p ↦ ValidString p.1

/-! ### Numbers and literals -/

/-- The value of an integer lexeme. -/
def lexemeValue (t : Bytes) : Int :=
  if t.head? = some 0x2D then -(digitsValue (unsignedLexeme t)) else digitsValue (unsignedLexeme t)

/-- A number lexeme: an integer must fit 64 bits. -/
def ofLexeme (t : Bytes) : Option Json :=
  if h : numberKind t = some .real then some (.real ⟨t, h⟩)
  else if numberKind t = some .integer ∧ -2 ^ 63 ≤ lexemeValue t ∧ lexemeValue t < 2 ^ 63 then
    some (.integer (Int64.ofInt (lexemeValue t)))
  else none

/-- A number at the head of the input. -/
def parseNumber (t : Bytes) : Option (Json × Bytes) :=
  (ofLexeme (t.takeWhile isNumberByte)).map fun v ↦ (v, t.dropWhile isNumberByte)

/-- The input behind a literal. -/
def stripPrefix : Bytes → Bytes → Option Bytes
  | [], t => some t
  | _ :: _, [] => none
  | b :: w, c :: t => if b = c then stripPrefix w t else none

/-- A value that is neither a string nor a container. -/
def parseScalar (t : Bytes) : Option (Json × Bytes) :=
  match stripPrefix (ofString "null") t, stripPrefix (ofString "true") t,
    stripPrefix (ofString "false") t with
  | some r, _, _ => some (.null, r)
  | _, some r, _ => some (.bool true, r)
  | _, _, some r => some (.bool false, r)
  | none, none, none => parseNumber t

/-! ### Values -/

mutual

/-- A value at the head of the input. -/
def parseValue : Nat → Bytes → Option (Json × Bytes)
  | 0, _ => none
  | n + 1, t =>
    match skipWs t with
    | [] => none
    | c :: r =>
      if c = 0x22 then (parseString r).map fun p ↦ (.string p.1, p.2)
      else if c = 0x5B then
        if (skipWs r).head? = some 0x5D then some (.array [], (skipWs r).tail)
        else (parseItems n r).map fun p ↦ (.array p.1, p.2)
      else if c = 0x7B then
        if (skipWs r).head? = some 0x7D then some (.object [], (skipWs r).tail)
        else (parseMembers n [] r).map fun p ↦ (.object p.1, p.2)
      else parseScalar (c :: r)

/-- The items of a non-empty array and its closing bracket. -/
def parseItems : Nat → Bytes → Option (List Json × Bytes)
  | 0, _ => none
  | n + 1, t =>
    match parseValue n t with
    | none => none
    | some (v, r) =>
      match skipWs r with
      | [] => none
      | c :: r =>
        if c = 0x2C then (parseItems n r).map fun p ↦ (v :: p.1, p.2)
        else if c = 0x5D then some ([v], r) else none

/-- The members of a non-empty object and its closing brace, added to `acc`. -/
def parseMembers : Nat → List (Bytes × Json) → Bytes → Option (List (Bytes × Json) × Bytes)
  | 0, _, _ => none
  | n + 1, acc, t =>
    match skipWs t with
    | [] => none
    | c :: r =>
      if c ≠ 0x22 then none else
      match parseString r with
      | none => none
      | some (k, r) =>
        match skipWs r with
        | [] => none
        | c :: r =>
          if c ≠ 0x3A then none else
          match parseValue n r with
          | none => none
          | some (v, r) =>
            match skipWs r with
            | [] => none
            | c :: r =>
              if c = 0x2C then parseMembers n (insert k v acc) r
              else if c = 0x7D then some (insert k v acc, r) else none

end

/-- Only arrays and objects are documents. -/
def isDocument (v : Json) : Bool := v.isArray || v.isObject

/-- Parse a whole text. -/
def parse (t : Bytes) : Option Json :=
  match parseValue (2 * t.length) t with
  | none => none
  | some (v, r) => if isDocument v ∧ skipWs r = [] then some v else none

/-- Blanks, escapes and a repeated key. -/
example : parse (ofString " \x7b\"a\": [1, -2.5e3 ,\"\\u0041\\n\"],\"b\":null, \"a\":true\x7d") =
    some (.object [(ofString "a", .bool true), (ofString "b", .null)]) := by rfl

end Ubx.Json
