import Ubx.Json.RoundTrip

/-!
# The jansson interface

The bridges reach JSON text through `json_loads` with flags 0 and `json_dumps` with
`JSON_ENCODE_ANY`. Both are parameters; what the library documents of them is stated in two
structures of laws, met by the printer and parser of this development: what is printed and
what kind of value is decoded, and, where it is used, that printed text is decoded again.
-/

namespace Ubx

open Ubx.Base Ubx.Json

/-- The two text functions of the library. A `char *` is the C string it points to. -/
structure Jansson where
  /-- `json_loads(text, 0, &error)`; `none` is NULL. -/
  loads : Bytes → Option Json
  /-- `json_dumps(value, JSON_ENCODE_ANY)` for a value that is not NULL. -/
  dumps : Json → Bytes
  /-- The lexemes that `json_dumps` writes for finite doubles. -/
  printed : RealLexeme → Prop
  /-- `JSON_PARSER_MAX_DEPTH`: how many levels `json_loads` reads, in versions with a limit. -/
  maxDepth : Option Nat

namespace Jansson

/-- `json_loads` of a pointer: NULL gives NULL. -/
def jsonLoads (J : Jansson) (text : Option Bytes) : Option Json := text.bind J.loads

/-- `json_dumps` of a pointer: NULL gives NULL. -/
def jsonDumps (J : Jansson) (value : Option Json) : Option Bytes := value.map J.dumps

/-- The value is nested no deeper than `json_loads` reads. -/
def Nests (J : Jansson) (v : Json) : Prop := ∀ n ∈ J.maxDepth, v.nesting ≤ n

instance (J : Jansson) (v : Json) : Decidable (J.Nests v) :=
  inferInstanceAs (Decidable (∀ n ∈ J.maxDepth, v.nesting ≤ n))

/-- The documented behaviour that the bridges rely on. -/
structure Documented (J : Jansson) : Prop where
  /-- Values are printed in the compact single-line form. -/
  dumps_eq : ∀ v, v.WF J.printed → J.dumps v = v.text
  /-- Without further flags only a well-formed array or object is decoded. -/
  loads_wf : ∀ t v, J.loads t = some v → v.WF J.printed ∧ v.isDocument = true

/-- What is documented of decoding, up to the limit. -/
structure RoundTrips (J : Jansson) : Prop extends J.Documented where
  /-- The limit is 2048 in the versions that have one. -/
  maxDepth_ge : ∀ n ∈ J.maxDepth, 2048 ≤ n
  /-- Nothing is decoded that is nested deeper. -/
  loads_nests : ∀ t v, J.loads t = some v → J.Nests v
  /-- A printed document is decoded to itself, unless it is nested too deep. -/
  loads_dumps : ∀ v, v.WF J.printed → v.isDocument = true →
    J.loads (J.dumps v) = if J.Nests v then some v else none

/-- The printer and the parser of this development, with a limit or without. -/
def withLimit (maxDepth : Option Nat) : Jansson where
  loads t :=
    match maxDepth with
    | none => Json.parse t
    | some n => (Json.parse t).filter (·.nesting ≤ n)
  dumps := Json.text
  printed := Json.anyLexeme
  maxDepth := maxDepth

/-- What is read with a limit is what is read without one and not nested too deep. -/
theorem loads_withLimit (maxDepth : Option Nat) (t : Bytes) :
    (withLimit maxDepth).loads t = (Json.parse t).filter ((withLimit maxDepth).Nests ·) := by
  cases maxDepth with
  | none => cases h : Json.parse t <;> simp [withLimit, Nests, h, Option.filter]
  | some n => simp [withLimit, Nests]

/-- Both behave as documented. -/
theorem withLimit_roundTrips {maxDepth : Option Nat} (h : ∀ n ∈ maxDepth, 2048 ≤ n) :
    (withLimit maxDepth).RoundTrips where
  dumps_eq _ _ := rfl
  loads_wf t v hv := by
    rw [loads_withLimit, Option.filter_eq_some_iff] at hv
    exact Json.wf_of_parse hv.1
  maxDepth_ge := h
  loads_nests t v hv := by
    rw [loads_withLimit, Option.filter_eq_some_iff] at hv
    exact of_decide_eq_true hv.2
  loads_dumps v hv hd := by
    have hparse : Json.parse ((withLimit maxDepth).dumps v) = some v := Json.parse_text hv hd
    rw [loads_withLimit, hparse, Option.filter_some]
    simp only [decide_eq_true_eq]

/-- The printer and the parser of this development. -/
def reference : Jansson := withLimit none

/-- The reference pair behaves as documented. -/
theorem reference_roundTrips : reference.RoundTrips := withLimit_roundTrips (by simp)

/-- So it prints and decodes what is documented. -/
theorem reference_documented : reference.Documented := reference_roundTrips.toDocumented

/-- Without `JSON_DECODE_ANY` the text of a value that is no array or object is not decoded. -/
def RejectsScalars (J : Jansson) : Prop :=
  ∀ v, v.WF J.printed → v.isDocument = false → J.loads (J.dumps v) = none

/-- The reference parser rejects them. -/
theorem reference_rejectsScalars : reference.RejectsScalars := fun _ ↦ Json.parse_text_scalar

variable {J : Jansson}

/-- Printed text is a C string, so `strlen` counts all of it. -/
theorem Documented.cString_dumps (h : J.Documented) {v : Json} (hv : v.WF J.printed) :
    cString (J.dumps v) = J.dumps v := by
  rw [h.dumps_eq v hv]
  exact cString_eq_self (Json.zero_not_mem_text v)

/-- `text` is what `json_dumps` prints for the document `v`, which can be read back. -/
structure TextOf (J : Jansson) (text : Bytes) (v : Json) : Prop where
  wf : v.WF J.printed
  isDocument : v.isDocument = true
  text_eq : text = J.dumps v
  loads_eq : J.Nests v → J.loads text = some v

/-- A member of a value that can be read back can be read back. -/
theorem Nests.objectGet {v w : Json} {key : Bytes} (h : J.Nests v)
    (hw : v.objectGet key = some w) : J.Nests w :=
  fun n hn ↦ Nat.le_trans (Nat.le_of_lt (Json.nesting_objectGet_lt hw)) (h n hn)

/-- Where decoding inverts printing every document has a text. -/
theorem RoundTrips.textOf (h : J.RoundTrips) {v : Json} (hv : v.WF J.printed)
    (hd : v.isDocument = true) : J.TextOf (J.dumps v) v where
  wf := hv
  isDocument := hd
  text_eq := rfl
  loads_eq hn := by rw [h.loads_dumps v hv hd, if_pos hn]

/-- No text is one of two documents. -/
theorem TextOf.unique (hJ : J.Documented) {text : Bytes} {v w : Json} (hv : J.TextOf text v)
    (hw : J.TextOf text w) : v = w := by
  have htext : v.text = w.text := by
    rw [← hJ.dumps_eq v hv.wf, ← hJ.dumps_eq w hw.wf, ← hv.text_eq, hw.text_eq]
  have hparse := Json.parse_text hv.wf hv.isDocument
  rw [htext, Json.parse_text hw.wf hw.isDocument] at hparse
  exact (Option.some.inj hparse).symm

end Jansson
end Ubx
