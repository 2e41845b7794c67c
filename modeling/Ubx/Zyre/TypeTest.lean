import Ubx.Json.Stripped
import Ubx.Zyre.Input

/-!
# The type test of the actor on other lists

`input_type_list` is fixed for now and meant to come from the configuration. The test
prints the type, takes the first and the last byte off to "get rid of \" characters", and
compares what is left with each entry. For which entries this is a comparison of strings.
-/

namespace Ubx.Zyre

open Ubx.Base Ubx.Json

section

variable (J : Jansson)

/-- The test of an entry against the value of the `type` member;
`zyre_bridge.cpp:420–427`. -/
def accepts (v : Json) (entry : Bytes) : Bool :=
  let type := cString (J.dumps v)
  match substr type 1 (sizeSub type.length 2) with
  | none => false
  | some type => strCompare entry type = 0

/-- For this value the test finds the entries that the value is, and no others. -/
def ExactOn (types : List Bytes) (v : Json) : Prop :=
  ∀ e ∈ types, accepts J v e = true ↔ v = .string e

variable {J} {inf : ZyreBridgeInfo}

/-- The test compares the entry with the stripped text. -/
theorem accepts_iff (hJ : J.Documented) {v : Json} (hv : v.WF J.printed) (e : Bytes) :
    accepts J v e = true ↔ Json.stripped v = some e := by
  rw [accepts, hJ.cString_dumps hv, hJ.dumps_eq v hv, Json.stripped]
  cases substr v.text 1 (sizeSub v.text.length 2) with
  | none => simp
  | some t => rw [decide_eq_true_iff, strCompare_eq_zero_iff, Option.some.injEq, eq_comm]

/-- The actor writes the payload once for each entry that passes. -/
theorem shoutBranch_accepts (hJ : J.Documented) {message : Bytes} {m v p : Json}
    (hm : J.loads message = some m) (hv : m.objectGet (ofString "type") = some v)
    (hp : m.objectGet (ofString "payload") = some p) (zyreIn : List PortWrite) :
    shoutBranch J inf (some message) zyreIn =
      .ok (zyreIn ++
        List.replicate (inf.inputTypeList.countP (accepts J v)) (payloadWrite J p)) := by
  have hwf : v.WF J.printed := (hJ.loads_wf _ _ hm).1.objectGet hv
  obtain ⟨t, ht⟩ := stripped_isSome v
  have hcount : inf.inputTypeList.countP (accepts J v) = inf.inputTypeList.count t := by
    rw [List.count]
    apply List.countP_congr
    intro e _
    rw [accepts_iff hJ hwf, ht, Option.some.injEq, beq_iff_eq, eq_comm]
  have hload : J.jsonLoads (some message) = some m := hm
  rw [shoutBranch_eq hJ hload ⟨v, hv, ht⟩, hp, hcount]

/-- One entry and one value. -/
theorem accepts_exact_iff (hJ : J.Documented) {v : Json} (hv : v.WF J.printed) {e : Bytes}
    (he : e ≠ []) : (accepts J v e = true ↔ v = .string e) ↔ ¬ Misleads v e := by
  rw [accepts_iff hJ hv, stripped_exact_iff he]

/-- The fixed list has unmistakable entries only. -/
theorem inputTypeList_unmistakable {e : Bytes} (he : e ∈ inputTypeList) :
    Unmistakable J.printed e :=
  unmistakable_of_isName (isName_of_mem_inputTypeList he)

end

/-- For one type the test is exact on a list if that type misleads about no entry; for all
types it is exact if every entry is unmistakable. -/
theorem type_test_exact_iff {J : Jansson} (hJ : J.Documented) {types : List Bytes}
    (hne : ∀ e ∈ types, e ≠ []) :
    (∀ v, v.WF J.printed → (ExactOn J types v ↔ ∀ e ∈ types, ¬ Misleads v e)) ∧
      ((∀ v, v.WF J.printed → ExactOn J types v) ↔ ∀ e ∈ types, Unmistakable J.printed e) := by
  have hval (v : Json) (hv : v.WF J.printed) :
      ExactOn J types v ↔ ∀ e ∈ types, ¬ Misleads v e := by
    apply forall₂_congr
    intro e hmem
    exact accepts_exact_iff hJ hv (hne e hmem)
  refine ⟨hval, ?_⟩
  constructor
  · intro h e hmem
    exact (forall_not_misleads_iff e).mp fun v hv ↦ (hval v hv).mp (h v hv) e hmem
  · intro h v hv
    exact (hval v hv).mpr fun e hmem ↦ (forall_not_misleads_iff e).mpr (h e hmem) v hv

/-- A literal passes for a string, and a string with a quotation mark does not pass for
itself. -/
theorem type_test_not_exact :
    accepts .reference .null (ofString "ul") = true ∧
      accepts .reference (.string (ofString "a\"b")) (ofString "a\"b") = false ∧
      ¬ ExactOn .reference [ofString "ul", ofString "a\"b"] .null ∧
      ¬ ExactOn .reference [ofString "ul", ofString "a\"b"] (.string (ofString "a\"b")) := by
  have hnull : accepts .reference .null (ofString "ul") = true := by rfl
  have hquote : accepts .reference (.string (ofString "a\"b")) (ofString "a\"b") = false := by rfl
  refine ⟨hnull, hquote, fun h ↦ ?_, fun h ↦ ?_⟩
  · exact absurd ((h _ (by simp)).mp hnull) (by simp)
  · exact absurd ((h _ (by simp)).mpr rfl) (by simp [hquote])

/-- The equivalence for a list of two names. -/
theorem type_test_exact_iff_names :
    (∀ v, v.WF Json.anyLexeme → ExactOn .reference [ofString "ul", ofString "RSGQuery"] v) ↔
      ∀ e ∈ [ofString "ul", ofString "RSGQuery"], Unmistakable Json.anyLexeme e :=
  (type_test_exact_iff Jansson.reference_documented (by decide)).2

end Ubx.Zyre
