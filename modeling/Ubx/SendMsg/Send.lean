import Ubx.SendMsg.Receive
import Ubx.Zyre.Input

/-!
# The example component: what it sends

`send_query` and `send_update` of `src/zyre_bridge/test/test_send_msg.c:227–330`. Both write
an id into the payload, merge the caller's members over it and note the id in the query
list, so the two ids are the same as long as no member of the caller is in the way.
-/

namespace Ubx.SendMsg

open Ubx.Base Ubx.Zyre

/-- `json_string`: NULL for NULL and for text that is not valid UTF-8. -/
def jsonString (value : Option Bytes) : Option Json :=
  value.bind fun t ↦ if Json.utf8Valid (cString t) then some (.string (cString t)) else none

/-- `json_object_set`, which ignores a NULL value. -/
def jsonObjectSet (v : Json) (key : Bytes) (value : Option Json) : Json :=
  match value with
  | none => v
  | some w => v.objectSet key w

/-- `json_object_get` of a pointer. -/
def jsonObjectGet (v : Option Json) (key : Bytes) : Option Json := v.bind (·.objectGet key)

/-- `json_object_foreach` over the parameters; anything but an object has no members. -/
def setParams (pl : Json) : Option Json → Json
  | some (.object ps) =>
    match pl with
    | .object ms => .object (Json.merge ms ps)
    | pl => pl
  | _ => pl

section

variable (J : Jansson)

/-- The end of both functions: the envelope, and the entry of the query list;
`test_send_msg.c:252–274,307–329`. -/
def packQuery (self : Component) (uuid : Zuuid) (pl : Json) : Bytes × Component :=
  let env := Json.object []
  let env := jsonObjectSet env (ofString "metamodel") (jsonString (some (ofString "SHERPA")))
  let env := jsonObjectSet env (ofString "model") (jsonString (some (ofString "RSGQuery")))
  let env := jsonObjectSet env (ofString "type") (jsonString (some (ofString "RSGQuery")))
  let env := jsonObjectSet env (ofString "payload") (some pl)
  let msg : JsonMsg :=
    { metamodel := some (ofString "SHERPA")
      model := some (ofString "RSGQuery")
      type := some (ofString "RSGQuery")
      payload := some (J.dumps pl) }
  let q : Query := ⟨uuid, self.localNode.uuid, msg⟩
  (J.dumps env, { self with queryList := self.queryList ++ [q] })

/-- The payload of `send_query`; `test_send_msg.c:237–251`. -/
def queryPayload (queryType : Option Bytes) (queryParams : Option Json) (uuid : Zuuid) : Json :=
  let pl := Json.object []
  let pl := jsonObjectSet pl (ofString "@worldmodeltype") (jsonString (some (ofString "RSGQuery")))
  let pl := jsonObjectSet pl (ofString "query") (jsonString queryType)
  let pl := jsonObjectSet pl (ofString "queryId") (jsonString (some uuid.canonical))
  setParams pl queryParams

/-- `send_query`; `test_send_msg.c:227–275`. -/
def sendQuery (self : Component) (queryType : Option Bytes) (queryParams : Option Json)
    (uuid : Zuuid) : Option Bytes × Component :=
  let (ret, self) := packQuery J self uuid (queryPayload queryType queryParams uuid)
  (some ret, self)

/-- The payload of `send_update`; `test_send_msg.c:287–306`. -/
def updatePayload (operation : Option Bytes) (updateParams : Option Json) (uuid : Zuuid) : Json :=
  let pl := Json.object []
  let pl := jsonObjectSet pl (ofString "@worldmodeltype") (jsonString (some (ofString "RSGUpdate")))
  let pl := jsonObjectSet pl (ofString "operation") (jsonString operation)
  -- the operation once more, until the caller's node is written over it
  let pl := jsonObjectSet pl (ofString "node") (jsonString operation)
  let pl := jsonObjectSet pl (ofString "queryId") (jsonString (some uuid.canonical))
  setParams pl updateParams

/-- `send_update`; `test_send_msg.c:277–330`. -/
def sendUpdate (self : Component) (operation : Option Bytes) (updateParams : Option Json)
    (uuid : Zuuid) : Option Bytes × Component :=
  if jsonObjectGet updateParams (ofString "node") = none then (none, self)
  else
    let (ret, self) := packQuery J self uuid (updatePayload operation updateParams uuid)
    (some ret, self)

end

/-! ### Both functions at once -/

/-- A call of one of the two, with values of the library for parameters; `none` is NULL. -/
inductive SendCall (J : Jansson)
  | query (queryType : Option Bytes) (params : Option { v : Json // v.WF J.printed })
  | update (operation : Option Bytes) (params : Option { v : Json // v.WF J.printed })

namespace SendCall

variable {J : Jansson}

/-- The parameter object of a call. -/
def params : SendCall J → Option Json
  | .query _ ps | .update _ ps => ps.map Subtype.val

/-- The call itself. -/
def send (call : SendCall J) (self : Component) (uuid : Zuuid) : Option Bytes × Component :=
  match call with
  | .query queryType ps => sendQuery J self queryType (ps.map Subtype.val) uuid
  | .update operation ps => sendUpdate J self operation (ps.map Subtype.val) uuid

/-- The payload that the call builds, if it comes that far. -/
def payload (call : SendCall J) (uuid : Zuuid) : Json :=
  match call with
  | .query queryType ps => queryPayload queryType (ps.map Subtype.val) uuid
  | .update operation ps => updatePayload operation (ps.map Subtype.val) uuid

/-- The `@worldmodeltype` of the function. -/
def ownType : SendCall J → Bytes
  | .query _ _ => ofString "RSGQuery"
  | .update _ _ => ofString "RSGUpdate"

/-- The call is an update without a node, for which the function returns NULL. -/
def refused : SendCall J → Bool
  | .query _ _ => false
  | .update _ ps => (jsonObjectGet (ps.map Subtype.val) (ofString "node")).isNone

end SendCall

/-- The envelope around a payload. -/
def queryEnvelope (pl : Json) : Json :=
  .object [(ofString "metamodel", .string (ofString "SHERPA")),
    (ofString "model", .string (ofString "RSGQuery")),
    (ofString "type", .string (ofString "RSGQuery")), (ofString "payload", pl)]

section

variable {J : Jansson} {self : Component} {uuid : Zuuid} {call : SendCall J}

/-- A refused call changes nothing. -/
theorem send_of_refused (h : call.refused = true) (self : Component) (uuid : Zuuid) :
    call.send self uuid = (none, self) := by
  cases call with
  | query queryType ps => exact absurd h (by simp [SendCall.refused])
  | update operation ps => exact if_pos (Option.isNone_iff_eq_none.mp h)

/-- Any other call returns the envelope of its payload and appends one entry with the
UUID. -/
theorem send_of_not_refused (h : call.refused = false) (self : Component) (uuid : Zuuid) :
    call.send self uuid = (some (J.dumps (queryEnvelope (call.payload uuid))),
      { self with
        queryList := self.queryList ++ [⟨uuid, self.localNode.uuid,
          ⟨some (ofString "SHERPA"), some (ofString "RSGQuery"), some (ofString "RSGQuery"),
            some (J.dumps (call.payload uuid))⟩⟩] }) := by
  cases call with
  | query queryType ps => rfl
  | update operation ps =>
    have hn : ¬ jsonObjectGet (ps.map Subtype.val) (ofString "node") = none := by
      rw [← Option.isNone_iff_eq_none]
      exact ne_true_of_eq_false h
    exact if_neg hn

/-! ### The payload -/

/-- The parameters are well-formed. -/
theorem SendCall.wf_params {v : Json} (h : call.params = some v) : v.WF J.printed := by
  have hmap {ps : Option {p : Json // p.WF J.printed}} (hps : ps.map Subtype.val = some v) :
      v.WF J.printed := by
    obtain ⟨p, -, rfl⟩ := Option.map_eq_some_iff.mp hps
    exact p.2
  cases call with
  | query _ ps => exact hmap h
  | update _ ps => exact hmap h

/-- A member of the merged payload comes from the parameters, if they have it. -/
theorem objectGet_setParams {ms : List (Bytes × Json)} {ps : Option Json}
    (hps : ∀ v, ps = some v → v.WF J.printed) (key : Bytes) :
    (setParams (.object ms) ps).objectGet key =
      (jsonObjectGet ps key).or (Json.lookup key ms) := by
  cases ps with
  | none => rfl
  | some v =>
    cases v with
    | object ms' =>
      have hn : (ms'.map Prod.fst).Nodup := by
        cases hps _ rfl with
        | object hn _ _ => exact hn
      exact Json.lookup_merge key hn ms
    | _ => rfl

/-- Merging well-formed parameters keeps the payload well-formed. -/
theorem wf_setParams {ms : List (Bytes × Json)} (hms : Json.WF J.printed (.object ms))
    {ps : Option Json} (hps : ∀ v, ps = some v → v.WF J.printed) :
    (setParams (.object ms) ps).WF J.printed := by
  cases ps with
  | none => exact hms
  | some v =>
    cases v with
    | object ms' =>
      cases hps _ rfl with
      | object _ hk hv => exact hms.merge hk hv
    | _ => exact hms

/-- Setting a member to a string of the library keeps an object well-formed. -/
theorem wf_jsonObjectSet {v : Json} (hv : v.WF J.printed) {key : Bytes} (hk : Json.ValidString key)
    (value : Option Bytes) : (jsonObjectSet v key (jsonString value)).WF J.printed := by
  cases value with
  | none => exact hv
  | some t =>
    rw [jsonString, Option.bind_some]
    split
    · next ht => exact hv.objectSet hk (.string ⟨zero_not_mem_cString t, ht⟩)
    · exact hv

/-- `json_object_set` keeps an object an object. -/
theorem exists_jsonObjectSet (ms : List (Bytes × Json)) (key : Bytes) (value : Option Json) :
    ∃ ms', jsonObjectSet (.object ms) key value = .object ms' ∧
      ∀ k, k ≠ key → Json.lookup k ms' = Json.lookup k ms := by
  cases value with
  | none => exact ⟨ms, rfl, fun _ _ ↦ rfl⟩
  | some w =>
    refine ⟨_, rfl, fun k hk ↦ ?_⟩
    rw [Json.lookup_insert, if_neg (Ne.symm hk)]

/-- A UUID is a JSON string. -/
theorem jsonString_canonical (uuid : Zuuid) :
    jsonString (some uuid.canonical) = some (.string uuid.canonical) := by
  rw [jsonString, Option.bind_some, cString_eq_self uuid.valid.1, if_pos uuid.valid.2]

/-- The payload is an object with the type of the function and the UUID for an id, and the
parameters merged over it. -/
theorem payload_eq (call : SendCall J) (uuid : Zuuid) :
    ∃ ms, call.payload uuid = setParams (.object ms) call.params ∧
      Json.lookup (ofString "queryId") ms = some (.string uuid.canonical) ∧
      Json.lookup (ofString "@worldmodeltype") ms = some (.string call.ownType) ∧
      (Json.object ms).WF J.printed := by
  have hid {ms : List (Bytes × Json)} (hms : (Json.object ms).WF J.printed) :
      jsonObjectSet (.object ms) (ofString "queryId") (jsonString (some uuid.canonical)) =
          .object (Json.insert (ofString "queryId") (.string uuid.canonical) ms) ∧
        (Json.object (Json.insert (ofString "queryId") (.string uuid.canonical) ms)).WF
          J.printed := by
    rw [jsonString_canonical]
    exact ⟨rfl, hms.objectSet (by decide) (.string uuid.valid)⟩
  have hown (t : Bytes) (ht : Json.ValidString t) :
      (Json.object [(ofString "@worldmodeltype", .string t)]).WF J.printed :=
    Json.WF.empty.objectSet (by decide) (.string ht)
  have hkey : ofString "@worldmodeltype" ≠ ofString "queryId" := by decide
  cases call with
  | query queryType ps =>
    obtain ⟨m₁, h₁, hk₁⟩ := exists_jsonObjectSet
      [(ofString "@worldmodeltype", .string (ofString "RSGQuery"))] (ofString "query")
      (jsonString queryType)
    have hwf : (Json.object m₁).WF J.printed :=
      h₁ ▸ wf_jsonObjectSet (hown _ (by decide)) (by decide) queryType
    refine ⟨_, ?_, ?_, ?_, (hid hwf).2⟩
    · rw [← (hid hwf).1, ← h₁]
      rfl
    · rw [Json.lookup_insert, if_pos rfl]
    · rw [Json.lookup_insert, if_neg hkey.symm, hk₁ _ (by decide)]
      rfl
  | update operation ps =>
    obtain ⟨m₁, h₁, hk₁⟩ := exists_jsonObjectSet
      [(ofString "@worldmodeltype", .string (ofString "RSGUpdate"))] (ofString "operation")
      (jsonString operation)
    obtain ⟨m₂, h₂, hk₂⟩ := exists_jsonObjectSet m₁ (ofString "node") (jsonString operation)
    have hwf : (Json.object m₂).WF J.printed := by
      rw [← h₂, ← h₁]
      exact wf_jsonObjectSet (wf_jsonObjectSet (hown _ (by decide)) (by decide) operation)
        (by decide) operation
    refine ⟨_, ?_, ?_, ?_, (hid hwf).2⟩
    · rw [← (hid hwf).1, ← h₂, ← h₁]
      rfl
    · rw [Json.lookup_insert, if_pos rfl]
    · rw [Json.lookup_insert, if_neg hkey.symm, hk₂ _ (by decide), hk₁ _ (by decide)]
      rfl

/-- The id in the payload is the one of the parameters, if they have one. -/
theorem payload_queryId (call : SendCall J) (uuid : Zuuid) :
    (call.payload uuid).objectGet (ofString "queryId") =
      (jsonObjectGet call.params (ofString "queryId")).or (some (.string uuid.canonical)) := by
  obtain ⟨ms, he, hid, -, -⟩ := payload_eq call uuid
  rw [he, objectGet_setParams (fun _ ↦ SendCall.wf_params), hid]

/-- So is the type. -/
theorem payload_type (call : SendCall J) (uuid : Zuuid) :
    (call.payload uuid).objectGet (ofString "@worldmodeltype") =
      (jsonObjectGet call.params (ofString "@worldmodeltype")).or
        (some (.string call.ownType)) := by
  obtain ⟨ms, he, -, hty, -⟩ := payload_eq call uuid
  rw [he, objectGet_setParams (fun _ ↦ SendCall.wf_params), hty]

/-- The envelope is a well-formed object. -/
theorem wf_queryEnvelope (call : SendCall J) (uuid : Zuuid) :
    (queryEnvelope (call.payload uuid)).WF J.printed := by
  obtain ⟨ms, he, -, -, hms⟩ := payload_eq call uuid
  have hpl : (call.payload uuid).WF J.printed := by
    rw [he]
    exact wf_setParams hms fun _ ↦ SendCall.wf_params
  refine .object (by simp only [List.map_cons, List.map_nil]; decide) ?_ ?_
  · simp only [List.forall_mem_cons]
    decide
  · simp only [List.forall_mem_cons]
    exact ⟨.string (by decide), .string (by decide), .string (by decide), hpl, by simp⟩

/-- It is printed, and can be read back. -/
theorem textOf_queryEnvelope (hJ : J.RoundTrips) (call : SendCall J) (uuid : Zuuid) :
    J.TextOf (J.dumps (queryEnvelope (call.payload uuid))) (queryEnvelope (call.payload uuid)) :=
  hJ.textOf (wf_queryEnvelope call uuid) rfl

end

end Ubx.SendMsg
