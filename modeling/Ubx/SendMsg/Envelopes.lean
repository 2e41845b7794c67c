import Ubx.SendMsg.Send
import Ubx.Zyre.Peers

/-!
# The envelopes of the component and of the bridge

What is promised of them: the id that a component sends is the id it waits for, and the type
of an envelope goes with the `@worldmodeltype` of its payload, as `msg.md` lists them. The
members that a caller adds may write over either; `send_update` has the type of a query.
-/

namespace Ubx.SendMsg

open Ubx.Base Ubx.Zyre

/-- `text` is an envelope around `payload`. -/
def PayloadOf (J : Jansson) (text : Bytes) (payload : Json) : Prop :=
  ∃ env, J.TextOf text env ∧ env.objectGet (ofString "payload") = some payload

/-- A bridge that gets `text`, nested no deeper than it reads, hands `payload` to its world
model, once. -/
def Forwarded (J : Jansson) (text : Bytes) (payload : Json) : Prop :=
  ∀ env, J.TextOf text env → J.Nests env →
    ∀ (ext : InitExtern) (b : ZyreBridge), b.Initialised ext → ∀ zyreIn,
      shoutBranch J b.inf (some text) zyreIn = .ok (zyreIn ++ [payloadWrite J payload])

/-! ### Identifiers -/

/-- If the call returns a message, one entry has been appended to the query list, and the
message carries its id to the world model; if it returns NULL, the list is unchanged. -/
structure InStep {J : Jansson} (call : SendCall J) (component : Component) (uuid : Zuuid) :
    Prop where
  returned : ∀ text, (call.send component uuid).1 = some text →
    ∃ q payload, (call.send component uuid).2.queryList = component.queryList ++ [q] ∧
      PayloadOf J text payload ∧
      payload.objectGet (ofString "queryId") = some (.string q.uid.canonical) ∧
      Forwarded J text payload
  null : (call.send component uuid).1 = none →
    (call.send component uuid).2.queryList = component.queryList

section

variable {J : Jansson} {call : SendCall J} {uuid : Zuuid}

/-- The text of a call is an envelope around its payload. -/
theorem payloadOf_queryEnvelope (hJ : J.RoundTrips) (call : SendCall J) (uuid : Zuuid) :
    PayloadOf J (J.dumps (queryEnvelope (call.payload uuid))) (call.payload uuid) :=
  ⟨_, textOf_queryEnvelope hJ call uuid, rfl⟩

/-- Every bridge hands its payload on. -/
theorem forwarded_queryEnvelope (hJ : J.RoundTrips) (call : SendCall J) (uuid : Zuuid) :
    Forwarded J (J.dumps (queryEnvelope (call.payload uuid))) (call.payload uuid) := by
  intro env htext hn ext b hb zyreIn
  have hlist := hb.inputTypeList_eq
  obtain rfl := htext.unique hJ.toDocumented (textOf_queryEnvelope hJ call uuid)
  have haccept : acceptedEnvelope J inputTypeList
      (some (J.dumps (queryEnvelope (call.payload uuid)))) =
        some (queryEnvelope (call.payload uuid)) := by
    rw [acceptedEnvelope_dumps hJ htext.wf htext.isDocument rfl]
    exact if_pos ⟨by decide, hn⟩
  have hpay : (queryEnvelope (call.payload uuid)).objectGet (ofString "payload") =
      some (call.payload uuid) := rfl
  simp only [shoutBranch_inputTypeList hJ.toDocumented hlist, haccept, hpay]

end

/-- A call keeps the ids in step exactly if it is refused, or its parameters have no id of
their own but the very UUID. -/
theorem inStep_iff {J : Jansson} (hJ : J.RoundTrips) (call : SendCall J) (component : Component)
    (uuid : Zuuid) :
    InStep call component uuid ↔
      call.refused = true ∨ ∀ v, jsonObjectGet call.params (ofString "queryId") = some v →
        v = .string uuid.canonical := by
  cases hr : call.refused with
  | true =>
    apply iff_of_true _ (.inl rfl)
    constructor
    · rw [send_of_refused hr]
      intro text h
      exact absurd h (by simp)
    · rw [send_of_refused hr]
      exact fun _ ↦ rfl
  | false =>
    have hsend := send_of_not_refused hr component uuid
    rw [Bool.false_eq_true, false_or]
    constructor
    · intro h v hv
      obtain ⟨q, payload, hlist, ⟨env, htext, hpay⟩, hid, -⟩ :=
        h.returned _ (congrArg Prod.fst hsend)
      rw [hsend] at hlist
      have hq := List.singleton_inj.mp (List.append_cancel_left hlist)
      obtain rfl := htext.unique hJ.toDocumented (textOf_queryEnvelope hJ call uuid)
      obtain rfl : call.payload uuid = payload := Option.some.inj hpay
      rw [payload_queryId, hv, ← hq] at hid
      exact Option.some.inj hid
    · intro h
      refine ⟨fun text ht ↦ ?_, fun hn ↦ ?_⟩
      · rw [hsend] at ht ⊢
        obtain rfl := Option.some.inj ht
        refine ⟨_, call.payload uuid, rfl, payloadOf_queryEnvelope hJ call uuid, ?_,
          forwarded_queryEnvelope hJ call uuid⟩
        rw [payload_queryId]
        cases hp : jsonObjectGet call.params (ofString "queryId") with
        | none => rfl
        | some v =>
          rw [h v hp]
          rfl
      · rw [hsend] at hn
        exact absurd hn (by simp)

/-- A component that waits for nothing. -/
def idleComponent : Component := ⟨⟨ofString "0C"⟩, []⟩

/-- A query whose caller has an id of its own. -/
def renamedQuery : SendCall .reference :=
  .query (some (ofString "GET_ROOT_NODE"))
    (some ⟨.object [(ofString "queryId", .string (ofString "mine"))],
      Json.WF.empty.objectSet (by decide) (.string (by decide))⟩)

/-- The caller's id is sent, the UUID is waited for. -/
theorem renamed_query_out_of_step :
    (renamedQuery.payload testUuid).objectGet (ofString "queryId") =
        some (.string (ofString "mine")) ∧
      (renamedQuery.send idleComponent testUuid).2.queryList.map (·.uid.canonical) =
        [ofString "5e3f"] ∧
      ¬ InStep renamedQuery idleComponent testUuid := by
  have hid : (renamedQuery.payload testUuid).objectGet (ofString "queryId") =
      some (.string (ofString "mine")) := by
    rw [payload_queryId]
    rfl
  refine ⟨hid, rfl, fun h ↦ ?_⟩
  obtain ⟨q, payload, hlist, ⟨env, htext, hpay⟩, hq, -⟩ := h.returned _ rfl
  obtain rfl := htext.unique Jansson.reference_documented
    (textOf_queryEnvelope Jansson.reference_roundTrips renamedQuery testUuid)
  obtain rfl : renamedQuery.payload testUuid = payload := Option.some.inj hpay
  have huid := List.singleton_inj.mp hlist
  rw [hid, ← huid] at hq
  exact absurd (Json.string.inj (Option.some.inj hq)) (by decide)

/-- The equivalence for it. -/
theorem inStep_iff_renamed :
    InStep renamedQuery idleComponent testUuid ↔
      renamedQuery.refused = true ∨
        ∀ v, jsonObjectGet renamedQuery.params (ofString "queryId") = some v →
          v = .string testUuid.canonical :=
  inStep_iff Jansson.reference_roundTrips _ _ _

/-! ### Types -/

/-- The type of an envelope goes with the `@worldmodeltype` of its payload; `msg.md:13–25`. -/
def TypeAgrees (type : Bytes) (payload : Json) : Prop :=
  ∃ own, payload.objectGet (ofString "@worldmodeltype") = some (.string own) ∧
    (own = ofString "RSGQuery" ∧ type = ofString "RSGQuery" ∨
      own = ofString "RSGUpdate" ∧ type ∈ [ofString "RSGUpdate", ofString "RSGUpdate_local",
        ofString "RSGUpdate_global", ofString "RSGUpdate_both"] ∨
      own ∈ resultTypes ∧ type = own)

/-- `text` is an envelope around `payload` by the message model; `msg.md:3–8`. -/
def FollowsModel (J : Jansson) (text : Bytes) (payload : Json) : Prop :=
  ∃ env type, J.TextOf text env ∧
    env.objectGet (ofString "metamodel") = some (.string (ofString "SHERPA")) ∧
    env.objectGet (ofString "payload") = some payload ∧
    env.objectGet (ofString "type") = some (.string type) ∧ TypeAgrees type payload

/-- The merged payload is a query: nothing else is written over the type of a query, or a
query over the type of an update. -/
def SendCall.saysQuery {J : Jansson} : SendCall J → Prop
  | .query _ ps => ∀ v, jsonObjectGet (ps.map Subtype.val) (ofString "@worldmodeltype") = some v →
      v = .string (ofString "RSGQuery")
  | .update _ ps => jsonObjectGet (ps.map Subtype.val) (ofString "@worldmodeltype") =
      some (.string (ofString "RSGQuery"))

section

variable {J : Jansson}

/-- The envelope of a listed type follows the model. -/
theorem followsModel_envelope (hJ : J.RoundTrips) {m : Bytes} {p : Json} {t : Bytes}
    (h : IsTyped J m p t) (ht : t ∈ outputTypeList) :
    FollowsModel J (J.dumps (envelope p t)) p := by
  have hcases : t = ofString "RSGUpdate" ∨ t ≠ ofString "RSGUpdate" ∧ t ∈ resultTypes := by
    have hall : ∀ t ∈ outputTypeList,
        t = ofString "RSGUpdate" ∨ t ≠ ofString "RSGUpdate" ∧ t ∈ resultTypes := by decide
    exact hall t ht
  have htext := hJ.textOf (h.wf_envelope hJ.toDocumented) rfl
  refine ⟨_, _, htext, rfl, rfl, rfl, t, h.2, ?_⟩
  rcases hcases with rfl | ⟨hne, hmem⟩
  · exact .inr (.inl ⟨rfl, by decide⟩)
  · exact .inr (.inr ⟨hmem, if_neg hne⟩)

/-- The payload is a query when the call says so. -/
theorem payload_type_eq_iff (call : SendCall J) (uuid : Zuuid) :
    (call.payload uuid).objectGet (ofString "@worldmodeltype") =
      some (.string (ofString "RSGQuery")) ↔ call.saysQuery := by
  rw [payload_type]
  cases call with
  | query _ ps =>
    simp only [SendCall.saysQuery, SendCall.params, SendCall.ownType]
    cases jsonObjectGet (ps.map Subtype.val) (ofString "@worldmodeltype") <;> simp
  | update _ ps =>
    simp only [SendCall.saysQuery, SendCall.params, SendCall.ownType]
    cases jsonObjectGet (ps.map Subtype.val) (ofString "@worldmodeltype") with
    | none =>
      have hne : ofString "RSGUpdate" ≠ ofString "RSGQuery" := by decide
      simp [hne]
    | some v => simp

/-- The envelope of a call follows the model when its payload is a query. -/
theorem followsModel_send_iff (hJ : J.RoundTrips) (call : SendCall J) (uuid : Zuuid) :
    FollowsModel J (J.dumps (queryEnvelope (call.payload uuid))) (call.payload uuid) ↔
      call.saysQuery := by
  have htext := textOf_queryEnvelope hJ call uuid
  rw [← payload_type_eq_iff call uuid]
  constructor
  · rintro ⟨env, type, he, -, -, htype, own, hown, hcase⟩
    obtain rfl := htext.unique hJ.toDocumented he
    have hquery : ofString "RSGQuery" = type := by simpa using Option.some.inj htype
    rcases hcase with ⟨rfl, -⟩ | ⟨-, hmem⟩ | ⟨hmem, hsame⟩
    · exact hown
    · rw [← hquery] at hmem
      exact absurd hmem (by decide)
    · rw [← hsame, ← hquery] at hmem
      exact absurd hmem (by decide)
  · intro h
    exact ⟨_, _, htext, rfl, rfl, rfl, _, h, .inl ⟨rfl, rfl⟩⟩

end

/-- A bridge without a mediator always follows the model. A call of the component does
exactly if it is refused or its merged payload is a query. -/
theorem followsModel_iff {J : Jansson} (hJ : J.RoundTrips) :
    (∀ (ext : InitExtern) (b : ZyreBridge), b.Initialised ext → b.config.mediator = 0 →
      ∀ (zuuid : Nat → Bytes) (as : List (StepAction b)) (w : StepWorld),
        (stepMachine J zuuid b).run (.start []) as = .ok w → ∀ it ∈ w.log, ∀ p t,
          IsTyped J it.message p t → t ∈ b.inf.outputTypeList →
            ∃ text, it.shout = some (some text) ∧ FollowsModel J text p) ∧
      ∀ (call : SendCall J) (component : Component) (uuid : Zuuid),
        (∀ text, (call.send component uuid).1 = some text →
          FollowsModel J text (call.payload uuid)) ↔ call.refused = true ∨ call.saysQuery := by
  constructor
  · intro ext b hb hmed zuuid as w hw it hit p t hp ht
    have hplain : mediated b t = false := by simp [mediated, hmed]
    exact ⟨_, shout_of_run hJ.toDocumented hb hw hit hp hplain, followsModel_envelope hJ hp
      (hb.outputTypeList_eq ▸ ht)⟩
  · intro call component uuid
    cases hr : call.refused with
    | true =>
      apply iff_of_true _ (.inl rfl)
      intro text ht
      rw [send_of_refused hr] at ht
      exact absurd ht (by simp)
    | false =>
      rw [Bool.false_eq_true, false_or, ← followsModel_send_iff hJ call uuid,
        send_of_not_refused hr]
      simp only [Option.some.injEq, forall_eq']

/-- An update as the example builds it. -/
def createUpdate : SendCall .reference :=
  .update (some (ofString "CREATE"))
    (some ⟨.object [(ofString "node", .object [])],
      Json.WF.empty.objectSet (by decide) Json.WF.empty⟩)

/-- It is an update in the envelope of a query. -/
theorem update_typed_as_query :
    createUpdate.refused = false ∧
      (createUpdate.payload testUuid).objectGet (ofString "@worldmodeltype") =
        some (.string (ofString "RSGUpdate")) ∧
      ∃ text, (createUpdate.send idleComponent testUuid).1 = some text ∧
        ¬ FollowsModel .reference text (createUpdate.payload testUuid) := by
  refine ⟨rfl, ?_, _, rfl, fun h ↦ ?_⟩
  · rw [payload_type]
    rfl
  · have hsays := (followsModel_send_iff Jansson.reference_roundTrips createUpdate testUuid).mp h
    have hnone : jsonObjectGet createUpdate.params (ofString "@worldmodeltype") = none := by rfl
    exact absurd (hnone.symm.trans hsays) (by simp)

/-- The second half for this update. -/
theorem followsModel_iff_update :
    (∀ text, (createUpdate.send idleComponent testUuid).1 = some text →
        FollowsModel .reference text (createUpdate.payload testUuid)) ↔
      createUpdate.refused = true ∨ createUpdate.saysQuery :=
  (followsModel_iff Jansson.reference_roundTrips).2 _ _ _

end Ubx.SendMsg
