import Ubx.SendMsg.Receive
import Ubx.Zyre.Robust

/-!
# One message format, two decoders

`zyre_bridge_actor` asks for a type and a payload, `decode_json` for two more strings. Where
both get what they ask for they agree on it. Neither asks for a string before it uses one:
in the component a member of another kind ends in `strdup`, and a result without an id in
`streq`.
-/

namespace Ubx.SendMsg

open Ubx.Base Ubx.Zyre

/-! ### The actor and `decode_json` -/

section

variable {J : Jansson}

/-- What the actor writes was in an accepted message. -/
theorem shoutBranch_writes (hJ : J.Documented) {inf : ZyreBridgeInfo}
    (hinf : inf.inputTypeList = inputTypeList) {message : Option Bytes}
    {zyreIn writes : List PortWrite} {w : PortWrite}
    (h : shoutBranch J inf message zyreIn = .ok (zyreIn ++ writes)) (hw : w ∈ writes) :
    ∃ root t p, J.jsonLoads message = some root ∧
      root.objectGet (ofString "type") = some (.string t) ∧
      root.objectGet (ofString "payload") = some p ∧ w = payloadWrite J p := by
  rw [shoutBranch_inputTypeList hJ hinf] at h
  cases ha : acceptedEnvelope J inputTypeList message with
  | none =>
    simp only [ha, Except.ok.injEq, List.self_eq_append_right] at h
    rw [h] at hw
    exact absurd hw List.not_mem_nil
  | some root =>
    obtain ⟨hm, t, hmem, ht⟩ := acceptedEnvelope_eq_some_iff.mp ha
    rw [strippedType_iff hmem] at ht
    cases hp : root.objectGet (ofString "payload") with
    | none => simp [ha, hp] at h
    | some p =>
      simp only [ha, hp, Except.ok.injEq, List.append_cancel_left_eq] at h
      rw [← h] at hw
      exact ⟨root, t, p, hm, ht, hp, List.mem_singleton.mp hw⟩

end

/-- The decoders agree: what `decode_json` takes the actor hands on if its type is on the
list, in one write, and drops otherwise; and what the actor writes for a message whose other
two members are strings is what `decode_json` finds. -/
theorem decoders_agree {J : Jansson} (hJ : J.Documented) {ext : InitExtern} {b : ZyreBridge}
    (hb : b.Initialised ext) {s : ActorState} (hs : s.loop = .running)
    (peer name group m : Bytes) (result : JsonMsg) :
    (∀ result', decodeJson J (some (cString m)) result = .ok (0, result') →
      ∃ t p, result'.type = some t ∧ result'.payload = some p ∧
        (zyreBridgeActor J b.inf).step s
            (.zyre (some [ofString "SHOUT", peer, name, group, m])) =
          .ok { s with
            zyreIn := s.zyreIn ++ if t ∈ inputTypeList then [⟨p, p.length⟩] else [] }) ∧
      ∀ s' writes, (zyreBridgeActor J b.inf).step s
          (.zyre (some [ofString "SHOUT", peer, name, group, m])) = .ok s' →
        s'.zyreIn = s.zyreIn ++ writes → ∀ w ∈ writes, ∀ root,
          J.loads (cString m) = some root → HasString root (ofString "metamodel") →
            HasString root (ofString "model") →
              ∃ result', decodeJson J (some (cString m)) result = .ok (0, result') ∧
                result'.payload = some (w.data.take w.len) := by
  have hlist := hb.inputTypeList_eq
  have hframe : [peer, name, group, m][3]?.map cString = some (cString m) := rfl
  rw [step_shout hs, hframe]
  constructor
  · intro result' hd
    obtain ⟨root, a, c, t, p, hm, hc, rfl⟩ := (decodeJson_eq_zero_iff hJ).mp hd
    refine ⟨t, J.dumps p, rfl, rfl, ?_⟩
    have hload : J.jsonLoads (some (cString m)) = some root := hm
    rw [shoutBranch_inputTypeList hJ hlist, acceptedEnvelope_of_type hload hc.type]
    by_cases ht : t ∈ inputTypeList
    · simp only [if_pos ht, hc.payload]
      rfl
    · simp only [if_neg ht, List.append_nil]
      rfl
  · intro s' writes hstep hwrites w hw root hm ⟨a, ha⟩ ⟨c, hc⟩
    cases hbranch : shoutBranch J b.inf (some (cString m)) s.zyreIn with
    | error f => simp [hbranch, Except.map] at hstep
    | ok zyreIn =>
      simp only [hbranch, Except.map, Except.ok.injEq] at hstep
      rw [← hstep] at hwrites
      rw [show zyreIn = s.zyreIn ++ writes from hwrites] at hbranch
      obtain ⟨root', t, p, hm', ht, hp, rfl⟩ := shoutBranch_writes hJ hlist hbranch hw
      obtain rfl : root = root' := Option.some.inj (hm.symm.trans hm')
      refine ⟨_, (decodeJson_eq_zero_iff hJ).mpr ⟨root, a, c, t, p, hm, ⟨ha, hc, ht, hp⟩, rfl⟩, ?_⟩
      simp only [payloadWrite, List.take_length]

/-- A query in full, as a component shouts it. -/
def queryContent : Bytes :=
  ofString
    "\x7b\"metamodel\":\"SHERPA\",\"model\":\"RSGQuery\",\"type\":\"RSGQuery\",\"payload\":[1]\x7d"

/-- Both decoders on the query, at the start of the test bridge. -/
theorem decoders_agree_query :
    ∃ t p, t = ofString "RSGQuery" ∧ p = ofString "[1]" ∧
      (zyreBridgeActor .reference testBridge.inf).step .start (.zyre (some
        [ofString "SHOUT", ofString "1B", ofString "peer", ofString "local", queryContent])) =
      .ok ⟨[⟨p, p.length⟩], .running⟩ := by
  obtain ⟨hforth, -⟩ := decoders_agree Jansson.reference_documented testBridge_initialised
    (s := .start) rfl (ofString "1B") (ofString "peer") (ofString "local") queryContent .zero
  have hd : decodeJson .reference (some (cString queryContent)) .zero =
      .ok (0, ⟨some (ofString "SHERPA"), some (ofString "RSGQuery"), some (ofString "RSGQuery"),
        some (ofString "[1]")⟩) := by rfl
  obtain ⟨t, p, ht, hp, hstep⟩ := hforth _ hd
  obtain rfl := Option.some.inj ht
  obtain rfl := Option.some.inj hp
  exact ⟨_, _, rfl, rfl, hstep⟩

/-! ### NULL on the receive path -/

/-- The payload has a string for an id. -/
def HasQueryId (payload : Json) : Prop := HasString payload (ofString "queryId")

/-- A shout is received without NULL reaching `strdup` or `streq`; the decoder returns zero
exactly on conforming messages and `-1` otherwise; a result without an id changes nothing. -/
structure ReceiveSafe (J : Jansson) (component : Component)
    (peerid name group content : Bytes) : Prop where
  decoded : ∃ rc result, decodeJson J (some (cString content)) .zero = .ok (rc, result) ∧
    (rc = 0 ∧ (∃ root a b t p, J.loads (cString content) = some root ∧ Conforms root a b t p) ∨
      rc = -1 ∧ ∀ root, J.loads (cString content) = some root → ∀ a b t p, ¬ Conforms root a b t p)
  not_null : ∀ fuel fault,
    handleShout J fuel component [peerid, name, group, content] ≠ .error fault
  unchanged : ∀ root a b t p, J.loads (cString content) = some root → Conforms root a b t p →
    t ∈ resultTypes → ¬ HasQueryId p →
      ∃ fuel, handleShout J fuel component [peerid, name, group, content] = .ok (some component)

section

variable {J : Jansson} {self : Component}

/-- A result branch on a payload that was just printed. -/
theorem resultBranch_dumps (hJ : J.RoundTrips) {payload : Json} (hwf : payload.WF J.printed)
    (hdoc : payload.isDocument = true) (hn : J.Nests payload) (fuel : Nat)
    (a b t : Option Bytes) :
    resultBranch J fuel ⟨a, b, t, some (J.dumps payload)⟩ self =
      (searchLoop ((payload.objectGet (ofString "queryId")).bind Json.stringValue) fuel 0
        self.queryList).map fun list ↦ list.map fun list ↦ { self with queryList := list } := by
  simp only [resultBranch, Jansson.jsonLoads, Option.bind_some, hJ.loads_dumps payload hwf hdoc,
    if_pos hn]
  cases searchLoop ((payload.objectGet (ofString "queryId")).bind Json.stringValue) fuel 0
    self.queryList <;> rfl

/-- The envelope of a result conforms. -/
theorem conforms_envelope {t : Bytes} (ht : t ∈ resultTypes) (pl : Json) :
    Conforms (envelope pl t) (ofString "SHERPA") t t pl := by
  have hall : ∀ t ∈ resultTypes, t ≠ ofString "RSGUpdate" := by decide
  refine ⟨rfl, rfl, ?_, rfl⟩
  rw [envelope, if_neg (hall t ht)]
  rfl

/-- The receive path on a result that a bridge shouts. -/
theorem handleShout_envelope (hJ : J.RoundTrips) {m : Bytes} {pl : Json} {t : Bytes}
    (h : IsTyped J m pl t) (ht : t ∈ resultTypes) (hn : J.Nests (envelope pl t)) (fuel : Nat)
    (peerid name group : Bytes) :
    handleShout J fuel self [peerid, name, group, J.dumps (envelope pl t)] =
      (searchLoop ((pl.objectGet (ofString "queryId")).bind Json.stringValue) fuel 0
        self.queryList).map fun list ↦ list.map fun list ↦ { self with queryList := list } := by
  obtain ⟨hwf, hdoc⟩ := hJ.loads_wf _ _ h.1
  have hpl : J.Nests pl := hJ.loads_nests _ _ h.1
  rw [handleShout_of_conforms hJ.toDocumented (loads_envelope hJ h hn) (conforms_envelope ht pl),
    if_pos ht, resultBranch_dumps hJ hwf hdoc hpl]

/-- A payload that is neither an array nor an object is not decoded again. -/
theorem resultBranch_scalar (hrej : J.RejectsScalars) {payload : Json}
    (hwf : payload.WF J.printed) (hdoc : payload.isDocument = false) (fuel : Nat)
    (a b t : Option Bytes) :
    resultBranch J fuel ⟨a, b, t, some (J.dumps payload)⟩ self = .ok (some self) := by
  simp only [resultBranch, Jansson.jsonLoads, Option.bind_some, hrej payload hwf hdoc]

/-- The id of a payload without one is NULL. -/
theorem queryId_eq_none {payload : Json} (h : ¬ HasQueryId payload) :
    (payload.objectGet (ofString "queryId")).bind Json.stringValue = none := by
  cases hq : payload.objectGet (ofString "queryId") with
  | none => rfl
  | some v =>
    cases v with
    | string s => exact absurd ⟨s, hq⟩ h
    | _ => rfl

/-- With an id the walk compares no NULL. -/
theorem searchLoop_ne_error (queryId : Bytes) (fuel : Nat) (list : List Query) (fault : Fault) :
    searchLoop (some queryId) fuel 0 list ≠ .error fault := by
  cases list with
  | nil => cases fuel <;> simp [searchLoop]
  | cons x list =>
    induction fuel with
    | zero => simp [searchLoop]
    | succ fuel ih =>
      simp only [searchLoop, List.getElem?_cons_zero, streq]
      by_cases h : cString x.uid.canonical = cString queryId
      · simp [h, Bind.bind, Except.bind]
      · simpa [h, Bind.bind, Except.bind] using ih

/-- The receive path on a conforming message. -/
theorem receiveSafe_of_conforms (hJ : J.RoundTrips) (hrej : J.RejectsScalars)
    {peerid name group content : Bytes} {root : Json} (hm : J.loads (cString content) = some root)
    {a b t : Bytes} {p : Json} (hc : Conforms root a b t p) :
    ReceiveSafe J self peerid name group content ↔
      (t ∈ resultTypes → p.isDocument = true → HasQueryId p ∨ self.queryList = []) := by
  have hwf : p.WF J.printed := (hJ.loads_wf _ _ hm).1.objectGet hc.payload
  have hn : J.Nests p := (hJ.loads_nests _ _ hm).objectGet hc.payload
  have hshout (fuel : Nat) : handleShout J fuel self [peerid, name, group, content] =
      if t ∈ resultTypes then
        resultBranch J fuel ⟨some a, some b, some t, some (J.dumps p)⟩ self
      else .ok (some self) :=
    handleShout_of_conforms hJ.toDocumented hm hc fuel peerid name group
  constructor
  · intro h ht hdoc
    by_contra hcon
    rw [not_or] at hcon
    obtain ⟨x, list, hlist⟩ := List.exists_cons_of_ne_nil hcon.2
    refine h.not_null 1 .streqNull ?_
    rw [hshout, if_pos ht, resultBranch_dumps hJ hwf hdoc hn, queryId_eq_none hcon.1, hlist,
      searchLoop_null]
    rfl
  · intro h
    refine ⟨?_, fun fuel fault ↦ ?_, fun root' a' b' t' p' hm' hc' ht hq ↦ ?_⟩
    · exact ⟨0, _, (decodeJson_eq_zero_iff hJ.toDocumented).mpr ⟨root, a, b, t, p, hm, hc, rfl⟩,
        .inl ⟨rfl, root, a, b, t, p, hm, hc⟩⟩
    · rw [hshout]
      split
      · next ht =>
        cases hdoc : p.isDocument with
        | false =>
          rw [resultBranch_scalar hrej hwf hdoc]
          simp
        | true =>
          rw [resultBranch_dumps hJ hwf hdoc hn]
          obtain ⟨q, hq⟩ | hnil := h ht hdoc
          · simp only [hq, Option.bind_some, Json.stringValue]
            cases hl : searchLoop (some q) fuel 0 self.queryList with
            | error f => exact absurd hl (searchLoop_ne_error q fuel _ f)
            | ok list => simp [Except.map]
          · rw [hnil]
            cases fuel <;> simp [searchLoop, Except.map]
      · simp
    · obtain rfl := Option.some.inj (hm.symm.trans hm')
      obtain ⟨rfl, rfl, rfl, rfl⟩ := hc.unique hc'
      refine ⟨1, ?_⟩
      rw [hshout, if_pos ht]
      cases hdoc : p.isDocument with
      | false => exact resultBranch_scalar hrej hwf hdoc _ _ _ _
      | true =>
        have hnil := (h ht hdoc).resolve_left hq
        rw [resultBranch_dumps hJ hwf hdoc hn, hnil, searchLoop_nil]
        simp [Except.map, ← hnil]

end

/-- A shout is received safely exactly if its content, where it is a document, has no member
among the copied ones that is there without being a string when the ones before it are
strings, and if, where it is a result with an array or object without an id for a payload,
no query is waiting. -/
theorem receiveSafe_iff {J : Jansson} (hJ : J.RoundTrips) (hrej : J.RejectsScalars)
    (self : Component) (peerid name group content : Bytes) :
    ReceiveSafe J self peerid name group content ↔
      ∀ root, J.loads (cString content) = some root → ¬ CopiesNull root ∧
        ∀ a b t p, Conforms root a b t p → t ∈ resultTypes → p.isDocument = true →
          HasQueryId p ∨ self.queryList = [] := by
  cases hm : J.loads (cString content) with
  | none =>
    apply iff_of_true _ (by simp)
    refine ⟨⟨-1, .zero, ?_, .inr ⟨rfl, by simp [hm]⟩⟩, fun fuel fault ↦ ?_, ?_⟩
    · simp only [decodeJson, Jansson.jsonLoads, Option.bind_some, hm]
    · rw [handleShout_of_loads_none hm]
      simp
    · simp [hm]
  | some root =>
    have hcases := decodeJson_cases hJ.toDocumented hm .zero
    obtain ⟨hn, hd⟩ | ⟨hn, a, b, t, p, hc, -⟩ | ⟨hn, hnc, result, hd⟩ := hcases
    · apply iff_of_false _ fun h ↦ (h root rfl).1 hn
      intro h
      exact h.not_null 0 .strdupNull (handleShout_of_copiesNull hJ.toDocumented hm hn 0 peerid name
        group)
    · rw [receiveSafe_of_conforms hJ hrej hm hc]
      constructor
      · intro h root' he
        obtain rfl := Option.some.inj he
        refine ⟨hn, fun a' b' t' p' hc' ↦ ?_⟩
        obtain ⟨rfl, rfl, rfl, rfl⟩ := hc.unique hc'
        exact h
      · exact fun h ↦ (h root rfl).2 a b t p hc
    · have hshout (fuel : Nat) :
          handleShout J fuel self [peerid, name, group, content] = .ok (some self) :=
        handleShout_of_not_conforms hJ.toDocumented hm hn hnc fuel peerid name group
      refine iff_of_true ?_ fun root' he ↦ ?_
      · refine ⟨⟨-1, result, hd, .inr ⟨rfl, fun root' he ↦ ?_⟩⟩, fun fuel fault ↦ ?_, ?_⟩
        · obtain rfl := Option.some.inj (hm.symm.trans he)
          exact hnc
        · rw [hshout]
          simp
        · intro root' a b t p he hc
          obtain rfl := Option.some.inj (hm.symm.trans he)
          exact absurd hc (hnc a b t p)
      · obtain rfl := Option.some.inj he
        exact ⟨hn, fun a b t p hc ↦ absurd hc (hnc a b t p)⟩

/-- A component that waits for one answer. -/
def waitingComponent : Component :=
  ⟨⟨ofString "0C"⟩, [⟨testUuid, ofString "0C", .zero⟩]⟩

/-- A result without an id. -/
def blindResult : Json :=
  .object [(ofString "@worldmodeltype", .string (ofString "RSGQueryResult"))]

/-- A metamodel that is a number ends in `strdup`, and what a bridge shouts for the result
without an id ends in `streq`. -/
theorem null_on_receive_path :
    decodeJson .reference (some (cString (ofString "\x7b\"metamodel\":1\x7d"))) .zero =
        .error .strdupNull ∧
      handleShout .reference 1 waitingComponent [ofString "1B", ofString "bridge",
        ofString "local", shoutText .reference testBridge (ofString "1F") blindResult
          (ofString "RSGQueryResult")] = .error .streqNull ∧
      ¬ ReceiveSafe .reference waitingComponent (ofString "1B") (ofString "bridge")
        (ofString "local") (ofString "\x7b\"metamodel\":1\x7d") ∧
      ¬ ReceiveSafe .reference waitingComponent (ofString "1B") (ofString "bridge")
        (ofString "local") (shoutText .reference testBridge (ofString "1F") blindResult
          (ofString "RSGQueryResult")) := by
  have hdecode : decodeJson .reference (some (cString (ofString "\x7b\"metamodel\":1\x7d"))) .zero =
      .error .strdupNull := by rfl
  have htyped : IsTyped .reference (ofString "\x7b\"@worldmodeltype\":\"RSGQueryResult\"\x7d")
      blindResult (ofString "RSGQueryResult") := ⟨rfl, rfl⟩
  have hshout : handleShout .reference 1 waitingComponent [ofString "1B", ofString "bridge",
      ofString "local", shoutText .reference testBridge (ofString "1F") blindResult
        (ofString "RSGQueryResult")] = .error .streqNull := by
    have hplain : mediated testBridge (ofString "RSGQueryResult") = false := by decide
    rw [shoutText, hplain]
    exact handleShout_envelope Jansson.reference_roundTrips htyped (by decide) (by decide) 1 _ _ _
  refine ⟨hdecode, hshout, fun h ↦ ?_, fun h ↦ h.not_null 1 _ hshout⟩
  obtain ⟨rc, result, hd, -⟩ := h.decoded
  exact absurd (hdecode.symm.trans hd) (by simp)

/-- The equivalence for a query, which is no result. -/
theorem receiveSafe_iff_query :
    ReceiveSafe .reference waitingComponent (ofString "1B") (ofString "peer") (ofString "local")
        queryContent ↔
      ∀ root, Jansson.reference.loads (cString queryContent) = some root → ¬ CopiesNull root ∧
        ∀ a b t p, Conforms root a b t p → t ∈ resultTypes → p.isDocument = true →
          HasQueryId p ∨ waitingComponent.queryList = [] :=
  receiveSafe_iff Jansson.reference_roundTrips Jansson.reference_rejectsScalars _ _ _ _ _

end Ubx.SendMsg
