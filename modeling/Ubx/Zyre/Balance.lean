import Ubx.Json.Building
import Ubx.Zyre.Output

/-!
# Reference counts in the zyre bridge

An iteration of `zyre_bridge_step` with the values that it creates, shares and gives up;
`src/zyre_bridge/src/zyre_bridge.cpp:44–82,283–351`. What it sends is what the model on
values says. It uses no value that has been released, but `json_object_set` takes a reference
of its own, so the one to a value created in place is lost, and others are on some exits.
-/

namespace Ubx.Zyre.Refs

open Ubx.Base Ubx.Json

section

variable (J : Jansson)

/-- `send_request`; `zyre_bridge.cpp:44–82`. -/
def sendRequest (uid localReq : Bytes) (recipients : Ptr) (timeout : Int64)
    (payloadType : Bytes) (msgPayload : Ptr) : HeapM (Option Bytes) := do
  let isArray ← jsonIsArray recipients
  if isArray = false then pure none
  else do
    let isObject ← jsonIsObject msgPayload
    if isObject = false then pure none
    else do
      let root ← jsonObject
      jsonObjectSetString root (ofString "metamodel") (ofString "sherpa_mgs")
      jsonObjectSetString root (ofString "model") (ofString "http://kul/send_request.json")
      jsonObjectSetString root (ofString "type") (ofString "send_request")
      let payload ← jsonObject
      jsonObjectSetString payload (ofString "UID") uid
      jsonObjectSetString payload (ofString "local_requester") localReq
      jsonObjectSet payload (ofString "recipients") (some recipients)
      jsonInteger timeout >>= fun p ↦ jsonObjectSet payload (ofString "timeout") (some p)
      jsonObjectSetString payload (ofString "payload_type") payloadType
      jsonObjectSet payload (ofString "payload") (some msgPayload)
      jsonObjectSet root (ofString "payload") (some payload)
      let ret ← jsonDumps J root
      jsonDecref (some root)
      pure (some ret)

/-- The branch taken at the first entry that compares non-zero; `zyre_bridge.cpp:313–338`.
The UUID is the one that `zuuid_new` draws if the mediator is used. -/
def sendBody (b : ZyreBridge) (uid tmpType : Bytes) (newMsg : Ptr) :
    HeapM (Except Fault (Option Bytes)) :=
  if strCompare tmpType (ofString "RSGUpdate") = 0 then do
    jsonObjectSetString newMsg (ofString "model") (ofString "RSGUpdate")
    jsonObjectSetString newMsg (ofString "type") (ofString "RSGUpdate_global")
    if b.config.mediator = 1 then do
      let recip ← jsonArray
      let size ← jsonArraySize recip
      if size ≠ 0 then pure (.error .assertFailed)
      else do
        let sendMsg ← sendRequest J uid b.inf.node.uuid recip 1000 (ofString "send_remote") newMsg
        pure (.ok sendMsg)
    else do
      let sendMsg ← jsonDumps J newMsg
      pure (.ok (some sendMsg))
  else do
    jsonObjectSetString newMsg (ofString "model") tmpType
    jsonObjectSetString newMsg (ofString "type") tmpType
    let sendMsg ← jsonDumps J newMsg
    pure (.ok (some sendMsg))

/-- The loop over `output_type_list`; `zyre_bridge.cpp:310–341`. -/
def typeLoop (b : ZyreBridge) (uid tmpType : Bytes) (newMsg : Ptr) :
    List Bytes → HeapM (Except Fault (Option Bytes))
  | [] => pure (.ok none)
  | t :: ts =>
    if strCompare tmpType t ≠ 0 then sendBody J b uid tmpType newMsg
    else typeLoop b uid tmpType newMsg ts

/-- The end of an iteration whose message has a type; `zyre_bridge.cpp:308–351`. -/
def sendTyped (b : ZyreBridge) (uid tmpType : Bytes) (pl newMsg : Ptr) :
    HeapM (Except Fault (Option (Option Bytes))) := do
  let sent ← typeLoop J b uid tmpType newMsg b.inf.outputTypeList
  match sent with
  | .error e => pure (.error e)
  | .ok sendMsg => do
    jsonDecref (some pl)
    jsonDecref (some newMsg)
    pure (.ok (some sendMsg))

/-- The iteration on a message, from `json_loads` on; `zyre_bridge.cpp:283–351`. The result
is the argument of `zyre_shouts` when the iteration reaches that call. -/
def iteration (b : ZyreBridge) (uid tmpStr : Bytes) :
    HeapM (Except Fault (Option (Option Bytes))) := do
  let pl ← jsonLoads J (cString tmpStr)
  match pl with
  | none => do
    jsonDecref none
    pure (.ok none)
  | some pl => do
    let newMsg ← jsonObject
    jsonObjectSet newMsg (ofString "payload") (some pl)
    jsonObjectSetString newMsg (ofString "metamodel") (ofString "SHERPA")
    let ty ← jsonObjectGet pl (ofString "@worldmodeltype")
    if ty = none then do
      -- the text goes to `printf`
      let _ ← jsonDumps J pl
      jsonDecref (some pl)
      pure (.ok none)
    else do
      let ty ← jsonObjectGet pl (ofString "@worldmodeltype")
      let s ← jsonStringValue ty
      match s with
      | none => pure (.error .stringFromNull)
      | some s => sendTyped J b uid (cString s) pl newMsg

end

/-! ### What is sent and what is lost -/

section

variable {J : Jansson} {start n : Nat} {h : Heap} {held : List Nat}
  {opens : List (Nat × List (Bytes × Json))} {vals : List (Json × Ptr)} {b : ZyreBridge}

/-- References lost in `send_request`: to the payload, the integer and six strings, of which the
library takes three in any case. -/
def requestRefs (uid localReq payloadType : Bytes) : Nat :=
  5 + textRefs uid + textRefs localReq + textRefs payloadType

/-- `send_request` sends what the model on values says. -/
theorem sendRequest_spec (hb : Balance start n h held opens vals) (uid localReq payloadType : Bytes)
    (timeout : Int64) {recips env : Json} {recipients msgPayload : Ptr}
    (hrecips : (recips, recipients) ∈ vals) (henv : (env, msgPayload) ∈ vals)
    (harray : recips.isArray = true) (hobject : env.isObject = true) :
    Ensures (sendRequest J uid localReq recipients timeout payloadType msgPayload) h fun t h' ↦
      (Json.ValidString uid → Json.ValidString localReq → Json.ValidString payloadType →
        t = Zyre.sendRequest J uid localReq recips timeout payloadType env) ∧
      Balance start (n + requestRefs uid localReq payloadType) h' held [] [] := by
  obtain ⟨held', hb'⟩ := hb.building
  apply ((hb'.reads hrecips).isArray hb'.counted).bind
  rintro _ _ ⟨rfl, rfl⟩
  rw [if_neg (by simp [harray])]
  apply ((hb'.reads henv).isObject hb'.counted).bind
  rintro _ _ ⟨rfl, rfl⟩
  rw [if_neg (by simp [hobject])]
  -- the root and its strings
  apply hb.object.bind
  rintro _ h₁ ⟨root, rfl, -, hb₁⟩
  apply (hb₁.setString _ _).bind
  intro _ h₂ hb₂
  apply (hb₂.setString _ _).bind
  intro _ h₃ hb₃
  apply (hb₃.setString _ _).bind
  intro _ h₄ hb₄
  -- the payload and its members
  apply hb₄.object.bind
  rintro _ h₅ ⟨payload, rfl, hpayload, hb₅⟩
  apply (hb₅.setString _ _).bind
  intro _ h₆ hb₆
  apply (hb₆.setString _ _).bind
  intro _ h₇ hb₇
  apply (hb₇.set _ hrecips).bind
  intro _ h₈ hb₈
  apply (hb₈.setInteger _ _).bind
  intro _ h₉ hb₉
  apply (hb₉.setString _ _).bind
  intro _ h₁₀ hb₁₀
  apply (hb₁₀.set _ henv).bind
  intro _ h₁₁ hb₁₁
  apply (hb₁₁.close.set _ List.mem_cons_self).bind
  intro _ h₁₂ hb₁₂
  apply (hb₁₂.close.dumps List.mem_cons_self J).bind
  rintro _ _ ⟨rfl, rfl⟩
  have hlast := hb₁₂.perm (List.Perm.swap payload root held)
  apply (Balance.decref (p := .cell root) hlast).bind
  intro _ h₁₃ hb₁₃
  refine .pure ⟨?_, ?_⟩
  · intro hu hl hp
    rw [setText_of_valid hu, setText_of_valid hl, setText_of_valid hp,
      setText_of_valid (by decide), setText_of_valid (by decide), setText_of_valid (by decide)]
    simp only [Zyre.sendRequest, harray, hobject]
    rfl
  · have hlost := hb₁₃.lose hpayload
    rw [textRefs_of_valid (by decide), textRefs_of_valid (by decide),
      textRefs_of_valid (by decide)] at hlost
    convert hlost using 1
    rw [requestRefs]
    omega

/-- References lost in the branch that sends: two strings, and with the mediator the list of
recipients and those of the request. -/
def bodyRefs (b : ZyreBridge) (uid tmpType : Bytes) : Nat :=
  2 * textRefs tmpType +
    if mediated b tmpType then 1 + requestRefs uid b.inf.node.uuid (ofString "send_remote") else 0

/-- The branch that sends. -/
theorem sendBody_spec {r : Nat} {ms : List (Bytes × Json)}
    (hb : Balance start n h held [(r, ms)] vals) (uid tmpType : Bytes) :
    Ensures (sendBody J b uid tmpType (.cell r)) h fun sent h' ↦
      (∃ sendMsg, sent = .ok sendMsg ∧
        (Json.ValidString uid → Json.ValidString b.inf.node.uuid → Json.ValidString tmpType →
          ∀ st, sendMsg = (Zyre.sendBody J (fun _ ↦ uid) b tmpType (.object ms) st).sendMsg)) ∧
      Balance start (n + bodyRefs b uid tmpType) h' held [] [] := by
  rw [sendBody, bodyRefs]
  by_cases hupdate : strCompare tmpType (ofString "RSGUpdate") = 0
  · obtain rfl := (strCompare_eq_zero_iff _ _).mp hupdate
    have htwo : textRefs (ofString "RSGUpdate") = 1 ∧ textRefs (ofString "RSGUpdate_global") = 1 :=
      ⟨textRefs_of_valid (by decide), textRefs_of_valid (by decide)⟩
    rw [if_pos hupdate]
    apply (hb.setString _ _).bind
    intro _ h₁ hb₁
    apply (hb₁.setString _ _).bind
    intro _ h₂ hb₂
    have hclosed := hb₂.close
    rw [htwo.1, htwo.2] at hclosed
    by_cases hmed : b.config.mediator = 1
    · have hmediated : mediated b (ofString "RSGUpdate") = true := by simp [mediated, hmed]
      rw [if_pos hmed, hmediated, if_pos rfl, htwo.1]
      apply hclosed.array.bind
      rintro _ h₃ ⟨recip, rfl, hrecip, hb₃⟩
      obtain ⟨held', hb₃'⟩ := hb₃.building
      apply ((hb₃'.reads List.mem_cons_self).arraySize hb₃'.counted).bind
      rintro _ _ ⟨rfl, rfl⟩
      rw [if_neg (by simp)]
      refine (sendRequest_spec hb₃ uid b.inf.node.uuid (ofString "send_remote") 1000
        List.mem_cons_self (List.mem_cons_of_mem _ List.mem_cons_self) rfl rfl).bind ?_
      rintro sendMsg h₄ ⟨htext, hb₄⟩
      refine .pure ⟨⟨sendMsg, rfl, ?_⟩, ?_⟩
      · intro hu hl _ st
        rw [htext hu hl (by decide), setText_of_valid (by decide), setText_of_valid (by decide),
          Zyre.sendBody, if_pos hupdate, if_pos hmed]
        rfl
      · convert hb₄.lose hrecip using 1
        omega
    · have hmediated : mediated b (ofString "RSGUpdate") = false := by simp [mediated, hmed]
      rw [if_neg hmed, hmediated, htwo.1]
      apply (hclosed.dumps List.mem_cons_self J).bind
      rintro _ _ ⟨rfl, rfl⟩
      refine .pure ⟨⟨_, rfl, ?_⟩, hclosed.settle⟩
      intro _ _ _ st
      rw [setText_of_valid (by decide), setText_of_valid (by decide), Zyre.sendBody,
        if_pos hupdate, if_neg hmed]
      rfl
  · have hne : tmpType ≠ ofString "RSGUpdate" := fun he ↦
      hupdate ((strCompare_eq_zero_iff _ _).mpr he)
    have hmediated : mediated b tmpType = false := by simp [mediated, hne]
    rw [if_neg hupdate, hmediated]
    apply (hb.setString _ _).bind
    intro _ h₁ hb₁
    apply (hb₁.setString _ _).bind
    intro _ h₂ hb₂
    have hclosed := hb₂.close
    apply (hclosed.dumps List.mem_cons_self J).bind
    rintro _ _ ⟨rfl, rfl⟩
    refine .pure ⟨⟨_, rfl, ?_⟩, ?_⟩
    · intro _ _ ht st
      rw [setText_of_valid ht, setText_of_valid ht, Zyre.sendBody, if_neg hupdate]
      rfl
    · convert hclosed.settle using 1
      simp only [Bool.false_eq_true, ↓reduceIte]
      omega

/-- The type loop sends exactly when some entry of the list differs from the type. -/
theorem typeLoop_eq (uid tmpType : Bytes) (newMsg : Ptr) (types : List Bytes) :
    typeLoop J b uid tmpType newMsg types =
      if ∃ t ∈ types, t ≠ tmpType then sendBody J b uid tmpType newMsg else pure (.ok none) :=
  firstDiffering_eq (f := typeLoop J b uid tmpType newMsg) rfl (fun _ _ ↦ rfl) types

/-- References lost in the type loop. -/
def loopRefs (b : ZyreBridge) (uid tmpType : Bytes) : Nat :=
  if ∃ t ∈ b.inf.outputTypeList, t ≠ tmpType then bodyRefs b uid tmpType else 0

/-- The type loop. -/
theorem typeLoop_spec {r : Nat} {ms : List (Bytes × Json)}
    (hb : Balance start n h held [(r, ms)] vals) (uid tmpType : Bytes) :
    Ensures (typeLoop J b uid tmpType (.cell r) b.inf.outputTypeList) h fun sent h' ↦
      (∃ sendMsg, sent = .ok sendMsg ∧
        (Json.ValidString uid → Json.ValidString b.inf.node.uuid → Json.ValidString tmpType →
          sendMsg = (Zyre.typeLoop J (fun _ ↦ uid) b tmpType (.object ms) b.inf.outputTypeList
            ⟨none, 0⟩).sendMsg)) ∧
      Balance start (n + loopRefs b uid tmpType) h' held [] [] := by
  rw [typeLoop_eq, Zyre.typeLoop_eq, loopRefs]
  by_cases hdiff : ∃ t ∈ b.inf.outputTypeList, t ≠ tmpType
  · rw [if_pos hdiff, if_pos hdiff, if_pos hdiff]
    apply (sendBody_spec hb uid tmpType).mono
    rintro _ h' ⟨⟨sendMsg, rfl, htext⟩, hb'⟩
    exact ⟨⟨sendMsg, rfl, fun hu hl ht ↦ htext hu hl ht _⟩, hb'⟩
  · rw [if_neg hdiff, if_neg hdiff, if_neg hdiff]
    exact .pure ⟨⟨none, rfl, fun _ _ _ ↦ rfl⟩, hb.settle⟩

/-- References lost in an iteration: the one to `"SHERPA"` on every exit but the first, with
those of the type loop, or to the envelope, or to the payload as well. -/
def lostRefs (J : Jansson) (b : ZyreBridge) (uid tmpStr : Bytes) : Nat :=
  match J.loads (cString tmpStr) with
  | none => 0
  | some pl =>
    match pl.objectGet (ofString "@worldmodeltype") with
    | none => 2
    | some ty =>
      match ty.stringValue with
      | none => 3
      | some s => 1 + loopRefs b uid (cString s)

/-- The iteration in the model on values. -/
def outcome (J : Jansson) (b : ZyreBridge) (uid tmpStr : Bytes) :
    Except Fault (Option (Option Bytes)) :=
  match classify J tmpStr with
  | .malformed => .ok none
  | .untyped => .error .stringFromNull
  | .typed pl tmpType => .ok (some (shoutOf J (fun _ ↦ uid) b 0 pl tmpType))

/-- A type that has been read is a valid string. -/
theorem valid_type (hJ : J.Documented) {t : Bytes} {pl ty : Json} {s : Bytes}
    (hpl : J.loads t = some pl) (hty : pl.objectGet (ofString "@worldmodeltype") = some ty)
    (hs : ty.stringValue = some s) : Json.ValidString (cString s) := by
  have hwf : ty.WF J.printed := (hJ.loads_wf _ _ hpl).1.objectGet hty
  cases ty with
  | string s' =>
    obtain rfl := Option.some.inj hs
    cases hwf with
    | string hvalid =>
      rw [cString_eq_self hvalid.1]
      exact hvalid
  | null | bool _ | integer _ | real _ | array _ | object _ => simp [Json.stringValue] at hs

/-- The end of an iteration: both references are given up. -/
theorem sendTyped_spec {newMsg : Nat} {pl : Ptr} {v : Json}
    (hb : Balance start n h (newMsg :: (pl.refs ++ held))
      [(newMsg, [(ofString "payload", v), (ofString "metamodel", .string (ofString "SHERPA"))])]
      vals) (uid tmpType : Bytes) :
    Ensures (sendTyped J b uid tmpType pl (.cell newMsg)) h fun res h' ↦
      (∃ sendMsg, res = .ok (some sendMsg) ∧
        (Json.ValidString uid → Json.ValidString b.inf.node.uuid → Json.ValidString tmpType →
          sendMsg = shoutOf J (fun _ ↦ uid) b 0 v tmpType)) ∧
      Balance start (n + loopRefs b uid tmpType) h' held [] [] := by
  apply (typeLoop_spec hb uid tmpType).bind
  rintro _ h₁ ⟨⟨sendMsg, rfl, htext⟩, hb₁⟩
  have hpl : Balance start _ h₁ (pl.refs ++ (newMsg :: held)) [] [] :=
    hb₁.perm List.perm_middle
  apply hpl.decref.bind
  intro _ h₂ hb₂
  have hnew : Balance start _ h₂ ((Ptr.cell newMsg).refs ++ held) [] [] := hb₂
  apply hnew.decref.bind
  intro _ h₃ hb₃
  refine .pure ⟨⟨sendMsg, rfl, fun hu hl ht ↦ ?_⟩, hb₃⟩
  rw [htext hu hl ht, Zyre.typeLoop_eq, shoutOf]
  by_cases hdiff : ∃ t ∈ b.inf.outputTypeList, t ≠ tmpType
  · have hbody : Zyre.sendBody J (fun _ ↦ uid) b tmpType _ ⟨none, 0⟩ = _ :=
      sendBody_eq v tmpType ⟨none, 0⟩
    rw [if_pos hdiff, if_pos hdiff]
    exact congrArg SendState.sendMsg hbody
  · rw [if_neg hdiff, if_neg hdiff]

/-- An iteration uses no value after its release, whatever the exit, and loses the references
above; it faults on a type that is no string, and on strings that the library takes it sends
what the model on values says. -/
theorem iteration_spec (hb : Balance start n h held [] []) (b : ZyreBridge) (uid tmpStr : Bytes) :
    Ensures (iteration J b uid tmpStr) h fun res h' ↦
      (J.Documented → Json.ValidString uid → Json.ValidString b.inf.node.uuid →
        res = outcome J b uid tmpStr) ∧
      (∀ e, res = .error e → classify J tmpStr = .untyped) ∧
      Balance start (n + lostRefs J b uid tmpStr) h' held [] [] := by
  rw [iteration, outcome, classify, lostRefs]
  cases hloads : J.loads (cString tmpStr) with
  | none =>
    refine Ensures.bind (Q := fun o h' ↦ o = none ∧ h = h')
      ⟨none, h, by simp only [jsonLoads, hloads], rfl, rfl⟩ ?_
    rintro _ _ ⟨rfl, rfl⟩
    exact .pure ⟨fun _ _ _ ↦ rfl, by simp, hb⟩
  | some v =>
    apply (hb.load hloads).bind
    rintro _ h₁ ⟨pl, rfl, hpl, hb₁⟩
    apply hb₁.object.bind
    rintro _ h₂ ⟨newMsg, rfl, hnew, hb₂⟩
    apply (hb₂.set _ List.mem_cons_self).bind
    intro _ h₃ hb₃
    apply (hb₃.setString _ _).bind
    intro _ h₄ hb₄
    rw [textRefs_of_valid (by decide), setText_of_valid (by decide)] at hb₄
    obtain ⟨held', hb₄'⟩ := hb₄.building
    have hread := hb₄'.reads (v := v) (p := pl) List.mem_cons_self
    have hget := hread.objectGet hb₄'.counted (ofString "@worldmodeltype")
    apply hget.bind
    rintro o _ ⟨ho, rfl⟩
    cases hty : v.objectGet (ofString "@worldmodeltype") with
    | none =>
      rw [hty] at ho
      cases ho
      rw [if_pos rfl]
      simp only [hty]
      apply (hb₄.dumps List.mem_cons_self J).bind
      rintro _ _ ⟨rfl, rfl⟩
      -- the envelope keeps its reference to the payload, and nobody gives up the envelope
      refine (hb₄.settle.lose hnew).decref.bind ?_
      intro _ h₅ hb₅
      exact .pure ⟨fun _ _ _ ↦ rfl, by simp, hb₅⟩
    | some ty =>
      rw [hty] at ho
      cases ho
      rw [if_neg (by simp)]
      simp only [hty]
      apply hget.bind
      rintro o' _ ⟨ho', rfl⟩
      rw [hty] at ho'
      cases ho' with
      | some hread' =>
        apply (hread'.stringValue hb₄'.counted).bind
        rintro _ _ ⟨rfl, rfl⟩
        cases hs : ty.stringValue with
        | none =>
          obtain ⟨ms, rfl, -⟩ := Json.objectGet_eq_some hty
          obtain ⟨r, ps, rfl, -⟩ := hread.held
          have hlost := (hb₄.settle.lose hnew).lose (hpl r (by simp [Ptr.refs]))
          exact .pure ⟨fun _ _ _ ↦ rfl, fun _ _ ↦ rfl, hlost⟩
        | some s =>
          apply (sendTyped_spec hb₄ uid (cString s)).mono
          rintro _ h₅ ⟨⟨sendMsg, rfl, htext⟩, hb₅⟩
          refine ⟨fun hJ hu hl ↦ ?_, by simp, ?_⟩
          · rw [htext hu hl (valid_type hJ hloads hty hs)]
          · rwa [Nat.add_assoc] at hb₅

/-- A message that is not decoded creates nothing. -/
theorem iteration_of_loads_none {tmpStr : Bytes} (hloads : J.loads (cString tmpStr) = none)
    (b : ZyreBridge) (uid : Bytes) (h : Heap) :
    iteration J b uid tmpStr h = some (.ok none, h) := by
  change (jsonLoads J (cString tmpStr) h).bind _ = _
  simp only [jsonLoads, hloads]
  rfl

/-- Any other loses a reference, so a value stays. -/
theorem not_released_of_loads {tmpStr : Bytes} {v : Json}
    (hloads : J.loads (cString tmpStr) = some v) (hc : Counted h held) (b : ZyreBridge)
    (uid : Bytes) : Ensures (iteration J b uid tmpStr) h fun _ h' ↦ ¬ h.Released h' := by
  have hbegin : Balance h.cells.length 0 h held [] [] := ⟨[], rfl, by simp, .begin hc⟩
  apply (iteration_spec hbegin b uid tmpStr).mono
  rintro _ h' ⟨-, -, lost, hn, hlost, hb⟩ hreleased
  have hpos : 0 < lost.length := by
    rw [hn, lostRefs, hloads]
    dsimp only
    split
    · omega
    · split
      · omega
      · omega
  obtain ⟨q, hq⟩ := List.exists_mem_of_length_pos hpos
  have hlive := hb.counted.pos_of_held (List.mem_append_left held hq)
  rw [hreleased q (hlost q hq)] at hlive
  exact Nat.lt_irrefl 0 hlive

end

/-- An iteration never uses a value after its release, and every value that it creates has been
released at its end exactly when `json_loads` decodes nothing, so that it creates none. -/
theorem iteration_released_iff (J : Jansson) (b : ZyreBridge) (uid tmpStr : Bytes) {h : Heap}
    {held : List Nat} (hc : Counted h held) :
    ∃ res h', iteration J b uid tmpStr h = some (res, h') ∧
      (h.Released h' ↔ J.loads (cString tmpStr) = none) := by
  cases hloads : J.loads (cString tmpStr) with
  | none =>
    refine ⟨_, _, iteration_of_loads_none hloads b uid h, ?_⟩
    simp only [iff_true]
    intro r hr
    exact RefHeap.refCount_of_le hr
  | some v =>
    obtain ⟨res, h', hrun, hnot⟩ := not_released_of_loads hloads hc b uid
    exact ⟨res, h', hrun, by simpa using hnot⟩

/-- Before the first message nothing is held, and there is nothing to hold. -/
theorem counted_empty : Counted ⟨[]⟩ [] := fun _ ↦ rfl

/-- A query result leaves values behind. -/
theorem result_not_released :
    ∃ res h', iteration .reference testBridge (ofString "1F")
        (ofString "\x7b\"@worldmodeltype\":\"RSGQueryResult\"\x7d") ⟨[]⟩ = some (res, h') ∧
      ¬ RefHeap.Released ⟨[]⟩ h' := by
  have hloads : Jansson.reference.loads
      (cString (ofString "\x7b\"@worldmodeltype\":\"RSGQueryResult\"\x7d")) = some (.object
        [(ofString "@worldmodeltype", .string (ofString "RSGQueryResult"))]) := by rfl
  exact not_released_of_loads hloads counted_empty testBridge (ofString "1F")

/-- The equivalence for an update that goes through the mediator. -/
theorem iteration_released_iff_update :
    ∃ res h', iteration .reference testBridge (ofString "1F")
        (ofString "\x7b\"@worldmodeltype\":\"RSGUpdate\"\x7d") ⟨[]⟩ = some (res, h') ∧
      (RefHeap.Released ⟨[]⟩ h' ↔ Jansson.reference.loads
        (cString (ofString "\x7b\"@worldmodeltype\":\"RSGUpdate\"\x7d")) = none) :=
  iteration_released_iff .reference testBridge (ofString "1F") _ counted_empty

end Ubx.Zyre.Refs
