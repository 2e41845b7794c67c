import Ubx.Json.Members
import Ubx.SendMsg.Envelopes
import Ubx.SendMsg.Results

/-!
# What the component loses

`decode_json`, `handle_shout`, `send_query` and `send_update` on the heap of the library;
`src/zyre_bridge/test/test_send_msg.c:181–330,369–447`. The strings that the calls create in
place are lost, so is the payload of an update that is refused, the root of a message that is
not decoded to its end, and the payload of every result.
-/

namespace Ubx.SendMsg

open Ubx.Base Ubx.Zyre

/-- What can happen to a component: a call, with parameters that its caller makes before and
gives up behind it, or a shout. -/
inductive ComponentAction (J : Jansson)
  | call (call : SendCall J) (uuid : Zuuid)
  | shout (msg : List Bytes)

/-- A component, what its calls have returned, and the actions so far. -/
structure ComponentState (J : Jansson) where
  self : Component
  returned : List (Option Bytes)
  past : List (ComponentAction J)

/-- The component on values. -/
def componentMachine (J : Jansson) (fuel : Nat) :
    Machine (ComponentState J) (ComponentAction J) Stop where
  step s
    | .call call uuid =>
      let (ret, self) := call.send s.self uuid
      .ok ⟨self, s.returned ++ [ret], s.past ++ [.call call uuid]⟩
    | .shout msg =>
      match handleShout J fuel s.self msg with
      | .error f => .error (.fault f)
      | .ok none => .error .notThrough
      | .ok (some self) => .ok ⟨self, s.returned, s.past ++ [.shout msg]⟩

/-- Before the first action. -/
def ComponentState.start {J : Jansson} (self : Component) : ComponentState J := ⟨self, [], []⟩

namespace Refs

open Ubx.Json

section

variable (J : Jansson)

/-! ### Sending -/

/-- `json_object_set(o, key, json_string(value))`. -/
def jsonObjectSetText (o : Ptr) (key : Bytes) : Option Bytes → HeapM Unit
  | none => Json.jsonObjectSet o key none
  | some t => jsonObjectSetString o key t

/-- The parameters are merged into the payload; `test_send_msg.c:245–251,300–306`. -/
def setParams (pl : Ptr) (params : Option Ptr) : HeapM Unit := do
  let size ← jsonObjectSize params
  match params with
  | none => pure ()
  | some params => if 0 < size then setMembersFrom pl params size 0 else pure ()

/-- The end of both functions; `test_send_msg.c:252–274,307–329`. -/
def packQuery (self : Component) (uuid : Zuuid) (pl : Ptr) : HeapM (Bytes × Component) := do
  let env ← jsonObject
  jsonObjectSetString env (ofString "metamodel") (ofString "SHERPA")
  jsonObjectSetString env (ofString "model") (ofString "RSGQuery")
  jsonObjectSetString env (ofString "type") (ofString "RSGQuery")
  Json.jsonObjectSet env (ofString "payload") (some pl)
  let payload ← jsonDumps J pl
  let msg : JsonMsg :=
    { metamodel := some (ofString "SHERPA")
      model := some (ofString "RSGQuery")
      type := some (ofString "RSGQuery")
      payload := some payload }
  let q : Query := ⟨uuid, self.localNode.uuid, msg⟩
  let ret ← jsonDumps J env
  jsonDecref (some env)
  jsonDecref (some pl)
  pure (ret, { self with queryList := self.queryList ++ [q] })

/-- `send_query`; `test_send_msg.c:227–275`. -/
def sendQuery (self : Component) (queryType : Option Bytes) (queryParams : Option Ptr)
    (uuid : Zuuid) : HeapM (Option Bytes × Component) := do
  let pl ← jsonObject
  jsonObjectSetString pl (ofString "@worldmodeltype") (ofString "RSGQuery")
  jsonObjectSetText pl (ofString "query") queryType
  jsonObjectSetString pl (ofString "queryId") uuid.canonical
  setParams pl queryParams
  let (ret, self) ← packQuery J self uuid pl
  pure (some ret, self)

/-- `json_object_get` of a pointer: NULL for NULL. -/
def jsonObjectGet : Option Ptr → Bytes → HeapM (Option Ptr)
  | none, _ => pure none
  | some p, key => Json.jsonObjectGet p key

/-- `send_update`; `test_send_msg.c:277–330`. -/
def sendUpdate (self : Component) (operation : Option Bytes) (updateParams : Option Ptr)
    (uuid : Zuuid) : HeapM (Option Bytes × Component) := do
  let pl ← jsonObject
  jsonObjectSetString pl (ofString "@worldmodeltype") (ofString "RSGUpdate")
  jsonObjectSetText pl (ofString "operation") operation
  jsonObjectSetText pl (ofString "node") operation
  jsonObjectSetString pl (ofString "queryId") uuid.canonical
  let node ← jsonObjectGet updateParams (ofString "node")
  if node = none then pure (none, self)
  else do
    setParams pl updateParams
    let (ret, self) ← packQuery J self uuid pl
    pure (some ret, self)

/-- A call of one of the two. -/
def send (call : SendCall J) (self : Component) (params : Option Ptr) (uuid : Zuuid) :
    HeapM (Option Bytes × Component) :=
  match call with
  | .query queryType _ => sendQuery J self queryType params uuid
  | .update operation _ => sendUpdate J self operation params uuid

/-- The parameters, as their caller makes them. -/
def makeParams : Option Json → HeapM (Option Ptr)
  | none => pure none
  | some v => fun h ↦ some (some (build v h).1, (build v h).2)

/-- A call with parameters that its caller gives up behind it. -/
def callWith (call : SendCall J) (self : Component) (uuid : Zuuid) :
    HeapM (Option Bytes × Component) := do
  let params ← makeParams call.params
  let res ← send J call self params uuid
  jsonDecref params
  pure res

/-! ### Receiving -/

/-- The check of one string member, followed by the rest of the decoder. -/
def stringMember (root : Ptr) (key : Bytes) (result : JsonMsg)
    (next : Bytes → HeapM (Except Fault (Int × JsonMsg))) :
    HeapM (Except Fault (Int × JsonMsg)) := do
  let v ← Json.jsonObjectGet root key
  if v = none then pure (.ok (-1, result))
  else do
    let v ← Json.jsonObjectGet root key
    let s ← jsonStringValue v
    match strdup s with
    | .error f => pure (.error f)
    | .ok s => next s

/-- `decode_json`; `test_send_msg.c:181–225`. The root is given up at the end only. -/
def decodeJson (message : Option Bytes) (result : JsonMsg) :
    HeapM (Except Fault (Int × JsonMsg)) :=
  match message with
  | none => pure (.ok (-1, result))
  | some message => do
    let root ← jsonLoads J message
    match root with
    | none => pure (.ok (-1, result))
    | some root =>
      stringMember root (ofString "metamodel") result fun s ↦
        let result := { result with metamodel := some s }
        stringMember root (ofString "model") result fun s ↦
          let result := { result with model := some s }
          stringMember root (ofString "type") result fun s ↦ do
            let result := { result with type := some s }
            let p ← Json.jsonObjectGet root (ofString "payload")
            if p = none then pure (.ok (-1, result))
            else do
              let t ← jsonDumpsMember J root (ofString "payload")
              match strdup t with
              | .error f => pure (.error f)
              | .ok t => do
                jsonDecref (some root)
                pure (.ok (0, { result with payload := some t }))

/-- The loop over `query_list`; `test_send_msg.c:387–397`. The id is looked up for every
comparison. -/
def searchLoop (payload : Ptr) : Nat → Nat → List Query →
    HeapM (Except Fault (Option (List Query)))
  | 0, _, _ => pure (.ok none)
  | fuel + 1, it, list =>
    match list[it]? with
    | none => pure (.ok (some list))
    | some q => do
      let queryId ← Json.jsonObjectGet payload (ofString "queryId")
      let queryId ← jsonStringValue queryId
      match streq (some q.uid.canonical) queryId with
      | .error f => pure (.error f)
      | .ok true => pure (.ok (some (list.eraseIdx it)))
      | .ok false => searchLoop payload fuel it list

/-- The branch for a result type. The payload is never given up. -/
def resultBranch (fuel : Nat) (result : JsonMsg) (self : Component) :
    HeapM (Except Fault (Option Component)) :=
  match result.payload with
  | none => pure (.ok (some self))
  | some text => do
    let payload ← jsonLoads J text
    match payload with
    | none => pure (.ok (some self))
    | some payload => do
      let list ← searchLoop payload fuel 0 self.queryList
      pure (list.map fun list ↦ list.map fun list ↦ { self with queryList := list })

/-- `handle_shout`, once the event is popped; `test_send_msg.c:369–447`. -/
def handleShout (fuel : Nat) (self : Component) (msg : List Bytes) :
    HeapM (Except Fault (Option Component)) :=
  if msg.length ≠ 4 then pure (.error .assertFailed)
  else do
    let (_peerid, msg) := zmsgPopstr msg
    let (_name, msg) := zmsgPopstr msg
    let (_group, msg) := zmsgPopstr msg
    let (message, _) := zmsgPopstr msg
    let decoded ← decodeJson J message .zero
    match decoded with
    | .error f => pure (.error f)
    | .ok (rc, result) =>
      if rc = 0 then
        match streq result.type (some (ofString "RSGUpdateResult")) with
        | .error f => pure (.error f)
        | .ok true => resultBranch J fuel result self
        | .ok false =>
          match streq result.type (some (ofString "RSGQueryResult")) with
          | .error f => pure (.error f)
          | .ok true => resultBranch J fuel result self
          | .ok false =>
            match streq result.type (some (ofString "RSGFunctionBlockResult")) with
            | .error f => pure (.error f)
            | .ok true => resultBranch J fuel result self
            | .ok false => pure (.ok (some self))
      else pure (.ok (some self))

/-- An action of the component. -/
def componentStep (fuel : Nat) (s : ComponentState J) :
    ComponentAction J → HeapM (Except Stop (ComponentState J))
  | .call call uuid => do
    let (ret, self) ← callWith J call s.self uuid
    pure (.ok ⟨self, s.returned ++ [ret], s.past ++ [.call call uuid]⟩)
  | .shout msg => do
    let res ← handleShout J fuel s.self msg
    match res with
    | .error f => pure (.error (.fault f))
    | .ok none => pure (.error .notThrough)
    | .ok (some self) => pure (.ok ⟨self, s.returned, s.past ++ [.shout msg]⟩)

end

/-! ### What the calls lose -/

section

variable {J : Jansson} {start n : Nat} {h : Heap} {held : List Nat}
  {opens : List (Nat × List (Bytes × Json))} {vals : List (Json × Ptr)} {r : Nat}
  {ms : List (Bytes × Json)}

/-- Members with a text that may be NULL. -/
def setOption (key : Bytes) (value : Option Bytes) (ms : List (Bytes × Json)) :
    List (Bytes × Json) :=
  match value with
  | none => ms
  | some t => setText key t ms

/-- The references that are lost with it. -/
def optionRefs (value : Option Bytes) : Nat := value.elim 0 textRefs

/-- The model on values sets the same members. -/
theorem jsonObjectSet_eq (key : Bytes) (value : Option Bytes) (ms : List (Bytes × Json)) :
    SendMsg.jsonObjectSet (.object ms) key (SendMsg.jsonString value) =
      .object (setOption key value ms) := by
  cases value with
  | none => rfl
  | some t =>
    rw [SendMsg.jsonString, Option.bind_some, setOption, setText]
    split <;> rfl

/-- `json_object_set` with a string that may be NULL. -/
theorem jsonObjectSetText_spec (hb : Balance start n h held ((r, ms) :: opens) vals) (key : Bytes)
    (value : Option Bytes) :
    Ensures (jsonObjectSetText (.cell r) key value) h fun _ h' ↦
      Balance start (n + optionRefs value) h' held ((r, setOption key value ms) :: opens) vals := by
  cases value with
  | none => exact .pure hb
  | some t => exact hb.setString key t

/-- Pointers to the parameters, or NULL. -/
abbrev ParamsIn (vals : List (Json × Ptr)) : Option Json → Option Ptr → Prop :=
  Option.Rel fun v p ↦ (v, p) ∈ vals

/-- Members of the parameters. -/
def paramMembers (params : Option Json) : List (Bytes × Json) := params.elim [] members

/-- They are what the model on values merges. -/
theorem setParams_eq (ms : List (Bytes × Json)) (params : Option Json) :
    SendMsg.setParams (.object ms) params = .object (Json.merge ms (paramMembers params)) := by
  cases params with
  | none => rfl
  | some v => cases v <;> rfl

/-- The merge loses nothing. -/
theorem setParams_spec (hb : Balance start n h held ((r, ms) :: opens) vals) {v : Option Json}
    {p : Option Ptr} (hp : ParamsIn vals v p) :
    Ensures (setParams (.cell r) p) h fun _ h' ↦
      Balance start n h' held ((r, Json.merge ms (paramMembers v)) :: opens) vals := by
  cases hp with
  | none => exact .pure hb
  | @some v p hmem =>
    obtain ⟨hr, -, held', hc⟩ := hb.reads hmem
    apply (hr.objectSize hc).bind
    rintro _ _ ⟨rfl, rfl⟩
    show Ensures (if 0 < (members v).length then _ else _) _ _
    cases v with
    | object ps =>
      cases ps with
      | nil => exact .pure hb
      | cons m ps =>
        rw [if_pos (by simp [members])]
        exact hb.setMembers hmem
    | null | bool _ | integer _ | real _ | string _ | array _ => exact .pure hb

/-- The envelope takes three strings, and gives up all else. -/
theorem packQuery_spec (hb : Balance start n h (r :: held) [(r, ms)] vals) (self : Component)
    (uuid : Zuuid) :
    Ensures (packQuery J self uuid (.cell r)) h fun res h' ↦
      res = SendMsg.packQuery J self uuid (.object ms) ∧ Balance start (n + 3) h' held [] [] := by
  apply hb.close.object.bind
  rintro _ h₁ ⟨env, rfl, -, hb₁⟩
  apply (hb₁.setString _ _).bind
  intro _ h₂ hb₂
  apply (hb₂.setString _ _).bind
  intro _ h₃ hb₃
  apply (hb₃.setString _ _).bind
  intro _ h₄ hb₄
  apply (hb₄.set _ List.mem_cons_self).bind
  intro _ h₅ hb₅
  have hclosed := hb₅.close
  apply (hclosed.dumps (List.mem_cons_of_mem _ List.mem_cons_self) J).bind
  rintro _ _ ⟨rfl, rfl⟩
  apply (hclosed.dumps List.mem_cons_self J).bind
  rintro _ _ ⟨rfl, rfl⟩
  apply (Balance.decref (p := .cell env) hclosed).bind
  intro _ h₆ hb₆
  apply (Balance.decref (p := .cell r) hb₆).bind
  intro _ h₇ hb₇
  refine .pure ⟨?_, ?_⟩
  · simp only [SendMsg.packQuery, jsonObjectSet_eq, setOption]
    rfl
  · rwa [textRefs_of_valid (by decide), textRefs_of_valid (by decide)] at hb₇

/-- References lost in a call: those to the strings, and to the payload of an update that is
refused. -/
def callRefs (call : SendCall J) : Nat :=
  match call with
  | .query queryType _ => 5 + optionRefs queryType
  | .update operation _ => (if call.refused then 3 else 5) + 2 * optionRefs operation

/-- `send_query` returns what the model on values says. -/
theorem sendQuery_spec (hb : Balance start n h held [] vals) {v : Option Json} {p : Option Ptr}
    (hp : ParamsIn vals v p) (self : Component) (queryType : Option Bytes) (uuid : Zuuid) :
    Ensures (sendQuery J self queryType p uuid) h fun res h' ↦
      res = SendMsg.sendQuery J self queryType v uuid ∧
        Balance start (n + (5 + optionRefs queryType)) h' held [] [] := by
  apply hb.object.bind
  rintro _ h₁ ⟨pl, rfl, -, hb₁⟩
  apply (hb₁.setString _ _).bind
  intro _ h₂ hb₂
  apply (jsonObjectSetText_spec hb₂ _ queryType).bind
  intro _ h₃ hb₃
  apply (hb₃.setString _ _).bind
  intro _ h₄ hb₄
  apply (setParams_spec hb₄ hp).bind
  intro _ h₅ hb₅
  apply (packQuery_spec hb₅ self uuid).bind
  rintro _ h₆ ⟨rfl, hb₆⟩
  refine .pure ⟨?_, ?_⟩
  · simp only [SendMsg.sendQuery, queryPayload, jsonObjectSet_eq, setParams_eq]
    rfl
  · rw [textRefs_of_valid uuid.valid, textRefs_of_valid (by decide)] at hb₆
    convert hb₆ using 1
    omega

/-- `json_object_get` of the parameters. -/
theorem jsonObjectGet_spec (hb : Balance start n h held opens vals) {v : Option Json}
    {p : Option Ptr} (hp : ParamsIn vals v p) (key : Bytes) :
    Ensures (jsonObjectGet p key) h fun o h' ↦
      o.isSome = (SendMsg.jsonObjectGet v key).isSome ∧ h = h' := by
  cases hp with
  | none => exact .pure ⟨rfl, rfl⟩
  | @some v p hmem =>
    apply (hb.member hmem key).mono
    rintro o _ ⟨ho, rfl⟩
    refine ⟨?_, rfl⟩
    show o.isSome = (v.objectGet key).isSome
    generalize v.objectGet key = w at ho ⊢
    cases ho <;> rfl

/-- So does `send_update`. -/
theorem sendUpdate_spec (hb : Balance start n h held [] vals) {v : Option Json} {p : Option Ptr}
    (hp : ParamsIn vals v p) (self : Component) (operation : Option Bytes) (uuid : Zuuid) :
    Ensures (sendUpdate J self operation p uuid) h fun res h' ↦
      res = SendMsg.sendUpdate J self operation v uuid ∧
        Balance start (n + ((if (SendMsg.jsonObjectGet v (ofString "node")).isNone then 3 else 5) +
          2 * optionRefs operation)) h' held [] [] := by
  apply hb.object.bind
  rintro _ h₁ ⟨pl, rfl, hpl, hb₁⟩
  apply (hb₁.setString _ _).bind
  intro _ h₂ hb₂
  apply (jsonObjectSetText_spec hb₂ _ operation).bind
  intro _ h₃ hb₃
  apply (jsonObjectSetText_spec hb₃ _ operation).bind
  intro _ h₄ hb₄
  apply (hb₄.setString _ _).bind
  intro _ h₅ hb₅
  rw [textRefs_of_valid uuid.valid, textRefs_of_valid (by decide)] at hb₅
  apply (jsonObjectGet_spec hb₅ hp (ofString "node")).bind
  rintro node _ ⟨hnode, rfl⟩
  rw [SendMsg.sendUpdate]
  cases hv : SendMsg.jsonObjectGet v (ofString "node") with
  | none =>
    rw [hv] at hnode
    obtain rfl := Option.isSome_eq_false_iff.mp hnode |> Option.isNone_iff_eq_none.mp
    refine .pure ⟨rfl, ?_⟩
    convert hb₅.settle.lose hpl using 1
    simp only [Option.isNone_none, if_true]
    omega
  | some w =>
    rw [hv] at hnode
    have hne : node ≠ none := by
      rintro rfl
      cases hnode
    rw [if_neg hne, if_neg (by simp)]
    apply (setParams_spec hb₅ hp).bind
    intro _ h₆ hb₆
    apply (packQuery_spec hb₆ self uuid).bind
    rintro _ h₇ ⟨rfl, hb₇⟩
    refine .pure ⟨?_, ?_⟩
    · simp only [updatePayload, jsonObjectSet_eq, setParams_eq]
      rfl
    · convert hb₇ using 1
      simp only [Option.isNone_some, Bool.false_eq_true, if_false]
      omega

/-- A call, with the parameters that its caller makes and gives up. -/
theorem call_spec (hc : Counted h held) (call : SendCall J) (self : Component) (uuid : Zuuid) :
    Ensures (callWith J call self uuid) h fun res h' ↦
      res = call.send self uuid ∧ Balance h.cells.length (callRefs call) h' held [] [] := by
  have hmake : Ensures (makeParams call.params) h fun p h' ↦ ∃ vals,
      ParamsIn vals call.params p ∧
        Balance h.cells.length 0 h' (p.elim [] Ptr.refs ++ held) [] vals := by
    cases call.params with
    | none => exact .pure ⟨[], .none, [], rfl, by simp, .begin hc⟩
    | some v =>
      obtain ⟨-, hb⟩ := (Building.begin hc).build v
      exact ⟨_, _, rfl, _, .some List.mem_cons_self, [], rfl, by simp, hb⟩
  have hdecref {p : Option Ptr} {h₁ : Heap} {n : Nat}
      (hb : Balance h.cells.length n h₁ (p.elim [] Ptr.refs ++ held) [] []) :
      Ensures (jsonDecref p) h₁ fun _ h' ↦ Balance h.cells.length n h' held [] [] := by
    cases p with
    | none => exact .pure hb
    | some p => exact hb.decref
  apply hmake.bind
  rintro p h₁ ⟨vals, hp, hb₁⟩
  cases call with
  | query queryType ps =>
    apply (sendQuery_spec hb₁ hp self queryType uuid).bind
    rintro _ h₂ ⟨rfl, hb₂⟩
    apply (hdecref hb₂).bind
    intro _ h₃ hb₃
    refine .pure ⟨rfl, ?_⟩
    rwa [Nat.zero_add] at hb₃
  | update operation ps =>
    apply (sendUpdate_spec hb₁ hp self operation uuid).bind
    rintro _ h₂ ⟨rfl, hb₂⟩
    apply (hdecref hb₂).bind
    intro _ h₃ hb₃
    refine .pure ⟨rfl, ?_⟩
    rwa [Nat.zero_add] at hb₃

/-! ### What the shouts lose -/

/-- The root is lost on every exit of the decoder but the last. -/
def decodedRefs : Except Fault (Int × JsonMsg) → Nat
  | .ok (rc, _) => if rc = 0 then 0 else 1
  | .error _ => 1

variable {v : Json} {p : Ptr}

/-- The check of a string member. -/
theorem stringMember_spec (hb : Balance start n h (r :: held) [] [(v, .cell r)]) (hr : start ≤ r)
    (key : Bytes) (result : JsonMsg) {next : Bytes → HeapM (Except Fault (Int × JsonMsg))}
    {next' : Bytes → Except Fault (Int × JsonMsg)}
    (hnext : ∀ s, Ensures (next s) h fun res h' ↦
      res = next' s ∧ Balance start (n + decodedRefs res) h' held [] []) :
    Ensures (stringMember (.cell r) key result next) h fun res h' ↦
      res = SendMsg.stringMember v key result next' ∧
        Balance start (n + decodedRefs res) h' held [] [] := by
  have hlost := hb.settle.lose hr
  have hmember := hb.member List.mem_cons_self key
  obtain ⟨-, -, held', hc⟩ := hb.reads List.mem_cons_self
  apply hmember.bind
  rintro o _ ⟨ho, rfl⟩
  rw [SendMsg.stringMember]
  generalize v.objectGet key = w at ho hmember ⊢
  cases ho with
  | none => exact .pure ⟨rfl, hlost⟩
  | @some w q hread =>
    rw [if_neg (by simp)]
    apply hmember.bind
    rintro o _ ⟨ho, rfl⟩
    cases ho with
    | some hread =>
      apply (hread.stringValue hc).bind
      rintro s _ ⟨rfl, rfl⟩
      dsimp only
      generalize w.stringValue = s
      cases s with
      | none => exact .pure ⟨rfl, hlost⟩
      | some s => exact hnext (cString s)

/-- The decoder. -/
theorem decodeJson_spec (hJ : J.Documented) (hb : Balance start n h held [] [])
    (message : Option Bytes) :
    Ensures (decodeJson J message .zero) h fun res h' ↦
      res = SendMsg.decodeJson J message .zero ∧
        Balance start (n + if (J.jsonLoads message).isSome then decodedRefs res else 0) h' held
          [] [] := by
  cases message with
  | none => exact .pure ⟨rfl, hb⟩
  | some message =>
    rw [SendMsg.decodeJson, Jansson.jsonLoads, Option.bind_some]
    cases hm : J.loads message with
    | none =>
      have hload : Ensures (jsonLoads J message) h fun o h' ↦ o = none ∧ h = h' :=
        ⟨none, h, by simp only [jsonLoads, hm], rfl, rfl⟩
      apply hload.bind
      rintro _ _ ⟨rfl, rfl⟩
      exact .pure ⟨rfl, hb⟩
    | some root =>
      apply (hb.load hm).bind
      rintro _ h₁ ⟨p, rfl, hp, hb₁⟩
      obtain ⟨r, rfl⟩ := exists_cell hJ hm (hb₁.reads List.mem_cons_self).1
      have hfresh := hp r (by simp [Ptr.refs])
      simp only [Option.isSome_some, if_true]
      apply stringMember_spec hb₁ hfresh
      intro s
      apply stringMember_spec hb₁ hfresh
      intro s
      apply stringMember_spec hb₁ hfresh
      intro s
      apply (hb₁.member List.mem_cons_self (ofString "payload")).bind
      rintro o _ ⟨ho, rfl⟩
      have hdump := hb₁.dumpsMember List.mem_cons_self J (ofString "payload")
      generalize root.objectGet (ofString "payload") = w at ho hdump ⊢
      cases ho with
      | none => exact .pure ⟨rfl, hb₁.settle.lose hfresh⟩
      | @some w q hread =>
        rw [if_neg (by simp)]
        apply hdump.bind
        rintro _ _ ⟨rfl, rfl⟩
        apply (Balance.decref (p := .cell r) hb₁).bind
        intro _ h₂ hb₂
        exact .pure ⟨rfl, hb₂⟩

/-- The walk over the list reads the payload only. -/
theorem searchLoop_spec (hr : Reads h v p) (hc : Counted h held) (fuel it : Nat)
    (list : List Query) :
    Ensures (searchLoop p fuel it list) h fun res h' ↦
      res = SendMsg.searchLoop ((v.objectGet (ofString "queryId")).bind Json.stringValue) fuel it
        list ∧ h = h' := by
  induction fuel generalizing it list with
  | zero => exact .pure ⟨rfl, rfl⟩
  | succ fuel ih =>
    rw [searchLoop, SendMsg.searchLoop]
    cases hq : list[it]? with
    | none => exact .pure ⟨rfl, rfl⟩
    | some q =>
      have hid : Ensures (Json.jsonObjectGet p (ofString "queryId") >>= jsonStringValue) h
          fun s h' ↦ s = (v.objectGet (ofString "queryId")).bind Json.stringValue ∧ h = h' := by
        apply (hr.objectGet hc _).bind
        rintro o _ ⟨ho, rfl⟩
        generalize v.objectGet (ofString "queryId") = w at ho ⊢
        cases ho with
        | none => exact .pure ⟨rfl, rfl⟩
        | some hread => exact hread.stringValue hc
      dsimp only
      rw [← bind_assoc]
      apply hid.bind
      rintro s _ ⟨rfl, rfl⟩
      generalize (v.objectGet (ofString "queryId")).bind Json.stringValue = s at ih ⊢
      cases s with
      | none => exact .pure ⟨rfl, rfl⟩
      | some s =>
        dsimp only [streq, Bind.bind, Except.bind]
        cases decide (cString q.uid.canonical = cString s) with
        | true => exact .pure ⟨rfl, rfl⟩
        | false => exact ih it list

/-- The branch for a result loses its payload. -/
theorem resultBranch_spec (hJ : J.Documented) (hb : Balance start n h held [] []) (fuel : Nat)
    (result : JsonMsg) (self : Component) :
    Ensures (resultBranch J fuel result self) h fun res h' ↦
      res = SendMsg.resultBranch J fuel result self ∧
        Balance start (n + (J.jsonLoads result.payload).isSome.toNat) h' held [] [] := by
  rw [resultBranch, SendMsg.resultBranch]
  cases result.payload with
  | none => exact .pure ⟨rfl, hb⟩
  | some text =>
    rw [Jansson.jsonLoads, Option.bind_some]
    cases hm : J.loads text with
    | none =>
      have hload : Ensures (jsonLoads J text) h fun o h' ↦ o = none ∧ h = h' :=
        ⟨none, h, by simp only [jsonLoads, hm], rfl, rfl⟩
      apply hload.bind
      rintro _ _ ⟨rfl, rfl⟩
      exact .pure ⟨rfl, hb⟩
    | some v =>
      apply (hb.load hm).bind
      rintro _ h₁ ⟨p, rfl, hp, hb₁⟩
      obtain ⟨hread, -, held', hc⟩ := hb₁.reads List.mem_cons_self
      obtain ⟨r, rfl⟩ := exists_cell hJ hm hread
      apply (searchLoop_spec hread hc fuel 0 self.queryList).bind
      rintro _ _ ⟨rfl, rfl⟩
      refine .pure ⟨?_, hb₁.settle.lose (hp r (by simp [Ptr.refs]))⟩
      dsimp only
      cases SendMsg.searchLoop ((v.objectGet (ofString "queryId")).bind Json.stringValue) fuel 0
        self.queryList with
      | error f => rfl
      | ok list => rfl

/-- A message of a result type. -/
def isResult (result : JsonMsg) : Bool := (result.type.map cString).any resultTypes.contains

/-- References lost behind the decoder. -/
def branchRefs (J : Jansson) : Except Fault (Int × JsonMsg) → Nat
  | .ok (rc, result) =>
    if rc = 0 ∧ isResult result = true then (J.jsonLoads result.payload).isSome.toNat else 0
  | .error _ => 0

/-- References lost with a shout: to the root, if the decoder leaves it behind, or to the payload
of a result. -/
def shoutRefs (J : Jansson) (msg : List Bytes) : Nat :=
  if msg.length ≠ 4 then 0
  else
    let message := msg[3]?.map cString
    let decoded := SendMsg.decodeJson J message .zero
    (if (J.jsonLoads message).isSome then decodedRefs decoded else 0) + branchRefs J decoded

/-- A shout. -/
theorem handleShout_spec (hJ : J.Documented) (hc : Counted h held) (fuel : Nat) (self : Component)
    (msg : List Bytes) :
    Ensures (handleShout J fuel self msg) h fun res h' ↦
      res = SendMsg.handleShout J fuel self msg ∧
        Balance h.cells.length (shoutRefs J msg) h' held [] [] := by
  have hbegin : Balance h.cells.length 0 h held [] [] := ⟨[], rfl, by simp, .begin hc⟩
  rw [handleShout, SendMsg.handleShout, shoutRefs]
  by_cases hlen : msg.length ≠ 4
  · rw [if_pos hlen, if_pos hlen, if_pos hlen]
    exact .pure ⟨rfl, hbegin⟩
  · rw [if_neg hlen, if_neg hlen, if_neg hlen]
    obtain ⟨a, b, c, d, rfl⟩ : ∃ a b c d, msg = [a, b, c, d] := by
      rcases msg with _ | ⟨a, _ | ⟨b, _ | ⟨c, _ | ⟨d, _ | _⟩⟩⟩⟩
      all_goals simp at hlen
      exact ⟨a, b, c, d, rfl⟩
    show Ensures (decodeJson J (some (cString d)) .zero >>= _) h fun res h' ↦
      res = (SendMsg.decodeJson J (some (cString d)) .zero >>= _) ∧ _
    apply (decodeJson_spec hJ hbegin (some (cString d))).bind
    rintro res h₁ ⟨hres, hb₁⟩
    simp only [List.getElem?_cons_succ, List.getElem?_cons_zero, Option.map_some, ← hres,
      Nat.zero_add] at hb₁ ⊢
    generalize (if (J.jsonLoads (some (cString d))).isSome = true then decodedRefs res else 0) = k
      at hb₁ ⊢
    cases res with
    | error f => exact .pure ⟨rfl, hb₁⟩
    | ok decoded =>
      obtain ⟨rc, result⟩ := decoded
      dsimp only [Bind.bind, Except.bind]
      have hbranch := resultBranch_spec hJ hb₁ fuel result self
      rw [branchRefs]
      by_cases hrc : rc = 0
      · simp only [hrc, if_true, true_and]
        cases hty : result.type with
        | none => exact .pure ⟨rfl, by rwa [isResult, hty]⟩
        | some ty =>
          have hstreq {t : Bytes} (ht : cString t = t) :
              streq (some ty) (some t) = .ok (decide (cString ty = t)) := by
            rw [streq, ht]
          have hresult : isResult result = (decide (cString ty = ofString "RSGUpdateResult") ||
              decide (cString ty = ofString "RSGQueryResult") ||
              decide (cString ty = ofString "RSGFunctionBlockResult")) := by
            simp [isResult, hty, resultTypes, Bool.or_assoc]
          rw [hstreq (t := ofString "RSGUpdateResult") (by decide),
            hstreq (t := ofString "RSGQueryResult") (by decide),
            hstreq (t := ofString "RSGFunctionBlockResult") (by decide), hresult]
          cases decide (cString ty = ofString "RSGUpdateResult") with
          | true => exact hbranch
          | false =>
            cases decide (cString ty = ofString "RSGQueryResult") with
            | true => exact hbranch
            | false =>
              cases decide (cString ty = ofString "RSGFunctionBlockResult") with
              | true => exact hbranch
              | false => exact .pure ⟨rfl, hb₁⟩
      · simp only [hrc, if_false, false_and]
        exact .pure ⟨rfl, hb₁⟩

/-! ### Runs -/

/-- References lost in an action. -/
def actionRefs (J : Jansson) : ComponentAction J → Nat
  | .call call _ => callRefs call
  | .shout msg => shoutRefs J msg

/-- What is known of the heap after the actions so far. -/
def LostIn (J : Jansson) (h₀ : Heap) (held : List Nat) (s : ComponentState J) (h : Heap) : Prop :=
  Lost h₀ (s.past.map (actionRefs J)).sum (s.past.countP (0 < actionRefs J ·)) h held

/-- One more action. -/
theorem LostIn.concat {h₀ h' : Heap} {s : ComponentState J} {self : Component}
    {returned : List (Option Bytes)} {a : ComponentAction J}
    (hl : Lost h₀ ((s.past.map (actionRefs J)).sum + actionRefs J a)
      (s.past.countP (0 < actionRefs J ·) + min (actionRefs J a) 1) h' held) :
    LostIn J h₀ held ⟨self, returned, s.past ++ [a]⟩ h' := by
  have hmin : min (actionRefs J a) 1 = if 0 < actionRefs J a then 1 else 0 := by
    split <;> omega
  rw [hmin] at hl
  simpa [LostIn, List.countP_append, List.countP_singleton] using hl

/-- An action of the component on the heap. -/
theorem componentStep_spec (hJ : J.Documented) (fuel : Nat) {h₀ : Heap} (s : ComponentState J)
    (a : ComponentAction J) (h : Heap) (hl : LostIn J h₀ held s h) :
    Ensures (componentStep J fuel s a) h fun res h' ↦
      res = (componentMachine J fuel).step s a ∧
        ∀ s', res = .ok s' → LostIn J h₀ held s' h' := by
  cases a with
  | call call uuid =>
    have hnext := Lost.next (m := callRefs call) (Q := fun res _ ↦ res = call.send s.self uuid) hl
      fun held hc ↦ call_spec hc call s.self uuid
    apply hnext.bind
    rintro _ h' ⟨rfl, hlost⟩
    refine .pure ⟨rfl, fun s' hs ↦ ?_⟩
    obtain rfl := Except.ok.inj hs
    exact .concat hlost
  | shout msg =>
    have hnext := Lost.next (Q := fun res _ ↦ res = SendMsg.handleShout J fuel s.self msg) hl
      fun held hc ↦ handleShout_spec hJ hc fuel s.self msg
    apply hnext.bind
    rintro _ h' ⟨rfl, hlost⟩
    rw [componentMachine]
    dsimp only
    generalize SendMsg.handleShout J fuel s.self msg = res
    rcases res with f | _ | self
    · exact .pure ⟨rfl, by simp⟩
    · exact .pure ⟨rfl, by simp⟩
    · refine .pure ⟨rfl, fun s' hs ↦ ?_⟩
      obtain rfl := Except.ok.inj hs
      exact .concat hlost

end

end Refs

open Ubx.Json

/-- The history of a component is its actions. -/
theorem past_of_run {J : Jansson} {fuel : Nat} {self : Component} {acts : List (ComponentAction J)}
    {s : ComponentState J} (hr : (componentMachine J fuel).run (.start self) acts = .ok s) :
    s.past = acts := by
  refine Machine.run_history (P := fun acts s ↦ s.past = acts) rfl ?_ hr
  rintro as s a t - rfl hs
  cases a with
  | call call uuid =>
    obtain rfl := Except.ok.inj hs
    rfl
  | shout msg =>
    simp only [componentMachine] at hs
    split at hs
    · cases hs
    · cases hs
    · obtain rfl := Except.ok.inj hs
      rfl

/-- A component runs on the heap as it does on values, for any calls with any parameters and any
shouts, and uses no value after its release, not even before a fault. It loses five references
with a query and one with its type, five with an update, or three if that is refused, and two
with its operation, one with a message that is decoded in part, and one with a result whose
payload is an array or object; each of these actions leaves a value behind that nobody gives
up. -/
theorem component_losses {J : Jansson} (hJ : J.Documented) {h : Heap} {held : List Nat}
    (hc : Counted h held) (self : Component) (fuel : Nat) (acts : List (ComponentAction J)) :
    (∀ f, (componentMachine J fuel).run (.start self) acts = .error f →
      (heapMachine (Refs.componentStep J fuel)).run (h, .start self) acts = .error (.fault f)) ∧
    ∀ s, (componentMachine J fuel).run (.start self) acts = .ok s →
      ∃ h', ∃ lost left : List Nat,
        (heapMachine (Refs.componentStep J fuel)).run (h, .start self) acts = .ok (h', s) ∧
        Counted h' (lost ++ held) ∧ (∀ q ∈ lost, h.cells.length ≤ q) ∧
        lost.length = (acts.map (Refs.actionRefs J)).sum ∧
        left.Nodup ∧ left.length = acts.countP (0 < Refs.actionRefs J ·) ∧
        ∀ q ∈ left, h.cells.length ≤ q ∧ 0 < h'.refCount q := by
  have hbegin : Refs.LostIn J h held (.start self) h := (Leaks.begin hc).toLost
  have hagrees := heapMachine_agrees (M := componentMachine J fuel) (s := .start self)
    (L := Refs.LostIn J h held) (Refs.componentStep_spec hJ fuel) hbegin acts
  have hpast (s : ComponentState J)
      (hr : (componentMachine J fuel).run (.start self) acts = .ok s) : s.past = acts :=
    past_of_run hr
  generalize (componentMachine J fuel).run (.start self) acts = x at hagrees hpast ⊢
  generalize (heapMachine (Refs.componentStep J fuel)).run (h, .start self) acts = y at hagrees ⊢
  cases hagrees with
  | error f => exact ⟨fun g hg ↦ Except.error.inj hg ▸ rfl, by simp⟩
  | @ok s t hst =>
    obtain ⟨h', s'⟩ := t
    obtain ⟨rfl, -, lost, hn, hfresh, hcounted, left, hsub, hnodup, hk⟩ := hst
    refine ⟨by simp, fun s hs ↦ ?_⟩
    obtain rfl := Except.ok.inj hs
    rw [hpast s' rfl] at hn hk
    refine ⟨h', lost, left, rfl, hcounted, hfresh, hn, hnodup, hk, fun q hq ↦ ?_⟩
    exact ⟨hfresh q (hsub hq), hcounted.pos_of_held (List.mem_append_left held (hsub hq))⟩

/-- A query, an update without parameters, and a message without a payload. -/
def lossyActions : List (ComponentAction .reference) :=
  [.call (.query (some (ofString "GET_ROOT_NODE")) none) testUuid,
    .call (.update (some (ofString "CREATE")) none) testUuid,
    .shout [ofString "1B", ofString "peer", ofString "local",
      ofString "\x7b\"metamodel\":\"\",\"model\":\"\",\"type\":\"\"\x7d"]]

set_option maxRecDepth 20000 in
/-- They cost twelve references, and three values are left behind. -/
theorem component_losses_lossy :
    ∃ s h', ∃ lost left : List Nat,
      (heapMachine (Refs.componentStep .reference 1)).run (⟨[]⟩, .start idleComponent)
        lossyActions = .ok (h', s) ∧
      lost.length = 12 ∧ Counted h' (lost ++ []) ∧ left.length = 3 ∧
      ∀ q ∈ left, 0 ≤ q ∧ 0 < h'.refCount q := by
  have hrun : ∃ s, (componentMachine .reference 1).run (.start idleComponent) lossyActions =
      .ok s := ⟨_, rfl⟩
  have hlost : (lossyActions.map (Refs.actionRefs .reference)).sum = 12 := rfl
  have hleft : lossyActions.countP (0 < Refs.actionRefs .reference ·) = 3 := rfl
  have hempty : Counted (⟨[]⟩ : Heap) [] := fun _ ↦ rfl
  obtain ⟨s, hr⟩ := hrun
  obtain ⟨h', lost, left, hheap, hc, -, hn, -, hk, hlive⟩ :=
    (component_losses Jansson.reference_documented hempty idleComponent 1 lossyActions).2 s hr
  exact ⟨s, h', lost, left, hheap, hn.trans hlost, hc, hk.trans hleft, hlive⟩

end Ubx.SendMsg
