import Ubx.Zyre.Actor

/-!
# The example component: what it receives

Receiving side of `src/zyre_bridge/test/test_send_msg.c:6–33,181–225,369–447`. A list walk
that may not end runs on fuel; `none` means that it is not through yet. Output to the
console is left out.
-/

namespace Ubx.SendMsg

open Ubx.Base Ubx.Zyre

/-- Behaviour the C standard leaves undefined, or an abort. -/
inductive Fault
  /-- `strdup` of NULL. -/
  | strdupNull
  /-- `streq` of NULL. -/
  | streqNull
  /-- A failed assertion. -/
  | assertFailed
  deriving DecidableEq, Repr

/-- `json_msg_t`; a field that has not been written is NULL. -/
structure JsonMsg where
  metamodel : Option Bytes
  model : Option Bytes
  type : Option Bytes
  payload : Option Bytes

/-- Fresh memory from `zmalloc`. -/
def JsonMsg.zero : JsonMsg := ⟨none, none, none, none⟩

/-- A UUID of the library; `zuuid_str_canonical` is a string without anything to escape. -/
structure Zuuid where
  canonical : Bytes
  valid : Json.ValidString canonical

/-- Some UUID. -/
def testUuid : Zuuid := ⟨ofString "5e3f", by decide⟩

/-- `query_t`. The field `loop` is always NULL. -/
structure Query where
  uid : Zuuid
  requester : Bytes
  msg : JsonMsg

/-- What sending and receiving read and change of `component_t`. -/
structure Component where
  /-- `local`, the Zyre node. -/
  localNode : ZyreNode
  queryList : List Query

/-- `strdup`. -/
def strdup : Option Bytes → Except Fault Bytes
  | none => .error .strdupNull
  | some t => .ok (cString t)

/-- `streq`. -/
def streq : Option Bytes → Option Bytes → Except Fault Bool
  | some a, some b => .ok (cString a = cString b)
  | _, _ => .error .streqNull

/-- The check of one string member, followed by the rest of the decoder. -/
def stringMember (root : Json) (key : Bytes) (result : JsonMsg)
    (next : Bytes → Except Fault (Int × JsonMsg)) : Except Fault (Int × JsonMsg) :=
  match root.objectGet key with
  | none => .ok (-1, result)
  | some v => do
    let s ← strdup v.stringValue
    next s

section

variable (J : Jansson)

/-- `decode_json`; `test_send_msg.c:181–225`. -/
def decodeJson (message : Option Bytes) (result : JsonMsg) : Except Fault (Int × JsonMsg) :=
  match J.jsonLoads message with
  | none => .ok (-1, result)
  | some root =>
    stringMember root (ofString "metamodel") result fun s ↦
      let result := { result with metamodel := some s }
      stringMember root (ofString "model") result fun s ↦
        let result := { result with model := some s }
        stringMember root (ofString "type") result fun s ↦
          let result := { result with type := some s }
          match root.objectGet (ofString "payload") with
          | none => .ok (-1, result)
          | some p => do
            let t ← strdup (J.jsonDumps (some p))
            .ok (0, { result with payload := some t })

/-- The loop over `query_list`; `test_send_msg.c:387–397`. `it` is the position of the
iterator. Where the ids differ there is no `zlist_next`. -/
def searchLoop (queryId : Option Bytes) : Nat → Nat → List Query →
    Except Fault (Option (List Query))
  | 0, _, _ => .ok none
  | fuel + 1, it, list =>
    match list[it]? with
    | none => .ok (some list)
    | some q => do
      if ← streq (some q.uid.canonical) queryId then .ok (some (list.eraseIdx it))
      else searchLoop queryId fuel it list

/-- The branch for a result type; there are three copies of it. -/
def resultBranch (fuel : Nat) (result : JsonMsg) (self : Component) :
    Except Fault (Option Component) :=
  match J.jsonLoads result.payload with
  | none => .ok (some self)
  | some payload => do
    let list ← searchLoop ((payload.objectGet (ofString "queryId")).bind Json.stringValue) fuel 0
      self.queryList
    .ok (list.map fun list ↦ { self with queryList := list })

/-- `handle_shout`, once the event is popped; `test_send_msg.c:369–447`. -/
def handleShout (fuel : Nat) (self : Component) (msg : List Bytes) :
    Except Fault (Option Component) :=
  if msg.length ≠ 4 then .error .assertFailed
  else do
    let (_peerid, msg) := zmsgPopstr msg
    let (_name, msg) := zmsgPopstr msg
    let (_group, msg) := zmsgPopstr msg
    let (message, _) := zmsgPopstr msg
    let (rc, result) ← decodeJson J message .zero
    if rc = 0 then
      if ← streq result.type (some (ofString "RSGUpdateResult")) then
        resultBranch J fuel result self
      else if ← streq result.type (some (ofString "RSGQueryResult")) then
        resultBranch J fuel result self
      else if ← streq result.type (some (ofString "RSGFunctionBlockResult")) then
        resultBranch J fuel result self
      else .ok (some self)
    else .ok (some self)

end

/-- Types that have a branch. -/
def resultTypes : List Bytes :=
  [ofString "RSGUpdateResult", ofString "RSGQueryResult", ofString "RSGFunctionBlockResult"]

/-! ### The decoder, case by case -/

/-- A member is there and is a string. -/
def HasString (root : Json) (key : Bytes) : Prop := ∃ s, root.objectGet key = some (.string s)

/-- A member is there and is no string. -/
def HasOther (root : Json) (key : Bytes) : Prop :=
  ∃ v, root.objectGet key = some v ∧ ∀ s, v ≠ .string s

/-- The message of the data model: three strings and a payload. -/
structure Conforms (root : Json) (metamodel model type : Bytes) (payload : Json) : Prop where
  metamodel : root.objectGet (ofString "metamodel") = some (.string metamodel)
  model : root.objectGet (ofString "model") = some (.string model)
  type : root.objectGet (ofString "type") = some (.string type)
  payload : root.objectGet (ofString "payload") = some payload

/-- Among the three members that are copied, the first that is no string is there. -/
def CopiesNull (root : Json) : Prop :=
  HasOther root (ofString "metamodel") ∨
    HasString root (ofString "metamodel") ∧ (HasOther root (ofString "model") ∨
      HasString root (ofString "model") ∧ HasOther root (ofString "type"))

section

variable {J : Jansson} {root : Json} {key : Bytes}

/-- No member is a string and something else. -/
theorem HasString.not_other (h : HasString root key) : ¬ HasOther root key := by
  obtain ⟨s, hs⟩ := h
  rintro ⟨v, hv, hne⟩
  exact hne s (Option.some.inj (hv.symm.trans hs))

/-- A missing member is neither. -/
theorem not_has_of_none (h : root.objectGet key = none) :
    ¬ HasString root key ∧ ¬ HasOther root key := by
  constructor
  · rintro ⟨s, hs⟩
    exact absurd (h.symm.trans hs) (by simp)
  · rintro ⟨v, hv, -⟩
    exact absurd (h.symm.trans hv) (by simp)

/-- The check of a member ends the decoder if the member is missing, goes on with a string,
and passes NULL to `strdup` for anything else. -/
theorem stringMember_cases (hwf : root.WF J.printed) (key : Bytes) (result : JsonMsg)
    (next : Bytes → Except Fault (Int × JsonMsg)) :
    (root.objectGet key = none ∧ stringMember root key result next = .ok (-1, result)) ∨
      (∃ s, root.objectGet key = some (.string s) ∧ stringMember root key result next = next s) ∨
      (HasOther root key ∧ stringMember root key result next = .error .strdupNull) := by
  rw [stringMember]
  cases h : root.objectGet key with
  | none => exact .inl ⟨rfl, rfl⟩
  | some v =>
    by_cases hv : ∃ s, v = .string s
    · obtain ⟨s, rfl⟩ := hv
      have hs : cString s = s := by
        cases hwf.objectGet h with
        | string hs => exact cString_eq_self hs.1
      refine .inr (.inl ⟨s, rfl, ?_⟩)
      simp only [Json.stringValue, strdup, hs]
      rfl
    · refine .inr (.inr ⟨⟨v, h, fun s hs ↦ hv ⟨s, hs⟩⟩, ?_⟩)
      cases v with
      | string s => exact absurd ⟨s, rfl⟩ hv
      | _ => rfl

/-- The decoder of a document copies NULL, or succeeds with the members of a conforming
message, or fails. -/
theorem decodeJson_cases (hJ : J.Documented) {m : Bytes} (hm : J.loads m = some root)
    (result : JsonMsg) :
    (CopiesNull root ∧ decodeJson J (some m) result = .error .strdupNull) ∨
      (¬ CopiesNull root ∧ ∃ metamodel model type payload,
        Conforms root metamodel model type payload ∧ decodeJson J (some m) result =
          .ok (0, ⟨some metamodel, some model, some type, some (J.dumps payload)⟩)) ∨
      (¬ CopiesNull root ∧ (∀ metamodel model type payload,
        ¬ Conforms root metamodel model type payload) ∧
        ∃ result', decodeJson J (some m) result = .ok (-1, result')) := by
  have hwf := (hJ.loads_wf _ _ hm).1
  have hfail {key : Bytes} (h : root.objectGet key = none) {v : Json} :
      root.objectGet key ≠ some v := by
    rw [h]
    simp
  simp only [decodeJson, Jansson.jsonLoads, Option.bind_some, hm]
  obtain ⟨h₁, he⟩ | ⟨a, ha, he⟩ | ⟨h₁, he⟩ := stringMember_cases hwf (ofString "metamodel") _ _
  · refine .inr (.inr ⟨?_, fun _ _ _ _ h ↦ hfail h₁ h.metamodel, _, he⟩)
    simp [CopiesNull, not_has_of_none h₁]
  · have hs₁ : HasString root (ofString "metamodel") := ⟨a, ha⟩
    rw [he]
    obtain ⟨h₂, he⟩ | ⟨b, hb, he⟩ | ⟨h₂, he⟩ := stringMember_cases hwf (ofString "model") _ _
    · refine .inr (.inr ⟨?_, fun _ _ _ _ h ↦ hfail h₂ h.model, _, he⟩)
      simp [CopiesNull, hs₁.not_other, not_has_of_none h₂]
    · have hs₂ : HasString root (ofString "model") := ⟨b, hb⟩
      rw [he]
      obtain ⟨h₃, he⟩ | ⟨t, ht, he⟩ | ⟨h₃, he⟩ := stringMember_cases hwf (ofString "type") _ _
      · refine .inr (.inr ⟨?_, fun _ _ _ _ h ↦ hfail h₃ h.type, _, he⟩)
        simp [CopiesNull, hs₁.not_other, hs₂.not_other, not_has_of_none h₃]
      · have hs₃ : HasString root (ofString "type") := ⟨t, ht⟩
        have hnull : ¬ CopiesNull root := by
          simp [CopiesNull, hs₁.not_other, hs₂.not_other, hs₃.not_other]
        rw [he]
        cases hp : root.objectGet (ofString "payload") with
        | none => exact .inr (.inr ⟨hnull, fun _ _ _ _ h ↦ hfail hp h.payload, _, rfl⟩)
        | some p =>
          refine .inr (.inl ⟨hnull, a, b, t, p, ⟨ha, hb, ht, hp⟩, ?_⟩)
          simp only [Jansson.jsonDumps, Option.map_some, strdup,
            hJ.cString_dumps (hwf.objectGet hp)]
          rfl
      · exact .inl ⟨.inr ⟨hs₁, .inr ⟨hs₂, h₃⟩⟩, he⟩
    · exact .inl ⟨.inr ⟨hs₁, .inl h₂⟩, he⟩
  · exact .inl ⟨.inl h₁, he⟩

/-- A conforming message is determined by its document. -/
theorem Conforms.unique {a b t a' b' t' : Bytes} {p p' : Json} (h : Conforms root a b t p)
    (h' : Conforms root a' b' t' p') : a = a' ∧ b = b' ∧ t = t' ∧ p = p' := by
  have ha := h.metamodel.symm.trans h'.metamodel
  have hb := h.model.symm.trans h'.model
  have ht := h.type.symm.trans h'.type
  have hp := h.payload.symm.trans h'.payload
  simp only [Option.some.injEq, Json.string.injEq] at ha hb ht hp
  exact ⟨ha, hb, ht, hp⟩

/-- The members of a conforming message are not NULL to `strdup`. -/
theorem Conforms.not_copiesNull {a b t : Bytes} {p : Json} (h : Conforms root a b t p) :
    ¬ CopiesNull root := by
  rintro (ho | ⟨-, ho | ⟨-, ho⟩⟩)
  · exact HasString.not_other ⟨a, h.metamodel⟩ ho
  · exact HasString.not_other ⟨b, h.model⟩ ho
  · exact HasString.not_other ⟨t, h.type⟩ ho

/-- The decoder returns zero exactly on conforming messages, and copies their members. -/
theorem decodeJson_eq_zero_iff (hJ : J.Documented) {m : Bytes} {result result' : JsonMsg} :
    decodeJson J (some m) result = .ok (0, result') ↔
      ∃ root metamodel model type payload, J.loads m = some root ∧
        Conforms root metamodel model type payload ∧
        result' = ⟨some metamodel, some model, some type, some (J.dumps payload)⟩ := by
  cases hm : J.loads m with
  | none => simp [decodeJson, Jansson.jsonLoads, hm]
  | some root =>
    obtain ⟨hn, hd⟩ | ⟨-, a, b, t, p, hc, hd⟩ | ⟨-, hn, r, hd⟩ := decodeJson_cases hJ hm result
    · rw [hd]
      apply iff_of_false (by simp)
      rintro ⟨root', a, b, t, p, he, hc, -⟩
      obtain rfl := Option.some.inj he
      exact hc.not_copiesNull hn
    · rw [hd]
      constructor
      · intro he
        have hr := (Prod.mk.inj (Except.ok.inj he)).2
        exact ⟨root, a, b, t, p, rfl, hc, hr.symm⟩
      · rintro ⟨root', a', b', t', p', he, hc', rfl⟩
        obtain rfl := Option.some.inj he
        obtain ⟨rfl, rfl, rfl, rfl⟩ := hc.unique hc'
        rfl
    · rw [hd]
      apply iff_of_false (by simp)
      rintro ⟨root', a, b, t, p, he, hc, -⟩
      obtain rfl := Option.some.inj he
      exact hn a b t p hc

end

/-! ### The list walk -/

section

variable {x : Query} {list : List Query} {queryId : Bytes}

/-- An empty list is walked at once. -/
theorem searchLoop_nil (queryId : Option Bytes) (fuel : Nat) :
    searchLoop queryId (fuel + 1) 0 [] = .ok (some []) := rfl

/-- Without an id the first comparison is with NULL. -/
theorem searchLoop_null (fuel : Nat) (x : Query) (list : List Query) :
    searchLoop none (fuel + 1) 0 (x :: list) = .error .streqNull := rfl

/-- A match at the head is removed. -/
theorem searchLoop_head (h : x.uid.canonical = queryId) (fuel : Nat) (list : List Query) :
    searchLoop (some queryId) (fuel + 1) 0 (x :: list) = .ok (some list) := by
  subst h
  simp only [searchLoop, List.getElem?_cons_zero, streq, decide_true, List.eraseIdx_zero]
  rfl

/-- Without a match at the head the walk does not end. -/
theorem searchLoop_stuck (hq : Json.ValidString queryId) (h : x.uid.canonical ≠ queryId)
    (fuel : Nat) (list : List Query) :
    searchLoop (some queryId) fuel 0 (x :: list) = .ok none := by
  have hne : ¬ cString x.uid.canonical = cString queryId := by
    rw [cString_eq_self x.uid.valid.1, cString_eq_self hq.1]
    exact h
  induction fuel with
  | zero => rfl
  | succ fuel ih =>
    simp only [searchLoop, List.getElem?_cons_zero, streq, decide_eq_false hne]
    exact ih

end

/-! ### A shout, case by case -/

section

variable {J : Jansson} {self : Component} {content : Bytes}

/-- What is not decoded changes nothing. -/
theorem handleShout_of_loads_none (h : J.loads (cString content) = none) (fuel : Nat)
    (peerid name group : Bytes) :
    handleShout J fuel self [peerid, name, group, content] = .ok (some self) := by
  have hd : decodeJson J (some (cString content)) .zero = .ok (-1, .zero) := by
    simp only [decodeJson, Jansson.jsonLoads, Option.bind_some, h]
  simp only [handleShout, zmsgPopstr, hd]
  rfl

/-- A decoded message goes to the branch of its type. -/
theorem handleShout_of_conforms (hJ : J.Documented) {root : Json}
    (hm : J.loads (cString content) = some root) {metamodel model type : Bytes} {payload : Json}
    (h : Conforms root metamodel model type payload) (fuel : Nat) (peerid name group : Bytes) :
    handleShout J fuel self [peerid, name, group, content] =
      if type ∈ resultTypes then
        resultBranch J fuel ⟨some metamodel, some model, some type, some (J.dumps payload)⟩ self
      else .ok (some self) := by
  have hd : decodeJson J (some (cString content)) .zero = .ok (0, _) :=
    (decodeJson_eq_zero_iff hJ).mpr ⟨root, _, _, _, _, hm, h, rfl⟩
  have htype : cString type = type := by
    cases (hJ.loads_wf _ _ hm).1.objectGet h.type with
    | string hs => exact cString_eq_self hs.1
  have hstreq {e : Bytes} (he : cString e = e) :
      streq (some type) (some e) = .ok (decide (type = e)) := by
    rw [streq, htype, he]
  have hupdate := hstreq (e := ofString "RSGUpdateResult") (by decide)
  have hquery := hstreq (e := ofString "RSGQueryResult") (by decide)
  have hblock := hstreq (e := ofString "RSGFunctionBlockResult") (by decide)
  simp only [handleShout, zmsgPopstr, List.length_cons, List.length_nil, hd, Bind.bind, Except.bind,
    hupdate, hquery, hblock, resultTypes, List.mem_cons, List.not_mem_nil, or_false]
  by_cases h₁ : type = ofString "RSGUpdateResult"
  · simp [h₁]
  by_cases h₂ : type = ofString "RSGQueryResult"
  · simp [h₂]
  by_cases h₃ : type = ofString "RSGFunctionBlockResult"
  · simp [h₃]
  · simp [h₁, h₂, h₃]

/-- A document that copies NULL is the end. -/
theorem handleShout_of_copiesNull (hJ : J.Documented) {root : Json}
    (hm : J.loads (cString content) = some root) (h : CopiesNull root) (fuel : Nat)
    (peerid name group : Bytes) :
    handleShout J fuel self [peerid, name, group, content] = .error .strdupNull := by
  obtain ⟨-, hd⟩ | ⟨hn, -⟩ | ⟨hn, -⟩ := decodeJson_cases hJ hm .zero
  · simp only [handleShout, zmsgPopstr, hd]
    rfl
  · exact absurd h hn
  · exact absurd h hn

/-- Any other document changes nothing. -/
theorem handleShout_of_not_conforms (hJ : J.Documented) {root : Json}
    (hm : J.loads (cString content) = some root) (hnull : ¬ CopiesNull root)
    (h : ∀ metamodel model type payload, ¬ Conforms root metamodel model type payload) (fuel : Nat)
    (peerid name group : Bytes) :
    handleShout J fuel self [peerid, name, group, content] = .ok (some self) := by
  obtain ⟨hc, -⟩ | ⟨-, a, b, t, p, hc, -⟩ | ⟨-, -, result, hd⟩ := decodeJson_cases hJ hm .zero
  · exact absurd hc hnull
  · exact absurd hc (h a b t p)
  · simp only [handleShout, zmsgPopstr, hd]
    rfl

end

end Ubx.SendMsg
