import Ubx.Base.Machine
import Ubx.Json.Jansson
import Ubx.Zyre.Init

/-!
# The zyre bridge: `zyre_bridge_step`

Sending direction of `src/zyre_bridge/src/zyre_bridge.cpp:44–82,250–356`. Port `zyre_out`
is a FIFO of messages; each loop iteration that gets one logs the message and the
argument of `zyre_shouts`, if it comes that far. UUIDs come from an arbitrary sequence.
-/

namespace Ubx.Zyre

open Ubx.Base

section

variable (J : Jansson) (zuuid : Nat → Bytes)

/-- `send_request`; `zyre_bridge.cpp:44–82`. -/
def sendRequest (uid localReq : Bytes) (recipients : Json) (timeout : Int64)
    (payloadType : Bytes) (msgPayload : Json) : Option Bytes :=
  if recipients.isArray = false then none
  else if msgPayload.isObject = false then none
  else
    let root := Json.object []
    let root := root.objectSet (ofString "metamodel") (.string (ofString "sherpa_mgs"))
    let root := root.objectSet (ofString "model")
      (.string (ofString "http://kul/send_request.json"))
    let root := root.objectSet (ofString "type") (.string (ofString "send_request"))
    let payload := Json.object []
    let payload := payload.objectSet (ofString "UID") (.string uid)
    let payload := payload.objectSet (ofString "local_requester") (.string localReq)
    let payload := payload.objectSet (ofString "recipients") recipients
    let payload := payload.objectSet (ofString "timeout") (.integer timeout)
    let payload := payload.objectSet (ofString "payload_type") (.string payloadType)
    let payload := payload.objectSet (ofString "payload") msgPayload
    let root := root.objectSet (ofString "payload") payload
    some (J.dumps root)

/-- What the body of the type loop leaves in `send_msg`, and how many UUIDs are drawn. -/
structure SendState where
  sendMsg : Option Bytes
  drawn : Nat

/-- The branch taken at the first entry that compares non-zero;
`zyre_bridge.cpp:313–338`. -/
def sendBody (b : ZyreBridge) (tmpType : Bytes) (newMsg : Json) (st : SendState) : SendState :=
  if strCompare tmpType (ofString "RSGUpdate") = 0 then
    let newMsg := newMsg.objectSet (ofString "model") (.string (ofString "RSGUpdate"))
    let newMsg := newMsg.objectSet (ofString "type") (.string (ofString "RSGUpdate_global"))
    if b.config.mediator = 1 then
      { sendMsg := sendRequest J (zuuid st.drawn) b.inf.node.uuid (.array []) 1000
          (ofString "send_remote") newMsg
        drawn := st.drawn + 1 }
    else { st with sendMsg := some (J.dumps newMsg) }
  else
    let newMsg := newMsg.objectSet (ofString "model") (.string tmpType)
    let newMsg := newMsg.objectSet (ofString "type") (.string tmpType)
    { st with sendMsg := some (J.dumps newMsg) }

/-- The loop over `output_type_list`; `zyre_bridge.cpp:310–341`. The condition is the
result of `compare` itself, so it holds at an entry that differs. -/
def typeLoop (b : ZyreBridge) (tmpType : Bytes) (newMsg : Json) :
    List Bytes → SendState → SendState
  | [], st => st
  | t :: ts, st =>
    if strCompare tmpType t ≠ 0 then sendBody J zuuid b tmpType newMsg st
    else typeLoop b tmpType newMsg ts st

/-- A loop iteration that got a message: the message, and the argument of `zyre_shouts`
(`none` inside is NULL) when the iteration reaches that call. -/
structure Iteration where
  message : Bytes
  shout : Option (Option Bytes)

/-- What a step reads and changes. -/
structure StepWorld where
  zyreOut : List Bytes
  log : List Iteration
  drawn : Nat

/-- The receive loop; `zyre_bridge.cpp:267–352`, with `max_send - counter` iterations left
and `tmp_str` as the previous iteration left it. -/
def stepLoop (b : ZyreBridge) : Nat → Bytes → StepWorld → Except Fault StepWorld
  | 0, _, w => .ok w
  | k + 1, tmpStr, w =>
    match w.zyreOut with
    | [] => .ok w
    | m :: rest =>
      if m.length ≤ 0 then .ok { w with zyreOut := rest, log := w.log ++ [⟨m, none⟩] }
      else if tmpStr.length ≤ m.length then .error .bufferOverrun
      else
        let tmpStr := (m ++ tmpStr.drop m.length).set m.length 0
        match J.loads (cString tmpStr) with
        | none => .ok { w with zyreOut := rest, log := w.log ++ [⟨m, none⟩] }
        | some pl =>
          let newMsg := Json.object []
          let newMsg := newMsg.objectSet (ofString "payload") pl
          let newMsg := newMsg.objectSet (ofString "metamodel") (.string (ofString "SHERPA"))
          match pl.objectGet (ofString "@worldmodeltype") with
          | none => .ok { w with zyreOut := rest, log := w.log ++ [⟨m, none⟩] }
          | some ty =>
            match ty.stringValue with
            | none => .error .stringFromNull
            | some s =>
              let tmpType := cString s
              let st := typeLoop J zuuid b tmpType newMsg b.inf.outputTypeList
                { sendMsg := none, drawn := w.drawn }
              stepLoop b k tmpStr
                { zyreOut := rest, log := w.log ++ [⟨m, some st.sendMsg⟩], drawn := st.drawn }

/-- Bytes requested for `tmp_str`: `max_msg_length * sizeof(char*)`. -/
def mallocSize (maxMsgLength : UInt64) : Nat := (maxMsgLength * 8).toNat

/-- `zyre_bridge_step`; `tmpStr` is the memory `malloc` returned, with any content. -/
def zyreBridgeStep (b : ZyreBridge) (tmpStr : Vector UInt8 (mallocSize b.inf.maxMsgLength))
    (w : StepWorld) : Except Fault StepWorld :=
  stepLoop J zuuid b b.inf.maxSend.toNatClampNeg tmpStr.toList w

end

/-! ### Messages without the buffer -/

/-- How the step takes a message. -/
inductive Verdict
  /-- No JSON array or object, or one without `@worldmodeltype`. -/
  | malformed
  /-- `@worldmodeltype` is present and no string. -/
  | untyped
  /-- A payload and its type. -/
  | typed (payload : Json) (tmpType : Bytes)

section

variable (J : Jansson) (zuuid : Nat → Bytes)

/-- The verdict on a message, from the message alone. -/
def classify (m : Bytes) : Verdict :=
  match J.loads (cString m) with
  | none => .malformed
  | some pl =>
    match pl.objectGet (ofString "@worldmodeltype") with
    | none => .malformed
    | some ty =>
      match ty.stringValue with
      | none => .untyped
      | some s => .typed pl (cString s)

/-- The envelope of a payload, before any mediator wrapping. -/
def envelope (pl : Json) (tmpType : Bytes) : Json :=
  .object [(ofString "payload", pl), (ofString "metamodel", .string (ofString "SHERPA")),
    (ofString "model", .string tmpType),
    (ofString "type", .string
      (if tmpType = ofString "RSGUpdate" then ofString "RSGUpdate_global" else tmpType))]

/-- Whether the envelope goes through the mediator, which costs a UUID. -/
def mediated (b : ZyreBridge) (tmpType : Bytes) : Bool :=
  tmpType = ofString "RSGUpdate" && b.config.mediator = 1

/-- The text shouted for a payload: its envelope, wrapped for the mediator if need be. -/
def shoutText (b : ZyreBridge) (uid : Bytes) (pl : Json) (tmpType : Bytes) : Bytes :=
  if mediated b tmpType then
    J.dumps (.object [(ofString "metamodel", .string (ofString "sherpa_mgs")),
      (ofString "model", .string (ofString "http://kul/send_request.json")),
      (ofString "type", .string (ofString "send_request")),
      (ofString "payload", .object [(ofString "UID", .string uid),
        (ofString "local_requester", .string b.inf.node.uuid),
        (ofString "recipients", .array []), (ofString "timeout", .integer 1000),
        (ofString "payload_type", .string (ofString "send_remote")),
        (ofString "payload", envelope pl tmpType)])])
  else J.dumps (envelope pl tmpType)

/-- UUIDs drawn once a message of this type has been sent. -/
def drawnAfter (b : ZyreBridge) (tmpType : Bytes) (drawn : Nat) : Nat :=
  if mediated b tmpType then drawn + 1 else drawn

variable {J zuuid} {b : ZyreBridge}

/-- Without a mediator the envelope itself is shouted. -/
theorem shoutText_plain {t : Bytes} (h : mediated b t = false) (uid : Bytes) (pl : Json) :
    shoutText J b uid pl t = J.dumps (envelope pl t) := by
  rw [shoutText, h]
  rfl

/-- The branch of the type loop sends the envelope. -/
theorem sendBody_eq (pl : Json) (tmpType : Bytes) (st : SendState) :
    sendBody J zuuid b tmpType
        (((Json.object []).objectSet (ofString "payload") pl).objectSet (ofString "metamodel")
          (.string (ofString "SHERPA"))) st =
      { sendMsg := some (shoutText J b (zuuid st.drawn) pl tmpType)
        drawn := drawnAfter b tmpType st.drawn } := by
  unfold sendBody
  split
  · next h =>
    obtain rfl := (strCompare_eq_zero_iff _ _).mp h
    split
    · next hm =>
      have hmed : mediated b (ofString "RSGUpdate") = true := by simp [mediated, hm]
      simp only [shoutText, drawnAfter, hmed, ↓reduceIte]
      rfl
    · next hm =>
      have hmed : mediated b (ofString "RSGUpdate") = false := by simp [mediated, hm]
      simp only [shoutText, drawnAfter, hmed]
      rfl
  · next h =>
    have hne : tmpType ≠ ofString "RSGUpdate" := fun he ↦ h ((strCompare_eq_zero_iff _ _).mpr he)
    have hmed : mediated b tmpType = false := by simp [mediated, hne]
    simp only [shoutText, drawnAfter, hmed, envelope, if_neg hne]
    rfl

/-- A loop that ends with `x` at the first entry that compares non-zero, and with `y` behind
the last. -/
theorem firstDiffering_eq {β : Type} {f : List Bytes → β} {x y : β} {tmpType : Bytes}
    (hnil : f [] = y)
    (hcons : ∀ t ts, f (t :: ts) = if strCompare tmpType t ≠ 0 then x else f ts)
    (types : List Bytes) : f types = if ∃ t ∈ types, t ≠ tmpType then x else y := by
  induction types with
  | nil => simp [hnil]
  | cons t ts ih =>
    rw [hcons]
    by_cases h : tmpType = t
    · have hz := (strCompare_eq_zero_iff _ _).mpr h
      rw [if_neg (not_not.mpr hz), ih]
      simp [h]
    · have hz : strCompare tmpType t ≠ 0 := fun hz ↦ h ((strCompare_eq_zero_iff _ _).mp hz)
      simp [hz, Ne.symm h]

/-- The type loop sends exactly when some entry of the list differs from the type. -/
theorem typeLoop_eq (tmpType : Bytes) (newMsg : Json) (types : List Bytes) (st : SendState) :
    typeLoop J zuuid b tmpType newMsg types st =
      if ∃ t ∈ types, t ≠ tmpType then sendBody J zuuid b tmpType newMsg st else st :=
  firstDiffering_eq (f := fun ts ↦ typeLoop J zuuid b tmpType newMsg ts st) rfl
    (fun _ _ ↦ rfl) types

variable (J zuuid b) in
/-- The receive loop without its buffer: each iteration depends on its message only. -/
def streamLoop : Nat → StepWorld → Except Fault StepWorld
  | 0, w => .ok w
  | k + 1, w =>
    match w.zyreOut with
    | [] => .ok w
    | m :: rest =>
      match classify J m with
      | .malformed => .ok { w with zyreOut := rest, log := w.log ++ [⟨m, none⟩] }
      | .untyped => .error .stringFromNull
      | .typed pl tmpType =>
        if ∃ t ∈ b.inf.outputTypeList, t ≠ tmpType then
          streamLoop k
            { zyreOut := rest
              log := w.log ++ [⟨m, some (some (shoutText J b (zuuid w.drawn) pl tmpType))⟩]
              drawn := drawnAfter b tmpType w.drawn }
        else
          streamLoop k { w with zyreOut := rest, log := w.log ++ [⟨m, some none⟩] }

/-- The text parsed from the buffer is the message up to its first NUL, whatever longer
messages were there before. -/
theorem cString_buffer {m tmpStr : Bytes} (h : m.length < tmpStr.length) :
    cString ((m ++ tmpStr.drop m.length).set m.length 0) = cString m := by
  obtain ⟨x, rest, hr⟩ := List.exists_cons_of_ne_nil
    (l := tmpStr.drop m.length) (by simpa using h)
  rw [hr, List.set_append_right _ _ (Nat.le_refl _), Nat.sub_self, List.set_cons_zero,
    cString_append_zero]

/-- The loop of the code is the loop without a buffer while every message fits. -/
theorem stepLoop_eq_streamLoop (k : Nat) (tmpStr : Bytes) (w : StepWorld)
    (hfit : ∀ m ∈ w.zyreOut, 0 < m.length ∧ m.length < tmpStr.length) :
    stepLoop J zuuid b k tmpStr w = streamLoop J zuuid b k w := by
  induction k generalizing tmpStr w with
  | zero => rfl
  | succ k ih =>
    obtain ⟨queue, log, drawn⟩ := w
    cases queue with
    | nil => rfl
    | cons m rest =>
      obtain ⟨hpos, hlt⟩ := hfit m (by simp)
      have hlen : ((m ++ tmpStr.drop m.length).set m.length 0).length = tmpStr.length := by
        simp only [List.length_set, List.length_append, List.length_drop]
        omega
      have hrest : ∀ n ∈ rest, 0 < n.length ∧
          n.length < ((m ++ tmpStr.drop m.length).set m.length 0).length := by
        intro n hn
        rw [hlen]
        exact hfit n (List.mem_cons_of_mem _ hn)
      rw [stepLoop, streamLoop]
      simp only [classify, Nat.not_le.mpr hpos, Nat.not_le.mpr hlt, ↓reduceIte, cString_buffer hlt,
        typeLoop_eq, sendBody_eq]
      cases J.loads (cString m) with
      | none => rfl
      | some pl =>
        simp only
        cases pl.objectGet (ofString "@worldmodeltype") with
        | none => rfl
        | some ty =>
          simp only
          cases ty.stringValue with
          | none => rfl
          | some s =>
            simp only
            split <;> exact ih _ _ hrest

/-- A message no longer than a configured `int` leaves room for its terminator. -/
theorem length_lt_mallocSize {n : Int32} {m : Bytes} (hpos : 0 < m.length)
    (hle : (m.length : Int) ≤ n.toInt) : m.length < mallocSize (toUnsignedLong n) := by
  have hn : 0 ≤ n.toInt := by omega
  have hc : (n.toNatClampNeg : Int) = n.toInt := by
    rw [← Int32.toNat_toInt, Int.toNat_of_nonneg hn]
  have hlt := n.toInt_lt
  have he : (8 : UInt64).toNat = 8 := rfl
  rw [mallocSize, UInt64.toNat_mul, toNat_toUnsignedLong hn, he, Nat.mod_eq_of_lt]
  · omega
  · omega

end

end Ubx.Zyre
