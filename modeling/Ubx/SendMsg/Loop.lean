import Ubx.SendMsg.Envelopes
import Ubx.SendMsg.Results
import Ubx.Zyre.Convergence

/-!
# A query and its way around

A component and a zyre bridge are alone in a group, and the world model behind the bridge
answers every query with a result that has its id. A query goes over the network to the
bridge, over port `zyre_in` to the world model, and the result over port `zyre_out` and the
network back. All of these are queues, so the results come in the order of the query list,
which is the order that the walk of `handle_shout` over the list needs.
-/

namespace Ubx.SendMsg

open Ubx.Base Ubx.Zyre

/-- A component and a bridge. -/
structure Loop where
  component : Component
  /-- Shouts of the component on their way to the bridge. -/
  queries : List Bytes
  actor : ActorState
  /-- How many messages of port `zyre_in` the world model has answered. -/
  answered : Nat
  out : StepWorld
  /-- Shouts of the bridge on their way to the component. -/
  results : List Bytes

/-- What can happen between them. -/
inductive LoopAction (J : Jansson) (b : ZyreBridge)
  /-- The component makes a call and shouts what it returns. -/
  | ask (call : SendCall J) (uuid : Zuuid)
  /-- The actor receives the next shout of the component. -/
  | query (peer name group : Bytes)
  /-- The actor gets an event without any content of a shout. -/
  | event (e : ActorEvent) (quiet : shoutContent e = none)
  /-- `zyre_bridge_start`: a new actor on the same node. -/
  | start
  /-- The world model answers the next message on port `zyre_in`. -/
  | answer
  /-- `zyre_bridge_step`. -/
  | step (tmpStr : Vector UInt8 (mallocSize b.inf.maxMsgLength))
  /-- The component receives the next shout of the bridge. -/
  | result (peerid name group : Bytes)

/-- Why an action of either does not come to an end. -/
inductive LoopStop
  | bridge (f : Zyre.Fault)
  | component (s : Stop)

/-- A call that returns a message. -/
structure Asked (J : Jansson) where
  call : SendCall J
  uuid : Zuuid

section

variable {J : Jansson} {b : ZyreBridge}

/-- Before the first action. -/
def Loop.start (self : Component) : Loop := ⟨self, [], .start, 0, .start [], []⟩

/-- Both as one machine; `respond` is the world model. -/
def loopMachine (J : Jansson) (zuuid : Nat → Bytes) (b : ZyreBridge)
    (respond : PortWrite → PortMessage b.config.maxMsgLength) (fuel : Nat) :
    Machine Loop (LoopAction J b) LoopStop where
  step l
    | .ask call uuid =>
      let (text, self) := call.send l.component uuid
      .ok { l with component := self, queries := l.queries ++ text.toList }
    | .query peer name group =>
      match l.queries with
      | [] => .ok l
      | text :: rest =>
        -- a stopped actor leaves the shout where it is
        if l.actor.loop = .running then
          match (zyreBridgeActor J b.inf).step l.actor (shoutEvent peer name group text) with
          | .error f => .error (.bridge f)
          | .ok a => .ok { l with actor := a, queries := rest }
        else .ok l
    | .event e _ =>
      match (zyreBridgeActor J b.inf).step l.actor e with
      | .error f => .error (.bridge f)
      | .ok a => .ok { l with actor := a }
    | .start => .ok { l with actor := { l.actor with loop := .running } }
    | .answer =>
      match l.actor.zyreIn[l.answered]? with
      | none => .ok l
      | some p =>
        .ok { l with
          answered := l.answered + 1
          out := { l.out with zyreOut := l.out.zyreOut ++ [(respond p).bytes] } }
    | .step tmpStr =>
      match zyreBridgeStep J zuuid b tmpStr l.out with
      | .error f => .error (.bridge f)
      | .ok w => .ok { l with out := w, results := l.results ++ textsSince l.out w }
    | .result peerid name group =>
      match l.results with
      | [] => .ok l
      | text :: rest =>
        match handleShout J fuel l.component [peerid, name, group, text] with
        | .error f => .error (.component (.fault f))
        | .ok none => .error (.component .notThrough)
        | .ok (some self) => .ok { l with component := self, results := rest }

namespace Asked

/-- Its id. -/
def id (q : Asked J) : Bytes := q.uuid.canonical

/-- Its payload. -/
def payload (q : Asked J) : Json := q.call.payload q.uuid

/-- What is shouted. -/
def text (q : Asked J) : Bytes := J.dumps (queryEnvelope q.payload)

/-- What the world model gets. -/
def written (q : Asked J) : PortWrite := payloadWrite J q.payload

end Asked

/-- The call of an action, if a message is returned. -/
def LoopAction.asked : LoopAction J b → Option (Asked J)
  | .ask call uuid => if call.refused then none else some ⟨call, uuid⟩
  | _ => none

/-- The calls of a run, in order. -/
def askedIn (acts : List (LoopAction J b)) : List (Asked J) := acts.filterMap LoopAction.asked

/-- The action makes no call and leaves the actor alone. -/
def LoopAction.Moves : LoopAction J b → Prop
  | .query _ _ _ | .answer | .step _ | .result _ _ _ => True
  | _ => False

/-- The action does not concern the component. -/
def LoopAction.Between : LoopAction J b → Prop
  | .ask _ _ | .result _ _ _ => False
  | _ => True

/-- A message of the world model that is a result with the id of a call, in an envelope that
the component can read. -/
def IsResult (q : Asked J) (m : Bytes) : Prop :=
  ∃ pl t, IsTyped J m pl t ∧ t ∈ resultTypes ∧ J.Nests (envelope pl t) ∧
    pl.objectGet (ofString "queryId") = some (.string q.id)

/-- The text that is shouted for one. -/
def IsResultText (q : Asked J) (text : Bytes) : Prop :=
  ∃ m pl t, IsTyped J m pl t ∧ t ∈ resultTypes ∧ J.Nests (envelope pl t) ∧
    pl.objectGet (ofString "queryId") = some (.string q.id) ∧ text = J.dumps (envelope pl t)

/-- The world model answers a payload with a result that has its id, whatever it is. -/
def Echoes (J : Jansson) (respond : PortWrite → PortMessage b.config.maxMsgLength)
    (payload : Json) : Prop :=
  ∃ pl t, IsTyped J (respond (payloadWrite J payload)).bytes pl t ∧ t ∈ resultTypes ∧
    J.Nests (envelope pl t) ∧
    pl.objectGet (ofString "queryId") = payload.objectGet (ofString "queryId")

/-- A call that the bridge can read and the world model has a result for. -/
structure Asked.Answered (respond : PortWrite → PortMessage b.config.maxMsgLength) (q : Asked J) :
    Prop where
  nests : J.Nests (queryEnvelope q.payload)
  result : IsResult q (respond q.written).bytes

/-- What a component and a world model that understand each other do: calls leave the id to
the function and are not nested too deep, they are answered, and events have a name. -/
def LoopAction.Proper (respond : PortWrite → PortMessage b.config.maxMsgLength) :
    LoopAction J b → Prop
  | .ask call uuid => call.refused = false →
      jsonObjectGet call.params (ofString "queryId") = none ∧
        J.Nests (queryEnvelope (call.payload uuid)) ∧ Echoes J respond (call.payload uuid)
  | .event e _ => Named e
  | _ => True

variable (b) in
/-- Where the calls of a run are: through, or, from the oldest on, their results on the way to
the component or on port `zyre_out`, they themselves on port `zyre_in` or on their way to the
bridge. -/
structure Positions (l : Loop) (through returning answered reading asking : List (Asked J)) :
    Prop where
  uids : l.component.uids = (returning ++ answered ++ reading ++ asking).map Asked.id
  results : List.Forall₂ IsResultText returning l.results
  zyreOut : List.Forall₂ IsResult answered l.out.zyreOut
  fits : ∀ m ∈ l.out.zyreOut, Fits b m
  zyreIn : l.actor.zyreIn = (through ++ returning ++ answered ++ reading).map Asked.written
  count : l.answered = (through ++ returning ++ answered).length
  queries : l.queries = asking.map Asked.text

end

/-! ### One message -/

section

variable {J : Jansson} {zuuid : Nat → Bytes} {b : ZyreBridge}

/-- A bridge hands the payload of a call on. -/
theorem handedOn_text (hJ : J.RoundTrips) {q : Asked J} (hn : J.Nests (queryEnvelope q.payload)) :
    handedOn J q.text = some q.payload := by
  have htext := textOf_queryEnvelope hJ q.call q.uuid
  rw [Asked.text, Asked.payload, handedOn_dumps hJ htext.wf htext.isDocument rfl]
  exact if_pos ⟨by decide, hn⟩

/-- It does not stop the actor. -/
theorem harmless_text (hJ : J.RoundTrips) {q : Asked J} (hn : J.Nests (queryEnvelope q.payload)) :
    HarmlessText J q.text := by
  intro m hm
  have hpay := handedOn_text hJ hn
  rw [handedOn, hm, Option.bind_some] at hpay
  rw [hpay]
  rfl

/-- An answer to a call is a result for it. -/
theorem Echoes.isResult {respond : PortWrite → PortMessage b.config.maxMsgLength} {q : Asked J}
    (h : Echoes J respond q.payload)
    (hown : jsonObjectGet q.call.params (ofString "queryId") = none) :
    IsResult q (respond q.written).bytes := by
  obtain ⟨pl, t, htyped, ht, hn, hid⟩ := h
  refine ⟨pl, t, htyped, ht, hn, ?_⟩
  rw [hid, Asked.payload, payload_queryId, hown]
  rfl

/-- What a bridge shouts for results are their texts. -/
theorem texts_record (hJ : J.Documented) (hb : b.inf.outputTypeList = outputTypeList) (drawn : Nat)
    {qs : List (Asked J)} {ms : List Bytes} (h : List.Forall₂ IsResult qs ms) :
    List.Forall₂ IsResultText qs ((record J zuuid b drawn ms).filterMap Iteration.text) := by
  induction h generalizing drawn with
  | nil => exact .nil
  | @cons q m qs ms hm _ ih =>
    obtain ⟨pl, t, htyped, ht, hn, hid⟩ := hm
    have hne : ∀ t ∈ resultTypes, t ≠ ofString "RSGUpdate" := by decide
    have hplain : mediated b t = false := by simp [mediated, hne t ht]
    have hshout : shoutOf J zuuid b drawn pl t = some (J.dumps (envelope pl t)) := by
      rw [shoutOf_outputTypeList hb, shoutText_plain hplain]
    rw [record, htyped.classify_eq hJ]
    simp only [List.filterMap_cons, Iteration.text, hshout, Option.join_some]
    exact .cons ⟨m, pl, t, htyped, ht, hn, hid, rfl⟩ (ih _)

/-- Results are readable and not malformed. -/
theorem IsResult.readable (hJ : J.Documented) {q : Asked J} {m : Bytes} (hm : IsResult q m)
    (hfit : Fits b m) : Readable J b m ∧ classify J m ≠ .malformed := by
  obtain ⟨pl, t, htyped, -⟩ := hm
  have hclass := htyped.classify_eq hJ
  exact ⟨⟨hfit.1, hfit.2, by simp [hclass]⟩, by simp [hclass]⟩

end

/-! ### One action -/

section

variable {J : Jansson} {zuuid : Nat → Bytes} {b : ZyreBridge}
  {respond : PortWrite → PortMessage b.config.maxMsgLength} {fuel : Nat} {l : Loop}
  {through returning answered reading asking : List (Asked J)}

/-- Calls that return messages are the last to wait for. -/
theorem Positions.asks (h : Positions b l through returning answered reading asking)
    (qs : List (Asked J)) {self : Component}
    (huids : self.uids = l.component.uids ++ qs.map Asked.id) :
    Positions b { l with component := self, queries := l.queries ++ qs.map Asked.text } through
      returning answered reading (asking ++ qs) := by
  constructor
  · show self.uids = _
    rw [huids, h.uids]
    simp
  · exact h.results
  · exact h.zyreOut
  · exact h.fits
  · exact h.zyreIn
  · exact h.count
  · simp [h.queries]

/-- A call that returns a message is the last to wait for. -/
theorem Positions.ask (h : Positions b l through returning answered reading asking)
    {call : SendCall J} (hc : call.refused = false) (uuid : Zuuid) :
    ∃ l', (loopMachine J zuuid b respond fuel).step l (.ask call uuid) = .ok l' ∧
      l'.actor.loop = l.actor.loop ∧
      Positions b l' through returning answered reading (asking ++ [⟨call, uuid⟩]) := by
  have hsend := send_of_not_refused hc l.component uuid
  refine ⟨{ l with
    component := (call.send l.component uuid).2
    queries := l.queries ++ (call.send l.component uuid).1.toList }, rfl, rfl, ?_⟩
  rw [hsend]
  exact h.asks [⟨call, uuid⟩] (by simp [Component.uids, Asked.id])

/-- The oldest query on its way is handed on to the world model. -/
theorem Positions.query (hJ : J.RoundTrips) (hb : b.inf.inputTypeList = inputTypeList)
    {q : Asked J} (h : Positions b l through returning answered reading (q :: asking))
    (hn : J.Nests (queryEnvelope q.payload)) (hrun : l.actor.loop = .running)
    (peer name group : Bytes) :
    ∃ l', (loopMachine J zuuid b respond fuel).step l (.query peer name group) = .ok l' ∧
      l'.actor.loop = l.actor.loop ∧
      Positions b l' through returning answered (reading ++ [q]) asking := by
  obtain ⟨a, ha⟩ :=
    step_of_harmless hJ.toDocumented hb hrun (harmless_text hJ hn) peer name group
  obtain ⟨hz, hloop⟩ := zyreIn_of_shout hJ.toDocumented hb hrun ha
  have hstep : (loopMachine J zuuid b respond fuel).step l (.query peer name group) =
      .ok { l with actor := a, queries := asking.map Asked.text } := by
    simp only [loopMachine, h.queries, List.map_cons, if_pos hrun, ha]
  refine ⟨_, hstep, hloop.trans hrun.symm, ?_⟩
  constructor
  · rw [h.uids]
    simp
  · exact h.results
  · exact h.zyreOut
  · exact h.fits
  · show a.zyreIn = _
    rw [hz, handedOn_text hJ hn, h.zyreIn]
    simp [Asked.written]
  · exact h.count
  · rfl

/-- The world model answers the oldest message on its port. -/
theorem Positions.answer (hlen : b.inf.maxMsgLength = toUnsignedLong b.config.maxMsgLength)
    {q : Asked J} (h : Positions b l through returning answered (q :: reading) asking)
    (hq : IsResult q (respond q.written).bytes) :
    ∃ l', (loopMachine J zuuid b respond fuel).step l .answer = .ok l' ∧
      l'.actor.loop = l.actor.loop ∧
      Positions b l' through returning (answered ++ [q]) reading asking := by
  have hget : l.actor.zyreIn[l.answered]? = some q.written := by
    rw [h.zyreIn, h.count, List.map_append, List.getElem?_append_right (by simp)]
    simp
  have hstep : (loopMachine J zuuid b respond fuel).step l .answer = .ok { l with
      answered := l.answered + 1
      out := { l.out with zyreOut := l.out.zyreOut ++ [(respond q.written).bytes] } } := by
    simp only [loopMachine, hget]
  refine ⟨_, hstep, rfl, ?_⟩
  constructor
  · rw [h.uids]
    simp
  · exact h.results
  · exact List.rel_append h.zyreOut (.cons hq .nil)
  · exact List.forall_mem_append.mpr ⟨h.fits, by simpa using (respond q.written).fits hlen⟩
  · rw [h.zyreIn]
    simp
  · rw [h.count]
    simp only [List.length_append, List.length_singleton]
    omega
  · exact h.queries

/-- A step shouts as many results as it may. -/
theorem Positions.step (hJ : J.Documented) (hb : b.inf.outputTypeList = outputTypeList)
    (h : Positions b l through returning answered reading asking)
    (tmpStr : Vector UInt8 (mallocSize b.inf.maxMsgLength)) :
    ∃ l', (loopMachine J zuuid b respond fuel).step l (.step tmpStr) = .ok l' ∧
      l'.actor.loop = l.actor.loop ∧
      Positions b l' through (returning ++ answered.take b.inf.maxSend.toNatClampNeg)
        (answered.drop b.inf.maxSend.toNatClampNeg) reading asking := by
  have hread : ∀ m ∈ l.out.zyreOut, Readable J b m ∧ classify J m ≠ .malformed := by
    intro m hm
    obtain ⟨n, hn, rfl⟩ := List.mem_iff_getElem.mp hm
    have hlen := h.zyreOut.length_eq
    have hget := h.zyreOut.get (i := n) (by omega) hn
    exact IsResult.readable hJ hget (h.fits _ hm)
  obtain ⟨w, hw⟩ := zyreBridgeStep_readable zuuid (fun m hm ↦ (hread m hm).1) tmpStr
  have hbatch : batch J b.inf.maxSend.toNatClampNeg l.out.zyreOut =
      l.out.zyreOut.take b.inf.maxSend.toNatClampNeg :=
    batch_eq_take fun m hm ↦ (hread m (List.mem_of_mem_take hm)).2
  obtain ⟨-, he⟩ := (zyreBridgeStep_eq_ok_iff h.fits tmpStr).mp hw
  rw [hbatch] at he
  have hstep : (loopMachine J zuuid b respond fuel).step l (.step tmpStr) =
      .ok { l with out := w, results := l.results ++ textsSince l.out w } := by
    simp only [loopMachine, hw]
  have hport : w.zyreOut = l.out.zyreOut.drop b.inf.maxSend.toNatClampNeg := by
    rw [he]
    simp only [List.length_take]
    by_cases hk : b.inf.maxSend.toNatClampNeg ≤ l.out.zyreOut.length
    · rw [Nat.min_eq_left hk]
    · rw [Nat.min_eq_right (by omega), List.drop_length, List.drop_of_length_le (by omega)]
  have htexts : textsSince l.out w = (record J zuuid b l.out.drawn
      (l.out.zyreOut.take b.inf.maxSend.toNatClampNeg)).filterMap Iteration.text := by
    rw [textsSince, he, List.drop_left]
  have hsplit (pre : List (Asked J)) : pre ++ answered.take b.inf.maxSend.toNatClampNeg ++
      answered.drop b.inf.maxSend.toNatClampNeg = pre ++ answered := by
    rw [List.append_assoc, List.take_append_drop]
  refine ⟨_, hstep, rfl, ?_⟩
  constructor
  · rw [hsplit]
    exact h.uids
  · show List.Forall₂ _ _ (l.results ++ textsSince l.out w)
    rw [htexts]
    exact List.rel_append h.results (texts_record hJ hb _ (List.forall₂_take _ h.zyreOut))
  · show List.Forall₂ _ _ w.zyreOut
    rw [hport]
    exact List.forall₂_drop _ h.zyreOut
  · intro m hm
    exact h.fits m (List.mem_of_mem_drop (hport ▸ hm))
  · rw [← List.append_assoc, hsplit]
    exact h.zyreIn
  · rw [← List.append_assoc, hsplit]
    exact h.count
  · exact h.queries

/-- The oldest result on its way takes the oldest query off the list. -/
theorem Positions.result (hJ : J.RoundTrips) {q : Asked J}
    (h : Positions b l through (q :: returning) answered reading asking)
    (peerid name group : Bytes) :
    ∃ l', (loopMachine J zuuid b respond (fuel + 1)).step l (.result peerid name group) = .ok l' ∧
      l'.actor.loop = l.actor.loop ∧
      Positions b l' (through ++ [q]) returning answered reading asking := by
  obtain ⟨text, rest, ⟨m, pl, t, htyped, ht, hn, hid, rfl⟩, hrest, hresults⟩ :=
    List.forall₂_cons_left_iff.mp h.results
  obtain ⟨x, list, hlist, hx, huids⟩ := List.map_eq_cons_iff.mp h.uids
  have hshout : handleShout J (fuel + 1) l.component
      [peerid, name, group, J.dumps (envelope pl t)] =
        .ok (some { l.component with queryList := list }) := by
    rw [handleShout_envelope hJ htyped ht hn, hid, hlist]
    have hsearch := searchLoop_head hx fuel list
    simp only [Option.bind_some, Json.stringValue, hsearch]
    rfl
  have hstep : (loopMachine J zuuid b respond (fuel + 1)).step l (.result peerid name group) =
      .ok { l with component := { l.component with queryList := list }, results := rest } := by
    simp only [loopMachine, hresults, hshout]
  refine ⟨_, hstep, rfl, ?_⟩
  constructor
  · exact huids
  · exact hrest
  · exact h.zyreOut
  · exact h.fits
  · rw [h.zyreIn]
    simp
  · rw [h.count]
    simp
  · exact h.queries

end

/-! ### Runs -/

section

variable {J : Jansson} {zuuid : Nat → Bytes} {b : ZyreBridge}
  {respond : PortWrite → PortMessage b.config.maxMsgLength} {fuel : Nat} {l : Loop}
  {acts : List (LoopAction J b)} {a : LoopAction J b}

variable (b) in
/-- Calls are around the loop in order. -/
def OnWay (qs : List (Asked J)) (l : Loop) : Prop :=
  ∃ through returning answered reading asking, Positions b l through returning answered reading
    asking ∧ through ++ returning ++ answered ++ reading ++ asking = qs

/-- The calls of a run are around the loop in order. -/
def InOrder (acts : List (LoopAction J b)) (l : Loop) : Prop := OnWay b (askedIn acts) l

/-- The component is the same behind an action that does not concern it. -/
theorem component_of_between {l' : Loop} (ha : a.Between)
    (hs : (loopMachine J zuuid b respond fuel).step l a = .ok l') : l'.component = l.component := by
  cases a with
  | ask | result => exact ha.elim
  | start =>
    obtain rfl := Except.ok.inj hs
    rfl
  | query | event | answer | step =>
    simp only [loopMachine] at hs
    repeat' split at hs
    all_goals cases hs
    all_goals rfl

/-- An action between the component and the world model comes to an end and keeps the order, if
the calls are answered with results. -/
theorem OnWay.between (hJ : J.RoundTrips) {ext : InitExtern} (hb : b.Initialised ext)
    {qs : List (Asked J)} (h : OnWay b qs l) (hq : ∀ q ∈ qs, q.Answered respond)
    (hbetween : a.Between)
    (ha : a.Proper respond) :
    ∃ l', (loopMachine J zuuid b respond fuel).step l a = .ok l' ∧ OnWay b qs l' := by
  obtain ⟨through, returning, answered, reading, asking, hpos, hall⟩ := h
  cases a with
  | ask | result => exact hbetween.elim
  | query peer name group =>
    cases asking with
    | nil =>
      refine ⟨l, ?_, _, _, _, _, _, hpos, hall⟩
      simp only [loopMachine, hpos.queries, List.map_nil]
    | cons q asking =>
      by_cases hrun : l.actor.loop = .running
      · have hmem : q ∈ qs := by
          rw [← hall]
          simp
        obtain ⟨l', hs, -, hpos'⟩ :=
          hpos.query hJ hb.inputTypeList_eq (hq q hmem).nests hrun peer name group
        refine ⟨l', hs, _, _, _, _, _, hpos', ?_⟩
        rw [← hall]
        simp
      · refine ⟨l, ?_, _, _, _, _, _, hpos, hall⟩
        simp only [loopMachine, hpos.queries, List.map_cons, if_neg hrun]
  | event e quiet =>
    obtain ⟨s', hs'⟩ := step_of_named hJ.toDocumented hb.inputTypeList_eq l.actor ha quiet
    refine ⟨{ l with actor := s' }, by simp only [loopMachine, hs'],
      through, returning, answered, reading, asking, ?_, hall⟩
    exact { hpos with zyreIn := (zyreIn_of_quiet quiet hs').trans hpos.zyreIn }
  | start =>
    refine ⟨_, rfl, through, returning, answered, reading, asking, ?_, hall⟩
    exact { hpos with }
  | answer =>
    cases reading with
    | nil =>
      have hnone : l.actor.zyreIn[l.answered]? = none := by
        rw [hpos.zyreIn, hpos.count]
        simp
      refine ⟨l, ?_, _, _, _, _, _, hpos, hall⟩
      simp only [loopMachine, hnone]
    | cons q reading =>
      have hmem : q ∈ qs := by
        rw [← hall]
        simp
      obtain ⟨l', hs, -, hpos'⟩ := hpos.answer hb.maxMsgLength_eq (hq q hmem).result
      refine ⟨l', hs, _, _, _, _, _, hpos', ?_⟩
      rw [← hall]
      simp
  | step tmpStr =>
    obtain ⟨l', hs, -, hpos'⟩ := hpos.step hJ.toDocumented hb.outputTypeList_eq tmpStr
    refine ⟨l', hs, _, _, _, _, _, hpos', ?_⟩
    rw [← hall, ← List.append_assoc, List.append_assoc _ (answered.take _),
      List.take_append_drop]

/-- One more action at the end. -/
theorem askedIn_concat (acts : List (LoopAction J b)) (a : LoopAction J b) :
    askedIn (acts ++ [a]) = askedIn acts ++ a.asked.toList := by
  rw [askedIn, List.filterMap_append]
  cases h : a.asked <;> simp [askedIn, h]

/-- What an action without a call leaves where it is stays in order. -/
theorem InOrder.keep (h : InOrder acts l) (ha : a.asked = none) : InOrder (acts ++ [a]) l := by
  rw [InOrder, askedIn_concat, ha, Option.toList_none, List.append_nil]
  exact h

/-- The calls of a proper run are answered with results. -/
theorem answered_of_mem (hpast : ∀ a ∈ acts, a.Proper respond) {q : Asked J}
    (hq : q ∈ askedIn acts) : q.Answered respond := by
  obtain ⟨a, hmem, ha⟩ := List.mem_filterMap.mp hq
  have hproper := hpast a hmem
  cases a with
  | ask call uuid =>
    simp only [LoopAction.asked] at ha
    split at ha
    · exact absurd ha (by simp)
    · next hr =>
      obtain rfl := Option.some.inj ha
      obtain ⟨hown, hn, hecho⟩ := hproper (by simpa using hr)
      exact ⟨hn, Echoes.isResult hecho hown⟩
  | query | event | start | answer | step | result => exact absurd ha (by simp [LoopAction.asked])

/-- A proper action comes to an end and keeps the order. -/
theorem InOrder.act (hJ : J.RoundTrips) {ext : InitExtern} (hb : b.Initialised ext)
    (h : InOrder acts l) (hpast : ∀ a ∈ acts, a.Proper respond) (ha : a.Proper respond) :
    ∃ l', (loopMachine J zuuid b respond (fuel + 1)).step l a = .ok l' ∧
      InOrder (acts ++ [a]) l' := by
  have hquiet (hbetween : a.Between) (hnone : a.asked = none) :
      ∃ l', (loopMachine J zuuid b respond (fuel + 1)).step l a = .ok l' ∧
        InOrder (acts ++ [a]) l' := by
    obtain ⟨l', hs, hway⟩ := OnWay.between hJ hb h (fun q ↦ answered_of_mem hpast) hbetween ha
    exact ⟨l', hs, InOrder.keep hway hnone⟩
  cases a with
  | ask call uuid =>
    obtain ⟨through, returning, answered, reading, asking, hpos, hall⟩ := h
    cases hr : call.refused with
    | true =>
      refine ⟨l, ?_, InOrder.keep ⟨_, _, _, _, _, hpos, hall⟩ (by simp [LoopAction.asked, hr])⟩
      simp [loopMachine, send_of_refused hr]
    | false =>
      have hask : ∃ l', (loopMachine J zuuid b respond (fuel + 1)).step l (.ask call uuid) =
          .ok l' ∧ _ := hpos.ask hr uuid
      obtain ⟨l', hs, -, hpos'⟩ := hask
      refine ⟨l', hs, _, _, _, _, _, hpos', ?_⟩
      rw [askedIn_concat, ← hall]
      simp [LoopAction.asked, hr]
  | result peerid name group =>
    obtain ⟨through, returning, answered, reading, asking, hpos, hall⟩ := h
    cases returning with
    | nil =>
      have hnone := List.forall₂_nil_left_iff.mp hpos.results
      refine ⟨l, ?_, InOrder.keep ⟨_, _, _, _, _, hpos, hall⟩ rfl⟩
      simp only [loopMachine, hnone]
    | cons q returning =>
      obtain ⟨l', hs, -, hpos'⟩ := hpos.result hJ peerid name group
      refine ⟨l', hs, InOrder.keep ⟨_, _, _, _, _, hpos', ?_⟩ rfl⟩
      rw [← hall]
      simp
  | query | event | start | answer | step => exact hquiet trivial rfl

/-- Before the first action there is no call. -/
theorem inOrder_start {self : Component} (hself : self.queryList = []) :
    InOrder ([] : List (LoopAction J b)) (.start self) := by
  refine ⟨[], [], [], [], [], ?_, rfl⟩
  constructor
  · simp [Loop.start, Component.uids, hself]
  · exact .nil
  · exact .nil
  · simp [Loop.start, StepWorld.start]
  · rfl
  · rfl
  · rfl

/-- A proper run comes to an end, with its calls in order. -/
theorem run_inOrder (hJ : J.RoundTrips) {ext : InitExtern} (hb : b.Initialised ext)
    {self : Component} (hself : self.queryList = []) (ha : ∀ a ∈ acts, a.Proper respond) :
    ∃ l, (loopMachine J zuuid b respond (fuel + 1)).run (.start self) acts = .ok l ∧
      InOrder acts l := by
  have hrule := Machine.run_total (M := loopMachine J zuuid b respond (fuel + 1))
    (P := fun acts l ↦ InOrder acts l ∧ ∀ a ∈ acts, a.Proper respond)
    (A := fun a ↦ a.Proper respond) ⟨inOrder_start hself, by simp⟩
  obtain ⟨l, hr, hl, -⟩ := hrule (fun as l a ⟨hl, hpast⟩ hnext ↦ by
    obtain ⟨l', hs, hl'⟩ := hl.act hJ hb hpast hnext
    exact ⟨l', hs, hl', List.forall_mem_append.mpr ⟨hpast, by simpa using hnext⟩⟩) ha
  exact ⟨l, hr, hl⟩

/-- From wherever calls are, their results can be brought to the component. Every action below
takes a call one place on, and a call has three places to go. -/
theorem Positions.exists_returned (hJ : J.RoundTrips) {ext : InitExtern} (hb : b.Initialised ext)
    (hk : 0 < b.config.maxSend.toInt) (n : Nat)
    {through returning answered reading asking : List (Asked J)}
    (h : Positions b l through returning answered reading asking)
    (hq : ∀ q ∈ reading ++ asking, q.Answered respond)
    (hrun : l.actor.loop = .running)
    (hn : 3 * asking.length + 2 * reading.length + answered.length = n) :
    ∃ more l', (∀ a ∈ more, a.Between ∧ a.Moves) ∧
      (loopMachine J zuuid b respond fuel).run l more = .ok l' ∧ l'.actor.loop = .running ∧
      Positions b l' through (returning ++ answered ++ reading ++ asking) [] [] [] := by
  induction n using Nat.strongRecOn generalizing l returning answered reading asking with
  | _ n ih =>
    cases answered with
    | cons q answered =>
      have hpos : 0 < b.inf.maxSend.toNatClampNeg := by
        rw [hb.maxSend_eq, ← Int32.toNat_toInt]
        omega
      obtain ⟨l₁, hs, hloop, hpos₁⟩ :=
        h.step hJ.toDocumented hb.outputTypeList_eq (.replicate _ 0)
      have hlen : (q :: answered).length =
          ((q :: answered).take b.inf.maxSend.toNatClampNeg).length +
            ((q :: answered).drop b.inf.maxSend.toNatClampNeg).length := by
        rw [← List.length_append, List.take_append_drop]
      have htake : 0 < ((q :: answered).take b.inf.maxSend.toNatClampNeg).length := by
        rw [List.length_take, List.length_cons]
        omega
      obtain ⟨more, l', hmoves, hr, hrun', hpos'⟩ := ih _ (by omega) hpos₁ hq (hloop.trans hrun) rfl
      refine ⟨.step (.replicate _ 0) :: more, l',
        List.forall_mem_cons.mpr ⟨⟨trivial, trivial⟩, hmoves⟩,
        Machine.run_cons.mpr ⟨l₁, hs, hr⟩, hrun', ?_⟩
      rw [List.append_assoc returning, List.take_append_drop] at hpos'
      exact hpos'
    | nil =>
    cases reading with
    | cons q reading =>
      obtain ⟨l₁, hs, hloop, hpos⟩ := h.answer hb.maxMsgLength_eq (hq q (by simp)).result
      simp only [List.length_cons, List.length_nil] at hn
      obtain ⟨more, l', hmoves, hr, hrun', hpos'⟩ := ih _ (by simp; omega) hpos
        (fun q' hq' ↦ hq q' (by simp at hq' ⊢; exact .inr hq')) (hloop.trans hrun) rfl
      refine ⟨.answer :: more, l', List.forall_mem_cons.mpr ⟨⟨trivial, trivial⟩, hmoves⟩,
        Machine.run_cons.mpr ⟨l₁, hs, hr⟩, hrun', ?_⟩
      simpa using hpos'
    | nil =>
    cases asking with
    | cons q asking =>
      obtain ⟨l₁, hs, hloop, hpos⟩ :=
        h.query hJ hb.inputTypeList_eq (hq q (by simp)).nests hrun [] [] []
      simp only [List.length_cons, List.length_nil] at hn
      obtain ⟨more, l', hmoves, hr, hrun', hpos'⟩ := ih _ (by simp; omega) hpos
        (fun q' hq' ↦ hq q' (by simp at hq' ⊢; tauto)) (hloop.trans hrun) rfl
      refine ⟨.query [] [] [] :: more, l', List.forall_mem_cons.mpr ⟨⟨trivial, trivial⟩, hmoves⟩,
        Machine.run_cons.mpr ⟨l₁, hs, hr⟩, hrun', ?_⟩
      simpa using hpos'
    | nil => exact ⟨[], l, by simp, rfl, hrun, by simpa using h⟩

/-- A component receives all results that have been brought to it. -/
theorem Positions.exists_received (hJ : J.RoundTrips) {through returning : List (Asked J)}
    (h : Positions b l through returning [] [] []) :
    ∃ more l', (∀ a ∈ more, a.Moves) ∧
      (loopMachine J zuuid b respond (fuel + 1)).run l more = .ok l' ∧
      Positions b l' (through ++ returning) [] [] [] [] := by
  induction returning generalizing l through with
  | nil => exact ⟨[], l, by simp, rfl, by simpa using h⟩
  | cons q returning ih =>
    obtain ⟨l₁, hs, -, hpos⟩ := h.result hJ [] [] []
    obtain ⟨more, l', hmoves, hr, hpos'⟩ := ih hpos
    refine ⟨.result [] [] [] :: more, l', List.forall_mem_cons.mpr ⟨trivial, hmoves⟩,
      Machine.run_cons.mpr ⟨l₁, hs, hr⟩, ?_⟩
    simpa using hpos'

/-- From wherever its calls are, the loop can be emptied. -/
theorem Positions.exists_moves (hJ : J.RoundTrips) {ext : InitExtern} (hb : b.Initialised ext)
    (hk : 0 < b.config.maxSend.toInt)
    {through returning answered reading asking : List (Asked J)}
    (h : Positions b l through returning answered reading asking)
    (hq : ∀ q ∈ reading ++ asking, q.Answered respond)
    (hrun : l.actor.loop = .running) :
    ∃ more l', (∀ a ∈ more, a.Moves) ∧
      (loopMachine J zuuid b respond (fuel + 1)).run l more = .ok l' ∧
      Positions b l' (through ++ returning ++ answered ++ reading ++ asking) [] [] [] [] := by
  obtain ⟨first, l₁, hfirst, hr₁, -, hpos₁⟩ := h.exists_returned hJ hb hk _ hq hrun rfl
  obtain ⟨more, l', hmore, hr, hpos⟩ := hpos₁.exists_received hJ
  refine ⟨first ++ more, l', List.forall_mem_append.mpr ⟨fun a ha ↦ (hfirst a ha).2, hmore⟩,
    Machine.run_append.mpr ⟨l₁, hr₁, hr⟩, ?_⟩
  simpa using hpos

end

/-- A component and a bridge whose world model answers every query with a result that has its
id: over any order of calls, deliveries, steps, answers and restarts of the actor, nothing
fails and no walk over the query list gets stuck. The queries are answered in the order of the
calls, so the list always holds the last ones, each with one place on the way around, and the
world model has got the first ones, once. Wherever the run ends, deliveries, answers and steps
empty the list. -/
theorem queries_answered {J : Jansson} (hJ : J.RoundTrips) {ext : InitExtern} {b : ZyreBridge}
    (hb : b.Initialised ext) (zuuid : Nat → Bytes)
    {respond : PortWrite → PortMessage b.config.maxMsgLength} {acts : List (LoopAction J b)}
    (ha : ∀ a ∈ acts, a.Proper respond) {self : Component} (hself : self.queryList = [])
    (fuel : Nat) :
    ∃ l, (loopMachine J zuuid b respond (fuel + 1)).run (.start self) acts = .ok l ∧
      l.component.uids <:+ (askedIn acts).map Asked.id ∧
      l.component.uids.length = l.results.length + l.out.zyreOut.length +
        (l.actor.zyreIn.length - l.answered) + l.queries.length ∧
      l.actor.zyreIn <+: (askedIn acts).map Asked.written ∧
      (l.actor.loop = .running → 0 < b.config.maxSend.toInt →
        ∃ more l', (∀ a ∈ more, a.Moves) ∧
          (loopMachine J zuuid b respond (fuel + 1)).run l more = .ok l' ∧
          l'.component.queryList = [] ∧
          l'.actor.zyreIn = (askedIn acts).map Asked.written) := by
  obtain ⟨l, hr, through, returning, answered, reading, asking, hpos, hall⟩ :=
    run_inOrder hJ hb hself ha
  have hresults := hpos.results.length_eq
  have hport := hpos.zyreOut.length_eq
  refine ⟨l, hr, ?_, ?_, ?_, fun hrun hk ↦ ?_⟩
  · rw [hpos.uids, ← hall]
    exact ⟨through.map Asked.id, by simp⟩
  · rw [hpos.uids, hpos.zyreIn, hpos.count, hpos.queries, ← hresults, ← hport]
    simp only [List.length_map, List.length_append]
    omega
  · rw [hpos.zyreIn, ← hall]
    exact ⟨asking.map Asked.written, by simp⟩
  · have hq : ∀ q ∈ reading ++ asking, q.Answered respond := by
      intro q hmem
      apply answered_of_mem ha
      rw [← hall, List.append_assoc]
      exact List.mem_append_right _ hmem
    obtain ⟨more, l', hmoves, hr', hpos'⟩ := hpos.exists_moves hJ hb hk hq hrun
    refine ⟨more, l', hmoves, hr', ?_, ?_⟩
    · exact List.map_eq_nil_iff.mp hpos'.uids
    · rw [hpos'.zyreIn, ← hall]
      simp

/-- The first query of the example. -/
def rootQuery : SendCall .reference := .query (some (ofString "GET_ROOT_NODE")) none

/-- A world model that answers it. -/
def rootResult : PortMessage plainBridge.config.maxMsgLength :=
  ⟨ofString "\x7b\"@worldmodeltype\":\"RSGQueryResult\",\"queryId\":\"5e3f\"\x7d", by decide,
    by decide⟩

/-- It has the id of the example. -/
theorem rootResult_typed :
    IsTyped .reference rootResult.bytes
      (.object [(ofString "@worldmodeltype", .string (ofString "RSGQueryResult")),
        (ofString "queryId", .string (ofString "5e3f"))]) (ofString "RSGQueryResult") :=
  ⟨rfl, rfl⟩

/-- The query is waited for, and can be answered. -/
theorem queries_answered_root :
    ∃ l, (loopMachine .reference (fun _ ↦ ofString "1F") plainBridge (fun _ ↦ rootResult) 1).run
        (.start idleComponent) [.ask rootQuery testUuid] = .ok l ∧
      l.component.uids = [ofString "5e3f"] ∧
      ∃ more l', (∀ a ∈ more, a.Moves) ∧
        (loopMachine .reference (fun _ ↦ ofString "1F") plainBridge (fun _ ↦ rootResult) 1).run
          l more = .ok l' ∧ l'.component.queryList = [] := by
  have hproper : ∀ a ∈ ([.ask rootQuery testUuid] : List (LoopAction .reference plainBridge)),
      a.Proper fun _ ↦ rootResult := by
    intro a ha
    obtain rfl := List.mem_singleton.mp ha
    have hid : (rootQuery.payload testUuid).objectGet (ofString "queryId") =
        some (.string (ofString "5e3f")) := by
      rw [payload_queryId]
      rfl
    exact fun _ ↦ ⟨rfl, by decide, _, _, rootResult_typed, by decide, by decide, hid ▸ rfl⟩
  have hempty : idleComponent.queryList = [] := rfl
  obtain ⟨l, hr, -, -, -, hmore⟩ := queries_answered Jansson.reference_roundTrips
    plainBridge_initialised (fun _ ↦ ofString "1F") hproper hempty 0
  have hl := Except.ok.inj hr
  have hrun : l.actor.loop = .running := by
    rw [← hl]
    rfl
  obtain ⟨more, l', hmoves, hr', hdone, -⟩ := hmore hrun (by decide)
  refine ⟨l, hr, ?_, more, l', hmoves, hr', hdone⟩
  rw [← hl]
  rfl

end Ubx.SendMsg
