import Ubx.Json.Losses
import Ubx.Zyre.Balance
import Ubx.Zyre.Input

/-!
# What a zyre bridge loses

Both directions of a bridge on the heap of the library, over whole runs. Nobody gives up the
value that the actor gets from `json_loads`, and the step loses some with every message that
it can parse. So the bridge runs on the heap as it does on values, and keeps a value for every
text parsed; `src/zyre_bridge/src/zyre_bridge.cpp:250–465`.
-/

namespace Ubx.Zyre

open Ubx.Base Ubx.Json

/-- A bridge with both directions. -/
structure BridgeState where
  out : StepWorld
  actor : ActorState
  /-- Contents of shouts that the actor has given to `json_loads`. -/
  heard : List Bytes

/-- What can happen to a bridge. -/
inductive BridgeAction (b : ZyreBridge)
  /-- The world model writes to port `zyre_out`. -/
  | write (m : Bytes)
  | step (tmpStr : Vector UInt8 (mallocSize b.inf.maxMsgLength))
  | event (e : ActorEvent)
  /-- `zyre_bridge_start`: a new actor. -/
  | start

/-- `json_loads` decodes the text. -/
def decodes (J : Jansson) (text : Bytes) : Bool := (J.loads text).isSome

/-- Before the first action. -/
def BridgeState.start : BridgeState := ⟨.start [], .start, []⟩

/-- What the actor gives to `json_loads` on an event. -/
def heardFrom (s : ActorState) (e : ActorEvent) : List Bytes :=
  if s.loop = .running then (shoutContent e).toList else []

/-- The bridge on values. -/
def bridgeMachine (J : Jansson) (zuuid : Nat → Bytes) (b : ZyreBridge) :
    Machine BridgeState (BridgeAction b) Fault where
  step s
    | .write m => .ok { s with out := { s.out with zyreOut := s.out.zyreOut ++ [m] } }
    | .step tmpStr => (zyreBridgeStep J zuuid b tmpStr s.out).map fun w ↦ { s with out := w }
    | .event e => ((zyreBridgeActor J b.inf).step s.actor e).map fun a ↦
        { s with actor := a, heard := s.heard ++ heardFrom s.actor e }
    | .start => .ok { s with actor := { s.actor with loop := .running } }

namespace Refs

section

variable (J : Jansson) (zuuid : Nat → Bytes)

/-- The loop over `input_type_list`; `zyre_bridge.cpp:423–435`. -/
def inputLoop (m : Ptr) (type : Bytes) : List Bytes → List PortWrite →
    HeapM (Except Fault (List PortWrite))
  | [], zyreIn => pure (.ok zyreIn)
  | t :: ts, zyreIn =>
    if strCompare t type = 0 then do
      let data ← jsonDumpsMember J m (ofString "payload")
      -- this text goes to `printf`
      let _ ← jsonDumpsMember J m (ofString "payload")
      let text ← jsonDumpsMember J m (ofString "payload")
      match strlen text with
      | .error f => pure (.error f)
      | .ok len =>
        match portWrite data len zyreIn with
        | .error f => pure (.error f)
        | .ok zyreIn => inputLoop m type ts zyreIn
    else inputLoop m type ts zyreIn

/-- The SHOUT branch with a value that has been decoded; `zyre_bridge.cpp:416–438`. -/
def typeBranch (inf : ZyreBridgeInfo) (m : Ptr) (zyreIn : List PortWrite) :
    HeapM (Except Fault (List PortWrite)) := do
  let ty ← jsonObjectGet m (ofString "type")
  if ty = none then pure (.ok zyreIn)
  else do
    let ty ← jsonDumpsMember J m (ofString "type")
    match ty with
    | none => pure (.error .stringFromNull)
    | some ty =>
      let type := cString ty
      match substr type 1 (sizeSub type.length 2) with
      | none => pure (.error .outOfRange)
      | some type => do
        -- so does this one
        let _ ← jsonDumpsMember J m (ofString "type")
        inputLoop J m type inf.inputTypeList zyreIn

/-- The SHOUT branch once `message` is popped; `zyre_bridge.cpp:408–438`. -/
def shoutBranch (inf : ZyreBridgeInfo) (message : Option Bytes) (zyreIn : List PortWrite) :
    HeapM (Except Fault (List PortWrite)) :=
  match message with
  -- `json_loads` of NULL gives NULL
  | none => pure (.ok zyreIn)
  | some message => do
    let m ← jsonLoads J message
    match m with
    | none => do
      jsonDecref none
      pure (.ok zyreIn)
    | some m => typeBranch J inf m zyreIn

/-- A message from the Zyre network; `zyre_bridge.cpp:389–460`. -/
def zyreMessage (inf : ZyreBridgeInfo) (msg : Option (List Bytes)) (s : ActorState) :
    HeapM (Except Fault ActorState) :=
  match msg with
  | none => pure (.error .assertFailed)
  | some msg =>
    let (event, msg) := zmsgPopstr msg
    let (_peer, msg) := zmsgPopstr msg
    let (_name, msg) := zmsgPopstr msg
    match event with
    | none => pure (.error .streqNull)
    | some event =>
      if event = ofString "ENTER" then pure (.ok s)
      else if event = ofString "EXIT" then pure (.ok s)
      else if event = ofString "SHOUT" then do
        let (_group, msg) := zmsgPopstr msg
        let (message, _) := zmsgPopstr msg
        let zyreIn ← shoutBranch J inf message s.zyreIn
        pure (zyreIn.map fun zyreIn ↦ { s with zyreIn := zyreIn })
      else pure (.ok s)

/-- One pass of the loop of the actor; `zyre_bridge.cpp:371–461`. -/
def actorStep (inf : ZyreBridgeInfo) (s : ActorState) (e : ActorEvent) :
    HeapM (Except Fault ActorState) :=
  if s.loop = .running then
    match e with
    | .pipe msg => pure (pipeMessage msg s)
    | .zyre msg => zyreMessage J inf msg s
    | .other => pure (.ok s)
  else pure (.ok s)

/-- The receive loop of the step; `zyre_bridge.cpp:267–352`. The UUIDs drawn are those of the
loop on values. -/
def stepLoop (b : ZyreBridge) : Nat → Bytes → StepWorld → HeapM (Except Fault StepWorld)
  | 0, _, w => pure (.ok w)
  | k + 1, tmpStr, w =>
    match w.zyreOut with
    | [] => pure (.ok w)
    | m :: rest =>
      if m.length ≤ 0 then pure (.ok { w with zyreOut := rest, log := w.log ++ [⟨m, none⟩] })
      else if tmpStr.length ≤ m.length then pure (.error .bufferOverrun)
      else do
        let tmpStr := (m ++ tmpStr.drop m.length).set m.length 0
        let res ← iteration J b (zuuid w.drawn) tmpStr
        match res with
        | .error f => pure (.error f)
        | .ok none => pure (.ok { w with zyreOut := rest, log := w.log ++ [⟨m, none⟩] })
        | .ok (some sendMsg) =>
          stepLoop b k tmpStr
            { zyreOut := rest
              log := w.log ++ [⟨m, some sendMsg⟩]
              drawn := drawnBy J b w.drawn [m] }

/-- An action of the bridge. -/
def bridgeStep (b : ZyreBridge) (s : BridgeState) :
    BridgeAction b → HeapM (Except Fault BridgeState)
  | .write m => pure (.ok { s with out := { s.out with zyreOut := s.out.zyreOut ++ [m] } })
  | .step tmpStr => do
    let w ← stepLoop J zuuid b b.inf.maxSend.toNatClampNeg tmpStr.toList s.out
    pure (w.map fun w ↦ { s with out := w })
  | .event e => do
    let a ← actorStep J b.inf s.actor e
    pure (a.map fun a ↦ { s with actor := a, heard := s.heard ++ heardFrom s.actor e })
  | .start => pure (.ok { s with actor := { s.actor with loop := .running } })

end

/-! ### The actor -/

section

variable {J : Jansson} {start n : Nat} {h : Heap} {held : List Nat}
  {vals : List (Json × Ptr)} {v : Json} {p : Ptr} {inf : ZyreBridgeInfo}

/-- The loop reads the payload and leaves the heap as it is. -/
theorem inputLoop_spec (hb : Balance start n h held [] vals) (hv : (v, p) ∈ vals)
    (type : Bytes) (types : List Bytes) (zyreIn : List PortWrite) :
    Ensures (inputLoop J p type types zyreIn) h fun res h' ↦
      res = Zyre.inputLoop J v type types zyreIn ∧ h = h' := by
  induction types generalizing zyreIn with
  | nil => exact .pure ⟨rfl, rfl⟩
  | cons t ts ih =>
    rw [inputLoop, Zyre.inputLoop]
    have hdump := hb.dumpsMember hv J (ofString "payload")
    by_cases ht : strCompare t type = 0
    · rw [if_pos ht, if_pos ht]
      apply hdump.bind
      rintro _ _ ⟨rfl, rfl⟩
      apply hdump.bind
      rintro _ _ ⟨rfl, rfl⟩
      apply hdump.bind
      rintro _ _ ⟨rfl, rfl⟩
      cases J.jsonDumps (v.objectGet (ofString "payload")) with
      | none => exact .pure ⟨rfl, rfl⟩
      | some text => exact ih _
    · rw [if_neg ht, if_neg ht]
      exact ih zyreIn

/-- So does the branch. -/
theorem typeBranch_spec (hb : Balance start n h held [] vals) (hv : (v, p) ∈ vals)
    (zyreIn : List PortWrite) {message : Bytes} (hm : J.loads message = some v) :
    Ensures (typeBranch J inf p zyreIn) h fun res h' ↦
      res = Zyre.shoutBranch J inf (some message) zyreIn ∧ h = h' := by
  rw [Zyre.shoutBranch]
  simp only [Jansson.jsonLoads, Option.bind_some, hm]
  have hdump := hb.dumpsMember hv J (ofString "type")
  apply (hb.member hv (ofString "type")).bind
  rintro o _ ⟨ho, rfl⟩
  cases hty : v.objectGet (ofString "type") with
  | none =>
    rw [hty] at ho
    cases ho
    exact .pure ⟨rfl, rfl⟩
  | some ty =>
    rw [hty] at ho
    cases ho
    rw [if_neg (by simp)]
    apply hdump.bind
    rintro _ _ ⟨rfl, rfl⟩
    simp only [hty, Jansson.jsonDumps, Option.map_some]
    cases substr (cString (J.dumps ty)) 1 (sizeSub (cString (J.dumps ty)).length 2) with
    | none => exact .pure ⟨rfl, rfl⟩
    | some type =>
      apply hdump.bind
      rintro _ _ ⟨-, rfl⟩
      exact inputLoop_spec hb hv type _ zyreIn

/-- The SHOUT branch writes what the model on values says, and nobody gives up the value that
has been decoded. -/
theorem shoutBranch_spec (hJ : J.Documented) (hc : Counted h held) (inf : ZyreBridgeInfo)
    (message : Option Bytes) (zyreIn : List PortWrite) :
    Ensures (shoutBranch J inf message zyreIn) h fun res h' ↦
      res = Zyre.shoutBranch J inf message zyreIn ∧
        Balance h.cells.length (message.toList.countP (decodes J)) h' held [] [] ∧
          (message.toList.countP (decodes J) = 0 → h' = h) := by
  have hbegin : Balance h.cells.length 0 h held [] [] := ⟨[], rfl, by simp, .begin hc⟩
  cases message with
  | none => exact .pure ⟨rfl, hbegin, fun _ ↦ rfl⟩
  | some message =>
    rw [Option.toList_some, List.countP_singleton, decodes]
    cases hm : J.loads message with
    | none =>
      have hload : Ensures (jsonLoads J message) h fun o h' ↦ o = none ∧ h = h' :=
        ⟨none, h, by simp only [jsonLoads, hm], rfl, rfl⟩
      apply hload.bind
      rintro _ _ ⟨rfl, rfl⟩
      refine .pure ⟨?_, hbegin, fun _ ↦ rfl⟩
      simp only [Zyre.shoutBranch, Jansson.jsonLoads, Option.bind_some, hm]
    | some v =>
      apply (hbegin.load hm).bind
      rintro _ h₁ ⟨p, rfl, hp, hb₁⟩
      obtain ⟨r, rfl⟩ := exists_cell hJ hm (hb₁.reads List.mem_cons_self).1
      apply (typeBranch_spec hb₁ List.mem_cons_self zyreIn hm).mono
      rintro res _ ⟨hres, rfl⟩
      exact ⟨hres, hb₁.settle.lose (hp r (by simp [Ptr.refs])), by simp⟩

/-- The event handler once the first frame is known. -/
theorem zyreMessage_cons (frame : Bytes) (rest : List Bytes) (s : ActorState) :
    zyreMessage J inf (some (frame :: rest)) s =
      if cString frame = ofString "SHOUT" then do
        let zyreIn ← shoutBranch J inf (rest[3]?.map cString) s.zyreIn
        pure (zyreIn.map fun zyreIn ↦ { s with zyreIn := zyreIn })
      else pure (.ok s) := by
  have hpop : (zmsgPopstr (zmsgPopstr (zmsgPopstr (zmsgPopstr rest).2).2).2).1 =
      rest[3]?.map cString := by
    rcases rest with _ | ⟨_, _ | ⟨_, _ | ⟨_, _ | _⟩⟩⟩ <;> rfl
  rw [zyreMessage]
  simp only [zmsgPopstr] at hpop ⊢
  rw [hpop]
  split
  · next h =>
    rw [if_neg (by rw [h]; decide)]
  split
  · next h =>
    rw [if_neg (by rw [h]; decide)]
  rfl

/-- A pass of the loop of the actor. -/
theorem actorStep_spec (hJ : J.Documented) (hc : Counted h held) (inf : ZyreBridgeInfo)
    (s : ActorState) (e : ActorEvent) :
    Ensures (actorStep J inf s e) h fun res h' ↦
      res = (zyreBridgeActor J inf).step s e ∧
        Balance h.cells.length ((heardFrom s e).countP (decodes J)) h' held [] [] ∧
          ((heardFrom s e).countP (decodes J) = 0 → h' = h) := by
  have hbegin : Balance h.cells.length 0 h held [] [] := ⟨[], rfl, by simp, .begin hc⟩
  rw [zyreBridgeActor, heardFrom]
  by_cases hs : s.loop = .running
  · rw [if_pos hs]
    simp only [actorStep, if_pos hs]
    cases e with
    | pipe msg => exact .pure ⟨rfl, hbegin, fun _ ↦ rfl⟩
    | other => exact .pure ⟨rfl, hbegin, fun _ ↦ rfl⟩
    | zyre msg =>
      rcases msg with _ | _ | ⟨frame, rest⟩
      · exact .pure ⟨rfl, hbegin, fun _ ↦ rfl⟩
      · exact .pure ⟨rfl, hbegin, fun _ ↦ rfl⟩
      · simp only [zyreMessage_cons, Zyre.zyreMessage_cons, shoutContent]
        by_cases hf : cString frame = ofString "SHOUT"
        · simp only [if_pos hf]
          apply (shoutBranch_spec hJ hc inf (rest[3]?.map cString) s.zyreIn).bind
          rintro _ h' ⟨rfl, hb, hsame⟩
          exact .pure ⟨rfl, hb, hsame⟩
        · simp only [if_neg hf]
          exact .pure ⟨rfl, hbegin, fun _ ↦ rfl⟩
  · rw [if_neg hs]
    simp only [actorStep, if_neg hs]
    exact .pure ⟨rfl, hbegin, fun _ ↦ rfl⟩

end

/-! ### The step -/

section

variable {J : Jansson} {zuuid : Nat → Bytes} {b : ZyreBridge} {ext : InitExtern}

/-- References lost with a message that has been read, by an initialised bridge. -/
def messageRefs (J : Jansson) (b : ZyreBridge) (m : Bytes) : Nat :=
  if m.isEmpty then 0
  else
    match J.loads (cString m) with
    | none => 0
    | some pl =>
      match pl.objectGet (ofString "@worldmodeltype") with
      | none => 2
      | some ty =>
        match ty.stringValue with
        | none => 3
        | some s => if mediated b (cString s) then 12 else 3

/-- These are the references lost in the iteration on any buffer that starts with it. -/
theorem lostRefs_eq (hJ : J.Documented) (hb : b.Initialised ext) {uid m tmpStr : Bytes}
    (hu : Json.ValidString uid) (hl : Json.ValidString b.inf.node.uuid) (hm : ¬ m.length ≤ 0)
    (ht : cString tmpStr = cString m) : lostRefs J b uid tmpStr = messageRefs J b m := by
  have hempty : ¬ m.isEmpty = true := by
    rw [List.isEmpty_iff_length_eq_zero]
    omega
  rw [lostRefs, messageRefs, if_neg hempty, ht]
  cases hloads : J.loads (cString m) with
  | none => rfl
  | some pl =>
    dsimp only
    cases hty : pl.objectGet (ofString "@worldmodeltype") with
    | none => rfl
    | some ty =>
      dsimp only
      cases hs : ty.stringValue with
      | none => rfl
      | some s =>
        dsimp only
        have hvalid := valid_type hJ hloads hty hs
        rw [loopRefs, hb.outputTypeList_eq, if_pos (exists_mem_outputTypeList_ne _), bodyRefs,
          textRefs_of_valid hvalid, requestRefs, textRefs_of_valid hu, textRefs_of_valid hl,
          textRefs_of_valid (by decide)]
        by_cases hmed : mediated b (cString s) = true
        · rw [if_pos hmed, if_pos hmed]
        · rw [if_neg hmed, if_neg hmed]

/-- A message loses references exactly if it is decoded. -/
theorem min_messageRefs (J : Jansson) (b : ZyreBridge) (m : Bytes) :
    min (messageRefs J b m) 1 =
      if !m.isEmpty && decodes J (cString m) then 1 else 0 := by
  rw [messageRefs, decodes]
  by_cases hm : m.isEmpty = true
  · simp [hm]
  · rw [if_neg hm]
    cases J.loads (cString m) with
    | none => simp
    | some pl =>
      dsimp only
      have hpos : (!m.isEmpty && (some pl).isSome) = true := by simpa using hm
      rw [if_pos hpos]
      cases pl.objectGet (ofString "@worldmodeltype") with
      | none => rfl
      | some ty =>
        dsimp only
        cases ty.stringValue with
        | none => rfl
        | some s =>
          dsimp only
          split <;> rfl

/-- References lost with the messages of a log. -/
def logRefs (J : Jansson) (b : ZyreBridge) (log : List Iteration) : Nat :=
  (log.map fun i ↦ messageRefs J b i.message).sum

/-- Texts of a log that have been given to `json_loads`. -/
def logTexts (log : List Iteration) : List Bytes :=
  ((log.map Iteration.message).filter (!·.isEmpty)).map cString

/-- One more entry. -/
theorem logRefs_concat (log : List Iteration) (m : Bytes) (shout : Option (Option Bytes)) :
    logRefs J b (log ++ [⟨m, shout⟩]) = logRefs J b log + messageRefs J b m := by
  simp [logRefs]

/-- One more text, if there is any. -/
theorem countP_logTexts_concat (log : List Iteration) (m : Bytes) (shout : Option (Option Bytes)) :
    (logTexts (log ++ [⟨m, shout⟩])).countP (decodes J) =
      (logTexts log).countP (decodes J) + min (messageRefs J b m) 1 := by
  rw [min_messageRefs, logTexts, List.map_append, List.filter_append, List.map_append,
    List.countP_append, logTexts]
  congr 1
  cases m with
  | nil => rfl
  | cons x m => simp [List.countP_singleton]

/-- A pass of the loop on values, by what becomes of its message. -/
theorem stepLoop_cons (k : Nat) {tmpStr m : Bytes} (rest : List Bytes) (log : List Iteration)
    (drawn : Nat) (hm : ¬ m.length ≤ 0) (hfit : ¬ tmpStr.length ≤ m.length) :
    Zyre.stepLoop J zuuid b (k + 1) tmpStr ⟨m :: rest, log, drawn⟩ =
      match outcome J b (zuuid drawn) m with
      | .error f => .error f
      | .ok none => .ok ⟨rest, log ++ [⟨m, none⟩], drawn⟩
      | .ok (some sendMsg) =>
        Zyre.stepLoop J zuuid b k ((m ++ tmpStr.drop m.length).set m.length 0)
          ⟨rest, log ++ [⟨m, some sendMsg⟩], drawnBy J b drawn [m]⟩ := by
  have hlt : m.length < tmpStr.length := by omega
  rw [Zyre.stepLoop]
  simp only [if_neg hm, if_neg hfit, cString_buffer hlt, Zyre.typeLoop_eq, sendBody_eq, outcome,
    drawnBy, classify]
  cases J.loads (cString m) with
  | none => rfl
  | some pl =>
    dsimp only
    cases pl.objectGet (ofString "@worldmodeltype") with
    | none => rfl
    | some ty =>
      dsimp only
      cases ty.stringValue with
      | none => rfl
      | some s =>
        dsimp only [shoutOf, drawnOf]
        split <;> rfl

/-- An iteration on a buffer that starts with a message. -/
theorem iteration_leaks (hJ : J.Documented) (hb : b.Initialised ext) {uid m tmpStr : Bytes}
    (hu : Json.ValidString uid) (hl : Json.ValidString b.inf.node.uuid) (hm : ¬ m.length ≤ 0)
    (ht : cString tmpStr = cString m) {h : Heap} {held : List Nat} (hc : Counted h held) :
    Ensures (iteration J b uid tmpStr) h fun res h' ↦ res = outcome J b uid m ∧
      Balance h.cells.length (messageRefs J b m) h' held [] [] ∧
        (messageRefs J b m = 0 → h' = h) := by
  have hbegin : Balance h.cells.length 0 h held [] [] := ⟨[], rfl, by simp, .begin hc⟩
  have hsame : outcome J b uid tmpStr = outcome J b uid m := by
    rw [outcome, outcome, classify, classify, ht]
  have hrefs := lostRefs_eq hJ hb hu hl hm ht
  cases hloads : J.loads (cString m) with
  | none =>
    have hzero : messageRefs J b m = 0 := by
      rw [← hrefs, lostRefs, ht, hloads]
    refine ⟨_, _, iteration_of_loads_none (by rw [ht, hloads]) b uid h, ?_, ?_, fun _ ↦ rfl⟩
    · simp only [outcome, classify, hloads]
    · rw [hzero]
      exact hbegin
  | some pl =>
    have hpos := min_messageRefs J b m
    have hempty : m.isEmpty = false := by
      rw [List.isEmpty_eq_false_iff, ← List.length_pos_iff]
      omega
    rw [hempty, decodes, hloads, if_pos (by rfl)] at hpos
    apply (iteration_spec hbegin b uid tmpStr).mono
    rintro res h' ⟨hres, -, hb'⟩
    refine ⟨(hres hJ hu hl).trans hsame, ?_, fun hzero ↦ ?_⟩
    · rwa [← hrefs, ← Nat.zero_add (lostRefs J b uid tmpStr)]
    · omega

/-- The receive loop: what is lost can be read off its log. -/
theorem stepLoop_spec (hJ : J.Documented) (hb : b.Initialised ext)
    (hu : ∀ i, Json.ValidString (zuuid i)) (hl : Json.ValidString b.inf.node.uuid) {h₀ : Heap}
    {held : List Nat} {n c : Nat} (k : Nat) (tmpStr : Bytes) (w : StepWorld) {h : Heap}
    (hleaks : Leaks h₀ (n + logRefs J b w.log) (c + (logTexts w.log).countP (decodes J)) h held) :
    Ensures (stepLoop J zuuid b k tmpStr w) h fun res h' ↦
      res = Zyre.stepLoop J zuuid b k tmpStr w ∧ ∀ w', res = .ok w' →
        Leaks h₀ (n + logRefs J b w'.log) (c + (logTexts w'.log).countP (decodes J)) h' held := by
  induction k generalizing tmpStr w h with
  | zero => exact .pure ⟨rfl, fun w' hw ↦ Except.ok.inj hw ▸ hleaks⟩
  | succ k ih =>
    obtain ⟨queue, log, drawn⟩ := w
    cases queue with
    | nil => exact .pure ⟨rfl, fun w' hw ↦ Except.ok.inj hw ▸ hleaks⟩
    | cons m rest =>
      rw [stepLoop]
      by_cases hm : m.length ≤ 0
      · have hzero : messageRefs J b m = 0 := by
          rw [messageRefs, if_pos (List.isEmpty_iff_length_eq_zero.mpr (by omega))]
        simp only [if_pos hm, Zyre.stepLoop]
        refine .pure ⟨rfl, fun w' hw ↦ ?_⟩
        obtain rfl := Except.ok.inj hw
        rwa [logRefs_concat, countP_logTexts_concat, hzero]
      · by_cases hfit : tmpStr.length ≤ m.length
        · simp only [if_neg hm, if_pos hfit, Zyre.stepLoop]
          exact .pure ⟨rfl, by simp⟩
        · simp only [if_neg hm, if_neg hfit, stepLoop_cons k rest log drawn hm hfit]
          have hlt : m.length < tmpStr.length := by omega
          have hnext := hleaks.next fun held hc ↦
            iteration_leaks hJ hb (hu drawn) hl hm (cString_buffer hlt) hc
          rw [Nat.add_assoc, Nat.add_assoc] at hnext
          apply hnext.bind
          rintro _ h₁ ⟨rfl, hleaks₁⟩
          rcases outcome J b (zuuid drawn) m with f | _ | sendMsg
          · exact .pure ⟨rfl, by simp⟩
          · refine .pure ⟨rfl, fun w' hw ↦ ?_⟩
            obtain rfl := Except.ok.inj hw
            rwa [logRefs_concat, countP_logTexts_concat]
          · apply ih
            rwa [logRefs_concat, countP_logTexts_concat]

/-- Nothing is lost with the messages of a log exactly if none of them is decoded. -/
theorem logRefs_eq_zero_iff (log : List Iteration) :
    logRefs J b log = 0 ↔ (logTexts log).countP (decodes J) = 0 := by
  induction log using List.reverseRecOn with
  | nil => exact Iff.rfl
  | append_singleton log i ih =>
    rw [logRefs_concat, countP_logTexts_concat (b := b)]
    omega

/-- References lost by a bridge. -/
def lostIn (J : Jansson) (b : ZyreBridge) (s : BridgeState) : Nat :=
  s.heard.countP (decodes J) + logRefs J b s.out.log

/-- Texts that it has given to `json_loads`. -/
def parsedIn (s : BridgeState) : List Bytes := s.heard ++ logTexts s.out.log

/-- An action of the bridge on the heap. -/
theorem bridgeStep_spec (hJ : J.Documented) (hb : b.Initialised ext)
    (hu : ∀ i, Json.ValidString (zuuid i)) (hl : Json.ValidString b.inf.node.uuid) {h₀ : Heap}
    {held : List Nat} (s : BridgeState) (a : BridgeAction b) (h : Heap)
    (hleaks : Leaks h₀ (lostIn J b s) ((parsedIn s).countP (decodes J)) h held) :
    Ensures (bridgeStep J zuuid b s a) h fun res h' ↦
      res = (bridgeMachine J zuuid b).step s a ∧ ∀ s', res = .ok s' →
        Leaks h₀ (lostIn J b s') ((parsedIn s').countP (decodes J)) h' held := by
  cases a with
  | write m => exact .pure ⟨rfl, fun s' hs ↦ Except.ok.inj hs ▸ hleaks⟩
  | start => exact .pure ⟨rfl, fun s' hs ↦ Except.ok.inj hs ▸ hleaks⟩
  | step tmpStr =>
    rw [lostIn, parsedIn, List.countP_append] at hleaks
    apply (stepLoop_spec hJ hb hu hl b.inf.maxSend.toNatClampNeg tmpStr.toList s.out hleaks).bind
    rintro res h' ⟨rfl, hleaks'⟩
    refine .pure ⟨rfl, fun s' hs ↦ ?_⟩
    generalize Zyre.stepLoop J zuuid b b.inf.maxSend.toNatClampNeg tmpStr.toList s.out = res
      at hs hleaks'
    cases res with
    | error f => cases hs
    | ok w =>
      obtain rfl := Except.ok.inj hs
      rw [lostIn, parsedIn, List.countP_append]
      exact hleaks' w rfl
  | event e =>
    have hone : min ((heardFrom s.actor e).countP (decodes J)) 1 =
        (heardFrom s.actor e).countP (decodes J) := by
      have hle := List.countP_le_length (p := decodes J) (l := heardFrom s.actor e)
      have hlen : (heardFrom s.actor e).length ≤ 1 := by
        rw [heardFrom]
        split
        · cases shoutContent e <;> simp
        · simp
      omega
    apply (hleaks.next fun held hc ↦ actorStep_spec hJ hc b.inf s.actor e).bind
    rintro _ h' ⟨rfl, hleaks'⟩
    refine .pure ⟨rfl, fun s' hs ↦ ?_⟩
    rw [hone] at hleaks'
    generalize (zyreBridgeActor J b.inf).step s.actor e = res at hs
    cases res with
    | error f => cases hs
    | ok t =>
      obtain rfl := Except.ok.inj hs
      have hlost : lostIn J b ⟨s.out, t, s.heard ++ heardFrom s.actor e⟩ =
          lostIn J b s + (heardFrom s.actor e).countP (decodes J) := by
        simp only [lostIn, List.countP_append]
        omega
      have hparsed : (parsedIn ⟨s.out, t, s.heard ++ heardFrom s.actor e⟩).countP (decodes J) =
          (parsedIn s).countP (decodes J) + (heardFrom s.actor e).countP (decodes J) := by
        simp only [parsedIn, List.countP_append]
        omega
      show Leaks h₀ (lostIn J b ⟨s.out, t, _⟩) ((parsedIn ⟨s.out, t, _⟩).countP _) h' held
      rwa [hlost, hparsed]

end

end Refs

/-- A bridge runs on the heap as it does on values, and uses no value after its release, not even
before a fault. It loses two references with a message that has no type, three with any other
that is decoded, twelve with an update through the mediator, and one with a shout that is
decoded. So every text decoded leaves a value behind that nobody gives up, and everything is
released only if there is none. -/
theorem bridge_losses {J : Jansson} (hJ : J.Documented) {ext : InitExtern} {b : ZyreBridge}
    (hb : b.Initialised ext) {zuuid : Nat → Bytes} (hu : ∀ i, Json.ValidString (zuuid i))
    (hl : Json.ValidString b.inf.node.uuid) {h : Heap} {held : List Nat} (hc : Counted h held)
    (acts : List (BridgeAction b)) :
    (∀ f, (bridgeMachine J zuuid b).run .start acts = .error f →
      (heapMachine (Refs.bridgeStep J zuuid b)).run (h, .start) acts = .error (.fault f)) ∧
    ∀ s, (bridgeMachine J zuuid b).run .start acts = .ok s →
      ∃ h', ∃ lost left : List Nat,
        (heapMachine (Refs.bridgeStep J zuuid b)).run (h, .start) acts = .ok (h', s) ∧
        Counted h' (lost ++ held) ∧ (∀ q ∈ lost, h.cells.length ≤ q) ∧
        lost.length = s.heard.countP (decodes J) + (s.out.reads.map (Refs.messageRefs J b)).sum ∧
        left.Nodup ∧ left.length = (Refs.parsedIn s).countP (decodes J) ∧
        (∀ q ∈ left, h.cells.length ≤ q ∧ 0 < h'.refCount q) ∧
        (h.Released h' ↔ ∀ t ∈ Refs.parsedIn s, J.loads t = none) := by
  have hagrees := heapMachine_agrees (M := bridgeMachine J zuuid b) (s := .start)
    (L := fun s h' ↦ Leaks h (Refs.lostIn J b s) ((Refs.parsedIn s).countP (decodes J)) h' held)
    (Refs.bridgeStep_spec hJ hb hu hl) (.begin hc) acts
  generalize (bridgeMachine J zuuid b).run .start acts = x at hagrees ⊢
  generalize (heapMachine (Refs.bridgeStep J zuuid b)).run (h, .start) acts = y at hagrees ⊢
  cases hagrees with
  | error f => exact ⟨fun g hg ↦ Except.error.inj hg ▸ rfl, by simp⟩
  | @ok s t hst =>
    obtain ⟨h', s'⟩ := t
    obtain ⟨rfl, hleaks⟩ := hst
    refine ⟨by simp, fun s hs ↦ ?_⟩
    obtain rfl := Except.ok.inj hs
    obtain ⟨lost, hn, hfresh, hcounted, left, hsub, hnodup, hk⟩ := hleaks.lost
    refine ⟨h', lost, left, rfl, hcounted, hfresh, ?_, hnodup, hk, fun q hq ↦ ?_, ?_⟩
    · rw [hn, StepWorld.reads, List.map_map]
      rfl
    · exact ⟨hfresh q (hsub hq), hcounted.pos_of_held (List.mem_append_left held (hsub hq))⟩
    · rw [hleaks.released_iff]
      have hzero : Refs.lostIn J b s' = 0 ↔ (Refs.parsedIn s').countP (decodes J) = 0 := by
        have hlog := Refs.logRefs_eq_zero_iff (J := J) (b := b) s'.out.log
        rw [Refs.lostIn, Refs.parsedIn, List.countP_append]
        omega
      rw [hzero, List.countP_eq_zero]
      simp [decodes]

/-- A bridge with little room for messages, which uses the mediator. -/
def smallBridge : ZyreBridge :=
  bridgeWith { zyreTestBridge with maxMsgLength := 5 } inputTypeList outputTypeList ⟨ofString "0A"⟩

/-- An update of the world model, and a query from a peer. -/
def busyActions : List (BridgeAction smallBridge) :=
  [.write (ofString "\x7b\"@worldmodeltype\":\"RSGUpdate\"\x7d"), .step (.replicate _ 0),
    .event (.zyre (some [ofString "SHOUT", ofString "1B", ofString "peer", ofString "local",
      ofString "\x7b\"type\":\"RSGQuery\",\"payload\":[]\x7d"]))]

set_option maxRecDepth 20000 in
/-- They cost thirteen references, and two values are left behind. -/
theorem bridge_losses_busy :
    ∃ s h', ∃ lost left : List Nat,
      (heapMachine (Refs.bridgeStep .reference (fun _ ↦ ofString "1F") smallBridge)).run
        (⟨[]⟩, .start) busyActions = .ok (h', s) ∧
      lost.length = 13 ∧ Counted h' (lost ++ []) ∧ left.length = 2 ∧
      (∀ q ∈ left, 0 ≤ q ∧ 0 < h'.refCount q) := by
  have hinit : smallBridge.Initialised testExtern := ⟨_, rfl⟩
  have hrun : ∃ s, (bridgeMachine .reference (fun _ ↦ ofString "1F") smallBridge).run .start
      busyActions = .ok s ∧ s.heard.countP (decodes .reference) +
        (s.out.reads.map (Refs.messageRefs .reference smallBridge)).sum = 13 ∧
        (Refs.parsedIn s).countP (decodes .reference) = 2 := ⟨_, rfl, rfl, rfl⟩
  obtain ⟨s, hr, hlost, hparsed⟩ := hrun
  obtain ⟨h', lost, left, hheap, hc, -, hn, -, hk, hleft, -⟩ :=
    (bridge_losses Jansson.reference_documented hinit (fun _ ↦ by decide) (by decide)
      Refs.counted_empty busyActions).2 s hr
  exact ⟨s, h', lost, left, hheap, hn.trans hlost, hc, hk.trans hparsed, hleft⟩

end Ubx.Zyre
