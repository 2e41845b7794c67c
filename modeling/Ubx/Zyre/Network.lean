import Ubx.Base.Links
import Ubx.Zyre.Mediator

/-!
# A group of zyre bridges

Any number of bridges and of other peers in one Zyre group. What a node shouts goes to every
node that it is connected to, in order; nodes enter and leave, actors are stopped and started.
A world model behind a bridge gets the messages of another one in the order in which they were
written, none of them twice, and all of them while both stay in the group.
-/

namespace Ubx.Zyre

open Ubx.Base

/-- The argument of `zyre_shouts`, if the iteration comes that far and it is not NULL. -/
def Iteration.text (it : Iteration) : Option Bytes := it.shout.join

/-- Texts shouted so far. -/
def StepWorld.texts (w : StepWorld) : List Bytes := w.log.filterMap Iteration.text

/-- Texts shouted between two states. -/
def textsSince (w w' : StepWorld) : List Bytes :=
  (w'.log.drop w.log.length).filterMap Iteration.text

/-- A SHOUT as the library hands it out. -/
def shoutEvent (peer name group text : Bytes) : ActorEvent :=
  .zyre (some [ofString "SHOUT", peer, name, group, text])

/-- Bridges `κ`, each with its sending and its receiving side, and their links to each other
and from other peers `π`. -/
structure Network (κ π : Type) where
  out : κ → StepWorld
  actor : κ → ActorState
  links : Links (κ ⊕ π) κ Bytes

/-- What can happen in a group. -/
inductive NetworkAction {κ : Type} (π : Type) (b : κ → ZyreBridge)
  /-- The world model behind bridge `i` writes, or `zyre_bridge_step` runs there. -/
  | out (i : κ) (a : StepAction (b i))
  /-- Another peer shouts. -/
  | shout (p : π) (text : Bytes)
  /-- The actor of `j` receives the next shout of `s`. -/
  | deliver (s : κ ⊕ π) (j : κ) (peer name group : Bytes)
  /-- The actor of `j` gets an event without any content of a shout. -/
  | event (j : κ) (e : ActorEvent) (quiet : shoutContent e = none)
  /-- `zyre_bridge_start` at `j`: a new actor on the same node. -/
  | start (j : κ)
  /-- Node `j` gets to know node `s`. -/
  | enter (s : κ ⊕ π) (j : κ)
  /-- Node `j` loses node `s`. -/
  | exit (s : κ ⊕ π) (j : κ)

section

variable {κ π : Type} [DecidableEq κ] [DecidableEq π]

/-- Before the first event, with some connections; no node is its own peer. -/
def Network.start (up : κ ⊕ π → κ → Bool) : Network κ π :=
  { out := fun _ ↦ .start []
    actor := fun _ ↦ .start
    links := .start fun s j ↦ decide (s ≠ .inl j) && up s j }

/-- One action. -/
def networkStep (J : Jansson) (zuuid : κ → Nat → Bytes) (b : κ → ZyreBridge) (g : Network κ π) :
    NetworkAction π b → Except Fault (Network κ π)
  | .out i a =>
    match (stepMachine J (zuuid i) (b i)).step (g.out i) a with
    | .error f => .error f
    | .ok w =>
      .ok { g with
        out := Function.update g.out i w
        links := g.links.send (.inl i) (textsSince (g.out i) w) }
  | .shout p text => .ok { g with links := g.links.send (.inr p) [text] }
  | .deliver s j peer name group =>
    match g.links.onWay s j with
    | [] => .ok g
    | text :: _ =>
      -- a stopped actor leaves the shout where it is
      if (g.actor j).loop = .running then
        match (zyreBridgeActor J (b j).inf).step (g.actor j) (shoutEvent peer name group text) with
        | .error f => .error f
        | .ok a =>
          .ok { g with actor := Function.update g.actor j a, links := g.links.deliver s j }
      else .ok g
  | .event j e _ =>
    match (zyreBridgeActor J (b j).inf).step (g.actor j) e with
    | .error f => .error f
    | .ok a => .ok { g with actor := Function.update g.actor j a }
  | .start j =>
    .ok { g with actor := Function.update g.actor j { g.actor j with loop := .running } }
  | .enter s j => if s = .inl j then .ok g else .ok { g with links := g.links.connect s j }
  | .exit s j => .ok { g with links := g.links.disconnect s j }

/-- A group as one machine. -/
def networkMachine (J : Jansson) (zuuid : κ → Nat → Bytes) (b : κ → ZyreBridge) :
    Machine (Network κ π) (NetworkAction π b) Fault where
  step := networkStep J zuuid b

variable {b : κ → ZyreBridge}

/-- The message that an action writes to port `zyre_out` of bridge `i`. -/
def NetworkAction.writtenAt (i : κ) : NetworkAction π b → Option Bytes
  | .out i' (.write m) => if i' = i then some m.bytes else none
  | _ => none

/-- The text that an action shouts as peer `p`. -/
def NetworkAction.shoutedBy (p : π) : NetworkAction π b → Option Bytes
  | .shout p' text => if p' = p then some text else none
  | _ => none

/-- Messages written to port `zyre_out` of bridge `i`, in order. -/
def written (i : κ) (acts : List (NetworkAction π b)) : List Bytes :=
  acts.filterMap (NetworkAction.writtenAt i)

/-- Texts shouted by peer `p`, in order. -/
def shouted (p : π) (acts : List (NetworkAction π b)) : List Bytes :=
  acts.filterMap (NetworkAction.shoutedBy p)

/-- What a node has shouted in a run. -/
def sent (acts : List (NetworkAction π b)) (g : Network κ π) : κ ⊕ π → List Bytes
  | .inl i => (g.out i).texts
  | .inr p => shouted p acts

/-- The payload that an actor hands to its world model for the content of a shout. -/
def handedOn (J : Jansson) (text : Bytes) : Option Json :=
  (acceptedEnvelope J inputTypeList (some (cString text))).bind
    (·.objectGet (ofString "payload"))

/-- The payload of a message that gets through a bridge and is accepted by others: of an
accepted type, not wrapped for the mediator, and in an envelope that others can read. -/
def passesOn (J : Jansson) (b : ZyreBridge) (m : Bytes) : Option Json :=
  match classify J m with
  | .typed pl t =>
    if inputTypeList.contains t && !mediated b t && J.Nests (envelope pl t) then some pl
    else none
  | _ => none

end

/-! ### One step of one side -/

section

variable {J : Jansson} {zuuid : Nat → Bytes} {b : ZyreBridge}

/-- An action only adds to the log. -/
theorem texts_step {w w' : StepWorld} (hfit : ∀ m ∈ w.zyreOut, Fits b m) {a : StepAction b}
    (hs : (stepMachine J zuuid b).step w a = .ok w') : w'.texts = w.texts ++ textsSince w w' := by
  have hlog : ∃ new, w'.log = w.log ++ new := by
    cases a with
    | write m =>
      obtain rfl := Except.ok.inj hs
      exact ⟨[], (List.append_nil _).symm⟩
    | step tmpStr =>
      obtain ⟨-, rfl⟩ := (zyreBridgeStep_eq_ok_iff hfit tmpStr).mp hs
      exact ⟨_, rfl⟩
  obtain ⟨new, hnew⟩ := hlog
  rw [StepWorld.texts, StepWorld.texts, textsSince, hnew, List.filterMap_append, List.drop_left]

/-- The actor hands on the payload of an accepted shout. -/
theorem zyreIn_of_shout (hJ : J.Documented) (hb : b.inf.inputTypeList = inputTypeList)
    {s s' : ActorState} (hs : s.loop = .running) {peer name group text : Bytes}
    (hstep : (zyreBridgeActor J b.inf).step s (shoutEvent peer name group text) = .ok s') :
    s'.zyreIn = s.zyreIn ++ (handedOn J text).toList.map (payloadWrite J) ∧
      s'.loop = .running := by
  have hframe : [peer, name, group, text][3]?.map cString = some (cString text) := rfl
  rw [shoutEvent, step_shout hs, hframe, shoutBranch_inputTypeList hJ hb] at hstep
  rw [handedOn]
  cases ha : acceptedEnvelope J inputTypeList (some (cString text)) with
  | none =>
    simp only [ha, Except.map, Except.ok.injEq] at hstep
    subst hstep
    simp [hs]
  | some m =>
    cases hp : m.objectGet (ofString "payload") with
    | none => simp [ha, hp, Except.map] at hstep
    | some p =>
      simp only [ha, hp, Except.map, Except.ok.injEq] at hstep
      subst hstep
      simp [hs, hp]

/-- An event without the content of a shout hands on nothing. -/
theorem zyreIn_of_quiet {s s' : ActorState} {e : ActorEvent} (he : shoutContent e = none)
    (hstep : (zyreBridgeActor J b.inf).step s e = .ok s') : s'.zyreIn = s.zyreIn := by
  rw [zyreBridgeActor] at hstep
  simp only at hstep
  split at hstep
  · cases e with
    | other => rw [← Except.ok.inj hstep]
    | pipe msg =>
      simp only [pipeMessage] at hstep
      split at hstep
      · rw [← Except.ok.inj hstep]
      · split at hstep
        · exact absurd hstep (by simp)
        · split at hstep <;> rw [← Except.ok.inj hstep]
    | zyre msg =>
      cases msg with
      | none => exact absurd hstep (by simp [zyreMessage])
      | some frames =>
        cases frames with
        | nil => exact absurd hstep (by simp [zyreMessage, zmsgPopstr])
        | cons frame rest =>
          change zyreMessage J b.inf (some (frame :: rest)) s = .ok s' at hstep
          rw [zyreMessage_cons] at hstep
          by_cases hn : cString frame = ofString "SHOUT"
          · -- a shout that is too short has no content
            have hnone : rest[3]?.map cString = none := by
              simpa only [shoutContent, if_pos hn] using he
            have hdrop (m : Json) (t : Bytes) (hm : J.jsonLoads none = some m) :
                ¬ StrippedType m t := absurd hm (by simp [Jansson.jsonLoads])
            rw [if_pos hn, hnone, shoutBranch_of_not_stripped hdrop] at hstep
            rw [← Except.ok.inj hstep]
          · rw [if_neg hn] at hstep
            rw [← Except.ok.inj hstep]
  · rw [← Except.ok.inj hstep]

/-! ### What gets through two bridges -/

/-- The payload of a document is handed on if its type is an accepted one, and it can be
read. -/
theorem handedOn_dumps (hJ : J.RoundTrips) {v : Json} (hv : v.WF J.printed)
    (hd : v.isDocument = true) {type : Bytes}
    (ht : v.objectGet (ofString "type") = some (.string type)) :
    handedOn J (J.dumps v) =
      if type ∈ inputTypeList ∧ J.Nests v then v.objectGet (ofString "payload") else none := by
  rw [handedOn, hJ.cString_dumps hv, acceptedEnvelope_dumps hJ hv hd ht]
  split <;> rfl

/-- An envelope is handed on if the type of its message is an accepted one, and it can be
read. -/
theorem handedOn_envelope (hJ : J.RoundTrips) {m : Bytes} {pl : Json} {t : Bytes}
    (h : IsTyped J m pl t) :
    handedOn J (J.dumps (envelope pl t)) =
      if t ∈ inputTypeList ∧ J.Nests (envelope pl t) then some pl else none := by
  -- the global name of an update is on the list, as its own name is
  have hmem : (if t = ofString "RSGUpdate" then ofString "RSGUpdate_global" else t) ∈
      inputTypeList ↔ t ∈ inputTypeList := by
    by_cases hu : t = ofString "RSGUpdate"
    · subst hu
      exact iff_of_true (by decide) (by decide)
    · rw [if_neg hu]
  rw [handedOn_dumps hJ (h.wf_envelope hJ.toDocumented) rfl rfl]
  simp only [hmem]
  rfl

/-- A request to the mediator is handed on by nobody. -/
theorem handedOn_request (hJ : J.RoundTrips) {m : Bytes} {pl : Json} {t : Bytes}
    (h : IsTyped J m pl t) {uid localReq : Bytes} (hu : Json.ValidString uid)
    (hl : Json.ValidString localReq) :
    handedOn J (J.dumps (request uid localReq (envelope pl t))) = none := by
  have hwf := wf_request hu hl (h.wf_envelope hJ.toDocumented)
  have htype : (request uid localReq (envelope pl t)).objectGet (ofString "type") =
      some (.string (ofString "send_request")) := rfl
  rw [handedOn_dumps hJ hwf rfl htype]
  exact if_neg fun h ↦ absurd h.1 (by decide)

/-- What a bridge shouts for some messages is handed on where the messages pass on. -/
theorem handedOn_record (hJ : J.RoundTrips) (hb : b.inf.outputTypeList = outputTypeList)
    (hu : ∀ n, Json.ValidString (zuuid n)) (hl : Json.ValidString b.inf.node.uuid)
    (drawn : Nat) (ms : List Bytes) :
    ((record J zuuid b drawn ms).filterMap Iteration.text).filterMap (handedOn J) =
      ms.filterMap (passesOn J b) := by
  induction ms generalizing drawn with
  | nil => rfl
  | cons m ms ih =>
    rw [record, List.filterMap_cons, passesOn]
    cases hc : classify J m with
    | malformed => exact ih drawn
    | untyped => exact ih drawn
    | typed pl t =>
      have htyped := IsTyped.of_classify hJ.toDocumented hc
      have htext : handedOn J (shoutText J b (zuuid drawn) pl t) =
          if inputTypeList.contains t && !mediated b t && J.Nests (envelope pl t) then some pl
          else none := by
        cases hm : mediated b t with
        | true =>
          rw [shoutText_mediated hm, handedOn_request hJ htyped (hu drawn) hl]
          simp
        | false =>
          rw [shoutText_plain hm, handedOn_envelope hJ htyped]
          simp
      simp only [List.filterMap_cons, Iteration.text, shoutOf_outputTypeList hb,
        Option.join_some, htext]
      by_cases hp : (inputTypeList.contains t && !mediated b t && J.Nests (envelope pl t)) = true
      · simp only [if_pos hp, ih]
      · simp only [if_neg hp, ih]

end

/-! ### What is written and shouted in a run -/

section

variable {κ π : Type} {b : κ → ZyreBridge}

/-- A message that has been written fits its bridge. -/
theorem fits_of_mem_written [DecidableEq κ] (hb : ∀ i, (b i).inf.maxMsgLength =
    toUnsignedLong (b i).config.maxMsgLength) {acts : List (NetworkAction π b)} {i : κ} {m : Bytes}
    (hm : m ∈ written i acts) : Fits (b i) m := by
  obtain ⟨a, -, ha⟩ := List.mem_filterMap.mp hm
  cases a with
  | out i' a =>
    cases a with
    | step tmpStr => exact absurd ha (by simp [NetworkAction.writtenAt])
    | write p =>
      simp only [NetworkAction.writtenAt] at ha
      split at ha
      · next hi =>
        subst hi
        rw [← Option.some.inj ha]
        exact p.fits (hb i')
      · exact absurd ha (by simp)
  | shout | deliver | event | start | enter | exit =>
    exact absurd ha (by simp [NetworkAction.writtenAt])

/-- One more action at the end. -/
theorem written_concat [DecidableEq κ] (i : κ) (acts : List (NetworkAction π b))
    (a : NetworkAction π b) :
    written i (acts ++ [a]) = written i acts ++ (a.writtenAt i).toList := by
  rw [written, List.filterMap_append]
  cases h : a.writtenAt i <;> simp [written, h]

/-- So for the shouts of the other peers. -/
theorem shouted_concat [DecidableEq π] (p : π) (acts : List (NetworkAction π b))
    (a : NetworkAction π b) :
    shouted p (acts ++ [a]) = shouted p acts ++ (a.shoutedBy p).toList := by
  rw [shouted, List.filterMap_append]
  cases h : a.shoutedBy p <;> simp [shouted, h]

/-- An action of a bridge writes to its port only. -/
theorem writtenAt_out [DecidableEq κ] (i i' : κ) (a : StepAction (b i)) :
    ((.out i a : NetworkAction π b).writtenAt i').toList =
      if i' = i then arrivals [a] else [] := by
  by_cases hi : i' = i
  · subst hi
    cases a <;> simp [NetworkAction.writtenAt, arrivals]
  · cases a <;> simp [NetworkAction.writtenAt, hi, Ne.symm hi]

/-- The action brings no message into the group. -/
def NetworkAction.Inner [DecidableEq κ] [DecidableEq π] (a : NetworkAction π b) : Prop :=
  (∀ i, a.writtenAt i = none) ∧ ∀ p, a.shoutedBy p = none

end

/-! ### Runs -/

section

variable {κ π : Type} [DecidableEq κ] [DecidableEq π] {J : Jansson} {zuuid : κ → Nat → Bytes}
  {b : κ → ZyreBridge} {acts : List (NetworkAction π b)} {g g' : Network κ π}
  {a : NetworkAction π b}

/-- What an action that does not fail does. -/
inductive Transition (J : Jansson) (zuuid : κ → Nat → Bytes) (b : κ → ZyreBridge)
    (g : Network κ π) : NetworkAction π b → Network κ π → Prop
  | out {i : κ} {a : StepAction (b i)} {w : StepWorld}
    (step : (stepMachine J (zuuid i) (b i)).step (g.out i) a = .ok w) :
    Transition J zuuid b g (.out i a) { g with
      out := Function.update g.out i w
      links := g.links.send (.inl i) (textsSince (g.out i) w) }
  | shout (p : π) (text : Bytes) :
    Transition J zuuid b g (.shout p text) { g with links := g.links.send (.inr p) [text] }
  | deliver {s : κ ⊕ π} {j : κ} {peer name group text : Bytes} {rest : List Bytes}
    {s' : ActorState} (onWay : g.links.onWay s j = text :: rest)
    (running : (g.actor j).loop = .running)
    (step : (zyreBridgeActor J (b j).inf).step (g.actor j) (shoutEvent peer name group text) =
      .ok s') :
    Transition J zuuid b g (.deliver s j peer name group) { g with
      actor := Function.update g.actor j s'
      links := g.links.deliver s j }
  | actor {a : NetworkAction π b} {j : κ} {s' : ActorState} (inner : a.Inner)
    (same : s'.zyreIn = (g.actor j).zyreIn) :
    Transition J zuuid b g a { g with actor := Function.update g.actor j s' }
  | enter {s : κ ⊕ π} {j : κ} (ne : s ≠ .inl j) :
    Transition J zuuid b g (.enter s j) { g with links := g.links.connect s j }
  | exit (s : κ ⊕ π) (j : κ) :
    Transition J zuuid b g (.exit s j) { g with links := g.links.disconnect s j }
  | none {a : NetworkAction π b} (inner : a.Inner) : Transition J zuuid b g a g

/-- Every action that does not fail is one of these. -/
theorem networkStep_transition (hs : networkStep J zuuid b g a = .ok g') :
    Transition J zuuid b g a g' := by
  cases a with
  | out i a =>
    simp only [networkStep] at hs
    split at hs
    · exact absurd hs (by simp)
    · next w hw => exact Except.ok.inj hs ▸ .out hw
  | shout p text => exact Except.ok.inj hs ▸ .shout p text
  | deliver s j peer name group =>
    simp only [networkStep] at hs
    split at hs
    · exact Except.ok.inj hs ▸ .none ⟨fun _ ↦ rfl, fun _ ↦ rfl⟩
    next text rest hway =>
    split at hs
    · next hrun =>
      split at hs
      · exact absurd hs (by simp)
      · next s' hs' => exact Except.ok.inj hs ▸ .deliver hway hrun hs'
    · exact Except.ok.inj hs ▸ .none ⟨fun _ ↦ rfl, fun _ ↦ rfl⟩
  | event j e quiet =>
    simp only [networkStep] at hs
    split at hs
    · exact absurd hs (by simp)
    · next s' hs' =>
      exact Except.ok.inj hs ▸ .actor ⟨fun _ ↦ rfl, fun _ ↦ rfl⟩ (zyreIn_of_quiet quiet hs')
  | start j => exact Except.ok.inj hs ▸ .actor ⟨fun _ ↦ rfl, fun _ ↦ rfl⟩ rfl
  | enter s j =>
    simp only [networkStep] at hs
    split at hs
    · exact Except.ok.inj hs ▸ .none ⟨fun _ ↦ rfl, fun _ ↦ rfl⟩
    · next hne => exact Except.ok.inj hs ▸ .enter hne
  | exit s j => exact Except.ok.inj hs ▸ .exit s j

/-- What connects a run of a group to what has been written and shouted in it. -/
structure Sound (J : Jansson) (zuuid : κ → Nat → Bytes) (b : κ → ZyreBridge)
    (acts : List (NetworkAction π b)) (g : Network κ π) : Prop where
  ledger : ∀ i, Ledger J (zuuid i) (b i) (written i acts) (g.out i)
  ordered : g.links.Ordered (sent acts g)
  silent : ∀ j, g.links.Silent (.inl j) j
  zyreIn : ∀ j, (g.actor j).zyreIn =
    ((g.links.arrived j).filterMap fun a ↦ handedOn J a.2).map (payloadWrite J)

/-- Messages on a port fit their bridge. -/
theorem Sound.fits (h : Sound J zuuid b acts g)
    (hb : ∀ i, (b i).inf.maxMsgLength = toUnsignedLong (b i).config.maxMsgLength) (i : κ) :
    ∀ m ∈ (g.out i).zyreOut, Fits (b i) m :=
  fun _ hm ↦ fits_of_mem_written hb ((h.ledger i).mem_of_mem hm)

/-- What happens to the links goes with what is sent. -/
theorem Sound.links (h : Sound J zuuid b acts g)
    (hb : ∀ i, (b i).inf.maxMsgLength = toUnsignedLong (b i).config.maxMsgLength)
    (hs : Transition J zuuid b g a g') :
    ∃ e, g'.links = g.links.act e ∧
      (∀ s, sent (acts ++ [a]) g' s = sent acts g s ++ e.sends s) ∧
      (∀ j, e ≠ .connect (.inl j) j) ∧ ∀ s j, e.Lowers s j → a = .exit s j := by
  -- what does not bring a message changes nothing that has been sent
  have hinner (hi : a.Inner) (hout : g'.out = g.out) (s : κ ⊕ π) :
      sent (acts ++ [a]) g' s = sent acts g s ++ [] := by
    rw [List.append_nil]
    cases s with
    | inl i => rw [sent, sent, hout]
    | inr p =>
      rw [sent, sent, shouted_concat, hi.2 p]
      exact List.append_nil _
  cases hs with
  | @out i a w step =>
    refine ⟨.send (.inl i) (textsSince (g.out i) w), rfl, fun s ↦ ?_, by simp, by simp⟩
    cases s with
    | inl i' =>
      by_cases hi : i = i'
      · subst hi
        simp only [sent, Links.Event.sends, Function.update_self, ↓reduceIte]
        exact texts_step (h.fits hb i) step
      · have hne : Sum.inl i ≠ (Sum.inl i' : κ ⊕ π) := fun he ↦ hi (Sum.inl.inj he)
        simp only [sent, Links.Event.sends, Function.update_of_ne (Ne.symm hi), if_neg hne,
          List.append_nil]
    | inr p =>
      rw [sent, sent, shouted_concat]
      rfl
  | shout p text =>
    refine ⟨.send (.inr p) [text], rfl, fun s ↦ ?_, by simp, by simp⟩
    cases s with
    | inl i => exact (List.append_nil _).symm
    | inr p' =>
      rw [sent, sent, shouted_concat, Links.Event.sends, NetworkAction.shoutedBy]
      by_cases hp : p = p'
      · subst hp
        simp
      · simp [hp]
  | deliver =>
    exact ⟨.deliver _ _, rfl, hinner ⟨fun _ ↦ rfl, fun _ ↦ rfl⟩ rfl, by simp, by simp⟩
  | actor inner same => exact ⟨.idle, rfl, hinner inner rfl, by simp, by simp⟩
  | enter ne =>
    refine ⟨.connect _ _, rfl, hinner ⟨fun _ ↦ rfl, fun _ ↦ rfl⟩ rfl, fun j he ↦ ?_, by simp⟩
    obtain ⟨rfl, rfl⟩ := Links.Event.connect.inj he
    exact ne rfl
  | exit s j =>
    refine ⟨.disconnect s j, rfl, hinner ⟨fun _ ↦ rfl, fun _ ↦ rfl⟩ rfl, by simp, ?_⟩
    rintro s' j' ⟨rfl, rfl⟩
    rfl
  | none inner => exact ⟨.idle, rfl, hinner inner rfl, by simp, by simp⟩

/-- Every action that does not fail keeps the group sound. -/
theorem Sound.step (hJ : J.Documented) (h : Sound J zuuid b acts g)
    (hb : ∀ i, (b i).inf.maxMsgLength = toUnsignedLong (b i).config.maxMsgLength)
    (hin : ∀ i, (b i).inf.inputTypeList = inputTypeList) (hs : Transition J zuuid b g a g') :
    Sound J zuuid b (acts ++ [a]) g' := by
  obtain ⟨e, hlinks, hsent, hself, -⟩ := h.links hb hs
  refine ⟨fun i ↦ ?_, hlinks ▸ h.ordered.act hsent, fun j ↦ hlinks ▸ (h.silent j).act (hself j),
    fun j ↦ ?_⟩
  · -- only an action of the bridge itself touches its port
    have hold := h.ledger i
    rw [written_concat]
    cases hs with
    | @out i' a w step =>
      rw [writtenAt_out]
      by_cases hi : i = i'
      · subst hi
        simp only [↓reduceIte, Function.update_self]
        exact hold.act (fun _ hm ↦ fits_of_mem_written hb hm) step
      · simpa only [if_neg hi, List.append_nil, Function.update_of_ne hi] using hold
    | actor inner same => rwa [inner.1 i, Option.toList_none, List.append_nil]
    | none inner => rwa [inner.1 i, Option.toList_none, List.append_nil]
    | shout | deliver | enter | exit => exact (List.append_nil (written i acts)).symm ▸ hold
  · -- only a delivery brings something to an actor
    have hold := h.zyreIn j
    cases hs with
    | @deliver s j' peer name group text rest s' onWay running step =>
      dsimp only
      rw [Links.arrived_deliver onWay]
      by_cases hj : j = j'
      · subst hj
        obtain ⟨hz, -⟩ := zyreIn_of_shout hJ (hin j) running step
        rw [Function.update_self, Function.update_self, hz, hold, List.filterMap_append,
          List.map_append]
        cases hh : handedOn J text <;> simp [hh]
      · rwa [Function.update_of_ne hj, Function.update_of_ne hj]
    | @actor a j' s' inner same =>
      dsimp only
      by_cases hj : j = j'
      · subst hj
        rwa [Function.update_self, same]
      · rwa [Function.update_of_ne hj]
    | out | shout | enter | exit | none => exact hold

/-- At the start the group is sound. -/
theorem sound_start (up : κ ⊕ π → κ → Bool) : Sound J zuuid b [] (Network.start up) where
  ledger _ := .start []
  ordered := fun _ _ ↦ List.nil_sublist _
  silent _ := ⟨by simp [Network.start, Links.start], rfl⟩
  zyreIn _ := rfl

/-- Every run that does not fail is sound. -/
theorem sound_of_run (hJ : J.Documented) {ext : κ → InitExtern}
    (hb : ∀ i, (b i).Initialised (ext i)) {up : κ ⊕ π → κ → Bool}
    (hr : (networkMachine J zuuid b).run (.start up) acts = .ok g) : Sound J zuuid b acts g := by
  refine Machine.run_history (P := fun acts g ↦ Sound J zuuid b acts g) (sound_start up) ?_ hr
  intro as g₁ a g₂ _ h hs
  exact h.step hJ (fun i ↦ (hb i).maxMsgLength_eq) (fun i ↦ (hb i).inputTypeList_eq)
    (networkStep_transition hs)

/-- A connection that is there from the beginning and is not lost is whole. -/
theorem whole_of_run (hJ : J.Documented) {ext : κ → InitExtern}
    (hb : ∀ i, (b i).Initialised (ext i)) {up : κ ⊕ π → κ → Bool}
    (hr : (networkMachine J zuuid b).run (.start up) acts = .ok g) {s : κ ⊕ π} {j : κ}
    (hne : s ≠ .inl j) (hup : up s j = true) (hexit : .exit s j ∉ acts) :
    g.links.Whole (sent acts g) s j := by
  have hstart : (Network.start up : Network κ π).links.Whole
      (sent ([] : List (NetworkAction π b)) (Network.start up)) s j := by
    refine ⟨by simp [Network.start, Links.start, hne, hup], ?_⟩
    cases s <;> rfl
  revert hexit
  refine Machine.run_history (P := fun acts g ↦ .exit s j ∉ acts →
    g.links.Whole (sent acts g) s j) (fun _ ↦ hstart) ?_ hr
  intro as g₁ a g₂ hrun ih hs hexit
  have hsound := sound_of_run hJ hb hrun
  obtain ⟨e, hlinks, hsent, -, hdown⟩ :=
    hsound.links (fun i ↦ (hb i).maxMsgLength_eq) (networkStep_transition hs)
  rw [hlinks]
  apply (ih fun hmem ↦ hexit (List.mem_append_left _ hmem)).act hsent
  intro he
  exact hexit (by simp [hdown s j he])

/-- What others accept of the shouts of a bridge is what passes on of the messages read. -/
theorem Sound.handedOn_sent (hJ : J.RoundTrips) (h : Sound J zuuid b acts g) {ext : κ → InitExtern}
    (hb : ∀ i, (b i).Initialised (ext i)) (hu : ∀ i n, Json.ValidString (zuuid i n))
    (hl : ∀ i, Json.ValidString (b i).inf.node.uuid) (i : κ) :
    (sent acts g (.inl i)).filterMap (handedOn J) ++
        (g.out i).zyreOut.filterMap (passesOn J (b i)) =
      (written i acts).filterMap (passesOn J (b i)) := by
  have hlog := (h.ledger i).log_eq
  rw [sent, StepWorld.texts, hlog, handedOn_record hJ (hb i).outputTypeList_eq (hu i) (hl i),
    ← List.filterMap_append, (h.ledger i).conserved]

variable (J) in
/-- What a node offers to the others: of a bridge the messages that pass on, of another peer
the payloads that are handed on. -/
def offered (acts : List (NetworkAction π b)) : κ ⊕ π → List Json
  | .inl i => (written i acts).filterMap (passesOn J (b i))
  | .inr p => (shouted p acts).filterMap (handedOn J)

variable (J b) in
/-- What a node has not shouted yet. -/
def pending (g : Network κ π) : κ ⊕ π → List Json
  | .inl i => (g.out i).zyreOut.filterMap (passesOn J (b i))
  | .inr _ => []

variable (J) in
/-- The payloads that the world model behind `j` has got from node `s`. -/
def got (g : Network κ π) (s : κ ⊕ π) (j : κ) : List Json :=
  (g.links.arrivedFrom s j).filterMap (handedOn J)

variable (J) in
/-- The payloads on their way. -/
def coming (g : Network κ π) (s : κ ⊕ π) (j : κ) : List Json :=
  (g.links.onWay s j).filterMap (handedOn J)

/-- What is accepted of the shouts of a node, and what it has not shouted, is what it offers. -/
theorem Sound.offered_eq (hJ : J.RoundTrips) (h : Sound J zuuid b acts g) {ext : κ → InitExtern}
    (hb : ∀ i, (b i).Initialised (ext i)) (hu : ∀ i n, Json.ValidString (zuuid i n))
    (hl : ∀ i, Json.ValidString (b i).inf.node.uuid) (s : κ ⊕ π) :
    (sent acts g s).filterMap (handedOn J) ++ pending J b g s = offered J acts s := by
  cases s with
  | inl i => exact h.handedOn_sent hJ hb hu hl i
  | inr p => exact List.append_nil _

/-- Over a whole connection all that a node offers has come, is on its way or is to be
shouted. -/
theorem Sound.offered_of_whole (hJ : J.RoundTrips) (h : Sound J zuuid b acts g)
    {ext : κ → InitExtern} (hb : ∀ i, (b i).Initialised (ext i))
    (hu : ∀ i n, Json.ValidString (zuuid i n)) (hl : ∀ i, Json.ValidString (b i).inf.node.uuid)
    {s : κ ⊕ π} {j : κ} (hw : g.links.Whole (sent acts g) s j) :
    got J g s j ++ coming J g s j ++ pending J b g s = offered J acts s := by
  rw [← h.offered_eq hJ hb hu hl s, ← hw.passed_eq, Links.passed, List.filterMap_append]
  rfl

end

/-- In every run of a group that does not fail, over any order of writes, steps, deliveries,
entries and exits: a world model gets the accepted payloads in the order of their arrival, none
of its own bridge, of every other node a subsequence of what that one offers, and over a
connection that is never lost all of it, but for what is on its way or still on the port. -/
theorem network_delivers {κ π : Type} [DecidableEq κ] [DecidableEq π] {J : Jansson}
    (hJ : J.RoundTrips) {ext : κ → InitExtern} {b : κ → ZyreBridge}
    (hb : ∀ i, (b i).Initialised (ext i)) {zuuid : κ → Nat → Bytes}
    (hu : ∀ i n, Json.ValidString (zuuid i n)) (hl : ∀ i, Json.ValidString (b i).inf.node.uuid)
    {up : κ ⊕ π → κ → Bool} {acts : List (NetworkAction π b)} {g : Network κ π}
    (hr : (networkMachine J zuuid b).run (.start up) acts = .ok g) (j : κ) :
    (g.actor j).zyreIn =
        ((g.links.arrived j).filterMap fun a ↦ handedOn J a.2).map (payloadWrite J) ∧
      got J g (.inl j) j = [] ∧
      ∀ s, s ≠ .inl j → (got J g s j).Sublist (offered J acts s) ∧
        (up s j = true → .exit s j ∉ acts →
          got J g s j ++ coming J g s j ++ pending J b g s = offered J acts s) := by
  have hsound := sound_of_run hJ.toDocumented hb hr
  refine ⟨hsound.zyreIn j, ?_, fun s hs ↦ ⟨?_, fun hup hexit ↦ ?_⟩⟩
  · have hpassed := (hsound.silent j).passed_eq
    rw [got, (List.append_eq_nil_iff.mp hpassed).1]
    rfl
  · rw [← hsound.offered_eq hJ hb hu hl s]
    have hpassed := (List.sublist_append_left _ _).trans (hsound.ordered s j)
    exact (hpassed.filterMap _).trans (List.sublist_append_left _ _)
  · exact hsound.offered_of_whole hJ hb hu hl (whole_of_run hJ.toDocumented hb hr hs hup hexit)

/-- Two bridges, and a peer that shouts an update to both. -/
def updateRun : List (NetworkAction Unit fun _ : Bool ↦ testBridge) :=
  [.shout () (ofString "\x7b\"type\":\"RSGUpdate\",\"payload\":[1]\x7d"),
    .deliver (.inr ()) true (ofString "1B") (ofString "peer") (ofString "local")]

/-- One of the bridges has got the update, for the other it is on its way. -/
theorem network_delivers_update :
    ∃ g, (networkMachine .reference (fun _ _ ↦ ofString "1F") fun _ : Bool ↦ testBridge).run
        (.start fun _ _ ↦ true) updateRun = .ok g ∧
      got .reference g (.inr ()) true = [.array [.integer 1]] ∧
      (g.actor true).zyreIn =
        ((g.links.arrived true).filterMap fun a ↦ handedOn .reference a.2).map
          (payloadWrite .reference) ∧
      got .reference g (.inr ()) false ++ coming .reference g (.inr ()) false ++
          pending .reference (fun _ ↦ testBridge) g (.inr ()) =
        offered .reference updateRun (.inr ()) := by
  obtain ⟨g, hr, hgot⟩ : ∃ g, (networkMachine .reference (fun _ _ ↦ ofString "1F")
      fun _ : Bool ↦ testBridge).run (.start fun _ _ ↦ true) updateRun = .ok g ∧
        got .reference g (.inr ()) true = [.array [.integer 1]] := ⟨_, rfl, rfl⟩
  have hall (j : Bool) := network_delivers Jansson.reference_roundTrips
    (fun _ ↦ testBridge_initialised) (fun _ _ ↦ by decide) (fun _ ↦ by decide) hr j
  exact ⟨g, hr, hgot, (hall true).1,
    ((hall false).2.2 (.inr ()) (by simp)).2 rfl (by simp [updateRun])⟩

end Ubx.Zyre
