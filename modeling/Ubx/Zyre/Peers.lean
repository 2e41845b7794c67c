import Ubx.Zyre.Input

/-!
# Two zyre bridges in one group

What one bridge shouts is a message of the other. The sender filters on `@worldmodeltype`
and renames `RSGUpdate`, the receiver filters on the `type` of the envelope with another
list; of the types that are sent, only updates come back out, and they come out whole.
-/

namespace Ubx.Zyre

open Ubx.Base

section

variable {J : Jansson} {zuuid : Nat → Bytes} {b : ZyreBridge}

/-- The shout of an iteration belongs to its message. -/
def Logged (J : Jansson) (zuuid : Nat → Bytes) (b : ZyreBridge) (it : Iteration) : Prop :=
  match classify J it.message with
  | .typed pl t => ∃ drawn, it.shout = some (shoutOf J zuuid b drawn pl t)
  | _ => it.shout = none

/-- Each shout of a record belongs to its message. -/
theorem logged_record (drawn : Nat) (ms : List Bytes) :
    ∀ it ∈ record J zuuid b drawn ms, Logged J zuuid b it := by
  induction ms generalizing drawn with
  | nil => simp [record]
  | cons m ms ih =>
    rw [record]
    split
    · next pl t hc =>
      refine List.forall_mem_cons.mpr ⟨?_, ih _⟩
      simp only [Logged, hc]
      exact ⟨_, rfl⟩
    · next hc =>
      refine List.forall_mem_cons.mpr ⟨?_, ih _⟩
      rw [Logged]
      split
      · next pl t ht => exact absurd ht (hc pl t)
      · rfl

/-- In every run of an initialised bridge each shout belongs to its message. -/
theorem run_logged {ext : InitExtern} (hb : b.Initialised ext) {as : List (StepAction b)}
    {w : StepWorld} (hw : (stepMachine J zuuid b).run (.start []) as = .ok w) :
    ∀ it ∈ w.log, Logged J zuuid b it := by
  rw [(ledger_of_run hb.maxMsgLength_eq hw).log_eq]
  exact logged_record 0 w.reads

/-- The type of a decoded message is a valid string. -/
theorem IsTyped.validString (hJ : J.Documented) {m : Bytes} {pl : Json} {t : Bytes}
    (h : IsTyped J m pl t) : Json.ValidString t := by
  cases (hJ.loads_wf _ _ h.1).1.objectGet h.2 with
  | string hv => exact hv

/-- The envelope of a well-formed payload is well-formed. -/
theorem wf_envelope {pl : Json} (hpl : pl.WF J.printed) {t : Bytes} (ht : Json.ValidString t) :
    (envelope pl t).WF J.printed := by
  have hty : Json.ValidString
      (if t = ofString "RSGUpdate" then ofString "RSGUpdate_global" else t) := by
    split
    · decide
    · exact ht
  apply Json.WF.of_keys
  · simp only [List.map_cons, List.map_nil]
    decide
  simp only [List.map_cons, List.map_nil, List.forall_mem_cons]
  exact ⟨hpl, .string (by decide), .string ht, .string hty, by simp⟩

/-- So is the envelope of a typed message. -/
theorem IsTyped.wf_envelope (hJ : J.Documented) {m : Bytes} {pl : Json} {t : Bytes}
    (h : IsTyped J m pl t) : (envelope pl t).WF J.printed :=
  Zyre.wf_envelope (hJ.loads_wf _ _ h.1).1 (h.validString hJ)

/-- Another peer decodes the text of an envelope to the envelope, if that is not nested too
deep. -/
theorem loads_envelope (hJ : J.RoundTrips) {m : Bytes} {pl : Json} {t : Bytes}
    (h : IsTyped J m pl t) (hn : J.Nests (envelope pl t)) :
    J.loads (cString (J.dumps (envelope pl t))) = some (envelope pl t) := by
  have hwf := h.wf_envelope hJ.toDocumented
  rw [hJ.cString_dumps hwf, hJ.loads_dumps _ hwf rfl, if_pos hn]

/-- What the actor accepts of an envelope: an update, under its global name. -/
theorem acceptedEnvelope_envelope (hJ : J.RoundTrips) {m : Bytes} {pl : Json} {t : Bytes}
    (h : IsTyped J m pl t) (ht : t ∈ outputTypeList) :
    acceptedEnvelope J inputTypeList (some (J.dumps (envelope pl t))) =
      if t = ofString "RSGUpdate" ∧ J.Nests (envelope pl t) then some (envelope pl t)
      else none := by
  have hrest : ∀ t ∈ outputTypeList, t ≠ ofString "RSGUpdate" → t ∉ inputTypeList := by decide
  have hmem : (if t = ofString "RSGUpdate" then ofString "RSGUpdate_global" else t) ∈
      inputTypeList ↔ t = ofString "RSGUpdate" := by
    by_cases hu : t = ofString "RSGUpdate"
    · rw [if_pos hu]
      exact iff_of_true (by decide) hu
    · rw [if_neg hu]
      exact iff_of_false (hrest t ht hu) hu
  rw [acceptedEnvelope_dumps hJ (h.wf_envelope hJ.toDocumented) rfl rfl]
  simp only [hmem]

/-- A typed message that does not go through a mediator is shouted as its envelope. -/
theorem shout_of_run (hJ : J.Documented) {ext : InitExtern} (hb : b.Initialised ext)
    {as : List (StepAction b)} {w : StepWorld}
    (hw : (stepMachine J zuuid b).run (.start []) as = .ok w) {it : Iteration} (hit : it ∈ w.log)
    {p : Json} {t : Bytes} (hp : IsTyped J it.message p t) (hplain : mediated b t = false) :
    it.shout = some (some (J.dumps (envelope p t))) := by
  have hl := run_logged hb hw it hit
  simp only [Logged, hp.classify_eq hJ] at hl
  obtain ⟨drawn, hl⟩ := hl
  rw [hl, shoutOf_outputTypeList hb.outputTypeList_eq, shoutText_plain hplain]

/-- A typed message that arrives at an empty port is read, and shouted, in the next step. -/
theorem run_next (hJ : J.Documented) {ext : InitExtern} (hb : b.Initialised ext)
    (hk : 0 < b.config.maxSend.toNatClampNeg) (zuuid : Nat → Bytes) {w : StepWorld}
    (hw : w.zyreOut = []) (m : PortMessage b.config.maxMsgLength) {p : Json} {t : Bytes}
    (hp : IsTyped J m.bytes p t) (tmpStr : Vector UInt8 (mallocSize b.inf.maxMsgLength)) :
    ∃ w', (stepMachine J zuuid b).run w [.write m, .step tmpStr] = .ok w' ∧
      w'.log = w.log ++ [⟨m.bytes, some (shoutOf J zuuid b w.drawn p t)⟩] := by
  have hclass := hp.classify_eq hJ
  have hqueue : w.zyreOut ++ [m.bytes] = [m.bytes] := by rw [hw, List.nil_append]
  have hread : ∀ x ∈ w.zyreOut ++ [m.bytes], Readable J b x := by
    intro x hx
    obtain rfl := List.mem_singleton.mp (hqueue ▸ hx)
    exact hp.readable hJ hb.maxMsgLength_eq
  have hbatch : batch J b.inf.maxSend.toNatClampNeg [m.bytes] = [m.bytes] := by
    have htake : [m.bytes].take b.inf.maxSend.toNatClampNeg = [m.bytes] := by
      apply List.take_of_length_le
      rw [hb.maxSend_eq]
      exact hk
    rw [batch_eq_take, htake]
    intro x hx
    rw [List.mem_singleton.mp (List.mem_of_mem_take hx), hclass]
    simp
  obtain ⟨w', hs⟩ :=
    zyreBridgeStep_readable zuuid (w := { w with zyreOut := w.zyreOut ++ [m.bytes] }) hread tmpStr
  refine ⟨w', Machine.run_cons.mpr ⟨_, rfl, Machine.run_cons.mpr ⟨w', hs, rfl⟩⟩, ?_⟩
  obtain ⟨-, rfl⟩ := (zyreBridgeStep_eq_ok_iff (fun x hx ↦ (hread x hx).fitting) tmpStr).mp hs
  simp only [hqueue, hbatch, record, hclass]

/-- So is the first message of a run. -/
theorem run_single (hJ : J.Documented) {ext : InitExtern} (hb : b.Initialised ext)
    (hk : 0 < b.config.maxSend.toNatClampNeg) (zuuid : Nat → Bytes)
    (m : PortMessage b.config.maxMsgLength) {p : Json} {t : Bytes} (hp : IsTyped J m.bytes p t)
    (tmpStr : Vector UInt8 (mallocSize b.inf.maxMsgLength)) :
    ∃ w, (stepMachine J zuuid b).run (.start []) [.write m, .step tmpStr] = .ok w ∧
      ∃ it ∈ w.log, it.message = m.bytes := by
  obtain ⟨w, hw, hlog⟩ := run_next hJ hb hk zuuid (w := .start []) rfl m hp tmpStr
  exact ⟨w, hw, _, hlog ▸ List.mem_append_right _ (List.mem_singleton.mpr rfl), rfl⟩

end

/-- An update that one bridge shouts without a mediator reaches the world model behind
another bridge once and unchanged, if its envelope is nested no deeper than the other reads;
results that are shouted are not handed in. -/
theorem peer_round_trip {J : Jansson} (hJ : J.RoundTrips) {extA extB : InitExtern}
    {a b : ZyreBridge} (ha : a.Initialised extA) (hb : b.Initialised extB)
    (hmed : a.config.mediator = 0) {zuuid : Nat → Bytes} {as : List (StepAction a)} {w : StepWorld}
    (hw : (stepMachine J zuuid a).run (.start []) as = .ok w) {it : Iteration} (hit : it ∈ w.log)
    {p : Json} {t : Bytes} (hp : IsTyped J it.message p t) (ht : t ∈ a.inf.outputTypeList)
    {s : ActorState} (hs : s.loop = .running) (peer name group : Bytes) :
    ∃ text, it.shout = some (some text) ∧
      ∃ s', (zyreBridgeActor J b.inf).step s
          (.zyre (some [ofString "SHOUT", peer, name, group, text])) = .ok s' ∧
        s'.loop = .running ∧
        (t = ofString "RSGUpdate" → J.Nests (envelope p t) →
          ∃ write, s'.zyreIn = s.zyreIn ++ [write] ∧
            J.loads (write.data.take write.len) = some p) ∧
        (t ≠ ofString "RSGUpdate" → s'.zyreIn = s.zyreIn) := by
  have houts := ha.outputTypeList_eq
  have hins := hb.inputTypeList_eq
  have hplain : mediated a t = false := by simp [mediated, hmed]
  have hshout := shout_of_run hJ.toDocumented ha hw hit hp hplain
  refine ⟨_, hshout, ?_⟩
  rw [step_shout hs]
  simp only [List.getElem?_cons_succ, List.getElem?_cons_zero, Option.map_some,
    hJ.cString_dumps (hp.wf_envelope hJ.toDocumented)]
  rw [shoutBranch_inputTypeList hJ.toDocumented hins,
    acceptedEnvelope_envelope hJ hp (houts ▸ ht)]
  have hpay : (envelope p t).objectGet (ofString "payload") = some p := rfl
  by_cases hu : t = ofString "RSGUpdate" ∧ J.Nests (envelope p t)
  · obtain ⟨hwf, hdoc⟩ := hJ.loads_wf _ _ hp.1
    refine ⟨⟨s.zyreIn ++ [payloadWrite J p], s.loop⟩, ?_, hs, fun _ _ ↦ ⟨_, rfl, ?_⟩,
      absurd hu.1⟩
    · simp only [if_pos hu, hpay, Except.map]
    · simp only [payloadWrite, List.take_length]
      rw [hJ.loads_dumps p hwf hdoc, if_pos (hu.2.objectGet hpay)]
  · refine ⟨s, ?_, hs, fun h hn ↦ absurd ⟨h, hn⟩ hu, fun _ ↦ rfl⟩
    simp only [if_neg hu, Except.map]

/-- The test bridge set up without a mediator. -/
def plainBridge : ZyreBridge :=
  bridgeWith { zyreTestBridge with mediator := 0 } inputTypeList outputTypeList ⟨ofString "0A"⟩

/-- An update of the world model. -/
def updateMessage : PortMessage plainBridge.config.maxMsgLength :=
  ⟨ofString "\x7b\"@worldmodeltype\":\"RSGUpdate\"\x7d", by decide, by decide⟩

/-- It is read as one. -/
theorem updateMessage_typed :
    IsTyped .reference updateMessage.bytes
      (.object [(ofString "@worldmodeltype", .string (ofString "RSGUpdate"))])
      (ofString "RSGUpdate") :=
  ⟨rfl, rfl⟩

/-- The bridge set up so has been initialised. -/
theorem plainBridge_initialised : plainBridge.Initialised testExtern := ⟨_, rfl⟩

/-- The bridge reads the update in one step. -/
theorem run_updateMessage (zuuid : Nat → Bytes)
    (tmpStr : Vector UInt8 (mallocSize plainBridge.inf.maxMsgLength)) :
    ∃ w, (stepMachine .reference zuuid plainBridge).run (.start [])
        [.write updateMessage, .step tmpStr] = .ok w ∧
      ∃ it ∈ w.log, it.message = updateMessage.bytes :=
  run_single Jansson.reference_documented plainBridge_initialised (by decide) zuuid _
    updateMessage_typed tmpStr

/-- An update from one bridge comes out of another, which has just started. -/
theorem peer_round_trip_update :
    ∃ w it text s' write, (stepMachine .reference (fun _ ↦ ofString "1F") plainBridge).run
        (.start []) [.write updateMessage, .step (.replicate _ 0)] = .ok w ∧
      it ∈ w.log ∧ it.shout = some (some text) ∧
      (zyreBridgeActor .reference testBridge.inf).step .start (.zyre (some
        [ofString "SHOUT", ofString "0A", ofString "plain", ofString "local", text])) = .ok s' ∧
      s'.zyreIn = [write] ∧ Json.parse (write.data.take write.len) =
        some (.object [(ofString "@worldmodeltype", .string (ofString "RSGUpdate"))]) := by
  obtain ⟨w, hw, it, hit, hmsg⟩ := run_updateMessage (fun _ ↦ ofString "1F") (.replicate _ 0)
  obtain ⟨text, htext, s', hs', -, hupd, -⟩ := peer_round_trip Jansson.reference_roundTrips
    plainBridge_initialised testBridge_initialised rfl hw hit (hmsg ▸ updateMessage_typed)
    (by decide) (s := .start) rfl (ofString "0A") (ofString "plain") (ofString "local")
  obtain ⟨write, hz, hp⟩ := hupd rfl (by decide)
  exact ⟨w, it, text, s', write, hw, hit, htext, hs', hz, hp⟩

end Ubx.Zyre
