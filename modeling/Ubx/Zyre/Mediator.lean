import Ubx.Zyre.Robust

/-!
# The zyre bridge with and without a mediator

One schedule on two bridges that differ in the mediator setting. Both read the same
messages; an update goes through the mediator as a `send_request` around the envelope that
is shouted without one, and nothing else is different.
-/

namespace Ubx.Zyre

open Ubx.Base

/-- The bridge with another mediator setting. -/
def ZyreBridge.withMediator (b : ZyreBridge) (mediator : Int32) : ZyreBridge :=
  { b with config := { b.config with mediator := mediator } }

/-- The same action on the other bridge. -/
def StepAction.withMediator {b : ZyreBridge} (mediator : Int32) :
    StepAction b → StepAction (b.withMediator mediator)
  | .write m => .write m
  | .step tmpStr => .step tmpStr

/-- `req` asks the mediator to send `env` to everyone, for the node with UUID `localReq`. -/
structure RequestFor (localReq : Bytes) (env req : Json) : Prop where
  type : req.objectGet (ofString "type") = some (.string (ofString "send_request"))
  payload : ∃ pl, req.objectGet (ofString "payload") = some pl ∧
    pl.objectGet (ofString "payload") = some env ∧
    pl.objectGet (ofString "payload_type") = some (.string (ofString "send_remote")) ∧
    pl.objectGet (ofString "recipients") = some (.array []) ∧
    pl.objectGet (ofString "local_requester") = some (.string localReq)

/-- `text'` is printed for a request for the envelope whose text is `text`. What the library
hands out as UUIDs are strings that can be read back, and then `text'` is the text of it. -/
def Wraps (J : Jansson) (zuuid : Nat → Bytes) (localReq text text' : Bytes) : Prop :=
  ∃ env req, J.TextOf text env ∧ text' = J.dumps req ∧ RequestFor localReq env req ∧
    (Json.ValidString localReq → (∀ k, Json.ValidString (zuuid k)) → J.TextOf text' req)

/-- What one iteration shouts without and with the setting `mediator`. -/
structure Transparent (J : Jansson) (zuuid : Nat → Bytes) (b : ZyreBridge) (mediator : Int32)
    (it it' : Iteration) : Prop where
  message : it'.message = it.message
  wrapped : ∀ p, IsTyped J it.message p (ofString "RSGUpdate") → b.config.mediator ≠ 1 →
    mediator = 1 → ∃ text text', it.shout = some (some text) ∧ it'.shout = some (some text') ∧
      Wraps J zuuid b.inf.node.uuid text text'
  same : ∀ p t, IsTyped J it.message p t → t ∈ b.inf.outputTypeList →
    (t ≠ ofString "RSGUpdate" ∨ b.config.mediator ≠ 1 ∧ mediator ≠ 1) →
      ∃ text, it.shout = some (some text) ∧ it'.shout = some (some text)

section

variable {J : Jansson} {zuuid zuuid' : Nat → Bytes} {b : ZyreBridge} {mediator : Int32}

/-- The initialisation does not read the setting. -/
theorem ZyreBridge.Initialised.withMediator {ext : InitExtern} (hb : b.Initialised ext) :
    (b.withMediator mediator).Initialised ext := hb

/-- `send_request` as it is called for an update. -/
def request (uid localReq : Bytes) (env : Json) : Json :=
  .object [(ofString "metamodel", .string (ofString "sherpa_mgs")),
    (ofString "model", .string (ofString "http://kul/send_request.json")),
    (ofString "type", .string (ofString "send_request")),
    (ofString "payload", .object [(ofString "UID", .string uid),
      (ofString "local_requester", .string localReq), (ofString "recipients", .array []),
      (ofString "timeout", .integer 1000),
      (ofString "payload_type", .string (ofString "send_remote")), (ofString "payload", env)])]

/-- It is a request for the envelope. -/
theorem requestFor_request (uid localReq : Bytes) (env : Json) :
    RequestFor localReq env (request uid localReq env) :=
  ⟨rfl, _, rfl, rfl, rfl, rfl, rfl⟩

/-- With valid UUIDs it is well-formed. -/
theorem wf_request {uid localReq : Bytes} {env : Json} (hu : Json.ValidString uid)
    (hl : Json.ValidString localReq) (he : env.WF J.printed) :
    (request uid localReq env).WF J.printed := by
  have hpay : Json.WF J.printed (.object [(ofString "UID", .string uid),
      (ofString "local_requester", .string localReq), (ofString "recipients", .array []),
      (ofString "timeout", .integer 1000),
      (ofString "payload_type", .string (ofString "send_remote")), (ofString "payload", env)]) := by
    apply Json.WF.of_keys
    · simp only [List.map_cons, List.map_nil]
      decide
    simp only [List.map_cons, List.map_nil, List.forall_mem_cons]
    exact ⟨.string hu, .string hl, .array (by simp), .integer _, .string (by decide), he, by simp⟩
  apply Json.WF.of_keys
  · simp only [List.map_cons, List.map_nil]
    decide
  simp only [List.map_cons, List.map_nil, List.forall_mem_cons]
  exact ⟨.string (by decide), .string (by decide), .string (by decide), hpay, by simp⟩

/-- With a mediator the request is shouted. -/
theorem shoutText_mediated {t : Bytes} (h : mediated b t = true) (uid : Bytes) (pl : Json) :
    shoutText J b uid pl t = J.dumps (request uid b.inf.node.uuid (envelope pl t)) := by
  rw [shoutText, h]
  rfl

/-- The mediator is for updates, under setting 1. -/
theorem mediated_eq_true_iff (t : Bytes) :
    mediated b t = true ↔ t = ofString "RSGUpdate" ∧ b.config.mediator = 1 := by
  simp [mediated]

/-- Both texts of an update. -/
theorem wraps_shoutText (hJ : J.RoundTrips) {m : Bytes} {p : Json}
    (h : IsTyped J m p (ofString "RSGUpdate")) (hb : b.config.mediator ≠ 1) (uid : Bytes)
    (k : Nat) :
    Wraps J zuuid' b.inf.node.uuid (shoutText J b uid p (ofString "RSGUpdate"))
      (shoutText J (b.withMediator 1) (zuuid' k) p (ofString "RSGUpdate")) := by
  have hplain : mediated b (ofString "RSGUpdate") = false := by
    rw [← Bool.not_eq_true, mediated_eq_true_iff]
    exact fun hm ↦ hb hm.2
  have hmed : mediated (b.withMediator 1) (ofString "RSGUpdate") = true :=
    (mediated_eq_true_iff _).mpr ⟨rfl, rfl⟩
  rw [shoutText_plain hplain, shoutText_mediated hmed]
  have henv := h.wf_envelope hJ.toDocumented
  refine ⟨_, _, hJ.textOf henv rfl, rfl, requestFor_request _ _ _, fun hl hz ↦ ?_⟩
  exact hJ.textOf (wf_request (hz k) hl henv) rfl

/-- One iteration on both bridges, whatever UUIDs they draw. -/
theorem transparent_shoutOf (hJ : J.RoundTrips) (hb : b.inf.outputTypeList = outputTypeList)
    {m : Bytes} {p : Json} {t : Bytes} (h : IsTyped J m p t) (k k' : Nat) :
    Transparent J zuuid' b mediator ⟨m, some (shoutOf J zuuid b k p t)⟩
      ⟨m, some (shoutOf J zuuid' (b.withMediator mediator) k' p t)⟩ := by
  have hb' : (b.withMediator mediator).inf.outputTypeList = outputTypeList := hb
  rw [shoutOf_outputTypeList hb, shoutOf_outputTypeList hb']
  refine ⟨rfl, ?_, ?_⟩
  · rintro p' h' hplain rfl
    obtain ⟨rfl, rfl⟩ := h.unique h'
    exact ⟨_, _, rfl, rfl, wraps_shoutText hJ h hplain _ _⟩
  · intro p' t' h' _ hcase
    obtain ⟨rfl, rfl⟩ := h.unique h'
    have hm : mediated b t = false := by
      rw [← Bool.not_eq_true, mediated_eq_true_iff]
      exact fun hm ↦ hcase.elim (absurd hm.1) fun hc ↦ hc.1 hm.2
    have hm' : mediated (b.withMediator mediator) t = false := by
      rw [← Bool.not_eq_true, mediated_eq_true_iff]
      exact fun hm ↦ hcase.elim (absurd hm.1) fun hc ↦ hc.2 hm.2
    rw [shoutText_plain hm, shoutText_plain hm']
    exact ⟨_, rfl, rfl⟩

/-- The records of the same messages on both bridges. -/
theorem transparent_record (hJ : J.RoundTrips) (hb : b.inf.outputTypeList = outputTypeList)
    (ms : List Bytes) (k k' : Nat) :
    List.Forall₂ (Transparent J zuuid' b mediator) (record J zuuid b k ms)
      (record J zuuid' (b.withMediator mediator) k' ms) := by
  induction ms generalizing k k' with
  | nil => exact .nil
  | cons m ms ih =>
    rw [record, record]
    split
    · next p t hc =>
      have htyped := IsTyped.of_classify hJ.toDocumented hc
      exact .cons (transparent_shoutOf hJ hb htyped k k') (ih _ _)
    · next hc =>
      have hn : ∀ p t, ¬ IsTyped J m p t := fun p t h ↦ hc p t (h.classify_eq hJ.toDocumented)
      exact .cons ⟨rfl, fun p h ↦ absurd h (hn _ _), fun p t h ↦ absurd h (hn p t)⟩ (ih _ _)

/-- A schedule that runs on one bridge runs on the other, which reads the same. -/
theorem run_withMediator (zuuid' : Nat → Bytes) (mediator : Int32) {ext : InitExtern}
    (hb : b.Initialised ext)
    {as : List (StepAction b)} {w : StepWorld}
    (hw : (stepMachine J zuuid b).run (.start []) as = .ok w) :
    ∃ w', (stepMachine J zuuid' (b.withMediator mediator)).run (.start [])
      (as.map (.withMediator mediator)) = .ok w' ∧ w'.reads = w.reads ∧ w'.zyreOut = w.zyreOut := by
  have hlen := hb.maxMsgLength_eq
  induction as using List.reverseRecOn generalizing w with
  | nil =>
    obtain rfl := Except.ok.inj hw
    exact ⟨_, rfl, rfl, rfl⟩
  | append_singleton as a ih =>
    obtain ⟨w₁, h₁, hs⟩ := Machine.run_concat.mp hw
    obtain ⟨w₁', h₁', hr, hq⟩ := ih h₁
    rw [List.map_append, List.map_singleton]
    cases a with
    | write m =>
      obtain rfl := Except.ok.inj hs
      exact ⟨_, Machine.run_concat.mpr ⟨w₁', h₁', rfl⟩, hr, by simp [hq]⟩
    | step tmpStr =>
      have hfit : ∀ m ∈ w₁.zyreOut, Fits b m := fun m hm ↦
        fits_of_mem_arrivals hlen m ((ledger_of_run hlen h₁).mem_of_mem hm)
      have hfit' : ∀ m ∈ w₁'.zyreOut, Fits (b.withMediator mediator) m := fun m hm ↦
        hfit m (hq ▸ hm)
      have hread := ((zyreBridgeStep_eq_ok_iff hfit tmpStr).mp hs).1
      obtain ⟨w₂', hs'⟩ : ∃ w₂', zyreBridgeStep J zuuid' (b.withMediator mediator) tmpStr w₁' =
          .ok w₂' := ⟨_, (zyreBridgeStep_eq_ok_iff hfit' tmpStr).mpr ⟨hq.symm ▸ hread, rfl⟩⟩
      obtain ⟨hr₂, hq₂⟩ := reads_step hfit hs
      obtain ⟨hr₂', hq₂'⟩ := reads_step hfit' hs'
      refine ⟨w₂', Machine.run_concat.mpr ⟨w₁', h₁', hs'⟩, ?_, ?_⟩
      · rw [hr₂', hr₂, hr, hq]
        rfl
      · rw [hq] at hq₂'
        exact List.append_cancel_left (hq₂'.trans hq₂.symm)

end

/-- A mediator is transparent: a schedule that runs without it runs with it and reads the same
messages, none lost and none twice, and the two logs differ in the updates only, which are
wrapped and not altered. A typed message that comes when all have been read is read by the
next step of both, and shouted so. -/
theorem mediator_transparent {J : Jansson} (hJ : J.RoundTrips) {ext : InitExtern} {b : ZyreBridge}
    (hb : b.Initialised ext) (mediator : Int32) (zuuid zuuid' : Nat → Bytes)
    {as : List (StepAction b)} {w : StepWorld}
    (hw : (stepMachine J zuuid b).run (.start []) as = .ok w) :
    ∃ w', (stepMachine J zuuid' (b.withMediator mediator)).run (.start [])
        (as.map (.withMediator mediator)) = .ok w' ∧
      w.reads ++ w.zyreOut = arrivals as ∧ w'.reads = w.reads ∧ w'.zyreOut = w.zyreOut ∧
      List.Forall₂ (Transparent J zuuid' b mediator) w.log w'.log ∧
      (0 < b.config.maxSend.toInt → w.zyreOut = [] →
        ∀ (m : PortMessage b.config.maxMsgLength) p t, IsTyped J m.bytes p t →
          ∀ tmpStr : Vector UInt8 (mallocSize b.inf.maxMsgLength),
            ∃ w₁ w₁' it it',
              (stepMachine J zuuid b).run w [.write m, .step tmpStr] = .ok w₁ ∧
              (stepMachine J zuuid' (b.withMediator mediator)).run w'
                [.write m, .step tmpStr] = .ok w₁' ∧
              w₁.log = w.log ++ [it] ∧ w₁'.log = w'.log ++ [it'] ∧ it.message = m.bytes ∧
              Transparent J zuuid' b mediator it it') := by
  have hlen := hb.maxMsgLength_eq
  obtain ⟨w', hw', hr, hq⟩ := run_withMediator zuuid' mediator hb hw
  have hledger := ledger_of_run hlen hw
  have hlog' := (ledger_of_run (b := b.withMediator mediator) hlen hw').log_eq
  refine ⟨w', hw', hledger.conserved, hr, hq, ?_, fun hk hempty m p t hp tmpStr ↦ ?_⟩
  · rw [hledger.log_eq, hlog', hr]
    exact transparent_record hJ hb.outputTypeList_eq _ 0 0
  · have hpos : 0 < b.config.maxSend.toNatClampNeg := by
      rw [← Int32.toNat_toInt]
      omega
    obtain ⟨w₁, hw₁, hlog₁⟩ := run_next hJ.toDocumented hb hpos zuuid hempty m hp tmpStr
    obtain ⟨w₁', hw₁', hlog₁'⟩ := run_next (b := b.withMediator mediator) hJ.toDocumented
      hb.withMediator hpos zuuid' (hq.trans hempty) m hp tmpStr
    exact ⟨w₁, w₁', _, _, hw₁, hw₁', hlog₁, hlog₁', rfl,
      transparent_shoutOf hJ hb.outputTypeList_eq hp _ _⟩

/-- The envelope of the update. -/
def updateEnvelope : Json :=
  envelope (.object [(ofString "@worldmodeltype", .string (ofString "RSGUpdate"))])
    (ofString "RSGUpdate")

/-- An update on the test bridge set up without a mediator, and on the one set up with it: the
first shouts the envelope, the second a request that has it for a payload. -/
theorem mediator_transparent_update :
    ∃ w w' req, (stepMachine .reference (fun _ ↦ ofString "1F") plainBridge).run
        (.start []) [.write updateMessage, .step (.replicate _ 0)] = .ok w ∧
      (stepMachine .reference (fun _ ↦ ofString "1F") (plainBridge.withMediator 1)).run (.start [])
        [.write updateMessage, .step (.replicate _ 0)] = .ok w' ∧
      w.log = [⟨updateMessage.bytes, some (some updateEnvelope.text)⟩] ∧
      w'.log = [⟨updateMessage.bytes, some (some req.text)⟩] ∧
      RequestFor plainBridge.inf.node.uuid updateEnvelope req := by
  have hdoc := Jansson.reference_documented
  have hstart : (stepMachine .reference (fun _ ↦ ofString "1F") plainBridge).run (.start []) [] =
      .ok (.start []) := rfl
  obtain ⟨v', hv', -, -, -, -, hnext⟩ := mediator_transparent Jansson.reference_roundTrips
    plainBridge_initialised 1 _ (fun _ ↦ ofString "1F") hstart
  obtain rfl := Except.ok.inj hv'
  obtain ⟨w, w', ⟨_, shout⟩, ⟨_, shout'⟩, hw, hw', hlog, hlog', rfl, htrans⟩ :=
    hnext (by decide) rfl updateMessage _ _ updateMessage_typed (.replicate _ 0)
  obtain rfl : _ = updateMessage.bytes := htrans.message
  obtain ⟨text, text', hshout, hshout', env, req, htext, rfl, hreq, -⟩ :=
    htrans.wrapped _ updateMessage_typed (by decide) rfl
  obtain rfl : shout = some (some text) := hshout
  obtain rfl : shout' = some (some (Jansson.reference.dumps req)) := hshout'
  -- without a mediator it is the envelope that is shouted
  have hplain := shout_of_run hdoc plainBridge_initialised hw
    (hlog ▸ List.mem_append_right _ (List.mem_singleton.mpr rfl)) updateMessage_typed rfl
  obtain rfl : text = updateEnvelope.text := Option.some.inj (Option.some.inj hplain)
  have henv : Jansson.reference.TextOf updateEnvelope.text updateEnvelope :=
    Jansson.reference_roundTrips.textOf (updateMessage_typed.wf_envelope hdoc) rfl
  obtain rfl := htext.unique hdoc henv
  exact ⟨w, w', req, hw, hw', hlog, hlog', hreq⟩

end Ubx.Zyre
