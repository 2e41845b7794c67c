import Ubx.Zyre.Actor

/-!
# What the zyre bridge hands to the world model

The actor compares the stripped text of a type with the entries of `input_type_list`. For
the entries that initialisation puts there this is a comparison of decoded strings, so a
run forwards the payloads of the accepted shouts, provided that each of them has one.
-/

namespace Ubx.Zyre

open Ubx.Base

/-- The envelope in a message whose type is a string on the list. -/
def acceptedEnvelope (J : Jansson) (types : List Bytes) (message : Option Bytes) : Option Json :=
  match J.jsonLoads message with
  | none => none
  | some m =>
    match m.objectGet (ofString "type") with
    | some (.string t) => if t ∈ types then some m else none
    | _ => none

/-- The content of a SHOUT; NULL if the message is too short. -/
def shoutContent : ActorEvent → Option Bytes
  | .zyre (some (name :: rest)) =>
    if cString name = ofString "SHOUT" then rest[3]?.map cString else none
  | _ => none

/-- The payload of an accepted SHOUT. -/
def acceptedPayload (J : Jansson) (types : List Bytes) (e : ActorEvent) : Option Json :=
  (acceptedEnvelope J types (shoutContent e)).bind (·.objectGet (ofString "payload"))

/-- `$TERM` on the pipe. -/
def isTerm : ActorEvent → Bool
  | .pipe (some (command :: _)) => cString command = ofString "$TERM"
  | _ => false

/-- The message of the event is there and has a first frame. -/
def Named : ActorEvent → Prop
  | .pipe msg => ∃ command rest, msg = some (command :: rest)
  | .zyre msg => ∃ name rest, msg = some (name :: rest)
  | .other => True

/-- The write of a payload: its text, in full. -/
def payloadWrite (J : Jansson) (p : Json) : PortWrite := ⟨J.dumps p, (J.dumps p).length⟩

/-- A message with a string for a type and a payload. -/
def Usable (J : Jansson) (message : Option Bytes) : Prop :=
  ∃ m t p, J.jsonLoads message = some m ∧ m.objectGet (ofString "type") = some (.string t) ∧
    m.objectGet (ofString "payload") = some p

/-- The actor handles a SHOUT without touching NULL, stays in its loop, and writes nothing
for an unusable message. -/
def Robust (J : Jansson) (inf : ZyreBridgeInfo) (s : ActorState) (rest : List Bytes) : Prop :=
  ∃ s', (zyreBridgeActor J inf).step s (.zyre (some (ofString "SHOUT" :: rest))) = .ok s' ∧
    s'.loop = .running ∧ (¬ Usable J (rest[3]?.map cString) → s'.zyreIn = s.zyreIn)

section

variable {J : Jansson} {inf : ZyreBridgeInfo}

/-- Every entry of the fixed list is a name that stripping recognises. -/
theorem isName_of_mem_inputTypeList {t : Bytes} (h : t ∈ inputTypeList) : Json.isName t = true := by
  have hall : ∀ t ∈ inputTypeList, Json.isName t = true := by decide
  exact hall t h

/-- For an entry of the fixed list, the stripped type is the decoded one. -/
theorem strippedType_iff {m : Json} {t : Bytes} (h : t ∈ inputTypeList) :
    StrippedType m t ↔ m.objectGet (ofString "type") = some (.string t) := by
  simp [StrippedType, Json.stripped_eq_name_iff (isName_of_mem_inputTypeList h)]

/-- An envelope is accepted when its stripped type is on the fixed list. -/
theorem acceptedEnvelope_eq_some_iff {message : Option Bytes} {m : Json} :
    acceptedEnvelope J inputTypeList message = some m ↔
      J.jsonLoads message = some m ∧ ∃ t ∈ inputTypeList, StrippedType m t := by
  rw [acceptedEnvelope]
  constructor
  · intro h
    split at h
    · exact absurd h (by simp)
    · next m' hm =>
      split at h
      · next t ht =>
        split at h
        · next hmem =>
          obtain rfl := Option.some.inj h
          exact ⟨hm, t, hmem, (strippedType_iff hmem).mpr ht⟩
        · exact absurd h (by simp)
      · exact absurd h (by simp)
  · rintro ⟨hm, t, hmem, ht⟩
    rw [strippedType_iff hmem] at ht
    simp only [hm, ht, hmem, ↓reduceIte]

/-- With a string for a type the actor accepts by the list. -/
theorem acceptedEnvelope_of_type {message : Option Bytes} {root : Json} {types : List Bytes}
    {type : Bytes} (hm : J.jsonLoads message = some root)
    (ht : root.objectGet (ofString "type") = some (.string type)) :
    acceptedEnvelope J types message = if type ∈ types then some root else none := by
  simp only [acceptedEnvelope, hm, ht]

/-- Of the text of a document with such a type it accepts the document, if that is not nested
too deep. -/
theorem acceptedEnvelope_dumps (hJ : J.RoundTrips) {v : Json} (hv : v.WF J.printed)
    (hd : v.isDocument = true) {type : Bytes}
    (ht : v.objectGet (ofString "type") = some (.string type)) (types : List Bytes) :
    acceptedEnvelope J types (some (J.dumps v)) =
      if type ∈ types ∧ J.Nests v then some v else none := by
  have hload : J.jsonLoads (some (J.dumps v)) = if J.Nests v then some v else none :=
    hJ.loads_dumps v hv hd
  by_cases hn : J.Nests v
  · rw [if_pos hn] at hload
    simp only [acceptedEnvelope_of_type hload ht, hn, and_true]
  · rw [if_neg hn] at hload
    rw [if_neg fun h ↦ hn h.2]
    simp only [acceptedEnvelope, hload]

/-- Stripping is a function of the message. -/
theorem StrippedType.unique {m : Json} {t t' : Bytes} (h : StrippedType m t)
    (h' : StrippedType m t') : t = t' := by
  obtain ⟨ty, hty, ht⟩ := h
  obtain ⟨ty', hty', ht'⟩ := h'
  obtain rfl := Option.some.inj (hty.symm.trans hty')
  exact Option.some.inj (ht.symm.trans ht')

/-- The SHOUT branch on any list: what is written is decided by the stripped type. -/
theorem shoutBranch_eq (hJ : J.Documented) {message : Option Bytes} {m : Json}
    (hm : J.jsonLoads message = some m) {t : Bytes} (ht : StrippedType m t)
    (zyreIn : List PortWrite) :
    shoutBranch J inf message zyreIn =
      match m.objectGet (ofString "payload") with
      | some p => .ok (zyreIn ++ List.replicate (inf.inputTypeList.count t) (payloadWrite J p))
      | none => if t ∈ inf.inputTypeList then .error .strlenNull else .ok zyreIn := by
  obtain ⟨text, rfl, hl⟩ := Option.bind_eq_some_iff.mp hm
  rw [shoutBranch_of_loads hJ hl ht]
  cases hp : m.objectGet (ofString "payload") with
  | none => rw [inputLoop_of_no_payload hp]
  | some p =>
    have hwf : p.WF J.printed := (hJ.loads_wf _ _ hl).1.objectGet hp
    simp only [inputLoop_of_payload hp, hJ.cString_dumps hwf, payloadWrite]

/-- The SHOUT branch on the fixed list: one write for an accepted envelope. -/
theorem shoutBranch_inputTypeList (hJ : J.Documented) (hinf : inf.inputTypeList = inputTypeList)
    (message : Option Bytes) (zyreIn : List PortWrite) :
    shoutBranch J inf message zyreIn =
      match acceptedEnvelope J inputTypeList message with
      | none => .ok zyreIn
      | some m =>
        match m.objectGet (ofString "payload") with
        | none => .error .strlenNull
        | some p => .ok (zyreIn ++ [payloadWrite J p]) := by
  by_cases h : ∃ m t, J.jsonLoads message = some m ∧ StrippedType m t
  · obtain ⟨m, t, hm, ht⟩ := h
    rw [shoutBranch_eq hJ hm ht, hinf]
    by_cases hmem : t ∈ inputTypeList
    · have hnodup : inputTypeList.Nodup := by decide
      rw [acceptedEnvelope_eq_some_iff.mpr ⟨hm, t, hmem, ht⟩, if_pos hmem,
        List.count_eq_one_of_mem hnodup hmem]
      cases hp : m.objectGet (ofString "payload") <;> simp [hp]
    · have hnone : acceptedEnvelope J inputTypeList message = none := by
        rw [Option.eq_none_iff_forall_ne_some]
        intro m' hm'
        obtain ⟨hl, t', hmem', ht'⟩ := acceptedEnvelope_eq_some_iff.mp hm'
        obtain rfl := Option.some.inj (hm.symm.trans hl)
        exact hmem (ht.unique ht' ▸ hmem')
      rw [hnone, if_neg hmem, List.count_eq_zero_of_not_mem hmem]
      cases m.objectGet (ofString "payload") <;> simp
  · rw [shoutBranch_of_not_stripped fun m t hm ht ↦ h ⟨m, t, hm, ht⟩]
    have hnone : acceptedEnvelope J inputTypeList message = none := by
      rw [Option.eq_none_iff_forall_ne_some]
      intro m hm
      obtain ⟨hl, t, -, ht⟩ := acceptedEnvelope_eq_some_iff.mp hm
      exact h ⟨m, t, hl, ht⟩
    rw [hnone]

/-- Robustness is a matter of the SHOUT branch. -/
theorem robust_iff_branch {s : ActorState} (hs : s.loop = .running) (rest : List Bytes) :
    Robust J inf s rest ↔
      ∃ zyreIn, shoutBranch J inf (rest[3]?.map cString) s.zyreIn = .ok zyreIn ∧
        (¬ Usable J (rest[3]?.map cString) → zyreIn = s.zyreIn) := by
  rw [Robust, step_shout hs]
  cases shoutBranch J inf (rest[3]?.map cString) s.zyreIn with
  | error f => simp [Except.map]
  | ok zyreIn => simp [Except.map, hs]

/-- With a stripped type, the branch goes wrong only for a type on the list. -/
theorem robust_iff_of_stripped (hJ : J.Documented) {s : ActorState} (hs : s.loop = .running)
    {rest : List Bytes} {m : Json} (hm : J.jsonLoads (rest[3]?.map cString) = some m) {t : Bytes}
    (ht : StrippedType m t) :
    Robust J inf s rest ↔
      (t ∈ inf.inputTypeList → (m.objectGet (ofString "payload")).isSome ∧
        ∃ str, m.objectGet (ofString "type") = some (.string str)) := by
  rw [robust_iff_branch hs, shoutBranch_eq hJ hm ht]
  by_cases hmem : t ∈ inf.inputTypeList
  · cases hp : m.objectGet (ofString "payload") with
    | none => simp [hmem]
    | some p =>
      simp only [Except.ok.injEq, exists_eq_left', hmem, Option.isSome_some, true_and,
        forall_const]
      constructor
      · intro h
        by_contra hstr
        have hu : ¬ Usable J (rest[3]?.map cString) := by
          rintro ⟨m', str, -, hm', hty, -⟩
          obtain rfl := Option.some.inj (hm.symm.trans hm')
          exact hstr ⟨str, hty⟩
        have hlen := congrArg List.length (h hu)
        have hpos := List.count_pos_iff.mpr hmem
        rw [List.length_append, List.length_replicate] at hlen
        omega
      · rintro ⟨str, hty⟩ hu
        exact absurd ⟨m, str, p, hm, hty, hp⟩ hu
  · cases m.objectGet (ofString "payload") <;> simp [hmem, List.count_eq_zero_of_not_mem hmem]

end

/-- A SHOUT is handled as promised exactly when every envelope that gets through the
comparison with the list has a payload, and a string for a type. For the list of the
initialisation the second part always holds. -/
theorem shout_robust_iff {J : Jansson} (hJ : J.Documented) (inf : ZyreBridgeInfo)
    (s : ActorState) (hs : s.loop = .running) (rest : List Bytes) :
    (Robust J inf s rest ↔
      ∀ m t, J.jsonLoads (rest[3]?.map cString) = some m → StrippedType m t →
        t ∈ inf.inputTypeList → (m.objectGet (ofString "payload")).isSome ∧
          ∃ str, m.objectGet (ofString "type") = some (.string str)) ∧
    (inf.inputTypeList = inputTypeList → (Robust J inf s rest ↔
      ∀ m t, J.jsonLoads (rest[3]?.map cString) = some m →
        m.objectGet (ofString "type") = some (.string t) → t ∈ inputTypeList →
          (m.objectGet (ofString "payload")).isSome)) := by
  have hgen : Robust J inf s rest ↔
      ∀ m t, J.jsonLoads (rest[3]?.map cString) = some m → StrippedType m t →
        t ∈ inf.inputTypeList → (m.objectGet (ofString "payload")).isSome ∧
          ∃ str, m.objectGet (ofString "type") = some (.string str) := by
    by_cases h : ∃ m t, J.jsonLoads (rest[3]?.map cString) = some m ∧ StrippedType m t
    · obtain ⟨m, t, hm, ht⟩ := h
      rw [robust_iff_of_stripped hJ hs hm ht]
      refine ⟨fun h m' t' hm' ht' ↦ ?_, fun h ↦ h m t hm ht⟩
      obtain rfl := Option.some.inj (hm.symm.trans hm')
      exact ht.unique ht' ▸ h
    · have hnone : ∀ m t, J.jsonLoads (rest[3]?.map cString) = some m → ¬ StrippedType m t :=
        fun m t hm ht ↦ h ⟨m, t, hm, ht⟩
      rw [robust_iff_branch hs, shoutBranch_of_not_stripped hnone]
      exact ⟨fun _ m t hm ht ↦ absurd ht (hnone m t hm), fun _ ↦ ⟨_, rfl, fun _ ↦ rfl⟩⟩
  refine ⟨hgen, fun hinf ↦ hgen.trans ?_⟩
  rw [hinf]
  constructor
  · intro h m t hm hty hmem
    exact (h m t hm ((strippedType_iff hmem).mpr hty) hmem).1
  · intro h m t hm ht hmem
    have hty := (strippedType_iff hmem).mp ht
    exact ⟨h m t hm hty hmem, t, hty⟩

/-- A query without a payload, as a peer can shout it. -/
def queryShout : List Bytes :=
  [ofString "1B", ofString "peer", ofString "local",
    ofString "\x7b\"type\":\"RSGQuery\"\x7d"]

/-- The query without a payload leads to `strlen` of NULL. -/
theorem query_without_payload_faults :
    (zyreBridgeActor .reference testBridge.inf).step .start
        (.zyre (some (ofString "SHOUT" :: queryShout))) = .error .strlenNull ∧
      ¬ Robust .reference testBridge.inf .start queryShout := by
  have h : (zyreBridgeActor .reference testBridge.inf).step .start
      (.zyre (some (ofString "SHOUT" :: queryShout))) = .error .strlenNull := by rfl
  refine ⟨h, ?_⟩
  rintro ⟨s', hs', -⟩
  exact absurd (h.symm.trans hs') (by simp)

/-- The equivalence at the start of the test bridge, for the query without a payload. -/
theorem shout_robust_iff_query :
    Robust .reference testBridge.inf .start queryShout ↔
      ∀ m t, Jansson.reference.jsonLoads (queryShout[3]?.map cString) = some m →
        m.objectGet (ofString "type") = some (.string t) → t ∈ inputTypeList →
          (m.objectGet (ofString "payload")).isSome :=
  (shout_robust_iff Jansson.reference_documented testBridge.inf .start rfl queryShout).2 rfl

/-! ### Whole runs -/

section

variable {J : Jansson} {inf : ZyreBridgeInfo}

/-- A stopped actor takes no more events. -/
theorem run_stopped {s : ActorState} (hs : s.loop ≠ .running) (es : List ActorEvent) :
    (zyreBridgeActor J inf).run s es = .ok s := by
  induction es with
  | nil => rfl
  | cons e es ih =>
    refine Machine.run_cons.mpr ⟨s, ?_, ih⟩
    rw [zyreBridgeActor]
    simp only [hs, ↓reduceIte]

/-- One event: the payload of an accepted SHOUT is written, `$TERM` ends the loop, and
nothing else changes the state. -/
theorem step_named (hJ : J.Documented) (hinf : inf.inputTypeList = inputTypeList)
    {s : ActorState} (hs : s.loop = .running) {e : ActorEvent} (he : Named e)
    (hp : ∀ m, acceptedEnvelope J inputTypeList (shoutContent e) = some m →
      (m.objectGet (ofString "payload")).isSome) :
    (zyreBridgeActor J inf).step s e =
      .ok { zyreIn := s.zyreIn ++
              (acceptedPayload J inputTypeList e).toList.map (payloadWrite J)
            loop := if isTerm e then .terminated else .running } := by
  have hsame : s = ⟨s.zyreIn, .running⟩ := by rw [← hs]
  rw [zyreBridgeActor]
  simp only [hs, ↓reduceIte]
  cases e with
  | other => simpa [acceptedPayload, shoutContent, acceptedEnvelope, Jansson.jsonLoads, isTerm]
      using hsame
  | pipe msg =>
    obtain ⟨command, rest, rfl⟩ := he
    simp only [pipeMessage, zmsgPopstr, acceptedPayload, shoutContent, acceptedEnvelope,
      Jansson.jsonLoads, isTerm, Option.bind_none, Option.toList_none, List.map_nil,
      List.append_nil, decide_eq_true_eq]
    split
    · rfl
    · rw [← hsame]
  | zyre msg =>
    obtain ⟨name, rest, rfl⟩ := he
    simp only [zyreMessage_cons, acceptedPayload, isTerm, Bool.false_eq_true, ↓reduceIte]
    simp only [shoutContent] at hp ⊢
    by_cases hn : cString name = ofString "SHOUT"
    · simp only [hn, ↓reduceIte] at hp ⊢
      rw [shoutBranch_inputTypeList hJ hinf]
      cases ha : acceptedEnvelope J inputTypeList (rest[3]?.map cString) with
      | none => simpa [Except.map] using hs
      | some m =>
        obtain ⟨p, hpay⟩ := Option.isSome_iff_exists.mp (hp m ha)
        simpa [hpay, Except.map] using hs
    · simpa [hn, acceptedEnvelope, Jansson.jsonLoads] using hsame

/-- A run writes the payloads of the accepted shouts in front of the first `$TERM`. -/
theorem run_named (hJ : J.Documented) (hinf : inf.inputTypeList = inputTypeList)
    {s : ActorState} (hs : s.loop = .running) {es : List ActorEvent} (he : ∀ e ∈ es, Named e)
    (hp : ∀ e ∈ es, ∀ m, acceptedEnvelope J inputTypeList (shoutContent e) = some m →
      (m.objectGet (ofString "payload")).isSome) :
    ∃ s', (zyreBridgeActor J inf).run s es = .ok s' ∧
      s'.zyreIn = s.zyreIn ++ ((es.takeWhile (!isTerm ·)).filterMap
        (acceptedPayload J inputTypeList)).map (payloadWrite J) := by
  induction es generalizing s with
  | nil => exact ⟨s, rfl, by simp⟩
  | cons e es ih =>
    have hstep := step_named hJ hinf hs (he e (by simp)) (hp e (by simp))
    cases ht : isTerm e with
    | true =>
      rw [ht] at hstep
      refine ⟨_, Machine.run_cons.mpr ⟨_, hstep, run_stopped (by simp) es⟩, ?_⟩
      have hnone : acceptedPayload J inputTypeList e = none := by
        cases e with
        | pipe msg => rfl
        | zyre msg => exact absurd ht (by simp [isTerm])
        | other => rfl
      simp [ht, hnone]
    | false =>
      rw [ht] at hstep
      obtain ⟨s', hr, hz⟩ := ih (s := ⟨_, .running⟩) rfl
        (fun x hx ↦ he x (List.mem_cons_of_mem _ hx)) fun x hx ↦ hp x (List.mem_cons_of_mem _ hx)
      refine ⟨s', Machine.run_cons.mpr ⟨_, hstep, hr⟩, hz.trans ?_⟩
      cases h : acceptedPayload J inputTypeList e <;> simp [ht, h]

end

/-- Exact input forwarding: over any events, in which accepted shouts have payloads, an
initialised bridge writes the texts of the payloads accepted in front of the first
`$TERM`, each in full, and nothing else. -/
theorem actor_forwards {J : Jansson} (hJ : J.Documented) {ext : InitExtern} {b : ZyreBridge}
    (hb : b.Initialised ext) (es : List ActorEvent) (he : ∀ e ∈ es, Named e)
    (hp : ∀ e ∈ es, ∀ m, acceptedEnvelope J b.inf.inputTypeList (shoutContent e) = some m →
      (m.objectGet (ofString "payload")).isSome) :
    ∃ s, (zyreBridgeActor J b.inf).run .start es = .ok s ∧
      s.zyreIn.map PortWrite.data = ((es.takeWhile (!isTerm ·)).filterMap
        (acceptedPayload J b.inf.inputTypeList)).map J.dumps ∧
      ∀ w ∈ s.zyreIn, w.len = w.data.length := by
  have hlist := hb.inputTypeList_eq
  rw [hlist] at hp ⊢
  obtain ⟨s, hr, hz⟩ := run_named hJ hlist (s := .start) rfl he hp
  have hz : s.zyreIn = ((es.takeWhile (!isTerm ·)).filterMap
      (acceptedPayload J inputTypeList)).map (payloadWrite J) := by
    simpa [ActorState.start] using hz
  refine ⟨s, hr, ?_, ?_⟩
  · rw [hz, List.map_map]
    rfl
  · intro w hw
    rw [hz] at hw
    obtain ⟨p, -, rfl⟩ := List.mem_map.mp hw
    rfl

/-- A peer shouts an update. -/
def updateShout : ActorEvent :=
  .zyre (some [ofString "SHOUT", ofString "1B", ofString "peer", ofString "local",
    ofString "\x7b\"type\":\"RSGUpdate\",\"payload\":[1]\x7d"])

/-- Of two updates, one before and one after `$TERM`, the first is forwarded. -/
theorem actor_forwards_update :
    ∃ s, (zyreBridgeActor .reference testBridge.inf).run .start
        [updateShout, .pipe (some [ofString "$TERM"]), updateShout] = .ok s ∧
      s.zyreIn.map PortWrite.data = [ofString "[1]"] := by
  have hshout : acceptedEnvelope .reference testBridge.inf.inputTypeList
      (shoutContent updateShout) = some (.object [(ofString "type", .string (ofString "RSGUpdate")),
        (ofString "payload", .array [.integer 1])]) := by rfl
  obtain ⟨s, hr, hd, -⟩ := actor_forwards Jansson.reference_documented testBridge_initialised
    [updateShout, .pipe (some [ofString "$TERM"]), updateShout]
    (by simp [updateShout, Named]) (by
      intro e he m hm
      have hcase : e = updateShout ∨ e = .pipe (some [ofString "$TERM"]) ∨ e = updateShout := by
        simpa using he
      rcases hcase with rfl | rfl | rfl
      · obtain rfl := Option.some.inj (hshout.symm.trans hm)
        rfl
      · exact absurd hm (by simp [acceptedEnvelope, shoutContent, Jansson.jsonLoads])
      · obtain rfl := Option.some.inj (hshout.symm.trans hm)
        rfl)
  exact ⟨s, hr, hd⟩

end Ubx.Zyre
