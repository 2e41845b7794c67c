import Ubx.Zyre.Output

/-!
# The output list of the zyre bridge

`output_type_list` is there to select the types that are shouted. The loop over it takes
the result of `compare` for a truth value, so an entry is a match when it differs from the
type: any type passes a list with two different entries, and a list that holds nothing
but the type shouts NULL.
-/

namespace Ubx.Zyre

open Ubx.Base

/-- `m` is a JSON object `pl` whose `@worldmodeltype` is the string `tmpType`. -/
def IsTyped (J : Jansson) (m : Bytes) (pl : Json) (tmpType : Bytes) : Prop :=
  J.loads (cString m) = some pl ∧
    pl.objectGet (ofString "@worldmodeltype") = some (.string tmpType)

/-- The state after initialisation with lists of one's own. -/
def bridgeWith (c : ZyreBridgeConfig) (inputs outputs : List Bytes) (node : ZyreNode) :
    ZyreBridge :=
  ⟨c, zyreBridgeInfo c inputs outputs node⟩

/-- Every call of `zyre_shouts` in the log carries the text built from the message read
in its iteration, and the type of that message is on the list. -/
def Whitelisted (J : Jansson) (zuuid : Nat → Bytes) (b : ZyreBridge) (log : List Iteration) :
    Prop :=
  ∀ it ∈ log, ∀ arg, it.shout = some arg →
    ∃ pl tmpType k, IsTyped J it.message pl tmpType ∧ tmpType ∈ b.inf.outputTypeList ∧
      arg = some (shoutText J b (zuuid k) pl tmpType)

section

variable {J : Jansson} {zuuid : Nat → Bytes} {b : ZyreBridge}

/-- A message has one payload and one type. -/
theorem IsTyped.unique {m : Bytes} {pl pl' : Json} {t t' : Bytes} (h : IsTyped J m pl t)
    (h' : IsTyped J m pl' t') : pl = pl' ∧ t = t' := by
  obtain rfl := Option.some.inj (h.1.symm.trans h'.1)
  exact ⟨rfl, by simpa using h.2.symm.trans h'.2⟩

/-- Strings of a decoded document hold no NUL, so the step sees the whole type. -/
theorem IsTyped.classify_eq (hJ : J.Documented) {m : Bytes} {pl : Json} {t : Bytes}
    (h : IsTyped J m pl t) : classify J m = .typed pl t := by
  have hwf : (Json.string t).WF J.printed := (hJ.loads_wf _ _ h.1).1.objectGet h.2
  have h0 : cString t = t := by
    cases hwf with
    | string hv => exact cString_eq_self hv.1
  simp only [classify, h.1, h.2, Json.stringValue, h0]

/-- The log of typed messages is whitelisted exactly when each type is on the list and
some other type is as well. -/
theorem whitelisted_record_iff (hJ : J.Documented) {ms : List Bytes}
    (hms : ∀ m ∈ ms, ∃ pl t, IsTyped J m pl t) (drawn : Nat) :
    Whitelisted J zuuid b (record J zuuid b drawn ms) ↔
      ∀ m ∈ ms, ∀ pl t, IsTyped J m pl t →
        t ∈ b.inf.outputTypeList ∧ ∃ e ∈ b.inf.outputTypeList, e ≠ t := by
  induction ms generalizing drawn with
  | nil => simp [Whitelisted, record]
  | cons m ms ih =>
    obtain ⟨pl, t, hm⟩ := hms m (by simp)
    have ih := ih (fun x hx ↦ hms x (List.mem_cons_of_mem _ hx)) (drawnOf b drawn t)
    simp only [record, hm.classify_eq hJ]
    rw [List.forall_mem_cons, ← ih, Whitelisted, List.forall_mem_cons]
    apply and_congr_left
    intro _
    simp only [shoutOf, Option.some.injEq, forall_eq']
    constructor
    · rintro ⟨pl', t', k, hm', ht, harg⟩ pl'' t'' hm''
      obtain ⟨-, rfl⟩ := hm.unique hm'
      obtain ⟨-, rfl⟩ := hm.unique hm''
      refine ⟨ht, ?_⟩
      by_contra hne
      rw [if_neg hne] at harg
      exact absurd harg (by simp)
    · intro h
      obtain ⟨ht, he⟩ := h pl t hm
      exact ⟨pl, t, drawn, hm, ht, by rw [if_pos he]⟩

/-- A typed port message can be read if the buffer has the configured size. -/
theorem IsTyped.readable (hJ : J.Documented)
    (hb : b.inf.maxMsgLength = toUnsignedLong b.config.maxMsgLength)
    {m : PortMessage b.config.maxMsgLength} {pl : Json} {t : Bytes} (h : IsTyped J m.bytes pl t) :
    Readable J b m.bytes :=
  ⟨m.pos, (m.fits hb).2, by simp [h.classify_eq hJ]⟩

/-- After some steps on a queue without malformed messages, what `max_send` allows has
been read. -/
theorem reads_run {queue : List Bytes} (h : ∀ m ∈ queue, Readable J b m)
    (hm : ∀ m ∈ queue, classify J m ≠ .malformed)
    (bufs : List (Vector UInt8 (mallocSize b.inf.maxMsgLength))) {w : StepWorld}
    (hw : (stepMachine J zuuid b).run (.start queue) (bufs.map .step) = .ok w) :
    w.reads = queue.take (bufs.length * b.inf.maxSend.toNatClampNeg) ∧
      w.zyreOut = queue.drop (bufs.length * b.inf.maxSend.toNatClampNeg) := by
  induction bufs using List.reverseRecOn generalizing w with
  | nil =>
    obtain rfl := Except.ok.inj hw
    simp [StepWorld.reads, StepWorld.start]
  | append_singleton bufs buf ih =>
    rw [List.map_append] at hw
    obtain ⟨w₁, h₁, hs⟩ := Machine.run_concat.mp hw
    obtain ⟨hr, hq⟩ := ih h₁
    have hsub : ∀ m ∈ w₁.zyreOut, m ∈ queue := fun m hm ↦ List.mem_of_mem_drop (hq ▸ hm)
    obtain ⟨hr', hq'⟩ := reads_step (fun m hm ↦ (h m (hsub m hm)).fitting) hs
    rw [batch_eq_take fun x hx ↦ hm x (hsub x (List.mem_of_mem_take hx))] at hr' hq'
    have hz : w.zyreOut = w₁.zyreOut.drop b.inf.maxSend.toNatClampNeg := by
      rw [← List.take_append_drop b.inf.maxSend.toNatClampNeg w₁.zyreOut] at hq'
      simpa using List.append_cancel_left (hq'.trans (by simp))
    rw [hr', hz, hr, hq, List.length_append, List.length_singleton, Nat.add_mul, Nat.one_mul]
    exact ⟨(List.take_add).symm, List.drop_drop⟩

end

/-- Steps on typed messages keep to the output list exactly when each message read has a
type on the list and the list holds a different type too. -/
theorem run_whitelisted_iff {J : Jansson} (hJ : J.Documented) (zuuid : Nat → Bytes)
    (c : ZyreBridgeConfig) (inputs outputs : List Bytes) (node : ZyreNode)
    (queue : List (PortMessage c.maxMsgLength))
    (hq : ∀ m ∈ queue, ∃ pl t, IsTyped J m.bytes pl t)
    (bufs : List (Vector UInt8
      (mallocSize (bridgeWith c inputs outputs node).inf.maxMsgLength))) :
    ∃ w, (stepMachine J zuuid (bridgeWith c inputs outputs node)).run
        (.start (queue.map PortMessage.bytes)) (bufs.map .step) = .ok w ∧
      (Whitelisted J zuuid (bridgeWith c inputs outputs node) w.log ↔
        ∀ m ∈ queue.take (bufs.length * c.maxSend.toNatClampNeg), ∀ pl t, IsTyped J m.bytes pl t →
          t ∈ outputs ∧ ∃ e ∈ outputs, e ≠ t) := by
  have hread : ∀ m ∈ queue.map PortMessage.bytes,
      Readable J (bridgeWith c inputs outputs node) m ∧ classify J m ≠ .malformed ∧
        ∃ pl t, IsTyped J m pl t := by
    intro m hm
    obtain ⟨p, hp, rfl⟩ := List.mem_map.mp hm
    obtain ⟨pl, t, ht⟩ := hq p hp
    exact ⟨ht.readable (b := bridgeWith c inputs outputs node) hJ rfl,
      by simp [ht.classify_eq hJ], pl, t, ht⟩
  obtain ⟨w, hw, hl⟩ := run_steps_ledger zuuid (fun m hm ↦ (hread m hm).1) bufs
  obtain ⟨hr, -⟩ := reads_run (fun m hm ↦ (hread m hm).1) (fun m hm ↦ (hread m hm).2.1) bufs hw
  refine ⟨w, hw, ?_⟩
  rw [hl.log_eq, whitelisted_record_iff hJ, hr, ← List.map_take]
  · exact List.forall_mem_map
  · intro m hm
    rw [hr] at hm
    exact (hread m (List.mem_of_mem_take hm)).2.2

/-- A query on its way to the components, where only query results belong. -/
def queryMessage : PortMessage zyreTestBridge.maxMsgLength :=
  ⟨ofString "\x7b\"@worldmodeltype\":\"RSGQuery\"\x7d", by decide, by decide⟩

private theorem queryMessage_typed :
    IsTyped .reference queryMessage.bytes
      (.object [(ofString "@worldmodeltype", .string (ofString "RSGQuery"))])
      (ofString "RSGQuery") :=
  ⟨rfl, rfl⟩

private theorem step_queryMessage (zuuid : Nat → Bytes)
    (tmpStr : Vector UInt8 (mallocSize testBridge.inf.maxMsgLength)) :
    ∃ w, (stepMachine .reference zuuid testBridge).run (.start [queryMessage.bytes])
        [.step tmpStr] = .ok w ∧ ¬ Whitelisted .reference zuuid testBridge w.log := by
  have hc := queryMessage_typed.classify_eq Jansson.reference_documented
  have hread : ∀ m ∈ [queryMessage.bytes], Readable .reference testBridge m := by
    intro m hm
    obtain rfl := List.mem_singleton.mp hm
    exact queryMessage_typed.readable (b := testBridge) Jansson.reference_documented rfl
  obtain ⟨w, hw, hl⟩ := run_steps_ledger zuuid hread [tmpStr]
  have hr := (reads_run hread (by simp [hc]) [tmpStr] hw).1
  have hall : ∀ m ∈ w.reads, ∃ pl t, IsTyped .reference m pl t := by
    intro m hm
    obtain rfl := List.mem_singleton.mp (List.mem_of_mem_take (hr ▸ hm))
    exact ⟨_, _, queryMessage_typed⟩
  refine ⟨w, hw, fun h ↦ ?_⟩
  rw [hl.log_eq, whitelisted_record_iff Jansson.reference_documented hall, hr] at h
  exact absurd (h _ (List.mem_singleton.mpr rfl) _ _ queryMessage_typed).1 (by decide)

/-- The test bridge shouts a query. -/
theorem query_shouted :
    ∃ w, (stepMachine .reference (fun _ ↦ ofString "1F") testBridge).run
        (.start [queryMessage.bytes]) [.step (.replicate _ 0)] = .ok w ∧
      ¬ Whitelisted .reference (fun _ ↦ ofString "1F") testBridge w.log :=
  step_queryMessage _ _

/-- One step of the test bridge on the query, under the equivalence. -/
theorem run_whitelisted_iff_query :
    ∃ w, (stepMachine .reference (fun _ ↦ ofString "1F") testBridge).run
        (.start [queryMessage.bytes]) [.step (.replicate _ 0)] = .ok w ∧
      (Whitelisted .reference (fun _ ↦ ofString "1F") testBridge w.log ↔
        ∀ m ∈ [queryMessage].take 5, ∀ pl t, IsTyped .reference m.bytes pl t →
          t ∈ outputTypeList ∧ ∃ e ∈ outputTypeList, e ≠ t) :=
  run_whitelisted_iff Jansson.reference_documented (fun _ ↦ ofString "1F") zyreTestBridge
    inputTypeList outputTypeList ⟨ofString "0A"⟩ [queryMessage]
    (fun _ hm ↦ List.mem_singleton.mp hm ▸ ⟨_, _, queryMessage_typed⟩) [.replicate _ 0]

end Ubx.Zyre
