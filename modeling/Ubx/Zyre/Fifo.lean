import Ubx.Zyre.Whitelist

/-!
# The zyre bridge as a FIFO

Any schedule of port writes and steps, with messages that are malformed or of a listed
type: what was read and what waits make up what came, the shouts are the envelopes of the
well-formed messages read, and how the schedule cuts the stream into steps does not show.
-/

namespace Ubx.Zyre

open Ubx.Base

/-- The text up to the first NUL is an array or object and has an `@worldmodeltype`. -/
def wellFormed (J : Jansson) (m : Bytes) : Bool :=
  ((J.loads (cString m)).bind (·.objectGet (ofString "@worldmodeltype"))).isSome

/-- A message that is malformed or of a listed string type. -/
def Expected (J : Jansson) (b : ZyreBridge) (m : Bytes) : Prop :=
  wellFormed J m = false ∨ ∃ pl tmpType, IsTyped J m pl tmpType ∧ tmpType ∈ b.inf.outputTypeList

/-- `arg` is the envelope of the message `m` under some UUID. -/
def EnvelopeOf (J : Jansson) (zuuid : Nat → Bytes) (b : ZyreBridge) (m : Bytes)
    (arg : Option Bytes) : Prop :=
  ∃ pl tmpType k, IsTyped J m pl tmpType ∧ arg = some (shoutText J b (zuuid k) pl tmpType)

/-- Two shouts of one message that may differ in the UUID of the mediator envelope. -/
def SameUpToUid (J : Jansson) (b : ZyreBridge) (arg arg' : Option Bytes) : Prop :=
  ∃ pl tmpType uid uid', arg = some (shoutText J b uid pl tmpType) ∧
    arg' = some (shoutText J b uid' pl tmpType)

/-- Messages are read once and in order, and each well-formed one is shouted once. -/
structure FifoOutput (J : Jansson) (zuuid : Nat → Bytes) (b : ZyreBridge) (came : List Bytes)
    (w : StepWorld) : Prop where
  conserved : w.reads ++ w.zyreOut = came
  shouts_eq : List.Forall₂ (EnvelopeOf J zuuid b) (w.reads.filter (wellFormed J)) w.shouts

/-- One step takes `taken` off the queue: up to `max_send` messages, and no further than
the first malformed one, which it takes as well. -/
structure StepTakes (J : Jansson) (b : ZyreBridge) (w w' : StepWorld) (taken : List Bytes) :
    Prop where
  reads_eq : w'.reads = w.reads ++ taken
  queue_eq : w.zyreOut = taken ++ w'.zyreOut
  bounded : taken.length ≤ b.inf.maxSend.toNatClampNeg
  full : (∀ m ∈ w.zyreOut.take b.inf.maxSend.toNatClampNeg, wellFormed J m) →
    taken = w.zyreOut.take b.inf.maxSend.toNatClampNeg
  malformed : ∀ pre m rest, w.zyreOut = pre ++ m :: rest → (∀ p ∈ pre, wellFormed J p) →
    wellFormed J m = false → pre.length < b.inf.maxSend.toNatClampNeg → taken = pre ++ [m]

section

variable {J : Jansson} {zuuid : Nat → Bytes} {b : ZyreBridge}

/-- The step takes a message as malformed when it is not well-formed. -/
theorem classify_eq_malformed_iff (m : Bytes) :
    classify J m = .malformed ↔ wellFormed J m = false := by
  rw [wellFormed, classify]
  cases J.loads (cString m) with
  | none => simp
  | some pl =>
    simp only [Option.bind_some]
    cases pl.objectGet (ofString "@worldmodeltype") with
    | none => simp
    | some ty => cases h : ty.stringValue <;> simp [h]

/-- A typed message is well-formed. -/
theorem IsTyped.wellFormed {m : Bytes} {pl : Json} {t : Bytes} (h : IsTyped J m pl t) :
    wellFormed J m = true := by
  simp [Zyre.wellFormed, h.1, h.2]

/-- An expected message is never of a non-string type. -/
theorem Expected.classify_ne (hJ : J.Documented) {m : Bytes} (h : Expected J b m) :
    classify J m ≠ .untyped := by
  rcases h with h | ⟨pl, t, h, -⟩
  · simp [(classify_eq_malformed_iff m).mpr h]
  · simp [h.classify_eq hJ]

/-- With two different listed types, the log of expected messages shouts the envelope of
each well-formed one. -/
theorem shouts_record (hJ : J.Documented) (hb : b.inf.outputTypeList = outputTypeList)
    {ms : List Bytes} (hms : ∀ m ∈ ms, Expected J b m) (drawn : Nat) :
    List.Forall₂ (EnvelopeOf J zuuid b) (ms.filter (wellFormed J))
      ((record J zuuid b drawn ms).filterMap Iteration.shout) := by
  induction ms generalizing drawn with
  | nil => exact .nil
  | cons m ms ih =>
    have ih := ih fun x hx ↦ hms x (List.mem_cons_of_mem _ hx)
    rcases hms m (by simp) with h | ⟨pl, t, h, -⟩
    · have hc := (classify_eq_malformed_iff m).mpr h
      simp only [record, hc, List.filterMap_cons]
      rw [List.filter_cons_of_neg (by simp [h])]
      exact ih drawn
    · have hc := h.classify_eq hJ
      simp only [record, hc, List.filterMap_cons, shoutOf_outputTypeList hb]
      rw [List.filter_cons_of_pos h.wellFormed]
      exact .cons ⟨pl, t, drawn, h, rfl⟩ (ih _)

/-- A step on messages that fit takes its batch. -/
theorem stepTakes_batch {w w' : StepWorld} (h : ∀ m ∈ w.zyreOut, Fits b m)
    {tmpStr : Vector UInt8 (mallocSize b.inf.maxMsgLength)}
    (hs : zyreBridgeStep J zuuid b tmpStr w = .ok w') :
    StepTakes J b w w' (batch J b.inf.maxSend.toNatClampNeg w.zyreOut) := by
  obtain ⟨hr, hq⟩ := reads_step h hs
  have hwf : ∀ {m}, wellFormed J m = true → classify J m ≠ .malformed := by
    intro m hm hc
    simp [(classify_eq_malformed_iff m).mp hc] at hm
  exact {
    reads_eq := hr
    queue_eq := hq.symm
    bounded := length_batch_le _ _
    full := fun hall ↦ batch_eq_take fun m hm ↦ hwf (hall m hm)
    malformed := fun pre m rest he hpre hm hlt ↦ by
      rw [he]
      exact batch_malformed (fun p hp ↦ hwf (hpre p hp)) ((classify_eq_malformed_iff m).mpr hm)
        hlt }

/-- A batch of a nonempty queue is not empty. -/
theorem batch_ne_nil {k : Nat} (hk : 0 < k) {queue : List Bytes} (hq : queue ≠ []) :
    batch J k queue ≠ [] := by
  cases k with
  | zero => exact absurd hk (Nat.lt_irrefl 0)
  | succ k =>
    cases queue with
    | nil => exact absurd rfl hq
    | cons m ms =>
      rw [batch]
      split <;> simp

/-- With a positive `max_send`, as many steps as messages wait drain the queue. -/
theorem drained {w : StepWorld} (h : ∀ m ∈ w.zyreOut, Readable J b m)
    (hk : 0 < b.inf.maxSend.toNatClampNeg)
    {bufs : List (Vector UInt8 (mallocSize b.inf.maxMsgLength))}
    (hlen : w.zyreOut.length ≤ bufs.length) :
    ∃ w', (stepMachine J zuuid b).run w (bufs.map .step) = .ok w' ∧ w'.zyreOut = [] := by
  induction bufs generalizing w with
  | nil => exact ⟨w, rfl, List.length_eq_zero_iff.mp (Nat.le_zero.mp hlen)⟩
  | cons buf bufs ih =>
    obtain ⟨w₁, h₁⟩ := zyreBridgeStep_readable zuuid h buf
    have hq := (stepTakes_batch (fun m hm ↦ (h m hm).fitting) h₁).queue_eq
    have hle : w₁.zyreOut.length ≤ bufs.length := by
      have hadd := congrArg List.length hq
      rw [List.length_append] at hadd
      rw [List.length_cons] at hlen
      by_cases hnil : w.zyreOut = []
      · rw [hnil, List.length_nil] at hadd
        omega
      · have := List.length_pos_of_ne_nil (batch_ne_nil (J := J) hk hnil)
        omega
    obtain ⟨w', hw', he⟩ := ih (fun m hm ↦ h m (hq ▸ List.mem_append_right _ hm)) hle
    exact ⟨w', Machine.run_cons.mpr ⟨w₁, h₁, hw'⟩, he⟩

private theorem forall₂_join {α β : Type} {R R' : α → β → Prop} {S : β → β → Prop}
    (hS : ∀ {m x y}, R m x → R' m y → S x y) {ms : List α} {xs ys : List β}
    (hx : List.Forall₂ R ms xs) (hy : List.Forall₂ R' ms ys) : List.Forall₂ S xs ys := by
  induction hx generalizing ys with
  | nil =>
    cases hy
    exact .nil
  | cons h _ ih =>
    cases hy with
    | cons h' hy => exact .cons (hS h h') (ih hy)

/-- An initialised bridge can read any expected port message. -/
theorem ZyreBridge.Initialised.readable (hJ : J.Documented) {ext : InitExtern}
    (hb : b.Initialised ext) {as : List (StepAction b)}
    (has : ∀ m ∈ arrivals as, Expected J b m) : ∀ m ∈ arrivals as, Readable J b m := by
  have hlen := hb.maxMsgLength_eq
  intro m hm
  have hfit := fits_of_mem_arrivals hlen m hm
  exact ⟨hfit.1, hfit.2, (has m hm).classify_ne hJ⟩

/-- Two bridges that differ in `max_send` only. -/
structure DifferInMaxSend (b b' : ZyreBridge) : Prop where
  config : b'.config = { b.config with maxSend := b'.config.maxSend }
  node : b'.inf.node = b.inf.node

/-- The envelope of a message depends on the bridge through its mediator setting and the
UUID of its node only. -/
theorem DifferInMaxSend.shoutText_eq {b' : ZyreBridge} (h : DifferInMaxSend b b') (uid : Bytes)
    (pl : Json) (t : Bytes) : shoutText J b' uid pl t = shoutText J b uid pl t := by
  have hm : mediated b' t = mediated b t := by rw [mediated, h.config]; rfl
  rw [shoutText, shoutText, hm, h.node]

/-- Runs of an initialised bridge on expected messages succeed as a FIFO. -/
theorem run_fifo (hJ : J.Documented) {ext : InitExtern} (hb : b.Initialised ext)
    (zuuid : Nat → Bytes) {as : List (StepAction b)} (has : ∀ m ∈ arrivals as, Expected J b m) :
    ∃ w, (stepMachine J zuuid b).run (.start []) as = .ok w ∧
      FifoOutput J zuuid b (arrivals as) w := by
  obtain ⟨w, hw, hl⟩ : ∃ w, (stepMachine J zuuid b).run (.start []) as = .ok w ∧
      Ledger J zuuid b (arrivals as) w := run_ledger (.start []) (hb.readable hJ has)
  have hcame : w.reads ++ w.zyreOut = arrivals as := hl.conserved
  refine ⟨w, hw, hcame, ?_⟩
  rw [StepWorld.shouts, hl.log_eq]
  refine shouts_record hJ hb.outputTypeList_eq (fun m hm ↦ has m ?_) 0
  exact hcame ▸ List.mem_append_left _ hm

end

/-- Under every schedule of writes and steps the bridge is a FIFO that neither loses nor
doubles a message, and two schedules of the same messages, with any two limits, shout the
same once they are drained. -/
theorem schedule_fifo {J : Jansson} (hJ : J.Documented) {ext : InitExtern} {b : ZyreBridge}
    (hb : b.Initialised ext) (zuuid : Nat → Bytes) (as : List (StepAction b))
    (has : ∀ m ∈ arrivals as, Expected J b m) :
    ∃ w, (stepMachine J zuuid b).run (.start []) as = .ok w ∧
      FifoOutput J zuuid b (arrivals as) w ∧
      (∀ tmpStr, ∃ w' taken, zyreBridgeStep J zuuid b tmpStr w = .ok w' ∧
        StepTakes J b w w' taken) ∧
      (0 < b.config.maxSend.toNatClampNeg →
        ∀ bufs : List (Vector UInt8 (mallocSize b.inf.maxMsgLength)),
          w.zyreOut.length ≤ bufs.length →
            ∃ w', (stepMachine J zuuid b).run w (bufs.map .step) = .ok w' ∧ w'.zyreOut = []) ∧
      ∀ b' : ZyreBridge, b'.Initialised ext → DifferInMaxSend b b' →
        ∀ (zuuid' : Nat → Bytes) (as' : List (StepAction b')), arrivals as' = arrivals as →
          ∀ w', (stepMachine J zuuid' b').run (.start []) as' = .ok w' →
            w.zyreOut = [] → w'.zyreOut = [] →
              List.Forall₂ (SameUpToUid J b) w.shouts w'.shouts := by
  obtain ⟨w, hw, hf⟩ := run_fifo hJ hb zuuid has
  have hread : ∀ m ∈ w.zyreOut, Readable J b m := fun m hm ↦
    hb.readable hJ has m (hf.conserved ▸ List.mem_append_right _ hm)
  refine ⟨w, hw, hf, fun tmpStr ↦ ?_, fun hk bufs hlen ↦ ?_, ?_⟩
  · obtain ⟨w', hs⟩ := zyreBridgeStep_readable zuuid hread tmpStr
    exact ⟨w', _, hs, stepTakes_batch (fun m hm ↦ (hread m hm).fitting) hs⟩
  · rw [← hb.maxSend_eq] at hk
    exact drained hread hk hlen
  · intro b' hb' hd zuuid' as' harr w' hw' hdrained hdrained'
    have has' : ∀ m ∈ arrivals as', Expected J b' m := by
      intro m hm
      have h := has m (harr ▸ hm)
      rw [Expected, hb.outputTypeList_eq] at h
      rw [Expected, hb'.outputTypeList_eq]
      exact h
    obtain ⟨w₂, hw₂, hf'⟩ := run_fifo hJ hb' zuuid' has'
    obtain rfl := Except.ok.inj (hw₂.symm.trans hw')
    have hsame : w₂.reads = w.reads := by
      have h := hf.conserved
      have h' := hf'.conserved
      rw [hdrained, List.append_nil] at h
      rw [hdrained', List.append_nil] at h'
      rw [h, h', harr]
    refine forall₂_join ?_ hf.shouts_eq (hsame ▸ hf'.shouts_eq)
    rintro m x y ⟨pl, t, k, hm, hx⟩ ⟨pl', t', k', hm', hy⟩
    obtain ⟨rfl, rfl⟩ := hm.unique hm'
    exact ⟨pl, t, zuuid k, zuuid' k', hx, by rw [hy, hd.shoutText_eq]⟩

/-- A result for the components. -/
def resultMessage : PortMessage testBridge.config.maxMsgLength :=
  ⟨ofString "\x7b\"@worldmodeltype\":\"RSGQueryResult\"\x7d", by decide, by decide⟩

/-- The test bridge on a result and a step. -/
theorem schedule_fifo_result :
    ∃ w, (stepMachine .reference (fun _ ↦ ofString "1F") testBridge).run (.start [])
        [.write resultMessage, .step (.replicate _ 0)] = .ok w ∧
      FifoOutput .reference (fun _ ↦ ofString "1F") testBridge [resultMessage.bytes] w := by
  obtain ⟨w, hw, hf, -⟩ := schedule_fifo Jansson.reference_documented testBridge_initialised
    (fun _ ↦ ofString "1F") [.write resultMessage, .step (.replicate _ 0)]
    (fun m hm ↦ List.mem_singleton.mp hm ▸
      .inr ⟨_, ofString "RSGQueryResult", ⟨rfl, rfl⟩, by decide⟩)
  exact ⟨w, hw, hf⟩

end Ubx.Zyre
