import Ubx.Zyre.Fifo
import Ubx.Zyre.Peers

/-!
# Any content on port `zyre_out`

`zyre_bridge_step` tests that `@worldmodeltype` is there and not that it is a string. A
number, a literal, an array or an object under that key gives a NULL that is made a
`std::string`. A run gets around this exactly if none of its steps gets as far as such a
message; then it shouts no NULL, drops what has no type and goes on behind it.
-/

namespace Ubx.Zyre

open Ubx.Base

/-- The text up to the first NUL is an object whose `@worldmodeltype` is no string. -/
def NonStringType (J : Jansson) (m : Bytes) : Prop :=
  ∃ pl v, J.loads (cString m) = some pl ∧ pl.objectGet (ofString "@worldmodeltype") = some v ∧
    ∀ s, v ≠ .string s

/-- A step gets as far as `m`: `maxSend` allows it, and all messages in front of `m` have a
string for a type. -/
def Reached (J : Jansson) (maxSend : Nat) (queue : List Bytes) (m : Bytes) : Prop :=
  ∃ front rest, queue = front ++ m :: rest ∧ front.length < maxSend ∧
    ∀ p ∈ front, ∃ pl t, IsTyped J p pl t

/-- A run that never comes across NULL, drops a message without a type and no other one, and
takes a message off the queue with every step. -/
structure RobustRun (J : Jansson) (zuuid : Nat → Bytes) (b : ZyreBridge)
    (as : List (StepAction b)) (w : StepWorld) : Prop where
  run : (stepMachine J zuuid b).run (.start []) as = .ok w
  not_null : ∀ it ∈ w.log, it.shout ≠ some none
  dropped : ∀ it ∈ w.log, (∀ pl t, ¬ IsTyped J it.message pl t) → it.shout = none
  processed : ∀ it ∈ w.log, ∀ pl t, IsTyped J it.message pl t →
    ∃ k, it.shout = some (some (shoutText J b (zuuid k) pl t))
  conserved : w.reads ++ w.zyreOut = arrivals as
  progress : ∀ pre buf post w₁ w₂, as = pre ++ .step buf :: post →
    (stepMachine J zuuid b).run (.start []) pre = .ok w₁ →
    zyreBridgeStep J zuuid b buf w₁ = .ok w₂ → 0 < b.config.maxSend.toNatClampNeg →
    w₁.zyreOut ≠ [] → w₂.zyreOut.length < w₁.zyreOut.length

section

variable {J : Jansson} {zuuid : Nat → Bytes} {b : ZyreBridge}

/-- The step takes a message as untyped when its type is no string. -/
theorem classify_eq_untyped_iff (m : Bytes) : classify J m = .untyped ↔ NonStringType J m := by
  rw [classify, NonStringType]
  cases J.loads (cString m) with
  | none => simp
  | some pl =>
    simp only [Option.some.injEq, exists_and_left, exists_eq_left']
    cases pl.objectGet (ofString "@worldmodeltype") with
    | none => simp
    | some v => cases v <;> simp [Json.stringValue]

/-- It takes a message as typed only when its type is a string. -/
theorem IsTyped.of_classify (hJ : J.Documented) {m : Bytes} {pl : Json} {t : Bytes}
    (h : classify J m = .typed pl t) : IsTyped J m pl t := by
  have hex : ∃ s, IsTyped J m pl s := by
    rw [classify] at h
    split at h
    · exact absurd h (by simp)
    next pl' hl =>
    split at h
    · exact absurd h (by simp)
    next ty hty =>
    split at h
    · exact absurd h (by simp)
    next s hs =>
    obtain ⟨rfl, -⟩ := Verdict.typed.inj h
    cases ty with
    | string s' => exact ⟨s', hl, hty⟩
    | _ => simp [Json.stringValue] at hs
  obtain ⟨s, hs⟩ := hex
  obtain ⟨-, rfl⟩ := Verdict.typed.inj ((hs.classify_eq hJ).symm.trans h)
  exact hs

/-- The first message is reached as soon as `maxSend` is positive. -/
theorem Reached.head (k : Nat) (m : Bytes) (ms : List Bytes) : Reached J (k + 1) (m :: ms) m :=
  ⟨[], ms, rfl, Nat.succ_pos k, by simp⟩

/-- A later one is reached past a typed message. -/
theorem Reached.tail {k : Nat} {m n : Bytes} {ms : List Bytes} {pl : Json} {t : Bytes}
    (hm : IsTyped J m pl t) (h : Reached J k ms n) : Reached J (k + 1) (m :: ms) n := by
  obtain ⟨front, rest, rfl, hk, hfront⟩ := h
  exact ⟨m :: front, rest, rfl, Nat.succ_lt_succ hk,
    List.forall_mem_cons.mpr ⟨⟨pl, t, hm⟩, hfront⟩⟩

/-- And these are all. -/
theorem Reached.cases {k : Nat} {m n : Bytes} {ms : List Bytes}
    (h : Reached J (k + 1) (m :: ms) n) :
    n = m ∨ (∃ pl t, IsTyped J m pl t) ∧ Reached J k ms n := by
  obtain ⟨front, rest, he, hk, hfront⟩ := h
  cases front with
  | nil => exact .inl (List.cons.inj he).1.symm
  | cons f front =>
    obtain ⟨rfl, rfl⟩ := List.cons.inj he
    exact .inr ⟨hfront m (by simp), front, rest, rfl, Nat.lt_of_succ_lt_succ hk,
      fun p hp ↦ hfront p (List.mem_cons_of_mem _ hp)⟩

/-- A batch is free of untyped messages when the step does not get as far as one. -/
theorem forall_batch_iff (hJ : J.Documented) (k : Nat) (queue : List Bytes) :
    (∀ m ∈ batch J k queue, classify J m ≠ .untyped) ↔
      ∀ m, Reached J k queue m → ¬ NonStringType J m := by
  simp only [← classify_eq_untyped_iff]
  induction k generalizing queue with
  | zero => simp [batch, Reached]
  | succ k ih =>
    cases queue with
    | nil => simp [batch, Reached]
    | cons m ms =>
      rw [batch]
      cases hc : classify J m with
      | malformed =>
        simp only [List.mem_singleton, forall_eq, hc]
        apply iff_of_true (by simp)
        intro n hn
        obtain rfl | ⟨⟨pl, t, hm⟩, -⟩ := hn.cases
        · simp [hc]
        · exact absurd ((hm.classify_eq hJ).symm.trans hc) (by simp)
      | untyped =>
        apply iff_of_false
        · exact fun h ↦ h m (by simp) hc
        · exact fun h ↦ h m (.head k m ms) hc
      | typed pl t =>
        have hm := IsTyped.of_classify hJ hc
        rw [List.forall_mem_cons, ih]
        constructor
        · rintro ⟨hne, h⟩ n hn
          obtain rfl | ⟨-, hn⟩ := hn.cases
          · exact hne
          · exact h n hn
        · exact fun h ↦ ⟨h m (.head k m ms), fun n hn ↦ h n (.tail hm hn)⟩

/-- Each entry of a log is nothing for a message without a type, and an envelope for one
with a type. -/
theorem Logged.cases (hJ : J.Documented) (hb : b.inf.outputTypeList = outputTypeList)
    {it : Iteration} (h : Logged J zuuid b it) :
    ((∀ pl t, ¬ IsTyped J it.message pl t) ∧ it.shout = none) ∨
      ∃ pl t k, IsTyped J it.message pl t ∧
        it.shout = some (some (shoutText J b (zuuid k) pl t)) := by
  rw [Logged] at h
  split at h
  · next pl t hc =>
    obtain ⟨k, h⟩ := h
    refine .inr ⟨pl, t, k, .of_classify hJ hc, ?_⟩
    rw [h, shoutOf_outputTypeList hb]
  · next hc => exact .inl ⟨fun pl t hm ↦ hc pl t (hm.classify_eq hJ), h⟩

/-- A step of a nonempty queue makes it shorter. -/
theorem length_lt_of_step {w w' : StepWorld} (h : ∀ m ∈ w.zyreOut, Fits b m)
    {tmpStr : Vector UInt8 (mallocSize b.inf.maxMsgLength)}
    (hs : zyreBridgeStep J zuuid b tmpStr w = .ok w') (hk : 0 < b.inf.maxSend.toNatClampNeg)
    (hne : w.zyreOut ≠ []) : w'.zyreOut.length < w.zyreOut.length := by
  have hq := (reads_step h hs).2
  have hpos := List.length_pos_of_ne_nil (batch_ne_nil (J := J) hk hne)
  rw [← hq, List.length_append]
  omega

/-- Every run that succeeds is robust. -/
theorem RobustRun.of_run (hJ : J.Documented) {ext : InitExtern} (hb : b.Initialised ext)
    {as : List (StepAction b)} {w : StepWorld}
    (hw : (stepMachine J zuuid b).run (.start []) as = .ok w) : RobustRun J zuuid b as w := by
  have hlen := hb.maxMsgLength_eq
  have hlog : ∀ it ∈ w.log, _ := fun it hit ↦
    (run_logged hb hw it hit).cases hJ hb.outputTypeList_eq
  refine ⟨hw, ?_, ?_, ?_, (ledger_of_run hlen hw).conserved, ?_⟩
  · intro it hit hnull
    obtain ⟨-, hs⟩ | ⟨pl, t, k, -, hs⟩ := hlog it hit
    · exact absurd (hs.symm.trans hnull) (by simp)
    · exact absurd (hs.symm.trans hnull) (by simp)
  · intro it hit hn
    obtain ⟨-, hs⟩ | ⟨pl, t, k, hm, -⟩ := hlog it hit
    · exact hs
    · exact absurd hm (hn pl t)
  · intro it hit pl t hm
    obtain ⟨hn, -⟩ | ⟨pl', t', k, hm', hs⟩ := hlog it hit
    · exact absurd hm (hn pl t)
    · obtain ⟨rfl, rfl⟩ := hm.unique hm'
      exact ⟨k, hs⟩
  · intro pre buf post w₁ w₂ _ hpre hs hk hne
    have hl := ledger_of_run hlen hpre
    refine length_lt_of_step (fun m hm ↦ fits_of_mem_arrivals hlen m (hl.mem_of_mem hm)) hs ?_ hne
    rw [hb.maxSend_eq]
    exact hk

end

/-- A run is robust exactly if none of its steps gets as far as a message whose type is no
string. -/
theorem run_robust_iff {J : Jansson} (hJ : J.Documented) {ext : InitExtern} {b : ZyreBridge}
    (hb : b.Initialised ext) (zuuid : Nat → Bytes) (as : List (StepAction b)) :
    (∃ w, RobustRun J zuuid b as w) ↔
      ∀ pre buf post w, as = pre ++ .step buf :: post →
        (stepMachine J zuuid b).run (.start []) pre = .ok w →
          ∀ m, Reached J b.inf.maxSend.toNatClampNeg w.zyreOut m → ¬ NonStringType J m := by
  have hlen := hb.maxMsgLength_eq
  have hstep {pre : List (StepAction b)} {w : StepWorld}
      (hpre : (stepMachine J zuuid b).run (.start []) pre = .ok w)
      (buf : Vector UInt8 (mallocSize b.inf.maxMsgLength)) :
      (∃ w', zyreBridgeStep J zuuid b buf w = .ok w') ↔
        ∀ m, Reached J b.inf.maxSend.toNatClampNeg w.zyreOut m → ¬ NonStringType J m := by
    have hfit : ∀ m ∈ w.zyreOut, Fits b m := fun m hm ↦
      fits_of_mem_arrivals hlen m ((ledger_of_run hlen hpre).mem_of_mem hm)
    rw [← forall_batch_iff hJ]
    simp only [zyreBridgeStep_eq_ok_iff hfit, exists_and_left, exists_eq, and_true]
  have hok : (∃ w, RobustRun J zuuid b as w) ↔
      ∃ w, (stepMachine J zuuid b).run (.start []) as = .ok w :=
    exists_congr fun w ↦ ⟨fun h ↦ h.run, .of_run hJ hb⟩
  rw [hok, Machine.run_isOk_iff]
  constructor
  · intro h pre buf post w he hpre
    exact (hstep hpre buf).mp (h pre (.step buf) post w he hpre)
  · intro h pre a post w he hpre
    cases a with
    | write m => exact ⟨_, rfl⟩
    | step buf => exact (hstep hpre buf).mpr (h pre buf post w he hpre)

/-- A message whose type is a number. -/
def numberMessage : PortMessage testBridge.config.maxMsgLength :=
  ⟨ofString "\x7b\"@worldmodeltype\":1\x7d", by decide, by decide⟩

private theorem run_numberMessage (zuuid : Nat → Bytes)
    (tmpStr : Vector UInt8 (mallocSize testBridge.inf.maxMsgLength)) :
    (stepMachine .reference zuuid testBridge).run (.start [])
      [.write numberMessage, .step tmpStr] = .error .stringFromNull := by
  have hfit : ∀ m ∈ [numberMessage.bytes],
      0 < m.length ∧ m.length < tmpStr.toList.length := by
    intro m hm
    obtain rfl := List.mem_singleton.mp hm
    rw [Vector.length_toList]
    exact numberMessage.fits (b := testBridge) rfl
  have hstep : zyreBridgeStep .reference zuuid testBridge tmpStr ⟨[numberMessage.bytes], [], 0⟩ =
      .error .stringFromNull := by
    rw [zyreBridgeStep, stepLoop_eq_streamLoop _ _ _ hfit]
    rfl
  simp only [Machine.run, stepMachine, StepWorld.start, List.nil_append, hstep]

/-- The test bridge makes a `std::string` of NULL for it. -/
theorem number_type_faults :
    (stepMachine .reference (fun _ ↦ ofString "1F") testBridge).run (.start [])
        [.write numberMessage, .step (.replicate _ 0)] = .error .stringFromNull ∧
      ¬ ∃ w, RobustRun .reference (fun _ ↦ ofString "1F") testBridge
        [.write numberMessage, .step (.replicate _ 0)] w := by
  have hrun := run_numberMessage (fun _ ↦ ofString "1F") (.replicate _ 0)
  refine ⟨hrun, ?_⟩
  rintro ⟨w, hw⟩
  exact absurd (hrun.symm.trans hw.run) (by simp)

/-- The equivalence for this run of the test bridge. -/
theorem run_robust_iff_number :
    (∃ w, RobustRun .reference (fun _ ↦ ofString "1F") testBridge
        [.write numberMessage, .step (.replicate _ 0)] w) ↔
      ∀ pre buf post w, [.write numberMessage, .step (.replicate _ 0)] = pre ++ .step buf :: post →
        (stepMachine .reference (fun _ ↦ ofString "1F") testBridge).run (.start []) pre = .ok w →
          ∀ m, Reached .reference 5 w.zyreOut m → ¬ NonStringType .reference m :=
  run_robust_iff Jansson.reference_documented testBridge_initialised _ _

end Ubx.Zyre
