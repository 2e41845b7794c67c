import Ubx.Zyre.Step

/-!
# What the zyre bridge shouts

Runs of `zyre_bridge_step` interleaved with writes to port `zyre_out`. A step takes a
batch off the queue, up to `max_send` messages and no further than a malformed one, and
its log is a function of the messages read. On this rest the two results about whole
runs: who passes the output list, and that nothing is lost, doubled or mixed up.
-/

namespace Ubx.Zyre

open Ubx.Base

/-- A message of `1..max_msg_length` bytes, with `max_msg_length` as configured. -/
structure PortMessage (maxMsgLength : Int32) where
  bytes : Bytes
  pos : 0 < bytes.length
  le : (bytes.length : Int) ≤ maxMsgLength.toInt

/-- What can happen between the world model and the bridge: a port write, or a call of
`zyre_bridge_step` on fresh memory from `malloc`. -/
inductive StepAction (b : ZyreBridge)
  | write (m : PortMessage b.config.maxMsgLength)
  | step (tmpStr : Vector UInt8 (mallocSize b.inf.maxMsgLength))

/-- Messages written in a schedule, in order. -/
def arrivals {b : ZyreBridge} : List (StepAction b) → List Bytes
  | [] => []
  | .write m :: as => m.bytes :: arrivals as
  | .step _ :: as => arrivals as

namespace StepWorld

/-- Before the first step: a queue, and nothing shouted. -/
def start (queue : List Bytes) : StepWorld := ⟨queue, [], 0⟩

/-- Messages read so far. -/
def reads (w : StepWorld) : List Bytes := w.log.map Iteration.message

/-- Arguments of the `zyre_shouts` calls so far. -/
def shouts (w : StepWorld) : List (Option Bytes) := w.log.filterMap Iteration.shout

end StepWorld

section

variable (J : Jansson) (zuuid : Nat → Bytes) (b : ZyreBridge)

/-- Port writes and steps as one machine. -/
def stepMachine : Machine StepWorld (StepAction b) Fault where
  step w
    | .write m => .ok { w with zyreOut := w.zyreOut ++ [m.bytes] }
    | .step tmpStr => zyreBridgeStep J zuuid b tmpStr w

/-- Messages one step takes off the queue. -/
def batch : Nat → List Bytes → List Bytes
  | 0, _ => []
  | _ + 1, [] => []
  | k + 1, m :: ms =>
    match classify J m with
    | .malformed => [m]
    | _ => m :: batch k ms

/-- What is shouted for a typed message: nothing but NULL if the whole output list
equals its type. -/
def shoutOf (drawn : Nat) (pl : Json) (tmpType : Bytes) : Option Bytes :=
  if ∃ t ∈ b.inf.outputTypeList, t ≠ tmpType then
    some (shoutText J b (zuuid drawn) pl tmpType)
  else none

/-- UUIDs drawn once a typed message is through the type loop. -/
def drawnOf (drawn : Nat) (tmpType : Bytes) : Nat :=
  if ∃ t ∈ b.inf.outputTypeList, t ≠ tmpType then drawnAfter b tmpType drawn else drawn

/-- The log of reading some messages. -/
def record : Nat → List Bytes → List Iteration
  | _, [] => []
  | drawn, m :: ms =>
    match classify J m with
    | .typed pl tmpType =>
      ⟨m, some (shoutOf J zuuid b drawn pl tmpType)⟩ :: record (drawnOf b drawn tmpType) ms
    | _ => ⟨m, none⟩ :: record drawn ms

/-- UUIDs drawn for some messages. -/
def drawnBy : Nat → List Bytes → Nat
  | drawn, [] => drawn
  | drawn, m :: ms =>
    match classify J m with
    | .typed _ tmpType => drawnBy (drawnOf b drawn tmpType) ms
    | _ => drawnBy drawn ms

variable {J zuuid b}

/-- With the fixed list every typed message is shouted. -/
theorem shoutOf_outputTypeList (hb : b.inf.outputTypeList = outputTypeList) (drawn : Nat)
    (pl : Json) (tmpType : Bytes) :
    shoutOf J zuuid b drawn pl tmpType = some (shoutText J b (zuuid drawn) pl tmpType) := by
  rw [shoutOf, hb, if_pos (exists_mem_outputTypeList_ne tmpType)]

/-- A batch is a prefix of the queue. -/
theorem batch_append_drop (k : Nat) (queue : List Bytes) :
    batch J k queue ++ queue.drop (batch J k queue).length = queue := by
  induction k generalizing queue with
  | zero => simp [batch]
  | succ k ih =>
    cases queue with
    | nil => simp [batch]
    | cons m ms =>
      rw [batch]
      split
      · simp
      · simp [ih ms]

/-- A batch holds at most `k` messages. -/
theorem length_batch_le (k : Nat) (queue : List Bytes) : (batch J k queue).length ≤ k := by
  induction k generalizing queue with
  | zero => simp [batch]
  | succ k ih =>
    cases queue with
    | nil => simp [batch]
    | cons m ms =>
      rw [batch]
      split
      · simp
      · simpa using ih ms

/-- Without a malformed message among the first `k` the batch is these `k`. -/
theorem batch_eq_take {k : Nat} {queue : List Bytes}
    (h : ∀ m ∈ queue.take k, classify J m ≠ .malformed) : batch J k queue = queue.take k := by
  induction k generalizing queue with
  | zero => simp [batch]
  | succ k ih =>
    cases queue with
    | nil => simp [batch]
    | cons m ms =>
      rw [List.take_succ_cons] at h ⊢
      rw [batch]
      split
      · next hm => exact absurd hm (h m (by simp))
      · rw [ih fun x hx ↦ h x (List.mem_cons_of_mem _ hx)]

/-- A malformed message ends the batch and is its last element. -/
theorem batch_malformed {pre rest : List Bytes} {m : Bytes}
    (hpre : ∀ p ∈ pre, classify J p ≠ .malformed) (hm : classify J m = .malformed) {k : Nat}
    (hk : pre.length < k) : batch J k (pre ++ m :: rest) = pre ++ [m] := by
  induction pre generalizing k with
  | nil =>
    obtain ⟨k, rfl⟩ : ∃ n, k = n + 1 := ⟨k - 1, by simp only [List.length_nil] at hk; omega⟩
    simp [batch, hm]
  | cons p pre ih =>
    simp only [List.length_cons] at hk
    obtain ⟨k, rfl⟩ : ∃ n, k = n + 1 := ⟨k - 1, by omega⟩
    rw [List.cons_append, batch]
    split
    · next hp => exact absurd hp (hpre p (by simp))
    · rw [ih (fun x hx ↦ hpre x (List.mem_cons_of_mem _ hx)) (by omega), List.cons_append]

/-- Messages of a batch are on the queue. -/
theorem mem_of_mem_batch {k : Nat} {queue : List Bytes} {m : Bytes} (h : m ∈ batch J k queue) :
    m ∈ queue := by
  rw [← batch_append_drop (J := J) k queue]
  exact List.mem_append_left _ h

/-- A step succeeds exactly when its batch holds no untyped message; then it logs the batch
and drops it. -/
theorem streamLoop_eq_ok_iff (k : Nat) (w w' : StepWorld) :
    streamLoop J zuuid b k w = .ok w' ↔
      (∀ m ∈ batch J k w.zyreOut, classify J m ≠ .untyped) ∧
        w' = { zyreOut := w.zyreOut.drop (batch J k w.zyreOut).length
               log := w.log ++ record J zuuid b w.drawn (batch J k w.zyreOut)
               drawn := drawnBy J b w.drawn (batch J k w.zyreOut) } := by
  induction k generalizing w with
  | zero => simp [streamLoop, batch, record, drawnBy, eq_comm]
  | succ k ih =>
    obtain ⟨queue, log, drawn⟩ := w
    cases queue with
    | nil => simp [streamLoop, batch, record, drawnBy, eq_comm]
    | cons m ms =>
      rw [streamLoop]
      cases hc : classify J m with
      | malformed => simp [batch, record, drawnBy, hc, eq_comm]
      | untyped => simp [batch, hc]
      | typed pl tmpType =>
        simp only [batch, hc, record, drawnBy, shoutOf, drawnOf]
        split
        · rw [ih]
          simp [hc]
        · rw [ih]
          simp [hc]

/-- The log of two stretches of messages. -/
theorem record_append (drawn : Nat) (ms ns : List Bytes) :
    record J zuuid b drawn (ms ++ ns) =
      record J zuuid b drawn ms ++ record J zuuid b (drawnBy J b drawn ms) ns := by
  induction ms generalizing drawn with
  | nil => rfl
  | cons m ms ih =>
    rw [List.cons_append, record, record, drawnBy]
    split <;> simp only [ih, List.cons_append]

/-- The UUIDs drawn for two stretches of messages. -/
theorem drawnBy_append (drawn : Nat) (ms ns : List Bytes) :
    drawnBy J b drawn (ms ++ ns) = drawnBy J b (drawnBy J b drawn ms) ns := by
  induction ms generalizing drawn with
  | nil => rfl
  | cons m ms ih =>
    rw [List.cons_append, drawnBy, drawnBy]
    split <;> rw [ih]

/-- The log has one entry for each message, in order. -/
theorem map_message_record (drawn : Nat) (ms : List Bytes) :
    (record J zuuid b drawn ms).map Iteration.message = ms := by
  induction ms generalizing drawn with
  | nil => rfl
  | cons m ms ih =>
    rw [record]
    split <;> rw [List.map_cons, ih]

end

/-! ### Runs -/

/-- A message that fits the receive buffer, with room for its terminator. -/
def Fits (b : ZyreBridge) (m : Bytes) : Prop :=
  0 < m.length ∧ m.length < mallocSize b.inf.maxMsgLength

/-- A message that fits the port and is not of a non-string type. -/
structure Readable (J : Jansson) (b : ZyreBridge) (m : Bytes) : Prop where
  pos : 0 < m.length
  fits : m.length < mallocSize b.inf.maxMsgLength
  typed : classify J m ≠ .untyped

/-- What connects a run to the messages that came: none is lost or read twice, and the
log is the one of the messages read. -/
structure Ledger (J : Jansson) (zuuid : Nat → Bytes) (b : ZyreBridge) (came : List Bytes)
    (w : StepWorld) : Prop where
  conserved : w.reads ++ w.zyreOut = came
  log_eq : w.log = record J zuuid b 0 w.reads
  drawn_eq : w.drawn = drawnBy J b 0 w.reads

section

variable {J : Jansson} {zuuid : Nat → Bytes} {b : ZyreBridge}

/-- A readable message fits. -/
theorem Readable.fitting {m : Bytes} (h : Readable J b m) : Fits b m := ⟨h.pos, h.fits⟩

/-- One step on messages that fit: it succeeds exactly when its batch holds no untyped
message, and then the batch goes from the queue to the log. -/
theorem zyreBridgeStep_eq_ok_iff {w w' : StepWorld} (h : ∀ m ∈ w.zyreOut, Fits b m)
    (tmpStr : Vector UInt8 (mallocSize b.inf.maxMsgLength)) :
    zyreBridgeStep J zuuid b tmpStr w = .ok w' ↔
      (∀ m ∈ batch J b.inf.maxSend.toNatClampNeg w.zyreOut, classify J m ≠ .untyped) ∧
        w' =
          { zyreOut := w.zyreOut.drop (batch J b.inf.maxSend.toNatClampNeg w.zyreOut).length
            log := w.log ++
              record J zuuid b w.drawn (batch J b.inf.maxSend.toNatClampNeg w.zyreOut)
            drawn := drawnBy J b w.drawn (batch J b.inf.maxSend.toNatClampNeg w.zyreOut) } := by
  rw [zyreBridgeStep, stepLoop_eq_streamLoop, streamLoop_eq_ok_iff]
  intro m hm
  rw [Vector.length_toList]
  exact h m hm

/-- One step on readable messages succeeds. -/
theorem zyreBridgeStep_readable (zuuid : Nat → Bytes) {w : StepWorld}
    (h : ∀ m ∈ w.zyreOut, Readable J b m)
    (tmpStr : Vector UInt8 (mallocSize b.inf.maxMsgLength)) :
    ∃ w', zyreBridgeStep J zuuid b tmpStr w = .ok w' := by
  have hfit : ∀ m ∈ w.zyreOut, Fits b m := fun m hm ↦ (h m hm).fitting
  exact ⟨_, (zyreBridgeStep_eq_ok_iff hfit tmpStr).mpr
    ⟨fun m hm ↦ (h m (mem_of_mem_batch hm)).typed, rfl⟩⟩

/-- A step reads its batch. -/
theorem reads_step {w w' : StepWorld} (h : ∀ m ∈ w.zyreOut, Fits b m)
    {tmpStr : Vector UInt8 (mallocSize b.inf.maxMsgLength)}
    (hs : zyreBridgeStep J zuuid b tmpStr w = .ok w') :
    w'.reads = w.reads ++ batch J b.inf.maxSend.toNatClampNeg w.zyreOut ∧
      batch J b.inf.maxSend.toNatClampNeg w.zyreOut ++ w'.zyreOut = w.zyreOut := by
  obtain ⟨-, rfl⟩ := (zyreBridgeStep_eq_ok_iff h tmpStr).mp hs
  refine ⟨?_, batch_append_drop _ _⟩
  simp only [StepWorld.reads, List.map_append, map_message_record]

/-- A step keeps the ledger. -/
theorem Ledger.step {came : List Bytes} {w w' : StepWorld} (hl : Ledger J zuuid b came w)
    (h : ∀ m ∈ w.zyreOut, Fits b m)
    {tmpStr : Vector UInt8 (mallocSize b.inf.maxMsgLength)}
    (hs : zyreBridgeStep J zuuid b tmpStr w = .ok w') : Ledger J zuuid b came w' := by
  obtain ⟨hr, hq⟩ := reads_step h hs
  obtain ⟨-, he⟩ := (zyreBridgeStep_eq_ok_iff h tmpStr).mp hs
  constructor
  · rw [hr, List.append_assoc, hq, hl.conserved]
  · rw [hr, record_append, ← hl.drawn_eq, ← hl.log_eq, he]
  · rw [hr, drawnBy_append, ← hl.drawn_eq, he]

/-- A write keeps the ledger, with the message added to those that came. -/
theorem Ledger.write {came : List Bytes} {w : StepWorld} (hl : Ledger J zuuid b came w)
    (m : Bytes) : Ledger J zuuid b (came ++ [m]) { w with zyreOut := w.zyreOut ++ [m] } where
  conserved := by rw [← hl.conserved, List.append_assoc]; rfl
  log_eq := hl.log_eq
  drawn_eq := hl.drawn_eq

/-- Messages on the queue are among those that came. -/
theorem Ledger.mem_of_mem {came : List Bytes} {w : StepWorld} (hl : Ledger J zuuid b came w)
    {m : Bytes} (hm : m ∈ w.zyreOut) : m ∈ came := by
  rw [← hl.conserved]
  exact List.mem_append_right _ hm

/-- A port message fits a buffer of the configured size. -/
theorem PortMessage.fits (hb : b.inf.maxMsgLength = toUnsignedLong b.config.maxMsgLength)
    (m : PortMessage b.config.maxMsgLength) : Fits b m.bytes :=
  ⟨m.pos, hb ▸ length_lt_mallocSize m.pos m.le⟩

/-- So do all messages of a schedule. -/
theorem fits_of_mem_arrivals (hb : b.inf.maxMsgLength = toUnsignedLong b.config.maxMsgLength)
    {as : List (StepAction b)} : ∀ m ∈ arrivals as, Fits b m := by
  induction as with
  | nil => simp [arrivals]
  | cons a as ih =>
    cases a with
    | step tmpStr => exact ih
    | write m => exact List.forall_mem_cons.mpr ⟨m.fits hb, ih⟩

/-- Messages of two schedules one after the other. -/
theorem arrivals_append (as bs : List (StepAction b)) :
    arrivals (as ++ bs) = arrivals as ++ arrivals bs := by
  induction as with
  | nil => rfl
  | cons a as ih => cases a <;> simp [arrivals, ih]

/-- A schedule of steps brings no message. -/
theorem arrivals_map_step (bufs : List (Vector UInt8 (mallocSize b.inf.maxMsgLength))) :
    arrivals (bufs.map (StepAction.step (b := b))) = [] := by
  induction bufs with
  | nil => rfl
  | cons buf bufs ih => exact ih

/-- An action that succeeds on messages that fit keeps the ledger. -/
theorem Ledger.act {came : List Bytes} {w w' : StepWorld} (hl : Ledger J zuuid b came w)
    (h : ∀ m ∈ came, Fits b m) {a : StepAction b}
    (hs : (stepMachine J zuuid b).step w a = .ok w') :
    Ledger J zuuid b (came ++ arrivals [a]) w' := by
  cases a with
  | write m =>
    obtain rfl := Except.ok.inj hs
    exact hl.write m.bytes
  | step tmpStr =>
    have hq : ∀ m ∈ w.zyreOut, Fits b m := fun m hm ↦ h m (hl.mem_of_mem hm)
    simpa [arrivals] using hl.step hq hs

/-- On readable messages every action succeeds. -/
theorem Ledger.progress {came : List Bytes} {w : StepWorld} (hl : Ledger J zuuid b came w)
    (h : ∀ m ∈ came, Readable J b m) (a : StepAction b) :
    ∃ w', (stepMachine J zuuid b).step w a = .ok w' := by
  cases a with
  | write m => exact ⟨_, rfl⟩
  | step tmpStr => exact zyreBridgeStep_readable zuuid (fun m hm ↦ h m (hl.mem_of_mem hm)) tmpStr

/-- The messages of an action are among those of its schedule. -/
theorem mem_arrivals {as : List (StepAction b)} {a : StepAction b} (ha : a ∈ as) {m : Bytes}
    (hm : m ∈ arrivals [a]) : m ∈ arrivals as := by
  obtain ⟨pre, post, rfl⟩ := List.append_of_mem ha
  rw [← List.singleton_append, arrivals_append, arrivals_append]
  exact List.mem_append_right _ (List.mem_append_left _ hm)

/-- A run on readable messages does not fail and keeps the ledger. -/
theorem run_ledger {came : List Bytes} {w : StepWorld} (hl : Ledger J zuuid b came w)
    {as : List (StepAction b)} (h : ∀ m ∈ came ++ arrivals as, Readable J b m) :
    ∃ w', (stepMachine J zuuid b).run w as = .ok w' ∧
      Ledger J zuuid b (came ++ arrivals as) w' := by
  have hcame : ∀ m ∈ came, Readable J b m := fun m hm ↦ h m (List.mem_append_left _ hm)
  have hrule := Machine.run_total (M := stepMachine J zuuid b)
    (P := fun as w ↦ Ledger J zuuid b (came ++ arrivals as) w ∧
      ∀ m ∈ came ++ arrivals as, Readable J b m)
    (A := fun a ↦ ∀ m ∈ arrivals [a], Readable J b m) (by simpa [arrivals] using ⟨hl, hcame⟩)
  obtain ⟨w', hw', hl', -⟩ := hrule (fun as w₁ a ⟨hl₁, hread⟩ ha ↦ by
    obtain ⟨w₂, hs⟩ := hl₁.progress hread a
    have hl₂ := hl₁.act (fun m hm ↦ (hread m hm).fitting) hs
    rw [List.append_assoc, ← arrivals_append] at hl₂
    refine ⟨w₂, hs, hl₂, fun m hm ↦ ?_⟩
    rw [arrivals_append, ← List.append_assoc] at hm
    exact (List.mem_append.mp hm).elim (hread m) (ha m))
    fun a ha m hm ↦ h m (List.mem_append_right _ (mem_arrivals ha hm))
  exact ⟨w', hw', hl'⟩

/-- Nothing has come before the start but the queue. -/
theorem Ledger.start (queue : List Bytes) : Ledger J zuuid b queue (.start queue) :=
  ⟨rfl, rfl, rfl⟩

/-- Every run that succeeds keeps the ledger, whatever came. -/
theorem ledger_of_run (hb : b.inf.maxMsgLength = toUnsignedLong b.config.maxMsgLength)
    {as : List (StepAction b)} {w : StepWorld}
    (hw : (stepMachine J zuuid b).run (.start []) as = .ok w) :
    Ledger J zuuid b (arrivals as) w := by
  refine Machine.run_history (P := fun as w ↦ Ledger J zuuid b (arrivals as) w) (.start []) ?_ hw
  intro as w₁ a w₂ _ hl hs
  rw [arrivals_append]
  exact hl.act (fits_of_mem_arrivals hb) hs

/-- A run of steps only. -/
theorem run_steps_ledger (zuuid : Nat → Bytes) {queue : List Bytes}
    (h : ∀ m ∈ queue, Readable J b m)
    (bufs : List (Vector UInt8 (mallocSize b.inf.maxMsgLength))) :
    ∃ w, (stepMachine J zuuid b).run (.start queue) (bufs.map .step) = .ok w ∧
      Ledger J zuuid b queue w := by
  have harr := arrivals_map_step bufs
  obtain ⟨w, hw, hl⟩ := run_ledger (.start queue) (by rwa [harr, List.append_nil])
  exact ⟨w, hw, by rwa [harr, List.append_nil] at hl⟩

end

end Ubx.Zyre
