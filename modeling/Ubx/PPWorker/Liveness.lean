import Ubx.Base.Machine
import Ubx.Base.Since
import Ubx.PPWorker.Actor

/-!
# Liveness and backoff of the worker

At the head of the loop `liveness` and `interval` are functions of the trace: of the
timeouts since the queue was last alive, and of the reconnects since it last spoke.
-/

namespace Ubx.PPWorker

open Ubx.Base

/-- Requests and heartbeats show that the queue is alive; a new socket starts over. -/
def showsLife : Event → Bool
  | .opened _ => true
  | .received _ msg pastEnd => msg.length = 3 || isHeartbeat msg pastEnd
  | _ => false

/-- Any message that arrives. -/
def isReceived : Event → Bool
  | .received .. => true
  | _ => false

/-- The end of a socket, which comes with each reconnect. -/
def isDestroyed : Event → Bool
  | .destroyed _ => true
  | _ => false

/-- Timeouts since the start, the last reconnect, request or heartbeat. -/
def timeouts (trace : List Event) : Nat := countSince showsLife (· = .timeout) trace

/-- Reconnects since the start or the last message of any kind. -/
def reconnects (trace : List Event) : Nat := countSince isReceived isDestroyed trace

/-- The wait in front of the next reconnect, after `n` reconnects in a row. -/
def backoff (n : Nat) : Nat := min (intervalInit.toNat * 2 ^ n) intervalMax.toNat

/-- What the two counters are at the head of the loop. -/
structure Counters (w : Worker) : Prop where
  liveness_eq : w.liveness.toNat = heartbeatLiveness.toNat - timeouts w.trace
  timeouts_lt : timeouts w.trace < heartbeatLiveness.toNat
  interval_eq : w.interval.toNat = backoff (reconnects w.trace)

/-- Doubling below the maximum is the next backoff. -/
theorem backoff_succ {interval : UInt64} {n : Nat} (h : interval.toNat = backoff n) :
    (if interval < intervalMax then interval * 2 else interval).toNat = backoff (n + 1) := by
  have hmax : intervalMax.toNat = 32000 := rfl
  have hinit : intervalInit.toNat = 1000 := rfl
  have htwo : (2 : UInt64).toNat = 2 := rfl
  rw [backoff, hmax, hinit] at h ⊢
  split
  · next hlt =>
    rw [UInt64.lt_iff_toNat_lt, hmax] at hlt
    have hpow : 2 ^ n < 2 ^ 5 := by omega
    have hn : n + 1 ≤ 5 := (Nat.pow_lt_pow_iff_right (by omega)).mp hpow
    have hle : 2 ^ (n + 1) ≤ 2 ^ 5 := Nat.pow_le_pow_right (by omega) hn
    rw [UInt64.toNat_mul, htwo, Nat.mod_eq_of_lt (by omega)]
    rw [Nat.pow_succ] at hle ⊢
    omega
  · next hge =>
    rw [UInt64.lt_iff_toNat_lt, hmax] at hge
    rw [Nat.pow_succ]
    omega

/-- Sending and writing leave the two counts as they are. -/
theorem counts_sent (trace : List Event) (socket : Nat) (msg : Message) :
    timeouts (trace ++ [.sent socket msg]) = timeouts trace ∧
      reconnects (trace ++ [.sent socket msg]) = reconnects trace := by
  simp [timeouts, reconnects, countSince_concat, showsLife, isReceived, isDestroyed]

/-- So does a port write. -/
theorem counts_written (trace : List Event) (data : Bytes) :
    timeouts (trace ++ [.written data]) = timeouts trace ∧
      reconnects (trace ++ [.written data]) = reconnects trace := by
  simp [timeouts, reconnects, countSince_concat, showsLife, isReceived, isDestroyed]

/-- A message ends a row of reconnects; a request or heartbeat also ends the timeouts. -/
theorem counts_received (trace : List Event) (socket : Nat) (msg : Message) (pastEnd : UInt8) :
    timeouts (trace ++ [.received socket msg pastEnd]) =
        (if showsLife (.received socket msg pastEnd) then 0 else timeouts trace) ∧
      reconnects (trace ++ [.received socket msg pastEnd]) = 0 := by
  simp [timeouts, reconnects, countSince_concat, isReceived]

/-- A timeout counts. -/
theorem counts_timeout (trace : List Event) :
    timeouts (trace ++ [.timeout]) = timeouts trace + 1 ∧
      reconnects (trace ++ [.timeout]) = reconnects trace := by
  simp [timeouts, reconnects, countSince_concat, showsLife, isReceived, isDestroyed]

/-- A reconnect counts, and forgets the timeouts. -/
theorem counts_reconnect (trace : List Event) (msecs : UInt64) (socket : Nat) :
    timeouts (trace ++ [.slept msecs] ++ [.destroyed socket] ++ [.opened (socket + 1)] ++
        [.sent (socket + 1) [pppReady]]) = 0 ∧
      reconnects (trace ++ [.slept msecs] ++ [.destroyed socket] ++ [.opened (socket + 1)] ++
        [.sent (socket + 1) [pppReady]]) = reconnects trace + 1 := by
  simp only [timeouts, reconnects, countSince_concat]
  simp [showsLife, isReceived, isDestroyed]

/-- A row of no reconnects waits for the initial interval. -/
theorem backoff_zero : intervalInit.toNat = backoff 0 := by decide

/-- The counters where there was no timeout yet. -/
theorem Counters.of_alive {w : Worker} (hl : w.liveness = heartbeatLiveness)
    (ht : timeouts w.trace = 0) (hi : w.interval.toNat = backoff (reconnects w.trace)) :
    Counters w where
  liveness_eq := by rw [hl, ht, Nat.sub_zero]
  timeouts_lt := by
    rw [ht]
    decide
  interval_eq := hi

/-- The counters start full and at the initial interval. -/
theorem counters_start (clock : Int64) : Counters (start clock) :=
  .of_alive rfl rfl backoff_zero

namespace Counters

variable {w : Worker} {zmsgEncode : Message → Bytes}

/-- A heartbeat changes neither counter. -/
theorem sendHeartbeat (h : Counters w) (now now' : Int64) :
    Counters (sendHeartbeat w now now') := by
  rcases sendHeartbeat_cases w now now' with hs | ⟨heartbeatAt, hs⟩ <;> rw [hs]
  · exact h
  · obtain ⟨ht, hr⟩ := counts_sent w.trace w.socket [pppHeartbeat]
    exact ⟨ht.symm ▸ h.liveness_eq, ht.symm ▸ h.timeouts_lt, hr.symm ▸ h.interval_eq⟩

/-- The last of the timeouts is the one that leaves no liveness. -/
theorem liveness_sub_one (h : Counters w) :
    (w.liveness - 1).toNat = w.liveness.toNat - 1 ∧
      (w.liveness - 1 = 0 ↔ timeouts w.trace + 1 = heartbeatLiveness.toNat) := by
  have hone : (1 : UInt64).toNat = 1 := rfl
  have hlive : heartbeatLiveness.toNat = 3 := rfl
  have hle : (1 : UInt64) ≤ w.liveness := by
    rw [UInt64.le_iff_toNat_le, h.liveness_eq, hone]
    have := h.timeouts_lt
    omega
  have hsub : (w.liveness - 1).toNat = w.liveness.toNat - 1 := UInt64.toNat_sub_of_le _ _ hle
  refine ⟨hsub, ?_⟩
  rw [← UInt64.toNat_inj, hsub, h.liveness_eq]
  have := h.timeouts_lt
  have hzero : (0 : UInt64).toNat = 0 := rfl
  omega

/-- A timeout keeps the counters, with or without a reconnect. -/
theorem onTimeout (h : Counters w) : Counters (onTimeout w) := by
  obtain ⟨hsub, hzero⟩ := h.liveness_sub_one
  obtain ⟨ht, hr⟩ := counts_timeout w.trace
  by_cases hl : w.liveness - 1 = 0
  · obtain ⟨ht', hr'⟩ := counts_reconnect (w.trace ++ [.timeout]) w.interval w.socket
    rw [onTimeout_dead hl]
    refine .of_alive rfl ht' ?_
    simp only [hr', hr]
    exact backoff_succ h.interval_eq
  · have hne : timeouts w.trace + 1 ≠ heartbeatLiveness.toNat := fun he ↦ hl (hzero.mpr he)
    have hlt := h.timeouts_lt
    rw [onTimeout_alive hl]
    refine ⟨?_, ?_, ?_⟩
    · simp only [ht, hsub, h.liveness_eq]
      omega
    · simp only [ht]
      omega
    · simp only [hr, h.interval_eq]

/-- A message keeps the counters unless the loop is left. -/
theorem onMessage (h : Counters w) (msg : Message) (pastEnd : UInt8) (interrupted : Bool)
    (hrun : (onMessage zmsgEncode w msg pastEnd interrupted).running = true) :
    Counters (onMessage zmsgEncode w msg pastEnd interrupted) := by
  obtain ⟨ht, hr⟩ := counts_received w.trace w.socket msg pastEnd
  by_cases h3 : msg.length = 3
  · rw [onMessage_request h3] at hrun ⊢
    cases interrupted with
    | true => exact absurd hrun (by simp)
    | false =>
      obtain ⟨ht', hr'⟩ := counts_sent (w.trace ++ [.received w.socket msg pastEnd] ++
        [.written (zmsgEncode msg)]) w.socket msg
      obtain ⟨ht₂, hr₂⟩ := counts_written (w.trace ++ [.received w.socket msg pastEnd])
        (zmsgEncode msg)
      have hlife : showsLife (.received w.socket msg pastEnd) = true := by simp [showsLife, h3]
      rw [hlife, if_pos rfl] at ht
      refine .of_alive rfl (ht'.trans (ht₂.trans ht)) ?_
      simp only [hr', hr₂, hr]
      exact backoff_zero
  · have hlife : showsLife (.received w.socket msg pastEnd) = isHeartbeat msg pastEnd := by
      simp [showsLife, h3]
    rw [onMessage_other h3]
    rw [hlife] at ht
    cases hb : isHeartbeat msg pastEnd with
    | true =>
      rw [hb, if_pos rfl] at ht
      refine .of_alive rfl ht ?_
      simp only [hr]
      exact backoff_zero
    | false =>
      rw [hb, if_neg (by simp)] at ht
      refine ⟨?_, ?_, ?_⟩
      · simpa only [ht, Bool.false_eq_true, ↓reduceIte] using h.liveness_eq
      · simpa only [ht] using h.timeouts_lt
      · simp only [hr]
        exact backoff_zero

/-- An iteration that does not leave the loop keeps the counters. -/
theorem iterate (h : Counters w) (it : Iteration)
    (hrun : (iterate zmsgEncode w it).running = true) : Counters (iterate zmsgEncode w it) := by
  cases hw : w.running with
  | false =>
    rw [iterate_stopped hw]
    exact h
  | true =>
    rcases iterate_cases zmsgEncode hw it with
      ⟨-, hi⟩ | ⟨msg, -, hm, hi⟩ | ⟨msg, -, hm, hi⟩ | ⟨-, hi⟩ <;> rw [hi] at hrun ⊢
    · exact absurd hrun (by simp)
    · exact absurd hrun (by simp [hm])
    · exact (h.onMessage msg it.pastEnd it.interrupted hm).sendHeartbeat _ _
    · exact h.onTimeout.sendHeartbeat _ _

end Counters

/-- At every head of the loop the counters are functions of the trace. -/
theorem counters_ppworkerActor (zmsgEncode : Message → Bytes) (clock : Int64)
    (its : List Iteration) (hrun : (ppworkerActor zmsgEncode clock its).running = true) :
    Counters (ppworkerActor zmsgEncode clock its) := by
  have hrule := foldl_history (f := iterate zmsgEncode) (s := start clock)
    (P := fun _ w ↦ w.running = true → Counters w) (fun _ ↦ counters_start clock)
  refine hrule (fun _ w it ih hrun ↦ (ih ?_).iterate it hrun) its hrun
  cases hw : w.running with
  | true => rfl
  | false =>
    rw [iterate_stopped hw, hw] at hrun
    exact absurd hrun (by simp)

/-- What the next iteration adds to the trace: it opens a socket exactly when it is the
last timeout of a row, in place of one that it destroys, and then it has slept for the
backoff of the row of reconnects. -/
structure NextReconnect (w w' : Worker) (poll : Poll) (new : List Event) : Prop where
  trace_eq : w'.trace = w.trace ++ new
  opened_iff : (∃ socket, .opened socket ∈ new) ↔
    poll = .timeout ∧ timeouts w.trace + 1 = heartbeatLiveness.toNat
  destroyed_iff : (∃ socket, .destroyed socket ∈ new) ↔ ∃ socket, .opened socket ∈ new
  slept_iff : (∃ msecs, .slept msecs ∈ new) ↔ ∃ socket, .opened socket ∈ new
  slept_eq : ∀ msecs, .slept msecs ∈ new → msecs.toNat = backoff (reconnects w.trace)

namespace NextReconnect

variable {w w' : Worker} {poll : Poll} {new : List Event}

/-- An iteration without a reconnect, where none is due. -/
theorem of_quiet (htrace : w'.trace = w.trace ++ new)
    (hnew : ∀ e ∈ new, (∀ s, e ≠ .opened s) ∧ (∀ s, e ≠ .destroyed s) ∧ ∀ ms, e ≠ .slept ms)
    (hdue : ¬ (poll = .timeout ∧ timeouts w.trace + 1 = heartbeatLiveness.toNat)) :
    NextReconnect w w' poll new where
  trace_eq := htrace
  opened_iff := iff_of_false (fun ⟨s, hs⟩ ↦ (hnew _ hs).1 s rfl) hdue
  destroyed_iff :=
    iff_of_false (fun ⟨s, hs⟩ ↦ (hnew _ hs).2.1 s rfl) fun ⟨s, hs⟩ ↦ (hnew _ hs).1 s rfl
  slept_iff :=
    iff_of_false (fun ⟨ms, hs⟩ ↦ (hnew _ hs).2.2 ms rfl) fun ⟨s, hs⟩ ↦ (hnew _ hs).1 s rfl
  slept_eq ms hs := absurd rfl ((hnew _ hs).2.2 ms)

/-- A heartbeat behind an iteration is no reconnect. -/
theorem sendHeartbeat (h : NextReconnect w w' poll new) (now now' : Int64) :
    ∃ new', NextReconnect w (sendHeartbeat w' now now') poll new' := by
  rcases sendHeartbeat_cases w' now now' with hs | ⟨heartbeatAt, hs⟩ <;> rw [hs]
  · exact ⟨new, h⟩
  · refine ⟨new ++ [.sent w'.socket [pppHeartbeat]], ?_, ?_, ?_, ?_, ?_⟩
    · simp only [h.trace_eq, List.append_assoc]
    · simpa using h.opened_iff
    · simpa using h.destroyed_iff
    · simpa using h.slept_iff
    · simpa using h.slept_eq

/-- A timeout reconnects when it is the last of its row. -/
theorem onTimeout (h : Counters w) : ∃ new, NextReconnect w (onTimeout w) .timeout new := by
  obtain ⟨-, hzero⟩ := h.liveness_sub_one
  by_cases hl : w.liveness - 1 = 0
  · rw [onTimeout_dead hl]
    refine ⟨[.timeout, .slept w.interval, .destroyed w.socket, .opened (w.socket + 1),
      .sent (w.socket + 1) [pppReady]], by simp, ?_, by simp, by simp, ?_⟩
    · simp [hzero.mp hl]
    · simpa using h.interval_eq
  · rw [onTimeout_alive hl]
    exact ⟨[.timeout], of_quiet rfl (by simp) fun ⟨_, he⟩ ↦ hl (hzero.mpr he)⟩

/-- A message never reconnects. -/
theorem onMessage (zmsgEncode : Message → Bytes) (w : Worker) (msg : Message) (pastEnd : UInt8)
    (interrupted : Bool) :
    ∃ new, NextReconnect w (onMessage zmsgEncode w msg pastEnd interrupted)
      (.readable (some msg)) new := by
  by_cases h3 : msg.length = 3
  · rw [onMessage_request h3]
    exact ⟨[.received w.socket msg pastEnd, .written (zmsgEncode msg), .sent w.socket msg],
      of_quiet (by simp) (by simp) (by simp)⟩
  · rw [onMessage_other h3]
    exact ⟨[.received w.socket msg pastEnd], of_quiet rfl (by simp) (by simp)⟩

/-- Every iteration from a loop head. -/
theorem iterate (zmsgEncode : Message → Bytes) (h : Counters w) (hw : w.running = true)
    (it : Iteration) : ∃ new, NextReconnect w (iterate zmsgEncode w it) it.poll new := by
  rcases iterate_cases zmsgEncode hw it with
    ⟨hp, hi⟩ | ⟨msg, hp, -, hi⟩ | ⟨msg, hp, -, hi⟩ | ⟨hp, hi⟩ <;> rw [hi]
  · exact ⟨[], of_quiet (List.append_nil _).symm (by simp) fun ⟨h, _⟩ ↦ hp h⟩
  · rw [hp]
    exact onMessage zmsgEncode w msg it.pastEnd it.interrupted
  · obtain ⟨new, hnew⟩ := onMessage zmsgEncode w msg it.pastEnd it.interrupted
    rw [hp]
    exact hnew.sendHeartbeat _ _
  · obtain ⟨new, hnew⟩ := onTimeout h
    rw [hp]
    exact hnew.sendHeartbeat _ _

end NextReconnect

/-- At every loop head the trace holds what all iterations have brought, `liveness` counts
down the timeouts since the queue was last alive and `interval` has doubled with each
reconnect since it last spoke, up to the maximum; the next iteration adds what it brings,
and reconnects exactly at the last timeout of a row, behind a sleep of that interval. -/
theorem liveness_backoff (zmsgEncode : Message → Bytes) (clock : Int64) (its : List Iteration)
    (hrun : (ppworkerActor zmsgEncode clock its).running = true) :
    heard (ppworkerActor zmsgEncode clock its).trace = its.filterMap Iteration.heard ∧
      Counters (ppworkerActor zmsgEncode clock its) ∧
      0 < (ppworkerActor zmsgEncode clock its).liveness ∧
      (ppworkerActor zmsgEncode clock its).interval ≤ intervalMax ∧
      ∀ it, ∃ new, heard new = it.heard.toList ∧ NextReconnect (ppworkerActor zmsgEncode clock its)
        (iterate zmsgEncode (ppworkerActor zmsgEncode clock its) it) it.poll new := by
  have h := counters_ppworkerActor zmsgEncode clock its hrun
  obtain ⟨hheard, hall⟩ := heard_ppworkerActor zmsgEncode clock its
  refine ⟨by rw [hheard, hall hrun], h, ?_, ?_, fun it ↦ ?_⟩
  · have hlt := h.timeouts_lt
    rw [UInt64.lt_iff_toNat_lt, h.liveness_eq, UInt64.toNat_zero]
    omega
  · rw [UInt64.le_iff_toNat_le, h.interval_eq]
    exact Nat.min_le_right _ _
  · obtain ⟨new, hnew⟩ := NextReconnect.iterate zmsgEncode h hrun it
    have hit := (heard_iterate zmsgEncode hrun it).1
    rw [hnew.trace_eq, heard_append] at hit
    exact ⟨new, List.append_cancel_left hit, hnew⟩

/-- Three timeouts in a row, with a message that is no heartbeat behind the second one. -/
def threeTimeouts : List Iteration :=
  let timeout : Iteration := ⟨.timeout, 0, false, 0, 0⟩
  [timeout, timeout, ⟨.readable (some [[7]]), 0, false, 0, 0⟩, timeout]

/-- The worker after a reconnect, which the stray message did not put off. -/
theorem liveness_backoff_three :
    heard (ppworkerActor List.flatten 0 threeTimeouts).trace =
        [.timeout, .timeout, .message [[7]] 0, .timeout] ∧
      Counters (ppworkerActor List.flatten 0 threeTimeouts) ∧
      (ppworkerActor List.flatten 0 threeTimeouts).socket = 1 ∧
      ∀ it, ∃ new, heard new = it.heard.toList ∧
        NextReconnect (ppworkerActor List.flatten 0 threeTimeouts)
          (iterate List.flatten (ppworkerActor List.flatten 0 threeTimeouts) it) it.poll new :=
  have h := liveness_backoff List.flatten 0 threeTimeouts (by decide)
  ⟨h.1, h.2.1, by decide, h.2.2.2.2⟩

end Ubx.PPWorker
