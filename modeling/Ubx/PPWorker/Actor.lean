import Ubx.Base.Bytes

/-!
# The Paranoid Pirate worker: `ppworker_actor`

Worker loop of `src/czmq_ppworker_bridge/src/czmq_ppworker.c:34–145`. An iteration is
given by what the poll, the receive, the clock and the interrupt flag answer. Sockets are
numbered as they are opened; what happens on them and on port `zmq_in` goes into a trace.
-/

namespace Ubx.PPWorker

open Ubx.Base

/-- `HEARTBEAT_LIVENESS`. -/
def heartbeatLiveness : UInt64 := 3

/-- `HEARTBEAT_INTERVAL`, in milliseconds. -/
def heartbeatInterval : Int64 := 1000

/-- `INTERVAL_INIT`. -/
def intervalInit : UInt64 := 1000

/-- `INTERVAL_MAX`. -/
def intervalMax : UInt64 := 32000

/-- `PPP_READY`, the one byte that is sent. -/
def pppReady : Bytes := [1]

/-- `PPP_HEARTBEAT`. -/
def pppHeartbeat : Bytes := [2]

/-- A message is its frames. -/
abbrev Message := List Bytes

/-- What is seen of the worker from outside, and the timeouts of its poll. -/
inductive Event
  | opened (socket : Nat)
  | destroyed (socket : Nat)
  | sent (socket : Nat) (msg : Message)
  /-- A message received, with the byte that memory holds behind an empty first frame. -/
  | received (socket : Nat) (msg : Message) (pastEnd : UInt8)
  /-- A write to port `zmq_in`. -/
  | written (data : Bytes)
  | timeout
  | slept (msecs : UInt64)
  deriving DecidableEq

/-- State at the head of the loop. -/
structure Worker where
  liveness : UInt64
  interval : UInt64
  heartbeatAt : UInt64
  /-- The socket in use. -/
  socket : Nat
  trace : List Event
  running : Bool

/-- How the poll of an iteration ends. -/
inductive Poll
  /-- `zmq_poll` answers -1. -/
  | interrupted
  | timeout
  /-- `zmsg_recv` answers this message; `none` is NULL. -/
  | readable (msg : Option Message)
  deriving DecidableEq

/-- What one iteration learns from outside. -/
structure Iteration where
  poll : Poll
  pastEnd : UInt8
  /-- `zsys_interrupted` after a request. -/
  interrupted : Bool
  /-- `zclock_time` when it is compared with `heartbeat_at`. -/
  now : Int64
  /-- `zclock_time` when `heartbeat_at` is set. -/
  now' : Int64

/-- What the worker can hear in one iteration: a message, or nothing before the timeout. -/
inductive Heard
  | message (msg : Message) (pastEnd : UInt8)
  | timeout
  deriving DecidableEq

/-- What an event of the trace records as heard. -/
def Event.heard : Event → Option Heard
  | .received _ msg pastEnd => some (.message msg pastEnd)
  | .timeout => some .timeout
  | _ => none

/-- What was heard along a trace. -/
def heard (trace : List Event) : List Heard := trace.filterMap Event.heard

namespace Iteration

/-- What an iteration brings to the worker, whatever the worker does about it. -/
def heard (it : Iteration) : Option Heard :=
  match it.poll with
  | .readable (some msg) => some (.message msg it.pastEnd)
  | .timeout => some .timeout
  | _ => none

/-- The three `break`s: an interrupted poll or receive, or an interrupt behind a request. -/
def leaves (it : Iteration) : Bool :=
  match it.poll with
  | .interrupted => true
  | .readable none => true
  | .readable (some msg) => msg.length = 3 && it.interrupted
  | .timeout => false

end Iteration

/-- The iterations that take place: up to the first that leaves the loop, and with it. -/
def executed : List Iteration → List Iteration
  | [] => []
  | it :: its => if it.leaves then [it] else it :: executed its

namespace Worker

/-- Add an event to the trace. -/
def emit (w : Worker) (e : Event) : Worker := { w with trace := w.trace ++ [e] }

@[simp] theorem emit_trace (w : Worker) (e : Event) : (w.emit e).trace = w.trace ++ [e] := rfl
@[simp] theorem emit_socket (w : Worker) (e : Event) : (w.emit e).socket = w.socket := rfl

end Worker

/-- One part whose first byte is `PPP_HEARTBEAT`. The comparison reads one byte, which is
behind the frame if that is empty. -/
def isHeartbeat : Message → UInt8 → Bool
  | [frame], pastEnd => [frame.headD pastEnd] = pppHeartbeat
  | _, _ => false

/-- `s_worker_socket` on a new socket; `czmq_ppworker.c:34–44`. -/
def sWorkerSocket (socket : Nat) (w : Worker) : Worker :=
  ({ w with socket := socket }.emit (.opened socket)).emit (.sent socket [pppReady])

/-- Before the first iteration; `czmq_ppworker.c:55–66`. -/
def start (clock : Int64) : Worker :=
  sWorkerSocket 0
    { liveness := heartbeatLiveness
      interval := intervalInit
      heartbeatAt := (clock + heartbeatInterval).toUInt64
      socket := 0
      trace := []
      running := true }

section

variable (zmsgEncode : Message → Bytes)

/-- The branch for a message; `czmq_ppworker.c:79–119`. -/
def onMessage (w : Worker) (msg : Message) (pastEnd : UInt8) (interrupted : Bool) : Worker :=
  let w := w.emit (.received w.socket msg pastEnd)
  if msg.length = 3 then
    let w := (w.emit (.written (zmsgEncode msg))).emit (.sent w.socket msg)
    let w := { w with liveness := heartbeatLiveness }
    if interrupted then { w with running := false } else { w with interval := intervalInit }
  else if isHeartbeat msg pastEnd then
    { w with liveness := heartbeatLiveness, interval := intervalInit }
  else { w with interval := intervalInit }

/-- The branch for a timeout; `czmq_ppworker.c:125–135`. -/
def onTimeout (w : Worker) : Worker :=
  let w := { w with liveness := w.liveness - 1 }.emit .timeout
  if w.liveness = 0 then
    let w := w.emit (.slept w.interval)
    let w := if w.interval < intervalMax then { w with interval := w.interval * 2 } else w
    let w := sWorkerSocket (w.socket + 1) (w.emit (.destroyed w.socket))
    { w with liveness := heartbeatLiveness }
  else w

/-- The heartbeat at the end of an iteration; `czmq_ppworker.c:137–142`. The signed clock
is compared as an unsigned value. -/
def sendHeartbeat (w : Worker) (now now' : Int64) : Worker :=
  if w.heartbeatAt < now.toUInt64 then
    { w with heartbeatAt := (now' + heartbeatInterval).toUInt64 }.emit
      (.sent w.socket [pppHeartbeat])
  else w

/-- One iteration of the loop; a `break` leaves out the rest of it. -/
def iterate (w : Worker) (it : Iteration) : Worker :=
  if w.running then
    match it.poll with
    | .interrupted => { w with running := false }
    | .readable none => { w with running := false }
    | .readable (some msg) =>
      let w := onMessage zmsgEncode w msg it.pastEnd it.interrupted
      if w.running then sendHeartbeat w it.now it.now' else w
    | .timeout => sendHeartbeat (onTimeout w) it.now it.now'
  else w

/-- The actor after some iterations. -/
def ppworkerActor (clock : Int64) (its : List Iteration) : Worker :=
  its.foldl (iterate zmsgEncode) (start clock)

end

/-! ### The branches as updates of the state -/

section

variable {zmsgEncode : Message → Bytes} {w : Worker}

/-- A request is written, sent back, and resets the liveness. -/
theorem onMessage_request {msg : Message} (h : msg.length = 3) (pastEnd : UInt8)
    (interrupted : Bool) :
    onMessage zmsgEncode w msg pastEnd interrupted =
      { w with
        liveness := heartbeatLiveness
        interval := if interrupted then w.interval else intervalInit
        trace := w.trace ++ [.received w.socket msg pastEnd] ++ [.written (zmsgEncode msg)] ++
          [.sent w.socket msg]
        running := if interrupted then false else w.running } := by
  apply (if_pos h).trans
  cases interrupted <;> rfl

/-- Any other message only ends a row of reconnects, and a heartbeat resets the liveness. -/
theorem onMessage_other {msg : Message} (h : msg.length ≠ 3) (pastEnd : UInt8)
    (interrupted : Bool) :
    onMessage zmsgEncode w msg pastEnd interrupted =
      { w with
        liveness := if isHeartbeat msg pastEnd then heartbeatLiveness else w.liveness
        interval := intervalInit
        trace := w.trace ++ [.received w.socket msg pastEnd] } := by
  apply (if_neg h).trans
  cases isHeartbeat msg pastEnd <;> rfl

/-- A timeout with liveness left. -/
theorem onTimeout_alive (h : w.liveness - 1 ≠ 0) :
    onTimeout w =
      { w with liveness := w.liveness - 1, trace := w.trace ++ [.timeout] } :=
  if_neg h

/-- A timeout without: the socket is replaced after a sleep. -/
theorem onTimeout_dead (h : w.liveness - 1 = 0) :
    onTimeout w =
      { w with
        liveness := heartbeatLiveness
        interval := if w.interval < intervalMax then w.interval * 2 else w.interval
        socket := w.socket + 1
        trace := w.trace ++ [.timeout] ++ [.slept w.interval] ++ [.destroyed w.socket] ++
          [.opened (w.socket + 1)] ++ [.sent (w.socket + 1) [pppReady]] } := by
  apply (if_pos h).trans
  by_cases hi : w.interval < intervalMax <;> simp [Worker.emit, sWorkerSocket, hi]

/-- The heartbeat is sent or not. -/
theorem sendHeartbeat_cases (w : Worker) (now now' : Int64) :
    sendHeartbeat w now now' = w ∨
      ∃ heartbeatAt, sendHeartbeat w now now' =
        { w with
          heartbeatAt := heartbeatAt
          trace := w.trace ++ [.sent w.socket [pppHeartbeat]] } := by
  rw [sendHeartbeat]
  split
  · exact .inr ⟨_, rfl⟩
  · exact .inl rfl

/-- All an iteration can do: leave the loop at once, leave it behind a message, or handle
a message or a timeout and go on to the heartbeat. -/
theorem iterate_cases (zmsgEncode : Message → Bytes) (hw : w.running = true) (it : Iteration) :
    (it.poll ≠ .timeout ∧ iterate zmsgEncode w it = { w with running := false }) ∨
    (∃ msg, it.poll = .readable (some msg) ∧
      (onMessage zmsgEncode w msg it.pastEnd it.interrupted).running = false ∧
      iterate zmsgEncode w it = onMessage zmsgEncode w msg it.pastEnd it.interrupted) ∨
    (∃ msg, it.poll = .readable (some msg) ∧
      (onMessage zmsgEncode w msg it.pastEnd it.interrupted).running = true ∧
      iterate zmsgEncode w it =
        sendHeartbeat (onMessage zmsgEncode w msg it.pastEnd it.interrupted) it.now it.now') ∨
    (it.poll = .timeout ∧ iterate zmsgEncode w it =
      sendHeartbeat (onTimeout w) it.now it.now') := by
  rw [iterate, if_pos hw]
  cases hp : it.poll with
  | interrupted => exact .inl ⟨by simp, rfl⟩
  | timeout => exact .inr (.inr (.inr ⟨rfl, rfl⟩))
  | readable msg =>
    cases msg with
    | none => exact .inl ⟨by simp, rfl⟩
    | some msg =>
      cases hm : (onMessage zmsgEncode w msg it.pastEnd it.interrupted).running with
      | true => exact .inr (.inr (.inl ⟨msg, rfl, hm, if_pos hm⟩))
      | false => exact .inr (.inl ⟨msg, rfl, hm, if_neg (by simp [hm])⟩)

/-- Outside of the loop nothing happens. -/
theorem iterate_stopped (hw : w.running = false) (it : Iteration) :
    iterate zmsgEncode w it = w := by
  rw [iterate, if_neg (by simp [hw])]

/-- So it stays, whatever comes. -/
theorem foldl_iterate_stopped (hw : w.running = false) (its : List Iteration) :
    its.foldl (iterate zmsgEncode) w = w := by
  induction its with
  | nil => rfl
  | cons it its ih => rw [List.foldl_cons, iterate_stopped hw, ih]

/-! ### What the worker has heard -/

/-- What was heard adds up along a trace. -/
theorem heard_append (trace new : List Event) : heard (trace ++ new) = heard trace ++ heard new :=
  List.filterMap_append

/-- Sending is not hearing. -/
theorem heard_sent (trace : List Event) (socket : Nat) (msg : Message) :
    heard (trace ++ [.sent socket msg]) = heard trace := by
  rw [heard_append]
  exact List.append_nil _

/-- A message is heard whatever it is, and only an interrupted request leaves the loop. -/
theorem heard_onMessage (zmsgEncode : Message → Bytes) (hw : w.running = true) (msg : Message)
    (pastEnd : UInt8) (interrupted : Bool) :
    heard (onMessage zmsgEncode w msg pastEnd interrupted).trace =
        heard w.trace ++ [.message msg pastEnd] ∧
      (onMessage zmsgEncode w msg pastEnd interrupted).running =
        !(decide (msg.length = 3) && interrupted) := by
  by_cases h3 : msg.length = 3
  · rw [onMessage_request h3]
    refine ⟨?_, ?_⟩
    · simp only [List.append_assoc, heard_append]
      rfl
    · cases interrupted <;> simp [h3, hw]
  · rw [onMessage_other h3]
    exact ⟨heard_append _ _, by simp [h3, hw]⟩

/-- A timeout is heard with or without a reconnect, and goes on. -/
theorem heard_onTimeout (w : Worker) :
    heard (onTimeout w).trace = heard w.trace ++ [.timeout] ∧
      (onTimeout w).running = w.running := by
  by_cases hl : w.liveness - 1 = 0
  · rw [onTimeout_dead hl]
    refine ⟨?_, rfl⟩
    simp only [List.append_assoc, heard_append]
    rfl
  · rw [onTimeout_alive hl]
    exact ⟨heard_append _ _, rfl⟩

/-- A heartbeat is not heard. -/
theorem heard_sendHeartbeat (w : Worker) (now now' : Int64) :
    heard (sendHeartbeat w now now').trace = heard w.trace ∧
      (sendHeartbeat w now now').running = w.running := by
  rcases sendHeartbeat_cases w now now' with hs | ⟨heartbeatAt, hs⟩ <;> rw [hs]
  · exact ⟨rfl, rfl⟩
  · exact ⟨heard_sent _ _ _, rfl⟩

/-- One iteration records exactly what it brings, and goes on unless it leaves. -/
theorem heard_iterate (zmsgEncode : Message → Bytes) (hw : w.running = true) (it : Iteration) :
    heard (iterate zmsgEncode w it).trace = heard w.trace ++ it.heard.toList ∧
      (iterate zmsgEncode w it).running = !it.leaves := by
  rw [iterate, if_pos hw, Iteration.heard, Iteration.leaves]
  cases it.poll with
  | interrupted => exact ⟨(List.append_nil _).symm, rfl⟩
  | timeout =>
    obtain ⟨htrace, hrun⟩ := heard_onTimeout w
    obtain ⟨htrace', hrun'⟩ := heard_sendHeartbeat (onTimeout w) it.now it.now'
    exact ⟨htrace'.trans htrace, hrun'.trans (hrun.trans hw)⟩
  | readable msg =>
    cases msg with
    | none => exact ⟨(List.append_nil _).symm, rfl⟩
    | some msg =>
      obtain ⟨htrace, hrun⟩ := heard_onMessage zmsgEncode hw msg it.pastEnd it.interrupted
      dsimp only
      split
      · obtain ⟨htrace', hrun'⟩ := heard_sendHeartbeat
          (onMessage zmsgEncode w msg it.pastEnd it.interrupted) it.now it.now'
        exact ⟨htrace'.trans htrace, hrun'.trans hrun⟩
      · exact ⟨htrace, hrun⟩

/-- A run records exactly what its iterations bring up to the one that leaves the loop. -/
theorem heard_foldl_iterate (zmsgEncode : Message → Bytes) (its : List Iteration) (w : Worker)
    (hw : w.running = true) :
    heard (its.foldl (iterate zmsgEncode) w).trace =
        heard w.trace ++ (executed its).filterMap Iteration.heard ∧
      (its.foldl (iterate zmsgEncode) w).running = !its.any Iteration.leaves := by
  induction its generalizing w with
  | nil => exact ⟨(List.append_nil _).symm, hw⟩
  | cons it its ih =>
    obtain ⟨htrace, hrun⟩ := heard_iterate zmsgEncode hw it
    rw [List.foldl_cons, executed, List.any_cons]
    cases hl : it.leaves with
    | true =>
      rw [hl] at hrun
      rw [foldl_iterate_stopped hrun, htrace, hrun]
      cases hh : it.heard <;> simp [hh]
    | false =>
      rw [hl] at hrun
      obtain ⟨htrace', hrun'⟩ := ih _ hrun
      rw [htrace', htrace, hrun']
      cases hh : it.heard <;> simp [hh]

/-- Where no iteration leaves the loop they all take place. -/
theorem executed_eq_self {its : List Iteration} (h : its.any Iteration.leaves = false) :
    executed its = its := by
  induction its with
  | nil => rfl
  | cons it its ih =>
    rw [List.any_cons, Bool.or_eq_false_iff] at h
    rw [executed, if_neg (by simp [h.1]), ih h.2]

/-- The actor has heard what the iterations that took place have brought. -/
theorem heard_ppworkerActor (zmsgEncode : Message → Bytes) (clock : Int64)
    (its : List Iteration) :
    heard (ppworkerActor zmsgEncode clock its).trace =
        (executed its).filterMap Iteration.heard ∧
      ((ppworkerActor zmsgEncode clock its).running = true → executed its = its) := by
  obtain ⟨htrace, hrun⟩ := heard_foldl_iterate zmsgEncode its (start clock) rfl
  refine ⟨htrace, fun h ↦ executed_eq_self ?_⟩
  have hall : (!its.any Iteration.leaves) = true := hrun.symm.trans h
  simpa using hall

end

end Ubx.PPWorker
