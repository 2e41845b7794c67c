import Mathlib.Data.List.Pairwise
import Ubx.Base.Machine
import Ubx.PPWorker.Actor

/-!
# The worker side of the Paranoid Pirate Protocol

On every socket the worker speaks READY first and once, then heartbeats and replies; the
replies are the requests received there, and nothing is sent on a socket that has been
replaced.
-/

namespace Ubx.PPWorker

open Ubx.Base

/-- Messages sent on a socket. -/
def sentOn (socket : Nat) (trace : List Event) : List Message :=
  trace.filterMap fun
    | .sent s msg => if s = socket then some msg else none
    | _ => none

/-- Requests received on a socket. -/
def requestsOn (socket : Nat) (trace : List Event) : List Message :=
  trace.filterMap fun
    | .received s msg _ => if s = socket ∧ msg.length = 3 then some msg else none
    | _ => none

/-- Requests received on any socket. -/
def requests (trace : List Event) : List Message :=
  trace.filterMap fun
    | .received _ msg _ => if msg.length = 3 then some msg else none
    | _ => none

/-- Messages written to port `zmq_in`. -/
def writes (trace : List Event) : List Bytes :=
  trace.filterMap fun
    | .written data => some data
    | _ => none

/-- A socket in use: READY, then heartbeats and replies, one for each request. -/
def Spoken (trace : List Event) (socket : Nat) : Prop :=
  ∃ rest, sentOn socket trace = [pppReady] :: rest ∧
    (∀ msg ∈ rest, msg = [pppHeartbeat] ∨ msg.length = 3) ∧
    rest.filter (·.length = 3) = requestsOn socket trace

/-- The socket that a message passes on. -/
def Event.socket? : Event → Option Nat
  | .sent socket _ => some socket
  | .received socket _ _ => some socket
  | _ => none

/-- Nothing passes on a destroyed socket, nor on an older one than the last opened. -/
def Closed (trace : List Event) : Prop :=
  trace.Pairwise fun e e' ↦ ∀ socket ∈ e'.socket?,
    e ≠ .destroyed socket ∧ ∀ opened, e = .opened opened → opened ≤ socket

/-- What holds of the trace with socket `cur` in use. -/
structure Proper (zmsgEncode : Message → Bytes) (cur : Nat) (trace : List Event) : Prop where
  opened_iff : ∀ socket, .opened socket ∈ trace ↔ socket ≤ cur
  destroyed_lt : ∀ socket, .destroyed socket ∈ trace → socket < cur
  spoken : ∀ socket ≤ cur, Spoken trace socket
  silent : ∀ socket > cur, sentOn socket trace = [] ∧ requestsOn socket trace = []
  closed : Closed trace
  writes_eq : writes trace = (requests trace).map zmsgEncode

/-- Events of one stretch without a reconnect, on socket `cur`. -/
structure Stretch (zmsgEncode : Message → Bytes) (cur : Nat) (new : List Event) : Prop where
  kept : ∀ socket, .opened socket ∉ new ∧ .destroyed socket ∉ new
  current : ∀ e ∈ new, ∀ socket ∈ e.socket?, socket = cur
  sent : ∀ msg ∈ sentOn cur new, msg = [pppHeartbeat] ∨ msg.length = 3
  replies : (sentOn cur new).filter (·.length = 3) = requestsOn cur new
  writes_eq : writes new = (requests new).map zmsgEncode

section

variable {zmsgEncode : Message → Bytes} {cur : Nat} {trace new : List Event}

/-- What is sent on a socket adds up along a trace. -/
theorem sentOn_append (socket : Nat) (trace new : List Event) :
    sentOn socket (trace ++ new) = sentOn socket trace ++ sentOn socket new :=
  List.filterMap_append

/-- So do the requests received on a socket. -/
theorem requestsOn_append (socket : Nat) (trace new : List Event) :
    requestsOn socket (trace ++ new) = requestsOn socket trace ++ requestsOn socket new :=
  List.filterMap_append

/-- So do the requests received on any socket. -/
theorem requests_append (trace new : List Event) :
    requests (trace ++ new) = requests trace ++ requests new :=
  List.filterMap_append

/-- So do the port writes. -/
theorem writes_append (trace new : List Event) :
    writes (trace ++ new) = writes trace ++ writes new :=
  List.filterMap_append

/-- A stretch says nothing on the other sockets. -/
theorem Stretch.others (hn : Stretch zmsgEncode cur new) {socket : Nat} (hs : socket ≠ cur) :
    sentOn socket new = [] ∧ requestsOn socket new = [] := by
  rw [sentOn, requestsOn, List.filterMap_eq_nil_iff, List.filterMap_eq_nil_iff]
  refine ⟨fun e he ↦ ?_, fun e he ↦ ?_⟩
  · cases e with
    | sent s msg => exact if_neg fun h ↦ hs (h.symm.trans (hn.current _ he s rfl))
    | _ => rfl
  · cases e with
    | received s msg pastEnd =>
      exact if_neg fun h ↦ hs (h.1.symm.trans (hn.current _ he s rfl))
    | _ => rfl

/-- A stretch on the current socket keeps the trace proper. -/
theorem Proper.append (h : Proper zmsgEncode cur trace) (hn : Stretch zmsgEncode cur new) :
    Proper zmsgEncode cur (trace ++ new) where
  opened_iff socket := by
    rw [List.mem_append, h.opened_iff]
    exact or_iff_left (hn.kept socket).1
  destroyed_lt socket hd := by
    rcases List.mem_append.mp hd with hd | hd
    · exact h.destroyed_lt socket hd
    · exact absurd hd (hn.kept socket).2
  spoken socket hs := by
    obtain ⟨rest, hsent, hall, hrep⟩ := h.spoken socket hs
    refine ⟨rest ++ sentOn socket new, ?_, ?_, ?_⟩
    · rw [sentOn_append, hsent, List.cons_append]
    · intro msg hmsg
      rcases List.mem_append.mp hmsg with hmsg | hmsg
      · exact hall msg hmsg
      · by_cases he : socket = cur
        · exact hn.sent msg (he ▸ hmsg)
        · rw [(hn.others he).1] at hmsg
          exact absurd hmsg (by simp)
    · rw [List.filter_append, requestsOn_append, hrep]
      by_cases he : socket = cur
      · rw [he, hn.replies]
      · rw [(hn.others he).1, (hn.others he).2, List.filter_nil]
  silent socket hs := by
    obtain ⟨hsent, hreq⟩ := h.silent socket hs
    obtain ⟨hsent', hreq'⟩ := hn.others (show socket ≠ cur by omega)
    rw [sentOn_append, requestsOn_append, hsent, hreq, hsent', hreq']
    exact ⟨rfl, rfl⟩
  closed := by
    refine List.pairwise_append.mpr ⟨h.closed, ?_, ?_⟩
    · apply List.pairwise_of_forall_mem_list
      intro e he e' _ socket _
      exact ⟨fun hd ↦ (hn.kept socket).2 (hd ▸ he),
        fun opened ho ↦ absurd (ho ▸ he) (hn.kept opened).1⟩
    · intro e he e' he' socket hs
      obtain rfl := hn.current e' he' socket hs
      exact ⟨fun hd ↦ Nat.lt_irrefl _ (h.destroyed_lt _ (hd ▸ he)),
        fun opened ho ↦ (h.opened_iff opened).mp (ho ▸ he)⟩
  writes_eq := by
    rw [writes_append, requests_append, List.map_append, h.writes_eq, hn.writes_eq]

/-- Replacing the socket keeps the trace proper, for the new socket. -/
theorem Proper.replace (h : Proper zmsgEncode cur trace) :
    Proper zmsgEncode (cur + 1)
      (trace ++ [.destroyed cur, .opened (cur + 1), .sent (cur + 1) [pppReady]]) where
  opened_iff socket := by
    rw [List.mem_append, h.opened_iff]
    simp only [List.mem_cons, reduceCtorEq, Event.opened.injEq, List.not_mem_nil, or_false,
      false_or]
    omega
  destroyed_lt socket hd := by
    rcases List.mem_append.mp hd with hd | hd
    · exact Nat.lt_succ_of_lt (h.destroyed_lt socket hd)
    · have : socket = cur := by simpa using hd
      omega
  spoken socket hs := by
    by_cases he : socket = cur + 1
    · obtain ⟨hsent, hreq⟩ := h.silent socket (by omega)
      refine ⟨[], ?_, by simp, ?_⟩
      · rw [sentOn_append, hsent, he]
        simp [sentOn]
      · rw [requestsOn_append, hreq]
        simp [requestsOn]
    · obtain ⟨rest, hsent, hall, hrep⟩ := h.spoken socket (by omega)
      refine ⟨rest, ?_, hall, ?_⟩
      · rw [sentOn_append, hsent]
        simp [sentOn, Ne.symm he]
      · rw [requestsOn_append, hrep]
        simp [requestsOn]
  silent socket hs := by
    obtain ⟨hsent, hreq⟩ := h.silent socket (by omega)
    rw [sentOn_append, requestsOn_append, hsent, hreq]
    have he : cur + 1 ≠ socket := by omega
    simp [sentOn, requestsOn, he]
  closed := by
    refine List.pairwise_append.mpr ⟨h.closed, by simp [Event.socket?], ?_⟩
    intro e he e' he' socket hs
    have hnew : socket = cur + 1 := by
      simp only [List.mem_cons, List.not_mem_nil, or_false] at he'
      rcases he' with rfl | rfl | rfl
      · exact absurd hs (by simp [Event.socket?])
      · exact absurd hs (by simp [Event.socket?])
      · exact (Option.mem_some.mp hs).symm
    refine ⟨fun hd ↦ ?_, fun opened ho ↦ ?_⟩
    · have hlt := h.destroyed_lt socket (hd ▸ he)
      omega
    · have hle := (h.opened_iff opened).mp (ho ▸ he)
      omega
  writes_eq := by
    rw [writes_append, requests_append, h.writes_eq]
    simp [writes, requests]

/-- Timeouts and sleeps say nothing on any socket. -/
theorem stretch_waiting (hn : ∀ e ∈ new, e = .timeout ∨ ∃ msecs, e = .slept msecs) :
    Stretch zmsgEncode cur new := by
  have hnone : ∀ {β : Type} {f : Event → Option β}, f .timeout = none →
      (∀ msecs, f (.slept msecs) = none) → new.filterMap f = [] := by
    intro β f ht hs
    rw [List.filterMap_eq_nil_iff]
    intro e he
    rcases hn e he with rfl | ⟨msecs, rfl⟩
    · exact ht
    · exact hs msecs
  have hsent : ∀ socket, sentOn socket new = [] := fun _ ↦ hnone rfl fun _ ↦ rfl
  have hreq : ∀ socket, requestsOn socket new = [] := fun _ ↦ hnone rfl fun _ ↦ rfl
  refine ⟨fun socket ↦ ⟨fun ho ↦ ?_, fun hd ↦ ?_⟩, fun e he socket hs ↦ ?_, ?_, ?_, ?_⟩
  · simpa using hn _ ho
  · simpa using hn _ hd
  · rcases hn e he with rfl | ⟨msecs, rfl⟩ <;> exact absurd hs (by simp [Event.socket?])
  · simp [hsent]
  · simp [hsent, hreq]
  · rw [writes, requests, hnone rfl fun _ ↦ rfl, hnone rfl fun _ ↦ rfl, List.map_nil]

/-- A heartbeat. -/
theorem stretch_heartbeat : Stretch zmsgEncode cur [.sent cur [pppHeartbeat]] where
  kept := by simp
  current := by simp [Event.socket?]
  sent := by simp [sentOn]
  replies := by simp [sentOn, requestsOn]
  writes_eq := by simp [writes, requests]

/-- A request, its write and its reply. -/
theorem stretch_request {msg : Message} (h : msg.length = 3) (pastEnd : UInt8) :
    Stretch zmsgEncode cur
      [.received cur msg pastEnd, .written (zmsgEncode msg), .sent cur msg] where
  kept := by simp
  current := by simp [Event.socket?]
  sent := by simp [sentOn, h]
  replies := by simp [sentOn, requestsOn, h]
  writes_eq := by simp [writes, requests, h]

/-- Any other message. -/
theorem stretch_other {msg : Message} (h : msg.length ≠ 3) (pastEnd : UInt8) :
    Stretch zmsgEncode cur [.received cur msg pastEnd] where
  kept := by simp
  current := by simp [Event.socket?]
  sent := by simp [sentOn]
  replies := by simp [sentOn, requestsOn, h]
  writes_eq := by simp [writes, requests, h]

end

/-! ### Runs of the actor -/

/-- The trace of a worker is proper for its socket. -/
def Worker.Proper (zmsgEncode : Message → Bytes) (w : Worker) : Prop :=
  PPWorker.Proper zmsgEncode w.socket w.trace

namespace Worker.Proper

variable {zmsgEncode : Message → Bytes} {w : Worker}

/-- The first socket has been opened and has said READY. -/
theorem start (clock : Int64) : (start clock).Proper zmsgEncode where
  opened_iff socket := by
    simp [PPWorker.start, sWorkerSocket]
  destroyed_lt socket hd := by simp [PPWorker.start, sWorkerSocket] at hd
  spoken socket hs := by
    obtain rfl : socket = 0 := Nat.le_zero.mp hs
    exact ⟨[], rfl, by simp, rfl⟩
  silent socket hs := by
    have hne : 0 ≠ socket := Nat.ne_of_lt hs
    simp [PPWorker.start, sWorkerSocket, sentOn, requestsOn, hne]
  closed := by simp [PPWorker.start, sWorkerSocket, Closed, Event.socket?]
  writes_eq := rfl

/-- The heartbeat at the end of an iteration. -/
theorem sendHeartbeat (h : w.Proper zmsgEncode) (now now' : Int64) :
    (sendHeartbeat w now now').Proper zmsgEncode := by
  rcases sendHeartbeat_cases w now now' with hs | ⟨heartbeatAt, hs⟩ <;> rw [hs]
  · exact h
  · exact h.append stretch_heartbeat

/-- The branch for a message, whether it leaves the loop or not. -/
theorem onMessage (h : w.Proper zmsgEncode) (msg : Message) (pastEnd : UInt8)
    (interrupted : Bool) : (onMessage zmsgEncode w msg pastEnd interrupted).Proper zmsgEncode := by
  by_cases h3 : msg.length = 3
  · rw [onMessage_request h3]
    have := h.append (stretch_request h3 pastEnd)
    simpa [Worker.Proper, List.append_assoc] using this
  · rw [onMessage_other h3]
    exact h.append (stretch_other h3 pastEnd)

/-- The branch for a timeout. -/
theorem onTimeout (h : w.Proper zmsgEncode) : (onTimeout w).Proper zmsgEncode := by
  by_cases hl : w.liveness - 1 = 0
  · rw [onTimeout_dead hl]
    have hwait : Stretch zmsgEncode w.socket [.timeout, .slept w.interval] :=
      stretch_waiting (by simp)
    have := (h.append hwait).replace
    simpa [Worker.Proper, List.append_assoc] using this
  · rw [onTimeout_alive hl]
    exact h.append (stretch_waiting (by simp))

/-- Every iteration. -/
theorem iterate (h : w.Proper zmsgEncode) (it : Iteration) :
    (iterate zmsgEncode w it).Proper zmsgEncode := by
  cases hw : w.running with
  | false =>
    rw [iterate_stopped hw]
    exact h
  | true =>
    rcases iterate_cases zmsgEncode hw it with
      ⟨-, hi⟩ | ⟨msg, -, -, hi⟩ | ⟨msg, -, -, hi⟩ | ⟨-, hi⟩ <;> rw [hi]
    · exact h
    · exact h.onMessage msg it.pastEnd it.interrupted
    · exact (h.onMessage msg it.pastEnd it.interrupted).sendHeartbeat _ _
    · exact h.onTimeout.sendHeartbeat _ _

end Worker.Proper

/-- In every reachable state the trace holds what the iterations up to an exit have brought;
each opened socket has carried READY and then heartbeats and the replies to its requests,
no other socket has carried anything, nothing has passed on a socket that was replaced, and
port `zmq_in` holds the encoded requests. -/
theorem ppworker_protocol (zmsgEncode : Message → Bytes) (clock : Int64) (its : List Iteration) :
    heard (ppworkerActor zmsgEncode clock its).trace =
      (executed its).filterMap Iteration.heard ∧
    (∀ socket, .opened socket ∈ (ppworkerActor zmsgEncode clock its).trace →
      Spoken (ppworkerActor zmsgEncode clock its).trace socket) ∧
    (∀ socket, .opened socket ∉ (ppworkerActor zmsgEncode clock its).trace →
      sentOn socket (ppworkerActor zmsgEncode clock its).trace = [] ∧
        requestsOn socket (ppworkerActor zmsgEncode clock its).trace = []) ∧
    Closed (ppworkerActor zmsgEncode clock its).trace ∧
    writes (ppworkerActor zmsgEncode clock its).trace =
      (requests (ppworkerActor zmsgEncode clock its).trace).map zmsgEncode := by
  have h : (ppworkerActor zmsgEncode clock its).Proper zmsgEncode :=
    foldl_history (P := fun _ w ↦ Worker.Proper zmsgEncode w) (.start clock)
      (fun _ _ it hp ↦ hp.iterate it) its
  refine ⟨(heard_ppworkerActor zmsgEncode clock its).1,
    fun socket ho ↦ h.spoken socket ((h.opened_iff socket).mp ho), fun socket ho ↦ ?_,
    h.closed, h.writes_eq⟩
  exact h.silent socket (Nat.lt_of_not_le fun hle ↦ ho ((h.opened_iff socket).mpr hle))

end Ubx.PPWorker
