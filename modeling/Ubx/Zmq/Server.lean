import Mathlib.Logic.Function.Basic
import Ubx.Base.Machine
import Ubx.Base.Bytes

/-!
# The ZeroMQ server block

REQ clients, the REP socket, `handle_event` and `zmq_server_step` of
`src/czmq_bridge/src/zmq_server.cpp:117–179`, and a downstream block between the ports
`zmq_req` and `zmq_rep`, which are FIFOs. The REP socket is readable while it owes no
reply; it routes a reply to the sender of the last request, and refuses to send otherwise.
-/

namespace Ubx.Zmq

open Ubx.Base

/-- `DEFAULT_BUFFER_LENGTH`. -/
def defaultBufferLength : Nat := 90000

/-- What `__port_read` copies into the buffer of the block for a message of the port: all
of it if it fits, and at least something of a message that is not empty. -/
structure PortRead where
  fetch : Bytes → Bytes
  fetch_eq : ∀ m, m.length ≤ defaultBufferLength → fetch m = m
  fetch_ne_nil : ∀ m, m ≠ [] → fetch m ≠ []

/-- A frame with content. -/
structure Frame where
  bytes : Bytes
  ne_nil : bytes ≠ []

/-- A REQ client: it sends when idle, and waits for the reply from then on. -/
inductive Client
  | idle
  /-- The request is on its way to the REP socket. -/
  | requesting (msg : Bytes)
  | waiting

/-- The server with its clients, ports and downstream block, and what has happened. -/
structure Server (κ : Type) where
  client : κ → Client
  /-- The client whose request the REP socket has handed out and not answered. -/
  owed : Option κ
  zmqReq : List Bytes
  /-- Requests the downstream block has taken and not answered. -/
  working : List Bytes
  zmqRep : List Bytes
  /-- Requests handed to `zmq_req`. -/
  received : List (κ × Bytes)
  /-- Requests and answers of the downstream block. -/
  answers : List (Bytes × Bytes)
  /-- Messages that `zmq_server_step` has read. -/
  reads : List Bytes
  /-- Replies sent, with the client they are delivered to. -/
  replies : List (κ × Bytes)

/-- What can happen next. An action whose time has not come has no effect. -/
inductive Action (κ : Type)
  /-- A client sends a request. -/
  | request (c : κ) (msg : Frame)
  /-- The loop calls `handle_event`, and the socket picks the request of `c`. -/
  | handleEvent (c : κ)
  /-- `zmq_server_step`. -/
  | step
  /-- The downstream block reads a request. -/
  | take
  /-- The downstream block answers the oldest request it has read. -/
  | answer (msg : Frame)
  /-- The downstream block writes to `zmq_rep` without being asked. -/
  | write (msg : Frame)

section

variable {κ : Type} [DecidableEq κ]

/-- Nothing has happened. -/
def Server.start : Server κ :=
  { client := fun _ ↦ .idle
    owed := none
    zmqReq := []
    working := []
    zmqRep := []
    received := []
    answers := []
    reads := []
    replies := [] }

/-- `handle_event` on a readable socket; `zmq_server.cpp:153–179`. -/
def handleEvent (c : κ) (s : Server κ) : Server κ :=
  match s.owed, s.client c with
  | none, .requesting msg =>
    { s with
      client := Function.update s.client c .waiting
      owed := some c
      zmqReq := s.zmqReq ++ [msg]
      received := s.received ++ [(c, msg)] }
  | _, _ => s

/-- `zframe_send` on the REP socket: the result, and the state behind it. -/
def zframeSend (msg : Bytes) (s : Server κ) : Int × Server κ :=
  match s.owed with
  | none => (-1, s)
  | some c =>
    (0, { s with
      client := Function.update s.client c .idle
      owed := none
      replies := s.replies ++ [(c, msg)] })

/-- `zmq_server_step`; `zmq_server.cpp:117–151`. -/
def zmqServerStep (P : PortRead) (s : Server κ) : Server κ :=
  match s.zmqRep with
  | [] => s
  | msg :: rest =>
    let s := { s with zmqRep := rest }
    let readBytes := (P.fetch msg).length
    if readBytes ≤ 0 then s
    else
      let s := { s with reads := s.reads ++ [P.fetch msg] }
      -- the result is printed, and not looked at otherwise
      let (_result, s) := zframeSend (P.fetch msg) s
      s

/-- One action. -/
def act (P : PortRead) (s : Server κ) : Action κ → Server κ
  | .request c msg =>
    match s.client c with
    | .idle => { s with client := Function.update s.client c (.requesting msg.bytes) }
    | _ => s
  | .handleEvent c => handleEvent c s
  | .step => zmqServerStep P s
  | .take =>
    match s.zmqReq with
    | [] => s
    | msg :: rest => { s with zmqReq := rest, working := s.working ++ [msg] }
  | .answer msg =>
    match s.working with
    | [] => s
    | req :: rest =>
      { s with
        working := rest
        zmqRep := s.zmqRep ++ [msg.bytes]
        answers := s.answers ++ [(req, msg.bytes)] }
  | .write msg => { s with zmqRep := s.zmqRep ++ [msg.bytes] }

/-- The state after some actions. -/
def server (P : PortRead) (acts : List (Action κ)) : Server κ := acts.foldl (act P) .start

end

end Ubx.Zmq
