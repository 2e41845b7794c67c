import Ubx.Base.Machine

/-!
# Hooks and the block life cycle

Ownership of actors, sockets and private data in the hooks of `zmq_receiver.cpp:29–91`,
`zmq_server.cpp:42–114` and `czmq_ppworker.c:151–191`. Allocations are numbered. An actor
function returns only while `zactor_destroy` waits for it, if it returns at all: none of
the loops reads its pipe, and interrupts of the process are left out.
-/

namespace Ubx.LifeCycle

open Ubx.Base

/-- The block local state that the hooks share: which allocation it is, the socket for
the actor (`none` is NULL, or no such field), and the actor. -/
structure Info where
  id : Nat
  socket : Option Nat
  actor : Option Nat

/-- An actor function that has been started and has not returned: the private data and
the socket it uses. -/
structure Actor where
  id : Nat
  info : Nat
  socket : Option Nat

/-- Actors, and what hooks have released. -/
structure World where
  running : List Actor
  /-- Private data that has been freed. -/
  freed : List Nat
  /-- Sockets that have been destroyed. -/
  destroyed : List Nat
  /-- The number of the next allocation. -/
  next : Nat

/-- What `init` meets: no memory, no socket, or neither. -/
inductive InitOutcome
  | noMemory
  | noSocket
  | ok
  deriving DecidableEq

/-- How `init` ends. -/
inductive InitResult
  /-- A value other than zero is returned. -/
  | failed (w : World)
  /-- An assertion of the library fails. -/
  | aborted
  /-- Zero is returned, with `b->private_data` set. -/
  | ready (inf : Info) (w : World)

/-- How `cleanup` ends: the worlds between its statements, the last world, and whether
the hook returns. -/
structure CleanupResult where
  passed : List World
  world : World
  returned : Bool

/-- The hooks of a block. -/
structure Hooks where
  init : InitOutcome → World → InitResult
  start : Info → World → Info × World
  stop : Info → World → Info × World
  /-- The argument says whether the actor function returns while it is waited for. -/
  cleanup : Bool → Info → World → CleanupResult

/-! ### The library calls -/

/-- `calloc` of the block local state. -/
def allocInfo (w : World) : Info × World := (⟨w.next, none, none⟩, { w with next := w.next + 1 })

/-- A new socket. -/
def zsockNew (w : World) : Nat × World := (w.next, { w with next := w.next + 1 })

/-- `zactor_new`, and the assignment to `inf->actor`. -/
def zactorNew (socket : Option Nat) (inf : Info) (w : World) : Info × World :=
  ({ inf with actor := some w.next },
    { w with running := w.running ++ [⟨w.next, inf.id, socket⟩], next := w.next + 1 })

/-- `zsock_destroy` of the socket of the block; it clears the pointer. -/
def zsockDestroy (inf : Info) (w : World) : Info × World :=
  match inf.socket with
  | none => (inf, w)
  | some s => ({ inf with socket := none }, { w with destroyed := s :: w.destroyed })

/-- `zactor_destroy`: it does nothing for NULL, and waits for the actor function
otherwise. The result says whether it returns. -/
def zactorDestroy (returns : Bool) (inf : Info) (w : World) : Info × World × Bool :=
  match inf.actor with
  | none => (inf, w, true)
  | some a =>
    if returns then
      ({ inf with actor := none }, { w with running := w.running.filter (·.id ≠ a) }, true)
    else (inf, w, false)

/-- `free(b->private_data)`. -/
def freeInfo (inf : Info) (w : World) : World := { w with freed := inf.id :: w.freed }

/-! ### zmq_receiver -/

/-- `zmq_receiver_init`; the subscription is set before the check for NULL. -/
def zmqReceiverInit (o : InitOutcome) (w : World) : InitResult :=
  match o with
  | .noMemory => .failed w
  | .noSocket => .aborted
  | .ok =>
    let (inf, w) := allocInfo w
    let (sub, w) := zsockNew w
    .ready { inf with socket := some sub } w

/-- `zmq_receiver_start`. -/
def zmqReceiverStart (inf : Info) (w : World) : Info × World := zactorNew inf.socket inf w

/-- `zmq_receiver_stop`: its only statement is a comment. -/
def zmqReceiverStop (inf : Info) (w : World) : Info × World := (inf, w)

/-- `zmq_receiver_cleanup`: first the socket, then the actor. -/
def zmqReceiverCleanup (returns : Bool) (inf : Info) (w : World) : CleanupResult :=
  let (inf, w₁) := zsockDestroy inf w
  let (inf, w₂, returned) := zactorDestroy returns inf w₁
  if returned then ⟨[w₁, w₂], freeInfo inf w₂, true⟩ else ⟨[w₁], w₂, false⟩

/-- The block `zmq_receiver`. -/
def zmqReceiver : Hooks :=
  ⟨zmqReceiverInit, zmqReceiverStart, zmqReceiverStop, zmqReceiverCleanup⟩

/-! ### zmq_server -/

/-- `zmq_server_init`; without a socket the allocated state is left behind. -/
def zmqServerInit (o : InitOutcome) (w : World) : InitResult :=
  match o with
  | .noMemory => .failed w
  | .noSocket => .failed (allocInfo w).2
  | .ok =>
    let (inf, w) := allocInfo w
    let (serverSocket, w) := zsockNew w
    .ready { inf with socket := some serverSocket } w

/-- `zmq_server_start`. -/
def zmqServerStart (inf : Info) (w : World) : Info × World := zactorNew inf.socket inf w

/-- `zmq_server_stop`: its only statement is a comment. -/
def zmqServerStop (inf : Info) (w : World) : Info × World := (inf, w)

/-- `zmq_server_cleanup`: the context, which is not the one of the socket, and the actor.
The socket is never destroyed. -/
def zmqServerCleanup (returns : Bool) (inf : Info) (w : World) : CleanupResult :=
  let (inf, w₁, returned) := zactorDestroy returns inf w
  if returned then ⟨[w₁], freeInfo inf w₁, true⟩ else ⟨[], w₁, false⟩

/-- The block `zmq_server`. -/
def zmqServer : Hooks := ⟨zmqServerInit, zmqServerStart, zmqServerStop, zmqServerCleanup⟩

/-! ### czmq_ppworker -/

/-- `czmq_ppworker_init`; it makes no socket. -/
def czmqPpworkerInit (o : InitOutcome) (w : World) : InitResult :=
  match o with
  | .noMemory => .failed w
  | .noSocket | .ok =>
    let (inf, w) := allocInfo w
    .ready inf w

/-- `czmq_ppworker_start`; the actor makes a socket of its own. -/
def czmqPpworkerStart (inf : Info) (w : World) : Info × World :=
  let (worker, w) := zsockNew w
  zactorNew (some worker) inf w

/-- `czmq_ppworker_stop`: its only statement is a comment. -/
def czmqPpworkerStop (inf : Info) (w : World) : Info × World := (inf, w)

/-- `czmq_ppworker_cleanup`: the actor is not mentioned. -/
def czmqPpworkerCleanup (_returns : Bool) (inf : Info) (w : World) : CleanupResult :=
  ⟨[], freeInfo inf w, true⟩

/-- The block `czmq_ppworker`. -/
def czmqPpworker : Hooks :=
  ⟨czmqPpworkerInit, czmqPpworkerStart, czmqPpworkerStop, czmqPpworkerCleanup⟩

/-! ### The life cycle -/

/-- Where a block is in its life cycle. -/
inductive Phase
  | preinit
  | inactive (inf : Info)
  | active (inf : Info)
  /-- `cleanup` was called and does not return. -/
  | stuck

/-- A block and its world. -/
structure Block where
  phase : Phase
  world : World

/-- Calls of the hooks. -/
inductive Call
  | init (o : InitOutcome)
  | start
  | stop
  | cleanup (returns : Bool)
  deriving DecidableEq

/-- Why a call does not come about. -/
inductive Refusal
  | notPermitted
  | aborted
  deriving DecidableEq

/-- A call that the life cycle permits: the states passed on the way, and the last one. -/
def Hooks.call (H : Hooks) (b : Block) (c : Call) : Except Refusal (List Block × Block) :=
  match b.phase, c with
  | .preinit, .init o =>
    match H.init o b.world with
    | .failed w => .ok ([], ⟨.preinit, w⟩)
    | .aborted => .error .aborted
    | .ready inf w => .ok ([], ⟨.inactive inf, w⟩)
  | .inactive inf, .start =>
    let (inf, w) := H.start inf b.world
    .ok ([], ⟨.active inf, w⟩)
  | .active inf, .stop =>
    let (inf, w) := H.stop inf b.world
    .ok ([], ⟨.inactive inf, w⟩)
  | .inactive inf, .cleanup returns =>
    let r := H.cleanup returns inf b.world
    .ok (r.passed.map (⟨.inactive inf, ·⟩), ⟨if r.returned then .preinit else .stuck, r.world⟩)
  | _, _ => .error .notPermitted

/-- The states a run has passed, and the state it is in. -/
structure History where
  past : List Block
  now : Block

/-- All states of a run. -/
def History.states (h : History) : List Block := h.past ++ [h.now]

/-- The life cycle of a block. -/
def lifeCycle (H : Hooks) : Machine History Call Refusal where
  step h c := (H.call h.now c).map fun r ↦ ⟨h.states ++ r.1, r.2⟩

/-- A block that has just been created. -/
def History.start : History := ⟨[], ⟨.preinit, ⟨[], [], [], 0⟩⟩⟩

/-- All that a permitted call can be. -/
theorem Hooks.call_cases {H : Hooks} {b : Block} {c : Call} {r : List Block × Block}
    (h : H.call b c = .ok r) :
    (∃ o w, c = .init o ∧ b.phase = .preinit ∧ H.init o b.world = .failed w ∧
      r = ([], ⟨.preinit, w⟩)) ∨
    (∃ o inf w, c = .init o ∧ b.phase = .preinit ∧ H.init o b.world = .ready inf w ∧
      r = ([], ⟨.inactive inf, w⟩)) ∨
    (∃ inf, c = .start ∧ b.phase = .inactive inf ∧
      r = ([], ⟨.active (H.start inf b.world).1, (H.start inf b.world).2⟩)) ∨
    (∃ inf, c = .stop ∧ b.phase = .active inf ∧
      r = ([], ⟨.inactive (H.stop inf b.world).1, (H.stop inf b.world).2⟩)) ∨
    (∃ inf returns, c = .cleanup returns ∧ b.phase = .inactive inf ∧
      r = ((H.cleanup returns inf b.world).passed.map (⟨.inactive inf, ·⟩),
        ⟨if (H.cleanup returns inf b.world).returned then .preinit else .stuck,
          (H.cleanup returns inf b.world).world⟩)) := by
  simp only [Hooks.call] at h
  split at h
  · next o hp =>
    split at h
    · next w hi => exact .inl ⟨o, w, rfl, hp, hi, (Except.ok.inj h).symm⟩
    · exact absurd h (by simp)
    · next inf w hi => exact .inr (.inl ⟨o, inf, w, rfl, hp, hi, (Except.ok.inj h).symm⟩)
  · next inf hp => exact .inr (.inr (.inl ⟨inf, rfl, hp, (Except.ok.inj h).symm⟩))
  · next inf hp => exact .inr (.inr (.inr (.inl ⟨inf, rfl, hp, (Except.ok.inj h).symm⟩)))
  · next inf returns hp =>
    exact .inr (.inr (.inr (.inr ⟨inf, returns, rfl, hp, (Except.ok.inj h).symm⟩)))
  · exact absurd h (by simp)

/-- A step of the life cycle is a permitted call; the states it passes are recorded. -/
theorem lifeCycle_step {H : Hooks} {h h' : History} {c : Call}
    (hs : (lifeCycle H).step h c = .ok h') :
    ∃ r, H.call h.now c = .ok r ∧ h'.now = r.2 ∧ h'.states = h.states ++ r.1 ++ [r.2] := by
  rw [lifeCycle] at hs
  cases hc : H.call h.now c with
  | error e => simp [hc, Except.map] at hs
  | ok r =>
    simp only [hc, Except.map, Except.ok.injEq] at hs
    subst hs
    exact ⟨r, rfl, rfl, rfl⟩

end Ubx.LifeCycle
