import Ubx.LifeCycle.Actors

/-!
# The life cycle of all blocks but the bridge to Zyre

Hooks of `zmq_sender.cpp:36–98`, `sherpa_msg_bridge.cpp:29–79`, `cpp_sender.cpp:19–55` and
`cpp_receiver.cpp:22–58`, which have no actor, next to those that have one; and the buffers and
contexts of all of them, which no hook looks at but to make or release them.
-/

namespace Ubx.LifeCycle

/-! ### zmq_sender -/

/-- `zmq_sender_init`; without a socket the allocated state is left behind. -/
def zmqSenderInit (o : InitOutcome) (w : World) : InitResult :=
  match o with
  | .noMemory => .failed w
  | .noSocket => .failed (allocInfo w).2
  | .ok =>
    let (inf, w) := allocInfo w
    let (pub, w) := zsockNew w
    .ready { inf with socket := some pub } w

/-- `zmq_sender_start`. -/
def zmqSenderStart (inf : Info) (w : World) : Info × World := (inf, w)

/-- `zmq_sender_stop`: its only statement is a comment. -/
def zmqSenderStop (inf : Info) (w : World) : Info × World := (inf, w)

/-- `zmq_sender_cleanup`. -/
def zmqSenderCleanup (_returns : Bool) (inf : Info) (w : World) : CleanupResult :=
  let (inf, w) := zsockDestroy inf w
  ⟨[w], freeInfo inf w, true⟩

/-- The block `zmq_sender`. -/
def zmqSender : Hooks := ⟨zmqSenderInit, zmqSenderStart, zmqSenderStop, zmqSenderCleanup⟩

/-! ### Blocks without a socket -/

/-- An `init` that allocates the private data. -/
def callocInit (o : InitOutcome) (w : World) : InitResult :=
  match o with
  | .noMemory => .failed w
  | .noSocket | .ok =>
    let (inf, w) := allocInfo w
    .ready inf w

/-- A `cleanup` that frees the private data. -/
def freeCleanup (_returns : Bool) (inf : Info) (w : World) : CleanupResult :=
  ⟨[], freeInfo inf w, true⟩

/-- A block that allocates its private data, and frees them. -/
def plainBlock : Hooks := ⟨callocInit, fun inf w ↦ (inf, w), fun inf w ↦ (inf, w), freeCleanup⟩

/-- The block `sherpa_msg`. -/
def sherpaMsg : Hooks := plainBlock

/-- The block `cpp_sender`. -/
def cppSender : Hooks := plainBlock

/-- The block `cpp_receiver`. -/
def cppReceiver : Hooks := plainBlock

/-! ### Buffers and contexts -/

/-- Live buffers and contexts. -/
structure Stores where
  buffers : Nat
  contexts : Nat

/-- A buffer and a context that `init` makes once it has its private data, before it asks for
a socket, and that `cleanup` deletes and destroys. -/
def storeCall (buffer deletes context : Bool) (s : Stores) : Call → Stores
  | .init .noMemory | .start | .stop => s
  | .init .noSocket | .init .ok => ⟨s.buffers + buffer.toNat, s.contexts + context.toNat⟩
  | .cleanup _ => ⟨s.buffers - (buffer && deletes).toNat, s.contexts - context.toNat⟩

/-- `inf->buffer` of `zmq_sender`. -/
def zmqSenderStores : Stores → Call → Stores := storeCall true true false

/-- `inf->buffer` and `inf->ctx` of `zmq_server`; `zmq_server_cleanup` leaves the buffer. -/
def zmqServerStores : Stores → Call → Stores := storeCall true false true

/-- `inf->buffer` of `sherpa_msg`. -/
def sherpaMsgStores : Stores → Call → Stores := storeCall true true false

/-- The blocks. -/
inductive UbxBlock
  | withActor (block : ZmqBlock)
  | zmqSender
  | sherpaMsg
  | cppSender
  | cppReceiver

/-- Their hooks. -/
def UbxBlock.hooks : UbxBlock → Hooks
  | withActor block => block.hooks
  | zmqSender => LifeCycle.zmqSender
  | sherpaMsg => LifeCycle.sherpaMsg
  | cppSender => LifeCycle.cppSender
  | cppReceiver => LifeCycle.cppReceiver

/-- Their buffers and contexts. -/
def UbxBlock.stores : UbxBlock → Stores → Call → Stores
  | withActor .zmqServer => zmqServerStores
  | zmqSender => zmqSenderStores
  | sherpaMsg => sherpaMsgStores
  | withActor .zmqReceiver | withActor .czmqPpworker | cppSender | cppReceiver => fun s _ ↦ s

end Ubx.LifeCycle
