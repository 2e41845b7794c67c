import Ubx.LifeCycle.Blocks
import Mathlib.Data.List.Nodup

/-!
# What a block leaves behind

The blocks differ in what `init` and `start` make and in what `cleanup` takes back. From that
follows, for every run that ends where it began, which actors still run, what they work on, and
how many allocations nobody has released.
-/

namespace Ubx.LifeCycle

open Ubx.Base

/-- How the hooks of the blocks differ. -/
structure Traits where
  /-- `init` makes a socket. -/
  socketAtInit : Bool := false
  /-- `init` returns an error with the private data allocated if it gets no socket. -/
  leavesInfo : Bool := false
  /-- `start` makes an actor. -/
  startsActor : Bool := false
  /-- The actor makes a socket of its own. -/
  socketAtStart : Bool := false
  /-- `cleanup` destroys the socket. -/
  destroysSocket : Bool := false
  /-- `cleanup` destroys the actor. -/
  destroysActor : Bool := false
  /-- `init` makes a buffer. -/
  buffer : Bool := false
  /-- `cleanup` deletes it. -/
  deletesBuffer : Bool := false
  /-- `init` makes a context, and `cleanup` destroys it. -/
  context : Bool := false
  socketAtInit_of_destroysSocket : destroysSocket = true → socketAtInit = true := by simp
  socketAtStart_eq : startsActor = true → socketAtStart = !socketAtInit := by simp
  startsActor_of_socketAtStart : socketAtStart = true → startsActor = true := by simp

/-- The traits of the blocks. -/
def UbxBlock.traits : UbxBlock → Traits
  | withActor .zmqReceiver =>
    { socketAtInit := true, startsActor := true, destroysSocket := true, destroysActor := true }
  | withActor .zmqServer =>
    { socketAtInit := true, leavesInfo := true, startsActor := true, destroysActor := true,
      buffer := true, context := true }
  | withActor .czmqPpworker => { startsActor := true, socketAtStart := true }
  | zmqSender =>
    { socketAtInit := true, leavesInfo := true, destroysSocket := true, buffer := true,
      deletesBuffer := true }
  | sherpaMsg => { buffer := true, deletesBuffer := true }
  | cppSender | cppReceiver => { }

/-- How many starts directly follow a stop. -/
def restarts : List Call → Nat
  | c :: d :: calls => (if c = .stop ∧ d = .start then 1 else 0) + restarts (d :: calls)
  | _ => 0

/-- A call of `cleanup`. -/
def Call.isCleanup : Call → Bool
  | .cleanup _ => true
  | _ => false

namespace Traits

variable (T : Traits)

/-- Actors that nobody will end any more: all but the last of those started in one session, or
all of them. -/
def orphans (calls : List Call) : Nat :=
  if T.startsActor then if T.destroysActor then restarts calls else calls.count .start else 0

/-- How often `init` has failed with the private data allocated. -/
def abandoned (calls : List Call) : Nat := T.leavesInfo.toNat * calls.count (.init .noSocket)

/-- Private data and sockets that nobody has released: from a failed `init`, from `cleanup`,
and for the actors of `start`. -/
def unreleased (calls : List Call) : Nat :=
  T.abandoned calls +
    (T.socketAtInit && !T.destroysSocket).toNat * calls.countP Call.isCleanup +
    T.socketAtStart.toNat * calls.count .start

/-- Buffers and contexts behind some calls, while `held` blocks of private data are held. -/
def storesAt (calls : List Call) (held : Nat) : Stores where
  buffers := T.buffer.toNat *
    (T.abandoned calls + (!T.deletesBuffer).toNat * calls.countP Call.isCleanup + held)
  contexts := T.context.toNat * (T.abandoned calls + held)

end Traits

/-- The world after calls that have led the block back to where it began: everything is
released at most once, the orphans go on with freed private data, on a destroyed socket if
the socket goes with them, and all other allocations, buffers and contexts are accounted for. -/
structure UbxBlock.LeftBehind (block : UbxBlock) (calls : List Call) (w : World) : Prop where
  once : w.freed.Nodup ∧ w.destroyed.Nodup
  running : w.running.length = block.traits.orphans calls
  dangling : ∀ a ∈ w.running, a.info ∈ w.freed ∧
    ∃ s, a.socket = some s ∧ (s ∈ w.destroyed ↔ block.traits.destroysSocket = true)
  allocated : w.next = block.traits.startsActor.toNat * calls.count .start + w.freed.length +
    w.destroyed.length + block.traits.unreleased calls
  stores : calls.foldl block.stores ⟨0, 0⟩ = block.traits.storesAt calls 0

/-! ### The hooks by their traits -/

/-- Private data and world after a `start`. -/
def Traits.begun (T : Traits) (inf : Info) (w : World) : Info × World :=
  if T.startsActor then
    zactorNew (if T.socketAtStart then some w.next else inf.socket) inf
      { w with next := w.next + T.socketAtStart.toNat }
  else (inf, w)

/-- The world after a `cleanup` that returns. -/
def Traits.cleaned (T : Traits) (inf : Info) (w : World) : World where
  running := if T.destroysActor then w.running.filter (some ·.id ≠ inf.actor) else w.running
  freed := inf.id :: w.freed
  destroyed := if T.destroysSocket then inf.socket.toList ++ w.destroyed else w.destroyed
  next := w.next

/-- The hooks do what their traits say. -/
structure Hooks.Follows (H : Hooks) (T : Traits) : Prop where
  init_failed : ∀ {o w w'}, H.init o w = .failed w' →
    (o = .noMemory ∧ w' = w) ∨
      (o = .noSocket ∧ T.leavesInfo = true ∧ w' = { w with next := w.next + 1 })
  init_ready : ∀ {o w inf w'}, H.init o w = .ready inf w' →
    (o = .ok ∨ o = .noSocket ∧ T.leavesInfo = false) ∧
      inf = ⟨w.next, if T.socketAtInit then some (w.next + 1) else none, none⟩ ∧
      w' = { w with next := w.next + 1 + T.socketAtInit.toNat }
  start : ∀ inf w, H.start inf w = T.begun inf w
  stop : ∀ inf w, H.stop inf w = (inf, w)
  cleanup : ∀ r inf w, (H.cleanup r inf w).returned = true →
    (H.cleanup r inf w).world = T.cleaned inf w

/-- All that an actor function that returns can leave. -/
theorem zactorDestroy_of_returned {returns : Bool} {inf : Info} {w : World}
    (h : (zactorDestroy returns inf w).2.2 = true) :
    (zactorDestroy returns inf w).1.id = inf.id ∧
      (zactorDestroy returns inf w).2.1 =
        { w with running := w.running.filter (some ·.id ≠ inf.actor) } := by
  obtain ⟨id, socket, actor⟩ := inf
  cases actor with
  | none =>
    have hall : w.running.filter (some ·.id ≠ none) = w.running :=
      List.filter_eq_self.mpr fun _ _ ↦ rfl
    exact ⟨rfl, by rw [hall]; rfl⟩
  | some a =>
    cases returns with
    | false => simp [zactorDestroy] at h
    | true => simp [zactorDestroy]

/-- Destroying the socket adds it to the destroyed ones. -/
theorem zsockDestroy_snd (inf : Info) (w : World) :
    (zsockDestroy inf w).2 = { w with destroyed := inf.socket.toList ++ w.destroyed } := by
  cases h : inf.socket <;> simp [zsockDestroy, h]

/-- `zmq_receiver` follows its traits. -/
theorem follows_zmqReceiver : zmqReceiver.Follows (UbxBlock.withActor .zmqReceiver).traits where
  init_failed {o w w'} h := by
    cases o with
    | noMemory => exact .inl ⟨rfl, (InitResult.failed.inj h).symm⟩
    | noSocket => exact InitResult.noConfusion h
    | ok => exact InitResult.noConfusion h
  init_ready {o w inf w'} h := by
    cases o with
    | noMemory => exact InitResult.noConfusion h
    | noSocket => exact InitResult.noConfusion h
    | ok =>
      obtain ⟨rfl, rfl⟩ := InitResult.ready.inj h
      exact ⟨.inl rfl, rfl, rfl⟩
  start _ _ := rfl
  stop _ _ := rfl
  cleanup r inf w h := by
    have hsock := zsockDestroy_snd inf w
    obtain ⟨hid, hactor, -, -⟩ := zsockDestroy_fields inf w
    simp only [zmqReceiver, zmqReceiverCleanup] at h ⊢
    generalize zsockDestroy inf w = x at h hsock hid hactor ⊢
    obtain ⟨inf', w'⟩ := x
    simp only at hsock hid hactor h ⊢
    have hret : (zactorDestroy r inf' w').2.2 = true := by
      revert h
      split
      · intro _
        assumption
      · simp
    obtain ⟨hid', hw'⟩ := zactorDestroy_of_returned hret
    rw [if_pos hret]
    simp only [freeInfo, hid', hw', hid, hactor]
    rw [hsock]
    rfl

/-- `zmq_server` follows its traits. -/
theorem follows_zmqServer : zmqServer.Follows (UbxBlock.withActor .zmqServer).traits where
  init_failed {o w w'} h := by
    cases o with
    | noMemory => exact .inl ⟨rfl, (InitResult.failed.inj h).symm⟩
    | noSocket => exact .inr ⟨rfl, rfl, (InitResult.failed.inj h).symm⟩
    | ok => exact InitResult.noConfusion h
  init_ready {o w inf w'} h := by
    cases o with
    | noMemory => exact InitResult.noConfusion h
    | noSocket => exact InitResult.noConfusion h
    | ok =>
      obtain ⟨rfl, rfl⟩ := InitResult.ready.inj h
      exact ⟨.inl rfl, rfl, rfl⟩
  start _ _ := rfl
  stop _ _ := rfl
  cleanup r inf w h := by
    simp only [zmqServer, zmqServerCleanup] at h ⊢
    have hret : (zactorDestroy r inf w).2.2 = true := by
      revert h
      split
      · intro _
        assumption
      · simp
    obtain ⟨hid, hw⟩ := zactorDestroy_of_returned hret
    rw [if_pos hret]
    simp only [freeInfo, hid, hw]
    rfl

/-- `czmq_ppworker` follows its traits. -/
theorem follows_czmqPpworker : czmqPpworker.Follows (UbxBlock.withActor .czmqPpworker).traits where
  init_failed {o w w'} h := by
    cases o with
    | noMemory => exact .inl ⟨rfl, (InitResult.failed.inj h).symm⟩
    | noSocket => exact InitResult.noConfusion h
    | ok => exact InitResult.noConfusion h
  init_ready {o w inf w'} h := by
    cases o with
    | noMemory => exact InitResult.noConfusion h
    | noSocket =>
      obtain ⟨rfl, rfl⟩ := InitResult.ready.inj h
      exact ⟨.inr ⟨rfl, rfl⟩, rfl, rfl⟩
    | ok =>
      obtain ⟨rfl, rfl⟩ := InitResult.ready.inj h
      exact ⟨.inl rfl, rfl, rfl⟩
  start _ _ := rfl
  stop _ _ := rfl
  cleanup _ _ _ _ := rfl

/-- `zmq_sender` follows its traits. -/
theorem follows_zmqSender : zmqSender.Follows UbxBlock.zmqSender.traits where
  init_failed {o w w'} h := by
    cases o with
    | noMemory => exact .inl ⟨rfl, (InitResult.failed.inj h).symm⟩
    | noSocket => exact .inr ⟨rfl, rfl, (InitResult.failed.inj h).symm⟩
    | ok => exact InitResult.noConfusion h
  init_ready {o w inf w'} h := by
    cases o with
    | noMemory => exact InitResult.noConfusion h
    | noSocket => exact InitResult.noConfusion h
    | ok =>
      obtain ⟨rfl, rfl⟩ := InitResult.ready.inj h
      exact ⟨.inl rfl, rfl, rfl⟩
  start _ _ := rfl
  stop _ _ := rfl
  cleanup _ inf w _ := by
    simp only [zmqSender, zmqSenderCleanup, freeInfo, (zsockDestroy_fields inf w).1,
      zsockDestroy_snd]
    rfl

/-- A block without a socket follows the traits of one. -/
theorem follows_plainBlock {T : Traits} (hinit : T.socketAtInit = false)
    (hleaves : T.leavesInfo = false) (hstarts : T.startsActor = false)
    (hsocket : T.destroysSocket = false) (hactor : T.destroysActor = false) :
    plainBlock.Follows T where
  init_failed {o w w'} h := by
    cases o with
    | noMemory => exact .inl ⟨rfl, (InitResult.failed.inj h).symm⟩
    | noSocket => exact InitResult.noConfusion h
    | ok => exact InitResult.noConfusion h
  init_ready {o w inf w'} h := by
    cases o with
    | noMemory => exact InitResult.noConfusion h
    | noSocket =>
      obtain ⟨rfl, rfl⟩ := InitResult.ready.inj h
      exact ⟨.inr ⟨rfl, hleaves⟩, by rw [hinit]; rfl, by rw [hinit]; rfl⟩
    | ok =>
      obtain ⟨rfl, rfl⟩ := InitResult.ready.inj h
      exact ⟨.inl rfl, by rw [hinit]; rfl, by rw [hinit]; rfl⟩
  start _ _ := by rw [Traits.begun, hstarts]; rfl
  stop _ _ := rfl
  cleanup _ _ _ _ := by rw [Traits.cleaned, hsocket, hactor]; rfl

/-- All blocks follow their traits. -/
theorem follows_traits (block : UbxBlock) : block.hooks.Follows block.traits := by
  cases block with
  | withActor block =>
    cases block with
    | zmqReceiver => exact follows_zmqReceiver
    | zmqServer => exact follows_zmqServer
    | czmqPpworker => exact follows_czmqPpworker
  | zmqSender => exact follows_zmqSender
  | sherpaMsg | cppSender | cppReceiver => exact follows_plainBlock rfl rfl rfl rfl rfl

/-- Buffers and contexts by the traits. -/
def Traits.stored (T : Traits) : Stores → Call → Stores :=
  storeCall T.buffer T.deletesBuffer T.context

/-- Without buffer and context nothing is stored. -/
theorem storeCall_false (deletes : Bool) (s : Stores) (c : Call) :
    storeCall false deletes false s c = s := by
  cases c with
  | init o => cases o <;> rfl
  | start | stop | cleanup => rfl

/-- All blocks make and release them as their traits say. -/
theorem stores_eq_stored (block : UbxBlock) : block.stores = block.traits.stored := by
  cases block with
  | withActor block =>
    cases block with
    | zmqReceiver | czmqPpworker => exact funext₂ fun s c ↦ (storeCall_false _ s c).symm
    | zmqServer => rfl
  | zmqSender | sherpaMsg => rfl
  | cppSender | cppReceiver => exact funext₂ fun s c ↦ (storeCall_false _ s c).symm

/-! ### The books of a run -/

/-- One more call is a restart if it is a start and a stop comes before it. -/
theorem restarts_concat (calls : List Call) (c : Call) :
    restarts (calls ++ [c]) =
      restarts calls + if calls.getLast? = some .stop ∧ c = .start then 1 else 0 := by
  induction calls with
  | nil => simp [restarts]
  | cons d calls ih =>
    cases calls with
    | nil => simp [restarts]
    | cons e calls =>
      simp only [List.cons_append, restarts, List.getLast?_cons_cons] at ih ⊢
      omega

namespace Traits

variable {T : Traits} {calls : List Call}

/-- Only a start adds an orphan. -/
theorem orphans_concat (calls : List Call) (c : Call) :
    T.orphans (calls ++ [c]) = T.orphans calls +
      if T.startsActor = true ∧ (T.destroysActor = true → calls.getLast? = some .stop) ∧
        c = .start then 1 else 0 := by
  unfold orphans
  cases T.startsActor with
  | false => simp
  | true =>
    cases T.destroysActor with
    | true => simp [restarts_concat]
    | false => simp [List.count_append, List.count_singleton]

/-- Only a failed `init` abandons its private data. -/
theorem abandoned_concat (calls : List Call) (c : Call) :
    T.abandoned (calls ++ [c]) =
      T.abandoned calls + if c = .init .noSocket then T.leavesInfo.toNat else 0 := by
  simp only [abandoned, List.count_append, List.count_singleton, beq_iff_eq, Nat.mul_add]
  split <;> simp

/-- One more call is a cleanup or is not. -/
theorem cleanups_concat (calls : List Call) (c : Call) :
    (calls ++ [c]).countP Call.isCleanup = calls.countP Call.isCleanup + c.isCleanup.toNat := by
  rw [List.countP_append, List.countP_singleton]
  cases c.isCleanup <;> rfl

/-- One more call is a start or is not. -/
theorem starts_concat (calls : List Call) (c : Call) :
    (calls ++ [c]).count .start = calls.count .start + if c = .start then 1 else 0 := by
  simp only [List.count_append, List.count_singleton, beq_iff_eq]

/-- The allocations that the block holds. -/
def held (T : Traits) : Option Info → Nat
  | none => 0
  | some _ => 1 + T.socketAtInit.toNat

/-- The private data that the block holds: neither they nor their socket are released. -/
structure Holds (T : Traits) (inf : Info) (w : World) : Prop where
  id_fresh : inf.id ∉ w.freed
  id_lt : inf.id < w.next
  socket : inf.socket.isSome = T.socketAtInit
  socket_fresh : ∀ s, inf.socket = some s → s ∉ w.destroyed ∧ s < w.next
  actor : ∀ a, inf.actor = some a → a ∈ w.running.map (·.id)

/-- An actor works on freed private data, or on those that the block holds. -/
def Works (T : Traits) (w : World) (inf : Option Info) (a : Actor) : Prop :=
  ∃ s, a.socket = some s ∧
    ((a.info ∈ w.freed ∧ (s ∈ w.destroyed ↔ T.destroysSocket = true)) ∨
      ∃ i, inf = some i ∧ a.info = i.id ∧ s ∉ w.destroyed ∧
        (T.destroysSocket = true → i.socket = some s))

/-- The books behind `calls`, with the private data that the block holds. -/
structure Books (T : Traits) (calls : List Call) (inf : Option Info) (w : World) : Prop where
  numbered : w.Numbered
  once : w.freed.Nodup ∧ w.destroyed.Nodup
  ids : (w.running.map (·.id)).Nodup
  ids_lt : ∀ a ∈ w.running, a.id < w.next
  running : w.running.length =
    T.orphans calls + (T.destroysActor && (inf.bind (·.actor)).isSome).toNat
  works : ∀ a ∈ w.running, T.Works w inf a
  holds : ∀ i, inf = some i → T.Holds i w
  allocated : w.next = T.startsActor.toNat * calls.count .start + w.freed.length +
    w.destroyed.length + T.unreleased calls + T.held inf
  stores : calls.foldl T.stored ⟨0, 0⟩ = T.storesAt calls inf.isSome.toNat

/-- At the beginning the books are empty. -/
theorem books_nil : T.Books [] none ⟨[], [], [], 0⟩ where
  numbered := ⟨by simp, by simp⟩
  once := ⟨List.nodup_nil, List.nodup_nil⟩
  ids := List.nodup_nil
  ids_lt := by simp
  running := by simp [orphans, restarts]
  works := by simp
  holds := by simp
  allocated := by simp [unreleased, abandoned, held]
  stores := by simp [storesAt, abandoned]

/-- An `init` that succeeds abandons nothing. -/
theorem abandoned_of_ready {o : InitOutcome}
    (ho : o = .ok ∨ o = .noSocket ∧ T.leavesInfo = false) :
    T.abandoned (calls ++ [.init o]) = T.abandoned calls + 0 := by
  rcases ho with rfl | ⟨rfl, hleaves⟩
  · simp [abandoned_concat]
  · simp [abandoned_concat, hleaves]

/-- Calls that make or release nothing leave the stores. -/
theorem stored_of_idle {c : Call} (hc : c = .init .noMemory ∨ c = .start ∨ c = .stop) (k : Nat) :
    T.stored (T.storesAt calls k) c = T.storesAt (calls ++ [c]) k := by
  rcases hc with rfl | rfl | rfl <;>
    simp [stored, storeCall, storesAt, abandoned_concat, Call.isCleanup]

/-- An `init` that gets its private data keeps them or abandons them. -/
theorem stored_init {o : InitOutcome} (ho : o ≠ .noMemory) {k k' n : Nat}
    (hn : T.abandoned (calls ++ [.init o]) = T.abandoned calls + n) (hk : n + k' = k + 1) :
    T.stored (T.storesAt calls k) (.init o) = T.storesAt (calls ++ [.init o]) k' := by
  have hstore : T.stored (T.storesAt calls k) (.init o) =
      ⟨(T.storesAt calls k).buffers + T.buffer.toNat,
        (T.storesAt calls k).contexts + T.context.toNat⟩ := by
    cases o with
    | noMemory => exact absurd rfl ho
    | noSocket | ok => rfl
  rw [hstore]
  simp only [storesAt, hn, cleanups_concat, Call.isCleanup, Bool.toNat_false, Nat.add_zero,
    Stores.mk.injEq]
  cases T.buffer <;> cases T.context <;> simp <;> omega

/-- A `cleanup` takes back what belongs to the private data, or leaves the buffer. -/
theorem stored_cleanup (r : Bool) :
    T.stored (T.storesAt calls 1) (.cleanup r) = T.storesAt (calls ++ [.cleanup r]) 0 := by
  simp only [stored, storeCall, storesAt, abandoned_concat, cleanups_concat, Call.isCleanup,
    Stores.mk.injEq]
  cases T.buffer <;> cases T.context <;> cases T.deletesBuffer <;> simp <;> omega

/-- An `init` that fails. -/
theorem Books.failed {w : World} (h : T.Books calls none w) {o : InitOutcome} {w' : World}
    (hw : (o = .noMemory ∧ w' = w) ∨
      (o = .noSocket ∧ T.leavesInfo = true ∧ w' = { w with next := w.next + 1 })) :
    T.Books (calls ++ [.init o]) none w' := by
  obtain ⟨n, hn, ho, rfl⟩ : ∃ n, T.abandoned (calls ++ [.init o]) = T.abandoned calls + n ∧
      (o = .noMemory ∨ o ≠ .noMemory ∧ n = 1) ∧ w' = { w with next := w.next + n } := by
    rcases hw with ⟨rfl, rfl⟩ | ⟨rfl, hleaves, rfl⟩
    · exact ⟨0, by simp [abandoned_concat], .inl rfl, rfl⟩
    · exact ⟨1, by simp [abandoned_concat, hleaves], .inr ⟨by simp, rfl⟩, rfl⟩
  exact {
    numbered := ⟨fun i hi ↦ Nat.lt_add_right _ (h.numbered.freed i hi),
      fun s hs ↦ Nat.lt_add_right _ (h.numbered.destroyed s hs)⟩
    once := h.once
    ids := h.ids
    ids_lt := fun a ha ↦ Nat.lt_add_right _ (h.ids_lt a ha)
    running := by simpa [orphans_concat] using h.running
    works := h.works
    holds := fun i hi ↦ absurd hi (by simp)
    allocated := by
      have := h.allocated
      simp only [unreleased, hn, cleanups_concat, starts_concat, Call.isCleanup, reduceCtorEq,
        if_false, Bool.toNat_false, Nat.add_zero] at this ⊢
      omega
    stores := by
      rw [List.foldl_append, h.stores]
      rcases ho with rfl | ⟨ho, rfl⟩
      · exact stored_of_idle (.inl rfl) _
      · exact stored_init ho hn rfl }

/-- An `init` that succeeds. -/
theorem Books.ready {w : World} (h : T.Books calls none w) {o : InitOutcome}
    (ho : o = .ok ∨ o = .noSocket ∧ T.leavesInfo = false) :
    T.Books (calls ++ [.init o])
      (some ⟨w.next, if T.socketAtInit then some (w.next + 1) else none, none⟩)
      { w with next := w.next + 1 + T.socketAtInit.toNat } where
  numbered := ⟨fun i hi ↦ Nat.lt_add_right _ (Nat.lt_succ_of_lt (h.numbered.freed i hi)),
    fun s hs ↦ Nat.lt_add_right _ (Nat.lt_succ_of_lt (h.numbered.destroyed s hs))⟩
  once := h.once
  ids := h.ids
  ids_lt a ha := Nat.lt_add_right _ (Nat.lt_succ_of_lt (h.ids_lt a ha))
  running := by simpa [orphans_concat] using h.running
  works a ha := by
    obtain ⟨s, hs, hworks | ⟨i, hi, -⟩⟩ := h.works a ha
    · exact ⟨s, hs, .inl hworks⟩
    · exact absurd hi (by simp)
  holds i hi := by
    obtain rfl := Option.some.inj hi
    refine ⟨fun hm ↦ absurd (h.numbered.freed _ hm) (Nat.lt_irrefl _), ?_, ?_, ?_, ?_⟩
    · show w.next < w.next + 1 + T.socketAtInit.toNat
      omega
    · cases T.socketAtInit <;> rfl
    · intro s hs
      cases hsock : T.socketAtInit with
      | false => simp [hsock] at hs
      | true =>
        simp only [hsock, if_true, Option.some.injEq] at hs
        subst hs
        exact ⟨fun hm ↦ absurd (h.numbered.destroyed _ hm) (by omega), by simp⟩
    · simp
  allocated := by
    have hn : T.abandoned (calls ++ [.init o]) = T.abandoned calls + 0 := abandoned_of_ready ho
    have := h.allocated
    simp only [unreleased, hn, cleanups_concat, starts_concat, Call.isCleanup, reduceCtorEq,
      if_false, Bool.toNat_false, Nat.add_zero, held] at this ⊢
    omega
  stores := by
    have hne : o ≠ .noMemory := by
      rcases ho with rfl | ⟨rfl, -⟩ <;> simp
    rw [List.foldl_append, h.stores]
    exact stored_init hne (abandoned_of_ready ho) (Nat.zero_add _)

/-- A `start`, behind a `stop` exactly if the block has an actor already. -/
theorem Books.started {inf : Info} {w : World} (h : T.Books calls (some inf) w)
    (hlast : T.startsActor = true → (calls.getLast? = some .stop ↔ inf.actor.isSome = true)) :
    T.Books (calls ++ [.start]) (some (T.begun inf w).1) (T.begun inf w).2 := by
  have hinf := h.holds inf rfl
  have hstores : (calls ++ [Call.start]).foldl T.stored ⟨0, 0⟩ =
      T.storesAt (calls ++ [.start]) 1 := by
    rw [List.foldl_append, h.stores]
    exact stored_of_idle (.inr (.inl rfl)) _
  cases hstarts : T.startsActor with
  | false =>
    have hsocket : T.socketAtStart = false := by
      have := T.startsActor_of_socketAtStart
      simpa [hstarts] using this
    have hbegun : T.begun inf w = (inf, w) := by simp only [begun, hstarts]; rfl
    rw [hbegun]
    exact { h with
      running := by simpa [orphans_concat, hstarts] using h.running
      allocated := by
        have := h.allocated
        simp only [unreleased, abandoned_concat, cleanups_concat, starts_concat, hstarts, hsocket,
          Call.isCleanup, reduceCtorEq, if_false, Bool.toNat_false, Nat.add_zero,
          Nat.zero_mul] at this ⊢
        exact this
      stores := hstores }
  | true =>
    have hatStart := T.socketAtStart_eq hstarts
    obtain ⟨s, hs, hfresh, hlt, hown⟩ : ∃ s,
        (if T.socketAtStart = true then some w.next else inf.socket) = some s ∧
          s ∉ w.destroyed ∧ s < w.next + 1 ∧
          (T.destroysSocket = true → inf.socket = some s) := by
      cases hsock : T.socketAtInit with
      | true =>
        obtain ⟨s, hs⟩ := Option.isSome_iff_exists.mp (hinf.socket.trans hsock)
        obtain ⟨hfresh, hlt⟩ := hinf.socket_fresh s hs
        exact ⟨s, by simpa [hatStart, hsock] using hs, hfresh, by omega, fun _ ↦ hs⟩
      | false =>
        refine ⟨w.next, by simp [hatStart, hsock], fun hm ↦ ?_, Nat.lt_succ_self _, fun hd ↦ ?_⟩
        · exact absurd (h.numbered.destroyed _ hm) (Nat.lt_irrefl _)
        · exact absurd (T.socketAtInit_of_destroysSocket hd) (by simp [hsock])
    have hbegun : T.begun inf w =
        zactorNew (some s) inf { w with next := w.next + T.socketAtStart.toNat } := by
      simp only [begun, hstarts, if_true, hs]
    rw [hbegun]
    have hgrow : ∀ {n}, n < w.next → n < w.next + T.socketAtStart.toNat + 1 := by
      intro n hn
      omega
    exact {
      numbered := ⟨fun i hi ↦ hgrow (h.numbered.freed i hi),
        fun s hs ↦ hgrow (h.numbered.destroyed s hs)⟩
      once := h.once
      ids := by
        simp only [zactorNew, List.map_append, List.map_cons, List.map_nil]
        refine List.nodup_append.mpr ⟨h.ids, List.nodup_singleton _, ?_⟩
        intro x hx y hy he
        obtain ⟨a, ha, rfl⟩ := List.mem_map.mp hx
        have := h.ids_lt a ha
        have := List.mem_singleton.mp hy
        omega
      ids_lt := by
        intro a ha
        rcases List.mem_append.mp ha with ha | ha
        · exact hgrow (h.ids_lt a ha)
        · obtain rfl := List.mem_singleton.mp ha
          exact Nat.lt_succ_self _
      running := by
        have := h.running
        simp only [zactorNew, List.length_append, List.length_cons, List.length_nil,
          Option.bind_some, Option.isSome_some, Bool.and_true, orphans_concat, hstarts,
          hlast hstarts] at this ⊢
        cases hd : T.destroysActor <;> cases ha : inf.actor <;> simp [hd, ha] at this ⊢ <;> omega
      works := by
        intro a ha
        rcases List.mem_append.mp ha with ha | ha
        · obtain ⟨s', hs', hworks | ⟨i, hi, hworks⟩⟩ := h.works a ha
          · exact ⟨s', hs', .inl hworks⟩
          · obtain rfl := Option.some.inj hi
            exact ⟨s', hs', .inr ⟨_, rfl, hworks⟩⟩
        · obtain rfl := List.mem_singleton.mp ha
          exact ⟨s, rfl, .inr ⟨_, rfl, rfl, hfresh, hown⟩⟩
      holds := by
        intro i hi
        obtain rfl := Option.some.inj hi
        refine ⟨hinf.id_fresh, hgrow hinf.id_lt, hinf.socket, ?_, ?_⟩
        · intro s hs
          obtain ⟨hfresh, hlt⟩ := hinf.socket_fresh s hs
          exact ⟨hfresh, hgrow hlt⟩
        · intro a ha
          obtain rfl := Option.some.inj ha
          simp [zactorNew]
      allocated := by
        have := h.allocated
        simp only [zactorNew, unreleased, abandoned_concat, cleanups_concat, starts_concat,
          hstarts, Call.isCleanup, reduceCtorEq, if_true, if_false, Bool.toNat_false,
          Bool.toNat_true, Nat.add_zero, Nat.one_mul, Nat.mul_add, Nat.mul_one, held] at this ⊢
        omega
      stores := hstores }

/-- A `stop`, which does nothing. -/
theorem Books.stopped {inf : Option Info} {w : World} (h : T.Books calls inf w) :
    T.Books (calls ++ [.stop]) inf w :=
  { h with
    running := by simpa [orphans_concat] using h.running
    allocated := by
      simpa [unreleased, abandoned_concat, cleanups_concat, starts_concat, Call.isCleanup]
        using h.allocated
    stores := by
      rw [List.foldl_append, h.stores]
      exact stored_of_idle (.inr (.inr rfl)) _ }

/-- Without the actor of the block one actor is missing, if it has one. -/
theorem length_filter_actor {running : List Actor} {actor : Option Nat}
    (ids : (running.map (·.id)).Nodup) (h : ∀ a, actor = some a → a ∈ running.map (·.id)) :
    (running.filter (some ·.id ≠ actor)).length + actor.isSome.toNat = running.length := by
  cases actor with
  | none => simp
  | some a =>
    have hone : (running.map (·.id)).count a = 1 := List.count_eq_one_of_mem ids (h a rfl)
    rw [List.count, List.countP_map] at hone
    have hsplit := List.length_eq_countP_add_countP (l := running) ((· == a) ∘ (·.id))
    rw [hone, List.countP_eq_length_filter] at hsplit
    simp only [Function.comp_apply, beq_iff_eq, decide_not, ne_eq, Option.some.injEq,
      Option.isSome_some, Bool.toNat_true] at hsplit ⊢
    omega

/-- A `cleanup` that returns. -/
theorem Books.cleaned {inf : Info} {w : World} (h : T.Books calls (some inf) w) (r : Bool) :
    T.Books (calls ++ [.cleanup r]) none (T.cleaned inf w) := by
  have hinf := h.holds inf rfl
  have hsub : ∀ a ∈ (T.cleaned inf w).running, a ∈ w.running := by
    intro a ha
    simp only [Traits.cleaned] at ha
    split at ha
    · exact (List.mem_filter.mp ha).1
    · exact ha
  have hdestroyed : ∀ s, s ∈ (T.cleaned inf w).destroyed ↔
      (T.destroysSocket = true ∧ inf.socket = some s) ∨ s ∈ w.destroyed := by
    intro s
    cases hd : T.destroysSocket <;> simp [Traits.cleaned, hd]
  exact {
    numbered := by
      refine ⟨fun i hi ↦ ?_, fun s hs ↦ ?_⟩
      · rcases List.mem_cons.mp hi with rfl | hi
        · exact hinf.id_lt
        · exact h.numbered.freed i hi
      · rcases (hdestroyed s).mp hs with ⟨-, hs⟩ | hs
        · exact (hinf.socket_fresh s hs).2
        · exact h.numbered.destroyed s hs
    once := by
      refine ⟨List.nodup_cons.mpr ⟨hinf.id_fresh, h.once.1⟩, ?_⟩
      simp only [Traits.cleaned]
      split
      · cases hs : inf.socket with
        | none => exact h.once.2
        | some s => exact List.nodup_cons.mpr ⟨(hinf.socket_fresh s hs).1, h.once.2⟩
      · exact h.once.2
    ids := by
      simp only [Traits.cleaned]
      split
      · exact h.ids.sublist (List.filter_sublist.map _)
      · exact h.ids
    ids_lt := fun a ha ↦ h.ids_lt a (hsub a ha)
    running := by
      have := h.running
      simp only [Option.bind_some] at this
      simp only [orphans_concat, reduceCtorEq, and_false, if_false, Option.bind_none,
        Option.isSome_none, Bool.and_false, Bool.toNat_false, Nat.add_zero, Traits.cleaned]
      cases hd : T.destroysActor with
      | false => simpa [hd] using this
      | true =>
        have hlength := length_filter_actor h.ids hinf.actor
        simp only [hd, if_true, Bool.true_and] at this ⊢
        omega
    works := by
      intro a ha
      obtain ⟨s, hs, hworks⟩ := h.works a (hsub a ha)
      refine ⟨s, hs, .inl ?_⟩
      rw [hdestroyed]
      rcases hworks with ⟨hfreed, hiff⟩ | ⟨i, hi, hinfo, hfresh, hown⟩
      · exact ⟨List.mem_cons_of_mem _ hfreed, fun hs ↦ hs.elim (·.1) hiff.mp,
          fun hd ↦ .inr (hiff.mpr hd)⟩
      · obtain rfl := Option.some.inj hi
        refine ⟨hinfo ▸ List.mem_cons_self, fun hs ↦ ?_, fun hd ↦ .inl ⟨hd, hown hd⟩⟩
        exact hs.elim (·.1) fun hm ↦ absurd hm hfresh
    holds := fun i hi ↦ absurd hi (by simp)
    allocated := by
      have hlength : (T.cleaned inf w).destroyed.length +
          (T.socketAtInit && !T.destroysSocket).toNat =
            w.destroyed.length + T.socketAtInit.toNat := by
        cases hd : T.destroysSocket with
        | false => simp [Traits.cleaned, hd]
        | true =>
          have hmade := T.socketAtInit_of_destroysSocket hd
          obtain ⟨s, hs⟩ := Option.isSome_iff_exists.mp (hinf.socket.trans hmade)
          simp [Traits.cleaned, hd, hs, hmade]
      have := h.allocated
      simp only [unreleased, abandoned_concat, cleanups_concat, starts_concat, Call.isCleanup,
        reduceCtorEq, if_false, Bool.toNat_true, Nat.add_zero, Nat.mul_add, Nat.mul_one,
        held] at this ⊢
      simp only [Traits.cleaned, List.length_cons] at hlength ⊢
      omega
    stores := by
      rw [List.foldl_append, h.stores]
      exact stored_cleanup r }

end Traits

/-- The private data that a block holds. -/
def Phase.info : Phase → Option Info
  | .inactive inf | .active inf => some inf
  | .preinit | .stuck => none

/-- The books are right in every state but the one in which `cleanup` hangs. -/
structure Kept (T : Traits) (calls : List Call) (b : Block) : Prop where
  books : b.phase ≠ .stuck → T.Books calls b.phase.info b.world
  stopped : T.startsActor = true → ∀ inf, b.phase = .inactive inf →
    (calls.getLast? = some .stop ↔ inf.actor.isSome = true)
  active : T.startsActor = true → ∀ inf, b.phase = .active inf → inf.actor.isSome = true

/-- One call keeps the books. -/
theorem Kept.call {H : Hooks} {T : Traits} (hH : H.Follows T) {calls : List Call} {b : Block}
    (h : Kept T calls b) {c : Call} {r : List Block × Block} (hr : H.call b c = .ok r) :
    Kept T (calls ++ [c]) r.2 := by
  obtain ⟨phase, w⟩ := b
  obtain ⟨hbooks, hstopped, hactive⟩ := h
  rcases Hooks.call_cases hr with ⟨o, w', rfl, hp, hi, rfl⟩ |
    ⟨o, inf, w', rfl, hp, hi, rfl⟩ | ⟨inf, rfl, hp, rfl⟩ | ⟨inf, rfl, hp, rfl⟩ |
    ⟨inf, returns, rfl, hp, rfl⟩ <;>
    simp only at hp <;> subst hp
  · exact ⟨fun _ ↦ (hbooks (by simp)).failed (hH.init_failed hi), by simp, by simp⟩
  · obtain ⟨ho, rfl, rfl⟩ := hH.init_ready hi
    refine ⟨fun _ ↦ (hbooks (by simp)).ready ho, fun _ i hp ↦ ?_, by simp⟩
    obtain rfl := Phase.inactive.inj hp
    simp
  · refine ⟨fun _ ↦ ?_, by simp, fun hs i hp ↦ ?_⟩
    · rw [hH.start]
      exact (hbooks (by simp)).started fun hs ↦ hstopped hs inf rfl
    · obtain rfl := Phase.active.inj hp
      rw [hH.start, Traits.begun, if_pos hs]
      rfl
  · rw [hH.stop]
    refine ⟨fun _ ↦ (hbooks (by simp)).stopped, fun hs i hp ↦ ?_, by simp⟩
    obtain rfl := Phase.inactive.inj hp
    simpa using hactive hs inf rfl
  · cases hret : (H.cleanup returns inf w).returned with
    | false => exact ⟨by simp, by simp, by simp⟩
    | true =>
      simp only [if_true, hH.cleanup _ _ _ hret]
      exact ⟨fun _ ↦ (hbooks (by simp)).cleaned returns, by simp, by simp⟩

/-- A run keeps the books. -/
theorem kept_of_run {H : Hooks} {T : Traits} (hH : H.Follows T) {calls : List Call} {h : History}
    (hr : (lifeCycle H).run .start calls = .ok h) : Kept T calls h.now := by
  refine Machine.run_history (P := fun calls h ↦ Kept T calls h.now) ?_ ?_ hr
  · exact ⟨fun _ ↦ Traits.books_nil, by simp [History.start], by simp [History.start]⟩
  · intro calls h₁ c h₂ _ ih hs
    obtain ⟨r, hcall, hnow, -⟩ := lifeCycle_step hs
    exact hnow ▸ ih.call hH hcall

/-- What a run of the life cycle that ends where it began leaves behind: the starts of a
receiver or server that directly follow a stop, and all starts of a worker, leave an actor that
goes on with freed private data; a receiver's works on a destroyed socket. Apart from the actors
a server leaves one socket and one buffer for each `cleanup`, and like a sender its private
data with all that `init` has made for each `init` without a socket; a worker leaves one socket
for each start, and the other blocks leave nothing. -/
theorem left_behind (block : UbxBlock) {calls : List Call} {h : History}
    (hr : (lifeCycle block.hooks).run .start calls = .ok h) (hp : h.now.phase = .preinit) :
    block.LeftBehind calls h.now.world := by
  have hbooks : block.traits.Books calls none h.now.world := by
    have := (kept_of_run (follows_traits block) hr).books (by simp [hp])
    rwa [hp] at this
  refine ⟨hbooks.once, ?_, fun a ha ↦ ?_, ?_, ?_⟩
  · simpa using hbooks.running
  · obtain ⟨s, hs, hworks | ⟨i, hi, -⟩⟩ := hbooks.works a ha
    · exact ⟨hworks.1, s, hs, hworks.2⟩
    · exact absurd hi (by simp)
  · simpa [Traits.held] using hbooks.allocated
  · rw [stores_eq_stored]
    exact hbooks.stores

/-- A server that is started twice and cleaned up, after an `init` without a socket: one
actor, one socket, private data, two buffers and a context are left. -/
theorem left_behind_server :
    ∃ h, (lifeCycle (UbxBlock.withActor .zmqServer).hooks).run .start
        [.init .noSocket, .init .ok, .start, .stop, .start, .stop, .cleanup true] = .ok h ∧
      h.now.world.running = [⟨3, 1, some 2⟩] ∧
      (UbxBlock.withActor .zmqServer).LeftBehind
        [.init .noSocket, .init .ok, .start, .stop, .start, .stop, .cleanup true] h.now.world :=
  ⟨_, rfl, rfl, left_behind (.withActor .zmqServer) rfl rfl⟩

end Ubx.LifeCycle
