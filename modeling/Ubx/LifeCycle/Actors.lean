import Ubx.LifeCycle.Hooks

/-!
# Who owns an actor

The stop hooks of the ZeroMQ blocks leave the actor running. Whatever else a run does,
its states are as the life cycle wants them exactly if `stop` was never called.
-/

namespace Ubx.LifeCycle

open Ubx.Base

/-- The blocks of the two packages that have an actor. -/
inductive ZmqBlock
  | zmqReceiver
  | zmqServer
  | czmqPpworker
  deriving DecidableEq

/-- Their hooks. -/
def ZmqBlock.hooks : ZmqBlock → Hooks
  | zmqReceiver => LifeCycle.zmqReceiver
  | zmqServer => LifeCycle.zmqServer
  | czmqPpworker => LifeCycle.czmqPpworker

/-- Whether a block is started. -/
def Block.started (b : Block) : Prop := ∃ inf, b.phase = .active inf

/-- One actor while the block is started and none otherwise, and no actor on released
memory or a destroyed socket. -/
structure Safe (b : Block) : Prop where
  atMostOne : b.world.running.length ≤ 1
  one_iff_started : b.world.running.length = 1 ↔ b.started
  none_after_cleanup : b.phase = .preinit → b.world.running = []
  alive : ∀ a ∈ b.world.running, a.info ∉ b.world.freed ∧
    ∀ s, a.socket = some s → s ∉ b.world.destroyed

/-- Released allocations have a number below the next one. -/
structure World.Numbered (w : World) : Prop where
  freed : ∀ i ∈ w.freed, i < w.next
  destroyed : ∀ s ∈ w.destroyed, s < w.next

/-- Private data `inf` has just been allocated. -/
structure ReadyIn (w w' : World) (inf : Info) : Prop where
  numbered : w'.Numbered
  running_eq : w'.running = w.running
  actor_eq : inf.actor = none
  id_fresh : inf.id ∉ w'.freed
  id_lt : inf.id < w'.next
  socket_fresh : ∀ s, inf.socket = some s → s ∉ w'.destroyed ∧ s < w'.next

/-- An actor on `inf` has just been started. -/
structure StartedIn (w w' : World) (inf : Info) (a : Actor) : Prop where
  numbered : w'.Numbered
  freed_eq : w'.freed = w.freed
  destroyed_eq : w'.destroyed = w.destroyed
  running_eq : w'.running = w.running ++ [a]
  info_eq : a.info = inf.id
  socket_old_or_new : ∀ s, a.socket = some s → inf.socket = some s ∨ w.next ≤ s

/-- What the hooks of a block do as long as `stop` is not called. -/
structure Hooks.Plain (H : Hooks) : Prop where
  init_failed : ∀ {o w w'}, H.init o w = .failed w' → w.Numbered →
    w'.Numbered ∧ w'.running = w.running
  init_ready : ∀ {o w inf w'}, H.init o w = .ready inf w' → w.Numbered → ReadyIn w w' inf
  start : ∀ {inf w}, w.Numbered → ∃ a, StartedIn w (H.start inf w).2 inf a
  start_running : ∀ inf w, (H.start inf w).2.running ≠ []
  stop : ∀ inf w, H.stop inf w = (inf, w)
  cleanup : ∀ {r inf w}, w.Numbered → inf.actor = none → inf.id < w.next →
    (∀ s, inf.socket = some s → s < w.next) →
    (H.cleanup r inf w).returned = true ∧ (H.cleanup r inf w).world.Numbered ∧
      (H.cleanup r inf w).world.running = w.running ∧
      ∀ w' ∈ (H.cleanup r inf w).passed, w'.running = w.running

/-- A state of a run without `stop`. -/
def Calm (b : Block) : Prop :=
  b.world.Numbered ∧
    match b.phase with
    | .preinit => b.world.running = []
    | .inactive inf => b.world.running = [] ∧ inf.actor = none ∧ inf.id ∉ b.world.freed ∧
        inf.id < b.world.next ∧
        ∀ s, inf.socket = some s → s ∉ b.world.destroyed ∧ s < b.world.next
    | .active _ => ∃ a, b.world.running = [a] ∧ a.info ∉ b.world.freed ∧
        ∀ s, a.socket = some s → s ∉ b.world.destroyed
    | .stuck => False

/-- A state without running actors is safe if the block is not started. -/
theorem safe_of_idle {b : Block} (hrun : b.world.running = []) (hs : ¬ b.started) : Safe b where
  atMostOne := by simp [hrun]
  one_iff_started := iff_of_false (by simp [hrun]) hs
  none_after_cleanup _ := hrun
  alive := by simp [hrun]

/-- Calm states are safe. -/
theorem Calm.safe {b : Block} (h : Calm b) : Safe b := by
  obtain ⟨phase, w⟩ := b
  obtain ⟨-, h⟩ := h
  cases phase with
  | preinit => exact safe_of_idle h (by simp [Block.started])
  | inactive inf => exact safe_of_idle h.1 (by simp [Block.started])
  | active inf =>
    obtain ⟨a, hrun, hfreed, hsock⟩ := h
    simp only at hrun
    exact {
      atMostOne := by simp [hrun]
      one_iff_started := iff_of_true (by simp [hrun]) ⟨inf, rfl⟩
      none_after_cleanup := fun hp ↦ by simp at hp
      alive := by
        intro x hx
        simp only [hrun, List.mem_singleton] at hx
        exact hx ▸ ⟨hfreed, hsock⟩ }
  | stuck => exact h.elim

/-- Every call but `stop` keeps a state calm and passes only safe states. -/
theorem Calm.call {H : Hooks} (hH : H.Plain) {b : Block} (h : Calm b) {c : Call}
    (hc : c ≠ .stop) {r : List Block × Block} (hr : H.call b c = .ok r) :
    Calm r.2 ∧ ∀ b' ∈ r.1, Safe b' := by
  obtain ⟨hnum, h⟩ := h
  rcases Hooks.call_cases hr with ⟨o, w, rfl, hp, hi, rfl⟩ | ⟨o, inf, w, rfl, hp, hi, rfl⟩ |
    ⟨inf, rfl, hp, rfl⟩ | ⟨inf, rfl, hp, rfl⟩ | ⟨inf, returns, rfl, hp, rfl⟩ <;>
    simp only [hp] at h
  · obtain ⟨hnum', hrun⟩ := hH.init_failed hi hnum
    exact ⟨⟨hnum', hrun.trans h⟩, by simp⟩
  · have hready := hH.init_ready hi hnum
    exact ⟨⟨hready.numbered, hready.running_eq.trans h, hready.actor_eq, hready.id_fresh,
      hready.id_lt, hready.socket_fresh⟩, by simp⟩
  · obtain ⟨hrun, -, hid, -, hsock⟩ := h
    obtain ⟨a, ha⟩ : ∃ a, StartedIn b.world (H.start inf b.world).2 inf a := hH.start hnum
    refine ⟨⟨ha.numbered, a, ?_, ?_, fun s hs ↦ ?_⟩, by simp⟩
    · rw [ha.running_eq, hrun, List.nil_append]
    · rw [ha.freed_eq, ha.info_eq]
      exact hid
    · rw [ha.destroyed_eq]
      rcases ha.socket_old_or_new s hs with hs | hs
      · exact (hsock s hs).1
      · exact fun hmem ↦ absurd (hnum.destroyed s hmem) (Nat.not_lt.mpr hs)
  · exact absurd rfl hc
  · obtain ⟨hrun, hactor, -, hid, hsock⟩ := h
    obtain ⟨hret, hnum', hrun', hpassed⟩ :=
      hH.cleanup (r := returns) hnum hactor hid fun s hs ↦ (hsock s hs).2
    refine ⟨⟨hnum', ?_⟩, fun b' hb' ↦ ?_⟩
    · simp only [hret, ↓reduceIte]
      exact hrun'.trans hrun
    · obtain ⟨w', hw', rfl⟩ := List.mem_map.mp hb'
      exact safe_of_idle ((hpassed w' hw').trans hrun) (by simp [Block.started])

/-- A run without `stop` passes only safe states. -/
theorem safe_of_no_stop {H : Hooks} (hH : H.Plain) {calls : List Call} {h : History}
    (hr : (lifeCycle H).run .start calls = .ok h) (hstop : .stop ∉ calls) :
    ∀ b ∈ h.states, Safe b := by
  have hcalm : Calm History.start.now := ⟨⟨by simp [History.start], by simp [History.start]⟩, rfl⟩
  have hrun : .stop ∉ calls → Calm h.now ∧ ∀ b ∈ h.states, Safe b := by
    refine Machine.run_history (P := fun calls h ↦ .stop ∉ calls →
      Calm h.now ∧ ∀ b ∈ h.states, Safe b) (fun _ ↦ ⟨hcalm, ?_⟩) ?_ hr
    · intro b hb
      obtain rfl := List.mem_singleton.mp hb
      exact hcalm.safe
    · intro calls h₁ c h₂ _ ih hs hstop
      obtain ⟨r, hcall, hnow, hstates⟩ := lifeCycle_step hs
      obtain ⟨hc₁, hsafe⟩ := ih fun hmem ↦ hstop (List.mem_append_left _ hmem)
      obtain ⟨hc₂, hpassed⟩ := hc₁.call hH (fun he ↦ hstop (by simp [he])) hcall
      refine ⟨hnow ▸ hc₂, fun b hb ↦ ?_⟩
      rw [hstates] at hb
      simp only [List.mem_append, List.mem_singleton] at hb
      rcases hb with (hb | hb) | rfl
      · exact hsafe b hb
      · exact hpassed b hb
      · exact hc₂.safe
  exact (hrun hstop).2

/-- A started block has an actor. -/
theorem running_of_started {H : Hooks} (hH : H.Plain) {calls : List Call} {h : History}
    (hr : (lifeCycle H).run .start calls = .ok h) (hstarted : h.now.started) :
    h.now.world.running ≠ [] := by
  revert hstarted
  refine Machine.run_history (P := fun _ h ↦ h.now.started → h.now.world.running ≠ []) ?_ ?_ hr
  · rintro ⟨inf, hp⟩
    exact absurd hp (by simp [History.start])
  · rintro calls h₁ c h₂ - - hs ⟨inf₂, hp₂⟩
    obtain ⟨r, hcall, hnow, -⟩ := lifeCycle_step hs
    rw [hnow] at hp₂ ⊢
    rcases Hooks.call_cases hcall with ⟨_, _, -, -, -, rfl⟩ | ⟨_, _, _, -, -, -, rfl⟩ |
      ⟨inf, -, -, rfl⟩ | ⟨_, -, -, rfl⟩ | ⟨inf, ret, -, -, rfl⟩
    · exact absurd hp₂ (by simp)
    · exact absurd hp₂ (by simp)
    · exact hH.start_running inf h₁.now.world
    · exact absurd hp₂ (by simp)
    · simp only at hp₂
      split at hp₂ <;> exact absurd hp₂ (by simp)

/-- A state that is not started but has actors is not safe. -/
theorem not_safe_of_running {b : Block} (hrun : b.world.running ≠ []) (hs : ¬ b.started) :
    ¬ Safe b := by
  intro h
  have hne := mt h.one_iff_started.mp hs
  have hle := h.atMostOne
  have := List.length_pos_iff.mpr hrun
  omega

/-- A run with a `stop` has passed an unsafe state. -/
theorem not_safe_of_stop {H : Hooks} (hH : H.Plain) {calls : List Call} {h : History}
    (hr : (lifeCycle H).run .start calls = .ok h) (hstop : .stop ∈ calls) :
    ∃ b ∈ h.states, ¬ Safe b := by
  revert hstop
  refine Machine.run_history (P := fun calls h ↦ .stop ∈ calls → ∃ b ∈ h.states, ¬ Safe b)
    (by simp) ?_ hr
  intro calls h₁ c h₂ hrun ih hs hstop
  obtain ⟨r, hcall, -, hstates⟩ := lifeCycle_step hs
  rw [hstates]
  rcases List.mem_append.mp hstop with hstop | hstop
  · obtain ⟨b, hb, hbad⟩ := ih hstop
    exact ⟨b, by simp [hb], hbad⟩
  · obtain rfl := List.mem_singleton.mp hstop
    refine ⟨r.2, by simp, ?_⟩
    rcases Hooks.call_cases hcall with ⟨_, _, hc, -⟩ | ⟨_, _, _, hc, -⟩ | ⟨_, hc, -⟩ |
      ⟨inf, -, hp, rfl⟩ | ⟨_, _, hc, -⟩
    · exact absurd hc (by simp)
    · exact absurd hc (by simp)
    · exact absurd hc (by simp)
    · rw [hH.stop]
      exact not_safe_of_running (running_of_started hH hrun ⟨inf, hp⟩) (by simp [Block.started])
    · exact absurd hc (by simp)

/-! ### The three blocks -/

/-- One more allocation. -/
theorem World.Numbered.alloc {w : World} (h : w.Numbered) :
    World.Numbered { w with next := w.next + 1 } :=
  ⟨fun i hi ↦ Nat.lt_succ_of_lt (h.freed i hi), fun s hs ↦ Nat.lt_succ_of_lt (h.destroyed s hs)⟩

/-- Releasing private data that has been allocated. -/
theorem World.Numbered.free {w : World} (h : w.Numbered) {inf : Info} (hid : inf.id < w.next) :
    (freeInfo inf w).Numbered := by
  refine ⟨fun i hi ↦ ?_, h.destroyed⟩
  rcases List.mem_cons.mp hi with rfl | hi
  · exact hid
  · exact h.freed i hi

/-- Destroying a socket that has been made. -/
theorem World.Numbered.destroy {w : World} (h : w.Numbered) {inf : Info}
    (hs : ∀ s, inf.socket = some s → s < w.next) : (zsockDestroy inf w).2.Numbered := by
  cases hsock : inf.socket with
  | none => simpa only [zsockDestroy, hsock] using h
  | some s =>
    simp only [zsockDestroy, hsock]
    refine ⟨h.freed, fun s' hs' ↦ ?_⟩
    rcases List.mem_cons.mp hs' with rfl | hs'
    · exact hs s' hsock
    · exact h.destroyed s' hs'

/-- Without an actor there is nothing to wait for. -/
theorem zactorDestroy_of_none {inf : Info} (h : inf.actor = none) (returns : Bool) (w : World) :
    zactorDestroy returns inf w = (inf, w, true) := by
  simp only [zactorDestroy, h]

/-- New private data with a new socket. -/
theorem ready_with_socket {w : World} (h : w.Numbered) :
    ReadyIn w { w with next := w.next + 1 + 1 } ⟨w.next, some (w.next + 1), none⟩ where
  numbered := h.alloc.alloc
  running_eq := rfl
  actor_eq := rfl
  id_fresh hm := absurd (h.freed _ hm) (Nat.lt_irrefl _)
  id_lt := by simp only; omega
  socket_fresh s hs := by
    obtain rfl := Option.some.inj hs
    exact ⟨fun hm ↦ absurd (h.destroyed _ hm) (by omega), Nat.lt_succ_self _⟩

/-- One more actor. -/
theorem World.Numbered.zactorNew {w : World} (h : w.Numbered) (socket : Option Nat) (inf : Info) :
    (zactorNew socket inf w).2.Numbered :=
  ⟨fun i hi ↦ Nat.lt_succ_of_lt (h.freed i hi), fun s hs ↦ Nat.lt_succ_of_lt (h.destroyed s hs)⟩

/-- The actor of a block that hands over its socket. -/
theorem started_on_socket {w : World} (h : w.Numbered) (inf : Info) :
    StartedIn w (zactorNew inf.socket inf w).2 inf ⟨w.next, inf.id, inf.socket⟩ :=
  ⟨h.zactorNew _ _, rfl, rfl, rfl, rfl, fun _ ↦ .inl⟩

/-- Destroying the socket changes nothing else. -/
theorem zsockDestroy_fields (inf : Info) (w : World) :
    (zsockDestroy inf w).1.id = inf.id ∧ (zsockDestroy inf w).1.actor = inf.actor ∧
      (zsockDestroy inf w).2.next = w.next ∧ (zsockDestroy inf w).2.running = w.running := by
  cases hsock : inf.socket <;> simp only [zsockDestroy, hsock, and_self]

/-- The cleanup of a receiver that has never been started. -/
theorem zmqReceiverCleanup_of_none {inf : Info} (h : inf.actor = none) (returns : Bool)
    (w : World) :
    zmqReceiverCleanup returns inf w =
      ⟨[(zsockDestroy inf w).2, (zsockDestroy inf w).2],
        freeInfo (zsockDestroy inf w).1 (zsockDestroy inf w).2, true⟩ := by
  have hactor := (zsockDestroy_fields inf w).2.1.trans h
  rw [zmqReceiverCleanup]
  generalize zsockDestroy inf w = r at hactor ⊢
  obtain ⟨inf', w'⟩ := r
  simp only at hactor
  simp only [zactorDestroy_of_none hactor, ↓reduceIte]

/-- `zmq_receiver` is plain. -/
theorem plain_zmqReceiver : zmqReceiver.Plain where
  init_failed {o w w'} h hw := by
    cases o with
    | noMemory =>
      obtain rfl := InitResult.failed.inj h
      exact ⟨hw, rfl⟩
    | noSocket => exact InitResult.noConfusion h
    | ok => exact InitResult.noConfusion h
  init_ready {o w inf w'} h hw := by
    cases o with
    | noMemory => exact InitResult.noConfusion h
    | noSocket => exact InitResult.noConfusion h
    | ok =>
      obtain ⟨rfl, rfl⟩ := InitResult.ready.inj h
      exact ready_with_socket hw
  start hw := ⟨_, started_on_socket hw _⟩
  start_running inf w := by simp [zmqReceiver, zmqReceiverStart, zactorNew]
  stop _ _ := rfl
  cleanup {r inf w} hw hactor hid hs := by
    obtain ⟨hid', -, hnext, hrun⟩ := zsockDestroy_fields inf w
    have heq := zmqReceiverCleanup_of_none hactor r w
    simp only [zmqReceiver, heq]
    refine ⟨trivial, (hw.destroy hs).free ?_, hrun, ?_⟩
    · rw [hid', hnext]
      exact hid
    · simp [hrun]

/-- `zmq_server` is plain. -/
theorem plain_zmqServer : zmqServer.Plain where
  init_failed {o w w'} h hw := by
    cases o with
    | noMemory =>
      obtain rfl := InitResult.failed.inj h
      exact ⟨hw, rfl⟩
    | noSocket =>
      obtain rfl := InitResult.failed.inj h
      exact ⟨hw.alloc, rfl⟩
    | ok => exact InitResult.noConfusion h
  init_ready {o w inf w'} h hw := by
    cases o with
    | noMemory => exact InitResult.noConfusion h
    | noSocket => exact InitResult.noConfusion h
    | ok =>
      obtain ⟨rfl, rfl⟩ := InitResult.ready.inj h
      exact ready_with_socket hw
  start hw := ⟨_, started_on_socket hw _⟩
  start_running inf w := by simp [zmqServer, zmqServerStart, zactorNew]
  stop _ _ := rfl
  cleanup {r inf w} hw hactor hid _ := by
    simp only [zmqServer, zmqServerCleanup, zactorDestroy_of_none hactor, ↓reduceIte]
    exact ⟨trivial, hw.free hid, rfl, by simp⟩

/-- `czmq_ppworker` is plain. -/
theorem plain_czmqPpworker : czmqPpworker.Plain where
  init_failed {o w w'} h hw := by
    cases o with
    | noMemory =>
      obtain rfl := InitResult.failed.inj h
      exact ⟨hw, rfl⟩
    | noSocket => exact InitResult.noConfusion h
    | ok => exact InitResult.noConfusion h
  init_ready {o w inf w'} h hw := by
    have hready : ReadyIn w { w with next := w.next + 1 } ⟨w.next, none, none⟩ :=
      ⟨hw.alloc, rfl, rfl, fun hm ↦ absurd (hw.freed _ hm) (Nat.lt_irrefl _),
        Nat.lt_succ_self _, fun s hs ↦ absurd hs (by simp)⟩
    cases o with
    | noMemory => exact InitResult.noConfusion h
    | noSocket | ok =>
      obtain ⟨rfl, rfl⟩ := InitResult.ready.inj h
      exact hready
  start {inf w} hw := by
    refine ⟨⟨w.next + 1, inf.id, some w.next⟩, ?_⟩
    have hsocket : ∀ s, some w.next = some s → w.next ≤ s :=
      fun s hs ↦ Nat.le_of_eq (Option.some.inj hs)
    exact ⟨hw.alloc.zactorNew _ _, rfl, rfl, rfl, rfl, fun s hs ↦ .inr (hsocket s hs)⟩
  start_running inf w := by simp [czmqPpworker, czmqPpworkerStart, zactorNew, zsockNew]
  stop _ _ := rfl
  cleanup hw _ hid _ := ⟨rfl, hw.free hid, rfl, fun _ h ↦ absurd h (List.not_mem_nil)⟩

/-- All three blocks are plain. -/
theorem plain_hooks (block : ZmqBlock) : block.hooks.Plain := by
  cases block with
  | zmqReceiver => exact plain_zmqReceiver
  | zmqServer => exact plain_zmqServer
  | czmqPpworker => exact plain_czmqPpworker

/-- In a permitted run of a block with an actor every state is safe exactly if `stop` is
never called. -/
theorem life_cycle_safe_iff (block : ZmqBlock) {calls : List Call} {h : History}
    (hr : (lifeCycle block.hooks).run .start calls = .ok h) :
    (∀ b ∈ h.states, Safe b) ↔ .stop ∉ calls := by
  constructor
  · intro hsafe hstop
    obtain ⟨b, hb, hbad⟩ := not_safe_of_stop (plain_hooks block) hr hstop
    exact hbad (hsafe b hb)
  · exact safe_of_no_stop (plain_hooks block) hr

private theorem stop_not_safe (block : ZmqBlock) :
    ∃ h, (lifeCycle block.hooks).run .start [.init .ok, .start, .stop] = .ok h ∧
      ∃ b ∈ h.states, ¬ Safe b := by
  obtain ⟨h, hr⟩ : ∃ h, (lifeCycle block.hooks).run .start [.init .ok, .start, .stop] = .ok h := by
    cases block <;> exact ⟨_, rfl⟩
  exact ⟨h, hr, not_safe_of_stop (plain_hooks block) hr (by decide)⟩

/-- Stopped receivers and servers keep their actor, and a worker that is cleaned up as well
goes on with freed private data. -/
theorem actors_outlive_stop :
    (∃ h, (lifeCycle ZmqBlock.zmqReceiver.hooks).run .start [.init .ok, .start, .stop] = .ok h ∧
      ∃ b ∈ h.states, ¬ Safe b) ∧
    (∃ h, (lifeCycle ZmqBlock.zmqServer.hooks).run .start [.init .ok, .start, .stop] = .ok h ∧
      ∃ b ∈ h.states, ¬ Safe b) ∧
    (∃ h, (lifeCycle ZmqBlock.czmqPpworker.hooks).run .start
        [.init .ok, .start, .stop, .cleanup true] = .ok h ∧
      h.now.phase = .preinit ∧ h.now.world.running = [⟨2, 0, some 1⟩] ∧
        h.now.world.freed = [0] ∧ ¬ Safe h.now) := by
  refine ⟨stop_not_safe .zmqReceiver, stop_not_safe .zmqServer, _, rfl, rfl, rfl, rfl, fun h ↦ ?_⟩
  exact List.cons_ne_nil _ _ (h.none_after_cleanup rfl)

/-- A server that is initialised and started, under the equivalence. -/
theorem life_cycle_safe_iff_server :
    ∃ h, (lifeCycle ZmqBlock.zmqServer.hooks).run .start [.init .ok, .start] = .ok h ∧
      ((∀ b ∈ h.states, Safe b) ↔ Call.stop ∉ [.init .ok, .start]) :=
  ⟨_, rfl, @life_cycle_safe_iff .zmqServer [.init .ok, .start] _ rfl⟩

end Ubx.LifeCycle
