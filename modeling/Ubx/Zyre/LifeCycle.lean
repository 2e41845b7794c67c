import Ubx.Zyre.Actor

/-!
# The zyre bridge: nodes and actors over its life cycle

Hooks of `src/zyre_bridge/src/zyre_bridge.cpp:85–247` as far as they create and release
Zyre nodes and actors, which are numbered. An actor counts from `zactor_new` until
`zactor_destroy` has returned, and its function runs no longer than that. An exit of
`zyre_bridge_init` behind `zyre_new` that returns an error keeps the node.
-/

namespace Ubx.Zyre

open Ubx.Base

/-- An actor and the node whose socket its function polls. -/
structure BridgeActor where
  id : Nat
  node : Nat

/-- Live nodes and actors. -/
structure Resources where
  nodes : List Nat
  actors : List BridgeActor
  /-- The number of the next node or actor. -/
  next : Nat

/-- `inf->node` and `inf->actor`; `none` is NULL. -/
structure Handle where
  node : Nat
  actor : Option Nat

/-- `zyre_bridge_init` with its node counted. The handle is there if zero is returned. -/
def initNode (ext : InitExtern) (c : ZyreBridgeConfig) (w : Resources) :
    Except Fault (Option Handle × Resources) :=
  (zyreBridgeInit ext c).map fun r ↦
    match r.node with
    | none => (none, w)
    | some _ =>
      (if r.ret = .zero then some ⟨w.next, none⟩ else none,
        { w with nodes := w.nodes ++ [w.next], next := w.next + 1 })

/-- `zyre_bridge_start`; `zyre_bridge.cpp:212–223`. -/
def zyreBridgeStart (inf : Handle) (w : Resources) : Handle × Resources :=
  ({ inf with actor := some w.next },
    { w with actors := w.actors ++ [⟨w.next, inf.node⟩], next := w.next + 1 })

/-- `zactor_destroy(&inf->actor)`: the actor gets `$TERM` in state `s` and is waited for.
`none` if its function goes on. -/
def zactorDestroy (s : ActorState) (inf : Handle) (w : Resources) :
    Option (Handle × Resources) :=
  match inf.actor with
  | none => some (inf, w)
  | some a =>
    match pipeMessage (some [ofString "$TERM"]) s with
    | .error _ => none
    | .ok s' =>
      if s'.loop = .running then none
      else some ({ inf with actor := none },
        { w with actors := w.actors.filter (·.id ≠ a) })

/-- `zyre_bridge_stop`; `zyre_bridge.cpp:226–232`. -/
def zyreBridgeStop (s : ActorState) (inf : Handle) (w : Resources) :
    Option (Handle × Resources) :=
  zactorDestroy s inf w

/-- `zyre_bridge_cleanup`; `zyre_bridge.cpp:235–247`. -/
def zyreBridgeCleanup (inf : Handle) (w : Resources) : Resources :=
  { w with nodes := w.nodes.filter (· ≠ inf.node) }

/-! ### The life cycle -/

/-- Where the block is in its life cycle. -/
inductive BridgePhase
  | preinit
  | inactive (inf : Handle)
  | active (inf : Handle)

/-- The block and what exists around it. -/
structure BridgeBlock where
  phase : BridgePhase
  world : Resources

/-- Calls of the hooks; a stop meets the actor in some state. -/
inductive HookCall
  | init (ext : InitExtern) (c : ZyreBridgeConfig)
  | start
  | stop (s : ActorState)
  | cleanup

/-- Why a call does not come about or does not return. -/
inductive HookRefusal
  | notPermitted
  | aborted
  | stuck
  deriving DecidableEq

/-- The calls that the life cycle permits. -/
def hookCall (b : BridgeBlock) (call : HookCall) : Except HookRefusal BridgeBlock :=
  match b.phase, call with
  | .preinit, .init ext c =>
    match initNode ext c b.world with
    | .error _ => .error .aborted
    | .ok (none, w) => .ok ⟨.preinit, w⟩
    | .ok (some inf, w) => .ok ⟨.inactive inf, w⟩
  | .inactive inf, .start =>
    .ok ⟨.active (zyreBridgeStart inf b.world).1, (zyreBridgeStart inf b.world).2⟩
  | .active inf, .stop s =>
    match zyreBridgeStop s inf b.world with
    | none => .error .stuck
    | some (inf, w) => .ok ⟨.inactive inf, w⟩
  | .inactive inf, .cleanup => .ok ⟨.preinit, zyreBridgeCleanup inf b.world⟩
  | _, _ => .error .notPermitted

/-- The life cycle as a machine. -/
def hookMachine : Machine BridgeBlock HookCall HookRefusal where
  step := hookCall

/-- A block that has just been created. -/
def BridgeBlock.start : BridgeBlock := ⟨.preinit, ⟨[], [], 0⟩⟩

/-- One live node, the one of the handle, while the block is initialised, and none
otherwise; one actor while it is started, and none otherwise; every actor on a live node. -/
structure BridgeSafe (b : BridgeBlock) : Prop where
  preinit : b.phase = .preinit → b.world.nodes = [] ∧ b.world.actors = []
  inactive : ∀ inf, b.phase = .inactive inf →
    b.world.nodes = [inf.node] ∧ b.world.actors = []
  active : ∀ inf, b.phase = .active inf →
    b.world.nodes = [inf.node] ∧ ∃ a, b.world.actors = [a] ∧ inf.actor = some a.id
  alive : ∀ a ∈ b.world.actors, a.node ∈ b.world.nodes

/-- The initialisation creates a node and then meets a setting that it refuses. -/
def LeavesNode (ext : InitExtern) (c : ZyreBridgeConfig) : Prop :=
  ext.calloc = true ∧ c.maxMsgLength ≠ 0 ∧ ext.version = ext.headerVersion ∧
    (ext.zyreNew c.wmName).isSome ∧
    ((c.gossipFlag = 1 ∧ c.bind ≠ 1 ∧ c.bind ≠ 0) ∨ (c.gossipFlag ≠ 1 ∧ c.gossipFlag ≠ 0))

/-! ### What the initialisation leaves -/

/-- An initialisation that returns has failed without a node, or succeeded with one, or
failed with one, and the last only where a setting is refused too late. -/
theorem initNode_cases {ext : InitExtern} {c : ZyreBridgeConfig} {w : Resources}
    {r : Option Handle × Resources} (h : initNode ext c w = .ok r) :
    (¬ LeavesNode ext c ∧
      (r = (none, w) ∨
        r = (some ⟨w.next, none⟩, { w with nodes := w.nodes ++ [w.next], next := w.next + 1 }))) ∨
    (LeavesNode ext c ∧
      r = (none, { w with nodes := w.nodes ++ [w.next], next := w.next + 1 })) := by
  have hlen := toUnsignedLong_le_zero_iff c.maxMsgLength
  rw [initNode, zyreBridgeInit] at h
  split at h
  · next hc =>
    exact .inl ⟨fun hl ↦ absurd (hc.symm.trans hl.1) (by simp), .inl (Except.ok.inj h).symm⟩
  next hc =>
  split at h
  · next hm => exact .inl ⟨fun hl ↦ hl.2.1 (hlen.mp hm), .inl (Except.ok.inj h).symm⟩
  next hm =>
  split at h
  · next hv => exact .inl ⟨fun hl ↦ hv (by rw [hl.2.2.1]), .inl (Except.ok.inj h).symm⟩
  next hmajor =>
  split at h
  · next hv => exact .inl ⟨fun hl ↦ hv (by rw [hl.2.2.1]), .inl (Except.ok.inj h).symm⟩
  next hminor =>
  split at h
  · next hv => exact .inl ⟨fun hl ↦ hv (by rw [hl.2.2.1]), .inl (Except.ok.inj h).symm⟩
  next hpatch =>
  have hv : ext.version = ext.headerVersion := by
    simp only [ne_eq, not_not] at hmajor hminor hpatch
    exact Prod.ext hmajor (Prod.ext hminor hpatch)
  split at h
  · next hn => exact .inl ⟨fun hl ↦ absurd hl.2.2.2.1 (by simp [hn]), .inl (Except.ok.inj h).symm⟩
  next node hn =>
  have hleaves (hg : (c.gossipFlag = 1 ∧ c.bind ≠ 1 ∧ c.bind ≠ 0) ∨
      (c.gossipFlag ≠ 1 ∧ c.gossipFlag ≠ 0)) : LeavesNode ext c :=
    ⟨by simpa using hc, fun hz ↦ hm (hlen.mpr hz), hv, by simp [hn], hg⟩
  split at h
  · next hg => exact .inr ⟨hleaves (.inl hg), (Except.ok.inj h).symm⟩
  next hbind =>
  split at h
  · next hg => exact .inr ⟨hleaves (.inr hg), (Except.ok.inj h).symm⟩
  next hgossip =>
  split at h
  · exact absurd h (by simp [Except.map])
  · exact .inl ⟨fun hl ↦ hl.2.2.2.2.elim hbind hgossip, .inr (Except.ok.inj h).symm⟩

/-- So an initialisation is a call in state `preinit`, and goes the same three ways. -/
theorem hookCall_init {b b' : BridgeBlock} {ext : InitExtern} {c : ZyreBridgeConfig}
    (hb : hookCall b (.init ext c) = .ok b') :
    b.phase = .preinit ∧
      ((¬ LeavesNode ext c ∧ (b' = ⟨.preinit, b.world⟩ ∨
          b' = ⟨.inactive ⟨b.world.next, none⟩, { b.world with
            nodes := b.world.nodes ++ [b.world.next], next := b.world.next + 1 }⟩)) ∨
        (LeavesNode ext c ∧ b' = ⟨.preinit, { b.world with
          nodes := b.world.nodes ++ [b.world.next], next := b.world.next + 1 }⟩)) := by
  obtain ⟨phase, w⟩ := b
  cases phase with
  | preinit =>
    refine ⟨rfl, ?_⟩
    simp only [hookCall] at hb
    cases hi : initNode ext c w with
    | error f => simp [hi] at hb
    | ok r =>
      obtain ⟨hn, rfl | rfl⟩ | ⟨hl, rfl⟩ := initNode_cases hi
      · simp only [hi, Except.ok.injEq] at hb
        exact .inl ⟨hn, .inl hb.symm⟩
      · simp only [hi, Except.ok.injEq] at hb
        exact .inl ⟨hn, .inr hb.symm⟩
      · simp only [hi, Except.ok.injEq] at hb
        exact .inr ⟨hl, hb.symm⟩
  | inactive inf => simp [hookCall] at hb
  | active inf => simp [hookCall] at hb

/-- Whatever the actor is doing, `$TERM` ends its loop. -/
theorem pipeMessage_term (s : ActorState) :
    pipeMessage (some [ofString "$TERM"]) s = .ok { s with loop := .terminated } := by
  rw [pipeMessage]
  have hterm : (zmsgPopstr [ofString "$TERM"]).1 = some (ofString "$TERM") := by decide
  simp only [hterm, ↓reduceIte]

/-- So `zactor_destroy` returns. -/
theorem zactorDestroy_eq (s : ActorState) {inf : Handle} {a : Nat} (h : inf.actor = some a)
    (w : Resources) :
    zactorDestroy s inf w =
      some ({ inf with actor := none }, { w with actors := w.actors.filter (·.id ≠ a) }) := by
  simp only [zactorDestroy, h, pipeMessage_term, reduceCtorEq, ↓reduceIte]

/-! ### Runs -/

/-- What holds of the block in a run that leaves no node behind. -/
def Tidy (b : BridgeBlock) : Prop :=
  match b.phase with
  | .preinit => b.world.nodes = [] ∧ b.world.actors = []
  | .inactive inf => b.world.nodes = [inf.node] ∧ b.world.actors = [] ∧ inf.actor = none
  | .active inf => b.world.nodes = [inf.node] ∧
      ∃ a, b.world.actors = [a] ∧ inf.actor = some a.id ∧ a.node = inf.node

/-- A new block is tidy. -/
theorem tidy_start : Tidy .start := ⟨rfl, rfl⟩

/-- A tidy block is safe. -/
theorem Tidy.safe {b : BridgeBlock} (h : Tidy b) : BridgeSafe b := by
  obtain ⟨phase, w⟩ := b
  cases phase with
  | preinit =>
    obtain ⟨hn, ha⟩ := h
    exact ⟨fun _ ↦ ⟨hn, ha⟩, by simp, by simp, by simp_all⟩
  | inactive inf =>
    obtain ⟨hn, ha, -⟩ := h
    refine ⟨by simp, fun inf' he ↦ ?_, by simp, by simp_all⟩
    obtain rfl := BridgePhase.inactive.inj he
    exact ⟨hn, ha⟩
  | active inf =>
    obtain ⟨hn, a, ha, hact, hnode⟩ := h
    refine ⟨by simp, by simp, fun inf' he ↦ ?_, by simp_all⟩
    obtain rfl := BridgePhase.active.inj he
    exact ⟨hn, a, ha, hact⟩

/-- Every call keeps the block tidy, an initialisation that leaves a node apart. -/
theorem Tidy.call {b b' : BridgeBlock} (h : Tidy b) {call : HookCall}
    (hcall : ∀ ext c, call = .init ext c → ¬ LeavesNode ext c)
    (hb : hookCall b call = .ok b') : Tidy b' := by
  obtain ⟨phase, w⟩ := b
  cases phase with
  | preinit =>
    obtain ⟨hn, ha⟩ : w.nodes = [] ∧ w.actors = [] := h
    cases call with
    | init ext c =>
      obtain ⟨-, ⟨-, rfl | rfl⟩ | ⟨hl, -⟩⟩ := hookCall_init hb
      · exact ⟨hn, ha⟩
      · exact ⟨by simp [hn], ha, rfl⟩
      · exact absurd hl (hcall ext c rfl)
    | start | stop | cleanup => simp [hookCall] at hb
  | inactive inf =>
    obtain ⟨hn, ha, -⟩ : w.nodes = [inf.node] ∧ w.actors = [] ∧ inf.actor = none := h
    cases call with
    | start =>
      obtain rfl := Except.ok.inj hb
      exact ⟨hn, ⟨w.next, inf.node⟩, by simp [zyreBridgeStart, ha], rfl, rfl⟩
    | cleanup =>
      obtain rfl := Except.ok.inj hb
      exact ⟨by simp [zyreBridgeCleanup, hn], ha⟩
    | init | stop => simp [hookCall] at hb
  | active inf =>
    obtain ⟨hn, a, ha, hact, -⟩ : w.nodes = [inf.node] ∧
        ∃ a, w.actors = [a] ∧ inf.actor = some a.id ∧ a.node = inf.node := h
    cases call with
    | stop s =>
      simp only [hookCall, zyreBridgeStop, zactorDestroy_eq s hact, Except.ok.injEq] at hb
      exact hb ▸ ⟨hn, by simp [ha], rfl⟩
    | init | start | cleanup => simp [hookCall] at hb

/-- An initialisation that leaves a node takes the block to a state that is not safe. -/
theorem not_safe_of_leavesNode {b b' : BridgeBlock} {ext : InitExtern} {c : ZyreBridgeConfig}
    (hl : LeavesNode ext c) (hb : hookCall b (.init ext c) = .ok b') : ¬ BridgeSafe b' := by
  obtain ⟨-, ⟨hn, -⟩ | ⟨-, rfl⟩⟩ := hookCall_init hb
  · exact absurd hl hn
  · intro hsafe
    have hnodes := (hsafe.preinit rfl).1
    simp at hnodes

/-- A run without such an initialisation is tidy. -/
theorem tidy_of_run {calls : List HookCall} {b : BridgeBlock}
    (hr : hookMachine.run .start calls = .ok b)
    (h : ∀ ext c, .init ext c ∈ calls → ¬ LeavesNode ext c) : Tidy b := by
  revert h
  refine Machine.run_history (P := fun calls b ↦
    (∀ ext c, .init ext c ∈ calls → ¬ LeavesNode ext c) → Tidy b) (fun _ ↦ tidy_start) ?_ hr
  intro calls b₁ call b₂ _ ih hs h
  have htidy := ih fun ext c hmem ↦ h ext c (List.mem_append_left _ hmem)
  exact htidy.call (fun ext c he ↦ h ext c (by simp [he])) hs

/-- In a permitted run every state on the way is safe exactly if no initialisation of it
creates a node and then refuses a setting. -/
theorem resources_safe_iff {calls : List HookCall} {b : BridgeBlock}
    (hr : hookMachine.run .start calls = .ok b) :
    (∀ pre, pre <+: calls → ∀ b', hookMachine.run .start pre = .ok b' → BridgeSafe b') ↔
      ∀ ext c, .init ext c ∈ calls → ¬ LeavesNode ext c := by
  constructor
  · intro hsafe ext c hmem hl
    obtain ⟨pre, post, rfl⟩ := List.append_of_mem hmem
    rw [List.append_cons] at hr
    obtain ⟨b₁, h₁, -⟩ := Machine.run_append.mp hr
    obtain ⟨b₀, -, hs⟩ := Machine.run_concat.mp h₁
    refine not_safe_of_leavesNode hl hs (hsafe _ ?_ b₁ h₁)
    exact ⟨post, by simp⟩
  · intro h pre hpre b' hr'
    exact (tidy_of_run hr' fun ext c hmem ↦ h ext c (hpre.subset hmem)).safe

/-- The test bridge with a gossip flag that is refused. -/
def refusedConfig : ZyreBridgeConfig := { zyreTestBridge with gossipFlag := 2 }

/-- The refused initialisation leaves its node behind. -/
theorem refused_init_keeps_node :
    ∃ b, hookMachine.run .start [.init testExtern refusedConfig] = .ok b ∧
      b.phase = .preinit ∧ b.world.nodes = [0] ∧ ¬ BridgeSafe b := by
  refine ⟨_, rfl, rfl, rfl, fun h ↦ ?_⟩
  exact absurd (h.preinit rfl).1 (by decide)

/-- One life of the test bridge, under the equivalence. -/
theorem resources_safe_iff_test :
    ∃ b, hookMachine.run .start [.init testExtern zyreTestBridge, .start, .stop .start, .cleanup] =
        .ok b ∧
      ((∀ pre, pre <+: [.init testExtern zyreTestBridge, .start, .stop .start, .cleanup] →
          ∀ b', hookMachine.run .start pre = .ok b' → BridgeSafe b') ↔
        ∀ ext c, HookCall.init ext c ∈
          [.init testExtern zyreTestBridge, .start, .stop .start, .cleanup] →
            ¬ LeavesNode ext c) :=
  ⟨_, rfl, resources_safe_iff rfl⟩

end Ubx.Zyre
