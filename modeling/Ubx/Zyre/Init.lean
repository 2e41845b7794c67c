import Ubx.Base.Bytes

/-!
# The zyre bridge: configuration and `zyre_bridge_init`

Block-local state and set-up of `src/zyre_bridge/src/zyre_bridge.cpp:15–41,85–209`, with
the configuration of `zyre_bridge.hpp:17–33`. The Zyre library is a parameter: whether
`calloc` and `zyre_new` succeed, which version runs, what `zyre_start` answers.
-/

namespace Ubx.Zyre

open Ubx.Base

/-- Behaviour the C and C++ standards leave undefined, or an abort. -/
inductive Fault
  /-- `std::string` built from NULL. -/
  | stringFromNull
  /-- `strlen` of NULL. -/
  | strlenNull
  /-- `__port_write` of a NULL buffer. -/
  | portWriteNull
  /-- `std::out_of_range` from `substr`. -/
  | outOfRange
  /-- A write behind the end of a buffer. -/
  | bufferOverrun
  /-- `streq` of NULL. -/
  | streqNull
  /-- A failed assertion, here or in the library. -/
  | assertFailed
  deriving DecidableEq, Repr

/-- Configuration values that the block reads; `zyre_bridge.hpp:17–33`. -/
structure ZyreBridgeConfig where
  maxSend : Int32
  wmName : Bytes
  gossipEndpoint : Bytes
  group : Bytes
  bind : Int32
  gossipFlag : Int32
  maxMsgLength : Int32
  mediator : Int32

/-- A Zyre node; the block reads its UUID. -/
structure ZyreNode where
  uuid : Bytes

/-- Block-local state; `zyre_bridge.cpp:15–41`. Ports are kept with the functions that use
them, the actor with the life cycle. -/
structure ZyreBridgeInfo where
  maxSend : Int32
  maxMsgLength : UInt64
  inputTypeList : List Bytes
  outputTypeList : List Bytes
  node : ZyreNode
  group : Bytes

/-- Conversion of an `int` to `unsigned long`: modulo `2 ^ 64`. -/
def toUnsignedLong (n : Int32) : UInt64 := n.toInt64.toUInt64

/-- Types handed to the world model; `zyre_bridge.cpp:127–132`. -/
def inputTypeList : List Bytes :=
  [ofString "RSGUpdate_global", ofString "RSGUpdate_local", ofString "RSGUpdate_both",
    ofString "RSGUpdate", ofString "RSGQuery", ofString "RSGFunctionBlock"]

/-- Types broadcast to the components; `zyre_bridge.cpp:133–136`. -/
def outputTypeList : List Bytes :=
  [ofString "RSGUpdate", ofString "RSGUpdateResult", ofString "RSGQueryResult",
    ofString "RSGFunctionBlockResult"]

/-- No type is the only one on the fixed output list. -/
theorem exists_mem_outputTypeList_ne (t : Bytes) : ∃ e ∈ outputTypeList, e ≠ t := by
  by_cases ht : t = ofString "RSGUpdate"
  · exact ⟨ofString "RSGUpdateResult", by decide, by rw [ht]; decide⟩
  · exact ⟨ofString "RSGUpdate", by decide, Ne.symm ht⟩

/-- The state that initialisation fills in, for any two type lists. -/
def zyreBridgeInfo (c : ZyreBridgeConfig) (inputs outputs : List Bytes) (node : ZyreNode) :
    ZyreBridgeInfo :=
  { maxSend := c.maxSend
    maxMsgLength := toUnsignedLong c.maxMsgLength
    inputTypeList := inputs
    outputTypeList := outputs
    node := node
    group := c.group }

/-- What `zyre_bridge_init` learns from the libraries it calls. -/
structure InitExtern where
  /-- Whether `calloc` returns memory. -/
  calloc : Bool
  /-- `zyre_version` of the library that runs. -/
  version : Int32 × Int32 × Int32
  /-- `ZYRE_VERSION_MAJOR`, `_MINOR` and `_PATCH` of the header. -/
  headerVersion : Int32 × Int32 × Int32
  /-- `zyre_new`; `none` is NULL. -/
  zyreNew : Bytes → Option ZyreNode
  /-- `zyre_start`. -/
  zyreStart : ZyreNode → Int32

/-- Return values of `zyre_bridge_init`. -/
inductive InitRet
  | zero
  | minusOne
  | eOutOfMem
  deriving DecidableEq, Repr

/-- How an initialisation ended. -/
structure InitResult where
  ret : InitRet
  /-- A node that was created and not released. -/
  node : Option ZyreNode
  /-- What `b->private_data` was set to, if it was. -/
  privateData : Option ZyreBridgeInfo

/-- `zyre_bridge_init`; `zyre_bridge.cpp:85–209`. Only the last exit publishes
`private_data`; the exits behind `zyre_new` keep the node. -/
def zyreBridgeInit (ext : InitExtern) (c : ZyreBridgeConfig) : Except Fault InitResult :=
  if ext.calloc = false then .ok ⟨.eOutOfMem, none, none⟩
  -- the check reads the converted, unsigned value
  else if toUnsignedLong c.maxMsgLength ≤ 0 then .ok ⟨.minusOne, none, none⟩
  else if ext.version.1 ≠ ext.headerVersion.1 then .ok ⟨.minusOne, none, none⟩
  else if ext.version.2.1 ≠ ext.headerVersion.2.1 then .ok ⟨.minusOne, none, none⟩
  else if ext.version.2.2 ≠ ext.headerVersion.2.2 then .ok ⟨.minusOne, none, none⟩
  else
    match ext.zyreNew c.wmName with
    | none => .ok ⟨.minusOne, none, none⟩
    | some node =>
      if c.gossipFlag = 1 ∧ c.bind ≠ 1 ∧ c.bind ≠ 0 then .ok ⟨.minusOne, some node, none⟩
      else if c.gossipFlag ≠ 1 ∧ c.gossipFlag ≠ 0 then .ok ⟨.minusOne, some node, none⟩
      else if ext.zyreStart node ≠ 0 then .error .assertFailed
      else .ok ⟨.zero, some node, some (zyreBridgeInfo c inputTypeList outputTypeList node)⟩

/-- An initialised block: its configuration and its private data. -/
structure ZyreBridge where
  config : ZyreBridgeConfig
  inf : ZyreBridgeInfo

/-- `b` is what a successful `zyre_bridge_init` left behind. -/
def ZyreBridge.Initialised (ext : InitExtern) (b : ZyreBridge) : Prop :=
  ∃ node, zyreBridgeInit ext b.config = .ok ⟨.zero, some node, some b.inf⟩

/-- A successful initialisation fills in the configured values and the two fixed lists. -/
theorem ZyreBridge.Initialised.inf_eq {ext : InitExtern} {b : ZyreBridge}
    (h : b.Initialised ext) :
    ∃ node, b.inf = zyreBridgeInfo b.config inputTypeList outputTypeList node := by
  obtain ⟨node, h⟩ := h
  simp only [zyreBridgeInit] at h
  split at h
  · simp at h
  split at h
  · simp at h
  split at h
  · simp at h
  split at h
  · simp at h
  split at h
  · simp at h
  split at h
  · simp at h
  · next n _ =>
    split at h
    · simp at h
    split at h
    · simp at h
    split at h
    · simp at h
    · simp only [Except.ok.injEq, InitResult.mk.injEq, Option.some.injEq, true_and] at h
      exact ⟨n, h.2.symm⟩

section

variable {ext : InitExtern} {b : ZyreBridge}

/-- The length limit is the configured one, converted. -/
theorem ZyreBridge.Initialised.maxMsgLength_eq (h : b.Initialised ext) :
    b.inf.maxMsgLength = toUnsignedLong b.config.maxMsgLength := by
  obtain ⟨node, hinf⟩ := h.inf_eq
  rw [hinf]
  rfl

/-- The limit on messages is the configured one. -/
theorem ZyreBridge.Initialised.maxSend_eq (h : b.Initialised ext) :
    b.inf.maxSend = b.config.maxSend := by
  obtain ⟨node, hinf⟩ := h.inf_eq
  rw [hinf]
  rfl

/-- The input list is the fixed one, -/
theorem ZyreBridge.Initialised.inputTypeList_eq (h : b.Initialised ext) :
    b.inf.inputTypeList = Zyre.inputTypeList := by
  obtain ⟨node, hinf⟩ := h.inf_eq
  rw [hinf]
  rfl

/-- and so is the output list. -/
theorem ZyreBridge.Initialised.outputTypeList_eq (h : b.Initialised ext) :
    b.inf.outputTypeList = Zyre.outputTypeList := by
  obtain ⟨node, hinf⟩ := h.inf_eq
  rw [hinf]
  rfl

end

/-- The configuration of block `zyre_test_bridge`; `zyrebridgetest.usc:312`. -/
def zyreTestBridge : ZyreBridgeConfig :=
  { maxSend := 5
    wmName := ofString "SWM_zyre_test_bridge"
    gossipEndpoint := ofString "ipc:///tmp/local-hub"
    group := ofString "local"
    bind := 0
    gossipFlag := 1
    maxMsgLength := 2000
    mediator := 1 }

/-- Libraries with which every call of the initialisation succeeds. -/
def testExtern : InitExtern :=
  { calloc := true
    version := (2, 0, 0)
    headerVersion := (2, 0, 0)
    zyreNew := fun _ ↦ some ⟨ofString "0A"⟩
    zyreStart := fun _ ↦ 0 }

/-- The test bridge after `zyre_bridge_init`. -/
def testBridge : ZyreBridge :=
  ⟨zyreTestBridge, zyreBridgeInfo zyreTestBridge inputTypeList outputTypeList ⟨ofString "0A"⟩⟩

/-- The test bridge is what a successful initialisation leaves. -/
theorem testBridge_initialised : testBridge.Initialised testExtern := ⟨⟨ofString "0A"⟩, rfl⟩

/-- As an unsigned value only zero is not positive. -/
theorem toUnsignedLong_le_zero_iff (n : Int32) : toUnsignedLong n ≤ 0 ↔ n = 0 := by
  constructor
  · intro h
    have hz : n.toInt64.toUInt64 = 0 := UInt64.le_zero_iff.mp h
    have hi : n.toInt64 = 0 := by
      rw [← Int64.toInt64_toUInt64 n.toInt64, hz]
      rfl
    rw [← Int32.toInt_inj, ← Int32.toInt_toInt64, hi]
    rfl
  · rintro rfl
    decide

/-- Conversion to `unsigned long` keeps the value of a non-negative `int`. -/
theorem toNat_toUnsignedLong {n : Int32} (h : 0 ≤ n.toInt) :
    (toUnsignedLong n).toNat = n.toNatClampNeg := by
  have hn : 0 ≤ n.toInt64 := by
    rw [Int64.le_iff_toInt_le, Int32.toInt_toInt64]
    exact h
  rw [toUnsignedLong, Int64.toNat_toUInt64_of_le hn, ← Int64.toNat_toInt, Int32.toInt_toInt64,
    Int32.toNat_toInt]

end Ubx.Zyre
