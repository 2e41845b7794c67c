import Ubx.Zyre.Whitelist

/-!
# The zyre bridge: `zyre_bridge_actor`

Receiving direction of `src/zyre_bridge/src/zyre_bridge.cpp:359–465`. An event is what
`zpoller_wait` and `zmsg_recv` hand the loop; a message is its frames. Output to the
console is left out. Writes to port `zyre_in` are kept in order.
-/

namespace Ubx.Zyre

open Ubx.Base

/-- What one pass of the loop gets: a message on the pipe, one from the Zyre node, or
neither. `none` is a NULL message. -/
inductive ActorEvent
  | pipe (msg : Option (List Bytes))
  | zyre (msg : Option (List Bytes))
  | other

/-- Where the loop is. -/
inductive ActorLoop
  | running
  /-- `terminated` is set. -/
  | terminated
  /-- Left by `break`. -/
  | interrupted
  deriving DecidableEq, Repr

/-- A call of `__port_write` with `msg.data` and `msg.len`. -/
structure PortWrite where
  data : Bytes
  len : Nat

/-- State of the actor function. -/
structure ActorState where
  zyreIn : List PortWrite
  loop : ActorLoop

/-- `zmsg_popstr`: the first frame up to its first NUL, or NULL. -/
def zmsgPopstr : List Bytes → Option Bytes × List Bytes
  | [] => (none, [])
  | frame :: msg => (some (cString frame), msg)

/-- `strlen`. -/
def strlen : Option Bytes → Except Fault Nat
  | none => .error .strlenNull
  | some t => .ok (cString t).length

/-- `__port_write`. -/
def portWrite (data : Option Bytes) (len : Nat) (zyreIn : List PortWrite) :
    Except Fault (List PortWrite) :=
  match data with
  | none => .error .portWriteNull
  | some t => .ok (zyreIn ++ [⟨t, len⟩])

section

variable (J : Jansson)

/-- The loop over `input_type_list`; `zyre_bridge.cpp:423–435`. It has no `break`. -/
def inputLoop (m : Json) (type : Bytes) : List Bytes → List PortWrite →
    Except Fault (List PortWrite)
  | [], zyreIn => .ok zyreIn
  | t :: ts, zyreIn =>
    if strCompare t type = 0 then do
      let data := J.jsonDumps (m.objectGet (ofString "payload"))
      let len ← strlen (J.jsonDumps (m.objectGet (ofString "payload")))
      let zyreIn ← portWrite data len zyreIn
      inputLoop m type ts zyreIn
    else inputLoop m type ts zyreIn

/-- The SHOUT branch once `message` is popped; `zyre_bridge.cpp:408–438`. -/
def shoutBranch (inf : ZyreBridgeInfo) (message : Option Bytes) (zyreIn : List PortWrite) :
    Except Fault (List PortWrite) :=
  match J.jsonLoads message with
  | none => .ok zyreIn
  | some m =>
    match m.objectGet (ofString "type") with
    | none => .ok zyreIn
    | some ty =>
      let type := cString (J.dumps ty)
      match substr type 1 (sizeSub type.length 2) with
      | none => .error .outOfRange
      | some type => inputLoop J m type inf.inputTypeList zyreIn

/-- A message from the Zyre network; `zyre_bridge.cpp:389–460`. -/
def zyreMessage (inf : ZyreBridgeInfo) (msg : Option (List Bytes)) (s : ActorState) :
    Except Fault ActorState :=
  match msg with
  -- "interrupted!" is printed, and the NULL message is popped all the same
  | none => .error .assertFailed
  | some msg =>
    let (event, msg) := zmsgPopstr msg
    let (_peer, msg) := zmsgPopstr msg
    let (_name, msg) := zmsgPopstr msg
    match event with
    | none => .error .streqNull
    | some event =>
      if event = ofString "ENTER" then .ok s
      else if event = ofString "EXIT" then .ok s
      else if event = ofString "SHOUT" then do
        let (_group, msg) := zmsgPopstr msg
        let (message, _) := zmsgPopstr msg
        let zyreIn ← shoutBranch J inf message s.zyreIn
        .ok { s with zyreIn := zyreIn }
      else .ok s

/-- A message from the main thread; `zyre_bridge.cpp:375–387`. -/
def pipeMessage (msg : Option (List Bytes)) (s : ActorState) : Except Fault ActorState :=
  match msg with
  | none => .ok { s with loop := .interrupted }
  | some msg =>
    match (zmsgPopstr msg).1 with
    | none => .error .streqNull
    | some command =>
      if command = ofString "$TERM" then .ok { s with loop := .terminated } else .ok s

/-- The actor as a machine; events behind the end of the loop are not received. -/
def zyreBridgeActor (inf : ZyreBridgeInfo) : Machine ActorState ActorEvent Fault where
  step s e :=
    if s.loop = .running then
      match e with
      | .pipe msg => pipeMessage msg s
      | .zyre msg => zyreMessage J inf msg s
      | .other => .ok s
    else .ok s

end

/-- Before the first event. -/
def ActorState.start : ActorState := ⟨[], .running⟩

/-! ### The SHOUT branch, case by case -/

/-- `t` is the text of the `type` member of `m` without its first and last byte. -/
def StrippedType (m : Json) (t : Bytes) : Prop :=
  ∃ ty, m.objectGet (ofString "type") = some ty ∧ Json.stripped ty = some t

section

variable {J : Jansson} {inf : ZyreBridgeInfo}

/-- With a payload the loop writes it once for each entry that equals the type. -/
theorem inputLoop_of_payload {m p : Json} (hp : m.objectGet (ofString "payload") = some p)
    (type : Bytes) (types : List Bytes) (zyreIn : List PortWrite) :
    inputLoop J m type types zyreIn =
      .ok (zyreIn ++
        List.replicate (types.count type) ⟨J.dumps p, (cString (J.dumps p)).length⟩) := by
  induction types generalizing zyreIn with
  | nil => simp [inputLoop]
  | cons t ts ih =>
    rw [inputLoop]
    split
    · next h =>
      obtain rfl := (strCompare_eq_zero_iff _ _).mp h
      simp only [hp, Jansson.jsonDumps, Option.map_some, strlen, portWrite, List.count_cons_self,
        Bind.bind, Except.bind, ih, List.replicate_succ, List.append_assoc, List.singleton_append]
    · next h =>
      have hne : t ≠ type := fun he ↦ h ((strCompare_eq_zero_iff _ _).mpr he)
      rw [ih, List.count_cons_of_ne hne]

/-- Without a payload an entry that equals the type is the end. -/
theorem inputLoop_of_no_payload {m : Json} (hp : m.objectGet (ofString "payload") = none)
    (type : Bytes) (types : List Bytes) (zyreIn : List PortWrite) :
    inputLoop J m type types zyreIn =
      if type ∈ types then .error .strlenNull else .ok zyreIn := by
  induction types with
  | nil => simp [inputLoop]
  | cons t ts ih =>
    rw [inputLoop]
    split
    · next h =>
      obtain rfl := (strCompare_eq_zero_iff _ _).mp h
      simp only [hp, Jansson.jsonDumps, Option.map_none, strlen, Bind.bind, Except.bind,
        List.mem_cons_self, ↓reduceIte]
    · next h =>
      have hne : type ≠ t := fun he ↦ h ((strCompare_eq_zero_iff _ _).mpr he.symm)
      simp only [ih, List.mem_cons, hne, false_or]

/-- Stripping never throws: printed text is not empty. -/
theorem stripped_isSome (v : Json) : ∃ t, Json.stripped v = some t := by
  obtain ⟨a, r, ht, -⟩ := Json.text_start v
  exact ⟨_, by rw [Json.stripped, ht, substr, if_pos (by simp)]⟩

/-- The branch for a parsed message is the loop on its stripped type, if it has one. -/
theorem shoutBranch_of_loads (hJ : J.Documented) {message : Bytes} {m : Json}
    (hm : J.loads message = some m) {t : Bytes} (ht : StrippedType m t)
    (zyreIn : List PortWrite) :
    shoutBranch J inf (some message) zyreIn = inputLoop J m t inf.inputTypeList zyreIn := by
  obtain ⟨ty, hty, ht⟩ := ht
  have hwf : ty.WF J.printed := (hJ.loads_wf _ _ hm).1.objectGet hty
  simp only [shoutBranch, Jansson.jsonLoads, Option.bind_some, hm, hty, hJ.cString_dumps hwf]
  simp only [hJ.dumps_eq ty hwf]
  rw [Json.stripped] at ht
  rw [ht]

/-- A message without a stripped type is dropped. -/
theorem shoutBranch_of_not_stripped {message : Option Bytes}
    (h : ∀ m t, J.jsonLoads message = some m → ¬ StrippedType m t) (zyreIn : List PortWrite) :
    shoutBranch J inf message zyreIn = .ok zyreIn := by
  rw [shoutBranch]
  cases hm : J.jsonLoads message with
  | none => rfl
  | some m =>
    simp only
    cases hty : m.objectGet (ofString "type") with
    | none => rfl
    | some ty =>
      obtain ⟨t, ht⟩ := stripped_isSome ty
      exact absurd ⟨ty, hty, ht⟩ (h m t hm)

/-- The event handler once the first frame is known. -/
theorem zyreMessage_cons (frame : Bytes) (rest : List Bytes) (s : ActorState) :
    zyreMessage J inf (some (frame :: rest)) s =
      if cString frame = ofString "SHOUT" then
        (shoutBranch J inf (rest[3]?.map cString) s.zyreIn).map
          fun zyreIn ↦ { s with zyreIn := zyreIn }
      else .ok s := by
  have hpop : (zmsgPopstr (zmsgPopstr (zmsgPopstr (zmsgPopstr rest).2).2).2).1 =
      rest[3]?.map cString := by
    rcases rest with _ | ⟨_, _ | ⟨_, _ | ⟨_, _ | _⟩⟩⟩ <;> rfl
  rw [zyreMessage]
  simp only [zmsgPopstr] at hpop ⊢
  rw [hpop]
  split
  · next h =>
    rw [if_neg (by rw [h]; decide)]
  split
  · next h =>
    rw [if_neg (by rw [h]; decide)]
  split
  · cases shoutBranch J inf (rest[3]?.map cString) s.zyreIn <;> rfl
  · rfl

/-- A SHOUT reaches the branch with its fifth frame. -/
theorem step_shout {s : ActorState} (hs : s.loop = .running) (rest : List Bytes) :
    (zyreBridgeActor J inf).step s (.zyre (some (ofString "SHOUT" :: rest))) =
      (shoutBranch J inf (rest[3]?.map cString) s.zyreIn).map
        fun zyreIn ↦ { s with zyreIn := zyreIn } := by
  rw [zyreBridgeActor]
  simp only [hs, ↓reduceIte, zyreMessage_cons]
  rw [if_pos (by decide)]

end

end Ubx.Zyre
