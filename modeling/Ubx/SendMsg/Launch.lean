import Ubx.SendMsg.Main

/-!
# The example component: from the configuration to the loops

`new_component`, `destroy_component` and the beginning of `main` in
`src/zyre_bridge/test/test_send_msg.c:44–66,80–166,469–497`. Where `new_component` does not
accept a configuration it destroys a component without a node and without a query list, and
neither `zyre_stop` nor `zlist_size` gets over that. So the program ends there, and the only
NULL that it returns is for the file or the memory.
-/

namespace Ubx.SendMsg

open Ubx.Base Ubx.Zyre

/-- What `main` learns from the libraries before its loops. -/
structure MainExtern where
  /-- `zyre_version` of the library that runs. -/
  version : Int32 × Int32 × Int32
  /-- `ZYRE_VERSION_MAJOR`, `_MINOR` and `_PATCH` of the header. -/
  headerVersion : Int32 × Int32 × Int32
  /-- Whether `zmalloc` returns memory. -/
  zmalloc : Bool
  /-- `zyre_new`; `none` is NULL. -/
  zyreNew : Bytes → Option ZyreNode
  /-- `zyre_start`. -/
  zyreStart : ZyreNode → Int32
  /-- Whether `zyre_stop` returns for NULL. -/
  zyreStopNull : Bool
  /-- Whether `zlist_new` returns a list. -/
  zlistNew : Bool

/-- Calls to the Zyre node of the component. -/
inductive NodeCall
  | setHeader (key value : Bytes)
  /-- With the argument of `"%s"`. -/
  | gossipConnect (endpoint : Option Bytes)
  | start
  | join (group : Bytes)

/-- A number that is accepted. -/
abbrev Positive := { n : Int32 // 0 < n.toInt }

/-- `component_t` behind `new_component`. -/
structure ComponentSetup where
  name : Bytes
  timeout : Positive
  noOfUpdates : Positive
  noOfQueries : Positive
  noOfFcnBlockCalls : Positive
  self : Component
  calls : List NodeCall

/-- How `new_component` and `destroy_component` end. -/
inductive Made
  /-- NULL is returned, or `*self_p` is set to it. -/
  | null
  /-- An assertion fails, or NULL is dereferenced. -/
  | aborted
  | component (c : ComponentSetup)

/-- `json_integer_value` in an `int`: zero for anything but an integer, and the low bits of
one that is too long. -/
def intMember (config : Json) (key : Bytes) : Int32 :=
  match config.objectGet key with
  | some (.integer n) => n.toInt32
  | _ => 0

/-- A member that is checked with `<= 0`. -/
def positiveMember (config : Json) (key : Bytes) : Option Positive :=
  if h : (intMember config key).toInt ≤ 0 then none
  else some ⟨intMember config key, Int.not_le.mp h⟩

/-- `destroy_component`; `test_send_msg.c:44–66`. -/
def destroyComponent (ext : MainExtern) (node : Option ZyreNode) (list : Option (List Query)) :
    Made :=
  if node.isNone && !ext.zyreStopNull then .aborted
  else
    match list with
    -- `zlist_size` of NULL
    | none => .aborted
    | some _ => .null

section

variable (J : Jansson)

/-- The value of a header. -/
def headerValue (value : Json) : Bytes :=
  match value with
  | .string s => cString s
  | value => cString (J.dumps value)

/-- `json_object_foreach` over the configuration; `test_send_msg.c:129–139`. -/
def headerCalls (config : Json) : List NodeCall :=
  match config with
  | .object ms => ms.map fun m ↦ .setHeader (cString m.1) (headerValue J m.2)
  | _ => []

/-- The connection to the gossip hub; `test_send_msg.c:142–148`. A member that is missing is
not `json_is_null`. -/
def gossipCalls (config : Json) : List NodeCall :=
  match config.objectGet (ofString "gossip_endpoint") with
  | some .null => []
  | endpoint => [.gossipConnect ((endpoint.bind Json.stringValue).map cString)]

/-- `new_component`; `test_send_msg.c:80–166`. -/
def newComponent (ext : MainExtern) (config : Option Json) : Made :=
  if ext.zmalloc = false then .null
  else
    match config with
    | none => .null
    | some config =>
      match (config.objectGet (ofString "short-name")).bind Json.stringValue with
      | none => destroyComponent ext none none
      | some name =>
        match positiveMember config (ofString "timeout") with
        | none => destroyComponent ext none none
        | some timeout =>
          match positiveMember config (ofString "no_of_updates") with
          | none => destroyComponent ext none none
          | some noOfUpdates =>
            match positiveMember config (ofString "no_of_queries") with
            | none => destroyComponent ext none none
            | some noOfQueries =>
              match positiveMember config (ofString "no_of_fcn_block_calls") with
              | none => destroyComponent ext none none
              | some noOfFcnBlockCalls =>
                match ext.zyreNew (cString name) with
                | none => destroyComponent ext none none
                | some node =>
                  if ext.zyreStart node ≠ 0 then .aborted
                  -- the check for NULL calls `zlist_size`
                  else if ext.zlistNew = false then .aborted
                  else
                    .component
                      { name := cString name
                        timeout := timeout
                        noOfUpdates := noOfUpdates
                        noOfQueries := noOfQueries
                        noOfFcnBlockCalls := noOfFcnBlockCalls
                        self := ⟨node, []⟩
                        calls := headerCalls J config ++ gossipCalls config ++
                          [.start, .join (ofString "local")] }

/-- Where `main` is before its first loop. -/
inductive Launch
  | returned (rc : Int)
  | aborted
  | running (c : ComponentSetup) (s : MainState)

/-- The beginning of `main`; `test_send_msg.c:469–497`. `config` is what `json_load_file`
returns. -/
def launch (ext : MainExtern) (config : Option Json) (clock : Option Timespec) : Launch :=
  if ext.version ≠ ext.headerVersion then .aborted
  else
    match config with
    | none => .returned (-1)
    | some config =>
      match newComponent J ext (some config) with
      | .null => .returned (-1)
      | .aborted => .aborted
      | .component c => .running c (.start c.self clock)

end

/-- What the loops have from a component. -/
def ComponentSetup.setting (c : ComponentSetup) (late : Int32 → Timespec → Timespec → Bool)
    (unpacks : Bytes → Bool) (zuuid : Nat → Zuuid) : Setting :=
  ⟨c.noOfUpdates.1, c.noOfUpdates.2, late c.timeout.1, unpacks, zuuid⟩

/-! ### What is accepted -/

/-- A member is an integer with these low bits. -/
def HasInt (config : Json) (key : Bytes) (n : Int32) : Prop :=
  ∃ i, config.objectGet key = some (.integer i) ∧ n = i.toInt32

/-- A configuration is accepted, and the component comes from it. -/
structure Accepted (J : Jansson) (ext : MainExtern) (config : Json) (c : ComponentSetup) :
    Prop where
  name : ∃ s, config.objectGet (ofString "short-name") = some (.string s) ∧ c.name = cString s
  timeout : HasInt config (ofString "timeout") c.timeout.1
  noOfUpdates : HasInt config (ofString "no_of_updates") c.noOfUpdates.1
  noOfQueries : HasInt config (ofString "no_of_queries") c.noOfQueries.1
  noOfFcnBlockCalls : HasInt config (ofString "no_of_fcn_block_calls") c.noOfFcnBlockCalls.1
  node : ext.zyreNew c.name = some c.self.localNode
  started : ext.zyreStart c.self.localNode = 0
  list : ext.zlistNew = true
  queryList : c.self.queryList = []
  calls : c.calls = headerCalls J config ++ gossipCalls config ++ [.start, .join (ofString "local")]

section

variable {J : Jansson} {ext : MainExtern} {config : Json} {key : Bytes}

/-- Nothing but an integer is positive. -/
theorem positiveMember_eq_some_iff (n : Positive) :
    positiveMember config key = some n ↔ HasInt config key n.1 := by
  have hint (h : 0 < (intMember config key).toInt) : HasInt config key (intMember config key) := by
    rw [intMember] at h ⊢
    split at h
    · next i hi => exact ⟨i, hi, rfl⟩
    · exact absurd h (by decide)
  rw [positiveMember]
  constructor
  · intro h
    split at h
    · exact absurd h (by simp)
    · next hpos =>
      rw [← Option.some.inj h]
      exact hint (Int.not_le.mp hpos)
  · rintro ⟨i, hi, hn⟩
    have hval : intMember config key = n.1 := by rw [intMember, hi, hn]
    have hpos := n.2
    rw [dif_neg (by rw [hval]; omega)]
    exact congrArg some (Subtype.ext hval)

/-- Without a query list a component is never destroyed to the end. -/
theorem destroyComponent_none (ext : MainExtern) (node : Option ZyreNode) :
    destroyComponent ext node none = .aborted := by
  rw [destroyComponent]
  split <;> rfl

/-- `json_string_value` of a member. -/
theorem stringValue_member_iff {t : Bytes} :
    (config.objectGet key).bind Json.stringValue = some t ↔
      config.objectGet key = some (.string t) := by
  rcases config.objectGet key with _ | v
  · simp
  · cases v <;> simp [Json.stringValue]

/-- A component is made exactly if the configuration is accepted. -/
theorem newComponent_eq_component_iff (c : ComponentSetup) :
    newComponent J ext (some config) = .component c ↔
      ext.zmalloc = true ∧ Accepted J ext config c := by
  have hint (key : Bytes) (n : Positive) : positiveMember config key = some n ↔ _ :=
    positiveMember_eq_some_iff n
  constructor
  · intro h
    rw [newComponent] at h
    split at h
    · cases h
    next hmalloc =>
    simp only [destroyComponent_none] at h
    split at h
    · cases h
    next name hname =>
    split at h
    · cases h
    next timeout htimeout =>
    split at h
    · cases h
    next noOfUpdates hupdates =>
    split at h
    · cases h
    next noOfQueries hqueries =>
    split at h
    · cases h
    next noOfFcnBlockCalls hcalls =>
    split at h
    · cases h
    next node hnode =>
    split at h
    · cases h
    next hstart =>
    split at h
    · cases h
    next hlist =>
    obtain rfl := Made.component.inj h
    refine ⟨by simpa using hmalloc, ?_⟩
    exact ⟨⟨name, stringValue_member_iff.mp hname, rfl⟩, (hint _ _).mp htimeout,
      (hint _ _).mp hupdates, (hint _ _).mp hqueries, (hint _ _).mp hcalls, hnode,
      not_not.mp hstart, by simpa using hlist, rfl, rfl⟩
  · rintro ⟨hmalloc, ⟨name, hname, hcname⟩, htimeout, hupdates, hqueries, hfcn, hnode, hstart,
      hlist, hempty, hcalls⟩
    rw [newComponent, hmalloc, if_neg (by simp)]
    simp only [stringValue_member_iff.mpr hname, (hint _ _).mpr htimeout, (hint _ _).mpr hupdates,
      (hint _ _).mpr hqueries, (hint _ _).mpr hfcn, ← hcname, hnode, hstart, hlist]
    obtain ⟨name, timeout, noOfUpdates, noOfQueries, noOfFcnBlockCalls, ⟨node, list⟩, calls⟩ := c
    simp only at hempty hcalls
    rw [hempty, hcalls]
    rfl

/-- NULL is returned only for want of memory. -/
theorem newComponent_eq_null_iff :
    newComponent J ext (some config) = .null ↔ ext.zmalloc = false := by
  rw [newComponent]
  split
  · next h => simp [h]
  · next h =>
    simp only [destroyComponent_none]
    refine ⟨fun hn ↦ ?_, fun hf ↦ absurd hf h⟩
    repeat
      split at hn
      · cases hn
    cases hn

/-- The loops are reached with an accepted configuration. -/
theorem launch_eq_running_iff {config : Option Json} {clock : Option Timespec}
    (c : ComponentSetup) (s : MainState) :
    launch J ext config clock = .running c s ↔ ext.version = ext.headerVersion ∧
      ext.zmalloc = true ∧ (∃ root, config = some root ∧ Accepted J ext root c) ∧
        s = .start c.self clock := by
  by_cases hversion : ext.version = ext.headerVersion
  · cases config with
    | none => simp [launch, hversion]
    | some root =>
      rw [launch, if_neg (not_not.mpr hversion)]
      have hmade (c : ComponentSetup) : newComponent J ext (some root) = .component c ↔ _ :=
        newComponent_eq_component_iff c
      cases hnew : newComponent J ext (some root) with
      | component c' =>
        obtain ⟨hmalloc, haccepted⟩ := (hmade c').mp hnew
        simp only [Launch.running.injEq, hversion, hmalloc, true_and]
        constructor
        · rintro ⟨rfl, rfl⟩
          exact ⟨⟨root, rfl, haccepted⟩, rfl⟩
        · rintro ⟨⟨root', hroot, haccepted'⟩, hs⟩
          obtain rfl := Option.some.inj hroot
          have hsame := hnew.symm.trans ((hmade c).mpr ⟨hmalloc, haccepted'⟩)
          obtain rfl := Made.component.inj hsame
          exact ⟨rfl, hs.symm⟩
      | null | aborted =>
        refine ⟨fun h ↦ (by cases h), ?_⟩
        rintro ⟨-, hmalloc, ⟨root', hroot, haccepted⟩, -⟩
        obtain rfl := Option.some.inj hroot
        rw [(hmade c).mpr ⟨hmalloc, haccepted⟩] at hnew
        cases hnew
  · simp [launch, hversion]

/-- What is returned before the loops is -1, for the file or the memory. -/
theorem launch_eq_returned_iff {config : Option Json} {clock : Option Timespec} (rc : Int) :
    launch J ext config clock = .returned rc ↔
      rc = -1 ∧ ext.version = ext.headerVersion ∧ (config = none ∨ ext.zmalloc = false) := by
  have hminus : Launch.returned (-1) = .returned rc ↔ rc = -1 := by
    rw [Launch.returned.injEq]
    exact eq_comm
  by_cases hversion : ext.version = ext.headerVersion
  · cases config with
    | none => simp [launch, hversion, hminus]
    | some root =>
      have hnull : newComponent J ext (some root) = .null ↔ ext.zmalloc = false :=
        newComponent_eq_null_iff
      rw [launch, if_neg (not_not.mpr hversion)]
      cases hnew : newComponent J ext (some root) with
      | null => simp [hversion, hnull.mp hnew, hminus]
      | aborted | component =>
        have hmalloc : ext.zmalloc ≠ false := fun h ↦ by simp [hnull.mpr h] at hnew
        simp [hmalloc]
  · simp [launch, hversion]

/-- In all other cases the program ends with a signal. -/
theorem launch_eq_aborted_iff {config : Option Json} {clock : Option Timespec} :
    launch J ext config clock = .aborted ↔ ext.version ≠ ext.headerVersion ∨
      ext.zmalloc = true ∧ ∃ root, config = some root ∧ ∀ c, ¬ Accepted J ext root c := by
  have hreturned (rc : Int) : launch J ext config clock = .returned rc ↔ _ :=
    launch_eq_returned_iff rc
  have hrunning (c : ComponentSetup) (s : MainState) :
      launch J ext config clock = .running c s ↔ _ := launch_eq_running_iff c s
  cases hl : launch J ext config clock with
  | returned rc =>
    obtain ⟨-, hversion, hcase⟩ := (hreturned rc).mp hl
    simp only [reduceCtorEq, false_iff, not_or, not_and, hversion, ne_eq, not_true_eq_false,
      not_false_eq_true, true_and]
    rintro hmalloc ⟨root, rfl, -⟩
    simp [hmalloc] at hcase
  | running c s =>
    obtain ⟨hversion, -, ⟨root, rfl, haccepted⟩, -⟩ := (hrunning c s).mp hl
    simp only [reduceCtorEq, false_iff, not_or, not_and, hversion, ne_eq, not_true_eq_false,
      not_false_eq_true, true_and]
    rintro - ⟨root', hroot, hnone⟩
    obtain rfl := Option.some.inj hroot
    exact hnone c haccepted
  | aborted =>
    refine iff_of_true rfl ?_
    by_contra hno
    rw [not_or, not_not, not_and, not_exists] at hno
    obtain ⟨hversion, hno⟩ := hno
    cases hmalloc : ext.zmalloc with
    | false =>
      have hback := (hreturned (-1)).mpr ⟨rfl, hversion, .inr hmalloc⟩
      rw [hl] at hback
      cases hback
    | true =>
      cases config with
      | none =>
        have hback := (hreturned (-1)).mpr ⟨rfl, hversion, .inl rfl⟩
        rw [hl] at hback
        cases hback
      | some root =>
        obtain ⟨c, hc⟩ := not_forall_not.mp fun hnone ↦ hno hmalloc root ⟨rfl, hnone⟩
        have hback := (hrunning c _).mpr ⟨hversion, hmalloc, ⟨root, rfl, hc⟩, rfl⟩
        rw [hl] at hback
        cases hback

end

/-- For every configuration: `main` returns before its loops exactly if the file cannot be
read or the memory is out, and always -1; a configuration that is not accepted ends it with a
signal; and else its loops start with an empty query list and the values of the configuration,
and every run of them that does not fail shouts nothing, the query for the root node, or that
and behind it the updates, as many as the configuration says. -/
theorem launch_exact {J : Jansson} (hJ : J.RoundTrips) (hrej : J.RejectsScalars)
    (ext : MainExtern) (config : Option Json) (clock : Option Timespec) :
    (∀ rc, launch J ext config clock = .returned rc ↔ rc = -1 ∧
      ext.version = ext.headerVersion ∧ (config = none ∨ ext.zmalloc = false)) ∧
    (launch J ext config clock = .aborted ↔ ext.version ≠ ext.headerVersion ∨
      ext.zmalloc = true ∧ ∃ root, config = some root ∧ ∀ c, ¬ Accepted J ext root c) ∧
    (∀ c s, launch J ext config clock = .running c s ↔ ext.version = ext.headerVersion ∧
      ext.zmalloc = true ∧ (∃ root, config = some root ∧ Accepted J ext root c) ∧
        s = .start c.self clock) ∧
    ∀ c s, launch J ext config clock = .running c s →
      ∀ late unpacks zuuid fuel events s',
        (mainMachine J (c.setting late unpacks zuuid) (fuel + 1)).run s events = .ok s' →
          s'.shouted = [] ∨ s'.shouted = [(rootCall J (c.setting late unpacks zuuid)).text] ∨
            s'.shouted = (mainCalls J (c.setting late unpacks zuuid)).map Asked.text ∧
              (s'.shouted.length : Int) = 1 + c.noOfUpdates.1.toInt := by
  refine ⟨launch_eq_returned_iff, launch_eq_aborted_iff, launch_eq_running_iff, fun c s h ↦ ?_⟩
  obtain ⟨-, -, ⟨root, -, haccepted⟩, rfl⟩ := (launch_eq_running_iff c s).mp h
  intro late unpacks zuuid fuel events s' hr
  have hlen : ((mainCalls J (c.setting late unpacks zuuid)).length : Int) =
      1 + c.noOfUpdates.1.toInt := by
    have hpos := c.noOfUpdates.2
    have hn : (c.noOfUpdates.1.toNatClampNeg : Int) = c.noOfUpdates.1.toInt := by
      rw [← Int32.toNat_toInt]
      omega
    simp only [mainCalls, ComponentSetup.setting, List.length_cons, List.length_map,
      List.length_range]
    omega
  obtain ⟨htold, -⟩ := told_of_run hJ hrej haccepted.queryList hr
  cases htold with
  | nothing texts => exact .inl texts
  | asked x texts => exact .inr (.inl texts)
  | ended texts => exact .inr (.inl texts)
  | all texts => exact .inr (.inr ⟨texts, by rw [texts, List.length_map, hlen]⟩)

/-- Libraries that work, with the version of the header. -/
def workingExtern : MainExtern where
  version := (2, 0, 1)
  headerVersion := (2, 0, 1)
  zmalloc := true
  zyreNew _ := some ⟨ofString "0C"⟩
  zyreStart _ := 0
  zyreStopNull := false
  zlistNew := true

/-- The numbers and the name of `test_config.json`. -/
def testConfig : Json :=
  .object [(ofString "short-name", .string (ofString "msg_example_comp")),
    (ofString "gossip_endpoint", .string (ofString "ipc:///tmp/local-hub")),
    (ofString "timeout", .integer 5000), (ofString "no_of_updates", .integer 5),
    (ofString "no_of_queries", .integer 5), (ofString "no_of_fcn_block_calls", .integer 1)]

set_option maxRecDepth 20000 in
/-- With it the loops are reached, and the query is shouted with all of five updates, if at
all with one. -/
theorem launch_exact_test :
    ∃ c s, launch .reference workingExtern (some testConfig) none = .running c s ∧
      ∀ late unpacks zuuid fuel events s',
        (mainMachine .reference (c.setting late unpacks zuuid) (fuel + 1)).run s events = .ok s' →
          s'.shouted = [] ∨
            s'.shouted = [(rootCall .reference (c.setting late unpacks zuuid)).text] ∨
            s'.shouted = (mainCalls .reference (c.setting late unpacks zuuid)).map Asked.text ∧
              (s'.shouted.length : Int) = 6 := by
  have hrun : ∃ c s, launch .reference workingExtern (some testConfig) none = .running c s ∧
      c.noOfUpdates.1 = 5 := ⟨_, _, rfl, rfl⟩
  obtain ⟨c, s, hl, hn⟩ := hrun
  have hall := (launch_exact Jansson.reference_roundTrips Jansson.reference_rejectsScalars
    workingExtern (some testConfig) none).2.2.2 c s hl
  simp only [hn] at hall
  exact ⟨c, s, hl, hall⟩

end Ubx.SendMsg
