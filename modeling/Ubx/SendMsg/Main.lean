import Ubx.SendMsg.Loop

/-!
# The example component: `main`

`src/zyre_bridge/test/test_send_msg.c:332–367,449–803`. The program waits for peers, asks for
the root node of the world model, waits until its query list is empty, and then sends the
updates of its configuration. Both loops end on a timeout as well. The comparison of the
clock with the timeout is made in `double` and is a parameter; output to the console is left
out, and so is what is freed.
-/

namespace Ubx.SendMsg

open Ubx.Base Ubx.Zyre

/-- `struct timespec`. -/
structure Timespec where
  sec : Int
  nsec : Int

/-- What `main` has from the configuration, and from code that is not here. -/
structure Setting where
  /-- `self->no_of_updates`, as `new_component` accepts it. -/
  noOfUpdates : Int32
  pos : 0 < noOfUpdates.toInt
  /-- The time from the first to the second is longer than `self->timeout`. -/
  late : Timespec → Timespec → Bool
  /-- `zhash_unpack` of a frame is not NULL. -/
  unpacks : Bytes → Bool
  /-- The UUIDs of `zuuid_new`, in order. -/
  zuuid : Nat → Zuuid

/-- Where `main` is. -/
inductive Phase
  /-- The loop for connected peers. -/
  | connecting
  /-- The loop for the answer. -/
  | waiting
  /-- Returned. -/
  | ended (rc : Int)
  deriving DecidableEq

/-- State of `main`. -/
structure MainState where
  self : Component
  ts : Timespec
  /-- UUIDs drawn so far. -/
  drawn : Nat
  /-- Arguments of the `zyre_shouts` calls so far. -/
  shouted : List Bytes
  phase : Phase

/-- What one pass of a loop gets; a clock that cannot be read is `none`. -/
inductive MainEvent
  /-- The number of peers. -/
  | peers (size : Nat) (clock : Option Timespec)
  /-- What `zpoller_wait` and `zmsg_recv` return: nothing, or a message, which may be NULL. -/
  | pass (received : Option (Option (List Bytes))) (clock : Option Timespec)

/-! ### Handlers -/

/-- A handler that pops a fixed number of strings. -/
def popStrings (size : Nat) (msg : List Bytes) : Except Fault Unit :=
  if msg.length ≠ size then .error .assertFailed else .ok ()

/-- `handle_enter`; `test_send_msg.c:332–348`. -/
def handleEnter (unpacks : Bytes → Bool) (msg : List Bytes) : Except Fault Unit :=
  if msg.length ≠ 4 then .error .assertFailed
  else
    let (_peerid, msg) := zmsgPopstr msg
    let (_name, msg) := zmsgPopstr msg
    match msg with
    | [] => .error .assertFailed
    | headersPacked :: _ => if unpacks headersPacked then .ok () else .error .assertFailed

/-- `handle_exit`. -/
def handleExit (msg : List Bytes) : Except Fault Unit := popStrings 2 msg

/-- `handle_whisper`. -/
def handleWhisper (msg : List Bytes) : Except Fault Unit := popStrings 3 msg

/-- `handle_join`. -/
def handleJoin (msg : List Bytes) : Except Fault Unit := popStrings 3 msg

/-- `handle_evasive`. -/
def handleEvasive (msg : List Bytes) : Except Fault Unit := popStrings 2 msg

section

variable (J : Jansson) (S : Setting) (fuel : Nat)

/-- The chain of handlers; `test_send_msg.c:543–558`. -/
def handleMessage (self : Component) (msg : List Bytes) : Except Fault (Option Component) := do
  let (event, msg) := zmsgPopstr msg
  if ← streq event (some (ofString "ENTER")) then
    handleEnter S.unpacks msg
    .ok (some self)
  else if ← streq event (some (ofString "EXIT")) then
    handleExit msg
    .ok (some self)
  else if ← streq event (some (ofString "SHOUT")) then
    handleShout J fuel self msg
  else if ← streq event (some (ofString "WHISPER")) then
    handleWhisper msg
    .ok (some self)
  else if ← streq event (some (ofString "JOIN")) then
    handleJoin msg
    .ok (some self)
  else if ← streq event (some (ofString "EVASIVE")) then
    handleEvasive msg
    .ok (some self)
  else .ok (some self)

/-! ### The loops -/

/-- The timeout has run off on a clock that can be read. -/
def overdue (ts : Timespec) (clock : Option Timespec) : Bool := clock.any (S.late ts)

/-- The query for the root node; `test_send_msg.c:525–531`. -/
def MainState.query (s : MainState) (clock : Option Timespec) : MainState :=
  let (msg, self) := sendQuery J s.self (some (ofString "GET_ROOT_NODE")) none (S.zuuid s.drawn)
  { self := self
    ts := clock.getD s.ts
    drawn := s.drawn + 1
    shouted := s.shouted ++ msg.toList
    phase := .waiting }

/-- The parameters of an update; `test_send_msg.c:621–638`. -/
def createParams (parent : Option Bytes) (nodeId : Zuuid) : Json :=
  let attribute1 :=
    jsonObjectSet (.object []) (ofString "key") (jsonString (some (ofString "name")))
  let attribute1 :=
    jsonObjectSet attribute1 (ofString "value") (jsonString (some (ofString "robot_1")))
  let attribute2 :=
    jsonObjectSet (.object []) (ofString "key") (jsonString (some (ofString "comment")))
  let attribute2 :=
    jsonObjectSet attribute2 (ofString "value") (jsonString (some (ofString "none")))
  let attributes := Json.array [attribute1, attribute2]
  let node :=
    jsonObjectSet (.object []) (ofString "@graphtype") (jsonString (some (ofString "Node")))
  let node := jsonObjectSet node (ofString "id") (jsonString (some nodeId.canonical))
  let node := jsonObjectSet node (ofString "attributes") (some attributes)
  let params := jsonObjectSet (.object []) (ofString "node") (some node)
  jsonObjectSet params (ofString "parentId") (jsonString parent)

/-- One pass of the update loop; `test_send_msg.c:599–651`. -/
def MainState.update (s : MainState) : MainState :=
  let nodeId := S.zuuid s.drawn
  -- `RSG_parent` is NULL from `zmalloc` on
  let (msg, self) := sendUpdate J s.self (some (ofString "CREATE"))
    (some (createParams none nodeId)) (S.zuuid (s.drawn + 1))
  { s with self := self, drawn := s.drawn + 2, shouted := s.shouted ++ msg.toList }

/-- The update loop. -/
def MainState.updates : Nat → MainState → MainState
  | 0, s => s
  | n + 1, s => MainState.updates n (s.update J S)

/-- The rest of a pass of the loop for the answer, and what comes behind the loop. -/
def MainState.endPass (s : MainState) (clock : Option Timespec) : MainState :=
  if overdue S s.ts clock then { s with phase := .ended 0 }
  else if 0 < s.self.queryList.length then s
  else { s.updates J S S.noOfUpdates.toNatClampNeg with phase := .ended 0 }

/-- `main` behind `new_component`, one event a pass; an event of the other loop is not looked
at. -/
def mainMachine : Machine MainState MainEvent Stop where
  step s e :=
    match s.phase, e with
    | .connecting, .peers size clock =>
      if 0 < size then .ok (s.query J S clock)
      else if overdue S s.ts clock then .ok { s with phase := .ended 0 }
      else .ok s
    | .waiting, .pass received clock =>
      match received with
      | none => .ok (s.endPass J S clock)
      | some none => .ok { s with phase := .ended (-1) }
      | some (some msg) =>
        match handleMessage J S fuel s.self msg with
        | .error f => .error (.fault f)
        | .ok none => .error .notThrough
        | .ok (some self) => .ok ({ s with self := self }.endPass J S clock)
    | _, _ => .ok s

end

/-- Before the first pass. -/
def MainState.start (self : Component) (clock : Option Timespec) : MainState :=
  { self := self, ts := clock.getD ⟨0, 0⟩, drawn := 0, shouted := [], phase := .connecting }

/-! ### The answer -/

/-- The content of a shout is a result for the query with id `queryId`. -/
def AnswersQuery (J : Jansson) (queryId content : Bytes) : Prop :=
  ∃ root a b t p, J.loads (cString content) = some root ∧ Conforms root a b t p ∧
    t ∈ resultTypes ∧ p.isDocument = true ∧
    p.objectGet (ofString "queryId") = some (.string queryId)

/-- A message is a shout with such a content. -/
def AnswersMessage (J : Jansson) (queryId : Bytes) (msg : List Bytes) : Prop :=
  ∃ event peerid name group content, msg = [event, peerid, name, group, content] ∧
    cString event = ofString "SHOUT" ∧ AnswersQuery J queryId content

section

variable {J : Jansson} {S : Setting} {fuel : Nat} {self self' : Component} {x : Query}

/-- A component that waits for one query takes it off its list with a result for it. -/
theorem handleShout_answers (hJ : J.RoundTrips) (hx : self.queryList = [x]) {content : Bytes}
    (h : AnswersQuery J x.uid.canonical content) (fuel : Nat) (peerid name group : Bytes) :
    handleShout J (fuel + 1) self [peerid, name, group, content] =
      .ok (some { self with queryList := [] }) := by
  obtain ⟨root, a, b, t, p, hm, hc, ht, hdoc, hid⟩ := h
  have hwf : p.WF J.printed := (hJ.loads_wf _ _ hm).1.objectGet hc.payload
  have hn : J.Nests p := (hJ.loads_nests _ _ hm).objectGet hc.payload
  have hsearch := searchLoop_head (x := x) rfl fuel []
  rw [handleShout_of_conforms hJ.toDocumented hm hc, if_pos ht,
    resultBranch_dumps hJ hwf hdoc hn, hid, hx]
  simp only [Option.bind_some, Json.stringValue, hsearch]
  rfl

/-- Any other shout that it gets through changes nothing. -/
theorem handleShout_keeps (hJ : J.RoundTrips) (hrej : J.RejectsScalars)
    (hx : self.queryList = [x]) {peerid name group content : Bytes}
    (h : ¬ AnswersQuery J x.uid.canonical content)
    (hs : handleShout J fuel self [peerid, name, group, content] = .ok (some self')) :
    self' = self := by
  have hsame (he : handleShout J fuel self [peerid, name, group, content] = .ok (some self)) :
      self' = self := Option.some.inj (Except.ok.inj (hs.symm.trans he))
  cases hm : J.loads (cString content) with
  | none => exact hsame (handleShout_of_loads_none hm fuel peerid name group)
  | some root =>
    obtain ⟨hn, -⟩ | ⟨-, a, b, t, p, hc, -⟩ | ⟨hn, hnc, -⟩ :=
      decodeJson_cases hJ.toDocumented hm .zero
    · rw [handleShout_of_copiesNull hJ.toDocumented hm hn] at hs
      exact absurd hs (by simp)
    · have hwf : p.WF J.printed := (hJ.loads_wf _ _ hm).1.objectGet hc.payload
      have hn : J.Nests p := (hJ.loads_nests _ _ hm).objectGet hc.payload
      have hshout : handleShout J fuel self [peerid, name, group, content] = _ :=
        handleShout_of_conforms hJ.toDocumented hm hc fuel peerid name group
      by_cases ht : t ∈ resultTypes
      · rw [if_pos ht] at hshout
        cases hdoc : p.isDocument with
        | false => exact hsame (hshout.trans (resultBranch_scalar hrej hwf hdoc fuel _ _ _))
        | true =>
          rw [resultBranch_dumps hJ hwf hdoc hn, hx] at hshout
          rw [hshout] at hs
          by_cases hq : HasQueryId p
          · obtain ⟨q, hq⟩ := hq
            have hne : x.uid.canonical ≠ q := by
              rintro rfl
              exact h ⟨root, a, b, t, p, hm, hc, ht, hdoc, hq⟩
            have hvalid : Json.ValidString q := by
              cases hwf.objectGet hq with
              | string hv => exact hv
            simp only [hq, Option.bind_some, Json.stringValue, searchLoop_stuck hvalid hne] at hs
            exact absurd hs (by simp [Except.map])
          · rw [queryId_eq_none hq] at hs
            cases fuel <;> simp [searchLoop, streq, Except.map, Bind.bind, Except.bind] at hs
      · rw [if_neg ht] at hshout
        exact hsame hshout
    · exact hsame
        (handleShout_of_not_conforms hJ.toDocumented hm hn hnc fuel peerid name group)

/-- The chain of handlers compares the first frame. -/
theorem handleMessage_cons (event : Bytes) (rest : List Bytes) :
    handleMessage J S fuel self (event :: rest) =
      if cString event = ofString "ENTER" then
        (handleEnter S.unpacks rest).bind fun _ ↦ .ok (some self)
      else if cString event = ofString "EXIT" then
        (handleExit rest).bind fun _ ↦ .ok (some self)
      else if cString event = ofString "SHOUT" then handleShout J fuel self rest
      else if cString event = ofString "WHISPER" then
        (handleWhisper rest).bind fun _ ↦ .ok (some self)
      else if cString event = ofString "JOIN" then
        (handleJoin rest).bind fun _ ↦ .ok (some self)
      else if cString event = ofString "EVASIVE" then
        (handleEvasive rest).bind fun _ ↦ .ok (some self)
      else .ok (some self) := by
  have hstreq {e : Bytes} (he : cString e = e) :
      streq (some (cString event)) (some e) = .ok (decide (cString event = e)) := by
    rw [streq, cString_eq_self (zero_not_mem_cString event), he]
  have hbind (c : Bool) (f : Bool → Except Fault (Option Component)) :
      (Except.ok c).bind f = f c := rfl
  simp only [handleMessage, zmsgPopstr, Bind.bind, hstreq (e := ofString "ENTER") (by decide),
    hstreq (e := ofString "EXIT") (by decide), hstreq (e := ofString "SHOUT") (by decide),
    hstreq (e := ofString "WHISPER") (by decide), hstreq (e := ofString "JOIN") (by decide),
    hstreq (e := ofString "EVASIVE") (by decide), hbind, decide_eq_true_eq]

/-- A message is handled as a shout, or changes nothing. -/
theorem handleMessage_cases {msg : List Bytes}
    (hs : handleMessage J S fuel self msg = .ok (some self')) :
    (∃ event rest, msg = event :: rest ∧ cString event = ofString "SHOUT" ∧
        handleShout J fuel self rest = .ok (some self')) ∨
      (∀ event rest, msg = event :: rest → cString event ≠ ofString "SHOUT") ∧ self' = self := by
  cases msg with
  | nil => exact absurd hs (by simp [handleMessage, zmsgPopstr, streq, Bind.bind, Except.bind])
  | cons event rest =>
    rw [handleMessage_cons] at hs
    -- a handler returns, or an assertion fails
    have hsame {r : Except Fault Unit} (hr : (r.bind fun _ ↦ Except.ok (some self)) =
        .ok (some self')) : self' = self := by
      cases r with
      | error f => exact absurd hr (by simp [Except.bind])
      | ok u => exact (Option.some.inj (Except.ok.inj hr)).symm
    have hother {e : Bytes} (he : cString event = e) (hne : e ≠ ofString "SHOUT") :
        ∀ x xs, event :: rest = x :: xs → cString x ≠ ofString "SHOUT" := by
      intro x xs hx
      obtain ⟨rfl, -⟩ := List.cons.inj hx
      exact he ▸ hne
    split at hs
    · next he => exact .inr ⟨hother he (by decide), hsame hs⟩
    split at hs
    · next he => exact .inr ⟨hother he (by decide), hsame hs⟩
    split at hs
    · next he => exact .inl ⟨event, rest, rfl, he, hs⟩
    next hshout =>
    refine .inr ⟨hother rfl hshout, ?_⟩
    split at hs
    · exact hsame hs
    split at hs
    · exact hsame hs
    split at hs
    · exact hsame hs
    · exact (Option.some.inj (Except.ok.inj hs)).symm

/-- With one query to wait for, a message takes it off the list if it answers it, and changes
nothing otherwise. -/
theorem handleMessage_of_waiting (hJ : J.RoundTrips) (hrej : J.RejectsScalars)
    (hx : self.queryList = [x]) {msg : List Bytes}
    (hs : handleMessage J S (fuel + 1) self msg = .ok (some self')) :
    AnswersMessage J x.uid.canonical msg ∧ self' = { self with queryList := [] } ∨
      ¬ AnswersMessage J x.uid.canonical msg ∧ self' = self := by
  obtain ⟨event, rest, rfl, he, hs⟩ | ⟨hne, rfl⟩ := handleMessage_cases hs
  · -- a shout has four more frames, or an assertion fails
    by_cases hlen : rest.length = 4
    · obtain ⟨peerid, name, group, content, rfl⟩ : ∃ a b c d, rest = [a, b, c, d] := by
        match rest, hlen with
        | [a, b, c, d], _ => exact ⟨a, b, c, d, rfl⟩
      by_cases ha : AnswersQuery J x.uid.canonical content
      · refine .inl ⟨⟨event, peerid, name, group, content, rfl, he, ha⟩, ?_⟩
        rw [handleShout_answers hJ hx ha] at hs
        exact (Option.some.inj (Except.ok.inj hs)).symm
      · refine .inr ⟨?_, handleShout_keeps hJ hrej hx ha hs⟩
        rintro ⟨_, _, _, _, _, heq, -, ha'⟩
        simp only [List.cons.injEq] at heq
        obtain ⟨-, -, -, -, rfl, -⟩ := heq
        exact ha ha'
    · rw [handleShout, if_pos hlen] at hs
      exact absurd hs (by simp)
  · refine .inr ⟨?_, rfl⟩
    rintro ⟨event, peerid, name, group, content, rfl, he, -⟩
    exact hne event _ rfl he

end

/-! ### The calls of a run -/

section

variable {J : Jansson}

/-- The parameters of an update without a parent. -/
theorem createParams_none (nodeId : Zuuid) :
    createParams none nodeId = .object [(ofString "node", .object
      [(ofString "@graphtype", .string (ofString "Node")),
        (ofString "id", .string nodeId.canonical),
        (ofString "attributes", .array
          [.object [(ofString "key", .string (ofString "name")),
              (ofString "value", .string (ofString "robot_1"))],
            .object [(ofString "key", .string (ofString "comment")),
              (ofString "value", .string (ofString "none"))]])])] := by
  simp only [createParams, jsonString_canonical]
  rfl

/-- They are a value of the library. -/
theorem wf_createParams (nodeId : Zuuid) : (createParams none nodeId).WF J.printed := by
  have hattribute (n v : Bytes) (hn : Json.ValidString n) (hv : Json.ValidString v) :
      (Json.object [(ofString "key", .string n), (ofString "value", .string v)]).WF J.printed := by
    apply Json.WF.of_keys
    · simp only [List.map_cons, List.map_nil]
      decide
    · simp only [List.map_cons, List.map_nil, List.forall_mem_cons]
      exact ⟨.string hn, .string hv, by simp⟩
  rw [createParams_none]
  apply Json.WF.empty.objectSet (by decide)
  apply Json.WF.of_keys
  · simp only [List.map_cons, List.map_nil]
    decide
  · simp only [List.map_cons, List.map_nil, List.forall_mem_cons]
    refine ⟨.string (by decide), .string nodeId.valid, .array ?_, by simp⟩
    simp only [List.forall_mem_cons]
    exact ⟨hattribute _ _ (by decide) (by decide), hattribute _ _ (by decide) (by decide), by simp⟩

variable (J) (S : Setting)

/-- The query for the root node. -/
def rootCall : Asked J := ⟨.query (some (ofString "GET_ROOT_NODE")) none, S.zuuid 0⟩

/-- The update that is made when `drawn` UUIDs have been drawn. -/
def createCall (drawn : Nat) : Asked J :=
  ⟨.update (some (ofString "CREATE"))
    (some ⟨createParams none (S.zuuid drawn), wf_createParams _⟩), S.zuuid (drawn + 1)⟩

/-- All calls that `main` can make, in order. -/
def mainCalls : List (Asked J) :=
  rootCall J S :: (List.range S.noOfUpdates.toNatClampNeg).map fun i ↦ createCall J S (1 + 2 * i)

variable {J S} {s : MainState}

/-- An update is shouted and waited for. -/
theorem update_eq (s : MainState) :
    ∃ x : Query, x.uid.canonical = (createCall J S s.drawn).id ∧ s.update J S = { s with
      self := { s.self with queryList := s.self.queryList ++ [x] }
      drawn := s.drawn + 2
      shouted := s.shouted ++ [(createCall J S s.drawn).text] } := by
  have hr : (createCall J S s.drawn).call.refused = false := by
    show (jsonObjectGet (some (createParams none (S.zuuid s.drawn))) (ofString "node")).isNone = _
    rw [createParams_none]
    rfl
  have hsend := send_of_not_refused hr s.self (S.zuuid (s.drawn + 1))
  have hupdate : s.update J S = { s with
      self := ((createCall J S s.drawn).call.send s.self (S.zuuid (s.drawn + 1))).2
      drawn := s.drawn + 2
      shouted := s.shouted ++
        ((createCall J S s.drawn).call.send s.self (S.zuuid (s.drawn + 1))).1.toList } := rfl
  rw [hupdate, hsend]
  exact ⟨_, rfl, rfl⟩

/-- So are all updates of the loop. -/
theorem updates_eq (n : Nat) (s : MainState) :
    (s.updates J S n).shouted = s.shouted ++
        (List.range n).map (fun i ↦ (createCall J S (s.drawn + 2 * i)).text) ∧
      (s.updates J S n).self.uids = s.self.uids ++
        (List.range n).map fun i ↦ (createCall J S (s.drawn + 2 * i)).id := by
  induction n generalizing s with
  | zero => simp [MainState.updates]
  | succ n ih =>
    obtain ⟨x, hx, he⟩ := update_eq (J := J) (S := S) s
    obtain ⟨htexts, huids⟩ := ih (s.update J S)
    have hdrawn (i : Nat) : s.drawn + 2 + 2 * i = s.drawn + 2 * (i + 1) := by omega
    rw [MainState.updates, htexts, huids, he, List.range_succ_eq_map]
    simp [Component.uids, hx, hdrawn, Function.comp_def]

/-- The query for the root node is shouted and waited for. -/
theorem query_eq (hs : s.drawn = 0) (clock : Option Timespec) :
    ∃ x : Query, x.uid.canonical = (rootCall J S).id ∧ s.query J S clock =
      { self := { s.self with queryList := s.self.queryList ++ [x] }
        ts := clock.getD s.ts
        drawn := s.drawn + 1
        shouted := s.shouted ++ [(rootCall J S).text]
        phase := .waiting } := by
  have hr : (rootCall J S).call.refused = false := rfl
  have hsend := send_of_not_refused hr s.self (S.zuuid 0)
  have hquery : s.query J S clock =
      { self := ((rootCall J S).call.send s.self (S.zuuid s.drawn)).2
        ts := clock.getD s.ts
        drawn := s.drawn + 1
        shouted := s.shouted ++ ((rootCall J S).call.send s.self (S.zuuid s.drawn)).1.toList
        phase := .waiting } := rfl
  rw [hquery, hs, hsend]
  exact ⟨_, rfl, rfl⟩

/-- What a run has shouted, and where it is. -/
inductive Told (J : Jansson) (S : Setting) (s : MainState) : Prop
  | nothing (texts : s.shouted = []) (list : s.self.queryList = []) (none : s.drawn = 0)
    (phase : s.phase = .connecting ∨ s.phase = .ended 0)
  | asked (x : Query) (texts : s.shouted = [(rootCall J S).text]) (list : s.self.queryList = [x])
    (id : x.uid.canonical = (rootCall J S).id) (one : s.drawn = 1) (phase : s.phase = .waiting)
  | ended (texts : s.shouted = [(rootCall J S).text])
    (phase : s.phase = .ended 0 ∨ s.phase = .ended (-1))
  | all (texts : s.shouted = (mainCalls J S).map Asked.text)
    (uids : s.self.uids = (mainCalls J S).tail.map Asked.id) (phase : s.phase = .ended 0)

end

/-! ### Runs -/

section

variable {J : Jansson} {S : Setting} {fuel : Nat} {s s' : MainState} {e : MainEvent}

/-- The pass in which the query for the root node is answered in time. -/
def Decisive (J : Jansson) (S : Setting) (s : MainState) (e : MainEvent) : Prop :=
  s.phase = .waiting ∧ ∃ msg clock, e = .pass (some (some msg)) clock ∧
    AnswersMessage J (rootCall J S).id msg ∧ overdue S s.ts clock = false

/-- There is at least one update. -/
theorem length_mainCalls : 1 < (mainCalls J S).length := by
  have hpos := S.pos
  have hn : 0 < S.noOfUpdates.toNatClampNeg := by
    rw [← Int32.toNat_toInt]
    omega
  simp only [mainCalls, List.length_cons, List.length_map, List.length_range]
  omega

/-- With nothing to wait for, the end of a pass in time is followed by the updates. -/
theorem Told.endPass (texts : s.shouted = [(rootCall J S).text]) (list : s.self.queryList = [])
    (one : s.drawn = 1) {clock : Option Timespec} (hover : overdue S s.ts clock = false) :
    Told J S (s.endPass J S clock) ∧ 1 < (s.endPass J S clock).shouted.length := by
  obtain ⟨htexts, huids⟩ := updates_eq (J := J) (S := S) S.noOfUpdates.toNatClampNeg s
  rw [MainState.endPass, hover, if_neg (by simp), if_neg (by simp [list])]
  have hall : (s.updates J S S.noOfUpdates.toNatClampNeg).shouted =
      (mainCalls J S).map Asked.text := by
    rw [htexts, texts, one, mainCalls]
    simp [Function.comp_def]
  refine ⟨.all hall ?_ rfl, ?_⟩
  · show (s.updates J S S.noOfUpdates.toNatClampNeg).self.uids = _
    rw [huids, one, mainCalls, Component.uids, list]
    simp [Function.comp_def]
  · show 1 < (s.updates J S S.noOfUpdates.toNatClampNeg).shouted.length
    rw [hall, List.length_map]
    exact length_mainCalls

/-- A step that does not fail keeps to the table, and shouts updates in the decisive pass
only. -/
theorem Told.step (hJ : J.RoundTrips) (hrej : J.RejectsScalars) (h : Told J S s)
    (hs : (mainMachine J S (fuel + 1)).step s e = .ok s') :
    Told J S s' ∧ (1 < s'.shouted.length ↔ 1 < s.shouted.length ∨ Decisive J S s e) := by
  -- outside the loop for the answer nothing is decisive
  have hsame (hne : s.phase ≠ .waiting) (he : s' = s) :
      Told J S s' ∧ (1 < s'.shouted.length ↔ 1 < s.shouted.length ∨ Decisive J S s e) := by
    rw [he]
    exact ⟨h, by simp [Decisive, hne]⟩
  have hended {rc : Int} (hphase : s.phase = .ended rc) : s' = s := by
    simp only [mainMachine, hphase, Except.ok.injEq] at hs
    exact hs.symm
  cases h with
  | nothing texts list none phase =>
    rcases phase with phase | phase
    · cases e with
      | pass received clock =>
        simp only [mainMachine, phase, Except.ok.injEq] at hs
        exact hsame (by simp [phase]) hs.symm
      | peers size clock =>
        simp only [mainMachine, phase] at hs
        split at hs
        · obtain ⟨x, hx, hquery⟩ := query_eq (J := J) (S := S) none clock
          rw [hquery, texts, list, none] at hs
          rw [← Except.ok.inj hs, texts]
          exact ⟨.asked x rfl rfl hx rfl rfl, by simp [Decisive, phase]⟩
        split at hs
        · rw [← Except.ok.inj hs]
          exact ⟨.nothing texts list none (.inr rfl), by simp [Decisive, phase]⟩
        · exact hsame (by simp [phase]) (Except.ok.inj hs).symm
    · exact hsame (by simp [phase]) (hended phase)
  | ended texts phase =>
    rcases phase with phase | phase
    · exact hsame (by simp [phase]) (hended phase)
    · exact hsame (by simp [phase]) (hended phase)
  | all texts uids phase => exact hsame (by simp [phase]) (hended phase)
  | asked x texts list id one phase =>
    -- a pass without the answer either goes on or ends with the timeout
    have hpass {clock : Option Timespec} (he : s' = s.endPass J S clock)
        (hd : ¬ Decisive J S s e) :
        Told J S s' ∧ (1 < s'.shouted.length ↔ 1 < s.shouted.length ∨ Decisive J S s e) := by
      rw [MainState.endPass] at he
      split at he
      · rw [he]
        exact ⟨.ended texts (.inl rfl), by simp [texts, hd]⟩
      · rw [if_pos (by simp [list])] at he
        rw [he]
        exact ⟨.asked x texts list id one phase, by simp [hd]⟩
    cases e with
    | peers size clock =>
      simp only [mainMachine, phase, Except.ok.injEq] at hs
      rw [← hs]
      exact ⟨.asked x texts list id one phase, by simp [Decisive]⟩
    | pass received clock =>
      simp only [mainMachine, phase] at hs
      rcases received with _ | _ | msg
      · exact hpass (Except.ok.inj hs).symm (by simp [Decisive])
      · rw [← Except.ok.inj hs]
        exact ⟨.ended texts (.inr rfl), by simp [Decisive, texts]⟩
      · simp only at hs
        split at hs
        · exact absurd hs (by simp)
        · exact absurd hs (by simp)
        next self' hmsg =>
        have hs' : s' = ({ s with self := self' } : MainState).endPass J S clock := by
          rw [← Except.ok.inj hs, ← phase]
        obtain ⟨ha, he⟩ | ⟨ha, he⟩ := handleMessage_of_waiting hJ hrej list hmsg
        · cases hover : overdue S s.ts clock with
          | true =>
            have hd : ¬ Decisive J S s (.pass (some (some msg)) clock) := by
              rintro ⟨-, _, _, heq, -, hfalse⟩
              simp only [MainEvent.pass.injEq] at heq
              rw [← heq.2, hover] at hfalse
              exact absurd hfalse (by simp)
            rw [MainState.endPass, if_pos (by exact hover)] at hs'
            rw [hs']
            exact ⟨.ended texts (.inl rfl), by simp [texts, hd]⟩
          | false =>
            have hd : Decisive J S s (.pass (some (some msg)) clock) :=
              ⟨phase, msg, clock, rfl, id ▸ ha, hover⟩
            have hend := Told.endPass (s := { s with self := self' }) texts (by rw [he]) one hover
            rw [← hs'] at hend
            exact ⟨hend.1, iff_of_true hend.2 (.inr hd)⟩
        · rw [he] at hs'
          apply hpass hs'
          rintro ⟨-, _, _, heq, ha', -⟩
          simp only [MainEvent.pass.injEq, Option.some.injEq] at heq
          rw [← heq.1, ← id] at ha'
          exact ha ha'

/-- Every run that does not fail keeps to the table. -/
theorem told_of_run (hJ : J.RoundTrips) (hrej : J.RejectsScalars) {self : Component}
    (hself : self.queryList = []) {clock : Option Timespec} {events : List MainEvent}
    (hr : (mainMachine J S (fuel + 1)).run (.start self clock) events = .ok s) :
    Told J S s ∧ (1 < s.shouted.length ↔ ∃ pre e post s₁, events = pre ++ e :: post ∧
      (mainMachine J S (fuel + 1)).run (.start self clock) pre = .ok s₁ ∧ Decisive J S s₁ e) := by
  refine Machine.run_history (P := fun events s ↦ Told J S s ∧ (1 < s.shouted.length ↔
    ∃ pre e post s₁, events = pre ++ e :: post ∧
      (mainMachine J S (fuel + 1)).run (.start self clock) pre = .ok s₁ ∧ Decisive J S s₁ e))
    ⟨.nothing rfl hself rfl (.inl rfl), ?_⟩ ?_ hr
  · simp [MainState.start]
  · intro events s e s' hrun ⟨htold, hiff⟩ hs
    obtain ⟨htold', hiff'⟩ := htold.step hJ hrej hs
    refine ⟨htold', ?_⟩
    rw [hiff', Machine.exists_split_concat hrun, hiff]

/-- No call of `main` has a parent. -/
theorem parentId_mainCalls :
    ∀ q ∈ mainCalls J S, q.payload.objectGet (ofString "parentId") = none := by
  have hupdate (drawn : Nat) :
      (createCall J S drawn).payload.objectGet (ofString "parentId") = none := by
    show (updatePayload (some (ofString "CREATE")) (some (createParams none (S.zuuid drawn)))
      (S.zuuid (drawn + 1))).objectGet (ofString "parentId") = none
    simp only [updatePayload, jsonString_canonical, createParams_none]
    rfl
  have hroot : (rootCall J S).payload.objectGet (ofString "parentId") = none := by
    show (queryPayload (some (ofString "GET_ROOT_NODE")) none (S.zuuid 0)).objectGet
      (ofString "parentId") = none
    simp only [queryPayload, jsonString_canonical]
    rfl
  refine List.forall_mem_cons.mpr ⟨hroot, fun q hq ↦ ?_⟩
  obtain ⟨i, -, rfl⟩ := List.mem_map.mp hq
  exact hupdate _

/-- All of them can be read. -/
theorem nests_mainCalls (hJ : J.RoundTrips) :
    ∀ q ∈ mainCalls J S, J.Nests (queryEnvelope q.payload) := by
  have hupdate (drawn : Nat) : (queryEnvelope (createCall J S drawn).payload).nesting = 6 := by
    show (queryEnvelope (updatePayload (some (ofString "CREATE"))
      (some (createParams none (S.zuuid drawn))) (S.zuuid (drawn + 1)))).nesting = 6
    simp only [updatePayload, jsonString_canonical, createParams_none]
    rfl
  have hroot : (queryEnvelope (rootCall J S).payload).nesting = 3 := by
    show (queryEnvelope (queryPayload (some (ofString "GET_ROOT_NODE")) none
      (S.zuuid 0))).nesting = 3
    simp only [queryPayload, jsonString_canonical]
    rfl
  intro q hq n hn
  have hlimit := hJ.maxDepth_ge n hn
  rcases List.mem_cons.mp hq with rfl | hq
  · omega
  · obtain ⟨i, -, rfl⟩ := List.mem_map.mp hq
    have hdepth := hupdate (1 + 2 * i)
    omega

end

/-- In every run of `main` that does not fail, over any messages and any clock: it shouts
nothing, or the query for the root node, or the query and all its updates. The updates are
shouted exactly if the query has been answered in some pass, by a result with its id and not
behind the timeout; nobody waits for them then. The bridges of the group hand on what is
shouted, in this order, and none of it has a parent. -/
theorem main_updates_iff {J : Jansson} (hJ : J.RoundTrips) (hrej : J.RejectsScalars) {S : Setting}
    {self : Component} (hself : self.queryList = []) {clock : Option Timespec} {fuel : Nat}
    {events : List MainEvent} {s : MainState}
    (hr : (mainMachine J S (fuel + 1)).run (.start self clock) events = .ok s) :
    (s.shouted = [] ∨ s.shouted = [(rootCall J S).text] ∨
        s.shouted = (mainCalls J S).map Asked.text) ∧
      (1 < s.shouted.length ↔ ∃ pre e post s₁, events = pre ++ e :: post ∧
        (mainMachine J S (fuel + 1)).run (.start self clock) pre = .ok s₁ ∧
          Decisive J S s₁ e) ∧
      (1 < s.shouted.length → s.self.uids = (mainCalls J S).tail.map Asked.id) ∧
      s.shouted.filterMap (handedOn J) =
        ((mainCalls J S).take s.shouted.length).map Asked.payload ∧
      ∀ q ∈ mainCalls J S, q.payload.objectGet (ofString "parentId") = none := by
  obtain ⟨htold, hiff⟩ := told_of_run hJ hrej hself hr
  have htexts {qs : List (Asked J)} (hqs : qs ⊆ mainCalls J S) :
      (qs.map Asked.text).filterMap (handedOn J) = qs.map Asked.payload := by
    induction qs with
    | nil => rfl
    | cons q qs ih =>
      rw [List.cons_subset] at hqs
      have hq := handedOn_text hJ (nests_mainCalls hJ q hqs.1)
      rw [List.map_cons, List.filterMap_cons_some hq, ih hqs.2, List.map_cons]
  have hone : [(rootCall J S).text] = ((mainCalls J S).take 1).map Asked.text := rfl
  refine ⟨?_, hiff, fun hlen ↦ ?_, ?_, parentId_mainCalls⟩
  · cases htold with
    | nothing texts => exact .inl texts
    | asked x texts => exact .inr (.inl texts)
    | ended texts => exact .inr (.inl texts)
    | all texts => exact .inr (.inr texts)
  · cases htold with
    | nothing texts => simp [texts] at hlen
    | asked x texts => simp [texts] at hlen
    | ended texts => simp [texts] at hlen
    | all texts uids => exact uids
  · cases htold with
    | nothing texts => simp [texts]
    | asked x texts =>
      rw [texts, hone, htexts (List.take_subset _ _)]
      rfl
    | ended texts =>
      rw [texts, hone, htexts (List.take_subset _ _)]
      rfl
    | all texts =>
      rw [texts, htexts (List.Subset.refl _), List.length_map, List.take_length]

/-- Two updates, a clock that is never late, and the same UUID every time. -/
def twoUpdates : Setting where
  noOfUpdates := 2
  pos := by decide
  late _ _ := false
  unpacks _ := true
  zuuid _ := testUuid

/-- A peer, and the answer to the query for the root node. -/
def answeredEvents : List MainEvent :=
  [.peers 1 none, .pass (some (some [ofString "SHOUT", ofString "1B", ofString "bridge",
    ofString "local", Jansson.reference.dumps (envelope
      (.object [(ofString "@worldmodeltype", .string (ofString "RSGQueryResult")),
        (ofString "queryId", .string (ofString "5e3f"))]) (ofString "RSGQueryResult"))])) none]

set_option maxRecDepth 20000 in
/-- With the answer, the query and two updates. -/
theorem main_updates_iff_answered :
    ∃ s, (mainMachine .reference twoUpdates 1).run (.start idleComponent none) answeredEvents =
        .ok s ∧ s.shouted.length = 3 ∧
      (1 < s.shouted.length ↔ ∃ pre e post s₁, answeredEvents = pre ++ e :: post ∧
        (mainMachine .reference twoUpdates 1).run (.start idleComponent none) pre = .ok s₁ ∧
          Decisive .reference twoUpdates s₁ e) := by
  have hrun : ∃ s, (mainMachine .reference twoUpdates 1).run (.start idleComponent none)
      answeredEvents = .ok s ∧ s.shouted.length = 3 := ⟨_, rfl, rfl⟩
  obtain ⟨s, hr, hlen⟩ := hrun
  exact ⟨s, hr, hlen, (main_updates_iff Jansson.reference_roundTrips
    Jansson.reference_rejectsScalars rfl hr).2.1⟩

end Ubx.SendMsg
