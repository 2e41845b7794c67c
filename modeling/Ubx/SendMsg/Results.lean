import Ubx.SendMsg.Decoders
import Ubx.SendMsg.Send
import Mathlib.Logic.Function.Basic

/-!
# Queries and their results

Components of one group ask queries, bridges broadcast the results, and each component takes
the queries that are answered off its list. The walk over the list stays at the head, so it
comes to an end only where the head is the query that is answered, or nothing is waited for.
-/

namespace Ubx.SendMsg

open Ubx.Base Ubx.Zyre

/-- A result with an id, as some initialised bridge shouts it in some run, nested no deeper
than the component reads. -/
structure BridgeResult (J : Jansson) where
  payload : Json
  type : Bytes
  queryId : Bytes
  text : Bytes
  isResult : type ∈ resultTypes
  hasId : payload.objectGet (ofString "queryId") = some (.string queryId)
  nests : J.Nests (envelope payload type)
  shouted : ∃ (ext : InitExtern) (b : ZyreBridge) (zuuid : Nat → Bytes) (as : List (StepAction b))
    (w : StepWorld) (it : Iteration), b.Initialised ext ∧
      (stepMachine J zuuid b).run (.start []) as = .ok w ∧ it ∈ w.log ∧
      IsTyped J it.message payload type ∧ it.shout = some (some text)

/-- The ids that a component waits for. -/
def Component.uids (self : Component) : List Bytes := self.queryList.map (·.uid.canonical)

/-- What happens in a group: component `c` makes a call, or a result arrives at it. -/
inductive GroupAction (κ : Type) (J : Jansson)
  | ask (c : κ) (call : SendCall J) (uuid : Zuuid)
  | arrive (c : κ) (r : BridgeResult J) (peerid name group : Bytes)

/-- Why an action does not come to an end. -/
inductive Stop
  | fault (f : Fault)
  /-- The fuel is used up. -/
  | notThrough

section

variable {κ : Type} [DecidableEq κ] {J : Jansson}

/-- The components of a group as one machine. -/
def groupMachine (κ : Type) [DecidableEq κ] (J : Jansson) (fuel : Nat) :
    Machine (κ → Component) (GroupAction κ J) Stop where
  step s
    | .ask c call uuid => .ok (Function.update s c (call.send (s c) uuid).2)
    | .arrive c r peerid name group =>
      match handleShout J fuel (s c) [peerid, name, group, r.text] with
      | .error f => .error (.fault f)
      | .ok none => .error .notThrough
      | .ok (some self) => .ok (Function.update s c self)

/-- The ids of the calls of `c` that return a message. -/
def asked (c : κ) : List (GroupAction κ J) → List Bytes
  | [] => []
  | .ask c' call uuid :: acts =>
    if c' = c ∧ call.refused = false then uuid.canonical :: asked c acts else asked c acts
  | .arrive _ _ _ _ _ :: acts => asked c acts

/-- One more action: a query is waited for from the call on until its result arrives. -/
def stillUnanswered (c : κ) (waiting : List Bytes) : GroupAction κ J → List Bytes
  | .ask c' call uuid =>
    if c' = c ∧ call.refused = false then waiting ++ [uuid.canonical] else waiting
  | .arrive c' r _ _ _ => if c' = c then waiting.filter (· ≠ r.queryId) else waiting

/-- The queries of `c` that have been asked and not been answered since, in order. -/
def unanswered (c : κ) (acts : List (GroupAction κ J)) : List Bytes :=
  acts.foldl (stillUnanswered c) []

/-! ### One result -/

/-- The text of a result is the envelope of its payload. -/
theorem BridgeResult.text_eq (hJ : J.Documented) (r : BridgeResult J) :
    r.text = J.dumps (envelope r.payload r.type) := by
  obtain ⟨ext, b, zuuid, as, w, it, hb, hw, hit, htyped, hshout⟩ := r.shouted
  have hall : ∀ t ∈ resultTypes, t ≠ ofString "RSGUpdate" := by decide
  have hplain : mediated b r.type = false := by simp [mediated, hall _ r.isResult]
  have h := shout_of_run hJ hb hw hit htyped hplain
  exact Option.some.inj (Option.some.inj (hshout.symm.trans h))

/-- It is made for a message of its type. -/
theorem BridgeResult.isTyped (r : BridgeResult J) : ∃ m, IsTyped J m r.payload r.type := by
  obtain ⟨ext, b, zuuid, as, w, it, -, -, -, htyped, -⟩ := r.shouted
  exact ⟨it.message, htyped⟩

/-- Its id is a string without anything cut off. -/
theorem BridgeResult.valid_queryId (hJ : J.Documented) (r : BridgeResult J) :
    Json.ValidString r.queryId := by
  obtain ⟨m, htyped⟩ := r.isTyped
  cases (hJ.loads_wf _ _ htyped.1).1.objectGet r.hasId with
  | string h => exact h

/-- A result is searched for in the list. -/
theorem BridgeResult.handleShout_eq (hJ : J.RoundTrips) (r : BridgeResult J) (fuel : Nat)
    (self : Component) (peerid name group : Bytes) :
    handleShout J fuel self [peerid, name, group, r.text] =
      (searchLoop (some r.queryId) fuel 0 self.queryList).map
        fun list ↦ list.map fun list ↦ { self with queryList := list } := by
  obtain ⟨m, htyped⟩ := r.isTyped
  rw [r.text_eq hJ.toDocumented, handleShout_envelope hJ htyped r.isResult r.nests, r.hasId]
  rfl

/-- The head of the list is answered, or there is nothing to answer. -/
def AnswersHead (r : BridgeResult J) (self : Component) : Prop :=
  self.uids = [] ∨ self.uids.head? = some r.queryId

/-- Filtering an id out of distinct ids takes away the head that has it. -/
theorem filter_uids {x : Query} {list : List Query}
    (hd : ((x :: list).map (·.uid.canonical)).Nodup) :
    (x :: list).filter (·.uid.canonical ≠ x.uid.canonical) = list := by
  rw [List.map_cons, List.nodup_cons] at hd
  rw [List.filter_cons_of_neg (by simp), List.filter_eq_self]
  intro q hq
  have hne : q.uid.canonical ≠ x.uid.canonical := by
    intro he
    exact hd.1 (List.mem_map.mpr ⟨q, hq, he⟩)
  simpa using hne

/-- With its head answered, or empty, the list loses the query that is answered at once. -/
theorem handleShout_of_answersHead (hJ : J.RoundTrips) {r : BridgeResult J} {self : Component}
    (hd : self.uids.Nodup) (h : AnswersHead r self) (fuel : Nat) (peerid name group : Bytes) :
    handleShout J (fuel + 1) self [peerid, name, group, r.text] =
      .ok (some { self with
        queryList := self.queryList.filter (·.uid.canonical ≠ r.queryId) }) := by
  rw [r.handleShout_eq hJ]
  obtain ⟨node, list⟩ := self
  cases list with
  | nil => rfl
  | cons x list =>
    have hx : x.uid.canonical = r.queryId := by
      rcases h with h | h
      · exact absurd h (by simp [Component.uids])
      · exact Option.some.inj h
    rw [searchLoop_head hx, ← hx, filter_uids hd]
    rfl

/-- Otherwise the walk does not end. -/
theorem handleShout_of_not_answersHead (hJ : J.RoundTrips) {r : BridgeResult J} {self : Component}
    (h : ¬ AnswersHead r self) (fuel : Nat) (peerid name group : Bytes) :
    handleShout J fuel self [peerid, name, group, r.text] = .ok none := by
  rw [r.handleShout_eq hJ]
  obtain ⟨node, list⟩ := self
  cases list with
  | nil => exact absurd (.inl rfl) h
  | cons x list =>
    have hx : x.uid.canonical ≠ r.queryId := fun hx ↦ h (.inr (congrArg some hx))
    rw [searchLoop_stuck (r.valid_queryId hJ.toDocumented) hx]
    rfl

/-- A component takes a result off its list exactly if it answers the head. -/
theorem handleShout_iff_answersHead (hJ : J.RoundTrips) (r : BridgeResult J) {self : Component}
    (hd : self.uids.Nodup) (peerid name group : Bytes) :
    (∃ fuel, handleShout J fuel self [peerid, name, group, r.text] =
        .ok (some { self with
          queryList := self.queryList.filter (·.uid.canonical ≠ r.queryId) })) ↔
      AnswersHead r self := by
  constructor
  · rintro ⟨fuel, h⟩
    by_contra hcon
    rw [handleShout_of_not_answersHead hJ hcon] at h
    exact absurd h (by simp)
  · exact fun h ↦ ⟨1, handleShout_of_answersHead hJ hd h 0 peerid name group⟩

/-! ### Runs of a group -/

/-- Asked queries of two stretches of actions. -/
theorem asked_append (c : κ) (as bs : List (GroupAction κ J)) :
    asked c (as ++ bs) = asked c as ++ asked c bs := by
  induction as with
  | nil => rfl
  | cons a as ih =>
    cases a with
    | arrive c' r _ _ _ => exact ih
    | ask c' call uuid =>
      rw [List.cons_append, asked, asked, ih]
      split
      · rfl
      · rfl

/-- Ids that are distinct in a run are so in its beginning. -/
theorem nodup_asked_left {c : κ} {as bs : List (GroupAction κ J)}
    (h : (asked c (as ++ bs)).Nodup) : (asked c as).Nodup := by
  rw [asked_append] at h
  exact h.of_append_left

/-- One more action at the end. -/
theorem unanswered_concat (c : κ) (acts : List (GroupAction κ J)) (a : GroupAction κ J) :
    unanswered c (acts ++ [a]) = stillUnanswered c (unanswered c acts) a := by
  rw [unanswered, List.foldl_append]
  rfl

/-- What is unanswered has been asked, in this order. -/
theorem unanswered_sublist (c : κ) (acts : List (GroupAction κ J)) :
    (unanswered c acts).Sublist (asked c acts) := by
  refine foldl_history (P := fun acts l ↦ List.Sublist l (asked c acts)) .slnil ?_ acts
  intro acts l a hl
  rw [asked_append]
  cases a with
  | ask c' call uuid =>
    rw [stillUnanswered, asked]
    split
    · exact hl.append (List.Sublist.refl _)
    · simpa [asked] using hl
  | arrive c' r _ _ _ =>
    rw [stillUnanswered]
    split
    · exact (List.filter_sublist.trans hl).trans (List.sublist_append_left _ _)
    · exact hl.trans (List.sublist_append_left _ _)

/-- A call is waited for. -/
theorem uids_send (call : SendCall J) (self : Component) (uuid : Zuuid) :
    (call.send self uuid).2.uids =
      if call.refused = false then self.uids ++ [uuid.canonical] else self.uids := by
  cases hr : call.refused with
  | true =>
    rw [send_of_refused hr]
    rfl
  | false =>
    rw [send_of_not_refused hr]
    simp [Component.uids]

/-- Filtering queries by id is filtering the ids. -/
theorem uids_filter (self : Component) (queryId : Bytes) :
    ({ self with queryList := self.queryList.filter (·.uid.canonical ≠ queryId) } :
      Component).uids = self.uids.filter (· ≠ queryId) := by
  rw [Component.uids, Component.uids, List.filter_map]
  rfl

/-- A result that answers the head is taken off in one pass. -/
theorem step_arrive (hJ : J.RoundTrips) {s : κ → Component} {c : κ} {r : BridgeResult J}
    (hd : (s c).uids.Nodup) (h : AnswersHead r (s c)) (fuel : Nat) (peerid name group : Bytes) :
    (groupMachine κ J (fuel + 1)).step s (.arrive c r peerid name group) =
      .ok (Function.update s c { s c with
        queryList := (s c).queryList.filter (·.uid.canonical ≠ r.queryId) }) := by
  simp only [groupMachine]
  rw [handleShout_of_answersHead hJ hd h]

/-- Any other result is never through. -/
theorem step_arrive_notThrough (hJ : J.RoundTrips) {s : κ → Component} {c : κ}
    {r : BridgeResult J} (h : ¬ AnswersHead r (s c)) (fuel : Nat) (peerid name group : Bytes) :
    (groupMachine κ J fuel).step s (.arrive c r peerid name group) = .error .notThrough := by
  simp only [groupMachine]
  rw [handleShout_of_not_answersHead hJ h]

/-- Without fuel no result is through. -/
theorem step_arrive_zero (hJ : J.RoundTrips) (s : κ → Component) (c : κ) (r : BridgeResult J)
    (peerid name group : Bytes) :
    (groupMachine κ J 0).step s (.arrive c r peerid name group) = .error .notThrough := by
  simp only [groupMachine]
  rw [r.handleShout_eq hJ]
  rfl

/-- One action that comes to an end keeps every list at the unanswered queries. -/
theorem uids_step (hJ : J.RoundTrips) {fuel : Nat} {s s' : κ → Component}
    {acts : List (GroupAction κ J)} {a : GroupAction κ J} (hd : ∀ c, (asked c acts).Nodup)
    (h : ∀ c, (s c).uids = unanswered c acts)
    (hs : (groupMachine κ J fuel).step s a = .ok s') (c : κ) :
    (s' c).uids = unanswered c (acts ++ [a]) := by
  rw [unanswered_concat, ← h c]
  cases a with
  | ask c' call uuid =>
    obtain rfl := Except.ok.inj hs
    by_cases hc : c' = c
    · subst hc
      rw [Function.update_self, uids_send, stillUnanswered]
      simp
    · rw [Function.update_of_ne (Ne.symm hc), stillUnanswered, if_neg (fun hc' ↦ hc hc'.1)]
  | arrive c' r peerid name group =>
    by_cases hhead : AnswersHead r (s c')
    · cases fuel with
      | zero =>
        rw [step_arrive_zero hJ] at hs
        exact absurd hs (by simp)
      | succ fuel =>
        have hdc : (s c').uids.Nodup := h c' ▸ (unanswered_sublist c' acts).nodup (hd c')
        rw [step_arrive hJ hdc hhead] at hs
        obtain rfl := Except.ok.inj hs
        by_cases hc : c' = c
        · subst hc
          rw [Function.update_self, uids_filter, stillUnanswered, if_pos rfl]
        · rw [Function.update_of_ne (Ne.symm hc), stillUnanswered, if_neg hc]
    · rw [step_arrive_notThrough hJ hhead] at hs
      exact absurd hs (by simp)

/-- Every run that comes to an end leaves each component with its unanswered queries. -/
theorem uids_of_run (hJ : J.RoundTrips) {fuel : Nat} {s s' : κ → Component}
    {acts : List (GroupAction κ J)} (hd : ∀ c, (asked c acts).Nodup)
    (hs : ∀ c, (s c).queryList = []) (hr : (groupMachine κ J fuel).run s acts = .ok s') (c : κ) :
    (s' c).uids = unanswered c acts := by
  revert hd c
  refine Machine.run_history (P := fun acts s' ↦ (∀ c, (asked c acts).Nodup) →
    ∀ c, (s' c).uids = unanswered c acts) (fun _ c ↦ ?_) ?_ hr
  · rw [Component.uids, hs c]
    rfl
  · intro as s₁ a s₂ _ ih hstep hd c
    have hpre : ∀ c, (asked c as).Nodup := fun c ↦ nodup_asked_left (hd c)
    exact uids_step hJ hpre (ih hpre) hstep c

/-- A run comes to an end with the unanswered queries if every result answers a head. -/
theorem group_run_iff (hJ : J.RoundTrips) {acts : List (GroupAction κ J)}
    (hd : ∀ c, (asked c acts).Nodup) {s : κ → Component} (hs : ∀ c, (s c).queryList = []) :
    (∃ fuel s', (groupMachine κ J fuel).run s acts = .ok s' ∧
        ∀ c, (s' c).uids = unanswered c acts) ↔
      ∀ pre c r peerid name group post, acts = pre ++ .arrive c r peerid name group :: post →
        unanswered c pre = [] ∨ (unanswered c pre).head? = some r.queryId := by
  constructor
  · rintro ⟨fuel, s', hr, -⟩ pre c r peerid name group post rfl
    obtain ⟨s₁, hpre, hpost⟩ := Machine.run_append.mp hr
    obtain ⟨s₂, hstep, -⟩ := Machine.run_cons.mp hpost
    have huids := uids_of_run hJ (fun c ↦ nodup_asked_left (hd c)) hs hpre c
    by_contra hcon
    have hhead : ¬ AnswersHead r (s₁ c) := by
      rw [AnswersHead, huids]
      exact hcon
    rw [step_arrive_notThrough hJ hhead] at hstep
    exact absurd hstep (by simp)
  · intro h
    have hrun : ∃ s', (groupMachine κ J 1).run s acts = .ok s' := by
      apply Machine.run_isOk_iff.mpr
      rintro pre a post s₁ rfl hpre
      cases a with
      | ask c call uuid => exact ⟨_, rfl⟩
      | arrive c r peerid name group =>
        have hdpre : ∀ c, (asked c pre).Nodup := fun c ↦ nodup_asked_left (hd c)
        have huids := uids_of_run hJ hdpre hs hpre c
        have hhead : AnswersHead r (s₁ c) := by
          rw [AnswersHead, huids]
          exact h pre c r peerid name group post rfl
        have hdc : (s₁ c).uids.Nodup := huids ▸ (unanswered_sublist c pre).nodup (hdpre c)
        exact ⟨_, step_arrive hJ hdc hhead 0 _ _ _⟩
    obtain ⟨s', hr⟩ := hrun
    exact ⟨1, s', hr, uids_of_run hJ hd hs hr⟩

end

/-- A result takes its query off a list with distinct ids exactly if it answers the head of
the list or the list is empty. In a group whose components start without queries and ask
under distinct ids, a run comes to an end with exactly the unanswered queries in each list if
and only if every result arrives where nothing is unanswered, or where it answers the oldest
of the unanswered queries. -/
theorem results_correlated_iff {J : Jansson} (hJ : J.RoundTrips) :
    (∀ (r : BridgeResult J) (self : Component), self.uids.Nodup → ∀ peerid name group,
      (∃ fuel, handleShout J fuel self [peerid, name, group, r.text] =
          .ok (some { self with
            queryList := self.queryList.filter (·.uid.canonical ≠ r.queryId) })) ↔
        self.uids = [] ∨ self.uids.head? = some r.queryId) ∧
      ∀ (κ : Type) [DecidableEq κ] (acts : List (GroupAction κ J)),
        (∀ c, (asked c acts).Nodup) → ∀ s : κ → Component, (∀ c, (s c).queryList = []) →
          ((∃ fuel s', (groupMachine κ J fuel).run s acts = .ok s' ∧
              ∀ c, (s' c).uids = unanswered c acts) ↔
            ∀ pre c r peerid name group post,
              acts = pre ++ .arrive c r peerid name group :: post →
                unanswered c pre = [] ∨ (unanswered c pre).head? = some r.queryId) :=
  ⟨fun r _ hd peerid name group ↦ handleShout_iff_answersHead hJ r hd peerid name group,
    fun _ _ _ hd _ hs ↦ group_run_iff hJ hd hs⟩

/-- The answer to a query of some other component. -/
def foreignMessage : PortMessage testBridge.config.maxMsgLength :=
  ⟨ofString "\x7b\"@worldmodeltype\":\"RSGQueryResult\",\"queryId\":\"77\"\x7d", by decide,
    by decide⟩

/-- Its payload. -/
def foreignPayload : Json :=
  .object [(ofString "@worldmodeltype", .string (ofString "RSGQueryResult")),
    (ofString "queryId", .string (ofString "77"))]

private theorem foreignMessage_typed :
    IsTyped .reference foreignMessage.bytes foreignPayload (ofString "RSGQueryResult") :=
  ⟨rfl, rfl⟩

/-- The test bridge shouts it. -/
def foreignResult : BridgeResult .reference where
  payload := foreignPayload
  type := ofString "RSGQueryResult"
  queryId := ofString "77"
  text := Jansson.reference.dumps (envelope foreignPayload (ofString "RSGQueryResult"))
  isResult := by decide
  hasId := rfl
  nests := by decide
  shouted := by
    obtain ⟨w, hw, it, hit, hm⟩ := run_single Jansson.reference_documented testBridge_initialised
      (by decide) (fun _ ↦ ofString "1F") foreignMessage foreignMessage_typed (.replicate _ 0)
    have htyped := hm.symm ▸ foreignMessage_typed
    exact ⟨_, _, _, _, w, it, testBridge_initialised, hw, hit, htyped,
      shout_of_run Jansson.reference_documented testBridge_initialised hw hit htyped (by decide)⟩

/-- A component that waits for an answer of its own never gets through it. -/
theorem foreign_result_never_through :
    (∀ fuel, handleShout .reference fuel waitingComponent
        [ofString "1B", ofString "bridge", ofString "local", foreignResult.text] = .ok none) ∧
      ¬ ∃ fuel, handleShout .reference fuel waitingComponent
          [ofString "1B", ofString "bridge", ofString "local", foreignResult.text] =
        .ok (some { waitingComponent with queryList :=
          waitingComponent.queryList.filter (·.uid.canonical ≠ foreignResult.queryId) }) := by
  have hhead : ¬ AnswersHead foreignResult waitingComponent := by
    rw [AnswersHead]
    decide
  have hall (fuel : Nat) := handleShout_of_not_answersHead Jansson.reference_roundTrips hhead fuel
    (ofString "1B") (ofString "bridge") (ofString "local")
  refine ⟨hall, ?_⟩
  rintro ⟨fuel, h⟩
  exact absurd ((hall fuel).symm.trans h) (by simp)

/-- The first half for this component, and the second for a component that waits for
nothing when the result arrives. -/
theorem results_correlated_iff_foreign :
    ((∃ fuel, handleShout .reference fuel waitingComponent
        [ofString "1B", ofString "bridge", ofString "local", foreignResult.text] =
          .ok (some { waitingComponent with queryList :=
            waitingComponent.queryList.filter (·.uid.canonical ≠ foreignResult.queryId) })) ↔
      waitingComponent.uids = [] ∨ waitingComponent.uids.head? = some foreignResult.queryId) ∧
    ((∃ fuel s', (groupMachine Unit .reference fuel).run (fun _ ↦ ⟨⟨ofString "0C"⟩, []⟩)
          [.arrive () foreignResult (ofString "1B") (ofString "bridge") (ofString "local")] =
            .ok s' ∧
        ∀ c, (s' c).uids = unanswered c
          [.arrive () foreignResult (ofString "1B") (ofString "bridge") (ofString "local")]) ↔
      ∀ pre c r peerid name group post,
        [.arrive () foreignResult (ofString "1B") (ofString "bridge") (ofString "local")] =
            pre ++ .arrive c r peerid name group :: post →
          unanswered c pre = [] ∨ (unanswered c pre).head? = some r.queryId) :=
  ⟨(results_correlated_iff Jansson.reference_roundTrips).1 foreignResult waitingComponent
      (by decide) _ _ _,
    (results_correlated_iff Jansson.reference_roundTrips).2 Unit _ (by simp [asked]) _
      fun _ ↦ rfl⟩

end Ubx.SendMsg
