import Ubx.Zyre.Network

/-!
# Groups that come to rest

The order of events decides when a world model gets a message, and how the messages of
different nodes are mixed, but nothing else: two runs that write the same and have both come
to rest leave the same messages. A group of well-behaved nodes does not fail, and wherever it
is, steps and deliveries alone bring it to rest.
-/

namespace Ubx.Zyre

open Ubx.Base

section

variable {κ π : Type} [DecidableEq κ] [DecidableEq π] {J : Jansson} {zuuid : κ → Nat → Bytes}
  {b : κ → ZyreBridge} {acts : List (NetworkAction π b)} {g g' : Network κ π}
  {a : NetworkAction π b}

/-! ### Independence of the schedule -/

variable (J b) in
/-- Nothing is on its way, and nothing is left on a port, that would be accepted. -/
structure Settled (g : Network κ π) : Prop where
  coming : ∀ s j, s ≠ .inl j → coming J g s j = []
  pending : ∀ s, pending J b g s = []

variable (J) in
/-- The payloads that have been handed on at `j`, with their nodes. -/
def tagged (g : Network κ π) (j : κ) : List ((κ ⊕ π) × Json) :=
  (g.links.arrived j).filterMap fun a ↦ (handedOn J a.2).map (a.1, ·)

/-- Those of one node are what the world model has got from it. -/
theorem labelled_tagged (g : Network κ π) (s : κ ⊕ π) (j : κ) :
    labelled s (tagged J g j) = got J g s j := by
  rw [labelled, tagged, List.filterMap_filterMap, got, Links.arrivedFrom, labelled,
    List.filterMap_filterMap]
  congr 1
  funext a
  by_cases hs : a.1 = s
  · cases hh : handedOn J a.2 <;> simp [hs, hh]
  · cases handedOn J a.2 <;> simp [hs]

/-- All of them are what is on the port. -/
theorem zyreIn_eq_tagged (h : Sound J zuuid b acts g) (j : κ) :
    (g.actor j).zyreIn = (tagged J g j).map fun a ↦ payloadWrite J a.2 := by
  have hsnd : (tagged J g j).map Prod.snd = (g.links.arrived j).filterMap (handedOn J ·.2) := by
    rw [tagged, List.map_filterMap]
    congr 1
    funext a
    cases handedOn J a.2 <;> rfl
  rw [h.zyreIn j, ← hsnd, List.map_map]
  rfl

/-! ### Runs that do not fail -/

/-- If the text is accepted, it comes with a payload. -/
def HarmlessText (J : Jansson) (text : Bytes) : Prop :=
  ∀ m, acceptedEnvelope J inputTypeList (some (cString text)) = some m →
    (m.objectGet (ofString "payload")).isSome

variable (J) in
/-- World models write no message whose type is no string, peers shout harmless texts, and
events have a name. -/
def NetworkAction.Harmless : NetworkAction π b → Prop
  | .out _ (.write m) => classify J m.bytes ≠ .untyped
  | .shout _ text => HarmlessText J text
  | .event _ e _ => Named e
  | _ => True

/-- What a bridge shouts is harmless. -/
theorem harmless_record {b : ZyreBridge} {zuuid : Nat → Bytes} (hJ : J.RoundTrips)
    (hb : b.inf.outputTypeList = outputTypeList) (hu : ∀ n, Json.ValidString (zuuid n))
    (hl : Json.ValidString b.inf.node.uuid) (drawn : Nat) (ms : List Bytes) :
    ∀ text ∈ (record J zuuid b drawn ms).filterMap Iteration.text, HarmlessText J text := by
  induction ms generalizing drawn with
  | nil => simp [record]
  | cons m ms ih =>
    rw [record]
    split
    · next pl t hc =>
      have htyped := IsTyped.of_classify hJ.toDocumented hc
      simp only [List.filterMap_cons, Iteration.text, shoutOf_outputTypeList hb,
        Option.join_some, List.forall_mem_cons]
      refine ⟨fun env henv ↦ ?_, ih _⟩
      cases hm : mediated b t with
      | true =>
        -- the type of a request is not accepted
        have hwf := wf_request (hu drawn) hl (htyped.wf_envelope hJ.toDocumented)
        rw [shoutText_mediated hm, hJ.cString_dumps hwf,
          acceptedEnvelope_dumps hJ hwf rfl rfl, Option.ite_none_right_eq_some] at henv
        exact absurd henv.1.1 (by decide)
      | false =>
        have hwf := htyped.wf_envelope hJ.toDocumented
        rw [shoutText_plain hm, hJ.cString_dumps hwf,
          acceptedEnvelope_dumps hJ hwf rfl rfl, Option.ite_none_right_eq_some] at henv
        obtain rfl := Option.some.inj henv.2
        rfl
    · rw [List.filterMap_cons]
      exact ih drawn

/-- A harmless shout does not stop an actor. -/
theorem step_of_harmless (hJ : J.Documented) {b : ZyreBridge}
    (hin : b.inf.inputTypeList = inputTypeList) {s : ActorState} (hs : s.loop = .running)
    {text : Bytes} (ht : HarmlessText J text) (peer name group : Bytes) :
    ∃ s', (zyreBridgeActor J b.inf).step s (shoutEvent peer name group text) = .ok s' := by
  have hframe : [peer, name, group, text][3]?.map cString = some (cString text) := rfl
  rw [shoutEvent, step_shout hs, hframe, shoutBranch_inputTypeList hJ hin]
  cases ha : acceptedEnvelope J inputTypeList (some (cString text)) with
  | none => exact ⟨_, rfl⟩
  | some m =>
    obtain ⟨p, hp⟩ := Option.isSome_iff_exists.mp (ht m ha)
    simp only [hp]
    exact ⟨_, rfl⟩

/-- A named event does not stop an actor, either. -/
theorem step_of_named (hJ : J.Documented) {b : ZyreBridge}
    (hin : b.inf.inputTypeList = inputTypeList) (s : ActorState) {e : ActorEvent} (he : Named e)
    (hquiet : shoutContent e = none) : ∃ s', (zyreBridgeActor J b.inf).step s e = .ok s' := by
  by_cases hs : s.loop = .running
  · refine ⟨_, step_named hJ hin hs he fun m hm ↦ ?_⟩
    rw [hquiet] at hm
    exact absurd hm (by simp [acceptedEnvelope, Jansson.jsonLoads])
  · exact ⟨s, by simp only [zyreBridgeActor, if_neg hs]⟩

/-- A node of a group in which harmless things have happened has shouted harmless texts. -/
theorem Sound.harmless (hJ : J.RoundTrips) (h : Sound J zuuid b acts g) {ext : κ → InitExtern}
    (hb : ∀ i, (b i).Initialised (ext i)) (hu : ∀ i n, Json.ValidString (zuuid i n))
    (hl : ∀ i, Json.ValidString (b i).inf.node.uuid) (ha : ∀ a ∈ acts, a.Harmless J)
    (s : κ ⊕ π) (j : κ) : ∀ text ∈ g.links.onWay s j, HarmlessText J text := by
  intro text htext
  have hsent := (h.ordered s j).subset (List.mem_append_right _ htext)
  cases s with
  | inl i =>
    rw [sent, StepWorld.texts, (h.ledger i).log_eq] at hsent
    exact harmless_record hJ (hb i).outputTypeList_eq (hu i) (hl i) 0 _ text hsent
  | inr p =>
    obtain ⟨a, hmem, hby⟩ := List.mem_filterMap.mp hsent
    have hharm := ha a hmem
    cases a with
    | shout p' text' =>
      simp only [NetworkAction.shoutedBy] at hby
      split at hby
      · exact Option.some.inj hby ▸ hharm
      · exact absurd hby (by simp)
    | out | deliver | event | start | enter | exit =>
      exact absurd hby (by simp [NetworkAction.shoutedBy])

/-- The messages on its ports are readable. -/
theorem Sound.readable (h : Sound J zuuid b acts g) {ext : κ → InitExtern}
    (hb : ∀ i, (b i).Initialised (ext i)) (ha : ∀ a ∈ acts, a.Harmless J) (i : κ) :
    ∀ m ∈ (g.out i).zyreOut, Readable J (b i) m := by
  intro m hm
  obtain ⟨hpos, hlt⟩ := h.fits (fun i ↦ (hb i).maxMsgLength_eq) i m hm
  refine ⟨hpos, hlt, ?_⟩
  obtain ⟨a, hmem, hw⟩ := List.mem_filterMap.mp ((h.ledger i).mem_of_mem hm)
  have hharm := ha a hmem
  cases a with
  | out i' a =>
    cases a with
    | step tmpStr => exact absurd hw (by simp [NetworkAction.writtenAt])
    | write m' =>
      simp only [NetworkAction.writtenAt] at hw
      split at hw
      · exact Option.some.inj hw ▸ hharm
      · exact absurd hw (by simp)
  | shout | deliver | event | start | enter | exit =>
    exact absurd hw (by simp [NetworkAction.writtenAt])

/-- Harmless actions do not fail. -/
theorem Sound.progress (hJ : J.RoundTrips) (h : Sound J zuuid b acts g) {ext : κ → InitExtern}
    (hb : ∀ i, (b i).Initialised (ext i)) (hu : ∀ i n, Json.ValidString (zuuid i n))
    (hl : ∀ i, Json.ValidString (b i).inf.node.uuid) (ha : ∀ a ∈ acts, a.Harmless J)
    (hnext : a.Harmless J) : ∃ g', networkStep J zuuid b g a = .ok g' := by
  cases a with
  | out i a =>
    have hstep : ∃ w, (stepMachine J (zuuid i) (b i)).step (g.out i) a = .ok w := by
      cases a with
      | write m => exact ⟨_, rfl⟩
      | step tmpStr => exact zyreBridgeStep_readable (zuuid i) (h.readable hb ha i) tmpStr
    obtain ⟨w, hw⟩ := hstep
    simp only [networkStep, hw]
    exact ⟨_, rfl⟩
  | deliver s j peer name group =>
    simp only [networkStep]
    split
    · exact ⟨_, rfl⟩
    next text rest hway =>
    split
    · next hrun =>
      have hharm := h.harmless hJ hb hu hl ha s j text (by rw [hway]; exact List.mem_cons_self)
      obtain ⟨s', hs'⟩ := step_of_harmless hJ.toDocumented (hb j).inputTypeList_eq hrun hharm
        peer name group
      simp only [hs']
      exact ⟨_, rfl⟩
    · exact ⟨_, rfl⟩
  | event j e quiet =>
    obtain ⟨s', hs'⟩ :=
      step_of_named hJ.toDocumented (hb j).inputTypeList_eq (g.actor j) hnext quiet
    simp only [networkStep, hs']
    exact ⟨_, rfl⟩
  | enter s j =>
    simp only [networkStep]
    split <;> exact ⟨_, rfl⟩
  | shout | start | exit => exact ⟨_, rfl⟩

/-- So a group in which harmless things happen does not fail. -/
theorem run_of_harmless (hJ : J.RoundTrips) {ext : κ → InitExtern}
    (hb : ∀ i, (b i).Initialised (ext i)) (hu : ∀ i n, Json.ValidString (zuuid i n))
    (hl : ∀ i, Json.ValidString (b i).inf.node.uuid) (up : κ ⊕ π → κ → Bool)
    (ha : ∀ a ∈ acts, a.Harmless J) :
    ∃ g, (networkMachine J zuuid b).run (.start up) acts = .ok g := by
  have hrun : ∃ g, (networkMachine J zuuid b).run (.start up) acts = .ok g ∧
      Sound J zuuid b acts g ∧ ∀ a ∈ acts, a.Harmless J := by
    refine Machine.run_total (P := fun acts g ↦ Sound J zuuid b acts g ∧ ∀ a ∈ acts, a.Harmless J)
      ⟨sound_start up, by simp⟩ ?_ ha
    intro as g a ⟨hsound, hpast⟩ hnext
    obtain ⟨g', hs⟩ := hsound.progress hJ hb hu hl hpast hnext
    have hnew := hsound.step hJ.toDocumented (fun i ↦ (hb i).maxMsgLength_eq)
      (fun i ↦ (hb i).inputTypeList_eq)
      (networkStep_transition hs)
    exact ⟨g', hs, hnew, List.forall_mem_append.mpr ⟨hpast, by simpa using hnext⟩⟩
  obtain ⟨g, hr, -⟩ := hrun
  exact ⟨g, hr⟩

/-! ### Coming to rest -/

/-- A step of a bridge, or a delivery. -/
def NetworkAction.Moves : NetworkAction π b → Prop
  | .out _ (.step _) => True
  | .deliver _ _ _ _ _ => True
  | _ => False

/-- Steps and deliveries bring no message, -/
theorem NetworkAction.Moves.inner (h : a.Moves) : a.Inner := by
  cases a with
  | out i act =>
    cases act with
    | write m => exact h.elim
    | step tmpStr => exact ⟨fun _ ↦ rfl, fun _ ↦ rfl⟩
  | deliver => exact ⟨fun _ ↦ rfl, fun _ ↦ rfl⟩
  | shout | event | start | enter | exit => exact h.elim

omit [DecidableEq κ] [DecidableEq π] in
/-- and are harmless. -/
theorem NetworkAction.Moves.harmless (h : a.Moves) : a.Harmless J := by
  cases a with
  | out i act =>
    cases act with
    | write m => exact h.elim
    | step tmpStr => trivial
  | deliver => trivial
  | shout | event | start | enter | exit => exact h.elim

/-- They offer nothing new. -/
theorem offered_of_moves {more : List (NetworkAction π b)} (hm : ∀ a ∈ more, a.Moves)
    (s : κ ⊕ π) : offered J (acts ++ more) s = offered J acts s := by
  cases s with
  | inl i =>
    have hnone : written i more = [] :=
      List.filterMap_eq_nil_iff.mpr fun a ha ↦ (hm a ha).inner.1 i
    rw [offered, offered, written, List.filterMap_append]
    change (written i acts ++ written i more).filterMap _ = _
    rw [hnone, List.append_nil]
  | inr p =>
    have hnone : shouted p more = [] :=
      List.filterMap_eq_nil_iff.mpr fun a ha ↦ (hm a ha).inner.2 p
    rw [offered, offered, shouted, List.filterMap_append]
    change (shouted p acts ++ shouted p more).filterMap _ = _
    rw [hnone, List.append_nil]

/-- Steps of a bridge that may send empty its port. -/
theorem exists_steps (hJ : J.Documented) {ext : κ → InitExtern}
    (hb : ∀ i, (b i).Initialised (ext i)) {i : κ}
    (hk : 0 < (b i).config.maxSend.toInt) (n : Nat) (h : Sound J zuuid b acts g)
    (ha : ∀ a ∈ acts, a.Harmless J) (hn : (g.out i).zyreOut.length = n) :
    ∃ more g', (∀ a ∈ more, a.Moves) ∧ (networkMachine J zuuid b).run g more = .ok g' ∧
      g'.actor = g.actor ∧ (g'.out i).zyreOut = [] := by
  induction n using Nat.strongRecOn generalizing acts g with
  | _ n ih =>
    by_cases hq : (g.out i).zyreOut = []
    · exact ⟨[], g, by simp, rfl, rfl, hq⟩
    · -- one step takes at least one message off the port
      obtain ⟨w, hw⟩ := zyreBridgeStep_readable (zuuid i) (h.readable hb ha i) (.replicate _ 0)
      have hpos : 0 < (b i).inf.maxSend.toNatClampNeg := by
        rw [(hb i).maxSend_eq, ← Int32.toNat_toInt]
        omega
      have hlt := length_lt_of_step (h.fits (fun i ↦ (hb i).maxMsgLength_eq) i) hw hpos hq
      have hact : networkStep J zuuid b g (.out i (.step (.replicate _ 0))) = .ok { g with
          out := Function.update g.out i w
          links := g.links.send (.inl i) (textsSince (g.out i) w) } := by
        have hstep : (stepMachine J (zuuid i) (b i)).step (g.out i) (.step (.replicate _ 0)) =
            .ok w := hw
        simp only [networkStep, hstep]
      have hnew := h.step hJ (fun i ↦ (hb i).maxMsgLength_eq) (fun i ↦ (hb i).inputTypeList_eq)
        (networkStep_transition hact)
      obtain ⟨more, g', hmoves, hr, hactor, hempty⟩ := ih w.zyreOut.length (hn ▸ hlt) hnew
        (List.forall_mem_append.mpr ⟨ha, by simp [NetworkAction.Harmless]⟩) (by simp)
      refine ⟨.out i (.step (.replicate _ 0)) :: more, g',
        List.forall_mem_cons.mpr ⟨trivial, hmoves⟩, ?_, hactor, hempty⟩
      exact Machine.run_cons.mpr ⟨_, hact, hr⟩

/-- Deliveries to an actor that is running empty a link. -/
theorem exists_deliveries (hJ : J.RoundTrips) {ext : κ → InitExtern}
    (hb : ∀ i, (b i).Initialised (ext i)) (hu : ∀ i n, Json.ValidString (zuuid i n))
    (hl : ∀ i, Json.ValidString (b i).inf.node.uuid) {s : κ ⊕ π} {j : κ} (n : Nat)
    (h : Sound J zuuid b acts g) (ha : ∀ a ∈ acts, a.Harmless J)
    (hrun : (g.actor j).loop = .running) (hn : (g.links.onWay s j).length = n) :
    ∃ more g', (∀ a ∈ more, a.Moves) ∧ (networkMachine J zuuid b).run g more = .ok g' ∧
      g'.out = g.out ∧ g'.links.onWay s j = [] := by
  induction n generalizing acts g with
  | zero => exact ⟨[], g, by simp, rfl, rfl, List.length_eq_zero_iff.mp hn⟩
  | succ n ih =>
    obtain ⟨text, rest, hway⟩ := List.exists_cons_of_length_eq_add_one hn
    have hharm := h.harmless hJ hb hu hl ha s j text (by rw [hway]; exact List.mem_cons_self)
    obtain ⟨s', hs'⟩ :=
      step_of_harmless hJ.toDocumented (hb j).inputTypeList_eq hrun hharm [] [] []
    have hact : networkStep J zuuid b g (.deliver s j [] [] []) = .ok { g with
        actor := Function.update g.actor j s', links := g.links.deliver s j } := by
      simp only [networkStep, hway, if_pos hrun, hs']
    have hnew := h.step hJ.toDocumented (fun i ↦ (hb i).maxMsgLength_eq)
      (fun i ↦ (hb i).inputTypeList_eq)
      (networkStep_transition hact)
    have hrest : (g.links.deliver s j).onWay s j = rest := by
      simp only [Links.deliver, hway, and_self, ↓reduceIte]
    have hlen : rest.length = n := by
      rw [hway, List.length_cons] at hn
      omega
    obtain ⟨-, hloop⟩ := zyreIn_of_shout hJ.toDocumented (hb j).inputTypeList_eq hrun hs'
    obtain ⟨more, g', hmoves, hr, hout, hempty⟩ := ih hnew
      (List.forall_mem_append.mpr ⟨ha, by simp [NetworkAction.Harmless]⟩) (by simpa using hloop)
      (by rw [hrest, hlen])
    refine ⟨.deliver s j [] [] [] :: more, g', List.forall_mem_cons.mpr ⟨trivial, hmoves⟩, ?_,
      hout, hempty⟩
    exact Machine.run_cons.mpr ⟨_, hact, hr⟩

/-- What a node offers can be brought to a world model by steps and deliveries. -/
theorem exists_moves (hJ : J.RoundTrips) {ext : κ → InitExtern}
    (hb : ∀ i, (b i).Initialised (ext i)) (hu : ∀ i n, Json.ValidString (zuuid i n))
    (hl : ∀ i, Json.ValidString (b i).inf.node.uuid) {up : κ ⊕ π → κ → Bool}
    (ha : ∀ a ∈ acts, a.Harmless J) (hr : (networkMachine J zuuid b).run (.start up) acts = .ok g)
    {s : κ ⊕ π} {j : κ} (hs : s ≠ .inl j) (hup : up s j = true) (hexit : .exit s j ∉ acts)
    (hrun : (g.actor j).loop = .running)
    (hk : ∀ i, s = .inl i → 0 < (b i).config.maxSend.toInt) :
    ∃ more g', (∀ a ∈ more, a.Moves) ∧ (networkMachine J zuuid b).run g more = .ok g' ∧
      got J g' s j = offered J acts s := by
  have hsound := sound_of_run hJ.toDocumented hb hr
  have hmore {more : List (NetworkAction π b)} (hm : ∀ a ∈ more, a.Moves) :
      ∀ a ∈ acts ++ more, a.Harmless J :=
    List.forall_mem_append.mpr ⟨ha, fun a hmem ↦ (hm a hmem).harmless⟩
  -- first the port of the node, if it is a bridge
  obtain ⟨more₁, g₁, hm₁, hr₁, hactor, hpending⟩ : ∃ more g', (∀ a ∈ more, a.Moves) ∧
      (networkMachine J zuuid b).run g more = .ok g' ∧ g'.actor = g.actor ∧
        pending J b g' s = [] := by
    cases s with
    | inl i =>
      obtain ⟨more, g', hm, hr', hactor, hempty⟩ :=
        exists_steps hJ.toDocumented hb (hk i rfl) _ hsound ha rfl
      exact ⟨more, g', hm, hr', hactor, by rw [pending, hempty]; rfl⟩
    | inr p => exact ⟨[], g, by simp, rfl, rfl, rfl⟩
  have hall₁ := Machine.run_append.mpr ⟨g, hr, hr₁⟩
  -- then the link
  obtain ⟨more₂, g₂, hm₂, hr₂, hout, hway⟩ := exists_deliveries (s := s) hJ hb hu hl _
    (sound_of_run hJ.toDocumented hb hall₁) (hmore hm₁) (hactor ▸ hrun) rfl
  have hall₂ := Machine.run_append.mpr ⟨g₁, hall₁, hr₂⟩
  have hmoves := List.forall_mem_append.mpr ⟨hm₁, hm₂⟩
  rw [List.append_assoc] at hall₂
  refine ⟨more₁ ++ more₂, g₂, hmoves, Machine.run_append.mpr ⟨g₁, hr₁, hr₂⟩, ?_⟩
  have hexit' : .exit s j ∉ acts ++ (more₁ ++ more₂) := by
    intro hmem
    rcases List.mem_append.mp hmem with hmem | hmem
    · exact hexit hmem
    · exact hmoves _ hmem
  have hwhole := (sound_of_run hJ.toDocumented hb hall₂).offered_of_whole hJ hb hu hl
    (whole_of_run hJ.toDocumented hb hall₂ hs hup hexit')
  have hcoming : coming J g₂ s j = [] := by rw [coming, hway]; rfl
  have hpending₂ : pending J b g₂ s = [] := by
    rw [← hpending]
    cases s with
    | inl i => rw [pending, pending, hout]
    | inr p => rfl
  rw [hcoming, hpending₂, List.append_nil, List.append_nil, offered_of_moves hmoves] at hwhole
  exact hwhole

end

/-- Independence of the schedule: two runs of groups with the same mediator settings, whatever
their other settings, in which the same messages are written and shouted, no connection is
lost and everything has come to rest, leave every world model with the same payloads of each
other node in the same order, and so with the same messages up to how the nodes are mixed. -/
theorem schedule_independent {κ π : Type} [DecidableEq κ] [DecidableEq π] {J : Jansson}
    (hJ : J.RoundTrips) {ext ext' : κ → InitExtern} {b b' : κ → ZyreBridge}
    (hb : ∀ i, (b i).Initialised (ext i)) (hb' : ∀ i, (b' i).Initialised (ext' i))
    (hmed : ∀ i, (b' i).config.mediator = (b i).config.mediator) {zuuid zuuid' : κ → Nat → Bytes}
    (hu : ∀ i n, Json.ValidString (zuuid i n)) (hu' : ∀ i n, Json.ValidString (zuuid' i n))
    (hl : ∀ i, Json.ValidString (b i).inf.node.uuid)
    (hl' : ∀ i, Json.ValidString (b' i).inf.node.uuid)
    {acts : List (NetworkAction π b)} {acts' : List (NetworkAction π b')} {g g' : Network κ π}
    (hr : (networkMachine J zuuid b).run (.start fun _ _ ↦ true) acts = .ok g)
    (hr' : (networkMachine J zuuid' b').run (.start fun _ _ ↦ true) acts' = .ok g')
    (hwritten : ∀ i, written i acts' = written i acts)
    (hshouted : ∀ p, shouted p acts' = shouted p acts)
    (hexit : ∀ s j, .exit s j ∉ acts) (hexit' : ∀ s j, .exit s j ∉ acts')
    (hrest : Settled J b g) (hrest' : Settled J b' g') (j : κ) :
    (∀ s, got J g' s j = got J g s j) ∧ (g'.actor j).zyreIn.Perm (g.actor j).zyreIn := by
  have hsound := sound_of_run hJ.toDocumented hb hr
  have hsound' := sound_of_run hJ.toDocumented hb' hr'
  have hoffered (s : κ ⊕ π) : offered J acts' s = offered J acts s := by
    cases s with
    | inl i =>
      have hpass : passesOn J (b' i) = passesOn J (b i) := by
        funext m
        rw [passesOn, passesOn]
        split
        · next pl t _ => exact if_congr (by rw [mediated, mediated, hmed i]) rfl rfl
        · rfl
      rw [offered, offered, hwritten i, hpass]
    | inr p => rw [offered, offered, hshouted p]
  have hgot (s : κ ⊕ π) : got J g' s j = got J g s j := by
    by_cases hs : s = .inl j
    · subst hs
      have hnone := (List.append_eq_nil_iff.mp (hsound.silent j).passed_eq).1
      have hnone' := (List.append_eq_nil_iff.mp (hsound'.silent j).passed_eq).1
      rw [got, got, hnone, hnone']
    · have hall := hsound.offered_of_whole hJ hb hu hl
        (whole_of_run hJ.toDocumented hb hr hs rfl (hexit s j))
      have hall' := hsound'.offered_of_whole hJ hb' hu' hl'
        (whole_of_run hJ.toDocumented hb' hr' hs rfl (hexit' s j))
      rw [hrest.coming s j hs, hrest.pending, List.append_nil, List.append_nil] at hall
      rw [hrest'.coming s j hs, hrest'.pending, List.append_nil, List.append_nil] at hall'
      rw [hall, hall', hoffered s]
  refine ⟨hgot, ?_⟩
  rw [zyreIn_eq_tagged hsound, zyreIn_eq_tagged hsound']
  apply List.Perm.map
  apply perm_of_labelled
  intro s
  rw [labelled_tagged, labelled_tagged, hgot s]

/-- The update of the other peer, delivered in two orders. -/
def updateRuns (first : Bool) : List (NetworkAction Unit fun _ : Bool ↦ testBridge) :=
  [.shout () (ofString "\x7b\"type\":\"RSGUpdate\",\"payload\":[1]\x7d"),
    .deliver (.inr ()) first (ofString "1B") (ofString "peer") (ofString "local"),
    .deliver (.inr ()) (!first) (ofString "1B") (ofString "peer") (ofString "local")]

private theorem updateRuns_rest (first : Bool) :
    ∃ g, (networkMachine .reference (fun _ _ ↦ ofString "1F") fun _ ↦ testBridge).run
        (.start fun _ _ ↦ true) (updateRuns first) = .ok g ∧
      Settled .reference (fun _ ↦ testBridge) g := by
  cases first with
  | false =>
    refine ⟨_, rfl, fun s j _ ↦ ?_, fun s ↦ ?_⟩
    · rcases s with (_ | _) | _ <;> cases j <;> rfl
    · rcases s with (_ | _) | _ <;> rfl
  | true =>
    refine ⟨_, rfl, fun s j _ ↦ ?_, fun s ↦ ?_⟩
    · rcases s with (_ | _) | _ <;> cases j <;> rfl
    · rcases s with (_ | _) | _ <;> rfl

/-- Both orders leave the same. -/
theorem schedule_independent_update :
    ∃ g g', (networkMachine .reference (fun _ _ ↦ ofString "1F") fun _ ↦ testBridge).run
        (.start fun _ _ ↦ true) (updateRuns true) = .ok g ∧
      (networkMachine .reference (fun _ _ ↦ ofString "1F") fun _ ↦ testBridge).run
        (.start fun _ _ ↦ true) (updateRuns false) = .ok g' ∧
      ∀ j, (g'.actor j).zyreIn.Perm (g.actor j).zyreIn := by
  obtain ⟨g, hr, hrest⟩ := updateRuns_rest true
  obtain ⟨g', hr', hrest'⟩ := updateRuns_rest false
  exact ⟨g, g', hr, hr', fun j ↦ (schedule_independent Jansson.reference_roundTrips
    (fun _ ↦ testBridge_initialised) (fun _ ↦ testBridge_initialised) (fun _ ↦ rfl)
    (fun _ _ ↦ by decide) (fun _ _ ↦ by decide) (fun _ ↦ by decide) (fun _ ↦ by decide) hr hr'
    (fun _ ↦ rfl) (fun _ ↦ rfl) (by simp [updateRuns]) (by simp [updateRuns]) hrest hrest' j).2⟩

/-- A group in which world models write typed or malformed messages, peers shout harmless
texts and events have names never fails, and over every connection that has not been lost, to
an actor that is running, steps and deliveries alone bring all that has been offered. -/
theorem network_catches_up {κ π : Type} [DecidableEq κ] [DecidableEq π] {J : Jansson}
    (hJ : J.RoundTrips) {ext : κ → InitExtern} {b : κ → ZyreBridge}
    (hb : ∀ i, (b i).Initialised (ext i)) {zuuid : κ → Nat → Bytes}
    (hu : ∀ i n, Json.ValidString (zuuid i n)) (hl : ∀ i, Json.ValidString (b i).inf.node.uuid)
    (up : κ ⊕ π → κ → Bool) {acts : List (NetworkAction π b)} (ha : ∀ a ∈ acts, a.Harmless J) :
    ∃ g, (networkMachine J zuuid b).run (.start up) acts = .ok g ∧
      ∀ s j, s ≠ .inl j → up s j = true → .exit s j ∉ acts → (g.actor j).loop = .running →
        (∀ i, s = .inl i → 0 < (b i).config.maxSend.toInt) →
          ∃ more g', (∀ a ∈ more, a.Moves) ∧ (networkMachine J zuuid b).run g more = .ok g' ∧
            got J g' s j = offered J acts s := by
  obtain ⟨g, hr⟩ := run_of_harmless hJ hb hu hl up ha
  exact ⟨g, hr, fun _ _ hs hup hexit hrun hk ↦
    exists_moves hJ hb hu hl ha hr hs hup hexit hrun hk⟩

/-- An update that has been written at one of two bridges can be brought to the other. -/
theorem network_catches_up_update :
    ∃ g, (networkMachine .reference (fun _ _ ↦ ofString "1F") fun _ : Bool ↦ plainBridge).run
        (.start fun _ _ ↦ true) [.out true (.write updateMessage)] = .ok g ∧
      ∃ more g', (∀ a ∈ more, a.Moves) ∧
        (networkMachine .reference (fun _ _ ↦ ofString "1F") fun _ : Bool ↦ plainBridge).run
          g more = .ok g' ∧
        got .reference g' (.inl true : Bool ⊕ Unit) false =
          [.object [(ofString "@worldmodeltype", .string (ofString "RSGUpdate"))]] := by
  have hclass : classify .reference updateMessage.bytes = .typed _ (ofString "RSGUpdate") := rfl
  have hharm : ∀ a ∈ ([.out true (.write updateMessage)] :
      List (NetworkAction Unit fun _ : Bool ↦ plainBridge)), a.Harmless .reference := by
    intro a ha
    rw [List.mem_singleton.mp ha, NetworkAction.Harmless, hclass]
    simp
  have huuid : ∀ (_ : Bool) (_ : Nat), Json.ValidString (ofString "1F") := fun _ _ ↦ by decide
  obtain ⟨g, hr, hall⟩ := network_catches_up Jansson.reference_roundTrips
    (fun _ ↦ plainBridge_initialised) huuid (fun _ ↦ by decide) (fun _ _ ↦ true) hharm
  have hrun : (g.actor false).loop = .running := by
    rw [← Except.ok.inj hr]
    rfl
  exact ⟨g, hr, hall (.inl true) false (by simp) rfl (by simp) hrun (fun _ _ ↦ by decide)⟩

end Ubx.Zyre
