import Ubx.Base.Bytes
import Ubx.Base.Links
import Ubx.Base.Machine

/-!
# Publishers and subscribers

`zmq_sender_step` of `src/czmq_bridge/src/zmq_sender.cpp:101–135`, and the actor of
`src/czmq_bridge/src/zmq_receiver.cpp:102–147`. A PUB socket sends to the subscribers that it
is connected to, and leaves out those whose queue is full. The actor writes every frame to
port `zmq_in` as a message of its own, also where another publisher has sent several at once.
-/

namespace Ubx.Zmq

open Ubx.Base

/-- `DEFAULT_BUFFER_LENGTH` of the sender. -/
def senderBufferLength : Nat := 20000

/-- What `__port_read` copies into the buffer of the sender: all of a message that fits. -/
structure SenderRead where
  fetch : Bytes → Bytes
  fetch_eq : ∀ m, m.length ≤ senderBufferLength → fetch m = m

/-- Blocks `zmq_sender` (`κ`) and other publishers (`π`), and blocks `zmq_receiver` (`ρ`). -/
structure Pipeline (κ ρ π : Type) where
  zmqOut : κ → List Bytes
  /-- Messages that `zmq_sender_step` has taken off the port. -/
  reads : κ → List Bytes
  links : Links (κ ⊕ π) ρ Bytes
  /-- The actor has been started. -/
  running : ρ → Bool
  zmqIn : ρ → List Bytes

/-- What can happen next. -/
inductive PipelineAction (κ ρ π : Type)
  /-- A block writes to port `zmq_out`. -/
  | write (k : κ) (m : Bytes)
  /-- `zmq_sender_step`. -/
  | step (k : κ)
  /-- Another publisher sends a message of some frames. -/
  | publish (p : π) (frames : List Bytes)
  /-- `zmq_receiver_start`. No later call ends the actor, and a receiver is started once: a
  second call, which would put a second actor on its socket, has no effect here. -/
  | start (r : ρ)
  /-- The loop of `r` calls `handle_event`, and the socket picks a frame from `s`. -/
  | handleEvent (s : κ ⊕ π) (r : ρ)
  /-- The sockets are connected, or there is room in the queue again. -/
  | connect (s : κ ⊕ π) (r : ρ)
  | disconnect (s : κ ⊕ π) (r : ρ)
  /-- The queue from `s` to `r` has reached its high-water mark. -/
  | full (s : κ ⊕ π) (r : ρ)

section

variable {κ ρ π : Type}

/-- Before the first action, with some connections. -/
def Pipeline.start (up : κ ⊕ π → ρ → Bool) : Pipeline κ ρ π :=
  { zmqOut := fun _ ↦ []
    reads := fun _ ↦ []
    links := .start up
    running := fun _ ↦ false
    zmqIn := fun _ ↦ [] }

variable [DecidableEq π]

/-- `zmq_sender_step`; `zmq_sender.cpp:101–135`. -/
def zmqSenderStep [DecidableEq κ] (P : SenderRead) (k : κ) (g : Pipeline κ ρ π) : Pipeline κ ρ π :=
  match g.zmqOut k with
  | [] => g
  | m :: rest =>
    let g := { g with
      zmqOut := Function.update g.zmqOut k rest
      reads := Function.update g.reads k (g.reads k ++ [m]) }
    let readBytes := (P.fetch m).length
    if readBytes ≤ 0 then g
    else { g with links := g.links.send (.inl k) [P.fetch m] }

/-- `handle_event`; `zmq_receiver.cpp:102–128`. It returns 1, so the loop goes on. -/
def receiveEvent [DecidableEq κ] [DecidableEq ρ] (s : κ ⊕ π) (r : ρ) (g : Pipeline κ ρ π) :
    Pipeline κ ρ π :=
  match g.links.onWay s r with
  | [] => g
  | frame :: _ =>
    { g with
      links := g.links.deliver s r
      zmqIn := Function.update g.zmqIn r (g.zmqIn r ++ [frame]) }

/-- One action. -/
def Pipeline.act [DecidableEq κ] [DecidableEq ρ] (P : SenderRead) (g : Pipeline κ ρ π) :
    PipelineAction κ ρ π → Pipeline κ ρ π
  | .write k m => { g with zmqOut := Function.update g.zmqOut k (g.zmqOut k ++ [m]) }
  | .step k => zmqSenderStep P k g
  | .publish p frames => { g with links := g.links.send (.inr p) frames }
  | .start r => { g with running := Function.update g.running r true }
  | .handleEvent s r => if g.running r = true then receiveEvent s r g else g
  | .connect s r => { g with links := g.links.connect s r }
  | .disconnect s r => { g with links := g.links.disconnect s r }
  | .full s r => { g with links := g.links.hold s r }

/-- The state after some actions. -/
def pipeline [DecidableEq κ] [DecidableEq ρ] (P : SenderRead) (up : κ ⊕ π → ρ → Bool)
    (acts : List (PipelineAction κ ρ π)) : Pipeline κ ρ π := acts.foldl (Pipeline.act P) (.start up)

/-! ### What is sent -/

/-- The message that an action writes to port `zmq_out` of `k`. -/
def PipelineAction.writtenAt [DecidableEq κ] (k : κ) : PipelineAction κ ρ π → Option Bytes
  | .write k' m => if k' = k then some m else none
  | _ => none

/-- The frames that an action sends as `p`. -/
def PipelineAction.publishedBy (p : π) : PipelineAction κ ρ π → List Bytes
  | .publish p' frames => if p' = p then frames else []
  | _ => []

/-- Messages written to port `zmq_out` of `k`, in order. -/
def writtenTo [DecidableEq κ] (k : κ) (acts : List (PipelineAction κ ρ π)) : List Bytes :=
  acts.filterMap (PipelineAction.writtenAt k)

/-- The frame for a message, unless nothing is read. -/
def frameOf (P : SenderRead) (m : Bytes) : Option Bytes :=
  if (P.fetch m).length ≤ 0 then none else some (P.fetch m)

/-- What has been sent by a publisher. -/
def sentBy (P : SenderRead) (acts : List (PipelineAction κ ρ π)) (g : Pipeline κ ρ π) :
    κ ⊕ π → List Bytes
  | .inl k => (g.reads k).filterMap (frameOf P)
  | .inr p => acts.flatMap (PipelineAction.publishedBy p)

/-- The frames of messages that fit are the messages. -/
theorem filterMap_frameOf (P : SenderRead) {ms : List Bytes}
    (h : ∀ m ∈ ms, 0 < m.length ∧ m.length ≤ senderBufferLength) :
    ms.filterMap (frameOf P) = ms := by
  induction ms with
  | nil => rfl
  | cons m ms ih =>
    obtain ⟨⟨hpos, hle⟩, hms⟩ := List.forall_mem_cons.mp h
    have hframe : frameOf P m = some m := by
      rw [frameOf, P.fetch_eq m hle, if_neg (by omega)]
    rw [List.filterMap_cons_some hframe, ih hms]

/-- What is sent with one more action that is no step and sends nothing itself. -/
theorem sentBy_concat_quiet {P : SenderRead} {acts : List (PipelineAction κ ρ π)}
    {g g' : Pipeline κ ρ π} {a : PipelineAction κ ρ π}
    (hreads : g'.reads = g.reads) (ha : ∀ p, a.publishedBy p = []) (s : κ ⊕ π) :
    sentBy P (acts ++ [a]) g' s = sentBy P acts g s ++ [] := by
  rw [List.append_nil]
  cases s with
  | inl k => rw [sentBy, sentBy, hreads]
  | inr p => simp [sentBy, ha p]

variable [DecidableEq κ]

/-- What a step does. -/
theorem zmqSenderStep_cons {P : SenderRead} {g : Pipeline κ ρ π} {k : κ} {m : Bytes}
    {rest : List Bytes} (h : g.zmqOut k = m :: rest) :
    zmqSenderStep P k g = { g with
      zmqOut := Function.update g.zmqOut k rest
      reads := Function.update g.reads k (g.reads k ++ [m])
      links := g.links.send (.inl k) (frameOf P m).toList } := by
  rw [zmqSenderStep, h]
  dsimp only
  rw [frameOf]
  split
  · have hsend : g.links.send (.inl k) [] = g.links := by
      simp only [Links.send, List.append_nil, ite_self]
    rw [Option.toList_none, hsend]
  · rfl

variable [DecidableEq ρ]

/-! ### Every run -/

/-- What holds after some actions. -/
structure Conveys (P : SenderRead) (acts : List (PipelineAction κ ρ π)) (g : Pipeline κ ρ π) :
    Prop where
  conserved : ∀ k, g.reads k ++ g.zmqOut k = writtenTo k acts
  ordered : g.links.Ordered (sentBy P acts g)
  zmqIn : ∀ r, g.zmqIn r = (g.links.arrived r).map Prod.snd

variable {P : SenderRead} {acts : List (PipelineAction κ ρ π)} {g : Pipeline κ ρ π}

/-- What happens to the links goes with what is sent. -/
theorem links_act (P : SenderRead) (acts : List (PipelineAction κ ρ π)) (g : Pipeline κ ρ π)
    (a : PipelineAction κ ρ π) :
    ∃ e, (g.act P a).links = g.links.act e ∧
      (∀ s, sentBy P (acts ++ [a]) (g.act P a) s = sentBy P acts g s ++ e.sends s) ∧
        ∀ s r, e.Lowers s r → a = .disconnect s r ∨ a = .full s r := by
  cases a with
  | write k m => exact ⟨.idle, rfl, sentBy_concat_quiet rfl fun _ ↦ rfl, by simp⟩
  | start r => exact ⟨.idle, rfl, sentBy_concat_quiet rfl fun _ ↦ rfl, by simp⟩
  | connect s r => exact ⟨.connect s r, rfl, sentBy_concat_quiet rfl fun _ ↦ rfl, by simp⟩
  | disconnect s r =>
    refine ⟨.disconnect s r, rfl, sentBy_concat_quiet rfl fun _ ↦ rfl, ?_⟩
    rintro s' r' ⟨rfl, rfl⟩
    exact .inl rfl
  | full s r =>
    refine ⟨.hold s r, rfl, sentBy_concat_quiet rfl fun _ ↦ rfl, ?_⟩
    rintro s' r' ⟨rfl, rfl⟩
    exact .inr rfl
  | publish p frames =>
    refine ⟨.send (.inr p) frames, rfl, fun s ↦ ?_, by simp⟩
    cases s with
    | inl k => exact (List.append_nil _).symm
    | inr p' =>
      rw [sentBy, sentBy, List.flatMap_append, List.flatMap_singleton, Links.Event.sends,
        PipelineAction.publishedBy]
      by_cases hp : p = p'
      · subst hp
        simp
      · simp [hp]
  | handleEvent s r =>
    rw [Pipeline.act]
    by_cases hrun : g.running r = true
    · rw [if_pos hrun, receiveEvent]
      cases hway : g.links.onWay s r with
      | nil => exact ⟨.idle, rfl, sentBy_concat_quiet rfl fun _ ↦ rfl, by simp⟩
      | cons frame rest =>
        exact ⟨.deliver s r, rfl, sentBy_concat_quiet rfl fun _ ↦ rfl, by simp⟩
    · rw [if_neg hrun]
      exact ⟨.idle, rfl, sentBy_concat_quiet rfl fun _ ↦ rfl, by simp⟩
  | step k =>
    rw [Pipeline.act]
    cases hq : g.zmqOut k with
    | nil =>
      have hsame : zmqSenderStep P k g = g := by rw [zmqSenderStep, hq]
      rw [hsame]
      exact ⟨.idle, rfl, sentBy_concat_quiet rfl fun _ ↦ rfl, by simp⟩
    | cons m rest =>
      rw [zmqSenderStep_cons hq]
      refine ⟨.send (.inl k) (frameOf P m).toList, rfl, fun s ↦ ?_, by simp⟩
      cases s with
      | inr p =>
        rw [sentBy, sentBy, List.flatMap_append]
        rfl
      | inl k' =>
        rw [sentBy, sentBy, Links.Event.sends]
        by_cases hk : k = k'
        · subst hk
          dsimp only
          rw [Function.update_self, List.filterMap_append, if_pos rfl]
          cases hf : frameOf P m <;> simp [hf]
        · have hne : Sum.inl k ≠ (Sum.inl k' : κ ⊕ π) := fun he ↦ hk (Sum.inl.inj he)
          dsimp only
          rw [Function.update_of_ne (Ne.symm hk), if_neg hne, List.append_nil]

omit [DecidableEq ρ] in
/-- A step moves a message from the port to those read. -/
theorem reads_zmqSenderStep (P : SenderRead) (k k' : κ) (g : Pipeline κ ρ π) :
    (zmqSenderStep P k g).reads k' ++ (zmqSenderStep P k g).zmqOut k' =
      g.reads k' ++ g.zmqOut k' := by
  cases hq : g.zmqOut k with
  | nil => rw [zmqSenderStep, hq]
  | cons m rest =>
    rw [zmqSenderStep_cons hq]
    dsimp only
    by_cases hk : k' = k
    · subst hk
      rw [Function.update_self, Function.update_self, hq, List.append_assoc,
        List.singleton_append]
    · rw [Function.update_of_ne hk, Function.update_of_ne hk]

omit [DecidableEq ρ] in
/-- It writes to no port. -/
theorem zmqIn_zmqSenderStep (P : SenderRead) (k : κ) (g : Pipeline κ ρ π) :
    (zmqSenderStep P k g).zmqIn = g.zmqIn ∧
      (zmqSenderStep P k g).links.arrived = g.links.arrived := by
  cases hq : g.zmqOut k with
  | nil =>
    rw [zmqSenderStep, hq]
    exact ⟨rfl, rfl⟩
  | cons m rest =>
    rw [zmqSenderStep_cons hq]
    exact ⟨rfl, rfl⟩

/-- The actor writes the frame that arrives. -/
theorem zmqIn_receiveEvent {s : κ ⊕ π} {r r' : ρ}
    (h : g.zmqIn r' = (g.links.arrived r').map Prod.snd) :
    (receiveEvent s r g).zmqIn r' = ((receiveEvent s r g).links.arrived r').map Prod.snd := by
  rw [receiveEvent]
  cases hway : g.links.onWay s r with
  | nil => exact h
  | cons frame rest =>
    dsimp only
    rw [Links.arrived_deliver hway]
    by_cases hr : r' = r
    · subst hr
      rw [Function.update_self, Function.update_self, h, List.map_append, List.map_singleton]
    · rwa [Function.update_of_ne hr, Function.update_of_ne hr]

/-- Every action keeps what holds. -/
theorem Conveys.act (h : Conveys P acts g) (a : PipelineAction κ ρ π) :
    Conveys P (acts ++ [a]) (g.act P a) := by
  obtain ⟨e, hlinks, hsent, -⟩ := links_act P acts g a
  refine ⟨fun k ↦ ?_, hlinks ▸ h.ordered.act hsent, fun r ↦ ?_⟩
  · have hold := h.conserved k
    rw [writtenTo, List.filterMap_append, ← writtenTo, ← hold]
    cases a with
    | write k' m =>
      by_cases hk : k' = k
      · subst hk
        simp [Pipeline.act, PipelineAction.writtenAt]
      · simp [Pipeline.act, PipelineAction.writtenAt, hk, Ne.symm hk]
    | step k' => exact (reads_zmqSenderStep P k' k g).trans (List.append_nil _).symm
    | handleEvent s r =>
      have hsame : (receiveEvent s r g).reads = g.reads ∧
          (receiveEvent s r g).zmqOut = g.zmqOut := by
        rw [receiveEvent]
        cases g.links.onWay s r <;> exact ⟨rfl, rfl⟩
      rw [Pipeline.act]
      split
      · rw [hsame.1, hsame.2]
        exact (List.append_nil _).symm
      · exact (List.append_nil _).symm
    | publish | start | connect | disconnect | full => exact (List.append_nil _).symm
  · have hold := h.zmqIn r
    cases a with
    | step k =>
      obtain ⟨hin, harrived⟩ := zmqIn_zmqSenderStep P k g
      rw [Pipeline.act, hin, harrived, hold]
    | handleEvent s r' =>
      rw [Pipeline.act]
      split
      · exact zmqIn_receiveEvent hold
      · exact hold
    | write | publish | start | connect | disconnect | full => exact hold

/-- So it holds after any actions. -/
theorem conveys_pipeline (P : SenderRead) (up : κ ⊕ π → ρ → Bool)
    (acts : List (PipelineAction κ ρ π)) : Conveys P acts (pipeline P up acts) := by
  apply foldl_history (P := Conveys P)
  · exact ⟨fun _ ↦ rfl, fun _ _ ↦ List.nil_sublist _, fun _ ↦ rfl⟩
  · intro acts g a h
    exact h.act a

/-- A connection that is there from the beginning, is not lost and never full is whole. -/
theorem whole_pipeline (P : SenderRead) {up : κ ⊕ π → ρ → Bool} {s : κ ⊕ π} {r : ρ}
    (hup : up s r = true) (hlost : .disconnect s r ∉ acts) (hfull : .full s r ∉ acts) :
    (pipeline P up acts).links.Whole (sentBy P acts (pipeline P up acts)) s r := by
  induction acts using List.reverseRecOn with
  | nil => exact ⟨hup, by cases s <;> rfl⟩
  | append_singleton acts a ih =>
    have hnow : pipeline P up (acts ++ [a]) = (pipeline P up acts).act P a := by
      rw [pipeline, List.foldl_append, List.foldl_cons, List.foldl_nil, ← pipeline]
    obtain ⟨e, hlinks, hsent, hdown⟩ := links_act P acts (pipeline P up acts) a
    rw [hnow, hlinks]
    have hbefore := ih (fun hmem ↦ hlost (List.mem_append_left _ hmem))
      (fun hmem ↦ hfull (List.mem_append_left _ hmem))
    apply hbefore.act hsent
    intro he
    rcases hdown s r he with rfl | rfl
    · exact hlost (by simp)
    · exact hfull (by simp)

/-! ### Catching up -/

/-- Steps empty the port. -/
theorem exists_steps (P : SenderRead) (k : κ) (n : Nat) {g : Pipeline κ ρ π}
    (hn : (g.zmqOut k).length = n) :
    ∃ more : List (PipelineAction κ ρ π), (∀ a ∈ more, a = .step k) ∧
      (more.foldl (Pipeline.act P) g).zmqOut k = [] ∧
        (more.foldl (Pipeline.act P) g).running = g.running := by
  induction n generalizing g with
  | zero => exact ⟨[], by simp, List.length_eq_zero_iff.mp hn, rfl⟩
  | succ n ih =>
    obtain ⟨m, rest, hq⟩ := List.exists_cons_of_length_eq_add_one hn
    have hstep := zmqSenderStep_cons (P := P) hq
    have hlen : ((g.act P (.step k)).zmqOut k).length = n := by
      rw [Pipeline.act, hstep]
      rw [hq, List.length_cons] at hn
      simp only [Function.update_self]
      omega
    have hrun : (g.act P (.step k)).running = g.running := by rw [Pipeline.act, hstep]
    obtain ⟨more, hmore, hempty, hrest⟩ := ih hlen
    exact ⟨.step k :: more, List.forall_mem_cons.mpr ⟨rfl, hmore⟩, hempty, hrest.trans hrun⟩

/-- Events of the loop empty the link, and leave the ports of the senders as they are. -/
theorem exists_events (P : SenderRead) (s : κ ⊕ π) (r : ρ) (n : Nat) {g : Pipeline κ ρ π}
    (hrun : g.running r = true) (hn : (g.links.onWay s r).length = n) :
    ∃ more : List (PipelineAction κ ρ π), (∀ a ∈ more, a = .handleEvent s r) ∧
      (more.foldl (Pipeline.act P) g).links.onWay s r = [] ∧
        (more.foldl (Pipeline.act P) g).zmqOut = g.zmqOut := by
  induction n generalizing g with
  | zero => exact ⟨[], by simp, List.length_eq_zero_iff.mp hn, rfl⟩
  | succ n ih =>
    obtain ⟨frame, rest, hway⟩ := List.exists_cons_of_length_eq_add_one hn
    have hstep : g.act P (.handleEvent s r) = { g with
        links := g.links.deliver s r
        zmqIn := Function.update g.zmqIn r (g.zmqIn r ++ [frame]) } := by
      rw [Pipeline.act, if_pos hrun, receiveEvent, hway]
    have hlen : ((g.act P (.handleEvent s r)).links.onWay s r).length = n := by
      rw [hway, List.length_cons] at hn
      rw [hstep]
      simp only [Links.deliver, hway, and_self, ↓reduceIte]
      omega
    have hout : (g.act P (.handleEvent s r)).zmqOut = g.zmqOut := by rw [hstep]
    obtain ⟨more, hmore, hempty, hrest⟩ := ih (by rw [hstep]; exact hrun) hlen
    exact ⟨.handleEvent s r :: more, List.forall_mem_cons.mpr ⟨rfl, hmore⟩, hempty,
      hrest.trans hout⟩

/-- Over a connection that is whole, all that is written arrives when the port and the link
have been emptied. -/
theorem arrivedFrom_of_empty (P : SenderRead) {up : κ ⊕ π → ρ → Bool} {k : κ} {r : ρ}
    (hup : up (.inl k) r = true) (hlost : .disconnect (.inl k) r ∉ acts)
    (hfull : .full (.inl k) r ∉ acts)
    (hfit : ∀ m ∈ writtenTo k acts, 0 < m.length ∧ m.length ≤ senderBufferLength)
    (hport : (pipeline P up acts).zmqOut k = [])
    (hway : (pipeline P up acts).links.onWay (.inl k) r = []) :
    (pipeline P up acts).links.arrivedFrom (.inl k) r = writtenTo k acts := by
  have hpassed := (whole_pipeline P hup hlost hfull).passed_eq
  have hreads := (conveys_pipeline P up acts).conserved k
  rw [hport, List.append_nil] at hreads
  rw [Links.passed, hway, List.append_nil, sentBy, hreads, filterMap_frameOf P hfit] at hpassed
  exact hpassed

end

/-- Publishers and subscribers in any order of events: a subscriber's port gets the frames in the
order of arrival, from every publisher a subsequence of what that one has sent, and all of it
that is not still on its way if the connection is there from the beginning, not lost and never
full. Messages of 1 to 20000 bytes on the port of a `zmq_sender` get through as they are, and
steps and events of the loop alone bring all of them. -/
theorem pipeline_delivers {κ ρ π : Type} [DecidableEq κ] [DecidableEq ρ] [DecidableEq π]
    (P : SenderRead) (up : κ ⊕ π → ρ → Bool) (acts : List (PipelineAction κ ρ π)) (r : ρ) :
    (pipeline P up acts).zmqIn r = ((pipeline P up acts).links.arrived r).map Prod.snd ∧
    (∀ s, ((pipeline P up acts).links.arrivedFrom s r).Sublist
      (sentBy P acts (pipeline P up acts) s)) ∧
    (∀ s, up s r = true → .disconnect s r ∉ acts → .full s r ∉ acts →
      (pipeline P up acts).links.arrivedFrom s r ++ (pipeline P up acts).links.onWay s r =
        sentBy P acts (pipeline P up acts) s) ∧
    ∀ k, up (.inl k) r = true → .disconnect (.inl k) r ∉ acts → .full (.inl k) r ∉ acts →
      (∀ m ∈ writtenTo k acts, 0 < m.length ∧ m.length ≤ senderBufferLength) →
      (pipeline P up acts).running r = true →
      ∃ more, (∀ a ∈ more, a = .step k ∨ a = .handleEvent (.inl k) r) ∧
        (pipeline P up (acts ++ more)).links.arrivedFrom (.inl k) r = writtenTo k acts := by
  have hconveys := conveys_pipeline P up acts
  refine ⟨hconveys.zmqIn r, fun s ↦ ?_, fun s hup hlost hfull ↦ ?_, ?_⟩
  · exact (List.sublist_append_left _ _).trans (hconveys.ordered s r)
  · exact (whole_pipeline P hup hlost hfull).passed_eq
  · intro k hup hlost hfull hfit hrun
    -- first the port of the sender, then the link
    obtain ⟨steps, hsteps, hport, hrunning⟩ := exists_steps P k _ (g := pipeline P up acts) rfl
    obtain ⟨events, hevents, hway, hout⟩ := exists_events P (.inl k) r _
      (g := steps.foldl (Pipeline.act P) (pipeline P up acts)) (hrunning ▸ hrun) rfl
    have hmore : ∀ a ∈ steps ++ events, a = .step k ∨ a = .handleEvent (.inl k) r :=
      List.forall_mem_append.mpr
        ⟨fun a ha ↦ .inl (hsteps a ha), fun a ha ↦ .inr (hevents a ha)⟩
    have hnew {a : PipelineAction κ ρ π} (hstep : a ≠ .step k)
        (hevent : a ≠ .handleEvent (.inl k) r) (ha : a ∉ acts) : a ∉ acts ++ (steps ++ events) := by
      intro hmem
      rcases List.mem_append.mp hmem with hmem | hmem
      · exact ha hmem
      · exact (hmore a hmem).elim hstep hevent
    have hwritten : writtenTo k (acts ++ (steps ++ events)) = writtenTo k acts := by
      have hnone : (steps ++ events).filterMap (PipelineAction.writtenAt k) = [] := by
        rw [List.filterMap_eq_nil_iff]
        intro a ha
        rcases hmore a ha with rfl | rfl <;> rfl
      rw [writtenTo, List.filterMap_append, hnone, List.append_nil, ← writtenTo]
    have hend : pipeline P up (acts ++ (steps ++ events)) =
        events.foldl (Pipeline.act P) (steps.foldl (Pipeline.act P) (pipeline P up acts)) := by
      rw [pipeline, List.foldl_append, List.foldl_append, ← pipeline]
    refine ⟨steps ++ events, hmore, ?_⟩
    rw [← hwritten]
    apply arrivedFrom_of_empty P hup (hnew (by simp) (by simp) hlost)
      (hnew (by simp) (by simp) hfull)
    · rwa [hwritten]
    · rw [hend, hout, hport]
    · rw [hend, hway]

/-- `__port_read` cuts off what does not fit. -/
def senderRead : SenderRead where
  fetch m := m.take senderBufferLength
  fetch_eq _ h := List.take_of_length_le h

/-- One message from a block to another one, and a second one on its port. -/
def helloActions : List (PipelineAction Unit Unit Unit) :=
  [.start (), .write () (ofString "Hello"), .step (), .handleEvent (.inl ()) (),
    .write () (ofString "again")]

/-- The first arrives, and the second can be brought. -/
theorem pipeline_delivers_hello :
    (pipeline senderRead (fun _ _ ↦ true) helloActions).zmqIn () = [ofString "Hello"] ∧
      ((pipeline senderRead (fun _ _ ↦ true) helloActions).links.arrivedFrom (.inl ()) ()).Sublist
        [ofString "Hello"] ∧
      (pipeline senderRead (fun _ _ ↦ true) helloActions).links.arrivedFrom (.inl ()) () ++
          (pipeline senderRead (fun _ _ ↦ true) helloActions).links.onWay (.inl ()) () =
        [ofString "Hello"] ∧
      ∃ more, (∀ a ∈ more, a = .step () ∨ a = .handleEvent (.inl ()) ()) ∧
        (pipeline senderRead (fun _ _ ↦ true) (helloActions ++ more)).links.arrivedFrom
          (.inl ()) () = [ofString "Hello", ofString "again"] := by
  obtain ⟨hin, hsub, hwhole, hall⟩ := pipeline_delivers senderRead (fun _ _ ↦ true) helloActions ()
  have hsent : sentBy senderRead helloActions (pipeline senderRead (fun _ _ ↦ true) helloActions)
      (.inl ()) = [ofString "Hello"] := rfl
  refine ⟨hin, hsent ▸ hsub (.inl ()), ?_, ?_⟩
  · rw [← hsent]
    exact hwhole (.inl ()) rfl (by simp [helloActions]) (by simp [helloActions])
  · exact hall () rfl (by simp [helloActions]) (by simp [helloActions]) (by decide) rfl

end Ubx.Zmq
