import Ubx.Zmq.Server

/-!
# Request and reply

With a downstream block that answers every request once and in order, nothing ties a
reply to its request but the REP socket, which hands out one request at a time. That is
enough: the state is always in one of four stages of a single exchange.
-/

namespace Ubx.Zmq

open Ubx.Base

variable {κ : Type}

/-- A request, its answer, and the client. -/
structure Exchange (κ : Type) where
  client : κ
  request : Bytes
  reply : Bytes

/-- The downstream block of the loop-back: it only answers, within the buffer. -/
def Action.Loopback : Action κ → Prop
  | .answer msg => msg.bytes.length ≤ defaultBufferLength
  | .write _ => False
  | _ => True

/-- Where the request in progress is. -/
inductive Place
  /-- There is none. -/
  | nowhere
  | onZmqReq (request : Bytes)
  | working (request : Bytes)
  | onZmqRep (request : Bytes) (reply : Frame)

namespace Place

/-- The request in progress. -/
def request : Place → Option Bytes
  | nowhere => none
  | onZmqReq q | working q | onZmqRep q _ => some q

/-- What port `zmq_req` holds. -/
def zmqReq : Place → List Bytes
  | onZmqReq q => [q]
  | _ => []

/-- What the downstream block has not answered. -/
def atWork : Place → List Bytes
  | working q => [q]
  | _ => []

/-- What port `zmq_rep` holds. -/
def zmqRep : Place → List Bytes
  | onZmqRep _ r => [r.bytes]
  | _ => []

/-- The answer that has not been sent. -/
def answers : Place → List (Bytes × Bytes)
  | onZmqRep q r => [(q, r.bytes)]
  | _ => []

end Place

/-- The state behind the exchanges `done`, with the request of `owed` at `place`. -/
structure Stage (s : Server κ) (done : List (Exchange κ)) (place : Place) : Prop where
  replies_eq : s.replies = done.map fun e ↦ (e.client, e.reply)
  reads_eq : s.reads = done.map Exchange.reply
  received_eq : s.received = (done.map fun e ↦ (e.client, e.request)) ++
    (s.owed.toList.zip place.request.toList)
  owed_iff : s.owed.isSome ↔ place.request.isSome
  zmqReq_eq : s.zmqReq = place.zmqReq
  working_eq : s.working = place.atWork
  zmqRep_eq : s.zmqRep = place.zmqRep
  answers_eq : s.answers = (done.map fun e ↦ (e.request, e.reply)) ++ place.answers
  fits : ∀ q r, place = .onZmqRep q r → r.bytes.length ≤ defaultBufferLength

/-- At the start there is no exchange. -/
theorem stage_start : Stage (Server.start : Server κ) [] .nowhere :=
  ⟨rfl, rfl, rfl, by simp [Server.start, Place.request], rfl, rfl, rfl, rfl, by simp⟩

section

variable [DecidableEq κ] {P : PortRead} {s : Server κ} {done : List (Exchange κ)} {place : Place}

/-- A client's request does not reach the block yet. -/
theorem Stage.request (h : Stage s done place) (c : κ) (msg : Frame) :
    Stage (act P s (.request c msg)) done place := by
  simp only [act]
  split
  · exact ⟨h.replies_eq, h.reads_eq, h.received_eq, h.owed_iff, h.zmqReq_eq, h.working_eq,
      h.zmqRep_eq, h.answers_eq, h.fits⟩
  · exact h

/-- `handle_event` starts an exchange when none is in progress. -/
theorem Stage.handleEvent (h : Stage s done place) (c : κ) :
    ∃ place', Stage (act P s (.handleEvent c)) done place' := by
  simp only [act, Zmq.handleEvent]
  split
  · next msg ho hc =>
    have hplace : place = .nowhere := by
      have := h.owed_iff
      cases place <;> simp [ho, Place.request] at this ⊢
    subst hplace
    refine ⟨.onZmqReq msg, h.replies_eq, h.reads_eq, ?_, by simp [Place.request], ?_, h.working_eq,
      h.zmqRep_eq, h.answers_eq, by simp⟩
    · simp [h.received_eq, ho, Place.request]
    · simp [h.zmqReq_eq, Place.zmqReq]
  · exact ⟨place, h⟩

/-- The downstream block takes the request. -/
theorem Stage.take (h : Stage s done place) : ∃ place', Stage (act P s .take) done place' := by
  simp only [act]
  have hreq := h.zmqReq_eq
  cases place with
  | onZmqReq q =>
    simp only [Place.zmqReq] at hreq
    rw [hreq]
    refine ⟨.working q, h.replies_eq, h.reads_eq, h.received_eq, h.owed_iff, rfl, ?_, h.zmqRep_eq,
      h.answers_eq, by simp⟩
    simp [h.working_eq, Place.atWork]
  | nowhere | working | onZmqRep =>
    simp only [Place.zmqReq] at hreq
    rw [hreq]
    exact ⟨_, h⟩

/-- The downstream block answers. -/
theorem Stage.answer (h : Stage s done place) {msg : Frame}
    (hfit : msg.bytes.length ≤ defaultBufferLength) :
    ∃ place', Stage (act P s (.answer msg)) done place' := by
  simp only [act]
  have hwork := h.working_eq
  cases place with
  | working q =>
    simp only [Place.atWork] at hwork
    rw [hwork]
    refine ⟨.onZmqRep q msg, h.replies_eq, h.reads_eq, h.received_eq, h.owed_iff, h.zmqReq_eq, rfl,
      ?_, ?_, fun _ r hr ↦ ?_⟩
    · simp [h.zmqRep_eq, Place.zmqRep]
    · simp [h.answers_eq, Place.answers]
    · obtain ⟨-, rfl⟩ := Place.onZmqRep.inj hr
      exact hfit
  | nowhere | onZmqReq | onZmqRep =>
    simp only [Place.atWork] at hwork
    rw [hwork]
    exact ⟨_, h⟩

/-- The step ends the exchange if it has been answered. -/
theorem Stage.step (h : Stage s done place) :
    ∃ done' place', Stage (act P s .step) done' place' := by
  simp only [act, zmqServerStep]
  have hrep := h.zmqRep_eq
  cases place with
  | onZmqRep q r =>
    simp only [Place.zmqRep] at hrep
    have hfetch := P.fetch_eq r.bytes (h.fits q r rfl)
    have hpos : ¬ r.bytes.length ≤ 0 := by
      have := List.length_pos_iff.mpr r.ne_nil
      omega
    obtain ⟨c, hc⟩ := Option.isSome_iff_exists.mp (h.owed_iff.mpr rfl)
    rw [hrep]
    simp only [hfetch, if_neg hpos, zframeSend, hc]
    refine ⟨done ++ [⟨c, q, r.bytes⟩], .nowhere, ?_, ?_, ?_, by simp [Place.request], h.zmqReq_eq,
      h.working_eq, rfl, ?_, by simp⟩
    · simp [h.replies_eq]
    · simp [h.reads_eq]
    · simp [h.received_eq, hc, Place.request]
    · simp [h.answers_eq, Place.answers]
  | nowhere | onZmqReq | working =>
    simp only [Place.zmqRep] at hrep
    rw [hrep]
    exact ⟨done, _, h⟩

/-- Every action of the loop-back keeps the state in some stage. -/
theorem Stage.act (h : Stage s done place) {a : Action κ} (ha : a.Loopback) :
    ∃ done' place', Stage (act P s a) done' place' := by
  cases a with
  | request c msg => exact ⟨done, place, h.request c msg⟩
  | handleEvent c => exact ⟨done, h.handleEvent c⟩
  | step => exact h.step
  | take => exact ⟨done, h.take⟩
  | answer msg => exact ⟨done, h.answer ha⟩
  | write msg => exact ha.elim

/-- Every run of the loop-back is in some stage. -/
theorem stage_server {acts : List (Action κ)} (h : ∀ a ∈ acts, a.Loopback) :
    ∃ done place, Stage (server P acts) done place :=
  foldl_history (f := Zmq.act P) (s := (Server.start : Server κ))
    (P := fun acts s ↦ (∀ a ∈ acts, a.Loopback) → ∃ done place, Stage s done place)
    (fun _ ↦ ⟨[], .nowhere, stage_start⟩)
    (fun as s a ih ha ↦ by
      obtain ⟨done, place, hs⟩ := ih fun b hb ↦ ha b (List.mem_append_left _ hb)
      exact hs.act (ha a (by simp))) acts h

end

/-- In every state of the loop-back, for any clients and any order of events: the replies
are those of the exchanges that are done, each delivered to the client of its request and
equal to the answer to it; at most one more request has been handed out; and a message
on `zmq_rep` means that exactly one has, so a step sends only then. -/
theorem server_pairs {κ : Type} [DecidableEq κ] (P : PortRead) (acts : List (Action κ))
    (h : ∀ a ∈ acts, a.Loopback) :
    ∃ done : List (Exchange κ),
      (server P acts).replies = done.map (fun e ↦ (e.client, e.reply)) ∧
      done.map (fun e ↦ (e.client, e.request)) <+: (server P acts).received ∧
      done.map (fun e ↦ (e.request, e.reply)) <+: (server P acts).answers ∧
      ((server P acts).received.length = (server P acts).replies.length ∨
        (server P acts).received.length = (server P acts).replies.length + 1) ∧
      ((server P acts).zmqRep ≠ [] →
        (server P acts).received.length = (server P acts).replies.length + 1 ∧
          (server P acts).owed.isSome) := by
  obtain ⟨done, place, hs⟩ := stage_server (P := P) h
  refine ⟨done, hs.replies_eq, hs.received_eq ▸ List.prefix_append _ _,
    hs.answers_eq ▸ List.prefix_append _ _, ?_⟩
  rw [hs.replies_eq, hs.received_eq, hs.zmqRep_eq]
  have howed := hs.owed_iff
  cases hp : place.request with
  | none =>
    have hrep : place.zmqRep = [] := by cases place <;> simp [Place.request, Place.zmqRep] at hp ⊢
    simp [hrep]
  | some q =>
    obtain ⟨c, hc⟩ := Option.isSome_iff_exists.mp (howed.mpr (by rw [hp]; rfl))
    simp [hc]

/-- A port read that fills the buffer from the front. -/
def boundedRead : PortRead where
  fetch m := m.take defaultBufferLength
  fetch_eq _ h := List.take_of_length_le h
  fetch_ne_nil m h := by
    rw [defaultBufferLength]
    simpa using h

/-- Two clients: the second asks before the first has its reply. -/
def twoClients : List (Action Bool) :=
  [.request true ⟨[1], by simp⟩, .handleEvent true, .request false ⟨[2], by simp⟩,
    .handleEvent false, .take, .answer ⟨[3], by simp⟩, .step, .handleEvent false, .take,
    .answer ⟨[4], by simp⟩]

/-- The first client has had its reply, to its own request; the one to the second is on its
way. -/
theorem server_pairs_two :
    ∃ done : List (Exchange Bool), done = [⟨true, [1], [3]⟩] ∧
      (server boundedRead twoClients).replies = done.map (fun e ↦ (e.client, e.reply)) ∧
      (server boundedRead twoClients).received.length =
        (server boundedRead twoClients).replies.length + 1 ∧
      (server boundedRead twoClients).owed.isSome := by
  obtain ⟨done, hrep, hrec, -, -, hone⟩ := server_pairs boundedRead twoClients (by
    simp [twoClients, Action.Loopback, defaultBufferLength])
  obtain ⟨hlen, howed⟩ := hone (by decide)
  have hreplies : (server boundedRead twoClients).replies = [(true, [3])] := by decide
  have hreceived : (server boundedRead twoClients).received = [(true, [1]), (false, [2])] := by
    decide
  rw [hreplies] at hrep
  obtain ⟨⟨client, request, reply⟩, rfl, he⟩ := List.map_eq_singleton_iff.mp hrep.symm
  obtain ⟨rfl, rfl⟩ := Prod.mk.inj he
  rw [hreceived, List.map_singleton, List.cons_prefix_cons] at hrec
  obtain ⟨-, rfl⟩ := Prod.mk.inj hrec.1
  exact ⟨_, rfl, hreplies, hlen, howed⟩

end Ubx.Zmq
