import Mathlib.Algebra.BigOperators.Group.Finset.Piecewise
import Mathlib.Algebra.BigOperators.Ring.Finset
import Mathlib.Data.Fintype.Basic
import Ubx.Zmq.Pairing

/-!
# The echo server and its clients

The composition of `src/czmq_bridge/zmqservertest.usc`: port `zmq_req` of the server goes into
a byte stream buffer, and that into port `zmq_rep`. Its clients are programs like
`src/czmq_bridge/src/zmq_client.py`, each of which sends its messages one by one and waits for
every reply. The REP socket takes one request at a time, so the buffer never holds two, and
the clients cannot get into each other's way.
-/

namespace Ubx.Zmq

open Ubx.Base

/-- The buffer between the two ports, a block of the framework. It keeps a message that fits, as
long as there is room. -/
structure RawBuffer where
  elementNum : Nat
  elementSize : Nat
  write : List Bytes → Bytes → List Bytes
  write_eq : ∀ q m, q.length < elementNum → m.length ≤ elementSize → write q m = q ++ [m]

/-- What a client sends in a round; `zmq_client.py:15–21`. -/
def clientRound : List Frame :=
  [⟨ofString "Hello", by decide⟩, ⟨ofString "World", by decide⟩, ⟨ofString "-----", by decide⟩]

/-- What it sends in all; `zmq_client.py:14–23`. -/
def clientScript : List Frame := (List.replicate 10 clientRound).flatten

/-- The server, and the messages that its clients have not sent yet. -/
structure EchoSystem (κ : Type) where
  server : Server κ
  script : κ → List Frame

/-- What can happen next. An action whose time has not come has no effect. -/
inductive EchoAction (κ : Type)
  /-- The client goes on to its next `socket.send`. -/
  | send (c : κ)
  /-- The loop of the server calls `handle_event`, and the socket picks the request of `c`. -/
  | handleEvent (c : κ)
  /-- `zmq_server_step`. -/
  | step

section

variable {κ : Type} [DecidableEq κ] (P : PortRead) (B : RawBuffer)

/-- Before the first message. -/
def EchoSystem.start (script : κ → List Frame) : EchoSystem κ := ⟨.start, script⟩

/-- The messages that a client has printed. -/
def EchoSystem.printed (s : EchoSystem κ) (c : κ) : List Bytes :=
  (s.server.replies.filter (·.1 = c)).map Prod.snd

/-- One action. -/
def echoAct (s : EchoSystem κ) : EchoAction κ → EchoSystem κ
  | .send c =>
    match s.server.client c, s.script c with
    | .idle, msg :: rest =>
      { server := act P s.server (.request c msg), script := Function.update s.script c rest }
    | _, _ => s
  | .handleEvent c =>
    let server := handleEvent c s.server
    -- what is written to `zmq_req` goes through the buffer to `zmq_rep`
    { s with
      server := { server with
        zmqReq := []
        zmqRep := server.zmqReq.foldl B.write server.zmqRep } }
  | .step => { s with server := zmqServerStep P s.server }

/-- The system after some actions. -/
def echo (script : κ → List Frame) (acts : List (EchoAction κ)) : EchoSystem κ :=
  acts.foldl (echoAct P B) (.start script)

/-- The time of an action has come. -/
def EchoSystem.enabled (s : EchoSystem κ) : EchoAction κ → Bool
  | .send c =>
    match s.server.client c, s.script c with
    | .idle, _ :: _ => true
    | _, _ => false
  | .handleEvent c =>
    match s.server.owed, s.server.client c with
    | none, .requesting _ => true
    | _, _ => false
  | .step => !s.server.zmqRep.isEmpty

/-- The message of a client that is on its way. -/
def EchoSystem.inFlight (s : EchoSystem κ) (c : κ) : List Bytes :=
  match s.server.client c with
  | .idle => []
  | .requesting msg => [msg]
  | .waiting => s.server.zmqRep

/-- Actions that the message in flight needs. -/
def Client.pending : Client → Nat
  | .idle => 0
  | .requesting _ => 2
  | .waiting => 1

/-- Actions that are needed for a client. -/
def EchoSystem.need (s : EchoSystem κ) (c : κ) : Nat :=
  3 * (s.script c).length + (s.server.client c).pending

/-- Actions that are needed. -/
def EchoSystem.todo [Fintype κ] (s : EchoSystem κ) : Nat := ∑ c, s.need c

/-! ### One action -/

/-- Every message is printed, in flight or to be sent, and the socket owes a reply to the client
whose message is in the buffer. -/
structure Echoing (script : κ → List Frame) (s : EchoSystem κ) : Prop where
  told : ∀ c, (script c).map Frame.bytes =
    s.printed c ++ s.inFlight c ++ (s.script c).map Frame.bytes
  quiet : s.server.zmqReq = []
  waiting_iff : ∀ c, s.server.client c = .waiting ↔ s.server.owed = some c
  owed : s.server.owed.isSome.toNat = s.server.zmqRep.length

variable {P B} {script : κ → List Frame} {s : EchoSystem κ}

/-- Nothing has been sent at the start. -/
theorem echoing_start (script : κ → List Frame) : Echoing script (.start script) where
  told c := rfl
  quiet := rfl
  waiting_iff c := by simp [EchoSystem.start, Server.start]
  owed := rfl

/-- What is in flight is a message of the script. -/
theorem Echoing.mem_script (h : Echoing script s) {c : κ} {msg : Bytes}
    (hmsg : msg ∈ s.inFlight c) : ∃ m ∈ script c, m.bytes = msg := by
  apply List.mem_map.mp
  rw [h.told]
  exact List.mem_append_left _ (List.mem_append_right _ hmsg)

/-- The messages of the clients fit into both buffers. -/
structure Fits (B : RawBuffer) (script : κ → List Frame) : Prop where
  room : 0 < B.elementNum
  size : ∀ c, ∀ m ∈ script c, m.bytes.length ≤ B.elementSize ∧
    m.bytes.length ≤ defaultBufferLength

/-- An enabled action of a client does its part, and the other clients need what they did. -/
structure Moves (s s' : EchoSystem κ) (c : κ) : Prop where
  need : s'.need c + 1 = s.need c
  others : ∀ d, d ≠ c → s'.need d = s.need d

/-- `socket.send`. -/
theorem Echoing.send (h : Echoing script s) {c : κ} {msg : Frame} {rest : List Frame}
    (hc : s.server.client c = .idle) (hs : s.script c = msg :: rest) :
    Echoing script (echoAct P B s (.send c)) ∧ Moves s (echoAct P B s (.send c)) c := by
  have hact : echoAct P B s (.send c) =
      { server := { s.server with
          client := Function.update s.server.client c (.requesting msg.bytes) }
        script := Function.update s.script c rest } := by
    simp only [echoAct, act, hc, hs]
  rw [hact]
  have hnot : ¬ s.server.owed = some c := by
    rw [← h.waiting_iff, hc]
    simp
  have htold (d : κ) := h.told d
  constructor
  · refine ⟨fun d ↦ ?_, h.quiet, fun d ↦ ?_, h.owed⟩
    · by_cases hd : d = c
      · subst hd
        have hprev := htold d
        simp only [EchoSystem.inFlight, hc, hs] at hprev
        simp [EchoSystem.inFlight, EchoSystem.printed, hprev]
      · have hprev := htold d
        simpa [EchoSystem.inFlight, EchoSystem.printed, Function.update_of_ne hd] using hprev
    · show Function.update _ c _ d = _ ↔ s.server.owed = some d
      by_cases hd : d = c
      · subst hd
        simp [hnot]
      · rw [Function.update_of_ne hd]
        exact h.waiting_iff d
  · constructor
    · simp only [EchoSystem.need, Function.update_self, hc, hs, Client.pending, List.length_cons]
      omega
    · intro d hd
      simp only [EchoSystem.need, Function.update_of_ne hd]

/-- `handle_event` with a request: the message is in the buffer then. -/
theorem Echoing.handleEvent (h : Echoing script s) (hfits : Fits B script) {c : κ} {msg : Bytes}
    (ho : s.server.owed = none) (hc : s.server.client c = .requesting msg) :
    Echoing script (echoAct P B s (.handleEvent c)) ∧
      Moves s (echoAct P B s (.handleEvent c)) c := by
  have hrep : s.server.zmqRep = [] := by
    have hlen := h.owed
    rw [ho] at hlen
    exact List.eq_nil_of_length_eq_zero hlen.symm
  have hflight : msg ∈ s.inFlight c := by simp [EchoSystem.inFlight, hc]
  obtain ⟨m, hm, rfl⟩ := h.mem_script hflight
  have hwrite : B.write [] m.bytes = [m.bytes] :=
    B.write_eq [] m.bytes hfits.room (hfits.size c m hm).1
  have hact : echoAct P B s (.handleEvent c) =
      { s with server := { s.server with
          client := Function.update s.server.client c .waiting
          owed := some c
          zmqReq := []
          zmqRep := [m.bytes]
          received := s.server.received ++ [(c, m.bytes)] } } := by
    simp only [echoAct, Zmq.handleEvent, ho, hc, h.quiet, hrep, List.nil_append, List.foldl_cons,
      List.foldl_nil, hwrite]
  rw [hact]
  -- nobody else is waiting
  have hothers (d : κ) : s.server.client d ≠ .waiting := fun hd ↦ by
    have howed := (h.waiting_iff d).mp hd
    rw [ho] at howed
    cases howed
  constructor
  · refine ⟨fun d ↦ ?_, rfl, fun d ↦ ?_, rfl⟩
    · have hprev := h.told d
      by_cases hd : d = c
      · subst hd
        simp only [EchoSystem.inFlight, hc] at hprev
        simp [EchoSystem.inFlight, EchoSystem.printed, hprev]
      · have hw := hothers d
        simp only [EchoSystem.inFlight, Function.update_of_ne hd] at hprev ⊢
        rw [hprev]
        cases hd' : s.server.client d with
        | waiting => exact absurd hd' hw
        | idle | requesting => rfl
    · show Function.update _ c _ d = _ ↔ some c = some d
      by_cases hd : d = c
      · subst hd
        simp
      · rw [Function.update_of_ne hd, Option.some.injEq]
        exact iff_of_false (hothers d) (Ne.symm hd)
  · constructor
    · simp only [EchoSystem.need, Function.update_self, hc, Client.pending]
    · intro d hd
      simp only [EchoSystem.need, Function.update_of_ne hd]

/-- `zmq_server_step` with a message in the buffer: it goes back to its client. -/
theorem Echoing.step (h : Echoing script s) (hfits : Fits B script)
    (hrep : s.server.zmqRep ≠ []) :
    ∃ c, Echoing script (echoAct P B s .step) ∧ Moves s (echoAct P B s .step) c := by
  have hlen := h.owed
  cases ho : s.server.owed with
  | none =>
    rw [ho] at hlen
    exact absurd (List.eq_nil_of_length_eq_zero hlen.symm) hrep
  | some c =>
    rw [ho] at hlen
    obtain ⟨msg, hmsg⟩ := List.length_eq_one_iff.mp hlen.symm
    have hc := (h.waiting_iff c).mpr ho
    have hflight : msg ∈ s.inFlight c := by simp [EchoSystem.inFlight, hc, hmsg]
    obtain ⟨m, hm, rfl⟩ := h.mem_script hflight
    have hfetch := P.fetch_eq m.bytes (hfits.size c m hm).2
    have hpos : ¬ m.bytes.length ≤ 0 := by
      have hne := List.length_pos_iff.mpr m.ne_nil
      omega
    have hact : echoAct P B s .step =
        { s with server := { s.server with
            client := Function.update s.server.client c .idle
            owed := none
            zmqRep := []
            reads := s.server.reads ++ [m.bytes]
            replies := s.server.replies ++ [(c, m.bytes)] } } := by
      simp only [echoAct, zmqServerStep, hmsg, hfetch, if_neg hpos, zframeSend, ho]
    rw [hact]
    refine ⟨c, ⟨fun d ↦ ?_, h.quiet, fun d ↦ ?_, rfl⟩, ?_, fun d hd ↦ ?_⟩
    · have hprev := h.told d
      by_cases hd : d = c
      · subst hd
        simp only [EchoSystem.inFlight, hc, hmsg] at hprev
        simp [EchoSystem.inFlight, EchoSystem.printed, hprev, List.filter_append]
      · have hw : s.server.client d ≠ .waiting := fun hd' ↦ by
          have howed := (h.waiting_iff d).mp hd'
          rw [ho, Option.some.injEq] at howed
          exact hd howed.symm
        have hprinted : (s.server.replies ++ [(c, m.bytes)]).filter (·.1 = d) =
            s.server.replies.filter (·.1 = d) := by
          simp [List.filter_append, Ne.symm hd]
        simp only [EchoSystem.inFlight, EchoSystem.printed, Function.update_of_ne hd,
          hprinted] at hprev ⊢
        rw [hprev]
        cases hd' : s.server.client d with
        | waiting => exact absurd hd' hw
        | idle | requesting => rfl
    · show Function.update _ c _ d = _ ↔ none = some d
      by_cases hd : d = c
      · subst hd
        simp
      · rw [Function.update_of_ne hd, h.waiting_iff, ho, Option.some.injEq]
        simp [Ne.symm hd]
    · simp only [EchoSystem.need, Function.update_self, hc, Client.pending]
    · simp only [EchoSystem.need, Function.update_of_ne hd]

/-- An action whose time has not come does nothing. -/
theorem Echoing.of_not_enabled (h : Echoing script s) {a : EchoAction κ}
    (ha : s.enabled a = false) : echoAct P B s a = s := by
  cases a with
  | send c =>
    rw [echoAct]
    split
    · next hc hs => simp [EchoSystem.enabled, hc, hs] at ha
    · rfl
  | handleEvent c =>
    have hidle : Zmq.handleEvent c s.server = s.server := by
      rw [Zmq.handleEvent]
      split
      · next ho hc => simp [EchoSystem.enabled, ho, hc] at ha
      · rfl
    rw [echoAct, hidle, h.quiet]
    show { s with server := { s.server with zmqReq := [], zmqRep := s.server.zmqRep } } = s
    rw [← h.quiet]
  | step =>
    have hnil : s.server.zmqRep = [] := by simpa [EchoSystem.enabled] using ha
    simp only [echoAct, zmqServerStep, hnil]

/-- An enabled action keeps the invariant and does its part. -/
theorem Echoing.of_enabled (h : Echoing script s) (hfits : Fits B script) {a : EchoAction κ}
    (ha : s.enabled a = true) :
    ∃ c, Echoing script (echoAct P B s a) ∧ Moves s (echoAct P B s a) c := by
  cases a with
  | send c =>
    simp only [EchoSystem.enabled] at ha
    split at ha
    · next hc hs => exact ⟨c, h.send hc hs⟩
    · cases ha
  | handleEvent c =>
    simp only [EchoSystem.enabled] at ha
    split at ha
    · next ho hc => exact ⟨c, h.handleEvent hfits ho hc⟩
    · cases ha
  | step =>
    apply h.step hfits
    intro hnil
    simp [EchoSystem.enabled, hnil] at ha

/-! ### Runs -/

/-- The invariant holds in every run. -/
theorem Echoing.act (h : Echoing script s) (hfits : Fits B script) (a : EchoAction κ) :
    Echoing script (echoAct P B s a) := by
  cases ha : s.enabled a with
  | false =>
    rw [h.of_not_enabled ha]
    exact h
  | true =>
    obtain ⟨-, hact, -⟩ := h.of_enabled hfits ha
    exact hact

/-- So there is one action less to do. -/
theorem Moves.todo [Fintype κ] {s' : EchoSystem κ} {c : κ} (h : Moves s s' c) :
    s'.todo + 1 = s.todo := by
  have hrest : ∑ d ∈ Finset.univ.erase c, s'.need d = ∑ d ∈ Finset.univ.erase c, s.need d :=
    Finset.sum_congr rfl fun d hd ↦ h.others d (Finset.ne_of_mem_erase hd)
  have hneed := h.need
  have hsum := Finset.add_sum_erase Finset.univ s.need (Finset.mem_univ c)
  have hsum' := Finset.add_sum_erase Finset.univ s'.need (Finset.mem_univ c)
  rw [EchoSystem.todo, EchoSystem.todo]
  omega

/-- Nothing is enabled exactly if every client has printed all its messages. -/
theorem Echoing.done_iff (h : Echoing script s) :
    (∀ a, s.enabled a = false) ↔ ∀ c, s.printed c = (script c).map Frame.bytes := by
  have hlen := h.owed
  constructor
  · intro hnone c
    have hrep : s.server.zmqRep = [] := by simpa [EchoSystem.enabled] using hnone .step
    have ho : s.server.owed = none := by
      rw [hrep] at hlen
      cases howed : s.server.owed with
      | none => rfl
      | some d =>
        rw [howed] at hlen
        cases hlen
    have hsend := hnone (.send c)
    have hevent := hnone (.handleEvent c)
    have htold := h.told c
    simp only [EchoSystem.enabled, EchoSystem.inFlight] at hsend hevent htold
    cases hc : s.server.client c with
    | requesting msg => simp [ho, hc] at hevent
    | waiting =>
      have howed := (h.waiting_iff c).mp hc
      rw [ho] at howed
      cases howed
    | idle =>
      cases hs : s.script c with
      | cons m rest => simp [hc, hs] at hsend
      | nil =>
        rw [htold, hc, hs]
        simp
  · intro hall a
    have hnothing (c : κ) : s.inFlight c = [] ∧ s.script c = [] := by
      have htold := h.told c
      rw [hall c, List.append_assoc, List.self_eq_append_right, List.append_eq_nil_iff] at htold
      exact ⟨htold.1, List.map_eq_nil_iff.mp htold.2⟩
    cases a with
    | send c =>
      rw [EchoSystem.enabled, (hnothing c).2]
      split
      · next heq => cases heq
      · rfl
    | handleEvent c =>
      rw [EchoSystem.enabled]
      split
      · next msg _ hc =>
        have hflight := (hnothing c).1
        simp [EchoSystem.inFlight, hc] at hflight
      · rfl
    | step =>
      cases ho : s.server.owed with
      | none =>
        rw [ho] at hlen
        simp [EchoSystem.enabled, List.eq_nil_of_length_eq_zero hlen.symm]
      | some c =>
        have hflight := (hnothing c).1
        rw [EchoSystem.inFlight, (h.waiting_iff c).mpr ho] at hflight
        simp only at hflight
        simp [EchoSystem.enabled, hflight]

end

/-- For any number of clients with any messages that fit, in any order of events: every client
prints its own messages, in order; the buffer never holds two; each effective action is one of
three for each message, so no run has more of them than that; and only when every client has
printed all its messages is there no such action left. -/
theorem clients_served {κ : Type} [Fintype κ] [DecidableEq κ] (P : PortRead) {B : RawBuffer}
    {script : κ → List Frame} (hfits : Fits B script) (acts : List (EchoAction κ)) :
    (∀ c, (echo P B script acts).printed c <+: (script c).map Frame.bytes) ∧
      (echo P B script acts).server.zmqRep.length ≤ 1 ∧
      effective (echoAct P B) EchoSystem.enabled (.start script) acts +
        (echo P B script acts).todo = 3 * ∑ c, (script c).length ∧
      ((∀ a, (echo P B script acts).enabled a = false) ↔
        ∀ c, (echo P B script acts).printed c = (script c).map Frame.bytes) := by
  have h : Echoing script (echo P B script acts) :=
    foldl_history (P := fun _ s ↦ Echoing script s) (echoing_start script)
      (fun _ s a hs ↦ hs.act hfits a) acts
  have hmove (s : EchoSystem κ) (a : EchoAction κ) (hs : Echoing script s)
      (ha : s.enabled a = true) : (echoAct P B s a).todo + 1 = s.todo := by
    obtain ⟨c, -, hc⟩ := hs.of_enabled (P := P) hfits ha
    exact hc.todo
  have hwork := effective_add_todo (I := Echoing script) (fun s a hs ↦ hs.act hfits a)
    (fun s a hs ha ↦ hs.of_not_enabled (P := P) (B := B) ha) hmove (echoing_start script) acts
  refine ⟨fun c ↦ ?_, ?_, ?_, h.done_iff⟩
  · rw [h.told c, List.append_assoc]
    exact List.prefix_append _ _
  · rw [← h.owed]
    cases (echo P B script acts).server.owed <;> simp
  · rw [echo, hwork, Finset.mul_sum]
    rfl

/-- The buffer of `zmqservertest.usc`, which drops what it cannot take. -/
def byteStreamBuffer : RawBuffer where
  elementNum := 100
  elementSize := 10000
  write q m := if q.length < 100 ∧ m.length ≤ 10000 then q ++ [m] else q
  write_eq _ _ hq hm := if_pos ⟨hq, hm⟩

/-- Two programs `zmq_client.py`: both send, and the first gets its reply. -/
def firstReply : List (EchoAction Bool) := [.send true, .send false, .handleEvent true, .step]

set_option maxRecDepth 4000 in
/-- Four actions of 180 are done then. -/
theorem clients_served_two :
    (echo boundedRead byteStreamBuffer (fun _ ↦ clientScript) firstReply).printed true =
        [ofString "Hello"] ∧
      effective (echoAct boundedRead byteStreamBuffer) EchoSystem.enabled
        (.start fun _ ↦ clientScript) firstReply = 4 ∧
      4 + (echo boundedRead byteStreamBuffer (fun _ ↦ clientScript) firstReply).todo = 180 := by
  have hfits : Fits byteStreamBuffer (fun _ : Bool ↦ clientScript) := by
    refine ⟨by decide, fun _ m hm ↦ ?_⟩
    have hsize : ∀ m ∈ clientScript, m.bytes.length = 5 := by decide
    rw [hsize m hm]
    decide
  have hcount : effective (echoAct boundedRead byteStreamBuffer) EchoSystem.enabled
      (.start fun _ ↦ clientScript) firstReply = 4 := by rfl
  obtain ⟨-, -, hwork, -⟩ := clients_served boundedRead hfits firstReply
  refine ⟨by rfl, hcount, ?_⟩
  rw [hcount] at hwork
  exact hwork

end Ubx.Zmq
