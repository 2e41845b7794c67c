import Ubx.Zmq.Pairing

/-!
# Replies that get lost

`zmq_server_step` takes a message off `zmq_rep` before it knows whether the REP socket
may send. With a downstream block that writes as it likes, what was read has been sent
exactly if no step ever found a message while no reply was owed.
-/

namespace Ubx.Zmq

open Ubx.Base

section

variable {κ : Type} [DecidableEq κ]

/-- Each step of the run that finds a message finds a reply owed as well. -/
def SendsInTime (P : PortRead) (acts : List (Action κ)) : Prop :=
  ∀ pre post, acts = pre ++ .step :: post → (server P pre).zmqRep ≠ [] →
    (server P pre).owed.isSome

/-- Each step of the run that cannot send leaves the port as it was. -/
def KeepsUnsent (P : PortRead) (acts : List (Action κ)) : Prop :=
  ∀ pre post, acts = pre ++ .step :: post → (server P pre).owed = none →
    (act P (server P pre) .step).zmqRep = (server P pre).zmqRep

/-- The messages read have been sent, in order. -/
def AllSent (s : Server κ) : Prop := s.replies.map Prod.snd = s.reads

instance (s : Server κ) : Decidable (AllSent s) :=
  inferInstanceAs (Decidable (s.replies.map Prod.snd = s.reads))

variable {P : PortRead} {s : Server κ}

/-- A step is the only action that reads or sends. -/
theorem act_of_ne_step {a : Action κ} (h : a ≠ .step) :
    (act P s a).reads = s.reads ∧ (act P s a).replies = s.replies := by
  cases a with
  | step => exact absurd rfl h
  | request c msg =>
    simp only [act]
    split <;> exact ⟨rfl, rfl⟩
  | handleEvent c =>
    simp only [act, handleEvent]
    split <;> exact ⟨rfl, rfl⟩
  | take =>
    simp only [act]
    split <;> exact ⟨rfl, rfl⟩
  | answer msg =>
    simp only [act]
    split <;> exact ⟨rfl, rfl⟩
  | write msg => exact ⟨rfl, rfl⟩

/-- A step without a message does nothing. -/
theorem step_of_empty (h : s.zmqRep = []) : act P s .step = s := by
  simp only [act, zmqServerStep, h]

/-- Messages of the port are not empty. -/
def Filled (s : Server κ) : Prop := ∀ msg ∈ s.zmqRep, msg ≠ []

/-- A step with a message takes it off the port, and sends it if a reply is owed. -/
theorem step_of_message {msg : Bytes} {rest : List Bytes} (h : s.zmqRep = msg :: rest)
    (hmsg : msg ≠ []) :
    (act P s .step).zmqRep = rest ∧ (act P s .step).reads = s.reads ++ [P.fetch msg] ∧
      (act P s .step).replies =
        s.replies ++ (s.owed.map fun c ↦ (c, P.fetch msg)).toList := by
  have hpos : ¬ (P.fetch msg).length ≤ 0 := by
    have := List.length_pos_iff.mpr (P.fetch_ne_nil msg hmsg)
    omega
  simp only [act, zmqServerStep, h, if_neg hpos, zframeSend]
  cases s.owed <;> simp

/-- Every action keeps the messages of the port filled. -/
theorem Filled.act (h : Filled s) (a : Action κ) : Filled (act P s a) := by
  have happend : ∀ frame : Frame, ∀ msg ∈ s.zmqRep ++ [frame.bytes], msg ≠ [] := by
    intro frame msg hmsg
    rcases List.mem_append.mp hmsg with hmsg | hmsg
    · exact h msg hmsg
    · exact List.mem_singleton.mp hmsg ▸ frame.ne_nil
  cases a with
  | step =>
    cases hz : s.zmqRep with
    | nil => rwa [step_of_empty hz]
    | cons msg rest =>
      have hmsg := h msg (by simp [hz])
      intro x hx
      rw [(step_of_message hz hmsg).1] at hx
      exact h x (by simp [hz, hx])
  | request c msg =>
    simp only [Zmq.act]
    split <;> exact h
  | handleEvent c =>
    simp only [Zmq.act, handleEvent]
    split <;> exact h
  | take =>
    simp only [Zmq.act]
    split <;> exact h
  | answer msg =>
    simp only [Zmq.act]
    split
    · exact h
    · exact happend msg
  | write msg => exact happend msg

/-- Every reachable state has only filled messages on its port. -/
theorem filled_server (acts : List (Action κ)) : Filled (server P acts) :=
  foldl_history (P := fun _ s ↦ Filled s) (by simp [Filled, Server.start])
    (fun _ _ a h ↦ h.act a) acts

/-- A run is in time if it is up to its last action, and that is no step that finds a
message too early. -/
theorem sendsInTime_concat (acts : List (Action κ)) (a : Action κ) :
    SendsInTime P (acts ++ [a]) ↔
      SendsInTime P acts ∧ (a = .step → (server P acts).zmqRep ≠ [] →
        (server P acts).owed.isSome) := by
  constructor
  · intro h
    refine ⟨fun pre post he ↦ h pre (post ++ [a]) (by simp [he]), fun ha ↦ ?_⟩
    exact h acts [] (by rw [ha])
  · rintro ⟨h, ha⟩ pre post he
    rcases List.eq_nil_or_concat post with rfl | ⟨post, b, rfl⟩
    · obtain ⟨rfl, hb⟩ := List.append_inj' he rfl
      exact ha (by simpa using hb)
    · have he' : acts ++ [a] = (pre ++ .step :: post) ++ [b] := by simpa using he
      exact h pre post (List.append_inj' he' rfl).1

/-- Never more has been sent than read, and all of it exactly in a run that is in time. -/
theorem allSent_iff (acts : List (Action κ)) :
    (AllSent (server P acts) ↔ SendsInTime P acts) ∧
      (server P acts).replies.length ≤ (server P acts).reads.length := by
  induction acts using List.reverseRecOn with
  | nil => exact ⟨iff_of_true rfl fun pre post he ↦ by simp at he, Nat.le_refl _⟩
  | append_singleton acts a ih =>
    obtain ⟨ih, hle⟩ := ih
    have hserver : server P (acts ++ [a]) = act P (server P acts) a := by
      simp only [server, List.foldl_append, List.foldl_cons, List.foldl_nil]
    rw [sendsInTime_concat, hserver, ← ih]
    by_cases ha : a = .step
    · subst ha
      cases hz : (server P acts).zmqRep with
      | nil =>
        rw [step_of_empty hz]
        exact ⟨by simp, hle⟩
      | cons msg rest =>
        have hf := filled_server (P := P) acts msg (by simp [hz])
        obtain ⟨-, hread, hrep⟩ := step_of_message hz hf
        rw [AllSent, hread, hrep]
        cases ho : (server P acts).owed with
        | some c =>
          refine ⟨?_, by simpa using hle⟩
          simp [AllSent]
        | none =>
          refine ⟨?_, by simpa using Nat.le_succ_of_le hle⟩
          -- from here on one message more has been read than sent
          have hne : (server P acts).replies.map Prod.snd ≠
              (server P acts).reads ++ [P.fetch msg] := by
            intro he
            have := congrArg List.length he
            simp only [List.length_map, List.length_append, List.length_singleton] at this
            omega
          simpa using hne
    · obtain ⟨hread, hrep⟩ := act_of_ne_step (P := P) (s := server P acts) ha
      rw [AllSent, hread, hrep]
      exact ⟨by simp [ha, AllSent], hle⟩

/-- Runs in which the port is kept are the runs that are in time. -/
theorem keepsUnsent_iff (acts : List (Action κ)) : KeepsUnsent P acts ↔ SendsInTime P acts := by
  apply forall₂_congr
  intro pre post
  apply forall_congr'
  intro _
  cases hz : (server P pre).zmqRep with
  | nil => simp [step_of_empty hz, hz]
  | cons msg rest =>
    rw [(step_of_message hz (filled_server (P := P) pre msg (by simp [hz]))).1]
    cases (server P pre).owed <;> simp

end

/-- Whatever clients and the downstream block do, the messages read from `zmq_rep` have
all been sent, in order, exactly in the runs whose steps find a message only while a
reply is owed; these are also the runs in which no step takes a message it cannot send. -/
theorem replies_sent_iff {κ : Type} [DecidableEq κ] (P : PortRead) (acts : List (Action κ)) :
    (AllSent (server P acts) ↔ SendsInTime P acts) ∧
      (KeepsUnsent P acts ↔ SendsInTime P acts) :=
  ⟨(allSent_iff acts).1, keepsUnsent_iff acts⟩

/-- An answer in front of the request it is meant for is read and not sent. -/
theorem early_reply_lost :
    (server boundedRead ([.write ⟨[3], by simp⟩, .step] : List (Action Bool))).reads = [[3]] ∧
      ¬ AllSent (server boundedRead ([.write ⟨[3], by simp⟩, .step] : List (Action Bool))) := by
  decide

end Ubx.Zmq
