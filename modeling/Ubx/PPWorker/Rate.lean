import Ubx.Base.Timer
import Ubx.PPWorker.Schedule

/-!
# How many heartbeats the worker sends

`heartbeat_at` is a timer that the loop looks at once in every iteration. On a clock that does
not go back the heartbeats of all sockets together can be counted by it: no more than one for
each interval, and no fewer than the gaps between the looks allow.
-/

namespace Ubx.PPWorker

open Ubx.Base

/-- A heartbeat on any socket. -/
def isSentHeartbeat : Event → Bool
  | .sent _ msg => msg = [pppHeartbeat]
  | _ => false

/-- Heartbeats sent so far. -/
def heartbeats (trace : List Event) : Nat := trace.countP isSentHeartbeat

/-- The two readings of an iteration. -/
def Iteration.readings (it : Iteration) : Int × Int := (it.now.toInt, it.now'.toInt)

section

variable {zmsgEncode : Message → Bytes} {w : Worker} {it : Iteration}

/-- Neither a message nor a timeout brings a heartbeat: what is sent back has three frames, and
a new socket carries READY. -/
theorem heartbeats_of_atCheck {v : Worker} (h : atCheck zmsgEncode w it = some v) :
    heartbeats v.trace = heartbeats w.trace := by
  have htimeout : heartbeats (onTimeout w).trace = heartbeats w.trace := by
    by_cases hl : w.liveness - 1 = 0
    · rw [onTimeout_dead hl]
      simp [heartbeats, isSentHeartbeat, pppReady, pppHeartbeat]
    · rw [onTimeout_alive hl]
      simp [heartbeats, isSentHeartbeat]
  have hmessage (msg : Message) :
      heartbeats (onMessage zmsgEncode w msg it.pastEnd it.interrupted).trace =
        heartbeats w.trace := by
    by_cases hm : msg.length = 3
    · have hne : msg ≠ [pppHeartbeat] := by
        rintro rfl
        cases hm
      rw [onMessage_request hm]
      simp [heartbeats, isSentHeartbeat, hne]
    · rw [onMessage_other hm]
      simp [heartbeats, isSentHeartbeat]
  rw [atCheck] at h
  split at h
  · cases hp : it.poll with
    | interrupted => simp [hp] at h
    | timeout =>
      simp only [hp, Option.some.injEq] at h
      rw [← h, htimeout]
    | readable msg =>
      cases msg with
      | none => simp [hp] at h
      | some msg =>
        simp only [hp] at h
        split at h
        · rw [← Option.some.inj h, hmessage]
        · cases h
  · cases h

/-- An iteration that leaves the loop brings none either. -/
theorem heartbeats_of_leaves (hw : w.running = true) (h : it.leaves = true) :
    heartbeats (iterate zmsgEncode w it).trace = heartbeats w.trace := by
  rw [iterate, if_pos hw]
  rw [Iteration.leaves] at h
  cases hp : it.poll with
  | interrupted => rfl
  | timeout => simp [hp] at h
  | readable msg =>
    cases msg with
    | none => rfl
    | some msg =>
      simp only [hp, Bool.and_eq_true, decide_eq_true_eq] at h
      have hne : msg ≠ [pppHeartbeat] := by
        rintro rfl
        cases h.1
      simp [onMessage_request h.1, h.2, heartbeats, isSentHeartbeat, hne]

/-- Where the clock is not negative, the comparison of unsigned numbers is that of the
readings. -/
theorem due_iff {base now : Int64} (hbase : 0 ≤ base.toInt) (hnow : 0 ≤ now.toInt) :
    due base now = true ↔ base.toInt + heartbeatInterval.toInt < now.toInt := by
  have hi : heartbeatInterval.toInt = 1000 := rfl
  have hsum : (base + heartbeatInterval).toInt % 2 ^ 64 =
      (base.toInt + heartbeatInterval.toInt) % 2 ^ 64 := by
    rw [Int64.toInt_add]
    exact Int.bmod_emod
  have hlt := base.toInt_lt
  have hlt' := now.toInt_lt
  have hleft := toNat_toUInt64 (base + heartbeatInterval)
  have hright := toNat_toUInt64 now
  rw [hsum, hi] at hleft
  rw [due, decide_eq_true_eq, UInt64.lt_iff_toNat_lt, hi]
  omega

/-- The worker is a timer behind the look at `last`, as long as it runs. -/
structure Rated (clock gap : Int) (w : Worker) (last : Int × Int) : Prop where
  sent_le : clock + heartbeats w.trace * heartbeatInterval.toInt ≤ last.2
  regular : w.running = true → ∃ base : Int64,
    w.heartbeatAt = (base + heartbeatInterval).toUInt64 ∧
      Timer.Regular clock heartbeatInterval.toInt gap ⟨base.toInt, heartbeats w.trace⟩ last

variable {clock gap : Int} {last : Int × Int}

/-- An iteration is one look. -/
theorem Rated.iterate (h : Rated clock gap w last) (hclock : 0 ≤ clock)
    (horder : last.2 ≤ it.readings.1 ∧ it.readings.1 ≤ it.readings.2)
    (hgap : it.readings.1 ≤ last.1 + gap ∧ it.readings.2 ≤ it.readings.1 + gap) :
    Rated clock gap (iterate zmsgEncode w it) it.readings := by
  have hi : heartbeatInterval.toInt = 1000 := rfl
  have hsent := h.sent_le
  have hlater : last.2 ≤ it.readings.2 := horder.1.trans horder.2
  cases hw : w.running with
  | false =>
    rw [iterate_stopped hw]
    exact ⟨hsent.trans hlater, by simp [hw]⟩
  | true =>
    cases hl : it.leaves with
    | true =>
      obtain ⟨-, hstop, -⟩ := atCheck_of_leaves zmsgEncode hw hl
      refine ⟨?_, by simp [hstop]⟩
      rw [heartbeats_of_leaves hw hl]
      exact hsent.trans hlater
    | false =>
      obtain ⟨v, -, hv, hrun, hat, -, hit⟩ := atCheck_of_stays zmsgEncode hw hl
      obtain ⟨base, hbase, hreg⟩ := h.regular hw
      have hcount := heartbeats_of_atCheck hv
      obtain ⟨-, hat'⟩ := heartbeatAt_sendHeartbeat (hat.trans hbase) it.now it.now'
      have hlook := hreg.look (r := it.readings) (by omega) horder hgap
      -- both readings are behind the start, so not negative
      have hlow : clock + (heartbeats w.trace : Int) * heartbeatInterval.toInt ≤ base.toInt :=
        hreg.lower
      have hle : base.toInt ≤ last.2 := hreg.base_le
      have hnow : last.2 ≤ it.now.toInt := horder.1
      have hpos : 0 ≤ (heartbeats w.trace : Int) * heartbeatInterval.toInt :=
        Int.mul_nonneg (Int.natCast_nonneg _) (by decide)
      have hdue : due base it.now = true ↔ base.toInt + heartbeatInterval.toInt < it.now.toInt :=
        due_iff (by omega) (by omega)
      have hreg' : ∃ base' : Int64,
          (sendHeartbeat v it.now it.now').heartbeatAt =
            (base' + heartbeatInterval).toUInt64 ∧
          Timer.Regular clock heartbeatInterval.toInt gap
            ⟨base'.toInt, heartbeats (sendHeartbeat v it.now it.now').trace⟩ it.readings := by
        refine ⟨_, hat', ?_⟩
        by_cases hd : base.toInt + heartbeatInterval.toInt < it.now.toInt
        · have hlt : v.heartbeatAt < it.now.toUInt64 := by
            rw [hat, hbase]
            exact of_decide_eq_true (hdue.mpr hd)
          rw [if_pos (hdue.mpr hd), sendHeartbeat_of_lt hlt]
          have hpassed : base.toInt + heartbeatInterval.toInt < it.readings.1 := hd
          rw [Timer.look, if_pos hpassed] at hlook
          have hsucc : heartbeats (v.trace ++ [.sent v.socket [pppHeartbeat]]) =
              heartbeats w.trace + 1 := by
            rw [heartbeats, List.countP_append, ← hcount]
            rfl
          show Timer.Regular _ _ _ ⟨_, heartbeats (v.trace ++ [.sent v.socket [pppHeartbeat]])⟩ _
          rw [hsucc]
          exact hlook
        · have hge : ¬ v.heartbeatAt < it.now.toUInt64 := by
            rw [hat, hbase]
            exact fun hlt ↦ hd (hdue.mp (decide_eq_true hlt))
          rw [if_neg (fun hb ↦ hd (hdue.mp hb)), sendHeartbeat_of_not_lt hge, hcount]
          rwa [Timer.look,
            if_neg (show ¬ base.toInt + heartbeatInterval.toInt < it.readings.1 from hd)] at hlook
      rw [hit]
      refine ⟨?_, fun _ ↦ hreg'⟩
      obtain ⟨base', -, hreg''⟩ := hreg'
      exact hreg''.lower.trans hreg''.base_le

/-- So is every run of iterations. -/
theorem Rated.foldl (hclock : 0 ≤ clock) {its : List Iteration} (h : Rated clock gap w last)
    (hp : Paced gap last (its.map Iteration.readings)) :
    Rated clock gap (its.foldl (PPWorker.iterate zmsgEncode) w)
      ((its.map Iteration.readings).getLastD last) := by
  induction its generalizing w last with
  | nil => exact h
  | cons it its ih =>
    obtain ⟨horder, hgap, hrest⟩ := hp
    rw [List.map_cons, List.getLastD_cons, List.foldl_cons]
    exact ih (h.iterate hclock horder hgap) hrest

/-- A worker that has just been started. -/
theorem rated_start (clock : Int64) (gap : Nat) :
    Rated clock.toInt gap (start clock) (clock.toInt, clock.toInt) where
  sent_le := by
    have hzero : heartbeats (start clock).trace = 0 := rfl
    simp [hzero]
  regular _ := ⟨clock, rfl, .begin (by decide) (Int.natCast_nonneg gap)⟩

end

/-- On a clock that does not go back, in every run: the heartbeats of all sockets together are
at most one for each interval that has passed, and while the worker runs, with looks at most
`gap` apart, at least one fewer than one for each interval and two gaps. -/
theorem heartbeat_rate (zmsgEncode : Message → Bytes) {clock : Int64} {its : List Iteration}
    {gap : Nat} (hclock : 0 ≤ clock.toInt)
    (hpaced : Paced (gap : Int) (clock.toInt, clock.toInt) (its.map Iteration.readings)) :
    heartbeats (ppworkerActor zmsgEncode clock its).trace * heartbeatInterval.toInt ≤
        ((its.map Iteration.readings).getLastD (clock.toInt, clock.toInt)).2 - clock.toInt ∧
      ((ppworkerActor zmsgEncode clock its).running = true →
        ((its.map Iteration.readings).getLastD (clock.toInt, clock.toInt)).2 - clock.toInt ≤
          (heartbeats (ppworkerActor zmsgEncode clock its).trace + 1) *
            (heartbeatInterval.toInt + 2 * gap)) := by
  have h : Rated clock.toInt gap (ppworkerActor zmsgEncode clock its) _ :=
    (rated_start clock gap).foldl hclock hpaced
  constructor
  · have hsent := h.sent_le
    omega
  · intro hrun
    obtain ⟨base, -, hreg⟩ := h.regular hrun
    exact (hreg.rate (Int.natCast_nonneg gap)).2

/-- A request, two timeouts and an interrupt; a heartbeat every 1001 ms. -/
def busySeconds : List Iteration :=
  [⟨.readable (some [[7], [], [8]]), 0, false, 1001, 1001⟩, ⟨.timeout, 0, false, 2002, 2002⟩,
    ⟨.timeout, 0, false, 3003, 3004⟩]

/-- Three heartbeats in 3004 ms. -/
theorem heartbeat_rate_busy :
    heartbeats (ppworkerActor List.flatten 0 busySeconds).trace = 3 ∧
      (3 : Int) * 1000 ≤ 3004 ∧ (3004 : Int) ≤ (3 + 1) * (1000 + 2 * 1001) := by
  have hcount : heartbeats (ppworkerActor List.flatten 0 busySeconds).trace = 3 := by decide
  have hpaced : Paced ((1001 : Nat) : Int) ((0 : Int64).toInt, (0 : Int64).toInt)
      (busySeconds.map Iteration.readings) := by
    simp only [busySeconds, List.map_cons, List.map_nil, Paced, Iteration.readings]
    decide
  obtain ⟨hmost, hleast⟩ := heartbeat_rate List.flatten (by decide) hpaced
  refine ⟨hcount, ?_, ?_⟩
  · rw [hcount] at hmost
    exact hmost
  · have hleast := hleast (by decide)
    rw [hcount] at hleast
    exact hleast

end Ubx.PPWorker
