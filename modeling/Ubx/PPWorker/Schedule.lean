import Mathlib.Algebra.Group.Int.Defs
import Ubx.Base.Machine
import Ubx.PPWorker.Actor

/-!
# The heartbeat schedule of the worker

`heartbeat_at` is a time on the clock: the reading it was taken from and one interval more.
Later readings of the same clock are compared with it, and the clock may jump back. The
schedule stays within one interval of the clock as long as no check reads less than what
the schedule was taken from.
-/

namespace Ubx.PPWorker

open Ubx.Base

/-- The worker at the heartbeat check of an iteration, `czmq_ppworker.c:138`, if the
iteration gets that far. -/
def atCheck (zmsgEncode : Message → Bytes) (w : Worker) (it : Iteration) : Option Worker :=
  if w.running then
    match it.poll with
    | .interrupted => none
    | .readable none => none
    | .readable (some msg) =>
      let w := onMessage zmsgEncode w msg it.pastEnd it.interrupted
      if w.running then some w else none
    | .timeout => some (onTimeout w)
  else none

/-- The scheduled time is at most one interval ahead of the clock. -/
def InReach (w : Worker) (now : Int64) : Prop :=
  (w.heartbeatAt.toNat : Int) ≤ now.toInt + heartbeatInterval.toInt

/-- At every check of a run the scheduled time is in reach. So from a check on no more than
one interval goes by on the clock, up to a later check, without a heartbeat. -/
structure OnSchedule (zmsgEncode : Message → Bytes) (clock : Int64) (its : List Iteration) :
    Prop where
  inReach : ∀ pre it post, its = pre ++ it :: post → ∀ w,
    atCheck zmsgEncode (ppworkerActor zmsgEncode clock pre) it = some w → InReach w it.now
  prompt : ∀ pre it mid it' post, its = pre ++ it :: mid ++ it' :: post → ∀ w w',
    atCheck zmsgEncode (ppworkerActor zmsgEncode clock pre) it = some w →
    atCheck zmsgEncode (ppworkerActor zmsgEncode clock (pre ++ it :: mid)) it' = some w' →
    it.now.toInt + heartbeatInterval.toInt < it'.now.toInt →
      ∃ new, (ppworkerActor zmsgEncode clock (pre ++ it :: mid ++ [it'])).trace =
          (ppworkerActor zmsgEncode clock pre).trace ++ new ∧
        ∃ socket, .sent socket [pppHeartbeat] ∈ new

/-- The schedule taken from `base` is over at `now`. -/
def due (base now : Int64) : Bool := (base + heartbeatInterval).toUInt64 < now.toUInt64

/-- The clock never falls behind the reading that the schedule was taken from: `base`, and
from a check at which the schedule is over the next reading. -/
def KeepsUp (base : Int64) : List Iteration → Prop
  | [] => True
  | it :: its =>
    it.leaves = true ∨
      (-heartbeatInterval.toInt ≤ base.toInt ∧ base.toInt ≤ it.now.toInt) ∧
        KeepsUp (if due base it.now then it.now' else base) its

/-! ### The scheduled time as a number -/

/-- The bits of a signed number, read without a sign. -/
theorem toNat_toUInt64 (x : Int64) : (x.toUInt64.toNat : Int) = x.toInt % 2 ^ 64 := by
  have hlt := x.toBitVec.isLt
  rw [← Int64.toNat_toBitVec, ← Int64.toInt_toBitVec, BitVec.toInt_eq_toNat_cond]
  split
  · omega
  · omega

/-- The scheduled time is in reach of the clock exactly if the clock has not fallen behind
the reading it was taken from. -/
theorem scheduled_le_iff (base now : Int64) :
    ((base + heartbeatInterval).toUInt64.toNat : Int) ≤ now.toInt + heartbeatInterval.toInt ↔
      -heartbeatInterval.toInt ≤ base.toInt ∧ base.toInt ≤ now.toInt := by
  have hi : heartbeatInterval.toInt = 1000 := rfl
  have hsum : (base + heartbeatInterval).toInt % 2 ^ 64 =
      (base.toInt + heartbeatInterval.toInt) % 2 ^ 64 := by
    rw [Int64.toInt_add]
    exact Int.bmod_emod
  have hlt := base.toInt_lt
  have hle := base.le_toInt
  have hnow := now.toInt_lt
  rw [toNat_toUInt64, hsum, hi]
  omega

/-- A clock beyond a scheduled time in reach is seen to be beyond it. -/
theorem lt_of_inReach {w : Worker} {now now' : Int64} (h : InReach w now)
    (hlt : now.toInt + heartbeatInterval.toInt < now'.toInt) : w.heartbeatAt < now'.toUInt64 := by
  have hb := now'.toInt_lt
  have hn := toNat_toUInt64 now'
  have hpos : (0 : Int) ≤ w.heartbeatAt.toNat := Int.natCast_nonneg _
  rw [InReach] at h
  rw [UInt64.lt_iff_toNat_lt]
  omega

section

variable (zmsgEncode : Message → Bytes) {w : Worker} {it : Iteration} {its : List Iteration}

/-! ### One iteration -/

/-- An iteration that leaves the loop gets to no check and keeps the schedule. -/
theorem atCheck_of_leaves (hw : w.running = true) (h : it.leaves = true) :
    atCheck zmsgEncode w it = none ∧ (iterate zmsgEncode w it).running = false ∧
      ∃ new, (iterate zmsgEncode w it).trace = w.trace ++ new ∧
        (iterate zmsgEncode w it).heartbeatAt = w.heartbeatAt := by
  rw [atCheck, iterate, if_pos hw, if_pos hw]
  rw [Iteration.leaves] at h
  cases hp : it.poll with
  | interrupted => exact ⟨rfl, rfl, [], by simp⟩
  | timeout => simp [hp] at h
  | readable msg =>
    cases msg with
    | none => exact ⟨rfl, rfl, [], by simp⟩
    | some msg =>
      simp only [hp, Bool.and_eq_true, decide_eq_true_eq] at h
      simp [onMessage_request h.1, h.2]

/-- Any other iteration gets there with the schedule unchanged, and the heartbeat is what
is left of it. -/
theorem atCheck_of_stays (hw : w.running = true) (h : it.leaves = false) :
    ∃ v new, atCheck zmsgEncode w it = some v ∧ v.running = true ∧
      v.heartbeatAt = w.heartbeatAt ∧ v.trace = w.trace ++ new ∧
      iterate zmsgEncode w it = sendHeartbeat v it.now it.now' := by
  rw [atCheck, iterate, if_pos hw, if_pos hw]
  rw [Iteration.leaves] at h
  cases hp : it.poll with
  | interrupted => simp [hp] at h
  | timeout =>
    by_cases hl : w.liveness - 1 = 0
    · refine ⟨_, [.timeout, .slept w.interval, .destroyed w.socket, .opened (w.socket + 1),
        .sent (w.socket + 1) [pppReady]], rfl, ?_⟩
      simp [onTimeout_dead hl, hw]
    · refine ⟨_, [.timeout], rfl, ?_⟩
      simp [onTimeout_alive hl, hw]
  | readable msg =>
    cases msg with
    | none => simp [hp] at h
    | some msg =>
      simp only [hp, Bool.and_eq_false_iff, decide_eq_false_iff_not] at h
      by_cases h3 : msg.length = 3
      · have hi : it.interrupted = false := h.resolve_left (not_not.mpr h3)
        refine ⟨_, [.received w.socket msg it.pastEnd, .written (zmsgEncode msg),
          .sent w.socket msg], if_pos ?_, ?_⟩
        · simp [onMessage_request h3, hi, hw]
        · simp [onMessage_request h3, hi, hw]
      · refine ⟨_, [.received w.socket msg it.pastEnd], if_pos ?_, ?_⟩
        · simp [onMessage_other h3, hw]
        · simp [onMessage_other h3, hw]

variable {zmsgEncode}

/-- What is at the check comes from the head of the loop, and goes on to the heartbeat. -/
theorem eq_of_atCheck {v : Worker} (h : atCheck zmsgEncode w it = some v) :
    v.heartbeatAt = w.heartbeatAt ∧ iterate zmsgEncode w it = sendHeartbeat v it.now it.now' ∧
      ∃ new, v.trace = w.trace ++ new := by
  cases hw : w.running with
  | false => simp [atCheck, hw] at h
  | true =>
    cases hl : it.leaves with
    | true =>
      obtain ⟨hnone, -⟩ := atCheck_of_leaves zmsgEncode hw hl
      simp [hnone] at h
    | false =>
      obtain ⟨v', new, hv, -, hat, htrace, hi⟩ :=
        atCheck_of_stays zmsgEncode hw hl
      obtain rfl : v' = v := Option.some.inj (hv.symm.trans h)
      exact ⟨hat, hi, new, htrace⟩

/-- A heartbeat is sent at a check whose schedule is over, and a new schedule made. -/
theorem sendHeartbeat_of_lt {now : Int64} (h : w.heartbeatAt < now.toUInt64) (now' : Int64) :
    sendHeartbeat w now now' =
      { w with
        heartbeatAt := (now' + heartbeatInterval).toUInt64
        trace := w.trace ++ [.sent w.socket [pppHeartbeat]] } :=
  if_pos h

/-- Otherwise nothing happens. -/
theorem sendHeartbeat_of_not_lt {now : Int64} (h : ¬ w.heartbeatAt < now.toUInt64)
    (now' : Int64) : sendHeartbeat w now now' = w :=
  if_neg h

/-- The check keeps the schedule taken from `base`, or takes the next one from the second
reading. -/
theorem heartbeatAt_sendHeartbeat {base : Int64}
    (h : w.heartbeatAt = (base + heartbeatInterval).toUInt64) (now now' : Int64) :
    (sendHeartbeat w now now').running = w.running ∧ (sendHeartbeat w now now').heartbeatAt =
      ((if due base now then now' else base) + heartbeatInterval).toUInt64 := by
  by_cases hd : w.heartbeatAt < now.toUInt64
  · have hdue : due base now = true := by
      rw [due, ← h]
      exact decide_eq_true hd
    rw [sendHeartbeat_of_lt hd, if_pos hdue]
    exact ⟨rfl, rfl⟩
  · have hdue : ¬ due base now = true := by
      rw [due, ← h, decide_eq_true_eq]
      exact hd
    rw [sendHeartbeat_of_not_lt hd, if_neg hdue]
    exact ⟨rfl, h⟩

/-! ### Runs -/

/-- Outside of the loop there are no more checks. -/
theorem atCheck_stopped (hw : w.running = false) (its : List Iteration) (it : Iteration) :
    atCheck zmsgEncode (its.foldl (iterate zmsgEncode) w) it = none := by
  induction its with
  | nil => simp [atCheck, hw]
  | cons it' its ih =>
    rw [List.foldl_cons, iterate_stopped hw]
    exact ih

/-- Over a stretch of iterations a heartbeat is sent or the schedule is kept. -/
theorem sent_or_kept (zmsgEncode : Message → Bytes) (w : Worker) (its : List Iteration) :
    ∃ new, (its.foldl (iterate zmsgEncode) w).trace = w.trace ++ new ∧
      ((∃ socket, .sent socket [pppHeartbeat] ∈ new) ∨
        (its.foldl (iterate zmsgEncode) w).heartbeatAt = w.heartbeatAt) := by
  apply foldl_history (f := iterate zmsgEncode) (P := fun _ v ↦ ∃ new, v.trace = w.trace ++ new ∧
    ((∃ socket, .sent socket [pppHeartbeat] ∈ new) ∨ v.heartbeatAt = w.heartbeatAt))
  · exact ⟨[], by simp, .inr rfl⟩
  · rintro _ u it ⟨new, htrace, hnew⟩
    suffices hstep : ∃ more, (iterate zmsgEncode u it).trace = u.trace ++ more ∧
        ((∃ socket, .sent socket [pppHeartbeat] ∈ more) ∨
          (iterate zmsgEncode u it).heartbeatAt = u.heartbeatAt) by
      obtain ⟨more, hmore, hsent | hkept⟩ := hstep
      · refine ⟨new ++ more, by rw [hmore, htrace, List.append_assoc], .inl ?_⟩
        exact hsent.imp fun socket hs ↦ List.mem_append_right _ hs
      · refine ⟨new ++ more, by rw [hmore, htrace, List.append_assoc], ?_⟩
        rw [hkept]
        exact hnew.imp_left fun h ↦ h.imp fun socket hs ↦ List.mem_append_left _ hs
    cases hu : u.running with
    | false =>
      rw [iterate_stopped hu]
      exact ⟨[], by simp, .inr rfl⟩
    | true =>
      cases hl : it.leaves with
      | true =>
        obtain ⟨-, -, more, hmore, hkept⟩ := atCheck_of_leaves zmsgEncode hu hl
        exact ⟨more, hmore, .inr hkept⟩
      | false =>
        obtain ⟨v, more, -, -, hat, hmore, hi⟩ :=
          atCheck_of_stays zmsgEncode hu hl
        rw [hi]
        by_cases hd : v.heartbeatAt < it.now.toUInt64
        · rw [sendHeartbeat_of_lt hd]
          exact ⟨more ++ [.sent v.socket [pppHeartbeat]], by simp [hmore], .inl ⟨v.socket, by simp⟩⟩
        · rw [sendHeartbeat_of_not_lt hd]
          exact ⟨more, hmore, .inr hat⟩

/-- The schedule is in reach at every check of a run exactly if the clock keeps up. -/
theorem inReach_iff_keepsUp {base : Int64} (hw : w.running = true)
    (h : w.heartbeatAt = (base + heartbeatInterval).toUInt64) :
    (∀ pre it post, its = pre ++ it :: post → ∀ v,
        atCheck zmsgEncode (pre.foldl (iterate zmsgEncode) w) it = some v → InReach v it.now) ↔
      KeepsUp base its := by
  induction its generalizing w base with
  | nil => simp [KeepsUp]
  | cons it its ih =>
    rw [forall_split_cons, KeepsUp]
    simp only [List.foldl_nil, List.foldl_cons]
    cases hl : it.leaves with
    | true =>
      obtain ⟨hnone, hstop, -⟩ := atCheck_of_leaves zmsgEncode hw hl
      simp [hnone, atCheck_stopped hstop]
    | false =>
      obtain ⟨v, new, hv, hrun, hat, -, hi⟩ := atCheck_of_stays zmsgEncode hw hl
      obtain ⟨hrun', hat'⟩ := heartbeatAt_sendHeartbeat (hat.trans h) it.now it.now'
      rw [hi, ih (hrun'.trans hrun) hat']
      simp only [hv, Option.some.injEq, forall_eq', InReach, hat, h, scheduled_le_iff,
        Bool.false_eq_true, false_or]

/-- From a check with the schedule in reach, a heartbeat is sent up to the first check that
is more than one interval later. -/
theorem sent_of_inReach {v v' : Worker} {it' : Iteration} {mid : List Iteration}
    (hv : atCheck zmsgEncode w it = some v) (hreach : InReach v it.now)
    (hv' : atCheck zmsgEncode ((it :: mid).foldl (iterate zmsgEncode) w) it' = some v')
    (hlt : it.now.toInt + heartbeatInterval.toInt < it'.now.toInt) :
    ∃ new, ((it :: mid ++ [it']).foldl (iterate zmsgEncode) w).trace = w.trace ++ new ∧
      ∃ socket, .sent socket [pppHeartbeat] ∈ new := by
  obtain ⟨new, htrace, hnew⟩ := sent_or_kept zmsgEncode w (it :: mid)
  obtain ⟨hat, -⟩ := eq_of_atCheck hv
  obtain ⟨hat', hi, more, hmore⟩ := eq_of_atCheck hv'
  rw [List.foldl_append, List.foldl_cons, List.foldl_nil, hi]
  by_cases hd : v'.heartbeatAt < it'.now.toUInt64
  · rw [sendHeartbeat_of_lt hd]
    refine ⟨new ++ more ++ [.sent v'.socket [pppHeartbeat]], ?_, v'.socket, by simp⟩
    simp only [hmore, htrace, List.append_assoc]
  · rw [sendHeartbeat_of_not_lt hd]
    refine ⟨new ++ more, by rw [hmore, htrace, List.append_assoc], ?_⟩
    rcases hnew with hsent | hkept
    · exact hsent.imp fun socket hs ↦ List.mem_append_left _ hs
    · have heq : v'.heartbeatAt = v.heartbeatAt := hat'.trans (hkept.trans hat.symm)
      exact absurd (heq ▸ lt_of_inReach hreach hlt) hd

/-- A clock that never goes back keeps up. -/
theorem keepsUp_of_nondecreasing {base : Int64} (hbase : -heartbeatInterval.toInt ≤ base.toInt)
    (h : (base :: its.flatMap fun it ↦ [it.now, it.now']).Pairwise (· ≤ ·)) :
    KeepsUp base its := by
  induction its generalizing base with
  | nil => exact trivial
  | cons it its ih =>
    simp only [List.flatMap_cons, List.cons_append, List.nil_append, List.pairwise_cons,
      List.mem_cons, forall_eq_or_imp] at h
    obtain ⟨⟨hnow, hnow', hrest⟩, -, hnext, htail⟩ := h
    rw [Int64.le_iff_toInt_le] at hnow hnow'
    apply Or.inr
    refine ⟨⟨hbase, hnow⟩, ?_⟩
    split
    · apply ih
      · omega
      · exact List.pairwise_cons.mpr ⟨hnext, htail⟩
    · apply ih hbase
      exact List.pairwise_cons.mpr ⟨hrest, htail⟩

end

/-- While the clock keeps up, the heartbeats are on schedule. -/
theorem OnSchedule.of_keepsUp {zmsgEncode : Message → Bytes} {clock : Int64}
    {its : List Iteration} (h : KeepsUp clock its) : OnSchedule zmsgEncode clock its := by
  have hreach : ∀ pre it post, its = pre ++ it :: post → ∀ w,
      atCheck zmsgEncode (pre.foldl (iterate zmsgEncode) (start clock)) it = some w →
        InReach w it.now := (inReach_iff_keepsUp (w := start clock) rfl rfl).mpr h
  refine ⟨hreach, ?_⟩
  rintro pre it mid it' post rfl w w' hw hw' hlt
  have hin : InReach w it.now := hreach pre it (mid ++ it' :: post) (by simp) w hw
  rw [ppworkerActor, List.foldl_append] at hw'
  obtain ⟨new, htrace, hsent⟩ := sent_of_inReach hw hin hw' hlt
  refine ⟨new, ?_, hsent⟩
  rw [ppworkerActor, List.append_assoc, List.foldl_append]
  exact htrace

/-- On a clock that never goes back they always are. -/
theorem OnSchedule.of_nondecreasing (zmsgEncode : Message → Bytes) {clock : Int64}
    {its : List Iteration} (hclock : 0 ≤ clock)
    (h : (clock :: its.flatMap fun it ↦ [it.now, it.now']).Pairwise (· ≤ ·)) :
    OnSchedule zmsgEncode clock its := by
  have hi : heartbeatInterval.toInt = 1000 := rfl
  have hzero : 0 ≤ clock.toInt := Int64.le_iff_toInt_le.mp hclock
  apply OnSchedule.of_keepsUp
  apply keepsUp_of_nondecreasing _ h
  omega

/-- In every run the heartbeats are on schedule exactly if the clock keeps up: no check
reads less than the reading its schedule was taken from, and none of these readings is more
than one interval below zero. -/
theorem onSchedule_iff_keepsUp (zmsgEncode : Message → Bytes) (clock : Int64)
    (its : List Iteration) : OnSchedule zmsgEncode clock its ↔ KeepsUp clock its := by
  constructor
  · intro h
    exact (inReach_iff_keepsUp (w := start clock) rfl rfl).mp h.inReach
  · exact OnSchedule.of_keepsUp

/-- Two timeouts on a clock that has been set back by ten seconds. -/
def setBack : List Iteration := [⟨.timeout, 0, false, 0, 0⟩, ⟨.timeout, 0, false, 5000, 5000⟩]

/-- Five intervals go by between the checks, and there is no heartbeat. -/
theorem set_back_not_onSchedule :
    (ppworkerActor List.flatten 10000 setBack).heartbeatAt = 11000 ∧
      (∀ socket, .sent socket [pppHeartbeat] ∉ (ppworkerActor List.flatten 10000 setBack).trace) ∧
      ¬ OnSchedule List.flatten 10000 setBack := by
  refine ⟨by decide, ?_, fun h ↦ ?_⟩
  · have htrace : (ppworkerActor List.flatten 10000 setBack).trace =
        [.opened 0, .sent 0 [pppReady], .timeout, .timeout] := by decide
    rw [htrace]
    simp [pppReady, pppHeartbeat]
  · have hreach := h.inReach [] _ _ rfl _ rfl
    exact absurd hreach (by rw [InReach]; decide)

end Ubx.PPWorker
