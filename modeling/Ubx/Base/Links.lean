import Mathlib.Logic.Function.Basic

/-!
# Links between senders and receivers

Every sender has a FIFO link to every receiver. What is sent goes into all links that are
up, and arrives in order. A link that goes down loses what is on its way, and one that is full
takes no more. So a receiver gets a subsequence of what is sent, in order and nothing twice,
and all of it over a link that has been up all the time.
-/

namespace Ubx.Base

universe u v w

/-! ### Labelled messages -/

section

variable {σ : Type u} {μ : Type w} [DecidableEq σ] {xs ys : List (σ × μ)} {s : σ} {m : μ}
  {ms : List μ}

/-- The messages with the label `s`, in order. -/
def labelled (s : σ) (xs : List (σ × μ)) : List μ :=
  xs.filterMap fun a ↦ if a.1 = s then some a.2 else none

/-- Messages of two lists. -/
theorem labelled_append (s : σ) (xs ys : List (σ × μ)) :
    labelled s (xs ++ ys) = labelled s xs ++ labelled s ys := List.filterMap_append

/-- A message in front. -/
theorem labelled_cons (s t : σ) (m : μ) (xs : List (σ × μ)) :
    labelled s ((t, m) :: xs) = if t = s then m :: labelled s xs else labelled s xs := by
  rw [labelled, List.filterMap_cons]
  split
  · next h => rw [if_neg (by simpa using h), labelled]
  · next h =>
    obtain ⟨hs, rfl⟩ : t = s ∧ m = _ := by simpa using h
    rw [if_pos hs, labelled]

/-- The first message with a label can be taken out. -/
theorem exists_of_labelled_eq_cons (h : labelled s xs = m :: ms) :
    ∃ pre post, xs = pre ++ (s, m) :: post ∧ labelled s pre = [] ∧ labelled s post = ms := by
  obtain ⟨pre, a, post, rfl, hpre, ha, hpost⟩ := List.filterMap_eq_cons_iff.mp h
  obtain ⟨rfl, rfl⟩ : a.1 = s ∧ a.2 = m := by simpa using ha
  exact ⟨pre, post, rfl, List.filterMap_eq_nil_iff.mpr hpre, hpost⟩

/-- Two lists with the same messages under each label differ in the order of the labels only. -/
theorem perm_of_labelled (h : ∀ s, labelled s xs = labelled s ys) : xs.Perm ys := by
  induction xs generalizing ys with
  | nil =>
    cases ys with
    | nil => exact .nil
    | cons y ys =>
      have hy := h y.1
      rw [labelled_cons, if_pos rfl] at hy
      exact absurd hy (by simp [labelled])
  | cons x xs ih =>
    obtain ⟨t, m⟩ := x
    have ht := h t
    rw [labelled_cons, if_pos rfl] at ht
    obtain ⟨pre, post, rfl, hpre, hpost⟩ := exists_of_labelled_eq_cons ht.symm
    have hrest : ∀ s, labelled s xs = labelled s (pre ++ post) := by
      intro s
      have hs := h s
      rw [labelled_cons, labelled_append, labelled_cons] at hs
      rw [labelled_append]
      by_cases he : t = s
      · subst he
        rw [hpre, hpost, List.nil_append]
      · rwa [if_neg he, if_neg he] at hs
    exact ((ih hrest).cons (t, m)).trans List.perm_middle.symm

end

/-! ### Links -/

/-- Links, and what has arrived, with the senders. -/
structure Links (σ : Type u) (ρ : Type v) (μ : Type w) where
  up : σ → ρ → Bool
  onWay : σ → ρ → List μ
  arrived : ρ → List (σ × μ)

namespace Links

section

variable {σ : Type u} {ρ : Type v} {μ : Type w}

/-- Nothing has been sent. -/
def start (up : σ → ρ → Bool) : Links σ ρ μ := ⟨up, fun _ _ ↦ [], fun _ ↦ []⟩

variable [DecidableEq σ]

/-- `s` sends to all receivers that it is linked to. -/
def send (s : σ) (ms : List μ) (l : Links σ ρ μ) : Links σ ρ μ :=
  { l with
    onWay := fun s' r ↦ if s' = s ∧ l.up s' r = true then l.onWay s' r ++ ms else l.onWay s' r }

variable [DecidableEq ρ]

/-- The first message on the way from `s` to `r` arrives, if there is one. -/
def deliver (s : σ) (r : ρ) (l : Links σ ρ μ) : Links σ ρ μ :=
  match l.onWay s r with
  | [] => l
  | m :: rest =>
    { l with
      onWay := fun s' r' ↦ if s' = s ∧ r' = r then rest else l.onWay s' r'
      arrived := Function.update l.arrived r (l.arrived r ++ [(s, m)]) }

/-- The link from `s` to `r` comes up. -/
def connect (s : σ) (r : ρ) (l : Links σ ρ μ) : Links σ ρ μ :=
  { l with up := fun s' r' ↦ if s' = s ∧ r' = r then true else l.up s' r' }

/-- The link from `s` to `r` goes down, and what is on its way is lost. -/
def disconnect (s : σ) (r : ρ) (l : Links σ ρ μ) : Links σ ρ μ :=
  { l with
    up := fun s' r' ↦ if s' = s ∧ r' = r then false else l.up s' r'
    onWay := fun s' r' ↦ if s' = s ∧ r' = r then [] else l.onWay s' r' }

/-- The link from `s` to `r` takes no more; what is on its way stays there. -/
def hold (s : σ) (r : ρ) (l : Links σ ρ μ) : Links σ ρ μ :=
  { l with up := fun s' r' ↦ if s' = s ∧ r' = r then false else l.up s' r' }

/-- What has arrived at `r` from `s`. -/
def arrivedFrom (l : Links σ ρ μ) (s : σ) (r : ρ) : List μ := labelled s (l.arrived r)

/-- What has left `s` for `r` and has not been lost. -/
def passed (l : Links σ ρ μ) (s : σ) (r : ρ) : List μ := l.arrivedFrom s r ++ l.onWay s r

/-- Over every link a subsequence of what has been sent has passed. -/
def Ordered (sent : σ → List μ) (l : Links σ ρ μ) : Prop := ∀ s r, (l.passed s r).Sublist (sent s)

/-- The link from `s` to `r` is up, and all that has been sent has passed. -/
structure Whole (sent : σ → List μ) (l : Links σ ρ μ) (s : σ) (r : ρ) : Prop where
  isUp : l.up s r = true
  passed_eq : l.passed s r = sent s

/-- Nothing has ever passed from `s` to `r`. -/
structure Silent (l : Links σ ρ μ) (s : σ) (r : ρ) : Prop where
  isDown : l.up s r = false
  passed_eq : l.passed s r = []

end

/-! ### What passes a link -/

section

variable {σ : Type u} {ρ : Type v} {μ : Type w} [DecidableEq σ] {l : Links σ ρ μ} {s s' : σ}
  {r r' : ρ} {ms : List μ}

/-- What is sent is on its way where the link is up. -/
theorem passed_send (l : Links σ ρ μ) (s s' : σ) (r : ρ) (ms : List μ) :
    (l.send s ms).passed s' r =
      if s' = s ∧ l.up s' r = true then l.passed s' r ++ ms else l.passed s' r := by
  simp only [passed, arrivedFrom, send]
  split
  · rw [List.append_assoc]
  · rfl

variable [DecidableEq ρ]

/-- A delivery moves a message from the link to the receiver. -/
theorem passed_deliver (l : Links σ ρ μ) (s s' : σ) (r r' : ρ) :
    (l.deliver s r).passed s' r' = l.passed s' r' := by
  rw [deliver]
  split
  · rfl
  · next m rest hm =>
    simp only [passed, arrivedFrom]
    by_cases hr : r' = r
    · subst hr
      rw [Function.update_self, labelled_append, labelled_cons]
      by_cases hs : s' = s
      · subst hs
        simp [labelled, hm]
      · simp [labelled, hs, Ne.symm hs]
    · rw [Function.update_of_ne hr, if_neg fun h ↦ hr h.2]

/-- Links stay up when a message arrives. -/
@[simp] theorem up_deliver (l : Links σ ρ μ) (s : σ) (r : ρ) : (l.deliver s r).up = l.up := by
  rw [deliver]
  split <;> rfl

/-- The message that arrives is the first on its way. -/
theorem arrived_deliver {m : μ} {rest : List μ} (h : l.onWay s r = m :: rest) :
    (l.deliver s r).arrived = Function.update l.arrived r (l.arrived r ++ [(s, m)]) := by
  rw [deliver, h]

/-- Other links do not change when one goes down. -/
theorem passed_disconnect_of_ne (h : ¬ (s' = s ∧ r' = r)) :
    (l.disconnect s r).passed s' r' = l.passed s' r' := by
  simp only [passed, arrivedFrom, disconnect, if_neg h]

/-- Of the link that goes down only what has arrived is left. -/
theorem passed_disconnect_sublist (l : Links σ ρ μ) (s s' : σ) (r r' : ρ) :
    ((l.disconnect s r).passed s' r').Sublist (l.passed s' r') := by
  by_cases h : s' = s ∧ r' = r
  · simp only [passed, arrivedFrom, disconnect, if_pos h, List.append_nil]
    exact List.sublist_append_left _ _
  · exact (passed_disconnect_of_ne h).symm ▸ List.Sublist.refl _

end

/-! ### Events and invariants -/

/-- What can happen to the links. -/
inductive Event (σ : Type u) (ρ : Type v) (μ : Type w)
  | idle
  | send (s : σ) (ms : List μ)
  | deliver (s : σ) (r : ρ)
  | connect (s : σ) (r : ρ)
  | disconnect (s : σ) (r : ρ)
  | hold (s : σ) (r : ρ)

section

variable {σ : Type u} {ρ : Type v} {μ : Type w} [DecidableEq σ]

/-- What is sent by `s` in an event. -/
def Event.sends (s : σ) : Event σ ρ μ → List μ
  | .send s' ms => if s' = s then ms else []
  | _ => []

/-- The link from `s` to `r` is not up any more. -/
@[simp] def Event.Lowers (s : σ) (r : ρ) : Event σ ρ μ → Prop
  | .disconnect s' r' | .hold s' r' => s' = s ∧ r' = r
  | _ => False

/-- The links after an event. -/
def act [DecidableEq ρ] (l : Links σ ρ μ) : Event σ ρ μ → Links σ ρ μ
  | .idle => l
  | .send s ms => l.send s ms
  | .deliver s r => l.deliver s r
  | .connect s r => l.connect s r
  | .disconnect s r => l.disconnect s r
  | .hold s r => l.hold s r

variable [DecidableEq ρ] {l : Links σ ρ μ} {sent sent' : σ → List μ} {s : σ} {r : ρ}
  {e : Event σ ρ μ}

/-- Every event keeps the links in order. -/
theorem Ordered.act (h : Ordered sent l) (hsent : ∀ s, sent' s = sent s ++ e.sends s) :
    Ordered sent' (l.act e) := by
  intro s r
  have hsent := hsent s
  have hold : (l.passed s r).Sublist (sent' s) := by
    rw [hsent]
    exact (h s r).trans (List.sublist_append_left _ _)
  cases e with
  | idle => exact hold
  | send s' ms =>
    rw [Links.act, passed_send]
    split
    · next hs =>
      rw [hsent, Event.sends, if_pos hs.1.symm]
      exact (h s r).append (List.Sublist.refl _)
    · exact hold
  | deliver s' r' =>
    rw [Links.act, passed_deliver]
    exact hold
  | connect s' r' => exact hold
  | hold s' r' => exact hold
  | disconnect s' r' => exact (passed_disconnect_sublist l s' s r' r).trans hold

/-- A whole link stays whole as long as it is up. -/
theorem Whole.act (h : Whole sent l s r) (hsent : ∀ s, sent' s = sent s ++ e.sends s)
    (he : ¬ e.Lowers s r) : Whole sent' (l.act e) s r := by
  have hsent := hsent s
  have hold (hnil : e.sends s = []) : l.passed s r = sent' s := by
    rw [hsent, hnil, List.append_nil, h.passed_eq]
  cases e with
  | idle => exact ⟨h.isUp, hold rfl⟩
  | send s' ms =>
    refine ⟨h.isUp, ?_⟩
    rw [Links.act, passed_send, hsent, Event.sends]
    by_cases hs : s' = s
    · rw [if_pos ⟨hs.symm, h.isUp⟩, if_pos hs, h.passed_eq]
    · rw [if_neg fun hc ↦ hs hc.1.symm, if_neg hs, List.append_nil, h.passed_eq]
  | deliver s' r' =>
    refine ⟨?_, ?_⟩
    · rw [Links.act, up_deliver, h.isUp]
    · rw [Links.act, passed_deliver, hold rfl]
  | connect s' r' =>
    refine ⟨?_, hold rfl⟩
    simp only [Links.act, Links.connect, h.isUp, ite_self]
  | disconnect s' r' =>
    have hne : ¬ (s = s' ∧ r = r') := by
      rintro ⟨rfl, rfl⟩
      exact he ⟨rfl, rfl⟩
    refine ⟨?_, ?_⟩
    · simp only [Links.act, Links.disconnect, if_neg hne, h.isUp]
    · rw [Links.act, passed_disconnect_of_ne hne, hold rfl]
  | hold s' r' =>
    have hne : ¬ (s = s' ∧ r = r') := by
      rintro ⟨rfl, rfl⟩
      exact he ⟨rfl, rfl⟩
    refine ⟨?_, hold rfl⟩
    simp only [Links.act, Links.hold, if_neg hne, h.isUp]

/-- A silent link stays silent unless it comes up. -/
theorem Silent.act (h : Silent l s r) (he : e ≠ .connect s r) : Silent (l.act e) s r := by
  cases e with
  | idle => exact h
  | send s' ms =>
    refine ⟨h.isDown, ?_⟩
    rw [Links.act, passed_send, if_neg, h.passed_eq]
    intro hc
    exact absurd (hc.2.symm.trans h.isDown) (by simp)
  | deliver s' r' =>
    refine ⟨?_, ?_⟩
    · rw [Links.act, up_deliver, h.isDown]
    · rw [Links.act, passed_deliver, h.passed_eq]
  | connect s' r' =>
    have hne : ¬ (s = s' ∧ r = r') := by
      rintro ⟨rfl, rfl⟩
      exact he rfl
    refine ⟨?_, h.passed_eq⟩
    simp only [Links.act, Links.connect, if_neg hne, h.isDown]
  | disconnect s' r' =>
    refine ⟨?_, ?_⟩
    · simp only [Links.act, Links.disconnect, h.isDown, ite_self]
    · apply List.sublist_nil.mp
      rw [← h.passed_eq]
      exact passed_disconnect_sublist l s' s r' r
  | hold s' r' =>
    refine ⟨?_, h.passed_eq⟩
    simp only [Links.act, Links.hold, h.isDown, ite_self]

end

end Links

end Ubx.Base
