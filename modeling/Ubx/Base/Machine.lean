import Mathlib.Data.List.Induction

/-!
# State machines and their runs

A machine takes one action at a time and may fail. A run folds a list of actions; the
rules below turn a fact about one step into a fact about every run.
-/

namespace Ubx.Base

universe u v w

/-- A deterministic machine: a step on an action gives the next state or an error. -/
structure Machine (σ : Type u) (α : Type v) (ε : Type w) where
  step : σ → α → Except ε σ

namespace Machine

variable {σ : Type u} {α : Type v} {ε : Type w} (M : Machine σ α ε)

/-- Run a list of actions; the first error ends the run. -/
def run (s : σ) : List α → Except ε σ
  | [] => .ok s
  | a :: as =>
    match M.step s a with
    | .ok s' => run s' as
    | .error e => .error e

variable {M}

/-- The empty run. -/
@[simp] theorem run_nil (s : σ) : M.run s [] = .ok s := rfl

/-- A run starts with its first step. -/
theorem run_cons {s t : σ} {a : α} {as : List α} :
    M.run s (a :: as) = .ok t ↔ ∃ s', M.step s a = .ok s' ∧ M.run s' as = .ok t := by
  rw [run]
  cases h : M.step s a <;> simp

/-- A run splits wherever its list of actions does. -/
theorem run_append {s t : σ} {as bs : List α} :
    M.run s (as ++ bs) = .ok t ↔ ∃ s', M.run s as = .ok s' ∧ M.run s' bs = .ok t := by
  induction as generalizing s with
  | nil => simp
  | cons a as ih =>
    simp only [List.cons_append, run_cons, ih]
    constructor
    · rintro ⟨s₁, h₁, s₂, h₂, h₃⟩
      exact ⟨s₂, ⟨s₁, h₁, h₂⟩, h₃⟩
    · rintro ⟨s₂, ⟨s₁, h₁, h₂⟩, h₃⟩
      exact ⟨s₁, h₁, s₂, h₂, h₃⟩

/-- A run ends with its last step. -/
theorem run_concat {s t : σ} {as : List α} {a : α} :
    M.run s (as ++ [a]) = .ok t ↔ ∃ s', M.run s as = .ok s' ∧ M.step s' a = .ok t := by
  simp [run_append, run_cons]

/-- The history rule: what holds of the empty run, and of a run with one more step when
it holds of the run, holds of every run together with its final state. -/
theorem run_history {s : σ} {P : List α → σ → Prop} (init : P [] s)
    (step : ∀ as s' a t, M.run s as = .ok s' → P as s' → M.step s' a = .ok t → P (as ++ [a]) t)
    {as : List α} {t : σ} (h : M.run s as = .ok t) : P as t := by
  induction as using List.reverseRecOn generalizing t with
  | nil =>
    obtain rfl := Except.ok.inj h
    exact init
  | append_singleton as a ih =>
    obtain ⟨s', hs, ht⟩ := run_concat.mp h
    exact step as s' a t hs (ih hs) ht

/-- The progress rule: if an allowed action never fails where the run so far has left the
system, no run of allowed actions fails. -/
theorem run_total {s : σ} {P : List α → σ → Prop} {A : α → Prop} (init : P [] s)
    (step : ∀ as s' a, P as s' → A a → ∃ t, M.step s' a = .ok t ∧ P (as ++ [a]) t)
    {as : List α} (ha : ∀ a ∈ as, A a) : ∃ t, M.run s as = .ok t ∧ P as t := by
  induction as using List.reverseRecOn with
  | nil => exact ⟨s, rfl, init⟩
  | append_singleton as a ih =>
    obtain ⟨s', hs, hp⟩ := ih fun b hb ↦ ha b (List.mem_append_left _ hb)
    obtain ⟨t, ht, hpt⟩ := step as s' a hp (ha a (by simp))
    exact ⟨t, run_concat.mpr ⟨s', hs, ht⟩, hpt⟩

/-- The stepwise rule: a run succeeds exactly if each of its steps does, where the actions
in front of it lead. -/
theorem run_isOk_iff {s : σ} {as : List α} :
    (∃ t, M.run s as = .ok t) ↔
      ∀ pre a post s', as = pre ++ a :: post → M.run s pre = .ok s' → ∃ t, M.step s' a = .ok t := by
  constructor
  · rintro ⟨t, h⟩ pre a post s' rfl hpre
    obtain ⟨s₁, h₁, hrest⟩ := run_append.mp h
    obtain rfl : s₁ = s' := Except.ok.inj (h₁.symm.trans hpre)
    obtain ⟨t', ht, -⟩ := run_cons.mp hrest
    exact ⟨t', ht⟩
  · intro h
    induction as using List.reverseRecOn with
    | nil => exact ⟨s, rfl⟩
    | append_singleton as a ih =>
      obtain ⟨s', hs⟩ := ih fun pre b post s' he ↦
        h pre b (post ++ [a]) s' (by rw [he, List.append_assoc, List.cons_append])
      obtain ⟨t, ht⟩ := h as a [] s' rfl hs
      exact ⟨t, run_concat.mpr ⟨s', hs, ht⟩⟩

/-- Something has happened in a run with one more action if it had happened before, or happens
with this action. -/
theorem exists_split_concat {s t : σ} {as : List α} {a : α} {Q : σ → α → Prop}
    (h : M.run s as = .ok t) :
    (∃ pre b post s', as ++ [a] = pre ++ b :: post ∧ M.run s pre = .ok s' ∧ Q s' b) ↔
      (∃ pre b post s', as = pre ++ b :: post ∧ M.run s pre = .ok s' ∧ Q s' b) ∨ Q t a := by
  constructor
  · rintro ⟨pre, b, post, s', he, hpre, hq⟩
    cases post using List.reverseRecOn with
    | nil =>
      obtain ⟨rfl, hab⟩ := List.append_inj' he rfl
      obtain rfl := List.singleton_inj.mp hab
      obtain rfl : t = s' := Except.ok.inj (h.symm.trans hpre)
      exact .inr hq
    | append_singleton post c =>
      rw [← List.cons_append, ← List.append_assoc] at he
      exact .inl ⟨pre, b, post, s', (List.append_inj' he rfl).1, hpre, hq⟩
  · rintro (⟨pre, b, post, s', rfl, hpre, hq⟩ | hq)
    · exact ⟨pre, b, post ++ [a], s', by rw [List.append_assoc, List.cons_append], hpre, hq⟩
    · exact ⟨as, a, [], t, rfl, h, hq⟩

end Machine

/-- Two results agree: related values, or an error and what stands for it. -/
inductive Agrees {σ : Type u} {τ : Type v} {ε : Type w} {δ : Type w} (R : σ → τ → Prop)
    (φ : ε → δ) : Except ε σ → Except δ τ → Prop
  | ok {s : σ} {t : τ} (h : R s t) : Agrees R φ (.ok s) (.ok t)
  | error (e : ε) : Agrees R φ (.error e) (.error (φ e))

/-- The simulation rule: machines whose steps agree have runs that agree. -/
theorem Machine.run_agrees {σ τ α : Type u} {ε δ : Type w} {M : Machine σ α ε}
    {N : Machine τ α δ} {R : σ → τ → Prop} {φ : ε → δ}
    (step : ∀ s t a, R s t → Agrees R φ (M.step s a) (N.step t a)) {s : σ} {t : τ} (h : R s t)
    (as : List α) : Agrees R φ (M.run s as) (N.run t as) := by
  induction as generalizing s t with
  | nil => exact .ok h
  | cons a as ih =>
    have hstep := step s t a h
    rw [Machine.run, Machine.run]
    generalize M.step s a = x at hstep ⊢
    generalize N.step t a = y at hstep ⊢
    cases hstep with
    | ok h' => exact ih h'
    | error e => exact .error e

/-- The history rule for steps that cannot fail. -/
theorem foldl_history {σ : Type u} {α : Type v} {f : σ → α → σ} {s : σ} {P : List α → σ → Prop}
    (init : P [] s) (step : ∀ as t a, P as t → P (as ++ [a]) (f t a)) (as : List α) :
    P as (as.foldl f s) := by
  induction as using List.reverseRecOn with
  | nil => exact init
  | append_singleton as a ih =>
    rw [List.foldl_append, List.foldl_cons, List.foldl_nil]
    exact step as _ a ih

section

variable {σ : Type u} {α : Type v} {f : σ → α → σ} {enabled : σ → α → Bool} {I : σ → Prop}
  {todo : σ → Nat}

/-- How many actions of a run were enabled when their time came. -/
def effective (f : σ → α → σ) (enabled : σ → α → Bool) (s : σ) : List α → Nat
  | [] => 0
  | a :: as => (if enabled s a then 1 else 0) + effective f enabled (f s a) as

/-- The measure rule: if an enabled action does one piece of the work and any other does
nothing, the work is bounded by what there is to do, in any order. -/
theorem effective_add_todo (keep : ∀ s a, I s → I (f s a))
    (idle : ∀ s a, I s → enabled s a = false → f s a = s)
    (move : ∀ s a, I s → enabled s a = true → todo (f s a) + 1 = todo s) {s : σ} (h : I s)
    (as : List α) : effective f enabled s as + todo (as.foldl f s) = todo s := by
  induction as generalizing s with
  | nil => exact Nat.zero_add _
  | cons a as ih =>
    have hrest := ih (keep s a h)
    rw [effective, List.foldl_cons]
    cases he : enabled s a with
    | true =>
      have hmove := move s a h he
      simp only [if_pos]
      omega
    | false =>
      rw [idle s a h he] at hrest ⊢
      simp only [Bool.false_eq_true, if_false]
      omega

end

/-- What holds at every place of a list holds at its head and at every place behind it. -/
theorem forall_split_cons {α : Type v} {P : List α → α → Prop} {x : α} {xs : List α} :
    (∀ pre a post, x :: xs = pre ++ a :: post → P pre a) ↔
      P [] x ∧ ∀ pre a post, xs = pre ++ a :: post → P (x :: pre) a := by
  constructor
  · intro h
    refine ⟨h [] x xs rfl, fun pre a post he ↦ h (x :: pre) a post ?_⟩
    rw [he, List.cons_append]
  · rintro ⟨hx, hxs⟩ pre a post he
    cases pre with
    | nil =>
      obtain ⟨rfl, -⟩ := List.cons.inj he
      exact hx
    | cons y pre =>
      obtain ⟨rfl, hrest⟩ := List.cons.inj he
      exact hxs pre a post hrest

end Ubx.Base
