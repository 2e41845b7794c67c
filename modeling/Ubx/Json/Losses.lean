import Ubx.Base.Machine
import Ubx.Json.Building

/-!
# What programs leave behind

Members of a value are dumped in place. Programs that run one after the other lose
references, each to values that it has made itself. So what they lose adds up, and every
program that loses anything leaves a value of its own behind.
-/

namespace Ubx.Json

open Ubx.Base

/-! ### Dumping a member -/

/-- A member is not deeper than its object. -/
theorem depth_lookup_le {key : Bytes} {v : Json} {ms : List (Bytes × Json)}
    (h : Json.lookup key ms = some v) : depth v ≤ depthMembers ms := by
  induction ms with
  | nil => exact absurd h (by simp [Json.lookup])
  | cons m ms ih =>
    obtain ⟨k, w⟩ := m
    rw [Json.lookup] at h
    rw [depthMembers]
    split at h
    · obtain rfl := Option.some.inj h
      exact Nat.le_max_left _ _
    · exact (ih h).trans (Nat.le_max_right _ _)

/-- So a member of any value is not deeper than the value. -/
theorem depth_objectGet_le {key : Bytes} {v w : Json} (h : v.objectGet key = some w) :
    depth w ≤ depth v := by
  obtain ⟨ms, rfl, hw⟩ := Json.objectGet_eq_some h
  have hle := depth_lookup_le hw
  rw [depth]
  omega

/-- `json_dumps` of a pointer: NULL gives NULL. -/
def jsonDumpsOpt (J : Jansson) : Option Ptr → HeapM (Option Bytes)
  | none => pure none
  | some p => do
    let t ← jsonDumps J p
    pure (some t)

/-- `json_dumps(json_object_get(o, key), JSON_ENCODE_ANY)`. -/
def jsonDumpsMember (J : Jansson) (o : Ptr) (key : Bytes) : HeapM (Option Bytes) := do
  let p ← jsonObjectGet o key
  jsonDumpsOpt J p

section

variable {start n : Nat} {h : Heap} {held : List Nat} {opens : List (Nat × List (Bytes × Json))}
  {vals : List (Json × Ptr)} {v : Json} {p : Ptr}

/-- A finished value can be read, and no part of it is deeper than the heap. -/
theorem Balance.reads (hb : Balance start n h held opens vals) (hv : (v, p) ∈ vals) :
    Reads h v p ∧ depth v ≤ h.cells.length ∧ ∃ held', Counted h held' := by
  obtain ⟨held', hb'⟩ := hb.building
  obtain ⟨-, hdepth, -⟩ := hb'.of_mem hv
  exact ⟨hb'.reads hv, by omega, held', hb'.counted⟩

/-- `json_dumps` of a value that can be read. -/
theorem Reads.dumps (hr : Reads h v p) (hc : Counted h held) (hd : depth v ≤ h.cells.length)
    (J : Jansson) : Ensures (jsonDumps J p) h fun t h' ↦ t = J.dumps v ∧ h = h' := by
  have hread := readValue_eq hc hr.held hr.live hd
  exact ⟨_, _, by simp only [jsonDumps, hread, Option.map_some], rfl, rfl⟩

/-- What is decoded is an array or an object, so a counted value. -/
theorem exists_cell {J : Jansson} (hJ : J.Documented) {text : Bytes} (hm : J.loads text = some v)
    (hr : Reads h v p) : ∃ r, p = .cell r := by
  have hdoc := (hJ.loads_wf _ _ hm).2
  cases v with
  | array _ | object _ =>
    obtain ⟨r, ps, rfl, -⟩ := hr.held
    exact ⟨r, rfl⟩
  | null | bool _ | integer _ | real _ | string _ => cases hdoc

/-- A member of a finished value, or NULL where the value model has none. -/
theorem Balance.member (hb : Balance start n h held opens vals) (hv : (v, p) ∈ vals)
    (key : Bytes) :
    Ensures (jsonObjectGet p key) h fun o h' ↦
      Option.Rel (Reads h) (v.objectGet key) o ∧ h = h' := by
  obtain ⟨hr, -, held', hc⟩ := hb.reads hv
  exact hr.objectGet hc key

/-- The text of a member. -/
theorem Balance.dumpsMember (hb : Balance start n h held opens vals) (hv : (v, p) ∈ vals)
    (J : Jansson) (key : Bytes) :
    Ensures (jsonDumpsMember J p key) h fun t h' ↦
      t = J.jsonDumps (v.objectGet key) ∧ h = h' := by
  obtain ⟨-, hdepth, held', hc⟩ := hb.reads hv
  apply (hb.member hv key).bind
  rintro o _ ⟨ho, rfl⟩
  cases hw : v.objectGet key with
  | none =>
    rw [hw] at ho
    cases ho
    exact .pure ⟨rfl, rfl⟩
  | some w =>
    rw [hw] at ho
    cases ho with
    | some hread =>
      have hle := depth_objectGet_le hw
      apply (hread.dumps hc (by omega) J).bind
      rintro _ _ ⟨rfl, rfl⟩
      exact .pure ⟨rfl, rfl⟩

end

/-! ### One program after the other -/

/-- After programs that started on the heap `h₀`, have lost `n` references to values made
since, and of which `k` have lost any: each of these has left a value of its own. -/
structure Lost (h₀ : Heap) (n k : Nat) (h : Heap) (held : List Nat) : Prop where
  grown : h₀.cells.length ≤ h.cells.length
  lost : ∃ lost, lost.length = n ∧ (∀ q ∈ lost, h₀.cells.length ≤ q) ∧
    Counted h (lost ++ held) ∧ ∃ left, left ⊆ lost ∧ left.Nodup ∧ left.length = k

/-- Where programs that lose nothing make nothing either. -/
structure Leaks (h₀ : Heap) (n k : Nat) (h : Heap) (held : List Nat) : Prop
    extends Lost h₀ n k h held where
  unchanged : n = 0 → h = h₀

section

variable {h₀ h : Heap} {n k m : Nat} {held : List Nat}

/-- Nothing is lost before the first program. -/
theorem Leaks.begin (hc : Counted h held) : Leaks h 0 0 h held where
  grown := Nat.le_refl _
  lost := ⟨[], rfl, by simp, hc, [], List.nil_subset _, .nil, rfl⟩
  unchanged _ := rfl

/-- One more program, which loses `m` references. -/
theorem Lost.next {α : Type} {x : HeapM α} {Q : α → Heap → Prop} (hl : Lost h₀ n k h held)
    (hx : ∀ held, Counted h held → Ensures x h fun a h' ↦ Q a h' ∧
      Balance h.cells.length m h' held [] []) :
    Ensures x h fun a h' ↦ Q a h' ∧ Lost h₀ (n + m) (k + min m 1) h' held := by
  obtain ⟨hgrown, ⟨lost, hn, hlost, hc, left, hsub, hnodup, hk⟩⟩ := hl
  apply (hx (lost ++ held) hc).mono
  rintro a h' ⟨hQ, fresh, hm, hfresh, hb⟩
  refine ⟨hQ, hgrown.trans hb.start_le, fresh ++ lost, ?_, ?_, ?_, ?_⟩
  · rw [List.length_append, hm, hn, Nat.add_comm]
  · exact List.forall_mem_append.mpr ⟨fun q hq ↦ hgrown.trans (hfresh q hq), hlost⟩
  · rw [List.append_assoc]
    exact hb.counted
  · cases fresh with
    | nil =>
      obtain rfl : m = 0 := hm.symm
      exact ⟨left, hsub, hnodup, hk⟩
    | cons q fresh =>
      have hmin : min m 1 = 1 := by
        rw [← hm, List.length_cons]
        omega
      refine ⟨q :: left, ?_, List.nodup_cons.mpr ⟨?_, hnodup⟩, ?_⟩
      · apply List.cons_subset.mpr
        exact ⟨by simp, fun r hr ↦ List.mem_append_right _ (hsub hr)⟩
      · -- what was left before is no new cell
        intro hq
        have hlive := hc.pos_of_held (List.mem_append_left held (hsub hq))
        rw [RefHeap.refCount_of_le (hfresh q List.mem_cons_self)] at hlive
        exact Nat.lt_irrefl 0 hlive
      · rw [List.length_cons, hk, hmin]

/-- One more program, which leaves the heap as it is if it loses no reference. -/
theorem Leaks.next {α : Type} {x : HeapM α} {Q : α → Prop} (hl : Leaks h₀ n k h held)
    (hx : ∀ held, Counted h held → Ensures x h fun a h' ↦ Q a ∧
      Balance h.cells.length m h' held [] [] ∧ (m = 0 → h' = h)) :
    Ensures x h fun a h' ↦ Q a ∧ Leaks h₀ (n + m) (k + min m 1) h' held := by
  have hnext : Ensures x h fun a h' ↦ (Q a ∧ (m = 0 → h' = h)) ∧
      Lost h₀ (n + m) (k + min m 1) h' held := by
    apply hl.toLost.next
    intro held hc
    apply (hx held hc).mono
    rintro a h' ⟨hQ, hb, hsame⟩
    exact ⟨⟨hQ, hsame⟩, hb⟩
  apply hnext.mono
  rintro a h' ⟨⟨hQ, hsame⟩, hlost⟩
  refine ⟨hQ, hlost, fun hz ↦ ?_⟩
  rw [hsame (by omega), hl.unchanged (by omega)]

/-- Everything that has been made is released exactly if no reference has been lost. -/
theorem Leaks.released_iff (hl : Leaks h₀ n k h held) : h₀.Released h ↔ n = 0 := by
  obtain ⟨lost, hn, hlost, hc, -⟩ := hl.lost
  constructor
  · intro hreleased
    by_contra hne
    obtain ⟨q, hq⟩ := List.exists_mem_of_length_pos (show 0 < lost.length by omega)
    have hlive := hc.pos_of_held (List.mem_append_left held hq)
    rw [hreleased q (hlost q hq)] at hlive
    exact Nat.lt_irrefl 0 hlive
  · intro hz r hr
    rw [hl.unchanged hz]
    exact RefHeap.refCount_of_le hr

end

/-! ### Machines whose steps are such programs -/

/-- Why such a machine stops: a value has been used after its release, or a fault of its own. -/
inductive HeapFault (ε : Type)
  | released
  | fault (e : ε)

section

variable {σ α ε : Type}

/-- The machine on a heap. -/
def heapMachine (step : σ → α → HeapM (Except ε σ)) : Machine (Heap × σ) α (HeapFault ε) where
  step s a :=
    match step s.2 a s.1 with
    | none => .error .released
    | some (.error e, _) => .error (.fault e)
    | some (.ok s', h') => .ok (h', s')

/-- If each step is that of a machine on values, so is each run: no value is used after its
release, and what is known of the heap at a state is known at the next one. -/
theorem heapMachine_agrees {M : Machine σ α ε} {step : σ → α → HeapM (Except ε σ)}
    {L : σ → Heap → Prop}
    (hstep : ∀ s a h, L s h → Ensures (step s a) h fun res h' ↦
      res = M.step s a ∧ ∀ s', res = .ok s' → L s' h')
    {s : σ} {h : Heap} (hl : L s h) (as : List α) :
    Agrees (fun s t ↦ t.2 = s ∧ L s t.1) HeapFault.fault (M.run s as)
      ((heapMachine step).run (h, s) as) := by
  apply Machine.run_agrees (t := (h, s)) _ ⟨rfl, hl⟩
  rintro s ⟨h, _⟩ a ⟨rfl, hl⟩
  obtain ⟨res, h', hres, heq, hl'⟩ := hstep _ a h hl
  simp only [heapMachine, hres, ← heq]
  cases res with
  | error e => exact .error e
  | ok s' => exact .ok ⟨rfl, hl' s' rfl⟩

end

end Ubx.Json
