import Ubx.Json.Losses

/-!
# Walking over the members of an object

`json_object_foreach` goes through an object by its positions, and looks at the object anew for
each. With `json_object_set` in its body, on an object under construction, it merges the one
object over the other.
-/

namespace Ubx.Json

open Ubx.Base

/-- Members of a value; nothing but an object has any. -/
def members : Json → List (Bytes × Json)
  | .object ms => ms
  | _ => []

/-- Members of what is in a cell. -/
def Node.members : Option Node → List (Bytes × Ptr)
  | some (.object ms) => ms
  | _ => []

/-- `json_object_size`: zero for NULL and for anything but an object. -/
def jsonObjectSize : Option Ptr → HeapM Nat
  | none => pure 0
  | some p => do
    let x ← node p
    pure (Node.members x).length

/-- Key and value of an iterator, which is a position. -/
def jsonObjectAt (o : Ptr) (i : Nat) : HeapM (Option (Bytes × Ptr)) := do
  let x ← node o
  pure (Node.members x)[i]?

/-- `json_object_foreach` over `source` with `json_object_set` on `o`, from a position on. -/
def setMembersFrom (o source : Ptr) : Nat → Nat → HeapM Unit
  | 0, _ => pure ()
  | k + 1, i => do
    let m ← jsonObjectAt source i
    match m with
    | none => pure ()
    | some (key, value) => do
      jsonObjectSet o key (some value)
      setMembersFrom o source k (i + 1)

section

variable {P : Nat → Prop} {cs : List Node} {start n : Nat} {h : Heap} {held : List Nat}
  {opens : List (Nat × List (Bytes × Json))} {vals : List (Json × Ptr)} {v : Json} {p : Ptr}
  {r : Nat} {ms ps : List (Bytes × Json)}

/-- Keys and values of an object are where the value model has them. -/
theorem HoldsMembers.getElem (i : Nat) :
    ∀ {ms : List (Bytes × Json)} {ps : List (Bytes × Ptr)}, HoldsMembers P cs ms ps →
      Option.Rel (fun m q ↦ m.1 = q.1 ∧ Holds P cs m.2 q.2) ms[i]? ps[i]?
  | [], _, hms => by
    subst hms
    exact .none
  | (k, v) :: ms, _, ⟨p, ps, hps, hv, hms⟩ => by
    subst hps
    cases i with
    | zero => exact .some ⟨rfl, hv⟩
    | succ i =>
      rw [List.getElem?_cons_succ, List.getElem?_cons_succ]
      exact hms.getElem i

/-- There are as many. -/
theorem HoldsMembers.length_eq :
    ∀ {ms : List (Bytes × Json)} {ps : List (Bytes × Ptr)}, HoldsMembers P cs ms ps →
      ps.length = ms.length
  | [], _, hms => by
    subst hms
    rfl
  | (_, _) :: _, _, ⟨_, _, hps, _, hms⟩ => by
    subst hps
    rw [List.length_cons, List.length_cons, hms.length_eq]

/-- `json_object_size` of a value that can be read. -/
theorem Reads.objectSize (hr : Reads h v p) (hc : Counted h held) :
    Ensures (jsonObjectSize (some p)) h fun y h' ↦ y = v.members.length ∧ h = h' := by
  apply hr.look hc
  intro x hx
  cases v with
  | object _ =>
    obtain ⟨ps, rfl, hms, -⟩ := hx
    exact hms.length_eq
  | array _ =>
    obtain ⟨ps, rfl, -⟩ := hx
    rfl
  | null | bool _ | integer _ | real _ | string _ =>
    subst hx
    rfl

/-- A member is not deeper than its object. -/
theorem depth_le_of_mem {m : Bytes × Json} (hm : m ∈ ms) : depth m.2 ≤ depthMembers ms := by
  induction ms with
  | nil => cases hm
  | cons m' ms ih =>
    obtain ⟨k, w⟩ := m'
    rw [depthMembers]
    obtain rfl | hm := List.mem_cons.mp hm
    · exact Nat.le_max_left _ _
    · exact (ih hm).trans (Nat.le_max_right _ _)

/-- A member of a finished object, at any position, can be set on the innermost object. -/
theorem Building.memberAt (hb : Building start h held ((r, ms) :: opens) vals)
    (hv : (.object ps, p) ∈ vals) (i : Nat) :
    Ensures (jsonObjectAt p i) h fun m h' ↦ h = h' ∧ Option.Rel (fun m q ↦ m.1 = q.1 ∧
      (∀ q' ∈ q.2.refs, 0 < h.refCount q') ∧ depth m.2 + (opens.length + 1) ≤ h.cells.length ∧
        Holds (· ∉ r :: opens.map Prod.fst) h.contents m.2 q.2) ps[i]? m := by
  obtain ⟨hrefs, hdepth, q, qs, rfl, -, hcell, hms⟩ := hb.of_mem hv
  have hlive := hb.counted.pos_of_held (hrefs q (by simp [Ptr.refs]))
  have hread : h.deref q = some (.object qs) := RefHeap.deref_eq_some_iff.mpr ⟨hlive, hcell⟩
  have hget := hms.getElem i
  refine ⟨qs[i]?, h, ?_, rfl, ?_⟩
  · show ((h.deref q).map fun x ↦ (some x, h)).bind _ = _
    rw [hread]
    rfl
  · cases hm : ps[i]? with
    | none =>
      rw [hm] at hget
      generalize qs[i]? = c at hget ⊢
      cases hget
      exact .none
    | some m =>
      rw [hm] at hget
      generalize hq : qs[i]? = c at hget ⊢
      cases hget with
      | @some _ c hmc =>
        have hmem := List.mem_of_getElem? hm
        have hle := depth_le_of_mem hmem
        rw [depth, List.length_cons] at hdepth
        refine .some ⟨hmc.1, fun q' hq' ↦ ?_, by omega, hmc.2⟩
        exact hb.counted.pos_of_kid hread
          (List.mem_flatMap.mpr ⟨c, List.mem_of_getElem? hq, hq'⟩)

/-- The walk merges what it walks over. -/
theorem Balance.setMembersFrom (hb : Balance start n h held ((r, ms) :: opens) vals)
    (hv : (.object ps, p) ∈ vals) (k i : Nat) :
    Ensures (setMembersFrom (.cell r) p k i) h fun _ h' ↦
      Balance start n h' held ((r, Json.merge ms ((ps.drop i).take k)) :: opens) vals := by
  induction k generalizing h ms i with
  | zero => exact .pure hb
  | succ k ih =>
    rw [Json.setMembersFrom]
    obtain ⟨lost, hn, hlost, hb'⟩ := id hb
    apply (hb'.memberAt hv i).bind
    rintro m _ ⟨rfl, hm⟩
    cases hi : ps[i]? with
    | none =>
      rw [hi] at hm
      cases hm
      rw [List.drop_eq_nil_of_le (List.getElem?_eq_none_iff.mp hi)]
      exact .pure hb
    | some w =>
      obtain ⟨key, value⟩ := w
      rw [hi] at hm
      cases hm with
      | @some _ c hc =>
        obtain ⟨rfl, hlive, hdepth, hval⟩ := hc
        have hset := hb'.setLive c.1 hlive hdepth hval
        apply hset.bind
        intro _ h₁ hb₁
        obtain ⟨hlt, heq⟩ := List.getElem?_eq_some_iff.mp hi
        rw [List.drop_eq_getElem_cons hlt, heq, List.take_succ_cons, Json.merge]
        exact ih ⟨lost, hn, hlost, hb₁⟩ (i + 1)

/-- The whole walk. -/
theorem Balance.setMembers (hb : Balance start n h held ((r, ms) :: opens) vals)
    (hv : (.object ps, p) ∈ vals) :
    Ensures (Json.setMembersFrom (.cell r) p ps.length 0) h fun _ h' ↦
      Balance start n h' held ((r, Json.merge ms ps) :: opens) vals := by
  have hwalk := hb.setMembersFrom hv ps.length 0
  rwa [List.drop_zero, List.take_length] at hwalk

end

end Ubx.Json
