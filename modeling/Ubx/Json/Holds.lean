import Ubx.Json.Heap

/-!
# Values on a counted heap

A pointer stands for a JSON value by way of the cells under it. On a counted heap what a
reference that is in use stands for can be read, and the functions of the library that
create, set and look up members do on the heap what they do on values.
-/

namespace Ubx.Json

open Ubx.Base

mutual

/-- How many containers and other cells lie one in the other. -/
def depth : Json → Nat
  | .null | .bool _ => 0
  | .integer _ | .real _ | .string _ => 1
  | .array xs => depthItems xs + 1
  | .object ms => depthMembers ms + 1

/-- The greatest depth of an item. -/
def depthItems : List Json → Nat
  | [] => 0
  | x :: xs => max (depth x) (depthItems xs)

/-- The greatest depth of a member. -/
def depthMembers : List (Bytes × Json) → Nat
  | [] => 0
  | (_, v) :: ms => max (depth v) (depthMembers ms)

end

section

variable (P : Nat → Prop) (cs : List Node)

mutual

/-- A pointer stands for a value, by way of cells that satisfy `P`. -/
def Holds : Json → Ptr → Prop
  | .null, p => p = .null
  | .bool b, p => p = .bool b
  | .integer n, p => ∃ r, p = .cell r ∧ P r ∧ cs[r]? = some (.integer n)
  | .real x, p => ∃ r, p = .cell r ∧ P r ∧ cs[r]? = some (.real x)
  | .string s, p => ∃ r, p = .cell r ∧ P r ∧ cs[r]? = some (.string s)
  | .array xs, p => ∃ r ps, p = .cell r ∧ P r ∧ cs[r]? = some (.array ps) ∧ HoldsItems xs ps
  | .object ms, p => ∃ r ps, p = .cell r ∧ P r ∧ cs[r]? = some (.object ps) ∧ HoldsMembers ms ps

/-- Pointers stand for items. -/
def HoldsItems : List Json → List Ptr → Prop
  | [], ps => ps = []
  | x :: xs, ps => ∃ p ps', ps = p :: ps' ∧ Holds x p ∧ HoldsItems xs ps'

/-- Pointers stand for members. -/
def HoldsMembers : List (Bytes × Json) → List (Bytes × Ptr) → Prop
  | [], ps => ps = []
  | (k, v) :: ms, ps => ∃ p ps', ps = (k, p) :: ps' ∧ Holds v p ∧ HoldsMembers ms ps'

end

end

/-! ### What a heap holds -/

section

variable {P Q : Nat → Prop} {cs cs' : List Node}

mutual

/-- A value stays as long as its cells do. -/
theorem Holds.mono (h : ∀ r x, P r → cs[r]? = some x → Q r ∧ cs'[r]? = some x) :
    ∀ {v : Json} {p : Ptr}, Holds P cs v p → Holds Q cs' v p
  | .null, _, hv => hv
  | .bool _, _, hv => hv
  | .integer _, _, ⟨r, hp, hP, hr⟩ => ⟨r, hp, h r _ hP hr⟩
  | .real _, _, ⟨r, hp, hP, hr⟩ => ⟨r, hp, h r _ hP hr⟩
  | .string _, _, ⟨r, hp, hP, hr⟩ => ⟨r, hp, h r _ hP hr⟩
  | .array _, _, ⟨r, ps, hp, hP, hr, hxs⟩ =>
    ⟨r, ps, hp, (h r _ hP hr).1, (h r _ hP hr).2, HoldsItems.mono h hxs⟩
  | .object _, _, ⟨r, ps, hp, hP, hr, hms⟩ =>
    ⟨r, ps, hp, (h r _ hP hr).1, (h r _ hP hr).2, HoldsMembers.mono h hms⟩

/-- So do items. -/
theorem HoldsItems.mono (h : ∀ r x, P r → cs[r]? = some x → Q r ∧ cs'[r]? = some x) :
    ∀ {xs : List Json} {ps : List Ptr}, HoldsItems P cs xs ps → HoldsItems Q cs' xs ps
  | [], _, hxs => hxs
  | _ :: _, _, ⟨p, ps, hps, hx, hxs⟩ => ⟨p, ps, hps, Holds.mono h hx, HoldsItems.mono h hxs⟩

/-- So do members. -/
theorem HoldsMembers.mono (h : ∀ r x, P r → cs[r]? = some x → Q r ∧ cs'[r]? = some x) :
    ∀ {ms : List (Bytes × Json)} {ps : List (Bytes × Ptr)},
      HoldsMembers P cs ms ps → HoldsMembers Q cs' ms ps
  | [], _, hms => hms
  | (_, _) :: _, _, ⟨p, ps, hps, hv, hms⟩ =>
    ⟨p, ps, hps, Holds.mono h hv, HoldsMembers.mono h hms⟩

end

/-- The cell of a value is one of those it is held by. -/
theorem Holds.cell {v : Json} {r : Nat} (h : Holds P cs v (.cell r)) : P r := by
  cases v with
  | null | bool _ => cases h
  | integer _ | real _ | string _ =>
    obtain ⟨q, hq, hP, -⟩ := h
    cases hq
    exact hP
  | array _ | object _ =>
    obtain ⟨q, ps, hq, hP, -⟩ := h
    cases hq
    exact hP

mutual

/-- What is held by live references on a counted heap can be read. -/
theorem readValue_eq {h : Heap} {held : List Nat} (hc : Counted h held) :
    ∀ {v : Json} {p : Ptr} {n : Nat}, Holds P h.contents v p →
      (∀ r ∈ p.refs, 0 < h.refCount r) → depth v ≤ n → readValue h n p = some v
  | .null, p, n, hv, _, _ => by
    subst hv
    cases n <;> rfl
  | .bool _, p, n, hv, _, _ => by
    subst hv
    cases n <;> rfl
  | .integer _, _, n + 1, ⟨r, hp, _, hr⟩, hlive, _ => by
    subst hp
    have hread := RefHeap.deref_eq_some_iff.mpr ⟨hlive r (by simp [Ptr.refs]), hr⟩
    simp only [readValue, hread]
  | .real _, _, n + 1, ⟨r, hp, _, hr⟩, hlive, _ => by
    subst hp
    have hread := RefHeap.deref_eq_some_iff.mpr ⟨hlive r (by simp [Ptr.refs]), hr⟩
    simp only [readValue, hread]
  | .string _, _, n + 1, ⟨r, hp, _, hr⟩, hlive, _ => by
    subst hp
    have hread := RefHeap.deref_eq_some_iff.mpr ⟨hlive r (by simp [Ptr.refs]), hr⟩
    simp only [readValue, hread]
  | .array xs, _, n + 1, ⟨r, ps, hp, _, hr, hxs⟩, hlive, hn => by
    subst hp
    have hread := RefHeap.deref_eq_some_iff.mpr ⟨hlive r (by simp [Ptr.refs]), hr⟩
    have hkids : ∀ p ∈ ps, ∀ q ∈ p.refs, 0 < h.refCount q := fun p hp q hq ↦
      hc.pos_of_kid hread (List.mem_flatMap.mpr ⟨p, hp, hq⟩)
    have hitems := readItems_eq hc hxs hkids (Nat.le_of_succ_le_succ hn)
    simp only [readValue, hread, hitems, Option.map_some]
  | .object ms, _, n + 1, ⟨r, ps, hp, _, hr, hms⟩, hlive, hn => by
    subst hp
    have hread := RefHeap.deref_eq_some_iff.mpr ⟨hlive r (by simp [Ptr.refs]), hr⟩
    have hkids : ∀ m ∈ ps, ∀ q ∈ m.2.refs, 0 < h.refCount q := fun m hm q hq ↦
      hc.pos_of_kid hread (List.mem_flatMap.mpr ⟨m, hm, hq⟩)
    have hmembers := readMembers_eq hc hms hkids (Nat.le_of_succ_le_succ hn)
    simp only [readValue, hread, hmembers, Option.map_some]

/-- So can items. -/
theorem readItems_eq {h : Heap} {held : List Nat} (hc : Counted h held) :
    ∀ {xs : List Json} {ps : List Ptr} {n : Nat}, HoldsItems P h.contents xs ps →
      (∀ p ∈ ps, ∀ r ∈ p.refs, 0 < h.refCount r) → depthItems xs ≤ n →
      ps.mapM (readValue h n) = some xs
  | [], _, _, hps, _, _ => by
    subst hps
    rfl
  | _ :: _, _, _, ⟨p, ps, hps, hx, hxs⟩, hlive, hn => by
    subst hps
    rw [List.forall_mem_cons] at hlive
    rw [depthItems, Nat.max_le] at hn
    rw [List.mapM_cons, readValue_eq hc hx hlive.1 hn.1, readItems_eq hc hxs hlive.2 hn.2]
    rfl

/-- So can members. -/
theorem readMembers_eq {h : Heap} {held : List Nat} (hc : Counted h held) :
    ∀ {ms : List (Bytes × Json)} {ps : List (Bytes × Ptr)} {n : Nat},
      HoldsMembers P h.contents ms ps → (∀ m ∈ ps, ∀ r ∈ m.2.refs, 0 < h.refCount r) →
      depthMembers ms ≤ n →
      (ps.mapM fun m ↦ (readValue h n m.2).map fun v ↦ (m.1, v)) = some ms
  | [], _, _, hps, _, _ => by
    subst hps
    rfl
  | (_, _) :: _, _, _, ⟨p, ps, hps, hv, hms⟩, hlive, hn => by
    subst hps
    rw [List.forall_mem_cons] at hlive
    rw [depthMembers, Nat.max_le] at hn
    rw [List.mapM_cons, readValue_eq hc hv hlive.1 hn.1, readMembers_eq hc hms hlive.2 hn.2]
    rfl

end

end

/-! ### Values that the library creates -/

/-- Some references more are held, and what there was before is still there. -/
structure Grown (h : Heap) (held refs : List Nat) (n : Nat) (h' : Heap) : Prop where
  counted : Counted h' (refs ++ held)
  fresh : ∀ q ∈ refs, h.cells.length ≤ q
  kept : h.contents <+: h'.contents
  room : h.cells.length + n ≤ h'.cells.length

section

variable {P : Nat → Prop} {h h₁ h₂ : Heap} {held : List Nat}

/-- What is in a cell is there when cells are added. -/
theorem getElem?_of_prefix {cs cs' : List Node} (hp : cs <+: cs') {r : Nat} {x : Node}
    (hr : cs[r]? = some x) : cs'[r]? = some x := by
  obtain ⟨hlt, rfl⟩ := List.getElem?_eq_some_iff.mp hr
  exact List.prefix_iff_getElem?.mp hp r hlt

/-- Values stay when cells are added. -/
theorem Holds.of_prefix {cs cs' : List Node} (hp : cs <+: cs') {v : Json} {p : Ptr}
    (hv : Holds P cs v p) : Holds P cs' v p :=
  hv.mono fun _ _ hP hr ↦ ⟨hP, getElem?_of_prefix hp hr⟩

/-- One growth after the other. -/
theorem Grown.trans {refs₁ refs₂ : List Nat} {n₁ n₂ : Nat} (hg₁ : Grown h held refs₁ n₁ h₁)
    (hg₂ : Grown h₁ (refs₁ ++ held) refs₂ n₂ h₂) :
    Grown h held (refs₁ ++ refs₂) (max n₁ n₂) h₂ where
  counted := by
    apply hg₂.counted.perm
    rw [List.append_assoc]
    exact List.perm_append_comm_assoc refs₁ refs₂ held
  fresh q hq := by
    have hroom₁ := hg₁.room
    obtain hq | hq := List.mem_append.mp hq
    · exact hg₁.fresh q hq
    · have hfresh := hg₂.fresh q hq
      omega
  kept := hg₁.kept.trans hg₂.kept
  room := by
    have hroom₁ := hg₁.room
    have hroom₂ := hg₂.room
    have hlen := RefHeap.length_le_of_prefix hg₂.kept
    omega

/-- A container around what has grown. -/
theorem Grown.alloc {refs : List Nat} {n : Nat} {x : Node} (hg : Grown h held refs n h₁)
    (hx : x.kids = refs) : Grown h held [h₁.cells.length] (n + 1) (h₁.alloc x) where
  counted := hg.counted.alloc refs fun q ↦ by rw [hx]
  fresh q hq := by
    have hroom := hg.room
    rw [List.mem_singleton] at hq
    omega
  kept := hg.kept.trans (RefHeap.contents_prefix_alloc _ _)
  room := by
    have hroom := hg.room
    simp only [RefHeap.alloc, List.length_append, List.length_singleton]
    omega

/-- Nothing has grown. -/
theorem Grown.refl (hc : Counted h held) : Grown h held [] 0 h where
  counted := hc
  fresh := by simp
  kept := List.prefix_rfl
  room := Nat.le_refl _

mutual

/-- A value is created with one reference to it. -/
theorem build_spec : ∀ (v : Json) {h : Heap} {held : List Nat}, Counted h held →
    Grown h held (build v h).1.refs (depth v) (build v h).2 ∧
      Holds (fun _ ↦ True) (build v h).2.contents v (build v h).1
  | .null, _, _, hc => ⟨.refl hc, rfl⟩
  | .bool _, _, _, hc => ⟨.refl hc, rfl⟩
  | .integer _, _, _, hc => ⟨(Grown.refl hc).alloc rfl, _, rfl, trivial, by simp [build]⟩
  | .real _, _, _, hc => ⟨(Grown.refl hc).alloc rfl, _, rfl, trivial, by simp [build]⟩
  | .string _, _, _, hc => ⟨(Grown.refl hc).alloc rfl, _, rfl, trivial, by simp [build]⟩
  | .array xs, h, _, hc => by
    obtain ⟨hg, hxs⟩ := buildItems_spec xs hc
    refine ⟨hg.alloc rfl, _, _, rfl, trivial, ?_, hxs.mono fun r x hP hr ↦ ⟨hP, ?_⟩⟩
    · simp [build]
    · exact getElem?_of_prefix (RefHeap.contents_prefix_alloc _ _) hr
  | .object ms, h, _, hc => by
    obtain ⟨hg, hms⟩ := buildMembers_spec ms hc
    refine ⟨hg.alloc rfl, _, _, rfl, trivial, ?_, hms.mono fun r x hP hr ↦ ⟨hP, ?_⟩⟩
    · simp [build]
    · exact getElem?_of_prefix (RefHeap.contents_prefix_alloc _ _) hr

/-- So are items. -/
theorem buildItems_spec : ∀ (xs : List Json) {h : Heap} {held : List Nat}, Counted h held →
    Grown h held ((buildItems xs h).1.flatMap Ptr.refs) (depthItems xs) (buildItems xs h).2 ∧
      HoldsItems (fun _ ↦ True) (buildItems xs h).2.contents xs (buildItems xs h).1
  | [], _, _, hc => ⟨.refl hc, rfl⟩
  | x :: xs, _, _, hc => by
    obtain ⟨hg₁, hx⟩ := build_spec x hc
    obtain ⟨hg₂, hxs⟩ := buildItems_spec xs hg₁.counted
    exact ⟨hg₁.trans hg₂, _, _, rfl, hx.of_prefix hg₂.kept, hxs⟩

/-- So are members. -/
theorem buildMembers_spec : ∀ (ms : List (Bytes × Json)) {h : Heap} {held : List Nat},
    Counted h held →
    Grown h held ((buildMembers ms h).1.flatMap (·.2.refs)) (depthMembers ms)
        (buildMembers ms h).2 ∧
      HoldsMembers (fun _ ↦ True) (buildMembers ms h).2.contents ms (buildMembers ms h).1
  | [], _, _, hc => ⟨.refl hc, rfl⟩
  | (_, v) :: ms, _, _, hc => by
    obtain ⟨hg₁, hv⟩ := build_spec v hc
    obtain ⟨hg₂, hms⟩ := buildMembers_spec ms hg₁.counted
    exact ⟨hg₁.trans hg₂, _, _, rfl, hv.of_prefix hg₂.kept, hms⟩

end

end

/-! ### Setting a member -/

section

variable {P : Nat → Prop} {cs : List Node} {h : Heap} {held : List Nat}

/-- The reference that comes is the new one, and that of the old member goes. -/
theorem count_setMember (key : Bytes) (p : Ptr) (ps : List (Bytes × Ptr)) (q : Nat) :
    ((setMember key p ps).flatMap (·.2.refs)).count q +
        ((getMember key ps).elim [] Ptr.refs).count q =
      (ps.flatMap (·.2.refs)).count q + p.refs.count q := by
  induction ps with
  | nil => simp [setMember, getMember]
  | cons m ps ih =>
    obtain ⟨k, o⟩ := m
    rw [setMember, getMember]
    by_cases hk : k = key
    · simp only [if_pos hk, List.flatMap_cons, List.count_append, Option.elim_some]
      omega
    · simp only [if_neg hk, List.flatMap_cons, List.count_append]
      omega

/-- The new pointer is written to the object, and the old one is left over. -/
theorem storeNode_setMember {r : Nat} {ps : List (Bytes × Ptr)} {p : Ptr}
    (hc : Counted h (p.refs ++ held)) (hr : h.deref r = some (.object ps)) (key : Bytes) :
    Ensures (storeNode r (.object (setMember key p ps))) h fun _ h' ↦
      Counted h' ((getMember key ps).elim [] Ptr.refs ++ held) ∧
        h'.contents = h.contents.set r (.object (setMember key p ps)) := by
  have hcount : ∀ q, (Node.object (setMember key p ps)).kids.count q +
      ((getMember key ps).elim [] Ptr.refs).count q =
        (Node.object ps).kids.count q + p.refs.count q := count_setMember key p ps
  obtain ⟨h', heq, hc', hcs⟩ := hc.store hr hcount
  exact ⟨(), h', by simp only [storeNode, heq, Option.map_some], hc', hcs⟩

/-- The value of the object changes as the value model says. -/
theorem HoldsMembers.set {key : Bytes} {v : Json} {p : Ptr} (hv : Holds P cs v p) :
    ∀ {ms : List (Bytes × Json)} {ps : List (Bytes × Ptr)}, HoldsMembers P cs ms ps →
      HoldsMembers P cs (Json.insert key v ms) (setMember key p ps)
  | [], _, hms => by
    subst hms
    exact ⟨p, [], rfl, hv, rfl⟩
  | (k, w) :: ms, _, ⟨o, ps, hps, hw, hms⟩ => by
    subst hps
    rw [Json.insert, setMember]
    by_cases hk : k = key
    · rw [if_pos hk, if_pos hk]
      exact ⟨p, ps, rfl, hv, hms⟩
    · rw [if_neg hk, if_neg hk]
      exact ⟨o, _, rfl, hw, HoldsMembers.set hv hms⟩

/-- It is as deep as the deeper of the two. -/
theorem depthMembers_insert_le (key : Bytes) (v : Json) (ms : List (Bytes × Json)) :
    depthMembers (Json.insert key v ms) ≤ max (depthMembers ms) (depth v) := by
  induction ms with
  | nil => simp [Json.insert, depthMembers]
  | cons m ms ih =>
    obtain ⟨k, w⟩ := m
    rw [Json.insert]
    split
    · simp only [depthMembers]
      omega
    · simp only [depthMembers]
      omega

/-- `json_incref` of a value that is in use. -/
theorem jsonIncref_spec {p : Ptr} (hc : Counted h held) (hp : ∀ q ∈ p.refs, 0 < h.refCount q) :
    Ensures (jsonIncref p) h fun _ h' ↦
      Counted h' (p.refs ++ held) ∧ h'.contents = h.contents := by
  cases p with
  | null | bool _ => exact .pure ⟨hc, rfl⟩
  | cell r =>
    obtain ⟨h', heq, hc', hcs⟩ := hc.incref (hp r (by simp [Ptr.refs]))
    exact ⟨(), h', by simp only [jsonIncref, heq, Option.map_some], hc', hcs⟩

/-- `json_decref` of a value that is held, or of NULL. -/
theorem jsonDecref_spec {o : Option Ptr} (hc : Counted h (o.elim [] Ptr.refs ++ held)) :
    Ensures (jsonDecref o) h fun _ h' ↦ Counted h' held ∧ h'.contents = h.contents := by
  cases o with
  | none => exact .pure ⟨hc, rfl⟩
  | some p =>
    cases p with
    | null | bool _ => exact .pure ⟨hc, rfl⟩
    | cell r =>
      obtain ⟨h', heq, hc', hcs⟩ := RefHeap.Counted.decref hc
      exact ⟨(), h', by simp only [jsonDecref, heq, Option.map_some], hc', hcs⟩

end

/-! ### Reading -/

/-- A value that can be read through a pointer. -/
structure Reads (h : Heap) (v : Json) (p : Ptr) : Prop where
  held : Holds (fun _ ↦ True) h.contents v p
  live : ∀ q ∈ p.refs, 0 < h.refCount q

section

variable {h : Heap} {held : List Nat} {v : Json} {p : Ptr}

/-- What is in the cell of a value, if it has one. -/
def IsNode (h : Heap) : Json → Option Node → Prop
  | .null, x => x = none
  | .bool _, x => x = none
  | .integer n, x => x = some (.integer n)
  | .real y, x => x = some (.real y)
  | .string s, x => x = some (.string s)
  | .array xs, x => ∃ ps, x = some (.array ps) ∧ ps.length = xs.length
  | .object ms, x => ∃ ps, x = some (.object ps) ∧
      HoldsMembers (fun _ ↦ True) h.contents ms ps ∧ ∀ m ∈ ps, ∀ q ∈ m.2.refs, 0 < h.refCount q

/-- As many pointers as items. -/
theorem HoldsItems.length_eq {P : Nat → Prop} {cs : List Node} :
    ∀ {xs : List Json} {ps : List Ptr}, HoldsItems P cs xs ps → ps.length = xs.length
  | [], _, hxs => by
    subst hxs
    rfl
  | _ :: _, _, ⟨_, _, hps, _, hxs⟩ => by
    subst hps
    rw [List.length_cons, List.length_cons, hxs.length_eq]

/-- Looking at the cell. -/
theorem Reads.node (hr : Reads h v p) (hc : Counted h held) :
    Ensures (node p) h fun x h' ↦ IsNode h v x ∧ h = h' := by
  obtain ⟨hval, hlive⟩ := hr
  cases v with
  | null | bool _ =>
    subst hval
    exact .pure ⟨rfl, rfl⟩
  | integer _ | real _ | string _ =>
    obtain ⟨r, rfl, -, hr⟩ := hval
    have hread := RefHeap.deref_eq_some_iff.mpr ⟨hlive r (by simp [Ptr.refs]), hr⟩
    exact ⟨_, _, by simp only [Json.node, hread, Option.map_some], rfl, rfl⟩
  | array xs =>
    obtain ⟨r, ps, rfl, -, hr, hxs⟩ := hval
    have hread := RefHeap.deref_eq_some_iff.mpr ⟨hlive r (by simp [Ptr.refs]), hr⟩
    exact ⟨_, _, by simp only [Json.node, hread, Option.map_some], ⟨ps, rfl, hxs.length_eq⟩, rfl⟩
  | object ms =>
    obtain ⟨r, ps, rfl, -, hr, hms⟩ := hval
    have hread := RefHeap.deref_eq_some_iff.mpr ⟨hlive r (by simp [Ptr.refs]), hr⟩
    refine ⟨_, _, by simp only [Json.node, hread, Option.map_some], ⟨ps, rfl, hms, ?_⟩, rfl⟩
    intro m hm q hq
    exact hc.pos_of_kid hread (List.mem_flatMap.mpr ⟨m, hm, hq⟩)

/-- What is in the cell tells the kind of the value. -/
theorem IsNode.kind {x : Option Node} (hx : IsNode h v x) :
    Node.isArray x = v.isArray ∧ Node.isObject x = v.isObject ∧
      Node.stringValue x = v.stringValue := by
  cases v with
  | null | bool _ | integer _ | real _ | string _ =>
    subst hx
    exact ⟨rfl, rfl, rfl⟩
  | array _ | object _ =>
    obtain ⟨ps, rfl, -⟩ := hx
    exact ⟨rfl, rfl, rfl⟩

/-- A function that looks at the cell only. -/
theorem Reads.look {α : Type} {f : Option Node → α} {y : α} (hr : Reads h v p)
    (hc : Counted h held) (hf : ∀ x, IsNode h v x → f x = y) :
    Ensures (Json.node p >>= fun x ↦ pure (f x)) h fun z h' ↦ z = y ∧ h = h' := by
  apply (hr.node hc).bind
  rintro x _ ⟨hx, rfl⟩
  exact .pure ⟨hf x hx, rfl⟩

/-- `json_is_array`. -/
theorem Reads.isArray (hr : Reads h v p) (hc : Counted h held) :
    Ensures (jsonIsArray p) h fun y h' ↦ y = v.isArray ∧ h = h' :=
  hr.look hc fun _ hx ↦ hx.kind.1

/-- `json_is_object`. -/
theorem Reads.isObject (hr : Reads h v p) (hc : Counted h held) :
    Ensures (jsonIsObject p) h fun y h' ↦ y = v.isObject ∧ h = h' :=
  hr.look hc fun _ hx ↦ hx.kind.2.1

/-- `json_string_value`. -/
theorem Reads.stringValue (hr : Reads h v p) (hc : Counted h held) :
    Ensures (jsonStringValue (some p)) h fun y h' ↦ y = v.stringValue ∧ h = h' :=
  hr.look hc fun _ hx ↦ hx.kind.2.2

/-- `json_array_size` of an array. -/
theorem Reads.arraySize {xs : List Json} (hr : Reads h (.array xs) p) (hc : Counted h held) :
    Ensures (jsonArraySize p) h fun y h' ↦ y = xs.length ∧ h = h' := by
  apply hr.look hc
  rintro _ ⟨ps, rfl, hlen⟩
  exact hlen

/-- The member under a key is found where the value model finds it. -/
theorem HoldsMembers.get {P : Nat → Prop} {cs : List Node} (key : Bytes) :
    ∀ {ms : List (Bytes × Json)} {ps : List (Bytes × Ptr)}, HoldsMembers P cs ms ps →
      Option.Rel (Holds P cs) (Json.lookup key ms) (getMember key ps)
  | [], _, hms => by
    subst hms
    exact .none
  | (k, _) :: _, _, ⟨_, _, hps, hv, hms⟩ => by
    subst hps
    rw [Json.lookup, getMember]
    by_cases hk : k = key
    · rw [if_pos hk, if_pos hk]
      exact .some hv
    · rw [if_neg hk, if_neg hk]
      exact hms.get key

/-- A member is in the object. -/
theorem mem_of_getMember {key : Bytes} {ps : List (Bytes × Ptr)} (h : getMember key ps = some p) :
    ∃ m ∈ ps, m.2 = p := by
  induction ps with
  | nil => simp [getMember] at h
  | cons m ps ih =>
    obtain ⟨k, q⟩ := m
    rw [getMember] at h
    split at h
    · exact ⟨_, List.mem_cons_self, Option.some.inj h⟩
    · obtain ⟨m, hm, hmp⟩ := ih h
      exact ⟨m, List.mem_cons_of_mem _ hm, hmp⟩

/-- `json_object_get`: a member can be read as long as the object is there. -/
theorem Reads.objectGet (hr : Reads h v p) (hc : Counted h held) (key : Bytes) :
    Ensures (jsonObjectGet p key) h fun o h' ↦
      Option.Rel (Reads h) (v.objectGet key) o ∧ h = h' := by
  apply (hr.node hc).bind
  rintro x _ ⟨hx, rfl⟩
  cases v with
  | null | bool _ | integer _ | real _ | string _ =>
    subst hx
    exact .pure ⟨.none, rfl⟩
  | array _ =>
    obtain ⟨ps, rfl, -⟩ := hx
    exact .pure ⟨.none, rfl⟩
  | object ms =>
    obtain ⟨ps, rfl, hms, hlive⟩ := hx
    refine .pure ⟨?_, rfl⟩
    have hget := hms.get key
    rw [Json.objectGet]
    generalize Json.lookup key ms = w at hget ⊢
    cases hp : getMember key ps with
    | none =>
      rw [hp] at hget
      cases hget
      exact .none
    | some q =>
      rw [hp] at hget
      obtain ⟨m, hm, rfl⟩ := mem_of_getMember hp
      cases hget with
      | some hv => exact .some ⟨hv, hlive m hm⟩

end

end Ubx.Json
