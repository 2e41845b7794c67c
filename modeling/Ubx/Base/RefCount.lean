import Mathlib.Data.List.Count

/-!
# Reference counts

A heap of counted cells. Whoever holds a reference counts once, and so does every reference
in the content of a live cell. Giving up the last reference to a cell releases it, and gives
up the references in it. On a heap that is counted right every operation on a reference that
is held succeeds, and the heap stays counted right.
-/

namespace Ubx.Base

universe u

/-- A cell: its count, and its content. The cell is released when the count is zero. -/
structure Cell (ν : Type u) where
  count : Nat
  content : ν

/-- Cells in the order in which they were made; a reference is a position. -/
structure RefHeap (ν : Type u) where
  cells : List (Cell ν)

namespace RefHeap

variable {ν : Type u}

/-- The count of a reference, zero if there is no such cell. -/
def refCount (h : RefHeap ν) (r : Nat) : Nat := (h.cells[r]?).elim 0 Cell.count

/-- The contents, those of released cells included. -/
def contents (h : RefHeap ν) : List ν := h.cells.map Cell.content

/-- The sum of all counts. -/
def total (h : RefHeap ν) : Nat := h.cells.foldr (fun c n ↦ c.count + n) 0

/-- A new cell with one reference to it, whose position is the old number of cells. -/
def alloc (h : RefHeap ν) (x : ν) : RefHeap ν := ⟨h.cells ++ [⟨1, x⟩]⟩

/-- Read a cell; `none` if it has been released. -/
def deref (h : RefHeap ν) (r : Nat) : Option ν :=
  (h.cells[r]?).bind fun c ↦ if c.count = 0 then none else some c.content

/-- Write a cell. -/
def store (h : RefHeap ν) (r : Nat) (x : ν) : Option (RefHeap ν) :=
  (h.cells[r]?).bind fun c ↦
    if c.count = 0 then none else some ⟨h.cells.set r { c with content := x }⟩

/-- One more reference to a cell. -/
def incref (h : RefHeap ν) (r : Nat) : Option (RefHeap ν) :=
  (h.cells[r]?).bind fun c ↦
    if c.count = 0 then none else some ⟨h.cells.set r { c with count := c.count + 1 }⟩

/-- Give up the references `work`, and those in the cells that this releases. Each one takes
a count away, so `n` need not be more than their sum. -/
def release (kids : ν → List Nat) : Nat → List Nat → RefHeap ν → Option (RefHeap ν)
  | _, [], h => some h
  | 0, _ :: _, _ => none
  | n + 1, r :: work, h =>
    match h.cells[r]? with
    | none => none
    | some c =>
      if c.count = 0 then none
      else
        release kids n (if c.count = 1 then kids c.content ++ work else work)
          ⟨h.cells.set r { c with count := c.count - 1 }⟩

/-- One reference less to a cell. -/
def decref (kids : ν → List Nat) (h : RefHeap ν) (r : Nat) : Option (RefHeap ν) :=
  release kids h.total [r] h

/-- The references in live cells. -/
def links (kids : ν → List Nat) (h : RefHeap ν) : List Nat :=
  h.cells.flatMap fun c ↦ if c.count = 0 then [] else kids c.content

/-- Every count is the number of references `held` outside and in live cells. -/
def Counted (kids : ν → List Nat) (h : RefHeap ν) (held : List Nat) : Prop :=
  ∀ r, h.refCount r = held.count r + (h.links kids).count r

/-- There are as many contents as cells. -/
@[simp] theorem length_contents (h : RefHeap ν) : h.contents.length = h.cells.length :=
  List.length_map _

/-- The content of a new cell comes last. -/
@[simp] theorem contents_alloc (h : RefHeap ν) (x : ν) :
    (h.alloc x).contents = h.contents ++ [x] := by
  simp [contents, alloc]

/-- Old contents stay in front of it. -/
theorem contents_prefix_alloc (h : RefHeap ν) (x : ν) : h.contents <+: (h.alloc x).contents := by
  rw [contents_alloc]
  exact List.prefix_append _ _

/-- Where contents have only been added, so have cells. -/
theorem length_le_of_prefix {h h' : RefHeap ν} (hp : h.contents <+: h'.contents) :
    h.cells.length ≤ h'.cells.length := by
  have hlen := hp.length_le
  rwa [length_contents, length_contents] at hlen

/-- Every cell made since has been released. -/
def Released (h h' : RefHeap ν) : Prop := ∀ r, h.cells.length ≤ r → h'.refCount r = 0

/-! ### Replacing one cell -/

section

variable {h : RefHeap ν} {r : Nat} {c c' : Cell ν}

/-- The counts after replacing a cell. -/
theorem refCount_set (hc : h.cells[r]? = some c) (q : Nat) :
    RefHeap.refCount ⟨h.cells.set r c'⟩ q = if q = r then c'.count else h.refCount q := by
  have hlt : r < h.cells.length := (List.getElem?_eq_some_iff.mp hc).1
  rw [refCount, refCount, List.getElem?_set]
  by_cases hq : r = q
  · subst hq
    simp [hlt]
  · rw [if_neg hq, if_neg (Ne.symm hq)]

private theorem count_flatMap_set {α : Type u} (f : α → List Nat) {l : List α} {a : α}
    (ha : l[r]? = some a) (b : α) (q : Nat) :
    ((l.set r b).flatMap f).count q + (f a).count q = (l.flatMap f).count q + (f b).count q := by
  induction l generalizing r with
  | nil => simp at ha
  | cons x l ih =>
    cases r with
    | zero =>
      obtain rfl := Option.some.inj ha
      simp only [List.set_cons_zero, List.flatMap_cons, List.count_append]
      omega
    | succ r =>
      have hl := ih (r := r) (by simpa using ha)
      simp only [List.set_cons_succ, List.flatMap_cons, List.count_append]
      omega

/-- The links after replacing a cell: those of the new cell for those of the old one. -/
theorem count_links_set (kids : ν → List Nat) (hc : h.cells[r]? = some c) (c' : Cell ν) (q : Nat) :
    (links kids ⟨h.cells.set r c'⟩).count q +
        (if c.count = 0 then [] else kids c.content).count q =
      (links kids h).count q + (if c'.count = 0 then [] else kids c'.content).count q :=
  count_flatMap_set _ hc c' q

/-- The sum of the counts after taking one away. -/
theorem total_set (hc : h.cells[r]? = some c) (hpos : c.count ≠ 0) :
    total ⟨h.cells.set r { c with count := c.count - 1 }⟩ + 1 = h.total := by
  obtain ⟨cells⟩ := h
  simp only [total]
  simp only at hc
  induction cells generalizing r with
  | nil => simp at hc
  | cons x cells ih =>
    cases r with
    | zero =>
      obtain rfl := Option.some.inj hc
      simp only [List.set_cons_zero, List.foldr_cons]
      omega
    | succ r =>
      have hl := ih (r := r) (by simpa using hc)
      simp only [List.set_cons_succ, List.foldr_cons]
      omega

/-- Contents are not touched by a change of counts. -/
theorem contents_set_count (hc : h.cells[r]? = some c) (n : Nat) :
    contents ⟨h.cells.set r { c with count := n }⟩ = h.contents := by
  obtain ⟨hlt, rfl⟩ := List.getElem?_eq_some_iff.mp hc
  rw [contents, contents, List.map_set]
  apply List.ext_getElem
  · simp
  · intro q hq hq'
    by_cases he : r = q
    · subst he
      simp
    · simp [he]

end

/-! ### Cells that are live -/

section

variable {kids : ν → List Nat} {h : RefHeap ν} {held : List Nat} {r : Nat} {x : ν}

/-- A live cell is there. -/
theorem exists_of_pos (hr : 0 < h.refCount r) :
    ∃ c, h.cells[r]? = some c ∧ c.count ≠ 0 ∧ c.count = h.refCount r := by
  rw [refCount] at hr ⊢
  cases hc : h.cells[r]? with
  | none => simp [hc] at hr
  | some c =>
    simp only [hc, Option.elim_some] at hr ⊢
    exact ⟨c, rfl, by omega, rfl⟩

/-- What is read from a live cell is its content. -/
theorem deref_eq_some_iff : h.deref r = some x ↔ 0 < h.refCount r ∧ h.contents[r]? = some x := by
  rw [deref, refCount, contents, List.getElem?_map]
  cases hc : h.cells[r]? with
  | none => simp
  | some c =>
    by_cases hz : c.count = 0
    · simp [hz]
    · simp [hz, Nat.pos_of_ne_zero hz]

/-- Reading succeeds on live cells only. -/
theorem exists_of_deref (hr : h.deref r = some x) :
    ∃ c, h.cells[r]? = some c ∧ c.count ≠ 0 ∧ c.content = x := by
  rw [deref] at hr
  obtain ⟨c, hcell, hcontent⟩ := Option.bind_eq_some_iff.mp hr
  split at hcontent
  · exact absurd hcontent (by simp)
  · next hz => exact ⟨c, hcell, hz, Option.some.inj hcontent⟩

/-- There is nothing behind the last cell. -/
theorem refCount_of_le (hr : h.cells.length ≤ r) : h.refCount r = 0 := by
  rw [refCount, List.getElem?_eq_none hr]
  rfl

/-- A reference that is held is live. -/
theorem Counted.pos_of_held (hc : Counted kids h held) (hr : r ∈ held) : 0 < h.refCount r := by
  have hpos := List.count_pos_iff.mpr hr
  rw [hc r]
  omega

/-- So is one in a live cell. -/
theorem Counted.pos_of_kid (hc : Counted kids h held) (hr : h.deref r = some x) {q : Nat}
    (hq : q ∈ kids x) : 0 < h.refCount q := by
  have hmem : q ∈ h.links kids := by
    obtain ⟨c, hcell, hz, rfl⟩ := exists_of_deref hr
    apply List.mem_flatMap.mpr
    exact ⟨c, List.mem_of_getElem? hcell, by rwa [if_neg hz]⟩
  have hpos := List.count_pos_iff.mpr hmem
  rw [hc q]
  omega

/-- Only the number of times that a reference is held matters. -/
theorem Counted.of_count_eq {held' : List Nat} (hc : Counted kids h held)
    (heq : ∀ q, held'.count q = held.count q) : Counted kids h held' := by
  intro q
  rw [hc q, heq q]

/-- The order does not matter. -/
theorem Counted.perm {held' : List Nat} (hc : Counted kids h held) (hp : held'.Perm held) :
    Counted kids h held' := hc.of_count_eq hp.count_eq

/-! ### The operations -/

/-- A new cell takes over references that were held, and is held itself. -/
theorem Counted.alloc (came : List Nat) (hc : Counted kids h (came ++ held))
    (hx : ∀ q, (kids x).count q = came.count q) :
    Counted kids (h.alloc x) (h.cells.length :: held) := by
  intro q
  have hq := hc q
  have hlinks : links kids (h.alloc x) = h.links kids ++ kids x := by
    simp [links, RefHeap.alloc]
  rw [hlinks, List.count_append, hx q, List.count_cons]
  rw [List.count_append] at hq
  by_cases he : h.cells.length = q
  · subst he
    have hzero := refCount_of_le (h := h) (Nat.le_refl h.cells.length)
    have hone : (h.alloc x).refCount h.cells.length = 1 := by simp [refCount, RefHeap.alloc]
    rw [hone, beq_self_eq_true, if_pos rfl]
    omega
  · have hsame : (h.alloc x).refCount q = h.refCount q := by
      simp only [refCount, RefHeap.alloc, List.getElem?_append]
      split
      · rfl
      · next hge =>
        rw [List.getElem?_eq_none (by simp; omega), List.getElem?_eq_none (by omega)]
    rw [hsame, if_neg (by simpa using he)]
    omega

/-- One more reference to a live cell is one more that is held. -/
theorem Counted.incref (hc : Counted kids h held) (hr : 0 < h.refCount r) :
    ∃ h', h.incref r = some h' ∧ Counted kids h' (r :: held) ∧ h'.contents = h.contents := by
  obtain ⟨c, hcell, hz, hcount⟩ := exists_of_pos hr
  refine ⟨_, by rw [RefHeap.incref, hcell, Option.bind_some, if_neg hz], ?_,
    contents_set_count hcell _⟩
  intro q
  have hlinks := count_links_set kids hcell { c with count := c.count + 1 } q
  have hq := hc q
  rw [refCount_set hcell, List.count_cons]
  simp only [if_neg hz, Nat.succ_ne_zero, ↓reduceIte] at hlinks
  by_cases he : q = r
  · subst he
    simp only [↓reduceIte, beq_self_eq_true]
    omega
  · rw [if_neg he, if_neg (by simpa using Ne.symm he)]
    omega

/-- Writing a live cell: the references `came` go into it, those `gone` come out of it. -/
theorem Counted.store {came gone : List Nat} {y : ν} (hc : Counted kids h (came ++ held))
    (hr : h.deref r = some x)
    (hy : ∀ q, (kids y).count q + gone.count q = (kids x).count q + came.count q) :
    ∃ h', h.store r y = some h' ∧ Counted kids h' (gone ++ held) ∧
      h'.contents = h.contents.set r y := by
  obtain ⟨c, hcell, hz, rfl⟩ := exists_of_deref hr
  refine ⟨_, by rw [RefHeap.store, hcell, Option.bind_some, if_neg hz], ?_, ?_⟩
  · intro q
    have hlinks := count_links_set kids hcell { c with content := y } q
    have hq := hc q
    have hyq := hy q
    have hsame : (if q = r then c.count else h.refCount q) = h.refCount q := by
      split
      · next he => rw [he, refCount, hcell, Option.elim_some]
      · rfl
    rw [List.count_append] at hq
    rw [refCount_set hcell, hsame, List.count_append]
    simp only [if_neg hz] at hlinks
    omega
  · rw [contents, contents, List.map_set]

/-- Giving up references that are held succeeds, whatever it releases. -/
theorem Counted.release {n : Nat} (work : List Nat) (hc : Counted kids h (work ++ held))
    (hn : h.total ≤ n) :
    ∃ h', h.release kids n work = some h' ∧ Counted kids h' held ∧ h'.contents = h.contents := by
  induction n generalizing work h with
  | zero =>
    cases work with
    | nil => exact ⟨h, rfl, hc, rfl⟩
    | cons r work =>
      -- a reference that is held counts
      obtain ⟨c, hcell, hz, -⟩ := exists_of_pos (hc.pos_of_held (r := r) (by simp))
      have htotal := total_set hcell hz
      omega
  | succ n ih =>
    cases work with
    | nil => exact ⟨h, rfl, hc, rfl⟩
    | cons r work =>
      obtain ⟨c, hcell, hz, hcount⟩ := exists_of_pos (hc.pos_of_held (r := r) (by simp))
      have htotal := total_set hcell hz
      have hnext : Counted kids ⟨h.cells.set r { c with count := c.count - 1 }⟩
          ((if c.count = 1 then kids c.content ++ work else work) ++ held) := by
        intro q
        have hlinks := count_links_set kids hcell { c with count := c.count - 1 } q
        have hq := hc q
        rw [List.cons_append, List.count_cons] at hq
        rw [refCount_set hcell]
        dsimp only at hlinks ⊢
        rw [if_neg hz] at hlinks
        have hcounts : (if q = r then c.count - 1 else h.refCount q) +
            (if r == q then 1 else 0) = h.refCount q := by
          by_cases he : q = r
          · subst he
            rw [if_pos rfl, if_pos (by simp)]
            omega
          · rw [if_neg he, if_neg (by simpa using Ne.symm he)]
            omega
        by_cases hone : c.count = 1
        · have hlast : c.count - 1 = 0 := by omega
          rw [if_pos hlast, List.count_nil] at hlinks
          rw [if_pos hone, List.append_assoc, List.count_append]
          omega
        · have hmore : c.count - 1 ≠ 0 := by omega
          rw [if_neg hmore] at hlinks
          rw [if_neg hone]
          omega
      obtain ⟨h', hrel, hc', hcontents⟩ := ih _ hnext (by omega)
      refine ⟨h', ?_, hc', hcontents.trans (contents_set_count hcell _)⟩
      rw [RefHeap.release, hcell]
      simp only [if_neg hz, hrel]

/-- So does giving up one. -/
theorem Counted.decref (hc : Counted kids h (r :: held)) :
    ∃ h', h.decref kids r = some h' ∧ Counted kids h' held ∧ h'.contents = h.contents :=
  Counted.release [r] hc (Nat.le_refl _)

end

end RefHeap

/-! ### Programs that may fail -/

section

variable {σ α β : Type u} {x : StateT σ Option α} {s : σ}

/-- The program does not fail from this state, and ends as `Q` says. -/
def Ensures (x : StateT σ Option α) (s : σ) (Q : α → σ → Prop) : Prop :=
  ∃ a s', x s = some (a, s') ∧ Q a s'

/-- A program that only returns. -/
theorem Ensures.pure {a : α} {Q : α → σ → Prop} (h : Q a s) :
    Ensures (Pure.pure a : StateT σ Option α) s Q := ⟨a, s, rfl, h⟩

/-- One program after the other. -/
theorem Ensures.bind {f : α → StateT σ Option β} {Q : α → σ → Prop} {R : β → σ → Prop}
    (hx : Ensures x s Q) (hf : ∀ a s', Q a s' → Ensures (f a) s' R) :
    Ensures (x >>= f) s R := by
  obtain ⟨a, s', ha, hQ⟩ := hx
  obtain ⟨b, s'', hb, hR⟩ := hf a s' hQ
  refine ⟨b, s'', ?_, hR⟩
  change (x s).bind (fun p ↦ f p.1 p.2) = _
  rw [ha, Option.bind_some, hb]

/-- A weaker end. -/
theorem Ensures.mono {Q R : α → σ → Prop} (hx : Ensures x s Q) (h : ∀ a s', Q a s' → R a s') :
    Ensures x s R := by
  obtain ⟨a, s', ha, hQ⟩ := hx
  exact ⟨a, s', ha, h a s' hQ⟩

end

end Ubx.Base
