import Ubx.Json.Holds

/-!
# Building values and keeping count

While objects are under construction their cells are written, so a finished value stays
what it is as long as none of them is under it. `Building` is what is known between two
calls of the library. `Balance` adds how many references have been lost, and each function
has one rule about it. None of them fails.
-/

namespace Ubx.Json

open Ubx.Base

/-! ### Objects under construction -/

/-- What is known between two calls: the references held, the objects under construction with
their members so far, the innermost first, and values that are finished. There were `start`
cells when the program began. -/
structure Building (start : Nat) (h : Heap) (held : List Nat)
    (opens : List (Nat × List (Bytes × Json))) (vals : List (Json × Ptr)) : Prop where
  counted : Counted h held
  start_le : start ≤ h.cells.length
  distinct : (opens.map Prod.fst).Nodup
  room : opens.length ≤ h.cells.length
  opened : ∀ o ∈ opens, o.1 ∈ held ∧ depthMembers o.2 + opens.length ≤ h.cells.length ∧
    ∃ ps, h.contents[o.1]? = some (.object ps) ∧
      HoldsMembers (· ∉ opens.map Prod.fst) h.contents o.2 ps
  finished : ∀ v ∈ vals, (∀ q ∈ v.2.refs, q ∈ held) ∧
    depth v.1 + opens.length ≤ h.cells.length ∧
    Holds (· ∉ opens.map Prod.fst) h.contents v.1 v.2

section

variable {start : Nat} {h h' : Heap} {held held' : List Nat}
  {opens : List (Nat × List (Bytes × Json))} {vals : List (Json × Ptr)} {v : Json} {p : Ptr}

/-- A program begins with nothing of its own. -/
theorem Building.begin (hc : Counted h held) : Building h.cells.length h held [] [] where
  counted := hc
  start_le := Nat.le_refl _
  distinct := .nil
  room := Nat.zero_le _
  opened := by simp
  finished := by simp

/-- More cells and references do no harm. -/
theorem Building.grow (hb : Building start h held opens vals) (hc : Counted h' held')
    (hheld : held ⊆ held') (hp : h.contents <+: h'.contents) :
    Building start h' held' opens vals := by
  have hlen := RefHeap.length_le_of_prefix hp
  have hstart := hb.start_le
  have hroom := hb.room
  refine ⟨hc, by omega, hb.distinct, by omega, fun o ho ↦ ?_, fun v hv ↦ ?_⟩
  · obtain ⟨hmem, hdepth, ps, hps, hms⟩ := hb.opened o ho
    exact ⟨hheld hmem, by omega, ps, getElem?_of_prefix hp hps,
      hms.mono fun _ _ hP hr ↦ ⟨hP, getElem?_of_prefix hp hr⟩⟩
  · obtain ⟨hrefs, hdepth, hval⟩ := hb.finished v hv
    exact ⟨fun q hq ↦ hheld (hrefs q hq), by omega, hval.of_prefix hp⟩

/-- Another order of the references. -/
theorem Building.perm (hb : Building start h held opens vals) (hp : held'.Perm held) :
    Building start h held' opens vals :=
  hb.grow (hb.counted.perm hp) hp.symm.subset List.prefix_rfl

/-- One more finished value. -/
theorem Building.finish (hb : Building start h held opens vals)
    (hrefs : ∀ q ∈ p.refs, q ∈ held) (hdepth : depth v + opens.length ≤ h.cells.length)
    (hv : Holds (· ∉ opens.map Prod.fst) h.contents v p) :
    Building start h held opens ((v, p) :: vals) where
  counted := hb.counted
  start_le := hb.start_le
  distinct := hb.distinct
  room := hb.room
  opened := hb.opened
  finished := List.forall_mem_cons.mpr ⟨⟨hrefs, hdepth, hv⟩, hb.finished⟩

/-- A finished value is no longer of use. -/
theorem Building.drop (hb : Building start h held opens ((v, p) :: vals)) :
    Building start h held opens vals where
  counted := hb.counted
  start_le := hb.start_le
  distinct := hb.distinct
  room := hb.room
  opened := hb.opened
  finished := (List.forall_mem_cons.mp hb.finished).2

/-- An object under construction has its cell. -/
theorem Building.lt_of_open (hb : Building start h held opens vals) {r : Nat}
    (hr : r ∈ opens.map Prod.fst) : r < h.cells.length := by
  obtain ⟨o, ho, rfl⟩ := List.mem_map.mp hr
  obtain ⟨-, -, ps, hps, -⟩ := hb.opened o ho
  rw [← RefHeap.length_contents]
  exact (List.getElem?_eq_some_iff.mp hps).1

/-- A new value that holds no other. -/
theorem Building.make (hb : Building start h held opens vals) {x : Node} (hx : x.kids = [])
    (hd : depth v ≤ 1)
    (hv : ∀ (P : Nat → Prop) cs r, P r → cs[r]? = some x → Holds P cs v (.cell r)) :
    Ensures (make x) h fun p h' ↦ ∃ r, p = .cell r ∧ start ≤ r ∧
      Building start h' (r :: held) opens ((v, p) :: vals) := by
  have hroom := hb.room
  have hgrown := hb.grow (hb.counted.alloc [] fun q ↦ by rw [hx])
    (List.subset_cons_self _ _) (RefHeap.contents_prefix_alloc h x)
  refine ⟨_, _, rfl, _, rfl, hb.start_le, hgrown.finish (by simp [Ptr.refs]) ?_ ?_⟩
  · simp only [RefHeap.alloc, List.length_append, List.length_singleton]
    omega
  · apply hv
    · intro hmem
      exact absurd (hb.lt_of_open hmem) (Nat.lt_irrefl _)
    · simp

/-- `json_object`: one more object under construction. -/
theorem Building.object (hb : Building start h held opens vals) :
    Ensures jsonObject h fun p h' ↦ ∃ r, p = .cell r ∧ start ≤ r ∧
      Building start h' (r :: held) ((r, []) :: opens) vals := by
  have hroom := hb.room
  have hstart := hb.start_le
  have hfresh : h.cells.length ∉ opens.map Prod.fst := fun hmem ↦
    absurd (hb.lt_of_open hmem) (Nat.lt_irrefl _)
  have hlen : (h.alloc (.object [])).cells.length = h.cells.length + 1 := by simp [RefHeap.alloc]
  -- what was there is not the new cell
  have hkeep : ∀ r x, r ∉ opens.map Prod.fst → h.contents[r]? = some x →
      r ∉ h.cells.length :: opens.map Prod.fst ∧ (h.alloc (.object [])).contents[r]? = some x := by
    intro r x hr hx
    have hlt := (List.getElem?_eq_some_iff.mp hx).1
    rw [RefHeap.length_contents] at hlt
    refine ⟨?_, getElem?_of_prefix (RefHeap.contents_prefix_alloc h _) hx⟩
    rw [List.mem_cons, not_or]
    exact ⟨by omega, hr⟩
  refine ⟨_, _, rfl, _, rfl, hstart, ?_⟩
  constructor
  · exact hb.counted.alloc [] fun q ↦ rfl
  · omega
  · exact List.nodup_cons.mpr ⟨hfresh, hb.distinct⟩
  · rw [hlen, List.length_cons]
    omega
  · intro o ho
    obtain rfl | ho := List.mem_cons.mp ho
    · refine ⟨List.mem_cons_self, ?_, [], by simp, rfl⟩
      rw [hlen, List.length_cons, depthMembers]
      omega
    · obtain ⟨hmem, hdepth, ps, hps, hms⟩ := hb.opened o ho
      refine ⟨List.mem_cons_of_mem _ hmem, ?_, ps, ?_, hms.mono hkeep⟩
      · rw [hlen, List.length_cons]
        omega
      · exact getElem?_of_prefix (RefHeap.contents_prefix_alloc h _) hps
  · intro v hv
    obtain ⟨hrefs, hdepth, hval⟩ := hb.finished v hv
    refine ⟨fun q hq ↦ List.mem_cons_of_mem _ (hrefs q hq), ?_, hval.mono hkeep⟩
    rw [hlen, List.length_cons]
    omega

/-- What is known of a finished value. -/
theorem Building.of_mem (hb : Building start h held opens vals) (hv : (v, p) ∈ vals) :
    (∀ q ∈ p.refs, q ∈ held) ∧ depth v + opens.length ≤ h.cells.length ∧
      Holds (· ∉ opens.map Prod.fst) h.contents v p := hb.finished _ hv

/-- What is known of the innermost object. -/
theorem Building.innermost {r : Nat} {ms : List (Bytes × Json)}
    (hb : Building start h held ((r, ms) :: opens) vals) :
    r ∈ held ∧ depthMembers ms + (opens.length + 1) ≤ h.cells.length ∧
      ∃ ps, h.contents[r]? = some (.object ps) ∧
        HoldsMembers (· ∉ r :: opens.map Prod.fst) h.contents ms ps :=
  hb.opened _ List.mem_cons_self

/-- The innermost object is finished. -/
theorem Building.close {r : Nat} {ms : List (Bytes × Json)}
    (hb : Building start h held ((r, ms) :: opens) vals) :
    Building start h held opens ((.object ms, .cell r) :: vals) := by
  have hkeep : ∀ q x, q ∉ ((r, ms) :: opens).map Prod.fst → h.contents[q]? = some x →
      q ∉ opens.map Prod.fst ∧ h.contents[q]? = some x := by
    intro q x hq hx
    rw [List.map_cons, List.mem_cons, not_or] at hq
    exact ⟨hq.2, hx⟩
  have hroom := hb.room
  have hopened := List.forall_mem_cons.mp hb.opened
  have hdistinct := List.nodup_cons.mp hb.distinct
  rw [List.length_cons] at hroom
  have hrest : Building start h held opens vals := by
    refine ⟨hb.counted, hb.start_le, hdistinct.2, by omega, fun o ho ↦ ?_, fun v hv ↦ ?_⟩
    · obtain ⟨hmem, hdepth, ps, hps, hms⟩ := hopened.2 o ho
      rw [List.length_cons] at hdepth
      exact ⟨hmem, by omega, ps, hps, hms.mono hkeep⟩
    · obtain ⟨hrefs, hdepth, hval⟩ := hb.finished v hv
      rw [List.length_cons] at hdepth
      exact ⟨hrefs, by omega, hval.mono hkeep⟩
  obtain ⟨hmem, hdepth, ps, hps, hms⟩ := hb.innermost
  refine hrest.finish ?_ ?_ ⟨r, ps, rfl, hdistinct.1, hps, hms.mono hkeep⟩
  · simpa [Ptr.refs] using hmem
  · rw [depth]
    omega

end

section

variable {start : Nat} {h h' : Heap} {held : List Nat}
  {opens : List (Nat × List (Bytes × Json))} {vals : List (Json × Ptr)} {v : Json} {p : Ptr}
  {r : Nat} {ms ms' : List (Bytes × Json)}

/-- The innermost object has been written. -/
theorem Building.write (hb : Building start h held ((r, ms) :: opens) vals)
    (hc : Counted h' held) {ps : List (Bytes × Ptr)}
    (hcs : h'.contents = h.contents.set r (.object ps))
    (hps : HoldsMembers (· ∉ r :: opens.map Prod.fst) h.contents ms' ps)
    (hd : depthMembers ms' + (opens.length + 1) ≤ h.cells.length) :
    Building start h' held ((r, ms') :: opens) vals := by
  have hlen : h'.cells.length = h.cells.length := by
    rw [← RefHeap.length_contents, hcs, List.length_set, RefHeap.length_contents]
  have hkeep : ∀ q x, q ≠ r → h.contents[q]? = some x → h'.contents[q]? = some x := by
    intro q x hq hx
    rw [hcs, List.getElem?_set_ne (Ne.symm hq), hx]
  have hkeepAll : ∀ q x, q ∉ r :: opens.map Prod.fst → h.contents[q]? = some x →
      q ∉ r :: opens.map Prod.fst ∧ h'.contents[q]? = some x := by
    intro q x hq hx
    exact ⟨hq, hkeep q x (fun he ↦ hq (he ▸ List.mem_cons_self)) hx⟩
  have hdistinct := List.nodup_cons.mp hb.distinct
  have hlt : r < h.cells.length := hb.lt_of_open List.mem_cons_self
  refine ⟨hc, by rw [hlen]; exact hb.start_le, hb.distinct, by rw [hlen]; exact hb.room,
    fun o ho ↦ ?_, fun v hv ↦ ?_⟩
  · rw [hlen]
    obtain rfl | ho := List.mem_cons.mp ho
    · refine ⟨hb.innermost.1, hd, ps, ?_, hps.mono hkeepAll⟩
      rw [hcs, List.getElem?_set_self (by rwa [RefHeap.length_contents])]
    · obtain ⟨hmem, hdepth, ps', hps', hms⟩ := hb.opened o (List.mem_cons_of_mem _ ho)
      refine ⟨hmem, hdepth, ps', hkeep _ _ ?_ hps', hms.mono hkeepAll⟩
      intro he
      exact hdistinct.1 (List.mem_map.mpr ⟨o, ho, he⟩)
  · obtain ⟨hrefs, hdepth, hval⟩ := hb.finished v hv
    exact ⟨hrefs, by rwa [hlen], hval.mono hkeepAll⟩

/-- `json_object_set` on the innermost object, with a value that can be read. -/
theorem Building.setLive (hb : Building start h held ((r, ms) :: opens) vals) (key : Bytes)
    (hlive : ∀ q ∈ p.refs, 0 < h.refCount q)
    (hdepth : depth v + (opens.length + 1) ≤ h.cells.length)
    (hval : Holds (· ∉ r :: opens.map Prod.fst) h.contents v p) :
    Ensures (jsonObjectSet (.cell r) key (some p)) h fun _ h' ↦
      Building start h' held ((r, Json.insert key v ms) :: opens) vals := by
  obtain ⟨hmem, hdepth', ps, hps, hms⟩ := hb.innermost
  have hne : Ptr.cell r ≠ p := fun he ↦ (he ▸ hval).cell List.mem_cons_self
  apply (jsonIncref_spec hb.counted hlive).bind
  rintro _ h₁ ⟨hc₁, hcs₁⟩
  have hlive : 0 < h₁.refCount r := hc₁.pos_of_held (List.mem_append_right _ hmem)
  have hread : h₁.deref r = some (.object ps) :=
    RefHeap.deref_eq_some_iff.mpr ⟨hlive, by rwa [hcs₁]⟩
  have hnode : Ensures (node (.cell r)) h₁ fun x h₂ ↦ x = some (.object ps) ∧ h₁ = h₂ :=
    ⟨_, _, by simp only [node, hread, Option.map_some], rfl, rfl⟩
  apply hnode.bind
  rintro _ _ ⟨rfl, rfl⟩
  simp only [if_neg hne]
  apply (storeNode_setMember hc₁ hread key).bind
  rintro _ h₂ ⟨hc₂, hcs₂⟩
  apply (jsonDecref_spec hc₂).mono
  rintro _ h₃ ⟨hc₃, hcs₃⟩
  have hins := depthMembers_insert_le key v ms
  exact hb.write hc₃ (by rw [hcs₃, hcs₂, hcs₁]) (hms.set hval) (by omega)

/-- A finished value is one. -/
theorem Building.set (hb : Building start h held ((r, ms) :: opens) vals) (key : Bytes)
    (hv : (v, p) ∈ vals) :
    Ensures (jsonObjectSet (.cell r) key (some p)) h fun _ h' ↦
      Building start h' held ((r, Json.insert key v ms) :: opens) vals := by
  obtain ⟨hrefs, hdepth, hval⟩ := hb.of_mem hv
  exact hb.setLive key (fun q hq ↦ hb.counted.pos_of_held (hrefs q hq)) hdepth hval

/-- A value that is created before any object is under construction. -/
theorem Building.build (hb : Building start h held [] vals) (v : Json) :
    (∀ q ∈ (build v h).1.refs, start ≤ q) ∧
      Building start (build v h).2 ((build v h).1.refs ++ held) []
        ((v, (build v h).1) :: vals) := by
  obtain ⟨hgrown, hval⟩ := build_spec v hb.counted
  have hroom := hgrown.room
  refine ⟨fun q hq ↦ hb.start_le.trans (hgrown.fresh q hq), ?_⟩
  apply (hb.grow hgrown.counted (List.subset_append_right _ _) hgrown.kept).finish
  · intro q hq
    exact List.mem_append_left _ hq
  · rw [List.length_nil]
    omega
  · exact hval.mono fun _ _ _ hr ↦ ⟨by simp, hr⟩

/-- `json_loads` of a text that is decoded, before any object is under construction. -/
theorem Building.load {J : Jansson} {text : Bytes} (hb : Building start h held [] vals)
    (hv : J.loads text = some v) :
    Ensures (jsonLoads J text) h fun o h' ↦
      ∃ p, o = some p ∧ (∀ q ∈ p.refs, start ≤ q) ∧
        Building start h' (p.refs ++ held) [] ((v, p) :: vals) := by
  obtain ⟨hfresh, hb'⟩ := hb.build v
  exact ⟨some (Json.build v h).1, (Json.build v h).2, by simp only [jsonLoads, hv], _, rfl, hfresh,
    hb'⟩

/-- Finished values can be read. -/
theorem Building.reads (hb : Building start h held opens vals) (hv : (v, p) ∈ vals) :
    Reads h v p := by
  obtain ⟨hrefs, -, hval⟩ := hb.of_mem hv
  exact ⟨hval.mono fun _ _ _ hr ↦ ⟨trivial, hr⟩, fun q hq ↦ hb.counted.pos_of_held (hrefs q hq)⟩

/-- `json_dumps` of a finished value. -/
theorem Building.dumps (hb : Building start h held opens vals) (hv : (v, p) ∈ vals)
    (J : Jansson) : Ensures (jsonDumps J p) h fun t h' ↦ t = J.dumps v ∧ h = h' := by
  obtain ⟨-, hdepth, hval⟩ := hb.of_mem hv
  have hread := readValue_eq (n := h.cells.length) hb.counted hval (hb.reads hv).live (by omega)
  exact ⟨_, _, by simp only [jsonDumps, hread, Option.map_some], rfl, rfl⟩

end

/-! ### The balance -/

/-- What is known between two calls, with `n` references that have been lost: to values made
since the start, and nobody is going to give them up. -/
def Balance (start n : Nat) (h : Heap) (held : List Nat)
    (opens : List (Nat × List (Bytes × Json))) (vals : List (Json × Ptr)) : Prop :=
  ∃ lost, lost.length = n ∧ (∀ q ∈ lost, start ≤ q) ∧ Building start h (lost ++ held) opens vals

/-- A text that the library takes is written as a string. -/
def setText (key t : Bytes) (ms : List (Bytes × Json)) : List (Bytes × Json) :=
  if utf8Valid (cString t) then Json.insert key (.string (cString t)) ms else ms

/-- The references that are lost with a string created in place. -/
def textRefs (t : Bytes) : Nat := if utf8Valid (cString t) then 1 else 0

/-- A string without an embedded NUL is taken as it is. -/
theorem setText_of_valid {t : Bytes} (ht : Json.ValidString t) (key : Bytes)
    (ms : List (Bytes × Json)) : setText key t ms = Json.insert key (.string t) ms := by
  rw [setText, cString_eq_self ht.1, if_pos ht.2]

/-- So one reference to it is lost. -/
theorem textRefs_of_valid {t : Bytes} (ht : Json.ValidString t) : textRefs t = 1 := by
  rw [textRefs, cString_eq_self ht.1, if_pos ht.2]

section

variable {start n : Nat} {h : Heap} {held : List Nat} {opens : List (Nat × List (Bytes × Json))}
  {vals : List (Json × Ptr)} {v : Json} {p : Ptr} {r : Nat} {ms : List (Bytes × Json)}

/-- Another order of the references. -/
theorem Balance.perm {held' : List Nat} (hb : Balance start n h held opens vals)
    (hp : held'.Perm held) : Balance start n h held' opens vals := by
  obtain ⟨lost, hn, hlost, hb⟩ := hb
  exact ⟨lost, hn, hlost, hb.perm (hp.append_left lost)⟩

/-- A reference is lost when the variable that holds it goes. -/
theorem Balance.lose (hb : Balance start n h (r :: held) opens vals) (hr : start ≤ r) :
    Balance start (n + 1) h held opens vals := by
  obtain ⟨lost, hn, hlost, hb⟩ := hb
  refine ⟨r :: lost, by rw [List.length_cons, hn], List.forall_mem_cons.mpr ⟨hr, hlost⟩, ?_⟩
  exact hb.perm List.perm_middle.symm

/-- What is known of the heap besides the balance. -/
theorem Balance.building (hb : Balance start n h held opens vals) :
    ∃ held', Building start h held' opens vals := by
  obtain ⟨lost, -, -, hb⟩ := hb
  exact ⟨_, hb⟩

/-- A new value that holds no other. -/
theorem Balance.make {x : Node} (hb : Balance start n h held opens vals) (hx : x.kids = [])
    (hd : depth v ≤ 1)
    (hv : ∀ (P : Nat → Prop) cs r, P r → cs[r]? = some x → Holds P cs v (.cell r)) :
    Ensures (make x) h fun p h' ↦ ∃ r, p = .cell r ∧ start ≤ r ∧
      Balance start n h' (r :: held) opens ((v, p) :: vals) := by
  obtain ⟨lost, hn, hlost, hb⟩ := hb
  apply (hb.make hx hd hv).mono
  rintro p h' ⟨r, rfl, hr, hb'⟩
  exact ⟨r, rfl, hr, lost, hn, hlost, hb'.perm List.perm_middle⟩

/-- `json_array`. -/
theorem Balance.array (hb : Balance start n h held opens vals) :
    Ensures jsonArray h fun p h' ↦ ∃ r, p = .cell r ∧ start ≤ r ∧
      Balance start n h' (r :: held) opens ((.array [], p) :: vals) :=
  hb.make rfl (Nat.le_refl _) fun _ _ _ hP hr ↦ ⟨_, [], rfl, hP, hr, rfl⟩

/-- `json_object`. -/
theorem Balance.object (hb : Balance start n h held opens vals) :
    Ensures jsonObject h fun p h' ↦ ∃ r, p = .cell r ∧ start ≤ r ∧
      Balance start n h' (r :: held) ((r, []) :: opens) vals := by
  obtain ⟨lost, hn, hlost, hb⟩ := hb
  apply hb.object.mono
  rintro p h' ⟨r, rfl, hr, hb'⟩
  exact ⟨r, rfl, hr, lost, hn, hlost, hb'.perm List.perm_middle⟩

/-- `json_loads` of a text that is decoded. -/
theorem Balance.load {J : Jansson} {text : Bytes} (hb : Balance start n h held [] vals)
    (hv : J.loads text = some v) :
    Ensures (jsonLoads J text) h fun o h' ↦
      ∃ p, o = some p ∧ (∀ q ∈ p.refs, start ≤ q) ∧
        Balance start n h' (p.refs ++ held) [] ((v, p) :: vals) := by
  obtain ⟨lost, hn, hlost, hb⟩ := hb
  apply (hb.load hv).mono
  rintro o h' ⟨p, rfl, hp, hb'⟩
  exact ⟨p, rfl, hp, lost, hn, hlost, hb'.perm (List.perm_append_comm_assoc lost p.refs held)⟩

/-- `json_object_set` with a value that is kept. -/
theorem Balance.set (hb : Balance start n h held ((r, ms) :: opens) vals) (key : Bytes)
    (hv : (v, p) ∈ vals) :
    Ensures (jsonObjectSet (.cell r) key (some p)) h fun _ h' ↦
      Balance start n h' held ((r, Json.insert key v ms) :: opens) vals := by
  obtain ⟨lost, hn, hlost, hb⟩ := hb
  exact (hb.set key hv).mono fun _ h' hb' ↦ ⟨lost, hn, hlost, hb'⟩

/-- A finished value is no longer of use. -/
theorem Balance.drop (hb : Balance start n h held opens ((v, p) :: vals)) :
    Balance start n h held opens vals := by
  obtain ⟨lost, hn, hlost, hb⟩ := hb
  exact ⟨lost, hn, hlost, hb.drop⟩

/-- A value that is created in place: its reference is lost. -/
theorem Balance.setNew {x : Node} (hb : Balance start n h held ((r, ms) :: opens) vals)
    (key : Bytes) (hx : x.kids = []) (hd : depth v ≤ 1)
    (hv : ∀ (P : Nat → Prop) cs r, P r → cs[r]? = some x → Holds P cs v (.cell r)) :
    Ensures (Json.make x >>= fun p ↦ jsonObjectSet (.cell r) key (some p)) h fun _ h' ↦
      Balance start (n + 1) h' held ((r, Json.insert key v ms) :: opens) vals := by
  apply (hb.make hx hd hv).bind
  rintro _ h₁ ⟨q, rfl, hq, hb₁⟩
  apply (hb₁.set key List.mem_cons_self).mono
  intro _ h₂ hb₂
  exact hb₂.drop.lose hq

/-- `json_object_set` with a string that is created in place. -/
theorem Balance.setString (hb : Balance start n h held ((r, ms) :: opens) vals) (key t : Bytes) :
    Ensures (jsonObjectSetString (.cell r) key t) h fun _ h' ↦
      Balance start (n + textRefs t) h' held ((r, setText key t ms) :: opens) vals := by
  rw [jsonObjectSetString, jsonString, setText, textRefs]
  by_cases hu : utf8Valid (cString t) = true
  · rw [if_pos hu, if_pos hu, if_pos hu, bind_assoc]
    exact hb.setNew (v := .string (cString t)) key rfl (Nat.le_refl _)
      fun _ _ r hP hr ↦ ⟨r, rfl, hP, hr⟩
  · rw [if_neg hu, if_neg hu, if_neg hu]
    refine Ensures.bind (Q := fun o h' ↦ o = none ∧ h = h') (.pure ⟨rfl, rfl⟩) ?_
    rintro _ _ ⟨rfl, rfl⟩
    exact .pure hb

/-- `json_object_set` with an integer that is created in place. -/
theorem Balance.setInteger (hb : Balance start n h held ((r, ms) :: opens) vals) (key : Bytes)
    (i : Int64) :
    Ensures (jsonInteger i >>= fun p ↦ jsonObjectSet (.cell r) key (some p)) h fun _ h' ↦
      Balance start (n + 1) h' held ((r, Json.insert key (.integer i) ms) :: opens) vals :=
  hb.setNew (v := .integer i) key rfl (Nat.le_refl _) fun _ _ r hP hr ↦ ⟨r, rfl, hP, hr⟩

/-- The innermost object is finished. -/
theorem Balance.close (hb : Balance start n h held ((r, ms) :: opens) vals) :
    Balance start n h held opens ((.object ms, .cell r) :: vals) := by
  obtain ⟨lost, hn, hlost, hb⟩ := hb
  exact ⟨lost, hn, hlost, hb.close⟩

/-- `json_dumps` of a finished value. -/
theorem Balance.dumps (hb : Balance start n h held opens vals) (hv : (v, p) ∈ vals) (J : Jansson) :
    Ensures (jsonDumps J p) h fun t h' ↦ t = J.dumps v ∧ h = h' := by
  obtain ⟨held', hb'⟩ := hb.building
  exact hb'.dumps hv J

/-- Nothing is known but the references. -/
theorem Balance.settle (hb : Balance start n h held opens vals) :
    Balance start n h held [] [] := by
  obtain ⟨lost, hn, hlost, hb⟩ := hb
  exact ⟨lost, hn, hlost, hb.counted, hb.start_le, .nil, Nat.zero_le _, by simp, by simp⟩

/-- `json_decref` at the end, when no object is under construction any more. -/
theorem Balance.decref (hb : Balance start n h (p.refs ++ held) opens vals) :
    Ensures (jsonDecref (some p)) h fun _ h' ↦ Balance start n h' held [] [] := by
  obtain ⟨lost, hn, hlost, hb⟩ := hb
  have hcounted : Counted h (p.refs ++ (lost ++ held)) :=
    hb.counted.perm (List.perm_append_comm_assoc p.refs lost held)
  apply (jsonDecref_spec hcounted).mono
  rintro _ h' ⟨hc', hcs⟩
  have hlen := RefHeap.length_le_of_prefix (hcs ▸ List.prefix_rfl : h.contents <+: h'.contents)
  exact ⟨lost, hn, hlost, hc', hb.start_le.trans hlen, .nil, Nat.zero_le _, by simp, by simp⟩

end

end Ubx.Json
