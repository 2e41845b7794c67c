import Ubx.Base.CharArrays
import Ubx.Base.Machine

/-!
# The transfer tutorial

`cpp_sender_step` and `cpp_receiver_step` of `src/cpp_transfer/src`, with the buffer that
`src/cpp_transfer/cpp_transfer.usc` puts between their ports. Both keep a `struct cpp_data`
on the stack, which holds anything before it is written, and the receiver prints its own also
if there was nothing to read.
-/

namespace Ubx.Transfer

open Ubx.Base

/-! ### `struct cpp_data` -/

/-- The character arrays of `struct cpp_data`. -/
inductive Field
  | model
  | uid
  | metaModel
  | data
  deriving DecidableEq

/-- Where an array begins. -/
def Field.offset : Field → Nat
  | model => 0
  | uid => 20
  | metaModel => 30
  | data => 50

/-- How many bytes it has. -/
def Field.size : Field → Nat
  | model => 20
  | uid => 10
  | metaModel => 20
  | data => 10

/-- The size of `struct cpp_data`. -/
def cppDataSize : Nat := 60

/-- A value of `struct cpp_data`; `cpp_data.h`. -/
structure CppData where
  mem : Bytes
  length_mem : mem.length = cppDataSize

namespace CppData

/-- `strcpy` to an array, which need not end there. -/
def strcpy (d : CppData) (f : Field) (t : Bytes) : Option CppData :=
  match h : Base.strcpy d.mem f.offset t with
  | none => none
  | some mem => some ⟨mem, (length_of_strcpy h).trans d.length_mem⟩

/-- The string that `<<` prints for an array. -/
def read (d : CppData) (f : Field) : Option Bytes := readString d.mem f.offset

/-- The bytes of an array. -/
def array (d : CppData) (f : Field) : Bytes := (d.mem.drop f.offset).take f.size

/-- The array holds the string `t`. -/
def Holds (d : CppData) (f : Field) (t : Bytes) : Prop :=
  t.length < f.size ∧ StringAt d.mem f.offset t

end CppData

/-- `cpp_sender_step`: what it writes to its port; `none` if a copy leaves the structure. -/
def cppSenderStep (data : CppData) : Option CppData := do
  let data ← data.strcpy .model (ofString "image array")
  let data ← data.strcpy .uid (ofString "image")
  let data ← data.strcpy .metaModel (ofString "c array")
  data.strcpy .data (ofString "test_data")

/-- `cpp_receiver_step`: what it prints, with what `read_input` has got; `none` if it reads
behind the structure. -/
def cppReceiverStep (dat : CppData) (input : Option CppData) : Option Bytes := do
  let dat := input.getD dat
  let model ← dat.read .model
  let uid ← dat.read .uid
  let metaModel ← dat.read .metaModel
  let data ← dat.read .data
  pure (ofString "MODEL: " ++ model ++ ofString "\n" ++
    (ofString "UID: " ++ uid ++ ofString "\n") ++
    (ofString "META MODEL: " ++ metaModel ++ ofString "\n") ++
    (ofString "DATA: " ++ data ++ ofString "\n"))

/-! ### The composition -/

/-- A buffer between the ports, such as `lfds_buffers/cyclic`. It may drop what was written
before, but not the last thing written, and it makes nothing up. -/
structure Buffer where
  State : Type
  empty : State
  write : CppData → State → State
  read : State → Option CppData × State
  contents : State → List CppData
  contents_empty : contents empty = []
  mem_contents_write : ∀ d s, d ∈ contents (write d s)
  of_mem_contents_write : ∀ {d s x}, x ∈ contents (write d s) → x = d ∨ x ∈ contents s
  read_eq_none : ∀ {s}, (read s).1 = none ↔ contents s = []
  mem_of_read : ∀ {s d}, (read s).1 = some d → d ∈ contents s
  contents_read : ∀ {s x}, x ∈ contents (read s).2 → x ∈ contents s

/-- `fifo1`, of length 1: a new value takes the place of the old one. -/
def fifo1 : Buffer where
  State := Option CppData
  empty := none
  write d _ := some d
  read s := (s, none)
  contents s := s.toList
  contents_empty := rfl
  mem_contents_write := by simp
  of_mem_contents_write := by simp
  read_eq_none := by simp
  mem_of_read := by simp
  contents_read := by simp

/-- The buffer, and what has been printed. -/
structure Composition (B : Buffer) where
  fifo : B.State
  printed : Bytes

/-- A step of one of the blocks, with the structure that it finds on its stack. -/
inductive StepCall
  | cppSender (data : CppData)
  | cppReceiver (dat : CppData)

/-- Memory behind the structure is written or read. -/
inductive Overrun
  | strcpy
  | print

variable {B : Buffer}

/-- The sender writes to the buffer, and the receiver reads from it. -/
def transferStep (s : Composition B) : StepCall → Except Overrun (Composition B)
  | .cppSender data =>
    match cppSenderStep data with
    | none => .error .strcpy
    | some d => .ok { s with fifo := B.write d s.fifo }
  | .cppReceiver dat =>
    match cppReceiverStep dat (B.read s.fifo).1 with
    | none => .error .print
    | some text => .ok ⟨(B.read s.fifo).2, s.printed ++ text⟩

/-- The composition as a machine. -/
def transfer (B : Buffer) : Machine (Composition B) StepCall Overrun where
  step := transferStep

/-- Before the first step. -/
def Composition.start (B : Buffer) : Composition B := ⟨B.empty, []⟩

/-- What the tutorial expects a step of the receiver to print. -/
def expected : Bytes :=
  ofString "MODEL: image array\nUID: image\nMETA MODEL: c array\nDATA: test_data\n"

/-- What `ptrig1` does in one period: a step of each block, the sender first. -/
def ptrig1 (found : CppData × CppData) : List StepCall :=
  [.cppSender found.1, .cppReceiver found.2]

/-! ### The sender -/

/-- The text that the sender copies to an array. -/
def Field.text : Field → Bytes
  | model => ofString "image array"
  | uid => ofString "image"
  | metaModel => ofString "c array"
  | data => ofString "test_data"

/-- Every text is a C string that fits into its array. -/
theorem Field.text_fits (f : Field) : 0 ∉ f.text ∧ f.text.length < f.size := by
  cases f <;> decide

/-- The arrays are within the structure. -/
theorem Field.offset_add_size_le (f : Field) : f.offset + f.size ≤ cppDataSize := by
  cases f <;> decide

/-- The arrays do not overlap. -/
theorem Field.disjoint {f g : Field} (h : f ≠ g) :
    f.offset + f.size ≤ g.offset ∨ g.offset + g.size ≤ f.offset := by
  cases f <;> cases g <;> first | exact absurd rfl h | decide

/-- Copying a text that fits to an array puts it there and leaves the other arrays alone. -/
theorem CppData.strcpy_text (d : CppData) {f : Field} {t : Bytes} (hzero : 0 ∉ t)
    (hfits : t.length < f.size) :
    ∃ d', d.strcpy f t = some d' ∧ d'.Holds f t ∧
      ∀ g u, g ≠ f → d.Holds g u → d'.Holds g u := by
  have hlt : f.offset + t.length < d.mem.length := by
    have := f.offset_add_size_le
    rw [d.length_mem]
    omega
  have hcopy := strcpy_eq hlt
  refine ⟨⟨_, (length_of_strcpy hcopy).trans d.length_mem⟩, ?_, ?_, ?_⟩
  · unfold CppData.strcpy
    split
    · next h => exact absurd (h.symm.trans hcopy) (by simp)
    · next mem h =>
      obtain rfl := Option.some.inj (h.symm.trans hcopy)
      rfl
  · exact ⟨hfits, stringAt_of_strcpy hzero hcopy⟩
  · intro g u hg hholds
    refine ⟨hholds.1, hholds.2.strcpy hcopy ?_⟩
    have := hholds.1
    have := Field.disjoint hg
    omega

/-- What the sender writes: every array holds its text. -/
def CppData.Sample (d : CppData) : Prop := ∀ f : Field, d.Holds f f.text

/-- Whatever is on its stack, the sender stays within the structure and writes the texts. -/
theorem cppSenderStep_sample (data : CppData) :
    ∃ d, cppSenderStep data = some d ∧ d.Sample := by
  have hcopy : ∀ (d : CppData) (f : Field), ∃ d', d.strcpy f f.text = some d' ∧
      d'.Holds f f.text ∧ ∀ g u, g ≠ f → d.Holds g u → d'.Holds g u :=
    fun d f ↦ d.strcpy_text f.text_fits.1 f.text_fits.2
  obtain ⟨d₁, h₁, hm₁, -⟩ := hcopy data .model
  obtain ⟨d₂, h₂, hu₂, hkeep₂⟩ := hcopy d₁ .uid
  obtain ⟨d₃, h₃, hmm₃, hkeep₃⟩ := hcopy d₂ .metaModel
  obtain ⟨d₄, h₄, hd₄, hkeep₄⟩ := hcopy d₃ .data
  refine ⟨d₄, ?_, fun f ↦ ?_⟩
  · simp only [Field.text] at h₁ h₂ h₃ h₄
    simp only [cppSenderStep, h₁, h₂, h₃, h₄, Option.bind_eq_bind, Option.bind_some]
  · cases f with
    | model =>
      exact hkeep₄ _ _ (by simp) (hkeep₃ _ _ (by simp) (hkeep₂ _ _ (by simp) hm₁))
    | uid => exact hkeep₄ _ _ (by simp) (hkeep₃ _ _ (by simp) hu₂)
    | metaModel => exact hkeep₄ _ _ (by simp) hmm₃
    | data => exact hd₄

/-! ### The receiver -/

/-- A sample is printed as expected. -/
theorem cppReceiverStep_of_sample {d : CppData} (h : d.Sample) (dat : CppData) :
    cppReceiverStep dat (some d) = some expected := by
  have hread : ∀ f, d.read f = some f.text := fun f ↦ (h f).2.readString_eq
  simp only [cppReceiverStep, Option.getD_some, hread, Option.bind_eq_bind, Option.bind_some]
  rfl

/-- Without input the receiver stays within the structure exactly if its last array holds a
NUL. -/
theorem cppReceiverStep_none (dat : CppData) :
    (∃ text, cppReceiverStep dat none = some text) ↔ 0 ∈ dat.array .data := by
  have harray : dat.array .data = dat.mem.drop Field.data.offset := by
    apply List.take_of_length_le
    rw [List.length_drop, dat.length_mem]
    decide
  rw [harray, ← readString_isSome_iff]
  constructor
  · rintro ⟨text, h⟩
    simp only [cppReceiverStep, Option.getD_none, Option.bind_eq_bind,
      Option.bind_eq_some_iff] at h
    obtain ⟨_, -, _, -, _, -, data, hdata, -⟩ := h
    exact Option.isSome_iff_exists.mpr ⟨data, hdata⟩
  · intro h
    have hread : ∀ f : Field, ∃ t, dat.read f = some t := fun f ↦
      Option.isSome_iff_exists.mp (readString_isSome_of_le (by cases f <;> decide) h)
    obtain ⟨model, hm⟩ := hread .model
    obtain ⟨uid, hu⟩ := hread .uid
    obtain ⟨metaModel, hmm⟩ := hread .metaModel
    obtain ⟨data, hd⟩ := hread .data
    exact ⟨_, by simp only [cppReceiverStep, Option.getD_none, hm, hu, hmm, hd,
      Option.bind_eq_bind, Option.bind_some]; rfl⟩

/-! ### Runs -/

/-- The buffer holds nothing but what the sender writes. -/
def Composition.Sampled (s : Composition B) : Prop := ∀ d ∈ B.contents s.fifo, d.Sample

/-- A step of the sender succeeds. -/
theorem Composition.Sampled.sender {s : Composition B} (h : s.Sampled) (data : CppData) :
    ∃ d, transferStep s (.cppSender data) = .ok { s with fifo := B.write d s.fifo } ∧
      ({ s with fifo := B.write d s.fifo } : Composition B).Sampled := by
  obtain ⟨d, hd, hsample⟩ := cppSenderStep_sample data
  refine ⟨d, by simp only [transferStep, hd], fun x hx ↦ ?_⟩
  rcases B.of_mem_contents_write hx with rfl | hx
  · exact hsample
  · exact h x hx

/-- A step of the receiver with something in the buffer prints what is expected. -/
theorem Composition.Sampled.receiver {s : Composition B} (h : s.Sampled) (dat : CppData)
    (hne : B.contents s.fifo ≠ []) :
    transferStep s (.cppReceiver dat) = .ok ⟨(B.read s.fifo).2, s.printed ++ expected⟩ := by
  obtain ⟨d, hd⟩ : ∃ d, (B.read s.fifo).1 = some d :=
    Option.ne_none_iff_exists'.mp (mt B.read_eq_none.mp hne)
  simp only [transferStep, hd, cppReceiverStep_of_sample (h d (B.mem_of_read hd))]

/-- A step of the receiver with nothing in the buffer depends on its stack. -/
theorem receiver_of_empty {s : Composition B} (dat : CppData) (hempty : B.contents s.fifo = []) :
    (∃ t, transferStep s (.cppReceiver dat) = .ok t) ↔ 0 ∈ dat.array .data := by
  rw [← cppReceiverStep_none, transferStep, B.read_eq_none.mpr hempty]
  cases cppReceiverStep dat none <;> simp

/-- Every step leaves the buffer with samples. -/
theorem Composition.Sampled.step {s t : Composition B} (h : s.Sampled) {c : StepCall}
    (hs : transferStep s c = .ok t) : t.Sampled := by
  cases c with
  | cppSender data =>
    obtain ⟨d, hd, hsampled⟩ := h.sender data
    obtain rfl := Except.ok.inj (hs.symm.trans hd)
    exact hsampled
  | cppReceiver dat =>
    have hfifo : t.fifo = (B.read s.fifo).2 := by
      simp only [transferStep] at hs
      split at hs
      · exact absurd hs (by simp)
      · obtain rfl := Except.ok.inj hs
        rfl
    exact fun x hx ↦ h x (B.contents_read (hfifo ▸ hx))

/-- At the beginning the buffer is empty. -/
theorem sampled_start : (Composition.start B).Sampled := by
  intro d hd
  rw [Composition.start, B.contents_empty] at hd
  exact absurd hd List.not_mem_nil

/-- In every state of a run the buffer holds samples. -/
theorem sampled_of_run {acts : List StepCall} {t : Composition B}
    (h : (transfer B).run (.start B) acts = .ok t) : t.Sampled :=
  Machine.run_history (P := fun _ t ↦ t.Sampled) sampled_start (fun _ _ _ _ _ ih hs ↦ ih.step hs) h

/-- One period prints what is expected, once. -/
theorem Composition.Sampled.period {s : Composition B} (h : s.Sampled)
    (found : CppData × CppData) :
    ∃ t, (transfer B).run s (ptrig1 found) = .ok t ∧ t.Sampled ∧
      t.printed = s.printed ++ expected := by
  obtain ⟨d, hd, hsampled⟩ := h.sender found.1
  have hrecv := hsampled.receiver found.2 (List.ne_nil_of_mem (B.mem_contents_write d s.fifo))
  refine ⟨_, Machine.run_cons.mpr ⟨_, hd, Machine.run_cons.mpr ⟨_, hrecv, rfl⟩⟩, ?_, rfl⟩
  exact hsampled.step hrecv

/-- Periods print what is expected, once each. -/
theorem Composition.Sampled.periods {s : Composition B} (h : s.Sampled)
    (periods : List (CppData × CppData)) :
    ∃ t, (transfer B).run s (periods.flatMap ptrig1) = .ok t ∧
      t.printed = s.printed ++ (List.replicate periods.length expected).flatten := by
  induction periods generalizing s with
  | nil => exact ⟨s, rfl, by simp⟩
  | cons found periods ih =>
    obtain ⟨s₁, h₁, hsampled, hprinted₁⟩ := h.period found
    obtain ⟨t, ht, hprinted⟩ := ih hsampled
    refine ⟨t, Machine.run_append.mpr ⟨s₁, h₁, ht⟩, ?_⟩
    rw [hprinted, hprinted₁, List.length_cons, List.replicate_succ, List.flatten_cons,
      List.append_assoc]

/-- Steps of the two blocks in any order, over whatever their stacks hold: the run stays
within the structures exactly if every receiver that finds nothing in the buffer has a NUL in
the last array of its stack; every receiver that finds something prints the texts of the
tutorial, and the trigger of the composition makes it find something in every period. -/
theorem transfer_exact (B : Buffer) (acts : List StepCall) :
    ((∃ t, (transfer B).run (.start B) acts = .ok t) ↔
      ∀ pre dat post s, acts = pre ++ .cppReceiver dat :: post →
        (transfer B).run (.start B) pre = .ok s → B.contents s.fifo = [] →
          0 ∈ dat.array .data) ∧
    (∀ pre dat s, (transfer B).run (.start B) pre = .ok s → B.contents s.fifo ≠ [] →
      (transfer B).step s (.cppReceiver dat) =
        .ok ⟨(B.read s.fifo).2, s.printed ++ expected⟩) ∧
    ∀ periods : List (CppData × CppData),
      ∃ t, (transfer B).run (.start B) (periods.flatMap ptrig1) = .ok t ∧
        t.printed = (List.replicate periods.length expected).flatten := by
  refine ⟨?_, fun pre dat s hs hne ↦ (sampled_of_run hs).receiver dat hne, fun periods ↦ ?_⟩
  · rw [Machine.run_isOk_iff]
    constructor
    · intro h pre dat post s he hs hempty
      exact (receiver_of_empty dat hempty).mp (h pre _ post s he hs)
    · intro h pre c post s he hs
      cases c with
      | cppSender data =>
        obtain ⟨d, hd, -⟩ := (sampled_of_run hs).sender data
        exact ⟨_, hd⟩
      | cppReceiver dat =>
        by_cases hempty : B.contents s.fifo = []
        · exact (receiver_of_empty dat hempty).mpr (h pre dat post s he hs hempty)
        · exact ⟨_, (sampled_of_run hs).receiver dat hempty⟩
  · obtain ⟨t, ht, hprinted⟩ := sampled_start.periods periods
    exact ⟨t, ht, by rw [hprinted]; rfl⟩

-- the receiver first, on a stack without a NUL
example : ((transfer fifo1).run (.start fifo1)
    [.cppReceiver ⟨List.replicate 60 1, rfl⟩]).isOk = false := by decide

end Ubx.Transfer
