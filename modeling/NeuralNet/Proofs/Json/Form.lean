import NeuralNet.Proofs.Checks
import NeuralNet.Proofs.Json.Layout
import NeuralNet.Proofs.Json.Reading

/-!
# Forms of numbers

Initializers and optimizers are written as tagged forms whose other members are numbers. A number
that is not finite is written as null, so its member is there without a number.

* `Single.reads_document`: what the text of a number is as a document;
* `NumberForm.reads_text`: what the text of a tagged form is as a document;
* `NumberForm.tagged?_document`, `NumberForm.fields?_members`: what such a document tells.
-/

namespace NeuralNet

open Json

namespace Single

variable {a : Single}

/-- A number is told by its text, if it is finite. -/
def ReadsBack (a : Single) : Prop :=
  a.isFinite = true → (parse? a.interchangeText).bind toSingle? = some a

instance (a : Single) : Decidable a.ReadsBack := inferInstanceAs (Decidable (_ → _))

/-- What the text of a number is as a document. -/
def document (a : Single) : Json := (parse? a.interchangeText).getD .null

theorem interchangeText_of_not_isFinite (h : a.isFinite = false) : a.interchangeText = "null" := by
  rw [interchangeText, datum, BinaryFormat.read_eq,
    if_neg fun hlt => Bool.noConfusion (h.symm.trans (isFinite_iff.mpr hlt))]
  split
  · cases BinaryFormat.single.negative a.bits.toNat <;> rfl
  · rfl

/-- The text of a number is a document, and tells the number if that is finite. -/
theorem reads_document (h : a.ReadsBack) :
    Reads 0 a.interchangeText.toList a.document ∧ a.document.isReadable = true ∧
      a.document.toSingle? = if a.isFinite then some a else none := by
  have hparse : ∀ {j}, Reads 0 a.interchangeText.toList j → parse? a.interchangeText = some j :=
    fun hj => parse?_of_reads (Nat.zero_le _) hj
  cases ha : a.isFinite with
  | true =>
    obtain ⟨w, hw⟩ := exists_written?_interchangeText ha
    have hread := reads_ofWritten hw
    have hback := h ha
    rw [hparse hread, Option.bind_some] at hback
    rw [document, hparse hread, Option.getD_some]
    refine ⟨hread, ?_, hback⟩
    rw [ofWritten] at hback ⊢
    split at hback
    · rfl
    · cases hback
  | false =>
    have hread : Reads 0 a.interchangeText.toList .null := by
      rw [interchangeText_of_not_isFinite ha]
      exact reads_null
    rw [document, hparse hread, Option.getD_some]
    exact ⟨hread, rfl, rfl⟩

end Single

namespace Json

variable {tag name : String} {value : Json} {ms : List (String × Json)}

/-- A member whose name does not repeat. -/
theorem single?_of_mem (hnodup : (ms.map (·.1)).Nodup) (h : (name, value) ∈ ms) :
    single? ms name = some (some value) := by
  have hfilter : ms.filter (·.1 == name) = [(name, value)] := by
    induction ms with
    | nil => cases h
    | cons m ms ih =>
      obtain ⟨hm, hnodup⟩ := List.nodup_cons.mp hnodup
      rcases List.mem_cons.mp h with rfl | h
      · have hrest : ms.filter (·.1 == name) = [] := by
          refine List.filter_eq_nil_iff.mpr fun m' hm' heq => hm ?_
          exact List.mem_map.mpr ⟨m', hm', beq_iff_eq.mp heq⟩
        simp [hrest]
      · have hne : m.1 ≠ name := fun heq => hm (List.mem_map.mpr ⟨(name, value), h, heq.symm⟩)
        simp [hne, ih hnodup h]
  rw [single?, hfilter]

/-- The fields of an object that has just their names. -/
theorem fields?_object (hnodup : (ms.map (·.1)).Nodup) :
    fields? (ms.map (·.1)) (.object ms) = some (ms.map fun m => some m.2) := by
  refine mapM_eq_some_iff.mpr ?_
  rw [List.forall₂_map_left_iff, List.forall₂_map_right_iff, List.forall₂_same]
  exact fun m hm => single?_of_mem hnodup hm

theorem membersReadable_of_forall (h : ∀ m ∈ ms, m.2.isReadable = true) :
    membersReadable ms = true := by
  induction ms with
  | nil => rfl
  | cons m ms ih =>
    obtain ⟨hm, hms⟩ := List.forall_mem_cons.mp h
    rw [membersReadable, hm, ih hms]
    rfl

theorem tagged?_object (hread : ∀ m ∈ ms, m.2.isReadable = true)
    (hnames : "type" ∉ ms.map (·.1)) :
    tagged? (.object (("type", .string tag) :: ms)) = some (tag, .object ms) := by
  have hne : ∀ m ∈ ms, m.1 ≠ "type" := fun m hm heq => hnames (List.mem_map.mpr ⟨m, hm, heq⟩)
  have hothers : ms.filter (·.1 != "type") = ms :=
    List.filter_eq_self.mpr fun m hm => bne_iff_ne.mpr (hne m hm)
  have hnone : ms.filter (·.1 == "type") = [] :=
    List.filter_eq_nil_iff.mpr fun m hm heq => hne m hm (beq_iff_eq.mp heq)
  have hreadable : isReadable (.object (("type", .string tag) :: ms)) = true := by
    rw [isReadable, membersReadable, membersReadable_of_forall hread]
    rfl
  simp [tagged?, hreadable, single?, hnone, hothers, toString?]

end Json

/-- A tagged form of numbers: no name repeats or is the one of the tag. -/
structure NumberForm where
  tag : String
  names : List String
  numbers : List Single
  length_eq : names.length = numbers.length
  nodup : ("type" :: names).Nodup
  plain : (tag :: names).all (·.toList.all isPlain) = true

namespace NumberForm

variable {f : NumberForm}

def text (f : NumberForm) : String :=
  objectText (("type", quotedText f.tag) ::
    (f.names.zip f.numbers).map fun (name, a) => (name, a.interchangeText))

/-- What the text of each number is as a document, under its name. -/
def members (f : NumberForm) : List (String × Json) :=
  (f.names.zip f.numbers).map fun (name, a) => (name, a.document)

/-- What the text of the form is as a document. -/
def document (f : NumberForm) : Json := .object (("type", .string f.tag) :: f.members)

theorem map_fst_members (f : NumberForm) : f.members.map (·.1) = f.names := by
  rw [members, List.map_map]
  exact List.map_fst_zip f.length_eq.le

theorem map_snd_members (f : NumberForm) :
    f.members.map (fun m => some m.2) = f.numbers.map fun a => some a.document := by
  have hnumbers := List.map_snd_zip f.length_eq.ge
  rw [members, List.map_map]
  conv_rhs => rw [← hnumbers, List.map_map]
  rfl

theorem fields?_members (f : NumberForm) :
    fields? f.names (.object f.members) = some (f.numbers.map fun a => some a.document) := by
  have hnodup : (f.members.map (·.1)).Nodup := f.map_fst_members ▸ (List.nodup_cons.mp f.nodup).2
  rw [← f.map_snd_members, ← fields?_object hnodup, f.map_fst_members]

theorem tagged?_document (h : ∀ a ∈ f.numbers, a.ReadsBack) :
    tagged? f.document = some (f.tag, .object f.members) := by
  refine tagged?_object ?_ (f.map_fst_members ▸ (List.nodup_cons.mp f.nodup).1)
  rw [members, List.forall_mem_map]
  rintro ⟨name, a⟩ hm
  exact (Single.reads_document (h a (List.of_mem_zip hm).2)).2.1

/-- The text is read with the tag in front and the numbers in their order. -/
theorem reads_text (h : ∀ a ∈ f.numbers, a.ReadsBack) :
    Reads 1 f.text.toList f.document := by
  have hplain := f.plain
  rw [List.all_cons, Bool.and_eq_true] at hplain
  obtain ⟨htag, hnames⟩ := hplain
  have htype : ReadsMember 0 ("type", quotedText f.tag) ("type", .string f.tag) :=
    ⟨rfl, (by decide : "type".toList.all isPlain = true), reads_quotedText htag⟩
  refine reads_objectText (.cons htype ?_)
  rw [members, List.forall₂_map_left_iff, List.forall₂_map_right_iff, List.forall₂_same]
  rintro ⟨name, a⟩ hm
  obtain ⟨hname, ha⟩ := List.of_mem_zip hm
  exact ⟨rfl, List.all_eq_true.mp hnames name hname, (Single.reads_document (h a ha)).1⟩

end NumberForm

end NeuralNet
