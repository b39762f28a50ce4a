import NeuralNet.Proofs.Json.Form
import NeuralNet.Proofs.Json.Whole
import NeuralNet.Proofs.Number.Finite
import NeuralNet.Training.Settings

/-!
# Settings as documents

Valid settings hold finite numbers, with two exceptions: steps and the share that keeps a quotient
finite only have to be positive, so they may be infinite. Such a number is written as null.

* `reads_text`, `parse?_text`: what the text of settings is as a document;
* `ofJson?_document`: such a document tells the settings if all numbers are finite;
* `valid_of_parse`: what is read has passed its check, and its whole numbers fit 64 bits;
* `parse_text`: valid settings are read back from their text just if no number is infinite.
-/

namespace NeuralNet

open Json

namespace Initializer

/-- The form in which an initializer is written. -/
def form : Initializer → NumberForm
  | zeros => ⟨"zeros", [], [], rfl, by decide, by decide⟩
  | ones => ⟨"ones", [], [], rfl, by decide, by decide⟩
  | constant value => ⟨"constant", ["value"], [value], rfl, by decide, by decide⟩
  | uniform scale => ⟨"uniform", ["scale"], [scale], rfl, by decide, by decide⟩
  | normal sigma => ⟨"normal", ["sigma"], [sigma], rfl, by decide, by decide⟩
  | xavierUniform => ⟨"xavier_uniform", [], [], rfl, by decide, by decide⟩
  | kaimingNormal => ⟨"kaiming_normal", [], [], rfl, by decide, by decide⟩

variable {i : Initializer}

theorem text_eq (i : Initializer) : i.text = i.form.text := by
  cases i <;> rfl

theorem isFinite_of_validate (h : i.validate = .ok ()) :
    ∀ a ∈ i.form.numbers, a.isFinite = true := by
  cases i <;> simp_all [validate, form, isNonnegative]

theorem ofJson?_document (hfinite : ∀ a ∈ i.form.numbers, a.isFinite = true)
    (h : ∀ a ∈ i.form.numbers, a.ReadsBack) :
    ofJson? i.form.document = some i := by
  have htells : ∀ a ∈ i.form.numbers, a.document.toSingle? = some a := fun a ha => by
    have htell := (Single.reads_document (h a ha)).2.2
    rwa [if_pos (hfinite a ha)] at htell
  have hfields := i.form.fields?_members
  rw [ofJson?, NumberForm.tagged?_document h]
  cases i with
  | zeros | ones | xavierUniform | kaimingNormal => rfl
  | constant a | uniform a | normal a =>
    simp only [form] at hfields ⊢
    simp only [Option.bind_eq_bind, Option.bind_some, hfields, List.map_cons, List.map_nil,
      required?, htells a List.mem_cons_self]
    rfl

end Initializer

namespace OptimizerSettings

/-- The form in which the settings are written. -/
def form : OptimizerSettings → NumberForm
  | sgd learningRate momentum =>
    ⟨"sgd", ["learning_rate", "momentum"], [learningRate, momentum], rfl, by decide, by decide⟩
  | adam learningRate beta1 beta2 epsilon =>
    ⟨"adam", ["learning_rate", "beta1", "beta2", "epsilon"], [learningRate, beta1, beta2, epsilon],
      rfl, by decide, by decide⟩

/-- Steps, or the share that keeps a quotient finite, without a bound. -/
def Unbounded : OptimizerSettings → Prop
  | sgd learningRate _ => learningRate = .infinity
  | adam learningRate _ _ epsilon => learningRate = .infinity ∨ epsilon = .infinity

instance (s : OptimizerSettings) : Decidable s.Unbounded :=
  match s with
  | sgd _ _ => inferInstanceAs (Decidable (_ = _))
  | adam _ _ _ _ => inferInstanceAs (Decidable (_ ∨ _))

variable {s : OptimizerSettings}

theorem text_eq (s : OptimizerSettings) : s.text = s.form.text := by
  cases s <;> rfl

/-- A document tells the settings if all their numbers are finite, and no settings otherwise. -/
theorem ofJson?_document (h : ∀ a ∈ s.form.numbers, a.ReadsBack) :
    ofJson? s.form.document = if s.form.numbers.all (·.isFinite) then some s else none := by
  have htells : ∀ a ∈ s.form.numbers, a.document.toSingle? = if a.isFinite then some a else none :=
    fun a ha => (Single.reads_document (h a ha)).2.2
  have hfields := s.form.fields?_members
  rw [ofJson?, NumberForm.tagged?_document h]
  cases s with
  | sgd learningRate momentum =>
    simp only [form, List.forall_mem_cons] at hfields htells ⊢
    obtain ⟨hrate, hmomentum, -⟩ := htells
    simp only [Option.bind_eq_bind, Option.bind_some, hfields, List.map_cons, List.map_nil,
      required?, optional?, hrate, hmomentum, List.all_cons, List.all_nil, Bool.and_true]
    cases learningRate.isFinite <;> cases momentum.isFinite <;> rfl
  | adam learningRate beta1 beta2 epsilon =>
    simp only [form, List.forall_mem_cons] at hfields htells ⊢
    obtain ⟨hrate, hbeta1, hbeta2, hepsilon, -⟩ := htells
    simp only [Option.bind_eq_bind, Option.bind_some, hfields, List.map_cons, List.map_nil,
      required?, optional?, hrate, hbeta1, hbeta2, hepsilon, List.all_cons, List.all_nil,
      Bool.and_true]
    cases learningRate.isFinite <;> cases beta1.isFinite <;> cases beta2.isFinite <;>
      cases epsilon.isFinite <;> rfl

theorem isFinite_of_isFraction {a : Single} (h : isFraction a = true) : a.isFinite = true := by
  simp only [isFraction, Single.le, Single.lt, Bool.and_eq_true, decide_eq_true_eq] at h
  obtain ⟨⟨-, hlow⟩, -, hhigh⟩ := h
  have hkey := Single.key_of_nonneg hlow
  have hone : Single.one.key = 0x3f800000 := by decide
  rw [Single.isFinite_iff, ← Single.toNat_magnitude, Single.infinityWord_single]
  omega

/-- Whether all numbers of valid settings are finite. -/
theorem all_isFinite_iff (h : s.inRange = true) :
    s.form.numbers.all (·.isFinite) = true ↔ ¬s.Unbounded := by
  cases s with
  | sgd learningRate momentum =>
    simp only [inRange, Bool.and_eq_true] at h
    obtain ⟨hrate, hmomentum⟩ := h
    simp [form, Unbounded, Single.isFinite_iff_of_pos hrate, isFinite_of_isFraction hmomentum]
  | adam learningRate beta1 beta2 epsilon =>
    simp only [inRange, Bool.and_eq_true] at h
    obtain ⟨⟨⟨hrate, hbeta1⟩, hbeta2⟩, hepsilon⟩ := h
    simp [form, Unbounded, Single.isFinite_iff_of_pos hrate, isFinite_of_isFraction hbeta1,
      isFinite_of_isFraction hbeta2, Single.isFinite_iff_of_pos hepsilon]

end OptimizerSettings

namespace Loss

theorem ofName?_name (l : Loss) : ofName? l.name = some l := by
  cases l <;> decide

end Loss

namespace TrainingSettings

variable {s : TrainingSettings}

/-- The numbers of the settings, in single precision. -/
def numbers (s : TrainingSettings) : List Single :=
  s.initializer.form.numbers ++ s.optimizer.form.numbers

/-- What the text of a seed is as a document. -/
def seedDocument : Option Nat → Json
  | none => .null
  | some seed => .number (.whole seed)

/-- What the text of the settings is as a document. -/
def document (s : TrainingSettings) : Json :=
  .object [("initializer", s.initializer.form.document), ("optimizer", s.optimizer.form.document),
    ("loss", .string s.loss.name), ("epochs", .number (.whole s.epochs)),
    ("seed", seedDocument s.seed)]

/-- The whole numbers of the settings fit 64 bits. -/
structure Fits (s : TrainingSettings) : Prop where
  epochs : s.epochs < WrittenNumber.wordLimit
  seed : ∀ seed ∈ s.seed, seed < WrittenNumber.wordLimit

theorem reads_seed {seed : Option Nat} (h : ∀ n ∈ seed, n < WrittenNumber.wordLimit) :
    Reads 0 ((seed.map toString).getD "null").toList (seedDocument seed) := by
  cases seed with
  | none => exact reads_null
  | some n => exact reads_toString (h n rfl)

theorem reads_text (hs : s.Fits) (h : ∀ a ∈ s.numbers, a.ReadsBack) :
    Reads 2 s.text.toList s.document := by
  obtain ⟨hinitializer, hoptimizer⟩ := List.forall_mem_append.mp h
  have hplain := List.all_eq_true.mp
    (by decide : ["initializer", "optimizer", "loss", "epochs", "seed"].all (·.toList.all isPlain) =
      true)
  have hloss : s.loss.name.toList.all isPlain = true := by
    cases s.loss <;> decide
  refine reads_objectText (.cons ⟨rfl, hplain _ (by simp), ?_⟩ (.cons ⟨rfl, hplain _ (by simp), ?_⟩
    (.cons ⟨rfl, hplain _ (by simp), ?_⟩ (.cons ⟨rfl, hplain _ (by simp), ?_⟩
    (.cons ⟨rfl, hplain _ (by simp), ?_⟩ .nil)))))
  · exact Initializer.text_eq _ ▸ NumberForm.reads_text hinitializer
  · exact OptimizerSettings.text_eq _ ▸ NumberForm.reads_text hoptimizer
  · exact (reads_quotedText hloss).mono (Nat.zero_le 1)
  · exact (reads_toString hs.epochs).mono (Nat.zero_le 1)
  · exact (reads_seed hs.seed).mono (Nat.zero_le 1)

theorem parse?_text (hs : s.Fits) (h : ∀ a ∈ s.numbers, a.ReadsBack) :
    parse? s.text = some s.document :=
  parse?_of_reads (by decide) (reads_text hs h)

theorem toOptionalNat?_seedDocument (seed : Option Nat) :
    (seedDocument seed).toOptionalNat? = some seed := by
  cases seed <;> rfl

theorem ofJson?_document (hfinite : ∀ a ∈ s.initializer.form.numbers, a.isFinite = true)
    (h : ∀ a ∈ s.numbers, a.ReadsBack) :
    ofJson? s.document = if s.optimizer.form.numbers.all (·.isFinite) then some s else none := by
  obtain ⟨hinitializer, hoptimizer⟩ := List.forall_mem_append.mp h
  have hfields : fields? ["initializer", "optimizer", "loss", "epochs", "seed"] s.document =
      some [some s.initializer.form.document, some s.optimizer.form.document,
        some (.string s.loss.name), some (.number (.whole s.epochs)),
        some (seedDocument s.seed)] :=
    fields?_object (by simp)
  have hloss : loss? (.string s.loss.name) = some s.loss := Loss.ofName?_name s.loss
  have hepochs : toNat? (.number (.whole s.epochs)) = some s.epochs := rfl
  rw [ofJson?, hfields]
  simp only [Option.bind_eq_bind, Option.bind_some, field?, hloss, hepochs,
    toOptionalNat?_seedDocument, OptimizerSettings.ofJson?_document hoptimizer,
    Initializer.ofJson?_document hfinite hinitializer]
  split <;> rfl

/-! ## Reading settings -/

theorem lt_of_field? {otherwise k : Nat} {field : Option Json}
    (hbounded : ∀ j ∈ field, j.Every Numeral.Fits)
    (hotherwise : otherwise < WrittenNumber.wordLimit)
    (h : field? otherwise toNat? field = some k) : k < WrittenNumber.wordLimit := by
  cases field with
  | none =>
    cases h
    exact hotherwise
  | some j => exact (hbounded j rfl).toNat?_lt h

theorem seed_lt_of_field? {seed : Option Nat} {field : Option Json}
    (hbounded : ∀ j ∈ field, j.Every Numeral.Fits)
    (h : field? none toOptionalNat? field = some seed) :
    ∀ k ∈ seed, k < WrittenNumber.wordLimit := by
  rintro k rfl
  cases field with
  | none => cases h
  | some j =>
    rw [field?, toOptionalNat?.eq_def] at h
    split at h
    · cases h
    · obtain ⟨n, hn, heq⟩ := Option.map_eq_some_iff.mp h
      cases heq
      exact (hbounded j rfl).toNat?_lt hn

theorem fits_of_ofJson? {j : Json} (hj : j.Every Numeral.Fits) (h : ofJson? j = some s) :
    s.Fits := by
  rw [ofJson?] at h
  obtain ⟨fields, hfields, h⟩ := Option.bind_eq_some_iff.mp h
  have hparts : ∀ value, some value ∈ fields → value.Every Numeral.Fits :=
    fun _ hv => hj.of_mem_fields? hfields hv
  split at h
  · obtain ⟨_, -, h⟩ := Option.bind_eq_some_iff.mp h
    obtain ⟨_, -, h⟩ := Option.bind_eq_some_iff.mp h
    obtain ⟨_, -, h⟩ := Option.bind_eq_some_iff.mp h
    obtain ⟨_, hepochs, h⟩ := Option.bind_eq_some_iff.mp h
    obtain ⟨_, hseed, h⟩ := Option.bind_eq_some_iff.mp h
    cases h
    constructor
    · refine lt_of_field? (fun j hj => hparts j ?_) (by decide) hepochs
      simp [Option.mem_def.mp hj]
    · refine seed_lt_of_field? (fun j hj => hparts j ?_) hseed
      simp [Option.mem_def.mp hj]
  · cases h

/-- What is read has passed its check, and its whole numbers fit 64 bits. -/
theorem valid_of_parse {t : String} (h : parse t = .ok s) : s.validate = .ok () ∧ s.Fits := by
  rw [parse] at h
  split at h
  · cases h
  · rename_i hs
    obtain ⟨⟨⟩, hvalid, heq⟩ := bind_eq_ok_iff.mp h
    cases heq
    obtain ⟨j, hj, hs⟩ := Option.bind_eq_some_iff.mp hs
    exact ⟨hvalid, fits_of_ofJson? (every_of_parse? written_fits hj) hs⟩

/-- Valid settings are read back from their text just if no number of the optimizer is infinite;
text with such a number is no document of settings. -/
theorem parse_text (hvalid : s.validate = .ok ()) (hs : s.Fits)
    (h : ∀ a ∈ s.numbers, a.ReadsBack) :
    (parse s.text = .ok s ↔ ¬s.optimizer.Unbounded) ∧
      (s.optimizer.Unbounded → parse s.text = .error .document) := by
  obtain ⟨⟨⟩, hinitializer, hoptimizer⟩ := bind_eq_ok_iff.mp hvalid
  have hfinite := Initializer.isFinite_of_validate hinitializer
  have hrange : s.optimizer.inRange = true := by
    rw [OptimizerSettings.validate] at hoptimizer
    split at hoptimizer
    · assumption
    · cases hoptimizer
  have hall := OptimizerSettings.all_isFinite_iff hrange
  have hread : (Json.parse? s.text).bind ofJson? =
      if s.optimizer.form.numbers.all (·.isFinite) then some s else none := by
    rw [parse?_text hs h]
    exact ofJson?_document hfinite h
  by_cases hunbounded : s.optimizer.Unbounded
  · have hnone : parse s.text = .error .document := by
      rw [parse, hread, if_neg fun hfin => hall.mp hfin hunbounded]
    simp [hnone, hunbounded]
  · have hsome : parse s.text = .ok s := by
      rw [parse, hread, if_pos (hall.mpr hunbounded)]
      simp only [hvalid]
      rfl
    simp [hsome, hunbounded]

/-- Adam from normally distributed parameters. -/
def seeded : TrainingSettings :=
  ⟨.normal ⟨0x3dcccccd⟩, .adamWith ⟨0x3a83126f⟩, .l2, 20, some 42⟩

theorem parse_text_seeded :
    (seeded.validate = .ok () ∧ seeded.Fits ∧ ∀ a ∈ seeded.numbers, a.ReadsBack) ∧
      ¬seeded.optimizer.Unbounded ∧ parse seeded.text = .ok seeded := by
  have hvalid : seeded.validate = .ok () := by decide +kernel
  have hfits : seeded.Fits := ⟨by decide, by decide⟩
  have hreads : ∀ a ∈ seeded.numbers, a.ReadsBack := by decide +kernel
  have hbounded : ¬seeded.optimizer.Unbounded := by decide
  exact ⟨⟨hvalid, hfits, hreads⟩, hbounded, (parse_text hvalid hfits hreads).1.mpr hbounded⟩

/-- Steps that are read from a decimal beyond single precision. -/
def overflowing : String :=
  objectText [("optimizer", objectText [("type", quotedText "sgd"), ("learning_rate", "1e39")])]

/-- What is read from such a decimal passes its own check, and its text is no document. -/
theorem parse_overflowing :
    let s : TrainingSettings := { default with optimizer := .sgd .infinity .zero }
    parse overflowing = .ok s ∧ s.validate = .ok () ∧ parse s.text = .error .document := by
  decide +kernel

end TrainingSettings

end NeuralNet
