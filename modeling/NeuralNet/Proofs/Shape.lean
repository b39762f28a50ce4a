import Mathlib.Algebra.BigOperators.Group.List.Basic
import NeuralNet.Shape.Check
import NeuralNet.Shape.Document

/-!
# What the parts of a shape tell

A shape keeps its batch, its tail and whether the batch is open side by side, and every accessor
looks at some of them. The accessors tell of one list of extents as long as the parts fit together.

* `accords_iff_coherent`: when they do, for every shape;
* `coherent_withTail_iff`, `batch_of_undocumented`: what one step of making a shape keeps, and what
  all of them keep;
* `Making.accords_iff`: which ways of making a shape end in one whose accessors agree.
-/

namespace NeuralNet

namespace Shape

variable {s : Shape} {tail : List Nat}

/-- The accessors tell of the same extents. With an open batch these are known but for the first. -/
structure Accords (s : Shape) : Prop where
  known : s.unknownBatch = false → ∃ extents, s.concrete = .ok extents ∧
    s.rank = extents.length ∧ s.size = some extents.prod ∧
    (∀ axis, s.dim axis = extents[axis]?) ∧ ∀ dims, s.accepts dims = true ↔ dims = extents
  opened : s.unknownBatch = true → s.rank = s.tail.length + 1 ∧ s.dim 0 = none ∧ s.size = none ∧
    ∀ dims, s.accepts dims = true ↔ dims.length = s.rank ∧ dims.tail = s.tail

/-- The batch is not both known and open, and rank 0 has no other axes. -/
structure Coherent (s : Shape) : Prop where
  batch_of_open : s.unknownBatch = true → s.batch = none
  tail_of_rank : s.rank = 0 → s.tail = []

theorem rank_eq_zero_iff : s.rank = 0 ↔ s.batch = none ∧ s.unknownBatch = false := by
  unfold rank
  cases s.batch <;> cases s.unknownBatch <;> simp

theorem accepts_iff_of_batch (batch : Nat) (tail dims : List Nat) :
    accepts ⟨some batch, tail, false⟩ dims = true ↔ dims = batch :: tail := by
  cases dims with
  | nil => simp [accepts, rank]
  | cons d dims =>
    simp only [accepts, rank, Option.isSome_some, Bool.true_or, if_true, List.length_cons,
      Bool.false_or, Bool.and_eq_true, beq_iff_eq, Option.some.injEq, List.cons.injEq]
    constructor
    · rintro ⟨-, rfl, rfl⟩
      exact ⟨rfl, rfl⟩
    · rintro ⟨rfl, rfl⟩
      exact ⟨rfl, rfl, rfl⟩

theorem accepts_scalar_iff (dims : List Nat) :
    accepts ⟨none, [], false⟩ dims = true ↔ dims = [] := by
  cases dims <;> simp [accepts, rank]

theorem accepts_open_iff (tail dims : List Nat) :
    accepts ⟨none, tail, true⟩ dims = true ↔ dims.length = tail.length + 1 ∧ dims.tail = tail := by
  cases dims <;> simp [accepts, rank]

theorem accords_of_batch (batch : Nat) (tail : List Nat) : Accords ⟨some batch, tail, false⟩ where
  known _ := by
    refine ⟨batch :: tail, rfl, rfl, ?_, fun axis => by cases axis <;> rfl,
      accepts_iff_of_batch batch tail⟩
    rw [List.prod_cons, List.prod_eq_foldl]
    rfl
  opened h := by cases h

theorem accords_scalar : Accords ⟨none, [], false⟩ where
  known _ := ⟨[], rfl, rfl, rfl, fun axis => by cases axis <;> rfl, accepts_scalar_iff⟩
  opened h := by cases h

theorem accords_open (tail : List Nat) : Accords ⟨none, tail, true⟩ where
  known h := by cases h
  opened _ := ⟨rfl, rfl, rfl, accepts_open_iff tail⟩

/-- The accessors agree just if the parts of the shape fit together. -/
theorem accords_iff_coherent : s.Accords ↔ s.Coherent := by
  constructor
  · intro h
    refine ⟨fun hopen => (h.opened hopen).2.1, fun hrank => ?_⟩
    -- the tail alone is concrete, and there are as many extents as the rank says
    obtain ⟨hbatch, hclosed⟩ := rank_eq_zero_iff.mp hrank
    obtain ⟨extents, hconcrete, hlength, -⟩ := h.known hclosed
    have htail : s.concrete = .ok s.tail := by simp [concrete, hclosed, hbatch]
    obtain rfl := Except.ok.inj (htail.symm.trans hconcrete)
    exact List.length_eq_zero_iff.mp (hlength.symm.trans hrank)
  · rintro ⟨hbatch, htail⟩
    obtain ⟨batch, tail, unknownBatch⟩ := s
    cases unknownBatch with
    | true =>
      obtain rfl : batch = none := hbatch rfl
      exact accords_open tail
    | false =>
      cases batch with
      | some batch => exact accords_of_batch batch tail
      | none =>
        obtain rfl : tail = [] := htail rfl
        exact accords_scalar

/-! ## Making shapes -/

/-- A new tail fits unless it gives axes to rank 0; the batch stays what it is. -/
theorem coherent_withTail_iff :
    (s.withTail tail).Coherent ↔
      (s.unknownBatch = true → s.batch = none) ∧ (s.rank = 0 → tail = []) := by
  have hrank : (s.withTail tail).rank = 0 ↔ s.rank = 0 := by
    rw [rank_eq_zero_iff, rank_eq_zero_iff]
    rfl
  exact ⟨fun h => ⟨h.batch_of_open, fun h0 => h.tail_of_rank (hrank.mpr h0)⟩,
    fun ⟨hbatch, htail⟩ => ⟨hbatch, fun h0 => htail (hrank.mp h0)⟩⟩

theorem coherent_ofExtents (extents : List Nat) : (ofExtents extents).Coherent := by
  cases extents with
  | nil => exact ⟨nofun, fun _ => rfl⟩
  | cons => exact ⟨nofun, nofun⟩

theorem coherent_withUnknownBatch (tail : List Nat) : (withUnknownBatch tail).Coherent :=
  ⟨fun _ => rfl, nofun⟩

/-- A way to make a shape. -/
inductive Making where
  | ofExtents (extents : List Nat)
  | scalar
  | withUnknownBatch (tail : List Nat)
  | ofDocument (j : Json)
  | withTail (making : Making) (tail : List Nat)

namespace Making

/-- The shape that is made. A document need not describe one. -/
def shape? : Making → Option Shape
  | ofExtents extents => some (.ofExtents extents)
  | scalar => some .scalar
  | withUnknownBatch tail => some (.withUnknownBatch tail)
  | ofDocument j => ofJson? j
  | withTail making tail => making.shape?.map (·.withTail tail)

/-- Whether the shape comes from a document. -/
def isDocumented : Making → Bool
  | ofDocument _ => true
  | withTail making _ => making.isDocumented
  | _ => false

/-- No shape of rank 0 is given axes on the way. -/
def KeepsRank : Making → Prop
  | withTail making tail =>
    making.KeepsRank ∧ ∀ s, making.shape? = some s → s.rank = 0 → tail = []
  | _ => True

variable {m : Making}

/-- Without documents no batch is both known and open, whatever tails are put behind it. -/
theorem batch_of_undocumented (hm : m.isDocumented = false) (made : m.shape? = some s) :
    s.unknownBatch = true → s.batch = none := by
  induction m generalizing s with
  | ofExtents extents =>
    obtain rfl := Option.some.inj made
    exact (coherent_ofExtents extents).batch_of_open
  | scalar =>
    obtain rfl := Option.some.inj made
    exact fun _ => rfl
  | withUnknownBatch tail =>
    obtain rfl := Option.some.inj made
    exact fun _ => rfl
  | ofDocument j => cases hm
  | withTail making tail ih =>
    obtain ⟨t, ht, rfl⟩ := Option.map_eq_some_iff.mp made
    have hlead := ih hm ht
    exact hlead

theorem tail_of_keepsRank (hm : m.isDocumented = false) (hk : m.KeepsRank)
    (made : m.shape? = some s) : s.rank = 0 → s.tail = [] := by
  cases m with
  | ofExtents extents =>
    obtain rfl := Option.some.inj made
    exact (coherent_ofExtents extents).tail_of_rank
  | scalar =>
    obtain rfl := Option.some.inj made
    exact fun _ => rfl
  | withUnknownBatch tail =>
    obtain rfl := Option.some.inj made
    exact (coherent_withUnknownBatch tail).tail_of_rank
  | ofDocument j => cases hm
  | withTail making tail =>
    obtain ⟨t, ht, rfl⟩ := Option.map_eq_some_iff.mp made
    have hlead := batch_of_undocumented (m := making) hm ht
    exact (coherent_withTail_iff.mpr ⟨hlead, hk.2 t ht⟩).tail_of_rank

/-- The accessors of a shape agree just if its batch is not both known and open and rank 0 has no
other axes. Only documents make the one go wrong, and only documents and a tail that is put behind
rank 0 the other. -/
theorem accords_iff (made : m.shape? = some s) :
    (s.Accords ↔ s.Coherent) ∧
      (m.isDocumented = false → (s.Accords ↔ (s.rank = 0 → s.tail = []))) ∧
      (m.isDocumented = false → m.KeepsRank → s.Accords) := by
  refine ⟨accords_iff_coherent, fun hm => ?_, fun hm hk => ?_⟩
  · rw [accords_iff_coherent]
    exact ⟨Coherent.tail_of_rank, fun htail => ⟨batch_of_undocumented hm made, htail⟩⟩
  · exact accords_iff_coherent.mpr
      ⟨batch_of_undocumented hm made, tail_of_keepsRank hm hk made⟩

/-- The tail of a shape is taken away, and another is put in its place. -/
def replaced : Making := withTail (withTail (ofExtents [2, 3]) []) [0, 4]

theorem accords_iff_replaced :
    replaced.shape? = some ⟨some 2, [0, 4], false⟩ ∧
      (Accords ⟨some 2, [0, 4], false⟩ ↔ Coherent ⟨some 2, [0, 4], false⟩) ∧
      (replaced.isDocumented = false → (Accords ⟨some 2, [0, 4], false⟩ ↔
        (rank ⟨some 2, [0, 4], false⟩ = 0 → Shape.tail ⟨some 2, [0, 4], false⟩ = []))) ∧
      (replaced.isDocumented = false → replaced.KeepsRank → Accords ⟨some 2, [0, 4], false⟩) :=
  ⟨rfl, accords_iff (m := replaced) rfl⟩

/-- Rank 0 with a tail that was put behind it: an extent is concrete and still no axis has it. -/
theorem not_accords_tail_of_scalar :
    (withTail scalar [3]).shape? = some ⟨none, [3], false⟩ ∧ ¬Accords ⟨none, [3], false⟩ :=
  ⟨rfl, fun h => List.cons_ne_nil 3 [] ((accords_iff_coherent.mp h).tail_of_rank rfl)⟩

/-- A document whose batch is both known and open: the first axis has an extent all the same. -/
theorem not_accords_document :
    (ofDocument (.array [.number (.whole 2), .array [], .bool true])).shape? =
      some ⟨some 2, [], true⟩ ∧ ¬Accords ⟨some 2, [], true⟩ :=
  ⟨rfl, fun h => Option.some_ne_none 2 ((accords_iff_coherent.mp h).batch_of_open rfl)⟩

end Making

end Shape

end NeuralNet
