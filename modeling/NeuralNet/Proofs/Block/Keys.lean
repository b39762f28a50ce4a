import NeuralNet.Pairs
import NeuralNet.Proofs.Block.Restore
import NeuralNet.Proofs.Block.Sharing
import NeuralNet.Proofs.Layer.Parameters

/-!
# The keys of a block

A key tells the way to its parameter: the places of the children that are passed, each followed by
the name of the child, then the name that the layer has given. A place is a number at the front of a
name that starts with a letter, so it can be read back, however many digits it has.

* `nodup_keys`: no key is used twice;
* `exists_addresses`: parameters are listed by their addresses in the tree, in order;
* `keys_address`: so every slot is found under its key, in the list and in a tensor file.
-/

namespace NeuralNet

/-! ## Names of layers and of their parameters -/

/-- The name starts with something else than a digit. -/
def startsWithLetter (name : String) : Bool := name.toList.head?.any fun c => !c.isDigit

theorem startsWithLetter_iff {name : String} :
    startsWithLetter name = true ↔ ∃ c cs, name.toList = c :: cs ∧ c.isDigit = false := by
  unfold startsWithLetter
  cases name.toList <;> simp

theorem startsWithLetter_append {name : String} (h : startsWithLetter name = true) (rest : String) :
    startsWithLetter (name ++ rest) = true := by
  obtain ⟨c, cs, hname, hc⟩ := startsWithLetter_iff.mp h
  exact startsWithLetter_iff.mpr
    ⟨c, cs ++ rest.toList, by rw [String.toList_append, hname, List.cons_append], hc⟩

theorem Layer.startsWithLetter_name (l : Layer) : startsWithLetter l.name = true := by
  cases l with
  | linear units bias => exact (rfl : startsWithLetter "linear" = true)
  | batchNorm axis epsilon momentum => exact (rfl : startsWithLetter "batch_norm" = true)
  | dropout rate => exact (rfl : startsWithLetter "dropout" = true)
  | flatten => rfl
  | embedding rows width => exact (rfl : startsWithLetter "embedding" = true)
  | wordEmbedding tokens width => exact (rfl : startsWithLetter "word_embedding" = true)
  | activation a => cases a <;> rfl
  | conv c =>
    have hconv : startsWithLetter "conv" = true := rfl
    exact startsWithLetter_append (startsWithLetter_append hconv _) _
  | recurrent r =>
    rw [name]
    cases r.cell with
    | rnn a => exact (rfl : startsWithLetter "rnn" = true)
    | lstm | gru => rfl

theorem Block.startsWithLetter_name (b : Block) : startsWithLetter b.name = true := by
  cases b with
  | leaf l slots => exact l.startsWithLetter_name
  | sequential bs => exact (rfl : startsWithLetter "sequential" = true)

namespace Layer

def cellFields : List String := ["i2h_weight", "i2h_bias", "h2h_weight", "h2h_bias"]

/-- Names are read back into the height of the cell and the field. -/
theorem cellField?_cellParameters (height : Nat) :
    ((cellParameters height).map (·.1)).map cellField? =
      cellFields.map fun field => some (height, field) := by
  have hfield := cellField?_name height
  exact congrArg₂ List.cons (hfield "i2h_weight") (congrArg₂ List.cons (hfield "i2h_bias")
    (congrArg₂ List.cons (hfield "h2h_weight") (congrArg₂ List.cons (hfield "h2h_bias") rfl)))

theorem nodup_declared (l : Layer) : (l.declared.map (·.1)).Nodup := by
  cases l with
  | linear units bias =>
    change ((weightAndBias bias).map (·.1)).Nodup
    cases bias <;> decide
  | conv c =>
    change ((weightAndBias c.bias).map (·.1)).Nodup
    cases c.bias <;> decide
  | batchNorm axis epsilon momentum =>
    change ["gamma", "beta", "running_mean", "running_var"].Nodup
    decide
  | embedding rows width | wordEmbedding rows width => exact List.nodup_singleton "weight"
  | dropout rate | flatten | activation a => exact List.nodup_nil
  | recurrent r =>
    refine List.Nodup.of_map cellField? ?_
    simp only [declared, List.map_flatMap, cellField?_cellParameters]
    rw [List.nodup_flatMap]
    refine ⟨fun height _ => ?_, List.nodup_range.imp fun {height height'} hne => ?_⟩
    · have hfields : cellFields.Nodup := by decide
      exact hfields.map fun _ _ heq => (Prod.ext_iff.mp (Option.some.inj heq)).2
    · intro a ha ha'
      obtain ⟨_, -, rfl⟩ := List.mem_map.mp ha
      obtain ⟨_, -, heq⟩ := List.mem_map.mp ha'
      exact hne (Prod.ext_iff.mp (Option.some.inj heq)).1.symm

end Layer

namespace Block

/-! ## Places -/

/-- The number that the digits at the front of a key write. -/
def leadingNumber (key : String) : Nat :=
  Nat.ofDigitChars 10 (key.toList.takeWhile Char.isDigit) 0

/-- The place of a child is read back from its name. -/
theorem leadingNumber_childName (place : Nat) (b : Block) (rest : String) :
    leadingNumber (childName place b ++ rest) = place := by
  obtain ⟨c, cs, hname, hc⟩ := startsWithLetter_iff.mp b.startsWithLetter_name
  let pad : String := if place < 10 then "0" else ""
  have hpad : ∀ c ∈ pad.toList, c.isDigit = true := by
    unfold pad
    split
    · exact List.forall_mem_singleton.mpr rfl
    · exact fun c hc => nomatch hc
  have hzero : Nat.ofDigitChars 10 pad.toList 0 = 0 := by
    unfold pad
    split <;> rfl
  have hdigits : ∀ c ∈ Nat.toDigits 10 place, c.isDigit = true := fun c hc =>
    Nat.isDigit_of_mem_toDigits (by decide) (by decide) hc
  have hkey : (childName place b ++ rest).toList =
      pad.toList ++ (Nat.toDigits 10 place ++ c :: (cs ++ rest.toList)) := by
    simp [childName, String.toList_append, Nat.toList_repr, hname, pad]
  rw [leadingNumber, hkey, List.takeWhile_append_of_pos hpad, List.takeWhile_append_of_pos hdigits,
    List.takeWhile_cons_of_neg (by simp [hc]), List.append_nil, Nat.ofDigitChars_append, hzero,
    Nat.ofDigitChars_toDigits (by decide) (by decide)]

/-- A parameter of a child, under the name of the child. -/
def under (place : Nat) (b : Block) (p : String × Nat) : String × Nat :=
  (childName place b ++ "_" ++ p.1, p.2)

theorem parametersFrom_cons (place : Nat) (b : Block) (rest : List Block) :
    parametersFrom place (b :: rest) =
      b.parameters.map (under place b) ++ parametersFrom (place + 1) rest := rfl

theorem leadingNumber_under (place : Nat) (b : Block) (p : String × Nat) :
    leadingNumber (under place b p).1 = place := by
  rw [under, String.append_assoc, leadingNumber_childName]

theorem le_leadingNumber {p : String × Nat} (place : Nat) (bs : List Block)
    (h : p ∈ parametersFrom place bs) : place ≤ leadingNumber p.1 := by
  induction bs generalizing place with
  | nil => cases h
  | cons b rest ih =>
    rw [parametersFrom_cons] at h
    rcases List.mem_append.mp h with h | h
    · obtain ⟨q, -, rfl⟩ := List.mem_map.mp h
      rw [leadingNumber_under]
    · exact Nat.le_of_succ_le (ih (place + 1) h)

mutual

/-- No key is used twice. -/
theorem nodup_keys : (b : Block) → b.keys.Nodup
  | leaf l slots => by
    rw [keys, parameters, List.zip_eq_zip_take_min, List.map_fst_zip (by simp)]
    exact l.nodup_declared.take
  | sequential bs => nodup_keysFrom 1 bs

theorem nodup_keysFrom (place : Nat) : (bs : List Block) →
    ((parametersFrom place bs).map (·.1)).Nodup
  | [] => List.nodup_nil
  | b :: rest => by
    have hprefix : Function.Injective fun key : String => childName place b ++ "_" ++ key :=
      fun _ _ h => (String.append_right_inj _).mp h
    have hown : ((b.parameters.map (under place b)).map (·.1)).Nodup := by
      have hmap := (nodup_keys b).map hprefix
      rw [keys, List.map_map] at hmap
      rw [List.map_map]
      exact hmap
    rw [parametersFrom_cons, List.map_append, List.nodup_append]
    refine ⟨hown, nodup_keysFrom (place + 1) rest, ?_⟩
    rintro _ hkey _ hkey' rfl
    obtain ⟨_, hp, rfl⟩ := List.mem_map.mp hkey
    obtain ⟨p, -, rfl⟩ := List.mem_map.mp hp
    obtain ⟨q, hq, hsame⟩ := List.mem_map.mp hkey'
    have hplace : place + 1 ≤ leadingNumber q.1 := le_leadingNumber (place + 1) rest hq
    rw [hsame, leadingNumber_under] at hplace
    exact absurd hplace (Nat.not_succ_le_self place)

end

/-! ## Addresses -/

/-- The parameters of the block itself; a sequence has none. -/
def own : Block → List (String × Nat)
  | leaf l slots => (l.declared.map (·.1)).zip slots
  | sequential _ => []

/-- The parameter at an address: the way to a block from child to child, and a position among the
parameters of the block itself. -/
def parameterAt? : Block → List Nat → Nat → Option (String × Nat)
  | b, [], k => b.own[k]?
  | b, i :: way, k => do
    let child ← b.children[i]?
    return under (i + 1) child (← child.parameterAt? way k)

/-- The order of addresses: a block comes before its children, and a child with all that is in it
before the next. -/
def Before (a a' : List Nat × Nat) : Prop := a.1 < a'.1 ∨ a.1 = a'.1 ∧ a.2 < a'.2

theorem before_cons_iff (i : Nat) (a a' : List Nat × Nat) :
    Before (i :: a.1, a.2) (i :: a'.1, a'.2) ↔ Before a a' := by
  simp [Before]

/-- The addresses, in their order, tell where the listed parameters are, and that there are no
others. -/
structure Addressed (IsAt : List Nat × Nat → String × Nat → Prop) (as : List (List Nat × Nat))
    (ps : List (String × Nat)) : Prop where
  ordered : as.Pairwise Before
  isAt : List.Forall₂ IsAt as ps
  all : ∀ a p, IsAt a p → a ∈ as

theorem Addressed.append {A B C : List Nat × Nat → String × Nat → Prop}
    {as bs : List (List Nat × Nat)} {ps qs : List (String × Nat)} (ha : Addressed A as ps)
    (hb : Addressed B bs qs) (hbefore : ∀ a ∈ as, ∀ b ∈ bs, Before a b)
    (hor : ∀ a p, C a p ↔ A a p ∨ B a p) : Addressed C (as ++ bs) (ps ++ qs) where
  ordered := List.pairwise_append.mpr ⟨ha.ordered, hb.ordered, hbefore⟩
  isAt := List.rel_append (ha.isAt.imp fun a p h => (hor a p).mpr (.inl h))
    (hb.isAt.imp fun a p h => (hor a p).mpr (.inr h))
  all a p h := by
    rcases (hor a p).mp h with h | h
    · exact List.mem_append_left _ (ha.all a p h)
    · exact List.mem_append_right _ (hb.all a p h)

/-- The parameter is in a block of this list, the first of which is the child at a position. -/
def IsBelow (i : Nat) (bs : List Block) (a : List Nat × Nat) (p : String × Nat) : Prop :=
  ∃ j child way q, bs[j]? = some child ∧ a.1 = (i + j) :: way ∧
    child.parameterAt? way a.2 = some q ∧ p = under (i + j + 1) child q

theorem isBelow_cons {i : Nat} {b : Block} {bs : List Block} {a : List Nat × Nat}
    {p : String × Nat} : IsBelow i (b :: bs) a p ↔ IsBelow i [b] a p ∨ IsBelow (i + 1) bs a p := by
  have hplace (j : Nat) : i + (j + 1) = i + 1 + j := by omega
  constructor
  · rintro ⟨_ | j, child, way, q, hchild, hway, hq, hp⟩
    · exact .inl ⟨0, child, way, q, hchild, hway, hq, hp⟩
    · rw [hplace] at hway hp
      exact .inr ⟨j, child, way, q, hchild, hway, hq, hp⟩
  · rintro (⟨_ | j, child, way, q, hchild, hway, hq, hp⟩ | ⟨j, child, way, q, hchild, hway, hq, hp⟩)
    · exact ⟨0, child, way, q, hchild, hway, hq, hp⟩
    · cases hchild
    · rw [← hplace] at hway hp
      exact ⟨j + 1, child, way, q, hchild, hway, hq, hp⟩

theorem parameterAt?_sequential {bs : List Block} {a : List Nat × Nat} {p : String × Nat} :
    (sequential bs).parameterAt? a.1 a.2 = some p ↔ IsBelow 0 bs a p := by
  obtain ⟨_ | ⟨i, way⟩, k⟩ := a
  · constructor
    · intro h
      cases h
    · rintro ⟨_, _, _, _, -, ⟨⟩, -⟩
  · simp only [parameterAt?, children, Option.bind_eq_bind, Option.bind_eq_some_iff]
    constructor
    · rintro ⟨child, hchild, q, hq, ⟨⟩⟩
      refine ⟨i, child, way, q, hchild, by rw [Nat.zero_add], hq, by rw [Nat.zero_add]⟩
    · rintro ⟨j, child, way', q, hchild, hway, hq, rfl⟩
      rw [Nat.zero_add] at hway ⊢
      cases hway
      exact ⟨child, hchild, q, hq, rfl⟩

theorem Addressed.child {b : Block} {as : List (List Nat × Nat)} (i : Nat)
    (h : Addressed (fun a p => b.parameterAt? a.1 a.2 = some p) as b.parameters) :
    Addressed (IsBelow i [b]) (as.map fun a => (i :: a.1, a.2))
      (b.parameters.map (under (i + 1) b)) where
  ordered := List.pairwise_map.mpr (h.ordered.imp (before_cons_iff i _ _).mpr)
  isAt := by
    rw [List.forall₂_map_left_iff, List.forall₂_map_right_iff]
    exact h.isAt.imp fun a p hp => ⟨0, b, a.1, p, rfl, rfl, hp, rfl⟩
  all := by
    rintro ⟨_, k⟩ p ⟨_ | j, child, way, q, hchild, rfl, hq, -⟩
    · cases hchild
      exact List.mem_map.mpr ⟨(way, k), h.all (way, k) q hq, rfl⟩
    · cases hchild

theorem addressed_own (l : Layer) (slots : List Nat) :
    Addressed (fun a p => (leaf l slots).parameterAt? a.1 a.2 = some p)
      ((List.range (leaf l slots).parameters.length).map ([], ·)) (leaf l slots).parameters where
  ordered := List.pairwise_map.mpr (List.pairwise_lt_range.imp fun h => .inr ⟨rfl, h⟩)
  isAt := by
    rw [List.forall₂_map_left_iff, List.forall₂_iff_get]
    refine ⟨List.length_range, fun k hk hk' => ?_⟩
    rw [List.get_eq_getElem, List.getElem_range]
    exact List.getElem?_eq_getElem hk'
  all := by
    rintro ⟨_ | ⟨i, way⟩, k⟩ p hp
    · have hk : k < (leaf l slots).parameters.length := (List.getElem?_eq_some_iff.mp hp).1
      exact List.mem_map.mpr ⟨k, List.mem_range.mpr hk, rfl⟩
    · cases hp

mutual

/-- The parameters of a block are listed in the order of their addresses. -/
theorem exists_addresses : (b : Block) →
    ∃ as, Addressed (fun a p => b.parameterAt? a.1 a.2 = some p) as b.parameters
  | leaf l slots => ⟨_, addressed_own l slots⟩
  | sequential bs => by
    obtain ⟨as, h⟩ := exists_addressesFrom 0 bs
    exact ⟨as, h.ordered, h.isAt.imp fun _ _ => parameterAt?_sequential.mpr,
      fun a p hp => h.all a p (parameterAt?_sequential.mp hp)⟩

theorem exists_addressesFrom (i : Nat) : (bs : List Block) →
    ∃ as, Addressed (IsBelow i bs) as (parametersFrom (i + 1) bs)
  | [] => ⟨[], .nil, .nil, fun _ _ ⟨_, _, _, _, h, _⟩ => by cases h⟩
  | b :: rest => by
    obtain ⟨as, ha⟩ := exists_addresses b
    obtain ⟨as', ha'⟩ := exists_addressesFrom (i + 1) rest
    refine ⟨_, (ha.child i).append ha' ?_ fun _ _ => isBelow_cons⟩
    -- the places of the later children are greater
    intro a hmem a' hmem'
    obtain ⟨a, -, rfl⟩ := List.mem_map.mp hmem
    obtain ⟨p, -, j, _, way, _, -, hway, -⟩ := exists_of_mem_left ha'.isAt hmem'
    refine .inl ?_
    rw [hway, List.cons_lt_cons_iff]
    exact .inl (by omega)

end

end Block

/-! ## Finding by a key -/

theorem Pairs.get?_of_mem {κ ν : Type} [BEq κ] [LawfulBEq κ] {entries : List (κ × ν)}
    (hkeys : (entries.map (·.1)).Nodup) {p : κ × ν} (hp : p ∈ entries) :
    (Pairs.ofList entries).get? p.1 = some p.2 := by
  obtain ⟨before, after, rfl⟩ := List.append_of_mem hp
  rw [List.map_append, List.nodup_append] at hkeys
  refine List.lookup_eq_some_iff.mpr ⟨before, after, rfl, fun q hq => bne_iff_ne.mpr fun heq => ?_⟩
  exact hkeys.2.2 q.1 (List.mem_map_of_mem hq) p.1 List.mem_cons_self heq.symm

namespace SafeTensors

open ParameterList (Staged commit_of_agrees)

variable {f : File} {w : Workspace Single} {ps : ParameterList}

/-- The array of an entry, and its type. -/
def File.array (f : File) (e : Entry) : Except Error (DataType × DenseArray Single) := do
  let (source, values) ← e.decode (f.bytes e)
  return (source, ← DenseArray.ofList e.extents values)

/-- What a file has under a key. -/
def File.array? (f : File) (key : String) : Option (Except Error (DataType × DenseArray Single)) :=
  (f.entry? key).map f.array

/-- New values for a parameter, if the file has some. A resolved parameter keeps its type. -/
def File.staged? (f : File) (w : Workspace Single) (p : String × Nat) : Option Staged :=
  match f.array? p.1 with
  | some (.ok (source, data)) => some ⟨p.2, (w.slot p.2).type.getD source, data⟩
  | _ => none

/-- What the file has can be read and has the extents of its parameter, and what it has for one slot
under different keys is of the same extents and type. -/
structure Fills (f : File) (w : Workspace Single) (ps : ParameterList) : Prop where
  readable : ∀ p ∈ ps, ∀ x ∈ f.array? p.1,
    ∃ a ∈ x.toOption, ∀ s ∈ (w.slot p.2).extents, s = a.2.extents
  agrees : ∀ s ∈ ps.filterMap (f.staged? w), ∀ t ∈ ps.filterMap (f.staged? w), s.Agrees t

theorem stageOne_of_readable {p : String × Nat}
    (h : ∀ x ∈ f.array? p.1, ∃ a ∈ x.toOption, ∀ s ∈ (w.slot p.2).extents, s = a.2.extents) :
    stageOne f w p.1 p.2 = .ok (f.staged? w p) := by
  unfold File.array? at h
  unfold stageOne File.staged? File.array?
  cases hentry : f.entry? p.1 with
  | none => rfl
  | some e =>
    rw [hentry] at h
    obtain ⟨⟨source, data⟩, hsome, hextents⟩ := h (f.array e) rfl
    cases harray : f.array e with
    | error e' =>
      rw [harray] at hsome
      cases hsome
    | ok a =>
      rw [harray] at hsome
      cases hsome
      obtain ⟨⟨source', values⟩, hdecode, hdata⟩ := bind_eq_ok_iff.mp harray
      obtain ⟨data', hlist, hdata⟩ := bind_eq_ok_iff.mp hdata
      cases hdata
      rw [Option.map_some, harray]
      refine bind_eq_ok_iff.mpr ⟨_, hdecode, bind_eq_ok_iff.mpr ⟨_, hlist, ?_⟩⟩
      dsimp only
      rw [Slot.type]
      cases hcontent : (w.slot p.2).content with
      | none => rfl
      | some c =>
        have hsame : c.data.extents = data.extents :=
          hextents _ (by rw [Slot.extents, hcontent]; rfl)
        dsimp only
        rw [if_pos hsame]
        rfl

theorem fits_of_fills (h : Fills f w ps) (hvalid : ∀ p ∈ ps, p.2 < w.slots.size) :
    ∀ s ∈ ps.filterMap (f.staged? w), s.Fits w := by
  intro s hs
  obtain ⟨p, hp, hstaged⟩ := List.mem_filterMap.mp hs
  have hone := stageOne_of_readable (h.readable p hp)
  rw [hstaged] at hone
  rcases stageOne_ok hone with ⟨-, hnone⟩ | ⟨e, s', hsome, hprepared⟩
  · cases hnone
  · cases hsome
    exact hprepared.fits (hvalid p hp)

/-- All slots that the file has values for are filled. -/
theorem fill_of_fills (h : Fills f w ps) (hvalid : ∀ p ∈ ps, p.2 < w.slots.size) :
    ∃ w', fill ps (.ok f) w = (.ok (found f ps).length, w') ∧ w.Updates w' (found f ps) ∧
      ∀ p ∈ ps, (f.entry? p.1).isSome = true →
        ∃ s ∈ ps.filterMap (f.staged? w), s.slot = p.2 ∧ w'.slot p.2 = s.store (w.slot p.2) := by
  have hall : List.Forall₂ (fun p o => stageOne f w p.1 p.2 = .ok o) ps
      (ps.map (f.staged? w)) := by
    rw [List.forall₂_map_right_iff, List.forall₂_same]
    exact fun p hp => stageOne_of_readable (h.readable p hp)
  have hstaged : (ps.map (f.staged? w)).reduceOption = ps.filterMap (f.staged? w) := by
    rw [List.reduceOption, List.filterMap_map]
    rfl
  have hfound := stage_found hall
  rw [hstaged] at hfound
  obtain ⟨w', hcommit, hupdates, hstored⟩ := commit_of_agrees (fits_of_fills h hvalid) h.agrees
  rw [hfound] at hupdates hstored
  refine ⟨w', ?_, hupdates, fun p hp hsome => hstored p.2 ?_⟩
  · rw [fill_ok, mapM_eq_ok_iff.mpr hall]
    dsimp only
    rw [hstaged, hcommit, ← hfound, List.length_map]
  · exact List.mem_map_of_mem (List.mem_filter.mpr ⟨hp, hsome⟩)

end SafeTensors

theorem Layer.remarksName_notMem (l : Layer) :
    SafeTensors.remarksName ∉ l.declared.map (·.1) := by
  cases l with
  | linear units bias =>
    change _ ∉ (weightAndBias bias).map (·.1)
    cases bias <;> decide
  | conv c =>
    change _ ∉ (weightAndBias c.bias).map (·.1)
    cases c.bias <;> decide
  | batchNorm axis epsilon momentum =>
    change _ ∉ ["gamma", "beta", "running_mean", "running_var"]
    decide
  | embedding rows width | wordEmbedding rows width =>
    change _ ∉ ["weight"]
    decide
  | dropout rate | flatten | activation a => exact List.not_mem_nil
  | recurrent r =>
    intro hmem
    have hfield : cellField? SafeTensors.remarksName ∈
        ((recurrent r).declared.map (·.1)).map cellField? := List.mem_map_of_mem hmem
    simp only [declared, List.map_flatMap, cellField?_cellParameters, List.mem_flatMap,
      List.mem_map] at hfield
    obtain ⟨_, -, _, -, heq⟩ := hfield
    cases heq

namespace Block

open SafeTensors

/-- No key is the name under which a file keeps its remarks. -/
theorem remarksName_notMem_keys (b : Block) : remarksName ∉ b.keys := by
  intro hmem
  obtain ⟨p, hp, hname⟩ := List.mem_map.mp hmem
  cases b with
  | leaf l slots => exact l.remarksName_notMem (hname ▸ (List.of_mem_zip hp).1)
  | sequential bs =>
    have hplace := le_leadingNumber 1 bs hp
    rw [hname] at hplace
    exact absurd hplace (by decide)

/-- No key is used twice, and parameters are listed in the order of their addresses. So every slot is
found under its key, and a tensor file fills the slots that it has values for: each of these values
comes from an entry that is named by a key of the slot, and is meant for no other key. -/
theorem keys_address (b : Block) :
    b.keys.Nodup ∧
      (∃ as, Addressed (fun a p => b.parameterAt? a.1 a.2 = some p) as b.parameters) ∧
      (∀ p ∈ b.parameters, (Pairs.ofList b.parameters).get? p.1 = some p.2 ∧ p.1 ≠ remarksName) ∧
      (∀ bytes f, ofBytes bytes = .ok f → (f.entries.map (·.name)).Nodup ∧
        SafeTensors.load b.parameters bytes = fill b.parameters (.ok f)) ∧
      ∀ f : File, (f.entries.map (·.name)).Nodup →
        (∀ p ∈ b.parameters, ∀ e ∈ f.entries, e.name = p.1 →
          f.entry? p.1 = some e ∧ ∀ q ∈ b.parameters, e.name = q.1 → q = p) ∧
        ((∀ key ∈ b.keys, ∃ e ∈ f.entries, e.name = key) → found f b.parameters = b.slots) ∧
        ∀ w : Workspace Single, (∀ i ∈ b.slots, i < w.slots.size) → Fills f w b.parameters →
          ∃ w', fill b.parameters (.ok f) w = (.ok (found f b.parameters).length, w') ∧
            w.Updates w' (found f b.parameters) ∧
            ∀ p ∈ b.parameters, (f.entry? p.1).isSome = true →
              ∃ s ∈ b.parameters.filterMap (f.staged? w),
                s.slot = p.2 ∧ w'.slot p.2 = s.store (w.slot p.2) := by
  have hkeys := nodup_keys b
  refine ⟨hkeys, exists_addresses b, fun p hp => ⟨Pairs.get?_of_mem hkeys hp, ?_⟩, ?_, ?_⟩
  · rintro hname
    exact remarksName_notMem_keys b (hname ▸ List.mem_map_of_mem hp)
  · intro bytes f hf
    exact ⟨nodup_of_ofBytes hf, by rw [load_eq_fill, hf]⟩
  intro f hnames
  refine ⟨fun p hp e he hname => ⟨hname ▸ entry?_of_mem hnames he, fun q hq hname' => ?_⟩, ?_, ?_⟩
  · exact List.inj_on_of_nodup_map hkeys hq hp (hname'.symm.trans hname)
  · intro hall
    rw [found, slots, List.filter_eq_self.mpr fun p hp => ?_]
    obtain ⟨e, he, hname⟩ := hall p.1 (List.mem_map_of_mem hp)
    rw [← hname, entry?_of_mem hnames he]
    rfl
  · intro w hvalid hfills
    exact fill_of_fills hfills fun p hp => hvalid p.2 (List.mem_map_of_mem hp)

/-- A sequence in a sequence, with a table that is used twice. The file has its entries in another
order. -/
theorem keys_address_nested :
    let b : Block := .sequential [.leaf (.linear 1 true) [0, 1],
      .sequential [.leaf (.embedding 1 1) [2], .leaf (.activation .relu) []],
      .leaf (.embedding 1 1) [2]]
    let w : Workspace Single := { Workspace.seeded 0 with
      slots := #[.declare "weight" .weight, .declare "bias" .bias, .declare "weight" .weight] }
    let f : File := ⟨[⟨"03embedding_weight", .u8, [1, 1], 0, 1⟩, ⟨"01linear_bias", .u8, [1], 1, 2⟩,
      ⟨"other", .u8, [3], 2, 5⟩, ⟨"02sequential_01embedding_weight", .u8, [1, 1], 5, 6⟩],
      [10, 11, 12, 13, 14, 15]⟩
    b.parameters = [("01linear_weight", 0), ("01linear_bias", 1),
        ("02sequential_01embedding_weight", 2), ("03embedding_weight", 2)] ∧
      b.keys.Nodup ∧ (Pairs.ofList b.parameters).get? "03embedding_weight" = some 2 ∧
      ∃ w', fill b.parameters (.ok f) w = (.ok 3, w') ∧ w.Updates w' [1, 2, 2] ∧
        (w'.slot 1).content = some (.ofArray .uint8 ⟨[1], #[.ofNat 11], rfl⟩ true) := by
  intro b w f
  have hparameters : b.parameters = [("01linear_weight", 0), ("01linear_bias", 1),
      ("02sequential_01embedding_weight", 2), ("03embedding_weight", 2)] := by decide +kernel
  obtain ⟨hkeys, -, hlookup, -, himport⟩ := keys_address b
  obtain ⟨-, -, hfill⟩ := himport f (by decide)
  have hvalid : ∀ i ∈ b.slots, i < w.slots.size := by decide +kernel
  have hfills : Fills f w b.parameters := ⟨by decide +kernel, by decide +kernel⟩
  obtain ⟨w', hok, hupdates, hstored⟩ := hfill w hvalid hfills
  have hfound : found f b.parameters = [1, 2, 2] := by decide +kernel
  have hbias : ("01linear_bias", 1) ∈ b.parameters := by
    rw [hparameters]
    decide
  have htable : ("03embedding_weight", 2) ∈ b.parameters := by
    rw [hparameters]
    decide
  obtain ⟨s, hs, hslot, hstore⟩ := hstored _ hbias (by decide +kernel)
  have hvalue : ∀ s ∈ b.parameters.filterMap (f.staged? w), s.slot = 1 →
      (s.store (w.slot 1)).content = some (.ofArray .uint8 ⟨[1], #[.ofNat 11], rfl⟩ true) := by
    decide +kernel
  rw [hfound] at hok hupdates
  exact ⟨hparameters, hkeys, (hlookup _ htable).1, w', hok, hupdates,
    hstore ▸ hvalue s hs hslot⟩

end Block

end NeuralNet
