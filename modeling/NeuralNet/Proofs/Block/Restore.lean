import NeuralNet.Proofs.Block.Loading
import NeuralNet.Proofs.DataType.Quantize

/-!
# Loading what was saved

The keys of a block tell where its parameters stand in the tree, and nothing of their slots. So a
block of the same construction asks for just the records that were written, in the same order. It
takes them if its own parameters have no content or one of the same extents and type.

* `keys_outline`: the keys depend on the construction;
* `checks_of_readTimes`: records that suit the parameters pass the checks;
* `load_save`: the parameters of the one block are then those of the other.
-/

namespace NeuralNet

/-! ## Keys -/

namespace Block

mutual

/-- The construction of a block: its layers as they are nested, without the slots. -/
def outline : Block → Block
  | leaf layer slots => leaf layer (slots.map fun _ => 0)
  | sequential bs => sequential (outlineAll bs)

def outlineAll : List Block → List Block
  | [] => []
  | b :: rest => b.outline :: outlineAll rest

end

theorem name_outline (b : Block) : b.outline.name = b.name := by
  cases b <;> rfl

def keys (b : Block) : List String := b.parameters.map (·.1)

mutual

theorem keys_outline : (b : Block) → b.outline.keys = b.keys
  | leaf layer slots => by
    simp only [keys, outline, parameters, List.zip_map_right, List.map_map]
    rfl
  | sequential bs => keysFrom_outline 1 bs

theorem keysFrom_outline (place : Nat) : (bs : List Block) →
    (parametersFrom place (outlineAll bs)).map (·.1) = (parametersFrom place bs).map (·.1)
  | [] => rfl
  | b :: rest => by
    have hfirst := congrArg (List.map fun key => childName place b ++ "_" ++ key) (keys_outline b)
    have hname : childName place b.outline = childName place b := by
      rw [childName, childName, name_outline]
    simp only [keys, List.map_map] at hfirst
    simp only [outlineAll, parametersFrom, List.map_append, List.map_map, hname,
      keysFrom_outline (place + 1) rest]
    exact congrArg (· ++ _) hfirst

end

end Block

/-! ## Checks that pass -/

namespace ParameterList

open Record (readTimes)

variable {w : Workspace Single} {ps : ParameterList} {p : String × Nat} {r : Record}
  {rs : List Record} {source rest : ByteSource}

/-- The record is meant for the parameter, and its values can be stored there. -/
structure Suits (w : Workspace Single) (p : String × Nat) (r : Record) : Prop where
  name_eq : r.name = p.1
  accepts : (w.slot p.2).Accepts r.extents r.type
  array_ok : ∃ data, DenseArray.ofList r.extents r.values = .ok data

theorem Suits.stageOne (h : Suits w p r) (total position : Nat)
    (hread : Record.read.run source = .ok (some r, rest)) :
    ∃ s, (stageOne w total position p.1 p.2).run source = .ok (s, rest) := by
  obtain ⟨resolved, hcheck⟩ := h.accepts
  obtain ⟨data, hdata⟩ := h.array_ok
  refine ⟨⟨p.2, r.type, data⟩, ?_⟩
  unfold ParameterList.stageOne
  refine Record.run_bind_ok_iff.mpr ⟨_, _, hread, ?_⟩
  dsimp only
  rw [if_neg (not_not_intro h.name_eq)]
  refine Record.run_bind_ok_iff.mpr ⟨_, _, Record.run_lift_ok_iff.mpr ⟨hcheck, rfl⟩, ?_⟩
  exact Record.run_bind_ok_iff.mpr ⟨_, _, Record.run_lift_ok_iff.mpr ⟨hdata, rfl⟩, rfl⟩

theorem stageFrom_of_readTimes (h : List.Forall₂ (Suits w) ps rs) (total position : Nat)
    (hread : (readTimes ps.length).run source = .ok (rs.map some, rest)) :
    ∃ staged, (stageFrom w total position ps).run source = .ok (staged, rest) := by
  induction h generalizing position source with
  | nil =>
    cases hread
    exact ⟨[], rfl⟩
  | cons hsuits _ ih =>
    obtain ⟨first, middle, hfirst, hread⟩ := Record.run_bind_ok_iff.mp hread
    obtain ⟨others, last, hothers, hread⟩ := Record.run_bind_ok_iff.mp hread
    cases hread
    obtain ⟨s, hs⟩ := hsuits.stageOne total position hfirst
    obtain ⟨staged, hstaged⟩ := ih (position + 1) hothers
    refine ⟨s :: staged, Record.run_bind_ok_iff.mpr ⟨_, _, hs, ?_⟩⟩
    exact Record.run_bind_ok_iff.mpr ⟨_, _, hstaged, rfl⟩

/-- A record for every parameter and nothing behind them. -/
theorem checks_of_readTimes (h : List.Forall₂ (Suits w) ps rs)
    (hread : (readTimes ps.length).run source = .ok (rs.map some, rest)) (hend : rest.Holds []) :
    ∃ staged last, (ps.checks true w).run source = .ok (staged, last) := by
  obtain ⟨staged, hstaged⟩ := stageFrom_of_readTimes h ps.length 0 hread
  refine ⟨staged, rest.skip 1, Record.run_bind_ok_iff.mpr ⟨_, _, hstaged, ?_⟩⟩
  refine Record.run_bind_ok_iff.mpr ⟨none, _, ?_, rfl⟩
  rw [Record.run_readBytes? .values (by decide), if_pos ⟨hend.bytes_eq, hend.failure_eq⟩]

/-! ## What is read back -/

/-- The record has the extents and the type of the content, and what is stored from it are the same
values: equal numbers for numbers, and NaN for NaN. -/
structure Carries (r : Record) (c : Content Single) : Prop where
  extents_eq : r.extents = c.data.extents
  type_eq : r.type = c.type
  values : List.Forall₂ Single.Agrees (r.values.map r.type.quantize) c.data.toList

/-- The content is an array in memory, and its values can be read back from storage. -/
structure Persists (c : Content Single) : Prop where
  addressable : c.data.extents.addressable = true
  keeps : ∀ a ∈ c.data.toList, c.type.Keeps a

/-- The record is what is read back for a saved parameter. -/
def Returns (w : Workspace Single) (p : String × Nat) (r : Record) : Prop :=
  ∃ c, (w.slot p.2).content = some c ∧ Persists c ∧ r.name = p.1 ∧ Carries r c

theorem toRecord_eq_ok {p : Slot Single} {key : String} :
    p.toRecord key = .ok r ↔
      ∃ c, p.content = some c ∧ r = ⟨key, c.data.extents, c.type, c.data.toList⟩ := by
  unfold Slot.toRecord Slot.require
  cases p.content with
  | none => simp [bind, Except.bind]
  | some c => simp [bind, Except.bind, pure, Except.pure, eq_comm]

theorem exists_reread
    (hsaved : List.Forall₂ (fun p r => (w.slot p.2).toRecord p.1 = .ok r) ps rs)
    (hpersists : ∀ p ∈ ps, ∀ c, (w.slot p.2).content = some c → Persists c) :
    ∃ rs', List.Forall₂ (fun r r' => r.reread = .ok r') rs rs' ∧
      List.Forall₂ (Returns w) ps rs' := by
  induction hsaved with
  | nil => exact ⟨[], .nil, .nil⟩
  | cons hrecord _ ih =>
    obtain ⟨hfirst, hpersists⟩ := List.forall_mem_cons.mp hpersists
    obtain ⟨c, hcontent, rfl⟩ := toRecord_eq_ok.mp hrecord
    have hc := hfirst c hcontent
    obtain ⟨read, hread, hagree⟩ := DataType.decode_encode_of_keeps hc.keeps
    obtain ⟨rs', hreread, hall⟩ := ih hpersists
    refine ⟨_ :: rs', .cons (bind_eq_ok_iff.mpr ⟨read, hread, rfl⟩) hreread, .cons ?_ hall⟩
    exact ⟨c, hcontent, hc, rfl, rfl, rfl, hagree⟩

/-- What was saved is read back record by record. -/
theorem readTimes_of_save {saved : List UInt8} (hsave : ps.save w = .ok saved)
    (hpersists : ∀ p ∈ ps, ∀ c, (w.slot p.2).content = some c → Persists c)
    (hlen : saved.length < wordCount 8) (hsource : source.Holds saved) :
    ∃ rs rest, (readTimes ps.length).run source = .ok (rs.map some, rest) ∧ rest.Holds [] ∧
      List.Forall₂ (Returns w) ps rs := by
  obtain ⟨rs, pieces, hrecords, hencode, rfl⟩ := save_eq_ok.mp hsave
  have hsaved := mapM_eq_ok_iff.mp hrecords
  obtain ⟨rs', hreread, hreturns⟩ := exists_reread hsaved hpersists
  have hextents : ∀ r ∈ rs, ∀ n ∈ r.extents, n < wordCount 8 := by
    intro r hr n hn
    obtain ⟨p, hp, hrecord⟩ := exists_of_mem_right hsaved hr
    obtain ⟨c, hcontent, rfl⟩ := toRecord_eq_ok.mp hrecord
    have hlt := Extents.lt_of_addressable (hpersists p hp c hcontent).addressable hn
    exact hlt.trans (by decide)
  rw [← List.append_nil pieces.flatten] at hsource
  obtain ⟨rest, hread, hend, -⟩ :=
    Record.readTimes_encode hencode (mapM_eq_ok_iff.mpr hreread) hextents hlen hsource
  rw [hsaved.length_eq]
  exact ⟨rs', rest, hread, hend, hreturns⟩

end ParameterList

/-! ## Loading -/

/-- The slot after it took the content of another: the same extents and type, equal numbers for
numbers and NaN for NaN. There is no gradient, and all else is as it was. -/
def Slot.Restores (before after : Slot Single) (c : Content Single) : Prop :=
  ∃ data : DenseArray Single, data.extents = c.data.extents ∧
    List.Forall₂ Single.Agrees data.toList c.data.toList ∧
    after = { before with content := some ⟨c.type, data, none, before.collects⟩ }

namespace ParameterList

variable {wa wb : Workspace Single} {ps qs : ParameterList} {p q : String × Nat} {r : Record}
  {c : Content Single} {source : ByteSource}

/-- Parameters of the same key, the second of which has no content or one of the extents and the
type that the first one has. -/
structure Meets (wa wb : Workspace Single) (p q : String × Nat) : Prop where
  key_eq : p.1 = q.1
  fits : ∀ c d, (wa.slot p.2).content = some c → (wb.slot q.2).content = some d →
    d.data.extents = c.data.extents ∧ d.type = c.type

theorem Carries.array_ok (h : Carries r c) (hc : Persists c) :
    ∃ data, DenseArray.ofList r.extents r.values = .ok data := by
  have hlen := h.values.length_eq
  rw [List.length_map, DenseArray.toList, Array.length_toList, c.data.size_eq,
    ← h.extents_eq] at hlen
  exact ⟨⟨r.extents, r.values.toArray, by simpa using hlen⟩,
    DenseArray.ofList_eq_ok.mpr ⟨h.extents_eq ▸ hc.addressable, rfl, rfl⟩⟩

theorem Meets.suits (h : Meets wa wb p q) (hr : Returns wa p r) : Suits wb q r := by
  obtain ⟨c, hcontent, hc, hname, hcarries⟩ := hr
  refine ⟨hname.trans h.key_eq, Slot.accepts_iff.mpr fun d hd => ?_, hcarries.array_ok hc⟩
  rw [hcarries.extents_eq, hcarries.type_eq]
  exact h.fits c d hcontent hd

theorem Carries.restores {before after : Slot Single} (h : Carries r c)
    (htakes : before.Takes after r.type r.extents r.values) : before.Restores after c := by
  obtain ⟨data, hextents, hvalues, rfl⟩ := htakes
  refine ⟨data, hextents.trans h.extents_eq, ?_, by rw [h.type_eq]⟩
  rw [hvalues]
  exact h.values

/-- What was saved from some parameters is loaded into others that meet them. -/
theorem load_of_meets {saved : List UInt8} (hpairs : List.Forall₂ (Meets wa wb) ps qs)
    (hslots : (qs.map (·.2)).Nodup) (hvalid : ∀ q ∈ qs, q.2 < wb.slots.size)
    (hsave : ps.save wa = .ok saved)
    (hpersists : ∀ p ∈ ps, ∀ c, (wa.slot p.2).content = some c → Persists c)
    (hlen : saved.length < wordCount 8) (hsource : source.Holds saved) :
    ∃ wb', qs.load true source wb = (.ok (), wb') ∧ wb.Updates wb' (qs.map (·.2)) ∧
      List.Forall₂ (fun p q => p.1 = q.1 ∧ ∃ c, (wa.slot p.2).content = some c ∧
        (wb.slot q.2).Restores (wb'.slot q.2) c) ps qs := by
  obtain ⟨rs, rest, hread, hend, hreturns⟩ := readTimes_of_save hsave hpersists hlen hsource
  have hsuits : List.Forall₂ (Suits wb) qs rs :=
    forall₂_of_common hpairs hreturns fun p q r => Meets.suits
  rw [hpairs.length_eq] at hread
  obtain ⟨staged, last, hchecks⟩ := checks_of_readTimes hsuits hread hend
  obtain ⟨wb', rs', _, hload, hread', -, hfilled⟩ := load_of_checks hslots hvalid hchecks
  -- what is stored comes from the same records
  obtain rfl : rs = rs' := by
    have h := (Prod.mk.inj (Except.ok.inj (hread.symm.trans hread'))).1
    exact List.map_injective_iff.mpr (Option.some_injective _) h
  refine ⟨wb', hload, hfilled.updates, ?_⟩
  refine forall₂_of_common hreturns.flip hfilled.takes.flip ?_
  rintro r p q ⟨c, hcontent, -, hname, hcarries⟩ ⟨hkey, htakes⟩
  exact ⟨hname.symm.trans hkey, c, hcontent, hcarries.restores htakes⟩

end ParameterList

namespace Block

open ParameterList (Meets Persists)

variable {a b : Block} {wa wb : Workspace Single} {saved : List UInt8} {source : ByteSource}

theorem forall₂_keys (hsame : a.outline = b.outline) :
    List.Forall₂ (fun p q => p.1 = q.1) a.parameters b.parameters := by
  have h : a.keys = b.keys := by rw [← keys_outline a, hsame, keys_outline]
  rw [← List.forall₂_eq_eq_eq, keys, keys, List.forall₂_map_left_iff,
    List.forall₂_map_right_iff] at h
  exact h

/-- What one block saved restores it in another of the same construction that shares no slots, place
by place and under the same keys. -/
theorem load_save (hsame : a.outline = b.outline) (hslots : b.slots.Nodup)
    (hvalid : ∀ j ∈ b.slots, j < wb.slots.size)
    (hsave : ParameterList.save a.parameters wa = .ok saved)
    (hpersists : ∀ i ∈ a.slots, ∀ c, (wa.slot i).content = some c → Persists c)
    (hfits : List.Forall₂ (fun i j => ∀ c d, (wa.slot i).content = some c →
      (wb.slot j).content = some d → d.data.extents = c.data.extents ∧ d.type = c.type)
      a.slots b.slots)
    (hlen : saved.length < wordCount 8) (hsource : source.Holds saved) :
    ∃ wb', ParameterList.load b.parameters true source wb = (.ok (), wb') ∧
      wb.Updates wb' b.slots ∧
      List.Forall₂ (fun p q => p.1 = q.1 ∧ ∃ c, (wa.slot p.2).content = some c ∧
        (wb.slot q.2).Restores (wb'.slot q.2) c) a.parameters b.parameters := by
  have hpairs : List.Forall₂ (Meets wa wb) a.parameters b.parameters := by
    rw [slots, slots, List.forall₂_map_left_iff, List.forall₂_map_right_iff] at hfits
    exact (forall₂_and.mpr ⟨forall₂_keys hsame, hfits⟩).imp fun p q h => ⟨h.1, h.2⟩
  exact ParameterList.load_of_meets hpairs hslots (List.forall_mem_map.mp hvalid) hsave
    (List.forall_mem_map.mp hpersists) hlen hsource

theorem load_save_nested :
    let block (i j : Nat) : Block :=
      sequential [leaf (.linear 1 false) [i], sequential [leaf (.embedding 1 2) [j]]]
    let first : Content Single := ⟨.uint8, ⟨[1, 1], #[.ofNat 3], rfl⟩, none, true⟩
    let second : Content Single :=
      ⟨.float16, ⟨[1, 2], #[.ofInt (-1), .nan], rfl⟩, some (.zeros [1, 2]), true⟩
    let old : Content Single := ⟨.float16, .zeros [1, 2], some (.zeros [1, 2]), false⟩
    let w : Workspace Single :=
      { Workspace.seeded 0 with
        slots := #[⟨"weight", .weight, true, none, some first⟩,
          ⟨"weight", .weight, true, none, some second⟩, .declare "weight" .weight,
          ⟨"weight", .weight, false, none, some old⟩] }
    let saved : List UInt8 :=
      [15, 0, 0, 0] ++ Record.nameBytes "01linear_weight" ++ [2, 0, 0, 0] ++
        [1, 0, 0, 0, 0, 0, 0, 0, 1, 0, 0, 0, 0, 0, 0, 0] ++ [3, 3] ++
        [31, 0, 0, 0] ++ Record.nameBytes "02sequential_01embedding_weight" ++ [2, 0, 0, 0] ++
        [1, 0, 0, 0, 0, 0, 0, 0, 2, 0, 0, 0, 0, 0, 0, 0] ++ [2, 0, 188, 0, 126]
    ∃ w', ParameterList.load (block 2 3).parameters true (.ofBytes saved) w = (.ok (), w') ∧
      w.Updates w' [2, 3] ∧ (w.slot 2).Restores (w'.slot 2) first ∧
      (w.slot 3).Restores (w'.slot 3) second := by
  intro block first second old w saved
  have hpersists : ∀ i ∈ (block 0 1).slots, ∀ c, (w.slot i).content = some c → Persists c := by
    have hfirst : Persists first :=
      ⟨by decide, List.forall_mem_singleton.mpr ⟨.ofNat 3, by decide +kernel, .inl (by decide)⟩⟩
    have hsecond : Persists second := by
      refine ⟨by decide, List.forall_mem_cons.mpr ⟨?_, List.forall_mem_singleton.mpr ?_⟩⟩
      · exact ⟨.ofInt (-1), by decide +kernel, .inl (by decide)⟩
      · exact ⟨.nan, by decide +kernel, .inr (by decide)⟩
    have hslots : (block 0 1).slots = [0, 1] := by decide
    rw [hslots]
    refine List.forall_mem_cons.mpr ⟨?_, List.forall_mem_singleton.mpr ?_⟩
    · rintro _ ⟨⟩
      exact hfirst
    · rintro _ ⟨⟩
      exact hsecond
  have hfits : List.Forall₂ (fun i j => ∀ c d, (w.slot i).content = some c →
      (w.slot j).content = some d → d.data.extents = c.data.extents ∧ d.type = c.type)
      (block 0 1).slots (block 2 3).slots := by
    refine .cons ?_ (.cons ?_ .nil)
    · rintro c d - ⟨⟩
    · rintro c d ⟨⟩ ⟨⟩
      exact ⟨rfl, rfl⟩
  have hsave : ParameterList.save (block 0 1).parameters w = .ok saved := by decide +kernel
  have hsame : (block 0 1).outline = (block 2 3).outline := rfl
  have hvalid : ∀ j ∈ (block 2 3).slots, j < w.slots.size := by decide
  obtain ⟨w', hload, hupdates, hall⟩ := load_save hsame (by decide) hvalid hsave hpersists hfits
    (by decide) (ByteSource.holds_ofBytes saved)
  obtain ⟨⟨-, c, ⟨⟩, hrestores⟩, hall⟩ := List.forall₂_cons.mp hall
  obtain ⟨⟨-, d, ⟨⟩, hrestores'⟩, -⟩ := List.forall₂_cons.mp hall
  exact ⟨w', hload, hupdates, hrestores, hrestores'⟩

end Block

end NeuralNet
