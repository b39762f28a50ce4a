import NeuralNet.Proofs.Block.Commit
import NeuralNet.Proofs.Record.Stream

/-!
# Loading and saving

Loading reads a record for every parameter and checks it before a parameter changes. What is saved
behind that are the bytes that were loaded: the values that were read are numbers of the element
type, so that nothing is rounded on the way.

* `load_spec`: loading fails and leaves everything, or fills every parameter from its record;
* `save_after_load`: saving gives back the bytes that were loaded.
-/

namespace NeuralNet

/-- The slot after it took these values: each is replaced by the nearest one of the type, and no
gradient is left. -/
def Slot.Takes (before after : Slot Single) (type : DataType) (s : Extents)
    (values : List Single) : Prop :=
  ∃ data : DenseArray Single, data.extents = s ∧ data.toList = values.map type.quantize ∧
    after = { before with content := some ⟨type, data, none, before.collects⟩ }

namespace ParameterList

open Record (readTimes)

variable {w w' : Workspace Single} {ps : ParameterList} {source rest : ByteSource}

theorem Staged.store_takes (s : Staged) (p : Slot Single) :
    p.Takes (s.store p) s.type s.data.extents s.data.toList := by
  refine ⟨Content.quantized s.type s.data, rfl, ?_, rfl⟩
  simp [Content.quantized, DenseArray.toList, DenseArray.map]

/-! ## Staging -/

/-- The new values are those of a record that is meant for the parameter and that it accepts. -/
structure Assigned (w : Workspace Single) (p : String × Nat) (r : Record) (s : Staged) : Prop where
  name_eq : r.name = p.1
  slot_eq : s.slot = p.2
  type_eq : s.type = r.type
  extents_eq : s.data.extents = r.extents
  values_eq : s.data.toList = r.values
  accepts : (w.slot s.slot).Accepts s.data.extents s.type

theorem Assigned.fits {p : String × Nat} {r : Record} {s : Staged} (h : Assigned w p r s)
    (hp : p.2 < w.slots.size) : s.Fits w :=
  ⟨h.slot_eq ▸ hp, h.accepts⟩

theorem stageOne_ok {total position : Nat} {key : String} {slot : Nat} {s : Staged}
    (h : (stageOne w total position key slot).run source = .ok (s, rest)) :
    ∃ r, Record.read.run source = .ok (some r, rest) ∧ Assigned w (key, slot) r s := by
  unfold stageOne at h
  obtain ⟨_ | r, t, hread, h⟩ := Record.run_bind_ok_iff.mp h
  · cases h
  dsimp only at h
  by_cases hname : r.name = key
  · rw [if_neg (not_not_intro hname)] at h
    obtain ⟨resolved, u, hcheck, hrest⟩ := Record.run_bind_ok_iff.mp h
    obtain ⟨data, v, hdata, hlast⟩ := Record.run_bind_ok_iff.mp hrest
    obtain ⟨hcompatible, rfl⟩ := Record.run_lift_ok_iff.mp hcheck
    obtain ⟨harray, rfl⟩ := Record.run_lift_ok_iff.mp hdata
    cases hlast
    obtain ⟨-, hextents, hvalues⟩ := DenseArray.ofList_eq_ok.mp harray
    refine ⟨r, hread, ⟨hname, rfl, rfl, hextents, hvalues, resolved, ?_⟩⟩
    rw [hextents]
    exact hcompatible
  · rw [if_pos hname] at h
    cases h

theorem stageFrom_ok {total position : Nat} {staged : List Staged}
    (h : (stageFrom w total position ps).run source = .ok (staged, rest)) :
    ∃ xs : List (Record × Staged), staged = xs.map (·.2) ∧
      (readTimes ps.length).run source = .ok (xs.map fun x => some x.1, rest) ∧
      List.Forall₂ (fun p x => Assigned w p x.1 x.2) ps xs := by
  induction ps generalizing position source staged with
  | nil =>
    cases h
    exact ⟨[], rfl, rfl, .nil⟩
  | cons p ps ih =>
    obtain ⟨first, t, hfirst, h⟩ := Record.run_bind_ok_iff.mp h
    obtain ⟨others, u, hothers, h⟩ := Record.run_bind_ok_iff.mp h
    cases h
    obtain ⟨r, hread, hassigned⟩ := stageOne_ok hfirst
    obtain ⟨xs, rfl, htimes, hall⟩ := ih hothers
    refine ⟨(r, first) :: xs, rfl, ?_, .cons hassigned hall⟩
    exact Record.run_bind_ok_iff.mpr ⟨_, _, hread, Record.run_bind_ok_iff.mpr ⟨_, _, htimes, rfl⟩⟩

theorem stageExact_ok {staged : List Staged}
    (h : (ps.stageExact w).run source = .ok (staged, rest)) :
    ∃ last, (ps.stage w).run source = .ok (staged, last) ∧ last.Holds [] := by
  obtain ⟨_, last, hstage, h⟩ := Record.run_bind_ok_iff.mp h
  obtain ⟨next, _, hnext, h⟩ := Record.run_bind_ok_iff.mp h
  cases next with
  | some bytes => cases h
  | none =>
    cases h
    rw [Record.run_readBytes? .values (by decide)] at hnext
    by_cases hend : last.bytes = [] ∧ last.failure? = none
    · exact ⟨last, hstage, hend.1, hend.2⟩
    · rw [if_neg hend, Record.run_map] at hnext
      split at hnext <;> cases hnext

/-! ## Loading -/

/-- The checks that come before any change. -/
def checks (ps : ParameterList) (exact : Bool) (w : Workspace Single) :
    Record.Reader (List Staged) :=
  if exact then ps.stageExact w else ps.stage w

theorem load_apply (ps : ParameterList) (exact : Bool) (source : ByteSource)
    (w : Workspace Single) :
    ps.load exact source w =
      match (ps.checks exact w).run source with
      | .ok (staged, _) => commit staged w
      | .error e => (.error e, w) := by
  unfold load checks
  rw [Run.bind_apply, Run.get_apply]
  dsimp only
  rw [Run.bind_apply, Run.check_apply]
  cases (if exact then ps.stageExact w else ps.stage w).run source <;> rfl

theorem checks_ok {exact : Bool} {staged : List Staged}
    (h : (ps.checks exact w).run source = .ok (staged, rest)) :
    ∃ last, (ps.stage w).run source = .ok (staged, last) ∧ (exact = true → last.Holds []) := by
  cases exact with
  | false => exact ⟨rest, h, fun h => by cases h⟩
  | true =>
    obtain ⟨last, hstage, hlast⟩ := stageExact_ok h
    exact ⟨last, hstage, fun _ => hlast⟩

/-- Every parameter takes the values of its record, and nothing else changes. -/
structure Filled (ps : ParameterList) (rs : List Record) (w w' : Workspace Single) : Prop where
  updates : w.Updates w' (ps.map (·.2))
  takes : List.Forall₂ (fun p r => r.name = p.1 ∧
    (w.slot p.2).Takes (w'.slot p.2) r.type r.extents r.values) ps rs

/-- What passed the checks is stored. -/
theorem load_of_checks {exact : Bool} {staged : List Staged} (hslots : (ps.map (·.2)).Nodup)
    (hvalid : ∀ p ∈ ps, p.2 < w.slots.size)
    (hchecks : (ps.checks exact w).run source = .ok (staged, rest)) :
    ∃ w' rs last, ps.load exact source w = (.ok (), w') ∧
      (readTimes ps.length).run source = .ok (rs.map some, last) ∧
      (exact = true → last.Holds []) ∧ Filled ps rs w w' := by
  obtain ⟨last, hstage, hlast⟩ := checks_ok hchecks
  obtain ⟨xs, rfl, htimes, hall⟩ := stageFrom_ok hstage
  have hfits : ∀ x ∈ xs, x.2.Fits w := by
    intro x hx
    obtain ⟨p, hp, hassigned⟩ := exists_of_mem_right hall hx
    exact hassigned.fits (hvalid p hp)
  have hsame : (xs.map (·.2)).map (·.slot) = ps.map (·.2) := by
    rw [List.map_map]
    exact map_eq_map_of_forall₂ hall fun p x h => h.slot_eq
  obtain ⟨w', hcommit, hupdates, hstored⟩ :=
    commit_of_fits (hsame ▸ hslots) (List.forall_mem_map.mpr hfits)
  refine ⟨w', xs.map (·.1), last, ?_, ?_, hlast, ⟨hsame ▸ hupdates, ?_⟩⟩
  · rw [load_apply, hchecks]
    exact hcommit
  · rw [List.map_map]
    exact htimes
  · have hstored := forall₂_and_right hall (List.forall_mem_map.mp hstored)
    refine List.forall₂_map_right_iff.mpr (hstored.imp ?_)
    rintro p ⟨r, s⟩ ⟨hassigned, hslot⟩
    refine ⟨hassigned.name_eq, ?_⟩
    rw [← hassigned.slot_eq, hslot, ← hassigned.type_eq, ← hassigned.extents_eq,
      ← hassigned.values_eq]
    exact s.store_takes _

/-- Loading fails and leaves everything as it was, or there is a record for every parameter and all
of them are stored. -/
theorem load_spec (hslots : (ps.map (·.2)).Nodup) (hvalid : ∀ p ∈ ps, p.2 < w.slots.size)
    (exact : Bool) (source : ByteSource) :
    (∃ e, ps.load exact source w = (.error e, w)) ∨
      ∃ w' rs last, ps.load exact source w = (.ok (), w') ∧
        (readTimes ps.length).run source = .ok (rs.map some, last) ∧
        (exact = true → last.Holds []) ∧ Filled ps rs w w' := by
  cases hchecks : (ps.checks exact w).run source with
  | error e =>
    left
    refine ⟨e, ?_⟩
    rw [load_apply, hchecks]
  | ok r => exact .inr (load_of_checks hslots hvalid hchecks)

/-! ## Saving -/

theorem save_eq_ok {saved : List UInt8} :
    ps.save w = .ok saved ↔
      ∃ (rs : List Record) (pieces : List (List UInt8)),
        ps.mapM (fun p => (w.slot p.2).toRecord p.1) = .ok rs ∧
          rs.mapM Record.encode = .ok pieces ∧ saved = pieces.flatten := by
  unfold save
  constructor
  · intro h
    obtain ⟨rs, hrecords, h⟩ := bind_eq_ok_iff.mp h
    obtain ⟨pieces, hencodings, h⟩ := bind_eq_ok_iff.mp h
    cases h
    exact ⟨rs, pieces, hrecords, hencodings, rfl⟩
  · rintro ⟨rs, pieces, hrecords, hencodings, rfl⟩
    exact bind_eq_ok_iff.mpr ⟨rs, hrecords, bind_eq_ok_iff.mpr ⟨pieces, hencodings, rfl⟩⟩

theorem toRecord_of_takes {before after : Slot Single} {r : Record}
    (h : before.Takes after r.type r.extents r.values) :
    after.toRecord r.name = .ok r.quantized := by
  obtain ⟨data, hextents, hvalues, rfl⟩ := h
  unfold Slot.toRecord Record.quantized
  rw [← hextents, ← hvalues]
  rfl

/-- The records of filled parameters are written as they stood in the source. -/
theorem save_of_filled {rs : List Record} {pieces : List (List UInt8)} (h : Filled ps rs w w')
    (hpieces : List.Forall₂ (fun r piece => r.quantized.encode = .ok piece) rs pieces) :
    ps.save w' = .ok pieces.flatten := by
  have hrecords : ps.mapM (fun p => (w'.slot p.2).toRecord p.1) =
      .ok (rs.map Record.quantized) := by
    refine mapM_eq_ok_iff.mpr (List.forall₂_map_right_iff.mpr (h.takes.imp ?_))
    rintro p r ⟨hname, htakes⟩
    rw [← hname]
    exact toRecord_of_takes htakes
  have hencodings : (rs.map Record.quantized).mapM Record.encode = .ok pieces :=
    mapM_eq_ok_iff.mpr (List.forall₂_map_left_iff.mpr hpieces)
  exact save_eq_ok.mpr ⟨_, _, hrecords, hencodings, rfl⟩

/-- A source without NaNs that was loaded to its end is what saving writes. -/
theorem save_after_load (hslots : (ps.map (·.2)).Nodup) (hvalid : ∀ p ∈ ps, p.2 < w.slots.size)
    (hload : ps.load true source w = (.ok (), w'))
    (hnumbers : ∀ (rs : List Record) (rest : ByteSource),
      (readTimes ps.length).run source = .ok (rs.map some, rest) →
      ∀ r ∈ rs, ∀ a ∈ r.values, a.isNaN = false) :
    ∃ written, ps.save w' = .ok written ∧ source.Holds written := by
  rcases load_spec hslots hvalid true source with
    ⟨e, herror⟩ | ⟨_, rs, last, hok, htimes, hend, hfilled⟩
  · cases hload.symm.trans herror
  cases hload.symm.trans hok
  obtain ⟨pieces, hpieces, hbytes, hfailure⟩ := Record.readTimes_bytes htimes
  obtain ⟨hnil, hlast⟩ := hend rfl
  refine ⟨pieces.flatten, save_of_filled hfilled ?_, ?_, ?_⟩
  · have hboth := (List.forall₂_and_left rs pieces).mpr ⟨hnumbers rs last htimes, hpieces⟩
    exact hboth.imp fun r piece h => h.2.encode_quantized h.1
  · rw [hbytes, hnil, List.append_nil]
  · rw [← hfailure, hlast]

theorem save_after_load_two :
    let old : Content Single := ⟨.uint8, .ofVector [.ofNat 8, .ofNat 9], some (.zeros [2]), true⟩
    let resolved : Slot Single := ⟨"bias", .bias, false, none, some old⟩
    let w : Workspace Single :=
      { Workspace.seeded 0 with slots := #[.declare "weight" .weight, resolved] }
    let ps : ParameterList := [("a", 1), ("b", 0)]
    let content : List UInt8 :=
      [1, 0, 0, 0, 97, 1, 0, 0, 0, 2, 0, 0, 0, 0, 0, 0, 0, 3, 1, 2,
        1, 0, 0, 0, 98, 0, 0, 0, 0, 5, 255]
    ∃ w', ps.load true (.ofBytes content) w = (.ok (), w') ∧
      ∃ written, ps.save w' = .ok written ∧ (ByteSource.ofBytes content).Holds written := by
  intro old resolved w ps content
  let rs : List Record :=
    [⟨"a", [2], .uint8, [.ofNat 1, .ofNat 2]⟩, ⟨"b", [], .int8, [.ofInt (-1)]⟩]
  have hload : ps.load true (.ofBytes content) w =
      (.ok (), (ps.load true (.ofBytes content) w).2) := Prod.ext (by decide +kernel) rfl
  have hread : (readTimes 2).run (.ofBytes content) = .ok (rs.map some, []) := by
    decide +kernel
  refine ⟨_, hload, save_after_load (by decide) (by decide) hload ?_⟩
  intro rs' rest h
  have hsame : rs = rs' := by
    have := (Prod.mk.inj (Except.ok.inj (hread.symm.trans h))).1
    exact List.map_injective_iff.mpr (Option.some_injective _) this
  subst hsame
  decide

end ParameterList

end NeuralNet
