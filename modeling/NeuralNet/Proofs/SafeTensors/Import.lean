import Mathlib.Data.List.ReduceOption
import NeuralNet.Proofs.Block.Loading
import NeuralNet.SafeTensors.Import

/-!
# Filling parameters from a tensor file

A file is looked at through its entries alone, whatever reader it came from. Both ways of loading
either fail and change nothing, or change just the parameters that they found values for:
`load_all_or_nothing`.
-/

namespace NeuralNet

namespace SafeTensors

open ParameterList (Staged commit commit_of_fits)

variable {f : File} {w : Workspace Single} {ps : ParameterList}

/-! ## Entries -/

theorem mem_of_mem_lastOfEach {β : Type} {entries : List (String × β)} {p : String × β}
    (h : p ∈ lastOfEach entries) : p ∈ entries := by
  induction entries with
  | nil => exact h
  | cons q rest ih =>
    unfold lastOfEach at h
    dsimp only at h
    split at h
    · exact List.mem_cons_of_mem _ (ih h)
    · rcases List.mem_cons.mp h with rfl | h
      · exact List.mem_cons_self
      · exact List.mem_cons_of_mem _ (ih h)

theorem nodup_lastOfEach {β : Type} (entries : List (String × β)) :
    ((lastOfEach entries).map (·.1)).Nodup := by
  induction entries with
  | nil => exact List.nodup_nil
  | cons p rest ih =>
    unfold lastOfEach
    dsimp only
    split
    · exact ih
    · rename_i hnew
      refine List.nodup_cons.mpr ⟨fun hmem => hnew ?_, ih⟩
      obtain ⟨q, hq, hname⟩ := List.mem_map.mp hmem
      exact List.any_eq_true.mpr ⟨q, hq, beq_iff_eq.mpr hname⟩

theorem name_of_entry {name : String} {j : Json} {e : Entry} (h : entry? name j = some e) :
    e.name = name := by
  unfold entry? at h
  split at h
  · cases h
  · obtain ⟨fields, -, h⟩ := Option.bind_eq_some_iff.mp h
    split at h
    · obtain ⟨offsets, -, h⟩ := Option.bind_eq_some_iff.mp h
      split at h
      · obtain ⟨_, -, h⟩ := Option.bind_eq_some_iff.mp h
        obtain ⟨_, -, h⟩ := Option.bind_eq_some_iff.mp h
        cases h
        rfl
      · cases h
    · cases h

theorem name_of_mem_members {members : List (String × Json)} {entries : List (String × Entry)}
    (h : (members.mapM fun (name, j) => do return (name, ← entry? name j)) = some entries) :
    ∀ p ∈ entries, p.2.name = p.1 := by
  induction members generalizing entries with
  | nil =>
    cases h
    exact fun p hp => nomatch hp
  | cons m members ih =>
    rw [List.mapM_cons] at h
    obtain ⟨first, hfirst, h⟩ := Option.bind_eq_some_iff.mp h
    obtain ⟨others, hothers, h⟩ := Option.bind_eq_some_iff.mp h
    obtain ⟨e, he, hfirst⟩ := Option.bind_eq_some_iff.mp hfirst
    cases h
    cases hfirst
    exact List.forall_mem_cons.mpr ⟨name_of_entry he, ih hothers⟩

/-- The tensors of a header have different names. -/
theorem nodup_of_entries? {j : Json} {entries : List Entry} (h : entries? j = some entries) :
    (entries.map (·.name)).Nodup := by
  cases j with
  | object members =>
    obtain ⟨remarks, -, h⟩ := Option.bind_eq_some_iff.mp h
    split at h
    · obtain ⟨named, hnamed, h⟩ := Option.bind_eq_some_iff.mp h
      cases h
      have hnames : ((lastOfEach named).map (·.2)).map (·.name) = (lastOfEach named).map (·.1) := by
        rw [List.map_map]
        exact List.map_congr_left fun p hp =>
          name_of_mem_members hnamed p (mem_of_mem_lastOfEach hp)
      have hsorted := (List.mergeSort_perm ((lastOfEach named).map (·.2)) fun a b =>
        a.start < b.start || (a.start == b.start && a.stop ≤ b.stop)).map (·.name)
      exact hsorted.nodup_iff.mpr (hnames ▸ nodup_lastOfEach named)
    · cases h
  | _ => cases h

theorem nodup_of_ofBytes {bytes : List UInt8} (h : ofBytes bytes = .ok f) :
    (f.entries.map (·.name)).Nodup := by
  unfold ofBytes at h
  dsimp only at h
  split at h
  · cases h
  · split at h
    · cases h
    · split at h
      · cases h
      · split at h
        · split at h
          · rename_i entries hentries
            obtain ⟨stop, -, h⟩ := bind_eq_ok_iff.mp h
            obtain ⟨header, -, hentries⟩ := Option.bind_eq_some_iff.mp hentries
            split at h
            · cases h
            · cases h
              exact nodup_of_entries? hentries
          · cases h
        · cases h

theorem entry?_of_mem (hnames : (f.entries.map (·.name)).Nodup) {e : Entry} (he : e ∈ f.entries) :
    f.entry? e.name = some e := by
  cases hfind : f.entry? e.name with
  | none =>
    have hother := List.find?_eq_none.mp hfind e he
    exact absurd (beq_self_eq_true e.name) hother
  | some e' =>
    have hsome := List.find?_some (p := fun e' : Entry => e'.name == e.name) hfind
    have hname : e'.name = e.name := beq_iff_eq.mp hsome
    rw [List.inj_on_of_nodup_map hnames (List.mem_of_find?_eq_some hfind) he hname]

/-! ## Staging -/

/-- The new values are those of the entry under the key of the parameter. A resolved parameter keeps
its type. -/
structure Prepared (f : File) (w : Workspace Single) (p : String × Nat) (e : Entry) (s : Staged) :
    Prop where
  entry_eq : f.entry? p.1 = some e
  slot_eq : s.slot = p.2
  extents_eq : s.data.extents = e.extents
  decoded : ∃ source, e.decode (f.bytes e) = .ok (source, s.data.toList) ∧
    s.type = (w.slot p.2).type.getD source
  accepts : (w.slot s.slot).Accepts s.data.extents s.type

theorem Prepared.fits {p : String × Nat} {e : Entry} {s : Staged} (h : Prepared f w p e s)
    (hp : p.2 < w.slots.size) : s.Fits w :=
  ⟨h.slot_eq ▸ hp, h.accepts⟩

theorem stageOne_ok {p : String × Nat} {o : Option Staged}
    (h : stageOne f w p.1 p.2 = .ok o) :
    (f.entry? p.1 = none ∧ o = none) ∨ ∃ e s, o = some s ∧ Prepared f w p e s := by
  unfold stageOne at h
  cases hentry : f.entry? p.1 with
  | none =>
    rw [hentry] at h
    cases h
    exact .inl ⟨rfl, rfl⟩
  | some e =>
    right
    rw [hentry] at h
    obtain ⟨⟨source, values⟩, hdecode, hrest⟩ := bind_eq_ok_iff.mp h
    obtain ⟨data, hdata, hlast⟩ := bind_eq_ok_iff.mp hrest
    obtain ⟨-, hextents, hvalues⟩ := DenseArray.ofList_eq_ok.mp hdata
    rw [← hvalues] at hdecode
    cases hcontent : (w.slot p.2).content with
    | none =>
      rw [hcontent] at hlast
      cases hlast
      refine ⟨e, _, rfl, hentry, rfl, hextents, ⟨source, hdecode, ?_⟩, ?_⟩
      · simp [Slot.type, hcontent]
      · exact Slot.accepts_iff.mpr fun c hc => by cases hcontent.symm.trans hc
    | some c =>
      rw [hcontent] at hlast
      dsimp only at hlast
      by_cases hsame : c.data.extents = data.extents
      · rw [if_pos hsame] at hlast
        cases hlast
        refine ⟨e, _, rfl, hentry, rfl, hextents, ⟨source, hdecode, ?_⟩, ?_⟩
        · simp [Slot.type, hcontent]
        · refine Slot.accepts_iff.mpr fun c' hc => ?_
          cases hcontent.symm.trans hc
          exact ⟨hsame, rfl⟩
      · rw [if_neg hsame] at hlast
        cases hlast

/-- The slots of the parameters that the file has values for. -/
def found (f : File) (ps : ParameterList) : List Nat :=
  (ps.filter fun p => (f.entry? p.1).isSome).map (·.2)

theorem found_sublist (f : File) (ps : ParameterList) : (found f ps).Sublist (ps.map (·.2)) :=
  List.filter_sublist.map _

theorem stage_found {os : List (Option Staged)}
    (h : List.Forall₂ (fun p o => stageOne f w p.1 p.2 = .ok o) ps os) :
    os.reduceOption.map (·.slot) = found f ps := by
  induction h with
  | nil => rfl
  | @cons p o ps os hone _ ih =>
    rcases stageOne_ok hone with ⟨hentry, rfl⟩ | ⟨e, s, rfl, hs⟩
    · rw [List.reduceOption_cons_of_none, ih, found, found,
        List.filter_cons_of_neg (by simp [hentry])]
    · rw [List.reduceOption_cons_of_some, List.map_cons, ih, hs.slot_eq, found, found,
        List.filter_cons_of_pos (by simp [hs.entry_eq]), List.map_cons]

/-! ## Filling -/

/-- Fills parameters from the outcome of reading a file. -/
def fill (ps : ParameterList) (parsed : Except SafeTensorsFault File) : Run Single Nat := do
  let f ← Run.check (parsed.mapError .safeTensors)
  let w ← get
  let staged ← Run.check (ps.mapM fun (key, slot) => stageOne f w key slot)
  commit staged.reduceOption
  return staged.reduceOption.length

theorem load_eq_fill (ps : ParameterList) (bytes : List UInt8) :
    load ps bytes = fill ps (ofBytes bytes) := rfl

theorem fill_error (ps : ParameterList) (fault : SafeTensorsFault) (w : Workspace Single) :
    fill ps (.error fault) w = (.error (.safeTensors fault), w) := by
  unfold fill
  rw [Run.bind_apply, Run.check_apply]
  rfl

theorem fill_ok (ps : ParameterList) (f : File) (w : Workspace Single) :
    fill ps (.ok f) w =
      match ps.mapM fun p => stageOne f w p.1 p.2 with
      | .error e => (.error e, w)
      | .ok staged =>
        match commit staged.reduceOption w with
        | (.ok _, w') => (.ok staged.reduceOption.length, w')
        | (.error e, w') => (.error e, w') := by
  unfold fill
  rw [Run.bind_apply, Run.check_apply]
  simp only [Except.mapError]
  rw [Run.bind_apply, Run.get_apply]
  dsimp only
  rw [Run.bind_apply, Run.check_apply]
  cases ps.mapM fun p => stageOne f w p.1 p.2 with
  | error e => rfl
  | ok staged =>
    dsimp only
    rw [Run.bind_apply]
    rcases commit staged.reduceOption w with ⟨_ | _, _⟩ <;> rfl

/-- Parameters with an entry take its values, and nothing else changes. -/
structure Imported (f : File) (ps : ParameterList) (w w' : Workspace Single) : Prop where
  updates : w.Updates w' (found f ps)
  takes : ∀ p ∈ ps, ∀ e, f.entry? p.1 = some e →
    ∃ source values, e.decode (f.bytes e) = .ok (source, values) ∧
      (w.slot p.2).Takes (w'.slot p.2) ((w.slot p.2).type.getD source) e.extents values
  missing : ∀ p ∈ ps, f.entry? p.1 = none → w'.slot p.2 = w.slot p.2

theorem fill_spec (hslots : (ps.map (·.2)).Nodup) (hvalid : ∀ p ∈ ps, p.2 < w.slots.size)
    (parsed : Except SafeTensorsFault File) :
    (∃ e, fill ps parsed w = (.error e, w)) ∨
      ∃ f w', parsed = .ok f ∧ fill ps parsed w = (.ok (found f ps).length, w') ∧
        Imported f ps w w' := by
  cases parsed with
  | error fault => exact .inl ⟨_, fill_error ps fault w⟩
  | ok f =>
    rw [fill_ok]
    cases hstage : ps.mapM fun p => stageOne f w p.1 p.2 with
    | error e => exact .inl ⟨e, rfl⟩
    | ok os =>
      right
      have hall := mapM_eq_ok_iff.mp hstage
      have hfound := stage_found hall
      have hnodup : (os.reduceOption.map (·.slot)).Nodup :=
        hfound ▸ (found_sublist f ps).nodup hslots
      have hfits : ∀ s ∈ os.reduceOption, s.Fits w := by
        intro s hs
        obtain ⟨p, hp, hone⟩ := exists_of_mem_right hall (List.reduceOption_mem_iff.mp hs)
        rcases stageOne_ok hone with ⟨-, hnone⟩ | ⟨e, s', hsome, hprepared⟩
        · cases hnone
        · cases hsome
          exact hprepared.fits (hvalid p hp)
      obtain ⟨w', hcommit, hupdates, hstored⟩ := commit_of_fits hnodup hfits
      rw [hfound] at hupdates
      refine ⟨f, w', rfl, ?_, hupdates, ?_, ?_⟩
      · dsimp only
        rw [hcommit, ← hfound, List.length_map]
      · intro p hp e hentry
        obtain ⟨o, ho, hone⟩ := exists_of_mem_left hall hp
        rcases stageOne_ok hone with ⟨hnone, -⟩ | ⟨e', s, rfl, hprepared⟩
        · cases hnone.symm.trans hentry
        · cases hprepared.entry_eq.symm.trans hentry
          obtain ⟨source, hdecode, htype⟩ := hprepared.decoded
          refine ⟨source, _, hdecode, ?_⟩
          rw [← htype, ← hprepared.extents_eq, ← hprepared.slot_eq,
            hstored s (List.reduceOption_mem_iff.mpr ho)]
          exact s.store_takes _
      · intro p hp hentry
        -- Its slot belongs to no other parameter, so it is none of those that changed.
        refine hupdates.slot_eq p.2 fun hmem => ?_
        obtain ⟨q, hq, hslot⟩ := List.mem_map.mp hmem
        obtain ⟨hq, hsome⟩ := List.mem_filter.mp hq
        obtain rfl := List.inj_on_of_nodup_map hslots hq hp hslot
        rw [hentry] at hsome
        cases hsome

/-- Parameters in different slots are loaded all or not at all, from records and from a tensor
file. -/
theorem load_all_or_nothing (hslots : (ps.map (·.2)).Nodup)
    (hvalid : ∀ p ∈ ps, p.2 < w.slots.size) :
    (∀ (exact : Bool) (source : ByteSource) (result : Except Error Unit) (w' : Workspace Single),
      ps.load exact source w = (result, w') →
        (∀ e, result = .error e → w' = w) ∧
        (result = .ok () → ∃ (rs : List Record) (last : ByteSource),
          (Record.readTimes ps.length).run source = .ok (rs.map some, last) ∧
          (exact = true → last.Holds []) ∧ ParameterList.Filled ps rs w w')) ∧
      (∀ (parsed : Except SafeTensorsFault File) (result : Except Error Nat)
        (w' : Workspace Single), fill ps parsed w = (result, w') →
          (∀ e, result = .error e → w' = w) ∧
          ∀ count, result = .ok count →
            ∃ f, parsed = .ok f ∧ count = (found f ps).length ∧ Imported f ps w w') ∧
      ∀ bytes, load ps bytes = fill ps (ofBytes bytes) := by
  refine ⟨?_, ?_, load_eq_fill ps⟩
  · intro exact source result w' hload
    rcases ParameterList.load_spec hslots hvalid exact source with
      ⟨e, herror⟩ | ⟨_, rs, last, hok, htimes, hend, hfilled⟩
    · cases hload.symm.trans herror
      exact ⟨fun _ _ => rfl, fun h => by cases h⟩
    · cases hload.symm.trans hok
      exact ⟨fun _ h => (by cases h), fun _ => ⟨rs, last, htimes, hend, hfilled⟩⟩
  · intro parsed result w' hfill
    rcases fill_spec hslots hvalid parsed with ⟨e, herror⟩ | ⟨f, _, rfl, hok, himported⟩
    · cases hfill.symm.trans herror
      exact ⟨fun _ _ => rfl, fun _ h => by cases h⟩
    · cases hfill.symm.trans hok
      refine ⟨fun _ h => (by cases h), fun count h => ?_⟩
      cases h
      exact ⟨f, rfl, rfl, himported⟩

theorem load_all_or_nothing_one :
    let w : Workspace Single := { Workspace.seeded 0 with slots := #[.declare "weight" .weight] }
    let ps : ParameterList := [("a", 0)]
    let f : File := ⟨[⟨"a", .u8, [2], 0, 2⟩], [5, 6]⟩
    (ps.load false (.ofBytes [1, 0]) w).2 = w ∧
      ∃ w', fill ps (.ok f) w = (.ok 1, w') ∧ Imported f ps w w' := by
  intro w ps f
  have hslots : (ps.map (·.2)).Nodup := by decide
  have hvalid : ∀ p ∈ ps, p.2 < w.slots.size := by decide
  obtain ⟨hload, hfill, -⟩ := load_all_or_nothing hslots hvalid
  have herror : (ps.load false (.ofBytes [1, 0]) w).1 =
      .error (.malformedStream (.endedIn .nameLength)) := by decide +kernel
  have hok : fill ps (.ok f) w = (.ok 1, (fill ps (.ok f) w).2) := Prod.ext (by decide +kernel) rfl
  refine ⟨(hload false (.ofBytes [1, 0]) _ _ rfl).1 _ herror, _, hok, ?_⟩
  obtain ⟨_, hf, -, himported⟩ := (hfill _ _ _ hok).2 1 rfl
  cases hf
  exact himported

end SafeTensors

end NeuralNet
