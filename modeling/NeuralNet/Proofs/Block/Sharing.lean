import NeuralNet.Proofs.SafeTensors.Import
import NeuralNet.Proofs.Session.Lifecycle

/-!
# Loading into shared parameters

Two keys may name one slot. All new values are checked against the slots as they are before any of
them is stored, and a slot without content accepts what is meant for each of its keys. Once the
first of these is stored, the slot has extents and a type, and may refuse the next.

* `commit_error_iff`: storing stops at the first new values that are refused;
* `accepts_commit_iff`: a slot accepts new values as before unless others were stored in it;
* `load_error_iff`: loading fails before anything is stored, or half way at a slot that was without
  content.
-/

namespace NeuralNet

/-- Only extents and type decide what is accepted. -/
theorem Slot.accepts_iff_matches {α : Type} {p : Slot α} {s : Extents} {type : DataType} :
    p.Accepts s type ↔ (∀ s', p.extents = some s' → s' = s) ∧ ∀ t, p.type = some t → t = type := by
  rw [accepts_iff, Slot.extents, Slot.type]
  cases p.content <;> simp

namespace ParameterList

open Workspace

variable {w w' : Workspace Single} {staged before after : List Staged} {s t : Staged} {e : Error}

/-! ## Storing one after another -/

theorem setArray_error_iff {p : Slot Single} :
    p.setArray s.type s.data = .error e ↔ p.checkCompatible s.data.extents s.type = .error e := by
  unfold Slot.setArray
  cases p.checkCompatible s.data.extents s.type with
  | ok resolved => cases resolved <;> exact ⟨fun h => (by cases h), fun h => by cases h⟩
  | error e' => constructor <;> intro h <;> cases h <;> rfl

/-- One step is taken, or refused by the slot. -/
theorem storeOne_cases (s : Staged) (w : Workspace Single) :
    ((w.slot s.slot).Accepts s.data.extents s.type ∧
        storeOne s w = (.ok (), w.modifySlot s.slot fun _ => s.store (w.slot s.slot))) ∨
      ∃ e, (w.slot s.slot).checkCompatible s.data.extents s.type = .error e ∧
        storeOne s w = (.error e, w) := by
  rw [storeOne_apply]
  cases hcheck : (w.slot s.slot).checkCompatible s.data.extents s.type with
  | ok resolved =>
    left
    have haccepts : (w.slot s.slot).Accepts s.data.extents s.type := ⟨resolved, hcheck⟩
    rw [Slot.setArray_of_accepts haccepts]
    exact ⟨haccepts, rfl⟩
  | error e => exact .inr ⟨e, rfl, by rw [setArray_error_iff.mpr hcheck]⟩

/-- Storing stops at the first new values that their slot refuses by then. -/
theorem commit_error_iff :
    commit staged w = (.error e, w') ↔
      ∃ before s after, staged = before ++ s :: after ∧ commit before w = (.ok (), w') ∧
        (w'.slot s.slot).checkCompatible s.data.extents s.type = .error e := by
  induction staged generalizing w with
  | nil =>
    constructor
    · intro h
      cases h
    · rintro ⟨before, s, after, hsplit, -⟩
      simp at hsplit
  | cons s staged ih =>
    rw [commit_cons, Run.bind_apply]
    rcases storeOne_cases s w with ⟨⟨resolved, haccepts⟩, hstore⟩ | ⟨e', hrefuses, hstore⟩
    · rw [hstore]
      refine ih.trans ⟨?_, ?_⟩
      · rintro ⟨before, t, after, rfl, hbefore, hcheck⟩
        refine ⟨s :: before, t, after, rfl, ?_, hcheck⟩
        rw [commit_cons, Run.bind_apply, hstore]
        exact hbefore
      · rintro ⟨_ | ⟨u, before⟩, t, after, hsplit, hbefore, hcheck⟩
        · cases hsplit
          cases hbefore
          cases haccepts.symm.trans hcheck
        · cases hsplit
          rw [commit_cons, Run.bind_apply, hstore] at hbefore
          exact ⟨before, t, after, rfl, hbefore, hcheck⟩
    · rw [hstore]
      constructor
      · intro h
        cases h
        exact ⟨[], s, staged, rfl, rfl, hrefuses⟩
      · rintro ⟨_ | ⟨u, before⟩, t, after, hsplit, hbefore, hcheck⟩
        · cases hsplit
          cases hbefore
          cases hrefuses.symm.trans hcheck
          rfl
        · cases hsplit
          rw [commit_cons, Run.bind_apply, hstore] at hbefore
          cases hbefore

/-- No more changes than the slots that values are stored in. -/
theorem updates_commit (staged : List Staged) (w : Workspace Single) :
    w.Updates (commit staged w).2 (staged.map (·.slot)) := by
  induction staged generalizing w with
  | nil => exact .refl w
  | cons s staged ih =>
    rw [commit_cons, Run.bind_apply]
    rcases storeOne_cases s w with ⟨-, hstore⟩ | ⟨e, -, hstore⟩
    · rw [hstore]
      exact (ih _).modifySlot
    · rw [hstore]
      exact ⟨rfl, fun _ _ => rfl, rfl⟩

/-- The last new values for a slot are those that it is left with. -/
theorem slot_commit (hslots : ∀ s ∈ staged, s.slot < w.slots.size)
    (h : commit staged w = (.ok (), w')) :
    ∀ i ∈ staged.map (·.slot), ∃ s ∈ staged, s.slot = i ∧ w'.slot i = s.store (w.slot i) := by
  induction staged generalizing w with
  | nil => exact fun i hi => nomatch hi
  | cons s staged ih =>
    obtain ⟨hs, hslots⟩ := List.forall_mem_cons.mp hslots
    rw [commit_cons, Run.bind_apply] at h
    rcases storeOne_cases s w with ⟨-, hstore⟩ | ⟨e, -, hstore⟩
    swap
    · rw [hstore] at h
      cases h
    let middle := w.modifySlot s.slot fun _ => s.store (w.slot s.slot)
    rw [hstore] at h
    change commit staged middle = (.ok (), w') at h
    have hsize : middle.slots.size = w.slots.size := Array.size_modify
    have hrest := ih (w := middle) (fun t ht => hsize ▸ hslots t ht) h
    intro i hi
    by_cases hlater : i ∈ staged.map (·.slot)
    · obtain ⟨t, ht, hslot, hstored⟩ := hrest i hlater
      refine ⟨t, List.mem_cons_of_mem _ ht, hslot, hstored.trans ?_⟩
      rcases w.slot_modifySlot_cases i s.slot fun _ => s.store (w.slot s.slot) with
        hsame | ⟨rfl, hfirst⟩
      · rw [hsame]
      · rw [hfirst]
        rfl
    · obtain rfl : i = s.slot := (List.mem_cons.mp hi).resolve_right hlater
      have hupdates := updates_commit staged middle
      rw [h] at hupdates
      exact ⟨s, List.mem_cons_self, rfl, (hupdates.slot_eq _ hlater).trans (slot_modifySlot hs)⟩

/-! ## What a slot accepts by then -/

/-- New values for different slots, or of the same extents and type. -/
def Staged.Agrees (s t : Staged) : Prop :=
  s.slot = t.slot → s.data.extents = t.data.extents ∧ s.type = t.type

instance (s t : Staged) : Decidable (s.Agrees t) := inferInstanceAs (Decidable (_ → _ ∧ _))

/-- What the slot accepted before it still accepts, unless others were stored in it meanwhile. -/
theorem accepts_commit_iff (hslots : ∀ t ∈ before, t.slot < w.slots.size)
    (hs : (w.slot s.slot).Accepts s.data.extents s.type) (h : commit before w = (.ok (), w')) :
    (w'.slot s.slot).Accepts s.data.extents s.type ↔ ∀ t ∈ before, t.Agrees s := by
  induction before generalizing w with
  | nil =>
    cases h
    simp [hs]
  | cons t before ih =>
    obtain ⟨ht, hslots⟩ := List.forall_mem_cons.mp hslots
    rw [commit_cons, Run.bind_apply] at h
    rcases storeOne_cases t w with ⟨-, hstore⟩ | ⟨e, -, hstore⟩
    swap
    · rw [hstore] at h
      cases h
    let middle := w.modifySlot t.slot fun _ => t.store (w.slot t.slot)
    rw [hstore] at h
    change commit before middle = (.ok (), w') at h
    have hsize : middle.slots.size = w.slots.size := Array.size_modify
    have hrest := ih (w := middle) (fun u hu => hsize ▸ hslots u hu)
    rw [List.forall_mem_cons]
    by_cases hslot : t.slot = s.slot
    · have hmiddle : middle.slot s.slot = t.store (w.slot s.slot) := by
        rw [← hslot]
        exact slot_modifySlot ht
      by_cases hsame : t.data.extents = s.data.extents ∧ t.type = s.type
      · have haccepts : (middle.slot s.slot).Accepts s.data.extents s.type := by
          rw [hmiddle, Slot.accepts_iff]
          rintro _ ⟨⟩
          exact hsame
        rw [hrest haccepts h]
        exact (and_iff_right fun _ => hsame).symm
      · -- extents and type that a slot once has stay, whatever else is stored
        have hlives := Slot.life_law.keeps_commit before middle s.slot
        rw [h, hmiddle] at hlives
        refine iff_of_false (fun haccepts => hsame ?_) fun hagrees => hsame (hagrees.1 hslot)
        obtain ⟨hextents, htype⟩ := Slot.accepts_iff_matches.mp haccepts
        exact ⟨hextents _ (hlives.extents _ rfl), htype _ (hlives.type _ rfl)⟩
    · have hmiddle : middle.slot s.slot = w.slot s.slot := slot_modifySlot_of_ne hslot
      rw [hrest (hmiddle ▸ hs) h]
      exact (and_iff_right fun heq => absurd heq hslot).symm

/-- Storing has come to new values for a slot that had no content until others were stored in it
under another key, and these differ in extents or type. -/
structure Clash (w w' : Workspace Single) (before : List Staged) (s : Staged) (e : Error) :
    Prop where
  stored : commit before w = (.ok (), w')
  updates : w.Updates w' (before.map (·.slot))
  unresolved : (w.slot s.slot).isResolved = false
  resolved : (w'.slot s.slot).isResolved = true
  differs : ∃ t ∈ before, t.slot = s.slot ∧ (t.data.extents ≠ s.data.extents ∨ t.type ≠ s.type)
  refused : (w'.slot s.slot).checkCompatible s.data.extents s.type = .error e

theorem clash_of_refused (hfits : ∀ t ∈ before ++ s :: after, t.Fits w)
    (hstored : commit before w = (.ok (), w'))
    (hrefused : (w'.slot s.slot).checkCompatible s.data.extents s.type = .error e) :
    Clash w w' before s e := by
  obtain ⟨hbefore, hs, -⟩ := List.forall_mem_append.mp hfits |>.imp_right List.forall_mem_cons.mp
  have hnot : ¬(w'.slot s.slot).Accepts s.data.extents s.type := by
    rintro ⟨resolved, hok⟩
    cases hok.symm.trans hrefused
  have hdiffers : ∃ t ∈ before,
      t.slot = s.slot ∧ (t.data.extents ≠ s.data.extents ∨ t.type ≠ s.type) := by
    rw [accepts_commit_iff (fun t ht => (hbefore t ht).slot_lt) hs.accepts hstored] at hnot
    simpa only [Staged.Agrees, not_forall, exists_prop, not_and_or] using hnot
  refine ⟨hstored, ?_, ?_, ?_, hdiffers, hrefused⟩
  · have hupdates := updates_commit before w
    rwa [hstored] at hupdates
  · obtain ⟨t, ht, hslot, hne⟩ := hdiffers
    rw [Slot.isResolved, Option.isSome_eq_false_iff, Option.isNone_iff_eq_none]
    by_contra hcontent
    obtain ⟨c, hc⟩ := Option.ne_none_iff_exists'.mp hcontent
    obtain ⟨hextents, htype⟩ := Slot.accepts_iff.mp hs.accepts c hc
    obtain ⟨hextents', htype'⟩ := Slot.accepts_iff.mp (hbefore t ht).accepts c (hslot ▸ hc)
    rcases hne with hne | hne
    · exact hne (hextents'.symm.trans hextents)
    · exact hne (htype'.symm.trans htype)
  · by_contra hcontent
    rw [Slot.isResolved, Bool.not_eq_true, Option.isSome_eq_false_iff,
      Option.isNone_iff_eq_none] at hcontent
    exact hnot (Slot.accepts_iff.mpr fun c hc => by cases hcontent.symm.trans hc)

/-- New values that were all accepted at the start fail to be stored just at a clash. -/
theorem commit_error_of_fits (hfits : ∀ t ∈ staged, t.Fits w) :
    commit staged w = (.error e, w') ↔
      ∃ before s after, staged = before ++ s :: after ∧ Clash w w' before s e := by
  rw [commit_error_iff]
  constructor
  · rintro ⟨before, s, after, rfl, hstored, hrefused⟩
    exact ⟨before, s, after, rfl, clash_of_refused hfits hstored hrefused⟩
  · rintro ⟨before, s, after, rfl, hclash⟩
    exact ⟨before, s, after, rfl, hclash.stored, hclash.refused⟩

/-- Where new values for one slot are of the same extents and type, all are stored, and the last ones
stay. -/
theorem commit_of_agrees (hfits : ∀ s ∈ staged, s.Fits w)
    (hagrees : ∀ s ∈ staged, ∀ t ∈ staged, s.Agrees t) :
    ∃ w', commit staged w = (.ok (), w') ∧ w.Updates w' (staged.map (·.slot)) ∧
      ∀ i ∈ staged.map (·.slot), ∃ s ∈ staged, s.slot = i ∧ w'.slot i = s.store (w.slot i) := by
  have hupdates := updates_commit staged w
  match hrun : commit staged w with
  | (.ok (), w') =>
    rw [hrun] at hupdates
    exact ⟨w', rfl, hupdates, slot_commit (fun s hs => (hfits s hs).slot_lt) hrun⟩
  | (.error e, w') =>
    obtain ⟨before, s, after, rfl, hclash⟩ := (commit_error_of_fits hfits).mp hrun
    obtain ⟨t, ht, hslot, hdiffers⟩ := hclash.differs
    obtain ⟨hextents, htype⟩ := hagrees t (List.mem_append_left _ ht) s
      (List.mem_append_right _ List.mem_cons_self) hslot
    exact (hdiffers.elim (· hextents) (· htype)).elim

/-- What comes of storing new values that have passed checks, if these say that the slots accept
them. -/
theorem commit_checked_error_iff {checked : Except Error (List Staged)}
    (hfits : ∀ staged, checked = .ok staged → ∀ s ∈ staged, s.Fits w) :
    (Run.check checked >>= commit) w = (.error e, w') ↔
      (w' = w ∧ checked = .error e) ∨
        ∃ before s after, checked = .ok (before ++ s :: after) ∧ Clash w w' before s e := by
  rw [Run.bind_apply, Run.check_apply]
  cases checked with
  | error e' =>
    constructor
    · intro h
      cases h
      exact .inl ⟨rfl, rfl⟩
    · rintro (⟨rfl, h⟩ | ⟨_, _, _, h, -⟩)
      · cases h
        rfl
      · cases h
  | ok staged =>
    dsimp only
    rw [commit_error_of_fits (hfits staged rfl)]
    constructor
    · rintro ⟨before, s, after, rfl, hclash⟩
      exact .inr ⟨before, s, after, rfl, hclash⟩
    · rintro (⟨-, h⟩ | ⟨before, s, after, h, hclash⟩)
      · cases h
      · cases h
        exact ⟨before, s, after, rfl, hclash⟩

/-! ## Loading -/

variable {ps : ParameterList}

theorem load_eq_commit (ps : ParameterList) (exact : Bool) (source : ByteSource)
    (w : Workspace Single) :
    ps.load exact source w = (Run.check ((ps.checks exact w).run' source) >>= commit) w := by
  rw [load_apply, Run.bind_apply, Run.check_apply, StateT.run'_eq]
  cases (ps.checks exact w).run source <;> rfl

theorem fits_of_checks (hvalid : ∀ p ∈ ps, p.2 < w.slots.size) {exact : Bool}
    {source : ByteSource} (h : (ps.checks exact w).run' source = .ok staged) :
    ∀ s ∈ staged, s.Fits w := by
  rw [StateT.run'_eq] at h
  obtain ⟨⟨_, rest⟩, hchecks, rfl⟩ := map_eq_ok_iff.mp h
  obtain ⟨last, hstage, -⟩ := checks_ok hchecks
  obtain ⟨xs, hxs, -, hall⟩ := stageFrom_ok hstage
  intro s hs
  rw [hxs] at hs
  obtain ⟨x, hx, rfl⟩ := List.mem_map.mp hs
  obtain ⟨p, hp, hassigned⟩ := exists_of_mem_right hall hx
  exact hassigned.fits (hvalid p hp)

end ParameterList

namespace SafeTensors

open ParameterList (Staged Clash commit commit_checked_error_iff)

variable {w w' : Workspace Single} {ps : ParameterList} {e : Error}

/-- The checks that come before any change. -/
def checks (ps : ParameterList) (parsed : Except SafeTensorsFault File) (w : Workspace Single) :
    Except Error (List Staged) := do
  let f ← parsed.mapError .safeTensors
  return (← ps.mapM fun p => stageOne f w p.1 p.2).reduceOption

theorem checks_ok (ps : ParameterList) (f : File) (w : Workspace Single) :
    checks ps (.ok f) w =
      (ps.mapM fun p => stageOne f w p.1 p.2).map (·.reduceOption) := by
  change (ps.mapM fun p => stageOne f w p.1 p.2) >>= (fun os => pure os.reduceOption) = _
  cases ps.mapM fun p => stageOne f w p.1 p.2 <;> rfl

theorem fill_apply (ps : ParameterList) (parsed : Except SafeTensorsFault File)
    (w : Workspace Single) :
    fill ps parsed w =
      (Run.check (checks ps parsed w) >>= fun staged =>
        commit staged >>= fun _ => pure staged.length) w := by
  cases parsed with
  | error fault => exact fill_error ps fault w
  | ok f =>
    rw [fill_ok, checks_ok, Run.bind_apply, Run.check_apply]
    cases ps.mapM fun p => stageOne f w p.1 p.2 with
    | error e => rfl
    | ok os =>
      simp only [Except.map]
      rw [Run.bind_apply]
      rcases commit os.reduceOption w with ⟨_ | _, _⟩ <;> rfl

theorem fill_error_iff {parsed : Except SafeTensorsFault File} :
    fill ps parsed w = (.error e, w') ↔
      (Run.check (checks ps parsed w) >>= commit) w = (.error e, w') := by
  rw [fill_apply, Run.bind_apply, Run.bind_apply, Run.check_apply]
  cases checks ps parsed w with
  | error e' => constructor <;> intro h <;> cases h <;> rfl
  | ok staged =>
    dsimp only
    rw [Run.bind_apply]
    rcases commit staged w with ⟨_ | _, _⟩ <;> constructor <;> intro h <;> cases h <;> rfl

theorem fits_of_checks (hvalid : ∀ p ∈ ps, p.2 < w.slots.size)
    {parsed : Except SafeTensorsFault File} {staged : List Staged}
    (h : checks ps parsed w = .ok staged) : ∀ s ∈ staged, s.Fits w := by
  obtain ⟨f, -, h⟩ := bind_eq_ok_iff.mp h
  obtain ⟨os, hall, h⟩ := bind_eq_ok_iff.mp h
  cases h
  intro s hs
  obtain ⟨p, hp, hone⟩ :=
    exists_of_mem_right (mapM_eq_ok_iff.mp hall) (List.reduceOption_mem_iff.mp hs)
  rcases stageOne_ok hone with ⟨-, hnone⟩ | ⟨entry, s', hsome, hprepared⟩
  · cases hnone
  · cases hsome
    exact hprepared.fits (hvalid p hp)

/-- Loading and importing fail in two ways. Either a check fails and everything stays as it was, or
all checks pass and storing comes to a clash: then the values before it stay stored, and a slot that
was without content is left with some. -/
theorem load_error_iff (hvalid : ∀ p ∈ ps, p.2 < w.slots.size) :
    (∀ (exact : Bool) (source : ByteSource) (e : Error) (w' : Workspace Single),
      ps.load exact source w = (.error e, w') ↔
        (w' = w ∧ (ps.checks exact w).run' source = .error e) ∨
          ∃ before s after, (ps.checks exact w).run' source = .ok (before ++ s :: after) ∧
            Clash w w' before s e) ∧
      (∀ (parsed : Except SafeTensorsFault File) (e : Error) (w' : Workspace Single),
        fill ps parsed w = (.error e, w') ↔
          (w' = w ∧ checks ps parsed w = .error e) ∨
            ∃ before s after, checks ps parsed w = .ok (before ++ s :: after) ∧
              Clash w w' before s e) ∧
      ∀ bytes, load ps bytes = fill ps (ofBytes bytes) := by
  refine ⟨fun exact source e w' => ?_, fun parsed e w' => ?_, load_eq_fill ps⟩
  · rw [ParameterList.load_eq_commit]
    exact commit_checked_error_iff fun staged h => ParameterList.fits_of_checks hvalid h
  · rw [fill_error_iff]
    exact commit_checked_error_iff fun staged h => fits_of_checks hvalid h

/-- A table that is listed under two keys gets one value for the first of them, and refuses two for
the second. A stream without the second record is refused before that. -/
theorem load_error_iff_twice :
    let w : Workspace Single := { Workspace.seeded 0 with slots := #[.declare "weight" .weight] }
    let ps : ParameterList := [("a", 0), ("b", 0)]
    let first : List UInt8 := [1, 0, 0, 0, 97, 1, 0, 0, 0, 1, 0, 0, 0, 0, 0, 0, 0, 3, 7]
    let second : List UInt8 := [1, 0, 0, 0, 98, 1, 0, 0, 0, 2, 0, 0, 0, 0, 0, 0, 0, 3, 8, 9]
    let f : File := ⟨[⟨"a", .u8, [1], 0, 1⟩, ⟨"b", .u8, [2], 1, 3⟩], [7, 8, 9]⟩
    let e : Error := .shapeMismatch "parameter `weight`" (.extents [1]) (.extents [2])
    ps.load true (.ofBytes first) w = (.error (.malformedStream (.endedAfter 1 2)), w) ∧
      (∃ w' before s, ps.load true (.ofBytes (first ++ second)) w = (.error e, w') ∧
        Clash w w' before s e) ∧
      ∃ w' before s, fill ps (.ok f) w = (.error e, w') ∧ Clash w w' before s e := by
  intro w ps first second f e
  have hvalid : ∀ p ∈ ps, p.2 < w.slots.size := by decide
  obtain ⟨hload, hfill, -⟩ := load_error_iff hvalid
  have hshort : (ps.checks true w).run' (.ofBytes first) =
      .error (.malformedStream (.endedAfter 1 2)) := by decide +kernel
  have hunchanged := (hload true (.ofBytes first) _ w).mpr (.inl ⟨rfl, hshort⟩)
  refine ⟨hunchanged, ?_, ?_⟩
  · have hfails : (ps.load true (.ofBytes (first ++ second)) w).1 = .error e := by decide +kernel
    have hrun : ps.load true (.ofBytes (first ++ second)) w =
        (.error e, (ps.load true (.ofBytes (first ++ second)) w).2) := by
      rw [← hfails]
      exact Prod.mk.eta.symm
    have hpass : ((ps.checks true w).run' (.ofBytes (first ++ second))).isOk = true := by
      decide +kernel
    rcases (hload _ _ _ _).mp hrun with ⟨-, h⟩ | ⟨before, s, after, -, hclash⟩
    · rw [h] at hpass
      cases hpass
    · exact ⟨_, before, s, hrun, hclash⟩
  · have hfails : (fill ps (.ok f) w).1 = .error e := by decide +kernel
    have hrun : fill ps (.ok f) w = (.error e, (fill ps (.ok f) w).2) := by
      rw [← hfails]
      exact Prod.mk.eta.symm
    have hpass : (checks ps (.ok f) w).isOk = true := by decide +kernel
    rcases (hfill _ _ _).mp hrun with ⟨-, h⟩ | ⟨before, s, after, -, hclash⟩
    · rw [h] at hpass
      cases hpass
    · exact ⟨_, before, s, hrun, hclash⟩

/-- A sequence holds one table twice. Loading and importing fail, and yet the table has content. -/
theorem load_error_leaves_content :
    let b : Block := .sequential [.leaf (.embedding 4 1) [0], .leaf (.embedding 4 1) [0]]
    let w : Workspace Single := { Workspace.seeded 0 with slots := #[.declare "weight" .weight] }
    let record (name : String) (values : List UInt8) : List UInt8 :=
      littleEndian 4 18 ++ Record.nameBytes name ++ littleEndian 4 1 ++
        littleEndian 8 values.length ++ [DataType.uint8.tag] ++ values
    let source := ByteSource.ofBytes
      (record "01embedding_weight" [7] ++ record "02embedding_weight" [8, 9])
    let f : File :=
      ⟨[⟨"01embedding_weight", .u8, [1], 0, 1⟩, ⟨"02embedding_weight", .u8, [2], 1, 3⟩], [7, 8, 9]⟩
    let e : Error := .shapeMismatch "parameter `weight`" (.extents [1]) (.extents [2])
    let content : Content Single := ⟨.uint8, .ofVector [.ofNat 7], none, true⟩
    (w.slot 0).content = none ∧
      (∀ exact, (ParameterList.load b.parameters exact source w).1 = .error e ∧
        ((ParameterList.load b.parameters exact source w).2.slot 0).content = some content) ∧
      (fill b.parameters (.ok f) w).1 = .error e ∧
        ((fill b.parameters (.ok f) w).2.slot 0).content = some content := by
  decide +kernel

end SafeTensors

end NeuralNet
