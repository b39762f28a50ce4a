import NeuralNet.Proofs.Block.Sharing
import NeuralNet.Proofs.Record.Arrival
import NeuralNet.Proofs.Record.Calls

/-!
# Loading as bytes arrive

Loading looks at the bytes of the source and at nothing else, as reading records does. Where the
source fails, what has arrived may settle what comes of it. If not, loading tells of the failure, or
in the middle of a number of the end that the source tells of, and changes nothing.

* `load_cases`: what comes of loading is settled by the bytes that have arrived, or it depends on
  whether more of them follow;
* `decided_of_records`: it is settled when the records are;
* `reading_by_bytes`: reading and loading do not depend on how bytes arrive, nor on a failure behind
  the bytes that they need.
-/

namespace NeuralNet

open Record (Reader Settled Starved Streams)

theorem Error.isEnd_eq_true {e : Error} (h : e.isEnd = true) :
    ∃ fault, e = .malformedStream fault := by
  unfold isEnd at h
  split at h
  · exact ⟨_, rfl⟩
  · exact ⟨_, rfl⟩
  · cases h

/-- A slot complains about extents or types, not about a stream. -/
theorem Slot.checkCompatible_ne_malformedStream (p : Slot Single) (s : Extents) (type : DataType)
    (fault : StreamFault) : p.checkCompatible s type ≠ .error (.malformedStream fault) := by
  intro h
  unfold checkCompatible at h
  repeat' split at h
  all_goals cases h

theorem Slot.isEnd_checkCompatible {p : Slot Single} {s : Extents} {type : DataType} {e : Error}
    (h : p.checkCompatible s type = .error e) : e.isEnd = false := by
  by_contra hend
  obtain ⟨fault, rfl⟩ := Error.isEnd_eq_true (Bool.not_eq_false _ ▸ hend)
  exact checkCompatible_ne_malformedStream p s type fault h

theorem DenseArray.isEnd_ofList {s : Extents} {values : List Single} {e : Error}
    (h : DenseArray.ofList s values = .error e) : e.isEnd = false := by
  unfold ofList at h
  repeat' split at h
  all_goals cases h
  all_goals rfl

namespace ParameterList

variable {w : Workspace Single} {ps : ParameterList} {start : List UInt8} {exact : Bool}

/-! ## Staging -/

/-- What a parameter makes of its record. -/
def accept (w : Workspace Single) (position : Nat) (key : String) (slot : Nat) (r : Record) :
    Except Error Staged := do
  if r.name ≠ key then throw (.malformedStream (.unexpectedName key position r.name))
  let _ ← (w.slot slot).checkCompatible r.extents r.type
  return ⟨slot, r.type, ← DenseArray.ofList r.extents r.values⟩

theorem isEnd_accept {position : Nat} {key : String} {slot : Nat} {r : Record} {e : Error}
    (h : accept w position key slot r = .error e) : e.isEnd = false := by
  unfold accept at h
  split at h
  · cases h
    rfl
  cases hcheck : (w.slot slot).checkCompatible r.extents r.type with
  | error e' =>
    rw [hcheck] at h
    cases h
    exact Slot.isEnd_checkCompatible hcheck
  | ok resolved =>
    cases hlist : DenseArray.ofList r.extents r.values with
    | error e' =>
      rw [hcheck, hlist] at h
      cases h
      exact DenseArray.isEnd_ofList hlist
    | ok data =>
      rw [hcheck, hlist] at h
      cases h

/-- Reads a record that has to be there. -/
def acceptNext (w : Workspace Single) (position : Nat) (key : String) (slot : Nat) :
    Reader Staged :=
  Record.readRecord >>= fun r => liftM (accept w position key slot r)

theorem run_stageOne (w : Workspace Single) (total position : Nat) (key : String) (slot : Nat)
    (u : ByteSource) :
    (stageOne w total position key slot).run u =
      if u.bytes = [] ∧ u.failure? = none then
        .error (.malformedStream (.endedAfter position total))
      else (acceptNext w position key slot).run u := by
  unfold stageOne acceptNext
  rw [Record.run_bind, Record.run_read]
  by_cases hend : u.bytes = [] ∧ u.failure? = none
  · rw [if_pos hend, if_pos hend]
    rfl
  · rw [if_neg hend, if_neg hend, Record.run_map, Record.run_bind]
    cases Record.readRecord.run u with
    | error e => rfl
    | ok x =>
      dsimp only
      unfold accept
      split
      · rfl
      · cases (w.slot slot).checkCompatible x.1.extents x.1.type with
        | error e => rfl
        | ok resolved => cases DenseArray.ofList x.1.extents x.1.values <;> rfl

theorem starved_acceptNext (w : Workspace Single) (position : Nat) (key : String) (slot : Nat) :
    Starved (acceptNext w position key slot) [] (.malformedStream (.endedIn .nameLength)) :=
  Record.starved_readRecord_nil.bind fun _ => Record.streams_lift fun _ => isEnd_accept

theorem streams_stageOne (w : Workspace Single) (total position : Nat) (key : String)
    (slot : Nat) : Streams (stageOne w total position key slot) :=
  .of_end (starved_acceptNext w position key slot) (run_stageOne w total position key slot)
    (Record.streams_readRecord.bind fun _ => Record.streams_lift fun _ => isEnd_accept) rfl rfl rfl

theorem streams_stageFrom (w : Workspace Single) (total position : Nat) (ps : ParameterList) :
    Streams (stageFrom w total position ps) := by
  induction ps generalizing position with
  | nil => exact Record.streams_pure []
  | cons p ps ih =>
    exact (streams_stageOne w total position p.1 p.2).bind fun first =>
      (ih (position + 1)).bind fun _ => Record.streams_pure _

theorem streams_stage (ps : ParameterList) (w : Workspace Single) : Streams (ps.stage w) :=
  streams_stageFrom w ps.length 0 ps

/-- Staging is settled when its records are, and some more may be behind them. -/
theorem settled_stageFrom (w : Workspace Single) (total position : Nat) {more : Nat}
    (h : Record.Decided (ps.length + more) start) :
    ∃ x, Settled (stageFrom w total position ps) start x ∧
      ∀ staged n, x = .ok (staged, n) → Record.Decided more (start.drop n) := by
  induction ps generalizing position start with
  | nil =>
    rw [List.length_nil, Nat.zero_add] at h
    refine ⟨_, Record.settled_pure [] start, ?_⟩
    rintro _ _ ⟨⟩
    exact h
  | cons p ps ih =>
    rw [List.length_cons, Nat.add_right_comm] at h
    have hnil := starved_acceptNext w position p.1 p.2
    have hrun := run_stageOne w total position p.1 p.2
    rcases Record.streams_readRecord start with ⟨e | ⟨r, n⟩, hread⟩ | ⟨_, hstarved⟩
    · have hone : Settled (stageOne w total position p.1 p.2) start (.error e) :=
        (hread.bind_error _).of_end hnil hrun
      exact ⟨_, hone.bind_error _, fun _ _ hok => nomatch hok⟩
    · have hone := (hread.bind (Record.settled_lift (fun e => isEnd_accept) _)).of_end hnil hrun
      cases haccept : accept w position p.1 p.2 r with
      | error e =>
        rw [haccept] at hone
        exact ⟨_, hone.bind_error _, fun _ _ hok => nomatch hok⟩
      | ok s =>
        rw [haccept] at hone
        have hfirst : Settled (stageOne w total position p.1 p.2) start (.ok (s, n)) := hone
        have hleft := (Record.decided_of_ok_iff hread _).mp h
        obtain ⟨e | ⟨others, k⟩, hrest, hmore⟩ := ih (position + 1) hleft
        · exact ⟨_, hfirst.bind (hrest.bind_error _), fun _ _ hok => nomatch hok⟩
        · refine ⟨_, hfirst.bind (hrest.bind (Record.settled_pure (s :: others) _)), ?_⟩
          rintro _ _ ⟨⟩
          change Record.Decided more (start.drop (n + k))
          rw [← List.drop_drop]
          exact hmore others k rfl
    · exact absurd h (Record.not_decided_of_starved hstarved _)

/-- Behind the records the source has to end. -/
theorem run_stageExact {u t : ByteSource} {staged : List Staged}
    (h : (ps.stage w).run u = .ok (staged, t)) :
    (ps.stageExact w).run' u =
      if t.bytes = [] then t.stopped (.ok staged)
      else .error (.malformedStream .trailingBytes) := by
  unfold stageExact
  rw [StateT.run'_eq, Record.run_bind, h]
  dsimp only
  rw [Record.run_bind, Record.run_readBytes? .values (by decide)]
  by_cases hbytes : t.bytes = []
  · rw [if_pos hbytes, ByteSource.stopped]
    cases hfailure : t.failure? with
    | none =>
      rw [if_pos ⟨hbytes, rfl⟩]
      rfl
    | some kind =>
      rw [if_neg fun hend => (by cases hend.2), Record.run_map, Record.run_readBytes, hbytes,
        if_neg (by decide), hfailure]
      rfl
  · rw [if_neg fun hend => hbytes hend.1, if_neg hbytes, Record.run_map, Record.run_readBytes,
      if_pos (Nat.one_le_iff_ne_zero.mpr (mt List.length_eq_zero_iff.mp hbytes))]
    rfl

theorem run_stageExact_error {u : ByteSource} {e : Error} (h : (ps.stage w).run u = .error e) :
    (ps.stageExact w).run' u = .error e := by
  unfold stageExact
  rw [StateT.run'_eq, Record.run_bind, h]
  rfl

/-! ## What has arrived -/

/-- The bytes that have arrived settle the outcome, whatever follows them. -/
def Settles {α : Type} (φ : ByteSource → α) (start : List UInt8) (x : α) : Prop :=
  ∀ u, start <+: u.bytes → φ u = x

/-- The outcome depends on whether more bytes follow: it is `x` where the source ends and `told` of
its failure where it fails, and may be `y` if there are more. -/
structure Awaits {α : Type} (φ : ByteSource → α) (told : FailureKind → α) (start : List UInt8)
    (x y : α) : Prop where
  stops : ∀ u, u.bytes = start → φ u = u.failure?.elim x told
  goesOn : ∃ more, φ (.ofBytes (start ++ more)) = y
  differs : x ≠ y

/-- A complaint about the stream. -/
def IsComplaint (x : Except Error (List Staged)) : Prop :=
  ∃ fault, x = .error (.malformedStream fault)

theorem settles_of_settled {α : Type} {m : Reader α} {x : Except Error (α × Nat)}
    (h : Settled m start x) : Settles m.run' start (x.map (·.1)) := by
  intro u hu
  match x, h with
  | .ok (a, n), ⟨_, hrun⟩ =>
    rw [StateT.run'_eq, hrun u hu]
    rfl
  | .error e, ⟨_, hrun⟩ =>
    rw [StateT.run'_eq, hrun u hu]
    rfl

/-- Where the end of the stream is missing, the outcome of checks that refuse what `stage` refuses
depends on what follows, if they do not miss the end of a stream that has all records. -/
theorem awaits_of_starved {φ : ByteSource → Except Error (List Staged)} {e : Error}
    (h : Starved (ps.stage w) start e)
    (herror : ∀ {u e}, (ps.stage w).run u = .error e → φ u = .error e)
    (hend : ∀ {start x}, Settled (ps.stage w) start x →
      ∀ {u e}, start <+: u.bytes → φ u = .error e → e.isEnd = false) :
    ∃ x y, Awaits φ (·.answer x) start x y ∧ IsComplaint x := by
  obtain ⟨fault, rfl⟩ := Error.isEnd_eq_true h.isEnd
  obtain ⟨more, y, hy⟩ := h.goesOn
  refine ⟨.error (.malformedStream fault), _, ⟨fun u hu => ?_, ⟨more, rfl⟩, fun hsame => ?_⟩,
    fault, rfl⟩
  · have hstops := h.stops u hu
    rw [ByteSource.stopped] at hstops
    cases hfailure : u.failure? with
    | none => exact herror (hstops.trans (by rw [hfailure]))
    | some kind => exact herror (hstops.trans (by rw [hfailure]; rfl))
  · cases h.isEnd.symm.trans (hend hy (Record.prefix_ofBytes_self _) hsame.symm)

theorem run_stage_error {u : ByteSource} {e : Error} (h : (ps.stage w).run u = .error e) :
    (ps.stage w).run' u = .error e := by
  rw [StateT.run'_eq, h]
  rfl

theorem isEnd_stage {x : Except Error (List Staged × Nat)} (hx : Settled (ps.stage w) start x)
    {u : ByteSource} {e : Error} (hu : start <+: u.bytes) (h : (ps.stage w).run' u = .error e) :
    e.isEnd = false := by
  rw [settles_of_settled hx u hu] at h
  match x, hx with
  | .ok _, _ => cases h
  | .error e', ⟨hend, _⟩ =>
    cases h
    exact hend

theorem stage_cases (ps : ParameterList) (w : Workspace Single) (start : List UInt8) :
    (∃ x, Settles (ps.stage w).run' start x) ∨
      ∃ x y, Awaits (ps.stage w).run' (·.answer x) start x y ∧ IsComplaint x := by
  rcases streams_stage ps w start with ⟨x, hx⟩ | ⟨_, hstarved⟩
  · exact .inl ⟨_, settles_of_settled hx⟩
  · exact .inr (awaits_of_starved hstarved run_stage_error isEnd_stage)

/-- Once the records are settled, the end is no longer missing. -/
theorem isEnd_stageExact {x : Except Error (List Staged × Nat)} (hx : Settled (ps.stage w) start x)
    {u : ByteSource} {e : Error} (hu : start <+: u.bytes)
    (h : (ps.stageExact w).run' u = .error e) : e.isEnd = false := by
  match x, hx with
  | .error e', ⟨hend, hrun⟩ =>
    cases (run_stageExact_error (hrun u hu)).symm.trans h
    exact hend
  | .ok (staged, n), ⟨_, hrun⟩ =>
    rw [run_stageExact (hrun u hu)] at h
    split at h
    · unfold ByteSource.stopped at h
      split at h <;> cases h
      rfl
    · cases h
      rfl

/-- A byte behind the records is one too many. -/
theorem settles_stageExact {staged : List Staged} {n : Nat}
    (hx : Settled (ps.stage w) start (.ok (staged, n))) (hleft : start.drop n ≠ []) :
    Settles (ps.stageExact w).run' start (.error (.malformedStream .trailingBytes)) := by
  intro u hu
  rw [run_stageExact (hx.2 u hu), u.bytes_skip, if_neg ((hu.drop n).ne_nil hleft)]

theorem stageExact_cases (ps : ParameterList) (w : Workspace Single) (start : List UInt8) :
    (∃ x, Settles (ps.stageExact w).run' start x) ∨
      ∃ x y, Awaits (ps.stageExact w).run' (·.answer x) start x y ∧
        (IsComplaint x ∨ IsComplaint y) := by
  rcases streams_stage ps w start with ⟨e | ⟨staged, n⟩, hx⟩ | ⟨_, hstarved⟩
  · exact .inl ⟨.error e, fun u hu => run_stageExact_error (hx.2 u hu)⟩
  · by_cases hleft : start.drop n = []
    · -- all bytes are those of the records: the load is good unless another one comes
      refine .inr ⟨.ok staged, .error (.malformedStream .trailingBytes),
        ⟨fun u hu => ?_, ⟨[0], ?_⟩, fun hsame => nomatch hsame⟩, .inr ⟨_, rfl⟩⟩
      · rw [run_stageExact (hx.2 u (hu ▸ List.prefix_refl _)), u.bytes_skip, hu, if_pos hleft,
          ByteSource.stopped, u.failure_skip]
        cases u.failure? <;> rfl
      · rw [run_stageExact (hx.2 _ (Record.prefix_ofBytes start [0])), ByteSource.bytes_skip,
          Record.bytes_ofBytes, List.drop_append_of_le_length hx.1, hleft]
        rfl
    · exact .inl ⟨_, settles_stageExact hx hleft⟩
  · obtain ⟨x, y, hawaits, hx⟩ := awaits_of_starved hstarved run_stageExact_error isEnd_stageExact
    exact .inr ⟨x, y, hawaits, .inl hx⟩

theorem checks_cases (ps : ParameterList) (exact : Bool) (w : Workspace Single)
    (start : List UInt8) :
    (∃ x, Settles (ps.checks exact w).run' start x) ∨
      ∃ x y, Awaits (ps.checks exact w).run' (·.answer x) start x y ∧
        (IsComplaint x ∨ IsComplaint y) := by
  cases exact with
  | true => exact stageExact_cases ps w start
  | false => exact (stage_cases ps w start).imp_right fun ⟨x, y, h, hx⟩ => ⟨x, y, h, .inl hx⟩

/-- The checks are settled when their records are, and in exact loading the byte behind them. -/
theorem settles_checks (h : Record.Decided (ps.length + exact.toNat) start) :
    ∃ x, Settles (ps.checks exact w).run' start x := by
  obtain ⟨x, hx, hmore⟩ := settled_stageFrom w ps.length 0 h
  cases exact with
  | false => exact ⟨_, settles_of_settled hx⟩
  | true =>
    rcases x with e | ⟨staged, n⟩
    · exact ⟨.error e, fun u hu => run_stageExact_error (hx.2 u hu)⟩
    · refine ⟨_, settles_stageExact hx fun hnil => ?_⟩
      have hone : Record.Decided 1 [] := hnil ▸ hmore staged n rfl
      exact Record.not_decided_of_starved Record.starved_readRecord_nil 0 hone

/-! ## Loading -/

/-- What comes of loading when this comes of the checks. -/
def storing (w : Workspace Single) (checked : Except Error (List Staged)) :
    Except Error Unit × Workspace Single :=
  (Run.check checked >>= commit) w

/-- No complaint about the stream comes of storing new values. -/
theorem storing_ne {x y : Except Error (List Staged)} (hne : x ≠ y) (hx : IsComplaint x) :
    storing w x ≠ storing w y := by
  obtain ⟨fault, rfl⟩ := hx
  intro hsame
  match y with
  | .error e =>
    cases hsame
    exact hne rfl
  | .ok staged =>
    obtain ⟨-, s, -, -, -, hrefused⟩ := commit_error_iff.mp hsame.symm
    exact Slot.checkCompatible_ne_malformedStream _ _ _ _ hrefused

/-- Storing has no part in the answer to a failure. -/
theorem storing_answer (w : Workspace Single) (kind : FailureKind)
    (x : Except Error (List Staged)) :
    storing w (kind.answer x) = (kind.answer (storing w x).1, w) := by
  match x with
  | .error e => rfl
  | .ok staged =>
    cases hcommit : (storing w (.ok staged)).1 with
    | ok _ => rfl
    | error e =>
      have hnumber : e.endsInNumber = false := by
        unfold Error.endsInNumber
        split
        · obtain ⟨-, s, -, -, -, hrefused⟩ := commit_error_iff.mp (Prod.fst_eq_iff.mp hcommit)
          exact absurd hrefused (Slot.checkCompatible_ne_malformedStream _ _ _ _)
        · rfl
      exact (congrArg (fun y => (y, w)) (kind.answer_of_not hnumber)).symm

theorem load_eq_storing (u : ByteSource) :
    ps.load exact u w = storing w ((ps.checks exact w).run' u) := load_eq_commit ps exact u w

theorem Settles.load {x : Except Error (List Staged)}
    (h : Settles (ps.checks exact w).run' start x) :
    Settles (ps.load exact · w) start (storing w x) := fun u hu =>
  (load_eq_storing u).trans (congrArg (storing w) (h u hu))

/-- What comes of loading is settled, or more bytes may change it. -/
theorem load_cases (ps : ParameterList) (exact : Bool) (w : Workspace Single)
    (start : List UInt8) :
    (∃ x, Settles (ps.load exact · w) start x) ∨
      ∃ x y, Awaits (ps.load exact · w) (fun kind => (kind.answer x.1, w)) start x y := by
  rcases checks_cases ps exact w start with ⟨x, hx⟩ | ⟨x, y, hawaits, hcomplaint⟩
  · exact .inl ⟨_, hx.load⟩
  · refine .inr ⟨storing w x, storing w y, ⟨fun u hu => ?_, ?_, ?_⟩⟩
    · rw [load_eq_storing, hawaits.stops u hu]
      cases u.failure? with
      | none => rfl
      | some kind => exact storing_answer w kind x
    · obtain ⟨more, hmore⟩ := hawaits.goesOn
      exact ⟨more, by rw [load_eq_storing, hmore]⟩
    · exact hcomplaint.elim (storing_ne hawaits.differs) fun hy =>
        (storing_ne hawaits.differs.symm hy).symm

/-- What comes of loading is the same whatever bytes follow. -/
def Decided (ps : ParameterList) (exact : Bool) (w : Workspace Single) (start : List UInt8) :
    Prop :=
  ∀ more, ps.load exact (.ofBytes (start ++ more)) w = ps.load exact (.ofBytes start) w

theorem decided_of_settles {x : Except Error Unit × Workspace Single}
    (h : Settles (ps.load exact · w) start x) : ps.Decided exact w start := fun more =>
  (h _ (Record.prefix_ofBytes start more)).trans (h _ (Record.prefix_ofBytes_self start)).symm

/-- Loading needs no more bytes than its records, and the byte behind them if it is exact. -/
theorem decided_of_records (h : Record.Decided (ps.length + exact.toNat) start) :
    ps.Decided exact w start := by
  obtain ⟨x, hx⟩ := settles_checks h
  exact decided_of_settles hx.load

/-- Loading depends on the bytes, not on how they arrive. -/
theorem load_eq {u v : ByteSource} (hbytes : u.bytes = v.bytes)
    (hfailure : u.failure? = v.failure?) (ps : ParameterList) (exact : Bool)
    (w : Workspace Single) :
    ps.load exact u w = ps.load exact v w := by
  rcases load_cases ps exact w u.bytes with ⟨x, hx⟩ | ⟨x, y, hawaits⟩
  · exact (hx u (List.prefix_refl _)).trans (hx v (hbytes ▸ List.prefix_refl _)).symm
  · have hu := hawaits.stops u rfl
    have hv := hawaits.stops v hbytes.symm
    rw [hfailure] at hu
    exact hu.trans hv.symm

theorem load_of_decided (h : ps.Decided exact w start) {u : ByteSource} (hu : u.bytes = start)
    (more : List UInt8) : ps.load exact u w = ps.load exact (.ofBytes (start ++ more)) w := by
  rcases load_cases ps exact w start with ⟨x, hx⟩ | ⟨x, y, hawaits⟩
  · have hmore := hx (.ofBytes (start ++ more)) (Record.prefix_ofBytes start more)
    exact (hx u (hu ▸ List.prefix_refl _)).trans hmore.symm
  · obtain ⟨more', hmore⟩ := hawaits.goesOn
    have hstart := hawaits.stops (.ofBytes start) (Record.bytes_ofBytes start)
    exact absurd (hstart.symm.trans ((h more').symm.trans hmore)) hawaits.differs

/-- Loading that needs more bytes than came before a failure changes nothing. -/
theorem load_of_undecided (h : ¬ps.Decided exact w start) {u : ByteSource} (hu : u.bytes = start)
    {kind : FailureKind} (hfailure : u.failure? = some kind) :
    ps.load exact u w = (kind.answer (ps.load exact (.ofBytes start) w).1, w) := by
  rcases load_cases ps exact w start with ⟨x, hx⟩ | ⟨x, y, hawaits⟩
  · exact absurd (decided_of_settles hx) h
  · have hstart : ps.load exact (.ofBytes start) w = x :=
      hawaits.stops (.ofBytes start) (Record.bytes_ofBytes start)
    rw [hawaits.stops u hu, hfailure, hstart]
    rfl

/-! ## Reading and loading -/

open Record (results)

/-- Reading records and loading parameters depend on the bytes alone.

However a source hands out its bytes, and however often it is interrupted, the answers are those to
all bytes at once. Where it fails behind some of the bytes, all that is settled by these is as on the
whole, and what needs more of them is told of the failure: the first reading that does, and loading,
which then changes nothing. Only a failure that says that the source has ended is taken for its end
in the numbers of a record. And as long as no piece is empty, a routine that wants a number of bytes
gets the same from its calls, whatever room it offers in them. Records that have arrived as a whole
are settled, and loading needs no more than its records, and the byte behind them if it is exact. -/
theorem reading_by_bytes (ps : ParameterList) (exact : Bool) (w : Workspace Single) :
    (∀ (source : ByteSource) (content : List UInt8), source.Holds content →
      (∀ count, results count source = results count (.ofBytes content)) ∧
        ps.load exact source w = ps.load exact (.ofBytes content) w) ∧
    (∀ (source : ByteSource) (content : List UInt8) (kind : FailureKind),
      source.bytes <+: content → source.failure? = some kind →
        (∀ count, Record.Decided count source.bytes →
          results count source = results count (.ofBytes content) ∧
            (¬Record.Decided (count + 1) source.bytes →
              ∃ x, results (count + 1) (.ofBytes source.bytes) =
                  results count (.ofBytes content) ++ [x] ∧
                results (count + 1) source =
                  results count (.ofBytes content) ++ [kind.answer x])) ∧
        (∀ rs pieces, List.Forall₂ Record.WrittenAs rs pieces →
          pieces.flatten <+: source.bytes → Record.Decided rs.length source.bytes) ∧
        (Record.Decided (ps.length + exact.toNat) source.bytes → ps.Decided exact w source.bytes) ∧
        (ps.Decided exact w source.bytes →
          ps.load exact source w = ps.load exact (.ofBytes content) w) ∧
        (¬ps.Decided exact w source.bytes →
          ps.load exact source w =
            (kind.answer (ps.load exact (.ofBytes source.bytes) w).1, w))) ∧
    ∀ (source rest : ByteSource) (count : Nat) (got : List UInt8) (ending : ByteSource.Ending),
      source.Solid → (source.Gathers count got ending rest ↔
        got = (source.request count).bytes ∧ ending = source.ending count ∧
          rest = source.skip count) := by
  refine ⟨fun source content hholds => ?_, fun source content kind hstart hfailure => ?_,
    fun source rest count got ending hsolid => ByteSource.gathers_iff hsolid⟩
  · have hbytes : source.bytes = (ByteSource.ofBytes content).bytes := by
      rw [hholds.bytes_eq, Record.bytes_ofBytes]
    exact ⟨Record.results_eq hbytes hholds.failure_eq, load_eq hbytes hholds.failure_eq ps exact w⟩
  · obtain ⟨more, rfl⟩ := hstart
    refine ⟨fun count hdecided => ?_, fun rs pieces => Record.decided_of_written, decided_of_records,
      fun hdecided => load_of_decided hdecided rfl more,
      fun hundecided => load_of_undecided hundecided rfl hfailure⟩
    rw [hdecided more]
    refine ⟨Record.results_of_decided hdecided rfl, fun hundecided => ?_⟩
    obtain ⟨x, hrun⟩ := Record.results_of_undecided hdecided hundecided
    refine ⟨x, hrun (.ofBytes source.bytes) (Record.bytes_ofBytes _), ?_⟩
    rw [hrun source rfl, ByteSource.stopped, hfailure]

theorem reading_by_bytes_pieces :
    let ps : ParameterList := [("b", 0)]
    let w : Workspace Single := { Workspace.seeded 0 with slots := #[.declare "weight" .weight] }
    let record : List UInt8 := [1, 0, 0, 0, 98, 0, 0, 0, 0, 5, 255]
    let pieces : ByteSource := [.bytes [1, 0], .interrupted, .bytes [0, 0, 98, 0, 0, 0],
      .interrupted, .interrupted, .bytes [0, 5, 255]]
    let broken : ByteSource := pieces ++ [.bytes [1, 0], .failure .other]
    let short : ByteSource := pieces ++ [.failure .other]
    (results 2 pieces = results 2 (.ofBytes record) ∧
      ps.load true pieces w = ps.load true (.ofBytes record) w) ∧
    (results 2 broken = results 1 (.ofBytes (record ++ record)) ++ [.error .io] ∧
      ps.load true broken w = ps.load true (.ofBytes (record ++ record)) w) ∧
    ps.load true short w = (.error .io, w) ∧
    ByteSource.Gathers 4 pieces [1, 0, 0, 0] .full
      [.bytes [98, 0, 0, 0], .interrupted, .interrupted, .bytes [0, 5, 255]] := by
  intro ps w record pieces broken short
  obtain ⟨hpieces, hfailing, hcalls⟩ := reading_by_bytes ps true w
  have hone : Record.Decided 1 broken.bytes := by
    by_contra hundecided
    obtain ⟨x, hrun⟩ := Record.results_of_undecided (Record.decided_zero _) hundecided
    have hread : results 1 broken = [.ok (some ⟨"b", [], .int8, [-1]⟩)] := by decide +kernel
    have hio : results 1 broken = [.error .io] :=
      (hrun broken rfl).trans (congrArg ([·]) (FailureKind.answer_other x))
    cases hio.symm.trans hread
  have htwo : ¬Record.Decided 2 broken.bytes := by
    intro hdecided
    exact absurd (hdecided (record.drop 2)) (by decide +kernel)
  have hload : ps.Decided true w broken.bytes := by
    by_contra hundecided
    have hrun := load_of_undecided hundecided rfl (rfl : broken.failure? = some .other)
    exact absurd (congrArg (·.1) hrun) (by decide +kernel)
  have hshort : ¬ps.Decided true w short.bytes := by
    intro hdecided
    exact absurd (congrArg (·.1) (hdecided [0])) (by decide +kernel)
  obtain ⟨hresults, hloads⟩ := hpieces pieces record ⟨rfl, rfl⟩
  obtain ⟨hbroken, -, -, hbrokenLoad, -⟩ := hfailing broken (record ++ record) _ (by decide) rfl
  obtain ⟨-, -, -, -, hshortLoad⟩ := hfailing short record _ (by decide) rfl
  obtain ⟨x, -, hx⟩ := (hbroken 1 hone).2 htwo
  refine ⟨⟨hresults 2, hloads⟩, ⟨?_, hbrokenLoad hload⟩, ?_,
    (hcalls pieces _ 4 _ _ (by decide)).mpr ⟨rfl, rfl, rfl⟩⟩
  · rw [hx, FailureKind.answer_other]
  · rw [hshortLoad hshort, FailureKind.answer_other]

/-- A failure that says that the source has ended is taken for its end in the rank of a record. Any
failure is told where the source would have ended. -/
theorem reading_by_bytes_ended :
    let record : List UInt8 := [1, 0, 0, 0, 98, 0, 0, 0, 0, 5, 255]
    let torn : ByteSource := [.bytes (record.take 7), .failure .unexpectedEnd]
    let whole : ByteSource := [.bytes record, .failure .other]
    results 1 torn = [.error (.malformedStream (.endedIn .rank))] ∧
      results 2 (.ofBytes record) = [.ok (some ⟨"b", [], .int8, [-1]⟩), .ok none] ∧
      results 2 whole = [.ok (some ⟨"b", [], .int8, [-1]⟩), .error .io] := by
  decide +kernel

end ParameterList

end NeuralNet
