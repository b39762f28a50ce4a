import NeuralNet.Proofs.Checks
import NeuralNet.Proofs.Record.Calls
import NeuralNet.Proofs.Record.Head

/-!
# How bytes arrive

A reader looks at the bytes of a source and at nothing else. Either the bytes that have arrived
decide what it does, whatever follows them, or it needs more: then it blames the stream where the
source ends there, and tells of a failure where the source fails. A number is read at once, and there
a failure that says that the source has ended is believed.

* `Streams`: what is said here of a reader; it holds of readers in sequence;
* `results_eq`: the answers to reading records do not depend on how the bytes arrive;
* `results_of_decided`, `results_of_undecided`: what they are where the source fails.
-/

namespace NeuralNet

/-- The complaints about a stream that has ended too soon. -/
def Error.isEnd : Error → Bool
  | .malformedStream (.endedIn _) | .malformedStream (.endedAfter _ _) => true
  | _ => false

/-- The parts of a record that are numbers behind its name. -/
def RecordPart.isNumber : RecordPart → Bool
  | .rank | .dimension | .tag => true
  | .nameLength | .name | .values => false

/-- Whether it is the complaint about a stream that has ended in one of the numbers. -/
def Error.endsInNumber : Error → Bool
  | .malformedStream (.endedIn part) => part.isNumber
  | _ => false

/-- What is answered where the source fails, from the answer where it ends. -/
def FailureKind.answer {α : Type} (kind : FailureKind) : Except Error α → Except Error α
  | .error e => .error (if kind = .unexpectedEnd ∧ e.endsInNumber then e else .io)
  | .ok _ => .error .io

/-- What is answered where the bytes of the source are not enough, from the answer where it ends. -/
def ByteSource.stopped {α : Type} (u : ByteSource) (atEnd : Except Error α) : Except Error α :=
  match u.failure? with
  | none => atEnd
  | some kind => kind.answer atEnd

theorem FailureKind.answer_of_not {α : Type} {e : Error} (h : e.endsInNumber = false)
    (kind : FailureKind) : kind.answer (.error e : Except Error α) = .error .io :=
  congrArg Except.error (if_neg fun hx => nomatch h ▸ hx.2)

theorem FailureKind.answer_other {α : Type} (x : Except Error α) :
    FailureKind.other.answer x = .error .io := by
  cases x <;> rfl

/-- An answer where the bytes are not enough is a complaint, whoever asked. -/
theorem ByteSource.exists_stopped (u : ByteSource) (e : Error) :
    ∃ e', ∀ α : Type, u.stopped (.error e : Except Error α) = .error e' := by
  unfold stopped
  cases u.failure? with
  | none => exact ⟨e, fun _ => rfl⟩
  | some kind => exact ⟨_, fun _ => rfl⟩

namespace Record

variable {α β : Type} {m : Reader α} {f : α → Reader β} {start : List UInt8}

/-- Bytes that start like this decide what the reader does: it takes so many of them, or refuses
them. -/
def Settled (m : Reader α) (start : List UInt8) : Except Error (α × Nat) → Prop
  | .ok (a, n) => n ≤ start.length ∧ ∀ u, start <+: u.bytes → m.run u = .ok (a, u.skip n)
  | .error e => e.isEnd = false ∧ ∀ u, start <+: u.bytes → m.run u = .error e

/-- These bytes are not enough for the reader, but more of them may be. Where the source ends, it says
so. -/
structure Starved (m : Reader α) (start : List UInt8) (e : Error) : Prop where
  isEnd : e.isEnd = true
  stops : ∀ u, u.bytes = start → m.run u = u.stopped (.error e)
  goesOn : ∃ more x, Settled m (start ++ more) x

/-- The bytes that have arrived are enough, or they are not. -/
def Streams (m : Reader α) : Prop :=
  ∀ start, (∃ x, Settled m start x) ∨ ∃ e, Starved m start e

theorem Settled.append {x : Except Error (α × Nat)} (h : Settled m start x) (more : List UInt8) :
    Settled m (start ++ more) x := by
  match x, h with
  | .ok (a, n), ⟨hn, hrun⟩ =>
    refine ⟨?_, fun u hu => hrun u ((List.prefix_append start more).trans hu)⟩
    rw [List.length_append]
    omega
  | .error e, ⟨hend, hrun⟩ =>
    exact ⟨hend, fun u hu => hrun u ((List.prefix_append start more).trans hu)⟩

theorem Settled.congr {m' : Reader α} {x : Except Error (α × Nat)} (h : Settled m start x)
    (heq : ∀ u, start <+: u.bytes → m'.run u = m.run u) : Settled m' start x := by
  match x, h with
  | .ok (a, n), ⟨hn, hrun⟩ => exact ⟨hn, fun u hu => (heq u hu).trans (hrun u hu)⟩
  | .error e, ⟨hend, hrun⟩ => exact ⟨hend, fun u hu => (heq u hu).trans (hrun u hu)⟩

theorem bytes_ofBytes (bytes : List UInt8) : (ByteSource.ofBytes bytes).bytes = bytes :=
  (ByteSource.holds_ofBytes bytes).bytes_eq

theorem failure_ofBytes (bytes : List UInt8) : (ByteSource.ofBytes bytes).failure? = none := rfl

theorem prefix_ofBytes (start more : List UInt8) :
    start <+: (ByteSource.ofBytes (start ++ more)).bytes := by
  rw [bytes_ofBytes]
  exact List.prefix_append start more

theorem prefix_ofBytes_self (start : List UInt8) : start <+: (ByteSource.ofBytes start).bytes := by
  rw [bytes_ofBytes]

theorem Starved.run_ofBytes {e : Error} (h : Starved m start e) :
    m.run (.ofBytes start) = .error e := h.stops _ (bytes_ofBytes start)

theorem Starved.not_settled {e : Error} (h : Starved m start e) (x : Except Error (α × Nat)) :
    ¬Settled m start x := by
  have hrun := h.run_ofBytes
  intro hx
  match x, hx with
  | .ok (a, n), ⟨_, hok⟩ => cases hrun.symm.trans (hok _ (prefix_ofBytes_self start))
  | .error e', ⟨hend', herror⟩ =>
    cases hrun.symm.trans (herror _ (prefix_ofBytes_self start))
    cases h.isEnd.symm.trans hend'

theorem settled_pure (a : α) (start : List UInt8) :
    Settled (pure a : Reader α) start (.ok (a, 0)) :=
  ⟨Nat.zero_le _, fun u _ => by rw [u.skip_zero]; rfl⟩

theorem streams_pure (a : α) : Streams (pure a : Reader α) := fun start =>
  .inl ⟨_, settled_pure a start⟩

theorem settled_lift {x : Except Error α} (h : ∀ e, x = .error e → e.isEnd = false)
    (start : List UInt8) : Settled (liftM x : Reader α) start (x.map (·, 0)) := by
  cases x with
  | ok a => exact settled_pure a start
  | error e => exact ⟨h e rfl, fun _ _ => rfl⟩

theorem streams_lift {x : Except Error α} (h : ∀ e, x = .error e → e.isEnd = false) :
    Streams (liftM x : Reader α) := fun start => .inl ⟨_, settled_lift h start⟩

theorem streams_throw {e : Error} (h : e.isEnd = false) : Streams (throw e : Reader α) := fun _ =>
  .inl ⟨.error e, h, fun _ _ => rfl⟩

theorem settled_readBytes (part : RecordPart) {n : Nat} (hn : n ≤ start.length) :
    Settled (readBytes part n) start (.ok (start.take n, n)) := by
  refine ⟨hn, ?_⟩
  rintro u ⟨rest, hu⟩
  rw [run_readBytes, ← hu, List.length_append, if_pos (by omega), List.take_append_of_le_length hn]

theorem starved_readBytes {part : RecordPart} (hpart : part.isNumber = false) {n : Nat}
    (hn : ¬n ≤ start.length) :
    Starved (readBytes part n) start (.malformedStream (.endedIn part)) := by
  have hnumber : (Error.malformedStream (.endedIn part)).endsInNumber = false := hpart
  refine ⟨rfl, ?_, List.replicate n 0, _, settled_readBytes part ?_⟩
  · rintro u rfl
    rw [run_readBytes, if_neg hn, ByteSource.stopped]
    cases u.failure? with
    | none => rfl
    | some kind => exact (kind.answer_of_not hnumber).symm
  · rw [List.length_append, List.length_replicate]
    omega

theorem streams_readBytes {part : RecordPart} (hpart : part.isNumber = false) (n : Nat) :
    Streams (readBytes part n) := by
  intro start
  by_cases hn : n ≤ start.length
  · exact .inl ⟨_, settled_readBytes part hn⟩
  · exact .inr ⟨_, starved_readBytes hpart hn⟩

theorem settled_readNat (part : RecordPart) {width : Nat} (hw : width ≤ start.length) :
    Settled (readNat part width) start (.ok (ofLittleEndian (start.take width), width)) := by
  refine ⟨hw, ?_⟩
  rintro u ⟨rest, hu⟩
  rw [run_readNat, ← hu, List.length_append, if_pos (by omega), List.take_append_of_le_length hw]

theorem streams_readNat {part : RecordPart} (hpart : part.isNumber = true) (width : Nat) :
    Streams (readNat part width) := by
  intro start
  by_cases hw : width ≤ start.length
  · exact .inl ⟨_, settled_readNat part hw⟩
  · refine .inr ⟨.malformedStream (.endedIn part), rfl, ?_, List.replicate width 0, _,
      settled_readNat part ?_⟩
    · rintro u rfl
      rw [run_readNat, if_neg hw, ByteSource.stopped]
      rcases u.failure? with _ | _ | _
      · rfl
      · exact (congrArg Except.error (if_pos ⟨rfl, hpart⟩)).symm
      · rfl
    · rw [List.length_append, List.length_replicate]
      omega

/-! ## Readers in sequence -/

theorem Settled.bind {a : α} {n : Nat} {x : Except Error (β × Nat)}
    (hm : Settled m start (.ok (a, n))) (hf : Settled (f a) (start.drop n) x) :
    Settled (m >>= f) start (x.map fun y => (y.1, n + y.2)) := by
  obtain ⟨hn, hrun⟩ := hm
  have hbind : ∀ u, start <+: u.bytes →
      (m >>= f).run u = (f a).run (u.skip n) ∧ start.drop n <+: (u.skip n).bytes := by
    intro u hu
    rw [run_bind, hrun u hu, u.bytes_skip]
    exact ⟨rfl, hu.drop n⟩
  match x, hf with
  | .ok (b, k), ⟨hk, hnext⟩ =>
    rw [List.length_drop] at hk
    refine ⟨show n + k ≤ start.length by omega, fun u hu => ?_⟩
    obtain ⟨heq, hstart⟩ := hbind u hu
    rw [heq, hnext _ hstart, ByteSource.skip_skip]
  | .error e, ⟨hend, hnext⟩ =>
    refine ⟨hend, fun u hu => ?_⟩
    obtain ⟨heq, hstart⟩ := hbind u hu
    rw [heq, hnext _ hstart]

theorem Settled.bind_error {e : Error} (hm : Settled m start (.error e)) (f : α → Reader β) :
    Settled (m >>= f) start (.error e) :=
  ⟨hm.1, fun u hu => by rw [run_bind, hm.2 u hu]⟩

/-- After the first reader is satisfied, some more bytes satisfy the second. -/
theorem Settled.exists_bind {x : Except Error (α × Nat)} (hm : Settled m start x)
    (hf : ∀ a, Streams (f a)) : ∃ more y, Settled (m >>= f) (start ++ more) y := by
  match x, hm with
  | .error e, hm => exact ⟨[], .error e, (hm.append []).bind_error f⟩
  | .ok (a, n), hm =>
    rcases hf a (start.drop n) with ⟨y, hy⟩ | ⟨_, -, -, more, y, hy⟩
    · exact ⟨[], _, (hm.bind hy).append []⟩
    · rw [← List.drop_append_of_le_length hm.1] at hy
      exact ⟨more, _, (hm.append more).bind hy⟩

theorem Starved.bind {e : Error} (hm : Starved m start e) (hf : ∀ a, Streams (f a)) :
    Starved (m >>= f) start e := by
  obtain ⟨more, x, hx⟩ := hm.goesOn
  obtain ⟨more', y, hy⟩ := hx.exists_bind hf
  rw [List.append_assoc] at hy
  refine ⟨hm.isEnd, fun u hu => ?_, more ++ more', y, hy⟩
  obtain ⟨e', he'⟩ := u.exists_stopped e
  rw [run_bind, hm.stops u hu, he', he']

theorem Streams.bind (hm : Streams m) (hf : ∀ a, Streams (f a)) : Streams (m >>= f) := by
  intro start
  rcases hm start with ⟨_ | ⟨a, n⟩, hsettled⟩ | ⟨e, hstarved⟩
  · exact .inl ⟨_, hsettled.bind_error f⟩
  · rcases hf a (start.drop n) with ⟨x, hx⟩ | ⟨e, hend, hrun, -⟩
    · exact .inl ⟨_, hsettled.bind hx⟩
    · refine .inr ⟨e, hend, fun u hu => ?_, hsettled.exists_bind hf⟩
      have hbytes : (u.skip n).bytes = start.drop n := by rw [u.bytes_skip, hu]
      rw [run_bind, hsettled.2 u (hu ▸ List.prefix_refl _)]
      exact (hrun _ hbytes).trans (by rw [ByteSource.stopped, u.failure_skip]; rfl)
  · exact .inr ⟨e, hstarved.bind hf⟩

theorem Streams.unless {p : Prop} [Decidable p] {e : Error} (he : e.isEnd = false)
    (hm : Streams m) : Streams (if p then throw e else m) := by
  by_cases h : p
  · rw [if_pos h]
    exact streams_throw he
  · rwa [if_neg h]

section AtEnd

variable {m' : Reader α} {e₀ e : Error} (hnil : Starved m [] e₀)
  (hrun : ∀ u, m'.run u = if u.bytes = [] ∧ u.failure? = none then .error e else m.run u)

include hnil hrun

/-- A reader that wants bytes may as well say of a source without any that it is at its end. -/
theorem Settled.of_end {x : Except Error (α × Nat)} (hx : Settled m start x) :
    Settled m' start x := by
  have hstart : start ≠ [] := by
    rintro rfl
    exact hnil.not_settled x hx
  exact hx.congr fun u hu => by rw [hrun, if_neg fun hend => hu.ne_nil hstart hend.1]

theorem Streams.of_end (hm : Streams m) (he : e.isEnd = true)
    (hnumber₀ : e₀.endsInNumber = false) (hnumber : e.endsInNumber = false) : Streams m' := by
  have hgoesOn : ∀ {start e}, Starved m start e → ∃ more x, Settled m' (start ++ more) x := by
    rintro start e ⟨-, -, more, x, hx⟩
    exact ⟨more, x, hx.of_end hnil hrun⟩
  intro start
  rcases hm start with ⟨x, hx⟩ | ⟨e', hstarved⟩
  · exact .inl ⟨x, hx.of_end hnil hrun⟩
  by_cases hstart : start = []
  · subst hstart
    refine .inr ⟨e, he, fun u hu => ?_, hgoesOn hstarved⟩
    rw [hrun, ByteSource.stopped]
    cases hfailure : u.failure? with
    | none => rw [if_pos ⟨hu, rfl⟩]
    | some kind =>
      rw [if_neg fun hend => (by cases hend.2), hnil.stops u hu, ByteSource.stopped, hfailure]
      exact (kind.answer_of_not hnumber₀).trans (kind.answer_of_not hnumber).symm
  · refine .inr ⟨e', hstarved.isEnd, fun u hu => ?_, hgoesOn hstarved⟩
    rw [hrun, if_neg fun hend => hstart (hu.symm.trans hend.1), hstarved.stops u hu]

end AtEnd

/-! ## Reading a record -/

theorem streams_readExtents (rank : Nat) : Streams (readExtents rank) := by
  induction rank with
  | zero => exact streams_pure []
  | succ rank ih => exact (streams_readNat rfl 8).bind fun _ => ih.bind fun _ => streams_pure _

theorem streams_readName (n : Nat) : Streams (readName n) := by
  refine .unless rfl ((streams_readBytes rfl n).bind fun bytes => ?_)
  cases String.fromUTF8? ⟨bytes.toArray⟩ with
  | none => exact streams_throw rfl
  | some name => exact streams_pure name

theorem streams_readRank (name : String) : Streams (readRank name) :=
  (streams_readNat rfl 4).bind fun _ => .unless rfl (streams_pure _)

theorem streams_readHead (n : Nat) : Streams (readHead n) :=
  (streams_readName n).bind fun name => (streams_readRank name).bind fun rank =>
    (streams_readExtents rank).bind fun _ => (streams_readNat rfl 1).bind fun _ => streams_pure _

theorem isEnd_ofWord {t : DataType} {word : Nat} {e : Error} (h : t.ofWord word = .error e) :
    e.isEnd = false := by
  cases t with
  | float64 =>
    unfold DataType.ofWord DataType.exactDouble at h
    dsimp only at h
    split at h <;> cases h
    rfl
  | int32 | int64 =>
    unfold DataType.ofWord DataType.exactInteger at h
    dsimp only at h
    split at h <;> cases h
    rfl
  | float32 | float16 | uint8 | int8 => cases h

theorem isEnd_decode {t : DataType} {bytes : List UInt8} {e : Error}
    (h : t.decode bytes = .error e) : e.isEnd = false := by
  unfold DataType.decode at h
  split at h
  · cases h
    rfl
  · obtain ⟨piece, -, hword⟩ := exists_of_mapM_error h
    exact isEnd_ofWord hword

theorem streams_readBody (h : Head) : Streams (readBody h) := by
  unfold readBody
  cases DataType.ofTag? h.tag with
  | none => exact streams_throw rfl
  | some type =>
    dsimp only
    cases h.extents.checkedSize?.bind (Extents.checkedMul · type.width) with
    | none => exact streams_throw rfl
    | some length =>
      exact (streams_readBytes rfl length).bind fun payload =>
        (streams_lift fun _ => isEnd_decode).bind fun _ => streams_pure _

theorem streams_readRecord : Streams readRecord :=
  ((streams_readBytes rfl 4).bind fun _ => streams_readHead _).bind streams_readBody

theorem settled_of_written {r : Record} {written : List UInt8} (h : r.WrittenAs written)
    (hstart : written <+: start) : Settled readRecord start (.ok (r, written.length)) :=
  ⟨hstart.length_le, fun u hu =>
    (parses_readRecord u r _).mpr ⟨written, h, hstart.trans hu, rfl⟩⟩

/-- A record has at least one byte. -/
theorem starved_readRecord_nil : Starved readRecord [] (.malformedStream (.endedIn .nameLength)) :=
  ((starved_readBytes rfl (by decide)).bind fun _ => streams_readHead _).bind streams_readBody

/-! ## Reading records -/

/-- The answers to reading records, up to the end of the source or a refusal, and `count` at most. -/
def results : (count : Nat) → ByteSource → List (Except Error (Option Record))
  | 0, _ => []
  | count + 1, source =>
    match Record.read.run source with
    | .ok (some r, rest) => .ok (some r) :: results count rest
    | .ok (none, _) => [.ok none]
    | .error e => [.error e]

theorem run_read_of_ne {u : ByteSource} (h : u.bytes ≠ [] ∨ u.failure? ≠ none) :
    Record.read.run u = (some <$> readRecord).run u := by
  rw [run_read, if_neg]
  rintro ⟨hbytes, hfailure⟩
  exact h.elim (· hbytes) (· hfailure)

theorem bytes_ne_of_settled {x : Except Error (Record × Nat)} (h : Settled readRecord start x)
    {u : ByteSource} (hu : start <+: u.bytes) : u.bytes ≠ [] := by
  intro hnil
  rw [hnil, List.prefix_nil] at hu
  exact starved_readRecord_nil.not_settled x (hu ▸ h)

theorem results_of_ok {r : Record} {n : Nat} (h : Settled readRecord start (.ok (r, n)))
    (count : Nat) {u : ByteSource} (hu : start <+: u.bytes) :
    results (count + 1) u = .ok (some r) :: results count (u.skip n) := by
  rw [results, run_read_of_ne (.inl (bytes_ne_of_settled h hu)), run_map, h.2 u hu]

theorem results_of_error {e : Error} (h : Settled readRecord start (.error e)) (count : Nat)
    {u : ByteSource} (hu : start <+: u.bytes) : results (count + 1) u = [.error e] := by
  rw [results, run_read_of_ne (.inl (bytes_ne_of_settled h hu)), run_map, h.2 u hu]

/-- What is said where the bytes end too soon: there is no record, or its end is missing. -/
def StopsAtEnd (x : Except Error (Option Record)) : Prop :=
  x = .ok none ∨ ∃ e, x = .error e ∧ e.isEnd = true

theorem results_of_starved {e : Error} (h : Starved readRecord start e) :
    ∃ x, StopsAtEnd x ∧ ∀ count u, u.bytes = start → results (count + 1) u = [u.stopped x] := by
  by_cases hnil : start = []
  · subst hnil
    refine ⟨.ok none, .inl rfl, fun count u hu => ?_⟩
    rw [results, ByteSource.stopped]
    cases hfailure : u.failure? with
    | none => rw [run_read, if_pos ⟨hu, hfailure⟩]
    | some kind =>
      have hkind : u.failure? ≠ none := fun hnone => nomatch hfailure.symm.trans hnone
      rw [run_read_of_ne (.inr hkind), run_map, starved_readRecord_nil.stops u hu,
        ByteSource.stopped, hfailure]
      exact congrArg (fun e => [Except.error e]) (if_neg fun hx => nomatch hx.2)
  · refine ⟨.error e, .inr ⟨e, rfl, h.isEnd⟩, fun count u hu => ?_⟩
    obtain ⟨e', he'⟩ := u.exists_stopped e
    rw [results, run_read_of_ne (.inl (hu ▸ hnil)), run_map, h.stops u hu, he', he']

/-- The answers depend on the bytes, not on how they arrive. -/
theorem results_eq {u v : ByteSource} (hbytes : u.bytes = v.bytes)
    (hfailure : u.failure? = v.failure?) (count : Nat) : results count u = results count v := by
  induction count generalizing u v with
  | zero => rfl
  | succ count ih =>
    have hu : v.bytes <+: u.bytes := hbytes ▸ List.prefix_refl _
    rcases streams_readRecord v.bytes with ⟨e | ⟨r, n⟩, h⟩ | ⟨_, hstarved⟩
    · rw [results_of_error h count hu, results_of_error h count (List.prefix_refl _)]
    · have hrest : results count (u.skip n) = results count (v.skip n) :=
        ih (by rw [u.bytes_skip, v.bytes_skip, hbytes])
          (by rw [u.failure_skip, v.failure_skip, hfailure])
      rw [results_of_ok h count hu, results_of_ok h count (List.prefix_refl _), hrest]
    · obtain ⟨x, -, hrun⟩ := results_of_starved hstarved
      rw [hrun count u hbytes, hrun count v rfl, ByteSource.stopped, ByteSource.stopped, hfailure]

/-! ## Where a source fails -/

/-- The first answers are the same whatever bytes follow. -/
def Decided (count : Nat) (start : List UInt8) : Prop :=
  ∀ more, results count (.ofBytes (start ++ more)) = results count (.ofBytes start)

theorem decided_zero (start : List UInt8) : Decided 0 start := fun _ => rfl

/-- Behind a record that has arrived the answers are those to the bytes that are left. -/
theorem results_of_ok_append {r : Record} {n : Nat} (h : Settled readRecord start (.ok (r, n)))
    (count : Nat) (more : List UInt8) :
    results (count + 1) (.ofBytes (start ++ more)) =
      .ok (some r) :: results count (.ofBytes (start.drop n ++ more)) := by
  rw [results_of_ok h count (prefix_ofBytes start more)]
  refine congrArg _ (results_eq ?_ ?_ count)
  · rw [ByteSource.bytes_skip, bytes_ofBytes, bytes_ofBytes, List.drop_append_of_le_length h.1]
  · rw [ByteSource.failure_skip, failure_ofBytes, failure_ofBytes]

theorem results_of_ok_self {r : Record} {n : Nat} (h : Settled readRecord start (.ok (r, n)))
    (count : Nat) : results (count + 1) (.ofBytes start) =
      .ok (some r) :: results count (.ofBytes (start.drop n)) := by
  have hstart := results_of_ok_append h count []
  rwa [List.append_nil, List.append_nil] at hstart

theorem decided_of_ok_iff {r : Record} {n : Nat} (h : Settled readRecord start (.ok (r, n)))
    (count : Nat) : Decided (count + 1) start ↔ Decided count (start.drop n) := by
  constructor
  · intro hdecided more
    have hmore := hdecided more
    rw [results_of_ok_append h count more, results_of_ok_self h count] at hmore
    exact (List.cons.inj hmore).2
  · intro hdecided more
    rw [results_of_ok_append h count more, results_of_ok_self h count, hdecided more]

theorem decided_of_error {e : Error} (h : Settled readRecord start (.error e)) (count : Nat) :
    Decided (count + 1) start := by
  intro more
  rw [results_of_error h count (prefix_ofBytes start more),
    results_of_error h count (prefix_ofBytes_self start)]

theorem not_decided_of_starved {e : Error} (h : Starved readRecord start e) (count : Nat) :
    ¬Decided (count + 1) start := by
  intro hdecided
  obtain ⟨x, hx, hrun⟩ := results_of_starved h
  obtain ⟨more, y, hy⟩ := h.goesOn
  have hstart : results (count + 1) (.ofBytes start) = [x] := hrun count _ (bytes_ofBytes start)
  have hmore := hdecided more
  have hprefix := prefix_ofBytes_self (start ++ more)
  rw [hstart] at hmore
  rcases y with e | ⟨r, n⟩
  · rw [results_of_error hy count hprefix] at hmore
    rcases hx with rfl | ⟨e', rfl, hend⟩ <;> cases hmore
    rw [hy.1] at hend
    cases hend
  · rw [results_of_ok hy count hprefix] at hmore
    rcases hx with rfl | ⟨e', rfl, -⟩ <;> cases hmore

/-- Records that have arrived as a whole are decided. -/
theorem decided_of_written {rs : List Record} {pieces : List (List UInt8)}
    (h : List.Forall₂ WrittenAs rs pieces) (hstart : pieces.flatten <+: start) :
    Decided rs.length start := by
  induction h generalizing start with
  | nil => exact decided_zero start
  | cons hwritten _ ih =>
    rw [List.flatten_cons] at hstart
    obtain ⟨hfirst, hothers⟩ := append_prefix_iff.mp hstart
    exact (decided_of_ok_iff (settled_of_written hwritten hfirst) _).mpr (ih hothers)

/-- Answers that are decided by bytes are given to every source that starts with these, even if it
fails behind them. -/
theorem results_of_decided {count : Nat} (h : Decided count start) {u : ByteSource}
    (hu : u.bytes = start) : results count u = results count (.ofBytes start) := by
  induction count generalizing start u with
  | zero => rfl
  | succ count ih =>
    have hprefix : start <+: u.bytes := hu ▸ List.prefix_refl _
    rcases streams_readRecord start with ⟨e | ⟨r, n⟩, hx⟩ | ⟨_, hstarved⟩
    · rw [results_of_error hx count hprefix, results_of_error hx count (prefix_ofBytes_self start)]
    · rw [results_of_ok hx count hprefix, results_of_ok_self hx count,
        ih ((decided_of_ok_iff hx count).mp h) (by rw [u.bytes_skip, hu])]
    · exact absurd h (not_decided_of_starved hstarved count)

/-- The first answer that is not decided by the bytes before a failure is the answer to the failure. -/
theorem results_of_undecided {count : Nat} (h : Decided count start)
    (hnext : ¬Decided (count + 1) start) :
    ∃ x, ∀ u : ByteSource, u.bytes = start →
      results (count + 1) u = results count (.ofBytes start) ++ [u.stopped x] := by
  induction count generalizing start with
  | zero =>
    rcases streams_readRecord start with ⟨e | ⟨r, n⟩, hx⟩ | ⟨_, hstarved⟩
    · exact absurd (decided_of_error hx 0) hnext
    · exact absurd ((decided_of_ok_iff hx 0).mpr (decided_zero _)) hnext
    · obtain ⟨x, -, hrun⟩ := results_of_starved hstarved
      exact ⟨x, hrun 0⟩
  | succ count ih =>
    rcases streams_readRecord start with ⟨e | ⟨r, n⟩, hx⟩ | ⟨_, hstarved⟩
    · exact absurd (decided_of_error hx (count + 1)) hnext
    · obtain ⟨x, hrun⟩ := ih ((decided_of_ok_iff hx count).mp h)
        fun hdecided => hnext ((decided_of_ok_iff hx (count + 1)).mpr hdecided)
      refine ⟨x, fun u hu => ?_⟩
      rw [results_of_ok hx (count + 1) (hu ▸ List.prefix_refl _), results_of_ok_self hx count,
        hrun _ (by rw [u.bytes_skip, hu]), ByteSource.stopped, u.failure_skip]
      rfl
    · exact absurd h (not_decided_of_starved hstarved count)

end Record

end NeuralNet
