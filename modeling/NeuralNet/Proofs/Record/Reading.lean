import NeuralNet.Record
import NeuralNet.Proofs.Record.Source

/-!
# What readers take from a source

`Parses` says of a reader which bytes it takes for which value. It holds of a sequence of readers
when it holds of each, and it leaves no room for a look at the bytes that follow. `Complains` says
that a reader has only complaints about the bytes.
-/

namespace NeuralNet.Record

variable {α β : Type} {m : Reader α} {f : α → Reader β}

theorem run_bind (m : Reader α) (f : α → Reader β) (s : ByteSource) :
    (m >>= f).run s =
      match m.run s with
      | .ok (a, t) => (f a).run t
      | .error e => .error e := by
  rw [StateT.run_bind]
  cases m.run s <;> rfl

theorem run_map (g : α → β) (m : Reader α) (s : ByteSource) :
    (g <$> m).run s =
      match m.run s with
      | .ok (a, t) => .ok (g a, t)
      | .error e => .error e := by
  rw [← bind_pure_comp, run_bind]
  cases m.run s <;> rfl

theorem run_bind_ok_iff {s t : ByteSource} {b : β} :
    (m >>= f).run s = .ok (b, t) ↔ ∃ a u, m.run s = .ok (a, u) ∧ (f a).run u = .ok (b, t) := by
  rw [run_bind]
  rcases m.run s with e | ⟨a, u⟩
  · simp
  · constructor
    · intro h
      exact ⟨a, u, rfl, h⟩
    · rintro ⟨_, _, h, hf⟩
      cases h
      exact hf

theorem run_bind_error_iff {s : ByteSource} {e : Error} :
    (m >>= f).run s = .error e ↔
      m.run s = .error e ∨ ∃ a u, m.run s = .ok (a, u) ∧ (f a).run u = .error e := by
  rw [run_bind]
  rcases m.run s with e' | ⟨a, u⟩
  · simp
  · constructor
    · intro h
      exact .inr ⟨a, u, rfl, h⟩
    · rintro (h | ⟨_, _, h, hf⟩)
      · cases h
      · cases h
        exact hf

theorem run_lift_ok_iff {x : Except Error α} {s t : ByteSource} {a : α} :
    (liftM x : Reader α).run s = .ok (a, t) ↔ x = .ok a ∧ t = s := by
  cases x with
  | ok b =>
    change Except.ok (b, s) = .ok (a, t) ↔ _
    simp [eq_comm]
  | error e =>
    constructor
    · intro h
      cases h
    · rintro ⟨h, -⟩
      cases h

theorem run_lift_error_iff {x : Except Error α} {s : ByteSource} {e : Error} :
    (liftM x : Reader α).run s = .error e ↔ x = .error e := by
  cases x with
  | ok a => constructor <;> intro h <;> cases h
  | error e' => constructor <;> intro h <;> cases h <;> rfl

theorem run_throw (e : Error) (s : ByteSource) : (throw e : Reader α).run s = .error e := rfl

/-! ## Taking bytes -/

/-- The reader succeeds just where the source goes on with bytes that are related to the value, and
takes those. -/
def Parses (m : Reader α) (R : List UInt8 → α → Prop) : Prop :=
  ∀ s a t, m.run s = .ok (a, t) ↔ ∃ taken, R taken a ∧ taken <+: s.bytes ∧ t = s.skip taken.length

variable {R S : List UInt8 → α → Prop} {Q : α → List UInt8 → β → Prop}

theorem Parses.congr (h : Parses m R) (hRS : ∀ taken a, R taken a ↔ S taken a) : Parses m S := by
  intro s a t
  rw [h]
  simp only [hRS]

theorem parses_pure (a : α) : Parses (pure a : Reader α) fun taken b => taken = [] ∧ b = a := by
  intro s b t
  change Except.ok (a, s) = .ok (b, t) ↔ _
  constructor
  · intro h
    cases h
    exact ⟨[], ⟨rfl, rfl⟩, List.nil_prefix, (s.skip_zero).symm⟩
  · rintro ⟨_, ⟨rfl, rfl⟩, -, rfl⟩
    rw [List.length_nil, s.skip_zero]

theorem parses_throw (e : Error) : Parses (throw e : Reader α) fun _ _ => False := by
  intro s a t
  rw [run_throw]
  simp

theorem parses_lift (x : Except Error α) :
    Parses (liftM x : Reader α) fun taken a => taken = [] ∧ x = .ok a := by
  cases x with
  | ok a => exact (parses_pure a).congr fun taken b => by simp [eq_comm]
  | error e => exact (parses_throw e).congr fun taken b => by simp

theorem append_prefix_iff {xs ys zs : List UInt8} :
    xs ++ ys <+: zs ↔ xs <+: zs ∧ ys <+: zs.drop xs.length := by
  constructor
  · rintro ⟨rest, rfl⟩
    rw [List.append_assoc, List.drop_left]
    exact ⟨List.prefix_append _ _, List.prefix_append _ _⟩
  · rintro ⟨⟨rest, rfl⟩, h⟩
    rw [List.drop_left] at h
    exact (List.prefix_append_right_inj xs).mpr h

/-- Readers in sequence take one piece after the other. -/
theorem Parses.bind (hm : Parses m R) (hf : ∀ a, Parses (f a) (Q a)) :
    Parses (m >>= f) fun taken b =>
      ∃ a first second, R first a ∧ Q a second b ∧ taken = first ++ second := by
  intro s b t
  rw [run_bind_ok_iff]
  constructor
  · rintro ⟨a, u, h1, h2⟩
    obtain ⟨first, hR, hfirst, rfl⟩ := (hm s a u).mp h1
    obtain ⟨second, hQ, hsecond, rfl⟩ := (hf a _ b t).mp h2
    rw [ByteSource.bytes_skip] at hsecond
    refine ⟨first ++ second, ⟨a, first, second, hR, hQ, rfl⟩, ?_, ?_⟩
    · exact append_prefix_iff.mpr ⟨hfirst, hsecond⟩
    · rw [ByteSource.skip_skip, List.length_append]
  · rintro ⟨_, ⟨a, first, second, hR, hQ, rfl⟩, htaken, rfl⟩
    obtain ⟨hfirst, hsecond⟩ := append_prefix_iff.mp htaken
    refine ⟨a, s.skip first.length, (hm s a _).mpr ⟨first, hR, hfirst, rfl⟩, ?_⟩
    refine (hf a _ b _).mpr ⟨second, hQ, ?_, ?_⟩
    · rwa [ByteSource.bytes_skip]
    · rw [ByteSource.skip_skip, List.length_append]

theorem Parses.unless {p : Prop} [Decidable p] (e : Error) (hm : Parses m R) :
    Parses (if p then throw e else m) fun taken a => ¬p ∧ R taken a := by
  by_cases h : p
  · rw [if_pos h]
    exact (parses_throw e).congr fun taken a => by simp [h]
  · rw [if_neg h]
    exact hm.congr fun taken a => by simp [h]

/-- A source that fails goes on failing behind what was taken. -/
theorem Parses.failure_eq (hm : Parses m R) {s t : ByteSource} {a : α} (h : m.run s = .ok (a, t)) :
    t.failure? = s.failure? := by
  obtain ⟨_, -, -, rfl⟩ := (hm s a t).mp h
  exact s.failure_skip _

/-! ## Complaints -/

/-- A complaint about the bytes, or of a source that failed. -/
def Faulty (s : ByteSource) (e : Error) : Prop :=
  (s.failure?.isSome = true ∧ e = .io) ∨ ∃ fault, e = .malformedStream fault

/-- The reader complains of nothing but the stream. -/
def Complains (m : Reader α) : Prop := ∀ s e, m.run s = .error e → Faulty s e

theorem complains_pure (a : α) : Complains (pure a : Reader α) := by
  intro s e h
  cases h

theorem complains_throw (fault : StreamFault) :
    Complains (throw (.malformedStream fault) : Reader α) := by
  intro s e h
  cases h
  exact .inr ⟨fault, rfl⟩

theorem Complains.bind (hp : Parses m R) (hm : Complains m) (hf : ∀ a, Complains (f a)) :
    Complains (m >>= f) := by
  intro s e h
  rcases run_bind_error_iff.mp h with h | ⟨a, t, h1, h2⟩
  · exact hm s e h
  · have := hf a t e h2
    rwa [Faulty, hp.failure_eq h1] at this

theorem Complains.unless {p : Prop} [Decidable p] (fault : StreamFault) (hm : Complains m) :
    Complains (if p then throw (.malformedStream fault) else m) := by
  by_cases h : p
  · rw [if_pos h]
    exact complains_throw fault
  · rw [if_neg h]
    exact hm

/-! ## Bytes and numbers -/

theorem run_readBytes (part : RecordPart) (n : Nat) (s : ByteSource) :
    (readBytes part n).run s =
      if n ≤ s.bytes.length then .ok (s.bytes.take n, s.skip n)
      else if s.failure?.isSome then .error .io
      else .error (.malformedStream (.endedIn part)) := by
  obtain ⟨hbytes, hfailure, -, -⟩ := s.request_spec n
  simp only [readBytes, StateT.run, hbytes, hfailure, List.length_take]
  by_cases h : n ≤ s.bytes.length
  · simp [h, ByteSource.skip, show ¬s.bytes.length < n by omega]
  · have hmin : min n s.bytes.length < n := by omega
    simp [h, hmin, show s.bytes.length < n by omega]

theorem parses_readBytes (part : RecordPart) (n : Nat) :
    Parses (readBytes part n) fun taken a => taken.length = n ∧ a = taken := by
  intro s a t
  rw [run_readBytes]
  constructor
  · intro h
    split at h
    · rename_i hn
      cases h
      refine ⟨_, ⟨?_, rfl⟩, List.take_prefix _ _, ?_⟩ <;> simp [hn]
    · split at h <;> cases h
  · rintro ⟨_, ⟨rfl, rfl⟩, ⟨rest, hs⟩, rfl⟩
    rw [← hs, if_pos (by simp), List.take_left]

theorem complains_readBytes (part : RecordPart) (n : Nat) : Complains (readBytes part n) := by
  intro s e h
  rw [run_readBytes] at h
  split at h
  · cases h
  · split at h
    · cases h
      exact .inl ⟨‹_›, rfl⟩
    · cases h
      exact .inr ⟨_, rfl⟩

/-- Nothing is read just at the end of the source. -/
theorem run_readBytes? (part : RecordPart) {n : Nat} (hn : 0 < n) (s : ByteSource) :
    (readBytes? part n).run s =
      if s.bytes = [] ∧ s.failure? = none then .ok (none, s.skip n)
      else (some <$> readBytes part n).run s := by
  obtain ⟨hbytes, hfailure, -, -⟩ := s.request_spec n
  rw [run_map, run_readBytes]
  simp only [readBytes?, StateT.run, hbytes, hfailure, List.isEmpty_iff, List.length_take]
  by_cases hempty : s.bytes = []
  · cases s.failure? <;> simp [hempty, hn, ByteSource.skip, show ¬n = 0 by omega]
  have hne : ¬s.bytes.take n = [] := by simp [hempty, show n ≠ 0 by omega]
  rw [if_neg hne, if_neg (c := _ ∧ _) (fun h => hempty h.1)]
  by_cases hle : n ≤ s.bytes.length
  · simp [hle, ByteSource.skip, show ¬s.bytes.length < n by omega]
  · have hmin : min n s.bytes.length < n := by omega
    cases s.failure? <;> simp [hle, hmin, show s.bytes.length < n by omega]

/-- A failure in the middle of a number is told, unless it says that the source has ended. -/
theorem run_readNat (part : RecordPart) (width : Nat) (s : ByteSource) :
    (readNat part width).run s =
      if width ≤ s.bytes.length then .ok (ofLittleEndian (s.bytes.take width), s.skip width)
      else if s.failure? = some .other then .error .io
      else .error (.malformedStream (.endedIn part)) := by
  obtain ⟨hbytes, hfailure, -, -⟩ := s.request_spec width
  simp only [readNat, StateT.run, hbytes, hfailure, List.length_take]
  by_cases h : width ≤ s.bytes.length
  · simp [h, ByteSource.skip, show ¬s.bytes.length < width by omega]
  · have hmin : min width s.bytes.length < width := by omega
    rw [if_pos (show s.bytes.length < width by omega), if_neg h]
    rcases s.failure? with _ | _ | _ <;> simp [hmin]

theorem parses_readNat (part : RecordPart) (width : Nat) :
    Parses (readNat part width) fun taken n =>
      n < wordCount width ∧ taken = littleEndian width n := by
  intro s n t
  rw [run_readNat]
  constructor
  · intro h
    split at h
    · rename_i hle
      cases h
      have hlen : (s.bytes.take width).length = width := List.length_take_of_le hle
      have hlt := ofLittleEndian_lt (s.bytes.take width)
      have hback := littleEndian_ofLittleEndian (s.bytes.take width)
      rw [hlen] at hlt hback
      refine ⟨_, ⟨hlt, rfl⟩, ?_, by rw [length_littleEndian]⟩
      rw [hback]
      exact List.take_prefix _ _
    · split at h <;> cases h
  · rintro ⟨_, ⟨hn, rfl⟩, ⟨rest, hs⟩, rfl⟩
    have hlen : (littleEndian width n).length = width := length_littleEndian width n
    have htake : s.bytes.take width = littleEndian width n := by
      rw [← hs, List.take_append_of_le_length (Nat.le_of_eq hlen.symm),
        List.take_of_length_le (Nat.le_of_eq hlen)]
    have hle : width ≤ s.bytes.length := by
      rw [← hs, List.length_append, hlen]
      exact Nat.le_add_right _ _
    rw [if_pos hle, htake, ofLittleEndian_littleEndian, Nat.mod_eq_of_lt hn, hlen]

theorem complains_readNat (part : RecordPart) (width : Nat) : Complains (readNat part width) := by
  intro s e h
  rw [run_readNat] at h
  split at h
  · cases h
  · split at h
    · cases h
      exact .inl ⟨by rw [‹s.failure? = some .other›]; rfl, rfl⟩
    · cases h
      exact .inr ⟨_, rfl⟩

theorem parses_readExtents (rank : Nat) :
    Parses (readExtents rank) fun taken s =>
      s.length = rank ∧ (∀ n ∈ s, n < wordCount 8) ∧ taken = s.flatMap (littleEndian 8) := by
  induction rank with
  | zero =>
    refine (parses_pure []).congr fun taken s => ?_
    rw [List.length_eq_zero_iff]
    constructor
    · rintro ⟨rfl, rfl⟩
      exact ⟨rfl, by simp, rfl⟩
    · rintro ⟨rfl, -, rfl⟩
      exact ⟨rfl, rfl⟩
  | succ rank ih =>
    refine ((parses_readNat .dimension 8).bind fun n =>
      ih.bind fun s => parses_pure (n :: s)).congr fun taken s => ?_
    constructor
    · rintro ⟨n, _, _, ⟨hn, rfl⟩, ⟨s, _, _, ⟨rfl, hs, rfl⟩, ⟨rfl, rfl⟩, rfl⟩, rfl⟩
      refine ⟨rfl, ?_, by simp⟩
      simpa using ⟨hn, hs⟩
    · rintro ⟨hlen, hs, rfl⟩
      obtain ⟨n, s, rfl⟩ := List.exists_cons_of_length_eq_add_one hlen
      obtain ⟨hn, hs⟩ := List.forall_mem_cons.mp hs
      exact ⟨n, _, _, ⟨hn, rfl⟩, ⟨s, _, _, ⟨Nat.succ.inj hlen, hs, rfl⟩, ⟨rfl, rfl⟩, rfl⟩, by simp⟩

theorem complains_readExtents (rank : Nat) : Complains (readExtents rank) := by
  induction rank with
  | zero => exact complains_pure []
  | succ rank ih =>
    exact .bind (parses_readNat .dimension 8) (complains_readNat .dimension 8) fun n =>
      .bind (parses_readExtents rank) ih fun s => complains_pure (n :: s)

end NeuralNet.Record
