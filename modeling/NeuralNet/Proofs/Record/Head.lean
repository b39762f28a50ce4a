import NeuralNet.Proofs.DataType.Element
import NeuralNet.Proofs.Record.Reading

/-!
# Reading a record

A record is read as a head and a body. The head ends with the tag; how much belongs to the body
follows from the head.

* `read_some_iff`: `read` takes a head that is well formed and the values that it asks for;
* `read_none_iff`: it takes nothing where the source has ended;
* `read_error`: it complains of an unknown tag right behind a head, and else of the stream;
* `Head.eq_of_prefix`: bytes start with one head at most.
-/

namespace NeuralNet

namespace Record

theorem fromUTF8?_eq_some {bytes : List UInt8} {name : String} :
    String.fromUTF8? ⟨bytes.toArray⟩ = some name ↔ bytes = nameBytes name := by
  unfold String.fromUTF8? nameBytes
  rw [String.toUTF8_eq_toByteArray]
  constructor
  · intro h
    split at h
    · cases h
      rfl
    · cases h
  · rintro rfl
    exact dif_pos name.isValidUTF8

/-- A record without its values. -/
structure Head where
  name : String
  extents : Extents
  tag : UInt8
  deriving DecidableEq, Repr

namespace Head

/-- The bytes of a head behind the length of its name. -/
def rest (h : Head) : List UInt8 :=
  nameBytes h.name ++
    (littleEndian 4 h.extents.length ++ (h.extents.flatMap (littleEndian 8) ++ [h.tag]))

def bytes (h : Head) : List UInt8 := littleEndian 4 (nameBytes h.name).length ++ h.rest

/-- The limits of a head. -/
structure WellFormed (h : Head) : Prop where
  name_le : (nameBytes h.name).length ≤ maxNameBytes
  rank_le : h.extents.length ≤ maxRank
  extents_lt : ∀ n ∈ h.extents, n < wordCount 8

end Head

/-! ## Readers for the parts -/

def readName (length : Nat) : Reader String := do
  if maxNameBytes < length then throw (.malformedStream (.nameTooLong length))
  else
    let bytes ← readBytes .name length
    match String.fromUTF8? ⟨bytes.toArray⟩ with
    | some name => pure name
    | none => throw (.malformedStream .nameNotText)

def readRank (name : String) : Reader Nat := do
  let rank ← readNat .rank 4
  if maxRank < rank then throw (.malformedStream (.rankTooHigh rank name)) else pure rank

def readHead (nameLength : Nat) : Reader Head := do
  let name ← readName nameLength
  let rank ← readRank name
  let extents ← readExtents rank
  let tag ← readNat .tag 1
  return ⟨name, extents, tag.toUInt8⟩

def readBody (h : Head) : Reader Record :=
  match DataType.ofTag? h.tag with
  | none => throw (.unsupported (.tag h.tag))
  | some type =>
    match h.extents.checkedSize?.bind (Extents.checkedMul · type.width) with
    | none => throw (.malformedStream (.countOverflow h.name))
    | some length => do
      let values ← type.decode (← readBytes .values length)
      return ⟨h.name, h.extents, type, values⟩

theorem readRest_eq (nameLength : Nat) :
    readRest nameLength = readHead nameLength >>= readBody := by
  unfold readRest readHead readName
  by_cases h : maxNameBytes < nameLength
  · rw [if_pos h, if_pos h]
    rfl
  rw [if_neg h, if_neg h]
  simp only [bind_assoc]
  refine bind_congr fun bytes => ?_
  cases String.fromUTF8? ⟨bytes.toArray⟩ with
  | none => rfl
  | some name =>
    simp only [pure_bind, readRank, bind_assoc]
    refine bind_congr fun rank => ?_
    by_cases h : maxRank < rank
    · rw [if_pos h, if_pos h]
      rfl
    rw [if_neg h, if_neg h, pure_bind]
    refine bind_congr fun extents => bind_congr fun tag => ?_
    unfold readBody
    cases DataType.ofTag? tag.toUInt8 with
    | none => rfl
    | some type =>
      dsimp only
      cases extents.checkedSize?.bind (Extents.checkedMul · type.width) <;> rfl

/-! ## The head -/

theorem parses_readName (n : Nat) :
    Parses (readName n) fun taken name =>
      n ≤ maxNameBytes ∧ taken.length = n ∧ taken = nameBytes name := by
  have htext : ∀ bytes : List UInt8, Parses (m := match String.fromUTF8? ⟨bytes.toArray⟩ with
      | some name => pure name
      | none => throw (.malformedStream .nameNotText)) fun taken name =>
        taken = [] ∧ bytes = nameBytes name := by
    intro bytes
    simp only [← fromUTF8?_eq_some]
    cases String.fromUTF8? ⟨bytes.toArray⟩ with
    | none => exact (parses_throw _).congr fun taken name => by simp
    | some found => exact (parses_pure found).congr fun taken name => by simp [eq_comm]
  refine (((parses_readBytes .name n).bind htext).unless _).congr fun taken name => ?_
  constructor
  · rintro ⟨hlimit, _, _, _, ⟨hlen, rfl⟩, ⟨rfl, hname⟩, rfl⟩
    rw [List.append_nil]
    exact ⟨by omega, hlen, hname⟩
  · rintro ⟨hlimit, hlen, hname⟩
    exact ⟨by omega, taken, taken, [], ⟨hlen, rfl⟩, ⟨rfl, hname⟩, (List.append_nil taken).symm⟩

theorem complains_readName (n : Nat) : Complains (readName n) := by
  refine .unless _ (.bind (parses_readBytes .name n) (complains_readBytes .name n) fun bytes => ?_)
  cases String.fromUTF8? ⟨bytes.toArray⟩ with
  | none => exact complains_throw _
  | some name => exact complains_pure name

theorem parses_readRank (name : String) :
    Parses (readRank name) fun taken rank => rank ≤ maxRank ∧ taken = littleEndian 4 rank := by
  refine ((parses_readNat .rank 4).bind fun n => (parses_pure n).unless _).congr
    fun taken rank => ?_
  constructor
  · rintro ⟨_, _, _, ⟨-, rfl⟩, ⟨hlimit, rfl, rfl⟩, rfl⟩
    exact ⟨by omega, List.append_nil _⟩
  · rintro ⟨hlimit, rfl⟩
    have hlt : rank < wordCount 4 := Nat.lt_of_le_of_lt hlimit (by decide)
    exact ⟨rank, _, [], ⟨hlt, rfl⟩, ⟨by omega, rfl, rfl⟩, (List.append_nil _).symm⟩

theorem complains_readRank (name : String) : Complains (readRank name) :=
  .bind (parses_readNat .rank 4) (complains_readNat .rank 4) fun rank =>
    .unless _ (complains_pure rank)

theorem parses_readTag :
    Parses (readNat .tag 1) fun taken n => ∃ tag : UInt8, n = tag.toNat ∧ taken = [tag] := by
  refine (parses_readNat .tag 1).congr fun taken n => ?_
  constructor
  · rintro ⟨hn, rfl⟩
    have hn : n < 256 := hn
    exact ⟨n.toUInt8, by simp [Nat.mod_eq_of_lt hn], by simp [littleEndian, Nat.mod_eq_of_lt hn]⟩
  · rintro ⟨tag, rfl, rfl⟩
    have ht : tag.toNat < 256 := tag.toNat_lt
    exact ⟨ht, by simp [littleEndian, Nat.mod_eq_of_lt ht]⟩

theorem parses_readHead (n : Nat) :
    Parses (readHead n) fun taken h =>
      h.WellFormed ∧ (nameBytes h.name).length = n ∧ taken = h.rest := by
  refine ((parses_readName n).bind fun name => (parses_readRank name).bind fun rank =>
    (parses_readExtents rank).bind fun extents => parses_readTag.bind fun tag =>
      parses_pure (Head.mk name extents tag.toUInt8)).congr fun taken h => ?_
  constructor
  · rintro ⟨name, _, _, ⟨hname, hlen, rfl⟩, ⟨_, _, _, ⟨hrank, rfl⟩, ⟨extents, _, _,
      ⟨rfl, hextents, rfl⟩, ⟨_, _, _, ⟨tag, rfl, rfl⟩, ⟨rfl, rfl⟩, rfl⟩, rfl⟩, rfl⟩, rfl⟩
    exact ⟨⟨hlen ▸ hname, hrank, hextents⟩, hlen, by simp [Head.rest]⟩
  · rintro ⟨⟨hname, hrank, hextents⟩, rfl, rfl⟩
    exact ⟨h.name, _, _, ⟨hname, rfl, rfl⟩, ⟨_, _, _, ⟨hrank, rfl⟩, ⟨h.extents, _, _,
      ⟨rfl, hextents, rfl⟩, ⟨h.tag.toNat, _, [], ⟨h.tag, rfl, rfl⟩, ⟨rfl, by simp⟩, rfl⟩, rfl⟩,
        rfl⟩, by simp [Head.rest]⟩

theorem complains_readHead (n : Nat) : Complains (readHead n) :=
  .bind (parses_readName n) (complains_readName n) fun name =>
    .bind (parses_readRank name) (complains_readRank name) fun rank =>
      .bind (parses_readExtents rank) (complains_readExtents rank) fun _ =>
        .bind (parses_readNat .tag 1) (complains_readNat .tag 1) fun _ => complains_pure _

/-! ## The body -/

/-- These bytes are the values of the record. -/
structure Body (payload : List UInt8) (r : Record) : Prop where
  length_eq :
    r.extents.checkedSize?.bind (Extents.checkedMul · r.type.width) = some payload.length
  decode_eq : r.type.decode payload = .ok r.values

def head (r : Record) : Head := ⟨r.name, r.extents, r.type.tag⟩

theorem ofTag?_head (r : Record) : DataType.ofTag? r.head.tag = some r.type :=
  DataType.ofTag?_eq_some.mpr rfl

theorem parses_readBody (h : Head) :
    Parses (readBody h) fun taken r => r.head = h ∧ r.Body taken := by
  unfold readBody
  cases htype : DataType.ofTag? h.tag with
  | none =>
    refine (parses_throw _).congr fun taken r => ⟨False.elim, ?_⟩
    rintro ⟨rfl, -⟩
    cases (ofTag?_head r).symm.trans htype
  | some type =>
    dsimp only
    cases hlen : h.extents.checkedSize?.bind (Extents.checkedMul · type.width) with
    | none =>
      refine (parses_throw _).congr fun taken r => ⟨False.elim, ?_⟩
      rintro ⟨rfl, hbody⟩
      cases (ofTag?_head r).symm.trans htype
      cases hlen.symm.trans hbody.length_eq
    | some length =>
      refine ((parses_readBytes .values length).bind fun payload =>
        (parses_lift (type.decode payload)).bind fun values =>
          parses_pure (Record.mk h.name h.extents type values)).congr fun taken r => ?_
      constructor
      · rintro ⟨_, payload, _, ⟨rfl, rfl⟩, ⟨values, _, _, ⟨rfl, hvalues⟩, ⟨rfl, rfl⟩, rfl⟩, rfl⟩
        have htag := DataType.ofTag?_eq_some.mp htype
        simp only [List.append_nil]
        exact ⟨by rw [head, htag], hlen, hvalues⟩
      · rintro ⟨rfl, hbody⟩
        cases (ofTag?_head r).symm.trans htype
        have hlen' := Option.some.inj (hlen.symm.trans hbody.length_eq)
        exact ⟨taken, taken, [], ⟨hlen'.symm, rfl⟩, ⟨r.values, [], [], ⟨rfl, hbody.decode_eq⟩,
          ⟨rfl, rfl⟩, rfl⟩, by simp⟩

theorem readBody_error {h : Head} {s : ByteSource} {e : Error}
    (he : (readBody h).run s = .error e) :
    Faulty s e ∨ DataType.ofTag? h.tag = none ∧ e = .unsupported (.tag h.tag) := by
  unfold readBody at he
  cases htype : DataType.ofTag? h.tag with
  | none =>
    rw [htype] at he
    cases he
    exact .inr ⟨rfl, rfl⟩
  | some type =>
    left
    rw [htype] at he
    dsimp only at he
    cases hlen : h.extents.checkedSize?.bind (Extents.checkedMul · type.width) with
    | none =>
      rw [hlen] at he
      cases he
      exact .inr ⟨_, rfl⟩
    | some length =>
      rw [hlen] at he
      rcases run_bind_error_iff.mp he with he | ⟨payload, t, -, he⟩
      · exact complains_readBytes .values length s e he
      rcases run_bind_error_iff.mp he with he | ⟨values, u, -, he⟩
      · exact .inr (DataType.decode_error (run_lift_error_iff.mp he))
      · cases he

/-! ## The record -/

/-- A head from its first byte on. -/
def readFullHead : Reader Head :=
  readBytes .nameLength 4 >>= fun length => readHead (ofLittleEndian length)

theorem parses_readFullHead :
    Parses readFullHead fun taken h => h.WellFormed ∧ taken = h.bytes := by
  refine ((parses_readBytes .nameLength 4).bind fun length =>
    parses_readHead (ofLittleEndian length)).congr fun taken h => ?_
  constructor
  · rintro ⟨length, _, _, ⟨hlen, rfl⟩, ⟨hwell, hname, rfl⟩, rfl⟩
    rw [← littleEndian_ofLittleEndian length, hlen, ← hname]
    exact ⟨hwell, rfl⟩
  · rintro ⟨hwell, rfl⟩
    have hlen : (nameBytes h.name).length < wordCount 4 :=
      Nat.lt_of_le_of_lt hwell.name_le (by decide)
    refine ⟨littleEndian 4 (nameBytes h.name).length, _, _, ⟨length_littleEndian _ _, rfl⟩,
      ⟨hwell, ?_, rfl⟩, rfl⟩
    rw [ofLittleEndian_littleEndian, Nat.mod_eq_of_lt hlen]

theorem complains_readFullHead : Complains readFullHead :=
  .bind (parses_readBytes .nameLength 4) (complains_readBytes .nameLength 4) fun _ =>
    complains_readHead _

/-- No bytes start with two heads. -/
theorem Head.eq_of_prefix {h k : Head} {s : List UInt8} (hh : h.WellFormed) (hk : k.WellFormed)
    (hs : h.bytes <+: s) (ks : k.bytes <+: s) : h = k := by
  -- One reader finds both, and it has one answer.
  have hbytes : (ByteSource.ofBytes s).bytes = s := (ByteSource.holds_ofBytes s).bytes_eq
  have h1 := (parses_readFullHead (.ofBytes s) h _).mpr ⟨_, ⟨hh, rfl⟩, by rwa [hbytes], rfl⟩
  have h2 := (parses_readFullHead (.ofBytes s) k _).mpr ⟨_, ⟨hk, rfl⟩, by rwa [hbytes], rfl⟩
  cases h1.symm.trans h2
  rfl

/-- A record from its first byte on. -/
def readRecord : Reader Record := readFullHead >>= readBody

theorem readRecord_eq :
    readRecord =
      readBytes .nameLength 4 >>= fun length => readRest (ofLittleEndian length) := by
  simp only [readRecord, readFullHead, readRest_eq, bind_assoc]

/-- A record is read unless the source has ended. -/
theorem run_read (s : ByteSource) :
    Record.read.run s =
      if s.bytes = [] ∧ s.failure? = none then .ok (none, s.skip 4)
      else (some <$> readRecord).run s := by
  unfold Record.read
  rw [readRecord_eq, run_bind, run_readBytes? .nameLength (by decide)]
  by_cases hend : s.bytes = [] ∧ s.failure? = none
  · rw [if_pos hend, if_pos hend]
    rfl
  · rw [if_neg hend, if_neg hend, run_map, run_map, run_bind]
    cases (readBytes .nameLength 4).run s with
    | error e => rfl
    | ok r => exact run_map some _ r.2

theorem read_none_iff {s t : ByteSource} :
    Record.read.run s = .ok (none, t) ↔ s.bytes = [] ∧ s.failure? = none ∧ t = s.skip 4 := by
  rw [run_read]
  by_cases hend : s.bytes = [] ∧ s.failure? = none
  · rw [if_pos hend]
    simp [hend, eq_comm]
  · rw [if_neg hend, run_map]
    constructor
    · intro h
      split at h <;> cases h
    · rintro ⟨hbytes, hfailure, -⟩
      exact (hend ⟨hbytes, hfailure⟩).elim

/-- These bytes are the record: a head within its limits, then its values. -/
def WrittenAs (r : Record) (written : List UInt8) : Prop :=
  ∃ payload, r.head.WellFormed ∧ r.Body payload ∧ written = r.head.bytes ++ payload

theorem parses_readRecord : Parses readRecord fun taken r => r.WrittenAs taken := by
  refine (parses_readFullHead.bind parses_readBody).congr fun taken r => ?_
  constructor
  · rintro ⟨_, _, payload, ⟨hwell, rfl⟩, ⟨rfl, hbody⟩, rfl⟩
    exact ⟨payload, hwell, hbody, rfl⟩
  · rintro ⟨payload, hwell, hbody, rfl⟩
    exact ⟨_, _, payload, ⟨hwell, rfl⟩, ⟨rfl, hbody⟩, rfl⟩

theorem Head.bytes_ne_nil (h : Head) : h.bytes ≠ [] := by
  intro hnil
  have := congrArg List.length hnil
  simp [Head.bytes] at this

theorem WrittenAs.ne_nil {r : Record} {written : List UInt8} (h : r.WrittenAs written) :
    written ≠ [] := by
  obtain ⟨payload, -, -, rfl⟩ := h
  exact fun hnil => r.head.bytes_ne_nil (List.append_eq_nil_iff.mp hnil).1

theorem read_some_iff {s t : ByteSource} {r : Record} :
    Record.read.run s = .ok (some r, t) ↔
      ∃ written, r.WrittenAs written ∧ written <+: s.bytes ∧ t = s.skip written.length := by
  have hrecord : readRecord.run s = .ok (r, t) ↔ _ := parses_readRecord s r t
  rw [run_read]
  by_cases hend : s.bytes = [] ∧ s.failure? = none
  · rw [if_pos hend]
    constructor
    · intro h
      cases h
    · rintro ⟨written, hwritten, hs, -⟩
      rw [hend.1, List.prefix_nil] at hs
      exact (hwritten.ne_nil hs).elim
  · have hmap : (some <$> readRecord).run s = .ok (some r, t) ↔ readRecord.run s = .ok (r, t) := by
      rw [run_map]
      cases readRecord.run s <;> simp [Prod.ext_iff]
    rw [if_neg hend, hmap, hrecord]

/-- The bytes start with a head within its limits, and no type has its tag. -/
structure Head.Unknown (h : Head) (s : List UInt8) : Prop where
  wellFormed : h.WellFormed
  starts : h.bytes <+: s
  tag_gt : 6 < h.tag

theorem run_read_error_iff {s : ByteSource} {e : Error} :
    Record.read.run s = .error e ↔
      readRecord.run s = .error e ∧ ¬(s.bytes = [] ∧ s.failure? = none) := by
  rw [run_read]
  by_cases hend : s.bytes = [] ∧ s.failure? = none
  · rw [if_pos hend]
    simp [hend]
  · rw [if_neg hend, run_map]
    cases readRecord.run s <;> simp [hend]

theorem read_unknown {h : Head} {s : ByteSource} (hu : h.Unknown s.bytes) :
    Record.read.run s = .error (.unsupported (.tag h.tag)) := by
  have hhead := (parses_readFullHead s h _).mpr ⟨_, ⟨hu.wellFormed, rfl⟩, hu.starts, rfl⟩
  refine run_read_error_iff.mpr ⟨run_bind_error_iff.mpr (.inr ⟨_, _, hhead, ?_⟩), ?_⟩
  · unfold readBody
    rw [DataType.ofTag?_eq_none.mpr hu.tag_gt]
    rfl
  · rintro ⟨hnil, -⟩
    exact h.bytes_ne_nil (List.prefix_nil.mp (hnil ▸ hu.starts))

theorem read_error {s : ByteSource} {e : Error} (he : Record.read.run s = .error e) :
    Faulty s e ∨ ∃ h : Head, h.Unknown s.bytes ∧ e = .unsupported (.tag h.tag) := by
  rcases run_bind_error_iff.mp (run_read_error_iff.mp he).1 with he | ⟨h, t, hhead, he⟩
  · exact .inl (complains_readFullHead s e he)
  rcases readBody_error he with hf | ⟨htag, rfl⟩
  · rw [Faulty, parses_readFullHead.failure_eq hhead] at hf
    exact .inl hf
  · obtain ⟨_, ⟨hwell, rfl⟩, hs, -⟩ := (parses_readFullHead s h t).mp hhead
    exact .inr ⟨h, ⟨hwell, hs, DataType.ofTag?_eq_none.mp htag⟩, rfl⟩

end Record

end NeuralNet
