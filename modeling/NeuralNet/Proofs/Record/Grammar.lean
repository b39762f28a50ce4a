import NeuralNet.Proofs.Extents
import NeuralNet.Proofs.Record.Head

/-!
# What counts as a record

`Layout` says when bytes start with a record, without a reader. `read` finds a record just there,
tells a type it does not know from a stream that is none, and takes no part of a record for a whole
one.

* `encode_eq_ok`: what is written;
* `read_decides`: what is read, and which error else.
-/

namespace NeuralNet

namespace Record

variable {r r' : Record} {s full payload tail : List UInt8} {source : ByteSource}

/-- Names and values that a record may have. -/
structure Storable (r : Record) : Prop where
  name_le : (nameBytes r.name).length ≤ maxNameBytes
  rank_le : r.extents.length ≤ maxRank
  size_eq : r.extents.checkedSize? = some r.values.length

theorem encode_eq_ok :
    r.encode = .ok full ↔ r.Storable ∧ full = r.head.bytes ++ r.type.encode r.values := by
  have hbytes : r.head.bytes ++ r.type.encode r.values =
      littleEndian 4 (nameBytes r.name).length ++ nameBytes r.name ++
        littleEndian 4 r.extents.length ++ r.extents.flatMap (littleEndian 8) ++ [r.type.tag] ++
        r.type.encode r.values := by
    simp [Head.bytes, Head.rest, head]
  rw [hbytes]
  unfold encode
  constructor
  · intro h
    by_cases hname : maxNameBytes < (nameBytes r.name).length
    · rw [if_pos hname] at h
      cases h
    by_cases hrank : maxRank < r.extents.length
    · rw [if_neg hname, if_pos hrank] at h
      cases h
    by_cases hsize : r.extents.checkedSize? = some r.values.length
    · rw [if_neg hname, if_neg hrank, if_neg (not_not_intro hsize)] at h
      cases h
      exact ⟨⟨by omega, by omega, hsize⟩, rfl⟩
    · rw [if_neg hname, if_neg hrank, if_pos hsize] at h
      cases h
  · rintro ⟨⟨hname, hrank, hsize⟩, rfl⟩
    rw [if_neg (by omega), if_neg (by omega), if_neg (not_not_intro hsize)]
    rfl

/-- The bytes start with the record: its head, then an element for every value. -/
structure Layout (s : List UInt8) (r : Record) (payload tail : List UInt8) : Prop where
  bytes_eq : s = r.head.bytes ++ payload ++ tail
  head : r.head.WellFormed
  fits : Extents.Fits (r.extents ++ [r.type.width])
  length_eq : payload.length = Extents.size (r.extents ++ [r.type.width])
  elements : r.type.Elements payload r.values

/-- Equality of records up to the payload of NaNs. -/
structure Same (r r' : Record) : Prop where
  name_eq : r.name = r'.name
  extents_eq : r.extents = r'.extents
  type_eq : r.type = r'.type
  values : List.Forall₂ (fun a b : Single => a.datum.Same b.datum) r.values r'.values

theorem Body.length (h : r.Body payload) :
    Extents.Fits (r.extents ++ [r.type.width]) ∧
      payload.length = Extents.size (r.extents ++ [r.type.width]) := by
  rw [← Extents.checkedSize?_eq_some, ← Extents.checkedSize?_bind]
  exact h.length_eq

theorem Body.elements (h : r.Body payload) : r.type.Elements payload r.values := by
  have hlen := h.length.2
  rw [Extents.size_append_one] at hlen
  rcases r.type.decode_spec hlen with ⟨values, hok, helem⟩ | ⟨⟨fault, herr⟩, -⟩
  · cases h.decode_eq.symm.trans hok
    exact helem
  · cases h.decode_eq.symm.trans herr

/-- A record that is there is found, up to its NaNs. -/
theorem Layout.body (h : Layout s r payload tail) :
    ∃ r' : Record, r'.head = r.head ∧ r'.Body payload ∧ Same r' r := by
  have hlen := h.length_eq
  rw [Extents.size_append_one] at hlen
  -- The decoder may answer with another NaN than the one in the record.
  rcases r.type.decode_spec hlen with ⟨values, hok, helem⟩ | ⟨-, hnone⟩
  · refine ⟨{ r with values }, rfl, ⟨?_, hok⟩, ⟨rfl, rfl, rfl, helem.same h.elements⟩⟩
    rw [Extents.checkedSize?_bind, Extents.checkedSize?_eq_some]
    exact ⟨h.fits, h.length_eq⟩
  · exact (hnone r.values h.elements).elim

section Holds

variable (hs : source.Holds s)

include hs

theorem run_read_nil : (∃ rest, Record.read.run source = .ok (none, rest)) ↔ s = [] := by
  constructor
  · rintro ⟨rest, h⟩
    rw [← hs.bytes_eq]
    exact (read_none_iff.mp h).1
  · rintro rfl
    exact ⟨_, read_none_iff.mpr ⟨hs.bytes_eq, hs.failure_eq, rfl⟩⟩

theorem run_read_some {rest : ByteSource} (h : Record.read.run source = .ok (some r, rest)) :
    ∃ payload tail, Layout s r payload tail ∧ rest.Holds tail := by
  obtain ⟨_, ⟨payload, hwell, hbody, rfl⟩, ⟨tail, htail⟩, rfl⟩ := read_some_iff.mp h
  rw [hs.bytes_eq] at htail
  subst htail
  exact ⟨payload, tail, ⟨rfl, hwell, hbody.length.1, hbody.length.2, hbody.elements⟩, hs.skip⟩

theorem Layout.run_read (h : Layout s r payload tail) :
    ∃ r' rest, Record.read.run source = .ok (some r', rest) ∧ Same r' r ∧ rest.Holds tail := by
  obtain ⟨r', hhead, hbody, hsame⟩ := h.body
  refine ⟨r', source.skip (r.head.bytes ++ payload).length, read_some_iff.mpr ?_, hsame, ?_⟩
  · rw [hs.bytes_eq, h.bytes_eq]
    exact ⟨_, ⟨payload, hhead ▸ h.head, hbody, by rw [hhead]⟩, List.prefix_append _ _, rfl⟩
  · rw [h.bytes_eq] at hs
    exact hs.skip

theorem Faulty.malformed {e : Error} (h : Faulty source e) :
    ∃ fault, e = .malformedStream fault := by
  rcases h with ⟨hfails, -⟩ | h
  · rw [hs.failure_eq] at hfails
    cases hfails
  · exact h

theorem run_read_unsupported :
    (∃ fault, Record.read.run source = .error (.unsupported fault)) ↔ ∃ h : Head, h.Unknown s := by
  constructor
  · rintro ⟨fault, h⟩
    rcases read_error h with hf | ⟨h, hu, -⟩
    · obtain ⟨_, hf⟩ := hf.malformed hs
      cases hf
    · exact ⟨h, hs.bytes_eq ▸ hu⟩
  · rintro ⟨h, hu⟩
    exact ⟨_, read_unknown (hs.bytes_eq ▸ hu)⟩

theorem run_read_malformed :
    (∃ fault, Record.read.run source = .error (.malformedStream fault)) ↔
      s ≠ [] ∧ (¬∃ r payload tail, Layout s r payload tail) ∧ ¬∃ h : Head, h.Unknown s := by
  constructor
  · rintro ⟨fault, h⟩
    refine ⟨fun hnil => ?_, ?_, fun hu => ?_⟩
    · obtain ⟨_, h'⟩ := (run_read_nil hs).mpr hnil
      cases h.symm.trans h'
    · rintro ⟨r, payload, tail, hl⟩
      obtain ⟨_, _, h', -, -⟩ := hl.run_read hs
      cases h.symm.trans h'
    · obtain ⟨_, h'⟩ := (run_read_unsupported hs).mpr hu
      cases h.symm.trans h'
  · rintro ⟨hne, hlayout, hunknown⟩
    cases hrun : Record.read.run source with
    | ok a =>
      obtain ⟨_ | r, rest⟩ := a
      · exact (hne ((run_read_nil hs).mp ⟨rest, hrun⟩)).elim
      · obtain ⟨payload, tail, hl, -⟩ := run_read_some hs hrun
        exact (hlayout ⟨r, payload, tail, hl⟩).elim
    | error e =>
      rcases read_error hrun with hf | ⟨h, hu, -⟩
      · obtain ⟨fault, rfl⟩ := hf.malformed hs
        exact ⟨fault, rfl⟩
      · exact (hunknown ⟨h, hs.bytes_eq ▸ hu⟩).elim

end Holds

/-! ## Parts of a record -/

theorem Storable.head (h : r.Storable) (hw : ∀ n ∈ r.extents, n < wordCount 8) :
    r.head.WellFormed :=
  ⟨h.name_le, h.rank_le, hw⟩

/-- A record that starts what another wrote is as long as that. -/
theorem Layout.eq_of_prefix (h : Layout s r' payload tail) (hr : r.encode = .ok full)
    (hw : ∀ n ∈ r.extents, n < wordCount 8) (hs : s <+: full) : s = full := by
  obtain ⟨hstore, rfl⟩ := encode_eq_ok.mp hr
  have hstart : r'.head.bytes <+: s := by
    rw [h.bytes_eq, List.append_assoc]
    exact List.prefix_append _ _
  have hhead : r'.head = r.head :=
    Head.eq_of_prefix h.head (hstore.head hw) (hstart.trans hs) (List.prefix_append _ _)
  have htype : r'.type = r.type := by
    have := congrArg (DataType.ofTag? ·.tag) hhead
    simpa only [ofTag?_head, Option.some.injEq] using this
  have hextents : r'.extents = r.extents := congrArg Head.extents hhead
  have hsize := (Extents.checkedSize?_eq_some.mp hstore.size_eq).2
  have hlen := h.length_eq
  rw [hextents, htype, Extents.size_append_one, ← hsize] at hlen
  refine hs.eq_of_length_le ?_
  rw [h.bytes_eq, hhead]
  simp only [List.length_append, DataType.length_encode, hlen]
  omega

theorem Head.Unknown.not_prefix {h : Head} (hu : h.Unknown s) (hr : r.encode = .ok full)
    (hw : ∀ n ∈ r.extents, n < wordCount 8) : ¬s <+: full := by
  intro hs
  obtain ⟨hstore, rfl⟩ := encode_eq_ok.mp hr
  have hhead : h = r.head :=
    Head.eq_of_prefix hu.wellFormed (hstore.head hw) (hu.starts.trans hs) (List.prefix_append _ _)
  cases (ofTag?_head r).symm.trans (DataType.ofTag?_eq_none.mpr (hhead ▸ hu.tag_gt))

/-- Reading decides what the bytes start with: the end, a record, a head with a tag of no type, or
none of these. A part of a record is none of these. -/
theorem read_decides (hs : source.Holds s) :
    ((∃ rest, Record.read.run source = .ok (none, rest)) ↔ s = []) ∧
      (∀ r rest, Record.read.run source = .ok (some r, rest) →
        ∃ payload tail, Layout s r payload tail ∧ rest.Holds tail) ∧
      (∀ r payload tail, Layout s r payload tail →
        ∃ r' rest, Record.read.run source = .ok (some r', rest) ∧ Same r' r ∧ rest.Holds tail) ∧
      ((∃ fault, Record.read.run source = .error (.unsupported fault)) ↔
        ∃ h : Head, h.Unknown s) ∧
      ((∃ fault, Record.read.run source = .error (.malformedStream fault)) ↔
        s ≠ [] ∧ (¬∃ r payload tail, Layout s r payload tail) ∧ ¬∃ h : Head, h.Unknown s) ∧
      ∀ (r : Record) (full : List UInt8), r.encode = .ok full →
        (∀ n ∈ r.extents, n < wordCount 8) → s ≠ [] → s <+: full → s ≠ full →
          ∃ fault, Record.read.run source = .error (.malformedStream fault) := by
  refine ⟨run_read_nil hs, fun r rest => run_read_some hs, fun r payload tail h => h.run_read hs,
    run_read_unsupported hs, run_read_malformed hs, ?_⟩
  intro r full hr hw hnil hprefix hne
  refine (run_read_malformed hs).mpr ⟨hnil, ?_, ?_⟩
  · rintro ⟨r', payload, tail, hl⟩
    exact hne (hl.eq_of_prefix hr hw hprefix)
  · rintro ⟨h, hu⟩
    exact hu.not_prefix hr hw hprefix

theorem read_decides_part :
    let source : ByteSource := [.bytes [0, 0], .interrupted, .bytes [0, 0, 0]]
    let r : Record := ⟨"", [], .uint8, [.ofNat 7]⟩
    source.Holds [0, 0, 0, 0, 0] ∧ r.encode = .ok [0, 0, 0, 0, 0, 0, 0, 0, 3, 7] ∧
      ∃ fault, Record.read.run source = .error (.malformedStream fault) := by
  intro source r
  have hs : source.Holds [0, 0, 0, 0, 0] := ⟨rfl, rfl⟩
  have hr : r.encode = .ok [0, 0, 0, 0, 0, 0, 0, 0, 3, 7] := by decide
  obtain ⟨-, -, -, -, -, hpart⟩ := read_decides hs
  exact ⟨hs, hr, hpart r _ hr (by decide) (by decide) (by decide) (by decide)⟩

end Record

end NeuralNet
