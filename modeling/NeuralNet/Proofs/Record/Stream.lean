import NeuralNet.Proofs.Checks
import NeuralNet.Proofs.Record.Grammar

/-!
# Records one after another

Nothing stands between the records of a stream. Every reading of one record ends where the next
begins, so that as many readings as there are records find them all and leave what follows.

* `readTimes_encode`: what was written is read back;
* `readTimes_bytes`: what is read is a stretch of the source for every record;
* `WrittenAs.encode_quantized`: a record that was read is written as the bytes it was read from.
-/

namespace NeuralNet.Record

variable {r r' : Record} {encoded tail : List UInt8} {source : ByteSource}

/-- The record with the values that are read back for its own. -/
def reread (r : Record) : Except Error Record := do
  return { r with values := ← r.type.decode (r.type.encode r.values) }

/-- The next records, or nothing for those behind the end. -/
def readTimes : (count : Nat) → Reader (List (Option Record))
  | 0 => pure []
  | count + 1 => do
    let first ← Record.read
    return first :: (← readTimes count)

theorem Body.of_reread (hs : r.Storable) (hr : r.reread = .ok r')
    (hlen : (r.type.encode r.values).length < wordCount 8) :
    r'.head = r.head ∧ r'.Body (r.type.encode r.values) := by
  obtain ⟨values, hdecode, h⟩ := bind_eq_ok_iff.mp hr
  cases h
  refine ⟨rfl, ⟨?_, hdecode⟩⟩
  rw [DataType.length_encode] at hlen ⊢
  simp only [hs.size_eq, Option.bind_some]
  exact Extents.checkedMul_eq_some.mpr ⟨hlen, rfl⟩

/-- What was written is read up to its last byte. -/
theorem run_read_encode (he : r.encode = .ok encoded) (hr : r.reread = .ok r')
    (hw : ∀ n ∈ r.extents, n < wordCount 8) (hlen : encoded.length < wordCount 8)
    (hs : source.Holds (encoded ++ tail)) :
    ∃ rest, Record.read.run source = .ok (some r', rest) ∧ rest.Holds tail := by
  obtain ⟨hstore, rfl⟩ := encode_eq_ok.mp he
  have hvalues : (r.type.encode r.values).length < wordCount 8 := by
    rw [List.length_append] at hlen
    omega
  obtain ⟨hhead, hbody⟩ := Body.of_reread hstore hr hvalues
  refine ⟨source.skip (r.head.bytes ++ r.type.encode r.values).length, read_some_iff.mpr ?_,
    hs.skip⟩
  rw [hs.bytes_eq]
  exact ⟨_, ⟨_, hhead ▸ hstore.head hw, hbody, by rw [hhead]⟩, List.prefix_append _ _, rfl⟩

/-- A stream is read as the records that it was written from, and what follows is left. Eight bytes
hold an extent, and a stream is no longer than eight bytes can count. -/
theorem readTimes_encode {rs rs' : List Record} {encodings : List (List UInt8)}
    (he : rs.mapM encode = .ok encodings) (hr : rs.mapM reread = .ok rs')
    (hw : ∀ r ∈ rs, ∀ n ∈ r.extents, n < wordCount 8)
    (hlen : encodings.flatten.length < wordCount 8)
    (hs : source.Holds (encodings.flatten ++ tail)) :
    ∃ rest, (readTimes rs.length).run source = .ok (rs'.map some, rest) ∧ rest.Holds tail ∧
      (tail = [] → ∃ last, Record.read.run rest = .ok (none, last)) := by
  suffices h : ∃ rest, (readTimes rs.length).run source = .ok (rs'.map some, rest) ∧
      rest.Holds tail by
    obtain ⟨rest, hrun, hrest⟩ := h
    exact ⟨rest, hrun, hrest, (run_read_nil hrest).mpr⟩
  rw [mapM_eq_ok_iff] at he hr
  -- The source goes along: it holds the other encodings once the first record is read.
  induction he generalizing rs' source with
  | nil =>
    cases hr
    exact ⟨source, rfl, hs⟩
  | @cons r encoded rs encodings he _ ih =>
    obtain ⟨r', others, hfirst, hothers, rfl⟩ := List.forall₂_cons_left_iff.mp hr
    obtain ⟨hwr, hw⟩ := List.forall_mem_cons.mp hw
    rw [List.flatten_cons, List.length_append] at hlen
    rw [List.flatten_cons, List.append_assoc] at hs
    obtain ⟨middle, hread, hmiddle⟩ := run_read_encode he hfirst hwr (by omega) hs
    obtain ⟨rest, htimes, hrest⟩ := ih hothers hw (by omega) hmiddle
    refine ⟨rest, ?_, hrest⟩
    exact run_bind_ok_iff.mpr ⟨_, _, hread, run_bind_ok_iff.mpr ⟨_, _, htimes, rfl⟩⟩

theorem readTimes_encode_two :
    let rs : List Record := [⟨"w", [2], .uint8, [.ofNat 1, .ofNat 2]⟩, ⟨"", [0], .int64, []⟩]
    let encodings : List (List UInt8) :=
      [[1, 0, 0, 0, 119, 1, 0, 0, 0, 2, 0, 0, 0, 0, 0, 0, 0, 3, 1, 2],
        [0, 0, 0, 0, 1, 0, 0, 0, 0, 0, 0, 0, 0, 0, 0, 0, 6]]
    ∃ rest, (readTimes 2).run (.ofBytes encodings.flatten) = .ok (rs.map some, rest) ∧
      ∃ last, Record.read.run rest = .ok (none, last) := by
  intro rs encodings
  have he : rs.mapM encode = .ok encodings := rfl
  have hr : rs.mapM reread = .ok rs := rfl
  have hs : (ByteSource.ofBytes encodings.flatten).Holds (encodings.flatten ++ []) :=
    ByteSource.holds_ofBytes _
  obtain ⟨rest, hrun, -, hlast⟩ := readTimes_encode he hr (by decide) (by decide) hs
  exact ⟨rest, hrun, hlast rfl⟩

/-- The records that were read make up what is gone of the source. -/
theorem readTimes_bytes {count : Nat} {rs : List Record} {rest : ByteSource}
    (h : (readTimes count).run source = .ok (rs.map some, rest)) :
    ∃ pieces, List.Forall₂ WrittenAs rs pieces ∧ source.bytes = pieces.flatten ++ rest.bytes ∧
      rest.failure? = source.failure? := by
  induction count generalizing rs source with
  | zero =>
    obtain ⟨hnil, rfl⟩ := Prod.mk.inj (Except.ok.inj h)
    obtain rfl := List.map_eq_nil_iff.mp hnil.symm
    exact ⟨[], .nil, rfl, rfl⟩
  | succ count ih =>
    obtain ⟨first, middle, hfirst, h⟩ := run_bind_ok_iff.mp h
    obtain ⟨others, last, hothers, h⟩ := run_bind_ok_iff.mp h
    obtain ⟨hcons, rfl⟩ := Prod.mk.inj (Except.ok.inj h)
    obtain ⟨r, rs, rfl, rfl, rfl⟩ := List.map_eq_cons_iff.mp hcons.symm
    obtain ⟨written, hwritten, ⟨tail, htail⟩, rfl⟩ := read_some_iff.mp hfirst
    obtain ⟨pieces, hpieces, hbytes, hfailure⟩ := ih hothers
    refine ⟨written :: pieces, .cons hwritten hpieces, ?_, hfailure.trans (source.failure_skip _)⟩
    rw [ByteSource.bytes_skip, ← htail, List.drop_left] at hbytes
    rw [← htail, hbytes, List.flatten_cons, List.append_assoc]

/-- The record with the nearest values of its type. -/
def quantized (r : Record) : Record := { r with values := r.values.map r.type.quantize }

theorem WrittenAs.encode_quantized {written : List UInt8} (h : r.WrittenAs written)
    (hn : ∀ a ∈ r.values, a.isNaN = false) : r.quantized.encode = .ok written := by
  obtain ⟨payload, hwell, hbody, rfl⟩ := h
  have helem := hbody.elements
  have hsize : r.extents.checkedSize? = some r.values.length := by
    obtain ⟨n, hn, hmul⟩ := Option.bind_eq_some_iff.mp hbody.length_eq
    have hlen := (Extents.checkedMul_eq_some.mp hmul).2
    rw [helem.length_eq] at hlen
    rw [hn, Nat.eq_of_mul_eq_mul_right r.type.width_pos hlen]
  refine encode_eq_ok.mpr ⟨⟨hwell.name_le, hwell.rank_le, ?_⟩, ?_⟩
  · rw [quantized, List.length_map]
    exact hsize
  · exact congrArg (r.head.bytes ++ ·) (helem.encode_quantize hn).symm

end NeuralNet.Record
