import NeuralNet.Record.Source

/-!
# What a byte source delivers

Pieces and interruptions do not show in a request. It is answered from the bytes that come before
the source ends or fails, and leaves a source of the bytes behind them.
-/

namespace NeuralNet.ByteSource

/-- All bytes up to the end or the first failure. -/
def bytes : ByteSource → List UInt8
  | [] => []
  | .bytes piece :: rest => piece ++ bytes rest
  | .interrupted :: rest => bytes rest
  | .failure _ :: _ => []

/-- How the source fails before it ends, if it does. -/
def failure? : ByteSource → Option FailureKind
  | [] => none
  | .bytes _ :: rest => failure? rest
  | .interrupted :: rest => failure? rest
  | .failure kind :: _ => some kind

/-- The source without its first bytes. -/
def skip (count : Nat) (source : ByteSource) : ByteSource := (source.request count).rest

/-- The source hands out exactly these bytes and ends. -/
structure Holds (source : ByteSource) (content : List UInt8) : Prop where
  bytes_eq : source.bytes = content
  failure_eq : source.failure? = none

theorem holds_ofBytes (content : List UInt8) : (ofBytes content).Holds content :=
  ⟨List.append_nil content, rfl⟩

section Request

variable {count : Nat} {piece : List UInt8} {rest : ByteSource}

theorem request_zero (source : ByteSource) : source.request 0 = ⟨[], none, source⟩ := by
  unfold request
  rfl

theorem request_interrupted (h : 0 < count) :
    request count (.interrupted :: rest) = request count rest := by
  obtain ⟨k, rfl⟩ := Nat.exists_eq_add_of_lt h
  rfl

theorem request_failure (h : 0 < count) (kind : FailureKind) :
    request count (.failure kind :: rest) = ⟨[], some kind, .failure kind :: rest⟩ := by
  obtain ⟨k, rfl⟩ := Nat.exists_eq_add_of_lt h
  rfl

theorem request_within (h : 0 < count) (hc : count < piece.length) :
    request count (.bytes piece :: rest) =
      ⟨piece.take count, none, .bytes (piece.drop count) :: rest⟩ := by
  obtain ⟨k, rfl⟩ := Nat.exists_eq_add_of_lt h
  exact if_pos hc

theorem request_beyond (h : 0 < count) (hc : piece.length ≤ count) :
    request count (.bytes piece :: rest) =
      ⟨piece ++ (request (count - piece.length) rest).bytes,
        (request (count - piece.length) rest).failure,
        (request (count - piece.length) rest).rest⟩ := by
  obtain ⟨k, rfl⟩ := Nat.exists_eq_add_of_lt h
  exact if_neg (by omega)

end Request

/-- A request is answered from the bytes, whatever their pieces. -/
theorem request_spec (count : Nat) (source : ByteSource) :
    (source.request count).bytes = source.bytes.take count ∧
      (source.request count).failure =
        (if source.bytes.length < count then source.failure? else none) ∧
      (source.skip count).bytes = source.bytes.drop count ∧
      (source.skip count).failure? = source.failure? := by
  unfold skip
  rcases Nat.eq_zero_or_pos count with rfl | h
  · simp [request_zero]
  induction source generalizing count with
  | nil => cases count <;> simp [request, bytes, failure?]
  | cons d rest ih =>
    cases d with
    | interrupted =>
      rw [request_interrupted h]
      exact ih count h
    | failure kind =>
      rw [request_failure h]
      simp [bytes, failure?, h]
    | bytes piece =>
      by_cases hc : count < piece.length
      · rw [request_within h hc]
        simp only [bytes, failure?, List.length_append]
        rw [List.take_append_of_le_length (by omega), List.drop_append_of_le_length (by omega),
          if_neg (by omega)]
        exact ⟨rfl, rfl, rfl, trivial⟩
      · rw [request_beyond h (by omega)]
        simp only [bytes, failure?, List.length_append]
        rw [List.take_append, List.drop_append, List.take_of_length_le (by omega),
          List.drop_of_length_le (by omega), List.nil_append]
        rcases Nat.eq_zero_or_pos (count - piece.length) with h0 | h0
        · rw [h0, request_zero, if_neg (by omega)]
          simp
        · obtain ⟨h1, h2, h3, h4⟩ := ih _ h0
          have hlen : (bytes rest).length < count - piece.length ↔
              piece.length + (bytes rest).length < count := by omega
          rw [h1, h2, h3, h4]
          exact ⟨rfl, by simp only [hlen], rfl, rfl⟩

theorem bytes_skip (count : Nat) (source : ByteSource) :
    (source.skip count).bytes = source.bytes.drop count := (request_spec count source).2.2.1

theorem failure_skip (count : Nat) (source : ByteSource) :
    (source.skip count).failure? = source.failure? := (request_spec count source).2.2.2

theorem skip_zero (source : ByteSource) : source.skip 0 = source := by
  rw [skip, request_zero]

/-- Bytes are skipped one after another. -/
theorem skip_skip (m n : Nat) (source : ByteSource) :
    (source.skip m).skip n = source.skip (m + n) := by
  rcases Nat.eq_zero_or_pos m with rfl | hm
  · rw [skip_zero, Nat.zero_add]
  rcases Nat.eq_zero_or_pos n with rfl | hn
  · rw [skip_zero, Nat.add_zero]
  have hmn : 0 < m + n := by omega
  unfold skip
  induction source generalizing m with
  | nil => cases m <;> cases n <;> simp [request]
  | cons d rest ih =>
    cases d with
    | interrupted =>
      rw [request_interrupted hm, request_interrupted hmn]
      exact ih m hm hmn
    | failure kind => rw [request_failure hm, request_failure hmn, request_failure hn]
    | bytes piece =>
      by_cases hin : m < piece.length
      · rw [request_within hm hin]
        by_cases hin' : m + n < piece.length
        · rw [request_within hmn hin', request_within hn (by rw [List.length_drop]; omega),
            List.drop_drop]
        · rw [request_beyond hmn (by omega), request_beyond hn (by rw [List.length_drop]; omega)]
          simp only [List.length_drop]
          congr 2
          omega
      · rw [request_beyond hm (by omega), request_beyond hmn (by omega)]
        simp only
        rw [show m + n - piece.length = m - piece.length + n by omega]
        rcases Nat.eq_zero_or_pos (m - piece.length) with h0 | h0
        · rw [h0, request_zero, Nat.zero_add]
        · exact ih _ h0 (by omega)

theorem Holds.skip {source : ByteSource} {first content : List UInt8}
    (h : source.Holds (first ++ content)) : (source.skip first.length).Holds content :=
  ⟨by rw [bytes_skip, h.bytes_eq, List.drop_left], by rw [failure_skip, h.failure_eq]⟩

end NeuralNet.ByteSource
