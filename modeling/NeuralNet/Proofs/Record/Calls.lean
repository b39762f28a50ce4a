import NeuralNet.Proofs.Record.Source

/-!
# Requests, call by call

A source is read by calls, each with room for some bytes. A call may give fewer, may be interrupted
and may fail; none at all mean that the source has ended. Routines that want a number of bytes call
until they have them, and again after an interruption. They differ in the room that they offer, and
that makes no difference: the outcome is that of the request. What a failure says of itself is handed
on; what a routine makes of that comes later.
-/

namespace NeuralNet.ByteSource

/-- What a call with this room gives, and the source behind it. -/
def pull (room : Nat) : ByteSource → Delivery × ByteSource
  | [] => (.bytes [], [])
  | .interrupted :: rest => (.interrupted, rest)
  | .failure kind :: rest => (.failure kind, .failure kind :: rest)
  | .bytes piece :: rest =>
    if room < piece.length then (.bytes (piece.take room), .bytes (piece.drop room) :: rest)
    else (.bytes piece, rest)

/-- No piece is empty: before its end the source does not look as if it had ended. -/
def Solid (source : ByteSource) : Prop := .bytes [] ∉ source

instance (source : ByteSource) : Decidable source.Solid :=
  inferInstanceAs (Decidable (.bytes [] ∉ source))

/-- How a routine that wants a number of bytes comes to its end. -/
inductive Ending where
  | full
  | ended
  | failed (kind : FailureKind)
  deriving DecidableEq, Repr

/-- The calls of a routine that wants `count` bytes: what they gave, how they came to an end, and the
source behind them. -/
inductive Gathers : (count : Nat) → ByteSource → List UInt8 → Ending → ByteSource → Prop
  | full (s : ByteSource) : Gathers 0 s [] .full s
  | ended {count room : Nat} {s t : ByteSource} (hpos : 0 < room) (hroom : room ≤ count)
      (hpull : s.pull room = (.bytes [], t)) : Gathers count s [] .ended t
  | failed {count room : Nat} {s t : ByteSource} {kind : FailureKind} (hpos : 0 < room)
      (hroom : room ≤ count) (hpull : s.pull room = (.failure kind, t)) :
      Gathers count s [] (.failed kind) t
  | again {count room : Nat} {s t u : ByteSource} {got : List UInt8} {ending : Ending}
      (hpos : 0 < room) (hroom : room ≤ count) (hpull : s.pull room = (.interrupted, t))
      (hrest : Gathers count t got ending u) : Gathers count s got ending u
  | more {count room : Nat} {s t u : ByteSource} {piece got : List UInt8} {ending : Ending}
      (hpos : 0 < room) (hroom : room ≤ count) (hpull : s.pull room = (.bytes piece, t))
      (hpiece : piece ≠ []) (hrest : Gathers (count - piece.length) t got ending u) :
      Gathers count s (piece ++ got) ending u

/-- How a request has come to its end. -/
def ending (count : Nat) (source : ByteSource) : Ending :=
  match (source.request count).failure with
  | some kind => .failed kind
  | none => if (source.request count).bytes.length < count then .ended else .full

variable {count room : Nat} {source rest : ByteSource} {piece got : List UInt8}

theorem Solid.tail {d : Delivery} (h : Solid (d :: rest)) : rest.Solid := fun hmem =>
  h (List.mem_cons_of_mem d hmem)

theorem Solid.head {piece : List UInt8} (h : Solid (.bytes piece :: rest)) : piece ≠ [] := by
  rintro rfl
  exact h List.mem_cons_self

theorem pull_within (h : room < piece.length) :
    pull room (.bytes piece :: rest) = (.bytes (piece.take room), .bytes (piece.drop room) :: rest) :=
  if_pos h

theorem pull_whole (h : piece.length ≤ room) :
    pull room (.bytes piece :: rest) = (.bytes piece, rest) := if_neg (Nat.not_lt.mpr h)

/-- A call leaves a solid source. -/
theorem Solid.pull (h : source.Solid) (room : Nat) : (source.pull room).2.Solid := by
  match source, h with
  | [], h => exact h
  | .interrupted :: rest, h => exact h.tail
  | .failure kind :: rest, h => exact h
  | .bytes piece :: rest, h =>
    rcases Nat.lt_or_ge room piece.length with hlt | hge
    · rw [pull_within hlt]
      intro hmem
      rcases List.mem_cons.mp hmem with heq | hmem
      · have hle := List.drop_eq_nil_iff.mp (Delivery.bytes.inj heq).symm
        omega
      · exact h.tail hmem
    · rw [pull_whole hge]
      exact h.tail

/-- A request goes on after a call that gave some bytes. -/
theorem request_pull (hpos : 0 < room) (hroom : room ≤ count) (hpiece : piece ≠ [])
    (hpull : source.pull room = (.bytes piece, rest)) :
    source.request count = ⟨piece ++ (rest.request (count - piece.length)).bytes,
      (rest.request (count - piece.length)).failure,
      (rest.request (count - piece.length)).rest⟩ := by
  have hcount : 0 < count := Nat.lt_of_lt_of_le hpos hroom
  match source with
  | [] =>
    cases hpull
    exact absurd rfl hpiece
  | .interrupted :: others => cases hpull
  | .failure kind :: others => cases hpull
  | .bytes whole :: others =>
    rcases Nat.lt_or_ge room whole.length with hlt | hge
    · rw [pull_within hlt] at hpull
      cases hpull
      obtain ⟨more, rfl⟩ := Nat.exists_eq_add_of_le hroom
      have hlen : (whole.take room).length = room := List.length_take_of_le (Nat.le_of_lt hlt)
      have hdrop : (whole.drop room).length = whole.length - room := List.length_drop
      rw [hlen, Nat.add_sub_cancel_left]
      rcases Nat.eq_zero_or_pos more with rfl | hmore
      · rw [Nat.add_zero, request_within hpos hlt, request_zero, List.append_nil]
      · rcases Nat.lt_or_ge (room + more) whole.length with hin | hout
        · rw [request_within hcount hin, request_within hmore (by omega), List.drop_drop,
            List.take_add]
        · have hleft : room + more - whole.length = more - (whole.drop room).length := by omega
          rw [request_beyond hcount hout, request_beyond hmore (by omega), hleft,
            ← List.append_assoc, List.take_append_drop]
    · rw [pull_whole hge] at hpull
      cases hpull
      exact request_beyond hcount (Nat.le_trans hge hroom)

theorem exists_pull_bytes (room : Nat) (piece : List UInt8) (rest : ByteSource) :
    ∃ p t, pull room (.bytes piece :: rest) = (.bytes p, t) ∧ (0 < room → piece ≠ [] → p ≠ []) := by
  rcases Nat.lt_or_ge room piece.length with hlt | hge
  · refine ⟨_, _, pull_within hlt, fun hpos hne hnil => ?_⟩
    rcases List.take_eq_nil_iff.mp hnil with rfl | hempty
    · exact absurd hpos (Nat.lt_irrefl 0)
    · exact hne hempty
  · exact ⟨_, _, pull_whole hge, fun _ hne => hne⟩

/-- Only the end looks like the end. -/
theorem pull_eq_nil (hsolid : source.Solid) (hpos : 0 < room)
    (h : source.pull room = (.bytes [], rest)) : source = [] ∧ rest = [] := by
  match source with
  | [] =>
    cases h
    exact ⟨rfl, rfl⟩
  | .interrupted :: others => cases h
  | .failure kind :: others => cases h
  | .bytes piece :: others =>
    obtain ⟨p, t, hpull, hne⟩ := exists_pull_bytes room piece others
    cases hpull.symm.trans h
    exact absurd rfl (hne hpos hsolid.head)

theorem pull_eq_failure {kind : FailureKind} (h : source.pull room = (.failure kind, rest)) :
    ∃ others, source = .failure kind :: others ∧ rest = .failure kind :: others := by
  match source with
  | [] => cases h
  | .interrupted :: others => cases h
  | .failure kind :: others =>
    cases h
    exact ⟨others, rfl, rfl⟩
  | .bytes piece :: others =>
    obtain ⟨p, t, hpull, -⟩ := exists_pull_bytes room piece others
    cases hpull.symm.trans h

theorem pull_eq_interrupted (h : source.pull room = (.interrupted, rest)) :
    source = .interrupted :: rest := by
  match source with
  | [] => cases h
  | .interrupted :: others =>
    cases h
    rfl
  | .failure kind :: others => cases h
  | .bytes piece :: others =>
    obtain ⟨p, t, hpull, -⟩ := exists_pull_bytes room piece others
    cases hpull.symm.trans h

theorem ending_zero (source : ByteSource) : source.ending 0 = .full := by
  rw [ending, request_zero]
  rfl

/-- What a routine gathers is told by the request, whatever room it offers. -/
theorem Gathers.eq_request {e : Ending} (h : Gathers count source got e rest)
    (hsolid : source.Solid) :
    got = (source.request count).bytes ∧ e = source.ending count ∧ rest = source.skip count := by
  induction h with
  | full s =>
    rw [request_zero, ending_zero, skip_zero]
    exact ⟨rfl, rfl, rfl⟩
  | ended hpos hroom hpull =>
    obtain ⟨rfl, rfl⟩ := pull_eq_nil hsolid hpos hpull
    obtain ⟨more, rfl⟩ := Nat.exists_eq_succ_of_ne_zero (Nat.ne_of_gt (Nat.lt_of_lt_of_le hpos hroom))
    exact ⟨rfl, rfl, rfl⟩
  | failed hpos hroom hpull =>
    obtain ⟨others, rfl, rfl⟩ := pull_eq_failure hpull
    rw [ending, skip, request_failure (Nat.lt_of_lt_of_le hpos hroom)]
    exact ⟨rfl, rfl, rfl⟩
  | again hpos hroom hpull hrest ih =>
    obtain rfl := pull_eq_interrupted hpull
    rw [ending, skip, request_interrupted (Nat.lt_of_lt_of_le hpos hroom)]
    exact ih hsolid.tail
  | @more count room s t u piece got e hpos hroom hpull hpiece hrest ih =>
    have ht : t.Solid := by
      have hbehind := hsolid.pull room
      rwa [hpull] at hbehind
    obtain ⟨hgot, hending, hbehind⟩ := ih ht
    have hmissing : (t.request (count - piece.length)).bytes.length < count - piece.length ↔
        (piece ++ (t.request (count - piece.length)).bytes).length < count := by
      rw [List.length_append]
      omega
    rw [ending, skip, request_pull hpos hroom hpiece hpull, hgot, hending, hbehind, ending, skip]
    exact ⟨rfl, by simp only [hmissing], rfl⟩

/-- A routine comes to an end. -/
theorem exists_gathers (count : Nat) (source : ByteSource) (hsolid : source.Solid) :
    ∃ got e rest, Gathers count source got e rest := by
  induction source generalizing count with
  | nil =>
    rcases Nat.eq_zero_or_pos count with rfl | hpos
    · exact ⟨_, _, _, .full []⟩
    · exact ⟨_, _, _, .ended hpos (Nat.le_refl count) rfl⟩
  | cons d others ih =>
    rcases Nat.eq_zero_or_pos count with rfl | hpos
    · exact ⟨_, _, _, .full (d :: others)⟩
    match d with
    | .interrupted =>
      obtain ⟨got, e, rest, h⟩ := ih count hsolid.tail
      exact ⟨_, _, _, .again hpos (Nat.le_refl count) rfl h⟩
    | .failure kind => exact ⟨_, _, _, .failed hpos (Nat.le_refl count) rfl⟩
    | .bytes piece =>
      rcases Nat.lt_or_ge count piece.length with hlt | hge
      · have hlen : count - (piece.take count).length = 0 := by
          rw [List.length_take_of_le (Nat.le_of_lt hlt), Nat.sub_self]
        have hne : piece.take count ≠ [] := fun hnil => by
          rw [hnil] at hlen
          exact absurd hlen (Nat.ne_of_gt hpos)
        have hfull : Gathers (count - (piece.take count).length)
            (.bytes (piece.drop count) :: others) [] .full (.bytes (piece.drop count) :: others) := by
          rw [hlen]
          exact .full _
        exact ⟨_, _, _, .more hpos (Nat.le_refl count) (pull_within hlt) hne hfull⟩
      · obtain ⟨got, e, rest, h⟩ := ih (count - piece.length) hsolid.tail
        exact ⟨_, _, _, .more hpos (Nat.le_refl count) (pull_whole hge) hsolid.head h⟩

/-- A routine comes to an end, and its outcome is that of the request. -/
theorem gathers_iff {e : Ending} (hsolid : source.Solid) :
    Gathers count source got e rest ↔
      got = (source.request count).bytes ∧ e = source.ending count ∧ rest = source.skip count := by
  refine ⟨fun h => h.eq_request hsolid, ?_⟩
  rintro ⟨rfl, rfl, rfl⟩
  obtain ⟨got, e, rest, h⟩ := exists_gathers count source hsolid
  obtain ⟨rfl, rfl, rfl⟩ := h.eq_request hsolid
  exact h

end NeuralNet.ByteSource
