namespace NeuralNet

/-- What a source says of its failure: that it has ended too soon, or anything else. -/
inductive FailureKind where
  | unexpectedEnd
  | other
  deriving DecidableEq, Repr

/-- What a byte source does when it is read. -/
inductive Delivery where
  | bytes (piece : List UInt8)
  /-- Nothing this time; reading goes on. -/
  | interrupted
  /-- The source fails from here on. -/
  | failure (kind : FailureKind := .other)
  deriving DecidableEq, Repr

/-- A byte source, as all it will deliver. It has ended when nothing is left. -/
abbrev ByteSource := List Delivery

namespace ByteSource

/-- A source that hands out all bytes at once. -/
def ofBytes (bytes : List UInt8) : ByteSource := [.bytes bytes]

/-- What a request for some bytes came to. -/
structure Reply where
  bytes : List UInt8
  failure : Option FailureKind
  rest : ByteSource

/-- Asks for `count` bytes, past interruptions and across pieces. Fewer come only at the end or at a
failure. -/
def request : (count : Nat) → ByteSource → Reply
  | 0, source => ⟨[], none, source⟩
  | _, [] => ⟨[], none, []⟩
  | count, .interrupted :: rest => request count rest
  | _, .failure kind :: rest => ⟨[], some kind, .failure kind :: rest⟩
  | count, .bytes piece :: rest =>
    if count < piece.length then ⟨piece.take count, none, .bytes (piece.drop count) :: rest⟩
    else
      let reply := request (count - piece.length) rest
      { reply with bytes := piece ++ reply.bytes }

end ByteSource

end NeuralNet
