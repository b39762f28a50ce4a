namespace NeuralNet

/-- How many windows of `kernel` fit on an axis of `extent` with `padding` on both sides, `stride`
apart; none if no window fits. The padded extent is counted in 64 bits. -/
def windowCount? (extent kernel stride padding : Nat) : Option Nat :=
  let padded := (extent + 2 * padding) % 0x10000000000000000
  if stride = 0 ∨ kernel = 0 ∨ padded < kernel then none
  else some ((padded - kernel) / stride + 1)

end NeuralNet
