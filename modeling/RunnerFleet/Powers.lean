/-!
# Powers

A power of natural numbers or integers is the one that the core library computes, also where
another notion of power is in scope.
-/

namespace RunnerFleet

@[default_instance high]
instance (priority := high) natPower : Pow Nat Nat :=
  instPowNat

@[default_instance high]
instance (priority := high) intPower : Pow Int Nat :=
  instPowNat

end RunnerFleet
