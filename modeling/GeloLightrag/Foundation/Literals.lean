import Mathlib.Data.Nat.Init

namespace Foundation

-- Facts by name about the literals of a field, so that the definitions that write them
-- have no proofs of their own.
theorem two_atLeastTwo : Nat.AtLeastTwo 2 := inferInstance
theorem three_atLeastTwo : Nat.AtLeastTwo 3 := inferInstance
theorem forty_atLeastTwo : Nat.AtLeastTwo 40 := inferInstance
theorem hundred_atLeastTwo : Nat.AtLeastTwo 100 := inferInstance

end Foundation
