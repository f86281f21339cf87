import Mathlib

/-!
# Sizes of hardware

How many there are of something in hardware is fixed and not zero: the numbers below a size
have a first one, and a literal is one of them.
-/

namespace Apollo.Lib

instance neZero_two : NeZero 2 := ⟨by decide⟩

instance neZero_three : NeZero 3 := ⟨by decide⟩

instance neZero_four : NeZero 4 := ⟨by decide⟩

instance neZero_seven : NeZero 7 := ⟨by decide⟩

instance neZero_eight : NeZero 8 := ⟨by decide⟩

instance neZero_sixteen : NeZero 16 := ⟨by decide⟩

instance neZero_sixtyFour : NeZero 64 := ⟨by decide⟩

end Apollo.Lib
