import Mathlib

namespace MetaVm

/-! Instances behind the numerals and bytes that definitions of several modules share. -/

instance lawfulBEq_byte : LawfulBEq (BitVec 8) := inferInstance

instance neZero_two : NeZero 2 := ⟨by decide⟩
instance neZero_four : NeZero 4 := ⟨by decide⟩
instance neZero_sixteen : NeZero 16 := ⟨by decide⟩
instance neZero_sixtyFour : NeZero 64 := ⟨by decide⟩

instance atLeastTwo_two : Nat.AtLeastTwo 2 := ⟨by decide⟩
instance atLeastTwo_eight : Nat.AtLeastTwo 8 := ⟨by decide⟩
instance atLeastTwo_128 : Nat.AtLeastTwo 128 := ⟨by decide⟩
instance atLeastTwo_256 : Nat.AtLeastTwo 256 := ⟨by decide⟩

end MetaVm
