/-!
# Numbers of 64 bits

Offsets and directions are numbers of 64 bits with a sign, and so is what is made of them on
the way to a neighbour. A sum or a product that leaves the range wraps around: it is off by a
multiple of `2 ^ 64`. Within the range nothing changes (`wrap64_eq`), and it does not matter
whether the numbers are checked on the way.
-/

namespace HatCircle

/-- The numbers that 64 bits hold with a sign, from `-2 ^ 63` up to, but not including,
`2 ^ 63`. -/
def InRange64 (value : Int) : Prop :=
  -0x8000000000000000 ≤ value ∧ value < 0x8000000000000000

instance (value : Int) : Decidable (InRange64 value) :=
  inferInstanceAs (Decidable (_ ∧ _))

/-- What 64 bits keep of a number. -/
def wrap64 (value : Int) : Int :=
  value.bmod UInt64.size

theorem wrap64_eq {value : Int} (h : InRange64 value) : wrap64 value = value := by
  unfold InRange64 at h
  have hsize : (UInt64.size : Int) = 0x10000000000000000 := rfl
  apply Int.bmod_eq_of_le
  · omega
  · omega

end HatCircle
