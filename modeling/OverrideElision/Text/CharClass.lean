/-! # Character classes

A class of characters is written as the increasing list of code points at which membership changes:
the first entry is the first member, the second the first non-member after it, and so on. -/

namespace OverrideElision.Text

/-- Whether `n` lies in the class with these boundaries: an odd number of them has been passed. -/
def inClass (boundaries : List Nat) (n : Nat) : Bool :=
  (boundaries.takeWhile (· ≤ n)).length % 2 == 1

end OverrideElision.Text
