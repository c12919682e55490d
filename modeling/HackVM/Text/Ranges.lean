/-! Sets of characters, written down as runs of code points. -/

namespace HackVM.Text

/-- First and last code point of each run, in increasing order. -/
abbrev CharRanges := List (Nat × Nat)

def CharRanges.covers (ranges : CharRanges) (c : Char) : Bool :=
  ranges.any fun range => range.1 ≤ c.toNat && c.toNat ≤ range.2

theorem CharRanges.covers_iff {ranges : CharRanges} {c : Char} :
    ranges.covers c = true ↔ ∃ range ∈ ranges, range.1 ≤ c.toNat ∧ c.toNat ≤ range.2 := by
  simp [covers, List.any_eq_true]

end HackVM.Text
