namespace StraightLine.Text

-- The property White_Space, as inclusive ranges of scalar values in increasing order.
def blankRanges : List (Nat × Nat) :=
  [(0x0009, 0x000D), (0x0020, 0x0020), (0x0085, 0x0085), (0x00A0, 0x00A0), (0x1680, 0x1680),
   (0x2000, 0x200A), (0x2028, 0x2029), (0x202F, 0x202F), (0x205F, 0x205F), (0x3000, 0x3000)]

def isBlank (c : Char) : Bool :=
  blankRanges.any fun range => decide (range.1 ≤ c.toNat ∧ c.toNat ≤ range.2)

theorem isBlank_newline : isBlank '\n' = true := by decide

theorem isBlank_return : isBlank '\r' = true := by decide

theorem isBlank_semicolon : isBlank ';' = false := by decide

end StraightLine.Text
