/-!
# Blanks

Two sets of characters count as blank.  Statements and empty bodies know the five of ASCII
(`isBlank`), scripts know every white space character of Unicode (`isWhiteSpace`).
-/

namespace ItemStore

/-- The blanks of ASCII.  The vertical tab is not one. -/
def isBlank (c : Char) : Bool :=
  c == ' ' || c == '\t' || c == '\n' || c == '\x0c' || c == '\r'

/-- The ranges of characters with the Unicode property `White_Space`. -/
def whiteSpaceRanges : List (Nat × Nat) :=
  [(0x9, 0xd), (0x20, 0x20), (0x85, 0x85), (0xa0, 0xa0), (0x1680, 0x1680), (0x2000, 0x200a),
    (0x2028, 0x2029), (0x202f, 0x202f), (0x205f, 0x205f), (0x3000, 0x3000)]

/-- White space. -/
def isWhiteSpace (c : Char) : Bool :=
  whiteSpaceRanges.any fun r => r.1 ≤ c.toNat && c.toNat ≤ r.2

end ItemStore
