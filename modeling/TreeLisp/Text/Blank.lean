/-!
# Blank characters

The characters that separate tokens and that are trimmed from the ends of a setting: the controls
from tab to carriage return, the four information separators, the space, the next-line control,
and the space separators and line breaks outside ASCII.
-/
namespace TreeLisp.Text

/-- Ranges of blank characters, both ends included, in increasing order. -/
def blankRanges : List (Nat × Nat) :=
  [(0x09, 0x0D), (0x1C, 0x20), (0x85, 0x85), (0xA0, 0xA0), (0x1680, 0x1680), (0x2000, 0x200A),
    (0x2028, 0x2029), (0x202F, 0x202F), (0x205F, 0x205F), (0x3000, 0x3000)]

def isBlank (c : Char) : Bool :=
  blankRanges.any fun r => r.1 ≤ c.toNat && c.toNat ≤ r.2

def trimmed (text : String) : String :=
  String.ofList ((text.toList.dropWhile isBlank).reverse.dropWhile isBlank).reverse

/-- A text is blank when it has no other characters, so also when it is empty. -/
def allBlank (text : String) : Bool :=
  text.toList.all isBlank

end TreeLisp.Text
