import Rewind.Text

namespace Rewind

/-- White space: line and paragraph breaks, tabs, and every kind of space. -/
def CodePoint.isBlank (c : CodePoint) : Bool :=
  (9 ≤ c && c ≤ 13) || c == 0x20 || c == 0x85 || c == 0xA0 || c == 0x1680 ||
    (0x2000 ≤ c && c ≤ 0x200A) || c == 0x2028 || c == 0x2029 || c == 0x202F || c == 0x205F ||
    c == 0x3000

/-- A text without the white space around it. -/
def Text.strip (t : Text) : Text :=
  ((t.dropWhile CodePoint.isBlank).reverse.dropWhile CodePoint.isBlank).reverse

end Rewind
