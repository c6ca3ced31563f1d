import Rewind.Binary64.Shortest
import Rewind.Text

namespace Rewind.Binary64

/-- How numbers are written. The point stays among the digits, or next to zeros that fill up to it,
if it stands more than `least` and at most `most` places after the first digit; otherwise the
exponent follows an `e`. -/
structure Spelling where
  least : Int
  most : Int
  nan : Text
  infinity : Text

/-- The spelling for a reader. -/
def Spelling.displayed : Spelling := ⟨-4, 16, "nan", "inf"⟩

/-- The spelling in documents. -/
def Spelling.stored : Spelling := { Spelling.displayed with nan := "NaN", infinity := "Infinity" }

def zeros (n : Nat) : Text := List.replicate n '0'

def withoutTrailingZeros (t : Text) : Text :=
  (t.reverse.dropWhile fun c : CodePoint ↦ c == '0').reverse

/-- An exponent has a sign and at least two digits. -/
def exponentText (e : Int) : Text :=
  (if e < 0 then "-" else "+" : String) ++ zeros (2 - (Text.ofNat e.natAbs).length) ++
    Text.ofNat e.natAbs

/-- The text of `n * 10 ^ e`, for a positive `n`. A digit follows every point. -/
def Spelling.decimal (s : Spelling) (n : Nat) (e : Int) : Text :=
  let digits := withoutTrailingZeros (Text.ofNat n)
  let point : Int := (Text.ofNat n).length + e
  if s.least < point ∧ point ≤ s.most then
    if point ≤ 0 then "0." ++ zeros (-point).toNat ++ digits
    else
      let whole := digits.take point.toNat
      let rest := digits.drop point.toNat
      whole ++ zeros (point.toNat - whole.length) ++ "." ++ (if rest = [] then zeros 1 else rest)
  else
    let rest := digits.drop 1
    digits.take 1 ++ (if rest = [] then [] else "." ++ rest) ++ "e" ++ exponentText (point - 1)

/-- Put before what is negative. -/
def sign (negative : Bool) : Text := if negative then "-" else []

def Spelling.write (s : Spelling) : Binary64 → Text
  | .nan => s.nan
  | .infinity negative => sign negative ++ s.infinity
  | .finite negative mantissa shift =>
    sign negative ++
      if mantissa = 0 then Text.ofString "0.0"
      else s.decimal (shortest mantissa shift).1 (shortest mantissa shift).2

end Rewind.Binary64
