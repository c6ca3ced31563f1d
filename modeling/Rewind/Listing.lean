import Rewind.Journal

namespace Rewind

/-- The entries of a history as the rows of a list. The rows are those of the last refresh, whether
a row is in effect is read off the history. -/
structure Listing (ι : Type) where
  rows : List ι := []

namespace Listing

/-- What can be asked about a row: its text, its edit, and whether that is in effect. -/
inductive Role where
  | display
  | edit
  | applied
  deriving DecidableEq

/-- The number of a role. -/
def Role.code : Role → Int
  | display => 0
  | edit => 256
  | applied => 257

/-- The role with a number. -/
def Role.ofValue? (v : Value) : Option Role :=
  [display, edit, applied].find? fun r ↦ v.same (.int r.code)

variable {ι : Type}

/-- The edit in a row, none outside the list. -/
def row? (l : Listing ι) (row : Value) : Except Fault (Option ι) := do
  return (← row.position l.rows.length).bind fun k ↦ l.rows[k]?

/-- Whether a row or a column fits into an index, which has 32 bits for it. -/
def fits (i : Int) : Bool := -Nat.pow 2 31 ≤ i ∧ i < Nat.pow 2 31

/-- The row that a row and a column lead to, none outside the list. There is one column. -/
def index? (l : Listing ι) (row column : Int) : Except Fault (Option Nat) :=
  if fits row && fits column then
    .ok (if 0 ≤ row ∧ row < l.rows.length ∧ column = 0 then some row.toNat else none)
  else .error .beyondIndex

end Listing

end Rewind
