import Rewind.Session.World

namespace Rewind.Session.World

/-- What a part of an item is called. -/
def describePart (w : World) (i : Nat) (index : Value) : Except Fault Value :=
  match w.items[i]? with
  | some (.group g) => do
    match (← index.position g.parts.size).bind fun k ↦ g.parts[k]? with
    | some part => w.describe part
    | none => .error ((Fault.noSuchPart g.text index).showing [g.text, index])
  | some (.edit e) => .error ((Fault.noParts e.text index).showing [e.text, index])
  | some (.change c) => .error ((Fault.noParts c.text index).showing [c.text, index])
  | _ => .error (w.lacks i "sub_command_description")

def countParts (w : World) (i : Nat) : Except Fault Int :=
  match w.items[i]? with
  | some (.group g) => .ok g.parts.size
  | some (.edit _) | some (.change _) => .ok 0
  | _ => .error (w.lacks i "sub_command_count")

/-- The world in which a group has one more part. -/
def addPart (w : World) (i part : Nat) : Except Fault World :=
  match w.items[i]? with
  | some (.group g) =>
    .ok { w with items := w.items.set i (.group { g with parts := g.parts.push part }) }
  | _ => .error (w.lacks i "add_sub_command")

def capturedNodes (w : World) (i : Nat) : Except Fault (List Value) :=
  match w.items[i]? with
  | some (.capture c) => .ok c.nodes
  | _ => .error (w.lacks i "node_count")

/-- Whether an operand is equal to another, whether it is not, and whether that one is equal to
it. -/
def comparison (w : World) (x y : Operand) : Value :=
  .list [.bool (w.equal x y), .bool (!w.equal x y), .bool (w.equal y x)]

/-- The residue of a capture; other items have none. -/
def residues (w : World) (i : Nat) : Except Fault (Option (List Value.Residue)) :=
  match w.items[i]? with
  | some (.capture c) => some <$> Selection.residues c.nodes
  | _ => .ok none

/-- Whether two items have the same residue. -/
def sameResidues (w : World) (i j : Nat) : Except Fault Bool := do
  match ← w.residues i, ← w.residues j with
  | some r, some s => return r == s
  | none, none => return i == j
  | _, _ => return false

/-- The row of an index, none if the index is outside. -/
def rowOf (w : World) (index : Option Text) : Except Fault (Option Nat) :=
  match index with
  | some name => resolve w.indexes name
  | none => .ok none

/-- What a listing shows of a row. -/
def cell (w : World) (k row : Nat) (role : Listing.Role) : Except Fault Answer :=
  let (l, history) := w.listing k
  match l.rows[row]? with
  | none => .ok .nothing
  | some i =>
    match role with
    | .display => (w.describe i).map .value
    | .edit => .ok (.item (w.label i))
    | .applied => (w.position history).map fun p ↦ .bool ((row : Int) < p)

end Rewind.Session.World
