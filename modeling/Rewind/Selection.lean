import Rewind.Value.Conversion

namespace Rewind

/-- The nodes that are selected, each once, in the order of selection. -/
structure Selection where
  nodes : List Value := []

namespace Selection

def ofNodes (nodes : List Value) : Except Fault Selection := do
  return ⟨← Value.distinct nodes⟩

/-- The selection of the given nodes, none if it is the one there is. -/
def select? (s : Selection) (nodes : List Value) : Except Fault (Option Selection) := do
  let t ← ofNodes nodes
  return if Value.sameItems t.nodes s.nodes then none else some t

def contains (s : Selection) (node : Value) : Bool := node.isAmong s.nodes

/-- What a change to the given nodes is called. -/
def changeText (nodes : List Value) : Text :=
  match nodes with
  | [] => "Clear selection"
  | [_] => "Select 1 node"
  | _ => "Select " ++ Text.ofNat nodes.length ++ " nodes"

/-- What a capture of the given nodes is called. A node that is alone has to be shown. -/
def captureText (nodes : List Value) : Except Fault Text :=
  match nodes with
  | [] => .ok "No Selection"
  | [node] => do return "Single Selection (" ++ (← node.shown) ++ ")"
  | _ => .ok "Group Selection"

/-- A capture in full, if all of it can be shown. A comma follows a node that is alone. -/
def captureLiteral (nodes : List Value) : Except Fault Text :=
  if Value.allShowable nodes then
    .ok ("SelectionSnapshot(nodes=(" ++ Text.join ", " (Value.literals nodes) ++
      (if nodes.length = 1 then "," else "" : String) ++ "))")
  else .error .integerTooLong

/-- Whether captures of the nodes have the same residue. -/
def residues (nodes : List Value) : Except Fault (List Value.Residue) :=
  nodes.mapM fun v ↦
    match v.residue? with
    | some r => .ok r
    | none => .error (.notMember v.kind)

end Selection

end Rewind
