import Rewind.Binary64.Spelling
import Rewind.Text.Quoted
import Rewind.Value

namespace Rewind.Value

mutual

/-- The text of a value inside another one: texts are quoted. -/
def literal : Value → Text
  | null => "None"
  | bool true => "True"
  | bool false => "False"
  | int n => Text.ofInt n
  | float x => Binary64.Spelling.displayed.write x
  | text t => t.quoted
  | list items => "[" ++ Text.join ", " (literals items) ++ "]"
  | dict fields => "\x7b" ++ Text.join ", " (fieldLiterals fields) ++ "\x7d"

def literals : List Value → List Text
  | [] => []
  | v :: vs => literal v :: literals vs

def fieldLiterals : List (Text × Value) → List Text
  | [] => []
  | (k, v) :: fs => (k.quoted ++ ": " ++ literal v) :: fieldLiterals fs

end

/-- The text of a value on its own. -/
def display : Value → Text
  | text t => t
  | v => v.literal

end Rewind.Value
