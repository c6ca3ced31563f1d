import Rewind.Binary64
import Rewind.Text

namespace Rewind

/-- A datum as documents hold it. The fields of a dictionary have distinct keys and keep their
order. -/
inductive Value where
  | null
  | bool (b : Bool)
  | int (n : Int)
  | float (x : Binary64)
  | text (t : Text)
  | list (items : List Value)
  | dict (fields : List (Text × Value))

namespace Value

instance : Inhabited Value := ⟨null⟩

instance : Coe Text Value := ⟨text⟩

mutual

def decEq (v w : Value) : Decidable (v = w) :=
  match v, w with
  | null, null => isTrue rfl
  | bool a, bool b => decidable_of_iff (a = b) (by rw [bool.injEq])
  | int a, int b => decidable_of_iff (a = b) (by rw [int.injEq])
  | float a, float b => decidable_of_iff (a = b) (by rw [float.injEq])
  | text a, text b => decidable_of_iff (a = b) (by rw [text.injEq])
  | list a, list b => @decidable_of_iff _ (a = b) (by rw [list.injEq]) (decEqItems a b)
  | dict a, dict b => @decidable_of_iff _ (a = b) (by rw [dict.injEq]) (decEqFields a b)
  | null, bool _ | null, int _ | null, float _ |
    null, text _ | null, list _ | null, dict _ => isFalse nofun
  | bool _, null | bool _, int _ | bool _, float _ |
    bool _, text _ | bool _, list _ | bool _, dict _ => isFalse nofun
  | int _, null | int _, bool _ | int _, float _ |
    int _, text _ | int _, list _ | int _, dict _ => isFalse nofun
  | float _, null | float _, bool _ | float _, int _ |
    float _, text _ | float _, list _ | float _, dict _ => isFalse nofun
  | text _, null | text _, bool _ | text _, int _ |
    text _, float _ | text _, list _ | text _, dict _ => isFalse nofun
  | list _, null | list _, bool _ | list _, int _ |
    list _, float _ | list _, text _ | list _, dict _ => isFalse nofun
  | dict _, null | dict _, bool _ | dict _, int _ |
    dict _, float _ | dict _, text _ | dict _, list _ => isFalse nofun

def decEqItems (v w : List Value) : Decidable (v = w) :=
  match v, w with
  | [], [] => isTrue rfl
  | [], _ :: _ => isFalse nofun
  | _ :: _, [] => isFalse nofun
  | a :: v, b :: w =>
    match decEq a b, decEqItems v w with
    | isTrue h, isTrue h' => isTrue (by rw [h, h'])
    | isFalse h, _ => isFalse (by simp [h])
    | _, isFalse h => isFalse (by simp [h])

def decEqFields (v w : List (Text × Value)) : Decidable (v = w) :=
  match v, w with
  | [], [] => isTrue rfl
  | [], _ :: _ => isFalse nofun
  | _ :: _, [] => isFalse nofun
  | (k, a) :: v, (l, b) :: w =>
    if hk : k = l then
      match decEq a b, decEqFields v w with
      | isTrue h, isTrue h' => isTrue (by rw [hk, h, h'])
      | isFalse h, _ => isFalse (by simp [h])
      | _, isFalse h => isFalse (by simp [h])
    else isFalse (by simp [hk])

end

instance : DecidableEq Value := decEq

/-- What kind of datum a value is. -/
inductive Kind where
  | null | bool | int | float | text | list | dict
  deriving DecidableEq

def kind : Value → Kind
  | null => .null
  | bool _ => .bool
  | int _ => .int
  | float _ => .float
  | text _ => .text
  | list _ => .list
  | dict _ => .dict

/-- The name a kind has in messages. -/
def Kind.name : Kind → Text
  | .null => "NoneType"
  | .bool => "bool"
  | .int => "int"
  | .float => "float"
  | .text => "str"
  | .list => "list"
  | .dict => "dict"

/-- The value of a field. -/
def field? (key : Text) (fields : List (Text × Value)) : Option Value := fields.lookup key

end Value

end Rewind
