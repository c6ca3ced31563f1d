import Rewind.Text.Numeral
import Rewind.Value.Display

namespace Rewind

/-- Why a path cannot be used. -/
inductive Obstacle where
  | absent
  | occupied
  | folder
  | notFolder
  | longName
  | denied
  deriving DecidableEq

def Obstacle.message : Obstacle → Text
  | absent => "No such file or directory"
  | occupied => "File exists"
  | folder => "Is a directory"
  | notFolder => "Not a directory"
  | longName => "File name too long"
  | denied => "Permission denied"

/-- Where nesting is found to go too deep: on the way into something, in a call, in a comparison, or
at the bracket that opens a list or a dictionary. -/
inductive Nesting where
  | entry
  | call
  | comparison
  | list
  | dict
  deriving DecidableEq

def Nesting.message (place : Nesting) : Text :=
  "maximum recursion depth exceeded" ++ match place with
    | entry => []
    | call => " while calling a Python object"
    | comparison => " in comparison"
    | list => " while decoding a JSON array from a unicode string"
    | dict => " while decoding a JSON object from a unicode string"

/-- Why an operation failed. -/
inductive Fault where
  /-- There is nothing to undo. -/
  | nothingToUndo
  /-- There is nothing to redo. -/
  | nothingToRedo
  /-- A position lies outside a list. -/
  | outOfRange
  /-- A position lies beyond all that a list can have. -/
  | outOfBounds
  /-- A row or a column lies beyond all that an index can hold. -/
  | beyondIndex
  /-- A datum is no position. -/
  | notPosition (kind : Value.Kind)
  /-- An edit without parts was asked for one. -/
  | noParts (description index : Value)
  /-- A group of edits has no such part. -/
  | noSuchPart (description index : Value)
  /-- No history goes by this name. -/
  | unknownMode (mode : Value)
  /-- A single datum stands where a collection is needed. -/
  | notCollection (kind : Value.Kind)
  /-- A datum cannot be a member of a set. -/
  | notMember (kind : Value.Kind)
  /-- A size cannot be compared with a datum. -/
  | notComparable (kind : Value.Kind)
  /-- A datum cannot be put in order with positions. -/
  | notOrdered (kind : Value.Kind)
  /-- A count of entries is not whole. -/
  | notWhole
  /-- A datum is no integer and spells none. -/
  | notInteger (kind : Value.Kind)
  | notNumeral (text : Text)
  | numeralTooLong (digits : Nat)
  | integerTooLong
  | infiniteInteger
  | undefinedInteger
  /-- A document is no dictionary. -/
  | notDictionary (kind : Value.Kind)
  /-- Settings have no such field. -/
  | unknownSetting (name : Text)
  /-- This name is taken by the settings themselves. -/
  | reservedSetting (name : Text)
  /-- Bytes have no written form in a document. -/
  | bytes
  /-- A text with half of a surrogate pair has no encoding. -/
  | notEncodable
  /-- Bytes encode no text. -/
  | notDecodable
  /-- A text is no document. -/
  | notDocument
  /-- A path has a zero byte in it. -/
  | nullByte
  | obstacle (cause : Obstacle)
  /-- A script failed on purpose. -/
  | scripted (message : Value)
  | tooDeep (place : Nesting)
  /-- Nothing goes by this name. -/
  | unknownName (name : Text)
  /-- A thing has no such operation. -/
  | noOperation (thing operation : Text)
  /-- A thing has no entries to go through. -/
  | noEntries (thing : Text)
  deriving DecidableEq

/-- Faults fall into kinds, by which callers choose those they handle. -/
inductive Fault.Kind where
  | exhaustedHistory
  | position
  | type
  | value
  | member
  | overflow
  | encoding
  | decoding
  | grammar
  | storage
  | scripted
  | depth
  | name
  deriving DecidableEq

namespace Fault

def kind : Fault → Kind
  | nothingToUndo | nothingToRedo => .exhaustedHistory
  | outOfRange | outOfBounds | noParts _ _ | noSuchPart _ _ => .position
  | unknownMode _ | notNumeral _ | numeralTooLong _ | integerTooLong | undefinedInteger
  | nullByte => .value
  | notPosition _ | notCollection _ | notMember _ | notComparable _ | notOrdered _ | notWhole
  | notInteger _ | unknownSetting _ | reservedSetting _ | bytes | noEntries _ => .type
  | infiniteInteger | beyondIndex => .overflow
  | notDictionary _ | noOperation _ _ => .member
  | notEncodable => .encoding
  | notDecodable => .decoding
  | notDocument => .grammar
  | obstacle _ => .storage
  | scripted _ => .scripted
  | tooDeep _ => .depth
  | unknownName _ => .name

/-- The last words of the messages about numerals beyond the digit limit. -/
def digitAdvice : Text := "use sys.set_int_max_str_digits() to increase the limit"

def message : Fault → Text
  | nothingToUndo => "Nothing to undo"
  | nothingToRedo => "Nothing to redo"
  | outOfRange => "list index out of range"
  | outOfBounds => "cannot fit 'int' into an index-sized integer"
  | beyondIndex => []
  | notPosition kind => "list indices must be integers or slices, not " ++ kind.name
  | noParts description index =>
    "Command '" ++ description.display ++ "' has no sub-command " ++ index.display
  | noSuchPart description index =>
    "Sub-command index " ++ index.display ++ " out of range for '" ++ description.display ++ "'"
  | unknownMode mode => "Unknown history mode: " ++ mode.display
  | notCollection kind => "'" ++ kind.name ++ "' object is not iterable"
  | notMember kind => "unhashable type: '" ++ kind.name ++ "'"
  | notComparable kind => "'>' not supported between instances of 'int' and '" ++ kind.name ++ "'"
  | notOrdered kind => "'<=' not supported between instances of 'int' and '" ++ kind.name ++ "'"
  | notWhole => "slice indices must be integers or None or have an __index__ method"
  | notInteger kind =>
    "int() argument must be a string, a bytes-like object or a real number, not '" ++
      kind.name ++ "'"
  | notNumeral text => "invalid literal for int() with base 10: " ++ text.quoted.take 200
  | numeralTooLong digits =>
    "Exceeds the limit (4300 digits) for integer string conversion: value has " ++
      Text.ofNat digits ++ " digits; " ++ digitAdvice
  | integerTooLong =>
    "Exceeds the limit (4300 digits) for integer string conversion; " ++ digitAdvice
  | infiniteInteger => "cannot convert float infinity to integer"
  | undefinedInteger => "cannot convert float NaN to integer"
  | notDictionary kind => "'" ++ kind.name ++ "' object has no attribute 'get'"
  | unknownSetting name =>
    "HistorySettings.__init__() got an unexpected keyword argument '" ++ name ++ "'"
  | reservedSetting name =>
    "HistorySettings.__init__() got multiple values for argument '" ++ name ++ "'"
  | bytes => "Object of type bytes is not JSON serializable"
  | notEncodable => "surrogates not allowed"
  | notDecodable => "invalid bytes"
  | notDocument => "invalid document"
  | nullByte => "embedded null byte"
  | obstacle cause => cause.message
  | scripted message => message.display
  | tooDeep place => place.message
  | unknownName name => name.quoted
  | noOperation thing operation =>
    "'" ++ thing ++ "' object has no attribute '" ++ operation ++ "'"
  | noEntries thing => "'" ++ thing ++ "' object is not iterable"

/-- Why a list has no entry at a position. Positions have to fit into 64 bits. -/
def atPosition (i : Int) : Fault :=
  if -Nat.pow 2 63 ≤ i ∧ i < Nat.pow 2 63 then outOfRange else outOfBounds

/-- The name a kind has in answers. -/
def Kind.text : Kind → Text
  | .exhaustedHistory => "HistoryIndexError"
  | .position => "IndexError"
  | .type => "TypeError"
  | .value => "ValueError"
  | .member => "AttributeError"
  | .overflow => "OverflowError"
  | .encoding => "UnicodeEncodeError"
  | .decoding => "UnicodeDecodeError"
  | .grammar => "JSONDecodeError"
  | .storage => "OSError"
  | .scripted => "RuntimeError"
  | .depth => "RecursionError"
  | .name => "KeyError"

/-- A fault as it is written: its kind, and what it says. -/
def toValue (e : Fault) : Value := .dict [("error", e.kind.text), ("message", e.message)]

end Fault

end Rewind
