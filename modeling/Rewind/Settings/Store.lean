import Rewind.Directory
import Rewind.Json.Reader
import Rewind.Json.Writer
import Rewind.Settings

namespace Rewind.Settings

/-- What a field of settings to be stored holds. -/
inductive Field where
  | value (v : Value)
  | bytes

def Field.pieces (level : Nat) : Field → List Json.Piece
  | value v => Json.pieces level v
  | bytes => [.error .bytes]

/-- The pieces of the document of settings. -/
def document (s : Settings Field) : List Json.Piece :=
  Json.objectPieces 0 (s.fields.map fun f ↦ (f.1, f.2.pieces 1))

/-- The bytes of all pieces before the first one that has none, and why that one has none. -/
def written : List Json.Piece → Utf8.Bytes × Option Fault
  | [] => ([], none)
  | .error e :: _ => ([], some e)
  | .ok t :: ps =>
    match Utf8.encode? t with
    | none => ([], some .notEncodable)
    | some bytes => (bytes ++ (written ps).1, (written ps).2)

/-- What reading and writing settings reports to the log. -/
inductive Report where
  | notLoaded (cause : Fault)
  | notSaved (cause : Fault)
  | standard

def Report.text : Report → Text
  | notLoaded _ => "Error loading settings"
  | notSaved _ => "Error saving settings"
  | standard => "Using default history settings"

/-- Line ends of every kind become line feeds. -/
def foldLines : Text → Text
  | [] => []
  | c :: t =>
    if c == '\r' then
      match t with
      | [] => [10]
      | d :: t => if d == '\n' then 10 :: foldLines t else 10 :: foldLines (d :: t)
    else c :: foldLines t

/-- How deep the brackets of a document may nest. -/
def nesting : Nat := 990

/-- The settings in the content of a file. -/
def ofBytes (content : Utf8.Bytes) : Except Fault (Settings Value) :=
  match Utf8.decode? content with
  | none => .error .notDecodable
  | some t => do ofValue (← Json.readWithin nesting (foldLines t))

/-- The settings in a file, or why there are none. -/
def stored (d : Directory) (path : Text) : Except Fault (Settings Value) := do
  ofBytes (← d.read path)

/-- Reads settings. Where nothing is there are none; other faults are reported, except for an
overflow or a document that nests too deep, which go to the caller. -/
def load (d : Directory) (path : Text) : Except Fault (Option (Settings Value) × List Report) :=
  if d.holds path then
    match stored d path with
    | .ok s => .ok (some s, [])
    | .error e =>
      if e.kind = .overflow ∨ e.kind = .depth then .error e else .ok (none, [.notLoaded e])
  else .ok (none, [])

def loadOrStandard (d : Directory) (path : Text) :
    Except Fault (Settings Value × List Report) := do
  match ← load d path with
  | (some s, reports) => return (s, reports)
  | (none, reports) => return (Settings.standard, reports ++ [.standard])

/-- How saving ends: whether it succeeded, or the fault that goes to the caller, and what it reports
to the log. -/
structure Saving where
  answer : Except Fault Bool
  reports : List Report := []

/-- A fault while saving is reported if it comes from the storage or from the kind of a datum. All
others go to the caller. -/
def Saving.ofFault (e : Fault) : Saving :=
  if e.kind = .storage ∨ e.kind = .type then { answer := .ok false, reports := [.notSaved e] }
  else { answer := .error e }

/-- Writes settings over what a file holds. What was written before a fault stays. -/
def save (d : Directory) (path : Text) (s : Settings Field) : Saving × Directory :=
  match d.writable path with
  | .error e => (.ofFault e, d)
  | .ok p =>
    let (content, fault) := written (document s)
    (match fault with
      | none => { answer := .ok true }
      | some e => .ofFault e,
      d.put p (.file content .free))

end Rewind.Settings
