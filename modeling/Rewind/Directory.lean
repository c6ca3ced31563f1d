import Rewind.Fault
import Rewind.Text.Utf8

namespace Rewind

/-- What may be done with a file: to read it and to write to it, to read it only, or neither. -/
inductive Access where
  | free
  | readOnly
  | closed
  deriving DecidableEq

/-- What is found at a place. -/
inductive Entry where
  | file (content : Utf8.Bytes) (access : Access)
  | folder

/-- A name of a file or a folder. -/
abbrev Name := Utf8.Bytes

/-- A place, as the names on the way to it from the root. -/
abbrev Place := List Name

namespace Place

/-- The name of a folder in itself. -/
def here : Name := (Text.ofString ".").flatMap Utf8.encodePoint

/-- The name of what a folder lies in. -/
def above : Name := (Text.ofString "..").flatMap Utf8.encodePoint

/-- The folder where paths start that do not start at the root. -/
def home : Place :=
  [Text.ofString "tmp", Text.ofString "rewind-home"].map fun t ↦ t.flatMap Utf8.encodePoint

end Place

/-- A path: a place, the names on the way from there, and whether a slash ends it. -/
structure Route where
  start : Place
  names : List Name
  slashed : Bool

namespace Route

def slash : UInt8 := 0x2F

/-- The most bytes a path may have. -/
def longest : Nat := 4095

/-- The bytes of a code point in a name. A byte that encodes nothing is held by a low surrogate. -/
def pointBytes? (c : CodePoint) : Option Utf8.Bytes :=
  if 0xDC80 ≤ c ∧ c ≤ 0xDCFF then some [.ofNat (c.val - 0xDC00)]
  else if c.isSurrogate then none
  else some (Utf8.encodePoint c)

/-- The names in a path, between slashes. -/
def split (path : Utf8.Bytes) : List Name :=
  (path.splitBy fun a b ↦ a != slash && b != slash).filter fun name : Name ↦ !name.all (· == slash)

/-- The route that a text describes. Nothing is to be found at a text without names and slashes. -/
def ofText (t : Text) : Except Fault Route :=
  match t.mapM pointBytes? with
  | none => .error .notEncodable
  | some parts =>
    let path := parts.flatten
    if path.contains 0 then .error .nullByte
    else if path = [] then .error (.obstacle .absent)
    else if longest < path.length then .error (.obstacle .longName)
    else
      let start := if path.head? = some slash then [] else Place.home
      .ok ⟨start, split path, path.getLast? = some slash⟩

end Route

/-- The files and folders at every place in use. -/
structure Directory where
  entries : List (Place × Entry) := []

namespace Directory

/-- The most bytes a name may have. -/
def longestName : Nat := 255

/-- What stands at a place. The home of paths and all that it lies in are folders. -/
def lookup? (d : Directory) (p : Place) : Option Entry :=
  if p.isPrefixOf Place.home then some .folder else d.entries.lookup p

/-- The place that a name leads to from a folder, whether or not something stands there. -/
def enter (d : Directory) (p : Place) (name : Name) : Except Obstacle Place :=
  match d.lookup? p with
  | none => .error .absent
  | some (.file ..) => .error .notFolder
  | some .folder =>
    if name = Place.here then .ok p
    else if name = Place.above then .ok p.dropLast
    else if longestName < name.length then .error .longName
    else .ok (p ++ [name])

def walk (d : Directory) : Place → List Name → Except Obstacle Place
  | p, [] => .ok p
  | p, name :: names => do walk d (← d.enter p name) names

/-- What stands at the end of a route. Only folders stand behind a slash. -/
def find (d : Directory) (r : Route) : Except Obstacle Entry := do
  match d.lookup? (← d.walk r.start r.names) with
  | none => .error .absent
  | some (.file content access) =>
    if r.slashed then .error .notFolder else .ok (.file content access)
  | some .folder => .ok .folder

/-- The place at the end of a route, in a folder that exists. -/
def target (d : Directory) (r : Route) : Except Obstacle Place := do
  d.enter (← d.walk r.start r.names.dropLast) (r.names.getLastD Place.here)

def put (d : Directory) (p : Place) (e : Entry) : Directory :=
  ⟨(p, e) :: d.entries.filter fun f ↦ f.1 ≠ p⟩

/-- Follows the route of a path. -/
def follow {α : Type} (path : Text) (f : Route → Except Obstacle α) : Except Fault α := do
  match f (← Route.ofText path) with
  | .ok a => .ok a
  | .error e => .error (.obstacle e)

/-- Whether something stands at a path. -/
def holds (d : Directory) (path : Text) : Bool := (follow path d.find).isOk

/-- The content of a file. -/
def read (d : Directory) (path : Text) : Except Fault Utf8.Bytes :=
  follow path fun r ↦ do
    match ← d.find r with
    | .file content access => if access = .closed then .error .denied else .ok content
    | .folder => .error .folder

/-- A place, unless what stands there is no file or refuses to be written to. -/
def grant (d : Directory) (p : Place) : Except Obstacle Place :=
  match d.lookup? p with
  | some .folder => .error .folder
  | some (.file _ access) => if access = .free then .ok p else .error .denied
  | none => .ok p

/-- The place where a file can be written: one that is there and lets it happen, or a new one in a
folder. What a slash ends is taken for a folder. -/
def writable (d : Directory) (path : Text) : Except Fault Place :=
  follow path fun r ↦ do
    d.grant
      (← if r.slashed then d.enter (← d.walk r.start r.names.dropLast) Place.here else d.target r)

def write (d : Directory) (path : Text) (content : Utf8.Bytes) : Except Fault Directory := do
  return d.put (← d.writable path) (.file content .free)

def makeFolder (d : Directory) (path : Text) : Except Fault Directory :=
  follow path fun r ↦ do
    let p ← d.target r
    match d.lookup? p with
    | some _ => .error .occupied
    | none => .ok (d.put p .folder)

end Directory

end Rewind
