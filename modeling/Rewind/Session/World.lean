import Rewind.Journal.Host
import Rewind.Selection
import Rewind.Session.Step
import Rewind.Timeline.Host

namespace Rewind.Session

/-- An object of a session, by its place among those of its kind. -/
inductive Object where
  | journal (k : Nat)
  | timeline (k : Nat)
  | selection (k : Nat)
  | listing (k : Nat)
  | dispatcher (k : Nat)
  deriving DecidableEq

namespace Object

/-- The name a kind of object has in messages. -/
def kind : Object → Text
  | journal _ => "CommandHistory"
  | timeline _ => "SnapshotHistory"
  | selection _ => "GraphSelection"
  | listing _ => "CommandHistoryListModel"
  | dispatcher _ => "HistoryController"

/-- What an object announces. -/
def signals : Object → List Signal
  | journal _ => [.commandAdded, .undoPerformed, .redoPerformed, .historyChanged]
  | timeline _ => [.stateAdded, .stateRestored, .historyChanged]
  | selection _ => [.selectionChanged]
  | listing _ => [.resetBegun, .resetDone]
  | dispatcher _ => [.stateChanged, .modeChanged]

/-- The fault of asking an object for what it cannot do. -/
def lacks (o : Object) (operation : Text) : Fault := .noOperation o.kind operation

end Object

/-- An edit whose code is steps. -/
structure Edit where
  name : Text
  text : Value
  failure : Option Value
  undo : List Step
  redo : List Step
  times : Option Int
  undone : Nat := 0
  redone : Nat := 0

/-- Edits under one name. -/
structure Group where
  name : Text
  text : Value
  parts : Array Nat

/-- The change of a selection, as an edit. Any object may stand for the selection; one that is not
is found out when the change is called. -/
structure Change where
  name : Text
  text : Value
  selection : Object
  before : List Value
  after : List Value

/-- A state whose code is steps. -/
structure State where
  name : Text
  value : Value
  text : Value
  failure : Option Value
  restore : List Step
  times : Option Int
  restored : Nat := 0

/-- The nodes of a selection, as a state. -/
structure Capture where
  name : Option Text
  selection : Object
  nodes : List Value

/-- What histories record. -/
inductive Item where
  | edit (e : Edit)
  | group (g : Group)
  | change (c : Change)
  | state (s : State)
  | capture (c : Capture)

/-- The name a kind of item has in messages. -/
def Item.kind : Item → Text
  | edit _ => "Command"
  | group _ => "MacroCommand"
  | change _ => "ChangeSelectionCommand"
  | state _ => "RestorableSnapshot"
  | capture _ => "SelectionSnapshot"

def Item.label : Item → Label
  | edit e => .name e.name
  | group g => .name g.name
  | change c => .name c.name
  | state s => .name s.name
  | capture c =>
    match c.name with
    | some name => .name name
    | none => .nodes c.nodes

/-- What an item is called. An item may refuse to tell. -/
def Item.describe : Item → Except Fault Value
  | edit e =>
    match e.failure with
    | some message => .error (.scripted message)
    | none => .ok e.text
  | group g => .ok g.text
  | change c => .ok c.text
  | state s =>
    match s.failure with
    | some message => .error (.scripted message)
    | none => .ok s.text
  | capture c => Value.text <$> Selection.captureText c.nodes

/-- What an item answers when it is asked whether it equals another one. States compare values and
captures compare nodes; nobody knows of items of another kind. -/
def Item.answersEqual : Item → Item → Option Bool
  | state s, state t => some (s.value.same t.value)
  | capture c, capture d => some (Value.sameItems c.nodes d.nodes)
  | _, _ => none

/-- Changes the text of an edit; states have none of their own. -/
def Item.withText (text : Value) : Item → Item
  | edit e => edit { e with text }
  | group g => group { g with text }
  | change c => change { c with text }
  | i => i

/-- The ways in which an item can be called: edits undo and redo, states restore. -/
def Item.allows : Item → Way → Bool
  | edit _, way | group _, way | change _, way => way != .restore
  | state _, way | capture _, way => way == .restore

/-- The object whose selection an item changes. -/
def Item.selection? : Item → Option Object
  | change c => some c.selection
  | capture c => some c.selection
  | _ => none

/-- A side of a comparison: an item, or a tuple that was made for it. -/
inductive Operand where
  | item (i : Nat)
  | tuple (nodes : List Value)

/-- Whether two operands are one and the same. -/
def Operand.isSame : Operand → Operand → Bool
  | item i, item j => i == j
  | _, _ => false

/-- Drives one journal and one timeline, one of them at a time. What it was last told to watch may
be no selection. -/
structure Dispatcher where
  mode : Value
  journal : Nat
  timeline : Nat
  watched : Option Object := none

def Dispatcher.usesTimeline (d : Dispatcher) : Bool := d.mode.same (.text Mode.snapshots.text)

/-- What is done when an object announces a signal. -/
inductive Slot where
  | record (name : Text)
  | listen (steps : List Step) (left : Option Int)
  | refresh (listing : Nat)
  | relay (dispatcher : Nat) (mode : Mode)
  | capture (dispatcher : Nat)

/-- A connection of a slot to a signal. Connections are numbered in the order in which they are
made. -/
structure Link where
  number : Nat
  source : Object
  signal : Signal
  slot : Slot

/-- Everything a session works on. -/
structure World where
  journals : List (Journal Nat) := []
  timelines : List (Timeline Nat) := []
  selections : List Selection := []
  /-- A listing and the history it shows. -/
  listings : List (Listing Nat × Object) := []
  dispatchers : List Dispatcher := []
  items : List Item := []
  links : List Link := []
  linkCount : Nat := 0
  /-- The listings that are reading their rows again. -/
  reading : List Nat := []
  objects : List (Text × Object) := []
  itemNames : List (Text × Nat) := []
  iterations : List (Text × List Nat) := []
  indexes : List (Text × Option Nat) := []
  logging : Bool := false
  /-- What has happened, the latest first. -/
  events : List Event := []

namespace World

def journal (w : World) (k : Nat) : Journal Nat := w.journals.getD k {}

def timeline (w : World) (k : Nat) : Timeline Nat := w.timelines.getD k {}

def selection (w : World) (k : Nat) : Selection := w.selections.getD k {}

def listing (w : World) (k : Nat) : Listing Nat × Object := w.listings.getD k ({}, .journal 0)

def dispatcher (w : World) (k : Nat) : Dispatcher := w.dispatchers.getD k ⟨.null, 0, 0, none⟩

/-- What a history records. -/
def entries (w : World) : Object → Except Fault (List Nat)
  | .journal k => .ok (w.journal k).entries
  | .timeline k => .ok (w.timeline k).entries
  | o => .error (.noEntries o.kind)

/-- How many edits of a journal are in effect. -/
def position (w : World) : Object → Except Fault Int
  | .journal k => .ok (w.journal k).position
  | o => .error (o.lacks "cursor")

/-- What an operand answers when it is asked whether it equals another one. No item knows of tuples,
and no tuple of items. -/
def answersEqual (w : World) : Operand → Operand → Option Bool
  | .item i, .item j => do (← w.items[i]?).answersEqual (← w.items[j]?)
  | .tuple vs, .tuple ws => some (Value.sameItems vs ws)
  | .item _, .tuple _ | .tuple _, .item _ => none

/-- Whether two operands are equal: as the left one answers, or else the right one. If neither knows
of the other, they are equal if they are one and the same. -/
def equal (w : World) (x y : Operand) : Bool :=
  ((w.answersEqual x y).or (w.answersEqual y x)).getD (x.isSame y)

/-- Whether two items are equal. -/
def sameItem (w : World) (i j : Nat) : Bool := w.equal (.item i) (.item j)

/-- How an item is written. -/
def label (w : World) (i : Nat) : Label :=
  match w.items[i]? with
  | some item => item.label
  | none => .nodes []

def describe (w : World) (i : Nat) : Except Fault Value :=
  match w.items[i]? with
  | some item => item.describe
  | none => .error .outOfRange

/-- The fault of asking an item for what it cannot do. -/
def lacks (w : World) (i : Nat) (operation : Text) : Fault :=
  match w.items[i]? with
  | some item => .noOperation item.kind operation
  | none => .outOfRange

/-- Whether an item can be called in a way. -/
def allows (w : World) (i : Nat) (way : Way) : Except Fault Unit :=
  match w.items[i]? with
  | some item => if item.allows way then .ok () else .error (w.lacks i way.operation)
  | none => .error .outOfRange

/-- Whether the history that a dispatcher drives can undo, and whether it can redo. -/
def abilities (w : World) (k : Nat) : Bool × Bool :=
  let d := w.dispatcher k
  if d.usesTimeline then ((w.timeline d.timeline).canUndo, (w.timeline d.timeline).canRedo)
  else ((w.journal d.journal).canUndo, (w.journal d.journal).canRedo)

/-- What a name is bound to. -/
def resolve {α : Type} (names : List (Text × α)) (name : Text) : Except Fault α :=
  match names.lookup name with
  | some a => .ok a
  | none => .error (.unknownName name)

def object (w : World) (name : Text) : Except Fault Object := resolve w.objects name

def item (w : World) (name : Text) : Except Fault Nat := resolve w.itemNames name

/-- Binds a name, in place of what it was bound to. -/
def bind {α : Type} (names : List (Text × α)) (name : Text) (a : α) : List (Text × α) :=
  match names with
  | [] => [(name, a)]
  | n :: ns => if n.1 = name then (name, a) :: ns else n :: bind ns name a

def addItem (w : World) (item : Item) : World := { w with items := w.items ++ [item] }

def nameItem (w : World) (name : Text) (item : Item) : World :=
  { w.addItem item with itemNames := bind w.itemNames name w.items.length }

def nameObject (w : World) (name : Text) (object : Object) : World :=
  { w with objects := bind w.objects name object }

/-- Connects a slot, after all that are connected. -/
def connect (w : World) (source : Object) (signal : Signal) (slot : Slot) : World :=
  { w with
    links := w.links ++ [⟨w.linkCount, source, signal, slot⟩]
    linkCount := w.linkCount + 1 }

/-- Gives a dispatcher something else to watch, and ends its captures of what it has watched so
far. -/
def unwatch (k : Nat) (o : Object) (w : World) : World :=
  { w with
    links := w.links.filter fun l ↦ match l.slot with
      | .capture j => j ≠ k ∨ (w.dispatcher k).watched ≠ some l.source
      | _ => true
    dispatchers := w.dispatchers.modify k ({ · with watched := some o }) }

/-- Names an object, and connects a record under that name to all of its signals. -/
def present (w : World) (name : Text) (object : Object) : World :=
  object.signals.foldl (fun w signal ↦ w.connect object signal (.record name))
    (w.nameObject name object)

/-- Whether a listing still follows its history: as long as it has its name, or a dispatcher or an
item refers to it, or it is reading its rows. -/
def isFollowing (w : World) (k : Nat) : Bool :=
  w.objects.any (fun o ↦ o.2 = .listing k) || w.reading.contains k ||
    w.dispatchers.any (fun d ↦ d.watched = some (.listing k)) ||
    w.items.any fun i ↦ i.selection? = some (.listing k)

def isConnected (w : World) (number : Nat) : Bool := w.links.any fun l ↦ l.number == number

def setSlot (w : World) (number : Nat) (slot : Slot) : World :=
  { w with links := w.links.map fun l ↦ if l.number = number then { l with slot } else l }

def addEvent (w : World) (e : Event) : World := { w with events := e :: w.events }

end World

end Rewind.Session
