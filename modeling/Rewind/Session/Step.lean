import Rewind.Listing
import Rewind.Settings

namespace Rewind.Session

/-- What the objects of a session announce. -/
inductive Signal where
  | commandAdded
  | undoPerformed
  | redoPerformed
  | stateAdded
  | stateRestored
  | historyChanged
  | stateChanged
  | modeChanged
  | selectionChanged
  | resetBegun
  | resetDone
  deriving DecidableEq

/-- The name a signal has in answers. -/
def Signal.text : Signal → Text
  | commandAdded => "command_added"
  | undoPerformed => "undo_performed"
  | redoPerformed => "redo_performed"
  | stateAdded => "state_added"
  | stateRestored => "state_restored"
  | historyChanged => "history_changed"
  | stateChanged => "state_changed"
  | modeChanged => "mode_changed"
  | selectionChanged => "selection_changed"
  | resetBegun => "modelAboutToBeReset"
  | resetDone => "modelReset"

/-- One step of a session. Objects and items go by names. Edits, states and listeners may hold
steps of their own, which run when they are called. -/
inductive Step where
  | newJournal (name : Text) (limit : Value)
  | newTimeline (name : Text) (limit : Value)
  | newSelection (name : Text) (nodes : Value)
  | newListing (name history : Text)
  | newDispatcher (name : Text) (settings : Settings.Source Value)
  /-- An edit that runs steps, on the first `times` calls of either way. -/
  | edit (name : Text) (text : Value) (failure : Option Value) (undo redo : List Step)
      (times : Option Int)
  | group (name : Text) (text : Value) (parts : List Text)
  | change (name selection : Text) (before after : Value)
  /-- A state that runs steps, on the first `times` calls. -/
  | state (name : Text) (value text : Value) (failure : Option Value) (restore : List Step)
      (times : Option Int)
  | captured (name selection : Text) (nodes : Value)
  | capture (name selection : Text)
  | add (history item : Text)
  | undo (target : Text)
  | redo (target : Text)
  | clear (target : Text)
  | setEnabled (history : Text) (value : Value)
  | setLimit (history : Text) (value : Value)
  | iterate (history name : Text)
  | next (name : Text)
  | setMode (dispatcher : Text) (mode : Value)
  | shortcut (dispatcher : Text) (key : Value)
  | commit (dispatcher item : Text)
  | watch (dispatcher selection : Text)
  | select (selection : Text) (nodes : Value)
  | isSelected (selection : Text) (node : Value)
  | describe (item : Text)
  | countParts (item : Text)
  | describePart (item : Text) (index : Value)
  | setText (item : Text) (text : Value)
  | addPart (item part : Text)
  | callUndo (item : Text)
  | callRedo (item : Text)
  | restore (item : Text)
  | countNodes (item : Text)
  | spell (item : Text)
  | compare (left right : Text)
  | compareTuple (item : Text) (nodes : Value := .list [])
  | compareResidues (left right : Text)
  | index (listing name : Text) (row column : Int)
  | cell (listing : Text) (index : Option Text) (role : Option Listing.Role)
  | countRows (listing : Text) (parent : Option Text)
  | editAt (listing : Text) (row : Value)
  | listen (object signal : Text) (steps : List Step) (times : Option Int)
  | fail (message : Value)
  | attempt (steps : List Step)

/-- How an item is written: by its name, or by its nodes if it has none. -/
inductive Label where
  | name (name : Text)
  | nodes (nodes : List Value)
  deriving DecidableEq

def Label.toValue : Label → Value
  | name t => .text t
  | nodes ns => .dict [("nodes", .list ns)]

/-- What a step answers. -/
inductive Answer where
  | value (v : Value)
  | item (label : Label)
  /-- The next item of an iteration. -/
  | entry (label : Label)
  deriving DecidableEq

def Answer.toValue : Answer → Value
  | value v => v
  | item label => label.toValue
  | entry label => .dict [("item", label.toValue)]

def Answer.nothing : Answer := .value .null

def Answer.bool (b : Bool) : Answer := .value (.bool b)

def Answer.int (n : Int) : Answer := .value (.int n)

/-- The ways to call an item. -/
inductive Way where
  | undo
  | redo
  | restore
  deriving DecidableEq

/-- The name a way to call an item has in messages. -/
def Way.operation : Way → Text
  | undo => "undo"
  | redo => "revert_to_snapshot"
  | restore => "restore"

/-- What happens in a session, in order. -/
inductive Event where
  | announced (object : Text) (signal : Signal) (arguments : List Answer)
  | called (item : Text) (way : Way)
  | answered (step : Step) (answer : Answer)
  | caught (fault : Fault)
  | slotFailed (fault : Fault)
  | logged (text : Text)

end Rewind.Session
