import Rewind.Session.Items
import Rewind.Session.Objects

namespace Rewind.Session

/-- Performs one step. -/
def perform (b : Inner) (step : Step) : Run World Answer := do
  match step with
  | .newJournal name limit =>
    let k ← addJournal limit
    Run.modify (·.present name (.journal k))
    return .nothing
  | .newTimeline name limit =>
    let k ← addTimeline limit
    Run.modify (·.present name (.timeline k))
    return .nothing
  | .newSelection name nodes =>
    newSelection name nodes
    return .nothing
  | .newListing name history =>
    newListing name history
    return .nothing
  | .newDispatcher name source =>
    newDispatcher name source
    return .nothing
  | .edit name text failure undo redo times =>
    Run.modify (·.nameItem name (.edit { name, text, failure, undo, redo, times }))
    return .nothing
  | .group name text parts =>
    let parts ← parts.mapM item
    Run.modify (·.nameItem name (.group ⟨name, text, parts.toArray⟩))
    return .nothing
  | .change name selection before after =>
    let o ← object selection
    let before ← Run.lift before.members
    let after ← Run.lift after.members
    let text := .text (Selection.changeText after)
    Run.modify (·.nameItem name (.change ⟨name, text, o, before, after⟩))
    return .nothing
  | .state name value text failure restore times =>
    Run.modify (·.nameItem name (.state { name, value, text, failure, restore, times }))
    return .nothing
  | .captured name selection nodes =>
    let o ← object selection
    let nodes ← Run.lift nodes.members
    Run.modify (·.nameItem name (.capture ⟨some name, o, nodes⟩))
    return .nothing
  | .capture name selection =>
    let k ← selectionOf selection "capture"
    Run.modify fun w ↦ w.nameItem name (.capture ⟨some name, .selection k, (w.selection k).nodes⟩)
    return .nothing
  | .add history name =>
    let i ← item name
    match ← object history with
    | .journal k => (journalHost b k).add i
    | .timeline k => (timelineHost b k).add i
    | o => Run.raise (o.lacks "add_state")
    return .nothing
  | .undo target =>
    match ← object target with
    | .journal k =>
      (journalHost b k).undo
      return .nothing
    | .timeline k =>
      (timelineHost b k).undo
      return .nothing
    | .dispatcher k => return .bool (← dispatchUndo b k)
    | o => Run.raise (o.lacks "undo")
  | .redo target =>
    match ← object target with
    | .journal k =>
      (journalHost b k).redo
      return .nothing
    | .timeline k =>
      (timelineHost b k).redo
      return .nothing
    | .dispatcher k => return .bool (← dispatchRedo b k)
    | o => Run.raise (o.lacks "redo")
  | .clear target =>
    match ← object target with
    | .journal k => (journalHost b k).clear
    | .timeline k => (timelineHost b k).clear
    | .selection k => select b k []
    | o => Run.raise (o.lacks "clear")
    return .nothing
  | .setEnabled history v =>
    match ← object history with
    | .journal k => (journalHost b k).change ({ · with enabled := v })
    | .timeline k => (timelineHost b k).change ({ · with enabled := v })
    | o => Run.raise (o.lacks "set_enabled")
    return .nothing
  | .setLimit history v =>
    match ← object history with
    | .journal k => (journalHost b k).change ({ · with limit := v })
    | .timeline k => (timelineHost b k).change ({ · with limit := v })
    | _ => return .nothing
    return .nothing
  | .iterate history name =>
    let o ← object history
    let entries ← Run.ask (·.entries o)
    Run.modify fun w ↦ { w with iterations := World.bind w.iterations name entries }
    return .nothing
  | .next name =>
    match ← Run.ask fun w ↦ World.resolve w.iterations name with
    | [] => return .value (.text "end")
    | i :: rest =>
      Run.modify fun w ↦ { w with iterations := World.bind w.iterations name rest }
      return .entry ((← Run.get).label i)
  | .setMode dispatcher mode =>
    setMode b (← dispatcherOf dispatcher "set_mode") mode
    return .nothing
  | .shortcut dispatcher key =>
    return .bool (← shortcut b (← dispatcherOf dispatcher "handle_shortcut") key)
  | .commit dispatcher name =>
    let k ← dispatcherOf dispatcher "commit"
    (journalHost b ((← Run.get).dispatcher k).journal).add (← item name)
    return .nothing
  | .watch dispatcher selection =>
    let k ← dispatcherOf dispatcher "record_selection_changes"
    watch b k (← object selection)
    return .nothing
  | .select selection nodes =>
    let k ← selectionOf selection "select"
    select b k (← Run.lift nodes.members)
    return .nothing
  | .isSelected selection node =>
    let k ← selectionOf selection "is_selected"
    return .bool (((← Run.get).selection k).contains node)
  | .describe name =>
    let i ← item name
    return .value (← Run.ask (·.describe i))
  | .countParts name =>
    let i ← item name
    return .int (← Run.ask (·.countParts i))
  | .describePart name index =>
    let i ← item name
    return .value (← Run.ask (·.describePart i index))
  | .setText name text =>
    let i ← item name
    Run.modify fun w ↦ { w with items := w.items.modify i (Item.withText text) }
    return .nothing
  | .addPart name part =>
    let i ← item name
    let part ← item part
    let w ← Run.ask (·.addPart i part)
    Run.modify fun _ ↦ w
    return .nothing
  | .callUndo name =>
    b.call .undo (← item name)
    return .nothing
  | .callRedo name =>
    b.call .redo (← item name)
    return .nothing
  | .restore name =>
    b.call .restore (← item name)
    return .nothing
  | .countNodes name =>
    let i ← item name
    return .int (← Run.ask (·.capturedNodes i)).length
  | .spell name =>
    let i ← item name
    let nodes ← Run.ask (·.capturedNodes i)
    return .value (.text (← Run.lift (Selection.captureLiteral nodes)))
  | .compare left right =>
    let i ← item left
    let j ← item right
    return .value ((← Run.get).comparison (.item i) (.item j))
  | .compareTuple name nodes =>
    let i ← item name
    let nodes ← Run.lift nodes.members
    return .value ((← Run.get).comparison (.item i) (.tuple nodes))
  | .compareResidues left right =>
    let i ← item left
    let j ← item right
    return .bool (← Run.ask (·.sameResidues i j))
  | .index listing name row column =>
    let k ← listingOf listing "index"
    let index ← Run.lift (((← Run.get).listing k).1.index? row column)
    Run.modify fun w ↦ { w with indexes := World.bind w.indexes name index }
    return .bool index.isSome
  | .cell listing name role =>
    let k ← listingOf listing "data"
    match ← Run.ask (·.rowOf name), role with
    | some row, some role => Run.ask (·.cell k row role)
    | _, _ => return .nothing
  | .countRows listing parent =>
    let k ← listingOf listing "rowCount"
    match ← Run.ask (·.rowOf parent) with
    | some _ => return .int 0
    | none => return .int ((← Run.get).listing k).1.rows.length
  | .editAt listing row =>
    let k ← listingOf listing "command_at"
    let w ← Run.get
    match ← Run.lift ((w.listing k).1.row? row) with
    | some i => return .item (w.label i)
    | none => return .nothing
  | .listen name signal steps times =>
    let source ← object name
    match source.signals.find? fun s ↦ s.text == signal with
    | some signal => Run.modify (·.connect source signal (.listen steps times))
    | none => Run.raise (source.lacks signal)
    return .nothing
  | .fail message => Run.raise (.scripted message)
  | .attempt steps =>
    (b.steps steps).recover fun e ↦ happen (.caught e)
    return .nothing

/-- Runs steps inside another one. Their answers are events; a fault ends them. -/
def nested (b : Inner) (steps : List Step) : Run World Unit :=
  Run.each steps fun step ↦ do
    let answer ← perform b step
    if answer != .nothing then happen (.answered step answer)

/-- Where calls are found to nest too deep. To undo, a group has its parts turned round first,
which is one more call. -/
def Way.limit : Way → Nesting
  | redo => .entry
  | undo | restore => .call

/-- What can be done inside, down to a depth. Steps and items fail below it; slots would not
tell. -/
def inner : Nat → Inner
  | 0 => ⟨fun _ ↦ Run.raise (.tooDeep .call), fun way _ ↦ Run.raise (.tooDeep way.limit),
      fun _ _ _ _ ↦ Run.exhausted⟩
  | n + 1 => ⟨nested (inner n), callItem (inner n), fireSlot (inner n)⟩

end Rewind.Session
