import Rewind.Value.Conversion

namespace Rewind

/-- Which history undoing and redoing drive. -/
inductive Mode where
  | commands
  | snapshots
  deriving DecidableEq

namespace Mode

def text : Mode → Text
  | commands => "commands"
  | snapshots => "snapshots"

def ofValue? (v : Value) : Option Mode :=
  [commands, snapshots].find? fun m ↦ v.same (.text m.text)

end Mode

/-- The settings of the histories. Nothing is known of what the fields hold. -/
structure Settings (φ : Type) where
  commandLimit : φ
  snapshotLimit : φ
  mode : φ
  deriving DecidableEq

namespace Settings

variable {φ : Type}

def standard : Settings Value := ⟨.int 100, .int 50, .text Mode.commands.text⟩

def commandLimitKey : Text := "max_command_history"

def snapshotLimitKey : Text := "max_snapshot_history"

def modeKey : Text := "default_mode"

/-- The name that the settings have for themselves. -/
def ownKey : Text := "self"

def fields (s : Settings φ) : List (Text × φ) :=
  [(commandLimitKey, s.commandLimit), (snapshotLimitKey, s.snapshotLimit), (modeKey, s.mode)]

def toValue (s : Settings Value) : Value := .dict s.fields

def map {ψ : Type} (f : φ → ψ) (s : Settings φ) : Settings ψ :=
  ⟨f s.commandLimit, f s.snapshotLimit, f s.mode⟩

/-- Settings with the given fields in place of those of `s`, unchecked. -/
def given (s : Settings φ) : List (Text × φ) → Except Fault (Settings φ)
  | [] => .ok s
  | (k, v) :: fs =>
    if k = commandLimitKey then given { s with commandLimit := v } fs
    else if k = snapshotLimitKey then given { s with snapshotLimit := v } fs
    else if k = modeKey then given { s with mode := v } fs
    else if k = ownKey then .error (.reservedSetting k)
    else .error (.unknownSetting k)

/-- A limit from a dictionary: an integer, raised to zero if it is negative. -/
def limit (key : Text) (fallback : Value) (data : List (Text × Value)) : Except Fault Value := do
  return .int (max 0 (← ((Value.field? key data).getD fallback).toInt))

/-- The settings in a dictionary. An unknown mode gives way to the standard one, and so does every
field that is missing. -/
def ofValue : Value → Except Fault (Settings Value)
  | .dict data => do
    let mode := (Value.field? modeKey data).bind Mode.ofValue?
    return {
      commandLimit := ← limit commandLimitKey standard.commandLimit data
      snapshotLimit := ← limit snapshotLimitKey standard.snapshotLimit data
      mode := .text (mode.getD .commands).text }
  | v => .error (.notDictionary v.kind)

/-- Where settings come from: fields that are not checked, or a dictionary that is. -/
inductive Source (φ : Type) where
  | standard
  | given (fields : List (Text × φ))
  | sanitized (data : Value)

def Source.settings (f : Value → φ) : Source φ → Except Fault (Settings φ)
  | standard => .ok (Settings.standard.map f)
  | given fields => (Settings.standard.map f).given fields
  | sanitized data => do return (← ofValue data).map f

def same (s t : Settings Value) : Bool :=
  s.commandLimit.same t.commandLimit && s.snapshotLimit.same t.snapshotLimit && s.mode.same t.mode

end Settings

end Rewind
