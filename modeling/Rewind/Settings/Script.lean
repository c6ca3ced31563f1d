import Rewind.Settings.Store

namespace Rewind.Settings

/-- A step on the files of a directory. -/
inductive Step where
  | writeText (text : Text)
  | writeBytes (content : Utf8.Bytes)
  | makeFolder
  | read
  | load
  | loadOrStandard
  | save (source : Source Field)
  | compare (source : Source Value)

/-- What a step answers. -/
inductive Answer where
  | done
  | text (t : Text)
  | settings (s : Option (Settings Value))
  | flag (b : Bool)

/-- The answer of a step or its fault, what it reports to the log, and the directory after it. -/
structure Effect where
  answer : Except Fault Answer
  reports : List Report := []
  directory : Directory

def Effect.ofWrite (d : Directory) : Except Fault Directory → Effect
  | .ok d => { answer := .ok .done, directory := d }
  | .error e => { answer := .error e, directory := d }

def Step.perform (d : Directory) (path : Text) : Step → Effect
  | writeText t =>
    match Utf8.encode? t with
    | some content => .ofWrite d (d.write path content)
    | none => { answer := .error .notEncodable, directory := d }
  | writeBytes content => .ofWrite d (d.write path content)
  | makeFolder => .ofWrite d (d.makeFolder path)
  | read =>
    match d.read path with
    | .error e => { answer := .error e, directory := d }
    | .ok content =>
      match Utf8.decode? content with
      | some t => { answer := .ok (.text t), directory := d }
      | none => { answer := .error .notDecodable, directory := d }
  | load =>
    match Settings.load d path with
    | .ok (s, reports) => { answer := .ok (.settings s), reports, directory := d }
    | .error e => { answer := .error e, directory := d }
  | loadOrStandard =>
    match Settings.loadOrStandard d path with
    | .ok (s, reports) => { answer := .ok (.settings s), reports, directory := d }
    | .error e => { answer := .error e, directory := d }
  | save source =>
    match source.settings .value with
    | .error e => { answer := .error e, directory := d }
    | .ok s =>
      let (e, d) := Settings.save d path s
      { answer := e.answer.map .flag, reports := e.reports, directory := d }
  | compare source =>
    match Settings.load d path with
    | .error e => { answer := .error e, directory := d }
    | .ok (t, reports) =>
      let answer := (source.settings id).map fun s ↦ Answer.flag (t.any (·.same s))
      { answer, reports, directory := d }

/-- A path that does not start at the root leads on from the folder of the script. -/
def fromHome (path : Text) : Text :=
  if path.head? = some '/' then path else "/tmp/rewind-home/" ++ path

/-- Performs steps on the paths given with them, from an empty directory on. -/
def runSteps (steps : List (Text × Step)) : List (Except Fault Answer × List Report) :=
  (steps.foldl (fun (d, answers) (path, step) ↦
    let e := step.perform d (fromHome path)
    (e.directory, (e.answer, e.reports) :: answers)) (({} : Directory), [])).2.reverse

end Rewind.Settings
