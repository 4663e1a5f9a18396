import Depot.Settings
import Depot.Store
import Depot.Text.Blank

/-!
The event log and the settings of a store. The log has an event a line; lines that are none are
passed over when it is read. Recording never fails: an event that cannot be written is lost.
-/
namespace Depot
namespace Store

def appendEvent (s : Store) (e : Event) : Act Host Unit := do
  match Path.parent? s.eventsFile with
  | some folder => Host.makeFolders folder
  | none => pure ()
  Host.append s.eventsFile (Bytes.ofText (Document.compact e ++ "\n"))

/-- Records an event as far as possible. -/
def record (s : Store) (e : Event) : Act Host Unit := do
  let _ ← (s.appendEvent e).attempt

/-- The events that a text records, a line each. -/
def eventsOf (text : String) : List Event :=
  (Text.pieces '\n' text.toList).filterMap fun line =>
    if (Text.trim line).isEmpty then none else Document.parse? (String.ofList line)

/-- The recorded events, oldest first. -/
def events (s : Store) (d : Disk) : Except Error (List Event) :=
  if d.exists? s.eventsFile then
    match d.readText s.eventsFile with
    | .error e => .error (.disk e)
    | .ok text => .ok (eventsOf text)
  else .ok []

/-- The settings; a store without a settings file has the default ones. -/
def settings (s : Store) (d : Disk) : Except Error Settings :=
  if d.exists? s.settingsFile then
    match d.readText s.settingsFile with
    | .error e => .error (.disk e)
    | .ok text =>
      match Document.parse? text with
      | some settings => .ok settings
      | none => .error .config
  else .ok .default

end Store
end Depot
