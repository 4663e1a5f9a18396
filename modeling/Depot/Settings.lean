import Depot.Destination
import Depot.Json.Document

/-!
Settings of a depot: which transport completes a bare destination, and what the depot calls itself
when it speaks to registries.
-/
namespace Depot

/-- What the program calls itself. -/
def programName : String := "porter"

/-- The version that it gives with its name. -/
def programVersion : String := "0.1.0"

structure Settings where
  defaultTransport : Transport
  userAgent : String

/-- The settings of a depot without a settings file. -/
def Settings.default : Settings :=
  ⟨.docker, programName ++ "/" ++ programVersion⟩

instance : Document Transport where
  toJson t := Json.ofText t.name
  ofJson? j := j.choice?.bind Transport.named?

instance : Document Settings where
  toJson s := Json.ofFields [
    ("default_transport", some (Document.toJson s.defaultTransport)),
    ("user_agent", some (Json.ofText s.userAgent))]
  ofJson? j := do
    let r ← j.record? ["default_transport", "user_agent"]
    let defaultTransport ←
      r.withDefault "default_transport" Settings.default.defaultTransport Document.ofJson?
    let userAgent ← r.withDefault "user_agent" Settings.default.userAgent Json.text?
    some { defaultTransport, userAgent }

end Depot
