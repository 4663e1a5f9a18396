import Depot.Archive.Entry
import Depot.Event
import Depot.Manifest
import Depot.Proofs.Json.Reading
import Depot.Proofs.Json.Records
import Depot.Proofs.Time.Rfc3339
import Depot.Settings
import Depot.Store.Metadata
import Mathlib.Algebra.Group.Int.Defs

/-! Values that are stored as JSON documents are read back as they were written, in every layout and from text or
    bytes. `LawfulDocument` says it of a type by its trees alone; the text in between is taken care of once. -/

namespace Depot

/-- A value is the one that its document has. -/
class LawfulDocument (α : Type) [Document α] : Prop where
  ofJson?_toJson (a : α) : Document.ofJson? (Document.toJson a) = some a

namespace Document
variable {α : Type} [Document α] [LawfulDocument α]

theorem parse?_compact (a : α) : parse? (compact a) = some a := by
  rw [parse?, compact, Json.parse_compact, Option.bind_some, LawfulDocument.ofJson?_toJson]

theorem parse?_pretty (a : α) : parse? (pretty a) = some a := by
  rw [parse?, pretty, Json.parse_pretty, Option.bind_some, LawfulDocument.ofJson?_toJson]

/-- The same of the bytes in a file. -/
theorem parse?_text?_pretty (a : α) : (Bytes.text? (Bytes.ofText (pretty a))).bind parse? = some a := by
  rw [Bytes.text?_ofText, Option.bind_some, parse?_pretty]

omit [LawfulDocument α] in
theorem parseBytes?_ofText (s : String) : (parseBytes? (Bytes.ofText s) : Option α) = parse? s := by
  rw [parseBytes?, Json.parseBytes_ofText, parse?]

theorem parseBytes?_compact (a : α) : parseBytes? (Bytes.ofText (compact a)) = some a := by
  rw [parseBytes?_ofText, parse?_compact]

end Document

instance (α : Type) [Document α] [LawfulDocument α] : LawfulDocument (List α) where
  ofJson?_toJson l := by
    show (l.map Document.toJson).mapM (Document.ofJson? (α := α)) = some l
    induction l with
    | nil => rfl
    | cons a l ih =>
      rw [List.map_cons, List.mapM_cons, LawfulDocument.ofJson?_toJson, ih]
      rfl

instance : LawfulDocument Instant where
  ofJson?_toJson t := by
    show (Json.ofText t.render).text?.bind Instant.parse? = some t
    rw [Json.text?_ofText, Option.bind_some, Instant.parse?_render]

instance : LawfulDocument Transport where
  ofJson?_toJson t := t.named?_name

/-! ### Records

Each goes the same way: its fields have different names, so all are found, and each reads what it has written. -/

open Json

instance : LawfulDocument Metadata where
  ofJson?_toJson m := by
    have hcreated := LawfulDocument.ofJson?_toJson m.created
    refine record?_bind_eq_some rfl (by decide) ?_
    simp [written_cons, hcreated]

instance : LawfulDocument Index where
  ofJson?_toJson i := by
    refine record?_bind_eq_some rfl (by decide) ?_
    simp [written_cons]

instance : LawfulDocument ArchiveEntry where
  ofJson?_toJson e := by
    refine record?_bind_eq_some rfl (by decide) ?_
    simp [written_cons]

instance : LawfulDocument Descriptor where
  ofJson?_toJson d := by
    refine record?_bind_eq_some rfl (by decide) ?_
    simp [written_cons]

instance : LawfulDocument Manifest where
  ofJson?_toJson m := by
    have hconfig := LawfulDocument.ofJson?_toJson m.config
    have hlayers := LawfulDocument.ofJson?_toJson m.layers
    refine record?_bind_eq_some rfl (by decide) ?_
    simp [written_cons, hconfig, hlayers]

instance : LawfulDocument Settings where
  ofJson?_toJson s := by
    have htransport := LawfulDocument.ofJson?_toJson s.defaultTransport
    refine record?_bind_eq_some rfl (by decide) ?_
    simp [written_cons, htransport]

instance : LawfulDocument Event where
  ofJson?_toJson e := by
    have htime := LawfulDocument.ofJson?_toJson e.time
    refine record?_bind_eq_some rfl (by decide) ?_
    simp [written_cons, htime]

/-! ### Storing -/

namespace Document

/-- The ways in which a value is written down. -/
def layouts {α : Type} [Document α] : List (α → String) := [compact, pretty]

/-- Values survive being stored, and so does all that is read from a text or a file that need not come from here:
    whatever was passed over, filled in or converted in reading it is settled by then. -/
structure Keeps (α : Type) [Document α] : Prop where
  written (a : α) : ∀ write ∈ layouts, parse? (write a) = some a ∧ parseBytes? (Bytes.ofText (write a)) = some a
  rewritten (text : String) : ∀ write ∈ layouts (α := α),
    ((parse? text).map write).bind parse? = (parse? text : Option α)
  rewrittenBytes (data : Bytes) : ∀ write ∈ layouts (α := α),
    ((parseBytes? data).map fun a => Bytes.ofText (write a)).bind parseBytes? = (parseBytes? data : Option α)

section
variable {α : Type} [Document α] [LawfulDocument α]

theorem parse?_of_mem_layouts {write : α → String} (h : write ∈ layouts) (a : α) : parse? (write a) = some a := by
  rcases List.mem_pair.mp h with rfl | rfl
  · exact parse?_compact a
  · exact parse?_pretty a

theorem parseBytes?_of_mem_layouts {write : α → String} (h : write ∈ layouts) (a : α) :
    parseBytes? (Bytes.ofText (write a)) = some a :=
  (parseBytes?_ofText _).trans (parse?_of_mem_layouts h a)

theorem keeps : Keeps α where
  written a write h := ⟨parse?_of_mem_layouts h a, parseBytes?_of_mem_layouts h a⟩
  rewritten text write h := by
    rcases parse? text with _ | a
    · rfl
    · exact parse?_of_mem_layouts h a
  rewrittenBytes data write h := by
    rcases parseBytes? data with _ | a
    · rfl
    · exact parseBytes?_of_mem_layouts h a

end

/-- All that the store, the archives, the settings and the log consist of. -/
theorem stored_documents_keep :
    Keeps Manifest ∧ Keeps (List ArchiveEntry) ∧ Keeps Metadata ∧ Keeps Index ∧ Keeps Settings ∧ Keeps Event :=
  ⟨keeps, keeps, keeps, keeps, keeps, keeps⟩

end Document

end Depot
