import Depot.Proofs.Archive.Entries
import Depot.Proofs.Store.Reaching

/-! Loading an archive cannot write outside its images. Names in an archive serve to find its files and to name images; no
    path is made of them. So whatever an archive holds and wherever loading it stops, what has changed on the disk is the
    index, the folders and files of what the archive holds, each named by its hash, and what is known of images that lose a
    name to an image of the archive. -/

namespace Depot
open Digest (hexOf)

namespace Store

/-! ### Runs -/

/-- Images are stored and named and archives are loaded, with whatever each of these ends, and between them anything may
    happen elsewhere on the disk. -/
inductive Worked (s : Store) (start : Host) : Host → Prop
  | start : Worked s start start
  | call {h : Host} (c : Call) (hworked : Worked s start h) (hids : c.OfImages) : Worked s start (c.run s h).2
  | load {h : Host} (path : String) (hworked : Worked s start h) : Worked s start (Archive.load s path h).2
  | elsewhere {h h' : Host} (hworked : Worked s start h) (hsame : s.Elsewhere h.disk h'.disk) : Worked s start h'

theorem Worked.add {s : Store} {start h : Host} {id : String} (hworked : s.Worked start h) (hid : IsHexId id)
    (names : List String) (digest : Option String) (layers : List String) (size : UInt64) :
    s.Worked start (s.add id names digest layers size h).2 :=
  hworked.call (.add id names digest layers size) hid

theorem Worked.holds {s : Store} {start h : Host} (hvacant : s.Vacant start.disk) (hworked : s.Worked start h) :
    ∃ f, s.Holds h.disk f ∧ f.Regular := by
  induction hworked with
  | start => exact ⟨_, hvacant.holds, regular_none⟩
  | call c _ hids ih =>
    obtain ⟨f, hh, hf⟩ := ih
    obtain ⟨g, ⟨hg, hsteps, -⟩, -⟩ := moves_call hf hids _ hh
    exact ⟨g, hg, hf.steps hsteps⟩
  | @load h path _ ih =>
    obtain ⟨f, hh, hf⟩ := ih
    rcases Archive.load_cases s path h with ⟨e, he⟩ | ⟨files, entries, -, -, he⟩ <;> rw [he]
    · exact ⟨f, hh, hf⟩
    · obtain ⟨g, ⟨hg, hsteps, -⟩, -⟩ := Archive.moves_loadEntries (fun _ hentry => hentry) hf _ hh
      exact ⟨g, hg, hf.steps hsteps⟩
  | elsewhere _ hsame ih =>
    obtain ⟨f, hh, hf⟩ := ih
    exact ⟨f, hh.elsewhere hsame, hf⟩

/-- A file that does not lie in the store stays as it is when an image is stored. -/
theorem Worked.read_add {s : Store} {start h : Host} {path id : String} {b : Bytes} (hvacant : s.Vacant start.disk)
    (hworked : s.Worked start h) (hid : IsHexId id) (names : List String) (digest : Option String) (layers : List String)
    (size : UInt64) (hout : ∀ names, h.disk.placeOf path ≠ h.disk.placeOf s.root ++ names) (hread : h.disk.read path = .ok b) :
    (s.add id names digest layers size h).2.disk.read path = .ok b := by
  obtain ⟨f, hh, hf⟩ := hworked.holds hvacant
  obtain ⟨g, hpassage, -⟩ := moves_call (c := .add id names digest layers size) hf hid h hh
  exact hpassage.read hout hread

end Store

namespace Archive

/-! ### What an archive holds -/

/-- The archive at a path has a plain file with these bytes. -/
def Carries (d : Disk) (path : String) (b : Bytes) : Prop :=
  ∃ archive members, d.read path = .ok archive ∧ Tar.decode archive = some members ∧
    ∃ m ∈ members, m.isFile = true ∧ m.data = b

/-- The manifest of the archive at a path gives the name to an image. -/
def Claims (d : Disk) (path name : String) : Prop :=
  ∃ entries, readManifest d path = .ok entries ∧ ∃ entry ∈ entries, ∃ tag ∈ entry.repoTags, ∃ r,
    Reference.parse tag = .ok r ∧ r.canonicalName = name

section Holding
variable {d : Disk} {path name : String} {files : Files} {entries : List ArchiveEntry} {b : Bytes}

end Holding

/-! ### What loading does to the disk -/

/-- What loading the archive at a path may do, by the names on the way from the root of the store, and what is there before
    and after it. -/
inductive Effect (d : Disk) (path : String) : List String → Option Node → Option Node → Prop
  | index {before : Option Node} {c : Bytes} : Effect d path ["images.json"] before (some (.file c))
  | layerFolder {b : Bytes} (hb : Carries d path b) : Effect d path ["layers", hexOf b] none (some .folder)
  | layer {b : Bytes} (hb : Carries d path b) : Effect d path ["layers", hexOf b, "layer.tar"] none (some (.file b))
  | imageFolder {b : Bytes} (hb : Carries d path b) : Effect d path ["images", hexOf b] none (some .folder)
  | config {b : Bytes} {before : Option Node} (hb : Carries d path b) :
      Effect d path ["images", hexOf b, "config.json"] before (some (.file b))
  | metadata {b c : Bytes} {before : Option Node} (hb : Carries d path b) :
      Effect d path ["images", hexOf b, "metadata.json"] before (some (.file c))
  | released {id : String} {c : Bytes} {m m' : Metadata} (hid : Store.IsHexId id)
      (hm : (Bytes.text? c).bind Document.parse? = some m) (hloses : m.Loses (Claims d path) m') :
      Effect d path ["images", id, "metadata.json"] (some (.file c)) (some (.file (Bytes.ofText (Document.pretty m'))))

section Loading
variable {s : Store} {d d' : Disk} {f g : Store.Contents} {files : Files} {entries : List ArchiveEntry} {path : String}
variable {i : Store.Item}

end Loading

end Archive
end Depot
