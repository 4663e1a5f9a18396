import Depot.Proofs.Archive.Meaning
import Depot.Proofs.Reference.Lengths
import Depot.Proofs.Store.Failing

/-! Texts of an archive that are no names. Loading passes over a text that cannot be read as a reference, and the image gets
    the names that are left. But a name is read twice, the second time with its registry and folder spelled out; one that is
    too long only then is not passed over, and stops loading. -/

namespace Depot
open Digest (hexOf)

/-! ### Stores that are used -/

namespace Store
variable {s : Store} {start h : Host}

/-- Images are stored, named and loaded, with whatever this ends but a refusal of the disk, and between the calls anything
    may happen elsewhere on the disk. -/
inductive Used (s : Store) (start : Host) : Host → Prop
  | start : Used s start start
  | call {h : Host} (c : Call) (hused : Used s start h) (hnamed : c.Named)
      (hwrites : ∀ why, (c.run s h).1 ≠ .error (.disk why)) : Used s start (c.run s h).2
  | load {h : Host} (path : String) (hused : Used s start h)
      (hwrites : ∀ why, (Archive.load s path h).1 ≠ .error (.disk why)) : Used s start (Archive.load s path h).2
  | elsewhere {h h' : Host} (hused : Used s start h) (hsame : s.Elsewhere h.disk h'.disk) : Used s start h'

theorem Used.neat (hempty : s.IsEmpty start.disk) (hused : s.Used start h) : ∃ f, s.Shows h.disk f ∧ f.Neat := by
  induction hused with
  | start => exact ⟨_, hempty.shows, .none⟩
  | @call h c _ hnamed hwrites ih =>
    obtain ⟨f, hshows, hf⟩ := ih
    obtain ⟨g, hg, hmakes⟩ := (turns_call hf.sound hnamed).unrefused hshows hwrites
    exact ⟨g, hg, hmakes.leaves hnamed (fun _ names digest layers size now hid => hf.add hid names digest layers size now)
      (fun _ name hid => hf.tag hid name) hf.untag⟩
  | load path _ hwrites ih =>
    obtain ⟨f, hshows, hf⟩ := ih
    exact (Archive.turns_load hf path).unrefused hshows hwrites
  | elsewhere _ hsame ih =>
    obtain ⟨f, hshows, hf⟩ := ih
    exact ⟨f, hshows.kept hsame.kept fun i hi hplace => hplace i.names (placeOf_file hi), hf⟩

theorem index_of_get? {d : Disk} {k id : String} (hk : (s.indexOrEmpty d).tags.get? k = some id) :
    s.index d = .ok (s.indexOrEmpty d) := by
  unfold indexOrEmpty at hk ⊢
  split at hk
  · next hindex => exact hindex
  · cases hk

end Store

/-! ### Names that are too long -/

namespace Archive
variable {s : Store} {files : Files} {entry : ArchiveEntry} {entries : List ArchiveEntry}
variable {images : List Image} {start h : Host} {path : String}

/-- The images are in the store. -/
structure Present (s : Store) (images : List Image) (d : Disk) : Prop where
  /-- What is known under the id of an image is what the archive says of the last image with the id. -/
  described : ∀ x ∈ images, ∃ y m, (images.filter (·.id = x.id)).getLast? = some y ∧ s.metadata d x.id = .ok m ∧ y.Describes m
  /-- A name belongs to the last image that gets it, in the index and on the list of the image. -/
  named : ∀ x ∈ images, ∀ k ∈ x.names, ∃ y i, (images.filter (k ∈ ·.names)).getLast? = some y ∧ s.index d = .ok i ∧
    i.tags.get? k = some y.id ∧ s.HasName d y.id k

theorem Stored.present {f g : Store.Contents} {d : Disk} (h : Stored f images g) (hg : s.Shows d g) : Present s images d where
  described _ hx := h.described hg hx
  named x hx k hk := by
    obtain ⟨y, hy, hlast⟩ := exists_taker hx hk
    have hholder : g.index.tags.get? k = some y.id := by
      rw [h.gave.index, hlast]
      rfl
    rw [← hg.indexOrEmpty] at hholder
    obtain ⟨m, hm, hnamed⟩ := (h.gave.lists y.id k y.isImageId.isName).mpr (Or.inl hlast)
    exact ⟨y, _, hy, Store.index_of_get? hholder, hholder, m, (hg.metadata y.isImageId.isName).trans hm, hnamed⟩

/-- An entry stands for an image exactly if its files are found. -/
theorem exists_spells_iff : (∃ x, Spells files entry x) ↔ ∀ name ∈ entry.config :: entry.layers, (files.lookup name).isSome := by
  simp only [Option.isSome_iff_exists, List.forall_mem_cons, ← exists_forall₂_iff]
  constructor
  · rintro ⟨x, hx⟩
    exact ⟨⟨_, hx.config⟩, _, hx.layers⟩
  · rintro ⟨⟨config, hconfig⟩, layers, hlayers⟩
    exact ⟨⟨config, layers, namesOf entry.repoTags⟩, hconfig, hlayers, namesOf_eq entry.repoTags⟩

theorem mem_names_iff (himages : List.Forall₂ (Spells files) entries images) {name : String} :
    name ∈ images.flatMap Image.names ↔
      ∃ entry ∈ entries, ∃ tag ∈ entry.repoTags, ∃ r, Reference.parse tag = .ok r ∧ r.canonicalName = name := by
  induction himages with
  | nil => simp
  | cons hx _ ih => rw [List.flatMap_cons, List.mem_append, ih, hx.names_eq, mem_namesOf, List.exists_mem_cons_iff]

/-- The files of all images of an archive are found, and the disk refuses nothing. If each of the texts that can be read as
    references has a name within the limit, then the archive is loaded: the texts that cannot be read are passed over, and
    each image is in the store with the names that are left. If the name of one is beyond the limit, though it was
    written within it, loading fails with such a name. -/
theorem load_of_found (hempty : s.IsEmpty start.disk) (hused : s.Used start h) (hfiles : readFiles h.disk path = .ok files)
    (hentries : entriesOf files = .ok entries)
    (hthere : ∀ entry ∈ entries, ∀ name ∈ entry.config :: entry.layers, (files.lookup name).isSome)
    (hwrites : ∀ why, (load s path h).1 ≠ .error (.disk why)) :
    ((∀ entry ∈ entries, ∀ tag ∈ entry.repoTags, ∀ r, Reference.parse tag = .ok r → r.name.utf8ByteSize ≤ 255) →
      ∃ images h', List.Forall₂ (Spells files) entries images ∧ load s path h = (.ok (images.map Image.id), h') ∧
        Present s images h'.disk) ∧
    ((∃ entry ∈ entries, ∃ tag ∈ entry.repoTags, ∃ r, Reference.parse tag = .ok r ∧ 255 < r.name.utf8ByteSize) →
      ∃ entry ∈ entries, ∃ tag ∈ entry.repoTags, ∃ r, Reference.parse tag = .ok r ∧ 255 < r.name.utf8ByteSize ∧
        (load s path h).1 = .error (.reference (.malformed r.canonicalName .tooLong))) := by
  obtain ⟨f, hshows, hf⟩ := hused.neat hempty
  obtain ⟨images, himages⟩ := exists_forall₂_iff.mpr fun entry hentry => exists_spells_iff.mpr (hthere entry hentry)
  rw [load_eq hfiles hentries] at hwrites ⊢
  obtain ⟨g, hg, -, hresult⟩ := (turns_loadEntries hf).unrefused hshows hwrites
  obtain ⟨hreads, hstored⟩ := hresult images himages
  constructor
  · intro hshort
    have hok : (loadEntries s files entries h).1 = .ok (images.map Image.id) := by
      refine hreads.eq_ok fun name hname => ?_
      obtain ⟨entry, hentry, tag, htag, r, hr, rfl⟩ := (mem_names_iff himages).mp hname
      exact ⟨_, (Reference.isGrammatical_of_parse hr).parse_canonicalName (hshort entry hentry tag htag r hr)⟩
    exact ⟨images, _, himages, Prod.ext hok rfl, (hstored hok).present hg⟩
  · rintro ⟨entry, hentry, tag, htag, r, hr, hlong⟩
    rcases hreads with ⟨-, hall⟩ | ⟨name, hname, e, he, hfailed⟩
    · obtain ⟨r', hr'⟩ := hall r.canonicalName ((mem_names_iff himages).mpr ⟨entry, hentry, tag, htag, r, hr, rfl⟩)
      exact nomatch hr'.symm.trans ((Reference.isGrammatical_of_parse hr).parse_canonicalName_of_long hlong)
    · obtain ⟨entry', hentry', tag', htag', r', hr', rfl⟩ := (mem_names_iff himages).mp hname
      have hgrammatical := Reference.isGrammatical_of_parse hr'
      -- A name within the limit would have been read again.
      have hlong' : 255 < r'.name.utf8ByteSize := by
        by_contra hshort
        exact nomatch he.symm.trans (hgrammatical.parse_canonicalName (Nat.not_lt.mp hshort))
      obtain rfl := Except.error.inj (he.symm.trans (hgrammatical.parse_canonicalName_of_long hlong'))
      exact ⟨entry', hentry', tag', htag', r', hr', hlong', hfailed⟩

/-! ### Archives with a name -/

/-- The surroundings of an archive with an image with an empty layer twice, a name and a text that is none. -/
def besideNamed (name : String) : Host :=
  .start ⟨[(["app.tar"], .file (encode (.of MediaType.config []) [.of MediaType.layer [], .of MediaType.layer []] [name, "?"])),
    (["depot"], .folder), (["depot", "images"], .folder), (["depot", "layers"], .folder)], []⟩ (fun _ => .epoch) (fun _ => "") .cut

theorem fresh_besideNamed (name : String) : Store.Fresh ⟨"/depot"⟩ (besideNamed name) := fresh_besideFile _

/-- The entry of the archive, and the image that it stands for. -/
theorem found_besideNamed {name : String} (hname : name.toList.length ≤ 300) : ∃ files entry,
    readFiles (besideNamed name).disk "/app.tar" = .ok files ∧ entriesOf files = .ok [entry] ∧ entry.repoTags = [name, "?"] ∧
      Spells files entry ⟨[], [[], []], namesOf [name, "?"]⟩ := by
  have hconfig : (Blob.of MediaType.config []).IsMade := ⟨MediaType.config, rfl⟩
  have hlayer : (Blob.of MediaType.layer []).IsMade := ⟨MediaType.layer, rfl⟩
  have hlayers : ∀ l ∈ [Blob.of MediaType.layer [], Blob.of MediaType.layer []], l.IsMade := by simp [hlayer]
  have hread : (besideNamed name).disk.read "/app.tar" =
      .ok (encode (.of MediaType.config []) [.of MediaType.layer [], .of MediaType.layer []] [name, "?"]) := rfl
  exact ⟨_, _, readFiles_encode hconfig hlayers
    (length_encode_named_lt hconfig hlayer ⟨List.length_nil, List.length_nil⟩ hname (by decide)) hread,
    entriesOf_parts hconfig hlayers, rfl, spells_entryOf (by simp) hconfig hlayers [name, "?"]⟩

theorem namesOf_besideNamed {name : String} {r : Reference} (hparse : Reference.parse name = .ok r) :
    namesOf [name, "?"] = [r.canonicalName] := by
  have hnone : (Reference.parse "?").toOption = none := by decide +kernel
  rw [namesOf_eq, List.filterMap_cons, List.filterMap_cons, hparse, hnone]
  rfl

/-- In a new store nothing but a name can be in the way of the image. -/
theorem reads_besideNamed {name : String} (hname : name.toList.length ≤ 300) :
    Store.Contents.Reads (namesOf [name, "?"]) [hexOf []] (load ⟨"/depot"⟩ "/app.tar" (besideNamed name)).1 := by
  obtain ⟨files, entry, hfiles, hentries, -, hspells⟩ := found_besideNamed hname
  have hfresh := fresh_besideNamed name
  obtain ⟨g, -, -, -, hresult⟩ := (turns_loadEntries .none).goes (besideNamed name) hfresh.ready hfresh.isEmpty.shows
  rw [load_eq hfiles hentries]
  have hreads := (hresult _ (.cons hspells .nil)).1
  rwa [List.flatMap_singleton] at hreads

/-- An image with a name and a text that is none is loaded with the name. -/
theorem load_of_found_alpine :
    let s : Store := ⟨"/depot"⟩
    let h := besideNamed "alpine"
    s.IsEmpty h.disk ∧ s.Used h h ∧ ∃ h', load s "/app.tar" h = (.ok [hexOf []], h') ∧
      Present s [⟨[], [[], []], ["docker.io/library/alpine:latest"]⟩] h'.disk := by
  intro s h
  have hfresh : s.Fresh h := fresh_besideNamed "alpine"
  have hlength : "alpine".toList.length ≤ 300 := by decide
  obtain ⟨files, entry, hfiles, hentries, htags, hspells⟩ := found_besideNamed hlength
  have hnames : namesOf ["alpine", "?"] = ["docker.io/library/alpine:latest"] := by decide +kernel
  have hreads := reads_besideNamed hlength
  have hwrites : ∀ why, (load s "/app.tar" h).1 ≠ .error (.disk why) := by
    intro why hwhy
    rcases hreads with ⟨hok, -⟩ | ⟨_, _, _, _, hfailed⟩
    · exact nomatch hwhy.symm.trans hok
    · exact nomatch hwhy.symm.trans hfailed
  have hshort : ∀ entry' ∈ [entry], ∀ tag ∈ entry'.repoTags, ∀ r, Reference.parse tag = .ok r → r.name.utf8ByteSize ≤ 255 := by
    rw [List.forall_mem_singleton, htags]
    exact short_of_parse_alpine
  obtain ⟨images, h', himages, hload, hpresent⟩ := (load_of_found hfresh.isEmpty .start hfiles hentries
    (List.forall_mem_singleton.mpr (exists_spells_iff.mp ⟨_, hspells⟩)) hwrites).1 hshort
  rw [hnames] at hspells
  obtain rfl := List.right_unique_forall₂' (rightUnique_spells _) himages (.cons hspells .nil)
  exact ⟨hfresh.isEmpty, .start, h', hload, hpresent⟩

/-- A text of 250 letters is a reference, and the image that it stands for in an archive cannot be loaded. -/
theorem load_long_name_fails :
    let s : Store := ⟨"/depot"⟩
    let h := besideNamed (Reference.row 250)
    Reference.parse (Reference.row 250) = .ok (Reference.rowReference 250) ∧ s.IsEmpty h.disk ∧ s.Used h h ∧
      (∃ files entries, readFiles h.disk "/app.tar" = .ok files ∧ entriesOf files = .ok entries ∧
        ∀ entry ∈ entries, ∀ name ∈ entry.config :: entry.layers, (files.lookup name).isSome) ∧
      (load s "/app.tar" h).1 = .error (.reference (.malformed (Reference.rowReference 250).canonicalName .tooLong)) := by
  intro s h
  have hfresh : s.Fresh h := fresh_besideNamed (Reference.row 250)
  have hlength : (Reference.row 250).toList.length ≤ 300 := by
    rw [Reference.toList_row, List.length_replicate]
    decide
  have hparse : Reference.parse (Reference.row 250) = .ok (Reference.rowReference 250) :=
    Reference.parse_row (by decide) (by decide)
  obtain ⟨files, entry, hfiles, hentries, -, hspells⟩ := found_besideNamed hlength
  have hlong := (Reference.isGrammatical_of_parse hparse).parse_canonicalName_of_long
    (by rw [Reference.utf8ByteSize_name_row]; decide)
  have hreads := reads_besideNamed hlength
  rw [namesOf_besideNamed hparse] at hreads
  refine ⟨hparse, hfresh.isEmpty, .start, ⟨files, [entry], hfiles, hentries,
    List.forall_mem_singleton.mpr (exists_spells_iff.mp ⟨_, hspells⟩)⟩, ?_⟩
  rcases hreads with ⟨-, hall⟩ | ⟨name, hname, e, he, hfailed⟩
  · obtain ⟨r, hr⟩ := hall _ (List.mem_singleton_self _)
    exact nomatch hr.symm.trans hlong
  · obtain rfl := List.mem_singleton.mp hname
    obtain rfl := Except.error.inj (he.symm.trans hlong)
    exact hfailed

end Archive
end Depot
