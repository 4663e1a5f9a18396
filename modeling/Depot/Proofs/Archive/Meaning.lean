import Depot.Proofs.Archive.Confinement
import Depot.Proofs.Archive.Storing

/-! What it means to load an archive of several images. They are stored in the order of the manifest, so where images share
    a config or a name the last one counts; and what the store had before stays, but for the names that the archive gives
    to other images. -/

namespace Depot
open Digest (hexOf)

/-- The name is on the list of the image. -/
def Store.HasName (s : Store) (d : Disk) (id name : String) : Prop := ∃ m, s.metadata d id = .ok m ∧ name ∈ m.repoTags

namespace Archive

/-- What loading images into a store makes of it. -/
structure Brings (s : Store) (d : Disk) (images : List Image) (d' : Disk) : Prop where
  /-- What is known under the id of an image is what the archive says of the last image with the id. -/
  described : ∀ x ∈ images, ∃ y m, (images.filter (·.id = x.id)).getLast? = some y ∧ s.metadata d' x.id = .ok m ∧ y.Describes m
  /-- A name belongs to the last image that gets it. Another has it only if it had it before without the index saying so. -/
  given : ∀ x ∈ images, ∀ k ∈ x.names, ∃ y i i', (images.filter (k ∈ ·.names)).getLast? = some y ∧ s.index d = .ok i ∧
    s.index d' = .ok i' ∧ i'.tags.get? k = some y.id ∧ s.HasName d' y.id k ∧
    ∀ id, Store.IsHexId id → s.HasName d' id k → id ≠ y.id → s.HasName d id k ∧ i.tags.get? k ≠ some id
  /-- Of the names that no image gets, the index says what it said. -/
  others : ∀ k, (∀ x ∈ images, k ∉ x.names) → ∃ i i', s.index d = .ok i ∧ s.index d' = .ok i' ∧ i'.tags.get? k = i.tags.get? k
  /-- What was known is known still, and an image keeps each of its names but those that other images get. -/
  kept : ∀ id m, Store.IsHexId id → s.metadata d id = .ok m → ∃ m', s.metadata d' id = .ok m' ∧
    ∀ k ∈ m.repoTags, (∀ x ∈ images, k ∈ x.names → x.id = id) → k ∈ m'.repoTags

section Bringing
variable {s : Store} {d d' : Disk} {f g : Store.Contents} {images : List Image} {x : Image} {id k : String}

theorem hasName_iff (hh : s.Holds d f) (hid : Store.IsHexId id) : s.HasName d id k ↔ f.Lists id k := by
  unfold Store.HasName Store.Contents.Lists
  rw [hh.shows.metadata hid.isName]

theorem exists_last {p : Image → Bool} (hx : x ∈ images) (hp : p x = true) :
    ∃ y, (images.filter p).getLast? = some y :=
  ⟨_, List.getLast?_eq_some_getLast (List.ne_nil_of_mem (List.mem_filter.mpr ⟨hx, hp⟩))⟩

/-- Whatever comes before it, the last one is the last with a property that it has. -/
theorem getLast?_filter_concat (xs : List Image) {p : Image → Bool} (hp : p x = true) :
    ((xs ++ [x]).filter p).getLast? = some x := by
  simp [List.filter_append, hp]

theorem mem_takers : id ∈ takers images k ↔ ∃ x ∈ images, k ∈ x.names ∧ x.id = id := by
  simp [takers, and_assoc]

/-- Of the images that get a name one is the last. -/
theorem exists_taker (hx : x ∈ images) (hk : k ∈ x.names) :
    ∃ y, (images.filter (k ∈ ·.names)).getLast? = some y ∧ (takers images k).getLast? = some y.id := by
  obtain ⟨y, hy⟩ := exists_last (p := (k ∈ ·.names)) hx (decide_eq_true hk)
  refine ⟨y, hy, ?_⟩
  unfold takers
  rw [List.getLast?_map, hy]
  rfl

theorem Stored.known (h : Stored f images g) (hx : x ∈ images) :
    ∃ y m, (images.filter (·.id = x.id)).getLast? = some y ∧ g.metadata x.id = .ok m ∧ y.Describes m := by
  obtain ⟨y, hy⟩ := exists_last (p := (·.id = x.id)) hx (decide_eq_true rfl)
  obtain ⟨m, hm, hdescribes⟩ := h.last x.id y hy
  exact ⟨y, m, hy, hm, hdescribes⟩

theorem Stored.described (h : Stored f images g) (hg : s.Shows d g) (hx : x ∈ images) :
    ∃ y m, (images.filter (·.id = x.id)).getLast? = some y ∧ s.metadata d x.id = .ok m ∧ y.Describes m := by
  rw [hg.metadata x.isImageId.isName]
  exact h.known hx

theorem Stored.brings (h : Stored f images g) (hh : s.Holds d f) (hf : f.Regular) (hg : s.Holds d' g) (hgf : g.Regular) :
    Brings s d images d' where
  described _ hx := h.described hg.shows hx
  given x hx k hk := by
    obtain ⟨y, hy, hlast⟩ := exists_taker hx hk
    have htaken : takers images k ≠ [] := List.ne_nil_of_mem (mem_takers.mpr ⟨x, hx, hk, rfl⟩)
    refine ⟨y, f.index, g.index, hy, hh.index hf, hg.index hgf, ?_, ?_, fun id hid hnamed hne => ?_⟩
    · rw [h.gave.index, hlast]
      rfl
    · rw [hasName_iff hg y.isImageId.isHexId, h.gave.lists _ _ y.isImageId.isName]
      exact Or.inl hlast
    · rw [hasName_iff hg hid, h.gave.lists id k hid.isName, hlast] at hnamed
      rw [hasName_iff hh hid]
      rcases hnamed with heq | ⟨hlists, -, hindex⟩
      · exact absurd (Option.some.inj heq).symm hne
      · exact ⟨hlists, hindex htaken⟩
  others k hk := by
    have hnone : takers images k = [] :=
      List.eq_nil_iff_forall_not_mem.mpr fun id hmem => by
        obtain ⟨x, hx, hname, -⟩ := mem_takers.mp hmem
        exact hk x hx hname
    refine ⟨f.index, g.index, hh.index hf, hg.index hgf, ?_⟩
    rw [h.gave.index, hnone]
    rfl
  kept id m hid hm := by
    rw [hh.shows.metadata hid.isName] at hm
    obtain ⟨m', hm'⟩ : ∃ m', g.metadata id = .ok m' := by
      by_cases hstored : ∃ x ∈ images, x.id = id
      · obtain ⟨x, hx, rfl⟩ := hstored
        obtain ⟨-, m', -, hm', -⟩ := h.known hx
        exact ⟨m', hm'⟩
      · have hbare := h.other id hid.isName fun x hx heq => hstored ⟨x, hx, heq⟩
        rw [Store.Contents.bare_of_ok hm] at hbare
        obtain ⟨tags, hm'⟩ := Store.Contents.exists_of_bare hbare
        exact ⟨_, hm'⟩
    refine ⟨m', (hg.shows.metadata hid.isName).trans hm', fun k hk hown => ?_⟩
    rw [← Store.Contents.lists_of_ok hm', h.gave.lists id k hid.isName]
    -- Either no image gets the name, or it is the image itself that does.
    cases hlast : (takers images k).getLast? with
    | none =>
      rw [List.getLast?_eq_none_iff] at hlast
      exact Or.inr ⟨⟨m, hm, hk⟩, by simp [hlast], fun htaken => absurd hlast htaken⟩
    | some id' =>
      obtain ⟨x, hx, hname, rfl⟩ := mem_takers.mp (List.mem_of_getLast? hlast)
      exact Or.inl (congrArg some (hown x hx hname))

end Bringing

/-! ### Texts that are no names -/

/-- The entry without the texts that are no references. -/
def accepted (entry : ArchiveEntry) : ArchiveEntry :=
  { entry with repoTags := entry.repoTags.filter fun tag => (Reference.parse tag).toOption.isSome }

section Accepting
variable {s : Store} {files : Files}

theorem namesOf_accepted (entry : ArchiveEntry) : namesOf (accepted entry).repoTags = namesOf entry.repoTags := by
  unfold accepted
  rw [namesOf_eq, namesOf_eq, List.filterMap_filter]
  refine List.filterMap_congr fun tag _ => ?_
  cases Reference.parse tag <;> rfl

theorem loadEntry_accepted (entry : ArchiveEntry) : loadEntry s files (accepted entry) = loadEntry s files entry := by
  unfold loadEntry
  rw [namesOf_accepted]
  rfl

theorem loadEntries_accepted (entries : List ArchiveEntry) :
    loadEntries s files (entries.map accepted) = loadEntries s files entries := by
  induction entries with
  | nil => rfl
  | cons entry entries ih =>
    rw [List.map_cons]
    unfold loadEntries
    rw [loadEntry_accepted, ih]

end Accepting

/-! ### Loading -/

/-- When an archive is loaded into a store that was worked with, the entries of its manifest stand for images; their ids are
    given in the order of the manifest, the store is what these images make of it, and the run is the one that the manifest
    gives without the texts that are no references. -/
theorem load_brings {s : Store} {start h h' : Host} {path : String} {ids : List String} (hvacant : s.Vacant start.disk)
    (hworked : s.Worked start h) (hok : load s path h = (.ok ids, h')) :
    ∃ files entries images, readFiles h.disk path = .ok files ∧ entriesOf files = .ok entries ∧
      List.Forall₂ (Spells files) entries images ∧ ids = images.map Image.id ∧ Brings s h.disk images h'.disk ∧
      loadEntries s files (entries.map accepted) h = (.ok ids, h') := by
  obtain ⟨f, hh, hf⟩ := hworked.holds hvacant
  rcases load_cases s path h with ⟨e, he⟩ | ⟨files, entries, hfiles, hentries, hload⟩
  · rw [he] at hok
    cases hok
  · rw [hload] at hok
    obtain ⟨g, ⟨hg, hsteps, -⟩, hloaded⟩ := moves_loadEntries (s := s) (fun _ hentry => hentry) hf h hh
    rw [hok] at hg hloaded
    obtain ⟨images, himages, hids, hstored⟩ := hloaded ids rfl
    exact ⟨files, entries, images, hfiles, hentries, himages, hids, hstored.brings hh hf hg (hf.steps hsteps),
      (congrFun (loadEntries_accepted entries) h).trans hok⟩

theorem spells_entryOf {config : Blob} {layers : List Blob}
    (hunique : ∀ a ∈ layers, ∀ b ∈ layers, hexOf a.data = hexOf b.data → a.data = b.data) (hconfig : config.IsMade)
    (hlayers : ∀ l ∈ layers, l.IsMade) (tags : List String) : Spells (parts config layers tags).reverse (entryOf config layers tags)
      ⟨config.data, layers.map Blob.data, namesOf tags⟩ where
  config := lookup_configName hconfig hlayers
  layers := lookup_layers hconfig hlayers hunique
  names := namesOf_eq tags

/-! ### An archive of three entries -/

section Three
variable {a b c : List String}

/-- A manifest whose first and last entries have one config, and layers of one name. -/
def threeEntries (a b c : List String) : List ArchiveEntry :=
  [⟨"one.json", a, ["layer.tar"]⟩, ⟨"two.json", b, []⟩, ⟨"one.json", c, ["layer.tar", "layer.tar"]⟩]

/-- The members of an archive with this manifest. -/
def threeMembers (a b c : List String) : List (String × Bytes) :=
  [("layer.tar", [1]), ("one.json", []), ("two.json", [2]), (manifestName, Bytes.ofText (Document.compact (threeEntries a b c)))]

/-- The images that its entries stand for. -/
def threeImages (a b c : List String) : List Image :=
  [⟨[], [[1]], namesOf a⟩, ⟨[2], [], namesOf b⟩, ⟨[], [[1], [1]], namesOf c⟩]

theorem entriesOf_threeMembers : entriesOf (threeMembers a b c).reverse = .ok (threeEntries a b c) := by
  unfold entriesOf
  simp [threeMembers, Document.parseBytes?_compact]

theorem spells_threeImages : List.Forall₂ (Spells (threeMembers a b c).reverse) (threeEntries a b c) (threeImages a b c) := by
  have hlayer : (threeMembers a b c).reverse.lookup "layer.tar" = some [1] := rfl
  have hone : (threeMembers a b c).reverse.lookup "one.json" = some [] := rfl
  have htwo : (threeMembers a b c).reverse.lookup "two.json" = some [2] := rfl
  exact .cons ⟨hone, .cons hlayer .nil, namesOf_eq a⟩ (.cons ⟨htwo, .nil, namesOf_eq b⟩
    (.cons ⟨hone, .cons hlayer (.cons hlayer .nil), namesOf_eq c⟩ .nil))

/-- The surroundings of such an archive, with a new store. -/
def besideThree (a b c : List String) : Host :=
  .start ⟨[(["app.tar"], .file (Tar.encode ((threeMembers a b c).map fun p => file p.1 p.2))), (["depot"], .folder),
    (["depot", "images"], .folder), (["depot", "layers"], .folder)], []⟩ (fun _ => .epoch) (fun _ => "") .cut

theorem fresh_besideThree : Store.Fresh ⟨"/depot"⟩ (besideThree a b c) := fresh_besideFile _

/-- What becomes of the surroundings of a store when an image with two names is stored. -/
def storeOld (h : Host) : Host :=
  (Store.add ⟨"/depot"⟩ "0123456789abcde" ["localhost:5000/app:v1", "docker.io/library/kept:v1"] none [] 0 h).2

theorem isHexId_old : Store.IsHexId "0123456789abcde" := ⟨by decide, by simp⟩

theorem worked_storeOld (start : Host) : Store.Worked ⟨"/depot"⟩ start (storeOld start) := by
  have hworked : Store.Worked ⟨"/depot"⟩ start start := .start
  exact hworked.add isHexId_old _ none [] 0

theorem read_storeOld {start : Host} {path : String} {data : Bytes} (hvacant : Store.Vacant ⟨"/depot"⟩ start.disk)
    (hout : ∀ names, start.disk.placeOf path ≠ start.disk.placeOf "/depot" ++ names) (hread : start.disk.read path = .ok data) :
    (storeOld start).disk.read path = .ok data := by
  have hworked : Store.Worked ⟨"/depot"⟩ start start := .start
  exact hworked.read_add hvacant isHexId_old _ none [] 0 hout hread

theorem furnished_storeOld {start : Host} (hfresh : Store.Fresh ⟨"/depot"⟩ start) : Store.Furnished ⟨"/depot"⟩ ["0123456789abcde"]
    (fun k => [] ++ if k ∈ ["localhost:5000/app:v1", "docker.io/library/kept:v1"] then ["0123456789abcde"] else [])
    (storeOld start) := by
  have hfile : Disk.IsFileName "0123456789abcde" := by decide
  have hnames : ∀ name ∈ ["localhost:5000/app:v1", "docker.io/library/kept:v1"], Store.IsCanonical name :=
    List.forall_mem_cons.mpr ⟨⟨_, rfl, rfl⟩, List.forall_mem_singleton.mpr ⟨_, rfl, rfl⟩⟩
  exact (hfresh.furnished.add hfile isHexId_old.indexedId? hnames none [] 0).2

theorem vacant_besideThree : Store.Vacant ⟨"/depot"⟩ (besideThree a b c).disk := fresh_besideThree.vacant rfl

/-- The archive is there still when the image has been stored. -/
theorem read_threeMembers : (storeOld (besideThree a b c)).disk.read "/app.tar" =
    .ok (Tar.encode ((threeMembers a b c).map fun p => file p.1 p.2)) := by
  have hout (names : List String) :
      (besideThree a b c).disk.placeOf "/app.tar" ≠ (besideThree a b c).disk.placeOf "/depot" ++ names := by
    show ["app.tar"] ≠ "depot" :: names
    simp
  have hread : (besideThree a b c).disk.read "/app.tar" = .ok (Tar.encode ((threeMembers a b c).map fun p => file p.1 p.2)) := rfl
  exact read_storeOld vacant_besideThree hout hread

theorem readFiles_threeMembers (hlength : (Bytes.ofText (Document.compact (threeEntries a b c))).length < 2 ^ 64) :
    readFiles (storeOld (besideThree a b c)).disk "/app.tar" = .ok (threeMembers a b c).reverse := by
  refine readFiles_members ?_ ?_ read_threeMembers
  · simp only [threeMembers, List.forall_mem_cons]
    exact ⟨⟨by decide, by decide, by decide⟩, ⟨by decide, by decide, by decide⟩, ⟨by decide, by decide, by decide⟩,
      isMemberName_manifestName, List.forall_mem_nil _⟩
  · simp only [threeMembers, List.forall_mem_cons]
    exact ⟨by decide, by decide, by decide, hlength, List.forall_mem_nil _⟩

/-- It can be loaded if all names can be read again. -/
theorem load_threeMembers (hlength : (Bytes.ofText (Document.compact (threeEntries a b c))).length < 2 ^ 64)
    (hnames : ∀ k ∈ namesOf a ++ namesOf b ++ namesOf c, (Reference.parse k).toOption.isSome) :
    ∃ h', load ⟨"/depot"⟩ "/app.tar" (storeOld (besideThree a b c)) = (.ok [hexOf [], hexOf [2], hexOf []], h') ∧
      Store.Ready ⟨"/depot"⟩ h' := by
  obtain ⟨hready, f, hshows, hf, -⟩ := furnished_storeOld (fresh_besideThree (a := a) (b := b) (c := c))
  refine load_of_ready hready hshows hf (readFiles_threeMembers hlength) entriesOf_threeMembers spells_threeImages fun k hk => ?_
  have hread := hnames k (by simpa [threeImages] using hk)
  cases hparse : Reference.parse k with
  | error e => simp [hparse, Except.toOption] at hread
  | ok r => exact ⟨r, rfl⟩

end Three

/-- An archive of three entries is loaded into a store with an image. A name of its first entry is that of its second one
    too, and belongs to this; a name of the second entry was that of the old image, which keeps its other name; and of the
    first and the last entry, which have one config, the last one tells the layers. -/
theorem load_brings_three :
    let s : Store := ⟨"/depot"⟩
    let start := besideThree ["alpine", "?"] ["alpine", "localhost:5000/app:v1"] ["app"]
    let h := storeOld start
    s.Vacant start.disk ∧ s.Worked start h ∧ ∃ h', load s "/app.tar" h = (.ok [hexOf [], hexOf [2], hexOf []], h') ∧
      (∃ i, s.index h'.disk = .ok i ∧ i.tags.get? "docker.io/library/alpine:latest" = some (hexOf [2]) ∧
        i.tags.get? "localhost:5000/app:v1" = some (hexOf [2])) ∧
      (∃ m, s.metadata h'.disk (hexOf []) = .ok m ∧ m.layers = [Digest.ofBytes [1], Digest.ofBytes [1]] ∧ m.size = 2) ∧
      s.HasName h'.disk "0123456789abcde" "docker.io/library/kept:v1" := by
  intro s start h
  have hlength : (Bytes.ofText (Document.compact
      (threeEntries ["alpine", "?"] ["alpine", "localhost:5000/app:v1"] ["app"]))).length < 2 ^ 64 := by decide +kernel
  have ha : namesOf ["alpine", "?"] = ["docker.io/library/alpine:latest"] := by decide +kernel
  have hb : namesOf ["alpine", "localhost:5000/app:v1"] = ["docker.io/library/alpine:latest", "localhost:5000/app:v1"] := by
    decide +kernel
  have hc : namesOf ["app"] = ["docker.io/library/app:latest"] := by decide +kernel
  have hreadable : ∀ k ∈ namesOf ["alpine", "?"] ++ namesOf ["alpine", "localhost:5000/app:v1"] ++ namesOf ["app"],
      (Reference.parse k).toOption.isSome := by decide +kernel
  have hvacant : s.Vacant start.disk := vacant_besideThree
  have hworked : s.Worked start h := worked_storeOld start
  have hfurnished := furnished_storeOld (fresh_besideThree (a := ["alpine", "?"]) (b := ["alpine", "localhost:5000/app:v1"]) (c := ["app"]))
  have hfiles := readFiles_threeMembers hlength
  obtain ⟨h', hload, -⟩ := load_threeMembers hlength hreadable
  -- How the store was reached does not matter from here on.
  rw [show storeOld (besideThree ["alpine", "?"] ["alpine", "localhost:5000/app:v1"] ["app"]) = h from rfl] at hfurnished hfiles hload
  clear_value h
  obtain ⟨files, entries, images, hfiles', hentries, himages, -, hbrings, -⟩ := load_brings hvacant hworked hload
  obtain rfl := Except.ok.inj (hfiles.symm.trans hfiles')
  obtain rfl := Except.ok.inj (entriesOf_threeMembers.symm.trans hentries)
  obtain rfl := List.right_unique_forall₂' (rightUnique_spells _) himages spells_threeImages
  rw [threeImages, ha, hb, hc] at hbrings
  refine ⟨hvacant, hworked, h', hload, ?_, ?_, ?_⟩
  · obtain ⟨y, -, i, hlast, -, hindex, halpine, -⟩ := hbrings.given _ List.mem_cons_self "docker.io/library/alpine:latest" (by simp)
    obtain rfl := Option.some.inj hlast
    obtain ⟨y, -, i', hlast, -, hindex', happ, -⟩ :=
      hbrings.given _ (List.mem_cons_of_mem _ List.mem_cons_self) "localhost:5000/app:v1" (by simp)
    obtain rfl := Option.some.inj hlast
    obtain rfl := Except.ok.inj (hindex.symm.trans hindex')
    exact ⟨i, hindex, halpine, happ⟩
  · obtain ⟨y, m, hlast, hm, hdescribes⟩ := hbrings.described _ List.mem_cons_self
    -- Whatever the id of the second image is, the last image has that of the first one.
    obtain rfl := Option.some.inj ((getLast?_filter_concat [_, _] (decide_eq_true rfl)).symm.trans hlast)
    exact ⟨m, hm, hdescribes.layers, hdescribes.size⟩
  · obtain ⟨m, hm, hkept⟩ := (hfurnished.named_iff (k := "docker.io/library/kept:v1") isHexId_old.isName).mpr (by simp)
    obtain ⟨m', hm', hnames⟩ := hbrings.kept _ m isHexId_old hm
    exact ⟨m', hm', hnames _ hkept (by simp)⟩

end Archive
end Depot
