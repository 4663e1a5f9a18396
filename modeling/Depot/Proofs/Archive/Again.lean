import Depot.Proofs.Archive.Meaning
import Depot.Proofs.Store.Redoing

/-! Loading an archive twice. When it has been loaded, its images are in the store with their files and their names; so a
    second run stores and names what is there. On the way it may undo something, where images of the archive share an id or
    a short id; but the last of these has the last word in both runs, so in the end nothing has changed. -/

namespace Depot
open Digest (hexOf)

namespace Archive

/-- No name is given to images with different configs. -/
def Unambiguous (files : Files) (entries : List ArchiveEntry) : Prop := ∀ entry ∈ entries, ∀ other ∈ entries,
  ∀ k ∈ namesOf entry.repoTags, k ∈ namesOf other.repoTags → files.lookup entry.config = files.lookup other.config

/-- The image is in a store, with its files and all of its names. -/
structure Here (f : Store.Contents) (x : Image) : Prop where
  indexed : f.Indexed
  config : (f (.config x.id)).isSome
  layers : ∀ b ∈ x.layers, (f (.layer (hexOf b))).isSome
  known : ∃ m, f.metadata x.id = .ok m
  names : ∀ k ∈ x.names, Store.IsCanonical k ∧ f.Has x.id k

section Again
variable {s : Store} {f g g' : Store.Contents} {files : Files} {entry : ArchiveEntry} {entries : List ArchiveEntry}
variable {images : List Image} {x : Image} {d d' : Disk} {h h' start : Host} {path : String}

theorem Here.retained (hx : Here f x) (hretains : f.Retains g) : Here g x where
  indexed := hretains.indexed hx.indexed
  config := (hretains.there _).trans hx.config
  layers b hb := (hretains.there _).trans (hx.layers b hb)
  known := by
    obtain ⟨m, hm⟩ := hx.known
    exact (hretains.known _ m hm).imp fun _ => And.left
  names k hk := (hx.names k hk).imp_right hretains.has

/-! ### The second run -/

theorem redoes_loadLayers {names : List String} {layers : List Bytes}
    (hfound : List.Forall₂ (fun name data => files.lookup name = some data) names layers)
    (hthere : ∀ b ∈ layers, (f (.layer (hexOf b))).isSome) :
    Store.Redoes s f (loadLayers s files names) (layers.map Digest.ofBytes, countedSize layers) (· = f) := by
  induction hfound with
  | nil => exact .pure _ rfl
  | @cons name data names layers hname _ ih =>
    obtain ⟨hdata, hrest⟩ := List.forall_mem_cons.mp hthere
    rw [loadLayers_cons, member, hname, Act.ofExcept_ok_bind]
    refine (Store.redoes_addLayer hdata).bind ?_
    rintro f rfl
    refine (ih hrest).bind ?_
    rintro f rfl
    exact .pure _ rfl

theorem redoes_loadEntry (hspells : Spells files entry x) (hx : Here f x) :
    Store.Redoes s f (loadEntry s files entry) x.id f.Retains := by
  have hid := x.isImageId.isHexId
  obtain ⟨m, hm⟩ := hx.known
  show Store.Redoes s f (Act.ofExcept (member files entry.config) >>= fun config =>
    loadLayers s files entry.layers >>= fun p => s.saveConfig (hexOf config) config >>= fun _ =>
      s.add (hexOf config) (namesOf entry.repoTags) (some (Digest.ofBytes config)) p.1 p.2 >>= fun _ => pure (hexOf config)) _ _
  rw [member, hspells.config, ← hspells.names_eq, Act.ofExcept_ok_bind]
  refine (redoes_loadLayers hspells.layers hx.layers).bind ?_
  rintro f rfl
  refine (Store.redoes_saveConfig hid hx.config x.config).bind ?_
  rintro _ rfl
  have hput := Store.Contents.Retains.putConfig hx.config x.config
  have hx' := hx.retained hput
  refine (Store.redoes_add (m := m) hid hid.indexedId? hx'.config hm hx'.indexed hx'.names).bind ?_
  rintro _ rfl
  exact .pure _ (hput.trans (.filed hx'.indexed hm _ _ _ _))

theorem redoes_loadEntries (himages : List.Forall₂ (Spells files) entries images) (hhere : ∀ x ∈ images, Here f x) :
    Store.Redoes s f (loadEntries s files entries) (images.map Image.id) f.Retains := by
  induction himages generalizing f with
  | nil => exact .pure _ (.refl f)
  | cons hspells _ ih =>
    obtain ⟨hx, hrest⟩ := List.forall_mem_cons.mp hhere
    refine (redoes_loadEntry hspells hx).bind fun g hretains => ?_
    refine (ih fun y hy => (hrest y hy).retained hretains).bind fun g' hretains' => ?_
    exact .pure _ (hretains.trans hretains')

/-! ### After the first run -/

theorem Filed.here (hfiled : Filed f images g) (hg : g.Regular)
    (hsole : ∀ x ∈ images, ∀ y ∈ images, ∀ k ∈ x.names, k ∈ y.names → x.config = y.config) : ∀ x ∈ images, Here g x := by
  intro x hx
  have hid := x.isImageId.isName
  obtain ⟨y, m, hy, hm, -⟩ := hfiled.known hx
  have hentered : (x.shortId, x.id) ∈ images.map fun x => (x.shortId, x.id) := List.mem_map.mpr ⟨x, hx, rfl⟩
  have hshort : x.shortId ∈ g.index.shortIds.keys := by
    rw [hfiled.shortIds]
    exact Dictionary.mem_keys_insertAll hentered
  refine ⟨hg.indexed.resolve_left fun hnone => ?_, ?_, hfiled.layers x hx, ⟨m, hm⟩, fun k hk => ⟨hfiled.canonical x hx k hk, ?_⟩⟩
  · rw [Store.Contents.index_of_none hnone] at hshort
    cases hshort
  · rw [hfiled.config x.id hid, hy]
    rfl
  · -- All images that get the name have the config of this one, so the last of them has its id.
    have hlast : (takers images k).getLast? = some x.id := by
      obtain ⟨z, hz, htaken⟩ := exists_taker hx hk
      obtain ⟨hmem, hkz⟩ := List.mem_filter.mp (List.mem_of_getLast? hz)
      rw [htaken, Image.id, Image.id, hsole x hx z hmem k hk (of_decide_eq_true hkz)]
    exact ⟨by rw [hfiled.gave.index, hlast]; rfl, (hfiled.gave.lists x.id k hid).mpr (Or.inl hlast)⟩

/-- After a second run that keeps names and times, what is known of an image is what was known of it before. -/
theorem Filed.metadata_eq {m m' : Metadata} {id : String} (hfiled : Filed f images g) (hfiled' : Filed g images g')
    (hid : IsName id) (hm : g.metadata id = .ok m) (hm' : g'.metadata id = .ok m') (htags : m'.repoTags = m.repoTags)
    (hcreated : m'.created = m.created) : m' = m := by
  suffices hrest : m'.id = m.id ∧ m'.digest = m.digest ∧ m'.size = m.size ∧ m'.layers = m.layers by
    obtain ⟨id, tags, digest, created, size, layers⟩ := m
    obtain ⟨id', tags', digest', created', size', layers'⟩ := m'
    simp_all
  by_cases hstored : ∃ x ∈ images, x.id = id
  · -- In both runs the last image with the id is the one that is described.
    obtain ⟨x, hx, rfl⟩ := hstored
    obtain ⟨y, n, hy, hn, hdescribes⟩ := hfiled.known hx
    obtain rfl := Except.ok.inj (hm.symm.trans hn)
    obtain ⟨n', hn', hdescribes'⟩ := hfiled'.last x.id y hy
    obtain rfl := Except.ok.inj (hm'.symm.trans hn')
    exact ⟨hdescribes'.id.trans hdescribes.id.symm, hdescribes'.digest.trans hdescribes.digest.symm,
      hdescribes'.size.trans hdescribes.size.symm, hdescribes'.layers.trans hdescribes.layers.symm⟩
  · have hbare := hfiled'.other id hid fun x hx heq => hstored ⟨x, hx, heq⟩
    rw [Store.Contents.bare_of_ok hm, Store.Contents.bare_of_ok hm'] at hbare
    obtain ⟨hsame, -, hdigest, -, hsize, hlayers⟩ := Metadata.mk.inj (Except.ok.inj hbare)
    exact ⟨hsame, hdigest, hsize, hlayers⟩

/-- After such a run the contents are those from before. -/
theorem Filed.unchanged {g'' : Store.Contents} {i : Store.Item} (hfiled : Filed f images g) (hfiled' : Filed g images g')
    (hg : g.Regular) (hg' : g'.Regular) (hretains : g.Retains g'') (hplain : ∀ i : Store.Item, i.Plain → g'' i = g' i)
    (hi : i.Hashed) : g'' i = g i := by
  have halike := Store.Contents.Alike.of_plain hplain
  have hg'' := hg'.alike halike
  have hthere := hretains.there i
  cases hc : g i with
  | none =>
    rw [hc] at hthere
    simpa using hthere
  | some c =>
    rw [hc] at hthere
    obtain ⟨c', hc'⟩ := Option.isSome_iff_exists.mp hthere
    -- A document is written in one way, so it is the same when it says the same.
    cases i with
    | index =>
      have hindexed : g.Indexed := hg.indexed.resolve_left (by simp [hc])
      have hsame : g''.index = g.index := by
        have hshort : g''.index.shortIds = g.index.shortIds := by
          rw [halike.index_eq, hfiled'.shortIds, hfiled.shortIds, Dictionary.insertAll_insertAll]
        have htags := hretains.tags
        cases hx : g''.index
        cases hy : g.index
        simp_all
      rw [← hc, (hretains.indexed hindexed).eq_pretty, hindexed.eq_pretty, hsame]
    | metadata id =>
      obtain ⟨m, hm, hwritten, -⟩ := hg.legible hi hc
      obtain ⟨m', hm', hwritten', -⟩ := hg''.legible hi hc'
      obtain ⟨n, hn, htags, hcreated⟩ := hretains.known id m hm
      obtain rfl := Except.ok.inj (hm'.symm.trans hn)
      rw [halike.metadata_eq hi.isName] at hm'
      rw [hc', hwritten', hwritten, hfiled.metadata_eq hfiled' hi.isName hm hm' htags hcreated]
    | config id =>
      rw [← hc, hplain (.config id) hi.isName, hfiled'.config id hi.isName, hfiled.config id hi.isName]
      cases (images.filter (·.id = id)).getLast? <;> rfl
    | layer hex => rw [hretains.layers, hc]

/-! ### Both runs -/

theorem exists_entry (himages : List.Forall₂ (Spells files) entries images) (hx : x ∈ images) :
    ∃ entry ∈ entries, Spells files entry x := by
  induction himages with
  | nil => cases hx
  | @cons entry y _ _ hy _ ih =>
    rcases List.mem_cons.mp hx with rfl | hx
    · exact ⟨entry, List.mem_cons_self, hy⟩
    · obtain ⟨other, hother, hspells⟩ := ih hx
      exact ⟨other, List.mem_cons_of_mem entry hother, hspells⟩

theorem Unambiguous.config_eq (hsole : Unambiguous files entries) (himages : List.Forall₂ (Spells files) entries images) :
    ∀ x ∈ images, ∀ y ∈ images, ∀ k ∈ x.names, k ∈ y.names → x.config = y.config := by
  intro x hx y hy k hkx hky
  obtain ⟨entry, hentry, hspells⟩ := exists_entry himages hx
  obtain ⟨other, hother, hspells'⟩ := exists_entry himages hy
  have hsame := hsole entry hentry other hother k (hspells.names_eq ▸ hkx) (hspells'.names_eq ▸ hky)
  rw [hspells.config, hspells'.config] at hsame
  exact Option.some.inj hsame

/-- Loading an archive twice is loading it once. When an archive that gives no name to images with different configs has been
    loaded into a store that was worked with, and is there as before, then loading it again gives the same ids, and leaves
    the surroundings as they are: each file of the store with the contents that it has, and the disk in all else. -/
theorem load_again {ids : List String} (hvacant : s.Vacant start.disk) (hworked : s.Worked start h)
    (hfiles : readFiles h.disk path = .ok files) (hentries : entriesOf files = .ok entries) (hsole : Unambiguous files entries)
    (hok : load s path h = (.ok ids, h')) (hsame : h'.disk.read path = h.disk.read path) (hcalm : h'.troubles = []) :
    load s path h' = (.ok ids, h') := by
  have hfiles' : readFiles h'.disk path = .ok files := by
    unfold readFiles at hfiles ⊢
    rwa [hsame]
  rw [load_eq hfiles hentries] at hok
  rw [load_eq hfiles' hentries]
  obtain ⟨f, hh, hf⟩ := hworked.holds hvacant
  -- The first run has stored images with their files.
  obtain ⟨g, ⟨hg, hsteps, -⟩, hloaded⟩ := moves_loadEntries (fun _ hentry => hentry) hf h hh
  rw [hok] at hg hloaded
  obtain ⟨images, himages, rfl, hfiled⟩ := hloaded ids rfl
  have hregular := hf.steps hsteps
  -- The second run finds them, and goes through.
  obtain ⟨d, g'', hrun, hg'', hretains, hrefills⟩ :=
    redoes_loadEntries himages (hfiled.here hregular (hsole.config_eq himages)) h' hg hcalm
  -- So it too has stored the images, and nothing else.
  obtain ⟨g', ⟨hg', hsteps', -⟩, hloaded'⟩ := moves_loadEntries (fun _ hentry => hentry) hregular h' hg
  rw [hrun] at hg' hloaded'
  obtain ⟨images', himages', -, hfiled'⟩ := hloaded' _ rfl
  obtain rfl := List.right_unique_forall₂' (rightUnique_spells files) himages himages'
  have hcontents {i : Store.Item} (hi : i.Hashed) : g'' i = g i :=
    hfiled.unchanged hfiled' hregular (hregular.steps hsteps') hretains (hg'.shows.unique hg''.shows) hi
  have hdisk : d = h'.disk := by
    refine hrefills.eq_of_node? ?_ ?_
    · rintro _ ⟨i, -, rfl⟩
      exact Store.append_names_ne_nil i
    · rintro _ ⟨i, hi, rfl⟩
      rw [hg.node?_names hi.plain, ← hrefills.placeOf, hg''.node?_names hi.plain, hcontents hi]
  rw [hrun, hdisk]

/-- An archive that does not lie in the store stays as it is. -/
theorem read_load {c : Bytes} (hvacant : s.Vacant start.disk) (hworked : s.Worked start h)
    (hout : ∀ names, h.disk.placeOf path ≠ h.disk.placeOf s.root ++ names) (hread : h.disk.read path = .ok c) :
    (load s path h).2.disk.read path = .ok c := by
  obtain ⟨f, hh, hf⟩ := hworked.holds hvacant
  rcases load_cases s path h with ⟨e, he⟩ | ⟨files, entries, -, -, he⟩ <;> rw [he]
  · exact hread
  · obtain ⟨g, hpassage, -⟩ := moves_loadEntries (fun _ hentry => hentry) hf h hh
    exact hpassage.read hout hread

end Again

/-- An archive of three entries, of which the first and the last have one config and spell one name in two ways, can be loaded
    twice into a store with an image whose name it takes. -/
theorem load_again_three :
    let s : Store := ⟨"/depot"⟩
    let start := besideThree ["alpine", "?"] ["localhost:5000/app:v1"] ["docker.io/alpine", "app"]
    let h := storeOld start
    s.Vacant start.disk ∧ s.Worked start h ∧ ∃ files entries,
      readFiles h.disk "/app.tar" = .ok files ∧ entriesOf files = .ok entries ∧ Unambiguous files entries ∧
        ∃ h', load s "/app.tar" h = (.ok [hexOf [], hexOf [2], hexOf []], h') ∧
          h'.disk.read "/app.tar" = h.disk.read "/app.tar" ∧ h'.troubles = [] ∧
          load s "/app.tar" h' = (.ok [hexOf [], hexOf [2], hexOf []], h') := by
  intro s start h
  have hlength : (Bytes.ofText (Document.compact
      (threeEntries ["alpine", "?"] ["localhost:5000/app:v1"] ["docker.io/alpine", "app"]))).length < 2 ^ 64 := by decide +kernel
  have hreadable : ∀ k ∈ namesOf ["alpine", "?"] ++ namesOf ["localhost:5000/app:v1"] ++ namesOf ["docker.io/alpine", "app"],
      (Reference.parse k).toOption.isSome := by decide +kernel
  have hsole : Unambiguous (threeMembers ["alpine", "?"] ["localhost:5000/app:v1"] ["docker.io/alpine", "app"]).reverse
      (threeEntries ["alpine", "?"] ["localhost:5000/app:v1"] ["docker.io/alpine", "app"]) := by
    unfold Unambiguous
    decide +kernel
  have hvacant : s.Vacant start.disk := vacant_besideThree
  have hworked : s.Worked start h := worked_storeOld start
  have hfiles := readFiles_threeMembers hlength
  have hread := read_threeMembers (a := ["alpine", "?"]) (b := ["localhost:5000/app:v1"]) (c := ["docker.io/alpine", "app"])
  obtain ⟨h', hload, hready⟩ := load_threeMembers hlength hreadable
  -- How the store was reached does not matter from here on.
  rw [show storeOld (besideThree ["alpine", "?"] ["localhost:5000/app:v1"] ["docker.io/alpine", "app"]) = h from rfl]
    at hfiles hread hload
  clear_value h
  have hout (names : List String) : h.disk.placeOf "/app.tar" ≠ h.disk.placeOf s.root ++ names := by
    show h.disk.placeOf "/app.tar" ≠ h.disk.placeOf "/depot" ++ names
    rw [show h.disk.placeOf "/app.tar" = ["app.tar"] from rfl, show h.disk.placeOf "/depot" = ["depot"] from rfl]
    simp
  have hkept := read_load hvacant hworked hout hread
  rw [show load s "/app.tar" h = _ from hload] at hkept
  have hsame : h'.disk.read "/app.tar" = h.disk.read "/app.tar" := hkept.trans hread.symm
  exact ⟨hvacant, hworked, _, _, hfiles, entriesOf_threeMembers, hsole, h', hload, hsame, hready.calm,
    load_again hvacant hworked hfiles entriesOf_threeMembers hsole hload hsame hready.calm⟩

end Archive
end Depot
