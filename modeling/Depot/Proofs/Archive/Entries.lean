import Depot.Archive.Reader
import Depot.Proofs.Archive.Loading
import Depot.Proofs.Dictionary
import Depot.Proofs.Store.Giving
import Depot.Proofs.Store.Steps

/-! Loading image after image. Of each, the layers are stored before the config and both before anything is known of the
    image; so wherever loading stops, the files of all images that are known are there, and nothing was written but what the
    archive has. If it does not stop, what is known of the images is what the archive says of the last with each id, and
    each name belongs to the last image that the archive gives it to. -/

namespace Depot
open Digest (hexOf)

namespace Store

/-! ### Files of an image -/

/-- The files of an image are there. -/
structure Contents.Backs (f : Contents) (m : Metadata) : Prop where
  config : (f (.config m.id)).isSome
  layers : ∀ digest ∈ m.layers, ∃ b, digest = Digest.ofBytes b ∧ (f (.layer (hexOf b))).isSome

namespace Contents.Backs
variable {f g : Contents} {m n : Metadata}

theorem mono (h : f.Backs m) (hconfig : ∀ id, (f (.config id)).isSome → (g (.config id)).isSome)
    (hlayer : ∀ hex, (f (.layer hex)).isSome → (g (.layer hex)).isSome) : g.Backs m where
  config := hconfig m.id h.config
  layers digest hmem := (h.layers digest hmem).imp fun b => And.imp_right (hlayer (hexOf b))

theorem put (h : f.Backs m) (i : Item) (c : Bytes) : (f.put i c).Backs m :=
  h.mono (fun id => there_put f i c (.config id)) fun hex => there_put f i c (.layer hex)

theorem congr (h : f.Backs m) (hid : n.id = m.id) (hlayers : n.layers = m.layers) : f.Backs n where
  config := hid ▸ h.config
  layers := hlayers ▸ h.layers

end Contents.Backs

theorem Contents.Regular.neat {f : Contents} (h : f.Regular) : f.Neat := ⟨h.toTidy, h.sound.holders⟩

end Store

namespace Archive

/-! ### Images of an archive -/

/-- An image of an archive: its config, its layers, bottom first, and the names that it gets. -/
structure Image where
  config : Bytes
  layers : List Bytes
  names : List String

/-- The id that the image is stored under. -/
def Image.id (x : Image) : String := hexOf x.config

/-- The short id that it is filed under. -/
def Image.shortId (x : Image) : String := String.ofList (x.id.toList.take 12)

/-- What is known of an image is what the archive says of it. -/
structure Image.Describes (x : Image) (m : Metadata) : Prop where
  id : m.id = x.id
  digest : m.digest = some ("sha256:" ++ x.id)
  layers : m.layers = x.layers.map Digest.ofBytes
  size : m.size = UInt64.ofNat (x.layers.map List.length).sum

/-- An entry of a manifest stands for an image: its files are found under their names, and its names are those of its tags
    that are references, spelled out. -/
structure Spells (files : Files) (entry : ArchiveEntry) (x : Image) : Prop where
  config : files.lookup entry.config = some x.config
  layers : List.Forall₂ (fun name data => files.lookup name = some data) entry.layers x.layers
  names : x.names = entry.repoTags.filterMap fun tag => (Reference.parse tag).toOption.map Reference.canonicalName

/-- The images that a name is given to, in order. -/
def takers (images : List Image) (name : String) : List String := (images.filter (name ∈ ·.names)).map Image.id

section Images
variable {f f' g g' : Store.Contents} {files : Files} {xs ys : List Image} {x : Image} {name : String} {tags : List String}

theorem Image.isImageId (x : Image) : Store.IsImageId x.id := Store.isImageId_hexOf x.config

theorem Spells.names_eq {entry : ArchiveEntry} (h : Spells files entry x) : x.names = namesOf entry.repoTags :=
  h.names.trans (namesOf_eq entry.repoTags).symm

theorem rightUnique_spells (files : Files) : Relator.RightUnique (Spells files) := by
  rintro entry ⟨config, layers, names⟩ ⟨config', layers', names'⟩ hx hy
  obtain rfl : config = config' := Option.some.inj (hx.config.symm.trans hy.config)
  obtain rfl : layers = layers' :=
    List.right_unique_forall₂' (fun _ _ _ h h' => Option.some.inj (h.symm.trans h')) hx.layers hy.layers
  obtain rfl : names = names' := hx.names.trans hy.names.symm
  rfl

theorem takers_singleton (x : Image) (name : String) : takers [x] name = if name ∈ x.names then [x.id] else [] := by
  unfold takers
  by_cases hname : name ∈ x.names <;> simp [hname]

/-- A name that an image gets is its own canonical name, if it can be read again. -/
theorem canonicalName_of_mem_namesOf (hname : name ∈ namesOf tags) {r : Reference} (hparse : Reference.parse name = .ok r) :
    r.canonicalName = name := by
  obtain ⟨tag, -, r', hread, rfl⟩ := mem_namesOf.mp hname
  exact (Reference.isGrammatical_of_parse hread).canonicalName_of_parse hparse

/-- Images have been stored one after the other. -/
structure Stored (f : Store.Contents) (images : List Image) (g : Store.Contents) : Prop where
  gave : f.Gave (takers images) g
  last : ∀ id x, (images.filter (·.id = id)).getLast? = some x → ∃ m, g.metadata id = .ok m ∧ x.Describes m
  other : ∀ id, IsName id → (∀ x ∈ images, x.id ≠ id) → g.bare id = f.bare id

namespace Stored

theorem nil (f : Store.Contents) : Stored f [] f := ⟨.refl f, nofun, fun _ _ _ => rfl⟩

theorem append (h : Stored f xs g) (h' : Stored g ys g') : Stored f (xs ++ ys) g' where
  gave := by
    have htakers : takers (xs ++ ys) = fun name => takers xs name ++ takers ys name := by
      funext name
      unfold takers
      rw [List.filter_append, List.map_append]
    exact htakers ▸ h.gave.trans h'.gave
  last id x hx := by
    rw [List.filter_append, List.getLast?_append] at hx
    cases hy : (ys.filter (·.id = id)).getLast? with
    | some y =>
      rw [hy] at hx
      cases hx
      exact h'.last id x hy
    | none =>
      -- None of the later images has the id, so what was known of it then has only got other names.
      rw [hy, Option.none_or] at hx
      have hid : x.id = id := by simpa using (List.mem_filter.mp (List.mem_of_getLast? hx)).2
      obtain ⟨m, hm, hdescribes⟩ := h.last id x hx
      have hothers : ∀ y ∈ ys, y.id ≠ id := by simpa using hy
      have hbare := h'.other id (hid ▸ x.isImageId.isName) hothers
      rw [Store.Contents.bare_of_ok hm] at hbare
      obtain ⟨tags, hm'⟩ := Store.Contents.exists_of_bare hbare
      exact ⟨_, hm', hdescribes.id, hdescribes.digest, hdescribes.layers, hdescribes.size⟩
  other id hid hothers := by
    rw [h'.other id hid fun y hy => hothers y (List.mem_append_right _ hy)]
    exact h.other id hid fun x hx => hothers x (List.mem_append_left _ hx)

/-- The end of storing an image. -/
theorem add {now : Instant} (hf : f.Neat) (hsame : f.Alike f') (hsame' : g'.Alike g)
    (hnames : ∀ name ∈ x.names, ∀ r, Reference.parse name = .ok r → r.canonicalName = name)
    (hok : f'.add x.id x.names (some (Digest.ofBytes x.config)) (x.layers.map Digest.ofBytes) (countedSize x.layers) now =
      (.ok (), g')) : Stored f [x] g := by
  have hf' := hf.alike hsame
  obtain ⟨hgave, hothers, tags, hm⟩ := Store.Contents.gave_add hf'.toTidy hf'.sound x.isImageId.isName
    x.isImageId.indexedId? hnames hok
  refine ⟨?_, fun id y hy => ?_, fun id hid hne => ?_⟩
  · have htakers : takers [x] = fun name => if name ∈ x.names then [x.id] else [] := funext (takers_singleton x)
    exact htakers ▸ hgave.alike hsame.symm hsame'
  · obtain ⟨hmem, hid⟩ := List.mem_filter.mp (List.mem_of_getLast? hy)
    obtain rfl := List.mem_singleton.mp hmem
    obtain rfl := of_decide_eq_true hid
    exact ⟨_, (hsame'.metadata_eq y.isImageId.isName).trans hm, rfl, rfl, rfl, countedSize_eq y.layers⟩
  · have hbare := hothers id fun heq => hne x List.mem_cons_self heq.symm
    unfold Store.Contents.bare at hbare ⊢
    rwa [hsame'.metadata_eq hid, ← hsame.metadata_eq hid]

end Stored

/-- Images have been stored one after the other, and their files are there. -/
structure Filed (f : Store.Contents) (images : List Image) (g : Store.Contents) : Prop extends Stored f images g where
  config : ∀ id, IsName id →
    g (.config id) = ((images.filter (·.id = id)).getLast?.map Image.config).or (f (.config id))
  layers : ∀ x ∈ images, ∀ b ∈ x.layers, (g (.layer (hexOf b))).isSome
  shortIds : g.index.shortIds = f.index.shortIds.insertAll (images.map fun x => (x.shortId, x.id))
  canonical : ∀ x ∈ images, ∀ k ∈ x.names, Store.IsCanonical k
  there : ∀ i, (f i).isSome → (g i).isSome

namespace Filed

theorem nil (f : Store.Contents) : Filed f [] f := ⟨.nil f, fun _ _ => rfl, by simp, rfl, by simp, fun _ => id⟩

theorem append (h : Filed f xs g) (h' : Filed g ys g') : Filed f (xs ++ ys) g' where
  toStored := h.toStored.append h'.toStored
  config id hid := by
    rw [h'.config id hid, h.config id hid, List.filter_append, List.getLast?_append, Option.map_or, Option.or_assoc]
  layers := List.forall_mem_append.mpr ⟨fun x hx b hb => h'.there _ (h.layers x hx b hb), h'.layers⟩
  shortIds := by
    rw [h'.shortIds, h.shortIds, List.map_append]
    exact (List.foldl_append ..).symm
  canonical := List.forall_mem_append.mpr ⟨h.canonical, h'.canonical⟩
  there i hi := h'.there i (h.there i hi)

/-- The end of storing an image with its files: when its layers are there, its config is stored, and then it is known. -/
theorem add {now : Instant} (hf : f.Neat) (hsame : f.Apart Store.Item.IsLayer f')
    (hlayers : ∀ b ∈ x.layers, (f' (.layer (hexOf b))).isSome) (hnames : x.names = namesOf tags)
    (hok : (f'.put (.config x.id) x.config).add x.id x.names (some (Digest.ofBytes x.config)) (x.layers.map Digest.ofBytes)
      (countedSize x.layers) now = (.ok (), g'))
    (hplain : ∀ i : Store.Item, i.Plain → g i = g' i) (hthere : ∀ i, (f i).isSome → (g i).isSome) : Filed f [x] g := by
  have hid := x.isImageId
  have halike := hsame.alike.trans (Store.Contents.alike_put (i := .config x.id) (by simp) (by simp) x.config)
  have hcanonical : ∀ name ∈ x.names, ∀ r, Reference.parse name = .ok r → r.canonicalName = name :=
    fun name hname r hparse => canonicalName_of_mem_namesOf (hnames ▸ hname) hparse
  -- Storing an image writes what is known of images and the index; the files are those from before.
  have hfiles := Store.Contents.apart_add (f'.put (.config x.id) x.config) x.id x.names (some (Digest.ofBytes x.config))
    (x.layers.map Digest.ofBytes) (countedSize x.layers) now
  have hindex := Store.Contents.shortIds_add (f := f'.put (.config x.id) x.config) hid.indexedId? x.names
    (some (Digest.ofBytes x.config)) (x.layers.map Digest.ofBytes) (countedSize x.layers) now
  have hreads := (hf.alike halike).reads_add hid.isName hid.indexedId? x.names (some (Digest.ofBytes x.config))
    (x.layers.map Digest.ofBytes) (countedSize x.layers) now
  rw [hok] at hfiles hindex hreads
  dsimp only at hfiles hindex hreads
  refine ⟨.add hf halike (.of_plain hplain) hcanonical hok, fun id hid' => ?_, ?_, ?_, ?_, hthere⟩
  · rw [hplain (.config id) hid', hfiles (.config id) nofun]
    by_cases heq : id = x.id
    · subst heq
      simp
    · rw [Store.Contents.put_of_ne (by simpa using heq), hsame (.config id) nofun]
      simp [Ne.symm heq]
  · refine List.forall_mem_singleton.mpr fun b hb => ?_
    rw [hplain (.layer (hexOf b)) (Store.isImageId_hexOf b).isName, hfiles (.layer (hexOf b)) nofun, Store.Contents.put_of_ne (by simp)]
    exact hlayers b hb
  · rw [(Store.Contents.Alike.of_plain hplain).index_eq, hindex, halike.index_eq]
    rfl
  · refine List.forall_mem_singleton.mpr fun name hname => ?_
    obtain ⟨r, hr⟩ := hreads.of_ok.2 name hname
    exact ⟨r, hr, hcanonical name hname r hr⟩

end Filed
end Images

/-! ### Loading -/

/-- What loading the images of an archive may do: make known images whose files are there, write what the archive has under
    the hashes of that, and give and take names that the archive gives. -/
def scope (files : Files) (entries : List ArchiveEntry) : Store.Scope where
  known := Store.Contents.Backs
  blobs b := ∃ name, files.lookup name = some b
  ids id := ∃ b, (∃ name, files.lookup name = some b) ∧ id = hexOf b
  names k := ∃ entry ∈ entries, k ∈ namesOf entry.repoTags
  hashed b hb := ⟨b, hb, rfl⟩

section Loading
variable {s : Store} {f : Store.Contents} {files : Files} {all entries : List ArchiveEntry} {entry : ArchiveEntry}

theorem member_ok {name : String} {data : Bytes} (h : member files name = .ok data) : files.lookup name = some data := by
  unfold member at h
  split at h
  · next hlookup => exact hlookup.trans (congrArg some (Except.ok.inj h))
  · cases h

/-- The layers that have been stored are there. -/
theorem moves_loadLayers (names : List String) : Store.Moves s (scope files all) f (loadLayers s files names) fun r g =>
    f.Apart Store.Item.IsLayer g ∧ ∀ p, r = .ok p → ∃ layers, List.Forall₂ (fun name data => files.lookup name = some data) names layers ∧
      p = (layers.map Digest.ofBytes, countedSize layers) ∧ ∀ b ∈ layers, (g (.layer (hexOf b))).isSome := by
  induction names generalizing f with
  | nil =>
    refine .still (fun _ => rfl) fun _ _ => ⟨.refl f, ?_⟩
    rintro _ ⟨⟩
    exact ⟨[], .nil, rfl, by simp⟩
  | cons name names ih =>
    rw [loadLayers_cons]
    cases hmember : member files name with
    | error e => exact .still (fun _ => rfl) fun _ _ => ⟨.refl f, fun _ h => nomatch h⟩
    | ok data =>
      have hdata := member_ok hmember
      rw [Act.ofExcept_ok_bind]
      refine (Store.moves_addLayer (A := scope files all) ⟨name, hdata⟩).bind (fun _ _ hsame => ⟨hsame.1, fun _ h => nomatch h⟩) ?_
      rintro digest g - ⟨hsame, hadded⟩
      obtain ⟨rfl, hthere⟩ := hadded digest rfl
      obtain ⟨c, hc⟩ := Option.isSome_iff_exists.mp hthere
      refine ih.bind (fun _ _ hrest => ⟨hsame.trans hrest.1, fun _ h => nomatch h⟩) ?_
      rintro p g' hsteps ⟨hsame', hrest⟩
      refine .still (fun _ => rfl) fun _ _ => ⟨hsame.trans hsame', ?_⟩
      rintro _ ⟨⟩
      obtain ⟨layers, hfound, rfl, hlayers⟩ := hrest p rfl
      exact ⟨data :: layers, .cons hdata hfound, rfl,
        List.forall_mem_cons.mpr ⟨by rw [hsteps.layer_kept hc]; rfl, hlayers⟩⟩

/-- An entry of a manifest makes an image known only when its files are there. -/
theorem moves_loadEntry (hentry : entry ∈ all) (hf : f.Regular) :
    Store.Moves s (scope files all) f (loadEntry s files entry) fun r g =>
      ∀ id, r = .ok id → ∃ x, Spells files entry x ∧ id = x.id ∧ Filed f [x] g := by
  show Store.Moves s _ f (Act.ofExcept (member files entry.config) >>= fun config =>
    loadLayers s files entry.layers >>= fun p => s.saveConfig (hexOf config) config >>= fun _ =>
      s.add (hexOf config) (namesOf entry.repoTags) (some (Digest.ofBytes config)) p.1 p.2 >>= fun _ => pure (hexOf config)) _
  cases hmember : member files entry.config with
  | error e => exact .still (fun _ => rfl) fun _ _ _ h => nomatch h
  | ok config =>
    have hconfig := member_ok hmember
    have hid := Store.isImageId_hexOf config
    rw [Act.ofExcept_ok_bind]
    -- The layers come first, then the config, and only then is the image known.
    refine (moves_loadLayers entry.layers).bind (fun _ _ _ _ h => nomatch h) fun p g hsteps hlayers => ?_
    obtain ⟨hsame, hlayers⟩ := hlayers
    obtain ⟨layers, hfound, rfl, hthere⟩ := hlayers p rfl
    refine (Store.moves_saveConfig (A := scope files all) ⟨entry.config, hconfig⟩).bind (fun _ _ _ _ h => nomatch h) fun _ g' hsteps' hmade => ?_
    obtain rfl : g' = g.put (.config (hexOf config)) config := by
      rcases hmade with ⟨-, hg⟩ | ⟨⟨e, he⟩, -⟩
      · exact hg
      · cases he
    have hbacks (now : Instant) : Store.Contents.Backs (g.put (.config (hexOf config)) config)
        (Store.Contents.described (g.put (.config (hexOf config)) config) (hexOf config) (some (Digest.ofBytes config))
          (layers.map Digest.ofBytes) (countedSize layers) now) := by
      refine ⟨?_, fun digest hmem => ?_⟩
      · show (g.put (.config (hexOf config)) config (.config (hexOf config))).isSome
        rw [Store.Contents.put_self]
        rfl
      · obtain ⟨b, hb, rfl⟩ := List.mem_map.mp hmem
        exact ⟨b, rfl, by rw [Store.Contents.put_of_ne (by simp)]; exact hthere b hb⟩
    have hnames : ∀ name ∈ namesOf entry.repoTags, ∀ r, Reference.parse name = .ok r → r.canonicalName = name :=
      fun name hname r hparse => canonicalName_of_mem_namesOf hname hparse
    have hclaimed : ∀ name ∈ namesOf entry.repoTags, ∀ r, Reference.parse name = .ok r →
        (scope files all).names r.canonicalName :=
      fun name hname r hparse => ⟨entry, hentry, (hnames name hname r hparse).symm ▸ hname⟩
    have hregular := (hf.steps hsteps).steps hsteps'
    have hadd := Store.moves_add (s := s) (A := scope files all) hclaimed hregular hid.isHexId ⟨config, ⟨entry.config, hconfig⟩, rfl⟩ fun now =>
      ⟨hbacks now, (hbacks now).put _ _⟩
    refine (hadd.turning (Store.turns_add hregular.sound hid.isFileName _ _ _ _)).bind (fun _ _ _ _ h => nomatch h) ?_
    rintro _ g'' hsteps'' ⟨-, hturned⟩
    refine .still (fun _ => rfl) fun _ _ => ?_
    rintro _ ⟨⟩
    obtain ⟨g₁, ⟨now, hresult⟩, hplain⟩ := hturned () rfl
    exact ⟨⟨config, layers, namesOf entry.repoTags⟩, ⟨hconfig, hfound, namesOf_eq entry.repoTags⟩, rfl,
      .add hf.neat hsame hthere rfl hresult.symm hplain fun _ => Store.Steps.there ((hsteps.trans hsteps').trans hsteps'')⟩

theorem moves_loadEntries (hsub : ∀ entry ∈ entries, entry ∈ all) (hf : f.Regular) :
    Store.Moves s (scope files all) f (loadEntries s files entries) fun r g =>
      ∀ ids, r = .ok ids → ∃ images, List.Forall₂ (Spells files) entries images ∧ ids = images.map Image.id ∧
        Filed f images g := by
  induction entries generalizing f with
  | nil =>
    refine .still (fun _ => rfl) fun _ _ => ?_
    rintro _ ⟨⟩
    exact ⟨[], .nil, rfl, .nil f⟩
  | cons entry entries ih =>
    obtain ⟨hentry, hrest⟩ := List.forall_mem_cons.mp hsub
    show Store.Moves s _ f (loadEntry s files entry >>= fun id => loadEntries s files entries >>= fun ids =>
      pure (id :: ids)) _
    refine (moves_loadEntry hentry hf).bind (fun _ _ _ _ h => nomatch h) fun id g hsteps hloaded => ?_
    refine (ih hrest (hf.steps hsteps)).bind (fun _ _ _ _ h => nomatch h) fun ids g' _ hloaded' => ?_
    refine .still (fun _ => rfl) fun _ _ => ?_
    rintro _ ⟨⟩
    obtain ⟨x, hx, rfl, hstored⟩ := hloaded id rfl
    obtain ⟨images, himages, rfl, hstored'⟩ := hloaded' ids rfl
    exact ⟨x :: images, .cons hx himages, rfl, hstored.append hstored'⟩

theorem load_eq {h : Host} {path : String} (hfiles : readFiles h.disk path = .ok files) (hentries : entriesOf files = .ok entries) :
    load s path h = loadEntries s files entries h := by
  unfold load
  rw [Act.bind_of_ok (x := Act.state) (s := h) rfl, hfiles, Act.ofExcept_ok_bind, hentries, Act.ofExcept_ok_bind]

/-- An archive that cannot be read changes nothing. -/
theorem load_cases (s : Store) (path : String) (h : Host) : (∃ e, load s path h = (.error e, h)) ∨
    ∃ files entries, readFiles h.disk path = .ok files ∧ entriesOf files = .ok entries ∧
      load s path h = loadEntries s files entries h := by
  unfold load
  rw [Act.bind_of_ok (x := Act.state) (s := h) rfl]
  cases readFiles h.disk path with
  | error e => exact Or.inl ⟨e, rfl⟩
  | ok files =>
    rw [Act.ofExcept_ok_bind]
    cases hentries : entriesOf files with
    | error e => exact Or.inl ⟨e, rfl⟩
    | ok entries => exact Or.inr ⟨files, entries, rfl, hentries, rfl⟩

end Loading
end Archive
end Depot
