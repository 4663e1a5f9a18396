import Depot.Proofs.Dictionary
import Depot.Proofs.Disk.Parents
import Depot.Proofs.Store.Agreement
import Depot.Proofs.Store.Filing
import Depot.Proofs.Store.Order

/-! Doing again what was done. Where an image is in the store with its files and holds its names, storing and naming it again
    writes only files that are there. So a disk without troubles refuses nothing, and of the surroundings nothing changes
    but the contents of these files; the names of images stay as they are, and so does the order of each list. -/

namespace Depot.Store

/-- The place belongs to a file of the store. -/
def IsPlace (s : Store) (d : Disk) (p : Place) : Prop := ∃ i : Item, i.Hashed ∧ p = d.placeOf s.root ++ i.names

/-- Where the store holds the contents `f` and no troubles await, `x` ends with `a` and with contents that `P` holds of, and
    all that has changed is what is in files of the store. -/
def Redoes {α : Type} (s : Store) (f : Contents) (x : Act Host α) (a : α) (P : Contents → Prop) : Prop :=
  ∀ h, s.Holds h.disk f → h.troubles = [] → ∃ d g, x h = (.ok a, { h with disk := d }) ∧ s.Holds d g ∧ P g ∧
    Disk.Refills (s.IsPlace h.disk) h.disk d

section Redoing
variable {α β : Type} {s : Store} {f : Contents} {x : Act Host α} {k : α → Act Host β} {a : α} {b : β} {h : Host}
variable {P : Contents → Prop} {Q : Contents → Prop} {i : Item} {d : Disk} {id : String} {m : Metadata}

namespace Redoes

theorem pure (a : α) (hp : P f) : Redoes s f (pure a) a P := fun h hh _ => ⟨h.disk, f, rfl, hh, hp, .refl _ _⟩

theorem mono {P' : Contents → Prop} (hx : Redoes s f x a P) (hP : ∀ g, P g → P' g) : Redoes s f x a P' := fun h hh hcalm => by
  obtain ⟨d, g, hxh, hg, hp, hrefills⟩ := hx h hh hcalm
  exact ⟨d, g, hxh, hg, hP g hp, hrefills⟩

theorem bind (hx : Redoes s f x a P) (hk : ∀ g, P g → Redoes s g (k a) b Q) : Redoes s f (x >>= k) b Q := fun h hh hcalm => by
  obtain ⟨d, g, hxh, hg, hp, hrefills⟩ := hx h hh hcalm
  obtain ⟨d', g', hkh, hg', hq, hrefills'⟩ := hk g hp { h with disk := d } hg hcalm
  have hplaces : s.IsPlace d = s.IsPlace h.disk := by
    unfold IsPlace
    rw [hrefills.placeOf]
  exact ⟨d', g', (Act.bind_of_ok hxh).trans hkh, hg', hq, hrefills.trans (hplaces ▸ hrefills')⟩

/-- A computation that begins by looking at its surroundings. -/
theorem state {k : Host → Act Host β} (hk : ∀ h, s.Holds h.disk f → Redoes s f (k h) b Q) :
    Redoes s f (Act.state >>= k) b Q := fun h hh hcalm => hk h hh h hh hcalm

end Redoes

/-! ### Files that are there -/

theorem redoes_write (hi : i.Hashed) (hthere : (f i).isSome) (c : Bytes) :
    Redoes s f (Host.write (s.file i) c) () (· = f.put i c) := fun h hh hcalm => by
  obtain ⟨old, hold⟩ := Option.isSome_iff_exists.mp hthere
  have hread := ((hh.shows i hi.plain).2 old).mpr hold
  obtain ⟨hreaches, -, hnode⟩ := Disk.read_ok_iff.mp hread
  have hwrite := write_file hreaches (by simp [hnode]) c
  have hplace := placeOf_file (s := s) (d := h.disk) hi.plain
  refine ⟨_, _, (Host.alter_of_calm hcalm hwrite).trans (congrArg _ (Host.withDisk_of_calm hcalm _)), hh.write hi hwrite, rfl, ?_⟩
  exact Disk.refills_put (hplace ▸ append_names_ne_nil i) (by simp [hnode]) ⟨i, hi, hplace⟩ _

/-- The folder of an image need not be made where its config is. -/
theorem redoes_makeFolders (hid : IsHexId id) (hthere : (f (.config id)).isSome) :
    Redoes s f (Host.makeFolders (s.imageFolder id)) () (· = f) := fun h hh hcalm => by
  obtain ⟨c, hc⟩ := Option.isSome_iff_exists.mp hthere
  have hread : h.disk.read (s.configFile id) = .ok c := ((hh.shows (.config id) hid.isName).2 c).mpr hc
  have hreaches : h.disk.Reaches (Path.join (s.imageFolder id) "config.json") := (Disk.read_ok_iff.mp hread).1
  have hfolder : h.disk.isFolder (s.imageFolder id) = true :=
    Disk.isFolder_of_reaches (Disk.reaches_of_reaches_join (Disk.join_ne_nil hid.isName) (by decide) hreaches)
      (Disk.leads_of_reaches_join (by decide) hreaches).1.folder
  have hmade := Host.alterPartly_of_calm hcalm (·.makeFolders (s.imageFolder id))
  rw [Disk.makeFolders_of_isFolder hfolder] at hmade
  exact ⟨h.disk, f, hmade.trans (congrArg _ (Host.withDisk_of_calm hcalm _)), hh, rfl, .refl _ _⟩

theorem redoes_addLayer {data : Bytes} (hthere : (f (.layer (Digest.hexOf data))).isSome) :
    Redoes s f (s.addLayer data) (Digest.ofBytes data) (· = f) := by
  unfold addLayer
  refine .state fun h hh => ?_
  have hlayer : s.hasLayer h.disk (Digest.hexOf data) = true := by
    unfold hasLayer
    rw [encoded_hexOf]
    exact (hh.exists?_iff (i := .layer (Digest.hexOf data)) (isImageId_hexOf data).isName).trans hthere
  dsimp only
  rw [hlayer]
  exact .pure _ rfl

theorem redoes_saveConfig (hid : IsHexId id) (hthere : (f (.config id)).isSome) (c : Bytes) :
    Redoes s f (s.saveConfig id c) () (· = f.put (.config id) c) := by
  unfold saveConfig
  refine (redoes_makeFolders hid hthere).bind ?_
  rintro _ rfl
  exact redoes_write (i := .config id) hid hthere c

/-! ### Names that are held -/

namespace Contents

/-- The image has the name, in the index and on its list. -/
structure Has (f : Contents) (id name : String) : Prop where
  index : f.index.tags.get? name = some id
  lists : f.Lists id name

theorem Indexed.eq_pretty (h : f.Indexed) : f .index = some (Bytes.ofText (Document.pretty f.index)) := by
  obtain ⟨x, hx⟩ := h
  rw [index_of_some hx, hx]

theorem Indexed.isSome (h : f.Indexed) : (f .index).isSome := by
  rw [h.eq_pretty]
  rfl

/-- The index can be written again. -/
theorem Indexed.setIndex_self (h : f.Indexed) : f.setIndex f.index = f := by
  funext i
  by_cases hi : i = .index
  · rw [hi, Contents.setIndex, put_self, h.eq_pretty]
  · exact put_of_ne hi

end Contents

/-- An image that has a name is given it without a change. -/
theorem redoes_tag {r : Reference} (hid : IsHexId id) (hf : f.Indexed) (hhas : f.Has id r.canonicalName) :
    Redoes s f (s.tag id r) () (· = f) := by
  obtain ⟨hholder, m, hm, hlisted⟩ := hhas
  have hsame : f.setIndex { f.index with tags := f.index.tags.insert r.canonicalName id } = f := by
    rw [Dictionary.insert_of_get? hholder]
    exact hf.setIndex_self
  refine .state fun h hh => ?_
  dsimp only
  -- The holder of the name is the image itself, so nobody else has to give it up.
  rw [hh.shows.indexOrEmpty, hholder]
  dsimp only
  rw [if_neg (by simp)]
  refine .state fun h' hh' => ?_
  rw [hh'.shows.metadata hid.isName, hm, Act.ofExcept_ok_bind]
  unfold claimName
  rw [if_pos hlisted]
  exact (redoes_write (i := .index) trivial hf.isSome _).mono fun g hg => hg.trans hsame

theorem redoes_tagAll {names : List String} (hid : IsHexId id) (hf : f.Indexed)
    (hnames : ∀ k ∈ names, IsCanonical k ∧ f.Has id k) : Redoes s f (s.tagAll id names) () (· = f) := by
  induction names with
  | nil => exact .pure () rfl
  | cons name names ih =>
    obtain ⟨⟨⟨r, hparse, hname⟩, hhas⟩, hrest⟩ := List.forall_mem_cons.mp hnames
    show Redoes s f (Act.ofExcept ((Reference.parse name).mapError .reference) >>= fun r => s.tag id r >>= fun _ =>
      s.tagAll id names) _ _
    rw [hparse, show (Except.ok r : Except ReferenceError Reference).mapError Error.reference = .ok r from rfl,
      Act.ofExcept_ok_bind]
    refine (redoes_tag hid hf (hname ▸ hhas)).bind ?_
    rintro _ rfl
    exact ih hrest

/-- An image that is known with all of its names is stored again, and keeps its names and the time at which it was first
    stored. -/
theorem redoes_add {names layers : List String} {digest : Option String} {size : UInt64} {short : String} (hid : IsHexId id)
    (hshort : indexedId? id = some short) (hconfig : (f (.config id)).isSome) (hm : f.metadata id = .ok m) (hf : f.Indexed)
    (hnames : ∀ k ∈ names, IsCanonical k ∧ f.Has id k) : Redoes s f (s.add id names digest layers size) ()
      (· = f.filed ⟨id, m.repoTags, digest, m.created, size, layers⟩ short) := by
  have hthere := Contents.isSome_of_metadata hm
  have hdescribed : f.described id digest layers size m.created = ⟨id, m.repoTags, digest, m.created, size, layers⟩ := by
    unfold Contents.described
    rw [hm]
    rfl
  generalize hm' : (⟨id, m.repoTags, digest, m.created, size, layers⟩ : Metadata) = m' at hdescribed
  have hsaved : Redoes s f (s.saveMetadata m') () (· = f.setMetadata m') := by
    subst hm'
    exact redoes_write (i := .metadata id) hid hthere _
  have hfiled : Redoes s (f.setMetadata m') (s.saveIndex { f.index with shortIds := f.index.shortIds.insert short id }) ()
      (· = f.filed m' short) := by
    subst hm'
    exact redoes_write (i := .index) trivial (Contents.there_put _ _ _ .index hf.isSome) _
  have hnamed : Redoes s (f.filed m' short) (s.tagAll id names) () (· = f.filed m' short) := by
    refine redoes_tagAll hid (Contents.indexed_setIndex _ _) fun k hk => ?_
    obtain ⟨hcanonical, hhas⟩ := hnames k hk
    refine ⟨hcanonical, ?_, ?_⟩
    · rw [Contents.index_filed]
      exact hhas.index
    · rw [← hdescribed, Contents.lists_filed]
      exact hhas.lists
  -- The image is known, so it keeps its time and the clock is not asked.
  unfold Store.add
  refine (redoes_makeFolders hid hconfig).bind ?_
  rintro f rfl
  refine .state fun h hh => ?_
  dsimp only
  rw [hh.shows.metadata hid.isName, hm]
  refine Redoes.bind (x := (pure m.created : Act Host Instant)) (P := (· = f)) (.pure _ rfl) ?_
  rintro f rfl
  subst hm'
  refine hsaved.bind ?_
  rintro _ rfl
  refine .state fun h' hh' => ?_
  rw [hshort, hh'.shows.indexOrEmpty]
  refine hfiled.bind ?_
  rintro _ rfl
  exact hnamed

/-! ### What is retained -/

namespace Contents
variable {g f' : Contents}

/-- The same files are there with the same layers, and the images that are known have the same names and were first stored
    at the same time. -/
structure Retains (f g : Contents) : Prop where
  there : ∀ i, (g i).isSome = (f i).isSome
  layers : ∀ hex, g (.layer hex) = f (.layer hex)
  indexed : f.Indexed → g.Indexed
  tags : g.index.tags = f.index.tags
  known : ∀ id m, f.metadata id = .ok m → ∃ m', g.metadata id = .ok m' ∧ m'.repoTags = m.repoTags ∧ m'.created = m.created

namespace Retains

theorem refl (f : Contents) : f.Retains f := ⟨fun _ => rfl, fun _ => rfl, id, rfl, fun _ m hm => ⟨m, hm, rfl, rfl⟩⟩

theorem trans (h : f.Retains g) (h' : g.Retains f') : f.Retains f' where
  there i := (h'.there i).trans (h.there i)
  layers hex := (h'.layers hex).trans (h.layers hex)
  indexed := h'.indexed ∘ h.indexed
  tags := h'.tags.trans h.tags
  known id m hm := by
    obtain ⟨m', hm', htags, hcreated⟩ := h.known id m hm
    obtain ⟨m'', hm'', htags', hcreated'⟩ := h'.known id m' hm'
    exact ⟨m'', hm'', htags'.trans htags, hcreated'.trans hcreated⟩

/-- Storing a config again. -/
theorem putConfig (hthere : (f (.config id)).isSome) (c : Bytes) : f.Retains (f.put (.config id) c) where
  there := isSome_put hthere c
  layers _ := rfl
  indexed h := h
  tags := rfl
  known _ m hm := ⟨m, hm, rfl, rfl⟩

/-- Storing an image again. -/
theorem filed (hf : f.Indexed) (hm : f.metadata id = .ok m) (digest : Option String) (layers : List String) (size : UInt64)
    (short : String) : f.Retains (f.filed ⟨id, m.repoTags, digest, m.created, size, layers⟩ short) where
  there i := by
    have hthere := isSome_put (isSome_of_metadata hm)
    exact (isSome_put ((hthere _ .index).trans hf.isSome) _ i).trans (hthere _ i)
  layers _ := rfl
  indexed _ := indexed_setIndex _ _
  tags := by rw [index_filed]
  known i n hn := by
    rw [metadata_filed]
    split
    · next heq =>
      obtain rfl : i = id := heq
      obtain rfl := Except.ok.inj (hm.symm.trans hn)
      exact ⟨_, rfl, rfl, rfl⟩
    · exact ⟨n, hn, rfl, rfl⟩

theorem has {name : String} (h : f.Retains g) (hhas : f.Has id name) : g.Has id name := by
  obtain ⟨m, hm, hname⟩ := hhas.lists
  obtain ⟨m', hm', htags, -⟩ := h.known id m hm
  exact ⟨h.tags ▸ hhas.index, m', hm', htags ▸ hname⟩

end Retains
end Contents
end Redoing
end Depot.Store
