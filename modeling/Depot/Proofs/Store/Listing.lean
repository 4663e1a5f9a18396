import Depot.Proofs.Listing
import Depot.Proofs.Store.Finding
import Depot.Proofs.Store.Order

/-! The listing of a store shows its index. After every run of calls that the disk does not refuse, the rows are the names
    in the index, each under its image, and one row more for every image without a name: nothing is missing, nothing is
    shown twice. Rows are made from what is known of images, not from the index, so that both agree matters here, and that
    the folders of the images are there once each. -/

namespace Depot
namespace Store
variable {s : Store} {d d' : Disk} {f : Contents} {m : Metadata} {start h : Host} {id : String} {p : Place} {n : Node}

/-! ### Images -/

/-- There is a way to the folder of the images where anything is known of one. -/
theorem reaches_of_metadata (hid : IsName id) (hm : s.metadata d id = .ok m) :
    d.Reaches s.imagesFolder ∧ d.node? (d.placeOf s.imagesFolder ++ [id]) = some .folder := by
  obtain ⟨c, hread, -⟩ := metadata_ok_iff.mp hm
  have hreaches : d.Reaches (Path.join (s.imageFolder id) "metadata.json") := (Disk.read_ok_iff.mp hread).1
  have hfolder := (Disk.leads_of_reaches_join (by decide) hreaches).1.folder
  rw [imageFolder, Disk.placeOf_join d _ hid] at hfolder
  have himage := Disk.reaches_of_reaches_join (Disk.join_ne_nil hid) (by decide) hreaches
  exact ⟨Disk.reaches_of_reaches_join (Disk.join_ne_nil (by decide)) hid himage, hfolder⟩

/-- The metadata that is found in a folder of the images. -/
def found? (s : Store) (d : Disk) (e : String × Node) : Option Metadata :=
  if e.2 = .folder then (s.metadata d e.1).toOption else none

theorem found?_eq_some_iff {e : String × Node} : s.found? d e = some m ↔ e.2 = .folder ∧ s.metadata d e.1 = .ok m := by
  unfold found?
  split
  · next hfolder => cases s.metadata d e.1 <;> simp [hfolder, Except.toOption]
  · next hfolder => simp [hfolder]

/-- All metadata that is found. -/
def found (s : Store) (d : Disk) : List Metadata := (d.inside (d.placeOf s.imagesFolder)).filterMap (s.found? d)

theorem mem_found_iff (hnamed : ∀ x ∈ d.names (d.placeOf s.imagesFolder), IsName x) :
    m ∈ s.found d ↔ ∃ id, IsName id ∧ s.metadata d id = .ok m := by
  unfold found
  rw [List.mem_filterMap]
  constructor
  · rintro ⟨⟨x, n⟩, hmem, hfound⟩
    exact ⟨x, hnamed x (List.mem_map_of_mem hmem), (found?_eq_some_iff.mp hfound).2⟩
  · rintro ⟨id, hid, hm⟩
    exact ⟨(id, .folder), Disk.mem_inside_of_node? (reaches_of_metadata hid hm).2, found?_eq_some_iff.mpr ⟨rfl, hm⟩⟩

/-- What is listed is what is found, the latest first. -/
theorem list_eq (hfolder : d.node? (d.placeOf s.imagesFolder) = some .folder)
    (hnamed : ∀ x ∈ d.names (d.placeOf s.imagesFolder), IsName x) :
    s.list d = .ok ((s.found d).mergeSort fun a b => b.created.le a.created) := by
  unfold Store.list
  by_cases hreaches : d.Reaches s.imagesFolder
  · have hfind := Disk.find_folder hreaches hfolder
    have hexists : d.exists? s.imagesFolder = true := by
      unfold Disk.exists?
      rw [hfind]
    rw [if_pos hexists]
    unfold Disk.list
    rw [hfind]
    rfl
  · -- The disk takes no path to the images, so none to what is known of one.
    have hexists : ¬d.exists? s.imagesFolder = true := by
      unfold Disk.exists?
      intro hexists
      split at hexists
      · next hfind => exact hreaches (Disk.find_ok hfind).1
      · cases hexists
    have hnone : s.found d = [] := by
      rw [List.eq_nil_iff_forall_not_mem]
      intro m hm
      obtain ⟨id, hid, hm⟩ := (mem_found_iff hnamed).mp hm
      exact hreaches (reaches_of_metadata hid hm).1
    rw [if_neg hexists, hnone, List.mergeSort_nil]

/-- The folders of the images are there once each, and have hexadecimal ids for names. -/
structure Shelved (s : Store) (d : Disk) : Prop where
  leads : d.Leads s.imagesFolder
  hex : ∀ x ∈ d.names (d.placeOf s.imagesFolder), IsHexId x
  nodup : (d.names (d.placeOf s.imagesFolder)).Nodup

namespace Shelved

theorem named (h : s.Shelved d) : ∀ x ∈ d.names (d.placeOf s.imagesFolder), IsName x := fun x hx => (h.hex x hx).isName

theorem put (h : s.Shelved d) (hp : p ≠ []) (hnode : d.node? p ≠ some .folder)
    (hhex : ∀ x, p = d.placeOf s.imagesFolder ++ [x] → IsHexId x) (n : Node) : s.Shelved (d.put p n) := by
  have hkept := Disk.kept_put hp hnode n
  have hleads := h.leads.kept hkept
  rcases d.names_put p (d.placeOf s.imagesFolder) n with hsame | ⟨x, hx, hnew, hmore⟩
  · refine ⟨hleads, ?_, ?_⟩ <;> rw [hkept.placeOf, hsame]
    · exact h.hex
    · exact h.nodup
  · refine ⟨hleads, ?_, ?_⟩ <;> rw [hkept.placeOf, hmore]
    · rw [List.forall_mem_append]
      refine ⟨h.hex, fun y hy => ?_⟩
      rw [List.mem_singleton.mp hy]
      exact hhex x hx
    · exact Contents.nodup_concat h.nodup hnew

theorem makeFolders (h : s.Shelved d) (hid : IsHexId id) : s.Shelved (d.makeFolders (s.imageFolder id)).2 := by
  rcases Disk.makeFolders_cases h.leads hid.isName with hsame | ⟨hnone, hput⟩
  · rwa [imageFolder, hsame]
  · have hplace : d.placeOf (Path.join s.imagesFolder id) = d.placeOf s.imagesFolder ++ [id] := Disk.placeOf_join d _ hid.isName
    rw [imageFolder, hput]
    refine h.put ?_ ?_ ?_ _
    · simp [hplace]
    · simp [hnone]
    · intro x hx
      rw [hplace] at hx
      rwa [← (List.append_singleton_inj.mp hx).2]

/-- No file of the store is among the folders of the images. -/
theorem write {i : Item} {c : Bytes} (h : s.Shelved d) (hi : i.Plain) (hwrite : d.write (s.file i) c = .ok d') : s.Shelved d' := by
  obtain ⟨hne, hnode, rfl⟩ := Disk.eq_put_of_write hwrite
  refine h.put hne hnode (fun x hx => absurd hx ?_) _
  rw [placeOf_file hi, placeOf_imagesFolder, List.append_assoc]
  intro heq
  have hnames := List.append_cancel_left heq
  cases i <;> simp [Item.names] at hnames

theorem hex_of_metadata (h : s.Shelved d) (hid : IsName id) (hm : s.metadata d id = .ok m) : IsHexId id :=
  h.hex id (Disk.mem_names_iff.mpr ⟨_, (reaches_of_metadata hid hm).2⟩)

/-- No two images that are found have one id, if what is known of each bears the id. -/
theorem nodup_found (h : s.Shelved d) (hbears : ∀ id m, IsName id → s.metadata d id = .ok m → m.id = id) :
    ((s.found d).map Metadata.id).Nodup := by
  have hfolders : (d.inside (d.placeOf s.imagesFolder)).Pairwise fun e e' => IsName e.1 ∧ IsName e'.1 ∧ e.1 ≠ e'.1 := by
    refine (List.pairwise_map.mp h.nodup).imp_of_mem fun he he' hne => ?_
    exact ⟨h.named _ (List.mem_map_of_mem he), h.named _ (List.mem_map_of_mem he'), hne⟩
  refine List.pairwise_map.mpr (hfolders.filterMap _ ?_)
  rintro e e' ⟨he, he', hne⟩ m hm m' hm'
  rw [hbears _ _ he (found?_eq_some_iff.mp hm).2, hbears _ _ he' (found?_eq_some_iff.mp hm').2]
  exact hne

end Shelved

/-! ### Runs -/

/-- The name was made from a reference that was read. -/
def IsReadName (name : String) : Prop := ∃ text r, Reference.parse text = .ok r ∧ r.canonicalName = name

/-- A disk on which what is known of images bears their ids, the index has names that were read, and the folders of the
    images are in order. -/
structure Stocks (s : Store) (d : Disk) (f : Contents) : Prop extends s.Shelved d where
  shows : s.Shows d f
  bears : ∀ id m, IsName id → f.metadata id = .ok m → m.id = id
  index : f.index.Only IsReadName IsHexId

theorem Stocks.sound (h : s.Stocks d f) : f.Sound := ⟨h.bears, fun k id hk => (h.index k id hk).2.isName⟩

theorem Stocks.bears_id (h : s.Stocks d f) (hid : IsName id) (hm : s.metadata d id = .ok m) : m.id = id := by
  rw [h.shows.metadata hid] at hm
  exact h.bears id m hid hm

/-- What is found is what is known, under the id that it bears. -/
theorem Stocks.mem_found_iff (h : s.Stocks d f) : m ∈ s.found d ↔ IsHexId m.id ∧ s.metadata d m.id = .ok m := by
  rw [Store.mem_found_iff h.named]
  constructor
  · rintro ⟨id, hid, hm⟩
    obtain rfl := h.bears_id hid hm
    exact ⟨h.hex_of_metadata hid hm, hm⟩
  · rintro ⟨hid, hm⟩
    exact ⟨m.id, hid.isName, hm⟩

/-- Where the index agrees with what is known of the images, it makes up a catalogue with all that are found. -/
theorem Stocks.catalogue {g : Contents} {images : List Metadata} (h : s.Stocks d f) (hshows : s.Shows d g) (hagree : g.Agree)
    (hperm : images.Perm (s.found d)) : Listing.Catalogue images g.index where
  ids := (hperm.map Metadata.id).nodup_iff.mpr (h.nodup_found fun id m hid hm => h.bears_id hid hm)
  names := by
    intro m hm
    obtain ⟨hid, hm⟩ := h.mem_found_iff.mp (hperm.mem_iff.mp hm)
    rw [hshows.metadata hid.isName] at hm
    exact hagree.nodup m.id m hid.isName hm
  read := by
    intro k id hk
    rw [← hshows.indexOrEmpty, h.shows.indexOrEmpty] at hk
    exact (h.index k id hk).1
  listed := by
    intro k id
    rw [hagree.listed]
    constructor
    · rintro ⟨hid, m, hm, hk⟩
      obtain rfl := hagree.named id m hid hm
      rw [← hshows.metadata hid] at hm
      exact ⟨m, hperm.mem_iff.mpr (h.mem_found_iff.mpr ⟨h.hex_of_metadata hid hm, hm⟩), rfl, hk⟩
    · rintro ⟨m, hm, rfl, hk⟩
      obtain ⟨hid, hm⟩ := h.mem_found_iff.mp (hperm.mem_iff.mp hm)
      rw [hshows.metadata hid.isName] at hm
      exact ⟨hid.isName, m, hm, hk⟩

theorem invariant_stocks (s : Store) : s.Invariant IsReadName IsHexId fun d => ∃ f, s.Stocks d f where
  folder := by
    rintro d id ⟨f, h⟩ hid
    refine ⟨f, h.toShelved.makeFolders hid, ?_, h.bears, h.index⟩
    exact h.shows.kept (Disk.makeFolders_kept d _) fun _ _ => not_false
  metadata := by
    rintro d d' m ⟨f, h⟩ hid hwrite
    have hshows : s.Shows d' (f.setMetadata m) := h.shows.write (i := .metadata m.id) hid.isName hwrite
    exact ⟨_, h.toShelved.write (i := .metadata m.id) hid.isName hwrite, hshows, h.sound.setMetadata.named, h.index⟩
  index := by
    rintro d d' i ⟨f, h⟩ hi hwrite
    have hshows : s.Shows d' (f.setIndex i) := h.shows.write (i := .index) trivial hwrite
    have hsound := h.sound.setIndex fun k id hk => (hi k id hk).2.isName
    refine ⟨_, h.toShelved.write (i := .index) trivial hwrite, hshows, hsound.named, ?_⟩
    rwa [Contents.index_setIndex]
  known := by
    rintro d id m ⟨f, h⟩ hid hm
    rw [h.shows.metadata hid.isName] at hm
    rwa [h.bears id m hid.isName hm]
  indexed := by
    rintro d ⟨f, h⟩
    rw [h.shows.indexOrEmpty]
    exact h.index
  parsed text r hparse := ⟨text, r, hparse, rfl⟩

theorem Vacant.names_eq_nil (h : s.Vacant d) : d.names (d.placeOf s.imagesFolder) = [] := by
  rw [List.eq_nil_iff_forall_not_mem]
  intro x hx
  obtain ⟨n, hnode⟩ := Disk.mem_names_iff.mp hx
  rw [placeOf_imagesFolder, List.append_assoc] at hnode
  cases hnode.symm.trans (h.empty "images" x [] (Or.inl rfl))

theorem Vacant.stocks (h : s.Vacant d) : s.Stocks d fun _ => none where
  leads := h.holds.orderly.images
  hex x hx := by
    rw [h.names_eq_nil] at hx
    cases hx
  nodup := by
    rw [h.names_eq_nil]
    exact List.nodup_nil
  shows := h.holds.shows
  bears _ _ _ hm := nomatch hm
  index := Index.only_empty

/-- Images have hexadecimal ids, only an image that is stored is named, and names are read by the grammar. -/
def Call.Hex (s : Store) (d : Disk) : Call → Prop
  | add id .. => IsHexId id
  | tag id r => IsHexId id ∧ (∃ m, s.metadata d id = .ok m) ∧ ∃ text, Reference.parse text = .ok r
  | untag r => ∃ text, Reference.parse text = .ok r

/-- Such calls one after the other, whatever they end with but a refusal of the disk. -/
inductive Stocked (s : Store) (start : Host) : Host → Prop
  | start : Stocked s start start
  | call {h : Host} (c : Call) (hstocked : Stocked s start h) (hhex : c.Hex s h.disk)
      (hwrites : ∀ e, (c.run s h).1 ≠ .error (.disk e)) : Stocked s start (c.run s h).2

section Runs
variable {c : Call}

theorem Call.Hex.proper (h : c.Hex s d) : c.Proper s d := by
  cases c with
  | add id names digest layers size =>
    have hid : IsHexId id := h
    exact ⟨hid.isName, _, hid.indexedId?⟩
  | tag id r => exact ⟨h.1.isName, h.2.1⟩
  | untag r => trivial

theorem Call.Hex.of (h : c.Hex s d) : c.Of IsReadName IsHexId := by
  cases c with
  | add id names digest layers size => exact h
  | tag id r =>
    obtain ⟨hid, -, text, hparse⟩ := h
    exact ⟨hid, text, r, hparse, rfl⟩
  | untag r => trivial

theorem Stocked.kept (hempty : s.IsEmpty start.disk) (hstocked : s.Stocked start h) : Kept s start h := by
  induction hstocked with
  | start => exact Or.inl ⟨hempty, rfl⟩
  | call c _ hhex hwrites ih => exact kept_call ih hhex.proper hwrites

theorem Stocked.stocks (hvacant : s.Vacant start.disk) (hstocked : s.Stocked start h) : ∃ f, s.Stocks h.disk f := by
  induction hstocked with
  | start => exact ⟨_, hvacant.stocks⟩
  | call c _ hhex _ ih => exact (invariant_stocks s).keeps_call hhex.of _ ih

theorem Stocked.add {names : List String} (hstocked : s.Stocked start h) (hid : IsHexId id)
    (hok : (s.add id names none [] 0 h).1 = .ok ()) : s.Stocked start (s.add id names none [] 0 h).2 :=
  hstocked.call (.add id names none [] 0) hid (unrefused_of_ok hok)

theorem Stocked.tag {text : String} {r : Reference} (hstocked : s.Stocked start h) (hid : IsHexId id)
    (hknown : ∃ m, s.metadata h.disk id = .ok m) (hparse : Reference.parse text = .ok r) (hok : (s.tag id r h).1 = .ok ()) :
    s.Stocked start (s.tag id r h).2 :=
  hstocked.call (.tag id r) ⟨hid, hknown, text, hparse⟩ (unrefused_of_ok hok)

/-- After a run the images that are listed are those that are known, the latest first, and make up a catalogue with the
    index. -/
theorem Stocked.catalogue (hvacant : s.Vacant start.disk) (hstocked : s.Stocked start h) :
    ∃ images i, s.list h.disk = .ok images ∧ s.index h.disk = .ok i ∧ Listing.Catalogue images i ∧
      images.Pairwise (fun m n => n.created.le m.created = true) ∧
      (∀ m, m ∈ images ↔ IsHexId m.id ∧ s.metadata h.disk m.id = .ok m) ∧
      ∀ id m, IsHexId id → s.metadata h.disk id = .ok m → m.id = id := by
  obtain ⟨f, hstocks⟩ := hstocked.stocks hvacant
  obtain ⟨g, hshows, hagree, hindex⟩ := (hstocked.kept hvacant.isEmpty).shown
  have hperm := List.mergeSort_perm (s.found h.disk) fun m n => n.created.le m.created
  refine ⟨_, g.index, list_eq hstocks.leads.folder hstocks.named, hindex, hstocks.catalogue hshows hagree hperm,
    Instant.pairwise_latest _, fun m => ?_, fun id m hid hm => hstocks.bears_id hid.isName hm⟩
  rw [hperm.mem_iff, hstocks.mem_found_iff]

open Listing in
/-- After every run from a store without anything, the rows of the listing are the names in the index, each with its image
    and once, and one row for each image without a name. The images are there from the latest to the oldest, the rows of
    an image one after the other, and they follow its names. -/
theorem listing_shows_index (hvacant : s.Vacant start.disk) (hstocked : s.Stocked start h) :
    ∃ images i, s.list h.disk = .ok images ∧ s.index h.disk = .ok i ∧ ((rows images none).map Row.shown).Nodup ∧
      (∀ key, key ∈ (rows images none).map Row.shown ↔
        (∃ text r id, Reference.parse text = .ok r ∧ i.tags.get? r.canonicalName = some id ∧
          key = (r.name, r.effectiveTag, id)) ∨
        ∃ id m, IsHexId id ∧ s.metadata h.disk id = .ok m ∧ m.repoTags = [] ∧ key = (missing, missing, id)) ∧
      images.Pairwise (fun m n => n.created.le m.created = true) ∧
      (rows images none).map Row.image = images.flatMap (fun m => List.replicate (max 1 m.repoTags.length) m) ∧
      ∀ m ∈ images, m.repoTags ≠ [] →
        ((rows images none).filter fun row => row.image.id = m.id).map (fun row => row.repository ++ ":" ++ row.tag) =
          m.repoTags := by
  obtain ⟨images, i, hlist, hindex, hcatalogue, horder, hmem, hbears⟩ := hstocked.catalogue hvacant
  have hcanonical : ∀ m ∈ images, Listing.Canonical m := fun m hm => hcatalogue.canonical hm
  refine ⟨images, i, hlist, hindex, nodup_shown hcatalogue.ids hcatalogue.names hcanonical, fun key => ?_, horder,
    images_rows images, fun m hm hsome => spelled_rows hcatalogue.ids hm hsome (hcanonical m hm)⟩
  rw [hcatalogue.mem_shown_iff]
  refine or_congr_right ⟨?_, ?_⟩
  · rintro ⟨m, hm, hnone, rfl⟩
    obtain ⟨hid, hknown⟩ := (hmem m).mp hm
    exact ⟨m.id, m, hid, hknown, hnone, rfl⟩
  · rintro ⟨id, m, hid, hknown, hnone, rfl⟩
    obtain rfl := hbears id m hid hknown
    exact ⟨m, (hmem m).mpr ⟨hid, hknown⟩, hnone, rfl⟩

/-- Of three images one has a row with a port, one has a row with the name that the first one had too, and one has a row
    without a name. -/
theorem listing_shows_moved_name :
    let s : Store := ⟨"/depot"⟩
    let h := s.threeStored s.madeAt
    s.Vacant s.madeAt.disk ∧ s.Stocked s.madeAt h ∧ ∃ images, s.list h.disk = .ok images ∧
      ((Listing.rows images none).map Listing.Row.shown).Perm [("docker.io/library/app", "v1", repeatedId 'b'),
        ("localhost:5000/app", "v1", repeatedId 'a'), (Listing.missing, Listing.missing, repeatedId 'c')] := by
  intro s h
  have hparse : Reference.parse "app:v1" = .ok ⟨"docker.io", "library/app", some "v1", none⟩ := by rfl
  have hport : Reference.parse "localhost:5000/app:v1" = .ok ⟨"localhost:5000", "app", some "v1", none⟩ := by rfl
  have hfresh : s.Fresh s.madeAt := fresh_madeAt
  have hvacant : s.Vacant s.madeAt.disk := vacant_madeAt
  obtain ⟨hstocked, hknown, hheld⟩ := hfresh.threeStored (P := s.Stocked s.madeAt) .start
    (fun _ _ _ hid hstocked hok => hstocked.add hid.isHexId hok)
    fun _ _ hid hknown hstocked hok => hstocked.tag hid.isHexId hknown hparse hok
  -- How the store was reached does not matter from here on.
  rw [show s.threeStored s.madeAt = h from rfl] at hstocked hknown hheld
  clear_value h
  obtain ⟨images, i, hlist, hindex, hnodup, hrows, -⟩ := listing_shows_index hvacant hstocked
  have hkept := hstocked.kept hvacant.isEmpty
  rw [indexOrEmpty_of_ok hindex] at hheld
  have hnames {id k : String} {m : Metadata} (hid : IsName id) (hm : s.metadata h.disk id = .ok m) :
      k ∈ m.repoTags ↔ i.tags.get? k = some id := by simp [hkept.get?_tags_iff hindex hid, hm]
  refine ⟨hvacant, hstocked, images, hlist, (List.perm_ext_iff_of_nodup hnodup ?_).mpr fun key => ?_⟩
  · simp [Listing.missing]
  rw [hrows, List.mem_cons, List.mem_cons, List.mem_singleton]
  constructor
  · rintro (⟨text, r, id, hr, hid, rfl⟩ | ⟨id, m, hid, hm, hnone, rfl⟩)
    · have hgrammatical := Reference.isGrammatical_of_parse hr
      rcases (hheld _ _).mp hid with ⟨hname, rfl⟩ | ⟨hname, rfl⟩
      · obtain ⟨hname, htag⟩ := Listing.parts_of_canonicalName "docker.io/library/app" "v1" hgrammatical (by decide)
          hname
        exact Or.inl (by rw [hname, htag])
      · obtain ⟨hname, htag⟩ := Listing.parts_of_canonicalName "localhost:5000/app" "v1" hgrammatical (by decide) hname
        exact Or.inr (Or.inl (by rw [hname, htag]))
    · -- The first two of the images have names.
      have hnameless : ∀ k, i.tags.get? k ≠ some id := fun k => mt (hnames hid.isName hm).mpr (by simp [hnone])
      have hmem := (hknown id hid.isName).mp ⟨m, hm⟩
      simp only [List.map_cons, List.map_nil, List.mem_cons, List.not_mem_nil, or_false] at hmem
      rcases hmem with rfl | rfl | rfl
      · exact Or.inr (Or.inr rfl)
      · exact absurd ((hheld _ _).mpr (Or.inl ⟨rfl, rfl⟩)) (hnameless _)
      · exact absurd ((hheld _ _).mpr (Or.inr ⟨rfl, rfl⟩)) (hnameless _)
  · rintro (rfl | rfl | rfl)
    · exact Or.inl ⟨_, _, _, hparse, (hheld _ _).mpr (Or.inl ⟨rfl, rfl⟩), rfl⟩
    · exact Or.inl ⟨_, _, _, hport, (hheld _ _).mpr (Or.inr ⟨rfl, rfl⟩), rfl⟩
    · have hc : IsImageId (repeatedId 'c') := isImageId_repeatedId (by decide)
      have hcb := repeatedId_ne (c := 'c') (d := 'b') (by decide)
      have hca := repeatedId_ne (c := 'c') (d := 'a') (by decide)
      obtain ⟨m, hm⟩ := (hknown _ hc.isName).mpr List.mem_cons_self
      refine Or.inr ⟨_, m, hc.isHexId, hm, List.eq_nil_iff_forall_not_mem.mpr fun k hk => ?_, rfl⟩
      simpa [hcb, hca] using (hheld _ _).mp ((hnames hc.isName hm).mp hk)

end Runs
end Store
end Depot
