import Depot.Proofs.Host
import Depot.Proofs.Store.Contents
import Depot.Store.Update

/-! Stores that take what they are given. The folders of images and of layers are there, nothing is in the way of a
    folder or a file, and no path is too long; then whatever has a way to it can be written, folders for images and
    layers can be made, and this stays so. -/

namespace Depot.Store
variable {s : Store} {d d' : Disk} {h : Host} {i : Item} {x : String} {c : Bytes} {p : Place} {n : Node}

/-! ### Places of folders -/

theorem isFileName_images : Disk.IsFileName "images" := by decide

theorem isFileName_layers : Disk.IsFileName "layers" := by decide

theorem placeOf_imagesFolder : d.placeOf s.imagesFolder = d.placeOf s.root ++ ["images"] :=
  Disk.placeOf_join d s.root isFileName_images.toIsName

theorem placeOf_layersFolder : d.placeOf s.layersFolder = d.placeOf s.root ++ ["layers"] :=
  Disk.placeOf_join d s.root isFileName_layers.toIsName

theorem append_names_ne_nil (i : Item) : p ++ i.names ≠ [] := by cases i <;> simp [Item.names]

/-- A file to which there is a way is written, unless a folder is in its place. -/
theorem write_file (hreaches : d.Reaches (s.file i)) (hnode : d.node? (d.placeOf (s.file i)) ≠ some .folder) (c : Bytes) :
    d.write (s.file i) c = .ok (d.put (d.placeOf (s.file i)) (.file c)) := by
  have hjoin : ∃ base x, s.file i = Path.join base x ∧ IsName x := by
    cases i with
    | index => exact ⟨s.root, "images.json", rfl, by decide⟩
    | metadata id => exact ⟨s.imageFolder id, "metadata.json", rfl, by decide⟩
    | config id => exact ⟨s.imageFolder id, "config.json", rfl, by decide⟩
    | layer hex => exact ⟨s.layerFolder hex, "layer.tar", rfl, by decide⟩
  obtain ⟨base, x, hfile, hx⟩ := hjoin
  rw [hfile] at hreaches hnode ⊢
  exact Disk.write_join hx hreaches hnode c

/-! ### Room -/

/-- The store has its folders, and nothing is in the way of what belongs into them. -/
structure Roomy (s : Store) (d : Disk) : Prop where
  short : s.root.utf8ByteSize + 300 ≤ Disk.longestPath
  images : d.Reaches s.imagesFolder ∧ d.node? (d.placeOf s.imagesFolder) = some .folder
  layers : d.Reaches s.layersFolder ∧ d.node? (d.placeOf s.layersFolder) = some .folder
  file : ∀ i : Item, i.Plain → d.node? (d.placeOf (s.file i)) ≠ some .folder
  folder : ∀ folder x, folder = "images" ∨ folder = "layers" →
    ∀ c, d.node? (d.placeOf s.root ++ [folder, x]) ≠ some (.file c)

namespace Roomy

/-- There stays room when a folder is made or a file written where it belongs. -/
theorem put (hroom : s.Roomy d) (hp : p ≠ []) (hnew : d.node? p ≠ some .folder)
    (hn : (n = .folder ∧ ∃ folder x, p = d.placeOf s.root ++ [folder, x]) ∨
      (∃ c, n = .file c) ∧ ∃ i : Item, p = d.placeOf s.root ++ i.names) : s.Roomy (d.put p n) := by
  have hkept := Disk.kept_put hp hnew n
  -- No item has its file where a folder is made for one.
  have hnames (i : Item) (folder x : String) : i.names ≠ [folder, x] := by cases i <;> simp [Item.names]
  refine ⟨hroom.short, ⟨hkept.reaches hroom.images.1, ?_⟩, ⟨hkept.reaches hroom.layers.1, ?_⟩, fun i hi => ?_,
    fun folder x hfolder c => ?_⟩
  · rw [hkept.placeOf]
    exact hkept.folder _ hroom.images.2
  · rw [hkept.placeOf]
    exact hkept.folder _ hroom.layers.2
  · rw [hkept.placeOf, Disk.node?_put d hp]
    split
    · next heq =>
      rw [placeOf_file hi] at heq
      rcases hn with ⟨rfl, folder, x, rfl⟩ | ⟨⟨c, rfl⟩, -⟩
      · exact absurd (List.append_cancel_left heq) (hnames i folder x)
      · simp
    · exact hroom.file i hi
  · rw [hkept.placeOf, Disk.node?_put d hp]
    split
    · next heq =>
      rcases hn with ⟨rfl, -⟩ | ⟨-, i, rfl⟩
      · simp
      · exact absurd (List.append_cancel_left heq).symm (hnames i folder x)
    · exact hroom.folder folder x hfolder c

/-! ### Ways -/

theorem reaches_index (hroom : s.Roomy d) : d.Reaches s.indexFile := by
  refine (Disk.leads_of_reaches_join isFileName_images.toIsName hroom.images.1).1.reaches
    (by decide) ?_
  have hlength := Disk.utf8ByteSize_join_le s.root (x := "images.json") (by decide)
  have hshort := hroom.short
  rw [show "images.json".utf8ByteSize = 11 by decide] at hlength
  omega

theorem length_imagesFolder (s : Store) : s.imagesFolder.utf8ByteSize ≤ s.root.utf8ByteSize + 7 :=
  Disk.utf8ByteSize_join_le s.root (x := "images") (by decide)

theorem length_layersFolder (s : Store) : s.layersFolder.utf8ByteSize ≤ s.root.utf8ByteSize + 7 :=
  Disk.utf8ByteSize_join_le s.root (x := "layers") (by decide)

/-- In the two folders of the store a folder of any name can be made, and there is a way on from it. -/
theorem makeFolders {base folder : String} (hroom : s.Roomy d) (hx : Disk.IsFileName x)
    (hbase : d.Reaches base ∧ d.node? (d.placeOf base) = some .folder)
    (hplace : d.placeOf base = d.placeOf s.root ++ [folder]) (hfolder : folder = "images" ∨ folder = "layers")
    (hlength : base.utf8ByteSize ≤ s.root.utf8ByteSize + 7) :
    ∃ d', d.makeFolders (Path.join base x) = (.ok (), d') ∧ s.Roomy d' ∧
      ∀ y, Disk.IsFileName y → y.utf8ByteSize ≤ 20 → d'.Reaches (Path.join (Path.join base x) y) := by
  have hname : x.utf8ByteSize ≤ 255 := hx.short
  have hshort := hroom.short
  have hjoin := Disk.utf8ByteSize_join_le base hx.no_slash
  have hreaches : d.Reaches (Path.join base x) := (Disk.leads_of_reaches hbase.1 hbase.2).reaches hx (by omega)
  have hpath : d.placeOf (Path.join base x) = d.placeOf s.root ++ [folder, x] := by
    rw [Disk.placeOf_join d base hx.toIsName, hplace, List.append_assoc]
    rfl
  have hways {d' : Disk} (hr : d'.Reaches (Path.join base x)) (hn : d'.node? (d'.placeOf (Path.join base x)) = some .folder)
      (y : String) (hy : Disk.IsFileName y) (hlen : y.utf8ByteSize ≤ 20) :
      d'.Reaches (Path.join (Path.join base x) y) := by
    refine (Disk.leads_of_reaches hr hn).reaches hy ?_
    have hlast := Disk.utf8ByteSize_join_le (Path.join base x) hy.no_slash
    omega
  refine ⟨_, Disk.makeFolders_join hx.toIsName hreaches fun c => hpath ▸ hroom.folder folder x hfolder c, ?_, ?_⟩
  · split
    · next hnone =>
      exact hroom.put (by simp [hpath]) (by simp [hnone]) (Or.inl ⟨rfl, folder, x, hpath⟩)
    · exact hroom
  · split
    · next hnone =>
      have hne : d.placeOf (Path.join base x) ≠ [] := by simp [hpath]
      have hkept := Disk.kept_put (d := d) hne (by simp [hnone]) .folder
      refine hways (hkept.reaches hreaches) ?_
      rw [hkept.placeOf, Disk.node?_put d hne, if_pos rfl]
    · next hsome =>
      refine hways hreaches ?_
      cases hnode : d.node? (d.placeOf (Path.join base x)) with
      | none => exact absurd hnode hsome
      | some n =>
        cases n with
        | folder => rfl
        | file c => exact absurd (hpath ▸ hnode) (hroom.folder folder x hfolder c)

theorem makeImageFolder (hroom : s.Roomy d) (hx : Disk.IsFileName x) :
    ∃ d', d.makeFolders (s.imageFolder x) = (.ok (), d') ∧ s.Roomy d' ∧ d'.Reaches (s.metadataFile x) ∧
      d'.Reaches (s.configFile x) := by
  obtain ⟨d', hmade, hroom', hways⟩ :=
    hroom.makeFolders hx hroom.images placeOf_imagesFolder (Or.inl rfl) (length_imagesFolder s)
  exact ⟨d', hmade, hroom',
    hways "metadata.json" (by decide) (by decide),
    hways "config.json" (by decide) (by decide)⟩

theorem makeLayerFolder (hroom : s.Roomy d) (hx : Disk.IsFileName x) :
    ∃ d', d.makeFolders (s.layerFolder x) = (.ok (), d') ∧ s.Roomy d' ∧ d'.Reaches (s.layerFile x) := by
  obtain ⟨d', hmade, hroom', hways⟩ :=
    hroom.makeFolders hx hroom.layers placeOf_layersFolder (Or.inr rfl) (length_layersFolder s)
  exact ⟨d', hmade, hroom',
    hways "layer.tar" (by decide) (by decide)⟩

theorem write (hroom : s.Roomy d) (hi : i.Plain) (hreaches : d.Reaches (s.file i)) (c : Bytes) :
    ∃ d', d.write (s.file i) c = .ok d' ∧ s.Roomy d' := by
  have hnode := hroom.file i hi
  have hplace := placeOf_file (s := s) (d := d) hi
  refine ⟨_, write_file hreaches hnode c, hroom.put ?_ hnode (Or.inr ⟨⟨c, rfl⟩, i, hplace⟩)⟩
  rw [hplace]
  exact append_names_ne_nil i

end Roomy

/-! ### Ready surroundings -/

/-- The store has room and the disk refuses nothing. -/
structure Ready (s : Store) (h : Host) : Prop where
  calm : h.troubles = []
  room : s.Roomy h.disk

namespace Ready

theorem withDisk (hready : s.Ready h) (hroom : s.Roomy d) : s.Ready (h.withDisk d) :=
  ⟨by show h.troubles.tail = []; rw [hready.calm]; rfl, hroom⟩

theorem write (hready : s.Ready h) (hi : i.Plain) (hreaches : h.disk.Reaches (s.file i)) (c : Bytes) :
    (Host.write (s.file i) c h).1 = .ok () ∧ s.Ready (Host.write (s.file i) c h).2 := by
  obtain ⟨d', hwrite, hroom⟩ := hready.room.write hi hreaches c
  have halter : Host.write (s.file i) c h = (.ok (), h.withDisk d') := Host.alter_of_calm hready.calm hwrite
  rw [halter]
  exact ⟨rfl, hready.withDisk hroom⟩

theorem makeFolders {path : String} (hready : s.Ready h) (hmade : h.disk.makeFolders path = (.ok (), d'))
    (hroom : s.Roomy d') : Host.makeFolders path h = (.ok (), h.withDisk d') ∧ s.Ready (h.withDisk d') := by
  have halter := Host.alterPartly_of_calm hready.calm (·.makeFolders path)
  rw [hmade] at halter
  exact ⟨halter, hready.withDisk hroom⟩

end Ready

/-! ### Fresh stores -/

/-- The store has been prepared, and nothing has been stored. -/
structure Fresh (s : Store) (h : Host) : Prop where
  calm : h.troubles = []
  short : s.root.utf8ByteSize + 300 ≤ Disk.longestPath
  images : h.disk.isFolder s.imagesFolder = true
  layers : h.disk.isFolder s.layersFolder = true
  empty : ∀ folder x rest, folder = "images" ∨ folder = "layers" →
    h.disk.node? (h.disk.placeOf s.root ++ folder :: x :: rest) = none
  unnamed : h.disk.node? (h.disk.placeOf s.indexFile) = none

theorem isEmpty_of_nothing_inside (hinside : ∀ folder x rest, folder = "images" ∨ folder = "layers" →
      d.node? (d.placeOf s.root ++ folder :: x :: rest) = none)
    (hunnamed : d.node? (d.placeOf s.indexFile) = none) : s.IsEmpty d := fun i hi => by
  cases i with
  | index => exact hunnamed
  | metadata id => exact placeOf_file hi ▸ hinside "images" id _ (Or.inl rfl)
  | config id => exact placeOf_file hi ▸ hinside "images" id _ (Or.inl rfl)
  | layer hex => exact placeOf_file hi ▸ hinside "layers" hex _ (Or.inr rfl)

namespace Fresh

theorem isEmpty (hfresh : s.Fresh h) : s.IsEmpty h.disk := isEmpty_of_nothing_inside hfresh.empty hfresh.unnamed

theorem ready (hfresh : s.Fresh h) : s.Ready h where
  calm := hfresh.calm
  room := by
    refine ⟨hfresh.short, Disk.folder_of_isFolder hfresh.images, Disk.folder_of_isFolder hfresh.layers, fun i hi => ?_,
      fun folder x hfolder c => ?_⟩
    · rw [hfresh.isEmpty i hi]
      simp
    · rw [hfresh.empty folder x [] hfolder]
      simp

end Fresh

/-- A folder is made in the root if nothing is in its place. -/
theorem makeFolders_root (hx : Disk.IsFileName x) (hlength : x.utf8ByteSize ≤ 20) (hcalm : h.troubles = [])
    (hshort : s.root.utf8ByteSize + 300 ≤ Disk.longestPath) (hleads : h.disk.Leads s.root)
    (hnone : h.disk.node? (h.disk.placeOf s.root ++ [x]) = none) :
    Host.makeFolders (Path.join s.root x) h = (.ok (), h.withDisk (h.disk.put (h.disk.placeOf s.root ++ [x]) .folder)) ∧
      h.disk.Reaches (Path.join s.root x) := by
  have hjoin := Disk.utf8ByteSize_join_le s.root hx.no_slash
  have hreaches := hleads.reaches hx (by omega)
  have hplace := Disk.placeOf_join h.disk s.root hx.toIsName
  have hmade := Disk.makeFolders_join hx.toIsName hreaches fun c => by
    rw [hplace, hnone]
    simp
  rw [hplace, if_pos hnone] at hmade
  have halter := Host.alterPartly_of_calm hcalm (·.makeFolders (Path.join s.root x))
  rw [hmade] at halter
  exact ⟨halter, hreaches⟩

/-- What is prepared in an empty folder is a fresh store. -/
theorem fresh_of_prepare (hcalm : h.troubles = []) (hshort : s.root.utf8ByteSize + 300 ≤ Disk.longestPath)
    (hroot : h.disk.isFolder s.root = true)
    (hempty : ∀ x rest, h.disk.node? (h.disk.placeOf s.root ++ x :: rest) = none) :
    (s.prepare h).1 = .ok () ∧ s.Fresh (s.prepare h).2 := by
  obtain ⟨hreaches, hfolder⟩ := Disk.folder_of_isFolder hroot
  have hleads := Disk.leads_of_reaches hreaches hfolder
  -- The folder of the images is made first, and then that of the layers, where the first one is there already.
  obtain ⟨himages, hwayImages⟩ := makeFolders_root isFileName_images (by decide) hcalm hshort hleads (hempty _ [])
  have hkept := Disk.kept_put (d := h.disk) (p := h.disk.placeOf s.root ++ ["images"]) (by simp) (by simp [hempty]) .folder
  generalize hd : h.disk.put (h.disk.placeOf s.root ++ ["images"]) .folder = d at himages hkept
  have hnode (rest : Place) : d.node? (d.placeOf s.root ++ rest) =
      if rest = ["images"] then some .folder else h.disk.node? (h.disk.placeOf s.root ++ rest) := by
    rw [hkept.placeOf, ← hd, Disk.node?_put _ (by simp)]
    simp
  have hcalm' : (h.withDisk d).troubles = [] := by
    show h.troubles.tail = []
    rw [hcalm]
    rfl
  obtain ⟨hlayers, hwayLayers⟩ := makeFolders_root (h := h.withDisk d) isFileName_layers (by decide) hcalm' hshort
    (hleads.kept hkept) (by rw [Host.disk_withDisk, hnode, if_neg (by decide), hempty])
  have hkept' := Disk.kept_put (d := d) (p := d.placeOf s.root ++ ["layers"]) (by simp)
    (by rw [hnode, if_neg (by decide), hempty]; simp) .folder
  rw [Host.disk_withDisk] at hlayers hwayLayers
  generalize hd' : d.put (d.placeOf s.root ++ ["layers"]) .folder = d' at hlayers hkept'
  have hnode' (rest : Place) : d'.node? (d'.placeOf s.root ++ rest) =
      if rest = ["layers"] then some .folder else if rest = ["images"] then some .folder else
        h.disk.node? (h.disk.placeOf s.root ++ rest) := by
    rw [hkept'.placeOf, ← hd', Disk.node?_put _ (by simp), hnode]
    simp
  have hprepare : s.prepare h = (.ok (), (h.withDisk d).withDisk d') := (Act.bind_of_ok himages).trans hlayers
  rw [hprepare]
  refine ⟨rfl, ?_, hshort, ?_, ?_, ?_, ?_⟩
  · show (h.withDisk d).troubles.tail = []
    rw [hcalm']
    rfl
  · refine Disk.isFolder_of_reaches (hkept'.reaches (hkept.reaches hwayImages)) ?_
    rw [Host.disk_withDisk, placeOf_imagesFolder, hnode', if_neg (by decide), if_pos rfl]
  · refine Disk.isFolder_of_reaches (hkept'.reaches hwayLayers) ?_
    rw [Host.disk_withDisk, placeOf_layersFolder, hnode', if_pos rfl]
  · intro folder x rest _
    rw [Host.disk_withDisk, hnode', if_neg (by simp), if_neg (by simp), hempty]
  · have hplace : d'.placeOf s.indexFile = d'.placeOf s.root ++ ["images.json"] := placeOf_file (i := .index) trivial
    rw [Host.disk_withDisk, hplace, hnode', if_neg (by decide), if_neg (by decide), hempty]

/-- The surroundings of a store that was made in an empty folder. -/
def madeAt (s : Store) : Host := (s.prepare (.start ⟨[(["depot"], .folder)], []⟩ (fun _ => .epoch) (fun _ => "") .cut)).2

theorem fresh_madeAt : Fresh ⟨"/depot"⟩ (madeAt ⟨"/depot"⟩) := by
  refine (fresh_of_prepare rfl (by decide) (by decide +kernel) fun x rest => ?_).2
  show Disk.node? ⟨[(["depot"], .folder)], []⟩ (Disk.placeOf ⟨[(["depot"], .folder)], []⟩ "/depot" ++ x :: rest) = none
  rw [show Disk.placeOf ⟨[(["depot"], .folder)], []⟩ "/depot" = ["depot"] by decide +kernel]
  simp [Disk.node?]

end Depot.Store
