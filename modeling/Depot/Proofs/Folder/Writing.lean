import Depot.Folder.Writer
import Depot.Proofs.Archive.Members
import Depot.Proofs.Disk.Making
import Depot.Proofs.Host

/-! What writing an image into a folder does to the disk. Folders are made where the path passes; in the folder the layout
    and the manifest are written, and each blob under its name, unless something is there already. So files that are there
    under the names of blobs are blobs that were written once. -/

namespace Depot.Folder
variable {path x : String} {blobs more : List Blob} {b config : Blob} {layers : List Blob} {d d' d'' : Disk} {h h' : Host}
variable {c manifest : Bytes} {quiet : Bool}

/-! ### Files of a folder -/

/-- A folder has a content under a name: it is the layout or the manifest, or one of the blobs under its own name. -/
def Files (blobs : List Blob) (x : String) (c : Bytes) : Prop :=
  x = versionName ∨ x = manifestName ∨ ∃ b ∈ blobs, b.fileName = x ∧ b.data = c

theorem Files.mono (hsub : blobs ⊆ more) (hfiles : Files blobs x c) : Files more x c := by
  rcases hfiles with hx | hx | ⟨b, hb, hx⟩
  · exact Or.inl hx
  · exact Or.inr (Or.inl hx)
  · exact Or.inr (Or.inr ⟨b, hsub hb, hx⟩)

theorem isName_fileName (hb : b.IsMade) : IsName b.fileName := by
  rw [hb.fileName]
  exact (Store.isImageId_hexOf b.data).isName

/-- The name of a blob has digits only. -/
theorem fileName_ne (hb : b.IsMade) {c : Char} (hc : c ∈ x.toList) (hdigit : c ∉ "0123456789abcdef".toList) :
    b.fileName ≠ x := by
  rintro rfl
  rw [hb.fileName] at hc
  exact hdigit ((Store.isImageId_hexOf b.data).digits c hc)

theorem fileName_ne_version (hb : b.IsMade) : b.fileName ≠ versionName := fileName_ne hb (c := 'v') (by decide) (by decide)

theorem fileName_ne_manifest (hb : b.IsMade) : b.fileName ≠ manifestName := fileName_ne hb (c := 'm') (by decide) (by decide)

/-- A name with another character than digits is the name of no blob. -/
theorem not_files (hmade : ∀ b ∈ blobs, b.IsMade) {c : Char} (hc : c ∈ x.toList) (hdigit : c ∉ "0123456789abcdef".toList)
    (hversion : x ≠ versionName) (hmanifest : x ≠ manifestName) (content : Bytes) : ¬Files blobs x content := by
  rintro (hx | hx | ⟨b, hb, hx, -⟩)
  · exact hversion hx
  · exact hmanifest hx
  · exact fileName_ne (hmade b hb) hc hdigit hx

/-! ### What is written -/

/-- Folders are made where the path passes, files of the folder are written, and nothing else is changed. -/
structure Wrote (path : String) (blobs : List Blob) (d d' : Disk) : Prop where
  here : d'.here = d.here
  folder : ∀ q, d.node? q = some .folder → d'.node? q = some .folder
  node : ∀ q, d'.node? q = d.node? q ∨ (d.Passes path q ∧ d.node? q = none ∧ d'.node? q = some .folder) ∨
    ∃ x c, q = d.placeOf path ++ [x] ∧ Files blobs x c ∧ d'.node? q = some (.file c)

namespace Wrote

theorem refl (path : String) (blobs : List Blob) (d : Disk) : Wrote path blobs d d := ⟨rfl, fun _ h => h, fun _ => Or.inl rfl⟩

theorem placeOf (hwrote : Wrote path blobs d d') : d'.placeOf path = d.placeOf path := Disk.placeOf_congr hwrote.here path

theorem trans (hwrote : Wrote path blobs d d') (hwrote' : Wrote path blobs d' d'') : Wrote path blobs d d'' where
  here := hwrote'.here.trans hwrote.here
  folder q hq := hwrote'.folder q (hwrote.folder q hq)
  node q := by
    rcases hwrote'.node q with hsame | ⟨hpasses, hnone, hmade⟩ | ⟨x, c, hq, hfiles, hfile⟩
    · rw [hsame]
      exact hwrote.node q
    · rcases hwrote.node q with hsame | ⟨-, -, hmade'⟩ | ⟨x, c, -, -, hfile⟩
      · exact Or.inr (Or.inl ⟨hpasses.congr hwrote.here, hsame ▸ hnone, hmade⟩)
      · rw [hmade'] at hnone
        cases hnone
      · rw [hfile] at hnone
        cases hnone
    · rw [hwrote.placeOf] at hq
      exact Or.inr (Or.inr ⟨x, c, hq, hfiles, hfile⟩)

theorem mono (hsub : blobs ⊆ more) (hwrote : Wrote path blobs d d') : Wrote path more d d' where
  here := hwrote.here
  folder := hwrote.folder
  node q := by
    rcases hwrote.node q with hsame | hmade | ⟨x, c, hq, hfiles, hfile⟩
    · exact Or.inl hsame
    · exact Or.inr (Or.inl hmade)
    · exact Or.inr (Or.inr ⟨x, c, hq, hfiles.mono hsub, hfile⟩)

theorem of_makeFolders (path : String) (blobs : List Blob) (d : Disk) : Wrote path blobs d (d.makeFolders path).2 where
  here := (Disk.makesAlong_makeFolders d path).here
  folder := (Disk.makeFolders_kept d path).folder
  node q := ((Disk.makesAlong_makeFolders d path).node q).imp_right Or.inl

theorem of_write (hx : IsName x) (hfiles : Files blobs x c) (hwrite : d.write (Path.join path x) c = .ok d') :
    Wrote path blobs d d' := by
  obtain ⟨hne, hnode, rfl⟩ := Disk.eq_put_of_write hwrite
  rw [Disk.placeOf_join d path hx] at hne hnode ⊢
  refine ⟨rfl, fun q hq => ?_, fun q => ?_⟩
  · rw [Disk.node?_put d hne, if_neg]
    · exact hq
    · rintro rfl
      exact hnode hq
  · rw [Disk.node?_put d hne]
    by_cases hq : q = d.placeOf path ++ [x]
    · exact Or.inr (Or.inr ⟨x, c, hq, hfiles, if_pos hq⟩)
    · exact Or.inl (if_neg hq)

/-- No file is changed but files of the folder. -/
theorem kept (hwrote : Wrote path blobs d d') :
    Disk.Kept (fun q => ∃ x c, q = d.placeOf path ++ [x] ∧ Files blobs x c) d d' where
  here := hwrote.here
  folder := hwrote.folder
  file q c hq := by
    rcases hwrote.node q with hsame | ⟨-, hnone, hmade⟩ | ⟨x, c', hplace, hfiles, -⟩
    · rw [hsame]
    · rw [hnone, hmade]
      simp
    · exact absurd ⟨x, c', hplace, hfiles⟩ hq

/-- A file with another name than files of the folder have is read as before. -/
theorem read_join {base : String} (hwrote : Wrote path blobs d d') (hx : IsName x) (hfiles : ∀ c, ¬Files blobs x c)
    (hread : d.read (Path.join base x) = .ok c) : d'.read (Path.join base x) = .ok c := by
  refine hwrote.kept.read ?_ hread
  rintro ⟨y, c', hplace, hy⟩
  rw [Disk.placeOf_join d base hx] at hplace
  obtain ⟨-, hsame⟩ := List.append_inj' hplace rfl
  obtain rfl := List.singleton_inj.mp hsame
  exact hfiles c' hy

/-- What is there stays there. -/
theorem exists?_join (hx : IsName x) (hwrote : Wrote path blobs d d') (hexists : d.exists? (Path.join path x) = true) :
    d'.exists? (Path.join path x) = true := by
  obtain ⟨hreaches, hnode⟩ := (Disk.exists?_join_iff hx).mp hexists
  refine (Disk.exists?_join_iff hx).mpr ⟨hwrote.kept.reaches hreaches, ?_⟩
  rw [hwrote.kept.placeOf]
  rcases hwrote.node (d.placeOf (Path.join path x)) with hsame | ⟨-, -, hmade⟩ | ⟨_, c, -, -, hfile⟩
  · rwa [hsame]
  · simp [hmade]
  · simp [hfile]

end Wrote

/-- A blob is written, unless something is there. -/
theorem writeBlobs_cons_ok (hwrite : writeBlobs path quiet (b :: blobs) h = (.ok (), h')) :
    ∃ h₁, writeBlobs path quiet blobs h₁ = (.ok (), h') ∧
      (h.disk.exists? (Path.join path b.fileName) = true ∧ h₁.disk = h.disk ∨
        h.disk.write (Path.join path b.fileName) b.data = .ok h₁.disk) := by
  unfold writeBlobs at hwrite
  rw [Act.bind_of_ok (x := Act.state) (s := h) rfl] at hwrite
  dsimp only at hwrite
  split at hwrite
  · next hexists =>
    obtain ⟨_, h₁, htold, hrest⟩ := Act.bind_eq_ok.mp hwrite
    exact ⟨h₁, hrest, Or.inl ⟨hexists, Host.disk_of_tell htold⟩⟩
  · obtain ⟨_, h₁, hfile, hwrite⟩ := Act.bind_eq_ok.mp hwrite
    obtain ⟨_, h₂, htold, hrest⟩ := Act.bind_eq_ok.mp hwrite
    exact ⟨h₂, hrest, Or.inr (Host.disk_of_tell htold ▸ Host.write_ok hfile)⟩

/-- Each blob is there when it has been written, or was there. -/
theorem writeBlobs_ok (hmade : ∀ b ∈ blobs, b.IsMade) (hwrite : writeBlobs path quiet blobs h = (.ok (), h')) :
    Wrote path blobs h.disk h'.disk ∧ ∀ b ∈ blobs, h'.disk.exists? (Path.join path b.fileName) = true := by
  induction blobs generalizing h with
  | nil =>
    cases hwrite
    exact ⟨.refl path [] _, List.forall_mem_nil _⟩
  | cons b blobs ih =>
    obtain ⟨hb, hmade⟩ := List.forall_mem_cons.mp hmade
    obtain ⟨h₁, hrest, hfirst⟩ := writeBlobs_cons_ok hwrite
    obtain ⟨hwroteRest, hthere⟩ := ih hmade hrest
    have hwroteRest := hwroteRest.mono (List.subset_cons_self b blobs)
    have hname := isName_fileName hb
    rcases hfirst with ⟨hexists, hdisk⟩ | hwritten
    · rw [hdisk] at hwroteRest
      exact ⟨hwroteRest, List.forall_mem_cons.mpr ⟨hwroteRest.exists?_join hname hexists, hthere⟩⟩
    · have hwrote : Wrote path (b :: blobs) h.disk h₁.disk :=
        .of_write hname (Or.inr (Or.inr ⟨b, List.mem_cons_self, rfl, rfl⟩)) hwritten
      have hexists := Disk.exists?_of_read (Disk.write_ok hwritten).2
      exact ⟨hwrote.trans hwroteRest, List.forall_mem_cons.mpr ⟨hwroteRest.exists?_join hname hexists, hthere⟩⟩

/-- When an image has been written into a folder, which was made if need be, the manifest is there, and a file or folder
    for each blob. -/
theorem write_ok (hmade : ∀ b ∈ layers ++ [config], b.IsMade)
    (hwrite : write path config layers manifest quiet h = (.ok (), h')) :
    Wrote path (layers ++ [config]) (h.disk.makeFolders path).2 h'.disk ∧
      h'.disk.read (Path.join path manifestName) = .ok manifest ∧
      ∀ b ∈ layers ++ [config], h'.disk.exists? (Path.join path b.fileName) = true := by
  unfold write at hwrite
  obtain ⟨_, h₁, hfolders, hwrite⟩ := Act.bind_eq_ok.mp hwrite
  obtain ⟨_, h₂, hversion, hwrite⟩ := Act.bind_eq_ok.mp hwrite
  obtain ⟨_, h₃, hblobs, hwrite⟩ := Act.bind_eq_ok.mp hwrite
  obtain ⟨_, h₄, htold, hwrite⟩ := Act.bind_eq_ok.mp hwrite
  have hmanifest := Host.write_ok hwrite
  rw [Host.disk_of_tell htold] at hmanifest
  obtain ⟨hwroteBlobs, hthere⟩ := writeBlobs_ok hmade hblobs
  have hwroteManifest : Wrote path (layers ++ [config]) h₃.disk h'.disk :=
    .of_write (by decide) (Or.inr (Or.inl rfl)) hmanifest
  have hwroteVersion : Wrote path (layers ++ [config]) (h.disk.makeFolders path).2 h₂.disk :=
    .of_write (by decide) (Or.inl rfl) (Host.makeFolders_ok hfolders ▸ Host.write_ok hversion)
  refine ⟨(hwroteVersion.trans hwroteBlobs).trans hwroteManifest, (Disk.write_ok hmanifest).2, fun b hb => ?_⟩
  exact hwroteManifest.exists?_join (isName_fileName (hmade b hb)) (hthere b hb)

/-! ### Folders that were written -/

/-- In the folder there are only files of the folder, and folders where the path passes. -/
structure Filled (path : String) (blobs : List Blob) (d : Disk) : Prop where
  file : ∀ x c, d.node? (d.placeOf path ++ [x]) = some (.file c) → Files blobs x c
  folder : ∀ x, d.node? (d.placeOf path ++ [x]) = some .folder → d.Passes path (d.placeOf path ++ [x])

namespace Filled

theorem wrote (hfilled : Filled path more d) (hwrote : Wrote path blobs d d') : Filled path (blobs ++ more) d' where
  file x c hnode := by
    rw [hwrote.placeOf] at hnode
    rcases hwrote.node (d.placeOf path ++ [x]) with hsame | ⟨-, -, hmade⟩ | ⟨x', c', hplace, hfiles, hfile⟩
    · rw [hsame] at hnode
      exact (hfilled.file x c hnode).mono (List.subset_append_right blobs more)
    · rw [hmade] at hnode
      cases hnode
    · rw [hfile] at hnode
      cases hnode
      obtain rfl := List.singleton_inj.mp (List.append_cancel_left hplace)
      exact hfiles.mono (List.subset_append_left blobs more)
  folder x hnode := by
    rw [hwrote.placeOf] at hnode ⊢
    suffices hpasses : d.Passes path (d.placeOf path ++ [x]) from Disk.Passes.congr hwrote.here.symm hpasses
    rcases hwrote.node (d.placeOf path ++ [x]) with hsame | ⟨hpasses, -, -⟩ | ⟨_, _, -, -, hfile⟩
    · rw [hsame] at hnode
      exact hfilled.folder x hnode
    · exact hpasses
    · rw [hfile] at hnode
      cases hnode

/-- What is there under the name of a blob is the blob. -/
theorem read (hfilled : Filled path blobs d) (hmade : ∀ b ∈ blobs, b.IsMade) (hb : b ∈ blobs)
    (hunique : ∀ a ∈ blobs, a.fileName = b.fileName → a.data = b.data)
    (hpasses : ¬d.Passes path (d.placeOf path ++ [b.fileName]))
    (hexists : d.exists? (Path.join path b.fileName) = true) : d.read (Path.join path b.fileName) = .ok b.data := by
  have hname := isName_fileName (hmade b hb)
  obtain ⟨hreaches, hnode⟩ := (Disk.exists?_join_iff hname).mp hexists
  refine Disk.read_ok_iff.mpr ⟨hreaches, Disk.bare_join path hname, ?_⟩
  obtain ⟨n, hn⟩ := Option.ne_none_iff_exists'.mp hnode
  rw [Disk.placeOf_join d path hname] at hn ⊢
  cases n with
  | folder => exact absurd (hfilled.folder _ hn) hpasses
  | file c =>
    rcases hfilled.file _ c hn with hversion | hmanifest | ⟨a, ha, hsame, rfl⟩
    · exact absurd hversion (fileName_ne_version (hmade b hb))
    · exact absurd hmanifest (fileName_ne_manifest (hmade b hb))
    · rw [hn, hunique a ha hsame]

end Filled

/-! ### Folders that can be written -/

/-- The disk refuses nothing, there is a way to the folder, and no folder stands where the layout and the manifest go. -/
structure Free (path : String) (h : Host) : Prop where
  calm : h.troubles = []
  short : path.utf8ByteSize + 100 ≤ Disk.longestPath
  folder : h.disk.isFolder path = true
  version : h.disk.node? (h.disk.placeOf path ++ [versionName]) ≠ some .folder
  manifest : h.disk.node? (h.disk.placeOf path ++ [manifestName]) ≠ some .folder

namespace Free

theorem reaches_join (hfree : Free path h) (hx : Disk.IsFileName x) (hshort : x.utf8ByteSize ≤ 64) :
    h.disk.Reaches (Path.join path x) := by
  obtain ⟨hreaches, hfolder⟩ := Disk.folder_of_isFolder hfree.folder
  refine (Disk.leads_of_reaches hreaches hfolder).reaches hx ?_
  have hjoin := Disk.utf8ByteSize_join_le path hx.no_slash
  have hpath := hfree.short
  omega

theorem write_file (hfree : Free path h) (hx : Disk.IsFileName x) (hshort : x.utf8ByteSize ≤ 64)
    (hnode : h.disk.node? (h.disk.placeOf path ++ [x]) ≠ some .folder) (c : Bytes) :
    ∃ h', Host.write (Path.join path x) c h = (.ok (), h') ∧ Free path h' := by
  obtain ⟨hreaches, hfolder⟩ := Disk.folder_of_isFolder hfree.folder
  have hplace := Disk.placeOf_join h.disk path hx.toIsName
  have hwrite := Disk.write_join hx.toIsName (hfree.reaches_join hx hshort) (hplace ▸ hnode) c
  obtain ⟨hkept, -⟩ := Disk.write_ok hwrite
  have hother (q : Place) (hq : h.disk.node? q ≠ some .folder) :
      (h.disk.put (h.disk.placeOf (Path.join path x)) (.file c)).node? q ≠ some .folder := by
    rw [Disk.node?_put h.disk (by simp [hplace])]
    split
    · simp
    · exact hq
  refine ⟨h.withDisk _, Host.alter_of_calm hfree.calm hwrite, Host.troubles_withDisk hfree.calm _, hfree.short, ?_, ?_, ?_⟩
  · refine Disk.isFolder_of_reaches (hkept.reaches hreaches) ?_
    rw [Host.disk_withDisk, hkept.placeOf]
    exact hkept.folder _ hfolder
  · rw [Host.disk_withDisk, hkept.placeOf]
    exact hother _ hfree.version
  · rw [Host.disk_withDisk, hkept.placeOf]
    exact hother _ hfree.manifest

/-- A folder under the name of a blob is no obstacle, since the blob is passed over. -/
theorem write_blobs (hfree : Free path h) (hmade : ∀ b ∈ blobs, b.IsMade) :
    ∃ h', writeBlobs path true blobs h = (.ok (), h') ∧ Free path h' := by
  induction blobs generalizing h with
  | nil => exact ⟨h, rfl, hfree⟩
  | cons b blobs ih =>
    obtain ⟨hb, hmade⟩ := List.forall_mem_cons.mp hmade
    have hid := Store.isImageId_hexOf b.data
    unfold writeBlobs
    rw [Act.bind_of_ok (x := Act.state) (s := h) rfl]
    dsimp only
    split
    · exact ih hfree hmade
    · next hexists =>
      rw [hb.fileName] at hexists ⊢
      have hshort := Nat.le_of_eq hid.utf8ByteSize
      have hnode : h.disk.node? (h.disk.placeOf path ++ [Digest.hexOf b.data]) ≠ some .folder := by
        intro hnode
        rw [← Disk.placeOf_join h.disk path hid.isName] at hnode
        have hreaches := hfree.reaches_join hid.isFileName hshort
        exact hexists ((Disk.exists?_join_iff hid.isName).mpr ⟨hreaches, by simp [hnode]⟩)
      obtain ⟨h₁, hwrite, hfree⟩ := hfree.write_file hid.isFileName hshort hnode b.data
      rw [Act.bind_of_ok hwrite]
      exact ih hfree hmade

/-- Where the folder that is made is free, an image can be written into it. -/
theorem write_image (hcalm : h.troubles = []) (hmake : h.disk.makeFolders path = (.ok (), d)) (hfree : Free path (h.withDisk d))
    (hmade : ∀ b ∈ layers ++ [config], b.IsMade) (manifest : Bytes) :
    ∃ h', write path config layers manifest true h = (.ok (), h') ∧ Free path h' := by
  have hfolders : Host.makeFolders path h = (.ok (), h.withDisk d) := by
    refine (Host.alterPartly_of_calm hcalm _).trans ?_
    rw [hmake]
    rfl
  obtain ⟨h₂, hversion, hfree⟩ :=
    hfree.write_file (x := versionName) (by decide) (by decide) hfree.version (Bytes.ofText versionText)
  obtain ⟨h₃, hblobs, hfree⟩ := hfree.write_blobs hmade
  obtain ⟨h₄, hmanifest, hfree⟩ :=
    hfree.write_file (x := manifestName) (by decide) (by decide) hfree.manifest manifest
  refine ⟨h₄, ?_, hfree⟩
  unfold write
  rw [Act.bind_of_ok hfolders, Act.bind_of_ok hversion, Act.bind_of_ok hblobs]
  exact hmanifest

end Free

end Depot.Folder
