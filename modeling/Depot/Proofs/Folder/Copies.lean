import Depot.Proofs.Copy
import Depot.Proofs.Folder.Writing
import Depot.Proofs.Json.Documents
import Depot.Proofs.Store.Contents

/-! Folders that images are copied into one after the other. Each copy leaves a manifest that describes the files beside
    it: a blob that is there already has been written by an earlier copy, under the hash of what it is. The exception are
    paths that go back by `..`, since making their folders may take the name of a blob. -/

namespace Depot.Folder
open Digest (hexOf)
variable {s : Store} {agent : Registry.Agent} {path base id hex : String} {start h h' : Host} {blobs layers : List Blob}
variable {config b : Blob} {job : CopyJob} {m : Metadata} {manifest c : Bytes} {d d' : Disk} {gzip : Gzip.Encoder}

/-! ### Runs -/

/-- There is nothing in the folder, if it is there at all. -/
def Vacant (path : String) (d : Disk) : Prop := ∀ x rest, d.node? (d.placeOf path ++ x :: rest) = none

/-- Images are copied into a folder one after the other, and in between anything may happen but in the folder. The blobs
    are those that were copied. -/
inductive Copies (s : Store) (agent : Registry.Agent) (path : String) (start : Host) : List Blob → Host → Prop
  | start : Copies s agent path start [] start
  | copy {blobs layers : List Blob} {config : Blob} {h h' : Host} {job : CopyJob} {m : Metadata} {manifest : Bytes}
      (hcopies : Copies s agent path start blobs h) (hfolder : job.destination = .folder path)
      (hreads : Copy.Reads s h.gzip h.disk job m config layers) (hrun : Copy.run s agent job h = (.ok manifest, h')) :
      Copies s agent path start (layers ++ [config] ++ blobs) h'
  | elsewhere {blobs : List Blob} {h h' : Host} (hcopies : Copies s agent path start blobs h)
      (hhere : h'.disk.here = h.disk.here)
      (hsame : ∀ x rest, h'.disk.node? (h.disk.placeOf path ++ x :: rest) = h.disk.node? (h.disk.placeOf path ++ x :: rest)) :
      Copies s agent path start blobs h'

/-- A copy into a folder writes its blobs there, and the manifest that it returns. -/
theorem written_of_run (hfolder : job.destination = .folder path) (hreads : Copy.Reads s h.gzip h.disk job m config layers)
    (hrun : Copy.run s agent job h = (.ok manifest, h')) : manifest = Manifest.bytes config layers ∧
      Wrote path (layers ++ [config]) h.disk h'.disk ∧ h'.disk.read (Path.join path manifestName) = .ok manifest ∧
      ∀ b ∈ layers ++ [config], h'.disk.exists? (Path.join path b.fileName) = true := by
  obtain ⟨m', config', layers', h₁, hreads', hdisk, hmanifest, hdeliver⟩ := Copy.run_ok hrun
  obtain ⟨rfl, rfl, rfl⟩ := hreads.unique hreads'
  unfold Copy.deliver at hdeliver
  rw [hfolder] at hdeliver
  obtain ⟨hwrote, hwritten⟩ := write_ok hreads.isMade hdeliver
  rw [hdisk] at hwrote
  exact ⟨hmanifest, (Wrote.of_makeFolders path _ h.disk).trans hwrote, hwritten⟩

theorem Copies.made (hcopies : Copies s agent path start blobs h) : ∀ b ∈ blobs, b.IsMade := by
  induction hcopies with
  | start => exact List.forall_mem_nil _
  | copy _ _ hreads _ ih => exact List.forall_mem_append.mpr ⟨hreads.isMade, ih⟩
  | elsewhere _ _ _ ih => exact ih

theorem Copies.filled (hvacant : Vacant path start.disk) (hcopies : Copies s agent path start blobs h) :
    Filled path blobs h.disk := by
  induction hcopies with
  | start =>
    refine ⟨fun x c hnode => ?_, fun x hnode => ?_⟩
    · rw [hvacant x []] at hnode
      cases hnode
    · rw [hvacant x []] at hnode
      cases hnode
  | copy _ hfolder hreads hrun ih =>
    obtain ⟨-, hwrote, -⟩ := written_of_run hfolder hreads hrun
    exact ih.wrote hwrote
  | @elsewhere blobs h h' _ hhere hsame ih =>
    have hplace := Disk.placeOf_congr hhere path
    refine ⟨fun x c hnode => ?_, fun x hnode => ?_⟩
    · rw [hplace, hsame] at hnode
      exact ih.file x c hnode
    · rw [hplace, hsame] at hnode
      rw [hplace]
      exact Disk.Passes.congr hhere.symm (ih.folder x hnode)

/-! ### Runs into a free folder -/

/-- Where the folder that is made is free, an image can be copied into it. -/
theorem run_of_free (agent : Registry.Agent) (hcalm : h.troubles = []) (hmake : h.disk.makeFolders path = (.ok (), d))
    (hfree : Free path (h.withDisk d)) (hreads : Copy.Reads s h.gzip h.disk job m config layers) (hquiet : job.options.quiet = true)
    (hfolder : job.destination = .folder path) :
    ∃ h', Copy.run s agent job h = (.ok (Manifest.bytes config layers), h') ∧
      Wrote path (layers ++ [config]) d h'.disk ∧ Free path h' := by
  obtain ⟨h', hwrite, hfree'⟩ := hfree.write_image hcalm hmake hreads.isMade (Manifest.bytes config layers)
  obtain ⟨hwrote, -⟩ := write_ok hreads.isMade hwrite
  rw [hmake] at hwrote
  refine ⟨h', Copy.run_of_deliver hreads hquiet ?_, hwrote, hfree'⟩
  unfold Copy.deliver
  rw [hfolder, hquiet]
  exact hwrite

theorem run_of_isFolder (agent : Registry.Agent) (hfree : Free path h) (hreads : Copy.Reads s h.gzip h.disk job m config layers)
    (hquiet : job.options.quiet = true) (hfolder : job.destination = .folder path) :
    ∃ h', Copy.run s agent job h = (.ok (Manifest.bytes config layers), h') ∧
      Wrote path (layers ++ [config]) h.disk h'.disk ∧ Free path h' := by
  have hfree' : Free path (h.withDisk h.disk) :=
    ⟨Host.troubles_withDisk hfree.calm _, hfree.short, hfree.folder, hfree.version, hfree.manifest⟩
  exact run_of_free agent hfree.calm (Disk.makeFolders_of_isFolder hfree.folder) hfree' hreads hquiet hfolder

/-! ### What is stored -/

section Stored
variable (hmade : ∀ b ∈ blobs, b.IsMade) (hwrote : Wrote path blobs d d')
include hmade hwrote

theorem metadata_of_wrote (hm : s.metadata d id = .ok m) : s.metadata d' id = .ok m := by
  obtain ⟨c, hread, htext⟩ := Store.metadata_ok_iff.mp hm
  refine Store.metadata_ok_iff.mpr ⟨c, hwrote.read_join (by decide) ?_ hread, htext⟩
  exact not_files hmade (c := 't') (by decide) (by decide) (by decide) (by decide)

theorem config_of_wrote (hconfig : s.config d id = .ok c) : s.config d' id = .ok c := by
  refine Store.config_ok_iff.mpr (hwrote.read_join (by decide) ?_ (Store.config_ok_iff.mp hconfig))
  exact not_files hmade (c := 'o') (by decide) (by decide) (by decide) (by decide)

theorem layer_of_wrote (hread : d.read (s.layerFile hex) = .ok c) : d'.read (s.layerFile hex) = .ok c := by
  refine hwrote.read_join (by decide) ?_ hread
  exact not_files hmade (c := 'l') (by decide) (by decide) (by decide) (by decide)

/-- What has been stored is read as before. -/
theorem reads_of_wrote (hreads : Copy.Reads s gzip d job m config layers) : Copy.Reads s gzip d' job m config layers where
  known := metadata_of_wrote hmade hwrote hreads.known
  config := hreads.config.imp fun _ => And.imp_left (config_of_wrote hmade hwrote)
  layers := hreads.layers.imp fun _ _ => Exists.imp fun _ => And.imp_left (layer_of_wrote hmade hwrote)

end Stored

/-! ### Descriptors -/

/-- The file that a descriptor names has the content, and the descriptor is of it. -/
structure Describes (path : String) (d : Disk) (descriptor : Descriptor) (content : Bytes) : Prop where
  read : d.read (Path.join path (Digest.encoded descriptor.digest)) = .ok content
  digest : descriptor.digest = Digest.ofBytes content
  size : content.length < 2 ^ 63 → descriptor.size.toInt = content.length

theorem describes_of_read (hb : b.IsMade) (hread : d.read (Path.join path b.fileName) = .ok b.data) :
    Describes path d b.descriptor b.data := by
  obtain ⟨mediaType, hblob⟩ := hb
  refine ⟨hread, ?_, fun hsize => ?_⟩
  · rw [hblob]
    rfl
  · rw [hblob]
    exact Int64.toInt_ofNat_of_lt hsize

/-- A layer is written as it is, or as a gzip stream of it. -/
def Carries (compress : Bool) (content stored : Bytes) : Prop :=
  if compress then Gzip.decode? content = some stored else content = stored

theorem carries_layerBlob (gzip : Gzip.Encoder) (compress : Bool) (stored : Bytes) :
    Carries compress (CompleteImage.layerBlob gzip compress stored).data stored := by
  cases compress with
  | true => exact gzip.decode?_encode stored
  | false => exact rfl

/-! ### Consistency -/

/-- No two of the blobs have different contents with the same hash. -/
def NoCollision (blobs : List Blob) : Prop := ∀ a ∈ blobs, ∀ b ∈ blobs, hexOf a.data = hexOf b.data → a.data = b.data

/-- The folder has the manifest, which can be read. The files that it names for the config and for each layer, in order,
    are there, with the digests and the sizes that it gives, and they are the stored config and the stored layers, each as
    it is or as a gzip stream of it. -/
def Consistent (s : Store) (path : String) (job : CopyJob) (m : Metadata) (d : Disk) (manifest : Bytes) : Prop :=
  d.read (Path.join path manifestName) = .ok manifest ∧ ∃ document : Manifest,
    Document.parseBytes? manifest = some document ∧
      (∃ stored, s.config d job.source.id = .ok stored ∧ Describes path d document.config stored) ∧
      List.Forall₂ (fun digest descriptor => ∃ stored content, d.read (s.layerFile (Digest.encoded digest)) = .ok stored ∧
        Describes path d descriptor content ∧ Carries job.options.compressLayers content stored) m.layers document.layers

theorem parseBytes?_manifest (config : Blob) (layers : List Blob) :
    Document.parseBytes? (Manifest.bytes config layers) = some (Manifest.of config layers) := by
  rw [Manifest.bytes, Document.parseBytes?_ofText, Document.parse?_pretty]

theorem not_consistent_of_unread (hunread : ¬∃ c, d.read (Path.join path config.fileName) = .ok c) :
    ¬Consistent s path job m d (Manifest.bytes config layers) := by
  rintro ⟨-, document, hparse, ⟨stored, -, hdescribes⟩, -⟩
  obtain rfl := Option.some.inj ((parseBytes?_manifest config layers).symm.trans hparse)
  exact hunread ⟨stored, hdescribes.read⟩

/-- Every blob of the last copy is in the folder. -/
theorem read_of_run (hvacant : Vacant path start.disk) (hcopies : Copies s agent path start blobs h)
    (hfolder : job.destination = .folder path) (hreads : Copy.Reads s h.gzip h.disk job m config layers)
    (hrun : Copy.run s agent job h = (.ok manifest, h')) (hunique : NoCollision (layers ++ [config] ++ blobs))
    (hpasses : ∀ b ∈ layers ++ [config], ¬h.disk.Passes path (h.disk.placeOf path ++ [b.fileName])) :
    ∀ b ∈ layers ++ [config], h'.disk.read (Path.join path b.fileName) = .ok b.data := by
  intro b hb
  obtain ⟨-, hwrote, -, hthere⟩ := written_of_run hfolder hreads hrun
  have hcopies' := Copies.copy hcopies hfolder hreads hrun
  have hmade := hcopies'.made
  have hmem : b ∈ layers ++ [config] ++ blobs := List.mem_append_left blobs hb
  refine (hcopies'.filled hvacant).read hmade hmem (fun a ha hsame => ?_) (fun hthrough => ?_) (hthere b hb)
  · rw [(hmade a ha).fileName, (hmade b hmem).fileName] at hsame
    exact hunique a ha b hmem hsame
  · rw [hwrote.placeOf] at hthrough
    exact hpasses b hb (hthrough.congr hwrote.here)

theorem consistent_of_read (hfolder : job.destination = .folder path) (hreads : Copy.Reads s h.gzip h.disk job m config layers)
    (hrun : Copy.run s agent job h = (.ok manifest, h'))
    (hblobs : ∀ b ∈ layers ++ [config], h'.disk.read (Path.join path b.fileName) = .ok b.data) :
    Consistent s path job m h'.disk manifest := by
  obtain ⟨hmanifest, hwrote, hread, -⟩ := written_of_run hfolder hreads hrun
  obtain ⟨hlayers, hconfig⟩ := List.forall_mem_append.mp hblobs
  obtain ⟨hmadeLayers, hmadeConfig⟩ := List.forall_mem_append.mp hreads.isMade
  have hparse := hmanifest ▸ parseBytes?_manifest config layers
  have hcompresses : Copy.compresses job.destination job.options = job.options.compressLayers := by
    rw [hfolder]
    rfl
  obtain ⟨-, ⟨stored, hstored, hblob⟩, hfiles⟩ := reads_of_wrote hreads.isMade hwrote hreads
  refine ⟨hread, _, hparse, ⟨stored, hstored, ?_⟩, List.forall₂_map_right_iff.mpr ?_⟩
  · have hself := List.mem_singleton_self config
    have hdescribes := describes_of_read (hmadeConfig config hself) (hconfig config hself)
    rw [hblob] at hdescribes ⊢
    exact hdescribes
  · have hboth := (List.forall₂_and_left _ _).mpr ⟨fun b hb => And.intro (hmadeLayers b hb) (hlayers b hb), hfiles.flip⟩
    refine hboth.flip.imp ?_
    rintro digest b ⟨⟨hmade, hread⟩, stored, hstored, hb⟩
    refine ⟨stored, b.data, hstored, describes_of_read hmade hread, ?_⟩
    rw [hb, hcompresses]
    exact carries_layerBlob _ _ stored

/-! ### A store with one image -/

/-- An image is in a store, beside it an empty layer; and beside the store is an empty folder. -/
def diskAt (known config : Bytes) : Disk where
  nodes := [(["depot"], .folder), (["depot", "images"], .folder), (["depot", "images", "app"], .folder),
    (["depot", "images", "app", "metadata.json"], .file known), (["depot", "images", "app", "config.json"], .file config),
    (["depot", "layers"], .folder), (["depot", "layers", "base"], .folder),
    (["depot", "layers", "base", "layer.tar"], .file []), (["out"], .folder)]
  here := []

theorem read_at (known config : Bytes) :
    (diskAt known config).read (Store.metadataFile ⟨"/depot"⟩ "app") = .ok known ∧
    (diskAt known config).read (Store.configFile ⟨"/depot"⟩ "app") = .ok config ∧
    (diskAt known config).read (Store.layerFile ⟨"/depot"⟩ "base") = .ok [] := ⟨rfl, rfl, rfl⟩

theorem vacant_at (known config : Bytes) (hplace : (diskAt known config).placeOf path = ["out"]) :
    Vacant path (diskAt known config) := by
  intro x rest
  rw [hplace]
  simp [diskAt, Disk.node?, List.lookup_cons]

/-- What is known of the image, which may have the layer. -/
def imageAt (layers : List String) : Metadata := ⟨"app", [], none, .epoch, 0, layers⟩

/-- Fresh surroundings of the image. -/
def hostAt (layers : List String) (config : Bytes) : Host :=
  .start (diskAt (Bytes.ofText (Document.pretty (imageAt layers))) config) (fun _ => .epoch) (fun _ => "") .cut

/-- The image is copied into a folder. -/
def jobAt (path : String) (compress : Bool) : CopyJob := ⟨⟨"app", none⟩, .folder path, ⟨compress, false, true⟩, []⟩

theorem known_at (layers : List String) (config : Bytes) :
    Store.metadata ⟨"/depot"⟩ (hostAt layers config).disk "app" = .ok (imageAt layers) :=
  Store.metadata_ok_iff.mpr ⟨_, (read_at _ _).1, Document.parse?_text?_pretty _⟩

theorem config_at (layers : List String) (config : Bytes) :
    Store.config ⟨"/depot"⟩ (hostAt layers config).disk "app" = .ok config :=
  Store.config_ok_iff.mpr (read_at _ _).2.1

/-! ### Copies one after the other -/

/-- After every copy the folder is consistent, if hashes do not collide and making the folder does not take the name of a
    blob. Only what goes back by `..` takes one, by `not_passes_inside`. -/
theorem consistent_after_copy (hvacant : Vacant path start.disk) (hcopies : Copies s agent path start blobs h)
    (hfolder : job.destination = .folder path) (hrun : Copy.run s agent job h = (.ok manifest, h')) :
    ∃ m config layers, Copy.Reads s h.gzip h.disk job m config layers ∧ (NoCollision (layers ++ [config] ++ blobs) →
      (∀ b ∈ layers ++ [config], ¬h.disk.Passes path (h.disk.placeOf path ++ [b.fileName])) →
      Consistent s path job m h'.disk manifest) := by
  obtain ⟨m, config, layers, _, hreads, -⟩ := Copy.run_ok hrun
  refine ⟨m, config, layers, hreads, fun hunique hpasses => ?_⟩
  exact consistent_of_read hfolder hreads hrun (read_of_run hvacant hcopies hfolder hreads hrun hunique hpasses)

/-- Two copies, the first compressed, of an image whose layer is its config. -/
theorem consistent_after_two_copies : ∃ blobs h₁ manifest h₂, Vacant "out" (hostAt ["base"] []).disk ∧
    Copies ⟨"/depot"⟩ ⟨"depot", by decide⟩ "out" (hostAt ["base"] []) blobs h₁ ∧ blobs ≠ [] ∧
    Copy.run ⟨"/depot"⟩ ⟨"depot", by decide⟩ (jobAt "out" false) h₁ = (.ok manifest, h₂) ∧
    Consistent ⟨"/depot"⟩ "out" (jobAt "out" false) (imageAt ["base"]) h₂.disk manifest := by
  have hreads (gzip : Gzip.Encoder) (compress : Bool) : Copy.Reads ⟨"/depot"⟩ gzip (hostAt ["base"] []).disk
      (jobAt "out" compress) (imageAt ["base"]) (.of MediaType.config []) [CompleteImage.layerBlob gzip compress []] :=
    ⟨known_at .., ⟨[], config_at .., rfl⟩, .cons ⟨[], (read_at _ _).2.2, rfl⟩ .nil⟩
  have hvacant : Vacant "out" (hostAt ["base"] []).disk := vacant_at _ _ rfl
  have hfree : Free "out" (hostAt ["base"] []) := by
    refine ⟨rfl, by decide, rfl, ?_, ?_⟩
    · rw [hvacant versionName []]
      simp
    · rw [hvacant manifestName []]
      simp
  obtain ⟨h₁, hrun₁, hwrote, hfree₁⟩ := run_of_isFolder ⟨"depot", by decide⟩ hfree (hreads _ true) rfl rfl
  have hcopies := Copies.copy .start rfl (hreads _ true) hrun₁
  have hreads₁ := reads_of_wrote (hreads _ true).isMade hwrote (hreads h₁.gzip false)
  obtain ⟨h₂, hrun₂, -⟩ := run_of_isFolder ⟨"depot", by decide⟩ hfree₁ hreads₁ rfl rfl
  refine ⟨_, h₁, _, h₂, hvacant, hcopies, by simp, hrun₂, ?_⟩
  obtain ⟨m, config, layers, hread, hconsistent⟩ := consistent_after_copy hvacant hcopies rfl hrun₂
  obtain ⟨rfl, rfl, rfl⟩ := hread.unique hreads₁
  refine hconsistent ?_ fun b _ => Disk.not_passes_inside (by decide) _
  -- All blobs of both copies have one of two contents, which the hash tells apart.
  have hcontents : ∀ a ∈ [CompleteImage.layerBlob h₁.gzip false []] ++ [.of MediaType.config []] ++
      ([CompleteImage.layerBlob (hostAt ["base"] []).gzip true []] ++ [.of MediaType.config []] ++ []),
      a.data = [] ∨ a.data = Gzip.encode [] := by
    simp [CompleteImage.layerBlob, Blob.of, hostAt, Host.start, Gzip.Encoder.stored]
  have hne : hexOf [] ≠ hexOf (Gzip.encode []) := by decide +kernel
  intro a ha b hb hsame
  rcases hcontents a ha with ha | ha <;> rcases hcontents b hb with hb | hb <;> rw [ha, hb] at hsame ⊢
  · exact absurd hsame hne
  · exact absurd hsame hne.symm

/-! ### Folders in the place of blobs -/

/-- A path that goes back out of a folder with the name of the config makes that folder, and the config is passed over.
    The copy succeeds all the same, and the file that its manifest names cannot be read. -/
theorem unread_of_dots (agent : Registry.Agent) (hcalm : h.troubles = [])
    (hreads : Copy.Reads s h.gzip h.disk job m config layers) (hquiet : job.options.quiet = true)
    (hfolder : job.destination = .folder path) (hbase : h.disk.Leads base) (hvacant : Vacant path h.disk)
    (hpath : path = Path.join (Path.join base config.fileName) "..")
    (hparent : Path.parent? path = some (Path.join base config.fileName))
    (hshort : path.utf8ByteSize + 100 ≤ Disk.longestPath) :
    ∃ h', Copy.run s agent job h = (.ok (Manifest.bytes config layers), h') ∧
      (¬∃ c, h'.disk.read (Path.join path config.fileName) = .ok c) ∧
      ¬Consistent s path job m h'.disk (Manifest.bytes config layers) := by
  have hmade : config.IsMade := hreads.isMade config (List.mem_append_right layers List.mem_cons_self)
  have hname : Disk.IsFileName config.fileName := by
    rw [hmade.fileName]
    exact (Store.isImageId_hexOf config.data).isFileName
  have hplace (d : Disk) : d.placeOf path = d.placeOf base := by
    rw [hpath, Disk.placeOf_dots, Disk.placeOf_join d base hname.toIsName, List.dropLast_concat]
  have hnone (x : String) : h.disk.node? (h.disk.placeOf base ++ [x]) = none := hplace h.disk ▸ hvacant x []
  have hdots := Disk.makeFolders_dots hbase hname (hnone _)
  rw [← hpath] at hdots
  obtain ⟨hmake, hthere⟩ := hdots (Nat.le_trans (Nat.le_add_right _ 100) hshort) hparent
  generalize hd : h.disk.put (h.disk.placeOf base ++ [config.fileName]) .folder = d at *
  -- Once the way is made, there is one thing in the folder: a folder that is called like the config.
  have hnode (x : String) : d.node? (d.placeOf path ++ [x]) = if x = config.fileName then some .folder else none := by
    rw [hplace, ← hd, Disk.placeOf_congr (Disk.here_put ..), Disk.node?_put h.disk (by simp)]
    simp [hnone]
  have hfree : Free path (h.withDisk d) := by
    refine ⟨Host.troubles_withDisk hcalm d, hshort, hthere, ?_, ?_⟩
    · rw [Host.disk_withDisk, hnode, if_neg (fileName_ne_version hmade).symm]
      simp
    · rw [Host.disk_withDisk, hnode, if_neg (fileName_ne_manifest hmade).symm]
      simp
  obtain ⟨h', hrun, hwrote, -⟩ := run_of_free agent hcalm hmake hfree hreads hquiet hfolder
  have hunread : ¬∃ c, h'.disk.read (Path.join path config.fileName) = .ok c := by
    rintro ⟨c, hread⟩
    have hkept := hwrote.folder (d.placeOf path ++ [config.fileName]) (by rw [hnode, if_pos rfl])
    have hfile := (Disk.read_ok_iff.mp hread).2.2
    rw [Disk.placeOf_join _ path hname.toIsName, hwrote.placeOf, hkept] at hfile
    cases hfile
  exact ⟨h', hrun, hunread, not_consistent_of_unread hunread⟩

/-- The config of the image, an empty object. -/
def bracesAt : Bytes := [0x7b, 0x7d]

/-- A path out of a folder that has the hash of the config as its name. -/
def pathAt : String := "out/44136fa355b3678a1146ad16f7e8649e94fb4fc21fe77e8310c060f61caaff8a/.."

/-- The copy succeeds, and the config that its manifest names cannot be read. -/
theorem unread_after_copy : ∃ h', Vacant pathAt (hostAt [] bracesAt).disk ∧
    NoCollision [.of MediaType.config bracesAt] ∧
    Copy.run ⟨"/depot"⟩ ⟨"depot", by decide⟩ (jobAt pathAt false) (hostAt [] bracesAt) =
      (.ok (Manifest.bytes (.of MediaType.config bracesAt) []), h') ∧
    (¬∃ c, h'.disk.read (Path.join pathAt "44136fa355b3678a1146ad16f7e8649e94fb4fc21fe77e8310c060f61caaff8a") = .ok c) ∧
    ¬Consistent ⟨"/depot"⟩ pathAt (jobAt pathAt false) (imageAt []) h'.disk
      (Manifest.bytes (.of MediaType.config bracesAt) []) := by
  have hreads : Copy.Reads ⟨"/depot"⟩ (hostAt [] bracesAt).gzip (hostAt [] bracesAt).disk (jobAt pathAt false) (imageAt [])
      (.of MediaType.config bracesAt) [] := ⟨known_at .., ⟨bracesAt, config_at .., rfl⟩, .nil⟩
  have hvacant : Vacant pathAt (hostAt [] bracesAt).disk := vacant_at _ _ (by decide +kernel)
  have hname : (Blob.of MediaType.config bracesAt).fileName =
      "44136fa355b3678a1146ad16f7e8649e94fb4fc21fe77e8310c060f61caaff8a" := by decide +kernel
  have hleads : (hostAt [] bracesAt).disk.Leads "out" := by
    have hfolder : (hostAt [] bracesAt).disk.isFolder "out" = true := rfl
    obtain ⟨hreaches, hnode⟩ := Disk.folder_of_isFolder hfolder
    exact Disk.leads_of_reaches hreaches hnode
  have hcopy := unread_of_dots ⟨"depot", by decide⟩ rfl hreads rfl rfl hleads hvacant
  rw [hname] at hcopy
  obtain ⟨h', hrun, hunread, hinconsistent⟩ := hcopy (by decide +kernel) (by decide +kernel) (by decide +kernel)
  refine ⟨h', hvacant, fun a ha b hb _ => ?_, hrun, hunread, hinconsistent⟩
  rw [List.mem_singleton.mp ha, List.mem_singleton.mp hb]

end Depot.Folder
