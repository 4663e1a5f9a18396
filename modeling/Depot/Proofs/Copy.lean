import Depot.Copy
import Depot.Proofs.Archive.Members
import Depot.Proofs.Host

/-! What a copy reads. An image is read as a whole, its config and its layers as blobs, before any of it is delivered;
    and each layer is the stored one or a gzip stream of it. -/

namespace Depot

theorem forall₂_of_mapM {α β ε : Type} {f : α → Except ε β} {l : List α} {bs : List β} (hbs : l.mapM f = .ok bs) :
    List.Forall₂ (fun a b => f a = .ok b) l bs := by
  induction l generalizing bs with
  | nil =>
    cases hbs
    exact .nil
  | cons a l ih =>
    rw [List.mapM_cons] at hbs
    cases ha : f a with
    | error e =>
      rw [ha] at hbs
      cases hbs
    | ok b =>
      cases hrest : l.mapM f with
      | error e =>
        rw [ha, hrest] at hbs
        cases hbs
      | ok rest =>
        rw [ha, hrest] at hbs
        cases hbs
        exact .cons ha (ih hrest)

namespace Copy
variable {s : Store} {d : Disk} {agent : Registry.Agent} {job : CopyJob} {h h' : Host} {m : Metadata} {config : Blob}
variable {layers : List Blob} {manifest : Bytes} {gzip : Gzip.Encoder} {id : String} {digests files : List String} {compress : Bool}

/-! ### Layers -/

theorem isMade_layerBlob (gzip : Gzip.Encoder) (compress : Bool) (data : Bytes) :
    (CompleteImage.layerBlob gzip compress data).IsMade := by
  unfold CompleteImage.layerBlob
  split
  · exact ⟨MediaType.gzippedLayer, rfl⟩
  · exact ⟨MediaType.layer, rfl⟩

/-- The blobs of the layers are made of what is in their files. -/
theorem forall₂_layerBlobs {image : CompleteImage} (hlayers : image.layerBlobs d gzip compress = .ok layers) :
    List.Forall₂ (fun file b => ∃ stored, d.read file = .ok stored ∧ b = CompleteImage.layerBlob gzip compress stored)
      image.layers layers := by
  refine (forall₂_of_mapM hlayers).imp fun file b hb => ?_
  cases hread : d.read file with
  | error e =>
    rw [hread] at hb
    cases hb
  | ok stored =>
    rw [hread] at hb
    exact ⟨stored, rfl, (Except.ok.inj hb).symm⟩

/-- The layers of an image lie where their digests say. -/
theorem files_of_layerFiles (hfiles : s.layerFiles d id digests = .ok files) :
    files = digests.map fun digest => s.layerFile (Digest.encoded digest) := by
  induction digests generalizing files with
  | nil => exact (Except.ok.inj hfiles).symm
  | cons digest digests ih =>
    unfold Store.layerFiles at hfiles
    split at hfiles
    · cases hrest : s.layerFiles d id digests with
      | error e =>
        rw [hrest] at hfiles
        cases hfiles
      | ok rest =>
        rw [hrest] at hfiles
        obtain rfl := Except.ok.inj hfiles
        rw [List.map_cons, ih hrest]
    · cases hfiles

/-- Layers that can be read are found, and make blobs. -/
theorem layerFiles_of_forall₂ (id : String) (hlayers : List.Forall₂ (fun digest b => ∃ stored,
      d.read (s.layerFile (Digest.encoded digest)) = .ok stored ∧ b = CompleteImage.layerBlob gzip compress stored) digests layers) :
    ∃ files, s.layerFiles d id digests = .ok files ∧
      ∀ config, (CompleteImage.mk config files).layerBlobs d gzip compress = .ok layers := by
  induction hlayers with
  | nil => exact ⟨[], rfl, fun _ => rfl⟩
  | @cons digest b digests layers hlayer _ ih =>
    obtain ⟨files, hfiles, hblobs⟩ := ih
    obtain ⟨stored, hread, rfl⟩ := hlayer
    refine ⟨s.layerFile (Digest.encoded digest) :: files, ?_, fun config => ?_⟩
    · unfold Store.layerFiles Store.hasLayer
      rw [if_pos (Disk.exists?_of_read hread), hfiles]
      rfl
    · have hrest := hblobs config
      unfold CompleteImage.layerBlobs at hrest ⊢
      rw [List.mapM_cons]
      dsimp only at hrest ⊢
      rw [hread, hrest]
      rfl

/-! ### Images -/

/-- What a copy reads: what is known of the image, its config, and its layers in order, each as it is or compressed. -/
structure Reads (s : Store) (gzip : Gzip.Encoder) (d : Disk) (job : CopyJob) (m : Metadata) (config : Blob)
    (layers : List Blob) : Prop where
  known : s.metadata d job.source.id = .ok m
  config : ∃ stored, s.config d job.source.id = .ok stored ∧ config = .of MediaType.config stored
  layers : List.Forall₂ (fun digest b => ∃ stored, d.read (s.layerFile (Digest.encoded digest)) = .ok stored ∧
    b = CompleteImage.layerBlob gzip (compresses job.destination job.options) stored) m.layers layers

/-- Layers that are found are read. -/
theorem reads_of_complete {image : CompleteImage} (himage : s.complete d job.source.id = .ok image)
    (hlayers : image.layerBlobs d gzip (compresses job.destination job.options) = .ok layers) :
    ∃ m, Reads s gzip d job m image.configBlob layers := by
  unfold Store.complete at himage
  split at himage
  · cases himage
  · next m hm =>
    split at himage
    · cases himage
    · next stored hconfig =>
      cases hfiles : s.layerFiles d job.source.id m.layers with
      | error e =>
        rw [hfiles] at himage
        cases himage
      | ok files =>
        rw [hfiles] at himage
        obtain rfl := Except.ok.inj himage
        refine ⟨m, hm, ⟨stored, hconfig, rfl⟩, ?_⟩
        have hblobs := forall₂_layerBlobs hlayers
        rwa [files_of_layerFiles hfiles, List.forall₂_map_left_iff] at hblobs

/-- What is there for a copy makes a complete image. -/
theorem Reads.complete (hreads : Reads s gzip d job m config layers) : ∃ image, s.complete d job.source.id = .ok image ∧
    config = image.configBlob ∧ image.layerBlobs d gzip (compresses job.destination job.options) = .ok layers := by
  obtain ⟨stored, hconfig, hblob⟩ := hreads.config
  obtain ⟨files, hfiles, hblobs⟩ := layerFiles_of_forall₂ job.source.id hreads.layers
  refine ⟨⟨stored, files⟩, ?_, hblob, hblobs stored⟩
  unfold Store.complete
  rw [hreads.known, hconfig]
  dsimp only
  rw [hfiles]
  rfl

theorem Reads.unique {m' : Metadata} {config' : Blob} {layers' : List Blob} (hreads : Reads s gzip d job m config layers)
    (hreads' : Reads s gzip d job m' config' layers') : m = m' ∧ config = config' ∧ layers = layers' := by
  obtain ⟨image, himage, rfl, hlayers⟩ := hreads.complete
  obtain ⟨image', himage', rfl, hlayers'⟩ := hreads'.complete
  obtain rfl := Except.ok.inj (himage.symm.trans himage')
  exact ⟨Except.ok.inj (hreads.known.symm.trans hreads'.known), rfl, Except.ok.inj (hlayers.symm.trans hlayers')⟩

theorem Reads.isMade (hreads : Reads s gzip d job m config layers) : ∀ b ∈ layers ++ [config], b.IsMade := by
  refine List.forall_mem_append.mpr ⟨?_, List.forall_mem_singleton.mpr ?_⟩
  · have hmade : List.Forall₂ (fun l _ => l.IsMade ∧ True) layers m.layers := by
      refine hreads.layers.flip.imp fun l digest hl => ?_
      obtain ⟨stored, -, rfl⟩ := hl
      exact ⟨isMade_layerBlob _ _ _, trivial⟩
    exact ((List.forall₂_and_left _ _).mp hmade).1
  · obtain ⟨stored, -, rfl⟩ := hreads.config
    exact ⟨MediaType.config, rfl⟩

/-! ### Copies -/

/-- A copy that succeeds has read an image and delivered it with its manifest. -/
theorem run_ok (hrun : run s agent job h = (.ok manifest, h')) : ∃ m config layers h₁,
    Reads s h.gzip h.disk job m config layers ∧ h₁.disk = h.disk ∧ manifest = Manifest.bytes config layers ∧
    deliver agent job config layers manifest h₁ = (.ok (), h') := by
  unfold run at hrun
  obtain ⟨_, h₁, hstate, hrun⟩ := Act.bind_eq_ok.mp hrun
  obtain ⟨image, h₂, himage, hrun⟩ := Act.bind_eq_ok.mp hrun
  obtain ⟨_, h₃, hbegun, hrun⟩ := Act.bind_eq_ok.mp hrun
  obtain ⟨layers, h₄, hlayers, hrun⟩ := Act.bind_eq_ok.mp hrun
  obtain ⟨_, h₅, hdeliver, hpure⟩ := Act.bind_eq_ok.mp hrun
  cases hstate
  obtain ⟨hcomplete, rfl⟩ := Act.ofExcept_eq_ok.mp himage
  obtain ⟨hblobs, rfl⟩ := Act.ofExcept_eq_ok.mp hlayers
  obtain ⟨hmanifest, rfl⟩ := Prod.mk.inj (Act.pure_apply .. ▸ hpure)
  obtain rfl := Except.ok.inj hmanifest
  obtain ⟨m, hreads⟩ := reads_of_complete hcomplete hblobs
  exact ⟨m, image.configBlob, layers, h₃, hreads, Host.disk_of_tell hbegun, rfl, hdeliver⟩

/-- What can be read and delivered is copied. -/
theorem run_of_deliver (hreads : Reads s h.gzip h.disk job m config layers) (hquiet : job.options.quiet = true)
    (hdeliver : deliver agent job config layers (Manifest.bytes config layers) h = (.ok (), h')) :
    run s agent job h = (.ok (Manifest.bytes config layers), h') := by
  obtain ⟨image, hcomplete, rfl, hblobs⟩ := hreads.complete
  unfold run
  refine Act.bind_eq_ok.mpr ⟨h, h, rfl, Act.bind_eq_ok.mpr ⟨image, h, Act.ofExcept_eq_ok.mpr ⟨hcomplete, rfl⟩, ?_⟩⟩
  refine Act.bind_eq_ok.mpr ⟨(), h, by rw [hquiet]; rfl, ?_⟩
  refine Act.bind_eq_ok.mpr ⟨layers, h, Act.ofExcept_eq_ok.mpr ⟨hblobs, rfl⟩, ?_⟩
  exact Act.bind_eq_ok.mpr ⟨(), h', hdeliver, rfl⟩

end Copy
end Depot
