import Depot.Proofs.Archive.Entries
import Depot.Proofs.Copy
import Depot.Proofs.Store.Listing

/-! Images that can be seen are complete. Loading an archive stores the layers of an image before its config and both
    before what is known of it, under the hashes of what they are; and neither loading nor naming removes any of them. So
    wherever a run of these stops, what is known of an image can be relied on: its config and its layers are there with
    the contents that they are named by, and it can be copied. -/

namespace Depot
open Digest (hexOf)

namespace Store

/-! ### Whole contents -/

/-- Configs and layers are filed under their hashes, and the files of the images that are known are there. -/
structure Contents.Whole (f : Contents) : Prop where
  config : ∀ id c, f (.config id) = some c → hexOf c = id
  layer : ∀ hex c, f (.layer hex) = some c → hexOf c = hex
  backed : ∀ id m, f.metadata id = .ok m → f.Backs m

section Whole
variable {A : Scope} {f g : Contents} {m : Metadata}

namespace Contents.Whole

theorem setMetadata (h : f.Whole) (hm : f.Backs m) : (f.setMetadata m).Whole where
  config := h.config
  layer := h.layer
  backed id n hn := by
    rw [metadata_setMetadata] at hn
    split at hn
    · cases hn
      exact hm.put _ _
    · exact (h.backed id n hn).put _ _

theorem setIndex (h : f.Whole) (x : Index) : (f.setIndex x).Whole where
  config := h.config
  layer := h.layer
  backed id n hn := by
    rw [metadata_setIndex] at hn
    exact (h.backed id n hn).put _ _

theorem putConfig (h : f.Whole) (b : Bytes) : (f.put (.config (hexOf b)) b).Whole where
  config id c hc := by
    by_cases hid : Item.config id = .config (hexOf b)
    · cases hid
      rw [put_self] at hc
      cases hc
      rfl
    · rw [put_of_ne hid] at hc
      exact h.config id c hc
  layer := h.layer
  backed id n hn := (h.backed id n hn).put _ _

theorem putLayer (h : f.Whole) (b : Bytes) : (f.put (.layer (hexOf b)) b).Whole where
  config := h.config
  layer hex c hc := by
    by_cases hhex : Item.layer hex = .layer (hexOf b)
    · cases hhex
      rw [put_self] at hc
      cases hc
      rfl
    · rw [put_of_ne hhex] at hc
      exact h.layer hex c hc
  backed id n hn := (h.backed id n hn).put _ _

/-- Where only that becomes known of images whose files are there, contents stay whole. -/
theorem change (hknown : ∀ f m, A.known f m → f.Backs m) (h : f.Whole) (hstep : Change A f g) : g.Whole := by
  cases hstep with
  | layer => exact h.putLayer _
  | config => exact h.putConfig _
  | describe _ _ _ _ _ _ _ hallowed => exact h.setMetadata (hknown _ _ hallowed)
  | release _ hm => exact h.setMetadata ((h.backed _ _ hm).congr rfl rfl)
  | claim _ _ hm => exact h.setMetadata ((h.backed _ _ hm).congr rfl rfl)
  | file => exact h.setIndex _
  | give => exact h.setIndex _
  | take => exact h.setIndex _

theorem steps (hknown : ∀ f m, A.known f m → f.Backs m) (h : f.Whole) (hsteps : Steps A f g) : g.Whole := by
  induction hsteps with
  | refl => exact h
  | tail _ hstep ih => exact ih.change hknown hstep

end Contents.Whole

theorem whole_none : Contents.Whole fun _ => none where
  config _ _ h := nomatch h
  layer _ _ h := nomatch h
  backed _ _ h := nomatch h

end Whole

/-! ### What is there of an image -/

section Complete
variable {s : Store} {d : Disk} {f : Contents} {m : Metadata} {id : String}

/-- The images of a store can be listed. They are those that are known, each under its id. -/
theorem Holds.list (h : s.Holds d f) : ∃ images, s.list d = .ok images ∧
    ∀ m, m ∈ images ↔ ∃ id, IsHexId id ∧ f.metadata id = .ok m := by
  -- A folder of an image bears an image id, so what it is known by is what the image is known by.
  have hfolders : ∀ x n, d.node? (d.placeOf s.imagesFolder ++ [x]) = some n → IsHexId x := by
    intro x n hnode
    rw [placeOf_imagesFolder, List.append_assoc] at hnode
    exact (h.orderly.nodes "images" x [] n (Or.inl rfl) hnode).1
  have hnamed : ∀ x ∈ d.names (d.placeOf s.imagesFolder), IsName x := by
    intro x hx
    obtain ⟨n, hnode⟩ := Disk.mem_names_iff.mp hx
    exact (hfolders x n hnode).isName
  refine ⟨_, list_eq h.orderly.images.folder hnamed, fun m => ?_⟩
  rw [List.mem_mergeSort, mem_found_iff hnamed]
  constructor
  · rintro ⟨id, hid, hm⟩
    exact ⟨id, hfolders id _ (reaches_of_metadata hid hm).2, h.shows.metadata hid ▸ hm⟩
  · rintro ⟨id, hid, hm⟩
    exact ⟨id, hid.isName, h.shows.metadata hid.isName ▸ hm⟩

theorem Holds.config (h : s.Holds d f) (hf : f.Whole) (hid : IsHexId m.id) (hm : f.Backs m) :
    ∃ config, s.config d m.id = .ok config ∧ hexOf config = m.id := by
  obtain ⟨c, hc⟩ := Option.isSome_iff_exists.mp hm.config
  exact ⟨c, config_ok_iff.mpr (((h.shows (.config m.id) hid.isName).2 c).mpr hc), hf.config _ c hc⟩

theorem Holds.layer (h : s.Holds d f) (hf : f.Whole) (hm : f.Backs m) {digest : String} (hdigest : digest ∈ m.layers) :
    s.hasLayer d digest = true ∧ ∃ data, d.read (s.layerFile (Digest.encoded digest)) = .ok data ∧
      Digest.ofBytes data = digest := by
  obtain ⟨b, rfl, hsome⟩ := hm.layers digest hdigest
  obtain ⟨c, hc⟩ := Option.isSome_iff_exists.mp hsome
  have hread : d.read (s.layerFile (hexOf b)) = .ok c :=
    ((h.shows (.layer (hexOf b)) (isHexId_hexOf b).isName).2 c).mpr hc
  unfold hasLayer
  rw [Digest.encoded_ofBytes]
  refine ⟨Disk.exists?_of_read hread, c, hread, ?_⟩
  unfold Digest.ofBytes
  rw [hf.layer _ c hc]

/-- Layers that are all there are found, and read as blobs with their digests. -/
theorem layerBlobs_of_read {digests : List String} (hlayers : ∀ digest ∈ digests, s.hasLayer d digest = true ∧
    ∃ data, d.read (s.layerFile (Digest.encoded digest)) = .ok data ∧ Digest.ofBytes data = digest) (gzip : Gzip.Encoder)
    (config : Bytes) (id : String) : ∃ files blobs, s.layerFiles d id digests = .ok files ∧
      (CompleteImage.mk config files).layerBlobs d gzip false = .ok blobs ∧ blobs.map Blob.digest = digests := by
  have hread : ∀ digest ∈ digests, ∃ b : Blob, (∃ stored, d.read (s.layerFile (Digest.encoded digest)) = .ok stored ∧
      b = CompleteImage.layerBlob gzip false stored) ∧ b.digest = digest := by
    intro digest hmem
    obtain ⟨-, data, hread, hdigest⟩ := hlayers digest hmem
    exact ⟨_, ⟨data, hread, rfl⟩, hdigest⟩
  obtain ⟨blobs, hblobs⟩ := exists_forall₂_iff.mpr hread
  obtain ⟨files, hfiles, hmade⟩ := Copy.layerFiles_of_forall₂ id (hblobs.imp fun _ _ h => h.1)
  refine ⟨files, blobs, hfiles, hmade config, ?_⟩
  rw [← List.forall₂_eq_eq_eq, List.forall₂_map_left_iff]
  exact (hblobs.imp fun _ _ h => h.2).flip

end Complete

/-! ### Runs -/

/-- Archives are loaded and images are named, with whatever each of these ends, and between them anything may happen
    elsewhere on the disk. -/
inductive Loads (s : Store) (start : Host) : Host → Prop
  | start : Loads s start start
  | load {h : Host} (path : String) (hloads : Loads s start h) : Loads s start (Archive.load s path h).2
  | tag {h : Host} {id : String} (r : Reference) (hloads : Loads s start h) (hid : IsHexId id) :
      Loads s start (s.tag id r h).2
  | untag {h : Host} (r : Reference) (hloads : Loads s start h) : Loads s start (s.untag r h).2
  | elsewhere {h h' : Host} (hloads : Loads s start h) (hsame : s.Elsewhere h.disk h'.disk) : Loads s start h'

section Runs
variable {s : Store} {start h : Host}

theorem Loads.whole (hvacant : s.Vacant start.disk) (hloads : s.Loads start h) :
    ∃ f, s.Holds h.disk f ∧ f.Regular ∧ f.Whole := by
  -- Each call makes changes after which only that is known of images whose files are there.
  have hcall {α : Type} {A : Scope} {f : Contents} {h : Host} {x : Act Host α} {P : Except Error α → Contents → Prop}
      (hknown : ∀ f m, A.known f m → f.Backs m) (hh : s.Holds h.disk f) (hf : f.Regular) (hwhole : f.Whole)
      (hmoves : Moves s A f x P) : ∃ g, s.Holds (x h).2.disk g ∧ g.Regular ∧ g.Whole := by
    obtain ⟨g, ⟨hg, hsteps, -⟩, -⟩ := hmoves h hh
    exact ⟨g, hg, hf.steps hsteps, hwhole.steps hknown hsteps⟩
  induction hloads with
  | start => exact ⟨_, hvacant.holds, regular_none, whole_none⟩
  | @load h path _ ih =>
    obtain ⟨f, hh, hf, hwhole⟩ := ih
    rcases Archive.load_cases s path h with ⟨e, he⟩ | ⟨files, entries, -, -, he⟩ <;> rw [he]
    · exact ⟨f, hh, hf, hwhole⟩
    · exact hcall (fun _ _ hbacks => hbacks) hh hf hwhole (Archive.moves_loadEntries (fun _ hentry => hentry) hf)
  | tag r _ hid ih =>
    obtain ⟨f, hh, hf, hwhole⟩ := ih
    exact hcall (A := .knowing Contents.Backs) (fun _ _ hbacks => hbacks) hh hf hwhole (moves_tag hf hid trivial trivial)
  | untag r _ ih =>
    obtain ⟨f, hh, hf, hwhole⟩ := ih
    exact hcall (A := .knowing Contents.Backs) (fun _ _ hbacks => hbacks) hh hf hwhole (moves_untag hf trivial)
  | elsewhere _ hsame ih =>
    obtain ⟨f, hh, hf, hwhole⟩ := ih
    exact ⟨f, hh.elsewhere hsame, hf, hwhole⟩

/-- After every run from a store without anything the images can be listed, and what is known of any is on the list. Each
    has its config, whose hash is its id, and each of its layers, with the contents that the digest is of; so it can be
    copied, and its manifest names the config by the id and the layers as they are known, in order. -/
theorem listed_images_are_complete (hvacant : s.Vacant start.disk) (hloads : s.Loads start h) :
    ∃ images, s.list h.disk = .ok images ∧
      (∀ id m, IsHexId id → s.metadata h.disk id = .ok m → m ∈ images ∧ m.id = id) ∧
      ∀ m ∈ images, (∃ config, s.config h.disk m.id = .ok config ∧ hexOf config = m.id) ∧
        (∀ digest ∈ m.layers, s.hasLayer h.disk digest = true ∧
          ∃ data, h.disk.read (s.layerFile (Digest.encoded digest)) = .ok data ∧ Digest.ofBytes data = digest) ∧
        ∃ image blobs, s.complete h.disk m.id = .ok image ∧ image.layerBlobs h.disk h.gzip false = .ok blobs ∧
          (Manifest.of image.configBlob blobs).config.digest = "sha256:" ++ m.id ∧
          (Manifest.of image.configBlob blobs).layers.map Descriptor.digest = m.layers := by
  obtain ⟨f, hh, hf, hwhole⟩ := hloads.whole hvacant
  obtain ⟨images, hlist, hknown⟩ := hh.list
  refine ⟨images, hlist, fun id m hid hm => ?_, fun m hm => ?_⟩
  · rw [hh.shows.metadata hid.isName] at hm
    exact ⟨(hknown m).mpr ⟨id, hid, hm⟩, hf.named _ _ hid.isName hm⟩
  · obtain ⟨id, hid, hm⟩ := (hknown m).mp hm
    obtain rfl := hf.named _ _ hid.isName hm
    -- What is known of an image was written when its files were there, and files stay.
    have hbacks := hwhole.backed m.id m hm
    obtain ⟨config, hconfig, hhash⟩ := hh.config hwhole hid hbacks
    have hlayers : ∀ digest ∈ m.layers, _ := fun _ hmem => hh.layer hwhole hbacks hmem
    obtain ⟨files, blobs, hfiles, hblobs, hdigests⟩ := layerBlobs_of_read hlayers h.gzip config m.id
    refine ⟨⟨config, hconfig, hhash⟩, hlayers, ⟨config, files⟩, blobs, ?_, hblobs, ?_, ?_⟩
    · unfold complete
      rw [hh.shows.metadata hid.isName, hm, hconfig]
      dsimp only
      rw [hfiles]
      rfl
    · show Digest.ofBytes config = _
      rw [← hhash]
      rfl
    · exact (List.map_map ..).trans hdigests

end Runs

/-- An image with an empty layer twice that was loaded from an archive is on the list, and it can be copied. -/
theorem listed_images_are_complete_alpine :
    let config : Blob := .of MediaType.config []
    let layer : Blob := .of MediaType.layer []
    let s : Store := ⟨"/depot"⟩
    let start : Host := .start ⟨[(["app.tar"], .file (Archive.encode config [layer, layer] ["alpine", "?"])),
      (["depot"], .folder), (["depot", "images"], .folder), (["depot", "layers"], .folder)], []⟩ (fun _ => .epoch)
      (fun _ => "") .cut
    let h := (Archive.load s "/app.tar" start).2
    s.Vacant start.disk ∧ s.Loads start h ∧ ∃ images, s.list h.disk = .ok images ∧ ∃ m ∈ images, m.id = hexOf [] ∧
      ∃ image blobs, s.complete h.disk m.id = .ok image ∧ image.layerBlobs h.disk h.gzip false = .ok blobs ∧
        (Manifest.of image.configBlob blobs).layers.map Descriptor.digest = [Digest.ofBytes [], Digest.ofBytes []] := by
  intro config layer s start h
  have hconfig : config.IsMade := ⟨MediaType.config, rfl⟩
  have hlayer : layer.IsMade := ⟨MediaType.layer, rfl⟩
  have hfresh : s.Fresh start := Archive.fresh_besideFile _
  have hvacant : s.Vacant start.disk := hfresh.vacant (by decide +kernel)
  have hloads : s.Loads start h := .load "/app.tar" .start
  have hread : start.disk.read "/app.tar" = .ok (Archive.encode config [layer, layer] ["alpine", "?"]) := rfl
  obtain ⟨x, hload, hgoes⟩ := Archive.goes_load (s := s) (by simp) Archive.short_of_parse_alpine hconfig (by simp [hlayer])
    (Archive.length_encode_lt hconfig hlayer ⟨List.length_nil, List.length_nil⟩) hread
  obtain ⟨g, -, hshows, -, hloaded⟩ := hgoes start hfresh.ready hfresh.isEmpty.shows
  obtain ⟨now, hknown⟩ := hloaded.known
  have hid := isHexId_hexOf config.data
  rw [← hshows.metadata hid.isName, ← hload] at hknown
  obtain ⟨images, hlist, hall, hcomplete⟩ := listed_images_are_complete hvacant hloads
  obtain ⟨hmem, -⟩ := hall _ _ hid hknown
  obtain ⟨-, -, image, blobs, himage, hblobs, -, hlayers⟩ := hcomplete _ hmem
  exact ⟨hvacant, hloads, images, hlist, _, hmem, rfl, image, blobs, himage, hblobs, hlayers⟩

end Store
end Depot
