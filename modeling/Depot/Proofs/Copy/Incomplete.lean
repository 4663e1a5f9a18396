import Depot.Proofs.Folder.Copies

/-! Copies of images that are not complete. A copy reads all of its image before it writes or sends anything, so a part
    that cannot be read ends the copy while nothing is at the destination yet. -/

namespace Depot.Copy
variable {s : Store} {d : Disk} {job : CopyJob} {id : String} {m : Metadata} {config : Blob} {layers : List Blob}
variable {gzip : Gzip.Encoder}

/-- Something that belongs to an image cannot be read. -/
inductive Incomplete (s : Store) (d : Disk) (id : String) : Prop
  /-- What is known of the image is missing, or no text. -/
  | unknown {e : DiskError} (hread : d.readText (s.metadataFile id) = .error e)
  /-- What is known of the image is no record of an image. -/
  | garbled {text : String} (hread : d.readText (s.metadataFile id) = .ok text)
      (hparse : (Document.parse? text : Option Metadata) = none)
  | noConfig {e : DiskError} (hread : d.read (s.configFile id) = .error e)
  /-- A layer, anywhere in the list, is missing, or no file. -/
  | noLayer {m : Metadata} {digest : String} {e : DiskError} (hknown : s.metadata d id = .ok m) (hlayer : digest ∈ m.layers)
      (hread : d.read (s.layerFile (Digest.encoded digest)) = .error e)

theorem metadata_error_iff : (∃ e, s.metadata d id = .error e) ↔ (∃ e, d.readText (s.metadataFile id) = .error e) ∨
    ∃ text, d.readText (s.metadataFile id) = .ok text ∧ (Document.parse? text : Option Metadata) = none := by
  unfold Store.metadata
  cases d.readText (s.metadataFile id) with
  | error e => simp
  | ok text => cases hparse : (Document.parse? text : Option Metadata) <;> simp [hparse]

/-- Nothing is missing of what was read. -/
theorem Reads.not_incomplete (hreads : Reads s gzip d job m config layers) : ¬Incomplete s d job.source.id := by
  have hknown : ¬∃ e, s.metadata d job.source.id = .error e := fun ⟨e, he⟩ => by cases hreads.known.symm.trans he
  intro hincomplete
  cases hincomplete with
  | unknown hread => exact hknown (metadata_error_iff.mpr (.inl ⟨_, hread⟩))
  | garbled hread hparse => exact hknown (metadata_error_iff.mpr (.inr ⟨_, hread, hparse⟩))
  | noConfig hread =>
    obtain ⟨stored, hconfig, -⟩ := hreads.config
    cases hread.symm.trans (Store.config_ok_iff.mp hconfig)
  | noLayer hm hlayer hread =>
    obtain rfl := Except.ok.inj (hreads.known.symm.trans hm)
    obtain ⟨_, stored, hstored, -⟩ := exists_forall₂_iff.mp ⟨layers, hreads.layers⟩ _ hlayer
    cases hread.symm.trans hstored

/-- What is not incomplete can be read. -/
theorem incomplete_iff : Incomplete s d job.source.id ↔ ¬∃ m config layers, Reads s gzip d job m config layers := by
  constructor
  · rintro hincomplete ⟨m, config, layers, hreads⟩
    exact hreads.not_incomplete hincomplete
  · intro hnone
    by_contra hcomplete
    cases hknown : s.metadata d job.source.id with
    | error e =>
      rcases metadata_error_iff.mp ⟨e, hknown⟩ with ⟨e, hread⟩ | ⟨text, hread, hparse⟩
      · exact hcomplete (.unknown hread)
      · exact hcomplete (.garbled hread hparse)
    | ok m =>
      cases hconfig : d.read (s.configFile job.source.id) with
      | error e => exact hcomplete (.noConfig hconfig)
      | ok stored =>
        have hlayers : ∀ digest ∈ m.layers, ∃ b stored, d.read (s.layerFile (Digest.encoded digest)) = .ok stored ∧
            b = CompleteImage.layerBlob gzip (compresses job.destination job.options) stored := by
          intro digest hlayer
          cases hread : d.read (s.layerFile (Digest.encoded digest)) with
          | error e => exact absurd (.noLayer hknown hlayer hread) hcomplete
          | ok stored => exact ⟨_, stored, rfl, rfl⟩
        obtain ⟨layers, hreads⟩ := exists_forall₂_iff.mpr hlayers
        exact hnone ⟨m, _, layers, hknown, ⟨stored, Store.config_ok_iff.mpr hconfig, rfl⟩, hreads⟩

/-- A copy has read all of its image when it begins to deliver, or else it has told at most that it began. -/
theorem run_cases (s : Store) (agent : Registry.Agent) (job : CopyJob) (h : Host) :
    (∃ m config layers, Reads s h.gzip h.disk job m config layers) ∨
      ∃ e progress, run s agent job h = (.error e, { h with progress }) := by
  unfold run
  rw [Act.bind_of_ok (x := Act.state) (s := h) rfl]
  cases himage : s.complete h.disk job.source.id with
  | error e => exact .inr ⟨e, h.progress, rfl⟩
  | ok image =>
    rw [Act.ofExcept_ok_bind]
    have hbegun : ∃ progress, Progress.begun job.options.quiet h = (.ok (), { h with progress }) := by
      unfold Progress.begun Progress.tell
      split
      · exact ⟨_, rfl⟩
      · exact ⟨_, rfl⟩
    obtain ⟨progress, hbegun⟩ := hbegun
    rw [Act.bind_of_ok hbegun]
    cases hlayers : image.layerBlobs h.disk h.gzip (compresses job.destination job.options) with
    | error e => exact .inr ⟨e, progress, rfl⟩
    | ok layers =>
      obtain ⟨m, hreads⟩ := reads_of_complete himage hlayers
      exact .inl ⟨m, _, layers, hreads⟩

/-- A copy of an image that is not complete fails. Whatever the destination, nothing is written or sent; only the
    progress may have a new line. -/
theorem run_of_incomplete (agent : Registry.Agent) {h : Host} (hincomplete : Incomplete s h.disk job.source.id) :
    ∃ e progress, run s agent job h = (.error e, { h with progress }) :=
  (run_cases s agent job h).resolve_left (incomplete_iff.mp hincomplete)

/-- The second layer of the image is not in the store. -/
theorem run_without_upper_layer :
    Incomplete ⟨"/depot"⟩ (Folder.hostAt ["base", "upper"] []).disk (Folder.jobAt "out" true).source.id ∧
    ∃ e progress, run ⟨"/depot"⟩ ⟨"depot", by decide⟩ (Folder.jobAt "out" true) (Folder.hostAt ["base", "upper"] []) =
      (.error e, { Folder.hostAt ["base", "upper"] [] with progress }) := by
  have hincomplete : Incomplete ⟨"/depot"⟩ (Folder.hostAt ["base", "upper"] []).disk (Folder.jobAt "out" true).source.id :=
    @Incomplete.noLayer _ _ _ (Folder.imageAt ["base", "upper"]) "upper" .notFound (Folder.known_at _ _) (by decide) rfl
  exact ⟨hincomplete, run_of_incomplete _ hincomplete⟩

end Depot.Copy
