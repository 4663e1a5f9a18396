import Depot.Archive.Reader
import Depot.Proofs.Json.Documents
import Depot.Proofs.Store.ImageIds
import Depot.Proofs.Tar.RoundTrip
import Mathlib.Data.List.Forall2

/-! What is found in an archive that was written. Every member is found under its name: the names of layers, of the
    config and of the manifest differ, and layers of one name have one content unless their digests collide. -/

namespace Depot

theorem exists_forall₂_iff {α β : Type} {R : α → β → Prop} {as : List α} :
    (∃ bs, List.Forall₂ R as bs) ↔ ∀ a ∈ as, ∃ b, R a b := by
  induction as with
  | nil => simp
  | cons a as ih =>
    rw [List.forall_mem_cons, ← ih]
    constructor
    · rintro ⟨_, _ | ⟨hb, hbs⟩⟩
      exact ⟨⟨_, hb⟩, _, hbs⟩
    · rintro ⟨⟨b, hb⟩, bs, hbs⟩
      exact ⟨b :: bs, .cons hb hbs⟩

/-- The blob is made of its data. -/
def Blob.IsMade (b : Blob) : Prop := ∃ mediaType, b = .of mediaType b.data

theorem Blob.IsMade.fileName {b : Blob} (h : b.IsMade) : b.fileName = Digest.hexOf b.data := by
  obtain ⟨mediaType, hb⟩ := h
  rw [hb]
  exact Digest.encoded_ofBytes b.data

namespace Archive
variable {config layer : Blob} {layers : List Blob} {tags : List String} {name : String} {data : Bytes}

/-! ### Names of members -/

/-- A name of a member: at most a hundred plain characters that do not begin with a dot. -/
structure IsMemberName (name : String) : Prop where
  plain : Bytes.Plain name.toList
  short : name.toList.length ≤ 100
  no_dot : name.toList.head? ≠ some '.'

theorem isMemberName_hexOf (b : Bytes) {rest : String} (hplain : Bytes.Plain rest.toList) (hshort : rest.toList.length ≤ 36) :
    IsMemberName (Digest.hexOf b ++ rest) := by
  have hid := Store.isImageId_hexOf b
  refine ⟨?_, ?_, ?_⟩
  · rw [String.toList_append]
    exact Bytes.plain_append.mpr ⟨hid.plain, hplain⟩
  · rw [String.toList_append, List.length_append, hid.length]
    omega
  · rw [String.toList_append]
    cases hcs : (Digest.hexOf b).toList with
    | nil => exact absurd hid.length (by simp [hcs])
    | cons c cs =>
      intro hdot
      have hc := hid.digits c (by simp [hcs])
      rw [Option.some.inj hdot] at hc
      exact absurd hc (by decide)

theorem layerName_eq (h : layer.IsMade) : layerName layer = Digest.hexOf layer.data ++ "/layer.tar" := by
  rw [layerName, h.fileName]

theorem configName_eq (h : config.IsMade) : configName config = Digest.hexOf config.data ++ ".json" := by
  rw [configName, h.fileName]

theorem isMemberName_layerName (h : layer.IsMade) : IsMemberName (layerName layer) := by
  rw [layerName_eq h]
  exact isMemberName_hexOf _ (by decide) (by decide)

theorem isMemberName_configName (h : config.IsMade) : IsMemberName (configName config) := by
  rw [configName_eq h]
  exact isMemberName_hexOf _ (by decide) (by decide)

theorem isMemberName_manifestName : IsMemberName manifestName :=
  ⟨by decide, by decide, by decide⟩

namespace IsMemberName

theorem name_le (h : IsMemberName name) : (file name data).name.length ≤ 100 := by
  show (Bytes.ofText name).length ≤ 100
  rw [Bytes.length_ofText, Bytes.utf8ByteSize_of_plain h.plain]
  exact h.short

theorem fits (h : IsMemberName name) (hdata : data.length < 2 ^ 64) : (file name data).Fits where
  name_le := h.name_le
  no_nul := Bytes.zero_notMem_of_plain h.plain
  size_lt := hdata

theorem memberName (h : IsMemberName name) : memberName (Bytes.ofText name) = name := by
  unfold Archive.memberName
  rw [Bytes.lossyText_ofText]
  have hsame : withoutDots name.toList = name.toList := by
    unfold withoutDots
    split
    · next heq => exact absurd (by rw [heq]; rfl) h.no_dot
    · rfl
  rw [hsame, String.ofList_toList]

end IsMemberName

/-! ### Members -/

/-- The members of the archive of an image, by name. -/
def parts (config : Blob) (layers : List Blob) (tags : List String) : List (String × Bytes) :=
  layers.map (fun l => (layerName l, l.data)) ++
    [(configName config, config.data), (manifestName, manifestOf config layers tags)]

theorem encode_eq : encode config layers tags = Tar.encode ((parts config layers tags).map fun p => file p.1 p.2) := by
  simp [encode, parts, Function.comp_def]

theorem isMemberName_of_mem_parts (hconfig : config.IsMade) (hlayers : ∀ l ∈ layers, l.IsMade) :
    ∀ p ∈ parts config layers tags, IsMemberName p.1 := by
  intro p hp
  unfold parts at hp
  rw [List.mem_append, List.mem_map, List.mem_cons, List.mem_singleton] at hp
  rcases hp with ⟨l, hl, rfl⟩ | rfl | rfl
  · exact isMemberName_layerName (hlayers l hl)
  · exact isMemberName_configName hconfig
  · exact isMemberName_manifestName

/-- A member has a header and is filled up to a block, and two blocks end an archive. -/
theorem length_encode (hconfig : config.IsMade) (hlayers : ∀ l ∈ layers, l.IsMade) :
    (encode config layers tags).length =
      ((parts config layers tags).map fun p => 512 + Tar.roundUp p.2.length).sum + 1024 := by
  rw [encode_eq, Tar.encode, List.length_append, List.flatMap_map, List.length_flatMap, Tar.ending, List.length_replicate]
  refine congrArg (·.sum + 1024) (List.map_congr_left fun p hp => ?_)
  have hname : (file p.1 p.2).name.length ≤ 100 := (isMemberName_of_mem_parts hconfig hlayers p hp).name_le
  rw [Tar.member, List.length_append, Tar.length_paddedData, Tar.length_header hname]
  rfl

theorem length_member (f : Tar.File) : f.data.length ≤ (Tar.member f).length := by
  unfold Tar.member
  rw [List.length_append, Tar.length_paddedData, Tar.roundUp]
  omega

/-- An archive is at least as long as its members together. -/
theorem sum_length_le (files : List (String × Bytes)) :
    (files.map fun p => p.2.length).sum ≤ (Tar.encode (files.map fun p => file p.1 p.2)).length := by
  have hsum : (files.map fun p => p.2.length).sum ≤ ((files.map fun p => file p.1 p.2).flatMap Tar.member).length := by
    induction files with
    | nil => exact Nat.le_refl _
    | cons p files ih =>
      have hp : p.2.length ≤ (Tar.member (file p.1 p.2)).length := length_member (file p.1 p.2)
      rw [List.map_cons, List.map_cons, List.sum_cons, List.flatMap_cons, List.length_append]
      exact Nat.add_le_add hp ih
  unfold Tar.encode
  rw [List.length_append]
  omega

theorem filesOf_members {files : List (String × Bytes)} (h : ∀ p ∈ files, IsMemberName p.1) :
    filesOf ((files.map fun p => file p.1 p.2).map Tar.File.toMember) = files.reverse := by
  unfold filesOf
  congr 1
  rw [List.filter_eq_self.mpr fun m hm => ?_, List.map_map, List.map_map]
  · refine (List.map_congr_left fun p hp => ?_).trans (List.map_id files)
    show (memberName (Bytes.ofText p.1), p.2) = p
    rw [(h p hp).memberName]
  · obtain ⟨f, -, rfl⟩ := List.mem_map.mp hm
    rfl

/-- The files of an archive are its members, the last first. -/
theorem readFiles_members {d : Disk} {path : String} {files : List (String × Bytes)} (hnames : ∀ p ∈ files, IsMemberName p.1)
    (hsize : ∀ p ∈ files, p.2.length < 2 ^ 64) (hread : d.read path = .ok (Tar.encode (files.map fun p => file p.1 p.2))) :
    readFiles d path = .ok files.reverse := by
  have hfits : ∀ f ∈ files.map fun p => file p.1 p.2, f.Fits := by
    intro f hf
    obtain ⟨p, hp, rfl⟩ := List.mem_map.mp hf
    exact (hnames p hp).fits (hsize p hp)
  unfold readFiles
  rw [hread]
  dsimp only
  rw [Tar.decode_encode hfits]
  dsimp only
  rw [filesOf_members hnames]

/-- The files of an archive that was written. -/
theorem readFiles_encode {d : Disk} {path : String} (hconfig : config.IsMade) (hlayers : ∀ l ∈ layers, l.IsMade)
    (hsize : (encode config layers tags).length < 2 ^ 64) (hread : d.read path = .ok (encode config layers tags)) :
    readFiles d path = .ok (parts config layers tags).reverse := by
  rw [encode_eq] at hsize hread
  refine readFiles_members (isMemberName_of_mem_parts hconfig hlayers) (fun p hp => ?_) hread
  refine Nat.lt_of_le_of_lt (Nat.le_trans ?_ (sum_length_le (parts config layers tags))) hsize
  obtain ⟨front, back, hsplit⟩ := List.append_of_mem hp
  rw [hsplit, List.map_append, List.sum_append, List.map_cons, List.sum_cons]
  omega

/-! ### Finding members -/

theorem lookup_of_mem {files : Files} (hmem : name ∈ files.map Prod.fst) (hsame : ∀ p ∈ files, p.1 = name → p.2 = data) :
    files.lookup name = some data := by
  induction files with
  | nil => cases hmem
  | cons p files ih =>
    rw [List.lookup_cons]
    by_cases hp : name = p.1
    · rw [hp, beq_self_eq_true]
      exact congrArg some (hsame p (by simp) hp.symm)
    · rw [show (name == p.1) = false by simpa using hp]
      refine ih ?_ fun q hq => hsame q (by simp [hq])
      rw [List.map_cons, List.mem_cons] at hmem
      exact hmem.resolve_left hp

theorem mem_parts {p : String × Bytes} : p ∈ (parts config layers tags).reverse ↔ (∃ l ∈ layers, (layerName l, l.data) = p) ∨
    p = (configName config, config.data) ∨ p = (manifestName, manifestOf config layers tags) := by
  rw [List.mem_reverse, parts, List.mem_append, List.mem_map, List.mem_cons, List.mem_singleton]

theorem length_layerName (h : layer.IsMade) : (layerName layer).toList.length = 74 := by
  rw [layerName_eq h, String.toList_append, List.length_append, (Store.isImageId_hexOf layer.data).length]
  decide

theorem length_configName (h : config.IsMade) : (configName config).toList.length = 69 := by
  rw [configName_eq h, String.toList_append, List.length_append, (Store.isImageId_hexOf config.data).length]
  decide

theorem length_manifestName : manifestName.toList.length = 13 := by decide

section Finding
variable (hconfig : config.IsMade) (hlayers : ∀ l ∈ layers, l.IsMade)
include hconfig hlayers

theorem lookup_manifestName : (parts config layers tags).reverse.lookup manifestName = some (manifestOf config layers tags) := by
  refine lookup_of_mem ?_ fun p hp hname => ?_
  · simp [parts]
  · rcases mem_parts.mp hp with ⟨l, hl, rfl⟩ | rfl | rfl
    · have hname : layerName l = manifestName := hname
      have hlength := length_layerName (hlayers l hl)
      rw [hname, length_manifestName] at hlength
      cases hlength
    · have hname : configName config = manifestName := hname
      have hlength := length_configName hconfig
      rw [hname, length_manifestName] at hlength
      cases hlength
    · dsimp only

theorem lookup_configName : (parts config layers tags).reverse.lookup (configName config) = some config.data := by
  have hlength := length_configName hconfig
  refine lookup_of_mem ?_ fun p hp hname => ?_
  · simp [parts]
  · rcases mem_parts.mp hp with ⟨l, hl, rfl⟩ | rfl | rfl
    · have hname : layerName l = configName config := hname
      rw [← hname, length_layerName (hlayers l hl)] at hlength
      cases hlength
    · rfl
    · have hname : manifestName = configName config := hname
      rw [← hname, length_manifestName] at hlength
      cases hlength

/-- A layer is found by its name, unless another has its digest. -/
theorem lookup_layerName (hlayer : layer ∈ layers)
    (hunique : ∀ l ∈ layers, Digest.hexOf l.data = Digest.hexOf layer.data → l.data = layer.data) :
    (parts config layers tags).reverse.lookup (layerName layer) = some layer.data := by
  have hmade := hlayers layer hlayer
  have hlength := length_layerName hmade
  refine lookup_of_mem ?_ fun p hp hname => ?_
  · exact List.mem_map.mpr ⟨_, mem_parts.mpr (Or.inl ⟨layer, hlayer, rfl⟩), rfl⟩
  · rcases mem_parts.mp hp with ⟨l, hl, rfl⟩ | rfl | rfl
    · refine hunique l hl ?_
      have hname : layerName l = layerName layer := hname
      rw [layerName_eq (hlayers l hl), layerName_eq hmade] at hname
      have hlists := congrArg String.toList hname
      rw [String.toList_append, String.toList_append] at hlists
      exact String.toList_injective (List.append_cancel_right hlists)
    · have hname : configName config = layerName layer := hname
      rw [← hname, length_configName hconfig] at hlength
      cases hlength
    · have hname : manifestName = layerName layer := hname
      rw [← hname, length_manifestName] at hlength
      cases hlength

theorem lookup_layers (hunique : ∀ a ∈ layers, ∀ b ∈ layers, Digest.hexOf a.data = Digest.hexOf b.data → a.data = b.data) :
    List.Forall₂ (fun name data => (parts config layers tags).reverse.lookup name = some data) (layers.map layerName)
      (layers.map Blob.data) := by
  rw [List.forall₂_map_left_iff, List.forall₂_map_right_iff, List.forall₂_same]
  exact fun l hl => lookup_layerName hconfig hlayers hl fun b hb => hunique b hb l hl

/-- The manifest says of the image what was written of it. -/
theorem entriesOf_parts : entriesOf (parts config layers tags).reverse = .ok [entryOf config layers tags] := by
  unfold entriesOf
  rw [lookup_manifestName hconfig hlayers]
  dsimp only
  rw [manifestOf, Document.parseBytes?_compact]

end Finding
end Archive
end Depot
