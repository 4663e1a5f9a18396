import Depot.Proofs.Archive.Members
import Depot.Proofs.Archive.Writing
import Depot.Proofs.Reference.Canonical
import Depot.Proofs.Store.Filing
import Mathlib.Data.UInt

/-! Loading an archive that was written loses nothing. A fresh store takes the layers one after the other, then the
    config, then what is known of the image, and gives the image every name of the archive that is a reference. -/

namespace Depot.Archive
open Digest (hexOf)

variable {s : Store} {f g : Store.Contents} {files : Files} {config : Blob} {layers : List Blob} {tags : List String}
variable {h : Host} {path : String}

/-! ### Layers -/

/-- The total size of layers, as it is counted. -/
def countedSize (layers : List Bytes) : UInt64 := (layers.map fun data => UInt64.ofNat data.length).sum

theorem countedSize_eq (layers : List Bytes) : countedSize layers = UInt64.ofNat (layers.map List.length).sum := by
  unfold countedSize
  induction layers with
  | nil => rfl
  | cons data layers ih => rw [List.map_cons, List.map_cons, List.sum_cons, List.sum_cons, ih, UInt64.ofNat_add]

theorem toNat_countedSize {layers : List Bytes} (hsize : (layers.map List.length).sum < 2 ^ 64) :
    (countedSize layers).toNat = (layers.map List.length).sum := by
  rw [countedSize_eq, UInt64.toNat_ofNat', Nat.mod_eq_of_lt hsize]

/-- The layers of an archive are together no longer than a file can be. -/
theorem sum_length_lt (hsize : (encode config layers tags).length < 2 ^ 64) :
    (layers.map fun l => l.data.length).sum < 2 ^ 64 := by
  have hparts := sum_length_le (parts config layers tags)
  rw [← encode_eq] at hparts
  refine Nat.lt_of_le_of_lt (Nat.le_trans ?_ hparts) hsize
  unfold parts
  rw [List.map_append, List.sum_append, List.map_map]
  exact Nat.le_add_right _ _

theorem loadLayers_cons (s : Store) (files : Files) (name : String) (names : List String) :
    loadLayers s files (name :: names) = Act.ofExcept (member files name) >>= fun data => s.addLayer data >>= fun digest =>
      loadLayers s files names >>= fun rest => pure (digest :: rest.1, UInt64.ofNat data.length + rest.2) := by
  delta loadLayers
  dsimp only

theorem goes_loadLayers {names : List String} {layers : List Bytes}
    (hfound : List.Forall₂ (fun name data => files.lookup name = some data) names layers) :
    s.Goes f (loadLayers s files names) fun r g =>
      r = .ok (layers.map Digest.ofBytes, countedSize layers) ∧ g = f.withLayers layers := by
  induction hfound generalizing f with
  | nil => exact .pure _ ⟨rfl, rfl⟩
  | @cons name data names layers hname _ ih =>
    have hmember : member files name = .ok data := by
      unfold member
      rw [hname]
    rw [loadLayers_cons, hmember, Act.ofExcept_ok_bind]
    refine (Store.goes_addLayer data).bind ?_
    rintro _ rfl
    refine ih.bind ?_
    rintro _ rfl
    exact .pure _ ⟨rfl, rfl⟩

/-! ### Images -/

theorem namesOf_eq (tags : List String) :
    namesOf tags = tags.filterMap fun tag => (Reference.parse tag).toOption.map Reference.canonicalName := by
  unfold namesOf
  congr 1
  funext tag
  cases Reference.parse tag <;> rfl

theorem mem_namesOf {name : String} : name ∈ namesOf tags ↔ ∃ tag ∈ tags, ∃ r, Reference.parse tag = .ok r ∧ r.canonicalName = name := by
  rw [namesOf_eq, List.mem_filterMap]
  refine exists_congr fun tag => and_congr_right fun _ => ?_
  cases Reference.parse tag <;> simp [Except.toOption]

/-- The names that an image gets are canonical, unless one is so long that it cannot be read again. -/
theorem isCanonical_of_mem_namesOf (hnames : ∀ tag ∈ tags, ∀ r, Reference.parse tag = .ok r → r.name.utf8ByteSize ≤ 255) :
    ∀ name ∈ namesOf tags, Store.IsCanonical name := by
  intro name hname
  obtain ⟨tag, htag, r, hr, rfl⟩ := mem_namesOf.mp hname
  exact ⟨_, (Reference.isGrammatical_of_parse hr).parse_canonicalName (hnames tag htag r hr), rfl⟩

/-- The contents are those of a store that holds one image and no more. -/
structure Loaded (config : Blob) (layers : List Blob) (tags : List String) (f : Store.Contents) : Prop where
  stored : f (.config (hexOf config.data)) = some config.data
  layer : ∀ l ∈ layers, f (.layer (hexOf l.data)) = some l.data
  known : ∃ now, f.metadata (hexOf config.data) = .ok ⟨hexOf config.data, (namesOf tags).eraseDups,
    some (Digest.ofBytes config.data), now, countedSize (layers.map Blob.data), (layers.map Blob.data).map Digest.ofBytes⟩

section Loading
variable (hunique : ∀ a ∈ layers, ∀ b ∈ layers, hexOf a.data = hexOf b.data → a.data = b.data)
variable (hnames : ∀ tag ∈ tags, ∀ r, Reference.parse tag = .ok r → r.name.utf8ByteSize ≤ 255)
include hunique hnames

theorem goes_loadEntry (hconfig : files.lookup (configName config) = some config.data)
    (hlayers : List.Forall₂ (fun name data => files.lookup name = some data) (layers.map layerName) (layers.map Blob.data)) :
    s.Goes (fun _ => none) (loadEntry s files (entryOf config layers tags)) fun r g =>
      r = .ok (hexOf config.data) ∧ Loaded config layers tags g := by
  have hmember : member files (configName config) = .ok config.data := by
    unfold member
    rw [hconfig]
  have hid := Store.isImageId_hexOf config.data
  -- What is stored before anything is known of the image.
  generalize hstored : (Store.Contents.withLayers (fun _ => none) (layers.map Blob.data)).put
    (.config (hexOf config.data)) config.data = f
  have hlayer : ∀ l ∈ layers, f (.layer (hexOf l.data)) = some l.data := by
    have hfaithful : Store.Contents.Faithful (fun _ => none) (layers.map Blob.data) := fun b _ c hc => by cases hc
    intro l hl
    rw [← hstored, Store.Contents.put_of_ne (by simp)]
    refine hfaithful.withLayers (fun b hb => hb) ?_ l.data (List.mem_map_of_mem hl)
    rintro _ ha _ hb
    obtain ⟨a, hmemA, rfl⟩ := List.mem_map.mp ha
    obtain ⟨b, hmemB, rfl⟩ := List.mem_map.mp hb
    exact hunique a hmemA b hmemB
  have hunknown : f.Unknown := by
    constructor
    · rw [← hstored, Store.Contents.put_of_ne (by simp), Store.Contents.withLayers_of_ne (by simp)]
    · intro id
      rw [← hstored, Store.Contents.put_of_ne (by simp), Store.Contents.withLayers_of_ne (by simp)]
  show s.Goes _ (Act.ofExcept (member files (configName config)) >>= fun data =>
    loadLayers s files (layers.map layerName) >>= fun x => s.saveConfig (hexOf data) data >>= fun _ =>
      s.add (hexOf data) (namesOf tags) (some (Digest.ofBytes data)) x.1 x.2 >>= fun _ => pure (hexOf data)) _
  rw [hmember, Act.ofExcept_ok_bind]
  refine (goes_loadLayers hlayers).bind ?_
  rintro _ rfl
  refine (Store.turns_saveConfig hid.isFileName config.data).goes.bind ?_
  rintro _ rfl
  rw [hstored]
  have hadd := (Store.turns_add (s := s) hunknown.sound hid.isFileName (namesOf tags) (some (Digest.ofBytes config.data))
    ((layers.map Blob.data).map Digest.ofBytes) (countedSize (layers.map Blob.data))).goes
  refine Store.Goes.bind (a := ()) (W := Loaded config layers tags) (hadd.mono ?_) fun g hg => .pure _ ⟨rfl, hg⟩
  rintro r g ⟨now, hg⟩
  obtain ⟨g', hg', hmetadata, hframe⟩ := Store.Contents.add_sole hid (hunknown.sole _) (hunknown.metadata _)
    (isCanonical_of_mem_namesOf hnames) (some (Digest.ofBytes config.data))
    ((layers.map Blob.data).map Digest.ofBytes) (countedSize (layers.map Blob.data)) now
  obtain ⟨rfl, rfl⟩ := Prod.mk.inj (hg.trans hg')
  refine ⟨rfl, ?_, fun l hl => ?_, now, hmetadata⟩
  · rw [hframe _ (by simp) (by simp), ← hstored, Store.Contents.put_self]
  · rw [hframe _ (by simp) (by simp), hlayer l hl]

/-- What is loaded from an archive that was written is what was written. -/
theorem goes_load (hconfig : config.IsMade) (hlayers : ∀ l ∈ layers, l.IsMade)
    (hsize : (encode config layers tags).length < 2 ^ 64) (hread : h.disk.read path = .ok (encode config layers tags)) :
    ∃ x, load s path h = x h ∧ s.Goes (fun _ => none) x fun r g => r = .ok [hexOf config.data] ∧ Loaded config layers tags g := by
  have hfound : (parts config layers tags).reverse.lookup (configName config) = some config.data :=
    lookup_configName hconfig hlayers
  have hentry := goes_loadEntry (s := s) hunique hnames hfound (lookup_layers hconfig hlayers hunique)
  refine ⟨loadEntries s (parts config layers tags).reverse [entryOf config layers tags], ?_, ?_⟩
  · unfold load
    rw [Act.bind_of_ok (x := Act.state) (s := h) rfl, readFiles_encode hconfig hlayers hsize hread, Act.ofExcept_ok_bind,
      entriesOf_parts hconfig hlayers, Act.ofExcept_ok_bind]
  · show s.Goes _ (loadEntry s (parts config layers tags).reverse (entryOf config layers tags) >>= fun id =>
      pure [] >>= fun ids => pure (id :: ids)) _
    exact hentry.bind fun g hg => .pure _ ⟨rfl, hg⟩

end Loading

/-- An archive that was written is loaded into a fresh store without loss: the config and the layers byte for byte,
    the digests of the layers in order, their total size, and every name that is a reference, in order and once. -/
theorem load_written {quiet : Bool} {h₀ : Host} (hconfig : config.IsMade) (hlayers : ∀ l ∈ layers, l.IsMade)
    (hunique : ∀ a ∈ layers, ∀ b ∈ layers, hexOf a.data = hexOf b.data → a.data = b.data)
    (hnames : ∀ tag ∈ tags, ∀ r, Reference.parse tag = .ok r → r.name.utf8ByteSize ≤ 255)
    (hsize : (encode config layers tags).length < 2 ^ 64)
    (hwritten : (write path config layers tags quiet h₀).1 = .ok ())
    (hthere : h.disk.read path = (write path config layers tags quiet h₀).2.disk.read path) (hfresh : s.Fresh h) :
    ∃ h', load s path h = (.ok [hexOf config.data], h') ∧
      s.config h'.disk (hexOf config.data) = .ok config.data ∧
      (∃ m, s.metadata h'.disk (hexOf config.data) = .ok m ∧
        m.layers = layers.map (fun l => Digest.ofBytes l.data) ∧
        m.size.toNat = (layers.map fun l => l.data.length).sum ∧
        m.repoTags = (tags.filterMap fun tag => (Reference.parse tag).toOption.map Reference.canonicalName).eraseDups) ∧
      ∀ l ∈ layers, h'.disk.read (s.layerFile (hexOf l.data)) = .ok l.data := by
  obtain ⟨x, hload, hgoes⟩ := goes_load (s := s) hunique hnames hconfig hlayers hsize (hthere.trans (read_write hwritten))
  obtain ⟨g, -, hshows, hresult, hloaded⟩ := hgoes h hfresh.ready hfresh.isEmpty.shows
  obtain ⟨now, hknown⟩ := hloaded.known
  have hname {b : Bytes} : IsName (hexOf b) := (Store.isImageId_hexOf b).isName
  refine ⟨(x h).2, hload.trans (Prod.ext hresult rfl), ?_, ⟨_, (hshows.metadata hname).trans hknown, ?_, ?_, ?_⟩, ?_⟩
  · have hread : (x h).2.disk.read (s.configFile (hexOf config.data)) = .ok config.data :=
      ((hshows (.config (hexOf config.data)) hname).2 config.data).mpr hloaded.stored
    unfold Store.config
    rw [hread]
  · exact List.map_map
  · have hlengths : ((layers.map Blob.data).map List.length).sum = (layers.map fun l => l.data.length).sum := by
      rw [List.map_map]
      rfl
    have hcounted := toNat_countedSize (hlengths ▸ sum_length_lt hsize)
    exact hcounted.trans hlengths
  · show (namesOf tags).eraseDups = _
    rw [namesOf_eq]
  · exact fun l hl => ((hshows (.layer (hexOf l.data)) hname).2 l.data).mpr (hloaded.layer l hl)

/-! ### An archive -/

theorem length_manifestOf_lt {layer : Blob} {t u : String} (hconfig : config.IsMade) (hlayer : layer.IsMade)
    (ht : t.toList.length ≤ 300) (hu : u.toList.length ≤ 300) : (manifestOf config [layer, layer] [t, u]).length < 20000 := by
  have hconfigName := Json.length_renderText_le (configName config)
  have hlayerName := Json.length_renderText_le (layerName layer)
  have htText := Json.length_renderText_le t
  have huText := Json.length_renderText_le u
  rw [length_configName hconfig] at hconfigName
  rw [length_layerName hlayer] at hlayerName
  have hfixed : ∀ text ∈ ["Config", "RepoTags", "Layers"], (Json.renderText (some text)).length ≤ 10 := by
    decide
  simp only [List.forall_mem_cons] at hfixed
  unfold manifestOf Document.compact Json.compact
  rw [Bytes.length_ofText]
  refine Nat.lt_of_le_of_lt (Bytes.utf8ByteSize_le _) ?_
  rw [String.toList_ofList]
  simp [Document.toJson, entryOf, Json.renderAt, Json.renderItems, Json.renderMembers, Json.ofFields, Json.ofTexts,
    Json.ofText, Json.Layout.compact]
  omega

theorem length_encode_named_lt {layer : Blob} {t u : String} (hconfig : config.IsMade) (hlayer : layer.IsMade)
    (hempty : config.data.length = 0 ∧ layer.data.length = 0) (ht : t.toList.length ≤ 300) (hu : u.toList.length ≤ 300) :
    (encode config [layer, layer] [t, u]).length < 2 ^ 64 := by
  have hmanifest := length_manifestOf_lt hconfig hlayer ht hu
  rw [length_encode hconfig (by simp [hlayer])]
  simp only [parts, List.map_cons, List.map_nil, List.cons_append, List.nil_append, List.sum_cons, List.sum_nil,
    Tar.roundUp]
  omega

theorem length_encode_lt {layer : Blob} (hconfig : config.IsMade) (hlayer : layer.IsMade)
    (hempty : config.data.length = 0 ∧ layer.data.length = 0) :
    (encode config [layer, layer] ["alpine", "?"]).length < 2 ^ 64 :=
  length_encode_named_lt hconfig hlayer hempty (by decide) (by decide)

/-- A store without anything beside a file. -/
theorem fresh_besideFile (c : Bytes) : Store.Fresh ⟨"/depot"⟩ (.start ⟨[(["app.tar"], .file c), (["depot"], .folder),
    (["depot", "images"], .folder), (["depot", "layers"], .folder)], []⟩ (fun _ => .epoch) (fun _ => "") .cut) := by
  refine ⟨rfl, by decide, rfl, rfl, fun folder x rest hfolder => ?_, rfl⟩
  rw [show Disk.placeOf _ "/depot" = ["depot"] from rfl]
  rcases hfolder with rfl | rfl <;> simp [Host.start, Disk.node?, List.lookup_cons]

theorem short_of_parse_alpine : ∀ tag ∈ ["alpine", "?"], ∀ r, Reference.parse tag = .ok r → r.name.utf8ByteSize ≤ 255 := by
  have hall : ["alpine", "?"].all fun tag => (Reference.parse tag).toOption.all fun r => r.name.utf8ByteSize ≤ 255 := by
    decide +kernel
  intro tag htag r hr
  have hshort := List.all_eq_true.mp hall tag htag
  rw [hr] at hshort
  exact of_decide_eq_true hshort

/-- An image with an empty layer twice, a name and a text that is none, saved and loaded beside the archive. -/
theorem load_written_alpine :
    let config : Blob := .of MediaType.config []
    let layer : Blob := .of MediaType.layer []
    let s : Store := ⟨"/depot"⟩
    let h₀ : Host := .start ⟨[], []⟩ (fun _ => .epoch) (fun _ => "0") .cut
    let h : Host := .start ⟨[(["app.tar"], .file (encode config [layer, layer] ["alpine", "?"])), (["depot"], .folder),
      (["depot", "images"], .folder), (["depot", "layers"], .folder)], []⟩ (fun _ => .epoch) (fun _ => "") .cut
    (write "/app.tar" config [layer, layer] ["alpine", "?"] true h₀).1 = .ok () ∧ s.Fresh h ∧
      ∃ h', load s "/app.tar" h = (.ok [hexOf []], h') ∧ s.config h'.disk (hexOf []) = .ok [] ∧
        ∃ m, s.metadata h'.disk (hexOf []) = .ok m ∧ m.layers = [Digest.ofBytes [], Digest.ofBytes []] ∧
          m.size.toNat = 0 ∧ m.repoTags = ["docker.io/library/alpine:latest"] := by
  intro config layer s h₀ h
  have hconfig : config.IsMade := ⟨MediaType.config, rfl⟩
  have hlayer : layer.IsMade := ⟨MediaType.layer, rfl⟩
  have hlayers : ∀ l ∈ [layer, layer], l.IsMade := by simp [hlayer]
  have hwritten : (write "/app.tar" config [layer, layer] ["alpine", "?"] true h₀).1 = .ok () := by decide +kernel
  have hread (c : Bytes) : Disk.read ⟨[(["app.tar"], .file c), (["depot"], .folder), (["depot", "images"], .folder),
      (["depot", "layers"], .folder)], []⟩ "/app.tar" = .ok c := rfl
  have hfresh : s.Fresh h := fresh_besideFile _
  obtain ⟨h', hload, hstored, ⟨m, hm, hdigests, hcount, htags⟩, -⟩ := load_written (s := s) (h := h) hconfig hlayers
    (by simp) short_of_parse_alpine (length_encode_lt hconfig hlayer ⟨List.length_nil, List.length_nil⟩) hwritten
    ((hread _).trans (read_write hwritten).symm) hfresh
  refine ⟨hwritten, hfresh, h', hload, hstored, m, hm, hdigests, hcount, htags.trans ?_⟩
  decide +kernel

end Depot.Archive
