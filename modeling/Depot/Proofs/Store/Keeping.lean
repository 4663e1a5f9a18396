import Depot.Proofs.Store.Runs

/-! What the operations of a store keep of the disk. All that they do to it is to make the folder of an image, to write
    what is known of an image and to write the index. So a property that each of these keeps is kept by every operation,
    whatever it ends with: the disk may refuse any of the changes. -/

namespace Depot

namespace Host
variable {α β : Type} {I : Disk → Prop} {x : Act Host α} {k : α → Act Host β}

/-- What holds of the disk holds of it still, whatever `x` ends with. -/
def Keeps (I : Disk → Prop) (x : Act Host α) : Prop := ∀ h, I h.disk → I (x h).2.disk

theorem keeps_of_disk (hx : ∀ h, (x h).2.disk = h.disk) : Keeps I x := by
  intro h hh
  rwa [hx]

theorem Keeps.bind (hx : Keeps I x) (hk : ∀ a, Keeps I (k a)) : Keeps I (x >>= k) := by
  intro h hh
  have hh' := hx h hh
  rw [Act.bind_apply]
  generalize x h = out at hh'
  rcases out with ⟨_ | a, h'⟩
  · exact hh'
  · exact hk a h' hh'

/-- A computation that begins by looking at its surroundings. -/
theorem keeps_state {k : Host → Act Host β} (hk : ∀ h, I h.disk → Keeps I (k h)) : Keeps I (Act.state >>= k) :=
  fun h hh => hk h hh h hh

theorem keeps_write {path : String} {c : Bytes} (hwrite : ∀ d d', I d → d.write path c = .ok d' → I d') :
    Keeps I (Host.write path c) := by
  intro h hh
  rcases Host.alter_cases (·.write path c) h with ⟨e, he⟩ | ⟨d, hd, he⟩
  · rw [Host.write, he]
    exact hh
  · rw [Host.write, he]
    exact hwrite _ _ hh hd

theorem keeps_makeFolders {path : String} (hmake : ∀ d, I d → I (d.makeFolders path).2) : Keeps I (Host.makeFolders path) := by
  intro h hh
  rcases Host.alterPartly_cases (·.makeFolders path) h with ⟨e, he⟩ | he
  · rw [Host.makeFolders, he]
    exact hh
  · rw [Host.makeFolders, he]
    exact hmake _ hh

end Host

namespace Index
variable {names ids : String → Prop} {i : Index} {name id : String}

/-- The index has only names of one kind, and for them only images of one kind. -/
def Only (names ids : String → Prop) (i : Index) : Prop := ∀ name id, i.tags.get? name = some id → names name ∧ ids id

theorem only_empty : empty.Only names ids := by
  intro name id hid
  cases hid

theorem Only.shortIds (h : i.Only names ids) (shortIds : Dictionary) : Only names ids { i with shortIds } := h

theorem Only.insert (h : i.Only names ids) (hname : names name) (hid : ids id) :
    Only names ids { i with tags := i.tags.insert name id } := by
  intro name' id' hget
  rw [Dictionary.get?_insert] at hget
  split at hget
  · next heq =>
    cases hget
    exact ⟨heq ▸ hname, hid⟩
  · exact h name' id' hget

theorem Only.erase (h : i.Only names ids) (name : String) : Only names ids { i with tags := i.tags.erase name } := by
  intro name' id hget
  rw [Dictionary.get?_erase] at hget
  split at hget
  · cases hget
  · exact h name' id hget

end Index

namespace Store

/-- A property of the disk that stays when a folder of an image is made, what is known of an image is written, or an
    index, as long as images and names are of some kinds; and those that are found there are of these kinds. -/
structure Invariant (s : Store) (names ids : String → Prop) (I : Disk → Prop) : Prop where
  folder : ∀ d id, I d → ids id → I (d.makeFolders (s.imageFolder id)).2
  metadata : ∀ d d' (m : Metadata), I d → ids m.id →
    d.write (s.metadataFile m.id) (Bytes.ofText (Document.pretty m)) = .ok d' → I d'
  index : ∀ d d' (i : Index), I d → i.Only names ids → d.write s.indexFile (Bytes.ofText (Document.pretty i)) = .ok d' → I d'
  known : ∀ d id m, I d → ids id → s.metadata d id = .ok m → ids m.id
  indexed : ∀ d, I d → (s.indexOrEmpty d).Only names ids
  parsed : ∀ text r, Reference.parse text = .ok r → names r.canonicalName

/-- The images of the call are of one kind, and so is the name that it gives. -/
def Call.Of (names ids : String → Prop) : Call → Prop
  | add id .. => ids id
  | tag id r => ids id ∧ names r.canonicalName
  | untag _ => True

namespace Invariant
open Host (Keeps keeps_of_disk keeps_state)
variable {s : Store} {names ids : String → Prop} {I : Disk → Prop} {m : Metadata} {i : Index} {id : String} {r : Reference}

theorem keeps_saveMetadata (hI : s.Invariant names ids I) (hm : ids m.id) : Keeps I (s.saveMetadata m) :=
  Host.keeps_write fun d d' hd hwrite => hI.metadata d d' m hd hm hwrite

theorem keeps_saveIndex (hI : s.Invariant names ids I) (hi : i.Only names ids) : Keeps I (s.saveIndex i) :=
  Host.keeps_write fun d d' hd hwrite => hI.index d d' i hd hi hwrite

theorem keeps_releaseName (hI : s.Invariant names ids I) (hid : ids id) (name : String) : Keeps I (s.releaseName id name) := by
  intro h hh
  unfold releaseName
  split
  · exact hh
  · next m hm =>
    have hid' : ids m.id := hI.known _ _ m hh hid hm
    exact hI.keeps_saveMetadata (m := { m with repoTags := m.repoTags.filter (· ≠ name) }) hid' h hh

theorem keeps_claimName (hI : s.Invariant names ids I) (hm : ids m.id) (name : String) : Keeps I (s.claimName m name) := by
  unfold claimName
  split
  · exact keeps_of_disk fun _ => rfl
  · exact hI.keeps_saveMetadata hm

/-- What is done with what is known of an image, if anything is. -/
theorem keeps_known {k : Metadata → Act Host Unit} (hI : s.Invariant names ids I) (hid : ids id)
    (hk : ∀ m, ids m.id → Keeps I (k m)) :
    Keeps I (Act.state >>= fun h => Act.ofExcept (s.metadata h.disk id) >>= k) := by
  refine keeps_state fun h hh => ?_
  cases hm : s.metadata h.disk id with
  | error e => exact keeps_of_disk fun _ => rfl
  | ok m =>
    rw [Act.ofExcept_ok_bind]
    exact hk m (hI.known _ _ m hh hid hm)

/-- The end of naming an image. -/
theorem keeps_named (hI : s.Invariant names ids I) (hi : i.Only names ids) (hid : ids id) (name : String) :
    Keeps I (Act.state >>= fun h => Act.ofExcept (s.metadata h.disk id) >>= fun m => s.claimName m name >>= fun _ =>
      s.saveIndex i) :=
  hI.keeps_known hid fun _ hm => (hI.keeps_claimName hm name).bind fun _ => hI.keeps_saveIndex hi

theorem keeps_tag (hI : s.Invariant names ids I) (hid : ids id) (hname : names r.canonicalName) : Keeps I (s.tag id r) := by
  refine keeps_state fun h hh => ?_
  have hindexed := hI.indexed _ hh
  have hrest := hI.keeps_named (hindexed.insert hname hid) hid r.canonicalName
  dsimp only
  split
  · next holder hholder =>
    split
    · exact (hI.keeps_releaseName (hindexed _ _ hholder).2 _).bind fun _ => hrest
    · exact hrest
  · exact hrest

theorem keeps_untag (hI : s.Invariant names ids I) (r : Reference) : Keeps I (s.untag r) := by
  refine keeps_state fun h hh => ?_
  have hindexed := hI.indexed _ hh
  dsimp only
  split
  · exact keeps_of_disk fun _ => rfl
  · next id hholder =>
    cases hm : s.metadata h.disk id with
    | error e => exact keeps_of_disk fun _ => rfl
    | ok m =>
      rw [Act.ofExcept_ok_bind]
      have hid : ids m.id := hI.known _ _ m hh (hindexed _ _ hholder).2 hm
      have hsave := hI.keeps_saveMetadata (m := { m with repoTags := m.repoTags.filter (· ≠ r.canonicalName) }) hid
      exact hsave.bind fun _ => hI.keeps_saveIndex (hindexed.erase _)

theorem keeps_tagAll (hI : s.Invariant names ids I) (hid : ids id) (texts : List String) : Keeps I (s.tagAll id texts) := by
  induction texts with
  | nil => exact keeps_of_disk fun _ => rfl
  | cons text texts ih =>
    show Keeps I (Act.ofExcept ((Reference.parse text).mapError .reference) >>= fun r => s.tag id r >>= fun _ =>
      s.tagAll id texts)
    cases hparse : Reference.parse text with
    | error e => exact keeps_of_disk fun _ => rfl
    | ok r =>
      rw [show (Except.ok r : Except ReferenceError Reference).mapError Error.reference = .ok r from rfl,
        Act.ofExcept_ok_bind]
      exact (hI.keeps_tag hid (hI.parsed text r hparse)).bind fun _ => ih

/-- The end of storing an image. -/
theorem keeps_filed (hI : s.Invariant names ids I) (hid : ids id) (texts : List String) :
    Keeps I (Act.state >>= fun h => match indexedId? id with
    | none => Act.fail (.dividedCharacter id)
    | some short =>
      s.saveIndex { s.indexOrEmpty h.disk with shortIds := (s.indexOrEmpty h.disk).shortIds.insert short id } >>=
        fun _ => s.tagAll id texts) := by
  refine keeps_state fun h hh => ?_
  split
  · exact keeps_of_disk fun _ => rfl
  · exact (hI.keeps_saveIndex ((hI.indexed _ hh).shortIds _)).bind fun _ => hI.keeps_tagAll hid texts

theorem keeps_add (hI : s.Invariant names ids I) (hid : ids id) (texts : List String) (digest : Option String)
    (layers : List String) (size : UInt64) : Keeps I (s.add id texts digest layers size) := by
  refine (Host.keeps_makeFolders fun d hd => hI.folder d id hd hid).bind fun _ => keeps_state fun h _ => ?_
  dsimp only
  split
  · exact (hI.keeps_saveMetadata hid).bind fun _ => hI.keeps_filed hid texts
  · exact (keeps_of_disk fun _ => rfl).bind fun _ => (hI.keeps_saveMetadata hid).bind fun _ => hI.keeps_filed hid texts

theorem keeps_call {c : Call} (hI : s.Invariant names ids I) (hc : c.Of names ids) : Keeps I (c.run s) := by
  cases c with
  | add id texts digest layers size => exact hI.keeps_add hc texts digest layers size
  | tag id r => exact hI.keeps_tag hc.1 hc.2
  | untag r => exact hI.keeps_untag r

end Invariant
end Store
end Depot
