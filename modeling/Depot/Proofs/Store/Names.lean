import Depot.Proofs.Reference.Canonical
import Depot.Proofs.Store.Keeping
import Depot.Store.Lookup

/-! The names in the index of a store are canonical. As long as the names that are given and taken are read by the
    grammar, every operation keeps this, whatever it ends with: the disk may refuse any of its changes, and the ids of
    images may be any texts, even such that their folders are elsewhere. -/

namespace Depot

namespace Index
variable {i : Index} {r : Reference}

/-- The names in the index are canonical names of references of the grammar. -/
def Canonical (i : Index) : Prop :=
  ∀ name id, i.tags.get? name = some id → ∃ r : Reference, r.IsGrammatical ∧ r.canonicalName = name

theorem canonical_empty : empty.Canonical := by
  intro name id hid
  cases hid

theorem Canonical.insert (h : i.Canonical) (hr : r.IsGrammatical) (id : String) :
    Canonical { i with tags := i.tags.insert r.canonicalName id } := by
  intro name id' hid
  rw [Dictionary.get?_insert] at hid
  split at hid
  · next heq => exact ⟨r, hr, heq.symm⟩
  · exact h name id' hid

end Index

/-- An image that is known by canonical names has as many names with a tag. -/
theorem LocalImage.taggedNames_of_canonical {image : LocalImage} {references : List Reference}
    (htags : image.metadata.repoTags = references.map Reference.canonicalName)
    (hreferences : ∀ r ∈ references, r.IsGrammatical ∧ r.name.utf8ByteSize ≤ 255) :
    image.taggedNames = .ok (references.map fun r => ⟨r.name, r.effectiveTag⟩) := by
  unfold taggedNames
  rw [htags, Reference.mapM_parse_canonicalName hreferences]
  simp only [List.filterMap_map]
  exact congrArg Except.ok (congrFun List.filterMap_eq_map references)

namespace Store

/-! ### Places -/

theorem placeOf_indexFile (s : Store) (d : Disk) : d.placeOf s.indexFile = d.placeOf s.root ++ ["images.json"] :=
  Disk.placeOf_join d s.root (by decide)

theorem placeOf_metadataFile (s : Store) (d : Disk) (id : String) :
    d.placeOf (s.metadataFile id) = d.placeOf (s.imageFolder id) ++ ["metadata.json"] :=
  Disk.placeOf_join d _ (by decide)

/-- The index is not where what is known of an image is, even if the image has an odd id. -/
theorem placeOf_indexFile_ne (s : Store) (d : Disk) (id : String) : d.placeOf s.indexFile ≠ d.placeOf (s.metadataFile id) := by
  rw [placeOf_indexFile, placeOf_metadataFile]
  intro h
  have hlast := congrArg List.getLast? h
  rw [List.getLast?_concat, List.getLast?_concat] at hlast
  exact absurd hlast (by decide)

/-! ### Canonical names -/

section Names
variable {α : Type} {s : Store} {d d' : Disk} {i : Index}

/-- The file of the index, if it can be understood, has canonical names only. It need not be one that can be reached. -/
def Canonical (s : Store) (d : Disk) : Prop :=
  ∀ c i, d.node? (d.placeOf s.indexFile) = some (.file c) → (Bytes.text? c).bind Document.parse? = some i → Index.Canonical i

theorem IsEmpty.canonical (h : s.IsEmpty d) : s.Canonical d := by
  intro c i hnode
  have hnone := h .index trivial
  rw [show s.file .index = s.indexFile from rfl, hnode] at hnone
  cases hnone

theorem Canonical.kept {P : Place → Prop} (h : s.Canonical d) (hkept : Disk.Kept P d d')
    (hP : ¬P (d.placeOf s.indexFile)) : s.Canonical d' := by
  intro c i hnode
  rw [hkept.placeOf, hkept.file _ c hP] at hnode
  exact h c i hnode

theorem Canonical.index (h : s.Canonical d) (hi : s.index d = .ok i) : i.Canonical := by
  rw [index_ok_iff] at hi
  split at hi
  · obtain ⟨c, hread, hparse⟩ := hi
    exact h c i (Disk.read_ok_iff.mp hread).2.2 hparse
  · subst hi
    exact Index.canonical_empty

theorem Canonical.indexOrEmpty (h : s.Canonical d) : (s.indexOrEmpty d).Canonical := by
  unfold Store.indexOrEmpty
  split
  · next hi => exact h.index hi
  · exact Index.canonical_empty

/-- Canonical names stay canonical, whatever `x` ends with. -/
def Keeps (s : Store) (x : Act Host α) : Prop := ∀ h, s.Canonical h.disk → s.Canonical (x h).2.disk

theorem invariant_canonical (s : Store) :
    s.Invariant (fun name => ∃ r : Reference, r.IsGrammatical ∧ r.canonicalName = name) (fun _ => True) s.Canonical where
  folder d _ hd _ := hd.kept (Disk.makeFolders_kept d _) not_false
  metadata d _ m hd _ hwrite := hd.kept (Disk.write_ok hwrite).1 (placeOf_indexFile_ne s d m.id)
  index d d' i _ hi hwrite := by
    obtain ⟨-, hread⟩ := Disk.write_ok hwrite
    obtain ⟨-, -, hnode⟩ := Disk.read_ok_iff.mp hread
    intro c i' hnode' hi'
    have hc := Node.file.inj (Option.some.inj (hnode.symm.trans hnode'))
    rw [← hc, Document.parse?_text?_pretty] at hi'
    cases hi'
    exact fun name id hid => (hi name id hid).1
  known _ _ _ _ _ _ := trivial
  indexed _ hd name id hid := ⟨hd.indexOrEmpty name id hid, trivial⟩
  parsed _ r hparse := ⟨r, Reference.isGrammatical_of_parse hparse, rfl⟩

end Names

/-! ### Runs -/

/-- A call names and takes away only what the grammar reads. -/
def Call.Parsed : Call → Prop
  | add .. => True
  | tag _ r => ∃ text, Reference.parse text = .ok r
  | untag r => ∃ text, Reference.parse text = .ok r

/-- Calls one after the other, whatever they end with. -/
inductive Follows (s : Store) (start : Host) : Host → Prop
  | start : Follows s start start
  | call {h : Host} (c : Call) (hfollows : Follows s start h) (hparsed : c.Parsed) : Follows s start (c.run s h).2

section Runs
variable {s : Store} {start h : Host}

theorem keeps_call {c : Call} (hparsed : c.Parsed) : s.Keeps (c.run s) := by
  refine (invariant_canonical s).keeps_call ?_
  cases c with
  | add => trivial
  | tag id r =>
    obtain ⟨text, hr⟩ := hparsed
    exact ⟨trivial, r, Reference.isGrammatical_of_parse hr, rfl⟩
  | untag => trivial

theorem Follows.canonical (hstart : s.Canonical start.disk) (hfollows : s.Follows start h) : s.Canonical h.disk := by
  induction hfollows with
  | start => exact hstart
  | call c _ hparsed ih => exact keeps_call hparsed _ ih

end Runs
end Store
end Depot
