import Depot.Proofs.Disk.Names
import Depot.Proofs.Json.Documents
import Depot.Store

/-! What a store holds, as a function of its files. The files of a store lie at places of their own, so writing one
    of them changes the contents there and nowhere else; what is known of images and what the index says depend on
    the contents alone. -/

namespace Depot

namespace Store

/-! ### Files of a store -/

/-- What a store keeps in a file of its own. -/
inductive Item where
  | index
  | metadata (id : String)
  | config (id : String)
  | layer (hex : String)
  deriving DecidableEq

namespace Item

/-- The names on the way from the root of the store. -/
def names : Item → List String
  | .index => ["images.json"]
  | .metadata id => ["images", id, "metadata.json"]
  | .config id => ["images", id, "config.json"]
  | .layer hex => ["layers", hex, "layer.tar"]

/-- The item is filed under a name. -/
def Plain : Item → Prop
  | .index => True
  | .metadata id => IsName id
  | .config id => IsName id
  | .layer hex => IsName hex

theorem names_injective {i j : Item} (h : i.names = j.names) : i = j := by
  cases i <;> cases j <;> simp_all [names]

/-- The item is a layer. -/
def IsLayer : Item → Prop
  | .layer _ => True
  | _ => False

/-- The item tells of images and their names. -/
def IsRecord : Item → Prop
  | .index => True
  | .metadata _ => True
  | _ => False

end Item

/-- The file of an item. -/
def file (s : Store) : Item → String
  | .index => s.indexFile
  | .metadata id => s.metadataFile id
  | .config id => s.configFile id
  | .layer hex => s.layerFile hex

section Files
variable {s : Store} {d d' : Disk} {i j : Item} {P : Place → Prop}

theorem placeOf_file (hi : i.Plain) : d.placeOf (s.file i) = d.placeOf s.root ++ i.names := by
  have himages : IsName "images" := by decide
  have hlayers : IsName "layers" := by decide
  cases i with
  | index => exact Disk.placeOf_join d s.root (by decide)
  | metadata id =>
    show d.placeOf (Path.join (Path.join (Path.join s.root "images") id) "metadata.json") = _
    rw [Disk.placeOf_join d _ (by decide), Disk.placeOf_join d _ hi,
      Disk.placeOf_join d _ himages, List.append_assoc, List.append_assoc]
    rfl
  | config id =>
    show d.placeOf (Path.join (Path.join (Path.join s.root "images") id) "config.json") = _
    rw [Disk.placeOf_join d _ (by decide), Disk.placeOf_join d _ hi,
      Disk.placeOf_join d _ himages, List.append_assoc, List.append_assoc]
    rfl
  | layer hex =>
    show d.placeOf (Path.join (Path.join (Path.join s.root "layers") hex) "layer.tar") = _
    rw [Disk.placeOf_join d _ (by decide), Disk.placeOf_join d _ hi,
      Disk.placeOf_join d _ hlayers, List.append_assoc, List.append_assoc]
    rfl

theorem placeOf_file_inj (hi : i.Plain) (hj : j.Plain) (h : d.placeOf (s.file i) = d.placeOf (s.file j)) : i = j := by
  rw [placeOf_file hi, placeOf_file hj] at h
  exact Item.names_injective (List.append_cancel_left h)

/-! ### Reading -/

variable {m : Metadata} {x : Index} {id : String}

theorem metadata_ok_iff : s.metadata d id = .ok m ↔
    ∃ c, d.read (s.metadataFile id) = .ok c ∧ (Bytes.text? c).bind Document.parse? = some m := by
  unfold Store.metadata Disk.readText
  cases d.read (s.metadataFile id) with
  | error e => simp
  | ok c =>
    cases htext : Bytes.text? c with
    | none => simp [htext]
    | some text => cases hparse : (Document.parse? text : Option Metadata) <;> simp [htext, hparse]

theorem config_ok_iff {c : Bytes} : s.config d id = .ok c ↔ d.read (s.configFile id) = .ok c := by
  unfold Store.config
  cases d.read (s.configFile id) <;> simp

theorem index_ok_iff : s.index d = .ok x ↔ if d.exists? s.indexFile then
    ∃ c, d.read s.indexFile = .ok c ∧ (Bytes.text? c).bind Document.parse? = some x else .empty = x := by
  unfold Store.index Disk.readText
  split
  · cases d.read s.indexFile with
    | error e => simp
    | ok c =>
      cases htext : Bytes.text? c with
      | none => simp [htext]
      | some text => cases hparse : (Document.parse? text : Option Index) <;> simp [htext, hparse]
  · simp

theorem index_of_read (h : d.read s.indexFile = .ok (Bytes.ofText (Document.pretty x))) : s.index d = .ok x := by
  rw [index_ok_iff, if_pos (Disk.exists?_of_read h)]
  exact ⟨_, h, Document.parse?_text?_pretty x⟩

end Files

/-! ### Contents -/

/-- What is in the files of a store. -/
abbrev Contents := Item → Option Bytes

/-- The disk shows the contents of the store: where there is a file, it can be read. -/
def Shows (s : Store) (d : Disk) (f : Contents) : Prop :=
  ∀ i, i.Plain → d.Open (s.file i) ∧ ∀ c, d.read (s.file i) = .ok c ↔ f i = some c

namespace Contents

/-- The contents with a file written. -/
def put (f : Contents) (i : Item) (c : Bytes) : Contents := fun j => if j = i then some c else f j

@[simp] theorem put_self (f : Contents) (i : Item) (c : Bytes) : f.put i c i = some c := if_pos rfl

theorem put_of_ne {f : Contents} {i j : Item} {c : Bytes} (h : j ≠ i) : f.put i c j = f j := if_neg h

/-- A file that is there is written where it is. -/
theorem isSome_put {f : Contents} {i : Item} (hi : (f i).isSome) (c : Bytes) (j : Item) : (f.put i c j).isSome = (f j).isSome := by
  unfold put
  split
  · next heq => rw [heq, hi, Option.isSome_some]
  · rfl

/-- A file more takes nothing away. -/
theorem there_put (f : Contents) (i : Item) (c : Bytes) (j : Item) (hj : (f j).isSome) : (f.put i c j).isSome := by
  unfold put
  split
  · rfl
  · exact hj

/-- What is known of an image. -/
def metadata (f : Contents) (id : String) : Except Error Metadata :=
  match (f (.metadata id)).bind Bytes.text? with
  | none => .error (.imageNotFound id)
  | some text =>
    match Document.parse? text with
    | some m => .ok m
    | none => .error .json

/-- What the index says; nothing if it cannot be read. -/
def index (f : Contents) : Index := (((f .index).bind Bytes.text?).bind Document.parse?).getD .empty

/-- The contents when what is known of an image is written. -/
def setMetadata (f : Contents) (m : Metadata) : Contents := f.put (.metadata m.id) (Bytes.ofText (Document.pretty m))

/-- The contents when the index is written. -/
def setIndex (f : Contents) (i : Index) : Contents := f.put .index (Bytes.ofText (Document.pretty i))

section Laws
variable {f : Contents} {m : Metadata} {i : Index} {id : String}

theorem metadata_congr {g : Contents} (h : g (.metadata id) = f (.metadata id)) : g.metadata id = f.metadata id := by
  unfold metadata
  rw [h]

/-- What was written of an image is known of it. -/
theorem metadata_of_some (h : f (.metadata id) = some (Bytes.ofText (Document.pretty m))) : f.metadata id = .ok m := by
  unfold metadata
  rw [h, Option.bind_some, Bytes.text?_ofText]
  dsimp only
  rw [Document.parse?_pretty]

theorem metadata_eq_ok (hm : f.metadata id = .ok m) :
    ∃ c, f (.metadata id) = some c ∧ (Bytes.text? c).bind Document.parse? = some m := by
  unfold metadata at hm
  split at hm
  · cases hm
  · next text htext =>
    obtain ⟨c, hc, hread⟩ := Option.bind_eq_some_iff.mp htext
    split at hm
    · next hparse =>
      cases hm
      exact ⟨c, hc, by rw [hread, Option.bind_some, hparse]⟩
    · cases hm

theorem isSome_of_metadata (hm : f.metadata id = .ok m) : (f (.metadata id)).isSome := by
  obtain ⟨c, hc, -⟩ := metadata_eq_ok hm
  rw [hc]
  rfl

@[simp] theorem metadata_setIndex : (f.setIndex i).metadata id = f.metadata id := metadata_congr rfl

@[simp] theorem metadata_setMetadata : (f.setMetadata m).metadata id = if id = m.id then .ok m else f.metadata id := by
  split
  · next h => exact metadata_of_some (h ▸ put_self ..)
  · next h => exact metadata_congr (put_of_ne (by simpa using h))

@[simp] theorem index_setMetadata : (f.setMetadata m).index = f.index := rfl

theorem index_of_none (h : f .index = none) : f.index = .empty := by
  unfold index
  rw [h]
  rfl

theorem index_of_some (h : f .index = some (Bytes.ofText (Document.pretty i))) : f.index = i := by
  unfold index
  rw [h, Option.bind_some, Document.parse?_text?_pretty]
  rfl

@[simp] theorem index_setIndex : (f.setIndex i).index = i := index_of_some (put_self ..)

theorem metadata_of_none (h : f (.metadata id) = none) : f.metadata id = .error (.imageNotFound id) := by
  unfold metadata
  rw [h]
  rfl

end Laws

/-- The contents have the same index, and the same is known of images. -/
structure Alike (f g : Contents) : Prop where
  index : g .index = f .index
  metadata : ∀ id, IsName id → g (.metadata id) = f (.metadata id)

namespace Alike
variable {f g f' : Contents} {id : String}

theorem refl (f : Contents) : f.Alike f := ⟨rfl, fun _ _ => rfl⟩

theorem trans (h : f.Alike g) (h' : g.Alike f') : f.Alike f' where
  index := h'.index.trans h.index
  metadata id hid := (h'.metadata id hid).trans (h.metadata id hid)

theorem symm (h : f.Alike g) : g.Alike f := ⟨h.index.symm, fun id hid => (h.metadata id hid).symm⟩

theorem index_eq (h : f.Alike g) : g.index = f.index := by
  unfold Contents.index
  rw [h.index]

theorem metadata_eq (h : f.Alike g) (hid : IsName id) : g.metadata id = f.metadata id := metadata_congr (h.metadata id hid)

end Alike

theorem alike_put {f : Contents} {i : Item} (hindex : i ≠ .index) (hi : ∀ id, i ≠ .metadata id) (c : Bytes) : f.Alike (f.put i c) :=
  ⟨put_of_ne hindex.symm, fun id _ => put_of_ne (hi id).symm⟩

theorem Alike.of_plain {f g : Contents} (h : ∀ i : Item, i.Plain → g i = f i) : f.Alike g :=
  ⟨h .index trivial, fun id hid => h (.metadata id) hid⟩

/-- The contents differ in nothing but items of some kind. -/
def Apart (S : Item → Prop) (f g : Contents) : Prop := ∀ i, ¬S i → g i = f i

namespace Apart
variable {S : Item → Prop} {f g f' : Contents} {i : Item}

theorem refl (f : Contents) : Apart S f f := fun _ _ => rfl

theorem trans (h : Apart S f g) (h' : Apart S g f') : Apart S f f' := fun i hi => (h' i hi).trans (h i hi)

theorem put (hi : S i) (c : Bytes) : Apart S f (f.put i c) := fun _ hj => put_of_ne fun heq => hj (heq ▸ hi)

theorem alike (h : Apart Item.IsLayer f g) : f.Alike g := ⟨h .index id, fun x _ => h (.metadata x) id⟩

end Apart

end Contents

namespace Shows
variable {s : Store} {d d' : Disk} {f : Contents} {i : Item}

/-- A disk shows one content of each file. -/
theorem unique {g : Contents} (h : Shows s d f) (h' : Shows s d g) (i : Item) (hi : i.Plain) : g i = f i :=
  Option.ext fun c => ((h' i hi).2 c).symm.trans ((h i hi).2 c)

/-- Nothing of the store is changed if nothing is changed at its places. -/
theorem kept {P : Place → Prop} (h : Shows s d f) (hkept : Disk.Kept P d d')
    (hP : ∀ i : Item, i.Plain → ¬P (d.placeOf (s.file i))) : Shows s d' f := fun i hi => by
  obtain ⟨hopen, hread⟩ := h i hi
  exact ⟨hkept.open (hP i hi) hopen, fun c => (hkept.read_iff (hP i hi) hopen).trans (hread c)⟩

/-- A file that is written changes the contents there. -/
theorem write {c : Bytes} (h : Shows s d f) (hi : i.Plain) (hwrite : d.write (s.file i) c = .ok d') :
    Shows s d' (f.put i c) := fun j hj => by
  obtain ⟨hkept, hwritten⟩ := Disk.write_ok hwrite
  by_cases hji : j = i
  · subst hji
    refine ⟨Disk.open_of_read hwritten, fun c' => ?_⟩
    rw [hwritten, Contents.put_self]
    simp
  · obtain ⟨hopen, hread⟩ := h j hj
    have hP : ¬d.placeOf (s.file j) = d.placeOf (s.file i) := fun heq => hji (placeOf_file_inj hj hi heq)
    rw [Contents.put_of_ne hji]
    exact ⟨hkept.open hP hopen, fun c' => (hkept.read_iff hP hopen).trans (hread c')⟩

/-- Where no folder is in the way, there is something for an item exactly when it can be read. -/
theorem exists?_iff (h : Shows s d f) (hi : i.Plain) (hfolder : d.node? (d.placeOf (s.file i)) ≠ some .folder) :
    d.exists? (s.file i) = (f i).isSome := by
  obtain ⟨hopen, hread⟩ := h i hi
  cases hf : f i with
  | some c => exact Disk.exists?_of_read ((hread c).mpr hf)
  | none =>
    have hnone : d.node? (d.placeOf (s.file i)) = none := by
      cases hnode : d.node? (d.placeOf (s.file i)) with
      | none => rfl
      | some n =>
        cases n with
        | folder => exact absurd hnode hfolder
        | file c =>
          have hc := (hread c).mp (hopen c hnode)
          rw [hf] at hc
          cases hc
    obtain ⟨e, he⟩ := Disk.find_none hnone
    unfold Disk.exists?
    rw [he]
    rfl

theorem readText (h : Shows s d f) (hi : i.Plain) (text : String) :
    d.readText (s.file i) = .ok text ↔ (f i).bind Bytes.text? = some text := by
  obtain ⟨-, hread⟩ := h i hi
  rw [Disk.readText_ok_iff, Option.bind_eq_some_iff]
  exact exists_congr fun c => and_congr_left fun _ => hread c

theorem metadata (h : Shows s d f) {id : String} (hid : IsName id) : s.metadata d id = f.metadata id := by
  have hread := h.readText (i := .metadata id) hid
  unfold Store.metadata Contents.metadata
  cases hfile : d.readText (s.metadataFile id) with
  | error e =>
    cases hf : (f (.metadata id)).bind Bytes.text? with
    | none => rfl
    | some text =>
      have := (hread text).mpr hf
      rw [show s.file (.metadata id) = s.metadataFile id from rfl, hfile] at this
      cases this
  | ok text =>
    have htext := (hread text).mp hfile
    cases hparse : (Document.parse? text : Option Metadata) <;> simp only [htext, hparse]

theorem indexOrEmpty (h : Shows s d f) : s.indexOrEmpty d = f.index := by
  have hread := h.readText (i := .index) trivial
  unfold Store.indexOrEmpty Store.index Contents.index
  cases hfile : d.readText s.indexFile with
  | error e =>
    have hnone : (f .index).bind Bytes.text? = none := by
      cases hf : (f .index).bind Bytes.text? with
      | none => rfl
      | some text =>
        have := (hread text).mpr hf
        rw [show s.file .index = s.indexFile from rfl, hfile] at this
        cases this
    rw [hnone]
    split
    · next h' =>
      split at h'
      · cases h'
      · cases h'
        rfl
    · rfl
  | ok text =>
    rw [(hread text).mp hfile, Option.bind_some, if_pos (Disk.exists?_of_readText hfile)]
    dsimp only
    cases Document.parse? (α := Index) text <;> rfl

theorem index (h : Shows s d f) {i : Index} (hi : f .index = some (Bytes.ofText (Document.pretty i))) :
    s.index d = .ok f.index := by
  rw [Contents.index_of_some hi]
  exact index_of_read (((h .index trivial).2 _).mpr hi)

end Shows

/-- The store has no file. -/
def IsEmpty (s : Store) (d : Disk) : Prop := ∀ i : Item, i.Plain → d.node? (d.placeOf (s.file i)) = none

theorem IsEmpty.shows {s : Store} {d : Disk} (h : s.IsEmpty d) : s.Shows d fun _ => none := fun i hi => by
  refine ⟨fun c hc => absurd ((h i hi).symm.trans hc) (by simp), fun c => iff_of_false (fun hread => ?_) (by simp)⟩
  exact absurd ((h i hi).symm.trans (Disk.read_ok_iff.mp hread).2.2) (by simp)

end Store
end Depot
