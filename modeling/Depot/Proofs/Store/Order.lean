import Depot.Proofs.Store.ImageIds
import Depot.Proofs.Store.Room

/-! What lies where in a store that began without anything: under its two folders nothing but folders named in
    hexadecimal digits, and in these nothing but the files of its items. This stays so when items are written and their folders made, also
    when the disk refuses a change, and whatever happens elsewhere on the disk. So what is there can be told from the
    contents. -/

namespace Depot.Store

/-- The item is filed under hexadecimal digits, if it is filed under anything. -/
def Item.Hashed : Item → Prop
  | .index => True
  | .metadata id => IsHexId id
  | .config id => IsHexId id
  | .layer hex => IsHexId hex

theorem Item.Hashed.plain {i : Item} (hi : i.Hashed) : i.Plain := by
  cases i with
  | index => trivial
  | metadata id => exact IsHexId.isName hi
  | config id => exact IsHexId.isName hi
  | layer hex => exact IsHexId.isName hi

/-- The store has its folders, and nothing is in them or where the index belongs. -/
structure Vacant (s : Store) (d : Disk) : Prop where
  images : d.isFolder s.imagesFolder = true
  layers : d.isFolder s.layersFolder = true
  empty : ∀ folder x rest, folder = "images" ∨ folder = "layers" → d.node? (d.placeOf s.root ++ folder :: x :: rest) = none
  unnamed : d.node? (d.placeOf s.indexFile) = none
  /-- Beside the index there is nothing that looks like what is known of an image. -/
  unmarked : d.node? (d.placeOf s.root ++ ["metadata.json"]) = none

/-- What is in the folders of the store belongs there. -/
structure Orderly (s : Store) (d : Disk) : Prop where
  images : d.Leads s.imagesFolder
  layers : d.Leads s.layersFolder
  index : d.node? (d.placeOf s.root ++ ["images.json"]) ≠ some .folder
  unmarked : d.node? (d.placeOf s.root ++ ["metadata.json"]) = none
  nodes : ∀ folder x rest n, folder = "images" ∨ folder = "layers" →
    d.node? (d.placeOf s.root ++ folder :: x :: rest) = some n → IsHexId x ∧
      (rest = [] ∧ n = .folder ∨ ∃ i : Item, i.names = folder :: x :: rest ∧ ∃ c, n = .file c)

/-- What there is on the disk of other things has changed: no folder is gone, and in the store everything is as it was. -/
structure Elsewhere (s : Store) (d d' : Disk) : Prop where
  here : d'.here = d.here
  folder : ∀ q, d.node? q = some .folder → d'.node? q = some .folder
  store : ∀ rest, d'.node? (d.placeOf s.root ++ rest) = d.node? (d.placeOf s.root ++ rest)

section Order
variable {s : Store} {d d' : Disk} {i : Item} {f : Contents} {x : String} {c : Bytes}

theorem Elsewhere.kept (h : s.Elsewhere d d') : Disk.Kept (fun q => ∀ rest, q ≠ d.placeOf s.root ++ rest) d d' where
  here := h.here
  folder := h.folder
  file q c hq := by
    obtain ⟨rest, hrest⟩ := not_forall.mp hq
    rw [not_not.mp hrest, h.store]

namespace Orderly

/-- A file of an item is put in its place, or a folder is made for one. -/
theorem put {p : Place} {n : Node} (h : s.Orderly d) (hp : d.node? p ≠ some .folder)
    (hn : (∃ i c, Item.Hashed i ∧ p = d.placeOf s.root ++ i.names ∧ n = .file c) ∨
      ∃ folder x, IsHexId x ∧ p = d.placeOf s.root ++ [folder, x] ∧ n = .folder) : s.Orderly (d.put p n) := by
  have hne : p ≠ [] := by
    rcases hn with ⟨i, c, -, rfl, -⟩ | ⟨folder, x, -, rfl, -⟩
    · cases i <;> simp [Item.names]
    · simp
  have hkept := Disk.kept_put hne hp n
  -- At `p` there is now what was put there, and everywhere else what was there before.
  refine ⟨h.images.kept hkept, h.layers.kept hkept, ?_, ?_, fun folder x rest n' hfolder hnode => ?_⟩
  · rw [hkept.placeOf, Disk.node?_put d hne]
    split
    · next heq =>
      rcases hn with ⟨i, c, -, -, rfl⟩ | ⟨folder, x, -, rfl, -⟩
      · simp
      · exact absurd (List.append_cancel_left heq) (by simp)
    · exact h.index
  · rw [hkept.placeOf, Disk.node?_put d hne]
    split
    · next heq =>
      rcases hn with ⟨i, c, -, rfl, -⟩ | ⟨folder, x, -, rfl, -⟩
      · have hnames := List.append_cancel_left heq
        cases i <;> simp [Item.names] at hnames
      · exact absurd (List.append_cancel_left heq) (by simp)
    · exact h.unmarked
  · rw [hkept.placeOf, Disk.node?_put d hne] at hnode
    split at hnode
    · next heq =>
      obtain rfl := Option.some.inj hnode
      rcases hn with ⟨i, c, hi, rfl, rfl⟩ | ⟨folder', x', hx, rfl, rfl⟩
      · have hnames := List.append_cancel_left heq
        refine ⟨?_, Or.inr ⟨i, hnames.symm, c, rfl⟩⟩
        cases i <;> simp only [Item.names, List.cons.injEq] at hnames
        · exact absurd hnames.2 (by simp)
        · exact hnames.2.1 ▸ hi
        · exact hnames.2.1 ▸ hi
        · exact hnames.2.1 ▸ hi
      · obtain ⟨rfl, rfl, rfl⟩ : folder = folder' ∧ x = x' ∧ rest = [] := by
          simpa using List.append_cancel_left heq
        exact ⟨hx, Or.inl ⟨rfl, rfl⟩⟩
    · exact h.nodes folder x rest n' hfolder hnode

theorem elsewhere (h : s.Orderly d) (hsame : s.Elsewhere d d') : s.Orderly d' := by
  have hroot : d'.placeOf s.root = d.placeOf s.root := hsame.kept.placeOf _
  refine ⟨h.images.kept hsame.kept, h.layers.kept hsame.kept, ?_, ?_, fun folder x rest n hfolder hnode => ?_⟩
  · rw [hroot, hsame.store]
    exact h.index
  · rw [hroot, hsame.store]
    exact h.unmarked
  · rw [hroot, hsame.store] at hnode
    exact h.nodes folder x rest n hfolder hnode

theorem node?_ne_folder (h : s.Orderly d) (hi : i.Plain) : d.node? (d.placeOf (s.file i)) ≠ some .folder := by
  rw [placeOf_file hi]
  have htwo : ∀ folder x name, folder = "images" ∨ folder = "layers" →
      d.node? (d.placeOf s.root ++ [folder, x, name]) ≠ some .folder := by
    intro folder x name hfolder hnode
    rcases (h.nodes folder x [name] .folder hfolder hnode).2 with ⟨hrest, -⟩ | ⟨_, -, _, hfile⟩
    · cases hrest
    · cases hfile
  cases i with
  | index => exact h.index
  | metadata id => exact htwo "images" id _ (Or.inl rfl)
  | config id => exact htwo "images" id _ (Or.inl rfl)
  | layer hex => exact htwo "layers" hex _ (Or.inr rfl)

end Orderly

/-- The disk shows the contents of the store, and nothing else is in its folders. -/
structure Holds (s : Store) (d : Disk) (f : Contents) : Prop where
  shows : s.Shows d f
  orderly : s.Orderly d

namespace Holds

theorem elsewhere (h : s.Holds d f) (hsame : s.Elsewhere d d') : s.Holds d' f where
  shows := h.shows.kept hsame.kept fun i hi hplace => hplace i.names (placeOf_file hi)
  orderly := h.orderly.elsewhere hsame

theorem write (h : s.Holds d f) (hi : i.Hashed) (hwrite : d.write (s.file i) c = .ok d') : s.Holds d' (f.put i c) where
  shows := h.shows.write hi.plain hwrite
  orderly := by
    obtain ⟨-, hnode, rfl⟩ := Disk.eq_put_of_write hwrite
    exact h.orderly.put hnode (Or.inl ⟨i, c, hi, placeOf_file hi.plain, rfl⟩)

/-- When a folder is to be made for an image or a layer, the disk makes it or nothing. -/
theorem makeFolders {base folder : String} (h : s.Holds d f) (hleads : d.Leads base)
    (hplace : d.placeOf base = d.placeOf s.root ++ [folder]) (hx : IsHexId x) :
    s.Holds (d.makeFolders (Path.join base x)).2 f where
  shows := h.shows.kept (Disk.makeFolders_kept d _) fun _ _ => not_false
  orderly := by
    have hpath : d.placeOf (Path.join base x) = d.placeOf s.root ++ [folder, x] := by
      rw [Disk.placeOf_join d base hx.isName, hplace, List.append_assoc]
      rfl
    rcases Disk.makeFolders_cases hleads hx.isName with hsame | ⟨hnone, hmade⟩
    · rw [hsame]
      exact h.orderly
    · rw [hmade]
      exact h.orderly.put (by simp [hnone]) (Or.inr ⟨folder, x, hx, hpath, rfl⟩)

theorem exists?_iff (h : s.Holds d f) (hi : i.Plain) : d.exists? (s.file i) = (f i).isSome :=
  h.shows.exists?_iff hi (h.orderly.node?_ne_folder hi)

/-- What is at the place of an item is told by the contents. -/
theorem node?_names (h : s.Holds d f) (hi : i.Plain) : d.node? (d.placeOf s.root ++ i.names) = (f i).map .file := by
  obtain ⟨hopen, hread⟩ := h.shows i hi
  have hfolder := h.orderly.node?_ne_folder hi
  rw [← placeOf_file hi]
  cases hnode : d.node? (d.placeOf (s.file i)) with
  | none =>
    cases hf : f i with
    | none => rfl
    | some c =>
      have hfile := (Disk.read_ok_iff.mp ((hread c).mpr hf)).2.2
      rw [hnode] at hfile
      cases hfile
  | some n =>
    cases n with
    | folder => exact absurd hnode hfolder
    | file c => rw [(hread c).mp (hopen c hnode), Option.map_some]

theorem exists?_metadataFile (h : s.Holds d f) (hx : IsName x) : d.exists? (s.metadataFile x) = (f (.metadata x)).isSome :=
  h.exists?_iff (i := .metadata x) hx

end Holds

theorem Vacant.isEmpty (h : s.Vacant d) : s.IsEmpty d := isEmpty_of_nothing_inside h.empty h.unnamed

theorem Vacant.holds (h : s.Vacant d) : s.Holds d fun _ => none where
  shows := h.isEmpty.shows
  orderly := by
    obtain ⟨himages, hfolder⟩ := Disk.folder_of_isFolder h.images
    obtain ⟨hlayers, hfolder'⟩ := Disk.folder_of_isFolder h.layers
    refine ⟨Disk.leads_of_reaches himages hfolder, Disk.leads_of_reaches hlayers hfolder', ?_, h.unmarked,
      fun folder x rest n hroot hnode => ?_⟩
    · have hunnamed := h.unnamed
      rw [show s.indexFile = s.file .index from rfl, placeOf_file (i := .index) trivial] at hunnamed
      rw [show ["images.json"] = Item.names .index from rfl, hunnamed]
      simp
    · rw [h.empty folder x rest hroot] at hnode
      cases hnode

theorem Fresh.vacant {h : Host} (hfresh : s.Fresh h) (hunmarked : h.disk.node? (h.disk.placeOf s.root ++ ["metadata.json"]) = none) :
    s.Vacant h.disk := ⟨hfresh.images, hfresh.layers, hfresh.empty, hfresh.unnamed, hunmarked⟩

end Order

theorem vacant_madeAt : Vacant ⟨"/depot"⟩ (madeAt ⟨"/depot"⟩).disk := fresh_madeAt.vacant (by decide +kernel)

end Depot.Store
