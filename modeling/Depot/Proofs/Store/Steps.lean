import Depot.Proofs.Host
import Depot.Proofs.Store.Agreement
import Depot.Proofs.Store.Order
import Mathlib.Logic.Relation

/-! What happens to a store step by step. The operations write one file after the other, and the disk may refuse to take
    any of them; so wherever an operation stops, what it has done is a number of `Change`s of the contents, and on the disk
    it has touched the places of these and no others. Whatever each change keeps is kept by all operations, with whatever
    they end. -/

namespace Depot

/-- What is known of an image is as it was, but that names of some kind have gone from its list. -/
structure Metadata.Loses (names : String → Prop) (m m' : Metadata) : Prop where
  rest : m' = { m with repoTags := m'.repoTags }
  kept : m'.repoTags.Sublist m.repoTags
  gone : ∀ k ∈ m.repoTags, k ∉ m'.repoTags → names k

theorem Metadata.Loses.trans {names : String → Prop} {m m' m'' : Metadata} (h : m.Loses names m') (h' : m'.Loses names m'') :
    m.Loses names m'' where
  rest := h'.rest.trans (by rw [h.rest])
  kept := h'.kept.trans h.kept
  gone k hk hgone := by
    by_cases hk' : k ∈ m'.repoTags
    · exact h'.gone k hk' hgone
    · exact h.gone k hk hk'

theorem Metadata.Loses.mono {names names' : String → Prop} {m m' : Metadata} (h : m.Loses names m')
    (hnames : ∀ k, names k → names' k) : m.Loses names' m' :=
  ⟨h.rest, h.kept, fun k hk hgone => hnames k (h.gone k hk hgone)⟩

namespace Store

/-! ### Changes -/

/-- What is allowed: what may come to be known of an image, which bytes may be stored under their hash, which images may be
    stored and named, and which names may be given and taken. -/
structure Scope where
  known : Contents → Metadata → Prop
  blobs : Bytes → Prop
  ids : String → Prop
  names : String → Prop
  hashed : ∀ b, blobs b → ids (Digest.hexOf b)

/-- Only what comes to be known of images matters. -/
def Scope.knowing (L : Contents → Metadata → Prop) : Scope :=
  ⟨L, fun _ => True, fun _ => True, fun _ => True, fun _ _ => trivial⟩

/-- A file of a store is written, within what is allowed. -/
inductive Change (A : Scope) (f : Contents) : Contents → Prop
  | layer {b : Bytes} (hb : A.blobs b) (hnew : f (.layer (Digest.hexOf b)) = none) :
      Change A f (f.put (.layer (Digest.hexOf b)) b)
  | config {b : Bytes} (hb : A.blobs b) : Change A f (f.put (.config (Digest.hexOf b)) b)
  | describe (id : String) (digest : Option String) (layers : List String) (size : UInt64) (now : Instant)
      (hid : IsHexId id) (hin : A.ids id) (hallowed : A.known f (f.described id digest layers size now)) :
      Change A f (f.setMetadata (f.described id digest layers size now))
  | release {m : Metadata} {name : String} (hid : IsHexId m.id) (hm : f.metadata m.id = .ok m) (hname : A.names name) :
      Change A f (f.setMetadata { m with repoTags := m.repoTags.filter (· ≠ name) })
  | claim {m : Metadata} {name : String} (hid : IsHexId m.id) (hin : A.ids m.id) (hm : f.metadata m.id = .ok m)
      (hname : A.names name) (hnew : name ∉ m.repoTags) :
      Change A f (f.setMetadata { m with repoTags := m.repoTags ++ [name] })
  | file {m : Metadata} {short : String} (hid : IsHexId m.id) (hm : f.metadata m.id = .ok m) (hallowed : A.known f m)
      (hshort : indexedId? m.id = some short) :
      Change A f (f.setIndex { f.index with shortIds := f.index.shortIds.insert short m.id })
  | give {id : String} {m : Metadata} (r : Reference) (hid : IsHexId id) (hm : f.metadata id = .ok m)
      (hname : A.names r.canonicalName) :
      Change A f (f.setIndex { f.index with tags := f.index.tags.insert r.canonicalName id })
  | take {name : String} (hname : A.names name) :
      Change A f (f.setIndex { f.index with tags := f.index.tags.erase name })

/-- Any number of changes, one after the other. -/
abbrev Steps (A : Scope) : Contents → Contents → Prop := Relation.ReflTransGen (Change A)

section Changes
variable {A : Scope} {f g : Contents} {id k : String} {m : Metadata} {c : Bytes}

/-- What is known of an image may change, but something stays known of it. -/
theorem Change.known (h : Change A f g) (hm : ∃ m, f.metadata id = .ok m) : ∃ m, g.metadata id = .ok m := by
  have hset (n : Metadata) : ∃ m, (f.setMetadata n).metadata id = .ok m := by
    rw [Contents.metadata_setMetadata]
    split
    · exact ⟨n, rfl⟩
    · exact hm
  cases h with
  | layer => exact hm
  | config => exact hm
  | describe => exact hset _
  | release => exact hset _
  | claim => exact hset _
  | file => exact hm
  | give => exact hm
  | take => exact hm

theorem Steps.known (h : Steps A f g) (hm : ∃ m, f.metadata id = .ok m) : ∃ m, g.metadata id = .ok m := by
  induction h with
  | refl => exact hm
  | tail _ hstep ih => exact hstep.known ih

/-- No file of a store is removed. -/
theorem Change.there {i : Item} (h : Change A f g) (hi : (f i).isSome) : (g i).isSome := by
  cases h <;> exact Contents.there_put f _ _ i hi

theorem Steps.there {i : Item} (h : Steps A f g) (hi : (f i).isSome) : (g i).isSome := by
  induction h with
  | refl => exact hi
  | tail _ hstep ih => exact hstep.there ih

/-- A layer that is stored is never written again, and one that is not is written with what it is filed under. -/
theorem Change.at_layer (h : Change A f g) (k : String) : g (.layer k) = f (.layer k) ∨
    f (.layer k) = none ∧ ∃ b, A.blobs b ∧ k = Digest.hexOf b ∧ g (.layer k) = some b := by
  cases h with
  | @layer b hb hnew =>
    by_cases hk : k = Digest.hexOf b
    · subst hk
      exact Or.inr ⟨hnew, b, hb, rfl, Contents.put_self ..⟩
    · exact Or.inl (Contents.put_of_ne (by simpa using hk))
  | _ => exact Or.inl rfl

theorem Steps.at_layer (h : Steps A f g) (k : String) : g (.layer k) = f (.layer k) ∨
    f (.layer k) = none ∧ ∃ b, A.blobs b ∧ k = Digest.hexOf b ∧ g (.layer k) = some b := by
  induction h with
  | refl => exact Or.inl rfl
  | tail _ hstep ih =>
    rcases hstep.at_layer k with hsame | ⟨hnone, hwritten⟩
    · rwa [hsame]
    · rcases ih with hsame | ⟨-, b, -, -, hb⟩
      · exact Or.inr ⟨hsame ▸ hnone, hwritten⟩
      · rw [hb] at hnone
        cases hnone

theorem Steps.layer_kept (h : Steps A f g) (hc : f (.layer k) = some c) : g (.layer k) = some c := by
  rcases h.at_layer k with hsame | ⟨hnone, -⟩
  · rwa [hsame]
  · rw [hnone] at hc
    cases hc

/-- Contents that were written here: what is known of images bears their ids; the index, if there is one, can be read, and
    all that it names is known. -/
structure Contents.Regular (f : Contents) : Prop extends Tidy f where
  written : ∀ id c, IsHexId id → f (.metadata id) = some c → ∃ m : Metadata, c = Bytes.ofText (Document.pretty m) ∧ m.id = id
  indexed : f .index = none ∨ f.Indexed
  names : ∀ k id, f.index.tags.get? k = some id → '/' ∈ k.toList ∧ IsHexId id ∧ ∃ m, f.metadata id = .ok m
  shortIds : ∀ k id, f.index.shortIds.get? k = some id → indexedId? id = some k ∧ IsHexId id ∧ ∃ m, f.metadata id = .ok m

theorem regular_none : Contents.Regular fun _ => none where
  named _ _ _ h := nomatch h
  nodup _ _ _ h := nomatch h
  written _ _ _ h := nomatch h
  indexed := Or.inl rfl
  names _ _ h := nomatch h
  shortIds _ _ h := nomatch h

namespace Contents.Regular

theorem sound (h : f.Regular) : f.Sound := ⟨h.named, fun k id hk => (h.names k id hk).2.1.isName⟩

/-- What is known of an image can be read. -/
theorem legible (h : f.Regular) (hid : IsHexId id) (hc : f (.metadata id) = some c) :
    ∃ m, f.metadata id = .ok m ∧ c = Bytes.ofText (Document.pretty m) ∧ m.id = id := by
  obtain ⟨m, hwritten, hm⟩ := h.written id c hid hc
  exact ⟨m, metadata_of_some (hwritten ▸ hc), hwritten, hm⟩

/-- What counts is the index and what is known of images. -/
theorem alike (h : f.Regular) (hsame : f.Alike g) : g.Regular := by
  have hknown (id : String) (hid : IsName id) : g.metadata id = f.metadata id := hsame.metadata_eq hid
  refine ⟨h.toTidy.congr hknown, fun id c hid hc => ?_, ?_, fun k id hk => ?_, fun k id hk => ?_⟩
  · rw [hsame.metadata id hid.isName] at hc
    exact h.written id c hid hc
  · rw [Indexed, hsame.index]
    exact h.indexed
  · rw [hsame.index_eq] at hk
    obtain ⟨hslash, hid, hm⟩ := h.names k id hk
    exact ⟨hslash, hid, hknown id hid.isName ▸ hm⟩
  · rw [hsame.index_eq] at hk
    obtain ⟨hshort, hid, hm⟩ := h.shortIds k id hk
    exact ⟨hshort, hid, hknown id hid.isName ▸ hm⟩

theorem setMetadata (h : f.Regular) (hnodup : m.repoTags.Nodup) : (f.setMetadata m).Regular := by
  have hknown (id : String) (hid : ∃ m, f.metadata id = .ok m) : ∃ n, (f.setMetadata m).metadata id = .ok n := by
    rw [metadata_setMetadata]
    split
    · exact ⟨m, rfl⟩
    · exact hid
  refine ⟨h.toTidy.setMetadata hnodup, fun id c hid hc => ?_, h.indexed, fun k id hk => ?_, fun k id hk => ?_⟩
  · by_cases heq : id = m.id
    · subst heq
      rw [Contents.setMetadata, put_self] at hc
      exact ⟨m, (Option.some.inj hc).symm, rfl⟩
    · rw [Contents.setMetadata, put_of_ne (by simpa using heq)] at hc
      exact h.written id c hid hc
  · exact (h.names k id hk).imp_right (And.imp_right (hknown id))
  · exact (h.shortIds k id hk).imp_right (And.imp_right (hknown id))

theorem setIndex {i : Index} (h : f.Regular)
    (hnames : ∀ k id, i.tags.get? k = some id → '/' ∈ k.toList ∧ IsHexId id ∧ ∃ m, f.metadata id = .ok m)
    (hshort : ∀ k id, i.shortIds.get? k = some id → indexedId? id = some k ∧ IsHexId id ∧ ∃ m, f.metadata id = .ok m) :
    (f.setIndex i).Regular := by
  refine ⟨h.toTidy.setIndex i, h.written, Or.inr (indexed_setIndex f i), ?_, ?_⟩
  · simpa only [index_setIndex, metadata_setIndex] using hnames
  · simpa only [index_setIndex, metadata_setIndex] using hshort

theorem change (h : f.Regular) (hstep : Change A f g) : g.Regular := by
  cases hstep with
  | layer => exact h.alike (alike_put (by simp) (by simp) _)
  | config => exact h.alike (alike_put (by simp) (by simp) _)
  | describe id digest layers size now hid => exact h.setMetadata (h.nodup_described hid.isName digest layers size now)
  | release hid hm => exact h.setMetadata ((h.nodup _ _ hid.isName hm).filter _)
  | claim hid _ hm _ hnew => exact h.setMetadata (nodup_concat (h.nodup _ _ hid.isName hm) hnew)
  | @file m short hid hm hallowed hshort =>
    refine h.setIndex h.names fun k id hk => ?_
    rw [Dictionary.get?_insert] at hk
    split at hk
    · next heq =>
      cases hk
      exact ⟨heq ▸ hshort, hid, m, hm⟩
    · exact h.shortIds k id hk
  | @give id m r hid hm =>
    refine h.setIndex (fun k id' hk => ?_) h.shortIds
    rw [Dictionary.get?_insert] at hk
    split at hk
    · next heq =>
      cases hk
      exact ⟨by simp [heq, Reference.canonicalName, Reference.name], hid, m, hm⟩
    · exact h.names k id' hk
  | take =>
    refine h.setIndex (fun k id hk => ?_) h.shortIds
    rw [Dictionary.get?_erase] at hk
    split at hk
    · cases hk
    · exact h.names k id hk

theorem steps (h : f.Regular) (hsteps : Steps A f g) : g.Regular := by
  induction hsteps with
  | refl => exact h
  | tail _ hstep ih => exact ih.change hstep

end Contents.Regular
end Changes

/-! ### Computations -/

/-- The places of the files of a store, and of the folders of the images and layers that are allowed. -/
def Within (s : Store) (A : Scope) (d : Disk) (p : Place) : Prop :=
  (∃ i : Item, i.Hashed ∧ p = d.placeOf s.root ++ i.names) ∨
    ∃ folder x, (folder = "images" ∨ folder = "layers") ∧ A.ids x ∧ p = d.placeOf s.root ++ [folder, x]

/-- Changes that are allowed have led from the contents `f` on the disk `d` to `g` on `d'`. -/
structure Passage (s : Store) (A : Scope) (f : Contents) (d : Disk) (g : Contents) (d' : Disk) : Prop where
  holds : s.Holds d' g
  steps : Steps A f g
  touches : Disk.Touches (s.Within A d) d d'

/-- Where the store holds the contents `f`, there is a passage from there to what `x` leaves it with, and `P` holds of the
    contents there and of the result. -/
def Moves {α : Type} (s : Store) (A : Scope) (f : Contents) (x : Act Host α) (P : Except Error α → Contents → Prop) : Prop :=
  ∀ h, s.Holds h.disk f → ∃ g, s.Passage A f h.disk g (x h).2.disk ∧ P (x h).1 g

/-- A change that is made or refused. -/
def Made (f f' : Contents) (r : Except Error Unit) (g : Contents) : Prop :=
  (r = .ok () ∧ g = f') ∨ (∃ e, r = .error e) ∧ g = f

section Moving
variable {α β : Type} {s : Store} {A : Scope} {f f' g : Contents} {x : Act Host α} {k : α → Act Host β} {d d' d'' : Disk}
variable {P : Except Error α → Contents → Prop} {Q : Except Error β → Contents → Prop} {i : Item} {c : Bytes} {id : String}

namespace Passage

theorem refl (h : s.Holds d f) : s.Passage A f d f d := ⟨h, .refl, .refl _ d⟩

theorem trans (h : s.Passage A f d g d') (h' : s.Passage A g d' f' d'') : s.Passage A f d f' d'' where
  holds := h'.holds
  steps := h.steps.trans h'.steps
  touches := by
    have htouches := h'.touches
    unfold Within at htouches
    rw [h.touches.placeOf] at htouches
    exact h.touches.trans htouches

/-- A file that does not lie in the store stays as it is. -/
theorem read {path : String} (h : s.Passage A f d g d') (hout : ∀ names, d.placeOf path ≠ d.placeOf s.root ++ names)
    (hread : d.read path = .ok c) : d'.read path = .ok c := by
  refine h.touches.kept.read ?_ hread
  rintro (⟨i, -, hplace⟩ | ⟨folder, x, -, -, hplace⟩)
  · exact hout _ hplace
  · exact hout _ hplace

end Passage

namespace Moves

theorem mono {P' : Except Error α → Contents → Prop} (hx : Moves s A f x P) (hP : ∀ r g, P r g → P' r g) :
    Moves s A f x P' := fun h hh => by
  obtain ⟨g, hg, hp⟩ := hx h hh
  exact ⟨g, hg, hP _ _ hp⟩

theorem still (hx : ∀ h, (x h).2.disk = h.disk) (hp : ∀ h, s.Holds h.disk f → P (x h).1 f) : Moves s A f x P :=
  fun h hh => ⟨f, (hx h).symm ▸ .refl hh, hp h hh⟩

theorem bind (hx : Moves s A f x P) (herror : ∀ e g, P (.error e) g → Q (.error e) g)
    (hok : ∀ a g, Steps A f g → P (.ok a) g → Moves s A g (k a) Q) : Moves s A f (x >>= k) Q := fun h hh => by
  obtain ⟨g, hg, hp⟩ := hx h hh
  rw [Act.bind_apply]
  rcases hxh : x h with ⟨e | a, h'⟩ <;> rw [hxh] at hg hp
  · exact ⟨g, hg, herror e g hp⟩
  · obtain ⟨g', hg', hq⟩ := hok a g hg.steps hp h' hg.holds
    exact ⟨g', hg.trans hg', hq⟩

theorem state {k : Host → Act Host β} (hk : ∀ h, s.Holds h.disk f → Moves s A f (k h) Q) :
    Moves s A f (Act.state >>= k) Q := fun h hh => hk h hh h hh

theorem andThen (hx : Moves s A f x P) (hok : ∀ a g, Steps A f g → P (.ok a) g → Moves s A g (k a) fun _ _ => True) :
    Moves s A f (x >>= k) fun _ _ => True := hx.bind (fun _ _ _ => trivial) hok

/-- When the disk refuses nothing, the contents are in all that can be read what the computation is said to make of them. -/
theorem turning {Q : Except Error α → Contents → Prop} (hx : Moves s A f x P) (hturns : Turns s f x Q) :
    Moves s A f x fun r g => P r g ∧ ∀ a, r = .ok a → ∃ g', Q r g' ∧ ∀ i : Item, i.Plain → g i = g' i := fun h hh => by
  obtain ⟨g, hg, hp⟩ := hx h hh
  refine ⟨g, hg, hp, fun a ha => ?_⟩
  obtain ⟨g', hg', hq⟩ := hturns.unrefused_of_ok hh.shows ha
  exact ⟨g', ha ▸ hq, hg'.unique hg.holds.shows⟩

end Moves

theorem moves_write (hi : i.Hashed) (hchange : Change A f (f.put i c)) :
    Moves s A f (Host.write (s.file i) c) (Made f (f.put i c)) := fun h hh => by
  rcases Host.alter_cases (·.write (s.file i) c) h with ⟨e, he⟩ | ⟨d, hwrite, he⟩
  · rw [Host.write, he]
    exact ⟨f, .refl hh, Or.inr ⟨⟨_, rfl⟩, rfl⟩⟩
  · rw [Host.write, he]
    refine ⟨f.put i c, ⟨hh.write hi hwrite, .single hchange, ?_⟩, Or.inl ⟨rfl, rfl⟩⟩
    obtain ⟨hne, hnode, rfl⟩ := Disk.eq_put_of_write hwrite
    exact Disk.touches_put hne hnode _ (Or.inl ⟨i, hi, placeOf_file hi.plain⟩)

theorem moves_makeFolders {base folder : String} (hleads : ∀ d, s.Holds d f → d.Leads base)
    (hplace : ∀ d : Disk, d.placeOf base = d.placeOf s.root ++ [folder]) (hfolder : folder = "images" ∨ folder = "layers")
    (hid : IsHexId id) (hin : A.ids id) : Moves s A f (Host.makeFolders (Path.join base id)) fun _ g => g = f :=
  fun h hh => by
  have htouches : Disk.Touches (s.Within A h.disk) h.disk (h.disk.makeFolders (Path.join base id)).2 := by
    have hpath : h.disk.placeOf (Path.join base id) = h.disk.placeOf s.root ++ [folder, id] := by
      rw [Disk.placeOf_join h.disk base hid.isName, hplace, List.append_assoc]
      rfl
    rcases Disk.makeFolders_cases (hleads _ hh) hid.isName with hsame | ⟨hnone, hmade⟩
    · rw [hsame]
      exact .refl _ _
    · rw [hmade]
      exact Disk.touches_put (by simp [hpath]) (by simp [hnone]) _ (Or.inr ⟨folder, id, hfolder, hin, hpath⟩)
  rcases Host.alterPartly_cases (·.makeFolders (Path.join base id)) h with ⟨e, he⟩ | he
  · rw [Host.makeFolders, he]
    exact ⟨f, .refl hh, rfl⟩
  · rw [Host.makeFolders, he]
    exact ⟨f, ⟨hh.makeFolders (hleads _ hh) (hplace _) hid, .refl, htouches⟩, rfl⟩

theorem moves_makeImageFolder (hid : IsHexId id) (hin : A.ids id) :
    Moves s A f (Host.makeFolders (s.imageFolder id)) fun _ g => g = f :=
  moves_makeFolders (fun _ hd => hd.orderly.images) (fun _ => placeOf_imagesFolder) (Or.inl rfl) hid hin

theorem moves_makeLayerFolder (hid : IsHexId id) (hin : A.ids id) :
    Moves s A f (Host.makeFolders (s.layerFolder id)) fun _ g => g = f :=
  moves_makeFolders (fun _ hd => hd.orderly.layers) (fun _ => placeOf_layersFolder) (Or.inr rfl) hid hin

theorem moves_saveMetadata {m : Metadata} (hid : IsHexId m.id) (hchange : Change A f (f.setMetadata m)) :
    Moves s A f (s.saveMetadata m) (Made f (f.setMetadata m)) := moves_write (i := .metadata m.id) hid hchange

theorem moves_saveIndex {i : Index} (hchange : Change A f (f.setIndex i)) :
    Moves s A f (s.saveIndex i) (Made f (f.setIndex i)) := moves_write (i := .index) trivial hchange

end Moving

/-! ### The operations of a store -/

section Operations
variable {s : Store} {A : Scope} {f : Contents} {id name : String} {m : Metadata} {r : Reference}

theorem moves_releaseName (hf : f.Regular) (hid : IsHexId id) (hname : A.names name) :
    Moves s A f (s.releaseName id name) fun _ g => g.index = f.index := fun h hh => by
  have hmetadata := hh.shows.metadata hid.isName
  unfold releaseName
  rw [hmetadata]
  cases hm : f.metadata id with
  | error e => exact ⟨f, .refl hh, rfl⟩
  | ok m =>
    obtain rfl := hf.named _ _ hid.isName hm
    have hsaved : Moves s A f (s.saveMetadata { m with repoTags := m.repoTags.filter (· ≠ name) }) fun _ g =>
        g.index = f.index := by
      refine (moves_saveMetadata (m := { m with repoTags := m.repoTags.filter (· ≠ name) }) hid
        (.release hid hm hname)).mono ?_
      rintro _ _ (⟨-, rfl⟩ | ⟨-, rfl⟩) <;> rfl
    exact hsaved h hh

theorem moves_claimName (hid : IsHexId m.id) (hin : A.ids m.id) (hm : f.metadata m.id = .ok m) (hname : A.names name) :
    Moves s A f (s.claimName m name) fun _ g => g.index = f.index := by
  unfold claimName
  split
  · exact .still (fun _ => rfl) fun _ _ => rfl
  · next hnew =>
    refine (moves_saveMetadata (m := { m with repoTags := m.repoTags ++ [name] }) hid (.claim hid hin hm hname hnew)).mono ?_
    rintro _ _ (⟨-, rfl⟩ | ⟨-, rfl⟩) <;> rfl

/-- The end of naming an image. -/
theorem moves_named (hf : f.Regular) (hid : IsHexId id) (hin : A.ids id) (hname : A.names r.canonicalName) {i : Index}
    (hi : i = { f.index with tags := f.index.tags.insert r.canonicalName id }) :
    Moves s A f (Act.state >>= fun h => Act.ofExcept (s.metadata h.disk id) >>= fun m => s.claimName m r.canonicalName >>=
      fun _ => s.saveIndex i) fun _ _ => True := by
  subst hi
  refine .state fun h hh => ?_
  rw [hh.shows.metadata hid.isName]
  cases hm : f.metadata id with
  | error e => exact .still (fun _ => rfl) fun _ _ => trivial
  | ok m =>
    obtain rfl := hf.named _ _ hid.isName hm
    rw [Act.ofExcept_ok_bind]
    refine (moves_claimName hid hin hm hname).andThen fun _ g hsteps hindex => ?_
    obtain ⟨m', hm'⟩ := hsteps.known ⟨m, hm⟩
    rw [← hindex]
    exact (moves_saveIndex (.give r hid hm' hname)).mono fun _ _ _ => trivial

theorem moves_tag (hf : f.Regular) (hid : IsHexId id) (hin : A.ids id) (hname : A.names r.canonicalName) :
    Moves s A f (s.tag id r) fun _ _ => True := by
  refine .state fun h hh => ?_
  dsimp only
  rw [hh.shows.indexOrEmpty]
  split
  · next holder hholder =>
    split
    · refine (moves_releaseName hf (hf.names _ _ hholder).2.1 hname).andThen fun _ g hsteps hindex => ?_
      rw [← hindex]
      exact moves_named (hf.steps hsteps) hid hin hname rfl
    · exact moves_named hf hid hin hname rfl
  · exact moves_named hf hid hin hname rfl

theorem moves_untag (hf : f.Regular) (hname : A.names r.canonicalName) : Moves s A f (s.untag r) fun _ _ => True := by
  refine .state fun h hh => ?_
  dsimp only
  rw [hh.shows.indexOrEmpty]
  cases hholder : f.index.tags.get? r.canonicalName with
  | none => exact .still (fun _ => rfl) fun _ _ => trivial
  | some id =>
    obtain ⟨-, hid, m, hm⟩ := hf.names _ _ hholder
    obtain rfl := hf.named _ _ hid.isName hm
    dsimp only
    rw [hh.shows.metadata hid.isName, hm, Act.ofExcept_ok_bind]
    refine (moves_saveMetadata (m := { m with repoTags := m.repoTags.filter (· ≠ r.canonicalName) }) hid
      (.release hid hm hname)).andThen ?_
    rintro _ g - (⟨-, rfl⟩ | ⟨⟨e, he⟩, -⟩)
    · exact (moves_saveIndex (.take hname)).mono fun _ _ _ => trivial
    · cases he

theorem moves_tagAll (hf : f.Regular) (hid : IsHexId id) (hin : A.ids id) {names : List String}
    (hnames : ∀ name ∈ names, ∀ r, Reference.parse name = .ok r → A.names r.canonicalName) :
    Moves s A f (s.tagAll id names) fun _ _ => True := by
  induction names generalizing f with
  | nil => exact .still (fun _ => rfl) fun _ _ => trivial
  | cons name names ih =>
    obtain ⟨hname, hrest⟩ := List.forall_mem_cons.mp hnames
    show Moves s A f (Act.ofExcept ((Reference.parse name).mapError .reference) >>= fun r => s.tag id r >>= fun _ =>
      s.tagAll id names) _
    cases hparse : Reference.parse name with
    | error e => exact .still (fun _ => rfl) fun _ _ => trivial
    | ok r =>
      rw [show (Except.ok r : Except ReferenceError Reference).mapError Error.reference = .ok r from rfl,
        Act.ofExcept_ok_bind]
      exact (moves_tag hf hid hin (hname r hparse)).andThen fun _ g hsteps _ => ih (hf.steps hsteps) hrest

section Adding
variable {names layers : List String} {digest : Option String} {size : UInt64}
variable (hnames : ∀ name ∈ names, ∀ r, Reference.parse name = .ok r → A.names r.canonicalName)
include hnames

/-- The end of storing an image. -/
theorem moves_filed (hf : f.Regular) (hid : IsHexId m.id) (hin : A.ids m.id) (hm : f.metadata m.id = .ok m)
    (hallowed : A.known f m) : Moves s A f (Act.state >>= fun h => match indexedId? m.id with
      | none => Act.fail (.dividedCharacter m.id)
      | some short =>
        s.saveIndex { s.indexOrEmpty h.disk with shortIds := (s.indexOrEmpty h.disk).shortIds.insert short m.id } >>=
          fun _ => s.tagAll m.id names) fun _ _ => True := by
  refine .state fun h hh => ?_
  rw [hh.shows.indexOrEmpty]
  split
  · exact .still (fun _ => rfl) fun _ _ => trivial
  · next short hshort =>
    exact (moves_saveIndex (.file hid hm hallowed hshort)).andThen fun _ g hsteps _ =>
      moves_tagAll (hf.steps hsteps) hid hin hnames

theorem moves_described (hf : f.Regular) (hid : IsHexId id) (hin : A.ids id) {now created : Instant}
    (hallowed : A.known f (f.described id digest layers size now) ∧
      A.known (f.setMetadata (f.described id digest layers size now)) (f.described id digest layers size now))
    (hcreated : created = ((f.metadata id).toOption.map Metadata.created).getD now) :
    Moves s A f (s.saveMetadata ⟨id, ((f.metadata id).toOption.map Metadata.repoTags).getD [], digest, created, size, layers⟩ >>=
      fun _ => Act.state >>= fun h => match indexedId? id with
        | none => Act.fail (.dividedCharacter id)
        | some short =>
          s.saveIndex { s.indexOrEmpty h.disk with shortIds := (s.indexOrEmpty h.disk).shortIds.insert short id } >>=
            fun _ => s.tagAll id names) fun _ _ => True := by
  subst hcreated
  refine (moves_saveMetadata (m := f.described id digest layers size now) hid
    (.describe id digest layers size now hid hin hallowed.1)).andThen ?_
  rintro _ g hsteps (⟨-, rfl⟩ | ⟨⟨e, he⟩, -⟩)
  · refine moves_filed (m := f.described id digest layers size now) hnames (hf.steps hsteps) hid hin ?_ hallowed.2
    rw [Contents.metadata_setMetadata, if_pos rfl]
  · cases he

theorem moves_add (hf : f.Regular) (hid : IsHexId id) (hin : A.ids id)
    (hallowed : ∀ now, A.known f (f.described id digest layers size now) ∧
      A.known (f.setMetadata (f.described id digest layers size now)) (f.described id digest layers size now)) :
    Moves s A f (s.add id names digest layers size) fun _ _ => True := by
  unfold Store.add
  refine (moves_makeImageFolder hid hin).andThen ?_
  rintro _ f - rfl
  refine .state fun h hh => ?_
  dsimp only
  rw [hh.shows.metadata hid.isName]
  have hrest (now created : Instant) (hcreated : created = ((f.metadata id).toOption.map Metadata.created).getD now) :=
    moves_described (s := s) hnames hf hid hin (hallowed now) hcreated
  cases hm : f.metadata id with
  | error e =>
    rw [hm] at hrest
    refine Moves.andThen (P := fun _ g => g = f) (.still (fun _ => rfl) fun _ _ => rfl) ?_
    rintro now f - rfl
    exact hrest now now rfl
  | ok m =>
    rw [hm] at hrest
    refine Moves.andThen (P := fun r g => r = .ok m.created ∧ g = f) (.still (fun _ => rfl) fun _ _ => ⟨rfl, rfl⟩) ?_
    rintro _ _ - ⟨⟨⟩, rfl⟩
    exact hrest m.created m.created rfl

end Adding

/-! ### Layers and configs -/

/-- Whatever becomes of a layer, all else is as it was; and a layer that is stored is there. -/
theorem moves_addLayer {data : Bytes} (hdata : A.blobs data) : Moves s A f (s.addLayer data) fun r g =>
    f.Apart Item.IsLayer g ∧ ∀ digest, r = .ok digest → digest = Digest.ofBytes data ∧ (g (.layer (Digest.hexOf data))).isSome := by
  have hid := isHexId_hexOf data
  unfold addLayer
  refine .state fun h hh => ?_
  have hlayer : s.hasLayer h.disk (Digest.hexOf data) = (f (.layer (Digest.hexOf data))).isSome := by
    unfold hasLayer
    rw [encoded_hexOf]
    exact hh.exists?_iff (i := .layer (Digest.hexOf data)) hid.isName
  dsimp only
  rw [hlayer]
  cases hf : f (.layer (Digest.hexOf data)) with
  | some c =>
    refine .still (fun _ => rfl) fun _ _ => ⟨.refl f, ?_⟩
    rintro _ ⟨⟩
    exact ⟨rfl, by rw [hf]; rfl⟩
  | none =>
    refine (moves_makeLayerFolder hid (A.hashed _ hdata)).bind (fun e g hg => ⟨hg ▸ .refl _, fun _ he => nomatch he⟩) ?_
    rintro _ f - rfl
    refine (moves_write (i := .layer (Digest.hexOf data)) hid (.layer hdata hf)).bind ?_ ?_
    · rintro e g (⟨he, -⟩ | ⟨-, rfl⟩)
      · cases he
      · exact ⟨.refl g, fun _ he => nomatch he⟩
    · rintro _ _ - (⟨-, rfl⟩ | ⟨⟨e, he⟩, -⟩)
      · refine .still (fun _ => rfl) fun _ _ => ⟨.put trivial data, ?_⟩
        rintro _ ⟨⟩
        exact ⟨rfl, by rw [Contents.put_self]; rfl⟩
      · cases he

theorem moves_saveConfig {config : Bytes} (hconfig : A.blobs config) :
    Moves s A f (s.saveConfig (Digest.hexOf config) config) (Made f (f.put (.config (Digest.hexOf config)) config)) := by
  have hid := isHexId_hexOf config
  unfold saveConfig
  refine (moves_makeImageFolder hid (A.hashed _ hconfig)).bind (fun e g hg => Or.inr ⟨⟨e, rfl⟩, hg⟩) ?_
  rintro _ f - rfl
  exact moves_write (i := .config (Digest.hexOf config)) hid (.config hconfig)

end Operations
end Store
end Depot
