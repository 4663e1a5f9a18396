import Depot.Proofs.Store.ImageIds
import Depot.Proofs.Store.Operations

/-! What a ready store does with an image. Layers and configs are stored whatever was there before, and an image whose
    names no other image holds gets all of them, in order and each once. -/

namespace Depot.Store

/-- In a ready store `x` ends with a result and contents that `P` holds of, and the store stays ready. -/
def Goes {α : Type} (s : Store) (f : Contents) (x : Act Host α) (P : Except Error α → Contents → Prop) : Prop :=
  ∀ h, s.Ready h → s.Shows h.disk f → ∃ g, s.Ready (x h).2 ∧ s.Shows (x h).2.disk g ∧ P (x h).1 g

section Going
variable {α β : Type} {s : Store} {f : Contents} {x : Act Host α} {k : α → Act Host β} {h h' : Host}
variable {P : Except Error α → Contents → Prop} {Q : Except Error β → Contents → Prop}

theorem Turns.goes (hx : Turns s f x P) : Goes s f x P := fun h hready hshows => by
  rcases hx True h (fun _ => hready) hshows with ⟨-, hnot⟩ | ⟨g, hg, hp, hready'⟩
  · exact absurd trivial hnot
  · exact ⟨g, hready' trivial, hg, hp⟩

namespace Goes

theorem pure (a : α) (hp : P (.ok a) f) : Goes s f (pure a) P := fun _ hready hshows => ⟨f, hready, hshows, hp⟩

theorem mono {P' : Except Error α → Contents → Prop} (hx : Goes s f x P) (hP : ∀ r g, P r g → P' r g) :
    Goes s f x P' := fun h hready hshows => by
  obtain ⟨g, hready', hg, hp⟩ := hx h hready hshows
  exact ⟨g, hready', hg, hP _ _ hp⟩

/-- A computation goes on from what a part of it ends with. -/
theorem bind {a : α} {W : Contents → Prop} (hx : Goes s f x fun r g => r = .ok a ∧ W g)
    (hk : ∀ g, W g → Goes s g (k a) Q) : Goes s f (x >>= k) Q := fun h hready hshows => by
  obtain ⟨g, hready', hg, hr, hw⟩ := hx h hready hshows
  have hxs : x h = (.ok a, (x h).2) := Prod.ext hr rfl
  rw [Act.bind_of_ok hxs]
  exact hk g hw _ hready' hg

end Goes
end Going

/-! ### Layers and configs -/

namespace Contents

/-- The contents with a layer stored, unless there is one with its digest. -/
def withLayer (f : Contents) (data : Bytes) : Contents :=
  match f (.layer (Digest.hexOf data)) with
  | none => f.put (.layer (Digest.hexOf data)) data
  | some _ => f

/-- The contents with layers stored one after the other. -/
def withLayers (f : Contents) (layers : List Bytes) : Contents := layers.foldl withLayer f

/-- What is stored under the digest of a layer is that layer. -/
def Faithful (f : Contents) (layers : List Bytes) : Prop :=
  ∀ b ∈ layers, ∀ c, f (.layer (Digest.hexOf b)) = some c → c = b

variable {f : Contents} {data : Bytes} {layers : List Bytes} {i : Item} {c : Bytes}

theorem withLayer_of_ne (hi : i ≠ .layer (Digest.hexOf data)) : f.withLayer data i = f i := by
  unfold withLayer
  cases f (.layer (Digest.hexOf data)) with
  | none => exact put_of_ne hi
  | some c => rfl

theorem withLayer_kept (hc : f i = some c) : f.withLayer data i = some c := by
  by_cases hi : i = .layer (Digest.hexOf data)
  · subst hi
    unfold withLayer
    rw [hc]
    exact hc
  · rwa [withLayer_of_ne hi]

theorem withLayers_of_ne (hi : ∀ hex, i ≠ .layer hex) : f.withLayers layers i = f i := by
  induction layers generalizing f with
  | nil => rfl
  | cons data layers ih => exact (ih (f := f.withLayer data)).trans (withLayer_of_ne (hi _))

theorem withLayers_kept (hc : f i = some c) : f.withLayers layers i = some c := by
  induction layers generalizing f with
  | nil => exact hc
  | cons data layers ih => exact ih (withLayer_kept hc)

/-- A layer that is stored is what is found under its digest. -/
theorem Faithful.withLayer_self (hf : f.Faithful layers) (hdata : data ∈ layers) :
    f.withLayer data (.layer (Digest.hexOf data)) = some data := by
  unfold withLayer
  cases hc : f (.layer (Digest.hexOf data)) with
  | none => exact put_self f _ data
  | some c => exact hc.trans (congrArg some (hf data hdata c hc))

theorem Faithful.withLayer (hf : f.Faithful layers) (hdata : data ∈ layers)
    (hunique : ∀ b ∈ layers, Digest.hexOf b = Digest.hexOf data → b = data) : (f.withLayer data).Faithful layers := by
  intro b hb c hc
  by_cases heq : Digest.hexOf b = Digest.hexOf data
  · rw [heq, hf.withLayer_self hdata] at hc
    exact (Option.some.inj hc).symm.trans (hunique b hb heq).symm
  · rw [withLayer_of_ne fun h => heq (Item.layer.inj h)] at hc
    exact hf b hb c hc

/-- Layers of which no two share a digest are all found under theirs. -/
theorem Faithful.withLayers {all : List Bytes} (hf : f.Faithful all) (hlayers : ∀ b ∈ layers, b ∈ all)
    (hunique : ∀ a ∈ all, ∀ b ∈ all, Digest.hexOf a = Digest.hexOf b → a = b) :
    ∀ b ∈ layers, f.withLayers layers (.layer (Digest.hexOf b)) = some b := by
  induction layers generalizing f with
  | nil => exact fun b hb => absurd hb (by simp)
  | cons data layers ih =>
    have hdata := hlayers data (by simp)
    intro b hb
    rcases List.mem_cons.mp hb with rfl | hb
    · exact withLayers_kept (f := f.withLayer b) (hf.withLayer_self hdata)
    · exact ih (hf.withLayer hdata fun b hb => hunique b hb data hdata) (fun b hb => hlayers b (by simp [hb])) b hb

end Contents

section Storing
variable {s : Store} {f : Contents} {h : Host}

/-- In a ready store there is what can be read. -/
theorem Ready.exists?_iff (hready : s.Ready h) (hshows : s.Shows h.disk f) {i : Item} (hi : i.Plain) :
    h.disk.exists? (s.file i) = (f i).isSome :=
  hshows.exists?_iff hi (hready.room.file i hi)

/-- A file is written into a folder that is made for it. -/
theorem turns_makeFolders_write {path : String} {i : Item} (hi : i.Plain) (c : Bytes)
    (hmakes : ∀ d, s.Roomy d → ∃ d', d.makeFolders path = (.ok (), d') ∧ s.Roomy d' ∧ d'.Reaches (s.file i)) :
    Turns s f (Host.makeFolders path >>= fun _ => Host.write (s.file i) c) fun r g => r = .ok () ∧ g = f.put i c := by
  intro R h hready hshows
  rcases makeFolders_cases hshows hready fun hr => hmakes h.disk (hready hr).room with he | ⟨d, hmade, hshows', hway⟩
  · exact ends_of_makeFolders_error he
  · exact .seq hmade (ends_write hi (fun hr => (hway hr).1) (fun hr => (hway hr).2) c hshows')

theorem goes_addLayer (data : Bytes) :
    Goes s f (s.addLayer data) fun r g => r = .ok (Digest.ofBytes data) ∧ g = f.withLayer data := by
  intro h hready hshows
  have hid := isImageId_hexOf data
  have hlayer : s.hasLayer h.disk (Digest.hexOf data) = (f (.layer (Digest.hexOf data))).isSome := by
    unfold hasLayer
    rw [encoded_hexOf]
    exact hready.exists?_iff hshows (i := .layer (Digest.hexOf data)) hid.isName
  unfold addLayer Contents.withLayer
  rw [Act.bind_of_ok (x := Act.state) (s := h) rfl]
  dsimp only
  rw [hlayer]
  cases hf : f (.layer (Digest.hexOf data)) with
  | some c => exact ⟨f, hready, hshows, rfl, rfl⟩
  | none =>
    have hstored := turns_makeFolders_write (s := s) (f := f) (i := .layer (Digest.hexOf data)) hid.isName data fun _ hroom =>
      hroom.makeLayerFolder hid.isFileName
    have hrest := hstored.goes.bind (k := fun _ => pure (Digest.ofBytes data)) (Q := fun r g => r = .ok (Digest.ofBytes data) ∧
      g = f.put (.layer (Digest.hexOf data)) data) fun _ hg => .pure _ ⟨rfl, hg⟩
    rw [bind_assoc] at hrest
    exact hrest h hready hshows

/-- Whether or not a layer is taken to be there, the images stay as they are. -/
theorem turns_addLayer (data : Bytes) :
    Turns s f (s.addLayer data) fun r g => r = .ok (Digest.ofBytes data) ∧ f.Alike g := by
  have hid := isImageId_hexOf data
  unfold addLayer
  refine .state fun h _ => ?_
  dsimp only
  split
  · exact .pure _ ⟨rfl, .refl f⟩
  · have hstored := turns_makeFolders_write (s := s) (f := f) (i := .layer (Digest.hexOf data)) hid.isName data fun _ hroom =>
      hroom.makeLayerFolder hid.isFileName
    have hrest := hstored.bind_ok (k := fun _ => pure (Digest.ofBytes data)) (Q := fun r g => r = .ok (Digest.ofBytes data) ∧
      f.Alike g) fun _ hg => .pure _ ⟨rfl, hg ▸ Contents.alike_put (by simp) (by simp) data⟩
    rwa [bind_assoc] at hrest

theorem turns_saveConfig {id : String} (hid : Disk.IsFileName id) (config : Bytes) :
    Turns s f (s.saveConfig id config) fun r g => r = .ok () ∧ g = f.put (.config id) config :=
  turns_makeFolders_write (i := .config id) hid.toIsName config fun _ hroom => by
    obtain ⟨d', hmade, hroom', -, hway⟩ := hroom.makeImageFolder hid
    exact ⟨d', hmade, hroom', hway⟩

end Storing

/-! ### Names -/

/-- The text is read as the reference that it is the canonical name of. -/
def IsCanonical (name : String) : Prop := ∃ r, Reference.parse name = .ok r ∧ r.canonicalName = name

/-- A list with names put at its end that are not on it, each once. -/
def claimAll (list names : List String) : List String := list ++ (names.filter (· ∉ list)).eraseDups

theorem claimAll_cons (list : List String) (name : String) (names : List String) :
    claimAll list (name :: names) = claimAll (if name ∈ list then list else list ++ [name]) names := by
  unfold claimAll
  split
  · next hmem => rw [List.filter_cons_of_neg (by simpa using hmem)]
  · next hmem =>
    rw [List.filter_cons_of_pos (by simpa using hmem), List.eraseDups_cons, List.filter_filter, List.append_assoc]
    congr 3
    refine List.filter_congr fun k _ => ?_
    by_cases hk : k = name <;> by_cases hlist : k ∈ list <;> simp [hk, hlist]

theorem claimAll_nil (names : List String) : claimAll [] names = names.eraseDups := by
  unfold claimAll
  rw [List.nil_append, List.filter_eq_self.mpr fun _ _ => by simp]

namespace Contents
variable {f : Contents} {m : Metadata} {name : String}

/-- No other image than `id` has a name. -/
def Sole (f : Contents) (id : String) : Prop := ∀ k holder, f.index.tags.get? k = some holder → holder = id

/-- No image is known. -/
structure Unknown (f : Contents) : Prop where
  index : f .index = none
  metadata : ∀ id, f (.metadata id) = none

namespace Unknown

theorem get?_tags (hf : f.Unknown) (k : String) : f.index.tags.get? k = none := by
  rw [Contents.index_of_none hf.index]
  rfl

theorem sole (hf : f.Unknown) (id : String) : f.Sole id := fun k _ hk => by
  rw [hf.get?_tags] at hk
  cases hk

theorem sound (hf : f.Unknown) : f.Sound where
  named id m _ hm := by
    rw [metadata_of_none (hf.metadata id)] at hm
    cases hm
  holders k id hk := by
    rw [hf.get?_tags] at hk
    cases hk

end Unknown

/-- An image that no other has to give its name to gets it at the end of its list. -/
theorem tag_sole (hsole : f.Sole m.id) (hm : f.metadata m.id = .ok m) (name : String) :
    ∃ g, f.tag m.id name = (.ok (), g) ∧ g.Sole m.id ∧
      g.metadata m.id = .ok { m with repoTags := if name ∈ m.repoTags then m.repoTags else m.repoTags ++ [name] } ∧
      ∀ i, i ≠ .index → i ≠ .metadata m.id → g i = f i := by
  have hvacate : f.vacate m.id name = f := by
    unfold Contents.vacate
    split
    · next holder hholder => exact if_neg fun hne => hne (hsole name holder hholder)
    · rfl
  unfold Contents.tag
  rw [hvacate, hm]
  refine ⟨_, rfl, fun k holder hk => ?_, ?_, fun i hindex hmetadata => ?_⟩
  · rw [index_setIndex, Dictionary.get?_insert] at hk
    split at hk
    · exact (Option.some.inj hk).symm
    · exact hsole k holder hk
  · rw [metadata_setIndex]
    unfold Contents.claim
    split
    · exact hm
    · rw [metadata_setMetadata, if_pos rfl]
  · rw [Contents.setIndex, put_of_ne hindex]
    unfold Contents.claim
    split
    · rfl
    · exact put_of_ne hmetadata

/-- Such an image gets all of its names, in order and each once. -/
theorem tagAll_sole {names : List String} (hsole : f.Sole m.id) (hm : f.metadata m.id = .ok m)
    (hnames : ∀ k ∈ names, IsCanonical k) :
    ∃ g, f.tagAll m.id names = (.ok (), g) ∧ g.metadata m.id = .ok { m with repoTags := claimAll m.repoTags names } ∧
      ∀ i, i ≠ .index → i ≠ .metadata m.id → g i = f i := by
  induction names generalizing f m with
  | nil => exact ⟨f, rfl, by simpa [claimAll] using hm, fun _ _ _ => rfl⟩
  | cons name names ih =>
    obtain ⟨r, hr, hcanonical⟩ := hnames name (by simp)
    obtain ⟨g, hg, hgsole, hgm, hframe⟩ := tag_sole hsole hm name
    obtain ⟨g', hg', hgm', hframe'⟩ := ih
      (m := { m with repoTags := if name ∈ m.repoTags then m.repoTags else m.repoTags ++ [name] }) hgsole hgm
      fun k hk => hnames k (by simp [hk])
    refine ⟨g', ?_, ?_, fun i hindex hmetadata => (hframe' i hindex hmetadata).trans (hframe i hindex hmetadata)⟩
    · unfold Contents.tagAll
      rw [hr]
      dsimp only
      rw [hcanonical, hg]
      exact hg'
    · rw [claimAll_cons]
      exact hgm'

/-- An image that is stored first, and with names that no other has, gets them all. -/
theorem add_sole {id : String} {names : List String} (hid : IsImageId id) (hsole : f.Sole id)
    (hnew : f (.metadata id) = none) (hnames : ∀ k ∈ names, IsCanonical k) (digest : Option String) (layers : List String)
    (size : UInt64) (now : Instant) :
    ∃ g, f.add id names digest layers size now = (.ok (), g) ∧
      g.metadata id = .ok ⟨id, names.eraseDups, digest, now, size, layers⟩ ∧
      ∀ i, i ≠ .index → i ≠ .metadata id → g i = f i := by
  have hdescribed : f.described id digest layers size now = ⟨id, [], digest, now, size, layers⟩ := by
    unfold Contents.described
    rw [metadata_of_none hnew]
    rfl
  unfold Contents.add
  rw [hid.indexedId?, hdescribed]
  dsimp only
  generalize String.ofList (id.toList.take 12) = short
  have hfiled : (f.filed ⟨id, [], digest, now, size, layers⟩ short).Sole id := by
    intro k holder hk
    rw [index_filed] at hk
    exact hsole k holder hk
  obtain ⟨g, hg, hgm, hframe⟩ := tagAll_sole (m := ⟨id, [], digest, now, size, layers⟩) hfiled metadata_filed_self hnames
  refine ⟨g, hg, ?_, fun i hindex hmetadata => (hframe i hindex hmetadata).trans ?_⟩
  · rw [hgm, claimAll_nil]
  · rw [Contents.filed, Contents.setIndex, put_of_ne hindex]
    exact put_of_ne hmetadata

end Contents
end Depot.Store
