import Depot.Proofs.Store.Room
import Depot.Store.Update

/-! The operations of a store as functions of its contents. Unless the disk refuses a change, an operation does to
    the contents what the function of the same name says, and ends as that says; what an operation does depends on
    the contents alone, and on the clock for the time at which an image is first stored. In a store that is ready
    the disk refuses nothing, and the store stays ready. -/

namespace Depot.Store

/-- Either the disk refuses a change, which it does not where the store is ready, or `x` ends with a result and
    contents that `P` holds of, and where the store was ready it still is. `R` tells where it is. -/
def Ends {α : Type} (s : Store) (R : Prop) (x : Act Host α) (P : Except Error α → Contents → Prop) (h : Host) : Prop :=
  ((∃ e, (x h).1 = .error (.disk e)) ∧ ¬R) ∨
    ∃ g, s.Shows (x h).2.disk g ∧ P (x h).1 g ∧ (R → s.Ready (x h).2)

/-- So it ends wherever the store shows the contents. -/
def Turns {α : Type} (s : Store) (f : Contents) (x : Act Host α) (P : Except Error α → Contents → Prop) : Prop :=
  ∀ (R : Prop) h, (R → s.Ready h) → s.Shows h.disk f → s.Ends R x P h

section Turning
variable {α β : Type} {s : Store} {f : Contents} {x : Act Host α} {k : α → Act Host β} {h h' : Host} {R : Prop}
variable {P : Except Error α → Contents → Prop} {Q : Except Error β → Contents → Prop}

namespace Ends

theorem mono {P' : Except Error α → Contents → Prop} (hx : s.Ends R x P h) (hP : ∀ r g, P r g → P' r g) :
    s.Ends R x P' h := by
  rcases hx with he | ⟨g, hg, hp, hready⟩
  · exact Or.inl he
  · exact Or.inr ⟨g, hg, hP _ _ hp, hready⟩

theorem bind (hx : s.Ends R x P h) (herror : ∀ e g, P (.error e) g → Q (.error e) g)
    (hok : ∀ a g, P (.ok a) g → Turns s g (k a) Q) : s.Ends R (x >>= k) Q h := by
  unfold Ends at hx ⊢
  rw [Act.bind_apply]
  rcases hxs : x h with ⟨r, h'⟩
  rw [hxs] at hx
  cases r with
  | error e =>
    rcases hx with ⟨he, hnot⟩ | ⟨g, hg, hp, hready⟩
    · exact Or.inl ⟨he.imp fun _ he => congrArg _ (Except.error.inj he), hnot⟩
    · exact Or.inr ⟨g, hg, herror e g hp, hready⟩
  | ok a =>
    rcases hx with ⟨⟨e, he⟩, -⟩ | ⟨g, hg, hp, hready⟩
    · cases he
    · exact hok a g hp R h' hready hg

/-- A computation goes on from a part of it that ends with a value, if it ends at all. -/
theorem bind_ok {a : α} {W : Contents → Prop} (hx : s.Ends R x (fun r g => r = .ok a ∧ W g) h)
    (hok : ∀ g, W g → Turns s g (k a) Q) : s.Ends R (x >>= k) Q h := by
  refine hx.bind (fun _ _ hfailed => nomatch hfailed.1) ?_
  rintro _ g ⟨⟨⟩, hw⟩
  exact hok g hw

theorem congr {y : Act Host α} (hxy : x h = y h) (hy : s.Ends R y P h) : s.Ends R x P h := by
  unfold Ends at hy ⊢
  rwa [hxy]

/-- A computation goes on where a part of it has ended. -/
theorem seq {a : α} (hx : x h = (.ok a, h')) (hk : s.Ends R (k a) Q h') : s.Ends R (x >>= k) Q h := by
  unfold Ends
  rwa [Act.bind_of_ok hx]

/-- Where the disk refuses nothing, a computation ends with the contents that it is said to make. -/
theorem unrefused (hx : s.Ends R x P h) (hwrites : ∀ why, (x h).1 ≠ .error (.disk why)) :
    ∃ g, s.Shows (x h).2.disk g ∧ P (x h).1 g := by
  rcases hx with ⟨⟨why, hwhy⟩, -⟩ | ⟨g, hg, hp, -⟩
  · exact absurd hwhy (hwrites why)
  · exact ⟨g, hg, hp⟩

end Ends

namespace Turns

theorem mono {P' : Except Error α → Contents → Prop} (hx : Turns s f x P) (hP : ∀ r g, P r g → P' r g) :
    Turns s f x P' := fun R h hready hshows => (hx R h hready hshows).mono hP

theorem pure (a : α) (hp : P (.ok a) f) : Turns s f (pure a) P :=
  fun _ _ hready hshows => Or.inr ⟨f, hshows, hp, hready⟩

theorem fail (e : Error) (hp : P (.error e) f) : Turns s f (Act.fail e) P :=
  fun _ _ hready hshows => Or.inr ⟨f, hshows, hp, hready⟩

theorem bind (hx : Turns s f x P) (herror : ∀ e g, P (.error e) g → Q (.error e) g)
    (hok : ∀ a g, P (.ok a) g → Turns s g (k a) Q) : Turns s f (x >>= k) Q :=
  fun R h hready hshows => (hx R h hready hshows).bind herror hok

theorem bind_ok {a : α} {W : Contents → Prop} (hx : Turns s f x fun r g => r = .ok a ∧ W g)
    (hok : ∀ g, W g → Turns s g (k a) Q) : Turns s f (x >>= k) Q :=
  fun R h hready hshows => (hx R h hready hshows).bind_ok hok

/-- A computation that begins by looking at its surroundings. -/
theorem state {k : Host → Act Host β} (hk : ∀ h, s.Shows h.disk f → Turns s f (k h) Q) :
    Turns s f (Act.state >>= k) Q := fun R h hready hshows => .seq rfl (hk h hshows R h hready hshows)

theorem unrefused (hx : Turns s f x P) (hshows : s.Shows h.disk f) (hwrites : ∀ why, (x h).1 ≠ .error (.disk why)) :
    ∃ g, s.Shows (x h).2.disk g ∧ P (x h).1 g := (hx False h False.elim hshows).unrefused hwrites

theorem unrefused_of_ok {a : α} (hx : Turns s f x P) (hshows : s.Shows h.disk f) (hok : (x h).1 = .ok a) :
    ∃ g, s.Shows (x h).2.disk g ∧ P (.ok a) g := by
  obtain ⟨g, hg, hp⟩ := hx.unrefused hshows (by rw [hok]; exact nofun)
  exact ⟨g, hg, hok ▸ hp⟩

end Turns
end Turning

/-! ### Changes of the disk -/

section Changes
variable {s : Store} {f : Contents} {h : Host} {i : Item} {R : Prop}

theorem ends_write (hi : i.Plain) (hready : R → s.Ready h) (hway : R → h.disk.Reaches (s.file i)) (c : Bytes)
    (hshows : s.Shows h.disk f) : s.Ends R (Host.write (s.file i) c) (fun r g => r = .ok () ∧ g = f.put i c) h := by
  unfold Ends
  have hwritten (hr : R) := (hready hr).write hi (hway hr) c
  rcases Host.alter_cases (·.write (s.file i) c) h with ⟨e, he⟩ | ⟨d, hwrite, he⟩
  · refine Or.inl ⟨⟨e, congrArg Prod.fst he⟩, fun hr => ?_⟩
    exact absurd ((hwritten hr).1.symm.trans (congrArg Prod.fst he)) (by simp)
  · refine Or.inr ⟨f.put i c, ?_, ⟨congrArg Prod.fst he, rfl⟩, fun hr => (hwritten hr).2⟩
    rw [Host.write, he]
    exact hshows.write hi hwrite

theorem ends_saveMetadata {m : Metadata} (hm : IsName m.id) (hready : R → s.Ready h)
    (hway : R → h.disk.Reaches (s.metadataFile m.id)) (hshows : s.Shows h.disk f) :
    s.Ends R (s.saveMetadata m) (fun r g => r = .ok () ∧ g = f.setMetadata m) h :=
  ends_write (i := .metadata m.id) hm hready hway _ hshows

/-- What is known of an image can be written again. -/
theorem turns_saveMetadata {m n : Metadata} (hm : IsName m.id) (hknown : f.metadata m.id = .ok n) :
    Turns s f (s.saveMetadata m) fun r g => r = .ok () ∧ g = f.setMetadata m := fun R h hready hshows => by
  refine ends_saveMetadata hm hready (fun _ => ?_) hshows
  cases hf : f (.metadata m.id) with
  | none =>
    rw [Contents.metadata_of_none hf] at hknown
    cases hknown
  | some c => exact (Disk.read_ok_iff.mp (((hshows (.metadata m.id) hm).2 c).mpr hf)).1

theorem turns_saveIndex (i : Index) : Turns s f (s.saveIndex i) fun r g => r = .ok () ∧ g = f.setIndex i :=
  fun _ _ hready hshows => ends_write (i := .index) trivial hready (fun hr => (hready hr).room.reaches_index) _ hshows

/-- Making folders changes no contents. -/
theorem makeFolders_cases {path : String} {W : Disk → Prop} (hshows : s.Shows h.disk f) (hready : R → s.Ready h)
    (hmakes : R → ∃ d, h.disk.makeFolders path = (.ok (), d) ∧ s.Roomy d ∧ W d) :
    ((∃ e, (Host.makeFolders path h).1 = .error (.disk e)) ∧ ¬R) ∨
      ∃ d, Host.makeFolders path h = (.ok (), h.withDisk d) ∧ s.Shows d f ∧ (R → s.Ready (h.withDisk d) ∧ W d) := by
  have hkept := Disk.makeFolders_kept h.disk path
  by_cases hr : R
  · obtain ⟨d, hmade, hroom, hways⟩ := hmakes hr
    obtain ⟨hhost, hready'⟩ := (hready hr).makeFolders hmade hroom
    rw [hmade] at hkept
    exact Or.inr ⟨d, hhost, hshows.kept hkept fun _ _ h => h, fun _ => ⟨hready', hways⟩⟩
  · rcases Host.alterPartly_cases (·.makeFolders path) h with ⟨e, he⟩ | he
    · exact Or.inl ⟨⟨e, congrArg Prod.fst he⟩, hr⟩
    · cases hmade : (h.disk.makeFolders path).1 with
      | error e =>
        refine Or.inl ⟨⟨e, ?_⟩, hr⟩
        rw [Host.makeFolders, he, hmade]
        rfl
      | ok u =>
        refine Or.inr ⟨_, ?_, hshows.kept hkept fun _ _ h => h, fun h => absurd h hr⟩
        rw [Host.makeFolders, he, hmade]
        rfl

theorem ends_of_makeFolders_error {α : Type} {path : String} {k : Unit → Act Host α} {P : Except Error α → Contents → Prop}
    (h' : (∃ e, (Host.makeFolders path h).1 = .error (.disk e)) ∧ ¬R) : s.Ends R (Host.makeFolders path >>= k) P h := by
  obtain ⟨⟨e, he⟩, hr⟩ := h'
  refine Or.inl ⟨⟨e, ?_⟩, hr⟩
  have hfailed : Host.makeFolders path h = (.error (.disk e), (Host.makeFolders path h).2) := Prod.ext he rfl
  rw [Act.bind_of_error hfailed]

end Changes

/-! ### Operations on contents -/

namespace Contents

/-- A name taken off the list of an image. -/
def release (f : Contents) (id name : String) : Contents :=
  match f.metadata id with
  | .error _ => f
  | .ok m => f.setMetadata { m with repoTags := m.repoTags.filter (· ≠ name) }

/-- A name taken from its holder, unless that is the image `id`. -/
def vacate (f : Contents) (id name : String) : Contents :=
  match f.index.tags.get? name with
  | some holder => if holder ≠ id then f.release holder name else f
  | none => f

/-- A name put on the list of an image. -/
def claim (f : Contents) (m : Metadata) (name : String) : Contents :=
  if name ∈ m.repoTags then f else f.setMetadata { m with repoTags := m.repoTags ++ [name] }

/-- A name given to an image. -/
def tag (f : Contents) (id name : String) : Except Error Unit × Contents :=
  match (f.vacate id name).metadata id with
  | .error e => (.error e, f.vacate id name)
  | .ok m => (.ok (), ((f.vacate id name).claim m name).setIndex { f.index with tags := f.index.tags.insert name id })

/-- A name taken from its holder for good. -/
def untag (f : Contents) (name : String) : Except Error Unit × Contents :=
  match f.index.tags.get? name with
  | none => (.error (.imageNotFound name), f)
  | some id =>
    match f.metadata id with
    | .error e => (.error e, f)
    | .ok _ => (.ok (), (f.release id name).setIndex { f.index with tags := f.index.tags.erase name })

/-- Names given to an image in turn. -/
def tagAll (f : Contents) (id : String) : List String → Except Error Unit × Contents
  | [] => (.ok (), f)
  | name :: names =>
    match Reference.parse name with
    | .error e => (.error (.reference e), f)
    | .ok r =>
      match f.tag id r.canonicalName with
      | (.error e, g) => (.error e, g)
      | (.ok (), g) => g.tagAll id names

/-- What is known of an image that is stored. -/
def described (f : Contents) (id : String) (digest : Option String) (layers : List String) (size : UInt64) (now : Instant) :
    Metadata where
  id := id
  repoTags := ((f.metadata id).toOption.map Metadata.repoTags).getD []
  digest := digest
  created := ((f.metadata id).toOption.map Metadata.created).getD now
  size := size
  layers := layers

/-- An image stored and filed under its short id. -/
def filed (f : Contents) (m : Metadata) (short : String) : Contents :=
  (f.setMetadata m).setIndex { f.index with shortIds := f.index.shortIds.insert short m.id }

/-- An image stored and named. -/
def add (f : Contents) (id : String) (names : List String) (digest : Option String) (layers : List String) (size : UInt64)
    (now : Instant) : Except Error Unit × Contents :=
  match indexedId? id with
  | none => (.error (.dividedCharacter id), f.setMetadata (f.described id digest layers size now))
  | some short => (f.filed (f.described id digest layers size now) short).tagAll id names

/-! ### Contents that make sense -/

/-- What is known of an image bears its id, and the holders of names are names of files. -/
structure Sound (f : Contents) : Prop where
  named : ∀ id m, IsName id → f.metadata id = .ok m → m.id = id
  holders : ∀ k id, f.index.tags.get? k = some id → IsName id

variable {f : Contents} {id name short : String} {m : Metadata} {i : Index}

theorem index_filed : (f.filed m short).index = { f.index with shortIds := f.index.shortIds.insert short m.id } := index_setIndex

theorem metadata_filed : (f.filed m short).metadata id = if id = m.id then .ok m else f.metadata id := by
  rw [filed, metadata_setIndex, metadata_setMetadata]

theorem metadata_filed_self : (f.filed m short).metadata m.id = .ok m := metadata_filed.trans (if_pos rfl)

theorem Sound.setMetadata (h : f.Sound) : (f.setMetadata m).Sound where
  named id m' hid hm := by
    rw [metadata_setMetadata] at hm
    split at hm
    · next heq =>
      cases hm
      exact heq.symm
    · exact h.named id m' hid hm
  holders := h.holders

theorem Sound.setIndex (h : f.Sound) (hi : ∀ k id, i.tags.get? k = some id → IsName id) : (f.setIndex i).Sound where
  named id m hid hm := h.named id m hid (by rwa [metadata_setIndex] at hm)
  holders := by rwa [index_setIndex]

theorem Sound.release (h : f.Sound) (id name : String) : (f.release id name).Sound := by
  unfold Contents.release
  split
  · exact h
  · exact h.setMetadata

/-- A name is taken from the image that has it in the index, if that is another, or nothing is done. -/
theorem vacate_cases (f : Contents) (id name : String) : f.vacate id name = f ∨
    ∃ holder, f.index.tags.get? name = some holder ∧ holder ≠ id ∧ f.vacate id name = f.release holder name := by
  unfold Contents.vacate
  cases hholder : f.index.tags.get? name with
  | none => exact Or.inl rfl
  | some holder =>
    by_cases hne : holder ≠ id
    · exact Or.inr ⟨holder, rfl, hne, if_pos hne⟩
    · exact Or.inl (if_neg hne)

theorem Sound.vacate (h : f.Sound) (id name : String) : (f.vacate id name).Sound := by
  rcases vacate_cases f id name with hsame | ⟨holder, -, -, hrelease⟩
  · rwa [hsame]
  · rw [hrelease]
    exact h.release holder name

theorem Sound.claim (h : f.Sound) (m : Metadata) (name : String) : (f.claim m name).Sound := by
  unfold Contents.claim
  split
  · exact h
  · exact h.setMetadata

theorem Sound.insert (h : f.Sound) (hid : IsName id) :
    ∀ k i, (f.index.tags.insert name id).get? k = some i → IsName i := by
  intro k i hi
  rw [Dictionary.get?_insert] at hi
  split at hi
  · cases hi
    exact hid
  · exact h.holders k i hi

theorem Sound.tag (h : f.Sound) (hid : IsName id) (name : String) : (f.tag id name).2.Sound := by
  unfold Contents.tag
  split
  · exact h.vacate id name
  · exact ((h.vacate id name).claim _ name).setIndex (h.insert hid)

theorem Sound.filed (h : f.Sound) (m : Metadata) (short : String) : (f.filed m short).Sound :=
  h.setMetadata.setIndex h.holders

/-- What naming preserves is preserved by naming several times, wherever that ends. -/
theorem tagAll_induction {P : Contents → Prop} (htag : ∀ g name, P g → P (g.tag id name).2) (h : P f) (names : List String) :
    P (f.tagAll id names).2 := by
  induction names generalizing f with
  | nil => exact h
  | cons name names ih =>
    unfold Contents.tagAll
    split
    · exact h
    · next r _ =>
      have hnext := htag f r.canonicalName h
      split
      · next heq => rwa [heq] at hnext
      · next heq =>
        rw [heq] at hnext
        exact ih hnext

/-! ### What the operations leave alone -/

@[simp] theorem index_release : (f.release id name).index = f.index := by
  unfold Contents.release
  split <;> rfl

@[simp] theorem index_vacate : (f.vacate id name).index = f.index := by
  rcases vacate_cases f id name with hsame | ⟨holder, -, -, hrelease⟩
  · rw [hsame]
  · rw [hrelease, index_release]

theorem apart_setMetadata (f : Contents) (m : Metadata) : f.Apart Item.IsRecord (f.setMetadata m) := .put trivial _

theorem apart_setIndex (f : Contents) (i : Index) : f.Apart Item.IsRecord (f.setIndex i) := .put trivial _

theorem apart_release (f : Contents) (id name : String) : f.Apart Item.IsRecord (f.release id name) := by
  unfold Contents.release
  split
  · exact .refl f
  · exact apart_setMetadata f _

theorem apart_vacate (f : Contents) (id name : String) : f.Apart Item.IsRecord (f.vacate id name) := by
  rcases vacate_cases f id name with hsame | ⟨holder, -, -, hrelease⟩
  · rw [hsame]
    exact .refl f
  · rw [hrelease]
    exact apart_release f holder name

theorem apart_claim (f : Contents) (m : Metadata) (name : String) : f.Apart Item.IsRecord (f.claim m name) := by
  unfold Contents.claim
  split
  · exact .refl f
  · exact apart_setMetadata f _

theorem apart_tag (f : Contents) (id name : String) : f.Apart Item.IsRecord (f.tag id name).2 := by
  unfold Contents.tag
  split
  · exact apart_vacate f id name
  · exact ((apart_vacate f id name).trans (apart_claim _ _ name)).trans (apart_setIndex _ _)

theorem apart_tagAll (f : Contents) (id : String) (names : List String) : f.Apart Item.IsRecord (f.tagAll id names).2 :=
  tagAll_induction (fun g name h => h.trans (apart_tag g id name)) (.refl f) names

/-- Storing and naming an image changes no configs and no layers. -/
theorem apart_add (f : Contents) (id : String) (names : List String) (digest : Option String) (layers : List String)
    (size : UInt64) (now : Instant) : f.Apart Item.IsRecord (f.add id names digest layers size now).2 := by
  unfold Contents.add Contents.filed
  split
  · exact apart_setMetadata f _
  · exact ((apart_setMetadata f _).trans (apart_setIndex _ _)).trans (apart_tagAll _ id names)

theorem shortIds_tag (f : Contents) (id name : String) : (f.tag id name).2.index.shortIds = f.index.shortIds := by
  unfold Contents.tag
  split
  · rw [index_vacate]
  · rw [index_setIndex]

theorem shortIds_tagAll (f : Contents) (id : String) (names : List String) :
    (f.tagAll id names).2.index.shortIds = f.index.shortIds :=
  tagAll_induction (P := fun g => g.index.shortIds = f.index.shortIds) (fun g name h => (shortIds_tag g id name).trans h) rfl names

/-- An image that is stored is filed under its short id, whatever becomes of its names. -/
theorem shortIds_add {short : String} (hshort : indexedId? id = some short) (names : List String) (digest : Option String)
    (layers : List String) (size : UInt64) (now : Instant) :
    (f.add id names digest layers size now).2.index.shortIds = f.index.shortIds.insert short id := by
  unfold Contents.add
  rw [hshort]
  refine (shortIds_tagAll _ id names).trans ?_
  rw [index_filed]
  rfl

/-! ### Errors that are not the disk's -/

theorem metadata_ne_disk (f : Contents) (id : String) (e : DiskError) : f.metadata id ≠ .error (.disk e) := by
  unfold Contents.metadata
  split
  · simp
  · split <;> simp

theorem tag_ne_disk (f : Contents) (id name : String) (e : DiskError) : (f.tag id name).1 ≠ .error (.disk e) := by
  unfold Contents.tag
  split
  · next e' he =>
    intro h
    cases h
    exact metadata_ne_disk _ _ _ he
  · simp

theorem tagAll_ne_disk (f : Contents) (id : String) (names : List String) (e : DiskError) :
    (f.tagAll id names).1 ≠ .error (.disk e) := by
  induction names generalizing f with
  | nil => simp [Contents.tagAll]
  | cons name names ih =>
    unfold Contents.tagAll
    split
    · simp
    · next r _ =>
      have htag := tag_ne_disk f id r.canonicalName e
      split
      · next heq => rwa [heq] at htag
      · exact ih _

theorem add_ne_disk (f : Contents) (id : String) (names : List String) (digest : Option String) (layers : List String)
    (size : UInt64) (now : Instant) (e : DiskError) : (f.add id names digest layers size now).1 ≠ .error (.disk e) := by
  unfold Contents.add
  split
  · simp
  · exact tagAll_ne_disk _ _ _ e

end Contents

/-! ### The operations of a store -/

section Operations
variable {s : Store} {f : Contents} {id name : String}

theorem turns_releaseName (hf : f.Sound) (hid : IsName id) (name : String) :
    Turns s f (s.releaseName id name) fun r g => r = .ok () ∧ g = f.release id name := fun R h hready hshows => by
  have hmetadata := hshows.metadata hid
  unfold Contents.release
  cases hm : f.metadata id with
  | error e =>
    rw [hm] at hmetadata
    refine .congr (y := pure ()) ?_ (Turns.pure () ⟨rfl, rfl⟩ R h hready hshows)
    unfold releaseName
    rw [hmetadata]
    rfl
  | ok m =>
    rw [hm] at hmetadata
    have hm' := hf.named id m hid hm
    refine .congr (y := s.saveMetadata { m with repoTags := m.repoTags.filter (· ≠ name) }) ?_
      (turns_saveMetadata (n := m) (by rwa [hm']) (by rwa [hm']) R h hready hshows)
    unfold releaseName
    rw [hmetadata]

theorem turns_claimName {m n : Metadata} (hm : IsName m.id) (hknown : f.metadata m.id = .ok n) (name : String) :
    Turns s f (s.claimName m name) fun r g => r = .ok () ∧ g = f.claim m name := by
  unfold claimName Contents.claim
  split
  · exact .pure () ⟨rfl, rfl⟩
  · exact turns_saveMetadata hm hknown

/-- The end of naming an image, when the name has no other holder any more. -/
theorem turns_named (hf : f.Sound) (hid : IsName id) (i : Index) (name : String) :
    Turns s f (Act.state >>= fun h => Act.ofExcept (s.metadata h.disk id) >>= fun m => s.claimName m name >>= fun _ =>
        s.saveIndex i) fun result g => (result, g) = match f.metadata id with
      | .error e => (.error e, f)
      | .ok m => (.ok (), (f.claim m name).setIndex i) := by
  refine .state fun h hshows => ?_
  rw [hshows.metadata hid]
  cases hm : f.metadata id with
  | error e => exact .fail e rfl
  | ok m =>
    rw [Act.ofExcept_ok_bind]
    have hm' := hf.named id m hid hm
    refine (turns_claimName (n := m) (by rwa [hm']) (by rwa [hm']) name).bind_ok ?_
    rintro _ rfl
    exact (turns_saveIndex i).mono fun r g ⟨hr, hg⟩ => by rw [hr, hg]

theorem turns_tag (hf : f.Sound) (hid : IsName id) (r : Reference) :
    Turns s f (s.tag id r) fun result g => (result, g) = f.tag id r.canonicalName := by
  unfold Store.tag Contents.tag
  refine .state fun h hshows => ?_
  dsimp only
  rw [hshows.indexOrEmpty]
  -- Whoever has the name, what comes after it was taken from them is the same.
  have hrest := turns_named (s := s) (hf.vacate id r.canonicalName) hid
    { f.index with tags := f.index.tags.insert r.canonicalName id } r.canonicalName
  unfold Contents.vacate at hrest ⊢
  cases hholder : f.index.tags.get? r.canonicalName with
  | none =>
    rw [hholder] at hrest
    dsimp only at hrest ⊢
    exact hrest
  | some holder =>
    rw [hholder] at hrest
    dsimp only at hrest ⊢
    by_cases hne : holder ≠ id
    · rw [if_pos hne] at hrest
      rw [if_pos hne, if_pos hne]
      refine (turns_releaseName hf (hf.holders _ _ hholder) _).bind_ok ?_
      rintro _ rfl
      exact hrest
    · rw [if_neg hne] at hrest
      rw [if_neg hne, if_neg hne]
      exact hrest

theorem turns_untag (hf : f.Sound) (r : Reference) :
    Turns s f (s.untag r) fun result g => (result, g) = f.untag r.canonicalName := by
  unfold Store.untag Contents.untag
  refine .state fun h hshows => ?_
  dsimp only
  rw [hshows.indexOrEmpty]
  cases hholder : f.index.tags.get? r.canonicalName with
  | none => exact .fail _ rfl
  | some id =>
    have hid := hf.holders _ _ hholder
    dsimp only
    rw [hshows.metadata hid]
    cases hm : f.metadata id with
    | error e => exact .fail e rfl
    | ok m =>
      rw [Act.ofExcept_ok_bind]
      have hm' := hf.named id m hid hm
      refine (turns_saveMetadata (n := m) (by rwa [hm']) (by rwa [hm'])).bind_ok ?_
      rintro _ rfl
      refine (turns_saveIndex _).mono fun r g ⟨hr, hg⟩ => ?_
      rw [hr, hg]
      unfold Contents.release
      rw [hm]

theorem turns_tagAll (hf : f.Sound) (hid : IsName id) (names : List String) :
    Turns s f (s.tagAll id names) fun result g => (result, g) = f.tagAll id names := by
  induction names generalizing f with
  | nil => exact .pure () rfl
  | cons name names ih =>
    show Turns s f (Act.ofExcept ((Reference.parse name).mapError .reference) >>= fun r => s.tag id r >>= fun _ =>
      s.tagAll id names) _
    unfold Contents.tagAll
    cases Reference.parse name with
    | error e => exact .fail (.reference e) rfl
    | ok r =>
      rw [show (Except.ok r : Except ReferenceError Reference).mapError Error.reference = .ok r from rfl,
        Act.ofExcept_ok_bind]
      refine (turns_tag hf hid r).bind ?_ ?_
      · intro e g hg
        dsimp only
        rw [← hg]
      · intro _ g hg
        have hsound := hf.tag hid r.canonicalName
        dsimp only
        rw [← hg] at hsound ⊢
        exact ih hsound

/-- What comes after it is known when an image was first stored. -/
theorem ends_described {h : Host} {R : Prop} {now created : Instant} (hf : f.Sound) (hid : IsName id) (names : List String)
    (digest : Option String) (layers : List String) (size : UInt64) (hshows : s.Shows h.disk f) (hready : R → s.Ready h)
    (hway : R → h.disk.Reaches (s.metadataFile id))
    (hcreated : created = ((f.metadata id).toOption.map Metadata.created).getD now) :
    s.Ends R (s.saveMetadata ⟨id, ((f.metadata id).toOption.map Metadata.repoTags).getD [], digest, created, size, layers⟩ >>=
      fun _ => Act.state >>= fun h => match indexedId? id with
        | none => Act.fail (.dividedCharacter id)
        | some short =>
          s.saveIndex { s.indexOrEmpty h.disk with shortIds := (s.indexOrEmpty h.disk).shortIds.insert short id } >>=
            fun _ => s.tagAll id names)
      (fun result g => ∃ now, (result, g) = f.add id names digest layers size now) h := by
  subst hcreated
  refine .mono (P := fun result g => (result, g) = f.add id names digest layers size now) ?_ fun _ _ hg => ⟨now, hg⟩
  refine (ends_saveMetadata (m := f.described id digest layers size now) hid hready hway hshows).bind_ok ?_
  rintro _ rfl
  refine .state fun h' hshows' => ?_
  rw [hshows'.indexOrEmpty]
  unfold Contents.add
  cases indexedId? id with
  | none => exact .fail _ rfl
  | some short =>
    refine (turns_saveIndex _).bind_ok ?_
    rintro _ rfl
    exact turns_tagAll (hf.filed _ _) hid names

/-- That the id is the name of a file matters only where the disk is not to refuse the folder of the image. -/
theorem ends_add {h : Host} {R : Prop} (hf : f.Sound) (hid : IsName id) (hfile : R → Disk.IsFileName id) (names : List String)
    (digest : Option String) (layers : List String) (size : UInt64) (hready : R → s.Ready h) (hshows : s.Shows h.disk f) :
    s.Ends R (s.add id names digest layers size)
      (fun result g => ∃ now, (result, g) = f.add id names digest layers size now) h := by
  unfold Store.add
  have hmakes (hr : R) := (hready hr).room.makeImageFolder (hfile hr)
  rcases makeFolders_cases hshows hready hmakes with he | ⟨d, hmade, hshows', hway⟩
  · exact ends_of_makeFolders_error he
  · refine .seq hmade (.seq rfl ?_)
    dsimp only [Host.disk_withDisk]
    rw [hshows'.metadata hid]
    have hrest {h' : Host} {n created : Instant} (hdisk : h'.disk = d) (htroubles : h'.troubles = (h.withDisk d).troubles)
        (hcreated : created = ((f.metadata id).toOption.map Metadata.created).getD n) :=
      ends_described (s := s) (R := R) hf hid names digest layers size (hdisk ▸ hshows')
        (fun hr => ⟨htroubles.trans (hway hr).1.calm, hdisk ▸ (hway hr).1.room⟩) (hdisk ▸ fun hr => (hway hr).2.1) hcreated
    cases hm : f.metadata id with
    | error e =>
      rw [hm] at hrest
      exact .seq (x := Host.now) rfl (hrest rfl rfl rfl)
    | ok m =>
      rw [hm] at hrest
      exact .seq (x := (pure m.created : Act Host Instant)) rfl (hrest (n := m.created) rfl rfl rfl)

theorem turns_add (hf : f.Sound) (hid : Disk.IsFileName id) (names : List String) (digest : Option String)
    (layers : List String) (size : UInt64) :
    Turns s f (s.add id names digest layers size) fun result g => ∃ now, (result, g) = f.add id names digest layers size now :=
  fun _ _ => ends_add hf hid.toIsName (fun _ => hid) names digest layers size

/-- Where the disk refuses nothing, an image is stored as it should be, whether or not its id can be the name of a file. -/
theorem add_unrefused {h : Host} (hf : f.Sound) (hid : IsName id) {names : List String} {digest : Option String}
    {layers : List String} {size : UInt64} (hshows : s.Shows h.disk f)
    (hwrites : ∀ why, (s.add id names digest layers size h).1 ≠ .error (.disk why)) :
    ∃ g, s.Shows (s.add id names digest layers size h).2.disk g ∧
      ∃ now, ((s.add id names digest layers size h).1, g) = f.add id names digest layers size now :=
  (ends_add hf hid False.elim names digest layers size False.elim hshows).unrefused hwrites

end Operations
end Depot.Store
