import Depot.Proofs.Store.History

/-! Names that cannot be given or taken. Taking a name away looks at everything first, so a failure changes nothing.
    Giving a name takes it from its holder before it looks for the image that is to have it: if that image cannot be
    found, the name is off the list of its holder, and still in the index. -/

namespace Depot

/-! ### Failures -/

namespace Host
variable {α β : Type} {x : Act Host α} {k : α → Act Host β}

/-- Nothing but a refusal of the disk is a failure of `x`. -/
def OnlyRefused (x : Act Host α) : Prop := ∀ e h h', x h = (.error e, h') → ∃ why, e = .disk why

theorem OnlyRefused.bind (hx : OnlyRefused x) (hk : ∀ a, OnlyRefused (k a)) : OnlyRefused (x >>= k) := by
  intro e h h' hfailed
  rw [Act.bind_apply] at hfailed
  rcases hresult : x h with ⟨_ | a, h₁⟩
  · rw [hresult] at hfailed
    cases hfailed
    exact hx _ _ _ hresult
  · rw [hresult] at hfailed
    exact hk a _ _ _ hfailed

theorem onlyRefused_pure (a : α) : OnlyRefused (pure a) := by
  intro e h h' hfailed
  cases hfailed

theorem onlyRefused_write (path : String) (c : Bytes) : OnlyRefused (write path c) := by
  intro e h h' hfailed
  rcases alter_cases (·.write path c) h with ⟨why, hwhy⟩ | ⟨d, -, hok⟩
  · rw [write, hwhy] at hfailed
    cases hfailed
    exact ⟨why, rfl⟩
  · rw [write, hok] at hfailed
    cases hfailed

end Host

namespace Store
open Host
variable {s : Store} {start h h' : Host} {r : Reference} {id holder name : String} {m : Metadata} {e : Error}

theorem onlyRefused_saveMetadata (s : Store) (m : Metadata) : OnlyRefused (s.saveMetadata m) := onlyRefused_write _ _

theorem onlyRefused_saveIndex (s : Store) (i : Index) : OnlyRefused (s.saveIndex i) := onlyRefused_write _ _

theorem onlyRefused_claimName (s : Store) (m : Metadata) (name : String) : OnlyRefused (s.claimName m name) := by
  unfold claimName
  split
  · exact onlyRefused_pure ()
  · exact onlyRefused_saveMetadata s _

/-! ### Taking a name -/

/-- A name that cannot be taken away changes nothing. -/
theorem untag_failed (he : ∀ why, e ≠ .disk why) (huntag : s.untag r h = (.error e, h')) : h' = h := by
  unfold Store.untag at huntag
  rw [Act.bind_of_ok (x := Act.state) (s := h) rfl] at huntag
  cases hholder : (s.indexOrEmpty h.disk).tags.get? r.canonicalName with
  | none =>
    rw [hholder] at huntag
    cases huntag
    rfl
  | some id =>
    rw [hholder] at huntag
    dsimp only at huntag
    cases hm : s.metadata h.disk id with
    | error e' =>
      rw [hm] at huntag
      cases huntag
      rfl
    | ok m =>
      rw [hm, Act.ofExcept_ok_bind] at huntag
      have hwrites := (onlyRefused_saveMetadata s (m.without r.canonicalName)).bind fun _ => onlyRefused_saveIndex s
        { s.indexOrEmpty h.disk with tags := (s.indexOrEmpty h.disk).tags.erase r.canonicalName }
      obtain ⟨why, rfl⟩ := hwrites _ _ _ huntag
      exact absurd rfl (he why)

/-! ### Giving a name -/

/-- Another image than `id` has the name in the index, and what is known of that image can be read. -/
structure HeldElsewhere (s : Store) (d : Disk) (id name holder : String) (m : Metadata) : Prop where
  held : (s.indexOrEmpty d).tags.get? name = some holder
  ne : holder ≠ id
  known : s.metadata d holder = .ok m

/-- The end of naming an image fails before anything is written. -/
theorem named_failed {i : Index} (he : ∀ why, e ≠ .disk why)
    (hnamed : (Act.state >>= fun h => Act.ofExcept (s.metadata h.disk id) >>= fun m => s.claimName m name >>= fun _ =>
      s.saveIndex i) h = (.error e, h')) : h' = h := by
  rw [Act.bind_of_ok (x := Act.state) (s := h) rfl] at hnamed
  cases hm : s.metadata h.disk id with
  | error e' =>
    rw [hm] at hnamed
    cases hnamed
    rfl
  | ok m =>
    rw [hm, Act.ofExcept_ok_bind] at hnamed
    have hwrites := (onlyRefused_claimName s m name).bind fun _ => onlyRefused_saveIndex s i
    obtain ⟨why, rfl⟩ := hwrites _ _ _ hnamed
    exact absurd rfl (he why)

/-- The holder that a name is taken from has it off its list, if it can be read. -/
theorem releaseName_cases (s : Store) (h : Host) (holder name : String) :
    (s.releaseName holder name h = (.ok (), h) ∧ ∀ m, s.metadata h.disk holder ≠ .ok m) ∨
      ∃ m, s.metadata h.disk holder = .ok m ∧ s.releaseName holder name h = s.saveMetadata (m.without name) h := by
  unfold releaseName
  cases hm : s.metadata h.disk holder with
  | error e => exact Or.inl ⟨rfl, by simp⟩
  | ok m => exact Or.inr ⟨m, rfl, rfl⟩

/-- A name that cannot be given has been taken from its holder, if this is another image and it was found. -/
theorem tag_failed (he : ∀ why, e ≠ .disk why) (htag : s.tag id r h = (.error e, h')) :
    ((¬∃ holder m, s.HeldElsewhere h.disk id r.canonicalName holder m) → h' = h) ∧
      ∀ holder m, s.HeldElsewhere h.disk id r.canonicalName holder m →
        s.saveMetadata (m.without r.canonicalName) h = (.ok (), h') := by
  unfold Store.tag at htag
  rw [Act.bind_of_ok (x := Act.state) (s := h) rfl] at htag
  -- Where nothing is taken from anyone, no image holds the name elsewhere.
  have hnothing (hheld : ∀ holder m, ¬s.HeldElsewhere h.disk id r.canonicalName holder m) (hsame : h' = h) :
      ((¬∃ holder m, s.HeldElsewhere h.disk id r.canonicalName holder m) → h' = h) ∧
        ∀ holder m, s.HeldElsewhere h.disk id r.canonicalName holder m →
          s.saveMetadata (m.without r.canonicalName) h = (.ok (), h') :=
    ⟨fun _ => hsame, fun holder m hholder => absurd hholder (hheld holder m)⟩
  cases hholder : (s.indexOrEmpty h.disk).tags.get? r.canonicalName with
  | none =>
    rw [hholder] at htag
    refine hnothing (fun holder m hheld => ?_) (named_failed he htag)
    rw [hheld.held] at hholder
    cases hholder
  | some holder =>
    rw [hholder] at htag
    dsimp only at htag
    by_cases hne : holder ≠ id
    · rw [if_pos hne] at htag
      rcases releaseName_cases s h holder r.canonicalName with ⟨hrelease, hunknown⟩ | ⟨m, hm, hrelease⟩
      · rw [Act.bind_of_ok hrelease] at htag
        refine hnothing (fun holder' m hheld => ?_) (named_failed he htag)
        obtain rfl := Option.some.inj (hheld.held.symm.trans hholder)
        exact hunknown m hheld.known
      · rw [Act.bind_apply, hrelease] at htag
        rcases hsaved : s.saveMetadata (m.without r.canonicalName) h with ⟨_ | _, h₁⟩
        · rw [hsaved] at htag
          cases htag
          obtain ⟨why, rfl⟩ := onlyRefused_saveMetadata s _ _ _ _ hsaved
          exact absurd rfl (he why)
        · rw [hsaved] at htag
          obtain rfl := named_failed he htag
          refine ⟨fun hnone => absurd ⟨holder, m, hholder, hne, hm⟩ hnone, fun holder' m' hheld => ?_⟩
          obtain rfl := Option.some.inj (hheld.held.symm.trans hholder)
          obtain rfl := Except.ok.inj (hheld.known.symm.trans hm)
          exact hsaved
    · rw [if_neg hne] at htag
      refine hnothing (fun holder' m hheld => ?_) (named_failed he htag)
      obtain rfl := Option.some.inj (hheld.held.symm.trans hholder)
      exact hne hheld.ne

/-! ### Runs -/

/-- The ids of images are names that a folder can have. -/
def Call.Named : Call → Prop
  | add id .. => Disk.IsFileName id
  | tag id _ => IsName id
  | untag _ => True

/-- A call ends with `r`, and makes `g` of the contents `f`. -/
def Call.Makes (f : Contents) : Call → Except Error Unit → Contents → Prop
  | add id names digest layers size, r, g => ∃ now, (r, g) = f.add id names digest layers size now
  | tag id k, r, g => (r, g) = f.tag id k.canonicalName
  | untag k, r, g => (r, g) = f.untag k.canonicalName

theorem turns_call {f : Contents} {c : Call} (hf : f.Sound) (hnamed : c.Named) : Turns s f (c.run s) (c.Makes f) := by
  cases c with
  | add id names digest layers size => exact turns_add hf hnamed names digest layers size
  | tag id r => exact turns_tag hf hnamed r
  | untag r => exact turns_untag hf r

/-- What storing, giving a name and taking one away leave true is true after every call. -/
theorem Call.Makes.leaves {f g : Contents} {c : Call} {result : Except Error Unit} {P : Contents → Prop}
    (h : c.Makes f result g) (hnamed : c.Named)
    (hadd : ∀ id names digest layers size now, IsName id → P (f.add id names digest layers size now).2)
    (htag : ∀ id name, IsName id → P (f.tag id name).2) (huntag : ∀ name, P (f.untag name).2) : P g := by
  cases c with
  | add id names digest layers size =>
    obtain ⟨now, hresult⟩ := h
    obtain rfl := congrArg Prod.snd hresult
    exact hadd id names digest layers size now hnamed.toIsName
  | tag id r =>
    obtain rfl := congrArg Prod.snd h
    exact htag id r.canonicalName hnamed
  | untag r =>
    obtain rfl := congrArg Prod.snd h
    exact huntag r.canonicalName

/-- Calls one after the other, for any images and references, whatever they end with but a refusal of the disk. -/
inductive Called (s : Store) (start : Host) : Host → Prop
  | start : Called s start start
  | call {h : Host} (c : Call) (hcalled : Called s start h) (hnamed : c.Named)
      (hwrites : ∀ why, (c.run s h).1 ≠ .error (.disk why)) : Called s start (c.run s h).2

namespace Contents
variable {f : Contents}

theorem Sound.untag (hf : f.Sound) (name : String) : (f.untag name).2.Sound := by
  unfold Contents.untag
  split
  · exact hf
  · split
    · exact hf
    · refine (hf.release _ name).setIndex fun k id hid => ?_
      rw [Dictionary.get?_erase] at hid
      split at hid
      · cases hid
      · exact hf.holders k id hid

theorem Sound.tagAll (hf : f.Sound) (hid : IsName id) (names : List String) : (f.tagAll id names).2.Sound :=
  tagAll_induction (P := Sound) (fun _ name hg => hg.tag hid name) hf names

theorem Sound.add (hf : f.Sound) (hid : IsName id) (names : List String) (digest : Option String) (layers : List String)
    (size : UInt64) (now : Instant) : (f.add id names digest layers size now).2.Sound := by
  unfold Contents.add
  split
  · exact hf.setMetadata
  · exact (hf.filed _ _).tagAll hid names

end Contents

/-- What is known of images bears their ids after every run. -/
theorem Called.sound (hempty : s.IsEmpty start.disk) (hcalled : s.Called start h) : ∃ f, s.Shows h.disk f ∧ f.Sound := by
  induction hcalled with
  | start => exact ⟨_, hempty.shows, agree_none.sound⟩
  | @call h c _ hnamed hwrites ih =>
    obtain ⟨f, hshows, hf⟩ := ih
    obtain ⟨g, hg, hmakes⟩ := (turns_call hf hnamed).unrefused hshows hwrites
    exact ⟨g, hg, hmakes.leaves hnamed (fun _ names digest layers size now hid => hf.add hid names digest layers size now)
      (fun _ name hid => hf.tag hid name) hf.untag⟩

/-! ### What is left -/

section Rewriting
variable {d d' : Disk} {p : Place}

theorem index_rewritten (hrewrites : Disk.Rewrites p d d') (hne : d.placeOf s.indexFile ≠ p) : s.index d' = s.index d := by
  unfold Store.index Disk.readText
  rw [hrewrites.exists?, hrewrites.read_of_ne hne]

/-- Where a file other than the index gets another content, every text denotes what it denoted. -/
theorem find_rewritten (hrewrites : Disk.Rewrites p d d') (hne : d.placeOf s.indexFile ≠ p) (text : String) :
    s.find d' text = s.find d text := by
  have hbyId : s.findById d' text = s.findById d text := by simp only [findById, hrewrites.exists?]
  unfold Store.find resolve
  rw [index_rewritten hrewrites hne, hbyId]

end Rewriting

/-- When what is known of an image is written again, nothing else is known differently. -/
theorem saveMetadata_again {f : Contents} {n : Metadata} (hshows : s.Shows h.disk f) (hname : IsName n.id)
    (hknown : s.metadata h.disk n.id = .ok m) (hsave : s.saveMetadata n h = (.ok (), h')) :
    Disk.Rewrites (h.disk.placeOf (s.metadataFile n.id)) h.disk h'.disk ∧
      ∀ i, IsName i → s.metadata h'.disk i = if i = n.id then .ok n else s.metadata h.disk i := by
  have hwrite := Host.write_ok hsave
  obtain ⟨c, hread, -⟩ := metadata_ok_iff.mp hknown
  refine ⟨Disk.rewrites_of_write hwrite (Disk.read_ok_iff.mp hread).2.2, fun i hi => ?_⟩
  have hshows' : s.Shows h'.disk (f.setMetadata n) := hshows.write (i := .metadata n.id) hname hwrite
  rw [hshows'.metadata hi, hshows.metadata hi, Contents.metadata_setMetadata]

/-- What is left when a name was taken from its holder and then not given: the index as it was, and the list of the
    holder without the name. -/
theorem Called.released {start : Host} {name : String} (hcalled : s.Called start h) (hempty : s.IsEmpty start.disk)
    (hheld : s.HeldElsewhere h.disk id name holder m) (hsave : s.saveMetadata (m.without name) h = (.ok (), h')) :
    h'.disk.read s.indexFile = h.disk.read s.indexFile ∧ (∀ text, s.find h'.disk text = s.find h.disk text) ∧
      (∀ i, IsName i → i ≠ holder → s.metadata h'.disk i = s.metadata h.disk i) ∧
      s.metadata h'.disk holder = .ok (m.without name) := by
  obtain ⟨f, hshows, hf⟩ := hcalled.sound hempty
  have hname : IsName holder := hf.holders name holder (hshows.indexOrEmpty ▸ hheld.held)
  obtain rfl : m.id = holder := hf.named holder m hname (hshows.metadata hname ▸ hheld.known)
  obtain ⟨hrewrites, hmetadata⟩ := saveMetadata_again (n := m.without name) hshows hname hheld.known hsave
  have hne := placeOf_indexFile_ne s h.disk m.id
  refine ⟨hrewrites.read_of_ne hne, find_rewritten hrewrites hne, fun i hi hother => ?_, ?_⟩
  · rw [hmetadata i hi]
    exact if_neg hother
  · rw [hmetadata m.id hname]
    exact if_pos rfl

/-! ### A name that is held -/

/-- A name that nobody holds is put on the list of the image, and in the index. -/
theorem Contents.tag_unheld {f : Contents} {name : String} (hnone : f.index.tags.get? name = none)
    (hm : f.metadata m.id = .ok m) : f.tag m.id name =
      (.ok (), (f.claim m name).setIndex { f.index with tags := f.index.tags.insert name m.id }) := by
  have hvacate : f.vacate m.id name = f := by
    unfold Contents.vacate
    rw [hnone]
  unfold Contents.tag
  rw [hvacate, hm]

/-- The first image that is stored has the name it is stored with, and no other is known. -/
theorem Contents.add_first {text short : String} (hshort : indexedId? id = some short) (hparse : Reference.parse text = .ok r)
    (digest : Option String) (layers : List String) (size : UInt64) (now : Instant) :
    let g := (Contents.add (fun _ => none) id [text] digest layers size now).2
    g.index.tags.get? r.canonicalName = some id ∧ (∃ m, g.metadata id = .ok m ∧ m.repoTags = [r.canonicalName]) ∧
      ∀ i, i ≠ id → g.metadata i = .error (.imageNotFound i) := by
  let m : Metadata := ⟨id, [], digest, now, size, layers⟩
  let f : Contents := Contents.filed (fun _ => none) m short
  have hm : f.metadata m.id = .ok m := Contents.metadata_filed_self
  have hnone : f.index.tags.get? r.canonicalName = none := by
    rw [show f.index = _ from Contents.index_filed]
    rfl
  have hadd : Contents.add (fun _ => none) id [text] digest layers size now = (.ok (), (f.claim m r.canonicalName).setIndex
      { f.index with tags := f.index.tags.insert r.canonicalName id }) := by
    rw [← Contents.tag_unheld hnone hm]
    unfold Contents.add
    rw [hshort]
    show Contents.tagAll f id [text] = f.tag id r.canonicalName
    simp only [Contents.tagAll, hparse]
    rcases f.tag id r.canonicalName with ⟨_ | _, _⟩ <;> rfl
  have hclaim : f.claim m r.canonicalName = f.setMetadata { m with repoTags := [r.canonicalName] } := if_neg List.not_mem_nil
  rw [hadd, hclaim]
  refine ⟨?_, ⟨{ m with repoTags := [r.canonicalName] }, ?_, rfl⟩, fun i hi => ?_⟩
  · rw [Contents.index_setIndex, Dictionary.get?_insert, if_pos rfl]
  · rw [Contents.metadata_setIndex, Contents.metadata_setMetadata, if_pos rfl]
  · rw [Contents.metadata_setIndex, Contents.metadata_setMetadata, if_neg hi]
    exact Contents.metadata_filed.trans (if_neg hi)

/-- In a fresh store an image gets a name, and then the name is given to an image that is not there. -/
theorem Fresh.tag_stranger {start : Host} {other text : String} (hfresh : s.Fresh start) (hid : IsImageId id)
    (hother : IsName other) (hne : other ≠ id) (hparse : Reference.parse text = .ok r) {digest : Option String}
    {layers : List String} {size : UInt64} (hadd : h = (s.add id [text] digest layers size start).2) :
    s.Called start h ∧ ∃ m h', s.HeldElsewhere h.disk other r.canonicalName id m ∧ m.repoTags = [r.canonicalName] ∧
      s.tag other r h = (.error (.imageNotFound other), h') := by
  subst hadd
  obtain ⟨g, hready, hshows, now, hresult⟩ :=
    (turns_add agree_none.sound hid.isFileName [text] digest layers size).goes start hfresh.ready hfresh.isEmpty.shows
  obtain ⟨hholder, ⟨m, hm, htags⟩, hunknown⟩ := Contents.add_first hid.indexedId? hparse digest layers size now
  have hsound := agree_none.sound.add hid.isName [text] digest layers size now
  rw [← hresult] at hholder hm hunknown hsound
  dsimp only at hholder hm hunknown hsound
  refine ⟨.call (.add id [text] digest layers size) .start hid.isFileName fun why hwhy => ?_, m,
    (s.tag other r (s.add id [text] digest layers size start).2).2,
    ⟨hshows.indexOrEmpty ▸ hholder, hne.symm, (hshows.metadata hid.isName).trans hm⟩, htags, ?_⟩
  · exact Contents.add_ne_disk _ _ _ _ _ _ now why ((congrArg Prod.fst hresult).symm.trans hwhy)
  · obtain ⟨g', -, -, hresult'⟩ := (turns_tag hsound hother r).goes _ hready hshows
    have hvacate : g.vacate other r.canonicalName = g.setMetadata (m.without r.canonicalName) := by
      unfold Contents.vacate Contents.release
      rw [hholder]
      dsimp only
      rw [if_pos hne.symm, hm]
      rfl
    obtain rfl : m.id = id := hsound.named id m hid.isName hm
    -- The holder has lost the name by the time it is found that `other` is unknown.
    have hmissing : (g.setMetadata (m.without r.canonicalName)).metadata other = .error (.imageNotFound other) := by
      rw [Contents.metadata_setMetadata]
      exact (if_neg hne).trans (hunknown other hne)
    refine Prod.ext ((congrArg Prod.fst hresult').trans ?_) rfl
    show (g.tag other r.canonicalName).1 = _
    unfold Contents.tag
    rw [hvacate, hmissing]

/-- A name that cannot be taken away changes nothing, and no more does one that cannot be given, unless the index has it
    for another image that is there: this one has it off its list then, and that is all that changes. -/
theorem unchanged_of_failed (he : ∀ why, e ≠ .disk why) :
    (∀ r, s.untag r h = (.error e, h') → h' = h) ∧ ∀ id r, s.tag id r h = (.error e, h') →
      ((¬∃ holder m, s.HeldElsewhere h.disk id r.canonicalName holder m) → h' = h) ∧
      ∀ start holder m, s.IsEmpty start.disk → s.Called start h → s.HeldElsewhere h.disk id r.canonicalName holder m →
        h'.disk.read s.indexFile = h.disk.read s.indexFile ∧ (∀ text, s.find h'.disk text = s.find h.disk text) ∧
          (∀ i, IsName i → i ≠ holder → s.metadata h'.disk i = s.metadata h.disk i) ∧
          s.metadata h'.disk holder = .ok (m.without r.canonicalName) := by
  refine ⟨fun r huntag => untag_failed he huntag, fun id r htag => ?_⟩
  obtain ⟨hsame, hreleased⟩ := tag_failed he htag
  exact ⟨hsame, fun start holder m hempty hcalled hheld => hcalled.released hempty hheld (hreleased holder m hheld)⟩

/-- A store in which the first image was stored with a name. -/
def namedAt (s : Store) : Host := (s.add (Digest.hexOf []) ["app:v1"] none [] 0 s.madeAt).2

/-- The name, as it is read. -/
def nameAt : Reference := ⟨"docker.io", "library/app", some "v1", none⟩

/-- The id of an image that is not there. -/
def strangerId : String := "0000000000000000000000000000000000000000000000000000000000000000"

theorem stranger_namedAt : Called ⟨"/depot"⟩ (madeAt ⟨"/depot"⟩) (namedAt ⟨"/depot"⟩) ∧
    ∃ m h', HeldElsewhere ⟨"/depot"⟩ (namedAt ⟨"/depot"⟩).disk strangerId nameAt.canonicalName (Digest.hexOf []) m ∧
      m.repoTags = [nameAt.canonicalName] ∧
      Store.tag ⟨"/depot"⟩ strangerId nameAt (namedAt ⟨"/depot"⟩) = (.error (.imageNotFound strangerId), h') :=
  fresh_madeAt.tag_stranger (isImageId_hexOf []) (by decide +kernel) (by decide +kernel)
    (by rfl : Reference.parse "app:v1" = _) (by rw [namedAt])

/-- An image that has lost a name from its list, since the name was given to an image that is not there, has it in the
    index as before. -/
theorem unchanged_of_failed_stranger : ∃ m h', IsEmpty ⟨"/depot"⟩ (madeAt ⟨"/depot"⟩).disk ∧
    Called ⟨"/depot"⟩ (madeAt ⟨"/depot"⟩) (namedAt ⟨"/depot"⟩) ∧
    Store.tag ⟨"/depot"⟩ strangerId nameAt (namedAt ⟨"/depot"⟩) = (.error (.imageNotFound strangerId), h') ∧
    HeldElsewhere ⟨"/depot"⟩ (namedAt ⟨"/depot"⟩).disk strangerId nameAt.canonicalName (Digest.hexOf []) m ∧
    h'.disk.read (indexFile ⟨"/depot"⟩) = (namedAt ⟨"/depot"⟩).disk.read (indexFile ⟨"/depot"⟩) ∧
    Store.metadata ⟨"/depot"⟩ h'.disk (Digest.hexOf []) = .ok (m.without nameAt.canonicalName) := by
  obtain ⟨hcalled, m, h', hheld, -, htag⟩ := stranger_namedAt
  obtain ⟨-, hreleased⟩ := (unchanged_of_failed (s := ⟨"/depot"⟩) (e := .imageNotFound strangerId) fun _ he => Error.noConfusion he).2 strangerId nameAt htag
  obtain ⟨hindex, -, -, hholder⟩ := hreleased _ _ m fresh_madeAt.isEmpty hcalled hheld
  exact ⟨m, h', fresh_madeAt.isEmpty, hcalled, htag, hheld, hindex, hholder⟩

/-- Giving a name fails, and its holder lists it no more. -/
theorem tag_failed_unlisted : ∃ h', IsEmpty ⟨"/depot"⟩ (madeAt ⟨"/depot"⟩).disk ∧
    Called ⟨"/depot"⟩ (madeAt ⟨"/depot"⟩) (namedAt ⟨"/depot"⟩) ∧
    Store.tag ⟨"/depot"⟩ strangerId nameAt (namedAt ⟨"/depot"⟩) = (.error (.imageNotFound strangerId), h') ∧
    (∃ m, Store.metadata ⟨"/depot"⟩ (namedAt ⟨"/depot"⟩).disk (Digest.hexOf []) = .ok m ∧
      "docker.io/library/app:v1" ∈ m.repoTags) ∧
    ∃ m, Store.metadata ⟨"/depot"⟩ h'.disk (Digest.hexOf []) = .ok m ∧ "docker.io/library/app:v1" ∉ m.repoTags := by
  obtain ⟨hcalled, m, h', hheld, htags, htag⟩ := stranger_namedAt
  obtain ⟨-, hreleased⟩ := tag_failed (e := .imageNotFound strangerId) (fun _ he => Error.noConfusion he) htag
  obtain ⟨-, -, -, hholder⟩ := hcalled.released fresh_madeAt.isEmpty hheld (hreleased _ m hheld)
  refine ⟨h', fresh_madeAt.isEmpty, hcalled, htag, ⟨m, hheld.known, ?_⟩, _, hholder, ?_⟩
  · rw [htags]
    exact List.mem_singleton_self _
  · exact fun hmem => of_decide_eq_true (List.mem_filter.mp hmem).2 rfl

end Store
end Depot
