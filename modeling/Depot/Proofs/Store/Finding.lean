import Depot.Proofs.Reference.Readings
import Depot.Proofs.Store.Filing
import Depot.Proofs.Store.Names
import Depot.Store.Lookup

/-! Images are found by the texts that they were named by. The index has canonical names only, so a text is either one
    of them or is completed to one, and both times this is the name that was given. A text that spells the default
    registry before a single component is the exception: the name that is given is that of an official image, but the
    text is looked up as it stands. -/

namespace Depot.Store

/-! ### What is known of images -/

section Files
variable {s : Store} {d d' : Disk} {m : Metadata} {id : String}

/-- What is known of an image is known still when a file elsewhere has changed. -/
theorem metadata_kept {P : Place → Prop} (hkept : Disk.Kept P d d') (hP : ¬P (d.placeOf (s.metadataFile id)))
    (hm : s.metadata d id = .ok m) : s.metadata d' id = .ok m := by
  obtain ⟨c, hread, hparse⟩ := metadata_ok_iff.mp hm
  exact metadata_ok_iff.mpr ⟨c, hkept.read hP hread, hparse⟩

/-- Something is known of an image still when what is known of one is written, be it the same or not. -/
theorem metadata_written {n : Metadata} (hm : s.metadata d id = .ok m)
    (hwrite : d.write (s.metadataFile n.id) (Bytes.ofText (Document.pretty n)) = .ok d') :
    ∃ m', s.metadata d' id = .ok m' := by
  obtain ⟨hkept, hwritten⟩ := Disk.write_ok hwrite
  -- Two ids may lead to one place, so it is the places that are compared.
  by_cases hplace : d.placeOf (s.metadataFile id) = d.placeOf (s.metadataFile n.id)
  · obtain ⟨c, hread, -⟩ := metadata_ok_iff.mp hm
    obtain ⟨hreaches, hbare, -⟩ := Disk.read_ok_iff.mp hread
    obtain ⟨-, -, hnode⟩ := Disk.read_ok_iff.mp hwritten
    have hread' : d'.read (s.metadataFile id) = .ok (Bytes.ofText (Document.pretty n)) := by
      refine Disk.read_ok_iff.mpr ⟨hkept.reaches hreaches, hbare, ?_⟩
      rwa [hkept.placeOf, hplace, ← hkept.placeOf]
    exact ⟨n, metadata_ok_iff.mpr ⟨_, hread', Document.parse?_text?_pretty n⟩⟩
  · exact ⟨m, metadata_kept hkept hplace hm⟩

end Files

section Finding
variable {s : Store} {start h h' : Host} {r : Reference} {text id : String}

/-! ### Naming -/

theorem saveIndex_ok {i : Index} {m : Metadata} (hm : s.metadata h.disk id = .ok m)
    (hok : s.saveIndex i h = (.ok (), h')) : s.metadata h'.disk id = .ok m ∧ s.index h'.disk = .ok i := by
  obtain ⟨hkept, hread⟩ := Disk.write_ok (Host.write_ok hok)
  exact ⟨metadata_kept hkept (placeOf_indexFile_ne s h.disk id).symm hm, index_of_read hread⟩

theorem claimName_ok {m : Metadata} {name : String} (hm : s.metadata h.disk id = .ok m)
    (hok : s.claimName m name h = (.ok (), h')) : ∃ m', s.metadata h'.disk id = .ok m' := by
  unfold claimName at hok
  split at hok
  · cases hok
    exact ⟨m, hm⟩
  · exact metadata_written hm (Host.write_ok hok)

/-- The end of naming an image, if it succeeds: the image is known still, and the index is the one that was written. -/
theorem named_ok {i : Index} {name : String} (hok : (Act.state >>= fun h => Act.ofExcept (s.metadata h.disk id) >>= fun m =>
    s.claimName m name >>= fun _ => s.saveIndex i) h = (.ok (), h')) :
    (∃ m, s.metadata h'.disk id = .ok m) ∧ s.index h'.disk = .ok i := by
  rw [Act.bind_of_ok (x := Act.state) (s := h) rfl] at hok
  cases hm : s.metadata h.disk id with
  | error e =>
    rw [hm] at hok
    cases hok
  | ok m =>
    rw [hm, Act.ofExcept_ok_bind] at hok
    obtain ⟨_, h₁, hclaim, hsave⟩ := Act.bind_eq_ok.mp hok
    obtain ⟨m', hm'⟩ := claimName_ok hm hclaim
    obtain ⟨hknown, hindex⟩ := saveIndex_ok hm' hsave
    exact ⟨⟨m', hknown⟩, hindex⟩

theorem tag_ok (htag : s.tag id r h = (.ok (), h')) : (∃ m, s.metadata h'.disk id = .ok m) ∧
    s.index h'.disk = .ok { s.indexOrEmpty h.disk with
      tags := (s.indexOrEmpty h.disk).tags.insert r.canonicalName id } := by
  unfold Store.tag at htag
  rw [Act.bind_of_ok (x := Act.state) (s := h) rfl] at htag
  dsimp only at htag ⊢
  cases hholder : (s.indexOrEmpty h.disk).tags.get? r.canonicalName with
  | none =>
    rw [hholder] at htag
    exact named_ok htag
  | some holder =>
    rw [hholder] at htag
    dsimp only at htag
    by_cases hne : holder ≠ id
    · rw [if_pos hne] at htag
      obtain ⟨_, h₀, -, hnamed⟩ := Act.bind_eq_ok.mp htag
      exact named_ok hnamed
    · rw [if_neg hne] at htag
      exact named_ok htag

/-! ### Finding -/

/-- A text that is read as a reference and is itself a name in the index is the canonical name of the reference. -/
theorem eq_canonicalName {i : Index} {holder : String} (hi : i.Canonical) (hparse : Reference.parse text = .ok r)
    (hholder : i.tags.get? text = some holder) : text = r.canonicalName := by
  obtain ⟨r₀, hr₀, rfl⟩ := hi text holder hholder
  exact (hr₀.canonicalName_of_parse hparse).symm

theorem findInIndex_insert {i : Index} (hi : i.Canonical) (id : String) (hparse : Reference.parse text = .ok r)
    (hbare : ∀ rest, text.toList = defaultRegistry.toList ++ '/' :: rest → '/' ∈ rest) :
    findInIndex { i with tags := i.tags.insert r.canonicalName id } text = some (id, r.canonicalName) := by
  have hname : canonicalName? text = some r.canonicalName := by
    unfold canonicalName?
    rw [Reference.takeApart_of_parse hparse hbare]
  unfold findInIndex
  rw [Dictionary.get?_insert]
  by_cases htext : text = r.canonicalName
  · rw [if_pos htext, htext]
  · rw [if_neg htext]
    -- A text that is no canonical name is not in the index itself, but its canonical name has just come in.
    cases hholder : i.tags.get? text with
    | some holder => exact absurd (eq_canonicalName hi hparse hholder) htext
    | none =>
      dsimp only
      rw [hname, Option.bind_some, Dictionary.get?_insert, if_pos rfl]
      rfl

/-- An image is found by every text that it was named by, under its canonical name, unless the text spells the default
    registry before a single component. -/
theorem find_of_tag (hempty : s.IsEmpty start.disk) (hfollows : s.Follows start h) (hparse : Reference.parse text = .ok r)
    (hbare : ∀ rest, text.toList = defaultRegistry.toList ++ '/' :: rest → '/' ∈ rest)
    (htag : s.tag id r h = (.ok (), h')) :
    s.find h'.disk text = some id ∧ ∃ m, s.metadata h'.disk id = .ok m ∧
      s.lookup h'.disk text = .ok (⟨m, s⟩, r.canonicalName) := by
  obtain ⟨⟨m, hm⟩, hindex⟩ := tag_ok htag
  have hfound := findInIndex_insert (hfollows.canonical hempty.canonical).indexOrEmpty id hparse hbare
  have hresolve : s.resolve h'.disk text = some (id, r.canonicalName) := by
    unfold resolve
    rw [hindex]
    dsimp only
    rw [hfound]
  refine ⟨?_, m, hm, ?_⟩
  · rw [find, hresolve]
    rfl
  · unfold lookup
    rw [hresolve]
    dsimp only
    rw [hm]

/-! ### The default registry before a single component -/

theorem get?_tags_bare {i : Index} (hi : i.Canonical) {rest : List Char} (hrest : '/' ∉ rest)
    (hbare : text.toList = defaultRegistry.toList ++ '/' :: rest) : i.tags.get? text = none := by
  cases hholder : i.tags.get? text with
  | none => rfl
  | some holder =>
    obtain ⟨r, hr, rfl⟩ := hi text holder hholder
    exact absurd (hr.slash_mem_canonicalName hbare) hrest

/-- A text that spells the default registry before a single component is looked up under no name. -/
theorem findInIndex_bare {i : Index} (hi : i.Canonical) (hparse : Reference.parse text = .ok r) {rest : List Char}
    (hbare : text.toList = defaultRegistry.toList ++ '/' :: rest) (hrest : '/' ∉ rest)
    (hshort : i.shortIds.get? text = none) (hid : text ∉ i.shortIds.values) : findInIndex i text = none := by
  obtain ⟨word, hword, hregistry, -, htake⟩ := Reference.takeApart_of_bare hparse hbare hrest
  have htag : '/' ∉ r.effectiveTag.toList := by
    have hgrammatical := Reference.isGrammatical_of_parse hparse
    exact mt ((hgrammatical.withTag.tag _ rfl).chars '/') (by decide)
  have hname : canonicalName? text = some (Reference.canonicalName { r with repository := word }) := by
    unfold canonicalName?
    rw [htake]
  have hnone : i.tags.get? (Reference.canonicalName { r with repository := word }) = none := by
    have hback : '/' ∉ word.toList ++ ':' :: r.effectiveTag.toList := by simp [hword, htag]
    refine get?_tags_bare hi hback ?_
    simp [Reference.canonicalName, Reference.name, hregistry, Reference.effectiveTag]
  unfold findInIndex
  rw [get?_tags_bare hi hrest hbare, hname, Option.bind_some, hnone, hshort]
  exact if_neg hid

theorem findById_bare {d : Disk} {rest : List Char} (hbare : text.toList = defaultRegistry.toList ++ '/' :: rest) :
    s.findById d text = none := by
  have hid : bareId text = text := by
    unfold bareId Digest.encoded
    rw [hbare]
    rfl
  have hslash : '/' ∈ text.toList := by simp [hbare]
  unfold findById
  rw [hid]
  exact if_neg fun h => h.2.1 hslash

/-- The first image that is stored in a fresh store is there, without a name. -/
theorem Fresh.shows_add {short : String} (hfresh : s.Fresh start) (hid : Disk.IsFileName id) (hshort : indexedId? id = some short)
    (digest : Option String) (layers : List String) (size : UInt64) : ∃ now, (s.add id [] digest layers size start).1 = .ok () ∧
      s.Ready (s.add id [] digest layers size start).2 ∧ s.Shows (s.add id [] digest layers size start).2.disk
        (Contents.filed (fun _ => none) (Contents.described (fun _ => none) id digest layers size now) short) := by
  obtain ⟨f, hready, hshows, now, hresult⟩ := (turns_add agree_none.sound hid [] digest layers size).goes start
    hfresh.ready hfresh.isEmpty.shows
  unfold Contents.add at hresult
  rw [hshort] at hresult
  obtain ⟨hok, rfl⟩ := Prod.mk.inj hresult
  exact ⟨now, hok, hready, hshows⟩

/-- In a fresh store the first image that is stored can be named, and then the index has that name and its short id. -/
theorem Fresh.index_tag (hfresh : s.Fresh start) (hid : IsImageId id) (digest : Option String) (layers : List String)
    (size : UInt64) (r : Reference) : ∃ h' short, indexedId? id = some short ∧
      s.tag id r (s.add id [] digest layers size start).2 = (.ok (), h') ∧
      s.index h'.disk = .ok ⟨Dictionary.empty.insert r.canonicalName id, Dictionary.empty.insert short id⟩ := by
  obtain ⟨now, -, hready, hshows⟩ := hfresh.shows_add hid.isFileName hid.indexedId? digest layers size
  generalize (s.add id [] digest layers size start).2 = h at hready hshows ⊢
  generalize hm : Contents.described (fun _ => none) id digest layers size now = m at hshows
  generalize hshort : String.ofList (id.toList.take 12) = short at hshows
  have hsound : (Contents.filed (fun _ => none) m short).Sound := hm ▸ agree_none.sound.filed _ short
  have hindex : (Contents.filed (fun _ => none) m short).index = ⟨.empty, Dictionary.empty.insert short id⟩ := by
    rw [← hm]
    exact Contents.index_filed
  have hknown : (Contents.filed (fun _ => none) m short).metadata id = .ok m := by
    rw [← hm]
    exact Contents.metadata_filed_self
  have htagged : (s.tag id r h).1 = .ok () := by
    obtain ⟨g, -, -, hg⟩ := (turns_tag hsound hid.isName r).goes h hready hshows
    have hok := congrArg Prod.fst hg
    unfold Contents.tag Contents.vacate at hok
    rw [hindex, Dictionary.get?_empty] at hok
    dsimp only at hok
    rwa [hknown] at hok
  refine ⟨(s.tag id r h).2, short, hid.indexedId?.trans (congrArg some hshort), Prod.ext htagged rfl, ?_⟩
  rw [(tag_ok (Prod.ext htagged rfl)).2, hshows.indexOrEmpty, hindex]

/-- Whatever text spells the default registry before a single component: an image that is named by it is not found by
    it, though nothing else has happened in the store. -/
theorem find_of_tag_bare (hfresh : s.Fresh start) (hid : IsImageId id) (digest : Option String) (layers : List String)
    (size : UInt64) (hparse : Reference.parse text = .ok r) {rest : List Char}
    (hbare : text.toList = defaultRegistry.toList ++ '/' :: rest) (hrest : '/' ∉ rest) :
    ∃ h', s.tag id r (s.add id [] digest layers size start).2 = (.ok (), h') ∧ s.find h'.disk text = none := by
  obtain ⟨h', short, hshort, htag, hindex⟩ := hfresh.index_tag hid digest layers size r
  have hcanonical : Index.Canonical ⟨Dictionary.empty.insert r.canonicalName id, Dictionary.empty.insert short id⟩ :=
    Index.canonical_empty.insert (Reference.isGrammatical_of_parse hparse) id
  have hslash : '/' ∈ text.toList := by simp [hbare]
  have htext : text ≠ id := by
    rintro rfl
    exact absurd (hid.digits '/' hslash) (by decide)
  have hne : text ≠ short := by
    rintro rfl
    rw [hid.indexedId?] at hshort
    cases hshort
    rw [String.toList_ofList] at hslash
    exact absurd (hid.digits '/' (List.mem_of_mem_take hslash)) (by decide)
  refine ⟨h', htag, ?_⟩
  have hnone := findInIndex_bare hcanonical hparse hbare hrest (by simp [hne])
    fun hmem => htext (List.mem_singleton.mp hmem)
  unfold find resolve
  rw [hindex]
  dsimp only
  rw [hnone]
  dsimp only
  rw [findById_bare hbare]
  rfl

end Finding

/-! ### A store in an empty folder -/

/-- An image that is named with a port and without a tag is found as it was named. -/
theorem find_of_tag_port : let s : Store := ⟨"/depot"⟩
    let h := (s.add (Digest.hexOf []) [] none [] 0 s.madeAt).2
    s.IsEmpty s.madeAt.disk ∧ s.Follows s.madeAt h ∧
      Reference.parse "localhost:5000/app" = .ok ⟨"localhost:5000", "app", none, none⟩ ∧
      ∃ h', s.tag (Digest.hexOf []) ⟨"localhost:5000", "app", none, none⟩ h = (.ok (), h') ∧
        s.find h'.disk "localhost:5000/app" = some (Digest.hexOf []) := by
  intro s h
  have hfollows : s.Follows s.madeAt h := .call (.add (Digest.hexOf []) [] none [] 0) .start trivial
  have hparse : Reference.parse "localhost:5000/app" = .ok ⟨"localhost:5000", "app", none, none⟩ := by rfl
  obtain ⟨h', -, -, htag, -⟩ := fresh_madeAt.index_tag (isImageId_hexOf []) none [] 0 ⟨"localhost:5000", "app", none, none⟩
  have hbare : ∀ rest, "localhost:5000/app".toList = defaultRegistry.toList ++ '/' :: rest → '/' ∈ rest := by
    intro rest hrest
    cases hrest
  obtain ⟨hfind, -⟩ := find_of_tag fresh_madeAt.isEmpty hfollows hparse hbare htag
  exact ⟨fresh_madeAt.isEmpty, hfollows, hparse, h', htag, hfind⟩

/-- An image that is named `docker.io/alpine` is not found by this name. -/
theorem not_find_docker_io_alpine : let s : Store := ⟨"/depot"⟩
    let h := (s.add (Digest.hexOf []) [] none [] 0 s.madeAt).2
    s.Follows s.madeAt h ∧ ∃ r h', Reference.parse "docker.io/alpine" = .ok r ∧ r.name.utf8ByteSize ≤ 255 ∧
      s.tag (Digest.hexOf []) r h = (.ok (), h') ∧ s.find h'.disk "docker.io/alpine" = none := by
  intro s h
  have hfollows : s.Follows s.madeAt h := .call (.add (Digest.hexOf []) [] none [] 0) .start trivial
  have hparse : Reference.parse "docker.io/alpine" = .ok ⟨"docker.io", "library/alpine", none, none⟩ := by rfl
  have hbare : "docker.io/alpine".toList = defaultRegistry.toList ++ '/' :: "alpine".toList := by rfl
  obtain ⟨h', htag, hfind⟩ := find_of_tag_bare fresh_madeAt (isImageId_hexOf []) none [] 0 hparse hbare (by decide)
  exact ⟨hfollows, _, h', hparse, by decide, htag, hfind⟩

end Depot.Store
