import Depot.Listing
import Depot.Proofs.Reference.Canonical
import Mathlib.Data.List.Nodup

/-! Rows of the listing. If names are canonical, what a row shows spells the name that it was made from: the tag of such a
    name has no colon, so the last colon is the one before it, also behind a registry with a port. Then no row is shown
    twice if no image is there twice, and the rows of an image follow its names. -/

namespace Depot

/-! ### Order of instants -/

namespace Instant
variable {as bs cs : List Int}

theorem keyLe_total (as bs : List Int) : keyLe as bs = true ∨ keyLe bs as = true := by
  induction as generalizing bs with
  | nil => simp [keyLe]
  | cons a as ih =>
    cases bs with
    | nil => simp [keyLe]
    | cons b bs =>
      rcases Int.lt_trichotomy a b with h | rfl | h
      · simp [keyLe, h]
      · simpa [keyLe] using ih bs
      · simp [keyLe, h]

theorem keyLe_cons {a b : Int} : keyLe (a :: as) (b :: bs) = true ↔ a < b ∨ a = b ∧ keyLe as bs = true := by
  rcases Int.lt_trichotomy a b with h | rfl | h
  · simp [keyLe, h]
  · simp [keyLe]
  · have hno : ¬a < b := by omega
    have hne : a ≠ b := by omega
    simp [keyLe, h, hno, hne]

theorem keyLe_trans (h : keyLe as bs = true) (h' : keyLe bs cs = true) : keyLe as cs = true := by
  induction as generalizing bs cs with
  | nil => simp [keyLe]
  | cons a as ih =>
    cases bs with
    | nil => simp [keyLe] at h
    | cons b bs =>
      cases cs with
      | nil => simp [keyLe] at h'
      | cons c cs =>
        rw [keyLe_cons] at h h' ⊢
        rcases h with h | ⟨rfl, h⟩
        · rcases h' with h' | ⟨rfl, -⟩
          · exact Or.inl (Int.lt_trans h h')
          · exact Or.inl h
        · exact h'.imp_right (And.imp_right (ih h))

/-- Images in the order of the listing are there from the latest to the oldest. -/
theorem pairwise_latest (images : List Metadata) : (images.mergeSort fun m n => n.created.le m.created).Pairwise
    fun m n => n.created.le m.created = true := by
  refine List.pairwise_mergeSort ?_ ?_ images
  · intro a b c hab hbc
    exact keyLe_trans hbc hab
  · intro a b
    simpa [le] using keyLe_total b.created.key a.created.key

end Instant

/-! ### Rows -/

namespace Listing
variable {r : Reference} {m : Metadata} {images : List Metadata} {k : String}

/-- What a row shows: repository, tag and the id of the image. -/
def Row.shown (row : Row) : String × String × String := (row.repository, row.tag, row.image.id)

/-- The names of the image are canonical. -/
def Canonical (m : Metadata) : Prop := ∀ k ∈ m.repoTags, ∃ r : Reference, r.IsGrammatical ∧ r.canonicalName = k

/-- A name can be told from a spelling of it and of a tag without a colon. -/
theorem parts_of_canonicalName (repository tag : String) (hr : r.IsGrammatical) (htag : ':' ∉ tag.toList)
    (hname : r.canonicalName = repository ++ ":" ++ tag) : r.name = repository ∧ r.effectiveTag = tag := by
  have hcolon : ':' ∉ r.effectiveTag.toList := mt ((hr.withTag.tag _ rfl).chars ':') (by decide)
  have hlists : r.name.toList ++ ':' :: r.effectiveTag.toList = repository.toList ++ ':' :: tag.toList := by
    simpa [Reference.canonicalName] using congrArg String.toList hname
  have hcut := Text.cutLast_append (a := r.name.toList) hcolon
  rw [hlists, Text.cutLast_append htag] at hcut
  obtain ⟨hfront, hback⟩ := Prod.mk.inj (Option.some.inj hcut)
  exact ⟨String.toList_injective hfront.symm, String.toList_injective hback.symm⟩

theorem rowOf_canonicalName (hr : r.IsGrammatical) (m : Metadata) : rowOf m r.canonicalName = ⟨r.name, r.effectiveTag, m⟩ := by
  have hcolon : ':' ∉ r.effectiveTag.toList := mt ((hr.withTag.tag _ rfl).chars ':') (by decide)
  have hname : r.canonicalName.toList = r.name.toList ++ ':' :: r.effectiveTag.toList := by
    simp [Reference.canonicalName]
  unfold rowOf
  rw [hname, Text.cutLast_append hcolon]
  simp

theorem rows_none (images : List Metadata) : rows images none = images.flatMap rowsFor := by
  simp [rows]

/-- A row that is made from a canonical name spells it. -/
theorem spelled_rowOf (hm : Canonical m) (hk : k ∈ m.repoTags) : (rowOf m k).repository ++ ":" ++ (rowOf m k).tag = k := by
  obtain ⟨r, hr, rfl⟩ := hm k hk
  rw [rowOf_canonicalName hr]
  rfl

theorem image_of_mem_rowsFor {row : Row} (h : row ∈ rowsFor m) : row.image = m := by
  unfold rowsFor at h
  split at h
  · simp_all
  · obtain ⟨k, -, rfl⟩ := List.mem_map.mp h
    unfold rowOf
    split <;> rfl

theorem mem_shown_rowsFor {key : String × String × String} : key ∈ (rowsFor m).map Row.shown ↔
    m.repoTags = [] ∧ key = (missing, missing, m.id) ∨ ∃ k ∈ m.repoTags, (rowOf m k).shown = key := by
  unfold rowsFor
  split
  · next hnone => simp [hnone, Row.shown]
  · next hsome => simp [hsome]

theorem nodup_shown_rowsFor (hnodup : m.repoTags.Nodup) (hm : Canonical m) : ((rowsFor m).map Row.shown).Nodup := by
  unfold rowsFor
  split
  · simp
  · rw [List.map_map]
    refine hnodup.map_on fun k hk k' hk' heq => ?_
    simp only [Function.comp_apply, Row.shown, Prod.mk.injEq] at heq
    rw [← spelled_rowOf hm hk, ← spelled_rowOf hm hk', heq.1, heq.2.1]

/-- No row is shown twice if no image and no name of an image is there twice. -/
theorem nodup_shown (hids : (images.map Metadata.id).Nodup) (hnodup : ∀ m ∈ images, m.repoTags.Nodup)
    (hnames : ∀ m ∈ images, Canonical m) : ((rows images none).map Row.shown).Nodup := by
  rw [rows_none, List.map_flatMap, List.nodup_flatMap]
  refine ⟨fun m hm => nodup_shown_rowsFor (hnodup m hm) (hnames m hm), ?_⟩
  refine (List.pairwise_map.mp hids).imp fun {m n} hne key hm hn => ?_
  obtain ⟨row, hrow, rfl⟩ := List.mem_map.mp hm
  obtain ⟨row', hrow', heq⟩ := List.mem_map.mp hn
  have hid : row'.image.id = row.image.id := congrArg (·.2.2) heq
  rw [image_of_mem_rowsFor hrow, image_of_mem_rowsFor hrow'] at hid
  exact hne hid.symm

/-- The rows of an image are one after the other. -/
theorem images_rows (images : List Metadata) :
    (rows images none).map Row.image = images.flatMap fun m => List.replicate (max 1 m.repoTags.length) m := by
  rw [rows_none, List.map_flatMap]
  congr 1
  funext m
  rw [List.eq_replicate_iff]
  constructor
  · unfold rowsFor
    split
    · next hnone => simp [hnone]
    · next hsome =>
      have := List.length_pos_iff.mpr hsome
      simp only [List.length_map]
      omega
  · intro image himage
    obtain ⟨row, hrow, rfl⟩ := List.mem_map.mp himage
    exact image_of_mem_rowsFor hrow

theorem filter_rows (hids : (images.map Metadata.id).Nodup) (hm : m ∈ images) :
    (rows images none).filter (fun row => row.image.id = m.id) = rowsFor m := by
  obtain ⟨front, back, rfl⟩ := List.append_of_mem hm
  rw [List.map_append, List.map_cons, List.nodup_middle, List.nodup_cons, ← List.map_append] at hids
  have hothers (part : List Metadata) (hpart : part ⊆ front ++ back) :
      (part.flatMap rowsFor).filter (fun row => row.image.id = m.id) = [] := by
    rw [List.filter_flatMap, List.flatMap_eq_nil_iff]
    intro n hn
    rw [List.filter_eq_nil_iff]
    intro row hrow
    rw [image_of_mem_rowsFor hrow, decide_eq_true_eq]
    exact fun hid => hids.1 (hid ▸ List.mem_map_of_mem (hpart hn))
  have hown : (rowsFor m).filter (fun row => row.image.id = m.id) = rowsFor m := by
    rw [List.filter_eq_self]
    intro row hrow
    rw [image_of_mem_rowsFor hrow, decide_eq_true_eq]
  rw [rows_none, List.flatMap_append, List.flatMap_cons, List.filter_append, List.filter_append, hown,
    hothers front (List.subset_append_left front back), hothers back (List.subset_append_right front back),
    List.nil_append, List.append_nil]

/-- The rows of an image with names spell its names, in the order in which it has them. -/
theorem spelled_rows (hids : (images.map Metadata.id).Nodup) (hm : m ∈ images) (hsome : m.repoTags ≠ [])
    (hnames : Canonical m) :
    ((rows images none).filter fun row => row.image.id = m.id).map (fun row => row.repository ++ ":" ++ row.tag) =
      m.repoTags := by
  rw [filter_rows hids hm, rowsFor, if_neg hsome, List.map_map]
  exact (List.map_congr_left fun k hk => spelled_rowOf hnames hk).trans (List.map_id _)

/-! ### Images and an index -/

/-- No image is there twice, none has a name twice, and the index has the names that were read of each. -/
structure Catalogue (images : List Metadata) (i : Index) : Prop where
  ids : (images.map Metadata.id).Nodup
  names : ∀ m ∈ images, m.repoTags.Nodup
  read : ∀ k id, i.tags.get? k = some id → ∃ text r, Reference.parse text = .ok r ∧ r.canonicalName = k
  listed : ∀ k id, i.tags.get? k = some id ↔ ∃ m ∈ images, m.id = id ∧ k ∈ m.repoTags

namespace Catalogue
variable {i : Index} {key : String × String × String}

theorem canonical (h : Catalogue images i) (hm : m ∈ images) : Canonical m := by
  intro k hk
  obtain ⟨text, r, hparse, rfl⟩ := h.read k m.id ((h.listed k m.id).mpr ⟨m, hm, rfl, hk⟩)
  exact ⟨r, Reference.isGrammatical_of_parse hparse, rfl⟩

/-- The rows are the names in the index, each with its image, and one for each image without a name. -/
theorem mem_shown_iff (h : Catalogue images i) : key ∈ (rows images none).map Row.shown ↔
    (∃ text r id, Reference.parse text = .ok r ∧ i.tags.get? r.canonicalName = some id ∧
      key = (r.name, r.effectiveTag, id)) ∨ ∃ m ∈ images, m.repoTags = [] ∧ key = (missing, missing, m.id) := by
  rw [rows_none, List.map_flatMap, List.mem_flatMap]
  constructor
  · rintro ⟨m, hm, hkey⟩
    rcases mem_shown_rowsFor.mp hkey with ⟨hnone, rfl⟩ | ⟨k, hk, rfl⟩
    · exact Or.inr ⟨m, hm, hnone, rfl⟩
    · have hindexed := (h.listed k m.id).mpr ⟨m, hm, rfl, hk⟩
      obtain ⟨text, r, hparse, rfl⟩ := h.read k m.id hindexed
      refine Or.inl ⟨text, r, m.id, hparse, hindexed, ?_⟩
      rw [rowOf_canonicalName (Reference.isGrammatical_of_parse hparse)]
      rfl
  · rintro (⟨text, r, id, hparse, hindexed, rfl⟩ | ⟨m, hm, hnone, rfl⟩)
    · obtain ⟨m, hm, rfl, hk⟩ := (h.listed _ _).mp hindexed
      refine ⟨m, hm, mem_shown_rowsFor.mpr (Or.inr ⟨r.canonicalName, hk, ?_⟩)⟩
      rw [rowOf_canonicalName (Reference.isGrammatical_of_parse hparse)]
      rfl
    · exact ⟨m, hm, mem_shown_rowsFor.mpr (Or.inl ⟨hnone, rfl⟩)⟩

end Catalogue
end Listing
end Depot
