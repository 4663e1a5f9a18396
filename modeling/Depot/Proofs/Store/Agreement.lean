import Depot.Proofs.Store.ImageIds
import Depot.Proofs.Store.Operations
import Mathlib.Data.List.Nodup

/-! Index and images agree when a name is under an image in the index exactly if it is on the list of the image, and no
    list has a name twice; so no two images share a name. Storing an image, giving a name and taking one keep this, also
    when they end with an error. -/

namespace Depot.Store

namespace Contents
variable {f : Contents} {id holder name i k : String} {m : Metadata} {x : Index}

/-! ### Lists of names -/

/-- The name is on the list of the image. -/
def Lists (f : Contents) (id name : String) : Prop := ∃ m, f.metadata id = .ok m ∧ name ∈ m.repoTags

/-- What is known of images bears their ids, and no list has a name twice. -/
structure Tidy (f : Contents) : Prop where
  named : ∀ id m, IsName id → f.metadata id = .ok m → m.id = id
  nodup : ∀ id m, IsName id → f.metadata id = .ok m → m.repoTags.Nodup

theorem lists_of_ok (hm : f.metadata id = .ok m) : f.Lists id k ↔ k ∈ m.repoTags :=
  ⟨fun ⟨_, h, hk⟩ => by cases hm.symm.trans h; exact hk, fun hk => ⟨m, hm, hk⟩⟩

theorem not_lists_of_error {e : Error} (hm : f.metadata id = .error e) : ¬f.Lists id k :=
  fun ⟨_, h, _⟩ => nomatch hm.symm.trans h

theorem lists_setIndex : (f.setIndex x).Lists id k ↔ f.Lists id k := by
  unfold Lists
  rw [metadata_setIndex]

theorem lists_setMetadata_self : (f.setMetadata m).Lists m.id k ↔ k ∈ m.repoTags :=
  lists_of_ok (by rw [metadata_setMetadata, if_pos rfl])

theorem lists_setMetadata_of_ne (h : id ≠ m.id) : (f.setMetadata m).Lists id k ↔ f.Lists id k := by
  unfold Lists
  rw [metadata_setMetadata, if_neg h]

theorem Tidy.congr {g : Contents} (h : f.Tidy) (hsame : ∀ id, IsName id → g.metadata id = f.metadata id) : g.Tidy where
  named id m hid hm := h.named id m hid (hsame id hid ▸ hm)
  nodup id m hid hm := h.nodup id m hid (hsame id hid ▸ hm)

theorem Tidy.setIndex (h : f.Tidy) (x : Index) : (f.setIndex x).Tidy := h.congr fun _ _ => metadata_setIndex

theorem Tidy.setMetadata (h : f.Tidy) (hm : m.repoTags.Nodup) : (f.setMetadata m).Tidy := by
  constructor <;> intro id m' hid hm' <;> rw [metadata_setMetadata] at hm' <;> split at hm'
  · next heq => cases hm'; exact heq.symm
  · exact h.named id m' hid hm'
  · cases hm'; exact hm
  · exact h.nodup id m' hid hm'

/-! ### Taking a name off a list -/

theorem Tidy.release (h : f.Tidy) (hid : IsName id) (name : String) : (f.release id name).Tidy := by
  unfold Contents.release
  split
  · exact h
  · next m hm => exact h.setMetadata ((h.nodup id m hid hm).filter _)

theorem metadata_release_of_ne (h : f.Tidy) (hid : IsName id) (hne : i ≠ id) :
    (f.release id name).metadata i = f.metadata i := by
  unfold Contents.release
  split
  · rfl
  · next m hm => rw [metadata_setMetadata, if_neg (h.named id m hid hm ▸ hne)]

theorem lists_release (h : f.Tidy) (hid : IsName id) :
    (f.release id name).Lists i k ↔ f.Lists i k ∧ ¬(i = id ∧ k = name) := by
  by_cases hi : i = id
  · subst hi
    unfold Contents.release
    cases hm : f.metadata i with
    | error e => exact iff_of_false (not_lists_of_error hm) fun h => not_lists_of_error hm h.1
    | ok m =>
      obtain rfl := h.named i m hid hm
      have hlists := lists_setMetadata_self (f := f) (m := { m with repoTags := m.repoTags.filter (· ≠ name) }) (k := k)
      refine hlists.trans ?_
      rw [lists_of_ok hm]
      simp
  · unfold Lists
    rw [metadata_release_of_ne h hid hi]
    simp [hi]

/-! ### Putting a name on a list -/

theorem nodup_concat {list : List String} (h : list.Nodup) (hnew : name ∉ list) : (list ++ [name]).Nodup := by
  rw [← List.concat_eq_append]
  exact .concat hnew h

theorem Tidy.claim (h : f.Tidy) (hid : IsName id) (hm : f.metadata id = .ok m) (name : String) : (f.claim m name).Tidy := by
  unfold Contents.claim
  split
  · exact h
  · next hnew => exact h.setMetadata (nodup_concat (h.nodup id m hid hm) hnew)

theorem metadata_claim (h : f.Tidy) (hid : IsName id) (hm : f.metadata id = .ok m) (name : String) :
    ∃ m', (f.claim m name).metadata id = .ok m' := by
  unfold Contents.claim
  split
  · exact ⟨m, hm⟩
  · exact ⟨_, by rw [metadata_setMetadata, if_pos (h.named id m hid hm).symm]⟩

theorem lists_claim (h : f.Tidy) (hid : IsName id) (hm : f.metadata id = .ok m) :
    (f.claim m name).Lists i k ↔ f.Lists i k ∨ i = id ∧ k = name := by
  unfold Contents.claim
  split
  · next hold =>
    refine ⟨Or.inl, ?_⟩
    rintro (hi | ⟨rfl, rfl⟩)
    · exact hi
    · exact ⟨m, hm, hold⟩
  · obtain rfl := h.named id m hid hm
    by_cases hi : i = m.id
    · subst hi
      have hlists := lists_setMetadata_self (f := f) (m := { m with repoTags := m.repoTags ++ [name] }) (k := k)
      rw [lists_of_ok hm]
      exact hlists.trans (by simp)
    · have hlists := lists_setMetadata_of_ne (f := f) (k := k)
        (m := { m with repoTags := m.repoTags ++ [name] }) hi
      exact hlists.trans (by simp [hi])

/-! ### Taking a name from its holder -/

theorem Tidy.vacate (h : f.Tidy) (hs : f.Sound) (id name : String) : (f.vacate id name).Tidy := by
  rcases vacate_cases f id name with hsame | ⟨holder, hholder, -, hrelease⟩
  · rwa [hsame]
  · rw [hrelease]
    exact h.release (hs.holders _ _ hholder) name

theorem metadata_vacate (h : f.Tidy) (hs : f.Sound) (id name : String) : (f.vacate id name).metadata id = f.metadata id := by
  rcases vacate_cases f id name with hsame | ⟨holder, hholder, hne, hrelease⟩
  · rw [hsame]
  · rw [hrelease]
    exact metadata_release_of_ne h (hs.holders _ _ hholder) (Ne.symm hne)

/-- The name is off the list of the image that the index has for it, if that is another. -/
theorem lists_vacate (h : f.Tidy) (hs : f.Sound) : (f.vacate id name).Lists i k ↔
    f.Lists i k ∧ ¬(k = name ∧ i ≠ id ∧ f.index.tags.get? name = some i) := by
  unfold Contents.vacate
  split
  · next holder hholder =>
    split
    · next hne =>
      rw [lists_release h (hs.holders _ _ hholder)]
      refine and_congr_right fun _ => not_congr ⟨?_, ?_⟩
      · rintro ⟨rfl, rfl⟩
        exact ⟨rfl, hne, hholder⟩
      · rintro ⟨rfl, -, hi⟩
        exact ⟨Option.some.inj (hi.symm.trans hholder), rfl⟩
    · next heq =>
      refine (and_iff_left ?_).symm
      rintro ⟨-, hne, hi⟩
      exact heq (Option.some.inj (hholder.symm.trans hi) ▸ hne)
  · next hnone =>
    refine (and_iff_left ?_).symm
    rintro ⟨-, -, hi⟩
    rw [hnone] at hi
    cases hi

/-! ### Agreement -/

/-- The index has a name under an image exactly when the name is on the list of the image. -/
structure Agree (f : Contents) : Prop extends Tidy f where
  listed : ∀ k id, f.index.tags.get? k = some id ↔ IsName id ∧ f.Lists id k

theorem Agree.sound (h : f.Agree) : f.Sound := ⟨h.named, fun k id hk => ((h.listed k id).mp hk).1⟩

/-- The images that a name is on the list of are the one that the index has for it. -/
theorem Agree.holder_unique (h : f.Agree) (hi : IsName i) (hlists : f.Lists i k) (hk : f.index.tags.get? k = some id) :
    i = id :=
  Option.some.inj (((h.listed k i).mpr ⟨hi, hlists⟩).symm.trans hk)

/-- A name that is taken for an image is on no other list. -/
theorem Agree.lists_vacate (h : f.Agree) (hi : IsName i) :
    (f.vacate id name).Lists i k ↔ f.Lists i k ∧ (k = name → i = id) := by
  rw [Contents.lists_vacate h.toTidy h.sound]
  refine and_congr_right fun hlists => ⟨fun hnot hk => ?_, ?_⟩
  · exact Decidable.not_not.mp fun hne => hnot ⟨hk, hne, (h.listed name i).mpr ⟨hi, hk ▸ hlists⟩⟩
  · rintro himp ⟨hk, hne, -⟩
    exact hne (himp hk)

/-- Naming an image that is known succeeds, and index and images agree again. -/
theorem Agree.tag (h : f.Agree) (hid : IsName id) (hm : f.metadata id = .ok m) (name : String) :
    ∃ g, f.tag id name = (.ok (), g) ∧ g.Agree ∧ ∃ m', g.metadata id = .ok m' := by
  have htidy := h.toTidy.vacate h.sound id name
  have hm' : (f.vacate id name).metadata id = .ok m := (metadata_vacate h.toTidy h.sound id name).trans hm
  have hclaim := htidy.claim hid hm' name
  unfold Contents.tag
  rw [hm']
  refine ⟨_, rfl, ⟨hclaim.setIndex _, fun k i => ?_⟩, ?_⟩
  · rw [index_setIndex, lists_setIndex, Dictionary.get?_insert]
    split
    · next hk =>
      subst hk
      refine ⟨?_, fun ⟨hi, hlists⟩ => ?_⟩
      · rintro ⟨⟩
        exact ⟨hid, (lists_claim htidy hid hm').mpr (Or.inr ⟨rfl, rfl⟩)⟩
      · rcases (lists_claim htidy hid hm').mp hlists with hlists | ⟨rfl, -⟩
        · rw [((h.lists_vacate hi).mp hlists).2 rfl]
        · rfl
    · next hk =>
      rw [h.listed]
      refine and_congr_right fun hi => ?_
      rw [lists_claim htidy hid hm', h.lists_vacate hi]
      simp [hk]
  · obtain ⟨m', hm''⟩ := metadata_claim htidy hid hm' name
    exact ⟨m', by rw [metadata_setIndex, hm'']⟩

theorem Agree.untag (h : f.Agree) (name : String) : (f.untag name).2.Agree := by
  unfold Contents.untag
  split
  · exact h
  · next id hholder =>
    obtain ⟨hid, m, hm, -⟩ := (h.listed name id).mp hholder
    rw [hm]
    refine ⟨(h.toTidy.release hid name).setIndex _, fun k i => ?_⟩
    rw [index_setIndex, lists_setIndex, Dictionary.get?_erase, lists_release h.toTidy hid]
    split
    · next hk =>
      subst hk
      refine iff_of_false (by simp) fun ⟨hi, hlists, hnot⟩ => hnot ⟨h.holder_unique hi hlists hholder, rfl⟩
    · next hk =>
      rw [h.listed]
      simp [hk]

/-- Storing an image changes no list. -/
theorem lists_filed {digest : Option String} {layers : List String} {size : UInt64} {now : Instant} {short : String} :
    (f.filed (f.described id digest layers size now) short).Lists i k ↔ f.Lists i k := by
  unfold Contents.filed
  rw [lists_setIndex]
  by_cases hi : i = id
  · subst hi
    refine lists_setMetadata_self.trans ?_
    show k ∈ ((f.metadata i).toOption.map Metadata.repoTags).getD [] ↔ _
    cases hm : f.metadata i with
    | error e => exact iff_of_false (by simp [Except.toOption]) (not_lists_of_error hm)
    | ok m => exact (lists_of_ok hm).symm
  · exact lists_setMetadata_of_ne hi

theorem Tidy.nodup_described (h : f.Tidy) (hid : IsName id) (digest : Option String) (layers : List String) (size : UInt64)
    (now : Instant) : (f.described id digest layers size now).repoTags.Nodup := by
  show (((f.metadata id).toOption.map Metadata.repoTags).getD []).Nodup
  cases hm : f.metadata id with
  | error e => exact List.nodup_nil
  | ok m => exact h.nodup id m hid hm

theorem Tidy.filed (h : f.Tidy) (hid : IsName id) (digest : Option String) (layers : List String) (size : UInt64)
    (now : Instant) (short : String) : (f.filed (f.described id digest layers size now) short).Tidy :=
  (h.setMetadata (h.nodup_described hid digest layers size now)).setIndex _

theorem Agree.filed (h : f.Agree) (hid : IsName id) (digest : Option String) (layers : List String) (size : UInt64)
    (now : Instant) (short : String) : (f.filed (f.described id digest layers size now) short).Agree := by
  refine ⟨h.toTidy.filed hid digest layers size now short, fun k i => ?_⟩
  rw [index_filed, lists_filed]
  exact h.listed k i

theorem Agree.tagAll (h : f.Agree) (hid : IsName id) (hm : ∃ m, f.metadata id = .ok m) (names : List String) :
    (f.tagAll id names).2.Agree := by
  induction names generalizing f with
  | nil => exact h
  | cons name names ih =>
    obtain ⟨m, hm⟩ := hm
    unfold Contents.tagAll
    split
    · exact h
    · next r _ =>
      obtain ⟨g, hg, hagree, hknown⟩ := h.tag hid hm r.canonicalName
      rw [hg]
      exact ih hagree hknown

theorem Agree.add (h : f.Agree) (hid : IsName id) {short : String} (hshort : indexedId? id = some short)
    (names : List String) (digest : Option String) (layers : List String) (size : UInt64) (now : Instant) :
    (f.add id names digest layers size now).2.Agree := by
  unfold Contents.add
  rw [hshort]
  exact (h.filed hid digest layers size now short).tagAll hid ⟨f.described id digest layers size now, metadata_filed_self⟩ names

/-! ### Indices that were written -/

/-- There is an index, and it was written here. -/
def Indexed (f : Contents) : Prop := ∃ x : Index, f .index = some (Bytes.ofText (Document.pretty x))

theorem indexed_setIndex (f : Contents) (x : Index) : (f.setIndex x).Indexed := ⟨x, put_self ..⟩

theorem Indexed.setMetadata (h : f.Indexed) (m : Metadata) : (f.setMetadata m).Indexed := h

theorem Indexed.vacate (h : f.Indexed) (id name : String) : (f.vacate id name).Indexed := by
  rcases vacate_cases f id name with hsame | ⟨holder, -, -, hrelease⟩
  · rwa [hsame]
  · rw [hrelease]
    unfold Contents.release
    split
    · exact h
    · exact h.setMetadata _

theorem indexed_tag {g : Contents} (h : f.tag id name = (.ok (), g)) : g.Indexed := by
  unfold Contents.tag at h
  split at h <;> cases h
  exact indexed_setIndex _ _

theorem Indexed.tag (h : f.Indexed) (id name : String) : (f.tag id name).2.Indexed := by
  unfold Contents.tag
  split
  · exact h.vacate id name
  · exact indexed_setIndex _ _

theorem Indexed.untag (h : f.Indexed) (name : String) : (f.untag name).2.Indexed := by
  unfold Contents.untag
  split
  · exact h
  · split
    · exact h
    · exact indexed_setIndex _ _

theorem Indexed.tagAll (h : f.Indexed) (id : String) (names : List String) : (f.tagAll id names).2.Indexed :=
  tagAll_induction (P := Indexed) (fun _ name hg => hg.tag id name) h names

theorem indexed_add {short : String} (hshort : indexedId? id = some short) (names : List String) (digest : Option String)
    (layers : List String) (size : UInt64) (now : Instant) : (f.add id names digest layers size now).2.Indexed := by
  unfold Contents.add
  rw [hshort]
  exact Indexed.tagAll (indexed_setIndex _ _) id names

end Contents

theorem agree_none : Contents.Agree fun _ => none where
  named _ _ _ hm := nomatch hm
  nodup _ _ _ hm := nomatch hm
  listed _ _ := iff_of_false (fun h => nomatch h) fun ⟨_, _, hm, _⟩ => nomatch hm

end Depot.Store
