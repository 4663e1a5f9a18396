import Depot.Proofs.Store.Finding
import Depot.Proofs.Store.Steps

/-! Images are found by their ids. Whatever was called, and whatever the disk refused of it: what is found under a text
    is an image that was stored and is still known. A stored image is found by its id, with or without the algorithm,
    and the first twelve digits find the image that was stored last with them, unless a tag has the name that is made
    of them. It does not matter that images share these digits: the index has only the last of them, but an image is
    also found by the file of what is known of it. -/

namespace Depot.Store

/-! ### Texts without a mark -/

section Words
variable {id text word : String}

/-- The name of the official image of a word with the default tag. -/
def officialName (word : String) : String := "docker.io/library/" ++ word ++ ":latest"

theorem canonicalName_official (word : String) :
    Reference.canonicalName ⟨defaultRegistry, officialFolder ++ word, none, none⟩ = officialName word := by
  have hjoined : "docker.io" ++ "/" ++ ("library/" ++ word) ++ ":" ++ "latest" = "docker.io/library/" ++ word ++ ":latest" := by
    apply String.toList_injective
    simp
  exact hjoined

/-- A word that is completed to a name is that of an official image. -/
theorem canonicalName?_word (hblank : ∀ c ∈ word.toList, Text.isBlank c = false) (hne : word.toList ≠ [])
    (hslash : '/' ∉ word.toList) (hcolon : ':' ∉ word.toList) (hat : '@' ∉ word.toList) :
    canonicalName? word = some (officialName word) := by
  have hdigest := Reference.splitDigest_of_notMem hat
  have htag : Reference.splitTag word.toList = (word.toList, none) := Reference.splitTag_nameText hcolon none
  have hregistry : Reference.splitRegistry word.toList = (defaultRegistry.toList, officialFolder.toList ++ word.toList) := by
    unfold Reference.splitRegistry
    rw [Text.cutFirst_eq_none_iff.mpr hslash]
  have htake : Reference.takeApart word = .ok ⟨defaultRegistry, officialFolder ++ word, none, none⟩ := by
    unfold Reference.takeApart
    simp only [Text.trim_of_not_blank hblank, if_neg hne, hdigest, htag, hregistry, String.ofList_append, String.ofList_toList,
      Option.map_none]
  unfold canonicalName?
  rw [htake]
  exact congrArg some (canonicalName_official word)

theorem IsImageId.canonicalName? (hid : IsImageId id) : canonicalName? id = some (officialName id) := by
  have hno (c : Char) (hc : c ∉ "0123456789abcdef".toList) : c ∉ id.toList := mt (hid.digits c) hc
  exact canonicalName?_word hid.not_blank hid.isName.ne_nil (hno '/' (by decide)) (hno ':' (by decide)) (hno '@' (by decide))

theorem IsImageId.digits_short (hid : IsImageId id) (hshort : Store.indexedId? id = some word) :
    word.toList.length = 12 ∧ ∀ c ∈ word.toList, c ∈ "0123456789abcdef".toList := by
  rw [hid.indexedId?] at hshort
  cases hshort
  rw [String.toList_ofList, List.length_take, hid.length]
  exact ⟨rfl, fun c hc => hid.digits c (List.mem_of_mem_take hc)⟩

end Words

/-! ### What is found -/

section Finding
variable {s : Store} {d : Disk} {f : Contents} {id text name : String}

theorem Holds.index (h : s.Holds d f) (hf : f.Regular) : s.index d = .ok f.index := by
  rcases hf.indexed with hnone | ⟨i, hi⟩
  · have hexists := h.exists?_iff (i := .index) trivial
    rw [hnone] at hexists
    rw [index_ok_iff, Contents.index_of_none hnone, show s.indexFile = s.file .index from rfl, hexists]
    exact if_neg Bool.false_ne_true ▸ rfl
  · exact h.shows.index hi

theorem Holds.findById (h : s.Holds d f) (hid : IsImageId id) (hknown : ∃ m, f.metadata id = .ok m) (hbare : bareId text = id) :
    s.findById d text = some (id, text) := by
  have hsome : (f (.metadata id)).isSome := by
    obtain ⟨m, hm⟩ := hknown
    cases hf : f (.metadata id) with
    | some c => rfl
    | none =>
      rw [Contents.metadata_of_none hf] at hm
      cases hm
  unfold Store.findById
  dsimp only
  rw [hbare, if_pos]
  refine ⟨fun hempty => hid.isName.ne_nil (by simp [hempty]), hid.isName.no_slash, ?_⟩
  rw [h.exists?_metadataFile hid.isName, hsome]

theorem Contents.Regular.get?_shortIds (hf : f.Regular)
    (htext : ¬(text.toList.length ≤ 12 ∧ ∀ c ∈ text.toList, c ∈ "0123456789abcdefABCDEF".toList)) :
    f.index.shortIds.get? text = none := by
  cases hk : f.index.shortIds.get? text with
  | none => rfl
  | some id =>
    obtain ⟨hshort, hid, -⟩ := hf.shortIds text id hk
    exact absurd (hid.digits_short hshort) htext

end Finding

/-! ### Short ids -/

section Filing
variable {A : Scope} {f g : Contents} {id k : String}

/-- Only images that may be known are filed under short ids. -/
theorem Change.get?_shortIds (h : Change A f g) (k : String) : g.index.shortIds.get? k = f.index.shortIds.get? k ∨
    ∃ f m, A.known f m ∧ indexedId? m.id = some k ∧ g.index.shortIds.get? k = some m.id := by
  have hput (i : Item) (hi : i ≠ .index) (c : Bytes) : (f.put i c).index = f.index := by
    unfold Contents.index
    rw [Contents.put_of_ne hi.symm]
  cases h with
  | layer => rw [hput _ (by simp)]; exact Or.inl rfl
  | config => rw [hput _ (by simp)]; exact Or.inl rfl
  | describe => rw [Contents.index_setMetadata]; exact Or.inl rfl
  | release => rw [Contents.index_setMetadata]; exact Or.inl rfl
  | claim => rw [Contents.index_setMetadata]; exact Or.inl rfl
  | @file m short hid hm hallowed hshort =>
    rw [Contents.index_setIndex, Dictionary.get?_insert]
    split
    · next heq => exact Or.inr ⟨f, m, hallowed, heq ▸ hshort, rfl⟩
    · exact Or.inl rfl
  | give => rw [Contents.index_setIndex]; exact Or.inl rfl
  | take => rw [Contents.index_setIndex]; exact Or.inl rfl

theorem Steps.get?_shortIds (h : Steps A f g) (k : String) : g.index.shortIds.get? k = f.index.shortIds.get? k ∨
    ∃ f m, A.known f m ∧ indexedId? m.id = some k ∧ g.index.shortIds.get? k = some m.id := by
  induction h with
  | refl => exact Or.inl rfl
  | tail _ hstep ih =>
    rcases hstep.get?_shortIds k with hsame | hfiled
    · rwa [hsame]
    · exact Or.inr hfiled

/-- Only images that may be known come to be known. -/
theorem Change.known_of (h : Change A f g) (hid : ∃ m, g.metadata id = .ok m) :
    (∃ m, f.metadata id = .ok m) ∨ ∃ f m, A.known f m ∧ m.id = id := by
  have hset {n : Metadata} (hid : ∃ m, (f.setMetadata n).metadata id = .ok m) : id = n.id ∨ ∃ m, f.metadata id = .ok m := by
    rw [Contents.metadata_setMetadata] at hid
    split at hid
    · next heq => exact Or.inl heq
    · exact Or.inr hid
  cases h with
  | layer => exact Or.inl hid
  | config => exact Or.inl hid
  | describe id' digest layers size now _ _ hallowed =>
    rcases hset hid with rfl | hid
    · exact Or.inr ⟨f, _, hallowed, rfl⟩
    · exact Or.inl hid
  | @release m _ _ hm =>
    rcases hset hid with rfl | hid
    · exact Or.inl ⟨m, hm⟩
    · exact Or.inl hid
  | @claim m _ _ _ hm =>
    rcases hset hid with rfl | hid
    · exact Or.inl ⟨m, hm⟩
    · exact Or.inl hid
  | file => exact Or.inl hid
  | give => exact Or.inl hid
  | take => exact Or.inl hid

theorem Steps.known_of (h : Steps A f g) (hid : ∃ m, g.metadata id = .ok m) :
    (∃ m, f.metadata id = .ok m) ∨ ∃ f m, A.known f m ∧ m.id = id := by
  induction h with
  | refl => exact Or.inl hid
  | tail _ hstep ih =>
    rcases hstep.known_of hid with hid | hallowed
    · exact ih hid
    · exact Or.inr hallowed

end Filing

/-! ### Runs -/

/-- The image that a call stores. -/
def Call.stored? : Call → Option String
  | add id .. => some id
  | _ => none

/-- The images of a call have hexadecimal ids. Nothing needs to be known of them. -/
def Call.OfImages : Call → Prop
  | add id .. => IsHexId id
  | tag id _ => IsHexId id
  | untag _ => True

/-- Calls that were made, the newest first, with what they ended with. -/
abbrev Past := List (Call × Except Error Unit)

/-- The disk has refused no change of a call, so that the call has ended by itself, well or not. -/
def Unrefused (r : Except Error Unit) : Prop := ∀ e, r ≠ .error (.disk e)

theorem unrefused_ok : Unrefused (.ok ()) := by simp [Unrefused]

namespace Past

/-- A call has been made to store the image. -/
def Tried (past : Past) (id : String) : Prop := ∃ e ∈ past, e.1.stored? = some id

/-- The image has been stored. -/
def Stored (past : Past) (id : String) : Prop := ∃ e ∈ past, e.1.stored? = some id ∧ Unrefused e.2

/-- The image that was stored last among those with a short id, if there is one. A call that the disk has not let come
    to its end may count or not. -/
inductive Latest (short : String) : Past → Option String → Prop
  | none : Latest short [] none
  | stored {e : Call × Except Error Unit} {past : Past} {id : String} (hstored : e.1.stored? = some id)
      (hshort : indexedId? id = some short) : Latest short (e :: past) (some id)
  | passed {e : Call × Except Error Unit} {past : Past} {r : Option String}
      (hpassed : Unrefused e.2 → ∀ id, e.1.stored? = some id → indexedId? id ≠ some short) (hlatest : Latest short past r) :
      Latest short (e :: past) r

end Past

/-- Calls one after the other, whatever they end with. The disk may refuse what it likes. -/
inductive Ran (s : Store) (start : Host) : Past → Host → Prop
  | start : Ran s start [] start
  | call {past : Past} {h : Host} (c : Call) (hran : Ran s start past h) (hids : c.OfImages) :
      Ran s start ((c, (c.run s h).1) :: past) (c.run s h).2

section Runs
variable {s : Store} {start h : Host} {past : Past} {f : Contents} {c : Call}

/-- What the contents have to do with the calls that were made. -/
structure Remembers (f : Contents) (past : Past) : Prop where
  tried : ∀ id, (∃ m, f.metadata id = .ok m) → past.Tried id
  stored : ∀ id, past.Stored id → IsHexId id ∧ ∃ m, f.metadata id = .ok m
  latest : ∀ short, past.Latest short (f.index.shortIds.get? short)

/-- A call makes changes, and of no image but the one that it stores anything comes to be known. -/
theorem moves_call (hf : f.Regular) (hids : c.OfImages) :
    Moves s (.knowing fun _ m => c.stored? = some m.id) f (c.run s) fun _ _ => True := by
  cases c with
  | add id names digest layers size => exact moves_add (fun _ _ _ _ => trivial) hf hids trivial fun now => ⟨rfl, rfl⟩
  | tag id r => exact moves_tag hf hids trivial trivial
  | untag r => exact moves_untag hf trivial

theorem filed_of_unrefused {id short : String} {names : List String} {digest : Option String} {layers : List String}
    {size : UInt64} (hh : s.Holds h.disk f) (hf : f.Regular) (hid : IsHexId id) (hshort : indexedId? id = some short)
    (hunrefused : Unrefused (s.add id names digest layers size h).1) :
    (s.indexOrEmpty (s.add id names digest layers size h).2.disk).shortIds.get? short = some id := by
  obtain ⟨g, hg, now, hresult⟩ := add_unrefused hf.sound hid.isName hh.shows hunrefused
  obtain rfl : g = _ := congrArg Prod.snd hresult
  rw [hg.indexOrEmpty, Contents.shortIds_add hshort, Dictionary.get?_insert, if_pos rfl]

theorem Remembers.call {g : Contents} (hremembers : Remembers f past) (hh : s.Holds h.disk f) (hf : f.Regular)
    (hids : c.OfImages) (hg : s.Holds (c.run s h).2.disk g) (hgf : g.Regular)
    (hsteps : Steps (.knowing fun _ m => c.stored? = some m.id) f g) : Remembers g ((c, (c.run s h).1) :: past) := by
  have hid : ∀ id, c.stored? = some id → IsHexId id := by
    intro id hstored
    cases c with
    | add => cases hstored; exact hids
    | tag => cases hstored
    | untag => cases hstored
  have hfiled : ∀ id short, c.stored? = some id → indexedId? id = some short → Unrefused (c.run s h).1 →
      g.index.shortIds.get? short = some id := by
    intro id short hstored hshort hunrefused
    cases c with
    | add id' names digest layers size =>
      cases hstored
      dsimp only [Call.run] at hg hunrefused
      rw [← hg.shows.indexOrEmpty]
      exact filed_of_unrefused hh hf hids hshort hunrefused
    | tag => cases hstored
    | untag => cases hstored
  refine ⟨fun id hknown => ?_, ?_, fun short => ?_⟩
  · rcases hsteps.known_of hknown with hknown | ⟨_, m, hstored, rfl⟩
    · obtain ⟨e, hmem, hstored⟩ := hremembers.tried id hknown
      exact ⟨e, List.mem_cons_of_mem _ hmem, hstored⟩
    · exact ⟨_, List.mem_cons_self, hstored⟩
  · rintro id ⟨e, hmem, hstored, hunrefused⟩
    rcases List.mem_cons.mp hmem with rfl | hmem
    · have himage := hid id hstored
      exact ⟨himage, (hgf.shortIds _ id (hfiled id _ hstored himage.indexedId? hunrefused)).2.2⟩
    · exact (hremembers.stored id ⟨e, hmem, hstored, hunrefused⟩).imp_right hsteps.known
  · -- An image that is filed again where it was filed leaves no trace in the index, so the call itself is looked at.
    rcases hsteps.get?_shortIds short with hsame | ⟨_, m, hstored, hshort, hget⟩
    · by_cases hnow : ∃ id, c.stored? = some id ∧ indexedId? id = some short ∧ Unrefused (c.run s h).1
      · obtain ⟨id, hstored, hshort, hunrefused⟩ := hnow
        rw [hfiled id short hstored hshort hunrefused]
        exact .stored hstored hshort
      · rw [hsame]
        exact .passed (fun hunrefused id hstored hshort => hnow ⟨id, hstored, hshort, hunrefused⟩) (hremembers.latest short)
    · rw [hget]
      exact .stored hstored hshort

theorem Ran.remembers (hvacant : s.Vacant start.disk) (hran : s.Ran start past h) :
    ∃ f, s.Holds h.disk f ∧ f.Regular ∧ Remembers f past := by
  induction hran with
  | start =>
    refine ⟨_, hvacant.holds, regular_none, ?_, ?_, fun short => .none⟩
    · rintro id ⟨m, hm⟩
      cases hm
    · rintro id ⟨e, hmem, -⟩
      cases hmem
  | call c _ hids ih =>
    obtain ⟨f, hh, hf, hremembers⟩ := ih
    obtain ⟨g, ⟨hg, hsteps, -⟩, -⟩ := moves_call hf hids _ hh
    exact ⟨g, hg, hf.steps hsteps, hremembers.call hh hf hids hg (hf.steps hsteps) hsteps⟩

end Runs

end Depot.Store
