import Depot.Proofs.Reference.Spelling

/-! References that are read from text. Those that are read by the grammar are spelled in it in full as well, so what they
    are written as is read as what they are; their canonical names are read with the tag spelled out and without the
    digest. No registry that is read has an `@`. -/

namespace Depot.Reference
variable {r : Reference} {text : String} {cs : List Char}

theorem splitTag_fst_subset (cs : List Char) : (splitTag cs).1 ⊆ cs := by
  intro c hc
  rw [← splitTag_eq cs]
  exact List.mem_append_left _ hc

/-! ### The full spelling -/

/-- The reference with its registry spelled out. -/
def spelling (r : Reference) : Spelling where
  domain := some r.registry.toList
  components := Text.pieces '/' r.repository.toList
  tag := r.tag.map String.toList
  digest := r.digest.map String.toList

/-- The parts are in the grammar, and the repository is the full one. -/
structure IsGrammatical (r : Reference) : Prop where
  registry : Grammar.Domain r.registry.toList
  components : ∀ c ∈ Text.pieces '/' r.repository.toList, Grammar.Component c
  official : r.registry = defaultRegistry → '/' ∈ r.repository.toList
  tag : ∀ t ∈ r.tag, Grammar.Tag t.toList
  digest : ∀ d ∈ r.digest, Grammar.Digest d.toList

theorem path_spelling (r : Reference) : r.spelling.path = r.repository.toList := Text.intercalate_pieces '/' _

theorem name_spelling (r : Reference) : r.spelling.name = r.name.toList := by
  unfold Spelling.name
  rw [path_spelling, Reference.name, String.toList_append, String.toList_append, List.append_assoc]
  rfl

theorem text_spelling (r : Reference) : r.spelling.text = r.render.toList := by
  unfold Spelling.text Reference.render
  rw [name_spelling]
  rcases r with ⟨registry, repository, _ | tag, _ | digest⟩
  all_goals simp [spelling, tagText, digestText]

theorem IsGrammatical.reference_spelling (h : r.IsGrammatical) : r.spelling.reference = r := by
  have hregistry : r.spelling.registry = r.registry := String.ofList_toList
  have hrepository : r.spelling.repository = r.repository := by
    unfold Spelling.repository
    rw [if_neg, path_spelling, String.ofList_toList]
    rintro ⟨hdefault, hone⟩
    exact Text.length_pieces_eq_one_iff.mp hone (h.official (hregistry ▸ hdefault))
  have hstrings (o : Option String) : (o.map String.toList).map String.ofList = o := by
    cases o with
    | none => rfl
    | some s => exact congrArg some String.ofList_toList
  unfold Spelling.reference
  rw [hregistry, hrepository]
  unfold spelling
  simp only [hstrings]

theorem IsGrammatical.wellFormed (h : r.IsGrammatical) : r.spelling.WellFormed where
  domain d hd := by
    cases hd
    exact h.registry
  ne_nil := Text.pieces_ne_nil '/' _
  components := h.components
  first hnone := by cases hnone
  tag t ht := by
    obtain ⟨t, hmem, rfl⟩ := Option.map_eq_some_iff.mp ht
    exact h.tag t hmem
  digest d hd := by
    obtain ⟨d, hmem, rfl⟩ := Option.map_eq_some_iff.mp hd
    exact h.digest d hmem

/-- What a reference is written as is read as the reference. -/
theorem IsGrammatical.parse_render (h : r.IsGrammatical) (hlength : r.name.utf8ByteSize ≤ 255) :
    parse r.render = .ok r := by
  have hlong : (String.ofList r.spelling.name).utf8ByteSize ≤ 255 := by
    rwa [name_spelling, String.ofList_toList]
  have hparse := Spelling.Grammatical.parse_eq ⟨h.wellFormed, hlong⟩ (text_spelling r)
  rwa [h.reference_spelling] at hparse

/-- What a reference is written as is not read as another one. -/
theorem IsGrammatical.eq_of_parse_render (h : r.IsGrammatical) {r' : Reference} (hparse : parse r.render = .ok r') :
    r' = r := by
  obtain ⟨-, hr'⟩ := Spelling.parse_eq_ok_iff.mp hparse
  rwa [← text_spelling, h.wellFormed.ofText_text, h.reference_spelling, eq_comm] at hr'

/-- The repository of a spelling has the components that are spelled, behind the official folder if there is but one. -/
theorem pieces_repository {p : Spelling} (h : p.Grammatical) : Text.pieces '/' p.repository.toList =
    if p.registry = defaultRegistry ∧ p.components.length = 1 then "library".toList :: p.components else p.components := by
  unfold Spelling.repository
  split
  · have hofficial : officialFolder.toList = "library".toList ++ ['/'] := rfl
    rw [String.toList_append, String.toList_ofList, hofficial, List.append_assoc, List.singleton_append,
      Text.pieces_append (by decide), h.pieces_path]
  · rw [String.toList_ofList, h.pieces_path]

theorem domain_registry {p : Spelling} (h : p.Grammatical) : Grammar.Domain p.registry.toList := by
  rw [Spelling.registry, String.toList_ofList]
  cases hdomain : p.domain with
  | none => exact ⟨Grammar.isDomain_iff.mp (by decide), Grammar.looksLikeDomain_iff.mp (by decide)⟩
  | some d => exact h.domain d hdomain

/-- In the default registry every repository is in a folder. -/
theorem slash_mem_repository {p : Spelling} (h : p.Grammatical) (hregistry : p.registry = defaultRegistry) :
    '/' ∈ p.repository.toList := by
  have hmany : (Text.pieces '/' p.repository.toList).length ≠ 1 := by
    rw [pieces_repository h]
    split
    · have := List.length_pos_iff.mpr h.ne_nil
      rw [List.length_cons]
      omega
    · next hnot => exact fun hone => hnot ⟨hregistry, hone⟩
  exact Decidable.of_not_not fun hslash => hmany (Text.length_pieces_eq_one_iff.mpr hslash)

theorem isGrammatical_of_parse (h : parse text = .ok r) : r.IsGrammatical := by
  obtain ⟨hp, rfl⟩ := Spelling.parse_eq_ok_iff.mp h
  generalize Spelling.ofText text.toList = p at hp
  refine ⟨domain_registry hp, ?_, slash_mem_repository hp, ?_, ?_⟩
  · intro c hc
    rw [Spelling.reference, pieces_repository hp] at hc
    split at hc
    · rcases List.mem_cons.mp hc with rfl | hc
      · exact .word (by decide)
      · exact hp.components c hc
    · exact hp.components c hc
  · intro t ht
    obtain ⟨t, hmem, rfl⟩ := Option.map_eq_some_iff.mp ht
    rw [String.toList_ofList]
    exact hp.tag t hmem
  · intro d hd
    obtain ⟨d, hmem, rfl⟩ := Option.map_eq_some_iff.mp hd
    rw [String.toList_ofList]
    exact hp.digest d hmem

/-! ### Canonical names -/

/-- With its tag spelled out and without its digest, a reference is written as its canonical name. -/
theorem render_withTag (r : Reference) :
    ({ r with tag := some r.effectiveTag, digest := none } : Reference).render = r.canonicalName := by
  unfold Reference.render Reference.canonicalName
  simp only [String.append_empty, String.append_assoc]
  rfl

theorem IsGrammatical.withTag (h : r.IsGrammatical) :
    IsGrammatical { r with tag := some r.effectiveTag, digest := none } where
  registry := h.registry
  components := h.components
  official := h.official
  tag t ht := by
    cases ht
    unfold Reference.effectiveTag
    cases htag : r.tag with
    | none => decide
    | some t => exact h.tag t htag
  digest d hd := by cases hd

/-- A canonical name is read as what it names. -/
theorem IsGrammatical.parse_canonicalName (h : r.IsGrammatical) (hlength : r.name.utf8ByteSize ≤ 255) :
    parse r.canonicalName = .ok { r with tag := some r.effectiveTag, digest := none } := by
  rw [← render_withTag]
  exact h.withTag.parse_render hlength

/-- A list of canonical names is read as a list of what they name. -/
theorem mapM_parse_canonicalName {references : List Reference}
    (h : ∀ r ∈ references, r.IsGrammatical ∧ r.name.utf8ByteSize ≤ 255) :
    (references.map canonicalName).mapM parse =
      .ok (references.map fun r => { r with tag := some r.effectiveTag, digest := none }) := by
  induction references with
  | nil => rfl
  | cons r references ih =>
    obtain ⟨⟨hr, hlength⟩, hrest⟩ := List.forall_mem_cons.mp h
    rw [List.map_cons, List.mapM_cons, hr.parse_canonicalName hlength, ih hrest]
    rfl

/-- What has been read from a canonical name has that name itself. -/
theorem IsGrammatical.canonicalName_of_parse (h : r.IsGrammatical) {r' : Reference}
    (hparse : parse r.canonicalName = .ok r') : r'.canonicalName = r.canonicalName := by
  rw [← render_withTag] at hparse
  rw [h.withTag.eq_of_parse_render hparse]
  rfl

theorem at_notMem_registry_of_parse (h : parse text = .ok r) : '@' ∉ r.registry.toList := by
  exact mt ((isGrammatical_of_parse h).registry.1.chars '@') (by decide)

/-! ### References that are read -/

theorem at_notMem_default : '@' ∉ defaultRegistry.toList := by decide

theorem at_notMem_registry_of_takeApart (h : takeApart text = .ok r) : '@' ∉ r.registry.toList := by
  unfold takeApart at h
  dsimp only at h
  split at h
  · exact absurd h (by simp)
  · obtain rfl := Except.ok.inj h
    have hname : '@' ∉ (splitTag (splitDigest (Text.trim text.toList)).1).1 :=
      fun h => (splitDigest_eq _).2 (splitTag_fst_subset _ h)
    show '@' ∉ (String.ofList (splitRegistry _).1).toList
    rw [String.toList_ofList]
    unfold splitRegistry
    split
    · next hcut =>
      obtain ⟨heq, -⟩ := Text.cutFirst_eq_some_iff.mp hcut
      rw [heq] at hname
      split
      · exact fun h => hname (List.mem_append_left _ h)
      · exact at_notMem_default
    · exact at_notMem_default

/-- The reference is one that is read from text. -/
def IsRead (r : Reference) : Prop := ∃ text, parse text = .ok r ∨ takeApart text = .ok r

theorem IsRead.at_notMem_registry (h : r.IsRead) : '@' ∉ r.registry.toList := by
  obtain ⟨text, h | h⟩ := h
  · exact at_notMem_registry_of_parse h
  · exact at_notMem_registry_of_takeApart h

end Depot.Reference
