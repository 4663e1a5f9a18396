import Depot.Proofs.Reference.Canonical

/-! The two ways of reading a reference. A text that the grammar reads has no blanks, and taken apart it is the same
    reference, unless it spells the default registry before a single component: the grammar has an official image
    there, and the other way has not. -/

namespace Depot

namespace Spelling
open Reference Reference.Grammar
variable {c : Char} {p : Spelling}

/-! ### Blanks -/

/-- A character that texts of the grammar are made of. -/
def Sign (c : Char) : Prop :=
  Lower c ∨ Upper c ∨ Digit c ∨ c = '+' ∨ c = '-' ∨ c = '.' ∨ c = '/' ∨ c = ':' ∨ c = '@' ∨ c = '_'

theorem Sign.not_blank (h : Sign c) : Text.isBlank c = false := by
  have hnat : 33 ≤ c.toNat ∧ c.toNat ≤ 126 := by
    rcases h with ⟨h₁, h₂⟩ | ⟨h₁, h₂⟩ | ⟨h₁, h₂⟩ | h
    · exact ⟨Nat.le_trans (by decide) h₁, Nat.le_trans h₂ (by decide)⟩
    · exact ⟨Nat.le_trans (by decide) h₁, Nat.le_trans h₂ (by decide)⟩
    · exact ⟨Nat.le_trans (by decide) h₁, Nat.le_trans h₂ (by decide)⟩
    · rcases h with rfl | rfl | rfl | rfl | rfl | rfl | rfl <;> decide
  simp only [Text.isBlank, Bool.or_eq_false_iff, Bool.and_eq_false_iff, decide_eq_false_iff_not, beq_eq_false_iff_ne]
  omega

theorem WellFormed.sign_name (h : p.WellFormed) : ∀ c ∈ p.name, Sign c := by
  have hpath : ∀ c ∈ p.path, Sign c := by
    intro c hc
    rcases Text.mem_intercalate hc with rfl | ⟨w, hw, hc⟩
    · simp [Sign]
    · grind [Sign, (h.components w hw).chars c hc]
  unfold name
  cases hd : p.domain with
  | none => exact hpath
  | some d =>
    refine List.forall_mem_append.mpr ⟨fun c hc => ?_, List.forall_mem_cons.mpr ⟨by simp [Sign], hpath⟩⟩
    grind [Sign, (h.domain d hd).1.chars c hc]

theorem WellFormed.sign_text (h : p.WellFormed) : ∀ c ∈ p.text, Sign c := by
  have htag : ∀ c ∈ tagText p.tag, Sign c := by
    cases ht : p.tag with
    | none => exact List.forall_mem_nil _
    | some t =>
      refine List.forall_mem_cons.mpr ⟨by simp [Sign], fun c hc => ?_⟩
      grind [Sign, (h.tag t ht).chars c hc]
  have hdigest : ∀ c ∈ digestText p.digest, Sign c := by
    cases hd : p.digest with
    | none => exact List.forall_mem_nil _
    | some d =>
      refine List.forall_mem_cons.mpr ⟨by simp [Sign], fun c hc => ?_⟩
      grind [Sign, Grammar.Digest.chars (h.digest d hd) c hc]
  exact List.forall_mem_append.mpr ⟨List.forall_mem_append.mpr ⟨h.sign_name, htag⟩, hdigest⟩

theorem WellFormed.slash_notMem (h : p.WellFormed) : '/' ∉ tagText p.tag ∧ '/' ∉ digestText p.digest := by
  constructor
  · cases ht : p.tag with
    | none => exact List.not_mem_nil
    | some t =>
      rw [tagText, List.mem_cons, not_or]
      exact ⟨by decide, mt ((h.tag t ht).chars '/') (by decide)⟩
  · cases hd : p.digest with
    | none => exact List.not_mem_nil
    | some d =>
      rw [digestText, List.mem_cons, not_or]
      exact ⟨by decide, mt (Digest.chars (h.digest d hd) '/') (by decide)⟩

theorem text_of_domain {d : List Char} (h : p.domain = some d) :
    p.text = d ++ '/' :: (p.path ++ (tagText p.tag ++ digestText p.digest)) := by
  unfold text name
  rw [h, nameText]
  simp only [List.append_assoc, List.cons_append]

/-- The slashes of a text are in its name. -/
theorem WellFormed.name_of_text (h : p.WellFormed) {first rest : List Char} (hfirst : '/' ∉ first)
    (htext : p.text = first ++ '/' :: rest) :
    ∃ back, p.name = first ++ '/' :: back ∧ rest = back ++ (tagText p.tag ++ digestText p.digest) := by
  obtain ⟨htag, hdigest⟩ := h.slash_notMem
  have hparts : p.text = p.name ++ (tagText p.tag ++ digestText p.digest) := List.append_assoc ..
  have hslash : '/' ∈ p.name := by
    have hmem : '/' ∈ p.text := by simp [htext]
    simpa [hparts, htag, hdigest] using hmem
  obtain ⟨front, back, hname, hfront⟩ := List.eq_append_cons_of_mem hslash
  have hcut := Text.cutFirst_append (b := rest) hfirst
  rw [← htext, hparts, hname, List.append_assoc, List.cons_append, Text.cutFirst_append hfront] at hcut
  obtain ⟨rfl, rfl⟩ := Prod.mk.inj (Option.some.inj hcut)
  exact ⟨back, hname, rfl⟩

end Spelling

namespace Reference
open Spelling
variable {text : String} {r : Reference} {name : List Char}

theorem trim_of_parse (h : parse text = .ok r) : Text.trim text.toList = text.toList := by
  obtain ⟨hp, -⟩ := parse_eq_ok_iff.mp h
  have hsign := hp.sign_text
  rw [text_ofText] at hsign
  exact Text.trim_of_not_blank fun c hc => (hsign c hc).not_blank

/-! ### Registry and repository -/

/-- A name taken apart has the registry and the repository that the grammar gives it, unless it spells the default
    registry before a single component. -/
theorem splitRegistry_eq (h : (splitDomain name).1 = some defaultRegistry.toList → '/' ∈ (splitDomain name).2) :
    splitRegistry name = ((splitDomain name).1.getD defaultRegistry.toList,
      repositoryOf ((splitDomain name).1.getD defaultRegistry.toList) (splitDomain name).2) := by
  unfold splitRegistry splitDomain at *
  cases hcut : Text.cutFirst '/' name with
  | none =>
    have hslash := Text.cutFirst_eq_none_iff.mp hcut
    simp [repositoryOf, hslash]
  | some cut =>
    obtain ⟨first, rest⟩ := cut
    obtain ⟨rfl, -⟩ := Text.cutFirst_eq_some_iff.mp hcut
    simp only [hcut] at h ⊢
    split
    · next hlooks =>
      have hmany : ¬(first = defaultRegistry.toList ∧ '/' ∉ rest) := by
        rintro ⟨rfl, hrest⟩
        rw [if_pos hlooks] at h
        exact hrest (h rfl)
      simp [repositoryOf, hmany]
    · simp [repositoryOf]

/-- A text that the grammar reads is taken apart where the grammar cuts it. -/
theorem takeApart_eq (h : parse text = .ok r) : takeApart text = .ok
    { registry := String.ofList (splitRegistry (ofText text.toList).name).1
      repository := String.ofList (splitRegistry (ofText text.toList).name).2
      tag := (ofText text.toList).tag.map String.ofList
      digest := (ofText text.toList).digest.map String.ofList } := by
  have hne : text.toList ≠ [] := by
    intro hempty
    obtain ⟨hp, -⟩ := parse_eq_ok_iff.mp h
    rw [hempty] at hp
    exact not_grammatical_ofText_nil hp
  unfold takeApart
  rw [trim_of_parse h, if_neg hne, name_ofText]
  rfl

/-- A text that the grammar reads is taken for what it is read as, unless it spells the default registry before a
    single component. -/
theorem takeApart_of_parse (h : parse text = .ok r)
    (hbare : ∀ rest, text.toList = defaultRegistry.toList ++ '/' :: rest → '/' ∈ rest) : takeApart text = .ok r := by
  have htake := takeApart_eq h
  obtain ⟨hp, rfl⟩ := parse_eq_ok_iff.mp h
  have hsplit := splitDomain_name_ofText text.toList
  have htext := text_ofText text.toList
  rw [htake, reference_ofText]
  generalize ofText text.toList = p at *
  have hmany : p.domain = some defaultRegistry.toList → '/' ∈ p.path := by
    intro hdomain
    obtain ⟨htag, hdigest⟩ := hp.slash_notMem
    simpa [htag, hdigest] using hbare _ (htext.symm.trans (text_of_domain hdomain))
  rw [splitRegistry_eq (by rwa [hsplit])]
  rfl

/-! ### The default registry before a single component -/

theorem IsGrammatical.slash_mem_canonicalName (h : r.IsGrammatical) {rest : List Char}
    (hname : r.canonicalName.toList = defaultRegistry.toList ++ '/' :: rest) : '/' ∈ rest := by
  have hregistry : '/' ∉ r.registry.toList := mt (h.registry.1.chars '/') (by decide)
  have htext : r.canonicalName.toList =
      r.registry.toList ++ '/' :: (r.repository.toList ++ ':' :: r.effectiveTag.toList) := by
    simp [Reference.canonicalName, Reference.name]
  have hcut := Text.cutFirst_append (b := rest) (show '/' ∉ defaultRegistry.toList by decide)
  rw [← hname, htext, Text.cutFirst_append hregistry] at hcut
  obtain ⟨hdefault, hrest⟩ := Prod.mk.inj (Option.some.inj hcut)
  rw [← hrest]
  exact List.mem_append_left _ (h.official (String.toList_injective hdefault))

/-- A text that spells the default registry before a single component is read as an official image, and taken for one
    that is not. -/
theorem takeApart_of_bare (h : parse text = .ok r) {rest : List Char}
    (hbare : text.toList = defaultRegistry.toList ++ '/' :: rest) (hrest : '/' ∉ rest) :
    ∃ word, '/' ∉ word.toList ∧ r.registry = defaultRegistry ∧ r.repository = officialFolder ++ word ∧
      takeApart text = .ok { r with repository := word } := by
  have htake := takeApart_eq h
  obtain ⟨hp, rfl⟩ := parse_eq_ok_iff.mp h
  have hsplit := splitDomain_name_ofText text.toList
  have htext := text_ofText text.toList
  generalize ofText text.toList = p at *
  obtain ⟨word, hname, rfl⟩ := hp.name_of_text (by decide) (htext.trans hbare)
  have hword : '/' ∉ word := fun hmem => hrest (List.mem_append_left _ hmem)
  have hregistry : splitRegistry p.name = (defaultRegistry.toList, word) := by
    unfold splitRegistry
    rw [hname, Text.cutFirst_append (by decide)]
    rfl
  rw [hname, splitDomain_of_domain (by decide) (by decide)] at hsplit
  obtain ⟨hdomain, hpath⟩ := Prod.mk.inj hsplit
  have hdefault : p.registry = defaultRegistry := by
    rw [Spelling.registry, ← hdomain, Option.getD_some, String.ofList_toList]
  have hrepository : p.repository = officialFolder ++ String.ofList word := by
    unfold Spelling.repository
    rw [if_pos, hpath]
    rw [← hp.pieces_path, ← hpath, Text.length_pieces_eq_one_iff]
    exact ⟨hdefault, hword⟩
  refine ⟨String.ofList word, by rwa [String.toList_ofList], hdefault, hrepository, ?_⟩
  rw [htake, hregistry, String.ofList_toList]
  exact congrArg Except.ok (congrArg (fun registry => Reference.mk registry _ _ _) hdefault.symm)

/-! ### Where the readings differ -/

/-- The text spells the default registry before a single component. -/
def SpellsOfficial (text component : String) : Prop :=
  ∃ p : Spelling, p.Grammatical ∧ p.text = text.toList ∧ p.domain = some defaultRegistry.toList ∧
    p.components = [component.toList]

theorem SpellsOfficial.text_eq {component : String} (h : SpellsOfficial text component) :
    ∃ rest, text.toList = defaultRegistry.toList ++ '/' :: rest ∧ '/' ∉ rest := by
  obtain ⟨p, hp, htext, hdomain, hcomponents⟩ := h
  obtain ⟨htag, hdigest⟩ := hp.slash_notMem
  have hpath : p.path = component.toList := by
    rw [path, hcomponents, List.intercalate_singleton]
  have hslash : '/' ∉ component.toList :=
    mt ((hp.components _ (by simp [hcomponents])).chars '/') (by decide)
  exact ⟨_, htext.symm.trans (text_of_domain hdomain), by simp [hpath, hslash, htag, hdigest]⟩

theorem SpellsOfficial.repository_eq {component : String} (hspells : SpellsOfficial text component)
    (h : parse text = .ok r) : r.repository = officialFolder ++ component := by
  obtain ⟨p, hp, htext, hdomain, hcomponents⟩ := hspells
  obtain rfl := Except.ok.inj (h.symm.trans (hp.parse_eq htext))
  have hregistry : p.registry = defaultRegistry := by
    rw [Spelling.registry, hdomain, Option.getD_some, String.ofList_toList]
  rw [Spelling.reference, Spelling.repository, if_pos ⟨hregistry, by rw [hcomponents, List.length_singleton]⟩, path,
    hcomponents, List.intercalate_singleton, String.ofList_toList]

theorem exists_spellsOfficial (h : parse text = .ok r) {rest : List Char}
    (htext : text.toList = defaultRegistry.toList ++ '/' :: rest) (hrest : '/' ∉ rest) :
    ∃ component, SpellsOfficial text component := by
  obtain ⟨hp, -⟩ := parse_eq_ok_iff.mp h
  have hsplit := splitDomain_name_ofText text.toList
  have hspelled := text_ofText text.toList
  have hpieces := pieces_path_ofText text.toList
  generalize ofText text.toList = p at *
  obtain ⟨word, hname, rfl⟩ := hp.name_of_text (by decide) (hspelled.trans htext)
  rw [hname, splitDomain_of_domain (by decide) (by decide)] at hsplit
  obtain ⟨hdomain, hpath⟩ := Prod.mk.inj hsplit
  have hword : '/' ∉ word := fun hmem => hrest (List.mem_append_left _ hmem)
  refine ⟨String.ofList word, p, hp, hspelled, hdomain.symm, ?_⟩
  rw [← hpieces, ← hpath, Text.pieces_of_not_mem hword, String.toList_ofList]

/-- What the grammar reads is taken for the same reference in all its parts, unless it spells the default registry before
    a single component. Then the repository is this component in the official folder by the grammar, and the
    component alone by the other way. -/
theorem takeApart_agrees (h : parse text = .ok r) : ∃ r', takeApart text = .ok r' ∧
    (r' = r ↔ ¬∃ component, SpellsOfficial text component) ∧ ∀ component, SpellsOfficial text component →
      r.repository = officialFolder ++ component ∧ r' = { r with repository := component } := by
  by_cases hofficial : ∃ component, SpellsOfficial text component
  · obtain ⟨component, hspells⟩ := hofficial
    obtain ⟨rest, htext, hrest⟩ := hspells.text_eq
    obtain ⟨word, -, -, hrepository, htake⟩ := takeApart_of_bare h htext hrest
    refine ⟨_, htake, iff_of_false (fun hsame => ?_) (not_not_intro ⟨component, hspells⟩), fun other hother => ?_⟩
    · -- No text is itself behind a folder.
      have hlength := congrArg (fun r : Reference => r.repository.toList.length) hsame
      simp only [hrepository, String.toList_append, List.length_append] at hlength
      have hfolder : officialFolder.toList.length = 8 := rfl
      omega
    · have heq := (hother.repository_eq h).symm.trans hrepository
      rw [(String.append_right_inj officialFolder).mp heq]
      exact ⟨hrepository, rfl⟩
  · have hbare : ∀ rest, text.toList = defaultRegistry.toList ++ '/' :: rest → '/' ∈ rest := fun rest htext =>
      Decidable.of_not_not fun hrest => hofficial (exists_spellsOfficial h htext hrest)
    exact ⟨r, takeApart_of_parse h hbare, iff_of_true rfl hofficial, fun component hspells =>
      absurd ⟨component, hspells⟩ hofficial⟩

/-- A port, a tag and a digest are read alike; the official image is one only where its folder is not left out. -/
theorem takeApart_agrees_official :
    (parse "localhost:5000/a/b:v1@sha256:00112233445566778899aabbccddeeff" = .ok ⟨"localhost:5000", "a/b", some "v1",
        some "sha256:00112233445566778899aabbccddeeff"⟩ ∧
      takeApart "localhost:5000/a/b:v1@sha256:00112233445566778899aabbccddeeff" = .ok ⟨"localhost:5000", "a/b", some "v1",
        some "sha256:00112233445566778899aabbccddeeff"⟩) ∧
    parse "docker.io/alpine:3" = .ok ⟨"docker.io", "library/alpine", some "3", none⟩ ∧
      SpellsOfficial "docker.io/alpine:3" "alpine" ∧
      takeApart "docker.io/alpine:3" = .ok ⟨"docker.io", "alpine", some "3", none⟩ := by
  have hport : parse "localhost:5000/a/b:v1@sha256:00112233445566778899aabbccddeeff" = .ok ⟨"localhost:5000", "a/b",
      some "v1", some "sha256:00112233445566778899aabbccddeeff"⟩ := by rfl
  have hofficial : parse "docker.io/alpine:3" = .ok ⟨"docker.io", "library/alpine", some "3", none⟩ := by rfl
  obtain ⟨r', htake, hsame, -⟩ := takeApart_agrees hport
  have hnone : ¬∃ component, SpellsOfficial "localhost:5000/a/b:v1@sha256:00112233445566778899aabbccddeeff" component := by
    rintro ⟨component, hspells⟩
    obtain ⟨rest, htext, -⟩ := hspells.text_eq
    exact absurd (congrArg List.head? htext) (by simp [defaultRegistry])
  obtain rfl := hsame.mpr hnone
  have htext : "docker.io/alpine:3".toList = defaultRegistry.toList ++ '/' :: "alpine:3".toList := by decide
  obtain ⟨component, hspells⟩ := exists_spellsOfficial hofficial htext (by decide)
  obtain rfl : "alpine" = component := (String.append_right_inj officialFolder).mp (hspells.repository_eq hofficial)
  obtain ⟨r'', htake', -, hdiffers⟩ := takeApart_agrees hofficial
  obtain ⟨-, rfl⟩ := hdiffers "alpine" hspells
  exact ⟨⟨hport, htake⟩, hofficial, hspells, htake'⟩

end Reference
end Depot
