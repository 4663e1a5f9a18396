import Depot.Archive.Reader
import Depot.Proofs.Bytes
import Depot.Proofs.Reference.Continued

/-! The short names of archives. An image is written into an archive under its name without the parts that are understood,
    and whoever loads the archive completes the name again. This gives the image its own name back, unless what is left
    of the name begins with a folder that is taken for a registry. -/

namespace Depot

namespace Reference
variable {r r' : Reference} {text : String} {t : Tagged} {short : List Char}

/-- Without the default registry, the name begins as if it had one. -/
def LooksQualified (r : Reference) : Prop :=
  r.registry = defaultRegistry ∧
    ∃ first rest, r.repository.toList = first ++ '/' :: rest ∧ '/' ∉ first ∧ Grammar.DomainLike first

theorem looksQualified_iff :
    r.LooksQualified ↔ r.registry = defaultRegistry ∧ (splitDomain r.repository.toList).1.isSome = true := by
  refine and_congr_right fun _ => ?_
  constructor
  · rintro ⟨first, rest, hrepository, hslash, hlike⟩
    rw [hrepository, splitDomain_of_domain hslash (Grammar.looksLikeDomain_iff.mpr hlike)]
    rfl
  · intro h
    obtain ⟨first, hfirst⟩ := Option.isSome_iff_exists.mp h
    have hlooks := looksLikeDomain_of_splitDomain (Option.mem_def.mpr hfirst)
    unfold splitDomain at hfirst
    split at hfirst
    · next hcut =>
      obtain ⟨hrepository, hslash⟩ := Text.cutFirst_eq_some_iff.mp hcut
      split at hfirst
      · cases hfirst
        exact ⟨_, _, hrepository, hslash, Grammar.looksLikeDomain_iff.mp hlooks⟩
      · cases hfirst
    · cases hfirst

instance : Decidable r.LooksQualified := decidable_of_iff _ looksQualified_iff.symm

/-! ### What is left out -/

theorem toList_name (r : Reference) : r.name.toList = r.registry.toList ++ '/' :: r.repository.toList := by
  simp [name, String.toList_append]

theorem toList_defaultName (h : r.registry = defaultRegistry) :
    r.name.toList = (defaultRegistry ++ "/").toList ++ r.repository.toList := by
  rw [toList_name, h, String.toList_append, List.append_assoc]
  rfl

theorem not_domainLike_library : ¬Grammar.DomainLike "library".toList :=
  mt Grammar.looksLikeDomain_iff.mpr (by decide)

/-- Other registries are not left out. -/
theorem familiarName_of_registry (h : Grammar.Domain r.registry.toList) (hregistry : r.registry ≠ defaultRegistry) :
    Tagged.familiarName r.name = r.name := by
  have hslash : '/' ∉ r.registry.toList := mt (h.1.chars '/') (by decide)
  have hno (lead : String) (hlead : '/' ∉ lead.toList) (hne : r.registry.toList ≠ lead.toList) :
      Text.after? (lead ++ "/").toList r.name.toList = none := by
    rw [Option.eq_none_iff_forall_not_mem]
    intro rest hrest
    rw [Option.mem_def, Text.after?_eq_some_iff, toList_name, String.toList_append, List.append_assoc] at hrest
    exact hne (Text.cut_unique hslash hlead hrest).1
  have hofficial : r.registry.toList ≠ "library".toList := fun heq => not_domainLike_library (heq ▸ h.2)
  unfold Tagged.familiarName
  rw [hno defaultRegistry (by decide) (mt String.toList_inj.mp hregistry)]
  dsimp only [Option.getD_none]
  rw [show officialFolder = "library" ++ "/" from rfl, hno "library" (by decide) hofficial, String.ofList_toList]

theorem familiarName_of_official (hregistry : r.registry = defaultRegistry) (hslash : '/' ∉ short)
    (hrepository : r.repository.toList = officialFolder.toList ++ short) :
    Tagged.familiarName r.name = String.ofList short := by
  unfold Tagged.familiarName
  rw [toList_defaultName hregistry, Text.after?_append]
  dsimp only [Option.getD_some]
  rw [hrepository, Text.after?_append]
  exact if_neg hslash

theorem familiarName_of_folder (hregistry : r.registry = defaultRegistry)
    (h : ∀ short, r.repository.toList = officialFolder.toList ++ short → '/' ∈ short) :
    Tagged.familiarName r.name = r.repository := by
  unfold Tagged.familiarName
  rw [toList_defaultName hregistry, Text.after?_append]
  dsimp only [Option.getD_some]
  split
  · next short hshort =>
    rw [if_pos (h short (Text.after?_eq_some_iff.mp hshort)), String.ofList_toList]
  · exact String.ofList_toList

theorem after?_getD_suffix (lead cs : List Char) : (Text.after? lead cs).getD cs <:+ cs := by
  cases h : Text.after? lead cs with
  | none => exact List.suffix_refl cs
  | some rest => exact ⟨lead, (Text.after?_eq_some_iff.mp h).symm⟩

/-- A short name is the end of the name. -/
theorem familiarName_suffix (name : String) : (Tagged.familiarName name).toList <:+ name.toList := by
  have hcs := after?_getD_suffix (defaultRegistry ++ "/").toList name.toList
  unfold Tagged.familiarName
  dsimp only
  split
  · next short hshort =>
    split
    · rwa [String.toList_ofList]
    · rw [String.toList_ofList]
      exact List.IsSuffix.trans ⟨_, (Text.after?_eq_some_iff.mp hshort).symm⟩ hcs
  · rwa [String.toList_ofList]

/-! ### What is read again -/

/-- A name without a domain, behind a tag of its own. -/
def shortSpelling (components : List (List Char)) (tag : String) : Spelling := ⟨none, components, some tag.toList, none⟩

theorem text_shortSpelling (components : List (List Char)) (tag : String) :
    (shortSpelling components tag).text = ['/'].intercalate components ++ ':' :: tag.toList := by
  simp [shortSpelling, Spelling.text, Spelling.name, Spelling.path, nameText, tagText, digestText]

theorem toList_familiar (t : Tagged) : t.familiar.toList = (Tagged.familiarName t.name).toList ++ ':' :: t.tag.toList := by
  simp [Tagged.familiar, String.toList_append]

/-- A short name is read as the reference if it is spelled with the components that are left of the name. -/
theorem parse_shortSpelling (components : List (List Char)) (htag : Grammar.Tag t.tag.toList)
    (hfamiliar : (Tagged.familiarName t.name).toList = ['/'].intercalate components)
    (hwords : ∀ c ∈ components, Grammar.Component c) (hne : components ≠ [])
    (hfirst : ∀ c d cs, components = c :: d :: cs → ¬Grammar.DomainLike c)
    (hlength : t.name.utf8ByteSize ≤ 255) :
    parse t.familiar = .ok (shortSpelling components t.tag).reference := by
  have hwell : (shortSpelling components t.tag).WellFormed :=
    { domain := by rintro _ ⟨⟩
      ne_nil := hne
      components := hwords
      first := fun _ c d cs heq => by
        have hlike := hfirst c d cs heq
        exact ⟨fun hdot => hlike (Or.inl hdot), fun hlocal => hlike (Or.inr (Or.inr hlocal))⟩
      tag := by
        rintro _ ⟨⟩
        exact htag
      digest := by rintro _ ⟨⟩ }
  have hname : String.ofList (shortSpelling components t.tag).name = Tagged.familiarName t.name := by
    rw [← String.ofList_toList (s := Tagged.familiarName t.name), hfamiliar]
    rfl
  have hshort : (Tagged.familiarName t.name).utf8ByteSize ≤ 255 :=
    Nat.le_trans (Bytes.utf8ByteSize_le_of_sublist (familiarName_suffix t.name).sublist) hlength
  refine Spelling.Grammatical.parse_eq ⟨hwell, by rwa [hname]⟩ ?_
  rw [text_shortSpelling, toList_familiar, hfamiliar]

theorem tagged?_eq_some_iff : r.tagged? = some t ↔ t.name = r.name ∧ r.tag = some t.tag := by
  unfold tagged?
  rw [Option.map_eq_some_iff]
  constructor
  · rintro ⟨tag, htag, rfl⟩
    exact ⟨rfl, htag⟩
  · rintro ⟨hname, htag⟩
    exact ⟨t.tag, htag, by rw [← hname]⟩

theorem parse_familiar_of_registry (h : r.IsGrammatical) (ht : r.tagged? = some t) (hlength : r.name.utf8ByteSize ≤ 255)
    (hregistry : r.registry ≠ defaultRegistry) : parse t.familiar = .ok { r with digest := none } := by
  obtain ⟨hname, htag⟩ := tagged?_eq_some_iff.mp ht
  have hrender : t.familiar = ({ r with digest := none } : Reference).render := by
    rw [Tagged.familiar, hname, familiarName_of_registry h.registry hregistry]
    simp [render, htag, name, String.append_assoc]
  rw [hrender]
  refine IsGrammatical.parse_render { h with digest := ?_ } hlength
  rintro _ ⟨⟩

theorem parse_familiar_of_official (h : r.IsGrammatical) (ht : r.tagged? = some t) (hlength : r.name.utf8ByteSize ≤ 255)
    (hregistry : r.registry = defaultRegistry) (hslash : '/' ∉ short)
    (hrepository : r.repository.toList = officialFolder.toList ++ short) :
    parse t.familiar = .ok { r with digest := none } := by
  obtain ⟨hname, htag⟩ := tagged?_eq_some_iff.mp ht
  have hfamiliar := familiarName_of_official hregistry hslash hrepository
  have hpieces : Text.pieces '/' r.repository.toList = ["library".toList, short] := by
    rw [hrepository, show officialFolder.toList = "library".toList ++ ['/'] from rfl, List.append_assoc,
      List.singleton_append, Text.pieces_append (by decide), Text.pieces_of_not_mem hslash]
  have hword : Grammar.Component short := h.components short (by simp [hpieces])
  rw [parse_shortSpelling [short] (h.tag t.tag htag) (by simp [hname, hfamiliar]) (by simpa using hword)
    (List.cons_ne_nil _ _) (by simp) (hname ▸ hlength)]
  have hfull : r.repository = officialFolder ++ String.ofList short := by
    rw [← String.toList_inj, hrepository, String.toList_append, String.toList_ofList]
  simp [shortSpelling, Spelling.reference, Spelling.registry, Spelling.repository, Spelling.path, ← hregistry, htag, hfull]

theorem parse_familiar_of_folder (h : r.IsGrammatical) (ht : r.tagged? = some t) (hlength : r.name.utf8ByteSize ≤ 255)
    (hregistry : r.registry = defaultRegistry) (hqualified : ¬r.LooksQualified)
    (hofficial : ∀ short, r.repository.toList = officialFolder.toList ++ short → '/' ∈ short) :
    parse t.familiar = .ok { r with digest := none } := by
  obtain ⟨hname, htag⟩ := tagged?_eq_some_iff.mp ht
  have hfamiliar := familiarName_of_folder hregistry hofficial
  have hpath := Text.intercalate_pieces '/' r.repository.toList
  have hmany : (Text.pieces '/' r.repository.toList).length ≠ 1 :=
    fun hone => Text.length_pieces_eq_one_iff.mp hone (h.official hregistry)
  have hfirst : ∀ c d cs, Text.pieces '/' r.repository.toList = c :: d :: cs → ¬Grammar.DomainLike c := by
    intro c d cs hpieces hlike
    have hslash : '/' ∉ c := mt ((h.components c (by simp [hpieces])).chars '/') (by decide)
    refine hqualified ⟨hregistry, c, ['/'].intercalate (d :: cs), ?_, hslash, hlike⟩
    rw [← hpath, hpieces, List.intercalate_cons_cons, List.append_assoc, List.singleton_append]
  rw [parse_shortSpelling _ (h.tag t.tag htag) (by rw [hname, hfamiliar, hpath]) h.components (Text.pieces_ne_nil '/' _)
    hfirst (hname ▸ hlength)]
  simp [shortSpelling, Spelling.reference, Spelling.registry, Spelling.repository, Spelling.path, ← hregistry, htag, hpath,
    hmany]

/-- A short name is read as the reference that it stands for. -/
theorem IsGrammatical.parse_familiar (h : r.IsGrammatical) (ht : r.tagged? = some t)
    (hlength : r.name.utf8ByteSize ≤ 255) (hqualified : ¬r.LooksQualified) :
    parse t.familiar = .ok { r with digest := none } := by
  by_cases hregistry : r.registry = defaultRegistry
  · by_cases hofficial : ∃ short, r.repository.toList = officialFolder.toList ++ short ∧ '/' ∉ short
    · obtain ⟨short, hrepository, hslash⟩ := hofficial
      exact parse_familiar_of_official h ht hlength hregistry hslash hrepository
    · refine parse_familiar_of_folder h ht hlength hregistry hqualified fun short hshort => ?_
      exact Decidable.of_not_not fun hslash => hofficial ⟨short, hshort, hslash⟩
  · exact parse_familiar_of_registry h ht hlength hregistry

/-! ### What is read as another name -/

/-- No repository is the default registry before the path that it was completed from. -/
theorem repository_ne (p : Spelling) : p.repository.toList ≠ defaultRegistry.toList ++ '/' :: p.path := by
  unfold Spelling.repository
  split
  · rw [String.toList_append, String.toList_ofList]
    intro h
    have hhead : some 'l' = some 'd' := congrArg List.head? h
    exact absurd hhead (by decide)
  · rw [String.toList_ofList]
    intro h
    have hlength := congrArg List.length h
    rw [List.length_append, List.length_cons] at hlength
    omega

theorem IsGrammatical.notMem_repository (h : r.IsGrammatical) : '@' ∉ r.repository.toList ∧ ':' ∉ r.repository.toList := by
  have hno (c : Char) (hc : c ≠ '/') (hsign : ¬(Grammar.Lower c ∨ Grammar.Digit c ∨ c = '.' ∨ c = '_' ∨ c = '-')) :
      c ∉ r.repository.toList := by
    intro hmem
    rw [← Text.intercalate_pieces '/' r.repository.toList] at hmem
    rcases Text.mem_intercalate hmem with rfl | ⟨w, hw, hcw⟩
    · exact hc rfl
    · exact hsign ((h.components w hw).chars c hcw)
  exact ⟨hno '@' (by decide) (by decide), hno ':' (by decide) (by decide)⟩

/-- The first folder is cut off where it is taken for a registry. -/
theorem ofText_of_domainLike {cs first rest tag : List Char} (hat : '@' ∉ cs) (hcolon : ':' ∉ cs)
    (hcs : cs = first ++ '/' :: rest) (hslash : '/' ∉ first) (hlike : Grammar.DomainLike first) (htag : Grammar.Tag tag) :
    Spelling.ofText (cs ++ ':' :: tag) = ⟨some first, Text.pieces '/' rest, some tag, none⟩ := by
  have huntagged : splitTag cs = (cs, none) := splitTag_nameText hcolon none
  rw [Spelling.ofText_tag hat hcolon htag, Spelling.ofText]
  simp only [splitDigest_of_notMem hat, huntagged]
  rw [hcs, splitDomain_of_domain hslash (Grammar.looksLikeDomain_iff.mpr hlike)]

/-- What is left of a name that looks qualified is read, if at all, as a name in the registry that its first folder is
    taken for. -/
theorem LooksQualified.parse_familiar_ne (hqualified : r.LooksQualified) (h : r.IsGrammatical) (ht : r.tagged? = some t)
    (hparse : parse t.familiar = .ok r') : r'.registry ≠ r.registry ∨ r'.repository ≠ r.repository := by
  obtain ⟨hregistry, first, rest, hrepository, hslash, hlike⟩ := hqualified
  obtain ⟨hname, htag⟩ := tagged?_eq_some_iff.mp ht
  have hofficial : ∀ short, r.repository.toList = officialFolder.toList ++ short → '/' ∈ short := by
    intro short hshort
    rw [hrepository, show officialFolder.toList = "library".toList ++ ['/'] from rfl, List.append_assoc,
      List.singleton_append] at hshort
    exact absurd ((Text.cut_unique hslash (by decide) hshort).1 ▸ hlike) not_domainLike_library
  obtain ⟨hat, hcolon⟩ := h.notMem_repository
  have htext : Spelling.ofText t.familiar.toList = ⟨some first, Text.pieces '/' rest, some t.tag.toList, none⟩ := by
    rw [toList_familiar, hname, familiarName_of_folder hregistry hofficial]
    exact ofText_of_domainLike hat hcolon hrepository hslash hlike (h.tag t.tag htag)
  obtain ⟨-, rfl⟩ := Spelling.parse_eq_ok_iff.mp hparse
  generalize Spelling.ofText t.familiar.toList = p at htext
  have hpath : p.path = rest := by
    rw [htext]
    exact Text.intercalate_pieces '/' rest
  have hfirst : p.registry.toList = first := by
    rw [htext, Spelling.registry, Option.getD_some, String.toList_ofList]
  change p.registry ≠ r.registry ∨ p.repository ≠ r.repository
  -- If the folder is taken for the default registry, then it is gone from the repository.
  by_cases hdefault : p.registry = defaultRegistry
  · refine Or.inr fun hsame => ?_
    have hne := repository_ne p
    rw [hsame, hrepository, hpath, ← hfirst, hdefault] at hne
    exact hne rfl
  · exact Or.inl fun hsame => hdefault (hsame.trans hregistry)

/-- References with the same canonical name have the same parts. -/
theorem IsGrammatical.parts_of_canonicalName (h : r.IsGrammatical) (h' : r'.IsGrammatical)
    (heq : r'.canonicalName = r.canonicalName) : r'.registry = r.registry ∧ r'.repository = r.repository := by
  rw [← render_withTag, ← render_withTag] at heq
  have htext := congrArg String.toList heq
  rw [← text_spelling, ← text_spelling] at htext
  have hspelling := h'.withTag.wellFormed.eq_of_text_eq h.withTag.wellFormed htext
  have hreference := congrArg Spelling.reference hspelling
  rw [h'.withTag.reference_spelling, h.withTag.reference_spelling] at hreference
  obtain ⟨hregistry, hrepository, -⟩ := Reference.mk.inj hreference
  exact ⟨hregistry, hrepository⟩

end Reference

/-! ### Loading an archive -/

namespace Archive
open Reference
variable {r : Reference} {text : String} {t : Tagged}

/-- The name that a tagged reference is given in an archive is read as the reference, and whoever loads the archive files
    the image under the canonical name. If the name looks qualified without the default registry, it is not read as a
    name in the same repository, and nothing is filed under the canonical name. -/
theorem namesOf_familiar (h : parse text = .ok r) (ht : r.tagged? = some t) (hlength : r.name.utf8ByteSize ≤ 255) :
    (¬r.LooksQualified → parse t.familiar = .ok { r with digest := none } ∧ namesOf [t.familiar] = [r.canonicalName]) ∧
      (r.LooksQualified →
        (∀ r', parse t.familiar = .ok r' → r'.registry ≠ r.registry ∨ r'.repository ≠ r.repository) ∧
          r.canonicalName ∉ namesOf [t.familiar]) := by
  have hr := isGrammatical_of_parse h
  constructor
  · intro hqualified
    have hparse := hr.parse_familiar ht hlength hqualified
    refine ⟨hparse, ?_⟩
    simp only [namesOf, List.filterMap_cons, hparse, List.filterMap_nil]
    rfl
  · intro hqualified
    have hne (r' : Reference) (hparse : parse t.familiar = .ok r') := hqualified.parse_familiar_ne hr ht hparse
    refine ⟨hne, fun hmem => ?_⟩
    obtain ⟨name, hname, hfiled⟩ := List.mem_filterMap.mp hmem
    obtain rfl := List.mem_singleton.mp hname
    split at hfiled
    · next r' hparse =>
      obtain ⟨hregistry, hrepository⟩ :=
        hr.parts_of_canonicalName (isGrammatical_of_parse hparse) (Option.some.inj hfiled)
      rcases hne r' hparse with hdiff | hdiff
      · exact hdiff hregistry
      · exact hdiff hrepository
    · cases hfiled

theorem namesOf_familiar_alpine :
    parse "alpine:3@sha256:00112233445566778899aabbccddeeff" =
        .ok ⟨"docker.io", "library/alpine", some "3", some "sha256:00112233445566778899aabbccddeeff"⟩ ∧
      parse (Tagged.familiar ⟨"docker.io/library/alpine", "3"⟩) = .ok ⟨"docker.io", "library/alpine", some "3", none⟩ ∧
        namesOf [Tagged.familiar ⟨"docker.io/library/alpine", "3"⟩] = ["docker.io/library/alpine:3"] := by
  have hparse : parse "alpine:3@sha256:00112233445566778899aabbccddeeff" =
      .ok ⟨"docker.io", "library/alpine", some "3", some "sha256:00112233445566778899aabbccddeeff"⟩ := by rfl
  exact ⟨hparse, (namesOf_familiar hparse (t := ⟨"docker.io/library/alpine", "3"⟩) (by decide) (by decide)).1 (by decide)⟩

/-- Without the default registry, a repository in the folder `localhost` is one of this machine. -/
theorem not_parse_familiar_localhost :
    ∃ r t, parse "docker.io/localhost/foo:v1" = .ok r ∧ r.tagged? = some t ∧ r.name.utf8ByteSize ≤ 255 ∧
      t.familiar = "localhost/foo:v1" ∧ (¬∃ r', parse t.familiar = .ok r' ∧ r'.registry = r.registry) ∧
        namesOf [t.familiar] = ["localhost/foo:v1"] := by
  have hparse : parse "docker.io/localhost/foo:v1" = .ok ⟨"docker.io", "localhost/foo", some "v1", none⟩ := by rfl
  have hfamiliar : Tagged.familiar ⟨"docker.io/localhost/foo", "v1"⟩ = "localhost/foo:v1" := by decide
  have hother : parse "localhost/foo:v1" = .ok ⟨"localhost", "foo", some "v1", none⟩ := by rfl
  refine ⟨_, ⟨"docker.io/localhost/foo", "v1"⟩, hparse, by decide, by decide, hfamiliar, ?_, by rw [hfamiliar]; decide⟩
  rw [hfamiliar]
  rintro ⟨r', hr', hregistry⟩
  rw [hother] at hr'
  cases hr'
  exact absurd hregistry (by decide)

end Archive
end Depot
