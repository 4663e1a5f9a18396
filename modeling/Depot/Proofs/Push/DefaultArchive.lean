import Depot.Proofs.Archive.ShortNames
import Depot.Proofs.Push.ArchiveNames
import Depot.Proofs.Push.EveryTag

/-! Pushes of tagged names where archives are the default. The text is a path up to its first colon, and a reference
    behind it: to an official image that is called like the tag, or, if the colon is the one of a port, to a repository
    in a folder that is called like the port. The archive has the name that was asked for, and this one as well. -/

namespace Depot

/-! ### The first colon -/

namespace Reference.Grammar
variable {cs : List Char}

theorem Host.colon_notMem (h : Host cs) : ':' ∉ cs := mt (h.chars ':') (by decide)

theorem not_host_nil : ¬Host [] := mt isHost_iff.mpr (by decide)

theorem Port.component (h : Port cs) : Component cs := .word ⟨h.1, fun c hc => Or.inr (h.2 c hc)⟩

theorem Port.not_domainLike (h : Port cs) : ¬DomainLike cs := by
  rintro (hdot | hcolon | rfl)
  · exact absurd (h.2 _ hdot) (by decide)
  · exact absurd (h.2 _ hcolon) (by decide)
  · exact absurd (h.2 'l' (by decide)) (by decide)

theorem Tag.utf8ByteSize_le {tag : String} (h : Tag tag.toList) : tag.utf8ByteSize ≤ 255 := by
  rw [Bytes.utf8ByteSize_of_plain h.plain]
  obtain ⟨c, rest, hcs, -, hlength, -⟩ := h
  rw [hcs, List.length_cons]
  omega

end Reference.Grammar

namespace Spelling
open Reference
variable {p : Spelling} {tag host port : List Char}

/-- The first colon of a tagged reference is the one of its tag, or the one of a port. -/
theorem Grammatical.text_cases (h : p.Grammatical) (htag : p.tag = some tag) :
    (':' ∉ p.registry.toList ∧ ':' ∉ p.name ∧ p.name ≠ [] ∧ p.text = p.name ++ ':' :: (tag ++ digestText p.digest)) ∨
      ∃ host port, Grammar.Host host ∧ Grammar.Port port ∧ p.domain = some (host ++ ':' :: port) ∧
        p.text = host ++ ':' :: (port ++ '/' :: p.path ++ ':' :: tag ++ digestText p.digest) := by
  have hpath : ':' ∉ p.path := h.notMem_path (by decide) (by decide)
  unfold text name registry
  rw [htag]
  cases hd : p.domain with
  | none =>
    refine Or.inl ⟨by decide, hpath, fun hempty => ?_, by simp [nameText, tagText]⟩
    have hcomponents := h.pieces_path
    rw [show p.path = [] from hempty] at hcomponents
    exact Grammar.not_component_nil (h.components [] (by simp [← hcomponents, Text.pieces]))
  | some d =>
    rcases (h.domain d hd).1 with hhost | ⟨host, port, hhost, hport, rfl⟩
    · refine Or.inl ⟨by simpa using hhost.colon_notMem, ?_, by simp [nameText], by simp [tagText]⟩
      simp [nameText, hhost.colon_notMem, hpath]
    · exact Or.inr ⟨host, port, hhost, hport, rfl, by simp [nameText, tagText]⟩

/-- Behind its host, a reference with a port is one without a domain. -/
theorem Grammatical.parse_behind_host (h : p.Grammatical) (htag : p.tag = some tag)
    (hdomain : p.domain = some (host ++ ':' :: port)) (hport : Grammar.Port port) :
    parse (String.ofList (port ++ '/' :: p.path ++ ':' :: tag)) =
      .ok ⟨defaultRegistry, String.ofList port ++ "/" ++ p.repository, some (String.ofList tag), none⟩ := by
  -- The port becomes the first component: with digits alone it is taken for no domain.
  let q : Spelling := ⟨none, port :: p.components, some tag, none⟩
  have hpath : q.path = port ++ '/' :: p.path := by
    obtain ⟨c, cs, hcs⟩ := List.exists_cons_of_ne_nil h.ne_nil
    simp only [q, path, hcs, List.intercalate_cons_cons, List.append_assoc, List.singleton_append]
  have hlength : (String.ofList q.name).utf8ByteSize ≤ 255 := by
    refine Nat.le_trans (Bytes.utf8ByteSize_le_of_sublist ?_) h.length
    have hname : p.name = (host ++ [':']) ++ q.name := by
      simp [name, hdomain, nameText, q, hpath]
    rw [String.toList_ofList, String.toList_ofList, hname]
    exact List.sublist_append_right _ _
  have hwell : q.WellFormed :=
    { domain := by rintro _ ⟨⟩
      ne_nil := List.cons_ne_nil _ _
      components := List.forall_mem_cons.mpr ⟨hport.component, h.components⟩
      first := by
        intro _ c d cs heq
        obtain ⟨rfl, -⟩ := List.cons.inj heq
        exact ⟨fun hdot => hport.not_domainLike (Or.inl hdot), fun hlocal => hport.not_domainLike (Or.inr (Or.inr hlocal))⟩
      tag := by
        rintro _ ⟨⟩
        exact h.tag tag htag
      digest := by rintro _ ⟨⟩ }
  have htext : q.text = (String.ofList (port ++ '/' :: p.path ++ ':' :: tag)).toList := by
    rw [String.toList_ofList, text, name, hpath]
    simp [q, nameText, tagText, digestText]
  have hrepository : p.repository = String.ofList p.path := by
    refine if_neg fun hofficial => ?_
    have hcolon : ':' ∉ p.registry.toList := hofficial.1 ▸ by decide
    exact hcolon (by simp [registry, hdomain])
  have hmany : q.repository = String.ofList port ++ "/" ++ p.repository := by
    rw [hrepository, repository, hpath, if_neg fun hone => h.ne_nil (by simpa [q] using hone.2)]
    simp [String.append_assoc]
  rw [Grammatical.parse_eq ⟨hwell, hlength⟩ htext, reference, hmany]
  simp [q, registry]

end Spelling

namespace Reference
variable {r named : Reference} {text tag word : String}

/-- A word is read as an official image. -/
theorem parse_word_iff (hat : '@' ∉ word.toList) (hcolon : ':' ∉ word.toList) (hslash : '/' ∉ word.toList)
    (hlength : word.utf8ByteSize ≤ 255) : parse word = .ok named ↔
      Grammar.Component word.toList ∧ named = ⟨defaultRegistry, officialFolder ++ word, none, none⟩ := by
  have huntagged : splitTag word.toList = (word.toList, none) := splitTag_nameText hcolon none
  have hbare : splitDomain word.toList = (none, word.toList) := by
    rw [splitDomain, Text.cutFirst_eq_none_iff.mpr hslash]
  have htext : Spelling.ofText word.toList = ⟨none, [word.toList], none, none⟩ := by
    unfold Spelling.ofText
    simp only [splitDigest_of_notMem hat, huntagged, hbare, Text.pieces_of_not_mem hslash]
  have hpath : Spelling.path ⟨none, [word.toList], none, none⟩ = word.toList := List.intercalate_singleton ..
  have hreference : Spelling.reference ⟨none, [word.toList], none, none⟩ =
      ⟨defaultRegistry, officialFolder ++ word, none, none⟩ := by
    simp [Spelling.reference, Spelling.repository, Spelling.registry, hpath]
  rw [Spelling.parse_eq_ok_iff, htext, hreference]
  constructor
  · rintro ⟨hp, rfl⟩
    exact ⟨hp.components _ (List.mem_singleton_self _), rfl⟩
  · rintro ⟨hword, rfl⟩
    refine ⟨⟨⟨by simp, by simp, by simpa using hword, by simp, by simp, by simp⟩, ?_⟩, rfl⟩
    rwa [Spelling.name, nameText, hpath, String.ofList_toList]

/-- What a tagged reference is read as behind its first colon: its repository in a folder that is called like the port,
    or else an official image that is called like the tag. -/
def behindColon (r : Reference) (tag : String) : Reference :=
  match Text.cutFirst ':' r.registry.toList with
  | some (_, port) => ⟨defaultRegistry, String.ofList port ++ "/" ++ r.repository, some tag, none⟩
  | none => ⟨defaultRegistry, officialFolder ++ tag, some defaultTag, none⟩

/-- There is a reference behind the first colon of a tagged one. -/
def ReadsBehindColon (r : Reference) (tag : String) : Prop :=
  r.digest = none ∧ (':' ∈ r.registry.toList ∨ Grammar.Component tag.toList)

theorem behindColon_of_port {host port : List Char} (hhost : ':' ∉ host)
    (hregistry : r.registry.toList = host ++ ':' :: port) :
    r.behindColon tag = ⟨defaultRegistry, String.ofList port ++ "/" ++ r.repository, some tag, none⟩ := by
  unfold behindColon
  rw [hregistry, Text.cutFirst_append hhost]

theorem behindColon_of_no_port (hregistry : ':' ∉ r.registry.toList) :
    r.behindColon tag = ⟨defaultRegistry, officialFolder ++ tag, some defaultTag, none⟩ := by
  unfold behindColon
  rw [Text.cutFirst_eq_none_iff.mpr hregistry]

end Reference

namespace Spelling
open Reference
variable {p : Spelling} {t : List Char}

/-- A tagged reference is cut at its first colon into a path, and what is read as another reference if it is any. -/
theorem Grammatical.cut_at_colon (hp : p.Grammatical) (ht : p.tag = some t) :
    ∃ path back named, path ≠ [] ∧ '@' ∉ back ∧ Text.cutFirst ':' p.text = some (path, back ++ digestText p.digest) ∧
      (∀ r, parse (String.ofList back) = .ok r ↔ (':' ∈ p.registry.toList ∨ Grammar.Component t) ∧ r = named) ∧
      named.digest = none ∧ { named with tag := some named.effectiveTag } = p.reference.behindColon (String.ofList t) := by
  have hword := hp.tag t ht
  have hno (c : Char) (hc : ¬(Grammar.Lower c ∨ Grammar.Upper c ∨ Grammar.Digit c ∨ c = '_' ∨ c = '.' ∨ c = '-')) :
      c ∉ (String.ofList t).toList := by
    rw [String.toList_ofList]
    exact mt (hword.chars c) hc
  have hat : '@' ∉ t := mt (hword.chars '@') (by decide)
  rcases hp.text_cases ht with ⟨hregistry, hname, hne, htext⟩ | ⟨host, port, hhost, hport, hdomain, htext⟩
  · have hlength : (String.ofList t).utf8ByteSize ≤ 255 := Grammar.Tag.utf8ByteSize_le (by simpa using hword)
    refine ⟨p.name, t, ⟨defaultRegistry, officialFolder ++ String.ofList t, none, none⟩, hne, hat, ?_, fun r => ?_, rfl, ?_⟩
    · rw [htext, Text.cutFirst_append hname]
    · rw [parse_word_iff (hno '@' (by decide)) (hno ':' (by decide)) (hno '/' (by decide)) hlength, String.toList_ofList,
        or_iff_right hregistry]
    · exact (behindColon_of_no_port (r := p.reference) hregistry).symm
  · have hregistry : p.registry.toList = host ++ ':' :: port := by simp [registry, hdomain]
    have hpath : '@' ∉ p.path := hp.notMem_path (by decide) (by decide)
    refine ⟨host, port ++ '/' :: p.path ++ ':' :: t,
      ⟨defaultRegistry, String.ofList port ++ "/" ++ p.repository, some (String.ofList t), none⟩, ?_, ?_, ?_, fun r => ?_,
      rfl, ?_⟩
    · rintro rfl
      exact Grammar.not_host_nil hhost
    · simp [mt (hport.2 '@') (by decide), hpath, hat]
    · rw [htext, Text.cutFirst_append hhost.colon_notMem]
    · rw [hp.parse_behind_host ht hdomain hport, Except.ok.injEq, eq_comm, and_iff_right (Or.inl (by simp [hregistry]))]
    · exact (behindColon_of_port (r := p.reference) hhost.colon_notMem hregistry).symm

end Spelling

/-! ### Archives -/

namespace Destination
variable {text tag : String} {r named : Reference} {d : Destination} {location path back digest : List Char}

theorem archiveReference_of_parse (h : Reference.parse (String.ofList back) = .ok named) (hdigest : named.digest = none) :
    archiveReference location back = .ok { named with tag := some named.effectiveTag } := by
  unfold archiveReference
  rw [h]
  exact if_neg (by simp [hdigest])

/-- An archive knows no image by its digest. -/
theorem archiveReference_digest_ne (hat : '@' ∉ back) : archiveReference location (back ++ '@' :: digest) ≠ .ok r := by
  intro h
  obtain ⟨named, hnamed, hnone, -⟩ := archiveReference_eq_ok h
  have htext : String.ofList (back ++ '@' :: digest) = String.ofList back ++ "@" ++ String.ofList digest := by
    rw [← String.toList_inj]
    simp
  rw [htext, Reference.parse_digest_iff (by rwa [String.toList_ofList])] at hnamed
  obtain ⟨-, _, -, rfl⟩ := hnamed
  cases hnone

theorem parseArchive_iff_of_cut (hcut : Text.cutFirst ':' location = some (path, back)) (hpath : path ≠ []) :
    parseArchive location = .ok d ↔
      ∃ r, archiveReference location back = .ok r ∧ d = .archive (String.ofList path) (some r) := by
  unfold parseArchive
  rw [hcut]
  dsimp only
  rw [parsePath, if_neg hpath]
  dsimp only
  rw [map_eq_ok_iff]
  exact exists_congr fun r => and_congr_right fun _ => eq_comm

/-- What stands behind the first colon has to be a reference without a digest. -/
theorem parseArchive_iff_of_parse {digest : Option (List Char)} {P : Prop}
    (hcut : Text.cutFirst ':' location = some (path, back ++ Reference.digestText digest)) (hpath : path ≠ [])
    (hat : '@' ∉ back) (hread : ∀ r, Reference.parse (String.ofList back) = .ok r ↔ P ∧ r = named)
    (hnone : named.digest = none) : parseArchive location = .ok d ↔
      (digest = none ∧ P) ∧ d = .archive (String.ofList path) (some { named with tag := some named.effectiveTag }) := by
  rw [parseArchive_iff_of_cut hcut hpath]
  cases digest with
  | some digest =>
    refine iff_of_false ?_ (by simp)
    rintro ⟨r, hr, -⟩
    exact archiveReference_digest_ne hat hr
  | none =>
    rw [Reference.digestText, List.append_nil]
    constructor
    · rintro ⟨r, hr, rfl⟩
      obtain ⟨x, hx, -, rfl⟩ := archiveReference_eq_ok hr
      obtain ⟨hP, rfl⟩ := (hread x).mp hx
      exact ⟨⟨rfl, hP⟩, rfl⟩
    · rintro ⟨⟨-, hP⟩, rfl⟩
      exact ⟨_, archiveReference_of_parse ((hread named).mpr ⟨hP, rfl⟩) hnone, rfl⟩

/-- A tagged reference names an archive if there is a reference behind its first colon, and then this one in it. -/
theorem parseArchive_tagged (h : Reference.parse text = .ok r) (htag : r.tag = some tag) :
    ∃ path back, Text.cutFirst ':' text.toList = some (path, back) ∧ ∀ d, parseArchive text.toList = .ok d ↔
      r.ReadsBehindColon tag ∧ d = .archive (String.ofList path) (some (r.behindColon tag)) := by
  obtain ⟨hp, rfl⟩ := Spelling.parse_eq_ok_iff.mp h
  have htext := Spelling.text_ofText text.toList
  generalize Spelling.ofText text.toList = p at hp htext htag
  obtain ⟨t, ht, rfl⟩ := Option.map_eq_some_iff.mp htag
  obtain ⟨path, back, named, hpath, hat, hcut, hread, hnone, hnamed⟩ := hp.cut_at_colon ht
  have hdigest : p.reference.digest = none ↔ p.digest = none := Option.map_eq_none_iff
  rw [← htext, Reference.ReadsBehindColon, hdigest, String.toList_ofList, ← hnamed]
  exact ⟨path, _, hcut, fun d => parseArchive_iff_of_parse hcut hpath hat hread hnone⟩

theorem parse_ne_ok_of_plain {transports : List Transport}
    (hplain : ∀ t : Transport, ¬(t.name ++ ":").toList <+: text.toList) : parse transports text ≠ .ok d := by
  intro h
  obtain ⟨-, location, htext, -⟩ := text_of_parse h
  exact hplain d.transport ⟨location, by simp [htext]⟩

/-- A text that begins with no transport is an archive, where these are the default, exactly if it is one behind their
    lead. -/
theorem resolve_plain_iff {transports : List Transport} {res : Resolution} (hknown : .dockerArchive ∈ transports)
    (hplain : ∀ t : Transport, ¬(t.name ++ ":").toList <+: text.toList) :
    resolve transports .dockerArchive text = .ok res ↔ ∃ d, parseArchive text.toList = .ok d ∧ res = .defaulted d := by
  have hlead : (Transport.lead .dockerArchive ++ text).toList =
      Transport.dockerArchive.name.toList ++ ':' :: text.toList := by
    simp [Transport.lead, Transport.name]
  have hparse : parse transports (Transport.lead .dockerArchive ++ text) = parseArchive text.toList :=
    parse_of_known hknown hlead
  rw [resolve_unled_iff fun d => parse_ne_ok_of_plain hplain, hparse]

end Destination

/-! ### Names -/

namespace Reference
variable {r : Reference} {tag : String}

/-- The short name of what is read behind the first colon. -/
def nameBehindColon (r : Reference) (tag : String) : String :=
  Tagged.familiar ⟨(r.behindColon tag).name, (r.behindColon tag).effectiveTag⟩

/-- The names that an archive gets for a tagged reference: its own, and the one behind its first colon. -/
def namesOfDefaulted (r : Reference) (tag : String) : List String :=
  if r.nameBehindColon tag = Tagged.familiar ⟨r.name, tag⟩ then [Tagged.familiar ⟨r.name, tag⟩]
  else [Tagged.familiar ⟨r.name, tag⟩, r.nameBehindColon tag]

theorem givenNames_behindColon (r : Reference) (tag : String) :
    Destination.givenNames (some (r.behindColon tag)) = [r.nameBehindColon tag] := by
  have htag : (r.behindColon tag).tag = some (r.behindColon tag).effectiveTag := by
    unfold behindColon
    split <;> rfl
  simp [Destination.givenNames, tagged?, htag, nameBehindColon]

theorem ownNames_eq {text : String} (h : parse text = .ok r) (htag : r.tag = some tag) :
    Destination.ownNames text = [Tagged.familiar ⟨r.name, tag⟩] := by
  simp [Destination.ownNames, h, tagged?, htag]

theorem append_givenNames_behindColon {text : String} (h : parse text = .ok r) (htag : r.tag = some tag) :
    Destination.ownNames text ++ (Destination.givenNames (some (r.behindColon tag))).filter (· ∉ Destination.ownNames text) =
      r.namesOfDefaulted tag := by
  rw [ownNames_eq h htag, givenNames_behindColon, namesOfDefaulted]
  split
  · next heq => simp [heq]
  · next hne => simp [hne]

theorem familiar_eq_iff {name name' tag' : String} (htag : ':' ∉ tag.toList) (htag' : ':' ∉ tag'.toList) :
    Tagged.familiar ⟨name, tag⟩ = Tagged.familiar ⟨name', tag'⟩ ↔
      Tagged.familiarName name = Tagged.familiarName name' ∧ tag = tag' := by
  constructor
  · intro h
    have hcut : Text.cutLast ':' (Tagged.familiar ⟨name, tag⟩).toList =
        Text.cutLast ':' (Tagged.familiar ⟨name', tag'⟩).toList := by
      rw [h]
    rw [toList_familiar, toList_familiar, Text.cutLast_append htag, Text.cutLast_append htag'] at hcut
    obtain ⟨hname, htags⟩ := Prod.mk.inj (Option.some.inj hcut)
    exact ⟨String.toList_injective hname, String.toList_injective htags⟩
  · rintro ⟨hname, rfl⟩
    rw [Tagged.familiar, Tagged.familiar, hname]

/-- The port is a part of one name only. -/
theorem familiarName_behindColon_ne (h : r.IsGrammatical) (hregistry : ':' ∈ r.registry.toList) :
    Tagged.familiarName (r.behindColon tag).name ≠ Tagged.familiarName r.name := by
  have hother : r.registry ≠ defaultRegistry := fun heq => absurd (heq ▸ hregistry) (by decide)
  rcases h.registry.1 with hhost | ⟨host, port, hhost, hport, hdomain⟩
  · exact absurd hregistry hhost.colon_notMem
  · rw [familiarName_of_registry h.registry hother, behindColon_of_port hhost.colon_notMem hdomain]
    intro heq
    have hsub := (familiarName_suffix
      (Reference.name ⟨defaultRegistry, String.ofList port ++ "/" ++ r.repository, some tag, none⟩)).subset
    rw [heq, toList_name, toList_name] at hsub
    have hmem := hsub (List.mem_append_left _ hregistry)
    have hport' : ':' ∉ port := mt (hport.2 ':') (by decide)
    have hdefault : ':' ∉ defaultRegistry.toList := by decide
    simp [hport', hdefault, h.notMem_repository.2] at hmem

theorem familiarName_eq_latest_iff (h : r.IsGrammatical) :
    Tagged.familiarName r.name = "latest" ↔ r.name = "docker.io/library/latest" := by
  constructor
  · intro hlatest
    have hslash : '/' ∉ (Tagged.familiarName r.name).toList := by simp [hlatest]
    by_cases hregistry : r.registry = defaultRegistry
    · by_cases hofficial : ∃ short, r.repository.toList = officialFolder.toList ++ short ∧ '/' ∉ short
      · obtain ⟨short, hrepository, hshort⟩ := hofficial
        rw [familiarName_of_official hregistry hshort hrepository, ← String.toList_inj, String.toList_ofList] at hlatest
        apply String.toList_injective
        rw [toList_defaultName hregistry, hrepository, hlatest]
        decide
      · have hfolder := familiarName_of_folder hregistry fun short hshort =>
          Decidable.of_not_not fun hno => hofficial ⟨short, hshort, hno⟩
        exact absurd (h.official hregistry) (hfolder ▸ hslash)
    · rw [familiarName_of_registry h.registry hregistry, toList_name] at hslash
      exact absurd (by simp) hslash
  · intro hname
    rw [hname]
    decide

/-- The two names are one for the official image that is called like the default tag, with this tag. -/
theorem namesOfDefaulted_eq_singleton_iff (h : r.IsGrammatical) (htag : Grammar.Tag tag.toList) :
    r.namesOfDefaulted tag = [Tagged.familiar ⟨r.name, tag⟩] ↔ r.name = "docker.io/library/latest" ∧ tag = "latest" := by
  have hcolon : ':' ∉ tag.toList := mt (htag.chars ':') (by decide)
  have hslash : '/' ∉ tag.toList := mt (htag.chars '/') (by decide)
  have hone : r.namesOfDefaulted tag = [Tagged.familiar ⟨r.name, tag⟩] ↔
      r.nameBehindColon tag = Tagged.familiar ⟨r.name, tag⟩ := by
    unfold namesOfDefaulted
    split
    · next heq => simp [heq]
    · next hne => simp [hne]
  rw [hone, nameBehindColon]
  -- The first colon is the one before the tag, or that of a port, which leaves the name without its host.
  cases hcut : Text.cutFirst ':' r.registry.toList with
  | none =>
    have hregistry := Text.cutFirst_eq_none_iff.mp hcut
    have hofficial : Tagged.familiarName (r.behindColon tag).name = tag := by
      have hrepository : (officialFolder ++ tag).toList = officialFolder.toList ++ tag.toList := String.toList_append
      rw [behindColon_of_no_port hregistry]
      have hshort := familiarName_of_official (r := ⟨defaultRegistry, officialFolder ++ tag, some defaultTag, none⟩) rfl
        hslash hrepository
      rw [hshort, String.ofList_toList]
    have hlatest : (r.behindColon tag).effectiveTag = defaultTag := by
      rw [behindColon_of_no_port hregistry]
      rfl
    rw [hlatest, familiar_eq_iff (by decide) hcolon, hofficial]
    constructor
    · rintro ⟨hname, rfl⟩
      exact ⟨(familiarName_eq_latest_iff h).mp hname.symm, rfl⟩
    · rintro ⟨hname, rfl⟩
      exact ⟨((familiarName_eq_latest_iff h).mpr hname).symm, rfl⟩
  | some cut =>
    obtain ⟨hregistry, hhost⟩ := Text.cutFirst_eq_some_iff.mp hcut
    have hport : ':' ∈ r.registry.toList := by simp [hregistry]
    have htags : (r.behindColon tag).effectiveTag = tag := by
      rw [behindColon_of_port hhost hregistry]
      rfl
    rw [htags, familiar_eq_iff hcolon hcolon]
    refine iff_of_false (fun hsame => familiarName_behindColon_ne h hport hsame.1) ?_
    rintro ⟨hname, -⟩
    have hmem : ':' ∈ r.name.toList := by simp [toList_name, hport]
    exact absurd (hname ▸ hmem) (by decide)

end Reference

namespace Pusher
variable {τ : Type} {p : Pusher τ} {t t' : PushState τ} {image : LocalImage} {text tag : String} {options : PushOptions}
variable {s : Store} {agent : Registry.Agent} {r : Reference} {manifest : Bytes}

/-- Where archives are the default, a tagged reference that begins with no transport denotes the archive at the path
    before its first colon if there is a reference behind this colon, and nothing otherwise. -/
theorem resolve_default_archive (hknown : .dockerArchive ∈ p.transports) (hdefault : p.defaultTransport = .dockerArchive)
    (hread : Reference.parse text = .ok r) (htag : r.tag = some tag)
    (hplain : ∀ t : Transport, ¬(t.name ++ ":").toList <+: text.toList) :
    ∃ path back, Text.cutFirst ':' text.toList = some (path, back) ∧ ∀ res,
      Destination.resolve p.transports p.defaultTransport text = .ok res ↔
        r.ReadsBehindColon tag ∧ res = .defaulted (.archive (String.ofList path) (some (r.behindColon tag))) := by
  obtain ⟨path, back, hcut, harchive⟩ := Destination.parseArchive_tagged hread htag
  refine ⟨path, back, hcut, fun res => ?_⟩
  rw [hdefault, Destination.resolve_plain_iff hknown hplain]
  simp only [harchive, and_assoc, exists_and_left, exists_eq_left]

/-- An archive that is written for a tagged reference has both names of it. -/
theorem names_of_resolved {path : String} (hengine : p.engine = Copy.engine s agent)
    (hread : Reference.parse text = .ok r) (htag : r.tag = some tag)
    (hresolve : ∀ res, Destination.resolve p.transports p.defaultTransport text = .ok res →
      res = .defaulted (.archive path (some (r.behindColon tag))))
    (hpush : p.pushImage image text options t = (.ok manifest, t')) : ∃ job t₁,
      p.jobFor t.host.disk image text options = .ok job ∧ p.runEngine job (asked t) = (.ok manifest, t₁) ∧
        Archive.Names t₁.host.disk path (r.namesOfDefaulted tag) := by
  obtain ⟨job, t₁, hjob, hrun⟩ := pushImage_ok hpush
  have hplace := (jobFor_eq_ok hjob).2.1
  have harchive : p.destinationOf text = .ok (.archive path (some (r.behindColon tag))) := by
    unfold destinationOf at hplace ⊢
    split at hplace
    · next res hres =>
      rw [hresolve res hres]
      rfl
    · cases hplace
  rw [← Reference.append_givenNames_behindColon hread htag]
  exact names_of_destination hengine harchive hpush

/-- A tagged reference that begins with no transport is pushed, where archives are the default, to an archive at the path
    before its first colon, if it has no digest and another reference stands behind this colon. The archive has the short
    name that was asked for, and then the one of this reference; they are the same for one reference only. -/
theorem names_of_default_archive (hengine : p.engine = Copy.engine s agent) (hknown : ∀ t, t ∈ p.transports)
    (hdefault : p.defaultTransport = .dockerArchive) (hread : Reference.parse text = .ok r) (htag : r.tag = some tag)
    (hplain : ∀ t : Transport, ¬(t.name ++ ":").toList <+: text.toList) :
    ∃ path back, Text.cutFirst ':' text.toList = some (path, back) ∧
      (∀ res, Destination.resolve p.transports p.defaultTransport text = .ok res ↔
        r.ReadsBehindColon tag ∧ res = .defaulted (.archive (String.ofList path) (some (r.behindColon tag)))) ∧
      (∀ image options t manifest t', p.pushImage image text options t = (.ok manifest, t') → ∃ job t₁,
        p.jobFor t.host.disk image text options = .ok job ∧ p.runEngine job (asked t) = (.ok manifest, t₁) ∧
          Archive.Names t₁.host.disk (String.ofList path) (r.namesOfDefaulted tag)) ∧
      (r.namesOfDefaulted tag = [Tagged.familiar ⟨r.name, tag⟩] ↔ r.name = "docker.io/library/latest" ∧ tag = "latest") := by
  have hr := Reference.isGrammatical_of_parse hread
  obtain ⟨path, back, hcut, hresolve⟩ := resolve_default_archive (hknown .dockerArchive) hdefault hread htag hplain
  refine ⟨path, back, hcut, hresolve, fun image options t manifest t' hpush => ?_,
    Reference.namesOfDefaulted_eq_singleton_iff hr (hr.tag tag htag)⟩
  exact names_of_resolved hengine hread htag (fun res hres => ((hresolve res).mp hres).2) hpush

/-! ### A store with archives for the default -/

/-- A push out of the store with one image, to archives unless something else is asked for. -/
def archivePusher : Pusher Unit := { barePusher with defaultTransport := .dockerArchive }

theorem engine_archivePusher : archivePusher.engine = Copy.engine ⟨"/depot"⟩ ⟨"depot", by decide⟩ := by
  rw [archivePusher, barePusher]

/-- The push of the image to an archive, if nothing else is asked for. -/
def archivePush (text : String) : Except Error Bytes × PushState Unit :=
  archivePusher.pushImage ⟨bareImage, ⟨"/depot"⟩⟩ text ⟨false, ⟨false, false, true⟩⟩ bareState

theorem names_of_localhost_port :
    Destination.resolve archivePusher.transports archivePusher.defaultTransport "localhost:5000/app:v1" =
        .ok (.defaulted (.archive "localhost" (some ⟨"docker.io", "5000/app", some "v1", none⟩))) ∧
      ∃ manifest t', archivePush "localhost:5000/app:v1" = (.ok manifest, t') ∧
        ∃ job t₁, archivePusher.runEngine job (asked bareState) = (.ok manifest, t₁) ∧
          Archive.Names t₁.host.disk "localhost" ["localhost:5000/app:v1", "5000/app:v1"] := by
  let r : Reference := ⟨"localhost:5000", "app", some "v1", none⟩
  have hread : Reference.parse "localhost:5000/app:v1" = .ok r := by rfl
  have htag : r.tag = some "v1" := rfl
  have hplain (t : Transport) : ¬(t.name ++ ":").toList <+: "localhost:5000/app:v1".toList := by cases t <;> decide
  have hcut : Text.cutFirst ':' "localhost:5000/app:v1".toList = some ("localhost".toList, "5000/app:v1".toList) := by decide
  have hother : r.behindColon "v1" = ⟨"docker.io", "5000/app", some "v1", none⟩ := by decide
  have hboth : r.namesOfDefaulted "v1" = ["localhost:5000/app:v1", "5000/app:v1"] := by decide
  obtain ⟨path, back, hcut', hresolve, hnames, -⟩ :=
    names_of_default_archive engine_archivePusher Transport.mem_all rfl hread htag hplain
  obtain ⟨rfl, rfl⟩ := Prod.mk.inj (Option.some.inj (hcut'.symm.trans hcut))
  rw [String.ofList_toList, hother] at hresolve
  rw [String.ofList_toList, hboth] at hnames
  have hok : (archivePush "localhost:5000/app:v1").1.isOk = true := by decide +kernel
  refine ⟨(hresolve _).mpr ⟨⟨rfl, Or.inl (by decide)⟩, rfl⟩, ?_⟩
  rcases hpush : archivePush "localhost:5000/app:v1" with ⟨_ | manifest, t'⟩
  · rw [hpush] at hok
    cases hok
  · obtain ⟨job, t₁, -, hrun, hdisk⟩ := hnames _ _ _ _ _ hpush
    exact ⟨manifest, t', rfl, job, t₁, hrun, hdisk⟩

/-- The archive of a name without a port is called like the tag as well, and with a tag that no image can have for a name
    there is no archive. -/
theorem names_of_app_tag : (∃ manifest t', archivePush "app:v1" = (.ok manifest, t') ∧
      ∃ job t₁, archivePusher.runEngine job (asked bareState) = (.ok manifest, t₁) ∧
        Archive.Names t₁.host.disk "app" ["app:v1", "v1:latest"]) ∧
    Reference.parse "app:V1" = .ok ⟨"docker.io", "library/app", some "V1", none⟩ ∧
      ∃ e, archivePusher.destinationOf "app:V1" = .error e := by
  let r : Reference := ⟨"docker.io", "library/app", some "v1", none⟩
  have hread : Reference.parse "app:v1" = .ok r := by rfl
  have hresolve : Destination.resolve archivePusher.transports archivePusher.defaultTransport "app:v1" =
      .ok (.defaulted (.archive "app" (some (r.behindColon "v1")))) := by
    rw [show r.behindColon "v1" = ⟨"docker.io", "library/v1", some "latest", none⟩ by decide]
    rfl
  have hboth : r.namesOfDefaulted "v1" = ["app:v1", "v1:latest"] := by decide
  have hok : (archivePush "app:v1").1.isOk = true := by decide +kernel
  refine ⟨?_, by rfl, _, by rfl⟩
  rcases hpush : archivePush "app:v1" with ⟨_ | manifest, t'⟩
  · rw [hpush] at hok
    cases hok
  · obtain ⟨job, t₁, -, hrun, hnames⟩ := names_of_resolved engine_archivePusher hread rfl
      (fun res hres => Except.ok.inj (hres.symm.trans hresolve)) hpush
    rw [hboth] at hnames
    exact ⟨manifest, t', rfl, job, t₁, hrun, hnames⟩

end Pusher
end Depot
