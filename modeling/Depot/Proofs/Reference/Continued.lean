import Depot.Proofs.Reference.Readings

/-! Texts that are continued. Behind a text with neither a colon nor an `@`, a colon and a tag are read as the tag of what
    the text names; what stands behind an `@` is read as a digest, whatever it was meant to be. A text in which a
    colon stands right before the first slash is no reference. -/

namespace Depot

namespace Spelling
open Reference
variable {p : Spelling} {cs tag digest : List Char}

theorem ofText_tag (hat : '@' ∉ cs) (hcolon : ':' ∉ cs) (htag : Grammar.Tag tag) :
    ofText (cs ++ ':' :: tag) = { ofText cs with tag := some tag } := by
  have hno (c : Char) (hc : ¬(Grammar.Lower c ∨ Grammar.Upper c ∨ Grammar.Digit c ∨ c = '_' ∨ c = '.' ∨ c = '-')) : c ∉ tag :=
    mt (htag.chars c) hc
  have houter : '@' ∉ cs ++ ':' :: tag := by
    rw [List.mem_append, List.mem_cons, not_or, not_or]
    exact ⟨hat, by decide, hno '@' (by decide)⟩
  have htagged := splitTag_append (hno ':' (by decide)) (hno '/' (by decide)) cs
  have huntagged : splitTag cs = (cs, none) := splitTag_nameText hcolon none
  unfold ofText
  simp only [splitDigest_of_notMem houter, splitDigest_of_notMem hat, htagged, huntagged]

theorem ofText_digest (hat : '@' ∉ cs) (digest : List Char) :
    ofText (cs ++ '@' :: digest) = { ofText cs with digest := some digest } := by
  have hdigested := splitDigest_append hat (some digest)
  rw [digestText] at hdigested
  unfold ofText
  simp only [hdigested, splitDigest_of_notMem hat]

theorem ofText_bare (hat : '@' ∉ cs) (hcolon : ':' ∉ cs) : (ofText cs).tag = none ∧ (ofText cs).digest = none := by
  have huntagged : splitTag cs = (cs, none) := splitTag_nameText hcolon none
  unfold ofText
  simp only [splitDigest_of_notMem hat, huntagged, and_self]

theorem grammatical_tag_iff (hnone : p.tag = none) (htag : Grammar.Tag tag) :
    Grammatical { p with tag := some tag } ↔ p.Grammatical := by
  constructor
  · intro h
    exact ⟨{ h.toWellFormed with tag := by simp [hnone] }, h.length⟩
  · intro h
    refine ⟨{ h.toWellFormed with tag := ?_ }, h.length⟩
    rintro _ ⟨⟩
    exact htag

theorem grammatical_digest_iff (hnone : p.digest = none) :
    Grammatical { p with digest := some digest } ↔ p.Grammatical ∧ Grammar.Digest digest := by
  constructor
  · intro h
    exact ⟨⟨{ h.toWellFormed with digest := by simp [hnone] }, h.length⟩, h.digest digest rfl⟩
  · rintro ⟨h, hdigest⟩
    refine ⟨{ h.toWellFormed with digest := ?_ }, h.length⟩
    rintro _ ⟨⟩
    exact hdigest

end Spelling

namespace Reference
variable {text base tag digest : String} {r : Reference}

theorem toList_tagged (base tag : String) : (base ++ ":" ++ tag).toList = base.toList ++ ':' :: tag.toList := by
  simp

/-- A tag behind a bare name is the tag of what the name is read as. -/
theorem parse_tag_iff (hat : '@' ∉ base.toList) (hcolon : ':' ∉ base.toList) (htag : Grammar.Tag tag.toList) :
    parse (base ++ ":" ++ tag) = .ok r ↔ ∃ named, parse base = .ok named ∧ r = { named with tag := some tag } := by
  have hreference : Spelling.reference { Spelling.ofText base.toList with tag := some tag.toList } =
      { (Spelling.ofText base.toList).reference with tag := some tag } := by
    unfold Spelling.reference
    rw [Option.map_some, String.ofList_toList]
    rfl
  simp only [Spelling.parse_eq_ok_iff]
  rw [toList_tagged, Spelling.ofText_tag hat hcolon htag,
    Spelling.grammatical_tag_iff (Spelling.ofText_bare hat hcolon).1 htag, hreference]
  constructor
  · rintro ⟨hp, rfl⟩
    exact ⟨_, ⟨hp, rfl⟩, rfl⟩
  · rintro ⟨named, ⟨hp, rfl⟩, rfl⟩
    exact ⟨hp, rfl⟩

theorem bare_of_parse (hat : '@' ∉ base.toList) (hcolon : ':' ∉ base.toList) (h : parse base = .ok r) :
    r.tag = none ∧ r.digest = none := by
  obtain ⟨-, rfl⟩ := Spelling.parse_eq_ok_iff.mp h
  obtain ⟨htag, hdigest⟩ := Spelling.ofText_bare hat hcolon
  exact ⟨congrArg (Option.map String.ofList) htag, congrArg (Option.map String.ofList) hdigest⟩

/-- What stands behind the first `@` is the digest of what is read before it. -/
theorem parse_digest_iff (hat : '@' ∉ base.toList) : parse (base ++ "@" ++ digest) = .ok r ↔
    Grammar.Digest digest.toList ∧ ∃ named, parse base = .ok named ∧ r = { named with digest := some digest } := by
  have htext : (base ++ "@" ++ digest).toList = base.toList ++ '@' :: digest.toList := by simp
  have hnone : (Spelling.ofText base.toList).digest = none := congrArg Prod.snd (splitDigest_of_notMem hat)
  have hreference : Spelling.reference { Spelling.ofText base.toList with digest := some digest.toList } =
      { (Spelling.ofText base.toList).reference with digest := some digest } := by
    unfold Spelling.reference
    rw [Option.map_some, String.ofList_toList]
    rfl
  simp only [Spelling.parse_eq_ok_iff]
  rw [htext, Spelling.ofText_digest hat, Spelling.grammatical_digest_iff hnone, hreference]
  constructor
  · rintro ⟨⟨hp, hdigest⟩, rfl⟩
    exact ⟨hdigest, _, ⟨hp, rfl⟩, rfl⟩
  · rintro ⟨hdigest, named, ⟨hp, rfl⟩, rfl⟩
    exact ⟨⟨hp, hdigest⟩, rfl⟩

/-! ### Colons before slashes -/

theorem Grammar.not_address_of_colon {cs : List Char} : ¬Grammar.Address (cs ++ [':']) := by
  rintro (hhost | ⟨host, port, -, ⟨hne, hdigits⟩, heq⟩)
  · exact absurd (hhost.chars ':' (by simp)) (by decide)
  · -- The colon would be the last digit of the port.
    have hlast : port.getLast hne = ':' := by
      have hends := congrArg List.getLast? heq
      rw [List.getLast?_concat, List.getLast?_append, List.getLast?_cons, List.getLast?_eq_some_getLast hne] at hends
      exact (Option.some.inj hends).symm
    exact absurd (hdigits _ (List.getLast_mem hne)) (by rw [hlast]; decide)

/-- No port is empty: a text in which a colon stands right before the first slash is no reference. -/
theorem parse_ne_ok_of_colon_slash {first rest : List Char} (hfirst : '/' ∉ first)
    (htext : text.toList = first ++ ':' :: '/' :: rest) : parse text ≠ .ok r := by
  intro h
  obtain ⟨hp, -⟩ := Spelling.parse_eq_ok_iff.mp h
  have hdomain : '/' ∉ first ++ [':'] := by simpa using hfirst
  -- With its colon, what stands before the slash looks like a domain, and it is none.
  have hlooks : looksLikeDomain (first ++ [':']) = true := Grammar.looksLikeDomain_iff.mpr (Or.inr (Or.inl (by simp)))
  have htext' : (Spelling.ofText text.toList).text = (first ++ [':']) ++ '/' :: rest := by
    rw [Spelling.text_ofText, htext, List.append_assoc]
    rfl
  obtain ⟨back, hname, -⟩ := hp.name_of_text hdomain htext'
  have hsplit := Spelling.splitDomain_name_ofText text.toList
  rw [hname, splitDomain_of_domain hdomain hlooks] at hsplit
  obtain ⟨hd, -⟩ := Prod.mk.inj hsplit
  exact Grammar.not_address_of_colon (hp.domain _ hd.symm).1

end Reference
end Depot
