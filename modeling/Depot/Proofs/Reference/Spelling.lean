import Depot.Proofs.Reference.Scanning

/-! How a reference is spelled: a domain if there is one, path components, and optionally a tag and a digest. The parser
    reads exactly the texts that are spelled in the grammar, each as the reference of its spelling, and a text has one
    spelling at most: cutting a text that is spelled so gives its parts back. -/

namespace Depot

namespace Text
variable {sep : Char} {a b : List Char}

/-- Behind its last separator a text may go on. -/
theorem cutLast_append_right (h : sep ∉ b) : cutLast sep (a ++ b) = (cutLast sep a).map fun p => (p.1, p.2 ++ b) := by
  cases hcut : cutLast sep a with
  | none =>
    rw [cutLast_eq_none_iff] at hcut
    rw [Option.map_none, cutLast_eq_none_iff, List.mem_append, not_or]
    exact ⟨hcut, h⟩
  | some p =>
    obtain ⟨heq, hp⟩ := cutLast_eq_some_iff.mp hcut
    rw [heq, List.append_assoc, List.cons_append]
    refine cutLast_append ?_
    rw [List.mem_append, not_or]
    exact ⟨hp, h⟩

theorem length_pieces_eq_one_iff : (pieces sep a).length = 1 ↔ sep ∉ a := by
  constructor
  · intro hone hmem
    obtain ⟨front, back, rfl, hfront⟩ := List.eq_append_cons_of_mem hmem
    rw [pieces_append hfront, List.length_cons, Nat.add_eq_right, List.length_eq_zero_iff] at hone
    exact pieces_ne_nil sep back hone
  · intro h
    rw [pieces_of_not_mem h, List.length_singleton]

end Text

namespace Reference
variable {text : String} {r : Reference} {cs name path : List Char}

/-! ### Cutting and joining -/

/-- A tag behind its colon. -/
def tagText : Option (List Char) → List Char
  | none => []
  | some t => ':' :: t

/-- A digest behind its sign. -/
def digestText : Option (List Char) → List Char
  | none => []
  | some d => '@' :: d

/-- A name of a domain and a path. -/
def nameText : Option (List Char) → List Char → List Char
  | none, path => path
  | some d, path => d ++ '/' :: path

theorem splitDigest_eq (cs : List Char) :
    (splitDigest cs).1 ++ digestText (splitDigest cs).2 = cs ∧ '@' ∉ (splitDigest cs).1 := by
  unfold splitDigest
  split
  · next h =>
    obtain ⟨rfl, hno⟩ := Text.cutFirst_eq_some_iff.mp h
    exact ⟨rfl, hno⟩
  · next h => exact ⟨List.append_nil cs, Text.cutFirst_eq_none_iff.mp h⟩

theorem splitDigest_append (h : '@' ∉ cs) (digest : Option (List Char)) :
    splitDigest (cs ++ digestText digest) = (cs, digest) := by
  unfold splitDigest
  cases digest with
  | none => rw [digestText, List.append_nil, Text.cutFirst_eq_none_iff.mpr h]
  | some d => rw [digestText, Text.cutFirst_append h]

theorem splitDigest_of_notMem (h : '@' ∉ cs) : splitDigest cs = (cs, none) := by
  have happend := splitDigest_append h none
  rwa [digestText, List.append_nil] at happend

theorem splitTag_eq (cs : List Char) : (splitTag cs).1 ++ tagText (splitTag cs).2 = cs := by
  unfold splitTag
  split
  · next h =>
    obtain ⟨rfl, -⟩ := Text.cutLast_eq_some_iff.mp h
    split
    · exact List.append_nil _
    · rfl
  · exact List.append_nil cs

theorem splitTag_append {tag : List Char} (hcolon : ':' ∉ tag) (hslash : '/' ∉ tag) (name : List Char) :
    splitTag (name ++ ':' :: tag) = (name, some tag) := by
  unfold splitTag
  rw [Text.cutLast_append hcolon]
  exact if_neg hslash

/-- Without a tag, the last colon of a name is in its domain. -/
theorem splitTag_nameText (h : ':' ∉ path) (domain : Option (List Char)) :
    splitTag (nameText domain path) = (nameText domain path, none) := by
  unfold splitTag
  cases domain with
  | none => rw [nameText, Text.cutLast_eq_none_iff.mpr h]
  | some d =>
    have hpath : ':' ∉ '/' :: path := by simp [h]
    rw [nameText, Text.cutLast_append_right hpath]
    cases Text.cutLast ':' d with
    | none => rfl
    | some p => exact if_pos (by simp)

theorem splitDomain_eq (name : List Char) : nameText (splitDomain name).1 (splitDomain name).2 = name := by
  unfold splitDomain
  split
  · next h =>
    obtain ⟨rfl, -⟩ := Text.cutFirst_eq_some_iff.mp h
    split <;> rfl
  · rfl

theorem splitDomain_of_domain {first : List Char} (hslash : '/' ∉ first) (hlooks : looksLikeDomain first = true)
    (rest : List Char) : splitDomain (first ++ '/' :: rest) = (some first, rest) := by
  unfold splitDomain
  rw [Text.cutFirst_append hslash]
  exact if_pos hlooks

theorem looksLikeDomain_of_splitDomain {d : List Char} (h : d ∈ (splitDomain name).1) : looksLikeDomain d = true := by
  unfold splitDomain at h
  split at h
  · split at h
    · next hlooks =>
      cases h
      exact hlooks
    · cases h
  · cases h

/-- A name has no domain whose first component is not taken for one. -/
theorem splitDomain_of_path (h : ∀ first rest, name = first ++ '/' :: rest → '/' ∉ first → looksLikeDomain first = false) :
    splitDomain name = (none, name) := by
  unfold splitDomain
  split
  · next first rest hcut =>
    obtain ⟨heq, hslash⟩ := Text.cutFirst_eq_some_iff.mp hcut
    rw [h first rest heq hslash]
    rfl
  · rfl

end Reference

/-! ### Spellings -/

/-- The parts that a reference is written with. -/
structure Spelling where
  domain : Option (List Char)
  components : List (List Char)
  tag : Option (List Char)
  digest : Option (List Char)

namespace Spelling
open Reference
variable {p : Spelling} {cs : List Char}

def path (p : Spelling) : List Char := ['/'].intercalate p.components

def name (p : Spelling) : List Char := nameText p.domain p.path

/-- `[domain "/"] component ("/" component)* [":" tag] ["@" digest]` -/
def text (p : Spelling) : List Char := p.name ++ tagText p.tag ++ digestText p.digest

/-- The parts are words of the grammar, and none stands where it would be taken for another. -/
structure WellFormed (p : Spelling) : Prop where
  domain : ∀ d ∈ p.domain, Grammar.Domain d
  ne_nil : p.components ≠ []
  components : ∀ c ∈ p.components, Grammar.Component c
  first : p.domain = none → ∀ c d cs, p.components = c :: d :: cs → '.' ∉ c ∧ c ≠ "localhost".toList
  tag : ∀ t ∈ p.tag, Grammar.Tag t
  digest : ∀ d ∈ p.digest, Grammar.Digest d

/-- The parts are well-formed, and the name is not too long. -/
structure Grammatical (p : Spelling) : Prop extends WellFormed p where
  length : (String.ofList p.name).utf8ByteSize ≤ 255

def registry (p : Spelling) : String := String.ofList (p.domain.getD defaultRegistry.toList)

/-- One component in the default registry is an official image. -/
def repository (p : Spelling) : String :=
  if p.registry = defaultRegistry ∧ p.components.length = 1 then officialFolder ++ String.ofList p.path
  else String.ofList p.path

/-- What is spelled. -/
def reference (p : Spelling) : Reference where
  registry := p.registry
  repository := p.repository
  tag := p.tag.map String.ofList
  digest := p.digest.map String.ofList

/-- The parts between the cuts of a text. -/
def ofText (cs : List Char) : Spelling :=
  let outer := splitDigest cs
  let inner := splitTag outer.1
  let place := splitDomain inner.1
  ⟨place.1, Text.pieces '/' place.2, inner.2, outer.2⟩

/-! ### Words and separators -/

theorem WellFormed.notMem_path (h : p.WellFormed) {c : Char} (hslash : c ≠ '/')
    (hc : ¬(Grammar.Lower c ∨ Grammar.Digit c ∨ c = '.' ∨ c = '_' ∨ c = '-')) : c ∉ p.path := by
  intro hmem
  rcases Text.mem_intercalate hmem with rfl | ⟨w, hw, hcw⟩
  · exact hslash rfl
  · exact hc ((h.components w hw).chars c hcw)

theorem WellFormed.at_notMem_name (h : p.WellFormed) : '@' ∉ p.name := by
  have hpath : '@' ∉ p.path := h.notMem_path (by decide) (by decide)
  unfold name
  cases hd : p.domain with
  | none => exact hpath
  | some d =>
    rw [nameText, List.mem_append, List.mem_cons, not_or, not_or]
    exact ⟨mt ((h.domain d hd).1.chars '@') (by decide), by decide, hpath⟩

theorem WellFormed.at_notMem_tagText (h : p.WellFormed) : '@' ∉ tagText p.tag := by
  cases ht : p.tag with
  | none => exact List.not_mem_nil
  | some t =>
    rw [tagText, List.mem_cons, not_or]
    exact ⟨by decide, mt ((h.tag t ht).chars '@') (by decide)⟩

/-! ### Cutting a spelled text -/

theorem WellFormed.splitDigest_text (h : p.WellFormed) : splitDigest p.text = (p.name ++ tagText p.tag, p.digest) := by
  refine splitDigest_append ?_ p.digest
  rw [List.mem_append, not_or]
  exact ⟨h.at_notMem_name, h.at_notMem_tagText⟩

theorem WellFormed.splitTag_name (h : p.WellFormed) : splitTag (p.name ++ tagText p.tag) = (p.name, p.tag) := by
  cases ht : p.tag with
  | none =>
    rw [tagText, List.append_nil]
    exact splitTag_nameText (h.notMem_path (by decide) (by decide)) p.domain
  | some t =>
    have hchars := (h.tag t ht).chars
    exact splitTag_append (mt (hchars ':') (by decide)) (mt (hchars '/') (by decide)) p.name

theorem WellFormed.pieces_path (h : p.WellFormed) : Text.pieces '/' p.path = p.components :=
  Text.pieces_intercalate (fun w hw => mt ((h.components w hw).chars '/') (by decide)) h.ne_nil

theorem WellFormed.splitDomain_name (h : p.WellFormed) : splitDomain p.name = (p.domain, p.path) := by
  unfold name
  cases hd : p.domain with
  | some d =>
    obtain ⟨haddress, hlike⟩ := h.domain d hd
    have hslash : '/' ∉ d := mt (haddress.chars '/') (by decide)
    exact splitDomain_of_domain hslash (Grammar.looksLikeDomain_iff.mpr hlike) p.path
  | none =>
    -- The parser looks at what stands before the first slash, and this is the first component.
    refine splitDomain_of_path fun first rest (hpath : p.path = _) hslash => ?_
    have hcomponents := h.pieces_path
    rw [hpath, Text.pieces_append hslash] at hcomponents
    obtain ⟨second, others, hrest⟩ := List.exists_cons_of_ne_nil (Text.pieces_ne_nil '/' rest)
    rw [hrest] at hcomponents
    obtain ⟨hdot, hlocalhost⟩ := h.first hd first second others hcomponents.symm
    have hcolon : ':' ∉ first := mt ((h.components first (hcomponents ▸ List.mem_cons_self)).chars ':') (by decide)
    rw [Bool.eq_false_iff, Ne, Grammar.looksLikeDomain_iff]
    rintro (h | h | h)
    · exact hdot h
    · exact hcolon h
    · exact hlocalhost h

/-- Cutting a text of well-formed parts gives the parts back. -/
theorem WellFormed.ofText_text (h : p.WellFormed) : ofText p.text = p := by
  unfold ofText
  simp only [h.splitDigest_text, h.splitTag_name, h.splitDomain_name, h.pieces_path]

theorem text_ofText (cs : List Char) : (ofText cs).text = cs := by
  unfold ofText text name path
  simp only [Text.intercalate_pieces, splitDomain_eq, splitTag_eq, splitDigest_eq]

theorem WellFormed.eq_of_text_eq {q : Spelling} (hp : p.WellFormed) (hq : q.WellFormed) (heq : p.text = q.text) : p = q := by
  rw [← hp.ofText_text, heq, hq.ofText_text]

/-! ### The parser -/

theorem name_ofText (cs : List Char) : (ofText cs).name = (splitTag (splitDigest cs).1).1 := by
  unfold ofText name path
  simp only [Text.intercalate_pieces, splitDomain_eq]

theorem splitDomain_name_ofText (cs : List Char) :
    splitDomain (ofText cs).name = ((ofText cs).domain, (ofText cs).path) := by
  rw [name_ofText]
  unfold ofText path
  simp only [Text.intercalate_pieces]

theorem pieces_path_ofText (cs : List Char) : Text.pieces '/' (ofText cs).path = (ofText cs).components :=
  congrArg (Text.pieces '/') (Text.intercalate_pieces '/' _)

/-- A name that is cut into no domain has no first component that looks like one: it would have been cut off. -/
theorem first_of_splitDomain (hsplit : splitDomain p.name = (p.domain, p.path))
    (hwords : ∀ c ∈ p.components, Grammar.Component c) (hnone : p.domain = none) (c d : List Char)
    (others : List (List Char)) (heq : p.components = c :: d :: others) : '.' ∉ c ∧ c ≠ "localhost".toList := by
  have hslash : '/' ∉ c := mt ((hwords c (by simp [heq])).chars '/') (by decide)
  have hname : p.name = c ++ '/' :: ['/'].intercalate (d :: others) := by
    rw [name, hnone, nameText, path, heq, List.intercalate_cons_cons, List.append_assoc, List.singleton_append]
  have hlooks : ¬looksLikeDomain c = true := by
    intro hlooks
    rw [hname, splitDomain_of_domain hslash hlooks, hnone] at hsplit
    cases hsplit
  rw [Grammar.looksLikeDomain_iff] at hlooks
  exact ⟨fun h => hlooks (Or.inl h), fun h => hlooks (Or.inr (Or.inr h))⟩

/-- The parts of a text are in the grammar exactly if the parser finds nothing wrong with them. -/
theorem grammatical_ofText_iff (cs : List Char) :
    (ofText cs).Grammatical ↔ check (ofText cs).name (ofText cs).tag (ofText cs).digest = .ok none := by
  have hsplit := splitDomain_name_ofText cs
  have hpieces := pieces_path_ofText cs
  rw [check_eq_ok_none_iff, byteLength, hsplit, hpieces]
  generalize ofText cs = p at hsplit hpieces
  constructor
  · intro h
    exact ⟨fun d hd => Grammar.isDigest_iff.mpr (h.digest d hd), h.tag, h.length,
      fun d hd => Grammar.isDomain_iff.mpr (h.domain d hd).1, h.components⟩
  · rintro ⟨hdigest, htag, hlength, hdomain, hwords⟩
    refine
      { domain := fun d hd => ⟨Grammar.isDomain_iff.mp (hdomain d hd), ?_⟩
        ne_nil := ?_
        components := hwords
        first := first_of_splitDomain hsplit hwords
        tag := htag
        digest := fun d hd => Grammar.isDigest_iff.mp (hdigest d hd)
        length := hlength }
    · have hmem : d ∈ (splitDomain p.name).1 := by rwa [hsplit]
      exact Grammar.looksLikeDomain_iff.mp (looksLikeDomain_of_splitDomain hmem)
    · rw [← hpieces]
      exact Text.pieces_ne_nil '/' p.path

theorem reference_ofText (cs : List Char) :
    (ofText cs).reference = ofParts (ofText cs).name (ofText cs).tag (ofText cs).digest := by
  have hsplit := splitDomain_name_ofText cs
  have hpieces := pieces_path_ofText cs
  generalize ofText cs = p at hsplit hpieces
  have hofficial : p.registry = defaultRegistry ∧ p.components.length = 1 ↔
      p.domain.getD defaultRegistry.toList = defaultRegistry.toList ∧ '/' ∉ p.path := by
    rw [← hpieces, Text.length_pieces_eq_one_iff, registry, ← String.toList_inj, String.toList_ofList]
  have hrepository : p.repository = String.ofList (repositoryOf (p.domain.getD defaultRegistry.toList) p.path) := by
    unfold repository repositoryOf
    simp only [hofficial]
    split
    · rw [String.ofList_append, String.ofList_toList]
    · rfl
  unfold ofParts reference
  rw [hsplit, hrepository]
  rfl

theorem not_grammatical_ofText_nil : ¬(ofText []).Grammatical :=
  fun h => Grammar.not_component_nil (h.components [] List.mem_cons_self)

/-- The parser cuts a text and looks at the parts. -/
theorem parse_eq (text : String) : parse text = if text.toList = [] then .error (.malformed text .empty) else
    match check (ofText text.toList).name (ofText text.toList).tag (ofText text.toList).digest with
    | .error fault => .error (.stopped text fault)
    | .ok (some why) => .error (.malformed text why)
    | .ok none => .ok (ofText text.toList).reference := by
  rw [reference_ofText, name_ofText]
  rfl

/-- The parser reads a text exactly if its parts are in the grammar, and then as what they spell. -/
theorem parse_eq_ok_iff {text : String} {r : Reference} :
    parse text = .ok r ↔ (ofText text.toList).Grammatical ∧ (ofText text.toList).reference = r := by
  rw [parse_eq]
  split
  · next hempty =>
    rw [hempty]
    simp [not_grammatical_ofText_nil]
  · rw [grammatical_ofText_iff]
    split
    · next h => simp [h]
    · next h => simp [h]
    · next h => simp [h]

theorem Grammatical.parse_eq {text : String} (h : p.Grammatical) (htext : p.text = text.toList) :
    parse text = .ok p.reference := by
  rw [parse_eq_ok_iff, ← htext, h.ofText_text]
  exact ⟨h, rfl⟩

end Spelling

namespace Reference

/-- The parser reads exactly the texts that are spelled in the grammar, each as what it spells, and none is spelled in
    two ways. -/
theorem parse_eq_ok_iff_spelled (text : String) (r : Reference) :
    (parse text = .ok r ↔ ∃ p : Spelling, p.Grammatical ∧ p.text = text.toList ∧ p.reference = r) ∧
      ∀ p q : Spelling, p.Grammatical ∧ p.text = text.toList → q.Grammatical ∧ q.text = text.toList → p = q := by
  refine ⟨?_, fun p q hp hq => hp.1.toWellFormed.eq_of_text_eq hq.1.toWellFormed (hp.2.trans hq.2.symm)⟩
  constructor
  · intro h
    obtain ⟨hp, hr⟩ := Spelling.parse_eq_ok_iff.mp h
    exact ⟨_, hp, Spelling.text_ofText text.toList, hr⟩
  · rintro ⟨p, hp, htext, rfl⟩
    exact hp.parse_eq htext

end Reference
end Depot
