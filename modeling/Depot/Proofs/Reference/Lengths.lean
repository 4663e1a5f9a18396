import Depot.Proofs.Bytes
import Depot.Proofs.Reference.Canonical

/-! How long names get. The parser measures a name as it is written, and then completes it: a name that is written within
    the limit can be one beyond it. Such a reference is not read back from what it is written as, nor from its canonical
    name, and it comes only from a name in which the default registry or its official folder was left out. -/

namespace Depot

namespace Spelling
open Reference
variable {p : Spelling} {text : String}

/-- A name that is too long is all that can be wrong with well-formed parts. -/
theorem WellFormed.parse_of_long (h : p.WellFormed) (htext : p.text = text.toList)
    (hlong : 255 < (String.ofList p.name).utf8ByteSize) : parse text = .error (.malformed text .tooLong) := by
  have hwhy : check p.name p.tag p.digest = .ok (some .tooLong) :=
    check_of_long (fun d hd => Grammar.isDigest_iff.mpr (h.digest d hd)) h.tag hlong
  have hne : text.toList ≠ [] := by
    intro hempty
    have hwords := h.ofText_text ▸ h.components
    rw [htext, hempty] at hwords
    exact Grammar.not_component_nil (hwords [] List.mem_cons_self)
  rw [parse_eq, if_neg hne, ← htext, h.ofText_text, hwhy]

end Spelling

namespace Reference
variable {r : Reference} {text : String}

theorem IsGrammatical.parse_render_of_long (h : r.IsGrammatical) (hlong : 255 < r.name.utf8ByteSize) :
    parse r.render = .error (.malformed r.render .tooLong) := by
  refine h.wellFormed.parse_of_long (text_spelling r) ?_
  rwa [name_spelling, String.ofList_toList]

theorem IsGrammatical.parse_canonicalName_of_long (h : r.IsGrammatical) (hlong : 255 < r.name.utf8ByteSize) :
    parse r.canonicalName = .error (.malformed r.canonicalName .tooLong) := by
  rw [← render_withTag]
  exact h.withTag.parse_render_of_long hlong

/-! ### Names that are completed -/

/-- The full name has more than was written of it: the default registry, its official folder, or both. -/
inductive Completes : List Char → List Char → Prop
  | registry (path : List Char) : Completes path ("docker.io/".toList ++ path)
  | folder (component : List Char) (h : '/' ∉ component) :
      Completes ("docker.io/".toList ++ component) ("docker.io/library/".toList ++ component)
  | both (component : List Char) (h : '/' ∉ component) :
      Completes component ("docker.io/library/".toList ++ component)

/-- A reference has the name that was written, or one that completes it. -/
theorem name_reference {p : Spelling} (h : p.Grammatical) :
    p.reference.name.toList = p.name ∨ p.registry = defaultRegistry ∧ Completes p.name p.reference.name.toList := by
  have hname : p.reference.name.toList = p.registry.toList ++ '/' :: p.repository.toList := by
    simp [Reference.name, Spelling.reference]
  have hone : p.components.length = 1 → '/' ∉ p.path := by
    rw [← h.pieces_path]
    exact Text.length_pieces_eq_one_iff.mp
  rw [hname]
  unfold Spelling.repository
  cases hdomain : p.domain with
  | some d =>
    have hregistry : p.registry.toList = d := by rw [Spelling.registry, hdomain, Option.getD_some, String.toList_ofList]
    have hwritten : p.name = d ++ '/' :: p.path := by rw [Spelling.name, hdomain, nameText]
    split
    · next hofficial =>
      obtain ⟨hdefault, hcount⟩ := hofficial
      obtain rfl : d = defaultRegistry.toList := by rw [← hregistry, hdefault]
      rw [hwritten, hdefault, String.toList_append, String.toList_ofList]
      exact .inr ⟨rfl, .folder p.path (hone hcount)⟩
    · left
      rw [hwritten, hregistry, String.toList_ofList]
  | none =>
    have hdefault : p.registry = defaultRegistry := by
      rw [Spelling.registry, hdomain, Option.getD_none, String.ofList_toList]
    have hwritten : p.name = p.path := by rw [Spelling.name, hdomain, nameText]
    rw [hwritten, hdefault]
    right
    split
    · next hofficial =>
      rw [String.toList_append, String.toList_ofList]
      exact ⟨rfl, .both p.path (hone hofficial.2)⟩
    · rw [String.toList_ofList]
      exact ⟨rfl, .registry p.path⟩

/-! ### Words -/

/-- A word of lower-case letters and digits is an official image. -/
theorem parse_word (h : Grammar.Word text.toList) (hlength : text.utf8ByteSize ≤ 255) :
    parse text = .ok ⟨defaultRegistry, officialFolder ++ text, none, none⟩ := by
  have hp : Spelling.Grammatical ⟨none, [text.toList], none, none⟩ :=
    { domain := by simp
      ne_nil := by simp
      components := by simpa using Grammar.Component.word h
      first := by simp
      tag := by simp
      digest := by simp
      length := by simpa [Spelling.name, Spelling.path, nameText] using hlength }
  have htext : Spelling.text ⟨none, [text.toList], none, none⟩ = text.toList := by
    simp [Spelling.text, Spelling.name, Spelling.path, nameText, tagText, digestText]
  have hparse := hp.parse_eq htext
  have hregistry : Spelling.registry ⟨none, [text.toList], none, none⟩ = defaultRegistry := String.ofList_toList
  have hrepository : Spelling.repository ⟨none, [text.toList], none, none⟩ = officialFolder ++ text := by
    unfold Spelling.repository
    rw [if_pos ⟨hregistry, rfl⟩, Spelling.path, List.intercalate_singleton, String.ofList_toList]
  rw [hparse, Spelling.reference, hregistry, hrepository]
  rfl

/-- The letter `a`, so many times. -/
def row (n : Nat) : String := String.ofList (List.replicate n 'a')

theorem toList_row (n : Nat) : (row n).toList = List.replicate n 'a' := String.toList_ofList

theorem eq_of_mem_row {n : Nat} {c : Char} (h : c ∈ (row n).toList) : c = 'a' := by
  rw [toList_row] at h
  exact List.eq_of_mem_replicate h

theorem plain_row (n : Nat) : Bytes.Plain (row n).toList := by
  intro c hc
  rw [eq_of_mem_row hc]
  decide

theorem utf8ByteSize_row (n : Nat) : (row n).utf8ByteSize = n := by
  rw [Bytes.utf8ByteSize_of_plain (plain_row n), toList_row, List.length_replicate]

/-- What a row of letters is read as. -/
def rowReference (n : Nat) : Reference := ⟨defaultRegistry, officialFolder ++ row n, none, none⟩

theorem parse_row {n : Nat} (hpos : n ≠ 0) (hlength : n ≤ 255) : parse (row n) = .ok (rowReference n) := by
  refine parse_word ⟨?_, fun c hc => ?_⟩ (by rwa [utf8ByteSize_row])
  · rwa [toList_row, Ne, List.replicate_eq_nil_iff]
  · rw [eq_of_mem_row hc]
    decide

theorem utf8ByteSize_name_row (n : Nat) : (rowReference n).name.utf8ByteSize = 18 + n := by
  have hname : (rowReference n).name = "docker.io" ++ "/" ++ ("library/" ++ row n) := rfl
  have hfolders : "docker.io".utf8ByteSize + "/".utf8ByteSize + "library/".utf8ByteSize = 18 := rfl
  rw [hname, String.utf8ByteSize_append, String.utf8ByteSize_append, String.utf8ByteSize_append, utf8ByteSize_row]
  omega

/-! ### Reading again -/

/-- What is read is read again from what it is written as, and without its digest from its canonical name, if its name
    is within the limit; a name beyond it is refused in both, and was completed in the default registry. -/
theorem parse_again (h : parse text = .ok r) :
    (r.name.utf8ByteSize ≤ 255 → parse r.render = .ok r ∧
        parse r.canonicalName = .ok { r with tag := some (r.tag.getD "latest"), digest := none }) ∧
      (255 < r.name.utf8ByteSize →
        parse r.render = .error (.malformed r.render .tooLong) ∧
        parse r.canonicalName = .error (.malformed r.canonicalName .tooLong) ∧
        r.registry = "docker.io" ∧
        ∃ p : Spelling, p.Grammatical ∧ p.text = text.toList ∧ p.reference = r ∧ Completes p.name r.name.toList) := by
  have hr := isGrammatical_of_parse h
  refine ⟨fun hshort => ⟨hr.parse_render hshort, hr.parse_canonicalName hshort⟩, fun hlong => ?_⟩
  obtain ⟨hp, rfl⟩ := Spelling.parse_eq_ok_iff.mp h
  rcases name_reference hp with hsame | ⟨hdefault, hcompletes⟩
  · -- The parser has measured the name that was written.
    have hlength := hp.length
    rw [← hsame, String.ofList_toList] at hlength
    omega
  · exact ⟨hr.parse_render_of_long hlong, hr.parse_canonicalName_of_long hlong, hdefault, _, hp, Spelling.text_ofText _,
      rfl, hcompletes⟩

/-- A word of 3 letters is read again; one of 250 is within the limit, and its name is not. -/
theorem parse_again_row :
    (parse (row 3) = .ok (rowReference 3) ∧ parse (rowReference 3).render = .ok (rowReference 3) ∧
      parse (rowReference 3).canonicalName = .ok { rowReference 3 with tag := some "latest" }) ∧
    (parse (row 250) = .ok (rowReference 250) ∧
      parse (rowReference 250).render = .error (.malformed (rowReference 250).render .tooLong) ∧
      parse (rowReference 250).canonicalName = .error (.malformed (rowReference 250).canonicalName .tooLong)) := by
  have hshort : parse (row 3) = .ok (rowReference 3) := parse_row (by decide) (by decide)
  have hlong : parse (row 250) = .ok (rowReference 250) := parse_row (by decide) (by decide)
  have hread := (parse_again hshort).1 (by rw [utf8ByteSize_name_row]; decide)
  obtain ⟨hrender, hname, -⟩ := (parse_again hlong).2 (by rw [utf8ByteSize_name_row]; decide)
  exact ⟨⟨hshort, hread⟩, hlong, hrender, hname⟩

end Reference
end Depot
