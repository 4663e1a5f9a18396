import Depot.Proofs.Reference.Spelling

/-! References that are taken from any text. Such a reference is written as the text without the blanks around it, behind
    what the name leaves out: nothing, the default registry, or this and its official folder. At nothing of this a text
    is cut, so that what is written is taken for the same reference again, whatever its parts are made of. -/

namespace Depot

namespace Text
variable {sep : Char} {a : List Char}

/-- Before its first separator a text may begin anyhow. -/
theorem cutFirst_append_left (h : sep ∉ a) (b : List Char) :
    cutFirst sep (a ++ b) = (cutFirst sep b).map fun p => (a ++ p.1, p.2) := by
  cases hcut : cutFirst sep b with
  | none =>
    rw [cutFirst_eq_none_iff] at hcut
    rw [Option.map_none, cutFirst_eq_none_iff, List.mem_append, not_or]
    exact ⟨h, hcut⟩
  | some p =>
    obtain ⟨heq, hp⟩ := cutFirst_eq_some_iff.mp hcut
    rw [heq, ← List.append_assoc]
    refine cutFirst_append ?_
    rw [List.mem_append, not_or]
    exact ⟨h, hp⟩

theorem cutLast_append_left (h : sep ∉ a) (b : List Char) :
    cutLast sep (a ++ b) = (cutLast sep b).map fun p => (a ++ p.1, p.2) := by
  cases hcut : cutLast sep b with
  | none =>
    rw [cutLast_eq_none_iff] at hcut
    rw [Option.map_none, cutLast_eq_none_iff, List.mem_append, not_or]
    exact ⟨h, hcut⟩
  | some p =>
    obtain ⟨heq, hp⟩ := cutLast_eq_some_iff.mp hcut
    rw [heq, ← List.append_assoc]
    exact cutLast_append hp

theorem Trimmed.append_left {b : List Char} (h : Trimmed b) (hb : b ≠ []) (ha : ∀ c ∈ a.head?, isBlank c = false) :
    Trimmed (a ++ b) where
  head c hc := by
    cases a with
    | nil => exact h.head c hc
    | cons d a => exact ha c hc
  last c hc := by
    refine h.last c ?_
    rwa [List.getLast?_append, List.getLast?_eq_some_getLast hb, Option.some_or, ← List.getLast?_eq_some_getLast hb] at hc

end Text

namespace Reference
variable {text : String} {lead name cs : List Char}

/-! ### Cuts behind what is put before a text -/

theorem splitDigest_append_left (h : '@' ∉ lead) (cs : List Char) :
    splitDigest (lead ++ cs) = (lead ++ (splitDigest cs).1, (splitDigest cs).2) := by
  unfold splitDigest
  rw [Text.cutFirst_append_left h]
  cases Text.cutFirst '@' cs <;> rfl

theorem splitTag_append_left (h : ':' ∉ lead) (cs : List Char) :
    splitTag (lead ++ cs) = (lead ++ (splitTag cs).1, (splitTag cs).2) := by
  unfold splitTag
  rw [Text.cutLast_append_left h]
  cases Text.cutLast ':' cs with
  | none => rfl
  | some p =>
    dsimp only [Option.map_some]
    split <;> rfl

/-! ### What a name leaves out -/

/-- What is put before a name that is taken apart: nothing before a domain, the default registry before other folders, and
    its official folder too before a single component. -/
def leftOut (name : List Char) : List Char :=
  match Text.cutFirst '/' name with
  | some (first, _) => if looksLikeDomain first then [] else "docker.io/".toList
  | none => "docker.io/library/".toList

theorem leftOut_cases (name : List Char) :
    ∃ lead ∈ ["", "docker.io/", "docker.io/library/"], leftOut name = lead.toList := by
  unfold leftOut
  split
  · split
    · exact ⟨"", by simp, rfl⟩
    · exact ⟨"docker.io/", by simp, rfl⟩
  · exact ⟨"docker.io/library/", by simp, rfl⟩

theorem notMem_leftOut (name : List Char) : '@' ∉ leftOut name ∧ ':' ∉ leftOut name := by
  have hnot : ∀ lead ∈ ["", "docker.io/", "docker.io/library/"], '@' ∉ lead.toList ∧ ':' ∉ lead.toList := by decide
  obtain ⟨lead, hlead, heq⟩ := leftOut_cases name
  exact heq ▸ hnot lead hlead

theorem head_leftOut (name : List Char) : ∀ c ∈ (leftOut name).head?, Text.isBlank c = false := by
  have hhead : ∀ lead ∈ ["", "docker.io/", "docker.io/library/"],
      lead.toList.head? = none ∨ lead.toList.head? = some 'd' := by decide
  obtain ⟨lead, hlead, heq⟩ := leftOut_cases name
  intro c hc
  rw [heq] at hc
  rcases hhead lead hlead with hnone | hsome
  · rw [hnone] at hc
    cases hc
  · rw [hsome] at hc
    obtain rfl := Option.some.inj hc
    rfl

/-- Registry and repository are the name behind what it leaves out. -/
theorem append_splitRegistry (name : List Char) :
    (splitRegistry name).1 ++ '/' :: (splitRegistry name).2 = leftOut name ++ name := by
  unfold splitRegistry leftOut
  cases hcut : Text.cutFirst '/' name with
  | none => rfl
  | some cut =>
    obtain ⟨first, rest⟩ := cut
    obtain ⟨rfl, -⟩ := Text.cutFirst_eq_some_iff.mp hcut
    dsimp only
    split <;> rfl

/-- A name that leaves nothing out is cut into the same registry and the same repository. -/
theorem splitRegistry_leftOut (name : List Char) : splitRegistry (leftOut name ++ name) = splitRegistry name := by
  have hdefault (rest : List Char) : splitRegistry ("docker.io/".toList ++ rest) = (defaultRegistry.toList, rest) := by
    unfold splitRegistry
    rw [show "docker.io/".toList ++ rest = defaultRegistry.toList ++ '/' :: rest from rfl,
      Text.cutFirst_append (by decide)]
    rfl
  cases hcut : Text.cutFirst '/' name with
  | none =>
    have hleft : leftOut name = "docker.io/".toList ++ officialFolder.toList := by
      unfold leftOut
      rw [hcut]
      rfl
    rw [hleft, List.append_assoc, hdefault, splitRegistry, hcut]
  | some cut =>
    by_cases hlooks : looksLikeDomain cut.1 = true
    · have hleft : leftOut name = [] := by
        unfold leftOut
        rw [hcut]
        exact if_pos hlooks
      rw [hleft, List.nil_append]
    · have hleft : leftOut name = "docker.io/".toList := by
        unfold leftOut
        rw [hcut]
        exact if_neg hlooks
      rw [hleft, hdefault, splitRegistry, hcut]
      exact (if_neg hlooks).symm

/-! ### Taking a text apart -/

/-- The name in a text: what stands before the tag and the digest. -/
def nameIn (cs : List Char) : List Char := (splitTag (splitDigest cs).1).1

/-- What a text without blanks around it is taken for. -/
def takenFrom (cs : List Char) : Reference where
  registry := String.ofList (splitRegistry (nameIn cs)).1
  repository := String.ofList (splitRegistry (nameIn cs)).2
  tag := (splitTag (splitDigest cs).1).2.map String.ofList
  digest := (splitDigest cs).2.map String.ofList

theorem takeApart_eq_takenFrom (text : String) : takeApart text =
    if Text.trim text.toList = [] then .error .blank else .ok (takenFrom (Text.trim text.toList)) := rfl

/-- What is taken from a text is written as the text behind what its name leaves out. -/
theorem render_takenFrom (cs : List Char) : (takenFrom cs).render.toList = leftOut (nameIn cs) ++ cs := by
  have hname : (takenFrom cs).name.toList = leftOut (nameIn cs) ++ nameIn cs := by
    rw [← append_splitRegistry]
    simp [Reference.name, takenFrom]
  have hrender : (takenFrom cs).render.toList = (takenFrom cs).name.toList ++ tagText (splitTag (splitDigest cs).1).2 ++
      digestText (splitDigest cs).2 := by
    unfold render takenFrom
    cases (splitTag (splitDigest cs).1).2 <;> cases (splitDigest cs).2 <;> simp [tagText, digestText]
  rw [hrender, hname, List.append_assoc, List.append_assoc, ← List.append_assoc (nameIn cs), nameIn, splitTag_eq,
    (splitDigest_eq cs).1]

theorem takenFrom_leftOut (cs : List Char) : takenFrom (leftOut (nameIn cs) ++ cs) = takenFrom cs := by
  obtain ⟨hat, hcolon⟩ := notMem_leftOut (nameIn cs)
  have hname : nameIn (leftOut (nameIn cs) ++ cs) = leftOut (nameIn cs) ++ nameIn cs := by
    rw [nameIn, splitDigest_append_left hat, splitTag_append_left hcolon]
    rfl
  unfold takenFrom
  rw [hname, splitRegistry_leftOut, splitDigest_append_left hat, splitTag_append_left hcolon]

theorem takeApart_of_trimmed (h : Text.Trimmed text.toList) (hne : text.toList ≠ []) :
    takeApart text = .ok (takenFrom text.toList) := by
  rw [takeApart_eq_takenFrom, h.trim_eq, if_neg hne]

/-- Every text that is not blank is taken for a reference. It is written as the text without the blanks around it, behind
    what its name leaves out, and taken for the same reference again. -/
theorem takeApart_again (h : Text.trim text.toList ≠ []) : ∃ r, takeApart text = .ok r ∧ takeApart r.render = .ok r ∧
    ∃ lead ∈ ["", "docker.io/", "docker.io/library/"], r.render.toList = lead.toList ++ Text.trim text.toList := by
  have htrimmed := Text.trimmed_trim text.toList
  generalize hcs : Text.trim text.toList = cs at h htrimmed
  have hrender := render_takenFrom cs
  obtain ⟨lead, hlead, hleft⟩ := leftOut_cases (nameIn cs)
  refine ⟨takenFrom cs, ?_, ?_, lead, hlead, by rw [hrender, hleft]⟩
  · rw [takeApart_eq_takenFrom, hcs, if_neg h]
  · -- Nothing is trimmed of what is written: it ends as the text, and what is put before it begins with a letter.
    have hagain : Text.Trimmed (takenFrom cs).render.toList := by
      rw [hrender]
      exact htrimmed.append_left h (head_leftOut (nameIn cs))
    rw [takeApart_of_trimmed hagain (by simp [hrender, h]), hrender, takenFrom_leftOut]

/-- Blanks inside, an empty tag and a second `@` are kept, and an empty first component is no domain. -/
theorem takeApart_again_blanks : Text.trim " /a b::@c@ d ".toList ≠ [] ∧
    takeApart " /a b::@c@ d " = .ok ⟨"docker.io", "/a b:", some "", some "c@ d"⟩ ∧
    takeApart "docker.io//a b::@c@ d" = .ok ⟨"docker.io", "/a b:", some "", some "c@ d"⟩ := by
  have hne : Text.trim " /a b::@c@ d ".toList ≠ [] := by decide
  obtain ⟨r, htake, hagain, -⟩ := takeApart_again hne
  have hr : takeApart " /a b::@c@ d " = .ok ⟨"docker.io", "/a b:", some "", some "c@ d"⟩ := by rfl
  obtain rfl := Except.ok.inj (htake.symm.trans hr)
  exact ⟨hne, hr, hagain⟩

end Reference
end Depot
