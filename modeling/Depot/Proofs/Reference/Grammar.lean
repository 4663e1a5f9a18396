import Depot.Reference.Lexical

/-! The words of references, as a grammar: path components, domains, tags and digests. A test that looks at characters
    holds exactly of the texts that the grammar derives. For the tests that look at bytes there is what they need here: a
    component is read from its front, a character of a word or a whole separator at a time. -/

namespace Depot

namespace Text
variable {sep : Char} {ps : List (List Char)}

theorem pieces_eq_splitOn (sep : Char) (cs : List Char) : pieces sep cs = cs.splitOn sep := by
  induction cs with
  | nil => rfl
  | cons c cs ih =>
    rw [pieces, ih, List.splitOn, List.splitOn, List.splitOnP_cons_eq_if_modifyHead]
    simp only [beq_iff_eq]
    split
    · rfl
    · cases h : List.splitOnP (fun x => x == sep) cs with
      | nil => exact absurd h (List.splitOnP_ne_nil _ _)
      | cons p ps => rfl

theorem intercalate_pieces (sep : Char) (cs : List Char) : [sep].intercalate (pieces sep cs) = cs := by
  rw [pieces_eq_splitOn, List.intercalate_splitOn]

theorem pieces_intercalate (hps : ∀ p ∈ ps, sep ∉ p) (hne : ps ≠ []) : pieces sep ([sep].intercalate ps) = ps := by
  rw [pieces_eq_splitOn, List.splitOn_intercalate sep hps hne]

theorem mem_intercalate {c : Char} (h : c ∈ [sep].intercalate ps) : c = sep ∨ ∃ p ∈ ps, c ∈ p := by
  induction ps with
  | nil => cases h
  | cons p ps ih =>
    cases ps with
    | nil =>
      rw [List.intercalate_singleton] at h
      exact Or.inr ⟨p, List.mem_singleton_self p, h⟩
    | cons q ps =>
      rw [List.intercalate_cons_cons, List.append_assoc, List.mem_append, List.singleton_append, List.mem_cons] at h
      rcases h with h | rfl | h
      · exact Or.inr ⟨p, by simp, h⟩
      · exact Or.inl rfl
      · exact (ih h).imp_right fun ⟨r, hr, hc⟩ => ⟨r, List.mem_cons_of_mem _ hr, hc⟩

end Text

namespace Reference.Grammar
variable {c : Char} {cs w sep rest : List Char}

/-! ### Characters -/

/-- `[a-z]` -/
def Lower (c : Char) : Prop := 'a' ≤ c ∧ c ≤ 'z'

/-- `[A-Z]` -/
def Upper (c : Char) : Prop := 'A' ≤ c ∧ c ≤ 'Z'

/-- `[0-9]` -/
def Digit (c : Char) : Prop := '0' ≤ c ∧ c ≤ '9'

instance : Decidable (Lower c) := inferInstanceAs (Decidable (_ ∧ _))

instance : Decidable (Upper c) := inferInstanceAs (Decidable (_ ∧ _))

instance : Decidable (Digit c) := inferInstanceAs (Decidable (_ ∧ _))

theorem isLower_iff : c.isLower = true ↔ Lower c :=
  Bool.and_eq_true_iff.trans (and_congr decide_eq_true_iff decide_eq_true_iff)

theorem isUpper_iff : c.isUpper = true ↔ Upper c := decide_eq_true_iff

theorem isDigit_iff : c.isDigit = true ↔ Digit c :=
  Bool.and_eq_true_iff.trans (and_congr decide_eq_true_iff decide_eq_true_iff)

theorem isLowerAlnum_iff : isLowerAlnum c = true ↔ Lower c ∨ Digit c := by
  simp [isLowerAlnum, isLower_iff, isDigit_iff]

theorem isAlnum_iff : isAlnum c = true ↔ Lower c ∨ Upper c ∨ Digit c := by
  simp [isAlnum, isLower_iff, isUpper_iff, isDigit_iff, or_comm, or_left_comm]

theorem isHexDigit_iff : isHexDigit c = true ↔ Digit c ∨ 'a' ≤ c ∧ c ≤ 'f' ∨ 'A' ≤ c ∧ c ≤ 'F' := by
  simp [isHexDigit, isDigit_iff, or_assoc]

theorem isAlgorithmChar_iff :
    isAlgorithmChar c = true ↔ Lower c ∨ Digit c ∨ c = '+' ∨ c = '.' ∨ c = '_' ∨ c = '-' := by
  simp [isAlgorithmChar, isLowerAlnum_iff, or_assoc]

/-! ### Path components -/

/-- `[a-z0-9]+` -/
def Word (w : List Char) : Prop := w ≠ [] ∧ ∀ c ∈ w, Lower c ∨ Digit c

instance (w : List Char) : Decidable (Word w) :=
  decidable_of_iff (w ≠ [] ∧ w.all isLowerAlnum = true)
    (and_congr_right fun _ => List.all_eq_true.trans (forall₂_congr fun _ _ => isLowerAlnum_iff))

/-- `"." | "_" | "__" | "-"+` -/
inductive Separator : List Char → Prop
  | dot : Separator ['.']
  | score : Separator ['_']
  | twoScores : Separator ['_', '_']
  | dashes (n : Nat) : Separator (List.replicate (n + 1) '-')

/-- Words joined by separators. -/
inductive Component : List Char → Prop
  | word {w : List Char} (hw : Word w) : Component w
  | join {w sep rest : List Char} (hw : Word w) (hsep : Separator sep) (hrest : Component rest) :
      Component (w ++ (sep ++ rest))

/-- A separator, and a component behind it. -/
def Joined (cs : List Char) : Prop := ∃ sep rest, Separator sep ∧ Component rest ∧ cs = sep ++ rest

/-- What may follow a character of a word. -/
def Tail (cs : List Char) : Prop :=
  ∃ w more, (∀ c ∈ w, Lower c ∨ Digit c) ∧ (more = [] ∨ Joined more) ∧ cs = w ++ more

theorem component_cons : Component (c :: cs) ↔ (Lower c ∨ Digit c) ∧ Tail cs := by
  constructor
  · generalize hcs : c :: cs = text
    rintro (⟨hne, hw⟩ | ⟨⟨hne, hw⟩, hsep, hrest⟩)
    · subst hcs
      rw [List.forall_mem_cons] at hw
      exact ⟨hw.1, cs, [], hw.2, Or.inl rfl, (List.append_nil cs).symm⟩
    · obtain ⟨d, w, rfl⟩ := List.exists_cons_of_ne_nil hne
      obtain ⟨rfl, rfl⟩ := List.cons.inj hcs
      rw [List.forall_mem_cons] at hw
      exact ⟨hw.1, w, _, hw.2, Or.inr ⟨_, _, hsep, hrest, rfl⟩, rfl⟩
  · rintro ⟨hc, w, more, hw, hmore, rfl⟩
    have hword : Word (c :: w) := ⟨List.cons_ne_nil c w, List.forall_mem_cons.mpr ⟨hc, hw⟩⟩
    rcases hmore with rfl | ⟨sep, rest, hsep, hrest, rfl⟩
    · rw [List.append_nil]
      exact .word hword
    · exact .join hword hsep hrest

theorem not_component_nil : ¬Component [] := by
  generalize hnil : [] = text
  rintro (⟨hne, -⟩ | ⟨⟨hne, -⟩, -, -⟩)
  · exact hne hnil.symm
  · exact hne (List.append_eq_nil_iff.mp hnil.symm).1

theorem Separator.notWord (h : Separator sep) : sep ≠ [] ∧ ∀ c ∈ sep, ¬(Lower c ∨ Digit c) := by
  have hno (c : Char) (hc : isLowerAlnum c = false) : ¬(Lower c ∨ Digit c) := by
    rw [← isLowerAlnum_iff, hc]
    exact Bool.false_ne_true
  cases h with
  | dot => simpa using hno '.' rfl
  | score => simpa using hno '_' rfl
  | twoScores => simpa using hno '_' rfl
  | dashes n => simpa using hno '-' rfl

/-- Where a word begins behind other characters is one place only. -/
theorem run_unique {run run' rest rest' : List Char} {d : Char} (h : run ++ c :: rest = run' ++ d :: rest')
    (hrun : ∀ x ∈ run, ¬(Lower x ∨ Digit x)) (hrun' : ∀ x ∈ run', ¬(Lower x ∨ Digit x)) (hc : Lower c ∨ Digit c)
    (hd : Lower d ∨ Digit d) : run = run' ∧ c = d ∧ rest = rest' := by
  rcases List.append_eq_append_iff.mp h with ⟨more, rfl, hmore⟩ | ⟨more, rfl, hmore⟩
  · cases more with
    | nil =>
      obtain ⟨rfl, rfl⟩ := List.cons.inj hmore
      exact ⟨(List.append_nil run).symm, rfl, rfl⟩
    | cons x more =>
      obtain ⟨rfl, -⟩ := List.cons.inj hmore
      exact absurd hc (hrun' c (by simp))
  · cases more with
    | nil =>
      obtain ⟨rfl, rfl⟩ := List.cons.inj hmore
      exact ⟨List.append_nil run', rfl, rfl⟩
    | cons x more =>
      obtain ⟨rfl, -⟩ := List.cons.inj hmore
      exact absurd hd (hrun d (by simp))

theorem tail_nil : Tail [] := ⟨[], [], List.forall_mem_nil _, Or.inl rfl, rfl⟩

/-- What follows a word may begin with more of the word. -/
theorem tail_cons (hc : Lower c ∨ Digit c) : Tail (c :: cs) ↔ Tail cs := by
  constructor
  · rintro ⟨w, more, hw, hmore, heq⟩
    cases w with
    | nil =>
      rcases hmore with rfl | ⟨sep, rest, hsep, -, rfl⟩
      · cases heq
      · obtain ⟨hne, hno⟩ := hsep.notWord
        obtain ⟨d, sep, rfl⟩ := List.exists_cons_of_ne_nil hne
        obtain ⟨rfl, -⟩ := List.cons.inj heq
        exact absurd hc (hno c List.mem_cons_self)
    | cons d w =>
      obtain ⟨rfl, rfl⟩ := List.cons.inj heq
      exact ⟨w, more, (List.forall_mem_cons.mp hw).2, hmore, rfl⟩
  · rintro ⟨w, more, hw, hmore, rfl⟩
    exact ⟨c :: w, more, List.forall_mem_cons.mpr ⟨hc, hw⟩, hmore, rfl⟩

/-- If it begins with anything else, all of that is a separator. -/
theorem tail_append_cons (hne : sep ≠ []) (hsep : ∀ x ∈ sep, ¬(Lower x ∨ Digit x)) (hc : Lower c ∨ Digit c) :
    Tail (sep ++ c :: cs) ↔ Separator sep ∧ Tail (c :: cs) := by
  constructor
  · rintro ⟨w, more, hw, hmore, heq⟩
    obtain rfl : w = [] := by
      obtain ⟨x, sep, rfl⟩ := List.exists_cons_of_ne_nil hne
      refine List.eq_nil_iff_forall_not_mem.mpr fun y hy => ?_
      obtain ⟨y, w, rfl⟩ := List.exists_cons_of_ne_nil (List.ne_nil_of_mem hy)
      obtain ⟨rfl, -⟩ := List.cons.inj heq
      exact hsep x List.mem_cons_self (hw x List.mem_cons_self)
    rcases hmore with rfl | ⟨sep', rest, hsep', hrest, rfl⟩
    · simp at heq
    · cases rest with
      | nil => exact absurd hrest not_component_nil
      | cons d rest =>
        obtain ⟨hd, htail⟩ := component_cons.mp hrest
        obtain ⟨rfl, rfl, rfl⟩ := run_unique heq hsep hsep'.notWord.2 hc hd
        exact ⟨hsep', (tail_cons hc).mpr htail⟩
  · rintro ⟨hseparator, htail⟩
    exact ⟨[], _, List.forall_mem_nil _, Or.inr ⟨sep, _, hseparator, component_cons.mpr ⟨hc, (tail_cons hc).mp htail⟩, rfl⟩, rfl⟩

/-- The last character, if there is one, is one of a word. -/
def EndsInWord (cs : List Char) : Prop := ∀ c ∈ cs.getLast?, Lower c ∨ Digit c

theorem Component.endsInWord (h : Component cs) : EndsInWord cs := by
  induction h with
  | word hw => exact fun c hc => hw.2 c (List.mem_of_getLast? hc)
  | @join w sep rest _ _ hrest ih =>
    intro c hc
    have hne : rest ≠ [] := by
      rintro rfl
      exact not_component_nil hrest
    rw [← List.append_assoc, List.getLast?_append, List.getLast?_eq_some_getLast hne] at hc
    exact ih c (by rwa [List.getLast?_eq_some_getLast hne])

theorem Component.chars (h : Component cs) : ∀ c ∈ cs, Lower c ∨ Digit c ∨ c = '.' ∨ c = '_' ∨ c = '-' := by
  induction h with
  | word hw => exact fun c hc => by grind [hw.2 c hc]
  | @join w sep rest hw hsep _ ih =>
    intro c hc
    rcases List.mem_append.mp hc with hc | hc
    · grind [hw.2 c hc]
    · rcases List.mem_append.mp hc with hc | hc
      · cases hsep <;> grind
      · exact ih c hc

/-! ### Domains -/

/-- Letters, digits and dashes, with no dash at either end. -/
structure Label (l : List Char) : Prop where
  ne_nil : l ≠ []
  chars : ∀ c ∈ l, Lower c ∨ Upper c ∨ Digit c ∨ c = '-'
  head : l.head? ≠ some '-'
  last : l.getLast? ≠ some '-'

/-- Labels joined by dots. -/
def Host (h : List Char) : Prop := ∃ labels, labels ≠ [] ∧ (∀ l ∈ labels, Label l) ∧ h = ['.'].intercalate labels

/-- `[0-9]+` -/
def Port (p : List Char) : Prop := p ≠ [] ∧ ∀ c ∈ p, Digit c

/-- A host, and a port behind a colon if there is one. -/
def Address (a : List Char) : Prop := Host a ∨ ∃ h p, Host h ∧ Port p ∧ a = h ++ ':' :: p

/-- What is taken for a domain, not for a path component. -/
def DomainLike (d : List Char) : Prop := '.' ∈ d ∨ ':' ∈ d ∨ d = "localhost".toList

/-- An address that is taken for a domain. -/
def Domain (d : List Char) : Prop := Address d ∧ DomainLike d

theorem isLabel_iff : isLabel cs = true ↔ Label cs := by
  simp only [isLabel, Bool.and_eq_true, List.all_eq_true, Bool.or_eq_true, isAlnum_iff, beq_iff_eq, bne_iff_ne,
    Bool.not_eq_true', List.isEmpty_eq_false_iff, or_assoc]
  exact ⟨fun ⟨⟨⟨h₁, h₂⟩, h₃⟩, h₄⟩ => ⟨h₁, h₂, h₃, h₄⟩, fun ⟨h₁, h₂, h₃, h₄⟩ => ⟨⟨⟨h₁, h₂⟩, h₃⟩, h₄⟩⟩

theorem isHost_iff : isHost cs = true ↔ Host cs := by
  rw [isHost, List.all_eq_true]
  constructor
  · intro h
    refine ⟨Text.pieces '.' cs, Text.pieces_ne_nil '.' cs, fun l hl => isLabel_iff.mp (h l hl), ?_⟩
    exact (Text.intercalate_pieces '.' cs).symm
  · rintro ⟨labels, hne, hlabels, rfl⟩
    rw [Text.pieces_intercalate (fun l hl => mt ((hlabels l hl).chars '.') (by decide)) hne]
    exact fun l hl => isLabel_iff.mpr (hlabels l hl)

theorem isPort_iff : isPort cs = true ↔ Port cs := by
  simp [isPort, Port, isDigit_iff]

theorem Host.chars (h : Host cs) : ∀ c ∈ cs, Lower c ∨ Upper c ∨ Digit c ∨ c = '-' ∨ c = '.' := by
  obtain ⟨labels, -, hlabels, rfl⟩ := h
  intro c hc
  rcases Text.mem_intercalate hc with rfl | ⟨l, hl, hc⟩
  · simp
  · have := (hlabels l hl).chars c hc
    grind

theorem isDomain_iff : isDomain cs = true ↔ Address cs := by
  unfold isDomain
  split
  · next host digits hcut =>
    obtain ⟨rfl, hdigits⟩ := Text.cutLast_eq_some_iff.mp hcut
    rw [Bool.and_eq_true, isPort_iff, isHost_iff]
    constructor
    · rintro ⟨hport, hhost⟩
      exact Or.inr ⟨host, digits, hhost, hport, rfl⟩
    -- Digits have no colon, so the port of an address stands behind the last one.
    · rintro (h | ⟨h, p, hhost, hport, heq⟩)
      · exact absurd (h.chars ':' (by simp)) (by decide)
      · have hno : ':' ∉ p := mt (hport.2 ':') (by decide)
        have := Text.cutLast_append (a := h) hno
        rw [← heq, Text.cutLast_append hdigits] at this
        obtain ⟨rfl, rfl⟩ := Prod.mk.inj (Option.some.inj this)
        exact ⟨hport, hhost⟩
  · next hcut =>
    have hno := Text.cutLast_eq_none_iff.mp hcut
    rw [isHost_iff]
    refine ⟨Or.inl, ?_⟩
    rintro (h | ⟨h, p, -, -, rfl⟩)
    · exact h
    · exact absurd (by simp) hno

theorem Address.chars (h : Address cs) : ∀ c ∈ cs, Lower c ∨ Upper c ∨ Digit c ∨ c = '-' ∨ c = '.' ∨ c = ':' := by
  rcases h with h | ⟨host, port, hhost, hport, rfl⟩
  · intro c hc
    grind [h.chars c hc]
  · intro c hc
    rcases List.mem_append.mp hc with hc | hc
    · grind [hhost.chars c hc]
    · grind [hport.2]

theorem looksLikeDomain_iff : looksLikeDomain cs = true ↔ DomainLike cs := by
  simp [looksLikeDomain, DomainLike, or_assoc]

/-! ### Tags and digests -/

/-- `[A-Za-z0-9_]` -/
def TagStart (c : Char) : Prop := Lower c ∨ Upper c ∨ Digit c ∨ c = '_'

/-- `[A-Za-z0-9_][A-Za-z0-9_.-]{0,127}` -/
def Tag (t : List Char) : Prop :=
  ∃ c rest, t = c :: rest ∧ TagStart c ∧ rest.length ≤ 127 ∧ ∀ d ∈ rest, TagStart d ∨ d = '.' ∨ d = '-'

theorem Tag.chars (h : Tag cs) : ∀ c ∈ cs, Lower c ∨ Upper c ∨ Digit c ∨ c = '_' ∨ c = '.' ∨ c = '-' := by
  obtain ⟨d, rest, rfl, hd, -, hrest⟩ := h
  intro c hc
  rcases List.mem_cons.mp hc with rfl | hc
  · grind [TagStart]
  · grind [TagStart, hrest c hc]

/-- `[a-z0-9+._-]+` -/
def Algorithm (a : List Char) : Prop := a ≠ [] ∧ ∀ c ∈ a, Lower c ∨ Digit c ∨ c = '+' ∨ c = '.' ∨ c = '_' ∨ c = '-'

/-- `[0-9a-fA-F]{32,}` -/
def Hex (h : List Char) : Prop := 32 ≤ h.length ∧ ∀ c ∈ h, Digit c ∨ 'a' ≤ c ∧ c ≤ 'f' ∨ 'A' ≤ c ∧ c ≤ 'F'

/-- An algorithm and hexadecimal digits behind a colon. -/
def Digest (d : List Char) : Prop := ∃ algorithm hex, Algorithm algorithm ∧ Hex hex ∧ d = algorithm ++ ':' :: hex

theorem Digest.chars (h : Digest cs) :
    ∀ c ∈ cs, Lower c ∨ Upper c ∨ Digit c ∨ c = '+' ∨ c = '.' ∨ c = '_' ∨ c = '-' ∨ c = ':' := by
  obtain ⟨algorithm, hex, halgorithm, hhex, rfl⟩ := h
  intro c hc
  rcases List.mem_append.mp hc with hc | hc
  · grind [halgorithm.2 c hc]
  · rcases List.mem_cons.mp hc with rfl | hc
    · simp
    · rcases hhex.2 c hc with h | ⟨h₁, h₂⟩ | ⟨h₁, h₂⟩
      · simp [h]
      · exact Or.inl ⟨h₁, Char.le_trans h₂ (by decide)⟩
      · exact Or.inr (Or.inl ⟨h₁, Char.le_trans h₂ (by decide)⟩)

theorem tag_cons : Tag (c :: rest) ↔ TagStart c ∧ rest.length ≤ 127 ∧ ∀ d ∈ rest, TagStart d ∨ d = '.' ∨ d = '-' :=
  ⟨fun ⟨_, _, heq, h⟩ => by cases heq; exact h, fun h => ⟨c, rest, rfl, h⟩⟩

theorem not_tag_nil : ¬Tag [] := by
  rintro ⟨c, rest, heq, -⟩
  cases heq

instance : Decidable (Tag cs) :=
  match cs with
  | [] => .isFalse not_tag_nil
  | c :: rest =>
    decidable_of_iff (((isAlnum c || c == '_') && rest.length ≤ 127 &&
        rest.all fun d => isAlnum d || d == '_' || d == '.' || d == '-') = true)
      (by simp [tag_cons, TagStart, isAlnum_iff, or_assoc, and_assoc])

theorem isDigest_iff : isDigest cs = true ↔ Digest cs := by
  unfold isDigest
  split
  · next algorithm hex hcut =>
    obtain ⟨rfl, hno⟩ := Text.cutFirst_eq_some_iff.mp hcut
    have hword : (!algorithm.isEmpty && algorithm.all isAlgorithmChar && 32 ≤ hex.length && hex.all isHexDigit) = true ↔
        Algorithm algorithm ∧ Hex hex := by
      simp [Algorithm, Hex, isAlgorithmChar_iff, isHexDigit_iff, and_assoc]
    rw [hword]
    constructor
    · rintro ⟨halgorithm, hhex⟩
      exact ⟨algorithm, hex, halgorithm, hhex, rfl⟩
    · rintro ⟨a, x, ha, hx, heq⟩
      have hno' : ':' ∉ a := mt (ha.2 ':') (by decide)
      have := Text.cutFirst_append (b := x) hno'
      rw [← heq, Text.cutFirst_append hno] at this
      obtain ⟨rfl, rfl⟩ := Prod.mk.inj (Option.some.inj this)
      exact ⟨ha, hx⟩
  · next hcut =>
    refine iff_of_false Bool.false_ne_true ?_
    rintro ⟨a, x, -, -, rfl⟩
    exact absurd (by simp) (Text.cutFirst_eq_none_iff.mp hcut)

end Reference.Grammar
end Depot
