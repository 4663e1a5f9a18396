/-!
Cutting a text at a separator. A text is cut at the first or at the last occurrence of the
separator, or into all the pieces between occurrences. `cutFirst_eq_some_iff` and
`cutLast_eq_some_iff` say which cut is taken; both parts around it give the text back.
-/
namespace Depot.Text

/-- The parts before and after the first `sep`. -/
def cutFirst (sep : Char) : List Char → Option (List Char × List Char)
  | [] => none
  | c :: cs =>
    if c = sep then some ([], cs)
    else (cutFirst sep cs).map fun p => (c :: p.1, p.2)

/-- The parts before and after the last `sep`. -/
def cutLast (sep : Char) : List Char → Option (List Char × List Char)
  | [] => none
  | c :: cs =>
    match cutLast sep cs with
    | some p => some (c :: p.1, p.2)
    | none => if c = sep then some ([], cs) else none

/-- The pieces between the occurrences of `sep`; a text without `sep` is one piece. -/
def pieces (sep : Char) : List Char → List (List Char)
  | [] => [[]]
  | c :: cs =>
    if c = sep then [] :: pieces sep cs
    else
      match pieces sep cs with
      | [] => [[c]]
      | p :: ps => (c :: p) :: ps

/-- What follows `lead`, if the text begins with it. -/
def after? (lead cs : List Char) : Option (List Char) :=
  lead.isPrefixOf? cs

/-! ### The first cut -/

theorem cutFirst_eq_none_iff {sep : Char} {cs : List Char} : cutFirst sep cs = none ↔ sep ∉ cs := by
  induction cs with
  | nil => simp [cutFirst]
  | cons c cs ih =>
    by_cases h : c = sep
    · simp [cutFirst, h]
    · simp [cutFirst, h, ih, Ne.symm h]

theorem cutFirst_append {sep : Char} {a b : List Char} (h : sep ∉ a) :
    cutFirst sep (a ++ sep :: b) = some (a, b) := by
  induction a with
  | nil => simp [cutFirst]
  | cons c a ih =>
    simp only [List.mem_cons, not_or] at h
    simp [cutFirst, Ne.symm h.1, ih h.2]

theorem cutFirst_eq_some_iff {sep : Char} {cs a b : List Char} :
    cutFirst sep cs = some (a, b) ↔ cs = a ++ sep :: b ∧ sep ∉ a := by
  refine ⟨fun h => ?_, fun ⟨h, ha⟩ => h ▸ cutFirst_append ha⟩
  induction cs generalizing a b with
  | nil => simp [cutFirst] at h
  | cons c cs ih =>
    by_cases hc : c = sep
    · simp only [cutFirst, hc, if_true, Option.some.injEq, Prod.mk.injEq] at h
      obtain ⟨rfl, rfl⟩ := h
      simp [hc]
    · simp only [cutFirst, hc, if_false, Option.map_eq_some_iff] at h
      obtain ⟨⟨a', b'⟩, h', heq⟩ := h
      simp only [Prod.mk.injEq] at heq
      obtain ⟨rfl, rfl⟩ := heq
      obtain ⟨rfl, hn⟩ := ih h'
      simp [hn, Ne.symm hc]

theorem cut_unique {sep : Char} {a b a' b' : List Char} (ha : sep ∉ a) (ha' : sep ∉ a')
    (h : a ++ sep :: b = a' ++ sep :: b') : a = a' ∧ b = b' := by
  have hcut := cutFirst_append (b := b) ha
  rw [h, cutFirst_append ha'] at hcut
  obtain ⟨rfl, rfl⟩ := Prod.mk.inj (Option.some.inj hcut)
  exact ⟨rfl, rfl⟩

/-! ### The last cut -/

theorem cutLast_eq_none_iff {sep : Char} {cs : List Char} : cutLast sep cs = none ↔ sep ∉ cs := by
  induction cs with
  | nil => simp [cutLast]
  | cons c cs ih =>
    rw [cutLast]
    cases hl : cutLast sep cs with
    | some p =>
      have : sep ∈ cs := by
        refine Decidable.byContradiction fun hn => ?_
        rw [ih.mpr hn] at hl
        simp at hl
      simp [this]
    | none =>
      have := ih.mp hl
      by_cases h : c = sep
      · simp [h]
      · simp [h, this, Ne.symm h]

theorem cutLast_append {sep : Char} {a b : List Char} (h : sep ∉ b) :
    cutLast sep (a ++ sep :: b) = some (a, b) := by
  induction a with
  | nil => simp [cutLast, cutLast_eq_none_iff.mpr h]
  | cons c a ih => simp [cutLast, ih]

theorem cutLast_eq_some_iff {sep : Char} {cs a b : List Char} :
    cutLast sep cs = some (a, b) ↔ cs = a ++ sep :: b ∧ sep ∉ b := by
  refine ⟨fun h => ?_, fun ⟨h, hb⟩ => h ▸ cutLast_append hb⟩
  induction cs generalizing a b with
  | nil => simp [cutLast] at h
  | cons c cs ih =>
    rw [cutLast] at h
    cases hl : cutLast sep cs with
    | some p =>
      simp only [hl, Option.some.injEq, Prod.mk.injEq] at h
      obtain ⟨rfl, rfl⟩ := h
      obtain ⟨rfl, hn⟩ := ih (a := p.1) (b := p.2) hl
      simp [hn]
    | none =>
      have hn := cutLast_eq_none_iff.mp hl
      by_cases hc : c = sep
      · simp only [hl, hc, if_true, Option.some.injEq, Prod.mk.injEq] at h
        obtain ⟨rfl, rfl⟩ := h
        simp [hc, hn]
      · simp [hl, hc] at h

/-! ### All pieces -/

theorem pieces_ne_nil (sep : Char) (cs : List Char) : pieces sep cs ≠ [] := by
  cases cs with
  | nil => simp [pieces]
  | cons c cs =>
    rw [pieces]
    split
    · simp
    · split <;> simp

theorem pieces_of_not_mem {sep : Char} {cs : List Char} (h : sep ∉ cs) : pieces sep cs = [cs] := by
  induction cs with
  | nil => rfl
  | cons c cs ih =>
    simp only [List.mem_cons, not_or] at h
    simp [pieces, Ne.symm h.1, ih h.2]

theorem pieces_append {sep : Char} {a b : List Char} (h : sep ∉ a) :
    pieces sep (a ++ sep :: b) = a :: pieces sep b := by
  induction a with
  | nil => simp [pieces]
  | cons c a ih =>
    simp only [List.mem_cons, not_or] at h
    simp [pieces, Ne.symm h.1, ih h.2]

/-! ### A leading part -/

@[simp] theorem after?_nil (cs : List Char) : after? [] cs = some cs := by
  cases cs <;> rfl

@[simp] theorem after?_cons_nil (c : Char) (lead : List Char) : after? (c :: lead) [] = none := rfl

theorem after?_cons_cons (c d : Char) (lead cs : List Char) :
    after? (c :: lead) (d :: cs) = if c == d then after? lead cs else none := rfl

theorem after?_append (lead cs : List Char) : after? lead (lead ++ cs) = some cs := by
  induction lead with
  | nil => exact after?_nil cs
  | cons c lead ih => simpa [after?_cons_cons] using ih

theorem after?_eq_some_iff {lead cs rest : List Char} :
    after? lead cs = some rest ↔ cs = lead ++ rest := by
  refine ⟨fun h => ?_, fun h => h ▸ after?_append lead rest⟩
  induction lead generalizing cs with
  | nil => simpa using h
  | cons c lead ih =>
    cases cs with
    | nil => simp at h
    | cons d cs =>
      by_cases hd : c = d
      · subst hd
        simp only [after?_cons_cons, BEq.rfl, if_true] at h
        simp [ih h]
      · simp [after?_cons_cons, hd] at h

end Depot.Text
