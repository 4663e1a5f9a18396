import Depot.Proofs.Json.Tokens

/-! Documents are read as they were written, in every layout that puts only blanks between their parts. The reader
    counts its steps; twice the length of what is written is always enough, so the bound never decides. -/

namespace Depot.Json

/-! ### Blanks -/

/-- Characters that the reader passes over. -/
def Blank (ws : List Char) : Prop := ∀ c ∈ ws, isSpace (some c) = true

theorem blank_nil : Blank [] := by simp [Blank]

/-- The layout puts only blanks between the parts of a document. -/
structure Layout.Plain (l : Layout) : Prop where
  lineBreak : ∀ depth, Blank (l.lineBreak depth)
  colon : ∃ ws, l.colon = ':' :: ws ∧ Blank ws

theorem compact_plain : Layout.compact.Plain where
  lineBreak _ := blank_nil
  colon := ⟨[], rfl, blank_nil⟩

theorem indented_plain : Layout.indented.Plain where
  lineBreak depth := by
    intro c hc
    rcases List.mem_cons.mp hc with rfl | hc
    · rfl
    · rw [List.eq_of_mem_replicate hc]
      rfl
  colon := ⟨[' '], rfl, by simp [Blank, isSpace]⟩

theorem skipSpace_blank {ws : List Char} (h : Blank ws) (rest : List Symbol) :
    skipSpace (ws.map some ++ rest) = skipSpace rest := by
  induction ws with
  | nil => rfl
  | cons c ws ih =>
    show skipSpace (some c :: (ws.map some ++ rest)) = _
    rw [skipSpace, List.dropWhile_cons_of_pos (h c (by simp))]
    exact ih fun c hc => h c (by simp [hc])

theorem skipSpace_cons {c : Char} (h : isSpace (some c) = false) (rest : List Symbol) :
    skipSpace (some c :: rest) = some c :: rest :=
  List.dropWhile_cons_of_neg (by simp [h])

/-- Blanks do not continue a number. -/
theorem endsNumber_blank {ws : List Char} (h : Blank ws) {c : Char} (hc : EndsNumber [some c]) (rest : List Symbol) :
    EndsNumber (ws.map some ++ some c :: rest) := by
  cases ws with
  | nil => exact hc
  | cons d ws =>
    have hd := h d (by simp)
    rintro _ ⟨⟩
    simp only [isSpace, Bool.or_eq_true, beq_iff_eq] at hd
    rcases hd with ((rfl | rfl) | rfl) | rfl <;> decide

theorem endsNumber_comma (rest : List Symbol) : EndsNumber (some ',' :: rest) := by
  rintro _ ⟨⟩
  decide

/-! ### Documents -/

/-- The first character of a document is no blank and ends no list. -/
theorem renderAt_head (l : Layout) (depth : Nat) (j : Json) :
    ∃ c cs, renderAt l depth j = c :: cs ∧ isSpace (some c) = false ∧ c ≠ ']' := by
  cases j with
  | null => exact ⟨'n', _, rfl, by decide, by decide⟩
  | bool b => cases b <;> exact ⟨_, _, rfl, by decide, by decide⟩
  | integer n =>
    unfold renderAt renderInteger
    split
    · exact ⟨'-', _, rfl, by decide, by decide⟩
    · cases hcs : Nat.toDigits 10 n.natAbs with
      | nil => exact absurd hcs Nat.toDigits_ne_nil
      | cons c cs =>
        have hc : c.isDigit = true :=
          Nat.isDigit_of_mem_toDigits (b := 10) (n := n.natAbs) (by decide) (by decide) (by simp [hcs])
        refine ⟨c, cs, rfl, ?_, ?_⟩
        · rw [isSpace]
          refine Bool.eq_false_iff.mpr fun h => ?_
          simp only [Bool.or_eq_true, beq_iff_eq] at h
          rcases h with ((rfl | rfl) | rfl) | rfl <;> exact absurd hc (by decide)
        · rintro rfl
          exact absurd hc (by decide)
  | fractional => exact ⟨'-', _, rfl, by decide, by decide⟩
  | string t => cases t <;> exact ⟨'"', _, rfl, by decide, by decide⟩
  | array xs => cases xs <;> exact ⟨'[', _, rfl, by decide, by decide⟩
  | object ms => rcases ms with _ | ⟨⟨k, v⟩, ms⟩ <;> exact ⟨'{', _, rfl, by decide, by decide⟩

theorem renderAt_length (l : Layout) (depth : Nat) (j : Json) : 0 < (renderAt l depth j).length := by
  obtain ⟨c, cs, h, -⟩ := renderAt_head l depth j
  simp [h]

/-! ### One step of the reader -/

section Steps
variable {n : Nat} {cs rest : List Symbol}

theorem value_string (h : skipSpace cs = some '"' :: rest) :
    value (n + 1) cs = (literal rest).map fun p => (.string p.1, p.2) := by
  rw [value, h]
  rfl

theorem value_bracket (h : skipSpace cs = some '[' :: rest) : value (n + 1) cs = match skipSpace rest with
    | some ']' :: rest => some (array [], rest)
    | rest => (items n rest).map fun p => (array p.1, p.2) := by
  rw [value, h]
  rfl

theorem value_brace (h : skipSpace cs = some '{' :: rest) : value (n + 1) cs = match skipSpace rest with
    | some '}' :: rest => some (object [], rest)
    | rest => (members n rest).map fun p => (object p.1, p.2) := by
  rw [value, h]
  rfl

theorem value_array (h : skipSpace cs = some '[' :: rest) {c : Char} {cs' : List Symbol}
    (hrest : skipSpace rest = some c :: cs') (hc : c ≠ ']') :
    value (n + 1) cs = (items n (some c :: cs')).map fun p => (.array p.1, p.2) := by
  rw [value_bracket h, hrest]
  split
  · next heq => exact absurd (Option.some.inj (List.cons.inj heq).1) hc
  · rfl

theorem value_object (h : skipSpace cs = some '{' :: rest) {cs' : List Symbol}
    (hrest : skipSpace rest = some '"' :: cs') :
    value (n + 1) cs = (members n (some '"' :: cs')).map fun p => (.object p.1, p.2) := by
  rw [value_brace h, hrest]
  rfl

theorem value_number {c : Char} (h : skipSpace cs = some c :: rest) (hc : c.isDigit = true ∨ c = '-') :
    value (n + 1) cs = number (some c :: rest) := by
  have hne : c ≠ 'n' ∧ c ≠ 't' ∧ c ≠ 'f' ∧ c ≠ '"' ∧ c ≠ '[' ∧ c ≠ '{' := by
    refine ⟨?_, ?_, ?_, ?_, ?_, ?_⟩ <;> (rintro rfl; revert hc; decide)
  rw [value, h]
  split <;> simp_all

theorem items_comma {v : Json} (hv : value n cs = some (v, rest)) {cs' : List Symbol}
    (hrest : skipSpace rest = some ',' :: cs') :
    items (n + 1) cs = (items n cs').map fun p => (v :: p.1, p.2) := by
  rw [items, hv]
  dsimp only
  rw [hrest]
  rfl

theorem items_end {v : Json} (hv : value n cs = some (v, rest)) {cs' : List Symbol}
    (hrest : skipSpace rest = some ']' :: cs') : items (n + 1) cs = some ([v], cs') := by
  rw [items, hv]
  dsimp only
  rw [hrest]
  rfl

theorem members_quote {key : List Symbol} (h : skipSpace cs = some '"' :: key) :
    members (n + 1) cs = match literal key with
      | none => none
      | some (k, after) =>
        match skipSpace after with
        | some ':' :: colon =>
          match value n colon with
          | none => none
          | some (v, rest) =>
            match skipSpace rest with
            | some ',' :: rest => (members n rest).map fun p => ((k, v) :: p.1, p.2)
            | some '}' :: rest => some ([(k, v)], rest)
            | _ => none
        | _ => none := by
  rw [members, h]
  rfl

theorem members_colon {key after colon : List Symbol} {k : Option String} (h : skipSpace cs = some '"' :: key)
    (hkey : literal key = some (k, after)) (hafter : skipSpace after = some ':' :: colon) :
    members (n + 1) cs = match value n colon with
      | none => none
      | some (v, rest) =>
        match skipSpace rest with
        | some ',' :: rest => (members n rest).map fun p => ((k, v) :: p.1, p.2)
        | some '}' :: rest => some ([(k, v)], rest)
        | _ => none := by
  rw [members_quote h, hkey]
  dsimp only
  rw [hafter]
  rfl

/-- A member up to what follows its value. -/
def ReadsMember (n : Nat) (cs : List Symbol) (k : Option String) (v : Json) (rest : List Symbol) : Prop :=
  ∃ key after colon, skipSpace cs = some '"' :: key ∧ literal key = some (k, after) ∧
    skipSpace after = some ':' :: colon ∧ value n colon = some (v, rest)

/-- What the reader does behind the value of a member. -/
theorem members_step {k : Option String} {v : Json} (h : ReadsMember n cs k v rest) :
    members (n + 1) cs = match skipSpace rest with
      | some ',' :: rest => (members n rest).map fun p => ((k, v) :: p.1, p.2)
      | some '}' :: rest => some ([(k, v)], rest)
      | _ => none := by
  obtain ⟨key, after, colon, hcs, hkey, hafter, hv⟩ := h
  rw [members_colon hcs hkey hafter, hv]

theorem members_comma {k : Option String} {v : Json} (h : ReadsMember n cs k v rest) {cs' : List Symbol}
    (hrest : skipSpace rest = some ',' :: cs') :
    members (n + 1) cs = (members n cs').map fun p => ((k, v) :: p.1, p.2) := by
  rw [members_step h, hrest]
  rfl

theorem members_end {k : Option String} {v : Json} (h : ReadsMember n cs k v rest) {cs' : List Symbol}
    (hrest : skipSpace rest = some '}' :: cs') : members (n + 1) cs = some ([(k, v)], cs') := by
  rw [members_step h, hrest]
  rfl

end Steps

/-! ### Whole documents -/

section Documents
variable {l : Layout}

theorem renderText_eq (t : Option String) : renderText t = '"' :: (renderText t).tail := by
  cases t <;> rfl

theorem value_literal (t : Option String) {n depth : Nat} {ws : List Char} (hws : Blank ws) (rest : List Symbol) :
    value (n + 1) (ws.map some ++ ((renderAt l depth (.string t)).map some ++ rest)) = some (.string t, rest) := by
  have h : skipSpace (ws.map some ++ ((renderAt l depth (.string t)).map some ++ rest)) =
      some '"' :: ((renderText t).tail.map some ++ rest) := by
    rw [skipSpace_blank hws, renderAt, renderText_eq]
    exact skipSpace_cons (by decide) _
  rw [value_string h, literal_renderText, Option.map_some]

theorem value_integer (i : Int) {n depth : Nat} {ws : List Char} (hws : Blank ws) {rest : List Symbol}
    (hrest : EndsNumber rest) :
    value (n + 1) (ws.map some ++ ((renderAt l depth (.integer i)).map some ++ rest)) = some (.integer i, rest) := by
  obtain ⟨c, cs, hcs, hspace, -⟩ := renderAt_head l depth (.integer i)
  have h : skipSpace (ws.map some ++ ((renderAt l depth (.integer i)).map some ++ rest)) =
      some c :: (cs.map some ++ rest) := by
    rw [skipSpace_blank hws, hcs]
    exact skipSpace_cons hspace _
  have hcs' : renderInteger i = c :: cs := by rw [← hcs, renderAt]
  have hc : c.isDigit = true ∨ c = '-' := by
    unfold renderInteger at hcs'
    split at hcs'
    · exact Or.inr (List.cons.inj hcs').1.symm
    · exact Or.inl (Nat.isDigit_of_mem_toDigits (b := 10) (n := i.natAbs) (by decide) (by decide) (by simp [hcs']))
  rw [value_number h hc]
  have hnumber := number_renderInteger i hrest
  rwa [hcs'] at hnumber

theorem value_fractional {n depth : Nat} {ws : List Char} (hws : Blank ws) {rest : List Symbol}
    (hrest : EndsNumber rest) :
    value (n + 1) (ws.map some ++ ((renderAt l depth .fractional).map some ++ rest)) = some (.fractional, rest) := by
  have h : skipSpace (ws.map some ++ ((renderAt l depth .fractional).map some ++ rest)) =
      some '-' :: (['0'].map some ++ rest) := by
    rw [skipSpace_blank hws, renderAt]
    exact skipSpace_cons (by decide) _
  rw [value_number h (Or.inr rfl)]
  exact unsigned_toDigits true 0 hrest

/-- What the reader finds of a member, its value apart. -/
theorem readsMember {k : Option String} {v : Json} {n depth : Nat} {ws colon : List Char} {rest rest' : List Symbol}
    (hws : Blank ws) (hcolon : l.colon = ':' :: colon)
    (hv : value n (colon.map some ++ ((renderAt l depth v).map some ++ rest)) = some (v, rest')) :
    ReadsMember n (ws.map some ++ ((renderText k ++ l.colon ++ renderAt l depth v).map some ++ rest)) k v rest' := by
  refine ⟨(renderText k).tail.map some ++ (some ':' :: (colon.map some ++ ((renderAt l depth v).map some ++ rest))),
    some ':' :: (colon.map some ++ ((renderAt l depth v).map some ++ rest)), _, ?_, literal_renderText _ _,
    skipSpace_cons (by decide) _, hv⟩
  rw [skipSpace_blank hws, renderText_eq, hcolon]
  simp only [List.cons_append, List.map_append, List.map_cons, List.append_assoc, List.tail_cons]
  exact skipSpace_cons (by decide) _

-- The induction is on the document. The fuel need only be enough for it: two steps for each character are.
mutual

/-- A document is read as it was written, behind any blanks and before anything that does not continue a number. -/
theorem value_renderAt (hl : l.Plain) : ∀ (j : Json) (n depth : Nat) (ws : List Char) (rest : List Symbol), Blank ws →
    EndsNumber rest → 2 * (renderAt l depth j).length ≤ n + 1 →
    value n (ws.map some ++ ((renderAt l depth j).map some ++ rest)) = some (j, rest)
  | j, 0, depth, _, _, _, _, hn => by
    have hpos := renderAt_length l depth j
    omega
  | .null, n + 1, depth, ws, rest, hws, _, _ => by rw [value, skipSpace_blank hws]; rfl
  | .bool true, n + 1, depth, ws, rest, hws, _, _ => by rw [value, skipSpace_blank hws]; rfl
  | .bool false, n + 1, depth, ws, rest, hws, _, _ => by rw [value, skipSpace_blank hws]; rfl
  | .integer i, n + 1, depth, ws, rest, hws, hrest, _ => value_integer i hws hrest
  | .fractional, n + 1, depth, ws, rest, hws, hrest, _ => value_fractional hws hrest
  | .string t, n + 1, depth, ws, rest, hws, _, _ => value_literal t hws rest
  | .array [], n + 1, depth, ws, rest, hws, _, _ => by rw [value, skipSpace_blank hws]; rfl
  | .array (x :: xs), n + 1, depth, ws, rest, hws, _, hn => by
    obtain ⟨c, cs, hcs, hspace, hc⟩ := renderAt_head l (depth + 1) x
    rw [renderAt] at hn ⊢
    simp only [List.length_cons, List.length_append] at hn
    have hitems := items_renderItems hl x xs n (depth + 1) [] _ rest blank_nil (hl.lineBreak depth) (by omega)
    simp only [List.map_nil, List.nil_append, hcs, List.map_cons, List.cons_append, List.map_append,
      List.append_assoc] at hitems ⊢
    rw [value_array (by rw [skipSpace_blank hws]; exact skipSpace_cons (by decide) _)
      (by rw [skipSpace_blank (hl.lineBreak _)]; exact skipSpace_cons hspace _) hc]
    rw [hitems, Option.map_some]
  | .object [], n + 1, depth, ws, rest, hws, _, _ => by rw [value, skipSpace_blank hws]; rfl
  | .object ((k, v) :: ms), n + 1, depth, ws, rest, hws, _, hn => by
    rw [renderAt] at hn ⊢
    simp only [List.length_cons, List.length_append] at hn
    have hmembers := members_renderMembers hl k v ms n (depth + 1) [] _ rest blank_nil (hl.lineBreak depth) (by omega)
    rw [renderText_eq] at hmembers ⊢
    simp only [List.map_nil, List.nil_append, List.map_cons, List.cons_append, List.map_append,
      List.append_assoc] at hmembers ⊢
    rw [value_object (by rw [skipSpace_blank hws]; exact skipSpace_cons (by decide) _)
      (by rw [skipSpace_blank (hl.lineBreak _)]; exact skipSpace_cons (by decide) _)]
    rw [hmembers, Option.map_some]
termination_by j => sizeOf j

theorem items_renderItems (hl : l.Plain) : ∀ (x : Json) (xs : List Json) (n depth : Nat) (ws last : List Char)
    (rest : List Symbol), Blank ws → Blank last →
    2 * ((renderAt l depth x).length + (renderItems l depth xs).length) ≤ n →
    items n (ws.map some ++ ((renderAt l depth x ++ renderItems l depth xs ++ last ++ [']']).map some ++ rest)) =
      some (x :: xs, rest)
  | x, xs, 0, depth, _, _, _, _, _, hn => by
    have hpos := renderAt_length l depth x
    omega
  | x, [], n + 1, depth, ws, last, rest, hws, hlast, hn => by
    simp only [renderItems, List.append_nil, List.map_append, List.append_assoc, List.length_nil, List.map_cons,
      List.map_nil, List.cons_append, List.nil_append] at hn ⊢
    have hx := value_renderAt hl x n depth ws (last.map some ++ some ']' :: rest) hws
      (endsNumber_blank hlast (by rintro _ ⟨⟩; decide) _) (by omega)
    exact items_end hx (by rw [skipSpace_blank hlast]; exact skipSpace_cons (by decide) _)
  | x, y :: ys, n + 1, depth, ws, last, rest, hws, hlast, hn => by
    simp only [renderItems, List.cons_append, List.map_append, List.append_assoc, List.length_cons, List.length_append,
      List.map_cons, List.map_nil, List.nil_append] at hn ⊢
    have hx := value_renderAt hl x n depth ws (some ',' :: ((l.lineBreak depth).map some ++
      ((renderAt l depth y).map some ++ ((renderItems l depth ys).map some ++ (last.map some ++ some ']' :: rest)))))
      hws (endsNumber_comma _) (by omega)
    have hxs := items_renderItems hl y ys n depth _ last rest (hl.lineBreak depth) hlast (by omega)
    rw [items_comma hx (skipSpace_cons (by decide) _)]
    simp only [List.map_append, List.append_assoc, List.map_cons, List.map_nil, List.cons_append,
      List.nil_append] at hxs
    rw [hxs, Option.map_some]
termination_by x xs => sizeOf x + sizeOf xs

theorem members_renderMembers (hl : l.Plain) : ∀ (k : Option String) (v : Json) (ms : List (Option String × Json))
    (n depth : Nat) (ws last : List Char) (rest : List Symbol), Blank ws → Blank last →
    2 * ((renderAt l depth v).length + (renderMembers l depth ms).length) ≤ n →
    members n (ws.map some ++ ((renderText k ++ l.colon ++ renderAt l depth v ++ renderMembers l depth ms ++ last ++
      ['}']).map some ++ rest)) = some ((k, v) :: ms, rest)
  | k, v, ms, 0, depth, _, _, _, _, _, hn => by
    have hpos := renderAt_length l depth v
    omega
  | k, v, [], n + 1, depth, ws, last, rest, hws, hlast, hn => by
    obtain ⟨colon, hcolon, hblank⟩ := hl.colon
    simp only [renderMembers, List.append_nil, List.length_nil] at hn ⊢
    have hv := value_renderAt hl v n depth colon (last.map some ++ some '}' :: rest) hblank
      (endsNumber_blank hlast (by rintro _ ⟨⟩; decide) _) (by omega)
    have hmember := readsMember (k := k) hws hcolon hv
    rw [List.append_assoc (_ ++ _), List.map_append, List.append_assoc]
    rw [show (last ++ ['}']).map some ++ rest = last.map some ++ some '}' :: rest by simp]
    exact members_end hmember (by rw [skipSpace_blank hlast]; exact skipSpace_cons (by decide) _)
  | k, v, (k', v') :: ms, n + 1, depth, ws, last, rest, hws, hlast, hn => by
    obtain ⟨colon, hcolon, hblank⟩ := hl.colon
    simp only [renderMembers, List.length_cons, List.length_append] at hn
    have hv := value_renderAt hl v n depth colon (some ',' :: ((l.lineBreak depth).map some ++
      ((renderText k' ++ l.colon ++ renderAt l depth v' ++ renderMembers l depth ms ++ last ++ ['}']).map some ++
        rest))) hblank (endsNumber_comma _) (by omega)
    have hms := members_renderMembers hl k' v' ms n depth _ last rest (hl.lineBreak depth) hlast (by omega)
    have hmember := readsMember (k := k) hws hcolon hv
    rw [renderMembers]
    simp only [List.map_append, List.append_assoc, List.map_cons, List.cons_append] at hmember hms ⊢
    rw [members_comma hmember (skipSpace_cons (by decide) _), hms, Option.map_some]
termination_by _ v ms => sizeOf v + sizeOf ms

end

theorem parse_render (hl : l.Plain) (j : Json) : parse (String.ofList (renderAt l 0 j)) = some j := by
  have hvalue := value_renderAt hl j (2 * (renderAt l 0 j).length + 2) 0 [] [] blank_nil (by simp [EndsNumber])
    (by omega)
  rw [List.map_nil, List.nil_append, List.append_nil] at hvalue
  rw [parse, String.toList_ofList, parseSymbols, List.length_map, hvalue]
  rfl

end Documents

theorem parse_compact (j : Json) : parse j.compact = some j := parse_render compact_plain j

theorem parse_pretty (j : Json) : parse j.pretty = some j := parse_render indented_plain j

end Depot.Json
