import Depot.Proofs.Bytes
import Depot.Proofs.Disk.Names
import Mathlib.Data.List.Flatten

/-! The folder that a path lies in, as text. It is spelled by the components of the path, and what they leave out,
    empty pieces and dots, takes no step; so there is a way to it wherever there is a way to the path. -/

namespace Depot

/-! ### Pieces put together -/

namespace Text
variable {l l' : List (List Char)}

theorem notMem_of_mem_pieces {sep : Char} {cs piece : List Char} (h : piece ∈ pieces sep cs) : sep ∉ piece := by
  induction cs generalizing piece with
  | nil =>
    rw [pieces, List.mem_singleton] at h
    simp [h]
  | cons c cs ih =>
    rw [pieces] at h
    split at h
    · rcases List.mem_cons.mp h with rfl | h
      · simp
      · exact ih h
    · next hc =>
      split at h
      · next hnil => exact absurd hnil (pieces_ne_nil sep cs)
      · next first rest hpieces =>
        rcases List.mem_cons.mp h with rfl | h
        · rw [List.mem_cons, not_or]
          exact ⟨Ne.symm hc, ih (hpieces ▸ List.mem_cons_self)⟩
        · exact ih (hpieces ▸ List.mem_cons_of_mem _ h)

theorem flatten_intersperse_cons (a : List Char) (l : List (List Char)) :
    ((a :: l).intersperse ['/']).flatten = a ++ l.flatMap ('/' :: ·) := by
  induction l generalizing a with
  | nil => simp
  | cons b l ih => simp [List.intersperse_cons_cons, ih]

theorem pieces_flatten_intersperse (hne : l ≠ []) (h : ∀ piece ∈ l, '/' ∉ piece) :
    pieces '/' (l.intersperse ['/']).flatten = l := by
  obtain ⟨a, l, rfl⟩ := List.exists_cons_of_ne_nil hne
  clear hne
  rw [flatten_intersperse_cons]
  induction l generalizing a with
  | nil => simpa using pieces_of_not_mem (h a (by simp))
  | cons b l ih =>
    rw [List.flatMap_cons, List.cons_append, pieces_append (h a (by simp)),
      ih b fun piece hpiece => h piece (List.mem_cons_of_mem _ hpiece)]

theorem flatten_intersperse_pieces (cs : List Char) : ((pieces '/' cs).intersperse ['/']).flatten = cs := by
  induction cs with
  | nil => rfl
  | cons c cs ih =>
    obtain ⟨a, l, hpieces⟩ := List.exists_cons_of_ne_nil (pieces_ne_nil '/' cs)
    rw [hpieces, flatten_intersperse_cons] at ih
    rw [pieces, hpieces]
    split
    · next hc => rw [flatten_intersperse_cons, List.flatMap_cons, List.nil_append, List.cons_append, ih, hc]
    · rw [flatten_intersperse_cons, List.cons_append, ih]

theorem flatten_intersperse_sublist (h : l.Sublist l') :
    (l.intersperse ['/']).flatten.Sublist (l'.intersperse ['/']).flatten := by
  induction h with
  | slnil => exact .slnil
  | @cons l l' a h ih =>
    -- what is left out takes its slash with it
    have hslashes : (l.intersperse ['/']).flatten.Sublist (l.flatMap ('/' :: ·)) := by
      cases l with
      | nil => exact .slnil
      | cons b l =>
        rw [flatten_intersperse_cons, List.flatMap_cons]
        exact List.sublist_cons_self _ _
    rw [flatten_intersperse_cons]
    exact (hslashes.trans (h.flatMap _)).trans (List.sublist_append_right _ _)
  | cons_cons a h ih =>
    rw [flatten_intersperse_cons, flatten_intersperse_cons]
    exact List.Sublist.append (List.Sublist.refl _) (h.flatMap _)

end Text

/-! ### Components -/

namespace Path
variable {path base x : String} {l : List (List Char)}

theorem components_sublist (path : String) : (components path).Sublist (Text.pieces '/' path.toList) := by
  unfold components
  generalize Text.pieces '/' path.toList = pieces
  dsimp only
  split
  · next hhead =>
    obtain ⟨rest, rfl⟩ := List.head?_eq_some_iff.mp hhead
    rw [List.filter_cons_of_neg (by simp)]
    exact List.filter_sublist.cons_cons _
  · exact List.filter_sublist

theorem ne_nil_of_mem_components {piece : List Char} (h : piece ∈ components path) : piece ≠ [] := by
  rcases List.mem_append.mp h with h | h
  · split at h
    · rw [List.mem_singleton.mp h]
      simp
    · cases h
  · exact (of_decide_eq_true (List.mem_filter.mp h).2).1

theorem no_slash_of_mem_components {piece : List Char} (h : piece ∈ components path) : '/' ∉ piece :=
  Text.notMem_of_mem_pieces ((components_sublist path).subset h)

theorem components_concat {front : List (List Char)} {last : List Char}
    (hpieces : Text.pieces '/' path.toList = front ++ [last]) (hne : last ≠ []) (hdot : last ≠ ['.']) :
    ∃ l, components path = l ++ [last] := by
  unfold components
  rw [hpieces]
  dsimp only
  rw [List.filter_append, List.filter_cons_of_pos (by simp [hne, hdot])]
  exact ⟨_, (List.append_assoc ..).symm⟩

theorem components_join (base : String) (hx : IsName x) : ∃ l, components (join base x) = l ++ [x.toList] :=
  components_concat (pieces_join base hx.no_slash) hx.ne_nil hx.ne_dot

theorem no_slash_of_fileName? (h : fileName? path = some x) : '/' ∉ x.toList := by
  unfold fileName? at h
  split at h
  · cases h
  · next last hlast =>
    split at h
    · cases h
    · obtain rfl := Option.some.inj h
      rw [String.toList_ofList]
      exact no_slash_of_mem_components (List.mem_of_getLast? hlast)

theorem pieces_ofComponents (absolute : Bool) (hne : l ≠ []) (h : ∀ piece ∈ l, '/' ∉ piece) :
    Text.pieces '/' (ofComponents absolute l).toList = (if absolute then [[]] else []) ++ l := by
  rw [ofComponents, String.toList_ofList]
  cases absolute with
  | false => exact Text.pieces_flatten_intersperse hne h
  | true =>
    rw [if_pos rfl, List.singleton_append, Text.pieces, if_pos rfl]
    exact congrArg ([] :: ·) (Text.pieces_flatten_intersperse hne h)

theorem isAbsolute_ofComponents (absolute : Bool) (hne : ∀ piece ∈ l, piece ≠ []) (h : ∀ piece ∈ l, '/' ∉ piece) :
    isAbsolute (ofComponents absolute l) = absolute := by
  rw [isAbsolute, ofComponents, String.toList_ofList]
  cases absolute with
  | true => rfl
  | false =>
    cases l with
    | nil => rfl
    | cons piece l =>
      obtain ⟨c, cs, rfl⟩ := List.exists_cons_of_ne_nil (hne piece List.mem_cons_self)
      have hc : c ≠ '/' := fun heq => h _ List.mem_cons_self (heq ▸ List.mem_cons_self)
      rw [Text.flatten_intersperse_cons]
      simpa using hc

/-- What is spelled by some components of a path is no longer than the path and has no other characters. -/
theorem ofComponents_sublist (h : l.Sublist (components path)) :
    (ofComponents (isAbsolute path) l).toList.Sublist path.toList := by
  have hpieces := h.trans (components_sublist path)
  have hpath := Text.flatten_intersperse_pieces path.toList
  rw [ofComponents, String.toList_ofList]
  cases habsolute : isAbsolute path with
  | false =>
    have hjoined := Text.flatten_intersperse_sublist hpieces
    rwa [hpath] at hjoined
  | true =>
    -- the piece before the first slash is empty and no component
    obtain ⟨cs, hcs⟩ : ∃ cs, path.toList = '/' :: cs := by
      rw [isAbsolute, beq_iff_eq, List.head?_eq_some_iff] at habsolute
      exact habsolute
    rw [hcs, Text.pieces, if_pos rfl] at hpieces
    have hrest : l.Sublist (Text.pieces '/' cs) := by
      cases hpieces with
      | cons _ hrest => exact hrest
      | cons_cons _ _ => exact absurd rfl (ne_nil_of_mem_components (h.subset List.mem_cons_self))
    have hjoined := Text.flatten_intersperse_sublist hrest
    rw [Text.flatten_intersperse_pieces] at hjoined
    rw [hcs]
    exact hjoined.cons_cons '/'

end Path

namespace Disk
variable {d : Disk} {p q : Place} {path base x folder : String}

/-- Empty pieces and dots take no step. -/
theorem walk_components (h : d.walk p (Text.pieces '/' path.toList) = .ok q) : d.walk p (Path.components path) = .ok q := by
  have hfilter (pieces : List (List Char)) {p : Place} (h : d.walk p pieces = .ok q) :
      d.walk p (pieces.filter fun piece => piece ≠ [] ∧ piece ≠ ['.']) = .ok q := by
    induction pieces generalizing p with
    | nil => exact h
    | cons piece pieces ih =>
      obtain ⟨p', hstep, hrest⟩ := walk_cons_ok_iff.mp h
      by_cases hpiece : piece = [] ∨ piece = ['.']
      · have hstay := stepInto_ok hstep
        rw [follow, if_pos hpiece] at hstay
        rw [List.filter_cons_of_neg (by simpa [Decidable.or_iff_not_imp_left] using hpiece)]
        exact hstay ▸ ih hrest
      · rw [List.filter_cons_of_pos (by simpa using hpiece)]
        exact walk_cons_ok_iff.mpr ⟨p', hstep, ih hrest⟩
  unfold Path.components
  generalize Text.pieces '/' path.toList = pieces at h ⊢
  dsimp only
  split
  · next hhead =>
    obtain ⟨rest, rfl⟩ := List.head?_eq_some_iff.mp hhead
    obtain ⟨p', hstep, hrest⟩ := walk_cons_ok_iff.mp h
    rw [List.filter_cons_of_neg (by simp), List.singleton_append]
    exact walk_cons_ok_iff.mpr ⟨p', hstep, hfilter rest hrest⟩
  · exact hfilter pieces h

theorem walk_ofComponents {l : List (List Char)} (absolute : Bool) (hslash : ∀ piece ∈ l, '/' ∉ piece)
    (h : d.walk p l = .ok q) : d.walk p (Text.pieces '/' (Path.ofComponents absolute l).toList) = .ok q := by
  by_cases hne : l = []
  · subst hne
    cases absolute <;> exact h
  · rw [Path.pieces_ofComponents absolute hne hslash]
    cases absolute with
    | false => exact h
    | true => exact walk_cons_ok_iff.mpr ⟨p, rfl, h⟩

/-- There is a way to the folder in which a path names something, by its own text too. -/
theorem isFolder_parent (hx : IsName x) (hreaches : d.Reaches (Path.join base x))
    (hparent : Path.parent? (Path.join base x) = some folder) (hne : folder.toList ≠ []) : d.isFolder folder = true := by
  obtain ⟨l, hl⟩ := Path.components_join base hx
  rw [Path.parent?, hl, if_neg (by simp), List.dropLast_concat] at hparent
  obtain rfl := Option.some.inj hparent
  have hinit : l.Sublist (Path.components (Path.join base x)) := hl ▸ List.sublist_append_left l _
  have hslash : ∀ piece ∈ l, '/' ∉ piece := fun piece hpiece =>
    Path.no_slash_of_mem_components (hinit.subset hpiece)
  have hnonempty : ∀ piece ∈ l, piece ≠ [] := fun piece hpiece =>
    Path.ne_nil_of_mem_components (hinit.subset hpiece)
  have hchars := Path.ofComponents_sublist hinit
  generalize hf : Path.ofComponents (Path.isAbsolute (Path.join base x)) l = folder at hchars hne
  have hlength : folder.utf8ByteSize ≤ longestPath :=
    Nat.le_trans (Bytes.utf8ByteSize_le_of_sublist hchars) (utf8ByteSize_le_of_reaches hreaches)
  have hpieces := pathPieces_eq_ok_iff.mpr ⟨fun hmem => no_nul_of_reaches hreaches (hchars.subset hmem), hlength, hne, rfl⟩
  -- The way to the path goes through the folder.
  obtain ⟨p, hwalk, hnode⟩ : ∃ p, d.walk (d.start (Path.join base x)) l = .ok p ∧ d.node? p = some .folder := by
    obtain ⟨pieces, hok, hwalk⟩ := hreaches
    rw [pathPieces_ok hok] at hwalk
    have hcomponents := walk_components hwalk
    rw [hl] at hcomponents
    obtain ⟨p, hwalk, hstep⟩ := walk_append_ok_iff.mp hcomponents
    refine ⟨p, hwalk, ?_⟩
    rw [walk_singleton] at hstep
    unfold stepInto at hstep
    rw [if_neg hx.ne_nil] at hstep
    split at hstep
    · cases hstep
    · next hfolder =>
      obtain ⟨hnode, rfl⟩ := folderAt_ok hfolder
      exact hnode
  have hstart : d.start folder = d.start (Path.join base x) := by
    rw [start, start, ← hf, Path.isAbsolute_ofComponents _ hnonempty hslash]
  have hspelled := walk_ofComponents (Path.isAbsolute (Path.join base x)) hslash hwalk
  rw [hf, ← hstart] at hspelled
  obtain ⟨hreaches', rfl⟩ := reaches_of_walk hpieces hspelled
  exact isFolder_of_reaches hreaches' hnode

/-- A path at which a file can be put ends in the name that the file has there. -/
theorem fileName?_of_target (h : d.target path = .ok (.named q false)) :
    ∃ p x, Path.fileName? path = some x ∧ q = p ++ [x] := by
  obtain ⟨rfl, -, hslash⟩ := target_ok h
  obtain ⟨hbare, pieces, hpieces, -⟩ := hslash rfl
  have hsplit := pathPieces_ok hpieces
  obtain ⟨front, last, hlast⟩ : ∃ front last, Text.pieces '/' path.toList = front ++ [last] :=
    ⟨_, _, (List.dropLast_concat_getLast (Text.pieces_ne_nil _ _)).symm⟩
  have hne : last ≠ [] := by
    rintro rfl
    rw [Bare, hlast, List.getLast?_concat] at hbare
    exact hbare rfl
  -- Behind dots no file has a name of its own.
  have hdots : ¬(last = ['.'] ∨ last = ['.', '.']) := by
    intro hdots
    unfold target at h
    rw [hpieces] at h
    dsimp only at h
    rw [trimmed_of_bare (hsplit ▸ hbare), hsplit, hlast, List.getLast?_concat] at h
    dsimp only at h
    split at h
    · cases h
    · split at h
      · cases h
      · rw [if_pos hdots] at h
        cases h
  rw [not_or] at hdots
  obtain ⟨l, hl⟩ := Path.components_concat hlast hne hdots.1
  refine ⟨front.foldl follow (d.start path), String.ofList last, ?_, ?_⟩
  · rw [Path.fileName?, hl, List.getLast?_concat]
    exact if_neg (not_or.mpr hdots)
  · rw [placeOf, hlast, List.foldl_append, List.foldl_cons, List.foldl_nil, follow, if_neg (by simp [hne, hdots.1]),
      if_neg hdots.2]

/-- Slashes at the end of a path take no step. -/
theorem walk_trimmed {pieces : List (List Char)} (h : d.walk p pieces = .ok q) :
    d.walk p (pieces.reverse.dropWhile (· = [])).reverse = .ok q := by
  have hpieces : pieces = (pieces.reverse.dropWhile (· = [])).reverse ++ (pieces.reverse.takeWhile (· = [])).reverse := by
    rw [← List.reverse_append, List.takeWhile_append_dropWhile, List.reverse_reverse]
  rw [hpieces] at h
  obtain ⟨p', hbody, -⟩ := walk_append_ok_iff.mp h
  rw [hbody, walk_ok hbody, foldl_follow_trimmed, walk_ok h, ← hpieces]

theorem makeFolder_of_folder (hreaches : d.Reaches path) (hnode : d.node? (d.placeOf path) = some .folder) :
    d.makeFolder path = .error .alreadyExists := by
  obtain ⟨pieces, hpieces, hwalk⟩ := hreaches
  unfold makeFolder target
  rw [hpieces]
  dsimp only
  -- The way to the path goes through the folder that its target is looked for in.
  cases hlast : (pieces.reverse.dropWhile (· = [])).reverse.getLast? with
  | none => rfl
  | some last =>
    obtain ⟨front, hbody⟩ := List.getLast?_eq_some_iff.mp hlast
    have hwalk := walk_trimmed hwalk
    rw [hbody] at hwalk
    obtain ⟨p, hfront, hstep⟩ := walk_append_ok_iff.mp hwalk
    rw [walk_singleton] at hstep
    unfold stepInto at hstep
    rw [if_neg (getLast?_trimmed hlast)] at hstep
    rw [hbody, List.dropLast_concat, hfront]
    dsimp only
    cases hfolder : d.folderAt p with
    | error e =>
      rw [hfolder] at hstep
      cases hstep
    | ok p' =>
      rw [hfolder] at hstep
      dsimp only at hstep ⊢
      by_cases hdots : last = ['.'] ∨ last = ['.', '.']
      · rw [if_pos hdots]
      · rw [not_or] at hdots
        rw [if_neg hdots.1, if_neg hdots.2] at hstep
        rw [if_neg (not_or.mpr hdots), hstep]
        simp [Except.map, hnode]

theorem makeFolders_of_isFolder (h : d.isFolder path = true) : d.makeFolders path = (.ok (), d) := by
  obtain ⟨hreaches, hnode⟩ := folder_of_isFolder h
  unfold makeFolders makeFoldersWithin
  rw [makeFolder_of_folder hreaches hnode, h]
  split <;> rfl

/-- Where there is a way to a path, the folder that it lies in need not be made. -/
theorem makeFolders_parent (hx : IsName x) (hreaches : d.Reaches (Path.join base x))
    (hparent : Path.parent? (Path.join base x) = some folder) : d.makeFolders folder = (.ok (), d) := by
  by_cases hne : folder.toList = []
  · unfold makeFolders makeFoldersWithin
    rw [if_pos hne]
  · exact makeFolders_of_isFolder (isFolder_parent hx hreaches hparent hne)

theorem parent?_join (base : String) (hx : IsName x) : ∃ folder, Path.parent? (Path.join base x) = some folder := by
  obtain ⟨l, hl⟩ := Path.components_join base hx
  rw [Path.parent?, hl, if_neg (by simp)]
  exact ⟨_, rfl⟩

end Disk
end Depot
