import Depot.Disk

/-! Where paths lead. The place of a path is a matter of its text alone; the disk decides only whether there is a
    way to it, which is through folders. So a path keeps its place whatever is written, and it can be reached as
    long as no folder goes. -/

namespace Depot

theorem Text.pieces_append_cons (sep : Char) (a b : List Char) :
    Text.pieces sep (a ++ sep :: b) = Text.pieces sep a ++ Text.pieces sep b := by
  induction a with
  | nil => simp [Text.pieces]
  | cons c a ih =>
    rw [List.cons_append, Text.pieces, Text.pieces, ih]
    split
    · rfl
    · cases h : Text.pieces sep a with
      | nil => exact absurd h (Text.pieces_ne_nil sep a)
      | cons p ps => rfl

namespace Disk
variable {d d' : Disk} {p q : Place} {path : String} {n : Node} {c : Bytes}

/-! ### Places -/

/-- The place one piece further, if there is a way. -/
def follow (p : Place) (piece : List Char) : Place :=
  if piece = [] ∨ piece = ['.'] then p
  else if piece = ['.', '.'] then p.dropLast
  else p ++ [String.ofList piece]

/-- The place of a path, if there is a way to it. -/
def placeOf (d : Disk) (path : String) : Place := (Text.pieces '/' path.toList).foldl follow (d.start path)

theorem placeOf_congr (h : d'.here = d.here) (path : String) : d'.placeOf path = d.placeOf path := by
  unfold placeOf start
  rw [h]

theorem placeNamed_ok {name : List Char} (h : placeNamed p name = .ok q) :
    (String.ofList name).utf8ByteSize ≤ longestName ∧ q = p ++ [String.ofList name] := by
  unfold placeNamed at h
  dsimp only at h
  split at h
  · cases h
  · next hlength => exact ⟨Nat.le_of_not_lt hlength, (Except.ok.inj h).symm⟩

theorem folderAt_ok (h : d.folderAt p = .ok q) : d.node? p = some .folder ∧ q = p := by
  unfold folderAt at h
  split at h <;> cases h
  next hnode => exact ⟨hnode, rfl⟩

theorem stepInto_ok {piece : List Char} (h : d.stepInto p piece = .ok q) : q = follow p piece := by
  unfold stepInto at h
  unfold follow
  split at h
  · next hpiece =>
    rw [if_pos (Or.inl hpiece)]
    exact (Except.ok.inj h).symm
  · next hpiece =>
    split at h
    · cases h
    · next hfolder =>
      obtain ⟨-, rfl⟩ := folderAt_ok hfolder
      split at h
      · next hdot =>
        rw [if_pos (Or.inr hdot)]
        exact (Except.ok.inj h).symm
      · next hdot =>
        rw [if_neg (by simp [hpiece, hdot])]
        split at h
        · next hdots =>
          rw [if_pos hdots]
          exact (Except.ok.inj h).symm
        · next hdots =>
          rw [if_neg hdots]
          exact (placeNamed_ok h).2

theorem walk_singleton {piece : List Char} : d.walk p [piece] = d.stepInto p piece := by
  unfold walk
  rw [List.foldlM_cons]
  cases d.stepInto p piece <;> rfl

theorem walk_append_ok_iff {front back : List (List Char)} :
    d.walk p (front ++ back) = .ok q ↔ ∃ p', d.walk p front = .ok p' ∧ d.walk p' back = .ok q := by
  have happend : d.walk p (front ++ back) = (d.walk p front).bind fun p => d.walk p back := by
    unfold walk
    rw [List.foldlM_append]
    rfl
  rw [happend]
  cases d.walk p front with
  | error e => exact iff_of_false (by rintro ⟨⟩) (by rintro ⟨_, ⟨⟩, _⟩)
  | ok p' => simp [Except.bind]

theorem walk_cons_ok_iff {piece : List Char} {pieces : List (List Char)} :
    d.walk p (piece :: pieces) = .ok q ↔ ∃ p', d.stepInto p piece = .ok p' ∧ d.walk p' pieces = .ok q := by
  rw [← List.singleton_append, walk_append_ok_iff, walk_singleton]

theorem walk_ok {pieces : List (List Char)} (h : d.walk p pieces = .ok q) : q = pieces.foldl follow p := by
  induction pieces generalizing p with
  | nil => exact (Except.ok.inj h).symm
  | cons piece pieces ih =>
    obtain ⟨p', hstep, hrest⟩ := walk_cons_ok_iff.mp h
    rw [List.foldl_cons, ← stepInto_ok hstep]
    exact ih hrest

/-! ### Ways -/

/-- There is a way to the place of a path. -/
def Reaches (d : Disk) (path : String) : Prop :=
  ∃ pieces, pathPieces path = .ok pieces ∧ d.walk (d.start path) pieces = .ok (d.placeOf path)

theorem pathPieces_eq_ok_iff {pieces : List (List Char)} : pathPieces path = .ok pieces ↔
    Char.ofNat 0 ∉ path.toList ∧ path.utf8ByteSize ≤ longestPath ∧ path.toList ≠ [] ∧ pieces = Text.pieces '/' path.toList := by
  unfold pathPieces
  split
  · next hnul => simp [hnul]
  · next hnul =>
    split
    · next hlong => simp [Nat.not_le.mpr hlong]
    · next hshort =>
      split
      · next hnil => simp [hnil]
      · next hne => simp [hnul, hne, Nat.not_lt.mp hshort, eq_comm]

theorem pathPieces_ok {pieces : List (List Char)} (h : pathPieces path = .ok pieces) :
    pieces = Text.pieces '/' path.toList := (pathPieces_eq_ok_iff.mp h).2.2.2

theorem no_nul_of_reaches (h : d.Reaches path) : Char.ofNat 0 ∉ path.toList := by
  obtain ⟨pieces, hpieces, -⟩ := h
  exact (pathPieces_eq_ok_iff.mp hpieces).1

theorem utf8ByteSize_le_of_reaches (h : d.Reaches path) : path.utf8ByteSize ≤ longestPath := by
  obtain ⟨pieces, hpieces, -⟩ := h
  exact (pathPieces_eq_ok_iff.mp hpieces).2.1

theorem reaches_of_walk {pieces : List (List Char)} (hpieces : pathPieces path = .ok pieces)
    (hwalk : d.walk (d.start path) pieces = .ok q) : d.Reaches path ∧ q = d.placeOf path := by
  have hq : q = d.placeOf path := by
    rw [walk_ok hwalk, pathPieces_ok hpieces, placeOf]
  exact ⟨⟨pieces, hpieces, hq ▸ hwalk⟩, hq⟩

theorem find_ok (h : d.find path = .ok (p, n)) : d.Reaches path ∧ p = d.placeOf path ∧ d.node? p = some n := by
  unfold find at h
  split at h
  · cases h
  · next pieces hpieces =>
    split at h
    · cases h
    · next q hwalk =>
      obtain ⟨hreaches, rfl⟩ := reaches_of_walk hpieces hwalk
      split at h
      · cases h
      · next hnode =>
        split at h <;> cases h
        exact ⟨hreaches, rfl, hnode⟩
      · next hnode =>
        cases h
        exact ⟨hreaches, rfl, hnode⟩

theorem find_folder (hreaches : d.Reaches path) (hnode : d.node? (d.placeOf path) = some .folder) :
    d.find path = .ok (d.placeOf path, .folder) := by
  obtain ⟨pieces, hpieces, hwalk⟩ := hreaches
  unfold find
  rw [hpieces]
  dsimp only
  rw [hwalk]
  dsimp only
  rw [hnode]

theorem folder_of_isFolder (h : d.isFolder path = true) : d.Reaches path ∧ d.node? (d.placeOf path) = some .folder := by
  unfold isFolder at h
  split at h
  · next hfind =>
    obtain ⟨hreaches, rfl, hnode⟩ := find_ok hfind
    exact ⟨hreaches, hnode⟩
  · cases h

theorem isFolder_of_reaches (hreaches : d.Reaches path) (hnode : d.node? (d.placeOf path) = some .folder) :
    d.isFolder path = true := by
  unfold isFolder
  rw [find_folder hreaches hnode]

/-- The path does not end in a slash. -/
def Bare (path : String) : Prop := (Text.pieces '/' path.toList).getLast? ≠ some []

theorem find_file (hreaches : d.Reaches path) (hbare : Bare path)
    (hnode : d.node? (d.placeOf path) = some (.file c)) : d.find path = .ok (d.placeOf path, .file c) := by
  obtain ⟨pieces, hpieces, hwalk⟩ := hreaches
  have hlast : pieces.getLast? ≠ some [] := pathPieces_ok hpieces ▸ hbare
  unfold find
  rw [hpieces]
  dsimp only
  rw [hwalk]
  dsimp only
  rw [hnode]
  exact if_neg hlast

theorem find_none (hnode : d.node? (d.placeOf path) = none) : ∃ e, d.find path = .error e := by
  cases hfind : d.find path with
  | error e => exact ⟨e, rfl⟩
  | ok r =>
    obtain ⟨-, hplace, hsome⟩ := find_ok (n := r.2) hfind
    rw [hplace, hnode] at hsome
    cases hsome

/-! ### Reading -/

theorem read_ok_iff : d.read path = .ok c ↔
    d.Reaches path ∧ Bare path ∧ d.node? (d.placeOf path) = some (.file c) := by
  constructor
  · intro h
    unfold read at h
    split at h
    · cases h
    · cases h
    · next hfind =>
      cases h
      obtain ⟨hreaches, hplace, hnode⟩ := find_ok hfind
      refine ⟨hreaches, ?_, hplace ▸ hnode⟩
      obtain ⟨pieces, hpieces, hwalk⟩ := hreaches
      unfold find at hfind
      rw [hpieces] at hfind
      dsimp only at hfind
      rw [hwalk] at hfind
      dsimp only at hfind
      rw [← hplace, hnode] at hfind
      dsimp only at hfind
      intro hlast
      rw [if_pos (pathPieces_ok hpieces ▸ hlast)] at hfind
      cases hfind
  · rintro ⟨hreaches, hbare, hnode⟩
    unfold read
    rw [find_file hreaches hbare hnode]

theorem exists?_of_read (h : d.read path = .ok c) : d.exists? path = true := by
  obtain ⟨hreaches, hbare, hnode⟩ := read_ok_iff.mp h
  unfold exists?
  rw [find_file hreaches hbare hnode]

theorem readText_ok_iff {text : String} : d.readText path = .ok text ↔ ∃ c, d.read path = .ok c ∧ Bytes.text? c = some text := by
  unfold readText
  cases d.read path with
  | error e => simp
  | ok c => cases htext : Bytes.text? c <;> simp [htext]

theorem exists?_of_readText {text : String} (h : d.readText path = .ok text) : d.exists? path = true := by
  obtain ⟨c, hread, -⟩ := readText_ok_iff.mp h
  exact exists?_of_read hread

/-- Every node directly inside a folder is found there. -/
theorem node?_of_mem_inside {x : String} (h : (x, n) ∈ d.inside p) :
    ∃ n', d.node? (p ++ [x]) = some n' := by
  obtain ⟨⟨q, n'⟩, hmem, hq⟩ := List.mem_filterMap.mp h
  dsimp only at hq
  split at hq
  · split at hq
    · next hplace =>
      cases hq
      have hne : p ++ [x] ≠ [] := by simp
      unfold node?
      rw [if_neg hne, ← hplace, ← Option.isSome_iff_exists, List.lookup_isSome_iff]
      exact ⟨_, hmem, beq_self_eq_true _⟩
    · cases hq
  · cases hq

theorem mem_inside_of_node? {x : String} (h : d.node? (p ++ [x]) = some n) :
    (x, n) ∈ d.inside p := by
  have hne : p ++ [x] ≠ [] := by simp
  unfold node? at h
  rw [if_neg hne] at h
  obtain ⟨es, es', hnodes, -⟩ := List.lookup_eq_some_iff.mp h
  refine List.mem_filterMap.mpr ⟨(p ++ [x], n), by simp [hnodes], ?_⟩
  dsimp only
  rw [List.getLast?_concat]
  exact if_pos rfl

/-! ### Targets -/

/-- Slashes at the end of a path lead nowhere. -/
theorem foldl_follow_trimmed (p : Place) (pieces : List (List Char)) :
    (pieces.reverse.dropWhile (· = [])).reverse.foldl follow p = pieces.foldl follow p := by
  have trimmed : ∀ r : List (List Char), (r.dropWhile (· = [])).reverse.foldl follow p = r.reverse.foldl follow p := by
    intro r
    induction r with
    | nil => rfl
    | cons last r ih =>
      by_cases h : last = []
      · rw [List.dropWhile_cons_of_pos (by simpa using h), ih, List.reverse_cons, List.foldl_append, h]
        rfl
      · rw [List.dropWhile_cons_of_neg (by simpa using h)]
  rw [trimmed, List.reverse_reverse]

theorem getLast?_trimmed {pieces : List (List Char)} {last : List Char}
    (h : (pieces.reverse.dropWhile (· = [])).reverse.getLast? = some last) : last ≠ [] := by
  rw [List.getLast?_reverse] at h
  rintro rfl
  have hhead := List.head?_dropWhile_not (fun piece : List Char => decide (piece = [])) pieces.reverse
  rw [h] at hhead
  simp at hhead

theorem trimmed_of_bare {pieces : List (List Char)} (h : pieces.getLast? ≠ some []) :
    (pieces.reverse.dropWhile (· = [])).reverse = pieces := by
  rw [← List.head?_reverse] at h
  cases hr : pieces.reverse with
  | nil => rw [List.dropWhile_nil, ← hr, List.reverse_reverse]
  | cons last r =>
    rw [hr] at h
    rw [List.dropWhile_cons_of_neg (by simpa using h), ← hr, List.reverse_reverse]

/-- The name that a path makes or replaces is at its place; there is a way to it, and it is not the root. -/
theorem target_ok {slash : Bool} (h : d.target path = .ok (.named q slash)) :
    q = d.placeOf path ∧ q ≠ [] ∧ (slash = false → Bare path ∧ d.Reaches path) := by
  unfold target at h
  split at h
  · cases h
  · next pieces hpieces =>
    dsimp only at h
    split at h
    · cases h
    · next last hlast =>
      split at h
      · cases h
      · next parent hwalk =>
        split at h
        · cases h
        · next parent' hfolder =>
          obtain ⟨hnode, rfl⟩ := folderAt_ok hfolder
          split at h
          · cases h
          · next hdots =>
            rw [not_or] at hdots
            have hne := getLast?_trimmed hlast
            cases hnamed : placeNamed parent' last with
            | error e =>
              rw [hnamed] at h
              cases h
            | ok q' =>
              rw [hnamed] at h
              obtain ⟨rfl, rfl⟩ := Target.named.inj (Except.ok.inj h)
              obtain ⟨hlength, rfl⟩ := placeNamed_ok hnamed
              have hbody : (pieces.reverse.dropWhile (· = [])).reverse =
                  (pieces.reverse.dropWhile (· = [])).reverse.dropLast ++ [last] := by
                obtain ⟨front, hfront⟩ := List.getLast?_eq_some_iff.mp hlast
                rw [hfront, List.dropLast_concat]
              have hfollow : follow parent' last = parent' ++ [String.ofList last] := by
                rw [follow, if_neg (by simp [hne, hdots.1]), if_neg hdots.2]
              have hplace : parent' ++ [String.ofList last] = d.placeOf path := by
                rw [placeOf, ← pathPieces_ok hpieces, ← foldl_follow_trimmed, hbody, List.foldl_append, ← walk_ok hwalk]
                exact hfollow.symm
              -- Without a slash at its end, the path is the way to the parent and one step more.
              refine ⟨hplace, by simp, fun hslash => ?_⟩
              have hbare : pieces.getLast? ≠ some [] := by simpa using hslash
              rw [trimmed_of_bare hbare] at hwalk hbody
              refine ⟨by rwa [pathPieces_ok hpieces] at hbare, pieces, hpieces, ?_⟩
              rw [hbody, walk_append_ok_iff]
              refine ⟨parent', hwalk, ?_⟩
              rw [walk_singleton, ← hplace]
              unfold stepInto
              rw [if_neg hne, hfolder]
              dsimp only
              rw [if_neg hdots.1, if_neg hdots.2, hnamed]

end Disk
end Depot
