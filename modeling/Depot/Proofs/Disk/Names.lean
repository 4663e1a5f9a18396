import Depot.Proofs.Disk.Changes

/-! Paths that continue a path by a name. Such a path leads to a place of its own in the folder that the first path
    leads to, and if that folder is there, a file can be written and a folder made at it. -/

namespace Depot

/-! ### Names of files -/

/-- A name that a folder may hold something under. -/
structure IsName (x : String) : Prop where
  ne_nil : x.toList ≠ []
  no_slash : '/' ∉ x.toList
  ne_dot : x.toList ≠ ['.']
  ne_dots : x.toList ≠ ['.', '.']

instance (x : String) : Decidable (IsName x) :=
  decidable_of_iff (x.toList ≠ [] ∧ '/' ∉ x.toList ∧ x.toList ≠ ['.'] ∧ x.toList ≠ ['.', '.'])
    ⟨fun ⟨h₁, h₂, h₃, h₄⟩ => ⟨h₁, h₂, h₃, h₄⟩, fun ⟨h₁, h₂, h₃, h₄⟩ => ⟨h₁, h₂, h₃, h₄⟩⟩

namespace Path
variable {base x : String}

theorem isAbsolute_of_no_slash (h : '/' ∉ x.toList) : isAbsolute x = false := by
  unfold isAbsolute
  cases hx : x.toList with
  | nil => rfl
  | cons c cs =>
    rw [hx, List.mem_cons, not_or] at h
    simpa using Ne.symm h.1

theorem isAbsolute_append (h : base.toList ≠ []) : isAbsolute (base ++ x) = isAbsolute base := by
  unfold isAbsolute
  rw [String.toList_append]
  cases hbase : base.toList with
  | nil => exact absurd hbase h
  | cons c cs => rfl

/-- The pieces of a path, without the empty one behind a slash at its end. -/
def front (base : String) : List (List Char) :=
  if base.toList = [] ∨ base.toList.getLast? = some '/' then (Text.pieces '/' base.toList).dropLast
  else Text.pieces '/' base.toList

theorem pieces_eq_front (base : String) :
    Text.pieces '/' base.toList = front base ∨ Text.pieces '/' base.toList = front base ++ [[]] := by
  unfold front
  split
  · next hend =>
    right
    rcases hend with hnil | hlast
    · rw [hnil]
      rfl
    · obtain ⟨start, hstart⟩ := List.getLast?_eq_some_iff.mp hlast
      rw [hstart, Text.pieces_append_cons]
      show _ ++ [[]] = (_ ++ [[]]).dropLast ++ [[]]
      rw [List.dropLast_concat]
  · exact Or.inl rfl

theorem isAbsolute_join (base : String) (hx : '/' ∉ x.toList) : isAbsolute (join base x) = isAbsolute base := by
  unfold join
  rw [isAbsolute_of_no_slash hx, if_neg (by decide)]
  split
  · by_cases hnil : base.toList = []
    · unfold isAbsolute at *
      rw [String.toList_append, hnil, List.nil_append]
      exact isAbsolute_of_no_slash hx
    · exact isAbsolute_append hnil
  · next hend =>
    rw [String.append_assoc]
    exact isAbsolute_append fun hnil => hend (Or.inl hnil)

/-- A path that is continued by a name has that name as its last piece. -/
theorem pieces_join (base : String) (hx : '/' ∉ x.toList) :
    Text.pieces '/' (join base x).toList = front base ++ [x.toList] := by
  unfold join front
  rw [isAbsolute_of_no_slash hx, if_neg (by decide)]
  split
  · next hend =>
    rw [String.toList_append]
    rcases hend with hnil | hlast
    · rw [hnil, List.nil_append, Text.pieces_of_not_mem hx]
      rfl
    · obtain ⟨start, hstart⟩ := List.getLast?_eq_some_iff.mp hlast
      rw [hstart, List.append_assoc, List.singleton_append, Text.pieces_append_cons, Text.pieces_append_cons,
        Text.pieces_of_not_mem hx]
      show _ = (_ ++ [[]]).dropLast ++ _
      rw [List.dropLast_concat]
  · rw [String.toList_append, String.toList_append, List.append_assoc]
    show Text.pieces '/' (base.toList ++ '/' :: x.toList) = _
    rw [Text.pieces_append_cons, Text.pieces_of_not_mem hx]

end Path

namespace Disk
variable {d : Disk} {base x : String}

theorem follow_name (hx : IsName x) (p : Place) : follow p x.toList = p ++ [x] := by
  rw [follow, if_neg (by simp [hx.ne_nil, hx.ne_dot]), if_neg hx.ne_dots, String.ofList_toList]

theorem start_join (d : Disk) (base : String) (hx : '/' ∉ x.toList) : d.start (Path.join base x) = d.start base := by
  unfold start
  rw [Path.isAbsolute_join base hx]

theorem placeOf_eq_front (d : Disk) (base : String) : d.placeOf base = (Path.front base).foldl follow (d.start base) := by
  unfold placeOf
  rcases Path.pieces_eq_front base with hpieces | hpieces <;> rw [hpieces]
  rw [List.foldl_append]
  rfl

theorem placeOf_join_eq_follow (d : Disk) (base : String) (hx : '/' ∉ x.toList) :
    d.placeOf (Path.join base x) = follow (d.placeOf base) x.toList := by
  rw [placeOf_eq_front d base, placeOf, Path.pieces_join base hx, List.foldl_append, start_join d base hx]
  rfl

theorem placeOf_join (d : Disk) (base : String) (hx : IsName x) :
    d.placeOf (Path.join base x) = d.placeOf base ++ [x] :=
  (placeOf_join_eq_follow d base hx.no_slash).trans (follow_name hx _)

theorem bare_join (base : String) (hx : IsName x) : Bare (Path.join base x) := by
  unfold Bare
  rw [Path.pieces_join base hx.no_slash, List.getLast?_concat]
  exact fun h => hx.ne_nil (Option.some.inj h)

/-- Something is there under a name if there is a way to it. -/
theorem exists?_join_iff (hx : IsName x) : d.exists? (Path.join base x) = true ↔
    d.Reaches (Path.join base x) ∧ d.node? (d.placeOf (Path.join base x)) ≠ none := by
  constructor
  · intro hexists
    unfold exists? at hexists
    split at hexists
    · next r hfind =>
      obtain ⟨hreaches, hplace, hnode⟩ := find_ok (n := r.2) hfind
      exact ⟨hreaches, by rw [← hplace, hnode]; simp⟩
    · cases hexists
  · rintro ⟨hreaches, hnode⟩
    obtain ⟨n, hn⟩ := Option.ne_none_iff_exists'.mp hnode
    unfold exists?
    cases n with
    | folder => rw [find_folder hreaches hn]
    | file c => rw [find_file hreaches (bare_join base hx) hn]

/-! ### Room for a name -/

/-- A name that is not too long, and that has a place in every folder. -/
structure IsFileName (x : String) : Prop extends IsName x where
  short : x.utf8ByteSize ≤ longestName
  no_nul : Char.ofNat 0 ∉ x.toList

instance (x : String) : Decidable (IsFileName x) :=
  decidable_of_iff (IsName x ∧ x.utf8ByteSize ≤ longestName ∧ Char.ofNat 0 ∉ x.toList)
    ⟨fun ⟨h₁, h₂, h₃⟩ => ⟨h₁, h₂, h₃⟩, fun ⟨h₁, h₂, h₃⟩ => ⟨h₁, h₂, h₃⟩⟩

theorem toList_join (base : String) (hx : '/' ∉ x.toList) : (Path.join base x).toList = base.toList ++ x.toList ∨
    (Path.join base x).toList = base.toList ++ '/' :: x.toList := by
  unfold Path.join
  rw [Path.isAbsolute_of_no_slash hx, if_neg (by decide)]
  split
  · exact Or.inl String.toList_append
  · right
    rw [String.toList_append, String.toList_append, List.append_assoc]
    rfl

theorem join_ne_nil (hx : IsName x) : (Path.join base x).toList ≠ [] := by
  rcases toList_join base hx.no_slash with h | h <;> rw [h] <;> simp [hx.ne_nil]

theorem utf8ByteSize_le_join (base : String) (hx : '/' ∉ x.toList) : base.utf8ByteSize ≤ (Path.join base x).utf8ByteSize := by
  unfold Path.join
  rw [Path.isAbsolute_of_no_slash hx, if_neg (by decide)]
  split
  · rw [String.utf8ByteSize_append]
    exact Nat.le_add_right _ _
  · rw [String.append_assoc, String.utf8ByteSize_append]
    exact Nat.le_add_right _ _

theorem utf8ByteSize_join_le (base : String) (hx : '/' ∉ x.toList) :
    (Path.join base x).utf8ByteSize ≤ base.utf8ByteSize + 1 + x.utf8ByteSize := by
  unfold Path.join
  rw [Path.isAbsolute_of_no_slash hx, if_neg (by decide)]
  split
  · rw [String.utf8ByteSize_append]
    omega
  · rw [String.utf8ByteSize_append, String.utf8ByteSize_append]
    exact Nat.le_refl _

/-- There is a way to the folder that a path leads to, and the path has no character that paths cannot have. -/
structure Leads (d : Disk) (base : String) : Prop where
  no_nul : Char.ofNat 0 ∉ base.toList
  walk : d.walk (d.start base) (Path.front base) = .ok (d.placeOf base)
  folder : d.node? (d.placeOf base) = some .folder

/-- A slash at the end of a path takes no step. -/
theorem walk_front (hreaches : d.Reaches base) : d.walk (d.start base) (Path.front base) = .ok (d.placeOf base) := by
  obtain ⟨pieces, hpieces, hwalk⟩ := hreaches
  rw [pathPieces_ok hpieces] at hwalk
  rcases Path.pieces_eq_front base with hfront | hfront
  · rwa [hfront] at hwalk
  · rw [hfront] at hwalk
    obtain ⟨p, hfront', hlast⟩ := walk_append_ok_iff.mp hwalk
    rw [hfront']
    exact hlast

theorem leads_of_reaches (hreaches : d.Reaches base) (hfolder : d.node? (d.placeOf base) = some .folder) :
    d.Leads base := ⟨no_nul_of_reaches hreaches, walk_front hreaches, hfolder⟩

/-- A path with a way to it that ends in a name continues one that leads to a folder. -/
theorem leads_of_reaches_join (hx : IsName x) (hreaches : d.Reaches (Path.join base x)) :
    d.Leads base ∧ d.stepInto (d.placeOf base) x.toList = .ok (d.placeOf (Path.join base x)) := by
  have hnul := no_nul_of_reaches hreaches
  obtain ⟨pieces, hpieces, hwalk⟩ := hreaches
  rw [pathPieces_ok hpieces, Path.pieces_join base hx.no_slash, start_join d base hx.no_slash] at hwalk
  obtain ⟨p, hparent, hstep⟩ := walk_append_ok_iff.mp hwalk
  obtain rfl : p = d.placeOf base := (walk_ok hparent).trans (placeOf_eq_front d base).symm
  rw [walk_singleton] at hstep
  refine ⟨⟨fun hmem => hnul ?_, hparent, ?_⟩, hstep⟩
  · rcases toList_join base hx.no_slash with h | h <;> rw [h] <;> simp [hmem]
  · unfold stepInto at hstep
    rw [if_neg hx.ne_nil] at hstep
    cases hfolder : d.folderAt (d.placeOf base) with
    | error e =>
      rw [hfolder] at hstep
      cases hstep
    | ok p => exact (folderAt_ok hfolder).1

/-- There is a way to every folder on a way. -/
theorem reaches_of_reaches_join (hbase : base.toList ≠ []) (hx : IsName x) (hreaches : d.Reaches (Path.join base x)) :
    d.Reaches base := by
  obtain ⟨hleads, -⟩ := leads_of_reaches_join hx hreaches
  have hlength := Nat.le_trans (utf8ByteSize_le_join base hx.no_slash) (utf8ByteSize_le_of_reaches hreaches)
  refine ⟨Text.pieces '/' base.toList, pathPieces_eq_ok_iff.mpr ⟨hleads.no_nul, hlength, hbase, rfl⟩, ?_⟩
  rcases Path.pieces_eq_front base with hfront | hfront
  · rw [hfront, hleads.walk]
  · rw [hfront]
    exact walk_append_ok_iff.mpr ⟨_, hleads.walk, rfl⟩

theorem Leads.kept {d' : Disk} {P : Place → Prop} (h : d.Leads base) (hkept : Kept P d d') : d'.Leads base where
  no_nul := h.no_nul
  walk := by
    rw [hkept.placeOf, start, hkept.here]
    exact hkept.walk h.walk
  folder := by
    rw [hkept.placeOf]
    exact hkept.folder _ h.folder

/-- There is a way from a folder on, if the whole path is not too long. -/
theorem Leads.reaches (h : d.Leads base) (hx : IsFileName x) (hlength : (Path.join base x).utf8ByteSize ≤ longestPath) :
    d.Reaches (Path.join base x) := by
  have hnul : Char.ofNat 0 ∉ (Path.join base x).toList := by
    have hslash : Char.ofNat 0 ≠ '/' := by decide
    rcases toList_join base hx.no_slash with h' | h' <;> rw [h']
    · rw [List.mem_append, not_or]
      exact ⟨h.no_nul, hx.no_nul⟩
    · rw [List.mem_append, List.mem_cons, not_or, not_or]
      exact ⟨h.no_nul, hslash, hx.no_nul⟩
  refine ⟨Path.front base ++ [x.toList], ?_, ?_⟩
  · rw [← Path.pieces_join base hx.no_slash]
    exact pathPieces_eq_ok_iff.mpr ⟨hnul, hlength, join_ne_nil hx.toIsName, rfl⟩
  · rw [start_join d base hx.no_slash, placeOf_join d base hx.toIsName, walk_append_ok_iff]
    refine ⟨_, h.walk, ?_⟩
    rw [walk_singleton]
    unfold stepInto folderAt placeNamed
    rw [if_neg hx.ne_nil, h.folder]
    dsimp only
    rw [if_neg hx.ne_dot, if_neg hx.ne_dots, String.ofList_toList, if_neg (Nat.not_lt.mpr hx.short)]

/-- A path that continues another by a name names something, if there is a way to it. -/
theorem target_join (hx : IsName x) (hreaches : d.Reaches (Path.join base x)) :
    d.target (Path.join base x) = .ok (.named (d.placeOf (Path.join base x)) false) := by
  obtain ⟨hleads, hstep⟩ := leads_of_reaches_join hx hreaches
  obtain ⟨pieces, hpieces, -⟩ := hreaches
  have hbare := bare_join base hx
  have hsplit := (pathPieces_ok hpieces).trans (Path.pieces_join base hx.no_slash)
  unfold Bare at hbare
  rw [← pathPieces_ok hpieces] at hbare
  unfold target
  rw [hpieces]
  dsimp only
  rw [trimmed_of_bare hbare, hsplit, List.getLast?_concat, List.dropLast_concat, start_join d base hx.no_slash,
    hleads.walk]
  dsimp only
  unfold stepInto folderAt at hstep
  unfold folderAt
  rw [if_neg hx.ne_nil, hleads.folder] at hstep
  rw [hleads.folder]
  dsimp only at hstep ⊢
  rw [if_neg hx.ne_dot, if_neg hx.ne_dots] at hstep
  rw [if_neg (by simp [hx.ne_dot, hx.ne_dots]), hstep]
  simp [Except.map, hx.ne_nil]

/-- Behind a way to a folder, a path that ends in a name names something there, or it is no path that the disk takes. -/
theorem target_of_leads (h : d.Leads base) (hx : IsName x) :
    d.target (Path.join base x) = .ok (.named (d.placeOf base ++ [x]) false) ∨
      ∃ e, e ≠ .notFound ∧ d.target (Path.join base x) = .error e := by
  have hbare := bare_join base hx
  unfold target
  cases hpieces : pathPieces (Path.join base x) with
  | error e =>
    -- Only the empty path is not found before the disk is looked at.
    refine Or.inr ⟨e, ?_, rfl⟩
    rintro rfl
    unfold pathPieces at hpieces
    rw [if_neg (join_ne_nil hx)] at hpieces
    split at hpieces
    · cases hpieces
    · split at hpieces <;> cases hpieces
  | ok pieces =>
    have hsplit := (pathPieces_ok hpieces).trans (Path.pieces_join base hx.no_slash)
    unfold Bare at hbare
    rw [← pathPieces_ok hpieces] at hbare
    dsimp only
    rw [trimmed_of_bare hbare, hsplit, List.getLast?_concat, List.dropLast_concat, start_join d base hx.no_slash, h.walk]
    dsimp only
    rw [folderAt, h.folder]
    dsimp only
    rw [if_neg (by simp [hx.ne_dot, hx.ne_dots]), placeNamed, String.ofList_toList]
    split
    · exact Or.inr ⟨.nameTooLong, by simp, rfl⟩
    · exact Or.inl (by simp [Except.map, hx.ne_nil])

/-- A file can be written where there is no folder. -/
theorem write_join (hx : IsName x) (hreaches : d.Reaches (Path.join base x))
    (hnode : d.node? (d.placeOf (Path.join base x)) ≠ some .folder) (c : Bytes) :
    d.write (Path.join base x) c = .ok (d.put (d.placeOf (Path.join base x)) (.file c)) := by
  unfold write change
  rw [target_join hx hreaches]
  dsimp only
  rw [if_neg (by simp)]
  cases h : d.node? (d.placeOf (Path.join base x)) with
  | none => rfl
  | some n =>
    cases n with
    | file old => rfl
    | folder => exact absurd h hnode

/-- A folder can be made where there is no file; it may be there. -/
theorem makeFolders_join (hx : IsName x) (hreaches : d.Reaches (Path.join base x))
    (hnode : ∀ c, d.node? (d.placeOf (Path.join base x)) ≠ some (.file c)) :
    d.makeFolders (Path.join base x) = (.ok (), if d.node? (d.placeOf (Path.join base x)) = none
      then d.put (d.placeOf (Path.join base x)) .folder else d) := by
  unfold makeFolders makeFoldersWithin makeFolder
  rw [if_neg (join_ne_nil hx), target_join hx hreaches]
  dsimp only
  cases h : d.node? (d.placeOf (Path.join base x)) with
  | none => rfl
  | some n =>
    cases n with
    | file c => exact absurd h (hnode c)
    | folder =>
      unfold isFolder
      rw [find_folder hreaches h]
      rfl

/-- In a folder that there is a way to, making a folder makes that one or none. -/
theorem makeFolders_cases (h : d.Leads base) (hx : IsName x) : (d.makeFolders (Path.join base x)).2 = d ∨
    d.node? (d.placeOf (Path.join base x)) = none ∧
      (d.makeFolders (Path.join base x)).2 = d.put (d.placeOf (Path.join base x)) .folder := by
  unfold makeFolders makeFoldersWithin
  rw [if_neg (join_ne_nil hx), makeFolder, placeOf_join d base hx]
  rcases target_of_leads h hx with htarget | ⟨e, he, htarget⟩
  · rw [htarget]
    dsimp only
    cases hnode : d.node? (d.placeOf base ++ [x]) with
    | none => exact Or.inr ⟨rfl, rfl⟩
    | some n => exact Or.inl rfl
  · rw [htarget]
    cases e <;> first | exact Or.inl rfl | exact absurd rfl he

end Disk
end Depot
