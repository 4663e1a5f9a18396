import Depot.Proofs.Disk.Parents

/-! Which folders are made for a path. They stand where the path passes: at the places of its fronts, in the order of its
    pieces. A path that goes back by `..` may pass a place beneath the one that it leads to; otherwise none is. -/

namespace Depot.Disk
variable {d d' d'' : Disk} {p q : Place} {path parent folder base x : String} {l pieces : List (List Char)}

/-! ### Passing places -/

/-- The path passes the place: some of its first pieces lead there. -/
def Passes (d : Disk) (path : String) (q : Place) : Prop :=
  ∃ n, ((Text.pieces '/' path.toList).take n).foldl follow (d.start path) = q

theorem Passes.congr (h : d'.here = d.here) (hpasses : d'.Passes path q) : d.Passes path q := by
  unfold Passes start at hpasses ⊢
  rwa [h] at hpasses

theorem passes_placeOf (d : Disk) (path : String) : d.Passes path (d.placeOf path) :=
  ⟨(Text.pieces '/' path.toList).length, by rw [List.take_length]; rfl⟩

/-- What empty pieces and dots take no step to need not be counted. -/
theorem exists_take_of_filter (pieces : List (List Char)) (m : Nat) (p : Place) : ∃ n, (pieces.take n).foldl follow p =
    ((pieces.filter fun piece => piece ≠ [] ∧ piece ≠ ['.']).take m).foldl follow p := by
  induction pieces generalizing m p with
  | nil => exact ⟨0, by simp⟩
  | cons piece pieces ih =>
    by_cases hpiece : piece = [] ∨ piece = ['.']
    · obtain ⟨n, hn⟩ := ih m p
      refine ⟨n + 1, ?_⟩
      rw [List.filter_cons_of_neg (by simpa [Decidable.or_iff_not_imp_left] using hpiece), ← hn, List.take_succ_cons,
        List.foldl_cons, follow, if_pos hpiece]
    · rw [List.filter_cons_of_pos (by simpa using hpiece)]
      cases m with
      | zero => exact ⟨0, rfl⟩
      | succ m =>
        obtain ⟨n, hn⟩ := ih m (follow p piece)
        exact ⟨n + 1, hn⟩

theorem exists_take_of_components (path : String) (m : Nat) (p : Place) :
    ∃ n, ((Text.pieces '/' path.toList).take n).foldl follow p = ((Path.components path).take m).foldl follow p := by
  unfold Path.components
  dsimp only
  split
  · cases m with
    | zero => exact ⟨0, rfl⟩
    | succ m => exact exists_take_of_filter _ m p
  · exact exists_take_of_filter _ m p

theorem exists_take_of_ofComponents (absolute : Bool) (hslash : ∀ piece ∈ l, '/' ∉ piece) (n : Nat) (p : Place) :
    ∃ m, ((Text.pieces '/' (Path.ofComponents absolute l).toList).take n).foldl follow p = (l.take m).foldl follow p := by
  by_cases hne : l = []
  · subst hne
    refine ⟨0, ?_⟩
    cases absolute with
    | false => rcases n with _ | n <;> simp [Path.ofComponents, Text.pieces, follow]
    | true => rcases n with _ | _ | n <;> simp [Path.ofComponents, Text.pieces, follow]
  · rw [Path.pieces_ofComponents absolute hne hslash]
    cases absolute with
    | false => exact ⟨n, rfl⟩
    | true =>
      cases n with
      | zero => exact ⟨0, rfl⟩
      | succ n => exact ⟨n, rfl⟩

/-- A path passes what the folder that it lies in passes. -/
theorem Passes.of_parent (hparent : Path.parent? path = some parent) (h : d.Passes parent q) : d.Passes path q := by
  obtain ⟨n, rfl⟩ := h
  unfold Path.parent? at hparent
  split at hparent
  · cases hparent
  · obtain rfl := Option.some.inj hparent
    have hslash : ∀ piece ∈ (Path.components path).dropLast, '/' ∉ piece := fun _ hpiece =>
      Path.no_slash_of_mem_components (List.dropLast_subset _ hpiece)
    have hnonempty : ∀ piece ∈ (Path.components path).dropLast, piece ≠ [] := fun _ hpiece =>
      Path.ne_nil_of_mem_components (List.dropLast_subset _ hpiece)
    unfold Passes start
    rw [Path.isAbsolute_ofComponents _ hnonempty hslash]
    obtain ⟨m, hm⟩ := exists_take_of_ofComponents (Path.isAbsolute path) hslash n (d.start path)
    obtain ⟨k, hk⟩ := exists_take_of_components path (min m ((Path.components path).length - 1)) (d.start path)
    have htake : (Path.components path).dropLast.take m =
        (Path.components path).take (min m ((Path.components path).length - 1)) := by
      rw [List.dropLast_eq_take, List.take_take]
    rw [htake] at hm
    exact ⟨k, hk.trans hm.symm⟩

/-- Without `..`, whatever the path passes is on the way to where it leads. -/
theorem prefix_foldl_follow (hdots : ['.', '.'] ∉ pieces) (p : Place) : p <+: pieces.foldl follow p := by
  induction pieces generalizing p with
  | nil => exact List.prefix_refl p
  | cons piece pieces ih =>
    rw [List.mem_cons, not_or] at hdots
    refine List.IsPrefix.trans ?_ (ih hdots.2 (follow p piece))
    unfold follow
    split
    · exact List.prefix_refl p
    · rw [if_neg (Ne.symm hdots.1)]
      exact List.prefix_append p _

theorem Passes.isPrefix (hdots : ['.', '.'] ∉ Text.pieces '/' path.toList) (h : d.Passes path q) : q <+: d.placeOf path := by
  obtain ⟨n, rfl⟩ := h
  have hrest := prefix_foldl_follow (fun hmem => hdots (List.drop_subset n _ hmem))
    (((Text.pieces '/' path.toList).take n).foldl follow (d.start path))
  rwa [← List.foldl_append, List.take_append_drop] at hrest

/-- Without `..`, a path passes nothing that lies in the folder that it leads to. -/
theorem not_passes_inside (hdots : ['.', '.'] ∉ Text.pieces '/' path.toList) (x : String) :
    ¬d.Passes path (d.placeOf path ++ [x]) := by
  intro hpasses
  have hlength := (hpasses.isPrefix hdots).length_le
  rw [List.length_append] at hlength
  exact Nat.not_succ_le_self _ hlength

/-! ### Making folders -/

/-- Folders are made where the path passes, and nothing else is changed. -/
structure MakesAlong (path : String) (d d' : Disk) : Prop where
  here : d'.here = d.here
  node : ∀ q, d'.node? q = d.node? q ∨ d.Passes path q ∧ d.node? q = none ∧ d'.node? q = some .folder

namespace MakesAlong

theorem refl (path : String) (d : Disk) : MakesAlong path d d := ⟨rfl, fun _ => Or.inl rfl⟩

theorem trans (h : MakesAlong path d d') (h' : MakesAlong path d' d'') : MakesAlong path d d'' where
  here := h'.here.trans h.here
  node q := by
    rcases h.node q with hsame | ⟨hpasses, hnone, hfolder⟩
    · rcases h'.node q with hsame' | ⟨hpasses, hnone, hfolder⟩
      · exact Or.inl (hsame'.trans hsame)
      · exact Or.inr ⟨hpasses.congr h.here, hsame ▸ hnone, hfolder⟩
    · rcases h'.node q with hsame' | ⟨-, hnone', -⟩
      · exact Or.inr ⟨hpasses, hnone, hsame'.trans hfolder⟩
      · rw [hfolder] at hnone'
        cases hnone'

theorem of_parent (hparent : Path.parent? path = some parent) (h : MakesAlong parent d d') : MakesAlong path d d' where
  here := h.here
  node q := (h.node q).imp_right fun ⟨hpasses, hmade⟩ => ⟨hpasses.of_parent hparent, hmade⟩

end MakesAlong

theorem makesAlong_makeFolder (h : d.makeFolder path = .ok d') : MakesAlong path d d' := by
  obtain ⟨hne, hnode, rfl⟩ := eq_put_of_makeFolder h
  refine ⟨rfl, fun q => ?_⟩
  rw [node?_put d hne]
  by_cases hq : q = d.placeOf path
  · subst hq
    exact Or.inr ⟨passes_placeOf d path, hnode, if_pos rfl⟩
  · exact Or.inl (if_neg hq)

theorem makesAlong_makeFoldersWithin (n : Nat) (d : Disk) (path : String) :
    MakesAlong path d (d.makeFoldersWithin n path).2 := by
  induction n generalizing d path with
  | zero => exact .refl path d
  | succ n ih =>
    unfold makeFoldersWithin
    split
    · exact .refl path d
    split
    · next hmade => exact makesAlong_makeFolder hmade
    · split
      · exact .refl path d
      · next parent hparent =>
        have halong := (ih d parent).of_parent hparent
        split
        · next hmade =>
          rw [hmade] at halong
          exact halong
        · next hmade =>
          rw [hmade] at halong
          split
          · next hlast => exact halong.trans (makesAlong_makeFolder hlast)
          · exact halong
    · exact .refl path d

theorem makesAlong_makeFolders (d : Disk) (path : String) : MakesAlong path d (d.makeFolders path).2 :=
  makesAlong_makeFoldersWithin _ d path

/-! ### Going back -/

theorem pathPieces_dots (hnul : Char.ofNat 0 ∉ folder.toList)
    (hlength : (Path.join folder "..").utf8ByteSize ≤ longestPath) :
    pathPieces (Path.join folder "..") = .ok (Path.front folder ++ [['.', '.']]) := by
  have hpieces := Path.pieces_join folder (x := "..") (by decide)
  refine pathPieces_eq_ok_iff.mpr ⟨?_, hlength, ?_, hpieces.symm⟩
  · rcases toList_join folder (x := "..") (by decide) with h | h <;> rw [h] <;> simpa using hnul
  · rcases toList_join folder (x := "..") (by decide) with h | h <;> rw [h] <;> simp

theorem placeOf_dots (d : Disk) (folder : String) : d.placeOf (Path.join folder "..") = (d.placeOf folder).dropLast :=
  placeOf_join_eq_follow d folder (by decide)

theorem Leads.reaches_dots (h : d.Leads folder) (hlength : (Path.join folder "..").utf8ByteSize ≤ longestPath) :
    d.Reaches (Path.join folder "..") := by
  refine ⟨_, pathPieces_dots h.no_nul hlength, walk_append_ok_iff.mpr ⟨d.placeOf folder, ?_, ?_⟩⟩
  · rw [start_join d folder (by decide)]
    exact h.walk
  · rw [placeOf_dots, walk_singleton, stepInto, folderAt, h.folder]
    rfl

/-- There is no way back out of a folder that is not there. -/
theorem makeFolder_dots (hreaches : d.Reaches folder) (hnone : d.node? (d.placeOf folder) = none)
    (hlength : (Path.join folder "..").utf8ByteSize ≤ longestPath) :
    d.makeFolder (Path.join folder "..") = .error .notFound := by
  unfold makeFolder target
  rw [pathPieces_dots (no_nul_of_reaches hreaches) hlength]
  dsimp only
  rw [trimmed_of_bare (by simp), List.getLast?_concat, List.dropLast_concat, start_join d folder (by decide),
    walk_front hreaches]
  dsimp only
  rw [folderAt, hnone]

/-- So it is made, and then there is one. -/
theorem makeFolders_dots (h : d.Leads base) (hx : IsFileName x) (hnone : d.node? (d.placeOf base ++ [x]) = none)
    (hlength : (Path.join (Path.join base x) "..").utf8ByteSize ≤ longestPath)
    (hparent : Path.parent? (Path.join (Path.join base x) "..") = some (Path.join base x)) :
    d.makeFolders (Path.join (Path.join base x) "..") = (.ok (), d.put (d.placeOf base ++ [x]) .folder) ∧
      (d.put (d.placeOf base ++ [x]) .folder).isFolder (Path.join (Path.join base x) "..") = true := by
  have hshort := Nat.le_trans (utf8ByteSize_le_join (Path.join base x) (x := "..") (by decide)) hlength
  have hreaches := h.reaches hx hshort
  have hplace := placeOf_join d base hx.toIsName
  rw [← hplace] at hnone ⊢
  have hmake : d.makeFolder (Path.join base x) = .ok (d.put (d.placeOf (Path.join base x)) .folder) := by
    unfold makeFolder
    rw [target_join hx.toIsName hreaches]
    dsimp only
    rw [hnone]
  have hback := makeFolder_dots hreaches hnone hlength
  obtain ⟨hkept, hfolder⟩ := makeFolder_ok hmake
  generalize d.put (d.placeOf (Path.join base x)) .folder = d' at *
  have hleads : d'.Leads (Path.join base x) := leads_of_reaches (hkept.reaches hreaches) (hkept.placeOf _ ▸ hfolder)
  have hreaches' := hleads.reaches_dots hlength
  have hnode : d'.node? (d'.placeOf (Path.join (Path.join base x) "..")) = some .folder := by
    rw [placeOf_dots, hkept.placeOf, hplace, List.dropLast_concat]
    exact hkept.folder _ h.folder
  have hthere := isFolder_of_reaches hreaches' hnode
  refine ⟨?_, hthere⟩
  obtain ⟨c, cs, hpath⟩ : ∃ c cs, (Path.join (Path.join base x) "..").toList = c :: cs :=
    List.exists_cons_of_ne_nil (pathPieces_eq_ok_iff.mp (pathPieces_dots hleads.no_nul hlength)).2.2.1
  -- At first there is nothing to go back from. Then the folder is made, and the path leads to where it began.
  unfold makeFolders
  rw [hpath, List.length_cons, makeFoldersWithin, hpath, if_neg (List.cons_ne_nil c cs), hback]
  dsimp only
  rw [hparent]
  dsimp only
  rw [makeFoldersWithin, if_neg (join_ne_nil hx.toIsName), hmake]
  dsimp only
  rw [makeFolder_of_folder hreaches' hnode]
  dsimp only
  rw [hthere, if_pos rfl]

end Depot.Disk
