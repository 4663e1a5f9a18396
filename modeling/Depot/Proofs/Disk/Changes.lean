import Depot.Proofs.Disk.Places

/-! What a change of the disk leaves alone. `Kept P` says that no folder goes and that no file changes but those at
    the places that `P` holds of; what could be read elsewhere can be read as before. Writing a file changes one
    place, making folders changes no file. `Touches P` says more: not even a folder is made elsewhere. `Refills P` says
    most: files that were there have other contents, and that is all. -/

namespace Depot.Disk
variable {d d' d'' : Disk} {p q : Place} {path : String} {c : Bytes} {P : Place → Prop}

/-! ### What is kept -/

/-- No folder goes, and no file changes but those at the places that `P` holds of. -/
structure Kept (P : Place → Prop) (d d' : Disk) : Prop where
  here : d'.here = d.here
  folder : ∀ q, d.node? q = some .folder → d'.node? q = some .folder
  file : ∀ q c, ¬P q → (d'.node? q = some (.file c) ↔ d.node? q = some (.file c))

namespace Kept

theorem refl (P : Place → Prop) (d : Disk) : Kept P d d := ⟨rfl, fun _ h => h, fun _ _ _ => Iff.rfl⟩

theorem trans (h : Kept P d d') (h' : Kept P d' d'') : Kept P d d'' where
  here := h'.here.trans h.here
  folder q hq := h'.folder q (h.folder q hq)
  file q c hq := (h'.file q c hq).trans (h.file q c hq)

theorem placeOf (h : Kept P d d') (path : String) : d'.placeOf path = d.placeOf path := placeOf_congr h.here path

theorem stepInto (h : Kept P d d') {piece : List Char} (hstep : d.stepInto p piece = .ok q) :
    d'.stepInto p piece = .ok q := by
  unfold Disk.stepInto at hstep ⊢
  split
  · next hpiece => rwa [if_pos hpiece] at hstep
  · next hpiece =>
    rw [if_neg hpiece] at hstep
    split at hstep
    · cases hstep
    · next hfolder =>
      obtain ⟨hnode, rfl⟩ := folderAt_ok hfolder
      rw [folderAt, h.folder _ hnode]
      exact hstep

theorem walk (h : Kept P d d') {pieces : List (List Char)} (hwalk : d.walk p pieces = .ok q) :
    d'.walk p pieces = .ok q := by
  induction pieces generalizing p with
  | nil => exact hwalk
  | cons piece pieces ih =>
    obtain ⟨p', hstep, hrest⟩ := walk_cons_ok_iff.mp hwalk
    exact walk_cons_ok_iff.mpr ⟨p', h.stepInto hstep, ih hrest⟩

theorem reaches (h : Kept P d d') (hreaches : d.Reaches path) : d'.Reaches path := by
  obtain ⟨pieces, hpieces, hwalk⟩ := hreaches
  refine ⟨pieces, hpieces, ?_⟩
  rw [h.placeOf, Disk.start, h.here]
  exact h.walk hwalk

/-- What can be read elsewhere can be read as before. -/
theorem read (h : Kept P d d') (hP : ¬P (d.placeOf path)) (hread : d.read path = .ok c) : d'.read path = .ok c := by
  obtain ⟨hreaches, hbare, hnode⟩ := read_ok_iff.mp hread
  refine read_ok_iff.mpr ⟨h.reaches hreaches, hbare, ?_⟩
  rw [h.placeOf]
  exact (h.file _ c hP).mpr hnode

end Kept

/-! ### What can be read -/

/-- If there is a file at the place of a path, it can be read. -/
def Open (d : Disk) (path : String) : Prop := ∀ c, d.node? (d.placeOf path) = some (.file c) → d.read path = .ok c

theorem open_of_read (h : d.read path = .ok c) : d.Open path := by
  obtain ⟨hreaches, hbare, -⟩ := read_ok_iff.mp h
  exact fun _ hnode => read_ok_iff.mpr ⟨hreaches, hbare, hnode⟩

/-- A path that can be read elsewhere still can. -/
theorem Kept.open (h : Kept P d d') (hP : ¬P (d.placeOf path)) (hopen : d.Open path) : d'.Open path := by
  intro c hnode
  rw [h.placeOf, h.file _ c hP] at hnode
  exact h.read hP (hopen c hnode)

/-- Elsewhere nothing can be read that could not be read before. -/
theorem Kept.read_iff (h : Kept P d d') (hP : ¬P (d.placeOf path)) (hopen : d.Open path) :
    d'.read path = .ok c ↔ d.read path = .ok c := by
  refine ⟨fun hread => hopen c ?_, h.read hP⟩
  rw [← h.file _ c hP, ← h.placeOf]
  exact (read_ok_iff.mp hread).2.2

/-! ### What is touched -/

/-- No folder goes, and nothing changes but at the places that `P` holds of. -/
structure Touches (P : Place → Prop) (d d' : Disk) : Prop where
  here : d'.here = d.here
  folder : ∀ q, d.node? q = some .folder → d'.node? q = some .folder
  node : ∀ q, ¬P q → d'.node? q = d.node? q

namespace Touches

theorem refl (P : Place → Prop) (d : Disk) : Touches P d d := ⟨rfl, fun _ h => h, fun _ _ => rfl⟩

theorem trans (h : Touches P d d') (h' : Touches P d' d'') : Touches P d d'' where
  here := h'.here.trans h.here
  folder q hq := h'.folder q (h.folder q hq)
  node q hq := (h'.node q hq).trans (h.node q hq)

theorem placeOf (h : Touches P d d') (path : String) : d'.placeOf path = d.placeOf path := placeOf_congr h.here path

theorem kept (h : Touches P d d') : Kept P d d' := ⟨h.here, h.folder, fun q c hq => by rw [h.node q hq]⟩

end Touches

theorem touches_put (hp : p ≠ []) (hnode : d.node? p ≠ some .folder) (n : Node) (hP : P p) : Touches P d (d.put p n) := by
  refine ⟨rfl, fun q hq => ?_, fun q hq => ?_⟩
  · rw [node?_put d hp, if_neg]
    · exact hq
    · rintro rfl
      exact hnode hq
  · rw [node?_put d hp, if_neg]
    rintro rfl
    exact hq hP

/-! ### Writing -/

theorem kept_put (hp : p ≠ []) (hnode : d.node? p ≠ some .folder) (n : Node) : Kept (· = p) d (d.put p n) :=
  Touches.kept (P := (· = p)) (touches_put hp hnode n rfl)

/-- A change of a file touches its place alone, and what it writes can be read. -/
theorem change_ok {f : Bytes → Bytes} (h : d.change path f = .ok d') :
    Kept (· = d.placeOf path) d d' ∧ ∃ old, (d.node? (d.placeOf path) = some (.file old) ∨
      d.node? (d.placeOf path) = none ∧ old = []) ∧ d'.read path = .ok (f old) := by
  unfold change at h
  split at h
  · cases h
  · cases h
  · next p slash htarget =>
    obtain ⟨rfl, hne, hslash⟩ := target_ok htarget
    split at h
    · cases h
    · next hno =>
      obtain ⟨hbare, hreaches⟩ := hslash (by simpa using hno)
      -- Whatever is written, the way to the file stays, so that it can be read.
      have written : ∀ new, d.node? (d.placeOf path) ≠ some .folder →
          Kept (· = d.placeOf path) d (d.put (d.placeOf path) (.file new)) ∧
            (d.put (d.placeOf path) (.file new)).read path = .ok new := by
        intro new hfolder
        have hkept := kept_put hne hfolder (.file new)
        refine ⟨hkept, read_ok_iff.mpr ⟨hkept.reaches hreaches, hbare, ?_⟩⟩
        rw [hkept.placeOf, node?_put d hne, if_pos rfl]
      split at h
      · cases h
      · next old hnode =>
        obtain rfl := Except.ok.inj h
        obtain ⟨hkept, hread⟩ := written (f old) (by simp [hnode])
        exact ⟨hkept, old, Or.inl hnode, hread⟩
      · next hnode =>
        obtain rfl := Except.ok.inj h
        obtain ⟨hkept, hread⟩ := written (f []) (by simp [hnode])
        exact ⟨hkept, [], Or.inr ⟨hnode, rfl⟩, hread⟩

theorem write_ok (h : d.write path c = .ok d') : Kept (· = d.placeOf path) d d' ∧ d'.read path = .ok c := by
  obtain ⟨hkept, _, -, hread⟩ := change_ok h
  exact ⟨hkept, hread⟩

theorem eq_put_of_change {f : Bytes → Bytes} (h : d.change path f = .ok d') :
    d.placeOf path ≠ [] ∧ d.node? (d.placeOf path) ≠ some .folder ∧
      ∃ old, d' = d.put (d.placeOf path) (.file (f old)) := by
  unfold change at h
  split at h
  · cases h
  · cases h
  · next p slash htarget =>
    obtain ⟨rfl, hne, -⟩ := target_ok htarget
    split at h
    · cases h
    split at h <;> cases h
    · next old hnode => exact ⟨hne, by simp [hnode], old, rfl⟩
    · next hnode => exact ⟨hne, by simp [hnode], [], rfl⟩

theorem eq_put_of_write (h : d.write path c = .ok d') :
    d.placeOf path ≠ [] ∧ d.node? (d.placeOf path) ≠ some .folder ∧ d' = d.put (d.placeOf path) (.file c) := by
  obtain ⟨hne, hnode, _, hput⟩ := eq_put_of_change h
  exact ⟨hne, hnode, hput⟩

/-! ### Writing again -/

/-- A file gets another content, and that is all. -/
structure Rewrites (p : Place) (d d' : Disk) : Prop where
  here : d'.here = d.here
  file : ∃ old new, d.node? p = some (.file old) ∧ d'.node? p = some (.file new)
  node : ∀ q, q ≠ p → d'.node? q = d.node? q

theorem rewrites_of_write {old : Bytes} (h : d.write path c = .ok d') (hold : d.node? (d.placeOf path) = some (.file old)) :
    Rewrites (d.placeOf path) d d' := by
  obtain ⟨hne, -, rfl⟩ := eq_put_of_write h
  refine ⟨rfl, ⟨old, c, hold, ?_⟩, fun q hq => ?_⟩
  · rw [node?_put d hne, if_pos rfl]
  · rw [node?_put d hne, if_neg hq]

namespace Rewrites

theorem folderAt (h : Rewrites p d d') (q : Place) : d'.folderAt q = d.folderAt q := by
  unfold Disk.folderAt
  by_cases hq : q = p
  · obtain ⟨old, new, hold, hnew⟩ := h.file
    rw [hq, hold, hnew]
  · rw [h.node q hq]

theorem walk (h : Rewrites p d d') (q : Place) (pieces : List (List Char)) : d'.walk q pieces = d.walk q pieces := by
  have hstep : d'.stepInto = d.stepInto := by
    funext q piece
    simp only [Disk.stepInto, h.folderAt]
  unfold Disk.walk
  rw [hstep]

/-- Every path leads where it led before, to a file or a folder as before. -/
theorem find_cases (h : Rewrites p d d') (path : String) : d'.find path = d.find path ∨
    d.placeOf path = p ∧ ∃ old new, d.find path = .ok (p, .file old) ∧ d'.find path = .ok (p, .file new) := by
  unfold Disk.find Disk.start
  rw [h.here]
  cases hpieces : pathPieces path with
  | error e => exact Or.inl rfl
  | ok pieces =>
    dsimp only
    rw [h.walk]
    cases hwalk : d.walk (if Path.isAbsolute path then [] else d.here) pieces with
    | error e => exact Or.inl rfl
    | ok q =>
      dsimp only
      by_cases hq : q = p
      · obtain ⟨old, new, hold, hnew⟩ := h.file
        rw [hq, hold, hnew]
        dsimp only
        split
        · exact Or.inl rfl
        · exact Or.inr ⟨(reaches_of_walk hpieces hwalk).2.symm.trans hq, old, new, rfl, rfl⟩
      · rw [h.node q hq]
        exact Or.inl rfl

theorem exists? (h : Rewrites p d d') (path : String) : d'.exists? path = d.exists? path := by
  unfold Disk.exists?
  rcases h.find_cases path with hsame | ⟨-, old, new, hold, hnew⟩
  · rw [hsame]
  · rw [hold, hnew]

theorem read_of_ne (h : Rewrites p d d') (hne : d.placeOf path ≠ p) : d'.read path = d.read path := by
  unfold Disk.read
  rcases h.find_cases path with hsame | ⟨heq, -⟩
  · rw [hsame]
  · exact absurd heq hne

end Rewrites

/-! ### Nodes in their order -/

/-- What is kept for a place; the first of it is what is there. -/
def keptAt (d : Disk) (p : Place) : List (Place × Node) := d.nodes.filter (·.1 = p)

theorem head?_keptAt (hp : p ≠ []) : (d.keptAt p).head? = (d.node? p).map (p, ·) := by
  unfold keptAt node?
  rw [if_neg hp]
  induction d.nodes with
  | nil => rfl
  | cons e es ih =>
    obtain ⟨a, b⟩ := e
    by_cases ha : a = p
    · simp [ha]
    · have hne : (p == a) = false := by simpa using Ne.symm ha
      rw [List.filter_cons_of_neg (by simpa using ha), ih, List.lookup_cons, hne]

theorem filter_putNode (p q : Place) (n : Node) (es : List (Place × Node)) : (putNode p n es).filter (·.1 = q) =
    if q = p then (p, n) :: (es.filter (·.1 = p)).tail else es.filter (·.1 = q) := by
  induction es with
  | nil => by_cases hq : q = p <;> simp [putNode, hq, eq_comm]
  | cons e es ih =>
    by_cases he : e.1 = p
    · by_cases hq : q = p
      · simp [putNode, he, hq]
      · simp [putNode, he, hq, Ne.symm hq]
    · by_cases hq : q = p
      · subst hq
        rw [if_pos rfl] at ih ⊢
        simp [putNode, he, ih]
      · rw [if_neg hq] at ih ⊢
        simp [putNode, he, List.filter_cons, ih]

theorem keys_putNode {es : List (Place × Node)} (h : p ∈ es.map Prod.fst) (n : Node) :
    (putNode p n es).map Prod.fst = es.map Prod.fst := by
  induction es with
  | nil => cases h
  | cons e es ih =>
    by_cases he : e.1 = p
    · simp [putNode, he]
    · have hrest : p ∈ es.map Prod.fst := (List.mem_cons.mp h).resolve_left (Ne.symm he)
      rw [putNode, if_neg he, List.map_cons, List.map_cons, ih hrest]

theorem ext_filter {es es' : List (Place × Node)} (hkeys : es'.map Prod.fst = es.map Prod.fst)
    (h : ∀ p, es'.filter (·.1 = p) = es.filter (·.1 = p)) : es' = es := by
  induction es generalizing es' with
  | nil => simpa using hkeys
  | cons e es ih =>
    cases es' with
    | nil => cases hkeys
    | cons e' es' =>
      obtain ⟨hkey, hrest⟩ := List.cons.inj hkeys
      have hhead := h e.1
      rw [List.filter_cons_of_pos (by simpa using hkey), List.filter_cons_of_pos (by simp)] at hhead
      obtain ⟨rfl, -⟩ := List.cons.inj hhead
      refine congrArg _ (ih hrest fun p => ?_)
      have hp := h p
      by_cases he : e'.1 = p
      · rw [List.filter_cons_of_pos (by simpa using he), List.filter_cons_of_pos (by simpa using he)] at hp
        exact (List.cons.inj hp).2
      · rwa [List.filter_cons_of_neg (by simpa using he), List.filter_cons_of_neg (by simpa using he)] at hp

/-- Files at places that `P` holds of have got other contents where they were; the order of all nodes is as it was. -/
structure Refills (P : Place → Prop) (d d' : Disk) : Prop where
  here : d'.here = d.here
  keys : d'.nodes.map Prod.fst = d.nodes.map Prod.fst
  other : ∀ p, ¬P p → d'.keptAt p = d.keptAt p
  behind : ∀ p, (d'.keptAt p).tail = (d.keptAt p).tail

namespace Refills

theorem refl (P : Place → Prop) (d : Disk) : Refills P d d := ⟨rfl, rfl, fun _ _ => rfl, fun _ => rfl⟩

theorem trans (h : Refills P d d') (h' : Refills P d' d'') : Refills P d d'' where
  here := h'.here.trans h.here
  keys := h'.keys.trans h.keys
  other p hp := (h'.other p hp).trans (h.other p hp)
  behind p := (h'.behind p).trans (h.behind p)

theorem placeOf (h : Refills P d d') (path : String) : d'.placeOf path = d.placeOf path := placeOf_congr h.here path

/-- When all of the files have the contents again that they had, the disk is the one from before. -/
theorem eq_of_node? (h : Refills P d d') (hne : ∀ p, P p → p ≠ []) (hnode : ∀ p, P p → d'.node? p = d.node? p) : d' = d := by
  have hkept (p : Place) : d'.keptAt p = d.keptAt p := by
    by_cases hp : P p
    · have hhead : (d'.keptAt p).head? = (d.keptAt p).head? := by
        rw [head?_keptAt (hne p hp), head?_keptAt (hne p hp), hnode p hp]
      have htail := h.behind p
      cases hd' : d'.keptAt p <;> cases hd : d.keptAt p <;> simp_all
    · exact h.other p hp
  have hnodes : d'.nodes = d.nodes := ext_filter h.keys hkept
  obtain ⟨nodes, here⟩ := d
  obtain ⟨nodes', here'⟩ := d'
  obtain rfl : nodes' = nodes := hnodes
  obtain rfl : here' = here := h.here
  rfl

end Refills

theorem refills_put (hp : p ≠ []) (hthere : (d.node? p).isSome) (hP : P p) (n : Node) : Refills P d (d.put p n) := by
  have hkept (q : Place) : (d.put p n).keptAt q = if q = p then (p, n) :: (d.keptAt p).tail else d.keptAt q :=
    filter_putNode p q n d.nodes
  refine ⟨rfl, keys_putNode ?_ n, fun q hq => ?_, fun q => ?_⟩
  · have hhead := head?_keptAt (d := d) hp
    obtain ⟨m, hm⟩ := Option.isSome_iff_exists.mp hthere
    rw [hm] at hhead
    have hmem := List.mem_of_head? hhead
    exact List.mem_map.mpr ⟨(p, m), (List.mem_filter.mp hmem).1, rfl⟩
  · rw [hkept, if_neg]
    rintro rfl
    exact hq hP
  · rw [hkept]
    split
    · next heq => rw [heq, List.tail_cons]
    · rfl

/-! ### Moving -/

theorem putNode_putNode (p : Place) (m n : Node) (es : List (Place × Node)) :
    putNode p n (putNode p m es) = putNode p n es := by
  induction es with
  | nil => simp [putNode]
  | cons e es ih => by_cases he : e.1 = p <;> simp [putNode, he, ih]

/-- Of two nodes that are put at one place, the later stays. -/
theorem put_put (d : Disk) (p : Place) (m n : Node) : (d.put p m).put p n = d.put p n := by
  unfold put
  rw [putNode_putNode]

theorem ne_nil_of_node?_none (hnone : d.node? p = none) : p ≠ [] := by
  rintro rfl
  cases hnone

/-- A node that is put where there was nothing and is taken away again leaves nothing behind. -/
theorem dropWhere_put (hnone : d.node? p = none) (n : Node) : (d.put p n).dropWhere (· = p) = d := by
  have hp := ne_nil_of_node?_none hnone
  obtain ⟨nodes, here⟩ := d
  rw [node?, if_neg hp] at hnone
  refine congrArg (Disk.mk · here) ?_
  dsimp only [put] at hnone ⊢
  induction nodes with
  | nil => simp [putNode]
  | cons e es ih =>
    rw [List.lookup_cons] at hnone
    split at hnone
    · cases hnone
    · next hne =>
      have he : e.1 ≠ p := fun heq => by simp [heq] at hne
      rw [putNode, if_neg he, List.filter_cons_of_pos (by simpa using he), ih hnone]

theorem lookup_filter (gone : Place → Bool) (q : Place) (es : List (Place × Node)) :
    (es.filter fun e => !gone e.1).lookup q = if gone q then none else es.lookup q := by
  induction es with
  | nil => simp
  | cons e es ih =>
    obtain ⟨a, b⟩ := e
    cases hgone : gone a with
    | true =>
      rw [List.filter_cons_of_neg (by simp [hgone]), ih]
      by_cases hq : q = a
      · rw [hq, hgone]
        rfl
      · rw [List.lookup_cons, show (q == a) = false by simpa using hq]
    | false =>
      rw [List.filter_cons_of_pos (by simp [hgone]), List.lookup_cons, List.lookup_cons, ih]
      by_cases hq : q = a
      · rw [hq, hgone, beq_self_eq_true]
        rfl
      · rw [show (q == a) = false by simpa using hq]

theorem node?_dropWhere (d : Disk) (gone : Place → Bool) (q : Place) :
    (d.dropWhere gone).node? q = if q = [] then some .folder else if gone q then none else d.node? q := by
  unfold node? dropWhere
  split
  · rfl
  · rw [lookup_filter]

/-- A file is taken away from its old place and then put at the new one, so it may also be moved to where it was. -/
theorem eq_put_of_moveFile {source : String} (h : d.moveFile source path = .ok d') :
    ∃ c, d.read source = .ok c ∧ d.target path = .ok (.named (d.placeOf path) false) ∧
      d.node? (d.placeOf path) ≠ some .folder ∧
      d' = (d.dropWhere (· = d.placeOf source)).put (d.placeOf path) (.file c) := by
  unfold moveFile at h
  split at h
  · cases h
  · cases h
  · next p c hfind =>
    obtain ⟨-, rfl, -⟩ := find_ok hfind
    split at h
    · cases h
    · cases h
    · next q slash htarget =>
      obtain ⟨rfl, -, -⟩ := target_ok htarget
      split at h
      · cases h
      · next hno =>
        obtain rfl : slash = false := by simpa using hno
        split at h
        · cases h
        · next hfree =>
          refine ⟨c, ?_, htarget, hfree, (Except.ok.inj h).symm⟩
          unfold read
          rw [hfind]

/-- A file that is moved can be read at its new path, and nothing else is changed but that it is gone from the old. -/
theorem moveFile_ok {source : String} (h : d.moveFile source path = .ok d') :
    ∃ c, d.read source = .ok c ∧ d'.read path = .ok c ∧
      Kept (fun q => q = d.placeOf source ∨ q = d.placeOf path) d d' := by
  obtain ⟨c, hread, htarget, hfree, rfl⟩ := eq_put_of_moveFile h
  obtain ⟨-, -, hnode⟩ := read_ok_iff.mp hread
  obtain ⟨-, hne, hslash⟩ := target_ok htarget
  obtain ⟨hbare, hreaches⟩ := hslash rfl
  have hnode? (x : Place) : ((d.dropWhere (· = d.placeOf source)).put (d.placeOf path) (.file c)).node? x =
      if x = d.placeOf path then some (.file c) else if x = [] then some .folder
      else if x = d.placeOf source then none else d.node? x := by
    rw [node?_put _ hne, node?_dropWhere]
    simp
  have hkept : Kept (fun q => q = d.placeOf source ∨ q = d.placeOf path) d
      ((d.dropWhere (· = d.placeOf source)).put (d.placeOf path) (.file c)) := by
    refine ⟨rfl, fun x hx => ?_, fun x c' hx => ?_⟩
    · rw [hnode?, if_neg, ite_eq_left_iff]
      · intro _
        rw [if_neg, hx]
        rintro rfl
        rw [hnode] at hx
        cases hx
      · rintro rfl
        exact hfree hx
    · rw [not_or] at hx
      rw [hnode?, if_neg hx.2, if_neg hx.1]
      split
      · next hroot => simp [hroot, node?]
      · exact Iff.rfl
  refine ⟨c, hread, read_ok_iff.mpr ⟨hkept.reaches hreaches, hbare, ?_⟩, hkept⟩
  rw [hkept.placeOf, hnode?, if_pos rfl]

/-! ### Making folders -/

theorem eq_put_of_makeFolder (h : d.makeFolder path = .ok d') :
    d.placeOf path ≠ [] ∧ d.node? (d.placeOf path) = none ∧ d' = d.put (d.placeOf path) .folder := by
  unfold makeFolder at h
  split at h
  · cases h
  · cases h
  · next p slash htarget =>
    obtain ⟨rfl, hne, -⟩ := target_ok htarget
    split at h
    · cases h
    · next hnode => exact ⟨hne, hnode, (Except.ok.inj h).symm⟩

theorem makeFolder_ok (h : d.makeFolder path = .ok d') :
    Kept (fun _ => False) d d' ∧ d'.node? (d.placeOf path) = some .folder := by
  obtain ⟨hne, hnode, rfl⟩ := eq_put_of_makeFolder h
  refine ⟨⟨rfl, fun q hq => ?_, fun q c _ => ?_⟩, ?_⟩
  · rw [node?_put d hne]
    split
    · rfl
    · exact hq
  · rw [node?_put d hne]
    split
    · next hq => simp [hq, hnode]
    · exact Iff.rfl
  · rw [node?_put d hne, if_pos rfl]

theorem makeFoldersWithin_kept (n : Nat) (d : Disk) (path : String) :
    Kept (fun _ => False) d (d.makeFoldersWithin n path).2 := by
  induction n generalizing d path with
  | zero => exact .refl _ d
  | succ n ih =>
    unfold makeFoldersWithin
    split
    · exact .refl _ d
    split
    · next hmade => exact (makeFolder_ok hmade).1
    · split
      · exact .refl _ d
      · next parent _ =>
        have hparent := ih d parent
        split
        · next hmade =>
          rw [hmade] at hparent
          exact hparent
        · next hmade =>
          rw [hmade] at hparent
          split
          · next hlast => exact hparent.trans (makeFolder_ok hlast).1
          · exact hparent
    · exact .refl _ d

theorem makeFolders_kept (d : Disk) (path : String) : Kept (fun _ => False) d (d.makeFolders path).2 :=
  makeFoldersWithin_kept _ d path

/-! ### Names in folders -/

section Inside
variable {x : String}

/-- The names directly inside a folder, in the order in which they were made. -/
def names (d : Disk) (p : Place) : List String := (d.inside p).map Prod.fst

/-- The name that a place has in a folder, if it is directly inside. -/
def nameIn (p q : Place) : Option String :=
  match q.getLast? with
  | some x => if q = p ++ [x] then some x else none
  | none => none

theorem nameIn_eq_some_iff : nameIn p q = some x ↔ q = p ++ [x] := by
  unfold nameIn
  constructor
  · intro h
    split at h
    · split at h
      · next heq => rwa [← Option.some.inj h]
      · cases h
    · cases h
  · rintro rfl
    simp

theorem names_eq (d : Disk) (p : Place) : d.names p = (d.nodes.map Prod.fst).filterMap (nameIn p) := by
  unfold names inside
  rw [List.map_filterMap, List.filterMap_map]
  congr 1
  funext e
  simp only [Function.comp_apply, nameIn]
  cases e.1.getLast? with
  | none => rfl
  | some x =>
    dsimp only
    split <;> rfl

theorem mem_names_iff : x ∈ d.names p ↔ ∃ n, d.node? (p ++ [x]) = some n := by
  constructor
  · intro hx
    obtain ⟨e, he, rfl⟩ := List.mem_map.mp hx
    exact node?_of_mem_inside he
  · rintro ⟨n, hnode⟩
    exact List.mem_map_of_mem (mem_inside_of_node? hnode)

theorem putNode_of_notMem {es : List (Place × Node)} (h : p ∉ es.map Prod.fst) (n : Node) : putNode p n es = es ++ [(p, n)] := by
  induction es with
  | nil => rfl
  | cons e es ih =>
    rw [List.map_cons, List.mem_cons, not_or] at h
    rw [putNode, if_neg (Ne.symm h.1), ih h.2, List.cons_append]

/-- A node that is set is a new name in the folder that it is in, or the names stay. -/
theorem names_put (d : Disk) (p q : Place) (n : Node) : (d.put p n).names q = d.names q ∨
    ∃ x, p = q ++ [x] ∧ x ∉ d.names q ∧ (d.put p n).names q = d.names q ++ [x] := by
  by_cases hp : p ∈ d.nodes.map Prod.fst
  · left
    rw [names_eq, names_eq, put, keys_putNode hp]
  · have hnames : (d.put p n).names q = d.names q ++ (nameIn q p).toList := by
      rw [names_eq, names_eq, put, putNode_of_notMem hp, List.map_append, List.filterMap_append]
      cases hname : nameIn q p <;> simp [hname]
    cases hname : nameIn q p with
    | none =>
      left
      simpa [hname] using hnames
    | some x =>
      obtain rfl := nameIn_eq_some_iff.mp hname
      refine Or.inr ⟨x, rfl, fun hx => hp ?_, by simpa [hname] using hnames⟩
      rw [names_eq, List.mem_filterMap] at hx
      obtain ⟨q', hq', hx⟩ := hx
      rwa [← nameIn_eq_some_iff.mp hx]

end Inside

end Depot.Disk
