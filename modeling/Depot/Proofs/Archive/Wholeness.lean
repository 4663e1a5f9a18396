import Depot.Proofs.Archive.Writing
import Depot.Proofs.Disk.Making

/-! Writing an archive is all or nothing. Until the move, what is done to the disk once the folder is made is done to
    the file with the other name and to nothing else (`Drafted`), wherever it stops. So when it fails, taking that
    file away gives the disk back as it was, and when it succeeds, the move has put the whole archive at its path. -/

namespace Depot

/-! ### The file with the other name -/

namespace Disk
variable {d d' d'' : Disk} {path source folder : String} {c : Bytes}

/-- There may be a file at the path now that can be read, and nothing else is changed. -/
def Drafted (path : String) (d d' : Disk) : Prop :=
  d' = d ∨ ∃ c, d' = d.put (d.placeOf path) (.file c) ∧ d'.read path = .ok c

theorem Drafted.here (h : Drafted path d d') : d'.here = d.here := by
  rcases h with rfl | ⟨c, rfl, -⟩ <;> rfl

theorem Drafted.trans (h : Drafted path d d') (h' : Drafted path d' d'') : Drafted path d d'' := by
  have hplace := placeOf_congr h.here path
  rcases h' with rfl | ⟨c', hput', hread'⟩
  · exact h
  rcases h with rfl | ⟨c, rfl, -⟩
  · exact Or.inr ⟨c', hput', hread'⟩
  · rw [hplace, put_put] at hput'
    exact Or.inr ⟨c', hput', hread'⟩

theorem drafted_change {f : Bytes → Bytes} (h : d.change path f = .ok d') : Drafted path d d' := by
  obtain ⟨hne, -, old, rfl⟩ := eq_put_of_change h
  obtain ⟨-, _, -, hread⟩ := change_ok h
  obtain ⟨hreaches, hbare, -⟩ := read_ok_iff.mp hread
  refine Or.inr ⟨f old, rfl, read_ok_iff.mpr ⟨hreaches, hbare, ?_⟩⟩
  rw [placeOf_congr (here_put d _ _), node?_put d hne, if_pos rfl]

/-- Taking the file away gives the disk from before, if there is one to be taken away. -/
theorem Drafted.removeFile (h : Drafted path d d') (hnone : d.node? (d.placeOf path) = none) :
    d' = d ∨ d'.node? (d'.placeOf path) ≠ none ∧ d'.removeFile path = .ok d := by
  refine h.imp_right ?_
  rintro ⟨c, rfl, hread⟩
  obtain ⟨hreaches, hbare, hnode⟩ := read_ok_iff.mp hread
  refine ⟨by simp [hnode], ?_⟩
  unfold Disk.removeFile
  rw [find_file hreaches hbare hnode]
  dsimp only
  rw [placeOf_congr (here_put d _ _), dropWhere_put hnone]

/-- Moving the file gives the disk from before with the file at the new path, under the name in which that ends. -/
theorem Drafted.moveFile (h : Drafted source d d') (hnone : d.node? (d.placeOf source) = none)
    (hread : d'.read source = .ok c) (hmove : d'.moveFile source path = .ok d'') :
    (∃ p x, Path.fileName? path = some x ∧ d.placeOf path = p ++ [x]) ∧ d.node? (d.placeOf path) ≠ some .folder ∧
      d'' = d.put (d.placeOf path) (.file c) := by
  obtain ⟨hreaches, hbare, hnode⟩ := read_ok_iff.mp hread
  obtain ⟨c', hread', htarget, hfree, rfl⟩ := eq_put_of_moveFile hmove
  obtain rfl : c = c' := Except.ok.inj (hread.symm.trans hread')
  have hname := fileName?_of_target htarget
  rw [placeOf_congr h.here] at hnode hname hfree
  rw [placeOf_congr h.here, placeOf_congr h.here]
  rcases h with rfl | ⟨_, rfl, -⟩
  · rw [hnone] at hnode
    cases hnode
  · refine ⟨hname, fun hfolder => hfree ?_, by rw [dropWhere_put hnone]⟩
    rw [node?_put d (ne_nil_of_node?_none hnone), if_neg, hfolder]
    intro heq
    rw [heq, hnone] at hfolder
    cases hfolder

/-! ### The folder -/

/-- Folders that the path lies in may have been made, and nothing else is changed. -/
structure MakesWayTo (path : String) (d d' : Disk) : Prop where
  here : d'.here = d.here
  node : ∀ q, d'.node? q = d.node? q ∨
    ∃ folder, Path.parent? path = some folder ∧ d.Passes folder q ∧ d.node? q = none ∧ d'.node? q = some .folder

theorem MakesWayTo.refl (path : String) (d : Disk) : MakesWayTo path d d := ⟨rfl, fun _ => Or.inl rfl⟩

theorem MakesAlong.makesWayTo (h : MakesAlong folder d d') (hparent : Path.parent? path = some folder) :
    MakesWayTo path d d' :=
  ⟨h.here, fun q => (h.node q).imp_right fun hmade => ⟨folder, hparent, hmade⟩⟩

end Disk

namespace Archive
variable {h h' : Host} {path temporary token : String} {config : Blob} {layers : List Blob} {tags : List String}
  {quiet : Bool}

theorem makesWayTo_begun (path : String) (h : Host) : h.disk.MakesWayTo path (begun path h).disk := by
  show h.disk.MakesWayTo path (makeFolderOf path h).2.disk
  rcases makeFolderOf_cases path h with hsame | ⟨d, hmade, hd⟩
  · rw [hsame]
    exact .refl path h.disk
  · rw [hmade, Host.disk_withDisk]
    obtain rfl | ⟨folder, hparent, rfl⟩ := hd
    · exact .refl path h.disk
    · exact (Disk.makesAlong_makeFolders h.disk folder).makesWayTo hparent

/-! ### Steps -/

/-- The file at a path has changed and nothing else on the disk, and troubles were met in their order. -/
structure DraftedBy (path : String) (h h' : Host) : Prop where
  disk : h.disk.Drafted path h'.disk
  troubles : h'.troubles <:+ h.troubles

/-- This is so wherever `x` ends. -/
def Drafts (path : String) (x : Act Host Unit) : Prop := ∀ h, DraftedBy path h (x h).2

namespace Drafts
variable {x : Act Host Unit} {k : Unit → Act Host Unit}

theorem pure (path : String) : Drafts path (Pure.pure ()) := fun _ => ⟨Or.inl rfl, List.suffix_refl _⟩

theorem bind (hx : Drafts path x) (hk : Drafts path (k ())) : Drafts path (x >>= k) := by
  intro h
  have hx := hx h
  rw [Act.bind_apply]
  rcases hxs : x h with ⟨e | u, h'⟩ <;> rw [hxs] at hx
  · exact hx
  · exact ⟨hx.disk.trans (hk h').disk, (hk h').troubles.trans hx.troubles⟩

theorem change (path : String) (f : Bytes → Bytes) : Drafts path (Host.alter (·.change path f)) := by
  refine fun h => ⟨?_, Host.troubles_alter _ h⟩
  rcases Host.alter_cases (·.change path f) h with ⟨e, he⟩ | ⟨d, hchange, hd⟩
  · rw [he]
    exact Or.inl rfl
  · rw [hd]
    exact Disk.drafted_change hchange

theorem tell (path : String) (quiet : Bool) (line : String) : Drafts path (Progress.tell quiet line) := by
  cases quiet <;> exact fun _ => ⟨Or.inl rfl, List.suffix_refl _⟩

end Drafts

theorem drafts_writeLayers (path : String) (quiet : Bool) (layers : List Blob) :
    Drafts path (writeLayers path quiet layers) := by
  induction layers with
  | nil => exact .pure path
  | cons layer layers ih => exact (Drafts.change path _).bind ((Drafts.tell path quiet _).bind ih)

theorem drafts_writeMembers (path : String) (config : Blob) (layers : List Blob) (tags : List String) (quiet : Bool) :
    Drafts path (writeMembers path config layers tags quiet) :=
  (Drafts.change path _).bind ((drafts_writeLayers path quiet layers).bind ((Drafts.change path _).bind
    ((Drafts.change path _).bind ((Drafts.change path _).bind (Drafts.tell path quiet _)))))

/-! ### Names -/

theorem isName_temporary {file : String} (hfile : '/' ∉ file.toList) (htoken : '/' ∉ token.toList) :
    IsName ("." ++ file ++ "." ++ token ++ ".tmp") := by
  have hlength : 2 < ("." ++ file ++ "." ++ token ++ ".tmp").toList.length := by
    simp [String.toList_append]
    omega
  refine ⟨?_, by simp [String.toList_append, hfile, htoken], ?_, ?_⟩ <;> intro heq <;> rw [heq] at hlength <;>
    exact absurd hlength (by decide)

/-- The file with the other name does not stand where the archive goes. -/
theorem placeOf_temporary_ne {d : Disk} {p : Place} {x : String} (htoken : '/' ∉ token.toList)
    (hx : Path.fileName? path = some x) (hplace : d.placeOf path = p ++ [x]) :
    d.placeOf (temporaryPath path token) ≠ d.placeOf path := by
  rw [temporaryPath, Path.withFileName, hx]
  dsimp only [Option.getD_some]
  rw [Disk.placeOf_join d _ (isName_temporary (Path.no_slash_of_fileName? hx) htoken), hplace]
  intro heq
  obtain ⟨-, hlast⟩ := List.append_inj' heq rfl
  have hlength := congrArg (·.toList.length) (List.singleton_inj.mp hlast)
  simp [String.toList_append] at hlength
  omega

/-! ### Runs -/

/-- Publishing fails with nothing done but to the file with the other name, or it moves the whole archive. -/
theorem publish_cases {r : Except Error Unit} (hpublish : publish temporary path config layers tags quiet h = (r, h')) :
    (∃ e, r = .error e) ∧ h.disk.Drafted temporary h'.disk ∨
      r = .ok () ∧ ∃ d, h.disk.Drafted temporary d ∧ d.read temporary = .ok (encode config layers tags) ∧
        d.moveFile temporary path = .ok h'.disk := by
  have hdrafted := (drafts_writeMembers temporary config layers tags quiet h).disk
  have hread (hok : (writeMembers temporary config layers tags quiet h).1 = .ok ()) := read_writeMembers hok
  rw [publish, Act.bind_apply] at hpublish
  rcases hmembers : writeMembers temporary config layers tags quiet h with ⟨e | u, h₁⟩ <;>
    rw [hmembers] at hpublish hdrafted hread
  · obtain ⟨rfl, rfl⟩ := Prod.mk.inj hpublish
    exact Or.inl ⟨⟨e, rfl⟩, hdrafted⟩
  · rcases Host.alter_cases (·.moveFile temporary path) h₁ with ⟨e, he⟩ | ⟨d, hmove, hd⟩
    · obtain ⟨rfl, rfl⟩ := Prod.mk.inj (hpublish.symm.trans he)
      exact Or.inl ⟨⟨_, rfl⟩, hdrafted⟩
    · obtain ⟨rfl, rfl⟩ := Prod.mk.inj (hpublish.symm.trans hd)
      exact Or.inr ⟨rfl, h₁.disk, hdrafted, hread rfl, hmove⟩

theorem troubles_publish (temporary path : String) (config : Blob) (layers : List Blob) (tags : List String) (quiet : Bool)
    (h : Host) : (publish temporary path config layers tags quiet h).2.troubles <:+ h.troubles := by
  have htroubles := (drafts_writeMembers temporary config layers tags quiet h).troubles
  rw [publish, Act.bind_apply]
  rcases hmembers : writeMembers temporary config layers tags quiet h with ⟨e | u, h₁⟩ <;> rw [hmembers] at htroubles
  · exact htroubles
  · exact (Host.troubles_alter _ h₁).trans htroubles

/-- Whether there is a file to be taken away or not, the disk is the one from before then. -/
theorem disk_of_removeFile {d : Disk} (hdrafted : d.Drafted path h.disk) (hnone : d.node? (d.placeOf path) = none)
    (hallows : h.disk.node? (h.disk.placeOf path) ≠ none → h.Allows) :
    (Host.alter (·.removeFile path) h).2.disk = d := by
  rcases hdrafted.removeFile hnone with rfl | ⟨hthere, hremove⟩
  · rcases Host.alter_cases (·.removeFile path) h with ⟨e, he⟩ | ⟨d, hremove, -⟩
    · rw [he, Host.disk_withDisk]
    · obtain ⟨e, he⟩ := Disk.find_none hnone
      rw [Disk.removeFile, he] at hremove
      cases hremove
  · rw [Host.alter_of_allows (hallows hthere) hremove, Host.disk_withDisk]

/-! ### All or nothing -/

/-- What an archive is granted where it is written: the other name is one name, nothing has it when the folder is there,
    and if publishing fails, the removal of a file that has it then is not refused. -/
structure Grants (path : String) (config : Blob) (layers : List Blob) (tags : List String) (quiet : Bool) (h : Host) :
    Prop where
  name : '/' ∉ (h.tokens h.drawn).toList
  unused : (begun path h).disk.node? ((begun path h).disk.placeOf (draftPath path h)) = none
  removal : ∀ e h', publish (draftPath path h) path config layers tags quiet (begun path h) = (.error e, h') →
    h'.disk.node? (h'.disk.placeOf (draftPath path h)) ≠ none → h'.Allows

/-- A host without troubles refuses no removal. -/
theorem grants_of_calm (hcalm : h.troubles = []) (hname : '/' ∉ (h.tokens h.drawn).toList)
    (hunused : (begun path h).disk.node? ((begun path h).disk.placeOf (draftPath path h)) = none) :
    Grants path config layers tags quiet h where
  name := hname
  unused := hunused
  removal e h' hpublish _ := by
    have hbegun : (begun path h).troubles = [] := by
      show (makeFolderOf path h).2.troubles = []
      rcases makeFolderOf_cases path h with hsame | ⟨d, hmade, -⟩
      · rw [hsame, hcalm]
      · rw [hmade, Host.troubles_withDisk hcalm]
    have hrest := troubles_publish (draftPath path h) path config layers tags quiet (begun path h)
    rw [hpublish, hbegun] at hrest
    exact Host.allows_of_calm (List.suffix_nil.mp hrest)

/-- A write either fails, and only folders that its path lies in have been made, or its path holds the whole archive
    and nothing else has changed; and nothing has the other name in the end. -/
theorem write_whole_or_nothing {r : Except Error Unit} (hgrants : Grants path config layers tags quiet h)
    (hwrite : write path config layers tags quiet h = (r, h')) :
    ∃ made, h.disk.MakesWayTo path made ∧
      ((∃ e, r = .error e) ∧ h'.disk = made ∨
        r = .ok () ∧ made.node? (made.placeOf path) ≠ some .folder ∧
          h'.disk = made.put (made.placeOf path) (.file (encode config layers tags)) ∧
          h'.disk.read path = .ok (encode config layers tags)) ∧
      h'.disk.node? (h'.disk.placeOf (draftPath path h)) = none := by
  refine ⟨(begun path h).disk, makesWayTo_begun path h, ?_⟩
  rcases write_cases path config layers tags quiet h with ⟨e, hfail⟩ | ⟨h₁, hpublish, hdone⟩ | ⟨e, h₁, hpublish, hfail⟩
  · obtain ⟨rfl, rfl⟩ := Prod.mk.inj (hwrite.symm.trans hfail)
    exact ⟨Or.inl ⟨⟨e, rfl⟩, rfl⟩, hgrants.unused⟩
  · obtain ⟨rfl, rfl⟩ := Prod.mk.inj (hwrite.symm.trans hdone)
    have hread := read_write (congrArg Prod.fst hdone)
    rw [hdone] at hread
    rcases publish_cases hpublish with ⟨⟨_, ⟨⟩⟩, -⟩ | ⟨-, d, hdrafted, hwhole, hmove⟩
    obtain ⟨⟨p, x, hx, hplace⟩, hfree, hdisk⟩ := hdrafted.moveFile hgrants.unused hwhole hmove
    refine ⟨Or.inr ⟨rfl, hfree, hdisk, hread⟩, ?_⟩
    -- The draft lay beside the path, under another name.
    have hne : (begun path h).disk.placeOf (draftPath path h) ≠ (begun path h).disk.placeOf path :=
      placeOf_temporary_ne hgrants.name hx hplace
    rw [hdisk, Disk.placeOf_congr (Disk.here_put _ _ _), Disk.node?_put _ (by simp [hplace]), if_neg hne]
    exact hgrants.unused
  · obtain ⟨rfl, rfl⟩ := Prod.mk.inj (hwrite.symm.trans hfail)
    rcases publish_cases hpublish with ⟨-, hdrafted⟩ | ⟨⟨⟩, -⟩
    rw [disk_of_removeFile hdrafted hgrants.unused (hgrants.removal e h₁ hpublish)]
    exact ⟨Or.inl ⟨⟨e, rfl⟩, rfl⟩, hgrants.unused⟩

/-- An archive is not moved to where a folder is; the folder stays, and what was written is gone. -/
theorem write_whole_or_nothing_folder :
    let config : Blob := .of MediaType.config []
    let layer : Blob := .of MediaType.layer []
    let h : Host := .start ⟨[(["out.tar"], .folder), (["out.tar", "child"], .folder)], []⟩ (fun _ => .epoch) (fun _ => "0") .cut
    Grants "/out.tar" config [layer] ["alpine"] true h ∧
      ∃ e h', write "/out.tar" config [layer] ["alpine"] true h = (.error e, h') ∧
        h.disk.MakesWayTo "/out.tar" h'.disk ∧ h'.disk.node? (h'.disk.placeOf (draftPath "/out.tar" h)) = none := by
  intro config layer h
  have hgrants : Grants "/out.tar" config [layer] ["alpine"] true h := grants_of_calm rfl (by decide) (by decide +kernel)
  have hfail : (write "/out.tar" config [layer] ["alpine"] true h).1.toOption = none := by decide +kernel
  refine ⟨hgrants, ?_⟩
  clear_value config layer h
  rcases hwrite : write "/out.tar" config [layer] ["alpine"] true h with ⟨r, h'⟩
  rw [hwrite] at hfail
  obtain ⟨made, hmade, ⟨⟨e, rfl⟩, rfl⟩ | ⟨rfl, -⟩, hgone⟩ := write_whole_or_nothing hgrants hwrite
  · exact ⟨e, h', rfl, hmade, hgone⟩
  · cases hfail

end Archive
end Depot
