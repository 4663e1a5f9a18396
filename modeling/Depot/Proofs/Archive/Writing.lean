import Depot.Archive.Writer
import Depot.Proofs.Host

/-! What an archive holds once it is written: the layers in order, the config and the manifest, as one tar file. Each
    step writes at the end of the file with the other name, and the last one moves it to its path. -/

namespace Depot.Archive
variable {h : Host} {path : String} {a b c : Bytes}

/-- If it succeeds, `x` writes some bytes at the end of the file at a path. -/
def Extends (path : String) (b : Bytes) (x : Act Host Unit) : Prop :=
  ∀ h c, (x h).1 = .ok () → h.disk.read path = .ok c → (x h).2.disk.read path = .ok (c ++ b)

namespace Extends
variable {x : Act Host Unit} {k : Unit → Act Host Unit}

theorem bind (hx : Extends path a x) (hk : Extends path b (k ())) : Extends path (a ++ b) (x >>= k) := by
  intro h c hok hread
  rw [Act.bind_apply] at hok ⊢
  have hx := hx h c
  rcases hxs : x h with ⟨r, h'⟩
  rw [hxs] at hok hx
  cases r with
  | error e => cases hok
  | ok u =>
    rw [← List.append_assoc]
    exact hk h' (c ++ a) hok (hx rfl hread)

theorem append (path : String) (b : Bytes) : Extends path b (Host.append path b) := by
  intro h c hok hread
  obtain ⟨d, hchange, hd⟩ := Host.alter_ok hok
  obtain ⟨-, old, hold, hnew⟩ := Disk.change_ok hchange
  have hnode := (Disk.read_ok_iff.mp hread).2.2
  obtain rfl : old = c := by
    rcases hold with hold | ⟨hold, -⟩
    · rw [hnode] at hold
      exact (Node.file.inj (Option.some.inj hold)).symm
    · rw [hnode] at hold
      cases hold
  rw [Host.append, hd]
  exact hnew

/-- A line of progress is not written to the disk. -/
theorem tell (path : String) (quiet : Bool) (line : String) : Extends path [] (Progress.tell quiet line) := by
  intro h c _ hread
  rw [List.append_nil]
  cases quiet <;> exact hread

end Extends

theorem extends_writeLayers (path : String) (quiet : Bool) (layers : List Blob) :
    Extends path (layers.flatMap fun l => Tar.member (file (layerName l) l.data)) (writeLayers path quiet layers) := by
  induction layers with
  | nil =>
    intro h c _ hread
    rw [List.flatMap_nil, List.append_nil]
    exact hread
  | cons layer layers ih =>
    rw [List.flatMap_cons]
    show Extends path _ (Host.append path (Tar.member (file (layerName layer) layer.data)) >>= fun _ =>
      Progress.copied quiet layer false >>= fun _ => writeLayers path quiet layers)
    exact (Extends.append path _).bind ((Extends.tell path quiet _).bind ih)

/-- The file with the other name holds the whole archive when its members have been written. -/
theorem read_writeMembers {config : Blob} {layers : List Blob} {tags : List String} {quiet : Bool}
    (hok : (writeMembers path config layers tags quiet h).1 = .ok ()) :
    (writeMembers path config layers tags quiet h).2.disk.read path = .ok (encode config layers tags) := by
  have hmembers : Extends path (encode config layers tags) (writeLayers path quiet layers >>= fun _ =>
      Host.append path (Tar.member (file (configName config) config.data)) >>= fun _ =>
        Host.append path (Tar.member (file manifestName (manifestOf config layers tags))) >>= fun _ =>
          Host.append path Tar.ending >>= fun _ => Progress.manifest quiet) := by
    have hencode : encode config layers tags = (layers.flatMap fun l => Tar.member (file (layerName l) l.data)) ++
        (Tar.member (file (configName config) config.data) ++
          (Tar.member (file manifestName (manifestOf config layers tags)) ++ (Tar.ending ++ []))) := by
      simp [encode, Tar.encode, List.flatMap_append, List.flatMap_map]
    rw [hencode]
    exact (extends_writeLayers path quiet layers).bind ((Extends.append path _).bind
      ((Extends.append path _).bind ((Extends.append path _).bind (Extends.tell path quiet _))))
  obtain ⟨_, h', hbegin, hrest⟩ := Act.bind_of_fst_ok hok
  have hempty : (Host.alter (·.write path []) h).1 = .ok () := congrArg Prod.fst hbegin
  obtain ⟨d, hwrite, hd⟩ := Host.alter_ok hempty
  obtain rfl : h' = h.withDisk d := congrArg Prod.snd (hbegin.symm.trans hd)
  rw [writeMembers, hrest] at hok ⊢
  exact hmembers _ [] hok (Disk.write_ok hwrite).2

/-! ### The move -/

/-- Writes an archive at a path and moves it to another. -/
def publish (temporary path : String) (config : Blob) (layers : List Blob) (tags : List String) (quiet : Bool) :
    Act Host Unit :=
  writeMembers temporary config layers tags quiet >>= fun _ => Host.alter (·.moveFile temporary path)

theorem read_publish {temporary : String} {config : Blob} {layers : List Blob} {tags : List String} {quiet : Bool}
    (hok : (publish temporary path config layers tags quiet h).1 = .ok ()) :
    (publish temporary path config layers tags quiet h).2.disk.read path = .ok (encode config layers tags) := by
  obtain ⟨_, h', hmembers, hmove⟩ := Act.bind_of_fst_ok hok
  have hread := read_writeMembers (congrArg Prod.fst hmembers)
  rw [publish, hmove] at hok ⊢
  rw [hmembers] at hread
  obtain ⟨d, hmoved, hd⟩ := Host.alter_ok hok
  obtain ⟨c, hsource, hpath, -⟩ := Disk.moveFile_ok hmoved
  rw [hread] at hsource
  rw [hd, Host.disk_withDisk, hpath, hsource]

/-- The other name under which an archive is written at first. -/
def draftPath (path : String) (h : Host) : String := temporaryPath path (h.tokens h.drawn)

/-- The surroundings when the folder for an archive is made and the other name is drawn. -/
def begun (path : String) (h : Host) : Host := (Host.token (makeFolderOf path h).2).2

/-- Making the folder for an archive changes nothing but the disk, and that as making folders does. -/
theorem makeFolderOf_cases (path : String) (h : Host) : (makeFolderOf path h).2 = h ∨
    ∃ d, (makeFolderOf path h).2 = h.withDisk d ∧
      (d = h.disk ∨ ∃ folder, Path.parent? path = some folder ∧ d = (h.disk.makeFolders folder).2) := by
  unfold makeFolderOf
  cases hparent : Path.parent? path with
  | none => exact Or.inl rfl
  | some folder =>
    by_cases hempty : folder = ""
    · refine Or.inl ?_
      dsimp only
      rw [if_pos hempty]
      rfl
    · dsimp only
      rw [if_neg hempty]
      rcases Host.alterPartly_cases (·.makeFolders folder) h with ⟨e, he⟩ | hmade
      · exact Or.inr ⟨h.disk, congrArg Prod.snd he, Or.inl rfl⟩
      · exact Or.inr ⟨_, congrArg Prod.snd hmade, Or.inr ⟨folder, rfl, rfl⟩⟩

theorem names_makeFolderOf (path : String) (h : Host) :
    (makeFolderOf path h).2.tokens = h.tokens ∧ (makeFolderOf path h).2.drawn = h.drawn := by
  rcases makeFolderOf_cases path h with hsame | ⟨d, hmade, -⟩
  · rw [hsame]
    exact ⟨rfl, rfl⟩
  · rw [hmade]
    exact ⟨rfl, rfl⟩

/-- Writing an archive ends when its folder cannot be made, when it has been published, or when that has failed and
    what was written is taken away. -/
theorem write_cases (path : String) (config : Blob) (layers : List Blob) (tags : List String) (quiet : Bool) (h : Host) :
    (∃ e, write path config layers tags quiet h = (.error e, (makeFolderOf path h).2)) ∨
      (∃ h', publish (draftPath path h) path config layers tags quiet (begun path h) = (.ok (), h') ∧
        write path config layers tags quiet h = (.ok (), h')) ∨
      ∃ e h', publish (draftPath path h) path config layers tags quiet (begun path h) = (.error e, h') ∧
        write path config layers tags quiet h = (.error e, (Host.alter (·.removeFile (draftPath path h)) h').2) := by
  obtain ⟨htokens, hdrawn⟩ := names_makeFolderOf path h
  unfold draftPath begun
  rw [← htokens, ← hdrawn]
  rcases hfolder : makeFolderOf path h with ⟨r, h₁⟩
  cases r with
  | error e => exact Or.inl ⟨e, Act.bind_of_error hfolder⟩
  | ok u =>
    have htoken : Host.token h₁ = (.ok (h₁.tokens h₁.drawn), (Host.token h₁).2) := rfl
    rcases hpublish : publish (temporaryPath path (h₁.tokens h₁.drawn)) path config layers tags quiet (Host.token h₁).2
      with ⟨r, h₂⟩
    have hattempt : (publish (temporaryPath path (h₁.tokens h₁.drawn)) path config layers tags quiet).attempt
        (Host.token h₁).2 = (.ok r, h₂) := by
      rw [Act.attempt_apply, hpublish]
    refine Or.inr ?_
    rw [write, Act.bind_of_ok hfolder, Act.bind_of_ok htoken]
    cases r with
    | ok u => exact Or.inl ⟨h₂, rfl, Act.bind_of_ok hattempt⟩
    | error e => exact Or.inr ⟨e, h₂, rfl, Act.bind_of_ok hattempt⟩

/-- When an archive has been written, its path holds it. -/
theorem read_write {config : Blob} {layers : List Blob} {tags : List String} {quiet : Bool}
    (hok : (write path config layers tags quiet h).1 = .ok ()) :
    (write path config layers tags quiet h).2.disk.read path = .ok (encode config layers tags) := by
  rcases write_cases path config layers tags quiet h with ⟨e, hwrite⟩ | ⟨h', hpublish, hwrite⟩ | ⟨e, h', -, hwrite⟩ <;>
    rw [hwrite] at hok ⊢
  · cases hok
  · have hread := read_publish (congrArg Prod.fst hpublish)
    rwa [hpublish] at hread
  · cases hok

end Depot.Archive
