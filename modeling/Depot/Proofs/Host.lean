import Depot.Progress
import Depot.Proofs.Disk.Changes

/-! How a host changes its disk. A change either meets a trouble, and then only the trouble is gone, or it is made
    as far as the disk can; of the rest of the surroundings it touches nothing. -/

namespace Depot.Host
variable {h h' : Host} {r : Except Error Unit}

/-- The surroundings behind a change of the disk. -/
def withDisk (h : Host) (d : Disk) : Host := { h with disk := d, troubles := h.troubles.tail }

@[simp] theorem disk_withDisk (h : Host) (d : Disk) : (h.withDisk d).disk = d := rfl

theorem alterPartly_cases (change : Disk → Except DiskError Unit × Disk) (h : Host) :
    (∃ e, alterPartly change h = (.error (.disk e), h.withDisk h.disk)) ∨
      alterPartly change h = ((change h.disk).1.mapError .disk, h.withDisk (change h.disk).2) := by
  obtain ⟨disk, troubles, clock, readings, tokens, drawn, wire, output, progress⟩ := h
  cases troubles with
  | nil => exact Or.inr rfl
  | cons trouble troubles =>
    cases trouble with
    | none => exact Or.inr rfl
    | some e => exact Or.inl ⟨e, rfl⟩

theorem alter_cases (change : Disk → Except DiskError Disk) (h : Host) :
    (∃ e, alter change h = (.error (.disk e), h.withDisk h.disk)) ∨
      ∃ d, change h.disk = .ok d ∧ alter change h = (.ok (), h.withDisk d) := by
  unfold alter
  refine Or.elim (alterPartly_cases _ h) Or.inl fun ha => ?_
  cases hchange : change h.disk with
  | error e =>
    refine Or.inl ⟨e, ha.trans ?_⟩
    rw [hchange]
    rfl
  | ok d =>
    refine Or.inr ⟨d, rfl, ha.trans ?_⟩
    rw [hchange]
    rfl

/-- No trouble awaits the next change. -/
def Allows (h : Host) : Prop := ∀ e, h.troubles.head? ≠ some (some e)

/-- What is allowed is changed as far as the disk can. -/
theorem alterPartly_of_allows (hallows : h.Allows) (change : Disk → Except DiskError Unit × Disk) :
    alterPartly change h = ((change h.disk).1.mapError .disk, h.withDisk (change h.disk).2) := by
  obtain ⟨disk, troubles, clock, readings, tokens, drawn, wire, output, progress⟩ := h
  cases troubles with
  | nil => rfl
  | cons trouble troubles =>
    cases trouble with
    | none => rfl
    | some e => exact absurd rfl (hallows e)

theorem alter_of_allows (hallows : h.Allows) {change : Disk → Except DiskError Disk} {d : Disk}
    (hd : change h.disk = .ok d) : alter change h = (.ok (), h.withDisk d) := by
  unfold alter
  refine (alterPartly_of_allows hallows _).trans ?_
  rw [hd]
  rfl

theorem allows_of_calm (hcalm : h.troubles = []) : h.Allows := fun e => by
  rw [hcalm]
  simp

/-- A host without troubles makes every change that the disk can make. -/
theorem alterPartly_of_calm (hcalm : h.troubles = []) (change : Disk → Except DiskError Unit × Disk) :
    alterPartly change h = ((change h.disk).1.mapError .disk, h.withDisk (change h.disk).2) :=
  alterPartly_of_allows (allows_of_calm hcalm) change

theorem alter_of_calm (hcalm : h.troubles = []) {change : Disk → Except DiskError Disk} {d : Disk}
    (hd : change h.disk = .ok d) : alter change h = (.ok (), h.withDisk d) :=
  alter_of_allows (allows_of_calm hcalm) hd

/-- A change meets the next trouble and no other. -/
theorem troubles_alter (change : Disk → Except DiskError Disk) (h : Host) : (alter change h).2.troubles <:+ h.troubles := by
  rcases alter_cases change h with ⟨e, he⟩ | ⟨d, -, hd⟩
  · rw [he]
    exact List.tail_suffix _
  · rw [hd]
    exact List.tail_suffix _

theorem alter_ok {change : Disk → Except DiskError Disk} (hok : (alter change h).1 = .ok ()) :
    ∃ d, change h.disk = .ok d ∧ alter change h = (.ok (), h.withDisk d) := by
  rcases alter_cases change h with ⟨e, he⟩ | hd
  · exact absurd (hok.symm.trans (congrArg Prod.fst he)) (by simp)
  · exact hd

theorem write_ok {path : String} {c : Bytes} (hok : write path c h = (.ok (), h')) : h.disk.write path c = .ok h'.disk := by
  obtain ⟨d, hwrite, hd⟩ := alter_ok (congrArg Prod.fst hok)
  obtain rfl := congrArg Prod.snd (hok.symm.trans hd)
  exact hwrite

theorem makeFolders_ok {path : String} (hok : makeFolders path h = (.ok (), h')) : h'.disk = (h.disk.makeFolders path).2 := by
  rcases alterPartly_cases (·.makeFolders path) h with ⟨e, he⟩ | hmade
  · cases hok.symm.trans he
  · exact congrArg (fun r => r.2.disk) (hok.symm.trans hmade)

/-- Progress is not written to the disk. -/
theorem disk_of_tell {quiet : Bool} {line : String} (htold : Progress.tell quiet line h = (r, h')) : h'.disk = h.disk := by
  cases quiet <;> cases htold <;> rfl

theorem troubles_withDisk (hcalm : h.troubles = []) (d : Disk) : (h.withDisk d).troubles = [] := by
  show h.troubles.tail = []
  rw [hcalm]
  rfl

theorem withDisk_of_calm (hcalm : h.troubles = []) (d : Disk) : h.withDisk d = { h with disk := d } := by
  unfold withDisk
  rw [hcalm]
  rfl

/-- What the disk can append is appended, or the change meets a trouble. -/
theorem append_cases {path : String} {c : Bytes} {d : Disk} (hd : h.disk.append path c = .ok d) :
    (∃ e, append path c h = (.error (.disk e), h.withDisk h.disk) ∧ h.troubles ≠ []) ∨
      append path c h = (.ok (), h.withDisk d) := by
  by_cases hcalm : h.troubles = []
  · exact Or.inr (alter_of_calm hcalm hd)
  · rcases alter_cases (·.append path c) h with ⟨e, he⟩ | ⟨d', hd', hok⟩
    · exact Or.inl ⟨e, he, hcalm⟩
    · rw [hd] at hd'
      obtain rfl := Except.ok.inj hd'
      exact Or.inr hok

/-- Folders are made as far as the disk can, or the change meets a trouble. -/
theorem makeFolders_cases (path : String) (h : Host) :
    (∃ e, makeFolders path h = (.error (.disk e), h.withDisk h.disk) ∧ h.troubles ≠ []) ∨
      makeFolders path h = ((h.disk.makeFolders path).1.mapError .disk, h.withDisk (h.disk.makeFolders path).2) := by
  by_cases hcalm : h.troubles = []
  · exact Or.inr (alterPartly_of_calm hcalm _)
  · exact (alterPartly_cases (·.makeFolders path) h).imp_left fun ⟨e, he⟩ => ⟨e, he, hcalm⟩

end Depot.Host
