import Depot.Proofs.Store.Filing
import Depot.Proofs.Store.Giving

/-! Runs of calls that store images, give names and take them. However long a run is and whatever its calls end with, index
    and images never disagree. Where the disk has room, an image is stored with its names and gets those that it is given,
    so the index can be told from the names that were given in turn. -/

namespace Depot.Store

/-! ### Runs -/

/-- A call of one of the operations that change names. -/
inductive Call where
  | add (id : String) (names : List String) (digest : Option String) (layers : List String) (size : UInt64)
  | tag (id : String) (r : Reference)
  | untag (r : Reference)

namespace Call

def run (s : Store) : Call → Act Host Unit
  | add id names digest layers size => s.add id names digest layers size
  | tag id r => s.tag id r
  | untag r => s.untag r

/-- Images have image ids, and only an image that is stored is named. -/
def Legal (s : Store) (d : Disk) : Call → Prop
  | add id .. => IsImageId id
  | tag id _ => IsImageId id ∧ ∃ m, s.metadata d id = .ok m
  | untag _ => True

/-- Images have names for ids, which can be shortened, and only an image that is stored is named. -/
def Proper (s : Store) (d : Disk) : Call → Prop
  | add id .. => IsName id ∧ ∃ short, indexedId? id = some short
  | tag id _ => IsName id ∧ ∃ m, s.metadata d id = .ok m
  | untag _ => True

theorem Legal.proper {s : Store} {d : Disk} {c : Call} (h : c.Legal s d) : c.Proper s d := by
  cases c with
  | add id names digest layers size =>
    have hid : IsImageId id := h
    exact ⟨hid.isName, _, hid.indexedId?⟩
  | tag id r => exact h.imp_left IsImageId.isName
  | untag r => trivial

end Call

/-- Calls one after the other, whatever they end with but a refusal of the disk. -/
inductive Reached (s : Store) (start : Host) : Host → Prop
  | start : Reached s start start
  | call {h : Host} (c : Call) (hreached : Reached s start h) (hlegal : c.Legal s h.disk)
      (hwrites : ∀ e, (c.run s h).1 ≠ .error (.disk e)) : Reached s start (c.run s h).2

section Runs
variable {s : Store} {start h : Host}

/-- What every run keeps: either nothing was written yet, or the index was, and it agrees with the images. -/
def Kept (s : Store) (start h : Host) : Prop :=
  (s.IsEmpty start.disk ∧ h.disk = start.disk) ∨ ∃ f, s.Shows h.disk f ∧ f.Agree ∧ f.Indexed

theorem IsEmpty.index {d : Disk} (h : s.IsEmpty d) : s.index d = .ok .empty := by
  obtain ⟨e, he⟩ := Disk.find_none (h .index trivial)
  unfold Store.index Disk.exists?
  rw [show s.indexFile = s.file .index from rfl, he]
  rfl

theorem indexOrEmpty_of_ok {d : Disk} {i : Index} (h : s.index d = .ok i) : s.indexOrEmpty d = i := by
  unfold Store.indexOrEmpty
  rw [h]

theorem IsEmpty.indexOrEmpty {d : Disk} (h : s.IsEmpty d) : s.indexOrEmpty d = .empty := indexOrEmpty_of_ok h.index

theorem untag_of_get?_none {r : Reference} (h : Host) (hnone : (s.indexOrEmpty h.disk).tags.get? r.canonicalName = none) :
    s.untag r h = (.error (.imageNotFound r.canonicalName), h) := by
  unfold Store.untag
  refine (Act.bind_of_ok (x := Act.state) (s := h) rfl).trans ?_
  rw [hnone]
  rfl

theorem kept_call {c : Call} (hkept : Kept s start h) (hproper : c.Proper s h.disk)
    (hwrites : ∀ e, (c.run s h).1 ≠ .error (.disk e)) : Kept s start (c.run s h).2 := by
  have hshown : ∃ f, s.Shows h.disk f ∧ f.Agree ∧ (f.Indexed ∨ s.IsEmpty start.disk ∧ h.disk = start.disk) := by
    rcases hkept with ⟨hempty, hdisk⟩ | ⟨f, hshows, hagree, hindexed⟩
    · exact ⟨_, hdisk ▸ hempty.shows, agree_none, Or.inr ⟨hempty, hdisk⟩⟩
    · exact ⟨f, hshows, hagree, Or.inl hindexed⟩
  obtain ⟨f, hshows, hagree, hindexed⟩ := hshown
  cases c with
  | add id names digest layers size =>
    obtain ⟨hid, short, hshort⟩ : IsName id ∧ ∃ short, indexedId? id = some short := hproper
    dsimp only [Call.run] at hwrites ⊢
    obtain ⟨g, hg, now, hresult⟩ := add_unrefused hagree.sound hid hshows hwrites
    obtain rfl : g = _ := congrArg Prod.snd hresult
    exact Or.inr ⟨_, hg, hagree.add hid hshort .., Contents.indexed_add hshort ..⟩
  | tag id r =>
    obtain ⟨hid, m, hm⟩ := hproper
    dsimp only [Call.run] at hwrites ⊢
    rw [hshows.metadata hid] at hm
    obtain ⟨g, hg, hresult⟩ := (turns_tag hagree.sound hid r).unrefused hshows hwrites
    obtain ⟨g', hg', hagree', -⟩ := hagree.tag hid hm r.canonicalName
    obtain rfl : g = g' := congrArg Prod.snd (hresult.trans hg')
    exact Or.inr ⟨g, hg, hagree', Contents.indexed_tag hg'⟩
  | untag r =>
    dsimp only [Call.run] at hwrites ⊢
    -- A name that is taken away was in an index. Where there is none yet, nothing was done so far.
    rcases hindexed with hindexed | ⟨hempty, hdisk⟩
    · obtain ⟨g, hg, hresult⟩ := (turns_untag hagree.sound r).unrefused hshows hwrites
      obtain rfl : g = _ := congrArg Prod.snd hresult
      exact Or.inr ⟨_, hg, hagree.untag r.canonicalName, hindexed.untag r.canonicalName⟩
    · have hnone : (s.indexOrEmpty h.disk).tags.get? r.canonicalName = none := by
        have hindex := (hdisk ▸ hempty).indexOrEmpty
        exact congrArg (fun i => i.tags.get? r.canonicalName) hindex
      rw [untag_of_get?_none h hnone]
      exact Or.inl ⟨hempty, hdisk⟩

theorem Reached.kept (hempty : s.IsEmpty start.disk) (hreached : s.Reached start h) : Kept s start h := by
  induction hreached with
  | start => exact Or.inl ⟨hempty, rfl⟩
  | call c _ hlegal hwrites ih => exact kept_call ih hlegal.proper hwrites

/-- What a run leaves is shown by the disk, index and images in agreement. -/
theorem Kept.shown (h' : Kept s start h) : ∃ f, s.Shows h.disk f ∧ f.Agree ∧ s.index h.disk = .ok f.index := by
  rcases h' with ⟨hempty, hdisk⟩ | ⟨f, hshows, hagree, x, hx⟩
  · exact ⟨_, hdisk ▸ hempty.shows, agree_none, hdisk ▸ hempty.index⟩
  · exact ⟨f, hshows, hagree, hshows.index hx⟩

/-! ### Stores with room -/

/-- Where there is room, an image is stored with names that are references. -/
theorem Ready.add_ok {f : Contents} {id short : String} {names : List String} (hready : s.Ready h) (hshows : s.Shows h.disk f)
    (hf : f.Neat) (hfile : Disk.IsFileName id) (hshort : indexedId? id = some short)
    (hparse : ∀ name ∈ names, ∃ r, Reference.parse name = .ok r) (digest : Option String) (layers : List String) (size : UInt64) :
    (s.add id names digest layers size h).1 = .ok () ∧ s.Ready (s.add id names digest layers size h).2 ∧
      ∃ g now, s.Shows (s.add id names digest layers size h).2.disk g ∧ f.add id names digest layers size now = (.ok (), g) := by
  obtain ⟨g, hready', hg, now, hresult⟩ := (turns_add hf.sound hfile names digest layers size).goes h hready hshows
  have hreads := hf.reads_add hfile.toIsName hshort names digest layers size now
  rw [← hresult] at hreads
  have hok := hreads.eq_ok hparse
  exact ⟨hok, hready', g, now, hg, hresult.symm.trans (Prod.ext hok rfl)⟩

/-- A store with room and with these images, in which names were given as `takers` tells, and no others. -/
structure Furnished (s : Store) (ids : List String) (takers : String → List String) (h : Host) : Prop where
  ready : s.Ready h
  shown : ∃ f, s.Shows h.disk f ∧ f.Neat ∧ Contents.Gave (fun _ => none) takers f ∧
    ∀ id, IsName id → ((∃ m, f.metadata id = .ok m) ↔ id ∈ ids)

namespace Furnished
variable {ids : List String} {takers : String → List String} {id short : String} {names : List String}

/-- An image is stored with canonical names. -/
theorem add (hfurnished : s.Furnished ids takers h) (hfile : Disk.IsFileName id) (hshort : indexedId? id = some short)
    (hnames : ∀ name ∈ names, IsCanonical name) (digest : Option String) (layers : List String) (size : UInt64) :
    (s.add id names digest layers size h).1 = .ok () ∧
      s.Furnished (id :: ids) (fun k => takers k ++ if k ∈ names then [id] else []) (s.add id names digest layers size h).2 := by
  obtain ⟨hready, f, hshows, hf, hgave, hknown⟩ := hfurnished
  have hparse : ∀ name ∈ names, ∃ r, Reference.parse name = .ok r := fun name hname => (hnames name hname).imp fun _ => And.left
  have hsame : ∀ name ∈ names, ∀ r, Reference.parse name = .ok r → r.canonicalName = name := by
    intro name hname r hr
    obtain ⟨r', hr', heq⟩ := hnames name hname
    rwa [Except.ok.inj (hr.symm.trans hr')]
  obtain ⟨hok, hready', g, now, hg, hadd⟩ := hready.add_ok hshows hf hfile hshort hparse digest layers size
  obtain ⟨hgave', hothers, tags, hm⟩ := Contents.gave_add hf.toTidy hf.sound hfile.toIsName hshort hsame hadd
  have hneat := hf.add hfile.toIsName names digest layers size now
  rw [hadd] at hneat
  refine ⟨hok, hready', g, hg, hneat, hgave.trans hgave', fun i hi => ?_⟩
  by_cases heq : i = id
  · exact iff_of_true ⟨_, heq ▸ hm⟩ (by simp [heq])
  · rw [Contents.known_iff_of_bare (hothers i heq), hknown i hi]
    simp [heq]

/-- An image that is there is named. -/
theorem tag (hfurnished : s.Furnished ids takers h) (hid : IsName id) (hmem : id ∈ ids) (r : Reference) :
    (s.tag id r h).1 = .ok () ∧
      s.Furnished ids (fun k => takers k ++ if k = r.canonicalName then [id] else []) (s.tag id r h).2 := by
  obtain ⟨hready, f, hshows, hf, hgave, hknown⟩ := hfurnished
  obtain ⟨g, hready', hg, hresult⟩ := (turns_tag hf.sound hid r).goes h hready hshows
  have hok := (congrArg Prod.fst hresult).trans (hf.tag_known hid ((hknown id hid).mpr hmem) r.canonicalName).1
  have htag : f.tag id r.canonicalName = (.ok (), g) := hresult.symm.trans (Prod.ext hok rfl)
  have hneat := hf.tag hid r.canonicalName
  rw [htag] at hneat
  obtain ⟨hgave', -, hbare⟩ := Contents.gave_tag hf.toTidy hf.sound hid htag
  exact ⟨hok, hready', g, hg, hneat, hgave.trans hgave', fun i hi => by rw [Contents.known_iff_of_bare (hbare i), hknown i hi]⟩

/-- The index has each name under the last image that it was given to. -/
theorem get?_tags (hfurnished : s.Furnished ids takers h) (k : String) :
    (s.indexOrEmpty h.disk).tags.get? k = (takers k).getLast? := by
  obtain ⟨-, f, hshows, -, hgave, -⟩ := hfurnished
  rw [hshows.indexOrEmpty, hgave.index]
  exact Option.or_none

/-- An image has the names that it was given last. -/
theorem named_iff {k : String} (hfurnished : s.Furnished ids takers h) (hid : IsName id) :
    (∃ m, s.metadata h.disk id = .ok m ∧ k ∈ m.repoTags) ↔ (takers k).getLast? = some id := by
  obtain ⟨-, f, hshows, -, hgave, -⟩ := hfurnished
  rw [hshows.metadata hid]
  exact (hgave.lists id k hid).trans (or_iff_left fun ⟨⟨_, hm, _⟩, _⟩ => nomatch hm)

theorem known_iff (hfurnished : s.Furnished ids takers h) (hid : IsName id) : (∃ m, s.metadata h.disk id = .ok m) ↔ id ∈ ids := by
  obtain ⟨-, f, hshows, -, -, hknown⟩ := hfurnished
  rw [hshows.metadata hid, hknown id hid]

end Furnished

theorem Fresh.furnished (hfresh : s.Fresh start) : s.Furnished [] (fun _ => []) start :=
  ⟨hfresh.ready, _, hfresh.isEmpty.shows, .none, .refl _, fun _ _ => iff_of_false (fun ⟨_, hm⟩ => nomatch hm) List.not_mem_nil⟩

/-! ### A store with three images -/

/-- An id that is one digit throughout. -/
def repeatedId (c : Char) : String := String.ofList (List.replicate 64 c)

theorem isImageId_repeatedId {c : Char} (hc : c ∈ "0123456789abcdef".toList) : IsImageId (repeatedId c) where
  length := by simp [repeatedId]
  digits d hd := by
    rw [repeatedId, String.toList_ofList] at hd
    rwa [List.eq_of_mem_replicate hd]

theorem repeatedId_ne {c d : Char} (hne : c ≠ d) : repeatedId c ≠ repeatedId d := by
  intro heq
  rw [repeatedId, repeatedId, String.ofList_inj, List.replicate_right_inj (by decide)] at heq
  exact hne heq

/-- One image is stored with two names, and another one without any; this gets one of the names, and a third one is stored
    without any. -/
def threeStored (s : Store) (h : Host) : Host :=
  let h₁ := (s.add (repeatedId 'a') ["docker.io/library/app:v1", "localhost:5000/app:v1"] none [] 0 h).2
  let h₂ := (s.add (repeatedId 'b') [] none [] 0 h₁).2
  let h₃ := (s.tag (repeatedId 'b') ⟨"docker.io", "library/app", some "v1", none⟩ h₂).2
  (s.add (repeatedId 'c') [] none [] 0 h₃).2

/-- None of these calls fails, so what they keep holds when they are done. The images are there then, and each name is with
    the image that it was given to last. -/
theorem Fresh.threeStored (hfresh : s.Fresh start) {P : Host → Prop} (hstart : P start)
    (hadd : ∀ id names h, IsImageId id → P h → (s.add id names none [] 0 h).1 = .ok () → P (s.add id names none [] 0 h).2)
    (htag : ∀ id h, IsImageId id → (∃ m, s.metadata h.disk id = .ok m) → P h →
      (s.tag id ⟨"docker.io", "library/app", some "v1", none⟩ h).1 = .ok () →
      P (s.tag id ⟨"docker.io", "library/app", some "v1", none⟩ h).2) :
    P (s.threeStored start) ∧
      (∀ id, IsName id → ((∃ m, s.metadata (s.threeStored start).disk id = .ok m) ↔ id ∈ ['c', 'b', 'a'].map repeatedId)) ∧
      ∀ k id, (s.indexOrEmpty (s.threeStored start).disk).tags.get? k = some id ↔
        k = "docker.io/library/app:v1" ∧ id = repeatedId 'b' ∨ k = "localhost:5000/app:v1" ∧ id = repeatedId 'a' := by
  have ha : IsImageId (repeatedId 'a') := isImageId_repeatedId (by decide)
  have hb : IsImageId (repeatedId 'b') := isImageId_repeatedId (by decide)
  have hc : IsImageId (repeatedId 'c') := isImageId_repeatedId (by decide)
  have hnames : ∀ name ∈ ["docker.io/library/app:v1", "localhost:5000/app:v1"], IsCanonical name :=
    List.forall_mem_cons.mpr ⟨⟨_, rfl, rfl⟩, List.forall_mem_singleton.mpr ⟨_, rfl, rfl⟩⟩
  obtain ⟨hok₁, h₁⟩ := hfresh.furnished.add ha.isFileName ha.indexedId? hnames none [] 0
  obtain ⟨hok₂, h₂⟩ := h₁.add hb.isFileName hb.indexedId? (List.forall_mem_nil _) none [] 0
  have hknown := (h₂.known_iff hb.isName).mpr List.mem_cons_self
  obtain ⟨hok₃, h₃⟩ := h₂.tag hb.isName List.mem_cons_self ⟨"docker.io", "library/app", some "v1", none⟩
  obtain ⟨hok₄, h₄⟩ := h₃.add hc.isFileName hc.indexedId? (List.forall_mem_nil _) none [] 0
  have hfirst := hadd _ _ start ha hstart hok₁
  have hsecond := hadd _ [] _ hb hfirst hok₂
  have hnamed := htag _ _ hb hknown hsecond hok₃
  unfold Store.threeStored
  dsimp only
  refine ⟨hadd _ [] _ hc hnamed hok₄, fun id hid => h₄.known_iff hid, fun k id => ?_⟩
  have hget := h₄.get?_tags k
  have hname : Reference.canonicalName ⟨"docker.io", "library/app", some "v1", none⟩ = "docker.io/library/app:v1" := rfl
  rw [hname] at hget
  refine (Eq.congr_left hget).trans ?_
  by_cases hk : k = "docker.io/library/app:v1"
  · simp [hk, eq_comm]
  · by_cases hport : k = "localhost:5000/app:v1" <;> simp [hk, hport, eq_comm]

/-! ### Every run -/

/-- After a run the index has under an image the names that are on its list. -/
theorem Kept.get?_tags_iff {id k : String} {i : Index} (hkept : Kept s start h) (hindex : s.index h.disk = .ok i) (hid : IsName id) :
    i.tags.get? k = some id ↔ ∃ m, s.metadata h.disk id = .ok m ∧ k ∈ m.repoTags := by
  obtain ⟨f, hshows, hagree, hf⟩ := hkept.shown
  obtain rfl := Except.ok.inj (hf.symm.trans hindex)
  rw [hshows.metadata hid, hagree.listed]
  exact and_iff_right hid

theorem unrefused_of_ok {result : Except Error Unit} (hok : result = .ok ()) (e : DiskError) : result ≠ .error (.disk e) :=
  fun he => nomatch hok.symm.trans he

theorem Reached.add {id : String} {names : List String} (hreached : s.Reached start h) (hid : IsImageId id)
    (hok : (s.add id names none [] 0 h).1 = .ok ()) : s.Reached start (s.add id names none [] 0 h).2 :=
  hreached.call (.add id names none [] 0) hid (unrefused_of_ok hok)

theorem Reached.tag {id : String} {r : Reference} (hreached : s.Reached start h) (hid : IsImageId id)
    (hknown : ∃ m, s.metadata h.disk id = .ok m) (hok : (s.tag id r h).1 = .ok ()) : s.Reached start (s.tag id r h).2 :=
  hreached.call (.tag id r) ⟨hid, hknown⟩ (unrefused_of_ok hok)

/-- After every run from an empty store the index has a name under an image exactly when the name is on the list of
    the image, no list has a name twice, and no two images have a name in common. -/
theorem index_agrees_with_images (hempty : s.IsEmpty start.disk) (hreached : s.Reached start h) :
    ∃ i, s.index h.disk = .ok i ∧
      (∀ k id, IsImageId id → (i.tags.get? k = some id ↔ ∃ m, s.metadata h.disk id = .ok m ∧ k ∈ m.repoTags)) ∧
      (∀ id m, IsImageId id → s.metadata h.disk id = .ok m → m.repoTags.Nodup) ∧
      ∀ k id₁ id₂ m₁ m₂, IsImageId id₁ → IsImageId id₂ → s.metadata h.disk id₁ = .ok m₁ →
        s.metadata h.disk id₂ = .ok m₂ → k ∈ m₁.repoTags → k ∈ m₂.repoTags → id₁ = id₂ := by
  obtain ⟨f, hshows, hagree, hindex⟩ := (hreached.kept hempty).shown
  have hlisted : ∀ k id, IsImageId id →
      (f.index.tags.get? k = some id ↔ ∃ m, s.metadata h.disk id = .ok m ∧ k ∈ m.repoTags) :=
    fun _ _ hid => (hreached.kept hempty).get?_tags_iff hindex hid.isName
  refine ⟨f.index, hindex, hlisted, fun id m hid hm => ?_, fun k id₁ id₂ m₁ m₂ h₁ h₂ hm₁ hm₂ hk₁ hk₂ => ?_⟩
  · rw [hshows.metadata hid.isName] at hm
    exact hagree.nodup id m hid.isName hm
  · have hk₁ := (hlisted k id₁ h₁).mpr ⟨m₁, hm₁, hk₁⟩
    have hk₂ := (hlisted k id₂ h₂).mpr ⟨m₂, hm₂, hk₂⟩
    exact Option.some.inj (hk₁.symm.trans hk₂)

end Runs

/-- Of three images one has a name with a port, one has the name that the first one had too, and one has none. -/
theorem index_agrees_with_moved_name :
    let s : Store := ⟨"/depot"⟩
    let h := s.threeStored s.madeAt
    s.IsEmpty s.madeAt.disk ∧ s.Reached s.madeAt h ∧ ∀ k,
      ((∃ m, s.metadata h.disk (repeatedId 'a') = .ok m ∧ k ∈ m.repoTags) ↔ k = "localhost:5000/app:v1") ∧
      ((∃ m, s.metadata h.disk (repeatedId 'b') = .ok m ∧ k ∈ m.repoTags) ↔ k = "docker.io/library/app:v1") ∧
      ¬∃ m, s.metadata h.disk (repeatedId 'c') = .ok m ∧ k ∈ m.repoTags := by
  intro s h
  obtain ⟨hreached, -, hheld⟩ := fresh_madeAt.threeStored (P := s.Reached s.madeAt) .start
    (fun _ _ _ hid hreached hok => hreached.add hid hok) fun _ _ hid hknown hreached hok => hreached.tag hid hknown hok
  obtain ⟨i, hindex, hlisted, -⟩ := index_agrees_with_images fresh_madeAt.isEmpty hreached
  rw [indexOrEmpty_of_ok hindex] at hheld
  have hba := repeatedId_ne (c := 'b') (d := 'a') (by decide)
  have hcb := repeatedId_ne (c := 'c') (d := 'b') (by decide)
  have hca := repeatedId_ne (c := 'c') (d := 'a') (by decide)
  refine ⟨fresh_madeAt.isEmpty, hreached, fun k => ?_⟩
  rw [← hlisted k _ (isImageId_repeatedId (by decide)), ← hlisted k _ (isImageId_repeatedId (by decide)),
    ← hlisted k _ (isImageId_repeatedId (by decide)), hheld, hheld, hheld]
  simp [hba, hba.symm, hcb, hca]

end Depot.Store
