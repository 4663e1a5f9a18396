import Depot.Proofs.Store.Agreement

/-! Names that are given in turn. Each goes to the last image that it is given to, and the images that had it before, in the
    index or by being given it earlier, have it no longer. Nothing else of what is known of images changes. This holds
    whether index and images agreed before or not. -/

namespace Depot.Store.Contents
variable {f f' g g' : Contents} {takers takers' : String → List String} {id i k name : String} {m : Metadata}

/-- What is known of an image besides its names. -/
def bare (f : Contents) (id : String) : Except Error Metadata := (f.metadata id).map fun m => { m with repoTags := [] }

theorem bare_of_ok (hm : f.metadata id = .ok m) : f.bare id = .ok { m with repoTags := [] } := by
  unfold bare
  rw [hm]
  rfl

theorem exists_of_bare (h : f.bare id = .ok { m with repoTags := [] }) : ∃ tags, f.metadata id = .ok { m with repoTags := tags } := by
  unfold bare at h
  cases hm : f.metadata id with
  | error e =>
    rw [hm] at h
    cases h
  | ok n =>
    rw [hm] at h
    refine ⟨n.repoTags, congrArg Except.ok ?_⟩
    have hsame : ({ n with repoTags := [] } : Metadata) = { m with repoTags := [] } := Except.ok.inj h
    obtain ⟨hid, -, hdigest, hcreated, hsize, hlayers⟩ := Metadata.mk.inj hsame
    rw [← hid, ← hdigest, ← hcreated, ← hsize, ← hlayers]

theorem known_iff_of_bare (h : g.bare id = f.bare id) : (∃ m, g.metadata id = .ok m) ↔ ∃ m, f.metadata id = .ok m := by
  constructor
  · rintro ⟨m, hm⟩
    exact ⟨_, (exists_of_bare (h.symm.trans (bare_of_ok hm))).choose_spec⟩
  · rintro ⟨m, hm⟩
    exact ⟨_, (exists_of_bare (h.trans (bare_of_ok hm))).choose_spec⟩

theorem bare_setIndex {x : Index} : (f.setIndex x).bare id = f.bare id := by
  unfold bare
  rw [metadata_setIndex]

theorem bare_setMetadata (hm : f.metadata m.id = .ok m) (tags : List String) (i : String) :
    (f.setMetadata { m with repoTags := tags }).bare i = f.bare i := by
  by_cases hi : i = m.id
  · subst hi
    have hset : (f.setMetadata { m with repoTags := tags }).metadata m.id = .ok { m with repoTags := tags } :=
      metadata_of_some (put_self ..)
    rw [bare_of_ok hm, bare_of_ok hset]
  · unfold bare
    rw [metadata_setMetadata, if_neg hi]

theorem bare_vacate (h : f.Tidy) (hs : f.Sound) (id name i : String) : (f.vacate id name).bare i = f.bare i := by
  rcases vacate_cases f id name with hsame | ⟨holder, hholder, -, hrelease⟩
  · rw [hsame]
  · rw [hrelease]
    unfold Contents.release
    split
    · rfl
    · next m hm =>
      obtain rfl := h.named holder m (hs.holders _ _ hholder) hm
      exact bare_setMetadata hm _ i

/-- Names are given to images in turn, each to those that `takers` tells. -/
structure Gave (f : Contents) (takers : String → List String) (g : Contents) : Prop where
  index : ∀ k, g.index.tags.get? k = (takers k).getLast?.or (f.index.tags.get? k)
  lists : ∀ i k, IsName i → (g.Lists i k ↔ (takers k).getLast? = some i ∨
    f.Lists i k ∧ i ∉ takers k ∧ (takers k ≠ [] → f.index.tags.get? k ≠ some i))

namespace Gave

theorem refl (f : Contents) : f.Gave (fun _ => []) f := ⟨fun _ => rfl, fun _ _ _ => by simp⟩

theorem trans (h : f.Gave takers g) (h' : g.Gave takers' f') : f.Gave (fun k => takers k ++ takers' k) f' where
  index k := by rw [h'.index, h.index, List.getLast?_append, Option.or_assoc]
  lists i k hi := by
    have hfirst := h.lists i k hi
    rw [h'.lists i k hi, hfirst, h.index k]
    -- What the second ones change of what the first ones did depends on whether there are any.
    rcases List.eq_nil_or_concat (takers' k) with hnone' | ⟨rest', j', hsome'⟩
    · simp [hnone']
    · rcases List.eq_nil_or_concat (takers k) with hnone | ⟨rest, j, hsome⟩
      · simp [hnone, hsome']
      · simp only [hsome, hsome', List.concat_eq_append, List.getLast?_append, List.getLast?_singleton, Option.some_or,
          Option.some.injEq, List.mem_append, List.mem_singleton, not_or, ne_eq, List.append_eq_nil_iff, List.cons_ne_nil,
          and_false, not_false_eq_true, forall_const]
        refine or_congr_right ⟨?_, ?_⟩
        · rintro ⟨rfl | ⟨hlists, hrest, hindex⟩, hrest', hne⟩
          · exact absurd rfl hne
          · exact ⟨hlists, ⟨hrest, hrest'⟩, hindex⟩
        · rintro ⟨hlists, ⟨hrest, hrest'⟩, hindex⟩
          exact ⟨Or.inr ⟨hlists, hrest, hindex⟩, hrest', fun heq => hrest.2 heq.symm⟩

/-- It does not matter how often in turn an image is given a name. -/
theorem congr (h : f.Gave takers g) (hlast : ∀ k, (takers' k).getLast? = (takers k).getLast?)
    (hmem : ∀ k i, i ∈ takers' k ↔ i ∈ takers k) : f.Gave takers' g where
  index k := by rw [h.index, hlast]
  lists i k hi := by
    have hnil : takers' k ≠ [] ↔ takers k ≠ [] := by
      rw [← List.getLast?_isSome, hlast, List.getLast?_isSome]
    rw [h.lists i k hi, hlast, hmem, hnil]

theorem alike (h : f.Gave takers g) (hf : f.Alike f') (hg : g.Alike g') : f'.Gave takers g' where
  index k := by rw [hf.index_eq, hg.index_eq, h.index]
  lists i k hi := by
    have hlists := h.lists i k hi
    unfold Lists at hlists ⊢
    rwa [hf.index_eq, hf.metadata_eq hi, hg.metadata_eq hi]

end Gave

theorem gave_tag (h : f.Tidy) (hs : f.Sound) (hid : IsName id) (hok : f.tag id name = (.ok (), g)) :
    f.Gave (fun k => if k = name then [id] else []) g ∧ g.Tidy ∧ ∀ i, g.bare i = f.bare i := by
  have htidy := h.vacate hs id name
  unfold Contents.tag at hok
  split at hok
  · cases hok
  · next m hm =>
    obtain rfl := (Prod.mk.inj hok).2
    refine ⟨⟨fun k => ?_, fun i k hi => ?_⟩, (htidy.claim hid hm name).setIndex _, fun i => ?_⟩
    · rw [index_setIndex, Dictionary.get?_insert]
      split <;> rfl
    · rw [lists_setIndex, lists_claim htidy hid hm, lists_vacate h hs]
      -- Only the lists with this name can be others: one has got it, and all others have lost it.
      by_cases hk : k = name
      · subst hk
        simp only [true_and, and_true, ↓reduceIte, List.getLast?_singleton, Option.some.injEq, List.mem_singleton, ne_eq,
          List.cons_ne_nil, not_false_eq_true, forall_const, not_and]
        constructor
        · rintro (⟨hlists, hkept⟩ | rfl)
          · by_cases heq : i = id
            · exact Or.inl heq.symm
            · exact Or.inr ⟨hlists, heq, hkept heq⟩
          · exact Or.inl rfl
        · rintro (rfl | ⟨hlists, -, hkept⟩)
          · exact Or.inr rfl
          · exact Or.inl ⟨hlists, fun _ => hkept⟩
      · simp [hk]
    · rw [bare_setIndex, ← bare_vacate h hs id name]
      obtain rfl := htidy.named id m hid hm
      unfold Contents.claim
      split
      · rfl
      · exact bare_setMetadata hm _ i

theorem gave_tagAll {names : List String} (h : f.Tidy) (hs : f.Sound) (hid : IsName id)
    (hnames : ∀ name ∈ names, ∀ r, Reference.parse name = .ok r → r.canonicalName = name)
    (hok : f.tagAll id names = (.ok (), g)) :
    f.Gave (fun k => if k ∈ names then [id] else []) g ∧ ∀ i, g.bare i = f.bare i := by
  induction names generalizing f with
  | nil =>
    cases hok
    exact ⟨(Gave.refl g).congr (fun _ => rfl) fun _ _ => by simp, fun _ => rfl⟩
  | cons name names ih =>
    obtain ⟨hname, hrest⟩ := List.forall_mem_cons.mp hnames
    unfold Contents.tagAll at hok
    split at hok
    · cases hok
    · next r hparse =>
      rw [hname r hparse] at hok
      have hsound := hs.tag hid name
      split at hok
      · cases hok
      · next f' htag =>
        rw [htag] at hsound
        obtain ⟨hgave, htidy, hbare⟩ := gave_tag h hs hid htag
        obtain ⟨hgave', hbare'⟩ := ih htidy hsound hrest hok
        refine ⟨(hgave.trans hgave').congr (fun k => ?_) fun k i => ?_, fun i => (hbare' i).trans (hbare i)⟩
        all_goals
          by_cases hk : k = name
          · subst hk
            by_cases hmem : k ∈ names <;> simp [hmem]
          · simp [hk]

theorem gave_add {names layers : List String} {digest : Option String} {size : UInt64} {now : Instant} {short : String}
    (h : f.Tidy) (hs : f.Sound) (hid : IsName id) (hshort : indexedId? id = some short)
    (hnames : ∀ name ∈ names, ∀ r, Reference.parse name = .ok r → r.canonicalName = name)
    (hok : f.add id names digest layers size now = (.ok (), g)) :
    f.Gave (fun k => if k ∈ names then [id] else []) g ∧ (∀ i, i ≠ id → g.bare i = f.bare i) ∧
      ∃ tags, g.metadata id = .ok { f.described id digest layers size now with repoTags := tags } := by
  unfold Contents.add at hok
  rw [hshort] at hok
  have hfiled : f.Gave (fun _ => []) (f.filed (f.described id digest layers size now) short) := by
    refine ⟨fun k => ?_, fun i k _ => ?_⟩
    · rw [index_filed]
      rfl
    · rw [lists_filed]
      simp
  obtain ⟨hgave, hbare⟩ := gave_tagAll (h.filed hid digest layers size now short) (hs.filed _ short) hid hnames hok
  refine ⟨hfiled.trans hgave, fun i hi => ?_, exists_of_bare ?_⟩
  · rw [hbare]
    unfold bare
    rw [metadata_filed]
    exact congrArg _ (if_neg hi)
  · rw [hbare]
    exact bare_of_ok metadata_filed_self

/-! ### Contents in which names can be given -/

/-- What is known of images bears their ids, no list has a name twice, and the holders of names are names of files. -/
structure Neat (f : Contents) : Prop extends Tidy f where
  holders : ∀ k id, f.index.tags.get? k = some id → IsName id

namespace Neat

theorem sound (h : f.Neat) : f.Sound := ⟨h.named, h.holders⟩

theorem none : Neat fun _ => none := ⟨agree_none.toTidy, agree_none.sound.holders⟩

theorem alike (h : f.Neat) (hsame : f.Alike g) : g.Neat where
  toTidy := h.toTidy.congr fun _ hid => hsame.metadata_eq hid
  holders k id hk := h.holders k id (hsame.index_eq ▸ hk)

theorem filed (h : f.Neat) (hid : IsName id) (digest : Option String) (layers : List String) (size : UInt64) (now : Instant)
    (short : String) : (f.filed (f.described id digest layers size now) short).Neat :=
  ⟨h.toTidy.filed hid digest layers size now short, (h.sound.filed _ short).holders⟩

theorem tag (h : f.Neat) (hid : IsName id) (name : String) : (f.tag id name).2.Neat := by
  refine ⟨?_, (h.sound.tag hid name).holders⟩
  have htidy := h.toTidy.vacate h.sound id name
  unfold Contents.tag
  split
  · exact htidy
  · next m hm => exact (htidy.claim hid hm name).setIndex _

/-- An image that is known can be named. -/
theorem tag_known (h : f.Neat) (hid : IsName id) (hm : ∃ m, f.metadata id = .ok m) (name : String) :
    (f.tag id name).1 = .ok () ∧ ∃ m, (f.tag id name).2.metadata id = .ok m := by
  obtain ⟨m, hm⟩ := hm
  have hm' := (metadata_vacate h.toTidy h.sound id name).trans hm
  obtain ⟨m', hclaim⟩ := metadata_claim (h.toTidy.vacate h.sound id name) hid hm' name
  unfold Contents.tag
  rw [hm']
  exact ⟨rfl, m', metadata_setIndex.trans hclaim⟩

theorem untag (h : f.Neat) (name : String) : (f.untag name).2.Neat := by
  unfold Contents.untag
  split
  · exact h
  · next id hholder =>
    split
    · exact h
    · refine ⟨(h.toTidy.release (h.holders _ _ hholder) name).setIndex _, fun k i hk => ?_⟩
      rw [index_setIndex, Dictionary.get?_erase] at hk
      split at hk
      · cases hk
      · exact h.holders k i hk

theorem tagAll (h : f.Neat) (hid : IsName id) (names : List String) : (f.tagAll id names).2.Neat :=
  tagAll_induction (P := Neat) (fun _ name hg => hg.tag hid name) h names

theorem add (h : f.Neat) (hid : IsName id) (names : List String) (digest : Option String) (layers : List String)
    (size : UInt64) (now : Instant) : (f.add id names digest layers size now).2.Neat := by
  unfold Contents.add
  split
  · exact ⟨h.toTidy.setMetadata (h.nodup_described hid digest layers size now), h.holders⟩
  · exact (h.filed hid digest layers size now _).tagAll hid names

end Neat

/-- Either all of the names can be read and the result is `a`, or it is what is wrong with one of them. -/
def Reads {α : Type} (names : List String) (a : α) (result : Except Error α) : Prop :=
  (result = .ok a ∧ ∀ name ∈ names, ∃ r, Reference.parse name = .ok r) ∨
    ∃ name ∈ names, ∃ e, Reference.parse name = .error e ∧ result = .error (.reference e)

theorem Reads.of_error {α β : Type} {names names' : List String} {a : α} {b : β} {e : Error}
    (h : Reads names a (.error e)) (hsub : ∀ name ∈ names, name ∈ names') : Reads names' b (.error e) := by
  rcases h with ⟨⟨⟩, -⟩ | ⟨name, hname, e', he', ⟨⟩⟩
  exact Or.inr ⟨name, hsub name hname, e', he', rfl⟩

theorem Reads.of_ok {α : Type} {names : List String} {a b : α} (h : Reads names a (.ok b)) :
    b = a ∧ ∀ name ∈ names, ∃ r, Reference.parse name = .ok r := by
  rcases h with ⟨⟨⟩, hnames⟩ | ⟨_, _, _, _, ⟨⟩⟩
  exact ⟨rfl, hnames⟩

theorem Reads.eq_ok {α : Type} {names : List String} {a : α} {result : Except Error α} (h : Reads names a result)
    (hparse : ∀ name ∈ names, ∃ r, Reference.parse name = .ok r) : result = .ok a := by
  rcases h with ⟨hok, -⟩ | ⟨name, hname, e, he, -⟩
  · exact hok
  · obtain ⟨r, hr⟩ := hparse name hname
    exact nomatch hr.symm.trans he

/-- A known image gets all of its names, unless one of them cannot be read. -/
theorem Neat.reads_tagAll (h : f.Neat) (hid : IsName id) (hm : ∃ m, f.metadata id = .ok m) (names : List String) :
    Reads names () (f.tagAll id names).1 := by
  induction names generalizing f with
  | nil => exact Or.inl ⟨rfl, by simp⟩
  | cons name names ih =>
    unfold Contents.tagAll
    split
    · next e hparse => exact Or.inr ⟨name, List.mem_cons_self, e, hparse, rfl⟩
    · next r hparse =>
      have hneat := h.tag hid r.canonicalName
      obtain ⟨hok, hm'⟩ := h.tag_known hid hm r.canonicalName
      split
      · next heq =>
        rw [heq] at hok
        cases hok
      · next heq =>
        rw [heq] at hneat hm'
        rcases ih hneat hm' with ⟨hresult, hrest⟩ | ⟨other, hother, hfailed⟩
        · exact Or.inl ⟨hresult, List.forall_mem_cons.mpr ⟨⟨r, hparse⟩, hrest⟩⟩
        · exact Or.inr ⟨other, List.mem_cons_of_mem name hother, hfailed⟩

/-- An image is stored with all of its names, unless one of them cannot be read. -/
theorem Neat.reads_add {short : String} (h : f.Neat) (hid : IsName id) (hshort : indexedId? id = some short)
    (names : List String) (digest : Option String) (layers : List String) (size : UInt64) (now : Instant) :
    Reads names () (f.add id names digest layers size now).1 := by
  unfold Contents.add
  rw [hshort]
  exact (h.filed hid digest layers size now short).reads_tagAll hid ⟨_, metadata_filed_self⟩ names

end Depot.Store.Contents
