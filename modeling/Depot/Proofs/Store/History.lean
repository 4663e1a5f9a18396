import Depot.Proofs.Store.Deeds
import Depot.Proofs.Store.Giving
import Depot.Proofs.Store.Reaching

/-! What was done with names, and what came of it. The names of images are told by the deeds of the calls that succeeded
    alone: a name finds the image that holds it, and an image lists the names that it holds, in the order in which it came
    to hold them. -/

namespace Depot

/-! ### What is known of images -/

/-- What is known of an image when a name is off its list. -/
def Metadata.without (m : Metadata) (name : String) : Metadata := { m with repoTags := m.repoTags.filter (· ≠ name) }

/-- What is known of an image when a name is on its list. -/
def Metadata.having (m : Metadata) (name : String) : Metadata :=
  if name ∈ m.repoTags then m else { m with repoTags := m.repoTags ++ [name] }

@[simp] theorem Metadata.created_having (m : Metadata) (name : String) : (m.having name).created = m.created := by
  unfold having
  split <;> rfl

namespace Store
namespace Contents
variable {f g : Contents} {id i name : String} {m : Metadata}

theorem map_without (h : ¬f.Lists i name) : (f.metadata i).map (·.without name) = f.metadata i := by
  cases hm : f.metadata i with
  | error e => rfl
  | ok m =>
    have hsame : m.repoTags.filter (· ≠ name) = m.repoTags :=
      List.filter_eq_self.mpr fun k hk => decide_eq_true fun heq => h (heq ▸ ⟨m, hm, hk⟩)
    show Except.ok { m with repoTags := m.repoTags.filter (· ≠ name) } = _
    rw [hsame]

theorem metadata_release (h : f.Agree) (hi : IsName i) (hholder : f.index.tags.get? name = some id) :
    (f.release id name).metadata i = (f.metadata i).map (·.without name) := by
  have hid := h.sound.holders _ _ hholder
  by_cases heq : i = id
  · subst heq
    unfold Contents.release
    cases hm : f.metadata i with
    | error e => exact hm
    | ok m =>
      obtain rfl := h.named i m hid hm
      dsimp only
      rw [metadata_setMetadata]
      exact if_pos rfl
  · rw [metadata_release_of_ne h.toTidy hid heq, map_without]
    exact fun hlists => heq (h.holder_unique hi hlists hholder)

theorem metadata_vacate_of_ne (h : f.Agree) (hi : IsName i) (hne : i ≠ id) :
    (f.vacate id name).metadata i = (f.metadata i).map (·.without name) := by
  unfold Contents.vacate
  split
  · next holder hholder =>
    split
    · exact metadata_release h hi hholder
    · next heq =>
      rw [map_without]
      exact fun hlists => hne ((h.holder_unique hi hlists hholder).trans (Decidable.not_not.mp heq))
  · next hnone =>
    rw [map_without]
    exact fun hlists => absurd ((h.listed name i).mpr ⟨hi, hlists⟩) (by simp [hnone])

theorem metadata_claim_eq (hm : f.metadata m.id = .ok m) (name i : String) :
    (f.claim m name).metadata i = if i = m.id then .ok (m.having name) else f.metadata i := by
  unfold Contents.claim Metadata.having
  split
  · split
    · next heq => rw [heq, hm]
    · rfl
  · rw [metadata_setMetadata]

/-- Giving a name puts it on the list of the image that it is given to and off all others. -/
theorem metadata_tag (h : f.Agree) (hid : IsName id) (hm : f.metadata id = .ok m) (hi : IsName i) (name : String) :
    (f.tag id name).2.metadata i = if i = id then .ok (m.having name) else (f.metadata i).map (·.without name) := by
  obtain rfl := h.named id m hid hm
  have hm' : (f.vacate m.id name).metadata m.id = .ok m := (metadata_vacate h.toTidy h.sound m.id name).trans hm
  unfold Contents.tag
  rw [hm', metadata_setIndex, metadata_claim_eq hm']
  split
  · rfl
  · next hne => exact metadata_vacate_of_ne h hi hne

theorem index_tag_ok (h : f.tag id name = (.ok (), g)) : g.index.tags = f.index.tags.insert name id := by
  unfold Contents.tag at h
  split at h
  · cases h
  · cases h
    rw [index_setIndex]

theorem known_of_tag (h : f.Agree) (hok : f.tag id name = (.ok (), g)) : ∃ m, f.metadata id = .ok m := by
  unfold Contents.tag at hok
  rw [metadata_vacate h.toTidy h.sound] at hok
  cases hm : f.metadata id with
  | error e =>
    rw [hm] at hok
    cases hok
  | ok m => exact ⟨m, rfl⟩

theorem untag_ok (h : f.Agree) (hok : f.untag name = (.ok (), g)) : g.index.tags = f.index.tags.erase name ∧
    (∃ id, f.index.tags.get? name = some id) ∧ ∀ i, IsName i → g.metadata i = (f.metadata i).map (·.without name) := by
  unfold Contents.untag at hok
  split at hok
  · cases hok
  · next id hholder =>
    split at hok
    · cases hok
    · cases hok
      refine ⟨by rw [index_setIndex], ⟨id, hholder⟩, fun i hi => ?_⟩
      rw [metadata_setIndex, metadata_release h hi hholder]

/-- What was known of images is known still, and so is the time at which each was first stored. -/
def Dated (f g : Contents) : Prop := ∀ i m, IsName i → f.metadata i = .ok m → ∃ m', g.metadata i = .ok m' ∧ m'.created = m.created

theorem Dated.trans {f' : Contents} (h : f.Dated g) (h' : g.Dated f') : f.Dated f' := by
  intro i m hi hm
  obtain ⟨m', hm', hcreated⟩ := h i m hi hm
  obtain ⟨m'', hm'', hcreated'⟩ := h' i m' hi hm'
  exact ⟨m'', hm'', hcreated'.trans hcreated⟩

end Contents

/-! ### What deeds tell -/

/-- The contents are told by deeds. -/
structure Tells (es : Deeds) (f : Contents) : Prop where
  agree : f.Agree
  legible : ∀ e ∈ es, e.name.Legible
  holders : ∀ t : Tagged, t.Legible → f.index.tags.get? t.render = es.holder? t
  lists : ∀ id m, IsName id → f.metadata id = .ok m → ∃ ts, es.Held id ts ∧ m.repoTags = ts.map Tagged.render

namespace Tells
variable {es : Deeds} {f g : Contents} {id : String} {t : Tagged} {ts : List Tagged} {m : Metadata}

theorem legible_of_holder (h : Tells es f) (hheld : es.holder? t = some id) : t.Legible := by
  obtain ⟨e, hmem, rfl⟩ := Deeds.mem_of_holder? hheld
  exact h.legible e hmem

theorem legible_of_held (h : Tells es f) (hts : es.Held id ts) : ∀ t ∈ ts, t.Legible :=
  fun t hmem => h.legible_of_holder ((hts.mem t).mp hmem)

theorem render_mem_iff (h : Tells es f) (ht : t.Legible) (hid : IsName id) (hm : f.metadata id = .ok m) :
    t.render ∈ m.repoTags ↔ es.holder? t = some id := by
  rw [← h.holders t ht, h.agree.listed, Contents.lists_of_ok hm]
  exact (and_iff_right hid).symm

/-- A name that comes to another holder, or to none, is off every other list. -/
theorem without {e : Deed} {i : String} {m : Metadata} (h : Tells es f) (he : e.name.Legible) (hi : IsName i)
    (hm : (f.metadata i).map (·.without e.name.render) = .ok m) (hother : e.holder ≠ some i) :
    ∃ ts, Deeds.Held (e :: es) i ts ∧ m.repoTags = ts.map Tagged.render := by
  cases hm' : f.metadata i with
  | error e =>
    rw [hm'] at hm
    cases hm
  | ok n =>
    rw [hm'] at hm
    cases hm
    obtain ⟨ts, hts, htags⟩ := h.lists i n hi hm'
    refine ⟨_, hts.lost hother, ?_⟩
    show n.repoTags.filter _ = _
    rw [htags, Tagged.map_render_filter he (h.legible_of_held hts)]

theorem dated_map {i : String} {m : Metadata} {name : String} (hm : f.metadata i = .ok m)
    (hg : g.metadata i = (f.metadata i).map (·.without name)) : ∃ m', g.metadata i = .ok m' ∧ m'.created = m.created := by
  rw [hm] at hg
  exact ⟨_, hg, rfl⟩

theorem tag (h : Tells es f) (ht : t.Legible) (hid : IsName id) (hok : f.tag id t.render = (.ok (), g)) :
    Tells (⟨t, some id⟩ :: es) g ∧ f.Dated g := by
  obtain ⟨m, hm⟩ := Contents.known_of_tag h.agree hok
  obtain ⟨g', hg', hagree, -⟩ := h.agree.tag hid hm t.render
  obtain rfl : g = g' := congrArg Prod.snd (hok.symm.trans hg')
  have hmetadata {i : String} (hi : IsName i) := Contents.metadata_tag h.agree hid hm hi t.render
  rw [hok] at hmetadata
  refine ⟨⟨hagree, List.forall_mem_cons.mpr ⟨ht, h.legible⟩, fun t' ht' => ?_, fun i n hi hn => ?_⟩, fun i n hi hn => ?_⟩
  · rw [Contents.index_tag_ok hok, Dictionary.get?_insert, Deeds.holder?_cons, h.holders t' ht']
    by_cases heq : t = t'
    · rw [if_pos (congrArg Tagged.render heq.symm), if_pos heq]
    · -- The index has texts for names. No two names that can be read again are written alike.
      rw [if_neg fun hrender => heq (ht.render_inj ht' hrender.symm), if_neg heq]
  · rw [hmetadata hi] at hn
    split at hn
    · next heq =>
      subst heq
      cases hn
      obtain ⟨ts, hts, htags⟩ := h.lists i m hi hm
      unfold Metadata.having
      split
      · next hmem =>
        -- The image holds the name, so nothing changes.
        have hheld := (h.render_mem_iff ht hi hm).mp hmem
        have hidle : ∀ e ∈ ([⟨t, some i⟩] : Deeds), es.holder? e.name = e.holder := List.forall_mem_singleton.mpr hheld
        obtain ⟨hholder, hsince⟩ := Deeds.append_of_held hidle
        exact ⟨ts, hts.congr hholder hsince, htags⟩
      · next hmem =>
        refine ⟨_, hts.given (mt (h.render_mem_iff ht hi hm).mpr hmem), ?_⟩
        rw [List.map_append, ← htags]
        rfl
    · next hne => exact h.without (e := ⟨t, some id⟩) ht hi hn fun heq => hne (Option.some.inj heq).symm
  · have hn' := hmetadata hi
    split at hn'
    · next heq =>
      subst heq
      rw [hm] at hn
      cases hn
      exact ⟨_, hn', Metadata.created_having ..⟩
    · exact dated_map hn hn'

theorem untag (h : Tells es f) (ht : t.Legible) (hok : f.untag t.render = (.ok (), g)) :
    Tells (⟨t, none⟩ :: es) g ∧ f.Dated g := by
  obtain ⟨hindex, -, hmetadata⟩ := Contents.untag_ok h.agree hok
  have hagree := h.agree.untag t.render
  rw [hok] at hagree
  refine ⟨⟨hagree, List.forall_mem_cons.mpr ⟨ht, h.legible⟩, fun t' ht' => ?_, fun i n hi hn => ?_⟩,
    fun i n hi hn => dated_map hn (hmetadata i hi)⟩
  · rw [hindex, Dictionary.get?_erase, Deeds.holder?_cons, h.holders t' ht']
    by_cases heq : t = t'
    · rw [if_pos (congrArg Tagged.render heq.symm), if_pos heq]
    · rw [if_neg fun hrender => heq (ht.render_inj ht' hrender.symm), if_neg heq]
  · rw [hmetadata i hi] at hn
    exact h.without (e := ⟨t, none⟩) ht hi hn (by simp)

/-- Storing an image, be it again, does nothing with names. -/
theorem filed (h : Tells es f) (hid : IsName id) (digest : Option String) (layers : List String) (size : UInt64)
    (now : Instant) (short : String) : Tells es (f.filed (f.described id digest layers size now) short) ∧
      f.Dated (f.filed (f.described id digest layers size now) short) := by
  have hmetadata (i : String) : (f.filed (f.described id digest layers size now) short).metadata i =
      if i = id then .ok (f.described id digest layers size now) else f.metadata i := Contents.metadata_filed
  refine ⟨⟨h.agree.filed hid digest layers size now short, h.legible, fun t ht => ?_, fun i n hi hn => ?_⟩, fun i n hi hn => ?_⟩
  · rw [Contents.index_filed]
    exact h.holders t ht
  · rw [hmetadata] at hn
    split at hn
    · next heq =>
      subst heq
      cases hn
      cases hm : f.metadata i with
      | error e =>
        -- Nothing is known of the image, so it is on the list of no name and holds none.
        refine ⟨[], ⟨fun t => iff_of_false (by simp) fun hheld => ?_, .nil⟩, ?_⟩
        · rw [← h.holders t (h.legible_of_holder hheld)] at hheld
          exact Contents.not_lists_of_error hm ((h.agree.listed _ _).mp hheld).2
        · show ((f.metadata i).toOption.map Metadata.repoTags).getD [] = _
          rw [hm]
          rfl
      | ok m =>
        obtain ⟨ts, hts, htags⟩ := h.lists i m hi hm
        refine ⟨ts, hts, ?_⟩
        show ((f.metadata i).toOption.map Metadata.repoTags).getD [] = _
        rw [hm]
        exact htags
    · exact h.lists i n hi hn
  · rw [hmetadata]
    split
    · next heq =>
      subst heq
      refine ⟨_, rfl, ?_⟩
      show ((f.metadata i).toOption.map Metadata.created).getD now = _
      rw [hn]
      rfl
    · exact ⟨n, hn, rfl⟩

end Tells

/-! ### The deeds of calls -/

/-- The references that texts are read as. -/
def readable (names : List String) : List Reference := names.filterMap fun name => (Reference.parse name).toOption

namespace Call

/-- What a call names or takes names of. -/
def references : Call → List Reference
  | add _ names .. => readable names
  | tag _ r => [r]
  | untag r => [r]

/-- The image that a call gives names to. -/
def holder : Call → Option String
  | add id .. => some id
  | tag id _ => some id
  | untag _ => none

/-- What a call does with names, if it succeeds. -/
def deeds (c : Call) : Deeds := (c.references.map fun r => ⟨r.asTagged, c.holder⟩).reverse

/-- The references of a call are read by the grammar, and their names are short enough to be read again. -/
def WellNamed (c : Call) : Prop := ∀ r ∈ c.references, (∃ text, Reference.parse text = .ok r) ∧ r.name.utf8ByteSize ≤ 255

end Call

/-- What was done with names. -/
def Past.deeds (past : Past) : Deeds := past.flatMap fun e => e.1.deeds

section Runs
variable {s : Store} {start h : Host} {past : Past} {f : Contents} {c : Call} {es : Deeds} {id : String} {r : Reference}

theorem legible_of_parse {text : String} (hparse : Reference.parse text = .ok r) (hlength : r.name.utf8ByteSize ≤ 255) :
    r.asTagged.Legible := ⟨r, Reference.isGrammatical_of_parse hparse, hlength, rfl⟩

theorem Tells.tagAll {names : List String} {g : Contents} (ht : Tells es f) (hid : IsName id)
    (hnames : ∀ r ∈ readable names, r.name.utf8ByteSize ≤ 255) (hok : f.tagAll id names = (.ok (), g)) :
    Tells (((readable names).map fun r => ⟨r.asTagged, some id⟩).reverse ++ es) g ∧ f.Dated g := by
  induction names generalizing f es with
  | nil =>
    cases hok
    exact ⟨ht, fun i m _ hm => ⟨m, hm, rfl⟩⟩
  | cons name names ih =>
    unfold Contents.tagAll at hok
    split at hok
    · cases hok
    · next r hparse =>
      have hreadable : readable (name :: names) = r :: readable names := by
        unfold readable
        rw [List.filterMap_cons, hparse]
        rfl
      rw [hreadable] at hnames ⊢
      obtain ⟨hlength, hrest⟩ := List.forall_mem_cons.mp hnames
      split at hok
      · cases hok
      · next f' htag =>
        obtain ⟨ht', hdated⟩ := ht.tag (legible_of_parse hparse hlength) hid htag
        obtain ⟨htells, hdated'⟩ := ih ht' hrest hok
        refine ⟨?_, hdated.trans hdated'⟩
        rwa [List.map_cons, List.reverse_cons, List.append_assoc]

theorem Tells.call (ht : Tells es f) (hh : s.Shows h.disk f) (hids : c.OfImages) (hnames : c.WellNamed)
    (hok : (c.run s h).1 = .ok ()) : ∃ g, s.Shows (c.run s h).2.disk g ∧ Tells (c.deeds ++ es) g ∧ f.Dated g := by
  cases c with
  | add id names digest layers size =>
    have hid : IsHexId id := hids
    dsimp only [Call.run] at hok ⊢
    obtain ⟨g, hg, now, hresult⟩ := add_unrefused ht.agree.sound hid.isName hh (by rw [hok]; exact nofun)
    unfold Contents.add at hresult
    rw [hok, hid.indexedId?] at hresult
    obtain ⟨htells, hdated⟩ := ht.filed hid.isName digest layers size now (String.ofList (id.toList.take 12))
    obtain ⟨htells', hdated'⟩ := htells.tagAll hid.isName (fun r hr => (hnames r hr).2) hresult.symm
    exact ⟨g, hg, htells', hdated.trans hdated'⟩
  | tag id r =>
    have hid : IsHexId id := hids
    dsimp only [Call.run] at hok ⊢
    obtain ⟨⟨text, hparse⟩, hlength⟩ := hnames r (List.mem_singleton_self r)
    obtain ⟨g, hg, hresult⟩ := (turns_tag ht.agree.sound hid.isName r).unrefused_of_ok hh hok
    exact ⟨g, hg, ht.tag (legible_of_parse hparse hlength) hid.isName hresult.symm⟩
  | untag r =>
    dsimp only [Call.run] at hok ⊢
    obtain ⟨⟨text, hparse⟩, hlength⟩ := hnames r (List.mem_singleton_self r)
    obtain ⟨g, hg, hresult⟩ := (turns_untag ht.agree.sound r).unrefused_of_ok hh hok
    exact ⟨g, hg, ht.untag (legible_of_parse hparse hlength) hresult.symm⟩

theorem Ran.tells (hvacant : s.Vacant start.disk) (hran : s.Ran start past h)
    (hcalls : ∀ e ∈ past, e.1.WellNamed ∧ e.2 = .ok ()) : ∃ f, s.Shows h.disk f ∧ Tells past.deeds f := by
  induction hran with
  | start =>
    exact ⟨_, hvacant.holds.shows, agree_none, fun _ h => (nomatch h), fun _ _ => rfl, fun _ _ _ h => (nomatch h)⟩
  | call c _ hids ih =>
    obtain ⟨⟨hnames, hok⟩, hrest⟩ := List.forall_mem_cons.mp hcalls
    obtain ⟨f, hh, htells⟩ := ih hrest
    obtain ⟨g, hg, htells', -⟩ := htells.call hh hids hnames hok
    exact ⟨g, hg, htells'⟩

/-! ### Finding by names -/

theorem slash_mem_bareId {text : String} (h : '/' ∈ text.toList) : '/' ∈ (bareId text).toList := by
  unfold bareId Digest.encoded
  split
  · next rest hafter =>
    rw [Text.after?_eq_some_iff.mp hafter, List.mem_append] at h
    rw [String.toList_ofList]
    exact h.resolve_left (by decide)
  · exact h

/-- Under a canonical name only the image is found that the index has for it. -/
theorem find_canonicalName {d : Disk} {i : Index} (hindex : s.index d = .ok i) (hr : r.IsGrammatical)
    (hlength : r.name.utf8ByteSize ≤ 255) (hshort : i.shortIds.get? r.canonicalName = none)
    (hvalues : r.canonicalName ∉ i.shortIds.values) : s.find d r.canonicalName = i.tags.get? r.canonicalName := by
  have hname : canonicalName? r.canonicalName = some r.canonicalName := by
    unfold canonicalName?
    rw [Reference.takeApart_of_parse (hr.parse_canonicalName hlength) fun _ => hr.slash_mem_canonicalName]
    rfl
  have hslash : '/' ∈ r.canonicalName.toList := by simp [Reference.canonicalName, Reference.name]
  unfold find resolve findInIndex
  rw [hindex]
  dsimp only
  cases hholder : i.tags.get? r.canonicalName with
  | some id => rfl
  | none =>
    dsimp only
    rw [hname, Option.bind_some, hholder]
    dsimp only [Option.map_none]
    rw [hshort]
    dsimp only
    rw [if_neg hvalues]
    unfold Store.findById
    dsimp only
    rw [if_neg fun h => h.2.1 (slash_mem_bareId hslash)]
    rfl

/-- After every run of calls that succeed, what is there is told by what they did with names. A canonical name finds the
    image that holds the name, and the names of each image are those that it holds, in the order in which it came to hold
    them. Whatever succeeds next changes no time at which an image was first stored, and names that are given to their
    holders change no list. A name that is moved to another image and back is last on the list. -/
theorem names_follow_deeds (hvacant : s.Vacant start.disk) (hran : s.Ran start past h)
    (hcalls : ∀ e ∈ past, e.1.WellNamed ∧ e.2 = .ok ()) :
    (∀ text r, Reference.parse text = .ok r → r.name.utf8ByteSize ≤ 255 →
      s.find h.disk r.canonicalName = past.deeds.holder? r.asTagged) ∧
    (∀ id, past.Stored id → IsHexId id ∧ ∃ m, s.metadata h.disk id = .ok m) ∧
    (∀ id m, IsHexId id → s.metadata h.disk id = .ok m →
      ∃ ts, (LocalImage.mk m s).taggedNames = .ok ts ∧ past.deeds.Held id ts) ∧
    (∀ c : Call, c.OfImages → c.WellNamed → (c.run s h).1 = .ok () → ∀ id m, IsHexId id → s.metadata h.disk id = .ok m →
      ∃ m', s.metadata (c.run s h).2.disk id = .ok m' ∧ m'.created = m.created ∧
        ((∀ e ∈ c.deeds, past.deeds.holder? e.name = e.holder) → m'.repoTags = m.repoTags)) ∧
    ∀ id id' r m, IsHexId id → IsHexId id' → id' ≠ id → Call.WellNamed (.tag id r) → s.metadata h.disk id = .ok m →
      (s.tag id' r h).1 = .ok () → (s.tag id r (s.tag id' r h).2).1 = .ok () →
      ∃ m', s.metadata (s.tag id r (s.tag id' r h).2).2.disk id = .ok m' ∧
        m'.repoTags = m.repoTags.filter (· ≠ r.canonicalName) ++ [r.canonicalName] := by
  obtain ⟨f, hh, hf, hremembers⟩ := hran.remembers hvacant
  obtain ⟨f', hshows, htells⟩ := hran.tells hvacant hcalls
  have hindex : f.index = f'.index := hh.shows.indexOrEmpty.symm.trans hshows.indexOrEmpty
  refine ⟨fun text r hparse hlength => ?_, fun id hstored => ?_, fun id m hid hm => ?_,
    fun c hids hnames hok id m hid hm => ?_, fun id id' r m hid hid' hne hnames hm hok hok' => ?_⟩
  · -- Short ids and image ids have no slash, so the name is taken for neither.
    have hslash : '/' ∈ r.canonicalName.toList := by simp [Reference.canonicalName, Reference.name]
    have hshort : f.index.shortIds.get? r.canonicalName = none :=
      hf.get?_shortIds fun hdigits => absurd (hdigits.2 '/' hslash) (by decide)
    have hvalues : r.canonicalName ∉ f.index.shortIds.values := by
      rw [Dictionary.mem_values_iff]
      rintro ⟨k, hk⟩
      exact absurd ((hf.shortIds k _ hk).2.1.digits '/' hslash) (by decide)
    rw [find_canonicalName (hh.index hf) (Reference.isGrammatical_of_parse hparse) hlength hshort hvalues, hindex,
      ← htells.holders _ (legible_of_parse hparse hlength), Reference.render_asTagged]
  · obtain ⟨hid, hknown⟩ := hremembers.stored id hstored
    exact ⟨hid, by rwa [hh.shows.metadata hid.isName]⟩
  · rw [hshows.metadata hid.isName] at hm
    obtain ⟨ts, hts, htags⟩ := htells.lists id m hid.isName hm
    obtain ⟨rs, hrs, rfl⟩ := Tagged.exists_references (htells.legible_of_held hts)
    refine ⟨_, LocalImage.taggedNames_of_canonical (htags.trans ?_) hrs, hts⟩
    rw [List.map_map]
    rfl
  · obtain ⟨g, hg, htells', hdated⟩ := htells.call hshows hids hnames hok
    rw [hshows.metadata hid.isName] at hm
    obtain ⟨m', hm', hcreated⟩ := hdated id m hid.isName hm
    obtain ⟨ts, hts, htags⟩ := htells.lists id m hid.isName hm
    obtain ⟨ts', hts', htags'⟩ := htells'.lists id m' hid.isName hm'
    refine ⟨m', (hg.metadata hid.isName).trans hm', hcreated, fun hidle => ?_⟩
    -- Both lists are the names that the image holds, and there is one order of these.
    obtain ⟨hholder, hsince⟩ := Deeds.append_of_held hidle
    rw [htags, htags', (hts.congr hholder hsince).unique hts']
  · obtain ⟨g, hg, htells', hdated⟩ := htells.call (c := .tag id' r) hshows hid' hnames hok
    obtain ⟨g', hg', htells'', hdated'⟩ := htells'.call (c := .tag id r) hg hid hnames hok'
    rw [hshows.metadata hid.isName] at hm
    obtain ⟨m', hm', -⟩ := hdated.trans hdated' id m hid.isName hm
    obtain ⟨ts, hts, htags⟩ := htells.lists id m hid.isName hm
    obtain ⟨ts', hts', htags'⟩ := htells''.lists id m' hid.isName hm'
    have ht : r.asTagged.Legible := by
      obtain ⟨⟨text, hparse⟩, hlength⟩ := hnames r (List.mem_singleton_self r)
      exact legible_of_parse hparse hlength
    have hmoved := hts.lost_given r.asTagged (fun heq => hne (Option.some.inj heq) : some id' ≠ some id)
    dsimp only [Call.run] at hg'
    refine ⟨m', (hg'.metadata hid.isName).trans hm', ?_⟩
    rw [htags', hts'.unique hmoved, htags, List.map_append, ← Tagged.map_render_filter ht (htells.legible_of_held hts)]
    rfl

/-! ### A store with room -/

theorem Ready.untag_tag_ok (hready : s.Ready h) (hh : s.Shows h.disk f) (hf : f.Agree) (hid : IsImageId id)
    (hholder : f.index.tags.get? r.canonicalName = some id) : (s.untag r h).1 = .ok () ∧
      (s.tag id r (s.untag r h).2).1 = .ok () := by
  obtain ⟨g, hready', hg, hresult⟩ := (turns_untag hf.sound r).goes h hready hh
  obtain ⟨-, m, hm, -⟩ := (hf.listed _ _).mp hholder
  have hagree := hf.untag r.canonicalName
  have huntag : ∃ g', f.untag r.canonicalName = (.ok (), g') := by
    unfold Contents.untag
    rw [hholder]
    dsimp only
    rw [hm]
    exact ⟨_, rfl⟩
  obtain ⟨g', hg'⟩ := huntag
  obtain ⟨hok, rfl⟩ := Prod.mk.inj (hresult.trans hg')
  rw [hg'] at hagree
  have hknown := (Contents.untag_ok hf hg').2.2 id hid.isName
  rw [hm] at hknown
  obtain ⟨g', -, -, hresult'⟩ := (turns_tag hagree.sound hid.isName r).goes _ hready' hg
  obtain ⟨g'', hg'', -⟩ := hagree.tag hid.isName hknown r.canonicalName
  exact ⟨hok, congrArg Prod.fst (hresult'.trans hg'')⟩

/-- An image is stored with two names, and the first of them is taken away and given back. -/
theorem Ready.ran_add_untag_tag {text₁ text₂ : String} {r₁ r₂ : Reference} (hready : s.Ready start)
    (hvacant : s.Vacant start.disk) (hid : IsImageId id) (h₁ : Reference.parse text₁ = .ok r₁) (h₂ : Reference.parse text₂ = .ok r₂)
    (hlength₁ : r₁.name.utf8ByteSize ≤ 255) (hlength₂ : r₂.name.utf8ByteSize ≤ 255) :
    ∃ past, s.Ran start past (s.tag id r₁ (s.untag r₁ (s.add id [text₁, text₂] none [] 0 start).2).2).2 ∧
      (∀ e ∈ past, e.1.WellNamed ∧ e.2 = .ok ()) ∧ past.Stored id ∧
      past.deeds = [⟨r₁.asTagged, some id⟩, ⟨r₁.asTagged, none⟩, ⟨r₂.asTagged, some id⟩, ⟨r₁.asTagged, some id⟩] := by
  have hreadable : readable [text₁, text₂] = [r₁, r₂] := by simp [readable, h₁, h₂, Except.toOption]
  have hnamed : Call.WellNamed (.add id [text₁, text₂] none [] 0) := by
    show ∀ r ∈ readable [text₁, text₂], _
    rw [hreadable]
    exact List.forall_mem_cons.mpr ⟨⟨⟨text₁, h₁⟩, hlength₁⟩, List.forall_mem_singleton.mpr ⟨⟨text₂, h₂⟩, hlength₂⟩⟩
  have hnamed₁ : ∀ r ∈ [r₁], (∃ text, Reference.parse text = .ok r) ∧ r.name.utf8ByteSize ≤ 255 :=
    List.forall_mem_singleton.mpr ⟨⟨text₁, h₁⟩, hlength₁⟩
  have hdeeds : Call.deeds (.add id [text₁, text₂] none [] 0) = [⟨r₂.asTagged, some id⟩, ⟨r₁.asTagged, some id⟩] := by
    show ((readable [text₁, text₂]).map _).reverse = _
    rw [hreadable]
    rfl
  have hparse : ∀ name ∈ [text₁, text₂], ∃ r, Reference.parse name = .ok r := by simp [h₁, h₂]
  obtain ⟨hadd, hready, -⟩ := hready.add_ok hvacant.holds.shows .none hid.isFileName hid.indexedId? hparse none [] 0
  have hran := Ran.call (.add id [text₁, text₂] none [] 0) (Ran.start : s.Ran start [] start) hid.isHexId
  dsimp only [Call.run] at hran
  rw [hadd] at hran
  have hcalls : ∀ e ∈ ([(.add id [text₁, text₂] none [] 0, .ok ())] : Past), e.1.WellNamed ∧ e.2 = .ok () :=
    List.forall_mem_singleton.mpr ⟨hnamed, rfl⟩
  obtain ⟨f, hh, htells⟩ := hran.tells hvacant hcalls
  have hholder : f.index.tags.get? r₁.canonicalName = some id := by
    refine (htells.holders _ (legible_of_parse h₁ hlength₁)).trans ?_
    show Deeds.holder? (Call.deeds _ ++ []) _ = _
    rw [hdeeds]
    simp [Deeds.holder?_cons]
  obtain ⟨huntag, htag⟩ := hready.untag_tag_ok hh htells.agree hid hholder
  have hran := (hran.call (.untag r₁) trivial).call (.tag id r₁) hid.isHexId
  dsimp only [Call.run] at hran
  rw [huntag, htag] at hran
  refine ⟨_, hran, ?_, ⟨_, List.mem_cons_of_mem _ (List.mem_cons_of_mem _ List.mem_cons_self), rfl, unrefused_ok⟩, ?_⟩
  · exact List.forall_mem_cons.mpr ⟨⟨hnamed₁, rfl⟩, List.forall_mem_cons.mpr ⟨⟨hnamed₁, rfl⟩, hcalls⟩⟩
  · show Call.deeds _ ++ (Call.deeds _ ++ (Call.deeds _ ++ [])) = _
    rw [hdeeds]
    rfl

end Runs

/-- A name that is taken from an image and given back is its last. -/
theorem names_follow_deeds_of_untag_tag :
    let s : Store := ⟨"/depot"⟩
    let id := Digest.hexOf []
    let r : Reference := ⟨"docker.io", "library/app", some "v1", none⟩
    let h := (s.tag id r (s.untag r (s.add id ["app:v1", "app:v2"] none [] 0 s.madeAt).2).2).2
    s.Vacant s.madeAt.disk ∧ (∃ past, s.Ran s.madeAt past h ∧ ∀ e ∈ past, e.1.WellNamed ∧ e.2 = .ok ()) ∧
      s.find h.disk "docker.io/library/app:v1" = some id ∧ ∃ m, s.metadata h.disk id = .ok m ∧
        (LocalImage.mk m s).taggedNames = .ok [⟨"docker.io/library/app", "v2"⟩, ⟨"docker.io/library/app", "v1"⟩] := by
  intro s id r
  have hid : IsImageId id := isImageId_hexOf []
  have hready : s.Ready s.madeAt := fresh_madeAt.ready
  have hvacant : s.Vacant s.madeAt.disk := vacant_madeAt
  have hparse : Reference.parse "app:v1" = .ok r := by rfl
  have hparse' : Reference.parse "app:v2" = .ok ⟨"docker.io", "library/app", some "v2", none⟩ := by rfl
  obtain ⟨past, hran, hcalls, hstored, hdeeds⟩ := hready.ran_add_untag_tag hvacant hid hparse hparse' (by decide) (by decide)
  obtain ⟨hfind, hknown, hnames, -⟩ := names_follow_deeds hvacant hran hcalls
  obtain ⟨-, m, hm⟩ := hknown id hstored
  obtain ⟨ts, htagged, hts⟩ := hnames id m hid.isHexId hm
  have hheld : past.deeds.Held id [⟨"docker.io/library/app", "v2"⟩, ⟨"docker.io/library/app", "v1"⟩] := by
    rw [hdeeds]
    have hfirst := (Deeds.held_nil id).given (t := r.asTagged) nofun
    have hboth := hfirst.given (t := ⟨"docker.io/library/app", "v2"⟩) (by simp [Deeds.holder?]; decide)
    exact hboth.lost_given r.asTagged nofun
  refine ⟨hvacant, ⟨past, hran, hcalls⟩, (hfind "app:v1" r hparse (by decide)).trans ?_, m, hm, ?_⟩
  · rw [hdeeds]
    rfl
  · rw [htagged, hts.unique hheld]

end Store
end Depot
