import Depot.Proofs.Reference.Canonical

/-! Deeds with names. A name is held by the image that it was given to last, unless it was taken away since, and an image
    holds its names in the order in which it came to hold them: to give a name to the image that holds it is to do
    nothing, and a name that goes elsewhere and comes back is the last. -/

namespace Depot

/-! ### Names and their tags -/

/-- The name and the tag that a reference stands for. -/
def Reference.asTagged (r : Reference) : Tagged := ⟨r.name, r.effectiveTag⟩

theorem Reference.render_asTagged (r : Reference) : r.asTagged.render = r.canonicalName := rfl

namespace Tagged

/-- The name and the tag of a reference that is short enough to be read again. -/
def Legible (t : Tagged) : Prop := ∃ r : Reference, r.IsGrammatical ∧ r.name.utf8ByteSize ≤ 255 ∧ r.asTagged = t

variable {t t' : Tagged} {ts : List Tagged}

/-- What can be read again is told apart by how it is written. -/
theorem Legible.render_inj (h : t.Legible) (h' : t'.Legible) (heq : t.render = t'.render) : t = t' := by
  obtain ⟨r, hr, hlength, rfl⟩ := h
  obtain ⟨r', hr', hlength', rfl⟩ := h'
  have hparse := hr.parse_canonicalName hlength
  rw [Reference.render_asTagged, Reference.render_asTagged] at heq
  rw [heq, hr'.parse_canonicalName hlength'] at hparse
  obtain ⟨hregistry, hrepository, htag, -⟩ := Reference.mk.inj (Except.ok.inj hparse)
  unfold Reference.asTagged Reference.name
  rw [hregistry, hrepository, Option.some.inj htag]

theorem map_render_filter (h : t.Legible) (hts : ∀ t ∈ ts, t.Legible) :
    (ts.map render).filter (· ≠ t.render) = (ts.filter (· ≠ t)).map render := by
  rw [List.filter_map]
  congr 1
  refine List.filter_congr fun t' hmem => ?_
  have hiff : t'.render = t.render ↔ t' = t := ⟨(hts t' hmem).render_inj h, congrArg render⟩
  simp [hiff]

/-- Names that can be read again are those of references. -/
theorem exists_references (hts : ∀ t ∈ ts, t.Legible) :
    ∃ rs : List Reference, (∀ r ∈ rs, r.IsGrammatical ∧ r.name.utf8ByteSize ≤ 255) ∧ rs.map Reference.asTagged = ts := by
  induction ts with
  | nil => exact ⟨[], by simp, rfl⟩
  | cons t ts ih =>
    obtain ⟨⟨r, hr, hlength, rfl⟩, hrest⟩ := List.forall_mem_cons.mp hts
    obtain ⟨rs, hrs, rfl⟩ := ih hrest
    exact ⟨r :: rs, List.forall_mem_cons.mpr ⟨⟨hr, hlength⟩, hrs⟩, rfl⟩

end Tagged

namespace Store

/-! ### Deeds -/

/-- A name is given to an image, or taken from the one that holds it. -/
structure Deed where
  name : Tagged
  holder : Option String

/-- What was done with names, the newest first. -/
abbrev Deeds := List Deed

namespace Deeds

/-- The image that a name was given to last, if it was not taken away since. -/
def holder? (es : Deeds) (t : Tagged) : Option String := (es.find? (·.name = t)).bind Deed.holder

/-- How much had been done when the name came to where it is now. Giving a name to its holder does not count. -/
def since : Deeds → Tagged → Nat
  | [], _ => 0
  | e :: es, t => if e.name = t ∧ e.holder ≠ holder? es t then es.length else since es t

/-- The names that an image holds, in the order in which it came to hold them. -/
structure Held (es : Deeds) (id : String) (ts : List Tagged) : Prop where
  mem : ∀ t, t ∈ ts ↔ es.holder? t = some id
  order : ts.Pairwise fun t t' => es.since t < es.since t'

variable {e : Deed} {es ds : Deeds} {t : Tagged} {id : String} {ts ts' : List Tagged}

theorem holder?_cons (e : Deed) (es : Deeds) (t : Tagged) :
    holder? (e :: es) t = if e.name = t then e.holder else holder? es t := by
  unfold holder?
  rw [List.find?_cons]
  by_cases h : e.name = t <;> simp [h]

theorem mem_of_holder? (h : es.holder? t = some id) : ∃ e ∈ es, e.name = t := by
  obtain ⟨e, hfind, -⟩ := Option.bind_eq_some_iff.mp h
  obtain ⟨hname, hmem⟩ := And.intro (List.find?_some hfind) (List.mem_of_find?_eq_some hfind)
  exact ⟨e, hmem, of_decide_eq_true hname⟩

theorem since_of_ne (h : e.name ≠ t) : since (e :: es) t = since es t := if_neg fun hboth => h hboth.1

theorem since_of_held (h : es.holder? e.name = e.holder) (t : Tagged) : since (e :: es) t = since es t := by
  refine if_neg ?_
  rintro ⟨rfl, hne⟩
  exact hne h.symm

theorem since_lt (h : es.holder? t ≠ none) : es.since t < es.length := by
  induction es with
  | nil => exact absurd rfl h
  | cons e es ih =>
    rw [holder?_cons] at h
    unfold since
    rw [List.length_cons]
    split
    · exact Nat.lt_succ_self _
    · next hsame =>
      refine Nat.lt_succ_of_lt (ih ?_)
      split at h
      · next hname =>
        rw [← Decidable.not_not.mp fun hne => hsame ⟨hname, hne⟩]
        exact h
      · exact h

/-- Names that are given to their holders, or taken from none, leave everything as it is. -/
theorem append_of_held (h : ∀ e ∈ ds, es.holder? e.name = e.holder) :
    holder? (ds ++ es) = holder? es ∧ since (ds ++ es) = since es := by
  induction ds with
  | nil => exact ⟨rfl, rfl⟩
  | cons d ds ih =>
    obtain ⟨hd, hds⟩ := List.forall_mem_cons.mp h
    obtain ⟨hholder, hsince⟩ := ih hds
    constructor <;> funext t <;> rw [List.cons_append]
    · rw [holder?_cons, hholder]
      split
      · next heq => rw [← heq, hd]
      · rfl
    · rw [since_of_held (by rw [hholder, hd]), hsince]

namespace Held

/-- There is one such list. -/
theorem unique (h : es.Held id ts) (h' : es.Held id ts') : ts = ts' := by
  have hnodup {ts : List Tagged} (h : es.Held id ts) : ts.Nodup := by
    refine h.order.imp ?_
    rintro t _ hlt rfl
    exact Nat.lt_irrefl _ hlt
  have hperm : ts.Perm ts' := (List.perm_ext_iff_of_nodup (hnodup h) (hnodup h')).mpr fun t => (h.mem t).trans (h'.mem t).symm
  exact hperm.eq_of_pairwise (fun a b _ _ hab hba => absurd hab (Nat.lt_asymm hba)) h.order h'.order

theorem congr (h : es.Held id ts) (hholder : ds.holder? = es.holder?) (hsince : ds.since = es.since) : ds.Held id ts := by
  refine ⟨?_, ?_⟩
  · rw [hholder]
    exact h.mem
  · rw [hsince]
    exact h.order

/-- An image that is given a name that it does not hold has this as its last. -/
theorem given (h : es.Held id ts) (hnew : es.holder? t ≠ some id) : Held (⟨t, some id⟩ :: es) id (ts ++ [t]) := by
  have hne : ∀ t' ∈ ts, t ≠ t' := by
    rintro _ hmem rfl
    exact hnew ((h.mem t).mp hmem)
  refine ⟨fun t' => ?_, ?_⟩
  · rw [holder?_cons, List.mem_append, List.mem_singleton, h.mem]
    split
    · next heq => simp [show t = t' from heq]
    · next heq => simp [Ne.symm (show t ≠ t' from heq)]
  · rw [List.pairwise_append]
    refine ⟨?_, List.pairwise_singleton _ _, fun t' hmem t'' ht'' => ?_⟩
    · refine h.order.imp_of_mem fun hmem hmem' hlt => ?_
      rwa [since_of_ne (hne _ hmem), since_of_ne (hne _ hmem')]
    · obtain rfl := List.mem_singleton.mp ht''
      have hnow : since (⟨t'', some id⟩ :: es) t'' = es.length := if_pos ⟨rfl, fun heq => hnew heq.symm⟩
      rw [since_of_ne (hne _ hmem), hnow]
      refine since_lt ?_
      rw [(h.mem t').mp hmem]
      simp

/-- A name that goes elsewhere leaves the other names of an image as they are. -/
theorem lost (h : es.Held id ts) (hother : e.holder ≠ some id) : Held (e :: es) id (ts.filter (· ≠ e.name)) := by
  refine ⟨fun t => ?_, ?_⟩
  · rw [holder?_cons, List.mem_filter, h.mem]
    split
    · next heq => simp [heq, hother]
    · next heq => simp [Ne.symm heq]
  · refine (h.order.filter _).imp_of_mem fun hmem hmem' hlt => ?_
    have hne {t : Tagged} (hmem : t ∈ ts.filter (· ≠ e.name)) : e.name ≠ t :=
      Ne.symm (of_decide_eq_true (List.mem_filter.mp hmem).2)
    rwa [since_of_ne (hne hmem), since_of_ne (hne hmem')]

/-- A name that goes elsewhere and comes back is the last. -/
theorem lost_given (h : es.Held id ts) (t : Tagged) {elsewhere : Option String} (hother : elsewhere ≠ some id) :
    Held (⟨t, some id⟩ :: ⟨t, elsewhere⟩ :: es) id (ts.filter (· ≠ t) ++ [t]) := by
  refine (h.lost (e := ⟨t, elsewhere⟩) hother).given ?_
  rw [holder?_cons, if_pos rfl]
  exact hother

end Held

theorem held_nil (id : String) : Held [] id [] := ⟨fun _ => iff_of_false (by simp) nofun, .nil⟩

end Deeds

end Store
end Depot
