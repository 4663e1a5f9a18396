import Depot.Listing
import Depot.Proofs.Store.Finding
import Mathlib.Data.List.TakeDrop

/-! Short ids as they are shown and as they are filed. The listing shows the first twelve characters of an id, and the index
    files an image under the first twelve bytes. Where a character lies across the twelfth byte there is nothing to file the
    image under, and storing it fails; else the image is found by what is shown of its id exactly if all of the id is shown,
    or if what is shown has one byte for each character. -/

namespace Depot.Store
variable {cs p : List Char} {limit : Nat} {s : Store} {start : Host} {d : Disk} {id text short : String}

/-! ### Bytes and characters -/

/-- The number of bytes of characters. -/
def width (cs : List Char) : Nat := (cs.map Char.utf8Size).sum

@[simp] theorem width_nil : width [] = 0 := rfl

@[simp] theorem width_cons (c : Char) (cs : List Char) : width (c :: cs) = c.utf8Size + width cs := List.sum_cons

theorem length_le_width (cs : List Char) : cs.length ≤ width cs := by
  induction cs with
  | nil => exact Nat.le_refl 0
  | cons c cs ih =>
    have := c.utf8Size_pos
    rw [List.length_cons, width_cons]
    omega

theorem width_eq_length_iff : width cs = cs.length ↔ ∀ c ∈ cs, c.utf8Size = 1 := by
  induction cs with
  | nil => simp
  | cons c cs ih =>
    have := c.utf8Size_pos
    have := length_le_width cs
    rw [width_cons, List.length_cons, List.forall_mem_cons, ← ih]
    omega

/-- A character lies across the end of the first `limit` bytes. -/
def Divides (limit : Nat) (cs : List Char) : Prop :=
  ∃ front c back, cs = front ++ c :: back ∧ width front < limit ∧ limit < width front + c.utf8Size

theorem bytesBefore?_eq_none_iff : bytesBefore? limit cs = none ↔ Divides limit cs := by
  induction cs generalizing limit with
  | nil => simp [bytesBefore?, Divides]
  | cons c cs ih =>
    have hpos := c.utf8Size_pos
    unfold bytesBefore?
    split
    · next hzero => simp [Divides, hzero]
    · next hlimit =>
      split
      · next hfits =>
        -- The first character fits, so the one that lies across the end is a later one.
        rw [Option.map_eq_none_iff, ih]
        constructor
        · rintro ⟨front, x, back, rfl, hbefore, hacross⟩
          refine ⟨c :: front, x, back, rfl, ?_, ?_⟩ <;> rw [width_cons] <;> omega
        · rintro ⟨front, x, back, heq, hbefore, hacross⟩
          cases front with
          | nil =>
            obtain ⟨rfl, -⟩ := List.cons.inj heq
            rw [width_nil] at hacross
            omega
          | cons c' front =>
            obtain ⟨rfl, rfl⟩ := List.cons.inj heq
            rw [width_cons] at hbefore hacross
            exact ⟨front, x, back, rfl, by omega, by omega⟩
      · next hacross =>
        refine iff_of_true rfl ⟨[], c, cs, rfl, ?_, ?_⟩ <;> rw [width_nil] <;> omega

/-- The first bytes are as many as they are to be, or all that there are. -/
theorem bytesBefore?_eq_some (h : bytesBefore? limit cs = some p) : p = cs ∨ width p = limit := by
  induction cs generalizing limit p with
  | nil =>
    cases h
    exact Or.inl rfl
  | cons c cs ih =>
    unfold bytesBefore? at h
    split at h
    · next hzero =>
      cases h
      exact Or.inr hzero.symm
    · split at h
      · next hfits =>
        obtain ⟨q, hq, rfl⟩ := Option.map_eq_some_iff.mp h
        refine (ih hq).imp (congrArg _) fun hwidth => ?_
        rw [width_cons, hwidth]
        omega
      · cases h

/-! ### Finding the one image of a store -/

/-- Where there is one image and no name, a text denotes the image if it is its short id or its id, and else what it is the
    id of. -/
theorem find_filed {m : Metadata} (hshows : s.Shows d (Contents.filed (fun _ => none) m short)) (text : String) :
    (text = short ∨ text = m.id → s.find d text = some m.id) ∧
      (¬(text = short ∨ text = m.id) → s.find d text = (s.findById d text).map Prod.fst) := by
  obtain ⟨x, hx⟩ := Contents.indexed_setIndex (Contents.setMetadata (fun _ => none) m) ⟨.empty, Dictionary.empty.insert short m.id⟩
  have hindex : s.index d = .ok ⟨.empty, Dictionary.empty.insert short m.id⟩ :=
    (hshows.index hx).trans (congrArg Except.ok Contents.index_filed)
  have hnone : (canonicalName? text).bind (fun name => ((Dictionary.empty.get? name).map fun id => (id, name))) = none := by
    cases canonicalName? text <;> rfl
  have hvalues : text ∈ (Dictionary.empty.insert short m.id).values ↔ text = m.id := List.mem_singleton
  -- The index is asked for a name, then for a short id, then for an id; the folders come last.
  unfold find resolve findInIndex
  rw [hindex]
  dsimp only
  rw [Dictionary.get?_empty, hnone, Dictionary.get?_insert, Dictionary.get?_empty]
  by_cases hshort : text = short
  · rw [if_pos hshort]
    exact ⟨fun _ => rfl, fun hnot => absurd (Or.inl hshort) hnot⟩
  · rw [if_neg hshort]
    by_cases hid : text = m.id
    · rw [if_pos (hvalues.mpr hid)]
      exact ⟨fun _ => congrArg some hid, fun hnot => absurd (Or.inr hid) hnot⟩
    · rw [if_neg (mt hvalues.mp hid)]
      exact ⟨fun h => absurd h (not_or.mpr ⟨hshort, hid⟩), fun _ => rfl⟩

theorem length_bareId (text : String) :
    (bareId text).toList.length = text.toList.length ∨ (bareId text).toList.length + 7 = text.toList.length := by
  unfold bareId Digest.encoded
  cases hafter : Text.after? Digest.algorithm.toList text.toList with
  | none => exact Or.inl rfl
  | some rest =>
    right
    rw [Text.after?_eq_some_iff.mp hafter, String.toList_ofList, List.length_append, Nat.add_comm]
    rfl

/-- Twelve characters are the id of no image whose id has more. -/
theorem findById_shown {h : Host} {m : Metadata} (hready : s.Ready h)
    (hshows : s.Shows h.disk (Contents.filed (fun _ => none) m short)) (hlong : 12 < m.id.toList.length)
    (htext : text.toList.length = 12) : s.findById h.disk text = none := by
  have hlength := length_bareId text
  refine if_neg ?_
  rintro ⟨hne, hslash, hexists⟩
  -- Twelve characters, or five behind an algorithm, are too many for the dots and too few for the id.
  have hname : IsName (bareId text) := by
    refine ⟨fun hnil => ?_, hslash, fun hdot => ?_, fun hdots => ?_⟩
    · rw [hnil, htext] at hlength
      simp at hlength
    · rw [hdot, htext] at hlength
      simp at hlength
    · rw [hdots, htext] at hlength
      simp at hlength
  have hthere := hready.exists?_iff hshows (i := .metadata (bareId text)) hname
  have hother : bareId text ≠ m.id := by
    intro heq
    rw [heq] at hlength
    omega
  rw [show h.disk.exists? (s.file (.metadata (bareId text))) = true from hexists] at hthere
  have hnone : Contents.filed (fun _ => none) m short (.metadata (bareId text)) = none := by
    unfold Contents.filed Contents.setIndex Contents.setMetadata
    rw [Contents.put_of_ne (by simp), Contents.put_of_ne (by simpa using hother)]
  rw [hnone] at hthere
  cases hthere

/-! ### What is shown -/

theorem toList_shown (id : String) : (Listing.shortId id false).toList = id.toList.take 12 := String.toList_ofList

/-- What is shown of an id is what it is filed under or the id itself, exactly if all of it is shown or what is shown has
    one byte for each character. -/
theorem shown_iff (hshort : indexedId? id = some short) : Listing.shortId id false = short ∨ Listing.shortId id false = id ↔
    id.toList.length ≤ 12 ∨ ∀ c ∈ id.toList.take 12, c.utf8Size = 1 := by
  obtain ⟨p, hp, rfl⟩ := Option.map_eq_some_iff.mp hshort
  rw [← String.toList_inj, ← String.toList_inj, toList_shown, String.toList_ofList, List.take_eq_self_iff]
  constructor
  · rintro (rfl | hwhole)
    · by_cases hlength : id.toList.length ≤ 12
      · exact Or.inl hlength
      · -- Twelve characters with twelve bytes have one each.
        right
        have htaken : (id.toList.take 12).length = 12 := List.length_take_of_le (by omega)
        rw [← width_eq_length_iff, htaken]
        refine (bytesBefore?_eq_some hp).resolve_left fun hall => ?_
        rw [hall] at htaken
        omega
    · exact Or.inl hwhole
  · rintro (hwhole | hsingle)
    · exact Or.inr hwhole
    · exact Or.inl (Option.some.inj ((bytesBefore?_of_single hsingle).symm.trans hp))

/-- An image is not stored where its id has no first twelve bytes of whole characters. -/
theorem Fresh.add_divided (hfresh : s.Fresh start) (hid : Disk.IsFileName id) (hdivided : bytesBefore? 12 id.toList = none)
    (digest : Option String) (layers : List String) (size : UInt64) :
    (s.add id [] digest layers size start).1 = .error (.dividedCharacter id) := by
  obtain ⟨f, -, -, now, hresult⟩ := (turns_add agree_none.sound hid [] digest layers size).goes start
    hfresh.ready hfresh.isEmpty.shows
  unfold Contents.add indexedId? at hresult
  rw [hdivided] at hresult
  exact congrArg Prod.fst hresult

/-- An image is stored in an empty store and looked up by what the listing shows of its id. If a character of the id lies
    across the twelfth byte, storing it fails. If not, it is stored, and it is found exactly if all of the id is shown, or if
    what is shown has one byte for each character. -/
theorem find_shown (hfresh : s.Fresh start) (hid : Disk.IsFileName id) (digest : Option String) (layers : List String)
    (size : UInt64) :
    (Divides 12 id.toList → (s.add id [] digest layers size start).1 = .error (.dividedCharacter id)) ∧
    (¬Divides 12 id.toList → ∃ h', s.add id [] digest layers size start = (.ok (), h') ∧
      ((id.toList.length ≤ 12 ∨ ∀ c ∈ id.toList.take 12, c.utf8Size = 1) →
        s.find h'.disk (Listing.shortId id false) = some id) ∧
      (¬(id.toList.length ≤ 12 ∨ ∀ c ∈ id.toList.take 12, c.utf8Size = 1) →
        s.find h'.disk (Listing.shortId id false) = none)) := by
  rw [← bytesBefore?_eq_none_iff]
  constructor
  · exact fun hdivided => hfresh.add_divided hid hdivided digest layers size
  · intro hwhole
    obtain ⟨p, hp⟩ := Option.ne_none_iff_exists'.mp hwhole
    have hshort : indexedId? id = some (String.ofList p) := congrArg (Option.map String.ofList) hp
    obtain ⟨now, hok, hready, hshows⟩ := hfresh.shows_add hid hshort digest layers size
    obtain ⟨hfound, hunknown⟩ := find_filed hshows (Listing.shortId id false)
    rw [← shown_iff hshort]
    refine ⟨_, Prod.ext hok rfl, hfound, fun hshown => (hunknown hshown).trans ?_⟩
    have hlong : 12 < id.toList.length := Nat.not_le.mp fun hle => hshown ((shown_iff hshort).mpr (Or.inl hle))
    have hlength : (Listing.shortId id false).toList.length = 12 := by
      rw [toList_shown]
      exact List.length_take_of_le (by omega)
    rw [findById_shown hready hshows hlong hlength]
    rfl

/-- An id that begins with twelve characters of one byte is found by them; one in which the first character has two bytes,
    and none lies across the twelfth, is not found by its first twelve characters. -/
theorem find_shown_plain : let s : Store := ⟨"/depot"⟩
    s.Fresh s.madeAt ∧
      (Disk.IsFileName "0123456789abcdé" ∧ ∃ h', s.add "0123456789abcdé" [] none [] 0 s.madeAt = (.ok (), h') ∧
        s.find h'.disk "0123456789ab" = some "0123456789abcdé") ∧
      (Disk.IsFileName "é0123456789abcd" ∧ ∃ h', s.add "é0123456789abcd" [] none [] 0 s.madeAt = (.ok (), h') ∧
        s.find h'.disk "é0123456789a" = none) := by
  intro s
  have hplain : Disk.IsFileName "0123456789abcdé" := by decide
  have hfirst : Disk.IsFileName "é0123456789abcd" := by decide
  have hwhole : ∀ id ∈ ["0123456789abcdé", "é0123456789abcd"], ¬Divides 12 id.toList := by
    simp only [← bytesBefore?_eq_none_iff]
    decide
  have hnarrow : ("0123456789abcdé".toList.take 12).all (·.utf8Size = 1) = true := by decide
  have hwide : ¬("é0123456789abcd".toList.length ≤ 12 ∨ ∀ c ∈ "é0123456789abcd".toList.take 12, c.utf8Size = 1) := by
    rintro (hlength | hsizes)
    · exact absurd hlength (by decide)
    · exact absurd (hsizes 'é' (by decide)) (by decide)
  obtain ⟨h₁, hstored₁, hfound, -⟩ := (find_shown fresh_madeAt hplain none [] 0).2 (hwhole _ (by simp))
  obtain ⟨h₂, hstored₂, -, hunknown⟩ := (find_shown fresh_madeAt hfirst none [] 0).2 (hwhole _ (by simp))
  exact ⟨fresh_madeAt, ⟨hplain, h₁, hstored₁, hfound (Or.inr (by simpa using hnarrow))⟩, hfirst, h₂, hstored₂, hunknown hwide⟩

/-- An image cannot be stored under an id of fifteen characters of which all but the first have two bytes. -/
theorem add_divided_fails : let s : Store := ⟨"/depot"⟩
    s.Fresh s.madeAt ∧ Disk.IsFileName "aéééééééééééééé" ∧ Listing.shortId "aéééééééééééééé" false = "aééééééééééé" ∧
      (s.add "aéééééééééééééé" [] none [] 0 s.madeAt).1 = .error (.dividedCharacter "aéééééééééééééé") := by
  have hid : Disk.IsFileName "aéééééééééééééé" := by decide
  exact ⟨fresh_madeAt, hid, by decide, fresh_madeAt.add_divided hid (by decide) none [] 0⟩

end Depot.Store
