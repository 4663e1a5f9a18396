import Depot.Destination.Parser
import Depot.Proofs.Reference.Canonical

/-! Destinations that are read from text. What is shown of one is read as the same one again, whatever the default
    transport, because reading leaves nothing to be completed: the path of an archive has no colon, and a reference has
    the tag that it would be given. -/

namespace Depot

namespace Reference
variable {r : Reference}

theorem IsGrammatical.withDefaultTag (h : r.IsGrammatical) : r.withDefaultTag.IsGrammatical := by
  unfold Reference.withDefaultTag
  split
  · exact { h with tag := fun t ht => by cases ht; decide }
  · exact h

theorem withDefaultTag_withDefaultTag (r : Reference) : r.withDefaultTag.withDefaultTag = r.withDefaultTag := by
  unfold Reference.withDefaultTag
  split <;> simp_all

end Reference

namespace Transport
variable {t : Transport}

theorem name_injective {u : Transport} (h : t.name = u.name) : t = u := by
  have := named?_name t
  rw [h, named?_name] at this
  exact (Option.some.inj this).symm

theorem colon_notMem_name (t : Transport) : ':' ∉ t.name.toList := by
  cases t <;> decide

end Transport

namespace Destination
variable {d : Destination} {transports : List Transport} {text : String} {location : List Char} {t : Transport}

/-- The reference in a destination, if it has one. -/
def reference? : Destination → Option Reference
  | .registry r => some r
  | .archive _ r => r
  | .folder _ => none

/-- A destination of which nothing is left to be completed. -/
inductive Complete : Destination → Prop
  | registry {r : Reference} (hr : r.IsGrammatical) (htag : r.withDefaultTag = r) : Complete (.registry r)
  | archive {path : String} {reference : Option Reference} (hpath : path.toList ≠ []) (hcolon : ':' ∉ path.toList)
      (hreference : ∀ r ∈ reference, r.IsGrammatical ∧ r.digest = none ∧ r.tag = some r.effectiveTag) :
      Complete (.archive path reference)
  | folder {path : String} (hpath : path.toList ≠ []) : Complete (.folder path)

/-! ### Reading a location -/

theorem map_eq_ok_iff {α β ε : Type} {x : Except ε α} {f : α → β} {b : β} : x.map f = .ok b ↔ ∃ a, x = .ok a ∧ f a = b := by
  cases x <;> simp [Except.map]

theorem parsePath_eq_ok {path : List Char} {s : String} (h : parsePath path = .ok s) : path = s.toList ∧ s.toList ≠ [] := by
  unfold parsePath at h
  split at h
  · cases h
  · next hne =>
    cases h
    rw [String.toList_ofList]
    exact ⟨rfl, hne⟩

theorem parsePath_toList {s : String} (h : s.toList ≠ []) : parsePath s.toList = .ok s := by
  unfold parsePath
  rw [if_neg h, String.ofList_toList]

theorem archiveReference_eq_ok {reference : List Char} {r : Reference} (h : archiveReference location reference = .ok r) :
    ∃ named, Reference.parse (String.ofList reference) = .ok named ∧ named.digest = none ∧
      r = { named with tag := some named.effectiveTag } := by
  unfold archiveReference at h
  split at h
  · cases h
  · next named hnamed =>
    split at h
    · cases h
    · next hdigest =>
      cases h
      exact ⟨named, hnamed, Option.not_isSome_iff_eq_none.mp hdigest, rfl⟩

theorem complete_of_parseRegistry (h : parseRegistry location = .ok d) : d.transport = .docker ∧ d.Complete := by
  unfold parseRegistry at h
  split at h
  · cases h
  · obtain ⟨r, hr, rfl⟩ := map_eq_ok_iff.mp h
    exact ⟨rfl, .registry (Reference.isGrammatical_of_parse hr).withDefaultTag r.withDefaultTag_withDefaultTag⟩

theorem complete_of_parseArchive (h : parseArchive location = .ok d) : d.transport = .dockerArchive ∧ d.Complete := by
  unfold parseArchive at h
  split at h
  · next hcut =>
    obtain ⟨path, hpath, rfl⟩ := map_eq_ok_iff.mp h
    obtain ⟨rfl, hne⟩ := parsePath_eq_ok hpath
    exact ⟨rfl, .archive hne (Text.cutFirst_eq_none_iff.mp hcut) (by simp)⟩
  · next hcut =>
    obtain ⟨-, hcolon⟩ := Text.cutFirst_eq_some_iff.mp hcut
    split at h
    · cases h
    · next path hpath =>
      obtain ⟨rfl, hne⟩ := parsePath_eq_ok hpath
      obtain ⟨r, hr, rfl⟩ := map_eq_ok_iff.mp h
      obtain ⟨named, hnamed, hdigest, rfl⟩ := archiveReference_eq_ok hr
      refine ⟨rfl, .archive hne hcolon fun r hr => ?_⟩
      cases hr
      have hgrammatical := (Reference.isGrammatical_of_parse hnamed).withTag
      rw [← hdigest] at hgrammatical
      exact ⟨hgrammatical, hdigest, rfl⟩

theorem complete_of_parseLocation (h : parseLocation t location = .ok d) : d.transport = t ∧ d.Complete := by
  cases t with
  | docker => exact complete_of_parseRegistry h
  | dockerArchive => exact complete_of_parseArchive h
  | dir =>
    obtain ⟨path, hpath, rfl⟩ := map_eq_ok_iff.mp h
    obtain ⟨-, hne⟩ := parsePath_eq_ok hpath
    exact ⟨rfl, .folder hne⟩

/-- A destination that is read belongs to a known transport, and nothing of it is left to be completed. -/
theorem complete_of_parse (h : parse transports text = .ok d) : d.transport ∈ transports ∧ d.Complete := by
  unfold parse at h
  split at h
  · cases h
  · split at h
    · cases h
    · next t hknown =>
      obtain ⟨rfl, hcomplete⟩ := complete_of_parseLocation h
      exact ⟨List.mem_of_find?_eq_some hknown, hcomplete⟩

theorem complete_of_resolve {default : Transport} {res : Resolution} (h : resolve transports default text = .ok res) :
    res.destination.transport ∈ transports ∧ res.destination.Complete := by
  unfold resolve at h
  split at h
  · next hparse =>
    cases h
    exact complete_of_parse hparse
  · split at h
    · next hparse =>
      cases h
      exact complete_of_parse hparse
    · cases h

/-! ### Reading what is shown -/

/-- What is shown of a destination behind its transport. -/
def shown : Destination → List Char
  | .registry r => '/' :: '/' :: r.render.toList
  | .archive path none => path.toList
  | .archive path (some r) => path.toList ++ ':' :: r.render.toList
  | .folder path => path.toList

theorem render_toList (d : Destination) : d.render.toList = d.transport.name.toList ++ ':' :: d.shown := by
  unfold Destination.render
  rw [String.toList_append]
  rcases d with r | ⟨path, _ | r⟩ | path
  all_goals simp [transport, Transport.lead, Transport.name, location, shown]

theorem parseArchive_shown {path : String} {r : Reference} (hpath : path.toList ≠ []) (hcolon : ':' ∉ path.toList)
    (hr : r.IsGrammatical) (hdigest : r.digest = none) (htag : r.tag = some r.effectiveTag)
    (hlength : r.name.utf8ByteSize ≤ 255) :
    parseArchive (path.toList ++ ':' :: r.render.toList) = .ok (.archive path (some r)) := by
  have hreference : archiveReference (path.toList ++ ':' :: r.render.toList) r.render.toList = .ok r := by
    unfold archiveReference
    rw [String.ofList_toList, hr.parse_render hlength]
    simp only [hdigest, ← htag, Option.isSome_none, Bool.false_eq_true, if_false]
    rw [← hdigest]
  unfold parseArchive
  rw [Text.cutFirst_append hcolon]
  dsimp only
  rw [parsePath_toList hpath]
  dsimp only
  rw [hreference]
  rfl

/-- What is shown of a complete destination is read as the destination. -/
theorem Complete.parseLocation_shown (h : d.Complete) (hlength : ∀ r ∈ d.reference?, r.name.utf8ByteSize ≤ 255) :
    parseLocation d.transport d.shown = .ok d := by
  cases h with
  | @registry r hr htag =>
    show ((Reference.parse (String.ofList r.render.toList)).map fun r => Destination.registry r.withDefaultTag) = _
    rw [String.ofList_toList, hr.parse_render (hlength r rfl), Except.map, htag]
  | @archive path reference hpath hcolon hreference =>
    cases reference with
    | none =>
      show parseArchive path.toList = _
      unfold parseArchive
      rw [Text.cutFirst_eq_none_iff.mpr hcolon, parsePath_toList hpath]
      rfl
    | some r =>
      obtain ⟨hr, hdigest, htag⟩ := hreference r rfl
      exact parseArchive_shown hpath hcolon hr hdigest htag (hlength r rfl)
  | @folder path hpath =>
    show (parsePath path.toList).map Destination.folder = _
    rw [parsePath_toList hpath]
    rfl

theorem known?_name (h : t ∈ transports) : known? transports t.name = some t := by
  unfold known?
  cases hfind : transports.find? fun u => u.name = t.name with
  | none =>
    have hno := List.find?_eq_none.mp hfind t h
    simp at hno
  | some u =>
    have hname : u.name = t.name := by simpa using List.find?_some hfind
    rw [Transport.name_injective hname]

theorem Complete.parse_render (h : d.Complete) (hknown : d.transport ∈ transports)
    (hlength : ∀ r ∈ d.reference?, r.name.utf8ByteSize ≤ 255) : parse transports d.render = .ok d := by
  unfold parse
  rw [render_toList, Text.cutFirst_append d.transport.colon_notMem_name]
  dsimp only
  rw [String.ofList_toList, known?_name hknown]
  exact h.parseLocation_shown hlength

/-- The destination that is shown or recorded denotes the same place wherever it is read again. -/
theorem resolve_render {default : Transport} {res : Resolution} (h : resolve transports default text = .ok res)
    (hlength : ∀ r ∈ res.destination.reference?, r.name.utf8ByteSize ≤ 255) (other : Transport) :
    resolve transports other res.destination.render = .ok (.qualified res.destination) := by
  obtain ⟨hknown, hcomplete⟩ := complete_of_resolve h
  unfold resolve
  rw [hcomplete.parse_render hknown hlength]

/-- An archive given with a bare name: the tag it was completed by is shown, and the port is still one. -/
theorem resolve_render_archive :
    resolve Transport.all .docker "docker-archive:/tmp/app.tar:localhost:5000/app" =
        .ok (.qualified (.archive "/tmp/app.tar" (some ⟨"localhost:5000", "app", some "latest", none⟩))) ∧
      resolve Transport.all .dir "docker-archive:/tmp/app.tar:localhost:5000/app:latest" =
        .ok (.qualified (.archive "/tmp/app.tar" (some ⟨"localhost:5000", "app", some "latest", none⟩))) := by
  have h : resolve Transport.all .docker "docker-archive:/tmp/app.tar:localhost:5000/app" =
      .ok (.qualified (.archive "/tmp/app.tar" (some ⟨"localhost:5000", "app", some "latest", none⟩))) := by rfl
  refine ⟨h, resolve_render h ?_ .dir⟩
  rintro r ⟨⟩
  decide

end Destination
end Depot
