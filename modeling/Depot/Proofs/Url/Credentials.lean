import Depot.Reference.Parser
import Depot.Url

/-! The addresses below a registry hold no credentials unless the registry does: an `@` behind the path `/v2/` is
    behind the authority too, whatever is trimmed, passed over or cut off. -/

namespace Depot.Url
variable {cs ds : List Char} {url : Url}

/-- An `@` comes only behind `/v2/`. -/
def Guarded (cs : List Char) : Prop := ∃ u v, cs = u ++ v ∧ '@' ∉ u ∧ (v = [] ∨ ['/', 'v', '2', '/'] <+: v)

/-- An `@` comes only behind `/v2/`, and that only behind a colon. -/
def GuardedText (cs : List Char) : Prop :=
  ∃ u v, cs = u ++ v ∧ '@' ∉ u ∧ (v = [] ∨ (':' ∈ u ∧ ['/', 'v', '2', '/'] <+: v))

/-! ### What is cut off -/

theorem cutFirst_isPrefix (sep : Char) (cs : List Char) : (Text.cutFirst sep cs).elim cs Prod.fst <+: cs := by
  cases h : Text.cutFirst sep cs with
  | none => exact List.prefix_refl cs
  | some p =>
    obtain ⟨rfl, -⟩ := Text.cutFirst_eq_some_iff.mp (show Text.cutFirst sep cs = some (p.1, p.2) from h)
    exact List.prefix_append _ _

theorem GuardedText.of_isPrefix (h : GuardedText cs) (hds : ds <+: cs) : GuardedText ds := by
  obtain ⟨u, v, rfl, hu, hv⟩ := h
  rcases List.prefix_or_prefix_of_prefix hds (List.prefix_append u v) with hdu | ⟨v', rfl⟩
  · exact ⟨ds, [], by simp, fun h => hu (hdu.subset h), Or.inl rfl⟩
  · have hv' : v' <+: v := (List.prefix_append_right_inj u).mp hds
    rcases hv with rfl | ⟨hcolon, hv⟩
    · exact ⟨u, v', rfl, hu, Or.inl (List.prefix_nil.mp hv')⟩
    · rcases List.prefix_or_prefix_of_prefix hv hv' with hv | hv
      · exact ⟨u, v', rfl, hu, Or.inr ⟨hcolon, hv⟩⟩
      · refine ⟨u ++ v', [], by simp, ?_, Or.inl rfl⟩
        rw [List.mem_append]
        rintro (h | h)
        · exact hu h
        · exact absurd (hv.subset h) (by decide)

theorem GuardedText.dropEdge (h : GuardedText cs) : GuardedText (cs.dropWhile isEdge) := by
  obtain ⟨u, v, rfl, hu, rfl | ⟨hcolon, hv⟩⟩ := h
  · rw [List.append_nil]
    exact ⟨_, [], (List.append_nil _).symm, fun h => hu ((List.dropWhile_sublist _).subset h), Or.inl rfl⟩
  · have hmem : ':' ∈ u.dropWhile isEdge := by
      rw [← List.takeWhile_append_dropWhile (p := isEdge) (l := u), List.mem_append] at hcolon
      refine hcolon.resolve_left fun h => ?_
      exact absurd (List.all_eq_true.mp List.all_takeWhile _ h) (by decide)
    refine ⟨u.dropWhile isEdge, v, ?_, fun h => hu ((List.dropWhile_sublist _).subset h), Or.inr ⟨hmem, hv⟩⟩
    rw [List.dropWhile_append, if_neg]
    intro hempty
    rw [List.isEmpty_iff.mp hempty] at hmem
    exact absurd hmem (by simp)

theorem GuardedText.filter (h : GuardedText cs) : GuardedText (cs.filter (!isSkipped ·)) := by
  obtain ⟨u, v, rfl, hu, hv⟩ := h
  refine ⟨u.filter (!isSkipped ·), v.filter (!isSkipped ·), List.filter_append .., fun h => hu (List.mem_filter.mp h).1, ?_⟩
  rcases hv with rfl | ⟨hcolon, w, rfl⟩
  · exact Or.inl rfl
  · exact Or.inr ⟨List.mem_filter.mpr ⟨hcolon, by decide⟩, w.filter (!isSkipped ·), by simp [isSkipped]⟩

theorem GuardedText.tidy (h : GuardedText cs) : GuardedText (tidy cs) := by
  refine GuardedText.filter (h.dropEdge.of_isPrefix ?_)
  rw [← List.reverse_suffix, List.reverse_reverse]
  exact List.dropWhile_suffix _

theorem GuardedText.afterScheme {scheme : List Char} (h : GuardedText cs) (hcut : splitScheme cs = some (scheme, ds)) :
    Guarded ds := by
  obtain ⟨first, hfirst⟩ : ∃ first, Text.cutFirst ':' cs = some (first, ds) := by
    unfold splitScheme at hcut
    split at hcut
    · cases hcut
    · next first rest hfirst =>
      split at hcut
      · cases hcut
      · split at hcut <;> cases hcut
        exact ⟨_, hfirst⟩
  obtain ⟨u, v, rfl, hu, rfl | ⟨hcolon, hv⟩⟩ := h
  · obtain ⟨hu', -⟩ := Text.cutFirst_eq_some_iff.mp hfirst
    rw [List.append_nil] at hu'
    subst hu'
    exact ⟨ds, [], by simp, fun h => hu (by simp [h]), Or.inl rfl⟩
  · obtain ⟨a, b, rfl, ha⟩ := List.eq_append_cons_of_mem hcolon
    rw [List.append_assoc, List.cons_append, Text.cutFirst_append ha] at hfirst
    cases hfirst
    exact ⟨b, v, rfl, fun h => hu (by simp [h]), Or.inr hv⟩

theorem Guarded.slashed (h : Guarded cs) : Guarded (cs.map fun c => if c = '\\' then '/' else c) := by
  obtain ⟨u, v, rfl, hu, hv⟩ := h
  refine ⟨_, _, List.map_append, ?_, ?_⟩
  · intro h
    obtain ⟨c, hc, heq⟩ := List.mem_map.mp h
    split at heq
    · cases heq
    · exact hu (heq ▸ hc)
  · rcases hv with rfl | ⟨w, rfl⟩
    · exact Or.inl rfl
    · exact Or.inr ⟨w.map fun c => if c = '\\' then '/' else c, by simp⟩

/-! ### The authority -/

/-- What is taken for the authority holds no `@`. -/
theorem Guarded.authority (h : Guarded cs) :
    '@' ∉ (Text.cutFirst '/' (cs.dropWhile (· = '/'))).elim (cs.dropWhile (· = '/')) Prod.fst := by
  obtain ⟨u, v, rfl, hu, rfl | ⟨w, rfl⟩⟩ := h
  · rw [List.append_nil]
    exact fun h => hu ((List.dropWhile_sublist _).subset ((cutFirst_isPrefix _ _).subset h))
  · rw [List.dropWhile_append]
    split
    · exact (by decide : '@' ∉ ['v', '2'])
    · have hu' : '@' ∉ u.dropWhile (· = '/') := fun h => hu ((List.dropWhile_sublist _).subset h)
      generalize u.dropWhile (· = '/') = u' at hu'
      by_cases hslash : '/' ∈ u'
      · obtain ⟨a, b, rfl, ha⟩ := List.eq_append_cons_of_mem hslash
        rw [List.append_assoc, List.cons_append, Text.cutFirst_append ha]
        exact fun h => hu' (List.mem_append_left _ h)
      · rw [List.cons_append, Text.cutFirst_append hslash]
        exact hu'

theorem credentials_ofAuthority {secure : Bool} {path : List (List Char)} {query : Option (List Char)}
    (hcs : '@' ∉ cs) (h : ofAuthority secure cs path query = .ok url) : url.credentials = none := by
  have hsplit : splitCredentials cs = (none, cs) := by
    unfold splitCredentials
    rw [Text.cutLast_eq_none_iff.mpr hcs]
  unfold ofAuthority at h
  rw [hsplit] at h
  dsimp only at h
  split at h <;> cases h
  rfl

theorem credentials_parseAuthority {secure : Bool} {query : Option (List Char)}
    (hcs : '@' ∉ (Text.cutFirst '/' cs).elim cs Prod.fst) (h : parseAuthority secure cs query = .ok url) :
    url.credentials = none := by
  unfold parseAuthority at h
  split at h
  · next hcut =>
    rw [hcut] at hcs
    exact credentials_ofAuthority hcs h
  · next hcut =>
    rw [hcut] at hcs
    exact credentials_ofAuthority hcs h

theorem credentials_parse? {text : String} (htext : GuardedText text.toList) (h : parse? text = some url) :
    url.credentials = none := by
  have hu : parseFrom none text = .ok (some url) := by
    unfold parse? at h
    split at h
    · next hu => rw [hu, h]
    · cases h
  unfold parseFrom at hu
  -- What is left when the fragment and the query are cut off is guarded like the whole text.
  have hcut := htext.tidy.of_isPrefix (cutFirst_isPrefix '#' _)
  dsimp only at hu
  generalize (Text.cutFirst '#' (tidy text.toList)).elim (tidy text.toList) Prod.fst = cs at hu hcut
  have hquery : ((Text.cutFirst '?' cs).elim (cs, none) fun p => (p.1, some p.2)).1 =
      (Text.cutFirst '?' cs).elim cs Prod.fst := by cases Text.cutFirst '?' cs <;> rfl
  rw [hquery] at hu
  replace hcut := hcut.of_isPrefix (cutFirst_isPrefix '?' cs)
  generalize ((Text.cutFirst '?' cs).elim (cs, none) fun p => (p.1, some p.2)).2.map
    (Percent.encode Percent.inQuery) = query at hu
  split at hu
  · exact absurd hu (by simp)
  · next scheme rest hscheme =>
    have hrest := (hcut.afterScheme hscheme).slashed.authority
    split at hu
    · rw [Option.filter_none] at hu
      dsimp only at hu
      cases hp : parseAuthority (decide (scheme = "https".toList))
          ((rest.map fun c => if c = '\\' then '/' else c).dropWhile (· = '/')) query with
      | error e =>
        rw [hp] at hu
        exact absurd hu (by simp [Except.map])
      | ok url' =>
        rw [hp] at hu
        obtain rfl : url' = url := Option.some.inj (Except.ok.inj hu)
        exact credentials_parseAuthority hrest hp
    · exact absurd (Except.ok.inj hu) (by simp)

end Depot.Url

namespace Depot.Reference
variable {r : Reference}

/-! ### References -/

theorem credentials_endpoint {rest : String} {url : Url} (hat : '@' ∉ r.registry.toList)
    (h : Url.parse? (r.endpoint ++ "/v2/" ++ rest) = some url) : url.credentials = none := by
  refine Url.credentials_parse? ?_ h
  refine ⟨r.endpoint.toList, "/v2/".toList ++ rest.toList, by simp, ?_, Or.inr ⟨?_, List.prefix_append _ _⟩⟩
  · unfold endpoint
    split
    · decide
    · split <;> simpa using hat
  · unfold endpoint
    split
    · decide
    · split <;> simp

end Depot.Reference
