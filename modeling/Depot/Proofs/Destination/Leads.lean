import Depot.Proofs.Destination.Resolution
import Depot.Proofs.Reference.Continued

/-! The leads of transports. A destination in a registry is a reference behind `docker://`, and no reference begins so: a
    reference that begins neither with `dir:` nor with `docker-archive:` denotes what it names, also when its first
    colon is the one of a port, or what stands before it is the name of a transport. -/

namespace Depot

namespace Destination
variable {transports : List Transport} {text name : String} {r : Reference} {d : Destination}

/-! ### Texts with a lead -/

theorem text_of_parse (h : parse transports text = .ok d) :
    d.transport ∈ transports ∧ ∃ location, text.toList = d.transport.name.toList ++ ':' :: location ∧
      parseLocation d.transport location = .ok d := by
  have hknown := (complete_of_parse h).1
  unfold parse at h
  split at h
  · cases h
  · next front location hcut =>
    obtain ⟨htext, -⟩ := Text.cutFirst_eq_some_iff.mp hcut
    split at h
    · cases h
    · next t ht =>
      have hname : t.name = String.ofList front := by simpa using List.find?_some ht
      obtain ⟨rfl, -⟩ := complete_of_parseLocation h
      rw [hname, String.toList_ofList]
      exact ⟨hknown, location, htext, h⟩

theorem parse_of_known {t : Transport} {location : List Char} (ht : t ∈ transports)
    (htext : text.toList = t.name.toList ++ ':' :: location) : parse transports text = parseLocation t location := by
  unfold parse
  rw [htext, Text.cutFirst_append t.colon_notMem_name]
  dsimp only
  rw [String.ofList_toList, known?_name ht]

theorem toList_led (name : String) : (Transport.lead .docker ++ name).toList =
    Transport.docker.name.toList ++ ':' :: '/' :: '/' :: name.toList := by
  simp [Transport.lead, Transport.name]

/-- A text denotes a repository when it is a reference behind the lead of registries. -/
theorem parse_registry_iff : parse transports text = .ok (.registry r) ↔ .docker ∈ transports ∧
    ∃ name, text = Transport.lead .docker ++ name ∧ ∃ named, Reference.parse name = .ok named ∧ r = named.withDefaultTag := by
  constructor
  · intro h
    obtain ⟨hknown, location, htext, hlocation⟩ := text_of_parse h
    replace hlocation : parseRegistry location = .ok (.registry r) := hlocation
    unfold parseRegistry at hlocation
    split at hlocation
    · cases hlocation
    · next rest hrest =>
      obtain ⟨named, hnamed, heq⟩ := map_eq_ok_iff.mp hlocation
      cases heq
      have hlocation' : location = ['/', '/'] ++ rest := Text.after?_eq_some_iff.mp hrest
      refine ⟨hknown, String.ofList rest, String.toList_injective ?_, named, hnamed, rfl⟩
      rw [htext, hlocation', toList_led, String.toList_ofList]
      rfl
  · rintro ⟨hknown, name, rfl, named, hnamed, rfl⟩
    rw [parse_of_known hknown (toList_led name)]
    show parseRegistry (['/', '/'] ++ name.toList) = _
    unfold parseRegistry
    rw [Text.after?_append]
    dsimp only
    rw [String.ofList_toList, hnamed]
    rfl

/-- Behind the lead of another transport stands no repository. -/
theorem eq_docker_of_parse_lead {t : Transport} (h : parse transports (t.lead ++ text) = .ok (.registry r)) : t = .docker := by
  obtain ⟨-, location, htext, -⟩ := text_of_parse h
  have hlead : ∃ rest, (t.lead ++ text).toList = t.name.toList ++ ':' :: rest := by
    cases t <;> simp [Transport.lead, Transport.name]
  obtain ⟨rest, hlead⟩ := hlead
  obtain ⟨hname, -⟩ := Text.cut_unique t.colon_notMem_name Transport.docker.colon_notMem_name (hlead.symm.trans htext)
  exact Transport.name_injective (String.toList_injective hname)

theorem parse_lead_iff {t : Transport} : parse transports (t.lead ++ text) = .ok (.registry r) ↔
    t = .docker ∧ .docker ∈ transports ∧ ∃ named, Reference.parse text = .ok named ∧ r = named.withDefaultTag := by
  constructor
  · intro h
    obtain rfl := eq_docker_of_parse_lead h
    obtain ⟨hknown, rest, heq, hr⟩ := parse_registry_iff.mp h
    rw [← (String.append_right_inj _).mp heq] at hr
    exact ⟨rfl, hknown, hr⟩
  · rintro ⟨rfl, hknown, hr⟩
    exact parse_registry_iff.mpr ⟨hknown, text, rfl, hr⟩

/-- What names no transport of its own is read behind the lead of the default. -/
theorem resolve_unled_iff {default : Transport} {res : Resolution} (hunled : ∀ d, parse transports text ≠ .ok d) :
    resolve transports default text = .ok res ↔ ∃ d, parse transports (default.lead ++ text) = .ok d ∧ res = .defaulted d := by
  unfold resolve
  cases hparse : parse transports text with
  | ok d => exact absurd hparse (hunled d)
  | error e =>
    cases parse transports (default.lead ++ text) with
    | ok d => simp [eq_comm]
    | error e => simp

/-! ### References without a lead -/

/-- A reference that begins neither with `dir:` nor with `docker-archive:` names no transport. -/
theorem parse_ne_ok_of_reference (h : Reference.parse text = .ok r) (hdir : ¬"dir:".toList <+: text.toList)
    (harchive : ¬"docker-archive:".toList <+: text.toList) : parse transports text ≠ .ok d := by
  intro hparse
  obtain ⟨-, location, htext, -⟩ := text_of_parse hparse
  cases d with
  | registry named =>
    obtain ⟨-, name, rfl, -⟩ := parse_registry_iff.mp hparse
    exact Reference.parse_ne_ok_of_colon_slash (by decide) (toList_led name) h
  | archive path reference => exact harchive ⟨location, by simp [htext, transport, Transport.name]⟩
  | folder path => exact hdir ⟨location, by simp [htext, transport, Transport.name]⟩

theorem parse_dir (hknown : .dir ∈ transports) {path : String} (hpath : path.toList ≠ []) :
    parse transports ("dir:" ++ path) = .ok (.folder path) := by
  have htext : ("dir:" ++ path).toList = Transport.dir.name.toList ++ ':' :: path.toList := String.toList_append
  rw [parse_of_known hknown htext, parseLocation, parsePath_toList hpath]
  rfl

/-- Where registries are the default, a reference denotes the repository that it names, under the default tag if it has
    neither tag nor digest, unless it begins like a folder or an archive. If it begins with `dir:`, what follows is the
    path of a folder. -/
theorem resolve_of_reference (hknown : ∀ t, t ∈ transports) (h : Reference.parse text = .ok r) :
    (¬"dir:".toList <+: text.toList → ¬"docker-archive:".toList <+: text.toList →
      resolve transports .docker text = .ok (.defaulted (.registry r.withDefaultTag))) ∧
    ∀ path, text = "dir:" ++ path → resolve transports .docker text = .ok (.qualified (.folder path)) := by
  constructor
  · intro hdir harchive
    have hlead : parse transports (Transport.lead .docker ++ text) = .ok (.registry r.withDefaultTag) :=
      parse_lead_iff.mpr ⟨rfl, hknown .docker, r, h, rfl⟩
    exact (resolve_unled_iff fun d => parse_ne_ok_of_reference h hdir harchive).mpr ⟨_, hlead, rfl⟩
  · rintro path rfl
    have hpath : path.toList ≠ [] := by
      intro hempty
      -- The tag of a reference is not empty.
      have hbare : Reference.parse ("dir:" ++ "") = .error (.malformed "dir:" .tag) := by rfl
      obtain rfl : path = "" := String.toList_injective hempty
      cases hbare.symm.trans h
    unfold resolve
    rw [parse_dir (hknown .dir) hpath]

/-- The name of a transport before a port is a host, and before a tag a repository; a tag behind `dir:` is a path. -/
theorem resolve_of_reference_docker :
    resolve Transport.all .docker "docker:5000/app" =
        .ok (.defaulted (.registry ⟨"docker:5000", "app", some "latest", none⟩)) ∧
      resolve Transport.all .docker "docker:v1" =
        .ok (.defaulted (.registry ⟨"docker.io", "library/docker", some "v1", none⟩)) ∧
      resolve Transport.all .docker "dir:v1" = .ok (.qualified (.folder "v1")) := by
  have hport : Reference.parse "docker:5000/app" = .ok ⟨"docker:5000", "app", none, none⟩ := by rfl
  have htag : Reference.parse "docker:v1" = .ok ⟨"docker.io", "library/docker", some "v1", none⟩ := by rfl
  have hdir : Reference.parse "dir:v1" = .ok ⟨"docker.io", "library/dir", some "v1", none⟩ := by rfl
  exact ⟨(resolve_of_reference Transport.mem_all hport).1 (by decide) (by decide),
    (resolve_of_reference Transport.mem_all htag).1 (by decide) (by decide),
    (resolve_of_reference Transport.mem_all hdir).2 "v1" rfl⟩

end Destination
end Depot
