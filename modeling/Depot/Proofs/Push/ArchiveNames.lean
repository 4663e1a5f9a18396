import Depot.Proofs.Archive.Writing
import Depot.Proofs.Copy
import Depot.Proofs.Destination.Resolution
import Depot.Proofs.Push.Attempts
import Depot.Proofs.Reference.Readings

/-! The names that a push writes into an archive. They are the one that the destination spells out behind its path, if
    it does, and before it the text of the destination itself where this is read as a reference with a tag. No text with
    an absolute path is; a relative path that could be a tag makes the text one. -/

namespace Depot

/-! ### Destinations as they are written -/

namespace Destination
variable {text path : String} {names : List String} {reference : Option Reference} {transports : List Transport}

/-- A text that names an archive by its path, with the name that it spells out for the image behind the path. -/
inductive SpellsArchive : String → String → List String → Prop
  | bare {path : String} (hpath : path.toList ≠ []) (hcolon : ':' ∉ path.toList) :
      SpellsArchive ("docker-archive:" ++ path) path []
  | named {path reference : String} {r : Reference} (hpath : path.toList ≠ []) (hcolon : ':' ∉ path.toList)
      (hr : Reference.parse reference = .ok r) (hdigest : r.digest = none) :
      SpellsArchive ("docker-archive:" ++ path ++ ":" ++ reference) path [Tagged.familiar ⟨r.name, r.effectiveTag⟩]

/-- The name under which an archive knows its image by its destination. -/
def givenNames (reference : Option Reference) : List String := ((reference.bind Reference.tagged?).map Tagged.familiar).toList

theorem spells_of_parseArchive {location : List Char} (h : parseArchive location = .ok (.archive path reference)) :
    SpellsArchive ("docker-archive:" ++ String.ofList location) path (givenNames reference) := by
  unfold parseArchive at h
  split at h
  · next hcut =>
    obtain ⟨path, hpath, heq⟩ := map_eq_ok_iff.mp h
    cases heq
    obtain ⟨rfl, hne⟩ := parsePath_eq_ok hpath
    rw [String.ofList_toList]
    exact .bare hne (Text.cutFirst_eq_none_iff.mp hcut)
  · next back hcut =>
    obtain ⟨rfl, hcolon⟩ := Text.cutFirst_eq_some_iff.mp hcut
    split at h
    · cases h
    · next path hpath =>
      obtain ⟨rfl, hne⟩ := parsePath_eq_ok hpath
      obtain ⟨r, hr, heq⟩ := map_eq_ok_iff.mp h
      cases heq
      obtain ⟨named, hnamed, hdigest, rfl⟩ := archiveReference_eq_ok hr
      have htext : "docker-archive:" ++ String.ofList (path.toList ++ ':' :: back) =
          "docker-archive:" ++ path ++ ":" ++ String.ofList back := by
        apply String.toList_injective
        simp
      rw [htext]
      exact .named (r := named) hne hcolon hnamed hdigest

/-- What is read as an archive spells one, and the name that it spells out is the one of the reference in it. -/
theorem spells_of_parse (h : parse transports text = .ok (.archive path reference)) :
    SpellsArchive text path (givenNames reference) := by
  unfold parse at h
  split at h
  · cases h
  · next name location hcut =>
    obtain ⟨htext, -⟩ := Text.cutFirst_eq_some_iff.mp hcut
    split at h
    · cases h
    · next t hknown =>
      have hname : t.name = String.ofList name := by simpa using List.find?_some hknown
      obtain ⟨ht, -⟩ := complete_of_parseLocation h
      obtain rfl : .dockerArchive = t := ht
      have hlead : text = "docker-archive:" ++ String.ofList location := by
        apply String.toList_injective
        rw [htext, ← String.toList_ofList (l := name), ← hname]
        simp [Transport.name]
      rw [hlead]
      exact spells_of_parseArchive h

/-! ### Texts that are references themselves -/

/-- The name that a text is itself, when it is read as a reference with a tag. -/
def ownNames (text : String) : List String :=
  match Reference.parse text with
  | .ok r => (r.tagged?.map Tagged.familiar).toList
  | .error _ => []

theorem map_preservedTags (text path : String) (reference : Option Reference) :
    (preservedTags text (.archive path reference)).map Tagged.familiar = ownNames text := by
  unfold preservedTags ownNames
  cases Reference.parse text with
  | error e => rfl
  | ok r => cases htag : r.tagged? <;> simp [transport, htag]

theorem ownNames_of_untagged (h : ∀ r, Reference.parse text = .ok r → r.tag = none) : ownNames text = [] := by
  unfold ownNames
  split
  · next r hr =>
    rw [Reference.tagged?, h r hr]
    rfl
  · rfl

/-- A text with an absolute path is no reference. -/
theorem ownNames_of_absolute (h : SpellsArchive text path names) (habsolute : path.toList.head? = some '/') :
    ownNames text = [] := by
  have htext : ∃ rest, text.toList = "docker-archive:".toList ++ '/' :: rest := by
    obtain ⟨cs, hcs⟩ := List.head?_eq_some_iff.mp habsolute
    cases h with
    | bare => exact ⟨cs, by rw [String.toList_append, hcs]⟩
    | @named _ reference => exact ⟨cs ++ ':' :: reference.toList, by simp [hcs]⟩
  obtain ⟨rest, htext⟩ := htext
  unfold ownNames
  split
  · next r hr =>
    -- What stands before the first slash would be a domain, whose port has no digits.
    obtain ⟨hp, -⟩ := Spelling.parse_eq_ok_iff.mp hr
    obtain ⟨back, hname, -⟩ := hp.name_of_text (by decide) ((Spelling.text_ofText _).trans htext)
    have hsplit := Spelling.splitDomain_name_ofText text.toList
    rw [hname, Reference.splitDomain_of_domain (by decide) (by decide)] at hsplit
    obtain ⟨hdomain, -⟩ := Prod.mk.inj hsplit
    have haddress := (hp.domain _ hdomain.symm).1
    rw [← Reference.Grammar.isDomain_iff] at haddress
    exact absurd haddress (by decide)
  · rfl

/-- A relative path that could be a tag makes the text the name of an image. -/
theorem ownNames_of_tag (h : Reference.Grammar.Tag path.toList) :
    ownNames ("docker-archive:" ++ path) = ["docker-archive:" ++ path] := by
  let p : Spelling := ⟨none, ["docker-archive".toList], some path.toList, none⟩
  have hpath : p.path = "docker-archive".toList := by simp [p, Spelling.path]
  have hname : p.name = "docker-archive".toList := hpath
  have hp : p.Grammatical := by
    refine ⟨⟨by simp [p], by simp [p], fun c hc => ?_, by simp [p], fun t ht => ?_, by simp [p]⟩, ?_⟩
    · rw [List.mem_singleton.mp hc]
      exact @Reference.Grammar.Component.join "docker".toList _ "archive".toList (by decide) (.dashes 0) (.word (by decide))
    · cases ht
      exact h
    · rw [hname]
      decide
  have htext : p.text = ("docker-archive:" ++ path).toList := by
    rw [Spelling.text, hname]
    simp [p, Reference.tagText, Reference.digestText]
  have hreference : p.reference = ⟨"docker.io", "library/docker-archive", some path, none⟩ := by
    unfold Spelling.reference Spelling.repository
    rw [if_pos ⟨String.ofList_toList, rfl⟩, hpath]
    simp [p, Spelling.registry, defaultRegistry, officialFolder]
  have hfamiliar : Tagged.familiarName ("docker.io" ++ "/" ++ "library/docker-archive") = "docker-archive" := by decide
  unfold ownNames
  rw [hp.parse_eq htext, hreference]
  simp only [Reference.tagged?, Reference.name, Option.map_some, Option.toList_some, Tagged.familiar, hfamiliar]
  simp

end Destination

/-! ### Copies -/

namespace Copy
variable {s : Store} {agent : Registry.Agent} {job : CopyJob} {h h' : Host} {manifest : Bytes} {path : String}
variable {reference : Option Reference}

theorem archiveNames_eq (tags : List Tagged) (reference : Option Reference) : archiveNames tags reference =
    tags.map Tagged.familiar ++ (Destination.givenNames reference).filter (· ∉ tags.map Tagged.familiar) := by
  unfold archiveNames Destination.givenNames
  generalize tags.map Tagged.familiar = names
  cases reference.bind Reference.tagged? with
  | none => simp
  | some t => by_cases ht : t.familiar ∈ names <;> simp [ht]

/-- When an image has been copied into an archive, the path holds one of it, under the names asked for. -/
theorem archive_of_run (hdestination : job.destination = .archive path reference)
    (hrun : run s agent job h = (.ok manifest, h')) : ∃ config layers, Blob.IsMade config ∧ (∀ l ∈ layers, l.IsMade) ∧
      h'.disk.read path = .ok (Archive.encode config layers (archiveNames job.archiveTags reference)) := by
  obtain ⟨m, config, layers, h₁, hreads, -, -, hdeliver⟩ := run_ok hrun
  obtain ⟨hlayers, hconfig⟩ := List.forall_mem_append.mp hreads.isMade
  refine ⟨config, layers, hconfig config (List.mem_singleton_self config), hlayers, ?_⟩
  have hwritten : Archive.write path config layers (archiveNames job.archiveTags reference) job.options.quiet h₁ =
      (.ok (), h') := by
    unfold deliver at hdeliver
    rw [hdestination] at hdeliver
    exact hdeliver
  have hread := Archive.read_write (congrArg Prod.fst hwritten)
  rwa [hwritten] at hread

end Copy

/-! ### Pushes -/

namespace Archive
variable {config : Blob} {layers : List Blob} {names : List String} {d : Disk} {path : String}

/-- At the path there is an archive of one image with some names, and they can be read from it as long as its size can
    be told. -/
def Names (d : Disk) (path : String) (names : List String) : Prop :=
  ∃ config layers, d.read path = .ok (encode config layers names) ∧ ((encode config layers names).length < 2 ^ 64 →
    ∃ entry, readManifest d path = .ok [entry] ∧ entry.repoTags = names)

theorem names_of_read (hconfig : config.IsMade) (hlayers : ∀ l ∈ layers, l.IsMade)
    (hread : d.read path = .ok (encode config layers names)) : Names d path names := by
  refine ⟨config, layers, hread, fun hsize => ⟨entryOf config layers names, ?_, rfl⟩⟩
  unfold readManifest
  rw [readFiles_encode hconfig hlayers hsize hread]
  exact entriesOf_parts hconfig hlayers

end Archive

namespace Pusher
variable {τ : Type} {p : Pusher τ} {t t' : PushState τ} {image : LocalImage} {text path : String} {options : PushOptions}
variable {s : Store} {agent : Registry.Agent} {reference : Option Reference} {manifest : Bytes}

/-- A push that ends well has asked the engine, and the engine has ended well. -/
theorem pushImage_ok (hpush : p.pushImage image text options t = (.ok manifest, t')) :
    ∃ job t₁, p.jobFor t.host.disk image text options = .ok job ∧ p.runEngine job (asked t) = (.ok manifest, t₁) := by
  cases hjob : p.jobFor t.host.disk image text options with
  | error e =>
    rw [pushImage_of_refused hjob] at hpush
    cases hpush
  | ok job =>
    rw [pushImage_of_begun hjob] at hpush
    obtain ⟨_, t₂, -, hresult⟩ := Act.bind_eq_ok.mp hpush
    have hok : (p.runEngine job (asked t)).1 = .ok manifest := congrArg Prod.fst hresult
    exact ⟨job, (p.runEngine job (asked t)).2, rfl, Prod.ext hok rfl⟩

theorem destinationOf_of_parse {destination : Destination} (haccepted : Destination.parse p.transports text = .ok destination) :
    p.destinationOf text = .ok destination := by
  unfold destinationOf Destination.resolve
  rw [haccepted]
  rfl

theorem jobFor_archive {d : Disk} {job : CopyJob} (hdestination : p.destinationOf text = .ok (.archive path reference))
    (hjob : p.jobFor d image text options = .ok job) : job.destination = .archive path reference ∧
      job.archiveTags.map Tagged.familiar = Destination.ownNames text := by
  unfold jobFor at hjob
  rw [hdestination] at hjob
  split at hjob
  · cases hjob
  · dsimp only at hjob
    split at hjob
    · cases hjob
    · cases hjob
      exact ⟨rfl, Destination.map_preservedTags text path reference⟩

/-- A push that ends well and goes to an archive leaves it there with the name that its text is itself, then the one of
    the destination. -/
theorem names_of_destination (hengine : p.engine = Copy.engine s agent)
    (hplace : p.destinationOf text = .ok (.archive path reference))
    (hpush : p.pushImage image text options t = (.ok manifest, t')) :
    ∃ job t₁, p.jobFor t.host.disk image text options = .ok job ∧ p.runEngine job (asked t) = (.ok manifest, t₁) ∧
      Archive.Names t₁.host.disk path (Destination.ownNames text ++
        (Destination.givenNames reference).filter (· ∉ Destination.ownNames text)) := by
  obtain ⟨job, t₁, hjob, hrun⟩ := pushImage_ok hpush
  obtain ⟨hdestination, htags⟩ := jobFor_archive hplace hjob
  refine ⟨job, t₁, hjob, hrun, ?_⟩
  rw [runEngine, hengine] at hrun
  have hcopied : Copy.run s agent job (asked t).host = (.ok manifest, t₁.host) := by
    rcases hcopy : Copy.run s agent job (asked t).host with ⟨r, h⟩
    simp only [Act.within, Copy.engine, hcopy] at hrun
    obtain ⟨rfl, rfl⟩ := Prod.mk.inj hrun
    rfl
  obtain ⟨config, layers, hconfig, hlayers, hread⟩ := Copy.archive_of_run hdestination hcopied
  rw [Copy.archiveNames_eq, htags] at hread
  exact Archive.names_of_read hconfig hlayers hread

theorem names_of_pushImage (hengine : p.engine = Copy.engine s agent)
    (haccepted : Destination.parse p.transports text = .ok (.archive path reference))
    (hpush : p.pushImage image text options t = (.ok manifest, t')) :
    ∃ job t₁, p.jobFor t.host.disk image text options = .ok job ∧ p.runEngine job (asked t) = (.ok manifest, t₁) ∧
      Archive.Names t₁.host.disk path (Destination.ownNames text ++
        (Destination.givenNames reference).filter (· ∉ Destination.ownNames text)) :=
  names_of_destination hengine (destinationOf_of_parse haccepted) hpush

/-- An archive that a push writes has the name that its destination spells out, and no other unless the destination is
    itself read as a reference with a tag; with an absolute path it is not. -/
theorem names_of_qualified_archive (hengine : p.engine = Copy.engine s agent)
    (haccepted : Destination.parse p.transports text = .ok (.archive path reference))
    (hpush : p.pushImage image text options t = (.ok manifest, t')) :
    Destination.SpellsArchive text path (Destination.givenNames reference) ∧ ∃ job t₁,
      p.jobFor t.host.disk image text options = .ok job ∧ p.runEngine job (asked t) = (.ok manifest, t₁) ∧
      Archive.Names t₁.host.disk path (Destination.ownNames text ++
        (Destination.givenNames reference).filter (· ∉ Destination.ownNames text)) ∧
      (path.toList.head? = some '/' ∨ (∀ r, Reference.parse text = .ok r → r.tag = none) →
        Archive.Names t₁.host.disk path (Destination.givenNames reference)) := by
  obtain ⟨job, t₁, hjob, hrun, hnames⟩ := names_of_pushImage hengine haccepted hpush
  have hspells := Destination.spells_of_parse haccepted
  refine ⟨hspells, job, t₁, hjob, hrun, hnames, fun hown => ?_⟩
  have hnone : Destination.ownNames text = [] := by
    rcases hown with habsolute | huntagged
    · exact Destination.ownNames_of_absolute hspells habsolute
    · exact Destination.ownNames_of_untagged huntagged
  rw [hnone] at hnames
  simpa using hnames

/-- An archive at a relative path that could be a tag has the text of its destination for a name, though none is spelled
    out. -/
theorem names_of_tag_path (hengine : p.engine = Copy.engine s agent) (hpath : Reference.Grammar.Tag path.toList)
    (hknown : .dockerArchive ∈ p.transports)
    (hpush : p.pushImage image ("docker-archive:" ++ path) options t = (.ok manifest, t')) :
    ∃ job t₁, p.runEngine job (asked t) = (.ok manifest, t₁) ∧
      Archive.Names t₁.host.disk path ["docker-archive:" ++ path] := by
  have hcomplete : Destination.Complete (.archive path none) := by
    refine .archive ?_ (mt (hpath.chars ':') (by decide)) (by simp)
    obtain ⟨c, rest, hcs, -⟩ := hpath
    simp [hcs]
  have haccepted : Destination.parse p.transports ("docker-archive:" ++ path) = .ok (.archive path none) :=
    hcomplete.parse_render hknown (by simp [Destination.reference?])
  obtain ⟨job, t₁, -, hrun, hnames⟩ := names_of_pushImage hengine haccepted hpush
  rw [Destination.ownNames_of_tag hpath] at hnames
  exact ⟨job, t₁, hrun, hnames⟩

/-! ### A store with one image -/

/-- What is known of an image without layers. -/
def bareImage : Metadata := ⟨"bare", [], none, .epoch, 0, []⟩

/-- A push out of a store that has this image alone. -/
def bareState : PushState Unit where
  host := .start ⟨[(["depot"], .folder), (["depot", "images"], .folder), (["depot", "images", "bare"], .folder),
    (["depot", "images", "bare", "metadata.json"], .file (Bytes.ofText (Document.compact bareImage))),
    (["depot", "images", "bare", "config.json"], .file [])], []⟩ (fun _ => .epoch) (fun _ => "0") .cut
  engine := ()
  recorded := []

def barePusher : Pusher Unit where
  lookup d text := Store.lookup ⟨"/depot"⟩ d text
  transports := Transport.all
  defaultTransport := .docker
  engine := Copy.engine ⟨"/depot"⟩ ⟨"depot", by decide⟩
  sink := .nowhere

theorem engine_barePusher : barePusher.engine = Copy.engine ⟨"/depot"⟩ ⟨"depot", by decide⟩ := by
  rw [barePusher]

/-- The push of the image to a destination. -/
def barePush (text : String) : Except Error Bytes × PushState Unit :=
  barePusher.pushImage ⟨bareImage, ⟨"/depot"⟩⟩ text ⟨false, ⟨false, false, true⟩⟩ bareState

theorem names_of_bare_app : ∃ manifest t', barePush "docker-archive:/app.tar:app" = (.ok manifest, t') ∧
    ∃ job t₁, barePusher.runEngine job (asked bareState) = (.ok manifest, t₁) ∧
      Archive.Names t₁.host.disk "/app.tar" ["app:latest"] := by
  have hok : (barePush "docker-archive:/app.tar:app").1.isOk = true := by decide +kernel
  have haccepted : Destination.parse barePusher.transports "docker-archive:/app.tar:app" =
      .ok (.archive "/app.tar" (some ⟨"docker.io", "library/app", some "latest", none⟩)) := by rfl
  rcases hpush : barePush "docker-archive:/app.tar:app" with ⟨_ | manifest, t'⟩
  · rw [hpush] at hok
    cases hok
  · obtain ⟨-, job, t₁, -, hrun, -, hnames⟩ := names_of_qualified_archive engine_barePusher haccepted hpush
    exact ⟨manifest, t', rfl, job, t₁, hrun, hnames (Or.inl rfl)⟩

/-- An archive that is written to `app.tar`, without a name, has one. -/
theorem names_of_bare_tag_path : ∃ manifest t', barePush "docker-archive:app.tar" = (.ok manifest, t') ∧
    Destination.SpellsArchive "docker-archive:app.tar" "app.tar" [] ∧
    ∃ job t₁, barePusher.runEngine job (asked bareState) = (.ok manifest, t₁) ∧
      Archive.Names t₁.host.disk "app.tar" ["docker-archive:app.tar"] := by
  have hok : (barePush "docker-archive:app.tar").1.isOk = true := by decide +kernel
  have htext : "docker-archive:app.tar" = "docker-archive:" ++ "app.tar" := by decide
  rcases hpush : barePush "docker-archive:app.tar" with ⟨_ | manifest, t'⟩
  · rw [hpush] at hok
    cases hok
  · have hpath : Reference.Grammar.Tag "app.tar".toList := by decide
    rw [htext] at hpush ⊢
    obtain ⟨job, t₁, hrun, hnames⟩ := names_of_tag_path engine_barePusher hpath (Transport.mem_all _) hpush
    exact ⟨manifest, t', rfl, .bare (by decide) (by decide), job, t₁, hrun, hnames⟩

end Pusher
end Depot
