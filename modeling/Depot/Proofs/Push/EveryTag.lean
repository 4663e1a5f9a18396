import Depot.Proofs.Destination.Leads
import Depot.Proofs.Push.Attempts
import Depot.Proofs.Store.Names

/-! A push under every tag. Whether a text with a tag behind it is the name of a repository does not depend on the tag,
    as long as the text has no `@`: either every tag of the image leads to one repository, or none does. Behind an `@`
    the tag is read as a part of a digest, so that a tag which makes a good digest is no longer a tag. -/

namespace Depot

namespace Pusher
variable {τ : Type} {p : Pusher τ} {base tag : String} {r : Reference}

/-- What is left of a destination without the lead of registries. -/
def repositoryText (base : String) : String :=
  String.ofList ((Text.after? (Transport.lead .docker).toList base.toList).getD base.toList)

theorem hasColon_eq_false_iff : hasColon base = false ↔ ':' ∉ (repositoryText base).toList := by
  unfold hasColon repositoryText
  rw [String.toList_ofList, decide_eq_false_iff_not]

/-- The destination has the lead of registries, or nothing of it is a lead. -/
theorem led_or_bare (h : hasColon base = false) :
    base = Transport.lead .docker ++ repositoryText base ∨ base = repositoryText base ∧ ':' ∉ base.toList := by
  rw [hasColon_eq_false_iff] at h
  unfold repositoryText at h ⊢
  cases hafter : Text.after? (Transport.lead .docker).toList base.toList with
  | none =>
    rw [hafter, Option.getD_none, String.ofList_toList] at h
    rw [Option.getD_none, String.ofList_toList]
    exact Or.inr ⟨rfl, h⟩
  | some rest =>
    rw [Option.getD_some]
    refine Or.inl (String.toList_injective ?_)
    rw [Text.after?_eq_some_iff.mp hafter, String.toList_append, String.toList_ofList]

/-- Texts with tags behind this one denote repositories, if they spell references: registries are known, and the text
    has their lead, or it is given to them because it is not the name of another transport. -/
def Serves (p : Pusher τ) (base : String) : Prop :=
  .docker ∈ p.transports ∧ (base = Transport.lead .docker ++ repositoryText base ∨
    p.defaultTransport = .docker ∧ ∀ t ∈ p.transports, t.name = base → t = .docker)

theorem destinationOf_eq_ok_iff {text : String} {d : Destination} : p.destinationOf text = .ok d ↔
    Destination.parse p.transports text = .ok d ∨ (∃ e, Destination.parse p.transports text = .error e) ∧
      Destination.parse p.transports (p.defaultTransport.lead ++ text) = .ok d := by
  unfold destinationOf Destination.resolve
  cases Destination.parse p.transports text with
  | ok _ => simp [Destination.Resolution.destination]
  | error _ =>
    cases Destination.parse p.transports (p.defaultTransport.lead ++ text) with
    | ok _ => simp [Destination.Resolution.destination]
    | error _ => simp

/-- Nothing but a repository stands behind the lead of registries. -/
theorem destinationOf_led_iff {name : String} : p.destinationOf (Transport.lead .docker ++ name) = .ok (.registry r) ↔
    .docker ∈ p.transports ∧ ∃ named, Reference.parse name = .ok named ∧ r = named.withDefaultTag := by
  rw [destinationOf_eq_ok_iff]
  constructor
  · rintro (h | ⟨-, h⟩)
    · exact (Destination.parse_lead_iff.mp h).2
    · -- With a second lead before it the text would be a reference that begins with `docker://`.
      obtain ⟨-, -, named, hnamed, -⟩ := Destination.parse_lead_iff.mp h
      exact absurd hnamed (Reference.parse_ne_ok_of_colon_slash (by decide) (Destination.toList_led name))
  · intro h
    exact Or.inl (Destination.parse_lead_iff.mpr ⟨rfl, h⟩)

/-- A text without a lead is never taken for a repository as it stands. It is for a destination when it has the name of
    another transport. -/
theorem parse_bare_iff {transports : List Transport} (hcolon : ':' ∉ base.toList)
    (htag : Reference.Grammar.Tag tag.toList) : (∃ d, Destination.parse transports (base ++ ":" ++ tag) = .ok d) ↔
      ∃ t ∈ transports, t.name = base ∧ t ≠ .docker := by
  have hno (c : Char) (hc : ¬(Reference.Grammar.Lower c ∨ Reference.Grammar.Upper c ∨ Reference.Grammar.Digit c ∨ c = '_' ∨
      c = '.' ∨ c = '-')) : c ∉ tag.toList := mt (htag.chars c) hc
  constructor
  · rintro ⟨d, h⟩
    obtain ⟨hknown, location, htext, hlocation⟩ := Destination.text_of_parse h
    rw [Reference.toList_tagged] at htext
    obtain ⟨hname, rfl⟩ := Text.cut_unique hcolon d.transport.colon_notMem_name htext
    refine ⟨d.transport, hknown, (String.toList_injective hname).symm, fun hdocker => ?_⟩
    -- A location of a registry begins with slashes, and no tag does.
    rw [hdocker] at hlocation
    replace hlocation : Destination.parseRegistry tag.toList = .ok d := hlocation
    unfold Destination.parseRegistry at hlocation
    split at hlocation
    · cases hlocation
    · next hafter => exact hno '/' (by decide) (by simp [Text.after?_eq_some_iff.mp hafter])
  · rintro ⟨t, ht, rfl, hother⟩
    have hne : tag.toList ≠ [] := by
      obtain ⟨c, rest, hcs, -⟩ := htag
      simp [hcs]
    rw [Destination.parse_of_known ht (Reference.toList_tagged _ _)]
    cases t with
    | docker => exact absurd rfl hother
    | dockerArchive =>
      refine ⟨.archive tag none, ?_⟩
      show Destination.parseArchive tag.toList = _
      unfold Destination.parseArchive
      rw [Text.cutFirst_eq_none_iff.mpr (hno ':' (by decide)), Destination.parsePath_toList hne]
      rfl
    | dir =>
      refine ⟨.folder tag, ?_⟩
      show (Destination.parsePath tag.toList).map Destination.folder = _
      rw [Destination.parsePath_toList hne]
      rfl

/-- A text with a tag behind it denotes a repository exactly when the text is served by registries and what is left of it
    without their lead is, with the tag, a reference. -/
theorem destinationOf_tagged_iff (hcolon : hasColon base = false) (htag : Reference.Grammar.Tag tag.toList) :
    p.destinationOf (base ++ ":" ++ tag) = .ok (.registry r) ↔ p.Serves base ∧
      ∃ named, Reference.parse (repositoryText base ++ ":" ++ tag) = .ok named ∧ r = named.withDefaultTag := by
  -- With the lead there is nothing left to the default transport; without it there is nothing else.
  rcases led_or_bare hcolon with hled | ⟨hbare, hnone⟩
  · have htext : base ++ ":" ++ tag = Transport.lead .docker ++ (repositoryText base ++ ":" ++ tag) := by
      rw [← String.append_assoc, ← String.append_assoc, ← hled]
    rw [htext, destinationOf_led_iff]
    exact ⟨fun ⟨hknown, hr⟩ => ⟨⟨hknown, Or.inl hled⟩, hr⟩, fun ⟨⟨hknown, _⟩, hr⟩ => ⟨hknown, hr⟩⟩
  · rw [← hbare, destinationOf_eq_ok_iff]
    have hother : (∃ d, Destination.parse p.transports (base ++ ":" ++ tag) = .ok d) ↔
        ∃ t ∈ p.transports, t.name = base ∧ t ≠ .docker := parse_bare_iff hnone htag
    constructor
    · rintro (h | ⟨⟨e, he⟩, h⟩)
      · -- The text would begin with the lead of registries.
        obtain ⟨-, location, htext, -⟩ := Destination.text_of_parse h
        obtain ⟨t, ht, hname, hne⟩ := hother.mp ⟨_, h⟩
        rw [Reference.toList_tagged] at htext
        obtain ⟨hdocker, -⟩ := Text.cut_unique hnone Transport.docker.colon_notMem_name htext
        exact absurd (Transport.name_injective (hname.trans (String.toList_injective hdocker))) hne
      · obtain ⟨hdefault, hknown, hr⟩ := Destination.parse_lead_iff.mp h
        refine ⟨⟨hknown, Or.inr ⟨hdefault, fun t ht hname => ?_⟩⟩, hr⟩
        refine Decidable.byContradiction fun hne => ?_
        obtain ⟨d, hd⟩ := hother.mpr ⟨t, ht, hname, hne⟩
        rw [hd] at he
        cases he
    · rintro ⟨⟨hknown, hserved⟩, hr⟩
      rcases hserved with hled | ⟨hdefault, hdocker⟩
      · have : ':' ∈ base.toList := by
          rw [hled, Destination.toList_led]
          simp
        exact absurd this hnone
      · refine Or.inr ⟨?_, ?_⟩
        · cases hparse : Destination.parse p.transports (base ++ ":" ++ tag) with
          | error e => exact ⟨e, rfl⟩
          | ok d =>
            obtain ⟨t, ht, hname, hne⟩ := hother.mp ⟨d, hparse⟩
            exact absurd (hdocker t ht hname) hne
        · exact Destination.parse_lead_iff.mpr ⟨hdefault, hknown, hr⟩

/-- Without an `@` in it, the text names one repository, whatever the tag. -/
theorem destinationOf_tagged_of_bare (hcolon : hasColon base = false) (hat : '@' ∉ (repositoryText base).toList)
    (htag : Reference.Grammar.Tag tag.toList) : p.destinationOf (base ++ ":" ++ tag) = .ok (.registry r) ↔ p.Serves base ∧
      ∃ named, Reference.parse (repositoryText base) = .ok named ∧ r = { named with tag := some tag } := by
  simp only [destinationOf_tagged_iff hcolon htag, Reference.parse_tag_iff hat (hasColon_eq_false_iff.mp hcolon) htag]
  refine and_congr_right fun _ => ⟨?_, ?_⟩
  · rintro ⟨_, ⟨named, hnamed, rfl⟩, rfl⟩
    exact ⟨named, hnamed, rfl⟩
  · rintro ⟨named, hnamed, rfl⟩
    exact ⟨_, ⟨named, hnamed, rfl⟩, rfl⟩

/-- Behind an `@` the tag is a part of a digest: the destination has no tag. -/
theorem destinationOf_tagged_of_at {front back : String} (hcolon : hasColon base = false)
    (hbase : repositoryText base = front ++ "@" ++ back) (hat : '@' ∉ front.toList)
    (htag : Reference.Grammar.Tag tag.toList) (h : p.destinationOf (base ++ ":" ++ tag) = .ok (.registry r)) :
    r.tag = none ∧ r.digest = some (back ++ ":" ++ tag) := by
  obtain ⟨-, digested, hparse, rfl⟩ := (destinationOf_tagged_iff hcolon htag).mp h
  have htext : repositoryText base ++ ":" ++ tag = front ++ "@" ++ (back ++ ":" ++ tag) := by
    rw [hbase]
    simp only [String.append_assoc]
  rw [htext, Reference.parse_digest_iff hat] at hparse
  obtain ⟨-, named, hnamed, rfl⟩ := hparse
  have hfront : ':' ∉ front.toList := by
    have hno := hasColon_eq_false_iff.mp hcolon
    rw [hbase] at hno
    exact fun hmem => hno (by simp [hmem])
  obtain ⟨hnone, -⟩ := Reference.bare_of_parse hat hfront hnamed
  unfold Reference.withDefaultTag
  simp [hnone]

/-! ### Copies under tags -/

section Calls
variable {t : PushState τ} {image : LocalImage} {text : String} {options : PushOptions}

theorem registry_of_jobFor {d : Disk} {job : CopyJob} (hall : options.allTags = true)
    (hjob : p.jobFor d image text options = .ok job) :
    ∃ r, p.destinationOf text = .ok (.registry r) ∧ job.destination = .registry r := by
  obtain ⟨-, hdestination, hdocker⟩ := jobFor_eq_ok hjob
  cases hjobs : job.destination with
  | registry r => exact ⟨r, hjobs ▸ hdestination, rfl⟩
  | archive => cases hjobs ▸ hdocker hall
  | folder => cases hjobs ▸ hdocker hall

/-- Where a text denotes a repository, a copy is refused only when the image is gone. -/
theorem gone_of_jobFor {d : Disk} {e : Error} (hdestination : p.destinationOf text = .ok (.registry r))
    (hjob : p.jobFor d image text options = .error e) :
    e = .imageNotFound image.id ∧ d.exists? (image.store.imageFolder image.id) = false := by
  unfold jobFor at hjob
  rw [hdestination] at hjob
  split at hjob
  · next hsource =>
    cases hjob
    unfold LocalImage.source at hsource
    split at hsource
    · cases hsource
    · next hgone =>
      cases hsource
      exact ⟨rfl, Bool.eq_false_iff.mpr hgone⟩
  · dsimp only at hjob
    split at hjob
    · next hother => exact absurd rfl hother.2
    · cases hjob

end Calls

/-! ### Every tag, or none -/

section EveryTag
variable {t : PushState τ} {image : LocalImage} {options : PushOptions} {references : List Reference}

/-- The place of a reference in a repository: under the tag that the reference has. -/
def placeIn (repository reference : Reference) : Destination :=
  .registry { repository with tag := some reference.effectiveTag }

/-- How a push that has asked the engine goes on, with `left` the references that were not copied and `d` the disk at
    the end: to the last reference, to a copy that fails, or to where the image is gone. -/
inductive Finishes (image : LocalImage) (d : Disk) (left : List Reference) :
    List EngineCall → Except Error (Option Bytes) → Prop
  | done {calls : List EngineCall} (hleft : left = []) (hcalls : ∀ c ∈ calls, c.Succeeded) :
      Finishes image d left calls (.ok none)
  | copyFailed {calls : List EngineCall} {job : CopyJob} {found : Disk} {e : Error} (hcalls : ∀ c ∈ calls, c.Succeeded) :
      Finishes image d left (calls ++ [⟨job, found, .error e⟩]) (.error e)
  | vanished {calls : List EngineCall} (hleft : left ≠ []) (hcalls : ∀ c ∈ calls, c.Succeeded)
      (hgone : d.exists? (image.store.imageFolder image.id) = false) :
      Finishes image d left calls (.error (.imageNotFound image.id))

/-- The calls of a push under every tag of an image go to one repository, each reference of the image under its own tag
    and in their order; no reference is left without a destination. -/
structure Publishes (p : Pusher τ) (image : LocalImage) (base : String) (references : List Reference) (d : Disk)
    (repository : Reference) (calls : List EngineCall) (r : Except Error (Option Bytes)) : Prop where
  named : Reference.parse (repositoryText base) = .ok repository
  bare : repository.tag = none ∧ repository.digest = none
  resolves : ∀ reference ∈ references,
    p.destinationOf (base ++ ":" ++ reference.effectiveTag) = .ok (placeIn repository reference)
  calls : ∃ begun left, references = begun ++ left ∧
    calls.map (fun c => c.job.destination) = begun.map (placeIn repository) ∧ Finishes image d left calls r

/-- A copy that was begun has found the repository, and every other tag leads there too. -/
theorem resolves_of_begun {d : Disk} {job : CopyJob} {reference : Reference} (hall : options.allTags = true)
    (hcolon : hasColon base = false) (hat : '@' ∉ (repositoryText base).toList) (hreference : reference.IsGrammatical)
    (hjob : p.jobFor d image (base ++ ":" ++ reference.effectiveTag) options = .ok job) :
    ∃ repository, Reference.parse (repositoryText base) = .ok repository ∧ job.destination = placeIn repository reference ∧
      ∀ other : Reference, other.IsGrammatical →
        p.destinationOf (base ++ ":" ++ other.effectiveTag) = .ok (placeIn repository other) := by
  have htag (r : Reference) (hr : r.IsGrammatical) : Reference.Grammar.Tag r.effectiveTag.toList := hr.withTag.tag _ rfl
  obtain ⟨r, hdestination, hregistry⟩ := registry_of_jobFor hall hjob
  obtain ⟨hserves, repository, hnamed, rfl⟩ :=
    (destinationOf_tagged_of_bare hcolon hat (htag reference hreference)).mp hdestination
  refine ⟨repository, hnamed, hregistry, fun other hother => ?_⟩
  exact (destinationOf_tagged_of_bare hcolon hat (htag other hother)).mpr ⟨hserves, repository, hnamed, rfl⟩

theorem Ends.rest_of_ok {d : Disk} {rest : List Tagged} {calls : List EngineCall}
    (h : p.Ends image base options d rest calls (.ok ())) : rest = [] := by
  cases h with
  | done hrest => exact hrest

/-- Where every tag leads to a repository, a push ends well, with a copy that fails, or because the image is gone. -/
theorem Ends.finishes {d : Disk} {left : List Reference} {repository : Reference} {calls : List EngineCall}
    {r : Except Error Unit} (h : p.Ends image base options d (left.map fun r => ⟨r.name, r.effectiveTag⟩) calls r)
    (hresolves : ∀ reference ∈ left,
      p.destinationOf (base ++ ":" ++ reference.effectiveTag) = .ok (placeIn repository reference)) :
    Finishes image d left calls (r.map fun _ => none) := by
  cases h with
  | done hrest hcalls => exact .done (List.map_eq_nil_iff.mp hrest) hcalls
  | copyFailed hcalls => exact .copyFailed hcalls
  | refused hrest hcalls hjob =>
    obtain ⟨next, later, rfl, rfl, -⟩ := List.map_eq_cons_iff.mp hrest
    obtain ⟨rfl, hgone⟩ := gone_of_jobFor (hresolves next List.mem_cons_self) hjob
    exact .vanished (List.cons_ne_nil _ _) hcalls hgone

/-- A push of canonical names under their tags asks the engine for none of them, or publishes them. -/
theorem pushTags_publishes (p : Pusher τ) (t : PushState τ) (image : LocalImage) (hall : options.allTags = true)
    (hcolon : hasColon base = false) (hat : '@' ∉ (repositoryText base).toList)
    (hreferences : ∀ r ∈ references, r.IsGrammatical) :
    ∃ calls r t', p.pushTags image base options (references.map fun r => ⟨r.name, r.effectiveTag⟩) t = (r, t') ∧
      (∀ before, p.noting.pushTags image base options (references.map fun r => ⟨r.name, r.effectiveTag⟩) (t.noting before) =
        (r, t'.noting (before ++ calls))) ∧
      (calls = [] ∧ (r = .ok () → references = []) ∨
        ∃ repository, p.Publishes image base references t'.host.disk repository calls (r.map fun _ => none)) := by
  obtain ⟨begun', rest', calls, events, r, t', htags, hnames, htells, -, hends, hrun, hnoted⟩ :=
    p.pushTags_cases p.sink image base options (references.map fun r => ⟨r.name, r.effectiveTag⟩) t
  have hjobs := forall₂_begun hnames htells
  refine ⟨calls, r, t', hrun, hnoted, ?_⟩
  obtain ⟨begun, left, rfl, rfl, rfl⟩ := List.map_eq_append_iff.mp htags
  rw [List.forall₂_map_left_iff] at hjobs
  rcases begun with _ | ⟨first, begun⟩
  · -- The engine was not asked, so nothing was copied.
    cases hjobs
    refine Or.inl ⟨rfl, ?_⟩
    rintro rfl
    exact List.map_eq_nil_iff.mp hends.rest_of_ok
  · rcases calls with _ | ⟨call, calls⟩
    · cases hjobs
    -- The first call has found the repository. The later tags are given there, also those that are never asked for.
    have hjob := (List.forall₂_cons.mp hjobs).1
    obtain ⟨repository, hnamed, -, hresolves⟩ := resolves_of_begun hall hcolon hat (hreferences first (by simp)) hjob
    have hplaces : ∀ reference ∈ first :: begun ++ left,
        p.destinationOf (base ++ ":" ++ reference.effectiveTag) = .ok (placeIn repository reference) :=
      fun reference hmem => hresolves reference (hreferences reference hmem)
    refine Or.inr ⟨repository, hnamed, Reference.bare_of_parse hat (hasColon_eq_false_iff.mp hcolon) hnamed, hplaces,
      first :: begun, left, rfl, ?_, hends.finishes fun reference hmem => hplaces reference (by simp [hmem])⟩
    -- Each call went where its own tag leads.
    have hcalled := (List.forall₂_and_left _ _).mpr ⟨fun reference hmem => hplaces reference (List.mem_append_left _ hmem),
      hjobs⟩
    symm
    rw [← List.forall₂_eq_eq_eq, List.forall₂_map_left_iff, List.forall₂_map_right_iff]
    refine hcalled.imp fun reference c ⟨hplace, hjob⟩ => ?_
    obtain ⟨r, hdestination, hregistry⟩ := registry_of_jobFor hall hjob
    rw [hregistry]
    exact Except.ok.inj (hplace.symm.trans hdestination)

/-- A push under every tag publishes the tags of the image, each under its own name in the one repository that its
    destination names, or nothing. Once the first copy is begun, only the engine or the loss of the image stop it. -/
theorem push_publishes_every_tag {source destination name : String} (hall : options.allTags = true)
    (hlookup : p.lookup t.host.disk source = .ok (image, name))
    (htags : image.metadata.repoTags = references.map Reference.canonicalName)
    (hreferences : ∀ r ∈ references, (∃ text, Reference.parse text = .ok r) ∧ r.name.utf8ByteSize ≤ 255)
    (hat : '@' ∉ (pushedName destination name).toList) :
    ∃ calls r t', p.push source destination options t = (r, t') ∧
      (∀ before, p.noting.push source destination options (t.noting before) = (r, t'.noting (before ++ calls))) ∧
      (calls = [] ∧ (r = .ok none → references = []) ∨
        ∃ repository, p.Publishes image (pushedName destination name) references t'.host.disk repository calls r) := by
  have hgrammatical : ∀ r ∈ references, r.IsGrammatical ∧ r.name.utf8ByteSize ≤ 255 := fun r hr => by
    obtain ⟨⟨text, hparse⟩, hlength⟩ := hreferences r hr
    exact ⟨Reference.isGrammatical_of_parse hparse, hlength⟩
  have hnames := LocalImage.taggedNames_of_canonical htags hgrammatical
  have hrun := push_of_found destination options hlookup
  have hnoted := fun before => push_of_found (p := p.noting) (t := t.noting before) destination options hlookup
  simp only [hall, if_true] at hrun hnoted
  generalize pushedName destination name = base at *
  cases hcolon : hasColon base with
  | true =>
    refine ⟨[], _, t, hrun.trans (Act.bind_of_error (pushAllTags_of_colon hcolon)), fun before => ?_,
      Or.inl ⟨rfl, fun hr => by cases hr⟩⟩
    rw [List.append_nil]
    exact (hnoted before).trans (Act.bind_of_error (pushAllTags_of_colon hcolon))
  | false =>
    -- What is left of the destination without its lead has no `@` either.
    have hat' : '@' ∉ (repositoryText base).toList := by
      rcases led_or_bare hcolon with hled | ⟨hbare, -⟩
      · rw [hled, String.toList_append] at hat
        exact fun hmem => hat (List.mem_append_right _ hmem)
      · rwa [← hbare]
    obtain ⟨calls, r, t', hpush, hpushed, hends⟩ :=
      p.pushTags_publishes t image hall hcolon hat' fun r hr => (hgrammatical r hr).1
    replace hpush := (pushAllTags_of_tags hcolon hnames).trans hpush
    have hpushed' := fun before =>
      (pushAllTags_of_tags (p := p.noting) (t := t.noting before) hcolon hnames).trans (hpushed before)
    refine ⟨calls, r.map fun _ => none, t', ?_, fun before => ?_, hends.imp (And.imp_right fun h hr => h ?_) id⟩
    · exact hrun.trans (Act.bind_pure_of _ hpush)
    · exact (hnoted before).trans (Act.bind_pure_of _ (hpushed' before))
    · cases r with
      | error e => cases hr
      | ok _ => rfl

/-! ### An image with a tag that could be a digest -/

/-- An image with two tags, the first of them made of digits only. -/
def twiceTagged : LocalImage where
  metadata := ⟨"app", ["docker.io/library/app:00112233445566778899001122334455", "docker.io/library/app:v1"], none, .epoch, 0,
    []⟩
  store := ⟨"/depot"⟩

/-- Always finds this image, and copies it wherever it is asked to. -/
def obliging : Pusher Unit where
  lookup _ _ := .ok (twiceTagged, "docker.io/library/app:v1")
  transports := Transport.all
  defaultTransport := .docker
  engine _ := pure []
  sink := .nowhere

/-- A push where this image is stored. -/
def shelved : PushState Unit where
  host := .start ⟨[(["depot"], .folder), (["depot", "images"], .folder), (["depot", "images", "app"], .folder)], []⟩
    (fun _ => .epoch) (fun _ => "0") .cut
  engine := ()
  recorded := []

theorem publishes_twiceTagged : ∃ calls t', obliging.push "app" "localhost/app" ⟨true, .default⟩ shelved = (.ok none, t') ∧
    ∃ repository, obliging.Publishes twiceTagged "localhost/app"
      [⟨"docker.io", "library/app", some "00112233445566778899001122334455", none⟩,
        ⟨"docker.io", "library/app", some "v1", none⟩] t'.host.disk repository calls (.ok none) := by
  have hok : (obliging.push "app" "localhost/app" ⟨true, .default⟩ shelved).1 = .ok none := by decide +kernel
  have hread : ∀ r ∈ [(⟨"docker.io", "library/app", some "00112233445566778899001122334455", none⟩ : Reference),
      ⟨"docker.io", "library/app", some "v1", none⟩],
      (∃ text, Reference.parse text = .ok r) ∧ r.name.utf8ByteSize ≤ 255 := by
    rintro r (_ | ⟨_, _ | ⟨_, ⟨⟩⟩⟩)
    · exact ⟨⟨"app:00112233445566778899001122334455", by decide +kernel⟩, by decide⟩
    · exact ⟨⟨"app:v1", by decide +kernel⟩, by decide⟩
  have hlookup : obliging.lookup shelved.host.disk "app" = .ok (twiceTagged, "docker.io/library/app:v1") := rfl
  have hat : '@' ∉ (pushedName "localhost/app" "docker.io/library/app:v1").toList := by decide
  obtain ⟨calls, r, t', hrun, -, hends⟩ :=
    @push_publishes_every_tag _ _ _ _ ⟨true, .default⟩ _ _ _ _ rfl hlookup (by decide +kernel) hread hat
  obtain rfl : r = .ok none := (congrArg Prod.fst hrun).symm.trans hok
  rcases hends with ⟨-, hnone⟩ | hpublishes
  · cases hnone rfl
  · exact ⟨calls, t', hrun, hpublishes⟩

/-- To a destination with an `@`, the first tag goes as a digest, and the second has no destination any more. -/
theorem not_publishes_twiceTagged :
    (obliging.noting.push "app" "app@sha256" ⟨true, .default⟩ (shelved.noting [])).2.engine.2.map (fun c => c.job.destination) =
      [.registry ⟨"docker.io", "library/app", none, some "sha256:00112233445566778899001122334455"⟩] ∧
    (obliging.noting.push "app" "app@sha256" ⟨true, .default⟩ (shelved.noting [])).1 =
      .error (.unresolved "app@sha256:v1" (.unknownTransport "app@sha256:v1" "app@sha256")) := by
  constructor
  · decide +kernel
  · decide +kernel

end EveryTag
end Pusher
end Depot
