import Depot.Proofs.Archive.Entries
import Depot.Proofs.Store.Runs

/-! Loading where the disk refuses nothing. The images of an archive whose files are found are stored one after the other,
    unless a name of one of them cannot be read again; so where the store has room and all names can be read, loading goes
    through. -/

namespace Depot
open Digest (hexOf)

namespace Archive
variable {s : Store} {f : Store.Contents} {files : Files} {entry : ArchiveEntry} {entries : List ArchiveEntry}
variable {images : List Image} {h : Host} {path : String}

theorem turns_loadLayers (names : List String) : Store.Turns s f (loadLayers s files names) fun r g => f.Alike g ∧
    ∀ layers, List.Forall₂ (fun name data => files.lookup name = some data) names layers →
      r = .ok (layers.map Digest.ofBytes, countedSize layers) := by
  induction names generalizing f with
  | nil =>
    refine .pure _ ⟨.refl f, ?_⟩
    rintro _ ⟨⟩
    rfl
  | cons name names ih =>
    rw [loadLayers_cons]
    cases hmember : member files name with
    | error e =>
      refine .fail e ⟨.refl f, ?_⟩
      rintro _ (_ | ⟨hname, -⟩)
      rw [member, hname] at hmember
      cases hmember
    | ok data =>
      -- What is found begins with the layer that was read.
      have hlayers {layers : List Bytes}
          (hfound : List.Forall₂ (fun name data => files.lookup name = some data) (name :: names) layers) :
          ∃ rest, layers = data :: rest ∧ List.Forall₂ (fun name data => files.lookup name = some data) names rest := by
        obtain ⟨b, rest, hb, hrest, rfl⟩ := List.forall₂_cons_left_iff.mp hfound
        exact ⟨rest, by rw [Option.some.inj (hb.symm.trans (member_ok hmember))], hrest⟩
      rw [Act.ofExcept_ok_bind]
      refine (Store.turns_addLayer data).bind_ok fun g hsame => ?_
      refine ih.bind ?_ ?_
      · rintro e g' ⟨hsame', hrest⟩
        refine ⟨hsame.trans hsame', fun layers hfound => ?_⟩
        obtain ⟨rest, -, hfound'⟩ := hlayers hfound
        exact nomatch hrest rest hfound'
      · rintro p g' ⟨hsame', hrest⟩
        refine .pure _ ⟨hsame.trans hsame', fun layers hfound => ?_⟩
        obtain ⟨rest, rfl, hfound'⟩ := hlayers hfound
        obtain rfl := Except.ok.inj (hrest rest hfound')
        rfl

/-- An image whose files are found is stored with its names, unless one of these cannot be read. -/
theorem turns_loadEntry (hf : f.Neat) : Store.Turns s f (loadEntry s files entry) fun r g => g.Neat ∧
    ∀ x, Spells files entry x → Store.Contents.Reads x.names x.id r ∧ (r = .ok x.id → Stored f [x] g) := by
  show Store.Turns s f (Act.ofExcept (member files entry.config) >>= fun config =>
    loadLayers s files entry.layers >>= fun p => s.saveConfig (hexOf config) config >>= fun _ =>
      s.add (hexOf config) (namesOf entry.repoTags) (some (Digest.ofBytes config)) p.1 p.2 >>= fun _ => pure (hexOf config)) _
  cases hmember : member files entry.config with
  | error e =>
    refine .fail e ⟨hf, fun x hx => ?_⟩
    rw [member, hx.config] at hmember
    cases hmember
  | ok config =>
    have hid := Store.isImageId_hexOf config
    rw [Act.ofExcept_ok_bind]
    refine (turns_loadLayers entry.layers).bind (fun e g hg => ⟨hf.alike hg.1, fun x hx => nomatch hg.2 _ hx.layers⟩) ?_
    rintro p g ⟨hsame, hlayers⟩
    refine (Store.turns_saveConfig hid.isFileName config).bind_ok ?_
    rintro _ rfl
    -- Layers and configs leave the images alone, so names are given to them as they were.
    have hsame' := hsame.trans (Store.Contents.alike_put (i := .config (hexOf config)) (by simp) (by simp) config)
    have hneat := hf.alike hsame'
    have hreads := hneat.reads_add hid.isName hid.indexedId? (namesOf entry.repoTags) (some (Digest.ofBytes config)) p.1 p.2
    have hneat' := hneat.add hid.isName (namesOf entry.repoTags) (some (Digest.ofBytes config)) p.1 p.2
    refine (Store.turns_add hneat.sound hid.isFileName _ _ _ _).bind ?_ ?_
    · rintro e g' ⟨now, hresult⟩
      have hread := hreads now
      have hkept := hneat' now
      rw [← hresult] at hread hkept
      exact ⟨hkept, fun x hx => ⟨hread.of_error fun name hname => hx.names_eq ▸ hname, nofun⟩⟩
    · rintro _ g' ⟨now, hresult⟩
      have hread := hreads now
      have hkept := hneat' now
      rw [← hresult] at hread hkept
      refine .pure _ ⟨hkept, fun x hx => ?_⟩
      obtain rfl : x.config = config := Option.some.inj (hx.config.symm.trans (member_ok hmember))
      obtain rfl := Except.ok.inj (hlayers _ hx.layers)
      rw [← hx.names_eq] at hresult hread
      refine ⟨Or.inl ⟨rfl, hread.of_ok.2⟩, fun _ => .add hf hsame' (.refl g') (fun name hname r hparse => ?_) hresult.symm⟩
      exact canonicalName_of_mem_namesOf (hx.names_eq ▸ hname) hparse

/-- The images whose files are found are stored one after the other, unless a name of one of them cannot be read. -/
theorem turns_loadEntries (hf : f.Neat) : Store.Turns s f (loadEntries s files entries) fun r g => g.Neat ∧
    ∀ images, List.Forall₂ (Spells files) entries images →
      Store.Contents.Reads (images.flatMap Image.names) (images.map Image.id) r ∧
        (r = .ok (images.map Image.id) → Stored f images g) := by
  induction entries generalizing f with
  | nil =>
    refine .pure _ ⟨hf, ?_⟩
    rintro _ ⟨⟩
    exact ⟨Or.inl ⟨rfl, by simp⟩, fun _ => .nil f⟩
  | cons entry entries ih =>
    show Store.Turns s f (loadEntry s files entry >>= fun id => loadEntries s files entries >>= fun ids => pure (id :: ids)) _
    refine (turns_loadEntry hf).bind ?_ ?_
    · rintro e g ⟨hneat, hentry⟩
      refine ⟨hneat, fun images himages => ?_⟩
      obtain ⟨x, others, hx, -, rfl⟩ := List.forall₂_cons_left_iff.mp himages
      exact ⟨(hentry x hx).1.of_error fun _ => List.mem_append_left _, nofun⟩
    rintro id g ⟨hneat, hentry⟩
    refine (ih hneat).bind ?_ ?_
    · rintro e g' ⟨hneat', hrest⟩
      refine ⟨hneat', fun images himages => ?_⟩
      obtain ⟨x, others, -, hothers, rfl⟩ := List.forall₂_cons_left_iff.mp himages
      exact ⟨(hrest others hothers).1.of_error fun _ => List.mem_append_right _, nofun⟩
    · rintro ids g' ⟨hneat', hrest⟩
      refine .pure _ ⟨hneat', fun images himages => ?_⟩
      obtain ⟨x, others, hx, hothers, rfl⟩ := List.forall₂_cons_left_iff.mp himages
      obtain ⟨hread, hstored⟩ := hentry x hx
      obtain ⟨hread', hstored'⟩ := hrest others hothers
      obtain ⟨rfl, hnames⟩ := hread.of_ok
      obtain ⟨rfl, hnames'⟩ := hread'.of_ok
      exact ⟨Or.inl ⟨rfl, List.forall_mem_append.mpr ⟨hnames, hnames'⟩⟩, fun _ => (hstored rfl).append (hstored' rfl)⟩

/-- Loading keeps the contents neat, whatever the archive holds. -/
theorem turns_load (hf : f.Neat) (path : String) : Store.Turns s f (load s path) fun _ g => g.Neat := by
  intro R h hready hshows
  rcases load_cases s path h with ⟨e, he⟩ | ⟨files, entries, -, -, he⟩
  · exact .congr (y := Act.fail e) he (Store.Turns.fail e hf R h hready hshows)
  · exact .congr he (((turns_loadEntries hf).mono fun _ _ => And.left) R h hready hshows)

/-- Where there is room, an archive is loaded whose files are found and whose names can be read again. -/
theorem load_of_ready (hready : s.Ready h) (hshows : s.Shows h.disk f) (hf : f.Neat) (hfiles : readFiles h.disk path = .ok files)
    (hentries : entriesOf files = .ok entries) (himages : List.Forall₂ (Spells files) entries images)
    (hnames : ∀ k ∈ images.flatMap Image.names, ∃ r, Reference.parse k = .ok r) :
    ∃ h', load s path h = (.ok (images.map Image.id), h') ∧ s.Ready h' := by
  obtain ⟨g, hready', -, -, hresult⟩ := (turns_loadEntries hf).goes h hready hshows
  rw [load_eq hfiles hentries]
  exact ⟨_, Prod.ext ((hresult images himages).1.eq_ok hnames) rfl, hready'⟩

end Archive
end Depot
