import Depot.Proofs.Bytes
import Depot.Proofs.Disk.Parents
import Depot.Proofs.Host
import Depot.Proofs.Json.Documents
import Depot.Proofs.Json.Lines
import Depot.Store.Log

/-! The event log only grows, and nothing that reached it is lost. An event has a line of its own because its document
    has no line end in it; so whatever lines are there already, well formed or not, keep their readings, and the new
    event is read behind them as it was recorded. -/

namespace Depot

namespace Text

theorem trim_ne_nil {c : Char} {cs : List Char} (hmem : c ∈ cs) (hc : isBlank c = false) : trim cs ≠ [] := by
  have hkept {cs : List Char} (hmem : c ∈ cs) : c ∈ cs.dropWhile isBlank := by
    rw [← List.takeWhile_append_dropWhile (p := isBlank) (l := cs), List.mem_append] at hmem
    refine hmem.resolve_left fun hblank => ?_
    rw [List.all_eq_true.mp List.all_takeWhile c hblank] at hc
    cases hc
  unfold trim trimEnd trimStart
  exact List.ne_nil_of_mem (List.mem_reverse.mpr (hkept (List.mem_reverse.mpr (hkept hmem))))

end Text

/-- Of the inputs of a computation that is run on one after another, those on which it succeeds. -/
def Act.accepted {σ α : Type} (f : α → Act σ Unit) : List α → σ → List α
  | [], _ => []
  | a :: as, s =>
    match f a s with
    | (.ok (), s) => a :: accepted f as s
    | (.error _, s) => accepted f as s

namespace Store
variable {s : Store} {d d' : Disk} {h h' : Host} {prior text : String} {e : Event}

/-! ### Lines -/

/-- An event as it stands in the log. -/
def eventLine (e : Event) : String := Document.compact e ++ "\n"

/-- The last line of the text is ended. -/
def Whole (text : String) : Prop := text = "" ∨ text.toList.getLast? = some '\n'

theorem whole_append_eventLine (text : String) (e : Event) : Whole (text ++ eventLine e) := by
  right
  rw [eventLine, ← String.append_assoc, String.toList_append]
  exact List.getLast?_concat

/-- The event that a line of the log holds, if it holds one. -/
def eventIn (line : List Char) : Option Event :=
  if (Text.trim line).isEmpty then none else Document.parse? (String.ofList line)

theorem eventsOf_eq (text : String) : eventsOf text = (Text.pieces '\n' text.toList).filterMap eventIn := rfl

theorem eventIn_nil : eventIn [] = none := rfl

theorem eventIn_of_mem {c : Char} {line : List Char} (hmem : c ∈ line) (hc : Text.isBlank c = false) :
    eventIn line = Document.parse? (String.ofList line) :=
  if_neg fun hempty => Text.trim_ne_nil hmem hc (List.isEmpty_iff.mp hempty)

theorem eventIn_compact (e : Event) : eventIn (Document.compact e).toList = some e := by
  have hbrace : '{' ∈ (Json.renderAt .compact 0 (Document.toJson e)) := List.mem_cons_self
  rw [← String.toList_ofList (l := Json.renderAt .compact 0 (Document.toJson e))] at hbrace
  exact (eventIn_of_mem hbrace (by decide)).trans (by rw [String.ofList_toList]; exact Document.parse?_compact e)

theorem eventsOf_eventLine (e : Event) : eventsOf (eventLine e) = [e] := by
  have hline : (eventLine e).toList = (Document.compact e).toList ++ '\n' :: [] := String.toList_append
  have hnewline : '\n' ∉ (Document.compact e).toList := Json.newline_notMem_compact _
  rw [eventsOf_eq, hline, Text.pieces_append hnewline, Text.pieces,
    List.filterMap_cons_some (eventIn_compact e), List.filterMap_cons_none eventIn_nil, List.filterMap_nil]

/-- Behind whole lines a text is read on its own. -/
theorem eventsOf_append (hwhole : Whole prior) (text : String) : eventsOf (prior ++ text) = eventsOf prior ++ eventsOf text := by
  rcases hwhole with rfl | hlast
  · rw [String.empty_append]
    rfl
  · obtain ⟨front, hfront⟩ := List.getLast?_eq_some_iff.mp hlast
    have hprior : eventsOf prior = (Text.pieces '\n' front).filterMap eventIn := by
      rw [eventsOf_eq, hfront, Text.pieces_append_cons, List.filterMap_append, Text.pieces,
        List.filterMap_cons_none eventIn_nil, List.filterMap_nil, List.append_nil]
    rw [hprior, eventsOf_eq, eventsOf_eq, String.toList_append, hfront, List.append_assoc, List.singleton_append,
      Text.pieces_append_cons, List.filterMap_append]

/-! ### Recording one event -/

/-- The folder of the log is there or can be made, without something else getting in the place of the log. -/
def LogOpens (s : Store) (d : Disk) : Prop :=
  ∃ folder d', Path.parent? s.eventsFile = some folder ∧ d.makeFolders folder = (.ok (), d') ∧
    d'.Reaches s.eventsFile ∧ d'.node? (d.placeOf s.eventsFile) = d.node? (d.placeOf s.eventsFile)

/-- The log has this text; a log that is not there yet has none, and can be made. -/
def LogHas (s : Store) (d : Disk) (text : String) : Prop :=
  d.readText s.eventsFile = .ok text ∨ d.node? (d.placeOf s.eventsFile) = none ∧ text = "" ∧ s.LogOpens d

theorem isFileName_events : Disk.IsFileName "events.jsonl" := by decide

theorem logOpens_of_reaches (h : d.Reaches s.eventsFile) : s.LogOpens d := by
  obtain ⟨folder, hparent⟩ := Disk.parent?_join s.root isFileName_events.toIsName
  exact ⟨folder, d, hparent, Disk.makeFolders_parent isFileName_events.toIsName h hparent, h, rfl⟩

/-- A store whose root is there can have a log, unless its path is too long. -/
theorem logOpens_of_isFolder (hroot : d.isFolder s.root = true) (hshort : s.root.utf8ByteSize + 13 ≤ Disk.longestPath) :
    s.LogOpens d := by
  obtain ⟨hreaches, hnode⟩ := Disk.folder_of_isFolder hroot
  have hlength := Disk.utf8ByteSize_join_le s.root (x := "events.jsonl") (by decide)
  rw [show "events.jsonl".utf8ByteSize = 12 by decide] at hlength
  exact logOpens_of_reaches ((Disk.leads_of_reaches hreaches hnode).reaches isFileName_events (by omega))

theorem events_of_logHas (hlog : s.LogHas d text) : s.events d = .ok (eventsOf text) := by
  unfold events
  rcases hlog with hread | ⟨hnone, rfl, -⟩
  · rw [if_pos (Disk.exists?_of_readText hread), hread]
  · obtain ⟨e, hfind⟩ := Disk.find_none hnone
    rw [Disk.exists?, hfind]
    rfl

namespace LogHas

theorem opens (hlog : s.LogHas d text) : s.LogOpens d := by
  rcases hlog with hread | ⟨-, -, hopens⟩
  · obtain ⟨c, hread, -⟩ := Disk.readText_ok_iff.mp hread
    exact logOpens_of_reaches (Disk.read_ok_iff.mp hread).1
  · exact hopens

theorem makeFolders {folder : String} (hlog : s.LogHas d text) (hmade : d.makeFolders folder = (.ok (), d'))
    (hreaches : d'.Reaches s.eventsFile)
    (hnode : d'.node? (d.placeOf s.eventsFile) = d.node? (d.placeOf s.eventsFile)) : s.LogHas d' text := by
  have hkept := Disk.makeFolders_kept d folder
  rw [hmade] at hkept
  rcases hlog with hread | ⟨hnone, htext, -⟩
  · obtain ⟨c, hread, htext⟩ := Disk.readText_ok_iff.mp hread
    exact Or.inl (Disk.readText_ok_iff.mpr ⟨c, hkept.read not_false hread, htext⟩)
  · refine Or.inr ⟨?_, htext, logOpens_of_reaches hreaches⟩
    rw [hkept.placeOf, hnode, hnone]

/-- What is appended stands behind what was there. -/
theorem append {line : String} (hlog : s.LogHas d text) (happend : d.append s.eventsFile (Bytes.ofText line) = .ok d') :
    s.LogHas d' (text ++ line) := by
  obtain ⟨-, old, hold, hread⟩ := Disk.change_ok happend
  have htext : old = Bytes.ofText text := by
    rcases hlog with htext | ⟨hnone, rfl, -⟩
    · obtain ⟨c, hread, hc⟩ := Disk.readText_ok_iff.mp htext
      have hnode := (Disk.read_ok_iff.mp hread).2.2
      rcases hold with hold | ⟨hnone, -⟩
      · rw [hnode] at hold
        cases hold
        exact Bytes.eq_ofText_of_text? hc
      · rw [hnode] at hnone
        cases hnone
    · rcases hold with hold | ⟨-, rfl⟩
      · rw [hnone] at hold
        cases hold
      · rfl
  rw [htext, ← Bytes.ofText_append] at hread
  exact Or.inl (Disk.readText_ok_iff.mpr ⟨_, hread, Bytes.text?_ofText _⟩)

theorem append_ok (hlog : s.LogHas d text) (hreaches : d.Reaches s.eventsFile) (c : Bytes) :
    ∃ d', d.append s.eventsFile c = .ok d' := by
  have htarget : d.target s.eventsFile = .ok (.named (d.placeOf s.eventsFile) false) :=
    Disk.target_join isFileName_events.toIsName hreaches
  unfold Disk.append Disk.change
  rw [htarget]
  dsimp only
  rw [if_neg Bool.false_ne_true]
  rcases hlog with hread | ⟨hnone, -, -⟩
  · obtain ⟨old, hread, -⟩ := Disk.readText_ok_iff.mp hread
    rw [(Disk.read_ok_iff.mp hread).2.2]
    exact ⟨_, rfl⟩
  · rw [hnone]
    exact ⟨_, rfl⟩

end LogHas

theorem appendEvent_eq (s : Store) (e : Event) {folder : String} (hparent : Path.parent? s.eventsFile = some folder) :
    s.appendEvent e =
      (Host.makeFolders folder >>= fun _ => Host.append s.eventsFile (Bytes.ofText (eventLine e))) := by
  delta appendEvent
  rw [hparent]
  rfl

/-- An event reaches the log as a line at its end, or the disk refuses it and the log stays as it is. -/
theorem appendEvent_cases (hlog : s.LogHas h.disk text) (e : Event) :
    (∃ h', s.appendEvent e h = (.ok (), h') ∧ s.LogHas h'.disk (text ++ eventLine e) ∧
      (h.troubles = [] → h'.troubles = [])) ∨
    ∃ err h', s.appendEvent e h = (.error err, h') ∧ s.LogHas h'.disk text ∧ h.troubles ≠ [] := by
  obtain ⟨folder, d, hparent, hmade, hreaches, hnode⟩ := hlog.opens
  rw [appendEvent_eq s e hparent]
  rcases Host.makeFolders_cases folder h with ⟨err, hrefused, htroubles⟩ | hfolder
  · exact Or.inr ⟨_, _, Act.bind_of_error hrefused, hlog, htroubles⟩
  · rw [hmade] at hfolder
    have hlog' := hlog.makeFolders hmade hreaches hnode
    obtain ⟨d', happend⟩ := hlog'.append_ok hreaches (Bytes.ofText (eventLine e))
    rcases Host.append_cases (h := h.withDisk d) happend with ⟨err, hrefused, htroubles⟩ | hdone
    · exact Or.inr ⟨_, _, (Act.bind_of_ok hfolder).trans hrefused, hlog',
        fun hcalm => htroubles (Host.troubles_withDisk hcalm d)⟩
    · exact Or.inl ⟨_, (Act.bind_of_ok hfolder).trans hdone, hlog'.append happend,
        fun hcalm => Host.troubles_withDisk (Host.troubles_withDisk hcalm d) d'⟩

theorem record_apply (s : Store) (e : Event) (h : Host) : s.record e h = (.ok (), (s.appendEvent e h).2) :=
  Act.bind_of_ok (Act.attempt_apply _ _)

/-! ### Recording many -/

/-- Of events that are recorded one after another, those that the disk takes. -/
def taken (s : Store) : List Event → Host → List Event := Act.accepted s.appendEvent

theorem taken_of_ok {es : List Event} (hdone : s.appendEvent e h = (.ok (), h')) : s.taken (e :: es) h = e :: s.taken es h' := by
  rw [taken, Act.accepted, hdone]

theorem taken_of_error {es : List Event} {err : Error} (hrefused : s.appendEvent e h = (.error err, h')) :
    s.taken (e :: es) h = s.taken es h' := by
  rw [taken, Act.accepted, hrefused]

/-- The log that is left behind: nothing of it is gone, and every event that the disk took is a line at its end. -/
theorem logHas_forM_record (hlog : s.LogHas h.disk text) (es : List Event) :
    ∃ h', es.forM s.record h = (.ok (), h') ∧
      s.LogHas h'.disk (text ++ String.join ((s.taken es h).map eventLine)) := by
  induction es generalizing h text with
  | nil =>
    refine ⟨h, rfl, ?_⟩
    rwa [show s.taken [] h = [] from rfl, List.map_nil, String.join_nil, String.append_empty]
  | cons e es ih =>
    have hcons {r : Except Error Unit} {h' : Host} (hrun : s.appendEvent e h = (r, h')) :
        (e :: es).forM s.record h = es.forM s.record h' :=
      Act.bind_of_ok ((record_apply s e h).trans (by rw [hrun]))
    rcases appendEvent_cases hlog e with ⟨h', hdone, hlog', -⟩ | ⟨err, h', hrefused, hlog', -⟩
    · obtain ⟨h'', hrun, hlog''⟩ := ih hlog'
      refine ⟨h'', (hcons hdone).trans hrun, ?_⟩
      rwa [taken_of_ok hdone, List.map_cons, String.join_cons, ← String.append_assoc]
    · obtain ⟨h'', hrun, hlog''⟩ := ih hlog'
      refine ⟨h'', (hcons hrefused).trans hrun, ?_⟩
      rwa [taken_of_error hrefused]

/-- A disk that refuses nothing takes every event. -/
theorem taken_of_calm (hlog : s.LogHas h.disk text) (hcalm : h.troubles = []) (es : List Event) : s.taken es h = es := by
  induction es generalizing h text with
  | nil => rfl
  | cons e es ih =>
    rcases appendEvent_cases hlog e with ⟨h', hdone, hlog', hcalm'⟩ | ⟨_, _, _, _, htroubles⟩
    · rw [taken_of_ok hdone, ih hlog' (hcalm' hcalm)]
    · exact absurd hcalm htroubles

theorem eventsOf_append_lines (hwhole : Whole text) (es : List Event) :
    eventsOf (text ++ String.join (es.map eventLine)) = eventsOf text ++ es := by
  induction es generalizing text with
  | nil => simp
  | cons e es ih =>
    rw [List.map_cons, String.join_cons, ← String.append_assoc, ih (whole_append_eventLine text e),
      eventsOf_append hwhole, eventsOf_eventLine, List.append_assoc]
    rfl

/-- The log is append-only and loses nothing: events that are recorded one after another are read behind all that was
    read before, in their order and as they were recorded. An event is missing only if the disk refused its line. -/
theorem events_after_recording (hlog : s.LogHas h.disk prior) (hwhole : Whole prior) (es : List Event) :
    ∃ h', es.forM s.record h = (.ok (), h') ∧
      s.LogHas h'.disk (prior ++ String.join ((s.taken es h).map eventLine)) ∧
      s.events h'.disk = .ok (eventsOf prior ++ s.taken es h) ∧
      (h.troubles = [] → s.events h'.disk = .ok (eventsOf prior ++ es)) := by
  obtain ⟨h', hrun, hlog'⟩ := logHas_forM_record hlog es
  have hevents := events_of_logHas hlog'
  rw [eventsOf_append_lines hwhole] at hevents
  refine ⟨h', hrun, hlog', hevents, fun hcalm => ?_⟩
  rwa [taken_of_calm hlog hcalm] at hevents

/-- Behind a malformed line, a blank one and one that ends in a carriage return, and in a store that has no log yet, two
    events are recorded that have line ends in their names. -/
theorem events_after_recording_pushes :
    let s : Store := ⟨"/depot"⟩
    let prior := "oops\n\n \r\n"
    let start (d : List (Place × Node)) : Host := .start ⟨(["depot"], .folder) :: d, []⟩ (fun _ => .epoch) (fun _ => "") .cut
    let h := start [(["depot", "events.jsonl"], .file (Bytes.ofText prior))]
    let e₁ : Event := ⟨"0", "line\nline\r", .epoch⟩
    let e₂ : Event := ⟨"1", "\"", .epoch⟩
    (s.LogHas h.disk prior ∧ Whole prior ∧
      ∃ h', [e₁, e₂].forM s.record h = (.ok (), h') ∧ s.events h'.disk = .ok [e₁, e₂]) ∧
    s.LogHas (start []).disk "" ∧ Whole "" ∧
      ∃ h', [e₁, e₂].forM s.record (start []) = (.ok (), h') ∧ s.events h'.disk = .ok [e₁, e₂] := by
  intro s prior start h e₁ e₂
  have hlog : s.LogHas h.disk prior := Or.inl (by decide +kernel)
  have hwhole : Whole prior := Or.inr (by decide)
  have hprior : eventsOf prior = [] := List.isEmpty_iff.mp (by decide +kernel)
  have hlog' : s.LogHas (start []).disk "" :=
    Or.inr ⟨by decide +kernel, rfl, logOpens_of_isFolder (by decide +kernel) (by decide)⟩
  obtain ⟨h', hrun, -, -, hevents⟩ := events_after_recording hlog hwhole [e₁, e₂]
  obtain ⟨h'', hrun', -, -, hevents'⟩ := events_after_recording hlog' (Or.inl rfl) [e₁, e₂]
  rw [hprior] at hevents
  exact ⟨⟨hlog, hwhole, h', hrun, hevents rfl⟩, hlog', Or.inl rfl, h'', hrun', hevents' rfl⟩

end Store
end Depot
