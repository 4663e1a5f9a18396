import Depot.Push
import Mathlib.Data.List.Forall2

/-! What a push leaves behind. Every call of the copy engine leaves one event in the record, in the order of
    the calls and whatever comes of it; a step that fails before the engine is asked leaves nothing, and the
    first failure ends the push. So the engine is only asked when, on the disk as it finds it, the image is there
    and goes where the push may take it.

    The calls of an engine cannot be seen in the state that it works on. `noting` gives the engine a state with a
    list of them; the push of one image and the push of all tags end the same with it as without. -/

namespace Depot

/-- A call of a copy engine: what it was asked for, the disk as the engine found it, and how it ended. -/
structure EngineCall where
  job : CopyJob
  disk : Disk
  result : Except Error Bytes

/-- The copy was made. -/
def EngineCall.Succeeded (c : EngineCall) : Prop := ∃ manifest, c.result = .ok manifest

/-- The engine with a list of its calls, oldest first, in its state. -/
def Engine.noting {τ : Type} (e : Engine τ) : Engine (τ × List EngineCall) := fun job s =>
  match e job (s.1, s.2.1) with
  | (r, s') => (r, (s'.1, (s'.2, s.2.2 ++ [⟨job, s.1.disk, r⟩])))

/-- The state of a push whose engine has made some calls. -/
def PushState.noting {τ : Type} (t : PushState τ) (calls : List EngineCall) : PushState (τ × List EngineCall) :=
  ⟨t.host, (t.engine, calls), t.recorded⟩

namespace Pusher
variable {τ : Type} {p : Pusher τ} {t : PushState τ} {image : LocalImage} {text base : String} {options : PushOptions}

/-- The pusher with its record elsewhere. -/
def recordingIn (p : Pusher τ) (sink : Sink) : Pusher τ := { p with sink }

/-- The pusher that records in memory. -/
def inMemory (p : Pusher τ) : Pusher τ := p.recordingIn .memory

/-- The pusher whose engine notes its calls. -/
def noting (p : Pusher τ) : Pusher (τ × List EngineCall) where
  lookup := p.lookup
  transports := p.transports
  defaultTransport := p.defaultTransport
  engine := p.engine.noting
  sink := p.sink

/-! ### One image to one destination -/

/-- An event tells of a call that copied an image: it carries the id of the image and the text that denotes
    the destination of the call. When the engine was asked, nothing stood against the copy: the image was on the
    disk, and a push under every tag had a registry before it. -/
structure Tells (p : Pusher τ) (image : LocalImage) (options : PushOptions) (call : EngineCall) (event : Event) : Prop where
  id : event.id = image.id
  source : call.job.source.id = image.id
  destination : p.destinationOf event.name = .ok call.job.destination
  there : call.disk.exists? (image.store.imageFolder image.id) = true
  allowed : options.allTags = true → call.job.destination.transport = .docker
  begun : p.jobFor call.disk image event.name options = .ok call.job

/-- What a copy needs in order to be begun. -/
theorem jobFor_eq_ok {d : Disk} {job : CopyJob} (h : p.jobFor d image text options = .ok job) :
    image.source d = .ok job.source ∧ p.destinationOf text = .ok job.destination ∧
      (options.allTags = true → job.destination.transport = .docker) := by
  unfold jobFor at h
  split at h
  · cases h
  · next source hsource =>
    split at h
    · cases h
    · next destination hdest =>
      split at h
      · cases h
      · next hallowed =>
        cases h
        exact ⟨hsource, hdest, fun hall => Decidable.of_not_not fun hne => hallowed ⟨hall, hne⟩⟩

theorem source_eq_ok {d : Disk} {source : Source} (h : image.source d = .ok source) :
    d.exists? (image.store.imageFolder image.id) = true ∧ source.id = image.id := by
  unfold LocalImage.source at h
  split at h
  · next hthere =>
    cases h
    exact ⟨hthere, rfl⟩
  · cases h

theorem tells_of_jobFor {d : Disk} {job : CopyJob} (h : p.jobFor d image text options = .ok job)
    (r : Except Error Bytes) (time : Instant) : p.Tells image options ⟨job, d, r⟩ ⟨image.id, text, time⟩ := by
  obtain ⟨hsource, hdest, hallowed⟩ := jobFor_eq_ok h
  obtain ⟨hthere, hid⟩ := source_eq_ok hsource
  exact ⟨rfl, hid, hdest, hthere, hallowed, h⟩

/-- The state in which the engine is asked: the clock has been read. -/
def asked (t : PushState τ) : PushState τ :=
  { t with host := { t.host with readings := t.host.readings + 1 } }

theorem pushImage_eq (t : PushState τ) (image : LocalImage) (text : String) (options : PushOptions) :
    p.pushImage image text options t =
      (Act.ofExcept (p.jobFor t.host.disk image text options) >>= fun job =>
        onHost Host.now >>= fun time => (p.runEngine job).attempt >>= fun result =>
          p.record ⟨image.id, text, time⟩ >>= fun _ => Act.ofExcept result) t := by
  rw [pushImage]
  rfl

theorem pushImage_of_refused {e : Error} (h : p.jobFor t.host.disk image text options = .error e) :
    p.pushImage image text options t = (.error e, t) := by
  rw [pushImage_eq, h]
  rfl

/-- A copy that is begun is recorded with the time at which it began, and ends as the engine says. -/
theorem pushImage_of_begun {job : CopyJob} (hjob : p.jobFor t.host.disk image text options = .ok job) :
    p.pushImage image text options t = (p.record ⟨image.id, text, t.host.clock t.host.readings⟩ >>= fun _ =>
      Act.ofExcept (p.runEngine job (asked t)).1) (p.runEngine job (asked t)).2 := by
  rw [pushImage_eq, hjob]
  rfl

theorem storeRecord_ok (s : Store) (event : Event) (h : Host) : s.record event h = (.ok (), (s.record event h).2) := by
  unfold Store.record
  rw [Act.bind_of_ok (Act.attempt_apply _ _)]
  rfl

/-- Recording never fails, and the engine has no part in it. -/
theorem record_noting (p : Pusher τ) (event : Event) (t : PushState τ) : ∃ t', p.record event t = (.ok (), t') ∧
    (p.sink = .memory → t'.recorded = t.recorded ++ [event]) ∧
    ∀ calls, p.noting.record event (t.noting calls) = (.ok (), t'.noting calls) := by
  rcases p with ⟨lookup, transports, default, engine, _ | store | _⟩
  · exact ⟨t, rfl, nofun, fun _ => rfl⟩
  · have hok := storeRecord_ok store event t.host
    refine ⟨{ t with host := (store.record event t.host).2 }, ?_, nofun, fun calls => ?_⟩
    · show onHost (store.record event) t = _
      unfold onHost Act.within
      rw [hok]
    · show onHost (store.record event) (t.noting calls) = _
      unfold onHost Act.within PushState.noting
      dsimp only
      rw [hok]
  · exact ⟨{ t with recorded := t.recorded ++ [event] }, rfl, fun _ => rfl, fun _ => rfl⟩

/-- The two ends of a push to one destination, with the calls that are made on the way: it is refused, or the engine is
    asked once, of which an event tells, and the push ends as the engine does. -/
theorem pushImage_cases (p : Pusher τ) (sink : Sink) (t : PushState τ) (image : LocalImage) (text : String)
    (options : PushOptions) :
    (∃ e, p.jobFor t.host.disk image text options = .error e ∧
      (p.recordingIn sink).pushImage image text options t = (.error e, t) ∧
      ∀ calls, (p.recordingIn sink).noting.pushImage image text options (t.noting calls) = (.error e, t.noting calls)) ∨
    ∃ call event t', call.disk = t.host.disk ∧ event.name = text ∧ p.Tells image options call event ∧
      (sink = .memory → t'.recorded = t.recorded ++ [event]) ∧
      (p.recordingIn sink).pushImage image text options t = (call.result, t') ∧
      ∀ calls, (p.recordingIn sink).noting.pushImage image text options (t.noting calls) =
        (call.result, t'.noting (calls ++ [call])) := by
  cases hjob : p.jobFor t.host.disk image text options with
  | error e =>
    refine Or.inl ⟨e, rfl, pushImage_of_refused hjob, fun calls => ?_⟩
    exact pushImage_of_refused (p := (p.recordingIn sink).noting) (t := t.noting calls) hjob
  | ok job =>
    have hbegun := pushImage_of_begun (p := p.recordingIn sink) hjob
    obtain ⟨t', hrecord, hrecorded, hnoted⟩ := (p.recordingIn sink).record_noting
      ⟨image.id, text, t.host.clock t.host.readings⟩ (p.runEngine job (asked t)).2
    refine Or.inr ⟨⟨job, t.host.disk, (p.runEngine job (asked t)).1⟩, ⟨image.id, text, t.host.clock t.host.readings⟩, t', rfl,
      rfl, tells_of_jobFor hjob _ _, hrecorded, hbegun.trans (Act.bind_of_ok hrecord), fun calls => ?_⟩
    exact (pushImage_of_begun (p := (p.recordingIn sink).noting) (t := t.noting calls) hjob).trans (Act.bind_of_ok (hnoted _))

/-! ### One image under several tags -/

/-- The destination of a push to a repository under a tag. -/
abbrev underTag (base : String) (tag : Tagged) : String := base ++ ":" ++ tag.tag

/-- How a push under several tags ends, when `rest` are the tags under which no copy was begun and `d` is the
    disk at the end: after the last tag, with the failure of the last copy, or with what kept the next copy
    from being begun. -/
inductive Ends (p : Pusher τ) (image : LocalImage) (base : String) (options : PushOptions) (d : Disk)
    (rest : List Tagged) : List EngineCall → Except Error Unit → Prop
  | done {calls : List EngineCall} (hrest : rest = []) (hcalls : ∀ c ∈ calls, c.Succeeded) :
      Ends p image base options d rest calls (.ok ())
  | copyFailed {calls : List EngineCall} {job : CopyJob} {found : Disk} {e : Error} (hcalls : ∀ c ∈ calls, c.Succeeded) :
      Ends p image base options d rest (calls ++ [⟨job, found, .error e⟩]) (.error e)
  | refused {calls : List EngineCall} {tag : Tagged} {later : List Tagged} {e : Error}
      (hrest : rest = tag :: later) (hcalls : ∀ c ∈ calls, c.Succeeded)
      (hjob : p.jobFor d image (underTag base tag) options = .error e) :
      Ends p image base options d rest calls (.error e)

/-- A copy that was made before the others does not change how they end. -/
theorem Ends.cons {d : Disk} {rest : List Tagged} {calls : List EngineCall} {r : Except Error Unit} {c : EngineCall}
    (hc : c.Succeeded) (h : p.Ends image base options d rest calls r) : p.Ends image base options d rest (c :: calls) r := by
  have all : ∀ {l : List EngineCall}, (∀ x ∈ l, x.Succeeded) → ∀ x ∈ c :: l, x.Succeeded := fun hl x hx => by
    rcases List.mem_cons.mp hx with rfl | hx
    · exact hc
    · exact hl x hx
  cases h with
  | done hrest hcalls => exact .done hrest (all hcalls)
  | copyFailed hcalls => exact .copyFailed (all hcalls)
  | refused hrest hcalls hjob => exact .refused hrest (all hcalls) hjob

theorem pushTags_of_error {tag : Tagged} {tags : List Tagged} {e : Error} {t' : PushState τ}
    (h : p.pushImage image (underTag base tag) options t = (.error e, t')) :
    p.pushTags image base options (tag :: tags) t = (.error e, t') := by
  exact Act.bind_of_error h

theorem pushTags_of_ok {tag : Tagged} {tags : List Tagged} {manifest : Bytes} {t' : PushState τ}
    (h : p.pushImage image (underTag base tag) options t = (.ok manifest, t')) :
    p.pushTags image base options (tag :: tags) t = p.pushTags image base options tags t' := by
  exact Act.bind_of_ok h

/-- A push under several tags begins a copy for each tag of an initial segment, in order. -/
theorem pushTags_cases (p : Pusher τ) (sink : Sink) (image : LocalImage) (base : String) (options : PushOptions)
    (tags : List Tagged) (t : PushState τ) :
    ∃ begun rest calls events r t', tags = begun ++ rest ∧ events.map Event.name = begun.map (underTag base) ∧
      List.Forall₂ (p.Tells image options) calls events ∧ (sink = .memory → t'.recorded = t.recorded ++ events) ∧
      p.Ends image base options t'.host.disk rest calls r ∧
      (p.recordingIn sink).pushTags image base options tags t = (r, t') ∧
      ∀ before, (p.recordingIn sink).noting.pushTags image base options tags (t.noting before) =
        (r, t'.noting (before ++ calls)) := by
  -- The copy for the first tag decides whether there is another one.
  induction tags generalizing t with
  | nil =>
    refine ⟨[], [], [], [], .ok (), t, rfl, rfl, .nil, by simp, .done rfl (by simp), rfl, fun before => ?_⟩
    rw [List.append_nil]
    rfl
  | cons tag tags ih =>
    rcases pushImage_cases p sink t image (underTag base tag) options with
      ⟨e, hjob, hrun, hnoted⟩ | ⟨⟨job, found, e | manifest⟩, event, t₁, -, hname, htells, hrec, hrun, hnoted⟩
    · refine ⟨[], tag :: tags, [], [], .error e, t, rfl, rfl, .nil, by simp, .refused rfl (by simp) hjob, ?_,
        fun before => ?_⟩
      · exact pushTags_of_error hrun
      · rw [List.append_nil]
        exact pushTags_of_error (hnoted before)
    · refine ⟨[tag], tags, [⟨job, found, .error e⟩], [event], .error e, t₁, rfl, by simp [hname], .cons htells .nil, hrec,
        .copyFailed (List.forall_mem_nil _), ?_, fun before => ?_⟩
      · exact pushTags_of_error hrun
      · exact pushTags_of_error (hnoted before)
    · obtain ⟨begun, rest, calls, events, r, t', htags, hnames, hall, hrec', hends, hrun', hnoted'⟩ := ih t₁
      refine ⟨tag :: begun, rest, ⟨job, found, .ok manifest⟩ :: calls, event :: events, r, t', by rw [htags]; rfl,
        by simp [hname, hnames], .cons htells hall, fun hsink => ?_, hends.cons ⟨manifest, rfl⟩, ?_, fun before => ?_⟩
      · rw [hrec' hsink, hrec hsink, List.append_assoc]
        rfl
      · exact (pushTags_of_ok hrun).trans hrun'
      · rw [List.append_cons]
        exact (pushTags_of_ok (hnoted before)).trans (hnoted' _)

/-- The calls that events tell of are for the tags that the events name. -/
theorem forall₂_begun {begun : List Tagged} {calls : List EngineCall} {events : List Event}
    (hnames : events.map Event.name = begun.map (underTag base)) (htells : List.Forall₂ (p.Tells image options) calls events) :
    List.Forall₂ (fun tag call => p.jobFor call.disk image (underTag base tag) options = .ok call.job) begun calls := by
  induction htells generalizing begun with
  | nil =>
    obtain rfl := List.map_eq_nil_iff.mp hnames.symm
    exact .nil
  | cons htells _ ih =>
    obtain ⟨tag, begun, rfl, hname, hrest⟩ := List.map_eq_cons_iff.mp hnames.symm
    exact .cons (hname ▸ htells.begun) (ih hrest.symm)

/-! ### Whole pushes -/

/-- How a push to one destination ends, when `d` is the disk at the beginning: with what keeps the copy from
    being begun, or as the only call does. -/
inductive EndsSingle (p : Pusher τ) (image : LocalImage) (text : String) (options : PushOptions) (d : Disk) :
    List EngineCall → Except Error (Option Bytes) → Prop
  | refused {e : Error} (hjob : p.jobFor d image text options = .error e) :
      EndsSingle p image text options d [] (.error e)
  | copied {job : CopyJob} {r : Except Error Bytes} (hjob : p.jobFor d image text options = .ok job) :
      EndsSingle p image text options d [⟨job, d, r⟩] (r.map some)

/-- How a push under every tag of an image ends, when `d` is the disk at the end: with a destination that has
    a tag already, with names that cannot be read, or as the push under the tags of the image does, where for each
    tag of an initial segment a copy was begun that nothing stood against. The last list is that of the destinations
    for which a copy was begun. -/
inductive EndsAllTags (p : Pusher τ) (image : LocalImage) (base : String) (options : PushOptions) (d : Disk) :
    List EngineCall → List String → Except Error (Option Bytes) → Prop
  | conflicting (hcolon : hasColon base = true) :
      EndsAllTags p image base options d [] [] (.error (.conflictingTag base))
  | unreadable {e : Error} (hcolon : hasColon base = false) (htags : image.taggedNames = .error e) :
      EndsAllTags p image base options d [] [] (.error e)
  | tags {begun rest : List Tagged} {calls : List EngineCall} {r : Except Error Unit} (hcolon : hasColon base = false)
      (htags : image.taggedNames = .ok (begun ++ rest))
      (hbegun : List.Forall₂ (fun tag call => p.jobFor call.disk image (underTag base tag) options = .ok call.job) begun calls)
      (hends : p.Ends image base options d rest calls r) :
      EndsAllTags p image base options d calls (begun.map (underTag base)) (r.map fun _ => none)

/-- The destination of a push: the one that was asked for, or the name under which the image was found. -/
def pushedName (destination name : String) : String := if destination = "" then name else destination

theorem push_of_not_found {source destination : String} {e : Error} (h : p.lookup t.host.disk source = .error e) :
    p.push source destination options t = (.error e, t) := by
  have hlookup : Act.ofExcept (p.lookup t.host.disk source) t = (.error e, t) := by rw [h]; rfl
  show (Act.ofExcept (p.lookup t.host.disk source) >>= _) t = _
  exact Act.bind_of_error hlookup

theorem push_of_found {source name : String} (destination : String) (options : PushOptions)
    (h : p.lookup t.host.disk source = .ok (image, name)) :
    p.push source destination options t =
      (if options.allTags then
        (p.pushAllTags image (pushedName destination name) options >>= fun _ => pure none)
      else
        (p.pushImage image (pushedName destination name) options >>= fun m => pure (some m))
          : Act (PushState τ) (Option Bytes)) t := by
  have hlookup : Act.ofExcept (p.lookup t.host.disk source) t = (.ok (image, name), t) := by rw [h]; rfl
  show (Act.ofExcept (p.lookup t.host.disk source) >>= _) t = _
  rw [Act.bind_of_ok hlookup]
  rfl

theorem pushAllTags_of_colon (h : hasColon base = true) :
    p.pushAllTags image base options t = (.error (.conflictingTag base), t) := by
  unfold pushAllTags
  rw [if_pos h]
  rfl

theorem pushAllTags_of_unreadable {e : Error} (h : hasColon base = false) (htags : image.taggedNames = .error e) :
    p.pushAllTags image base options t = (.error e, t) := by
  unfold pushAllTags
  rw [h, if_neg Bool.false_ne_true, htags]
  rfl

theorem pushAllTags_of_tags {tags : List Tagged} (h : hasColon base = false) (htags : image.taggedNames = .ok tags) :
    p.pushAllTags image base options t = p.pushTags image base options tags t := by
  unfold pushAllTags
  rw [h, if_neg Bool.false_ne_true, htags]
  rfl

/-- A push under every tag begins no copy, or one for each tag of an initial segment of the image's tags. -/
theorem pushAllTags_cases (p : Pusher τ) (image : LocalImage) (base : String) (options : PushOptions)
    (t : PushState τ) :
    ∃ calls events r t', List.Forall₂ (p.Tells image options) calls events ∧ t'.recorded = t.recorded ++ events ∧
      p.EndsAllTags image base options t'.host.disk calls (events.map Event.name) r ∧
      (p.inMemory.pushAllTags image base options >>= fun _ => pure none) t = (r, t') ∧
      ∀ before, (p.inMemory.noting.pushAllTags image base options >>= fun _ => pure none) (t.noting before) =
        (r, t'.noting (before ++ calls)) := by
  cases hcolon : hasColon base with
  | true =>
    refine ⟨[], [], _, t, .nil, by simp, .conflicting hcolon, Act.bind_of_error (pushAllTags_of_colon hcolon),
      fun before => ?_⟩
    rw [List.append_nil]
    exact Act.bind_of_error (pushAllTags_of_colon hcolon)
  | false =>
    cases htags : image.taggedNames with
    | error e =>
      refine ⟨[], [], _, t, .nil, by simp, .unreadable hcolon htags,
        Act.bind_of_error (pushAllTags_of_unreadable hcolon htags), fun before => ?_⟩
      rw [List.append_nil]
      exact Act.bind_of_error (pushAllTags_of_unreadable hcolon htags)
    | ok tags =>
      obtain ⟨begun, rest, calls, events, r, t', rfl, hnames, htells, hrec, hends, hrun, hnoted⟩ :=
        pushTags_cases p .memory image base options tags t
      have hrun' := (pushAllTags_of_tags hcolon htags).trans hrun
      have hnoted' := fun before => (pushAllTags_of_tags hcolon htags).trans (hnoted before)
      refine ⟨calls, events, r.map fun _ => none, t', htells, hrec rfl, ?_, ?_, fun before => ?_⟩
      · rw [hnames]
        exact .tags hcolon htags (forall₂_begun hnames htells) hends
      · exact Act.bind_pure_of _ hrun'
      · exact Act.bind_pure_of _ (hnoted' before)

/-- The record of a push tells of the calls of its engine, one by one and in order. When the image is not
    found there are none; otherwise the push ends as `EndsSingle` or `EndsAllTags` say. -/
theorem push_record_tells_calls (p : Pusher τ) (source destination : String) (options : PushOptions)
    (t : PushState τ) :
    ∃ calls events r t', p.inMemory.push source destination options t = (r, t') ∧
      (∀ before, p.inMemory.noting.push source destination options (t.noting before) = (r, t'.noting (before ++ calls))) ∧
      t'.recorded = t.recorded ++ events ∧
      (∀ e, p.lookup t.host.disk source = .error e → r = .error e ∧ calls = [] ∧ events = []) ∧
      ∀ image name, p.lookup t.host.disk source = .ok (image, name) →
        List.Forall₂ (p.Tells image options) calls events ∧
        (options.allTags = false → events.map Event.name = calls.map (fun _ => pushedName destination name) ∧
          p.EndsSingle image (pushedName destination name) options t.host.disk calls r) ∧
        (options.allTags = true → p.EndsAllTags image (pushedName destination name) options t'.host.disk calls
          (events.map Event.name) r) := by
  -- Each case is run twice: as it is, and with an engine that notes its calls.
  cases hlookup : p.lookup t.host.disk source with
  | error e =>
    refine ⟨[], [], .error e, t, push_of_not_found hlookup, fun before => ?_, by simp, ?_, by simp⟩
    · rw [List.append_nil]
      exact push_of_not_found (p := p.inMemory.noting) (t := t.noting before) hlookup
    · rintro _ ⟨⟩
      exact ⟨rfl, rfl, rfl⟩
  | ok found =>
    obtain ⟨image, name⟩ := found
    have hrun := push_of_found (p := p.inMemory) destination options hlookup
    have hnoted := fun before => push_of_found (p := p.inMemory.noting) (t := t.noting before) destination options
      hlookup
    cases hall : options.allTags with
    | true =>
      simp only [hall, if_true] at hrun hnoted
      obtain ⟨calls, events, r, t', htells, hrec, hends, hrun', hnoted'⟩ :=
        pushAllTags_cases p image (pushedName destination name) options t
      refine ⟨calls, events, r, t', hrun.trans hrun', fun before => (hnoted before).trans (hnoted' before), hrec,
        by simp, ?_⟩
      rintro _ _ ⟨⟩
      exact ⟨htells, by simp, fun _ => hends⟩
    | false =>
      simp only [hall, Bool.false_eq_true, if_false] at hrun hnoted
      rcases pushImage_cases p .memory t image (pushedName destination name) options with
        ⟨e, hjob, hrun', hnoted'⟩ | ⟨⟨job, found, r⟩, event, t', rfl, hname, htells, hrec, hrun', hnoted'⟩
      · refine ⟨[], [], .error e, t, hrun.trans (Act.bind_of_error hrun'), fun before => ?_, by simp, by simp, ?_⟩
        · rw [List.append_nil]
          exact (hnoted before).trans (Act.bind_of_error (hnoted' before))
        · rintro _ _ ⟨⟩
          exact ⟨.nil, fun _ => ⟨rfl, .refused hjob⟩, by simp⟩
      · refine ⟨[⟨job, t.host.disk, r⟩], [event], r.map some, t', ?_, fun before => ?_, hrec rfl, by simp, ?_⟩
        · exact hrun.trans (Act.bind_pure_of some hrun')
        · exact (hnoted before).trans (Act.bind_pure_of some (hnoted' before))
        · rintro _ _ ⟨⟩
          exact ⟨.cons htells .nil, fun _ => ⟨by rw [← hname]; rfl, .copied (hname ▸ htells.begun)⟩, by simp⟩

end Pusher
end Depot
