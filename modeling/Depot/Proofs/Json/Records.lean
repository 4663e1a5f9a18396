import Depot.Json.Record
import Mathlib.Data.List.Basic

/-! What is written as a dictionary or as the fields of a record is read back, field by field. -/

namespace Depot

/-! ### Dictionaries -/

namespace Dictionary

theorem putEntry_of_notMem {key : String} (value : String) {es : List (String × String)} (h : key ∉ es.map Prod.fst) :
    putEntry key value es = es ++ [(key, value)] := by
  induction es with
  | nil => rfl
  | cons e es ih =>
    rw [List.map_cons, List.mem_cons, not_or] at h
    rw [putEntry, if_neg (Ne.symm h.1), ih h.2, List.cons_append]

/-- Entries under new keys are put at the end. -/
theorem entries_foldl_insert (l : List (String × String)) (d : Dictionary)
    (h : ((d.entries ++ l).map Prod.fst).Nodup) :
    (l.foldl (fun d e => d.insert e.1 e.2) d).entries = d.entries ++ l := by
  induction l generalizing d with
  | nil => simp
  | cons e l ih =>
    have hnew : e.1 ∉ d.entries.map Prod.fst := by
      rw [List.map_append, List.nodup_append] at h
      exact fun hmem => h.2.2 _ hmem e.1 (by simp) rfl
    have hentries : (d.insert e.1 e.2).entries = d.entries ++ [e] := putEntry_of_notMem e.2 hnew
    rw [List.foldl_cons, ih, hentries]
    · simp
    · rw [hentries]
      simpa using h

theorem ofList_entries (d : Dictionary) : ofList d.entries = d :=
  Dictionary.ext ((entries_foldl_insert d.entries empty d.nodup_keys).trans (List.nil_append _))

end Dictionary

@[simp] theorem Json.dictionary?_ofDictionary (d : Dictionary) : (Json.ofDictionary d).dictionary? = some d := by
  have hentries : (d.entries.map fun e => ((some e.1, Json.ofText e.2) : Option String × Json)).mapM
      (fun m => m.1.bind fun k => m.2.text?.map fun v => (k, v)) = some d.entries := by
    induction d.entries with
    | nil => rfl
    | cons e es ih =>
      rw [List.map_cons, List.mapM_cons, ih]
      rfl
  rw [Json.ofDictionary, Json.dictionary?, hentries, Option.map_some, Dictionary.ofList_entries]

/-! ### Fields that were written -/

namespace Json

/-- The members that fields are written as. -/
def membersOf (fields : List (String × Option Json)) : List (Option String × Json) :=
  fields.filterMap fun f => f.2.map fun v => (some f.1, v)

/-- What was written under a name. -/
def written (fields : List (String × Option Json)) (name : String) : Option Json :=
  (fields.lookup name).join

/-- The record that is read from `ofFields fields`. -/
def recordOf (fields : List (String × Option Json)) : Record :=
  ⟨false, (fields.map Prod.fst).filterMap fun name => (written fields name).map fun v => (name, v)⟩

variable {fields : List (String × Option Json)}

theorem membersOf_cons (name : String) (v : Option Json) :
    membersOf ((name, v) :: fields) = (v.map fun v => (some name, v)).toList ++ membersOf fields := by
  cases v <;> rfl

theorem written_cons (other name : String) (v : Option Json) :
    written ((other, v) :: fields) name = if name = other then v else written fields name := by
  rw [written, List.lookup_cons]
  split <;> simp_all [written]

theorem written_of_notMem {name : String} (h : name ∉ fields.map Prod.fst) : written fields name = none := by
  induction fields with
  | nil => rfl
  | cons f fields ih =>
    rw [List.map_cons, List.mem_cons, not_or] at h
    rw [written_cons, if_neg h.1, ih h.2]

theorem filter_membersOf (h : (fields.map Prod.fst).Nodup) (name : String) :
    (membersOf fields).filter (fun m => m.1 = some name) = ((written fields name).map fun v => (some name, v)).toList := by
  induction fields with
  | nil => rfl
  | cons f fields ih =>
    obtain ⟨other, v⟩ := f
    obtain ⟨hnew, hrest⟩ := List.nodup_cons.mp h
    rw [membersOf_cons, written_cons, List.filter_append, ih hrest]
    by_cases heq : name = other
    · subst heq
      rw [if_pos rfl, written_of_notMem hnew]
      cases v <;> simp
    · rw [if_neg heq]
      cases v <;> simp [Ne.symm heq]

theorem fieldNamed_membersOf (h : (fields.map Prod.fst).Nodup) (name : String) :
    fieldNamed (membersOf fields) name = some ((written fields name).map fun v => (name, v)) := by
  rw [fieldNamed, filter_membersOf h]
  cases written fields name <;> rfl

/-- Fields under different names are all found again. -/
theorem record?_ofFields {names : List String} (hnames : fields.map Prod.fst = names) (h : names.Nodup) :
    (ofFields fields).record? names = some (recordOf fields) := by
  subst hnames
  have hall : (membersOf fields).all (·.1.isSome) = true := by
    simp only [membersOf, List.all_eq_true, List.mem_filterMap, Option.map_eq_some_iff]
    rintro _ ⟨f, -, v, -, rfl⟩
    rfl
  have hfields : (fields.map Prod.fst).mapM (fieldNamed (membersOf fields)) =
      some ((fields.map Prod.fst).map fun name => (written fields name).map fun v => (name, v)) := by
    rw [funext (fieldNamed_membersOf h)]
    exact List.mapM_pure
  rw [ofFields, record?, ← membersOf, if_pos hall, hfields, Option.map_some, List.filterMap_map]
  rfl

/-- What is read from the fields that were written is read from the document of them. -/
theorem record?_bind_eq_some {α : Type} {names : List String} {read : Record → Option α} {a : α}
    (hnames : fields.map Prod.fst = names) (h : names.Nodup) (hread : read (recordOf fields) = some a) :
    ((ofFields fields).record? names).bind read = some a := by
  rw [record?_ofFields hnames h, Option.bind_some, hread]

/-- The names that are asked for decide nothing else. -/
theorem lookup_filterMap_written (names : List String) (name : String) :
    (names.filterMap fun n => (written fields n).map fun v => (n, v)).lookup name =
      if name ∈ names then written fields name else none := by
  induction names with
  | nil => rfl
  | cons n names ih =>
    by_cases heq : name = n
    · subst heq
      cases hv : written fields name with
      | none => simp [hv, ih]
      | some v => simp [hv]
    · have hne : (name == n) = false := beq_false_of_ne heq
      cases hv : written fields n <;> simp [hv, hne, heq, ih, List.lookup_cons]

theorem lookup_recordOf (name : String) : (recordOf fields).fields.lookup name = written fields name := by
  rw [recordOf, lookup_filterMap_written, ite_eq_left_iff]
  exact fun h => (written_of_notMem h).symm

/-- A field that may be left out, as an object has it. -/
def optionally {α : Type} (read : Json → Option α) : Option Json → Option (Option α)
  | some .null => some none
  | some v => (read v).map some
  | none => some none

/-- A value that may be absent is read back, present or not. -/
theorem optionally_map {α : Type} {read : Json → Option α} {write : α → Json} (hread : ∀ a, read (write a) = some a)
    (hnull : ∀ a, write a ≠ .null) (a : Option α) : optionally read (a.map write) = some a := by
  cases a with
  | none => rfl
  | some a =>
    have hne := hnull a
    have ha := hread a
    rw [Option.map_some]
    generalize write a = v at hne ha
    cases v <;> first | exact absurd rfl hne | exact congrArg (Option.map some) ha

@[simp] theorem optionally_text (a : Option String) : optionally text? (a.map ofText) = some a :=
  optionally_map text?_ofText (fun _ => nofun) a

/-- The same of a text that is written as `null` when it is absent. -/
@[simp] theorem optionally_textOrNull (a : Option String) : optionally text? (some (a.elim .null ofText)) = some a := by
  cases a <;> rfl

@[simp] theorem optionally_texts (a : Option (List String)) : optionally texts? (a.map ofTexts) = some a :=
  optionally_map texts?_ofTexts (fun _ => nofun) a

@[simp] theorem optionally_dictionary (a : Option Dictionary) : optionally dictionary? (a.map ofDictionary) = some a :=
  optionally_map dictionary?_ofDictionary (fun _ => nofun) a

section
variable {α : Type} (name : String) (read : Json → Option α)

@[simp] theorem required_recordOf : (recordOf fields).required name read = (written fields name).bind read := by
  rw [Record.required, lookup_recordOf]

@[simp] theorem withDefault_recordOf (default : α) :
    (recordOf fields).withDefault name default read = (written fields name).elim (some default) read := by
  rw [Record.withDefault, lookup_recordOf]
  cases written fields name <;> rfl

@[simp] theorem optional_recordOf : (recordOf fields).optional name read = optionally read (written fields name) := by
  rw [Record.optional, lookup_recordOf]
  rcases written fields name with _ | v
  · rfl
  · cases v <;> rfl

end

/-! ### Bounded integers, in the form in which the bounds are evaluated -/

@[simp] theorem integer?_uint64 (n : UInt64) : integer? 0 18446744073709551615 (.integer n.toNat) = some (n.toNat : Int) := by
  have := n.toNat_lt
  exact if_pos (by omega)

@[simp] theorem integer?_int32 (n : Int32) :
    integer? (-2147483648) Int32.maxValue.toInt (.integer n.toInt) = some n.toInt :=
  if_pos ⟨n.minValue_le_toInt, n.toInt_le⟩

@[simp] theorem integer?_int64 (n : Int64) :
    integer? (-9223372036854775808) Int64.maxValue.toInt (.integer n.toInt) = some n.toInt :=
  if_pos ⟨n.minValue_le_toInt, n.toInt_le⟩

@[simp] theorem choice?_ofText (s : String) : (ofText s).choice? = some s := rfl

end Json

end Depot
