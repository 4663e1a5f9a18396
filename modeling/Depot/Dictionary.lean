/-!
Dictionaries from texts to texts, kept as a list of entries in the order in which their keys were
first given. A key occurs once, so looking up, inserting and erasing follow the laws below.
-/
namespace Depot

/-- Entries with distinct keys. -/
structure Dictionary where
  entries : List (String × String)
  nodup_keys : (entries.map Prod.fst).Nodup

namespace Dictionary

def empty : Dictionary := ⟨[], by simp⟩

def get? (d : Dictionary) (key : String) : Option String :=
  d.entries.lookup key

/-- The entries with the value under `key` changed, in place if the key is there and else at the end. -/
def putEntry (key value : String) : List (String × String) → List (String × String)
  | [] => [(key, value)]
  | e :: es => if e.1 = key then (key, value) :: es else e :: putEntry key value es

theorem keys_putEntry (key value : String) (es : List (String × String)) :
    (putEntry key value es).map Prod.fst =
      if key ∈ es.map Prod.fst then es.map Prod.fst else es.map Prod.fst ++ [key] := by
  induction es with
  | nil => simp [putEntry]
  | cons e es ih =>
    by_cases h : e.1 = key
    · simp [putEntry, h]
    · simp only [putEntry, h, if_false, List.map_cons, ih, List.mem_cons, Ne.symm h, false_or]
      split <;> simp

def insert (d : Dictionary) (key value : String) : Dictionary where
  entries := putEntry key value d.entries
  nodup_keys := by
    rw [keys_putEntry]
    split
    · exact d.nodup_keys
    · next h =>
      rw [List.nodup_append]
      refine ⟨d.nodup_keys, by simp, ?_⟩
      intro a ha b hb hab
      simp only [List.mem_singleton] at hb
      exact h (hb ▸ hab ▸ ha)

def erase (d : Dictionary) (key : String) : Dictionary where
  entries := d.entries.filter fun e => e.1 ≠ key
  nodup_keys := d.nodup_keys.sublist (List.filter_sublist.map Prod.fst)

/-- The dictionary of a list of entries; the last of several values under one key counts. -/
def ofList (l : List (String × String)) : Dictionary :=
  l.foldl (fun d e => d.insert e.1 e.2) empty

def values (d : Dictionary) : List String :=
  d.entries.map Prod.snd

@[ext] theorem ext {d e : Dictionary} (h : d.entries = e.entries) : d = e := by
  cases d; cases e; cases h; rfl

@[simp] theorem get?_empty (key : String) : empty.get? key = none := rfl

theorem lookup_putEntry (key value k : String) (es : List (String × String)) :
    (putEntry key value es).lookup k = if k = key then some value else es.lookup k := by
  induction es with
  | nil =>
    by_cases h : k = key
    · simp [putEntry, h]
    · simp [putEntry, h]
  | cons e es ih =>
    obtain ⟨a, b⟩ := e
    by_cases h : a = key
    · subst h
      by_cases hk : k = a
      · subst hk; simp [putEntry]
      · have : (k == a) = false := by simpa using hk
        simp [putEntry, List.lookup_cons, this, hk]
    · by_cases hk : k = a
      · subst hk; simp [putEntry, h]
      · have : (k == a) = false := by simpa using hk
        simp only [putEntry, h, if_false, List.lookup_cons, this, ih]

@[simp] theorem get?_insert (d : Dictionary) (key value k : String) :
    (d.insert key value).get? k = if k = key then some value else d.get? k :=
  lookup_putEntry key value k d.entries

theorem lookup_filter_ne (key k : String) (es : List (String × String)) :
    (es.filter fun e => e.1 ≠ key).lookup k = if k = key then none else es.lookup k := by
  induction es with
  | nil => simp
  | cons e es ih =>
    obtain ⟨a, b⟩ := e
    by_cases h : a = key
    · subst h
      rw [List.filter_cons_of_neg (by simp), ih]
      by_cases hk : k = a
      · simp [hk]
      · have : (k == a) = false := by simpa using hk
        simp [hk, List.lookup_cons, this]
    · rw [List.filter_cons_of_pos (by simpa using h)]
      by_cases hk : k = a
      · subst hk
        simp [h]
      · have : (k == a) = false := by simpa using hk
        rw [List.lookup_cons, List.lookup_cons, this]
        exact ih

@[simp] theorem get?_erase (d : Dictionary) (key k : String) :
    (d.erase key).get? k = if k = key then none else d.get? k :=
  lookup_filter_ne key k d.entries

theorem lookup_eq_some_iff {es : List (String × String)} (h : (es.map Prod.fst).Nodup) {k v : String} :
    es.lookup k = some v ↔ (k, v) ∈ es := by
  induction es with
  | nil => simp
  | cons e es ih =>
    obtain ⟨a, b⟩ := e
    obtain ⟨hnew, hrest⟩ := List.nodup_cons.mp h
    by_cases hk : k = a
    · subst hk
      have hno : (k, v) ∉ es := fun hmem => hnew (List.mem_map.mpr ⟨(k, v), hmem, rfl⟩)
      simp [hno, eq_comm]
    · have : (k == a) = false := by simpa using hk
      simp [List.lookup_cons, this, hk, ih hrest]

theorem mem_values_iff (d : Dictionary) (v : String) : v ∈ d.values ↔ ∃ k, d.get? k = some v := by
  unfold values get?
  simp only [lookup_eq_some_iff d.nodup_keys, List.mem_map, Prod.exists, exists_eq_right]

end Dictionary
end Depot
