import Depot.Dictionary
import Mathlib.Data.List.Basic
import Mathlib.Data.Option.Basic
import Mathlib.Data.Prod.Basic

/-! Entries that are put into a dictionary one after the other. The last one under a key counts, and a key stays where it was
    first given; so what has been put in can be put in again, and nothing changes. -/

namespace Depot.Dictionary
variable {d e : Dictionary} {l : List (String × String)} {key value k v : String}

/-- The keys, in the order in which they were first given. -/
def keys (d : Dictionary) : List String := d.entries.map Prod.fst

theorem mem_keys_iff : k ∈ d.keys ↔ ∃ v, d.get? k = some v := by
  unfold keys get?
  simp only [lookup_eq_some_iff d.nodup_keys, List.mem_map, Prod.exists, exists_and_right, exists_eq_right]

/-- A dictionary is told by its keys and by what is under them. -/
theorem ext_keys (hkeys : d.keys = e.keys) (hget : ∀ k, d.get? k = e.get? k) : d = e := by
  have hentries (d : Dictionary) : d.entries.map (Prod.map id some) = d.keys.map fun k => (k, d.get? k) := by
    unfold keys
    rw [List.map_map]
    exact List.map_congr_left fun a ha => Prod.ext rfl ((lookup_eq_some_iff d.nodup_keys).mpr ha).symm
  have hinjective := Function.Injective.prodMap (Function.injective_id (α := String)) (Option.some_injective String)
  refine ext (List.map_injective_iff.mpr hinjective ?_)
  rw [hentries, hentries, hkeys, funext hget]

theorem keys_insert_of_mem (hkey : key ∈ d.keys) (value : String) : (d.insert key value).keys = d.keys :=
  (keys_putEntry key value d.entries).trans (if_pos hkey)

/-- What is there already can be put in again. -/
theorem insert_of_get? (h : d.get? key = some value) : d.insert key value = d := by
  refine ext_keys (keys_insert_of_mem (mem_keys_iff.mpr ⟨value, h⟩) value) fun k => ?_
  rw [get?_insert]
  split
  · next heq => rw [heq, h]
  · rfl

/-- The dictionary with entries put in one after the other. -/
def insertAll (d : Dictionary) (l : List (String × String)) : Dictionary := l.foldl (fun d e => d.insert e.1 e.2) d

theorem get?_insertAll (d : Dictionary) (l : List (String × String)) (k : String) :
    (d.insertAll l).get? k = (l.reverse.lookup k).or (d.get? k) := by
  induction l generalizing d with
  | nil => rfl
  | cons a l ih =>
    obtain ⟨key, value⟩ := a
    have hrest : (d.insertAll ((key, value) :: l)).get? k = (l.reverse.lookup k).or ((d.insert key value).get? k) := ih _
    rw [hrest, List.reverse_cons, List.lookup_append, Option.or_assoc, get?_insert, List.lookup_cons]
    by_cases hk : k = key
    · simp [hk]
    · simp [hk, show (k == key) = false by simpa using hk]

theorem keys_insertAll_of_mem (h : ∀ a ∈ l, a.1 ∈ d.keys) : (d.insertAll l).keys = d.keys := by
  induction l generalizing d with
  | nil => rfl
  | cons a l ih =>
    obtain ⟨ha, hrest⟩ := List.forall_mem_cons.mp h
    have hkeys := keys_insert_of_mem ha a.2
    exact (ih (hkeys ▸ hrest)).trans hkeys

theorem mem_keys_insertAll (h : (key, value) ∈ l) : key ∈ (d.insertAll l).keys := by
  rw [mem_keys_iff, get?_insertAll]
  cases hlast : l.reverse.lookup key with
  | some v => exact ⟨v, rfl⟩
  | none =>
    have hno := List.lookup_eq_none_iff.mp hlast (key, value) (List.mem_reverse.mpr h)
    simp at hno

theorem insertAll_insertAll (d : Dictionary) (l : List (String × String)) : (d.insertAll l).insertAll l = d.insertAll l := by
  refine ext_keys (keys_insertAll_of_mem fun a ha => mem_keys_insertAll ha) fun k => ?_
  rw [get?_insertAll, get?_insertAll]
  cases l.reverse.lookup k <;> rfl

end Depot.Dictionary
