import Mathlib.Data.List.Basic
import Mathlib.Data.List.Nodup

/-!
# Linked hash maps

A `LinkedHashMap` keeps its entries in the order in which their keys were inserted. What a key has after
an operation is told by one lemma for each operation, and by `get_foldl_insertIfVacant` and
`get_foldl_insert` for the insertion of a list.
-/

set_option autoImplicit false

namespace Ferron

/-- A linked hash map. -/
structure LinkedHashMap (κ ν : Type) where
  entries : List (κ × ν)
  nodup : (entries.map Prod.fst).Nodup

namespace LinkedHashMap

variable {κ ν : Type} [DecidableEq κ]

/-- `new`. -/
def new : LinkedHashMap κ ν := ⟨[], List.nodup_nil⟩

/-- `keys`. -/
def keys (map : LinkedHashMap κ ν) : List κ := map.entries.map Prod.fst

/-- The first value of a key in a list of entries. -/
def find (entries : List (κ × ν)) (key : κ) : Option ν :=
  (entries.find? fun entry => entry.1 = key).map Prod.snd

/-- `get`. -/
def get (map : LinkedHashMap κ ν) (key : κ) : Option ν := find map.entries key

/-- `contains_key`. -/
def containsKey (map : LinkedHashMap κ ν) (key : κ) : Bool := (map.get key).isSome

theorem find_cons (entry : κ × ν) (entries : List (κ × ν)) (key : κ) :
    find (entry :: entries) key = if entry.1 = key then some entry.2 else find entries key := by
  rw [find, List.find?_cons]
  by_cases hkey : entry.1 = key
  · simp [hkey]
  · simp [hkey, find]

theorem find_append (front back : List (κ × ν)) (key : κ) :
    find (front ++ back) key = (find front key).or (find back key) := by
  rw [find, List.find?_append, Option.map_or]
  rfl

theorem find_eq_none_iff {entries : List (κ × ν)} {key : κ} :
    find entries key = none ↔ key ∉ entries.map Prod.fst := by
  rw [find, Option.map_eq_none_iff, List.find?_eq_none, List.mem_map]
  constructor
  · rintro hnone ⟨entry, hentry, rfl⟩
    exact hnone entry hentry (decide_eq_true rfl)
  · intro hmem entry hentry hkey
    exact hmem ⟨entry, hentry, of_decide_eq_true hkey⟩

theorem find_eq_some_of_mem {entries : List (κ × ν)} (hnodup : (entries.map Prod.fst).Nodup) {key : κ}
    {value : ν} (h : (key, value) ∈ entries) : find entries key = some value := by
  induction entries with
  | nil => exact absurd h List.not_mem_nil
  | cons entry entries ih =>
      rw [List.map_cons, List.nodup_cons] at hnodup
      rw [find_cons]
      rcases List.mem_cons.1 h with rfl | hlater
      · rw [if_pos rfl]
      · have hkey : entry.1 ≠ key := by
          rintro rfl
          exact hnodup.1 (List.mem_map.2 ⟨_, hlater, rfl⟩)
        rw [if_neg hkey, ih hnodup.2 hlater]

/-- An entry with another key is not what is found. -/
theorem find_pair {first second : κ × ν} {key : κ} (h : second.1 ≠ key) :
    find [first, second] key = find [first] key := by
  have hlast : find [second] key = find [] key := by
    rw [find_cons, if_neg h]
  rw [find_cons, find_cons first, hlast]

/-- `insert`: the key has this value, and it is the last one. -/
def insert (map : LinkedHashMap κ ν) (key : κ) (value : ν) : LinkedHashMap κ ν where
  entries := (map.entries.filter fun entry => entry.1 ≠ key) ++ [(key, value)]
  nodup := by
    rw [List.map_append, List.nodup_append]
    refine ⟨map.nodup.sublist (List.filter_sublist.map _), List.nodup_singleton _, ?_⟩
    intro other hother key' hkey'
    obtain ⟨entry, hentry, rfl⟩ := List.mem_map.1 hother
    rw [List.mem_singleton.1 hkey']
    exact of_decide_eq_true (List.mem_filter.1 hentry).2

/-- `get_mut`, with a change of the value. -/
def update (map : LinkedHashMap κ ν) (key : κ) (change : ν → ν) : LinkedHashMap κ ν where
  entries := map.entries.map fun entry => if entry.1 = key then (entry.1, change entry.2) else entry
  nodup := by
    have hkeys : (map.entries.map fun entry =>
        if entry.1 = key then (entry.1, change entry.2) else entry).map Prod.fst = map.keys := by
      rw [List.map_map, keys]
      refine List.map_congr_left fun entry _ => ?_
      rw [Function.comp_apply]
      split <;> rfl
    rw [hkeys]
    exact map.nodup

/-- `or_insert`: the value is inserted when the key has none. -/
def insertIfVacant (map : LinkedHashMap κ ν) (key : κ) (value : ν) : LinkedHashMap κ ν :=
  match hget : map.get key with
  | some _ => map
  | none => ⟨map.entries ++ [(key, value)], by
      rw [List.map_append, List.nodup_append]
      refine ⟨map.nodup, List.nodup_singleton _, ?_⟩
      rintro other hother key' hkey' rfl
      rw [List.mem_singleton.1 hkey'] at hother
      exact find_eq_none_iff.1 hget hother⟩

/-! ## What a key has -/

@[simp] theorem get_new (key : κ) : (new : LinkedHashMap κ ν).get key = none := rfl

theorem get_insert (map : LinkedHashMap κ ν) (key other : κ) (value : ν) :
    (map.insert key value).get other = if other = key then some value else map.get other := by
  rw [get, insert, find_append, find_cons]
  by_cases hkey : other = key
  · have hnone : find (map.entries.filter fun entry => entry.1 ≠ key) other = none := by
      rw [find_eq_none_iff, hkey]
      simp
    rw [hnone, Option.none_or, if_pos hkey, if_pos hkey.symm]
  · have hsame : find (map.entries.filter fun entry => entry.1 ≠ key) other = find map.entries other := by
      rw [find, find, List.find?_filter]
      congr 2
      funext entry
      by_cases hentry : entry.1 = other
      · simp [hentry, hkey]
      · simp [hentry]
    rw [hsame, if_neg hkey, if_neg (Ne.symm hkey)]
    exact Option.or_none

theorem get_update (map : LinkedHashMap κ ν) (key other : κ) (change : ν → ν) :
    (map.update key change).get other =
      if other = key then (map.get other).map change else map.get other := by
  rw [get, get, update]
  dsimp only
  induction map.entries with
  | nil => simp [find]
  | cons entry entries ih =>
      rw [List.map_cons, find_cons, find_cons, ih]
      by_cases hentry : entry.1 = key
      · by_cases hkey : other = key
        · simp [hentry, hkey]
        · simp [hentry, hkey, Ne.symm hkey]
      · by_cases hkey : entry.1 = other
        · simp [hkey, show ¬ other = key from hkey ▸ hentry]
        · simp [hentry, hkey]

theorem get_insertIfVacant (map : LinkedHashMap κ ν) (key other : κ) (value : ν) :
    (map.insertIfVacant key value).get other =
      (map.get other).or (if other = key then some value else none) := by
  unfold insertIfVacant
  split
  · rename_i found hget
    by_cases hkey : other = key
    · rw [hkey, hget]
      rfl
    · rw [if_neg hkey, Option.or_none]
  · rw [get, find_append, find_cons]
    simp only [eq_comm (a := other)]
    rfl

/-- Values that are inserted where there are none come after those that are there. -/
theorem get_foldl_insertIfVacant (pairs : List (κ × ν)) (map : LinkedHashMap κ ν) (key : κ) :
    (pairs.foldl (fun map pair => map.insertIfVacant pair.1 pair.2) map).get key =
      (map.get key).or (find pairs key) := by
  induction pairs generalizing map with
  | nil => exact Option.or_none.symm
  | cons pair pairs ih =>
      rw [List.foldl_cons, ih, get_insertIfVacant, find_cons, Option.or_assoc]
      congr 1
      by_cases hkey : pair.1 = key
      · rw [if_pos hkey.symm, if_pos hkey]
        rfl
      · rw [if_neg (Ne.symm hkey), if_neg hkey]
        rfl

/-- The entries of a map that are inserted replace those that are there. -/
theorem get_foldl_insert (other map : LinkedHashMap κ ν) (key : κ) :
    (other.entries.foldl (fun map entry => map.insert entry.1 entry.2) map).get key =
      (other.get key).or (map.get key) := by
  obtain ⟨entries, hnodup⟩ := other
  change _ = (find entries key).or _
  dsimp only
  induction entries generalizing map with
  | nil => rfl
  | cons entry entries ih =>
      have hfresh := List.nodup_cons.1 hnodup
      rw [List.foldl_cons, ih _ hfresh.2, get_insert, find_cons]
      by_cases hkey : entry.1 = key
      · have hnone : find entries key = none := find_eq_none_iff.2 (hkey ▸ hfresh.1)
        rw [hnone, if_pos hkey.symm, if_pos hkey]
        rfl
      · rw [if_neg (Ne.symm hkey), if_neg hkey]

end LinkedHashMap

end Ferron
