import Ferron.Rust.Collections

/-!
# The TTL cache

A `TtlCache` keeps with every value the time when it was inserted. What a lookup finds was inserted
last under its key, and less than the lifetime ago. Times are in nanoseconds since the start of the
clock.
-/

set_option autoImplicit false

namespace Ferron.Common

/-- A TTL cache. -/
structure TtlCache (κ ν : Type) where
  cache : HashMap κ (ν × Nat)
  ttl : Nat

namespace TtlCache

variable {κ ν : Type} [DecidableEq κ]

omit [DecidableEq κ] in
/-- `new`: creates a new TTL cache with specific lifetime. -/
def new (ttl : Nat) : TtlCache κ ν := ⟨∅, ttl⟩

/-- `elapsed`: the time since a timestamp, or zero. -/
def elapsed (timestamp now : Nat) : Nat := now - timestamp

/-- `insert`. -/
def insert (cache : TtlCache κ ν) (now : Nat) (key : κ) (value : ν) : TtlCache κ ν :=
  { cache with cache := cache.cache.insert key (value, now) }

/-- `get`. -/
def get (cache : TtlCache κ ν) (now : Nat) (key : κ) : Option ν :=
  (cache.cache.lookup key).bind fun (value, timestamp) =>
    if elapsed timestamp now < cache.ttl then some value else none

omit [DecidableEq κ] in
/-- `cleanup`. -/
def cleanup (cache : TtlCache κ ν) (now : Nat) : TtlCache κ ν :=
  { cache with
    cache :=
      ⟨cache.cache.entries.filter fun entry => elapsed entry.2.2 now < cache.ttl,
        cache.cache.nodupKeys.sublist List.filter_sublist⟩ }

omit [DecidableEq κ] in
@[simp] theorem new_ttl (ttl : Nat) : (new ttl : TtlCache κ ν).ttl = ttl := rfl

@[simp] theorem insert_ttl (cache : TtlCache κ ν) (now : Nat) (key : κ) (value : ν) :
    (cache.insert now key value).ttl = cache.ttl := rfl

omit [DecidableEq κ] in
@[simp] theorem cleanup_ttl (cache : TtlCache κ ν) (now : Nat) :
    (cache.cleanup now).ttl = cache.ttl := rfl

/-- A new cache finds nothing. -/
theorem get_new (ttl now : Nat) (key : κ) : (new ttl : TtlCache κ ν).get now key = none := rfl

/-- What is found is an entry that is alive. -/
theorem get_eq_some_iff {cache : TtlCache κ ν} {now : Nat} {key : κ} {value : ν} :
    cache.get now key = some value ↔
      ∃ timestamp, cache.cache.lookup key = some (value, timestamp) ∧
        elapsed timestamp now < cache.ttl := by
  rw [get, Option.bind_eq_some_iff]
  constructor
  · rintro ⟨⟨found, timestamp⟩, hlookup, hfound⟩
    dsimp only at hfound
    split at hfound
    · rename_i halive
      rw [Option.some.inj hfound] at hlookup
      exact ⟨timestamp, hlookup, halive⟩
    · exact absurd hfound (by simp)
  · rintro ⟨timestamp, hlookup, halive⟩
    exact ⟨(value, timestamp), hlookup, if_pos halive⟩

/-- What is found after an insertion was inserted or found before. -/
theorem get_insert {cache : TtlCache κ ν} {inserted now : Nat} {key key' : κ} {value value' : ν}
    (h : (cache.insert inserted key value).get now key' = some value') :
    (key' = key ∧ value' = value ∧ elapsed inserted now < cache.ttl) ∨
      (key' ≠ key ∧ cache.get now key' = some value') := by
  obtain ⟨timestamp, hlookup, halive⟩ := get_eq_some_iff.1 h
  by_cases hkey : key' = key
  · subst hkey
    rw [insert, AList.lookup_insert, Option.some_inj, Prod.mk.injEq] at hlookup
    obtain ⟨rfl, rfl⟩ := hlookup
    exact Or.inl ⟨rfl, rfl, halive⟩
  · rw [insert, AList.lookup_insert_ne hkey] at hlookup
    exact Or.inr ⟨hkey, get_eq_some_iff.2 ⟨timestamp, hlookup, halive⟩⟩

/-- Cleaning up adds nothing. -/
theorem get_cleanup {cache : TtlCache κ ν} {cleaned now : Nat} {key : κ} {value : ν}
    (h : (cache.cleanup cleaned).get now key = some value) : cache.get now key = some value := by
  obtain ⟨timestamp, hlookup, halive⟩ := get_eq_some_iff.1 h
  refine get_eq_some_iff.2 ⟨timestamp, ?_, halive⟩
  have hentry : (⟨key, (value, timestamp)⟩ : Sigma fun _ : κ => ν × Nat) ∈ cache.cache.entries :=
    List.mem_of_mem_filter (List.of_mem_dlookup hlookup)
  exact (List.mem_dlookup_iff cache.cache.nodupKeys).2 hentry

/-- Cleaning up leaves entries only. -/
theorem lookup_of_lookup_cleanup {cache : TtlCache κ ν} {cleaned : Nat} {key : κ} {entry : ν × Nat}
    (h : (cache.cleanup cleaned).cache.lookup key = some entry) :
    cache.cache.lookup key = some entry := by
  have hentry : (⟨key, entry⟩ : Sigma fun _ : κ => ν × Nat) ∈ cache.cache.entries :=
    List.mem_of_mem_filter (List.of_mem_dlookup h)
  exact (List.mem_dlookup_iff cache.cache.nodupKeys).2 hentry

/-- Cleaning up changes nothing that is found at the time. -/
theorem get_cleanup_self (cache : TtlCache κ ν) (now : Nat) (key : κ) :
    (cache.cleanup now).get now key = cache.get now key := by
  apply Option.ext
  intro value
  constructor
  · exact get_cleanup
  · intro h
    obtain ⟨timestamp, hlookup, halive⟩ := get_eq_some_iff.1 h
    refine get_eq_some_iff.2 ⟨timestamp, ?_, halive⟩
    refine (List.mem_dlookup_iff (cache.cleanup now).cache.nodupKeys).2 (List.mem_filter.2 ⟨?_, ?_⟩)
    · exact List.of_mem_dlookup hlookup
    · exact decide_eq_true halive

/-- What has just been inserted is found. -/
theorem get_insert_self {cache : TtlCache κ ν} (httl : 0 < cache.ttl) (now : Nat) (key : κ) (value : ν) :
    (cache.insert now key value).get now key = some value := by
  refine get_eq_some_iff.2 ⟨now, AList.lookup_insert _, ?_⟩
  rw [elapsed, Nat.sub_self]
  exact httl

/-- An insertion changes nothing under another key. -/
theorem get_insert_ne {cache : TtlCache κ ν} {key key' : κ} (hkey : key' ≠ key) (inserted now : Nat)
    (value : ν) : (cache.insert inserted key value).get now key' = cache.get now key' := by
  rw [get, get, insert, AList.lookup_insert_ne hkey]

end TtlCache

end Ferron.Common
