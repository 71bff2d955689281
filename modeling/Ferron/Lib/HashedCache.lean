import Ferron.Lib.Run
import Mathlib.Data.List.Basic

/-!
# Caches in hash tables

A cache makes a value for a key that its table does not find, and gives out the value of a key that it
finds. A table finds entries by the hashes of their keys and tells the keys apart by an equality. An entry
whose key equals the one that is looked up is found for certain when both keys are hashed from the same
input; otherwise it depends on the hashes and on the layout of the table.

`sharesSoundly_iff` says that whatever the table is, equal keys share a value and other keys do not, if
and only if equal keys are hashed alike.
-/

set_option autoImplicit false

namespace Ferron.Lib.HashedCache

open Ferron.Lib.Run

variable {κ ι : Type} [BEq κ]

/-- How a table finds what has been inserted. -/
structure Table (hashInput : κ → ι) where
  find : List (κ × Nat) → κ → Option Nat
  equal_of_find : ∀ {entries : List (κ × Nat)} {key : κ} {value : Nat},
    find entries key = some value → ∃ found, (found, value) ∈ entries ∧ (found == key) = true
  find_ne_none : ∀ {entries : List (κ × Nat)} {key found : κ} {value : Nat},
    (found, value) ∈ entries → (found == key) = true → hashInput found = hashInput key →
      find entries key ≠ none

/-- The entries, the number of values that have been made, and what has been returned so far. -/
structure State (κ : Type) where
  inner : List (κ × Nat)
  made : Nat
  returned : List (κ × Option Nat)

/-- A call with a key; when the key is not found, a value is made for it or that fails. -/
abbrev Call (κ : Type) := κ × Bool

/-- The cache after a call. -/
def getOrInit {hashInput : κ → ι} (table : Table hashInput) (state : State κ) (call : Call κ) : State κ :=
  match table.find state.inner call.1 with
  | some value => { state with returned := state.returned ++ [(call.1, some value)] }
  | none =>
      if call.2 then
        { inner := state.inner ++ [(call.1, state.made)]
          made := state.made + 1
          returned := state.returned ++ [(call.1, some state.made)] }
      else { state with returned := state.returned ++ [(call.1, none)] }

omit [BEq κ] in
/-- The empty cache. -/
def new : State κ := ⟨[], 0, []⟩

/-- Equal keys share the value that was returned first, and no other keys share one. -/
structure SharesSoundly (returned : List (κ × Option Nat)) : Prop where
  equal : ∀ (i j : Nat) (key key' : κ) (value : Nat) (result : Option Nat), i < j →
    returned[i]? = some (key, some value) → returned[j]? = some (key', result) →
      (key == key') = true → result = some value
  differ : ∀ (i j : Nat) (key key' : κ) (value : Nat), returned[i]? = some (key, some value) →
    returned[j]? = some (key', some value) → (key == key') = true

/-! ## Keys that are hashed alike -/

section Alike

variable {hashInput : κ → ι} (P : κ → Prop)

/-- What the calls with some keys keep. -/
structure Inv (state : State κ) : Prop where
  keys : ∀ entry ∈ state.inner, P entry.1
  apart : state.inner.Pairwise fun a b => (a.1 == b.1) = false ∧ a.2 ≠ b.2
  made : ∀ entry ∈ state.inner, entry.2 < state.made
  stored : ∀ key value, (key, some value) ∈ state.returned →
    ∃ found, (found, value) ∈ state.inner ∧ (found == key) = true
  sound : SharesSoundly state.returned

variable {P} [EquivBEq κ] {state : State κ}

/-- Two entries with equal keys, or with one value, are the same. -/
theorem Inv.unique (h : Inv P state) {a b : κ × Nat} (ha : a ∈ state.inner) (hb : b ∈ state.inner)
    (hsame : (a.1 == b.1) = true ∨ a.2 = b.2) : a = b := by
  obtain ⟨i, hi⟩ := List.mem_iff_getElem?.1 ha
  obtain ⟨j, hj⟩ := List.mem_iff_getElem?.1 hb
  obtain ⟨hilt, rfl⟩ := List.getElem?_eq_some_iff.1 hi
  obtain ⟨hjlt, rfl⟩ := List.getElem?_eq_some_iff.1 hj
  have hapart := List.pairwise_iff_getElem.1 h.apart
  rcases Nat.lt_trichotomy i j with hlt | rfl | hlt
  · have hij := hapart i j hilt hjlt hlt
    rcases hsame with hkey | hvalue
    · exact absurd (hij.1.symm.trans hkey) Bool.false_ne_true
    · exact absurd hvalue hij.2
  · rfl
  · have hji := hapart j i hjlt hilt hlt
    rcases hsame with hkey | hvalue
    · exact absurd (hji.1.symm.trans (BEq.symm hkey)) Bool.false_ne_true
    · exact absurd hvalue.symm hji.2

omit [EquivBEq κ] in
/-- One more result shares soundly. -/
theorem SharesSoundly.append {returned : List (κ × Option Nat)} (h : SharesSoundly returned) {key : κ}
    {result : Option Nat} (hsymm : ∀ a b : κ, (a == b) = true → (b == a) = true)
    (hrefl : (key == key) = true)
    (hequal : ∀ before value, (before, some value) ∈ returned → (before == key) = true →
      result = some value)
    (hdiffer : ∀ before value, (before, some value) ∈ returned → result = some value →
      (before == key) = true) : SharesSoundly (returned ++ [(key, result)]) := by
  have hlast : ∀ (i : Nat) (found : κ × Option Nat), (returned ++ [(key, result)])[i]? = some found →
      (i < returned.length ∧ returned[i]? = some found) ∨
        (i = returned.length ∧ found = (key, result)) := by
    intro i found hi
    rcases Nat.lt_or_ge i returned.length with hlt | hge
    · rw [List.getElem?_append_left hlt] at hi
      exact Or.inl ⟨hlt, hi⟩
    · rw [List.getElem?_append_right hge, List.getElem?_singleton] at hi
      split at hi
      · exact Or.inr ⟨by omega, (Option.some.inj hi).symm⟩
      · exact absurd hi (by simp)
  constructor
  · intro i j before after value found hij hi hj hkey
    rcases hlast j _ hj with ⟨hlt, hj⟩ | ⟨rfl, hfound⟩
    · rcases hlast i _ hi with ⟨-, hi⟩ | ⟨rfl, -⟩
      · exact h.equal i j before after value found hij hi hj hkey
      · omega
    · obtain ⟨rfl, rfl⟩ := Prod.mk.inj hfound
      rcases hlast i _ hi with ⟨-, hi⟩ | ⟨rfl, -⟩
      · exact hequal before value (List.mem_of_getElem? hi) hkey
      · omega
  · intro i j before after value hi hj
    rcases hlast i _ hi with ⟨-, hi'⟩ | ⟨-, hfound⟩ <;>
      rcases hlast j _ hj with ⟨-, hj'⟩ | ⟨-, hfound'⟩
    · exact h.differ i j before after value hi' hj'
    · obtain ⟨rfl, hresult⟩ := Prod.mk.inj hfound'
      exact hdiffer before value (List.mem_of_getElem? hi') hresult.symm
    · obtain ⟨rfl, hresult⟩ := Prod.mk.inj hfound
      exact hsymm _ _ (hdiffer after value (List.mem_of_getElem? hj') hresult.symm)
    · obtain ⟨rfl, -⟩ := Prod.mk.inj hfound
      obtain ⟨rfl, -⟩ := Prod.mk.inj hfound'
      exact hrefl

omit [BEq κ] [EquivBEq κ] in
/-- What holds of the values returned so far and of one more holds of all of them. -/
theorem forall_returned_append {returned : List (κ × Option Nat)} {Q : κ → Nat → Prop} {key : κ}
    {result : Option Nat} (hold : ∀ before value, (before, some value) ∈ returned → Q before value)
    (hnew : ∀ value, result = some value → Q key value) :
    ∀ before value, (before, some value) ∈ returned ++ [(key, result)] → Q before value := by
  intro before value hreturned
  rcases List.mem_append.1 hreturned with hmem | hmem
  · exact hold before value hmem
  · obtain ⟨rfl, hvalue⟩ := Prod.mk.inj (List.mem_singleton.1 hmem)
    exact hnew value hvalue.symm

/-- A value that is found is returned. -/
theorem Inv.returnFound (h : Inv P state) {key found : κ} {value : Nat}
    (hfound : (found, value) ∈ state.inner) (hkey : (found == key) = true) :
    Inv P { state with returned := state.returned ++ [(key, some value)] } := by
  refine ⟨h.keys, h.apart, h.made, forall_returned_append h.stored ?_, ?_⟩
  · intro returned hreturned
    rw [← Option.some.inj hreturned]
    exact ⟨found, hfound, hkey⟩
  · apply h.sound.append (fun _ _ => BEq.symm) BEq.rfl
    · intro before returned hreturned hequal
      obtain ⟨entry, hentry, hentryKey⟩ := h.stored before returned hreturned
      have hsame := h.unique hfound hentry
        (Or.inl (PartialEquivBEq.trans hkey (BEq.symm (PartialEquivBEq.trans hentryKey hequal))))
      rw [(Prod.mk.inj hsame).2]
    · intro before returned hreturned hresult
      obtain ⟨entry, hentry, hentryKey⟩ := h.stored before returned hreturned
      have hsame := h.unique hfound hentry (Or.inr (Option.some.inj hresult))
      rw [← (Prod.mk.inj hsame).1] at hentryKey
      exact PartialEquivBEq.trans (BEq.symm hentryKey) hkey

/-- A key that no entry has was not returned before. -/
theorem Inv.unseen (h : Inv P state) {key : κ} (hnone : ∀ entry ∈ state.inner, (entry.1 == key) = false)
    {before : κ} {value : Nat} (hreturned : (before, some value) ∈ state.returned) :
    (before == key) ≠ true := by
  intro hkey
  obtain ⟨entry, hentry, hentryKey⟩ := h.stored before value hreturned
  have hfalse := hnone _ hentry
  rw [PartialEquivBEq.trans hentryKey hkey] at hfalse
  exact Bool.false_ne_true hfalse.symm

/-- A value that could not be made is not stored. -/
theorem Inv.returnNone (h : Inv P state) {key : κ}
    (hnone : ∀ entry ∈ state.inner, (entry.1 == key) = false) :
    Inv P { state with returned := state.returned ++ [(key, none)] } := by
  refine ⟨h.keys, h.apart, h.made, forall_returned_append h.stored ?_, ?_⟩
  · intro value hvalue
    cases hvalue
  · apply h.sound.append (fun _ _ => BEq.symm) BEq.rfl
    · intro before value hreturned hkey
      exact absurd hkey (h.unseen hnone hreturned)
    · intro before value _ hresult
      cases hresult

/-- A value that was made is stored and returned. -/
theorem Inv.insertNew (h : Inv P state) {key : κ} (hcall : P key)
    (hnone : ∀ entry ∈ state.inner, (entry.1 == key) = false) :
    Inv P ⟨state.inner ++ [(key, state.made)], state.made + 1,
      state.returned ++ [(key, some state.made)]⟩ := by
  refine ⟨?_, ?_, ?_, forall_returned_append ?_ ?_, ?_⟩
  · exact List.forall_mem_append.2 ⟨h.keys, List.forall_mem_singleton.2 hcall⟩
  · rw [List.pairwise_append]
    refine ⟨h.apart, List.pairwise_singleton _ _, fun entry hentry new hnew => ?_⟩
    rw [List.mem_singleton.1 hnew]
    exact ⟨hnone entry hentry, Nat.ne_of_lt (h.made entry hentry)⟩
  · refine List.forall_mem_append.2 ⟨fun entry hentry => ?_, ?_⟩
    · exact Nat.lt_succ_of_lt (h.made entry hentry)
    · exact List.forall_mem_singleton.2 (Nat.lt_succ_self _)
  · intro before value hreturned
    obtain ⟨entry, hentry, hentryKey⟩ := h.stored before value hreturned
    exact ⟨entry, List.mem_append_left _ hentry, hentryKey⟩
  · intro value hvalue
    rw [← Option.some.inj hvalue]
    exact ⟨key, List.mem_append_right _ (List.mem_singleton_self _), BEq.rfl⟩
  · apply h.sound.append (fun _ _ => BEq.symm) BEq.rfl
    · intro before value hreturned hkey
      exact absurd hkey (h.unseen hnone hreturned)
    · intro before value hreturned hresult
      obtain ⟨entry, hentry, -⟩ := h.stored before value hreturned
      have hlt := h.made _ hentry
      rw [Option.some.inj hresult] at hlt
      exact absurd hlt (Nat.lt_irrefl _)

theorem Inv.getOrInit (h : Inv P state) (table : Table hashInput) {call : Call κ} (hcall : P call.1)
    (halike : ∀ a b, P a → P b → (a == b) = true → hashInput a = hashInput b) :
    Inv P (getOrInit table state call) := by
  obtain ⟨key, succeeds⟩ := call
  rw [HashedCache.getOrInit]
  cases hfind : table.find state.inner key with
  | some value =>
      obtain ⟨found, hfound, hkey⟩ := table.equal_of_find hfind
      exact h.returnFound hfound hkey
  | none =>
      -- no entry has an equal key, since it would be hashed alike and found
      have hnone : ∀ entry ∈ state.inner, (entry.1 == key) = false := by
        intro entry hentry
        rw [Bool.eq_false_iff]
        intro hkey
        exact table.find_ne_none hentry hkey (halike _ _ (h.keys entry hentry) hcall hkey) hfind
      cases succeeds with
      | true => exact h.insertNew hcall hnone
      | false => exact h.returnNone hnone

/-- Calls with keys that are hashed alike when they are equal share soundly. -/
theorem sharesSoundly_of_alike (table : Table hashInput) (calls : List (Call κ))
    (hcalls : ∀ call ∈ calls, P call.1)
    (halike : ∀ a b, P a → P b → (a == b) = true → hashInput a = hashInput b) :
    SharesSoundly (run (getOrInit table) new calls).returned := by
  have hnew : Inv P (new : State κ) :=
    ⟨by simp [new], List.Pairwise.nil, by simp [new], by simp [new], ⟨by simp [new], by simp [new]⟩⟩
  exact (run_invariant_of_mem (fun _ _ hcall h => h.getOrInit table hcall halike) hcalls hnew).sound

end Alike

/-! ## Equal keys that are hashed differently -/

section Strict

variable [DecidableEq ι] (hashInput : κ → ι)

/-- A table that finds the first entry with an equal key that is hashed from the same input. -/
def strictTable : Table hashInput where
  find entries key :=
    (entries.find? fun entry => entry.1 == key && decide (hashInput entry.1 = hashInput key)).map
      Prod.snd
  equal_of_find {entries key value} h := by
    obtain ⟨entry, hentry, rfl⟩ := Option.map_eq_some_iff.1 h
    have hkey := List.find?_some hentry
    rw [Bool.and_eq_true] at hkey
    exact ⟨entry.1, List.mem_of_find?_eq_some hentry, hkey.1⟩
  find_ne_none {entries key found value} hmem hkey hhash := by
    rw [Ne, Option.map_eq_none_iff, List.find?_eq_none]
    intro hnone
    exact hnone (found, value) hmem (by simp [hkey, hhash])

/-- In the strict table the values that are returned belong to the hash inputs. -/
structure StrictInv (state : State κ) : Prop where
  made : ∀ entry ∈ state.inner, entry.2 < state.made
  apart : ∀ a ∈ state.inner, ∀ b ∈ state.inner, a.2 = b.2 → hashInput a.1 = hashInput b.1
  stored : ∀ key value, (key, some value) ∈ state.returned →
    ∃ found, (found, value) ∈ state.inner ∧ hashInput found = hashInput key
  succeeded : ∀ returned ∈ state.returned, returned.2 ≠ none

variable {hashInput}

theorem StrictInv.getOrInit {state : State κ} (h : StrictInv hashInput state)
    {call : Call κ} (hsucceeds : call.2 = true) :
    StrictInv hashInput (getOrInit (strictTable hashInput) state call) := by
  obtain ⟨key, succeeds⟩ := call
  have hsucceeded : ∀ value : Nat, ∀ returned ∈ state.returned ++ [(key, some value)],
      returned.2 ≠ none := fun value =>
    List.forall_mem_append.2 ⟨h.succeeded, List.forall_mem_singleton.2 (Option.some_ne_none value)⟩
  rw [HashedCache.getOrInit]
  cases hfind : (strictTable hashInput).find state.inner key with
  | some value =>
      obtain ⟨entry, hentry, rfl⟩ := Option.map_eq_some_iff.1 hfind
      have hkey := List.find?_some hentry
      rw [Bool.and_eq_true, decide_eq_true_eq] at hkey
      refine ⟨h.made, h.apart, forall_returned_append h.stored ?_, hsucceeded _⟩
      intro value hvalue
      rw [← Option.some.inj hvalue]
      exact ⟨entry.1, List.mem_of_find?_eq_some hentry, hkey.2⟩
  | none =>
      dsimp only at hsucceeds ⊢
      rw [if_pos hsucceeds]
      refine ⟨?_, ?_, forall_returned_append ?_ ?_, hsucceeded _⟩
      · refine List.forall_mem_append.2 ⟨fun entry hentry => ?_, ?_⟩
        · exact Nat.lt_succ_of_lt (h.made entry hentry)
        · exact List.forall_mem_singleton.2 (Nat.lt_succ_self _)
      · -- the new value is none of those made before
        intro a ha b hb hvalue
        rcases List.mem_append.1 ha with ha | ha <;> rcases List.mem_append.1 hb with hb | hb
        · exact h.apart a ha b hb hvalue
        · rw [List.mem_singleton.1 hb] at hvalue
          exact absurd hvalue (Nat.ne_of_lt (h.made a ha))
        · rw [List.mem_singleton.1 ha] at hvalue
          exact absurd hvalue.symm (Nat.ne_of_lt (h.made b hb))
        · rw [List.mem_singleton.1 ha, List.mem_singleton.1 hb]
      · intro before value hreturned
        obtain ⟨found, hfound, hhash⟩ := h.stored before value hreturned
        exact ⟨found, List.mem_append_left _ hfound, hhash⟩
      · intro value hvalue
        rw [← Option.some.inj hvalue]
        exact ⟨key, List.mem_append_right _ (List.mem_singleton_self _), rfl⟩

end Strict

/-- Each call returns a result for its key. -/
theorem returned_run {hashInput : κ → ι} (table : Table hashInput) (calls : List (Call κ))
    (state : State κ) : (run (getOrInit table) state calls).returned.map Prod.fst =
      state.returned.map Prod.fst ++ calls.map Prod.fst := by
  induction calls generalizing state with
  | nil => simp
  | cons call calls ih =>
      have hstep : (getOrInit table state call).returned.map Prod.fst =
          state.returned.map Prod.fst ++ [call.1] := by
        rw [getOrInit]
        split
        · simp
        · split <;> simp
      rw [run_cons, ih, hstep, List.append_assoc, List.map_cons, List.singleton_append]

/-- Whatever the table is and whichever calls fail, the calls with some keys share soundly, if and only if
those of the keys that are equal are hashed alike. -/
theorem sharesSoundly_iff [EquivBEq κ] [DecidableEq ι] (hashInput : κ → ι) (keys : List κ) :
    (∀ (table : Table hashInput) (calls : List (Call κ)), calls.map Prod.fst = keys →
      SharesSoundly (run (getOrInit table) new calls).returned) ↔
      ∀ a ∈ keys, ∀ b ∈ keys, (a == b) = true → hashInput a = hashInput b := by
  constructor
  · intro hsound
    -- it is enough to look at the first of two keys
    have hordered : ∀ (i j : Nat) (a b : κ), i < j → keys[i]? = some a → keys[j]? = some b →
        (a == b) = true → hashInput a = hashInput b := by
      intro i j a b hij hi hj hequal
      let calls : List (Call κ) := keys.map fun key => (key, true)
      have hkeys : calls.map Prod.fst = keys := by simp [calls, Function.comp_def]
      have hinv : StrictInv hashInput
          (run (getOrInit (strictTable hashInput)) new calls) := by
        apply run_invariant_of_mem (fun _ _ hsucceeds h => h.getOrInit hsucceeds)
        · simp [calls]
        · exact ⟨by simp [new], by simp [new], by simp [new], by simp [new]⟩
      have hreturned := returned_run (strictTable hashInput) calls new
      rw [hkeys, show (new : State κ).returned = [] from rfl, List.map_nil, List.nil_append] at hreturned
      have hresult : ∀ (k : Nat) (key : κ), keys[k]? = some key →
          ∃ value, (run (getOrInit (strictTable hashInput)) new calls).returned[k]? =
            some (key, some value) := by
        intro k key hk
        rw [← hreturned, List.getElem?_map, Option.map_eq_some_iff] at hk
        obtain ⟨⟨found, result⟩, hfound, rfl⟩ := hk
        obtain ⟨value, rfl⟩ :=
          Option.ne_none_iff_exists'.1 (hinv.succeeded _ (List.mem_of_getElem? hfound))
        exact ⟨value, hfound⟩
      obtain ⟨value, hvalue⟩ := hresult i a hi
      obtain ⟨value', hvalue'⟩ := hresult j b hj
      -- both get the value of one entry, which is found by its hash input
      have hshared := (hsound (strictTable hashInput) calls hkeys).equal i j a b value _ hij hvalue
        hvalue' hequal
      obtain ⟨found, hfound, hhash⟩ := hinv.stored a value (List.mem_of_getElem? hvalue)
      obtain ⟨found', hfound', hhash'⟩ := hinv.stored b value' (List.mem_of_getElem? hvalue')
      rw [← hhash, ← hhash']
      exact hinv.apart _ hfound _ hfound' (Option.some.inj hshared).symm
    intro a ha b hb hequal
    obtain ⟨i, hi⟩ := List.mem_iff_getElem?.1 ha
    obtain ⟨j, hj⟩ := List.mem_iff_getElem?.1 hb
    rcases Nat.lt_trichotomy i j with hlt | rfl | hlt
    · exact hordered i j a b hlt hi hj hequal
    · rw [Option.some.inj (hi.symm.trans hj)]
    · exact (hordered j i b a hlt hj hi (BEq.symm hequal)).symm
  · intro halike table calls hcalls
    apply sharesSoundly_of_alike (P := fun key => key ∈ keys) table calls
    · intro call hcall
      rw [← hcalls]
      exact List.mem_map_of_mem hcall
    · exact fun a b ha hb => halike a ha b hb

end Ferron.Lib.HashedCache
