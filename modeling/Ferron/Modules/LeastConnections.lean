import Ferron.Modules.ConnectionTrack

/-!
# The backend server with the fewest connections

Two load balancing algorithms compare the counts of connections. One draws two backend servers and takes
the one with the smaller count. The other one goes through all of them with a list of candidates, which
should be those that are tied for the least count, and takes a random candidate.

A backend server that has more connections than the least one so far is put on the list of candidates as
well. The candidates are therefore all backend servers from the first least one on
(`eval_leastConnections`), and `selectedIndex_least_iff` says when each of them is least.
-/

set_option autoImplicit false

namespace Ferron.Modules.ConnectionTrack

open Ferron.Modules.ReverseProxy (Backend)

/-! ## The least entry of a list -/

section Least

variable {α : Type} [LinearOrder α]

/-- The entry at an index is least. -/
def LeastAt (counts : List α) (index : Nat) : Prop :=
  ∃ count, counts[index]? = some count ∧ ∀ other ∈ counts, count ≤ other

/-- The entry at an index is the first least one. -/
structure FirstLeastAt (counts : List α) (index : Nat) (count : α) : Prop where
  getElem : counts[index]? = some count
  least : ∀ other ∈ counts, count ≤ other
  first : ∀ i other, i < index → counts[i]? = some other → count < other

variable {counts : List α} {index : Nat} {count next : α}

theorem FirstLeastAt.lt_length (h : FirstLeastAt counts index count) : index < counts.length :=
  (List.getElem?_eq_some_iff.1 h.getElem).1

theorem FirstLeastAt.leastAt (h : FirstLeastAt counts index count) : LeastAt counts index :=
  ⟨count, h.getElem, h.least⟩

theorem firstLeastAt_singleton (count : α) : FirstLeastAt [count] 0 count := by
  refine ⟨rfl, fun other hother => ?_, fun i other hi _ => absurd hi (Nat.not_lt_zero i)⟩
  rw [List.mem_singleton.1 hother]

/-- A smaller entry at the end is the first least one. -/
theorem FirstLeastAt.append_of_lt (h : FirstLeastAt counts index count) (hnext : next < count) :
    FirstLeastAt (counts ++ [next]) counts.length next := by
  constructor
  · rw [List.getElem?_append_right le_rfl, Nat.sub_self]
    rfl
  · intro other hother
    -- the new entry is below the least one so far, and so below all others
    rcases List.mem_append.1 hother with hbefore | hlast
    · exact hnext.le.trans (h.least other hbefore)
    · rw [List.mem_singleton.1 hlast]
  · intro i other hi hother
    rw [List.getElem?_append_left hi] at hother
    exact hnext.trans_le (h.least other (List.mem_of_getElem? hother))

/-- Another entry at the end leaves the first least one where it is. -/
theorem FirstLeastAt.append_of_le (h : FirstLeastAt counts index count) (hnext : count ≤ next) :
    FirstLeastAt (counts ++ [next]) index count := by
  constructor
  · rw [List.getElem?_append_left h.lt_length, h.getElem]
  · intro other hother
    rcases List.mem_append.1 hother with hbefore | hlast
    · exact h.least other hbefore
    · rwa [List.mem_singleton.1 hlast]
  · intro i other hi hother
    rw [List.getElem?_append_left (hi.trans h.lt_length)] at hother
    exact h.first i other hi hother

/-- The first least entry stands before or at every least one. -/
theorem FirstLeastAt.le_of_leastAt (h : FirstLeastAt counts index count) {i : Nat}
    (hi : LeastAt counts i) : index ≤ i := by
  obtain ⟨other, hother, hleast⟩ := hi
  -- an earlier least entry would be smaller than the first one
  by_contra hlt
  have hsmaller := h.first i other (Nat.lt_of_not_le hlt) hother
  exact absurd (hleast count (List.mem_of_getElem? h.getElem)) (not_le.2 hsmaller)

end Least

/-! ## The result of an algorithm -/

/-- An algorithm without other requests in between, given the counts in the map: the indexes that it comes
to, and the map with the new counters. -/
def Selecting.eval (counts : HashMap Backend Nat) : Selecting → List Nat × HashMap Backend Nat
  | .read keys next => (next (keys.map counts.lookup)).eval counts
  | .insert key next => next.eval (counts.insert key 0)
  | .done indexes => (indexes, counts)

/-- The count of a backend server. Without a counter it is zero. -/
def countOf (counts : HashMap Backend Nat) (backend : Backend) : Nat := (counts.lookup backend).getD 0

/-- The index that `select_backend_index` returns. -/
def selectedIndex (algorithm : LoadBalancerAlgorithm) (counts : HashMap Backend Nat)
    (backends : List Backend) (answer : Answer) : Nat :=
  pickIndex answer
    ((selectBackendIndex algorithm answer.random₁ answer.random₂ backends).eval counts).1

/-- The first of the two random choices. -/
def randomChoice1 (answer : Answer) (backends : List Backend) : Nat := answer.random₁ % backends.length

/-- The second of the two random choices. It is another one than the first if there is another one. -/
def randomChoice2 (answer : Answer) (backends : List Backend) : Nat :=
  let choice := if 1 < backends.length then answer.random₂ % (backends.length - 1) else 0
  if 1 < backends.length ∧ randomChoice1 answer backends ≤ choice then choice + 1 else choice

section Selection

variable {counts : HashMap Backend Nat} {backends : List Backend}

/-- A new counter says what its absence said. -/
theorem countOf_insert {key : Backend} (hkey : counts.lookup key = none) :
    countOf (counts.insert key 0) = countOf counts := by
  funext backend
  rw [countOf, countOf]
  by_cases hbackend : backend = key
  · rw [hbackend, AList.lookup_insert, hkey]
    rfl
  · rw [AList.lookup_insert_ne hbackend]

/-- An algorithm goes on with the count that it has read, whether it has made a counter or not. -/
theorem eval_withCount (counts : HashMap Backend Nat) (key : Backend) (next : Nat → Selecting) :
    ∃ counts', countOf counts' = countOf counts ∧
      (Selecting.withCount key (counts.lookup key) next).eval counts =
        (next (countOf counts key)).eval counts' := by
  cases hkey : counts.lookup key with
  | none =>
      -- the counter is made, and the algorithm goes on with zero
      refine ⟨counts.insert key 0, countOf_insert hkey, ?_⟩
      rw [countOf, hkey]
      rfl
  | some count =>
      refine ⟨counts, rfl, ?_⟩
      rw [countOf, hkey]
      rfl

/-- A pass of the loop of `LeastConnections`. -/
theorem eval_leastConnections_cons (counts : HashMap Backend Nat) (index : Nat) (minIndexes : List Nat)
    (minConnections : Option Nat) (key : Backend) (rest : List Backend) :
    ∃ counts', countOf counts' = countOf counts ∧
      (Selecting.leastConnections index minIndexes minConnections (key :: rest)).eval counts =
        (if minConnections.all fun min => countOf counts key < min then
          Selecting.leastConnections (index + 1) [index] (some (countOf counts key)) rest
        else Selecting.leastConnections (index + 1) (minIndexes ++ [index]) minConnections rest).eval
          counts' :=
  eval_withCount counts key fun connectionCount =>
    if minConnections.all fun min => connectionCount < min then
      Selecting.leastConnections (index + 1) [index] (some connectionCount) rest
    else Selecting.leastConnections (index + 1) (minIndexes ++ [index]) minConnections rest

/-- The loop of `LeastConnections` when some backend servers have been looked at: the candidates are those
from the first least one on. -/
theorem eval_leastConnections_from (rest : List Backend) :
    ∀ (counts : HashMap Backend Nat) (seen : List Nat) (index count : Nat),
      FirstLeastAt seen index count →
        ∃ index' count', FirstLeastAt (seen ++ rest.map (countOf counts)) index' count' ∧
          ((Selecting.leastConnections seen.length (List.range' index (seen.length - index))
            (some count) rest).eval counts).1 =
              List.range' index' (seen.length + rest.length - index') := by
  induction rest with
  | nil =>
      intro counts seen index count h
      rw [List.map_nil, List.append_nil]
      exact ⟨index, count, h, rfl⟩
  | cons key rest ih =>
      intro counts seen index count h
      -- the pass leaves the counts as they are, so the induction hypothesis is about the same ones
      obtain ⟨counts', hcounts, heval⟩ := eval_leastConnections_cons counts seen.length
        (List.range' index (seen.length - index)) (some count) key rest
      have hlength : (seen ++ [countOf counts key]).length = seen.length + 1 := List.length_append
      have hsum : seen.length + (key :: rest).length =
          (seen ++ [countOf counts key]).length + rest.length := by
        rw [hlength, List.length_cons]
        omega
      rw [heval, Option.all_some, List.map_cons, List.append_cons, hsum]
      by_cases hless : countOf counts key < count
      · -- a smaller count: the candidates start anew from here
        have hnext := ih counts' _ _ _ (h.append_of_lt hless)
        rw [hcounts, hlength, Nat.add_sub_cancel_left] at hnext
        rw [if_pos (decide_eq_true hless), hlength]
        exact hnext
      · have hnext := ih counts' _ _ _ (h.append_of_le (Nat.le_of_not_lt hless))
        -- the entry joins the candidates, although its count may be larger
        have hindex : index ≤ seen.length := h.lt_length.le
        have hjoin : List.range' index (seen.length + 1 - index) =
            List.range' index (seen.length - index) ++ [seen.length] := by
          rw [Nat.succ_sub hindex, List.range'_1_concat, Nat.add_sub_cancel' hindex]
        rw [hcounts, hlength, hjoin] at hnext
        rw [if_neg (by simpa using hless), hlength]
        exact hnext

/-- `LeastConnections` comes to all backend servers from the first least one on. -/
theorem eval_leastConnections (counts : HashMap Backend Nat) (hne : backends ≠ []) :
    ∃ index count, FirstLeastAt (backends.map (countOf counts)) index count ∧
      ((Selecting.leastConnections 0 [] none backends).eval counts).1 =
        List.range' index (backends.length - index) := by
  -- the first backend server is the first candidate, whatever its count
  obtain ⟨first, rest, rfl⟩ := List.exists_cons_of_ne_nil hne
  obtain ⟨counts', hcounts, heval⟩ := eval_leastConnections_cons counts 0 [] none first rest
  have hrest := eval_leastConnections_from rest counts' _ _ _
    (firstLeastAt_singleton (countOf counts first))
  rw [hcounts, List.length_singleton, Nat.add_comm 1 rest.length] at hrest
  rw [heval, Option.all_none, if_pos rfl]
  exact hrest

/-- Both random choices are indexes of the list. -/
theorem randomChoice_lt (answer : Answer) (hne : backends ≠ []) :
    randomChoice1 answer backends < backends.length ∧
      randomChoice2 answer backends < backends.length := by
  have hpos : 0 < backends.length := List.length_pos_of_ne_nil hne
  refine ⟨Nat.mod_lt _ hpos, ?_⟩
  rw [randomChoice2]
  by_cases hseveral : 1 < backends.length
  · -- the second draw is among the other backend servers, and steps over the first choice
    have hlt : answer.random₂ % (backends.length - 1) < backends.length - 1 := Nat.mod_lt _ (by omega)
    rw [if_pos hseveral]
    split <;> omega
  · rw [if_neg hseveral, if_neg fun h => hseveral h.1]
    exact hpos

/-- `TwoRandomChoices` comes to the choice with the smaller count, or to the first one of a tie. -/
theorem eval_twoRandomChoices (counts : HashMap Backend Nat) (answer : Answer)
    {first second : Backend} (hfirst : backends[randomChoice1 answer backends]? = some first)
    (hsecond : backends[randomChoice2 answer backends]? = some second) :
    ((Selecting.twoRandomChoices answer.random₁ answer.random₂ backends).eval counts).1 =
      [if countOf counts first ≤ countOf counts second then randomChoice1 answer backends
        else randomChoice2 answer backends] := by
  -- the second count is read before the first counter is made, when there is none
  let compare (connectionCount1 connectionCount2 : Nat) : Selecting :=
    .done [if connectionCount1 ≤ connectionCount2 then randomChoice1 answer backends
      else randomChoice2 answer backends]
  have hread : (Selecting.twoRandomChoices answer.random₁ answer.random₂ backends).eval counts =
      (Selecting.withCount first (counts.lookup first) fun connectionCount1 =>
        Selecting.withCount second (counts.lookup second) (compare connectionCount1)).eval counts := by
    rw [randomChoice1] at hfirst
    rw [randomChoice2, randomChoice1] at hsecond
    simp only [Selecting.twoRandomChoices, hfirst, hsecond]
    rfl
  have hsecondCount (counts' : HashMap Backend Nat) (connectionCount1 : Nat) :
      ((Selecting.withCount second (counts.lookup second) (compare connectionCount1)).eval counts').1 =
        [if connectionCount1 ≤ countOf counts second then randomChoice1 answer backends
          else randomChoice2 answer backends] := by
    rw [countOf]
    cases counts.lookup second <;> rfl
  rw [hread]
  obtain ⟨counts', -, heval⟩ := eval_withCount counts first fun connectionCount1 =>
    Selecting.withCount second (counts.lookup second) (compare connectionCount1)
  rw [heval, hsecondCount]

end Selection

/-! ## Which backend server is taken -/

/-- Two random choices: the index is that of one of the two, and neither has a smaller count. -/
def TakesSmaller (counts : HashMap Backend Nat) (backends : List Backend) (answer : Answer)
    (index : Nat) : Prop :=
  ∃ first second taken, backends[randomChoice1 answer backends]? = some first ∧
    backends[randomChoice2 answer backends]? = some second ∧ backends[index]? = some taken ∧
    (index = randomChoice1 answer backends ∨ index = randomChoice2 answer backends) ∧
    countOf counts taken ≤ countOf counts first ∧ countOf counts taken ≤ countOf counts second

/-- The backend servers behind one with the least count have that count, too. -/
def NoBusierBehind (counts : HashMap Backend Nat) (backends : List Backend) : Prop :=
  ∀ i j, LeastAt (backends.map (countOf counts)) i → i ≤ j → j < backends.length →
    LeastAt (backends.map (countOf counts)) j

section Taken

variable {counts : HashMap Backend Nat} {backends : List Backend}

/-- Of several candidates a random one is picked. -/
theorem pickIndex_several (answer : Answer) (first second : Nat) (rest : List Nat) :
    pickIndex answer (first :: second :: rest) =
      (first :: second :: rest)[answer.randomIndex % (first :: second :: rest).length]?.getD 0 := by
  rw [← List.getD_eq_getElem?_getD]
  rfl

/-- Any candidate may be picked, and nothing else. -/
theorem pickIndex_mem (answer : Answer) {indexes : List Nat} (hne : indexes ≠ []) :
    pickIndex answer indexes ∈ indexes := by
  rcases indexes with - | ⟨first, - | ⟨second, rest⟩⟩
  · exact absurd rfl hne
  · exact List.mem_singleton_self first
  · have hlt : answer.randomIndex % (first :: second :: rest).length <
        (first :: second :: rest).length := Nat.mod_lt _ (Nat.succ_pos _)
    rw [pickIndex_several, List.getElem?_eq_getElem hlt]
    exact List.getElem_mem hlt

theorem exists_pickIndex_eq {indexes : List Nat} {index : Nat} (hindex : index ∈ indexes) :
    ∃ answer, pickIndex answer indexes = index := by
  obtain ⟨i, hi, hget⟩ := List.mem_iff_getElem.1 hindex
  refine ⟨⟨0, 0, i, false, false⟩, ?_⟩
  rcases indexes with - | ⟨first, - | ⟨second, rest⟩⟩
  · exact absurd hindex List.not_mem_nil
  · exact (List.mem_singleton.1 hindex).symm
  · rw [pickIndex_several, Nat.mod_eq_of_lt hi, List.getElem?_eq_getElem hi, hget]
    rfl

/-- Two random choices take the one with the smaller count. -/
theorem selectedIndex_takesSmaller (counts : HashMap Backend Nat) (hne : backends ≠ [])
    (answer : Answer) :
    TakesSmaller counts backends answer (selectedIndex .twoRandomChoices counts backends answer) := by
  obtain ⟨hlt₁, hlt₂⟩ := randomChoice_lt answer hne
  have hfirst := List.getElem?_eq_getElem hlt₁
  have hsecond := List.getElem?_eq_getElem hlt₂
  have heval := eval_twoRandomChoices counts answer hfirst hsecond
  rw [selectedIndex, selectBackendIndex, heval, pickIndex]
  split
  · rename_i hle
    exact ⟨_, _, _, hfirst, hsecond, hfirst, .inl rfl, le_rfl, hle⟩
  · rename_i hlt
    exact ⟨_, _, _, hfirst, hsecond, hsecond, .inr rfl, (Nat.lt_of_not_le hlt).le, le_rfl⟩

/-- Every index that is returned is one of the list. -/
theorem selectedIndex_lt (algorithm : LoadBalancerAlgorithm) (counts : HashMap Backend Nat)
    (hne : backends ≠ []) (answer : Answer) :
    selectedIndex algorithm counts backends answer < backends.length := by
  cases algorithm with
  | twoRandomChoices =>
      obtain ⟨-, -, taken, -, -, htaken, -⟩ := selectedIndex_takesSmaller counts hne answer
      exact (List.getElem?_eq_some_iff.1 htaken).1
  | leastConnections =>
      obtain ⟨index, count, hfirst, heval⟩ := eval_leastConnections counts hne
      have hindex : index < backends.length := by
        have hlt := hfirst.lt_length
        rwa [List.length_map] at hlt
      -- the candidates are not empty and lie in the list
      have hsome : List.range' index (backends.length - index) ≠ [] := by
        rw [Ne, List.range'_eq_nil_iff]
        omega
      have hmem := pickIndex_mem answer hsome
      rw [List.mem_range'_1] at hmem
      rw [selectedIndex, selectBackendIndex, heval]
      omega

/-- The algorithm for the least connections always takes a backend server with the least count, and the one
with two random choices always the choice with the smaller count, if and only if the backend servers behind
one with the least count have that count. -/
theorem selectedIndex_least_iff (counts : HashMap Backend Nat) (backends : List Backend)
    (hne : backends ≠ []) :
    ((∀ answer, LeastAt (backends.map (countOf counts))
        (selectedIndex .leastConnections counts backends answer)) ∧
      ∀ answer, TakesSmaller counts backends answer
        (selectedIndex .twoRandomChoices counts backends answer)) ↔
      NoBusierBehind counts backends := by
  obtain ⟨index, count, hfirst, heval⟩ := eval_leastConnections counts hne
  have hindex : index < backends.length := by
    have hlt := hfirst.lt_length
    rwa [List.length_map] at hlt
  have hmem (i : Nat) : i ∈ List.range' index (backends.length - index) ↔
      index ≤ i ∧ i < backends.length := by
    rw [List.mem_range'_1]
    omega
  constructor
  · rintro ⟨hleast, -⟩ i j hi hij hj
    -- the later one is a candidate, so some draw takes it
    have hcandidate := (hmem j).2 ⟨(hfirst.le_of_leastAt hi).trans hij, hj⟩
    obtain ⟨answer, hanswer⟩ := exists_pickIndex_eq hcandidate
    have htaken := hleast answer
    rw [selectedIndex, selectBackendIndex, heval, hanswer] at htaken
    exact htaken
  · intro hbehind
    refine ⟨fun answer => ?_, selectedIndex_takesSmaller counts hne⟩
    rw [selectedIndex, selectBackendIndex, heval]
    have hsome : List.range' index (backends.length - index) ≠ [] :=
      List.ne_nil_of_mem ((hmem index).2 ⟨le_rfl, hindex⟩)
    -- whichever candidate is picked, it is the first least one or behind it
    obtain ⟨hle, hlt⟩ := (hmem _).1 (pickIndex_mem answer hsome)
    exact hbehind index _ hfirst.leastAt hle hlt

end Taken

/-! ## An idle and a busy backend server -/

/-- Another backend server. -/
def backendB : Backend := ⟨"http://b".toList, none⟩

/-- The first backend server has no connections, and the second one has five. -/
def busySecond : HashMap Backend Nat := (AList.singleton backendA 0).insert backendB 5

/-- The busy backend server is a candidate, since it comes behind the idle one. -/
theorem selectedIndex_busy :
    selectedIndex .leastConnections busySecond [backendA, backendB] ⟨0, 0, 1, false, false⟩ = 1 ∧
      ¬LeastAt ([backendA, backendB].map (countOf busySecond)) 1 := by
  refine ⟨by decide, ?_⟩
  rintro ⟨count, hcount, hleast⟩
  cases hcount
  exact absurd (hleast 0 (by decide)) (by decide)

/-- With the busy backend server in front, every draw takes the idle one. -/
theorem selectedIndex_least_idleBehind :
    (∀ answer, LeastAt ([backendB, backendA].map (countOf busySecond))
        (selectedIndex .leastConnections busySecond [backendB, backendA] answer)) ∧
      ∀ answer, TakesSmaller busySecond [backendB, backendA] answer
        (selectedIndex .twoRandomChoices busySecond [backendB, backendA] answer) := by
  have hfirst : FirstLeastAt ([backendB, backendA].map (countOf busySecond)) 1 0 := by
    refine ⟨rfl, fun other _ => Nat.zero_le other, fun i other hi hother => ?_⟩
    obtain rfl : i = 0 := by omega
    cases hother
    decide
  refine (selectedIndex_least_iff busySecond [backendB, backendA] (List.cons_ne_nil _ _)).2 ?_
  intro i j hi hij hj
  have hle : 1 ≤ i := hfirst.le_of_leastAt hi
  have hlt : j < 2 := hj
  obtain rfl : j = 1 := by omega
  exact hfirst.leastAt

end Ferron.Modules.ConnectionTrack
