import Ferron.Lib.Overwrite
import Ferron.Rust.Collections
import Ferron.Rust.Path

/-!
# The ACME cache

`AcmeCache` keeps values in memory or in the files of a directory. The files are opened for writing
without being truncated, so a value that is shorter than the one before it leaves the end of that one
behind it (`fileAnswers_iff`).

The operating system decides which file a path names: this is a parameter of the module.
-/

set_option autoImplicit false

namespace Ferron.Acme

open Ferron.Lib.Overwrite

/-! ## Files -/

/-- A file: what it holds and who may use it. -/
structure FileData where
  bytes : Bytes
  mode : Nat

section Files

variable {F : Type} [DecidableEq F]

/-- The files that exist. -/
abbrev Files (F : Type) := F → Option FileData

/-- `tokio::fs::OpenOptions`, with its defaults. -/
structure OpenOptions where
  write : Bool := false
  truncate : Bool := false
  create : Bool := false
  mode : Nat := 0o666

/-- `OpenOptions::open`. -/
def OpenOptions.openFile (options : OpenOptions) (files : Files F) (file : F) :
    Except Str (Files F) :=
  if options.write = false then .error "invalid argument".toList
  else
    match files file with
    | some data =>
        .ok (if options.truncate then Function.update files file (some { data with bytes := [] })
          else files)
    | none =>
        if options.create then .ok (Function.update files file (some ⟨[], options.mode⟩))
        else .error "entity not found".toList

/-- `write_all` on a file that was just opened: the bytes go over what is at its start. -/
def writeAll (files : Files F) (file : F) (value : Bytes) : Files F :=
  Function.update files file
    ((files file).map fun data => { data with bytes := overwrite value data.bytes })

/-- `tokio::fs::read`. -/
def readFile (files : Files F) (file : F) : Except Str Bytes :=
  match files file with
  | some data => .ok data.bytes
  | none => .error "entity not found".toList

/-- `tokio::fs::remove_file`. -/
def removeFile (files : Files F) (file : F) : Files F := Function.update files file none

/-- What the file holds. -/
def contentOf (files : Files F) (file : F) : Option Bytes := (files file).map FileData.bytes

end Files

theorem toOption_readFile {F : Type} (files : Files F) (file : F) :
    (readFile files file).toOption = contentOf files file := by
  rw [readFile, contentOf]
  cases files file <;> rfl

/-! ## The cache -/

/-- The cache for storing ACME data. -/
inductive AcmeCache where
  | memory (cache : HashMap Str Bytes)
  | file (path : PathBuf)

section Operations

variable {F : Type} [DecidableEq F] (locate : PathBuf → F)

/-- Gets data from the cache. -/
def getFromCache (files : Files F) : AcmeCache → Str → Option Bytes
  | .memory cache, key => cache.lookup key
  | .file path, key => (readFile files (locate (path.join key))).toOption

/-- Sets data in the cache. The directory is there. -/
def setInCache (files : Files F) :
    AcmeCache → Str → Bytes → Except Str Unit × Files F × AcmeCache
  | .memory cache, key, value => (.ok (), files, .memory (cache.insert key value))
  | .file path, key, value =>
      -- others are not allowed to read or write; the file is not truncated
      let openOptions : OpenOptions := { write := true, create := true, mode := 0o600 }
      match openOptions.openFile files (locate (path.join key)) with
      | .error err => (.error err, files, .file path)
      | .ok opened => (.ok (), writeAll opened (locate (path.join key)) value, .file path)

/-- What writing a file comes to. A failure leaves something of the file. -/
inductive Write where
  | succeeds
  | fails (err : Str) (left : Option FileData)

/-- `set_in_cache` when writing the file may fail. -/
def setInCacheWith (files : Files F) (cache : AcmeCache) (key : Str) (value : Bytes) (write : Write) :
    Except Str Unit × Files F × AcmeCache :=
  match cache, write with
  | .file path, .fails err left =>
      (.error err, Function.update files (locate (path.join key)) left, .file path)
  | _, _ => setInCache locate files cache key value

/-- Removes data from the cache. -/
def removeFromCache (files : Files F) : AcmeCache → Str → Files F × AcmeCache
  | .memory cache, key => (files, .memory (cache.erase key))
  | .file path, key => (removeFile files (locate (path.join key)), .file path)

/-- An operation on the cache. -/
inductive Op where
  | set (key : Str) (value : Bytes)
  | get (key : Str)
  | remove (key : Str)
  deriving DecidableEq

/-- The key of an operation. -/
def Op.key : Op → Str
  | .set key _ => key
  | .get key => key
  | .remove key => key

/-- What an operation gives back. -/
inductive Answer where
  | stored (result : Except Str Unit)
  | found (value : Option Bytes)
  | removed

/-- The answer of an operation, with the files and the cache after it. -/
def perform (files : Files F) (cache : AcmeCache) : Op → Answer × Files F × AcmeCache
  | .set key value =>
      let (result, files, cache) := setInCache locate files cache key value
      (.stored result, files, cache)
  | .get key => (.found (getFromCache locate files cache key), files, cache)
  | .remove key => (.removed, removeFromCache locate files cache key)

/-- The answers of operations one after the other. -/
def answers (files : Files F) (cache : AcmeCache) : List Op → List Answer
  | [] => []
  | op :: ops =>
      let (answer, files, cache) := perform locate files cache op
      answer :: answers files cache ops

end Operations

/-! ## What a cache is for -/

/-- The values that were set for a key since it was last removed. -/
def setValues (key : Str) (ops : List Op) : List Bytes :=
  ops.foldl (fun values op =>
    match op with
    | .set other value => if other = key then values ++ [value] else values
    | .get _ => values
    | .remove other => if other = key then [] else values) []

/-- The last value that was set for a key. -/
def lastSet (key : Str) (ops : List Op) : Option Bytes := (setValues key ops).getLast?

/-- The answer that an operation should give after others. -/
def expected (before : List Op) : Op → Answer
  | .set _ _ => .stored (.ok ())
  | .get key => .found (lastSet key before)
  | .remove _ => .removed

/-- The answers that operations should give after others. -/
def expectedAnswers (before : List Op) : List Op → List Answer
  | [] => []
  | op :: ops => expected before op :: expectedAnswers (before ++ [op]) ops

theorem setValues_concat (key : Str) (ops : List Op) (op : Op) :
    setValues key (ops ++ [op]) = match op with
      | .set other value => if other = key then setValues key ops ++ [value] else setValues key ops
      | .get _ => setValues key ops
      | .remove other => if other = key then [] else setValues key ops := by
  rw [setValues, List.foldl_append]
  rfl

/-- Other keys have the values they had. -/
theorem setValues_of_ne {key : Str} (ops : List Op) {op : Op} (h : op.key ≠ key) :
    setValues key (ops ++ [op]) = setValues key ops := by
  rw [setValues_concat]
  cases op with
  | set other value => exact if_neg h
  | get other => rfl
  | remove other => exact if_neg h

section Refinement

variable {F : Type} [DecidableEq F] (locate : PathBuf → F)

/-- The cache in memory has the last value of each key. -/
def MemoryInv (before : List Op) (cache : HashMap Str Bytes) : Prop :=
  ∀ key, cache.lookup key = lastSet key before

/-- In memory an operation answers as it should. -/
theorem perform_memory (files : Files F) {before : List Op} {cache : HashMap Str Bytes}
    (h : MemoryInv before cache) (op : Op) :
    ∃ after, perform locate files (.memory cache) op = (expected before op, files, .memory after) ∧
      MemoryInv (before ++ [op]) after := by
  have hother : ∀ {key other}, op.key = key → key ≠ other →
      cache.lookup other = lastSet other (before ++ [op]) := by
    rintro _ other rfl hne
    rw [lastSet, setValues_of_ne before hne]
    exact h other
  cases op with
  | set key value =>
      refine ⟨cache.insert key value, rfl, fun other => ?_⟩
      by_cases hkey : key = other
      · subst hkey
        rw [AList.lookup_insert, lastSet, setValues_concat]
        dsimp only
        rw [if_pos rfl, List.getLast?_concat]
      · rw [AList.lookup_insert_ne (Ne.symm hkey)]
        exact hother rfl hkey
  | get key =>
      refine ⟨cache, ?_, fun other => ?_⟩
      · rw [perform, getFromCache, h key, expected]
      · rw [lastSet, setValues_concat]
        exact h other
  | remove key =>
      refine ⟨cache.erase key, rfl, fun other => ?_⟩
      by_cases hkey : key = other
      · subst hkey
        rw [AList.lookup_erase, lastSet, setValues_concat]
        dsimp only
        rw [if_pos rfl]
        rfl
      · rw [AList.lookup_erase_ne (Ne.symm hkey)]
        exact hother rfl hkey

/-- The cache in memory answers as it should. -/
theorem answers_memory (files : Files F) (ops : List Op) {before : List Op}
    {cache : HashMap Str Bytes} (h : MemoryInv before cache) :
    answers locate files (.memory cache) ops = expectedAnswers before ops := by
  induction ops generalizing before cache with
  | nil => rfl
  | cons op ops ih =>
      obtain ⟨after, hperform, hafter⟩ := perform_memory locate files h op
      rw [answers, hperform, expectedAnswers]
      dsimp only
      rw [ih hafter]

/-- No two keys of the operations name the same file. -/
def DistinctFiles (path : PathBuf) (ops : List Op) : Prop :=
  ∀ op ∈ ops, ∀ other ∈ ops,
    locate (path.join op.key) = locate (path.join other.key) → op.key = other.key

/-- The file of each key of the operations holds the values that were set, one written over the
other. -/
def FileInv (path : PathBuf) (ops before : List Op) (files : Files F) : Prop :=
  ∀ op ∈ ops, contentOf files (locate (path.join op.key)) = content (setValues op.key before)

/-- The answer of an operation on files. -/
def fileAnswer (before : List Op) : Op → Answer
  | .get key => .found (content (setValues key before))
  | op => expected before op

theorem contentOf_update (files : Files F) (file other : F) (data : Option FileData) :
    contentOf (Function.update files file data) other =
      if other = file then data.map FileData.bytes else contentOf files other := by
  rw [contentOf, Function.update_apply]
  split
  · rfl
  · rfl

/-- What is in the files after a value is set. -/
theorem setInCache_file (files : Files F) (path : PathBuf) (key : Str) (value : Bytes) :
    ∃ after, setInCache locate files (.file path) key value = (.ok (), after, .file path) ∧
      ∀ file, contentOf after file =
        if file = locate (path.join key) then
          some (overwrite value ((contentOf files file).getD []))
        else contentOf files file := by
  generalize hfile : locate (path.join key) = target
  cases hdata : files target with
  | none =>
      refine ⟨writeAll (Function.update files target (some ⟨[], 0o600⟩)) target value, ?_, ?_⟩
      · simp [setInCache, OpenOptions.openFile, hfile, hdata]
      · intro file
        rw [writeAll, contentOf_update, contentOf_update, Function.update_self]
        split
        · rename_i htarget
          rw [htarget, contentOf, hdata]
          rfl
        · rfl
  | some data =>
      refine ⟨writeAll files target value, ?_, ?_⟩
      · simp [setInCache, OpenOptions.openFile, hfile, hdata]
      · intro file
        rw [writeAll, contentOf_update, hdata]
        split
        · rename_i htarget
          rw [htarget, contentOf, hdata]
          rfl
        · rfl

/-- A file that can be written is written to as usual. -/
theorem setInCacheWith_succeeds (files : Files F) (cache : AcmeCache) (key : Str) (value : Bytes) :
    setInCacheWith locate files cache key value .succeeds = setInCache locate files cache key value := by
  cases cache <;> rfl

/-- The other files stay as they are, also when the writing fails. -/
theorem contentOf_setInCacheWith_of_ne (files : Files F) (path : PathBuf) (key : Str) (value : Bytes)
    (write : Write) {file : F} (hne : file ≠ locate (path.join key)) :
    contentOf (setInCacheWith locate files (.file path) key value write).2.1 file = contentOf files file := by
  cases write with
  | succeeds =>
      obtain ⟨after, hset, hafter⟩ := setInCache_file locate files path key value
      rw [setInCacheWith_succeeds, hset]
      dsimp only
      rw [hafter, if_neg hne]
  | fails err left =>
      rw [setInCacheWith]
      dsimp only
      rw [contentOf_update, if_neg hne]

/-- On files an operation answers with what is left of the values. -/
theorem perform_file {path : PathBuf} {ops before : List Op} {files : Files F}
    (hfiles : DistinctFiles locate path ops) (h : FileInv locate path ops before files) {op : Op}
    (hop : op ∈ ops) :
    ∃ after, perform locate files (.file path) op = (fileAnswer before op, after, .file path) ∧
      FileInv locate path ops (before ++ [op]) after := by
  -- an operation on one key leaves the files of the others, and what was set under them
  have hother : ∀ key, op.key = key → ∀ other ∈ ops, key ≠ other.key →
      locate (path.join other.key) ≠ locate (path.join key) ∧
        contentOf files (locate (path.join other.key)) =
          content (setValues other.key (before ++ [op])) := by
    rintro _ rfl other hmem hne
    refine ⟨fun hsame => hne (hfiles op hop other hmem hsame.symm), ?_⟩
    rw [setValues_of_ne before hne]
    exact h other hmem
  cases op with
  | set key value =>
      obtain ⟨after, hset, hafter⟩ := setInCache_file locate files path key value
      refine ⟨after, ?_, fun other hmem => ?_⟩
      · rw [perform, hset]
        rfl
      rw [hafter]
      by_cases hkey : key = other.key
      · have hvalues := h other hmem
        rw [← hkey] at hvalues ⊢
        rw [if_pos rfl, hvalues, setValues_concat]
        dsimp only
        rw [if_pos rfl, content_concat]
      · obtain ⟨hfile, hvalues⟩ := hother key rfl other hmem hkey
        rw [if_neg hfile, hvalues]
  | get key =>
      refine ⟨files, ?_, fun other hmem => ?_⟩
      · have hvalue : contentOf files (locate (path.join key)) = content (setValues key before) :=
          h _ hop
        rw [perform, getFromCache, toOption_readFile, hvalue, fileAnswer]
      · rw [setValues_concat]
        exact h other hmem
  | remove key =>
      refine ⟨removeFile files (locate (path.join key)), rfl, fun other hmem => ?_⟩
      rw [removeFile, contentOf_update]
      by_cases hkey : key = other.key
      · rw [← hkey, if_pos rfl, setValues_concat]
        dsimp only
        rw [if_pos rfl]
        rfl
      · obtain ⟨hfile, hvalues⟩ := hother key rfl other hmem hkey
        rw [if_neg hfile, hvalues]

/-- No value that is read is shorter than one that was set for its key before, since the key was last
removed. -/
def NeverShorter (before ops : List Op) : Prop :=
  ∀ earlier key, earlier ++ [.get key] <+: ops → NoneLonger (setValues key (before ++ earlier))

theorem neverShorter_nil (before : List Op) : NeverShorter before [] :=
  fun _ _ hprefix => absurd (List.prefix_nil.1 hprefix) (List.append_ne_nil_of_right_ne_nil _
    (List.cons_ne_nil _ _))

theorem neverShorter_cons (before : List Op) (op : Op) (ops : List Op) :
    NeverShorter before (op :: ops) ↔
      (∀ key, op = .get key → NoneLonger (setValues key before)) ∧
        NeverShorter (before ++ [op]) ops := by
  constructor
  · intro h
    refine ⟨?_, fun earlier key hprefix => ?_⟩
    · rintro key rfl
      have hfirst := h [] key (by simp)
      rwa [List.append_nil] at hfirst
    · rw [List.append_assoc]
      exact h (op :: earlier) key (List.cons_prefix_cons.2 ⟨rfl, hprefix⟩)
  · rintro ⟨hfirst, hrest⟩ earlier key hprefix
    cases earlier with
    | nil =>
        rw [List.append_nil]
        exact hfirst key (List.cons_prefix_cons.1 hprefix).1.symm
    | cons other earlier =>
        obtain ⟨rfl, htail⟩ := List.cons_prefix_cons.1 hprefix
        have htidy := hrest earlier key htail
        rwa [List.append_assoc] at htidy

theorem fileAnswer_eq_expected_iff (before : List Op) (op : Op) :
    fileAnswer before op = expected before op ↔
      ∀ key, op = .get key → NoneLonger (setValues key before) := by
  cases op with
  | set key value => exact iff_of_true rfl fun _ h => nomatch h
  | get key =>
      rw [fileAnswer, expected, Answer.found.injEq, lastSet, content_eq_getLast?_iff]
      constructor
      · rintro h other hother
        rw [← Op.get.inj hother]
        exact h
      · exact fun h => h key rfl
  | remove key => exact iff_of_true rfl fun _ h => nomatch h

/-- The answers on files are the expected ones when no value that is read is shorter than one before
it. -/
theorem answers_file_iff {path : PathBuf} {all : List Op} (hfiles : DistinctFiles locate path all)
    {ops before : List Op} (hops : ∀ op ∈ ops, op ∈ all) {files : Files F}
    (h : FileInv locate path all before files) :
    answers locate files (.file path) ops = expectedAnswers before ops ↔ NeverShorter before ops := by
  induction ops generalizing before files with
  | nil => exact iff_of_true rfl (neverShorter_nil before)
  | cons op ops ih =>
      obtain ⟨after, hperform, hafter⟩ :=
        perform_file locate hfiles h (hops op List.mem_cons_self)
      rw [answers, hperform, expectedAnswers, neverShorter_cons]
      dsimp only
      rw [List.cons_eq_cons, ih (fun other hother => hops other (List.mem_cons_of_mem _ hother)) hafter,
        fileAnswer_eq_expected_iff]

/-- Starting without values, the cache in files gives the same answers as the one in memory, namely the
last values set, exactly when no value that is read is shorter than one set before it. -/
theorem fileAnswers_iff (path : PathBuf) (files : Files F) (ops : List Op)
    (hfiles : DistinctFiles locate path ops)
    (hstart : ∀ op ∈ ops, files (locate (path.join op.key)) = none) :
    (answers locate files (.file path) ops = answers locate files (.memory ∅) ops ∧
      answers locate files (.memory ∅) ops = expectedAnswers [] ops) ↔ NeverShorter [] ops := by
  have hempty : MemoryInv [] ∅ := fun key => AList.lookup_empty key
  have hnone : FileInv locate path ops [] files := by
    intro op hop
    rw [contentOf, hstart op hop]
    rfl
  rw [answers_memory locate files ops hempty, and_iff_left rfl]
  exact answers_file_iff locate hfiles (fun _ h => h) hnone

end Refinement

/-- A value that grows, and a key that is removed: the answers are the last values. -/
theorem fileAnswers_iff_grows :
    let ops : List Op := [.set ['a'] [1], .set ['a'] [2, 3], .get ['a'], .remove ['a'], .get ['a']]
    answers id (fun _ => none) (.file ['c']) ops = answers id (fun _ => none) (.memory ∅) ops ∧
      answers id (fun _ => none) (.memory ∅) ops = expectedAnswers [] ops := by
  intro ops
  have hkey : ∀ op ∈ ops, op.key = ['a'] := by decide
  have hfiles : DistinctFiles id (['c'] : PathBuf) ops := fun op hop other hother _ =>
    (hkey op hop).trans (hkey other hother).symm
  refine (fileAnswers_iff id ['c'] (fun _ => none) ops hfiles fun _ _ => rfl).2 ?_
  simp [ops, neverShorter_cons, neverShorter_nil, setValues, NoneLonger]

/-- A shorter value leaves the end of the one before it. -/
theorem answers_file_shorter :
    let ops : List Op := [.set ['a'] [1, 2], .set ['a'] [3], .get ['a']]
    answers id (fun _ => none) (.file ['c']) ops =
        [.stored (.ok ()), .stored (.ok ()), .found (some [3, 2])] ∧
      answers id (fun _ => none) (.memory ∅) ops =
        [.stored (.ok ()), .stored (.ok ()), .found (some [3])] ∧
      answers id (fun _ => none) (.file ['c']) ops ≠ answers id (fun _ => none) (.memory ∅) ops := by
  intro ops
  have hfile : answers id (fun _ => none) (.file ['c']) ops =
      [.stored (.ok ()), .stored (.ok ()), .found (some [3, 2])] := rfl
  have hmemory : answers (F := PathBuf) id (fun _ => none) (.memory ∅) ops =
      [.stored (.ok ()), .stored (.ok ()), .found (some [3])] := rfl
  refine ⟨hfile, hmemory, ?_⟩
  rw [hfile, hmemory]
  simp

end Ferron.Acme
