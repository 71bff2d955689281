import Ferron.HostLookup
import Ferron.Lib.LabelledLines
import Ferron.Lib.Run
import Ferron.Modules.RangeRequests
import Mathlib.Data.Bool.AllAny

/-!
# Entity tags of static files

The tag of a file is a hash of its path, its size and the second of its modification. It is sent as a weak
tag, with a suffix for the encoding of the response; the module for dynamic compression adds another suffix.
A client that has a response asks with its tag whether the file has changed.

`emittedTag_roundTrip` says that the tag is found in whatever has been sent, so that such a request is
answered by 304 exactly when the path, the size and the second are the same, and that `If-Match` fails
exactly when they are not. A change within one second is not seen (`sameSecond_notModified`).
-/

set_option autoImplicit false

namespace Ferron.Modules.EntityTags

open Ferron.Http
open Ferron.Lib.Run
open HostLookup (IsVisible toStr_asciiBytes)

/-! ## Tags -/

/-- The quotation mark around a tag. -/
def quote : Char := Char.ofNat 0x22

/-- `extract_etag_inner`. -/
def extractEtagInner (input : Str) (weak : Bool) : Option Str :=
  -- the mark of a weak tag is taken away first
  let weakMightRemoved := if weak && "W/".toList.isPrefixOf input then input.drop 2 else input
  let trimmed := (weakMightRemoved.dropWhile (· = quote)).rdropWhile (· = quote)
  (trimmed.splitOn '-').head?

/-- `etag_strong_to_weak`. -/
def etagStrongToWeak (input : Str) : Str :=
  if "W/".toList.isPrefixOf input then input else "W/".toList ++ input

/-- The encodings of a response. -/
inductive Encoding where
  | br | zstd | deflate | gzip

/-- The name of an encoding. -/
def Encoding.name : Encoding → Str
  | br => "br".toList
  | zstd => "zstd".toList
  | deflate => "deflate".toList
  | gzip => "gzip".toList

/-- The `ETag` header of a whole file or of a part of it: with a suffix if it is encoded. -/
def servedEtag (etag : Str) (encoding : Option Encoding) : Str :=
  "W/".toList ++ quote :: (etag ++ encoding.elim [] (fun encoding => '-' :: encoding.name) ++ [quote])

/-- The suffix that the module for dynamic compression adds. -/
def addDynamicSuffix (etagStr : Str) (algorithm : Encoding) : Str :=
  let suffix := "-dynamic-".toList ++ algorithm.name
  if etagStr.getLast? = some quote then etagStr.dropLast ++ suffix ++ [quote] else etagStr ++ suffix

/-- What may be sent as the `ETag` header of a file with the tag: by the static file module, after dynamic
compression, or in the answer to a client that has sent such a header back. -/
inductive Emitted (etag : Str) : Str → Prop where
  | served (encoding : Option Encoding) : Emitted etag (servedEtag etag encoding)
  | dynamic {etagStr : Str} (algorithm : Encoding) :
      Emitted etag etagStr → Emitted etag (addDynamicSuffix etagStr algorithm)
  | notModified {etagStr : Str} : Emitted etag etagStr → Emitted etag (etagStrongToWeak etagStr)

/-! ## Versions of a file -/

/-- A file: its path, its size, and when it was modified, in nanoseconds since 1970, if this is known. -/
structure Version where
  path : PathBuf
  length : UInt64
  modified : Option Int

/-- The seconds of a time, without the fraction. -/
def asSecs (mtime : Int) : Int :=
  if 0 ≤ mtime then mtime / 1000000000 else -(-mtime / 1000000000)

/-- `to_string` of an `i128`. -/
def displayInt (n : Int) : Str :=
  if n < 0 then '-' :: Nat.toDigits 10 n.natAbs else Nat.toDigits 10 n.natAbs

/-- `etag_cache_key`. -/
def etagCacheKey (version : Version) : Str :=
  version.path ++ '-' :: (Nat.toDigits 10 version.length.toNat ++
    '-' :: version.modified.elim [] fun mtime => displayInt (asSecs mtime))

/-- The lowest hexadecimal digits of a number. -/
def hexDigits : Nat → Nat → Str
  | 0, _ => []
  | digits + 1, n => hexDigits digits (n / 16) ++ [Nat.digitChar (n % 16)]

/-- The tag of a hash: 16 hexadecimal digits. -/
def formatHash (hash : UInt64) : Str := hexDigits 16 hash.toNat

/-- The cache of tags: the most recent entries, the last one at the end. -/
abbrev EtagCache := List (Str × Str)

/-- `LruCache::peek`. -/
def peek (cache : EtagCache) (key : Str) : Option Str :=
  (cache.find? fun entry => entry.1 = key).map Prod.snd

/-- `LruCache::insert`: the oldest entry is dropped when there are more than 1000. -/
def insert (cache : EtagCache) (key etag : Str) : EtagCache :=
  let cache := (cache.filter fun entry => entry.1 ≠ key) ++ [(key, etag)]
  -- the oldest entry is the first one
  if 1000 < cache.length then cache.tail else cache

/-! ## Conditional requests -/

/-- The conditions of a request, and the headers that the answers to them have. -/
structure Conditions where
  ifNoneMatch : Option HeaderValue
  ifMatch : Option HeaderValue
  vary : HeaderValue
  cacheControl : Option HeaderValue

/-- What comes of the conditions: an answer, a status with headers, or the file is served with its tag. -/
inductive Checked where
  | response (status : Nat) (headers : HeaderMap)
  | status (code : Nat) (headers : HeaderMap)
  | serve (etag : Str)

/-- The status, unless the file is served. -/
def Checked.statusCode : Checked → Option Nat
  | response code _ => some code
  | status code _ => some code
  | serve _ => none

section Handler

-- `xxh3_64` of the bytes of a text
variable (xxh3 : Str → UInt64)

/-- The tag of a file, from the cache or from its key. -/
def currentEtag (cache : EtagCache) (version : Version) : Str :=
  (peek cache (etagCacheKey version)).getD (formatHash (xxh3 (etagCacheKey version)))

/-- The tag of a key is put into the cache. Other requests may go on between the look into the cache and
this. -/
def cacheEtag (cache : EtagCache) (version : Version) : EtagCache :=
  insert cache (etagCacheKey version) (formatHash (xxh3 (etagCacheKey version)))

/-- `If-Match`. -/
def checkIfMatch (etag : Str) (conditions : Conditions) : Checked :=
  let varyHeaders : HeaderMap := [("vary".toList, conditions.vary)]
  match conditions.ifMatch with
  | none => .serve etag
  | some ifMatchValue =>
      match toStr ifMatchValue with
      | none => .status 400 varyHeaders
      | some ifMatch =>
          if ifMatch ≠ "*".toList ∧ (extractEtagInner ifMatch true).any fun extracted => extracted ≠ etag then
            .status 412 (("etag".toList, ifMatchValue) :: varyHeaders)
          else .serve etag

/-- The conditions of a request: `If-None-Match` comes first. -/
def checkConditions (cache : EtagCache) (version : Version) (conditions : Conditions) : Checked :=
  let etag := currentEtag xxh3 cache version
  let varyHeaders : HeaderMap := [("vary".toList, conditions.vary)]
  match conditions.ifNoneMatch with
  | none => checkIfMatch etag conditions
  | some ifNoneMatchValue =>
      match toStr ifNoneMatchValue with
      | none => .status 400 varyHeaders
      | some ifNoneMatch =>
          if extractEtagInner ifNoneMatch true = some etag then
            .response 304 (("etag".toList, asciiBytes (etagStrongToWeak ifNoneMatch)) :: varyHeaders ++
              conditions.cacheControl.toList.map fun value => ("cache-control".toList, value))
          else checkIfMatch etag conditions

end Handler

/-! ## Hashes -/

theorem digitChar_injective {a b : Nat} (ha : a < 16) (hb : b < 16)
    (h : Nat.digitChar a = Nat.digitChar b) : a = b := by
  have hall : ∀ a < 16, ∀ b < 16, Nat.digitChar a = Nat.digitChar b → a = b := by decide
  exact hall a ha b hb h

/-- The digits of a hash are neither hyphens nor quotation marks, and a header may have them. -/
theorem mem_hexDigits {digits n : Nat} {c : Char} (h : c ∈ hexDigits digits n) :
    c ≠ '-' ∧ c ≠ quote ∧ IsVisible c := by
  have hall : ∀ d < 16, Nat.digitChar d ≠ '-' ∧ Nat.digitChar d ≠ quote ∧
      IsVisible (Nat.digitChar d) := by decide
  induction digits generalizing n with
  | zero => exact absurd h List.not_mem_nil
  | succ digits ih =>
      rw [hexDigits, List.mem_append, List.mem_singleton] at h
      rcases h with hfront | rfl
      · exact ih hfront
      · exact hall _ (Nat.mod_lt _ (by decide))

theorem hexDigits_injective {digits n m : Nat} (hn : n < 16 ^ digits) (hm : m < 16 ^ digits)
    (h : hexDigits digits n = hexDigits digits m) : n = m := by
  induction digits generalizing n m with
  | zero => omega
  | succ digits ih =>
      rw [hexDigits, hexDigits] at h
      -- the last digits agree, and the induction hypothesis is for the quotients
      obtain ⟨hfront, hlast⟩ := List.append_inj' h rfl
      have hquot : n / 16 = m / 16 := by
        apply ih _ _ hfront
        · rw [Nat.div_lt_iff_lt_mul (by decide)]
          rwa [Nat.pow_succ] at hn
        · rw [Nat.div_lt_iff_lt_mul (by decide)]
          rwa [Nat.pow_succ] at hm
      have hrem : n % 16 = m % 16 :=
        digitChar_injective (Nat.mod_lt _ (by decide)) (Nat.mod_lt _ (by decide)) (List.cons.inj hlast).1
      omega

theorem formatHash_injective {hash other : UInt64} (h : formatHash hash = formatHash other) :
    hash = other := by
  apply UInt64.toNat_inj.1
  apply hexDigits_injective _ _ h
  · exact hash.toNat_lt
  · exact other.toNat_lt

theorem formatHash_ne_nil (hash : UInt64) : formatHash hash ≠ [] := by
  rw [formatHash, hexDigits]
  simp

/-! ## Finding a tag -/

section Tags

variable {etag etagStr suffix : Str}

/-- A tag with suffixes, in quotation marks. -/
structure Decorated (etag etagStr suffix : Str) : Prop where
  shape : etagStr = "W/".toList ++ quote :: (etag ++ suffix ++ [quote])
  separated : ∀ c, suffix.head? = some c → c = '-'
  plain : ∀ c ∈ suffix, c ≠ quote ∧ IsVisible c

theorem mem_encoding_name {encoding : Encoding} {c : Char} (h : c ∈ encoding.name) :
    c ≠ quote ∧ IsVisible c := by
  have hall : ∀ c ∈ encoding.name, c ≠ quote ∧ IsVisible c := by
    cases encoding <;> exact List.all_iff_forall_prop.1 (by decide)
  exact hall c h

/-- Whatever is sent is the tag with suffixes. -/
theorem Emitted.exists_decorated (h : Emitted etag etagStr) : ∃ suffix, Decorated etag etagStr suffix := by
  induction h with
  | served encoding =>
      cases encoding with
      | none =>
          refine ⟨[], ?_, fun c hc => ?_, fun c hc => absurd hc List.not_mem_nil⟩
          · rfl
          · cases hc
      | some encoding =>
          refine ⟨'-' :: encoding.name, rfl, fun c hc => (Option.some.inj hc).symm, fun c hc => ?_⟩
          rcases List.mem_cons.1 hc with rfl | hname
          · decide
          · exact mem_encoding_name hname
  | @dynamic etagStr algorithm _ ih =>
      obtain ⟨suffix, hshape, hseparated, hplain⟩ := ih
      have hcat : etagStr = ("W/".toList ++ quote :: (etag ++ suffix)) ++ [quote] := by
        rw [hshape]
        simp only [List.append_assoc, List.cons_append]
      -- the new suffix goes in front of the closing quotation mark
      refine ⟨suffix ++ ("-dynamic-".toList ++ algorithm.name), ?_, ?_, ?_⟩
      · rw [addDynamicSuffix, hcat, List.getLast?_concat, if_pos rfl, List.dropLast_concat]
        simp only [List.append_assoc, List.cons_append]
      · intro c hc
        cases suffix with
        | nil => exact (Option.some.inj hc).symm
        | cons first suffix => exact hseparated c hc
      · intro c hc
        have hdynamic : ∀ c ∈ "-dynamic-".toList, c ≠ quote ∧ IsVisible c :=
          List.all_iff_forall_prop.1 (by decide)
        rcases List.mem_append.1 hc with hbefore | hlater
        · exact hplain c hbefore
        · rcases List.mem_append.1 hlater with hword | hname
          · exact hdynamic c hword
          · exact mem_encoding_name hname
  | @notModified etagStr _ ih =>
      obtain ⟨suffix, hdecorated⟩ := ih
      -- what has been sent is weak already
      have hweak : etagStrongToWeak etagStr = etagStr := by
        rw [etagStrongToWeak, hdecorated.shape, if_pos]
        rfl
      rw [hweak]
      exact ⟨suffix, hdecorated⟩

/-- A decorated tag is found: the quotation marks are taken away, and the suffixes come behind a hyphen. -/
theorem Decorated.extract (h : Decorated etag etagStr suffix) (hne : etag ≠ [])
    (hetag : ∀ c ∈ etag, c ≠ '-' ∧ c ≠ quote) : extractEtagInner etagStr true = some etag := by
  have hinner : ∀ c ∈ etag ++ suffix, c ≠ quote := by
    intro c hc
    rcases List.mem_append.1 hc with htag | hsuffix
    · exact (hetag c htag).2
    · exact (h.plain c hsuffix).1
  have hquote : (fun c => decide (c = quote)) quote = true := decide_eq_true rfl
  -- only the outer quotation marks go, since the tag and the suffix have none
  have hstart : (quote :: (etag ++ suffix ++ [quote])).dropWhile (fun c => decide (c = quote)) =
      etag ++ suffix ++ [quote] := by
    obtain ⟨c, rest, hc⟩ := List.exists_cons_of_ne_nil hne
    rw [List.dropWhile_cons_of_pos (p := fun c => decide (c = quote)) hquote, hc, List.cons_append,
      List.cons_append, List.dropWhile_cons_of_neg]
    intro hmark
    exact (hetag c (hc ▸ List.mem_cons_self)).2 (of_decide_eq_true hmark)
  have hend : (etag ++ suffix ++ [quote]).rdropWhile (fun c => decide (c = quote)) = etag ++ suffix := by
    rw [List.rdropWhile_concat_pos (fun c => decide (c = quote)) _ _ hquote, List.rdropWhile_eq_self_iff]
    intro hsome hmark
    exact hinner _ (List.getLast_mem hsome) (of_decide_eq_true hmark)
  -- the suffix is empty or starts with a hyphen, and the tag has none
  have hfirst : (etag ++ suffix).takeWhile (fun c => decide (c ≠ '-')) = etag := by
    have hkept : ∀ c ∈ etag, decide (c ≠ '-') = true := fun c hc => decide_eq_true (hetag c hc).1
    rw [List.takeWhile_append_of_pos hkept]
    cases hsuffix : suffix with
    | nil => exact List.append_nil etag
    | cons first rest =>
        have hhyphen : first = '-' := h.separated first (by rw [hsuffix]; rfl)
        rw [List.takeWhile_cons_of_neg (by simp [hhyphen]), List.append_nil]
  have hweak : (true && "W/".toList.isPrefixOf etagStr) = true := by
    rw [h.shape]
    rfl
  have hdrop : etagStr.drop 2 = quote :: (etag ++ suffix ++ [quote]) := by
    rw [h.shape]
    rfl
  obtain ⟨parts, hparts⟩ := RangeRequests.exists_splitOn (etag ++ suffix)
  rw [extractEtagInner, if_pos hweak, hdrop, hstart, hend, hparts, hfirst]
  rfl

/-- A header may have a decorated tag. -/
theorem Decorated.toStr_asciiBytes (h : Decorated etag etagStr suffix) (hetag : ∀ c ∈ etag, IsVisible c) :
    toStr (asciiBytes etagStr) = some etagStr := by
  apply HostLookup.toStr_asciiBytes
  have hweak : ∀ c ∈ "W/".toList, IsVisible c := List.all_iff_forall_prop.1 (by decide)
  have hquote : IsVisible quote := by decide
  rw [h.shape]
  intro c hc
  simp only [List.mem_append, List.mem_cons, List.not_mem_nil, or_false] at hc
  rcases hc with hprefix | rfl | (htag | hsuffix) | rfl
  · exact hweak c hprefix
  · exact hquote
  · exact hetag c htag
  · exact (h.plain c hsuffix).2
  · exact hquote

end Tags

/-! ## The key of a version -/

/-- The same path, size and second. -/
def SameVersion (version other : Version) : Prop :=
  version.path = other.path ∧ version.length = other.length ∧
    version.modified.map asSecs = other.modified.map asSecs

/-- The last separator ends what comes before it. -/
theorem append_separator_inj {front front' back back' : Str} (hback : '-' ∉ back) (hback' : '-' ∉ back')
    (h : front ++ '-' :: back = front' ++ '-' :: back') : front = front' ∧ back = back' := by
  -- read backwards, the text is a line with a label that has no separator
  have hline : Lib.LabelledLines.line '-' (back.reverse, front.reverse) =
      Lib.LabelledLines.line '-' (back'.reverse, front'.reverse) := by
    have hreverse := congrArg List.reverse h
    simpa [Lib.LabelledLines.line] using hreverse
  have hpair := Lib.LabelledLines.line_injective (by simpa using hback) (by simpa using hback') hline
  obtain ⟨hlast, hfirst⟩ := Prod.mk.inj hpair
  exact ⟨List.reverse_injective hfirst, List.reverse_injective hlast⟩

theorem hyphen_not_mem_toDigits (n : Nat) : '-' ∉ Nat.toDigits 10 n := by
  intro hmem
  exact absurd (Nat.isDigit_of_mem_toDigits (by decide) (by decide) hmem) (by decide)

theorem toDigits_injective {n m : Nat} (h : Nat.toDigits 10 n = Nat.toDigits 10 m) : n = m := by
  rw [← @Nat.ofDigitChars_ten_toDigits n, h, Nat.ofDigitChars_ten_toDigits]

/-- The text of a time, if the time is known. -/
def timeText (seconds : Option Int) : Str := seconds.elim [] displayInt

/-- What a sign and digits say. Without digits the time is not known. -/
def readTime (negative : Bool) (digits : Str) : Option Int :=
  if digits = [] then none
  else some (if negative then -Nat.ofDigitChars 10 digits 0 else Nat.ofDigitChars 10 digits 0)

/-- The text of a time is a sign and digits that say it. -/
theorem exists_timeText (seconds : Option Int) :
    ∃ negative digits, timeText seconds = (if negative then ['-'] else []) ++ digits ∧ '-' ∉ digits ∧
      readTime negative digits = seconds := by
  cases seconds with
  | none => exact ⟨false, [], rfl, List.not_mem_nil, rfl⟩
  | some time =>
      have hdigits : Nat.toDigits 10 time.natAbs ≠ [] := Nat.toDigits_ne_nil
      refine ⟨decide (time < 0), Nat.toDigits 10 time.natAbs, ?_, hyphen_not_mem_toDigits _, ?_⟩
      · rw [timeText, Option.elim_some, displayInt]
        by_cases hnegative : time < 0
        · rw [if_pos hnegative, if_pos (decide_eq_true hnegative)]
          rfl
        · rw [if_neg hnegative, if_neg (by simpa using hnegative)]
          rfl
      · rw [readTime, if_neg hdigits, Nat.ofDigitChars_ten_toDigits]
        by_cases hnegative : time < 0
        · rw [if_pos (decide_eq_true hnegative)]
          congr 1
          omega
        · rw [if_neg (by simpa using hnegative)]
          congr 1
          omega

/-- What ends in a digit does not end in a hyphen. -/
theorem append_toDigits_ne (front front' : Str) (n : Nat) :
    front ++ '-' :: Nat.toDigits 10 n ≠ front' ++ ['-'] := by
  intro h
  have hlast := congrArg List.getLast? h
  rw [List.getLast?_concat, List.getLast?_append, List.getLast?_cons_of_ne_nil Nat.toDigits_ne_nil] at hlast
  obtain ⟨last, hsome⟩ := Option.ne_none_iff_exists'.1
    (mt List.getLast?_eq_none_iff.1 (@Nat.toDigits_ne_nil n 10))
  rw [hsome, Option.some_or, Option.some.injEq] at hlast
  exact hyphen_not_mem_toDigits n (hlast ▸ List.mem_of_getLast? hsome)

/-- What stands before the time, and the time, are told by the whole text. -/
theorem timeText_injective {front front' : Str} {n n' : Nat} {seconds seconds' : Option Int}
    (h : (front ++ '-' :: Nat.toDigits 10 n) ++ '-' :: timeText seconds =
      (front' ++ '-' :: Nat.toDigits 10 n') ++ '-' :: timeText seconds') :
    front ++ '-' :: Nat.toDigits 10 n = front' ++ '-' :: Nat.toDigits 10 n' ∧ seconds = seconds' := by
  obtain ⟨negative, digits, htext, hdigits, hread⟩ := exists_timeText seconds
  obtain ⟨negative', digits', htext', hdigits', hread'⟩ := exists_timeText seconds'
  have hsign (front digits : Str) :
      front ++ '-' :: (['-'] ++ digits) = (front ++ ['-']) ++ '-' :: digits := by
    rw [List.append_assoc]
    rfl
  rw [htext, htext'] at h
  -- the sign of the time is a hyphen too, so the last separator stands before or behind it
  cases negative <;> cases negative' <;>
    simp only [Bool.false_eq_true, if_true, if_false, List.nil_append, hsign] at h
  · obtain ⟨hfront, rfl⟩ := append_separator_inj hdigits hdigits' h
    exact ⟨hfront, hread.symm.trans hread'⟩
  · exact absurd (append_separator_inj hdigits hdigits' h).1 (append_toDigits_ne _ _ _)
  · exact absurd (append_separator_inj hdigits hdigits' h).1.symm (append_toDigits_ne _ _ _)
  · obtain ⟨hfront, rfl⟩ := append_separator_inj hdigits hdigits' h
    exact ⟨List.append_cancel_right hfront, hread.symm.trans hread'⟩

/-- The key tells the version. -/
theorem etagCacheKey_eq_iff (version other : Version) :
    etagCacheKey version = etagCacheKey other ↔ SameVersion version other := by
  have hkey (version : Version) : etagCacheKey version =
      (version.path ++ '-' :: Nat.toDigits 10 version.length.toNat) ++
        '-' :: timeText (version.modified.map asSecs) := by
    rw [etagCacheKey, timeText, List.append_assoc, Option.elim_map]
    rfl
  rw [hkey, hkey]
  constructor
  · intro h
    obtain ⟨hfront, htime⟩ := timeText_injective h
    obtain ⟨hpath, hlength⟩ := append_separator_inj (hyphen_not_mem_toDigits _)
      (hyphen_not_mem_toDigits _) hfront
    exact ⟨hpath, UInt64.toNat_inj.1 (toDigits_injective hlength), htime⟩
  · rintro ⟨hpath, hlength, htime⟩
    rw [hpath, hlength, htime]

/-! ## The cache -/

section Cache

variable {xxh3 : Str → UInt64} {cache : EtagCache}

/-- The tag of every entry is that of its key. -/
def Sound (xxh3 : Str → UInt64) (cache : EtagCache) : Prop :=
  ∀ entry ∈ cache, entry.2 = formatHash (xxh3 entry.1)

theorem Sound.cacheEtag (h : Sound xxh3 cache) (version : Version) :
    Sound xxh3 (cacheEtag xxh3 cache version) := by
  have hinserted : Sound xxh3 ((cache.filter fun entry => entry.1 ≠ etagCacheKey version) ++
      [(etagCacheKey version, formatHash (xxh3 (etagCacheKey version)))]) := by
    intro entry hentry
    -- an entry that stays is sound, and the new one has the hash of its key
    rcases List.mem_append.1 hentry with hbefore | hnew
    · exact h entry (List.mem_filter.1 hbefore).1
    · rw [List.mem_singleton.1 hnew]
  rw [EntityTags.cacheEtag, insert]
  split
  · exact fun entry hentry => hinserted entry (List.mem_of_mem_tail hentry)
  · exact hinserted

/-- The cache after some insertions. -/
theorem sound_run (xxh3 : Str → UInt64) (versions : List Version) :
    Sound xxh3 (run (cacheEtag xxh3) [] versions) := by
  have hempty : Sound xxh3 [] := fun _ h => absurd h List.not_mem_nil
  have hstep : ∀ cache version, Sound xxh3 cache → Sound xxh3 (cacheEtag xxh3 cache version) :=
    fun _ version h => h.cacheEtag version
  exact run_invariant' hstep versions hempty

/-- The cache does not change the tag. -/
theorem Sound.currentEtag_eq (h : Sound xxh3 cache) (version : Version) :
    currentEtag xxh3 cache version = formatHash (xxh3 (etagCacheKey version)) := by
  rw [currentEtag, peek]
  cases hfind : cache.find? fun entry => decide (entry.1 = etagCacheKey version) with
  | none => rfl
  -- the entry that is found has the key, and its tag is the hash of the key
  | some entry =>
      have hkey : decide (entry.1 = etagCacheKey version) = true :=
        List.find?_some (p := fun entry : Str × Str => decide (entry.1 = etagCacheKey version)) hfind
      have hentry := h entry (List.mem_of_find?_eq_some hfind)
      rw [of_decide_eq_true hkey] at hentry
      exact hentry

end Cache

/-! ## Conditional requests with a tag that has been sent -/

section RoundTrip

variable {xxh3 : Str → UInt64} {cache : EtagCache} {version : Version} {conditions : Conditions}
  {etag etagStr : Str}

/-- `If-Match` does not answer that the file has not been modified. -/
theorem checkIfMatch_ne_notModified (etag : Str) (conditions : Conditions) :
    (checkIfMatch etag conditions).statusCode ≠ some 304 := by
  rw [checkIfMatch]
  split
  · intro h
    cases h
  · split
    · exact fun h => absurd (Option.some.inj h) (by decide)
    · split
      · exact fun h => absurd (Option.some.inj h) (by decide)
      · intro h
        cases h

/-- A file that is served has its current tag. -/
theorem eq_currentEtag_of_serve (h : checkConditions xxh3 cache version conditions = .serve etag) :
    etag = currentEtag xxh3 cache version := by
  have hifMatch (current : Str) (h : checkIfMatch current conditions = .serve etag) : etag = current := by
    rw [checkIfMatch] at h
    split at h
    · exact (Checked.serve.inj h).symm
    · split at h
      · cases h
      · split at h
        · cases h
        · exact (Checked.serve.inj h).symm
  rw [checkConditions] at h
  split at h
  · exact hifMatch _ h
  · split at h
    · cases h
    · split at h
      · cases h
      · exact hifMatch _ h

/-- A client asks with a tag in `If-None-Match`: the answer is 304 when it is the current one. -/
theorem notModified_iff (hheader : toStr (asciiBytes etagStr) = some etagStr)
    (hextract : extractEtagInner etagStr true = some etag)
    (hcondition : conditions.ifNoneMatch = some (asciiBytes etagStr)) :
    (checkConditions xxh3 cache version conditions).statusCode = some 304 ↔
      etag = currentEtag xxh3 cache version := by
  rw [checkConditions, hcondition]
  dsimp only
  rw [hheader]
  dsimp only
  rw [hextract]
  split
  · rename_i hsame
    exact iff_of_true rfl (Option.some.inj hsame)
  · rename_i hother
    exact iff_of_false (checkIfMatch_ne_notModified _ _) fun hsame => hother (congrArg some hsame)

/-- `If-None-Match` does not answer the request: it is not there, or it can be read and has another tag than the
current one. -/
def PassesIfNoneMatch (etag : Str) (conditions : Conditions) : Prop :=
  ∀ value ∈ conditions.ifNoneMatch, ∃ text, toStr value = some text ∧ extractEtagInner text true ≠ some etag

/-- `If-Match` is looked at when `If-None-Match` does not answer, and `If-None-Match` does not fail. -/
theorem checkConditions_cases (xxh3 : Str → UInt64) (cache : EtagCache) (version : Version)
    (conditions : Conditions) :
    (PassesIfNoneMatch (currentEtag xxh3 cache version) conditions ∧
        checkConditions xxh3 cache version conditions =
          checkIfMatch (currentEtag xxh3 cache version) conditions) ∨
      (¬PassesIfNoneMatch (currentEtag xxh3 cache version) conditions ∧
        (checkConditions xxh3 cache version conditions).statusCode ≠ some 412) := by
  unfold PassesIfNoneMatch
  rw [checkConditions]
  cases conditions.ifNoneMatch with
  | none => exact .inl ⟨fun _ h => (nomatch h), rfl⟩
  | some value =>
      dsimp only
      cases htext : toStr value with
      | none =>
          refine .inr ⟨fun h => ?_, fun h => absurd (Option.some.inj h) (by decide)⟩
          obtain ⟨text, hsome, -⟩ := h value rfl
          cases htext.symm.trans hsome
      | some text =>
          dsimp only
          split
          · rename_i hsame
            refine .inr ⟨fun h => ?_, fun h => absurd (Option.some.inj h) (by decide)⟩
            obtain ⟨other, hsome, hother⟩ := h value rfl
            obtain rfl := Option.some.inj (htext.symm.trans hsome)
            exact hother hsame
          · rename_i hother
            refine .inl ⟨fun found hfound => ?_, rfl⟩
            obtain rfl := Option.some.inj hfound
            exact ⟨text, htext, hother⟩

/-- A client asks with a tag in `If-Match`: the condition fails when it is not the current one and
`If-None-Match` does not answer. -/
theorem preconditionFailed_iff (hheader : toStr (asciiBytes etagStr) = some etagStr)
    (hextract : extractEtagInner etagStr true = some etag) (hstar : etagStr ≠ "*".toList)
    (hcondition : conditions.ifMatch = some (asciiBytes etagStr)) :
    (checkConditions xxh3 cache version conditions).statusCode = some 412 ↔
      etag ≠ currentEtag xxh3 cache version ∧
        PassesIfNoneMatch (currentEtag xxh3 cache version) conditions := by
  rcases checkConditions_cases xxh3 cache version conditions with ⟨hpasses, hcheck⟩ | ⟨hnot, hstatus⟩
  · rw [hcheck, checkIfMatch, hcondition]
    dsimp only
    rw [hheader]
    dsimp only
    rw [hextract, Option.any_some]
    split
    · rename_i hother
      exact iff_of_true rfl ⟨of_decide_eq_true hother.2, hpasses⟩
    · rename_i hsame
      have hserved : (Checked.serve (currentEtag xxh3 cache version)).statusCode ≠ some 412 := by
        intro h
        cases h
      exact iff_of_false hserved fun hother => hsame ⟨hstar, decide_eq_true hother.1⟩
  · exact iff_of_false hstatus fun h => hnot h.2

/-- A tag that has been sent for a version, after any uses of the cache and in any decoration: the tag is
found in it. Later a request with it in `If-None-Match` is answered by 304 exactly when the version is the
same, and one with it in `If-Match` fails exactly when it is not and `If-None-Match` has not answered before. The
hash must tell the two versions apart. -/
theorem emittedTag_roundTrip (xxh3 : Str → UInt64) (inserted inserted' : List Version)
    (version version' : Version) (conditions : Conditions) (etag etagStr : Str)
    (hserve : checkConditions xxh3 (run (cacheEtag xxh3) [] inserted) version conditions = .serve etag)
    (hemitted : Emitted etag etagStr)
    (hcollision : xxh3 (etagCacheKey version) = xxh3 (etagCacheKey version') →
      etagCacheKey version = etagCacheKey version') :
    extractEtagInner etagStr true = some etag ∧
      (∀ conditions', conditions'.ifNoneMatch = some (asciiBytes etagStr) →
        ((checkConditions xxh3 (run (cacheEtag xxh3) [] inserted') version' conditions').statusCode =
          some 304 ↔ SameVersion version version')) ∧
      ∀ conditions', conditions'.ifMatch = some (asciiBytes etagStr) →
        ((checkConditions xxh3 (run (cacheEtag xxh3) [] inserted') version' conditions').statusCode =
          some 412 ↔ ¬SameVersion version version' ∧
            PassesIfNoneMatch (formatHash (xxh3 (etagCacheKey version'))) conditions') := by
  have hetag : etag = formatHash (xxh3 (etagCacheKey version)) := by
    rw [eq_currentEtag_of_serve hserve, (sound_run xxh3 inserted).currentEtag_eq]
  have hdigits : ∀ c ∈ etag, c ≠ '-' ∧ c ≠ quote ∧ IsVisible c := by
    rw [hetag]
    exact fun c hc => mem_hexDigits hc
  have hne : etag ≠ [] := hetag ▸ formatHash_ne_nil _
  obtain ⟨suffix, hdecorated⟩ := hemitted.exists_decorated
  have hextract := hdecorated.extract hne fun c hc => ⟨(hdigits c hc).1, (hdigits c hc).2.1⟩
  have hheader := hdecorated.toStr_asciiBytes fun c hc => (hdigits c hc).2.2
  -- a tag is no wildcard: it starts with the mark of a weak tag
  have hstar : etagStr ≠ "*".toList := by
    intro hstar
    rw [hdecorated.shape] at hstar
    exact absurd (List.cons.inj hstar).1 (by decide)
  -- the tags agree when the hashes do, and these tell the keys apart
  have hcurrent : etag = currentEtag xxh3 (run (cacheEtag xxh3) [] inserted') version' ↔
      SameVersion version version' := by
    rw [(sound_run xxh3 inserted').currentEtag_eq, hetag, ← etagCacheKey_eq_iff]
    exact ⟨fun h => hcollision (formatHash_injective h), fun h => by rw [h]⟩
  refine ⟨hextract, fun conditions' hcondition => ?_, fun conditions' hcondition => ?_⟩
  · rw [notModified_iff hheader hextract hcondition, hcurrent]
  · rw [preconditionFailed_iff hheader hextract hstar hcondition, Ne, hcurrent,
      (sound_run xxh3 inserted').currentEtag_eq]

end RoundTrip

/-! ## A change within a second -/

/-- A file of 300 bytes that was modified at some time. -/
def fileModifiedAt (mtime : Int) : Version := ⟨"/www/a.txt".toList, 300, some mtime⟩

/-- A request with a tag in `If-None-Match`. -/
def ifNoneMatch (etagStr : Str) : Conditions := ⟨some (asciiBytes etagStr), none, [], none⟩

/-- A hash of texts. -/
def sumHash (text : Str) : UInt64 := UInt64.ofNat (text.map Char.toNat).sum

/-- A file that has grown by a byte. -/
def grownFile : Version := ⟨"/www/a.txt".toList, 301, some 1000000000⟩

/-- The tag of the file before. -/
def firstEtag : Str := formatHash (sumHash (etagCacheKey (fileModifiedAt 1000000000)))

/-- The file is modified half a second after it has been served, and the answer is 304. When the file has grown
and a request has its new tag in `If-None-Match` and the old one in `If-Match`, the answer is 304 as well. -/
theorem sameSecond_notModified :
    checkConditions sumHash [] (fileModifiedAt 1000000000) ⟨none, none, [], none⟩ = .serve firstEtag ∧
      (checkConditions sumHash [] (fileModifiedAt 1500000000)
        (ifNoneMatch (servedEtag firstEtag none))).statusCode = some 304 ∧
      (fileModifiedAt 1000000000).modified ≠ (fileModifiedAt 1500000000).modified ∧
      (checkConditions sumHash [] grownFile
        ⟨some (asciiBytes (servedEtag (currentEtag sumHash [] grownFile) none)),
          some (asciiBytes (servedEtag firstEtag none)), [], none⟩).statusCode = some 304 ∧
      ¬SameVersion (fileModifiedAt 1000000000) grownFile :=
  ⟨rfl, by decide +kernel, by decide, by decide +kernel, fun h => absurd h.2.1 (by decide)⟩

/-- The file has grown since it was served. A request with the old tag in `If-None-Match` is not answered by 304,
and one with it in `If-Match` fails. -/
theorem emittedTag_roundTrip_grown :
    extractEtagInner (servedEtag firstEtag (some .br)) true = some firstEtag ∧
      (checkConditions sumHash [] grownFile
        (ifNoneMatch (servedEtag firstEtag (some .br)))).statusCode ≠ some 304 ∧
      (checkConditions sumHash [] grownFile
        ⟨none, some (asciiBytes (servedEtag firstEtag (some .br))), [], none⟩).statusCode = some 412 := by
  have hother : ¬SameVersion (fileModifiedAt 1000000000) grownFile := fun h => absurd h.2.1 (by decide)
  obtain ⟨hextract, hnoneMatch, hmatch⟩ := emittedTag_roundTrip sumHash [] [] (fileModifiedAt 1000000000)
    grownFile ⟨none, none, [], none⟩ firstEtag _ rfl (.served (some .br))
    fun hhash => absurd hhash (by decide +kernel)
  exact ⟨hextract, mt (hnoneMatch _ rfl).1 hother, (hmatch _ rfl).2 ⟨hother, fun _ h => nomatch h⟩⟩

end Ferron.Modules.EntityTags
