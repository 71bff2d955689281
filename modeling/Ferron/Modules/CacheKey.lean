import Ferron.Http.Request
import Mathlib.Tactic

/-!
# Keys of the response cache

`buildCacheKey` concatenates the method, the scheme, the Host value, the path and the query of a
request. The method ends at the first space and the scheme has a fixed text, but nothing separates
the Host value from the path, and the Host value is any text a client sends. A value that is missing or
cannot be read is taken for the empty text.

Two keys of requests that differ coincide exactly when one Host value continues the other by the
beginning of the other's target, or when both Host values are taken for the empty text and the targets
are the same (`cacheKey_eq_iff_agree_iff`).
-/

set_option autoImplicit false

namespace Ferron.Modules.CacheKey

open Ferron.Http

/-- `extract_uri_parts`: the Host value, the path and the query. -/
def extractUriParts (request : Request) : Str × Str × Option Str :=
  (((request.headers.get "host".toList).bind toStr).getD [], request.uri.path, request.uri.query)

/-- The scheme prefix of a key. -/
def schemePrefix (encrypted : Bool) : Str :=
  if encrypted then "https://".toList else "http://".toList

/-- The query with its question mark. -/
def querySuffix : Option Str → Str
  | some query => '?' :: query
  | none => []

/-- `build_cache_key`. -/
def buildCacheKey (method : Method) (encrypted : Bool) (host path : Str) (query : Option Str) : Str :=
  method.token ++ ' ' :: (schemePrefix encrypted ++ (host ++ (path ++ querySuffix query)))

/-- The cache key of a request, as the request handler builds it. -/
def cacheKey (encrypted : Bool) (request : Request) : Str :=
  let (host, path, query) := extractUriParts request
  buildCacheKey request.method encrypted host path query

/-- The Host value that enters the key. -/
def hostOf (request : Request) : Str := (extractUriParts request).1

/-- The path and the query as they follow the Host value in the key. -/
def target (uri : Uri) : Str := uri.path ++ querySuffix uri.query

theorem cacheKey_eq (encrypted : Bool) (request : Request) :
    cacheKey encrypted request =
      request.method.token ++
        ' ' :: (schemePrefix encrypted ++ (hostOf request ++ target request.uri)) := rfl

/-- The value of the Host header. -/
def hostHeader (request : Request) : Option HeaderValue := request.headers.get "host".toList

/-- Agreement on everything the key is meant to tell apart. -/
def Agree (encrypted₁ encrypted₂ : Bool) (request₁ request₂ : Request) : Prop :=
  request₁.method = request₂.method ∧ encrypted₁ = encrypted₂ ∧
    hostHeader request₁ = hostHeader request₂ ∧ request₁.uri.path = request₂.uri.path ∧
    request₁.uri.query = request₂.uri.query

/-- The Host value is missing, empty, or no text of visible ASCII. -/
def HostUnread (request : Request) : Prop :=
  ∀ value ∈ hostHeader request, value = [] ∨ toStr value = none

/-- Both Host values are taken for the empty text, though they are different. -/
def HostsConfused (request₁ request₂ : Request) : Prop :=
  HostUnread request₁ ∧ HostUnread request₂ ∧ hostHeader request₁ ≠ hostHeader request₂ ∧
    request₁.uri.path = request₂.uri.path ∧ request₁.uri.query = request₂.uri.query

/-- The Host value of the second request continues that of the first by a beginning of the first
one's target, and the rest of this target is the second one's. -/
def HostAbsorbs (request₁ request₂ : Request) : Prop :=
  ∃ shift : Str, shift ≠ [] ∧ hostOf request₂ = hostOf request₁ ++ shift ∧
    target request₁.uri = shift ++ target request₂.uri

theorem querySuffix_injective : Function.Injective querySuffix := by
  intro a b h
  cases a <;> cases b <;> simp_all [querySuffix]

/-- The question mark separates the path from the query. -/
theorem target_eq_iff (uri₁ uri₂ : Uri) :
    target uri₁ = target uri₂ ↔ uri₁.path = uri₂.path ∧ uri₁.query = uri₂.query := by
  constructor
  · intro h
    have hpath : ∀ uri : Uri, (target uri).takeWhile (· ≠ '?') = uri.path := by
      intro uri
      have hall : ∀ c ∈ uri.path, (decide (c ≠ '?')) = true := by
        intro c hc
        simp only [decide_eq_true_eq]
        rintro rfl
        exact uri.path_no_question hc
      rw [target, List.takeWhile_append_of_pos hall]
      cases uri.query <;> simp [querySuffix]
    have hp : uri₁.path = uri₂.path := by rw [← hpath uri₁, h, hpath uri₂]
    refine ⟨hp, querySuffix_injective ?_⟩
    rw [target, target, hp] at h
    exact List.append_cancel_left h
  · rintro ⟨hp, hq⟩
    rw [target, target, hp, hq]

theorem schemePrefix_append_eq_iff (encrypted₁ encrypted₂ : Bool) (rest₁ rest₂ : Str) :
    schemePrefix encrypted₁ ++ rest₁ = schemePrefix encrypted₂ ++ rest₂ ↔
      encrypted₁ = encrypted₂ ∧ rest₁ = rest₂ := by
  cases encrypted₁ <;> cases encrypted₂ <;> simp [schemePrefix]

/-- The first separator splits a text in one way. -/
theorem append_cons_inj_of_notMem_left {sep : Char} : ∀ {a₁ a₂ b₁ b₂ : Str}, sep ∉ a₁ → sep ∉ a₂ →
    (a₁ ++ sep :: b₁ = a₂ ++ sep :: b₂ ↔ a₁ = a₂ ∧ b₁ = b₂)
  | [], [], _, _, _, _ => by simp
  | [], c :: _, _, _, _, h₂ => by
      have hc : sep ≠ c := fun h => h₂ (h ▸ List.mem_cons_self)
      simp [hc]
  | c :: _, [], _, _, h₁, _ => by
      have hc : c ≠ sep := fun h => h₁ (h ▸ List.mem_cons_self)
      simp [hc]
  | c :: a₁, d :: a₂, b₁, b₂, h₁, h₂ => by
      have ih : a₁ ++ sep :: b₁ = a₂ ++ sep :: b₂ ↔ a₁ = a₂ ∧ b₁ = b₂ :=
        append_cons_inj_of_notMem_left (fun h => h₁ (List.mem_cons_of_mem _ h))
          (fun h => h₂ (List.mem_cons_of_mem _ h))
      simp [ih, and_assoc]

/-- Keys coincide when method and encryption do and Host and target run together alike. -/
theorem cacheKey_eq_iff (encrypted₁ encrypted₂ : Bool) (request₁ request₂ : Request) :
    cacheKey encrypted₁ request₁ = cacheKey encrypted₂ request₂ ↔
      request₁.method = request₂.method ∧ encrypted₁ = encrypted₂ ∧
        hostOf request₁ ++ target request₁.uri = hostOf request₂ ++ target request₂.uri := by
  rw [cacheKey_eq, cacheKey_eq,
    append_cons_inj_of_notMem_left request₁.method.no_space request₂.method.no_space,
    schemePrefix_append_eq_iff, Method.ext_iff]

/-- Two texts that run together alike: one of the first parts continues the other. -/
theorem append_eq_append_iff_absorb {host₁ host₂ target₁ target₂ : Str} (hne : host₁ ≠ host₂) :
    host₁ ++ target₁ = host₂ ++ target₂ ↔
      (∃ shift, shift ≠ [] ∧ host₂ = host₁ ++ shift ∧ target₁ = shift ++ target₂) ∨
        ∃ shift, shift ≠ [] ∧ host₁ = host₂ ++ shift ∧ target₂ = shift ++ target₁ := by
  rw [List.append_eq_append_iff]
  refine or_congr (exists_congr fun shift => ?_) (exists_congr fun shift => ?_)
  · constructor
    · rintro ⟨hhost, htarget⟩
      refine ⟨?_, hhost, htarget⟩
      rintro rfl
      exact hne (by rw [hhost, List.append_nil])
    · rintro ⟨-, hhost, htarget⟩
      exact ⟨hhost, htarget⟩
  · constructor
    · rintro ⟨hhost, htarget⟩
      refine ⟨?_, hhost, htarget⟩
      rintro rfl
      exact hne (by rw [hhost, List.append_nil])
    · rintro ⟨-, hhost, htarget⟩
      exact ⟨hhost, htarget⟩

/-- A text of visible ASCII tells the bytes that it was read from. -/
theorem eq_of_toStr {value other : HeaderValue} {text : Str} (hvalue : toStr value = some text)
    (hother : toStr other = some text) : value = other := by
  have hread : ∀ {bytes : HeaderValue}, toStr bytes = some text →
      bytes.map (fun b => Char.ofNat b.toNat) = text := by
    intro bytes hbytes
    rw [toStr] at hbytes
    split at hbytes
    · exact Option.some.inj hbytes
    · cases hbytes
  refine List.map_injective_iff.2 (fun a b hab => ?_) ((hread hvalue).trans (hread hother).symm)
  have hval : ∀ byte : UInt8, (Char.ofNat byte.toNat).val.toNat = byte.toNat := by
    intro byte
    have hvalid : byte.toNat.isValidChar := .inl (byte.toNat_lt.trans (by decide))
    rw [Char.ofNat, dif_pos hvalid]
    rfl
  have hnat := congrArg (fun c => c.val.toNat) hab
  exact UInt8.toNat_inj.1 ((hval a).symm.trans (hnat.trans (hval b)))

/-- The Host value enters the key as the empty text when it is not read. -/
theorem hostOf_eq_nil_iff (request : Request) : hostOf request = [] ↔ HostUnread request := by
  have hof : hostOf request = ((hostHeader request).bind toStr).getD [] := rfl
  rw [hof, HostUnread]
  cases hheader : hostHeader request with
  | none => simp
  | some value =>
      rw [Option.bind_some]
      cases htext : toStr value with
      | none => simp [htext]
      | some text =>
          have hnil : toStr [] = some [] := rfl
          constructor
          · rintro (rfl : text = [])
            intro other hother
            exact .inl (eq_of_toStr (Option.some.inj hother ▸ htext) hnil)
          · intro h
            rcases h value rfl with rfl | hnone
            · exact Option.some.inj (htext.symm.trans hnil)
            · rw [htext] at hnone
              cases hnone

/-- Host values that enter the keys alike are the same, unless neither is read. -/
theorem hostOf_eq_iff (request₁ request₂ : Request) :
    hostOf request₁ = hostOf request₂ ↔
      hostHeader request₁ = hostHeader request₂ ∨ HostUnread request₁ ∧ HostUnread request₂ := by
  constructor
  · intro h
    by_cases hnil : hostOf request₁ = []
    · exact .inr ⟨(hostOf_eq_nil_iff _).1 hnil, (hostOf_eq_nil_iff _).1 (h ▸ hnil)⟩
    · left
      -- a text that is not empty has been read from the bytes of a header
      have hread : ∀ request, hostOf request ≠ [] → ∃ value, hostHeader request = some value ∧
          toStr value = some (hostOf request) := by
        intro request hne
        have hof : hostOf request = ((hostHeader request).bind toStr).getD [] := rfl
        cases hbind : (hostHeader request).bind toStr with
        | none =>
            rw [hof, hbind] at hne
            exact absurd rfl hne
        | some text =>
            obtain ⟨value, hvalue, htext⟩ := Option.bind_eq_some_iff.1 hbind
            rw [hof, hbind]
            exact ⟨value, hvalue, htext⟩
      obtain ⟨value₁, hvalue₁, htext₁⟩ := hread request₁ hnil
      obtain ⟨value₂, hvalue₂, htext₂⟩ := hread request₂ (h ▸ hnil)
      rw [hvalue₁, hvalue₂, eq_of_toStr htext₁ (h ▸ htext₂)]
  · rintro (hsame | ⟨h₁, h₂⟩)
    · have hof : ∀ request, hostOf request = ((hostHeader request).bind toStr).getD [] := fun _ => rfl
      rw [hof, hof, hsame]
    · rw [(hostOf_eq_nil_iff _).2 h₁, (hostOf_eq_nil_iff _).2 h₂]

/-- Requests that agree have one key. -/
theorem cacheKey_eq_of_agree {encrypted₁ encrypted₂ : Bool} {request₁ request₂ : Request}
    (h : Agree encrypted₁ encrypted₂ request₁ request₂) :
    cacheKey encrypted₁ request₁ = cacheKey encrypted₂ request₂ := by
  obtain ⟨hmethod, hencrypted, hhost, hpath, hquery⟩ := h
  refine (cacheKey_eq_iff ..).2 ⟨hmethod, hencrypted, ?_⟩
  rw [(hostOf_eq_iff ..).2 (.inl hhost), (target_eq_iff ..).2 ⟨hpath, hquery⟩]

/-- Requests that have one key and differ: one Host value takes over a part of the other's target, or both
are taken for the empty text. -/
theorem cacheKey_eq_and_not_agree_iff {encrypted₁ encrypted₂ : Bool} {request₁ request₂ : Request}
    (hmethod : request₁.method = request₂.method) (hencrypted : encrypted₁ = encrypted₂) :
    (cacheKey encrypted₁ request₁ = cacheKey encrypted₂ request₂ ∧
        ¬ Agree encrypted₁ encrypted₂ request₁ request₂) ↔
      HostAbsorbs request₁ request₂ ∨ HostAbsorbs request₂ request₁ ∨ HostsConfused request₁ request₂ := by
  have hkey : cacheKey encrypted₁ request₁ = cacheKey encrypted₂ request₂ ↔
      hostOf request₁ ++ target request₁.uri = hostOf request₂ ++ target request₂.uri :=
    (cacheKey_eq_iff ..).trans ⟨fun h => h.2.2, fun h => ⟨hmethod, hencrypted, h⟩⟩
  rw [hkey]
  by_cases hhost : hostOf request₁ = hostOf request₂
  · have hdistinct : ∀ {a b : Str}, a ≠ [] → b ≠ b ++ a := fun ha hb => ha (by simpa using hb)
    have hleft : ¬ HostAbsorbs request₁ request₂ := fun ⟨_, hshift, hcontinued, _⟩ =>
      hdistinct hshift (hhost.trans hcontinued)
    have hright : ¬ HostAbsorbs request₂ request₁ := fun ⟨_, hshift, hcontinued, _⟩ =>
      hdistinct hshift (hhost.symm.trans hcontinued)
    rw [or_iff_right hleft, or_iff_right hright, hhost, List.append_right_inj, target_eq_iff]
    constructor
    · rintro ⟨⟨hpath, hquery⟩, hagree⟩
      have hheader : hostHeader request₁ ≠ hostHeader request₂ := fun h =>
        hagree ⟨hmethod, hencrypted, h, hpath, hquery⟩
      obtain ⟨h₁, h₂⟩ := ((hostOf_eq_iff ..).1 hhost).resolve_left hheader
      exact ⟨h₁, h₂, hheader, hpath, hquery⟩
    · rintro ⟨-, -, hheader, hpath, hquery⟩
      exact ⟨⟨hpath, hquery⟩, fun hagree => hheader hagree.2.2.1⟩
  · have hagree : ¬ Agree encrypted₁ encrypted₂ request₁ request₂ := fun h =>
      hhost ((hostOf_eq_iff ..).2 (.inl h.2.2.1))
    have hconfused : ¬ HostsConfused request₁ request₂ := fun h =>
      hhost ((hostOf_eq_iff ..).2 (.inr ⟨h.1, h.2.1⟩))
    rw [and_iff_left hagree, or_iff_left hconfused]
    exact append_eq_append_iff_absorb hhost

/-- A key determines its request, up to what the key is meant to tell apart, for exactly the pairs
of requests in which neither Host value continues the other into its target, and in which two Host values
that are taken for the empty text are the same or come with different targets. -/
theorem cacheKey_eq_iff_agree_iff (encrypted₁ encrypted₂ : Bool) (request₁ request₂ : Request) :
    (cacheKey encrypted₁ request₁ = cacheKey encrypted₂ request₂ ↔
        Agree encrypted₁ encrypted₂ request₁ request₂) ↔
      (request₁.method = request₂.method → encrypted₁ = encrypted₂ →
        ¬ HostAbsorbs request₁ request₂ ∧ ¬ HostAbsorbs request₂ request₁ ∧
          ¬ HostsConfused request₁ request₂) := by
  constructor
  · intro h hmethod hencrypted
    rw [← not_or, ← not_or, ← cacheKey_eq_and_not_agree_iff hmethod hencrypted]
    exact fun hboth => hboth.2 (h.1 hboth.1)
  · intro h
    refine ⟨fun hkey => ?_, cacheKey_eq_of_agree⟩
    obtain ⟨hmethod, hencrypted, -⟩ := (cacheKey_eq_iff ..).1 hkey
    have hnone := h hmethod hencrypted
    rw [← not_or, ← not_or, ← cacheKey_eq_and_not_agree_iff hmethod hencrypted] at hnone
    by_contra hagree
    exact hnone ⟨hkey, hagree⟩

/-- A request for the path with the Host value, without encryption and without other headers. -/
def plainGet (host path : Str) (hpath : '?' ∉ path) : Request :=
  ⟨Method.get, ⟨path, none, hpath⟩, [("host".toList, host.map fun c => UInt8.ofNat c.toNat)]⟩

/-- A request for the path without any header. -/
def hostlessGet (path : Str) (hpath : '?' ∉ path) : Request := ⟨Method.get, ⟨path, none, hpath⟩, []⟩

/-- A Host value with a slash takes over the beginning of the path, and a missing one is taken for an empty
one. -/
theorem cacheKey_collision :
    ¬ (cacheKey false (plainGet "a.test".toList "/x/y".toList (by decide)) =
          cacheKey false (plainGet "a.test/x".toList "/y".toList (by decide)) ↔
        Agree false false (plainGet "a.test".toList "/x/y".toList (by decide))
          (plainGet "a.test/x".toList "/y".toList (by decide))) ∧
      ¬ (cacheKey false (hostlessGet "/p".toList (by decide)) =
          cacheKey false (plainGet [] "/p".toList (by decide)) ↔
        Agree false false (hostlessGet "/p".toList (by decide)) (plainGet [] "/p".toList (by decide))) := by
  constructor
  · have hkey : cacheKey false (plainGet "a.test".toList "/x/y".toList (by decide)) =
        cacheKey false (plainGet "a.test/x".toList "/y".toList (by decide)) := by
      decide +kernel
    intro h
    exact absurd (h.1 hkey).2.2.2.1 (by decide)
  · intro h
    exact absurd (h.1 rfl).2.2.1 (by decide)

end Ferron.Modules.CacheKey
