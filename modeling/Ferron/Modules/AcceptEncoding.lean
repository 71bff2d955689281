import Ferron.Modules.Precompressed

/-!
# The negotiation of content codings

The static file module and the module for dynamic compression choose the coding of a response in one way:
the first one of `br`, `zstd`, `deflate` and `gzip` whose name occurs anywhere in the Accept-Encoding header.
With precompressed files it is the first one that has a file. Qualities and the ends of tokens are not
looked at, so a coding is chosen that the client refuses, or that it has not named (`encoding_refused`).
Only acceptable codings are chosen exactly when every name that occurs in the header is that of an
acceptable coding (`respected_iff`).
-/

set_option autoImplicit false

namespace Ferron.Modules.AcceptEncoding

open Ferron.Http
open Ferron.Lib.Occurrence (contains)
open EntityTags (Encoding)
open Precompressed (acceptedEncodings lookedUpPath lookupPrecompressed)

/-! ## Browsers -/

/-- Whether the compression of HTML and whether any compression is broken in the browser, as in
Netscape 4. -/
def netscape4Broken (userAgent : Str) : Bool × Bool :=
  if "Mozilla/4.".toList.isPrefixOf userAgent then
    let strippedUserAgent := userAgent.drop 10
    -- Internet Explorer calls itself Netscape 4.x
    if contains " MSIE ".toList userAgent then (false, false)
    else
      (true, strippedUserAgent[0]? = some '0' &&
        (strippedUserAgent[1]? = some '6' || strippedUserAgent[1]? = some '7' ||
          strippedUserAgent[1]? = some '8'))
  else (false, false)

/-- The check for browsers with known compression bugs. -/
def browserSupports (userAgent : Str) (contentType : Option Str) : Bool :=
  !(contentType = some "text/html".toList &&
      ((netscape4Broken userAgent).1 || "w3m/".toList.isPrefixOf userAgent)) &&
    !(netscape4Broken userAgent).2

/-! ## Flags -/

/-- The compression flags. -/
structure Flags where
  useBrotli : Bool
  useZstd : Bool
  useDeflate : Bool
  useGzip : Bool

namespace Flags

/-- No compression. -/
def unset : Flags := ⟨false, false, false, false⟩

/-- The flags by the header. With precompression all that occur are set, otherwise only the first one. -/
def ofHeader (enablePrecompression : Bool) (acceptEncoding : Str) : Flags :=
  let useBrotli := contains "br".toList acceptEncoding
  let useZstd := (enablePrecompression || !useBrotli) && contains "zstd".toList acceptEncoding
  let useDeflate := (enablePrecompression || !(useBrotli || useZstd)) &&
    contains "deflate".toList acceptEncoding
  let useGzip := (enablePrecompression || !(useBrotli || useZstd || useDeflate)) &&
    contains "gzip".toList acceptEncoding
  ⟨useBrotli, useZstd, useDeflate, useGzip⟩

/-- The encodings whose flags are set, in order. -/
def inUse (flags : Flags) : List Encoding :=
  (if flags.useBrotli then [.br] else []) ++ (if flags.useZstd then [.zstd] else []) ++
    (if flags.useDeflate then [.deflate] else []) ++ if flags.useGzip then [.gzip] else []

/-- `algorithm_str`. -/
def algorithm (flags : Flags) : Option Encoding :=
  if flags.useBrotli then some .br
  else if flags.useZstd then some .zstd
  else if flags.useDeflate then some .deflate
  else if flags.useGzip then some .gzip
  else none

/-- The first flag that is set counts. -/
theorem algorithm_eq (flags : Flags) : flags.algorithm = flags.inUse.head? := by
  obtain ⟨useBrotli, useZstd, useDeflate, useGzip⟩ := flags
  cases useBrotli <;> cases useZstd <;> cases useDeflate <;> cases useGzip <;> rfl

/-- The flags by the names that occur. -/
def ofOccurring (enablePrecompression : Bool) (occurs : Encoding → Bool) : Flags :=
  let useBrotli := occurs .br
  let useZstd := (enablePrecompression || !useBrotli) && occurs .zstd
  let useDeflate := (enablePrecompression || !(useBrotli || useZstd)) && occurs .deflate
  let useGzip := (enablePrecompression || !(useBrotli || useZstd || useDeflate)) && occurs .gzip
  ⟨useBrotli, useZstd, useDeflate, useGzip⟩

/-- With precompression the flags of all names that occur are set, and without it that of the first one. -/
theorem inUse_ofOccurring (occurs : Encoding → Bool) :
    (ofOccurring true occurs).inUse = [.br, .zstd, .deflate, .gzip].filter occurs ∧
      (ofOccurring false occurs).inUse = ([.br, .zstd, .deflate, .gzip].filter occurs).take 1 := by
  unfold ofOccurring
  cases hbr : occurs .br <;> cases hzstd : occurs .zstd <;> cases hdeflate : occurs .deflate <;>
    cases hgzip : occurs .gzip <;>
    exact ⟨by rw [List.filter_cons, List.filter_cons, List.filter_cons, List.filter_cons, hbr, hzstd,
      hdeflate, hgzip]; rfl, by rw [List.filter_cons, List.filter_cons, List.filter_cons,
      List.filter_cons, hbr, hzstd, hdeflate, hgzip]; rfl⟩

theorem inUse_ofHeader_true (acceptEncoding : Str) :
    (ofHeader true acceptEncoding).inUse = acceptedEncodings acceptEncoding :=
  (inUse_ofOccurring fun encoding => contains encoding.name acceptEncoding).1

theorem inUse_ofHeader_false (acceptEncoding : Str) :
    (ofHeader false acceptEncoding).inUse = (acceptedEncodings acceptEncoding).take 1 :=
  (inUse_ofOccurring fun encoding => contains encoding.name acceptEncoding).2

end Flags

/-! ## The choice of the two modules -/

/-- The coding of the module for dynamic compression, for a response that may be compressed or not. -/
def dynamicEncoding (compressible : Bool) (contentType : Option Str) (userAgent acceptEncoding : Str) :
    Option Encoding :=
  (if compressible && browserSupports userAgent contentType then Flags.ofHeader false acceptEncoding
    else .unset).algorithm

/-- The files that the static file module looks for. -/
structure StaticFile where
  compressionPossible : Bool
  contentType : Option Str
  enablePrecompression : Bool
  isFile : PathBuf → Bool
  path : PathBuf

/-- The coding of the static file module. -/
def staticEncoding (file : StaticFile) (userAgent acceptEncoding : Str) : Option Encoding :=
  let flags := if file.compressionPossible && browserSupports userAgent file.contentType then
    Flags.ofHeader file.enablePrecompression acceptEncoding else .unset
  (if file.enablePrecompression then (lookupPrecompressed file.isFile file.path flags.inUse).2
    else flags.inUse).head?

/-! ## What a client accepts -/

/-- A weight of zero. -/
def isZeroWeight : Str → Bool
  | 'q' :: '=' :: '0' :: rest => rest = [] || rest.head? = some '.' && rest.tail.all (· = '0')
  | 'Q' :: '=' :: '0' :: rest => rest = [] || rest.head? = some '.' && rest.tail.all (· = '0')
  | _ => false

/-- The tokens of the header, with their parameters. -/
def tokens (acceptEncoding : Str) : List (List Str) :=
  (acceptEncoding.splitOn ',').map fun token => (token.splitOn ';').map trim

/-- The coding of a token, in lower case. -/
def codingOf (token : List Str) : Str := (token.headD []).map Char.toLower

/-- The quality of a token is zero. -/
def isRefused (token : List Str) : Bool := token.tail.any isZeroWeight

/-- The header has the coding as a token with a quality other than zero, or `*` covers it. -/
def Acceptable (acceptEncoding : Str) (encoding : Encoding) : Prop :=
  (∃ token ∈ tokens acceptEncoding, codingOf token = encoding.name ∧ isRefused token = false) ∨
    (∃ token ∈ tokens acceptEncoding, codingOf token = ['*'] ∧ isRefused token = false) ∧
      ∀ token ∈ tokens acceptEncoding, codingOf token ≠ encoding.name

instance (acceptEncoding : Str) (encoding : Encoding) : Decidable (Acceptable acceptEncoding encoding) :=
  inferInstanceAs (Decidable (_ ∨ _ ∧ _))

/-- Both modules choose acceptable codings only, for every file, every response and every browser. -/
structure Respected (acceptEncoding : Str) : Prop where
  dynamic : ∀ compressible contentType userAgent encoding,
    dynamicEncoding compressible contentType userAgent acceptEncoding = some encoding →
      Acceptable acceptEncoding encoding
  static : ∀ file userAgent encoding,
    staticEncoding file userAgent acceptEncoding = some encoding → Acceptable acceptEncoding encoding
  none : (∀ encoding, ¬Acceptable acceptEncoding encoding) →
    (∀ compressible contentType userAgent,
      dynamicEncoding compressible contentType userAgent acceptEncoding = none) ∧
    ∀ file userAgent, staticEncoding file userAgent acceptEncoding = none

/-! ## Names that occur -/

theorem mem_acceptedEncodings_iff {acceptEncoding : Str} {encoding : Encoding} :
    encoding ∈ acceptedEncodings acceptEncoding ↔ contains encoding.name acceptEncoding = true := by
  unfold acceptedEncodings
  rw [List.mem_filter, and_iff_right]
  cases encoding <;> simp

/-- The module for dynamic compression chooses the first coding that occurs. -/
theorem dynamicEncoding_eq (compressible : Bool) (contentType : Option Str)
    (userAgent acceptEncoding : Str) :
    dynamicEncoding compressible contentType userAgent acceptEncoding =
      if compressible && browserSupports userAgent contentType then
        (acceptedEncodings acceptEncoding).head?
      else none := by
  unfold dynamicEncoding
  split
  · rw [Flags.algorithm_eq, Flags.inUse_ofHeader_false, List.head?_take, if_neg one_ne_zero]
  · rfl

/-- What is left after looking for the files is among the encodings that were in use. -/
theorem lookupPrecompressed_subset (isFile : PathBuf → Bool) (path : PathBuf)
    (encodings : List Encoding) :
    (lookupPrecompressed isFile path encodings).2 ⊆ encodings := by
  induction encodings with
  | nil => exact List.Subset.refl []
  | cons encoding rest ih =>
      rw [lookupPrecompressed]
      split
      · exact List.Subset.refl _
      · exact fun other hother => List.mem_cons_of_mem _ (ih hother)

/-- The static file module chooses a coding that occurs. -/
theorem contains_of_staticEncoding {file : StaticFile} {userAgent acceptEncoding : Str}
    {encoding : Encoding} (h : staticEncoding file userAgent acceptEncoding = some encoding) :
    contains encoding.name acceptEncoding = true := by
  have hflags : (if file.compressionPossible && browserSupports userAgent file.contentType then
      Flags.ofHeader file.enablePrecompression acceptEncoding else .unset).inUse ⊆
        acceptedEncodings acceptEncoding := by
    split
    · cases file.enablePrecompression with
      | true =>
          rw [Flags.inUse_ofHeader_true]
          exact List.Subset.refl _
      | false =>
          rw [Flags.inUse_ofHeader_false]
          exact List.take_subset 1 _
    · exact List.nil_subset _
  rw [← mem_acceptedEncodings_iff]
  unfold staticEncoding at h
  have hmem := List.mem_of_head? h
  split at hmem
  · exact hflags (lookupPrecompressed_subset _ _ _ hmem)
  · exact hflags hmem

theorem contains_of_dynamicEncoding {compressible : Bool} {contentType : Option Str}
    {userAgent acceptEncoding : Str} {encoding : Encoding}
    (h : dynamicEncoding compressible contentType userAgent acceptEncoding = some encoding) :
    contains encoding.name acceptEncoding = true := by
  rw [dynamicEncoding_eq] at h
  split at h
  · exact mem_acceptedEncodings_iff.1 (List.mem_of_head? h)
  · exact absurd h (by simp)

/-! ## A single precompressed file -/

/-- Only the variant of `/a.txt` for one encoding is there. -/
def onlyVariant (encoding : Encoding) : StaticFile where
  compressionPossible := true
  contentType := none
  enablePrecompression := true
  isFile path := path = lookedUpPath "/a.txt".toList encoding
  path := "/a.txt".toList

theorem lookedUpPath_injective : Function.Injective (lookedUpPath "/a.txt".toList) := by
  intro encoding other h
  cases encoding <;> cases other <;> first
    | rfl
    | exact absurd h (by decide)

/-- An encoding that occurs is chosen when it is the only one with a file. -/
theorem staticEncoding_onlyVariant {acceptEncoding : Str} {encoding : Encoding}
    (h : contains encoding.name acceptEncoding = true) :
    staticEncoding (onlyVariant encoding) [] acceptEncoding = some encoding := by
  have hlookup : ∀ encodings : List Encoding, encoding ∈ encodings →
      ((lookupPrecompressed (onlyVariant encoding).isFile "/a.txt".toList encodings).2).head? =
        some encoding := by
    intro encodings hmem
    induction encodings with
    | nil => exact absurd hmem List.not_mem_nil
    | cons other rest ih =>
        rw [lookupPrecompressed]
        split
        · next hfile =>
            have hsame : other = encoding := lookedUpPath_injective (of_decide_eq_true hfile)
            rw [hsame]
            rfl
        · next hfile =>
            refine ih ((List.mem_cons.1 hmem).resolve_left ?_)
            rintro rfl
            exact hfile (decide_eq_true rfl)
  have hflags : staticEncoding (onlyVariant encoding) [] acceptEncoding =
      ((lookupPrecompressed (onlyVariant encoding).isFile "/a.txt".toList
        (Flags.ofHeader true acceptEncoding).inUse).2).head? := rfl
  rw [hflags, Flags.inUse_ofHeader_true]
  exact hlookup _ (mem_acceptedEncodings_iff.2 h)

/-! ## Acceptable codings -/

/-- The header is respected exactly when every one of the four names that occurs in it, be it inside a
token, is that of an acceptable coding. -/
theorem respected_iff (acceptEncoding : Str) :
    Respected acceptEncoding ↔
      ∀ encoding : Encoding, contains encoding.name acceptEncoding = true →
        Acceptable acceptEncoding encoding := by
  constructor
  · intro h encoding hoccurs
    exact h.static (onlyVariant encoding) [] encoding (staticEncoding_onlyVariant hoccurs)
  · intro h
    refine ⟨?_, ?_, ?_⟩
    · intro compressible contentType userAgent encoding hchosen
      exact h encoding (contains_of_dynamicEncoding hchosen)
    · intro file userAgent encoding hchosen
      exact h encoding (contains_of_staticEncoding hchosen)
    · intro hnone
      constructor
      · intro compressible contentType userAgent
        rw [Option.eq_none_iff_forall_ne_some]
        exact fun encoding hchosen => hnone encoding (h encoding (contains_of_dynamicEncoding hchosen))
      · intro file userAgent
        rw [Option.eq_none_iff_forall_ne_some]
        exact fun encoding hchosen => hnone encoding (h encoding (contains_of_staticEncoding hchosen))

/-- `gzip;q=0` refuses the coding that both modules choose, and `brown` does not name the one they
choose. -/
theorem encoding_refused :
    dynamicEncoding true none [] "gzip;q=0".toList = some .gzip ∧
      staticEncoding ⟨true, none, false, fun _ => true, "/a.txt".toList⟩ [] "brown".toList = some .br ∧
      (∀ encoding : Encoding, ¬Acceptable "gzip;q=0".toList encoding) ∧
      ¬Respected "gzip;q=0".toList ∧ ¬Respected "brown".toList := by
  have hgzip : dynamicEncoding true none [] "gzip;q=0".toList = some .gzip := rfl
  have hbrown : staticEncoding ⟨true, none, false, fun _ => true, "/a.txt".toList⟩ [] "brown".toList =
      some .br := rfl
  refine ⟨hgzip, hbrown, ?_, ?_, ?_⟩
  · intro encoding
    cases encoding <;> decide
  · intro h
    exact absurd (h.dynamic true none [] .gzip hgzip) (by decide)
  · intro h
    exact absurd (h.static _ [] .br hbrown) (by decide)

end Ferron.Modules.AcceptEncoding
