import Ferron.Modules.AcceptEncoding
import Ferron.Util.SplitStreamByMap

/-!
# Compression of dynamic content

The module for dynamic compression takes a response that is not encoded and whose type can be compressed,
and puts an encoder over its data. The trailers come from the other half of the split body, behind what the
encoder yields.

Nothing looks at `Content-Range`, so the bytes of a partial response are compressed as well, and the chain
of the two halves stalls at trailers. `completeOnly_iff` says that the module transforms complete
representations only, and these faithfully, exactly when it is not asked to compress or the response is no
part and its body ends without trailers.
-/

set_option autoImplicit false

namespace Ferron.Modules.DynamicCompression

open Ferron.Common Ferron.Http Ferron.Util.SplitStreamByMap
open Ferron.Lib.Occurrence (contains)
open AcceptEncoding (browserSupports dynamicEncoding dynamicEncoding_eq mem_acceptedEncodings_iff)
open EntityTags (Encoding addDynamicSuffix mem_encoding_name quote)
open HostLookup (IsVisible headerValue_eq_asciiBytes)
open Precompressed (acceptedEncodings)

/-! ## Header names -/

def acceptEncodingName : HeaderName := "accept-encoding".toList
def contentEncodingName : HeaderName := "content-encoding".toList
def contentLengthName : HeaderName := "content-length".toList
def contentRangeName : HeaderName := "content-range".toList
def contentTypeName : HeaderName := "content-type".toList
def etagName : HeaderName := "etag".toList
def userAgentName : HeaderName := "user-agent".toList
def varyName : HeaderName := "vary".toList

/-! ## Responses -/

/-- The answers of a body, as `BodyStream` gives them. -/
abbrev BodySource := Source (Except IoError Frame)

/-- A body: as it has come, or compressed. -/
inductive Body where
  | plain (source : BodySource)
  | compressed (encoding : Encoding) (source : BodySource)

structure Response (β : Type) where
  status : Nat
  headers : HeaderMap
  body : β

/-- The closure of `split_by_map`. -/
def classify : Except IoError Frame → Except IoError Bytes ⊕ Except IoError Frame
  | .ok (.trailers headers) => .inr (.ok (.trailers headers))
  | .ok (.data data) => .inl (.ok data)
  | .error err => .inl (.error err)

/-- Encoders and their decoders. An encoder yields chunks for the chunks it reads. -/
structure Codec where
  encode : Encoding → List Bytes → List Bytes
  decode : Encoding → Bytes → Option Bytes
  decode_encode : ∀ encoding chunks, decode encoding (encode encoding chunks).flatten = some chunks.flatten

/-- The body yields these frames and ends without an error. -/
def Ends (source : BodySource) (frames : List Frame) : Prop :=
  ∃ n, source.poll n = .ready none ∧ received source n = frames.map .ok

/-- The body yields these frames and ends without an error. A compressed body is the chain of the encoder,
which reads the left half, and of the right half. -/
def Body.Yields (codec : Codec) : Body → List Frame → Prop
  | plain source, frames => Ends source frames
  | compressed encoding source, frames =>
      ∃ n chunks trailers, (chainRun source classify n).status = .finished ∧
        (chainRun source classify n).halves.left = chunks.map .ok ∧
        (chainRun source classify n).halves.right = trailers.map .ok ∧
        frames = (codec.encode encoding chunks).map .data ++ trailers

/-! ## The module -/

/-- The types that are not compressed. -/
def nonCompressibleMimeTypes : List Str :=
  ["application/bdoc", "application/brotli", "application/epub+zip", "application/gzip",
    "application/java-archive", "application/java-serialized-object", "application/msword",
    "application/ogg", "application/pdf", "application/pgp-encrypted", "application/ubjson",
    "application/vnd.adobe.air-application-installer-package+zip", "application/vnd.adobe.flash.movie",
    "application/vnd.android.package-archive", "application/vnd.apple.pkpass",
    "application/vnd.google-apps.document", "application/vnd.google-apps.presentation",
    "application/vnd.google-apps.spreadsheet", "application/vnd.google-earth.kmz",
    "application/vnd.ms-excel", "application/vnd.ms-outlook", "application/vnd.ms-powerpoint",
    "application/vnd.ms-xpsdocument", "application/vnd.oasis.opendocument.graphics",
    "application/vnd.oasis.opendocument.presentation", "application/vnd.oasis.opendocument.spreadsheet",
    "application/vnd.oasis.opendocument.text",
    "application/vnd.openxmlformats-officedocument.presentationml.presentation",
    "application/vnd.openxmlformats-officedocument.spreadsheetml.sheet",
    "application/vnd.openxmlformats-officedocument.wordprocessingml.document",
    "application/x-7z-compressed", "application/x-arj", "application/x-bzip", "application/x-bzip2",
    "application/x-dvi", "application/x-java", "application/x-java-jnlp-file", "application/x-latex",
    "application/x-pkcs12", "application/x-stuffit", "application/x-virtualbox-vbox-extpack",
    "application/x-xpinstall", "application/zip", "application/zstd", "audio/basic", "audio/mp4",
    "audio/mpeg", "audio/ogg", "audio/wav", "audio/webm", "audio/x-caf", "image/apng", "image/avif",
    "image/gif", "image/jp2", "image/jpeg", "image/jpm", "image/jpx", "image/png", "image/tiff",
    "model/iges", "model/mesh", "model/vnd.usdz+zip", "model/vrml", "model/x3d+binary", "model/x3d+vrml",
    "video/jpm", "video/mp4", "video/mpeg", "video/ogg", "video/quicktime", "video/webm", "video/x-flv",
    "video/x-matroska", "video/x-ms-wmv"].map String.toList

/-- `DynamicCompressionModuleHandlers`. -/
structure DynamicCompressionModuleHandlers where
  userAgent : Option Str
  acceptEncoding : Option Str
  compressionEnabled : Bool

/-- `request_handler`. -/
def requestHandler (request : Parts) (config : ServerConfiguration) : DynamicCompressionModuleHandlers where
  userAgent := (request.headers.get userAgentName).bind toStr
  acceptEncoding := (request.headers.get acceptEncodingName).bind toStr
  compressionEnabled := ((config.getValue "dynamic_compressed".toList).bind
    ServerConfigurationValue.asBool).getD false

/-- The type of a response, without its parameters. -/
def contentType (headers : HeaderMap) : Option Str :=
  ((headers.get contentTypeName).bind toStr).map fun v => trim (v.takeWhile (· ≠ ';'))

/-- The response may be compressed. -/
def compressible (this : DynamicCompressionModuleHandlers) (headers : HeaderMap) : Bool :=
  this.compressionEnabled && !headers.containsKey contentEncodingName &&
    (contentType headers).all fun t => !nonCompressibleMimeTypes.contains t

/-- `algorithm_str`. -/
def algorithm (this : DynamicCompressionModuleHandlers) (headers : HeaderMap) : Option Encoding :=
  dynamicEncoding (compressible this headers) (contentType headers) (this.userAgent.getD [])
    (this.acceptEncoding.getD [])

/-- The first value of a name, if there is one, is written over. -/
def setFirst : HeaderMap → HeaderName → HeaderValue → HeaderMap
  | [], _, _ => []
  | header :: headers, name, value =>
      if header.1 = name then (name, value) :: headers else header :: setFirst headers name value

/-- The `Vary` header with `Accept-Encoding`, or an error if it is no header value. -/
def addVary (headers : HeaderMap) : Option HeaderMap :=
  match headers.get varyName with
  | some vary =>
      let oldVary := ((toStr vary).map fun v => (v.splitOn ',').map trim).getD []
      if oldVary.any fun v => lowerName v = acceptEncodingName then some headers
      else (headerValue (", ".toList.intercalate (oldVary ++ ["Accept-Encoding".toList]))).map
        (setFirst headers varyName)
  | none => some (headers.insert varyName (asciiBytes "Accept-Encoding".toList))

/-- The `ETag` header with the suffix for a compressed response. -/
def addEtagSuffix (headers : HeaderMap) (algorithm : Encoding) : Option HeaderMap :=
  match (headers.get etagName).bind toStr with
  | some etagStr => (headerValue (addDynamicSuffix etagStr algorithm)).map (setFirst headers etagName)
  | none => some headers

/-- `response_modifying_handler`, with the text of an error dropped. -/
def responseModifyingHandler (this : DynamicCompressionModuleHandlers)
    (response : Response BodySource) : Option (Response Body) := do
  let algorithm := algorithm this response.headers
  let headers ← addVary response.headers
  match algorithm with
  | none => return ⟨response.status, headers, .plain response.body⟩
  | some encoding =>
      let headers ← addEtagSuffix (headers.remove contentLengthName) encoding
      let encodingValue ← headerValue encoding.name
      return ⟨response.status, headers.insert contentEncodingName encodingValue,
        .compressed encoding response.body⟩

/-! ## Complete representations -/

/-- The module is asked to compress, and the response and the browser allow it. -/
structure Eligible (this : DynamicCompressionModuleHandlers) (headers : HeaderMap) : Prop where
  enabled : this.compressionEnabled = true
  unencoded : headers.containsKey contentEncodingName = false
  type : ∀ t, contentType headers = some t → t ∉ nonCompressibleMimeTypes
  browser : browserSupports (this.userAgent.getD []) (contentType headers) = true
  named : ∃ encoding : Encoding, contains encoding.name (this.acceptEncoding.getD []) = true

/-- Nothing is changed but the `Vary` header. -/
structure Untouched (response : Response BodySource) (output : Response Body) : Prop where
  status : output.status = response.status
  headers : ∀ name ≠ varyName, output.headers.getAll name = response.headers.getAll name
  body : output.body = .plain response.body

/-- Frames with the encoded data of others and their trailers. -/
def Represents (codec : Codec) (encoding : Encoding) (frames out : List Frame) : Prop :=
  codec.decode encoding (dataOf out) = some (dataOf frames) ∧ trailersOf out = trailersOf frames

/-- The response is no part, and the encoded one stands for it: it has the whole body, and it comes to its
end only with the whole body. -/
structure Transformed (codec : Codec) (encoding : Encoding) (response : Response BodySource)
    (output : Response Body) : Prop where
  complete : response.headers.containsKey contentRangeName = false
  status : output.status = response.status
  contentEncoding : output.headers.getAll contentEncodingName = [asciiBytes encoding.name]
  contentLength : output.headers.getAll contentLengthName = []
  headers : ∀ name ∉ [varyName, etagName, contentEncodingName, contentLengthName],
    output.headers.getAll name = response.headers.getAll name
  delivers : ∀ frames, Ends response.body frames →
    ∃ out, output.body.Yields codec out ∧ Represents codec encoding frames out
  nothingElse : ∀ out, output.body.Yields codec out →
    ∃ frames, Ends response.body frames ∧ Represents codec encoding frames out

/-- The module leaves the response alone or transforms a complete representation; a part keeps the range
that it names. -/
structure CompleteOnly (codec : Codec) (this : DynamicCompressionModuleHandlers)
    (response : Response BodySource) : Prop where
  result : ∃ output, responseModifyingHandler this response = some output ∧
    (Untouched response output ∨ ∃ encoding, Transformed codec encoding response output)
  partial_kept : ∀ output, responseModifyingHandler this response = some output →
    response.status = 206 → response.headers.containsKey contentRangeName = true →
      output.body = .plain response.body ∧
        output.headers.getAll contentRangeName = response.headers.getAll contentRangeName

/-! ## Header values -/

theorem isVisible_of_toStr {value : HeaderValue} {text : Str} (h : toStr value = some text) :
    ∀ c ∈ text, IsVisible c := by
  rw [toStr] at h
  split at h
  · next hall =>
      rw [← Option.some.inj h]
      intro c hc
      obtain ⟨b, hb, rfl⟩ := List.mem_map.1 hc
      have hnat : (Char.ofUInt8 b).toNat = b.toNat := by
        change b.toUInt32.toNat = b.toNat
        simp
      have hchar : Char.ofNat b.toNat = Char.ofUInt8 b := by rw [← hnat, Char.ofNat_toNat]
      have hvisible := List.all_eq_true.1 hall b hb
      simp only [isVisibleAscii, Bool.or_eq_true, Bool.and_eq_true, decide_eq_true_eq, beq_iff_eq,
        UInt8.le_iff_toNat_le, UInt8.lt_iff_toNat_lt] at hvisible
      rcases hvisible with hprint | rfl
      · left
        rw [hchar, hnat]
        exact hprint
      · exact Or.inr rfl
  · exact absurd h (by simp)

theorem mem_of_mem_trim {s : Str} {c : Char} (h : c ∈ trim s) : c ∈ s :=
  (List.dropWhile_suffix _).subset ((List.rdropWhile_prefix _ _).subset h)

theorem forall_mem_intercalate {P : Char → Prop} {separator : Str} {parts : List Str}
    (hseparator : ∀ c ∈ separator, P c) (hparts : ∀ part ∈ parts, ∀ c ∈ part, P c) :
    ∀ c ∈ separator.intercalate parts, P c := by
  induction parts with
  | nil => exact fun c hc => absurd hc List.not_mem_nil
  | cons part rest ih =>
      have hrest := ih fun other hother => hparts other (List.mem_cons_of_mem _ hother)
      have hpart := hparts part List.mem_cons_self
      cases rest with
      | nil =>
          rw [List.intercalate_singleton]
          exact hpart
      | cons next rest =>
          rw [List.intercalate_cons_cons]
          intro c hc
          rcases List.mem_append.1 hc with hc | hc
          · rcases List.mem_append.1 hc with hc | hc
            · exact hpart c hc
            · exact hseparator c hc
          · exact hrest c hc

/-- What the header is written over with is a header value. -/
theorem isVisible_vary {vary : HeaderValue} {c : Char}
    (h : c ∈ ", ".toList.intercalate
      (((toStr vary).map fun v => (v.splitOn ',').map trim).getD [] ++ ["Accept-Encoding".toList])) :
    IsVisible c := by
  refine forall_mem_intercalate (List.all_iff_forall_prop.1 (by decide)) ?_ c h
  intro part hpart
  rcases List.mem_append.1 hpart with hold | hnew
  · intro c hc
    cases hvary : toStr vary with
    | none =>
        rw [hvary] at hold
        exact absurd hold List.not_mem_nil
    | some text =>
        rw [hvary] at hold
        obtain ⟨token, htoken, rfl⟩ := List.mem_map.1 hold
        exact isVisible_of_toStr hvary c
          (Lib.DotSegments.mem_of_mem_splitOnP htoken (mem_of_mem_trim hc))
  · rw [List.mem_singleton.1 hnew]
    exact List.all_iff_forall_prop.1 (by decide)

theorem isVisible_addDynamicSuffix {etagStr : Str} (h : ∀ c ∈ etagStr, IsVisible c) (encoding : Encoding) :
    ∀ c ∈ addDynamicSuffix etagStr encoding, IsVisible c := by
  have hsuffix : ∀ c ∈ "-dynamic-".toList ++ encoding.name, IsVisible c := by
    intro c hc
    have hword : ∀ c ∈ "-dynamic-".toList, IsVisible c := List.all_iff_forall_prop.1 (by decide)
    rcases List.mem_append.1 hc with hc | hname
    · exact hword c hc
    · exact (mem_encoding_name hname).2
  intro c hc
  rw [addDynamicSuffix] at hc
  split at hc
  · rcases List.mem_append.1 hc with hc | hc
    · rcases List.mem_append.1 hc with hc | hc
      · exact h c (List.mem_of_mem_dropLast hc)
      · exact hsuffix c hc
    · rw [List.mem_singleton.1 hc]
      decide
  · rcases List.mem_append.1 hc with hc | hc
    · exact h c hc
    · exact hsuffix c hc

theorem getAll_setFirst (headers : HeaderMap) {name other : HeaderName} (h : other ≠ name)
    (value : HeaderValue) : (setFirst headers name value).getAll other = headers.getAll other := by
  induction headers with
  | nil => rfl
  | cons header headers ih =>
      rw [setFirst]
      split
      · next hname =>
          simp only [HeaderMap.getAll]
          rw [List.filter_cons_of_neg (by simpa using h.symm),
            List.filter_cons_of_neg (by simpa [hname] using h.symm)]
      · simp only [HeaderMap.getAll, List.filter_cons] at ih ⊢
        split
        · simpa using ih
        · exact ih

/-- The `Vary` header can always be written, and no other one is changed. -/
theorem exists_addVary (headers : HeaderMap) : ∃ out, addVary headers = some out ∧
    ∀ name ≠ varyName, out.getAll name = headers.getAll name := by
  unfold addVary
  split
  · next vary _ =>
      dsimp only
      split
      · exact ⟨headers, rfl, fun _ _ => rfl⟩
      · rw [headerValue_eq_asciiBytes fun c hc => isVisible_vary hc]
        exact ⟨_, rfl, fun name hname => getAll_setFirst headers hname _⟩
  · refine ⟨_, rfl, fun name hname => ?_⟩
    rw [HeaderMap.getAll_insert, if_neg hname]

/-- The same for the `ETag` header. -/
theorem exists_addEtagSuffix (headers : HeaderMap) (encoding : Encoding) :
    ∃ out, addEtagSuffix headers encoding = some out ∧
      ∀ name ≠ etagName, out.getAll name = headers.getAll name := by
  unfold addEtagSuffix
  split
  · next etagStr hetag =>
      obtain ⟨value, -, hvalue⟩ := Option.bind_eq_some_iff.1 hetag
      rw [headerValue_eq_asciiBytes (isVisible_addDynamicSuffix (isVisible_of_toStr hvalue) encoding)]
      exact ⟨_, rfl, fun name hname => getAll_setFirst headers hname _⟩
  · exact ⟨headers, rfl, fun _ _ => rfl⟩

/-! ## The algorithm -/

/-- The module compresses exactly the eligible responses. -/
theorem algorithm_eq_none_iff (this : DynamicCompressionModuleHandlers) (headers : HeaderMap) :
    algorithm this headers = none ↔ ¬ Eligible this headers := by
  have hcompressible : compressible this headers = true ↔ this.compressionEnabled = true ∧
      headers.containsKey contentEncodingName = false ∧
        ∀ t, contentType headers = some t → t ∉ nonCompressibleMimeTypes := by
    rw [compressible, Bool.and_eq_true, Bool.and_eq_true, Bool.not_eq_true', and_assoc,
      Option.all_eq_true]
    simp only [Bool.not_eq_true', List.contains_eq_mem, decide_eq_false_iff_not]
  have hnamed : (acceptedEncodings (this.acceptEncoding.getD [])).head? = none ↔
      ¬ ∃ encoding : Encoding, contains encoding.name (this.acceptEncoding.getD []) = true := by
    rw [List.head?_eq_none_iff, List.eq_nil_iff_forall_not_mem, not_exists]
    exact forall_congr' fun encoding => not_congr mem_acceptedEncodings_iff
  rw [algorithm, dynamicEncoding_eq]
  split
  · next hallowed =>
      obtain ⟨hpossible, hbrowser⟩ := Bool.and_eq_true_iff.1 hallowed
      obtain ⟨henabled, hunencoded, htype⟩ := hcompressible.1 hpossible
      rw [hnamed]
      exact not_congr ⟨fun h => ⟨henabled, hunencoded, htype, hbrowser, h⟩, fun h => h.named⟩
  · next hrefused =>
      refine iff_of_true rfl fun h => hrefused ?_
      rw [Bool.and_eq_true]
      exact ⟨hcompressible.2 ⟨h.enabled, h.unencoded, h.type⟩, h.browser⟩

/-- A response that is not eligible is left alone. -/
theorem untouched_of_not_eligible {this : DynamicCompressionModuleHandlers} {response : Response BodySource}
    (h : ¬ Eligible this response.headers) :
    ∃ output, responseModifyingHandler this response = some output ∧ Untouched response output := by
  obtain ⟨headers, hvary, hheaders⟩ := exists_addVary response.headers
  refine ⟨⟨response.status, headers, .plain response.body⟩, ?_, rfl, hheaders, rfl⟩
  rw [responseModifyingHandler, hvary, (algorithm_eq_none_iff _ _).2 h]
  rfl

/-- An eligible response is compressed, whatever it is. -/
theorem compressed_of_eligible {this : DynamicCompressionModuleHandlers} {response : Response BodySource}
    (h : Eligible this response.headers) :
    ∃ encoding headers, responseModifyingHandler this response =
        some ⟨response.status, headers, .compressed encoding response.body⟩ ∧
      headers.getAll contentEncodingName = [asciiBytes encoding.name] ∧
      headers.getAll contentLengthName = [] ∧
      ∀ name ∉ [varyName, etagName, contentEncodingName, contentLengthName],
        headers.getAll name = response.headers.getAll name := by
  obtain ⟨encoding, hencoding⟩ := Option.ne_none_iff_exists'.1
    fun hnone => (algorithm_eq_none_iff _ _).1 hnone h
  obtain ⟨varied, hvary, hvaried⟩ := exists_addVary response.headers
  obtain ⟨tagged, hetag, htagged⟩ := exists_addEtagSuffix (varied.remove contentLengthName) encoding
  refine ⟨encoding, tagged.insert contentEncodingName (asciiBytes encoding.name), ?_, ?_, ?_, ?_⟩
  · rw [responseModifyingHandler, hvary, hencoding]
    simp only [Option.bind_eq_bind, Option.bind_some, hetag,
      headerValue_eq_asciiBytes fun c hc => (mem_encoding_name hc).2]
    rfl
  · rw [HeaderMap.getAll_insert, if_pos rfl]
  · rw [HeaderMap.getAll_insert, if_neg (by decide), htagged _ (by decide), HeaderMap.getAll_remove,
      if_pos rfl]
  · intro name hname
    simp only [List.mem_cons, List.not_mem_nil, or_false, not_or] at hname
    obtain ⟨hnotVary, hnotEtag, hnotEncoding, hnotLength⟩ := hname
    rw [HeaderMap.getAll_insert, if_neg hnotEncoding, htagged name hnotEtag, HeaderMap.getAll_remove,
      if_neg hnotLength, hvaried name hnotVary]

/-! ## Compressed bodies -/

section Bodies

variable {codec : Codec} {encoding : Encoding} {source : BodySource} {frames : List Frame}

theorem eq_map_data_of_trailersOf (h : trailersOf frames = []) :
    frames = (frames.map Frame.dataBytes).map .data := by
  induction frames with
  | nil => rfl
  | cons frame frames ih =>
      cases frame with
      | data bytes => exact congrArg (Frame.data bytes :: ·) (ih h)
      | trailers headers => exact absurd h (by simp)

theorem dataOf_map_data (chunks : List Bytes) : dataOf (chunks.map .data) = chunks.flatten := by
  induction chunks with
  | nil => rfl
  | cons chunk chunks ih => rw [List.map_cons, dataOf_cons, ih]; rfl

theorem trailersOf_map_data (chunks : List Bytes) : trailersOf (chunks.map .data) = [] := by
  induction chunks with
  | nil => rfl
  | cons chunk chunks ih => exact ih

/-- What the encoder makes of the chunks stands for the data frames. -/
theorem represents_encode (codec : Codec) (encoding : Encoding) (chunks : List Bytes) :
    Represents codec encoding (chunks.map .data) ((codec.encode encoding chunks).map .data) := by
  constructor
  · rw [dataOf_map_data, dataOf_map_data, codec.decode_encode]
  · rw [trailersOf_map_data, trailersOf_map_data]

/-- Answers that all go to the left half, without an error, are data frames. -/
theorem eq_map_data_of_lefts {items : List (Except IoError Frame)} {chunks : List Bytes}
    (hleft : ∀ item ∈ items, (classify item).isLeft = true)
    (hchunks : (items.filterMap fun item => (classify item).getLeft?) = chunks.map .ok) :
    items = (chunks.map Frame.data).map .ok := by
  induction items generalizing chunks with
  | nil =>
      rw [List.filterMap_nil, eq_comm, List.map_eq_nil_iff] at hchunks
      rw [hchunks]
      rfl
  | cons item items ih =>
      have hrest := fun other hother => hleft other (List.mem_cons_of_mem _ hother)
      have hitem := hleft item List.mem_cons_self
      match item with
      | .error err =>
          cases chunks with
          | nil => exact absurd hchunks (by simp [classify])
          | cons chunk chunks => exact absurd hchunks (by simp [classify])
      | .ok (.trailers headers) => exact absurd hitem (by simp [classify])
      | .ok (.data data) =>
          cases chunks with
          | nil => exact absurd hchunks (by simp [classify])
          | cons chunk chunks =>
              have hdata : (classify (.ok (.data data))).getLeft? = some (.ok data) := rfl
              rw [List.filterMap_cons, hdata] at hchunks
              simp only [List.map_cons, List.cons.injEq, Except.ok.injEq] at hchunks
              rw [ih hrest hchunks.2, hchunks.1]
              rfl

/-- A compressed body that comes to its end has encoded a body of data frames. -/
theorem of_yields_compressed {out : List Frame} (h : (Body.compressed encoding source).Yields codec out) :
    ∃ chunks : List Bytes, Ends source (chunks.map .data) ∧
      out = (codec.encode encoding chunks).map .data := by
  obtain ⟨n, chunks, trailers, hfinished, hleft, hright, hout⟩ := h
  obtain ⟨last, hend, honly, hlefts, hrights⟩ := of_chainRun_finished hfinished
  rw [hrights, eq_comm, List.map_eq_nil_iff] at hright
  rw [hright, List.append_nil] at hout
  exact ⟨chunks, ⟨last, hend, eq_map_data_of_lefts honly (hlefts.symm.trans hleft)⟩, hout⟩

/-- A body of data frames is encoded. -/
theorem yields_compressed {chunks : List Bytes} (h : Ends source (chunks.map .data)) :
    (Body.compressed encoding source).Yields codec ((codec.encode encoding chunks).map .data) := by
  obtain ⟨last, hend, hreceived⟩ := h
  have hitems : ∀ item ∈ received source last, (classify item).isLeft = true := by
    rw [hreceived]
    intro item hitem
    obtain ⟨frame, hframe, rfl⟩ := List.mem_map.1 hitem
    obtain ⟨chunk, -, rfl⟩ := List.mem_map.1 hframe
    rfl
  obtain ⟨n, hfinished, hleft, hright⟩ := exists_chainRun_finished hend hitems
  refine ⟨n, chunks, [], hfinished, ?_, hright, (List.append_nil _).symm⟩
  rw [hleft, lefts, hreceived, List.map_map, List.filterMap_map, ← List.filterMap_eq_map]
  rfl

end Bodies

/-! ## What the module transforms -/

section Response

variable {codec : Codec} {this : DynamicCompressionModuleHandlers} {response : Response BodySource}

/-- A response without trailers is represented by the compressed one. -/
theorem transformed_of_no_trailers {encoding : Encoding} {headers : HeaderMap}
    (hcomplete : response.headers.containsKey contentRangeName = false)
    (hbody : ∀ frames, Ends response.body frames → trailersOf frames = [])
    (hencoding : headers.getAll contentEncodingName = [asciiBytes encoding.name])
    (hlength : headers.getAll contentLengthName = [])
    (hheaders : ∀ name ∉ [varyName, etagName, contentEncodingName, contentLengthName],
      headers.getAll name = response.headers.getAll name) :
    Transformed codec encoding response ⟨response.status, headers, .compressed encoding response.body⟩ where
  complete := hcomplete
  status := rfl
  contentEncoding := hencoding
  contentLength := hlength
  headers := hheaders
  delivers frames hframes := by
    have hdata := eq_map_data_of_trailersOf (hbody frames hframes)
    rw [hdata] at hframes ⊢
    exact ⟨_, yields_compressed hframes, represents_encode codec encoding _⟩
  nothingElse out hout := by
    obtain ⟨chunks, hends, rfl⟩ := of_yields_compressed hout
    exact ⟨_, hends, represents_encode codec encoding chunks⟩

/-- A compressed body cannot stand for one with trailers. -/
theorem trailersOf_of_delivers {encoding other : Encoding} {source : BodySource}
    (h : ∀ frames, Ends source frames → ∃ out, (Body.compressed encoding source).Yields codec out ∧
      Represents codec other frames out) {frames : List Frame} (hframes : Ends source frames) :
    trailersOf frames = [] := by
  obtain ⟨out, hout, -, htrailers⟩ := h frames hframes
  obtain ⟨chunks, -, rfl⟩ := of_yields_compressed hout
  rw [← htrailers, trailersOf_map_data]

/-- An eligible response that is handled well is no part and has no trailers. -/
theorem CompleteOnly.of_eligible (h : CompleteOnly codec this response)
    (heligible : Eligible this response.headers) :
    response.headers.containsKey contentRangeName = false ∧
      ∀ frames, Ends response.body frames → trailersOf frames = [] := by
  obtain ⟨encoding, headers, hhandler, -⟩ := compressed_of_eligible heligible
  obtain ⟨output, houtput, hresult⟩ := h.result
  rw [hhandler, Option.some.injEq] at houtput
  subst houtput
  rcases hresult with huntouched | ⟨other, htransformed⟩
  · exact absurd huntouched.body (by simp)
  · exact ⟨htransformed.complete, fun frames => trailersOf_of_delivers htransformed.delivers⟩

/-- The module transforms complete representations only, and these faithfully, exactly when the response
is not eligible for compression, or it has no `Content-Range` and its body does not come to its end with
trailers. -/
theorem completeOnly_iff (codec : Codec) (this : DynamicCompressionModuleHandlers)
    (response : Response BodySource) :
    CompleteOnly codec this response ↔
      ¬ Eligible this response.headers ∨
        response.headers.containsKey contentRangeName = false ∧
          ∀ frames, Ends response.body frames → trailersOf frames = [] := by
  by_cases heligible : Eligible this response.headers
  · rw [or_iff_right (not_not_intro heligible)]
    refine ⟨fun h => h.of_eligible heligible, ?_⟩
    rintro ⟨hcomplete, hbody⟩
    obtain ⟨encoding, headers, hhandler, hencoding, hlength, hheaders⟩ := compressed_of_eligible heligible
    refine ⟨⟨_, hhandler, Or.inr ⟨encoding,
      transformed_of_no_trailers hcomplete hbody hencoding hlength hheaders⟩⟩, ?_⟩
    intro output _ _ hrange
    exact absurd (hcomplete.symm.trans hrange) (by simp)
  · obtain ⟨output, houtput, huntouched⟩ := untouched_of_not_eligible heligible
    refine iff_of_true ⟨⟨output, houtput, Or.inl huntouched⟩, ?_⟩ (Or.inl heligible)
    intro other hother _ _
    rw [houtput, Option.some.injEq] at hother
    subst hother
    exact ⟨huntouched.body, huntouched.headers _ (by decide)⟩

end Response

/-! ## A part of a file -/

/-- A request of a client that accepts gzip. -/
def gzipRequest : Parts where
  method := Method.get
  uri := ⟨['/'], none, rootPath_no_question⟩
  headers := [(acceptEncodingName, asciiBytes "gzip".toList)]
  version := .http11
  scheme := none
  authority := none

/-- `dynamic_compressed` -/
def compressedConfig : ServerConfiguration :=
  ⟨(∅ : HashMap Str ServerConfigurationEntries).insert "dynamic_compressed".toList
    ⟨[⟨[.bool true], ∅⟩]⟩, ⟨true, none, none, none, none, none⟩⟩

/-- The first four bytes of a file of ten, as the static file module serves them when it does not know the
type of the file. -/
def partialResponse : Response BodySource where
  status := 206
  headers := [(contentLengthName, asciiBytes "4".toList),
    (contentRangeName, asciiBytes "bytes 0-3/10".toList)]
  body := .ofList [.ok (.data (asciiBytes "Lore".toList))]

theorem eligible_partialResponse :
    Eligible (requestHandler gzipRequest compressedConfig) partialResponse.headers where
  enabled := rfl
  unencoded := rfl
  type t ht := by
    have hnone : contentType partialResponse.headers = none := rfl
    rw [hnone] at ht
    exact absurd ht (by simp)
  browser := rfl
  named := ⟨.gzip, rfl⟩

/-- The part is compressed and keeps its `Content-Range`. -/
theorem partialResponse_compressed :
    ((responseModifyingHandler (requestHandler gzipRequest compressedConfig) partialResponse).map
        fun output => (output.status, output.headers.getAll contentRangeName,
          output.headers.getAll contentEncodingName)) =
      some (206, [asciiBytes "bytes 0-3/10".toList], [asciiBytes "gzip".toList]) ∧
      Nonempty Codec ∧
      ¬∃ codec, CompleteOnly codec (requestHandler gzipRequest compressedConfig) partialResponse := by
  refine ⟨rfl, ⟨⟨fun _ chunks => chunks, fun _ data => some data, fun _ _ => rfl⟩⟩, ?_⟩
  rintro ⟨codec, h⟩
  obtain ⟨hcomplete, -⟩ := h.of_eligible eligible_partialResponse
  exact absurd hcomplete (by decide)

end Ferron.Modules.DynamicCompression
