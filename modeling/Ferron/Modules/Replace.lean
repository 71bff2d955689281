import Ferron.Common.Config
import Ferron.Modules.ReplacedTrailers
import Ferron.Rust.Utf8

/-!
# The response replacement module

The module wraps the body of a response once for each `replace` directive, and removes headers that the
replacements make wrong. The loop over `replace_filter_types` can only set a flag that is set already, so
the filter has no effect: only responses with a `Content-Encoding` are left alone.

`replaceModule_filters_iff` says for which responses this makes no difference.
-/

set_option autoImplicit false

namespace Ferron.Modules.Replace

open Ferron.Common Ferron.Http Ferron.Modules.BodyReplacer

/-! ## The model -/

/-- `BodyReplacer`. -/
structure BodyReplacer where
  searched : Bytes
  replacement : Bytes
  once : Bool

/-- A response, with the events of its body up to its end. -/
structure Response where
  headers : HeaderMap
  body : List BodyEvent

/-- `ReplaceModuleHandlers`. -/
structure ReplaceModuleHandlers where
  replacers : List BodyReplacer
  preserveLastModified : Bool
  filterTypes : List Str

/-- `char::is_whitespace`. -/
def isWhitespace (c : Char) : Bool :=
  (9 ≤ c.toNat && c.toNat ≤ 13) || (0x2000 ≤ c.toNat && c.toNat ≤ 0x200a) ||
    [0x20, 0x85, 0xa0, 0x1680, 0x2028, 0x2029, 0x202f, 0x205f, 0x3000].contains c.toNat

/-- `str::trim`. -/
def trim (s : Str) : Str := (s.dropWhile isWhitespace).rdropWhile isWhitespace

/-- `split_once`. -/
def splitOnce (separator : Char) (s : Str) : Option (Str × Str) :=
  let front := s.takeWhile (· ≠ separator)
  if front.length < s.length then some (front, s.drop (front.length + 1)) else none

/-- The replacers of `load_module`. -/
def replacers (config : ServerConfiguration) : List BodyReplacer :=
  (((config.getEntries "replace".toList).map ServerConfigurationEntries.inner).getD []).filterMap
    fun e =>
      (e.values.head?.bind ServerConfigurationValue.asStr).bind fun searched =>
        (e.values[1]?.bind ServerConfigurationValue.asStr).map fun replacement =>
          { searched := searched.flatMap String.utf8EncodeChar
            replacement := replacement.flatMap String.utf8EncodeChar
            once := ((e.props.lookup "once".toList).bind ServerConfigurationValue.asBool).getD true }

/-- `get_module_handlers`. -/
def getModuleHandlers (config : ServerConfiguration) : ReplaceModuleHandlers :=
  ⟨replacers config, false, []⟩

/-- The value of `replace_last_modified`. -/
def preserveLastModified (config : ServerConfiguration) : Bool :=
  ((config.getValue "replace_last_modified".toList).bind ServerConfigurationValue.asBool).getD false

/-- The filter types of `request_handler`. -/
def filterTypes (config : ServerConfiguration) : List Str :=
  let filterTypes :=
    (config.getValues "replace_filter_types".toList).filterMap ServerConfigurationValue.asStr
  if filterTypes.isEmpty then ["text/html".toList] else filterTypes

/-- `request_handler`. -/
def requestHandler (config : ServerConfiguration) (this : ReplaceModuleHandlers) :
    ReplaceModuleHandlers :=
  { this with
    preserveLastModified := preserveLastModified config
    filterTypes := filterTypes config }

/-- The MIME type that is compared with the filter. -/
def mimeType (contentType : Str) : Str :=
  match splitOnce ';' contentType with
  | some (mimeType, _) => trim mimeType
  | none => trim contentType

/-- The loop over the filter types. -/
def filterLoop (responseMimeType : Option Str) : List Str → Bool → Bool
  | [], canReplace => canReplace
  | filterType :: filterTypes, canReplace =>
      if filterType = "*".toList ∨ responseMimeType.map mimeType = some filterType then true
      else filterLoop responseMimeType filterTypes canReplace

section Handler

variable (finder : Finder)

/-- The events of a wrapped body: those of the inner body, and at its end what is held back. -/
def wrappedEvents : ReplaceBody → List BodyEvent → List BodyEvent
  | this, [] => (this.buffer.map fun buffer => BodyEvent.frame (.data buffer)).toList
  | this, .pending :: events => .pending :: wrappedEvents this events
  | this, .frame (.trailers headers) :: events =>
      .frame (.trailers headers) :: wrappedEvents this events
  | this, .frame (.data chunk) :: events =>
      .frame (.data (replaceData finder this chunk).2) ::
        wrappedEvents (replaceData finder this chunk).1 events

/-- The body with a replacer around it. -/
def wrapBody (body : List BodyEvent) (replacer : BodyReplacer) : List BodyEvent :=
  wrappedEvents finder (wrap replacer.searched replacer.replacement replacer.once) body

/-- `response_modifying_handler`. -/
def responseModifyingHandler (this : ReplaceModuleHandlers) (response : Response) : Response :=
  let canReplace := !response.headers.containsKey "content-encoding".toList
  let responseMimeType :=
    (response.headers.get "content-type".toList).map Utf8.fromUtf8Lossy
  let canReplace :=
    if canReplace then filterLoop responseMimeType this.filterTypes canReplace else canReplace
  if canReplace then
    let headers :=
      if this.preserveLastModified then response.headers
      else response.headers.remove "last-modified".toList
    { headers := headers.remove "content-length".toList
      body := this.replacers.foldl (wrapBody finder) response.body }
  else response

/-- What the module makes of a response: its handlers for the request, and then for the response. -/
def replaceModule (config : ServerConfiguration) (response : Response) : Response :=
  responseModifyingHandler finder (requestHandler config (getModuleHandlers config)) response

end Handler

/-! ## What the filter is for -/

/-- The filter lists the MIME type of the response, or everything. -/
def InFilter (config : ServerConfiguration) (response : Response) : Prop :=
  "*".toList ∈ filterTypes config ∨
    ∃ contentType ∈ response.headers.get "content-type".toList,
      mimeType (Utf8.fromUtf8Lossy contentType) ∈ filterTypes config

/-- The module may change the response. -/
def MayReplace (config : ServerConfiguration) (response : Response) : Prop :=
  response.headers.getAll "content-encoding".toList = [] ∧ InFilter config response

/-- The headers that describe the body are those that were there before. -/
structure KeepsHeaders (before after : HeaderMap) : Prop where
  contentLength : after.getAll "content-length".toList = before.getAll "content-length".toList
  etag : after.getAll "etag".toList = before.getAll "etag".toList
  lastModified : after.getAll "last-modified".toList = before.getAll "last-modified".toList

/-! ## The decision -/

theorem filterLoop_true (responseMimeType : Option Str) (filterTypes : List Str) :
    filterLoop responseMimeType filterTypes true = true := by
  induction filterTypes with
  | nil => rfl
  | cons filterType filterTypes ih =>
      rw [filterLoop, ih, ite_self]

section Decision

variable (finder : Finder) (config : ServerConfiguration) (response : Response)

/-- The headers without those that are removed. -/
def replacedHeaders : HeaderMap :=
  (if preserveLastModified config then response.headers
    else response.headers.remove "last-modified".toList).remove "content-length".toList

/-- The body with all replacers around it. -/
def replacedBody : List BodyEvent := (replacers config).foldl (wrapBody finder) response.body

theorem replaceModule_of_contentEncoding
    (hencoding : response.headers.getAll "content-encoding".toList ≠ []) :
    replaceModule finder config response = response := by
  have hkey := HeaderMap.containsKey_iff.2 hencoding
  rw [replaceModule, responseModifyingHandler, hkey]
  rfl

/-- Without `Content-Encoding` the response is replaced, whatever the filter is. -/
theorem replaceModule_of_not_contentEncoding
    (hencoding : response.headers.getAll "content-encoding".toList = []) :
    replaceModule finder config response =
      ⟨replacedHeaders config response, replacedBody finder config response⟩ := by
  have hkey : response.headers.containsKey "content-encoding".toList = false := by
    rw [← Bool.not_eq_true, HeaderMap.containsKey_iff]
    exact not_not_intro hencoding
  rw [replaceModule, responseModifyingHandler, hkey]
  rw [Bool.not_false, if_pos rfl, filterLoop_true, if_pos rfl]
  rfl

/-- Which headers are kept. -/
theorem keepsHeaders_replacedHeaders_iff :
    KeepsHeaders response.headers (replacedHeaders config response) ↔
      response.headers.getAll "content-length".toList = [] ∧
        (preserveLastModified config = true ∨
          response.headers.getAll "last-modified".toList = []) := by
  have hlength : (replacedHeaders config response).getAll "content-length".toList = [] := by
    rw [replacedHeaders, HeaderMap.getAll_remove]
    exact if_pos rfl
  have hother : ∀ name, name ≠ "content-length".toList →
      (replacedHeaders config response).getAll name =
        if preserveLastModified config = false ∧ name = "last-modified".toList then []
        else response.headers.getAll name := by
    intro name hname
    rw [replacedHeaders, HeaderMap.getAll_remove, if_neg hname]
    cases preserveLastModified config with
    | true => rw [if_pos rfl, if_neg fun h => Bool.noConfusion h.1]
    | false =>
        rw [if_neg Bool.false_ne_true, HeaderMap.getAll_remove]
        by_cases hmodified : name = "last-modified".toList
        · rw [if_pos hmodified, if_pos ⟨rfl, hmodified⟩]
        · rw [if_neg hmodified, if_neg fun h => hmodified h.2]
  have hetag := hother "etag".toList (by decide)
  have hmodified := hother "last-modified".toList (by decide)
  rw [if_neg (fun h => absurd h.2 (by decide))] at hetag
  constructor
  · rintro ⟨hkept, -, hkept'⟩
    rw [hlength] at hkept
    refine ⟨hkept.symm, ?_⟩
    cases hpreserve : preserveLastModified config with
    | true => exact Or.inl rfl
    | false =>
        rw [hmodified, if_pos ⟨hpreserve, rfl⟩] at hkept'
        exact Or.inr hkept'.symm
  · rintro ⟨hnone, hpreserved⟩
    refine ⟨hlength.trans hnone.symm, hetag, ?_⟩
    rw [hmodified]
    rcases hpreserved with hpreserve | habsent
    · exact if_neg fun h => absurd (hpreserve.symm.trans h.1) (by decide)
    · rw [habsent, ite_self]

end Decision

/-! ## The body -/

section Body

variable (finder : Finder)

/-- Behind its end a body without a buffer stays at the end. -/
theorem runPolls_end {this : ReplaceBody} (hbuffer : this.buffer = none) (n : Nat) :
    runPolls (pollFrame finder) this (List.replicate n (.ready none)) =
      List.replicate n (.ready none) := by
  have hpoll : pollFrame finder this (.ready none) = (this, .ready none) := by
    rw [pollFrame, hbuffer]
  induction n with
  | zero => rfl
  | succ n ih => rw [List.replicate_succ, runPolls, hpoll, ih]

/-- The events are what polling the wrapped body returns, up to its end. -/
theorem runPolls_wrappedEvents (n : Nat) (events : List BodyEvent) (this : ReplaceBody) :
    ∃ left, n ≤ left ∧
      runPolls (pollFrame finder) this
          (events.map BodyEvent.polled ++ List.replicate (n + 1) (.ready none)) =
        (wrappedEvents finder this events).map BodyEvent.polled ++
          List.replicate left (.ready none) := by
  induction events generalizing this with
  | nil =>
      obtain ⟨searched, replacement, once, replaced, buffer⟩ := this
      cases buffer with
      | none => exact ⟨n + 1, Nat.le_succ n, runPolls_end finder rfl (n + 1)⟩
      | some buffer => exact ⟨n, le_rfl, congrArg (_ :: ·) (runPolls_end finder rfl n)⟩
  | cons event events ih =>
      cases event with
      | pending =>
          obtain ⟨left, hle, hpolls⟩ := ih this
          exact ⟨left, hle, congrArg (Poll.pending :: ·) hpolls⟩
      | frame frame =>
          cases frame with
          | data chunk =>
              obtain ⟨left, hle, hpolls⟩ := ih (replaceData finder this chunk).1
              exact ⟨left, hle, congrArg (_ :: ·) hpolls⟩
          | trailers headers =>
              obtain ⟨left, hle, hpolls⟩ := ih this
              exact ⟨left, hle, congrArg (_ :: ·) hpolls⟩

/-- The chunks: one for each chunk of the inner body, and the one that is held back. -/
theorem length_chunksOf_wrappedEvents (events : List BodyEvent) (this : ReplaceBody) :
    (chunksOf (wrappedEvents finder this events)).length =
      (chunksOf events).length + (afterChunks finder this (chunksOf events)).buffer.toList.length := by
  induction events generalizing this with
  | nil =>
      obtain ⟨searched, replacement, once, replaced, buffer⟩ := this
      cases buffer with
      | none => rfl
      | some buffer => rfl
  | cons event events ih =>
      cases event with
      | pending => exact ih this
      | frame frame =>
          cases frame with
          | data chunk =>
              have hchunks := ih (replaceData finder this chunk).1
              change (chunksOf (wrappedEvents finder _ events)).length + 1 =
                ((chunksOf events).length + 1) + _
              rw [hchunks, Nat.add_right_comm]
              rfl
          | trailers headers => exact ih this

/-- Without a buffer at the end and with the chunks as they were, the events are those of the inner
body. -/
theorem wrappedEvents_of_pass {this : ReplaceBody} (hbuffer : this.buffer = none)
    (events : List BodyEvent) (hpass : this.searched = [] ∨ chunksOf events = []) :
    wrappedEvents finder this events = events := by
  induction events with
  | nil =>
      rw [wrappedEvents, hbuffer]
      rfl
  | cons event events ih =>
      cases event with
      | pending => exact congrArg (_ :: ·) (ih hpass)
      | frame frame =>
          cases frame with
          | data chunk =>
              rcases hpass with hsearched | hchunks
              · have hdata : replaceData finder this chunk = (this, chunk) := dif_pos (Or.inr hsearched)
                rw [wrappedEvents, hdata, ih (Or.inl hsearched)]
              · cases hchunks
          | trailers headers => exact congrArg (_ :: ·) (ih hpass)

/-- A replacer with nothing to search for, or around a body without data, changes nothing. -/
theorem wrapBody_eq_self {body : List BodyEvent} {replacer : BodyReplacer}
    (hpass : replacer.searched = [] ∨ chunksOf body = []) : wrapBody finder body replacer = body :=
  wrappedEvents_of_pass finder rfl body hpass

/-- No chunk is dropped, and where something is searched for there is one more at the end. -/
theorem length_chunksOf_wrapBody (body : List BodyEvent) (replacer : BodyReplacer) :
    (chunksOf body).length ≤ (chunksOf (wrapBody finder body replacer)).length ∧
      (replacer.searched ≠ [] → chunksOf body ≠ [] →
        (chunksOf body).length < (chunksOf (wrapBody finder body replacer)).length) := by
  rw [wrapBody, length_chunksOf_wrappedEvents]
  refine ⟨Nat.le_add_right _ _, fun hsearched hchunks => Nat.lt_add_of_pos_right ?_⟩
  rw [List.length_pos_iff, Ne, Option.toList_eq_nil_iff, afterChunks_buffer_eq_none_iff]
  rintro (h | h)
  · exact hsearched h
  · exact hchunks h

theorem length_chunksOf_foldl (replacers : List BodyReplacer) (body : List BodyEvent) :
    (chunksOf body).length ≤ (chunksOf (replacers.foldl (wrapBody finder) body)).length := by
  induction replacers generalizing body with
  | nil => exact le_rfl
  | cons replacer replacers ih =>
      exact (length_chunksOf_wrapBody finder body replacer).1.trans (ih (wrapBody finder body replacer))

/-- The events are as they were exactly when nothing is searched for or there is no data. -/
theorem foldl_wrapBody_eq_self_iff (replacers : List BodyReplacer) (body : List BodyEvent) :
    replacers.foldl (wrapBody finder) body = body ↔
      (∀ replacer ∈ replacers, replacer.searched = []) ∨ chunksOf body = [] := by
  induction replacers generalizing body with
  | nil => exact iff_of_true rfl (Or.inl (List.forall_mem_nil _))
  | cons replacer replacers ih =>
      rw [List.foldl_cons, List.forall_mem_cons]
      by_cases hpass : replacer.searched = [] ∨ chunksOf body = []
      · rw [wrapBody_eq_self finder hpass, ih body]
        tauto
      · obtain ⟨hsearched, hchunks⟩ := not_or.1 hpass
        refine iff_of_false (fun heq => ?_) ?_
        · have hlonger := (length_chunksOf_wrapBody finder body replacer).2 hsearched hchunks
          have hle := length_chunksOf_foldl finder replacers (wrapBody finder body replacer)
          rw [heq] at hle
          omega
        · rintro (h | h)
          · exact hsearched h.1
          · exact hchunks h

end Body

/-! ## The filter -/

/-- The module leaves alone what the filter leaves out exactly when a `Content-Encoding` stops it or the
replacement does nothing: there are no headers to remove, and nothing is searched for in data. -/
theorem replaceModule_filters_iff (finder : Finder) (config : ServerConfiguration)
    (response : Response) :
    (¬ MayReplace config response →
        KeepsHeaders response.headers (replaceModule finder config response).headers ∧
          (replaceModule finder config response).body = response.body) ↔
      response.headers.getAll "content-encoding".toList ≠ [] ∨ InFilter config response ∨
        (response.headers.getAll "content-length".toList = [] ∧
          (preserveLastModified config = true ∨
            response.headers.getAll "last-modified".toList = [])) ∧
          ((∀ replacer ∈ replacers config, replacer.searched = []) ∨
            chunksOf response.body = []) := by
  rw [MayReplace]
  by_cases hencoding : response.headers.getAll "content-encoding".toList = []
  · rw [replaceModule_of_not_contentEncoding finder config response hencoding,
      ← keepsHeaders_replacedHeaders_iff, ← foldl_wrapBody_eq_self_iff finder]
    simp only [hencoding, ne_eq, not_true_eq_false, true_and, false_or]
    rw [← or_iff_not_imp_left]
    rfl
  · rw [replaceModule_of_contentEncoding finder config response hencoding]
    exact iff_of_true (fun _ => ⟨⟨rfl, rfl, rfl⟩, rfl⟩) (Or.inl hencoding)

/-- A host that replaces "a" by "b", in HTML as it is not told otherwise. -/
def replacingHost : ServerConfiguration where
  entries := (∅ : HashMap Str ServerConfigurationEntries).insert "replace".toList
    ⟨[⟨[.string ['a'], .string ['b']], ∅⟩]⟩
  filters := ⟨true, none, none, none, none, none⟩

/-- A response that is not HTML. -/
def plainResponse : Response where
  headers := [("content-type".toList, asciiBytes "text/plain".toList),
    ("content-length".toList, asciiBytes ['1'])]
  body := [.frame (.data (asciiBytes ['a']))]

theorem plainResponse_not_mayReplace : ¬ MayReplace replacingHost plainResponse := by
  rintro ⟨-, hfilter⟩
  rcases hfilter with hall | ⟨contentType, hmem, htype⟩
  · exact absurd hall (by decide)
  · obtain rfl : "text/plain".toList.flatMap String.utf8EncodeChar = contentType :=
      Option.some.inj hmem
    rw [Utf8.fromUtf8Lossy_encode] at htype
    exact absurd htype (by decide)

/-- It is changed all the same, in its data as well as in its headers. -/
theorem plainResponse_replaced :
    ¬ ∀ (finder : Finder) (config : ServerConfiguration) (response : Response),
      ¬ MayReplace config response →
        KeepsHeaders response.headers (replaceModule finder config response).headers ∧
          dataOf (framesOf (replaceModule finder config response).body) =
            dataOf (framesOf response.body) := by
  intro h
  obtain ⟨-, hdata⟩ := h Finder.naive replacingHost plainResponse plainResponse_not_mayReplace
  revert hdata
  decide +kernel

end Ferron.Modules.Replace
