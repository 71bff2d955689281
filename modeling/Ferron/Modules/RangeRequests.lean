import Ferron.Http.Body
import Ferron.Lib.DotSegments
import Ferron.Modules.PathCache
import Ferron.Rust.U64

/-!
# Range requests to the static file module

A request with a range is answered with a part of the file, which is read in chunks from the first to
the last position of the range (`flatten_of_streamRun`). The bounds of a range that is served lie
within the file. The begin of a suffix range is computed as the last position less the length of the
suffix plus one, so a suffix that is as long as the file or longer is no range for the module
(`rangesProper_iff`).
-/

set_option autoImplicit false

namespace Ferron.Modules.RangeRequests

open Ferron.Http
open Ferron.Modules.PathCache (ErrorKind)

/-! ## Files and the streams of their bytes -/

/-- An open file: reading at a position gives some of the bytes from there on, and none only when there
are none. -/
structure OpenFile where
  contents : Bytes
  readAt : Nat → Nat → Except IoError Bytes
  length_lt : contents.length < 2 ^ 64
  reads : ∀ size pos bytes, readAt size pos = .ok bytes → bytes <+: (contents.drop pos).take size ∧
    (bytes = [] → (contents.drop pos).take size = [])

/-- `metadata.len()`. -/
def OpenFile.len (file : OpenFile) : UInt64 := UInt64.ofNat file.contents.length

theorem OpenFile.toNat_len (file : OpenFile) : file.len.toNat = file.contents.length :=
  UInt64.toNat_ofNat_of_lt' file.length_lt

/-- `MAX_BUFFER_SIZE`. -/
def maxBufferSize : Nat := 16384

/-- `MonoioFileStreamNoSpawn`, without the file and the read that is under way. -/
structure FileStream where
  currentPos : UInt64
  endPos : Option UInt64
  finished : Bool
  deriving DecidableEq

namespace FileStream

/-- `new`. -/
def new (start endPos : Option UInt64) : FileStream := ⟨start.getD 0, endPos, false⟩

end FileStream

variable (checks : Bool) (file : OpenFile)

/-- `read_chunk`. -/
def readChunk (pos : UInt64) (endPos : Option UInt64) :
    Except Overflow (Option (Except IoError Bytes)) := do
  let bufferSize ← match endPos with
    | none => pure maxBufferSize
    | some n => (subU64 checks n pos).map fun size => min size.toNat maxBufferSize
  if bufferSize = 0 then pure none
  else
    match file.readAt bufferSize pos.toNat with
    | .ok [] => pure none
    | .ok bytes => pure (some (.ok bytes))
    | .error err => pure (some (.error err))

/-- `poll_next`, with the read awaited. -/
def FileStream.pollNext (stream : FileStream) :
    Except Overflow (Option (Except IoError Bytes) × FileStream) :=
  if stream.finished then .ok (none, stream)
  else do
    match ← readChunk checks file stream.currentPos stream.endPos with
    | some (.ok chunk) =>
        let currentPos ← addU64 checks stream.currentPos (UInt64.ofNat chunk.length)
        let finished := stream.endPos.any fun endPos => endPos ≤ currentPos
        pure (some (.ok chunk), { stream with currentPos := currentPos, finished := finished })
    | some (.error err) => pure (some (.error err), stream)
    | none => pure (none, { stream with finished := true })

/-- The chunks of a stream that is read to its end without an error. -/
inductive StreamRun : FileStream → List Bytes → Prop where
  | done {stream stream' : FileStream} : stream.pollNext checks file = .ok (none, stream') →
      StreamRun stream []
  | chunk {stream stream' : FileStream} {bytes : Bytes} {chunks : List Bytes} :
      stream.pollNext checks file = .ok (some (.ok bytes), stream') → StreamRun stream' chunks →
        StreamRun stream (bytes :: chunks)

/-! ## The range of a request -/

/-- `parse_range_header`. -/
def parseRangeHeader (rangeStr : Str) (defaultEnd : UInt64) :
    Except Overflow (Option (UInt64 × UInt64)) :=
  match rangeStr.dropPrefix? "bytes=".toList with
  | none => .ok none
  | some rangePart =>
      match (rangePart.splitOn '-').take 2 with
      | [first, second] =>
          if first = [] then
            match u64FromStr second with
            | some suffix => do
                let distance ← subU64 checks defaultEnd suffix
                let start ← addU64 checks distance 1
                pure (some (start, defaultEnd))
            | none => .ok none
          else if second = [] then
            .ok ((u64FromStr first).map fun start => (start, defaultEnd))
          else
            match u64FromStr first, u64FromStr second with
            | some start, some last => .ok (some (start, last))
            | _, _ => .ok none
      | _ => .ok none

/-- What the module has found out about a file before it looks at the range: the file, whether it can be
opened, whether the method is `HEAD`, and what the headers of the response are made of. -/
structure FileResponse where
  file : OpenFile
  opened : Except ErrorKind Unit
  head : Bool
  vary : HeaderValue
  etag : Option Str
  contentType : Option Str
  cacheControl : Option Str

/-- The answer to a request with or without a range. The body of a response is the stream of the file,
if there is one. -/
inductive Answer where
  | fullFile
  | status (code : Nat) (headers : HeaderMap)
  | response (code : Nat) (headers : HeaderMap) (body : Option FileStream)
  | error
  deriving DecidableEq

/-- The headers of a response builder, unless one of the values is none. -/
def buildHeaders : List (HeaderName × Option HeaderValue) → Option HeaderMap
  | [] => some []
  | (name, value) :: headers =>
      value.bind fun value => (buildHeaders headers).map ((name, value) :: ·)

/-- The end of a response builder: a bad value is an error. -/
def partialResponse : Option HeaderMap → Option FileStream → Answer
  | some headers, body => .response 206 headers body
  | none, _ => .error

/-- The value of `Content-Length`. -/
def contentLengthValue (n : Nat) : HeaderValue := asciiBytes (Nat.toDigits 10 n)

/-- The value of `Content-Range`. -/
def contentRangeText (first last length : Nat) : Str :=
  "bytes ".toList ++ Nat.toDigits 10 first ++ "-".toList ++ Nat.toDigits 10 last ++ "/".toList ++
    Nat.toDigits 10 length

namespace FileResponse

variable (response : FileResponse)

/-- The headers of a refusal. -/
def varyHeader : HeaderMap := [("vary".toList, response.vary)]

/-- The headers of the response with a part of the file. -/
def partialHeaders (rangeBegin rangeEnd contentLength : UInt64) :
    List (HeaderName × Option HeaderValue) :=
  [("content-length".toList, some (contentLengthValue contentLength.toNat)),
    ("content-range".toList, headerValue
      (contentRangeText rangeBegin.toNat rangeEnd.toNat response.file.contents.length))] ++
    (response.etag.map fun etag =>
      ("etag".toList, headerValue ("W/\"".toList ++ etag ++ "\"".toList))).toList ++
    (response.contentType.map fun contentType =>
      ("content-type".toList, headerValue contentType)).toList ++
    (response.cacheControl.map fun cacheControl =>
      ("cache-control".toList, headerValue cacheControl)).toList ++
    [("vary".toList, some response.vary)]

/-- Builds the partial content response. -/
def partialContent (rangeBegin rangeEnd contentLength : UInt64) : Except Overflow Answer :=
  let builder := buildHeaders (response.partialHeaders rangeBegin rangeEnd contentLength)
  if response.head then .ok (partialResponse builder none)
  else
    match response.opened with
    | .error .notFound => .ok (.status 404 [])
    | .error .notADirectory => .ok (.status 404 [])
    | .error .permissionDenied => .ok (.status 403 [])
    | .error .other => .ok .error
    | .ok () => do
        let endPos ← addU64 checks rangeEnd 1
        pure (partialResponse builder (some (.new (some rangeBegin) (some endPos))))

/-- The part of `request_handler` that handles range requests. -/
def handleRange (range : Option HeaderValue) : Except Overflow Answer :=
  match range with
  | none => .ok .fullFile
  | some value =>
      match toStr value with
      | none => .ok (.status 400 response.varyHeader)
      | some rangeHeader =>
          let fileLength := response.file.len
          if fileLength = 0 then .ok (.status 416 response.varyHeader)
          else do
            let last ← subU64 checks fileLength 1
            match ← parseRangeHeader checks rangeHeader last with
            | none => pure (.status 416 response.varyHeader)
            | some (rangeBegin, rangeEnd) =>
                if last < rangeEnd ∨ last < rangeBegin ∨ rangeEnd < rangeBegin then
                  pure (.status 416 response.varyHeader)
                else
                  let distance ← subU64 checks rangeEnd rangeBegin
                  let contentLength ← addU64 checks distance 1
                  response.partialContent checks rangeBegin rangeEnd contentLength

end FileResponse

/-! ## Reading a stream to its end -/

section Streams

variable {checks file}

/-- What there is to read between two positions. -/
def remaining (file : OpenFile) (pos endPos : UInt64) : Bytes :=
  (file.contents.drop pos.toNat).take (endPos.toNat - pos.toNat)

theorem remaining_of_le {pos endPos : UInt64} (h : endPos ≤ pos) : remaining file pos endPos = [] := by
  rw [remaining, Nat.sub_eq_zero_of_le (UInt64.le_iff_toNat_le.1 h), List.take_zero]

/-- What is left behind a chunk. -/
theorem append_remaining {pos next endPos : UInt64} {bytes : Bytes}
    (hnext : next.toNat = pos.toNat + bytes.length) (hstarts : bytes <+: remaining file pos endPos) :
    bytes ++ remaining file next endPos = remaining file pos endPos := by
  obtain ⟨rest, hrest⟩ := hstarts
  have hdrop : remaining file next endPos = (remaining file pos endPos).drop bytes.length := by
    rw [remaining, remaining, List.drop_take, List.drop_drop, hnext, Nat.sub_sub]
  rw [hdrop, ← hrest, List.drop_left]

/-- What a read between two positions gives: nothing when there is nothing left, or some of the bytes
between them. -/
theorem readChunk_between {pos endPos : UInt64} (hpos : pos.toNat ≤ endPos.toNat) :
    (readChunk checks file pos (some endPos) = .ok none ∧ remaining file pos endPos = []) ∨
      (∃ bytes, readChunk checks file pos (some endPos) = .ok (some (.ok bytes)) ∧ bytes ≠ [] ∧
        bytes <+: remaining file pos endPos) ∨
      ∃ size err, readChunk checks file pos (some endPos) = .ok (some (.error err)) ∧
        file.readAt size pos.toNat = .error err := by
  obtain ⟨size, hsub, hsize⟩ := subU64_of_le checks hpos
  have hread : readChunk checks file pos (some endPos) =
      if min size.toNat maxBufferSize = 0 then .ok none
      else
        match file.readAt (min size.toNat maxBufferSize) pos.toNat with
        | .ok [] => .ok none
        | .ok bytes => .ok (some (.ok bytes))
        | .error err => .ok (some (.error err)) := by
    rw [readChunk]
    dsimp only
    rw [hsub]
    rfl
  rw [hread, remaining, ← hsize]
  by_cases hzero : min size.toNat maxBufferSize = 0
  · have hsize0 : size.toNat = 0 := by
      unfold maxBufferSize at hzero
      omega
    exact .inl ⟨if_pos hzero, by rw [hsize0, List.take_zero]⟩
  rw [if_neg hzero]
  cases hbytes : file.readAt (min size.toNat maxBufferSize) pos.toNat with
  | error err => exact .inr (.inr ⟨_, err, rfl, hbytes⟩)
  | ok bytes =>
      obtain ⟨hstarts, hempty⟩ := file.reads _ _ _ hbytes
      rcases bytes with - | ⟨b, bytes⟩
      · -- there is room in the buffer, so there are no bytes left
        refine .inl ⟨rfl, ?_⟩
        have hnone := hempty rfl
        rw [List.take_eq_nil_iff, or_iff_right hzero] at hnone
        rw [hnone, List.take_nil]
      · refine .inr (.inl ⟨b :: bytes, rfl, List.cons_ne_nil _ _, hstarts.trans ?_⟩)
        exact List.take_prefix_take_left (Nat.min_le_left _ _)

/-- A stream that is to end at this position. -/
structure EndsAt (stream : FileStream) (endPos : UInt64) : Prop where
  endPos_eq : stream.endPos = some endPos
  le : stream.currentPos.toNat ≤ endPos.toNat
  finished : stream.finished = true → endPos ≤ stream.currentPos

/-- Polling a stream gives nothing when nothing is left, or a chunk of what is left and a stream that
ends at the same position, or the error of a read. -/
theorem pollNext_cases {stream : FileStream} {endPos : UInt64} (h : EndsAt stream endPos) :
    (∃ stream', stream.pollNext checks file = .ok (none, stream') ∧
        remaining file stream.currentPos endPos = []) ∨
      (∃ bytes stream', stream.pollNext checks file = .ok (some (.ok bytes), stream') ∧ bytes ≠ [] ∧
        bytes <+: remaining file stream.currentPos endPos ∧ EndsAt stream' endPos ∧
          stream'.currentPos.toNat = stream.currentPos.toNat + bytes.length) ∨
      ∃ size err, stream.pollNext checks file = .ok (some (.error err), stream) ∧
        file.readAt size stream.currentPos.toNat = .error err := by
  obtain ⟨pos, _, finished⟩ := stream
  obtain ⟨rfl, hpos, hfinished⟩ := h
  dsimp only at hpos hfinished ⊢
  cases finished with
  | true => exact .inl ⟨_, rfl, remaining_of_le (hfinished rfl)⟩
  | false =>
      have hpoll : (FileStream.mk pos (some endPos) false).pollNext checks file =
          (do
            match ← readChunk checks file pos (some endPos) with
            | some (.ok chunk) =>
                let currentPos ← addU64 checks pos (UInt64.ofNat chunk.length)
                pure (some (.ok chunk), ⟨currentPos, some endPos, decide (endPos ≤ currentPos)⟩)
            | some (.error err) => pure (some (.error err), ⟨pos, some endPos, false⟩)
            | none => pure (none, ⟨pos, some endPos, true⟩)) := rfl
      rw [hpoll]
      rcases @readChunk_between checks file _ _ hpos with
        ⟨hread, hempty⟩ | ⟨bytes, hread, hne, hstarts⟩ | ⟨size, err, hread, herr⟩
      · rw [hread]
        exact .inl ⟨_, rfl, hempty⟩
      · have hlength : bytes.length ≤ endPos.toNat - pos.toNat :=
          hstarts.length_le.trans (List.length_take_le _ _)
        have hend := endPos.toNat_lt
        have hof : (UInt64.ofNat bytes.length).toNat = bytes.length :=
          UInt64.toNat_ofNat_of_lt' (by change _ < 2 ^ 64; omega)
        obtain ⟨next, hadd, hnext⟩ := addU64_of_lt checks
          (show pos.toNat + (UInt64.ofNat bytes.length).toNat < 2 ^ 64 by omega)
        rw [hread]
        refine .inr (.inl ⟨bytes, ⟨next, some endPos, decide (endPos ≤ next)⟩, ?_, hne, hstarts,
          ⟨rfl, ?_, of_decide_eq_true⟩, by rw [hnext, hof]⟩)
        · change (do let currentPos ← addU64 checks pos (UInt64.ofNat bytes.length); _) = _
          rw [hadd]
          rfl
        · dsimp only
          omega
      · rw [hread]
        exact .inr (.inr ⟨size, err, rfl, herr⟩)

/-- A stream that is read to its end without an error gives the bytes between its positions. -/
theorem flatten_of_streamRun {stream : FileStream} {chunks : List Bytes}
    (h : StreamRun checks file stream chunks) {endPos : UInt64} (hends : EndsAt stream endPos) :
    chunks.flatten = remaining file stream.currentPos endPos := by
  induction h with
  | done hpoll =>
      rcases @pollNext_cases checks file _ _ hends with
        ⟨_, -, hempty⟩ | ⟨_, _, hchunk, -⟩ | ⟨_, _, herror, -⟩
      · rw [hempty, List.flatten_nil]
      · rw [hpoll] at hchunk
        nomatch hchunk
      · rw [hpoll] at herror
        nomatch herror
  | chunk hpoll hrun ih =>
      rcases @pollNext_cases checks file _ _ hends with
        ⟨_, hnone, -⟩ | ⟨bytes, next, hchunk, -, hstarts, hnext, hpos⟩ | ⟨_, _, herror, -⟩
      · rw [hpoll] at hnone
        nomatch hnone
      · rw [hpoll] at hchunk
        cases hchunk
        rw [List.flatten_cons, ih hnext, append_remaining hpos hstarts]
      · rw [hpoll] at herror
        nomatch herror

/-- A stream can be read to its end when no read fails: every chunk takes it further. -/
theorem exists_streamRun (hreads : ∀ size pos err, file.readAt size pos ≠ .error err) {endPos : UInt64}
    {stream : FileStream} (hends : EndsAt stream endPos) :
    ∃ chunks, StreamRun checks file stream chunks := by
  generalize hleft : endPos.toNat - stream.currentPos.toNat = left
  induction left using Nat.strong_induction_on generalizing stream with
  | _ left ih =>
      rcases @pollNext_cases checks file _ _ hends with
        ⟨_, hnone, -⟩ | ⟨bytes, next, hchunk, hne, -, hnext, hpos⟩ | ⟨size, err, -, herror⟩
      · exact ⟨[], .done hnone⟩
      · have hlength := List.length_pos_iff.2 hne
        have hle := hnext.le
        obtain ⟨chunks, hrun⟩ := ih _ (by omega) hnext rfl
        exact ⟨bytes :: chunks, .chunk hchunk hrun⟩
      · exact absurd herror (hreads _ _ _)

end Streams

/-! ## Suffix ranges -/

/-- The text of a suffix range behind its hyphen, up to the next hyphen. -/
def suffixText (rangeStr : Str) : Option Str :=
  (rangeStr.dropPrefix? "bytes=-".toList).map fun rest => rest.takeWhile (· ≠ '-')

/-- The length of a suffix range, however large it is. -/
def suffixLength (value : HeaderValue) : Option Nat :=
  ((toStr value).bind suffixText).bind natFromStr

theorem dropPrefix?_eq_some_iff_append {s p rest : Str} :
    s.dropPrefix? p = some rest ↔ s = p ++ rest := by
  rw [List.dropPrefix?_eq_some_iff]
  constructor
  · rintro ⟨q, rfl, hq⟩
    rw [eq_of_beq hq]
  · rintro rfl
    exact ⟨p, rfl, beq_self_eq_true p⟩

/-- The first part of a text that is cut at hyphens. -/
theorem exists_splitOn (s : Str) : ∃ parts, s.splitOn '-' = s.takeWhile (· ≠ '-') :: parts := by
  have hfront : ∀ c ∈ s.takeWhile (· ≠ '-'), (c == '-') = false := by
    intro c hc
    simpa using List.mem_takeWhile_imp hc
  have hsplit : s.splitOn '-' = ((s.dropWhile (· ≠ '-')).splitOnP (· == '-')).modifyHead
      (s.takeWhile (· ≠ '-') ++ ·) := by
    rw [← Lib.DotSegments.splitOnP_append hfront, List.takeWhile_append_dropWhile]
    rfl
  rw [hsplit]
  rcases hrest : s.dropWhile (· ≠ '-') with - | ⟨c, rest⟩
  · exact ⟨[], by simp⟩
  · have hc : (c == '-') = true := by
      have hnot := List.head?_dropWhile_not (· ≠ '-') s
      rw [hrest] at hnot
      simpa using hnot
    rw [List.splitOnP_cons_eq_if_modifyHead, if_pos hc]
    exact ⟨rest.splitOnP (· == '-'), by simp⟩

/-- A suffix range starts at the last position less its length plus one. -/
theorem parseRangeHeader_suffix {rangeStr text : Str} (h : suffixText rangeStr = some text)
    (defaultEnd : UInt64) :
    parseRangeHeader checks rangeStr defaultEnd =
      match u64FromStr text with
      | some suffix => do
          let distance ← subU64 checks defaultEnd suffix
          let start ← addU64 checks distance 1
          pure (some (start, defaultEnd))
      | none => .ok none := by
  obtain ⟨rest, hrest, rfl⟩ := Option.map_eq_some_iff.1 h
  have hdrop : rangeStr.dropPrefix? "bytes=".toList = some ('-' :: rest) := by
    rw [dropPrefix?_eq_some_iff_append] at hrest ⊢
    exact hrest
  obtain ⟨parts, hparts⟩ := exists_splitOn rest
  have hsplit : ('-' :: rest).splitOn '-' = [] :: rest.splitOn '-' := by
    rw [List.splitOn, List.splitOnP_cons_eq_if_modifyHead, if_pos (by decide)]
    rfl
  rw [parseRangeHeader, hdrop]
  dsimp only
  rw [hsplit, hparts]
  rfl

/-- No other range is computed with. -/
theorem parseRangeHeader_of_none {rangeStr : Str} (h : suffixText rangeStr = none)
    (defaultEnd : UInt64) : ∃ range, ∀ checks, parseRangeHeader checks rangeStr defaultEnd = .ok range := by
  cases hpart : rangeStr.dropPrefix? "bytes=".toList with
  | none => exact ⟨none, fun checks => by rw [parseRangeHeader, hpart]⟩
  | some rangePart =>
      -- the text does not begin with a hyphen, so the first part is not empty unless it is the only one
      have hfirst : ∀ first second, (rangePart.splitOn '-').take 2 = [first, second] → first ≠ [] := by
        rintro first second hparts rfl
        rcases rangePart with - | ⟨c, rest⟩
        · nomatch hparts
        obtain ⟨parts, hsplit⟩ := exists_splitOn (c :: rest)
        rw [hsplit, List.take_succ_cons, List.cons.injEq, List.takeWhile_cons] at hparts
        have hc : c = '-' := by
          by_contra hne
          rw [if_pos (by simpa using hne)] at hparts
          exact List.cons_ne_nil _ _ hparts.1
        rw [hc, dropPrefix?_eq_some_iff_append] at hpart
        rw [suffixText, Option.map_eq_none_iff] at h
        have hrest : rangeStr.dropPrefix? "bytes=-".toList = some rest :=
          dropPrefix?_eq_some_iff_append.2 hpart
        rw [h] at hrest
        nomatch hrest
      rw [show (∃ range, ∀ checks, parseRangeHeader checks rangeStr defaultEnd = .ok range) ↔ _ from
        exists_congr fun range => forall_congr' fun checks => by rw [parseRangeHeader, hpart]]
      dsimp only
      split
      · rename_i first second hparts
        simp only [if_neg (hfirst first second hparts)]
        split
        · exact ⟨_, fun _ => rfl⟩
        · split <;> exact ⟨_, fun _ => rfl⟩
      · exact ⟨none, fun _ => rfl⟩

/-! ## What a range is answered with -/

/-- The headers that are built have their values under their names. -/
theorem buildHeaders_cons {name : HeaderName} {value : Option HeaderValue}
    {builder : List (HeaderName × Option HeaderValue)} {headers : HeaderMap}
    (h : buildHeaders ((name, value) :: builder) = some headers) :
    ∃ text rest, value = some text ∧ buildHeaders builder = some rest ∧
      headers = (name, text) :: rest := by
  obtain ⟨text, hvalue, h⟩ := Option.bind_eq_some_iff.1 h
  obtain ⟨rest, hrest, rfl⟩ := Option.map_eq_some_iff.1 h
  exact ⟨text, rest, hvalue, hrest, rfl⟩

theorem getAll_buildHeaders_eq_nil {builder : List (HeaderName × Option HeaderValue)}
    {headers : HeaderMap} (h : buildHeaders builder = some headers) {name : HeaderName}
    (hname : ∀ header ∈ builder, header.1 ≠ name) : headers.getAll name = [] := by
  induction builder generalizing headers with
  | nil =>
      rw [← Option.some.inj h]
      rfl
  | cons header builder ih =>
      obtain ⟨text, rest, -, hrest, rfl⟩ := buildHeaders_cons h
      rw [HeaderMap.getAll_cons, if_neg (hname _ List.mem_cons_self)]
      exact ih hrest fun other hother => hname other (List.mem_cons_of_mem _ hother)

theorem headerValue_eq_some {text : Str} {value : HeaderValue} (h : headerValue text = some value) :
    value = text.flatMap String.utf8EncodeChar := by
  rw [headerValue] at h
  split at h
  · exact (Option.some.inj h).symm
  · exact absurd h (Option.some_ne_none value).symm

/-- A response with the part of a file between two positions: its headers name them, and its body, unless
the method is `HEAD`, is a stream of the bytes between them, which comes to its end when no read fails. -/
structure PartOf (response : FileResponse) (checks : Bool) (headers : HeaderMap)
    (body : Option FileStream) (first last : Nat) : Prop where
  first_le : first ≤ last
  last_lt : last < response.file.contents.length
  contentLength : headers.getAll "content-length".toList = [contentLengthValue (last - first + 1)]
  contentRange : headers.getAll "content-range".toList =
    [(contentRangeText first last response.file.contents.length).flatMap String.utf8EncodeChar]
  body_isSome : body.isSome = !response.head
  data : ∀ stream ∈ body, ∀ chunks, StreamRun checks response.file stream chunks →
    chunks.flatten = (response.file.contents.drop first).take (last - first + 1)
  complete : (∀ size pos err, response.file.readAt size pos ≠ .error err) →
    ∀ stream ∈ body, ∃ chunks, StreamRun checks response.file stream chunks

namespace FileResponse

variable {response : FileResponse} {checks : Bool}

/-- The headers of a part name its length and its bounds. -/
theorem getAll_partialHeaders {rangeBegin rangeEnd contentLength : UInt64} {headers : HeaderMap}
    (h : buildHeaders (response.partialHeaders rangeBegin rangeEnd contentLength) = some headers) :
    headers.getAll "content-length".toList = [contentLengthValue contentLength.toNat] ∧
      headers.getAll "content-range".toList = [(contentRangeText rangeBegin.toNat rangeEnd.toNat
        response.file.contents.length).flatMap String.utf8EncodeChar] := by
  rw [partialHeaders, List.append_assoc, List.append_assoc, List.append_assoc, List.cons_append,
    List.cons_append, List.nil_append] at h
  obtain ⟨length, _, hlength, hbehind, rfl⟩ := buildHeaders_cons h
  obtain ⟨range, rest, hrange, hrest, rfl⟩ := buildHeaders_cons hbehind
  have hothers : ∀ name, name ≠ "etag".toList → name ≠ "content-type".toList →
      name ≠ "cache-control".toList → name ≠ "vary".toList → rest.getAll name = [] := by
    intro name hetag htype hcache hvary
    apply getAll_buildHeaders_eq_nil hrest
    intro header hheader
    simp only [List.mem_append, Option.mem_toList, Option.map_eq_some_iff, List.mem_singleton]
      at hheader
    rcases hheader with ⟨_, -, rfl⟩ | ⟨_, -, rfl⟩ | ⟨_, -, rfl⟩ | rfl
    · exact hetag.symm
    · exact htype.symm
    · exact hcache.symm
    · exact hvary.symm
  constructor
  · rw [HeaderMap.getAll_cons, if_pos rfl, HeaderMap.getAll_cons, if_neg (by decide),
      hothers _ (by decide) (by decide) (by decide) (by decide), Option.some.inj hlength]
  · rw [HeaderMap.getAll_cons, if_neg (by decide), HeaderMap.getAll_cons, if_pos rfl,
      hothers _ (by decide) (by decide) (by decide) (by decide), headerValue_eq_some hrange]

/-- Building the response with a part overflows nowhere. -/
theorem partialContent_ne_error {rangeBegin rangeEnd contentLength : UInt64}
    (hend : rangeEnd.toNat < response.file.contents.length) (panic : Overflow) :
    response.partialContent checks rangeBegin rangeEnd contentLength ≠ .error panic := by
  have hlength := response.file.length_lt
  obtain ⟨endPos, hadd, -⟩ := addU64_of_lt checks
    (show rangeEnd.toNat + (1 : UInt64).toNat < 2 ^ 64 by change rangeEnd.toNat + 1 < 2 ^ 64; omega)
  rw [partialContent]
  split
  · exact fun h => nomatch h
  · split
    · exact fun h => nomatch h
    · exact fun h => nomatch h
    · exact fun h => nomatch h
    · exact fun h => nomatch h
    · rw [hadd]
      exact fun h => nomatch h

/-- A part that is to be served is not refused as a range. -/
theorem partialContent_ne_refused {rangeBegin rangeEnd contentLength : UInt64} (headers : HeaderMap) :
    response.partialContent checks rangeBegin rangeEnd contentLength ≠ .ok (.status 416 headers) := by
  have hbuild : ∀ builder body, partialResponse builder body ≠ .status 416 headers := by
    intro builder body
    cases builder <;> exact fun h => nomatch h
  rw [partialContent]
  split
  · exact fun h => hbuild _ _ (Except.ok.inj h)
  · split
    · exact fun h => nomatch h
    · exact fun h => nomatch h
    · exact fun h => nomatch h
    · exact fun h => nomatch h
    · cases addU64 checks rangeEnd 1 with
      | error panic => exact fun h => nomatch h
      | ok endPos => exact fun h => hbuild _ _ (Except.ok.inj h)

/-- A response with a part is one of the positions it was built for. -/
theorem partOf_partialContent {rangeBegin rangeEnd contentLength : UInt64}
    (hbegin : rangeBegin.toNat ≤ rangeEnd.toNat)
    (hend : rangeEnd.toNat < response.file.contents.length)
    (hlength : contentLength.toNat = rangeEnd.toNat - rangeBegin.toNat + 1) {code : Nat}
    {headers : HeaderMap} {body : Option FileStream}
    (h : response.partialContent checks rangeBegin rangeEnd contentLength =
      .ok (.response code headers body)) :
    code = 206 ∧ PartOf response checks headers body rangeBegin.toNat rangeEnd.toNat := by
  have hbound := response.file.length_lt
  obtain ⟨endPos, hadd, hendPos⟩ := addU64_of_lt checks
    (show rangeEnd.toNat + (1 : UInt64).toNat < 2 ^ 64 by change rangeEnd.toNat + 1 < 2 ^ 64; omega)
  have hendPos : endPos.toNat = rangeEnd.toNat + 1 := hendPos
  -- a body that is built has the headers that name the positions
  have hbuild : ∀ body', partialResponse (buildHeaders (response.partialHeaders rangeBegin rangeEnd
      contentLength)) body' = .response code headers body → code = 206 ∧ body' = body ∧
        headers.getAll "content-length".toList =
          [contentLengthValue (rangeEnd.toNat - rangeBegin.toNat + 1)] ∧
        headers.getAll "content-range".toList = [(contentRangeText rangeBegin.toNat rangeEnd.toNat
          response.file.contents.length).flatMap String.utf8EncodeChar] := by
    intro body' hresponse
    cases hbuilt : buildHeaders (response.partialHeaders rangeBegin rangeEnd contentLength) with
    | none =>
        rw [hbuilt] at hresponse
        nomatch hresponse
    | some built =>
        rw [hbuilt] at hresponse
        cases hresponse
        rw [← hlength]
        exact ⟨rfl, rfl, getAll_partialHeaders hbuilt⟩
  rw [partialContent] at h
  split at h
  · rename_i hhead
    obtain ⟨rfl, rfl, hcontentLength, hcontentRange⟩ := hbuild none (Except.ok.inj h)
    exact ⟨rfl, hbegin, hend, hcontentLength, hcontentRange, by rw [hhead]; rfl,
      fun stream hstream => (nomatch hstream), fun _ stream hstream => (nomatch hstream)⟩
  · rename_i hhead
    split at h
    · nomatch h
    · nomatch h
    · nomatch h
    · nomatch h
    · rw [hadd] at h
      obtain ⟨rfl, rfl, hcontentLength, hcontentRange⟩ := hbuild _ (Except.ok.inj h)
      have hends : EndsAt (.new (some rangeBegin) (some endPos)) endPos :=
        ⟨rfl, by change rangeBegin.toNat ≤ endPos.toNat; omega, fun hfin => (nomatch hfin)⟩
      refine ⟨rfl, hbegin, hend, hcontentLength, hcontentRange, ?_, ?_, ?_⟩
      · rw [Bool.eq_false_iff.2 hhead]
        rfl
      · intro stream hstream chunks hrun
        rw [← Option.some.inj hstream] at hrun
        rw [flatten_of_streamRun hrun hends, remaining, hendPos]
        change List.take (rangeEnd.toNat + 1 - rangeBegin.toNat) _ = _
        rw [Nat.sub_add_comm hbegin]
        rfl
      · intro hreads stream hstream
        rw [← Option.some.inj hstream]
        exact exists_streamRun hreads hends

/-! ## Every range of every file -/

/-- The last position of a file that is not empty. -/
def lastPosition (response : FileResponse) : UInt64 := response.file.len - 1

theorem toNat_lastPosition (hne : response.file.contents ≠ []) :
    response.lastPosition.toNat = response.file.contents.length - 1 := by
  have hpos := List.length_pos_iff.2 hne
  rw [lastPosition, UInt64.toNat_sub_of_le, response.file.toNat_len]
  · rfl
  · rw [UInt64.le_iff_toNat_le, response.file.toNat_len]
    exact hpos

/-- A file that is not empty is answered from what its range is read as. -/
theorem handleRange_eq (checks : Bool) (hne : response.file.contents ≠ []) {value : HeaderValue}
    {text : Str} (hvalue : toStr value = some text) :
    response.handleRange checks (some value) = (do
      match ← parseRangeHeader checks text response.lastPosition with
      | none => pure (.status 416 response.varyHeader)
      | some (rangeBegin, rangeEnd) =>
          if response.lastPosition < rangeEnd ∨ response.lastPosition < rangeBegin ∨
              rangeEnd < rangeBegin then
            pure (.status 416 response.varyHeader)
          else
            let distance ← subU64 checks rangeEnd rangeBegin
            let contentLength ← addU64 checks distance 1
            response.partialContent checks rangeBegin rangeEnd contentLength) := by
  have hpos := List.length_pos_iff.2 hne
  have hlen : response.file.len ≠ 0 := by
    intro hzero
    have hnat := response.file.toNat_len
    rw [hzero] at hnat
    change 0 = _ at hnat
    omega
  have hsub : subU64 checks response.file.len 1 = .ok response.lastPosition := by
    rw [subU64, if_neg, lastPosition]
    rw [Bool.and_eq_true, not_and, decide_eq_true_eq, UInt64.lt_iff_toNat_lt,
      response.file.toNat_len]
    exact fun _ => Nat.not_lt.2 hpos
  rw [handleRange, hvalue]
  dsimp only
  rw [if_neg hlen, hsub]
  rfl

/-- A range within the file is answered with this part of it. -/
theorem handleRange_of_within (hne : response.file.contents ≠ []) {value : HeaderValue} {text : Str}
    (hvalue : toStr value = some text) {rangeBegin rangeEnd : UInt64}
    (hparse : parseRangeHeader checks text response.lastPosition = .ok (some (rangeBegin, rangeEnd)))
    (hbegin : rangeBegin.toNat ≤ rangeEnd.toNat)
    (hend : rangeEnd.toNat < response.file.contents.length) :
    ∃ contentLength, contentLength.toNat = rangeEnd.toNat - rangeBegin.toNat + 1 ∧
      response.handleRange checks (some value) =
        response.partialContent checks rangeBegin rangeEnd contentLength := by
  have hbound := response.file.length_lt
  obtain ⟨distance, hsub, hdistance⟩ := subU64_of_le checks hbegin
  obtain ⟨contentLength, hadd, hlength⟩ := addU64_of_lt checks
    (show distance.toNat + (1 : UInt64).toNat < 2 ^ 64 by change distance.toNat + 1 < 2 ^ 64; omega)
  refine ⟨contentLength, by rw [hlength, hdistance]; rfl, ?_⟩
  have hinside : ¬ (response.lastPosition < rangeEnd ∨ response.lastPosition < rangeBegin ∨
      rangeEnd < rangeBegin) := by
    rw [UInt64.lt_iff_toNat_lt, UInt64.lt_iff_toNat_lt, UInt64.lt_iff_toNat_lt,
      toNat_lastPosition hne]
    omega
  rw [handleRange_eq checks hne hvalue, hparse]
  change (if _ then _ else _) = _
  rw [if_neg hinside, hsub]
  change (do let contentLength ← addU64 checks distance 1; _) = _
  rw [hadd]
  rfl

/-- Any other range is refused. -/
theorem handleRange_of_outside (hne : response.file.contents ≠ []) {value : HeaderValue} {text : Str}
    (hvalue : toStr value = some text) {range : Option (UInt64 × UInt64)}
    (hparse : parseRangeHeader checks text response.lastPosition = .ok range)
    (houtside : ∀ rangeBegin rangeEnd, range = some (rangeBegin, rangeEnd) →
      ¬ (rangeBegin.toNat ≤ rangeEnd.toNat ∧ rangeEnd.toNat < response.file.contents.length)) :
    response.handleRange checks (some value) = .ok (.status 416 response.varyHeader) := by
  have hpos := List.length_pos_iff.2 hne
  rw [handleRange_eq checks hne hvalue, hparse]
  rcases range with - | ⟨rangeBegin, rangeEnd⟩
  · rfl
  · change (if _ then _ else _) = _
    rw [if_pos]
    · rfl
    · have hnot := houtside _ _ rfl
      rw [UInt64.lt_iff_toNat_lt, UInt64.lt_iff_toNat_lt, UInt64.lt_iff_toNat_lt,
        toNat_lastPosition hne]
      omega

end FileResponse

/-- A range is handled as it should be: its computation overflows nowhere, a response with status 206 is
a part of the file with its bounds in the headers, and a suffix range is answered with as many of the
last bytes as it asks for, or with all of them. -/
structure RangesProper (response : FileResponse) (value : HeaderValue) : Prop where
  no_overflow : ∀ panic, response.handleRange true (some value) ≠ .error panic
  within : ∀ checks headers body,
    response.handleRange checks (some value) = .ok (.response 206 headers body) →
      ∃ first last, PartOf response checks headers body first last
  suffix : ∀ checks n, suffixLength value = some n → 1 ≤ n →
    ∃ rangeBegin rangeEnd contentLength : UInt64,
      response.handleRange checks (some value) =
          response.partialContent checks rangeBegin rangeEnd contentLength ∧
        rangeBegin.toNat = response.file.contents.length - min n response.file.contents.length ∧
        rangeEnd.toNat = response.file.contents.length - 1 ∧
        contentLength.toNat = min n response.file.contents.length

section Proper

variable {response : FileResponse} {value : HeaderValue}

/-- Whatever is answered with status 206 is a part of the file. -/
theorem exists_partOf {checks : Bool} (hne : response.file.contents ≠ []) {headers : HeaderMap}
    {body : Option FileStream}
    (h : response.handleRange checks (some value) = .ok (.response 206 headers body)) :
    ∃ first last, PartOf response checks headers body first last := by
  cases hvalue : toStr value with
  | none =>
      rw [FileResponse.handleRange, hvalue] at h
      nomatch h
  | some text =>
      cases hparse : parseRangeHeader checks text response.lastPosition with
      | error panic =>
          rw [FileResponse.handleRange_eq checks hne hvalue, hparse] at h
          nomatch h
      | ok range =>
          by_cases hinside : ∃ rangeBegin rangeEnd : UInt64, range = some (rangeBegin, rangeEnd) ∧
              rangeBegin.toNat ≤ rangeEnd.toNat ∧ rangeEnd.toNat < response.file.contents.length
          · obtain ⟨rangeBegin, rangeEnd, rfl, hbegin, hend⟩ := hinside
            obtain ⟨contentLength, hlength, hanswer⟩ :=
              FileResponse.handleRange_of_within hne hvalue hparse hbegin hend
            rw [hanswer] at h
            exact ⟨_, _, (FileResponse.partOf_partialContent hbegin hend hlength h).2⟩
          · rw [FileResponse.handleRange_of_outside hne hvalue hparse fun rangeBegin rangeEnd hrange hin =>
              hinside ⟨rangeBegin, rangeEnd, hrange, hin⟩] at h
            nomatch h

theorem handleRange_ne_error_of_parse {checks : Bool} (hne : response.file.contents ≠ []) {text : Str}
    (hvalue : toStr value = some text) {range : Option (UInt64 × UInt64)}
    (hparse : parseRangeHeader checks text response.lastPosition = .ok range) (panic : Overflow) :
    response.handleRange checks (some value) ≠ .error panic := by
  by_cases hinside : ∃ rangeBegin rangeEnd : UInt64, range = some (rangeBegin, rangeEnd) ∧
      rangeBegin.toNat ≤ rangeEnd.toNat ∧ rangeEnd.toNat < response.file.contents.length
  · obtain ⟨rangeBegin, rangeEnd, rfl, hbegin, hend⟩ := hinside
    obtain ⟨contentLength, -, hanswer⟩ :=
      FileResponse.handleRange_of_within hne hvalue hparse hbegin hend
    rw [hanswer]
    exact FileResponse.partialContent_ne_error hend panic
  · rw [FileResponse.handleRange_of_outside hne hvalue hparse fun rangeBegin rangeEnd hrange hin =>
      hinside ⟨rangeBegin, rangeEnd, hrange, hin⟩]
    exact fun h => nomatch h

/-- A suffix range that is shorter than the file is read as its last bytes. -/
theorem parseRangeHeader_of_lt (checks : Bool) (hne : response.file.contents ≠ []) {text : Str}
    {suffix : Str} (hsuffix : suffixText text = some suffix) {n : Nat}
    (hn : natFromStr suffix = some n) (hlt : n < response.file.contents.length) :
    ∃ rangeBegin : UInt64, rangeBegin.toNat = response.file.contents.length - n ∧
      parseRangeHeader checks text response.lastPosition =
        .ok (some (rangeBegin, response.lastPosition)) := by
  have hbound := response.file.length_lt
  have hlast := FileResponse.toNat_lastPosition hne
  have hof : (UInt64.ofNat n).toNat = n := UInt64.toNat_ofNat_of_lt' (by change _ < 2 ^ 64; omega)
  have hread : u64FromStr suffix = some (UInt64.ofNat n) := by
    rw [u64FromStr_eq_some_iff, hn, hof]
  obtain ⟨distance, hsub, hdistance⟩ := subU64_of_le checks
    (show (UInt64.ofNat n).toNat ≤ response.lastPosition.toNat by omega)
  obtain ⟨rangeBegin, hadd, hbegin⟩ := addU64_of_lt checks
    (show distance.toNat + (1 : UInt64).toNat < 2 ^ 64 by change distance.toNat + 1 < 2 ^ 64; omega)
  have hbegin : rangeBegin.toNat = distance.toNat + 1 := hbegin
  refine ⟨rangeBegin, by omega, ?_⟩
  rw [parseRangeHeader_suffix checks hsuffix, hread]
  dsimp only
  rw [hsub]
  change (do let start ← addU64 checks distance 1; _) = _
  rw [hadd]
  rfl

/-- A suffix range as long as the file or longer overflows in a build with checks, or its length is no
number for the module and it is refused. -/
theorem parseRangeHeader_of_le (hne : response.file.contents ≠ []) {text : Str} {suffix : Str}
    (hsuffix : suffixText text = some suffix) {n : Nat} (hn : natFromStr suffix = some n)
    (hle : response.file.contents.length ≤ n) :
    parseRangeHeader true text response.lastPosition = .error .sub ∨
      parseRangeHeader true text response.lastPosition = .ok none := by
  have hpos := List.length_pos_iff.2 hne
  have hlast := FileResponse.toNat_lastPosition hne
  rw [parseRangeHeader_suffix true hsuffix]
  cases hread : u64FromStr suffix with
  | none => exact .inr rfl
  | some length =>
      left
      rw [u64FromStr_eq_some_iff, hn, Option.some_inj] at hread
      dsimp only
      rw [subU64_of_lt (by omega)]
      rfl

/-- Every range of a file that is not empty is handled as it should be, unless it is a suffix range as
long as the file or longer. -/
theorem rangesProper_iff (response : FileResponse) (hne : response.file.contents ≠ [])
    (value : HeaderValue) :
    RangesProper response value ↔
      ∀ n, suffixLength value = some n → n < response.file.contents.length := by
  constructor
  · intro h n hn
    by_contra hle
    have hle := Nat.le_of_not_lt hle
    have hpos := List.length_pos_iff.2 hne
    obtain ⟨suffix, hsuffix, hnat⟩ := Option.bind_eq_some_iff.1 hn
    obtain ⟨text, hvalue, hsuffix⟩ := Option.bind_eq_some_iff.1 hsuffix
    -- with overflow checks the subtraction panics, and without them the range starts behind the end
    rcases parseRangeHeader_of_le hne hsuffix hnat hle with hparse | hparse
    · apply h.no_overflow .sub
      rw [FileResponse.handleRange_eq true hne hvalue, hparse]
      rfl
    · obtain ⟨rangeBegin, rangeEnd, contentLength, hanswer, -⟩ := h.suffix true n hn (by omega)
      rw [FileResponse.handleRange_of_outside hne hvalue hparse fun _ _ h => (nomatch h)] at hanswer
      exact FileResponse.partialContent_ne_refused _ hanswer.symm
  · intro h
    refine ⟨?_, fun checks headers body => exists_partOf hne, ?_⟩
    · intro panic
      cases hvalue : toStr value with
      | none =>
          rw [FileResponse.handleRange, hvalue]
          exact fun h => nomatch h
      | some text =>
          cases hsuffix : suffixText text with
          | none =>
              obtain ⟨range, hrange⟩ := parseRangeHeader_of_none hsuffix response.lastPosition
              exact handleRange_ne_error_of_parse hne hvalue (hrange true) panic
          | some suffix =>
              -- a suffix that is no number is refused, and one that is has been bounded
              cases hnat : natFromStr suffix with
              | none =>
                  have hread : u64FromStr suffix = none := by
                    rw [u64FromStr_eq_none_iff, hnat]
                    exact fun _ h => nomatch h
                  apply handleRange_ne_error_of_parse hne hvalue
                  rw [parseRangeHeader_suffix true hsuffix, hread]
              | some n =>
                  have hlength : suffixLength value = some n := by
                    rw [suffixLength, hvalue, Option.bind_some, hsuffix, Option.bind_some, hnat]
                  obtain ⟨_, -, hparse⟩ := parseRangeHeader_of_lt true hne hsuffix hnat (h n hlength)
                  exact handleRange_ne_error_of_parse hne hvalue hparse panic
    · intro checks n hn hone
      have hlt := h n hn
      obtain ⟨suffix, hsuffix, hnat⟩ := Option.bind_eq_some_iff.1 hn
      obtain ⟨text, hvalue, hsuffix⟩ := Option.bind_eq_some_iff.1 hsuffix
      obtain ⟨rangeBegin, hbegin, hparse⟩ := parseRangeHeader_of_lt checks hne hsuffix hnat hlt
      have hlast := FileResponse.toNat_lastPosition hne
      obtain ⟨contentLength, hlength, hanswer⟩ :=
        FileResponse.handleRange_of_within hne hvalue hparse (by omega) (by omega)
      rw [Nat.min_eq_left hlt.le]
      exact ⟨rangeBegin, response.lastPosition, contentLength, hanswer, hbegin, hlast, by omega⟩

end Proper

/-! ## A file of three bytes -/

/-- A file that is read without errors and as far as the buffer goes. -/
def OpenFile.ofContents (contents : Bytes) (h : contents.length < 2 ^ 64) : OpenFile where
  contents := contents
  readAt size pos := .ok ((contents.drop pos).take size)
  length_lt := h
  reads := by
    intro size pos bytes hread
    rw [← Except.ok.inj hread]
    exact ⟨List.prefix_rfl, id⟩

theorem abc_length_lt : ([0x61, 0x62, 0x63] : Bytes).length < 2 ^ 64 := by decide

/-- The response for a file with the bytes `abc`. -/
def abcResponse : FileResponse where
  file := .ofContents [0x61, 0x62, 0x63] abc_length_lt
  opened := .ok ()
  head := false
  vary := asciiBytes "Range".toList
  etag := none
  contentType := none
  cacheControl := none

/-- The last two of three bytes are a range that is handled as it should be. -/
theorem rangesProper_lastTwo : RangesProper abcResponse (asciiBytes "bytes=-2".toList) :=
  (rangesProper_iff abcResponse (List.cons_ne_nil _ _) _).2 (by
    have hlength : suffixLength (asciiBytes "bytes=-2".toList) = some 2 := by decide
    intro n hn
    rw [hlength, Option.some_inj] at hn
    rw [← hn]
    decide)

/-- The last five of three bytes are all of them, but the range overflows, and where overflow is not
checked it is refused. -/
theorem not_rangesProper_lastFive :
    abcResponse.handleRange true (some (asciiBytes "bytes=-5".toList)) = .error .sub ∧
      abcResponse.handleRange false (some (asciiBytes "bytes=-5".toList)) =
        .ok (.status 416 abcResponse.varyHeader) ∧
      ¬ RangesProper abcResponse (asciiBytes "bytes=-5".toList) := by
  have hoverflow : abcResponse.handleRange true (some (asciiBytes "bytes=-5".toList)) =
      .error .sub := by decide +kernel
  refine ⟨hoverflow, by decide +kernel, fun h => h.no_overflow .sub hoverflow⟩

end Ferron.Modules.RangeRequests
