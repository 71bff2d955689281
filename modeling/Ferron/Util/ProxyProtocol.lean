import Ferron.Common.HeaderPlaceholders
import Ferron.Lib.Delimiter
import Ferron.Modules.FcgiDecoder
import Ferron.Rust.Reader

/-!
# The PROXY protocol

`readProxyHeader` reads the header that a proxy sends before the data of the client. A v1 header is a
line, which is read byte by byte. A v2 header tells its length; a long one is read into a vector, which
has the capacity for it but not the length.

Slices and indices out of bounds end a reading with `Failure.panicked`. `readProxyHeader_exact_iff` says
for which streams the reading does not panic and takes exactly the header from the stream.
-/

set_option autoImplicit false

namespace Ferron.Util.ProxyProtocol

open Ferron.Common Ferron.Http Ferron.Lib.Delimiter Ferron.Modules.Fcgi

/-! ## The model -/

/-- How a reading ends without a result. -/
inductive Failure where
  | panicked
  | error (err : IoError)
  deriving DecidableEq

/-- A reading that may fail. -/
abbrev Reading := Except Failure

def v1PrefixLen : Nat := 5
def v1MaxLength : Nat := 107
def v1Terminator : Bytes := [0x0d, 0x0a]
def v2PrefixLen : Nat := 12
def v2MinimumLen : Nat := 16
def v2LengthIndex : Nat := 14
def readBufferLen : Nat := 512

/-- `ppp::v1::PROTOCOL_PREFIX`. -/
def v1ProtocolPrefix : Bytes := asciiBytes "PROXY".toList

/-- `ppp::v2::PROTOCOL_PREFIX`. -/
def v2ProtocolPrefix : Bytes := asciiBytes "\r\n\r\n\x00\r\nQUIT\n".toList

/-- `ppp::v1::Addresses`, the source first. -/
inductive V1Addresses where
  | tcp4 (source destination : SocketAddr)
  | tcp6 (source destination : SocketAddr)
  | unknown

/-- `ppp::v2::Addresses`, the source first. -/
inductive V2Addresses where
  | ipv4 (source destination : SocketAddr)
  | ipv6 (source destination : SocketAddr)
  | unix (display : Str)
  | unspecified

/-- `ppp::HeaderResult`, with the errors dropped. -/
inductive HeaderResult where
  | v1 (addresses : Option V1Addresses)
  | v2 (addresses : Option V2Addresses)

def invalidData (message : String) : Failure := .error ⟨message.toList⟩

/-- The error of `read_exact` at the end of a stream. -/
def unexpectedEof : Failure := .error ⟨"early eof".toList⟩

/-- The error of `read_u8` there. -/
def unexpectedEofU8 : Failure := .error ⟨"unexpected end of file".toList⟩

/-- A part of a slice. -/
def slice (buffer : Bytes) (start stop : Nat) : Reading Bytes :=
  if start ≤ stop ∧ stop ≤ buffer.length then .ok ((buffer.take stop).drop start) else .error .panicked

/-- An element of a slice. -/
def index (buffer : Bytes) (i : Nat) : Reading UInt8 :=
  match buffer[i]? with
  | some byte => .ok byte
  | none => .error .panicked

/-- An element of a slice is set. -/
def setIndex (buffer : Bytes) (i : Nat) (byte : UInt8) : Reading Bytes :=
  if i < buffer.length then .ok (buffer.set i byte) else .error .panicked

/-- `read_exact` into a part of a buffer. -/
def readExactInto (stream : Reader) (buffer : Bytes) (start stop : Nat) : Reading (Reader × Bytes) := do
  let part ← slice buffer start stop
  match stream.readExact part.length with
  | none => throw unexpectedEof
  | some (bytes, stream) => pure (stream, buffer.take start ++ bytes ++ buffer.drop stop)

/-- `read_u8`. -/
def readU8 (stream : Reader) : Reading (Reader × UInt8) :=
  match stream.readExact 1 with
  | some ([byte], stream) => pure (stream, byte)
  | _ => throw unexpectedEofU8

/-- The loop of `read_v1_header`, with the number of the turns that are left. -/
def readV1Loop (stream : Reader) (buffer : Bytes) (i : Nat) : Nat → Reading (Reader × Bytes)
  | 0 => throw (invalidData "No valid Proxy Protocol header detected")
  | left + 1 => do
      let (stream, byte) ← readU8 stream
      let buffer ← setIndex buffer i byte
      let previous ← index buffer (i - 1)
      let current ← index buffer i
      if [previous, current] = v1Terminator then pure (stream, buffer)
      else readV1Loop stream buffer (i + 1) left

/-- `read_v1_header`. -/
def readV1Header (stream : Reader) (buffer : Bytes) : Reading (Reader × Bytes) :=
  readV1Loop stream buffer v1PrefixLen (v1MaxLength - v1PrefixLen)

/-- `read_v2_header`. -/
def readV2Header (stream : Reader) (buffer : Bytes) : Reading (Reader × Bytes × Option Bytes) := do
  let high ← index buffer v2LengthIndex
  let low ← index buffer (v2LengthIndex + 1)
  let fullLength := v2MinimumLen + u16FromBe high low
  if fullLength > readBufferLen then
    let dynamicBuffer ← slice buffer 0 v2MinimumLen
    let (stream, dynamicBuffer) ← readExactInto stream dynamicBuffer v2MinimumLen fullLength
    pure (stream, buffer, some dynamicBuffer)
  else
    let (stream, buffer) ← readExactInto stream buffer v2MinimumLen fullLength
    pure (stream, buffer, none)

/-- The addresses of the client and of the server in a parsed header. -/
def addresses : HeaderResult → Reading (Option SocketAddr × Option SocketAddr)
  | .v1 (some (.tcp4 source destination)) => pure (some source, some destination)
  | .v1 (some (.tcp6 source destination)) => pure (some source, some destination)
  | .v1 (some .unknown) => pure (none, none)
  | .v2 (some (.ipv4 source destination)) => pure (some source, some destination)
  | .v2 (some (.ipv6 source destination)) => pure (some source, some destination)
  | .v2 (some (.unix display)) =>
      throw (.error ⟨"Unix socket addresses are not supported. Addresses: ".toList ++ display⟩)
  | .v2 (some .unspecified) => pure (none, none)
  | .v1 none => throw (invalidData "No valid V1 Proxy Protocol header received")
  | .v2 none => throw (invalidData "No valid V2 Proxy Protocol header received")

section Read

-- `HeaderResult::parse`.
variable (parse : Bytes → HeaderResult)

/-- The header of either version, in the buffer that is to be parsed. -/
def readHeader (stream : Reader) : Reading (Reader × Bytes) := do
  let buffer := List.replicate readBufferLen 0
  let (stream, buffer) ← readExactInto stream buffer 0 v1PrefixLen
  if (← slice buffer 0 v1PrefixLen) = v1ProtocolPrefix then readV1Header stream buffer
  else
    let (stream, buffer) ← readExactInto stream buffer v1PrefixLen v2MinimumLen
    if (← slice buffer 0 v2PrefixLen) = v2ProtocolPrefix then
      let (stream, buffer, dynamicBuffer) ← readV2Header stream buffer
      pure (stream, dynamicBuffer.getD buffer)
    else throw (invalidData "No valid Proxy Protocol header detected")

/-- `read_proxy_header`. -/
def readProxyHeader (stream : Reader) : Reading (Reader × Option SocketAddr × Option SocketAddr) := do
  let (stream, buffer) ← readHeader stream
  let (client, server) ← addresses (parse buffer)
  pure (stream, client, server)

end Read

/-! ## Exact readings -/

/-- A line that starts as a v1 header does, up to its end. -/
def IsV1Line (header : Bytes) : Prop :=
  v1ProtocolPrefix <+: header ∧ FirstEnd {v1Terminator} header header.length

/-- A v2 header with the addresses and the fields behind it that it tells the length of. -/
def IsV2Header (header : Bytes) : Prop :=
  v2ProtocolPrefix <+: header ∧ ∃ high low, header[14]? = some high ∧ header[15]? = some low ∧
    header.length = 16 + u16FromBe high low

/-- The stream starts with a v2 header of more than 496 bytes behind the length. -/
def LongV2 (bytes : Bytes) : Prop :=
  v2ProtocolPrefix <+: bytes ∧ ∃ high low, bytes[14]? = some high ∧ bytes[15]? = some low ∧
    496 < u16FromBe high low

/-- The reading does not panic, and when it succeeds it has taken exactly a header from the stream. -/
structure ReadsExactly {α : Type} (stream : Reader) (reading : Reading (Reader × α)) : Prop where
  not_panicked : reading ≠ .error .panicked
  taken : ∀ rest result, reading = .ok (rest, result) → ∃ header,
    stream.remaining = header ++ rest.remaining ∧ (IsV1Line header ∨ IsV2Header header)

/-! ## Slices -/

theorem slice_eq_ok {buffer : Bytes} {start stop : Nat} (hstart : start ≤ stop)
    (hstop : stop ≤ buffer.length) : slice buffer start stop = .ok ((buffer.take stop).drop start) :=
  if_pos ⟨hstart, hstop⟩

theorem slice_eq_panicked {buffer : Bytes} {start stop : Nat} (hstop : buffer.length < stop) :
    slice buffer start stop = .error .panicked :=
  if_neg fun h => Nat.not_le_of_lt hstop h.2

theorem slice_front {front back : Bytes} {stop : Nat} (hstop : stop ≤ front.length) :
    slice (front ++ back) 0 stop = .ok (front.take stop) := by
  rw [slice_eq_ok (Nat.zero_le _) (by rw [List.length_append]; omega), List.drop_zero,
    List.take_append_of_le_length hstop]

theorem index_front {front back : Bytes} {i : Nat} {byte : UInt8} (h : front[i]? = some byte) :
    index (front ++ back) i = .ok byte := by
  have hlt := (List.getElem?_eq_some_iff.1 h).1
  rw [index, List.getElem?_append_left hlt, h]

/-- A read into the part behind what is filled: the stream ends, or the part is filled with the next
bytes. -/
theorem readExactInto_cases {stream : Reader} {filled rest : Bytes} {stop : Nat}
    (hstart : filled.length ≤ stop) (hstop : stop ≤ (filled ++ rest).length) :
    (readExactInto stream (filled ++ rest) filled.length stop = .error unexpectedEof ∧
        stream.remaining.length < stop - filled.length) ∨
      ∃ bytes stream', readExactInto stream (filled ++ rest) filled.length stop =
          .ok (stream', (filled ++ bytes) ++ (filled ++ rest).drop stop) ∧
        (filled ++ bytes).length = stop ∧ stream.remaining = bytes ++ stream'.remaining := by
  rw [readExactInto, slice_eq_ok hstart hstop]
  dsimp only [Bind.bind, Except.bind]
  rw [List.length_drop, List.length_take, Nat.min_eq_left hstop, List.take_left' rfl]
  cases hread : stream.readExact (stop - filled.length) with
  | none =>
      refine Or.inl ⟨rfl, Nat.lt_of_not_le fun hle => ?_⟩
      obtain ⟨stream', hsome, -⟩ := stream.readExact_eq_some hle
      rw [hread] at hsome
      cases hsome
  | some result =>
      obtain ⟨hlength, hremaining⟩ := Reader.of_readExact hread
      refine Or.inr ⟨result.1, result.2, rfl, ?_, hremaining⟩
      rw [List.length_append]
      omega

/-! ## A v1 header -/

theorem readU8_cases (stream : Reader) : readU8 stream = .error unexpectedEofU8 ∨
    ∃ byte stream', readU8 stream = .ok (stream', byte) ∧
      stream.remaining = [byte] ++ stream'.remaining := by
  rw [readU8]
  cases hread : stream.readExact 1 with
  | none => exact Or.inl rfl
  | some result =>
      obtain ⟨hlength, hremaining⟩ := Reader.of_readExact hread
      obtain ⟨bytes, stream'⟩ := result
      obtain ⟨byte, rfl⟩ := List.length_eq_one_iff.1 hlength
      exact Or.inr ⟨byte, stream', rfl, hremaining⟩

theorem endsWith_terminator_iff {line : Bytes} (previous current : UInt8) :
    EndsWith {v1Terminator} (line ++ [previous, current]) ↔ [previous, current] = v1Terminator := by
  constructor
  · rintro ⟨d, rfl, hsuffix⟩
    exact (List.append_inj' hsuffix.choose_spec rfl).2.symm
  · intro h
    exact ⟨v1Terminator, rfl, line, by rw [h]⟩

/-- A byte goes behind the line, which ends with it or is read on. -/
theorem readV1Loop_succ {stream stream' : Reader} {line rest : Bytes} {last byte padding : UInt8}
    (hbyte : readU8 stream = .ok (stream', byte)) (left : Nat) :
    readV1Loop stream ((line ++ [last]) ++ padding :: rest) (line.length + 1) (left + 1) =
      if [last, byte] = v1Terminator then .ok (stream', (line ++ [last] ++ [byte]) ++ rest)
      else readV1Loop stream' ((line ++ [last] ++ [byte]) ++ rest) (line.length + 1 + 1) left := by
  have hset : setIndex ((line ++ [last]) ++ padding :: rest) (line.length + 1) byte =
      .ok ((line ++ [last] ++ [byte]) ++ rest) := by
    have hlt : line.length + 1 < ((line ++ [last]) ++ padding :: rest).length := by
      rw [List.length_append, List.length_append, List.length_singleton, List.length_cons]
      omega
    rw [setIndex, if_pos hlt, List.set_append_right _ _ (by simp)]
    simp
  have hprevious : index ((line ++ [last] ++ [byte]) ++ rest) (line.length + 1 - 1) = .ok last :=
    index_front (by simp)
  have hcurrent : index ((line ++ [last] ++ [byte]) ++ rest) (line.length + 1) = .ok byte :=
    index_front (by simp)
  rw [readV1Loop, hbyte]
  dsimp only [Bind.bind, Except.bind]
  rw [hset]
  dsimp only
  rw [hprevious]
  dsimp only
  rw [hcurrent]
  rfl

/-- What the loop is to do: it does not panic, and when it succeeds it has taken the rest of the line. -/
structure TakesLine (stream : Reader) (line : Bytes) (reading : Reading (Reader × Bytes)) : Prop where
  not_panicked : reading ≠ .error .panicked
  taken : ∀ stream' buffer, reading = .ok (stream', buffer) →
    ∃ more, stream.remaining = more ++ stream'.remaining ∧
      FirstEnd {v1Terminator} (line ++ more) (line ++ more).length

theorem TakesLine.of_error (stream : Reader) (line : Bytes) (err : IoError) :
    TakesLine stream line (.error (.error err)) := by
  constructor
  · intro h
    cases h
  · intro stream' buffer h
    cases h

theorem readV1Loop_spec (left : Nat) : ∀ (stream : Reader) (line rest : Bytes) (last : UInt8),
    line.length + 1 + left ≤ ((line ++ [last]) ++ rest).length →
    (∀ e ≤ line.length + 1, ¬ EndsWith {v1Terminator} ((line ++ [last]).take e)) →
    TakesLine stream (line ++ [last])
      (readV1Loop stream ((line ++ [last]) ++ rest) (line.length + 1) left) := by
  induction left with
  | zero =>
      intro stream line rest last _ _
      exact .of_error stream _ _
  | succ left ih =>
      intro stream line rest last hlength hnone
      rw [List.length_append, List.length_append, List.length_singleton] at hlength
      obtain ⟨padding, rest, rfl⟩ := List.exists_cons_of_length_pos (l := rest) (by omega)
      rw [List.length_cons] at hlength
      rcases readU8_cases stream with heof | ⟨byte, stream', hbyte, hremaining⟩
      · rw [readV1Loop, heof]
        exact .of_error stream _ _
      · rw [readV1Loop_succ hbyte]
        have htake : ∀ e ≤ line.length + 1,
            ¬ EndsWith {v1Terminator} ((line ++ [last] ++ [byte]).take e) := by
          intro e he
          rw [List.take_append_of_le_length (by simpa using he)]
          exact hnone e he
        by_cases hend : [last, byte] = v1Terminator
        · -- the line ends with this byte, and not before it
          rw [if_pos hend]
          constructor
          · intro h
            cases h
          · intro stream'' buffer h
            obtain ⟨rfl, rfl⟩ := Prod.mk.inj (Except.ok.inj h)
            refine ⟨[byte], hremaining, le_rfl, ?_, ?_⟩
            · rw [List.take_length, List.append_assoc]
              exact (endsWith_terminator_iff last byte).2 hend
            · intro e he
              rw [List.length_append, List.length_append, List.length_singleton] at he
              exact htake e (by simpa [Nat.lt_succ_iff] using he)
        · rw [if_neg hend]
          have hlast : ¬ EndsWith {v1Terminator} (line ++ [last] ++ [byte]) := by
            rw [List.append_assoc]
            exact fun h => hend ((endsWith_terminator_iff last byte).1 h)
          have hnext : ∀ e ≤ (line ++ [last]).length + 1,
              ¬ EndsWith {v1Terminator} ((line ++ [last] ++ [byte]).take e) := by
            intro e he
            rw [List.length_append, List.length_singleton] at he
            rcases Nat.lt_or_eq_of_le he with hlt | heq
            · exact htake e (Nat.le_of_lt_succ hlt)
            · rw [heq, List.take_of_length_le (by simp)]
              exact hlast
          have hline := ih stream' (line ++ [last]) rest byte (by simp; omega) hnext
          rw [List.length_append, List.length_singleton] at hline
          refine ⟨hline.not_panicked, fun stream'' buffer h => ?_⟩
          obtain ⟨more, hmore, hfirst⟩ := hline.taken stream'' buffer h
          refine ⟨[byte] ++ more, by rw [hremaining, hmore, List.append_assoc], ?_⟩
          rw [← List.append_assoc]
          exact hfirst

/-- The reading of a v1 header behind its prefix. -/
theorem readV1Header_spec (stream : Reader) {rest : Bytes}
    (hlength : (v1ProtocolPrefix ++ rest).length = readBufferLen) :
    readV1Header stream (v1ProtocolPrefix ++ rest) ≠ .error .panicked ∧
      ∀ stream' buffer, readV1Header stream (v1ProtocolPrefix ++ rest) = .ok (stream', buffer) →
        ∃ more, stream.remaining = more ++ stream'.remaining ∧ IsV1Line (v1ProtocolPrefix ++ more) := by
  have hnone : ∀ e ≤ 5, ¬ EndsWith {v1Terminator} (v1ProtocolPrefix.take e) := by
    rintro e he ⟨d, rfl, hsuffix⟩
    have hmem : (0x0a : UInt8) ∈ v1ProtocolPrefix :=
      List.mem_of_mem_take (hsuffix.subset (by decide))
    revert hmem
    decide
  have hsplit : v1ProtocolPrefix = asciiBytes "PROX".toList ++ [0x59] := by decide
  have hline := readV1Loop_spec (v1MaxLength - v1PrefixLen) stream
    (asciiBytes "PROX".toList) rest 0x59 (by rw [← hsplit, hlength]; decide)
    (by rw [← hsplit]; exact hnone)
  rw [← hsplit] at hline
  refine ⟨hline.not_panicked, fun stream' buffer h => ?_⟩
  obtain ⟨more, hremaining, hfirst⟩ := hline.taken stream' buffer h
  exact ⟨more, hremaining, List.prefix_append _ _, hfirst⟩

/-! ## A v2 header -/

section V2

variable {stream : Reader} {filled rest : Bytes} {high low : UInt8}
  (hfilled : filled.length = v2MinimumLen) (hlength : (filled ++ rest).length = readBufferLen)
  (hhigh : filled[14]? = some high) (hlow : filled[15]? = some low)

include hfilled hhigh hlow

/-- The vector for a long header is shorter than the part that is to be filled. -/
theorem readV2Header_long (hlong : 496 < u16FromBe high low) :
    readV2Header stream (filled ++ rest) = .error .panicked := by
  have hgt : v2MinimumLen + u16FromBe high low > readBufferLen := by
    change 512 < 16 + _
    omega
  have hpart : slice filled v2MinimumLen (v2MinimumLen + u16FromBe high low) = .error .panicked := by
    apply slice_eq_panicked
    rw [hfilled]
    omega
  rw [readV2Header, show v2LengthIndex = 14 from rfl, index_front hhigh]
  dsimp only [Bind.bind, Except.bind]
  rw [index_front hlow]
  dsimp only
  rw [if_pos hgt, slice_front hfilled.ge, ← hfilled, List.take_length]
  dsimp only
  rw [readExactInto, hfilled, hpart]
  rfl

include hlength in
/-- A short header fits into the buffer. -/
theorem readV2Header_short (hshort : u16FromBe high low ≤ 496) :
    readV2Header stream (filled ++ rest) = .error unexpectedEof ∨
      ∃ more stream' buffer, readV2Header stream (filled ++ rest) = .ok (stream', buffer, none) ∧
        (filled ++ more).length = 16 + u16FromBe high low ∧
          stream.remaining = more ++ stream'.remaining := by
  have hle : ¬ v2MinimumLen + u16FromBe high low > readBufferLen := by
    change ¬ 512 < 16 + _
    omega
  rw [readV2Header, show v2LengthIndex = 14 from rfl, index_front hhigh]
  dsimp only [Bind.bind, Except.bind]
  rw [index_front hlow]
  dsimp only
  rw [if_neg hle]
  have hcases := @readExactInto_cases stream filled rest (v2MinimumLen + u16FromBe high low)
    (by rw [hfilled]; omega) (by rw [hlength]; omega)
  rw [hfilled] at hcases
  rcases hcases with ⟨heof, -⟩ | ⟨more, stream', hread, hmore, hremaining⟩
  · rw [heof]
    exact Or.inl rfl
  · rw [hread]
    exact Or.inr ⟨more, stream', _, rfl, hmore, hremaining⟩

end V2

/-! ## Both versions -/

theorem addresses_ne_panicked (header : HeaderResult) : addresses header ≠ .error .panicked := by
  rcases header with addresses | addresses
  · rcases addresses with _ | addresses
    · intro h
      cases h
    · cases addresses <;> intro h <;> cases h
  · rcases addresses with _ | addresses
    · intro h
      cases h
    · cases addresses <;> intro h <;> cases h

theorem LongV2.length_le {bytes : Bytes} (h : LongV2 bytes) : 16 ≤ bytes.length := by
  obtain ⟨-, high, low, -, hlow, -⟩ := h
  exact (List.getElem?_eq_some_iff.1 hlow).1

theorem prefix_append_iff {front back expected : Bytes} (hle : expected.length ≤ front.length) :
    expected <+: front ++ back ↔ front.take expected.length = expected := by
  rw [List.prefix_iff_eq_take, List.take_append_of_le_length hle]
  exact eq_comm

theorem v1_not_v2 (more : Bytes) : ¬ v2ProtocolPrefix <+: v1ProtocolPrefix ++ more := by
  rintro ⟨rest, h⟩
  have hhead := congrArg List.head? h
  revert hhead
  rw [show v2ProtocolPrefix = 0x0d :: v2ProtocolPrefix.tail from rfl,
    show v1ProtocolPrefix = 0x50 :: v1ProtocolPrefix.tail from rfl, List.cons_append, List.cons_append,
    List.head?_cons, List.head?_cons]
  decide

/-- A reading that ends with an error takes nothing. -/
theorem ReadsExactly.of_error {α : Type} (stream : Reader) (err : IoError) :
    ReadsExactly stream (.error (.error err) : Reading (Reader × α)) := by
  constructor
  · intro h
    cases h
  · intro rest result h
    cases h

theorem length_buffer : (List.replicate readBufferLen (0 : UInt8)).length = readBufferLen :=
  List.length_replicate

/-- What comes behind the first sixteen bytes, when these start a v2 header. -/
theorem readV2Header_cases {stream afterSecond : Reader} {filled rest : Bytes}
    (hfilled : filled.length = v2MinimumLen) (hlength : (filled ++ rest).length = readBufferLen)
    (hall : stream.remaining = filled ++ afterSecond.remaining)
    (hv2 : filled.take v2PrefixLen = v2ProtocolPrefix) :
    let reading : Reading (Reader × Bytes) := do
      let (stream, buffer, dynamicBuffer) ← readV2Header afterSecond (filled ++ rest)
      pure (stream, dynamicBuffer.getD buffer)
    (LongV2 stream.remaining ∧ reading = .error .panicked) ∨
      (¬ LongV2 stream.remaining ∧ ReadsExactly stream reading) := by
  dsimp only [Bind.bind, Except.bind]
  have hsixteen : filled.length = 16 := hfilled
  obtain ⟨high, hhigh⟩ : ∃ high, filled[14]? = some high := ⟨_, List.getElem?_eq_getElem (by omega)⟩
  obtain ⟨low, hlow⟩ : ∃ low, filled[15]? = some low := ⟨_, List.getElem?_eq_getElem (by omega)⟩
  have hhigh' : stream.remaining[14]? = some high := by
    rw [hall, List.getElem?_append_left (by omega), hhigh]
  have hlow' : stream.remaining[15]? = some low := by
    rw [hall, List.getElem?_append_left (by omega), hlow]
  have hstarts : ∀ more, v2ProtocolPrefix <+: filled ++ more := fun more =>
    (prefix_append_iff (by rw [hfilled]; decide)).2 hv2
  by_cases hlong : 496 < u16FromBe high low
  · refine Or.inl ⟨⟨hall ▸ hstarts _, high, low, hhigh', hlow', hlong⟩, ?_⟩
    rw [readV2Header_long hfilled hhigh hlow hlong]
  · refine Or.inr ⟨?_, ?_⟩
    · -- the stream has one length
      rintro ⟨-, high', low', hh, hl, hlong'⟩
      rw [hhigh', Option.some.injEq] at hh
      rw [hlow', Option.some.injEq] at hl
      rw [← hh, ← hl] at hlong'
      exact hlong hlong'
    · rcases @readV2Header_short afterSecond _ _ _ _ hfilled hlength hhigh hlow
        (Nat.le_of_not_lt hlong) with heof | ⟨more, stream', buffer, hread, hmore, hrest⟩
      · rw [heof]
        exact .of_error stream _
      · rw [hread]
        constructor
        · intro h
          cases h
        · intro rest' result h
          obtain ⟨rfl, -⟩ := Prod.mk.inj (Except.ok.inj h)
          refine ⟨filled ++ more, ?_, Or.inr ⟨hstarts more, high, low, ?_, ?_, hmore⟩⟩
          · rw [hall, hrest, List.append_assoc]
          · rw [List.getElem?_append_left (by omega), hhigh]
          · rw [List.getElem?_append_left (by omega), hlow]

/-- What comes behind the first five bytes, when these do not start a v1 header. -/
theorem readV2_cases {stream afterFirst : Reader} {first rest : Bytes} (hfirst : first.length = 5)
    (hlength : (first ++ rest).length = readBufferLen)
    (hremaining : stream.remaining = first ++ afterFirst.remaining) :
    let reading : Reading (Reader × Bytes) := do
      let (stream, buffer) ← readExactInto afterFirst (first ++ rest) v1PrefixLen v2MinimumLen
      if (← slice buffer 0 v2PrefixLen) = v2ProtocolPrefix then
        let (stream, buffer, dynamicBuffer) ← readV2Header stream buffer
        pure (stream, dynamicBuffer.getD buffer)
      else throw (invalidData "No valid Proxy Protocol header detected")
    (LongV2 stream.remaining ∧ reading = .error .panicked) ∨
      (¬ LongV2 stream.remaining ∧ ReadsExactly stream reading) := by
  dsimp only [Bind.bind, Except.bind]
  have hcases := @readExactInto_cases afterFirst first rest v2MinimumLen (by rw [hfirst]; decide)
    (by rw [hlength]; decide)
  rw [hfirst] at hcases
  rw [show v1PrefixLen = 5 from rfl]
  rcases hcases with ⟨heof, hshort⟩ | ⟨second, afterSecond, hread, hfilled, hrest⟩
  · rw [heof]
    refine Or.inr ⟨fun hlong => ?_, .of_error stream _⟩
    have hle := hlong.length_le
    rw [hremaining, List.length_append] at hle
    change afterFirst.remaining.length < 11 at hshort
    omega
  · rw [hread]
    dsimp only
    have hall : stream.remaining = (first ++ second) ++ afterSecond.remaining := by
      rw [hremaining, hrest, List.append_assoc]
    have hbuffer : ((first ++ second) ++ (first ++ rest).drop v2MinimumLen).length = readBufferLen := by
      rw [List.length_append, List.length_drop, hlength, hfilled]
      decide
    rw [slice_front (by rw [hfilled]; decide)]
    dsimp only
    by_cases hv2 : (first ++ second).take v2PrefixLen = v2ProtocolPrefix
    · rw [if_pos hv2]
      exact readV2Header_cases hfilled hbuffer hall hv2
    · rw [if_neg hv2]
      refine Or.inr ⟨fun hlong => hv2 ?_, .of_error stream _⟩
      exact (prefix_append_iff (by rw [hfilled]; decide)).1 (hall ▸ hlong.1)

/-- The header of either version is read exactly, or it is a long one, and the reading panics. -/
theorem readHeader_cases (stream : Reader) :
    (LongV2 stream.remaining ∧ readHeader stream = .error .panicked) ∨
      (¬ LongV2 stream.remaining ∧ ReadsExactly stream (readHeader stream)) := by
  rw [readHeader]
  dsimp only [Bind.bind, Except.bind]
  rcases @readExactInto_cases stream [] (List.replicate readBufferLen 0) v1PrefixLen (Nat.zero_le _)
      (by rw [List.nil_append, length_buffer]; decide) with
    ⟨heof, hshort⟩ | ⟨first, afterFirst, hread, hfirst, hremaining⟩
  · rw [List.length_nil, List.nil_append] at heof
    rw [heof]
    refine Or.inr ⟨fun hlong => ?_, .of_error stream _⟩
    have hle := hlong.length_le
    change stream.remaining.length < 5 at hshort
    omega
  · rw [List.length_nil, List.nil_append, List.nil_append] at hread
    rw [List.nil_append] at hfirst
    have hbuffer : (first ++ (List.replicate readBufferLen 0).drop v1PrefixLen).length =
        readBufferLen := by
      rw [List.length_append, hfirst, List.length_drop, length_buffer]
      decide
    rw [hread]
    dsimp only
    rw [slice_front hfirst.ge, ← hfirst, List.take_length]
    dsimp only
    by_cases hv1 : first = v1ProtocolPrefix
    · rw [if_pos hv1, hv1]
      rw [hv1] at hremaining hbuffer
      obtain ⟨hsafe, htaken⟩ := readV1Header_spec afterFirst hbuffer
      refine Or.inr ⟨fun hlong => v1_not_v2 _ (hremaining ▸ hlong.1), hsafe, fun stream' buffer h => ?_⟩
      obtain ⟨more, hmore, hline⟩ := htaken stream' buffer h
      exact ⟨v1ProtocolPrefix ++ more, by rw [hremaining, hmore, List.append_assoc], Or.inl hline⟩
    · rw [if_neg hv1, hfirst]
      exact readV2_cases hfirst hbuffer hremaining

/-! ## The whole reading -/

/-- Parsing and the choice of the addresses take nothing from the stream. -/
theorem readsExactly_readProxyHeader {parse : Bytes → HeaderResult} {stream : Reader}
    (h : ReadsExactly stream (readHeader stream)) :
    ReadsExactly stream (readProxyHeader parse stream) := by
  obtain ⟨hsafe, htaken⟩ := h
  unfold readProxyHeader
  dsimp only [Bind.bind, Except.bind]
  cases hread : readHeader stream with
  | error failure =>
      refine ⟨fun h => hsafe (hread.trans ?_), fun rest result h => ?_⟩
      · rw [Except.error.inj h]
      · cases h
  | ok result =>
      obtain ⟨stream', buffer⟩ := result
      dsimp only
      cases haddresses : addresses (parse buffer) with
      | error failure =>
          refine ⟨fun h => addresses_ne_panicked (parse buffer) (haddresses.trans ?_),
            fun rest result h => ?_⟩
          · rw [Except.error.inj h]
          · cases h
      | ok pair =>
          refine ⟨fun h => ?_, fun rest result h => ?_⟩
          · cases h
          · obtain ⟨rfl, -⟩ := Prod.mk.inj (Except.ok.inj h)
            exact htaken _ _ hread

theorem readProxyHeader_panicked {parse : Bytes → HeaderResult} {stream : Reader}
    (h : readHeader stream = .error .panicked) : readProxyHeader parse stream = .error .panicked := by
  unfold readProxyHeader
  rw [h]
  rfl

/-- However the stream is cut, the reading is exact and does not panic, unless the stream starts with a
v2 header of more than 496 bytes behind the length. -/
theorem readProxyHeader_exact_iff (parse : Bytes → HeaderResult) (stream : Reader) :
    ReadsExactly stream (readProxyHeader parse stream) ↔ ¬ LongV2 stream.remaining := by
  rcases readHeader_cases stream with ⟨hlong, hpanicked⟩ | ⟨hshort, hexact⟩
  · refine iff_of_false (fun h => ?_) (not_not_intro hlong)
    exact h.not_panicked (readProxyHeader_panicked hpanicked)
  · exact iff_of_true (readsExactly_readProxyHeader hexact) hshort

/-- The start of a v2 header that tells a length of 497 bytes, in one piece. -/
def longHeader : Reader :=
  ⟨[v2ProtocolPrefix ++ [0x21, 0x11, 0x01, 0xf1]], by decide⟩

theorem longHeader_longV2 : LongV2 longHeader.remaining :=
  ⟨⟨[0x21, 0x11, 0x01, 0xf1], rfl⟩, 0x01, 0xf1, rfl, rfl, by decide⟩

/-- Such a start is all that it takes. -/
theorem longHeader_panicked : ¬ ∀ (parse : Bytes → HeaderResult) (stream : Reader),
    ReadsExactly stream (readProxyHeader parse stream) := by
  intro h
  rcases readHeader_cases longHeader with ⟨-, hpanicked⟩ | ⟨hshort, -⟩
  · exact (h (fun _ => .v1 none) longHeader).not_panicked (readProxyHeader_panicked hpanicked)
  · exact hshort longHeader_longV2

end Ferron.Util.ProxyProtocol
