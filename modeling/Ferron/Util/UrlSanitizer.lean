import Ferron.Rust.Utf8String
import Mathlib.Data.List.DropRight

/-!
# The URL sanitizer

`sanitizeUrl` goes over the bytes of a request path: it undoes the escapes of safe bytes, cuts the
path into segments at slashes and backslashes, resolves the dot segments with a stack and puts the
segments together again.
-/

set_option autoImplicit false

namespace Ferron.Util.UrlSanitizer

/-- `%`. -/
def percent : UInt8 := 0x25

/-- `.`. -/
def dot : UInt8 := 0x2e

/-- `/`. -/
def slash : UInt8 := 0x2f

/-- `\`. -/
def backslash : UInt8 := 0x5c

/-- `SAFE_CHARS`: safe characters that don't need encoding. A backslash is none. -/
def safeChars (b : UInt8) : Bool :=
  (asciiBytes "ABCDEFGHIJKLMNOPQRSTUVWXYZabcdefghijklmnopqrstuvwxyz0123456789!$&'()*+,-./:;=@[]_~".toList
    ).contains b

/-- The bytes of `SAFE_CHARS`. -/
def safeBytes : Bytes :=
  [0x41, 0x42, 0x43, 0x44, 0x45, 0x46, 0x47, 0x48, 0x49, 0x4a, 0x4b, 0x4c, 0x4d, 0x4e, 0x4f, 0x50,
    0x51, 0x52, 0x53, 0x54, 0x55, 0x56, 0x57, 0x58, 0x59, 0x5a, 0x61, 0x62, 0x63, 0x64, 0x65, 0x66,
    0x67, 0x68, 0x69, 0x6a, 0x6b, 0x6c, 0x6d, 0x6e, 0x6f, 0x70, 0x71, 0x72, 0x73, 0x74, 0x75, 0x76,
    0x77, 0x78, 0x79, 0x7a, 0x30, 0x31, 0x32, 0x33, 0x34, 0x35, 0x36, 0x37, 0x38, 0x39, 0x21, 0x24,
    0x26, 0x27, 0x28, 0x29, 0x2a, 0x2b, 0x2c, 0x2d, 0x2e, 0x2f, 0x3a, 0x3b, 0x3d, 0x40, 0x5b, 0x5d,
    0x5f, 0x7e]

theorem safeChars_eq (b : UInt8) : safeChars b = safeBytes.contains b := by
  have hbytes : asciiBytes
      "ABCDEFGHIJKLMNOPQRSTUVWXYZabcdefghijklmnopqrstuvwxyz0123456789!$&'()*+,-./:;=@[]_~".toList =
        safeBytes := by decide +kernel
  rw [safeChars, hbytes]

theorem safeChars_slash : safeChars slash = true := by
  rw [safeChars_eq]
  decide

theorem safeChars_dot : safeChars dot = true := by
  rw [safeChars_eq]
  decide

/-- `HEX_CHARS`. -/
def hexChar (n : UInt8) : UInt8 := if n < 10 then 0x30 + n else 0x37 + n

/-- `is_ascii_hexdigit`. -/
def isAsciiHexdigit (c : UInt8) : Bool :=
  (0x30 ≤ c && c ≤ 0x39) || (0x41 ≤ c && c ≤ 0x46) || (0x61 ≤ c && c ≤ 0x66)

/-- `hex_val`. -/
def hexVal (c : UInt8) : Option UInt8 :=
  if 0x30 ≤ c && c ≤ 0x39 then some (c - 0x30)
  else if 0x61 ≤ c && c ≤ 0x66 then some (10 + (c - 0x61))
  else if 0x41 ≤ c && c ≤ 0x46 then some (10 + (c - 0x41))
  else none

/-- `hex_to_byte_fast`. -/
def hexToByteFast (hi lo : UInt8) : Except String UInt8 :=
  match hexVal hi, hexVal lo with
  | some h, some l => .ok (h <<< 4 ||| l)
  | _, _ => .error "Invalid hex"

/-- Special characters that need encoding: `<`, `>`, `^`, a backtick, an opening brace, `|` and a
closing brace. -/
def needsEncoding (b : UInt8) : Bool := [0x3c, 0x3e, 0x5e, 0x60, 0x7b, 0x7c, 0x7d].contains b

/-- The combined pass: removes nulls, checks the escapes and undoes those of safe bytes. -/
def decodePass : Bytes → Except String Bytes
  | [] => .ok []
  | byte :: rest =>
      if byte = 0 then decodePass rest
      else if byte = percent then
        match rest with
        | hi :: lo :: rest =>
            if !isAsciiHexdigit hi || !isAsciiHexdigit lo then .error "URI malformed"
            else
              match hexToByteFast hi lo with
              | .error e => .error e
              | .ok value =>
                  if value = 0xc0 ∨ value = 0xc1 ∨ 0xfe ≤ value then .error "URI malformed"
                  else
                    (decodePass rest).map fun result =>
                      if value = 0 then result
                      else if safeChars value then value :: result
                      else percent :: hi :: lo :: result
        | _ => .error "URI malformed"
      else
        (decodePass rest).map fun result =>
          if needsEncoding byte then percent :: hexChar (byte >>> 4) :: hexChar (byte &&& 0xf) :: result
          else byte :: result

/-- The first two bytes are slashes. -/
def startsWithTwoSlashes (bytes : Bytes) : Bool := [slash, slash].isPrefixOf bytes

/-- Ensures that the path starts with a slash, and with two where the input did. -/
def ensureLeadingSlash (allowDoubleSlashes : Bool) (bytes result : Bytes) : Bytes :=
  match result with
  | [] => [slash]
  | first :: rest =>
      if first ≠ slash then slash :: first :: rest
      else if allowDoubleSlashes && startsWithTwoSlashes bytes then
        match rest with
        | second :: _ => if second ≠ slash then first :: slash :: rest else first :: rest
        | [] => [first]
      else first :: rest

/-- Trims trailing dots, but preserves "." and "..". -/
def trimTrailingDots (segment : Bytes) : Bytes :=
  if segment ≠ [dot] ∧ segment ≠ [dot, dot] then segment.rdropWhile (· == dot) else segment

/-- The state of the loop that builds the segments. -/
structure SegmentState where
  segments : List Bytes
  currentSegment : Bytes
  lastWasSlash : Bool

namespace SegmentState

/-- Ends the current segment. -/
def endSegment (state : SegmentState) : SegmentState :=
  if state.currentSegment = [] then state
  else
    let trimmed := trimTrailingDots state.currentSegment
    if trimmed = [] then { state with currentSegment := trimmed }
    else { state with segments := state.segments ++ [trimmed], currentSegment := [] }

/-- The byte separates segments. -/
def isSeparator (b : UInt8) : Bool := b == backslash || b == slash

/-- One round of the loop. -/
def next (allowDoubleSlashes : Bool) (state : SegmentState) (byte : UInt8) : SegmentState :=
  if isSeparator byte then
    let ended := state.endSegment
    { ended with
      segments :=
        if allowDoubleSlashes && state.lastWasSlash then ended.segments ++ [[]] else ended.segments
      lastWasSlash := true }
  else
    { state with currentSegment := state.currentSegment ++ [byte], lastWasSlash := false }

end SegmentState

/-- The segments of a path behind its leading slashes. -/
def buildSegments (allowDoubleSlashes : Bool) (bytes : Bytes) : List Bytes :=
  (bytes.foldl (SegmentState.next allowDoubleSlashes) ⟨[], [], true⟩).endSegment.segments

/-- Processes a segment for `.` and `..` navigation. -/
def processSegment (allowDoubleSlashes : Bool) (finalSegments : List Bytes) (segment : Bytes) :
    List Bytes :=
  if segment.isEmpty && allowDoubleSlashes then finalSegments ++ [segment]
  else if segment = [dot] then finalSegments
  else if segment = [dot, dot] then finalSegments.dropLast
  else if segment.isEmpty then finalSegments
  else finalSegments ++ [segment]

/-- Builds the final result. -/
def buildResult (allowDoubleSlashes : Bool) (bytes result : Bytes) (finalSegments : List Bytes) :
    Bytes :=
  let preserveTrailingSlash :=
    result.getLast? == some slash || result.getLast? == some backslash
  (if allowDoubleSlashes && startsWithTwoSlashes bytes then [slash, slash] else [slash]) ++
    (finalSegments.zipIdx.flatMap fun (segment, idx) =>
      (if 0 < idx || (allowDoubleSlashes && segment.isEmpty) then [slash] else []) ++ segment) ++
    if preserveTrailingSlash && !finalSegments.isEmpty then [slash] else []

/-- `sanitize_url`. -/
def sanitizeUrl (resource : Utf8String) (allowDoubleSlashes : Bool) : Except String Utf8String :=
  if resource.bytes = asciiBytes "*".toList ∨ resource.bytes = [] then .ok resource
  else
    match decodePass resource.bytes with
    | .error e => .error e
    | .ok decoded =>
        let result := ensureLeadingSlash allowDoubleSlashes resource.bytes decoded
        let rest :=
          if allowDoubleSlashes && startsWithTwoSlashes result then result.drop 2 else result.drop 1
        let finalSegments :=
          (buildSegments allowDoubleSlashes rest).foldl (processSegment allowDoubleSlashes) []
        match Utf8String.fromUtf8
            (buildResult allowDoubleSlashes resource.bytes result finalSegments) with
        | some sanitized => .ok sanitized
        | none => .error "Invalid UTF-8 in result"

/-- Dot segments are resolved. -/
example : (sanitizeUrl (.ofStr "/app/../../%2e%2e/etc//passwd".toList) false).map
    Utf8String.bytes = .ok (asciiBytes "/etc/passwd".toList) := by
  decide +kernel

/-- The empty segments of double slashes are kept where they are allowed. -/
example : (sanitizeUrl (.ofStr "/a//b/../c<".toList) true).map
    Utf8String.bytes = .ok (asciiBytes "/a//c%3C".toList) := by
  decide +kernel

end Ferron.Util.UrlSanitizer
