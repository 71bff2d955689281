import Ferron.Http.Body
import Ferron.Lib.Codec

/-!
# Decoding the records of a FastCGI application

`FcgiDecoder.decode` reads the header of a record, then its content and padding, and yields the
payloads of STDOUT and STDERR records of request 1 until END_REQUEST. A record that it ignores, of
another type or request, leaves it in the state for reading content with the header of that record.
From then on it takes whatever comes for the content of further such records and yields nothing.

`framedRead_eq_itemsOf` says what is yielded for every sequence of records and every cut of its bytes
into reads. It is what the records say exactly when no payload stands behind an ignored record
(`framedRead_yields_payloads_iff`).
-/

set_option autoImplicit false

namespace Ferron.Modules.Fcgi

open Ferron.Http Ferron.Lib.Codec

/-- Decoded FastCGI data. -/
inductive FcgiDecodedData where
  | stdout (bytes : Bytes)
  | stderr (bytes : Bytes)
  deriving DecidableEq, Repr

inductive FcgiDecodeState where
  | readingHead
  | readingContent
  | finished
  deriving DecidableEq, Repr

/-- The decoder. -/
structure FcgiDecoder where
  header : Bytes
  contentLength : Nat
  paddingLength : Nat
  state : FcgiDecodeState
  deriving DecidableEq, Repr

/-- `u16::from_be_bytes`. -/
def u16FromBe (b₀ b₁ : UInt8) : Nat := b₀.toNat * 256 + b₁.toNat

/-- `u32::from_be_bytes`. -/
def u32FromBe (b₀ b₁ b₂ b₃ : UInt8) : Nat := u16FromBe b₀ b₁ * 65536 + u16FromBe b₂ b₃

/-- What is injected into the standard error stream for an exit status. -/
def exitNotice (appStatus : Nat) : Bytes :=
  asciiBytes ("FastCGI application exited with code ".toList ++ Nat.toDigits 10 appStatus)

/-- The error for the protocol status of an END_REQUEST record. -/
def protocolError (protocolStatus : UInt8) : Option IoError :=
  if protocolStatus = 0 then none
  else if protocolStatus = 1 then some ⟨"FastCGI server overloaded".toList⟩
  else if protocolStatus = 2 then some ⟨"Role not supported by the FastCGI application".toList⟩
  else if protocolStatus = 3 then
    some ⟨"Multiplexed connections not supported by the FastCGI application".toList⟩
  else some ⟨"Unknown error".toList⟩

namespace FcgiDecoder

/-- `new`. -/
def new : FcgiDecoder := ⟨[], 0, 0, .readingHead⟩

/-- The request that the header names. -/
def requestId (this : FcgiDecoder) : Nat := u16FromBe (this.header.getD 2 0) (this.header.getD 3 0)

/-- The type in the header. -/
def recordType (this : FcgiDecoder) : UInt8 := this.header.getD 1 0

/-- The decoder after it has read this header. -/
def withHeader (header : Bytes) : FcgiDecoder where
  header := header
  contentLength := u16FromBe (header.getD 4 0) (header.getD 5 0)
  paddingLength := (header.getD 6 0).toNat
  state := .readingContent

/-- The rank of a state: reading content comes before the states it leads to. -/
def stateRank : FcgiDecodeState → Nat
  | .readingContent => 1
  | _ => 0

/-- `decode`: what is returned, the decoder and the rest of the buffer. -/
def decode (this : FcgiDecoder) (src : Bytes) :
    Except IoError (Option FcgiDecodedData) × FcgiDecoder × Bytes :=
  match _hstate : this.state with
  | .readingHead =>
      if _h : 8 ≤ src.length then decode (withHeader (src.take 8)) (src.drop 8)
      else (.ok none, this, src)
  | .readingContent =>
      if this.contentLength + this.paddingLength ≤ src.length then
        let content := src.take this.contentLength
        let rest := src.drop (this.contentLength + this.paddingLength)
        if this.requestId ≠ 1 ∨
            (this.recordType ≠ 3 ∧ this.recordType ≠ 6 ∧ this.recordType ≠ 7) then
          -- the record is ignored, but the state stays as it is
          (.ok none, this, rest)
        else if this.recordType = 3 then
          if 5 < content.length then
            let appStatus := u32FromBe (content.getD 0 0) (content.getD 1 0) (content.getD 2 0)
              (content.getD 3 0)
            match protocolError (content.getD 4 0) with
            | some e => (.error e, this, rest)
            | none =>
                if appStatus ≠ 0 then
                  (.ok (some (.stderr (exitNotice appStatus))), { this with state := .finished },
                    rest)
                else decode { this with state := .finished } rest
          else (.ok none, this, rest)
        else if this.recordType = 6 then
          (.ok (some (.stdout content)), { this with state := .readingHead }, rest)
        else if content = [] then decode { this with state := .readingHead } rest
        else (.ok (some (.stderr content)), { this with state := .readingHead }, rest)
      else (.ok none, this, src)
  | .finished => (.ok none, this, [])
  termination_by 2 * src.length + stateRank this.state
  decreasing_by
    · simp only [withHeader, _hstate, stateRank, List.length_drop]
      omega
    · simp only [_hstate, stateRank, List.length_drop]
      omega
    · simp only [_hstate, stateRank, List.length_drop]
      omega

end FcgiDecoder

/-! ## Records -/

/-- A FastCGI record. -/
structure FcgiRecord where
  version : UInt8
  recordType : UInt8
  requestId : UInt16
  reserved : UInt8
  content : Bytes
  padding : Bytes
  content_le : content.length ≤ 65535
  padding_le : padding.length ≤ 255

namespace FcgiRecord

/-- The two bytes of a number, the high one first. -/
def u16ToBe (n : Nat) : Bytes := [UInt8.ofNat (n / 256), UInt8.ofNat (n % 256)]

/-- The header of a record. -/
def header (record : FcgiRecord) : Bytes :=
  [record.version, record.recordType] ++ u16ToBe record.requestId.toNat ++
    u16ToBe record.content.length ++ [UInt8.ofNat record.padding.length, record.reserved]

/-- The bytes of a record. -/
def encode (record : FcgiRecord) : Bytes := record.header ++ record.content ++ record.padding

/-- The record ends the request. -/
def IsEndRequest (record : FcgiRecord) : Prop := record.requestId = 1 ∧ record.recordType = 3

instance (record : FcgiRecord) : Decidable record.IsEndRequest :=
  inferInstanceAs (Decidable (_ ∧ _))

/-- The decoder ignores the record. -/
def IsIgnored (record : FcgiRecord) : Prop :=
  record.requestId ≠ 1 ∨
    (record.recordType ≠ 3 ∧ record.recordType ≠ 6 ∧ record.recordType ≠ 7)

instance (record : FcgiRecord) : Decidable record.IsIgnored := inferInstanceAs (Decidable (_ ∨ _))

/-- The payload of a record for request 1. An empty STDERR record ends that stream and has none. -/
def payload (record : FcgiRecord) : Option FcgiDecodedData :=
  if record.requestId = 1 then
    if record.recordType = 6 then some (.stdout record.content)
    else if record.recordType = 7 ∧ record.content ≠ [] then some (.stderr record.content)
    else none
  else none

/-- What END_REQUEST itself adds to the standard error stream. -/
def notice (record : FcgiRecord) : List FcgiDecodedData :=
  if 5 < record.content.length ∧ protocolError (record.content.getD 4 0) = none then
    let appStatus := u32FromBe (record.content.getD 0 0) (record.content.getD 1 0)
      (record.content.getD 2 0) (record.content.getD 3 0)
    if appStatus ≠ 0 then [.stderr (exitNotice appStatus)] else []
  else []

end FcgiRecord

/-- The bytes of a sequence of records. -/
def encodeAll (records : List FcgiRecord) : Bytes := records.flatMap FcgiRecord.encode

/-- The records before END_REQUEST. -/
def beforeEnd (records : List FcgiRecord) : List FcgiRecord :=
  records.takeWhile fun record => ¬ record.IsEndRequest

/-- The payloads for request 1 up to END_REQUEST. -/
def payloads (records : List FcgiRecord) : List FcgiDecodedData :=
  (beforeEnd records).filterMap FcgiRecord.payload

/-- What the END_REQUEST record adds, if there is one. -/
def endNotice (records : List FcgiRecord) : List FcgiDecodedData :=
  match records.dropWhile fun record => ¬ record.IsEndRequest with
  | [] => []
  | record :: _ => record.notice

/-- What the decoder makes of a sequence of records. -/
def itemsOf : List FcgiRecord → List FcgiDecodedData
  | [] => []
  | record :: records =>
      if record.IsIgnored then []
      else if record.IsEndRequest then record.notice
      else record.payload.toList ++ itemsOf records

theorem itemsOf_cons_of_end {record : FcgiRecord} {records : List FcgiRecord}
    (htaken : ¬ record.IsIgnored) (hend : record.IsEndRequest) :
    itemsOf (record :: records) = record.notice := by
  rw [itemsOf, if_neg htaken, if_pos hend]

theorem itemsOf_cons_of_not_end {record : FcgiRecord} {records : List FcgiRecord}
    (htaken : ¬ record.IsIgnored) (hend : ¬ record.IsEndRequest) :
    itemsOf (record :: records) = record.payload.toList ++ itemsOf records := by
  rw [itemsOf, if_neg htaken, if_neg hend]

/-! ## Reading headers -/

theorem u16FromBe_u16ToBe {n : Nat} (h : n ≤ 65535) :
    u16FromBe (UInt8.ofNat (n / 256)) (UInt8.ofNat (n % 256)) = n := by
  have hhigh : (UInt8.ofNat (n / 256)).toNat = n / 256 := by
    rw [UInt8.toNat_ofNat']
    omega
  have hlow : (UInt8.ofNat (n % 256)).toNat = n % 256 := by
    rw [UInt8.toNat_ofNat']
    omega
  rw [u16FromBe, hhigh, hlow]
  omega

section Header

variable (record : FcgiRecord)

theorem length_header : record.header.length = 8 := rfl

theorem contentLength_withHeader :
    (FcgiDecoder.withHeader record.header).contentLength = record.content.length :=
  u16FromBe_u16ToBe record.content_le

theorem paddingLength_withHeader :
    (FcgiDecoder.withHeader record.header).paddingLength = record.padding.length := by
  change (UInt8.ofNat record.padding.length).toNat = record.padding.length
  have hle := record.padding_le
  rw [UInt8.toNat_ofNat']
  omega

theorem recordType_withHeader :
    (FcgiDecoder.withHeader record.header).recordType = record.recordType := rfl

theorem requestId_withHeader :
    (FcgiDecoder.withHeader record.header).requestId = record.requestId.toNat := by
  apply u16FromBe_u16ToBe
  have hlt := record.requestId.toNat_lt
  omega

theorem requestId_toNat_eq_one_iff : record.requestId.toNat = 1 ↔ record.requestId = 1 := by
  constructor
  · intro h
    exact UInt16.toNat_inj.1 h
  · intro h
    rw [h]
    rfl

end Header

theorem encodeAll_cons (record : FcgiRecord) (records : List FcgiRecord) :
    encodeAll (record :: records) =
      record.header ++ (record.content ++ record.padding ++ encodeAll records) := by
  simp [encodeAll, FcgiRecord.encode]

/-! ## What is still to come -/

namespace FcgiDecoder

/-- The rank of a call. -/
def rank (this : FcgiDecoder) (src : Bytes) : Nat := 2 * src.length + stateRank this.state

/-- Leaving the state for reading content makes the rank smaller. -/
theorem rank_lt_of_leave {this : FcgiDecoder} (hstate : this.state = .readingContent)
    {state : FcgiDecodeState} (hne : state ≠ .readingContent) (src : Bytes) (n : Nat) :
    rank { this with state := state } (src.drop n) < rank this src := by
  have hzero : stateRank state = 0 := by
    cases state with
    | readingContent => exact absurd rfl hne
    | readingHead => rfl
    | finished => rfl
  have hone : stateRank this.state = 1 := by
    rw [hstate]
    rfl
  rw [rank, rank, hzero, hone, List.length_drop]
  omega

/-- Reading a header makes the rank smaller. -/
theorem rank_lt_of_header {this : FcgiDecoder} {src : Bytes} (hlength : 8 ≤ src.length) :
    rank (withHeader (src.take 8)) (src.drop 8) < rank this src := by
  have hone : stateRank (withHeader (src.take 8)).state = 1 := rfl
  rw [rank, rank, hone, List.length_drop]
  omega

/-- A call that returns an item makes the rank smaller. -/
theorem rank_lt_of_decode (this : FcgiDecoder) (src : Bytes) (item : FcgiDecodedData)
    (this' : FcgiDecoder) (src' : Bytes) (h : decode this src = (.ok (some item), this', src')) :
    rank this' src' < rank this src := by
  fun_induction decode this src with
  | case1 this src hstate hlength ih => exact lt_trans (ih h) (rank_lt_of_header hlength)
  | case5 this src hstate hlength content rest hrelevant htype hlong appStatus hprotocol happ =>
      simp only [Prod.mk.injEq] at h
      rw [← h.2.1, ← h.2.2]
      exact rank_lt_of_leave hstate (by decide) src _
  | case6 this src hstate hlength content rest hrelevant htype hlong appStatus hprotocol happ ih =>
      exact lt_trans (ih h) (rank_lt_of_leave hstate (by decide) src _)
  | case8 this src hstate hlength content rest hrelevant hend hout =>
      simp only [Prod.mk.injEq] at h
      rw [← h.2.1, ← h.2.2]
      exact rank_lt_of_leave hstate (by decide) src _
  | case9 this src hstate hlength content rest hrelevant hend hout hempty ih =>
      exact lt_trans (ih h) (rank_lt_of_leave hstate (by decide) src _)
  | case10 this src hstate hlength content rest hrelevant hend hout hempty =>
      simp only [Prod.mk.injEq] at h
      rw [← h.2.1, ← h.2.2]
      exact rank_lt_of_leave hstate (by decide) src _
  | _ => simp at h

/-- The decoder as a decoder over streams. -/
def codec : Decoder FcgiDecoder UInt8 FcgiDecodedData IoError where
  decode := decode
  rank := rank
  rank_lt := rank_lt_of_decode

/-- The decoder yields nothing any more: it has finished, or it reads content under the header of a
record that it does not take. -/
def Stuck (this : FcgiDecoder) : Prop :=
  this.state = .finished ∨ this.state = .readingContent ∧
    (this.requestId ≠ 1 ∨ (this.recordType ≠ 3 ∧ this.recordType ≠ 6 ∧ this.recordType ≠ 7) ∨
      this.recordType = 3 ∧ this.contentLength ≤ 5)

/-- The items that come from these bytes, those in the buffer and those that are not read yet. -/
inductive Expects : FcgiDecoder → Bytes → List FcgiDecodedData → Prop
  | head {this : FcgiDecoder} {pending : Bytes} (hstate : this.state = .readingHead)
      (records : List FcgiRecord) (hpending : pending = encodeAll records) :
      Expects this pending (itemsOf records)
  | content {this : FcgiDecoder} {pending : Bytes} (record : FcgiRecord)
      (records : List FcgiRecord) (hthis : this = withHeader record.header)
      (hpending : pending = record.content ++ (record.padding ++ encodeAll records)) :
      Expects this pending (itemsOf (record :: records))
  | stuck {this : FcgiDecoder} {pending : Bytes} (hstuck : this.Stuck) : Expects this pending []

/-- A record that is left while it is not taken leaves the decoder stuck. -/
theorem expects_of_not_taken {record : FcgiRecord} {records : List FcgiRecord} {pending : Bytes}
    (h : record.IsIgnored ∨ record.recordType = 3 ∧ record.content.length ≤ 5) :
    Expects (withHeader record.header) pending (itemsOf (record :: records)) := by
  have hitems : itemsOf (record :: records) = [] := by
    rw [itemsOf]
    split
    · rfl
    · rename_i hrelevant
      rcases h with hignored | ⟨htype, hshort⟩
      · exact absurd hignored hrelevant
      · have hrequest : record.requestId = 1 := by
          by_contra hne
          exact hrelevant (Or.inl hne)
        rw [if_pos ⟨hrequest, htype⟩, FcgiRecord.notice, if_neg]
        rintro ⟨hlong, -⟩
        omega
  rw [hitems]
  refine .stuck (Or.inr ⟨rfl, ?_⟩)
  rw [requestId_withHeader, recordType_withHeader, contentLength_withHeader, Ne,
    requestId_toNat_eq_one_iff]
  rcases h with hrequest | htype
  · rcases hrequest with hrequest | htype
    · exact Or.inl hrequest
    · exact Or.inr (Or.inl htype)
  · exact Or.inr (Or.inr htype)

/-- What a call of the decoder must return, so that these items come: `rest` is not read yet. -/
def Bears (rest : Bytes) (items : List FcgiDecodedData) :
    Except IoError (Option FcgiDecodedData) × FcgiDecoder × Bytes → Prop
  | (.ok (some item), this, src) => ∃ later, items = item :: later ∧ Expects this (src ++ rest) later
  | (.ok none, this, src) => Expects this (src ++ rest) items ∧ (rest = [] → items = [])
  | (.error _, _, _) => items = []

section Inversion

variable {this : FcgiDecoder} {src rest : Bytes} {items : List FcgiDecodedData}

/-- Reading a head, the decoder stands before the rest of the records. -/
theorem Expects.of_head (h : Expects this src items) (hstate : this.state = .readingHead) :
    ∃ records, src = encodeAll records ∧ items = itemsOf records := by
  cases h with
  | head _ records hpending => exact ⟨records, hpending, rfl⟩
  | content record records hthis _ =>
      rw [hthis] at hstate
      exact FcgiDecodeState.noConfusion hstate
  | stuck hstuck =>
      rcases hstuck with hfinished | ⟨hcontent, -⟩
      · rw [hfinished] at hstate
        exact absurd hstate (by decide)
      · rw [hcontent] at hstate
        exact absurd hstate (by decide)

/-- Reading content, the decoder has read the header of the next record, or is stuck. -/
theorem Expects.of_content (h : Expects this src items) (hstate : this.state = .readingContent) :
    (∃ record records, this = withHeader record.header ∧
      src = record.content ++ (record.padding ++ encodeAll records) ∧
      items = itemsOf (record :: records)) ∨ this.Stuck ∧ items = [] := by
  cases h with
  | head hhead _ _ =>
      rw [hhead] at hstate
      exact absurd hstate (by decide)
  | content record records hthis hpending =>
      exact Or.inl ⟨record, records, hthis, hpending, rfl⟩
  | stuck hstuck => exact Or.inr ⟨hstuck, rfl⟩

/-- Having finished, the decoder has no item left. -/
theorem Expects.of_finished (h : Expects this src items) (hstate : this.state = .finished) :
    items = [] := by
  cases h with
  | head hhead _ _ =>
      rw [hhead] at hstate
      exact absurd hstate (by decide)
  | content record records hthis _ =>
      rw [hthis] at hstate
      exact FcgiDecodeState.noConfusion hstate
  | stuck _ => rfl

/-- A head that is in the buffer is the header of the next record. -/
theorem Expects.head_in_buffer (h : Expects this (src ++ rest) items)
    (hstate : this.state = .readingHead) (hlength : 8 ≤ src.length) :
    Expects (withHeader (src.take 8)) (src.drop 8 ++ rest) items := by
  obtain ⟨records, hbytes, rfl⟩ := h.of_head hstate
  cases records with
  | nil =>
      have hnil := congrArg List.length hbytes
      rw [List.length_append, encodeAll, List.flatMap_nil, List.length_nil] at hnil
      omega
  | cons record records =>
      rw [encodeAll_cons] at hbytes
      have htake := congrArg (List.take 8) hbytes
      rw [List.take_append_of_le_length hlength, List.take_left' (length_header record)] at htake
      have hdrop := congrArg (List.drop 8) hbytes
      rw [List.drop_append_of_le_length hlength, List.drop_left' (length_header record),
        List.append_assoc] at hdrop
      rw [htake]
      exact .content record records rfl hdrop

/-- A record that is in the buffer as a whole, or a decoder that is stuck. -/
theorem Expects.record_in_buffer (h : Expects this (src ++ rest) items)
    (hstate : this.state = .readingContent)
    (hlength : this.contentLength + this.paddingLength ≤ src.length) :
    (∃ record records, this = withHeader record.header ∧
      src.take this.contentLength = record.content ∧
      src.drop (this.contentLength + this.paddingLength) ++ rest = encodeAll records ∧
      items = itemsOf (record :: records)) ∨ this.Stuck ∧ items = [] := by
  rcases h.of_content hstate with ⟨record, records, hthis, hbytes, hitems⟩ | hstuck
  · refine Or.inl ⟨record, records, hthis, ?_, ?_, hitems⟩
    · have htake := congrArg (List.take this.contentLength) hbytes
      rw [List.take_append_of_le_length (by omega), hthis, contentLength_withHeader,
        List.take_left] at htake
      rw [hthis, contentLength_withHeader, htake]
    · have hdrop := congrArg (List.drop (this.contentLength + this.paddingLength)) hbytes
      rw [List.drop_append_of_le_length hlength] at hdrop
      rw [hdrop, hthis, contentLength_withHeader, paddingLength_withHeader, ← List.append_assoc]
      exact List.drop_left' (List.length_append ..)
  · exact Or.inr hstuck

end Inversion

/-- A decoder that is stuck takes no record. -/
theorem Stuck.not_taken {this : FcgiDecoder} (h : this.Stuck) (hstate : this.state = .readingContent)
    (hrelevant : ¬ (this.requestId ≠ 1 ∨
      (this.recordType ≠ 3 ∧ this.recordType ≠ 6 ∧ this.recordType ≠ 7))) :
    this.recordType = 3 ∧ this.contentLength ≤ 5 := by
  rcases h with hfinished | ⟨-, hrequest | htype | hshort⟩
  · rw [hfinished] at hstate
    exact absurd hstate (by decide)
  · exact absurd (Or.inl hrequest) hrelevant
  · exact absurd (Or.inr htype) hrelevant
  · exact hshort

/-- The decoder has read the header of a record that it takes, and the record is in the buffer. -/
structure TakesRecord (this : FcgiDecoder) (src rest : Bytes) (record : FcgiRecord)
    (records : List FcgiRecord) : Prop where
  recordType_eq : this.recordType = record.recordType
  taken : ¬ record.IsIgnored
  requestId_eq : record.requestId = 1
  content_eq : src.take this.contentLength = record.content
  later_eq : src.drop (this.contentLength + this.paddingLength) ++ rest = encodeAll records

namespace TakesRecord

variable {this : FcgiDecoder} {src rest : Bytes} {record : FcgiRecord} {records : List FcgiRecord}

theorem isEndRequest (h : TakesRecord this src rest record records) (htype : this.recordType = 3) :
    record.IsEndRequest :=
  ⟨h.requestId_eq, h.recordType_eq ▸ htype⟩

theorem not_isEndRequest (h : TakesRecord this src rest record records)
    (htype : ¬ this.recordType = 3) : ¬ record.IsEndRequest := fun hend =>
  htype (h.recordType_eq ▸ hend.2)

end TakesRecord

/-- A decoder with a record of request 1 of the types that it takes. -/
theorem Expects.takes_record {this : FcgiDecoder} {src rest : Bytes} {items : List FcgiDecodedData}
    (h : Expects this (src ++ rest) items) (hstate : this.state = .readingContent)
    (hlength : this.contentLength + this.paddingLength ≤ src.length)
    (hrelevant : ¬ (this.requestId ≠ 1 ∨
      (this.recordType ≠ 3 ∧ this.recordType ≠ 6 ∧ this.recordType ≠ 7))) :
    (∃ record records, TakesRecord this src rest record records ∧
      this = withHeader record.header ∧ items = itemsOf (record :: records)) ∨
      this.Stuck ∧ (this.recordType = 3 ∧ this.contentLength ≤ 5) ∧ items = [] := by
  rcases h.record_in_buffer hstate hlength with
    ⟨record, records, hthis, hcontent, hlater, hitems⟩ | ⟨hstuck, hitems⟩
  · have htype : this.recordType = record.recordType := by rw [hthis, recordType_withHeader]
    have htaken : ¬ record.IsIgnored := by
      rwa [htype, hthis, requestId_withHeader, Ne, requestId_toNat_eq_one_iff] at hrelevant
    have hrequest : record.requestId = 1 := by
      by_contra hne
      exact htaken (Or.inl hne)
    exact Or.inl ⟨record, records, ⟨htype, htaken, hrequest, hcontent, hlater⟩, hthis, hitems⟩
  · exact Or.inr ⟨hstuck, hstuck.not_taken hstate hrelevant, hitems⟩

/-- Every call bears out what is expected. -/
theorem decode_bears (this : FcgiDecoder) (src rest : Bytes) (items : List FcgiDecodedData)
    (h : Expects this (src ++ rest) items) : Bears rest items (decode this src) := by
  fun_induction decode this src generalizing items with
  | case1 this src hstate hlength ih => exact ih items (h.head_in_buffer hstate hlength)
  | case2 this src hstate hshort =>
      -- the head is not in the buffer yet
      refine ⟨h, ?_⟩
      rintro rfl
      obtain ⟨records, hbytes, rfl⟩ := h.of_head hstate
      cases records with
      | nil => rfl
      | cons record records =>
          have hlength := congrArg List.length hbytes
          rw [encodeAll_cons, List.append_nil, List.length_append, length_header] at hlength
          omega
  | case3 this src hstate hlength later hignored =>
      rcases h.record_in_buffer hstate hlength with
        ⟨record, records, rfl, -, -, rfl⟩ | ⟨hstuck, rfl⟩
      · rw [requestId_withHeader, recordType_withHeader, Ne, requestId_toNat_eq_one_iff] at hignored
        refine ⟨expects_of_not_taken (Or.inl hignored), fun _ => ?_⟩
        exact if_pos hignored
      · exact ⟨.stuck hstuck, fun _ => rfl⟩
  | case4 this src hstate hlength content later hrelevant htype hlong e hprotocol =>
      rcases h.takes_record hstate hlength hrelevant with
        ⟨record, records, htakes, -, rfl⟩ | ⟨-, -, rfl⟩
      · have hend := htakes.isEndRequest htype
        rw [Bears, itemsOf_cons_of_end htakes.taken hend, FcgiRecord.notice, if_neg]
        rintro ⟨-, hnone⟩
        rw [← htakes.content_eq, hprotocol] at hnone
        exact absurd hnone (by simp)
      · rfl
  | case5 this src hstate hlength content later hrelevant htype hlong appStatus hprotocol happ =>
      rcases h.takes_record hstate hlength hrelevant with
        ⟨record, records, htakes, -, rfl⟩ | ⟨-, hshort, -⟩
      · refine ⟨[], ?_, .stuck (Or.inl rfl)⟩
        rw [itemsOf_cons_of_end htakes.taken (htakes.isEndRequest htype), FcgiRecord.notice,
          ← htakes.content_eq, if_pos ⟨hlong, hprotocol⟩, if_pos happ]
      · have htake : content.length ≤ this.contentLength := List.length_take_le _ _
        omega
  | case6 this src hstate hlength content later hrelevant htype hlong appStatus hprotocol happ ih =>
      have hnil : items = [] := by
        rcases h.takes_record hstate hlength hrelevant with
          ⟨record, records, htakes, -, rfl⟩ | ⟨-, -, rfl⟩
        · rw [itemsOf_cons_of_end htakes.taken (htakes.isEndRequest htype), FcgiRecord.notice,
            ← htakes.content_eq, if_pos ⟨hlong, hprotocol⟩, if_neg happ]
        · rfl
      rw [hnil]
      exact ih [] (.stuck (Or.inl rfl))
  | case7 this src hstate hlength content later hrelevant htype hshort =>
      rcases h.takes_record hstate hlength hrelevant with
        ⟨record, records, htakes, rfl, rfl⟩ | ⟨hstuck, -, rfl⟩
      · have hend := htakes.isEndRequest htype
        have hle : record.content.length ≤ 5 := by
          rw [← htakes.content_eq]
          exact Nat.le_of_not_lt hshort
        refine ⟨expects_of_not_taken (Or.inr ⟨hend.2, hle⟩), fun _ => ?_⟩
        rw [itemsOf_cons_of_end htakes.taken hend, FcgiRecord.notice, if_neg]
        rintro ⟨hlong, -⟩
        omega
      · exact ⟨.stuck hstuck, fun _ => rfl⟩
  | case8 this src hstate hlength content later hrelevant hend hout =>
      rcases h.takes_record hstate hlength hrelevant with
        ⟨record, records, htakes, -, rfl⟩ | ⟨-, hshort, -⟩
      · refine ⟨itemsOf records, ?_, .head rfl records htakes.later_eq⟩
        rw [htakes.recordType_eq] at hout
        rw [itemsOf_cons_of_not_end htakes.taken (htakes.not_isEndRequest hend), FcgiRecord.payload,
          if_pos htakes.requestId_eq, if_pos hout, ← htakes.content_eq]
        rfl
      · exact absurd hshort.1 hend
  | case9 this src hstate hlength content later hrelevant hend hout hempty ih =>
      rcases h.takes_record hstate hlength hrelevant with
        ⟨record, records, htakes, -, rfl⟩ | ⟨-, hshort, -⟩
      · rw [htakes.recordType_eq] at hout
        have hitems : itemsOf (record :: records) = itemsOf records := by
          rw [itemsOf_cons_of_not_end htakes.taken (htakes.not_isEndRequest hend),
            FcgiRecord.payload, if_pos htakes.requestId_eq, if_neg hout, if_neg]
          · rfl
          · rintro ⟨-, hnonempty⟩
            exact hnonempty (htakes.content_eq.symm.trans hempty)
        rw [hitems]
        exact ih _ (.head rfl records htakes.later_eq)
      · exact absurd hshort.1 hend
  | case10 this src hstate hlength content later hrelevant hend hout hnonempty =>
      rcases h.takes_record hstate hlength hrelevant with
        ⟨record, records, htakes, -, rfl⟩ | ⟨-, hshort, -⟩
      · have hnot := htakes.not_isEndRequest hend
        rw [htakes.recordType_eq] at hend hout
        have herr : record.recordType = 7 := by
          by_contra hne
          exact htakes.taken (Or.inr ⟨hend, hout, hne⟩)
        refine ⟨itemsOf records, ?_, .head rfl records htakes.later_eq⟩
        rw [itemsOf_cons_of_not_end htakes.taken hnot, FcgiRecord.payload,
          if_pos htakes.requestId_eq, if_neg hout, ← htakes.content_eq, if_pos ⟨herr, hnonempty⟩]
        rfl
      · exact absurd hshort.1 hend
  | case11 this src hstate hshort =>
      -- the record is not in the buffer yet
      refine ⟨h, ?_⟩
      rintro rfl
      rw [List.append_nil] at h
      rcases h.of_content hstate with ⟨record, records, rfl, rfl, -⟩ | ⟨-, rfl⟩
      · rw [contentLength_withHeader, paddingLength_withHeader, List.length_append,
          List.length_append] at hshort
        omega
      · rfl
  | case12 this src hstate =>
      rw [h.of_finished hstate]
      exact ⟨.stuck (Or.inl hstate), fun _ => rfl⟩

/-- The items that are expected are those that come. -/
theorem anticipates : Anticipates codec Expects where
  item {s buffer rest items i s' buffer'} h hdecode := by
    have hbears := decode_bears s buffer rest items h
    rw [show decode s buffer = _ from hdecode] at hbears
    exact hbears
  more {s buffer rest items s' buffer'} h hdecode := by
    have hbears := decode_bears s buffer rest items h
    rw [show decode s buffer = _ from hdecode] at hbears
    exact hbears.1
  last {s buffer items s' buffer'} h hdecode := by
    rw [← List.append_nil buffer] at h
    have hbears := decode_bears s buffer [] items h
    rw [show decode s buffer = _ from hdecode] at hbears
    exact hbears.2 rfl
  error {s buffer rest items e s' buffer'} h hdecode := by
    have hbears := decode_bears s buffer rest items h
    rw [show decode s buffer = _ from hdecode] at hbears
    exact hbears

end FcgiDecoder

/-! ## What is yielded -/

/-- The error for bytes that are left at the end of a stream. -/
def bytesRemaining : IoError := ⟨"bytes remaining on stream".toList⟩

/-- The items that come from the reads of a stream, and the error it ends with, if any. -/
def framedRead (reads : List Bytes) : List FcgiDecodedData × Option IoError :=
  FcgiDecoder.codec.framedRead bytesRemaining FcgiDecoder.new [] reads

/-- What is yielded depends on the records only. -/
theorem framedRead_eq_itemsOf {records : List FcgiRecord} {reads : List Bytes}
    (hreads : reads.flatten = encodeAll records) : (framedRead reads).1 = itemsOf records :=
  FcgiDecoder.anticipates.framedRead_eq bytesRemaining FcgiDecoder.new [] reads (itemsOf records)
    (.head rfl records hreads)

/-- The items are the payloads for request 1 up to END_REQUEST, with what this record adds itself. -/
def YieldsPayloads (items : List FcgiDecodedData) (records : List FcgiRecord) : Prop :=
  items = payloads records ∨ items = payloads records ++ endNotice records

/-- The records before END_REQUEST, from the first one on that the decoder ignores. -/
def fromFirstIgnored (records : List FcgiRecord) : List FcgiRecord :=
  (beforeEnd records).dropWhile fun record => ¬ record.IsIgnored

/-- The payloads in front of the first ignored record come, and without one also the notice. -/
theorem itemsOf_eq (records : List FcgiRecord) :
    itemsOf records =
      ((beforeEnd records).takeWhile fun record => ¬ record.IsIgnored).filterMap
          FcgiRecord.payload ++
        if fromFirstIgnored records = [] then endNotice records else [] := by
  induction records with
  | nil => rfl
  | cons record records ih =>
      rw [itemsOf]
      by_cases hend : record.IsEndRequest
      · have hrelevant : ¬ record.IsIgnored := by
          rintro (hrequest | htype)
          · exact hrequest hend.1
          · exact htype.1 hend.2
        simp [beforeEnd, fromFirstIgnored, endNotice, hend, hrelevant]
      · by_cases hignored : record.IsIgnored
        · simp [beforeEnd, fromFirstIgnored, hend, hignored]
        · rw [if_neg hignored, if_neg hend, ih]
          simp only [beforeEnd, fromFirstIgnored, endNotice, List.takeWhile_cons, hend, hignored,
            not_false_eq_true, decide_true, if_true, List.dropWhile_cons, List.filterMap_cons]
          cases record.payload with
          | none => rfl
          | some item => rfl

theorem payloads_eq_append (records : List FcgiRecord) :
    payloads records =
      ((beforeEnd records).takeWhile fun record => ¬ record.IsIgnored).filterMap
          FcgiRecord.payload ++ (fromFirstIgnored records).filterMap FcgiRecord.payload := by
  rw [payloads, fromFirstIgnored, ← List.filterMap_append, List.takeWhile_append_dropWhile]

/-- The decoder yields what the records say exactly when no payload stands behind an ignored record
before END_REQUEST. -/
theorem framedRead_yields_payloads_iff {records : List FcgiRecord} {reads : List Bytes}
    (hreads : reads.flatten = encodeAll records) :
    YieldsPayloads (framedRead reads).1 records ↔
      ∀ record ∈ fromFirstIgnored records, record.payload = none := by
  rw [framedRead_eq_itemsOf hreads, YieldsPayloads, itemsOf_eq, payloads_eq_append,
    ← List.filterMap_eq_nil_iff]
  constructor
  · intro h
    by_cases hnone : fromFirstIgnored records = []
    · rw [hnone]
      rfl
    · rw [if_neg hnone, List.append_nil] at h
      rcases h with h | h
      · exact (List.self_eq_append_right.1 h)
      · rw [List.append_assoc] at h
        exact (List.append_eq_nil_iff.1 (List.self_eq_append_right.1 h)).1
  · intro h
    rw [h, List.append_nil]
    by_cases hnone : fromFirstIgnored records = []
    · rw [if_pos hnone]
      exact Or.inr rfl
    · rw [if_neg hnone]
      exact Or.inl (List.append_nil _)

/-- A record of one byte for request 1. -/
def oneByteRecord (recordType : UInt8) (requestId : UInt16) (byte : UInt8) : FcgiRecord where
  version := 1
  recordType := recordType
  requestId := requestId
  reserved := 0
  content := [byte]
  padding := List.replicate 7 0
  content_le := Nat.le_add_left 1 65534
  padding_le := by decide

/-- Both streams of request 1, a record of another request, and the end of request 1. -/
def mixedRecords : List FcgiRecord :=
  [oneByteRecord 6 1 97, oneByteRecord 7 1 98, oneByteRecord 6 2 99, oneByteRecord 3 1 0]

/-- Their bytes, cut within the header of the first and of the third record. -/
def mixedReads : List Bytes :=
  [(encodeAll mixedRecords).take 5, ((encodeAll mixedRecords).take 35).drop 5,
    (encodeAll mixedRecords).drop 35]

theorem framedRead_yields_payloads_mixedReads :
    YieldsPayloads (framedRead mixedReads).1 mixedRecords ∧
      payloads mixedRecords = [.stdout [97], .stderr [98]] :=
  ⟨(framedRead_yields_payloads_iff (by decide)).2 (by decide), by decide⟩

/-- A record of another request makes the decoder lose the payload behind it. -/
theorem framedRead_loses_payload :
    ¬ YieldsPayloads (framedRead [encodeAll [oneByteRecord 6 2 98, oneByteRecord 6 1 97]]).1
      [oneByteRecord 6 2 98, oneByteRecord 6 1 97] := by
  have hitems : (framedRead [encodeAll [oneByteRecord 6 2 98, oneByteRecord 6 1 97]]).1 = [] := by
    rw [framedRead_eq_itemsOf (List.append_nil _)]
    decide
  rw [hitems]
  rintro (h | h)
  · exact absurd h (by decide)
  · exact absurd h (by decide)

end Ferron.Modules.Fcgi
