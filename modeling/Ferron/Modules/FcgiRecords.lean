import Ferron.Lib.Framing
import Ferron.Modules.FcgiDecoder

/-!
# Constructing FastCGI records

`constructFastcgiRecord` writes the length of the content as a 16-bit number, and pads the content to a
multiple of 8 bytes. `recordReader` reads records as the specification says. A record with at most 65535
bytes of content is read back (`constructFastcgiRecord_eq`, `read_encode_append`); of a longer one the
length is written modulo 65536.

`FcgiEncoder` writes the request body as STDIN records. For every body these are well-formed, and they
are read back (`encode_readAll`).
-/

set_option autoImplicit false

namespace Ferron.Modules.Fcgi

open Ferron.Lib.Framing

/-! ## The model -/

/-- The length of the padding in `construct_fastcgi_record`. -/
def paddingLength (contentLength : Nat) : Nat :=
  match contentLength % 8 with
  | 0 => 0
  | remainder => 8 - remainder

/-- `construct_fastcgi_record`. -/
def constructFastcgiRecord (recordType : UInt8) (requestId : UInt16) (content : Bytes) : Bytes :=
  -- `content.len() as u16`
  let contentLength := content.length % 65536
  [1, recordType] ++ FcgiRecord.u16ToBe requestId.toNat ++ FcgiRecord.u16ToBe contentLength ++
    [UInt8.ofNat (paddingLength contentLength), 0] ++ content ++
      List.replicate (paddingLength contentLength) 0

namespace FcgiEncoder

/-- The loop of `encode`. -/
def encodeLoop (item : Bytes) (offset : Nat) (firstWritten : Bool) : Bytes :=
  if _h : offset < item.length ∨ item = [] ∧ firstWritten = false then
    let chunkSize := min 65535 (item.length - offset)
    let chunk := (item.drop offset).take chunkSize
    constructFastcgiRecord 5 1 chunk ++ encodeLoop item (offset + chunkSize) true
  else []
  termination_by (item.length - offset) + (if firstWritten then 0 else 1)
  decreasing_by
    rcases _h with hmore | ⟨rfl, rfl⟩
    · rw [if_pos trivial]
      omega
    · rw [if_pos trivial, if_neg Bool.false_ne_true]
      omega

/-- `encode`: what is in the buffer afterwards. -/
def encode (item dst : Bytes) : Bytes := dst ++ encodeLoop item 0 false

end FcgiEncoder

/-! ## Records of the specification -/

theorem u16FromBe_le (b₀ b₁ : UInt8) : u16FromBe b₀ b₁ ≤ 65535 := by
  have h₀ := b₀.toNat_lt
  have h₁ := b₁.toNat_lt
  rw [u16FromBe]
  omega

/-- Reads a record: the header of 8 bytes, the content and the padding. -/
def readRecord : Bytes → Option (FcgiRecord × Bytes)
  | version :: recordType :: id₁ :: id₀ :: length₁ :: length₀ :: paddingLength :: reserved :: body =>
      let contentLength := u16FromBe length₁ length₀
      if contentLength + paddingLength.toNat ≤ body.length then
        some
          ({ version := version
             recordType := recordType
             requestId := UInt16.ofNat (u16FromBe id₁ id₀)
             reserved := reserved
             content := body.take contentLength
             padding := (body.drop contentLength).take paddingLength.toNat
             content_le := (List.length_take_le _ _).trans (u16FromBe_le _ _)
             padding_le := (List.length_take_le _ _).trans (Nat.le_of_lt_succ paddingLength.toNat_lt) },
            body.drop (contentLength + paddingLength.toNat))
      else none
  | _ => none

theorem readRecord_shorter {input : Bytes} {record : FcgiRecord} {rest : Bytes}
    (h : readRecord input = some (record, rest)) : rest.length < input.length := by
  unfold readRecord at h
  split at h
  · rename_i version recordType id₁ id₀ length₁ length₀ paddingLength reserved body
    dsimp only at h
    split at h
    · rw [Option.some.injEq, Prod.mk.injEq] at h
      rw [← h.2, List.length_drop]
      simp only [List.length_cons]
      omega
    · cases h
  · cases h

/-- The reader of records. -/
def recordReader : ItemReader UInt8 FcgiRecord := ⟨readRecord, readRecord_shorter⟩

/-- A record is read back, whatever comes behind it. -/
theorem read_encode_append (record : FcgiRecord) (rest : Bytes) :
    recordReader.read (record.encode ++ rest) = some (record, rest) := by
  have hid : UInt16.ofNat (u16FromBe (UInt8.ofNat (record.requestId.toNat / 256))
      (UInt8.ofNat (record.requestId.toNat % 256))) = record.requestId := by
    have hlt := record.requestId.toNat_lt
    rw [u16FromBe_u16ToBe (by omega), UInt16.ofNat_toNat]
  have hcontent := u16FromBe_u16ToBe record.content_le
  have hpadding : (UInt8.ofNat record.padding.length).toNat = record.padding.length := by
    have hle := record.padding_le
    rw [UInt8.toNat_ofNat']
    omega
  have hbytes : record.encode ++ rest =
      record.version :: record.recordType :: UInt8.ofNat (record.requestId.toNat / 256) ::
        UInt8.ofNat (record.requestId.toNat % 256) :: UInt8.ofNat (record.content.length / 256) ::
          UInt8.ofNat (record.content.length % 256) :: UInt8.ofNat record.padding.length ::
            record.reserved :: (record.content ++ record.padding ++ rest) := rfl
  have hle : record.content.length + record.padding.length ≤
      (record.content ++ record.padding ++ rest).length := by
    rw [List.length_append, List.length_append]
    omega
  have hrest : (record.content ++ record.padding ++ rest).drop
      (record.content.length + record.padding.length) = rest :=
    List.drop_left' List.length_append
  rw [hbytes, show recordReader.read = readRecord from rfl, readRecord]
  simp only [hid, hcontent, hpadding]
  rw [if_pos hle, hrest]
  simp only [List.append_assoc, List.take_left, List.drop_left]

/-! ## Constructed records -/

/-- The padding completes the content to a multiple of 8 bytes. -/
theorem paddingLength_spec (contentLength : Nat) :
    8 ∣ contentLength + paddingLength contentLength ∧ paddingLength contentLength ≤ 7 := by
  have hlt := Nat.mod_lt contentLength (show 0 < 8 by decide)
  rw [paddingLength]
  split
  · rename_i hzero
    exact ⟨by omega, by omega⟩
  · rename_i hremainder
    have hne : contentLength % 8 ≠ 0 := fun h => hremainder h
    exact ⟨by omega, by omega⟩

/-- A record of this type for request 1, padded to a multiple of 8 bytes. -/
structure WellFormed (recordType : UInt8) (record : FcgiRecord) : Prop where
  version : record.version = 1
  recordType : record.recordType = recordType
  requestId : record.requestId = 1
  padded : 8 ∣ record.content.length + record.padding.length

/-- The record that is constructed for a content that is not too long. -/
def recordOf (recordType : UInt8) (content : Bytes) (hcontent : content.length ≤ 65535) : FcgiRecord where
  version := 1
  recordType := recordType
  requestId := 1
  reserved := 0
  content := content
  padding := List.replicate (paddingLength content.length) 0
  content_le := hcontent
  padding_le := by
    rw [List.length_replicate]
    exact (paddingLength_spec content.length).2.trans (by decide)

theorem wellFormed_recordOf (recordType : UInt8) (content : Bytes) (hcontent : content.length ≤ 65535) :
    WellFormed recordType (recordOf recordType content hcontent) := by
  refine ⟨rfl, rfl, rfl, ?_⟩
  change 8 ∣ content.length + (List.replicate (paddingLength content.length) (0 : UInt8)).length
  rw [List.length_replicate]
  exact (paddingLength_spec content.length).1

theorem constructFastcgiRecord_eq (recordType : UInt8) {content : Bytes}
    (hcontent : content.length ≤ 65535) :
    constructFastcgiRecord recordType 1 content = (recordOf recordType content hcontent).encode := by
  have hlength : content.length % 65536 = content.length := Nat.mod_eq_of_lt (by omega)
  have hpadding : (recordOf recordType content hcontent).padding.length =
      paddingLength content.length := List.length_replicate
  rw [constructFastcgiRecord, FcgiRecord.encode, FcgiRecord.header, hpadding,
    hlength]
  rfl

/-- What is written for a list of contents is read back as the list of their records. -/
theorem readAll_encodeAll (records : List FcgiRecord) :
    recordReader.readAll (encodeAll records) = some records :=
  ItemReader.readAll_flatMap fun record _ => read_encode_append record

/-- The records for contents that are not too long. -/
theorem exists_records (recordType : UInt8) (contents : List Bytes)
    (hcontents : ∀ content ∈ contents, content.length ≤ 65535) :
    ∃ records : List FcgiRecord,
      contents.flatMap (constructFastcgiRecord recordType 1) = encodeAll records ∧
        records.map FcgiRecord.content = contents ∧
          ∀ record ∈ records, WellFormed recordType record := by
  induction contents with
  | nil => exact ⟨[], rfl, rfl, List.forall_mem_nil _⟩
  | cons content contents ih =>
      obtain ⟨hcontent, hcontents⟩ := List.forall_mem_cons.1 hcontents
      obtain ⟨records, hbytes, hmap, hrecords⟩ := ih hcontents
      refine ⟨recordOf recordType content hcontent :: records, ?_, ?_, ?_⟩
      · rw [List.flatMap_cons, hbytes, constructFastcgiRecord_eq recordType hcontent, encodeAll,
          encodeAll, List.flatMap_cons]
      · rw [List.map_cons, hmap]
        rfl
      · exact List.forall_mem_cons.2
          ⟨wellFormed_recordOf recordType content hcontent, hrecords⟩

/-! ## The encoder of the request body -/

/-- The records are STDIN records for this body: one that is empty for an empty body, else records that
are not empty. -/
structure StdinRecords (item : Bytes) (records : List FcgiRecord) : Prop where
  contents : records.flatMap FcgiRecord.content = item
  wellFormed : ∀ record ∈ records, WellFormed 5 record
  lengths : item ≠ [] → ∀ record ∈ records,
    1 ≤ record.content.length ∧ record.content.length ≤ 65535
  single : item = [] → ∃ record, records = [record] ∧ record.content = []

theorem encodeLoop_of_ne_nil {item : Bytes} (hitem : item ≠ []) (offset : Nat) (firstWritten : Bool) :
    FcgiEncoder.encodeLoop item offset firstWritten =
      (chunksFrom 65535 item offset).flatMap (constructFastcgiRecord 5 1) := by
  induction hmeasure : item.length - offset using Nat.strong_induction_on
    generalizing offset firstWritten with
  | _ measure ih =>
      rw [FcgiEncoder.encodeLoop, chunksFrom]
      by_cases hmore : offset < item.length
      · rw [dif_pos (Or.inl hmore), dif_pos ⟨by decide, hmore⟩, List.flatMap_cons]
        dsimp only
        rw [ih _ (by omega) _ _ rfl]
      · have hnot : ¬ (offset < item.length ∨ item = [] ∧ firstWritten = false) := by
          rintro (h | ⟨h, -⟩)
          · exact hmore h
          · exact hitem h
        rw [dif_neg hnot, dif_neg fun h => hmore h.2]
        rfl

theorem encodeLoop_nil : FcgiEncoder.encodeLoop [] 0 false = constructFastcgiRecord 5 1 [] := by
  have hdone : FcgiEncoder.encodeLoop [] 0 true = [] := by
    rw [FcgiEncoder.encodeLoop]
    exact dif_neg (by decide)
  rw [FcgiEncoder.encodeLoop, dif_pos (Or.inr ⟨rfl, rfl⟩)]
  change constructFastcgiRecord 5 1 [] ++ FcgiEncoder.encodeLoop [] 0 true = _
  rw [hdone, List.append_nil]

/-- Whatever the body is, what is written are STDIN records for it, and they are read back. -/
theorem encode_readAll (item dst : Bytes) : ∃ records : List FcgiRecord,
    FcgiEncoder.encode item dst = dst ++ encodeAll records ∧
      recordReader.readAll (encodeAll records) = some records ∧ StdinRecords item records := by
  by_cases hitem : item = []
  · subst hitem
    refine ⟨[recordOf 5 [] (by decide)], ?_, readAll_encodeAll _, ?_⟩
    · rw [FcgiEncoder.encode, encodeLoop_nil]
      rfl
    · exact
        { contents := rfl
          wellFormed := by
            intro record hrecord
            rw [List.mem_singleton.1 hrecord]
            exact wellFormed_recordOf 5 [] _
          lengths := fun h => absurd rfl h
          single := fun _ => ⟨_, rfl, rfl⟩ }
  · have hlengths : ∀ chunk ∈ chunksFrom 65535 item 0, chunk ≠ [] ∧ chunk.length ≤ 65535 :=
      fun chunk hchunk => length_of_mem_chunksFrom hchunk
    obtain ⟨records, hbytes, hmap, hrecords⟩ := exists_records 5 (chunksFrom 65535 item 0)
      fun chunk hchunk => (hlengths chunk hchunk).2
    refine ⟨records, ?_, readAll_encodeAll records, ?_⟩
    · rw [FcgiEncoder.encode, encodeLoop_of_ne_nil hitem, hbytes]
    · have hcontent : ∀ record ∈ records, record.content ≠ [] ∧ record.content.length ≤ 65535 := by
        intro record hrecord
        apply hlengths
        rw [← hmap]
        exact List.mem_map_of_mem hrecord
      exact
        { contents := by
            rw [List.flatMap_def, hmap, flatten_chunksFrom (by decide), List.drop_zero]
          wellFormed := hrecords
          lengths := fun _ record hrecord =>
            ⟨List.length_pos_iff.2 (hcontent record hrecord).1, (hcontent record hrecord).2⟩
          single := fun h => absurd h hitem }

end Ferron.Modules.Fcgi
