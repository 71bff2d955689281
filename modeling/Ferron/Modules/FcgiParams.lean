import Ferron.Modules.FcgiRecords
import Ferron.Rust.LinkedHashMap

/-!
# The parameters of a FastCGI request

`execute_fastcgi` encodes the environment variables as name-value pairs, one behind the other, and cuts
the result into PARAMS records. A chunk may have 65536 bytes, one more than a record can have. Of such a
chunk the record tells the length 0, which ends the parameters.

`paramsPackets_roundTrip_iff` says for which environments the application reads what was written.
-/

set_option autoImplicit false

namespace Ferron.Modules.Fcgi

open Ferron.Lib.Framing

/-! ## The model -/

/-- `as_bytes`. -/
def asBytes (text : Str) : Bytes := text.flatMap String.utf8EncodeChar

/-- `u32::to_be_bytes`. -/
def u32ToBe (n : Nat) : Bytes := FcgiRecord.u16ToBe (n / 65536) ++ FcgiRecord.u16ToBe (n % 65536)

/-- The length of a name or of a value. -/
def lengthBytes (length : Nat) : Bytes :=
  if length < 128 then [UInt8.ofNat length]
  else u32ToBe (length % 2 ^ 32 ||| 0x80000000)

/-- `construct_fastcgi_name_value_pair`. -/
def constructFastcgiNameValuePair (name value : Bytes) : Bytes :=
  lengthBytes name.length ++ lengthBytes value.length ++ name ++ value

/-- The pairs of the environment, encoded. -/
def environmentVariablesToWrap (environmentVariables : LinkedHashMap Str Str) : Bytes :=
  environmentVariables.entries.flatMap fun entry =>
    constructFastcgiNameValuePair (asBytes entry.1) (asBytes entry.2)

/-- The loop that sends PARAMS records. -/
def paramsLoop (toWrap : Bytes) (offset : Nat) : Bytes :=
  if _h : offset < toWrap.length then
    let chunkSize := min 65536 (toWrap.length - offset)
    let chunk := (toWrap.drop offset).take chunkSize
    constructFastcgiRecord 4 1 chunk ++ paramsLoop toWrap (offset + chunkSize)
  else []
  termination_by toWrap.length - offset

/-- The PARAMS records that `execute_fastcgi` sends. -/
def paramsPackets (environmentVariables : LinkedHashMap Str Str) : Bytes :=
  let toWrap := environmentVariablesToWrap environmentVariables
  (if toWrap ≠ [] then paramsLoop toWrap 0 else []) ++ constructFastcgiRecord 4 1 []

/-! ## Reading as the specification says -/

/-- Reads the rest of a length of 4 bytes. -/
def readLongLength (b₀ : UInt8) : Bytes → Option (Nat × Bytes)
  | b₁ :: b₂ :: b₃ :: rest => some (u32FromBe b₀ b₁ b₂ b₃ - 2 ^ 31, rest)
  | _ => none

/-- Reads a length of 1 or 4 bytes. -/
def readLength : Bytes → Option (Nat × Bytes)
  | b₀ :: rest => if b₀.toNat < 128 then some (b₀.toNat, rest) else readLongLength b₀ rest
  | [] => none

/-- Reads a name-value pair. -/
def readPair (input : Bytes) : Option ((Bytes × Bytes) × Bytes) :=
  match readLength input with
  | none => none
  | some (nameLength, input) =>
      match readLength input with
      | none => none
      | some (valueLength, input) =>
          if nameLength + valueLength ≤ input.length then
            some ((input.take nameLength, (input.drop nameLength).take valueLength),
              input.drop (nameLength + valueLength))
          else none

theorem readLength_shorter {input rest : Bytes} {length : Nat}
    (h : readLength input = some (length, rest)) : rest.length < input.length := by
  unfold readLength at h
  split at h
  · split at h
    · rw [Option.some.injEq, Prod.mk.injEq] at h
      rw [← h.2]
      exact Nat.lt_succ_self _
    · unfold readLongLength at h
      split at h
      · rw [Option.some.injEq, Prod.mk.injEq] at h
        rw [← h.2]
        simp only [List.length_cons]
        omega
      · cases h
  · cases h

theorem readPair_shorter {input rest : Bytes} {pair : Bytes × Bytes}
    (h : readPair input = some (pair, rest)) : rest.length < input.length := by
  rw [readPair] at h
  cases hname : readLength input with
  | none =>
      rw [hname] at h
      cases h
  | some afterName =>
      rw [hname] at h
      dsimp only at h
      have hshorter := readLength_shorter hname
      cases hvalue : readLength afterName.2 with
      | none =>
          rw [hvalue] at h
          cases h
      | some afterValue =>
          rw [hvalue] at h
          dsimp only at h
          have hshorter' := readLength_shorter hvalue
          split at h
          · rw [Option.some.injEq, Prod.mk.injEq] at h
            rw [← h.2, List.length_drop]
            omega
          · cases h

/-- The reader of name-value pairs. -/
def pairReader : ItemReader UInt8 (Bytes × Bytes) := ⟨readPair, readPair_shorter⟩

/-- The pairs in a stream of PARAMS records: those in the contents up to the empty record. -/
def decodeParams (input : Bytes) : Option (List (Bytes × Bytes)) :=
  (recordReader.readAll input).bind fun records =>
    pairReader.readAll
      ((records.takeWhile fun record => record.content ≠ []).flatMap FcgiRecord.content)

/-- The environment is read back, from records of which only the last one is empty. -/
structure RoundTrip (environmentVariables : LinkedHashMap Str Str) : Prop where
  decoded : decodeParams (paramsPackets environmentVariables) =
    some (environmentVariables.entries.map fun entry => (asBytes entry.1, asBytes entry.2))
  onlyLastEmpty : ∃ records last,
    recordReader.readAll (paramsPackets environmentVariables) = some (records ++ [last]) ∧
      (∀ record ∈ records, record.content ≠ [] ∧ record.content.length ≤ 65535) ∧ last.content = [] ∧
        ∀ record ∈ records ++ [last], WellFormed 4 record

/-! ## Name-value pairs -/

theorem lor_eq_add {length : Nat} (h : length < 2 ^ 31) :
    length % 2 ^ 32 ||| 0x80000000 = 2 ^ 31 + length := by
  rw [Nat.mod_eq_of_lt (by omega), Nat.or_comm]
  exact (Nat.two_pow_add_eq_or_of_lt h 1).symm

theorem u32FromBe_u32ToBe {n : Nat} (h : n < 2 ^ 32) :
    ∃ b₀ b₁ b₂ b₃, u32ToBe n = [b₀, b₁, b₂, b₃] ∧ u32FromBe b₀ b₁ b₂ b₃ = n ∧
      b₀.toNat = n / 2 ^ 24 := by
  refine ⟨_, _, _, _, rfl, ?_, ?_⟩
  · rw [u32FromBe, u16FromBe_u16ToBe (by omega), u16FromBe_u16ToBe (by omega)]
    omega
  · rw [UInt8.toNat_ofNat']
    omega

/-- A length is read back. -/
theorem readLength_lengthBytes {length : Nat} (h : length < 2 ^ 31) (rest : Bytes) :
    readLength (lengthBytes length ++ rest) = some (length, rest) := by
  rw [lengthBytes]
  by_cases hshort : length < 128
  · have hbyte : (UInt8.ofNat length).toNat = length := by
      rw [UInt8.toNat_ofNat']
      omega
    rw [if_pos hshort, List.singleton_append, readLength, hbyte, if_pos hshort]
  · obtain ⟨b₀, b₁, b₂, b₃, hbytes, hvalue, hfirst⟩ :=
      @u32FromBe_u32ToBe (2 ^ 31 + length) (by omega)
    have hlong : ¬ b₀.toNat < 128 := by
      rw [hfirst]
      omega
    rw [if_neg hshort, lor_eq_add h, hbytes]
    change readLength (b₀ :: b₁ :: b₂ :: b₃ :: rest) = _
    rw [readLength, if_neg hlong, readLongLength, hvalue, Nat.add_sub_cancel_left]

/-- A pair is read back, whatever comes behind it. -/
theorem readPair_construct {name value : Bytes} (hname : name.length < 2 ^ 31)
    (hvalue : value.length < 2 ^ 31) (rest : Bytes) :
    pairReader.read (constructFastcgiNameValuePair name value ++ rest) = some ((name, value), rest) := by
  have hbytes : constructFastcgiNameValuePair name value ++ rest =
      lengthBytes name.length ++ (lengthBytes value.length ++ (name ++ value ++ rest)) := by
    rw [constructFastcgiNameValuePair]
    simp only [List.append_assoc]
  have hle : name.length + value.length ≤ (name ++ value ++ rest).length := by
    rw [List.length_append, List.length_append]
    omega
  rw [hbytes, show pairReader.read = readPair from rfl, readPair, readLength_lengthBytes hname]
  dsimp only
  rw [readLength_lengthBytes hvalue]
  dsimp only
  rw [if_pos hle, List.drop_left' List.length_append, List.append_assoc, List.take_left,
    List.drop_left, List.take_left]

/-! ## How long the encoded environment is -/

/-- The size of a length. -/
def lengthSize (length : Nat) : Nat := if length < 128 then 1 else 4

/-- The size of a pair. -/
def pairSize (entry : Str × Str) : Nat :=
  lengthSize (asBytes entry.1).length + lengthSize (asBytes entry.2).length +
    (asBytes entry.1).length + (asBytes entry.2).length

/-- The size of all pairs. -/
def encodedSize (environmentVariables : LinkedHashMap Str Str) : Nat :=
  (environmentVariables.entries.map pairSize).sum

theorem length_lengthBytes (length : Nat) : (lengthBytes length).length = lengthSize length := by
  rw [lengthBytes, lengthSize]
  split
  · rfl
  · rfl

theorem length_environmentVariablesToWrap (environmentVariables : LinkedHashMap Str Str) :
    (environmentVariablesToWrap environmentVariables).length = encodedSize environmentVariables := by
  rw [environmentVariablesToWrap, List.length_flatMap, encodedSize]
  congr 1
  apply List.map_congr_left
  intro entry _
  rw [constructFastcgiNameValuePair, List.length_append, List.length_append, List.length_append,
    length_lengthBytes, length_lengthBytes, pairSize]

/-- When all pairs together are short, so is each name and each value. -/
theorem length_lt_of_encodedSize {environmentVariables : LinkedHashMap Str Str}
    (hsize : encodedSize environmentVariables ≤ 65535) {entry : Str × Str}
    (hentry : entry ∈ environmentVariables.entries) :
    (asBytes entry.1).length < 2 ^ 31 ∧ (asBytes entry.2).length < 2 ^ 31 := by
  have hle : pairSize entry ≤ encodedSize environmentVariables :=
    List.le_sum_of_mem (List.mem_map_of_mem hentry)
  rw [pairSize] at hle
  exact ⟨by omega, by omega⟩

/-! ## A short environment is read back -/

section Short

variable {environmentVariables : LinkedHashMap Str Str}
  (hsize : encodedSize environmentVariables ≤ 65535)

include hsize

theorem readAll_environmentVariablesToWrap :
    pairReader.readAll (environmentVariablesToWrap environmentVariables) =
      some (environmentVariables.entries.map fun entry => (asBytes entry.1, asBytes entry.2)) := by
  have hflat : environmentVariablesToWrap environmentVariables =
      (environmentVariables.entries.map fun entry => (asBytes entry.1, asBytes entry.2)).flatMap
        fun pair => constructFastcgiNameValuePair pair.1 pair.2 := by
    rw [environmentVariablesToWrap, List.flatMap_map]
  rw [hflat]
  apply ItemReader.readAll_flatMap
  intro pair hpair rest
  obtain ⟨entry, hentry, rfl⟩ := List.mem_map.1 hpair
  obtain ⟨hname, hvalue⟩ := length_lt_of_encodedSize hsize hentry
  exact readPair_construct hname hvalue rest

omit hsize in
theorem paramsLoop_eq (toWrap : Bytes) (offset : Nat) :
    paramsLoop toWrap offset =
      (chunksFrom 65536 toWrap offset).flatMap (constructFastcgiRecord 4 1) := by
  induction hmeasure : toWrap.length - offset using Nat.strong_induction_on generalizing offset with
  | _ measure ih =>
      rw [paramsLoop, chunksFrom]
      by_cases hmore : offset < toWrap.length
      · rw [dif_pos hmore, dif_pos ⟨by decide, hmore⟩, List.flatMap_cons]
        dsimp only
        rw [ih _ (by omega) _ rfl]
      · rw [dif_neg hmore, dif_neg fun h => hmore h.2]
        rfl

omit hsize in
theorem paramsPackets_eq (environmentVariables : LinkedHashMap Str Str) :
    paramsPackets environmentVariables =
      (chunksFrom 65536 (environmentVariablesToWrap environmentVariables) 0).flatMap
          (constructFastcgiRecord 4 1) ++
        constructFastcgiRecord 4 1 [] := by
  rw [paramsPackets]
  by_cases hempty : environmentVariablesToWrap environmentVariables = []
  · rw [if_neg (not_not_intro hempty), hempty, ← paramsLoop_eq, paramsLoop,
      dif_neg (show ¬ 0 < ([] : Bytes).length from Nat.lt_irrefl 0)]
  · rw [if_pos hempty, paramsLoop_eq]

/-- The records are those of the chunks, none of which is empty, and the empty one behind them. -/
theorem exists_params :
    ∃ records : List FcgiRecord, paramsPackets environmentVariables =
        encodeAll (records ++ [recordOf 4 [] (Nat.zero_le _)]) ∧
      (∀ record ∈ records, WellFormed 4 record ∧ record.content ≠ []) ∧
        records.flatMap FcgiRecord.content = environmentVariablesToWrap environmentVariables := by
  have hchunks : ∀ chunk ∈ chunksFrom 65536 (environmentVariablesToWrap environmentVariables) 0,
      chunk ≠ [] ∧ chunk.length ≤ 65535 := by
    intro chunk hchunk
    refine ⟨(length_of_mem_chunksFrom hchunk).1, le_trans ?_ hsize⟩
    rw [← length_environmentVariablesToWrap,
      ← List.drop_zero (l := environmentVariablesToWrap environmentVariables),
      ← flatten_chunksFrom (show 0 < 65536 by decide)]
    exact (List.sublist_flatten_of_mem hchunk).length_le
  obtain ⟨records, hbytes, hmap, hrecords⟩ := exists_records 4 _ fun chunk hchunk => (hchunks chunk hchunk).2
  refine ⟨records, ?_, ?_, ?_⟩
  · rw [paramsPackets_eq, hbytes, constructFastcgiRecord_eq 4 (Nat.zero_le _), encodeAll, encodeAll,
      List.flatMap_append, List.flatMap_singleton]
  · intro record hrecord
    refine ⟨hrecords record hrecord, (hchunks record.content ?_).1⟩
    rw [← hmap]
    exact List.mem_map_of_mem hrecord
  · rw [List.flatMap_def, hmap, flatten_chunksFrom (by decide), List.drop_zero]

theorem roundTrip_of_encodedSize_le : RoundTrip environmentVariables := by
  obtain ⟨records, hbytes, hrecords, hcontents⟩ := exists_params hsize
  have hread : recordReader.readAll (paramsPackets environmentVariables) =
      some (records ++ [recordOf 4 [] (Nat.zero_le _)]) := by
    rw [hbytes, readAll_encodeAll]
  refine ⟨?_, records, _, hread, ?_, rfl, ?_⟩
  · have htake : (records ++ [recordOf 4 [] (Nat.zero_le _)]).takeWhile
        (fun record => record.content ≠ []) = records := by
      rw [List.takeWhile_append_of_pos fun record hrecord => decide_eq_true (hrecords record hrecord).2]
      exact List.append_nil records
    rw [decodeParams, hread, Option.bind_some, htake, hcontents]
    exact readAll_environmentVariablesToWrap hsize
  · exact fun record hrecord => ⟨(hrecords record hrecord).2, record.content_le⟩
  · intro record hrecord
    rcases List.mem_append.1 hrecord with hmem | hlast
    · exact (hrecords record hmem).1
    · rw [List.mem_singleton.1 hlast]
      exact wellFormed_recordOf 4 [] _

end Short

/-! ## A long environment is not -/

/-- Of a chunk of 65536 bytes the record tells the length 0. -/
theorem constructFastcgiRecord_long {content : Bytes} (hcontent : content.length = 65536) :
    constructFastcgiRecord 4 1 content = (recordOf 4 [] (Nat.zero_le _)).encode ++ content := by
  have hlength : content.length % 65536 = 0 := by rw [hcontent]
  rw [constructFastcgiRecord, hlength]
  exact List.append_nil _

/-- The parameters end at the first record. -/
theorem decodeParams_long {environmentVariables : LinkedHashMap Str Str}
    (hsize : 65535 < encodedSize environmentVariables) :
    decodeParams (paramsPackets environmentVariables) = none ∨
      decodeParams (paramsPackets environmentVariables) = some [] := by
  rw [← length_environmentVariablesToWrap] at hsize
  obtain ⟨chunks, hchunks⟩ := @chunksFrom_eq_cons _ 65536 (by decide)
    (environmentVariablesToWrap environmentVariables) 0 (by omega)
  have hfirst : (((environmentVariablesToWrap environmentVariables).drop 0).take 65536).length =
      65536 := by
    rw [List.length_take, List.drop_zero]
    omega
  rw [decodeParams, paramsPackets_eq, hchunks, List.flatMap_cons, constructFastcgiRecord_long hfirst,
    List.append_assoc, List.append_assoc, ItemReader.readAll_of_read (read_encode_append _ _)]
  cases recordReader.readAll _ with
  | none => exact Or.inl rfl
  | some records => exact Or.inr pairReader.readAll_nil

theorem not_roundTrip_of_long {environmentVariables : LinkedHashMap Str Str}
    (hlong : 65535 < encodedSize environmentVariables) : ¬ RoundTrip environmentVariables := by
  intro h
  have hempty : environmentVariables.entries = [] := by
    rcases decodeParams_long hlong with hnone | hnil
    · rw [h.decoded] at hnone
      cases hnone
    · rw [h.decoded, Option.some.injEq, List.map_eq_nil_iff] at hnil
      exact hnil
  rw [encodedSize, hempty] at hlong
  exact absurd hlong (by decide)

/-- The application reads the environment that was written exactly when all pairs together have at most
65535 bytes. -/
theorem paramsPackets_roundTrip_iff (environmentVariables : LinkedHashMap Str Str) :
    RoundTrip environmentVariables ↔ encodedSize environmentVariables ≤ 65535 := by
  constructor
  · intro h
    by_contra hlong
    exact not_roundTrip_of_long (Nat.lt_of_not_le hlong) h
  · exact roundTrip_of_encodedSize_le

/-- One variable, with a value of this many characters. -/
def longVariable (length : Nat) : LinkedHashMap Str Str :=
  ⟨[(['A'], List.replicate length 'B')], List.nodup_singleton _⟩

theorem length_asBytes_replicate (length : Nat) :
    (asBytes (List.replicate length 'B')).length = length := by
  rw [asBytes, List.length_flatMap, List.map_replicate, List.sum_replicate,
    show (String.utf8EncodeChar 'B').length = 1 from rfl, smul_eq_mul, Nat.mul_one]

theorem encodedSize_longVariable (length : Nat) :
    encodedSize (longVariable length) = lengthSize 1 + lengthSize length + 1 + length := by
  rw [encodedSize, longVariable, List.map_singleton, List.sum_singleton, pairSize,
    length_asBytes_replicate]
  rfl

theorem length_longVariable {length : Nat} (hlength : length < 2 ^ 31) :
    ∀ entry ∈ (longVariable length).entries,
      (asBytes entry.1).length < 2 ^ 31 ∧ (asBytes entry.2).length < 2 ^ 31 := by
  intro entry hentry
  rw [List.mem_singleton.1 hentry, length_asBytes_replicate]
  exact ⟨show (asBytes ['A']).length < 2 ^ 31 by decide, hlength⟩

/-- The value needs no more than the 65536 bytes of a chunk. -/
theorem longVariable_not_roundTrip : ¬ ∀ environmentVariables : LinkedHashMap Str Str,
    (∀ entry ∈ environmentVariables.entries,
      (asBytes entry.1).length < 2 ^ 31 ∧ (asBytes entry.2).length < 2 ^ 31) →
        RoundTrip environmentVariables := by
  intro h
  refine not_roundTrip_of_long ?_ (h (longVariable 65536) (length_longVariable (by decide)))
  rw [encodedSize_longVariable]
  omega

end Ferron.Modules.Fcgi
