import Ferron.Common.HeaderPlaceholders
import Ferron.Common.Hostname
import Ferron.Config.Kdl

/-!
# The host that a request asks for

The host of a request is its `Host` header, or over HTTP/2 and HTTP/3 the authority of its target when
there is no such header. Before the lookup of the configuration it is written in lower case and loses a
dot at its end, and then what follows the last colon when that is a port.

The dot is looked for at the end of the whole value, so that it stays before a port:
`lookupHostname_eq_iff` says which spellings of a host are taken for the same.
-/

set_option autoImplicit false

namespace Ferron.HostLookup

open Ferron.Http Ferron.Common Ferron.Config

/-! ## The request handler up to the lookup -/

/-- `header::HOST`. -/
def host : HeaderName := "host".toList

/-- The "Host" header for HTTP/2 and HTTP/3 connections. -/
def setHost (request : Parts) : Parts :=
  match request.version, request.authority with
  | .http2, some authority | .http3, some authority =>
      if request.headers.containsKey host then request
      else
        match headerValue authority with
        | some authorityValue => { request with headers := request.headers ++ [(host, authorityValue)] }
        | none => request
  | _, _ => request

/-- The "Host" header without upper case letters and without a dot at its end. A header that cannot be
read is a bad request. What can be read is ASCII, so that `lowerName` is `to_lowercase`. -/
def sanitizeHost (request : Parts) : Except Nat Parts :=
  match request.headers.get host with
  | none => .ok request
  | some headerData =>
      match toStr headerData with
      | none => .error 400
      | some hostHeader =>
          let hostHeaderWithoutDot := stripSuffix '.' (lowerName hostHeader)
          if hostHeaderWithoutDot ≠ hostHeader then
            match headerValue hostHeaderWithoutDot with
            | some hostHeaderValue =>
                .ok { request with headers := request.headers.insert host hostHeaderValue }
            | none => .error 400
          else .ok request

/-- `hostname_determinant`. -/
def hostnameDeterminant (request : Parts) : Option Str :=
  ((request.headers.get host).bind toStr).map fun h =>
    match rsplitOnce ':' h with
    | some (left, right) => if (parseU16 right).isSome then left else h
    | none => h

/-- The hostname that the configuration of a request is looked for with, or the status code of an error
response. -/
def lookupHostname (request : Parts) : Except Nat (Option Str) := do
  let request ← sanitizeHost (setHost request)
  pure (hostnameDeterminant request)

/-! ## Spellings of a host -/

/-- A character that a header value can be read with. -/
def IsVisible (c : Char) : Prop := 0x20 ≤ c.toNat ∧ c.toNat < 0x7f ∨ c = '\t'

instance (c : Char) : Decidable (IsVisible c) := inferInstanceAs (Decidable (_ ∨ _))

/-- A host as it is written in a request: a name that ends neither in a dot nor in a port, perhaps a dot,
and perhaps a port. -/
structure Spelling where
  name : Str
  dot : Bool
  port : Option Str
  name_visible : ∀ c ∈ name, IsVisible c
  name_no_dot : name.getLast? ≠ some '.'
  name_no_port : ∀ left right, name = left ++ ':' :: right → parseU16 right = none
  port_reads : ∀ p ∈ port, (parseU16 p).isSome = true

namespace Spelling

/-- The name with the dot. -/
def dotted (s : Spelling) : Str := if s.dot then s.name ++ ['.'] else s.name

/-- The host as it is written. -/
def text (s : Spelling) : Str :=
  match s.port with
  | some port => s.dotted ++ ':' :: port
  | none => s.dotted

/-- Two spellings of the same host: the names differ in the case of letters only. -/
def SameHost (s t : Spelling) : Prop := lowerName s.name = lowerName t.name

instance (s t : Spelling) : Decidable (s.SameHost t) := inferInstanceAs (Decidable (_ = _))

/-- There is a dot before an explicit port. -/
def DotBeforePort (s : Spelling) : Prop := s.dot = true ∧ s.port.isSome = true

instance (s : Spelling) : Decidable s.DotBeforePort := inferInstanceAs (Decidable (_ ∧ _))

/-- A request asks for a host in this spelling, in its `Host` header or in the authority. -/
def AskedBy (s : Spelling) (request : Parts) : Prop :=
  request.headers.get host = some (asciiBytes s.text) ∨
    request.headers.containsKey host = false ∧ (request.version = .http2 ∨ request.version = .http3) ∧
      request.authority = some s.text

end Spelling

/-! ## Texts -/

theorem rsplitOnce_append {separator : Char} (left : Str) {right : Str} (h : separator ∉ right) :
    rsplitOnce separator (left ++ separator :: right) = some (left, right) := by
  have hback : (left ++ separator :: right).reverse.takeWhile (· ≠ separator) = right.reverse := by
    rw [List.reverse_append, List.reverse_cons, List.append_assoc, List.singleton_append,
      List.takeWhile_append_of_pos]
    · rw [List.takeWhile_cons_of_neg (by simp), List.append_nil]
    · intro c hc
      rw [decide_eq_true_eq]
      rintro rfl
      exact h (List.mem_reverse.1 hc)
  rw [rsplitOnce, hback]
  simp only [List.reverse_reverse, List.length_append, List.length_cons]
  rw [if_pos (by omega), Nat.add_sub_cancel, List.take_left]

/-- A text is split at the last separator. -/
theorem exists_rsplitOnce {separator : Char} {s : Str} (h : separator ∈ s) :
    ∃ left right, rsplitOnce separator s = some (left, right) ∧ s = left ++ separator :: right := by
  obtain ⟨back, front, hsplit, hnot⟩ := List.eq_append_cons_of_mem (List.mem_reverse.2 h)
  have hs : s = front.reverse ++ separator :: back.reverse := by
    rw [← List.reverse_reverse s, hsplit]
    simp
  refine ⟨front.reverse, back.reverse, ?_, hs⟩
  rw [hs]
  exact rsplitOnce_append front.reverse fun hback => hnot (List.mem_reverse.1 hback)

theorem of_rsplitOnce {separator : Char} {s left right : Str}
    (h : rsplitOnce separator s = some (left, right)) : s = left ++ separator :: right := by
  by_cases hmem : separator ∈ s
  · obtain ⟨front, back, hfound, hs⟩ := exists_rsplitOnce hmem
    rw [hfound] at h
    obtain ⟨rfl, rfl⟩ := Prod.mk.inj (Option.some.inj h)
    exact hs
  · have hall : s.reverse.takeWhile (· ≠ separator) = s.reverse := by
      apply List.takeWhile_eq_self_iff.2
      intro c hc
      rw [decide_eq_true_eq]
      rintro rfl
      exact hmem (List.mem_reverse.1 hc)
    rw [rsplitOnce, hall, if_neg (by simp)] at h
    nomatch h

/-- A port is written in digits behind at most one plus sign. -/
theorem digits_of_parseU16 {port : Str} (h : (parseU16 port).isSome = true) :
    ∃ digits : Str, (port = digits ∨ port = '+' :: digits) ∧ digits ≠ [] ∧
      ∀ c ∈ digits, c.isDigit = true := by
  obtain ⟨digits, hport, hread⟩ : ∃ digits : Str, (port = digits ∨ port = '+' :: digits) ∧
      parseU16 port = if digits.isEmpty || !digits.all Char.isDigit then none
        else
          let n := digits.foldl (fun n c => 10 * n + (c.toNat - '0'.toNat)) 0
          if n < 2 ^ 16 then some (UInt16.ofNat n) else none := by
    unfold parseU16
    split
    · exact ⟨_, Or.inr rfl, rfl⟩
    · exact ⟨_, Or.inl rfl, rfl⟩
  refine ⟨digits, hport, ?_⟩
  cases hbad : digits.isEmpty || !digits.all Char.isDigit with
  | true =>
      rw [hread, hbad, if_pos rfl] at h
      nomatch h
  | false => simpa using hbad

theorem toNat_of_isDigit {c : Char} (h : c.isDigit = true) : 48 ≤ c.toNat ∧ c.toNat < 58 := by
  simp only [Char.isDigit, Bool.and_eq_true, decide_eq_true_eq, UInt32.le_iff_toNat_le] at h
  exact ⟨h.1, Nat.lt_succ_of_le h.2⟩

/-- The characters of a port come before the colon and the letters. -/
theorem toNat_of_mem_port {port : Str} (h : (parseU16 port).isSome = true) :
    ∀ c ∈ port, 0x20 ≤ c.toNat ∧ c.toNat < 58 := by
  obtain ⟨digits, hport, -, hdigits⟩ := digits_of_parseU16 h
  have hdigit : ∀ c ∈ digits, 0x20 ≤ c.toNat ∧ c.toNat < 58 := by
    intro c hc
    have hbounds := toNat_of_isDigit (hdigits c hc)
    omega
  intro c hc
  rcases hport with rfl | rfl
  · exact hdigit c hc
  · rcases List.mem_cons.1 hc with rfl | hc
    · decide
    · exact hdigit c hc

/-- A port ends in a digit. -/
theorem getLast?_port {port : Str} (h : (parseU16 port).isSome = true) :
    ∃ c, port.getLast? = some c ∧ c.isDigit = true := by
  obtain ⟨digits, hport, hne, hdigits⟩ := digits_of_parseU16 h
  refine ⟨digits.getLast hne, ?_, hdigits _ (List.getLast_mem hne)⟩
  rcases hport with rfl | rfl
  · exact List.getLast?_eq_some_getLast hne
  · rw [List.getLast?_cons, List.getLast?_eq_some_getLast hne, Option.getD_some]

/-- A character in lower case is the same or a letter 32 places behind. -/
theorem toLower_or (c : Char) :
    c.toLower = c ∨ 65 ≤ c.toNat ∧ c.toNat ≤ 90 ∧ c.toLower.toNat = c.toNat + 32 := by
  by_cases h : c.val ≥ 'A'.val ∧ c.val ≤ 'Z'.val
  · right
    have hlower : c.toLower = _ := dif_pos h
    obtain ⟨hlow, hhigh⟩ : 65 ≤ c.val.toNat ∧ c.val.toNat ≤ 90 :=
      ⟨UInt32.le_iff_toNat_le.1 h.1, UInt32.le_iff_toNat_le.1 h.2⟩
    refine ⟨hlow, hhigh, ?_⟩
    rw [hlower]
    change (c.val + 32).toNat = c.val.toNat + 32
    rw [UInt32.toNat_add]
    change (c.val.toNat + 32) % 2 ^ 32 = _
    omega
  · exact Or.inl (dif_neg h)

theorem isVisible_toLower {c : Char} (h : IsVisible c) : IsVisible c.toLower := by
  rcases toLower_or c with hsame | ⟨hlow, hhigh, hlower⟩
  · rw [hsame]
    exact h
  · rw [IsVisible, hlower]
    exact Or.inl ⟨by omega, by omega⟩

/-- What is no letter in lower case was the same before. -/
theorem of_toLower_lt {c d : Char} (hd : d.toNat < 97) (h : c.toLower = d) : c = d := by
  rcases toLower_or c with hsame | ⟨hlow, hhigh, hlower⟩
  · rw [← hsame, h]
  · rw [h] at hlower
    omega

theorem isVisibleAscii_ofNat {c : Char} (h : IsVisible c) :
    isVisibleAscii (UInt8.ofNat c.toNat) = true := by
  rcases h with ⟨hlow, hhigh⟩ | rfl
  · have hbyte : (UInt8.ofNat c.toNat).toNat = c.toNat := by
      rw [UInt8.toNat_ofNat']
      omega
    simp only [isVisibleAscii, Bool.or_eq_true, Bool.and_eq_true, decide_eq_true_eq]
    left
    rw [UInt8.le_iff_toNat_le, UInt8.lt_iff_toNat_lt, hbyte]
    exact ⟨hlow, hhigh⟩
  · decide

theorem ofNat_toNat_asciiByte {c : Char} (h : IsVisible c) :
    Char.ofNat (UInt8.ofNat c.toNat).toNat = c := by
  have hlt : c.toNat < 0x7f := by
    rcases h with h | rfl
    · exact h.2
    · decide
  rw [UInt8.toNat_ofNat', Nat.mod_eq_of_lt (by omega), Char.ofNat_toNat]

theorem toStr_asciiBytes {s : Str} (h : ∀ c ∈ s, IsVisible c) : toStr (asciiBytes s) = some s := by
  have hall : (asciiBytes s).all isVisibleAscii = true := by
    apply List.all_eq_true.2
    intro b hb
    obtain ⟨c, hc, rfl⟩ := List.mem_map.1 hb
    exact isVisibleAscii_ofNat (h c hc)
  rw [toStr, if_pos hall, asciiBytes, List.map_map]
  have hmap : s.map ((fun b : UInt8 => Char.ofNat b.toNat) ∘ fun c => UInt8.ofNat c.toNat) = s.map id :=
    List.map_congr_left fun c hc => ofNat_toNat_asciiByte (h c hc)
  rw [hmap, List.map_id]

theorem utf8EncodeChar_eq_asciiByte {c : Char} (h : IsVisible c) :
    String.utf8EncodeChar c = [UInt8.ofNat c.toNat] := by
  have hlt : c.toNat < 0x7f := by
    rcases h with h | rfl
    · exact h.2
    · decide
  have hval : c.val.toNat ≤ 0x7f := Nat.le_of_lt hlt
  rw [String.utf8EncodeChar, if_pos hval]
  rfl

theorem isHeaderByte_of_isVisibleAscii {b : UInt8} (h : isVisibleAscii b = true) :
    isHeaderByte b = true := by
  simp only [isVisibleAscii, isHeaderByte, Bool.or_eq_true, Bool.and_eq_true, decide_eq_true_eq] at h ⊢
  rcases h with ⟨hlow, hhigh⟩ | htab
  · left
    refine ⟨hlow, ?_⟩
    rw [bne_iff_ne]
    rintro rfl
    exact absurd hhigh (by decide)
  · exact Or.inr htab

theorem headerValue_eq_asciiBytes {s : Str} (h : ∀ c ∈ s, IsVisible c) :
    headerValue s = some (asciiBytes s) := by
  have hencoded : s.flatMap String.utf8EncodeChar = asciiBytes s := by
    rw [asciiBytes, List.map_eq_flatMap]
    exact List.flatMap_congr fun c hc => utf8EncodeChar_eq_asciiByte (h c hc)
  have hall : (asciiBytes s).all isHeaderByte = true := by
    apply List.all_eq_true.2
    intro b hb
    obtain ⟨c, hc, rfl⟩ := List.mem_map.1 hb
    exact isHeaderByte_of_isVisibleAscii (isVisibleAscii_ofNat (h c hc))
  rw [headerValue, hencoded]
  exact if_pos hall

theorem getLast?_lowerName (s : Str) : (lowerName s).getLast? = s.getLast?.map Char.toLower :=
  List.getLast?_map

theorem lowerName_append (s t : Str) : lowerName (s ++ t) = lowerName s ++ lowerName t :=
  List.map_append

/-- A port is the same in lower case, and nothing else is it in lower case. -/
theorem lowerName_eq_port_iff {port : Str} (h : (parseU16 port).isSome = true) (s : Str) :
    lowerName s = port ↔ s = port := by
  have hbounds := toNat_of_mem_port h
  constructor
  · intro hs
    have hsame : s.map Char.toLower = s.map id := by
      apply List.map_congr_left
      intro c hc
      have hmem : c.toLower ∈ port := by
        rw [← hs]
        exact List.mem_map_of_mem hc
      exact (of_toLower_lt (Nat.lt_trans (hbounds _ hmem).2 (by decide)) rfl).symm
    rw [lowerName, hsame, List.map_id] at hs
    exact hs
  · rintro rfl
    have hsame : s.map Char.toLower = s.map id := by
      apply List.map_congr_left
      intro c hc
      rcases toLower_or c with hsame | ⟨hlow, -, -⟩
      · exact hsame
      · have hlt := (hbounds c hc).2
        omega
    rw [lowerName, hsame, List.map_id]

/-! ## The lookup of a host in one of its spellings -/

namespace Spelling

variable (s : Spelling)

/-- The hostname that a spelling is looked up with. -/
def lookedFor : Str :=
  if s.DotBeforePort then lowerName s.name ++ ['.'] else lowerName s.name

/-- The text of the header when it is sanitized. -/
def sanitized : Str :=
  match s.port with
  | some port => lowerName s.dotted ++ ':' :: port
  | none => lowerName s.name

theorem dotted_isVisible : ∀ c ∈ s.dotted, IsVisible c := by
  intro c hc
  rw [dotted] at hc
  split at hc
  · rcases List.mem_append.1 hc with hc | hc
    · exact s.name_visible c hc
    · rw [List.mem_singleton.1 hc]
      decide
  · exact s.name_visible c hc

theorem text_isVisible : ∀ c ∈ s.text, IsVisible c := by
  intro c hc
  rw [text] at hc
  split at hc
  · rename_i port hport
    rcases List.mem_append.1 hc with hc | hc
    · exact s.dotted_isVisible c hc
    · rcases List.mem_cons.1 hc with rfl | hc
      · decide
      · have hbounds := toNat_of_mem_port (s.port_reads port hport) c hc
        exact Or.inl ⟨hbounds.1, Nat.lt_trans hbounds.2 (by decide)⟩
  · exact s.dotted_isVisible c hc

theorem lowerName_name_getLast? : (lowerName s.name).getLast? ≠ some '.' := by
  intro hlast
  rw [getLast?_lowerName] at hlast
  obtain ⟨c, hc, hlower⟩ := Option.map_eq_some_iff.1 hlast
  rw [of_toLower_lt (by decide) hlower] at hc
  exact s.name_no_dot hc

/-- Only a dot at the end of the whole text goes away. -/
theorem stripSuffix_text : stripSuffix '.' (lowerName s.text) = s.sanitized := by
  rw [text, sanitized]
  split
  · rename_i port hport
    have hreads := s.port_reads port hport
    have hlower : lowerName (s.dotted ++ ':' :: port) = lowerName s.dotted ++ ':' :: port := by
      rw [lowerName_append]
      change _ ++ ':' :: lowerName port = _
      rw [(lowerName_eq_port_iff hreads port).2 rfl]
    obtain ⟨c, hc, hdigit⟩ := getLast?_port hreads
    rw [hlower, stripSuffix, if_neg]
    rw [List.getLast?_append, List.getLast?_cons, hc, Option.getD_some, Option.some_or, Option.some_inj]
    rintro rfl
    exact absurd hdigit (by decide)
  · rw [dotted]
    split
    · rw [lowerName_append]
      change stripSuffix '.' (lowerName s.name ++ ['.']) = _
      rw [stripSuffix, if_pos List.getLast?_concat, List.dropLast_concat]
    · rw [stripSuffix, if_neg s.lowerName_name_getLast?]

theorem sanitized_isVisible : ∀ c ∈ s.sanitized, IsVisible c := by
  intro c hc
  rw [← stripSuffix_text, stripSuffix] at hc
  have hmem : c ∈ lowerName s.text := by
    split at hc
    · exact List.mem_of_mem_dropLast hc
    · exact hc
  obtain ⟨d, hd, rfl⟩ := List.mem_map.1 hmem
  exact isVisible_toLower (s.text_isVisible d hd)

/-- The name in lower case does not end in a port either. -/
theorem lowerName_name_no_port {left right : Str} (h : lowerName s.name = left ++ ':' :: right) :
    parseU16 right = none := by
  obtain ⟨front, back, hname, rfl, hback⟩ := List.map_eq_append_iff.1 h
  obtain ⟨c, port, rfl, hc, hport⟩ := List.map_eq_cons_iff.1 hback
  rw [of_toLower_lt (by decide) hc] at hname
  cases hread : parseU16 right with
  | none => rfl
  | some n =>
      have hreads : (parseU16 right).isSome = true := by rw [hread]; rfl
      rw [(lowerName_eq_port_iff hreads port).1 hport] at hname
      rw [s.name_no_port _ _ hname] at hread
      nomatch hread

theorem hostnameDeterminant_sanitized {request : Parts}
    (h : request.headers.get host = some (asciiBytes s.sanitized)) :
    hostnameDeterminant request = some s.lookedFor := by
  rw [hostnameDeterminant, h, Option.bind_some, toStr_asciiBytes s.sanitized_isVisible, Option.map_some,
    Option.some_inj, sanitized, lookedFor]
  cases hport : s.port with
  | some port =>
      have hreads := s.port_reads port hport
      have hcolon : ':' ∉ port := fun hmem => absurd (toNat_of_mem_port hreads ':' hmem).2 (by decide)
      dsimp only
      rw [rsplitOnce_append _ hcolon]
      dsimp only
      rw [if_pos hreads, dotted]
      cases hdot : s.dot with
      | true =>
          have hbefore : s.DotBeforePort := ⟨hdot, by rw [hport]; rfl⟩
          rw [if_pos hbefore, if_pos rfl]
          exact lowerName_append _ _
      | false =>
          have hbefore : ¬ s.DotBeforePort := by
            rw [DotBeforePort, hdot]
            exact fun h => Bool.false_ne_true h.1
          rw [if_neg hbefore, if_neg Bool.false_ne_true]
  | none =>
      rw [if_neg (by rw [DotBeforePort, hport]; exact fun hdot => absurd hdot.2 Bool.false_ne_true)]
      dsimp only
      split
      · rename_i left right hsplit
        rw [s.lowerName_name_no_port (of_rsplitOnce hsplit), if_neg (by simp)]
      · rfl

/-- The header that is sanitized is the one of the request, or the authority in its place. -/
theorem get_setHost {request : Parts} (h : s.AskedBy request) :
    (setHost request).headers.get host = some (asciiBytes s.text) := by
  rcases h with hheader | ⟨hnone, hversion, hauthority⟩
  · have hcontains : request.headers.containsKey host = true := by
      rw [HeaderMap.containsKey_iff]
      intro hnil
      rw [HeaderMap.get_eq_head?, hnil] at hheader
      nomatch hheader
    have hsame : setHost request = request := by
      unfold setHost
      split
      · rw [if_pos hcontains]
      · rw [if_pos hcontains]
      · rfl
    rw [hsame]
    exact hheader
  · have hset : setHost request =
        { request with headers := request.headers ++ [(host, asciiBytes s.text)] } := by
      unfold setHost
      rcases hversion with hversion | hversion
      · rw [hversion, hauthority]
        dsimp only
        rw [hnone, if_neg Bool.false_ne_true, headerValue_eq_asciiBytes s.text_isVisible]
      · rw [hversion, hauthority]
        dsimp only
        rw [hnone, if_neg Bool.false_ne_true, headerValue_eq_asciiBytes s.text_isVisible]
    have hfind : request.headers.find? (fun header => decide (header.1 = host)) = none := by
      apply List.find?_eq_none.2
      intro header hheader hname
      have hkey : request.headers.containsKey host = true := List.any_eq_true.2 ⟨header, hheader, hname⟩
      rw [hnone] at hkey
      nomatch hkey
    rw [hset, HeaderMap.get, List.find?_append, hfind]
    rfl

/-- What a spelling is looked up with. -/
theorem lookupHostname_eq {request : Parts} (h : s.AskedBy request) :
    lookupHostname request = .ok (some s.lookedFor) := by
  have hget := s.get_setHost h
  obtain ⟨sanitized, hsanitize, hsanitized⟩ : ∃ sanitized, sanitizeHost (setHost request) = .ok sanitized ∧
      sanitized.headers.get host = some (asciiBytes s.sanitized) := by
    rw [sanitizeHost, hget]
    dsimp only
    rw [toStr_asciiBytes s.text_isVisible]
    dsimp only
    rw [s.stripSuffix_text]
    by_cases hsame : s.sanitized = s.text
    · rw [if_neg (not_not.2 hsame)]
      refine ⟨_, rfl, ?_⟩
      rw [hsame]
      exact hget
    · rw [if_pos hsame, headerValue_eq_asciiBytes s.sanitized_isVisible]
      refine ⟨_, rfl, ?_⟩
      rw [HeaderMap.get_eq_head?, HeaderMap.getAll_insert, if_pos rfl]
      rfl
  rw [lookupHostname, hsanitize]
  exact congrArg Except.ok (s.hostnameDeterminant_sanitized hsanitized)

end Spelling

open Spelling

/-- Two spellings of the same host are looked up with the same hostname exactly when both or none of them
have a dot before a port. -/
theorem lookupHostname_eq_iff {request other : Parts} {s t : Spelling} (hsame : s.SameHost t)
    (hs : s.AskedBy request) (ht : t.AskedBy other) :
    lookupHostname request = lookupHostname other ↔ (s.DotBeforePort ↔ t.DotBeforePort) := by
  rw [s.lookupHostname_eq hs, t.lookupHostname_eq ht, Except.ok.injEq, Option.some_inj, lookedFor, lookedFor,
    hsame]
  by_cases hdot : s.DotBeforePort
  · by_cases hother : t.DotBeforePort
    · simp [hdot, hother]
    · simp [hdot, hother]
  · by_cases hother : t.DotBeforePort
    · simp [hdot, hother]
    · simp [hdot, hother]

/-- A request with this `Host` header. -/
def hostRequest (value : Str) : Parts where
  method := Method.get
  uri := ⟨['/'], none, rootPath_no_question⟩
  headers := [(host, asciiBytes value)]
  version := .http11
  scheme := none
  authority := none

/-- A name without a colon and without a dot at its end. -/
def IsDomain (name : Str) : Prop :=
  (∀ c ∈ name, IsVisible c) ∧ name.getLast? ≠ some '.' ∧ ':' ∉ name

/-- A domain in one of its spellings. -/
def spelled (name : Str) (dot : Bool) (port : Option Str) (h : IsDomain name)
    (hport : ∀ p ∈ port, (parseU16 p).isSome = true) : Spelling where
  name := name
  dot := dot
  port := port
  name_visible := h.1
  name_no_dot := h.2.1
  name_no_port := by
    rintro left right rfl
    exact absurd (List.mem_append_right left List.mem_cons_self) h.2.2
  port_reads := hport

theorem isDomain_upperCase : IsDomain "EXAMPLE.COM".toList := by
  have hvisible : ("EXAMPLE.COM".toList.all fun c => decide (IsVisible c)) = true := by decide
  exact ⟨fun c hc => of_decide_eq_true (List.all_eq_true.1 hvisible c hc), by decide, by decide⟩

theorem isDomain_example : IsDomain "example.com".toList := by
  have hvisible : ("example.com".toList.all fun c => decide (IsVisible c)) = true := by decide
  exact ⟨fun c hc => of_decide_eq_true (List.all_eq_true.1 hvisible c hc), by decide, by decide⟩

theorem parseU16_8080 : ∀ p ∈ some "8080".toList, (parseU16 p).isSome = true := by
  rintro p ⟨⟩
  decide

/-- A name in upper case with a dot. -/
def upperCase : Spelling :=
  spelled "EXAMPLE.COM".toList true none isDomain_upperCase fun _ h => nomatch h

/-- The name with a port, with and without a dot before it. -/
def withPort (dot : Bool) : Spelling :=
  spelled "example.com".toList dot (some "8080".toList) isDomain_example parseU16_8080

theorem askedBy_hostRequest (s : Spelling) : s.AskedBy (hostRequest s.text) := Or.inl rfl

/-- The name in upper case with a dot, and in lower case with a port. -/
theorem lookupHostname_upperCase :
    lookupHostname (hostRequest upperCase.text) = lookupHostname (hostRequest (withPort false).text) :=
  (@lookupHostname_eq_iff _ _ upperCase (withPort false) (by decide) (askedBy_hostRequest _)
    (askedBy_hostRequest _)).2 (by decide)

example : lookupHostname (hostRequest "[::1]:8080".toList) = .ok (some "[::1]".toList) := by decide

/-- A dot before the port gives another hostname. -/
theorem lookupHostname_dotBeforePort :
    (withPort false).SameHost (withPort true) ∧ (withPort true).text = "example.com.:8080".toList ∧
      lookupHostname (hostRequest (withPort false).text) = .ok (some "example.com".toList) ∧
      lookupHostname (hostRequest (withPort true).text) = .ok (some "example.com.".toList) :=
  ⟨rfl, by decide, by decide, by decide⟩

end Ferron.HostLookup
