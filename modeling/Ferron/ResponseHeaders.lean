import Ferron.Common.Config
import Ferron.Common.HeaderPlaceholders
import Ferron.Rust.Utf8

/-!
# The headers that the server adds to a response

Before the response-modifying handlers run, the request handler adds, replaces and removes the
configured headers, announces HTTP/3 in Alt-Svc and sets Server. The configured values have their
placeholders replaced by data of the request.

All of it works on each name by itself: `getAll_finalizeResponse` tells the values of a name afterwards
from those before.
-/

set_option autoImplicit false

namespace Ferron.ResponseHeaders

open Ferron.Common Ferron.Http

/-- `SERVER_SOFTWARE`. -/
def serverSoftware : Str := "Ferron".toList

/-! ## Configured headers -/

/-- The last entry first: the entries of a property whose first two values are strings. -/
def customHeaders (config : ServerConfiguration) (property : Str) : List (Str × Str) :=
  (((config.getEntries property).map ServerConfigurationEntries.inner).getD []).reverse.filterMap
    fun customHeader =>
      (customHeader.values.head?.bind ServerConfigurationValue.asStr).bind fun headerName =>
        (customHeader.values[1]?.bind ServerConfigurationValue.asStr).map fun headerValue =>
          (headerName, headerValue)

section Configured

variable (requestParts : Parts)

/-- The header is inserted when its name and its value are those of a header. There is no result when
the placeholders are replaced forever. -/
def insertHeader (headers : HeaderMap) (customHeader : Str × Str) : Option HeaderMap :=
  match headerName customHeader.1 with
  | none => some headers
  | some name =>
      (replaceHeaderPlaceholders requestParts none customHeader.2).map fun text =>
        match headerValue text with
        | none => headers
        | some value => headers.insert name value

/-- The loop over `header`: a name that is there already is passed over. -/
def headersToAdd (entries : List (Str × Str)) : Option HeaderMap :=
  entries.foldlM (fun headers customHeader =>
    if headers.containsKey (lowerName customHeader.1) then some headers
    else insertHeader requestParts headers customHeader) []

/-- The loop over `header_replace`. -/
def headersToReplace (entries : List (Str × Str)) : Option HeaderMap :=
  entries.foldlM (insertHeader requestParts) []

end Configured

/-- The loop over `header_remove`. -/
def headersToRemove (config : ServerConfiguration) : List HeaderName :=
  (((config.getEntries "header_remove".toList).map ServerConfigurationEntries.inner).getD
    []).reverse.filterMap fun customHeader =>
      (customHeader.values.head?.bind ServerConfigurationValue.asStr).bind headerName

/-- No name has two values. -/
def SingleValued (headers : HeaderMap) : Prop := (headers.map Prod.fst).Nodup

instance (headers : HeaderMap) : Decidable (SingleValued headers) :=
  inferInstanceAs (Decidable (List.Nodup _))

/-- What is added to the response for a request: the configured headers and the port of HTTP/3. -/
structure Additions where
  toAdd : HeaderMap
  toReplace : HeaderMap
  toRemove : List HeaderName
  http3AltPort : Option UInt16
  toAdd_single : SingleValued toAdd
  toReplace_single : SingleValued toReplace

theorem singleValued_nil : SingleValued [] := List.nodup_nil

theorem singleValued_insert {headers : HeaderMap} (h : SingleValued headers) (name : HeaderName)
    (value : HeaderValue) : SingleValued (headers.insert name value) := by
  unfold SingleValued at h ⊢
  rw [HeaderMap.insert, List.map_append, List.nodup_append]
  refine ⟨h.sublist (List.Sublist.map _ List.filter_sublist), List.nodup_singleton _, ?_⟩
  intro other hother kept hkept heq
  obtain ⟨header, hheader, rfl⟩ := List.mem_map.1 hother
  have hne := (List.mem_filter.1 hheader).2
  rw [decide_eq_true_eq] at hne
  exact hne (heq.trans (List.mem_singleton.1 hkept))

theorem singleValued_insertHeader {requestParts : Parts} {headers headers' : HeaderMap}
    {customHeader : Str × Str} (h : SingleValued headers)
    (hinsert : insertHeader requestParts headers customHeader = some headers') :
    SingleValued headers' := by
  unfold insertHeader at hinsert
  split at hinsert
  · rwa [← Option.some.inj hinsert]
  · obtain ⟨text, -, rfl⟩ := Option.map_eq_some_iff.1 hinsert
    split
    · exact h
    · exact singleValued_insert h _ _

/-- What every turn of a loop keeps holds of its result. -/
theorem foldlM_invariant {α β : Type} {step : β → α → Option β} {P : β → Prop}
    {entries : List α}
    (hstep : ∀ state state', ∀ entry ∈ entries, P state → step state entry = some state' → P state')
    {state result : β} (h : P state) (hresult : entries.foldlM step state = some result) :
    P result := by
  induction entries generalizing state with
  | nil => exact Option.some.inj hresult ▸ h
  | cons entry entries ih =>
      rw [List.foldlM_cons] at hresult
      obtain ⟨state', hstate, hrest⟩ := Option.bind_eq_some_iff.1 hresult
      have hhead := hstep state state' entry List.mem_cons_self h hstate
      refine ih (fun s s' other hother => ?_) hhead hrest
      exact hstep s s' other (List.mem_cons_of_mem _ hother)

theorem singleValued_headersToAdd {requestParts : Parts} {entries : List (Str × Str)}
    {headers : HeaderMap} (h : headersToAdd requestParts entries = some headers) :
    SingleValued headers := by
  refine foldlM_invariant ?_ singleValued_nil h
  intro state state' entry _ hstate hstep
  split at hstep
  · rwa [← Option.some.inj hstep]
  · exact singleValued_insertHeader hstate hstep

theorem singleValued_headersToReplace {requestParts : Parts} {entries : List (Str × Str)}
    {headers : HeaderMap} (h : headersToReplace requestParts entries = some headers) :
    SingleValued headers :=
  foldlM_invariant (fun _ _ _ _ hstate hstep => singleValued_insertHeader hstate hstep) singleValued_nil h

/-- The headers to add, to replace and to remove for a request under a configuration. -/
def additions (config : ServerConfiguration) (requestParts : Parts) (http3AltPort : Option UInt16) :
    Option Additions :=
  match hadd : headersToAdd requestParts (customHeaders config "header".toList),
    hreplace : headersToReplace requestParts (customHeaders config "header_replace".toList) with
  | some toAdd, some toReplace =>
      some ⟨toAdd, toReplace, headersToRemove config, http3AltPort, singleValued_headersToAdd hadd,
        singleValued_headersToReplace hreplace⟩
  | _, _ => none

/-- The names that the entries of a property set. -/
def namesOf (entries : List (Str × Str)) : List HeaderName :=
  entries.filterMap fun customHeader => headerName customHeader.1

/-- Every name of the headers is one of these. -/
def NamedIn (names : List HeaderName) (headers : HeaderMap) : Prop :=
  ∀ header ∈ headers, header.1 ∈ names

theorem namedIn_insertHeader {requestParts : Parts} {entries : List (Str × Str)}
    {headers headers' : HeaderMap} {customHeader : Str × Str} (hmem : customHeader ∈ entries)
    (h : NamedIn (namesOf entries) headers)
    (hinsert : insertHeader requestParts headers customHeader = some headers') :
    NamedIn (namesOf entries) headers' := by
  unfold insertHeader at hinsert
  split at hinsert
  · rwa [← Option.some.inj hinsert]
  · next name hname =>
      obtain ⟨text, -, rfl⟩ := Option.map_eq_some_iff.1 hinsert
      split
      · exact h
      · intro header hheader
        rcases List.mem_append.1 hheader with hold | hnew
        · exact h header (List.mem_filter.1 hold).1
        · rw [List.mem_singleton.1 hnew]
          exact List.mem_filterMap.2 ⟨customHeader, hmem, hname⟩

theorem namedIn_headersToAdd {requestParts : Parts} {entries : List (Str × Str)}
    {headers : HeaderMap} (h : headersToAdd requestParts entries = some headers) :
    NamedIn (namesOf entries) headers := by
  refine foldlM_invariant ?_ (fun _ hmem => absurd hmem List.not_mem_nil) h
  intro state state' entry hentry hstate hstep
  split at hstep
  · rwa [← Option.some.inj hstep]
  · exact namedIn_insertHeader hentry hstate hstep

theorem namedIn_headersToReplace {requestParts : Parts} {entries : List (Str × Str)}
    {headers : HeaderMap} (h : headersToReplace requestParts entries = some headers) :
    NamedIn (namesOf entries) headers := by
  refine foldlM_invariant ?_ (fun _ hmem => absurd hmem List.not_mem_nil) h
  intro state state' entry hentry hstate hstep
  exact namedIn_insertHeader hentry hstate hstep

/-- The names that `header` and `header_replace` set. -/
def directiveNames (config : ServerConfiguration) : List HeaderName :=
  namesOf (customHeaders config "header".toList) ++
    namesOf (customHeaders config "header_replace".toList)

/-- The additions set no other names, and they have the port. -/
theorem additions_names {config : ServerConfiguration} {requestParts : Parts}
    {http3AltPort : Option UInt16} {added : Additions}
    (h : additions config requestParts http3AltPort = some added) :
    NamedIn (directiveNames config) added.toAdd ∧
      NamedIn (directiveNames config) added.toReplace := by
  unfold additions at h
  split at h
  · next toAdd toReplace hadd hreplace =>
      rw [← Option.some.inj h]
      constructor
      · intro header hheader
        exact List.mem_append_left _ (namedIn_headersToAdd hadd header hheader)
      · intro header hheader
        exact List.mem_append_right _ (namedIn_headersToReplace hreplace header hheader)
  · exact absurd h (by simp)

/-! ## What is done to a response -/

/-- `add_custom_headers`. -/
def addCustomHeaders (added : Additions) (headers : HeaderMap) : HeaderMap :=
  let headers := added.toAdd.foldl
    (fun headers header =>
      if headers.containsKey header.1 then headers else headers.insert header.1 header.2) headers
  let headers := added.toReplace.foldl
    (fun headers header => headers.insert header.1 header.2) headers
  added.toRemove.reverse.foldl
    (fun headers name => if headers.containsKey name then headers.remove name else headers) headers

/-- The value that announces HTTP/3 on a port. -/
def announcement (port : UInt16) : Str :=
  "h3=\":".toList ++ displayNat 10 port.toNat ++ "\", h3-29=\":".toList ++
    displayNat 10 port.toNat ++ "\"".toList

/-- The name of the header that announces other services. -/
def altSvc : HeaderName := "alt-svc".toList

/-- The value with the announcement: an old value that is another one is kept before it. -/
def announcing (port : UInt16) : Option HeaderValue → Option HeaderValue
  | some value =>
      let headerValueOld := Utf8.fromUtf8Lossy value
      let headerValueNew := announcement port
      if headerValueOld ≠ headerValueNew then
        headerValue (headerValueOld ++ ", ".toList ++ headerValueNew)
      else headerValue headerValueOld
  | none => headerValue (announcement port)

/-- `add_http3_alt_svc_header`. -/
def addHttp3AltSvcHeader (http3AltPort : Option UInt16) (headers : HeaderMap) : HeaderMap :=
  match http3AltPort with
  | none => headers
  | some port =>
      match announcing port (headers.get altSvc) with
      | some value => headers.insert altSvc value
      | none => headers

/-- The name of the header with the software of the server. -/
def server : HeaderName := "server".toList

/-- `add_server_header`. -/
def addServerHeader (headers : HeaderMap) : HeaderMap :=
  headers.insert server (asciiBytes serverSoftware)

/-- The headers of a response before the response-modifying handlers run. -/
def finalizeResponse (added : Additions) (headers : HeaderMap) : HeaderMap :=
  addServerHeader (addHttp3AltSvcHeader added.http3AltPort (addCustomHeaders added headers))

/-! ## The values of one name -/

/-- The values of a name that has these: the last step is for its own names only. -/
def Additions.custom (added : Additions) (name : HeaderName) (values : List HeaderValue) :
    List HeaderValue :=
  if name ∈ added.toRemove then []
  else if added.toReplace.containsKey name then added.toReplace.getAll name
  else if values = [] then added.toAdd.getAll name
  else values

/-- The values of Alt-Svc that has these. -/
def announce (http3AltPort : Option UInt16) (values : List HeaderValue) : List HeaderValue :=
  match http3AltPort with
  | none => values
  | some port =>
      match announcing port values.head? with
      | some value => [value]
      | none => values

/-- The values of a name that the server sets itself. -/
def Additions.own (added : Additions) (name : HeaderName) (values : List HeaderValue) :
    List HeaderValue :=
  if name = server then [asciiBytes serverSoftware]
  else if name = altSvc then announce added.http3AltPort values
  else values

theorem own_of_ne {added : Additions} {name : HeaderName} (hserver : name ≠ server)
    (haltSvc : name ≠ altSvc) (values : List HeaderValue) : added.own name values = values := by
  rw [Additions.own, if_neg hserver, if_neg haltSvc]

theorem own_altSvc (added : Additions) (values : List HeaderValue) :
    added.own altSvc values = announce added.http3AltPort values := by
  rw [Additions.own, if_neg (by decide), if_pos rfl]

theorem containsKey_eq_false_iff {headers : HeaderMap} {name : HeaderName} :
    headers.containsKey name = false ↔ headers.getAll name = [] := by
  rw [← Bool.not_eq_true, HeaderMap.containsKey_iff, not_not]

/-- A name is added where it has no value yet. -/
theorem getAll_foldl_add {toAdd : HeaderMap} (h : SingleValued toAdd) (headers : HeaderMap)
    (name : HeaderName) :
    (toAdd.foldl (fun headers header =>
      if headers.containsKey header.1 then headers else headers.insert header.1 header.2)
        headers).getAll name =
      if headers.getAll name = [] then toAdd.getAll name else headers.getAll name := by
  induction toAdd generalizing headers with
  | nil =>
      rw [List.foldl_nil]
      split
      · next hnil => exact hnil
      · rfl
  | cons header toAdd ih =>
      obtain ⟨hfirst, hrest⟩ := List.nodup_cons.1 h
      rw [List.foldl_cons, ih hrest, HeaderMap.getAll_cons]
      cases hkey : headers.containsKey header.1 with
      | true =>
          rw [if_pos rfl]
          by_cases hname : header.1 = name
          · subst hname
            have hvalues := HeaderMap.containsKey_iff.1 hkey
            rw [if_neg hvalues, if_neg hvalues]
          · rw [if_neg hname]
      | false =>
          rw [if_neg Bool.false_ne_true, HeaderMap.getAll_insert]
          by_cases hname : header.1 = name
          · subst hname
            rw [if_pos rfl, if_neg (List.cons_ne_nil _ _), if_pos (containsKey_eq_false_iff.1 hkey),
              if_pos rfl, HeaderMap.getAll_eq_nil_of_notMem hfirst]
          · rw [if_neg (Ne.symm hname), if_neg hname]

/-- A name is replaced whatever it has. -/
theorem getAll_foldl_replace {toReplace : HeaderMap} (h : SingleValued toReplace)
    (headers : HeaderMap) (name : HeaderName) :
    (toReplace.foldl (fun headers header => headers.insert header.1 header.2) headers).getAll name =
      if toReplace.containsKey name then toReplace.getAll name else headers.getAll name := by
  induction toReplace generalizing headers with
  | nil => rfl
  | cons header toReplace ih =>
      obtain ⟨hfirst, hrest⟩ := List.nodup_cons.1 h
      rw [List.foldl_cons, ih hrest, HeaderMap.getAll_cons, HeaderMap.getAll_insert]
      by_cases hname : header.1 = name
      · subst hname
        have hnil := HeaderMap.getAll_eq_nil_of_notMem hfirst
        have hhead : HeaderMap.containsKey (header :: toReplace) header.1 = true := by
          rw [HeaderMap.containsKey_iff, HeaderMap.getAll_cons, if_pos rfl]
          exact List.cons_ne_nil _ _
        rw [if_neg (by rw [containsKey_eq_false_iff.2 hnil]; exact Bool.false_ne_true), if_pos rfl,
          if_pos hhead, if_pos rfl, hnil]
      · have hcons : HeaderMap.containsKey (header :: toReplace) name =
            HeaderMap.containsKey toReplace name := by
          unfold HeaderMap.containsKey
          rw [List.any_cons, decide_eq_false hname, Bool.false_or]
        rw [hcons, if_neg (Ne.symm hname), if_neg hname]

theorem getAll_foldl_remove (toRemove : List HeaderName) (headers : HeaderMap) (name : HeaderName) :
    (toRemove.foldl (fun headers name =>
      if headers.containsKey name then headers.remove name else headers) headers).getAll name =
      if name ∈ toRemove then [] else headers.getAll name := by
  induction toRemove generalizing headers with
  | nil => rfl
  | cons removed toRemove ih =>
      have hstep : (if headers.containsKey removed then headers.remove removed else headers).getAll
          name = if name = removed then [] else headers.getAll name := by
        split
        · exact HeaderMap.getAll_remove _ _ _
        · next hkey =>
            split
            · next hname =>
                subst hname
                rw [Bool.not_eq_true] at hkey
                exact containsKey_eq_false_iff.1 hkey
            · rfl
      rw [List.foldl_cons, ih, hstep]
      by_cases hname : name = removed
      · rw [if_pos hname, if_pos (List.mem_cons.2 (Or.inl hname)), ite_self]
      · rw [if_neg hname]
        by_cases hmem : name ∈ toRemove
        · rw [if_pos hmem, if_pos (List.mem_cons_of_mem _ hmem)]
        · rw [if_neg hmem, if_neg (fun h => (List.mem_cons.1 h).elim hname hmem)]

theorem getAll_addCustomHeaders (added : Additions) (headers : HeaderMap) (name : HeaderName) :
    (addCustomHeaders added headers).getAll name = added.custom name (headers.getAll name) := by
  rw [addCustomHeaders, getAll_foldl_remove, getAll_foldl_replace added.toReplace_single,
    getAll_foldl_add added.toAdd_single, Additions.custom]
  simp only [List.mem_reverse]

theorem getAll_addHttp3AltSvcHeader (http3AltPort : Option UInt16) (headers : HeaderMap)
    (name : HeaderName) :
    (addHttp3AltSvcHeader http3AltPort headers).getAll name =
      if name = altSvc then announce http3AltPort (headers.getAll altSvc)
      else headers.getAll name := by
  cases http3AltPort with
  | none =>
      split
      · next hname => rw [hname]; rfl
      · rfl
  | some port =>
      unfold addHttp3AltSvcHeader announce
      dsimp only
      rw [HeaderMap.get_eq_head?]
      cases announcing port (headers.getAll altSvc).head? with
      | some value => exact HeaderMap.getAll_insert _ _ _ _
      | none =>
          by_cases hname : name = altSvc
          · rw [if_pos hname, hname]
          · rw [if_neg hname]

/-- Each name has its own values afterwards. -/
theorem getAll_finalizeResponse (added : Additions) (headers : HeaderMap) (name : HeaderName) :
    (finalizeResponse added headers).getAll name =
      added.own name (added.custom name (headers.getAll name)) := by
  rw [finalizeResponse, addServerHeader, HeaderMap.getAll_insert, getAll_addHttp3AltSvcHeader,
    getAll_addCustomHeaders, getAll_addCustomHeaders, Additions.own]
  by_cases hserver : name = server
  · rw [if_pos hserver, if_pos hserver]
  · rw [if_neg hserver, if_neg hserver]
    by_cases haltSvc : name = altSvc
    · rw [if_pos haltSvc, if_pos haltSvc, haltSvc]
    · rw [if_neg haltSvc, if_neg haltSvc]

/-! ## Announcing HTTP/3 again -/

/-- The bytes of a text. -/
def encode (text : Str) : HeaderValue := text.flatMap String.utf8EncodeChar

/-- The bytes may stand in a header value. -/
def ValidBytes (bytes : Bytes) : Prop := ∀ b ∈ bytes, isHeaderByte b = true

theorem validBytes_append {a b : Bytes} (ha : ValidBytes a) (hb : ValidBytes b) :
    ValidBytes (a ++ b) := fun byte hbyte => (List.mem_append.1 hbyte).elim (ha byte) (hb byte)

theorem encode_append (a b : Str) : encode (a ++ b) = encode a ++ encode b := List.flatMap_append

theorem headerValue_eq_some {text : Str} (h : ValidBytes (encode text)) :
    headerValue text = some (encode text) := if_pos (List.all_eq_true.2 h)

theorem encode_digit {c : Char} (h : c.isDigit = true) : ValidBytes (String.utf8EncodeChar c) := by
  have hbounds : 48 ≤ c.val.toNat ∧ c.val.toNat ≤ 57 := by
    simpa [Char.isDigit, UInt32.le_iff_toNat_le] using h
  intro b hb
  rw [String.utf8EncodeChar, if_pos (by omega), List.mem_singleton] at hb
  have hbyte : b.toNat = c.val.toNat := by
    rw [hb, UInt8.toNat_ofNat']
    omega
  rw [← hbyte] at hbounds
  simp [isHeaderByte, UInt8.le_iff_toNat_le, ← UInt8.toNat_inj]
  omega

theorem validBytes_displayNat (n : Nat) : ValidBytes (encode (displayNat 10 n)) := by
  intro b hb
  obtain ⟨c, hc, hbyte⟩ := List.mem_flatMap.1 hb
  exact encode_digit (Nat.isDigit_of_mem_toDigits (by decide) (by decide) hc) b hbyte

theorem validBytes_announcement (port : UInt16) : ValidBytes (encode (announcement port)) := by
  have htext : ∀ text : Str, ((encode text).all isHeaderByte) = true → ValidBytes (encode text) :=
    fun _ h => List.all_eq_true.1 h
  unfold announcement
  rw [encode_append, encode_append, encode_append, encode_append]
  have hport := validBytes_displayNat port.toNat
  exact validBytes_append (validBytes_append (validBytes_append (validBytes_append
    (htext _ (by decide)) hport) (htext _ (by decide))) hport) (htext _ (by decide))

/-- The text of the value that announces a port over some values. -/
def announcedText (port : UInt16) : Option HeaderValue → Str
  | some value =>
      if Utf8.fromUtf8Lossy value ≠ announcement port then
        Utf8.fromUtf8Lossy value ++ ", ".toList ++ announcement port
      else announcement port
  | none => announcement port

theorem validBytes_fromUtf8Lossy {value : HeaderValue} (h : ValidBytes value) :
    ValidBytes (encode (Utf8.fromUtf8Lossy value)) := by
  intro b hb
  rcases Utf8.mem_encode_fromUtf8Lossy hb with hold | hreplaced
  · exact h b hold
  · have hall : (String.utf8EncodeChar (Char.ofNat 0xfffd)).all isHeaderByte = true := by decide
    exact List.all_eq_true.1 hall b hreplaced

theorem validBytes_announcedText (port : UInt16) {old : Option HeaderValue}
    (h : ∀ value ∈ old, ValidBytes value) : ValidBytes (encode (announcedText port old)) := by
  cases old with
  | none => exact validBytes_announcement port
  | some value =>
      rw [announcedText]
      split
      · rw [encode_append, encode_append]
        have hcomma : ValidBytes (encode ", ".toList) := List.all_eq_true.1 (by decide)
        exact validBytes_append (validBytes_append (validBytes_fromUtf8Lossy (h value rfl)) hcomma)
          (validBytes_announcement port)
      · exact validBytes_announcement port

/-- Over header values the announcement is a header value. -/
theorem announce_some (port : UInt16) {values : List HeaderValue}
    (h : ∀ value ∈ values, ValidBytes value) :
    announce (some port) values = [encode (announcedText port values.head?)] := by
  have hhead : ∀ value ∈ values.head?, ValidBytes value :=
    fun value hvalue => h value (List.mem_of_mem_head? hvalue)
  have hvalid := headerValue_eq_some (validBytes_announcedText port hhead)
  have hannouncing : announcing port values.head? = some (encode (announcedText port values.head?)) := by
    cases hfirst : values.head? with
    | none =>
        rw [hfirst] at hvalid
        exact hvalid
    | some value =>
        rw [hfirst] at hvalid
        rw [announcing]
        rw [announcedText] at hvalid ⊢
        split
        · next hne => rwa [if_pos hne] at hvalid
        · next heq =>
            rw [if_neg heq] at hvalid
            rw [not_not] at heq
            rw [heq, hvalid]
  unfold announce
  dsimp only
  rw [hannouncing]

theorem fromUtf8Lossy_encode (text : Str) : Utf8.fromUtf8Lossy (encode text) = text :=
  Utf8.fromUtf8Lossy_encode text

/-- Only the announcement alone stays as it is when it is announced again. -/
theorem announce_eq_self_iff (port : UInt16) {values : List HeaderValue}
    (h : ∀ value ∈ values, ValidBytes value) :
    announce (some port) values = values ↔ values = [encode (announcement port)] := by
  rw [announce_some port h]
  constructor
  · intro heq
    rw [← heq]
    cases hfirst : values.head? with
    | none => rfl
    | some value =>
        rw [announcedText]
        split
        · -- the value would have its own text before the announcement
          exfalso
          next hne =>
            rw [hfirst, announcedText, if_pos hne] at heq
            have hvalue : value = encode (Utf8.fromUtf8Lossy value ++ ", ".toList ++
                announcement port) := by
              rw [← heq, List.head?_cons] at hfirst
              exact (Option.some.inj hfirst).symm
            have htext := congrArg (fun bytes => (Utf8.fromUtf8Lossy bytes).length) hvalue
            simp only [fromUtf8Lossy_encode, List.length_append] at htext
            have hcomma : (", ".toList).length = 2 := rfl
            omega
        · rfl
  · rintro rfl
    rw [List.head?_cons, announcedText, if_neg]
    rw [fromUtf8Lossy_encode]
    exact fun hne => hne rfl

theorem count_comma_displayNat (n : Nat) : (displayNat 10 n).count ',' = 0 := by
  rw [List.count_eq_zero]
  intro hmem
  exact absurd (Nat.isDigit_of_mem_toDigits (by decide) (by decide) hmem) (by decide)

theorem count_comma_announcement (port : UInt16) : (announcement port).count ',' = 1 := by
  unfold announcement
  simp only [List.count_append, count_comma_displayNat]
  decide

/-- A value announces exactly one port when the announcement is the only one in it. -/
theorem announcedText_eq_iff (port other : UInt16) (old : Option HeaderValue) :
    announcedText port old = announcement other ↔
      announcement port = announcement other ∧
        ∀ value ∈ old, Utf8.fromUtf8Lossy value = announcement port := by
  cases old with
  | none => simp [announcedText]
  | some value =>
      rw [announcedText]
      split
      · next hne =>
          constructor
          · intro heq
            have hcount := congrArg (List.count ',') heq
            rw [List.count_append, List.count_append, count_comma_announcement,
              count_comma_announcement] at hcount
            have hcomma : (", ".toList).count ',' = 1 := by decide
            omega
          · rintro ⟨-, hvalues⟩
            exact absurd (hvalues value rfl) hne
      · next heq =>
          rw [not_not] at heq
          constructor
          · intro hsame
            refine ⟨hsame, ?_⟩
            rintro _ ⟨⟩
            exact heq
          · exact fun h => h.1

/-- Different ports have different announcements. -/
theorem announcement_injective : Function.Injective announcement := by
  intro port other h
  unfold announcement at h
  simp only [List.append_assoc] at h
  have hdigits := List.append_cancel_left h
  -- the digits end at the first quotation mark
  have htake := congrArg (List.takeWhile (· ≠ '"')) hdigits
  have hspan : ∀ (n : Nat) (rest : Str),
      (displayNat 10 n ++ ("\", h3-29=\":".toList ++ rest)).takeWhile (· ≠ '"') =
        displayNat 10 n := by
    intro n rest
    rw [List.takeWhile_append_of_pos]
    · have hquote : ("\", h3-29=\":".toList ++ rest).takeWhile (· ≠ '"') = [] := by
        simp
      rw [hquote, List.append_nil]
    · intro c hc
      have hdigit := Nat.isDigit_of_mem_toDigits (by decide) (by decide) hc
      rw [decide_eq_true_eq]
      rintro rfl
      exact absurd hdigit (by decide)
  rw [hspan, hspan] at htake
  have hnat := congrArg (fun digits => Nat.ofDigitChars 10 digits 0) htake
  simp only [displayNat, Nat.ofDigitChars_ten_toDigits] at hnat
  exact UInt16.toNat_inj.1 hnat

end Ferron.ResponseHeaders
