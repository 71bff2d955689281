import Ferron.Common.Config
import Ferron.Common.HeaderPlaceholders
import Ferron.Lib.Failure
import Ferron.Rust.Utf8
import Ferron.Rust.Utf8String

/-!
# The headers of a proxied request

The reverse proxy rewrites the headers of a request before it sends the request on: it sets the host, the
connection and the headers that tell the backend server about the client, and it sets or removes the
headers that the configuration names.

Without trust the copies of the forwarding headers that the client has sent do not reach the backend
server, with one exception: the client's `X-Forwarded-Host` is kept when the request has no `Host` header.
`constructProxyRequestParts_iff` says exactly when two requests that differ in these copies only become
the same request.
-/

set_option autoImplicit false

namespace Ferron.Modules.ForwardedHeaders

open Ferron.Common Ferron.Http
open Ferron.Lib (exists_of_bind_ok)

/-! ## The model -/

/-- The URL of the backend server. -/
structure ProxyRequestUrl where
  authority : Option Str
  path : Str

/-- A request is not proxied: its target or a header value cannot be parsed, or the placeholders are
replaced forever. -/
inductive ProxyError where
  | invalidUri
  | invalidHeaderValue
  | diverges
  deriving DecidableEq

/-- A result that may be missing. -/
def orError {α : Type} (error : ProxyError) : Option α → Except ProxyError α
  | some value => .ok value
  | none => .error error

/-- The configured headers of a property with their values, the last one first. -/
def customHeaders (property : String) (config : ServerConfiguration) : List (Str × Str) :=
  ((config.getEntries property.toList).map fun entries =>
    entries.inner.reverse.filterMap fun customHeader =>
      (customHeader.values[0]?.bind ServerConfigurationValue.asStr).bind fun headerName =>
        (customHeader.values[1]?.bind ServerConfigurationValue.asStr).map fun headerValue =>
          (headerName, headerValue)).getD []

/-- `headers_to_remove`. -/
def headersToRemove (config : ServerConfiguration) : List HeaderName :=
  ((config.getEntries "proxy_request_header_remove".toList).map fun entries =>
    entries.inner.reverse.filterMap fun customHeader =>
      (customHeader.values[0]?.bind ServerConfigurationValue.asStr).bind headerName).getD []

/-- `trust_x_forwarded_for`. -/
def trustXForwardedFor (config : ServerConfiguration) : Bool :=
  ((config.getValue "trust_x_forwarded_for".toList).bind ServerConfigurationValue.asBool).getD false

/-- The names of the headers. -/
def host : HeaderName := "host".toList
def connection : HeaderName := "connection".toList
def forwarded : HeaderName := "forwarded".toList
def xForwardedFor : HeaderName := "x-forwarded-for".toList
def xForwardedProto : HeaderName := "x-forwarded-proto".toList
def xForwardedHost : HeaderName := "x-forwarded-host".toList

section Construction

-- `Uri::from_str`: a target with its scheme and its authority; `to_lowercase`.
variable (parseUri : Str → Option (Uri × Option Str × Option Str)) (toLowercase : Str → Str)

section Collecting

variable (requestParts : Parts) (socketData : SocketData)

/-- The loop over the configured headers. When the first value of a header is kept, the headers that have
one are passed over. There is no result when placeholders are replaced forever. -/
def collectHeaders (keepsFirst : Bool) : List (Str × Str) → HeaderMap → Option HeaderMap
  | [], headers => some headers
  | (name, value) :: customHeaders, headers =>
      if keepsFirst && headers.containsKey (lowerName name) then
        collectHeaders keepsFirst customHeaders headers
      else
        match headerName name with
        | none => collectHeaders keepsFirst customHeaders headers
        | some name =>
            match replaceHeaderPlaceholders requestParts (some socketData) value with
            | none => none
            | some text =>
                match headerValue text with
                | none => collectHeaders keepsFirst customHeaders headers
                | some value => collectHeaders keepsFirst customHeaders (headers.insert name value)

/-- `headers_to_add`. -/
def headersToAdd (config : ServerConfiguration) : Option HeaderMap :=
  collectHeaders requestParts socketData true (customHeaders "proxy_request_header" config) []

/-- `headers_to_replace`. -/
def headersToReplace (config : ServerConfiguration) : Option HeaderMap :=
  collectHeaders requestParts socketData false (customHeaders "proxy_request_header_replace" config) []

end Collecting

/-- The path of the proxied request: that of the backend server's URL without its slashes at the end, and
that of the request. -/
def proxyPath (url : ProxyRequestUrl) (requestPath : Str) : Str :=
  match requestPath.head? with
  | some '/' => url.path.rdropWhile (· == '/') ++ requestPath
  | _ => requestPath

/-- The host of the backend server. -/
def setHost (url : ProxyRequestUrl) (headers : HeaderMap) : Except ProxyError HeaderMap :=
  match url.authority with
  | some authority => do
      let value ← orError .invalidHeaderValue (headerValue authority)
      pure (headers.insert host value)
  | none => pure (headers.remove host)

/-- The connection is kept alive. -/
def setConnection (headers : HeaderMap) : Except ProxyError HeaderMap :=
  match headers.get connection with
  | some connectionHeader =>
      let connectionStr := Utf8.fromUtf8Lossy connectionHeader
      if ((toLowercase connectionStr).splitOn ',').all fun c =>
          c ≠ "keep-alive".toList && c ≠ "upgrade".toList && c ≠ "close".toList then do
        let value ← orError .invalidHeaderValue (headerValue ("keep-alive, ".toList ++ connectionStr))
        pure (headers.insert connection value)
      else pure headers
  | none => pure (headers.insert connection (asciiBytes "keep-alive".toList))

section Forwarding

variable (trust : Bool) (socketData : SocketData)

/-- The addresses that a request is forwarded for. -/
def setForwardedFor (headers : HeaderMap) : Except ProxyError HeaderMap := do
  let remoteAddrStr := displayIp socketData.remoteAddr.ip.toCanonical
  let value ← orError .invalidHeaderValue <| headerValue <|
    match (headers.get xForwardedFor).bind toStr with
    | some forwardedFor =>
        if trust then forwardedFor ++ ", ".toList ++ remoteAddrStr else remoteAddrStr
    | none => remoteAddrStr
  pure (headers.insert xForwardedFor value)

/-- The protocol of the client. -/
def setForwardedProto (headers : HeaderMap) : HeaderMap :=
  if !trust || !headers.containsKey xForwardedProto then
    headers.insert xForwardedProto
      (asciiBytes (if socketData.encrypted then "https".toList else "http".toList))
  else headers

/-- The host that the client has asked for, if it has asked for one. -/
def setForwardedHost (originalHost : Option HeaderValue) (headers : HeaderMap) : HeaderMap :=
  if !trust || !headers.containsKey xForwardedHost then
    match originalHost with
    | some originalHost => headers.insert xForwardedHost originalHost
    | none => headers
  else headers

end Forwarding

/-- The headers that the proxy itself sets. -/
def rewriteHeaders (trust : Bool) (socketData : SocketData) (url : ProxyRequestUrl)
    (headers : HeaderMap) : Except ProxyError HeaderMap := do
  let originalHost := headers.get host
  let headers ← setHost url headers
  let headers ← setConnection toLowercase headers
  let headers ← setForwardedFor trust socketData (headers.remove forwarded)
  pure (setForwardedHost trust originalHost (setForwardedProto trust socketData headers))

/-- The headers that the configuration adds are put in where they are missing. -/
def addHeaders (toAdd headers : HeaderMap) : HeaderMap :=
  toAdd.foldl (fun headers header =>
    if headers.containsKey header.1 then headers else headers.insert header.1 header.2) headers

/-- The headers that the configuration replaces are put in. -/
def replaceHeaders (toReplace headers : HeaderMap) : HeaderMap :=
  toReplace.foldl (fun headers header => headers.insert header.1 header.2) headers

/-- The headers that the configuration removes are taken out. -/
def removeHeaders (toRemove : List HeaderName) (headers : HeaderMap) : HeaderMap :=
  toRemove.reverse.foldl HeaderMap.remove headers

/-- `construct_proxy_request_parts`. -/
def constructProxyRequestParts (requestParts : Parts) (config : ServerConfiguration)
    (socketData : SocketData) (url : ProxyRequestUrl) : Except ProxyError Parts := do
  let toAdd ← orError .diverges (headersToAdd requestParts socketData config)
  let toReplace ← orError .diverges (headersToReplace requestParts socketData config)
  let (uri, scheme, authority) ← orError .invalidUri <| parseUri <|
    proxyPath url requestParts.uri.path ++ displayQuery requestParts.uri.query
  let headers ← rewriteHeaders toLowercase (trustXForwardedFor config) socketData url
    requestParts.headers
  let headers := removeHeaders (headersToRemove config)
    (replaceHeaders toReplace (addHeaders toAdd headers))
  pure ⟨⟨requestParts.method, uri, headers⟩, .http11, scheme, authority⟩

end Construction

/-! ## What the configuration makes of a header -/

/-- No name has two values. -/
def Single (headers : HeaderMap) : Prop := (headers.map Prod.fst).Nodup

theorem Single.insert {headers : HeaderMap} (h : Single headers) (name : HeaderName)
    (value : HeaderValue) : Single (headers.insert name value) := by
  rw [Single, HeaderMap.insert, List.map_append, List.nodup_append]
  refine ⟨h.sublist (List.filter_sublist.map _), List.nodup_singleton _, ?_⟩
  intro other hother found hfound
  obtain ⟨header, hheader, rfl⟩ := List.mem_map.1 hother
  rw [List.map_singleton, List.mem_singleton] at hfound
  rw [hfound]
  simpa using (List.mem_filter.1 hheader).2

/-- A header that is there keeps its values; another one gets the added value. -/
theorem getAll_addHeaders {toAdd : HeaderMap} (h : Single toAdd) (headers : HeaderMap)
    (name : HeaderName) : (addHeaders toAdd headers).getAll name =
      if headers.getAll name = [] then toAdd.getAll name else headers.getAll name := by
  induction toAdd generalizing headers with
  | nil =>
      rw [addHeaders, List.foldl_nil]
      split
      · rename_i hnil
        exact hnil
      · rfl
  | cons header toAdd ih =>
      obtain ⟨added, value⟩ := header
      obtain ⟨hadded, hrest⟩ := List.nodup_cons.1 h
      have htail := ih hrest (if headers.containsKey added then headers else headers.insert added value)
      rw [addHeaders, List.foldl_cons]
      rw [addHeaders] at htail
      rw [htail, HeaderMap.getAll_cons]
      by_cases hname : added = name
      · subst hname
        have hnone := HeaderMap.getAll_eq_nil_of_notMem hadded
        by_cases hkey : headers.containsKey added = true
        · have hvalues := HeaderMap.containsKey_iff.1 hkey
          simp [hkey, hvalues]
        · have hvalues : headers.getAll added = [] := by
            by_contra hvalues
            exact hkey (HeaderMap.containsKey_iff.2 hvalues)
          simp [hkey, hvalues, HeaderMap.getAll_insert, hnone]
      · rw [if_neg hname]
        by_cases hkey : headers.containsKey added = true
        · simp [hkey]
        · simp [hkey, HeaderMap.getAll_insert, Ne.symm hname]

/-- A header that is replaced has the new value only. -/
theorem getAll_replaceHeaders {toReplace : HeaderMap} (h : Single toReplace) (headers : HeaderMap)
    (name : HeaderName) : (replaceHeaders toReplace headers).getAll name =
      if toReplace.getAll name = [] then headers.getAll name else toReplace.getAll name := by
  induction toReplace generalizing headers with
  | nil => rfl
  | cons header toReplace ih =>
      obtain ⟨replaced, value⟩ := header
      obtain ⟨hreplaced, hrest⟩ := List.nodup_cons.1 h
      have htail := ih hrest (headers.insert replaced value)
      rw [replaceHeaders, List.foldl_cons]
      rw [replaceHeaders] at htail
      rw [htail, HeaderMap.getAll_insert, HeaderMap.getAll_cons]
      by_cases hname : replaced = name
      · subst hname
        simp [HeaderMap.getAll_eq_nil_of_notMem hreplaced]
      · simp [hname, Ne.symm hname]

/-- A header that is removed has no value. -/
theorem getAll_removeHeaders (toRemove : List HeaderName) (headers : HeaderMap) (name : HeaderName) :
    (removeHeaders toRemove headers).getAll name =
      if name ∈ toRemove then [] else headers.getAll name := by
  have hfold : ∀ (names : List HeaderName) (headers : HeaderMap),
      (names.foldl HeaderMap.remove headers).getAll name =
        if name ∈ names then [] else headers.getAll name := by
    intro names
    induction names with
    | nil => simp
    | cons removed names ih =>
        intro headers
        rw [List.foldl_cons, ih, HeaderMap.getAll_remove]
        by_cases hname : name = removed <;> simp [hname]
  rw [removeHeaders, hfold]
  simp only [List.mem_reverse]

/-! ## Two requests -/

/-- The headers with which a client could forge what the proxy tells. -/
def forwardingHeaders : List HeaderName := [xForwardedFor, xForwardedProto, xForwardedHost, forwarded]

/-- Two requests differ in the forwarding headers only. -/
structure DifferInForwarding (r₁ r₂ : Parts) : Prop where
  method : r₁.method = r₂.method
  uri : r₁.uri = r₂.uri
  version : r₁.version = r₂.version
  headers : ∀ name ∉ forwardingHeaders, r₁.headers.getAll name = r₂.headers.getAll name

/-- Two header maps have the same names. -/
def SameNames (m₁ m₂ : HeaderMap) : Prop := ∀ name, m₁.getAll name = [] ↔ m₂.getAll name = []

theorem SameNames.insert {m₁ m₂ : HeaderMap} (h : SameNames m₁ m₂) (name : HeaderName)
    (v₁ v₂ : HeaderValue) : SameNames (m₁.insert name v₁) (m₂.insert name v₂) := by
  intro other
  rw [HeaderMap.getAll_insert, HeaderMap.getAll_insert]
  split
  · simp
  · exact h other

theorem SameNames.containsKey {m₁ m₂ : HeaderMap} (h : SameNames m₁ m₂) (name : HeaderName) :
    m₁.containsKey name = m₂.containsKey name := by
  rw [Bool.eq_iff_iff, HeaderMap.containsKey_iff, HeaderMap.containsKey_iff]
  exact not_congr (h name)

/-- The text may be a header value. -/
def IsHeaderText (text : Str) : Prop := ∀ b ∈ text.flatMap String.utf8EncodeChar, isHeaderByte b = true

theorem isHeaderText_append {s t : Str} : IsHeaderText (s ++ t) ↔ IsHeaderText s ∧ IsHeaderText t := by
  simp only [IsHeaderText, List.flatMap_append, List.mem_append]
  exact ⟨fun h => ⟨fun b hb => h b (Or.inl hb), fun b hb => h b (Or.inr hb)⟩,
    fun h b hb => hb.elim (h.1 b) (h.2 b)⟩

theorem headerValue_isSome_iff {text : Str} : (headerValue text).isSome = true ↔ IsHeaderText text := by
  rw [headerValue, IsHeaderText, ← List.all_eq_true]
  cases (text.flatMap String.utf8EncodeChar).all isHeaderByte <;> simp

/-- What `to_str` reads may be a header value again. -/
theorem isHeaderText_toStr {value : HeaderValue} {text : Str} (h : toStr value = some text) :
    IsHeaderText text := by
  rw [toStr] at h
  split at h
  · rename_i hall
    rw [← Option.some.inj h]
    intro b hb
    obtain ⟨c, hc, hbyte⟩ := List.mem_flatMap.1 hb
    obtain ⟨byte, hmem, rfl⟩ := List.mem_map.1 hc
    have hvisible := List.all_eq_true.1 hall byte hmem
    simp only [isVisibleAscii, Bool.or_eq_true, Bool.and_eq_true, decide_eq_true_eq,
      beq_iff_eq] at hvisible
    have hascii : IsAscii byte := by
      rcases hvisible with ⟨-, hlt⟩ | rfl
      · exact UInt8.lt_trans hlt (by decide)
      · decide
    have hchar : Char.ofNat byte.toNat = Char.ofUInt8 byte := by
      have hnat : (Char.ofUInt8 byte).toNat = byte.toNat := by
        change byte.toUInt32.toNat = byte.toNat
        simp
      rw [← hnat, Char.ofNat_toNat]
    rw [hchar, utf8EncodeChar_ofUInt8 hascii, List.mem_singleton] at hbyte
    rw [hbyte, isHeaderByte]
    rcases hvisible with ⟨hle, hlt⟩ | rfl
    · simp [hle, UInt8.ne_of_lt hlt]
    · decide
  · exact absurd h (by simp)

section TwoRequests

variable {r₁ r₂ : Parts} (h : DifferInForwarding r₁ r₂)

include h

/-- A placeholder of a header is always replaced by a text that may be a header value. -/
theorem isHeaderText_placeholderValue (socketData : Option SocketData) (placeholder : Str) :
    IsHeaderText (placeholderValue r₁ socketData placeholder) ↔
      IsHeaderText (placeholderValue r₂ socketData placeholder) := by
  have hheader : ∀ (r : Parts) (headerName : Str), IsHeaderText
      (match r.headers.get (lowerName headerName) with
        | some value => (toStr value).getD []
        | none => []) := by
    intro r headerName
    split
    · rename_i value _
      cases htext : toStr value with
      | none => simp [IsHeaderText]
      | some text => exact isHeaderText_toStr htext
    · simp [IsHeaderText]
  have hdata : dataPlaceholder r₁ socketData placeholder =
      dataPlaceholder r₂ socketData placeholder := by
    rw [dataPlaceholder, dataPlaceholder, h.uri, h.method, h.version]
  rw [placeholderValue, placeholderValue, hdata]
  cases dataPlaceholder r₂ socketData placeholder with
  | some => exact Iff.rfl
  | none =>
      cases headerPlaceholder placeholder with
      | none => exact Iff.rfl
      | some headerName => exact iff_of_true (hheader r₁ headerName) (hheader r₂ headerName)

omit h in
theorem rel_map {α β γ δ : Type} {r : α → β → Prop} {s : γ → δ → Prop} {f : α → γ} {g : β → δ}
    (hfg : ∀ a b, r a b → s (f a) (g b)) {x : Option α} {y : Option β} (hxy : Option.Rel r x y) :
    Option.Rel s (x.map f) (y.map g) := by
  cases hxy with
  | none => exact Option.Rel.none
  | some hab => exact Option.Rel.some (hfg _ _ hab)

/-- A text becomes a possible header value for both requests or for none of them. -/
theorem replaceFrom_rel (socketData : Option SocketData) (inside : Option Str) (input : Str) :
    Option.Rel (fun s t => IsHeaderText s ↔ IsHeaderText t)
      (replaceFrom r₁ socketData inside input) (replaceFrom r₂ socketData inside input) := by
  induction input generalizing inside with
  | nil =>
      cases inside with
      | none => exact Option.Rel.some Iff.rfl
      | some => exact Option.Rel.none
  | cons c input ih =>
      have hmap : ∀ front front' : Str, (IsHeaderText front ↔ IsHeaderText front') →
          Option.Rel (fun s t => IsHeaderText s ↔ IsHeaderText t)
            ((replaceFrom r₁ socketData none input).map (front ++ ·))
            ((replaceFrom r₂ socketData none input).map (front' ++ ·)) := by
        intro front front' hfront
        refine rel_map (fun s t htail => ?_) (ih none)
        rw [isHeaderText_append, isHeaderText_append, hfront, htail]
      cases inside with
      | none =>
          rw [replaceFrom, replaceFrom]
          split
          · exact ih (some [])
          · exact hmap [c] [c] Iff.rfl
      | some placeholder =>
          rw [replaceFrom, replaceFrom]
          split
          · exact hmap _ _ (isHeaderText_placeholderValue h socketData placeholder)
          · exact ih (some (placeholder ++ [c]))

/-- The configuration sets the same headers for both requests, with values that may differ. -/
theorem collectHeaders_rel (socketData : SocketData) (keepsFirst : Bool)
    (customHeaders : List (Str × Str)) {m₁ m₂ : HeaderMap}
    (hmaps : SameNames m₁ m₂ ∧ Single m₁ ∧ Single m₂) :
    Option.Rel (fun m₁ m₂ => SameNames m₁ m₂ ∧ Single m₁ ∧ Single m₂)
      (collectHeaders r₁ socketData keepsFirst customHeaders m₁)
      (collectHeaders r₂ socketData keepsFirst customHeaders m₂) := by
  induction customHeaders generalizing m₁ m₂ with
  | nil => exact Option.Rel.some hmaps
  | cons customHeader customHeaders ih =>
      obtain ⟨name, value⟩ := customHeader
      rw [collectHeaders, collectHeaders, hmaps.1.containsKey]
      split
      · exact ih hmaps
      · cases headerName name with
        | none => exact ih hmaps
        | some name =>
            dsimp only
            have htexts := replaceFrom_rel h (some socketData) none value
            rw [replaceHeaderPlaceholders, replaceHeaderPlaceholders]
            revert htexts
            generalize replaceFrom r₁ (some socketData) none value = text₁
            generalize replaceFrom r₂ (some socketData) none value = text₂
            intro htexts
            cases htexts with
            | none => exact Option.Rel.none
            | @some text₁ text₂ htext =>
                dsimp only
                rw [← headerValue_isSome_iff, ← headerValue_isSome_iff] at htext
                cases h₁ : headerValue text₁ with
                | none =>
                    cases h₂ : headerValue text₂ with
                    | none => exact ih hmaps
                    | some => simp [h₁, h₂] at htext
                | some v₁ =>
                    cases h₂ : headerValue text₂ with
                    | none => simp [h₁, h₂] at htext
                    | some v₂ =>
                        exact ih ⟨hmaps.1.insert name v₁ v₂, hmaps.2.1.insert name v₁,
                          hmaps.2.2.insert name v₂⟩

end TwoRequests

/-! ## What the proxy itself sets -/

/-- Two header maps agree on all but some names. -/
def Agree (names : List HeaderName) (m₁ m₂ : HeaderMap) : Prop :=
  ∀ name ∉ names, m₁.getAll name = m₂.getAll name

theorem Agree.mono {names names' : List HeaderName} {m₁ m₂ : HeaderMap} (h : Agree names m₁ m₂)
    (hsub : names ⊆ names') : Agree names' m₁ m₂ := fun name hname => h name fun hmem =>
  hname (hsub hmem)

/-- A name to which both give one value is agreed on. -/
theorem Agree.insert {names : List HeaderName} {name : HeaderName} {m₁ m₂ : HeaderMap}
    (h : Agree (name :: names) m₁ m₂) (value : HeaderValue) :
    Agree names (m₁.insert name value) (m₂.insert name value) := by
  intro other hother
  rw [HeaderMap.getAll_insert, HeaderMap.getAll_insert]
  split
  · rfl
  · rename_i hname
    exact h other (by simp [hname, hother])

/-- A name that both remove is agreed on. -/
theorem Agree.remove {names : List HeaderName} {name : HeaderName} {m₁ m₂ : HeaderMap}
    (h : Agree (name :: names) m₁ m₂) : Agree names (m₁.remove name) (m₂.remove name) := by
  intro other hother
  rw [HeaderMap.getAll_remove, HeaderMap.getAll_remove]
  split
  · rfl
  · rename_i hname
    exact h other (by simp [hname, hother])

/-- Both results are related, or both are the same error. -/
def RelExcept {α β : Type} (r : α → β → Prop) : Except ProxyError α → Except ProxyError β → Prop
  | .ok a, .ok b => r a b
  | .error e, .error e' => e = e'
  | _, _ => False

theorem RelExcept.bind {α β γ δ : Type} {r : α → β → Prop} {s : γ → δ → Prop}
    {x : Except ProxyError α} {y : Except ProxyError β} {f : α → Except ProxyError γ}
    {g : β → Except ProxyError δ} (h : RelExcept r x y)
    (hfg : ∀ a b, r a b → RelExcept s (f a) (g b)) : RelExcept s (x >>= f) (y >>= g) := by
  cases x <;> cases y
  case error.error => exact h
  case ok.ok a b => exact hfg a b h
  all_goals exact absurd h id

theorem RelExcept.imp {α β : Type} {r s : α → β → Prop} {x : Except ProxyError α}
    {y : Except ProxyError β} (h : RelExcept r x y) (hrs : ∀ a b, r a b → s a b) :
    RelExcept s x y := by
  cases x <;> cases y
  case error.error => exact h
  case ok.ok a b => exact hrs a b h
  all_goals exact absurd h id

/-- The results of both are known besides. -/
theorem RelExcept.eqs {α β : Type} {r : α → β → Prop} {x : Except ProxyError α}
    {y : Except ProxyError β} (h : RelExcept r x y) :
    RelExcept (fun a b => x = .ok a ∧ y = .ok b ∧ r a b) x y := by
  cases x <;> cases y
  case error.error => exact h
  case ok.ok a b => exact ⟨rfl, rfl, h⟩
  all_goals exact absurd h id

theorem relExcept_orError_of_rel {α β : Type} {r : α → β → Prop} {x : Option α} {y : Option β}
    (h : Option.Rel r x y) (error : ProxyError) :
    RelExcept (fun a b => x = some a ∧ y = some b ∧ r a b) (orError error x) (orError error y) := by
  cases h with
  | none => rfl
  | some hab => exact ⟨rfl, rfl, hab⟩

theorem relExcept_orError {α : Type} {r : α → α → Prop} (hr : ∀ a, r a a) (error : ProxyError)
    (x : Option α) : RelExcept r (orError error x) (orError error x) := by
  cases x with
  | none => rfl
  | some a => exact hr a

section Rewriting

variable {toLowercase : Str → Str} {url : ProxyRequestUrl} {socketData : SocketData}
  {names : List HeaderName} {m₁ m₂ : HeaderMap}

theorem setHost_rel (h : Agree names m₁ m₂) :
    RelExcept (Agree names) (setHost url m₁) (setHost url m₂) := by
  have hcons : Agree (host :: names) m₁ m₂ := h.mono (List.subset_cons_self _ _)
  rw [setHost, setHost]
  split
  · apply (relExcept_orError (fun _ => rfl) _ _).bind
    rintro value _ rfl
    exact hcons.insert value
  · exact hcons.remove

theorem setConnection_rel (h : Agree names m₁ m₂) (hconnection : connection ∉ names) :
    RelExcept (Agree names) (setConnection toLowercase m₁) (setConnection toLowercase m₂) := by
  have hcons : Agree (connection :: names) m₁ m₂ := h.mono (List.subset_cons_self _ _)
  have hget : m₁.get connection = m₂.get connection := by
    rw [HeaderMap.get_eq_head?, HeaderMap.get_eq_head?, h connection hconnection]
  rw [setConnection, setConnection, hget]
  split
  · dsimp only
    split
    · apply (relExcept_orError (fun _ => rfl) _ _).bind
      rintro value _ rfl
      exact hcons.insert value
    · exact h
  · exact hcons.insert _

/-- Without trust the addresses do not depend on the client's header. -/
theorem setForwardedFor_rel (h : Agree (xForwardedFor :: names) m₁ m₂) :
    RelExcept (Agree names) (setForwardedFor false socketData m₁)
      (setForwardedFor false socketData m₂) := by
  have hvalue : ∀ m : HeaderMap, (match (m.get xForwardedFor).bind toStr with
      | some forwardedFor => if false = true then
          forwardedFor ++ ", ".toList ++ displayIp socketData.remoteAddr.ip.toCanonical
        else displayIp socketData.remoteAddr.ip.toCanonical
      | none => displayIp socketData.remoteAddr.ip.toCanonical) =
      displayIp socketData.remoteAddr.ip.toCanonical := by
    intro m
    split <;> rfl
  rw [setForwardedFor, setForwardedFor, hvalue, hvalue]
  apply (relExcept_orError (fun _ => rfl) _ _).bind
  rintro value _ rfl
  exact h.insert value

/-- Without trust two requests that differ in the forwarding headers become requests that differ in the
forwarded host at most. -/
theorem rewriteHeaders_rel (h : Agree forwardingHeaders m₁ m₂) :
    RelExcept (Agree [xForwardedHost]) (rewriteHeaders toLowercase false socketData url m₁)
      (rewriteHeaders toLowercase false socketData url m₂) := by
  have hhost : m₁.get host = m₂.get host := by
    rw [HeaderMap.get_eq_head?, HeaderMap.get_eq_head?, h host (by decide)]
  rw [rewriteHeaders, rewriteHeaders, hhost]
  generalize m₂.get host = originalHost
  apply (setHost_rel h).bind
  intro m₁ m₂ h
  apply (setConnection_rel h (by decide)).bind
  intro m₁ m₂ h
  have hforwarded : Agree [xForwardedFor, xForwardedProto, xForwardedHost] (m₁.remove forwarded)
      (m₂.remove forwarded) := by
    apply Agree.remove
    exact h.mono (by decide)
  apply (setForwardedFor_rel hforwarded).bind
  intro m₁ m₂ h
  have hproto : Agree [xForwardedHost] (setForwardedProto false socketData m₁)
      (setForwardedProto false socketData m₂) := h.insert _
  -- both tell the host that the client has asked for, or both leave the header as it is
  rw [RelExcept.eq_def]
  dsimp only [pure, Except.pure]
  cases originalHost with
  | some value => exact (hproto.mono (List.subset_cons_self _ _)).insert value
  | none => exact hproto

/-! ## Which headers are there -/

/-- A header is set to some values, and the others are left as they are. -/
def Sets (name : HeaderName) (values : List HeaderValue) (m m' : HeaderMap) : Prop :=
  ∀ other, m'.getAll other = if other = name then values else m.getAll other

theorem sets_insert (name : HeaderName) (value : HeaderValue) (m : HeaderMap) :
    Sets name [value] m (m.insert name value) :=
  fun other => HeaderMap.getAll_insert m name other value

theorem sets_remove (name : HeaderName) (m : HeaderMap) : Sets name [] m (m.remove name) :=
  HeaderMap.getAll_remove m name

theorem sets_of_insert_orError {name : HeaderName} {error : ProxyError} {value : Option HeaderValue}
    {m m' : HeaderMap} (h : (do
      let value ← orError error value
      pure (m.insert name value)) = Except.ok m') : ∃ value, Sets name [value] m m' := by
  cases value with
  | none => exact absurd h (by simp [orError, Bind.bind, Except.bind])
  | some value =>
      refine ⟨value, ?_⟩
      rw [← Except.ok.inj h]
      exact sets_insert name value m

/-- The host is there when the URL has an authority. -/
theorem setHost_sets {m m' : HeaderMap} (h : setHost url m = .ok m') :
    ∃ values, (values ≠ [] ↔ url.authority ≠ none) ∧ Sets host values m m' := by
  rw [setHost] at h
  cases hauthority : url.authority with
  | some authority =>
      rw [hauthority] at h
      obtain ⟨value, hsets⟩ := sets_of_insert_orError h
      exact ⟨[value], by simp, hsets⟩
  | none =>
      rw [hauthority] at h
      rw [← Except.ok.inj h]
      exact ⟨[], by simp, sets_remove host m⟩

/-- The connection is always there. -/
theorem setConnection_sets {m m' : HeaderMap} (h : setConnection toLowercase m = .ok m') :
    ∃ values, values ≠ [] ∧ Sets connection values m m' := by
  rw [setConnection] at h
  split at h
  · rename_i value hget
    dsimp only at h
    split at h
    · obtain ⟨value, hsets⟩ := sets_of_insert_orError h
      exact ⟨[value], by simp, hsets⟩
    · refine ⟨m.getAll connection, ?_, fun other => ?_⟩
      · intro hnil
        rw [HeaderMap.get_eq_head?, hnil] at hget
        exact absurd hget (by simp)
      · rw [← Except.ok.inj h]
        split
        · rename_i hother
          rw [hother]
        · rfl
  · rw [← Except.ok.inj h]
    exact ⟨_, by simp, sets_insert connection _ m⟩

/-- The values of the forwarded host: the host that the client has asked for, or the client's copies. -/
def forwardedHost (headers : HeaderMap) : List HeaderValue :=
  match headers.get host with
  | some originalHost => [originalHost]
  | none => headers.getAll xForwardedHost

/-- A header other than the forwarded host that the backend server gets from the proxy. -/
def IsSent (url : ProxyRequestUrl) (headers : HeaderMap) (name : HeaderName) : Prop :=
  name = connection ∨ name = xForwardedFor ∨ name = xForwardedProto ∨
    (name = host ∧ url.authority ≠ none) ∨
    (name ≠ host ∧ name ≠ forwarded ∧ headers.getAll name ≠ [])

/-- What the headers are without trust. -/
theorem rewriteHeaders_values {m m' : HeaderMap}
    (h : rewriteHeaders toLowercase false socketData url m = .ok m') :
    m'.getAll xForwardedHost = forwardedHost m ∧
      ∀ name ≠ xForwardedHost, m'.getAll name ≠ [] ↔ IsSent url m name := by
  rw [rewriteHeaders] at h
  obtain ⟨m₁, h₁, h⟩ := exists_of_bind_ok h
  obtain ⟨m₂, h₂, h⟩ := exists_of_bind_ok h
  obtain ⟨m₃, h₃, h⟩ := exists_of_bind_ok h
  obtain ⟨hostValues, hhost, hsets₁⟩ := setHost_sets h₁
  obtain ⟨connectionValues, hconnection, hsets₂⟩ := setConnection_sets h₂
  obtain ⟨forwardedFor, hsets₃⟩ := sets_of_insert_orError h₃
  have hremove := sets_remove forwarded m₂
  have hproto : Sets xForwardedProto _ m₃ (setForwardedProto false socketData m₃) :=
    sets_insert xForwardedProto _ m₃
  have hvalues : ∀ name, (setForwardedProto false socketData m₃).getAll name =
      if name = xForwardedProto then
        [asciiBytes (if socketData.encrypted then "https".toList else "http".toList)]
      else if name = xForwardedFor then [forwardedFor]
      else if name = forwarded then []
      else if name = connection then connectionValues
      else if name = host then hostValues
      else m.getAll name := by
    intro name
    rw [hproto, hsets₃, hremove, hsets₂, hsets₁]
  have hresult : Sets xForwardedHost (forwardedHost m) (setForwardedProto false socketData m₃) m' := by
    rw [← Except.ok.inj h, forwardedHost]
    cases hget : m.get host with
    | some originalHost => exact sets_insert xForwardedHost originalHost _
    | none =>
        intro other
        split
        · rename_i hother
          rw [hother]
          exact hvalues xForwardedHost
        · rfl
  constructor
  · rw [hresult, if_pos rfl]
  · -- in the order in which the headers are set, the last one first
    intro name hname
    rw [hresult, if_neg hname, hvalues, IsSent]
    by_cases hproto : name = xForwardedProto
    · rw [if_pos hproto]
      exact iff_of_true (List.cons_ne_nil _ _) (Or.inr (Or.inr (Or.inl hproto)))
    by_cases hfor : name = xForwardedFor
    · rw [if_neg hproto, if_pos hfor]
      exact iff_of_true (List.cons_ne_nil _ _) (Or.inr (Or.inl hfor))
    by_cases hforwarded : name = forwarded
    · rw [if_neg hproto, if_neg hfor, if_pos hforwarded, hforwarded]
      have hnone : ¬(forwarded = connection ∨ forwarded = xForwardedFor ∨ forwarded = xForwardedProto ∨
          forwarded = host) := by decide
      refine iff_of_false (fun hne => hne rfl) ?_
      rintro (hname | hname | hname | ⟨hname, -⟩ | ⟨-, hname, -⟩)
      · exact hnone (Or.inl hname)
      · exact hnone (Or.inr (Or.inl hname))
      · exact hnone (Or.inr (Or.inr (Or.inl hname)))
      · exact hnone (Or.inr (Or.inr (Or.inr hname)))
      · exact hname rfl
    by_cases hconn : name = connection
    · rw [if_neg hproto, if_neg hfor, if_neg hforwarded, if_pos hconn]
      exact iff_of_true hconnection (Or.inl hconn)
    rw [if_neg hproto, if_neg hfor, if_neg hforwarded, if_neg hconn]
    by_cases hname : name = host
    · rw [if_pos hname, hhost]
      constructor
      · intro hauthority
        exact Or.inr (Or.inr (Or.inr (Or.inl ⟨hname, hauthority⟩)))
      · rintro (hc | hf | hp | ⟨-, hauthority⟩ | ⟨hne, -⟩)
        · exact absurd hc hconn
        · exact absurd hf hfor
        · exact absurd hp hproto
        · exact hauthority
        · exact absurd hname hne
    · rw [if_neg hname]
      simp [hproto, hfor, hforwarded, hconn, hname]

end Rewriting

/-! ## When the copies are hidden -/

section Hiding

variable (config : ServerConfiguration) (socketData : SocketData) (url : ProxyRequestUrl)

/-- What the configuration adds under a name, if it adds anything. -/
def added (requestParts : Parts) (name : HeaderName) : List HeaderValue :=
  ((headersToAdd requestParts socketData config).getD []).getAll name

/-- What the configuration puts in the place of a header, if it puts anything there. -/
def replaced (requestParts : Parts) (name : HeaderName) : List HeaderValue :=
  ((headersToReplace requestParts socketData config).getD []).getAll name

/-- The configuration removes or replaces a header. -/
def Overridden (requestParts : Parts) (name : HeaderName) : Prop :=
  name ∈ headersToRemove config ∨ replaced config socketData requestParts name ≠ []

/-- The values of a header, or what the configuration adds when there are none. -/
def orAdded (requestParts : Parts) (name : HeaderName) (values : List HeaderValue) :
    List HeaderValue :=
  if values = [] then added config socketData requestParts name else values

/-- The copies of the client stay hidden: the configuration does not pass them on by its placeholders, and
the client's forwarded host is overwritten or makes no difference. -/
structure CopiesHidden (r₁ r₂ : Parts) : Prop where
  replaced : ∀ name ∉ headersToRemove config,
    replaced config socketData r₁ name = replaced config socketData r₂ name
  added : ∀ name, ¬Overridden config socketData r₁ name → name ≠ xForwardedHost →
    ¬IsSent url r₁.headers name →
      added config socketData r₁ name = added config socketData r₂ name
  forwardedHost : r₁.headers.get host ≠ none ∨ Overridden config socketData r₁ xForwardedHost ∨
    orAdded config socketData r₁ xForwardedHost (r₁.headers.getAll xForwardedHost) =
      orAdded config socketData r₂ xForwardedHost (r₂.headers.getAll xForwardedHost)

variable {config socketData url} {r₁ r₂ : Parts} {m₁ m₂ : HeaderMap}

/-- The final values of a header. -/
theorem getAll_final {toAdd toReplace : HeaderMap} (hadd : Single toAdd) (hreplace : Single toReplace)
    (toRemove : List HeaderName) (m : HeaderMap) (name : HeaderName) :
    (removeHeaders toRemove (replaceHeaders toReplace (addHeaders toAdd m))).getAll name =
      if name ∈ toRemove then []
      else if toReplace.getAll name = [] then
        (if m.getAll name = [] then toAdd.getAll name else m.getAll name)
      else toReplace.getAll name := by
  rw [getAll_removeHeaders, getAll_replaceHeaders hreplace, getAll_addHeaders hadd]

/-- The final values of a header are the same for both requests when the configuration removes it, or sets
it to the same, or leaves the same of what the requests have. -/
theorem final_eq_iff {a₁ a₂ p₁ p₂ : HeaderMap} (hadd₁ : Single a₁) (hadd₂ : Single a₂)
    (hreplace₁ : Single p₁) (hreplace₂ : Single p₂) (hnames : SameNames p₁ p₂)
    (toRemove : List HeaderName) (m₁ m₂ : HeaderMap) (name : HeaderName) :
    (removeHeaders toRemove (replaceHeaders p₁ (addHeaders a₁ m₁))).getAll name =
        (removeHeaders toRemove (replaceHeaders p₂ (addHeaders a₂ m₂))).getAll name ↔
      name ∈ toRemove ∨ (p₁.getAll name = p₂.getAll name ∧ (p₁.getAll name = [] →
        (if m₁.getAll name = [] then a₁.getAll name else m₁.getAll name) =
          if m₂.getAll name = [] then a₂.getAll name else m₂.getAll name)) := by
  rw [getAll_final hadd₁ hreplace₁, getAll_final hadd₂ hreplace₂]
  by_cases hremove : name ∈ toRemove
  · simp [hremove]
  · rw [if_neg hremove, if_neg hremove]
    by_cases hnil : p₁.getAll name = []
    · rw [if_pos hnil, if_pos ((hnames name).1 hnil), hnil, (hnames name).1 hnil]
      simp [hremove]
    · rw [if_neg hnil, if_neg fun h => hnil ((hnames name).2 h)]
      simp [hremove, hnil]

/-- The headers are the same for both requests if and only if the copies stay hidden. -/
theorem sameHeaders_iff {toLowercase : Str → Str} (h : DifferInForwarding r₁ r₂)
    {a₁ a₂ p₁ p₂ : HeaderMap} (hadded₁ : headersToAdd r₁ socketData config = some a₁)
    (hadded₂ : headersToAdd r₂ socketData config = some a₂)
    (hreplaced₁ : headersToReplace r₁ socketData config = some p₁)
    (hreplaced₂ : headersToReplace r₂ socketData config = some p₂)
    (hadd : SameNames a₁ a₂ ∧ Single a₁ ∧ Single a₂) (hreplace : SameNames p₁ p₂ ∧ Single p₁ ∧ Single p₂)
    (hm₁ : rewriteHeaders toLowercase false socketData url r₁.headers = .ok m₁)
    (hm₂ : rewriteHeaders toLowercase false socketData url r₂.headers = .ok m₂)
    (hagree : Agree [xForwardedHost] m₁ m₂) :
    (∀ name, (removeHeaders (headersToRemove config) (replaceHeaders p₁ (addHeaders a₁ m₁))).getAll name =
      (removeHeaders (headersToRemove config) (replaceHeaders p₂ (addHeaders a₂ m₂))).getAll name) ↔
      CopiesHidden config socketData url r₁ r₂ := by
  have hfinal := final_eq_iff hadd.2.1 hadd.2.2 hreplace.2.1 hreplace.2.2 hreplace.1
    (headersToRemove config) m₁ m₂
  have hothers : ∀ name ≠ xForwardedHost, m₁.getAll name = m₂.getAll name := fun name hname =>
    hagree name (by simpa using hname)
  obtain ⟨hhost₁, hsent⟩ := rewriteHeaders_values hm₁
  obtain ⟨hhost₂, -⟩ := rewriteHeaders_values hm₂
  have hget : r₁.headers.get host = r₂.headers.get host := by
    rw [HeaderMap.get_eq_head?, HeaderMap.get_eq_head?, h.headers host (by decide)]
  have hadd₁ : ∀ name, added config socketData r₁ name = a₁.getAll name := fun name => by
    rw [added, hadded₁, Option.getD_some]
  have hadd₂ : ∀ name, added config socketData r₂ name = a₂.getAll name := fun name => by
    rw [added, hadded₂, Option.getD_some]
  have hreplace₁ : ∀ name, replaced config socketData r₁ name = p₁.getAll name := fun name => by
    rw [replaced, hreplaced₁, Option.getD_some]
  have hreplace₂ : ∀ name, replaced config socketData r₂ name = p₂.getAll name := fun name => by
    rw [replaced, hreplaced₂, Option.getD_some]
  have hkept : ∀ name, ¬Overridden config socketData r₁ name →
      name ∉ headersToRemove config ∧ p₁.getAll name = [] := by
    intro name hname
    rw [Overridden, hreplace₁, not_or, not_not] at hname
    exact hname
  constructor
  · intro hsame
    refine ⟨fun name hname => ?_, fun name hoverridden hname habsent => ?_, ?_⟩
    · rw [hreplace₁, hreplace₂]
      exact (((hfinal name).1 (hsame name)).resolve_left hname).1
    · obtain ⟨hremove, hnil⟩ := hkept name hoverridden
      have hnone₁ : m₁.getAll name = [] := not_not.1 fun hne => habsent ((hsent name hname).1 hne)
      have hnone₂ : m₂.getAll name = [] := hothers name hname ▸ hnone₁
      have hleft := (((hfinal name).1 (hsame name)).resolve_left hremove).2 hnil
      rw [if_pos hnone₁, if_pos hnone₂] at hleft
      rw [hadd₁, hadd₂]
      exact hleft
    · -- without a Host value the old X-Forwarded-Host stays, unless it is overridden
      by_cases hhost : r₁.headers.get host = none
      · by_cases hoverridden : Overridden config socketData r₁ xForwardedHost
        · exact Or.inr (Or.inl hoverridden)
        · obtain ⟨hremove, hnil⟩ := hkept xForwardedHost hoverridden
          have hleft := (((hfinal xForwardedHost).1 (hsame xForwardedHost)).resolve_left hremove).2 hnil
          rw [hhost₁, hhost₂, forwardedHost, forwardedHost, ← hget, hhost] at hleft
          rw [orAdded, orAdded, hadd₁, hadd₂]
          exact Or.inr (Or.inr hleft)
      · exact Or.inl hhost
  · intro hhidden name
    refine (hfinal name).2 (or_iff_not_imp_left.2 fun hremove => ?_)
    have hreplaced := hhidden.replaced name hremove
    rw [hreplace₁, hreplace₂] at hreplaced
    refine ⟨hreplaced, fun hnil => ?_⟩
    have hoverridden : ¬Overridden config socketData r₁ name := by
      rw [Overridden, hreplace₁]
      exact not_or.2 ⟨hremove, not_not.2 hnil⟩
    by_cases hname : name = xForwardedHost
    · subst hname
      rw [hhost₁, hhost₂, forwardedHost, forwardedHost, ← hget]
      rcases hhidden.forwardedHost with hhost | hover | hcopies
      · obtain ⟨originalHost, horiginal⟩ := Option.ne_none_iff_exists'.1 hhost
        rw [horiginal]
        rfl
      · exact absurd hover hoverridden
      · rw [orAdded, orAdded, hadd₁, hadd₂] at hcopies
        cases hhost : r₁.headers.get host with
        | none => exact hcopies
        | some => rfl
    · -- every other header is the same in both requests before headers are added
      rw [← hothers name hname]
      by_cases hnone : m₁.getAll name = []
      · rw [if_pos hnone, if_pos hnone, ← hadd₁, ← hadd₂]
        exact hhidden.added name hoverridden hname fun hmem => (hsent name hname).2 hmem hnone
      · rw [if_neg hnone, if_neg hnone]

/-- Without trust, two requests that differ in the forwarding headers only become requests with the same
headers if and only if the copies stay hidden; or both are not proxied, for one reason. -/
theorem constructProxyRequestParts_iff
    (parseUri : Str → Option (Uri × Option Str × Option Str)) (toLowercase : Str → Str)
    (config : ServerConfiguration) (socketData : SocketData) (url : ProxyRequestUrl)
    (htrust : trustXForwardedFor config = false) {r₁ r₂ : Parts} (h : DifferInForwarding r₁ r₂) :
    RelExcept (fun p₁ p₂ => p₁.method = p₂.method ∧ p₁.uri = p₂.uri ∧ p₁.version = p₂.version ∧
        p₁.scheme = p₂.scheme ∧ p₁.authority = p₂.authority ∧
        ((∀ name, p₁.headers.getAll name = p₂.headers.getAll name) ↔
          CopiesHidden config socketData url r₁ r₂))
      (constructProxyRequestParts parseUri toLowercase r₁ config socketData url)
      (constructProxyRequestParts parseUri toLowercase r₂ config socketData url) := by
  have hempty : SameNames [] [] ∧ Single [] ∧ Single [] :=
    ⟨fun _ => Iff.rfl, List.nodup_nil, List.nodup_nil⟩
  have haddRel : Option.Rel _ (headersToAdd r₁ socketData config) (headersToAdd r₂ socketData config) :=
    collectHeaders_rel h socketData true (customHeaders "proxy_request_header" config) hempty
  have hreplaceRel : Option.Rel _ (headersToReplace r₁ socketData config)
      (headersToReplace r₂ socketData config) :=
    collectHeaders_rel h socketData false (customHeaders "proxy_request_header_replace" config) hempty
  have hrewriteRel : RelExcept (Agree [xForwardedHost])
      (rewriteHeaders toLowercase false socketData url r₁.headers)
      (rewriteHeaders toLowercase false socketData url r₂.headers) := rewriteHeaders_rel h.headers
  rw [constructProxyRequestParts, constructProxyRequestParts, htrust, h.uri, h.method]
  apply (relExcept_orError_of_rel haddRel _).bind
  rintro a₁ a₂ ⟨ha₁, ha₂, hadd⟩
  apply (relExcept_orError_of_rel hreplaceRel _).bind
  rintro p₁ p₂ ⟨hp₁, hp₂, hreplace⟩
  apply (relExcept_orError (fun _ => rfl) _ _).bind
  rintro ⟨uri, scheme, authority⟩ _ rfl
  apply hrewriteRel.eqs.bind
  rintro m₁ m₂ ⟨hm₁, hm₂, hagree⟩
  exact ⟨rfl, rfl, rfl, rfl, rfl,
    sameHeaders_iff h ha₁ ha₂ hp₁ hp₂ hadd hreplace hm₁ hm₂ hagree⟩

end Hiding

/-! ## A request without a host -/

/-- Targets without a query. -/
def pathOnly (target : Str) : Option (Uri × Option Str × Option Str) :=
  if h : '?' ∉ target then some (⟨target, none, h⟩, none, none) else none

/-- A configuration without directives. -/
def plainConfig : ServerConfiguration := ⟨∅, ⟨true, none, none, none, none, none⟩⟩

/-- A request with some headers. -/
def requestWith (headers : List (String × String)) : Parts where
  method := .get
  uri := ⟨['/'], none, fun h => absurd (List.mem_singleton.1 h) (by decide)⟩
  headers := headers.map fun header => (header.1.toList, asciiBytes header.2.toList)
  version := .http10
  scheme := none
  authority := none

/-- A connection from the local network. -/
def plainSocket : SocketData := ⟨⟨.v4 0x0a000001, 1000⟩, ⟨.v4 0x0a000002, 80⟩, false⟩

/-- The values of a header that the backend server gets. -/
def backendValues (headers : List (String × String)) (name : HeaderName) : List HeaderValue :=
  match constructProxyRequestParts pathOnly id (requestWith headers) plainConfig plainSocket
      ⟨some "backend".toList, ['/']⟩ with
  | .ok requestParts => requestParts.headers.getAll name
  | .error _ => []

theorem differInForwarding_requestWith {headers headers' : List (String × String)}
    (h : ∀ name ∉ forwardingHeaders, (requestWith headers).headers.getAll name =
      (requestWith headers').headers.getAll name) :
    DifferInForwarding (requestWith headers) (requestWith headers') := ⟨rfl, rfl, rfl, h⟩

/-- Of a request without a host the backend server gets the client's forwarded host, though the
forwarding headers are not trusted. -/
theorem forwardedHost_forged :
    trustXForwardedFor plainConfig = false ∧
    DifferInForwarding (requestWith []) (requestWith [("x-forwarded-host", "forged")]) ∧
    backendValues [] xForwardedHost = [] ∧
    backendValues [("x-forwarded-host", "forged")] xForwardedHost =
      [asciiBytes "forged".toList] := by
  refine ⟨rfl, differInForwarding_requestWith fun name hname => ?_, rfl, rfl⟩
  have hne : xForwardedHost ≠ name := fun hsame => hname (by simp [forwardingHeaders, ← hsame])
  exact ((HeaderMap.getAll_cons xForwardedHost name _ []).trans (if_neg hne)).symm

/-- With a host the client's copies stay hidden. -/
theorem constructProxyRequestParts_iff_host :
    RelExcept (fun p₁ p₂ => ∀ name, p₁.headers.getAll name = p₂.headers.getAll name)
      (constructProxyRequestParts pathOnly id (requestWith [("host", "a")]) plainConfig plainSocket
        ⟨none, ['/']⟩)
      (constructProxyRequestParts pathOnly id
        (requestWith [("host", "a"), ("x-forwarded-host", "forged")]) plainConfig plainSocket
        ⟨none, ['/']⟩) := by
  have hdiffer : DifferInForwarding (requestWith [("host", "a")])
      (requestWith [("host", "a"), ("x-forwarded-host", "forged")]) := by
    apply differInForwarding_requestWith
    intro name hname
    have hne : xForwardedHost ≠ name := fun hsame => hname (by simp [forwardingHeaders, ← hsame])
    have hcopy : HeaderMap.getAll [(xForwardedHost, asciiBytes "forged".toList)] name = [] :=
      (HeaderMap.getAll_cons xForwardedHost name _ []).trans (if_neg hne)
    change HeaderMap.getAll [(host, asciiBytes ['a'])] name =
      HeaderMap.getAll [(host, asciiBytes ['a']), (xForwardedHost, asciiBytes "forged".toList)] name
    rw [HeaderMap.getAll_cons, HeaderMap.getAll_cons, hcopy]
    rfl
  have hiff := constructProxyRequestParts_iff pathOnly id plainConfig plainSocket ⟨none, ['/']⟩ rfl
    hdiffer
  have hhidden : CopiesHidden plainConfig plainSocket ⟨none, ['/']⟩ (requestWith [("host", "a")])
      (requestWith [("host", "a"), ("x-forwarded-host", "forged")]) :=
    ⟨fun _ _ => rfl, fun _ _ _ _ => rfl, Or.inl (by decide)⟩
  apply hiff.imp
  rintro p₁ p₂ ⟨-, -, -, -, -, hheaders⟩
  exact hheaders.2 hhidden

end Ferron.Modules.ForwardedHeaders
