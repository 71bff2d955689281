import Ferron.Common.IpDisplay
import Ferron.Http.Request

/-!
# Placeholders

A configured text may have placeholders in braces, which stand for data of a request. The placeholders
that stand for data of the connection are left as they are when there are no such data. An opening brace
without a closing one keeps the loop going forever (`replaceHeaderPlaceholders_unclosed`).
-/

set_option autoImplicit false

namespace Ferron.Common

open Ferron.Http

/-- `SocketAddr`. -/
structure SocketAddr where
  ip : IpAddr
  port : UInt16
  deriving DecidableEq

/-- `SocketData`. -/
structure SocketData where
  remoteAddr : SocketAddr
  localAddr : SocketAddr
  encrypted : Bool
  deriving DecidableEq

/-- `Parts`: the head of a request with the version and with what its target starts with. -/
structure Parts extends Request where
  version : Version
  scheme : Option Str
  authority : Option Str
  deriving DecidableEq

/-- The version as it is displayed. -/
def displayVersion : Version → Str
  | .http09 => "HTTP/0.9".toList
  | .http10 => "HTTP/1.0".toList
  | .http11 => "HTTP/1.1".toList
  | .http2 => "HTTP/2.0".toList
  | .http3 => "HTTP/3.0".toList

/-- The query behind a path, with the question mark. -/
def displayQuery : Option Str → Str
  | none => []
  | some query => '?' :: query

/-- The name of a header as header maps keep it. -/
def lowerName (name : Str) : HeaderName := name.map Char.toLower

/-- The rest of a placeholder that names a header. -/
def headerPlaceholder (placeholder : Str) : Option Str :=
  if "header:".toList.isPrefixOf placeholder then some (placeholder.drop 7) else none

section Replacement

variable (requestParts : Parts) (socketData : Option SocketData)

/-- A placeholder as it stands in the text. -/
def asItIs (placeholder : Str) : Str := '{' :: placeholder ++ ['}']

/-- A placeholder for data of the connection. Without them it is left as it is. -/
def socketPlaceholder (placeholder : Str) (value : SocketData → Str) : Str :=
  (socketData.map value).getD (asItIs placeholder)

/-- What is put out for a placeholder that names no header, if it is known. -/
def dataPlaceholder (placeholder : Str) : Option Str :=
  if placeholder = "path".toList then some requestParts.uri.path
  else if placeholder = "path_and_query".toList then
    some (requestParts.uri.path ++ displayQuery requestParts.uri.query)
  else if placeholder = "method".toList then some requestParts.method.token
  else if placeholder = "version".toList then some (displayVersion requestParts.version)
  else if placeholder = "scheme".toList then
    some (socketPlaceholder socketData placeholder fun socketData =>
      if socketData.encrypted then "https".toList else "http".toList)
  else if placeholder = "client_ip".toList then
    some (socketPlaceholder socketData placeholder fun socketData =>
      displayIp socketData.remoteAddr.ip)
  else if placeholder = "client_port".toList then
    some (socketPlaceholder socketData placeholder fun socketData =>
      displayNat 10 socketData.remoteAddr.port.toNat)
  else if placeholder = "client_ip_canonical".toList then
    some (socketPlaceholder socketData placeholder fun socketData =>
      displayIp socketData.remoteAddr.ip.toCanonical)
  else if placeholder = "server_ip".toList then
    some (socketPlaceholder socketData placeholder fun socketData =>
      displayIp socketData.localAddr.ip)
  else if placeholder = "server_port".toList then
    some (socketPlaceholder socketData placeholder fun socketData =>
      displayNat 10 socketData.localAddr.port.toNat)
  else if placeholder = "server_ip_canonical".toList then
    some (socketPlaceholder socketData placeholder fun socketData =>
      displayIp socketData.localAddr.ip.toCanonical)
  else none

/-- What is put out for a placeholder. -/
def placeholderValue (placeholder : Str) : Str :=
  match dataPlaceholder requestParts socketData placeholder with
  | some text => text
  | none =>
      match headerPlaceholder placeholder with
      | some headerName =>
          match requestParts.headers.get (lowerName headerName) with
          | some value => (toStr value).getD []
          | none => []
      | none => asItIs placeholder

/-- The loop, from inside a placeholder whose text so far is given, or from outside of one. It has no
result when it goes on forever. -/
def replaceFrom : Option Str → Str → Option Str
  | none, [] => some []
  -- the text from the brace on is put out over and over
  | some _, [] => none
  | none, c :: input =>
      if c = '{' then replaceFrom (some []) input else (replaceFrom none input).map (c :: ·)
  | some placeholder, c :: input =>
      if c = '}' then
        (replaceFrom none input).map (placeholderValue requestParts socketData placeholder ++ ·)
      else replaceFrom (some (placeholder ++ [c])) input

/-- `replace_header_placeholders`. -/
def replaceHeaderPlaceholders (input : Str) : Option Str :=
  replaceFrom requestParts socketData none input

/-- The text before the first brace is put out. -/
theorem replaceHeaderPlaceholders_append {before : Str} (hbefore : '{' ∉ before) (input : Str) :
    replaceHeaderPlaceholders requestParts socketData (before ++ input) =
      (replaceHeaderPlaceholders requestParts socketData input).map (before ++ ·) := by
  induction before with
  | nil => simp
  | cons c before ih =>
      rw [List.mem_cons, not_or] at hbefore
      have htail := ih hbefore.2
      rw [replaceHeaderPlaceholders] at htail ⊢
      rw [List.cons_append, replaceFrom, if_neg (Ne.symm hbefore.1), htail, Option.map_map]
      rfl

/-- A text without braces has nothing to replace. -/
theorem replaceHeaderPlaceholders_eq_self {input : Str} (h : '{' ∉ input) :
    replaceHeaderPlaceholders requestParts socketData input = some input := by
  have hall := replaceHeaderPlaceholders_append requestParts socketData h []
  rw [List.append_nil] at hall
  rw [hall]
  simp [replaceHeaderPlaceholders, replaceFrom]

theorem replaceFrom_placeholder {placeholder : Str} (hplaceholder : '}' ∉ placeholder)
    (read after : Str) :
    replaceFrom requestParts socketData (some read) (placeholder ++ after) =
      replaceFrom requestParts socketData (some (read ++ placeholder)) after := by
  induction placeholder generalizing read with
  | nil => simp
  | cons c placeholder ih =>
      rw [List.mem_cons, not_or] at hplaceholder
      rw [List.cons_append, replaceFrom, if_neg (Ne.symm hplaceholder.1), ih hplaceholder.2,
        List.append_assoc]
      rfl

/-- A placeholder is replaced, and the replacement goes on behind it. -/
theorem replaceHeaderPlaceholders_placeholder {placeholder : Str} (hplaceholder : '}' ∉ placeholder)
    (after : Str) :
    replaceHeaderPlaceholders requestParts socketData (asItIs placeholder ++ after) =
      (replaceHeaderPlaceholders requestParts socketData after).map
        (placeholderValue requestParts socketData placeholder ++ ·) := by
  rw [replaceHeaderPlaceholders, asItIs, List.cons_append, List.cons_append, replaceFrom, if_pos rfl,
    List.append_assoc, replaceFrom_placeholder _ _ hplaceholder, List.singleton_append, replaceFrom,
    if_pos rfl]
  rfl

/-- A brace that is not closed keeps the loop going. -/
theorem replaceHeaderPlaceholders_unclosed {before after : Str} (hbefore : '{' ∉ before)
    (hafter : '}' ∉ after) :
    replaceHeaderPlaceholders requestParts socketData (before ++ '{' :: after) = none := by
  have hopen : replaceFrom requestParts socketData (some []) after = none := by
    rw [← List.append_nil after, replaceFrom_placeholder _ _ hafter, List.nil_append, replaceFrom]
  rw [replaceHeaderPlaceholders_append _ _ hbefore, replaceHeaderPlaceholders, replaceFrom, if_pos rfl,
    hopen]
  rfl

end Replacement

end Ferron.Common
