import Ferron.Config.FindConfiguration
import Ferron.Config.MatchCondition
import Ferron.Util.SanitizedTwice

/-!
# The configuration and the path of a request

The request handler looks for the configuration of the path that it has received. By the settings of this
configuration it sanitizes the path, and it looks for the configuration of what comes out. The settings
of that one are not applied: `routeRequest_agrees_iff` says when the path is one that they would leave as
it is.
-/

set_option autoImplicit false

namespace Ferron.RequestRouting

open Ferron.Common Ferron.Config Ferron.Util.UrlSanitizer

/-! ## The settings of the sanitizer -/

/-- `disable_url_sanitizer`. -/
def disableUrlSanitizer (configuration : ServerConfiguration) : Bool :=
  ((configuration.getValue "disable_url_sanitizer".toList).bind
    ServerConfigurationValue.asBool).getD false

/-- `allow_double_slashes`. -/
def allowDoubleSlashes (configuration : ServerConfiguration) : Bool :=
  ((configuration.getValue "allow_double_slashes".toList).bind
    ServerConfigurationValue.asBool).getD false

/-! ## Routing -/

/-- The server that a request has come to: its configurations, the connection, the host that is asked for,
and other libraries. The HTTP library reads a path with a query and puts it in the place of those of a
request. -/
structure Server where
  configurations : ServerConfigurations
  hostname : Option Str
  socketData : SocketData
  matcher : Matcher
  toLowercase : Str → Str
  replacePathAndQuery : Parts → Bytes → Option Http.Uri

/-- Where a request goes: to the modules of a configuration, to an error response, or, when placeholders
are replaced forever, nowhere. -/
inductive Routed where
  | modules (request : Parts) (configuration : ServerConfiguration)
  | error (status : Nat)
  | never

namespace Server

variable (server : Server)

/-- The configuration of a request. -/
def configurationFor (request : Parts) : Except Failure (Option ServerConfiguration) :=
  findConfiguration (matchCondition server.matcher request server.socketData) server.toLowercase
    server.configurations request.uri.path server.hostname
    ⟨server.socketData.localAddr.ip, server.socketData.localAddr.port⟩

/-- `configuration_option` for a sanitized path. If there is no configuration, the one before stays. -/
def routeSanitized (configuration : ServerConfiguration) (request : Parts) : Routed :=
  match server.configurationFor request with
  | .ok (some newConfiguration) => .modules request newConfiguration
  | .ok none => .modules request configuration
  | .error (.error _) => .error 400
  | .error .diverges => .never

/-- The part of `request_handler` from the lookup of the configuration up to the handlers of the
modules. -/
def routeRequest (request : Parts) : Routed :=
  match server.configurationFor request with
  | .error (.error _) => .error 500
  | .error .diverges => .never
  | .ok none => .error 500
  | .ok (some configuration) =>
      if disableUrlSanitizer configuration then .modules request configuration
      else
        let urlPathname := Utf8String.ofStr request.uri.path
        match sanitizeUrl urlPathname (allowDoubleSlashes configuration) with
        | .error _ => .error 400
        | .ok sanitizedUrlPathname =>
            if sanitizedUrlPathname.bytes ≠ urlPathname.bytes then
              match server.replacePathAndQuery request
                  (sanitizedUrlPathname.bytes ++
                    (Utf8String.ofStr (displayQuery request.uri.query)).bytes) with
              | none => .error 400
              | some uri => server.routeSanitized configuration { request with uri := uri }
            else .modules request configuration

/-! ## Agreement -/

/-- The configuration is that of the path, and the sanitizer would not change the path: it is disabled, and
the path is the one that was received, or by its settings it leaves the path as it is. -/
structure Agrees (received request : Parts) (configuration : ServerConfiguration) : Prop where
  inForce : server.configurationFor request = .ok (some configuration)
  path : disableUrlSanitizer configuration = true ∧ request.uri.path = received.uri.path ∨
    sanitizeUrl (.ofStr request.uri.path) (allowDoubleSlashes configuration) =
      .ok (.ofStr request.uri.path)

/-- The path received is sanitized, and it is another one then. -/
def Rewrites (received : Parts) (configuration : ServerConfiguration) (rewritten : Parts) : Prop :=
  server.configurationFor received = .ok (some configuration) ∧
    disableUrlSanitizer configuration = false ∧
    ∃ sanitized uri,
      sanitizeUrl (.ofStr received.uri.path) (allowDoubleSlashes configuration) = .ok sanitized ∧
        sanitized ≠ .ofStr received.uri.path ∧
        server.replacePathAndQuery received
          (sanitized.bytes ++ (Utf8String.ofStr (displayQuery received.uri.query)).bytes) = some uri ∧
        rewritten = { received with uri := uri }

/-- A path that is rewritten has a configuration again. If double slashes were allowed in its first
configuration, they are in the second one too, and the sanitizer would not write one slash more, or they
are not allowed, and there are none. -/
def KeepsSettings (received : Parts) : Prop :=
  ∀ first rewritten, server.Rewrites received first rewritten →
    ∃ second, server.configurationFor rewritten = .ok (some second) ∧
      (allowDoubleSlashes first = true →
        if allowDoubleSlashes second then ¬ GrowsAgain (.ofStr received.uri.path)
        else ¬ KeepsDoubleSlash (.ofStr received.uri.path))

/-- The library reads a path without a question mark and without a number sign as it is. -/
def ReadsPath (server : Server) : Prop :=
  ∀ request path query uri, path ≠ [] → (0x3f : UInt8) ∉ path → (0x23 : UInt8) ∉ path →
    server.replacePathAndQuery request (path ++ (Utf8String.ofStr (displayQuery query)).bytes) =
      some uri → (Utf8String.ofStr uri.path).bytes = path

end Server

/-! ## Bytes of a sanitized path -/

/-- The characters of a text that are ASCII are its bytes that are. -/
theorem mem_of_mem_ofStr {s : Str} {b : UInt8} (hb : IsAscii b) (h : b ∈ (Utf8String.ofStr s).bytes) :
    Char.ofUInt8 b ∈ s := by
  obtain ⟨c, hc, hmem⟩ := List.mem_flatMap.1 h
  rcases utf8EncodeChar_ascii_or c with ⟨a, -, hencoded⟩ | hnone
  · rw [hencoded] at hmem
    have hsize : c.utf8Size = 1 := by
      rw [← String.length_utf8EncodeChar, hencoded]
      rfl
    have hval : c.val.toNat ≤ 127 := UInt32.le_iff_toNat_le.1 (Char.utf8Size_eq_one_iff.1 hsize)
    rw [String.utf8EncodeChar_eq_singleton hsize] at hencoded
    have hbyte : b = c.val.toUInt8 :=
      (List.mem_singleton.1 hmem).trans (List.cons.inj hencoded).1.symm
    have hchar : Char.ofUInt8 b = c := by
      rw [hbyte]
      apply Char.ext
      apply UInt32.toNat_inj.1
      change c.val.toUInt8.toUInt32.toNat = _
      rw [UInt8.toNat_toUInt32, UInt32.toNat_toUInt8, Nat.mod_eq_of_lt (by omega)]
    rw [hchar]
    exact hc
  · exact absurd hb (hnone b hmem)

/-- A byte that is neither safe nor part of an escape is read only where it stands. -/
theorem mem_of_mem_spell_readPath {bytes : Bytes} {path : List PathByte} {c : UInt8}
    (h : readPath bytes = some path) (hsafe : safeChars c = false) (hpercent : c ≠ percent)
    (hhex : isAsciiHexdigit c = false) (hc : c ∈ spell path) : c ∈ bytes := by
  have hescape : ∀ {hi lo : UInt8} {inner : List PathByte}, isAsciiHexdigit hi = true →
      isAsciiHexdigit lo = true → c ∈ spell (.escape hi lo :: inner) → c ∈ spell inner := by
    intro hi lo inner hhi hlo hmem
    rw [spell_cons, PathByte.spell, List.mem_append] at hmem
    refine hmem.resolve_left fun hmem => ?_
    simp only [List.mem_cons, List.not_mem_nil, or_false] at hmem
    rcases hmem with rfl | rfl | rfl
    · exact hpercent rfl
    · exact Bool.false_ne_true (hhex.symm.trans hhi)
    · exact Bool.false_ne_true (hhex.symm.trans hlo)
  have hbehind : ∀ {byte hi lo : UInt8} {rest : Bytes}, c ∈ rest → c ∈ byte :: hi :: lo :: rest :=
    fun hmem => List.mem_cons_of_mem _ (List.mem_cons_of_mem _ (List.mem_cons_of_mem _ hmem))
  replace h := reads_of_readPath h
  induction h with
  | nil => exact hc
  | null _ ih => exact List.mem_cons_of_mem _ (ih hc)
  | escapedNull _ _ _ ih => exact hbehind (ih hc)
  | safe _ _ hvalue _ ih =>
      rw [spell_cons, PathByte.spell, List.mem_append, List.mem_singleton] at hc
      rcases hc with rfl | hc
      · exact absurd (hsafe.symm.trans hvalue) Bool.false_ne_true
      · exact hbehind (ih hc)
  | escape hstable _ ih => exact hbehind (ih (hescape hstable.1 hstable.2.1 hc))
  | special hspecial _ ih =>
      have hkept := kept_hexChar _ hspecial
      exact List.mem_cons_of_mem _ (ih (hescape hkept.1 hkept.2.1 hc))
  | plain _ _ ih =>
      rw [spell_cons, PathByte.spell, List.mem_append, List.mem_singleton] at hc
      rcases hc with rfl | hc
      · exact List.mem_cons_self
      · exact List.mem_cons_of_mem _ (ih hc)

/-- Such a byte is in the sanitized path only where it was in the path. -/
theorem mem_of_mem_sanitizeUrl {resource sanitized : Utf8String} {allow : Bool}
    (hok : sanitizeUrl resource allow = .ok sanitized) {c : UInt8} (hsafe : safeChars c = false)
    (hpercent : c ≠ percent) (hhex : isAsciiHexdigit c = false) (hc : c ∈ sanitized.bytes) :
    c ∈ resource.bytes := by
  by_cases hresource : resource.bytes = asciiBytes "*".toList ∨ resource.bytes = []
  · rw [sanitizeUrl, if_pos hresource] at hok
    rw [Except.ok.inj hok]
    exact hc
  · have hspelled := sanitizeUrl_eq allow hresource
    cases hread : readPath resource.bytes with
    | none =>
        rw [hread] at hspelled
        cases hok.symm.trans hspelled
    | some path =>
        rw [hread] at hspelled
        obtain ⟨result, n, m, hresult, hbytes⟩ := hspelled
        rw [Except.ok.inj (hok.symm.trans hresult), hbytes] at hc
        apply mem_of_mem_spell_readPath hread hsafe hpercent hhex
        have hslash : c ≠ slash := by
          rintro rfl
          exact absurd (safeChars_slash.symm.trans hsafe) (by decide)
        obtain ⟨b, hb, hcb⟩ := List.mem_flatMap.1 hc
        refine List.mem_flatMap.2 ⟨b, ?_, hcb⟩
        have hname : b ≠ slashByte := by
          rintro rfl
          exact hslash (List.mem_singleton.1 hcb)
        rcases List.mem_append.1 hb with hb | hb
        · rcases List.mem_append.1 hb with hb | hb
          · exact absurd (List.eq_of_mem_replicate hb) hname
          · obtain ⟨name, hmem, hb⟩ := List.mem_flatMap.1 hb
            exact (mem_name hmem ((List.mem_cons.1 hb).resolve_left hname)).1
        · exact absurd (List.eq_of_mem_replicate hb) hname

/-- The sanitizer leaves no path empty but the empty one. -/
theorem sanitizeUrl_ne_nil {resource sanitized : Utf8String} {allow : Bool}
    (hok : sanitizeUrl resource allow = .ok sanitized) (hne : sanitized ≠ resource) :
    sanitized.bytes ≠ [] := by
  by_cases hresource : resource.bytes = asciiBytes "*".toList ∨ resource.bytes = []
  · rw [sanitizeUrl, if_pos hresource] at hok
    exact absurd (Except.ok.inj hok).symm hne
  · have hspelled := sanitizeUrl_eq allow hresource
    cases hread : readPath resource.bytes with
    | none =>
        rw [hread] at hspelled
        cases hok.symm.trans hspelled
    | some path =>
        obtain ⟨result, hresult, hbytes⟩ := sanitizeUrl_bytes allow hresource hread
        rw [Except.ok.inj (hok.symm.trans hresult), hbytes]
        obtain ⟨part, parts, hparts⟩ := List.exists_cons_of_ne_nil (resultParts_ne_nil _ _ _)
        rw [hparts]
        exact List.cons_ne_nil _ _

/-! ## The configuration in force -/

namespace Server

variable {server : Server} {received request : Parts} {configuration : ServerConfiguration}

/-- What the library reads of a sanitized path is that path. -/
theorem ofStr_replaced (hreads : ReadsPath server) (hhash : '#' ∉ received.uri.path)
    {sanitized : Utf8String} {allow : Bool} {uri : Http.Uri}
    (hok : sanitizeUrl (.ofStr received.uri.path) allow = .ok sanitized)
    (hne : sanitized ≠ .ofStr received.uri.path)
    (huri : server.replacePathAndQuery received
      (sanitized.bytes ++ (Utf8String.ofStr (displayQuery received.uri.query)).bytes) = some uri) :
    Utf8String.ofStr uri.path = sanitized := by
  have hquestion : (0x3f : UInt8) ∉ sanitized.bytes := fun hmem =>
    received.uri.path_no_question (mem_of_mem_ofStr (by decide) (mem_of_mem_sanitizeUrl hok
      (by rw [safeChars_eq]; decide) (by decide) (by decide) hmem))
  have hsign : (0x23 : UInt8) ∉ sanitized.bytes := fun hmem =>
    hhash (mem_of_mem_ofStr (by decide) (mem_of_mem_sanitizeUrl hok
      (by rw [safeChars_eq]; decide) (by decide) (by decide) hmem))
  exact eq_of_bytes (hreads received _ _ uri (sanitizeUrl_ne_nil hok hne) hquestion hsign huri)

/-- A path is rewritten in one way. -/
theorem Rewrites.unique {first other : ServerConfiguration} {rewritten again : Parts}
    (h : server.Rewrites received first rewritten) (hother : server.Rewrites received other again) :
    other = first ∧ again = rewritten := by
  obtain ⟨hfind, -, sanitized, uri, hok, -, huri, rfl⟩ := h
  obtain ⟨hfind', -, sanitized', uri', hok', -, huri', rfl⟩ := hother
  have hfirst := Option.some.inj (Except.ok.inj (hfind'.symm.trans hfind))
  rw [hfirst, hok] at hok'
  rw [← Except.ok.inj hok', huri] at huri'
  exact ⟨hfirst, by rw [Option.some.inj huri']⟩

/-- A path that is not rewritten keeps its settings. -/
theorem keepsSettings_of_not_rewrites
    (h : ∀ first rewritten, ¬ server.Rewrites received first rewritten) :
    server.KeepsSettings received :=
  fun first rewritten hrewrites => absurd hrewrites (h first rewritten)

/-- A request goes to the modules with its path as it is, or with its path rewritten. -/
theorem routeRequest_cases (hroute : server.routeRequest received = .modules request configuration) :
    (server.Agrees received request configuration ∧
        ∀ first rewritten, ¬ server.Rewrites received first rewritten) ∨
      ∃ first, server.Rewrites received first request ∧
        server.routeSanitized first request = .modules request configuration := by
  rw [routeRequest] at hroute
  split at hroute
  · exact nomatch hroute
  · exact nomatch hroute
  · exact nomatch hroute
  rename_i first hfind
  have hfirst : ∀ {other rewritten}, server.Rewrites received other rewritten → other = first :=
    fun h => Option.some.inj (Except.ok.inj (h.1.symm.trans hfind))
  split at hroute
  · -- the sanitizer is disabled
    rename_i hdisabled
    obtain ⟨rfl, rfl⟩ := Routed.modules.inj hroute
    refine .inl ⟨⟨hfind, .inl ⟨hdisabled, rfl⟩⟩, fun other rewritten h => ?_⟩
    have henabled := h.2.1
    rw [hfirst h] at henabled
    exact Bool.false_ne_true (henabled.symm.trans hdisabled)
  rename_i henabled
  dsimp only at hroute
  split at hroute
  · exact nomatch hroute
  rename_i sanitized hok
  split at hroute
  · rename_i hbytes
    have hne : sanitized ≠ .ofStr received.uri.path := fun h => hbytes (by rw [h])
    split at hroute
    · exact nomatch hroute
    -- the request goes on with the sanitized path, and is routed once more
    · rename_i uri huri
      have hrewrites : server.Rewrites received first { received with uri := uri } :=
        ⟨hfind, Bool.eq_false_iff.2 henabled, sanitized, uri, hok, hne, huri, rfl⟩
      have hrequest : request = { received with uri := uri } := by
        rw [routeSanitized] at hroute
        split at hroute
        · exact (Routed.modules.inj hroute).1.symm
        · exact (Routed.modules.inj hroute).1.symm
        · exact nomatch hroute
        · exact nomatch hroute
      rw [hrequest] at hroute ⊢
      exact .inr ⟨first, hrewrites, hroute⟩
  · -- the path is sanitized already
    rename_i hbytes
    have hsame : sanitized = .ofStr received.uri.path := eq_of_bytes (not_not.1 hbytes)
    obtain ⟨rfl, rfl⟩ := Routed.modules.inj hroute
    refine .inl ⟨⟨hfind, .inr (by rw [hok, hsame])⟩, fun other rewritten h => ?_⟩
    have hother := hfirst h
    obtain ⟨-, -, sanitized', uri, hok', hne, -⟩ := h
    rw [hother, hok] at hok'
    exact hne ((Except.ok.inj hok').symm.trans hsame)

/-- The configuration that a request goes to is the one of its path, and its settings would not change
the path, exactly when rewriting keeps the settings. -/
theorem routeRequest_agrees_iff (hreads : ReadsPath server) (hhash : '#' ∉ received.uri.path)
    (hroute : server.routeRequest received = .modules request configuration) :
    server.Agrees received request configuration ↔ server.KeepsSettings received := by
  rcases routeRequest_cases hroute with ⟨hagrees, hnot⟩ | ⟨first, hrewrites, hsanitized⟩
  · exact iff_of_true hagrees (keepsSettings_of_not_rewrites hnot)
  have hrewritten := hrewrites
  obtain ⟨-, -, sanitized, uri, hok, hne, huri, rfl⟩ := hrewritten
  have hpath := ofStr_replaced hreads hhash hok hne huri
  rw [routeSanitized] at hsanitized
  cases hfind : server.configurationFor { received with uri := uri } with
  | error failure =>
      rw [hfind] at hsanitized
      cases failure <;> exact nomatch hsanitized
  | ok found =>
      rw [hfind] at hsanitized
      cases found with
      | none =>
          -- the configuration of the path received is kept, though it is not the one of the path
          refine iff_of_false (fun h => ?_) fun h => ?_
          · exact nomatch hfind.symm.trans h.inForce
          · obtain ⟨second, hsecond, -⟩ := h first _ hrewrites
            exact nomatch hfind.symm.trans hsecond
      | some second =>
          obtain rfl := (Routed.modules.inj hsanitized).2
          have hchanged : uri.path ≠ received.uri.path := by
            intro h
            rw [h] at hpath
            exact hne hpath.symm
          have hagain := sanitizeUrl_again_iff (allowDoubleSlashes second) hok
          constructor
          · intro hagrees other rewritten hother
            obtain ⟨rfl, rfl⟩ := hrewrites.unique hother
            have hfixed := hagrees.path.resolve_left fun h => hchanged h.2
            rw [hpath] at hfixed
            exact ⟨second, hfind, hagain.1 hfixed⟩
          · intro hkeeps
            obtain ⟨other, hother, hsettings⟩ := hkeeps first _ hrewrites
            have hsecond := Option.some.inj (Except.ok.inj (hother.symm.trans hfind))
            rw [hsecond] at hsettings
            refine ⟨hfind, .inr ?_⟩
            change sanitizeUrl (.ofStr uri.path) _ = .ok (.ofStr uri.path)
            rw [hpath]
            exact hagain.2 hsettings

end Server

/-! ## A block that allows double slashes -/

/-- `if "X" { allow_double_slashes }`, where the path has the text `/x/`. -/
def doubleSlashBlock : ServerConfiguration where
  entries := AList.insert "allow_double_slashes".toList ⟨[⟨[.bool true], ∅⟩]⟩ ∅
  filters := ⟨true, none, none, none,
    some ⟨['/'], [.ifBlock [.isRegex "{path}".toList ⟨"/x/".toList, false⟩]]⟩, none⟩

/-- A server with this block, whose HTTP library reads two paths. -/
def doubleSlashServer : Server where
  configurations := .new [anyHost, doubleSlashBlock]
  hostname := none
  socketData := adminSocket
  matcher := literalMatcher
  toLowercase := id
  replacePathAndQuery _ bytes :=
    if bytes = asciiBytes "/a".toList then some ⟨['/', 'a'], none, by decide⟩
    else if bytes = asciiBytes "/b//a".toList then some ⟨['/', 'b', '/', '/', 'a'], none, by decide⟩
    else none

/-- A request for a path. -/
def requestFor (path : Str) (h : '?' ∉ path) : Parts := { adminRequest with uri := ⟨path, none, h⟩ }

/-- The path received is in a block that allows double slashes, and the sanitized one is not. The modules
see the double slash, though the configuration in force does not allow any. -/
theorem routeRequest_keepsDoubleSlash :
    ∃ request configuration,
      doubleSlashServer.routeRequest (requestFor "/x/../b//a".toList (by decide)) =
          .modules request configuration ∧
        request.uri.path = "/b//a".toList ∧ disableUrlSanitizer configuration = false ∧
        allowDoubleSlashes configuration = false ∧
        ¬ doubleSlashServer.Agrees (requestFor "/x/../b//a".toList (by decide)) request
          configuration := by
  have hroute : (match doubleSlashServer.routeRequest (requestFor "/x/../b//a".toList (by decide)) with
      | .modules request configuration => decide (request.uri.path = "/b//a".toList) &&
          !disableUrlSanitizer configuration && !allowDoubleSlashes configuration
      | _ => false) = true := by decide +kernel
  have hsanitized : (match sanitizeUrl (.ofStr "/b//a".toList) false with
      | .ok sanitized => decide (sanitized.bytes = (Utf8String.ofStr "/b/a".toList).bytes)
      | .error _ => false) = true := by decide +kernel
  split at hroute
  · rename_i request configuration hmodules
    rw [Bool.and_eq_true, Bool.and_eq_true, decide_eq_true_eq, Bool.not_eq_true', Bool.not_eq_true']
      at hroute
    obtain ⟨⟨hpath, henabled⟩, hallow⟩ := hroute
    refine ⟨request, configuration, hmodules, hpath, henabled, hallow, ?_⟩
    rintro ⟨-, h⟩
    rw [henabled, hpath, hallow] at h
    have hfixed := h.resolve_left fun h => Bool.false_ne_true h.1
    rw [hfixed] at hsanitized
    exact absurd (of_decide_eq_true hsanitized) (by decide)
  · exact absurd hroute Bool.false_ne_true

theorem readsPath_doubleSlashServer : doubleSlashServer.ReadsPath := by
  intro request path query uri _ hquestion _ huri
  have hquery : ∀ bytes : Bytes, (0x3f : UInt8) ∉ bytes →
      path ++ (Utf8String.ofStr (displayQuery query)).bytes = bytes → path = bytes := by
    rintro _ hnone rfl
    cases query with
    | none => exact (List.append_nil path).symm
    | some query => exact absurd (List.mem_append_right _ List.mem_cons_self) hnone
  change (if _ then _ else if _ then _ else _) = _ at huri
  split at huri
  · rename_i hbytes
    rw [hquery _ (by decide) hbytes, ← Option.some.inj huri]
    rfl
  split at huri
  · rename_i hbytes
    rw [hquery _ (by decide) hbytes, ← Option.some.inj huri]
    rfl
  · exact nomatch huri

/-- A path without double slashes goes from the block that allows them to a configuration that does
not. -/
theorem routeRequest_agrees_iff_plain :
    ∃ request configuration,
      doubleSlashServer.routeRequest (requestFor "/x/../a".toList (by decide)) =
          .modules request configuration ∧
        request.uri.path = "/a".toList ∧
        (doubleSlashServer.Agrees (requestFor "/x/../a".toList (by decide)) request configuration ↔
          doubleSlashServer.KeepsSettings (requestFor "/x/../a".toList (by decide))) := by
  have hroute : (match doubleSlashServer.routeRequest (requestFor "/x/../a".toList (by decide)) with
      | .modules request _ => decide (request.uri.path = "/a".toList)
      | _ => false) = true := by decide +kernel
  split at hroute
  · rename_i request configuration hmodules
    exact ⟨request, configuration, hmodules, of_decide_eq_true hroute,
      Server.routeRequest_agrees_iff readsPath_doubleSlashServer (by decide) hmodules⟩
  · exact absurd hroute Bool.false_ne_true

end Ferron.RequestRouting
