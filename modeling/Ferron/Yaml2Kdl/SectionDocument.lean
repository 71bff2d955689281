import Ferron.Yaml2Kdl.SectionNodes

/-!
# The document of a section

The handlers are put around the nodes of the properties: those with a path are locations in front, and
those without one are directives behind. The custom headers stand between the handler for SCGI and the
others (`finish_nodes`).
-/

set_option autoImplicit false

namespace Ferron.Yaml2Kdl

open Ferron.Config Ferron.Lib.KeyedList

/-! ## Handlers -/

/-- Handlers, with their paths. -/
abbrev Handlers := List (Option Str × KdlNode)

namespace Handlers

/-- The locations of the handlers with a path. -/
def locations (handlers : Handlers) : KdlDocument :=
  handlers.flatMap fun handler => (handler.1.map fun path => handlerLocation path handler.2).toList

/-- The handlers without a path. -/
def directives (handlers : Handlers) : KdlDocument :=
  handlers.flatMap fun handler => if handler.1.isNone then [handler.2] else []

theorem name_of_mem_locations {handlers : Handlers} {node : KdlNode} (h : node ∈ handlers.locations) :
    node.name = "location".toList := by
  obtain ⟨handler, -, hmem⟩ := List.mem_flatMap.1 h
  obtain ⟨path, -, rfl⟩ := Option.map_eq_some_iff.1 (Option.mem_toList.1 hmem)
  rfl

theorem mem_of_mem_directives {handlers : Handlers} {node : KdlNode} (h : node ∈ handlers.directives) :
    (none, node) ∈ handlers := by
  obtain ⟨⟨path, handler⟩, hhandler, hmem⟩ := List.mem_flatMap.1 h
  cases path with
  | none => exact List.mem_singleton.1 hmem ▸ hhandler
  | some path => exact absurd hmem List.not_mem_nil

end Handlers

section Handler

variable (modules : List Str) (settings : Setting → Option Str)

/-- The handler for SCGI. -/
def scgiHandler : Handlers :=
  if modules.contains "scgi".toList then
    [(settings .scgiPath, directive "scgi" ⟨[.string ((settings .scgiTo).getD defaultTo)], []⟩)]
  else []

/-- The handler for FastCGI. It passes other requests on when it has no path. -/
def fcgiHandler : Handlers :=
  if modules.contains "fcgi".toList then
    [(settings .fcgiPath, directive "fcgi" ⟨[.string ((settings .fcgiTo).getD defaultTo)],
      if (settings .fcgiPath).isNone then [("pass", .bool false)] else []⟩)]
  else []

/-- The file extensions for FastCGI. -/
def fcgiExtensions (extensions : List Yaml) : KdlDocument :=
  if modules.contains "fcgi".toList then
    (texts (.array extensions)).map (directive "fcgi_extension")
  else []

/-- The handler of a Python application. -/
def applicationHandler (name : String) (applicationPath path : Setting) : Handlers :=
  if modules.contains name.toList then
    ((settings applicationPath).map fun application =>
      (settings path, directive name ⟨[.string application], []⟩)).toList
  else []

/-- All handlers, the last one first. -/
def allHandlers : Handlers :=
  applicationHandler modules settings "asgi" .asgiApplicationPath .asgiPath ++
    applicationHandler modules settings "wsgid" .wsgidApplicationPath .wsgidPath ++
    applicationHandler modules settings "wsgi" .wsgiApplicationPath .wsgiPath ++
    fcgiHandler modules settings ++ scgiHandler modules settings

/-- The directives behind the custom headers. -/
def handlersBehind (extensions : List Yaml) : KdlDocument :=
  (fcgiHandler modules settings).directives ++ fcgiExtensions modules extensions ++
    (applicationHandler modules settings "wsgi" .wsgiApplicationPath .wsgiPath).directives ++
    (applicationHandler modules settings "wsgid" .wsgidApplicationPath .wsgidPath).directives ++
    (applicationHandler modules settings "asgi" .asgiApplicationPath .asgiPath).directives

end Handler

section Push

variable (modules : List Str) (host : HostSection) (nodes : KdlDocument)

theorem pushHandler_eq (path : Option Str) (handler : KdlNode) :
    pushHandler path handler nodes =
      Handlers.locations [(path, handler)] ++ nodes ++ Handlers.directives [(path, handler)] := by
  cases path with
  | none => rfl
  | some path => exact (List.append_nil _).symm

theorem pushScgi_eq : pushScgi modules host nodes =
    (scgiHandler modules host.settings).locations ++ nodes ++
      (scgiHandler modules host.settings).directives := by
  rw [pushScgi, scgiHandler]
  split
  · exact pushHandler_eq nodes _ _
  · exact (List.append_nil _).symm

theorem pushFcgi_eq : pushFcgi modules host nodes =
    (fcgiHandler modules host.settings).locations ++ nodes ++
      ((fcgiHandler modules host.settings).directives ++
        fcgiExtensions modules host.fcgiScriptExtensions) := by
  rw [pushFcgi, fcgiHandler, fcgiExtensions]
  split
  · cases host.settings .fcgiPath with
    | none => exact List.append_assoc _ _ _
    | some path => rfl
  · exact (List.append_nil _).symm

theorem pushApplication_eq (name : String) (applicationPath path : Setting) :
    pushApplication modules name (host.settings applicationPath) (host.settings path) nodes =
      (applicationHandler modules host.settings name applicationPath path).locations ++ nodes ++
        (applicationHandler modules host.settings name applicationPath path).directives := by
  unfold pushApplication applicationHandler
  split
  · cases host.settings applicationPath with
    | none => exact (List.append_nil _).symm
    | some application => exact pushHandler_eq nodes _ _
  · exact (List.append_nil _).symm

/-- The nodes of the properties, the handler for SCGI and the custom headers stand between the locations of
the handlers and the other handlers. -/
theorem finish_nodes (order : HeaderOrder) : (host.finish order modules).1.1 =
    (allHandlers modules host.settings).locations ++
      (host.nodes ++ (scgiHandler modules host.settings).directives ++
        headerNodes order host.customHeaders) ++
      handlersBehind modules host.settings host.fcgiScriptExtensions := by
  rw [HostSection.finish]
  dsimp only
  rw [pushScgi_eq, pushFcgi_eq, pushApplication_eq, pushApplication_eq, pushApplication_eq, allHandlers,
    handlersBehind]
  simp only [Handlers.locations, List.flatMap_append, List.append_assoc]

end Push

end Ferron.Yaml2Kdl
