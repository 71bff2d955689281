import Ferron.Rust.Text
import Mathlib.Data.List.Basic
import Mathlib.Data.List.DropRight

/-!
# Unix paths

A path is a text. Its components are the pieces between slashes that are neither empty nor `.`; an
absolute path starts with the root, and a relative one may start with `.`. The operations work on
components but give back parts of the text.
-/

set_option autoImplicit false

namespace Ferron

/-- A `Path` or `PathBuf`. -/
abbrev PathBuf := Str

/-- A component of a path. -/
inductive Component where
  | rootDir
  | curDir
  | parentDir
  | normal (name : Str)
  deriving DecidableEq

namespace PathBuf

/-- `is_absolute`. -/
def isAbsolute (path : PathBuf) : Bool := path.head? == some '/'

/-- The texts between slashes. -/
def pieces (path : PathBuf) : List Str := path.splitOn '/'

/-- A piece that is no component. -/
def isSkipped (piece : Str) : Bool := piece.isEmpty || piece == ['.']

/-- The component that a path starts with before its pieces. -/
def start (path : PathBuf) : List Component :=
  if isAbsolute path then [.rootDir]
  else if path.pieces.head? == some ['.'] then [.curDir]
  else []

/-- The component of a piece. -/
def pieceComponent (piece : Str) : Component :=
  if piece == ['.', '.'] then .parentDir else .normal piece

/-- `components`. -/
def components (path : PathBuf) : List Component :=
  path.start ++ (path.pieces.filter fun piece => !isSkipped piece).map pieceComponent

/-- `join`: an absolute path replaces the first one. -/
def join (path other : PathBuf) : PathBuf :=
  if isAbsolute other then other
  else if path.isEmpty || path.getLast? == some '/' then path ++ other
  else path ++ '/' :: other

/-- `parent`: the text without its last component and what is skipped around it. The root and the
empty path have none. -/
def parent (path : PathBuf) : Option PathBuf :=
  match path.components.getLast? with
  | none => none
  | some .rootDir => none
  | some .curDir => some []
  | some _ =>
      let rest := ((path.pieces.rdropWhile isSkipped).dropLast).rdropWhile isSkipped
      some <|
        if rest.isEmpty then
          (if isAbsolute path then ['/'] else if path.start = [.curDir] then ['.'] else [])
        else ['/'].intercalate rest

/-- `file_name`: the last component, if it is a name. -/
def fileName (path : PathBuf) : Option Str :=
  match path.components.getLast? with
  | some (.normal name) => some name
  | _ => none

/-- `extension`: what follows the last dot of the file name, if something comes before the dot. -/
def extension (path : PathBuf) : Option Str :=
  path.fileName.bind fun name =>
    let back := (name.reverse.takeWhile (· ≠ '.')).reverse
    if back.length + 1 < name.length then some back else none

/-- The file name without its extension and the dot before it. -/
def stem (path : PathBuf) (name : Str) : Str :=
  match path.extension with
  | some back => name.take (name.length - (back.length + 1))
  | none => name

/-- `set_extension`: what follows the file stem is replaced. Without a file name nothing happens. -/
def setExtension (path : PathBuf) (ext : Str) : PathBuf :=
  match path.fileName with
  | none => path
  | some name =>
      let file := if ext.isEmpty then path.stem name else path.stem name ++ '.' :: ext
      ['/'].intercalate ((path.pieces.rdropWhile isSkipped).dropLast ++ [file])

/-- `with_extension`: a copy of the path with another extension. -/
def withExtension (path : PathBuf) (ext : Str) : PathBuf := path.setExtension ext

/-- `starts_with`: whole components are compared. -/
def startsWith (path base : PathBuf) : Bool := base.components.isPrefixOf path.components

/-- Drops pieces until some number of components has been dropped. -/
def dropComponents : Nat → List Str → List Str
  | 0, pieces => pieces
  | _ + 1, [] => []
  | n + 1, piece :: pieces =>
      if isSkipped piece then dropComponents (n + 1) pieces else dropComponents n pieces

/-- `strip_prefix`, with the error dropped: the text behind the components of the base. -/
def stripPrefix (path base : PathBuf) : Option PathBuf :=
  if startsWith path base then
    let names := (base.pieces.filter fun piece => !isSkipped piece).length
    some (['/'].intercalate
      (((dropComponents names path.pieces).dropWhile isSkipped).rdropWhile isSkipped))
  else none

/-! ## The parent is shorter -/

theorem intercalate_pieces (path : PathBuf) : ['/'].intercalate path.pieces = path :=
  List.intercalate_splitOn '/'

theorem intercalate_append {front back : List Str} (hfront : front ≠ []) (hback : back ≠ []) :
    ['/'].intercalate (front ++ back) =
      ['/'].intercalate front ++ '/' :: ['/'].intercalate back := by
  induction front with
  | nil => exact absurd rfl hfront
  | cons first front ih =>
      cases front with
      | nil =>
          rw [List.singleton_append, List.intercalate_cons_of_ne_nil hback,
            List.intercalate_singleton, List.append_assoc, List.singleton_append]
      | cons second front =>
          rw [List.cons_append, List.intercalate_cons_of_ne_nil (by simp), ih (by simp),
            List.intercalate_cons_cons]
          simp only [List.append_assoc]

/-- Texts that differ in their last piece only have the same last piece. -/
theorem intercalate_concat_inj (front : List Str) {last last' : Str} :
    ['/'].intercalate (front ++ [last]) = ['/'].intercalate (front ++ [last']) ↔ last = last' := by
  constructor
  · intro h
    cases front with
    | nil => simpa using h
    | cons first front =>
        rw [intercalate_append (by simp) (by simp), intercalate_append (by simp) (by simp)] at h
        have hback := List.append_cancel_left h
        simpa using hback
  · intro h
    rw [h]

/-- A file name tells its extension. -/
theorem setExtension_inj {path : PathBuf} (hname : path.fileName ≠ none) {ext ext' : Str}
    (hext : ext ≠ []) (hext' : ext' ≠ []) :
    path.setExtension ext = path.setExtension ext' ↔ ext = ext' := by
  cases hfile : path.fileName with
  | none => exact absurd hfile hname
  | some name =>
      have hempty : ext.isEmpty = false := by simpa using hext
      have hempty' : ext'.isEmpty = false := by simpa using hext'
      simp only [setExtension, hfile, hempty, hempty', Bool.false_eq_true, if_false]
      rw [intercalate_concat_inj]
      simp

theorem length_intercalate_pos {first : Str} (hfirst : isSkipped first = false) (back : List Str) :
    0 < (['/'].intercalate (first :: back)).length := by
  have hne : first ≠ [] := by
    rintro rfl
    exact absurd hfirst (by decide)
  rw [List.length_pos_iff]
  cases back with
  | nil => rwa [List.intercalate_singleton]
  | cons second back => simp [hne]

/-- Some pieces make up a shorter text than with more pieces behind them. -/
theorem length_intercalate_lt {front back : List Str} (hfront : front ≠ []) (hback : back ≠ []) :
    (['/'].intercalate front).length + (['/'].intercalate back).length <
      (['/'].intercalate (front ++ back)).length := by
  rw [intercalate_append hfront hback, List.length_append, List.length_cons]
  omega

/-- The last component of a path comes from a piece, unless it is the start. -/
theorem rdropWhile_ne_nil {path : PathBuf} {last : Component}
    (h : path.components.getLast? = some last) (hroot : last ≠ .rootDir) (hcur : last ≠ .curDir) :
    path.pieces.rdropWhile isSkipped ≠ [] := by
  intro hnil
  have hfilter : (path.pieces.filter fun piece => !isSkipped piece) = [] := by
    rw [List.filter_eq_nil_iff]
    intro piece hpiece
    simp [List.rdropWhile_eq_nil_iff.1 hnil piece hpiece]
  rw [components, hfilter, List.map_nil, List.append_nil, start] at h
  split at h
  · exact hroot (by simpa using h.symm)
  · split at h
    · exact hcur (by simpa using h.symm)
    · simp at h

/-- The pieces are those before the last component, that component and what is skipped. -/
theorem pieces_eq {path : PathBuf} (hkept : path.pieces.rdropWhile isSkipped ≠ []) :
    ∃ last back, isSkipped last = false ∧
      path.pieces = (path.pieces.rdropWhile isSkipped).dropLast ++ last :: back := by
  obtain ⟨back, hback⟩ := List.rdropWhile_prefix isSkipped path.pieces
  refine ⟨_, back, by simpa using List.rdropWhile_last_not isSkipped path.pieces hkept, ?_⟩
  rw [List.append_cons, List.dropLast_append_getLast, hback]

theorem head_pieces_of_isAbsolute {path : PathBuf} (h : isAbsolute path = true) :
    path.pieces.head? = some [] := by
  obtain ⟨rest, rfl⟩ := List.head?_eq_some_iff.1 (beq_iff_eq.1 h)
  rw [pieces, List.splitOn, List.splitOnP_cons_eq_if_modifyHead, if_pos (by simp), List.head?_cons]

theorem head_pieces_of_start {path : PathBuf} (h : path.start = [.curDir]) :
    path.pieces.head? = some ['.'] := by
  rw [start] at h
  split at h
  · simp at h
  · split at h
    · rename_i hhead
      exact beq_iff_eq.1 hhead
    · simp at h

/-- A path that starts with the root or with `.` has more pieces than its last component. -/
theorem one_lt_length {path : PathBuf} (hkept : path.pieces.rdropWhile isSkipped ≠ [])
    {first : Str} (hfirst : path.pieces.head? = some first) (hskipped : isSkipped first = true) :
    1 < path.length := by
  obtain ⟨last, back, hlast, hpieces⟩ := pieces_eq hkept
  have hfront : (path.pieces.rdropWhile isSkipped).dropLast ≠ [] := by
    intro hnil
    rw [hpieces, hnil, List.nil_append, List.head?_cons, Option.some_inj] at hfirst
    rw [← hfirst, hlast] at hskipped
    exact absurd hskipped (by simp)
  have hlt := length_intercalate_lt hfront (List.cons_ne_nil last back)
  rw [← hpieces, intercalate_pieces] at hlt
  have hpos := length_intercalate_pos hlast back
  omega

/-- A parent is shorter than its path. -/
theorem parent_length_lt {path above : PathBuf} (h : path.parent = some above) :
    above.length < path.length := by
  rw [parent] at h
  split at h
  · simp at h
  · simp at h
  · rename_i hlast
    rw [← Option.some.inj h, List.length_nil, List.length_pos_iff]
    rintro rfl
    exact absurd hlast (by decide)
  · rename_i last hroot hcur hlast
    have hkept := rdropWhile_ne_nil hlast hroot hcur
    obtain ⟨name, back, hname, hpieces⟩ := pieces_eq hkept
    rw [← Option.some.inj h]
    split
    · split
      · rename_i habsolute
        exact one_lt_length hkept (head_pieces_of_isAbsolute habsolute) rfl
      · split
        · rename_i hcurrent
          exact one_lt_length hkept (head_pieces_of_start hcurrent) rfl
        · rw [List.length_nil, List.length_pos_iff]
          rintro rfl
          exact hkept (by decide)
    · rename_i hrest
      obtain ⟨skipped, hskipped⟩ :=
        List.rdropWhile_prefix isSkipped (path.pieces.rdropWhile isSkipped).dropLast
      have hlt := length_intercalate_lt (fun hnil => hrest (List.isEmpty_iff.2 hnil))
        (List.append_ne_nil_of_right_ne_nil skipped (List.cons_ne_nil name back))
      rw [← List.append_assoc, hskipped, ← hpieces, intercalate_pieces] at hlt
      omega

end PathBuf

end Ferron
