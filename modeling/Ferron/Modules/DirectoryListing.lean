import Ferron.Common.MatchLocation
import Ferron.Http.Body
import Ferron.Lib.Markup
import Mathlib.Data.List.DropRight

/-!
# Directory listings

A directory listing is a page with a row for each file. The path of the request, the names of the files and
the description go into the page, as text and as the values of attributes, through `anti_xss`: all but the
path in the link of a file, which is taken as it is.

`injectionFree_iff` says that the tags of a page are those of the template exactly when the path has no
quotation mark or no file is listed.
-/

set_option autoImplicit false

namespace Ferron.Modules.DirectoryListing

open Ferron.Common Ferron.Http Ferron.Lib.Markup
open MatchLocation (trimTrailingSlashes)

/-! ## Pages -/

/-- `str::replace` with a pattern of one character. -/
def replaceChar (c : Char) (new : Str) (s : Str) : Str := s.flatMap fun d => if d = c then new else [d]

/-- `anti_xss`. -/
def antiXss (input : Str) : Str :=
  replaceChar doubleQuote "&quot;".toList
    (replaceChar '>' "&gt;".toList
      (replaceChar '<' "&lt;".toList (replaceChar '&' "&amp;".toList input)))

/-- `assets/common.css`, by lines. -/
def commonCss : List Str :=
  ["html,", "body \x7b", "    margin: 0;", "    padding: 0;", "    font-family:", "        system-ui,",
    "        -apple-system,", "        BlinkMacSystemFont,", "        \"Segoe UI\",", "        Roboto,",
    "        Oxygen,", "        Ubuntu,", "        Cantarell,", "        \"Open Sans\",",
    "        \"Helvetica Neue\",", "        sans-serif;", "    background-color: #ffffff;",
    "    color: #0f172a;", "\x7d", "", "body \x7b", "    padding: 1em;",
    "    -webkit-box-sizing: border-box;", "    -moz-box-sizing: border-box;",
    "    box-sizing: border-box;", "    width: 100%;", "    max-width: 1280px;", "    margin: 0 auto;",
    "\x7d", "", "header \x7b", "    text-align: center;", "\x7d", "", "h1 \x7b", "    font-size: 2.5em;",
    "\x7d", "", "a \x7b", "    color: #f47825;", "\x7d", "", "@media screen and (max-width: 512px) \x7b",
    "    h1 \x7b", "        font-size: 2em;", "    \x7d", "\x7d", "",
    "@media screen and (prefers-color-scheme: dark) \x7b", "    html,", "    body \x7b",
    "        background-color: #14181f;", "        color: #f2f2f2;", "    \x7d", "\x7d", ""].map String.toList

/-- `assets/directory.css`, by lines. -/
def directoryCss : List Str :=
  ["body \x7b", "    max-width: 1024px;", "\x7d", "", "table \x7b", "    border-collapse: collapse;",
    "    border-width: 1px;", "    border-style: solid;", "    border-color: #e2e8f0;",
    "    width: 100%;", "    overflow-wrap: break-word;", "    word-wrap: break-word;",
    "    word-break: break-all;", "    word-break: break-word;", "\x7d", "", "tr \x7b",
    "    border-width: 1px;", "    border-style: solid;", "    border-color: #e2e8f0;", "\x7d", "",
    "th \x7b", "    background-color: #fbf1ee;", "\x7d", "", "th,", "td \x7b",
    "    padding: 0.5em 0.75em;", "\x7d", "", "table th.directory-filename,",
    "table td.directory-filename \x7b", "    text-align: left;", "\x7d", "", "table th.directory-size,",
    "table td.directory-size \x7b", "    text-align: center;", "\x7d", "", "table th.directory-date,",
    "table td.directory-date \x7b", "    text-align: right;", "\x7d", "",
    "pre.directory-description \x7b", "    font-size: 1.1em;", "\x7d", "",
    "@media screen and (prefers-color-scheme: dark) \x7b", "    table \x7b",
    "        border-color: #2b303b;", "    \x7d", "", "    tr \x7b", "        border-color: #2b303b;",
    "    \x7d", "", "    th \x7b", "        background-color: #1b1f26;", "    \x7d", "\x7d",
    ""].map String.toList

/-- A file that is included as text. -/
def includeStr (lines : List Str) : Str := ['\n'].intercalate lines

/-- `format_page!`. -/
def formatPage (contents title : Str) (css : List Str) : Str :=
  "<!doctype html>\n       <html lang=\"en\">\n           <head>\n".toList ++
  "               <meta charset=\"UTF-8\" />\n".toList ++
  "               <meta name=\"viewport\" ".toList ++
  "content=\"width=device-width, initial-scale=1.0\" />\n".toList ++
  "               <title>".toList ++ antiXss title ++ "</title>\n               ".toList ++
  ['\n'].intercalate (css.map fun css => "<style>".toList ++ css ++ "</style>".toList) ++
  "\n           </head>\n           <body>\n               ".toList ++ contents ++
  "\n           </body>\n       </html>\n".toList

/-! ## The listing -/

/-- What a file is. -/
inductive FileKind where
  | directory
  | file
  | other
  deriving DecidableEq

/-- `fs::Metadata`. -/
structure Metadata where
  kind : FileKind
  len : Nat
  modified : Option Int

/-- An entry of a directory, with its metadata if they can be read. The name is what `to_string_lossy`
gives. -/
structure DirEntry where
  fileName : Str
  metadata : Option Metadata

/-- The texts for names, sizes and times: `urlencoding::encode`, `sizify` and the format of the date. -/
structure Formats where
  encode : Str → Str
  sizify : Nat → Str
  formatDate : Int → Str

section Listing

variable (formats : Formats)

/-- A link to a file. -/
def filenameLink (icon path name slash : Str) : Str :=
  icon ++ " <a href=\"".toList ++ path ++ "/".toList ++ antiXss (formats.encode name) ++ slash ++
    "\">".toList ++ antiXss name ++ "</a>".toList

/-- A row of the table. -/
def tableRow (link size date : Str) : Str :=
  "<tr><td class=\"directory-filename\">".toList ++ link ++
    "</td><td class=\"directory-size\">".toList ++ size ++ "</td><td class=\"directory-date\">".toList ++
    date ++ "</td></tr>".toList

/-- The icon of a file. -/
def icon : FileKind → Str
  | .directory => "📁".toList
  | .file => "📄".toList
  | .other => "❓".toList

/-- The row of an entry. -/
def entryRow (path : Str) (entry : DirEntry) : Str :=
  match entry.metadata with
  | some metadata =>
      tableRow
        (filenameLink formats (icon metadata.kind) path entry.fileName
          (if metadata.kind = .directory then ['/'] else []))
        (if metadata.kind = .file then antiXss (formats.sizify metadata.len) else ['-'])
        (antiXss ((metadata.modified.map formats.formatDate).getD ['-']))
  | none => tableRow (filenameLink formats "⚠️".toList path entry.fileName []) ['-'] ['-']

/-- The row of the parent directory. -/
def returnRow (returnPath : Str) : Str :=
  "<tr><td>⬆️ <a href=\"".toList ++ antiXss returnPath ++ "\">Return</a></td><td></td><td></td></tr>".toList

/-- The entries that are listed, sorted by their names. Names that begin with a dot are left out. -/
def listed (entries : List DirEntry) : List DirEntry :=
  (entries.mergeSort fun a b => (compare a.fileName b.fileName).isLE).filter
    fun entry => entry.fileName.head? ≠ some '.'

/-- The contents of the page. -/
def listingContents (requestPath : Str) (tableRows : List Str) (description : Option Str) : Str :=
  "<h1>Directory: ".toList ++ antiXss requestPath ++
    "</h1>\n      <table>\n      ".toList ++
    "<tr><th class=\"directory-filename\">Filename</th>".toList ++
    "<th class=\"directory-size\">Size</th>".toList ++
    "<th class=\"directory-date\">Date</th></tr>\n      ".toList ++
    tableRows.flatten ++ "\n    </table>".toList ++
    match description with
    | some description =>
        "<hr><pre class=\"directory-description\">".toList ++ antiXss description ++ "</pre>".toList
    | none => []

/-- `generate_directory_listing`. -/
def generateDirectoryListing (directory : List (Except IoError DirEntry)) (requestPath : Str)
    (description : Option Str) : Except IoError Str := do
  let requestPathWithoutTrailingSlashes := trimTrailingSlashes requestPath
  let returnPath := ['/'].intercalate
    ((requestPathWithoutTrailingSlashes.splitOn '/').dropLast ++ [[]])
  let returnRows := if requestPathWithoutTrailingSlashes ≠ [] then [returnRow returnPath] else []
  let entries ← directory.mapM id
  let rows := (listed entries).map (entryRow formats requestPathWithoutTrailingSlashes)
  let tableRows := returnRows ++ if rows = [] then [tableRow "🤷 No files found".toList [] []] else rows
  return formatPage (listingContents requestPath tableRows description)
    ("Directory: ".toList ++ requestPath) [includeStr commonCss, includeStr directoryCss]

end Listing

/-! ## The template -/

/-- A path that a request can have: the signs `<` and `>` are no characters of a request target. -/
structure RequestPath where
  text : Str
  no_less : '<' ∉ text
  no_greater : '>' ∉ text

/-- The tags of a page. -/
def pageMarkup (contents : Str) : Str :=
  "<!doctype html><html lang=\"\"><head>".toList ++
  "<meta charset=\"\" /><meta name=\"\" content=\"\" />".toList ++
  "<title></title><style></style><style></style></head><body>".toList ++ contents ++
  "</body></html>".toList

/-- The tags of a row. -/
def rowMarkup (link : Str) : Str :=
  "<tr><td class=\"\">".toList ++ link ++ "</td><td class=\"\"></td><td class=\"\"></td></tr>".toList

/-- The tags of a link. -/
def linkMarkup : Str := "<a href=\"\"></a>".toList

/-- The tags of a listing with so many rows. -/
def template (hasReturn : Bool) (rows : Nat) (hasDescription : Bool) : Str :=
  pageMarkup
    ("<h1></h1><table><tr><th class=\"\"></th><th class=\"\"></th><th class=\"\"></th></tr>".toList ++
      ((if hasReturn then "<tr><td><a href=\"\"></a></td><td></td><td></td></tr>".toList else []) ++
        if rows = 0 then rowMarkup [] else (List.replicate rows (rowMarkup linkMarkup)).flatten) ++
      "</table>".toList ++ if hasDescription then "<hr><pre class=\"\"></pre>".toList else [])

/-- A page that is generated has the tags of the template, with one row for each entry that is listed. -/
def InjectionFree (formats : Formats) (directory : List (Except IoError DirEntry)) (requestPath : RequestPath)
    (description : Option Str) : Prop :=
  ∀ entries page, directory.mapM id = .ok entries →
    generateDirectoryListing formats directory requestPath.text description = .ok page →
      markup page = template (trimTrailingSlashes requestPath.text ≠ []) (listed entries).length
        description.isSome

/-! ## Escaped texts -/

theorem mem_replaceChar {c d : Char} {new s : Str} (h : d ∈ replaceChar c new s) :
    d ∈ new ∨ d ∈ s ∧ d ≠ c := by
  obtain ⟨e, he, hd⟩ := List.mem_flatMap.1 h
  split at hd
  · exact Or.inl hd
  · next hne =>
      rw [List.mem_singleton.1 hd]
      exact Or.inr ⟨he, hne⟩

/-- Neither `<` nor a quotation mark is left. -/
theorem not_mem_antiXss (input : Str) : '<' ∉ antiXss input ∧ doubleQuote ∉ antiXss input := by
  have hquot : '<' ∉ "&quot;".toList ∧ doubleQuote ∉ "&quot;".toList := by decide
  have hgt : '<' ∉ "&gt;".toList := by decide
  have hlt : '<' ∉ "&lt;".toList := by decide
  constructor
  · intro h
    rcases mem_replaceChar h with hnew | ⟨h, -⟩
    · exact hquot.1 hnew
    · rcases mem_replaceChar h with hnew | ⟨h, -⟩
      · exact hgt hnew
      · rcases mem_replaceChar h with hnew | ⟨-, hne⟩
        · exact hlt hnew
        · exact hne rfl
  · intro h
    rcases mem_replaceChar h with hnew | ⟨-, hne⟩
    · exact hquot.2 hnew
    · exact hne rfl

/-! ## Style sheets -/

theorem not_mem_cons_literal {c : Char} {line : List Char} {lines : List Str} (h : c ∉ line)
    (hlines : ∀ l ∈ lines, c ∉ l) : ∀ l ∈ (String.ofList line).toList :: lines, c ∉ l := by
  rw [List.forall_mem_cons, String.toList_ofList]
  exact ⟨h, hlines⟩

theorem not_mem_commonCss : ∀ line ∈ commonCss, '<' ∉ line := by
  unfold commonCss
  simp only [List.map_cons, List.map_nil]
  repeat' refine not_mem_cons_literal (by decide) ?_
  exact fun _ h => absurd h List.not_mem_nil

theorem not_mem_directoryCss : ∀ line ∈ directoryCss, '<' ∉ line := by
  unfold directoryCss
  simp only [List.map_cons, List.map_nil]
  repeat' refine not_mem_cons_literal (by decide) ?_
  exact fun _ h => absurd h List.not_mem_nil

theorem not_mem_includeStr {lines : List Str} (h : ∀ line ∈ lines, '<' ∉ line) :
    '<' ∉ includeStr lines := by
  induction lines with
  | nil => exact List.not_mem_nil
  | cons line lines ih =>
      have hlines := ih fun other hother => h other (List.mem_cons_of_mem _ hother)
      have hline := h line List.mem_cons_self
      cases lines with
      | nil => rwa [includeStr, List.intercalate_singleton]
      | cons next lines =>
          rw [includeStr, List.intercalate_cons_cons, List.mem_append, List.mem_append, not_or, not_or]
          exact ⟨⟨hline, by decide⟩, hlines⟩

/-! ## Rows -/

section Rows

variable {formats : Formats}

/-- A link whose path has no quotation mark. -/
theorem reads_filenameLink {icon path name slash : Str} (hicon : '<' ∉ icon) (hpath : doubleQuote ∉ path)
    (hslash : doubleQuote ∉ slash) :
    Reads .data (filenameLink formats icon path name slash) linkMarkup .data := by
  have hopen : Reads .data (icon ++ " <a href=\"".toList) ([] ++ "<a href=\"".toList)
      (.attributeValue doubleQuote) :=
    (Reads.of_text hicon).append ((Reads.of_literal rfl).to_literal rfl)
  have hvalue := (((hopen.append_value hpath).append_value
    (by decide : doubleQuote ∉ "/".toList)).append_value
      (not_mem_antiXss (formats.encode name)).2).append_value hslash
  have hclose : Reads (.attributeValue doubleQuote) "\">".toList "\">".toList .data :=
    (Reads.of_literal rfl).to_literal rfl
  have hend : Reads .data "</a>".toList "</a>".toList .data := (Reads.of_literal rfl).to_literal rfl
  exact ((hvalue.append_literal hclose).append_text (not_mem_antiXss name).1).append_literal hend

/-- A row of texts without tags, and of a link. -/
theorem reads_tableRow {link size date kept : Str} (hlink : Reads .data link kept .data)
    (hsize : '<' ∉ size) (hdate : '<' ∉ date) :
    Reads .data (tableRow link size date) (rowMarkup kept) .data := by
  have hopen : Reads .data "<tr><td class=\"directory-filename\">".toList
      "<tr><td class=\"\">".toList .data := (Reads.of_literal rfl).to_literal rfl
  have hsizeCell : Reads .data "</td><td class=\"directory-size\">".toList
      "</td><td class=\"\">".toList .data := (Reads.of_literal rfl).to_literal rfl
  have hdateCell : Reads .data "</td><td class=\"directory-date\">".toList
      "</td><td class=\"\">".toList .data := (Reads.of_literal rfl).to_literal rfl
  have hend : Reads .data "</td></tr>".toList "</td></tr>".toList .data :=
    (Reads.of_literal rfl).to_literal rfl
  have hname := (hopen.append hlink).append hsizeCell
  exact (((hname.append_text hsize).append_literal hdateCell).append_text hdate).append_literal hend

theorem not_mem_icon (kind : FileKind) : '<' ∉ icon kind := by
  cases kind <;> decide

/-- The row of an entry is that of the template when the path has no quotation mark. -/
theorem reads_entryRow {path : Str} (hpath : doubleQuote ∉ path) (entry : DirEntry) :
    Reads .data (entryRow formats path entry) (rowMarkup linkMarkup) .data := by
  rw [entryRow]
  split
  · next metadata _ =>
      refine reads_tableRow (reads_filenameLink (not_mem_icon metadata.kind) hpath ?_) ?_
        (not_mem_antiXss _).1
      · split <;> decide
      · split
        · exact (not_mem_antiXss _).1
        · decide
  · exact reads_tableRow (reads_filenameLink (by decide) hpath (by decide)) (by decide) (by decide)

/-- The path in a row, and what is in front of it. -/
theorem tableRow_filenameLink (icon path name slash size date : Str) :
    tableRow (filenameLink formats icon path name slash) size date =
      "<tr><td class=\"directory-filename\">".toList ++ icon ++ " <a href=\"".toList ++
        (path ++ ("/".toList ++ (antiXss (formats.encode name) ++ slash ++ "\">".toList ++
          antiXss name ++ "</a>".toList ++ "</td><td class=\"directory-size\">".toList ++ size ++
            "</td><td class=\"directory-date\">".toList ++ date ++ "</td></tr>".toList))) := by
  unfold tableRow filenameLink
  simp only [List.append_assoc]

/-- Up to the path the row of any entry is that of the template. -/
theorem entryRow_eq (formats : Formats) (path : Str) (entry : DirEntry) : ∃ front back,
    entryRow formats path entry = front ++ (path ++ ("/".toList ++ back)) ∧
      Reads .data front ("<tr><td class=\"\">".toList ++ "<a href=\"".toList)
        (.attributeValue doubleQuote) := by
  have hopen : Reads .data "<tr><td class=\"directory-filename\">".toList
      "<tr><td class=\"\">".toList .data := (Reads.of_literal rfl).to_literal rfl
  have hlink : Reads .data " <a href=\"".toList "<a href=\"".toList (.attributeValue doubleQuote) :=
    (Reads.of_literal rfl).to_literal rfl
  unfold entryRow
  split
  · next metadata _ =>
      exact ⟨_, _, tableRow_filenameLink _ _ _ _ _ _,
        (hopen.append_text (not_mem_icon metadata.kind)).append hlink⟩
  · exact ⟨_, _, tableRow_filenameLink _ _ _ _ _ _, (hopen.append_text (by decide)).append hlink⟩

theorem reads_returnRow (returnPath : Str) :
    Reads .data (returnRow returnPath) "<tr><td><a href=\"\"></a></td><td></td><td></td></tr>".toList
      .data := by
  have hopen : Reads .data "<tr><td>⬆️ <a href=\"".toList ([] ++ "<tr><td><a href=\"".toList)
      (.attributeValue doubleQuote) := (Reads.of_literal rfl).to_literal rfl
  have hend : Reads (.attributeValue doubleQuote) "\">Return</a></td><td></td><td></td></tr>".toList
      "\"></a></td><td></td><td></td></tr>".toList .data := (Reads.of_literal rfl).to_literal rfl
  exact (hopen.append_value (not_mem_antiXss returnPath).2).append_literal hend

end Rows

/-! ## Pages -/

theorem reads_style {css : Str} (h : '<' ∉ css) :
    Reads .data ("<style>".toList ++ css ++ "</style>".toList) "<style></style>".toList .data := by
  have hopen : Reads .data "<style>".toList ([] ++ "<style>".toList) .data :=
    (Reads.of_literal rfl).to_literal rfl
  have hend : Reads .data "</style>".toList "</style>".toList .data := (Reads.of_literal rfl).to_literal rfl
  exact (hopen.append_text h).append_literal hend

/-- A page is its contents between two texts with the tags of the template. -/
theorem formatPage_eq (title : Str) : ∃ front back,
    (∀ contents, formatPage contents title [includeStr commonCss, includeStr directoryCss] =
      front ++ contents ++ back) ∧
      Reads .data front ("<!doctype html><html lang=\"\"><head>".toList ++
        "<meta charset=\"\" /><meta name=\"\" content=\"\" />".toList ++
        "<title></title><style></style><style></style></head><body>".toList) .data ∧
      Reads .data back "</body></html>".toList .data := by
  have hhtml : Reads .data "<!doctype html>\n       <html lang=\"en\">\n           <head>\n".toList
      "<!doctype html><html lang=\"\"><head>".toList .data := (Reads.of_literal rfl).to_literal rfl
  have hcharset : Reads .data "               <meta charset=\"UTF-8\" />\n".toList
      "<meta charset=\"\" />".toList .data := (Reads.of_literal rfl).to_literal rfl
  have hviewport : Reads .data "               <meta name=\"viewport\" ".toList
      "<meta name=\"\" ".toList .beforeAttributeName := (Reads.of_literal rfl).to_literal rfl
  have hcontent : Reads .beforeAttributeName
      "content=\"width=device-width, initial-scale=1.0\" />\n".toList "content=\"\" />".toList .data :=
    (Reads.of_literal rfl).to_literal rfl
  have htitle : Reads .data "               <title>".toList "<title>".toList .data :=
    (Reads.of_literal rfl).to_literal rfl
  have htitleEnd : Reads .data "</title>\n               ".toList "</title>".toList .data :=
    (Reads.of_literal rfl).to_literal rfl
  have hbody : Reads .data "\n           </head>\n           <body>\n               ".toList
      "</head><body>".toList .data := (Reads.of_literal rfl).to_literal rfl
  have hend : Reads .data "\n           </body>\n       </html>\n".toList "</body></html>".toList .data :=
    (Reads.of_literal rfl).to_literal rfl
  have hcommon := reads_style (not_mem_includeStr not_mem_commonCss)
  have hdirectory := reads_style (not_mem_includeStr not_mem_directoryCss)
  have hnewline : Reads .data ['\n'] [] .data := .of_text (by decide)
  have hmeta := ((hhtml.append hcharset).append_literal hviewport).append_literal hcontent
  have hhead := ((hmeta.append htitle).append_text (not_mem_antiXss title).1).append_literal htitleEnd
  have hsheets := (hhead.append_literal hcommon).append_text (by decide : '<' ∉ ['\n'])
  refine ⟨_, _, ?_, (hsheets.append_literal hdirectory).append_literal hbody, hend⟩
  intro contents
  unfold formatPage
  rw [List.map_cons, List.map_cons, List.map_nil, List.intercalate_cons_cons, List.intercalate_singleton]
  simp only [List.append_assoc]

/-- The tags that come before the rows and those that come behind them. -/
theorem listingContents_eq (requestPath : Str) (description : Option Str) : ∃ front back,
    (∀ tableRows, listingContents requestPath tableRows description =
      front ++ tableRows.flatten ++ back) ∧
      Reads .data front
        "<h1></h1><table><tr><th class=\"\"></th><th class=\"\"></th><th class=\"\"></th></tr>".toList
        .data ∧
      Reads .data back ("</table>".toList ++
        if description.isSome then "<hr><pre class=\"\"></pre>".toList else []) .data := by
  have htitle : Reads .data "<h1>Directory: ".toList ([] ++ "<h1>".toList) .data :=
    (Reads.of_literal rfl).to_literal rfl
  have htitleEnd : Reads .data "</h1>\n      <table>\n      ".toList "</h1><table>".toList .data :=
    (Reads.of_literal rfl).to_literal rfl
  have hname : Reads .data "<tr><th class=\"directory-filename\">Filename</th>".toList
      "<tr><th class=\"\"></th>".toList .data := (Reads.of_literal rfl).to_literal rfl
  have hsize : Reads .data "<th class=\"directory-size\">Size</th>".toList "<th class=\"\"></th>".toList
      .data := (Reads.of_literal rfl).to_literal rfl
  have hdate : Reads .data "<th class=\"directory-date\">Date</th></tr>\n      ".toList
      "<th class=\"\"></th></tr>".toList .data := (Reads.of_literal rfl).to_literal rfl
  have htable : Reads .data "\n    </table>".toList "</table>".toList .data :=
    (Reads.of_literal rfl).to_literal rfl
  have hheading := (htitle.append_text (not_mem_antiXss requestPath).1).append_literal htitleEnd
  have hfront := ((hheading.append_literal hname).append_literal hsize).append_literal hdate
  cases description with
  | none =>
      refine ⟨_, _, fun tableRows => ?_, hfront, htable.append (.nil .data)⟩
      unfold listingContents
      simp only [List.append_assoc]
  | some description =>
      have hpre : Reads .data "<hr><pre class=\"directory-description\">".toList
          ([] ++ "<hr><pre class=\"\">".toList) .data := (Reads.of_literal rfl).to_literal rfl
      have hend : Reads .data "</pre>".toList "</pre>".toList .data :=
        (Reads.of_literal rfl).to_literal rfl
      refine ⟨_, _, fun tableRows => ?_, hfront,
        htable.append ((hpre.append_text (not_mem_antiXss description).1).append_literal hend)⟩
      unfold listingContents
      simp only [List.append_assoc]

/-! ## Listings -/

section Listings

variable {formats : Formats} {directory : List (Except IoError DirEntry)} {requestPath : Str}
  {description : Option Str} {entries : List DirEntry}

/-- The row of the parent directory, if there is one. -/
def returnRows (requestPath : Str) : List Str :=
  if trimTrailingSlashes requestPath ≠ [] then
    [returnRow (['/'].intercalate (((trimTrailingSlashes requestPath).splitOn '/').dropLast ++ [[]]))]
  else []

/-- The rows of the entries. -/
def entryRows (formats : Formats) (requestPath : Str) (entries : List DirEntry) : List Str :=
  (listed entries).map (entryRow formats (trimTrailingSlashes requestPath))

theorem generateDirectoryListing_eq (hentries : directory.mapM id = .ok entries) :
    generateDirectoryListing formats directory requestPath description =
      .ok (formatPage (listingContents requestPath (returnRows requestPath ++
        if entryRows formats requestPath entries = [] then
          [tableRow "🤷 No files found".toList [] []]
        else entryRows formats requestPath entries) description)
        ("Directory: ".toList ++ requestPath) [includeStr commonCss, includeStr directoryCss]) := by
  unfold generateDirectoryListing
  rw [hentries]
  rfl

theorem reads_returnRows (requestPath : Str) : Reads .data (returnRows requestPath).flatten
    (if trimTrailingSlashes requestPath ≠ [] then
      "<tr><td><a href=\"\"></a></td><td></td><td></td></tr>".toList else []) .data := by
  unfold returnRows
  split
  · rw [List.flatten_singleton]
    exact reads_returnRow _
  · exact .nil .data

/-- A page is what is in front of the rows of the entries, these rows, and what is behind them. -/
theorem page_eq (formats : Formats) (directory : List (Except IoError DirEntry)) (requestPath : Str)
    (description : Option Str) : ∃ front back keptFront keptBack,
      Reads .data front keptFront .data ∧ Reads .data back keptBack .data ∧
      (∀ entries, directory.mapM id = .ok entries →
        generateDirectoryListing formats directory requestPath description =
          .ok (front ++ ((if entryRows formats requestPath entries = [] then
            [tableRow "🤷 No files found".toList [] []]
              else entryRows formats requestPath entries).flatten ++ back))) ∧
      ∀ rows, template (trimTrailingSlashes requestPath ≠ []) rows description.isSome =
        keptFront ++ ((if rows = 0 then rowMarkup []
          else (List.replicate rows (rowMarkup linkMarkup)).flatten) ++ keptBack) := by
  obtain ⟨pageFront, pageBack, hpage, hpageFront, hpageBack⟩ :=
    formatPage_eq ("Directory: ".toList ++ requestPath)
  obtain ⟨front, back, hcontents, hfront, hback⟩ := listingContents_eq requestPath description
  refine ⟨pageFront ++ front ++ (returnRows requestPath).flatten, back ++ pageBack, _, _,
    (hpageFront.append hfront).append (reads_returnRows requestPath), hback.append hpageBack, ?_, ?_⟩
  · intro entries hentries
    rw [generateDirectoryListing_eq hentries, hpage, hcontents, List.flatten_append]
    simp only [List.append_assoc]
  · intro rows
    unfold template pageMarkup
    simp only [List.append_assoc, decide_eq_true_eq]

end Listings

theorem mem_trimTrailingSlashes_iff {c : Char} (hc : c ≠ '/') {path : Str} :
    c ∈ trimTrailingSlashes path ↔ c ∈ path := by
  constructor
  · exact fun h => (List.rdropWhile_prefix _ _).subset h
  · intro h
    have hsplit : path.rdropWhile (· = '/') ++ path.rtakeWhile (· = '/') = path :=
      List.rdropWhile_append_rtakeWhile
    rw [← hsplit] at h
    refine (List.mem_append.1 h).resolve_right fun hslash => hc ?_
    have hdropped := List.mem_rtakeWhile_imp hslash
    exact of_decide_eq_true hdropped

section Template

variable {formats : Formats} {directory : List (Except IoError DirEntry)} {requestPath : RequestPath}
  {description : Option Str} {entries : List DirEntry}

/-- The rows of a listing are those of the template when the path has no quotation mark, or when there are
none. -/
theorem reads_rows (formats : Formats) (h : doubleQuote ∉ requestPath.text ∨ listed entries = []) :
    Reads .data (if entryRows formats requestPath.text entries = [] then
        [tableRow "🤷 No files found".toList [] []]
      else entryRows formats requestPath.text entries).flatten
      (if (listed entries).length = 0 then rowMarkup []
        else (List.replicate (listed entries).length (rowMarkup linkMarkup)).flatten) .data := by
  by_cases hlisted : listed entries = []
  · rw [entryRows, hlisted, List.map_nil, if_pos rfl, List.flatten_singleton, if_pos List.length_nil]
    exact reads_tableRow (.of_text (by decide)) List.not_mem_nil List.not_mem_nil
  · rw [if_neg (by rwa [entryRows, List.map_eq_nil_iff]), if_neg (by rwa [List.length_eq_zero_iff]),
      ← List.length_map (entryRow formats (trimTrailingSlashes requestPath.text))]
    apply Reads.flatten
    intro row hrow
    obtain ⟨entry, -, rfl⟩ := List.mem_map.1 hrow
    apply reads_entryRow
    rw [mem_trimTrailingSlashes_iff (by decide)]
    exact h.resolve_right hlisted

/-- In the template the value of a link is followed by the end of the tag. -/
theorem rowMarkup_linkMarkup : rowMarkup linkMarkup =
    "<tr><td class=\"\">".toList ++ "<a href=\"".toList ++ doubleQuote :: '>' :: ("</a>".toList ++
      "</td><td class=\"\"></td><td class=\"\"></td></tr>".toList) := by
  have hlink : linkMarkup = "<a href=\"".toList ++ doubleQuote :: '>' :: "</a>".toList := rfl
  unfold rowMarkup
  rewrite [hlink]
  simp only [List.append_assoc, List.cons_append]

/-- A path is split at its first quotation mark. Behind it comes something other than the end of a tag. -/
theorem exists_split_at_quote (hquote : doubleQuote ∈ requestPath.text) :
    ∃ before c rest, doubleQuote ∉ before ∧ c ≠ '>' ∧
      ∀ tail, trimTrailingSlashes requestPath.text ++ ("/".toList ++ tail) =
        before ++ doubleQuote :: c :: (rest ++ tail) := by
  obtain ⟨before, after, hpath, hbefore⟩ :=
    List.eq_append_cons_of_mem ((mem_trimTrailingSlashes_iff (by decide)).2 hquote)
  obtain ⟨c, hc, rest, hafter⟩ : ∃ c, c ≠ '>' ∧ ∃ rest, after ++ "/".toList = c :: rest := by
    cases after with
    | nil => exact ⟨'/', by decide, [], rfl⟩
    | cons c after =>
        refine ⟨c, ?_, after ++ "/".toList, rfl⟩
        rintro rfl
        apply requestPath.no_greater
        rw [← mem_trimTrailingSlashes_iff (by decide), hpath]
        exact List.mem_append_right _ (List.mem_cons_of_mem _ List.mem_cons_self)
  refine ⟨before, c, rest, hbefore, hc, fun tail => ?_⟩
  rewrite [hpath, List.append_assoc, List.cons_append, ← List.append_assoc after, hafter]
  exact rfl

/-- A quotation mark in the path ends the value of the first link. -/
theorem not_injectionFree (hquote : doubleQuote ∈ requestPath.text)
    (hentries : directory.mapM id = .ok entries) (hlisted : listed entries ≠ []) :
    ¬ InjectionFree formats directory requestPath description := by
  intro h
  obtain ⟨front, back, keptFront, keptBack, hfront, -, hpage, htemplate⟩ :=
    page_eq formats directory requestPath.text description
  have hmarkup := h entries _ hentries (hpage entries hentries)
  obtain ⟨entry, more, hcons⟩ := List.exists_cons_of_ne_nil hlisted
  obtain ⟨rowFront, rowBack, hrow, hrowFront⟩ :=
    entryRow_eq formats (trimTrailingSlashes requestPath.text) entry
  obtain ⟨before, c, rest, hbefore, hc, hpath⟩ := exists_split_at_quote hquote
  obtain ⟨moreRows, hrows⟩ : ∃ moreRows, entryRows formats requestPath.text entries =
      (rowFront ++ (trimTrailingSlashes requestPath.text ++ ("/".toList ++ rowBack))) :: moreRows :=
    ⟨_, by rw [entryRows, hcons, List.map_cons, hrow]⟩
  -- the page up to the path of the first link, and the value that ends at the quotation mark
  have hfirst : front ++ ((if entryRows formats requestPath.text entries = [] then
      [tableRow "🤷 No files found".toList [] []]
        else entryRows formats requestPath.text entries).flatten ++ back) =
      front ++ rowFront ++ (before ++ doubleQuote :: c :: (rest ++ (rowBack ++
        (moreRows.flatten ++ back)))) := by
    rewrite [hrows, if_neg (List.cons_ne_nil _ _), List.flatten_cons]
    simp only [List.append_assoc, List.cons_append, hpath]
  obtain ⟨kept, hkept⟩ := scan_value_of_quote hbefore c (rest ++ (rowBack ++ (moreRows.flatten ++ back)))
  have hpageMarkup := (hfront.append hrowFront).markup_append
    (before ++ doubleQuote :: c :: (rest ++ (rowBack ++ (moreRows.flatten ++ back))))
  have htemplateRows : ∃ more, template (trimTrailingSlashes requestPath.text ≠ [])
      (listed entries).length description.isSome =
        keptFront ++ ("<tr><td class=\"\">".toList ++ "<a href=\"".toList) ++
          doubleQuote :: '>' :: more := by
    rewrite [htemplate, hcons, List.length_cons, if_neg (Nat.succ_ne_zero _), List.replicate_succ,
      List.flatten_cons, rowMarkup_linkMarkup]
    simp only [List.append_assoc, List.cons_append]
    exact ⟨_, rfl⟩
  obtain ⟨moreTemplate, htemplateRows⟩ := htemplateRows
  rewrite [hkept, ← hfirst, hmarkup, htemplateRows] at hpageMarkup
  have hcancelled := List.append_cancel_left hpageMarkup
  exact hc (List.cons.inj (List.cons.inj hcancelled).2).1.symm

/-- The tags of a listing are those of the template exactly when the path of the request has no quotation
mark, or there is no entry to list. -/
theorem injectionFree_iff (formats : Formats) (directory : List (Except IoError DirEntry))
    (requestPath : RequestPath) (description : Option Str) :
    InjectionFree formats directory requestPath description ↔
      doubleQuote ∉ requestPath.text ∨
        ∀ entries, directory.mapM id = .ok entries → listed entries = [] := by
  constructor
  · intro h
    by_contra hnot
    push Not at hnot
    obtain ⟨hquote, entries, hentries, hlisted⟩ := hnot
    exact not_injectionFree hquote hentries hlisted h
  · intro h entries page hentries hgenerated
    obtain ⟨front, back, keptFront, keptBack, hfront, hback, hpage, htemplate⟩ :=
      page_eq formats directory requestPath.text description
    rw [hpage entries hentries, Except.ok.injEq] at hgenerated
    rw [← hgenerated, htemplate]
    have hrows := reads_rows formats (h.imp_right fun hnone => hnone entries hentries)
    exact (hfront.append (hrows.append hback)).markup_eq

end Template

/-! ## A path with a quotation mark -/

/-- Texts that need no encoding. -/
def plainFormats : Formats where
  encode := id
  sizify n := Nat.toDigits 10 n
  formatDate _ := "Thu Jan 01 1970".toList

theorem quotedPath_no_less : '<' ∉ "/a\"b/".toList := by decide

theorem quotedPath_no_greater : '>' ∉ "/a\"b/".toList := by decide

/-- The directory `a"b`. -/
def quotedPath : RequestPath := ⟨"/a\"b/".toList, quotedPath_no_less, quotedPath_no_greater⟩

/-- A file of one byte. -/
def smallFile : DirEntry := ⟨"c".toList, some ⟨.file, 1, some 0⟩⟩

/-- The value of the link of the file ends behind `/a`, and the tag has another attribute. -/
theorem quotedPath_injected :
    markup (filenameLink plainFormats (icon .file) (trimTrailingSlashes quotedPath.text) smallFile.fileName
        []) = "<a href=\"\"b/c\"></a>".toList ∧
      ¬ InjectionFree plainFormats [.ok smallFile] quotedPath none := by
  have hread : ([.ok smallFile] : List (Except IoError DirEntry)).mapM id = .ok [smallFile] := rfl
  have hlisted : listed [smallFile] ≠ [] := by
    unfold listed
    rw [List.mergeSort_singleton]
    decide
  exact ⟨by decide, not_injectionFree (by decide) hread hlisted⟩

end Ferron.Modules.DirectoryListing
