import Ferron.Lib.Occurrence
import Ferron.Modules.EntityTags

/-!
# Precompressed files

A utility writes the compressed variants of a file beside it, and the static file module serves such a
variant if the client accepts the encoding. Both take the name of a variant from the name of the file.

The utility adds a dot only behind an extension, while the module always does.
`lookedUpPath_eq_writtenPath_iff` says that the names agree exactly for the files whose names have an
extension; these are then served in the first encoding that the client accepts
(`lookupPrecompressed_compressAsset`). The variants of a file such as `LICENSE` are never found.
-/

set_option autoImplicit false

namespace Ferron.Modules.Precompressed

open Ferron.Lib.Occurrence (contains)
open EntityTags (Encoding)

/-- The extension of the variant for an encoding. -/
def extension : Encoding → Str
  | .br => "br".toList
  | .zstd => "zst".toList
  | .deflate => "deflate".toList
  | .gzip => "gz".toList

/-! ## The utility -/

/-- `compressed_path`: where the variant with the extension is written. -/
def compressedPath (variant : Str) (path : PathBuf) : PathBuf :=
  path.withExtension (path.extension.elim variant fun ext => ext ++ '.' :: variant)

/-- `compress_asset_gzip`: the path of the file that is written. -/
def compressAssetGzip (path : PathBuf) : PathBuf := compressedPath "gz".toList path

/-- `compress_asset_deflate`: the path of the file that is written. -/
def compressAssetDeflate (path : PathBuf) : PathBuf := compressedPath "deflate".toList path

/-- `compress_asset_brotli`: the path of the file that is written. -/
def compressAssetBrotli (path : PathBuf) : PathBuf := compressedPath "br".toList path

/-- `compress_asset_zstd`: the path of the file that is written. -/
def compressAssetZstd (path : PathBuf) : PathBuf := compressedPath "zst".toList path

/-- `compress_asset`: the paths of the files that are written, in order. -/
def compressAsset (path : PathBuf) : List PathBuf :=
  [compressAssetGzip path, compressAssetDeflate path, compressAssetBrotli path, compressAssetZstd path]

/-- The path of the variant that is written for an encoding. -/
def writtenPath (path : PathBuf) : Encoding → PathBuf
  | .br => compressAssetBrotli path
  | .zstd => compressAssetZstd path
  | .deflate => compressAssetDeflate path
  | .gzip => compressAssetGzip path

/-! ## The static file module -/

/-- The encodings that a client accepts, in the order in which their variants are looked up. -/
def acceptedEncodings (acceptEncoding : Str) : List Encoding :=
  [.br, .zstd, .deflate, .gzip].filter fun encoding => contains encoding.name acceptEncoding

/-- `joined_pathbuf_with_extension`: the path that is looked up for an encoding. -/
def lookedUpPath (path : PathBuf) (encoding : Encoding) : PathBuf :=
  path.setExtension (path.extension.getD [] ++ '.' :: extension encoding)

/-- The path that is served in the end, with the encodings that are still in use. An encoding without a
variant is dropped, and the first one that is left becomes the encoding of the response. -/
def lookupPrecompressed (isFile : PathBuf → Bool) (path : PathBuf) :
    List Encoding → PathBuf × List Encoding
  | [] => (path, [])
  | encoding :: rest =>
      -- `break`: the flags behind this one stay set, but the first one counts
      if isFile (lookedUpPath path encoding) then (lookedUpPath path encoding, encoding :: rest)
      else lookupPrecompressed isFile path rest

/-! ## The names agree behind an extension -/

theorem extension_ne_nil (encoding : Encoding) : extension encoding ≠ [] := by
  cases encoding <;> exact List.cons_ne_nil _ _

theorem writtenPath_eq (path : PathBuf) (encoding : Encoding) :
    writtenPath path encoding = compressedPath (extension encoding) path := by
  cases encoding <;> rfl

theorem writtenPath_mem (path : PathBuf) (encoding : Encoding) :
    writtenPath path encoding ∈ compressAsset path := by
  cases encoding <;> simp [writtenPath, compressAsset]

theorem lookedUpPath_of_extension {path : PathBuf} {ext : Str} (hext : path.extension = some ext)
    (encoding : Encoding) : lookedUpPath path encoding = writtenPath path encoding := by
  rw [writtenPath_eq, lookedUpPath, compressedPath, hext]
  rfl

/-- Without an extension, the looked up name has one dot too many. -/
theorem lookedUpPath_ne_writtenPath {path : PathBuf} (hname : path.fileName ≠ none)
    (hext : path.extension = none) (encoding : Encoding) :
    lookedUpPath path encoding ≠ writtenPath path encoding := by
  intro heq
  rw [writtenPath_eq, lookedUpPath, compressedPath, hext, PathBuf.withExtension] at heq
  -- the same path would have been given the same extension
  have hsame : '.' :: extension encoding = extension encoding :=
    (PathBuf.setExtension_inj hname (List.cons_ne_nil _ _) (extension_ne_nil encoding)).1 heq
  have hlength := congrArg List.length hsame
  rw [List.length_cons] at hlength
  omega

/-- The path that is looked up for an encoding is the one that has been written exactly if the file name has
an extension. Without a file name there is nothing to look up. -/
theorem lookedUpPath_eq_writtenPath_iff (path : PathBuf) (encoding : Encoding) :
    lookedUpPath path encoding = writtenPath path encoding ↔
      (path.fileName ≠ none → path.extension ≠ none) := by
  constructor
  · -- a file name without an extension makes the difference
    intro heq hname hext
    exact lookedUpPath_ne_writtenPath hname hext encoding heq
  · intro hagree
    cases hext : path.extension with
    -- both put the variant behind the extension
    | some ext => exact lookedUpPath_of_extension hext encoding
    | none =>
        have hname : path.fileName = none := by
          by_contra hsome
          exact hagree hsome hext
        rw [writtenPath_eq, lookedUpPath, compressedPath, PathBuf.withExtension, PathBuf.setExtension,
          PathBuf.setExtension, hname]

/-- The Brotli variant of `LICENSE` is written to `LICENSE.br`, and `LICENSE..br` is looked up. -/
theorem license_notFound :
    lookedUpPath "/var/www/LICENSE".toList .br = "/var/www/LICENSE..br".toList ∧
      writtenPath "/var/www/LICENSE".toList .br = "/var/www/LICENSE.br".toList ∧
      lookedUpPath "/var/www/LICENSE".toList .br ≠ writtenPath "/var/www/LICENSE".toList .br := by
  decide

/-- Once the variants of a file with an extension are written, it is served in the first encoding that the
client accepts. -/
theorem lookupPrecompressed_compressAsset {isFile : PathBuf → Bool} {path : PathBuf}
    (hext : path.extension ≠ none) (hwritten : ∀ variant ∈ compressAsset path, isFile variant = true)
    (acceptEncoding : Str) {encoding : Encoding} {rest : List Encoding}
    (haccepted : acceptedEncodings acceptEncoding = encoding :: rest) :
    lookupPrecompressed isFile path (acceptedEncodings acceptEncoding) =
      (writtenPath path encoding, encoding :: rest) := by
  obtain ⟨ext, hext⟩ := Option.ne_none_iff_exists'.1 hext
  have hfound : isFile (lookedUpPath path encoding) = true := by
    rw [lookedUpPath_of_extension hext]
    exact hwritten _ (writtenPath_mem path encoding)
  rw [haccepted, lookupPrecompressed, if_pos hfound, lookedUpPath_of_extension hext]

end Ferron.Modules.Precompressed
