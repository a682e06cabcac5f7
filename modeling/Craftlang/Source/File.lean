import Craftlang.Source.Span
import Craftlang.Source.Path
import Craftlang.Text.Digest

/-!
# Source files

A file holds normalised content: no byte order mark and line feeds alone at the ends of lines. Lines
and columns count from one, columns in bytes.
-/

namespace Craftlang

/-- How a file came to be: handed over in memory, with a byte order mark, with CRLF line ends. The bits
above these three have no meaning and are kept as they are given. -/
structure FileFlags where
  isVirtual : Bool := false
  hadMark : Bool := false
  hadCrlf : Bool := false
  others : Nat := 0
deriving DecidableEq, Repr

namespace FileFlags

/-- One bit for each flag, then the others. -/
def bits (f : FileFlags) : Nat :=
  f.isVirtual.toNat + 2 * f.hadMark.toNat + 4 * f.hadCrlf.toNat + 8 * f.others

def ofBits (n : Nat) : FileFlags := ⟨n.testBit 0, n.testBit 1, n.testBit 2, n / 8⟩

end FileFlags

structure File where
  id : Nat
  path : Bytes
  content : Bytes
  flags : FileFlags
deriving Repr

/-- A line and a column, both counted from one. -/
structure LineCol where
  line : Nat
  col : Nat
deriving DecidableEq, Repr, Inhabited

/-- Takes off a leading byte order mark; says whether there was one. -/
def dropByteOrderMark : Bytes → Bytes × Bool
  | 0xEF :: 0xBB :: 0xBF :: rest => (rest, true)
  | content => (content, false)

/-- Every carriage return directly before a line feed is dropped, all others stay. -/
def normalizeLineEnds : Bytes → Bytes
  | 0x0D :: 0x0A :: rest => 0x0A :: normalizeLineEnds rest
  | b :: rest => b :: normalizeLineEnds rest
  | [] => []

namespace File

def size (f : File) : Nat := f.content.length

/-- The digest by which the content is known. -/
def digest (f : File) : Bytes := Sha256.digest f.content

/-- The offsets of the line feeds, in order. -/
def lineFeeds (f : File) : List Nat :=
  f.content.zipIdx.filterMap fun (b, i) => if b == lineFeed then some i else none

/-- The line feeds as they are searched. -/
def lineIndex (f : File) : Array Nat := f.lineFeeds.toArray

/-- The bytes of the content that a span covers. -/
def slice (f : File) (start stop : Nat) : Bytes := (f.content.take stop).drop start

/-- Looks between two bounds for the first entry of an ascending index that is not below an offset. -/
def search (index : Array Nat) (offset low high : Nat) (within : high ≤ index.size) : Nat :=
  if _more : low < high then
    have middle_lt : (low + high) / 2 < index.size := by omega
    if index[(low + high) / 2] < offset then search index offset ((low + high) / 2 + 1) high within
    else search index offset low ((low + high) / 2) (Nat.le_of_lt middle_lt)
  else low
termination_by high - low

theorem search_le {index : Array Nat} {offset low high : Nat} (within : high ≤ index.size) (h : low ≤ high) :
    search index offset low high within ≤ high := by
  fun_induction search index offset low high within with
  | case1 low high within more _ _ ih => exact ih (by omega)
  | case2 low high within more _ _ ih => exact Nat.le_trans (ih (by omega)) (by omega)
  | case3 => exact h

/-- The position of an offset among line feeds. Its line starts behind the last one before it; columns are 32-bit
words. -/
def locate (index : Array Nat) (offset : Nat) : LineCol :=
  let before := search index offset 0 index.size (Nat.le_refl _)
  have bound : before ≤ index.size := search_le _ (Nat.zero_le _)
  let start := if _later : 0 < before then index[before - 1] + 1 else 0
  ⟨before + 1, (offset - start + 1) % 0x100000000⟩

def lineCol (f : File) (offset : Nat) : LineCol := locate f.lineIndex offset

/-- Where the line with a number starts. -/
def lineStart? (f : File) : Nat → Option Nat
  | 0 => none
  | 1 => some 0
  | number + 2 => f.lineIndex[number]?.map (· + 1)

/-- The text of the line with a number, without its line feed; empty when there is none. -/
def line (f : File) (number : Nat) : Bytes :=
  match f.lineStart? number with
  | none => []
  | some start =>
    let stop := f.lineIndex[number - 1]?.getD f.size
    if f.size < start ∨ stop < start then [] else f.slice start stop

end File

/-- How a path is shown. -/
inductive PathStyle where
  | asGiven
  | absolute
  | relative
  | baseName
deriving DecidableEq, Repr

/-- The path of a file in a style; a path with no relative form is shown as it is. -/
def File.showPath (f : File) (style : PathStyle) (baseDir : Bytes) : Bytes :=
  match style with
  | .relative => (Path.relative? baseDir f.path).getD f.path
  | .baseName => Path.base f.path
  | .asGiven | .absolute => f.path

/-- The files of one compilation; a file's id is its place. Relative paths start at the base
directory, or at the working directory when none is set. -/
structure FileSet where
  files : List File := []
  base : Bytes := []
  workingDir : Bytes := []

namespace FileSet

def baseDir (fs : FileSet) : Bytes := if fs.base.isEmpty then fs.workingDir else fs.base

def size (fs : FileSet) : Nat := fs.files.length

def get? (fs : FileSet) (id : Nat) : Option File := fs.files[id]?

/-- Adds a file with content as it is; its id is the number of files before it. -/
def add (fs : FileSet) (path content : Bytes) (flags : FileFlags) : FileSet × File :=
  let file : File := ⟨fs.files.length, Path.clean path, content, flags⟩
  (⟨fs.files ++ [file], fs.base, fs.workingDir⟩, file)

/-- Adds a file once its content is normalised. -/
def addNormalized (fs : FileSet) (path content : Bytes) (flags : FileFlags) : FileSet × File :=
  let (unmarked, hadMark) := dropByteOrderMark content
  let normal := normalizeLineEnds unmarked
  fs.add path normal { flags with
    hadMark := flags.hadMark || hadMark
    hadCrlf := flags.hadCrlf || normal.length != unmarked.length }

/-- The id of the last file added under a path. -/
def latest? (fs : FileSet) (path : Bytes) : Option Nat :=
  (fs.files.reverse.find? fun f => f.path == Path.clean path).map (·.id)

/-- The positions of both ends of a span, if its file is known. -/
def resolve? (fs : FileSet) (span : Span) : Option (LineCol × LineCol) :=
  (fs.get? span.file).map fun f => (f.lineCol span.start, f.lineCol span.stop)

/-- The position of a span's start; zeros when its file is unknown. -/
def lineCol (fs : FileSet) (span : Span) : LineCol :=
  ((fs.resolve? span).map (·.1)).getD ⟨0, 0⟩

end FileSet

end Craftlang
