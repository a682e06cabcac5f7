import Craftlang.Text.Digest
import Craftlang.Text.Bytes

/-!
# Archives

A zip archive holds files one after the other, each behind a header with its name and size, and ends
with a directory of all of them. Files are stored as they are.
-/

namespace Craftlang.Archive

open Packed (littleEndian)

/-- A file of an archive: its path and its content. -/
abbrev Member := Bytes × Bytes

/-- The longest name of a file in an archive, whose length has two bytes. -/
def longestName : Nat := 65535

/-- Is there room for the name of a file? -/
def admits (m : Member) : Bool := m.1.length ≤ longestName

def headerMark : Bytes := littleEndian 4 0x04034B50
def directoryMark : Bytes := littleEndian 4 0x02014B50
def endMark : Bytes := littleEndian 4 0x06054B50

/-- The version of the format that is needed to read the archive. -/
def neededVersion : Nat := 20

/-- The flag that says that names are UTF-8. -/
def utf8Names : Nat := 0x800

/-- What a header and the directory say alike: flags, method, time and date, check sum, sizes, and the
lengths of the name and of what is attached to it. -/
def description (m : Member) : Bytes :=
  littleEndian 2 neededVersion ++ littleEndian 2 utf8Names ++ littleEndian 2 0 ++ littleEndian 4 0
    ++ littleEndian 4 (Crc32.checksum m.2).toNat ++ littleEndian 4 m.2.length
    ++ littleEndian 4 m.2.length ++ littleEndian 2 m.1.length ++ littleEndian 2 0

/-- A file behind its header. -/
def record (m : Member) : Bytes := headerMark ++ description m ++ m.1 ++ m.2

/-- The entry of a file in the directory; it knows where the record starts. -/
def directoryEntry (m : Member) (start : Nat) : Bytes :=
  directoryMark ++ littleEndian 2 neededVersion ++ description m ++ littleEndian 2 0
    ++ littleEndian 2 0 ++ littleEndian 2 0 ++ littleEndian 4 0 ++ littleEndian 4 start ++ m.1

/-- The directory of files whose records start at an offset. -/
def directory (start : Nat) : List Member → Bytes
  | [] => []
  | m :: rest => directoryEntry m start ++ directory (start + (record m).length) rest

def encode (members : List Member) : Bytes :=
  let records := members.flatMap record
  let listing := directory 0 members
  records ++ listing ++ endMark ++ littleEndian 2 0 ++ littleEndian 2 0
    ++ littleEndian 2 members.length ++ littleEndian 2 members.length
    ++ littleEndian 4 listing.length ++ littleEndian 4 records.length ++ littleEndian 2 0

/-- A record at the front of an archive; only files that are stored as they are can be read. -/
def readRecord : Packed.Reader Member := do
  let mark ← Packed.readFixed 4
  let _ ← Packed.readFixed 4
  let method ← Packed.readLittleEndian 2
  let _ ← Packed.readFixed 8
  let stored ← Packed.readLittleEndian 4
  let size ← Packed.readLittleEndian 4
  let nameSize ← Packed.readLittleEndian 2
  let attached ← Packed.readLittleEndian 2
  let name ← Packed.readFixed nameSize
  let _ ← Packed.readFixed attached
  let content ← Packed.readFixed size
  if mark = headerMark && method = 0 && stored = size then pure (name, content) else failure

/-- The records at the front of an archive. -/
def readRecords : Nat → Bytes → List Member
  | 0, _ => []
  | fuel + 1, s =>
    match readRecord.run s with
    | none => []
    | some (m, rest) => m :: readRecords fuel rest

/-- The files of an archive in order; none if it is no archive. -/
def members? (s : Bytes) : Option (List Member) :=
  let found := readRecords s.length s
  if encode found = s then some found else none

end Craftlang.Archive
