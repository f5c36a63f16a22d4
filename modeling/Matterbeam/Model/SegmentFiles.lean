import Mathlib.Data.List.DropRight
import Mathlib.Data.List.Sort
import Matterbeam.Base.Folder
import Matterbeam.Model.Framing
import Matterbeam.Model.Store

/-!
# Segments as files

`segment_store.py` and `fold.scan` on the file system: a segment is written line by line under a
temporary name and renamed, and a reader lists the directory of a recordtype, skips temporary
names, and parses what it reads. The number tokens of JSON are opaque, as they are on the wire.
-/

namespace Matterbeam

open JsonText

/-! ## Writing -/

/-- `b"\t"`. -/
def tab : UInt8 := 9

/-- `str(rid).encode("ascii")`. -/
def idBytes (rid : ℕ) : Octets := (ofString rid.repr).map UInt8.ofNat

/-- What `write_segment` writes: for each record its id, a tab, the record and a newline. A
record is the bytes of `json.dumps(body, separators=(",", ":")).encode("utf8")`, which does not
raise (`encode_dumps`). -/
def Segment.pieces (num : NumberText) (s : Segment) : List Octets :=
  s.facts.flatMap fun fact => [idBytes fact.1, [tab], bytesOf (fact.2.toJson.toValue num), [newline]]

/-- A call of `write_segment`, with what its temporary name is made of. When the server is killed
in between, `cut` says after how many file operations, and with how many bytes on disk. -/
structure WriteCall where
  segment : Segment
  getpid : ℕ
  random : ℕ
  cut : Option (ℕ × ℕ) := none

/-- `tmp`. -/
def WriteCall.tmp (c : WriteCall) : String :=
  c.segment.name ++ "." ++ c.getpid.repr ++ "." ++ c.random.repr ++ ".tmp"

/-- What the call does in its directory. -/
def WriteCall.event (c : WriteCall) : Folder.Event Segment String :=
  match c.cut with
  | none => .whole c.segment c.tmp
  | some (k, kept) => .cut c.segment c.tmp k kept

/-- The directories under `segments/`, by recordtype. One that is not there is empty. -/
abbrev SegmentRoot := String → Dict String Octets

/-- `write_segment`. -/
def SegmentRoot.write (num : NumberText) (root : SegmentRoot) (c : WriteCall) : SegmentRoot :=
  Function.update root c.segment.recordtypeId
    (c.event.run Segment.name (Segment.pieces num) (root c.segment.recordtypeId))

/-- The directories after calls of `write_segment`. -/
def SegmentRoot.after (num : NumberText) (calls : List WriteCall) : SegmentRoot :=
  calls.foldl (SegmentRoot.write num) fun _ => Dict.empty

/-! ## Reading -/

/-- Digits, with single underscores between them. `owed` says that a digit must come. -/
def scanDigits (owed : Bool) (n : ℕ) : Octets → Option ℕ
  | [] => if owed then none else some n
  | b :: bs =>
    if 48 ≤ b.toNat ∧ b.toNat ≤ 57 then scanDigits false (10 * n + (b.toNat - 48)) bs
    else if b.toNat = 95 ∧ owed = false then scanDigits true n bs
    else none

/-- What `int` strips. -/
def isBlank (b : UInt8) : Bool := b ∈ [0x20, 9, 10, 11, 12, 13]

/-- `int(b)`, for bytes. -/
def pyInt (b : Octets) : Option ℤ :=
  match (b.dropWhile isBlank).rdropWhile isBlank with
  | 43 :: ds => (scanDigits true 0 ds).map fun n => (n : ℤ)
  | 45 :: ds => (scanDigits true 0 ds).map fun n => -(n : ℤ)
  | ds => (scanDigits true 0 ds).map fun n => (n : ℤ)

/-- A line of `read_segment`: `line.partition(b"\t")`, with what `scan` makes of it. -/
def readLine (line : Octets) : Option (ℤ × Value) := do
  let rid ← pyInt (line.takeWhile (· ≠ tab))
  let data ← loadsBytes ((line.dropWhile (· ≠ tab)).drop 1)
  return (rid, data)

/-- What `scan` reads of a segment. `read_segment` goes through the lines that are not empty. -/
def readSegment (content : Octets) : Option (List (ℤ × Value)) :=
  ((content.splitOn newline).filter (· ≠ [])).mapM readLine

/-- `key.endswith(".tmp")`. -/
def isTmp (key : String) : Bool := ".tmp".toList <:+ key.toList

/-- `key.split(".")[0]`. -/
def keyLastId (key : String) : String := String.ofList (key.toList.takeWhile (· ≠ '.'))

/-- The loop of `scan` over the names of a directory; `none` when it raises. -/
def scanNames (d : Dict String Octets) : List String → String → Option (List (ℤ × Value) × List String)
  | [], _ => some ([], [])
  | key :: rest, cursor =>
    if isTmp key then scanNames d rest cursor
    else if keyLastId key ≤ cursor then (scanNames d rest cursor).map fun x => (x.1, key :: x.2)
    else do
      let facts ← (d.get? key).bind readSegment
      let x ← scanNames d rest (keyLastId key)
      return (facts ++ x.1, x.2)

/-- `fold.scan`, where `listing` is what `os.listdir` returns for the directory. -/
def scanFolder (d : Dict String Octets) (listing : List String) (cursor : String) :
    Option (List (ℤ × Value) × List String) :=
  scanNames d (listing.insertionSort (· ≤ ·)) cursor

end Matterbeam
