import Matterbeam.Base.JsonText
import Matterbeam.Model.Transport

/-!
# Lines of JSON

What the transports make of the records of a chunk, as bytes: `HttpTransport` joins their lines
with newlines and compresses them, `FileTransport` appends them to a file, each with its newline.
The server splits a body at its newlines. The strings of a record are Python strings here, with
surrogates; `Json.toValue` is the record of a value that has none.
-/

namespace Matterbeam

open JsonText

/-! ## Encoding -/

/-- A value as the code holds it: the keys of its dicts are distinct, and `json.loads` has joined
every pair of surrogates. -/
abbrev Record := { v : Value // v.WellFormed }

/-- `encode_record`. A string that cannot be encoded would raise a `UnicodeEncodeError`. -/
def encodeRecord (record : Value) : Except PyError Octets :=
  match encode (dumps record) with
  | some line => .ok line
  | none => .error .valueError

/-- `b"\n"`. -/
def newline : UInt8 := 10

section

variable {ρ : Type} (build : ρ → Except PyError Value)

/-- `[encode_record(build(row)) for row in rows]`. -/
def encodeRows : List ρ → Except PyError (List Octets)
  | [] => .ok []
  | row :: rows => do
    let record ← build row
    let line ← encodeRecord record
    let lines ← encodeRows rows
    return line :: lines

/-- The body that `HttpTransport.send_chunk` hands to its request. -/
def wireBody (compress : Octets → Octets) (rows : List ρ) : Except PyError Octets := do
  let lines ← encodeRows build rows
  return compress ([newline].intercalate lines)

/-- The content of the file, after `FileTransport.send_chunk`. -/
def appendRows (content : Octets) (rows : List ρ) : Except PyError Octets := do
  let lines ← encodeRows build rows
  return content ++ lines.flatMap fun line => line ++ [newline]

end

/-! ## Decoding -/

/-- `ln.strip()` is not empty. -/
def notBlank (line : Octets) : Bool := line.any fun b => b ∉ [0x20, 9, 10, 11, 12, 13]

/-- `[ln for ln in body.split(b"\n") if ln.strip()]`. -/
def bodyLines (body : Octets) : List Octets := (body.splitOn newline).filter notBlank

/-! ## The records of the model -/

/-- How numbers are written: `int.__repr__` and `float.__repr__`. -/
structure NumberText where
  int : ℤ → Number
  float : ℚ → Number

mutual
/-- A JSON value, as a value with Python strings. -/
def Json.toValue (num : NumberText) : Json → Value
  | .null => .null
  | .bool b => .bool b
  | .int n => .number (num.int n)
  | .float q => .number (num.float q)
  | .str s => .str (ofString s)
  | .arr xs => .arr (toValues num xs)
  | .obj kvs => .obj (toEntries num kvs)

/-- The items of an array. -/
def toValues (num : NumberText) : List Json → List Value
  | [] => []
  | x :: xs => x.toValue num :: toValues num xs

/-- The entries of an object. -/
def toEntries (num : NumberText) : List (String × Json) → List (Text × Value)
  | [] => []
  | (k, x) :: kvs => (ofString k, x.toValue num) :: toEntries num kvs
end

/-- `{"v": ..., "t": ..., "i": ...}`. -/
def Envelope.toJson (e : Envelope) : Json :=
  .obj ([("v", e.v.toJson)] ++ (e.t.toList.map fun t => ("t", t)) ++ e.i.toList.map fun i => ("i", i))

/-- `build_wire_record`, as `HttpTransport.send_chunk` encodes it. -/
def wireValue (num : NumberText) (keys hardDelete : List String) (row : Row) : Except PyError Value :=
  (buildWireRecord row keys hardDelete).map fun e => e.toJson.toValue num

/-- `build_record`, as `FileTransport.send_chunk` encodes it. -/
def FileTransport.fileValue (T : FileTransport) (num : NumberText) (c : Chunk) (row : Row × ℕ) : Except PyError Value :=
  (buildRecord row.1 c.recordtypeId c.keys c.hardDelete c.loadId none (T.clock c row.2)).map fun r => r.toJson.toValue num

/-! ## Files -/

/-- The files of the output directory: their contents, where they are there. -/
abbrev OutputFiles := String → Option Octets

/-- A chunk is appended to its file, which is made if it is not there. -/
def OutputFiles.append (num : NumberText) (files : OutputFiles) (a : Append) : OutputFiles × Unit :=
  match appendRows (fun row : Row => .ok (row.toJson.toValue num)) ((files a.file).getD []) a.lines with
  | .ok content => (Function.update files a.file (some content), ())
  | .error _ => (files, ())

end Matterbeam
