import Mathlib.Data.List.Sort
import Matterbeam.Model.Json

/-!
# Disposition translation: rows to facts

The pure functions of `envelope.py`: the table hints, the order of rows within a
file, PUA stripping, and the two encodings of a row, as a local fact
(`buildRecord`) and as a wire envelope (`buildWireRecord`).
-/

namespace Matterbeam

/-- Library functions that the code calls and the development leaves open. -/
structure Runtime where
  /-- `dlt.common.json.custom_pua_remove`. -/
  customPuaRemove : String → String
  /-- `json.dumps`, with its default separators. -/
  dumps : Json → String
  /-- Python's `str(v)`. -/
  str : Json → String

namespace Runtime

mutual
/-- `json.dumps` of values without floats, and strings that need no escapes. -/
def dumpsPlain : Json → String
  | .null => "null"
  | .bool b => if b then "true" else "false"
  | .int n => toString n
  | .float _ => ""
  | .str s => "\"" ++ s ++ "\""
  | .arr xs => "[" ++ String.intercalate ", " (dumpsPlainList xs) ++ "]"
  | .obj kvs => "\x7b" ++ String.intercalate ", " (dumpsPlainObj kvs) ++ "\x7d"

/-- The items of an array. -/
def dumpsPlainList : List Json → List String
  | [] => []
  | x :: xs => dumpsPlain x :: dumpsPlainList xs

/-- The entries of an object. -/
def dumpsPlainObj : List (String × Json) → List String
  | [] => []
  | (k, x) :: kvs => ("\"" ++ k ++ "\": " ++ dumpsPlain x) :: dumpsPlainObj kvs
end

/-- `str` of the scalars other than floats. -/
def strPlain : Json → String
  | .null => "None"
  | .bool b => if b then "True" else "False"
  | .int n => toString n
  | .str s => s
  | _ => ""

/-- The library functions on plain data: no floats, no characters to escape or strip. -/
def plain : Runtime where
  customPuaRemove := id
  dumps := dumpsPlain
  str := strPlain

end Runtime

/-! ## Table hints -/

/-- A column of a prepared table schema. -/
structure Column where
  name : String
  primaryKey : Bool := false
  mergeKey : Bool := false
  hardDelete : Bool := false
  dedupSort : Option String := none

/-- A prepared table schema. -/
structure Table where
  name : String
  writeDisposition : Option String := none
  xMergeStrategy : Option String := none
  columns : Dict String Column

/-- `table["columns"].values()`. -/
def Table.cols (table : Table) : List Column := table.columns.entries.map Prod.snd

/-- The `primary_key` columns, else the `merge_key` columns. -/
def keyFields (table : Table) : List String :=
  let fields := (table.cols.filter (·.primaryKey)).map (·.name)
  if fields ≠ [] then fields else (table.cols.filter (·.mergeKey)).map (·.name)

def hardDeleteFields (table : Table) : List String :=
  (table.cols.filter (·.hardDelete)).map (·.name)

/-- The first column with a `dedup_sort` hint, and the direction. -/
def dedupSort (table : Table) : Option (String × String) :=
  table.cols.findSome? fun c =>
    match c.dedupSort with
    | some direction => if direction ≠ "" then some (c.name, direction) else none
    | none => none

/-- Raise on `scd2`, warn on `replace`. The result is the warning, if there is one. -/
def checkDisposition (table : Table) : Except PyError (Option String) :=
  if table.writeDisposition = some "merge" ∧ table.xMergeStrategy = some "scd2" then
    .error (.scdRefused ("scd2 is refused: Matterbeam stores full history natively in the log; " ++
      "use `merge` (upsert/insert-only/delete-insert) and query the log instead."))
  else if table.writeDisposition = some "replace" then
    .ok (some ("table `" ++ table.name ++ "`: `replace` is degraded to `append` -- Matterbeam has no " ++
      "truncation marker, so the previous load's rows remain in the log. " ++
      (if keyFields table ≠ [] then
        "The table is keyed, so every key in the new load overwrites; only source-side deletions linger."
      else
        "The table is UNKEYED: the previous load's rows are indistinguishable " ++
        "from the new ones and will remain.")))
  else .ok none

/-! ## Order within a file -/

/-- The order `list.sort` puts rows in: `a` may stand before `b`. -/
def sortLe (col direction : String) (a b : Row) : Prop :=
  if direction = "desc" then (a.get col).pyLt (b.get col) ≠ some true
  else (b.get col).pyLt (a.get col) ≠ some true

instance (col direction : String) : DecidableRel (sortLe col direction) := fun a b => by
  unfold sortLe; infer_instance

/-- The two rows can be compared in the column, either way round. -/
def sortable (col : String) (a b : Row) : Prop :=
  ((a.get col).pyLt (b.get col)).isSome ∧ ((b.get col).pyLt (a.get col)).isSome

instance (col : String) : DecidableRel (sortable col) := fun a b => by
  unfold sortable; infer_instance

/-- Rows with a value in the sort column, sorted by it (stably, in both directions),
then the rows without one. -/
def sortRows (rows : List Row) : Option (String × String) → Except PyError (List Row)
  | none => .ok rows
  | some (col, direction) =>
    let present := rows.filter fun r => r.get col ≠ .null
    let missing := rows.filter fun r => r.get col = .null
    if present.Pairwise (sortable col) then
      .ok (present.insertionSort (sortLe col direction) ++ missing)
    else .error .typeError

/-! ## Reading a load file -/

mutual
/-- Strip the type markers from every string value, at any depth. -/
def stripPua (rm : String → String) : Json → Json
  | .str s => .str (rm s)
  | .arr xs => .arr (stripPuaList rm xs)
  | .obj kvs => .obj (stripPuaObj rm kvs)
  | v => v

/-- `[strip_pua(v) for v in value]`. -/
def stripPuaList (rm : String → String) : List Json → List Json
  | [] => []
  | v :: vs => stripPua rm v :: stripPuaList rm vs

/-- `{k: strip_pua(v) for k, v in value.items()}`. -/
def stripPuaObj (rm : String → String) : List (String × Json) → List (String × Json)
  | [] => []
  | (k, v) :: kvs => (k, stripPua rm v) :: stripPuaObj rm kvs
end

/-- A line of a typed-jsonl file: blank, one object, or an array of objects. -/
inductive Line
  | blank
  | bare (rec : Row)
  | array (recs : List Row)

/-- The records of a line. -/
def Line.recs : Line → List Row
  | .blank => []
  | .bare rec => [rec]
  | .array recs => recs

/-- `strip_pua` on a record. -/
def stripRow (rm : String → String) (rec : Row) : Row := rec.mapVal (stripPua rm)

/-- The rows of a file: every record, stripped and projected to the columns. -/
def iterStrippedRows (rm : String → String) (lines : List Line) (columns : List String) : List Row :=
  (lines.flatMap Line.recs).map fun rec => (stripRow rm rec).keep fun k => k ∈ columns

/-! ## One row to one fact -/

/-- `METADATA_VERSION`. -/
def metadataVersion : ℤ := 1

/-- The row without `_dlt_id` and `_dlt_load_id`, which are popped off it. -/
def stripIds (row : Row) : Row := (row.erase "_dlt_id").erase "_dlt_load_id"

/-- The entries of `{f: row[f] for f in keys}`. -/
def keyEntries (row : Row) : List String → Except PyError (List (String × Json))
  | [] => .ok []
  | f :: fs => do
    let v ← row.item f
    let rest ← keyEntries row fs
    return (f, v) :: rest

/-- `any(row.get(c) for c in hard_delete)`. -/
def anyTruthy (row : Row) (hardDelete : List String) : Bool :=
  hardDelete.any fun c => (row.get c).truthy

/-- Tombstone detection and key stripping, shared by the two encodings. -/
def tombstoneAndBody (row : Row) (keys hardDelete : List String) : Except PyError (Bool × Row) := do
  let isTombstone := anyTruthy row hardDelete
  if isTombstone ∧ keys ≠ [] then
    let kvs ← keyEntries row keys
    return (isTombstone, Dict.ofEntries kvs)
  else
    return (isTombstone, row)

/-- One row as one local fact, `mb.metadata` inline. `utcNow` is the clock's reading. -/
def buildRecord (row : Row) (recordTypeId : String) (keys hardDelete : List String) (loadId : String)
    (schemaId : Option String) (utcNow : String) : Except PyError Row := do
  let dltId := row.get "_dlt_id"
  let (isTombstone, body) ← tombstoneAndBody (stripIds row) keys hardDelete
  let metadata : List (String × Json) :=
    [("version", .int metadataVersion), ("record_type_id", .str recordTypeId),
      ("collected_at_utc", .str utcNow)] ++
    (match schemaId with
      | some s => if s ≠ "" then [("schema_id", .str s)] else []
      | none => []) ++
    (if isTombstone then [("is_tombstone", .bool true)] else []) ++
    (if dltId.truthy then [("source_record_id", dltId)] else []) ++
    (if loadId ≠ "" then [("source_load_id", .str loadId)] else [])
  return body.set "mb.metadata" (.obj metadata)

/-- A wire envelope `{"v": ..., "t": ..., "i": ...}`; `t` and `i` may be left out. -/
structure Envelope where
  v : Row
  t : Option Json
  i : Option Json
  deriving DecidableEq

/-- One row as one wire envelope. -/
def buildWireRecord (row : Row) (keys hardDelete : List String) : Except PyError Envelope := do
  let dltId := row.get "_dlt_id"
  let (isTombstone, body) ← tombstoneAndBody (stripIds row) keys hardDelete
  return { v := body
           t := if isTombstone then some (.bool true) else none
           i := if dltId.truthy then some dltId else none }

/-- `[build_wire_record(row, ...) for row in rows]`: the first row that raises ends it. -/
def buildWireRecords (keys hardDelete : List String) : List Row → Except PyError (List Envelope)
  | [] => .ok []
  | row :: rows => do
    let e ← buildWireRecord row keys hardDelete
    let es ← buildWireRecords keys hardDelete rows
    return e :: es

/-! ## What the functions compute -/

theorem keyEntries_spec {row : Row} {keys : List String} {kvs : List (String × Json)}
    (h : keyEntries row keys = .ok kvs) :
    kvs.map Prod.fst = keys ∧ ∀ e ∈ kvs, row.get? e.1 = some e.2 := by
  induction keys generalizing kvs with
  | nil => cases h; simp
  | cons f fs ih =>
    simp only [keyEntries, Row.item] at h
    cases hf : row.get? f with
    | none => rw [hf] at h; cases h
    | some v =>
      cases hr : keyEntries row fs with
      | error e => rw [hf, hr] at h; cases h
      | ok rest =>
        rw [hf, hr] at h
        cases h
        obtain ⟨h₁, h₂⟩ := ih hr
        refine ⟨by simp [h₁], ?_⟩
        rintro e he
        rcases List.mem_cons.1 he with rfl | he
        · exact hf
        · exact h₂ e he

/-- The key entries exist exactly when the row has all the keys. -/
theorem keyEntries_ok {row : Row} {keys : List String} :
    (∃ kvs, keyEntries row keys = .ok kvs) ↔ ∀ f ∈ keys, f ∈ row.keys := by
  induction keys with
  | nil => simp [keyEntries]
  | cons f fs ih =>
    simp only [List.forall_mem_cons, ← ih, keyEntries, Row.item]
    cases hf : row.get? f with
    | none =>
      have := Dict.get?_eq_none.1 hf
      simp [this, bind, Except.bind]
    | some v =>
      have := Dict.mem_keys_of_get? hf
      cases hr : keyEntries row fs with
      | error e => simp [bind, Except.bind]
      | ok rest => simp [this, bind, Except.bind, pure, Except.pure]

/-- A dictionary built from entries of `row` agrees with `row` on their keys. -/
theorem ofEntries_get? {row : Row} {kvs : List (String × Json)}
    (h : ∀ e ∈ kvs, row.get? e.1 = some e.2) (k : String) :
    (Dict.ofEntries kvs : Row).get? k = if k ∈ kvs.map Prod.fst then row.get? k else none := by
  unfold Dict.ofEntries
  suffices H : ∀ d : Row, (kvs.foldl (fun d e => d.set e.1 e.2) d).get? k =
      if k ∈ kvs.map Prod.fst then row.get? k else d.get? k by simpa using H Dict.empty
  induction kvs with
  | nil => intro d; simp
  | cons e kvs ih =>
    intro d
    rw [List.foldl_cons, ih fun e' he' => h e' (List.mem_cons_of_mem _ he')]
    have he := h e List.mem_cons_self
    by_cases hk : k ∈ kvs.map Prod.fst
    · rw [if_pos hk, if_pos (by simp only [List.map_cons]; exact List.mem_cons_of_mem _ hk)]
    · by_cases hke : k = e.1
      · subst hke; simp [hk, he]
      · rw [if_neg hk, if_neg (by simp only [List.map_cons, List.mem_cons]; tauto), Dict.get?_set, if_neg hke]

/-- **A row's body**: its tombstone flag, and for each key column the row's own value. -/
theorem tombstoneAndBody_spec {row : Row} {keys hardDelete : List String} {t : Bool} {body : Row}
    (h : tombstoneAndBody row keys hardDelete = .ok (t, body)) :
    t = anyTruthy row hardDelete ∧ (∀ f ∈ keys, body.get? f = row.get? f) ∧
      (t = false ∨ keys = [] → body = row) := by
  unfold tombstoneAndBody at h
  simp only at h
  split at h
  · rename_i ht
    cases hk : keyEntries row keys with
    | error e => rw [hk] at h; cases h
    | ok kvs =>
      rw [hk] at h
      cases h
      obtain ⟨h₁, h₂⟩ := keyEntries_spec hk
      refine ⟨rfl, fun f hf => ?_, fun hn => ?_⟩
      · rw [ofEntries_get? h₂, h₁, if_pos hf]
      · rcases hn with hn | hn
        · rw [ht.1] at hn; cases hn
        · exact absurd hn ht.2
  · cases h
    exact ⟨rfl, fun _ _ => rfl, fun _ => rfl⟩

/-- A row has a body unless it is a keyed tombstone that lacks a key column. -/
theorem tombstoneAndBody_ok {row : Row} {keys hardDelete : List String} :
    (∃ b, tombstoneAndBody row keys hardDelete = .ok b) ↔
      (anyTruthy row hardDelete = true → ∀ f ∈ keys, f ∈ row.keys) := by
  unfold tombstoneAndBody
  simp only
  split
  · rename_i ht
    rw [← keyEntries_ok]
    cases hk : keyEntries row keys <;> simp [ht.1, bind, Except.bind, pure, Except.pure]
  · rename_i ht
    refine ⟨fun _ h f hf => absurd ⟨h, List.ne_nil_of_mem hf⟩ ht, fun _ => ⟨_, rfl⟩⟩

end Matterbeam
