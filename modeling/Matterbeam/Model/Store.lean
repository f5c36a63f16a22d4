import Matterbeam.Base.Decimal
import Matterbeam.Base.Replay
import Matterbeam.Model.Wire

/-!
# Segments, the reader and the fold

`segment_store.py` and `fold.py`: record ids packed from their fields, one segment
for each commit, the reader that lists segments by file name under a strictly
increasing cursor, and the last-value-wins fold.

* `get?_foldRecords`: the fold is the replay of the facts as a keyed log.
* `scan_sorted`: when file names increase in commit order, the reader returns every
  record in commit order and drops nothing.
-/

namespace Matterbeam

/-! ## Segments -/

/-- `pack_record_id`: the digits of the four fields, one after another. -/
def packRecordId (msSinceEpoch sequenceNumber writerId noise : ℕ) : ℕ :=
  Decimal.join (Decimal.join (Decimal.join msSinceEpoch 10 sequenceNumber) 5 writerId) 10 noise

/-- A committed segment. The request that wrote it is kept beside it; no reader sees it. -/
structure Segment where
  recordtypeId : String
  ids : List ℕ
  records : List Row
  request : IngestRequest

def Segment.firstId (s : Segment) : ℕ := s.ids.headD 0

def Segment.lastId (s : Segment) : ℕ := s.ids.getLastD 0

/-- The file name of a segment. -/
def Segment.name (s : Segment) : String := s.lastId.repr ++ "." ++ s.firstId.repr ++ ".jsonl"

/-- The key of a segment under the store's root. -/
def Segment.key (s : Segment) : String := "segments/" ++ s.recordtypeId ++ "/" ++ s.name

/-- `write_segment`: one segment with an id for each record. -/
def writeSegment (recordtypeId : String) (records : List Row) (beginMs writerId noise : ℕ)
    (request : IngestRequest) : Segment where
  recordtypeId := recordtypeId
  ids := (List.range records.length).map fun seq => packRecordId beginMs seq writerId noise
  records := records
  request := request

/-- The segments of a recordtype, in commit order. -/
def segmentsOf (segments : List Segment) (recordtypeId : String) : List Segment :=
  segments.filter fun s => s.recordtypeId = recordtypeId

/-! ## The reader -/

/-- A fact: its record id and the decoded record. -/
abbrev Fact := ℕ × Row

/-- The loop of `scan` over the listed segments: the facts read and the names dropped. -/
def scanLoop : List Segment → String → List Fact × List String
  | [], _ => ([], [])
  | s :: rest, cursor =>
    if s.lastId.repr ≤ cursor then
      ((scanLoop rest cursor).1, s.name :: (scanLoop rest cursor).2)
    else (s.ids.zip s.records ++ (scanLoop rest s.lastId.repr).1, (scanLoop rest s.lastId.repr).2)

/-- `fold.scan`: list a recordtype's segments by name and read them past the cursor. -/
def scan (segments : List Segment) (recordtypeId cursor : String) : List Fact × List String :=
  scanLoop ((segmentsOf segments recordtypeId).insertionSort fun a b => a.name ≤ b.name) cursor

/-! ## The fold -/

/-- `",".join(str(record.get(f)) for f in key_fields)`. -/
def foldKey (P : Runtime) (keyFields : List String) (record : Row) : String :=
  String.intercalate "," (keyFields.map fun f => P.str (record.get f))

/-- `record.get("mb.metadata", {}).get("is_tombstone")`. -/
def isTombstone (record : Row) : Bool :=
  match record.get? "mb.metadata" with
  | some (.obj md) => ((md.lookup "is_tombstone").getD .null).truthy
  | _ => false

/-- One turn of the loop of `fold`. -/
def foldStep (P : Runtime) (keyFields : List String) (state : Dict String Row) (record : Row) :
    Dict String Row :=
  if isTombstone record then state.erase (foldKey P keyFields record)
  else state.set (foldKey P keyFields record) record

/-- `_fold` of the file transport's tests: the current record of each key. -/
def foldRecords (P : Runtime) (records : List Row) (keyFields : List String) : Dict String Row :=
  records.foldl (foldStep P keyFields) Dict.empty

/-- `fold.fold` for a keyed table. -/
def fold (P : Runtime) (facts : List Fact) (keyFields : List String) : Dict String Row :=
  foldRecords P (facts.map Prod.snd) keyFields

/-- A record as an entry of a keyed log. -/
def recordOp (P : Runtime) (keyFields : List String) (record : Row) : String × Option Row :=
  (foldKey P keyFields record, if isTombstone record then none else some record)

theorem get?_foldStep (P : Runtime) (keyFields : List String) (state : Dict String Row) (record : Row) :
    (foldStep P keyFields state record).get? =
      Function.update state.get? (recordOp P keyFields record).1 (recordOp P keyFields record).2 := by
  funext k
  unfold foldStep recordOp
  by_cases ht : isTombstone record <;> by_cases hk : k = foldKey P keyFields record <;>
    simp [ht, hk]

/-- **The fold is a replay.** -/
theorem get?_foldRecords (P : Runtime) (records : List Row) (keyFields : List String) :
    (foldRecords P records keyFields).get? = Replay.replay (records.map (recordOp P keyFields)) := by
  unfold foldRecords
  induction records using List.reverseRecOn with
  | nil => rfl
  | append_singleton records r ih =>
    rw [List.foldl_append, List.map_append, List.map_singleton, Replay.replay_snoc, ← ih]
    exact get?_foldStep P keyFields _ _

/-! ## Reading in commit order -/

/-- The record ids of a segment, with its records. -/
def Segment.facts (s : Segment) : List Fact := s.ids.zip s.records

theorem scanLoop_sorted {l : List Segment} (h : l.Pairwise fun a b => a.lastId.repr < b.lastId.repr)
    {cursor : String} (hc : ∀ s ∈ l, cursor < s.lastId.repr) :
    scanLoop l cursor = (l.flatMap Segment.facts, []) := by
  induction l generalizing cursor with
  | nil => rfl
  | cons s l ih =>
    obtain ⟨h₁, h₂⟩ := List.pairwise_cons.1 h
    have hs : ¬ s.lastId.repr ≤ cursor := String.not_le.2 (hc s List.mem_cons_self)
    rw [scanLoop, if_neg hs, ih h₂ h₁]
    rfl

/-- The last id begins with the digits of `ms`. -/
def Segment.BeginsAt (s : Segment) (ms : ℕ) : Prop := ∃ t, s.lastId.repr = ms.repr ++ t

/-- The last ids begin with equally long numbers, that of `a` below that of `b`. -/
def Segment.Below (a b : Segment) : Prop :=
  ∃ m n : ℕ, a.BeginsAt m ∧ b.BeginsAt n ∧ m < n ∧ m.repr.length = n.repr.length

theorem Segment.Below.lt {a b : Segment} (h : a.Below b) : a.lastId.repr < b.lastId.repr ∧ a.name < b.name := by
  obtain ⟨m, n, ⟨t, ha⟩, ⟨u, hb⟩, hlt, hlen⟩ := h
  have h := Decimal.string_append_lt hlen (Decimal.repr_lt_repr hlt hlen)
  unfold Segment.name
  rw [ha, hb]
  simp only [String.append_assoc]
  exact ⟨h _ _, h _ _⟩

/-- **The reader of an increasing store.** When the last ids of a recordtype begin with equally
long numbers that increase in commit order, `scan` from the start reads every record in commit
order and drops no segment. -/
theorem scan_sorted {segments : List Segment} {recordtypeId : String}
    (hpos : ∀ s ∈ segmentsOf segments recordtypeId, 0 < s.lastId)
    (h : (segmentsOf segments recordtypeId).Pairwise Segment.Below) :
    scan segments recordtypeId "0" =
      ((segmentsOf segments recordtypeId).flatMap Segment.facts, []) := by
  unfold scan
  have hname : (segmentsOf segments recordtypeId).Pairwise fun a b => a.name ≤ b.name :=
    h.imp fun hab => String.not_lt.1 (String.lt_asymm hab.lt.2)
  rw [List.Pairwise.insertionSort_eq hname]
  exact scanLoop_sorted (h.imp fun hab => hab.lt.1) fun s hs => Decimal.zero_lt_repr (hpos s hs)

/-- A record id begins with its millisecond. -/
theorem repr_packRecordId {ms : ℕ} (h : 0 < ms) (seq writerId noise : ℕ) :
    ∃ t, (packRecordId ms seq writerId noise).repr = ms.repr ++ t := by
  obtain ⟨t₁, h₁⟩ := Decimal.repr_join h 10 seq
  have hpos₁ := h.trans_le (Decimal.le_join ms 10 seq)
  obtain ⟨t₂, h₂⟩ := Decimal.repr_join hpos₁ 5 writerId
  obtain ⟨t₃, h₃⟩ := Decimal.repr_join (hpos₁.trans_le (Decimal.le_join _ 5 writerId)) 10 noise
  unfold packRecordId
  rw [h₃, h₂, h₁, String.append_assoc, String.append_assoc]
  exact ⟨_, rfl⟩

theorem le_packRecordId (ms seq writerId noise : ℕ) : ms ≤ packRecordId ms seq writerId noise :=
  ((Decimal.le_join _ _ _).trans (Decimal.le_join _ _ _)).trans (Decimal.le_join _ _ _)

end Matterbeam
