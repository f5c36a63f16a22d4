import Matterbeam.Proof.HttpRun

/-!
# Merge semantics over HTTP

A load job on a keyed table runs once against an empty server. The server drops a row whose
id a chunk before it has carried, so what it folds to depends on where the chunks are cut.

* `keptRows`: the rows that are not dropped, by their ids and the chunks they are in.
* `run_serve`: the run succeeds, and its chunks are delivered one after another.
* `http_bodies`: what the run folds to is the walk over the rows that are not dropped.
* `http_merge`: **it is the walk over all rows exactly when**, for every key, the last row and
  the last row that is not dropped say the same.
* `dropped_update`: a row and its update in two chunks.
-/

namespace Matterbeam

open Function Prog

/-- The id a row is deduplicated by. -/
def rowId (row : Row) : Option Json.HashKey :=
  if (row.get "_dlt_id").truthy then (row.get "_dlt_id").hash? else none

/-- The rows that the server does not drop: those with no id, or with one that occurs in no
earlier chunk. -/
def keptRows (chunks : List (List Row)) : List Row := (Sift.sift rowId id [] chunks).flatMap Prod.snd

/-- What the last row of a key says about it: nothing, if there is none or it is a deletion. -/
def lastSays (P : Runtime) (keys hardDelete : List String) (rows : List Row) (k : String) : Option Row :=
  ((rows.filter fun row => foldKey P keys row = k).getLast?).bind fun row => (walkOp P keys hardDelete row).2

/-- A run over HTTP: the client dlt opens for it, and its settings. -/
structure HttpAttempt where
  max409Retries : ℕ := 20
  chunkRecords : ℤ
  chunkBytes : ℤ
  schemaName : String
  active : Option String

namespace HttpAttempt

variable (a : HttpAttempt) (datasetName : String)

def config : Config where
  datasetName := datasetName
  chunkRecords := a.chunkRecords
  chunkBytes := a.chunkBytes

def client (P : Runtime) : JobClient Request Answer where
  transport := HttpTransport.transport P ⟨a.max409Retries⟩
  config := a.config datasetName
  schemaName := a.schemaName

/-- The run of a job against an empty server: the server after it, and how it ended. -/
def run (P : Runtime) (inp : ℕ → Inputs) (job : LoadJob) : Sys × Except PyError Unit :=
  let (s, (r, _)) := (job.run P a.active (a.client datasetName P)).exec (serve P inp) {}
  (s, r)

end HttpAttempt

/-- The fold of a recordtype as a reader sees it, its metadata left out. -/
def Server.folded (P : Runtime) (srv : Server) (recordtypeId : String) (keys : List String) (k : String) :
    Option Row :=
  ((fold P (scan srv.segments recordtypeId "0").1 keys).get? k).map fun r => r.erase "mb.metadata"

section

variable {P : Runtime} {keys : List String} {inp : ℕ → Inputs} {job : LoadJob}

/-! ## What the lines of a chunk say -/

/-- What a line says about its key. -/
def envelopeOp (P : Runtime) (keys : List String) (e : Envelope) : String × Option Row :=
  (foldKey P keys e.v, if e.isTombstone then none else some (e.v.erase "mb.metadata"))

/-- **A stamped line** says what the line says. -/
theorem stamp_bodyOp (hk : KeysOk keys) (e : Envelope) (rtId loadId utc : String) :
    bodyOp P keys (e.stamp rtId loadId utc) = envelopeOp P keys e := by
  have hmd := lookup_tombstone e rtId loadId utc (by unfold Envelope.stamp; rw [Dict.get?_set, if_pos rfl])
  have hkey : foldKey P keys (e.stamp rtId loadId utc) = foldKey P keys e.v := by
    refine foldKey_congr fun f hf => ?_
    unfold Envelope.stamp
    rw [Dict.get?_set, if_neg fun h : f = "mb.metadata" => hk.noMeta (h ▸ hf)]
  have htomb : isTombstone (e.stamp rtId loadId utc) = e.isTombstone := by
    rw [← hmd]
    unfold isTombstone Envelope.stamp
    rw [Dict.get?_set, if_pos rfl]
  unfold bodyOp recordOp envelopeOp
  rw [hkey, htomb]
  cases e.isTombstone with
  | true => rfl
  | false =>
    unfold Envelope.stamp
    simp [Dict.erase_set]

/-- The row's id, if it has one, can be looked up. -/
def IdOk (row : Row) : Prop := (row.get "_dlt_id").truthy = true → (row.get "_dlt_id").hash?.isSome = true

instance (row : Row) : Decidable (IdOk row) := by unfold IdOk; infer_instance

/-- **The line of a row** has the row's id and says what the row says. -/
theorem wireRecord_op (hk : KeysOk keys) {hardDelete : List String} {row : Row} {e : Envelope}
    (he : buildWireRecord row keys hardDelete = .ok e) :
    e.key = rowId row ∧ (IdOk row → e.hashable = true) ∧
      envelopeOp P keys e = walkOp P keys (dataColumns hardDelete) row := by
  cases hb : tombstoneAndBody (stripIds row) keys hardDelete with
  | error err =>
    rw [wireRecord_error hb] at he
    cases he
  | ok tb =>
    have hop := stamp_op (P := P) hk he "" "" ""
    rw [stamp_bodyOp hk] at hop
    rw [buildWireRecord_ok hb] at he
    injection he with he
    obtain ⟨-, hd, hdt⟩ := wire_flags he.symm
    unfold Envelope.key Envelope.hashable rowId IdOk
    rw [hd]
    by_cases h : (row.get "_dlt_id").truthy = true
    · rw [hdt h]
      exact ⟨rfl, fun hid => by rw [hid h, Bool.or_true], hop⟩
    · exact ⟨by rw [if_neg h, if_neg h], fun _ => by simp [h], hop⟩

/-- The lines of a chunk are those of its rows, one by one. -/
theorem buildWireRecords_forall₂ {hardDelete : List String} {rows : List Row} {lines : List Envelope}
    (h : buildWireRecords keys hardDelete rows = .ok lines) :
    List.Forall₂ (fun row e => buildWireRecord row keys hardDelete = .ok e) rows lines := by
  induction rows generalizing lines with
  | nil => cases h; exact .nil
  | cons row rows ih =>
    simp only [buildWireRecords] at h
    cases he : buildWireRecord row keys hardDelete with
    | error err => rw [he] at h; cases h
    | ok e =>
      cases hes : buildWireRecords keys hardDelete rows with
      | error err => rw [he, hes] at h; cases h
      | ok es =>
        rw [he, hes] at h
        cases h
        exact .cons he (ih hes)

/-- The lines of a chunk have the rows' ids and say what the rows say. -/
theorem wireLines_op (hk : KeysOk keys) {hardDelete : List String} {rows : List Row} {lines : List Envelope}
    (h : buildWireRecords keys hardDelete rows = .ok lines) :
    rows.map (fun row => (rowId row, walkOp P keys (dataColumns hardDelete) row)) =
      lines.map (fun e => (e.key, envelopeOp P keys e)) := by
  have hf := buildWireRecords_forall₂ h
  clear h
  induction hf with
  | nil => rfl
  | cons he _ ih =>
    obtain ⟨h₁, -, h₂⟩ := wireRecord_op (P := P) hk he
    rw [List.map_cons, List.map_cons, h₁, h₂, ih]

theorem wireLines_hashable (hk : KeysOk keys) {hardDelete : List String} {rows : List Row} {lines : List Envelope}
    (h : buildWireRecords keys hardDelete rows = .ok lines) (hids : ∀ row ∈ rows, IdOk row) :
    lines.all Envelope.hashable = true := by
  have hf := buildWireRecords_forall₂ h
  clear h
  induction hf with
  | nil => rfl
  | cons he _ ih =>
    obtain ⟨hid, hids⟩ := List.forall_mem_cons.1 hids
    rw [List.all_cons, (wireRecord_op (P := .plain) hk he).2.1 hid, ih hids, Bool.and_true]

/-- Keyed rows can be encoded. -/
theorem buildWireRecords_ok (hk : KeysOk keys) {hardDelete : List String} {rows : List Row}
    (hrows : ∀ row ∈ rows, Keyed keys hardDelete row) : ∃ lines, buildWireRecords keys hardDelete rows = .ok lines := by
  induction rows with
  | nil => exact ⟨[], rfl⟩
  | cons row rows ih =>
    obtain ⟨hrow, hrest⟩ := List.forall_mem_cons.1 hrows
    obtain ⟨-, e, -, he⟩ := encodings_ok hk hrow "" "" none ""
    obtain ⟨es, hes⟩ := ih hrest
    refine ⟨e :: es, ?_⟩
    unfold buildWireRecords
    rw [he, hes]
    rfl

/-! ## The run -/

/-- **What the walk leaves** for a key is what the last row of the key says. -/
theorem replay_walk (P : Runtime) (keys hardDelete : List String) (rows : List Row) (k : String) :
    Replay.replay (rows.map (walkOp P keys hardDelete)) k = lastSays P keys hardDelete rows k := by
  rw [Replay.replay_eq]
  unfold Replay.lastOp lastSays
  rw [List.filter_map, List.getLast?_map, Option.map_map]
  have hf : ((fun e : String × Option Row => decide (e.1 = k)) ∘ walkOp P keys hardDelete) =
      fun row => decide (foldKey P keys row = k) := rfl
  rw [hf]
  cases (rows.filter fun row => decide (foldKey P keys row = k)).getLast? <;> rfl

/-- The requests of the chunks carry the ids of the chunks' rows, and say what they say. -/
theorem requests_op (hk : KeysOk keys) (hkeys : keyFields job.table = keys) {pid : String} {cs : List (List Row)}
    (hcs : ∀ c ∈ cs, job.Sendable pid c) (seq : ℕ) :
    List.Forall₂ (fun (c : List Row) (rq : IngestRequest) =>
      (id c).map (fun row => (rowId row, walkOp P keys (dataColumns (hardDeleteFields job.table)) row)) =
        rq.lines.map fun e => (e.key, envelopeOp P keys e)) cs (job.requests pid cs seq) := by
  induction cs generalizing seq with
  | nil => exact .nil
  | cons c cs ih =>
    obtain ⟨hc, hcs⟩ := List.forall_mem_cons.1 hcs
    refine .cons ?_ (ih hcs (seq + 1))
    subst hkeys
    exact wireLines_op hk hc.lines

/-- The chunks of a keyed job can be sent. -/
theorem sendable (hk : KeysOk keys) (hj : KeyedJob P keys job) (hids : ∀ row ∈ job.fileRows P, IdOk row)
    (pid : String) {cs : List (List Row)} (hcs : cs.flatten = job.fileRows P) : ∀ c ∈ cs, job.Sendable pid c := by
  intro c hc
  have hmem : ∀ row ∈ c, row ∈ job.fileRows P := fun row hr => hcs ▸ List.mem_flatten.2 ⟨c, hc, hr⟩
  obtain ⟨lines, hl⟩ := buildWireRecords_ok hk fun row hr => hj.rows row (hmem row hr)
  have hkeys := hj.fields
  subst hkeys
  refine ⟨⟨lines, hl⟩, ?_⟩
  have hw : (job.request pid c 0).lines = lines := by
    unfold LoadJob.request wireLines
    rw [hl]
  rw [hw]
  exact wireLines_hashable hk hl fun row hr => hids row (hmem row hr)

/-- The pid of a run against an empty server is the one drawn at its registration. -/
theorem register_first {T : HttpTransport} (hdraw : ({} : Server).freshDraw (inp 0).draw = true)
    (hmax : 0 < T.max409Retries) (name datasetName : String) :
    ∃ s, (T.register P name datasetName).exec (serve P inp) {} =
        (s, .ok (some (inp 0).draw)) ∧
      s.srv = ({} : Server).created (Server.registryKey name datasetName) (inp 0).draw := by
  have honce : onceStep P (inp 0) {} (.register name datasetName) =
      (({} : Server).created (Server.registryKey name datasetName) (inp 0).draw,
        some (registered P (inp 0).draw name true)) := by
    have hreg : ({} : Server).register name datasetName "external_dlt" (inp 0).draw =
        some (({} : Server).created (Server.registryKey name datasetName) (inp 0).draw, (inp 0).draw, true) := by
      rw [Server.register_created rfl, if_pos hdraw]
    simp only [onceStep, hreg]
    rfl
  exact ⟨_, register_serve hmax (serve_register (s := {}) honce), rfl⟩

/-- A pid that has just been created lets in every load. -/
theorem open_created {s : Sys} {key pid : String} (hs : s.srv = ({} : Server).created key pid) (loadId : String) :
    s.srv.Open pid loadId := by
  rw [hs]
  exact ⟨⟨PidItem.fresh, update_self _ _ _, by simp [PidItem.fresh], rfl⟩, List.not_mem_nil⟩

/-- **A single run of a keyed job**: it registers, and delivers its chunks one after another. -/
theorem run_serve (a : HttpAttempt) (datasetName : String) (hk : KeysOk keys) (hj : KeyedJob P keys job) (hsort : dedupSort job.table = none)
    (hids : ∀ row ∈ job.fileRows P, IdOk row) (hmax : 0 < a.max409Retries)
    (hdraw : ({} : Server).freshDraw (inp 0).draw = true) :
    ∃ (s : Sys) (l : List (IngestRequest × Inputs)), a.run datasetName P inp job = (s.deliverAll P l, .ok ()) ∧
      (∃ key, s.srv = ({} : Server).created key (inp 0).draw) ∧
      l.map Prod.fst = job.requests (inp 0).draw
        (LoadJob.chunks P (a.config datasetName) (job.fileRows P)) 0 ∧ ∀ x ∈ l, ∃ n, x.2 = inp n := by
  have hrows : job.rows P = .ok (job.fileRows P) := by
    unfold LoadJob.rows
    rw [hsort]
    rfl
  have hcs := sendable hk hj hids (inp 0).draw (LoadJob.chunks_flatten P (a.config datasetName) (job.fileRows P))
  obtain ⟨s, hreg, hs⟩ := register_first (P := P) (T := ⟨a.max409Retries⟩) hdraw hmax ((a.client datasetName P).fallbackKey a.active) datasetName
  have ho : s.srv.Open (inp 0).draw job.loadId := open_created hs job.loadId
  have hnew : ∀ n, 0 ≤ n → s.srv.ledger (job.lkey (inp 0).draw n) = none := by
    intro n _
    rw [hs]
    rfl
  have hT : (a.client datasetName P).transport = HttpTransport.transport P ⟨a.max409Retries⟩ := rfl
  obtain ⟨l, hrun, hl, hinp⟩ := sendEach_serve inp (a.config datasetName) a.active hT hmax hcs 0 ho hnew
  refine ⟨s, l, ?_, ⟨_, hs⟩, hl, hinp⟩
  have hfirst : (job.run P a.active (a.client datasetName P)).exec (serve P inp) {} =
      (s.deliverAll P l, (.ok (), (a.client datasetName P).registered (inp 0).draw)) := by
    rw [run_eq hj.taken hrows, ← hrun]
    -- the first chunk registers the client, and there is a first chunk
    obtain ⟨c, cs, hc⟩ := LoadJob.exists_chunk P (a.config datasetName) (job.fileRows P)
    change (job.sendEach a.active (a.config datasetName) (LoadJob.chunks P (a.config datasetName) (job.fileRows P))
      0 (a.client datasetName P)).exec (serve P inp) {} = _
    rw [hc]
    unfold LoadJob.sendEach
    rw [exec_bind, exec_bind, sendChunk_first rfl rfl hreg]
  unfold HttpAttempt.run
  rw [hfirst]

/-- The clock's readings have `d + 1` digits, with room for a number of chunks. -/
def ClockOk (d chunks : ℕ) (inp : ℕ → Inputs) : Prop :=
  ∀ n, 10 ^ d ≤ (inp n).now ∧ (inp n).now + chunks ≤ 10 ^ (d + 1)

section

variable {s : Sys} {key pid : String} {l : List (IngestRequest × Inputs)} {cs : List (List Row)}

/-- The chunks of a run are of the pid and the load of their job. -/
theorem delivered_load (hl : l.map Prod.fst = job.requests pid cs 0) {x : IngestRequest × Inputs} (hx : x ∈ l) :
    x.1.pid = pid ∧ x.1.loadId = job.loadId := by
  have hreq : x.1 ∈ job.requests pid cs 0 := hl ▸ List.mem_map_of_mem hx
  obtain ⟨hp, hload, -⟩ := LoadJob.mem_requests hreq
  exact ⟨hp, hload⟩

/-- **The segments of a run are in commit order**, if it was the first on its pid. -/
theorem delivered_increasing (hs : s.srv = ({} : Server).created key pid) (hl : l.map Prod.fst = job.requests pid cs 0)
    (hinp : ∀ x ∈ l, ∃ n, x.2 = inp n) {d : ℕ} (hclock : ClockOk d cs.length inp) :
    Increasing d ((s.deliverAll P l).srv.highWater pid (pid ++ "." ++ job.table.name))
      (segmentsOf (s.deliverAll P l).srv.segments (pid ++ "." ++ job.table.name)) := by
  have hlen : l.length = cs.length := by
    rw [← List.length_map Prod.fst, hl, LoadJob.length_requests]
  refine deliverAll_increasing (fun x hx => (delivered_load hl hx).1) ?_ (fun x hx => ?_) ?_
  · rw [hs]
    exact ⟨List.Pairwise.nil, by simp [segmentsOf, Server.created]⟩
  · obtain ⟨n, hn⟩ := hinp x hx
    rw [hn, hlen]
    exact hclock n
  · -- the mark is at zero, and the clock has room for the chunks
    have h0 : s.srv.highWater pid (pid ++ "." ++ job.table.name) = 0 := by rw [hs]; rfl
    have hroom := hclock 0
    have hpos : 0 < 10 ^ d := Nat.pow_pos (by decide)
    rw [h0, hlen]
    omega

/-- **The records of a run say what the rows say that are not dropped**, if it was the first on its pid. -/
theorem delivered_records (hk : KeysOk keys) (hkeys : keyFields job.table = keys) (hcs : ∀ c ∈ cs, job.Sendable pid c)
    (hs : s.srv = ({} : Server).created key pid) (hl : l.map Prod.fst = job.requests pid cs 0) :
    (recordsIn (s.deliverAll P l).srv.segments (pid ++ "." ++ job.table.name)).map (bodyOp P keys) =
      (keptRows cs).map (walkOp P keys (dataColumns (hardDeleteFields job.table))) := by
  have hstamp : ∀ (e : Envelope) utc, bodyOp P keys (e.stamp (pid ++ "." ++ job.table.name) job.loadId utc) =
      envelopeOp P keys e := fun e utc => stamp_bodyOp hk e _ _ utc
  have hrecs := deliverAll_records (P := P) hstamp (open_created hs job.loadId) fun x hx => delivered_load hl hx
  have hentered : ∀ n, 0 ≤ n → s.srv.entered (job.lkey pid n) = false := fun n _ => by rw [hs]; rfl
  rw [hl, LoadJob.takenOf_requests hcs hentered] at hrecs
  -- all the chunks are of one recordtype, and none was there before
  have htag : Sift.kept (fun rq : IngestRequest => rq.recordtypeId = pid ++ "." ++ job.table.name)
        (envelopeOp P keys) (Sift.sift Envelope.key IngestRequest.lines [] (job.requests pid cs 0)) =
      Sift.kept (fun _ => true) (envelopeOp P keys)
        (Sift.sift Envelope.key IngestRequest.lines [] (job.requests pid cs 0)) := by
    refine Sift.kept_congr fun x hx => ?_
    obtain ⟨hp, -, ht⟩ := LoadJob.mem_requests (Sift.fst_mem hx)
    unfold IngestRequest.recordtypeId
    rw [hp, ht, decide_eq_true rfl]
  have hnil : s.srv.dltIdsSeen (pid, job.loadId) = [] ∧
      recordsIn s.srv.segments (pid ++ "." ++ job.table.name) = [] := by
    rw [hs]
    exact ⟨rfl, rfl⟩
  rw [hnil.1, hnil.2, htag, List.map_nil, List.nil_append, ← Sift.kept_congr_items (requests_op (P := P) hk hkeys hcs 0),
    Sift.kept_all] at hrecs
  exact hrecs

end

/-- **What a single run folds to**: for every key, what the last row says that is not dropped. -/
theorem http_bodies (a : HttpAttempt) (datasetName : String) (hk : KeysOk keys) (hj : KeyedJob P keys job) (hsort : dedupSort job.table = none)
    (hids : ∀ row ∈ job.fileRows P, IdOk row) (hmax : 0 < a.max409Retries)
    (hdraw : ({} : Server).freshDraw (inp 0).draw = true) {d : ℕ}
    (hclock : ClockOk d (LoadJob.chunks P (a.config datasetName) (job.fileRows P)).length inp) :
    (a.run datasetName P inp job).2 = .ok () ∧
      (a.run datasetName P inp job).1.srv.folded P ((inp 0).draw ++ "." ++ job.table.name) keys =
        lastSays P keys (dataColumns (hardDeleteFields job.table))
          (keptRows (LoadJob.chunks P (a.config datasetName) (job.fileRows P))) := by
  obtain ⟨s, l, hrun, ⟨key, hs⟩, hl, hinp⟩ := run_serve a datasetName hk hj hsort hids hmax hdraw
  have hcs : ∀ c ∈ LoadJob.chunks P (a.config datasetName) (job.fileRows P), job.Sendable (inp 0).draw c :=
    sendable hk hj hids (inp 0).draw (LoadJob.chunks_flatten P _ _)
  have hinc := delivered_increasing (P := P) hs hl hinp hclock
  have hrecs := delivered_records (P := P) hk hj.fields hcs hs hl
  rw [hrun]
  refine ⟨rfl, ?_⟩
  funext k
  -- the fold reads the records in commit order, which is the order of the walk
  change bodies P ((scan (s.deliverAll P l).srv.segments ((inp 0).draw ++ "." ++ job.table.name) "0").1.map Prod.snd)
    keys k = _
  rw [hinc.scan, bodies_eq, hrecs, replay_walk]

end

/-- **Merge over HTTP.** A single run of a keyed job against an empty server succeeds. Its fold is the
walk over the rows of the file exactly when, for every key, the last row that is not dropped (a row is
dropped when its id occurs in an earlier chunk) and the last row say the same. -/
theorem http_merge (P : Runtime) (datasetName : String) (keys : List String) (job : LoadJob) (a : HttpAttempt)
    (inp : ℕ → Inputs) (d : ℕ) (hk : KeysOk keys) (hj : KeyedJob P keys job) (hsort : dedupSort job.table = none)
    (hids : ∀ row ∈ job.fileRows P, IdOk row) (hmax : 0 < a.max409Retries)
    (hdraw : ({} : Server).freshDraw (inp 0).draw = true)
    (hclock : ClockOk d (LoadJob.chunks P (a.config datasetName) (job.fileRows P)).length inp) :
    (a.run datasetName P inp job).2 = .ok () ∧
      ((a.run datasetName P inp job).1.srv.folded P ((inp 0).draw ++ "." ++ job.table.name) keys =
          Replay.replay ((job.fileRows P).map (walkOp P keys (hardDeleteFields job.table))) ↔
        ∀ k, lastSays P keys (dataColumns (hardDeleteFields job.table))
            (keptRows (LoadJob.chunks P (a.config datasetName) (job.fileRows P))) k =
          lastSays P keys (hardDeleteFields job.table) (job.fileRows P) k) := by
  obtain ⟨hok, hfold⟩ := http_bodies a datasetName hk hj hsort hids hmax hdraw hclock
  refine ⟨hok, ?_⟩
  rw [hfold, funext_iff]
  exact forall_congr' fun k => by rw [replay_walk]

/-! ### A row and its update -/

/-- A keyed table with a version. -/
def items : Table where
  name := "items"
  writeDisposition := some "merge"
  columns := Dict.ofEntries [("id", { name := "id", primaryKey := true }), ("version", { name := "version" })]

/-- A load of that table: item 1 in the versions given, with an id made of the key. -/
def itemsJob (vs : List ℤ) : LoadJob where
  table := items
  lines := vs.map fun v => .bare (Dict.ofEntries [("id", .int 1), ("version", .int v), ("_dlt_id", .str "a")])
  loadId := "1.0"
  jobId := "items.a.jsonl"

/-- A run with chunks of the size given. -/
def itemsAttempt (chunkRecords : ℤ) : HttpAttempt where
  chunkRecords := chunkRecords
  chunkBytes := 4194304
  schemaName := "shop"
  active := some "shop"

/-- The clock and the draws of a run. -/
def itemsInputs (_ : ℕ) : Inputs := ⟨1700000000000, "2023-11-14T22:13:20+00:00", 7, "0123456789abcdefghijklmnopq"⟩

/-- Two versions in one chunk: the update is kept. -/
theorem http_merge_items :
    ((itemsAttempt 2).run "shop" .plain itemsInputs (itemsJob [1, 2])).2 = .ok () ∧
      (((itemsAttempt 2).run "shop" .plain itemsInputs (itemsJob [1, 2])).1.srv.folded .plain
          ((itemsInputs 0).draw ++ "." ++ (itemsJob [1, 2]).table.name) ["id"] =
          Replay.replay (((itemsJob [1, 2]).fileRows .plain).map (walkOp .plain ["id"] (hardDeleteFields items))) ↔
        ∀ k, lastSays .plain ["id"] (dataColumns (hardDeleteFields items))
            (keptRows (LoadJob.chunks .plain ((itemsAttempt 2).config "shop") ((itemsJob [1, 2]).fileRows .plain))) k =
          lastSays .plain ["id"] (hardDeleteFields items) ((itemsJob [1, 2]).fileRows .plain) k) :=
  http_merge .plain "shop" ["id"] (itemsJob [1, 2]) (itemsAttempt 2) itemsInputs 12
    ⟨by decide, by decide, by decide, by decide⟩ ⟨by decide, ⟨none, by decide⟩, by decide⟩ (by decide) (by decide)
    (by decide) (by decide) (fun _ => by unfold itemsInputs; decide)

/-- **An update in a chunk of its own is lost**: it has the id of the row it updates. -/
theorem dropped_update :
    KeysOk ["id"] ∧ KeyedJob .plain ["id"] (itemsJob [1, 2]) ∧ dedupSort items = none ∧
    ((itemsAttempt 1).run "shop" .plain itemsInputs (itemsJob [1, 2])).1.srv.folded .plain
        ((itemsInputs 0).draw ++ "." ++ items.name) ["id"] ≠
      Replay.replay (((itemsJob [1, 2]).fileRows .plain).map (walkOp .plain ["id"] (hardDeleteFields items))) := by
  refine ⟨⟨by decide, by decide, by decide, by decide⟩, ⟨by decide, ⟨none, by decide⟩, by decide⟩, by decide,
    fun h => ?_⟩
  have h₁ := congrFun h "1"
  revert h₁
  decide

end Matterbeam
