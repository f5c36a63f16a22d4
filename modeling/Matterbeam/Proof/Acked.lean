import Matterbeam.Proof.Commit
import Matterbeam.Proof.World

/-!
# Acknowledged jobs

`committed_of_acked` carried over to the clients: a load job that returned normally has had
every chunk acknowledged, so every row of its file is in the store.

* `acked_committed`: **acknowledged means committed**, for chunks and for load jobs.
* `colliding_keys`: ids with a bar in them can make the ledger keys of two chunks one, and
  then the acknowledgement of the one is given to the other.
-/

namespace Matterbeam

open Prog

/-! ## Jobs -/

section

variable {P : Runtime} {L : String → Prop} {es : List Event} {n : ℕ} {r : CallRun}

/-- A chunk whose call got a success is committed. -/
theorem committed_of_reply (hes : Unmixed L (sysTrace P es)) (hr : r ∈ (wAt P es n).calls) {rq : IngestRequest}
    (hL : L rq.loadId) {rsp : Response} (h : (Request.ingest rq, Answer.reply rsp) ∈ r.talk) (hrsp : rsp.status < 400) :
    AllCommitted (wAt P es n).sys.srv rq := by
  obtain ⟨t, th, -, ht, hq, ha⟩ := thread_of_reply hr h
  rw [wAt_sys] at ht ⊢
  obtain ⟨crash, pc, rfl⟩ := ingest_of_request ht hq
  exact committed_of_acked hes hL ht ha hrsp

/-- **A load job that returned has landed.** -/
theorem job_committed (hes : Unmixed L (sysTrace P es)) (hr : r ∈ (wAt P es n).calls) {job : LoadJob}
    (hL : L job.loadId) {cl : JobClient Request Answer} (hjob : r.call = .loadJob job)
    (hret : r.prog = .ret (.ok .unit, cl)) : ∀ row ∈ job.fileRows P,
      ∃ e, buildWireRecord row (keyFields job.table) (hardDeleteFields job.table) = .ok e ∧
        Committed (wAt P es n).sys.srv (HttpTransport.pidText cl.pid) job.table.name job.loadId e := by
  have hs := (world_inv P es n).sound r hr
  have hconv := hs.conv
  rw [hret, CallRun.program, hjob] at hconv
  obtain ⟨rows, hrows, htalk⟩ := talk_job hconv
  obtain ⟨-, hack⟩ := talk_sendEach hs.http htalk
  intro row hrow
  rw [← mem_rows hrows, ← LoadJob.chunks_flatten P r.start.config rows] at hrow
  obtain ⟨c, hc, hrow⟩ := List.mem_flatten.1 hrow
  obtain ⟨i, hi, rfl⟩ := List.getElem_of_mem hc
  obtain ⟨lines, rsp, hlines, hmem, -, -, hrsp⟩ := hack i hi
  obtain ⟨e, he, henc⟩ := mem_lines hlines hrow
  exact ⟨e, henc, committed_of_reply hes hr hL hmem hrsp e he⟩

end

/-- **Acknowledged means committed.** Whatever interleaves, is sent again or crashes: a chunk
that was answered 200 is committed, and so is every row of a load job that returned. -/
theorem acked_committed (P : Runtime) :
    (∀ es : List SysEvent, RowsOk es → KeyResent es → ∀ (n t : ℕ) (th : Thread) (rq : IngestRequest),
      (sAt P es n).threads[t]? = some th → th.request = .ingest rq → th.Acked P →
        AllCommitted (sAt P es n).srv rq) ∧
    (∀ es : List Event, RowsOk (sysTrace P es) → KeyResent (sysTrace P es) → ∀ n, ∀ r ∈ (wAt P es n).calls,
      ∀ (job : LoadJob) (cl : JobClient Request Answer),
        r.call = .loadJob job → r.prog = .ret (.ok .unit, cl) → ∀ row ∈ job.fileRows P,
          ∃ e, buildWireRecord row (keyFields job.table) (hardDeleteFields job.table) = .ok e ∧
            Committed (wAt P es n).sys.srv (HttpTransport.pidText cl.pid) job.table.name job.loadId e) := by
  refine ⟨fun es hes hkeys n t th rq ht hq hack => ?_, fun es hes hkeys n r hr job cl hjob hret =>
    job_committed (hes.unmixed hkeys fun _ => True) hr trivial hjob hret⟩
  obtain ⟨crash, pc, rfl⟩ := ingest_of_request ht hq
  obtain ⟨rsp, ha, hrsp⟩ := hack
  exact committed_of_acked (hes.unmixed hkeys fun _ => True) trivial ht ha (by omega)

/-! ### One job -/

/-- A keyed table. -/
def orders : Table where
  name := "orders"
  writeDisposition := some "merge"
  columns := Dict.ofEntries [("id", { name := "id", primaryKey := true })]

/-- A load of that table, with the ids given. -/
def ordersJob (ids : List ℤ) : LoadJob where
  table := orders
  lines := ids.map fun i => .bare (Dict.ofEntries [("id", .int i), ("_dlt_id", .str i.repr)])
  loadId := "1.0"
  jobId := "orders.a.jsonl"

/-- A clock reading, and the draws of one step. -/
def someInputs : Inputs := ⟨1700000000000, "2023-11-14T22:13:20+00:00", 7, "0123456789abcdefghijklmnopq"⟩

/-- A request of call `j`, from its sending to its answer, which is the server's thread `t`. -/
def exchange (j t ticks : ℕ) : List Event :=
  .send j none :: List.replicate ticks (.tick t someInputs) ++ [.recv j]

/-- A client registers and loads one row. -/
def ordersRun : List Event :=
  [.newClient ⟨"shop", 50000, 4194304⟩ "shop" 20, .call 0 (some "shop") (.loadJob (ordersJob [1]))] ++
    exchange 0 0 1 ++ exchange 0 1 11

/-- The only chunk of that run. -/
def ordersChunk : IngestRequest where
  pid := "0123456789abcdefghijklmnopq"
  table := "orders"
  loadId := "1.0"
  jobId := "orders.a.jsonl"
  seq := "0"
  lines := [⟨Dict.ofEntries [("id", .int 1)], none, some (.str "1")⟩]

theorem ingests_ordersRun : ingests (sysTrace .plain ordersRun) = [ordersChunk] := by decide

theorem rowsOk_ordersRun : RowsOk (sysTrace .plain ordersRun) :=
  .of_ingests ingests_ordersRun (by decide) (by decide)

theorem keyResent_ordersRun : KeyResent (sysTrace .plain ordersRun) :=
  .of_ingests ingests_ordersRun (by decide)

/-- The job of that run, as it ends. -/
theorem ordersRun_returned : ∃ r ∈ (wAt .plain ordersRun 18).calls, r.call = .loadJob (ordersJob [1]) ∧
    ∃ cl, r.prog = .ret (.ok .unit, cl) :=
  ⟨_, List.mem_singleton.2 rfl, rfl, _, rfl⟩

/-- The chunk of that run is acknowledged, and its row is in the store. -/
theorem acked_committed_orders :
    AllCommitted (sAt .plain (sysTrace .plain ordersRun) 14).srv ordersChunk ∧
    ∃ r ∈ (wAt .plain ordersRun 18).calls, ∃ cl, r.prog = .ret (.ok .unit, cl) ∧
      ∀ row ∈ (ordersJob [1]).fileRows .plain, ∃ e, buildWireRecord row ["id"] [] = .ok e ∧
        Committed (wAt .plain ordersRun 18).sys.srv (HttpTransport.pidText cl.pid) "orders" "1.0" e := by
  refine ⟨?_, ?_⟩
  · have hack : ∃ th, (sAt .plain (sysTrace .plain ordersRun) 14).threads[1]? = some th ∧
        th.request = .ingest ordersChunk ∧ th.Acked .plain := ⟨_, rfl, rfl, _, rfl, rfl⟩
    obtain ⟨th, ht, hq, ha⟩ := hack
    exact (acked_committed .plain).1 _ rowsOk_ordersRun keyResent_ordersRun 14 1 th _ ht hq ha
  · obtain ⟨r, hr, hjob, cl, hret⟩ := ordersRun_returned
    exact ⟨r, hr, cl, hret, (acked_committed .plain).2 _ rowsOk_ordersRun keyResent_ordersRun 18 r hr _ cl hjob hret⟩

/-! ### Colliding keys -/

/-- Two chunks of two loads and two jobs, whose ledger keys are one. -/
def barredChunk (loadId jobId : String) (i : ℤ) : IngestRequest where
  pid := "0123456789abcdefghijklmnopq"
  table := "orders"
  loadId := loadId
  jobId := jobId
  seq := "0"
  lines := [⟨Dict.ofEntries [("id", .int i)], none, some (.str i.repr)⟩]

/-- The one is committed, then the other is sent. -/
def barredRun : List SysEvent :=
  [.spawn (.register "shop" "shop") none, .tick 0 someInputs, .spawn (.ingest (barredChunk "1|orders" "a" 1)) none] ++
    List.replicate 11 (.tick 1 someInputs) ++
    [.spawn (.ingest (barredChunk "1" "orders|a" 2)) none, .tick 2 someInputs]

/-- **A chunk of load `1` is acknowledged by the ledger entry of a chunk of load `1|orders`**,
and its row is in no segment. -/
theorem colliding_keys : RowsOk barredRun ∧ Resent barredRun ∧
    ∃ th, (sAt .plain barredRun 16).threads[2]? = some th ∧ th.request = .ingest (barredChunk "1" "orders|a" 2) ∧
      th.Acked .plain ∧ ¬ AllCommitted (sAt .plain barredRun 16).srv (barredChunk "1" "orders|a" 2) := by
  have hin : ingests barredRun = [barredChunk "1|orders" "a" 1, barredChunk "1" "orders|a" 2] := rfl
  refine ⟨.of_ingests hin (by decide) (by decide), .of_ingests hin (by decide), _, rfl, rfl, ⟨_, rfl, rfl⟩,
    fun h => ?_⟩
  obtain ⟨seg, hseg, -, utc, hm⟩ := h _ (List.mem_singleton.2 rfl)
  have hids : ∀ seg ∈ (sAt .plain barredRun 16).srv.segments, ∀ r ∈ seg.records, r.get? "id" = some (.int 1) := by
    decide
  have hid := hids seg hseg _ hm
  rw [Envelope.stamp, Dict.get?_set, if_neg (by decide)] at hid
  revert hid
  decide

end Matterbeam
