import Matterbeam.Model.Transport
import Matterbeam.Proof.Chunks

/-!
# Two tables of one load

The ids seen are kept for a pid and a load, without the table. So a row of one table whose
id a chunk of another table has carried is dropped as a repeat, though it never landed.

* `ownIds_iff`: the condition as a property of a sifting.
* `tables_apart`: **the records of a table are those it has alone exactly when** its chunks
  carry no id that was first seen in a chunk of the other table.
* `shared_id`: a customer and an order with one id.
-/

namespace Matterbeam

/-- A request that `send_chunk` makes of a chunk of a table, under a load. -/
def ChunkOf (pid loadId table : String) (rq : IngestRequest) : Prop :=
  ∃ (c : Chunk) (lines : List Envelope), buildWireRecords c.keys c.hardDelete c.rows = .ok lines ∧
    c.loadId = loadId ∧ c.tableName = table ∧ rq = HttpTransport.ingestRequest c (some pid) lines

/-- Chunks of two tables under one load, in some order. -/
structure TwoTables (pid loadId A B : String) (rqs : List IngestRequest) : Prop where
  ne : A ≠ B
  chunks : ∀ rq ∈ rqs, ChunkOf pid loadId A rq ∨ ChunkOf pid loadId B rq
  jobs : ∀ rq ∈ rqs, ∀ rq' ∈ rqs, rq.table ≠ rq'.table → rq.jobId ≠ rq'.jobId

/-- The bodies of the records committed for a recordtype. -/
def Server.bodies (srv : Server) (recordtypeId : String) : List Row :=
  (recordsIn srv.segments recordtypeId).map fun r => r.erase "mb.metadata"

/-- Every id that a chunk of the table carries, if a chunk of another table carried it before, was
seen before all of them or in an earlier chunk of the table. -/
def OwnIds (table : String) (seen : List Json.HashKey) (rqs : List IngestRequest) : Prop :=
  ∀ rqs₁ rq rqs₂, rqs = rqs₁ ++ rq :: rqs₂ → rq.table = table → ∀ e ∈ rq.lines, ∀ k, e.key = some k →
    (∃ rq' ∈ rqs₁, rq'.table ≠ table ∧ k ∈ Sift.keys Envelope.key rq'.lines) →
      k ∈ seen ∨ ∃ rq' ∈ rqs₁, rq'.table = table ∧ k ∈ Sift.keys Envelope.key rq'.lines

/-- That is: the chunks of the table are clean among all the chunks. -/
theorem ownIds_iff {table : String} {seen : List Json.HashKey} {rqs : List IngestRequest} :
    OwnIds table seen rqs ↔
      Sift.Clean Envelope.key IngestRequest.lines (fun rq => rq.table = table) seen seen rqs := by
  unfold OwnIds Sift.Clean
  simp only [decide_eq_true_eq]
  refine forall_congr' fun rqs₁ => forall₅_congr fun rq rqs₂ _ _ e => forall₃_congr fun _ k _ => ?_
  constructor
  · rintro h (hs | ⟨rq', hm, hk⟩)
    · exact Or.inl hs
    · by_cases ht : rq'.table = table
      · exact Or.inr ⟨rq', hm, ht, hk⟩
      · exact h ⟨rq', hm, ht, hk⟩
  · rintro h ⟨rq', hm, -, hk⟩
    exact h (Or.inr ⟨rq', hm, hk⟩)

section

variable {pid loadId A B : String} {rqs : List IngestRequest}

theorem ChunkOf.facts {table : String} {rq : IngestRequest} (h : ChunkOf pid loadId table rq) :
    rq.pid = pid ∧ rq.loadId = loadId ∧ rq.table = table ∧ ∃ n : ℕ, rq.seq = n.repr := by
  obtain ⟨c, lines, -, rfl, rfl, rfl⟩ := h
  exact ⟨rfl, rfl, rfl, c.seq, rfl⟩

theorem TwoTables.pid_eq (h : TwoTables pid loadId A B rqs) {rq : IngestRequest} (hm : rq ∈ rqs) :
    rq.pid = pid ∧ rq.loadId = loadId := by
  rcases h.chunks rq hm with h | h
  · exact ⟨h.facts.1, h.facts.2.1⟩
  · exact ⟨h.facts.1, h.facts.2.1⟩

/-- **Chunks of different tables have different ledger keys**, whatever characters are in the ids: the
number at the end has no bar in it. -/
theorem TwoTables.lkey_ne (h : TwoTables pid loadId A B rqs) {rq rq' : IngestRequest} (hm : rq ∈ rqs)
    (hm' : rq' ∈ rqs) (ht : rq.table ≠ rq'.table) : rq.lkey ≠ rq'.lkey := by
  intro he
  obtain ⟨n, hn⟩ : ∃ n : ℕ, rq.seq = n.repr := (h.chunks rq hm).elim (fun h => h.facts.2.2.2) fun h => h.facts.2.2.2
  obtain ⟨n', hn'⟩ : ∃ n : ℕ, rq'.seq = n.repr :=
    (h.chunks rq' hm').elim (fun h => h.facts.2.2.2) fun h => h.facts.2.2.2
  refine h.jobs rq hm rq' hm' ht ?_
  have hl := congrArg String.toList he
  have hbar : "|".toList = ['|'] := rfl
  obtain ⟨hp, hload⟩ := h.pid_eq hm
  obtain ⟨hp', hload'⟩ := h.pid_eq hm'
  simp only [IngestRequest.lkey, String.toList_append, hbar, hp, hload, hp', hload', hn, hn',
    List.append_assoc, List.singleton_append, List.append_cancel_left_eq] at hl
  have hj := (append_sep_inj' (Decimal.notMem_repr (by decide) _) (Decimal.notMem_repr (by decide) _) hl).1
  exact String.toList_inj.1 (List.cons.inj hj).2

/-- A table of the load is told by its recordtype. -/
theorem TwoTables.recordtypeId_eq (h : TwoTables pid loadId A B rqs) {rq : IngestRequest} (hm : rq ∈ rqs)
    (table : String) : rq.recordtypeId = pid ++ "." ++ table ↔ rq.table = table := by
  unfold IngestRequest.recordtypeId
  rw [(h.pid_eq hm).1, String.append_right_inj]

end

/-- **Tables of one load.** Whatever order the chunks of two tables are delivered in, the bodies
committed for the one are those committed when no chunk of the other is sent, exactly when its
chunks carry no id that was first seen in a chunk of the other. -/
theorem tables_apart (P : Runtime) (s : Sys) (pid loadId A B : String) (l l' : List (IngestRequest × Inputs))
    (h : TwoTables pid loadId A B (l.map Prod.fst))
    (hl' : l'.map Prod.fst = (l.map Prod.fst).filter fun rq => rq.table = B) :
    (s.deliverAll P l).srv.bodies (pid ++ "." ++ B) = (s.deliverAll P l').srv.bodies (pid ++ "." ++ B) ↔
      (s.srv.Open pid loadId →
        OwnIds B (s.srv.dltIdsSeen (pid, loadId)) (takenOf s.srv.entered (l.map Prod.fst))) := by
  have hp : ∀ x ∈ l, x.1.pid = pid ∧ x.1.loadId = loadId := fun x hx => h.pid_eq (List.mem_map_of_mem hx)
  have hp' : ∀ x ∈ l', x.1.pid = pid ∧ x.1.loadId = loadId := by
    intro x hx
    have hm : x.1 ∈ l'.map Prod.fst := List.mem_map_of_mem hx
    rw [hl'] at hm
    exact h.pid_eq (List.mem_filter.1 hm).1
  by_cases ho : s.srv.Open pid loadId
  · have hbody : ∀ (e : Envelope) utc, (e.stamp (pid ++ "." ++ B) loadId utc).erase "mb.metadata" =
        e.v.erase "mb.metadata" := by
      intro e utc
      unfold Envelope.stamp
      rw [Dict.erase_set]
    -- among the chunks of the two tables, the recordtype is the table
    have htag : ∀ rqs ⊆ l.map Prod.fst, Sift.kept (fun rq : IngestRequest => rq.recordtypeId = pid ++ "." ++ B)
        (fun e : Envelope => e.v.erase "mb.metadata")
        (Sift.sift Envelope.key IngestRequest.lines (s.srv.dltIdsSeen (pid, loadId)) rqs) =
        Sift.kept (fun rq : IngestRequest => rq.table = B) (fun e : Envelope => e.v.erase "mb.metadata")
          (Sift.sift Envelope.key IngestRequest.lines (s.srv.dltIdsSeen (pid, loadId)) rqs) := by
      intro rqs hsub
      refine Sift.kept_congr fun x hx => ?_
      have hm := hsub (Sift.fst_mem hx)
      exact decide_eq_decide.2 (h.recordtypeId_eq hm B)
    have hfilter : takenOf s.srv.entered ((l.map Prod.fst).filter fun rq => rq.table = B) =
        (takenOf s.srv.entered (l.map Prod.fst)).filter fun rq => rq.table = B := by
      refine takenOf_filter (fun rq hm rq' hm' ht => h.lkey_ne hm hm' fun he => ht ?_) _
      rw [he]
    unfold Server.bodies
    rw [deliverAll_records hbody ho hp, deliverAll_records hbody ho hp', List.append_cancel_left_eq, hl', hfilter,
      htag _ (takenOf_subset _ _), htag _ fun rq hm => takenOf_subset _ _ (List.mem_filter.1 hm).1,
      Sift.kept_eq_iff _ (fun _ hk => hk), ownIds_iff]
    exact ⟨fun hc _ => hc, fun hc => hc ho⟩
  · unfold Server.bodies
    rw [deliverAll_shut ho hp, deliverAll_shut ho hp']
    exact iff_of_true rfl fun h => absurd h ho

/-! ### Customers and orders -/

/-- A pid with no load closed, on a server that has seen nothing. -/
def shopSys : Sys := ⟨({} : Server).created "shop|shop" "0123456789abcdefghijklmnopq", []⟩

/-- The only row of a table, with an id, in a chunk. -/
def rowChunk (table : String) (dltId : String) : Chunk where
  recordtypeId := "shop." ++ table
  datasetName := "shop"
  tableName := table
  rows := [Dict.ofEntries [("id", .int 1), ("_dlt_id", .str dltId)]]
  keys := ["id"]
  hardDelete := []
  loadId := "1.0"
  jobId := table ++ ".a.jsonl"
  seq := 0

/-- The request of that chunk. -/
def rowRequest (table : String) (dltId : String) : IngestRequest :=
  HttpTransport.ingestRequest (rowChunk table dltId) (some "0123456789abcdefghijklmnopq")
    [⟨Dict.ofEntries [("id", .int 1)], none, some (.str dltId)⟩]

def rowInputs : Inputs := ⟨1700000000000, "2023-11-14T22:13:20+00:00", 7, ""⟩

/-- Customer 1 and order 1, in that order. -/
theorem twoTables_rows {dltId : String}
    (h : ChunkOf "0123456789abcdefghijklmnopq" "1.0" "orders" (rowRequest "orders" dltId)) :
    TwoTables "0123456789abcdefghijklmnopq" "1.0" "customers" "orders"
      [rowRequest "customers" "1", rowRequest "orders" dltId] where
  ne := by decide
  chunks := by
    simp only [List.forall_mem_cons]
    exact ⟨Or.inl ⟨rowChunk "customers" "1", _, rfl, rfl, rfl, rfl⟩, Or.inr h, by simp⟩
  jobs := by simp [rowRequest, HttpTransport.ingestRequest, rowChunk]

/-- With ids of their own, the order is committed as if there were no customer. -/
theorem tables_apart_shop :
    (shopSys.deliverAll .plain
        [(rowRequest "customers" "1", rowInputs), (rowRequest "orders" "2", rowInputs)]).srv.bodies
        ("0123456789abcdefghijklmnopq" ++ "." ++ "orders") =
      (shopSys.deliverAll .plain [(rowRequest "orders" "2", rowInputs)]).srv.bodies
        ("0123456789abcdefghijklmnopq" ++ "." ++ "orders") := by
  refine (tables_apart .plain shopSys _ "1.0" "customers" "orders" _ _
    (twoTables_rows ⟨rowChunk "orders" "2", _, rfl, rfl, rfl, rfl⟩) (by decide)).2 ?_
  -- the only id of an order is not the id of a customer
  intro _ rqs₁ rq rqs₂ he ht e hm k hk ⟨rq', hm', ht', hk'⟩
  have hmem : ∀ x ∈ rqs₁ ++ rq :: rqs₂, x = rowRequest "customers" "1" ∨ x = rowRequest "orders" "2" := by
    intro x hx
    rw [← he] at hx
    simpa using takenOf_subset _ _ hx
  rcases hmem rq (by simp) with rfl | rfl
  · exact absurd ht (by decide)
  rcases hmem rq' (by simp [hm']) with rfl | rfl
  · obtain rfl : e = ⟨Dict.ofEntries [("id", .int 1)], none, some (.str "2")⟩ := List.mem_singleton.1 hm
    obtain rfl : Json.HashKey.str "2" = k := Option.some.inj hk
    exact absurd hk' (by decide)
  · exact absurd rfl ht'

/-- **An id in two tables**: order 1 is never committed, as customer 1 had its id. -/
theorem shared_id :
    TwoTables "0123456789abcdefghijklmnopq" "1.0" "customers" "orders"
      [rowRequest "customers" "1", rowRequest "orders" "1"] ∧
    (shopSys.deliverAll .plain
        [(rowRequest "customers" "1", rowInputs), (rowRequest "orders" "1", rowInputs)]).srv.bodies
        ("0123456789abcdefghijklmnopq" ++ "." ++ "orders") ≠
      (shopSys.deliverAll .plain [(rowRequest "orders" "1", rowInputs)]).srv.bodies
        ("0123456789abcdefghijklmnopq" ++ "." ++ "orders") :=
  ⟨twoTables_rows ⟨rowChunk "orders" "1", _, rfl, rfl, rfl, rfl⟩, by decide⟩

end Matterbeam
