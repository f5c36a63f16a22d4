import Matterbeam.Proof.Commit
import Matterbeam.Proof.Framing
import Matterbeam.Proof.Outcomes
import Matterbeam.Proof.World

/-!
# A chunk is all or nothing

Both transports encode all the rows of a chunk before they write or send the first. Only a row
that cannot be reduced to its key fails, wherever it is in the chunk.

* `buildRows_cases`: all the rows are built, or the chunk fails with a `KeyError`.
* `sendChunk_bytes`: what a chunk does to the bytes of its file.
* `sendChunk_program`: what it sends to the server.
* `all_or_nothing`: **a chunk that fails writes and sends nothing**, and another is one append, or
  one body.
-/

namespace Matterbeam

open JsonText Prog Function

/-! ## Rows without their key -/

/-- The row is a tombstone that lacks a key column, once its ids are removed. -/
def LacksKey (keys hardDelete : List String) (row : Row) : Prop :=
  anyTruthy (stripIds row) hardDelete = true ∧ ∃ key ∈ keys, key ∉ (stripIds row).keys

/-- The chunk is keyed, and one of its rows cannot be reduced to its key. -/
def Chunk.LacksKey (c : Chunk) : Prop := c.keys ≠ [] ∧ ∃ row ∈ c.rows, Matterbeam.LacksKey c.keys c.hardDelete row

theorem Chunk.lacksKey_iff {c : Chunk} : c.LacksKey ↔ ∃ row ∈ c.rows, Matterbeam.LacksKey c.keys c.hardDelete row := by
  refine ⟨fun h => h.2, fun ⟨row, hrow, ht, key, hkey, hnot⟩ => ⟨?_, row, hrow, ht, key, hkey, hnot⟩⟩
  exact List.ne_nil_of_mem hkey

/-- The result is a `KeyError` if `bad` holds, and a value if not. -/
def KeyErrorIf {α : Type} (bad : Prop) (result : Except PyError α) : Prop :=
  (¬ bad ∧ ∃ a, result = .ok a) ∨ bad ∧ ∃ k, result = .error (.keyError k)

/-- What follows does not fail. -/
theorem KeyErrorIf.bind {α β : Type} {bad : Prop} {result : Except PyError α} (h : KeyErrorIf bad result)
    {f : α → Except PyError β} (hf : ∀ a, ∃ b, f a = .ok b) : KeyErrorIf bad (result >>= f) := by
  rcases h with ⟨hn, a, rfl⟩ | ⟨hb, k, rfl⟩
  · exact .inl ⟨hn, hf a⟩
  · exact .inr ⟨hb, k, rfl⟩

section

variable (keys hardDelete : List String) (row : Row)

/-- **A body is built** unless its row lacks its key. -/
theorem keyErrorIf_body : KeyErrorIf (LacksKey keys hardDelete row) (tombstoneAndBody (stripIds row) keys hardDelete) := by
  cases hbody : tombstoneAndBody (stripIds row) keys hardDelete with
  | ok b =>
    have hkeys := tombstoneAndBody_ok.1 ⟨b, hbody⟩
    exact .inl ⟨fun ⟨ht, key, hkey, hnot⟩ => hnot (hkeys ht key hkey), b, rfl⟩
  | error e =>
    refine .inr ⟨?_, ?_⟩
    · -- if it did not lack its key, there would be a body
      by_contra hn
      obtain ⟨b, hb⟩ := tombstoneAndBody_ok.2 fun ht key hkey => by_contra fun hnot => hn ⟨ht, key, hkey, hnot⟩
      rw [hbody] at hb
      cases hb
    · unfold tombstoneAndBody at hbody
      dsimp only at hbody
      split at hbody
      · cases hkvs : keyEntries (stripIds row) keys with
        | ok kvs =>
          rw [hkvs] at hbody
          cases hbody
        | error e' =>
          rw [hkvs] at hbody
          cases hbody
          obtain ⟨k, rfl⟩ := keyEntries_error hkvs
          exact ⟨k, rfl⟩
      · cases hbody

theorem keyErrorIf_wire : KeyErrorIf (LacksKey keys hardDelete row) (buildWireRecord row keys hardDelete) := by
  unfold buildWireRecord
  exact (keyErrorIf_body keys hardDelete row).bind fun ⟨t, body⟩ => ⟨_, rfl⟩

end

/-- The record of a row with its number. -/
def FileTransport.record (T : FileTransport) (c : Chunk) (row : Row × ℕ) : Except PyError Row :=
  buildRecord row.1 c.recordtypeId c.keys c.hardDelete c.loadId none (T.clock c row.2)

theorem keyErrorIf_record (T : FileTransport) (c : Chunk) (row : Row × ℕ) :
    KeyErrorIf (LacksKey c.keys c.hardDelete row.1) (T.record c row) := by
  unfold FileTransport.record buildRecord
  exact (keyErrorIf_body c.keys c.hardDelete row.1).bind fun ⟨t, body⟩ => ⟨_, rfl⟩

/-! ## All the rows of a chunk -/

section

variable {ρ α : Type} {bad : ρ → Prop} {build : ρ → Except PyError α}

/-- **All the rows are built**, or the first bad one fails the chunk. -/
theorem buildRows_cases (h : ∀ row, KeyErrorIf (bad row) (build row)) (rows : List ρ) :
    ((¬ ∃ row ∈ rows, bad row) ∧ ∃ records, List.Forall₂ (fun row a => build row = .ok a) rows records) ∨
      (∃ row ∈ rows, bad row) ∧ ∃ k, buildRows build rows = .error (.keyError k) := by
  induction rows with
  | nil => exact .inl ⟨by simp, [], .nil⟩
  | cons row rows ih =>
    rcases h row with ⟨hn, a, ha⟩ | ⟨hb, k, hk⟩
    · rcases ih with ⟨hns, records, hrecords⟩ | ⟨⟨row', hrow', hb⟩, k, hk⟩
      · exact .inl ⟨by simpa [hn] using hns, a :: records, .cons ha hrecords⟩
      · refine .inr ⟨⟨row', List.mem_cons_of_mem _ hrow', hb⟩, k, ?_⟩
        unfold buildRows
        rw [ha, hk]
        rfl
    · refine .inr ⟨⟨row, List.mem_cons_self, hb⟩, k, ?_⟩
      unfold buildRows
      rw [hk]
      rfl

end

theorem records_eq (T : FileTransport) (c : Chunk) (rows : List Row) (i : ℕ) :
    T.records c rows i = buildRows (T.record c) (rows.zipIdx i) := by
  induction rows generalizing i with
  | nil => rfl
  | cons row rows ih =>
    unfold FileTransport.records
    rw [ih, List.zipIdx_cons]
    rfl

theorem exists_zipIdx {α : Type} {p : α → Prop} {xs : List α} {i : ℕ} :
    (∃ x ∈ xs.zipIdx i, p x.1) ↔ ∃ a ∈ xs, p a := by
  constructor
  · rintro ⟨x, hx, hp⟩
    have hmem := List.mem_map_of_mem (f := Prod.fst) hx
    rw [List.zipIdx_map_fst] at hmem
    exact ⟨x.1, hmem, hp⟩
  · rintro ⟨a, ha, hp⟩
    rw [← List.zipIdx_map_fst i xs] at ha
    obtain ⟨x, hx, rfl⟩ := List.mem_map.1 ha
    exact ⟨x, hx, hp⟩

/-! ## What the transports do -/

/-- The name of a chunk's file. -/
def Chunk.file (c : Chunk) : String := c.recordtypeId ++ ".jsonl"

/-- **A chunk is one append to its file**, of a line for each row, or none. -/
theorem sendChunk_bytes (F : FileTransport) (num : NumberText) (c : Chunk) (files : OutputFiles) :
    (¬ c.LacksKey ∧ ∃ values, List.Forall₂ (fun row v => F.fileValue num c row = .ok v) c.rows.zipIdx values ∧
      (F.sendChunk c).exec (OutputFiles.append num) files =
        (update files c.file (some ((files c.file).getD [] ++ withNewlines (values.map bytesOf))), .ok (.str c.file))) ∨
    c.LacksKey ∧ ∃ k, F.sendChunk c = ret (.error (.keyError k)) := by
  have hbad : (∃ row ∈ c.rows.zipIdx, LacksKey c.keys c.hardDelete row.1) ↔ c.LacksKey := by
    rw [c.lacksKey_iff]
    exact exists_zipIdx
  unfold FileTransport.sendChunk
  rw [records_eq]
  rcases buildRows_cases (keyErrorIf_record F c) c.rows.zipIdx with ⟨hn, records, hrecords⟩ | ⟨hl, k, hk⟩
  · refine .inl ⟨fun h => hn (hbad.2 h), records.map fun r => r.toJson.toValue num, ?_, ?_⟩
    · rw [List.forall₂_map_right_iff]
      refine hrecords.imp fun row r hr => ?_
      unfold FileTransport.fileValue
      unfold FileTransport.record at hr
      rw [hr]
      rfl
    · rw [buildRows_ok hrecords]
      have happend := append_fst num files ⟨c.file, records⟩
      have hmap : (records.map fun r => r.toJson.toValue num).map bytesOf =
          records.map fun r => bytesOf (r.toJson.toValue num) := List.map_map
      rw [hmap]
      exact Prod.ext happend rfl
  · rw [hk]
    exact .inr ⟨hbad.1 hl, k, rfl⟩

/-- What `send_chunk` reads in the end of its request. -/
def segmentKey (result : Except PyError (Option Response)) : Except PyError Json := do
  let response ← result
  let body ← responseJson response
  let data ← body.item "data"
  data.get "segment_key"

/-- **A chunk is one request**, with an envelope for each row in its body, or none. -/
theorem sendChunk_program (P : Runtime) (T : HttpTransport) (c : Chunk) (pid : Option String) :
    (¬ c.LacksKey ∧ ∃ lines, List.Forall₂ (fun row e => buildWireRecord row c.keys c.hardDelete = .ok e) c.rows lines ∧
      T.sendChunk P c pid = (T.terminalOnConflict P (.ingest (HttpTransport.ingestRequest c pid lines)) >>= fun r =>
        ret (segmentKey r))) ∨
    c.LacksKey ∧ ∃ k, T.sendChunk P c pid = ret (.error (.keyError k)) := by
  unfold HttpTransport.sendChunk
  rw [buildWireRecords_eq, c.lacksKey_iff]
  rcases buildRows_cases (keyErrorIf_wire c.keys c.hardDelete) c.rows with ⟨hn, lines, hlines⟩ | ⟨hl, k, hk⟩
  · refine .inl ⟨hn, lines, hlines, ?_⟩
    rw [buildRows_ok hlines]
    rfl
  · rw [hk]
    exact .inr ⟨hl, k, rfl⟩

/-- The body that these envelopes stand for. -/
theorem wireBody_lines (num : NumberText) (compress : Octets → Octets) {c : Chunk} {lines : List Envelope}
    (h : List.Forall₂ (fun row e => buildWireRecord row c.keys c.hardDelete = .ok e) c.rows lines) :
    wireBody (wireValue num c.keys c.hardDelete) compress c.rows =
      .ok (compress ([newline].intercalate (lines.map fun e => bytesOf (e.toJson.toValue num)))) := by
  have hbuilt : buildRows (wireValue num c.keys c.hardDelete) c.rows = .ok (lines.map fun e => e.toJson.toValue num) := by
    rw [buildRows_wire, buildWireRecords_eq, buildRows_ok h]
    rfl
  have hmap : (lines.map fun e => e.toJson.toValue num).map bytesOf =
      lines.map fun e => bytesOf (e.toJson.toValue num) := List.map_map
  rw [wireBody_ok hbuilt, hmap]

/-! ## What the server answers -/

/-- The ingest does not end as a state write does. -/
def IngestPc.Unaccepted : IngestPc → Prop
  | release _ out => out ≠ .accepted
  | done out => out ≠ .accepted
  | _ => True

def Thread.Unaccepted : Thread → Prop
  | ingest _ _ pc => pc.Unaccepted
  | put _ _ _ => True
  | once rq _ => ∀ rq', rq ≠ .ingest rq'

theorem IngestStep.unaccepted {rq : IngestRequest} {crash : Option CrashPoint} {inp : Inputs} {srv srv' : Server}
    {pc pc' : IngestPc} (h : IngestStep rq crash inp srv pc srv' pc') (hpc : pc.Unaccepted) : pc'.Unaccepted := by
  cases h with
  | refused c h => rcases h with rfl | ⟨rfl, -⟩ | ⟨-, r, rfl⟩ <;> exact nofun
  | released => exact hpc
  | ended => exact hpc
  | hit | late | unhashable | crashMark | crashRecord | crashReply | replied => exact nofun
  | _ => trivial

/-- **An ingest that was not turned away** has its result for an answer. -/
theorem unaccepted (P : Runtime) (es : List SysEvent) (n : ℕ) {t : ℕ} {th : Thread}
    (ht : (sAt P es n).threads[t]? = some th) : th.Unaccepted := by
  suffices h : True ∧ ∀ {t : ℕ} {th : Thread}, (sAt P es n).threads[t]? = some th → th.Unaccepted from h.2 ht
  refine thread_rule (G := fun _ => True) (I := fun _ th => th.Unaccepted) trivial ?_ ?_ ?_ n
  · exact fun srv pid _ => ⟨trivial, fun th h => h⟩
  · intro srv rq crash _ _
    cases rq with
    | ingest rq => trivial
    | putState pid doc => trivial
    | _ => exact nofun
  · intro srv th inp _ _ hth
    refine ⟨trivial, ?_, fun th' _ _ h => h⟩
    cases th with
    | ingest rq crash pc => exact (IngestPc.step_spec rq crash inp srv pc).unaccepted hth
    | put pid doc pc => trivial
    | once rq answer => cases answer <;> exact hth

/-- The exchange is one with the server: the connection broke, or a thread answered in some run. -/
def Served (P : Runtime) (x : Request × Answer) : Prop :=
  x.2 = .broken ∨ ∃ (es : List SysEvent) (n t : ℕ) (th : Thread), (sAt P es n).threads[t]? = some th ∧
    th.request = x.1 ∧ th.answer P = some x.2

section

variable {P : Runtime} {T : HttpTransport} {l : List (Request × Answer)}

/-- **A success has the result of the ingest for its data.** -/
theorem served_ingest {rq : IngestRequest} {r : Response} (h : Served P (.ingest rq, .reply r)) (hr : r.status < 400) :
    ∃ res : IngestResult, r.json = some (.obj [("data", res.toJson)]) := by
  rcases h with he | ⟨es, n, t, th, ht, hreq, hans⟩
  · cases he
  · have hth := unaccepted P es n ht
    cases th with
    | put pid doc pc => cases hreq
    | once rq' answer => exact absurd hreq (hth rq)
    | ingest rq' crash pc =>
      cases pc with
      | done out =>
        obtain ⟨-, ⟨res, rfl⟩ | rfl⟩ := postAnswer_success (Option.some.inj hans) hr
        · cases hans
          exact ⟨res, rfl⟩
        · exact absurd rfl hth
      | _ => cases hans

theorem settle_error {rq : Request} {r : Response} {e : PyError} (h : HttpTransport.settle P rq r = .error e) (k : String) :
    e ≠ .keyError k := by
  unfold HttpTransport.settle at h
  split_ifs at h <;> cases h <;> exact nofun

/-- A request does not end in a `KeyError`. -/
theorem talk_request_error {rq : Request} {e : PyError} (h : Talk (T.terminalOnConflict P rq) l (.error e)) (k : String) :
    e ≠ .keyError k := by
  obtain ⟨l₁, l₂, result, rfl, h₁, h₂⟩ := talk_bind.1 h
  obtain ⟨-, he⟩ := talk_ret.1 h₂
  obtain ⟨contended, last, -, -, hend⟩ := conv_requestLoop h₁
  rintro rfl
  generalize hp : Prog.ret result = p at hend
  cases hend with
  | sending h => cases hp
  | gaveUp h =>
    cases hp
    cases he
  | broken h =>
    cases hp
    cases he
  | @settled r h hc =>
    cases hp
    cases hs : HttpTransport.settle P rq r with
    | ok response =>
      rw [hs] at he
      cases he
    | error e' =>
      have hne := settle_error hs k
      rw [hs] at he
      cases e' with
      | keyError k' =>
        cases he
        exact hne rfl
      | _ => cases he

/-- **A chunk raises a `KeyError`** exactly if a row lacks its key, whatever the server does. -/
theorem talk_sendChunk_keyError {c : Chunk} {pid : Option String} {r : Except PyError Json}
    (h : Talk (T.sendChunk P c pid) l r) (hserved : ∀ x ∈ l, Served P x) : (∃ k, r = .error (.keyError k)) ↔ c.LacksKey := by
  rcases sendChunk_program P T c pid with ⟨hn, lines, -, hprog⟩ | ⟨hl, k, hprog⟩
  · refine ⟨fun ⟨k, hk⟩ => ?_, fun hl => absurd hl hn⟩
    rw [hprog] at h
    obtain ⟨l₁, l₂, result, rfl, h₁, h₂⟩ := talk_bind.1 h
    obtain ⟨rfl, rfl⟩ := talk_ret.1 h₂
    cases result with
    | error e => exact absurd (Except.error.inj hk) (talk_request_error h₁ k)
    | ok response =>
      cases response with
      | none => cases hk
      | some r =>
        -- the response is a success, and has the key of the segment
        obtain ⟨-, hmem, -, -, hr⟩ := talk_ok h₁
        obtain ⟨res, hjson⟩ := served_ingest (hserved _ (List.mem_append_left _ hmem)) hr
        have hbody : responseJson (some r) = .ok (.obj [("data", res.toJson)]) := by
          unfold responseJson
          dsimp only
          rw [hjson]
        have hkey : segmentKey (.ok (some r)) = .ok (optStr res.segmentKey) := by
          change (responseJson (some r) >>= fun body => body.item "data" >>= fun data => data.get "segment_key") = _
          rw [hbody]
          rfl
        rw [hkey] at hk
        cases hk
  · rw [hprog] at h
    obtain ⟨-, rfl⟩ := talk_ret.1 h
    exact ⟨fun _ => hl, fun _ => ⟨k, rfl⟩⟩

end

/-- The calls of a world are served. -/
theorem served_of_call (P : Runtime) (es : List Event) (n : ℕ) {r : CallRun} (hr : r ∈ (wAt P es n).calls) :
    ∀ x ∈ r.talk, Served P x := by
  rintro ⟨q, a⟩ hx
  cases a with
  | broken => exact .inl rfl
  | reply rsp =>
    obtain ⟨t, th, -, ht, hreq, hans⟩ := thread_of_reply hr hx
    rw [wAt_sys] at ht
    exact .inr ⟨_, _, t, th, ht, hreq, hans⟩

/-- **A chunk is all or nothing.** It raises a `KeyError` exactly if it is keyed, and one of its rows
is a tombstone without a key column. Then no file is changed and no request made; otherwise a line
for each row is appended in order, or a body of all the rows handed to one request. -/
theorem all_or_nothing (P : Runtime) (num : NumberText) (c : Chunk) :
    (∀ (F : FileTransport) (files : OutputFiles),
      ((∃ k, ((F.sendChunk c).exec (OutputFiles.append num) files).2 = .error (.keyError k)) ↔ c.LacksKey) ∧
      (c.LacksKey → ((F.sendChunk c).exec (OutputFiles.append num) files).1 = files) ∧
      (¬ c.LacksKey → ∃ values, List.Forall₂ (fun row v => F.fileValue num c row = .ok v) c.rows.zipIdx values ∧
        (F.sendChunk c).exec (OutputFiles.append num) files =
          (update files c.file (some ((files c.file).getD [] ++ withNewlines (values.map bytesOf))), .ok (.str c.file)))) ∧
    ∀ (T : HttpTransport) (pid : Option String),
      (∀ l r, Talk (T.sendChunk P c pid) l r → (∀ x ∈ l, Served P x) →
        ((∃ k, r = .error (.keyError k)) ↔ c.LacksKey)) ∧
      (c.LacksKey → ∃ k, T.sendChunk P c pid = ret (.error (.keyError k))) ∧
      (¬ c.LacksKey → ∃ lines, List.Forall₂ (fun row e => buildWireRecord row c.keys c.hardDelete = .ok e) c.rows lines ∧
        (∀ compress, wireBody (wireValue num c.keys c.hardDelete) compress c.rows =
          .ok (compress ([newline].intercalate (lines.map fun e => bytesOf (e.toJson.toValue num))))) ∧
        T.sendChunk P c pid = (T.terminalOnConflict P (.ingest (HttpTransport.ingestRequest c pid lines)) >>= fun r =>
          ret (segmentKey r))) := by
  refine ⟨fun F files => ?_, fun T pid => ⟨fun l r h hserved => talk_sendChunk_keyError h hserved, ?_⟩⟩
  · rcases sendChunk_bytes F num c files with ⟨hn, values, hvalues, hexec⟩ | ⟨hl, k, hprog⟩
    · refine ⟨⟨fun ⟨k, hk⟩ => ?_, fun hl => absurd hl hn⟩, fun hl => absurd hl hn, fun _ => ⟨values, hvalues, hexec⟩⟩
      rw [hexec] at hk
      cases hk
    · rw [hprog]
      exact ⟨⟨fun _ => hl, fun _ => ⟨k, rfl⟩⟩, fun _ => rfl, fun hn => absurd hl hn⟩
  · rcases sendChunk_program P T c pid with ⟨hn, lines, hlines, hprog⟩ | ⟨hl, k, hprog⟩
    · exact ⟨fun hl => absurd hl hn, fun _ => ⟨lines, hlines, fun compress => wireBody_lines num compress hlines, hprog⟩⟩
    · exact ⟨fun _ => ⟨k, hprog⟩, fun hn => absurd hl hn⟩

/-- A row to be kept, and after it one to be deleted that does not say by what key. -/
def keylessChunk : Chunk where
  recordtypeId := "shop.orders"
  datasetName := "shop"
  tableName := "orders"
  rows := [Dict.ofEntries [("id", .int 1)], Dict.ofEntries [("deleted", .bool true), ("_dlt_id", .str "a")]]
  keys := ["id"]
  hardDelete := ["deleted"]
  loadId := "1.0"
  jobId := "orders.a.jsonl"
  seq := 0

/-- Neither row is written or sent, while a chunk without rows makes its file and is one request. -/
theorem all_or_nothing_keyless (num : NumberText) :
    (((⟨fun _ _ => ""⟩ : FileTransport).sendChunk keylessChunk).exec (OutputFiles.append num) fun _ => none).1 =
      (fun _ => none) ∧
    (∃ k, HttpTransport.sendChunk .plain {} keylessChunk (some "p") = ret (.error (.keyError k))) ∧
    (((⟨fun _ _ => ""⟩ : FileTransport).sendChunk emptyChunk).exec (OutputFiles.append num) fun _ => none).2 =
      .ok (.str "shop.orders.jsonl") := by
  have hlacks : keylessChunk.LacksKey :=
    ⟨by decide, _, List.mem_cons_of_mem _ List.mem_cons_self, by decide, "id", List.mem_cons_self, by decide⟩
  have hempty : ¬ emptyChunk.LacksKey := fun h => h.1 rfl
  obtain ⟨values, -, hexec⟩ := ((all_or_nothing .plain num emptyChunk).1 ⟨fun _ _ => ""⟩ fun _ => none).2.2 hempty
  refine ⟨((all_or_nothing .plain num keylessChunk).1 ⟨fun _ _ => ""⟩ fun _ => none).2.1 hlacks,
    ((all_or_nothing .plain num keylessChunk).2 {} (some "p")).2.1 hlacks, ?_⟩
  rw [hexec]
  rfl

end Matterbeam
