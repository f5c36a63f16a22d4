import Matterbeam.Proof.Acked

/-!
# The stream of chunks

A load job streams the rows of its file into chunks. A chunk is sent when it meets a
threshold, and what is left is sent at the end.

* `Sends`: a client sends chunks one after another, and none of the sends raises.
* `chunksFrom_cut`: what the chunks are that the loop cuts the rows into.
* `load_job_sends`: **the job sends every row once, in order, in well-formed chunks**.
-/

namespace Matterbeam

open Prog

section

variable {Q A : Type}

/-- The client sends the chunks, one after another, and each send returns. -/
inductive Sends (active : Option String) : JobClient Q A → List Chunk → List (Q × A) → JobClient Q A → Prop
  | nil (cl : JobClient Q A) : Sends active cl [] [] cl
  | cons {cl cl₁ cl' : JobClient Q A} {c : Chunk} {cs : List Chunk} {k : Json} {l₁ l₂ : List (Q × A)}
      (h : Talk (cl.sendChunk active c) l₁ (.ok k, cl₁)) (hs : Sends active cl₁ cs l₂ cl') :
      Sends active cl (c :: cs) (l₁ ++ l₂) cl'

/-- A list of rows meets one of the thresholds. -/
def Meets (P : Runtime) (config : Config) (rows : List Row) : Prop :=
  (rows.length : ℤ) ≥ config.chunkRecords ∨ ((rows.map (LoadJob.rowSize P)).sum : ℤ) ≥ config.chunkBytes

namespace LoadJob

/-- The arguments of the sends for the chunks, numbered from `seq` on. -/
def numbered (job : LoadJob) (config : Config) (cs : List (List Row)) (seq : ℕ) : List Chunk :=
  (cs.zipIdx seq).map fun x => job.chunk config x.1 x.2

variable {job : LoadJob} {config : Config} {cs : List (List Row)} {seq : ℕ}

theorem numbered_seq : (job.numbered config cs seq).map Chunk.seq = List.range' seq cs.length := by
  unfold numbered
  rw [List.map_map, ← List.zipIdx_map_snd seq cs]
  rfl

theorem numbered_rows : (job.numbered config cs seq).map Chunk.rows = cs := by
  unfold numbered
  rw [List.map_map]
  exact List.zipIdx_map_fst seq cs

/-- **The job returns when all its chunks are sent.** -/
theorem talk_sendEach_iff {active : Option String} {cl cl' : JobClient Q A} {l : List (Q × A)} :
    Talk (job.sendEach active config cs seq cl) l (.ok (), cl') ↔
      Sends active cl (job.numbered config cs seq) l cl' := by
  induction cs generalizing seq cl l with
  | nil =>
    constructor
    · intro h
      obtain ⟨rfl, he⟩ := talk_ret.1 h
      cases he
      exact .nil _
    · intro h
      cases h
      exact talk_ret.2 ⟨rfl, rfl⟩
  | cons c cs ih =>
    have hcons : job.numbered config (c :: cs) seq = job.chunk config c seq :: job.numbered config cs (seq + 1) := rfl
    rw [hcons]
    unfold sendEach
    constructor
    · intro h
      obtain ⟨l₁, l₂, ⟨res, cl₁⟩, rfl, h₁, h₂⟩ := talk_bind.1 h
      cases res with
      | error e =>
        obtain ⟨-, he⟩ := talk_ret.1 h₂
        cases he
      | ok k => exact .cons h₁ (ih.1 h₂)
    · intro h
      cases h with
      | cons h₁ hs => exact talk_bind.2 ⟨_, _, _, rfl, h₁, ih.2 hs⟩

/-- Only the arguments of the sends matter. -/
theorem sendEach_congr {job' : LoadJob} (h : ∀ c seq, job.chunk config c seq = job'.chunk config c seq)
    {active : Option String} {cl : JobClient Q A} :
    job.sendEach active config cs seq cl = job'.sendEach active config cs seq cl := by
  induction cs generalizing seq cl with
  | nil => rfl
  | cons c cs ih =>
    unfold sendEach
    simp only [h, ih]

end LoadJob

end

/-! ## Cutting the rows -/

/-- The chunks that rows are cut into: all but the last meet a threshold, and no part at the
beginning of one does. -/
structure Cut (P : Runtime) (config : Config) (cs : List (List Row)) : Prop where
  meets : ∀ c ∈ cs.dropLast, Meets P config c
  least : ∀ c ∈ cs, ∀ p, p <+: c → p ≠ [] → p ≠ c → ¬ Meets P config p

section

variable {P : Runtime} {config : Config}

/-- **The chunks of the loop**, from rows that are pending and do not meet a threshold on. -/
theorem chunksFrom_cut (rows pending : List Row) (seq : ℕ)
    (hp : ∀ p, p <+: pending → p ≠ [] → ¬ Meets P config p) :
    Cut P config (LoadJob.chunksFrom P config rows pending (pending.map (LoadJob.rowSize P)).sum seq) := by
  induction rows generalizing pending seq with
  | nil =>
    unfold LoadJob.chunksFrom
    split
    · refine ⟨by simp, fun c hc p hpre hne _ => ?_⟩
      rw [List.mem_singleton.1 hc] at hpre
      exact hp p hpre hne
    · exact ⟨by simp, by simp⟩
  | cons row rows ih =>
    -- the bytes that the loop counts are those of the pending rows
    have hsum : (pending.map (LoadJob.rowSize P)).sum + LoadJob.rowSize P row =
        ((pending ++ [row]).map (LoadJob.rowSize P)).sum := by simp
    unfold LoadJob.chunksFrom
    rw [hsum]
    split
    · rename_i hfull
      -- a threshold is met: the chunk is sent, and the loop begins anew
      obtain ⟨hmeets, hleast⟩ := ih [] (seq + 1) (by simp)
      rw [List.map_nil, List.sum_nil] at hmeets hleast
      refine ⟨fun c hc => ?_, fun c hc p hpre hne hne' => ?_⟩
      · generalize LoadJob.chunksFrom P config rows [] 0 (seq + 1) = cs at *
        cases cs with
        | nil => simp at hc
        | cons c' cs =>
          rw [List.dropLast_cons_of_ne_nil (List.cons_ne_nil _ _)] at hc
          rcases List.mem_cons.1 hc with rfl | hc
          · exact hfull
          · exact hmeets c hc
      · rcases List.mem_cons.1 hc with rfl | hc
        · exact hp p ((List.prefix_concat_iff.1 hpre).resolve_left hne') hne
        · exact hleast c hc p hpre hne hne'
    · rename_i hfull
      -- no threshold is met yet, by the rows that are pending or any part of them
      refine ih (pending ++ [row]) seq fun p hpre hne => ?_
      rcases List.prefix_concat_iff.1 hpre with rfl | hpre
      · exact hfull
      · exact hp p hpre hne

/-- A chunk is empty only if there are no rows at all. -/
theorem chunksFrom_nil (rows pending : List Row) (bytes seq : ℕ)
    (h : [] ∈ LoadJob.chunksFrom P config rows pending bytes seq) : pending = [] ∧ rows = [] := by
  induction rows generalizing pending bytes seq with
  | nil =>
    unfold LoadJob.chunksFrom at h
    split at h
    · exact ⟨(List.mem_singleton.1 h).symm, rfl⟩
    · cases h
  | cons row rows ih =>
    unfold LoadJob.chunksFrom at h
    split at h
    · -- the chunk that was full has a row, and one for no rows is only sent if there was none before
      rcases List.mem_cons.1 h with h | h
      · simp at h
      · obtain ⟨-, rfl⟩ := ih [] 0 (seq + 1) h
        simp [LoadJob.chunksFrom] at h
    · obtain ⟨hp, -⟩ := ih (pending ++ [row]) _ seq h
      simp at hp

theorem chunksFrom_ne_nil (rows pending : List Row) (bytes : ℕ) :
    LoadJob.chunksFrom P config rows pending bytes 0 ≠ [] := by
  induction rows generalizing pending bytes with
  | nil => simp [LoadJob.chunksFrom]
  | cons row rows ih =>
    unfold LoadJob.chunksFrom
    split
    · exact List.cons_ne_nil _ _
    · exact ih _ _

end

/-! ## The job -/

/-- The run of a job: its rows are sorted, and sent chunk by chunk. -/
theorem LoadJob.run_eq {Q A : Type} {P : Runtime} {job : LoadJob} {active : Option String} {cl : JobClient Q A}
    {warning : Option String} (hw : checkDisposition job.table = .ok warning) :
    job.run P active cl = match job.rows P with
      | .error e => ret (.error e, cl)
      | .ok rows => job.sendEach active cl.config (LoadJob.chunks P cl.config rows) 0 cl := by
  unfold LoadJob.run
  rw [hw]
  dsimp only
  cases job.rows P with
  | error e => rfl
  | ok rows => exact LoadJob.sendLoop_eq P job active cl.config rows [] 0 0 cl

/-- **Only the records of the file matter.** -/
theorem LoadJob.run_lines {Q A : Type} {P : Runtime} {job : LoadJob} {active : Option String} {cl : JobClient Q A}
    {lines : List Line} (hl : lines.flatMap Line.recs = job.lines.flatMap Line.recs) :
    LoadJob.run P { job with lines := lines } active cl = job.run P active cl := by
  have hfile : LoadJob.fileRows P { job with lines := lines } = job.fileRows P := by
    unfold LoadJob.fileRows iterStrippedRows
    rw [hl]
    rfl
  have hrows : LoadJob.rows P { job with lines := lines } = job.rows P := by
    unfold LoadJob.rows
    rw [hfile]
  have hloop : ∀ rows, LoadJob.sendLoop P { job with lines := lines } active cl.config rows [] 0 0 cl =
      job.sendLoop P active cl.config rows [] 0 0 cl := by
    intro rows
    rw [LoadJob.sendLoop_eq, LoadJob.sendLoop_eq]
    -- the chunks that are sent have nothing of the lines
    refine LoadJob.sendEach_congr ?_
    intro c seq
    rfl
  unfold LoadJob.run
  rw [hrows]
  dsimp only
  simp only [hloop]

/-- **The load job sends every row once, in order, in well-formed chunks.** If the rows cannot be
sorted, it raises and sends nothing. Otherwise, it returns just when each of its chunks is sent and
no send raises:

* the chunks are numbered from 0 on, and there is at least one;
* their rows are the rows of the file, in the order of `sort_rows`;
* none is empty, unless it is the only one, and there are no rows;
* all but the last meet a threshold, and no part at the beginning of one does.

Only the records of the file matter, not the lines they are on. -/
theorem load_job_sends {Q A : Type} (P : Runtime) (job : LoadJob) (active : Option String) (cl : JobClient Q A)
    {warning : Option String} (hw : checkDisposition job.table = .ok warning) :
    (∀ e, job.rows P = .error e → job.run P active cl = ret (.error e, cl)) ∧
    (∀ rows, job.rows P = .ok rows → ∃ sent : List Chunk,
      (∀ l cl', Talk (job.run P active cl) l (.ok (), cl') ↔ Sends active cl sent l cl') ∧
      sent.map Chunk.seq = List.range sent.length ∧ sent ≠ [] ∧
      sent.flatMap Chunk.rows = rows ∧
      (∀ c ∈ sent, c.rows = [] → sent = [c] ∧ rows = []) ∧
      (∀ c ∈ sent.dropLast, Meets P cl.config c.rows) ∧
      ∀ c ∈ sent, ∀ p, p <+: c.rows → p ≠ [] → p ≠ c.rows → ¬ Meets P cl.config p) ∧
    (dedupSort job.table = none → job.rows P = .ok (job.fileRows P)) ∧
    job.fileRows P = ((job.lines.flatMap Line.recs).map fun rec =>
      (stripRow P.customPuaRemove rec).keep fun k => k ∈ job.columns) ∧
    ∀ lines, lines.flatMap Line.recs = job.lines.flatMap Line.recs →
      LoadJob.run P { job with lines := lines } active cl = job.run P active cl := by
  refine ⟨fun e he => ?_, fun rows hrows => ?_, fun hd => ?_, rfl, fun lines hl => LoadJob.run_lines hl⟩
  · rw [LoadJob.run_eq hw, he]
  · obtain ⟨hmeets, hleast⟩ : Cut P cl.config (LoadJob.chunks P cl.config rows) :=
      chunksFrom_cut rows [] 0 fun p hp hne => absurd (List.prefix_nil.1 hp) hne
    have hmap : (job.numbered cl.config (LoadJob.chunks P cl.config rows) 0).map Chunk.rows =
        LoadJob.chunks P cl.config rows := LoadJob.numbered_rows
    have hseq : (job.numbered cl.config (LoadJob.chunks P cl.config rows) 0).map Chunk.seq =
        List.range' 0 (LoadJob.chunks P cl.config rows).length := LoadJob.numbered_seq
    have hlen : (job.numbered cl.config (LoadJob.chunks P cl.config rows) 0).length =
        (LoadJob.chunks P cl.config rows).length := by
      rw [← hmap, List.length_map, hmap]
    -- what is sent are the chunks, numbered
    refine ⟨job.numbered cl.config (LoadJob.chunks P cl.config rows) 0, fun l cl' => ?_, ?_, fun hn => ?_, ?_,
      fun c hc hnil => ?_, fun c hc => hmeets _ ?_, fun c hc => hleast _ ?_⟩
    · rw [LoadJob.run_eq hw, hrows]
      exact LoadJob.talk_sendEach_iff
    · rw [hseq, hlen, List.range_eq_range']
    · rw [hn] at hmap
      exact chunksFrom_ne_nil rows [] 0 hmap.symm
    · rw [List.flatMap_def, hmap]
      exact LoadJob.chunks_flatten P cl.config rows
    · -- an empty chunk is sent only if there are no rows, and then it is the only one
      have hin : [] ∈ LoadJob.chunks P cl.config rows := by
        rw [← hmap, ← hnil]
        exact List.mem_map_of_mem hc
      obtain ⟨-, rfl⟩ := chunksFrom_nil rows [] 0 0 hin
      obtain rfl : c = job.chunk cl.config [] 0 := List.mem_singleton.1 hc
      exact ⟨rfl, rfl⟩
    · rw [← hmap, ← List.map_dropLast]
      exact List.mem_map_of_mem hc
    · rw [← hmap]
      exact List.mem_map_of_mem hc
  · unfold LoadJob.rows
    rw [hd]
    rfl

/-- A client with chunks of one record. -/
def singlesClient : JobClient Request Answer where
  transport := HttpTransport.transport .plain ⟨20⟩
  config := ⟨"shop", 1, 4194304⟩
  schemaName := "shop"

/-- It sends two rows in chunks that are numbered and not empty. -/
theorem load_job_sends_singles : ∃ sent : List Chunk,
    (∀ l cl', Talk ((ordersJob [1, 2]).run .plain (some "shop") singlesClient) l (.ok (), cl') ↔
      Sends (some "shop") singlesClient sent l cl') ∧
    sent.map Chunk.seq = List.range sent.length ∧
    (sent.flatMap Chunk.rows).map (fun row => row.get "id") = [.int 1, .int 2] ∧ ∀ c ∈ sent, c.rows ≠ [] := by
  obtain ⟨-, hok, -⟩ := load_job_sends .plain (ordersJob [1, 2]) (some "shop") singlesClient
    (rfl : checkDisposition (ordersJob [1, 2]).table = .ok none)
  obtain ⟨sent, hsends, hseq, -, hrows, hnil, -⟩ := hok ((ordersJob [1, 2]).fileRows .plain) rfl
  refine ⟨sent, hsends, hseq, ?_, fun c hc hn => ?_⟩
  · rw [hrows]
    decide
  · obtain ⟨-, h⟩ := hnil c hc hn
    exact absurd h (by decide)

end Matterbeam
