import Matterbeam.Proof.Acked
import Matterbeam.Proof.Once

/-!
# Jobs in turn

A load job sends its chunks one after another, so `inTurn_order` applies to it: its chunks are
committed in order. And when chunks of one ledger key carry the same rows, this is so across
all the jobs there are, however often each is sent again, whoever sends it.

* `job_inTurn`, `jobs_inTurn`: the deliveries of one job, and of all jobs, are in turn.
* `committed_once`: **at most once, one at a time, and in order.**
-/

namespace Matterbeam

open Prog

section

variable {P : Runtime} {sys : Sys} {r : CallRun} {job : LoadJob} {i i' t t' : ℕ} {rq rq' : IngestRequest}

/-- Where a job was when it sent a chunk. -/
theorem CallRun.SentAt.atChunk (hr : r.Sound P sys) (hjob : r.call = .loadJob job)
    (h : r.SentAt i t (.ingest rq)) : ∃ b, AtChunk job (r.talk.take i) 0 rq b := by
  obtain ⟨-, k, hconv⟩ := h.conv hr
  rw [CallRun.program, hjob] at hconv
  exact conv_job hr.http hconv

/-- A request before the one a job is at. -/
theorem mem_take_talk {x : Exchange} (hx : r.log[i]? = some x) (hlt : i < i') :
    (x.request, x.answer) ∈ r.talk.take i' := by
  obtain ⟨hi, rfl⟩ := List.getElem?_eq_some_iff.1 hx
  refine List.mem_take_iff_getElem.2 ⟨i, ?_, ?_⟩
  · simp only [CallRun.talk, List.length_map]
    omega
  · simp [CallRun.talk]

/-- A request that comes after another is not waiting before it. -/
theorem CallRun.SentAt.exchange (h : r.SentAt i t (.ingest rq)) (hlt : i < r.log.length) :
    ∃ x, r.log[i]? = some x ∧ x.thread = some t ∧ x.request = .ingest rq := by
  rcases h with h | ⟨rfl, -⟩
  · exact h
  · exact absurd hlt (lt_irrefl _)

/-- **A job sends its chunks in order.** -/
theorem sentAt_lt (hr : r.Sound P sys) (hjob : r.call = .loadJob job) (h : r.SentAt i t (.ingest rq))
    (h' : r.SentAt i' t' (.ingest rq')) (hb : rq.Before rq') : i < i' := by
  obtain ⟨a, b, ha, hb, hab⟩ := hb.seq
  obtain ⟨a', hat⟩ := h.atChunk hr hjob
  obtain rfl : a = a' := Decimal.repr_inj (ha.symm.trans hat.seq)
  by_contra hle
  rcases Nat.eq_or_lt_of_le (Nat.le_of_not_lt hle) with rfl | hlt
  · -- the same request is not of two numbers
    obtain ⟨-, k, hc⟩ := h.conv hr
    obtain ⟨-, k', hc'⟩ := h'.conv hr
    cases hc.det hc'
    rw [ha] at hb
    have := Decimal.repr_inj hb
    omega
  · obtain ⟨x, hx, -, hq⟩ := h'.exchange (lt_of_lt_of_le hlt (h.conv hr).1)
    obtain ⟨c, hc, he⟩ := hat.before _ (mem_take_talk hx hlt) rq' hq
    rw [hb] at he
    have := Decimal.repr_inj he
    omega

theorem CallRun.Le.sentAt_back {r r' : CallRun} (hle : r'.Le r) {q : Request} (h : r.SentAt i t q)
    (hlt : i < r'.log.length) : r'.SentAt i t q := by
  obtain ⟨rest, hr⟩ := hle.log
  have hi : r.log[i]? = r'.log[i]? := by rw [← hr]; exact List.getElem?_append_left hlt
  rcases h with ⟨x, hx, h⟩ | ⟨rfl, -⟩
  · exact Or.inl ⟨x, hi ▸ hx, h⟩
  · have := hle.log.length_le
    omega

/-- What a job sent before a chunk has been answered. -/
theorem answered_of_sentAt (hr : r.Sound P sys) (hjob : r.call = .loadJob job) (h : r.SentAt i t (.ingest rq))
    (h' : r.SentAt i' t' (.ingest rq')) (hlt : i < i') :
    ∃ th a, sys.threads[t]? = some th ∧ th.answer P = some a := by
  obtain ⟨b, hat⟩ := h'.atChunk hr hjob
  obtain ⟨x, hx, ht, -⟩ := h.exchange (lt_of_lt_of_le hlt (h'.conv hr).1)
  have hne := hat.answered _ (mem_take_talk hx hlt)
  cases ha : x.answer with
  | broken => exact absurd ha hne
  | reply rsp =>
    obtain ⟨t₀, th, ht₀, hth, hans⟩ := hr.answered x (List.mem_of_getElem? hx) rsp ha
    rw [ht] at ht₀
    cases ht₀
    exact ⟨th, _, hth, hans⟩

end

section

variable {P : Runtime} {es : List Event}

/-- A thread of a call was already its own when it was there. -/
theorem sentAt_of_thread {n j t : ℕ} {r : CallRun} {q : Request} (hn : n ≤ es.length)
    (hj : (wAt P es es.length).calls[j]? = some r) (hs : r.Sent t q) (ht : t < (wAt P es n).sys.threads.length) :
    ∃ r' i, (wAt P es n).calls[j]? = some r' ∧ r'.Le r ∧ r'.SentAt i t q ∧ r.SentAt i t q := by
  obtain ⟨r₀, hr₀, hs₀⟩ := (world_inv P es n).sent (List.getElem?_eq_getElem ht)
  obtain ⟨j₀, hj₀⟩ := List.mem_iff_getElem?.1 hr₀
  obtain ⟨r₁, hr₁, hle⟩ := calls_mono hn hj₀
  obtain ⟨i, hi⟩ := CallRun.sent_iff.1 hs₀
  have hi₁ := hle.sent i t _ hi
  obtain rfl := (world_inv P es es.length).unique hj hr₁ hs (CallRun.sent_iff.2 ⟨i, hi₁⟩)
  rw [hj] at hr₁
  cases hr₁
  have hsound := (world_inv P es es.length).sound r (List.mem_of_getElem? hj)
  obtain ⟨th, hth, hq⟩ := hsound.thread hs
  obtain ⟨th', hth', hq'⟩ := hsound.thread (CallRun.sent_iff.2 ⟨i, hi₁⟩)
  rw [hth] at hth'
  cases hth'
  rw [← hq', hq] at hi hi₁
  exact ⟨r₀, i, hj₀, hle, hi, hi₁⟩

/-- The threads that a call has sent. -/
def CallRun.threads (r : CallRun) (t : ℕ) : Prop := ∃ q, r.Sent t q

theorem sent_of_delivers {r : CallRun} {t : ℕ} {rq : IngestRequest} (hr : r ∈ (wAt P es es.length).calls)
    (ht : r.threads t) (hd : Delivers P (sysTrace P es) t rq) : r.Sent t (.ingest rq) := by
  obtain ⟨q, hs⟩ := ht
  obtain ⟨th, hth, hq⟩ := ((world_inv P es es.length).sound r hr).thread hs
  rw [wAt_sys] at hth
  have := hd.eq hth
  rw [← this, hq]
  exact hs

/-- **A load job delivers its chunks one after another.** -/
theorem job_inTurn {r : CallRun} {job : LoadJob} (hr : r ∈ (wAt P es es.length).calls)
    (hjob : r.call = .loadJob job) : InTurn P (sysTrace P es) r.threads := by
  intro m t t' rq rq' ht ht' hd hd' hb hlt
  obtain ⟨n, hn, hsys⟩ := exists_wAt (P := P) es m
  rw [hsys] at hlt
  obtain ⟨j, hj⟩ := List.mem_iff_getElem?.1 hr
  have hsound := (world_inv P es es.length).sound r hr
  have hs := sent_of_delivers hr ht hd
  obtain ⟨r', i', hr', hle, hi', hi₁'⟩ := sentAt_of_thread hn hj (sent_of_delivers hr ht' hd') hlt
  obtain ⟨i, hi⟩ := CallRun.sent_iff.1 hs
  have hii := sentAt_lt hsound hjob hi hi₁' hb
  have hsound' := (world_inv P es n).sound r' (List.mem_of_getElem? hr')
  have hback := hle.sentAt_back hi (lt_of_lt_of_le hii (hi'.conv hsound').1)
  obtain ⟨th, a, hth, ha⟩ := answered_of_sentAt hsound' (hle.call.symm.trans hjob) hback hi' hii
  exact Or.inl ⟨th, a, by rw [hsys]; exact hth, ha⟩

/-- The threads of all load jobs. -/
def jobThreads (w : World) (t : ℕ) : Prop := ∃ r ∈ w.calls, (∃ job, r.call = .loadJob job) ∧ r.threads t

/-- **All load jobs together deliver their chunks one after another**: a chunk is sent only
after the chunk before it was acknowledged, so by then its rows have landed. -/
theorem jobs_inTurn (hes : RowsOk (sysTrace P es)) (hkeys : KeyResent (sysTrace P es)) :
    InTurn P (sysTrace P es) (jobThreads (wAt P es es.length)) := by
  intro m t t' rq rq' _ ht' hd hd' hb hlt
  obtain ⟨n, hn, hsys⟩ := exists_wAt (P := P) es m
  rw [hsys] at hlt ⊢
  obtain ⟨r, hr, ⟨job, hjob⟩, hrt⟩ := ht'
  obtain ⟨j, hj⟩ := List.mem_iff_getElem?.1 hr
  obtain ⟨r', i', hr', hle, hi', -⟩ := sentAt_of_thread hn hj (sent_of_delivers hr hrt hd') hlt
  have hmem' := List.mem_of_getElem? hr'
  obtain ⟨b, hat⟩ := hi'.atChunk ((world_inv P es n).sound r' hmem') (hle.call.symm.trans hjob)
  -- the chunk before it has been acknowledged
  obtain ⟨a, b', ha, hb', hab⟩ := hb.seq
  obtain rfl : b' = b := Decimal.repr_inj (hb'.symm.trans hat.seq)
  obtain ⟨rq₀, rsp, hmem, hrsp, hp, hl, hjid, hs⟩ := hat.acked a (Nat.zero_le a) hab
  have hmem := List.mem_of_mem_take hmem
  have hun := hes.unmixed hkeys fun _ => True
  have hall := committed_of_reply hun hmem' trivial hmem hrsp
  -- and it is the same chunk by its ledger key
  have hk : rq₀.lkey = rq.lkey := by
    unfold IngestRequest.lkey
    rw [hp, hl, hjid, hs, ha, hb.pid, hb.loadId, hb.jobId, hat.loadId, hat.jobId]
  have harr : Arrives (sysTrace P es) (.ingest rq) := by
    obtain ⟨th, hth, hq⟩ := hd
    exact hq ▸ arrives_of_thread hth
  have harr₀ : Arrives (sysTrace P es) (.ingest rq₀) := by
    obtain ⟨t₀, th, -, hth, hq, -⟩ := thread_of_reply hmem' hmem
    rw [wAt_sys] at hth
    exact hq ▸ arrives_of_thread hth
  exact Or.inr (AllCommitted.resent hun harr harr₀ trivial hk.symm fun _ => hall).landed

end

/-- **At most once, one at a time, and in order.** With ids on all rows, and no request that
crashes between its commit and its mark: no row is committed twice in a load, no two requests
are between claim and release of one pid, a pid that no request is at has its semaphore up, and
the commits of chunks that are delivered one after another are in the order of their numbers.
A load job delivers its chunks so, and all load jobs do together if the chunks of one ledger
key carry the same rows. -/
theorem committed_once (P : Runtime) :
    (∀ es : List SysEvent, IdsOk es → MarksOk es →
      (∀ n rq, Arrives es (.ingest rq) → ∀ e ∈ rq.lines,
        ((sAt P es n).srv.recordsOf rq.pid rq.loadId).countP (fun r => recordKey r = e.key) ≤ 1) ∧
      (∀ (n t t' : ℕ) (th th' : Thread) (p : String) (v v' : ℕ), (sAt P es n).threads[t]? = some th →
        (sAt P es n).threads[t']? = some th' → th.held = some (p, v) → th'.held = some (p, v') → t = t') ∧
      (∀ n p item, (sAt P es n).srv.pids p = some item →
        (∀ th ∈ (sAt P es n).threads, ∀ v, th.held ≠ some (p, v)) → item.invokeSemaphore = 1) ∧
      (∀ C, InTurn P es C → ∀ i i' t t' rq rq', C t → C t' → Delivers P es t rq → Delivers P es t' rq' →
        rq.Before rq' → Wrote P es i t → Wrote P es i' t' → i < i')) ∧
    (∀ es : List Event,
      (∀ r ∈ (wAt P es es.length).calls, ∀ job, r.call = .loadJob job → InTurn P (sysTrace P es) r.threads) ∧
      (RowsOk (sysTrace P es) → KeyResent (sysTrace P es) →
        InTurn P (sysTrace P es) (jobThreads (wAt P es es.length)))) := by
  refine ⟨fun es hes hcrash => ⟨fun n rq ha e he => ?_, fun n t t' th th' p v v' ht ht' hh hh' =>
    (lock_inv P es n).unique ht ht' hh hh', fun n p item hp hidle => free_of_idle hp hidle,
    fun C hC i i' t t' rq rq' ht ht' hd hd' hb hw hw' => inTurn_order hes hcrash hC ht ht' hd hd' hb hw hw'⟩,
    fun es => ⟨fun r hr job hjob => job_inTurn hr hjob, jobs_inTurn⟩⟩
  exact countP_key_le_one (once_inv hes hcrash n).1 _ _ _

/-! ### Two chunks -/

/-- A client registers and loads two rows, one to a chunk. -/
def twoChunks : List Event :=
  [.newClient ⟨"shop", 1, 4194304⟩ "shop" 20, .call 0 (some "shop") (.loadJob (ordersJob [1, 2]))] ++
    exchange 0 0 1 ++ exchange 0 1 11 ++ exchange 0 2 11

/-- The second chunk of that run. -/
def secondChunk : IngestRequest :=
  { ordersChunk with seq := "1", lines := [⟨Dict.ofEntries [("id", .int 2)], none, some (.str "2")⟩] }

theorem ingests_twoChunks : ingests (sysTrace .plain twoChunks) = [ordersChunk, secondChunk] := by decide

theorem idsOk_twoChunks : IdsOk (sysTrace .plain twoChunks) := by
  have h : ∀ rq ∈ ingests (sysTrace .plain twoChunks),
      (∀ e ∈ rq.lines, e.dltId.truthy = true) ∧ (rq.lines.filterMap Envelope.key).Nodup := by
    rw [ingests_twoChunks]
    decide
  exact ⟨fun ha => (h _ (arrives_ingest.1 ha)).1, fun ha => (h _ (arrives_ingest.1 ha)).2⟩

/-- The events of a run in which every request comes without a crash. -/
theorem marksOk_of_spawns {es : List SysEvent}
    (h : es.all fun | .spawn _ (some .afterCommitBeforeMark) => false | _ => true) : MarksOk es := by
  intro rq crash hm he
  have := List.all_eq_true.1 h _ hm
  rw [he] at this
  cases this

/-- Each of the two rows is once in the store, and the first chunk's segment comes first. -/
theorem committed_once_orders :
    (((sAt .plain (sysTrace .plain twoChunks) 26).srv.recordsOf ordersChunk.pid "1.0").countP
      (fun r => recordKey r = some (.str "1")) ≤ 1) ∧
    ∀ i i', Wrote .plain (sysTrace .plain twoChunks) i 1 → Wrote .plain (sysTrace .plain twoChunks) i' 2 → i < i' := by
  have hmarks : MarksOk (sysTrace .plain twoChunks) := marksOk_of_spawns rfl
  obtain ⟨honce, -, -, horder⟩ := (committed_once .plain).1 _ idsOk_twoChunks hmarks
  refine ⟨honce 26 ordersChunk (arrives_ingest.2 ?_) ⟨Dict.ofEntries [("id", .int 1)], none, some (.str "1")⟩ ?_, ?_⟩
  · rw [ingests_twoChunks]; exact List.mem_cons_self
  · exact List.mem_singleton.2 rfl
  · have hjob : ∃ r ∈ (wAt .plain twoChunks twoChunks.length).calls, r.call = .loadJob (ordersJob [1, 2]) ∧
        r.threads 1 ∧ r.threads 2 :=
      ⟨_, List.mem_singleton.2 rfl, rfl, ⟨_, Or.inl ⟨_, List.mem_of_getElem? (i := 1) rfl, rfl, rfl⟩⟩,
        ⟨_, Or.inl ⟨_, List.mem_of_getElem? (i := 2) rfl, rfl, rfl⟩⟩⟩
    obtain ⟨r, hr, hcall, h₁, h₂⟩ := hjob
    have hturn := ((committed_once .plain).2 twoChunks).1 r hr _ hcall
    have hd₁ : Delivers .plain (sysTrace .plain twoChunks) 1 ordersChunk := ⟨_, rfl, rfl⟩
    have hd₂ : Delivers .plain (sysTrace .plain twoChunks) 2 secondChunk := ⟨_, rfl, rfl⟩
    intro i i' hw hw'
    exact horder _ hturn i i' 1 2 _ _ h₁ h₂ hd₁ hd₂ ⟨rfl, rfl, rfl, 0, 1, rfl, rfl, by decide⟩ hw hw'

end Matterbeam
