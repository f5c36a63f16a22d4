import Matterbeam.Proof.Deliver

/-!
# Chunks delivered one after another

The chunks of a load go through the server's record filter as they are delivered. What
they commit is a sifting of their lines by the ids seen (`Sift`), over the chunks that are
taken: those whose ids can be looked up and whose ledger key is not entered yet.

* `takenOf`: the chunks that are taken, by their ledger keys and ids alone.
* `deliverAll_records`: **what a sequence of chunks commits for a recordtype**.
* `deliverAll_shut`: nothing, if the pid or the load is not open.
-/

namespace Matterbeam

open Function

/-- Chunks are delivered one after another. -/
def Sys.deliverAll (P : Runtime) (s : Sys) (l : List (IngestRequest × Inputs)) : Sys :=
  l.foldl (fun s x => s.deliver P (.ingest x.1) x.2) s

/-- The records committed for a recordtype, in commit order. -/
def recordsIn (segments : List Segment) (recordtypeId : String) : List Row :=
  (segmentsOf segments recordtypeId).flatMap Segment.records

/-- The chunks that are taken, if the keys in `entered` are in the ledger: those whose ids can be
looked up, and whose ledger key is not entered. -/
def takenOf (entered : String → Bool) : List IngestRequest → List IngestRequest
  | [] => []
  | rq :: rqs =>
    if entered rq.lkey = false ∧ rq.lines.all Envelope.hashable = true then
      rq :: takenOf (update entered rq.lkey true) rqs
    else takenOf entered rqs

/-- The ledger has an entry under the key. -/
def Server.entered (srv : Server) (lkey : String) : Bool := (srv.ledger lkey).isSome

theorem takenOf_subset (entered : String → Bool) (rqs : List IngestRequest) : takenOf entered rqs ⊆ rqs := by
  induction rqs generalizing entered with
  | nil => exact List.Subset.refl _
  | cons rq rqs ih =>
    unfold takenOf
    split
    · exact List.cons_subset_cons _ (ih _)
    · exact List.subset_cons_of_subset _ (ih _)

/-- Only the keys of the chunks matter. -/
theorem takenOf_congr {entered entered' : String → Bool} {rqs : List IngestRequest}
    (h : ∀ rq ∈ rqs, entered rq.lkey = entered' rq.lkey) : takenOf entered rqs = takenOf entered' rqs := by
  induction rqs generalizing entered entered' with
  | nil => rfl
  | cons rq rqs ih =>
    obtain ⟨hrq, hrest⟩ := List.forall_mem_cons.1 h
    unfold takenOf
    rw [hrq, ih hrest]
    congr 2
    refine ih fun rq' h' => ?_
    by_cases hk : rq'.lkey = rq.lkey
    · rw [hk, update_self, update_self]
    · rw [update_of_ne hk, update_of_ne hk, hrest rq' h']

/-- Chunks with keys of their own are taken as if there were no others. -/
theorem takenOf_filter {tag : IngestRequest → Bool} {rqs : List IngestRequest}
    (h : ∀ rq ∈ rqs, ∀ rq' ∈ rqs, tag rq ≠ tag rq' → rq.lkey ≠ rq'.lkey) (entered : String → Bool) :
    takenOf entered (rqs.filter tag) = (takenOf entered rqs).filter tag := by
  induction rqs generalizing entered with
  | nil => rfl
  | cons rq rqs ih =>
    have ih := ih fun x hx y hy => h x (List.mem_cons_of_mem _ hx) y (List.mem_cons_of_mem _ hy)
    cases ht : tag rq with
    | true =>
      rw [List.filter_cons_of_pos ht, takenOf, takenOf]
      split
      · rw [List.filter_cons_of_pos ht, ih]
      · exact ih entered
    | false =>
      rw [List.filter_cons_of_neg (by simp [ht]), takenOf]
      split
      · -- the other chunk's key is entered, which no chunk with the tag has
        rw [List.filter_cons_of_neg (by simp [ht]), ← ih]
        refine takenOf_congr fun rq' h' => ?_
        obtain ⟨hm, ht'⟩ := List.mem_filter.1 h'
        rw [update_of_ne]
        exact h rq' (List.mem_cons_of_mem _ hm) rq List.mem_cons_self (by rw [ht, ht']; decide)
      · exact ih entered

/-! ## What is committed -/

section

variable {P : Runtime} {s : Sys} {pid loadId : String}

theorem deliverAll_cons (x : IngestRequest × Inputs) (l : List (IngestRequest × Inputs)) :
    s.deliverAll P (x :: l) = (s.deliver P (.ingest x.1) x.2).deliverAll P l := by
  unfold Sys.deliverAll
  rw [List.foldl_cons]

theorem deliver_srv (rq : IngestRequest) (inp : Inputs) :
    (s.deliver P (.ingest rq) inp).srv = (s.srv.ingest rq inp).1 := by
  rw [deliver_ingest]

/-- **Nothing is committed** while the pid or the load is not open. -/
theorem deliverAll_shut (ho : ¬ s.srv.Open pid loadId) {l : List (IngestRequest × Inputs)}
    (hl : ∀ x ∈ l, x.1.pid = pid ∧ x.1.loadId = loadId) :
    (s.deliverAll P l).srv.segments = s.srv.segments := by
  induction l generalizing s with
  | nil => rfl
  | cons x l ih =>
    obtain ⟨⟨hp, hload⟩, hrest⟩ := List.forall_mem_cons.1 hl
    have ht : ¬ s.srv.Takes x.1 := fun h => ho (by rw [← hp, ← hload]; exact h.open)
    obtain ⟨srv', out, he, hu⟩ := ingest_untaken ht x.2
    have hs : (s.deliver P (.ingest x.1) x.2).srv = srv' := by rw [deliver_srv, he]
    have ho' : ¬ (s.deliver P (.ingest x.1) x.2).srv.Open pid loadId := by
      rw [hs]
      exact fun h => ho ((hu.gate pid loadId).1 h)
    rw [deliverAll_cons, ih ho' hrest, hs, hu.facts.segments]

/-- The server's filter is a sift by the ids seen. -/
theorem Envelope.fresh_eq (seen : List Json.HashKey) : Envelope.fresh seen = Sift.fresh Envelope.key seen := by
  funext e
  unfold Envelope.fresh Sift.fresh
  cases e.key <;> rfl

/-- The segments of a recordtype after a chunk that is taken. -/
theorem Taken.segmentsOf_eq {srv srv' : Server} {rq : IngestRequest} {inp : Inputs} (h : Taken srv rq inp srv')
    (recordtypeId : String) : segmentsOf srv'.segments recordtypeId = segmentsOf srv.segments recordtypeId ++
      if rq.recordtypeId = recordtypeId then (srv.segmentOf rq inp).toList else [] := by
  unfold segmentsOf
  rw [h.segments, List.filter_append]
  congr 1
  unfold Server.segmentOf
  by_cases hk : (srv.batchOf rq inp).kept = []
  · simp [hk]
  · by_cases hr : rq.recordtypeId = recordtypeId <;> simp [hk, hr, writeSegment]

/-- The records of a chunk that is taken. -/
theorem Taken.records {srv srv' : Server} {rq : IngestRequest} {inp : Inputs} (h : Taken srv rq inp srv')
    (recordtypeId : String) : recordsIn srv'.segments recordtypeId = recordsIn srv.segments recordtypeId ++
      if rq.recordtypeId = recordtypeId then (srv.batchOf rq inp).records rq else [] := by
  unfold recordsIn
  rw [h.segmentsOf_eq, List.flatMap_append]
  congr 1
  split
  · unfold Server.segmentOf
    by_cases hk : (srv.batchOf rq inp).kept = []
    · simp [Batch.records, hk]
    · simp [hk, writeSegment]
  · rfl

/-- The ids seen after a chunk that is taken are those seen before and those of its lines. -/
theorem Taken.mem_seen {srv srv' : Server} {rq : IngestRequest} {inp : Inputs} (h : Taken srv rq inp srv')
    (k : Json.HashKey) : k ∈ srv'.dltIdsSeen (rq.pid, rq.loadId) ↔
      k ∈ Sift.keys Envelope.key rq.lines ++ srv.dltIdsSeen (rq.pid, rq.loadId) := by
  rw [h.seen, update_self, List.mem_append, List.mem_append, Sift.mem_keys]
  unfold Batch.ids Server.batchOf
  rw [List.mem_filterMap]
  constructor
  · rintro (⟨e, he, hk⟩ | hs)
    · exact Or.inl ⟨e, (List.mem_filter.1 he).1, hk⟩
    · exact Or.inr hs
  · rintro (⟨e, he, hk⟩ | hs)
    · by_cases hs : k ∈ srv.dltIdsSeen (rq.pid, rq.loadId)
      · exact Or.inr hs
      · refine Or.inl ⟨e, List.mem_filter.2 ⟨he, ?_⟩, hk⟩
        unfold Envelope.fresh
        rw [hk]
        exact decide_eq_true hs
    · exact Or.inr hs

theorem Taken.entered {srv srv' : Server} {rq : IngestRequest} {inp : Inputs} (h : Taken srv rq inp srv') :
    srv'.entered = update srv.entered rq.lkey true := by
  funext k
  unfold Server.entered
  rw [h.ledger]
  by_cases hk : k = rq.lkey
  · subst hk; simp
  · simp [hk]

/-- **What a sequence of chunks commits for a recordtype**: the lines of its chunks, of those that
are taken, with the ids that were not seen. `f` reads a record, and `g` the line it was made of. -/
theorem deliverAll_records {β : Type} {f : Row → β} {g : Envelope → β} {recordtypeId : String}
    (hfg : ∀ (e : Envelope) utc, f (e.stamp recordtypeId loadId utc) = g e) (ho : s.srv.Open pid loadId)
    {l : List (IngestRequest × Inputs)} (hl : ∀ x ∈ l, x.1.pid = pid ∧ x.1.loadId = loadId) :
    (recordsIn (s.deliverAll P l).srv.segments recordtypeId).map f =
      (recordsIn s.srv.segments recordtypeId).map f ++
        Sift.kept (fun rq : IngestRequest => rq.recordtypeId = recordtypeId) g
          (Sift.sift Envelope.key IngestRequest.lines (s.srv.dltIdsSeen (pid, loadId))
            (takenOf s.srv.entered (l.map Prod.fst))) := by
  induction l generalizing s with
  | nil => simp [Sys.deliverAll, takenOf, Sift.sift, Sift.kept]
  | cons x l ih =>
    obtain ⟨⟨rfl, rfl⟩, hrest⟩ := List.forall_mem_cons.1 hl
    rw [deliverAll_cons, List.map_cons, takenOf]
    by_cases ht : s.srv.entered x.1.lkey = false ∧ x.1.lines.all Envelope.hashable = true
    · have htakes : s.srv.Takes x.1 := ⟨by simpa [Server.entered] using ht.1, ht.2, ho⟩
      -- a chunk that is taken adds its fresh lines, if it is of the recordtype
      obtain ⟨srv', he, h⟩ := ingest_taken htakes x.2
      have hs : (s.deliver P (.ingest x.1) x.2).srv = srv' := by rw [deliver_srv, he]
      have ho' : (s.deliver P (.ingest x.1) x.2).srv.Open x.1.pid x.1.loadId := by
        rw [hs]
        exact (h.gate _ _).2 ho
      have hrec : (if x.1.recordtypeId = recordtypeId then (s.srv.batchOf x.1 x.2).records x.1 else []).map f =
          if decide (x.1.recordtypeId = recordtypeId) = true then
            (x.1.lines.filter (Sift.fresh Envelope.key (s.srv.dltIdsSeen (x.1.pid, x.1.loadId)))).map g else [] := by
        by_cases hr : x.1.recordtypeId = recordtypeId
        · rw [if_pos hr, if_pos (decide_eq_true hr), Batch.records, List.map_map]
          have hg : f ∘ Envelope.stamp x.1.recordtypeId x.1.loadId (s.srv.batchOf x.1 x.2).utc = g := by
            funext e
            rw [Function.comp_apply, hr]
            exact hfg e _
          rw [hg, ← Envelope.fresh_eq]
          rfl
        · rw [if_neg hr, if_neg (by simpa using hr)]
          rfl
      rw [if_pos ht, ih ho' hrest, hs, h.records, h.entered, Sift.sift_congr h.mem_seen, List.map_append, hrec,
        List.append_assoc, Sift.sift, Sift.kept_cons]
    · -- a chunk that is not taken adds nothing, and is not seen by the filter either
      have htakes : ¬ s.srv.Takes x.1 := fun h => ht ⟨by simp [Server.entered, h.new], h.hashable⟩
      obtain ⟨srv', out, he, hu⟩ := ingest_untaken htakes x.2
      have hs : (s.deliver P (.ingest x.1) x.2).srv = srv' := by rw [deliver_srv, he]
      have ho' : (s.deliver P (.ingest x.1) x.2).srv.Open x.1.pid x.1.loadId := by
        rw [hs]
        exact (hu.gate _ _).2 ho
      rw [if_neg ht, ih ho' hrest, hs, hu.facts.segments, hu.facts.seen]
      unfold Server.entered
      rw [hu.facts.ledger]

end

/-! ## The order of what is committed -/

/-- The segments are in the order of their ids, which begin with numbers of `d + 1` digits up to `high`. -/
structure Increasing (d high : ℕ) (segs : List Segment) : Prop where
  below : segs.Pairwise Segment.Below
  begins : ∀ seg ∈ segs, seg.ids.length = seg.records.length ∧ 0 < seg.lastId ∧
    ∃ m, seg.BeginsAt m ∧ 10 ^ d ≤ m ∧ m ≤ high

/-- A segment that begins above all the others. -/
theorem Increasing.snoc {d high ms : ℕ} {segs : List Segment} (h : Increasing d high segs) (hms : high < ms)
    (hge : 10 ^ d ≤ ms) (hlt : ms < 10 ^ (d + 1)) {seg : Segment} (hlen : seg.ids.length = seg.records.length)
    (hpos : 0 < seg.lastId) (hb : seg.BeginsAt ms) : Increasing d ms (segs ++ [seg]) := by
  constructor
  · refine List.pairwise_append.2 ⟨h.below, List.pairwise_singleton _ _, fun a ha b hb' => ?_⟩
    obtain rfl := List.mem_singleton.1 hb'
    obtain ⟨-, -, m, ham, hm, hle⟩ := h.begins a ha
    refine ⟨m, ms, ham, hb, by omega, ?_⟩
    rw [Decimal.length_repr_eq hm (by omega), Decimal.length_repr_eq hge hlt]
  · intro a ha
    rcases List.mem_append.1 ha with ha | ha
    · obtain ⟨hl, hp, m, ham, hm, hle⟩ := h.begins a ha
      exact ⟨hl, hp, m, ham, hm, by omega⟩
    · obtain rfl := List.mem_singleton.1 ha
      exact ⟨hlen, hpos, ms, hb, hge, le_rfl⟩

theorem Increasing.mono {d high high' : ℕ} {segs : List Segment} (h : Increasing d high segs) (hle : high ≤ high') :
    Increasing d high' segs :=
  ⟨h.below, fun seg hs => by
    obtain ⟨hl, hp, m, hb, hm, hm'⟩ := h.begins seg hs
    exact ⟨hl, hp, m, hb, hm, hm'.trans hle⟩⟩

section

variable {d : ℕ} {pid recordtypeId : String} {srv srv' : Server} {rq : IngestRequest} {inp : Inputs}

/-- A segment begins with its millisecond. -/
theorem writeSegment_begins (rq : IngestRequest) {records : List Row} {ms : ℕ} (hms : 0 < ms) (hne : records ≠ [])
    (rtId : String) (writerId noise : ℕ) :
    0 < (writeSegment rtId records ms writerId noise rq).lastId ∧
      (writeSegment rtId records ms writerId noise rq).BeginsAt ms := by
  obtain ⟨n, hn⟩ : ∃ n, records.length = n + 1 :=
    Nat.exists_eq_succ_of_ne_zero fun h => hne (List.length_eq_zero_iff.1 h)
  have hlast : (writeSegment rtId records ms writerId noise rq).lastId = packRecordId ms n writerId noise := by
    unfold Segment.lastId writeSegment
    rw [hn, List.range_succ, List.map_append]
    simp
  unfold Segment.BeginsAt
  rw [hlast]
  exact ⟨hms.trans_le (le_packRecordId _ _ _ _), repr_packRecordId hms _ _ _⟩

/-- **A chunk that is taken goes above all that is committed**, as long as the clock has `d + 1` digits. -/
theorem Taken.increasing (h : Taken srv rq inp srv') (hp : rq.pid = pid)
    (hinc : Increasing d (srv.highWater pid recordtypeId) (segmentsOf srv.segments recordtypeId))
    (hnow : 10 ^ d ≤ inp.now) (hlt : inp.now < 10 ^ (d + 1))
    (hhigh : srv.highWater pid recordtypeId + 1 < 10 ^ (d + 1)) :
    Increasing d (srv'.highWater pid recordtypeId) (segmentsOf srv'.segments recordtypeId) := by
  rw [h.segmentsOf_eq, h.highWater]
  by_cases hr : rq.recordtypeId = recordtypeId
  · subst hr hp
    rw [if_pos rfl, if_pos ⟨rfl, rfl⟩]
    have hms := Server.beginMs_eq srv rq.pid rq.recordtypeId inp.now
    unfold Server.segmentOf
    by_cases hk : (srv.batchOf rq inp).kept = []
    · rw [if_pos hk, Option.toList_none, List.append_nil]
      exact hinc.mono (by omega)
    · rw [if_neg hk, Option.toList_some]
      have hrec : (srv.batchOf rq inp).records rq ≠ [] := fun h => hk (List.map_eq_nil_iff.1 h)
      obtain ⟨hpos, hb⟩ := writeSegment_begins rq (by omega : 0 < srv.beginMs rq.pid rq.recordtypeId inp.now)
        hrec rq.recordtypeId (srv.nextWriterId rq.pid) inp.noise
      exact hinc.snoc (by omega) (by omega) (by omega) (by simp [writeSegment]) hpos hb
  · rw [if_neg hr, List.append_nil, if_neg fun hc => hr hc.2.symm]
    exact hinc

/-- **The segments of a sequence of chunks are in commit order**, as long as the clock and the clamp
stay within the numbers of `d + 1` digits. -/
theorem deliverAll_increasing {P : Runtime} {s : Sys} {l : List (IngestRequest × Inputs)}
    (hl : ∀ x ∈ l, x.1.pid = pid)
    (hinc : Increasing d (s.srv.highWater pid recordtypeId) (segmentsOf s.srv.segments recordtypeId))
    (hclock : ∀ x ∈ l, 10 ^ d ≤ x.2.now ∧ x.2.now + l.length ≤ 10 ^ (d + 1))
    (hhigh : s.srv.highWater pid recordtypeId + l.length < 10 ^ (d + 1)) :
    Increasing d ((s.deliverAll P l).srv.highWater pid recordtypeId)
      (segmentsOf (s.deliverAll P l).srv.segments recordtypeId) := by
  induction l generalizing s with
  | nil => exact hinc
  | cons x l ih =>
    obtain ⟨hx, hrest⟩ := List.forall_mem_cons.1 hl
    obtain ⟨⟨hge, hlt⟩, hclock⟩ := List.forall_mem_cons.1 hclock
    rw [List.length_cons] at hlt hhigh
    have hclock' : ∀ y ∈ l, 10 ^ d ≤ y.2.now ∧ y.2.now + l.length ≤ 10 ^ (d + 1) := fun y hy => by
      have := hclock y hy
      rw [List.length_cons] at this
      omega
    rw [deliverAll_cons]
    by_cases ht : s.srv.Takes x.1
    · obtain ⟨srv', he, h⟩ := ingest_taken ht x.2
      have hs : (s.deliver P (.ingest x.1) x.2).srv = srv' := by rw [deliver_srv, he]
      refine ih hrest ?_ hclock' ?_
      · rw [hs]
        -- the next chunk goes above it
        exact h.increasing hx hinc hge (by omega) (by omega)
      · rw [hs, h.highWater]
        split
        · rename_i hr
          rw [Server.beginMs_eq, ← hr.1, ← hr.2]
          omega
        · omega
    · obtain ⟨srv', out, he, h⟩ := ingest_untaken ht x.2
      have hs : (s.deliver P (.ingest x.1) x.2).srv = srv' := by rw [deliver_srv, he]
      refine ih hrest ?_ hclock' ?_
      · rw [hs, h.highWater, h.facts.segments]
        exact hinc
      · rw [hs, h.highWater]
        omega

/-- **The reader of an increasing store** reads the records in commit order. -/
theorem Increasing.scan {high : ℕ} {segments : List Segment} {recordtypeId : String}
    (h : Increasing d high (segmentsOf segments recordtypeId)) :
    (scan segments recordtypeId "0").1.map Prod.snd = recordsIn segments recordtypeId := by
  rw [scan_sorted (fun seg hs => (h.begins seg hs).2.1) h.below, List.map_flatMap]
  unfold recordsIn
  refine List.flatMap_congr fun seg hs => ?_
  exact List.map_snd_zip (h.begins seg hs).1.ge

end

end Matterbeam
