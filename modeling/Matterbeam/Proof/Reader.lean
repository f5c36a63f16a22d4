import Matterbeam.Proof.Chunks

/-!
# A reader that polls

A reader polls a recordtype: it scans from its cursor, which then moves to the last id it
read.

* `Segment.Fits.lt`: within the widths of their fields, ids compare as their milliseconds do,
  as numbers and as strings.
* `InOrder.scan`: a scan from where the reader is reads the segments that are new.
* `tail_eq`: over stores that only grow and stay in order, polling reads what there is.
-/

namespace Matterbeam

/-! ## Ids -/

/-- An id whose fields fit their widths. -/
theorem packRecordId_eq {seq writerId noise : ℕ} (ms : ℕ) (hseq : seq < 10 ^ 10) (hw : writerId < 10 ^ 5)
    (hn : noise < 10 ^ 10) :
    packRecordId ms seq writerId noise = ms * 10 ^ 25 + (seq * 10 ^ 15 + writerId * 10 ^ 10 + noise) := by
  unfold packRecordId
  rw [Decimal.join_of_lt (by decide) hn, Decimal.join_of_lt (by decide) hw, Decimal.join_of_lt (by decide) hseq]
  ring

/-- The millisecond that the ids of a segment begin with. -/
def Segment.ms (s : Segment) : ℕ := s.firstId / 10 ^ 25

/-- A segment as `write_segment` makes it, when the fields of its ids fit their widths. -/
structure Segment.Fits (s : Segment) : Prop where
  nonempty : s.records ≠ []
  size : s.records.length < 10 ^ 10
  ids : ∃ writerId noise, writerId < 10 ^ 5 ∧ noise < 10 ^ 10 ∧
    s.ids = (List.range s.records.length).map fun seq => packRecordId s.ms seq writerId noise
  clock : 10 ^ 12 ≤ s.ms ∧ s.ms < 10 ^ 13

namespace Segment.Fits

variable {a b s : Segment}

/-- The last id is that of the last record. -/
theorem lastId_eq (h : s.Fits) : ∃ seq writerId noise, seq < 10 ^ 10 ∧ writerId < 10 ^ 5 ∧ noise < 10 ^ 10 ∧
    s.lastId = packRecordId s.ms seq writerId noise := by
  obtain ⟨writerId, noise, hw, hn, hids⟩ := h.ids
  obtain ⟨n, hlen⟩ : ∃ n, s.records.length = n + 1 :=
    Nat.exists_eq_succ_of_ne_zero fun h0 => h.nonempty (List.length_eq_zero_iff.1 h0)
  have hsize := h.size
  refine ⟨n, writerId, noise, by omega, hw, hn, ?_⟩
  unfold Segment.lastId
  rw [hids, hlen, List.range_succ, List.map_append]
  simp

/-- The last id as a number. -/
theorem lastId_bounds (h : s.Fits) : s.ms * 10 ^ 25 ≤ s.lastId ∧ s.lastId < (s.ms + 1) * 10 ^ 25 := by
  obtain ⟨seq, writerId, noise, hseq, hw, hn, he⟩ := h.lastId_eq
  rw [he, packRecordId_eq _ hseq hw hn]
  omega

theorem lastId_pos (h : s.Fits) : 0 < s.lastId := by
  have hb := h.lastId_bounds
  have hc := h.clock
  omega

theorem beginsAt (h : s.Fits) : s.BeginsAt s.ms := by
  obtain ⟨seq, writerId, noise, -, -, -, he⟩ := h.lastId_eq
  have hc := h.clock
  unfold Segment.BeginsAt
  rw [he]
  exact repr_packRecordId (by omega) _ _ _

/-- **Ids compare as their milliseconds do**, as numbers. -/
theorem lt (ha : a.Fits) (hb : b.Fits) (h : a.ms < b.ms) : a.lastId < b.lastId := by
  have ha := ha.lastId_bounds
  have hb := hb.lastId_bounds
  omega

/-- And as strings. -/
theorem below (ha : a.Fits) (hb : b.Fits) (h : a.ms < b.ms) : a.Below b := by
  have hca := ha.clock
  have hcb := hb.clock
  refine ⟨a.ms, b.ms, ha.beginsAt, hb.beginsAt, h, ?_⟩
  rw [Decimal.length_repr_eq hca.1 hca.2, Decimal.length_repr_eq hcb.1 hcb.2]

theorem length_ids (h : s.Fits) : s.ids.length = s.records.length := by
  obtain ⟨writerId, noise, -, -, he⟩ := h.ids
  rw [he, List.length_map, List.length_range]

end Segment.Fits

/-- What `write_segment` writes fits, and begins with its millisecond. -/
theorem writeSegment_fits {records : List Row} {ms writerId noise : ℕ} (recordtypeId : String) (rq : IngestRequest)
    (hne : records ≠ []) (hsize : records.length < 10 ^ 10) (hclock : 10 ^ 12 ≤ ms ∧ ms < 10 ^ 13)
    (hw : writerId < 10 ^ 5) (hn : noise < 10 ^ 10) :
    (writeSegment recordtypeId records ms writerId noise rq).Fits ∧
      (writeSegment recordtypeId records ms writerId noise rq).ms = ms := by
  have hms : (writeSegment recordtypeId records ms writerId noise rq).ms = ms := by
    obtain ⟨n, hlen⟩ : ∃ n, records.length = n + 1 :=
      Nat.exists_eq_succ_of_ne_zero fun h0 => hne (List.length_eq_zero_iff.1 h0)
    have hfirst : (writeSegment recordtypeId records ms writerId noise rq).firstId = packRecordId ms 0 writerId noise := by
      unfold Segment.firstId writeSegment
      rw [hlen, List.range_succ_eq_map]
      simp
    unfold Segment.ms
    rw [hfirst, packRecordId_eq _ (by decide) hw hn]
    omega
  exact ⟨⟨hne, hsize, ⟨writerId, noise, hw, hn, by rw [hms]; rfl⟩, by rw [hms]; exact hclock⟩, hms⟩

/-- The segment of a batch. -/
theorem Batch.segment_fits (b : Batch) {rq : IngestRequest} {ms noise : ℕ} (hb : b.kept ≠ [])
    (hsize : b.kept.length < 10 ^ 10) (hclock : 10 ^ 12 ≤ ms ∧ ms < 10 ^ 13) (hw : b.writerId < 10 ^ 5)
    (hn : noise < 10 ^ 10) : (writeSegment rq.recordtypeId (b.records rq) ms b.writerId noise rq).Fits ∧
      (writeSegment rq.recordtypeId (b.records rq) ms b.writerId noise rq).ms = ms := by
  refine writeSegment_fits _ _ (fun he => hb (List.map_eq_nil_iff.1 he)) ?_ hclock hw hn
  unfold Batch.records
  rwa [List.length_map]

/-! ## The reader -/

/-- The segments are in the order of their milliseconds, and their ids fit. -/
structure InOrder (l : List Segment) : Prop where
  fits : ∀ s ∈ l, s.Fits
  order : l.Pairwise fun a b => a.ms < b.ms

theorem InOrder.sublist {l l' : List Segment} (h : InOrder l) (hs : l'.Sublist l) : InOrder l' :=
  ⟨fun s hm => h.fits s (hs.subset hm), h.order.sublist hs⟩

theorem InOrder.below {l : List Segment} (h : InOrder l) : l.Pairwise Segment.Below :=
  h.order.imp_of_mem fun ha hb => (h.fits _ ha).below (h.fits _ hb)

/-- A reader that tails a recordtype: its cursor, and the facts it has read. -/
structure Reader where
  cursor : String := "0"
  facts : List Fact := []

/-- A poll: scan from the cursor, and move it to the last id that was read. -/
def Reader.poll (recordtypeId : String) (r : Reader) (segments : List Segment) : Reader where
  cursor := match (scan segments recordtypeId r.cursor).1.getLast? with
    | some fact => fact.1.repr
    | none => r.cursor
  facts := r.facts ++ (scan segments recordtypeId r.cursor).1

/-- The reader after polling the stores, one after another. -/
def tail (recordtypeId : String) (stores : List (List Segment)) : Reader :=
  stores.foldl (Reader.poll recordtypeId) {}

/-- Where a reader of these segments is. -/
def cursorAfter (l : List Segment) : String :=
  match l.getLast? with
  | some s => s.lastId.repr
  | none => "0"

/-- A scan reads what lies past the cursor, and drops the names before it. -/
theorem scanLoop_tail {l₁ l₂ : List Segment} {cursor : String} (h₁ : ∀ s ∈ l₁, s.lastId.repr ≤ cursor)
    (h : l₂.Pairwise fun a b => a.lastId.repr < b.lastId.repr) (h₂ : ∀ s ∈ l₂, cursor < s.lastId.repr) :
    scanLoop (l₁ ++ l₂) cursor = (l₂.flatMap Segment.facts, l₁.map Segment.name) := by
  induction l₁ with
  | nil => exact scanLoop_sorted h h₂
  | cons s l₁ ih =>
    obtain ⟨hs, hrest⟩ := List.forall_mem_cons.1 h₁
    rw [List.cons_append, scanLoop, if_pos hs, ih hrest]
    rfl

/-- **A scan from where the reader is** reads the segments that are new. -/
theorem InOrder.scan {segments l₁ l₂ : List Segment} {recordtypeId : String} (h : InOrder (l₁ ++ l₂))
    (hsegs : segmentsOf segments recordtypeId = l₁ ++ l₂) :
    scan segments recordtypeId (cursorAfter l₁) = (l₂.flatMap Segment.facts, l₁.map Segment.name) := by
  have hbelow := h.below
  have hname : (l₁ ++ l₂).Pairwise fun a b => a.name ≤ b.name :=
    hbelow.imp fun hab => String.not_lt.1 (String.lt_asymm hab.lt.2)
  obtain ⟨hb₁, hb₂, hb₁₂⟩ := List.pairwise_append.1 hbelow
  have hpos : ∀ s ∈ l₁ ++ l₂, "0" < s.lastId.repr := fun s hs => Decimal.zero_lt_repr (h.fits s hs).lastId_pos
  unfold Matterbeam.scan
  rw [hsegs, List.Pairwise.insertionSort_eq hname]
  rcases List.eq_nil_or_concat l₁ with rfl | ⟨l, s, rfl⟩
  · exact scanLoop_sorted (hb₂.imp fun hab => hab.lt.1) hpos
  · have hc : cursorAfter (l.concat s) = s.lastId.repr := by
      unfold cursorAfter
      rw [List.concat_eq_append, List.getLast?_concat]
    rw [List.concat_eq_append] at *
    rw [hc]
    refine scanLoop_tail (fun x hx => ?_) (hb₂.imp fun hab => hab.lt.1) fun x hx => (hb₁₂ s (by simp) x hx).lt.1
    rcases List.mem_append.1 hx with hx | hx
    · exact String.not_lt.1 (String.lt_asymm ((List.pairwise_append.1 hb₁).2.2 x hx s (by simp)).lt.1)
    · obtain rfl := List.mem_singleton.1 hx
      exact String.le_refl _

/-- The last fact of a segment carries its last id. -/
theorem Segment.Fits.getLast?_facts {s : Segment} (h : s.Fits) : ∃ row, s.facts.getLast? = some (s.lastId, row) := by
  have hlen := h.length_ids
  obtain ⟨ids, i, hids⟩ : ∃ ids i, s.ids = ids ++ [i] := by
    rcases List.eq_nil_or_concat s.ids with he | ⟨l, i, he⟩
    · rw [he] at hlen
      exact absurd (List.length_eq_zero_iff.1 hlen.symm) h.nonempty
    · exact ⟨l, i, by rw [he, List.concat_eq_append]⟩
  obtain ⟨rows, row, hrows⟩ : ∃ rows row, s.records = rows ++ [row] := by
    rcases List.eq_nil_or_concat s.records with he | ⟨l, i, he⟩
    · exact absurd he h.nonempty
    · exact ⟨l, i, by rw [he, List.concat_eq_append]⟩
  refine ⟨row, ?_⟩
  rw [hids, hrows, List.length_append, List.length_append] at hlen
  unfold Segment.facts Segment.lastId
  rw [hids, hrows, List.zip_append (Nat.add_right_cancel hlen)]
  simp

/-- What a reader has read, and where it is. -/
def Reader.Read (r : Reader) (l : List Segment) : Prop :=
  r.cursor = cursorAfter l ∧ r.facts = l.flatMap Segment.facts

/-- **A poll reads on.** -/
theorem Reader.Read.poll {r : Reader} {segments l : List Segment} {recordtypeId : String} (hr : r.Read l)
    (hl : l <+: segmentsOf segments recordtypeId) (h : InOrder (segmentsOf segments recordtypeId)) :
    (r.poll recordtypeId segments).Read (segmentsOf segments recordtypeId) := by
  obtain ⟨hcursor, hfacts⟩ := hr
  obtain ⟨m, hm⟩ := hl
  rw [← hm] at h
  have hscan := h.scan hm.symm
  unfold Reader.poll Reader.Read
  rw [hcursor, hscan, hfacts, ← hm, List.flatMap_append]
  refine ⟨?_, rfl⟩
  rcases List.eq_nil_or_concat m with rfl | ⟨m, s, rfl⟩
  · rw [List.append_nil]
    rfl
  · -- the last fact that was read is the last of the last segment
    rw [List.concat_eq_append] at *
    obtain ⟨row, hrow⟩ := (h.fits s (by simp)).getLast?_facts
    have hlast : ((m ++ [s]).flatMap Segment.facts).getLast? = some (s.lastId, row) := by
      rw [List.flatMap_append, List.getLast?_append, List.flatMap_singleton, hrow]
      rfl
    unfold cursorAfter
    rw [hlast, ← List.append_assoc, List.getLast?_concat]

/-- **Polling a store that only grows and stays in order reads all there is.** -/
theorem tail_eq {recordtypeId : String} {stores : List (List Segment)} {segments : List Segment}
    (hgrow : (stores ++ [segments]).Pairwise fun a b => segmentsOf a recordtypeId <+: segmentsOf b recordtypeId)
    (h : ∀ s ∈ stores ++ [segments], InOrder (segmentsOf s recordtypeId)) :
    (tail recordtypeId (stores ++ [segments])).Read (segmentsOf segments recordtypeId) := by
  induction stores using List.reverseRecOn generalizing segments with
  | nil =>
    have hr : ({} : Reader).Read [] := ⟨rfl, rfl⟩
    exact hr.poll List.nil_prefix (h segments (by simp))
  | append_singleton stores store ih =>
    obtain ⟨hold, -, hlast⟩ := List.pairwise_append.1 hgrow
    have hr := ih hold fun s hs => h s (List.mem_append_left _ hs)
    unfold tail
    rw [List.foldl_append]
    exact hr.poll (hlast store (by simp) segments (by simp)) (h segments (by simp))

end Matterbeam
