import Mathlib.Data.List.Flatten
import Matterbeam.Proof.Reader
import Matterbeam.Proof.Conflict

/-!
# What the inversions counter tells

The server counts a segment as an inversion when its last id sorts below that of one that is
already visible: a reader whose cursor has moved on will never list it. Two segments with one
last id are not counted, but hide each other too.

* `taken`: which segments a scan reads, whatever the order of the store.
* `visible_inv`: the counter is zero exactly while the last ids go up in commit order.
* `inversions_iff`: **readers miss nothing if and only if the counter is zero** and no two
  segments share a last id.
-/

namespace Matterbeam

open Function

/-! ## Which segments a scan reads -/

theorem string_lt_of_le_of_lt {a b c : String} (hab : a ≤ b) (hbc : b < c) : a < c := by
  by_contra h
  exact String.not_le.2 hbc (String.le_trans (String.not_lt.1 h) hab)

theorem string_lt_of_le_of_ne {a b : String} (hab : a ≤ b) (hne : a ≠ b) : a < b := by
  by_contra h
  exact hne (String.le_antisymm hab (String.not_lt.1 h))

/-- The segments that the loop of `scan` reads. -/
def taken : List Segment → String → List Segment
  | [], _ => []
  | s :: rest, cursor => if s.lastId.repr ≤ cursor then taken rest cursor else s :: taken rest s.lastId.repr

/-- Where a reader is that was at a cursor and has read these segments. -/
def lastRead (cursor : String) : List Segment → String
  | [] => cursor
  | s :: rest => lastRead s.lastId.repr rest

theorem scanLoop_fst (l : List Segment) (cursor : String) :
    (scanLoop l cursor).1 = (taken l cursor).flatMap Segment.facts := by
  induction l generalizing cursor with
  | nil => rfl
  | cons s l ih =>
    unfold scanLoop taken
    split
    · exact ih cursor
    · dsimp only
      rw [ih, List.flatMap_cons]
      rfl

theorem taken_sublist (l : List Segment) (cursor : String) : (taken l cursor).Sublist l := by
  induction l generalizing cursor with
  | nil => exact List.Sublist.slnil
  | cons s l ih =>
    unfold taken
    split
    · exact (ih cursor).cons s
    · exact (ih _).cons_cons s

/-- The ids that are read go up, from the cursor on. -/
theorem taken_ascending (l : List Segment) (cursor : String) :
    (taken l cursor).Pairwise (fun a b => a.lastId.repr < b.lastId.repr) ∧
      ∀ s ∈ taken l cursor, cursor < s.lastId.repr := by
  induction l generalizing cursor with
  | nil => exact ⟨List.Pairwise.nil, by simp [taken]⟩
  | cons s l ih =>
    unfold taken
    split
    · exact ih cursor
    · rename_i hs
      obtain ⟨hasc, habove⟩ := ih s.lastId.repr
      refine ⟨List.pairwise_cons.2 ⟨habove, hasc⟩, fun x hx => ?_⟩
      rcases List.mem_cons.1 hx with rfl | hx
      · exact String.not_le.1 hs
      · exact String.lt_trans (String.not_le.1 hs) (habove x hx)

/-- After a scan the cursor is past all that there was. -/
theorem le_lastRead_taken (l : List Segment) (cursor : String) :
    cursor ≤ lastRead cursor (taken l cursor) ∧ ∀ s ∈ l, s.lastId.repr ≤ lastRead cursor (taken l cursor) := by
  induction l generalizing cursor with
  | nil => exact ⟨String.le_refl _, by simp⟩
  | cons s l ih =>
    unfold taken
    split
    · rename_i hs
      obtain ⟨hc, hl⟩ := ih cursor
      refine ⟨hc, fun x hx => ?_⟩
      rcases List.mem_cons.1 hx with rfl | hx
      · exact String.le_trans hs hc
      · exact hl x hx
    · rename_i hs
      obtain ⟨hc, hl⟩ := ih s.lastId.repr
      refine ⟨String.le_trans (String.not_lt.1 (String.lt_asymm (String.not_le.1 hs))) hc, fun x hx => ?_⟩
      rcases List.mem_cons.1 hx with rfl | hx
      · exact hc
      · exact hl x hx

theorem lastRead_append (cursor : String) (l : List Segment) (s : Segment) : lastRead cursor (l ++ [s]) = s.lastId.repr := by
  induction l generalizing cursor with
  | nil => rfl
  | cons x l ih => exact ih _

/-- What is read, once it has been read in order, is at or below the end. -/
theorem le_lastRead {cursor : String} {l : List Segment} (h : l.Pairwise fun a b => a.lastId.repr < b.lastId.repr) :
    ∀ s ∈ l, s.lastId.repr ≤ lastRead cursor l := by
  rcases List.eq_nil_or_concat l with rfl | ⟨m, x, rfl⟩
  · simp
  · rw [List.concat_eq_append] at *
    rw [lastRead_append]
    intro s hs
    rcases List.mem_append.1 hs with hs | hs
    · exact String.not_lt.1 (String.lt_asymm ((List.pairwise_append.1 h).2.2 s hs x (by simp)))
    · rcases List.mem_singleton.1 hs with rfl
      exact String.le_refl _

/-- In the order of the cursor, all is read that lies past it. -/
theorem taken_of_ascending {l₁ l₂ : List Segment} {cursor : String} (h₁ : ∀ s ∈ l₁, s.lastId.repr ≤ cursor)
    (h : l₂.Pairwise fun a b => a.lastId.repr < b.lastId.repr) (h₂ : ∀ s ∈ l₂, cursor < s.lastId.repr) :
    taken (l₁ ++ l₂) cursor = l₂ := by
  induction l₁ with
  | nil =>
    rw [List.nil_append]
    induction l₂ generalizing cursor with
    | nil => rfl
    | cons s l₂ ih =>
      obtain ⟨hs, hrest⟩ := List.pairwise_cons.1 h
      unfold taken
      rw [if_neg (String.not_le.2 (h₂ s (by simp))), ih hrest hs (by simp)]
  | cons s l₁ ih =>
    obtain ⟨hs, hrest⟩ := List.forall_mem_cons.1 h₁
    rw [List.cons_append, taken, if_pos hs, ih hrest]

/-! ## Polls -/

/-- A segment as the server writes it: an id for each of its records, of which there are some. -/
structure Segment.Whole (s : Segment) : Prop where
  nonempty : s.records ≠ []
  ids : s.ids.length = s.records.length
  pos : 0 < s.lastId

namespace Segment.Whole

variable {s : Segment}

/-- The last fact of a segment carries its last id. -/
theorem getLast?_facts (h : s.Whole) : (s.facts.getLast?).map Prod.fst = some s.lastId := by
  have hids : s.ids ≠ [] := fun he => h.nonempty (List.length_eq_zero_iff.1 (by rw [← h.ids, he, List.length_nil]))
  rw [← List.getLast?_map, Segment.facts, List.map_fst_zip h.ids.le, Segment.lastId, List.getLast?_eq_some_getLast hids,
    List.getLastD_eq_getLast?, List.getLast?_eq_some_getLast hids]
  rfl

end Segment.Whole

/-- The segments of a recordtype as `scan` lists them. -/
def listed (segments : List Segment) (recordtypeId : String) : List Segment :=
  (segmentsOf segments recordtypeId).insertionSort fun a b => a.name ≤ b.name

theorem mem_listed {segments : List Segment} {recordtypeId : String} {s : Segment} :
    s ∈ listed segments recordtypeId ↔ s ∈ segmentsOf segments recordtypeId :=
  (List.perm_insertionSort _ _).mem_iff

/-- Where a reader is after reading whole segments. -/
theorem lastRead_eq {l : List Segment} (h : ∀ s ∈ l, s.Whole) (cursor : String) :
    (l.flatMap Segment.facts).getLast?.elim cursor (fun fact => fact.1.repr) = lastRead cursor l := by
  rcases List.eq_nil_or_concat l with rfl | ⟨m, s, rfl⟩
  · rfl
  · rw [List.concat_eq_append] at *
    obtain ⟨fact, hlast, hid⟩ := Option.map_eq_some_iff.1 (h s (by simp)).getLast?_facts
    rw [List.flatMap_append, List.getLast?_append, List.flatMap_singleton, hlast, lastRead_append, ← hid]
    rfl

/-- **What a poll reads.** -/
theorem Reader.poll_eq {segments : List Segment} {recordtypeId : String} (r : Reader)
    (h : ∀ s ∈ segmentsOf segments recordtypeId, s.Whole) : r.poll recordtypeId segments =
      ⟨lastRead r.cursor (taken (listed segments recordtypeId) r.cursor),
        r.facts ++ (taken (listed segments recordtypeId) r.cursor).flatMap Segment.facts⟩ := by
  have hscan : (scan segments recordtypeId r.cursor).1 =
      (taken (listed segments recordtypeId) r.cursor).flatMap Segment.facts := scanLoop_fst _ _
  unfold Reader.poll
  rw [hscan, ← lastRead_eq fun s hs => h s (mem_listed.1 ((taken_sublist _ _).subset hs))]
  cases ((taken (listed segments recordtypeId) r.cursor).flatMap Segment.facts).getLast? <;> rfl

/-! ## Stores in order -/

/-- The last ids go up in commit order. -/
def Ascending (l : List Segment) : Prop := l.Pairwise fun a b => a.lastId.repr < b.lastId.repr

/-- Names in order have last ids in order. -/
theorem Ascending.listed {segments : List Segment} {recordtypeId : String}
    (h : Ascending (segmentsOf segments recordtypeId)) :
    listed segments recordtypeId = segmentsOf segments recordtypeId := by
  refine List.Pairwise.insertionSort_eq (h.imp fun hab => ?_)
  unfold Segment.name
  exact String.not_lt.1 (String.lt_asymm (by simpa [String.append_assoc] using Decimal.repr_dot_lt hab _ _))

/-- A poll of a store in order reads on. -/
theorem Ascending.poll {r : Reader} {segments l : List Segment} {recordtypeId : String}
    (h : Ascending (segmentsOf segments recordtypeId)) (hwhole : ∀ s ∈ segmentsOf segments recordtypeId, s.Whole)
    (hl : l <+: segmentsOf segments recordtypeId) (hc : r.cursor = lastRead "0" l) (hf : r.facts = l.flatMap Segment.facts) :
    (r.poll recordtypeId segments).cursor = lastRead "0" (segmentsOf segments recordtypeId) ∧
      (r.poll recordtypeId segments).facts = (segmentsOf segments recordtypeId).flatMap Segment.facts := by
  rw [r.poll_eq hwhole, h.listed, hc, hf]
  obtain ⟨m, hm⟩ := hl
  rw [← hm] at h hwhole ⊢
  obtain ⟨hl, hmasc, hlm⟩ := List.pairwise_append.1 h
  have habove : ∀ s ∈ m, lastRead "0" l < s.lastId.repr := by
    intro s hs
    rcases List.eq_nil_or_concat l with rfl | ⟨k, x, rfl⟩
    · exact Decimal.zero_lt_repr (hwhole s (by simp [hs])).pos
    · rw [List.concat_eq_append] at *
      rw [lastRead_append]
      exact hlm x (by simp) s hs
  rw [taken_of_ascending (le_lastRead hl) hmasc habove, List.flatMap_append]
  refine ⟨?_, rfl⟩
  rcases List.eq_nil_or_concat m with rfl | ⟨k, x, rfl⟩
  · rw [List.append_nil]
    rfl
  · rw [List.concat_eq_append, lastRead_append, ← List.append_assoc, lastRead_append]

/-- **Polling a store that only grows, in order, reads all there is.** -/
theorem tail_ascending {recordtypeId : String} {stores : List (List Segment)} {segments : List Segment}
    (hgrow : (stores ++ [segments]).Pairwise fun a b => segmentsOf a recordtypeId <+: segmentsOf b recordtypeId)
    (hwhole : ∀ l ∈ stores ++ [segments], ∀ s ∈ segmentsOf l recordtypeId, s.Whole)
    (hasc : ∀ l ∈ stores ++ [segments], Ascending (segmentsOf l recordtypeId)) :
    (tail recordtypeId (stores ++ [segments])).cursor = lastRead "0" (segmentsOf segments recordtypeId) ∧
      (tail recordtypeId (stores ++ [segments])).facts = (segmentsOf segments recordtypeId).flatMap Segment.facts := by
  induction stores using List.reverseRecOn generalizing segments with
  | nil => exact (hasc segments (by simp)).poll (hwhole segments (by simp)) List.nil_prefix rfl rfl
  | append_singleton stores store ih =>
    obtain ⟨hold, -, hlast⟩ := List.pairwise_append.1 hgrow
    obtain ⟨hc, hf⟩ := ih hold (fun l hl => hwhole l (List.mem_append_left _ hl))
      fun l hl => hasc l (List.mem_append_left _ hl)
    unfold tail
    rw [List.foldl_append]
    exact (hasc segments (by simp)).poll (hwhole segments (by simp)) (hlast store (by simp) segments (by simp)) hc hf

/-! ## The counter -/

/-- What the server shows of its segments. -/
structure VisibleInv (srv : Server) : Prop where
  whole : ∀ s ∈ srv.segments, s.Whole
  visible : ∀ r, srv.visibility r = (segmentsOf srv.segments r).map fun s => s.lastId.repr
  counter : srv.counters.inversions = 0 ↔
    ∀ r, (segmentsOf srv.segments r).Pairwise fun a b => a.lastId.repr ≤ b.lastId.repr

/-- Last ids go up, if no inversion has been counted and no two segments share one. -/
theorem VisibleInv.ascending {srv : Server} (h : VisibleInv srv) (hzero : srv.counters.inversions = 0) {r : String}
    (hnodup : ((segmentsOf srv.segments r).map Segment.lastId).Nodup) : Ascending (segmentsOf srv.segments r) := by
  refine ((h.counter.1 hzero r).and (List.pairwise_map.1 hnodup)).imp fun ⟨hab, hne⟩ => ?_
  exact string_lt_of_le_of_ne hab fun he => hne (Decimal.repr_inj he)

/-- Nothing that is shown has changed. -/
structure SameShow (srv srv' : Server) : Prop where
  segments : srv'.segments = srv.segments
  visibility : srv'.visibility = srv.visibility
  inversions : srv'.counters.inversions = srv.counters.inversions

theorem VisibleInv.same {srv srv' : Server} (h : VisibleInv srv) (hs : SameShow srv srv') : VisibleInv srv' where
  whole := hs.segments ▸ h.whole
  visible r := by rw [hs.segments, hs.visibility]; exact h.visible r
  counter := by rw [hs.segments, hs.inversions]; exact h.counter

theorem segmentsOf_concat (l : List Segment) (seg : Segment) (r : String) :
    segmentsOf (l ++ [seg]) r = segmentsOf l r ++ if seg.recordtypeId = r then [seg] else [] := by
  unfold segmentsOf
  rw [List.filter_append]
  by_cases h : seg.recordtypeId = r <;> simp [h]

/-- **A commit is counted exactly if its last id is out of order.** -/
theorem VisibleInv.addSegment {srv : Server} (h : VisibleInv srv) {seg : Segment} (hseg : seg.Whole) :
    VisibleInv (srv.addSegment seg) := by
  have hany : ((srv.visibility seg.recordtypeId).any fun x => seg.lastId.repr < x) = false ↔
      ∀ s ∈ segmentsOf srv.segments seg.recordtypeId, s.lastId.repr ≤ seg.lastId.repr := by
    rw [h.visible, List.any_eq_false, List.forall_mem_map]
    simp only [decide_eq_true_eq, String.not_lt]
  refine ⟨fun s hs => ?_, fun r => ?_, ?_⟩
  · rcases List.mem_append.1 hs with hs | hs
    · exact h.whole s hs
    · rw [List.mem_singleton.1 hs]
      exact hseg
  · unfold Server.addSegment
    dsimp only
    rw [segmentsOf_concat]
    by_cases hr : seg.recordtypeId = r
    · subst hr
      rw [update_self, if_pos rfl, List.map_append, h.visible]
      rfl
    · rw [update_of_ne (Ne.symm hr), if_neg hr, List.append_nil, h.visible]
  · have hcount : (srv.addSegment seg).counters.inversions = srv.counters.inversions +
        if (srv.visibility seg.recordtypeId).any (fun x => seg.lastId.repr < x) then 1 else 0 := rfl
    have hsegs : (srv.addSegment seg).segments = srv.segments ++ [seg] := rfl
    rw [hcount, hsegs]
    constructor
    · intro h0 r
      obtain ⟨h1, h2⟩ := Nat.add_eq_zero_iff.1 h0
      have hold := h.counter.1 h1 r
      rw [segmentsOf_concat]
      by_cases hr : seg.recordtypeId = r
      · subst hr
        rw [if_pos rfl]
        have hlast := hany.1 (by
          by_contra hne
          rw [Bool.not_eq_false] at hne
          rw [hne, if_pos rfl] at h2
          cases h2)
        exact List.pairwise_append.2 ⟨hold, List.pairwise_singleton _ _, fun a ha b hb => List.mem_singleton.1 hb ▸ hlast a ha⟩
      · rw [if_neg hr, List.append_nil]
        exact hold
    · intro hall
      have hold := h.counter.2 fun r => by
        have hr := hall r
        rw [segmentsOf_concat] at hr
        exact (List.pairwise_append.1 hr).1
      have hlast := hany.2 fun s hs => by
        have hr := hall seg.recordtypeId
        rw [segmentsOf_concat, if_pos rfl] at hr
        exact (List.pairwise_append.1 hr).2.2 s hs seg (by simp)
      rw [hold, hlast]
      rfl

namespace SameShow

variable (srv : Server)

theorem claim (pid : String) : SameShow srv (srv.claim pid).1 := by
  unfold Server.claim
  split
  · exact ⟨rfl, rfl, rfl⟩
  · split_ifs <;> exact ⟨rfl, rfl, rfl⟩

theorem release (pid : String) (v : ℕ) : SameShow srv (srv.release pid v) := by
  rcases srv.release_cases pid v with ⟨item, -, -, he⟩ | ⟨-, he⟩ <;> rw [he] <;> exact ⟨rfl, rfl, rfl⟩

theorem pause (pid : String) : SameShow srv (srv.pause pid) := by
  unfold Server.pause
  split <;> exact ⟨rfl, rfl, rfl⟩

theorem prepare (pid r jobId : String) : SameShow srv ((srv.allocWriterId pid).trackJobArrival pid r jobId) := by
  have halloc : SameShow srv (srv.allocWriterId pid) := by
    unfold Server.allocWriterId
    split <;> exact ⟨rfl, rfl, rfl⟩
  have htrack : SameShow (srv.allocWriterId pid) ((srv.allocWriterId pid).trackJobArrival pid r jobId) := by
    unfold Server.trackJobArrival
    dsimp only
    split
    · exact ⟨rfl, rfl, rfl⟩
    · split <;> exact ⟨rfl, rfl, rfl⟩
  exact ⟨htrack.segments.trans halloc.segments, htrack.visibility.trans halloc.visibility,
    htrack.inversions.trans halloc.inversions⟩

end SameShow

/-- A step of an ingest shows nothing new, or is its commit. -/
theorem IngestPc.step_show (rq : IngestRequest) (crash : Option CrashPoint) (inp : Inputs) (srv : Server) (pc : IngestPc) :
    SameShow srv (pc.step rq crash inp srv).1 ∨ ∃ v b ms, pc = .commit v b ms ∧ b.kept ≠ [] ∧
      (pc.step rq crash inp srv).1 =
        srv.addSegment (writeSegment rq.recordtypeId (b.records rq) ms b.writerId inp.noise rq) := by
  unfold IngestPc.step
  cases pc with
  | check => left; dsimp only; split <;> exact ⟨rfl, rfl, rfl⟩
  | claim =>
    have hclaim := SameShow.claim srv rq.pid
    left
    dsimp only
    split <;> rename_i h <;> rw [h] at hclaim <;> exact hclaim
  | closed v => left; dsimp only; split <;> exact ⟨rfl, rfl, rfl⟩
  | prepare v => exact Or.inl (SameShow.prepare srv _ _ _)
  | filter v w => left; dsimp only; split <;> exact ⟨rfl, rfl, rfl⟩
  | «begin» v b => exact Or.inl ⟨rfl, rfl, rfl⟩
  | commit v b ms =>
    by_cases hb : b.kept = []
    · left
      simp only [hb, if_true]
      exact ⟨rfl, rfl, rfl⟩
    · exact Or.inr ⟨v, b, ms, rfl, hb, by simp only [hb, if_false]⟩
  | mark v b ms seg => left; dsimp only; split <;> exact ⟨rfl, rfl, rfl⟩
  | record v b ms seg => left; dsimp only; split <;> exact ⟨rfl, rfl, rfl⟩
  | reply v r => left; dsimp only; split <;> exact ⟨rfl, rfl, rfl⟩
  | release v out => exact Or.inl (SameShow.release srv _ _)
  | done out => exact Or.inl ⟨rfl, rfl, rfl⟩

theorem PutPc.step_show (pid : String) (doc : Row) (srv : Server) (pc : PutPc) : SameShow srv (pc.step pid doc srv).1 := by
  unfold PutPc.step
  cases pc with
  | claim =>
    have hclaim := SameShow.claim srv pid
    dsimp only
    split <;> rename_i h <;> rw [h] at hclaim <;> exact hclaim
  | check v => dsimp only; split <;> exact ⟨rfl, rfl, rfl⟩
  | write v => exact ⟨rfl, rfl, rfl⟩
  | release v out => exact SameShow.release srv _ _
  | done out => exact ⟨rfl, rfl, rfl⟩

theorem OnceStep.shows {P : Runtime} {inp : Inputs} {srv srv' : Server} {rq : Request} {a : Option Answer}
    (h : OnceStep P inp srv rq srv' a) : SameShow srv srv' := by
  cases h <;> exact ⟨rfl, rfl, rfl⟩

/-- A segment is stamped with a millisecond above a high-water mark. -/
def Thread.Begun : Thread → Prop
  | ingest _ _ (.commit _ _ ms) => 0 < ms
  | _ => True

theorem IngestStep.stamped {rq : IngestRequest} {crash : Option CrashPoint} {inp : Inputs} {srv srv' : Server}
    {pc pc' : IngestPc} (h : IngestStep rq crash inp srv pc srv' pc') : (Thread.ingest rq crash pc').Begun := by
  cases h with
  | begun => exact lt_of_lt_of_le (Nat.succ_pos _) (le_max_right _ _)
  | _ => trivial

/-- What `write_segment` writes is whole. -/
theorem writeSegment_whole (recordtypeId : String) {records : List Row} {ms : ℕ} (writerId noise : ℕ)
    (rq : IngestRequest) (hne : records ≠ []) (hms : 0 < ms) :
    (writeSegment recordtypeId records ms writerId noise rq).Whole := by
  refine ⟨hne, by simp [writeSegment], ?_⟩
  obtain ⟨n, hlen⟩ : ∃ n, records.length = n + 1 :=
    Nat.exists_eq_succ_of_ne_zero fun h0 => hne (List.length_eq_zero_iff.1 h0)
  have hlast : (writeSegment recordtypeId records ms writerId noise rq).lastId = packRecordId ms n writerId noise := by
    unfold Segment.lastId writeSegment
    rw [hlen, List.range_succ, List.map_append]
    simp
  rw [hlast]
  exact hms.trans_le (le_packRecordId _ _ _ _)

section

variable {P : Runtime} {es : List SysEvent}

/-- **The server knows its inversions**, in every state of every run. -/
theorem visible_inv (n : ℕ) : VisibleInv (sAt P es n).srv := by
  refine (thread_rule (P := P) (G := VisibleInv) (I := fun _ th => th.Begun) ?init ?pause ?start ?step n).1
  case init =>
    refine ⟨by simp, fun r => rfl, ?_⟩
    exact ⟨fun _ _ => List.Pairwise.nil, fun _ => rfl⟩
  case pause => exact fun srv pid h => ⟨h.same (SameShow.pause srv pid), fun _ hth => hth⟩
  case start =>
    intro srv rq crash _ _
    cases rq <;> trivial
  case step =>
    intro srv th inp _ h hbegun
    refine ⟨?_, ?_, fun _ _ _ hth => hth⟩
    · cases th with
      | ingest rq crash pc =>
        rcases pc.step_show rq crash inp srv with hs | ⟨v, b, ms, rfl, hb, he⟩
        · exact h.same hs
        · change VisibleInv (IngestPc.step rq crash inp srv _).1
          rw [he]
          exact h.addSegment (writeSegment_whole _ _ _ _ (fun hr => hb (List.map_eq_nil_iff.1 hr)) hbegun)
      | put pid doc pc => exact h.same (pc.step_show pid doc srv)
      | once rq answer => cases answer with
        | none => exact h.same (onceStep_spec P inp srv rq).shows
        | some a => exact h
    · cases th with
      | ingest rq crash pc => exact (pc.step_spec rq crash inp srv).stamped
      | put pid doc pc => trivial
      | once rq answer => cases answer <;> trivial

/-- What a moment shows is the beginning of what the end shows. -/
theorem segmentsOf_end (P : Runtime) (es : List SysEvent) (r : String) (n : ℕ) :
    segmentsOf (sAt P es n).srv.segments r <+: segmentsOf (sAt P es es.length).srv.segments r := by
  rcases Nat.le_total n es.length with h | h
  · exact (segments_grow h).filter _
  · have hend : sAt P es n = sAt P es es.length := sAt_of_length_le h
    exact hend ▸ List.prefix_rfl

theorem whole_segmentsOf (P : Runtime) (es : List SysEvent) (r : String) (n : ℕ) : ∀ s ∈ segmentsOf (sAt P es n).srv.segments r, s.Whole :=
  fun s hs => (visible_inv n).whole s (List.mem_of_mem_filter hs)

/-- An event commits one segment at most. -/
theorem length_segments_succ (P : Runtime) {n : ℕ} (hn : n + 1 ≤ es.length) (r : String) :
    (segmentsOf (sAt P es (n + 1)).srv.segments r).length ≤ (segmentsOf (sAt P es n).srv.segments r).length + 1 := by
  have hsame : ∀ s s' : Sys, s'.srv.segments = s.srv.segments →
      (segmentsOf s'.srv.segments r).length ≤ (segmentsOf s.srv.segments r).length + 1 := by
    intro s s' h
    rw [h]
    exact Nat.le_succ _
  rcases Sys.step_cases P (sAt P es n) es[n] with ⟨rq, crash, -, he⟩ | ⟨t, inp, th, -, -, he⟩ | ⟨pid, -, he⟩ | ⟨-, he⟩
  all_goals rw [sAt_succ hn, he]
  · exact hsame _ _ rfl
  · rcases Thread.step_commit P inp (sAt P es n).srv th with h | ⟨rq, crash, v, b, ms, noise, -, -, -, h⟩
    · exact hsame _ _ h
    · dsimp only
      rw [h, segmentsOf_concat, List.length_append]
      split <;> simp
  · exact hsame _ _ (SameShow.pause _ pid).segments
  · exact hsame _ _ rfl

/-- The facts of whole segments carry their records. -/
theorem map_snd_facts {l : List Segment} (h : ∀ s ∈ l, s.Whole) :
    (l.flatMap Segment.facts).map Prod.snd = l.flatMap Segment.records := by
  rw [List.map_flatMap]
  exact List.flatMap_congr fun s hs => List.map_snd_zip (h s hs).ids.ge

/-- Of whole segments, fewer have fewer records. -/
theorem perm_of_length_records {l₁ l₂ : List Segment} (h : l₁.Subperm l₂) (hwhole : ∀ s ∈ l₂, s.Whole)
    (hlen : (l₂.flatMap Segment.records).length ≤ (l₁.flatMap Segment.records).length) : l₁.Perm l₂ := by
  obtain ⟨l, hperm, hsub⟩ := h
  have hl : (l.flatMap Segment.records).length = (l₁.flatMap Segment.records).length :=
    (hperm.flatMap_right _).length_eq
  rw [← hl] at hlen
  suffices l = l₂ by rw [← this]; exact hperm.symm
  clear hl hperm
  induction hsub with
  | slnil => rfl
  | @cons l l₂ s hsub ih =>
    -- the records of `s` would be missing
    have hle := (hsub.flatMap Segment.records).length_le
    have hpos := List.length_pos_iff.2 (hwhole s (by simp)).nonempty
    rw [List.flatMap_cons, List.length_append] at hlen
    omega
  | cons_cons s hsub ih =>
    rw [List.flatMap_cons, List.flatMap_cons, List.length_append, List.length_append] at hlen
    rw [ih (fun x hx => hwhole x (List.mem_cons_of_mem _ hx)) (by omega)]

/-- What a reader that polls at these moments has read. -/
def polledAt (P : Runtime) (es : List SysEvent) (r : String) (moments : List ℕ) : Reader :=
  tail r (moments.map fun m => (sAt P es m).srv.segments)

/-- Readers of the run miss nothing: whenever they polled, they have all the records there are, in
commit order. -/
def NothingMissed (P : Runtime) (es : List SysEvent) : Prop :=
  ∀ r moments n, (moments ++ [n]).Pairwise (· ≤ ·) →
    (polledAt P es r (moments ++ [n])).facts.map Prod.snd = recordsIn (sAt P es n).srv.segments r

/-- A reader that has missed nothing has read whole segments, all of them. -/
theorem perm_of_nothingMissed {l : List Segment} {r : String} (hnodup : l.Nodup)
    (hsub : l ⊆ segmentsOf (sAt P es es.length).srv.segments r)
    (hall : (l.flatMap Segment.facts).map Prod.snd = recordsIn (sAt P es es.length).srv.segments r) :
    l.Perm (segmentsOf (sAt P es es.length).srv.segments r) := by
  have hwhole := whole_segmentsOf P es r es.length
  rw [map_snd_facts fun s hs => hwhole s (hsub hs)] at hall
  exact perm_of_length_records (List.subperm_of_subset hnodup hsub) hwhole (by rw [hall]; rfl)

theorem nodup_of_ascending {l : List Segment} (h : Ascending l) : (l.map Segment.lastId).Nodup :=
  List.pairwise_map.2 (h.imp fun {a b} hab (he : a.lastId = b.lastId) => String.lt_irrefl _ (he ▸ hab))

/-- One poll at the end shows whether last ids are shared. -/
theorem lastIds_nodup (h : NothingMissed P es) (r : String) :
    ((segmentsOf (sAt P es es.length).srv.segments r).map Segment.lastId).Nodup := by
  have hwhole := whole_segmentsOf P es r es.length
  have hall := h r [] es.length (by simp)
  have hpoll := Reader.poll_eq {} hwhole
  have hasc := (taken_ascending (listed (sAt P es es.length).srv.segments r) "0").1
  have hread : (polledAt P es r ([] ++ [es.length])).facts =
      (taken (listed (sAt P es es.length).srv.segments r) "0").flatMap Segment.facts := by
    change (Reader.poll r {} (sAt P es es.length).srv.segments).facts = _
    rw [hpoll]
    rfl
  rw [hread] at hall
  have hperm := perm_of_nothingMissed ((nodup_of_ascending hasc).of_map _)
    (fun s hs => mem_listed.1 ((taken_sublist _ _).subset hs)) hall
  exact ((hperm.map _).nodup_iff).1 (nodup_of_ascending hasc)

/-- A poll at a moment and one at the end show whether what is committed later is below. -/
theorem le_of_later (h : NothingMissed P es) {r : String} {n : ℕ} (hn : n ≤ es.length) {rest : List Segment}
    (hrest : segmentsOf (sAt P es es.length).srv.segments r = segmentsOf (sAt P es n).srv.segments r ++ rest) :
    ∀ s ∈ segmentsOf (sAt P es n).srv.segments r, ∀ x ∈ rest, s.lastId.repr ≤ x.lastId.repr := by
  intro s hs x hx
  have hall := h r [n] es.length (by simpa using hn)
  set before := listed (sAt P es n).srv.segments r with hb
  set after := listed (sAt P es es.length).srv.segments r with ha
  set cursor := lastRead "0" (taken before "0") with hc
  obtain ⟨hasc₁, -⟩ := taken_ascending before "0"
  obtain ⟨hasc₂, habove⟩ := taken_ascending after cursor
  have hread : (polledAt P es r ([n] ++ [es.length])).facts = (taken before "0" ++ taken after cursor).flatMap Segment.facts := by
    have h₁ := Reader.poll_eq {} (whole_segmentsOf P es r n)
    have h₂ := (Reader.poll r {} (sAt P es n).srv.segments).poll_eq (whole_segmentsOf P es r es.length)
    change (Reader.poll r (Reader.poll r {} (sAt P es n).srv.segments) (sAt P es es.length).srv.segments).facts = _
    rw [h₂, h₁, List.flatMap_append]
    rfl
  rw [hread] at hall
  -- both polls together read ids that go up, so no segment twice
  have hasc : Ascending (taken before "0" ++ taken after cursor) := List.pairwise_append.2
    ⟨hasc₁, hasc₂, fun a ha b hb => string_lt_of_le_of_lt (le_lastRead hasc₁ a ha) (habove b hb)⟩
  have hfirst : ∀ a ∈ taken before "0", a ∈ segmentsOf (sAt P es n).srv.segments r :=
    fun a ha => mem_listed.1 ((taken_sublist _ _).subset ha)
  have hperm := perm_of_nothingMissed ((nodup_of_ascending hasc).of_map _) (fun a ha => by
    rcases List.mem_append.1 ha with ha | ha
    · exact (segmentsOf_end P es r n).subset (hfirst a ha)
    · exact mem_listed.1 ((taken_sublist _ _).subset ha)) hall
  rcases List.mem_append.1 (hperm.mem_iff.2 (hrest ▸ List.mem_append_right _ hx)) with hx' | hx'
  · -- it would be there before and after
    have hnodup := (lastIds_nodup h r).of_map _
    rw [hrest] at hnodup
    exact absurd hx (List.disjoint_of_nodup_append hnodup (hfirst x hx'))
  · have hle := (le_lastRead_taken before "0").2 s (mem_listed.2 hs)
    exact String.not_lt.1 (String.lt_asymm (string_lt_of_le_of_lt hle (habove x hx')))

/-- **The inversions counter tells what readers miss.** Polling readers of a run read every record
once and in commit order, whenever they poll, if and only if the counter is zero at the end and
no two segments of a recordtype share their last id. -/
theorem inversions_iff (P : Runtime) (es : List SysEvent) :
    NothingMissed P es ↔ (sAt P es es.length).srv.counters.inversions = 0 ∧
      ∀ r, ((segmentsOf (sAt P es es.length).srv.segments r).map Segment.lastId).Nodup := by
  constructor
  · intro h
    refine ⟨(visible_inv es.length).counter.2 fun r => ?_, lastIds_nodup h⟩
    suffices hn : ∀ n ≤ es.length, (segmentsOf (sAt P es n).srv.segments r).Pairwise fun a b =>
        a.lastId.repr ≤ b.lastId.repr from hn _ le_rfl
    intro n
    induction n with
    | zero => exact fun _ => List.Pairwise.nil
    | succ n ih =>
      intro hn
      -- what is new at this event comes after all that was there
      obtain ⟨new, hnew⟩ : segmentsOf (sAt P es n).srv.segments r <+: segmentsOf (sAt P es (n + 1)).srv.segments r :=
        (segments_grow (Nat.le_succ n)).filter _
      obtain ⟨rest, hrest⟩ := segmentsOf_end P es r (n + 1)
      have hwhole : segmentsOf (sAt P es es.length).srv.segments r = segmentsOf (sAt P es n).srv.segments r ++ (new ++ rest) := by
        rw [← hrest, ← hnew, List.append_assoc]
      have hlater := le_of_later h (by omega) hwhole
      have hone : new.length ≤ 1 := by
        have hlen := length_segments_succ P hn r
        rw [← hnew, List.length_append] at hlen
        omega
      rw [← hnew]
      refine List.pairwise_append.2 ⟨ih (by omega), ?_, fun a ha b hb => hlater a ha b (List.mem_append_left _ hb)⟩
      match new, hone with
      | [], _ => exact List.Pairwise.nil
      | [x], _ => exact List.pairwise_singleton _ _
  · rintro ⟨hzero, hnodup⟩ r moments n hsorted
    have hend := (visible_inv (P := P) es.length).ascending hzero (hnodup r)
    have hasc : ∀ m, Ascending (segmentsOf (sAt P es m).srv.segments r) :=
      fun m => hend.sublist (segmentsOf_end P es r m).sublist
    have hgrow : ((moments.map fun m => (sAt P es m).srv.segments) ++ [(sAt P es n).srv.segments]).Pairwise
        fun a b => segmentsOf a r <+: segmentsOf b r := by
      have hmap : (moments.map fun m => (sAt P es m).srv.segments) ++ [(sAt P es n).srv.segments] =
          (moments ++ [n]).map fun m => (sAt P es m).srv.segments := by rw [List.map_append, List.map_singleton]
      rw [hmap]
      exact List.pairwise_map.2 (hsorted.imp fun hle => (segments_grow hle).filter _)
    have hmem : ∀ {p : List Segment → Prop}, (∀ m, p (sAt P es m).srv.segments) →
        ∀ l ∈ (moments.map fun m => (sAt P es m).srv.segments) ++ [(sAt P es n).srv.segments], p l := by
      intro p hp l hl
      rcases List.mem_append.1 hl with hl | hl
      · obtain ⟨m, -, rfl⟩ := List.mem_map.1 hl
        exact hp m
      · rw [List.mem_singleton.1 hl]
        exact hp n
    have htail := (tail_ascending hgrow (hmem fun m => whole_segmentsOf P es r m) (hmem hasc)).2
    unfold polledAt
    rw [List.map_append, List.map_singleton, htail, map_snd_facts (whole_segmentsOf P es r n)]
    rfl

end

end Matterbeam
