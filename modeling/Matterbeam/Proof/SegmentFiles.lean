import Matterbeam.Model.SegmentFiles
import Matterbeam.Proof.Framing
import Matterbeam.Proof.Inversions

/-!
# The store on disk

The list of segments in which the model keeps the store is what a reader makes of the files,
wherever the server was killed in the middle of a write.

* `pyInt_idBytes`: an id is read back.
* `readSegment_pieces`: a segment is read back.
* `scanFolder_after`: what a scan of a directory finds, after any calls of `write_segment`.
* `scan_files`: **a scan of the files is a scan of the store**, in every state of every run.
-/

namespace Matterbeam

open JsonText Function

/-! ## Ids -/

theorem toNat_digit {n : ℕ} (h : n < 10) : (UInt8.ofNat (48 + n)).toNat = 48 + n :=
  UInt8.toNat_ofNat_of_lt' (lt_of_lt_of_le (Nat.add_lt_add_left h 48) (by decide))

theorem idBytes_of_lt {n : ℕ} (h : n < 10) : idBytes n = [UInt8.ofNat (48 + n)] := by
  have hdigit : ∀ n < 10, (Nat.digitChar n).toNat = 48 + n := by decide
  unfold idBytes ofString
  rw [Nat.repr_of_lt h, String.toList_singleton, List.map_singleton, List.map_singleton, hdigit n h]

theorem idBytes_of_ge {n : ℕ} (h : 10 ≤ n) : idBytes n = idBytes (n / 10) ++ idBytes (n % 10) := by
  unfold idBytes ofString
  rw [Nat.repr_of_ge h, Nat.repr_of_lt (Nat.mod_lt n (by decide)), String.toList_append, List.map_append,
    List.map_append]

theorem scanDigits_digit {n : ℕ} (h : n < 10) (owed : Bool) (a : ℕ) (rest : Octets) :
    scanDigits owed a (idBytes n ++ rest) = scanDigits false (10 * a + n) rest := by
  rw [idBytes_of_lt h, List.singleton_append, scanDigits, toNat_digit h, if_pos (by omega)]
  congr 1
  omega

/-- **The digits of an id.** -/
theorem scanDigits_idBytes (n : ℕ) (rest : Octets) : scanDigits true 0 (idBytes n ++ rest) = scanDigits false n rest := by
  induction n using Nat.strong_induction_on generalizing rest with
  | _ n ih =>
    by_cases hn : n < 10
    · rw [scanDigits_digit hn, Nat.mul_zero, Nat.zero_add]
    · rw [idBytes_of_ge (by omega), List.append_assoc, ih _ (by omega), scanDigits_digit (Nat.mod_lt n (by decide))]
      congr 1
      omega

theorem mem_idBytes {n : ℕ} {b : UInt8} (h : b ∈ idBytes n) : 48 ≤ b.toNat ∧ b.toNat ≤ 57 := by
  induction n using Nat.strong_induction_on with
  | _ n ih =>
    by_cases hn : n < 10
    · rw [idBytes_of_lt hn, List.mem_singleton] at h
      rw [h, toNat_digit hn]
      omega
    · rw [idBytes_of_ge (by omega), List.mem_append] at h
      rcases h with h | h
      · exact ih _ (by omega) h
      · have hlt := Nat.mod_lt n (by decide : 10 > 0)
        rw [idBytes_of_lt hlt, List.mem_singleton] at h
        rw [h, toNat_digit hlt]
        omega

theorem isBlank_of_digit {b : UInt8} (h : 48 ≤ b.toNat) : isBlank b = false := by
  unfold isBlank
  refine decide_eq_false fun hm => ?_
  simp only [List.mem_cons, List.not_mem_nil, or_false] at hm
  rcases hm with rfl | rfl | rfl | rfl | rfl | rfl <;> exact absurd h (by decide)

/-- **An id is read back**: `int(str(rid).encode("ascii")) == rid`. -/
theorem pyInt_idBytes (n : ℕ) : pyInt (idBytes n) = some (n : ℤ) := by
  have hblank : ∀ b ∈ idBytes n, isBlank b = false := fun b hb => isBlank_of_digit (mem_idBytes hb).1
  have hdrop : (idBytes n).dropWhile isBlank = idBytes n := by
    rw [List.dropWhile_eq_self_iff]
    intro hlen
    simp [hblank _ (List.getElem_mem hlen)]
  have hrdrop : (idBytes n).rdropWhile isBlank = idBytes n := by
    rw [List.rdropWhile_eq_self_iff]
    intro hne
    simp [hblank _ (List.getLast_mem hne)]
  have hscan := scanDigits_idBytes n []
  rw [List.append_nil] at hscan
  unfold pyInt
  rw [hdrop, hrdrop]
  -- no digit is a sign
  split
  · rename_i ds he
    have hb := mem_idBytes (n := n) (b := 43) (by rw [he]; simp)
    exact absurd hb.1 (by decide)
  · rename_i ds he
    have hb := mem_idBytes (n := n) (b := 45) (by rw [he]; simp)
    exact absurd hb.1 (by decide)
  · rw [hscan]
    rfl

/-! ## Lines -/

section

variable (num : NumberText)

/-- The line of a fact. -/
def factLine (fact : Fact) : Octets := idBytes fact.1 ++ tab :: bytesOf (fact.2.toJson.toValue num)

/-- A fact as a reader has it. -/
def readFact (fact : Fact) : ℤ × Value := (fact.1, fact.2.toJson.toValue num)

theorem newline_notMem_factLine (fact : Fact) : newline ∉ factLine num fact := by
  unfold factLine
  rw [List.mem_append, List.mem_cons]
  rintro (h | h | h)
  · exact absurd (mem_idBytes h).1 (by decide)
  · exact absurd h (by decide)
  · exact absurd (bytesOf_printable _ _ h).1 (by decide)

theorem factLine_ne_nil (fact : Fact) : factLine num fact ≠ [] := by
  unfold factLine
  simp

/-- **A line is read back.** -/
theorem readLine_factLine {fact : Fact} (h : NestedDistinct fact.2) : readLine (factLine num fact) = some (readFact num fact) := by
  have htab : ∀ b ∈ idBytes fact.1, (b ≠ tab : Bool) = true := by
    intro b hb
    refine decide_eq_true ?_
    rintro rfl
    exact absurd (mem_idBytes hb).1 (by decide)
  have htake : (factLine num fact).takeWhile (· ≠ tab) = idBytes fact.1 := by
    unfold factLine
    rw [List.takeWhile_append_of_pos htab, List.takeWhile_cons_of_neg (by simp), List.append_nil]
  have hdrop : (factLine num fact).dropWhile (· ≠ tab) = tab :: bytesOf (fact.2.toJson.toValue num) := by
    unfold factLine
    rw [List.dropWhile_append_of_pos htab, List.dropWhile_cons_of_neg (by simp)]
  unfold readLine
  rw [htake, hdrop, pyInt_idBytes, List.drop_one, List.tail_cons,
    loadsBytes_bytesOf (toValue_wellFormed num _ h.toJson)]
  rfl

theorem flatten_pieces (s : Segment) : (s.pieces num).flatten = withNewlines (s.facts.map (factLine num)) := by
  unfold Segment.pieces withNewlines
  induction s.facts with
  | nil => rfl
  | cons fact facts ih =>
    rw [List.flatMap_cons, List.flatten_append, ih, List.map_cons, List.flatMap_cons]
    simp [factLine]

theorem splitOn_withNewlines {lines : List Octets} (h : ∀ line ∈ lines, newline ∉ line) :
    (withNewlines lines).splitOn newline = lines ++ [[]] := by
  induction lines with
  | nil => rfl
  | cons line lines ih =>
    obtain ⟨hline, hlines⟩ := List.forall_mem_cons.1 h
    rw [withNewlines, List.flatMap_cons, ← withNewlines, List.append_assoc, List.singleton_append,
      List.splitOn_append_cons_self_of_not_mem hline, ih hlines, List.cons_append]

/-- **A segment is read back.** -/
theorem readSegment_pieces {s : Segment} (h : ∀ fact ∈ s.facts, NestedDistinct fact.2) :
    readSegment (s.pieces num).flatten = some (s.facts.map (readFact num)) := by
  have hlines : ∀ line ∈ s.facts.map (factLine num), newline ∉ line ∧ line ≠ [] := by
    intro line hline
    obtain ⟨fact, -, rfl⟩ := List.mem_map.1 hline
    exact ⟨newline_notMem_factLine num fact, factLine_ne_nil num fact⟩
  have hfilter : (s.facts.map (factLine num) ++ [[]]).filter (· ≠ []) = s.facts.map (factLine num) := by
    rw [List.filter_append, List.filter_eq_self.2 fun line hline => decide_eq_true (hlines line hline).2]
    simp
  unfold readSegment
  rw [flatten_pieces, splitOn_withNewlines fun line hline => (hlines line hline).1, hfilter]
  clear hlines hfilter
  generalize s.facts = facts at h
  induction facts with
  | nil => rfl
  | cons fact facts ih =>
    obtain ⟨hfact, hfacts⟩ := List.forall_mem_cons.1 h
    rw [List.map_cons, List.mapM_cons, readLine_factLine num hfact, ih hfacts]
    rfl

end

/-! ## Names -/

theorem isTmp_name (s : Segment) : isTmp s.name = false := by
  unfold isTmp Segment.name
  refine decide_eq_false fun ⟨t, ht⟩ => ?_
  have hlast := congrArg List.getLast? ht
  rw [String.toList_append, List.getLast?_append, List.getLast?_append] at hlast
  simp at hlast

theorem isTmp_tmp (c : WriteCall) : isTmp c.tmp = true := by
  unfold isTmp WriteCall.tmp
  rw [String.toList_append]
  exact decide_eq_true (List.suffix_append _ _)

/-- The name of a segment begins with its last id. -/
theorem keyLastId_name (s : Segment) : keyLastId s.name = s.lastId.repr := by
  have hdigits : ∀ c ∈ s.lastId.repr.toList, (c ≠ '.' : Bool) = true := by
    intro c hc
    refine decide_eq_true ?_
    rintro rfl
    exact Decimal.notMem_repr (by decide) _ hc
  unfold keyLastId Segment.name
  rw [String.toList_append, String.toList_append, String.toList_append, List.append_assoc, List.append_assoc,
    List.takeWhile_append_of_pos hdigits, (by decide : ".".toList = ['.']), List.singleton_append,
    List.takeWhile_cons_of_neg (by decide), List.append_nil, String.ofList_toList]

/-! ## Scans -/

theorem scanNames_filter (d : Dict String Octets) (names : List String) (cursor : String) :
    scanNames d names cursor = scanNames d (names.filter fun n => !isTmp n) cursor := by
  induction names generalizing cursor with
  | nil => rfl
  | cons key rest ih =>
    by_cases h : isTmp key
    · rw [scanNames, if_pos h, List.filter_cons_of_neg (by simp [h]), ih]
    · rw [List.filter_cons_of_pos (by simp [h]), scanNames, scanNames, if_neg h, if_neg h, ih, ih]

/-- What a scan returns, as a reader has it. -/
def readScan (num : NumberText) (x : List Fact × List String) : List (ℤ × Value) × List String :=
  (x.1.map (readFact num), x.2)

/-- **The loop of a scan** over the files of segments. -/
theorem scanNames_names (num : NumberText) {d : Dict String Octets} {l : List Segment}
    (hd : ∀ s ∈ l, d.get? s.name = some (s.pieces num).flatten) (hj : ∀ s ∈ l, ∀ fact ∈ s.facts, NestedDistinct fact.2)
    (cursor : String) : scanNames d (l.map Segment.name) cursor = some (readScan num (scanLoop l cursor)) := by
  induction l generalizing cursor with
  | nil => rfl
  | cons s l ih =>
    obtain ⟨hs, hl⟩ := List.forall_mem_cons.1 hd
    obtain ⟨hjs, hjl⟩ := List.forall_mem_cons.1 hj
    have ih := ih hl hjl
    rw [List.map_cons, scanNames, isTmp_name, if_neg Bool.false_ne_true, keyLastId_name, scanLoop]
    split
    · rw [ih]
      rfl
    · rw [hs, Option.bind_some, readSegment_pieces num hjs, ih]
      simp only [Option.pure_def, Option.bind_eq_bind, Option.bind_some, readScan, List.map_append]
      rfl

/-- The calls in which a segment was written as a whole. -/
def written (calls : List WriteCall) : List Segment :=
  (calls.filter fun c => c.cut = none).map WriteCall.segment

theorem saved_event (c : WriteCall) : c.event.saved = if c.cut = none then some c.segment else none := by
  unfold WriteCall.event
  cases c.cut <;> rfl

theorem aside_event (c : WriteCall) : isTmp c.event.aside = true := by
  have htmp := isTmp_tmp c
  unfold WriteCall.event
  cases c.cut <;> exact htmp

theorem filterMap_saved (calls : List WriteCall) : (calls.map WriteCall.event).filterMap Folder.Event.saved = written calls := by
  induction calls with
  | nil => rfl
  | cons c calls ih =>
    unfold written at *
    by_cases h : c.cut = none
    · rw [List.map_cons, List.filterMap_cons_some (by rw [saved_event, if_pos h]), ih, List.filter_cons_of_pos (by simp [h]),
        List.map_cons]
    · rw [List.map_cons, List.filterMap_cons_none (by rw [saved_event, if_neg h]), ih, List.filter_cons_of_neg (by simp [h])]

/-- A directory is changed by the calls for its recordtype. -/
theorem after_eq (num : NumberText) (calls : List WriteCall) (r : String) : SegmentRoot.after num calls r =
    Folder.folder Segment.name (Segment.pieces num) ((calls.filter fun c => c.segment.recordtypeId = r).map WriteCall.event) := by
  induction calls using List.reverseRecOn with
  | nil => rfl
  | append_singleton calls c ih =>
    rw [SegmentRoot.after, List.foldl_append, List.foldl_cons, List.foldl_nil, ← SegmentRoot.after, SegmentRoot.write,
      List.filter_append]
    by_cases hr : c.segment.recordtypeId = r
    · subst hr
      rw [update_self, ih, List.filter_cons_of_pos (by simp), List.filter_nil, List.map_append, Folder.folder,
        Folder.folder, List.foldl_append]
      rfl
    · rw [update_of_ne (Ne.symm hr), ih, List.filter_cons_of_neg (by simp [hr]), List.filter_nil, List.append_nil]

theorem written_filter (calls : List WriteCall) (r : String) :
    written (calls.filter fun c => c.segment.recordtypeId = r) = segmentsOf (written calls) r := by
  unfold written segmentsOf
  rw [List.filter_map, List.filter_filter, List.filter_filter]
  congr 1
  refine List.filter_congr fun c _ => ?_
  simp [Bool.and_comm]

/-- **What a scan of a directory finds**, after any calls of `write_segment`, cut short or not, and
in whichever order the directory is listed: the latest segment of each name. -/
theorem scanFolder_after (num : NumberText) {calls : List WriteCall} {r : String} {listing : List String}
    (hlist : listing.Perm (SegmentRoot.after num calls r).keys)
    (hj : ∀ s ∈ segmentsOf (written calls) r, ∀ fact ∈ s.facts, NestedDistinct fact.2) (cursor : String) :
    scanFolder (SegmentRoot.after num calls r) listing cursor =
      some (readScan num (scan (Folder.latest Segment.name (segmentsOf (written calls) r)) r cursor)) := by
  rw [after_eq] at hlist ⊢
  set evs := (calls.filter fun c => c.segment.recordtypeId = r).map WriteCall.event with hevs
  have haside : ∀ ev ∈ evs, isTmp ev.aside = true := by
    intro ev hev
    obtain ⟨c, -, rfl⟩ := List.mem_map.1 hev
    exact aside_event c
  have hsaved : evs.filterMap Folder.Event.saved = segmentsOf (written calls) r := by
    rw [hevs, filterMap_saved, written_filter]
  have hperm := Folder.listing_perm haside isTmp_name hlist
  have hseen : ∀ n bs, Folder.visible isTmp (Folder.folder Segment.name (Segment.pieces num) evs) n = some bs ↔ _ :=
    fun n bs => Folder.visible_run haside isTmp_name
  rw [hsaved] at hperm hseen
  set l := Folder.latest Segment.name (segmentsOf (written calls) r) with hl
  have hsub : ∀ s ∈ l, s ∈ segmentsOf (written calls) r := (Folder.latest_sublist _).subset
  -- `scan` looks at the recordtype only, and so do these
  have hof : segmentsOf l r = l := List.filter_eq_self.2 fun s hs => (List.mem_filter.1 (hsub s hs)).2
  have hnames : (listing.insertionSort (· ≤ ·)).filter (fun n => !isTmp n) =
      (l.insertionSort fun a b => a.name ≤ b.name).map Segment.name := by
    rw [List.map_insertionSort (fun a b : Segment => a.name ≤ b.name) (· ≤ ·) Segment.name l fun a _ b _ => Iff.rfl]
    refine List.Perm.eq_of_pairwise' (r := (· ≤ ·)) ((List.pairwise_insertionSort _ _).filter _)
      (List.pairwise_insertionSort _ _) ?_
    exact ((List.perm_insertionSort _ _).filter _).trans (hperm.trans (List.perm_insertionSort _ _).symm)
  have hmem : ∀ s ∈ l.insertionSort (fun a b => a.name ≤ b.name), s ∈ l := fun s hs => (List.mem_insertionSort _).1 hs
  unfold scanFolder scan
  rw [scanNames_filter, hnames, hof]
  refine scanNames_names num (fun s hs => ?_) (fun s hs => hj s (hsub s (hmem s hs))) cursor
  have hvisible := (hseen s.name (s.pieces num).flatten).2 ⟨s, hmem s hs, rfl, rfl⟩
  unfold Folder.visible at hvisible
  rwa [isTmp_name, if_neg Bool.false_ne_true] at hvisible

/-! ## The records of a run -/

/-- The line holds values as `json.loads` makes them: the keys of every object are distinct. -/
def Envelope.Loaded (e : Envelope) : Prop := NestedDistinct e.v ∧ e.dltId.KeysDistinct

/-- The lines of every chunk of the run have come from `json.loads`. -/
def LinesLoaded (es : List SysEvent) : Prop := ∀ rq, Arrives es (.ingest rq) → ∀ e ∈ rq.lines, e.Loaded

theorem Envelope.Loaded.stamp {e : Envelope} (h : e.Loaded) (recordtypeId loadId utc : String) :
    NestedDistinct (e.stamp recordtypeId loadId utc) := by
  refine h.1.set ?_
  have hi := h.2
  cases e.isTombstone <;> by_cases ht : e.dltId.truthy = true <;> by_cases hl : loadId = "" <;>
    simp [ht, hl, Json.KeysDistinct, KeysDistinctEntries, hi]

/-- The lines that an ingest has under way. -/
def IngestPc.underWay : IngestPc → List Envelope
  | «begin» _ b => b.kept
  | commit _ b _ => b.kept
  | _ => []

/-- A chunk has lines of its request under way. -/
def Thread.Lines (es : List SysEvent) : Thread → Prop
  | ingest rq _ pc => Arrives es (.ingest rq) ∧ pc.underWay ⊆ rq.lines
  | _ => True

theorem IngestStep.underWay {rq : IngestRequest} {crash : Option CrashPoint} {inp : Inputs} {srv srv' : Server}
    {pc pc' : IngestPc} (h : IngestStep rq crash inp srv pc srv' pc') (hs : pc.underWay ⊆ rq.lines) :
    pc'.underWay ⊆ rq.lines := by
  cases h with
  | filtered => exact List.filter_subset_self _
  | begun => exact hs
  | ended => exact hs
  | _ => exact List.nil_subset _

section

variable {P : Runtime} {es : List SysEvent}

/-- **What is stored could be read back**, in every state of every run. -/
theorem stored_distinct (hes : LinesLoaded es) (n : ℕ) :
    ∀ s ∈ (sAt P es n).srv.segments, ∀ record ∈ s.records, NestedDistinct record := by
  refine (thread_rule (P := P) (G := fun srv => ∀ s ∈ srv.segments, ∀ record ∈ s.records, NestedDistinct record)
    (I := fun _ th => th.Lines es) ?init ?pause ?start ?step n).1
  case init => simp
  case pause => exact fun srv pid h => ⟨by rw [(SameShow.pause srv pid).segments]; exact h, fun _ hth => hth⟩
  case start =>
    intro srv rq crash hrq _
    cases rq with
    | ingest rq => exact ⟨⟨crash, hrq⟩, List.nil_subset _⟩
    | _ => trivial
  case step =>
    intro srv th inp _ h hlines
    refine ⟨?_, ?_, fun _ _ _ hth => hth⟩
    · cases th with
      | ingest rq crash pc =>
        rcases pc.step_show rq crash inp srv with hs | ⟨v, b, ms, rfl, -, he⟩
        · exact hs.segments ▸ h
        · change ∀ s ∈ (IngestPc.step rq crash inp srv _).1.segments, _
          rw [he]
          intro s hs record hr
          rcases List.mem_append.1 hs with hs | hs
          · exact h s hs record hr
          · rw [List.mem_singleton.1 hs] at hr
            obtain ⟨e, he, rfl⟩ := List.mem_map.1 hr
            exact (hes rq hlines.1 e (hlines.2 he)).stamp _ _ _
      | put pid doc pc => exact (pc.step_show pid doc srv).segments ▸ h
      | once rq answer => cases answer with
        | none => exact (onceStep_spec P inp srv rq).shows.segments ▸ h
        | some a => exact h
    · cases th with
      | ingest rq crash pc => exact ⟨hlines.1, (pc.step_spec rq crash inp srv).underWay hlines.2⟩
      | put pid doc pc => trivial
      | once rq answer => cases answer <;> trivial

/-- Segments with different last ids have different names. -/
theorem names_nodup {l : List Segment} (h : (l.map Segment.lastId).Nodup) : (l.map Segment.name).Nodup := by
  refine List.pairwise_map.2 ((List.pairwise_map.1 h).imp fun {a b} hab he => hab (Decimal.repr_inj ?_))
  rw [← keyLastId_name, ← keyLastId_name, he]

/-- **A scan of the files is a scan of the store.** In every state of every run whose chunks come
from `json.loads`, if the segments of the store have been written to the files in commit order, with
any writes in between that were cut short, a scan of a directory raises nothing and finds what a
scan of the store finds, of the segments whose name has not been written again. If last ids differ
these are all. -/
theorem scan_files (num : NumberText) (hes : LinesLoaded es) (n : ℕ) {calls : List WriteCall}
    (hcalls : written calls = (sAt P es n).srv.segments) (r : String) {listing : List String}
    (hlist : listing.Perm (SegmentRoot.after num calls r).keys) (cursor : String) :
    scanFolder (SegmentRoot.after num calls r) listing cursor = some (readScan num
      (scan (Folder.latest Segment.name (segmentsOf (sAt P es n).srv.segments r)) r cursor)) ∧
    (((segmentsOf (sAt P es n).srv.segments r).map Segment.lastId).Nodup →
      scanFolder (SegmentRoot.after num calls r) listing cursor =
        some (readScan num (scan (sAt P es n).srv.segments r cursor))) := by
  have hscan := scanFolder_after num hlist (fun s hs fact hf => ?distinct) cursor
  case distinct =>
    rw [hcalls] at hs
    exact stored_distinct hes n s (List.mem_of_mem_filter hs) fact.2 (List.of_mem_zip hf).2
  rw [hcalls] at hscan
  refine ⟨hscan, fun hnodup => ?_⟩
  rw [hscan, Folder.latest_of_nodup (names_nodup hnodup)]
  unfold scan segmentsOf
  rw [List.filter_filter]
  simp

end

/-! ### The files of a run -/

/-- Number tokens are opaque, so any will do. -/
def plainNumbers : NumberText := ⟨fun _ => ⟨[48], by decide, by decide⟩, fun _ => ⟨[48], by decide, by decide⟩⟩

def savedChunk : IngestRequest where
  pid := "0123456789abcdefghijklmnopq"
  table := "orders"
  loadId := "1.0"
  jobId := "orders.a.jsonl"
  seq := "0"
  lines := [⟨Dict.ofEntries [("id", .int 1)], none, some (.str "1")⟩]

/-- A chunk is sent to a new pid. -/
def savedRun : List SysEvent :=
  let inp : Inputs := ⟨1700000000000, "2023-11-14T22:13:20Z", 7, "0123456789abcdefghijklmnopq"⟩
  [.spawn (.register "shop" "shop") none, .tick 0 inp, .spawn (.ingest savedChunk) none] ++ List.replicate 11 (.tick 1 inp)

theorem savedRun_loaded : LinesLoaded savedRun := by
  rintro rq ⟨crash, h⟩ e he
  have hrq : rq = savedChunk := by
    simp only [savedRun, List.mem_append, List.mem_cons, List.mem_replicate, List.not_mem_nil] at h
    rcases h with (h | h | h | h) | ⟨-, h⟩ <;> cases h
    rfl
  subst hrq
  rw [List.mem_singleton.1 he]
  exact ⟨nestedDistinct_ofEntries (by simp [Json.KeysDistinct]), trivial⟩

/-- The first write of each segment of the store is cut short in its second line. -/
def savedWrites (segments : List Segment) : List WriteCall :=
  segments.flatMap fun s => [⟨s, 1, 7, some (3, 5)⟩, ⟨s, 1, 8, none⟩]

theorem written_savedWrites (segments : List Segment) : written (savedWrites segments) = segments := by
  unfold savedWrites written
  induction segments with
  | nil => rfl
  | cons s segments ih => simp [ih]

theorem scan_files_saved :
    let segments := (sAt .plain savedRun savedRun.length).srv.segments
    let root := SegmentRoot.after plainNumbers (savedWrites segments)
    let r := "0123456789abcdefghijklmnopq.orders"
    scanFolder (root r) (root r).keys "0" = some (readScan plainNumbers
      (scan (Folder.latest Segment.name (segmentsOf segments r)) r "0")) ∧
    (((segmentsOf segments r).map Segment.lastId).Nodup →
      scanFolder (root r) (root r).keys "0" = some (readScan plainNumbers (scan segments r "0"))) :=
  scan_files plainNumbers savedRun_loaded savedRun.length (written_savedWrites _) _ (List.Perm.refl _) "0"

end Matterbeam
