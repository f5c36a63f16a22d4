import Matterbeam.Model.Framing
import Matterbeam.Proof.FileRun

/-!
# Line framing

Newlines separate the lines of a body and end those of a file, and no record is encoded with one.

* `bodyLines_join`, `bodyLines_append`: what is split was joined, or appended.
* `encodeRows_ok`: the lines of a chunk are the encodings of its records.
* `line_framing`: **a body and a file are decoded to the records that were encoded**.
* `wire_framing`, `Holding.exec`: the bodies and files of the model, as bytes.
-/

namespace Matterbeam

open JsonText Prog Function

/-! ## Lines -/

/-- A line that is found again: it has no newline, and is not blank. -/
structure Framed (line : Octets) : Prop where
  noNewline : newline ∉ line
  notBlank : notBlank line = true

/-- The content is empty, or ends with a newline. -/
def Terminated (content : Octets) : Prop := content = [] ∨ ∃ before, content = before ++ [newline]

/-- Lines, each with its newline. -/
def withNewlines (lines : List Octets) : Octets := lines.flatMap fun line => line ++ [newline]

section

variable {lines : List Octets} {content : Octets}

/-- **Lines that were joined** with newlines. -/
theorem bodyLines_join (h : ∀ line ∈ lines, Framed line) : bodyLines ([newline].intercalate lines) = lines := by
  unfold bodyLines
  induction lines with
  | nil => rfl
  | cons line lines ih =>
    obtain ⟨hline, hlines⟩ := List.forall_mem_cons.1 h
    cases lines with
    | nil =>
      rw [intercalate_singleton, List.splitOn_eq_singleton hline.noNewline, List.filter_cons_of_pos hline.notBlank]
      rfl
    | cons line' lines =>
      rw [intercalate_cons_cons, List.singleton_append, List.splitOn_append_cons_self_of_not_mem hline.noNewline,
        List.filter_cons_of_pos hline.notBlank, ih hlines]

/-- What ends with a newline is split off. -/
theorem bodyLines_terminated (h : Terminated content) (rest : Octets) :
    bodyLines (content ++ rest) = bodyLines content ++ bodyLines rest := by
  rcases h with rfl | ⟨before, rfl⟩
  · rfl
  · unfold bodyLines
    rw [List.append_assoc, List.singleton_append, List.splitOn_append_cons_self, List.splitOn_append_cons_self,
      List.filter_append, List.filter_append, List.append_assoc]
    rfl

theorem terminated_withNewlines (lines : List Octets) : Terminated (withNewlines lines) := by
  induction lines with
  | nil => exact .inl rfl
  | cons line lines ih =>
    rcases ih with he | ⟨before, he⟩
    · exact .inr ⟨line, by rw [withNewlines, List.flatMap_cons, ← withNewlines, he, List.append_nil]⟩
    · exact .inr ⟨line ++ newline :: before, by rw [withNewlines, List.flatMap_cons, ← withNewlines, he]; simp⟩

theorem bodyLines_withNewlines (h : ∀ line ∈ lines, Framed line) : bodyLines (withNewlines lines) = lines := by
  induction lines with
  | nil => rfl
  | cons line lines ih =>
    obtain ⟨hline, hlines⟩ := List.forall_mem_cons.1 h
    have hone : bodyLines (line ++ [newline]) = [line] := by
      unfold bodyLines
      rw [List.splitOn_append_cons_self_of_not_mem hline.noNewline, List.filter_cons_of_pos hline.notBlank]
      rfl
    rw [withNewlines, List.flatMap_cons, ← withNewlines, bodyLines_terminated (.inr ⟨line, rfl⟩), hone, ih hlines]
    rfl

theorem Terminated.append {rest : Octets} (h : Terminated content) (h' : Terminated rest) : Terminated (content ++ rest) := by
  rcases h' with rfl | ⟨before, rfl⟩
  · rwa [List.append_nil]
  · exact .inr ⟨content ++ before, (List.append_assoc _ _ _).symm⟩

end

/-! ## The lines of a chunk -/

/-- **A record is encoded on one line**, which is not blank. -/
theorem framed_bytesOf (v : Value) : Framed (bytesOf v) := by
  refine ⟨fun hnewline => ?_, ?_⟩
  · have hle := bytesOf_printable v _ hnewline
    exact absurd hle.1 (by decide)
  · obtain ⟨c, s, hhead, hspace, -⟩ := dumps_head v
    have hle := dumps_printable v c (by simp [hhead])
    -- its first character is no whitespace
    have hne : c ≠ 0x20 := by
      rintro rfl
      cases hspace
    unfold notBlank bytesOf
    rw [hhead, List.map_cons, List.any_cons, Bool.or_eq_true]
    refine .inl (decide_eq_true fun hmem => ?_)
    have hnat := toNat_printable hle
    simp only [List.mem_cons, List.not_mem_nil, or_false] at hmem
    rcases hmem with he | he | he | he | he | he
    all_goals
      rw [he] at hnat
      simp at hnat
      omega

/-- Encoding a record does not raise. -/
theorem encodeRecord_eq (v : Value) : encodeRecord v = .ok (bytesOf v) := by
  unfold encodeRecord
  rw [encode_dumps]

section

/-- `[build(row) for row in rows]`. -/
def buildRows {ρ α : Type} (build : ρ → Except PyError α) : List ρ → Except PyError (List α)
  | [] => .ok []
  | row :: rows => do
    let record ← build row
    let records ← buildRows build rows
    return record :: records

variable {ρ : Type} {build : ρ → Except PyError Value} {rows : List ρ}

/-- **The lines of a chunk** are the encodings of its records, if these can be built. -/
theorem encodeRows_eq (rows : List ρ) : encodeRows build rows = (buildRows build rows).map (List.map bytesOf) := by
  induction rows with
  | nil => rfl
  | cons row rows ih =>
    unfold encodeRows buildRows
    cases build row with
    | error e => rfl
    | ok record =>
      simp only [Bind.bind, Except.bind, encodeRecord_eq, ih]
      cases buildRows build rows <;> rfl

/-- What is made of each record. -/
theorem buildRows_map {α β : Type} (build : ρ → Except PyError α) (f : α → β) (rows : List ρ) :
    buildRows (fun row => (build row).map f) rows = (buildRows build rows).map (List.map f) := by
  induction rows with
  | nil => rfl
  | cons row rows ih =>
    unfold buildRows
    rw [ih]
    cases build row with
    | error e => rfl
    | ok record => cases buildRows build rows <;> rfl

theorem buildRows_ok {α : Type} {build : ρ → Except PyError α} {records : List α}
    (h : List.Forall₂ (fun row record => build row = .ok record) rows records) : buildRows build rows = .ok records := by
  induction h with
  | nil => rfl
  | cons hrow _ ih =>
    unfold buildRows
    rw [hrow, ih]
    rfl

/-- A record was built of a row. -/
theorem mem_buildRows {α : Type} {build : ρ → Except PyError α} {records : List α}
    (h : buildRows build rows = .ok records) : ∀ record ∈ records, ∃ row ∈ rows, build row = .ok record := by
  induction rows generalizing records with
  | nil =>
    cases h
    exact nofun
  | cons row rows ih =>
    unfold buildRows at h
    cases hrow : build row with
    | error e =>
      rw [hrow] at h
      cases h
    | ok record =>
      cases hrows : buildRows build rows with
      | error e =>
        rw [hrow, hrows] at h
        cases h
      | ok records =>
        rw [hrow, hrows] at h
        cases h
        rintro r hr
        rcases List.mem_cons.1 hr with rfl | hr
        · exact ⟨row, List.mem_cons_self, hrow⟩
        · obtain ⟨row', hmem, hbuild⟩ := ih hrows r hr
          exact ⟨row', List.mem_cons_of_mem _ hmem, hbuild⟩

theorem wireBody_ok {compress : Octets → Octets} {records : List Value} (h : buildRows build rows = .ok records) :
    wireBody build compress rows = .ok (compress ([newline].intercalate (records.map bytesOf))) := by
  unfold wireBody
  rw [encodeRows_eq, h]
  rfl

theorem appendRows_eq (content : Octets) (rows : List ρ) : appendRows build content rows =
    (buildRows build rows).map fun records => content ++ withNewlines (records.map bytesOf) := by
  unfold appendRows
  rw [encodeRows_eq]
  cases buildRows build rows <;> rfl

theorem framed_lines (records : List Value) : ∀ line ∈ records.map bytesOf, Framed line := by
  intro line hline
  obtain ⟨v, -, rfl⟩ := List.mem_map.1 hline
  exact framed_bytesOf v

end

/-! ## Round trips -/

/-- A builder of records, as one of values. -/
def valuesOf {ρ : Type} (build : ρ → Except PyError Record) (row : ρ) : Except PyError Value := (build row).map Subtype.val

theorem buildRows_valuesOf {ρ : Type} (build : ρ → Except PyError Record) (rows : List ρ) :
    buildRows (valuesOf build) rows = (buildRows build rows).map (List.map Subtype.val) := buildRows_map build Subtype.val rows

/-- **Values are decoded to themselves.** -/
theorem decode_values {values : List Value} (h : ∀ v ∈ values, v.WellFormed) :
    (values.map bytesOf).map loadsBytes = values.map some := by
  rw [List.map_map]
  exact List.map_congr_left fun v hv => loadsBytes_bytesOf (h v hv)

theorem decode_records (records : List Record) :
    ((records.map Subtype.val).map bytesOf).map loadsBytes = records.map fun r => some r.1 := by
  rw [decode_values fun v hv => ?_, List.map_map]
  · rfl
  · obtain ⟨r, -, rfl⟩ := List.mem_map.1 hv
    exact r.2

section

variable {κ ρ : Type} (build : κ → ρ → Except PyError Record)

/-- The content of a file, after a chunk has been sent to it with some arguments. -/
def sendTo (content : Octets) (send : κ × List ρ) : Octets :=
  match appendRows (valuesOf (build send.1)) content send.2 with
  | .ok content => content
  | .error _ => content

/-- The records of a chunk, or none if one of them cannot be built. -/
def recordsSent (send : κ × List ρ) : List Record :=
  match buildRows (build send.1) send.2 with
  | .ok records => records
  | .error _ => []

/-- What a chunk appends. -/
theorem sendTo_eq (content : Octets) (send : κ × List ρ) :
    sendTo build content send = content ++ withNewlines (((recordsSent build send).map Subtype.val).map bytesOf) := by
  unfold sendTo recordsSent
  rw [appendRows_eq, buildRows_valuesOf]
  cases buildRows (build send.1) send.2 with
  | error e => exact (List.append_nil _).symm
  | ok records => rfl

/-- **The lines of a file** are those of the chunks sent to it, one after another. -/
theorem bodyLines_sends (sends : List (κ × List ρ)) {content : Octets} (h : Terminated content) :
    bodyLines (sends.foldl (sendTo build) content) =
      bodyLines content ++ ((sends.flatMap (recordsSent build)).map Subtype.val).map bytesOf := by
  induction sends generalizing content with
  | nil => simp
  | cons send sends ih =>
    have hlines := framed_lines ((recordsSent build send).map Subtype.val)
    have hnext : Terminated (sendTo build content send) := by
      rw [sendTo_eq]
      exact h.append (terminated_withNewlines _)
    rw [List.foldl_cons, ih hnext, sendTo_eq, bodyLines_terminated h, bodyLines_withNewlines hlines, List.flatMap_cons,
      List.map_append, List.map_append, List.append_assoc]

end

/-- **Line framing round-trips.** The compression is lossless. For any builder and any rows, the server
splits the body of a chunk into one line for each row, in order, which is decoded to its record; and
the lines of a file to which any chunks were sent, one after another, are decoded to all the records
that were built, in order. -/
theorem line_framing (compress decompress : Octets → Octets) (hlossless : ∀ body, decompress (compress body) = body) :
    (∀ (ρ : Type) (build : ρ → Except PyError Record) (rows : List ρ) (records : List Record),
      List.Forall₂ (fun row record => build row = .ok record) rows records →
      ∃ body, wireBody (valuesOf build) compress rows = .ok body ∧
        (bodyLines (decompress body)).map loadsBytes = records.map fun r => some r.1) ∧
    ∀ (κ ρ : Type) (build : κ → ρ → Except PyError Record) (sends : List (κ × List ρ)),
      (bodyLines (sends.foldl (sendTo build) [])).map loadsBytes =
        (sends.flatMap (recordsSent build)).map fun r => some r.1 := by
  refine ⟨fun ρ build rows records hrows => ?_, fun κ ρ build sends => ?_⟩
  · have hbuilt : buildRows (valuesOf build) rows = .ok (records.map Subtype.val) := by
      rw [buildRows_valuesOf, buildRows_ok hrows]
      rfl
    refine ⟨_, wireBody_ok hbuilt, ?_⟩
    rw [hlossless, bodyLines_join (framed_lines _), decode_records]
  · rw [bodyLines_sends build sends (.inl rfl)]
    exact decode_records _

/-- A string of a newline, a quote and an unpaired surrogate, in an array. -/
def newlineRecord : Record :=
  ⟨.arr [.str [0x0A, 0x22, 0xD800]], ⟨⟨by decide, nofun, by decide, nofun, by decide, nofun, trivial⟩, trivial⟩⟩

/-- Two such records are framed in one body, after compression that does nothing; and again in a
file, to which a chunk is sent after an empty one. -/
theorem line_framing_newlines :
    (∃ body, wireBody (valuesOf fun _ : ℕ => .ok newlineRecord) id [0, 1] = .ok body ∧
      (bodyLines body).map loadsBytes = [some newlineRecord.1, some newlineRecord.1]) ∧
    (bodyLines ([((), []), ((), [0])].foldl (sendTo fun (_ : Unit) (_ : ℕ) => .ok newlineRecord) [])).map loadsBytes =
      [some newlineRecord.1] :=
  ⟨(line_framing id id fun _ => rfl).1 ℕ (fun _ => .ok newlineRecord) [0, 1] [newlineRecord, newlineRecord]
      (.cons rfl (.cons rfl .nil)),
    (line_framing id id fun _ => rfl).2 Unit ℕ (fun _ _ => .ok newlineRecord) [((), []), ((), [0])]⟩

/-! ## The records of the model -/

mutual
/-- The keys of every object in the value are distinct. -/
def Json.KeysDistinct : Json → Prop
  | .arr xs => KeysDistinctList xs
  | .obj kvs => (kvs.map Prod.fst).Nodup ∧ KeysDistinctEntries kvs
  | _ => True

def KeysDistinctList : List Json → Prop
  | [] => True
  | x :: xs => x.KeysDistinct ∧ KeysDistinctList xs

def KeysDistinctEntries : List (String × Json) → Prop
  | [] => True
  | (_, x) :: kvs => x.KeysDistinct ∧ KeysDistinctEntries kvs
end

theorem keysDistinctEntries_iff {kvs : List (String × Json)} : KeysDistinctEntries kvs ↔ ∀ e ∈ kvs, e.2.KeysDistinct := by
  induction kvs with
  | nil => simp [KeysDistinctEntries]
  | cons e kvs ih => simp [KeysDistinctEntries, ih]

/-- A string without surrogates. -/
theorem wellPaired_ofString (s : String) : WellPaired (ofString s) := by
  unfold ofString
  induction s.toList with
  | nil => trivial
  | cons c l ih =>
    have hvalid := c.valid
    refine ⟨?_, fun hhigh => ?_, ih⟩
    · rcases hvalid with h | h
      · exact Nat.lt_trans h (by decide)
      · exact h.2
    · -- a character is no surrogate
      unfold isHigh at hhigh
      rw [Bool.and_eq_true, decide_eq_true_eq, decide_eq_true_eq] at hhigh
      have hnat : c.toNat = c.val.toNat := rfl
      rcases hvalid with h | h <;> omega

theorem ofString_injective : Injective ofString := by
  intro a b h
  have hlist : a.toList = b.toList := (List.map_injective_iff.2 fun c d hcd => Char.toNat_inj.1 hcd) h
  exact String.toList_inj.1 hlist

theorem toEntries_keys (num : NumberText) (kvs : List (String × Json)) :
    (toEntries num kvs).map Prod.fst = (kvs.map Prod.fst).map ofString := by
  induction kvs with
  | nil => rfl
  | cons e kvs ih =>
    obtain ⟨k, x⟩ := e
    simp only [toEntries, List.map_cons, ih]

mutual
/-- **The records of the model can be framed.** -/
theorem toValue_wellFormed (num : NumberText) : (v : Json) → v.KeysDistinct → (v.toValue num).WellFormed
  | .null, _ | .bool _, _ | .int _, _ | .float _, _ => trivial
  | .str s, _ => wellPaired_ofString s
  | .arr xs, h => toValues_wellFormed num xs h
  | .obj kvs, h => by
    refine ⟨?_, toEntries_wellFormed num kvs h.2⟩
    rw [toEntries_keys]
    exact h.1.map ofString_injective

theorem toValues_wellFormed (num : NumberText) : (xs : List Json) → KeysDistinctList xs → WellFormedList (toValues num xs)
  | [], _ => trivial
  | x :: xs, h => ⟨toValue_wellFormed num x h.1, toValues_wellFormed num xs h.2⟩

theorem toEntries_wellFormed (num : NumberText) : (kvs : List (String × Json)) → KeysDistinctEntries kvs →
    WellFormedEntries (toEntries num kvs)
  | [], _ => trivial
  | (k, x) :: kvs, h => ⟨wellPaired_ofString k, toValue_wellFormed num x h.1, toEntries_wellFormed num kvs h.2⟩
end

/-- The values of a row are such: the keys of every object in them are distinct. -/
def NestedDistinct (row : Row) : Prop := ∀ e ∈ row.entries, e.2.KeysDistinct

section

variable {row : Row} {keys hardDelete : List String}

theorem NestedDistinct.toJson (h : NestedDistinct row) : row.toJson.KeysDistinct := ⟨row.nodup, keysDistinctEntries_iff.2 h⟩

theorem NestedDistinct.get? (h : NestedDistinct row) {k : String} {v : Json} (hv : row.get? k = some v) : v.KeysDistinct :=
  h (k, v) (Dict.mem_entries_of_get? hv)

theorem NestedDistinct.get (h : NestedDistinct row) (k : String) : (row.get k).KeysDistinct := by
  unfold Row.get
  cases hv : row.get? k with
  | none => trivial
  | some v => exact h.get? hv

theorem NestedDistinct.erase (h : NestedDistinct row) (k : String) : NestedDistinct (row.erase k) :=
  fun e he => h e (List.mem_of_mem_filter he)

theorem NestedDistinct.set (h : NestedDistinct row) {k : String} {v : Json} (hv : v.KeysDistinct) :
    NestedDistinct (row.set k v) := by
  intro e he
  rcases Dict.mem_set he with rfl | he
  · exact hv
  · exact h e he

theorem nestedDistinct_ofEntries {kvs : List (String × Json)} (h : ∀ e ∈ kvs, e.2.KeysDistinct) :
    NestedDistinct (Dict.ofEntries kvs) := by
  unfold Dict.ofEntries
  suffices H : ∀ row : Row, NestedDistinct row → NestedDistinct (kvs.foldl (fun d e => d.set e.1 e.2) row) from
    H Dict.empty fun e he => by cases he
  induction kvs with
  | nil => exact fun row hrow => hrow
  | cons e kvs ih =>
    obtain ⟨he, hkvs⟩ := List.forall_mem_cons.1 h
    exact fun row hrow => ih hkvs _ (hrow.set he)

/-- A body has values of its row. -/
theorem NestedDistinct.body (h : NestedDistinct row) {t : Bool} {body : Row}
    (hbody : tombstoneAndBody row keys hardDelete = .ok (t, body)) : NestedDistinct body := by
  unfold tombstoneAndBody at hbody
  dsimp only at hbody
  split at hbody
  · cases hkvs : keyEntries row keys with
    | error e =>
      rw [hkvs] at hbody
      cases hbody
    | ok kvs =>
      rw [hkvs] at hbody
      cases hbody
      exact nestedDistinct_ofEntries fun e he => h.get? ((keyEntries_spec hkvs).2 e he)
  · cases hbody
    exact h

/-- **A wire envelope can be framed**, if its row can. -/
theorem NestedDistinct.wire (h : NestedDistinct row) {e : Envelope} (he : buildWireRecord row keys hardDelete = .ok e) :
    e.toJson.KeysDistinct := by
  unfold buildWireRecord at he
  cases hbody : tombstoneAndBody (stripIds row) keys hardDelete with
  | error err =>
    rw [hbody] at he
    cases he
  | ok tb =>
    obtain ⟨t, body⟩ := tb
    rw [hbody] at he
    cases he
    have hv := (((h.erase "_dlt_id").erase "_dlt_load_id").body hbody).toJson
    have hi := h.get "_dlt_id"
    unfold Envelope.toJson
    cases t <;> by_cases htruthy : (row.get "_dlt_id").truthy = true <;>
      simp [htruthy, Json.KeysDistinct, KeysDistinctEntries, hv, hi]

end

theorem buildWireRecords_eq (keys hardDelete : List String) (rows : List Row) :
    buildWireRecords keys hardDelete rows = buildRows (fun row => buildWireRecord row keys hardDelete) rows := by
  induction rows with
  | nil => rfl
  | cons row rows ih =>
    unfold buildWireRecords buildRows
    rw [ih]

/-- The records of a chunk, as they are encoded for the server. -/
theorem buildRows_wire (num : NumberText) (keys hardDelete : List String) (rows : List Row) :
    buildRows (wireValue num keys hardDelete) rows =
      (buildWireRecords keys hardDelete rows).map (List.map fun e => e.toJson.toValue num) := by
  rw [buildWireRecords_eq]
  exact buildRows_map (fun row => buildWireRecord row keys hardDelete) (fun e => e.toJson.toValue num) rows

theorem buildWireRecords_distinct {keys hardDelete : List String} {rows : List Row} {lines : List Envelope}
    (hrows : ∀ row ∈ rows, NestedDistinct row) (hlines : buildWireRecords keys hardDelete rows = .ok lines) :
    ∀ e ∈ lines, e.toJson.KeysDistinct := by
  rw [buildWireRecords_eq] at hlines
  intro e he
  obtain ⟨row, hrow, hwire⟩ := mem_buildRows hlines e he
  exact (hrows row hrow).wire hwire

/-- **The body of a chunk of the model** is split into the lines that its request stands for. -/
theorem wire_framing (num : NumberText) {compress decompress : Octets → Octets}
    (hlossless : ∀ body, decompress (compress body) = body) {c : Chunk} (hrows : ∀ row ∈ c.rows, NestedDistinct row)
    {lines : List Envelope} (hlines : buildWireRecords c.keys c.hardDelete c.rows = .ok lines) :
    ∃ body, wireBody (wireValue num c.keys c.hardDelete) compress c.rows = .ok body ∧
      (bodyLines (decompress body)).map loadsBytes = lines.map fun e => some (e.toJson.toValue num) := by
  have hbuilt : buildRows (wireValue num c.keys c.hardDelete) c.rows = .ok (lines.map fun e => e.toJson.toValue num) := by
    rw [buildRows_wire, hlines]
    rfl
  refine ⟨_, wireBody_ok hbuilt, ?_⟩
  rw [hlossless, bodyLines_join (framed_lines _), decode_values fun v hv => ?_, List.map_map]
  · rfl
  · obtain ⟨e, he, rfl⟩ := List.mem_map.1 hv
    exact toValue_wellFormed num _ (buildWireRecords_distinct hrows hlines e he)

/-! ## Files of lines -/

/-- The files hold the records, each on a line of its own. -/
def Holding (num : NumberText) (files : OutputFiles) (fs : Files) : Prop :=
  ∀ file, Terminated ((files file).getD []) ∧
    bodyLines ((files file).getD []) = (fs file).map fun row => bytesOf (row.toJson.toValue num)

/-- The bytes that an append adds to its file. -/
theorem append_fst (num : NumberText) (files : OutputFiles) (a : Append) : (files.append num a).1 = update files a.file
    (some ((files a.file).getD [] ++ withNewlines (a.lines.map fun row => bytesOf (row.toJson.toValue num)))) := by
  have hbuilt : buildRows (fun row : Row => .ok (row.toJson.toValue num)) a.lines =
      .ok (a.lines.map fun row => row.toJson.toValue num) := by
    refine buildRows_ok ?_
    rw [List.forall₂_map_right_iff]
    exact List.forall₂_same.2 fun _ _ => rfl
  have hmap : (a.lines.map fun row => row.toJson.toValue num).map bytesOf =
      a.lines.map fun row => bytesOf (row.toJson.toValue num) := List.map_map
  unfold OutputFiles.append
  rw [appendRows_eq, hbuilt, ← hmap]
  rfl

/-- **An append of lines** is an append of records. -/
theorem Holding.append {num : NumberText} {files : OutputFiles} {fs : Files} (h : Holding num files fs) (a : Append) :
    Holding num (files.append num a).1 (appendTo fs a).1 := by
  intro file
  rw [append_fst]
  unfold appendTo
  by_cases hfile : file = a.file
  · subst hfile
    obtain ⟨hterminated, hlines⟩ := h a.file
    dsimp only
    rw [update_self, update_self, Option.getD_some, bodyLines_terminated hterminated, hlines, List.map_append,
      bodyLines_withNewlines fun line hline => ?_]
    · exact ⟨hterminated.append (terminated_withNewlines _), rfl⟩
    · obtain ⟨row, -, rfl⟩ := List.mem_map.1 hline
      exact framed_bytesOf _
  · dsimp only
    rw [update_of_ne hfile, update_of_ne hfile]
    exact h file

/-- **What a run leaves in its files**: the records that it leaves, on their lines. -/
theorem Holding.exec {α : Type} {num : NumberText} (p : Prog Append Unit α) {files : OutputFiles} {fs : Files}
    (h : Holding num files fs) :
    Holding num (p.exec (OutputFiles.append num) files).1 (p.exec appendTo fs).1 ∧
      (p.exec (OutputFiles.append num) files).2 = (p.exec appendTo fs).2 := by
  induction p generalizing files fs with
  | ret a => exact ⟨h, rfl⟩
  | call a k ih => exact ih () (h.append a)

end Matterbeam
