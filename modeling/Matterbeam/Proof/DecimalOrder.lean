import Matterbeam.Model.Envelope
import Matterbeam.Proof.Compare

/-!
# Ordering by a decimal column

In a load file a decimal is its text behind a type marker. The marker is stripped, and the text
is all that is left when the rows are sorted.

* `decimalValue`: the number that a decimal text denotes.
* `decimal_order`: **the rows are ordered by the numbers just if the texts are ordered as the
  numbers are**.
-/

namespace Matterbeam

/-! ## Decimal texts -/

/-- The number that digits denote. -/
def digitsValue (cs : List Char) : Option ℕ :=
  if cs ≠ [] ∧ cs.all Char.isDigit then some (cs.foldl (fun n c => 10 * n + (c.toNat - '0'.toNat)) 0) else none

/-- A sign, and what it stands before. -/
def signed : List Char → ℤ × List Char
  | '-' :: cs => (-1, cs)
  | '+' :: cs => (1, cs)
  | cs => (1, cs)

/-- The exponent of a decimal text, from its letter on. -/
def exponentValue : List Char → Option ℤ
  | [] => some 0
  | _ :: cs => (digitsValue (signed cs).2).map fun n => (signed cs).1 * n

/-- `decimal.Decimal(text)`, for a finite number: a sign, digits with a point, and an exponent. -/
def decimalValue (text : String) : Option ℚ := do
  let body := (signed text.toList).2
  let mantissa := body.takeWhile fun c => c ≠ 'E' ∧ c ≠ 'e'
  let fraction := (mantissa.dropWhile (· ≠ '.')).drop 1
  let n ← digitsValue (mantissa.takeWhile (· ≠ '.') ++ fraction)
  let exponent ← exponentValue (body.dropWhile fun c => c ≠ 'E' ∧ c ≠ 'e')
  let shift := exponent - fraction.length
  return mkRat ((signed text.toList).1 * n * 10 ^ shift.toNat) (10 ^ (-shift).toNat)

example : ["9", "10", "-1.50", "1E+3", "0.00"].map decimalValue =
    [some 9, some 10, some (-3 / 2), some 1000, some 0] := by decide +kernel

example : ["", ".", "1.2.3", "E5", "NaN"].map decimalValue = [none, none, none, none, none] := by decide +kernel

/-! ## Decimals in a column -/

/-- The decimal that a row has in a column. -/
def decimalIn (col : String) (row : Row) : Option ℚ :=
  match row.get col with
  | .str text => decimalValue text
  | _ => none

/-- A record has a decimal in the column, as its text behind the marker, or no value. -/
def DecimalOrNone (marker col : String) (rec : Row) : Prop :=
  rec.get col = .null ∨ ∃ text, rec.get col = .str (marker ++ text) ∧ (decimalValue text).isSome

/-- The rows are ordered by the decimals that they have, up or down. -/
def DecimalOrdered (col direction : String) (rows : List Row) : Prop :=
  rows.Pairwise fun a b => ∀ p ∈ decimalIn col a, ∀ q ∈ decimalIn col b,
    if direction = "desc" then q ≤ p else p ≤ q

/-- The texts of the decimals in the column are ordered as the decimals are. -/
def TextsOrdered (marker col : String) (recs : List Row) : Prop :=
  ∀ rec ∈ recs, ∀ rec' ∈ recs, ∀ text text' p q, rec.get col = .str (marker ++ text) →
    rec'.get col = .str (marker ++ text') → decimalValue text = some p → decimalValue text' = some q →
    text < text' → p ≤ q

section

variable {P : Runtime} {marker col direction : String}

/-- A record of the file, stripped and projected to the columns. -/
theorem get_stripped {columns : List String} (hcol : col ∈ columns) (rm : String → String) (rec : Row) :
    Row.get ((stripRow rm rec).keep fun k => k ∈ columns) col = stripPua rm (rec.get col) := by
  unfold Row.get stripRow
  rw [Dict.get?_keep, if_pos (by simpa using hcol), Dict.get?_mapVal]
  cases rec.get? col <;> rfl

/-- Texts neither of which is below the other are the same. -/
theorem text_eq_of_not_lt {s t : String} (h : ¬ s < t) (h' : ¬ t < s) : s = t := by
  have heq := Json.pyEq_of_not_pyLt (.str s) (.str t) (by simp [Json.pyLt, h]) (by simp [Json.pyLt, h'])
  simpa [Json.pyEq] using heq

/-! ### Rows with decimals -/

/-- A row has the text of a decimal in the column, or no value. -/
def DecimalRow (col : String) (row : Row) : Prop :=
  row.get col = .null ∨ ∃ text q, row.get col = .str text ∧ decimalValue text = some q

/-- The texts in the column are ordered as the decimals are. -/
def RowsOrdered (col : String) (rows : List Row) : Prop :=
  ∀ a ∈ rows, ∀ b ∈ rows, ∀ s t p q, a.get col = .str s → b.get col = .str t →
    decimalValue s = some p → decimalValue t = some q → s < t → p ≤ q

theorem DecimalRow.text {row : Row} (h : DecimalRow col row) (hne : row.get col ≠ .null) :
    ∃ text q, row.get col = .str text ∧ decimalValue text = some q :=
  h.resolve_left hne

theorem decimalIn_str {row : Row} {text : String} (h : row.get col = .str text) : decimalIn col row = decimalValue text := by
  unfold decimalIn
  rw [h]

theorem decimalIn_null {row : Row} (h : row.get col = .null) : decimalIn col row = none := by
  unfold decimalIn
  rw [h]

/-- The rows with a value are not compared in vain. -/
theorem comparable_decimals {a b : Row} (ha : DecimalRow col a) (hb : DecimalRow col b) (hna : a.get col ≠ .null)
    (hnb : b.get col ≠ .null) : Json.Comparable (a.get col) (b.get col) := by
  obtain ⟨s, -, hs, -⟩ := ha.text hna
  obtain ⟨t, -, ht, -⟩ := hb.text hnb
  rw [hs, ht]
  exact ⟨rfl, rfl⟩

/-- Where texts are ordered as decimals are, a row that is not above another has no higher decimal. -/
theorem RowsOrdered.le {rows : List Row} (h : RowsOrdered col rows) (hrows : ∀ row ∈ rows, DecimalRow col row)
    {a b : Row} (ha : a ∈ rows) (hb : b ∈ rows) (hn : (b.get col).pyLt (a.get col) ≠ some true) :
    ∀ p ∈ decimalIn col a, ∀ q ∈ decimalIn col b, p ≤ q := by
  intro p hp q hq
  have hna : a.get col ≠ .null := by
    intro hnull
    rw [decimalIn_null hnull] at hp
    cases hp
  have hnb : b.get col ≠ .null := by
    intro hnull
    rw [decimalIn_null hnull] at hq
    cases hq
  obtain ⟨s, p', hs, hp'⟩ := (hrows a ha).text hna
  obtain ⟨t, q', ht, hq'⟩ := (hrows b hb).text hnb
  rw [decimalIn_str hs] at hp
  rw [decimalIn_str ht] at hq
  rw [hs, ht] at hn
  have hnlt : ¬ t < s := by simpa [Json.pyLt] using hn
  -- the lower text is the lower decimal, and one text is one decimal
  by_cases hlt : s < t
  · exact h a ha b hb s t p q hs ht hp hq hlt
  · obtain rfl := text_eq_of_not_lt hlt hnlt
    have hpq : p = q := Option.some.inj (hp.symm.trans hq)
    exact le_of_eq hpq

/-- **Sorted by decimals**, if the texts are ordered as they are. -/
theorem decimalOrdered_of_rowsOrdered {rows sorted nulls : List Row} (h : RowsOrdered col rows)
    (hrows : ∀ row ∈ rows, DecimalRow col row) (hmem : ∀ row ∈ sorted, row ∈ rows)
    (hsorted : sorted.Pairwise (sortLe col direction)) (hnulls : ∀ row ∈ nulls, row.get col = .null) :
    DecimalOrdered col direction (sorted ++ nulls) := by
  refine List.pairwise_append.2 ⟨hsorted.imp_of_mem fun {a b} ha hb hs p hp q hq => ?_,
    List.pairwise_of_forall_mem_list fun a ha b hb p hp => ?_, fun a ha b hb p hp q hq => ?_⟩
  · unfold sortLe at hs
    by_cases hd : direction = "desc"
    · rw [if_pos hd] at hs ⊢
      exact h.le hrows (hmem b hb) (hmem a ha) hs q hq p hp
    · rw [if_neg hd] at hs ⊢
      exact h.le hrows (hmem a ha) (hmem b hb) hs p hp q hq
  · -- a row without a value has no decimal
    rw [decimalIn_null (hnulls a ha)] at hp
    cases hp
  · rw [decimalIn_null (hnulls b hb)] at hq
    cases hq

/-- **The texts are ordered as the decimals are**, if the rows that are sorted by the texts are
sorted by the decimals. -/
theorem rowsOrdered_of_decimalOrdered {rows sorted : List Row} (hmem : ∀ row ∈ rows, row.get col ≠ .null → row ∈ sorted)
    (hsorted : sorted.Pairwise (sortLe col direction)) (hord : DecimalOrdered col direction sorted) : RowsOrdered col rows := by
  intro a ha b hb s t p q hs ht hp hq hlt
  have hin : ∀ {row : Row} {text : String}, row ∈ rows → row.get col = .str text → row ∈ sorted := by
    intro row text hrow htext
    refine hmem row hrow fun hnull => ?_
    rw [htext] at hnull
    cases hnull
  have hpa : p ∈ decimalIn col a := by rw [decimalIn_str hs]; exact hp
  have hqb : q ∈ decimalIn col b := by rw [decimalIn_str ht]; exact hq
  have hab : a ≠ b := by
    rintro rfl
    obtain rfl := Json.str.inj (hs.symm.trans ht)
    exact String.lt_irrefl _ hlt
  -- the two rows are put in the order of their texts
  have hlow : (a.get col).pyLt (b.get col) = some true := by
    rw [hs, ht]
    simp [Json.pyLt, hlt]
  -- the row with the lower text is the first of the two in one direction, and the second in the other
  rcases rel_or_rel (hsorted.and hord) (hin ha hs) (hin hb ht) hab with ⟨hle, hdec⟩ | ⟨hle, hdec⟩
  · have h := hdec p hpa q hqb
    unfold sortLe at hle
    by_cases hd : direction = "desc"
    · rw [if_pos hd] at hle
      exact absurd hlow hle
    · rwa [if_neg hd] at h
  · have h := hdec q hqb p hpa
    unfold sortLe at hle
    by_cases hd : direction = "desc"
    · rwa [if_pos hd] at h
    · rw [if_neg hd] at hle
      exact absurd hlow hle

/-- The sort of rows with decimals. -/
theorem sortRows_decimals (direction : String) {rows : List Row} (hrows : ∀ row ∈ rows, DecimalRow col row) :
    ∃ sorted, sortRows rows (some (col, direction)) = .ok sorted ∧
      (DecimalOrdered col direction sorted ↔ RowsOrdered col rows) := by
  have hpresent : ∀ row ∈ rows.filter (fun r => r.get col ≠ .null), row ∈ rows ∧ row.get col ≠ .null := by
    intro row hrow
    obtain ⟨hm, hne⟩ := List.mem_filter.1 hrow
    exact ⟨hm, by simpa using hne⟩
  have hcomp : ∀ a ∈ rows.filter (fun r => r.get col ≠ .null), ∀ b ∈ rows.filter (fun r => r.get col ≠ .null),
      Json.Comparable (a.get col) (b.get col) := fun a ha b hb =>
    comparable_decimals (hrows a (hpresent a ha).1) (hrows b (hpresent b hb).1) (hpresent a ha).2 (hpresent b hb).2
  -- texts can be compared, so the sort does not raise
  have hsorted : ((rows.filter fun r => r.get col ≠ .null).insertionSort (sortLe col direction)).Pairwise
      (sortLe col direction) := pairwise_sortLe fun a ha b hb _ => hcomp a ha b hb
  refine ⟨_, if_pos (List.pairwise_of_forall_mem_list hcomp), fun hord => ?_, fun hord => ?_⟩
  · refine rowsOrdered_of_decimalOrdered (fun row hrow hne => ?_) hsorted (List.pairwise_append.1 hord).1
    exact (List.mem_insertionSort _).2 (List.mem_filter.2 ⟨hrow, by simpa using hne⟩)
  · refine decimalOrdered_of_rowsOrdered hord hrows (fun row hrow => ?_) hsorted fun row hrow => ?_
    · exact (hpresent row ((List.mem_insertionSort _).1 hrow)).1
    · simpa using (List.mem_filter.1 hrow).2

/-! ### Files with decimals -/

/-- **The order of a decimal column.** In every file that has only decimals in the column, and for
both directions, the sorted rows are ordered by the decimals just if the texts are. -/
theorem decimal_order (P : Runtime) (marker col direction : String) (lines : List Line) (columns : List String)
    (hrm : ∀ text, (decimalValue text).isSome → P.customPuaRemove (marker ++ text) = text) (hcol : col ∈ columns)
    (hrecs : ∀ rec ∈ lines.flatMap Line.recs, DecimalOrNone marker col rec) :
    ∃ sorted, sortRows (iterStrippedRows P.customPuaRemove lines columns) (some (col, direction)) = .ok sorted ∧
      (DecimalOrdered col direction sorted ↔ TextsOrdered marker col (lines.flatMap Line.recs)) := by
  have hget := fun rec => get_stripped hcol P.customPuaRemove rec
  have hstr : ∀ {rec : Row} {text : String} {q : ℚ}, rec.get col = .str (marker ++ text) → decimalValue text = some q →
      Row.get ((stripRow P.customPuaRemove rec).keep fun k => k ∈ columns) col = .str text := by
    intro rec text q ht hq
    rw [hget, ht, stripPua, hrm text (by rw [hq]; rfl)]
  have hrows : ∀ row ∈ iterStrippedRows P.customPuaRemove lines columns, DecimalRow col row := by
    intro row hrow
    obtain ⟨rec, hrec, rfl⟩ := List.mem_map.1 hrow
    rcases hrecs rec hrec with hn | ⟨text, ht, hd⟩
    · left
      rw [hget, hn]
      rfl
    · obtain ⟨q, hq⟩ := Option.isSome_iff_exists.1 hd
      exact Or.inr ⟨text, q, hstr ht hq, hq⟩
  obtain ⟨sorted, hok, hiff⟩ := sortRows_decimals direction hrows
  refine ⟨sorted, hok, hiff.trans ⟨fun hord => ?_, fun hord => ?_⟩⟩
  · intro rec hrec rec' hrec' s t p q hs ht hp hq hlt
    exact hord _ (List.mem_map_of_mem hrec) _ (List.mem_map_of_mem hrec') s t p q (hstr hs hp) (hstr ht hq) hp hq hlt
  · -- the text in a row is the one behind the marker in its record
    have hback : ∀ {rec : Row} {s : String}, rec ∈ lines.flatMap Line.recs →
        Row.get ((stripRow P.customPuaRemove rec).keep fun k => k ∈ columns) col = .str s →
        rec.get col = .str (marker ++ s) := by
      intro rec s hrec hs
      rcases hrecs rec hrec with hn | ⟨text, ht, hd⟩
      · rw [hget, hn] at hs
        cases hs
      · obtain ⟨q, hq⟩ := Option.isSome_iff_exists.1 hd
        rw [hstr ht hq] at hs
        rw [ht, Json.str.inj hs]
    intro a ha b hb s t p q hs ht hp hq hlt
    obtain ⟨rec, hrec, rfl⟩ := List.mem_map.1 ha
    obtain ⟨rec', hrec', rfl⟩ := List.mem_map.1 hb
    exact hord rec hrec rec' hrec' s t p q (hback hrec hs) (hback hrec' ht) hp hq hlt

end

/-! ### Nine and ten -/

/-- The library functions, with decimals marked by the character `U+F026`. -/
def markedRuntime : Runtime := { Runtime.plain with
  customPuaRemove := fun s => if s.toList.head? = some '\uf026' then String.ofList (s.toList.drop 1) else s }

theorem markedRuntime_remove (text : String) : markedRuntime.customPuaRemove ("\uf026" ++ text) = text := by
  simp [markedRuntime]

/-- A file with the decimals given in the column `amount`. -/
def amounts (texts : List String) : List Line :=
  texts.map fun text => .bare (Dict.ofEntries [("amount", .str ("\uf026" ++ text))])

theorem mem_amounts {texts : List String} {rec : Row} (h : rec ∈ (amounts texts).flatMap Line.recs) :
    ∃ text ∈ texts, rec.get "amount" = .str ("\uf026" ++ text) := by
  unfold amounts at h
  rw [List.flatMap_map] at h
  obtain ⟨text, htext, h⟩ := List.mem_flatMap.1 h
  obtain rfl := List.mem_singleton.1 h
  exact ⟨text, htext, rfl⟩

theorem decimalOrNone_amounts {texts : List String} (h : ∀ text ∈ texts, (decimalValue text).isSome) :
    ∀ rec ∈ (amounts texts).flatMap Line.recs, DecimalOrNone "\uf026" "amount" rec := by
  intro rec hrec
  obtain ⟨text, htext, hget⟩ := mem_amounts hrec
  exact Or.inr ⟨text, hget, h text htext⟩

/-- Decimals with as many digits are put in order. -/
theorem decimal_order_prices : ∃ sorted,
    sortRows (iterStrippedRows markedRuntime.customPuaRemove (amounts ["12.50", "10.25"]) ["amount"])
      (some ("amount", "asc")) = .ok sorted ∧ DecimalOrdered "amount" "asc" sorted := by
  have hvalues : decimalValue "12.50" = some (25 / 2) ∧ decimalValue "10.25" = some (41 / 4) := by decide +kernel
  obtain ⟨sorted, hsorted, hiff⟩ := decimal_order markedRuntime "\uf026" "amount" "asc" (amounts ["12.50", "10.25"])
    ["amount"] (fun text _ => markedRuntime_remove text) (by decide) (decimalOrNone_amounts (by decide +kernel))
  refine ⟨sorted, hsorted, hiff.2 fun rec hrec rec' hrec' text text' p q ht ht' hp hq hlt => ?_⟩
  have htext : ∀ {rec : Row} {text : String}, rec ∈ (amounts ["12.50", "10.25"]).flatMap Line.recs →
      rec.get "amount" = .str ("\uf026" ++ text) → text = "12.50" ∨ text = "10.25" := by
    intro rec text hrec ht
    obtain ⟨text', htext', hget⟩ := mem_amounts hrec
    rw [ht] at hget
    have heq := congrArg markedRuntime.customPuaRemove (Json.str.inj hget)
    rw [markedRuntime_remove, markedRuntime_remove] at heq
    subst heq
    simpa using htext'
  rcases htext hrec ht with rfl | rfl <;> rcases htext hrec' ht' with rfl | rfl
  · exact absurd hlt (String.lt_irrefl _)
  · exact absurd hlt (by decide)
  · rw [hvalues.2] at hp
    rw [hvalues.1] at hq
    cases hp
    cases hq
    decide +kernel
  · exact absurd hlt (String.lt_irrefl _)

/-- **Ten comes before nine.** -/
theorem ten_before_nine :
    (∀ rec ∈ (amounts ["9", "10"]).flatMap Line.recs, DecimalOrNone "\uf026" "amount" rec) ∧ ∃ sorted,
    sortRows (iterStrippedRows markedRuntime.customPuaRemove (amounts ["9", "10"]) ["amount"])
      (some ("amount", "asc")) = .ok sorted ∧
    sorted.map (decimalIn "amount") = [some 10, some 9] ∧ ¬ DecimalOrdered "amount" "asc" sorted := by
  have hten : decimalIn "amount" (Dict.ofEntries [("amount", .str "10")]) = some 10 := by decide +kernel
  have hnine : decimalIn "amount" (Dict.ofEntries [("amount", .str "9")]) = some 9 := by decide +kernel
  refine ⟨decimalOrNone_amounts (by decide +kernel), [Dict.ofEntries [("amount", .str "10")],
    Dict.ofEntries [("amount", .str "9")]], by decide +kernel, by decide +kernel, fun h => ?_⟩
  have hle := (List.pairwise_pair.1 h) 10 hten 9 hnine
  rw [if_neg (by decide)] at hle
  exact absurd hle (by decide +kernel)

end Matterbeam
