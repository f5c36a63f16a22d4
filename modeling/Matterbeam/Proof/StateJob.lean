import Mathlib.Data.List.Induction
import Matterbeam.Model.Client

/-!
# The two readers of a load file

`iter_stripped_rows` reads every record of every line. `MatterbeamStateJob.run` reads the first
record of each line, and keeps the last of these.

* `stateRow_empty`: on an empty array, it raises.
* `stateRow_eq`: otherwise, it ends with the first record of the last line that is not blank.
* `state_job_iff`: **when that is the last record of the file**.
* `first_state_published`: two states on one line, of which the older is published.
-/

namespace Matterbeam

open Prog

/-- The line has something on it. -/
def Line.isFull : Line → Bool
  | .blank => false
  | .bare _ | .array _ => true

/-- The last line of the file that is not blank. -/
def lastLine (lines : List Line) : Option Line := (lines.filter Line.isFull).getLast?

/-- The last record of the file, stripped. -/
def lastRecord (rm : String → String) (lines : List Line) : Option Row :=
  ((lines.flatMap Line.recs).map (stripRow rm)).getLast?

section

variable {rm : String → String} {lines : List Line} {row : Option Row}

/-! ## What the job reads -/

theorem stateRow_append (lines lines' : List Line) (row : Option Row) :
    stateRow rm (lines ++ lines') row = (stateRow rm lines row).bind (stateRow rm lines') := by
  induction lines generalizing row with
  | nil => rfl
  | cons line lines ih =>
    cases line with
    | blank => exact ih row
    | bare rec => exact ih _
    | array recs => cases recs with
      | nil => rfl
      | cons rec recs => exact ih _

/-- An empty array has no first record. -/
theorem stateRow_empty (h : .array [] ∈ lines) : stateRow rm lines row = .error .indexError := by
  induction lines generalizing row with
  | nil => cases h
  | cons line lines ih =>
    cases line with
    | blank => exact ih (List.mem_of_ne_of_mem (by simp) h)
    | bare rec => exact ih (List.mem_of_ne_of_mem (by simp) h)
    | array recs => cases recs with
      | nil => rfl
      | cons rec recs => exact ih (List.mem_of_ne_of_mem (by simp) h)

/-- **What the job ends with**: the first record of the last line that is not blank. -/
theorem stateRow_eq (h : .array [] ∉ lines) :
    stateRow rm lines row = .ok ((((lastLine lines).bind fun line => line.recs.head?).map (stripRow rm)).or row) := by
  induction lines using List.reverseRecOn with
  | nil => rfl
  | append_singleton lines line ih =>
    have ih := ih fun hmem => h (List.mem_append_left _ hmem)
    rw [stateRow_append, ih]
    unfold lastLine
    rw [List.filter_append]
    cases line with
    | blank => simp [Line.isFull, Except.bind, stateRow]
    | bare rec => simp [Line.isFull, Except.bind, stateRow, Line.recs]
    | array recs => cases recs with
      | nil => exact absurd (List.mem_append_right _ List.mem_cons_self) h
      | cons rec recs => simp [Line.isFull, Except.bind, stateRow, Line.recs]

/-- The last record of the file is on the last line that is not blank. -/
theorem lastRecord_eq (h : .array [] ∉ lines) :
    lastRecord rm lines = ((lastLine lines).bind fun line => line.recs.getLast?).map (stripRow rm) := by
  unfold lastRecord lastLine
  rw [List.getLast?_map]
  congr 1
  induction lines using List.reverseRecOn with
  | nil => rfl
  | append_singleton lines line ih =>
    have ih := ih fun hmem => h (List.mem_append_left _ hmem)
    rw [List.filter_append, List.flatMap_append]
    cases line with
    | blank => simpa [Line.isFull, Line.recs] using ih
    | bare rec => simp [Line.isFull, Line.recs]
    | array recs => cases recs with
      | nil => exact absurd (List.mem_append_right _ List.mem_cons_self) h
      | cons rec recs => simp [Line.isFull, Line.recs, List.getLast?_append, List.getLast?_cons]

end

/-- The lines on which the two readers agree: none is an empty array, and the first record of the last
line that is not blank is the same as its last one, once they are stripped. -/
def OneState (rm : String → String) (lines : List Line) : Prop :=
  .array [] ∉ lines ∧ ∀ line, lastLine lines = some line →
    line.recs.head?.map (stripRow rm) = line.recs.getLast?.map (stripRow rm)

/-- **When the state job publishes the last record.** For every file: just if no line is an empty array,
and its last line that is not blank begins and ends with the same record. Then, on every client, the
job passes that record to `put_dlt_state`, or writes nothing if there is none. -/
theorem state_job_iff (P : Runtime) (lines : List Line) :
    (stateRow P.customPuaRemove lines none = .ok (lastRecord P.customPuaRemove lines) ↔
      OneState P.customPuaRemove lines) ∧
    (OneState P.customPuaRemove lines → ∀ (Q A : Type) (active : Option String) (cl : JobClient Q A),
      stateJobRun P lines active cl = match lastRecord P.customPuaRemove lines with
        | none => ret (.ok (), cl)
        | some row => cl.putDltState active row) := by
  have hiff : stateRow P.customPuaRemove lines none = .ok (lastRecord P.customPuaRemove lines) ↔
      OneState P.customPuaRemove lines := by
    by_cases hempty : .array [] ∈ lines
    · rw [stateRow_empty hempty]
      refine ⟨fun h => ?_, fun h => absurd hempty h.1⟩
      cases h
    · rw [stateRow_eq hempty, lastRecord_eq hempty, Option.or_none, Except.ok.injEq]
      unfold OneState
      cases hlast : lastLine lines with
      | none => exact ⟨fun _ => ⟨hempty, by simp⟩, fun _ => rfl⟩
      | some line =>
        refine ⟨fun h => ⟨hempty, ?_⟩, fun h => h.2 line rfl⟩
        rintro _ ⟨⟩
        exact h
  refine ⟨hiff, fun h Q A active cl => ?_⟩
  unfold stateJobRun
  rw [hiff.2 h]
  cases lastRecord P.customPuaRemove lines <;> rfl

/-- A state of a pipeline. -/
def stateOf (version : ℤ) : Row := Dict.ofEntries [("version", .int version)]

/-- A client that has just been opened. -/
def openedClient : JobClient Request Answer where
  transport := HttpTransport.transport .plain {}
  config := { datasetName := "shop" }
  schemaName := "shop"

/-- With one state on each line, the last one is published. -/
theorem state_job_iff_lines : stateJobRun .plain [.array [stateOf 1], .blank, .bare (stateOf 2)] (some "shop") openedClient =
    openedClient.putDltState (some "shop") (stateOf 2) := by
  have hone : OneState Runtime.plain.customPuaRemove [.array [stateOf 1], .blank, .bare (stateOf 2)] := by
    refine ⟨by simp, fun line hline => ?_⟩
    cases hline
    rfl
  have hrun := (state_job_iff .plain [.array [stateOf 1], .blank, .bare (stateOf 2)]).2 hone Request Answer (some "shop") openedClient
  rw [show lastRecord Runtime.plain.customPuaRemove [.array [stateOf 1], .blank, .bare (stateOf 2)] =
    some (stateOf 2) by decide] at hrun
  exact hrun

/-- **Of two states on one line, the older is published.** -/
theorem first_state_published :
    ¬ (stateRow Runtime.plain.customPuaRemove [.array [stateOf 1, stateOf 2]] none =
      .ok (lastRecord Runtime.plain.customPuaRemove [.array [stateOf 1, stateOf 2]])) := by
  intro h
  have hrow := Except.ok.inj h
  revert hrow
  decide

end Matterbeam
