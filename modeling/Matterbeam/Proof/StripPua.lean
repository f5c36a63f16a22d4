import Matterbeam.Model.Envelope

/-!
# Stripping undoes marking

A typed-jsonl file writes a typed value as one marker followed by its text. Keys have no markers.

* `dropMarker_marked`, `dropMarker_unmarked`: the marker of a text is dropped, and nothing else.
* `strip_marked`: **what is marked anywhere in a value is stripped**.
-/

namespace Matterbeam

/-- What `custom_pua_remove` makes of a text: the first character is dropped, if it is a marker and
not the only one. -/
def dropMarker (marker : Char → Bool) (s : String) : String :=
  match s.toList with
  | c :: d :: cs => if marker c then String.ofList (d :: cs) else s
  | _ => s

/-- The text begins with a marker. -/
def BeginsMarked (marker : Char → Bool) (s : String) : Prop := ∃ c cs, s.toList = c :: cs ∧ marker c = true

mutual
/-- No text in the value begins with a marker. The keys of objects do not matter. -/
def Unmarked (marker : Char → Bool) : Json → Prop
  | .str s => ¬ BeginsMarked marker s
  | .arr xs => UnmarkedList marker xs
  | .obj kvs => UnmarkedObj marker kvs
  | .null | .bool _ | .int _ | .float _ => True

def UnmarkedList (marker : Char → Bool) : List Json → Prop
  | [] => True
  | v :: vs => Unmarked marker v ∧ UnmarkedList marker vs

def UnmarkedObj (marker : Char → Bool) : List (String × Json) → Prop
  | [] => True
  | (_, v) :: kvs => Unmarked marker v ∧ UnmarkedObj marker kvs
end

mutual
/-- `PuaMarked marker v w`: in `w`, some of the texts of `v` have got a marker in front of them. -/
inductive PuaMarked (marker : Char → Bool) : Json → Json → Prop
  | null : PuaMarked marker .null .null
  | bool (b : Bool) : PuaMarked marker (.bool b) (.bool b)
  | int (n : ℤ) : PuaMarked marker (.int n) (.int n)
  | float (q : ℚ) : PuaMarked marker (.float q) (.float q)
  | left (s : String) : PuaMarked marker (.str s) (.str s)
  | marked (c : Char) (s : String) (hc : marker c = true) (hs : s ≠ "") :
      PuaMarked marker (.str s) (.str (String.singleton c ++ s))
  | arr {vs ws : List Json} (h : PuaMarkedList marker vs ws) : PuaMarked marker (.arr vs) (.arr ws)
  | obj {kvs kws : List (String × Json)} (h : PuaMarkedObj marker kvs kws) : PuaMarked marker (.obj kvs) (.obj kws)

inductive PuaMarkedList (marker : Char → Bool) : List Json → List Json → Prop
  | nil : PuaMarkedList marker [] []
  | cons {v w : Json} {vs ws : List Json} (h : PuaMarked marker v w) (ht : PuaMarkedList marker vs ws) :
      PuaMarkedList marker (v :: vs) (w :: ws)

inductive PuaMarkedObj (marker : Char → Bool) : List (String × Json) → List (String × Json) → Prop
  | nil : PuaMarkedObj marker [] []
  | cons (k : String) {v w : Json} {kvs kws : List (String × Json)} (h : PuaMarked marker v w)
      (ht : PuaMarkedObj marker kvs kws) : PuaMarkedObj marker ((k, v) :: kvs) ((k, w) :: kws)
end

section

variable {marker : Char → Bool}

theorem dropMarker_unmarked {s : String} (h : ¬ BeginsMarked marker s) : dropMarker marker s = s := by
  unfold dropMarker
  split
  · rename_i c d cs hs
    exact if_neg fun hc => h ⟨c, d :: cs, hs, hc⟩
  · rfl

theorem dropMarker_marked {c : Char} {s : String} (hc : marker c = true) (hs : s ≠ "") :
    dropMarker marker (String.singleton c ++ s) = s := by
  have hlist : (String.singleton c ++ s).toList = c :: s.toList := by
    rw [String.toList_append, String.toList_singleton, List.singleton_append]
  unfold dropMarker
  rw [hlist]
  cases hcs : s.toList with
  | nil => exact absurd (String.toList_inj.1 hcs) hs
  | cons d cs =>
    dsimp only
    rw [if_pos hc, ← hcs, String.ofList_toList]

mutual
/-- Over a value: one case for each way of marking it. -/
theorem strip_of_marked {v w : Json} (hm : PuaMarked marker v w) (hv : Unmarked marker v) : stripPua (dropMarker marker) w = v := by
  cases hm with
  | null => rfl
  | bool b => rfl
  | int n => rfl
  | float q => rfl
  | left s => exact congrArg Json.str (dropMarker_unmarked hv)
  | marked c s hc hs => exact congrArg Json.str (dropMarker_marked hc hs)
  | arr h => exact congrArg Json.arr (stripList_of_marked h hv)
  | obj h => exact congrArg Json.obj (stripObj_of_marked h hv)

/-- Over the items of an array. -/
theorem stripList_of_marked {vs ws : List Json} (hm : PuaMarkedList marker vs ws) (hv : UnmarkedList marker vs) :
    stripPuaList (dropMarker marker) ws = vs := by
  cases hm with
  | nil => rfl
  | cons h ht => exact congrArg₂ List.cons (strip_of_marked h hv.1) (stripList_of_marked ht hv.2)

/-- Over the entries of an object. -/
theorem stripObj_of_marked {kvs kws : List (String × Json)} (hm : PuaMarkedObj marker kvs kws) (hv : UnmarkedObj marker kvs) :
    stripPuaObj (dropMarker marker) kws = kvs := by
  cases hm with
  | nil => rfl
  | cons k h ht => exact congrArg₂ (fun v kvs => (k, v) :: kvs) (strip_of_marked h hv.1) (stripObj_of_marked ht hv.2)
end

end

/-- **Stripping undoes marking.** For every value none of whose texts begins with a marker, and every
way of putting one marker in front of some of its texts that are not empty, at any depth. -/
theorem strip_marked (P : Runtime) (marker : Char → Bool) (hrm : ∀ s, P.customPuaRemove s = dropMarker marker s)
    {v w : Json} (hv : Unmarked marker v) (hm : PuaMarked marker v w) : stripPua P.customPuaRemove w = v := by
  rw [show P.customPuaRemove = dropMarker marker from funext hrm]
  exact strip_of_marked hm hv

/-- The marker of decimals. -/
def decimalMarker (c : Char) : Bool := c = '\uf026'

/-- A decimal deep in a record. -/
theorem strip_marked_price :
    stripPua (dropMarker decimalMarker) (.obj [("id", .int 1), ("prices", .arr [.obj [("eur", .str "\uf02612.50")], .str ""])]) =
      .obj [("id", .int 1), ("prices", .arr [.obj [("eur", .str "12.50")], .str ""])] :=
  strip_marked { Runtime.plain with customPuaRemove := dropMarker decimalMarker } decimalMarker (fun _ => rfl)
    (by simp [Unmarked, UnmarkedObj, UnmarkedList, BeginsMarked, decimalMarker])
    (.obj (.cons "id" (.int 1) (.cons "prices"
      (.arr (.cons (.obj (.cons "eur" (.marked '\uf026' "12.50" rfl (by decide)) .nil)) (.cons (.left "") .nil))) .nil)))

end Matterbeam
