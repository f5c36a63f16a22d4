import Mathlib.Data.Rat.Defs
import Mathlib.Algebra.Order.Field.Rat
import Matterbeam.Base.Dict

/-!
# JSON values, as Python sees them

`json.loads` values with the Python operations the code applies to them:
truthiness, hashing (for membership of a set), `==` and `<`, subscription and
`dict.get`. A float is kept as the exact rational it denotes.
-/

namespace Matterbeam

/-- A JSON value. The keys of an object are in file order. -/
inductive Json
  | null
  | bool (b : Bool)
  | int (n : ℤ)
  | float (q : ℚ)
  | str (s : String)
  | arr (xs : List Json)
  | obj (kvs : List (String × Json))

/-- A decoded JSON object: a Python `dict` with string keys. -/
abbrev Row := Dict String Json

namespace Json

mutual
/-- Equality of JSON values is decidable. -/
def decEq : (a b : Json) → Decidable (a = b)
  | null, null => isTrue rfl
  | bool a, bool b => if h : a = b then isTrue (h ▸ rfl) else isFalse fun e => h (by injection e)
  | int a, int b => if h : a = b then isTrue (h ▸ rfl) else isFalse fun e => h (by injection e)
  | float a, float b => if h : a = b then isTrue (h ▸ rfl) else isFalse fun e => h (by injection e)
  | str a, str b => if h : a = b then isTrue (h ▸ rfl) else isFalse fun e => h (by injection e)
  | arr a, arr b => match decEqList a b with
    | isTrue h => isTrue (h ▸ rfl)
    | isFalse h => isFalse fun e => h (by injection e)
  | obj a, obj b => match decEqObj a b with
    | isTrue h => isTrue (h ▸ rfl)
    | isFalse h => isFalse fun e => h (by injection e)
  | null, bool _ | null, int _ | null, float _ | null, str _ | null, arr _ | null, obj _
  | bool _, null | bool _, int _ | bool _, float _ | bool _, str _ | bool _, arr _ | bool _, obj _
  | int _, null | int _, bool _ | int _, float _ | int _, str _ | int _, arr _ | int _, obj _
  | float _, null | float _, bool _ | float _, int _ | float _, str _ | float _, arr _ | float _, obj _
  | str _, null | str _, bool _ | str _, int _ | str _, float _ | str _, arr _ | str _, obj _
  | arr _, null | arr _, bool _ | arr _, int _ | arr _, float _ | arr _, str _ | arr _, obj _
  | obj _, null | obj _, bool _ | obj _, int _ | obj _, float _ | obj _, str _ | obj _, arr _ =>
    isFalse nofun

/-- Equality of lists of JSON values is decidable. -/
def decEqList : (a b : List Json) → Decidable (a = b)
  | [], [] => isTrue rfl
  | [], _ :: _ => isFalse nofun
  | _ :: _, [] => isFalse nofun
  | a :: as, b :: bs => match decEq a b, decEqList as bs with
    | isTrue h, isTrue h' => isTrue (h ▸ h' ▸ rfl)
    | isFalse h, _ => isFalse fun e => h (by injection e)
    | _, isFalse h => isFalse fun e => h (by injection e)

/-- Equality of lists of object entries is decidable. -/
def decEqObj : (a b : List (String × Json)) → Decidable (a = b)
  | [], [] => isTrue rfl
  | [], _ :: _ => isFalse nofun
  | _ :: _, [] => isFalse nofun
  | (k, a) :: as, (l, b) :: bs => match decEq a b, decEqObj as bs with
    | isTrue h, isTrue h' => if hk : k = l then isTrue (hk ▸ h ▸ h' ▸ rfl) else
        isFalse fun e => hk (by injection e with e; injection e)
    | isFalse h, _ => isFalse fun e => h (by injection e with e; injection e)
    | _, isFalse h => isFalse fun e => h (by injection e)
end

instance : DecidableEq Json := decEq

/-! ## Truthiness and hashing -/

/-- Python's `bool(v)`. -/
def truthy : Json → Bool
  | null => false
  | bool b => b
  | int n => n ≠ 0
  | float q => q ≠ 0
  | str s => s ≠ ""
  | arr xs => !xs.isEmpty
  | obj kvs => !kvs.isEmpty

@[simp] theorem truthy_null : null.truthy = false := rfl

@[simp] theorem truthy_bool (b : Bool) : (bool b).truthy = b := rfl

/-- The number a JSON number or boolean denotes. -/
def num? : Json → Option ℚ
  | bool b => some (if b then 1 else 0)
  | int n => some n
  | float q => some q
  | _ => none

/-- What a Python set compares: `1`, `1.0` and `True` are one element. -/
inductive HashKey
  | null
  | num (q : ℚ)
  | str (s : String)
  deriving DecidableEq

/-- The element `v` is in a Python set; `none` when `v` is unhashable (a list or a dict). -/
def hash? : Json → Option HashKey
  | null => some .null
  | bool b => some (.num (if b then 1 else 0))
  | int n => some (.num n)
  | float q => some (.num q)
  | str s => some (.str s)
  | arr _ => none
  | obj _ => none

/-! ## Comparison -/

mutual
/-- Python's `a == b`. -/
def pyEq : Json → Json → Bool
  | null, null => true
  | str a, str b => a = b
  | arr a, arr b => pyEqList a b
  | obj a, obj b => a.length = b.length && pyEqObj a b
  | a, b => match num? a, num? b with
    | some p, some q => p = q
    | _, _ => false

/-- Python's `==` on lists. -/
def pyEqList : List Json → List Json → Bool
  | [], [] => true
  | a :: as, b :: bs => pyEq a b && pyEqList as bs
  | _, _ => false

/-- Every entry of the first dict is in the second. -/
def pyEqObj : List (String × Json) → List (String × Json) → Bool
  | [], _ => true
  | (k, a) :: as, bs => (match bs.lookup k with
    | some b => pyEq a b
    | none => false) && pyEqObj as bs
end

mutual
/-- Python's `a < b`; `none` is a `TypeError`. -/
def pyLt : Json → Json → Option Bool
  | str a, str b => some (a < b)
  | arr a, arr b => pyLtList a b
  | a, b => match num? a, num? b with
    | some p, some q => some (p < q)
    | _, _ => none

/-- Python's `<` on lists: the first unequal elements decide, then the lengths. -/
def pyLtList : List Json → List Json → Option Bool
  | [], [] => some false
  | [], _ :: _ => some true
  | _ :: _, [] => some false
  | a :: as, b :: bs => if pyEq a b then pyLtList as bs else pyLt a b
end

/-- Python's `a <= b`, for values `<` orders totally. -/
def pyLe (a b : Json) : Option Bool := (pyLt b a).map not

end Json

/-! ## Python errors -/

/-- The exceptions the code raises or lets through. -/
inductive PyError
  | keyError (key : String)
  | typeError
  | attributeError
  | valueError
  | indexError
  | connectionError
  /-- `envelope.ScdRefused`, a `DestinationTerminalException`. -/
  | scdRefused (msg : String)
  /-- `transport.Conflict`. -/
  | conflict (reason : Json) (detail : String)
  | destinationTerminal (msg : String)
  | destinationTransient (msg : String)
  deriving DecidableEq

/-- `v[k]` with a string key. -/
def Json.item : Json → String → Except PyError Json
  | .obj kvs, k => match kvs.lookup k with
    | some v => .ok v
    | none => .error (.keyError k)
  | _, _ => .error .typeError

/-- `v.get(k)`. -/
def Json.get : Json → String → Except PyError Json
  | .obj kvs, k => .ok ((kvs.lookup k).getD .null)
  | _, _ => .error .attributeError

/-- `row[k]`. -/
def Row.item (row : Row) (k : String) : Except PyError Json :=
  match row.get? k with
  | some v => .ok v
  | none => .error (.keyError k)

/-- `row.get(k)`. -/
def Row.get (row : Row) (k : String) : Json := (row.get? k).getD .null

/-- The JSON object of a row. -/
def Row.toJson (row : Row) : Json := .obj row.entries

example : Json.pyLt (.arr [.int 1, .str "b"]) (.arr [.float 1, .str "c"]) = some true := by decide

end Matterbeam
