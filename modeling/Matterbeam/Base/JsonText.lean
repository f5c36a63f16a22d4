import Mathlib.Data.List.TakeWhile
import Mathlib.Tactic.Common
import Matterbeam.Base.Dict

/-!
# JSON texts

JSON values as texts and bytes, the way Python's `json` writes and reads them: `dumps` with its
default escapes and the compact separators, `loads` with its strict strings, and UTF-8 in between.
A text is a list of code points, surrogates among them. Numbers are opaque tokens.

* `dumps_printable`: what is written is printable ASCII, whatever the strings hold.
* `scanString_quoted`: an escaped string is read back, also one with unpaired surrogates.
* `loads_dumps`: **what is written is read back**, at any depth.
* `encode_dumps`, `loadsBytes_bytesOf`: the same of the bytes, which can always be encoded.
-/

namespace JsonText

/-- The code points of a Python string. -/
abbrev Text := List ℕ

/-- A `bytes` object. -/
abbrev Octets := List UInt8

/-- The text of a literal. -/
def ofString (s : String) : Text := s.toList.map Char.toNat

/-! ## Values -/

/-- A digit, a minus sign, or the first letter of `Infinity` or `NaN`. -/
def startsNumber (c : ℕ) : Bool := c ∈ ofString "-0123456789IN"

/-- The characters of number tokens. -/
def inNumber (c : ℕ) : Bool := c ∈ ofString "-0123456789INfityae+.E"

/-- A number, as it is written. -/
structure Number where
  token : Text
  head : ∃ c ∈ token.head?, startsNumber c = true
  chars : ∀ c ∈ token, inNumber c = true

/-- A JSON value. The entries of an object are in order. -/
inductive Value
  | null
  | bool (b : Bool)
  | number (n : Number)
  | str (s : Text)
  | arr (xs : List Value)
  | obj (kvs : List (Text × Value))

/-- `0xD800` to `0xDBFF`. -/
def isHigh (c : ℕ) : Bool := 0xD800 ≤ c && c ≤ 0xDBFF

/-- `0xDC00` to `0xDFFF`. -/
def isLow (c : ℕ) : Bool := 0xDC00 ≤ c && c ≤ 0xDFFF

/-- The code points are in range, and no high surrogate is directly followed by a low one. -/
def WellPaired : Text → Prop
  | [] => True
  | c :: s => c < 0x110000 ∧ (isHigh c = true → ∀ c' ∈ s.head?, isLow c' = false) ∧ WellPaired s

mutual
/-- The strings are well paired and the keys of an object distinct, at any depth. -/
def Value.WellFormed : Value → Prop
  | .str s => WellPaired s
  | .arr xs => WellFormedList xs
  | .obj kvs => (kvs.map Prod.fst).Nodup ∧ WellFormedEntries kvs
  | _ => True

def WellFormedList : List Value → Prop
  | [] => True
  | x :: xs => x.WellFormed ∧ WellFormedList xs

def WellFormedEntries : List (Text × Value) → Prop
  | [] => True
  | (k, x) :: kvs => WellPaired k ∧ x.WellFormed ∧ WellFormedEntries kvs
end

/-! ## Writing

Characters are given by their codes: `0x22` is the quote, `0x5C` the backslash, `0x2C` the comma,
`0x3A` the colon, `0x5B` and `0x5D` are the brackets, `0x7B` and `0x7D` the braces. -/

/-- A hexadecimal digit, in lower case. -/
def hexDigit (n : ℕ) : ℕ := if n < 10 then 48 + n else 87 + n

/-- Backslash, `u`, and four digits. -/
def unicodeEscape (n : ℕ) : Text :=
  [0x5C, 0x75, hexDigit (n / 4096 % 16), hexDigit (n / 256 % 16), hexDigit (n / 16 % 16), hexDigit (n % 16)]

/-- The letter that stands for a character after a backslash. -/
def shortEscape (c : ℕ) : Option ℕ :=
  if c = 0x22 then some 0x22
  else if c = 0x5C then some 0x5C
  else if c = 8 then some 0x62
  else if c = 9 then some 0x74
  else if c = 10 then some 0x6E
  else if c = 12 then some 0x66
  else if c = 13 then some 0x72
  else none

/-- One character of a string: `ESCAPE_ASCII`. One beyond `0xFFFF` becomes a pair of surrogates. -/
def escape (c : ℕ) : Text :=
  match shortEscape c with
  | some e => [0x5C, e]
  | none =>
    if 0x20 ≤ c ∧ c ≤ 0x7E then [c]
    else if c < 0x10000 then unicodeEscape c
    else unicodeEscape (0xD800 + (c - 0x10000) / 1024) ++ unicodeEscape (0xDC00 + (c - 0x10000) % 1024)

/-- A string, quoted. -/
def quoted (s : Text) : Text := 0x22 :: (s.flatMap escape ++ [0x22])

mutual
/-- `json.dumps(v, separators=(",", ":"))`. -/
def dumps : Value → Text
  | .null => ofString "null"
  | .bool b => ofString (if b then "true" else "false")
  | .number n => n.token
  | .str s => quoted s
  | .arr xs => 0x5B :: ([0x2C].intercalate (dumpsList xs) ++ [0x5D])
  | .obj kvs => 0x7B :: ([0x2C].intercalate (dumpsEntries kvs) ++ [0x7D])

/-- The items of an array. -/
def dumpsList : List Value → List Text
  | [] => []
  | x :: xs => dumps x :: dumpsList xs

/-- The entries of an object. -/
def dumpsEntries : List (Text × Value) → List Text
  | [] => []
  | (k, x) :: kvs => (quoted k ++ 0x3A :: dumps x) :: dumpsEntries kvs
end

/-- `s.encode("utf8")` of a character: a surrogate cannot be encoded. -/
def encodeChar (c : ℕ) : Option Octets :=
  if c < 0x80 then some [UInt8.ofNat c]
  else if c < 0x800 then some [UInt8.ofNat (0xC0 + c / 64), UInt8.ofNat (0x80 + c % 64)]
  else if 0xD800 ≤ c ∧ c ≤ 0xDFFF then none
  else if c < 0x10000 then
    some [UInt8.ofNat (0xE0 + c / 4096), UInt8.ofNat (0x80 + c / 64 % 64), UInt8.ofNat (0x80 + c % 64)]
  else if c < 0x110000 then
    some [UInt8.ofNat (0xF0 + c / 262144), UInt8.ofNat (0x80 + c / 4096 % 64), UInt8.ofNat (0x80 + c / 64 % 64),
      UInt8.ofNat (0x80 + c % 64)]
  else none

/-- `s.encode("utf8")`. -/
def encode : Text → Option Octets
  | [] => some []
  | c :: s => do
    let b ← encodeChar c
    let bs ← encode s
    return b ++ bs

/-! ## Reading -/

/-- `0x20`, tab, newline and carriage return: what JSON takes for whitespace. -/
def isSpace (c : ℕ) : Bool := c = 0x20 || c = 9 || c = 10 || c = 13

/-- The text from its first character that is no whitespace. -/
def skip (s : Text) : Text := s.dropWhile isSpace

/-- The value of a hexadecimal digit. -/
def hexValue (c : ℕ) : Option ℕ :=
  if 48 ≤ c ∧ c ≤ 57 then some (c - 48)
  else if 97 ≤ c ∧ c ≤ 102 then some (c - 87)
  else if 65 ≤ c ∧ c ≤ 70 then some (c - 55)
  else none

/-- `_decode_uXXXX`. -/
def scanHex : Text → Option (ℕ × Text)
  | a :: b :: c :: d :: rest => do
    let a ← hexValue a
    let b ← hexValue b
    let c ← hexValue c
    let d ← hexValue d
    return (4096 * a + 256 * b + 16 * c + d, rest)
  | _ => none

/-- What follows a backslash and a `u`: a high surrogate is joined with a low one that is written
directly after it. -/
def scanUnicode (s : Text) : Option (ℕ × Text) := do
  let (high, rest) ← scanHex s
  if isHigh high ∧ rest.take 2 = [0x5C, 0x75] then
    let (low, rest') ← scanHex (rest.drop 2)
    if isLow low then return (0x10000 + 1024 * (high - 0xD800) + (low - 0xDC00), rest')
    else return (high, rest)
  else return (high, rest)

/-- `BACKSLASH`. -/
def unescape (c : ℕ) : Option ℕ :=
  if c = 0x22 then some 0x22
  else if c = 0x5C then some 0x5C
  else if c = 0x2F then some 0x2F
  else if c = 0x62 then some 8
  else if c = 0x66 then some 12
  else if c = 0x6E then some 10
  else if c = 0x72 then some 13
  else if c = 0x74 then some 9
  else none

/-- What follows a backslash. -/
def scanEscape : Text → Option (ℕ × Text)
  | [] => none
  | c :: rest => if c = 0x75 then scanUnicode rest else (unescape c).map fun c => (c, rest)

/-- `scanstring`, from behind the first quote, with `strict` on: no control characters. -/
def scanString : ℕ → Text → Option (Text × Text)
  | 0, _ => none
  | _ + 1, [] => none
  | fuel + 1, c :: rest =>
    if c = 0x22 then some ([], rest)
    else if c < 0x20 then none
    else do
      let (c, rest) ← if c = 0x5C then scanEscape rest else some (c, rest)
      let (s, rest) ← scanString fuel rest
      return (c :: s, rest)

/-- The rest of the text, if it begins with these characters. -/
def literal (l s : Text) : Option Text := if s.take l.length = l then some (s.drop l.length) else none

/-- The number that the text begins with. -/
def scanNumber : Text → Option (Number × Text)
  | [] => none
  | c :: s =>
    if h : startsNumber c = true ∧ inNumber c = true then
      some (⟨c :: s.takeWhile inNumber, ⟨c, rfl, h.1⟩, fun c' hc' => by
        rcases List.mem_cons.1 hc' with rfl | hc'
        · exact h.2
        · exact List.mem_takeWhile_imp hc'⟩, s.dropWhile inNumber)
    else none

/-- `dict(pairs)`: a later pair wins, in the place of the first. -/
def dict (kvs : List (Text × Value)) : List (Text × Value) := (Dict.ofEntries kvs).entries

mutual
/-- `scan_once`. -/
def scanValue : ℕ → Text → Option (Value × Text)
  | 0, _ => none
  | _ + 1, [] => none
  | fuel + 1, c :: rest =>
    if c = 0x22 then (scanString fuel rest).map fun (s, rest) => (.str s, rest)
    else if c = 0x7B then
      match skip rest with
      | [] => none
      | c :: rest =>
        if c = 0x7D then some (.obj [], rest)
        else (scanEntries fuel (c :: rest)).map fun (kvs, rest) => (.obj (dict kvs), rest)
    else if c = 0x5B then
      match skip rest with
      | [] => none
      | c :: rest =>
        if c = 0x5D then some (.arr [], rest)
        else (scanItems fuel (c :: rest)).map fun (xs, rest) => (.arr xs, rest)
    else if let some rest := literal (ofString "null") (c :: rest) then some (.null, rest)
    else if let some rest := literal (ofString "true") (c :: rest) then some (.bool true, rest)
    else if let some rest := literal (ofString "false") (c :: rest) then some (.bool false, rest)
    else (scanNumber (c :: rest)).map fun (n, rest) => (.number n, rest)

/-- The items of an array, one at least, up to its bracket. -/
def scanItems : ℕ → Text → Option (List Value × Text)
  | 0, _ => none
  | fuel + 1, s => do
    let (x, rest) ← scanValue fuel s
    match skip rest with
    | [] => none
    | c :: rest =>
      if c = 0x5D then some ([x], rest)
      else if c = 0x2C then do
        let (xs, rest) ← scanItems fuel (skip rest)
        return (x :: xs, rest)
      else none

/-- The entries of an object, one at least, up to its brace. -/
def scanEntries : ℕ → Text → Option (List (Text × Value) × Text)
  | fuel + 1, 0x22 :: rest => do
    let (k, rest) ← scanString fuel rest
    match skip rest with
    | 0x3A :: rest => do
      let (x, rest) ← scanValue fuel (skip rest)
      match skip rest with
      | [] => none
      | c :: rest =>
        if c = 0x7D then some ([(k, x)], rest)
        else if c = 0x2C then do
          let (kvs, rest) ← scanEntries fuel (skip rest)
          return ((k, x) :: kvs, rest)
        else none
    | _ => none
  | _, _ => none
end

/-- `json.loads` of a text. A text that begins with a byte-order mark is refused. -/
def loads (s : Text) : Option Value :=
  if s.head? = some 0xFEFF then none
  else do
    let (v, rest) ← scanValue (2 * s.length + 1) (skip s)
    if skip rest = [] then some v else none

/-- `b.decode("utf8", "surrogatepass")`: `need` more bytes of a character are to come, which is
`acc` so far and has to be at least `least`. -/
def decodeFrom (need acc least : ℕ) : Octets → Option Text
  | [] => if need = 0 then some [] else none
  | b :: bs =>
    if need = 0 then
      if b.toNat < 0x80 then (decodeFrom 0 0 0 bs).map (b.toNat :: ·)
      else if 0xC0 ≤ b.toNat ∧ b.toNat < 0xE0 then decodeFrom 1 (b.toNat - 0xC0) 0x80 bs
      else if 0xE0 ≤ b.toNat ∧ b.toNat < 0xF0 then decodeFrom 2 (b.toNat - 0xE0) 0x800 bs
      else if 0xF0 ≤ b.toNat ∧ b.toNat < 0xF8 then decodeFrom 3 (b.toNat - 0xF0) 0x10000 bs
      else none
    else if 0x80 ≤ b.toNat ∧ b.toNat < 0xC0 then
      let acc := 64 * acc + (b.toNat - 0x80)
      if need = 1 then
        if least ≤ acc ∧ acc < 0x110000 then (decodeFrom 0 0 0 bs).map (acc :: ·) else none
      else decodeFrom (need - 1) acc least bs
    else none

/-- `detect_encoding` says UTF-8: there is no byte-order mark, and no zero byte in front. -/
def looksUtf8 (b : Octets) : Bool :=
  b.take 2 ≠ [0xFE, 0xFF] && b.take 2 ≠ [0xFF, 0xFE] && b.take 3 ≠ [0xEF, 0xBB, 0xBF] && 0 ∉ b.take 2

/-- `json.loads` of bytes that are UTF-8. Octets of other encodings are not read here. -/
def loadsBytes (b : Octets) : Option Value :=
  if looksUtf8 b then (decodeFrom 0 0 0 b).bind loads else none

/-! ## What is written is printable ASCII -/

/-- From the blank to the tilde. -/
def Printable (s : Text) : Prop := ∀ c ∈ s, 0x20 ≤ c ∧ c ≤ 0x7E

section

variable {s s' rest : Text} {c : ℕ}

theorem Printable.append (h : Printable s) (h' : Printable s') : Printable (s ++ s') := by
  intro c hc
  exact (List.mem_append.1 hc).elim (h c) (h' c)

theorem Printable.cons (hc : 0x20 ≤ c ∧ c ≤ 0x7E) (h : Printable s) : Printable (c :: s) :=
  List.forall_mem_cons.2 ⟨hc, h⟩

theorem printable_nil : Printable [] := by simp [Printable]

/-- A list of parts, with a separator between them. -/
theorem intercalate_cons_cons {α : Type*} (sep x y : List α) (ys : List (List α)) :
    sep.intercalate (x :: y :: ys) = x ++ (sep ++ sep.intercalate (y :: ys)) := by
  simp [List.intercalate, List.intersperse]

@[simp] theorem intercalate_singleton {α : Type*} (sep x : List α) : sep.intercalate [x] = x := by
  simp [List.intercalate]

theorem printable_intercalate {parts : List Text} (h : ∀ part ∈ parts, Printable part) :
    Printable ([0x2C].intercalate parts) := by
  induction parts with
  | nil => exact printable_nil
  | cons part parts ih =>
    obtain ⟨hpart, hparts⟩ := List.forall_mem_cons.1 h
    cases parts with
    | nil =>
      rw [intercalate_singleton]
      exact hpart
    | cons part' parts =>
      rw [intercalate_cons_cons]
      exact hpart.append ((Printable.cons (by omega) printable_nil).append (ih hparts))

theorem hexDigit_printable {n : ℕ} (h : n < 16) : 0x20 ≤ hexDigit n ∧ hexDigit n ≤ 0x7E := by
  unfold hexDigit
  split <;> omega

theorem unicodeEscape_printable (n : ℕ) : Printable (unicodeEscape n) := by
  intro c hc
  have hmod : ∀ m, 0x20 ≤ hexDigit (m % 16) ∧ hexDigit (m % 16) ≤ 0x7E := fun m => hexDigit_printable (by omega)
  simp only [unicodeEscape, List.mem_cons, List.not_mem_nil, or_false] at hc
  rcases hc with rfl | rfl | rfl | rfl | rfl | rfl
  · omega
  · omega
  all_goals exact hmod _

/-- The letters of the short escapes, and what they stand for. -/
theorem shortEscape_cases {e : ℕ} (h : shortEscape c = some e) :
    (c, e) ∈ [(0x22, 0x22), (0x5C, 0x5C), (8, 0x62), (9, 0x74), (10, 0x6E), (12, 0x66), (13, 0x72)] := by
  unfold shortEscape at h
  split_ifs at h <;> cases h <;> subst c <;> decide

/-- **Whatever character is escaped**, what is written is printable. -/
theorem escape_printable (c : ℕ) : Printable (escape c) := by
  unfold escape
  cases he : shortEscape c with
  | some e =>
    have hcases := shortEscape_cases he
    have hle : 0x20 ≤ e ∧ e ≤ 0x7E := by
      simp only [List.mem_cons, Prod.mk.injEq, List.not_mem_nil, or_false] at hcases
      omega
    exact .cons (by omega) (.cons hle printable_nil)
  | none =>
    dsimp only
    split_ifs with hplain hsmall
    · exact .cons hplain printable_nil
    · exact unicodeEscape_printable c
    · exact (unicodeEscape_printable _).append (unicodeEscape_printable _)

theorem quoted_printable (s : Text) : Printable (quoted s) := by
  refine .cons (by omega) (.append (fun c hc => ?_) (.cons (by omega) printable_nil))
  obtain ⟨c', -, hc'⟩ := List.mem_flatMap.1 hc
  exact escape_printable c' c hc'

theorem inNumber_printable (h : inNumber c = true) : 0x20 ≤ c ∧ c ≤ 0x7E := by
  have hall : ∀ c ∈ ofString "-0123456789INfityae+.E", 0x20 ≤ c ∧ c ≤ 0x7E := by decide
  exact hall c (of_decide_eq_true h)

end

mutual
/-- **What is written is printable ASCII**: no newline, and nothing that cannot be encoded. -/
theorem dumps_printable : (v : Value) → Printable (dumps v)
  | .null => by
    unfold dumps
    show ∀ c ∈ ofString "null", _
    decide
  | .bool b => by
    unfold dumps
    show ∀ c ∈ ofString _, _
    cases b <;> decide
  | .number n => fun c hc => by
    unfold dumps at hc
    exact inNumber_printable (n.chars c hc)
  | .str s => by
    unfold dumps
    exact quoted_printable s
  | .arr xs => by
    unfold dumps
    exact .cons (by omega) ((printable_intercalate (dumpsList_printable xs)).append (.cons (by omega) printable_nil))
  | .obj kvs => by
    unfold dumps
    exact .cons (by omega) ((printable_intercalate (dumpsEntries_printable kvs)).append (.cons (by omega) printable_nil))

theorem dumpsList_printable : (xs : List Value) → ∀ part ∈ dumpsList xs, Printable part
  | [] => by
    unfold dumpsList
    simp
  | x :: xs => by
    unfold dumpsList
    exact List.forall_mem_cons.2 ⟨dumps_printable x, dumpsList_printable xs⟩

theorem dumpsEntries_printable : (kvs : List (Text × Value)) → ∀ part ∈ dumpsEntries kvs, Printable part
  | [] => by
    unfold dumpsEntries
    simp
  | (k, x) :: kvs => by
    unfold dumpsEntries
    exact List.forall_mem_cons.2 ⟨(quoted_printable k).append (.cons (by omega) (dumps_printable x)),
      dumpsEntries_printable kvs⟩
end

/-! ## Strings are read back -/

section

variable {s rest : Text} {c : ℕ}

theorem hexValue_hexDigit {n : ℕ} (h : n < 16) : hexValue (hexDigit n) = some n := by
  have hall : ∀ n < 16, hexValue (hexDigit n) = some n := by decide
  exact hall n h

/-- The four digits of an escape. -/
theorem scanHex_unicodeEscape {n : ℕ} (h : n < 0x10000) (rest : Text) :
    scanHex ((unicodeEscape n).drop 2 ++ rest) = some (n, rest) := by
  have hmod : ∀ m, hexValue (hexDigit (m % 16)) = some (m % 16) := fun m => hexValue_hexDigit (by omega)
  have hsum : 4096 * (n / 4096 % 16) + 256 * (n / 256 % 16) + 16 * (n / 16 % 16) + n % 16 = n := by omega
  simp only [unicodeEscape, List.drop_succ_cons, List.drop_zero, List.cons_append, List.nil_append, scanHex, hmod,
    Option.bind_eq_bind, Option.bind_some, hsum]
  rfl

/-- If the text begins like an escape, it begins with one that is no low surrogate. -/
def NoLowNext (s : Text) : Prop :=
  s.take 2 = [0x5C, 0x75] → ∃ m s', m < 0x10000 ∧ isLow m = false ∧ s = unicodeEscape m ++ s'

theorem scanUnicode_single {n : ℕ} (h : n < 0x10000) (hrest : isHigh n = true → NoLowNext rest) :
    scanUnicode ((unicodeEscape n).drop 2 ++ rest) = some (n, rest) := by
  unfold scanUnicode
  simp only [scanHex_unicodeEscape h, Option.bind_eq_bind, Option.bind_some]
  split_ifs with hpair
  · -- another escape follows, but it is not the other half of a pair
    obtain ⟨m, s', hm, hlow, rfl⟩ := hrest hpair.1 hpair.2
    have hdrop : (unicodeEscape m ++ s').drop 2 = (unicodeEscape m).drop 2 ++ s' := rfl
    simp only [hdrop, scanHex_unicodeEscape hm, Option.bind_some, hlow]
    rfl
  · rfl

/-- A pair of surrogates is joined. -/
theorem scanUnicode_pair {n : ℕ} (h : n < 0x100000) (rest : Text) :
    scanUnicode ((unicodeEscape (0xD800 + n / 1024)).drop 2 ++ (unicodeEscape (0xDC00 + n % 1024) ++ rest)) =
      some (0x10000 + n, rest) := by
  have hhigh : isHigh (0xD800 + n / 1024) = true := by
    unfold isHigh
    rw [Bool.and_eq_true, decide_eq_true_eq, decide_eq_true_eq]
    omega
  have hlow : isLow (0xDC00 + n % 1024) = true := by
    unfold isLow
    rw [Bool.and_eq_true, decide_eq_true_eq, decide_eq_true_eq]
    omega
  have htake : (unicodeEscape (0xDC00 + n % 1024) ++ rest).take 2 = [0x5C, 0x75] := rfl
  have hdrop : (unicodeEscape (0xDC00 + n % 1024) ++ rest).drop 2 = (unicodeEscape (0xDC00 + n % 1024)).drop 2 ++ rest := rfl
  have hsum : 0x10000 + 1024 * (0xD800 + n / 1024 - 0xD800) + (0xDC00 + n % 1024 - 0xDC00) = 0x10000 + n := by omega
  unfold scanUnicode
  simp only [scanHex_unicodeEscape (show 0xD800 + n / 1024 < 0x10000 by omega), Option.bind_eq_bind, Option.bind_some,
    hhigh, htake, hdrop, scanHex_unicodeEscape (show 0xDC00 + n % 1024 < 0x10000 by omega), hlow, hsum, and_self, if_true]
  rfl

/-- The next character of a string does not look like the other half of a pair. -/
theorem noLowNext_escape (hc : c < 0x110000) (hlow : isLow c = false) (rest : Text) : NoLowNext (escape c ++ rest) := by
  intro htake
  unfold escape at htake ⊢
  cases he : shortEscape c with
  | some e =>
    -- a short escape has another letter
    have hcases := shortEscape_cases he
    rw [he] at htake
    obtain rfl : e = 0x75 := by simpa using htake
    simp at hcases
  | none =>
    rw [he] at htake
    dsimp only at htake ⊢
    split_ifs at htake ⊢ with hplain hsmall
    · -- a plain character is no backslash
      obtain ⟨rfl, -⟩ : c = 0x5C ∧ rest.take 1 = [0x75] := by simpa using htake
      cases he
    · exact ⟨c, rest, hsmall, hlow, rfl⟩
    · refine ⟨0xD800 + (c - 0x10000) / 1024, unicodeEscape (0xDC00 + (c - 0x10000) % 1024) ++ rest, by omega, ?_,
        List.append_assoc _ _ _⟩
      unfold isLow
      rw [Bool.and_eq_false_iff, decide_eq_false_iff_not, decide_eq_false_iff_not]
      omega

/-- The rest of a string, up to its quote, does not look so either. -/
theorem noLowNext_string (hs : WellPaired s) (hhead : ∀ c ∈ s.head?, isLow c = false) (rest : Text) :
    NoLowNext (s.flatMap escape ++ 0x22 :: rest) := by
  cases s with
  | nil =>
    intro htake
    simp at htake
  | cons c s =>
    rw [List.flatMap_cons, List.append_assoc]
    exact noLowNext_escape hs.1 (hhead c rfl) _

/-- The character that a short escape stands for. -/
theorem scanEscape_short {e : ℕ} (h : shortEscape c = some e) (rest : Text) : scanEscape (e :: rest) = some (c, rest) := by
  have hcases := shortEscape_cases h
  simp only [List.mem_cons, Prod.mk.injEq, List.not_mem_nil, or_false] at hcases
  rcases hcases with ⟨rfl, rfl⟩ | ⟨rfl, rfl⟩ | ⟨rfl, rfl⟩ | ⟨rfl, rfl⟩ | ⟨rfl, rfl⟩ | ⟨rfl, rfl⟩ | ⟨rfl, rfl⟩ <;> rfl

/-- An escape that is read as a character. -/
theorem scanString_escaped {fuel : ℕ} {s s' : Text} (h : scanEscape s = some (c, s')) :
    scanString (fuel + 1) (0x5C :: s) = (scanString fuel s').map fun (t, rest) => (c :: t, rest) := by
  have hslash : ¬ (0x5C : ℕ) = 0x22 := by decide
  have hcontrol : ¬ (0x5C : ℕ) < 0x20 := by decide
  simp only [scanString, if_neg hslash, if_neg hcontrol, if_true, h, Option.bind_eq_bind, Option.bind_some]
  cases scanString fuel s' <;> rfl

/-- **One character is read back**, whatever it is. -/
theorem scanString_escape (fuel : ℕ) (hc : c < 0x110000) (hrest : isHigh c = true → NoLowNext rest) :
    scanString (fuel + 1) (escape c ++ rest) = (scanString fuel rest).map fun (t, rest) => (c :: t, rest) := by
  unfold escape
  cases he : shortEscape c with
  | some e => exact scanString_escaped (scanEscape_short he rest)
  | none =>
    dsimp only
    split_ifs with hplain hsmall
    · -- neither a quote nor a backslash, as these have short escapes
      have hquote : c ≠ 0x22 := by
        rintro rfl
        cases he
      have hslash : c ≠ 0x5C := by
        rintro rfl
        cases he
      have hcontrol : ¬ c < 0x20 := by omega
      simp only [List.cons_append, List.nil_append, scanString, if_neg hquote, if_neg hslash, if_neg hcontrol,
        Option.bind_eq_bind, Option.bind_some]
      cases scanString fuel rest <;> rfl
    · exact scanString_escaped (scanUnicode_single hsmall hrest)
    · rw [List.append_assoc]
      have hjoined : 0x10000 + (c - 0x10000) = c := by omega
      refine scanString_escaped ((scanUnicode_pair (by omega) rest).trans ?_)
      rw [hjoined]

/-- **A string is read back** from behind its first quote. -/
theorem scanString_quoted (hs : WellPaired s) {fuel : ℕ} (hfuel : s.length < fuel) (rest : Text) :
    scanString fuel (s.flatMap escape ++ 0x22 :: rest) = some (s, rest) := by
  induction s generalizing fuel with
  | nil =>
    obtain ⟨fuel, rfl⟩ := Nat.exists_eq_succ_of_ne_zero (by omega : fuel ≠ 0)
    rfl
  | cons c s ih =>
    obtain ⟨fuel, rfl⟩ := Nat.exists_eq_succ_of_ne_zero (by omega : fuel ≠ 0)
    obtain ⟨hc, hpair, hs⟩ := hs
    rw [List.flatMap_cons, List.append_assoc]
    have hstep := scanString_escape fuel hc fun hhigh => noLowNext_string hs (hpair hhigh) rest
    rw [Nat.succ_eq_add_one, hstep, ih hs (by simpa using hfuel)]
    rfl

end

/-! ## Values are read back -/

section

variable {s rest : Text} {c : ℕ}

/-- The text does not go on with a number. -/
def NoNumberNext (s : Text) : Prop := ∀ c ∈ s.head?, inNumber c = false

theorem noNumberNext_cons (h : inNumber c = false) (s : Text) : NoNumberNext (c :: s) := by
  rintro c' hc
  cases hc
  exact h

theorem skip_cons (h : isSpace c = false) (s : Text) : skip (c :: s) = c :: s := by
  unfold skip
  rw [List.dropWhile_cons_of_neg (by simpa using h)]

theorem literal_none {c' : ℕ} {l : Text} (h : c ≠ c') (s : Text) : literal (c' :: l) (c :: s) = none := by
  unfold literal
  rw [List.length_cons, List.take_succ_cons]
  exact if_neg fun he => h (List.cons.inj he).1

/-- **A number is read back**, if no other one follows it directly. -/
theorem scanNumber_token (n : Number) (hrest : NoNumberNext rest) : scanNumber (n.token ++ rest) = some (n, rest) := by
  obtain ⟨token, ⟨c, hc, hstarts⟩, hchars⟩ := n
  cases token with
  | nil => cases hc
  | cons c' s =>
    obtain rfl : c' = c := Option.some.inj hc
    obtain ⟨hin, hs⟩ := List.forall_mem_cons.1 hchars
    have htake : (s ++ rest).takeWhile inNumber = s := by
      rw [List.takeWhile_append_of_pos hs]
      cases rest with
      | nil => simp
      | cons c rest => rw [List.takeWhile_cons_of_neg (by simp [hrest c rfl]), List.append_nil]
    have hdrop : (s ++ rest).dropWhile inNumber = rest := by
      rw [List.dropWhile_append_of_pos hs]
      cases rest with
      | nil => rfl
      | cons c rest => exact List.dropWhile_cons_of_neg (by simp [hrest c rfl])
    simp only [List.cons_append, scanNumber, hstarts, hin, and_self, dif_pos, htake, hdrop]

/-- A number token is none of the other values. -/
theorem startsNumber_ne (h : startsNumber c = true) :
    c ≠ 0x22 ∧ c ≠ 0x7B ∧ c ≠ 0x5B ∧ c ≠ 0x6E ∧ c ≠ 0x74 ∧ c ≠ 0x66 ∧ c ≠ 0x5D ∧ isSpace c = false := by
  have hall : ∀ c ∈ ofString "-0123456789IN",
      c ≠ 0x22 ∧ c ≠ 0x7B ∧ c ≠ 0x5B ∧ c ≠ 0x6E ∧ c ≠ 0x74 ∧ c ≠ 0x66 ∧ c ≠ 0x5D ∧ isSpace c = false := by decide
  exact hall c (of_decide_eq_true h)

/-- What is written begins with no whitespace, and does not close an array. -/
theorem dumps_head (v : Value) : ∃ c s, dumps v = c :: s ∧ isSpace c = false ∧ c ≠ 0x5D := by
  cases v with
  | null => exact ⟨_, _, rfl, by decide, by decide⟩
  | bool b => cases b <;> exact ⟨_, _, rfl, by decide, by decide⟩
  | number n =>
    obtain ⟨token, ⟨c, hc, hstarts⟩, hchars⟩ := n
    cases token with
    | nil => cases hc
    | cons c' s =>
      obtain rfl : c' = c := Option.some.inj hc
      obtain ⟨-, -, -, -, -, -, hbracket, hspace⟩ := startsNumber_ne hstarts
      exact ⟨c', s, by unfold dumps; rfl, hspace, hbracket⟩
  | str s => exact ⟨0x22, _, by unfold dumps; rfl, by decide, by decide⟩
  | arr xs => exact ⟨0x5B, _, by unfold dumps; rfl, by decide, by decide⟩
  | obj kvs => exact ⟨0x7B, _, by unfold dumps; rfl, by decide, by decide⟩

theorem skip_dumps (v : Value) (rest : Text) : skip (dumps v ++ rest) = dumps v ++ rest := by
  obtain ⟨c, s, hhead, hspace, -⟩ := dumps_head v
  rw [hhead]
  exact skip_cons hspace _

/-- The items of an array begin like its first one. -/
theorem items_head (x : Value) (xs : List Value) : ∃ c s, [0x2C].intercalate (dumpsList (x :: xs)) = c :: s ∧
    isSpace c = false ∧ c ≠ 0x5D := by
  obtain ⟨c, s, hhead, hspace, hbracket⟩ := dumps_head x
  unfold dumpsList
  rw [hhead]
  cases xs with
  | nil =>
    unfold dumpsList
    exact ⟨c, s, intercalate_singleton _ _, hspace, hbracket⟩
  | cons y ys =>
    unfold dumpsList
    exact ⟨c, _, intercalate_cons_cons _ _ _ _, hspace, hbracket⟩

theorem items_cons (x y : Value) (ys : List Value) : [0x2C].intercalate (dumpsList (x :: y :: ys)) =
    dumps x ++ 0x2C :: [0x2C].intercalate (dumpsList (y :: ys)) :=
  intercalate_cons_cons [0x2C] (dumps x) (dumps y) (dumpsList ys)

/-- The entries of an object begin with a quote. -/
theorem entries_head (k : Text) (x : Value) (kvs : List (Text × Value)) :
    ∃ s, [0x2C].intercalate (dumpsEntries ((k, x) :: kvs)) = 0x22 :: s := by
  cases kvs with
  | nil =>
    unfold dumpsEntries dumpsEntries
    exact ⟨_, intercalate_singleton _ _⟩
  | cons e kvs =>
    unfold dumpsEntries dumpsEntries
    exact ⟨_, intercalate_cons_cons _ _ _ _⟩

/-- One entry, and the others. -/
theorem entries_cons (k : Text) (x : Value) (e : Text × Value) (kvs : List (Text × Value)) :
    [0x2C].intercalate (dumpsEntries ((k, x) :: e :: kvs)) =
      quoted k ++ 0x3A :: (dumps x ++ 0x2C :: [0x2C].intercalate (dumpsEntries (e :: kvs))) := by
  have hcons : [0x2C].intercalate (dumpsEntries ((k, x) :: e :: kvs)) = (quoted k ++ 0x3A :: dumps x) ++
      ([0x2C] ++ [0x2C].intercalate (dumpsEntries (e :: kvs))) := intercalate_cons_cons _ _ _ _
  rw [hcons, List.append_assoc]
  rfl

theorem length_le_flatMap_escape (s : Text) : s.length ≤ (s.flatMap escape).length := by
  induction s with
  | nil => rfl
  | cons c s ih =>
    have hpos : 0 < (escape c).length := by
      unfold escape unicodeEscape
      split
      · simp
      · split_ifs <;> simp
    rw [List.flatMap_cons, List.length_append, List.length_cons]
    omega

end

/-- **An entry is read back**, if its value is. -/
theorem scanEntries_entry {fuel : ℕ} {k rest : Text} {x : Value} (hk : WellPaired k) (hfuel : (quoted k).length < fuel)
    (hx : scanValue fuel (dumps x ++ rest) = some (x, rest)) :
    scanEntries (fuel + 1) (quoted k ++ 0x3A :: (dumps x ++ rest)) =
      match skip rest with
      | [] => none
      | c :: rest =>
        if c = 0x7D then some ([(k, x)], rest)
        else if c = 0x2C then do
          let (kvs, rest) ← scanEntries fuel (skip rest)
          return ((k, x) :: kvs, rest)
        else none := by
  unfold quoted at hfuel ⊢
  have hlen := length_le_flatMap_escape k
  rw [List.length_cons, List.length_append, List.length_singleton] at hfuel
  have hkey := scanString_quoted hk (by omega : k.length < fuel) (0x3A :: (dumps x ++ rest))
  have hcolon : skip (0x3A :: (dumps x ++ rest)) = 0x3A :: (dumps x ++ rest) := skip_cons (by decide) _
  rw [List.cons_append, List.append_assoc, List.cons_append, List.nil_append]
  simp only [scanEntries, hkey, Option.bind_eq_bind, Option.bind_some, hcolon, skip_dumps, hx]

mutual
/-- **A value is read back**, at any depth, if no number follows it directly. -/
theorem scanValue_dumps : (v : Value) → v.WellFormed → ∀ (fuel : ℕ) (rest : Text), (dumps v).length < fuel →
    NoNumberNext rest → scanValue fuel (dumps v ++ rest) = some (v, rest)
  | .null, _, fuel, rest, hfuel, _ => by
    obtain ⟨fuel, rfl⟩ := Nat.exists_eq_succ_of_ne_zero (by omega : fuel ≠ 0)
    unfold dumps
    rfl
  | .bool b, _, fuel, rest, hfuel, _ => by
    obtain ⟨fuel, rfl⟩ := Nat.exists_eq_succ_of_ne_zero (by omega : fuel ≠ 0)
    unfold dumps
    cases b <;> rfl
  | .number n, _, fuel, rest, hfuel, hrest => by
    obtain ⟨fuel, rfl⟩ := Nat.exists_eq_succ_of_ne_zero (by omega : fuel ≠ 0)
    have hscan := scanNumber_token n hrest
    unfold dumps
    obtain ⟨token, ⟨c, hc, hstarts⟩, hchars⟩ := n
    cases token with
    | nil => cases hc
    | cons c' s =>
      obtain rfl : c' = c := Option.some.inj hc
      obtain ⟨hquote, hbrace, hbracket, hn, ht, hf, -, -⟩ := startsNumber_ne hstarts
      rw [List.cons_append] at hscan ⊢
      have hnull : literal (ofString "null") (c' :: (s ++ rest)) = none := literal_none hn _
      have htrue : literal (ofString "true") (c' :: (s ++ rest)) = none := literal_none ht _
      have hfalse : literal (ofString "false") (c' :: (s ++ rest)) = none := literal_none hf _
      simp only [scanValue, if_neg hquote, if_neg hbrace, if_neg hbracket, hnull, htrue, hfalse, hscan]
      rfl
  | .str s, hs, fuel, rest, hfuel, _ => by
    obtain ⟨fuel, rfl⟩ := Nat.exists_eq_succ_of_ne_zero (by omega : fuel ≠ 0)
    unfold dumps quoted at hfuel ⊢
    have hlen := length_le_flatMap_escape s
    rw [List.length_cons, List.length_append, List.length_singleton] at hfuel
    have hscan := scanString_quoted hs (by omega : s.length < fuel) rest
    rw [List.cons_append, List.append_assoc, List.cons_append, List.nil_append]
    simp only [scanValue, if_true, hscan]
    rfl
  | .arr xs, hs, fuel, rest, hfuel, _ => by
    obtain ⟨fuel, rfl⟩ := Nat.exists_eq_succ_of_ne_zero (by omega : fuel ≠ 0)
    unfold dumps at hfuel ⊢
    rw [List.length_cons, List.length_append, List.length_singleton] at hfuel
    rw [List.cons_append, List.append_assoc, List.cons_append, List.nil_append]
    cases xs with
    | nil => rfl
    | cons x xs =>
      obtain ⟨c, s, hhead, hspace, hbracket⟩ := items_head x xs
      have hscan := scanItems_dumps (x :: xs) (List.cons_ne_nil _ _) hs fuel rest (by omega)
      have hquote : ¬ (0x5B : ℕ) = 0x22 := by decide
      have hbrace : ¬ (0x5B : ℕ) = 0x7B := by decide
      rw [hhead, List.cons_append] at hscan ⊢
      simp only [scanValue, if_neg hquote, if_neg hbrace, if_true, skip_cons hspace, if_neg hbracket, hscan]
      rfl
  | .obj kvs, hs, fuel, rest, hfuel, _ => by
    obtain ⟨fuel, rfl⟩ := Nat.exists_eq_succ_of_ne_zero (by omega : fuel ≠ 0)
    obtain ⟨hkeys, hs⟩ := hs
    unfold dumps at hfuel ⊢
    rw [List.length_cons, List.length_append, List.length_singleton] at hfuel
    rw [List.cons_append, List.append_assoc, List.cons_append, List.nil_append]
    cases kvs with
    | nil => rfl
    | cons e kvs =>
      obtain ⟨k, x⟩ := e
      obtain ⟨s, hhead⟩ := entries_head k x kvs
      have hscan := scanEntries_dumps ((k, x) :: kvs) (List.cons_ne_nil _ _) hs fuel rest (by omega)
      have hquote : ¬ (0x7B : ℕ) = 0x22 := by decide
      have hbrace : ¬ (0x22 : ℕ) = 0x7D := by decide
      rw [hhead, List.cons_append] at hscan ⊢
      have hdict : dict ((k, x) :: kvs) = (k, x) :: kvs := Dict.ofEntries_entries hkeys
      have hskip : skip (0x22 :: (s ++ 0x7D :: rest)) = 0x22 :: (s ++ 0x7D :: rest) := skip_cons (by decide) _
      simp only [scanValue, if_neg hquote, if_true, hskip, if_neg hbrace, hscan, Option.map_some, hdict]

/-- The items of an array are read back, up to its bracket. -/
theorem scanItems_dumps : (xs : List Value) → xs ≠ [] → WellFormedList xs → ∀ (fuel : ℕ) (rest : Text),
    ([0x2C].intercalate (dumpsList xs)).length + 1 < fuel →
    scanItems fuel ([0x2C].intercalate (dumpsList xs) ++ 0x5D :: rest) = some (xs, rest)
  | [], hne, _, _, _, _ => absurd rfl hne
  | [x], _, hs, fuel, rest, hfuel => by
    obtain ⟨fuel, rfl⟩ := Nat.exists_eq_succ_of_ne_zero (by omega : fuel ≠ 0)
    unfold dumpsList dumpsList at hfuel ⊢
    rw [intercalate_singleton] at hfuel ⊢
    have hscan := scanValue_dumps x hs.1 fuel (0x5D :: rest) (by omega) (noNumberNext_cons rfl _)
    simp only [scanItems, hscan]
    rfl
  | x :: y :: ys, _, hs, fuel, rest, hfuel => by
    obtain ⟨fuel, rfl⟩ := Nat.exists_eq_succ_of_ne_zero (by omega : fuel ≠ 0)
    obtain ⟨c, s, hhead, hspace, -⟩ := items_head y ys
    have hitems := scanItems_dumps (y :: ys) (List.cons_ne_nil _ _) hs.2 fuel rest
    obtain ⟨c₀, s₀, hhead₀, -⟩ := dumps_head x
    have hpos : 0 < (dumps x).length := by simp [hhead₀]
    rw [items_cons] at hfuel ⊢
    rw [List.length_append, List.length_cons] at hfuel
    have hscan := scanValue_dumps x hs.1 fuel
      (0x2C :: ([0x2C].intercalate (dumpsList (y :: ys)) ++ 0x5D :: rest)) (by omega) (noNumberNext_cons rfl _)
    have hitems := hitems (by omega)
    rw [List.append_assoc, List.cons_append]
    have hskip : skip (0x2C :: ([0x2C].intercalate (dumpsList (y :: ys)) ++ 0x5D :: rest)) =
      0x2C :: ([0x2C].intercalate (dumpsList (y :: ys)) ++ 0x5D :: rest) := skip_cons (by decide) _
    have hskip' : skip ([0x2C].intercalate (dumpsList (y :: ys)) ++ 0x5D :: rest) =
        [0x2C].intercalate (dumpsList (y :: ys)) ++ 0x5D :: rest := by
      rw [hhead]
      exact skip_cons hspace _
    have hcomma : ¬ (0x2C : ℕ) = 0x5D := by decide
    simp only [scanItems, hscan, Option.bind_eq_bind, Option.bind_some, hskip, if_neg hcomma, if_true, hskip', hitems]
    rfl

/-- The entries of an object are read back, up to its brace. -/
theorem scanEntries_dumps : (kvs : List (Text × Value)) → kvs ≠ [] → WellFormedEntries kvs → ∀ (fuel : ℕ) (rest : Text),
    ([0x2C].intercalate (dumpsEntries kvs)).length + 1 < fuel →
    scanEntries fuel ([0x2C].intercalate (dumpsEntries kvs) ++ 0x7D :: rest) = some (kvs, rest)
  | [], hne, _, _, _, _ => absurd rfl hne
  | [(k, x)], _, hs, fuel, rest, hfuel => by
    obtain ⟨fuel, rfl⟩ := Nat.exists_eq_succ_of_ne_zero (by omega : fuel ≠ 0)
    have hone : [0x2C].intercalate (dumpsEntries [(k, x)]) = quoted k ++ 0x3A :: dumps x := intercalate_singleton _ _
    rw [hone] at hfuel ⊢
    rw [List.length_append, List.length_cons] at hfuel
    have hscan := scanValue_dumps x hs.2.1 fuel (0x7D :: rest) (by omega) (noNumberNext_cons rfl _)
    rw [List.append_assoc, List.cons_append, scanEntries_entry hs.1 (by omega) hscan, skip_cons (by decide)]
    rfl
  | (k, x) :: e :: kvs, _, hs, fuel, rest, hfuel => by
    obtain ⟨fuel, rfl⟩ := Nat.exists_eq_succ_of_ne_zero (by omega : fuel ≠ 0)
    obtain ⟨s, hhead⟩ := entries_head e.1 e.2 kvs
    have hentries := scanEntries_dumps (e :: kvs) (List.cons_ne_nil _ _) hs.2.2 fuel rest
    have hquoted : 0 < (quoted k).length := by simp [quoted]
    rw [entries_cons] at hfuel ⊢
    rw [List.length_append, List.length_cons, List.length_append, List.length_cons] at hfuel
    have hscan := scanValue_dumps x hs.2.1 fuel
      (0x2C :: ([0x2C].intercalate (dumpsEntries (e :: kvs)) ++ 0x7D :: rest)) (by omega) (noNumberNext_cons rfl _)
    have hskip : skip ([0x2C].intercalate (dumpsEntries (e :: kvs)) ++ 0x7D :: rest) =
        [0x2C].intercalate (dumpsEntries (e :: kvs)) ++ 0x7D :: rest := by
      rw [hhead]
      exact skip_cons (by decide) _
    have hbrace : ¬ (0x2C : ℕ) = 0x7D := by decide
    have hassoc : (quoted k ++ 0x3A :: (dumps x ++ 0x2C :: [0x2C].intercalate (dumpsEntries (e :: kvs)))) ++ 0x7D :: rest =
        quoted k ++ 0x3A :: (dumps x ++ 0x2C :: ([0x2C].intercalate (dumpsEntries (e :: kvs)) ++ 0x7D :: rest)) := by
      simp only [List.append_assoc, List.cons_append]
    rw [hassoc, scanEntries_entry hs.1 (by omega) hscan, skip_cons (by decide)]
    simp only [if_neg hbrace, if_true, hskip, hentries (by omega), Option.bind_eq_bind, Option.bind_some]
    rfl
end

/-- **What is written is read back.** -/
theorem loads_dumps {v : Value} (h : v.WellFormed) : loads (dumps v) = some v := by
  have hscan := scanValue_dumps v h (2 * (dumps v).length + 1) [] (by omega) (by simp [NoNumberNext])
  have hskip := skip_dumps v []
  rw [List.append_nil] at hscan hskip
  unfold loads
  rw [if_neg, hskip]
  · simp only [hscan, Option.bind_eq_bind, Option.bind_some]
    rfl
  · intro hhead
    have hle := dumps_printable v _ (List.mem_of_mem_head? hhead)
    omega

/-! ## Bytes -/

section

variable {s : Text}

/-- The byte of a character. -/
theorem toNat_printable {c : ℕ} (h : 0x20 ≤ c ∧ c ≤ 0x7E) : (UInt8.ofNat c).toNat = c :=
  UInt8.toNat_ofNat_of_lt' (Nat.lt_of_le_of_lt h.2 (by decide))

theorem encode_printable (h : Printable s) : encode s = some (s.map UInt8.ofNat) := by
  induction s with
  | nil => rfl
  | cons c s ih =>
    obtain ⟨hc, hs⟩ := List.forall_mem_cons.1 h
    unfold encode encodeChar
    rw [if_pos (by omega), ih hs]
    rfl

theorem decodeFrom_printable (h : Printable s) : decodeFrom 0 0 0 (s.map UInt8.ofNat) = some s := by
  induction s with
  | nil => rfl
  | cons c s ih =>
    obtain ⟨hc, hs⟩ := List.forall_mem_cons.1 h
    simp only [List.map_cons, decodeFrom, if_true, toNat_printable hc, if_pos (show c < 0x80 by omega), ih hs,
      Option.map_some]

/-- Printable characters are no byte-order mark. -/
theorem looksUtf8_printable {b : Octets} (h : ∀ x ∈ b, 0x20 ≤ x.toNat ∧ x.toNat ≤ 0x7E) : looksUtf8 b = true := by
  have hne : ∀ n (l : Octets), (∃ x ∈ l, x.toNat < 0x20 ∨ 0x7E < x.toNat) → b.take n ≠ l := by
    rintro n l ⟨x, hx, hout⟩ rfl
    have hin := h x (List.mem_of_mem_take hx)
    omega
  have hzero : (0 : UInt8) ∉ b.take 2 := by
    intro hx
    have hin := h 0 (List.mem_of_mem_take hx)
    exact absurd hin.1 (by decide)
  unfold looksUtf8
  simp only [Bool.and_eq_true, decide_eq_true_eq]
  exact ⟨⟨⟨hne 2 _ ⟨0xFE, by decide, by decide⟩, hne 2 _ ⟨0xFE, by decide, by decide⟩⟩,
    hne 3 _ ⟨0xEF, by decide, by decide⟩⟩, hzero⟩

end

/-- The bytes of a value. -/
def bytesOf (v : Value) : Octets := (dumps v).map UInt8.ofNat

/-- **A value can always be encoded**: `json.dumps(v).encode("utf8")` does not raise. -/
theorem encode_dumps (v : Value) : encode (dumps v) = some (bytesOf v) := encode_printable (dumps_printable v)

theorem bytesOf_printable (v : Value) : ∀ x ∈ bytesOf v, 0x20 ≤ x.toNat ∧ x.toNat ≤ 0x7E := by
  intro x hx
  obtain ⟨c, hc, rfl⟩ := List.mem_map.1 hx
  have hle := dumps_printable v c hc
  rw [toNat_printable hle]
  exact hle

/-- **The bytes of a value are read back.** -/
theorem loadsBytes_bytesOf {v : Value} (h : v.WellFormed) : loadsBytes (bytesOf v) = some v := by
  unfold loadsBytes
  rw [if_pos (looksUtf8_printable (bytesOf_printable v)), bytesOf, decodeFrom_printable (dumps_printable v)]
  exact loads_dumps h

end JsonText
