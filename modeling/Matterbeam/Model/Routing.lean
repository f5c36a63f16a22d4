import Mathlib.Data.List.DropRight
import Matterbeam.Model.Transport

/-!
# Addresses

What becomes of the path of a request on its way: `HttpTransport` puts the pid and the table name
into it as they are, the HTTP library makes a request target of the URL, and `Handler.do_POST` takes
the target apart again. The base URL is an origin, so that a path is all that follows it.
-/

namespace Matterbeam

/-! ## URLs -/

/-- A character that may stand in the path of a URL. -/
def pathLegal (c : Char) : Bool := c.isAlphanum || c ∈ "-._~!$&'()*+,;=:@/".toList

/-- A character that may stand in a query. -/
def queryLegal (c : Char) : Bool := pathLegal c || c = '?'

/-- A segment that stands for a directory, which a library may resolve. -/
def isDots (segment : List Char) : Bool := segment ∈ [['.'], ['.', '.']]

/-- The HTTP library, as far as the URL goes: it percent-encodes what is illegal. What it makes of
a `%`, which may stand for itself or begin an escape, is left open. -/
structure HttpLibrary where
  /-- A path, as it is sent. -/
  quotePath : List Char → List Char
  /-- A query with its `?`, as it is sent; nothing, if there is none. -/
  quoteQuery : List Char → List Char
  /-- Legal characters stand for themselves. -/
  path_legal : ∀ s, (∀ c ∈ s, pathLegal c = true) → (∀ segment ∈ s.splitOn '/', isDots segment = false) → quotePath s = s
  query_legal : ∀ s, s ≠ [] → (∀ c ∈ s, queryLegal c = true) → quoteQuery ('?' :: s) = '?' :: s
  /-- An escape is made of legal characters and `%`, and has no `/`. -/
  path_chars : ∀ s, ∀ c ∈ quotePath s, pathLegal c = true ∨ c = '%'
  query_chars : ∀ s, ∀ c ∈ quoteQuery s, queryLegal c = true ∨ c = '%'
  path_slashes : ∀ s, (quotePath s).count '/' ≤ s.count '/'
  query_slashes : ∀ s, (quoteQuery s).count '/' ≤ s.count '/'
  /-- A path starts with `/`, and a query with `?`. -/
  path_head : ∀ s, (quotePath ('/' :: s)).head? = some '/'
  query_head : ∀ s, ∀ c ∈ (quoteQuery ('?' :: s)).head?, c = '?'
  query_nil : quoteQuery [] = []

/-- What is before the first `?`. -/
def beforeMark (url : List Char) : List Char := url.takeWhile (· ≠ '?')

/-- What is from the first `?` on. -/
def fromMark (url : List Char) : List Char := url.dropWhile (· ≠ '?')

/-- The target of a request: the URL ends at the first `#`, and its query starts at the first `?`. -/
def HttpLibrary.target (lib : HttpLibrary) (path : List Char) : List Char :=
  let url := path.takeWhile (· ≠ '#')
  lib.quotePath (beforeMark url) ++ lib.quoteQuery (fromMark url)

/-! ## The routes of the server -/

/-- Where `do_POST` sends a request. -/
inductive Route
  | register
  | uploadUrl (pid : List Char)
  | build (pid : List Char)
  | ingest (pid table : List Char)
  | completeLoad (pid loadId : List Char)
  | notFound
  deriving DecidableEq

/-- `s.strip("/")`. -/
def stripSlashes (s : List Char) : List Char := (s.dropWhile (· = '/')).rdropWhile (· = '/')

/-- `":bulk"`. -/
def bulk : List Char := ":bulk".toList

/-- `Handler.do_POST`, up to what the route does. `self.path` is the target, with its query. -/
def postRoute (target : List Char) : Route :=
  match (stripSlashes target).splitOn '/' with
  | [collectors] => if collectors = "collectors".toList then .register else .notFound
  | [collectors, pid, kind, last] =>
    if collectors = "collectors".toList ∧ kind = "deployment".toList ∧ last = "upload-url".toList then .uploadUrl pid
    else if collectors = "collectors".toList ∧ kind = "deployment".toList ∧ last = "build".toList then .build pid
    else if collectors = "collectors".toList ∧ kind = "ingest".toList ∧ bulk <:+ last then
      .ingest pid (last.rdrop bulk.length)
    else if collectors = "collectors".toList ∧ kind = "job".toList then .completeLoad pid last
    else .notFound
  | _ => .notFound

/-! ## Percent-encoding -/

/-- A hexadecimal digit, in upper case. -/
def upperHexDigit (n : ℕ) : Char := Char.ofNat (if n < 10 then 48 + n else 55 + n)

/-- The escape of a byte. -/
def percentByte (b : UInt8) : List Char := ['%', upperHexDigit (b.toNat / 16 % 16), upperHexDigit (b.toNat % 16)]

/-- Percent-encoding of the characters that are not `kept`, as UTF-8. -/
def percentEncode (kept : Char → Bool) (s : List Char) : List Char :=
  s.flatMap fun c => if kept c then [c] else (String.utf8EncodeChar c).flatMap percentByte

end Matterbeam
