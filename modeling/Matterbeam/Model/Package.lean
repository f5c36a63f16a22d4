import Mathlib.Data.List.Sort
import Matterbeam.Base.Dict

/-!
# Deploy packages

`deploy.py`'s package: the files of the directory that the pipeline script is in, as a tar
with a manifest, and a hash over what the manifest says of them. A directory is the list of
its entries, in the order in which `os.walk` lists them.
-/

namespace Matterbeam

/-- Bytes, as a file has them. -/
abbrev Bytes := List UInt8

/-! ## Digests -/

/-- A SHA3-256 digest. -/
structure Digest where
  bytes : Bytes
  length_eq : bytes.length = 32

/-- The letters of base64, in order. -/
def base64Letters : List Char := "ABCDEFGHIJKLMNOPQRSTUVWXYZabcdefghijklmnopqrstuvwxyz0123456789+/".toList

def base64Letter (n : ℕ) : Char := base64Letters.getD n 'A'

/-- `base64.b64encode`. -/
def base64 : Bytes → List Char
  | [] => []
  | [a] => [base64Letter (a.toNat / 4), base64Letter (a.toNat % 4 * 16), '=', '=']
  | [a, b] => [base64Letter (a.toNat / 4), base64Letter (a.toNat % 4 * 16 + b.toNat / 16),
      base64Letter (b.toNat % 16 * 4), '=']
  | a :: b :: c :: bs => base64Letter (a.toNat / 4) :: base64Letter (a.toNat % 4 * 16 + b.toNat / 16) ::
      base64Letter (b.toNat % 16 * 4 + c.toNat / 64) :: base64Letter (c.toNat % 64) :: base64 bs

/-- `digest_b64`. -/
def Digest.b64 (d : Digest) : String := String.ofList (base64 d.bytes)

/-- What packaging takes from libraries, and from where it runs. -/
structure Tools where
  /-- `hashlib.sha3_256`. -/
  sha3 : Bytes → Digest
  /-- `str.lower`. -/
  lower : String → String
  /-- The name and the version of each distribution that is installed. -/
  distributions : List (Option String × Option String)

/-! ## Directory trees -/

/-- The name of a file or a directory. -/
structure FileName where
  text : String
  ok : text ≠ "" ∧ text ≠ "." ∧ text ≠ ".." ∧ '/' ∉ text.toList
  deriving DecidableEq

/-- A file: what it contains, and what the tar keeps of its status. -/
structure File where
  content : Bytes
  mtime : ℤ
  mode : ℕ

/-- A file, a directory, or a symbolic link to a directory. -/
inductive Node
  | file (f : File)
  | dir (entries : List (FileName × Node))
  | dirLink

/-- `str.endswith`. -/
def endsWith (name suffix : String) : Bool := suffix.toList.isSuffixOf name.toList

/-- `_IGNORED_DIR_NAMES`. -/
def ignoredDirNames : List String :=
  ["__pycache__", ".venv", "venv", ".git", "dist", "build", ".mypy_cache", ".ruff_cache", ".pytest_cache", "htmlcov"]

/-- `_IGNORED_FILE_SUFFIXES`. -/
def ignoredFileSuffixes : List String := [".pyc", ".pyo", ".so"]

/-- The directory is walked. -/
def keepsDir (name : FileName) : Bool := name.text ∉ ignoredDirNames && !endsWith name.text ".egg-info"

/-- The file is packaged: it has no ignored suffix, and is not one of secrets. -/
def keepsFile (name : FileName) : Bool :=
  !ignoredFileSuffixes.any (endsWith name.text) && !endsWith name.text "secrets.toml"

/-- The files of a directory that are packaged, each with its path from the root. -/
def filesIn (rel : List FileName) (entries : List (FileName × Node)) : List (List FileName × File) :=
  entries.filterMap fun e =>
    match e.2 with
    | .file f => if keepsFile e.1 then some (rel ++ [e.1], f) else none
    | .dir _ | .dirLink => none

mutual
/-- The files below an entry of a directory. -/
def filesBelowEntry (rel : List FileName) (name : FileName) : Node → List (List FileName × File)
  | .file _ => []
  | .dir sub => if keepsDir name then filesIn (rel ++ [name]) sub ++ filesBelow (rel ++ [name]) sub else []
  -- a link is listed among the directories, and not followed
  | .dirLink => []

/-- The files below a directory that are packaged, one subdirectory after another. -/
def filesBelow (rel : List FileName) : List (FileName × Node) → List (List FileName × File)
  | [] => []
  | (name, node) :: es => filesBelowEntry rel name node ++ filesBelow rel es
end

/-- `_iter_package_files`. -/
def iterPackageFiles (root : List (FileName × Node)) : List (List FileName × File) :=
  filesIn [] root ++ filesBelow [] root

/-- `as_posix`. -/
def asPosix (path : List FileName) : String := "/".intercalate (path.map FileName.text)

/-! ## The package -/

/-- A member of the tar: what its `TarInfo` says, and the bytes that are stored. -/
structure Member where
  name : String
  mtime : ℤ := 0
  mode : ℕ := 0o644
  content : Bytes

/-- What the manifest says of a file. -/
structure ManifestItem where
  relativePath : String
  sizeInBytes : ℕ
  sha3 : String
  deriving DecidableEq

/-- The manifest. -/
structure Manifest where
  engineVersion : ℕ := 1
  entryScript : String
  files : List ManifestItem

/-- A tar that is being written, with the items of its manifest. -/
structure Draft where
  members : List Member := []
  items : List ManifestItem := []

/-- `BuiltPackage`, with what is in the tar at its path. -/
structure Package where
  members : List Member
  manifest : Manifest
  contentHash : String

/-- UTF-8. -/
def utf8 (s : String) : Bytes := s.toByteArray.data.toList

/-- What `tar.addfile` reads of a file and stores: as many bytes as its `TarInfo` has for a size. -/
def addedBytes (size : ℕ) (content : Bytes) : Bytes := content.take size

/-- `_FILES_PREFIX` and `_MANIFEST_FILE_NAME`. -/
def filesPrefix : String := "files"

def manifestFileName : String := "manifest.yaml"

/-- `_DEPENDENCY_SPEC_NAMES`. -/
def dependencySpecNames : List String := ["requirements.txt", "pyproject.toml"]

/-- A file goes into the tar and the manifest. What is hashed is what the tar reads. -/
def Draft.addFile (tools : Tools) (draft : Draft) (file : List FileName × File) : Draft :=
  let size := file.2.content.length
  let stored := addedBytes size file.2.content
  { members := draft.members ++ [{
      name := filesPrefix ++ "/" ++ asPosix file.1, mtime := file.2.mtime, mode := file.2.mode &&& 0o7777, content := stored }]
    items := draft.items ++ [⟨asPosix file.1, size, (tools.sha3 stored).b64⟩] }

/-- `name=version` for each distribution that has both, the first of each name. -/
def frozenLines (tools : Tools) : Dict String String :=
  tools.distributions.foldl (fun seen dist =>
    match dist with
    | (some name, some version) =>
      if name = "" ∨ version = "" then seen
      else if (seen.get? (tools.lower name)).isSome then seen
      else seen.set (tools.lower name) (name ++ "==" ++ version)
    | _ => seen) Dict.empty

/-- `_frozen_requirements_bytes`. -/
def frozenRequirementsBytes (tools : Tools) : Bytes :=
  utf8 ("\n".intercalate (((frozenLines tools).entries.map Prod.snd).insertionSort fun a b => ¬ b < a) ++ "\n")

/-- The requirements are added if the directory has none. -/
def Draft.addRequirements (tools : Tools) (draft : Draft) : Draft :=
  if draft.items.any fun item => item.relativePath ∈ dependencySpecNames then draft
  else
    let frozen := frozenRequirementsBytes tools
    { members := draft.members ++ [{ name := filesPrefix ++ "/requirements.txt", content := addedBytes frozen.length frozen }]
      items := draft.items ++ [⟨"requirements.txt", frozen.length, (tools.sha3 frozen).b64⟩] }

/-- The order in which the manifest lists its files. -/
def itemLe (a b : ManifestItem) : Prop := ¬ b.relativePath < a.relativePath

instance : DecidableRel itemLe := fun a b => by
  unfold itemLe; infer_instance

/-- The bytes that `_compute_content_hash` feeds to SHA3. -/
def contentHashInput (files : List ManifestItem) : Bytes :=
  files.flatMap fun item => utf8 item.relativePath ++ utf8 item.sha3

/-- `_compute_content_hash`. -/
def computeContentHash (tools : Tools) (files : List ManifestItem) : String :=
  (tools.sha3 (contentHashInput files)).b64

/-- `build_package`, for a script in the directory `root`. `dump` is `yaml.dump`. -/
def buildPackage (tools : Tools) (dump : Manifest → String) (root : List (FileName × Node)) (script : FileName) : Package :=
  let draft := ((iterPackageFiles root).foldl (Draft.addFile tools) {}).addRequirements tools
  let manifest : Manifest := { entryScript := script.text, files := draft.items.insertionSort itemLe }
  { members := draft.members ++ [{ name := manifestFileName, content := utf8 (dump manifest) }]
    manifest := manifest
    contentHash := computeContentHash tools manifest.files }

end Matterbeam
