import Matterbeam.Model.Package

/-!
# The package and its manifest

Every file below the script's directory that is not ignored goes into the tar under its own
path, and into the manifest with what the tar has read of it. The order of the walk is the order
in the tar, and no longer that of the manifest, which is sorted.

* `asPosix_inj`: files have paths of their own.
* `packageFiles_relisted`: another order of the walk gives the same files, in another order.
* `package_manifest`: **the tar holds what the manifest lists, whatever the order of the walk**.
-/

namespace Matterbeam

/-! ## Paths -/

/-- **Paths are read back from their text.** -/
theorem asPosix_inj {p q : List FileName} (hp : p ≠ []) (hq : q ≠ []) (h : asPosix p = asPosix q) : p = q := by
  have hsplit : ∀ {p : List FileName}, p ≠ [] → (asPosix p).toList.splitOn '/' = (p.map FileName.text).map String.toList := by
    intro p hp
    unfold asPosix
    rw [String.toList_intercalate]
    -- no name has a slash in it
    refine List.splitOn_intercalate '/' ?_ (by simpa using hp)
    intro l hl
    simp only [List.map_map, List.mem_map, Function.comp_apply] at hl
    obtain ⟨name, -, rfl⟩ := hl
    exact name.ok.2.2.2
  have hlist : (p.map FileName.text).map String.toList = (q.map FileName.text).map String.toList := by
    rw [← hsplit hp, ← hsplit hq, h]
  have htext : p.map FileName.text = q.map FileName.text :=
    List.map_injective_iff.2 (fun s t hst => String.toList_inj.1 hst) hlist
  refine List.map_injective_iff.2 ?_ htext
  rintro ⟨s, hs⟩ ⟨t, ht⟩ rfl
  rfl

/-! ## Trees -/

mutual
/-- The entries of a directory have names of their own, at every level. -/
def Distinct : List (FileName × Node) → Prop
  | [] => True
  | (name, node) :: es => name ∉ es.map Prod.fst ∧ node.Distinct ∧ Distinct es

def Node.Distinct : Node → Prop
  | .file _ | .dirLink => True
  | .dir sub => Matterbeam.Distinct sub
end

/-- A directory tree, in the order in which it is listed. -/
structure Tree where
  entries : List (FileName × Node)
  distinct : Distinct entries

/-- The same directory, listed in another order at any level. -/
inductive Relisted : List (FileName × Node) → List (FileName × Node) → Prop
  | nil : Relisted [] []
  | file {es es' : List (FileName × Node)} (name : FileName) (f : File) (h : Relisted es es') :
      Relisted ((name, .file f) :: es) ((name, .file f) :: es')
  | dir {sub sub' es es' : List (FileName × Node)} (name : FileName) (hs : Relisted sub sub') (h : Relisted es es') :
      Relisted ((name, .dir sub) :: es) ((name, .dir sub') :: es')
  | dirLink {es es' : List (FileName × Node)} (name : FileName) (h : Relisted es es') :
      Relisted ((name, .dirLink) :: es) ((name, .dirLink) :: es')
  | swap (a b : FileName × Node) (es : List (FileName × Node)) : Relisted (a :: b :: es) (b :: a :: es)
  | trans {es es' es'' : List (FileName × Node)} (h : Relisted es es') (h' : Relisted es' es'') : Relisted es es''

theorem filesIn_cons (rel : List FileName) (e : FileName × Node) (es : List (FileName × Node)) :
    filesIn rel (e :: es) = filesIn rel [e] ++ filesIn rel es :=
  List.filterMap_append (l := [e])

theorem filesBelow_cons (rel : List FileName) (e : FileName × Node) (es : List (FileName × Node)) :
    filesBelow rel (e :: es) = filesBelow rel [e] ++ filesBelow rel es := by
  simp [filesBelow]

/-- **Another order of the walk** gives the same files. -/
theorem packageFiles_relisted {es es' : List (FileName × Node)} (h : Relisted es es') (rel : List FileName) :
    (filesIn rel es).Perm (filesIn rel es') ∧ (filesBelow rel es).Perm (filesBelow rel es') := by
  induction h generalizing rel with
  | nil => exact ⟨.refl _, .refl _⟩
  | @file es es' name f h ih =>
    obtain ⟨h₁, h₂⟩ := ih rel
    rw [filesIn_cons rel _ es, filesIn_cons rel _ es', filesBelow_cons rel _ es, filesBelow_cons rel _ es']
    exact ⟨h₁.append_left _, h₂.append_left _⟩
  | @dir sub sub' es es' name hs h ihs ih =>
    obtain ⟨h₁, h₂⟩ := ih rel
    obtain ⟨h₃, h₄⟩ := ihs (rel ++ [name])
    refine ⟨h₁, List.Perm.append ?_ h₂⟩
    unfold filesBelowEntry
    split
    · exact h₃.append h₄
    · exact .refl _
  | dirLink name h ih => exact ih rel
  | swap a b es =>
    -- the first two entries change places
    rw [filesIn_cons rel a (b :: es), filesIn_cons rel b es, filesIn_cons rel b (a :: es), filesIn_cons rel a es,
      filesBelow_cons rel a (b :: es), filesBelow_cons rel b es, filesBelow_cons rel b (a :: es), filesBelow_cons rel a es]
    simp only [← List.append_assoc]
    exact ⟨List.perm_append_comm.append_right _, List.perm_append_comm.append_right _⟩
  | trans h h' ih ih' => exact ⟨(ih rel).1.trans (ih' rel).1, (ih rel).2.trans (ih' rel).2⟩

/-! ## Paths of their own -/

theorem Distinct.names {es : List (FileName × Node)} (h : Distinct es) : (es.map Prod.fst).Nodup := by
  induction es with
  | nil => exact List.nodup_nil
  | cons e es ih => exact List.nodup_cons.2 ⟨h.1, ih h.2.2⟩

/-- The files of a directory are right in it. -/
theorem mem_filesIn {rel : List FileName} {es : List (FileName × Node)} {path : List FileName} {f : File} :
    (path, f) ∈ filesIn rel es ↔ ∃ name, (name, .file f) ∈ es ∧ keepsFile name = true ∧ path = rel ++ [name] := by
  unfold filesIn
  rw [List.mem_filterMap]
  constructor
  · rintro ⟨⟨name, node⟩, he, h⟩
    cases node with
    | file g =>
      dsimp only at h
      split at h
      · rename_i hk
        cases h
        exact ⟨name, he, hk, rfl⟩
      · cases h
    | dir sub => cases h
    | dirLink => cases h
  · rintro ⟨name, he, hk, rfl⟩
    exact ⟨_, he, if_pos hk⟩

mutual
/-- The files below an entry have its name in their paths, and go on. -/
theorem mem_filesBelowEntry {rel : List FileName} {name : FileName} (node : Node) {path : List FileName} {f : File}
    (h : (path, f) ∈ filesBelowEntry rel name node) : ∃ tail, tail ≠ [] ∧ path = rel ++ name :: tail := by
  cases node with
  | file g => cases h
  | dir sub =>
    unfold filesBelowEntry at h
    split at h
    · rcases List.mem_append.1 h with h | h
      · obtain ⟨name', -, -, rfl⟩ := mem_filesIn.1 h
        exact ⟨[name'], List.cons_ne_nil _ _, List.append_assoc _ _ _⟩
      · obtain ⟨name', -, tail, -, rfl⟩ := mem_filesBelow sub h
        exact ⟨name' :: tail, List.cons_ne_nil _ _, List.append_assoc _ _ _⟩
    · cases h
  | dirLink => cases h

/-- The files below a directory are below one of its entries. -/
theorem mem_filesBelow {rel : List FileName} (es : List (FileName × Node)) {path : List FileName} {f : File}
    (h : (path, f) ∈ filesBelow rel es) : ∃ name ∈ es.map Prod.fst, ∃ tail, tail ≠ [] ∧ path = rel ++ name :: tail := by
  cases es with
  | nil => cases h
  | cons e es =>
    obtain ⟨name, node⟩ := e
    rcases List.mem_append.1 h with h | h
    · exact ⟨name, List.mem_cons_self, mem_filesBelowEntry node h⟩
    · obtain ⟨name', hn, ht⟩ := mem_filesBelow es h
      exact ⟨name', List.mem_cons_of_mem _ hn, ht⟩
end

theorem filesIn_nodup {rel : List FileName} {es : List (FileName × Node)} (h : (es.map Prod.fst).Nodup) :
    ((filesIn rel es).map Prod.fst).Nodup := by
  -- each path ends in the name of its entry
  have hsub : (((filesIn rel es).map Prod.fst).map List.getLast?).Sublist ((es.map Prod.fst).map some) := by
    induction es with
    | nil => exact List.Sublist.refl _
    | cons e es ih =>
      obtain ⟨name, node⟩ := e
      rw [filesIn_cons, List.map_append, List.map_append]
      change List.Sublist _ ([some name] ++ (es.map Prod.fst).map some)
      refine List.Sublist.append ?_ (ih (List.nodup_cons.1 h).2)
      cases node with
      | dir sub => exact List.nil_sublist _
      | dirLink => exact List.nil_sublist _
      | file f =>
        by_cases hk : keepsFile name = true
        · simp [filesIn, hk]
        · simp [filesIn, hk]
  exact ((h.map (Option.some_injective _)).sublist hsub).of_map _

/-- A file in a directory is not below one of its entries. -/
theorem filesAt_nodup {rel : List FileName} {es : List (FileName × Node)} (h : Distinct es)
    (hb : ((filesBelow rel es).map Prod.fst).Nodup) : ((filesIn rel es ++ filesBelow rel es).map Prod.fst).Nodup := by
  rw [List.map_append, List.nodup_append]
  refine ⟨filesIn_nodup h.names, hb, ?_⟩
  rintro path hp path' hp' rfl
  obtain ⟨⟨_, f⟩, hf, rfl⟩ := List.mem_map.1 hp
  obtain ⟨⟨_, f'⟩, hf', he⟩ := List.mem_map.1 hp'
  obtain ⟨name₁, -, -, rfl⟩ := mem_filesIn.1 hf
  dsimp only at he
  obtain ⟨name₂, -, tail, hne, rfl⟩ := mem_filesBelow es hf'
  -- what is below an entry has a longer path
  exact hne (List.cons.inj (List.append_cancel_left he)).2

mutual
theorem filesBelowEntry_nodup {rel : List FileName} {name : FileName} (node : Node) (h : node.Distinct) :
    ((filesBelowEntry rel name node).map Prod.fst).Nodup := by
  cases node with
  | file g => exact List.nodup_nil
  | dir sub =>
    unfold filesBelowEntry
    split
    · exact filesAt_nodup h (filesBelow_nodup sub h)
    · exact List.nodup_nil
  | dirLink => exact List.nodup_nil

/-- **Files have paths of their own.** -/
theorem filesBelow_nodup {rel : List FileName} (es : List (FileName × Node)) (h : Distinct es) :
    ((filesBelow rel es).map Prod.fst).Nodup := by
  cases es with
  | nil => exact List.nodup_nil
  | cons e es =>
    obtain ⟨name, node⟩ := e
    obtain ⟨hname, hnode, hes⟩ := h
    change (((filesBelowEntry rel name node) ++ filesBelow rel es).map Prod.fst).Nodup
    rw [List.map_append, List.nodup_append]
    refine ⟨filesBelowEntry_nodup node hnode, filesBelow_nodup es hes, ?_⟩
    rintro path hp path' hp' rfl
    obtain ⟨⟨_, f⟩, hf, rfl⟩ := List.mem_map.1 hp
    obtain ⟨⟨_, f'⟩, hf', he⟩ := List.mem_map.1 hp'
    dsimp only at he
    obtain ⟨tail, -, rfl⟩ := mem_filesBelowEntry node hf
    obtain ⟨name', hn, tail', -, rfl⟩ := mem_filesBelow es hf'
    obtain ⟨rfl, -⟩ := List.cons.inj (List.append_cancel_left he)
    exact hname hn
end

/-- **The files of a tree have paths of their own.** -/
theorem iterPackageFiles_nodup {root : List (FileName × Node)} (h : Distinct root) :
    ((iterPackageFiles root).map Prod.fst).Nodup ∧ ∀ x ∈ iterPackageFiles root, x.1 ≠ [] := by
  refine ⟨filesAt_nodup h (filesBelow_nodup root h), ?_⟩
  rintro ⟨path, f⟩ hx
  rcases List.mem_append.1 hx with hx | hx
  · obtain ⟨name, -, -, rfl⟩ := mem_filesIn.1 hx
    simp
  · obtain ⟨name, -, tail, -, rfl⟩ := mem_filesBelow root hx
    simp

/-! ## The tar and the manifest -/

section

variable {tools : Tools} {dump : Manifest → String} {script : FileName} {root root' : List (FileName × Node)}

/-- What the manifest says of a file. -/
def fileItem (tools : Tools) (file : List FileName × File) : ManifestItem :=
  ⟨asPosix file.1, file.2.content.length, (tools.sha3 (addedBytes file.2.content.length file.2.content)).b64⟩

/-- The member is the file of the item, and the item has its size and its hash. -/
def Describes (tools : Tools) (m : Member) (item : ManifestItem) : Prop :=
  m.name = filesPrefix ++ "/" ++ item.relativePath ∧ item.sizeInBytes = m.content.length ∧
    item.sha3 = (tools.sha3 m.content).b64

/-- Each member of the tar is described by its item. -/
def Draft.Described (tools : Tools) (draft : Draft) : Prop :=
  List.Forall₂ (Describes tools) draft.members draft.items

theorem Draft.Described.addFile {draft : Draft} (h : draft.Described tools) (file : List FileName × File) :
    (draft.addFile tools file).Described tools := by
  refine List.rel_append h (List.Forall₂.cons ⟨rfl, ?_, rfl⟩ List.Forall₂.nil)
  change file.2.content.length = (addedBytes file.2.content.length file.2.content).length
  unfold addedBytes
  rw [List.take_length]

theorem Draft.Described.addRequirements {draft : Draft} (h : draft.Described tools) :
    (draft.addRequirements tools).Described tools := by
  unfold Draft.addRequirements
  split
  · exact h
  · refine List.rel_append h (List.Forall₂.cons ⟨rfl, ?_, ?_⟩ List.Forall₂.nil)
    · simp [addedBytes]
    · simp [addedBytes]

theorem Draft.Described.names {draft : Draft} (h : draft.Described tools) : draft.members.map Member.name =
    draft.items.map fun item => filesPrefix ++ "/" ++ item.relativePath := by
  unfold Draft.Described at h
  generalize draft.members = members at h ⊢
  generalize draft.items = items at h ⊢
  induction h with
  | nil => rfl
  | cons hd _ ih => rw [List.map_cons, List.map_cons, ih, hd.1]

theorem Draft.Described.mem {draft : Draft} (h : draft.Described tools) {item : ManifestItem} (hi : item ∈ draft.items) :
    ∃ m ∈ draft.members, Describes tools m item := by
  unfold Draft.Described at h
  generalize draft.members = members at h ⊢
  generalize draft.items = items at h hi
  induction h with
  | nil => cases hi
  | @cons m item' members items hd _ ih =>
    rcases List.mem_cons.1 hi with rfl | hi
    · exact ⟨m, List.mem_cons_self, hd⟩
    · obtain ⟨m', hm, hd'⟩ := ih hi
      exact ⟨m', List.mem_cons_of_mem _ hm, hd'⟩

/-- The walk, file by file. -/
theorem foldl_addFile (files : List (List FileName × File)) (draft : Draft) (h : draft.Described tools) :
    (files.foldl (Draft.addFile tools) draft).Described tools ∧
      (files.foldl (Draft.addFile tools) draft).items = draft.items ++ files.map (fileItem tools) := by
  induction files generalizing draft with
  | nil => exact ⟨h, (List.append_nil _).symm⟩
  | cons file files ih =>
    obtain ⟨hd, hi⟩ := ih (draft.addFile tools file) (h.addFile file)
    refine ⟨hd, hi.trans ?_⟩
    -- each file adds its item behind the others
    change draft.items ++ [fileItem tools file] ++ files.map (fileItem tools) = _
    rw [List.append_assoc]
    rfl

/-- The tar before the manifest is added. -/
def draftOf (tools : Tools) (root : List (FileName × Node)) : Draft :=
  ((iterPackageFiles root).foldl (Draft.addFile tools) {}).addRequirements tools

theorem draftOf_described : (draftOf tools root).Described tools :=
  (foldl_addFile _ {} List.Forall₂.nil).1.addRequirements

/-- **The items of the manifest**, before they are sorted. -/
theorem draftOf_items : (draftOf tools root).items =
    if ∃ x ∈ iterPackageFiles root, asPosix x.1 ∈ dependencySpecNames then (iterPackageFiles root).map (fileItem tools)
    else (iterPackageFiles root).map (fileItem tools) ++
      [⟨"requirements.txt", (frozenRequirementsBytes tools).length, (tools.sha3 (frozenRequirementsBytes tools)).b64⟩] := by
  have hitems : ((iterPackageFiles root).foldl (Draft.addFile tools) {}).items = (iterPackageFiles root).map (fileItem tools) :=
    (foldl_addFile _ {} List.Forall₂.nil).2.trans (List.nil_append _)
  have hiff : ((iterPackageFiles root).map (fileItem tools)).any
      (fun item => item.relativePath ∈ dependencySpecNames) = true ↔
        ∃ x ∈ iterPackageFiles root, asPosix x.1 ∈ dependencySpecNames := by
    rw [List.any_map, List.any_eq_true]
    exact ⟨fun ⟨x, hx, h⟩ => ⟨x, hx, of_decide_eq_true h⟩, fun ⟨x, hx, h⟩ => ⟨x, hx, decide_eq_true h⟩⟩
  unfold draftOf Draft.addRequirements
  rw [hitems]
  by_cases hany : ∃ x ∈ iterPackageFiles root, asPosix x.1 ∈ dependencySpecNames
  · rw [if_pos hany, if_pos (hiff.2 hany), hitems]
  · rw [if_neg hany, if_neg fun h => hany (hiff.1 h)]

/-- The paths of the walk, and the requirements if it has none. -/
def withRequirements (walk : List String) : List String :=
  if "requirements.txt" ∈ walk ∨ "pyproject.toml" ∈ walk then walk else walk ++ ["requirements.txt"]

theorem mem_withRequirements {walk : List String} {path : String} (h : path ∈ walk) : path ∈ withRequirements walk := by
  unfold withRequirements
  split
  · exact h
  · exact List.mem_append_left _ h

/-- There are requirements, in any case. -/
theorem requirements_mem (walk : List String) :
    ∃ path ∈ withRequirements walk, path = "requirements.txt" ∨ path = "pyproject.toml" := by
  unfold withRequirements
  split
  · rename_i h
    rcases h with h | h
    · exact ⟨_, h, Or.inl rfl⟩
    · exact ⟨_, h, Or.inr rfl⟩
  · exact ⟨_, List.mem_append_right _ (List.mem_singleton.2 rfl), Or.inl rfl⟩

theorem withRequirements_nodup {walk : List String} (h : walk.Nodup) : (withRequirements walk).Nodup := by
  unfold withRequirements
  split
  · exact h
  · rename_i hnone
    rw [List.nodup_append]
    refine ⟨h, List.nodup_singleton _, ?_⟩
    rintro path hp path' hp' rfl
    exact hnone (Or.inl (List.mem_singleton.1 hp' ▸ hp))

/-- The paths that the manifest lists, in the order of the walk. -/
theorem draftOf_paths : (draftOf tools root).items.map ManifestItem.relativePath =
    withRequirements ((iterPackageFiles root).map fun x => asPosix x.1) := by
  have hmap : ((iterPackageFiles root).map (fileItem tools)).map ManifestItem.relativePath =
      (iterPackageFiles root).map fun x => asPosix x.1 := by
    rw [List.map_map]
    rfl
  have hiff : (∃ x ∈ iterPackageFiles root, asPosix x.1 ∈ dependencySpecNames) ↔
      "requirements.txt" ∈ (iterPackageFiles root).map (fun x => asPosix x.1) ∨
        "pyproject.toml" ∈ (iterPackageFiles root).map (fun x => asPosix x.1) := by
    simp only [dependencySpecNames, List.mem_cons, List.not_mem_nil, or_false, List.mem_map]
    constructor
    · rintro ⟨x, hx, h | h⟩
      · exact Or.inl ⟨x, hx, h⟩
      · exact Or.inr ⟨x, hx, h⟩
    · rintro (⟨x, hx, h⟩ | ⟨x, hx, h⟩)
      · exact ⟨x, hx, Or.inl h⟩
      · exact ⟨x, hx, Or.inr h⟩
  unfold withRequirements
  rw [draftOf_items]
  by_cases hany : ∃ x ∈ iterPackageFiles root, asPosix x.1 ∈ dependencySpecNames
  · rw [if_pos hany, if_pos (hiff.1 hany), hmap]
  · rw [if_neg hany, if_neg fun h => hany (hiff.2 h), List.map_append, hmap]
    rfl

/-- **Each file is listed once.** -/
theorem draftOf_nodup (h : Distinct root) : ((draftOf tools root).items.map ManifestItem.relativePath).Nodup := by
  obtain ⟨hnodup, hne⟩ := iterPackageFiles_nodup h
  have hpaths : ((iterPackageFiles root).map fun x => asPosix x.1).Nodup := by
    refine (List.nodup_map_iff_inj_on (List.Nodup.of_map _ hnodup)).2 fun x hx y hy hxy => ?_
    -- paths of the walk are not empty, so they are read back from their text
    exact List.inj_on_of_nodup_map hnodup hx hy (asPosix_inj (hne x hx) (hne y hy) hxy)
  rw [draftOf_paths]
  exact withRequirements_nodup hpaths

theorem draftOf_relisted (h : Relisted root root') : (draftOf tools root).items.Perm (draftOf tools root').items := by
  have hfiles : (iterPackageFiles root).Perm (iterPackageFiles root') :=
    (packageFiles_relisted h []).1.append (packageFiles_relisted h []).2
  -- whether there are requirements does not depend on the order
  have hiff : (∃ x ∈ iterPackageFiles root, asPosix x.1 ∈ dependencySpecNames) ↔
      ∃ x ∈ iterPackageFiles root', asPosix x.1 ∈ dependencySpecNames := by
    simp only [hfiles.mem_iff]
  rw [draftOf_items, draftOf_items]
  by_cases hany : ∃ x ∈ iterPackageFiles root, asPosix x.1 ∈ dependencySpecNames
  · rw [if_pos hany, if_pos (hiff.1 hany)]
    exact hfiles.map _
  · rw [if_neg hany, if_neg fun h => hany (hiff.2 h)]
    exact (hfiles.map _).append_right _

/-! ### The order of the manifest -/

theorem itemLe_antisymm {a b : ManifestItem} (h : itemLe a b) (h' : itemLe b a) : a.relativePath = b.relativePath :=
  String.le_antisymm h h'

instance : Std.Total itemLe := ⟨fun a b => String.le_total a.relativePath b.relativePath⟩

instance : IsTrans ManifestItem itemLe := ⟨fun _ _ _ h h' => String.le_trans h h'⟩

/-- **The manifest does not depend on the order of the walk.** -/
theorem files_relisted (hd : Distinct root) (h : Relisted root root') :
    (draftOf tools root).items.insertionSort itemLe = (draftOf tools root').items.insertionSort itemLe := by
  have hperm : (draftOf tools root).items.Perm (draftOf tools root').items := draftOf_relisted h
  refine List.Perm.eq_of_pairwise (fun a b ha hb hab hba => ?_) (List.pairwise_insertionSort itemLe _)
    (List.pairwise_insertionSort itemLe _) ?_
  · have hnodup : ((draftOf tools root).items.map ManifestItem.relativePath).Nodup := draftOf_nodup hd
    rw [List.mem_insertionSort] at ha hb
    -- two items of one path are the same item
    exact List.inj_on_of_nodup_map hnodup ha (hperm.mem_iff.2 hb) (itemLe_antisymm hab hba)
  · exact (List.perm_insertionSort _ _).trans (hperm.trans (List.perm_insertionSort _ _).symm)

/-- The manifest lists its files in the order of their paths. -/
theorem files_sorted (hd : Distinct root) :
    ((draftOf tools root).items.insertionSort itemLe).Pairwise fun a b => a.relativePath < b.relativePath := by
  have hnodup : (((draftOf tools root).items.insertionSort itemLe).map ManifestItem.relativePath).Nodup :=
    ((List.perm_insertionSort _ _).map _).nodup_iff.2 (draftOf_nodup hd)
  have hne := List.pairwise_map.1 hnodup
  refine ((List.pairwise_insertionSort itemLe _).and hne).imp fun {a b} hab => ?_
  -- sorted by a total order, and without two of one path
  by_contra hlt
  exact hab.2 (itemLe_antisymm hab.1 hlt)

/-! ### The package -/

/-- The members of the tar, and the manifest after them. -/
theorem members_eq : (buildPackage tools dump root script).members = (draftOf tools root).members ++
    [{ name := manifestFileName, content := utf8 (dump (buildPackage tools dump root script).manifest) }] := rfl

theorem files_perm : (buildPackage tools dump root script).manifest.files.Perm (draftOf tools root).items :=
  List.perm_insertionSort _ _

theorem member_names : (buildPackage tools dump root script).members.map Member.name =
    ((draftOf tools root).items.map fun item => filesPrefix ++ "/" ++ item.relativePath) ++ [manifestFileName] := by
  rw [members_eq, List.map_append, draftOf_described.names]
  rfl

/-- **The members have names of their own.** -/
theorem member_names_nodup (h : Distinct root) : ((buildPackage tools dump root script).members.map Member.name).Nodup := by
  rw [member_names, List.nodup_append]
  refine ⟨?_, List.nodup_singleton _, ?_⟩
  · have hnodup : ((draftOf tools root).items.map ManifestItem.relativePath).Nodup := draftOf_nodup h
    rw [List.Nodup, List.pairwise_map] at hnodup ⊢
    refine hnodup.imp fun {a b} hab h => hab ?_
    exact String.append_right_inj _ |>.1 h
  · -- nothing under `files/` has the name of the manifest
    rintro name hn name' hn' rfl
    obtain ⟨item, -, he⟩ := List.mem_map.1 hn
    rw [List.mem_singleton.1 hn'] at he
    have hlist := congrArg (fun s => s.toList.head?) he
    simp [filesPrefix, manifestFileName] at hlist

/-- **Each item describes a member.** -/
theorem described_member {item : ManifestItem} (hi : item ∈ (buildPackage tools dump root script).manifest.files) :
    ∃ m ∈ (buildPackage tools dump root script).members, Describes tools m item := by
  obtain ⟨m, hm, hd⟩ := draftOf_described.mem (files_perm.mem_iff.1 hi)
  refine ⟨m, ?_, hd⟩
  rw [members_eq]
  exact List.mem_append_left _ hm

theorem files_paths : ((buildPackage tools dump root script).manifest.files.map ManifestItem.relativePath).Perm
    (withRequirements ((iterPackageFiles root).map fun x => asPosix x.1)) := by
  rw [← @draftOf_paths tools root]
  exact files_perm.map _

theorem file_listed {path : String} (h : path ∈ withRequirements ((iterPackageFiles root).map fun x => asPosix x.1)) :
    ∃ item ∈ (buildPackage tools dump root script).manifest.files, item.relativePath = path :=
  List.mem_map.1 (files_paths.mem_iff.2 h)

end

/-- **The tar holds what the manifest lists.** For every directory tree, whose script is packaged:

* the members of the tar have names of their own, and are the manifest and, under `files/`, what
  it lists;
* an item has the size and the hash of the bytes that its member stores;
* the items are sorted, with the script among them, and `requirements.txt` or `pyproject.toml`:
  the former is made up only if the walk has neither;
* and the order of the walk matters neither to the manifest nor to the content hash. -/
theorem package_manifest (tools : Tools) (dump : Manifest → String) (root : Tree) (script : FileName) (f : File)
    (hscript : (script, .file f) ∈ root.entries) (hkeep : keepsFile script = true) :
    let package := buildPackage tools dump root.entries script
    let files := package.manifest.files
    let walk := (iterPackageFiles root.entries).map fun x => asPosix x.1
    (package.members.map Member.name).Nodup ∧
    (package.members.map Member.name).Perm
      (manifestFileName :: files.map fun item => filesPrefix ++ "/" ++ item.relativePath) ∧
    (∃ m ∈ package.members, m.name = manifestFileName ∧ m.content = utf8 (dump package.manifest)) ∧
    (∀ item ∈ files, ∃ m ∈ package.members, m.name = filesPrefix ++ "/" ++ item.relativePath ∧
      item.sizeInBytes = m.content.length ∧ item.sha3 = (tools.sha3 m.content).b64) ∧
    files.Pairwise (fun a b => a.relativePath < b.relativePath) ∧
    (∃ item ∈ files, item.relativePath = package.manifest.entryScript) ∧
    (∃ item ∈ files, item.relativePath = "requirements.txt" ∨ item.relativePath = "pyproject.toml") ∧
    (files.map ManifestItem.relativePath).Perm
      (if "requirements.txt" ∈ walk ∨ "pyproject.toml" ∈ walk then walk else walk ++ ["requirements.txt"]) ∧
    ∀ root' : Tree, Relisted root.entries root'.entries →
      (buildPackage tools dump root'.entries script).manifest = package.manifest ∧
      (buildPackage tools dump root'.entries script).contentHash = package.contentHash := by
  intro package files walk
  have hperm : files.Perm (draftOf tools root.entries).items := files_perm
  have hpaths : (files.map ManifestItem.relativePath).Perm (withRequirements walk) := files_paths
  refine ⟨member_names_nodup root.distinct, ?_, ?_, fun item hi => described_member hi, files_sorted root.distinct, ?_, ?_,
    hpaths, fun root' hr => ?_⟩
  · rw [member_names]
    -- the manifest is the last member of the tar
    refine List.perm_append_comm.trans (List.Perm.cons _ ?_)
    exact (hperm.map _).symm
  · refine ⟨{ name := manifestFileName, content := utf8 (dump package.manifest) }, ?_, rfl, rfl⟩
    rw [members_eq]
    exact List.mem_append_right _ (List.mem_singleton.2 rfl)
  · -- the script is right in the directory
    have hin : script.text ∈ walk := by
      refine List.mem_map.2 ⟨([script], f), ?_, String.intercalate_singleton⟩
      exact List.mem_append_left _ (mem_filesIn.2 ⟨script, hscript, hkeep, rfl⟩)
    exact file_listed (mem_withRequirements hin)
  · obtain ⟨path, hpath, hspec⟩ := requirements_mem walk
    obtain ⟨item, hi, rfl⟩ := file_listed hpath
    exact ⟨item, hi, hspec⟩
  · -- the manifest and the hash are made of the sorted items alone
    have hsame : (buildPackage tools dump root'.entries script).manifest.files = files :=
      (files_relisted root.distinct hr).symm
    refine ⟨?_, ?_⟩
    · exact congrArg (fun files => ({ entryScript := script.text, files := files } : Manifest)) hsame
    · change computeContentHash tools (buildPackage tools dump root'.entries script).manifest.files = _
      rw [hsame]
      rfl

/-! ### A small project -/

/-- Library functions that hash nothing. -/
def blankTools : Tools where
  sha3 _ := ⟨List.replicate 32 0, List.length_replicate⟩
  lower := id
  distributions := [(some "dlt", some "1.0.0")]

/-- The name of the pipeline script. -/
def pipelineScript : FileName := ⟨"pipeline.py", by decide⟩

/-- The name of a file with requirements. -/
def requirementsFile : FileName := ⟨"requirements.txt", by decide⟩

/-- A directory with a script, its cache, and a package with requirements of its own. -/
def smallProject : Tree where
  entries := [
    (⟨"__pycache__", by decide⟩, .dir [(⟨"pipeline.txt", by decide⟩, .file ⟨[1], 0, 0⟩)]),
    (⟨"helpers", by decide⟩, .dir [(requirementsFile, .file ⟨[2, 3], 0, 0⟩)]),
    (pipelineScript, .file ⟨[4], 0, 0⟩)]
  distinct := by simp [Distinct, Node.Distinct, pipelineScript]

/-- Its requirements are made up: those of the package are not at the root. -/
theorem package_manifest_small : ((buildPackage blankTools (fun _ => "") smallProject.entries pipelineScript).manifest.files.map
    ManifestItem.relativePath).Perm ["pipeline.py", "helpers/requirements.txt", "requirements.txt"] := by
  obtain ⟨-, -, -, -, -, -, -, hpaths, -⟩ := package_manifest blankTools (fun _ => "") smallProject pipelineScript
    ⟨[4], 0, 0⟩ (by simp [smallProject]) (by decide)
  have hwalk : (iterPackageFiles smallProject.entries).map (fun x => asPosix x.1) =
      ["pipeline.py", "helpers/requirements.txt"] := by
    decide
  rw [hwalk] at hpaths
  simpa using hpaths

end Matterbeam
