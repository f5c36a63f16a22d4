import Matterbeam.Model.Routing

/-!
# Addresses of tables

The server takes apart what the client has put together, if the HTTP library has left it alone. It
does not undo what the library does to characters that are illegal in a URL.

* `postRoute_ingest`: the targets that are routed to a table.
* `target_of_route`: if a table is reached, its path was sent as it is.
* `addressed_iff`: **a table is reached exactly if its name survives** the HTTP library.
-/

namespace Matterbeam

/-! ## Routes -/

/-- The path of an ingest, without the slash at its start. -/
def ingestRest (pid table : List Char) : List Char :=
  "collectors".toList ++ '/' :: (pid ++ '/' :: ("ingest".toList ++ '/' :: (table ++ bulk)))

/-- The path of an ingest. -/
def ingestPath (pid table : List Char) : List Char := '/' :: ingestRest pid table

theorem path_ingest (rq : IngestRequest) : (Request.ingest rq).path.toList = ingestPath rq.pid.toList rq.table.toList := by
  have hcollectors : "/collectors/".toList = '/' :: ("collectors".toList ++ ['/']) := rfl
  have hingest : "/ingest/".toList = '/' :: ("ingest".toList ++ ['/']) := rfl
  unfold Request.path ingestPath ingestRest bulk
  simp only [String.toList_append, hcollectors, hingest, List.cons_append, List.append_assoc, List.nil_append]

section

variable {s pid table : List Char}

/-- The slashes that are stripped. -/
theorem stripSlashes_eq (s : List Char) :
    ∃ a b, s = List.replicate a '/' ++ stripSlashes s ++ List.replicate b '/' := by
  have hfront : s.takeWhile (· = '/') = List.replicate (s.takeWhile (· = '/')).length '/' :=
    List.eq_replicate_of_mem fun c hc => by simpa using List.mem_takeWhile_imp hc
  have hback : (s.dropWhile (· = '/')).rtakeWhile (· = '/') =
      List.replicate ((s.dropWhile (· = '/')).rtakeWhile (· = '/')).length '/' :=
    List.eq_replicate_of_mem fun c hc => by simpa using List.mem_rtakeWhile_imp hc
  refine ⟨(s.takeWhile (· = '/')).length, ((s.dropWhile (· = '/')).rtakeWhile (· = '/')).length, ?_⟩
  rw [← hfront, ← hback]
  unfold stripSlashes
  rw [List.append_assoc, List.rdropWhile_append_rtakeWhile, List.takeWhile_append_dropWhile]

theorem splitOn_ingestRest (hpid : '/' ∉ pid) (htable : '/' ∉ table) :
    (ingestRest pid table).splitOn '/' = ["collectors".toList, pid, "ingest".toList, table ++ bulk] := by
  have hlast : '/' ∉ table ++ bulk := by
    rw [List.mem_append]
    exact fun h => h.elim htable (by decide)
  unfold ingestRest
  rw [List.splitOn_append_cons_self_of_not_mem (by decide), List.splitOn_append_cons_self_of_not_mem hpid,
    List.splitOn_append_cons_self_of_not_mem (by decide), List.splitOn_eq_singleton hlast]

theorem ingestRest_eq (pid table : List Char) :
    ['/'].intercalate ["collectors".toList, pid, "ingest".toList, table ++ bulk] = ingestRest pid table := by
  unfold ingestRest List.intercalate
  simp only [List.intersperse, List.flatten_cons, List.flatten_nil, List.append_nil, List.singleton_append]

theorem rdrop_append {α : Type} (before after : List α) : (before ++ after).rdrop after.length = before := by
  unfold List.rdrop
  rw [List.length_append, Nat.add_sub_cancel, List.take_left']
  rfl

/-- **The targets that are routed to a table**, up to slashes around them. -/
theorem postRoute_ingest (hpid : '/' ∉ pid) (htable : '/' ∉ table) :
    postRoute s = .ingest pid table ↔ stripSlashes s = ingestRest pid table := by
  constructor
  · intro h
    have hjoin : ['/'].intercalate ((stripSlashes s).splitOn '/') = stripSlashes s := List.intercalate_splitOn '/'
    unfold postRoute at h
    generalize (stripSlashes s).splitOn '/' = parts at h hjoin
    match parts with
    | [collectors] =>
      dsimp only at h
      by_cases h₁ : collectors = "collectors".toList
      · rw [if_pos h₁] at h
        cases h
      · rw [if_neg h₁] at h
        cases h
    | [collectors, pid', kind, last] =>
      dsimp only at h
      by_cases h₁ : collectors = "collectors".toList ∧ kind = "deployment".toList ∧ last = "upload-url".toList
      · rw [if_pos h₁] at h
        cases h
      by_cases h₂ : collectors = "collectors".toList ∧ kind = "deployment".toList ∧ last = "build".toList
      · rw [if_neg h₁, if_pos h₂] at h
        cases h
      rw [if_neg h₁, if_neg h₂] at h
      by_cases h₃ : collectors = "collectors".toList ∧ kind = "ingest".toList ∧ bulk <:+ last
      · -- only the route of an ingest has a table
        rw [if_pos h₃] at h
        obtain ⟨rfl, rfl, before, rfl⟩ := h₃
        rw [rdrop_append] at h
        cases h
        rw [← hjoin, ingestRest_eq]
      · rw [if_neg h₃] at h
        split_ifs at h
    | [] | [_, _] | [_, _, _] | _ :: _ :: _ :: _ :: _ :: _ => cases h
  · intro h
    unfold postRoute
    rw [h, splitOn_ingestRest hpid htable]
    dsimp only
    have hkind : "ingest".toList ≠ "deployment".toList := by decide
    rw [if_neg (fun h => hkind h.2.1), if_neg (fun h => hkind h.2.1), if_pos ⟨rfl, rfl, List.suffix_append _ _⟩, rdrop_append]

/-- A table is reached by its own path. -/
theorem stripSlashes_ingestPath (pid table : List Char) : stripSlashes (ingestPath pid table) = ingestRest pid table := by
  have hfront : (ingestPath pid table).dropWhile (· = '/') = ingestRest pid table := rfl
  -- it ends with a letter
  have hback : ingestRest pid table =
      ("collectors".toList ++ '/' :: (pid ++ '/' :: ("ingest".toList ++ '/' :: (table ++ ":bul".toList)))) ++ ['k'] := by
    have hbulk : bulk = ":bul".toList ++ ['k'] := rfl
    unfold ingestRest
    rw [hbulk]
    simp only [List.append_assoc, List.cons_append]
  unfold stripSlashes
  rw [hfront, hback, List.rdropWhile_concat_neg _ _ _ (by decide)]

theorem count_ingestPath (hpid : '/' ∉ pid) (htable : '/' ∉ table) : (ingestPath pid table).count '/' = 4 := by
  have hcollectors : "collectors".toList.count '/' = 0 := by decide
  have hingest : "ingest".toList.count '/' = 0 := by decide
  have hbulk : bulk.count '/' = 0 := by decide
  unfold ingestPath ingestRest
  simp only [List.count_append, List.count_cons_self, hcollectors, hingest, hbulk, List.count_eq_zero.2 hpid,
    List.count_eq_zero.2 htable]

/-! ## Targets -/

variable {lib : HttpLibrary}

theorem target_head (s : List Char) : (lib.target ('/' :: s)).head? = some '/' := by
  obtain ⟨t, ht⟩ : ∃ t, beforeMark (('/' :: s).takeWhile (· ≠ '#')) = '/' :: t := ⟨_, rfl⟩
  unfold HttpLibrary.target
  dsimp only
  rw [ht, List.head?_append, lib.path_head]
  rfl

/-- The library adds no slashes. -/
theorem target_slashes (lib : HttpLibrary) (s : List Char) : (lib.target s).count '/' ≤ s.count '/' := by
  have hsplit : beforeMark (s.takeWhile (· ≠ '#')) ++ fromMark (s.takeWhile (· ≠ '#')) = s.takeWhile (· ≠ '#') :=
    List.takeWhile_append_dropWhile
  have hurl : (s.takeWhile (· ≠ '#')).count '/' ≤ s.count '/' := (List.takeWhile_sublist _).count_le _
  rw [← hsplit, List.count_append] at hurl
  have hpath := lib.path_slashes (beforeMark (s.takeWhile (· ≠ '#')))
  have hquery := lib.query_slashes (fromMark (s.takeWhile (· ≠ '#')))
  unfold HttpLibrary.target
  dsimp only
  rw [List.count_append]
  omega

/-- **If a table is reached**, its path was sent as it is. -/
theorem target_of_route (hpid : '/' ∉ pid) (htable : '/' ∉ table) :
    postRoute (lib.target (ingestPath pid table)) = .ingest pid table ↔
      lib.target (ingestPath pid table) = ingestPath pid table := by
  rw [postRoute_ingest hpid htable]
  refine ⟨fun h => ?_, fun h => by rw [h, stripSlashes_ingestPath]⟩
  obtain ⟨a, b, htarget⟩ := stripSlashes_eq (lib.target (ingestPath pid table))
  have hcount := target_slashes lib (ingestPath pid table)
  have hhead : (lib.target (ingestPath pid table)).head? = some '/' := target_head _
  have hfour := count_ingestPath hpid htable
  have hrest : (ingestPath pid table).count '/' = (ingestRest pid table).count '/' + 1 := List.count_cons_self
  rw [h] at htarget
  rw [htarget, List.count_append, List.count_append, List.count_replicate_self, List.count_replicate_self] at hcount
  cases a with
  | zero =>
    -- it would not begin with a slash
    have hc : (List.replicate 0 '/' ++ ingestRest pid table ++ List.replicate b '/').head? = some 'c' := rfl
    rw [htarget, hc] at hhead
    exact absurd hhead (by decide)
  | succ a =>
    obtain rfl : a = 0 := by omega
    obtain rfl : b = 0 := by omega
    rw [htarget, List.replicate_zero, List.append_nil]
    rfl

end

/-! ## What survives -/

section

variable {s t : List Char}

theorem before_append_from (s : List Char) : beforeMark s ++ fromMark s = s := List.takeWhile_append_dropWhile

theorem beforeMark_append (h : '?' ∉ s) (t : List Char) : beforeMark (s ++ t) = s ++ beforeMark t :=
  List.takeWhile_append_of_pos fun _ hc => decide_eq_true fun he => h (he ▸ hc)

theorem fromMark_append (h : '?' ∉ s) (t : List Char) : fromMark (s ++ t) = fromMark t :=
  List.dropWhile_append_of_pos fun _ hc => decide_eq_true fun he => h (he ▸ hc)

/-- What is before the first `?` of a text that has one. -/
theorem mark_append (h : '?' ∈ s) (t : List Char) :
    beforeMark (s ++ t) = beforeMark s ∧ fromMark (s ++ t) = fromMark s ++ t := by
  obtain ⟨x, y, rfl, hx⟩ := List.eq_append_cons_of_mem h
  have hb : ∀ y : List Char, beforeMark (x ++ '?' :: y) = x := fun y => by
    rw [beforeMark_append hx]
    exact List.append_nil x
  have hf : ∀ y : List Char, fromMark (x ++ '?' :: y) = '?' :: y := fun y => fromMark_append hx _
  rw [List.append_assoc, List.cons_append, hb, hb, hf, hf]
  exact ⟨rfl, rfl⟩

theorem mark_of_not_mem (h : '?' ∉ s) : beforeMark s = s ∧ fromMark s = [] := by
  have hb := beforeMark_append h []
  have hf := fromMark_append h []
  rw [List.append_nil] at hb hf
  rw [hb, hf]
  exact ⟨List.append_nil s, rfl⟩

theorem fromMark_of_mem (h : '?' ∈ s) : ∃ y, fromMark s = '?' :: y := by
  obtain ⟨x, y, rfl, hx⟩ := List.eq_append_cons_of_mem h
  exact ⟨y, fromMark_append hx _⟩

theorem fromMark_cases (s : List Char) : fromMark s = [] ∨ ∃ y, fromMark s = '?' :: y := by
  by_cases h : '?' ∈ s
  · exact .inr (fromMark_of_mem h)
  · exact .inl (mark_of_not_mem h).2

end

/-- The part of a path that is the same for all tables. -/
def ingestRoot (pid : List Char) : List Char :=
  '/' :: ("collectors".toList ++ '/' :: (pid ++ '/' :: ("ingest".toList ++ ['/'])))

theorem ingestPath_eq (pid table : List Char) : ingestPath pid table = ingestRoot pid ++ (table ++ bulk) := by
  unfold ingestPath ingestRest ingestRoot
  simp only [List.cons_append, List.append_assoc, List.nil_append]

theorem legal_root {pid : List Char} (hpid : ∀ c ∈ pid, c.isAlphanum = true) :
    ∀ c ∈ ingestRoot pid, pathLegal c = true := by
  have hcollectors : ∀ c ∈ "collectors".toList, pathLegal c = true := List.all_eq_true.1 (by decide)
  have hingest : ∀ c ∈ "ingest".toList ++ ['/'], pathLegal c = true := List.all_eq_true.1 (by decide)
  intro c hc
  unfold ingestRoot at hc
  rw [List.mem_cons, List.mem_append, List.mem_cons, List.mem_append, List.mem_cons] at hc
  rcases hc with rfl | hc | rfl | hc | rfl | hc
  · rfl
  · exact hcollectors c hc
  · rfl
  · unfold pathLegal
    rw [hpid c hc]
    rfl
  · rfl
  · exact hingest c hc

/-- The library leaves both parts of a path alone. -/
def HttpLibrary.Keeps (lib : HttpLibrary) (s : List Char) : Prop :=
  lib.quotePath (beforeMark s) = beforeMark s ∧ lib.quoteQuery (fromMark s) = fromMark s

/-- **The name of a table survives** the HTTP library: its characters are legal where they stand, and
if it has a `%`, or dots for its path, the library keeps these. -/
structure Survives (lib : HttpLibrary) (pid table : List Char) : Prop where
  path : ∀ c ∈ beforeMark table, pathLegal c = true ∨ c = '%'
  query : ∀ c ∈ fromMark table, queryLegal c = true ∨ c = '%'
  kept : '%' ∈ table ∨ ('?' ∈ table ∧ isDots (beforeMark table) = true) → lib.Keeps (ingestPath pid table)

section

variable {lib : HttpLibrary} {pid table : List Char}

/-- The parts of a path that is routed to a table. -/
theorem mark_ingestPath (hpid : ∀ c ∈ pid, c.isAlphanum = true) (table : List Char) :
    beforeMark (ingestPath pid table) = ingestRoot pid ++ beforeMark (table ++ bulk) ∧
      fromMark (ingestPath pid table) = fromMark (table ++ bulk) := by
  have hmark : '?' ∉ ingestRoot pid := fun h => absurd (legal_root hpid _ h) (by decide)
  rw [ingestPath_eq, beforeMark_append hmark, fromMark_append hmark]
  exact ⟨rfl, rfl⟩

theorem target_of_url {s : List Char} (h : '#' ∉ s) :
    lib.target s = lib.quotePath (beforeMark s) ++ lib.quoteQuery (fromMark s) := by
  have hurl : s.takeWhile (· ≠ '#') = s := List.takeWhile_eq_self_iff.2 fun c hc => decide_eq_true fun he => h (he ▸ hc)
  unfold HttpLibrary.target
  rw [hurl]

/-- What is illegal in a path is not sent in one. -/
theorem notMem_quotePath {c : Char} (hc : pathLegal c = false) (hpercent : c ≠ '%') (s : List Char) : c ∉ lib.quotePath s := by
  intro h
  rcases lib.path_chars s c h with hlegal | he
  · rw [hc] at hlegal
    cases hlegal
  · exact hpercent he

theorem notMem_quoteQuery {c : Char} (hc : queryLegal c = false) (hpercent : c ≠ '%') (s : List Char) :
    c ∉ lib.quoteQuery s := by
  intro h
  rcases lib.query_chars s c h with hlegal | he
  · rw [hc] at hlegal
    cases hlegal
  · exact hpercent he

/-- What is sent has no `#`. -/
theorem hash_notMem_quoted (s t : List Char) : '#' ∉ lib.quotePath s ++ lib.quoteQuery t := by
  rw [List.mem_append]
  exact fun h => h.elim (notMem_quotePath (by decide) (by decide) s) (notMem_quoteQuery (by decide) (by decide) t)

/-- **A path that is sent as it is** has both its parts left alone. -/
theorem keeps_of_target {s : List Char} (h : lib.target s = s) : lib.Keeps s := by
  have hhash : '#' ∉ s := by
    rw [← h]
    exact hash_notMem_quoted _ _
  rw [target_of_url hhash] at h
  have hmark : '?' ∉ lib.quotePath (beforeMark s) := notMem_quotePath (by decide) (by decide) _
  -- the query is nothing, or begins with the mark
  have hquery : beforeMark (lib.quoteQuery (fromMark s)) = [] := by
    rcases fromMark_cases s with hf | ⟨y, hf⟩
    · rw [hf, lib.query_nil]
      rfl
    · rw [hf]
      cases hq : lib.quoteQuery ('?' :: y) with
      | nil => rfl
      | cons c q =>
        have hc : c = '?' := lib.query_head y c (by rw [hq]; rfl)
        rw [hc]
        rfl
  have hbefore : lib.quotePath (beforeMark s) = beforeMark s := by
    have hcut := congrArg beforeMark h
    rwa [beforeMark_append hmark, hquery, List.append_nil] at hcut
  have hsplit : lib.quotePath (beforeMark s) ++ lib.quoteQuery (fromMark s) = beforeMark s ++ fromMark s :=
    h.trans (before_append_from s).symm
  rw [hbefore] at hsplit
  exact ⟨hbefore, List.append_cancel_left hsplit⟩

theorem survives_of_target (hpid : ∀ c ∈ pid, c.isAlphanum = true)
    (h : lib.target (ingestPath pid table) = ingestPath pid table) : Survives lib pid table := by
  obtain ⟨hpath, hquery⟩ := keeps_of_target h
  obtain ⟨hbefore, hfrom⟩ := mark_ingestPath hpid table
  refine ⟨fun c hc => ?_, fun c hc => ?_, fun _ => ⟨hpath, hquery⟩⟩
  · have hmem : c ∈ beforeMark (ingestPath pid table) := by
      rw [hbefore]
      refine List.mem_append_right _ ?_
      by_cases hm : '?' ∈ table
      · rwa [(mark_append hm bulk).1]
      · rw [beforeMark_append hm]
        rw [(mark_of_not_mem hm).1] at hc
        exact List.mem_append_left _ hc
    rw [← hpath] at hmem
    exact lib.path_chars _ c hmem
  · by_cases hm : '?' ∈ table
    · have hmem : c ∈ fromMark (ingestPath pid table) := by
        rw [hfrom, (mark_append hm bulk).2]
        exact List.mem_append_left _ hc
      rw [← hquery] at hmem
      exact lib.query_chars _ c hmem
    · rw [(mark_of_not_mem hm).2] at hc
      cases hc

theorem isDots_bulk (s : List Char) : isDots (s ++ bulk) = false := by
  refine decide_eq_false fun h => ?_
  simp only [List.mem_cons, List.not_mem_nil, or_false] at h
  rcases h with h | h
  all_goals
    have hlength := congrArg List.length h
    have hbulk : bulk.length = 5 := rfl
    simp only [List.length_append, hbulk, List.length_cons, List.length_nil] at hlength
    omega

theorem isDots_alphanum (hpid : ∀ c ∈ pid, c.isAlphanum = true) : isDots pid = false := by
  refine decide_eq_false fun h => ?_
  simp only [List.mem_cons, List.not_mem_nil, or_false] at h
  rcases h with rfl | rfl
  · exact absurd (hpid '.' List.mem_cons_self) (by decide)
  · exact absurd (hpid '.' List.mem_cons_self) (by decide)

/-- The segments of the path. -/
theorem splitOn_root (hpid : '/' ∉ pid) {last : List Char} (hlast : '/' ∉ last) :
    (ingestRoot pid ++ last).splitOn '/' = [[], "collectors".toList, pid, "ingest".toList, last] := by
  have hpath : ingestRoot pid ++ last =
      [] ++ '/' :: ("collectors".toList ++ '/' :: (pid ++ '/' :: ("ingest".toList ++ '/' :: last))) := by
    unfold ingestRoot
    simp only [List.cons_append, List.append_assoc, List.nil_append]
  rw [hpath, List.splitOn_append_cons_self_of_not_mem List.not_mem_nil,
    List.splitOn_append_cons_self_of_not_mem (by decide), List.splitOn_append_cons_self_of_not_mem hpid,
    List.splitOn_append_cons_self_of_not_mem (by decide), List.splitOn_eq_singleton hlast]

theorem legal_bulk : ∀ c ∈ bulk, pathLegal c = true := List.all_eq_true.1 (by decide)

/-- The last segment of the path: the name up to its `?`, or all of it with the suffix. -/
theorem beforeMark_bulk (table : List Char) : (beforeMark (table ++ bulk) = beforeMark table ∧ '?' ∈ table) ∨
    beforeMark (table ++ bulk) = beforeMark table ++ bulk := by
  by_cases hm : '?' ∈ table
  · exact .inl ⟨(mark_append hm bulk).1, hm⟩
  · rw [beforeMark_append hm, (mark_of_not_mem hm).1]
    exact .inr rfl

/-- A legal last segment is that of a legal path. -/
theorem quotePath_legal (hpid : ∀ c ∈ pid, c.isAlphanum = true) {last : List Char} (hslash : '/' ∉ last)
    (hlast : ∀ c ∈ last, pathLegal c = true) (hdots : isDots last = false) :
    lib.quotePath (ingestRoot pid ++ last) = ingestRoot pid ++ last := by
  have hslash' : '/' ∉ pid := fun hm => absurd (hpid _ hm) (by decide)
  refine lib.path_legal _ (fun c hc => ?_) fun segment hs => ?_
  · exact (List.mem_append.1 hc).elim (legal_root hpid c) (hlast c)
  · rw [splitOn_root hslash' hslash] at hs
    simp only [List.mem_cons, List.not_mem_nil, or_false] at hs
    rcases hs with rfl | rfl | rfl | rfl | rfl
    · rfl
    · decide
    · exact isDots_alphanum hpid
    · decide
    · exact hdots

/-- A legal query is left alone. -/
theorem quoteQuery_legal (h : ∀ c ∈ fromMark table, queryLegal c = true) :
    lib.quoteQuery (fromMark (table ++ bulk)) = fromMark (table ++ bulk) := by
  by_cases hm : '?' ∈ table
  · obtain ⟨y, hy⟩ := fromMark_of_mem hm
    rw [(mark_append hm bulk).2, hy, List.cons_append]
    refine lib.query_legal _ (by simp [bulk]) fun c hc => ?_
    rcases List.mem_append.1 hc with hc | hc
    · exact h c (hy ▸ List.mem_cons_of_mem _ hc)
    · exact Bool.or_eq_true_iff.2 (.inl (legal_bulk c hc))
  · rw [fromMark_append hm]
    exact lib.query_nil

theorem Survives.keeps (hpid : ∀ c ∈ pid, c.isAlphanum = true) (htable : '/' ∉ table) (h : Survives lib pid table) :
    lib.Keeps (ingestPath pid table) := by
  by_cases hkept : '%' ∈ table ∨ ('?' ∈ table ∧ isDots (beforeMark table) = true)
  · exact h.kept hkept
  · obtain ⟨hpercent, hdots⟩ := not_or.1 hkept
    -- without a `%`, all the characters are legal
    have hpath : ∀ c ∈ beforeMark table, pathLegal c = true := fun c hc =>
      (h.path c hc).resolve_right fun he => hpercent ((List.takeWhile_sublist _).subset (he ▸ hc))
    have hquery : ∀ c ∈ fromMark table, queryLegal c = true := fun c hc =>
      (h.query c hc).resolve_right fun he => hpercent ((List.dropWhile_sublist _).subset (he ▸ hc))
    have hslash : '/' ∉ beforeMark (table ++ bulk) := fun hm =>
      (List.mem_append.1 ((List.takeWhile_sublist _).subset hm)).elim htable (by decide)
    obtain ⟨hbefore, hfrom⟩ := mark_ingestPath hpid table
    constructor
    · rw [hbefore]
      rcases beforeMark_bulk table with ⟨he, hm⟩ | he
      · have hsegment : isDots (beforeMark table) = false := Bool.eq_false_iff.2 fun hd => hdots ⟨hm, hd⟩
        rw [he] at hslash ⊢
        exact quotePath_legal hpid hslash hpath hsegment
      · rw [he] at hslash ⊢
        refine quotePath_legal hpid hslash (fun c hc => ?_) (isDots_bulk _)
        exact (List.mem_append.1 hc).elim (hpath c) (legal_bulk c)
    · rw [hfrom]
      exact quoteQuery_legal hquery

theorem target_of_keeps {s : List Char} (h : lib.Keeps s) : lib.target s = s := by
  have hparts : lib.quotePath (beforeMark s) ++ lib.quoteQuery (fromMark s) = s := by
    rw [h.1, h.2, before_append_from]
  have hhash : '#' ∉ s := by
    rw [← hparts]
    exact hash_notMem_quoted _ _
  rw [target_of_url hhash, hparts]

end

/-- **A table is reached exactly if its name survives.** The request that a chunk is sent in is routed
to the ingest of just its pid and its table, if and only if the HTTP library leaves the name alone. -/
theorem addressed_iff (lib : HttpLibrary) (c : Chunk) (pid : String) (lines : List Envelope)
    (hpid : ∀ ch ∈ pid.toList, ch.isAlphanum = true) (htable : '/' ∉ c.tableName.toList) :
    postRoute (lib.target (Request.ingest (HttpTransport.ingestRequest c (some pid) lines)).path.toList) =
        .ingest pid.toList c.tableName.toList ↔
      Survives lib pid.toList c.tableName.toList := by
  have hslash : '/' ∉ pid.toList := fun hm => absurd (hpid _ hm) (by decide)
  have hpath : (Request.ingest (HttpTransport.ingestRequest c (some pid) lines)).path.toList =
      ingestPath pid.toList c.tableName.toList := path_ingest _
  rw [hpath, target_of_route hslash htable]
  exact ⟨survives_of_target hpid, fun h => target_of_keeps (h.keeps hpid htable)⟩

/-! ## A library -/

section

variable {kept : Char → Bool} {s : List Char}

theorem percentEncode_cons (kept : Char → Bool) (c : Char) (s : List Char) : percentEncode kept (c :: s) =
    (if kept c then [c] else (String.utf8EncodeChar c).flatMap percentByte) ++ percentEncode kept s := List.flatMap_cons

theorem percentEncode_eq_self (h : ∀ c ∈ s, kept c = true) : percentEncode kept s = s := by
  induction s with
  | nil => rfl
  | cons c s ih =>
    obtain ⟨hc, hs⟩ := List.forall_mem_cons.1 h
    rw [percentEncode_cons, if_pos hc, ih hs]
    rfl

/-- The characters of an escape. -/
theorem mem_percentByte {b : UInt8} {c : Char} (h : c ∈ percentByte b) : (pathLegal c = true ∨ c = '%') ∧ c ≠ '/' := by
  have hdigit : ∀ n < 16, pathLegal (upperHexDigit n) = true ∧ upperHexDigit n ≠ '/' := by decide
  unfold percentByte at h
  simp only [List.mem_cons, List.not_mem_nil, or_false] at h
  rcases h with rfl | rfl | rfl
  · exact ⟨.inr rfl, by decide⟩
  · obtain ⟨hl, hn⟩ := hdigit (b.toNat / 16 % 16) (Nat.mod_lt _ (by decide))
    exact ⟨.inl hl, hn⟩
  · obtain ⟨hl, hn⟩ := hdigit (b.toNat % 16) (Nat.mod_lt _ (by decide))
    exact ⟨.inl hl, hn⟩

theorem mem_percentEncode {c : Char} (h : c ∈ percentEncode kept s) : kept c = true ∨ pathLegal c = true ∨ c = '%' := by
  obtain ⟨c', -, hc⟩ := List.mem_flatMap.1 h
  by_cases hk : kept c' = true
  · rw [if_pos hk, List.mem_singleton] at hc
    exact .inl (hc ▸ hk)
  · rw [if_neg hk] at hc
    obtain ⟨b, -, hb⟩ := List.mem_flatMap.1 hc
    exact .inr (mem_percentByte hb).1

theorem count_percentEncode (s : List Char) : (percentEncode kept s).count '/' ≤ s.count '/' := by
  induction s with
  | nil => exact le_rfl
  | cons c s ih =>
    rw [percentEncode_cons, List.count_append, List.count_cons]
    by_cases hk : kept c = true
    · rw [if_pos hk, List.count_singleton]
      omega
    · have hnone : ((String.utf8EncodeChar c).flatMap percentByte).count '/' = 0 := by
        refine List.count_eq_zero.2 fun hm => ?_
        obtain ⟨b, -, hb⟩ := List.mem_flatMap.1 hm
        exact (mem_percentByte hb).2 rfl
      rw [if_neg hk, hnone]
      omega

end

/-- A library that leaves every `%` alone, and resolves no dots. -/
def HttpLibrary.plain : HttpLibrary where
  quotePath := percentEncode fun c => pathLegal c || c = '%'
  quoteQuery := percentEncode fun c => queryLegal c || c = '%'
  path_legal s h _ := percentEncode_eq_self fun c hc => by rw [h c hc]; rfl
  query_legal s _ h := percentEncode_eq_self fun c hc => by
    rcases List.mem_cons.1 hc with rfl | hc
    · decide
    · rw [h c hc]
      rfl
  path_chars s c hc := by simpa using mem_percentEncode hc
  query_chars s c hc := by
    have hmem := mem_percentEncode hc
    have hlegal : pathLegal c = true → queryLegal c = true := fun h => Bool.or_eq_true_iff.2 (.inl h)
    rw [Bool.or_eq_true, decide_eq_true_eq] at hmem
    tauto
  path_slashes s := count_percentEncode s
  query_slashes s := count_percentEncode s
  path_head s := rfl
  query_head s c hc := by
    rw [percentEncode_cons, if_pos (by decide)] at hc
    exact (Option.mem_some_iff.1 hc).symm
  query_nil := rfl

/-- A chunk of a table. -/
def chunkOf (tableName : String) : Chunk := ⟨"", "shop", tableName, [], [], [], "1.0", "a.jsonl", 0⟩

/-- Where the chunk of a table is routed. -/
def routeOf (tableName : String) : Route :=
  postRoute (HttpLibrary.plain.target (Request.ingest (HttpTransport.ingestRequest (chunkOf tableName) (some "p1") [])).path.toList)

/-- A name with a question mark is reached. -/
theorem addressed_iff_query : routeOf "orders?2024" = .ingest "p1".toList "orders?2024".toList :=
  (addressed_iff .plain (chunkOf "orders?2024") "p1" [] (List.all_eq_true.1 (by decide)) (by decide)).2
    ⟨fun c hc => .inl (List.all_eq_true.1 (by decide : (beforeMark "orders?2024".toList).all pathLegal = true) c hc),
      fun c hc => .inl (List.all_eq_true.1 (by decide : (fromMark "orders?2024".toList).all queryLegal = true) c hc),
      fun h => absurd h (by decide)⟩

/-- **Two tables reach the same recordtype**, and a third none: the server does not undo the escape of
a space, and the URL ends at a `#`. -/
theorem spaced_name : routeOf "a b" ≠ .ingest "p1".toList "a b".toList ∧
    routeOf "a b" = .ingest "p1".toList "a%20b".toList ∧ routeOf "a%20b" = .ingest "p1".toList "a%20b".toList ∧
    routeOf "a#b" = .notFound := by
  decide

end Matterbeam
