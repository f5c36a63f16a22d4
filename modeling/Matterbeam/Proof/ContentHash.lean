import Matterbeam.Base.Cut
import Matterbeam.Proof.Package
import Mathlib.Data.List.GetD
import Mathlib.Data.List.Nodup

/-!
# What the content hash is a hash of

The paths and the digests of the files, with nothing between them. A digest is a text of 44
characters that shows where it is, so the bytes are read back, up to the digests that are in
paths.

* `base64_inj`: base64 is read back. `Digest.b64_digestText`: a digest looks like one.
* `hashed_reads_back`: **the bytes are those of another list just if the lists cut alike**.
* `content_hash_same`: two projects with different files, and one content hash.
-/

namespace Matterbeam

open Cut

/-! ## Base64 -/

theorem base64Letters_length : base64Letters.length = 64 := by decide

theorem base64Letter_mem {n : ℕ} (h : n < 64) : base64Letter n ∈ base64Letters := by
  have hn : n < base64Letters.length := by rwa [base64Letters_length]
  unfold base64Letter
  rw [List.getD_eq_getElem _ _ hn]
  exact List.getElem_mem hn

theorem base64Letter_inj {m n : ℕ} (hm : m < 64) (hn : n < 64) (h : base64Letter m = base64Letter n) : m = n := by
  have hnodup : base64Letters.Nodup := by decide
  have hm' : m < base64Letters.length := by rwa [base64Letters_length]
  have hn' : n < base64Letters.length := by rwa [base64Letters_length]
  unfold base64Letter at h
  rw [List.getD_eq_getElem _ _ hm', List.getD_eq_getElem _ _ hn'] at h
  exact (hnodup.getElem_inj_iff).1 h

/-- **Base64 is read back.** -/
theorem base64_inj {bs bs' : Bytes} (hlen : bs.length = bs'.length) (h : base64 bs = base64 bs') : bs = bs' := by
  induction bs using base64.induct generalizing bs' with
  | case1 => exact (List.eq_nil_of_length_eq_zero hlen.symm).symm
  | case2 a =>
    -- one byte is left over: two letters have its six and its two bits
    obtain ⟨a', rfl⟩ := List.length_eq_one_iff.1 hlen.symm
    simp only [base64, List.cons.injEq, and_true] at h
    have ha := a.toNat_lt
    have ha' := a'.toNat_lt
    have h₁ := base64Letter_inj (by omega) (by omega) h.1
    have h₂ := base64Letter_inj (by omega) (by omega) h.2
    rw [UInt8.toNat_inj.1 (show a.toNat = a'.toNat by omega)]
  | case3 a b =>
    -- two bytes are left over, in three letters
    obtain ⟨a', b', rfl⟩ := List.length_eq_two.1 hlen.symm
    simp only [base64, List.cons.injEq, and_true] at h
    have ha := a.toNat_lt
    have hb := b.toNat_lt
    have ha' := a'.toNat_lt
    have hb' := b'.toNat_lt
    have h₁ := base64Letter_inj (by omega) (by omega) h.1
    have h₂ := base64Letter_inj (by omega) (by omega) h.2.1
    have h₃ := base64Letter_inj (by omega) (by omega) h.2.2
    rw [UInt8.toNat_inj.1 (show a.toNat = a'.toNat by omega), UInt8.toNat_inj.1 (show b.toNat = b'.toNat by omega)]
  | case4 a b c bs ih =>
    -- three bytes are in four letters, and the rest is read back from the rest
    match bs', hlen with
    | a' :: b' :: c' :: bs', hlen =>
      simp only [base64, List.cons.injEq] at h
      have ha := a.toNat_lt
      have hb := b.toNat_lt
      have hc := c.toNat_lt
      have ha' := a'.toNat_lt
      have hb' := b'.toNat_lt
      have hc' := c'.toNat_lt
      have h₁ := base64Letter_inj (by omega) (by omega) h.1
      have h₂ := base64Letter_inj (by omega) (by omega) h.2.1
      have h₃ := base64Letter_inj (by omega) (by omega) h.2.2.1
      have h₄ := base64Letter_inj (by omega) (by omega) h.2.2.2.1
      rw [UInt8.toNat_inj.1 (show a.toNat = a'.toNat by omega), UInt8.toNat_inj.1 (show b.toNat = b'.toNat by omega),
        UInt8.toNat_inj.1 (show c.toNat = c'.toNat by omega), ih (by simpa using hlen) h.2.2.2.2]

theorem Digest.b64_inj {d d' : Digest} (h : d.b64 = d'.b64) : d = d' := by
  obtain ⟨bs, hbs⟩ := d
  obtain ⟨bs', hbs'⟩ := d'
  obtain rfl := base64_inj (hbs.trans hbs'.symm) (String.ofList_injective h)
  rfl

/-- Base64 of bytes of which two are left over: letters, and then a `=`. -/
theorem base64_letters {bs : Bytes} (h : bs.length % 3 = 2) :
    ∃ body, base64 bs = body ++ ['='] ∧ 3 * (body.length + 1) = 4 * (bs.length + 1) ∧ ∀ c ∈ body, c ∈ base64Letters := by
  induction bs using base64.induct with
  | case1 => cases h
  | case2 a => cases h
  | case3 a b =>
    have ha := a.toNat_lt
    have hb := b.toNat_lt
    refine ⟨[_, _, _], rfl, rfl, ?_⟩
    simp only [List.mem_cons, List.not_mem_nil, or_false]
    rintro c (rfl | rfl | rfl)
    · exact base64Letter_mem (by omega)
    · exact base64Letter_mem (by omega)
    · exact base64Letter_mem (by omega)
  | case4 a b c bs ih =>
    have ha := a.toNat_lt
    have hb := b.toNat_lt
    have hc := c.toNat_lt
    simp only [List.length_cons] at h
    obtain ⟨body, hbody, hlen, hmem⟩ := ih (by omega)
    refine ⟨_ :: _ :: _ :: _ :: body, by rw [base64, hbody]; rfl, by simp only [List.length_cons]; omega, ?_⟩
    simp only [List.mem_cons]
    rintro x (rfl | rfl | rfl | rfl | hx)
    · exact base64Letter_mem (by omega)
    · exact base64Letter_mem (by omega)
    · exact base64Letter_mem (by omega)
    · exact base64Letter_mem (by omega)
    · exact hmem x hx

/-! ## Digests in texts -/

/-- The text looks like a digest: 43 letters of base64, and a `=`. -/
def DigestText (text : List Char) : Prop := (∀ c ∈ text.take 43, c ∈ base64Letters) ∧ text.drop 43 = ['=']

instance : DecidablePred DigestText := fun text =>
  inferInstanceAs (Decidable ((∀ c ∈ text.take 43, c ∈ base64Letters) ∧ text.drop 43 = ['=']))

theorem digestText_iff {text : List Char} :
    DigestText text ↔ ∃ body : List Char, text = body ++ ['='] ∧ body.length = 43 ∧ ∀ c ∈ body, c ∈ base64Letters := by
  constructor
  · rintro ⟨hmem, hdrop⟩
    refine ⟨text.take 43, ?_, ?_, hmem⟩
    · rw [← hdrop, List.take_append_drop]
    · have hlen := congrArg List.length hdrop
      rw [List.length_drop, List.length_singleton] at hlen
      rw [List.length_take]
      omega
  · rintro ⟨body, rfl, hlen, hmem⟩
    unfold DigestText
    rw [← hlen, List.take_left, List.drop_left]
    exact ⟨hmem, rfl⟩

/-- **A digest looks like one.** -/
theorem Digest.b64_digestText (d : Digest) : DigestText d.b64.toList := by
  have hlen := d.length_eq
  have hleft : d.bytes.length % 3 = 2 := by omega
  obtain ⟨body, hbody, hlen', hmem⟩ := base64_letters hleft
  unfold Digest.b64
  rw [String.toList_ofList, hbody]
  exact digestText_iff.2 ⟨body, rfl, by omega, hmem⟩

/-- Digests end in the only `=` that they have, so they do not overlap. -/
theorem DigestText.apart {u v w : List Char} (h : DigestText (u ++ v)) (h' : DigestText (v ++ w)) (hv : v ≠ []) : u = [] := by
  obtain ⟨body, hbody, hlen, -⟩ := digestText_iff.1 h
  obtain ⟨body', hbody', hlen', hletters⟩ := digestText_iff.1 h'
  have hpad : '=' ∉ base64Letters := by decide
  obtain ⟨v', x, rfl⟩ := List.eq_nil_or_concat' v |>.resolve_left hv
  rw [← List.append_assoc] at hbody
  obtain ⟨rfl, hx⟩ := List.append_inj' hbody rfl
  obtain rfl := (List.cons.inj hx).1
  rw [List.append_assoc] at hbody'
  -- the first digest ends in a `=`, which is no letter of the second
  have hw : w = [] := by
    by_contra hne
    obtain ⟨w', y, rfl⟩ := List.eq_nil_or_concat' w |>.resolve_left hne
    have happ : v' ++ '=' :: w' ++ [y] = body' ++ ['='] := by
      rw [← hbody']
      simp only [List.append_assoc, List.cons_append, List.nil_append]
    obtain ⟨rfl, -⟩ := List.append_inj' happ rfl
    have hin : '=' ∈ v' ++ '=' :: w' := List.mem_append_right _ List.mem_cons_self
    exact hpad (hletters _ hin)
  subst hw
  rw [List.append_nil] at hbody'
  obtain ⟨rfl, -⟩ := List.append_inj' hbody' rfl
  -- both end together, and are of one length
  rw [List.length_append] at hlen
  exact List.eq_nil_of_length_eq_zero (by omega)

/-- Digests are marks. -/
def digestTexts : Marks Char where
  IsMark := DigestText
  size := 44
  size_pos := by omega
  length_eq h := by
    obtain ⟨body, rfl, hlen, -⟩ := digestText_iff.1 h
    rw [List.length_append, hlen]
    rfl
  apart := DigestText.apart

instance : DecidablePred digestTexts.IsMark := inferInstanceAs (DecidablePred DigestText)

/-! ## The bytes that are hashed -/

/-- What is hashed of an item. -/
def hashed (item : ManifestItem) : List Char × List Char := (item.relativePath.toList, item.sha3.toList)

theorem utf8_inj {s t : String} (h : utf8 s = utf8 t) : s = t := by
  refine String.toByteArray_inj.1 (ByteArray.ext (Array.toList_inj.1 h))

theorem utf8_append (s t : String) : utf8 (s ++ t) = utf8 s ++ utf8 t := by
  unfold utf8
  rw [String.toByteArray_append, ByteArray.data_append, Array.toList_append]

/-- The bytes that are hashed are those of a text. -/
theorem contentHashInput_eq (items : List ManifestItem) :
    contentHashInput items = utf8 (String.ofList (glue (items.map hashed))) := by
  induction items with
  | nil => rfl
  | cons item items ih =>
    change utf8 item.relativePath ++ utf8 item.sha3 ++ contentHashInput items = _
    rw [ih, ← utf8_append, ← utf8_append, List.map_cons, glue_cons]
    congr 1
    apply String.toList_inj.1
    simp only [String.toList_append, String.toList_ofList, hashed]

theorem contentHashInput_iff {items items' : List ManifestItem} :
    contentHashInput items = contentHashInput items' ↔ glue (items.map hashed) = glue (items'.map hashed) := by
  rw [contentHashInput_eq, contentHashInput_eq]
  constructor
  · intro h
    exact String.ofList_injective (utf8_inj h)
  · intro h
    rw [h]

/-- The item of a file. -/
def itemOf (tools : Tools) (file : String × Bytes) : ManifestItem :=
  ⟨file.1, file.2.length, (tools.sha3 file.2).b64⟩

/-- Without collisions, a list of paths and digests has the files of no other. -/
theorem files_inj {tools : Tools} {contents : Set Bytes} (hinj : Set.InjOn tools.sha3 contents)
    {files files' : List (String × Bytes)} (h : ∀ file ∈ files, file.2 ∈ contents) (h' : ∀ file ∈ files', file.2 ∈ contents)
    (he : files.map (fun file => (file.1, (tools.sha3 file.2).b64)) = files'.map fun file => (file.1, (tools.sha3 file.2).b64)) :
    files = files' := by
  induction files generalizing files' with
  | nil => exact (List.map_eq_nil_iff.1 he.symm).symm
  | cons file files ih =>
    obtain ⟨hf, hfs⟩ := List.forall_mem_cons.1 h
    cases files' with
    | nil => cases he
    | cons file' files' =>
      obtain ⟨hf', hfs'⟩ := List.forall_mem_cons.1 h'
      obtain ⟨hhead, htail⟩ := List.cons.inj he
      obtain ⟨hpath, hdigest⟩ := Prod.ext_iff.1 hhead
      rw [ih hfs hfs' htail, show file = file' from Prod.ext hpath (hinj hf hf' (Digest.b64_inj hdigest))]

/-- **The content hash is a hash of the files, up to the digests that are in paths.** For any two
lists of items with digests:

* the bytes that are hashed are the same just if the lists are, once each path is cut behind each
  digest that is in it;
* so if no path has a digest in it, and the bytes are the same, then so are the paths and digests;
* and if no path has a digest in it, and no hashes collide, then files with the same content hash
  have the same paths and contents. -/
theorem hashed_reads_back (items items' : List ManifestItem) (h : ∀ item ∈ items, ∃ d : Digest, item.sha3 = d.b64)
    (h' : ∀ item ∈ items', ∃ d : Digest, item.sha3 = d.b64) :
    (contentHashInput items = contentHashInput items' ↔
      cutAll digestTexts (items.map hashed) = cutAll digestTexts (items'.map hashed)) ∧
    ((∀ item ∈ items ++ items', Free digestTexts item.relativePath.toList) →
      (contentHashInput items = contentHashInput items' →
        items.map (fun item => (item.relativePath, item.sha3)) = items'.map fun item => (item.relativePath, item.sha3)) ∧
      ∀ (tools : Tools) (files files' : List (String × Bytes)),
        items = files.map (itemOf tools) → items' = files'.map (itemOf tools) →
        Set.InjOn tools.sha3 {bytes | bytes = contentHashInput items ∨ bytes = contentHashInput items' ∨
          bytes ∈ (files ++ files').map Prod.snd} →
        computeContentHash tools items = computeContentHash tools items' → files = files') := by
  have hmarks : ∀ {items : List ManifestItem}, (∀ item ∈ items, ∃ d : Digest, item.sha3 = d.b64) →
      ∀ p ∈ items.map hashed, digestTexts.IsMark p.2 := by
    intro items h p hp
    obtain ⟨item, hi, rfl⟩ := List.mem_map.1 hp
    obtain ⟨d, hd⟩ := h item hi
    have hdigest : DigestText item.sha3.toList := hd ▸ d.b64_digestText
    exact hdigest
  have hcut := contentHashInput_iff.trans (glue_eq_iff (hmarks h) (hmarks h'))
  refine ⟨hcut, fun hfree => ?_⟩
  -- a path without a digest in it is not cut
  have hpieces : ∀ {its : List ManifestItem}, (∀ item ∈ its, item ∈ items ++ items') →
      cutAll digestTexts (its.map hashed) = its.map hashed := by
    intro its hits
    refine cutAll_free fun p hp => ?_
    obtain ⟨item, hi, rfl⟩ := List.mem_map.1 hp
    exact hfree item (hits item hi)
  rw [hpieces fun _ => List.mem_append_left _, hpieces fun _ => List.mem_append_right _] at hcut
  -- so the texts are the same, and they are those of paths and digests
  have hpairs : contentHashInput items = contentHashInput items' →
      items.map (fun item => (item.relativePath, item.sha3)) = items'.map fun item => (item.relativePath, item.sha3) := by
    intro he
    have htexts := congrArg (List.map fun p : List Char × List Char => (String.ofList p.1, String.ofList p.2)) (hcut.1 he)
    simpa only [List.map_map, Function.comp_def, hashed, String.ofList_toList] using htexts
  refine ⟨hpairs, fun tools files files' hitems hitems' hinj hhash => ?_⟩
  have hinput : contentHashInput items = contentHashInput items' :=
    hinj (Or.inl rfl) (Or.inr (Or.inl rfl)) (Digest.b64_inj hhash)
  have hlists := hpairs hinput
  rw [hitems, hitems', List.map_map, List.map_map] at hlists
  refine files_inj hinj (fun file hf => ?_) (fun file hf => ?_) hlists
  · exact Or.inr (Or.inr (List.mem_map_of_mem (List.mem_append_left _ hf)))
  · exact Or.inr (Or.inr (List.mem_map_of_mem (List.mem_append_right _ hf)))

/-- The hash of a file that has a newline, and nothing else. -/
def newlineDigest : Digest where
  bytes := [167, 143, 44, 86, 107, 36, 57, 70, 58, 46, 124, 165, 21, 187, 250, 63, 146, 148, 133, 6, 88, 60, 186, 218, 235,
    221, 80, 127, 39, 117, 66, 189]
  length_eq := rfl

/-- Two scripts and their requirements. -/
def twoScriptItems : List ManifestItem :=
  [⟨"a.py", 1, newlineDigest.b64⟩, ⟨"b.py", 1, newlineDigest.b64⟩, ⟨"requirements.txt", 1, newlineDigest.b64⟩]

/-- The same, with one of the scripts in a directory. -/
def movedScriptItems : List ManifestItem :=
  [⟨"a.py", 1, newlineDigest.b64⟩, ⟨"lib/b.py", 1, newlineDigest.b64⟩, ⟨"requirements.txt", 1, newlineDigest.b64⟩]

/-- Short paths have no digests in them, so that different bytes are hashed if a script is moved, and if one
is left out. -/
theorem hashed_reads_back_names :
    contentHashInput twoScriptItems ≠ contentHashInput movedScriptItems ∧
      contentHashInput twoScriptItems ≠ contentHashInput twoScriptItems.tail := by
  have hdigests : ∀ item ∈ twoScriptItems ++ movedScriptItems, ∃ d : Digest, item.sha3 = d.b64 := by
    simp [twoScriptItems, movedScriptItems]
  have hshort : ∀ item ∈ twoScriptItems ++ movedScriptItems, item.relativePath.toList.length < 44 := by
    simp only [twoScriptItems, movedScriptItems, List.cons_append, List.nil_append, List.forall_mem_cons]
    exact ⟨by decide, by decide, by decide, by decide, by decide, by decide, by simp⟩
  refine ⟨fun he => ?_, fun he => ?_⟩
  · obtain ⟨-, hfree⟩ := hashed_reads_back twoScriptItems movedScriptItems
      (fun item hi => hdigests item (List.mem_append_left _ hi)) (fun item hi => hdigests item (List.mem_append_right _ hi))
    obtain ⟨hpairs, -⟩ := hfree fun item hi => Free.of_length_lt (hshort item hi)
    simpa [twoScriptItems, movedScriptItems] using hpairs he
  · have htail : ∀ item ∈ twoScriptItems ++ twoScriptItems.tail, item ∈ twoScriptItems ++ movedScriptItems := fun item hi =>
      List.mem_append_left _ ((List.mem_append.1 hi).elim id List.mem_of_mem_tail)
    obtain ⟨-, hfree⟩ := hashed_reads_back twoScriptItems twoScriptItems.tail
      (fun item hi => hdigests item (htail item (List.mem_append_left _ hi)))
      (fun item hi => hdigests item (htail item (List.mem_append_right _ hi)))
    obtain ⟨hpairs, -⟩ := hfree fun item hi => Free.of_length_lt (hshort item (htail item hi))
    simpa [twoScriptItems] using hpairs he

/-! ### A digest in a path -/

/-- Library functions as they are on such files. -/
def newlineTools : Tools where
  sha3 _ := newlineDigest
  lower := id
  distributions := []

/-- A file with a newline. -/
def newlineFile : Node := .file ⟨[10], 0, 0o644⟩

/-- A project of two scripts. -/
def twoScripts : Tree where
  entries := [(⟨"a.py", by decide⟩, newlineFile), (⟨"b.py", by decide⟩, newlineFile),
    (requirementsFile, newlineFile)]
  distinct := by simp [Distinct, Node.Distinct, newlineFile, requirementsFile]

/-- A project of one, whose name has the digest of another in it. -/
def oneScript : Tree where
  entries := [(⟨"a.pyp48sVmskOUY6LnylFbv6P5KUhQZYPLra691Qfyd1Qr0=b.py", by decide⟩, newlineFile),
    (requirementsFile, newlineFile)]
  distinct := by simp [Distinct, Node.Distinct, newlineFile, requirementsFile]

/-- **Two projects with different files, and one content hash.** -/
theorem content_hash_same :
    let items : List ManifestItem :=
      [⟨"a.py", 1, newlineDigest.b64⟩, ⟨"b.py", 1, newlineDigest.b64⟩, ⟨"requirements.txt", 1, newlineDigest.b64⟩]
    let items' : List ManifestItem :=
      [⟨"a.pyp48sVmskOUY6LnylFbv6P5KUhQZYPLra691Qfyd1Qr0=b.py", 1, newlineDigest.b64⟩,
        ⟨"requirements.txt", 1, newlineDigest.b64⟩]
    (∀ script, (buildPackage newlineTools (fun _ => "") twoScripts.entries script).manifest.files = items) ∧
    (∀ script, (buildPackage newlineTools (fun _ => "") oneScript.entries script).manifest.files = items') ∧
    (items.Pairwise fun a b => a.relativePath < b.relativePath) ∧
    (items'.Pairwise fun a b => a.relativePath < b.relativePath) ∧
    contentHashInput items = contentHashInput items' ∧
    items.map (fun item => (item.relativePath, item.sha3)) ≠ items'.map fun item => (item.relativePath, item.sha3) := by
  intro items items'
  refine ⟨fun script => ?_, fun script => ?_, ?_, ?_, ?_, ?_⟩
  · change (draftOf newlineTools twoScripts.entries).items.insertionSort itemLe = items
    decide +kernel
  · change (draftOf newlineTools oneScript.entries).items.insertionSort itemLe = items'
    decide +kernel
  · decide +kernel
  · decide +kernel
  · decide +kernel
  · simp [items, items']

end Matterbeam
