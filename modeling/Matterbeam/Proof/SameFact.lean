import Matterbeam.Model.System

/-!
# The two transports produce the same fact

A row is encoded twice: `buildRecord` writes it with its metadata inline, for the
file transport, and `buildWireRecord` leaves the metadata to the server, which stamps
them on as it parses the line.

* `filter_single`: what the server's parse-and-stamp step makes of a chunk of one line.
* `stamp_sameFact`: the stamped line and the local fact have the same body, and the
  metadata fields that both sides own have the same presence and value.
* `sameFact`: **both encodings raise the same error, or the server's fact is the local
  one**, for every row whose `_dlt_id` the server can look up.
* `unhashable_sameFact`: a list for a `_dlt_id` is written locally and crashes the
  server's lookup.
-/

namespace Matterbeam

/-- The metadata fields that do not depend on the side that writes them. -/
def sharedFields : List String := ["version", "is_tombstone", "source_record_id", "source_load_id"]

/-- Two facts have the same body and agree on the shared metadata fields. -/
def FactAgree (a b : Row) : Prop :=
  a.erase "mb.metadata" = b.erase "mb.metadata" ∧
    ∃ ma mb, a.get? "mb.metadata" = some (.obj ma) ∧ b.get? "mb.metadata" = some (.obj mb) ∧
      ∀ f ∈ sharedFields, ma.lookup f = mb.lookup f

/-- The facts that the parse-and-stamp step of `ingest` makes of a chunk; `none` when it raises. -/
def parsedFacts (srv : Server) (inp : Inputs) (rq : IngestRequest) : Option (List Row) :=
  match (IngestPc.step rq none inp srv (.filter 0 0)).2 with
  | .begin _ b => some (b.records rq)
  | _ => none

/-- Either both encodings of a row raise, or what the server makes of the row's line is
the fact that the file transport writes. -/
def SameFact (srv : Server) (inp : Inputs) (pid table jobId seq loadId : String) (row : Row)
    (keys hardDelete : List String) (recordTypeId : String) (schemaId : Option String) (utc : String) :
    Prop :=
  (∃ e, buildRecord row recordTypeId keys hardDelete loadId schemaId utc = .error e ∧
    buildWireRecord row keys hardDelete = .error e) ∨
  ∃ r env fact, buildRecord row recordTypeId keys hardDelete loadId schemaId utc = .ok r ∧
    buildWireRecord row keys hardDelete = .ok env ∧
    parsedFacts srv inp ⟨pid, table, loadId, jobId, seq, [env]⟩ = some [fact] ∧ FactAgree fact r

section

variable {srv : Server} {inp : Inputs} {rq : IngestRequest}

/-- **One line through the parse-and-stamp step**: kept and stamped, when its id can be
looked up and was not seen. -/
theorem filter_single {env : Envelope} (hlines : rq.lines = [env]) (hh : env.hashable = true)
    (hf : env.fresh (srv.dltIdsSeen (rq.pid, rq.loadId)) = true) :
    parsedFacts srv inp rq = some [env.stamp rq.recordtypeId rq.loadId inp.utc] := by
  have hd : dedupLoop (srv.dltIdsSeen (rq.pid, rq.loadId)) rq.lines = (0, some [env]) := by
    rw [hlines]; simp [dedupLoop, hh, hf]
  simp only [parsedFacts, IngestPc.step, hd]
  rfl

/-- The lookup raises on a line whose id is unhashable. -/
theorem filter_unhashable {env : Envelope} (hlines : rq.lines = [env]) (hh : env.hashable = false) :
    parsedFacts srv inp rq = none := by
  have hd : dedupLoop (srv.dltIdsSeen (rq.pid, rq.loadId)) rq.lines = (0, none) := by
    rw [hlines]; simp [dedupLoop, hh]
  simp only [parsedFacts, IngestPc.step, hd]

end

section

variable {row : Row} {keys hardDelete : List String} {recordTypeId loadId utc : String}
  {schemaId : Option String}

/-- A row without a body raises, in the one encoding and the other. -/
theorem record_error {e : PyError} (h : tombstoneAndBody (stripIds row) keys hardDelete = .error e) :
    buildRecord row recordTypeId keys hardDelete loadId schemaId utc = .error e := by
  unfold buildRecord
  rw [h]
  rfl

theorem wireRecord_error {e : PyError} (h : tombstoneAndBody (stripIds row) keys hardDelete = .error e) :
    buildWireRecord row keys hardDelete = .error e := by
  unfold buildWireRecord
  rw [h]
  rfl

/-- The wire encoding of a row that has a body. -/
theorem buildWireRecord_ok {t : Bool} {body : Row}
    (h : tombstoneAndBody (stripIds row) keys hardDelete = .ok (t, body)) :
    buildWireRecord row keys hardDelete = .ok
      { v := body
        t := if t then some (.bool true) else none
        i := if (row.get "_dlt_id").truthy then some (row.get "_dlt_id") else none } := by
  unfold buildWireRecord
  rw [h]
  rfl

/-- What the server reads off the line of a row: the tombstone flag, and the id when it is one. -/
theorem wire_flags {t : Bool} {body : Row} {env : Envelope}
    (h : env = { v := body
                 t := if t then some (.bool true) else none
                 i := if (row.get "_dlt_id").truthy then some (row.get "_dlt_id") else none }) :
    env.isTombstone = t ∧ env.dltId.truthy = (row.get "_dlt_id").truthy ∧
      ((row.get "_dlt_id").truthy = true → env.dltId = row.get "_dlt_id") := by
  subst h
  refine ⟨by cases t <;> rfl, ?_, ?_⟩
  · by_cases hd : (row.get "_dlt_id").truthy <;> simp [Envelope.dltId, hd]
  · intro hd; simp [Envelope.dltId, hd]

/-- A shared field is found at the head of the metadata or behind the fields that only
one side writes. -/
theorem lookup_shared {f : String} (hf : f ∈ sharedFields) (rtId utc : String)
    (own tail : List (String × Json)) (hown : own.lookup f = none) :
    ([("version", Json.int 1), ("record_type_id", .str rtId), ("collected_at_utc", .str utc)] ++
      (own ++ tail)).lookup f = if f = "version" then some (.int 1) else tail.lookup f := by
  simp only [sharedFields, List.mem_cons, List.not_mem_nil, or_false] at hf
  rcases hf with rfl | rfl | rfl | rfl <;> simp [List.lookup_append, List.lookup_cons, hown]

/-- No shared field is the schema id. -/
theorem lookup_schemaId {f : String} (hf : f ∈ sharedFields) (schemaId : Option String) :
    (match schemaId with
      | some s => if s ≠ "" then [("schema_id", Json.str s)] else []
      | none => []).lookup f = none := by
  have hne : (f == "schema_id") = false := by
    simp only [sharedFields, List.mem_cons, List.not_mem_nil, or_false] at hf
    rcases hf with rfl | rfl | rfl | rfl <;> rfl
  cases schemaId with
  | none => rfl
  | some s => by_cases hs : s = "" <;> simp [hs, List.lookup_cons, hne]

/-- **The stamped line agrees with the local fact.** -/
theorem stamp_sameFact {r : Row} {env : Envelope} (rtId utc' : String)
    (hr : buildRecord row recordTypeId keys hardDelete loadId schemaId utc = .ok r)
    (he : buildWireRecord row keys hardDelete = .ok env) :
    FactAgree (env.stamp rtId loadId utc') r := by
  cases hb : tombstoneAndBody (stripIds row) keys hardDelete with
  | error e =>
    rw [record_error hb] at hr
    cases hr
  | ok tb =>
    obtain ⟨t, body⟩ := tb
    rw [buildWireRecord_ok hb] at he
    unfold buildRecord at hr
    rw [hb] at hr
    cases hr
    injection he with he
    obtain ⟨ht, hd, hdt⟩ := wire_flags he.symm
    have hv : env.v = body := by rw [← he]
    have hself : ∀ (d : Row) (m : Json), (d.set "mb.metadata" m).get? "mb.metadata" = some m := by simp
    refine ⟨?_, _, _, hself _ _, hself _ _, ?_⟩
    · unfold Envelope.stamp
      rw [Dict.erase_set, Dict.erase_set, hv]
    · intro f hf
      -- the id is written by both sides or by neither
      have hids : (if env.dltId.truthy then [("source_record_id", env.dltId)] else []) =
          if (row.get "_dlt_id").truthy then [("source_record_id", row.get "_dlt_id")] else [] := by
        rw [hd]
        by_cases hid : (row.get "_dlt_id").truthy
        · rw [if_pos hid, if_pos hid, hdt hid]
        · rw [if_neg hid, if_neg hid]
      rw [ht, hids]
      simp only [List.append_assoc]
      exact (lookup_shared hf rtId utc' [] _ rfl).trans
        (lookup_shared hf recordTypeId utc _ _ (lookup_schemaId hf schemaId)).symm

end

/-- **The two transports produce the same fact.** For every row whose `_dlt_id` is not a
non-empty list or dict and was not seen in the load, either both encodings raise, or the
server's fact has the body and the shared metadata of the local one. -/
theorem sameFact (srv : Server) (inp : Inputs) (pid table jobId seq loadId : String) (row : Row)
    (keys hardDelete : List String) (recordTypeId : String) (schemaId : Option String) (utc : String)
    (hid : (row.get "_dlt_id").truthy = true → (row.get "_dlt_id").hash?.isSome = true)
    (hseen : (row.get "_dlt_id").truthy = true →
      ∀ k ∈ srv.dltIdsSeen (pid, loadId), (row.get "_dlt_id").hash? ≠ some k) :
    SameFact srv inp pid table jobId seq loadId row keys hardDelete recordTypeId schemaId utc := by
  cases hb : tombstoneAndBody (stripIds row) keys hardDelete with
  | error e => exact Or.inl ⟨e, record_error hb, wireRecord_error hb⟩
  | ok tb =>
    obtain ⟨t, body⟩ := tb
    obtain ⟨env, henv⟩ : ∃ env : Envelope, env =
        { v := body
          t := if t then some (.bool true) else none
          i := if (row.get "_dlt_id").truthy then some (row.get "_dlt_id") else none } := ⟨_, rfl⟩
    have he : buildWireRecord row keys hardDelete = .ok env := henv ▸ buildWireRecord_ok hb
    obtain ⟨-, hd, hdt⟩ := wire_flags henv
    obtain ⟨r, hr⟩ : ∃ r, buildRecord row recordTypeId keys hardDelete loadId schemaId utc = .ok r := by
      unfold buildRecord
      rw [hb]
      exact ⟨_, rfl⟩
    refine Or.inr ⟨r, env, _, hr, he, filter_single rfl ?_ ?_, stamp_sameFact _ _ hr he⟩
    · unfold Envelope.hashable
      rw [hd]
      by_cases h : (row.get "_dlt_id").truthy
      · rw [hdt h, hid h, Bool.or_true]
      · simp [h]
    · unfold Envelope.fresh Envelope.key
      rw [hd]
      by_cases h : (row.get "_dlt_id").truthy
      · rw [if_pos h, hdt h]
        cases hk : (row.get "_dlt_id").hash? with
        | none => rfl
        | some k => simpa using fun hm : k ∈ srv.dltIdsSeen (pid, loadId) => hseen h k hm hk
      · rw [if_neg h]

/-- A row with a string id, on an empty server. -/
theorem sameFact_string :
    SameFact {} ⟨0, "", 0, ""⟩ "p" "t" "j" "0" "1.0"
      (Dict.ofEntries [("id", .int 1), ("_dlt_id", .str "a")]) ["id"] [] "ds.t" none "" :=
  sameFact _ _ _ _ _ _ _ _ _ _ _ _ _ (by decide) (by simp)

/-- A row whose `_dlt_id` is the list `[1]` is written by the file transport, and is sent;
the server's lookup of the id then raises, and no fact is made of it. -/
theorem unhashable_sameFact :
    ¬ SameFact {} ⟨0, "", 0, ""⟩ "p" "t" "j" "0" "1.0"
      (Dict.ofEntries [("id", .int 1), ("_dlt_id", .arr [.int 1])]) ["id"] [] "ds.t" none "" := by
  rintro (⟨e, he, -⟩ | ⟨r, env, fact, -, he, hp, -⟩)
  · have hok : ∃ r, buildRecord (Dict.ofEntries [("id", .int 1), ("_dlt_id", .arr [.int 1])])
        "ds.t" ["id"] [] "1.0" none "" = .ok r := ⟨_, rfl⟩
    obtain ⟨r, hr⟩ := hok
    rw [hr] at he
    cases he
  · have hw : buildWireRecord (Dict.ofEntries [("id", .int 1), ("_dlt_id", .arr [.int 1])]) ["id"] [] =
        .ok ⟨Dict.ofEntries [("id", .int 1)], none, some (.arr [.int 1])⟩ := rfl
    rw [hw] at he
    injection he with he
    subst he
    rw [filter_unhashable rfl (by decide)] at hp
    cases hp

end Matterbeam
