import Matterbeam.Proof.SameFact

/-!
# Rows and records as log entries

The fold of a keyed table reads its records as a keyed log. This file says what the
record of a row contributes to the log, whichever transport encoded it.

* `bodies_eq`: the records a fold leaves, without their metadata, as a replay.
* `buildRecord_op`: the record of a row says about the row's key what the row says.
* `bodyOp_congr`: facts that agree say the same.
-/

namespace Matterbeam

/-- The columns among `cols` that are not popped off a row before anything looks at it. -/
def dataColumns (cols : List String) : List String :=
  cols.filter fun c => c ≠ "_dlt_id" ∧ c ≠ "_dlt_load_id"

/-- One turn of the walk over the rows: the key a row has, and what the row says about it,
removal when some column of `hardDelete` is truthy and else the row without its ids and metadata. -/
def walkOp (P : Runtime) (keys hardDelete : List String) (row : Row) : String × Option Row :=
  (foldKey P keys row,
    if anyTruthy row hardDelete then none else some ((stripIds row).erase "mb.metadata"))

/-- What a record says about its key, its metadata left out. -/
def bodyOp (P : Runtime) (keys : List String) (record : Row) : String × Option Row :=
  ((recordOp P keys record).1, (recordOp P keys record).2.map fun r => r.erase "mb.metadata")

/-- The map that records leave behind, their metadata left out. -/
def bodies (P : Runtime) (records : List Row) (keys : List String) (k : String) : Option Row :=
  ((foldRecords P records keys).get? k).map fun r => r.erase "mb.metadata"

theorem bodies_eq (P : Runtime) (records : List Row) (keys : List String) :
    bodies P records keys = Replay.replay (records.map (bodyOp P keys)) := by
  funext k
  unfold bodies
  rw [get?_foldRecords, ← Replay.replay_map, List.map_map]
  rfl

/-- A row that a keyed table takes: if it is a deletion, it has the key columns. -/
def Keyed (keys hardDelete : List String) (row : Row) : Prop :=
  anyTruthy row (dataColumns hardDelete) = true → ∀ f ∈ keys, f ∈ row.keys

instance (keys hardDelete : List String) (row : Row) : Decidable (Keyed keys hardDelete row) := by
  unfold Keyed; infer_instance

section

variable {P : Runtime} {keys : List String} {row : Row}

/-- The table has key columns, and none of them is a column of dlt's or the metadata of a record. -/
structure KeysOk (keys : List String) : Prop where
  ne : keys ≠ []
  noId : "_dlt_id" ∉ keys
  noLoadId : "_dlt_load_id" ∉ keys
  noMeta : "mb.metadata" ∉ keys

theorem get?_stripIds {f : String} (h₁ : f ≠ "_dlt_id") (h₂ : f ≠ "_dlt_load_id") :
    (stripIds row).get? f = row.get? f := by
  unfold stripIds
  rw [Dict.get?_erase, if_neg h₂, Dict.get?_erase, if_neg h₁]

theorem anyTruthy_stripIds (hardDelete : List String) :
    anyTruthy (stripIds row) hardDelete = anyTruthy row (dataColumns hardDelete) := by
  unfold anyTruthy dataColumns
  rw [List.any_filter]
  congr 1
  funext c
  by_cases h₁ : c = "_dlt_id"
  · subst h₁; simp [stripIds, Row.get]
  · by_cases h₂ : c = "_dlt_load_id"
    · subst h₂; simp [stripIds, Row.get]
    · simp [Row.get, get?_stripIds h₁ h₂, h₁, h₂]

/-- Records and rows that agree on the key columns have the same key. -/
theorem foldKey_congr {a b : Row} (h : ∀ f ∈ keys, a.get? f = b.get? f) :
    foldKey P keys a = foldKey P keys b := by
  unfold foldKey
  congr 1
  exact List.map_congr_left fun f hf => by rw [Row.get, Row.get, h f hf]

/-- A body with its metadata set on it says what its row says. -/
theorem bodyOp_set (hk : KeysOk keys) {hardDelete : List String} {t : Bool} {body : Row}
    (hb : tombstoneAndBody (stripIds row) keys hardDelete = .ok (t, body))
    {md : List (String × Json)} (hmd : ((md.lookup "is_tombstone").getD .null).truthy = t) :
    bodyOp P keys (body.set "mb.metadata" (.obj md)) = walkOp P keys (dataColumns hardDelete) row := by
  obtain ⟨ht, hbody, hrow⟩ := tombstoneAndBody_spec hb
  have hkey : foldKey P keys (body.set "mb.metadata" (.obj md)) = foldKey P keys row := by
    refine foldKey_congr fun f hf => ?_
    have hm : f ≠ "mb.metadata" := fun h => hk.noMeta (h ▸ hf)
    have hs : (stripIds row).get? f = row.get? f :=
      get?_stripIds (fun h => hk.noId (h ▸ hf)) (fun h => hk.noLoadId (h ▸ hf))
    rw [Dict.get?_set, if_neg hm, hbody f hf, hs]
  have htomb : isTombstone (body.set "mb.metadata" (.obj md)) = t := by
    unfold isTombstone
    rw [Dict.get?_set, if_pos rfl]
    exact hmd
  rw [anyTruthy_stripIds] at ht
  unfold bodyOp recordOp walkOp
  rw [hkey, htomb, ← ht]
  cases t with
  | true => rfl
  | false =>
    have hbr : body = stripIds row := hrow (Or.inl rfl)
    simp only [Bool.false_eq_true, if_false, Option.map_some, Dict.erase_set, hbr]

/-- The tombstone flag of a stamped line is the line's own. -/
theorem lookup_tombstone (env : Envelope) (rtId loadId utc : String) {md : List (String × Json)}
    (h : (env.stamp rtId loadId utc).get? "mb.metadata" = some (.obj md)) :
    ((md.lookup "is_tombstone").getD .null).truthy = env.isTombstone := by
  unfold Envelope.stamp at h
  rw [Dict.get?_set, if_pos rfl] at h
  injection h with h
  injection h with h
  subst h
  by_cases hd : env.dltId.truthy <;> by_cases hl : loadId = "" <;> cases env.isTombstone <;>
    simp [List.lookup_cons, hd, hl]

/-- **The stamped line of a row** says about the row's key what the row says. -/
theorem stamp_op (hk : KeysOk keys) {hardDelete : List String} {env : Envelope}
    (he : buildWireRecord row keys hardDelete = .ok env) (rtId loadId utc : String) :
    bodyOp P keys (env.stamp rtId loadId utc) = walkOp P keys (dataColumns hardDelete) row := by
  cases hb : tombstoneAndBody (stripIds row) keys hardDelete with
  | error e =>
    rw [wireRecord_error hb] at he
    cases he
  | ok tb =>
    obtain ⟨t, body⟩ := tb
    rw [buildWireRecord_ok hb] at he
    injection he with he
    have hv : env.v = body := by rw [← he]
    obtain ⟨ht, -, -⟩ := wire_flags he.symm
    have hmd := lookup_tombstone env rtId loadId utc (by unfold Envelope.stamp; rw [Dict.get?_set, if_pos rfl])
    unfold Envelope.stamp
    rw [hv]
    exact bodyOp_set hk hb (hmd.trans ht)

/-- Facts that agree say the same about their key. -/
theorem bodyOp_congr {a b : Row} (h : FactAgree a b) (hmeta : "mb.metadata" ∉ keys) :
    bodyOp P keys a = bodyOp P keys b := by
  obtain ⟨hbody, ma, mb, ha, hb, hf⟩ := h
  have hkey : foldKey P keys a = foldKey P keys b := by
    refine foldKey_congr fun f hf => ?_
    have hm : f ≠ "mb.metadata" := fun h => hmeta (h ▸ hf)
    have he : (a.erase "mb.metadata").get? f = (b.erase "mb.metadata").get? f := by rw [hbody]
    rwa [Dict.get?_erase, Dict.get?_erase, if_neg hm, if_neg hm] at he
  have htomb : isTombstone a = isTombstone b := by
    unfold isTombstone
    rw [ha, hb]
    simp only [hf "is_tombstone" (by decide)]
  unfold bodyOp recordOp
  rw [hkey, htomb]
  by_cases ht : isTombstone b <;> simp [ht, hbody]

/-- A keyed row can be encoded. -/
theorem encodings_ok (hk : KeysOk keys) {hardDelete : List String} (hr : Keyed keys hardDelete row)
    (recordTypeId loadId : String) (schemaId : Option String) (utc : String) :
    ∃ r env, buildRecord row recordTypeId keys hardDelete loadId schemaId utc = .ok r ∧
      buildWireRecord row keys hardDelete = .ok env := by
  obtain ⟨⟨t, body⟩, hb⟩ : ∃ b, tombstoneAndBody (stripIds row) keys hardDelete = .ok b :=
    tombstoneAndBody_ok.2 fun ht f hf => by
      obtain ⟨v, hv⟩ := Dict.exists_get? (hr (anyTruthy_stripIds hardDelete ▸ ht) f hf)
      have hs : (stripIds row).get? f = row.get? f :=
        get?_stripIds (fun h => hk.noId (h ▸ hf)) (fun h => hk.noLoadId (h ▸ hf))
      exact Dict.mem_keys_of_get? (hs.trans hv)
  unfold buildRecord
  rw [hb]
  exact ⟨_, _, rfl, buildWireRecord_ok hb⟩

/-- A row that was encoded is keyed. -/
theorem keyed_of_wire (hk : KeysOk keys) {hardDelete : List String} {env : Envelope}
    (h : buildWireRecord row keys hardDelete = .ok env) : Keyed keys hardDelete row := by
  intro ht f hf
  obtain ⟨b, hb⟩ : ∃ b, tombstoneAndBody (stripIds row) keys hardDelete = .ok b := by
    unfold buildWireRecord at h
    cases hb : tombstoneAndBody (stripIds row) keys hardDelete with
    | error e =>
      rw [hb] at h
      cases h
    | ok b => exact ⟨b, rfl⟩
  rw [← anyTruthy_stripIds] at ht
  obtain ⟨v, hv⟩ := Dict.exists_get? (tombstoneAndBody_ok.1 ⟨b, hb⟩ ht f hf)
  rw [get?_stripIds (fun h => hk.noId (h ▸ hf)) (fun h => hk.noLoadId (h ▸ hf))] at hv
  exact Dict.mem_keys_of_get? hv

/-- **The record of a row** says about the row's key what the row says. -/
theorem buildRecord_op (hk : KeysOk keys) {hardDelete : List String} (hr : Keyed keys hardDelete row)
    (recordTypeId loadId : String) (schemaId : Option String) (utc : String) :
    ∃ r, buildRecord row recordTypeId keys hardDelete loadId schemaId utc = .ok r ∧
      bodyOp P keys r = walkOp P keys (dataColumns hardDelete) row := by
  obtain ⟨r, env, hrec, henv⟩ := encodings_ok hk hr recordTypeId loadId schemaId utc
  refine ⟨r, hrec, ?_⟩
  rw [← bodyOp_congr (stamp_sameFact recordTypeId utc hrec henv) hk.noMeta]
  exact stamp_op hk henv _ _ _

end

end Matterbeam
