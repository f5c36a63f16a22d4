import Matterbeam.Model.Handler
import Matterbeam.Proof.Framing
import Matterbeam.Proof.Routing

/-!
# Messages arrive

A request whose names may stand in a URL and in a header is heard as it was sent: its path is taken
apart into what it was put together from, its headers are found whatever their case, and its body is
decoded to what was encoded.

* `pathParts_target`: the parts of a path.
* `jsonOf_toValue`, `envelopeOf_toJson`: the decoded bodies.
* `hear_message`, `hear_deploy`: the method that is called.
* `wire_faithful`: **a server that is sent messages runs as one that is sent requests**.
-/

namespace Matterbeam

open JsonText

/-! ## Paths -/

/-- A segment of a path that is sent as it is. -/
structure PlainSegment (s : List Char) : Prop where
  nonempty : s ≠ []
  legal : ∀ c ∈ s, pathLegal c = true
  noSlash : '/' ∉ s
  noDots : isDots s = false

/-- The path of some segments. -/
def pathOf (segments : List (List Char)) : List Char := '/' :: ['/'].intercalate segments

section

variable {segments : List (List Char)}

theorem legal_pathOf (h : ∀ s ∈ segments, PlainSegment s) : ∀ c ∈ pathOf segments, pathLegal c = true := by
  unfold pathOf
  refine List.forall_mem_cons.2 ⟨by decide, ?_⟩
  induction segments with
  | nil => exact nofun
  | cons s segments ih =>
    obtain ⟨hs, hsegments⟩ := List.forall_mem_cons.1 h
    cases segments with
    | nil =>
      rw [List.intercalate_singleton]
      exact hs.legal
    | cons s' segments =>
      rw [List.intercalate_cons_cons]
      intro c hc
      rcases List.mem_append.1 hc with hc | hc
      · rcases List.mem_append.1 hc with hc | hc
        · exact hs.legal c hc
        · rw [List.mem_singleton.1 hc]
          decide
      · exact ih hsegments c hc

/-- **A path of plain segments is its own target.** -/
theorem target_pathOf (lib : HttpLibrary) (hne : segments ≠ []) (h : ∀ s ∈ segments, PlainSegment s) :
    lib.target (pathOf segments) = pathOf segments := by
  have hlegal := legal_pathOf h
  have hhash : '#' ∉ pathOf segments := fun hm => absurd (hlegal _ hm) (by decide)
  have hmark : '?' ∉ pathOf segments := fun hm => absurd (hlegal _ hm) (by decide)
  have hsplit : (pathOf segments).splitOn '/' = [] :: segments := by
    have hfirst := List.splitOn_append_cons_self_of_not_mem (List.not_mem_nil : '/' ∉ []) (['/'].intercalate segments)
    rw [List.nil_append] at hfirst
    unfold pathOf
    rw [hfirst, List.splitOn_intercalate '/' (fun s hs => (h s hs).noSlash) hne]
  rw [target_of_url hhash, (mark_of_not_mem hmark).1, (mark_of_not_mem hmark).2, lib.query_nil, List.append_nil]
  refine lib.path_legal _ hlegal ?_
  rw [hsplit]
  exact List.forall_mem_cons.2 ⟨rfl, fun s hs => (h s hs).noDots⟩

/-- Segments begin with a character that is no slash, and end with one. -/
theorem ends_intercalate (hne : segments ≠ []) (h : ∀ s ∈ segments, PlainSegment s) :
    (∃ c s, ['/'].intercalate segments = c :: s ∧ c ≠ '/') ∧ ∃ s c, ['/'].intercalate segments = s ++ [c] ∧ c ≠ '/' := by
  induction segments with
  | nil => exact absurd rfl hne
  | cons s segments ih =>
    obtain ⟨hs, hsegments⟩ := List.forall_mem_cons.1 h
    obtain ⟨c, s', rfl⟩ := List.exists_cons_of_ne_nil hs.nonempty
    have hc : c ≠ '/' := fun he => hs.noSlash (he ▸ List.mem_cons_self)
    cases segments with
    | nil =>
      rw [List.intercalate_singleton]
      refine ⟨⟨c, s', rfl, hc⟩, (c :: s').dropLast, (c :: s').getLast (by simp), (List.dropLast_append_getLast _).symm, fun he => ?_⟩
      exact hs.noSlash (he ▸ List.getLast_mem _)
    | cons t segments =>
      obtain ⟨-, rest, last, hrest, hlast⟩ := ih (by simp) hsegments
      rw [List.intercalate_cons_cons]
      exact ⟨⟨c, _, rfl, hc⟩, c :: s' ++ ['/'] ++ rest, last, by rw [hrest, List.append_assoc _ rest], hlast⟩

/-- **The parts of a path** of plain segments. -/
theorem pathParts_target (lib : HttpLibrary) (hne : segments ≠ []) (h : ∀ s ∈ segments, PlainSegment s) :
    pathParts (lib.target (pathOf segments)) = segments := by
  obtain ⟨⟨c, s, hfront, hc⟩, t, c', hback, hc'⟩ := ends_intercalate hne h
  have hstrip : stripSlashes (pathOf segments) = ['/'].intercalate segments := by
    have hdrop : (pathOf segments).dropWhile (· = '/') = ['/'].intercalate segments := by
      unfold pathOf
      rw [List.dropWhile_cons_of_pos (by decide), hfront, List.dropWhile_cons_of_neg (by simpa using hc)]
    unfold stripSlashes
    rw [hdrop, hback, List.rdropWhile_concat_neg _ _ _ (by simpa using hc')]
  unfold pathParts
  rw [target_pathOf lib hne h, hstrip, List.splitOn_intercalate '/' (fun s hs => (h s hs).noSlash) hne]

end

/-- The segments of a path that are words of the code. -/
theorem plainSegment_word {s : List Char} (h : s ≠ [] ∧ s.all pathLegal = true ∧ '/' ∉ s ∧ isDots s = false) :
    PlainSegment s := ⟨h.1, List.all_eq_true.1 h.2.1, h.2.2.1, h.2.2.2⟩

/-- A table, in the last segment of its path. -/
theorem PlainSegment.bulk {s : List Char} (h : PlainSegment s) : PlainSegment (s ++ bulk) where
  nonempty := by simp [h.nonempty]
  legal c hc := (List.mem_append.1 hc).elim (h.legal c) (legal_bulk c)
  noSlash hm := (List.mem_append.1 hm).elim h.noSlash (by decide)
  noDots := isDots_bulk s

/-! ## Bodies -/

/-- **A string is read back.** -/
theorem stringOf_ofString (s : String) : stringOf (ofString s) = some s := by
  have hchars : ∀ l : List Char,
      (l.map Char.toNat).mapM (fun n : ℕ => if n.isValidChar then some (Char.ofNat n) else none) = some l := by
    intro l
    induction l with
    | nil => rfl
    | cons c l ih =>
      have hvalid : c.toNat.isValidChar := c.valid
      rw [List.map_cons, List.mapM_cons, if_pos hvalid, ih, Char.ofNat_toNat]
      rfl
  unfold stringOf ofString
  rw [hchars, Option.map_some, String.ofList_toList]

section

variable (H : HttpStack)

mutual
/-- **A value is read back.** -/
theorem jsonOf_toValue : (v : Json) → jsonOf H.read (v.toValue H.numbers) = some v
  | .null | .bool _ => rfl
  | .int n => congrArg some (H.read_int n)
  | .float q => congrArg some (H.read_float q)
  | .str s => by rw [Json.toValue, jsonOf, stringOf_ofString, Option.map_some]
  | .arr xs => by rw [Json.toValue, jsonOf, jsonsOf_toValues xs, Option.map_some]
  | .obj kvs => by rw [Json.toValue, jsonOf, jsonEntriesOf_toEntries kvs, Option.map_some]

theorem jsonsOf_toValues : (xs : List Json) → jsonsOf H.read (toValues H.numbers xs) = some xs
  | [] => rfl
  | x :: xs => by
    rw [toValues, jsonsOf, jsonOf_toValue x, jsonsOf_toValues xs]
    rfl

theorem jsonEntriesOf_toEntries : (kvs : List (String × Json)) → jsonEntriesOf H.read (toEntries H.numbers kvs) = some kvs
  | [] => rfl
  | (k, x) :: kvs => by
    rw [toEntries, jsonEntriesOf, stringOf_ofString, jsonOf_toValue x, jsonEntriesOf_toEntries kvs]
    rfl
end

end

theorem rowOf_toJson (row : Row) : rowOf row.toJson = some row := dif_pos row.nodup

/-- **An envelope is read back.** -/
theorem envelopeOf_toJson (e : Envelope) : envelopeOf e.toJson = some e := by
  obtain ⟨v, t, i⟩ := e
  have hread : (rowOf v.toJson).bind (fun row => some (⟨row, t, i⟩ : Envelope)) = some ⟨v, t, i⟩ := by
    rw [rowOf_toJson, Option.bind_some]
  cases t <;> cases i <;> exact hread

/-- The lines of an ingest are read back. -/
theorem envelopes_read (H : HttpStack) {lines : List Envelope} (h : ∀ e ∈ lines, e.toJson.KeysDistinct) :
    (lines.map fun e => bytesOf (e.toJson.toValue H.numbers)).mapM
      (fun line => ((loadsBytes line).bind (jsonOf H.read)).bind envelopeOf) = some lines := by
  induction lines with
  | nil => rfl
  | cons e lines ih =>
    obtain ⟨he, hlines⟩ := List.forall_mem_cons.1 h
    have hline : ((loadsBytes (bytesOf (e.toJson.toValue H.numbers))).bind (jsonOf H.read)).bind envelopeOf = some e := by
      rw [loadsBytes_bytesOf (toValue_wellFormed H.numbers _ he), Option.bind_some,
        jsonOf_toValue, Option.bind_some, envelopeOf_toJson]
    rw [List.map_cons, List.mapM_cons, hline, ih hlines]
    rfl

/-! ## Requests -/

/-- The segments of the path of a request. -/
def Request.segments : Request → List (List Char)
  | .register _ _ => ["collectors".toList]
  | .getState pid | .putState pid _ => ["collectors".toList, pid.toList, "state".toList]
  | .ingest rq => ["collectors".toList, rq.pid.toList, "ingest".toList, rq.table.toList ++ bulk]
  | .completeLoad pid loadId => ["collectors".toList, pid.toList, "job".toList, loadId.toList]

def DeployRequest.segments : DeployRequest → List (List Char)
  | .register _ _ => ["collectors".toList]
  | .submitSecrets pid _ => ["collectors".toList, pid.toList, "secrets".toList]
  | .uploadUrl pid _ => ["collectors".toList, pid.toList, "deployment".toList, "upload-url".toList]
  | .upload token _ => ["uploads".toList, token.toList]
  | .build pid => ["collectors".toList, pid.toList, "deployment".toList, "build".toList]
  | .buildStatus pid => ["collectors".toList, pid.toList, "deployment".toList, "status".toList]

theorem path_segments (rq : Request) : rq.path.toList = pathOf rq.segments := by
  cases rq <;> simp [Request.path, Request.segments, pathOf, List.intercalate_cons_cons, bulk]

theorem deployPath_segments (rq : DeployRequest) : rq.path.toList = pathOf rq.segments := by
  cases rq <;> simp [DeployRequest.path, DeployRequest.segments, pathOf, List.intercalate_cons_cons]

/-- The names of a request may stand in a URL and in a header, and the keys of its objects are
distinct. -/
def Request.Plain : Request → Prop
  | .register _ _ => True
  | .getState pid => PlainSegment pid.toList
  | .putState pid doc => PlainSegment pid.toList ∧ doc.toJson.KeysDistinct
  | .ingest rq => (PlainSegment rq.pid.toList ∧ PlainSegment rq.table.toList) ∧
      (PlainHeader rq.loadId ∧ PlainHeader rq.jobId ∧ PlainHeader rq.seq) ∧ ∀ e ∈ rq.lines, e.toJson.KeysDistinct
  | .completeLoad pid loadId => PlainSegment pid.toList ∧ PlainSegment loadId.toList

def DeployRequest.Plain : DeployRequest → Prop
  | .register _ _ => True
  | .submitSecrets pid _ | .uploadUrl pid _ | .build pid | .buildStatus pid => PlainSegment pid.toList
  | .upload token _ => PlainSegment token.toList

theorem Request.Plain.segments {rq : Request} (h : rq.Plain) : rq.segments.Forall PlainSegment := by
  have hword := @plainSegment_word
  cases rq with
  | register name datasetName => exact hword (by decide)
  | getState pid => exact ⟨hword (by decide), h, hword (by decide)⟩
  | putState pid doc => exact ⟨hword (by decide), h.1, hword (by decide)⟩
  | ingest rq => exact ⟨hword (by decide), h.1.1, hword (by decide), h.1.2.bulk⟩
  | completeLoad pid loadId => exact ⟨hword (by decide), h.1, hword (by decide), h.2⟩

theorem DeployRequest.Plain.segments {rq : DeployRequest} (h : rq.Plain) : rq.segments.Forall PlainSegment := by
  have hword := @plainSegment_word
  cases rq with
  | register name datasetName => exact hword (by decide)
  | submitSecrets pid secrets => exact ⟨hword (by decide), h, hword (by decide)⟩
  | upload token package => exact ⟨hword (by decide), h⟩
  | uploadUrl pid filename => exact ⟨hword (by decide), h, hword (by decide), hword (by decide)⟩
  | build pid => exact ⟨hword (by decide), h, hword (by decide), hword (by decide)⟩
  | buildStatus pid => exact ⟨hword (by decide), h, hword (by decide), hword (by decide)⟩

/-- **The path of a request is taken apart** into its segments. -/
theorem pathParts_request (lib : HttpLibrary) {rq : Request} (h : rq.Plain) :
    pathParts (lib.target rq.path.toList) = rq.segments := by
  rw [path_segments]
  exact pathParts_target lib (by cases rq <;> simp [Request.segments]) (List.forall_iff_forall_mem.1 h.segments)

theorem pathParts_deploy (lib : HttpLibrary) {rq : DeployRequest} (h : rq.Plain) :
    pathParts (lib.target rq.path.toList) = rq.segments := by
  rw [deployPath_segments]
  exact pathParts_target lib (by cases rq <;> simp [DeployRequest.segments]) (List.forall_iff_forall_mem.1 h.segments)

/-! ## Headers -/

section

variable {H : HttpStack} {name name' value method : String} {target : List Char} {headers : List (String × String)}
  {body : Octets}

theorem headerOf_cons (h : lowered name' = lowered name) :
    H.headerOf ⟨method, target, (name', value) :: headers, body⟩ name = some (H.header value) := by
  unfold HttpStack.headerOf
  dsimp only
  rw [List.find?_cons_of_pos (by simpa using h)]
  rfl

theorem headerOf_cons_ne (h : lowered name' ≠ lowered name) : H.headerOf ⟨method, target, (name', value) :: headers, body⟩ name =
    H.headerOf ⟨method, target, headers, body⟩ name := by
  unfold HttpStack.headerOf
  dsimp only
  rw [List.find?_cons_of_neg (by simpa using h)]

theorem headerOf_nil : H.headerOf ⟨method, target, [], body⟩ name = none := rfl

/-- The authorization of a client. -/
theorem auth_client (apiToken : Option String) : Handler.auth H ⟨method, target, clientHeaders apiToken headers, body⟩ =
    decide (H.header ("Token " ++ apiToken.getD "None") = "Token " ++ Handler.token) := by
  unfold Handler.auth clientHeaders
  rw [headerOf_cons rfl]
  simp only [Option.some.injEq]

/-- **The token of the server opens it.** -/
theorem auth_token : Handler.auth H ⟨method, target, clientHeaders (some Handler.token) headers, body⟩ = true := by
  have hplain : PlainHeader ("Token " ++ Handler.token) :=
    ⟨List.forall_iff_forall_mem.1 (by decide), by decide, by decide⟩
  rw [auth_client]
  exact decide_eq_true (H.header_plain _ hplain)

/-- A body that is not compressed. -/
theorem body_client (apiToken : Option String) :
    Handler.body H ⟨method, target, clientHeaders apiToken [], body⟩ = some body := by
  have hname : lowered "Authorization" ≠ lowered "Content-Encoding" := by decide
  unfold Handler.body clientHeaders
  rw [headerOf_cons_ne hname, headerOf_nil]
  rfl

/-- **A JSON body is decoded.** -/
theorem payload_client (apiToken : Option String) {v : Value} (h : v.WellFormed) :
    Handler.payload H ⟨method, target, clientHeaders apiToken [], H.jsonBody v⟩ = some v := by
  unfold Handler.payload
  rw [body_client, Option.bind_some, H.jsonBody_loads v h]

end

/-! ## What the server hears -/

/-- The call that a request stands for. -/
def Request.heard (num : NumberText) (crash : Option CrashPoint) : Request → Heard
  | .register name datasetName => .register (.str (ofString name)) (.str (ofString datasetName)) (.str (ofString "external_dlt"))
  | .getState pid => .getState pid.toList
  | .putState pid doc => .putState pid.toList (doc.toJson.toValue num)
  | .ingest rq => .ingest rq.pid.toList rq.table.toList (some rq.loadId) (some rq.jobId) (some rq.seq)
      (crash.map CrashPoint.text) (rq.lines.map fun e => bytesOf (e.toJson.toValue num))
  | .completeLoad pid loadId => .completeLoad pid.toList loadId.toList

/-- Where `do_POST` sends a request. -/
def Request.route : Request → Route
  | .register _ _ => .register
  | .ingest rq => .ingest rq.pid.toList rq.table.toList
  | .completeLoad pid loadId => .completeLoad pid.toList loadId.toList
  | _ => .notFound

theorem postRoute_request (lib : HttpLibrary) {rq : Request} (h : rq.Plain) :
    postRoute (lib.target rq.path.toList) = rq.route := by
  have hparts := pathParts_request lib h
  unfold pathParts at hparts
  unfold postRoute
  rw [hparts]
  cases rq with
  | ingest rq =>
    have hbulk : bulk <:+ rq.table.toList ++ bulk := List.suffix_append _ _
    simp [Request.segments, Request.route, hbulk]
  | _ => simp [Request.segments, Request.route, bulk]

theorem registration_wellFormed (kind name datasetName : String) : (registration kind name datasetName).WellFormed :=
  have hkeys : [ofString "type", ofString "name", ofString "config"].Nodup := by decide
  ⟨hkeys, wellPaired_ofString _, wellPaired_ofString _, wellPaired_ofString _, wellPaired_ofString _,
    wellPaired_ofString _, ⟨List.nodup_singleton _, wellPaired_ofString _, wellPaired_ofString _, trivial⟩, trivial⟩

/-- **A registration is read.** -/
theorem readRegistration_eq (H : HttpStack) (kind name datasetName : String) :
    Handler.readRegistration H (registration kind name datasetName) =
      some (.register (.str (ofString name)) (.str (ofString datasetName)) (.str (ofString kind))) := rfl

/-- The body of an ingest. -/
theorem wireBody_envelopes (H : HttpStack) (lines : List Envelope) :
    wireBody (fun e : Envelope => .ok (e.toJson.toValue H.numbers)) H.compress lines =
      .ok (H.compress ([newline].intercalate (lines.map fun e => bytesOf (e.toJson.toValue H.numbers)))) := by
  have hbuilt : buildRows (fun e : Envelope => .ok (e.toJson.toValue H.numbers)) lines =
      .ok (lines.map fun e => e.toJson.toValue H.numbers) :=
    buildRows_ok (List.forall₂_map_right_iff.2 (List.forall₂_same.2 fun _ _ => rfl))
  rw [wireBody_ok hbuilt, List.map_map]
  rfl

section

variable {H : HttpStack} {m : Message}

theorem hear_get (hmethod : m.method = "GET") : Handler.hear H m = Handler.doGet H m := if_pos hmethod

theorem hear_post (hmethod : m.method = "POST") : Handler.hear H m = Handler.doPost H m := by
  unfold Handler.hear
  rw [hmethod, if_neg (by decide), if_pos rfl]

theorem hear_put (hmethod : m.method = "PUT") : Handler.hear H m = Handler.doPut H m := by
  unfold Handler.hear
  rw [hmethod, if_neg (by decide), if_neg (by decide), if_pos rfl]

theorem hear_patch (hmethod : m.method = "PATCH") : Handler.hear H m = Handler.doPatch H m := by
  unfold Handler.hear
  rw [hmethod, if_neg (by decide), if_neg (by decide), if_neg (by decide), if_pos rfl]

/-- A registration, of either client. -/
theorem hear_register {kind name datasetName : String} (hmethod : m.method = "POST") (hauth : Handler.auth H m = true)
    (hroute : postRoute m.target = .register) (hpayload : Handler.payload H m = some (registration kind name datasetName)) :
    Handler.hear H m = .register (.str (ofString name)) (.str (ofString datasetName)) (.str (ofString kind)) := by
  rw [hear_post hmethod]
  unfold Handler.doPost
  rw [hauth, hroute]
  dsimp only
  rw [hpayload, Option.bind_some, readRegistration_eq]
  rfl

theorem hear_completeLoad {pid loadId : List Char} (hmethod : m.method = "POST") (hauth : Handler.auth H m = true)
    (hroute : postRoute m.target = .completeLoad pid loadId) : Handler.hear H m = .completeLoad pid loadId := by
  rw [hear_post hmethod]
  unfold Handler.doPost
  rw [hauth, hroute]
  rfl

theorem hear_getState {pid : List Char} (hmethod : m.method = "GET") (hauth : Handler.auth H m = true)
    (hparts : pathParts m.target = ["collectors".toList, pid, "state".toList]) : Handler.hear H m = .getState pid := by
  rw [hear_get hmethod]
  unfold Handler.doGet
  rw [hauth, hparts]
  rfl

theorem hear_putState {pid : List Char} {doc : Value} (hmethod : m.method = "PUT") (hauth : Handler.auth H m = true)
    (hparts : pathParts m.target = ["collectors".toList, pid, "state".toList]) (hpayload : Handler.payload H m = some doc) :
    Handler.hear H m = .putState pid doc := by
  rw [hear_put hmethod]
  unfold Handler.doPut
  rw [hparts, hauth, hpayload]
  rfl

theorem hear_ingest {pid table : List Char} {content : Octets} (hmethod : m.method = "POST") (hauth : Handler.auth H m = true)
    (hroute : postRoute m.target = .ingest pid table) (hbody : Handler.body H m = some content) :
    Handler.hear H m = .ingest pid table (H.headerOf m "x-mb-load-id") (H.headerOf m "x-mb-job-id") (H.headerOf m "x-mb-seq")
      (H.headerOf m "x-mb-chaos-crash-at") (bodyLines content) := by
  rw [hear_post hmethod]
  unfold Handler.doPost
  rw [hauth, hroute]
  dsimp only
  rw [hbody]
  rfl

end

section

variable (H : HttpStack)

/-- The headers of an ingest. -/
def ingestHeaders (rq : IngestRequest) (crash : Option CrashPoint) : List (String × String) :=
  [("Content-Encoding", "zstd"), ("X-MB-Load-Id", rq.loadId), ("X-MB-Job-Id", rq.jobId), ("X-MB-Seq", rq.seq)] ++
    chaosHeader crash

/-- **The headers of an ingest are read**, whatever their case. -/
theorem headers_read {rq : IngestRequest} (h : PlainHeader rq.loadId ∧ PlainHeader rq.jobId ∧ PlainHeader rq.seq)
    {crash : Option CrashPoint} {apiToken : Option String} {m : Message}
    (hm : m.headers = clientHeaders apiToken (ingestHeaders rq crash)) :
    H.headerOf m "Content-Encoding" = some "zstd" ∧ H.headerOf m "x-mb-load-id" = some rq.loadId ∧
      H.headerOf m "x-mb-job-id" = some rq.jobId ∧ H.headerOf m "x-mb-seq" = some rq.seq ∧
      H.headerOf m "x-mb-chaos-crash-at" = crash.map CrashPoint.text := by
  have hzstd : PlainHeader "zstd" := ⟨List.forall_iff_forall_mem.1 (by decide), by decide, by decide⟩
  have hpoint : ∀ point : CrashPoint, PlainHeader point.text := by
    rintro (_ | _ | _) <;> exact ⟨List.forall_iff_forall_mem.1 (by decide), by decide, by decide⟩
  obtain ⟨method, target, headers, body⟩ := m
  subst hm
  unfold clientHeaders ingestHeaders
  simp only [List.cons_append, List.nil_append]
  refine ⟨?_, ?_, ?_, ?_, ?_⟩
  · rw [headerOf_cons_ne (by decide), headerOf_cons (by decide), H.header_plain _ hzstd]
  · rw [headerOf_cons_ne (by decide), headerOf_cons_ne (by decide), headerOf_cons (by decide), H.header_plain _ h.1]
  · rw [headerOf_cons_ne (by decide), headerOf_cons_ne (by decide), headerOf_cons_ne (by decide), headerOf_cons (by decide),
      H.header_plain _ h.2.1]
  · rw [headerOf_cons_ne (by decide), headerOf_cons_ne (by decide), headerOf_cons_ne (by decide), headerOf_cons_ne (by decide),
      headerOf_cons (by decide), H.header_plain _ h.2.2]
  · rw [headerOf_cons_ne (by decide), headerOf_cons_ne (by decide), headerOf_cons_ne (by decide), headerOf_cons_ne (by decide),
      headerOf_cons_ne (by decide)]
    cases crash with
    | none => rfl
    | some point =>
      have hchaos : chaosHeader (some point) = [("X-MB-Chaos-Crash-At", point.text)] := rfl
      rw [hchaos, headerOf_cons (by decide), H.header_plain _ (hpoint point)]
      rfl

/-- A message with the lines of an ingest. -/
theorem hear_lines {rq : IngestRequest} (h : (Request.ingest rq).Plain) {crash : Option CrashPoint} {m : Message}
    (hmethod : m.method = "POST") (htarget : m.target = H.target (Request.ingest rq).path.toList)
    (hheaders : m.headers = clientHeaders (some Handler.token) (ingestHeaders rq crash))
    (hbody : m.body = H.compress ([newline].intercalate (rq.lines.map fun e => bytesOf (e.toJson.toValue H.numbers)))) :
    Handler.hear H m = (Request.ingest rq).heard H.numbers crash := by
  obtain ⟨hencoding, hload, hjob, hseq, hchaos⟩ := headers_read H h.2.1 hheaders
  have hauth : Handler.auth H m = true := by
    obtain ⟨method, target, headers, body⟩ := m
    subst hheaders
    exact auth_token
  have hroute : postRoute m.target = .ingest rq.pid.toList rq.table.toList := by
    rw [htarget]
    exact postRoute_request H.toHttpLibrary h
  have hcontent : Handler.body H m = some ([newline].intercalate (rq.lines.map fun e => bytesOf (e.toJson.toValue H.numbers))) := by
    unfold Handler.body
    rw [if_pos hencoding, hbody, H.decompress_compress]
  have hframed : ∀ line ∈ rq.lines.map (fun e => bytesOf (e.toJson.toValue H.numbers)), Framed line := by
    intro line hline
    obtain ⟨e, -, rfl⟩ := List.mem_map.1 hline
    exact framed_bytesOf _
  rw [hear_ingest hmethod hauth hroute hcontent, hload, hjob, hseq, hchaos, bodyLines_join hframed]
  rfl

/-- **A request is heard as it was sent**, with the token of the server. -/
theorem hear_message (crash : Option CrashPoint) {rq : Request} (h : rq.Plain) :
    ∃ m, rq.message H (some Handler.token) crash = .ok m ∧ Handler.hear H m = rq.heard H.numbers crash := by
  cases rq with
  | register name datasetName =>
    exact ⟨_, rfl, hear_register rfl auth_token (postRoute_request _ h) (payload_client _ (registration_wellFormed _ _ _))⟩
  | getState pid => exact ⟨_, rfl, hear_getState rfl auth_token (pathParts_request _ h)⟩
  | putState pid doc =>
    exact ⟨_, rfl, hear_putState rfl auth_token (pathParts_request _ h) (payload_client _ (toValue_wellFormed H.numbers _ h.2))⟩
  | completeLoad pid loadId => exact ⟨_, rfl, hear_completeLoad rfl auth_token (postRoute_request _ h)⟩
  | ingest rq =>
    have hcontent : (Request.ingest rq).content H crash = .ok (ingestHeaders rq crash,
        H.compress ([newline].intercalate (rq.lines.map fun e => bytesOf (e.toJson.toValue H.numbers)))) := by
      simp only [Request.content]
      rw [wireBody_envelopes]
      rfl
    refine ⟨⟨"POST", H.target (Request.ingest rq).path.toList, clientHeaders (some Handler.token) (ingestHeaders rq crash), _⟩,
      ?_, hear_lines H h rfl rfl rfl rfl⟩
    unfold Request.message
    rw [hcontent]
    rfl

end

/-! ## Deploys -/

/-- The call that a request of a deploy stands for. -/
def DeployRequest.heard (H : HttpStack) : DeployRequest → Heard
  | .register name datasetName => .register (.str (ofString name)) (.str (ofString datasetName)) (.str (ofString "hosted_dlt"))
  | .submitSecrets pid secrets => .submitSecrets pid.toList (.obj (secrets.entries.map secretEntry))
  | .uploadUrl pid filename => .uploadUrl pid.toList (.str (ofString filename))
  | .upload token package => .upload token.toList (H.archive package)
  | .build pid => .build pid.toList
  | .buildStatus pid => .buildStatus pid.toList

/-- Where `do_POST` sends a request of a deploy. -/
def DeployRequest.route : DeployRequest → Route
  | .register _ _ => .register
  | .uploadUrl pid _ => .uploadUrl pid.toList
  | .build pid => .build pid.toList
  | _ => .notFound

theorem postRoute_deploy (lib : HttpLibrary) {rq : DeployRequest} (h : rq.Plain) :
    postRoute (lib.target rq.path.toList) = rq.route := by
  have hparts := pathParts_deploy lib h
  unfold pathParts at hparts
  unfold postRoute
  rw [hparts]
  cases rq <;> simp [DeployRequest.segments, DeployRequest.route, bulk]

theorem secretEntries_wellFormed : (secrets : List (String × String)) → WellFormedEntries (secrets.map secretEntry)
  | [] => trivial
  | _ :: secrets => ⟨wellPaired_ofString _, wellPaired_ofString _, secretEntries_wellFormed secrets⟩

/-- An object with one entry. -/
theorem single_wellFormed (k : String) {v : Value} (h : v.WellFormed) : (Value.obj [(ofString k, v)]).WellFormed :=
  ⟨List.nodup_singleton _, wellPaired_ofString _, h, trivial⟩

theorem secrets_wellFormed (secrets : Dict String String) : (Value.obj (secrets.entries.map secretEntry)).WellFormed := by
  refine ⟨?_, secretEntries_wellFormed _⟩
  have hkeys : (secrets.entries.map secretEntry).map Prod.fst = (secrets.entries.map Prod.fst).map ofString := by
    rw [List.map_map, List.map_map]
    rfl
  rw [hkeys]
  exact secrets.nodup.map ofString_injective

section

variable {H : HttpStack} {m : Message}

/-- What is empty stands for itself. -/
theorem orElse_obj (kvs : List (Text × Value)) : Handler.orElse H (.obj []) (.obj kvs) = .obj kvs := by
  cases kvs <;> rfl

theorem orElse_str (s : Text) : Handler.orElse H (.str []) (.str s) = .str s := by
  cases s <;> rfl

theorem hear_secrets {pid : List Char} {kvs : List (Text × Value)} (hmethod : m.method = "PATCH")
    (hauth : Handler.auth H m = true) (hparts : pathParts m.target = ["collectors".toList, pid, "secrets".toList])
    (hpayload : Handler.payload H m = some (.obj [(ofString "secrets", .obj kvs)])) :
    Handler.hear H m = .submitSecrets pid (.obj kvs) := by
  have hget : payloadGet "secrets" (.obj [(ofString "secrets", .obj kvs)]) = some (.obj kvs) := rfl
  rw [hear_patch hmethod]
  unfold Handler.doPatch
  rw [hauth, hparts, hpayload, Option.bind_some, hget]
  exact congrArg (Heard.submitSecrets pid) (orElse_obj kvs)

theorem hear_uploadUrl {pid : List Char} {filename : Text} (hmethod : m.method = "POST") (hauth : Handler.auth H m = true)
    (hroute : postRoute m.target = .uploadUrl pid)
    (hpayload : Handler.payload H m = some (.obj [(ofString "filename", .str filename)])) :
    Handler.hear H m = .uploadUrl pid (.str filename) := by
  have hget : payloadGet "filename" (.obj [(ofString "filename", .str filename)]) = some (.str filename) := rfl
  rw [hear_post hmethod]
  unfold Handler.doPost
  rw [hauth, hroute]
  dsimp only
  rw [hpayload, Option.bind_some, hget]
  exact congrArg (Heard.uploadUrl pid) (orElse_str filename)

theorem hear_build {pid : List Char} (hmethod : m.method = "POST") (hauth : Handler.auth H m = true)
    (hroute : postRoute m.target = .build pid) : Handler.hear H m = .build pid := by
  rw [hear_post hmethod]
  unfold Handler.doPost
  rw [hauth, hroute]
  rfl

theorem hear_buildStatus {pid : List Char} (hmethod : m.method = "GET") (hauth : Handler.auth H m = true)
    (hparts : pathParts m.target = ["collectors".toList, pid, "deployment".toList, "status".toList]) :
    Handler.hear H m = .buildStatus pid := by
  rw [hear_get hmethod]
  unfold Handler.doGet
  rw [hauth, hparts]
  rfl

/-- An upload needs no authorization. -/
theorem hear_upload {token : List Char} {content : Octets} (hmethod : m.method = "PUT")
    (hparts : pathParts m.target = ["uploads".toList, token]) (hbody : Handler.body H m = some content) :
    Handler.hear H m = .upload token content := by
  rw [hear_put hmethod]
  unfold Handler.doPut
  rw [hparts, hbody]
  rfl

/-- **A request of a deploy is heard as it was sent.** -/
theorem hear_deploy (H : HttpStack) {rq : DeployRequest} (h : rq.Plain) :
    Handler.hear H (rq.message H (some Handler.token)) = rq.heard H := by
  have hroute := postRoute_deploy H.toHttpLibrary h
  have hparts := pathParts_deploy H.toHttpLibrary h
  cases rq with
  | register name datasetName =>
    exact hear_register rfl auth_token hroute (payload_client _ (registration_wellFormed _ _ _))
  | submitSecrets pid secrets =>
    exact hear_secrets rfl auth_token hparts (payload_client _ (single_wellFormed _ (secrets_wellFormed secrets)))
  | uploadUrl pid filename =>
    exact hear_uploadUrl rfl auth_token hroute (payload_client _ (single_wellFormed _ (wellPaired_ofString filename)))
  | upload token package => exact hear_upload rfl hparts rfl
  | build pid => exact hear_build rfl auth_token hroute
  | buildStatus pid => exact hear_buildStatus rfl auth_token hparts

end

/-! ## Refused messages -/

section

variable {H : HttpStack}

/-- **A message without the token is refused**, unless it is an upload. -/
theorem hear_stranger {m : Message} (hauth : Handler.auth H m = false)
    (hput : m.method = "PUT" → uploadToken (pathParts m.target) = none) : ∃ status, Handler.hear H m = .refused status := by
  have hno : (!Handler.auth H m) = true := by rw [hauth]; rfl
  by_cases hget : m.method = "GET"
  · exact ⟨_, (hear_get hget).trans (if_pos hno)⟩
  by_cases hpost : m.method = "POST"
  · exact ⟨_, (hear_post hpost).trans (if_pos hno)⟩
  by_cases hput' : m.method = "PUT"
  · refine ⟨some 401, (hear_put hput').trans ?_⟩
    unfold Handler.doPut
    rw [hput hput']
    exact if_pos hno
  by_cases hpatch : m.method = "PATCH"
  · exact ⟨_, (hear_patch hpatch).trans (if_pos hno)⟩
  · unfold Handler.hear
    rw [if_neg hget, if_neg hpost, if_neg hput', if_neg hpatch]
    exact ⟨_, rfl⟩

/-- A request of `HttpTransport` is no upload. -/
theorem uploadToken_request (lib : HttpLibrary) {rq : Request} (h : rq.Plain) :
    uploadToken (pathParts (lib.target rq.path.toList)) = none := by
  rw [pathParts_request lib h]
  cases rq <;> rfl

/-- **A request with another token** is that of a stranger. -/
theorem denied {apiToken : Option String} {crash : Option CrashPoint} {rq : Request} {m : Message} (h : rq.Plain)
    (hplain : PlainHeader ("Token " ++ apiToken.getD "None")) (htoken : apiToken.getD "None" ≠ Handler.token)
    (hm : rq.message H apiToken crash = .ok m) :
    Handler.auth H m = false ∧ (m.method = "PUT" → uploadToken (pathParts m.target) = none) := by
  unfold Request.message at hm
  cases hcontent : rq.content H crash with
  | error e =>
    rw [hcontent] at hm
    cases hm
  | ok content =>
    rw [hcontent] at hm
    cases hm
    refine ⟨?_, fun _ => uploadToken_request H.toHttpLibrary h⟩
    rw [auth_client, H.header_plain _ hplain]
    refine decide_eq_false fun he => htoken ?_
    have hlist := congrArg String.toList he
    rw [String.toList_append, String.toList_append] at hlist
    exact String.toList_inj.1 (List.append_cancel_left hlist)

end

/-! ## Runs -/

theorem crashPointOf_text (point : CrashPoint) : crashPointOf point.text = some point := by
  cases point <;> decide

/-- **The call of a request runs in its thread.** -/
theorem thread_heard (H : HttpStack) (crash : Option CrashPoint) {rq : Request} (h : rq.Plain) :
    (rq.heard H.numbers crash).thread H = some (.start crash rq) := by
  cases rq with
  | register name datasetName =>
    simp only [Request.heard, Heard.thread]
    rw [if_pos trivial, stringOf_ofString, stringOf_ofString]
    rfl
  | getState pid =>
    simp only [Request.heard, Heard.thread]
    rw [String.ofList_toList]
    rfl
  | putState pid doc =>
    simp only [Request.heard, Heard.thread]
    rw [jsonOf_toValue, Option.bind_some, rowOf_toJson, String.ofList_toList]
    rfl
  | completeLoad pid loadId =>
    simp only [Request.heard, Heard.thread]
    rw [String.ofList_toList, String.ofList_toList]
    rfl
  | ingest rq =>
    have hcrash : (crash.map CrashPoint.text).bind crashPointOf = crash := by
      cases crash with
      | none => rfl
      | some point => exact crashPointOf_text point
    simp only [Request.heard, Heard.thread]
    rw [envelopes_read H h.2.2, hcrash, String.ofList_toList, String.ofList_toList]
    rfl

/-- What an event stands for: a message of a client is its request, and a message without the token,
that is no upload, is nothing. -/
inductive Stands (H : HttpStack) : WireEvent → List SysEvent → Prop
  | request {rq : Request} {crash : Option CrashPoint} {m : Message} (h : rq.Plain)
      (hm : rq.message H (some Handler.token) crash = .ok m) : Stands H (.arrive m) [.spawn rq crash]
  | stranger {m : Message} (hauth : Handler.auth H m = false)
      (hput : m.method = "PUT" → uploadToken (pathParts m.target) = none) : Stands H (.arrive m) []
  | tick (t : ℕ) (inp : Inputs) : Stands H (.tick t inp) [.tick t inp]
  | pause (pid : String) : Stands H (.pause pid) [.pause pid]

section

variable {H : HttpStack} (P : Runtime)

/-- **One event**: the system hears what it stands for. -/
theorem Stands.hear {e : WireEvent} {fs : List SysEvent} (h : Stands H e fs) (s : Sys) : s.hear H P e = some (Sys.run P fs s) := by
  cases h with
  | @request rq crash m h hm =>
    obtain ⟨m', hm', hheard⟩ := hear_message H crash h
    rw [hm] at hm'
    cases hm'
    have hthread := thread_heard H crash h
    have hrun : ((rq.heard H.numbers crash).thread H).map (fun th => { s with threads := s.threads ++ [th] }) =
        some (Sys.run P [.spawn rq crash] s) := by
      rw [hthread]
      rfl
    unfold Sys.hear
    dsimp only
    rw [hheard]
    cases rq <;> exact hrun
  | stranger hauth hput =>
    obtain ⟨status, hrefused⟩ := hear_stranger hauth hput
    unfold Sys.hear
    dsimp only
    rw [hrefused]
    rfl
  | tick t inp => rfl
  | pause pid => rfl

/-- **A run of messages** is the run of the requests that they stand for. -/
theorem hearAll_stands {es : List WireEvent} {fs : List (List SysEvent)} (h : List.Forall₂ (Stands H) es fs) (s : Sys) :
    s.hearAll H P es = some (Sys.run P fs.flatten s) := by
  induction h generalizing s with
  | nil => rfl
  | @cons e f es fs he _ ih =>
    have hrun : Sys.run P (f ++ fs.flatten) s = Sys.run P fs.flatten (Sys.run P f s) := List.foldl_append ..
    unfold Sys.hearAll at ih ⊢
    rw [List.foldlM_cons, he.hear P s, List.flatten_cons, hrun]
    exact ih _

end

/-- **A server that is sent messages runs as one that is sent requests.** Every request of `HttpTransport`
that is plain has a message, and with another token than the server's that message is one of a stranger.
In any run in which messages of `HttpTransport` arrive among those of strangers, the system becomes what it
becomes if the requests themselves arrive and the strangers do not; what a stranger sends is anything but
an upload, which is taken from anyone (`hear_upload`). And each message of `DeployClient` that is plain is
heard as its request. -/
theorem wire_faithful (H : HttpStack) (P : Runtime) :
    (∀ (rq : Request) (crash : Option CrashPoint), rq.Plain → ∃ m, rq.message H (some Handler.token) crash = .ok m) ∧
    (∀ (rq : Request) (crash : Option CrashPoint) (apiToken : Option String) (m : Message), rq.Plain →
      PlainHeader ("Token " ++ apiToken.getD "None") → apiToken.getD "None" ≠ Handler.token →
      rq.message H apiToken crash = .ok m → Stands H (.arrive m) []) ∧
    (∀ (es : List WireEvent) (fs : List (List SysEvent)), List.Forall₂ (Stands H) es fs →
      ∀ s : Sys, s.hearAll H P es = some (Sys.run P fs.flatten s)) ∧
    ∀ rq : DeployRequest, rq.Plain → Handler.hear H (rq.message H (some Handler.token)) = rq.heard H := by
  refine ⟨fun rq crash h => ?_, fun rq crash apiToken m h hplain htoken hm => ?_, fun es fs h s => hearAll_stands P h s,
    fun rq h => hear_deploy H h⟩
  · obtain ⟨m, hm, -⟩ := hear_message H crash h
    exact ⟨m, hm⟩
  · obtain ⟨hauth, hput⟩ := denied h hplain htoken hm
    exact .stranger hauth hput

/-! ## A stack -/

/-- The decimal text of an integer. -/
def intChars : ℤ → List Char
  | .ofNat n => Nat.toDigits 10 n
  | .negSucc n => '-' :: Nat.toDigits 10 (n + 1)

/-- A quotient. -/
def ratChars (q : ℚ) : List Char := intChars q.num ++ 'e' :: Nat.toDigits 10 q.den

def readInt : List Char → ℤ
  | '-' :: digits => -(Nat.ofDigitChars 10 digits 0 : ℤ)
  | digits => Nat.ofDigitChars 10 digits 0

/-- What is written with an `e` is a quotient. -/
def readChars (s : List Char) : Json :=
  match s.dropWhile (· ≠ 'e') with
  | [] => .int (readInt s)
  | _ :: den => .float (mkRat (readInt (s.takeWhile (· ≠ 'e'))) (Nat.ofDigitChars 10 den 0))

section

variable {n : ℕ} {c : Char}

theorem digit_of_mem (h : c ∈ Nat.toDigits 10 n) : c.isDigit = true := Nat.isDigit_of_mem_toDigits (by decide) (by decide) h

theorem digit_inNumber (h : c.isDigit = true) : startsNumber c.toNat = true ∧ inNumber c.toNat = true := by
  have hcode : c.toNat ∈ List.range' 48 10 := by
    simp only [Char.isDigit, Bool.and_eq_true, decide_eq_true_eq, ge_iff_le, UInt32.le_iff_toNat_le] at h
    have h₁ : 48 ≤ c.toNat := h.1
    have h₂ : c.toNat ≤ 57 := h.2
    rw [List.mem_range'_1]
    omega
  have hall : ∀ k ∈ List.range' 48 10, startsNumber k = true ∧ inNumber k = true := by decide
  exact hall _ hcode

theorem toDigits_ne_nil : Nat.toDigits 10 n ≠ [] := by
  intro h
  have hlen := Nat.length_toDigits_pos (b := 10) (n := n)
  rw [h] at hlen
  exact absurd hlen (by decide)

theorem readInt_digits : readInt (Nat.toDigits 10 n) = n := by
  unfold readInt
  split
  · rename_i digits he
    exact absurd (digit_of_mem (he ▸ List.mem_cons_self)) (by decide)
  · rw [Nat.ofDigitChars_ten_toDigits]

theorem readInt_intChars (n : ℤ) : readInt (intChars n) = n := by
  cases n with
  | ofNat n => exact readInt_digits
  | negSucc n =>
    have hread : readInt (intChars (.negSucc n)) = -(Nat.ofDigitChars 10 (Nat.toDigits 10 (n + 1)) 0 : ℤ) := rfl
    rw [hread, Nat.ofDigitChars_ten_toDigits]
    rfl

theorem intChars_chars (n : ℤ) : c ∈ intChars n → c.isDigit = true ∨ c = '-' := by
  cases n with
  | ofNat n => exact fun h => .inl (digit_of_mem h)
  | negSucc n =>
    intro h
    rcases List.mem_cons.1 h with rfl | h
    · exact .inr rfl
    · exact .inl (digit_of_mem h)

end

theorem exp_notMem (n : ℤ) : 'e' ∉ intChars n := fun h => (intChars_chars n h).elim (fun h => absurd h (by decide)) (by decide)

theorem readChars_int (n : ℤ) : readChars (intChars n) = .int n := by
  have hdrop : (intChars n).dropWhile (· ≠ 'e') = [] :=
    List.dropWhile_eq_nil_iff.2 fun c hc => decide_eq_true fun he => exp_notMem n (he ▸ hc)
  unfold readChars
  rw [hdrop]
  exact congrArg Json.int (readInt_intChars n)

theorem readChars_rat (q : ℚ) : readChars (ratChars q) = .float q := by
  have hall : ∀ c ∈ intChars q.num, decide (c ≠ 'e') = true := fun c hc => decide_eq_true fun he => exp_notMem _ (he ▸ hc)
  unfold readChars ratChars
  rw [List.dropWhile_append_of_pos hall, List.takeWhile_append_of_pos hall, List.dropWhile_cons_of_neg (by decide),
    List.takeWhile_cons_of_neg (by decide), List.append_nil, readInt_intChars]
  dsimp only
  rw [Nat.ofDigitChars_ten_toDigits, Rat.mkRat_self]

/-- A number that begins with the text of an integer. -/
def numberOf (n : ℤ) (rest : List Char) (h : ∀ c ∈ rest, inNumber c.toNat = true) : Number where
  token := (intChars n ++ rest).map Char.toNat
  head := by
    cases n with
    | ofNat n =>
      obtain ⟨c, digits, hdigits⟩ := List.exists_cons_of_ne_nil (toDigits_ne_nil (n := n))
      have hc : c.isDigit = true := digit_of_mem (n := n) (hdigits ▸ List.mem_cons_self)
      have hchars : intChars (.ofNat n) = c :: digits := hdigits
      refine ⟨c.toNat, ?_, (digit_inNumber hc).1⟩
      rw [hchars]
      rfl
    | negSucc n => exact ⟨_, rfl, by decide⟩
  chars := by
    intro k hk
    obtain ⟨c, hc, rfl⟩ := List.mem_map.1 hk
    rcases List.mem_append.1 hc with hc | hc
    · rcases intChars_chars n hc with hdigit | rfl
      · exact (digit_inNumber hdigit).2
      · decide
    · exact h c hc

/-- Integers as they are, and quotients of them. -/
def decimalNumbers : NumberText where
  int n := numberOf n [] nofun
  float q := numberOf q.num ('e' :: Nat.toDigits 10 q.den) fun c hc => by
    rcases List.mem_cons.1 hc with rfl | hc
    · decide
    · exact (digit_inNumber (digit_of_mem hc)).2

/-- The number that such a text stands for. -/
def readNumber (n : Number) : Json := readChars (n.token.map Char.ofNat)

theorem map_ofNat_toNat (s : List Char) : (s.map Char.toNat).map Char.ofNat = s := by
  rw [List.map_map]
  exact List.map_id'' Char.ofNat_toNat s

/-- The first bytes of a zstd frame. -/
def frameMagic : Octets := [0x28, 0xB5, 0x2F, 0xFD]

/-- Libraries that leave headers alone, and put a body behind the magic bytes of a frame. -/
def plainStack : HttpStack where
  toHttpLibrary := .plain
  numbers := decimalNumbers
  read := readNumber
  read_int n := by
    have hread : readNumber (decimalNumbers.int n) = readChars (((intChars n ++ []).map Char.toNat).map Char.ofNat) := rfl
    rw [hread, map_ofNat_toNat, List.append_nil, readChars_int]
  read_float q := by
    have hread : readNumber (decimalNumbers.float q) = readChars (((ratChars q).map Char.toNat).map Char.ofNat) := rfl
    rw [hread, map_ofNat_toNat, readChars_rat]
  header := id
  header_plain _ _ := rfl
  jsonBody := bytesOf
  jsonBody_loads _ h := loadsBytes_bytesOf h
  compress body := frameMagic ++ body
  decompress frame := if frame.take 4 = frameMagic then some (frame.drop 4) else none
  decompress_compress _ := rfl
  archive _ := []

/-- A chunk with one row. -/
def wiredIngest : IngestRequest :=
  ⟨"p1", "orders", "1700000000.5", "orders.a1.jsonl", "0", [⟨Dict.ofEntries [("name", .str "a\nb")], none, some (.str "k1")⟩]⟩

/-- The same chunk, sent by one who does not know the token. -/
def strangerMessage : Message := ⟨"POST", "/collectors/p1/ingest/orders:bulk".toList, [("Authorization", "Bearer fake-token")], []⟩

/-- A test sends the chunk and has it crash; it is heard after a stranger, and makes its first step. -/
theorem wire_faithful_orders (inp : Inputs) : ∃ m,
    (Request.ingest wiredIngest).message plainStack (some Handler.token) (some .afterLedger) = .ok m ∧
    ({} : Sys).hearAll plainStack Runtime.plain [.arrive strangerMessage, .arrive m, .tick 0 inp] =
      some (Sys.run Runtime.plain [.spawn (.ingest wiredIngest) (some .afterLedger), .tick 0 inp] {}) := by
  have hword := @plainSegment_word
  have hheader : ∀ s ∈ ["1700000000.5", "orders.a1.jsonl", "0"], PlainHeader s := by
    have hall : ∀ s ∈ ["1700000000.5", "orders.a1.jsonl", "0"], s.toList.Forall (fun c => 0x20 ≤ c.toNat ∧ c.toNat ≤ 0x7E) ∧
        s.toList.head? ≠ some ' ' ∧ s.toList.getLast? ≠ some ' ' := by decide
    exact fun s hs => ⟨List.forall_iff_forall_mem.1 (hall s hs).1, (hall s hs).2.1, (hall s hs).2.2⟩
  have hdistinct : ∀ e ∈ wiredIngest.lines, e.toJson.KeysDistinct := by
    intro e he
    rw [List.mem_singleton.1 he]
    exact ⟨by decide, ⟨by decide, trivial, trivial⟩, trivial, trivial⟩
  have hplain : (Request.ingest wiredIngest).Plain :=
    ⟨⟨hword (by decide), hword (by decide)⟩, ⟨hheader _ (by simp [wiredIngest]), hheader _ (by simp [wiredIngest]),
      hheader _ (by simp [wiredIngest])⟩, hdistinct⟩
  obtain ⟨m, hm⟩ := (wire_faithful plainStack Runtime.plain).1 (.ingest wiredIngest) (some .afterLedger) hplain
  exact ⟨m, hm, (wire_faithful plainStack Runtime.plain).2.2.1 _ [[], [_], [_]]
    (.cons (.stranger (by decide) (by decide)) (.cons (.request hplain hm) (.cons (.tick 0 inp) .nil))) {}⟩

end Matterbeam
