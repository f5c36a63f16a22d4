import Matterbeam.Proof.Conflict
import Matterbeam.Proof.State

/-!
# Writing and reading the state

The state of a pid is a register on the server (`accepted_sorted`); here the clients write and
read it. A row goes out with its `_dlt_load_id` under another name and comes back under its
own; a write that lost to a newer one is let go.

* `readState_stateDoc`: what is read of a row that was written is the row's own fields.
* `get_reads`: a read returns what the state was at one moment while it was under way.
* `state_register`: **the state is a monotone register**, for any number of writers.
-/

namespace Matterbeam

open Function Prog

/-! ## Rows and documents -/

/-- The row that a call writes to the state. -/
def Call.putRow (P : Runtime) : Call → Option Row
  | putDltState row => some row
  | stateJob lines => match stateRow P.customPuaRemove lines none with
    | .ok row => row
    | .error _ => none
  | _ => none

/-- A row as dlt writes it: an integer version, and the fields a `StateInfo` cannot do without. A
column `dlt_load_id` of its own it has only if it has a `_dlt_load_id`, which replaces it. -/
structure StateRow (row : Row) : Prop where
  version : HasVersion row
  fields : ∀ k ∈ ["engine_version", "pipeline_name", "state", "created_at"], (row.get? k).isSome
  loadId : row.get? "_dlt_load_id" = none → row.get? "dlt_load_id" = none

/-- The `StateInfo` of a row. -/
def StateInfo.ofRow (row : Row) : StateInfo where
  version := row.get "version"
  engineVersion := row.get "engine_version"
  pipelineName := row.get "pipeline_name"
  state := row.get "state"
  createdAt := row.get "created_at"
  versionHash := row.get "version_hash"
  dltLoadId := row.get "_dlt_load_id"

namespace JobClient

/-- The other columns go out as they are. -/
theorem stateDoc_get? (row : Row) {k : String} (h : k ≠ "_dlt_load_id") (h' : k ≠ "dlt_load_id") :
    (stateDoc row).get? k = row.get? k := by
  unfold stateDoc
  cases row.get? "_dlt_load_id" with
  | none => rfl
  | some v => simp [h, h']

/-- `_dlt_load_id` goes out under its other name. -/
theorem stateDoc_loadId {row : Row} (h : row.get? "_dlt_load_id" = none → row.get? "dlt_load_id" = none) :
    (stateDoc row).get? "dlt_load_id" = row.get? "_dlt_load_id" := by
  unfold stateDoc
  cases hl : row.get? "_dlt_load_id" with
  | none => exact h hl
  | some v => simp

theorem stateDoc_hasVersion {row : Row} (h : HasVersion row) : HasVersion (stateDoc row) := by
  obtain ⟨v, hv⟩ := h
  exact ⟨v, by rw [stateDoc_get? row (by decide) (by decide), hv]⟩

theorem stateDoc_version (row : Row) : docVersion (stateDoc row) = docVersion row := by
  unfold docVersion
  rw [stateDoc_get? row (by decide) (by decide)]

theorem item_toJson (doc : Row) (k : String) (h : (doc.get? k).isSome) :
    doc.toJson.item k = .ok (doc.get k) := by
  obtain ⟨v, hv⟩ := Option.isSome_iff_exists.1 h
  have hv' : doc.entries.lookup k = some v := hv
  simp [Row.toJson, Json.item, Row.get, hv, hv']

theorem row_get_congr {row row' : Row} {k k' : String} (h : row.get? k = row'.get? k') : row.get k = row'.get k' := by
  unfold Row.get
  rw [h]

theorem get_toJson (doc : Row) (k : String) : doc.toJson.get k = .ok (doc.get k) := rfl

/-- **What is read of a row that was written** is the row's own fields. -/
theorem readState_stateDoc {row : Row} (h : StateRow row) :
    readState (stateDoc row).toJson = .ok (some (.ofRow row)) := by
  have hget : ∀ {k : String}, k ≠ "_dlt_load_id" → k ≠ "dlt_load_id" → (stateDoc row).get k = row.get k :=
    fun h h' => row_get_congr (stateDoc_get? row h h')
  have hitem : ∀ k ∈ ["engine_version", "pipeline_name", "state", "created_at"],
      (stateDoc row).toJson.item k = .ok (row.get k) := by
    intro k hk
    have hne : k ≠ "_dlt_load_id" ∧ k ≠ "dlt_load_id" := by
      constructor <;> rintro rfl <;> simp at hk
    rw [item_toJson _ _ (by rw [stateDoc_get? row hne.1 hne.2]; exact h.fields k hk), hget hne.1 hne.2]
  have hver : (stateDoc row).toJson.item "version" = .ok (row.get "version") := by
    obtain ⟨v, hv⟩ := stateDoc_hasVersion h.version
    rw [item_toJson _ _ (by rw [hv]; rfl), hget (by decide) (by decide)]
  have hload : (stateDoc row).get "dlt_load_id" = row.get "_dlt_load_id" :=
    row_get_congr (stateDoc_loadId h.loadId)
  unfold readState stateInfo
  rw [if_neg (by simp [Row.toJson]), hver, hitem "engine_version" (by simp), hitem "pipeline_name" (by simp),
    hitem "state" (by simp), hitem "created_at" (by simp), get_toJson, get_toJson, hload,
    hget (by decide) (by decide)]
  rfl

end JobClient

/-! ## The exchanges of a write and of a read -/

section

variable {P : Runtime} {T : HttpTransport} {rq : Request} {l : List (Request × Answer)}
  {cl cl' : JobClient Request Answer} {active : Option String}

/-- How a request ends: with a response that is not a lock contention, or it gives up. -/
theorem talk_request {res : Except PyError (Option Response)} (h : Talk (T.request P rq) l res) :
    (∃ rsp, (rq, Answer.reply rsp) ∈ l ∧ HttpTransport.isContention rsp = false ∧
      res = HttpTransport.settle P rq rsp) ∨
    res = .error .connectionError ∨ ∃ msg, res = .error (.destinationTerminal msg) := by
  obtain ⟨contended, last, rfl, -, hend⟩ := conv_requestLoop h
  generalize hres : Prog.ret res = p at hend
  cases hend with
  | sending hn => cases hres
  | gaveUp hn => exact Or.inr (Or.inr ⟨_, Prog.ret.inj hres⟩)
  | broken hn => exact Or.inr (Or.inl (Prog.ret.inj hres))
  | settled hn hc => exact Or.inl ⟨_, by simp, hc, Prog.ret.inj hres⟩

/-- A write that returned has been answered, and not by a contention. -/
theorem talk_putDltState (hcl : IsHttp P cl) {row : Row} (h : Talk (cl.putDltState active row) l (.ok (), cl'))
    {pid : String} (hp : cl'.pid = some pid) :
    ∃ rsp, (Request.putState pid (JobClient.stateDoc row), Answer.reply rsp) ∈ l ∧
      HttpTransport.isContention rsp = false ∧ HttpTransport.putResult
        (HttpTransport.settle P (.putState pid (JobClient.stateDoc row)) rsp) = .ok () := by
  unfold JobClient.putDltState at h
  rw [ensurePidFallback_eq] at h
  -- first the identity, and then the request
  obtain ⟨l₁, l₂, ⟨res, cl₁⟩, rfl, h₁, h₂⟩ := talk_bind.1 h
  obtain ⟨hsame, hpid, -, -⟩ := talk_ensurePid h₁
  cases res with
  | error e => obtain ⟨-, he⟩ := talk_ret.1 h₂; cases he
  | ok pid₁ =>
    dsimp only at h₂
    cases hc : cl₁.pid with
    | none =>
      rw [hc] at h₂
      obtain ⟨-, he⟩ := talk_ret.1 h₂
      cases he
      rw [hp] at hc
      cases hc
    | some pid₂ =>
      rw [hc] at h₂
      obtain ⟨l₃, l₄, res', rfl, h₃, h₄⟩ := talk_bind.1 h₂
      obtain ⟨rfl, he⟩ := talk_ret.1 h₄
      cases he
      rw [hp] at hc
      cases hc
      obtain ⟨T, hT⟩ := hsame.isHttp hcl
      rw [hT] at h₃
      obtain ⟨l₅, l₆, res, rfl, h₅, h₆⟩ := talk_bind.1 h₃
      obtain ⟨rfl, he⟩ := talk_ret.1 h₆
      rcases talk_request h₅ with ⟨rsp, hmem, hcont, rfl⟩ | rfl | ⟨msg, rfl⟩
      · exact ⟨rsp, by simp [hmem], hcont, he.symm⟩
      · cases he
      · cases he

/-- A read that returned was answered: there is no state, or this is it. -/
theorem talk_getStoredState (hcl : IsHttp P cl) {name : String} {info : Option StateInfo}
    (h : Talk (cl.getStoredState name) l (.ok info, cl')) : cl'.pid = none ∧ info = none ∨ ∃ pid, cl'.pid = some pid ∧
    ∃ rsp, (Request.getState pid, Answer.reply rsp) ∈ l ∧ (rsp.status = 404 ∧ info = none ∨
      ∃ body data, rsp.json = some body ∧ body.item "data" = .ok data ∧
        JobClient.readState data = .ok info) := by
  unfold JobClient.getStoredState at h
  obtain ⟨l₁, l₂, ⟨res, cl₁⟩, rfl, h₁, h₂⟩ := talk_bind.1 h
  obtain ⟨hsame, -, -, -⟩ := talk_ensurePid h₁
  cases res with
  | error e => obtain ⟨-, he⟩ := talk_ret.1 h₂; cases he
  | ok pid₁ =>
    dsimp only at h₂
    cases hc : cl₁.pid with
    | none =>
      rw [hc] at h₂
      obtain ⟨-, he⟩ := talk_ret.1 h₂
      cases he
      exact Or.inl ⟨hc, rfl⟩
    | some pid =>
      rw [hc] at h₂
      obtain ⟨l₃, l₄, data, rfl, h₃, h₄⟩ := talk_bind.1 h₂
      obtain ⟨rfl, he⟩ := talk_ret.1 h₄
      obtain ⟨hinfo, rfl⟩ := Prod.mk.inj he
      refine Or.inr ⟨pid, hc, ?_⟩
      obtain ⟨T, hT⟩ := hsame.isHttp hcl
      rw [hT] at h₃
      obtain ⟨l₅, l₆, res', rfl, h₅, h₆⟩ := talk_bind.1 h₃
      obtain ⟨rfl, rfl⟩ := talk_ret.1 h₆
      obtain ⟨l₇, l₈, res, rfl, h₇, h₈⟩ := talk_bind.1 h₅
      obtain ⟨rfl, rfl⟩ := talk_ret.1 h₈
      -- the response is a document, or a 404 for no state; all else raises
      rcases talk_request h₇ with ⟨rsp, hmem, -, rfl⟩ | rfl | ⟨msg, rfl⟩
      · refine ⟨rsp, by simp [hmem], ?_⟩
        rcases settle_cases P (.getState pid) rsp with ⟨-, d, he⟩ | ⟨h404, he⟩ | ⟨-, -, he⟩ | ⟨-, e, he, hne⟩
        · rw [he] at hinfo; cases hinfo
        · rw [he] at hinfo
          cases hinfo
          exact Or.inl ⟨h404, rfl⟩
        · rw [he] at hinfo
          replace hinfo : ((responseJson (some rsp)).bind fun body => body.item "data").bind
            JobClient.readState = .ok info := hinfo.symm
          cases hbody : rsp.json with
          | none =>
            simp only [responseJson, hbody] at hinfo
            cases hinfo
          | some body =>
            simp only [responseJson, hbody, Except.bind] at hinfo
            cases hdata : body.item "data" with
            | error e => rw [hdata] at hinfo; cases hinfo
            | ok data =>
              rw [hdata] at hinfo
              exact Or.inr ⟨body, data, rfl, hdata, hinfo⟩
        · rw [he] at hinfo
          cases e <;> cases hinfo
      · cases hinfo
      · cases hinfo

/-- A state write was told that it is stale. -/
def ToldStale (q : Request) (a : Answer) : Prop :=
  (∃ pid doc, q = .putState pid doc) ∧
    ∃ rsp, a = .reply rsp ∧ rsp.status = 409 ∧ conflictReason rsp = .str "stale_state_version"

theorem stops_request_stale (rq : Request) : (T.request P rq).StopsOn ToldStale fun r =>
    ∃ detail, r = .error (.conflict (.str "stale_state_version") detail) :=
  (stops_request_told (by decide) rq).imp (fun _ _ h => h.2) fun _ => id

/-- **A lost race never raises.** -/
theorem stops_putDltState (hcl : IsHttp P cl) (row : Row) :
    (cl.putDltState active row).StopsOn ToldStale fun x => x.1 = .ok () := by
  unfold JobClient.putDltState
  rw [ensurePidFallback_eq]
  have hspec := spec_ensurePid (φ := fun q => ∀ pid doc, q ≠ .putState pid doc) hcl (by simp) (cl.fallbackKey active)
  refine stopsOn_bind (F := fun _ => False) (hspec.stopsOn fun q a hq ⟨⟨pid, doc, h⟩, _⟩ => hq pid doc h) hspec ?_ ?_
  · rintro ⟨r, cl'⟩ ⟨hsame, -⟩
    cases r with
    | error e => trivial
    | ok pid =>
      obtain ⟨T, hT⟩ := hsame.isHttp hcl
      dsimp only
      cases cl'.pid with
      | none => trivial
      | some pid =>
        dsimp only
        rw [hT]
        have hreq := spec_request (P := P) (T := T) (.putState pid (JobClient.stateDoc row))
        refine stopsOn_bind (F := fun r => r = .ok ()) (stopsOn_bind (stops_request_stale _) hreq
          (fun _ _ => trivial) ?_) (spec_bind (χ := fun _ => True) hreq fun _ _ => trivial) (fun _ _ => trivial) ?_
        · rintro _ ⟨detail, rfl⟩
          exact ⟨_, rfl, rfl⟩
        · rintro _ rfl
          exact ⟨_, rfl, rfl⟩
  · rintro _ h
    exact h.elim

/-- A call that writes the state. -/
theorem Call.prog_put {op : Call} {row : Row} (h : op.putRow P = some row) :
    op.prog P active cl = (cl.putDltState active row >>= fun x => ret (x.1.map fun _ => .unit, x.2)) := by
  cases op with
  | putDltState row' => cases h; rfl
  | stateJob lines =>
    simp only [putRow] at h
    cases hrow : stateRow P.customPuaRemove lines none with
    | error e => rw [hrow] at h; cases h
    | ok row' =>
      rw [hrow] at h
      cases h
      simp only [Call.prog, stateJobRun, hrow]
      rfl
  | _ => cases h

end

/-! ## Runs -/

section

variable {P : Runtime} {es : List Event} {n : ℕ} {r : CallRun}

/-- What a call has sent is what its kind of call sends. -/
theorem CallRun.Sound.asks {sys : Sys} (h : r.Sound P sys) {t : ℕ} {q : Request} (hs : r.Sent t q) :
    Asks P r.start.config r.call q := by
  rcases hs with ⟨x, hx, -, rfl⟩ | ⟨-, k, hp⟩
  · exact h.spec.1 x hx
  · have := h.spec.2
    rw [hp] at this
    exact this.1

/-- **A state write was sent by a call with a row**, which its document is made of. -/
theorem exists_putRow {t : ℕ} {th : Thread} (h : (wAt P es n).sys.threads[t]? = some th) {pid : String} {doc : Row}
    (hq : th.request = .putState pid doc) : ∃ r ∈ (wAt P es n).calls, r.Sent t (.putState pid doc) ∧
      ∃ row, r.call.putRow P = some row ∧ doc = JobClient.stateDoc row := by
  obtain ⟨r, hr, hs⟩ := (world_inv P es n).sent h
  rw [hq] at hs
  refine ⟨r, hr, hs, ?_⟩
  have hasks := ((world_inv P es n).sound r hr).asks hs
  generalize r.call = op at hasks
  cases hasks with
  | stateJob hrow pid => exact ⟨_, by simp only [Call.putRow, hrow], rfl⟩
  | put row pid => exact ⟨row, rfl, rfl⟩

/-- Every row that a call of the run writes to the state is one that dlt can write. -/
def StateRows (P : Runtime) (es : List Event) : Prop :=
  ∀ r ∈ (wAt P es es.length).calls, ∀ row, r.call.putRow P = some row → StateRow row

theorem StateRows.at (h : StateRows P es) (hr : r ∈ (wAt P es n).calls) {row : Row}
    (hrow : r.call.putRow P = some row) : StateRow row := by
  rcases Nat.le_total n es.length with hn | hn
  · obtain ⟨j, hj⟩ := List.mem_iff_getElem?.1 hr
    obtain ⟨r', hj', hle⟩ := calls_mono hn hj
    exact h r' (List.mem_of_getElem? hj') row (by rwa [hle.call])
  · rw [wAt_of_length_le hn] at hr
    exact h r hr row hrow

theorem StateRows.versioned (h : StateRows P es) : Versioned (sysTrace P es) := by
  intro pid doc ha
  obtain ⟨t, th, hth, hq⟩ := thread_of_arrives (P := P) ha
  have hlen : sysTime P es es.length = (sysTrace P es).length := by unfold sysTime; rw [List.take_length]
  rw [← hlen, ← wAt_sys] at hth
  obtain ⟨r, hr, -, row, hrow, rfl⟩ := exists_putRow hth hq
  exact JobClient.stateDoc_hasVersion (h r hr row hrow).version

/-- **A read returns what the state was** at one moment while it was under way. -/
theorem get_reads (hr : r ∈ (wAt P es n).calls) {name : String} {info : Option StateInfo}
    {cl : JobClient Request Answer} (hcall : r.call = .getStoredState name)
    (hret : r.prog = .ret (.ok (.state info), cl)) : cl.pid = none ∧ info = none ∨ ∃ (pid : String) (t m : ℕ),
      cl.pid = some pid ∧ r.Sent t (.getState pid) ∧ m < sysTime P es n ∧
      (sAt P (sysTrace P es) m).threads[t]? = some (.once (.getState pid) none) ∧
      ((sAt P (sysTrace P es) m).srv.dltState pid = none ∧ info = none ∨
        ∃ doc, (sAt P (sysTrace P es) m).srv.dltState pid = some doc ∧
          JobClient.readState doc.toJson = .ok info) := by
  have hs := (world_inv P es n).sound r hr
  have hconv := hs.conv
  rw [hret, CallRun.program, hcall] at hconv
  obtain ⟨l₁, l₂, ⟨res, cl₁⟩, hl, h₁, h₂⟩ := talk_bind.1 hconv
  obtain ⟨rfl, he⟩ := talk_ret.1 h₂
  cases res with
  | error e => cases he
  | ok info' =>
    cases he
    rcases talk_getStoredState hs.http h₁ with h | ⟨pid, hp, rsp, hmem, hrsp⟩
    · exact Or.inl h
    rw [List.append_nil] at hl
    rw [← hl] at hmem
    obtain ⟨t, th, hsent, hth, hq, ha⟩ := thread_of_reply hr hmem
    rw [wAt_sys] at hth
    -- only a request of one step reads the state
    have honce : th = .once (.getState pid) (some (.reply rsp)) := by
      cases th with
      | once rq answer => cases hq; cases ha; rfl
      | _ => cases hq
    subst honce
    -- the moment when that request was answered
    obtain ⟨m, inp, srv', hm, hth₀, hstep⟩ := exists_onceStep hth
    refine Or.inr ⟨pid, t, m, hp, hsent, hm, hth₀, ?_⟩
    generalize ha : Answer.reply rsp = a at hstep
    cases hstep with
    | state hdoc =>
      cases ha
      rcases hrsp with ⟨h404, -⟩ | ⟨body, data, hbody, hdata, hread⟩
      · cases h404
      · cases hbody
        cases hdata
        exact Or.inr ⟨_, hdoc, hread⟩
    | noState hdoc =>
      cases ha
      rcases hrsp with ⟨-, rfl⟩ | ⟨body, data, hbody, hdata, -⟩
      · exact Or.inl ⟨hdoc, rfl⟩
      · cases hbody
        cases hdata

/-- A document that was accepted is of a row that a call of the run passed in. -/
theorem accepted_row {m t : ℕ} {pid : String} {doc : Row} (h : (t, doc) ∈ accepted P (sysTrace P es) pid m)
    (hm : m ≤ sysTime P es n) : ∃ r ∈ (wAt P es n).calls, r.Sent t (.putState pid doc) ∧
      ∃ row, r.call.putRow P = some row ∧ doc = JobClient.stateDoc row := by
  obtain ⟨k, v, hk, hth⟩ := exists_write h
  obtain ⟨th, hth', hq, -⟩ := thread_mono (show k ≤ sysTime P es n by omega) hth
  rw [← wAt_sys] at hth'
  exact exists_putRow hth' hq

/-- A write that returned was compared with the state. -/
theorem put_compared (hes : Versioned (sysTrace P es)) (hr : r ∈ (wAt P es n).calls) {row : Row} {v : Val}
    {cl : JobClient Request Answer} (hrow : r.call.putRow P = some row) (hret : r.prog = .ret (.ok v, cl))
    {pid : String} (hp : cl.pid = some pid) {m : ℕ} (hnm : n ≤ m) :
    AtLeast (wAt P es m).sys.srv pid (JobClient.stateDoc row) := by
  have hs := (world_inv P es n).sound r hr
  have hconv := hs.conv
  rw [hret, CallRun.program, Call.prog_put hrow] at hconv
  obtain ⟨l₁, l₂, ⟨res, cl₁⟩, hl, h₁, h₂⟩ := talk_bind.1 hconv
  obtain ⟨rfl, he⟩ := talk_ret.1 h₂
  cases res with
  | error e => cases he
  | ok u =>
    cases he
    obtain ⟨rsp, hmem, hcont, hok⟩ := talk_putDltState hs.http h₁ hp
    rw [List.append_nil] at hl
    rw [← hl] at hmem
    obtain ⟨t, th, -, hth, hq, ha⟩ := thread_of_reply hr hmem
    rw [wAt_sys] at hth ⊢
    obtain ⟨pc, rfl⟩ := put_of_request hth hq
    cases pc with
    -- a write that was answered with a success or as stale was compared
    | done out =>
      rcases write_ends hes hth with ⟨-, h⟩ | rfl | rfl | ⟨repr, rfl⟩
      · exact h _ (sysTime_le hnm)
      · cases ha
        cases hcont
      · cases ha
        cases hok
      · cases ha
    | _ => cases ha

/-- **A write that was told it is stale returns.** -/
theorem stale_returns (hr : r ∈ (wAt P es n).calls) {row : Row} (hrow : r.call.putRow P = some row) {x : Exchange}
    (hx : x ∈ r.log) (hstale : ToldStale x.request x.answer) : ∃ cl, r.prog = .ret (.ok .unit, cl) := by
  have hs := (world_inv P es n).sound r hr
  have hconv := hs.conv
  rw [CallRun.program, Call.prog_put hrow] at hconv
  -- the method returns, and the call only turns its result into a value
  have hstops : (r.start.putDltState r.active row >>= fun x => ret (x.1.map fun _ => Val.unit, x.2)).StopsOn
      ToldStale fun x => x.1 = .ok .unit := by
    refine stopsOn_bind (stops_putDltState hs.http row) (spec_putDltState (φ := fun _ => True) hs.http row
      (fun _ _ => trivial) fun _ => trivial) (fun _ _ => trivial) ?_
    rintro ⟨_, cl⟩ rfl
    exact ⟨_, rfl, rfl⟩
  obtain ⟨⟨res, cl⟩, hret, rfl⟩ := hstops.ends hconv (List.mem_map_of_mem hx) hstale
  exact ⟨cl, hret⟩

/-- **A read returns the row that was accepted last** at that moment, if there is one. -/
theorem reads_accepted (hes : StateRows P es) {info : Option StateInfo} {pid : String} {m : ℕ} (hm : m < sysTime P es n)
    (hread : (sAt P (sysTrace P es) m).srv.dltState pid = none ∧ info = none ∨
      ∃ doc, (sAt P (sysTrace P es) m).srv.dltState pid = some doc ∧ JobClient.readState doc.toJson = .ok info) :
    match (accepted P (sysTrace P es) pid m).getLast? with
    | none => info = none
    | some (t', doc) => ∃ r' ∈ (wAt P es n).calls, r'.Sent t' (.putState pid doc) ∧
        ∃ row, r'.call.putRow P = some row ∧ doc = JobClient.stateDoc row ∧ info = some (.ofRow row) := by
  rw [dltState_eq] at hread
  cases hlast : (accepted P (sysTrace P es) pid m).getLast? with
  | none =>
    rw [hlast] at hread
    rcases hread with ⟨-, h⟩ | ⟨doc, h, -⟩
    · exact h
    · cases h
  | some w =>
    rw [hlast] at hread
    rcases hread with ⟨h, -⟩ | ⟨doc, h, hread⟩
    · cases h
    · cases h
      -- the document is read back to the row that it was made of
      obtain ⟨r', hr', hsent', row, hrow, hdoc⟩ := accepted_row (List.mem_of_getLast? hlast) hm.le
      refine ⟨r', hr', hsent', row, hrow, hdoc, ?_⟩
      rw [hdoc, JobClient.readState_stateDoc (hes.at hr' hrow)] at hread
      exact (Except.ok.inj hread).symm

end

/-- **The state is a monotone register.** Whatever the clients of a run write and read, and
however it interleaves: the accepted versions of a pid increase, and the state is the last of
them; a write that returned leaves the stored version at its own or above for good; a write that
was told it is stale returns, and none crashes the server once the pid is registered; and a read
returns the fields of the row that was accepted last, as of a moment while it was under way. -/
theorem state_register (P : Runtime) (es : List Event) (hes : StateRows P es) (pid : String) :
    (∀ n, (accepted P (sysTrace P es) pid n).Pairwise (fun w w' => docVersion w.2 < docVersion w'.2) ∧
      (sAt P (sysTrace P es) n).srv.dltState pid = (accepted P (sysTrace P es) pid n).getLast?.map Prod.snd) ∧
    (∀ n, ∀ r ∈ (wAt P es n).calls, ∀ row v cl, r.call.putRow P = some row → r.prog = .ret (.ok v, cl) →
      cl.pid = some pid → ∀ m, n ≤ m →
        ∃ doc, (wAt P es m).sys.srv.dltState pid = some doc ∧ docVersion row ≤ docVersion doc) ∧
    (∀ n, ∀ r ∈ (wAt P es n).calls, ∀ row, r.call.putRow P = some row → ∀ x ∈ r.log,
      ToldStale x.request x.answer → ∃ cl, r.prog = .ret (.ok .unit, cl)) ∧
    (∀ (n t : ℕ) (doc : Row) (out : Outcome), (sAt P (sysTrace P es) n).threads[t]? = some (.put pid doc (.done out)) →
      out.Compared ∨ out = .contention ∨ out = .terminal "paused" ∨
        ∃ m, m < n ∧ (sAt P (sysTrace P es) m).threads[t]? = some (.put pid doc .claim) ∧
          (sAt P (sysTrace P es) m).srv.pids pid = none) ∧
    (∀ n, ∀ r ∈ (wAt P es n).calls, ∀ name info cl, r.call = .getStoredState name →
      r.prog = .ret (.ok (.state info), cl) → cl.pid = some pid → ∃ t m : ℕ, r.Sent t (.getState pid) ∧
        m < sysTime P es n ∧ (sAt P (sysTrace P es) m).threads[t]? = some (.once (.getState pid) none) ∧
          match (accepted P (sysTrace P es) pid m).getLast? with
          | none => info = none
          | some (t', doc) => ∃ r' ∈ (wAt P es n).calls, r'.Sent t' (.putState pid doc) ∧
              ∃ row, r'.call.putRow P = some row ∧ doc = JobClient.stateDoc row ∧ info = some (.ofRow row)) := by
  have hver := hes.versioned
  refine ⟨fun n => ⟨accepted_sorted hver n, dltState_eq n⟩, fun n r hr row v cl hrow hret hp m hnm => ?_,
    fun n r hr row hrow x hx hstale => stale_returns hr hrow hx hstale, fun n t doc out hth => ?_,
    fun n r hr name info cl hcall hret hp => ?_⟩
  · obtain ⟨doc, hdoc, hle⟩ := put_compared hver hr hrow hret hp hnm
    rw [JobClient.stateDoc_version] at hle
    exact ⟨doc, hdoc, hle⟩
  · rcases write_ends hver hth with ⟨h, -⟩ | h | h | ⟨repr, rfl⟩
    · exact Or.inl h
    · exact Or.inr (Or.inl h)
    · exact Or.inr (Or.inr (Or.inl h))
    · exact Or.inr (Or.inr (Or.inr (write_crashed hver hth)))
  · rcases get_reads hr hcall hret with ⟨hnone, -⟩ | ⟨pid', t, m, hp', hsent, hm, hth, hread⟩
    · rw [hp] at hnone
      cases hnone
    rw [hp] at hp'
    cases hp'
    exact ⟨t, m, hsent, hm, hth, reads_accepted hes hm hread⟩

/-! ### Two writers -/

/-- The second writer comes with an older row, and then reads the state. -/
def raceRun : List Event :=
  [.newClient ⟨"shop", 50000, 4194304⟩ "shop" 20, .newClient ⟨"shop", 50000, 4194304⟩ "shop" 20,
    .call 0 (some "shop") (.putDltState (stateRowOf 2 "2.0"))] ++ exchange 0 0 1 ++ exchange 0 1 4 ++
    [.call 1 (some "shop") (.putDltState (stateRowOf 1 "1.0"))] ++ exchange 1 2 1 ++ exchange 1 3 3 ++
    [.call 1 (some "shop") (.getStoredState "shop")] ++ exchange 2 4 1

theorem stateRow_stateRowOf (version : ℤ) (loadId : String) : StateRow (stateRowOf version loadId) where
  version := ⟨version, by simp [stateRowOf, Dict.ofEntries]⟩
  fields := by simp [stateRowOf, Dict.ofEntries]
  loadId := by simp [stateRowOf, Dict.ofEntries]

theorem raceRun_calls : (wAt .plain raceRun 25).calls.map CallRun.call =
    [.putDltState (stateRowOf 2 "2.0"), .putDltState (stateRowOf 1 "1.0"), .getStoredState "shop"] := rfl

theorem stateRows_raceRun : StateRows .plain raceRun := by
  intro r hr row hrow
  have hcall : r.call ∈ (wAt .plain raceRun 25).calls.map CallRun.call := List.mem_map_of_mem hr
  rw [raceRun_calls] at hcall
  simp only [List.mem_cons, List.not_mem_nil, or_false] at hcall
  rcases hcall with h | h | h
  · rw [h] at hrow
    cases hrow
    exact stateRow_stateRowOf 2 "2.0"
  · rw [h] at hrow
    cases hrow
    exact stateRow_stateRowOf 1 "1.0"
  · rw [h] at hrow
    cases hrow

/-- The older row is let go, and what is read is of a row that was passed in. -/
theorem state_register_race :
    (∃ doc, (wAt .plain raceRun 25).sys.srv.dltState "0123456789abcdefghijklmnopq" = some doc ∧ 2 ≤ docVersion doc) ∧
    (∃ r ∈ (wAt .plain raceRun 25).calls, r.call.putRow .plain = some (stateRowOf 1 "1.0") ∧
      ∃ cl, r.prog = .ret (.ok .unit, cl)) ∧
    ∃ r ∈ (wAt .plain raceRun 25).calls, ∃ i cl, r.prog = .ret (.ok (.state (some i)), cl) ∧
      ∃ r' ∈ (wAt .plain raceRun 25).calls, ∃ row, r'.call.putRow .plain = some row ∧ i = .ofRow row := by
  obtain ⟨-, hput, hstale, -, hget⟩ := state_register .plain raceRun stateRows_raceRun "0123456789abcdefghijklmnopq"
  refine ⟨?_, ?_, ?_⟩
  · have hr : ∃ r cl, (wAt .plain raceRun 25).calls[0]? = some r ∧ r.call.putRow .plain = some (stateRowOf 2 "2.0") ∧
        r.prog = .ret (.ok .unit, cl) ∧ cl.pid = some "0123456789abcdefghijklmnopq" := ⟨_, _, rfl, rfl, rfl, rfl⟩
    obtain ⟨r, cl, hr, hrow, hret, hp⟩ := hr
    exact hput 25 r (List.mem_of_getElem? hr) _ _ cl hrow hret hp 25 le_rfl
  · have hr : ∃ r x, (wAt .plain raceRun 25).calls[1]? = some r ∧ r.call.putRow .plain = some (stateRowOf 1 "1.0") ∧
        r.log[1]? = some x ∧ ToldStale x.request x.answer :=
      ⟨_, _, rfl, rfl, rfl, ⟨_, _, rfl⟩, _, rfl, rfl, rfl⟩
    obtain ⟨r, x, hr, hrow, hx, ht⟩ := hr
    have hm := List.mem_of_getElem? hr
    exact ⟨r, hm, hrow, hstale 25 r hm _ hrow x (List.mem_of_getElem? hx) ht⟩
  · have hr : ∃ r i cl, (wAt .plain raceRun 25).calls[2]? = some r ∧ r.call = .getStoredState "shop" ∧
        r.prog = .ret (.ok (.state (some i)), cl) ∧ cl.pid = some "0123456789abcdefghijklmnopq" :=
      ⟨_, _, _, rfl, rfl, rfl, rfl⟩
    obtain ⟨r, i, cl, hr, hcall, hret, hp⟩ := hr
    have hm := List.mem_of_getElem? hr
    refine ⟨r, hm, i, cl, hret, ?_⟩
    obtain ⟨t, m, -, -, -, hlast⟩ := hget 25 r hm _ _ cl hcall hret hp
    split at hlast
    · cases hlast
    · obtain ⟨r', hr', -, row, hrow, -, hi⟩ := hlast
      exact ⟨r', hr', row, hrow, Option.some.inj hi⟩

end Matterbeam
