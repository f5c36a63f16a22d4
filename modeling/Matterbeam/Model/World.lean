import Matterbeam.Model.Client
import Matterbeam.Model.System

/-!
# Clients and the server, together

Any number of clients over the HTTP transport, each with one call at a time under way,
and the server with its requests in flight. A call is the program of `Call.prog`: its
next request is put on the wire (`send`), and its answer is taken off it once the
server has one (`recv`). A connection may break at any time (`lose`), which the program
sees as a broken answer while the server's thread goes on; and a call may be given up
at any time (`abandon`), as when the process is killed, and its client with it.
-/

namespace Matterbeam

open Prog

/-- A request of a call, what it was answered, and the server's thread that it became. -/
structure Exchange where
  request : Request
  answer : Answer
  thread : Option ℕ

/-- A call: what was called on which client, as it was then, the exchanges so far, and the
rest of the program. `wait` is the thread that is to answer the next request. -/
structure CallRun where
  client : ℕ
  call : Call
  active : Option String
  start : JobClient Request Answer
  log : List Exchange := []
  prog : Prog Request Answer (Except PyError Val × JobClient Request Answer)
  wait : Option ℕ := none
  abandoned : Bool := false

namespace CallRun

/-- What the call has returned or raised, once it has. -/
def result (r : CallRun) : Option (Except PyError Val) :=
  match r.prog with
  | .ret (v, _) => some v
  | .call _ _ => none

/-- The call is under way. -/
def live (r : CallRun) : Bool := !r.abandoned && r.result.isNone

end CallRun

/-- The server, the clients, and all the calls there have been, in order. -/
structure World where
  sys : Sys := {}
  clients : List (JobClient Request Answer) := []
  calls : List CallRun := []

/-- What can happen. -/
inductive Event
  /-- A client is opened. -/
  | newClient (config : Config) (schemaName : String) (max409Retries : ℕ)
  /-- A call begins on a client that has none under way. -/
  | call (c : ℕ) (active : Option String) (op : Call)
  /-- A call puts its next request on the wire. -/
  | send (j : ℕ) (crash : Option CrashPoint)
  /-- A call is answered. -/
  | recv (j : ℕ)
  /-- A call loses its connection. -/
  | lose (j : ℕ)
  /-- A call is given up. -/
  | abandon (j : ℕ)
  /-- A thread of the server makes its next step. -/
  | tick (t : ℕ) (inp : Inputs)
  /-- A pid is paused. -/
  | pause (pid : String)

namespace World

variable (P : Runtime)

/-- A call goes on with an answer; when that was its last, its client is as it left it. -/
def proceed (w : World) (j : ℕ) (r : CallRun) (x : Exchange)
    (prog : Prog Request Answer (Except PyError Val × JobClient Request Answer)) : World where
  sys := w.sys
  clients := match prog with
    | .ret (_, cl) => w.clients.set r.client cl
    | .call _ _ => w.clients
  calls := w.calls.set j { r with log := r.log ++ [x], prog := prog, wait := none }

/-- The world after an event; an event that cannot happen changes nothing. -/
def step (w : World) : Event → World
  | .newClient config schemaName max409Retries =>
    { w with clients := w.clients ++
        [{ transport := HttpTransport.transport P ⟨max409Retries⟩, config := config, schemaName := schemaName }] }
  | .call c active op =>
    match w.clients[c]? with
    | some cl =>
      if w.calls.any fun r => r.client = c && r.result.isNone then w
      else
        { w with
          clients := match op.prog P active cl with
            | .ret (_, cl) => w.clients.set c cl
            | .call _ _ => w.clients
          calls := w.calls ++
            [{ client := c, call := op, active := active, start := cl, prog := op.prog P active cl }] }
    | none => w
  | .send j crash =>
    match w.calls[j]? with
    | some r =>
      match r.prog, r.live, r.wait with
      | .call q _, true, none =>
        { w with
          sys := Sys.step P w.sys (.spawn q crash)
          calls := w.calls.set j { r with wait := some w.sys.threads.length } }
      | _, _, _ => w
    | none => w
  | .recv j =>
    match w.calls[j]? with
    | some r =>
      match r.prog, r.live, r.wait with
      | .call q k, true, some t =>
        match (w.sys.threads[t]?).bind (Thread.answer P) with
        | some a => w.proceed j r ⟨q, a, some t⟩ (k a)
        | none => w
      | _, _, _ => w
    | none => w
  | .lose j =>
    match w.calls[j]? with
    | some r =>
      match r.prog, r.live with
      | .call q k, true => w.proceed j r ⟨q, .broken, r.wait⟩ (k .broken)
      | _, _ => w
    | none => w
  | .abandon j =>
    match w.calls[j]? with
    | some r => { w with calls := w.calls.set j { r with abandoned := true } }
    | none => w
  | .tick t inp => { w with sys := Sys.step P w.sys (.tick t inp) }
  | .pause pid => { w with sys := Sys.step P w.sys (.pause pid) }

/-- The world after a list of events. -/
def run (es : List Event) (w : World) : World := es.foldl (step P) w

end World

/-- The world after the first `n` events, from an empty server without clients. -/
def wAt (P : Runtime) (es : List Event) (n : ℕ) : World := World.run P (es.take n) {}

end Matterbeam
