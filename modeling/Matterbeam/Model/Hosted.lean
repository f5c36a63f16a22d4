import Matterbeam.Model.Deploy
import Matterbeam.Model.System

/-!
# Deploys among running pipelines

The server with the requests of pipelines in flight, while deploys are answered in between. What a
deploy asks for is done in one step.
-/

namespace Matterbeam

/-- The server, and all the requests it was ever sent by pipelines, in order of arrival. -/
structure DeploySys where
  srv : DeployServer := {}
  threads : List Thread := []

/-- What can happen to it: something of the pipelines, or a request of a deploy. -/
inductive DeployEvent
  | pipeline (e : SysEvent)
  | deploy (rq : DeployRequest) (draws : Draws)

namespace DeploySys

/-- What the pipelines see of it. -/
def sys (s : DeploySys) : Sys := ⟨s.srv.base, s.threads⟩

/-- The system after an event. -/
def step (P : Runtime) (s : DeploySys) : DeployEvent → DeploySys
  | .pipeline e => ⟨{ s.srv with base := (s.sys.step P e).srv }, (s.sys.step P e).threads⟩
  | .deploy rq draws => { s with srv := (DeployServer.handle draws s.srv rq).1 }

end DeploySys

/-- The system after a list of events, from an empty server. -/
def DeploySys.after (P : Runtime) (es : List DeployEvent) : DeploySys := es.foldl (DeploySys.step P) {}

end Matterbeam
