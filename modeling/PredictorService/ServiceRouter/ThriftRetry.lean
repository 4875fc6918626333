/-
  PredictorService.ServiceRouter.ThriftRetry — what a call of `thriftServiceCall` does
  (service_router/thrift.h), seen from outside.

  `PredictorService.ServiceRouter.Thrift` has the loop and its counters. Here the loop also
  leaves a trace: the addresses that `thriftServiceClient` chose, the calls of
  `request_process` that returned, and the callback that `SCOPE_EXIT` runs.
  - `runTrace_eq`: with its trace the loop is the same loop.
  - `retry_is_exact`: without an exception of the `std::exception` arm, the call ends; it
    returns true iff a success comes before the budget of one class is used up;
    `request_process` has then completed once, and otherwise never; and the callback runs
    once, with the address that was chosen last.
-/

import PredictorService.ServiceRouter.Thrift

namespace PredictorService.ServiceRouter.Thrift

inductive Effect where
  /-- `thriftServiceClient` found a server of this address. -/
  | client (address : ServerAddress)
  /-- `request_process` returns. -/
  | processed
  | callback (address : ServerAddress)
  deriving DecidableEq, Repr

/-- What an attempt does. -/
def attemptEffects : Outcome → List Effect
  | .noClient => []
  | .success a => [.client a, .processed]
  | .transportException a _ => [.client a]
  | .applicationException a _ => [.client a]
  | .stdException a => [.client a]
  | .unknownException a => [.client a]

variable (option : ThriftRetryOption)

/-- `runLoop` with the effects in their order. -/
def runTrace : Nat → (Nat → Outcome) → CallState → Option (Bool × List Effect)
  | fuel, outcomes, s =>
    if continues option s then
      match fuel with
      | 0 => none
      | fuel + 1 =>
        let r := attempt option s (outcomes 0)
        if r.1 then some (true, attemptEffects (outcomes 0) ++ [.callback r.2.address])
        else (runTrace fuel (fun i => outcomes (i + 1)) r.2).map fun t => (t.1, attemptEffects (outcomes 0) ++ t.2)
    else some (false, [.callback s.address])

/-- `thriftServiceCall` cut off after `attempts` attempts: its result and its effects. -/
def callTrace (outcomes : Nat → Outcome) (attempts : Nat) : Option (Bool × List Effect) :=
  runTrace option attempts outcomes {}

/-- The address chosen last, or the one there was. -/
def lastClient (address : ServerAddress) : List Effect → ServerAddress
  | [] => address
  | .client a :: effects => lastClient a effects
  | _ :: effects => lastClient address effects

theorem lastClient_append (address : ServerAddress) (es fs : List Effect) :
    lastClient address (es ++ fs) = lastClient (lastClient address es) fs := by
  induction es generalizing address with
  | nil => rfl
  | cons e es ih => cases e <;> exact ih _

/-! ## One attempt -/

@[simp] theorem markFinal_address (s : CallState) : (markFinal option s).address = s.address := by
  unfold markFinal; split <;> rfl

theorem attempt_address (s : CallState) (o : Outcome) :
    (attempt option s o).2.address = lastClient s.address (attemptEffects o) := by
  cases o with
  | noClient => rfl
  | success a => rfl
  | transportException a t => cases t <;> simp [attempt, attemptEffects, lastClient, CallState.mark, found]
  | applicationException a t => cases t <;> simp [attempt, attemptEffects, lastClient, CallState.mark, found]
  | stdException a => rfl
  | unknownException a =>
    simp only [attempt, attemptEffects, lastClient]
    split <;> rfl

theorem count_processed_attemptEffects (o : Outcome) :
    (attemptEffects o).count .processed = (isSuccess o).toNat := by
  cases o <;> rfl

theorem callback_not_mem_attemptEffects (o : Outcome) (a : ServerAddress) : Effect.callback a ∉ attemptEffects o := by
  cases o <;> simp [attemptEffects]

/-! ## The loop -/

/-- The trace is that of the loop. -/
theorem runTrace_eq (fuel : Nat) (outcomes : Nat → Outcome) (s : CallState) :
    (runTrace option fuel outcomes s).map Prod.fst = (runLoop option fuel outcomes s).map Prod.fst := by
  induction fuel generalizing outcomes s with
  | zero =>
    rw [runTrace, runLoop]
    split <;> rfl
  | succ fuel ih =>
    rw [runTrace, runLoop]
    split
    · dsimp only
      split
      · rename_i hr
        simp [hr]
      · rw [← ih, Option.map_map]
        rfl
    · rfl

/-- The effects of a call that has ended: the attempts' own, of which only the last can be
    a success, and one callback. -/
theorem runTrace_effects {fuel : Nat} {outcomes : Nat → Outcome} {s : CallState} {b : Bool} {effects : List Effect}
    (h : runTrace option fuel outcomes s = some (b, effects)) :
    ∃ trace, effects = trace ++ [.callback (lastClient s.address trace)] ∧ (∀ a, Effect.callback a ∉ trace) ∧
      trace.count .processed = b.toNat := by
  induction fuel generalizing outcomes s b effects with
  | zero =>
    rw [runTrace] at h
    split at h
    · cases h
    · cases h
      exact ⟨[], rfl, by simp, rfl⟩
  | succ fuel ih =>
    rw [runTrace] at h
    split at h
    · obtain ⟨hresult, -, -⟩ := attempt_spec option s (outcomes 0)
      dsimp only at h
      rw [hresult, attempt_address] at h
      split at h
      · rename_i hsuccess
        cases h
        refine ⟨attemptEffects (outcomes 0), rfl, callback_not_mem_attemptEffects _, ?_⟩
        rw [count_processed_attemptEffects, hsuccess]
      · rename_i hsuccess
        obtain ⟨⟨b', effects'⟩, hrest, heq⟩ := Option.map_eq_some_iff.mp h
        cases heq
        obtain ⟨trace, rfl, hcallback, hprocessed⟩ := ih hrest
        refine ⟨attemptEffects (outcomes 0) ++ trace, ?_, ?_, ?_⟩
        · rw [attempt_address, lastClient_append, List.append_assoc]
        · intro a ha
          rcases List.mem_append.mp ha with ha | ha
          · exact callback_not_mem_attemptEffects _ a ha
          · exact hcallback a ha
        · rw [List.count_append, count_processed_attemptEffects, hprocessed]
          simp [hsuccess]
    · cases h
      exact ⟨[], rfl, by simp, rfl⟩

/-- Both guards still hold when the `i`-th outcome comes. -/
def InBudget (outcomes : Nat → Outcome) (s : CallState) (i : Nat) : Prop :=
  s.connectionRetry + Nat.count (fun i => isConnectionFailure (outcomes i) = true) i < option.connectionRetry ∧
    s.timeoutRetry + Nat.count (fun i => isTimeoutFailure (outcomes i) = true) i < option.timeoutRetry

theorem inBudget_zero (outcomes : Nat → Outcome) (s : CallState) :
    InBudget option outcomes s 0 ↔ continues option s = true := by
  simp [InBudget, continues]

theorem inBudget_succ (outcomes : Nat → Outcome) (s : CallState) (i : Nat) :
    InBudget option outcomes s (i + 1) ↔
      InBudget option (fun i => outcomes (i + 1)) (attempt option s (outcomes 0)).2 i := by
  obtain ⟨-, hconn, htime⟩ := attempt_spec option s (outcomes 0)
  rw [InBudget, InBudget, count_outcomes_succ isConnectionFailure, count_outcomes_succ isTimeoutFailure, hconn, htime]
  rw [Int.add_assoc, Int.add_assoc, Int.natCast_add, Int.natCast_add]

theorem continues_of_inBudget {outcomes : Nat → Outcome} {s : CallState} {i : Nat} (h : InBudget option outcomes s i) :
    continues option s = true := by
  rw [InBudget] at h
  simp only [continues, Bool.and_eq_true, decide_eq_true_eq]
  omega

/-- The loop returns true iff a success is reached while both guards hold. -/
theorem runTrace_result {fuel : Nat} {outcomes : Nat → Outcome} {s : CallState} {b : Bool} {effects : List Effect}
    (h : runTrace option fuel outcomes s = some (b, effects)) :
    b = true ↔ ∃ i, isSuccess (outcomes i) = true ∧ InBudget option outcomes s i := by
  induction fuel generalizing outcomes s b effects with
  | zero =>
    rw [runTrace] at h
    split at h
    · cases h
    · rename_i hg
      cases h
      simpa using fun i _ hi => hg (continues_of_inBudget option hi)
  | succ fuel ih =>
    rw [runTrace] at h
    split at h
    · rename_i hg
      dsimp only at h
      rw [(attempt_spec option s (outcomes 0)).1] at h
      split at h
      · rename_i hsuccess
        cases h
        exact ⟨fun _ => ⟨0, hsuccess, (inBudget_zero option outcomes s).mpr hg⟩, fun _ => rfl⟩
      · rename_i hsuccess
        obtain ⟨⟨b', effects'⟩, hrest, heq⟩ := Option.map_eq_some_iff.mp h
        cases heq
        refine (ih hrest).trans ?_
        -- the success is not the first outcome
        constructor
        · rintro ⟨i, hi, hbudget⟩
          exact ⟨i + 1, hi, (inBudget_succ option outcomes s i).mpr hbudget⟩
        · rintro ⟨i, hi, hbudget⟩
          cases i with
          | zero => exact absurd hi hsuccess
          | succ i => exact ⟨i, hi, (inBudget_succ option outcomes s i).mp hbudget⟩
    · rename_i hg
      cases h
      simpa using fun i _ hi => hg (continues_of_inBudget option hi)

/-- A call without an exception of the `std::exception` arm. -/
theorem retry_is_exact (outcomes : Nat → Outcome) (hC : 0 ≤ option.connectionRetry) (hT : 0 ≤ option.timeoutRetry)
    (hstd : ∀ i a, outcomes i ≠ .stdException a) :
    ∃ b trace, callTrace option outcomes (option.connectionRetry + option.timeoutRetry + 1).toNat =
        some (b, trace ++ [.callback (lastClient {} trace)]) ∧
      (b = true ↔ ∃ i, isSuccess (outcomes i) = true ∧
        Nat.count (fun i => isConnectionFailure (outcomes i) = true) i ≤ option.connectionRetry ∧
        Nat.count (fun i => isTimeoutFailure (outcomes i) = true) i ≤ option.timeoutRetry) ∧
      trace.count .processed = b.toNat ∧ ∀ a, Effect.callback a ∉ trace := by
  have hends := ends_of_no_stdException option outcomes hC hT fun i _ => hstd i
  rw [EndsWithin, thriftServiceCall, ← Option.isSome_map (f := Prod.fst), ← runTrace_eq, Option.isSome_map] at hends
  obtain ⟨⟨b, effects⟩, hcall⟩ := Option.isSome_iff_exists.mp hends
  obtain ⟨trace, rfl, hcallback, hprocessed⟩ := runTrace_effects option hcall
  refine ⟨b, trace, hcall, ?_, hprocessed, hcallback⟩
  rw [runTrace_result option hcall]
  refine exists_congr fun i => and_congr_right fun _ => and_congr ?_ ?_
  · show -1 + _ < _ ↔ _
    omega
  · show -1 + _ < _ ↔ _
    omega

/-- No server at first, then one that answers. -/
def answeredAtLast : Nat → Outcome
  | 0 => .noClient
  | _ => .success ⟨"10.0.0.1", 9000⟩

theorem answeredAtLast_is_processed :
    ∃ trace, callTrace ⟨1, 0⟩ answeredAtLast 2 = some (true, trace ++ [.callback (lastClient {} trace)]) ∧
      trace.count .processed = 1 := by
  obtain ⟨b, trace, hcall, hresult, hprocessed, -⟩ := retry_is_exact ⟨1, 0⟩ answeredAtLast (by decide) (by decide)
    fun i a => by cases i <;> exact nofun
  have hb : b = true := hresult.mpr ⟨1, rfl, by decide, by decide⟩
  subst hb
  exact ⟨trace, hcall, hprocessed⟩

end PredictorService.ServiceRouter.Thrift
