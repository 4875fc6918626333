/-
  PredictorService.ServiceRouter.Thrift — the retry loop of `thriftServiceCall`
  (service_router/thrift.h).

  One attempt asks for a client and runs `request_process` on it; what can come of it is
  an `Outcome`, and an outcome that found a client carries the address it chose. The loop
  reads the outcomes one after another (`outcomes : Nat → Outcome`, the n-th attempt's).
  Two counters start at -1 and guard the loop; every arm but one moves one of them. The
  arm of `std::exception` moves none, and there the loop need not end
  (`stdException_forever`).

  Proved:
  - `attempt_spec`: an attempt returns exactly on a success, and each counter moves exactly
    on the failures of its class.
  - `ends_iff`: the loop ends within `C + T + 1` attempts exactly when these already hold
    a success, more than `C` connection-class failures or more than `T` timeout-class
    ones.
-/

import PredictorService.ServiceRouter.Entity
import Mathlib.Data.Nat.Count

namespace PredictorService.ServiceRouter.Thrift

/-- The meters an attempt marks (`THRIFT_SERVICE_CALL_METRIC_*`, those of
    `thriftServiceClient` included). -/
inductive Metric where
  | getClientSuccess
  | getClientError
  | exTransportError
  | exTransportTimeout
  | exAppTimeout
  | exAppError
  | exUnknownError
  | exStd
  | exFinalError
  | callSucc
  deriving DecidableEq, Repr

/-- What one attempt comes to. Without a client the address stays as it was. -/
inductive Outcome where
  | noClient
  | success (address : ServerAddress)
  | transportException (address : ServerAddress) (timedOut : Bool)
  | applicationException (address : ServerAddress) (timeout : Bool)
  /-- Any other `std::exception`, e.g. the `PredictException` that the SDK's lambdas
      rethrow. -/
  | stdException (address : ServerAddress)
  /-- `catch (...)`. -/
  | unknownException (address : ServerAddress)
  deriving DecidableEq, Repr

structure CallState where
  connectionRetry : Int := -1
  timeoutRetry : Int := -1
  address : ServerAddress := {}
  marks : List Metric := []
  deriving DecidableEq, Repr

def CallState.mark (s : CallState) (m : Metric) : CallState := { s with marks := s.marks ++ [m] }

variable (option : ThriftRetryOption)

/-- The loop's guard. -/
def continues (s : CallState) : Bool :=
  s.connectionRetry < option.connectionRetry && s.timeoutRetry < option.timeoutRetry

/-- The final-error meter of the two thrift arms. -/
def markFinal (s : CallState) : CallState :=
  if s.timeoutRetry = option.timeoutRetry ∨ s.connectionRetry = option.connectionRetry then s.mark .exFinalError else s

/-- `thriftServiceClient` found a server and made a client for it. -/
def found (s : CallState) (address : ServerAddress) : CallState := { s with address := address }.mark .getClientSuccess

/-- One pass of the loop body: `true` is its `return true`. -/
def attempt (s : CallState) : Outcome → Bool × CallState
  | .noClient => (false, { s.mark .getClientError with connectionRetry := s.connectionRetry + 1 })
  | .success a => (true, (found s a).mark .callSucc)
  | .transportException a true =>
    (false, markFinal option { (found s a).mark .exTransportTimeout with timeoutRetry := s.timeoutRetry + 1 })
  | .transportException a false =>
    (false, markFinal option { (found s a).mark .exTransportError with connectionRetry := s.connectionRetry + 1 })
  | .applicationException a true =>
    (false, markFinal option { (found s a).mark .exAppTimeout with timeoutRetry := s.timeoutRetry + 1 })
  | .applicationException a false =>
    (false, markFinal option { (found s a).mark .exAppError with connectionRetry := s.connectionRetry + 1 })
  -- the arm that moves neither counter
  | .stdException a => (false, (found s a).mark .exStd)
  | .unknownException a =>
    let s := { (found s a).mark .exUnknownError with connectionRetry := s.connectionRetry + 1 }
    (false, if s.connectionRetry = option.connectionRetry then s.mark .exFinalError else s)

/-- The loop over the outcomes to come, with at most `fuel` attempts: the call's result
    and the state it leaves, or `none` when it has not ended by then. -/
def runLoop : Nat → (Nat → Outcome) → CallState → Option (Bool × CallState)
  | fuel, outcomes, s =>
    if continues option s then
      match fuel with
      | 0 => none
      | fuel + 1 =>
        let r := attempt option s (outcomes 0)
        if r.1 then some r else runLoop fuel (fun i => outcomes (i + 1)) r.2
    else some (false, s)

/-- `thriftServiceCall` cut off after `attempts` attempts: its result, and the state whose
    address `SCOPE_EXIT` hands to the callback. -/
def thriftServiceCall (outcomes : Nat → Outcome) (attempts : Nat) : Option (Bool × CallState) :=
  runLoop option attempts outcomes {}

/-- The call ends after at most `n` attempts. -/
def EndsWithin (outcomes : Nat → Outcome) (n : Nat) : Prop := (thriftServiceCall option outcomes n).isSome

instance (outcomes : Nat → Outcome) (n : Nat) : Decidable (EndsWithin option outcomes n) :=
  inferInstanceAs (Decidable (_ = true))

/-! ## The classes of failures -/

def isSuccess : Outcome → Bool
  | .success _ => true
  | _ => false

/-- No client, a non-timeout transport or application exception, an unknown exception. -/
def isConnectionFailure : Outcome → Bool
  | .noClient | .transportException _ false | .applicationException _ false | .unknownException _ => true
  | _ => false

def isTimeoutFailure : Outcome → Bool
  | .transportException _ true | .applicationException _ true => true
  | _ => false

/-! ## What one attempt does -/

@[simp] theorem mark_connectionRetry (s : CallState) (m : Metric) : (s.mark m).connectionRetry = s.connectionRetry := rfl
@[simp] theorem mark_timeoutRetry (s : CallState) (m : Metric) : (s.mark m).timeoutRetry = s.timeoutRetry := rfl
@[simp] theorem found_connectionRetry (s : CallState) (a : ServerAddress) :
    (found s a).connectionRetry = s.connectionRetry := rfl
@[simp] theorem found_timeoutRetry (s : CallState) (a : ServerAddress) : (found s a).timeoutRetry = s.timeoutRetry := rfl

@[simp] theorem markFinal_connectionRetry (s : CallState) : (markFinal option s).connectionRetry = s.connectionRetry := by
  unfold markFinal; split <;> rfl

@[simp] theorem markFinal_timeoutRetry (s : CallState) : (markFinal option s).timeoutRetry = s.timeoutRetry := by
  unfold markFinal; split <;> rfl

/-- An attempt returns exactly on a success, and each counter moves exactly on the
    failures of its class. -/
theorem attempt_spec (s : CallState) (o : Outcome) :
    (attempt option s o).1 = isSuccess o ∧
    (attempt option s o).2.connectionRetry = s.connectionRetry + (isConnectionFailure o).toNat ∧
    (attempt option s o).2.timeoutRetry = s.timeoutRetry + (isTimeoutFailure o).toNat := by
  cases o with
  | noClient => simp [attempt, isSuccess, isConnectionFailure, isTimeoutFailure]
  | success a => simp [attempt, isSuccess, isConnectionFailure, isTimeoutFailure]
  | transportException a t => cases t <;> simp [attempt, isSuccess, isConnectionFailure, isTimeoutFailure]
  | applicationException a t => cases t <;> simp [attempt, isSuccess, isConnectionFailure, isTimeoutFailure]
  | stdException a => simp [attempt, isSuccess, isConnectionFailure, isTimeoutFailure]
  | unknownException a =>
    simp only [attempt, isSuccess, isConnectionFailure, isTimeoutFailure]
    split <;> simp

/-! ## When the loop ends -/

/-- The outcomes of a class, counted from the first one on. -/
theorem count_outcomes_succ (p : Outcome → Bool) (outcomes : Nat → Outcome) (n : Nat) :
    Nat.count (fun i => p (outcomes i) = true) (n + 1) =
      (p (outcomes 0)).toNat + Nat.count (fun i => p (outcomes (i + 1)) = true) n := by
  rw [Nat.count_succ', Nat.add_comm]
  cases p (outcomes 0) <;> rfl

/-- The loop ends within `fuel` attempts exactly when these hold a success or push one of
    the counters to its limit. -/
theorem runLoop_isSome (fuel : Nat) (outcomes : Nat → Outcome) (s : CallState) :
    (runLoop option fuel outcomes s).isSome ↔
      (∃ i < fuel, isSuccess (outcomes i) = true) ∨
      option.connectionRetry ≤ s.connectionRetry + Nat.count (fun i => isConnectionFailure (outcomes i) = true) fuel ∨
      option.timeoutRetry ≤ s.timeoutRetry + Nat.count (fun i => isTimeoutFailure (outcomes i) = true) fuel := by
  induction fuel generalizing outcomes s with
  | zero =>
    rw [runLoop]
    split <;> rename_i h <;> simp [continues] at h ⊢ <;> omega
  | succ fuel ih =>
    obtain ⟨h1, h2, h3⟩ := attempt_spec option s (outcomes 0)
    rw [runLoop, count_outcomes_succ isConnectionFailure, count_outcomes_succ isTimeoutFailure]
    split
    · -- the guard holds: one more attempt
      rename_i hg
      simp only [continues, Bool.and_eq_true, decide_eq_true_eq] at hg
      by_cases hs : isSuccess (outcomes 0) = true
      · simp only [h1, hs, if_true, Option.isSome_some, true_iff]
        exact Or.inl ⟨0, by omega, hs⟩
      · simp only [h1, hs, if_false, Bool.false_eq_true, ih, h2, h3]
        have hex : (∃ i < fuel + 1, isSuccess (outcomes i) = true) ↔ ∃ i < fuel, isSuccess (outcomes (i + 1)) = true := by
          constructor
          · intro h
            obtain ⟨i, hi, hsi⟩ := h
            cases i with
            | zero => exact absurd hsi hs
            | succ i => exact ⟨i, by omega, hsi⟩
          · intro h
            obtain ⟨i, hi, hsi⟩ := h
            exact ⟨i + 1, by omega, hsi⟩
        rw [hex]
        rw [Int.add_assoc, Int.add_assoc, Int.natCast_add, Int.natCast_add]
    · rename_i hg
      simp only [continues, Bool.and_eq_true, decide_eq_true_eq] at hg
      simp only [Option.isSome_some, true_iff]
      by_cases hc : s.connectionRetry < option.connectionRetry
      · have ht : option.timeoutRetry ≤ s.timeoutRetry := by
          by_contra hn
          exact hg ⟨hc, by omega⟩
        exact Or.inr (Or.inr (by omega))
      · exact Or.inr (Or.inl (by omega))

/-- The call ends after at most `C + T + 1` attempts exactly when the first `C + T + 1`
    outcomes hold a success, more than `C` connection-class failures or more than `T`
    timeout-class failures. An exception of the `std::exception` arm counts for none of
    these. -/
theorem ends_iff (outcomes : Nat → Outcome) :
    EndsWithin option outcomes (option.connectionRetry + option.timeoutRetry + 1).toNat ↔
      (∃ i < (option.connectionRetry + option.timeoutRetry + 1).toNat, isSuccess (outcomes i) = true) ∨
      option.connectionRetry < Nat.count (fun i => isConnectionFailure (outcomes i) = true)
        (option.connectionRetry + option.timeoutRetry + 1).toNat ∨
      option.timeoutRetry < Nat.count (fun i => isTimeoutFailure (outcomes i) = true)
        (option.connectionRetry + option.timeoutRetry + 1).toNat := by
  rw [EndsWithin, thriftServiceCall, runLoop_isSome]
  refine or_congr Iff.rfl (or_congr ?_ ?_)
  · show option.connectionRetry ≤ -1 + _ ↔ _
    omega
  · show option.timeoutRetry ≤ -1 + _ ↔ _
    omega

/-- With the default flags (one connection retry, no timeout retry), a server that answers
    every call with an exception of its own is asked again and again. -/
theorem stdException_does_not_end :
    ¬ EndsWithin ⟨1, 0⟩ (fun _ => .stdException ⟨"10.0.0.1", 9000⟩) (1 + 0 + 1) := by decide

/-- A server that answers every call with an exception of its own: the loop has not ended
    after any number of attempts. -/
theorem stdException_forever (a : ServerAddress) (hC : 0 ≤ option.connectionRetry) (hT : 0 ≤ option.timeoutRetry)
    (n : Nat) : ¬ EndsWithin option (fun _ => .stdException a) n := by
  have hs : isSuccess (.stdException a) = false := rfl
  rw [EndsWithin, thriftServiceCall, runLoop_isSome]
  intro h
  rcases h with ⟨i, -, hi⟩ | h | h
  · rw [hs] at hi
    cases hi
  · simp [isConnectionFailure] at h
    omega
  · simp [isTimeoutFailure] at h
    omega


/-- Of outcomes that are neither a success nor in the `std::exception` arm, each is in one
    of the two classes. -/
theorem count_classes (outcomes : Nat → Outcome) (n : Nat)
    (h : ∀ i < n, isSuccess (outcomes i) = false ∧ ∀ a, outcomes i ≠ .stdException a) :
    Nat.count (fun i => isConnectionFailure (outcomes i) = true) n +
      Nat.count (fun i => isTimeoutFailure (outcomes i) = true) n = n := by
  induction n with
  | zero => simp
  | succ n ih =>
    have hn := ih (fun i hi => h i (by omega))
    have hone : (isConnectionFailure (outcomes n)).toNat + (isTimeoutFailure (outcomes n)).toNat = 1 := by
      obtain ⟨h1, h2⟩ := h n (by omega)
      cases ho : outcomes n with
      | noClient => rfl
      | success a => simp [ho, isSuccess] at h1
      | transportException a t => cases t <;> rfl
      | applicationException a t => cases t <;> rfl
      | stdException a => exact absurd ho (h2 a)
      | unknownException a => rfl
    rw [Nat.count_succ, Nat.count_succ]
    cases hc : isConnectionFailure (outcomes n) <;> cases ht : isTimeoutFailure (outcomes n) <;>
      simp [hc, ht] at hone ⊢ <;> omega

/-- Without an exception of that arm among them, the first `C + T + 1` outcomes end the
    call. -/
theorem ends_of_no_stdException (outcomes : Nat → Outcome) (hC : 0 ≤ option.connectionRetry)
    (hT : 0 ≤ option.timeoutRetry)
    (h : ∀ i < (option.connectionRetry + option.timeoutRetry + 1).toNat, ∀ a, outcomes i ≠ .stdException a) :
    EndsWithin option outcomes (option.connectionRetry + option.timeoutRetry + 1).toNat := by
  rw [EndsWithin, thriftServiceCall, runLoop_isSome]
  by_cases hs : ∃ i < (option.connectionRetry + option.timeoutRetry + 1).toNat, isSuccess (outcomes i) = true
  · exact Or.inl hs
  · right
    have hcount := count_classes outcomes _ (fun i hi =>
      ⟨by simpa using fun hsi => hs ⟨i, hi, hsi⟩, h i hi⟩)
    show option.connectionRetry ≤ -1 + _ ∨ option.timeoutRetry ≤ -1 + _
    omega

end PredictorService.ServiceRouter.Thrift
