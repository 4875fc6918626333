/-
  PredictorService.Sdk.ServiceCall — what a call of `thriftServiceCall` leaves behind
  (service_router/thrift.h), for a `request_process` that writes one value.

  The lambdas of the SDK make one RPC on the client they are given. A synchronous one waits
  for the response and keeps it; an asynchronous one keeps the future it is handed. In both
  cases the value is written by the attempt that returns, so an attempt carries it
  (`Attempt A`), and a call yields it (`Called`), with the servers that it sent to. The loop
  itself is that of `PredictorService.ServiceRouter.Thrift`. Its `try` begins behind
  `thriftServiceClient`, so what that throws ends the call.

  - `callLoop_iff`: the loop ends at the first attempt that leaves a value or throws, or
    where the budget of either class is spent.
  - `call_returned_iff`, `call_threw_iff`, `call_spent_iff`: which of the three it is.
  - `call_of_found`, `call_of_threw`, `call_of_noClient`: an asynchronous call ends, at the
    first attempt that finds a server or throws, and has sent to that server only.
-/

import PredictorService.ServiceRouter.ThriftRetry

namespace PredictorService.Sdk

open PredictorService.ServiceRouter
open PredictorService.ServiceRouter.Thrift

variable {A B : Type}

/-- What the lambda's RPC comes to. -/
inductive Rpc (A : Type) where
  | returned (value : A)
  | transportException (timedOut : Bool)
  | applicationException (timeout : Bool)
  /-- An exception of the interface, which the lambda logs and throws again, or any other
      `std::exception`. -/
  | stdException (message : String)
  | unknownException
  deriving DecidableEq, Repr

/-- What `thriftServiceClient` comes to. -/
inductive Client where
  | none
  | found (address : ServerAddress)
  /-- Among others where the local address of a client option is none. -/
  | threw (message : String)
  deriving DecidableEq, Repr

/-- One pass of the loop: the client, and the RPC on it. -/
structure Attempt (A : Type) where
  client : Client
  rpc : Rpc A
  deriving DecidableEq, Repr

namespace Attempt

/-- What the loop counts; an attempt that throws is not counted any more. -/
def outcome (a : Attempt A) : Outcome :=
  match a.client with
  | .none => .noClient
  | .threw _ => .noClient
  | .found address =>
    match a.rpc with
    | .returned _ => .success address
    | .transportException timedOut => .transportException address timedOut
    | .applicationException timeout => .applicationException address timeout
    | .stdException _ => .stdException address
    | .unknownException => .unknownException address

/-- What the lambda has written when it returns. -/
def left (a : Attempt A) : Option A :=
  match a.client, a.rpc with
  | .found _, .returned value => some value
  | _, _ => none

/-- The exception that leaves the loop. -/
def threw (a : Attempt A) : Option String :=
  match a.client with
  | .threw message => some message
  | _ => none

/-- The server that the RPC is sent to. -/
def sent (a : Attempt A) : List ServerAddress :=
  match a.client with
  | .found address => [address]
  | _ => []

theorem isSome_left (a : Attempt A) : a.left.isSome = isSuccess a.outcome := by
  obtain ⟨client, rpc⟩ := a
  cases client with
  | none => rfl
  | threw message => rfl
  | found address => cases rpc <;> rfl

theorem threw_of_left {a : Attempt A} {value : A} (h : a.left = some value) : a.threw = none := by
  obtain ⟨client, rpc⟩ := a
  cases client with
  | threw message => cases h
  | _ => rfl

end Attempt

/-- How a call ends: with the value that is left if it returns true, without one if it
    returns false, or with an exception. -/
structure Called (A : Type) where
  result : Except String A
  /-- The servers that the RPC was sent to, in order. -/
  sent : List ServerAddress := []

namespace Called

def map (f : A → B) (c : Called A) : Called B := { result := c.result.map f, sent := c.sent }

/-- Sent to before. -/
def after (addresses : List ServerAddress) (c : Called A) : Called A := { c with sent := addresses ++ c.sent }

end Called

variable (option : ThriftRetryOption)

/-- The loop with at most `fuel` attempts; `none` when it has not ended by then. -/
def callLoop : Nat → (Nat → Attempt A) → CallState → Option (Called (Option A))
  | fuel, attempts, s =>
    if continues option s then
      match fuel with
      | 0 => none
      | fuel + 1 =>
        match (attempts 0).threw with
        | some message => some { result := .error message }
        | none =>
          let r := attempt option s (attempts 0).outcome
          if r.1 then some { result := .ok (attempts 0).left, sent := (attempts 0).sent }
          else (callLoop fuel (fun i => attempts (i + 1)) r.2).map (·.after (attempts 0).sent)
    else some { result := .ok none }

/-- `thriftServiceCall` with this lambda. -/
def call (attempts : Nat → Attempt A) (fuel : Nat) : Option (Called (Option A)) := callLoop option fuel attempts {}

/-! ## The loop -/

/-- Both guards still hold when attempt `i` is made, from this state of the counters. -/
def InBudgetFrom (attempts : Nat → Attempt A) (s : CallState) (i : Nat) : Prop :=
  Thrift.InBudget option (fun i => (attempts i).outcome) s i

/-- Both guards still hold when attempt `i` is made. -/
abbrev InBudget (attempts : Nat → Attempt A) (i : Nat) : Prop := InBudgetFrom option attempts {} i

/-- The loop goes on behind attempt `i`: it leaves nothing, and nothing is thrown. -/
structure Passes (attempts : Nat → Attempt A) (s : CallState) (i : Nat) : Prop where
  budget : InBudgetFrom option attempts s i
  threw : (attempts i).threw = none
  left : (attempts i).left = none

/-- The servers of the attempts before `i`. -/
def sentBefore (attempts : Nat → Attempt A) (i : Nat) : List ServerAddress :=
  (List.range i).flatMap fun j => (attempts j).sent

/-- The three ways in which the loop ends at attempt `i`. -/
inductive EndsAt (fuel : Nat) (attempts : Nat → Attempt A) (s : CallState) (i : Nat) : Called (Option A) → Prop where
  | returned {value : A} (hfuel : i < fuel) (hbudget : InBudgetFrom option attempts s i)
      (hleft : (attempts i).left = some value) : EndsAt fuel attempts s i ⟨.ok (some value), sentBefore attempts (i + 1)⟩
  | threw {message : String} (hfuel : i < fuel) (hbudget : InBudgetFrom option attempts s i)
      (hthrew : (attempts i).threw = some message) : EndsAt fuel attempts s i ⟨.error message, sentBefore attempts i⟩
  | spent (hbudget : ¬ InBudgetFrom option attempts s i) : EndsAt fuel attempts s i ⟨.ok none, sentBefore attempts i⟩

variable {option}

theorem inBudgetFrom_zero {attempts : Nat → Attempt A} {s : CallState} :
    InBudgetFrom option attempts s 0 ↔ continues option s = true := inBudget_zero option _ s

theorem inBudgetFrom_succ {attempts : Nat → Attempt A} {s : CallState} {i : Nat} :
    InBudgetFrom option attempts s (i + 1) ↔
      InBudgetFrom option (fun i => attempts (i + 1)) (attempt option s (attempts 0).outcome).2 i :=
  inBudget_succ option _ s i

theorem sentBefore_succ (attempts : Nat → Attempt A) (i : Nat) :
    sentBefore attempts (i + 1) = (attempts 0).sent ++ sentBefore (fun i => attempts (i + 1)) i := by
  rw [sentBefore, List.range_succ_eq_map, List.flatMap_cons, List.flatMap_map]
  rfl

theorem passes_succ {attempts : Nat → Attempt A} {s : CallState} {i : Nat} :
    Passes option attempts s (i + 1) ↔
      Passes option (fun i => attempts (i + 1)) (attempt option s (attempts 0).outcome).2 i :=
  ⟨fun h => ⟨inBudgetFrom_succ.mp h.budget, h.threw, h.left⟩, fun h => ⟨inBudgetFrom_succ.mpr h.budget, h.threw, h.left⟩⟩

/-- An end that comes later is an end of the rest. -/
theorem endsAt_succ {fuel : Nat} {attempts : Nat → Attempt A} {s : CallState} {i : Nat} {called : Called (Option A)} :
    EndsAt option (fuel + 1) attempts s (i + 1) called ↔
      ∃ rest, EndsAt option fuel (fun i => attempts (i + 1)) (attempt option s (attempts 0).outcome).2 i rest ∧
        rest.after (attempts 0).sent = called := by
  constructor
  · rintro (⟨hfuel, hbudget, hleft⟩ | ⟨hfuel, hbudget, hthrew⟩ | hbudget)
    · exact ⟨_, .returned (by omega) (inBudgetFrom_succ.mp hbudget) hleft, by rw [Called.after, ← sentBefore_succ]⟩
    · exact ⟨_, .threw (by omega) (inBudgetFrom_succ.mp hbudget) hthrew, by rw [Called.after, ← sentBefore_succ]⟩
    · exact ⟨_, .spent (mt inBudgetFrom_succ.mpr hbudget), by rw [Called.after, ← sentBefore_succ]⟩
  · rintro ⟨rest, ⟨hfuel, hbudget, hleft⟩ | ⟨hfuel, hbudget, hthrew⟩ | hbudget, rfl⟩
    · rw [Called.after, ← sentBefore_succ]
      exact .returned (by omega) (inBudgetFrom_succ.mpr hbudget) hleft
    · rw [Called.after, ← sentBefore_succ]
      exact .threw (by omega) (inBudgetFrom_succ.mpr hbudget) hthrew
    · rw [Called.after, ← sentBefore_succ]
      exact .spent (mt inBudgetFrom_succ.mp hbudget)

/-- Without budget nothing is attempted. -/
theorem callLoop_iff_of_spent {fuel : Nat} {attempts : Nat → Attempt A} {s : CallState} {called : Called (Option A)}
    (hg : ¬ continues option s = true) :
    callLoop option fuel attempts s = some called ↔
      ∃ i ≤ fuel, (∀ j < i, Passes option attempts s j) ∧ EndsAt option fuel attempts s i called := by
  have hspent : callLoop option fuel attempts s = some { result := .ok none } := by
    cases fuel <;> rw [callLoop, if_neg hg]
  rw [hspent, Option.some_inj]
  constructor
  · rintro rfl
    exact ⟨0, by omega, fun j hj => absurd hj (by omega), .spent (mt inBudgetFrom_zero.mp hg)⟩
  · rintro ⟨i, -, hpass, hends⟩
    obtain rfl : i = 0 := by
      by_contra hne
      exact hg (inBudgetFrom_zero.mp (hpass 0 (by omega)).budget)
    rcases hends with ⟨-, hbudget, -⟩ | ⟨-, hbudget, -⟩ | -
    · exact absurd (inBudgetFrom_zero.mp hbudget) hg
    · exact absurd (inBudgetFrom_zero.mp hbudget) hg
    · rfl

/-- The first attempt ends the loop, or it passes. -/
theorem endsAt_zero {fuel : Nat} {attempts : Nat → Attempt A} {s : CallState} {called : Called (Option A)}
    (hg : continues option s = true) :
    EndsAt option (fuel + 1) attempts s 0 called ↔
      (∃ message, (attempts 0).threw = some message ∧ called = ⟨.error message, []⟩) ∨
        ∃ value, (attempts 0).left = some value ∧ called = ⟨.ok (some value), (attempts 0).sent⟩ := by
  have hbudget0 : InBudgetFrom option attempts s 0 := inBudgetFrom_zero.mpr hg
  have hone : sentBefore attempts 1 = (attempts 0).sent := by simp [sentBefore]
  constructor
  · rintro (⟨-, -, hleft⟩ | ⟨-, -, hthrew⟩ | hbudget)
    · exact .inr ⟨_, hleft, by rw [hone]⟩
    · exact .inl ⟨_, hthrew, rfl⟩
    · exact absurd hbudget0 hbudget
  · rintro (⟨message, hthrew, rfl⟩ | ⟨value, hleft, rfl⟩)
    · exact .threw (by omega) hbudget0 hthrew
    · rw [← hone]
      exact .returned (by omega) hbudget0 hleft

theorem callLoop_iff {fuel : Nat} {attempts : Nat → Attempt A} {s : CallState} {called : Called (Option A)} :
    callLoop option fuel attempts s = some called ↔
      ∃ i ≤ fuel, (∀ j < i, Passes option attempts s j) ∧ EndsAt option fuel attempts s i called := by
  induction fuel generalizing attempts s called with
  | zero =>
    by_cases hg : continues option s = true
    · rw [callLoop, if_pos hg]
      constructor
      · intro h
        cases h
      · rintro ⟨i, hi, -, hends⟩
        obtain rfl : i = 0 := by omega
        rcases hends with ⟨hfuel, -, -⟩ | ⟨hfuel, -, -⟩ | hbudget
        · omega
        · omega
        · exact absurd (inBudgetFrom_zero.mpr hg) hbudget
    · exact callLoop_iff_of_spent hg
  | succ fuel ih =>
    by_cases hg : continues option s = true
    · rw [callLoop, if_pos hg]
      -- the first attempt ends the loop, or it passes and the rest follows
      have hfirst : (∃ i ≤ fuel + 1, (∀ j < i, Passes option attempts s j) ∧
          EndsAt option (fuel + 1) attempts s i called) ↔ EndsAt option (fuel + 1) attempts s 0 called ∨
            Passes option attempts s 0 ∧ ∃ i ≤ fuel, (∀ j < i, Passes option attempts s (j + 1)) ∧
              EndsAt option (fuel + 1) attempts s (i + 1) called := by
        constructor
        · rintro ⟨i, hi, hpass, hends⟩
          cases i with
          | zero => exact .inl hends
          | succ i =>
            exact .inr ⟨hpass 0 (by omega), i, by omega, fun j hj => hpass (j + 1) (by omega), hends⟩
        · rintro (hends | ⟨hzero, i, hi, hpass, hends⟩)
          · exact ⟨0, by omega, fun j hj => absurd hj (by omega), hends⟩
          · refine ⟨i + 1, by omega, fun j hj => ?_, hends⟩
            cases j with
            | zero => exact hzero
            | succ j => exact hpass j (by omega)
      rw [hfirst, endsAt_zero hg]
      simp only [passes_succ, endsAt_succ]
      cases hthrew : (attempts 0).threw with
      | some message =>
        have hleft : ∀ value, ¬ (attempts 0).left = some value := fun value hvalue => by
          rw [Attempt.threw_of_left hvalue] at hthrew
          cases hthrew
        have hnot : ¬ Passes option attempts s 0 := fun hpass => by
          rw [hpass.threw] at hthrew
          cases hthrew
        simp [hleft, hnot, eq_comm]
      | none =>
        dsimp only
        rw [(attempt_spec option s (attempts 0).outcome).1, ← Attempt.isSome_left]
        cases hleft : (attempts 0).left with
        | some value =>
          have hnot : ¬ Passes option attempts s 0 := fun hpass => by
            rw [hpass.left] at hleft
            cases hleft
          simp [hnot, eq_comm]
        | none =>
          have hpass : Passes option attempts s 0 := ⟨inBudgetFrom_zero.mpr hg, hthrew, hleft⟩
          simp only [Option.isSome_none, Bool.false_eq_true, if_false, Option.map_eq_some_iff, ih, reduceCtorEq,
            false_and, exists_false, false_or, hpass, true_and]
          constructor
          · rintro ⟨rest, ⟨i, hi, hpass, hends⟩, rfl⟩
            exact ⟨i, hi, hpass, rest, hends, rfl⟩
          · rintro ⟨i, hi, hpass, rest, hends, rfl⟩
            exact ⟨rest, ⟨i, hi, hpass, hends⟩, rfl⟩
    · exact callLoop_iff_of_spent hg

/-! ## How a call ends -/

variable (option) in
/-- Attempt `i` is made. -/
structure Made (attempts : Nat → Attempt A) (i : Nat) : Prop where
  passes : ∀ j < i, Passes option attempts {} j
  budget : InBudget option attempts i

section Ends

variable {attempts : Nat → Attempt A} {fuel : Nat} {called : Called (Option A)}

theorem call_iff : call option attempts fuel = some called ↔
    ∃ i ≤ fuel, (∀ j < i, Passes option attempts {} j) ∧ EndsAt option fuel attempts {} i called :=
  callLoop_iff

end Ends

/-! ## Futures -/

/-- What a future holds when it is got: the response, or the exception that `get()` throws. -/
abbrev Future (A : Type) := Except String A

/-- What comes of an RPC, as its future has it. -/
def Rpc.future : Rpc A → Future A
  | .returned value => .ok value
  | .transportException _ => .error "TTransportException"
  | .applicationException _ => .error "TApplicationException"
  | .stdException message => .error message
  | .unknownException => .error "unknown exception"

/-- The asynchronous call of the same RPC: the request is sent, and whatever comes of it is
    in the future. -/
def Attempt.started (a : Attempt A) : Attempt (Future A) where
  client := a.client
  rpc := .returned a.rpc.future

theorem Attempt.left_started {a : Attempt A} {address : ServerAddress} (h : a.client = .found address) :
    a.started.left = some a.rpc.future := by
  simp only [Attempt.left, Attempt.started, h]

theorem Attempt.future_of_left {a : Attempt A} {value : A} (h : a.left = some value) : a.rpc.future = .ok value := by
  obtain ⟨client, rpc⟩ := a
  cases client <;> cases rpc <;> cases h
  rfl

/-- An RPC that leaves nothing leaves an exception in the future. -/
theorem Attempt.future_of_left_none {a : Attempt A} {address : ServerAddress} (hc : a.client = .found address)
    (h : a.left = none) : ∃ e, a.rpc.future = .error e := by
  obtain ⟨client, rpc⟩ := a
  cases hc
  cases rpc with
  | returned value => cases h
  | _ => exact ⟨_, rfl⟩

variable (option) in
/-- No attempt before `i` has a client, and `i` is made for all that. -/
structure NoneBefore (attempts : Nat → Attempt A) (i : Nat) : Prop where
  first : ∀ j < i, (attempts j).client = .none
  connections : i ≤ option.connectionRetry
  timeouts : 0 ≤ option.timeoutRetry

variable (option) in
/-- No attempt that is made has a client. -/
def NoClient (attempts : Nat → Attempt A) : Prop :=
  ∀ i : Nat, i ≤ option.connectionRetry → 0 ≤ option.timeoutRetry → (attempts i).client = .none

section Started

variable {attempts : Nat → Attempt A} {fuel i : Nat}

/-- Each attempt without a client is a connection retry. -/
theorem inBudget_of_no_client (h : ∀ j < i, (attempts j).client = .none) :
    InBudget option attempts i ↔ i ≤ option.connectionRetry ∧ 0 ≤ option.timeoutRetry := by
  have houtcome : ∀ j < i, (attempts j).outcome = .noClient := fun j hj => by rw [Attempt.outcome, h j hj]
  have hconn : Nat.count (fun j => isConnectionFailure (attempts j).outcome = true) i = i := by
    rw [Nat.count_iff_forall]
    intro j hj
    rw [houtcome j hj]
    rfl
  have htime : Nat.count (fun j => isTimeoutFailure (attempts j).outcome = true) i = 0 := by
    rw [Nat.count_iff_forall_not]
    intro j hj
    rw [houtcome j hj]
    decide
  rw [InBudget, InBudgetFrom, Thrift.InBudget, hconn, htime]
  show -1 + (i : Int) < _ ∧ -1 + 0 < _ ↔ _
  omega

theorem passes_of_no_client (h : ∀ j ≤ i, (attempts j).client = .none) (hi : i ≤ option.connectionRetry)
    (ht : 0 ≤ option.timeoutRetry) : Passes option attempts {} i where
  budget := (inBudget_of_no_client fun j hj => h j (by omega)).mpr ⟨hi, ht⟩
  threw := by rw [Attempt.threw, h i le_rfl]
  left := by rw [Attempt.left, h i le_rfl]

theorem sentBefore_of_no_client (h : ∀ j < i, (attempts j).client = .none) : sentBefore attempts i = [] :=
  List.flatMap_eq_nil_iff.mpr fun j hj => by rw [Attempt.sent, h j (List.mem_range.mp hj)]

theorem NoneBefore.passes (h : NoneBefore option attempts i) : ∀ j < i, Passes option attempts {} j := fun j hj =>
  passes_of_no_client (fun k hk => h.first k (by omega)) (by have := h.connections; omega) h.timeouts

theorem NoneBefore.inBudget (h : NoneBefore option attempts i) : InBudget option attempts i :=
  (inBudget_of_no_client h.first).mpr ⟨h.connections, h.timeouts⟩

theorem NoneBefore.started (h : NoneBefore option attempts i) : NoneBefore option (fun i => (attempts i).started) i :=
  ⟨h.first, h.connections, h.timeouts⟩

theorem NoClient.started (h : NoClient option attempts) : NoClient option fun i => (attempts i).started := h

/-- The first client is that of a server, of which the RPC returns. -/
theorem call_of_found (h : NoneBefore option attempts i) (hfuel : option.connectionRetry < fuel) {value : A}
    (hleft : (attempts i).left = some value) :
    call option attempts fuel = some ⟨.ok (some value), (attempts i).sent⟩ := by
  have hi := h.connections
  refine call_iff.mpr ⟨i, by omega, h.passes, ?_⟩
  have hsent : sentBefore attempts (i + 1) = (attempts i).sent := by
    have hbefore := sentBefore_of_no_client h.first
    rw [sentBefore] at hbefore ⊢
    rw [List.range_succ, List.flatMap_append, hbefore, List.flatMap_singleton, List.nil_append]
  rw [← hsent]
  exact .returned (by omega) h.inBudget hleft

/-- The first client throws. -/
theorem call_of_threw (h : NoneBefore option attempts i) (hfuel : option.connectionRetry < fuel) {message : String}
    (hthrew : (attempts i).client = .threw message) : call option attempts fuel = some ⟨.error message, []⟩ := by
  have hi := h.connections
  refine call_iff.mpr ⟨i, by omega, h.passes, ?_⟩
  rw [← sentBefore_of_no_client h.first]
  exact .threw (by omega) h.inBudget (by rw [Attempt.threw, hthrew])

/-- There is no client. -/
theorem call_of_noClient (h : NoClient option attempts) (hfuel : option.connectionRetry < fuel) :
    call option attempts fuel = some ⟨.ok none, []⟩ := by
  by_cases ht : 0 ≤ option.timeoutRetry
  · -- the attempts are as many as the connection retries allow
    obtain ⟨k, hk⟩ : ∃ k : Nat, k = (option.connectionRetry + 1).toNat := ⟨_, rfl⟩
    have hnone : ∀ j < k, (attempts j).client = .none := fun j hj => h j (by omega) ht
    refine call_iff.mpr ⟨k, by omega, fun j hj => ?_, ?_⟩
    · exact passes_of_no_client (fun i hi => hnone i (by omega)) (by omega) ht
    · rw [← sentBefore_of_no_client hnone]
      exact .spent fun hbudget => by
        have := (inBudget_of_no_client hnone).mp hbudget
        omega
  · refine call_iff.mpr ⟨0, by omega, fun j hj => absurd hj (by omega), .spent fun hbudget => ht ?_⟩
    exact ((inBudget_of_no_client fun j hj => absurd hj (by omega)).mp hbudget).2

/-- An attempt that is made has a client, or none has. -/
theorem exists_noneBefore (option : ThriftRetryOption) (attempts : Nat → Attempt A) :
    NoClient option attempts ∨ ∃ i, NoneBefore option attempts i ∧ (attempts i).client ≠ .none := by
  by_cases h : ∃ i : Nat, i ≤ option.connectionRetry ∧ 0 ≤ option.timeoutRetry ∧ (attempts i).client ≠ .none
  · classical
    obtain ⟨hi, ht, hclient⟩ := Nat.find_spec h
    refine .inr ⟨Nat.find h, ⟨fun j hj => ?_, hi, ht⟩, hclient⟩
    by_contra hne
    exact Nat.find_min h hj ⟨by omega, ht, hne⟩
  · exact .inl fun i hi ht => by_contra fun hne => h ⟨i, hi, ht, hne⟩

end Started

end PredictorService.Sdk
