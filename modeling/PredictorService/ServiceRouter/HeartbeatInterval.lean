/-
  PredictorService.ServiceRouter.HeartbeatInterval — how often a server sends a heartbeat and
  a client asks for the servers (service_router/service_info_puller.cc, `addHeartbeat`, and
  service_info_puller.h, `addPullSchedule`), against the expiry of `RouterDb::pickServers`.

  The interval of the heartbeats is two thirds of the ttl, as the comment says, but at least
  a flag (1000 ms by default), so a ttl up to the flag is over before the next heartbeat. The
  products are 32 bit ones, which wrap.
  - `outpaces_iff`: for a positive ttl, the intervals are positive, nothing overflows, and a
    server that sends its heartbeats on time is never timed out, iff the ttl is more than the
    flag and less than 2^30 and the pull interval times 1000 is an `int` (`IntervalsFit`).
-/

import PredictorService.Lib.MachineInts
import PredictorService.ServiceRouter.Router
import PredictorService.ServiceRouter.RouterDb

namespace PredictorService.ServiceRouter.Heartbeats

open PredictorService.Lib
open Router (ServerWithHeartbeat)

/-! ## The intervals -/

structure Flags where
  routerDefaultHeartbeatInterval : Int32 := 1000
  routerDefaultPullInterval : Int32 := 1000
  deriving DecidableEq, Repr

variable (flags : Flags) (config : ServiceRouterConfig)

/-- `heartbeat_interval` in `addHeartbeat`, in milliseconds. -/
def heartbeatInterval : Int32 :=
  let heartbeatInterval := 2 * config.ttlInMs / 3
  if heartbeatInterval < flags.routerDefaultHeartbeatInterval then flags.routerDefaultHeartbeatInterval
  else heartbeatInterval

/-- `pull_interval` in `addPullSchedule`. -/
def pullInterval : Int32 :=
  let pullInterval := config.pullInterval * 1000
  if pullInterval < flags.routerDefaultPullInterval then flags.routerDefaultPullInterval else pullInterval

/-- The record after the `k`-th heartbeat since `start`, each at its time. -/
def afterBeats (w : ServerWithHeartbeat) (start : Nat) : Nat → ServerWithHeartbeat
  | 0 => w.beat (UInt64.ofNat start)
  | k + 1 => (afterBeats w start k).beat (UInt64.ofNat (start + (k + 1) * (heartbeatInterval flags config).toInt.toNat))

/-! ## What is asked of them -/

/-- `int` arithmetic gives this value. -/
def FitsInt (n : Int) : Prop := -2147483648 ≤ n ∧ n < 2147483648

/-- The times are those of `currentTimeInMs`, a signed 64 bit number. -/
structure Outpaces : Prop where
  heartbeatPositive : 0 < (heartbeatInterval flags config).toInt
  heartbeatLess : (heartbeatInterval flags config).toInt < config.ttlInMs.toInt
  pullPositive : 0 < (pullInterval flags config).toInt
  ttlProduct : FitsInt (2 * config.ttlInMs.toInt)
  pullProduct : FitsInt (config.pullInterval.toInt * 1000)
  /-- From a heartbeat to the next the server is picked. -/
  picked : ∀ (w : ServerWithHeartbeat) (start k now : Nat), w.isPause = false → w.server.status = .available →
    start + k * (heartbeatInterval flags config).toInt.toNat ≤ now →
    now ≤ start + (k + 1) * (heartbeatInterval flags config).toInt.toNat → now < 2 ^ 63 →
    RouterDb.isPicked config (UInt64.ofNat now) (afterBeats flags config w start k).server = true

/-- The ttl is more than the flag and its double an `int`, and so is the pull interval in
    milliseconds; an interval is positive by the flag or by the config. -/
structure IntervalsFit : Prop where
  flag : flags.routerDefaultHeartbeatInterval.toInt < config.ttlInMs.toInt
  ttl : config.ttlInMs.toInt < 1073741824
  pull : FitsInt (config.pullInterval.toInt * 1000)
  positive : 0 < flags.routerDefaultHeartbeatInterval.toInt ∨ 1 < config.ttlInMs.toInt
  pullPositive : 0 < flags.routerDefaultPullInterval.toInt ∨ 0 < config.pullInterval.toInt

variable {config}

/-! ## The intervals as integers -/

/-- The larger of two, as both functions take it. -/
theorem toInt_floor (a b : Int32) : (if a < b then b else a).toInt = max a.toInt b.toInt := by
  split
  · rename_i h
    have := Int32.lt_iff_toInt_lt.mp h
    omega
  · rename_i h
    rw [Int32.lt_iff_toInt_lt] at h
    omega

theorem toInt_heartbeatInterval (h0 : 0 < config.ttlInMs.toInt) (h : config.ttlInMs.toInt < 1073741824) :
    (heartbeatInterval flags config).toInt =
      max (2 * config.ttlInMs.toInt / 3) flags.routerDefaultHeartbeatInterval.toInt := by
  have hmul : (2 * config.ttlInMs).toInt = 2 * config.ttlInMs.toInt := by
    have h2 : (2 : Int32).toInt = 2 := rfl
    rw [Int32.toInt_mul, h2, Int.bmod_def]
    omega
  have hdiv : (2 * config.ttlInMs / 3).toInt = 2 * config.ttlInMs.toInt / 3 := by
    have h3 : (3 : Int32).toInt = 3 := rfl
    rw [Int32.toInt_div, hmul, h3, Int.tdiv_eq_ediv_of_nonneg (by omega), Int.bmod_def]
    omega
  rw [← hdiv]
  exact toInt_floor _ _

theorem toInt_pullInterval (h : FitsInt (config.pullInterval.toInt * 1000)) :
    (pullInterval flags config).toInt = max (config.pullInterval.toInt * 1000) flags.routerDefaultPullInterval.toInt := by
  have hmul : (config.pullInterval * 1000).toInt = config.pullInterval.toInt * 1000 := by
    have h1000 : (1000 : Int32).toInt = 1000 := rfl
    have hlow := h.1
    have hhigh := h.2
    rw [Int32.toInt_mul, h1000, Int.bmod_def]
    omega
  rw [← hmul]
  exact toInt_floor _ _

/-! ## Heartbeats on time -/

/-- The record carries the time of its last heartbeat. -/
theorem afterBeats_spec (config : ServiceRouterConfig) {w : ServerWithHeartbeat} (hpause : w.isPause = false) (start k : Nat) :
    (afterBeats flags config w start k).isPause = false ∧
      (afterBeats flags config w start k).server =
        { w.server with updateTime := UInt64.ofNat (start + k * (heartbeatInterval flags config).toInt.toNat) } := by
  induction k with
  | zero => simp [afterBeats, ServerWithHeartbeat.beat, hpause]
  | succ k ih =>
    unfold afterBeats ServerWithHeartbeat.beat
    rw [if_neg (by simp [ih.1])]
    exact ⟨ih.1, by rw [ih.2]⟩

/-- A record no older than the ttl is picked. -/
theorem isPicked_of_age {t : Server} (hstatus : t.status = .available) (updated now : Nat)
    (ht : t.updateTime = UInt64.ofNat updated) (h0 : 0 < config.ttlInMs.toInt) (hle : updated ≤ now)
    (hage : (now : Int) ≤ updated + config.ttlInMs.toInt) (hnow : now < 9223372036854775808) :
    RouterDb.isPicked config (UInt64.ofNat now) t = true := by
  have httl := config.ttlInMs.toInt_lt
  have hsum : (t.updateTime + config.ttlInMs.toInt64.toUInt64).toNat = updated + config.ttlInMs.toInt.toNat := by
    rw [UInt64.toNat_add, ht, toNat_toUInt64_of_nonneg (by omega), UInt64.toNat_ofNat']
    omega
  have hnow' : (UInt64.ofNat now).toNat = now := by
    rw [UInt64.toNat_ofNat']
    omega
  have hin : ¬ UInt64.ofNat now > t.updateTime + config.ttlInMs.toInt64.toUInt64 := by
    rw [gt_iff_lt, UInt64.lt_iff_toNat_lt, hsum, hnow']
    omega
  simp [RouterDb.isPicked, hin, hstatus]

variable {flags} in
theorem picked_of_less (h0 : 0 < (heartbeatInterval flags config).toInt)
    (hless : (heartbeatInterval flags config).toInt < config.ttlInMs.toInt) {w : ServerWithHeartbeat}
    (hpause : w.isPause = false) (hstatus : w.server.status = .available) {start k now : Nat}
    (hfrom : start + k * (heartbeatInterval flags config).toInt.toNat ≤ now)
    (hto : now ≤ start + (k + 1) * (heartbeatInterval flags config).toInt.toNat) (hnow : now < 2 ^ 63) :
    RouterDb.isPicked config (UInt64.ofNat now) (afterBeats flags config w start k).server = true := by
  obtain ⟨-, hrecord⟩ := afterBeats_spec flags config hpause start k
  have hupdated : (afterBeats flags config w start k).server.updateTime =
      UInt64.ofNat (start + k * (heartbeatInterval flags config).toInt.toNat) := by rw [hrecord]
  have havailable : (afterBeats flags config w start k).server.status = .available := by rw [hrecord, hstatus]
  rw [Nat.succ_mul] at hto
  have hage : (now : Int) ≤ (start + k * (heartbeatInterval flags config).toInt.toNat : Nat) + config.ttlInMs.toInt := by
    generalize k * (heartbeatInterval flags config).toInt.toNat = beats at hfrom hto ⊢
    omega
  exact isPicked_of_age havailable _ now hupdated (by omega) hfrom hage (by omega)

/-- For a positive ttl: heartbeats and pulls come in time iff the config fits the flags and
    the 32 bit products. -/
theorem outpaces_iff (flags : Flags) {config : ServiceRouterConfig} (httl : 0 < config.ttlInMs.toInt) :
    Outpaces flags config ↔ IntervalsFit flags config := by
  constructor
  · intro h
    have hproduct := h.ttlProduct.2
    have hheart := toInt_heartbeatInterval flags httl (by omega)
    have hpull := toInt_pullInterval flags h.pullProduct
    have hpos := h.heartbeatPositive
    have hless := h.heartbeatLess
    have hpullpos := h.pullPositive
    exact ⟨by omega, by omega, h.pullProduct, by omega, by omega⟩
  · intro h
    obtain ⟨hflag, hsmall, hfits, hpositive, hpullPositive⟩ := h
    have hheart := toInt_heartbeatInterval flags httl hsmall
    have hpull := toInt_pullInterval flags hfits
    have hpos : 0 < (heartbeatInterval flags config).toInt := by omega
    have hless : (heartbeatInterval flags config).toInt < config.ttlInMs.toInt := by omega
    refine ⟨hpos, hless, by omega, ⟨by omega, by omega⟩, hfits, ?_⟩
    intro w start k now hpause hstatus hfrom hto hnow
    exact picked_of_less hpos hless hpause hstatus hfrom hto hnow

/-- The defaults: a heartbeat each 2000 ms for a ttl of 3000 ms. -/
theorem outpaces_default :
    0 < ({} : ServiceRouterConfig).ttlInMs.toInt ∧ (heartbeatInterval {} {}).toInt = 2000 ∧ Outpaces {} {} := by
  have hfit : IntervalsFit {} {} := ⟨by decide, by decide, ⟨by decide, by decide⟩, .inl (by decide), .inl (by decide)⟩
  exact ⟨by decide, by decide, (outpaces_iff {} (by decide)).mpr hfit⟩

def halfSecond : ServiceRouterConfig := { ttlInMs := 500 }

def livingServer : ServerWithHeartbeat := { server := { serviceName := "ctr", status := .available } }

/-- With a ttl of 500 ms the heartbeats are a second apart, and a server that sends them on
    time is timed out in between. -/
theorem a_short_ttl_is_over_first :
    (heartbeatInterval {} halfSecond).toInt = 1000 ∧
      RouterDb.isPicked halfSecond 1600000000700 (afterBeats {} halfSecond livingServer 1600000000000 0).server = false ∧
      ¬ Outpaces {} halfSecond := by
  refine ⟨by decide, by decide, fun h => ?_⟩
  exact absurd h.heartbeatLess (by decide)

end PredictorService.ServiceRouter.Heartbeats
