/-
  PredictorService.Server.ThreadCounts — the numbers of tasks and threads
  (predictor/global_resource/resource_manager.cc, ModelManager::init, and
  reset_service_config of predictor/server/http_service/http_service.cc).

  At the start a number that no flag gives is the number of cores, or half of it, halved as
  an integer. Later each config object may give ratios, and a number is then the integer
  part of `core_num` times its ratio, when that is between zero and twice the cores. So
  both ways lead to zero: half of one thread, and a ratio below one core. With zero tasks
  `extractFeaturesInParallel` refuses its parameters and `split_slice` refuses too.

  A finite double is the rational that it stands for; a product is rounded to 53 bits.
  Nothing here depends on how large an exponent may get: a cast to `int` that does not fit
  is the least `int` (undefined in C++; BLADE_ROOT builds for x86-64, where the conversion
  gives that), and a product that small is cut to zero. The thread pools are their greatest
  number of threads.
-/

import PredictorService.Lib.FinMap
import PredictorService.Lib.Rounding
import PredictorService.Lib.Runs
import PredictorService.Server.ParallelPredict

namespace PredictorService.Server.ThreadCounts

open PredictorService.Lib

/-- The flags, with their defaults. -/
structure Flags where
  heavyTasksThreadNum : Int64 := 0
  tfThreadNum : Int64 := 0
  featureExtractTasksNum : Int64 := 0
  requestCpuThreadNum : Int64 := 0
  minItemsPerThread : Int64 := 20
  deriving DecidableEq, Repr

inductive Double where
  | finite (q : ℚ)
  | notFinite
  deriving DecidableEq, Repr

/-- A `folly::dynamic` in a config object. -/
inductive Value where
  | integer (n : Int64)
  | double (x : Double)
  | other
  deriving DecidableEq, Repr

/-- `none` when the parameter of the request is not an object. -/
abbrev Config := Option (FinMap String Value)

/-- What `set_cfg_value` is called for, in this order. -/
inductive Cfg where
  | featureExtractTasks
  | tfThread
  | heavyTasksThread
  | requestCpuThread
  deriving DecidableEq, Repr

namespace Cfg

def ratioName : Cfg → String
  | featureExtractTasks => "feature_extract_tasks_ratio"
  | tfThread => "tf_thread_ratio"
  | heavyTasksThread => "heavy_tasks_thread_ratio"
  | requestCpuThread => "request_cpu_thread_ratio"

def cfgName : Cfg → String
  | featureExtractTasks => "feature_extract_tasks_num"
  | tfThread => "tf_thread_num"
  | heavyTasksThread => "heavy_tasks_thread_num"
  | requestCpuThread => "request_cpu_thread_num"

def order : List Cfg := [featureExtractTasks, tfThread, heavyTasksThread, requestCpuThread]

end Cfg

namespace Flags

def get (flags : Flags) : Cfg → Int64
  | .featureExtractTasks => flags.featureExtractTasksNum
  | .tfThread => flags.tfThreadNum
  | .heavyTasksThread => flags.heavyTasksThreadNum
  | .requestCpuThread => flags.requestCpuThreadNum

def set (flags : Flags) (value : Int64) : Cfg → Flags
  | .featureExtractTasks => { flags with featureExtractTasksNum := value }
  | .tfThread => { flags with tfThreadNum := value }
  | .heavyTasksThread => { flags with heavyTasksThreadNum := value }
  | .requestCpuThread => { flags with requestCpuThreadNum := value }

end Flags

/-- The flags, the pools and `configs_`. -/
structure State where
  flags : Flags
  heavyTasksThreadPool : UInt64
  cpuThreadPool : UInt64
  configs : FinMap String Value

/-! ## The start -/

/-- An `int64_t` as a double. -/
def toDouble (n : Int64) : ℚ := roundTo 53 n.toInt

/-- `ceil(FLAGS_heavy_tasks_thread_num / 2)`: the division is one of integers. -/
def half (threadNum : Int64) : Int64 := Int64.ofInt ⌈toDouble (threadNum / 2)⌉

def initCoreNum (hardwareConcurrency : UInt32) : UInt32 := if 0 < hardwareConcurrency then hardwareConcurrency else 16

/-- The flags as the thread pool is made with them. -/
def initHeavyTasksThreadPool (coreNum : UInt32) (flags : Flags) : Flags :=
  let flags := if flags.heavyTasksThreadNum = 0 then { flags with heavyTasksThreadNum := coreNum.toUInt64.toInt64 } else flags
  let flags :=
    if flags.tfThreadNum = 0 then
      { flags with
        heavyTasksThreadNum := half flags.heavyTasksThreadNum
        tfThreadNum := half flags.heavyTasksThreadNum }
    else flags
  if flags.featureExtractTasksNum = 0 then { flags with featureExtractTasksNum := flags.heavyTasksThreadNum } else flags

/-- `ModelManager::init`. -/
def initModelManager (hardwareConcurrency : UInt32) (flags : Flags) : Flags :=
  if 0 = flags.requestCpuThreadNum then
    { flags with requestCpuThreadNum := if 0 < hardwareConcurrency then hardwareConcurrency.toUInt64.toInt64 else 16 }
  else flags

def saveConfig (flags : Flags) (configs : FinMap String Value) : FinMap String Value :=
  (((configs.insert Cfg.tfThread.cfgName (.integer flags.tfThreadNum)).insert
    Cfg.featureExtractTasks.cfgName (.integer flags.featureExtractTasksNum)).insert
    Cfg.heavyTasksThread.cfgName (.integer flags.heavyTasksThreadNum)).insert
    Cfg.requestCpuThread.cfgName (.integer flags.requestCpuThreadNum)

/-- The server when its services are up. -/
def start (hardwareConcurrency : UInt32) (flags : Flags) : State :=
  let flags := initHeavyTasksThreadPool (initCoreNum hardwareConcurrency) flags
  let heavyTasksThreadPool := flags.heavyTasksThreadNum.toUInt64
  let flags := initModelManager hardwareConcurrency flags
  ⟨flags, heavyTasksThreadPool, flags.requestCpuThreadNum.toUInt64, saveConfig flags ∅⟩

/-! ## A config object -/

def Value.isNumber : Value → Bool
  | integer _ => true
  | double _ => true
  | other => false

/-- `none` when it throws: an integer that no double is equal to (folly's Conv.h). -/
def Value.asDouble : Value → Option Double
  | integer n => if toDouble n = n.toInt then some (.finite n.toInt) else none
  | double x => some x
  | other => none

/-- `int value = core_num * x`. -/
def scale (coreNum : UInt32) : Double → Int32
  | .finite q =>
    let value := truncate (roundTo 53 (coreNum.toNat * q))
    if -2147483648 ≤ value ∧ value < 2147483648 then Int32.ofInt value else Int32.minValue
  | .notFinite => Int32.minValue

/-- The assignments for an accepted value. -/
def store (s : State) (cfg : Cfg) (ratio : Value) (value : Int32) : State where
  flags := s.flags.set value.toInt64 cfg
  heavyTasksThreadPool := if cfg = .heavyTasksThread then value.toInt64.toUInt64 else s.heavyTasksThreadPool
  cpuThreadPool := if cfg = .requestCpuThread then value.toInt64.toUInt64 else s.cpuThreadPool
  configs := (s.configs.insert cfg.ratioName ratio).insert cfg.cfgName (.integer value.toInt64)

/-- `none` when `asDouble` throws. -/
def setCfgValue (coreNum : UInt32) (configObject : FinMap String Value) (s : State) (cfg : Cfg) : Option State :=
  match configObject.lookup cfg.ratioName with
  | none => some s
  | some ratio =>
    if ratio.isNumber then do
      let x ← ratio.asDouble
      let value := scale coreNum x
      -- the comparison with `core_num * 2` is one of unsigned numbers
      some (if 0 ≤ value ∧ value.toUInt32 ≤ coreNum * 2 then store s cfg ratio value else s)
    else some s

/-- The calls of `set_cfg_value`. What was set before an exception stays. -/
def setCfgValues (coreNum : UInt32) (configObject : FinMap String Value) (s : State) : List Cfg → State
  | [] => s
  | cfg :: cfgs =>
    match setCfgValue coreNum configObject s cfg with
    | some s => setCfgValues coreNum configObject s cfgs
    | none => s

def resetServiceConfig (hardwareConcurrency : UInt32) (s : State) : Config → State
  | none => s
  | some configObject =>
    if hardwareConcurrency = 0 then s else setCfgValues hardwareConcurrency configObject s Cfg.order

/-! ## What the numbers are for -/

structure Flags.NonNeg (flags : Flags) : Prop where
  heavyTasksThreadNum : 0 ≤ flags.heavyTasksThreadNum
  tfThreadNum : 0 ≤ flags.tfThreadNum
  featureExtractTasksNum : 0 ≤ flags.featureExtractTasksNum
  requestCpuThreadNum : 0 ≤ flags.requestCpuThreadNum
  minItemsPerThread : 0 ≤ flags.minItemsPerThread

/-- There is a task and a thread for each purpose, and neither kind of model has the items
    of a request refused, however many they are. -/
structure Serves (flags : Flags) : Prop where
  tasks : 1 ≤ flags.featureExtractTasksNum
  heavyThreads : 1 ≤ flags.heavyTasksThreadNum
  requestThreads : 1 ≤ flags.requestCpuThreadNum
  /-- `extractFeaturesInParallel` takes its defaults as `int`. -/
  validParameters : ¬ (flags.minItemsPerThread.toInt32 < 1 ∨ flags.featureExtractTasksNum.toInt32 < 1)
  extracts : ∀ itemsSize : UInt32, (splitSlice itemsSize flags.minItemsPerThread.toInt32.toUInt32
    flags.featureExtractTasksNum.toInt32.toUInt32).isSome
  /-- `CatboostModel::predict` passes the flags themselves. -/
  predicts : ∀ itemsSize : UInt32, (splitSlice itemsSize flags.minItemsPerThread.toUInt64.toUInt32
    flags.featureExtractTasksNum.toUInt64.toUInt32).isSome

/-- `FLAGS_heavy_tasks_thread_num` before it may be halved. -/
def threadNum (coreNum : UInt32) (flags : Flags) : Int64 :=
  if flags.heavyTasksThreadNum = 0 then coreNum.toUInt64.toInt64 else flags.heavyTasksThreadNum

/-- Where the number of tasks comes from: its own flag, or the number of threads, of which
    TensorFlow takes half unless it has a flag of its own. -/
def tasksNum (coreNum : UInt32) (flags : Flags) : Int64 :=
  if flags.featureExtractTasksNum ≠ 0 then flags.featureExtractTasksNum
  else if flags.tfThreadNum ≠ 0 then threadNum coreNum flags
  else half (threadNum coreNum flags)

/-- The flags that start well: no single thread is halved, and the two numbers that are
    taken as `int` are positive as such. -/
structure StartsWell (coreNum : UInt32) (flags : Flags) : Prop where
  twoThreads : flags.tfThreadNum = 0 → 2 ≤ threadNum coreNum flags
  minItems : 1 ≤ flags.minItemsPerThread.toInt32
  tasks : 1 ≤ (tasksNum coreNum flags).toInt32

/-- The ratio is an integer that is not a double. -/
def Throws (configObject : FinMap String Value) (cfg : Cfg) : Prop :=
  ∃ n, configObject.lookup cfg.ratioName = some (.integer n) ∧ toDouble n ≠ n.toInt

/-- The ratio is of less than one core (the last half unit below one rounds up to one). -/
def LessThanOneCore (coreNum : UInt32) (configObject : FinMap String Value) (cfg : Cfg) : Prop :=
  ∃ ratio q, configObject.lookup cfg.ratioName = some ratio ∧ ratio.asDouble = some (.finite q) ∧
    |(coreNum.toNat : ℚ) * q| < 1 - 1 / 2 ^ 54

/-- A ratio of less than one core is given only for TensorFlow, or is not come to. -/
def ResetsWell (coreNum : UInt32) : Config → Prop
  | none => True
  | some configObject => ∀ before cfg after, Cfg.order = before ++ cfg :: after → cfg ≠ .tfThread →
      LessThanOneCore coreNum configObject cfg → ∃ d ∈ before, Throws configObject d

/-! ## Serving -/

theorem toUInt32_toUInt64_ne_zero {n : Int64} (h : 1 ≤ n.toInt32) : n.toUInt64.toUInt32 ≠ 0 := by
  have hlow : n.toUInt64.toUInt32 = n.toInt32.toUInt32 := by
    apply UInt32.toBitVec_inj.mp
    simp [BitVec.signExtend_eq_setWidth_of_le]
  rw [hlow]
  exact toUInt32_ne_zero h

theorem serves_iff_counts (flags : Flags) :
    Serves flags ↔ 1 ≤ flags.featureExtractTasksNum ∧ 1 ≤ flags.heavyTasksThreadNum ∧ 1 ≤ flags.requestCpuThreadNum ∧
      1 ≤ flags.minItemsPerThread.toInt32 ∧ 1 ≤ flags.featureExtractTasksNum.toInt32 := by
  constructor
  · intro h
    have hmin := Int32.not_lt.mp fun hlt => h.validParameters (.inl hlt)
    have htasks := Int32.not_lt.mp fun hlt => h.validParameters (.inr hlt)
    exact ⟨h.tasks, h.heavyThreads, h.requestThreads, hmin, htasks⟩
  · rintro ⟨ht, hh, hr, hmin, htasks⟩
    refine ⟨ht, hh, hr, Model.not_invalid hmin htasks, fun _ => ?_, fun _ => ?_⟩
    · exact splitSlice_isSome.mpr ⟨toUInt32_ne_zero hmin, toUInt32_ne_zero htasks⟩
    · exact splitSlice_isSome.mpr ⟨toUInt32_toUInt64_ne_zero hmin, toUInt32_toUInt64_ne_zero htasks⟩

/-! ## The start -/

theorem toDouble_div_two {n : Int64} (hn : 0 ≤ n) :
    (n / 2).toInt = (n.toInt / 2).toNat ∧ toDouble (n / 2) = roundTo 53 ((n.toInt / 2).toNat : ℚ) := by
  have hn0 : 0 ≤ n.toInt := Int64.le_iff_toInt_le.mp hn
  have hdiv : (n / 2).toInt = (n.toInt / 2).toNat := by
    rw [Int64.toInt_div_of_ne_right n 2 (by decide), Int.toNat_of_nonneg (by omega)]
    exact Int.tdiv_eq_ediv_of_nonneg hn0
  exact ⟨hdiv, by rw [toDouble, hdiv, Int.cast_natCast]⟩

theorem half_bounds {n : Int64} (hn : 0 ≤ n) : 0 ≤ half n ∧ (1 ≤ half n ↔ 2 ≤ n) := by
  have hn0 : 0 ≤ n.toInt := Int64.le_iff_toInt_le.mp hn
  have hlt : n.toInt < 9223372036854775808 := Int64.toInt_lt n
  obtain ⟨hge, hle, hzero⟩ := ceil_roundTo_natCast (p := 53) (by norm_num) (n := (n.toInt / 2).toNat) (k := 62) (by omega)
  have hint : (half n).toInt = ⌈roundTo 53 ((n.toInt / 2).toNat : ℚ)⌉ := by
    rw [half, (toDouble_div_two hn).2]
    exact Int64.toInt_ofInt_of_le (by omega) (by omega)
  rw [Int64.le_iff_toInt_le, Int64.le_iff_toInt_le, Int64.le_iff_toInt_le, hint]
  have h1 : (1 : Int64).toInt = 1 := rfl
  have h2 : (2 : Int64).toInt = 2 := rfl
  rw [h1, h2]
  exact ⟨hge, by omega⟩

/-- No rounding below the 54th bit. -/
theorem half_eq {n : Int64} (hn : 0 ≤ n) (hlt : n.toInt < 2 ^ 54) : half n = n / 2 := by
  obtain ⟨hdiv, hdouble⟩ := toDouble_div_two hn
  have hround : roundTo 53 ((n.toInt / 2).toNat : ℚ) = (n.toInt / 2).toNat := roundTo_natCast (by omega)
  rw [half, hdouble, hround, Int.ceil_natCast, ← hdiv, Int64.ofInt_toInt]

theorem toInt_ofCores (coreNum : UInt32) : coreNum.toUInt64.toInt64.toInt = coreNum.toNat := by
  have hlt := coreNum.toNat_lt
  rw [← Int64.toInt_toBitVec]
  show (coreNum.toUInt64.toBitVec).toInt = coreNum.toNat
  rw [BitVec.toInt_eq_toNat_of_lt]
  · simp
  · simp
    omega

/-- What the flags are when the services are up. -/
theorem start_flags {coreNum : UInt32} (hcore : 0 < coreNum) (flags : Flags) :
    (start coreNum flags).flags =
      let heavy := if flags.tfThreadNum = 0 then half (threadNum coreNum flags) else threadNum coreNum flags
      { heavyTasksThreadNum := heavy
        tfThreadNum := if flags.tfThreadNum = 0 then half (threadNum coreNum flags) else flags.tfThreadNum
        featureExtractTasksNum := if flags.featureExtractTasksNum = 0 then heavy else flags.featureExtractTasksNum
        requestCpuThreadNum := if flags.requestCpuThreadNum = 0 then coreNum.toUInt64.toInt64 else flags.requestCpuThreadNum
        minItemsPerThread := flags.minItemsPerThread } := by
  simp only [start, initCoreNum, if_pos hcore, initHeavyTasksThreadPool, initModelManager, threadNum]
  by_cases hh : flags.heavyTasksThreadNum = 0 <;> by_cases ht : flags.tfThreadNum = 0 <;>
    by_cases hf : flags.featureExtractTasksNum = 0 <;> by_cases hr : flags.requestCpuThreadNum = 0 <;>
    simp [hh, ht, hf, hr, eq_comm]

theorem one_le_iff_ne_zero {n : Int64} (hn : 0 ≤ n) : 1 ≤ n ↔ n ≠ 0 := by
  rw [Int64.le_iff_toInt_le] at hn ⊢
  rw [Ne, ← Int64.toInt_inj]
  have h0 : (0 : Int64).toInt = 0 := rfl
  have h1 : (1 : Int64).toInt = 1 := rfl
  omega

theorem one_le_ofCores {coreNum : UInt32} (hcore : 1 ≤ coreNum) : 1 ≤ coreNum.toUInt64.toInt64 := by
  rw [Int64.le_iff_toInt_le, toInt_ofCores]
  have h1 : (1 : Int64).toInt = 1 := rfl
  have := UInt32.le_iff_toNat_le.mp hcore
  have h1' : (1 : UInt32).toNat = 1 := rfl
  omega

theorem one_le_threadNum {coreNum : UInt32} (hcore : 1 ≤ coreNum) {flags : Flags}
    (hheavy : 0 ≤ flags.heavyTasksThreadNum) : 1 ≤ threadNum coreNum flags := by
  unfold threadNum
  split
  · exact one_le_ofCores hcore
  · exact (one_le_iff_ne_zero hheavy).mpr ‹_›

theorem serves_start_iff {coreNum : UInt32} (hcore : 1 ≤ coreNum) {flags : Flags} (hflags : flags.NonNeg) :
    Serves (start coreNum flags).flags ↔ StartsWell coreNum flags := by
  have hpos : 0 < coreNum := UInt32.lt_of_lt_of_le (by decide) hcore
  have hthreads := one_le_threadNum hcore hflags.heavyTasksThreadNum
  have hnonneg : 0 ≤ threadNum coreNum flags := Int64.le_trans (by decide) hthreads
  have hhalf := half_bounds hnonneg
  have hrequest : 1 ≤ if flags.requestCpuThreadNum = 0 then coreNum.toUInt64.toInt64 else flags.requestCpuThreadNum := by
    split
    · exact one_le_ofCores hcore
    · exact (one_le_iff_ne_zero hflags.requestCpuThreadNum).mpr ‹_›
  have hheavy : (1 ≤ if flags.tfThreadNum = 0 then half (threadNum coreNum flags) else threadNum coreNum flags) ↔
      (flags.tfThreadNum = 0 → 2 ≤ threadNum coreNum flags) := by
    split
    · rename_i ht
      rw [hhalf.2]
      exact ⟨fun h _ => h, fun h => h ht⟩
    · rename_i ht
      exact iff_of_true hthreads fun h => absurd h ht
  rw [serves_iff_counts, start_flags hpos]
  simp only [hrequest, hheavy, true_and]
  have htasks : tasksNum coreNum flags = if flags.featureExtractTasksNum = 0 then
      (if flags.tfThreadNum = 0 then half (threadNum coreNum flags) else threadNum coreNum flags)
      else flags.featureExtractTasksNum := by
    simp only [tasksNum, ite_not]
  constructor
  · rintro ⟨-, htwo, hmin, hint⟩
    exact ⟨htwo, hmin, htasks ▸ hint⟩
  · intro h
    refine ⟨?_, h.twoThreads, h.minItems, htasks ▸ h.tasks⟩
    split
    · exact hheavy.mpr h.twoThreads
    · exact (one_le_iff_ne_zero hflags.featureExtractTasksNum).mpr ‹_›

/-! ## A config object -/

theorem setCfgValue_eq_none_iff {coreNum : UInt32} {configObject : FinMap String Value} {s : State} {cfg : Cfg} :
    setCfgValue coreNum configObject s cfg = none ↔ Throws configObject cfg := by
  unfold setCfgValue Throws
  cases hl : configObject.lookup cfg.ratioName with
  | none => simp
  | some ratio => cases ratio <;> simp [Value.isNumber, Value.asDouble]

theorem scale_finite_eq_zero_iff (coreNum : UInt32) (q : ℚ) :
    scale coreNum (.finite q) = 0 ↔ |(coreNum.toNat : ℚ) * q| < 1 - 1 / 2 ^ 54 := by
  rw [← truncate_roundTo_eq_zero_iff (p := 53) (by norm_num), scale]
  split
  · rename_i h
    rw [← Int32.toInt_inj, Int32.toInt_ofInt_of_le (by omega) (by omega)]
    rfl
  · exact iff_of_false (by decide) (by omega)

theorem lessThanOneCore_iff {coreNum : UInt32} {configObject : FinMap String Value} {cfg : Cfg} {ratio : Value} {x : Double}
    (hl : configObject.lookup cfg.ratioName = some ratio) (hx : ratio.asDouble = some x) :
    LessThanOneCore coreNum configObject cfg ↔ scale coreNum x = 0 := by
  constructor
  · rintro ⟨ratio', q, hl', hq, hlt⟩
    obtain rfl : ratio = ratio' := Option.some.inj (hl.symm.trans hl')
    obtain rfl : x = .finite q := Option.some.inj (hx.symm.trans hq)
    exact (scale_finite_eq_zero_iff coreNum q).mpr hlt
  · intro hzero
    cases x with
    | finite q => exact ⟨ratio, q, hl, hx, (scale_finite_eq_zero_iff coreNum q).mp hzero⟩
    | notFinite => exact absurd (show Int32.minValue = 0 from hzero) (by decide)

/-- A call leaves all as it was, or stores a value that is not negative; a ratio of less
    than one core is always stored. -/
theorem setCfgValue_cases {coreNum : UInt32} {configObject : FinMap String Value} {s t : State} {cfg : Cfg}
    (h : setCfgValue coreNum configObject s cfg = some t) :
    t = s ∧ ¬ LessThanOneCore coreNum configObject cfg ∨
    ∃ ratio value, 0 ≤ value ∧ (value = 0 ↔ LessThanOneCore coreNum configObject cfg) ∧ t = store s cfg ratio value := by
  unfold setCfgValue at h
  cases hl : configObject.lookup cfg.ratioName with
  | none =>
    rw [hl] at h
    refine .inl ⟨(Option.some.inj h).symm, ?_⟩
    rintro ⟨ratio, q, hl', -⟩
    rw [hl] at hl'
    cases hl'
  | some ratio =>
    simp only [hl] at h
    split at h
    · obtain ⟨x, hx, ht⟩ := Option.bind_eq_some_iff.mp h
      have hless : LessThanOneCore coreNum configObject cfg ↔ scale coreNum x = 0 := lessThanOneCore_iff hl hx
      split at ht
      · rename_i hin
        exact .inr ⟨ratio, scale coreNum x, hin.1, hless.symm, (Option.some.inj ht).symm⟩
      · rename_i hout
        refine .inl ⟨(Option.some.inj ht).symm, fun hlt => hout ?_⟩
        rw [hless.mp hlt]
        exact ⟨by decide, UInt32.zero_le⟩
    · rename_i hnum
      refine .inl ⟨(Option.some.inj h).symm, ?_⟩
      rintro ⟨ratio', q, hl', hq, -⟩
      obtain rfl : ratio = ratio' := Option.some.inj (hl.symm.trans hl')
      cases ratio with
      | integer n => exact hnum rfl
      | double x => exact hnum rfl
      | other => cases hq

@[simp] theorem get_set (flags : Flags) (value : Int64) (cfg d : Cfg) :
    (flags.set value cfg).get d = if d = cfg then value else flags.get d := by
  cases cfg <;> cases d <;> rfl

@[simp] theorem set_minItemsPerThread (flags : Flags) (value : Int64) (cfg : Cfg) :
    (flags.set value cfg).minItemsPerThread = flags.minItemsPerThread := by
  cases cfg <;> rfl

section Calls

variable {coreNum : UInt32} {configObject : FinMap String Value}

theorem setCfgValues_minItemsPerThread (s : State) (cfgs : List Cfg) :
    (setCfgValues coreNum configObject s cfgs).flags.minItemsPerThread = s.flags.minItemsPerThread := by
  induction cfgs generalizing s with
  | nil => rfl
  | cons cfg cfgs ih =>
    rw [setCfgValues]
    split
    · rename_i t ht
      rw [ih]
      obtain ⟨rfl, -⟩ | ⟨ratio, value, -, -, rfl⟩ := setCfgValue_cases ht
      · rfl
      · exact set_minItemsPerThread _ _ _
    · rfl

theorem get_setCfgValue_of_ne {s t : State} {cfg d : Cfg} (h : setCfgValue coreNum configObject s cfg = some t)
    (hd : d ≠ cfg) : t.flags.get d = s.flags.get d := by
  obtain ⟨rfl, -⟩ | ⟨ratio, value, -, -, rfl⟩ := setCfgValue_cases h
  · rfl
  · rw [store, get_set, if_neg hd]

theorem get_setCfgValues_of_notMem {s : State} {cfgs : List Cfg} {d : Cfg} (hd : d ∉ cfgs) :
    (setCfgValues coreNum configObject s cfgs).flags.get d = s.flags.get d := by
  induction cfgs generalizing s with
  | nil => rfl
  | cons cfg cfgs ih =>
    obtain ⟨hne, hrest⟩ := not_or.mp (List.mem_cons.not.mp hd)
    rw [setCfgValues]
    split
    · rename_i t ht
      rw [ih hrest, get_setCfgValue_of_ne ht hne]
    · rfl

variable {P : Int64 → Prop} (hP : ∀ value : Int32, 0 ≤ value → (P value.toInt64 ↔ value ≠ 0))

include hP in
/-- What holds of every stored number but zero, and holds before, holds after the calls
    unless a ratio of less than one core is come to. -/
theorem setCfgValues_get_iff {s : State} {before after : List Cfg} {cfg : Cfg} (hnd : (before ++ cfg :: after).Nodup)
    (hs : P (s.flags.get cfg)) :
    P ((setCfgValues coreNum configObject s (before ++ cfg :: after)).flags.get cfg) ↔
      (LessThanOneCore coreNum configObject cfg → ∃ d ∈ before, Throws configObject d) := by
  induction before generalizing s with
  | nil =>
    have hnot : cfg ∉ after := (List.nodup_cons.mp hnd).1
    rw [List.nil_append, setCfgValues]
    split
    · rename_i t ht
      rw [get_setCfgValues_of_notMem hnot]
      obtain ⟨rfl, hless⟩ | ⟨ratio, value, hval, hzero, rfl⟩ := setCfgValue_cases ht
      · exact iff_of_true hs fun h => absurd h hless
      · rw [store, get_set, if_pos rfl, hP value hval, Ne, hzero]
        simp
    · rename_i hnone
      obtain ⟨n, hl, hne⟩ := setCfgValue_eq_none_iff.mp hnone
      refine iff_of_true hs ?_
      rintro ⟨ratio, q, hl', hq, -⟩
      obtain rfl : ratio = .integer n := Option.some.inj (hl'.symm.trans hl)
      rw [Value.asDouble, if_neg hne] at hq
      cases hq
  | cons d before ih =>
    have hne : cfg ≠ d := by
      rintro rfl
      exact (List.nodup_cons.mp hnd).1 (List.mem_append_right _ List.mem_cons_self)
    rw [List.cons_append, setCfgValues]
    split
    · rename_i t ht
      have hthrows : ¬ Throws configObject d := by
        rw [← setCfgValue_eq_none_iff, ht]
        exact Option.some_ne_none t
      rw [ih (List.nodup_cons.mp hnd).2 (by rw [get_setCfgValue_of_ne ht hne]; exact hs)]
      simp [hthrows]
    · rename_i hnone
      exact iff_of_true hs fun _ => ⟨d, List.mem_cons_self, setCfgValue_eq_none_iff.mp hnone⟩

include hP in
theorem order_get_iff {s : State} {before after : List Cfg} {cfg : Cfg} (horder : Cfg.order = before ++ cfg :: after)
    (hs : P (s.flags.get cfg)) :
    P ((setCfgValues coreNum configObject s Cfg.order).flags.get cfg) ↔
      (LessThanOneCore coreNum configObject cfg → ∃ d ∈ before, Throws configObject d) := by
  have hnd : Cfg.order.Nodup := by decide
  rw [horder] at hnd ⊢
  exact setCfgValues_get_iff hP hnd hs

end Calls

theorem toInt64_pos_iff {value : Int32} (h : 0 ≤ value) : 1 ≤ value.toInt64 ↔ value ≠ 0 := by
  rw [Int32.le_iff_toInt_le] at h
  rw [Int64.le_iff_toInt_le, Int32.toInt_toInt64, Ne, ← Int32.toInt_inj]
  have h0 : (0 : Int32).toInt = 0 := rfl
  have h1 : (1 : Int64).toInt = 1 := rfl
  omega

theorem toInt32_toInt64_pos_iff {value : Int32} (h : 0 ≤ value) : 1 ≤ value.toInt64.toInt32 ↔ value ≠ 0 := by
  rw [Int32.le_iff_toInt_le] at h
  rw [Int32.toInt32_toInt64, Int32.le_iff_toInt_le, Ne, ← Int32.toInt_inj]
  have h0 : (0 : Int32).toInt = 0 := rfl
  have h1 : (1 : Int32).toInt = 1 := rfl
  omega

/-- A config object keeps what is served exactly when it resets well. -/
theorem serves_reset_iff {coreNum : UInt32} (hcore : 1 ≤ coreNum) (s : State) (config : Config) (hs : Serves s.flags) :
    Serves (resetServiceConfig coreNum s config).flags ↔ ResetsWell coreNum config := by
  cases config with
  | none => exact iff_of_true hs trivial
  | some configObject =>
    have hne : coreNum ≠ 0 := by
      rintro rfl
      exact absurd hcore (by decide)
    obtain ⟨htasks, hheavy, hrequest, hmin, hint⟩ := (serves_iff_counts _).mp hs
    rw [resetServiceConfig, if_neg hne, serves_iff_counts, setCfgValues_minItemsPerThread]
    constructor
    · rintro ⟨h1, h2, h3, -, -⟩ before cfg after horder hcfg
      cases cfg with
      | featureExtractTasks => exact (order_get_iff (fun _ => toInt64_pos_iff) horder htasks).mp h1
      | tfThread => exact absurd rfl hcfg
      | heavyTasksThread => exact (order_get_iff (fun _ => toInt64_pos_iff) horder hheavy).mp h2
      | requestCpuThread => exact (order_get_iff (fun _ => toInt64_pos_iff) horder hrequest).mp h3
    · intro h
      have ho1 : Cfg.order = [] ++ .featureExtractTasks :: [.tfThread, .heavyTasksThread, .requestCpuThread] := rfl
      have ho2 : Cfg.order = [.featureExtractTasks, .tfThread] ++ .heavyTasksThread :: [.requestCpuThread] := rfl
      have ho3 : Cfg.order = [.featureExtractTasks, .tfThread, .heavyTasksThread] ++ .requestCpuThread :: [] := rfl
      have h1 := h _ _ _ ho1 (by decide)
      refine ⟨?_, ?_, ?_, hmin, ?_⟩
      · exact (order_get_iff (fun _ => toInt64_pos_iff) ho1 htasks).mpr h1
      · exact (order_get_iff (fun _ => toInt64_pos_iff) ho2 hheavy).mpr (h _ _ _ ho2 (by decide))
      · exact (order_get_iff (fun _ => toInt64_pos_iff) ho3 hrequest).mpr (h _ _ _ ho3 (by decide))
      · exact (order_get_iff (P := fun n => 1 ≤ n.toInt32) (fun _ => toInt32_toInt64_pos_iff) ho1 hint).mpr h1

/-- Over every run: the numbers are positive and no items are refused in every state that
    is reached, exactly when the start and every config object are such that they are. -/
theorem counts_stay_positive_iff {coreNum : UInt32} (hcore : 1 ≤ coreNum) {flags : Flags} (hflags : flags.NonNeg)
    (configs : List Config) :
    (∀ before after, configs = before ++ after →
      Serves (before.foldl (resetServiceConfig coreNum) (start coreNum flags)).flags) ↔
    StartsWell coreNum flags ∧ ∀ config ∈ configs, ResetsWell coreNum config := by
  rw [← serves_start_iff hcore hflags]
  exact foldl_prefixes_iff (serves_reset_iff hcore) (start coreNum flags) configs

/-- Half of the cores for heavy tasks. -/
def heavyHalf : FinMap String Value := Finmap.insert "heavy_tasks_thread_ratio" (.double (.finite (1 / 2))) ∅

theorem half_of_sixteen_cores_stays_positive :
    (1 : UInt32) ≤ 16 ∧ ({} : Flags).NonNeg ∧ ∀ before after, [some heavyHalf] = before ++ after →
      Serves (before.foldl (resetServiceConfig 16) (start 16 {})).flags := by
  have hflags : ({} : Flags).NonNeg := ⟨by decide, by decide, by decide, by decide, by decide⟩
  refine ⟨by decide, hflags, (counts_stay_positive_iff (by decide) hflags [some heavyHalf]).mpr ⟨?_, ?_⟩⟩
  · have htasks : tasksNum 16 {} = 8 := half_eq (n := 16) (by decide) (by decide)
    exact ⟨fun _ => by decide, by decide, by rw [htasks]; decide⟩
  · rw [List.forall_mem_singleton]
    rintro before cfg after - - ⟨ratio, q, hl, hq, hlt⟩
    rw [heavyHalf, FinMap.lookup_insert_ite] at hl
    split at hl
    · obtain rfl : ratio = .double (.finite (1 / 2)) := (Option.some.inj hl).symm
      obtain rfl : q = 1 / 2 := (Double.finite.inj (Option.some.inj hq)).symm
      have h16 : (16 : UInt32).toNat = 16 := rfl
      rw [h16] at hlt
      norm_num at hlt
    · cases hl

/-- One core is halved to none, so the tasks are none too. -/
theorem one_core_has_no_tasks :
    ¬ ∀ (coreNum : UInt32) (flags : Flags) (configs : List Config), 1 ≤ coreNum → flags.NonNeg →
      ∀ before after, configs = before ++ after →
        Serves (before.foldl (resetServiceConfig coreNum) (start coreNum flags)).flags := by
  intro h
  have hserves := h 1 {} [] (by decide) ⟨by decide, by decide, by decide, by decide, by decide⟩ [] [] rfl
  have hhalf : half 1 = 0 := half_eq (n := 1) (by decide) (by decide)
  have htasks := hserves.tasks
  rw [List.foldl_nil, start_flags (by decide)] at htasks
  exact absurd (hhalf ▸ htasks) (by decide)

/-! ## The pools and the shown numbers -/

/-- The pools have the numbers of threads that the flags say, and `configs_` shows the
    flags. -/
structure Follows (s : State) : Prop where
  heavyTasksThreadPool : s.heavyTasksThreadPool = s.flags.heavyTasksThreadNum.toUInt64
  cpuThreadPool : s.cpuThreadPool = s.flags.requestCpuThreadNum.toUInt64
  configs : ∀ cfg : Cfg, s.configs.lookup cfg.cfgName = some (.integer (s.flags.get cfg))

theorem lookup_saveConfig (flags : Flags) (configs : FinMap String Value) (cfg : Cfg) :
    (saveConfig flags configs).lookup cfg.cfgName = some (.integer (flags.get cfg)) := by
  cases cfg <;> simp [saveConfig, Cfg.cfgName, Flags.get]

theorem initModelManager_heavyTasksThreadNum (coreNum : UInt32) (flags : Flags) :
    (initModelManager coreNum flags).heavyTasksThreadNum = flags.heavyTasksThreadNum := by
  unfold initModelManager
  split <;> rfl

theorem follows_start (coreNum : UInt32) (flags : Flags) : Follows (start coreNum flags) := by
  unfold start
  constructor
  · simp only [initModelManager_heavyTasksThreadNum]
  · simp only
  · intro cfg
    simp only [lookup_saveConfig]

theorem follows_store {s : State} (h : Follows s) (cfg : Cfg) (ratio : Value) (value : Int32) :
    Follows (store s cfg ratio value) := by
  refine ⟨?_, ?_, fun d => ?_⟩
  · cases cfg with
    | heavyTasksThread => rfl
    | _ => exact h.heavyTasksThreadPool
  · cases cfg with
    | requestCpuThread => rfl
    | _ => exact h.cpuThreadPool
  · have hname : (d.cfgName = cfg.cfgName) = (d = cfg) := by cases d <;> cases cfg <;> decide
    have hratio : d.cfgName ≠ cfg.ratioName := by cases d <;> cases cfg <;> decide
    rw [store, FinMap.lookup_insert_ite, FinMap.lookup_insert_ite, if_neg hratio, get_set]
    simp only [hname]
    split
    · rfl
    · exact h.configs d

theorem follows_setCfgValues {coreNum : UInt32} {configObject : FinMap String Value} {s : State} (h : Follows s)
    (cfgs : List Cfg) : Follows (setCfgValues coreNum configObject s cfgs) := by
  induction cfgs generalizing s with
  | nil => exact h
  | cons cfg cfgs ih =>
    rw [setCfgValues]
    split
    · rename_i t ht
      obtain ⟨rfl, -⟩ | ⟨ratio, value, -, -, rfl⟩ := setCfgValue_cases ht
      · exact ih h
      · exact ih (follows_store h cfg ratio value)
    · exact h

/-- Over every run, an exception in the middle of a config object included. -/
theorem pools_follow_flags (coreNum : UInt32) (flags : Flags) (configs : List Config) :
    Follows (configs.foldl (resetServiceConfig coreNum) (start coreNum flags)) := by
  refine List.foldlRecOn configs _ (follows_start coreNum flags) fun s hs config _ => ?_
  cases config with
  | none => exact hs
  | some configObject =>
    rw [resetServiceConfig]
    split
    · exact hs
    · exact follows_setCfgValues hs Cfg.order

end PredictorService.Server.ThreadCounts
