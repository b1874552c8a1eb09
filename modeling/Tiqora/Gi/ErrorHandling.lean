import Mathlib.Algebra.Ring.Nat
import Mathlib.Data.List.Basic
import Mathlib.Data.Nat.Log
import Tiqora.Foundation.Guarded

namespace Tiqora.Gi.ErrorHandling

open Foundation

/-- A value of a module's configuration: none, a list or a dictionary, or what `perl_str` prints. -/
inductive Param
  | null
  | container
  | scalar (text : String)
  deriving DecidableEq

/-- A message of the configuration check, or an exception that nothing catches. -/
inductive Failure
  | config (message : String)
  | crash
  deriving DecidableEq

structure PastExecutionData where
  initialRequestAt : ℕ
  retryCount : ℕ
  retryInterval : Option ℕ
  retryAt : Option ℕ
  deriving DecidableEq

/-- What the invoker's log keeps of a decision. -/
structure RetryData where
  reSchedule : Bool
  initialRequest : ℕ
  currentRequest : ℕ
  currentRetryCount : ℕ
  maximumRetryCountReached : Bool
  maximumRetryPeriodReached : Bool
  deriving DecidableEq

structure RetryDecision where
  reschedule : Bool
  executionTime : Option ℕ
  past : Option PastExecutionData
  data : RetryData
  deriving DecidableEq

abbrev Config := List (String × Param)

def Config.get (config : Config) (name : String) : Param := (config.lookup name).getD .null

/-- The normalised values of a configuration. -/
structure Values where
  scheduleRetry : String
  retryIntervalStart : String
  retryIntervalFactor : String
  retryIntervalMax : String
  retryCountMax : String
  retryPeriodMax : String
  deriving DecidableEq

def requiredValue (config : Config) (name : String) : Except Failure String :=
  match config.get name with
  | .scalar text =>
    if text ≠ "" then .ok text
    else .error (.config s!"Config param '{name}' is not a non-empty string!")
  | _ => .error (.config s!"Config param '{name}' is not a non-empty string!")

def optionalValue (config : Config) (name : String) : Except Failure String :=
  match config.get name with
  | .null => .ok ""
  | .container => .error (.config s!"Config param '{name}' is not a string!")
  | .scalar text => .ok text

def isPositiveInt (text : String) : Bool :=
  match text.toList with
  | c :: cs => '1' ≤ c && c ≤ '9' && cs.all Char.isDigit
  | [] => false

/-- A number of the configuration: empty, positive, or where it is allowed zero. -/
def isNumber (zero : Bool) (text : String) : Bool :=
  text = "" || isPositiveInt text || zero && text = "0"

/-- `_ModuleConfigCheck`. -/
def checkModuleConfig (config : Config) : Except Failure Values := do
  let scheduleRetry ← requiredValue config "ScheduleRetry"
  let retryIntervalStart ← requiredValue config "RetryIntervalStart"
  let retryIntervalFactor ← requiredValue config "RetryIntervalFactor"
  let retryIntervalMax ← optionalValue config "RetryIntervalMax"
  let retryCountMax ← optionalValue config "RetryCountMax"
  let retryPeriodMax ← optionalValue config "RetryPeriodMax"
  require (scheduleRetry = "0" ∨ scheduleRetry = "1")
    (.config "Config param 'ScheduleRetry' is not '0' or '1'!")
  require (retryIntervalFactor = "1" ∨ retryIntervalFactor = "1.5" ∨ retryIntervalFactor = "2")
    (.config "Config param 'RetryIntervalFactor' is not '1', '1.5' or '2'!")
  require (isNumber true retryIntervalStart = true)
    (.config "Config param 'RetryIntervalStart' is not '0' or a positive integer!")
  require (isNumber true retryIntervalMax = true)
    (.config "Config param 'RetryIntervalMax' is not empty, '0' or a positive integer!")
  require (isNumber false retryCountMax = true)
    (.config "Config param 'RetryCountMax' is not empty or a positive integer!")
  require (isNumber false retryPeriodMax = true)
    (.config "Config param 'RetryPeriodMax' is not empty or a positive integer!")
  return {
    scheduleRetry, retryIntervalStart, retryIntervalFactor, retryIntervalMax, retryCountMax
    retryPeriodMax }

/-- `int` of a text of digits, which must not be longer than 4300. -/
def int (text : String) : Except Failure ℕ :=
  if 4300 < text.toList.length then .error .crash
  else .ok (text.toList.foldl (fun n c ↦ 10 * n + (c.toNat - 48)) 0)

/-- A number to 53 binary digits, half to even. -/
def round53 (n : ℕ) : ℕ :=
  if n < 2 ^ 53 then n
  else
    let unit := 2 ^ (n.log2 - 52)
    let q := n / unit
    let r := n % unit
    if 2 * r < unit ∨ 2 * r = unit ∧ q % 2 = 0 then q * unit else (q + 1) * unit

/-- Floats end below this power of two. -/
def maxExponent : ℕ := 1024

/-- The float of a number. -/
def float (n : ℕ) : Except Failure ℕ :=
  if 2 ^ maxExponent ≤ round53 n then .error .crash else .ok (round53 n)

/-- `int(interval * float(factor))`. -/
def scale (interval : ℕ) (factor : String) : Except Failure ℕ := do
  let x ← float interval
  if factor = "1.5" then
    let twice := round53 (3 * x)
    require (twice < 2 ^ (maxExponent + 1)) .crash
    return twice / 2
  else if factor = "2" then
    require (2 * x < 2 ^ maxExponent) .crash
    return 2 * x
  else return x

/-- The last second of a `datetime`, in seconds of the epoch. -/
def maxTime : ℕ := 253402300799

def addSeconds (moment seconds : ℕ) : Except Failure ℕ :=
  if moment + seconds ≤ maxTime then .ok (moment + seconds) else .error .crash

def reloadInterval : Option ℕ → Except Failure (Option ℕ)
  | none => .ok none
  | some interval => (float interval).map some

/-- The data as the next job reads it: its numbers went through their text and a float. -/
def PastExecutionData.reload (past : PastExecutionData) : Except Failure PastExecutionData := do
  let retryInterval ← reloadInterval past.retryInterval
  let retryCount ← float past.retryCount
  return { past with retryInterval, retryCount }

/-- The interval up to the next retry. -/
def nextInterval (values : Values) (past : Option PastExecutionData) : Except Failure ℕ :=
  match past.bind (·.retryInterval) with
  | some interval => do
    let scaled ← scale interval values.retryIntervalFactor
    if values.retryIntervalMax = "" then return scaled
    let max ← int values.retryIntervalMax
    return if max < scaled then max else scaled
  | none => int values.retryIntervalStart

def plannedTarget (initial current interval periodMax : ℕ) : Except Failure ℕ :=
  if periodMax ≠ 0 ∧ periodMax ≤ (current - initial) + (initial - current) + interval then
    addSeconds initial periodMax
  else addSeconds current interval

/-- A second after the request at the earliest. -/
def afterNow (now target : ℕ) : Except Failure ℕ :=
  if target ≤ now then addSeconds now 1 else .ok target

/-- An empty number counts as none, and so does zero. -/
def limit (text : String) : Except Failure ℕ := if text = "" then .ok 0 else int text

/-- `ErrorHandling::RequestRetry::Run`. -/
def requestRetry (config : Config) (past : Option PastExecutionData) (now : ℕ) :
    Except Failure RetryDecision := do
  require (config ≠ []) (.config "Got no ModuleConfig!")
  let values ← checkModuleConfig config
  let retryCount := (past.map (·.retryCount)).getD 0
  let current := (past.bind (·.retryAt)).getD now
  let initial := (past.map (·.initialRequestAt)).getD now
  let data : RetryData := {
    reSchedule := false, initialRequest := initial, currentRequest := current
    currentRetryCount := retryCount
    maximumRetryCountReached := false, maximumRetryPeriodReached := false }
  if values.scheduleRetry = "0" then return ⟨false, none, none, data⟩
  let countMax ← limit values.retryCountMax
  if countMax ≠ 0 ∧ countMax ≤ retryCount then
    return ⟨false, none, none, { data with maximumRetryCountReached := true }⟩
  let periodMax ← limit values.retryPeriodMax
  let delta := (current - initial) + (initial - current)
  if periodMax ≠ 0 ∧ periodMax ≤ delta then
    return ⟨false, none, none, { data with maximumRetryPeriodReached := true }⟩
  let interval ← nextInterval values past
  let planned ← plannedTarget initial current interval periodMax
  let target ← afterNow now planned
  return ⟨true, some target, some ⟨initial, retryCount + 1, some interval, some target⟩,
    { data with reSchedule := true }⟩

structure ErrorHandlingModule where
  key : String
  type : String
  invokerFilter : List String
  errorStageFilter : List String
  errorMessageContentFilter : Option String
  stopAfterMatch : Option String
  config : Config

structure HandleErrorResult where
  errorMessage : String
  reschedule : Option RetryDecision
  moduleData : List (Config × RetryData × String)

/-- A failure as the modules see it. -/
structure RequestError where
  invoker : String
  errorStage : String
  summary : String
  hasData : Bool
  /-- Whether a pattern is found in the summary or the data: not where it is broken or slow. -/
  contentMatches : String → Bool

/-- `!$value` of a text. -/
def missing (text : String) : Bool := text = "" || text = "0"

namespace ErrorHandlingModule

def matchesError (module : ErrorHandlingModule) (error : RequestError) : Bool :=
  (module.invokerFilter = [] || error.invoker ≠ "" && error.invoker ∈ module.invokerFilter) &&
    (module.errorStageFilter = [] || error.errorStage ∈ module.errorStageFilter) &&
    module.errorMessageContentFilter.all fun pattern ↦ pattern = "" || error.contentMatches pattern

end ErrorHandlingModule

/-- The modules in turn: the last decision counts, and a broken configuration ends it without
one. -/
def runModules (error : RequestError) (past : Option PastExecutionData) (now : ℕ) :
    List ErrorHandlingModule → List String → List (Config × RetryData × String) →
      Option RetryDecision → Except Failure HandleErrorResult
  | [], _, moduleData, decision => .ok ⟨error.summary, decision, moduleData⟩
  | module :: rest, stopped, moduleData, decision =>
    if module.type ∈ stopped ∨ module.type ≠ "RequestRetry" ∨ module.matchesError error = false then
      runModules error past now rest stopped moduleData decision
    else
      match requestRetry module.config past now with
      | .error .crash => .error .crash
      | .error (.config message) => .ok ⟨message, none, []⟩
      | .ok result =>
        let moduleData := moduleData ++ [(module.config, result.data, module.key)]
        if module.stopAfterMatch = some "all" then .ok ⟨error.summary, some result, moduleData⟩
        else
          let stopped :=
            if module.stopAfterMatch = some "backend" then module.type :: stopped else stopped
          runModules error past now rest stopped moduleData (some result)

/-- `ErrorHandling::HandleError`. -/
def handleError (modules : List ErrorHandlingModule) (error : RequestError)
    (past : Option PastExecutionData) (now : ℕ) : Except Failure HandleErrorResult :=
  if missing error.errorStage then .ok ⟨"Got no ErrorStage!", none, []⟩
  else if missing error.summary then .ok ⟨"Got no Summary!", none, []⟩
  else if !error.hasData then .ok ⟨"Got no Data!", none, []⟩
  else runModules error past now modules [] [] none

theorem lt_two_pow_of_le {n a b : ℕ} (h : n < 2 ^ a) (hab : a ≤ b) : n < 2 ^ b :=
  h.trans_le (Nat.pow_le_pow_right Nat.two_pos hab)

theorem float_of_lt {n : ℕ} (h : n < 2 ^ 53) : float n = .ok n := by
  have hround : round53 n = n := if_pos h
  rw [float, hround, if_neg (not_le.2 (lt_two_pow_of_le h (by decide)))]

/-- A plan for a retry: later than now, one more on the count, within the limits. -/
structure Planned (values : Values) (past : Option PastExecutionData) (now : ℕ)
    (next : PastExecutionData) (target : ℕ) : Prop where
  later : now < target
  at_target : next.retryAt = some target
  initial : next.initialRequestAt = (past.map (·.initialRequestAt)).getD now
  count : next.retryCount = (past.map (·.retryCount)).getD 0 + 1
  allowed : ∃ max, limit values.retryCountMax = .ok max ∧
    (max ≠ 0 → (past.map (·.retryCount)).getD 0 < max)
  period : ∀ max, limit values.retryPeriodMax = .ok max → max ≠ 0 →
    target ≤ next.initialRequestAt + max ∨ target = now + 1

theorem addSeconds_eq_ok {moment seconds target : ℕ} (h : addSeconds moment seconds = .ok target) :
    target = moment + seconds := by
  rw [addSeconds] at h
  split at h
  · cases h
    rfl
  · cases h

theorem plannedTarget_le {initial current interval periodMax target : ℕ}
    (h : plannedTarget initial current interval periodMax = .ok target) (hmax : periodMax ≠ 0) :
    target ≤ initial + periodMax := by
  rw [plannedTarget] at h
  split at h
  · exact (addSeconds_eq_ok h).le
  · rename_i hshort
    have heq := addSeconds_eq_ok h
    have hlt : current - initial + (initial - current) + interval < periodMax :=
      not_le.1 fun hle ↦ hshort ⟨hmax, hle⟩
    omega

theorem afterNow_spec {now planned target : ℕ} (h : afterNow now planned = .ok target) :
    now < target ∧ (target = planned ∨ target = now + 1) := by
  rw [afterNow] at h
  split at h
  · have heq := addSeconds_eq_ok h
    exact ⟨by omega, .inr heq⟩
  · cases h
    exact ⟨by omega, .inl rfl⟩

theorem requestRetry_planned {config : Config} {past : Option PastExecutionData} {now : ℕ}
    {d : RetryDecision} (h : requestRetry config past now = .ok d) (hd : d.reschedule = true) :
    ∃ values next target, checkModuleConfig config = .ok values ∧ d.past = some next ∧
      d.executionTime = some target ∧ Planned values past now next target := by
  obtain ⟨-, h⟩ := require_bind_eq_ok.1 h
  obtain ⟨values, hvalues, h⟩ := bind_eq_ok.1 h
  simp only at h
  split at h
  · cases h
    cases hd
  obtain ⟨countMax, hcountMax, h⟩ := bind_eq_ok.1 h
  split at h
  · cases h
    cases hd
  rename_i hcount
  obtain ⟨periodMax, hperiodMax, h⟩ := bind_eq_ok.1 h
  split at h
  · cases h
    cases hd
  rename_i hperiod
  obtain ⟨interval, hinterval, h⟩ := bind_eq_ok.1 h
  obtain ⟨planned, hplanned, h⟩ := bind_eq_ok.1 h
  obtain ⟨target, htarget, h⟩ := bind_eq_ok.1 h
  cases h
  obtain ⟨hlater, hmoved⟩ := afterNow_spec htarget
  refine ⟨values, _, target, hvalues, rfl, rfl, hlater, rfl, rfl, rfl,
    ⟨countMax, hcountMax, fun hne ↦ ?_⟩, fun max hmax hne ↦ hmoved.imp_left fun heq ↦ ?_⟩
  · exact not_le.1 fun hle ↦ hcount ⟨hne, hle⟩
  · cases hmax.symm.trans hperiodMax
    exact heq ▸ plannedTarget_le hplanned hne

/-- The decision that counts is one of a module's. -/
theorem runModules_decision {error : RequestError} {past : Option PastExecutionData} {now : ℕ}
    {modules : List ErrorHandlingModule} {stopped : List String}
    {moduleData : List (Config × RetryData × String)} {decision : Option RetryDecision}
    {result : HandleErrorResult} {d : RetryDecision}
    (h : runModules error past now modules stopped moduleData decision = .ok result)
    (hd : result.reschedule = some d) :
    decision = some d ∨
      ∃ module ∈ modules, module.type = "RequestRetry" ∧ requestRetry module.config past now = .ok d := by
  induction modules generalizing stopped moduleData decision with
  | nil =>
    cases h
    exact .inl hd
  | cons module rest ih =>
    have hrest {stopped moduleData decision}
        (h : runModules error past now rest stopped moduleData decision = .ok result) :
        decision = some d ∨ ∃ module' ∈ module :: rest, module'.type = "RequestRetry" ∧
          requestRetry module'.config past now = .ok d :=
      (ih h).imp_right fun ⟨module', hmem, hrun⟩ ↦ ⟨module', List.mem_cons_of_mem _ hmem, hrun⟩
    rw [runModules] at h
    split at h
    · exact hrest h
    · rename_i hskip
      have htype : module.type = "RequestRetry" := by
        by_contra hne
        exact hskip (.inr (.inl hne))
      split at h
      · cases h
      · cases h
        cases hd
      · rename_i d' hd'
        simp only at h
        have hhere : some d' = some d → decision = some d ∨ ∃ module' ∈ module :: rest,
            module'.type = "RequestRetry" ∧ requestRetry module'.config past now = .ok d := by
          intro heq
          cases heq
          exact .inr ⟨module, List.mem_cons_self, htype, hd'⟩
        split at h
        · cases h
          exact hhere hd
        · exact (hrest h).elim hhere .inr

theorem handleError_decision {modules : List ErrorHandlingModule} {error : RequestError}
    {past : Option PastExecutionData} {now : ℕ} {result : HandleErrorResult} {d : RetryDecision}
    (h : handleError modules error past now = .ok result) (hd : result.reschedule = some d) :
    ∃ module ∈ modules, module.type = "RequestRetry" ∧
      requestRetry module.config past now = .ok d := by
  rw [handleError] at h
  split at h
  · cases h
    cases hd
  split at h
  · cases h
    cases hd
  split at h
  · cases h
    cases hd
  · rcases runModules_decision h hd with hnone | hmodule
    · cases hnone
    · exact hmodule

end Tiqora.Gi.ErrorHandling
