import AgsCli.Extend.CsmApi
import AgsCli.Support.Decimals
import Mathlib.Algebra.Order.Floor.Div

/-! # Waiting for an app

The `--wait` flags of the lifecycle shims and the loop behind them: sleep, look the app up, decide,
until a lookup is decisive or the limit is used up. -/
namespace AppWait

open Json Http Strings PathTemplate CsmApi

structure WaitSpec where
  successStates : List String
  failureStates : List String
  notFoundIsSuccess : Bool
  guardByDeploymentId : Bool
  successMessage : String
  failedMessage : String
  timeoutMessage : String

def createAppWait : WaitSpec where
  successStates := ["app-undeployed"]
  failureStates := ["app-creation-failed", "app-creation-timeout"]
  notFoundIsSuccess := false
  guardByDeploymentId := false
  successMessage := "app created and ready"
  failedMessage := "app creation failed"
  timeoutMessage := "timeout waiting for app to be created"

def deployAppWait : WaitSpec where
  successStates := ["deployment-running"]
  failureStates := ["deployment-failed", "deployment-timeout", "deployment-down"]
  notFoundIsSuccess := false
  guardByDeploymentId := true
  successMessage := "app deployed and running"
  failedMessage := "deployment failed"
  timeoutMessage := "timeout waiting for deployment"

def startAppWait : WaitSpec where
  successStates := ["deployment-running"]
  failureStates := ["deployment-failed", "deployment-timeout", "deployment-down"]
  notFoundIsSuccess := false
  guardByDeploymentId := false
  successMessage := "app started"
  failedMessage := "start failed"
  timeoutMessage := "timeout waiting for app to start"

def stopAppWait : WaitSpec where
  successStates := ["app-stopped"]
  failureStates := ["app-stop-failed", "app-stop-timeout"]
  notFoundIsSuccess := false
  guardByDeploymentId := false
  successMessage := "app stopped"
  failedMessage := "stop failed"
  timeoutMessage := "timeout waiting for app to stop"

def deleteAppWait : WaitSpec where
  successStates := ["app-removed"]
  failureStates := ["app-remove-timeout"]
  notFoundIsSuccess := true
  guardByDeploymentId := false
  successMessage := "app deleted"
  failedMessage := "delete failed"
  timeoutMessage := "timeout waiting for app to be deleted"

def WaitSpec.Disjoint (spec : WaitSpec) : Prop :=
  ∀ state ∈ spec.successStates, state ∉ spec.failureStates

theorem specs_disjoint : ∀ spec ∈ [createAppWait, deployAppWait, startAppWait, stopAppWait,
    deleteAppWait], spec.Disjoint := by
  unfold WaitSpec.Disjoint
  decide

structure AppState where
  appStatus : String
  deploymentId : Option String
  deriving DecidableEq, Repr

inductive AppLookup
  | found (state : AppState)
  | notFound
  deriving DecidableEq, Repr

def csmAppNotFoundCode : Int := 13102

/-- `AppItem`. A JSON array, which the derived reader takes field by field, is not read here. -/
def readAppItem (body : Value) : Option AppState :=
  match body with
  | .object members => do
    let appStatus ← match Value.get? (.object members) "appStatus" with
      | none => some ""
      | some v => v.asStr?
    let deploymentId ← optionField (.object members) "deploymentId" Value.asStr?
    return ⟨appStatus, deploymentId⟩
  | _ => none

def getAppStatus (client : CsmClient) (baseUrl accessToken namespace_ app : String) :
    Except CliError AppLookup :=
  match encodeUrlPathSegment namespace_ "namespace", encodeUrlPathSegment app "app" with
  | .error e, _ => .error (.ofRuntime e)
  | .ok _, .error e => .error (.ofRuntime e)
  | .ok encodedNs, .ok encodedApp =>
    let url := trimEndMatches '/' baseUrl ++
      s!"/csm/v5/admin/namespaces/{encodedNs}/apps/{encodedApp}"
    match client.send (getRequest url accessToken []) with
    | .error e => .error (.network s!"failed to get CSM app status for '{app}': {e}"
        (some (.withSuggestion "Check your network connection and base URL")))
    | .ok reply =>
      if isSuccess reply.status then
        match (reply.body.bind client.readJson).bind readAppItem with
        | none => .error (.api s!"failed to parse CSM GetAppV5 response: {client.decodeError}" none
            .upstream)
        | some state => .ok (.found state)
      else
        let body := reply.body.getD ""
        -- only CSM's own answer proves that the app is gone
        if reply.status = 404 ∧ csmErrorCode client body = some csmAppNotFoundCode then
          .ok .notFound
        else .error (.api (s!"CSM GetAppV5 returned HTTP {client.statusText reply.status} " ++
            s!"for app '{app}' in namespace '{namespace_}'" ++ extractCsmErrorDetail client body)
          (some (.withSuggestion "Check the namespace, app name, and your permissions")) .upstream)

inductive PollDecision
  | continue
  | succeeded
  | failed (status : String)
  deriving DecidableEq, Repr

def isReportingOtherDeployment : Option String → Option String → Bool
  | some expected, some current => expected ≠ current
  | _, _ => false

def evaluate (lookup : AppLookup) (spec : WaitSpec) (expectedDeploymentId : Option String) :
    PollDecision :=
  match lookup with
  | .notFound => if spec.notFoundIsSuccess then .succeeded else .continue
  | .found state =>
    if isReportingOtherDeployment expectedDeploymentId state.deploymentId then .continue
    else if spec.successStates.contains state.appStatus then .succeeded
    else if spec.failureStates.contains state.appStatus then .failed state.appStatus
    else .continue

/-- A `u64` difference; none is an underflow. -/
def checkedSub (a b : Nat) : Option Nat := if b ≤ a then some (a - b) else none

/-- A `u64` sum; none is an overflow. -/
def checkedAdd (a b : Nat) : Option Nat := if a + b < 2 ^ 64 then some (a + b) else none

def nextPollStep (interval elapsed limit : Nat) : Option Nat :=
  (checkedSub limit elapsed).map (min interval)

/-- The seconds slept before each poll, the lines written, and the result; no result is an integer
that left its range. -/
structure WaitRun where
  slept : List Nat
  lines : List String
  result : Option (Except CliError Unit)
  deriving DecidableEq

section Waiting

variable (lookups : Nat → Except CliError AppLookup) (spec : WaitSpec)
  (expectedDeploymentId : Option String) (interval limit : Nat)

/-- The loop; the number of polls so far is that of the sleeps. Nothing when the fuel runs out. -/
def waitLoop : Nat → Nat → List Nat → List String → Option WaitRun
  | 0, _, _, _ => none
  | fuel + 1, elapsed, slept, lines =>
    if elapsed < limit then
      match nextPollStep interval elapsed limit with
      | none => some ⟨slept, lines, none⟩
      | some step =>
        match checkedAdd elapsed step with
        | none => some ⟨slept ++ [step], lines, none⟩
        | some elapsed =>
          match lookups slept.length with
          | .ok lookup =>
            match evaluate lookup spec expectedDeploymentId with
            | .succeeded => some ⟨slept ++ [step], lines ++ [spec.successMessage], some (.ok ())⟩
            | .failed status =>
              some ⟨slept ++ [step], lines,
                some (.error (.api s!"{spec.failedMessage}: {status}" none .upstream))⟩
            | .continue => waitLoop fuel elapsed (slept ++ [step]) (lines ++ ["waiting..."])
          | .error _ => waitLoop fuel elapsed (slept ++ [step]) (lines ++ ["waiting..."])
    else some ⟨slept, lines ++ ["wait limit exceeded, stopping..."],
      some (.error (.api spec.timeoutMessage none .timeout))⟩

def waitUntilAppReaches (fuel : Nat) : Option WaitRun :=
  waitLoop lookups spec expectedDeploymentId interval limit fuel 0 [] []

end Waiting

def defaultWaitIntervalSecs : Nat := 10

def defaultWaitLimitSecs : Nat := 600

structure ParsedWaitFlags where
  wait : Bool
  interval : Nat
  intervalExplicit : Bool
  limit : Nat
  app : Option String
  rest : List String
  deriving DecidableEq, Repr

def parseSecs (flag raw : String) : Except CliError Nat :=
  match parseUsize raw.toList with
  | some secs => .ok secs
  | none => .error (.usage s!"{flag} expects a non-negative integer, got '{raw}'" none)

def setSecs (flags : ParsedWaitFlags) (flag raw : String) : Except CliError ParsedWaitFlags :=
  match parseSecs flag raw with
  | .error e => .error e
  | .ok secs =>
    if flag = "--wait-interval" then
      .ok { flags with interval := secs, intervalExplicit := true }
    else .ok { flags with limit := secs }

/-- An argument that is passed on; the app's name is read off it. -/
def forward (flags : ParsedWaitFlags) (arg : String) (next : Option String) : ParsedWaitFlags :=
  let app :=
    if arg = "--app" ∨ arg = "-a" then next.orElse fun _ => flags.app
    else (stripPrefix? "--app=" arg).orElse fun _ => flags.app
  { flags with app := app, rest := flags.rest ++ [arg] }

def parseArgs : List String → ParsedWaitFlags → Except CliError ParsedWaitFlags
  | [], flags => .ok flags
  | arg :: args, flags =>
    if arg = "--wait" then parseArgs args { flags with wait := true }
    else if arg = "--wait-interval" ∨ arg = "--wait-limit" then
      match args with
      | [] => .error (.usage s!"{arg} requires a value" none)
      | raw :: args =>
        match setSecs flags arg raw with
        | .error e => .error e
        | .ok flags => parseArgs args flags
    else match stripPrefix? "--wait-interval=" arg with
      | some raw =>
        match setSecs flags "--wait-interval" raw with
        | .error e => .error e
        | .ok flags => parseArgs args flags
      | none =>
        match stripPrefix? "--wait-limit=" arg with
        | some raw =>
          match setSecs flags "--wait-limit" raw with
          | .error e => .error e
          | .ok flags => parseArgs args flags
        | none => parseArgs args (forward flags arg args.head?)

def parseWaitFlags (userArgs : List String) : Except CliError ParsedWaitFlags :=
  match parseArgs userArgs
      ⟨false, defaultWaitIntervalSecs, false, defaultWaitLimitSecs, none, []⟩ with
  | .error e => .error e
  | .ok flags =>
    if flags.interval = 0 then
      .error (.usage "--wait-interval must be greater than 0" none)
    else if flags.limit = 0 then
      .error (.usage "--wait-limit must be greater than 0" none)
    else if flags.interval > flags.limit then
      let display := if flags.intervalExplicit then s!"{flags.interval}s"
        else s!"{flags.interval}s, the default"
      .error (.usage (s!"--wait-interval ({display}) must not be greater than " ++
        s!"--wait-limit ({flags.limit}s); pass a smaller --wait-interval or a larger " ++
        "--wait-limit") none)
    else .ok flags

def OtherDeployment (expected current : Option String) : Prop :=
  ∃ e c, expected = some e ∧ current = some c ∧ e ≠ c

def Succeeds (spec : WaitSpec) (expected : Option String) : Except CliError AppLookup → Prop
  | .ok .notFound => spec.notFoundIsSuccess = true
  | .ok (.found state) =>
    state.appStatus ∈ spec.successStates ∧ ¬ OtherDeployment expected state.deploymentId
  | .error _ => False

def Fails (spec : WaitSpec) (expected : Option String) (status : String) :
    Except CliError AppLookup → Prop
  | .ok (.found state) => state.appStatus = status ∧ status ∈ spec.failureStates ∧
    ¬ OtherDeployment expected state.deploymentId
  | _ => False

def Decisive (spec : WaitSpec) (expected : Option String) (poll : Except CliError AppLookup) :
    Prop :=
  Succeeds spec expected poll ∨ ∃ status, Fails spec expected status poll

def decision (spec : WaitSpec) (expected : Option String) : Except CliError AppLookup → PollDecision
  | .ok lookup => evaluate lookup spec expected
  | .error _ => .continue

section Decisions

variable {spec : WaitSpec} {expected : Option String} {poll : Except CliError AppLookup}

theorem isReportingOtherDeployment_iff {current : Option String} :
    isReportingOtherDeployment expected current = true ↔ OtherDeployment expected current := by
  cases expected <;> cases current <;> simp [isReportingOtherDeployment, OtherDeployment]

theorem not_decisive_of_other {state : AppState}
    (hother : OtherDeployment expected state.deploymentId) :
    ¬ Decisive spec expected (.ok (.found state)) := by
  rintro (⟨-, hsame⟩ | ⟨status, -, -, hsame⟩)
  · exact hsame hother
  · exact hsame hother

theorem decision_succeeded_iff :
    decision spec expected poll = .succeeded ↔ Succeeds spec expected poll := by
  cases poll with
  | error e => simp [decision, Succeeds]
  | ok lookup =>
    cases lookup with
    | notFound => simp [decision, evaluate, Succeeds]
    | found state =>
      simp only [decision, evaluate, Succeeds, ← isReportingOtherDeployment_iff]
      split_ifs <;> simp_all

theorem decision_failed_iff (hdisjoint : spec.Disjoint) {status : String} :
    decision spec expected poll = .failed status ↔ Fails spec expected status poll := by
  cases poll with
  | error e => simp [decision, Fails]
  | ok lookup =>
    cases lookup with
    | notFound =>
      simp only [decision, evaluate, Fails]
      split_ifs <;> simp
    | found state =>
      have hapart := hdisjoint state.appStatus
      simp only [decision, evaluate, Fails, ← isReportingOtherDeployment_iff]
      split_ifs with hother hsuccess hfailure
      · simp [hother]
      · rw [List.contains_iff_mem] at hsuccess
        simp only [false_iff, not_and]
        rintro rfl hmem
        exact absurd hmem (hapart hsuccess)
      · rw [List.contains_iff_mem] at hfailure
        rw [PollDecision.failed.injEq]
        constructor
        · rintro rfl
          exact ⟨rfl, hfailure, hother⟩
        · exact fun h => h.1
      · rw [List.contains_iff_mem] at hfailure
        simp only [false_iff, not_and]
        rintro rfl hmem
        exact absurd hmem hfailure

theorem decision_continue_iff (hdisjoint : spec.Disjoint) :
    decision spec expected poll = .continue ↔ ¬ Decisive spec expected poll := by
  rw [Decisive, ← decision_succeeded_iff]
  simp only [← decision_failed_iff hdisjoint]
  cases decision spec expected poll <;> simp

end Decisions

def FirstDecisive (lookups : Nat → Except CliError AppLookup) (spec : WaitSpec)
    (expected : Option String) (k : Nat) : Prop :=
  Decisive spec expected (lookups k) ∧ ∀ j < k, ¬ Decisive spec expected (lookups j)

structure OnTime (lookups : Nat → Except CliError AppLookup) (spec : WaitSpec)
    (expected : Option String) (interval limit : Nat) (run : WaitRun) : Prop where
  polls : run.slept.length ≤ limit ⌈/⌉ interval
  slept : run.slept.sum ≤ limit
  inRange : run.result ≠ none
  succeeded : run.result = some (.ok ()) ↔
    ∃ k < limit ⌈/⌉ interval, FirstDecisive lookups spec expected k ∧
      Succeeds spec expected (lookups k)
  failed : ∀ message, run.result = some (.error (.api message none .upstream)) ↔
    ∃ k < limit ⌈/⌉ interval, ∃ status, FirstDecisive lookups spec expected k ∧
      Fails spec expected status (lookups k) ∧ message = s!"{spec.failedMessage}: {status}"
  timedOut : run.result = some (.error (.api spec.timeoutMessage none .timeout)) ↔
    ∀ k < limit ⌈/⌉ interval, ¬ Decisive spec expected (lookups k)
  exhausted : run.result = some (.error (.api spec.timeoutMessage none .timeout)) →
    run.slept.sum = limit
  ends : run.result = some (.ok ()) ∨
    (∃ message, run.result = some (.error (.api message none .upstream))) ∨
    run.result = some (.error (.api spec.timeoutMessage none .timeout))

section Loop

variable {lookups : Nat → Except CliError AppLookup} {spec : WaitSpec} {expected : Option String}
  {interval limit : Nat}

/-- One round while time is left: the clock stays within the limit. -/
theorem waitLoop_step (lookups : Nat → Except CliError AppLookup) (spec : WaitSpec)
    (expected : Option String) (interval : Nat) {elapsed limit : Nat} (helapsed : elapsed < limit)
    (hlimit : limit < 2 ^ 64) (fuel : Nat) (slept : List Nat) (lines : List String) :
    waitLoop lookups spec expected interval limit (fuel + 1) elapsed slept lines =
      match decision spec expected (lookups slept.length) with
      | .succeeded => some ⟨slept ++ [min interval (limit - elapsed)],
          lines ++ [spec.successMessage], some (.ok ())⟩
      | .failed status => some ⟨slept ++ [min interval (limit - elapsed)], lines,
          some (.error (.api s!"{spec.failedMessage}: {status}" none .upstream))⟩
      | .continue => waitLoop lookups spec expected interval limit fuel
          (elapsed + min interval (limit - elapsed)) (slept ++ [min interval (limit - elapsed)])
          (lines ++ ["waiting..."]) := by
  have hstep : nextPollStep interval elapsed limit = some (min interval (limit - elapsed)) := by
    rw [nextPollStep, checkedSub, if_pos helapsed.le, Option.map_some]
  have hsum : checkedAdd elapsed (min interval (limit - elapsed)) =
      some (elapsed + min interval (limit - elapsed)) := by
    rw [checkedAdd, if_pos (by omega)]
  rw [waitLoop, if_pos helapsed]
  simp only [hstep, hsum]
  cases hpoll : lookups slept.length with
  | error e => rfl
  | ok lookup => cases hdecision : evaluate lookup spec expected <;> simp only [decision, hdecision]

/-- Time is left exactly while fewer polls were made than fit in. -/
theorem lt_ceil_iff (hpos : 0 < interval) (k : Nat) :
    k < limit ⌈/⌉ interval ↔ k * interval < limit := by
  rw [← not_le, ceilDiv_le_iff_le_mul hpos, not_le, Nat.mul_comm]

theorem elapsed_next (k : Nat) (hk : k * interval < limit) :
    k * interval + min interval (limit - k * interval) = min limit ((k + 1) * interval) := by
  rw [Nat.add_mul, Nat.one_mul]
  omega

theorem firstDecisive_unique {j k : Nat} (hj : FirstDecisive lookups spec expected j)
    (hk : FirstDecisive lookups spec expected k) : j = k := by
  rcases lt_trichotomy j k with hlt | heq | hgt
  · exact absurd hj.1 (hk.2 j hlt)
  · exact heq
  · exact absurd hk.1 (hj.2 k hgt)

theorem onTime_succeeded {slept : List Nat} {lines : List String}
    (hdisjoint : spec.Disjoint) {k : Nat} (hk : k < limit ⌈/⌉ interval)
    (hfirst : FirstDecisive lookups spec expected k)
    (hsucceeds : Succeeds spec expected (lookups k)) (hlength : slept.length = k + 1)
    (hsum : slept.sum ≤ limit) :
    OnTime lookups spec expected interval limit ⟨slept, lines, some (.ok ())⟩ where
  polls := by rw [hlength]; exact hk
  slept := hsum
  inRange := nofun
  succeeded := iff_of_true rfl ⟨k, hk, hfirst, hsucceeds⟩
  failed message := by
    refine iff_of_false nofun ?_
    rintro ⟨j, -, status, hj, hfails, -⟩
    rw [firstDecisive_unique hj hfirst, ← decision_failed_iff hdisjoint,
      decision_succeeded_iff.mpr hsucceeds] at hfails
    cases hfails
  timedOut := iff_of_false nofun fun hnone => hnone k hk hfirst.1
  exhausted := nofun
  ends := Or.inl rfl

theorem onTime_failed {slept : List Nat} {lines : List String}
    (hdisjoint : spec.Disjoint) {k : Nat} {status : String} (hk : k < limit ⌈/⌉ interval)
    (hfirst : FirstDecisive lookups spec expected k)
    (hfails : Fails spec expected status (lookups k)) (hlength : slept.length = k + 1)
    (hsum : slept.sum ≤ limit) :
    OnTime lookups spec expected interval limit ⟨slept, lines,
      some (.error (.api s!"{spec.failedMessage}: {status}" none .upstream))⟩ where
  polls := by rw [hlength]; exact hk
  slept := hsum
  inRange := nofun
  succeeded := by
    refine iff_of_false nofun ?_
    rintro ⟨j, -, hj, hsucceeds⟩
    rw [firstDecisive_unique hj hfirst, ← decision_succeeded_iff,
      (decision_failed_iff hdisjoint).mpr hfails] at hsucceeds
    cases hsucceeds
  failed message := by
    constructor
    · intro hmessage
      injection hmessage with herror
      injection herror with hsame
      injection hsame with htext
      exact ⟨k, hk, status, hfirst, hfails, htext.symm⟩
    · rintro ⟨j, -, other, hj, hother, rfl⟩
      rw [firstDecisive_unique hj hfirst, ← decision_failed_iff hdisjoint,
        (decision_failed_iff hdisjoint).mpr hfails] at hother
      rw [PollDecision.failed.inj hother]
  timedOut := iff_of_false (by simp) fun hnone => hnone k hk hfirst.1
  exhausted := by simp
  ends := Or.inr (Or.inl ⟨_, rfl⟩)

theorem onTime_timedOut {slept : List Nat} {lines : List String}
    (hnone : ∀ k < limit ⌈/⌉ interval, ¬ Decisive spec expected (lookups k))
    (hlength : slept.length ≤ limit ⌈/⌉ interval) (hsum : slept.sum = limit) :
    OnTime lookups spec expected interval limit ⟨slept, lines,
      some (.error (.api spec.timeoutMessage none .timeout))⟩ where
  polls := hlength
  slept := hsum.le
  inRange := nofun
  succeeded := iff_of_false nofun fun ⟨k, hk, hfirst, _⟩ => hnone k hk hfirst.1
  failed _ := iff_of_false (by simp) fun ⟨k, hk, _, hfirst, _⟩ => hnone k hk hfirst.1
  timedOut := iff_of_true rfl hnone
  exhausted _ := hsum
  ends := Or.inr (Or.inr rfl)

/-- After some polls of which none was decisive the rest of the wait is on time. -/
theorem waitLoop_onTime (hpos : 0 < interval) (hlimit : limit < 2 ^ 64)
    (hdisjoint : spec.Disjoint) (left : Nat) :
    ∀ (slept : List Nat) (lines : List String),
      slept.length + left = limit ⌈/⌉ interval →
      slept.sum = min limit (slept.length * interval) →
      (∀ j < slept.length, ¬ Decisive spec expected (lookups j)) →
      ∃ run, (∀ fuel, left < fuel → waitLoop lookups spec expected interval limit fuel slept.sum
        slept lines = some run) ∧ OnTime lookups spec expected interval limit run := by
  induction left with
  | zero =>
    intro slept lines hpolls hsum hnone
    have hexpired : ¬ slept.length * interval < limit := by
      rw [← lt_ceil_iff hpos]
      omega
    have hall : slept.sum = limit := by omega
    refine ⟨⟨slept, lines ++ ["wait limit exceeded, stopping..."],
        some (.error (.api spec.timeoutMessage none .timeout))⟩, fun fuel hfuel => ?_,
      onTime_timedOut (by rwa [← hpolls]) hpolls.le hall⟩
    obtain ⟨fuel, rfl⟩ : ∃ n, fuel = n + 1 := ⟨fuel - 1, by omega⟩
    rw [waitLoop, if_neg (by omega)]
  | succ left ih =>
    intro slept lines hpolls hsum hnone
    have hk : slept.length < limit ⌈/⌉ interval := by omega
    have htime : slept.length * interval < limit := (lt_ceil_iff hpos _).mp hk
    have helapsed : slept.sum = slept.length * interval := by omega
    have hnext := elapsed_next slept.length htime
    rw [← helapsed] at hnext
    have hstep := waitLoop_step lookups spec expected interval (helapsed ▸ htime) hlimit
    have hlength : (slept ++ [min interval (limit - slept.sum)]).length = slept.length + 1 :=
      List.length_append
    have hsum' : (slept ++ [min interval (limit - slept.sum)]).sum =
        min limit ((slept.length + 1) * interval) := by
      rw [List.sum_append, List.sum_singleton]
      exact hnext
    cases hdecision : decision spec expected (lookups slept.length) with
    | succeeded =>
      have hsucceeds := decision_succeeded_iff.mp hdecision
      refine ⟨⟨_, lines ++ [spec.successMessage], _⟩, fun fuel hfuel => ?_,
        onTime_succeeded hdisjoint hk ⟨Or.inl hsucceeds, hnone⟩ hsucceeds hlength (by omega)⟩
      obtain ⟨fuel, rfl⟩ : ∃ n, fuel = n + 1 := ⟨fuel - 1, by omega⟩
      rw [hstep, hdecision]
    | failed status =>
      have hfails := (decision_failed_iff hdisjoint).mp hdecision
      refine ⟨⟨_, lines, _⟩, fun fuel hfuel => ?_,
        onTime_failed hdisjoint hk ⟨Or.inr ⟨status, hfails⟩, hnone⟩ hfails hlength (by omega)⟩
      obtain ⟨fuel, rfl⟩ : ∃ n, fuel = n + 1 := ⟨fuel - 1, by omega⟩
      rw [hstep, hdecision]
    | «continue» =>
      have hgoes := (decision_continue_iff hdisjoint).mp hdecision
      have hnone' : ∀ j < slept.length + 1, ¬ Decisive spec expected (lookups j) := by
        intro j hj
        rcases Nat.lt_succ_iff_lt_or_eq.mp hj with hlt | rfl
        · exact hnone j hlt
        · exact hgoes
      obtain ⟨run, hrun, hontime⟩ := ih (slept ++ [min interval (limit - slept.sum)])
        (lines ++ ["waiting..."]) (by omega) (by rw [hsum', hlength]) (by rwa [hlength])
      refine ⟨run, fun fuel hfuel => ?_, hontime⟩
      obtain ⟨fuel, rfl⟩ : ∃ n, fuel = n + 1 := ⟨fuel - 1, by omega⟩
      rw [hstep, hdecision]
      simp only
      rw [← hrun fuel (by omega), List.sum_append, List.sum_singleton]

end Loop

section Flags

theorem setSecs_bounds {flags flags' : ParsedWaitFlags} {flag raw : String}
    (h : setSecs flags flag raw = .ok flags') (hbound : flags.limit < 2 ^ 64) :
    flags'.limit < 2 ^ 64 := by
  unfold setSecs parseSecs at h
  cases hsecs : parseUsize raw.toList with
  | none =>
    rw [hsecs] at h
    cases h
  | some secs =>
    have hfits := Decimals.lt_of_parseUsize hsecs
    simp only [hsecs] at h
    split_ifs at h with hflag
    · cases h
      exact hbound
    · cases h
      exact hfits

theorem parseArgs_bounds (args : List String) (flags flags' : ParsedWaitFlags)
    (h : parseArgs args flags = .ok flags') (hbound : flags.limit < 2 ^ 64) :
    flags'.limit < 2 ^ 64 := by
  fun_induction parseArgs args flags with
  | case1 =>
    cases h
    exact hbound
  | case2 args flags ih => exact ih h hbound
  | case5 arg flags _ _ raw args next hset ih => exact ih h (setSecs_bounds hset hbound)
  | case7 arg args flags _ _ raw _ next hset ih => exact ih h (setSecs_bounds hset hbound)
  | case9 arg args flags _ _ _ raw _ next hset ih => exact ih h (setSecs_bounds hset hbound)
  | case10 arg args flags _ _ _ _ ih => exact ih h hbound
  | case3 => cases h
  | case4 => cases h
  | case6 => cases h
  | case8 => cases h

theorem parseWaitFlags_bounds {args : List String} {flags : ParsedWaitFlags}
    (h : parseWaitFlags args = .ok flags) :
    0 < flags.interval ∧ flags.interval ≤ flags.limit ∧ flags.limit < 2 ^ 64 := by
  unfold parseWaitFlags at h
  cases hargs : parseArgs args
      ⟨false, defaultWaitIntervalSecs, false, defaultWaitLimitSecs, none, []⟩ with
  | error e =>
    rw [hargs] at h
    cases h
  | ok parsed =>
    simp only [hargs] at h
    split_ifs at h with hzero hlimit hgt
    cases h
    exact ⟨by omega, by omega, parseArgs_bounds _ _ _ hargs (by decide)⟩

end Flags

theorem wait_onTime {args : List String} {flags : ParsedWaitFlags}
    (hflags : parseWaitFlags args = .ok flags) {spec : WaitSpec} (hdisjoint : spec.Disjoint)
    (expected : Option String) (lookups : Nat → Except CliError AppLookup) :
    ∃ run, (∀ fuel, flags.limit ⌈/⌉ flags.interval < fuel → waitUntilAppReaches lookups spec
        expected flags.interval flags.limit fuel = some run) ∧
      OnTime lookups spec expected flags.interval flags.limit run := by
  obtain ⟨hpos, -, hlimit⟩ := parseWaitFlags_bounds hflags
  refine waitLoop_onTime hpos hlimit hdisjoint _ [] [] (Nat.zero_add _) ?_ nofun
  rw [List.length_nil, Nat.zero_mul, Nat.min_zero]
  rfl

/-- With the flags a user may give, the wait ends, and ends in time with the right verdict. -/
theorem waitUntilAppReaches_onTime {args : List String} {flags : ParsedWaitFlags}
    (hflags : parseWaitFlags args = .ok flags) {spec : WaitSpec} (hdisjoint : spec.Disjoint)
    (expected : Option String) (lookups : Nat → Except CliError AppLookup) :
    (∃ run, (∀ fuel, flags.limit ⌈/⌉ flags.interval < fuel → waitUntilAppReaches lookups spec
        expected flags.interval flags.limit fuel = some run) ∧
      OnTime lookups spec expected flags.interval flags.limit run) ∧
    ∀ k state, lookups k = .ok (.found state) → OtherDeployment expected state.deploymentId →
      ¬ Decisive spec expected (lookups k) := by
  refine ⟨wait_onTime hflags hdisjoint expected lookups, ?_⟩
  intro k state hstate hother
  rw [hstate]
  exact not_decisive_of_other hother

/-- Three polls fit into five seconds at an interval of two; the third sleeps one second. -/
theorem waitUntilAppReaches_onTime_stale : ∃ run,
    OnTime (fun _ => .ok (.found ⟨"deployment-running", some "old"⟩)) deployAppWait (some "new") 2 5
      run ∧ run.slept = [2, 2, 1] := by
  have hflags : parseWaitFlags ["--wait", "--wait-interval", "2", "--wait-limit=5"] =
      .ok ⟨true, 2, true, 5, none, []⟩ := by decide
  obtain ⟨⟨run, hrun, hontime⟩, -⟩ := waitUntilAppReaches_onTime hflags
    (specs_disjoint deployAppWait (by simp)) (some "new")
    (fun _ => .ok (.found ⟨"deployment-running", some "old"⟩))
  have hvalue := hrun 4 (by decide)
  refine ⟨run, hontime, ?_⟩
  rw [← Option.some.inj hvalue]
  rfl

section Lookups

variable {client : CsmClient} {baseUrl accessToken namespace_ app : String}

/-- A 404 that is not the service's own, a proxy's say, is a failed lookup. -/
theorem getAppStatus_notFound
    (h : getAppStatus client baseUrl accessToken namespace_ app = .ok .notFound) :
    ∃ request reply, client.send request = .ok reply ∧ reply.status = 404 ∧
      csmErrorCode client (reply.body.getD "") = some csmAppNotFoundCode := by
  unfold getAppStatus at h
  split at h
  · cases h
  · cases h
  · rename_i encodedNs encodedApp _ _
    simp only at h
    split at h
    · cases h
    · rename_i reply hsend
      split_ifs at h with hsuccess hgone
      · split at h <;> cases h
      · exact ⟨_, reply, hsend, hgone⟩

/-- The wait over the lookups of one app. Each poll has its own answers of the service. -/
theorem waitUntilAppReaches_getAppStatus {args : List String} {flags : ParsedWaitFlags}
    (hflags : parseWaitFlags args = .ok flags) (clients : Nat → CsmClient) :
    ∃ run, (∀ fuel, flags.limit ⌈/⌉ flags.interval < fuel →
        waitUntilAppReaches
          (fun k => getAppStatus (clients k) baseUrl accessToken namespace_ app) deleteAppWait none
          flags.interval flags.limit fuel = some run) ∧
      (run.result = some (.ok ()) → ∃ k < flags.limit ⌈/⌉ flags.interval,
        (∃ state, getAppStatus (clients k) baseUrl accessToken namespace_ app =
          .ok (.found state) ∧ state.appStatus = "app-removed") ∨
        ∃ request reply, (clients k).send request = .ok reply ∧ reply.status = 404 ∧
          csmErrorCode (clients k) (reply.body.getD "") = some csmAppNotFoundCode) := by
  obtain ⟨run, hrun, hontime⟩ := wait_onTime hflags (specs_disjoint deleteAppWait (by simp)) none
    fun k => getAppStatus (clients k) baseUrl accessToken namespace_ app
  refine ⟨run, hrun, fun hsucceeded => ?_⟩
  obtain ⟨k, hk, -, hpoll⟩ := hontime.succeeded.mp hsucceeded
  refine ⟨k, hk, ?_⟩
  cases hlookup : getAppStatus (clients k) baseUrl accessToken namespace_ app with
  | error e =>
    rw [hlookup] at hpoll
    exact hpoll.elim
  | ok lookup =>
    cases lookup with
    | notFound => exact Or.inr (getAppStatus_notFound hlookup)
    | found state =>
      rw [hlookup] at hpoll
      exact Or.inl ⟨state, rfl, List.mem_singleton.mp hpoll.1⟩

end Lookups

end AppWait
