import Daedalus.Foundation.Extension
import Daedalus.Operator.Reconcile

/-!
# The conditions of a runtime

`AgentRuntimeReconciler.Reconcile` reports by three conditions. It sets `Progressing` when it
begins, in memory only, and all three when it ends; the status is written once. A status update that
is refused or lost leaves no trace. `Reconcile` is modelled here with its conditions; without them
it is the one of `Operator.Reconcile` (`reporting_refines`).

Conditions are set by a function of the Kubernetes libraries, of which no more is assumed than a
`ConditionSetter` promises. Times are in seconds, as the API server keeps them, and the clock may
show anything. `Report.step` is what the conditions tell: it knows nothing but the status updates
that took effect.
-/
namespace Daedalus.Operator

open Foundation Prog

def Got.map {α β : Type} (f : α → β) : Got α → Got β
  | .found a => .found (f a)
  | .notFound => .notFound
  | .noMatch err => .noMatch err
  | .failed err => .failed err

namespace Conditions

/-! ## Conditions -/

/-- What `Reconcile` fills in of a `metav1.Condition`; the status `Unknown` is not used. -/
structure Condition where
  type : String
  status : Bool
  reason : String
  message : String
  observedGeneration : ℕ
  deriving DecidableEq, Repr

structure StatusCondition extends Condition where
  lastTransitionTime : ℕ
  deriving DecidableEq, Repr

def findStatusCondition (type : String) (cs : List StatusCondition) : Option StatusCondition :=
  cs.find? (·.type = type)

/-- The transition time of a condition that is set: it is kept with the status. -/
def transition (now : ℕ) (new : Condition) (existing : Option StatusCondition) : ℕ :=
  match existing with
  | some c => if c.status = new.status then c.lastTransitionTime else now
  | none => now

/-- `apimeta.SetStatusCondition`, at the time `now`: the condition of that type is replaced, or a
new one is added, and the others are left alone. -/
structure ConditionSetter where
  set : ℕ → Condition → List StatusCondition → List StatusCondition
  find_self : ∀ now new cs, findStatusCondition new.type (set now new cs) =
    some { new with lastTransitionTime := transition now new (findStatusCondition new.type cs) }
  find_other : ∀ now new cs type, type ≠ new.type →
    findStatusCondition type (set now new cs) = findStatusCondition type cs
  types_present : ∀ now new cs, new.type ∈ cs.map (·.type) →
    (set now new cs).map (·.type) = cs.map (·.type)
  types_absent : ∀ now new cs, new.type ∉ cs.map (·.type) →
    (set now new cs).map (·.type) = cs.map (·.type) ++ [new.type]

def conditionTypeAvailable : String := "Available"

def conditionTypeProgressing : String := "Progressing"

def conditionTypeDegraded : String := "Degraded"

def conditionTypes : List String :=
  [conditionTypeProgressing, conditionTypeAvailable, conditionTypeDegraded]

def reconciling (generation : ℕ) : Condition where
  type := conditionTypeProgressing
  status := true
  reason := "Reconciling"
  message := "Reconciliation in progress"
  observedGeneration := generation

def degraded (generation : ℕ) (err : Option GoError) : Condition where
  type := conditionTypeDegraded
  status := err.isSome
  reason := if err.isSome then "ReconcileError" else "ReconcileSuccess"
  message := err.elim "All child resources reconciled successfully" (·.text)
  observedGeneration := generation

def available (generation : ℕ) (err : Option GoError) : Condition where
  type := conditionTypeAvailable
  status := err.isNone
  reason := if err.isSome then "ReconcileError" else "ReconcileSuccess"
  message := err.elim "All child resources reconciled successfully" (·.text)
  observedGeneration := generation

def progressed (generation : ℕ) (err : Option GoError) : Condition where
  type := conditionTypeProgressing
  status := false
  reason := if err.isSome then "ReconcileFailed" else "ReconcileComplete"
  message := err.elim "Reconciliation complete" (·.text)
  observedGeneration := generation

/-- A call of `Reconcile`: when it set the condition at the beginning and the three at the end, and
the error of its children. -/
structure Call where
  begun : ℕ
  first : ℕ
  second : ℕ
  third : ℕ
  err : Option GoError
  deriving DecidableEq, Repr

/-- The part of the runtime that the conditions are about. -/
structure Report where
  generation : ℕ
  observedGeneration : ℕ
  conditions : List StatusCondition
  deriving DecidableEq, Repr

section Setting

variable (setter : ConditionSetter)

/-- The conditions at the end of a call. -/
def conclude (c : Call) (generation : ℕ) (cs : List StatusCondition) : List StatusCondition :=
  match c.err with
  | some err =>
    setter.set c.third (progressed generation (some err))
      (setter.set c.second (available generation (some err))
        (setter.set c.first (degraded generation (some err)) cs))
  | none =>
    setter.set c.third (progressed generation none)
      (setter.set c.second (degraded generation none)
        (setter.set c.first (available generation none) cs))

/-- What the call makes of the conditions it has read. -/
def Call.conditions (c : Call) (generation : ℕ) (cs : List StatusCondition) :
    List StatusCondition :=
  conclude setter c generation (setter.set c.begun (reconciling generation) cs)

/-! ## What the conditions tell -/

def Report.new (generation : ℕ) : Report where
  generation
  observedGeneration := 0
  conditions := []

inductive Report.Act where
  /-- The spec is changed, and the runtime gets another generation. -/
  | edit (generation : ℕ)
  /-- The status update of a call takes effect. -/
  | reconcile (c : Call)
  deriving DecidableEq

def Report.step (s : Report) : Report.Act → Option Report
  | .edit generation => some { s with generation }
  | .reconcile c =>
    some { s with
      observedGeneration := s.generation
      conditions := c.conditions setter s.generation s.conditions }

end Setting

/-- The calls whose status update took effect, the latest first. -/
def calls (acts : List Report.Act) : List Call :=
  (acts.filterMap fun
    | .edit _ => none
    | .reconcile c => some c).reverse

/-- When the outcome of the latest call was first reported; `time` is when a call reports. -/
def since (time : Call → ℕ) : List Call → ℕ
  | [] => 0
  | [c] => time c
  | c :: c' :: rest =>
    if c.err.isNone = c'.err.isNone then since time (c' :: rest) else time c

def Call.availableTime (c : Call) : ℕ := if c.err.isNone then c.first else c.second

def Call.degradedTime (c : Call) : ℕ := if c.err.isNone then c.second else c.first

/-- There is one condition of each type, and they show the outcome of the latest call `c`.
`Available` and `Degraded` show since when it has been like that; `Progressing` shows when `c` was
made. -/
structure Shows (c : Call) (earlier : List Call) (s : Report) : Prop where
  types : (s.conditions.map (·.type)).Perm conditionTypes
  available : findStatusCondition conditionTypeAvailable s.conditions =
    some { available s.observedGeneration c.err with
      lastTransitionTime := since Call.availableTime (c :: earlier) }
  degraded : findStatusCondition conditionTypeDegraded s.conditions =
    some { degraded s.observedGeneration c.err with
      lastTransitionTime := since Call.degradedTime (c :: earlier) }
  progressing : findStatusCondition conditionTypeProgressing s.conditions =
    some { progressed s.observedGeneration c.err with lastTransitionTime := c.third }

/-- What is known of a runtime after these calls, the latest first. -/
def Tells (cs : List Call) (s : Report) : Prop :=
  match cs with
  | [] => s.conditions = []
  | c :: earlier => Shows c earlier s

section Calls

variable {setter : ConditionSetter} {c c' : Call} {earlier : List Call}
  {cs : List StatusCondition} {generation : ℕ} {s : Report}

theorem find_available :
    findStatusCondition conditionTypeAvailable (c.conditions setter generation cs) =
      some { available generation c.err with
        lastTransitionTime := transition c.availableTime (available generation c.err)
          (findStatusCondition conditionTypeAvailable cs) } := by
  have hp : conditionTypeAvailable ≠ conditionTypeProgressing := by decide
  have hd : conditionTypeAvailable ≠ conditionTypeDegraded := by decide
  cases herr : c.err with
  | none =>
    simp only [Call.conditions, conclude, Call.availableTime, herr]
    rw [setter.find_other _ _ _ _ hp, setter.find_other _ _ _ _ hd]
    refine (setter.find_self c.first (available generation none) _).trans ?_
    rw [show (available generation none).type = conditionTypeAvailable from rfl,
      setter.find_other _ _ _ _ hp]
    rfl
  | some err =>
    simp only [Call.conditions, conclude, Call.availableTime, herr]
    rw [setter.find_other _ _ _ _ hp]
    refine (setter.find_self c.second (available generation (some err)) _).trans ?_
    rw [show (available generation (some err)).type = conditionTypeAvailable from rfl,
      setter.find_other _ _ _ _ hd, setter.find_other _ _ _ _ hp]
    rfl

theorem find_degraded :
    findStatusCondition conditionTypeDegraded (c.conditions setter generation cs) =
      some { degraded generation c.err with
        lastTransitionTime := transition c.degradedTime (degraded generation c.err)
          (findStatusCondition conditionTypeDegraded cs) } := by
  have hp : conditionTypeDegraded ≠ conditionTypeProgressing := by decide
  have ha : conditionTypeDegraded ≠ conditionTypeAvailable := by decide
  cases herr : c.err with
  | none =>
    simp only [Call.conditions, conclude, Call.degradedTime, herr]
    rw [setter.find_other _ _ _ _ hp]
    refine (setter.find_self c.second (degraded generation none) _).trans ?_
    rw [show (degraded generation none).type = conditionTypeDegraded from rfl,
      setter.find_other _ _ _ _ ha, setter.find_other _ _ _ _ hp]
    rfl
  | some err =>
    simp only [Call.conditions, conclude, Call.degradedTime, herr]
    rw [setter.find_other _ _ _ _ hp, setter.find_other _ _ _ _ ha]
    refine (setter.find_self c.first (degraded generation (some err)) _).trans ?_
    rw [show (degraded generation (some err)).type = conditionTypeDegraded from rfl,
      setter.find_other _ _ _ _ hp]
    rfl

/-- In memory the condition was true before it is set to false. -/
theorem find_progressing :
    findStatusCondition conditionTypeProgressing (c.conditions setter generation cs) =
      some { progressed generation c.err with lastTransitionTime := c.third } := by
  have ha : conditionTypeProgressing ≠ conditionTypeAvailable := by decide
  have hd : conditionTypeProgressing ≠ conditionTypeDegraded := by decide
  have begun := setter.find_self c.begun (reconciling generation) cs
  have last : ∀ (err : Option GoError) (cs' : List StatusCondition),
      findStatusCondition conditionTypeProgressing cs' =
        findStatusCondition conditionTypeProgressing
          (setter.set c.begun (reconciling generation) cs) →
      findStatusCondition conditionTypeProgressing
          (setter.set c.third (progressed generation err) cs') =
        some { progressed generation err with lastTransitionTime := c.third } := by
    intro err cs' same
    refine (setter.find_self c.third (progressed generation err) cs').trans ?_
    rw [show (progressed generation err).type = conditionTypeProgressing from rfl,
      same.trans begun]
    rfl
  cases herr : c.err with
  | none =>
    simp only [Call.conditions, conclude, herr]
    exact last none _ ((setter.find_other _ _ _ _ hd).trans (setter.find_other _ _ _ _ ha))
  | some err =>
    simp only [Call.conditions, conclude, herr]
    exact last (some err) _ ((setter.find_other _ _ _ _ ha).trans (setter.find_other _ _ _ _ hd))

/-- No type is added once all three are there. -/
theorem types_conditions (h : (cs.map (·.type)).Perm conditionTypes) :
    (c.conditions setter generation cs).map (·.type) = cs.map (·.type) := by
  have kept {now : ℕ} {new : Condition} {cs' : List StatusCondition}
      (hcs' : cs'.map (·.type) = cs.map (·.type)) (hnew : new.type ∈ conditionTypes) :
      (setter.set now new cs').map (·.type) = cs.map (·.type) := by
    rw [setter.types_present, hcs']
    rw [hcs']
    exact h.mem_iff.mpr hnew
  have begun {now : ℕ} : (setter.set now (reconciling generation) cs).map (·.type) =
      cs.map (·.type) := kept rfl (by simp [reconciling, conditionTypes])
  have hd (err : Option GoError) : (degraded generation err).type ∈ conditionTypes := by
    simp [degraded, conditionTypes]
  have ha (err : Option GoError) : (available generation err).type ∈ conditionTypes := by
    simp [available, conditionTypes]
  have hp (err : Option GoError) : (progressed generation err).type ∈ conditionTypes := by
    simp [progressed, conditionTypes]
  cases herr : c.err with
  | none =>
    simp only [Call.conditions, conclude, herr]
    exact kept (kept (kept begun (ha _)) (hd _)) (hp _)
  | some err =>
    simp only [Call.conditions, conclude, herr]
    exact kept (kept (kept begun (hd _)) (ha _)) (hp _)

/-- The first call adds all three. -/
theorem types_first :
    ((c.conditions setter generation []).map (·.type)).Perm conditionTypes := by
  have added {now : ℕ} {new : Condition} {cs' : List StatusCondition} {types : List String}
      (hcs' : cs'.map (·.type) = types) (hnew : new.type ∉ types) :
      (setter.set now new cs').map (·.type) = types ++ [new.type] := by
    subst hcs'
    exact setter.types_absent now new cs' hnew
  have kept {now : ℕ} {new : Condition} {cs' : List StatusCondition} {types : List String}
      (hcs' : cs'.map (·.type) = types) (hnew : new.type ∈ types) :
      (setter.set now new cs').map (·.type) = types := by
    subst hcs'
    exact setter.types_present now new cs' hnew
  have begun : (setter.set c.begun (reconciling generation) []).map (·.type) =
      [conditionTypeProgressing] := added rfl (by simp)
  have pa : conditionTypeAvailable ∉ [conditionTypeProgressing] := by decide
  have pd : conditionTypeDegraded ∉ [conditionTypeProgressing] := by decide
  cases herr : c.err with
  | none =>
    have pad : conditionTypeDegraded ∉ [conditionTypeProgressing, conditionTypeAvailable] := by
      decide
    simp only [Call.conditions, conclude, herr]
    rw [kept (added (added begun pa) pad) List.mem_cons_self]
    exact .refl _
  | some err =>
    have pda : conditionTypeAvailable ∉ [conditionTypeProgressing, conditionTypeDegraded] := by
      decide
    simp only [Call.conditions, conclude, herr]
    rw [kept (added (added begun pd) pda) List.mem_cons_self]
    exact .cons _ (.swap _ _ _)

theorem Shows.first (h : s.conditions = []) :
    Shows c [] { s with
      observedGeneration := s.generation
      conditions := c.conditions setter s.generation s.conditions } := by
  rw [h]
  exact ⟨types_first, find_available, find_degraded, find_progressing⟩

/-- A transition time is kept as long as the outcome is the same. -/
theorem Shows.next (h : Shows c' earlier s) :
    Shows c (c' :: earlier) { s with
      observedGeneration := s.generation
      conditions := c.conditions setter s.generation s.conditions } := by
  refine ⟨?_, ?_, ?_, find_progressing⟩
  · rw [types_conditions h.types]
    exact h.types
  · rw [find_available, h.available]
    cases herr : c.err <;> cases herr' : c'.err <;>
      simp [transition, since, Conditions.available, herr, herr']
  · rw [find_degraded, h.degraded]
    cases herr : c.err <;> cases herr' : c'.err <;>
      simp [transition, since, Conditions.degraded, herr, herr']

theorem calls_edit (acts : List Report.Act) (generation : ℕ) :
    calls (acts ++ [.edit generation]) = calls acts := by
  simp [calls]

theorem calls_reconcile (acts : List Report.Act) (c : Call) :
    calls (acts ++ [.reconcile c]) = c :: calls acts := by
  simp [calls]

/-- One more step. -/
theorem Tells.step {acts : List Report.Act} {act : Report.Act} {t : Report}
    (h : Tells (calls acts) s) (hstep : Report.step setter s act = some t) :
    Tells (calls (acts ++ [act])) t := by
  cases act with
  | edit generation =>
    cases hstep
    rw [calls_edit]
    cases hcalls : calls acts with
    | nil => simpa [Tells, hcalls] using h
    | cons c earlier =>
      rw [hcalls] at h
      exact ⟨h.types, h.available, h.degraded, h.progressing⟩
  | reconcile c =>
    cases hstep
    rw [calls_reconcile]
    cases hcalls : calls acts with
    | nil =>
      rw [hcalls] at h
      exact Shows.first h
    | cons c' earlier =>
      rw [hcalls] at h
      exact h.next

theorem Tells.run {acts : List Report.Act}
    (h : Foundation.run (Report.step setter) (.new generation) acts = some s) :
    Tells (calls acts) s :=
  run_history (fun acts s => Tells (calls acts) s) (fun _ _ _ _ hs hstep => hs.step hstep) h rfl

end Calls

/-! ## Reconcile with its conditions -/

inductive Op where
  | now
  | getRuntime
  /-- A call for one of the children. -/
  | child (op : Operator.Op)
  /-- The status is written. The last argument tells which call it is of; it is not sent. -/
  | updateStatus (rt : AgentRuntime) (report : Report) (c : Call)

abbrev Ans : Op → Type
  | .now => ℕ
  | .getRuntime => Got (AgentRuntime × Report)
  | .child op => Operator.Ans op
  | .updateStatus _ _ _ => Option GoError

abbrev Proc := Prog Op Ans

abbrev now : Proc ℕ := perform Op.now
abbrev getRuntime : Proc (Got (AgentRuntime × Report)) := perform Op.getRuntime
abbrev children {α : Type} (p : Operator.Proc α) : Proc α := p.lift Op.child fun _ ans => ans
abbrev updateStatus (rt : AgentRuntime) (report : Report) (c : Call) : Proc (Option GoError) :=
  perform (Op.updateStatus rt report c)

section Reconcile

variable (setter : ConditionSetter) (parse : QuantityParser)

/-- The second half of `Reconcile`, with the conditions it has in memory. -/
def conclusion (rt : AgentRuntime) (report : Report) (begun : ℕ) (reconcileErr : Option GoError) :
    Proc (Except GoError Unit) := do
  let first ← now
  let second ← now
  let third ← now
  let c : Call := { begun, first, second, third, err := reconcileErr }
  let status : Report :=
    { report with
      observedGeneration := report.generation
      conditions := conclude setter c report.generation report.conditions }
  match ← updateStatus rt status c with
  | some err => return .error (.wrap "updating status" err)
  | none =>
    match reconcileErr with
    | some err => return .error err
    | none => return .ok ()

/-- `Reconcile` for the runtime that it has fetched. -/
def reconcileFetched (rt : AgentRuntime) (report : Report) : Proc (Except GoError Unit) := do
  let begun ← now
  let report : Report :=
    { report with
      conditions := setter.set begun (reconciling report.generation) report.conditions }
  let (rt, reconcileErr) ← children (reconcileChildren parse rt)
  conclusion setter rt report begun reconcileErr

def reconcile : Proc (Except GoError Unit) := do
  match ← getRuntime with
  | .notFound => return .ok ()
  | .noMatch err | .failed err => return .error (.wrap "fetching AgentRuntime" err)
  | .found (rt, report) => reconcileFetched setter parse rt report

/-- The cluster with what the conditions are about. -/
structure Reported where
  cluster : Cluster
  report : Report
  clock : ℕ
  /-- The edits of the spec and the status updates that took effect. -/
  log : List Report.Act

def Reported.new (cluster : Cluster) (generation clock : ℕ) : Reported where
  cluster
  report := .new generation
  clock
  log := []

/-- The status update takes effect. -/
def Reported.write (s : Reported) (rt : AgentRuntime) (report : Report) (c : Call) : Reported :=
  { s with
    cluster := s.cluster.changeRuntime ({ · with status := rt.status })
    report :=
      { s.report with
        observedGeneration := report.observedGeneration, conditions := report.conditions }
    log := s.log ++ [.reconcile c] }

def api : Prog.Store Op Ans Reported Fate
  | .now, s, fate =>
    match fate with
    | .done => some (s, s.clock)
    | _ => none
  | .getRuntime, s, fate =>
    (Operator.api .getRuntime s.cluster fate).map fun x => (s, x.2.map (·, s.report))
  | .child op, s, fate =>
    (Operator.api op s.cluster fate).map fun x => ({ s with cluster := x.1 }, x.2)
  | .updateStatus rt report c, s, fate =>
    Operator.write s (s.cluster.runtime.any (·.resourceVersion == rt.resourceVersion))
      (conflict rt) (s.write rt report c) fate

inductive Change where
  | edit (spec : AgentRuntimeSpec) (generation : ℕ)
  | clock (now : ℕ)

def Reported.change (s : Reported) : Change → Reported
  | .edit spec generation =>
    { s with
      cluster := s.cluster.edit spec
      report := { s.report with generation }
      log := s.log ++ [.edit generation] }
  | .clock now => { s with clock := now }

abbrev System := Loop Op Ans Reported (Except GoError Unit)

def systemStep : System → Loop.Act Change Fate → Option System :=
  Loop.step api Reported.change (reconcile setter parse)

end Reconcile

/-! ## A setter, and a run -/

/-- The conditions in the order in which they were added. -/
def setStatusCondition (now : ℕ) (new : Condition) : List StatusCondition → List StatusCondition
  | [] => [{ new with lastTransitionTime := now }]
  | existing :: rest =>
    if existing.type = new.type then
      { new with lastTransitionTime := transition now new (some existing) } :: rest
    else existing :: setStatusCondition now new rest

def inOrder : ConditionSetter where
  set := setStatusCondition
  find_self now new cs := by
    induction cs with
    | nil => simp [setStatusCondition, findStatusCondition, transition]
    | cons c cs ih =>
      by_cases hc : c.type = new.type
      · simp [setStatusCondition, findStatusCondition, hc]
      · simpa [setStatusCondition, findStatusCondition, hc] using ih
  find_other now new cs type h := by
    induction cs with
    | nil => simp [setStatusCondition, findStatusCondition, h.symm]
    | cons c cs ih =>
      by_cases hc : c.type = new.type
      · simp [setStatusCondition, findStatusCondition, hc, h.symm]
      · by_cases ht : c.type = type
        · subst ht
          simp [setStatusCondition, findStatusCondition, hc]
        · simpa [setStatusCondition, findStatusCondition, hc, ht] using ih
  types_present now new cs h := by
    induction cs with
    | nil => simp at h
    | cons c cs ih =>
      by_cases hc : c.type = new.type
      · simp [setStatusCondition, hc]
      · have hcs : new.type ∈ cs.map (·.type) := by simpa [Ne.symm hc] using h
        simp [setStatusCondition, hc, ih hcs]
  types_absent now new cs h := by
    induction cs with
    | nil => simp [setStatusCondition]
    | cons c cs ih =>
      obtain ⟨hc, hcs⟩ : new.type ≠ c.type ∧ new.type ∉ cs.map (·.type) := by simpa using h
      simp [setStatusCondition, hc.symm, ih hcs]

/-- A call at the given time, up to its status update. -/
def attempt (now : ℕ) : List (Loop.Act Change Fate) :=
  [.other (.clock now), .start] ++ List.replicate 12 (.call .done)

/-- Three calls. The status update of the second one is lost, that of the third is not answered
yet. -/
def lostUpdate : List (Loop.Act Change Fate) :=
  attempt 1 ++ [.call .done] ++ attempt 3 ++ [.call (.lost (.new "timeout"))] ++ attempt 5

def emptyCluster : Cluster := ⟨some worker, fun _ _ => none⟩

theorem lostUpdate_observed :
    (run (systemStep inOrder refuseQuantity) ⟨.new emptyCluster 1 0, none⟩
      (lostUpdate ++ [.call .done])).map (fun s => (s.result, calls s.store.log)) =
    some (some (.ok ()), [⟨5, 5, 5, 5, none⟩, ⟨1, 1, 1, 1, none⟩]) := by decide +kernel

/-! ## Without the conditions -/

/-- What `Operator.reconcile` sees of a call. -/
def view : View Operator.Ans Ans
  | .now => none
  | .getRuntime => some ⟨.getRuntime, Got.map Prod.fst⟩
  | .child op => some ⟨op, id⟩
  | .updateStatus rt _ _ => some ⟨.updateStatus rt, id⟩

section Refines

variable {setter : ConditionSetter} {parse : QuantityParser}

theorem conclusion_extends (rt : AgentRuntime) (report : Report) (begun : ℕ)
    (reconcileErr : Option GoError) :
    Extends view (conclusion setter rt report begun reconcileErr) (do
      match ← Operator.updateStatus rt with
      | some err => return .error (.wrap "updating status" err)
      | none =>
        match reconcileErr with
        | some err => return .error err
        | none => return .ok ()) := by
  refine extends_silent rfl rfl fun first => extends_silent rfl rfl fun second =>
    extends_silent rfl rfl fun third => extends_call rfl fun ans => ?_
  cases ans with
  | some err => exact extends_pure
  | none =>
    cases reconcileErr with
    | some err => exact extends_pure
    | none => exact extends_pure

theorem reconcile_extends : Extends view (reconcile setter parse) (Operator.reconcile parse) := by
  refine extends_call rfl fun ans => ?_
  cases ans with
  | notFound => exact extends_pure
  | noMatch err => exact extends_pure
  | failed err => exact extends_pure
  | found read =>
    obtain ⟨rt, report⟩ := read
    refine extends_silent rfl rfl fun begun => ?_
    refine (extends_lift (fun _ => rfl) (reconcileChildren parse rt)).bind ?_
    rintro ⟨rt', reconcileErr⟩
    exact conclusion_extends rt' _ begun reconcileErr

theorem api_silent {op : Op} {s t : Reported} {fate : Fate} {ans : Ans op} (h : view op = none)
    (hapi : api op s fate = some (t, ans)) : t.cluster = s.cluster := by
  cases op with
  | now =>
    cases fate with
    | done =>
      cases hapi
      rfl
    | _ => cases hapi
  | _ => cases h

theorem api_visible {op : Op} {v : (op' : Operator.Op) × (Ans op → Operator.Ans op')}
    {s t : Reported} {fate : Fate} {ans : Ans op} (h : view op = some v)
    (hapi : api op s fate = some (t, ans)) :
    Operator.api v.1 s.cluster fate = some (t.cluster, v.2 ans) := by
  cases op with
  | now => cases h
  | getRuntime =>
    cases h
    obtain ⟨⟨c, got⟩, hgot, e⟩ := Option.map_eq_some_iff.mp hapi
    obtain ⟨rfl, rfl⟩ := Prod.mk.inj e
    obtain ⟨rfl, -⟩ := api_getRuntime hgot
    rw [hgot]
    cases got <;> rfl
  | child op =>
    cases h
    obtain ⟨⟨c, got⟩, hgot, e⟩ := Option.map_eq_some_iff.mp hapi
    obtain ⟨rfl, rfl⟩ := Prod.mk.inj e
    exact hgot
  | updateStatus rt report c =>
    cases h
    exact write_map Reported.cluster hapi

/-- Apart from the conditions, the runs of the operator are those of `Operator.systemStep`: what
holds of the cluster there holds here. -/
theorem reporting_refines (setter : ConditionSetter) (parse : QuantityParser) (start : Reported)
    (acts : List (Loop.Act Change Fate)) (s : System)
    (h : run (systemStep setter parse) ⟨start, none⟩ acts = some s) :
    ∃ acts' t, run (Operator.systemStep parse) ⟨start.cluster, none⟩ acts' = some t ∧
      t.store = s.store.cluster := by
  refine Loop.mirrored reconcile_extends (fun _ _ _ _ _ => api_silent)
    (fun _ _ _ fate _ _ hview hapi => ⟨fate, api_visible hview hapi⟩) ?_ h
  intro s e
  cases e with
  | edit spec generation => exact .inr ⟨spec, rfl⟩
  | clock now => exact .inl rfl

theorem reporting_refines_lostUpdate : ∃ s acts t,
    run (systemStep inOrder refuseQuantity) ⟨.new emptyCluster 1 0, none⟩
      (lostUpdate ++ [.call .done]) = some s ∧
      run (Operator.systemStep refuseQuantity) ⟨emptyCluster, none⟩ acts = some t ∧
      t.store = s.store.cluster := by
  obtain ⟨s, hs, -⟩ := Option.map_eq_some_iff.mp lostUpdate_observed
  obtain ⟨acts, t, ht, same⟩ := reporting_refines inOrder refuseQuantity _ _ s hs
  exact ⟨s, acts, t, hs, ht, same⟩

end Refines

/-! ## What is reported is what was told -/

/-- The report is that of the edits and status updates so far. -/
def Told (setter : ConditionSetter) (generation : ℕ) (s : Reported) : Prop :=
  run (Report.step setter) (.new generation) s.log = some s.report

/-- As long as the runtime has the version that was read, the report is the one that was read. -/
def Unchanged (version : ℕ) (report : Report) (s : Reported) : Prop :=
  ∀ rt ∈ s.cluster.runtime, version ≤ rt.resourceVersion ∧
    (rt.resourceVersion = version → s.report = report)

/-- What others do: they tell the report of an edit, and give the runtime another version. -/
structure Rely (setter : ConditionSetter) (generation : ℕ) (s t : Reported) : Prop where
  told : Told setter generation s → Told setter generation t
  unchanged : ∀ version report, Unchanged version report s → Unchanged version report t

section Told

variable {setter : ConditionSetter} {parse : QuantityParser} {generation version begun : ℕ}
  {report : Report} {s t : Reported} {fate : Fate}

theorem Rely.refl (s : Reported) : Rely setter generation s s := ⟨id, fun _ _ => id⟩

theorem Rely.trans (s t u : Reported) (h : Rely setter generation s t)
    (h' : Rely setter generation t u) : Rely setter generation s u :=
  ⟨h'.told ∘ h.told, fun version report => h'.unchanged version report ∘ h.unchanged version report⟩

/-- Every change of the runtime counts. -/
theorem Unchanged.of_changed {change : AgentRuntime → AgentRuntime}
    (h : Unchanged version report s)
    (changed : t.cluster.runtime = (s.cluster.changeRuntime change).runtime) :
    Unchanged version report t := by
  intro rt hrt
  rw [changed] at hrt
  obtain ⟨rt₀, hrt₀, rfl⟩ := Option.map_eq_some_iff.mp hrt
  have le := (h rt₀ hrt₀).1
  exact ⟨le.trans (Nat.le_succ _), fun same => by simp at same; omega⟩

theorem rely_change (s : Reported) (e : Change) : Rely setter generation s (s.change e) := by
  cases e with
  | edit spec g =>
    refine ⟨fun told => run_snoc.mpr ⟨s.report, told, rfl⟩, ?_⟩
    exact fun version report unchanged => unchanged.of_changed rfl
  | clock now => exact ⟨id, fun _ _ => id⟩

/-- The invariant of the second half of a call. -/
def Pending (setter : ConditionSetter) (generation version : ℕ) (report : Report) (s : Reported) :
    Prop :=
  Told setter generation s ∧ Unchanged version report s

theorem Pending.stable (s t : Reported) (h : Rely setter generation s t)
    (pending : Pending setter generation version report s) :
    Pending setter generation version report t :=
  ⟨h.told pending.1, h.unchanged version report pending.2⟩

/-- A call for a child changes no report. -/
theorem Pending.child {op : Operator.Op} {ans : Ans (.child op)}
    (h : Pending setter generation version report s)
    (hapi : api (.child op) s fate = some (t, ans)) :
    Pending setter generation version report t := by
  obtain ⟨⟨c, got⟩, hgot, e⟩ := Option.map_eq_some_iff.mp hapi
  obtain ⟨rfl, rfl⟩ := Prod.mk.inj e
  refine ⟨h.1, ?_⟩
  obtain same | ⟨status, changed⟩ := api_runtime hgot
  · exact fun rt hrt => h.2 rt (same ▸ hrt)
  · exact h.2.of_changed changed

theorem api_now {now : ℕ} (h : api .now s fate = some (t, now)) : t = s := by
  cases fate with
  | done =>
    cases h
    rfl
  | _ => cases h

/-- What is written is made from the report that is there. -/
theorem Pending.write (rt : AgentRuntime) (c : Call)
    (h : Pending setter generation version report s)
    (same : s.cluster.runtime.any (·.resourceVersion == version)) :
    Pending setter generation version report (s.write rt
      { report with
        observedGeneration := report.generation
        conditions := c.conditions setter report.generation report.conditions } c) := by
  rw [Option.any_eq_true] at same
  obtain ⟨rt', hrt', hversion⟩ := same
  have current : s.report = report := (h.2 rt' hrt').2 (by simpa using hversion)
  refine ⟨run_snoc.mpr ⟨s.report, h.1, ?_⟩, h.2.of_changed rfl⟩
  rw [← current]
  rfl

theorem conclusion_keeps {rt : AgentRuntime} {reconcileErr : Option GoError}
    (hrt : rt.resourceVersion = version) (h : Pending setter generation version report s) :
    (conclusion setter rt
      { report with
        conditions := setter.set begun (reconciling report.generation) report.conditions }
      begun reconcileErr).Keeps api (Rely setter generation)
        (Pending setter generation version report) (fun _ _ => True) s := by
  refine keeps_call Pending.stable h fun _ _ _ first _ h₁ hfirst => ?_
  obtain rfl := api_now hfirst
  refine keeps_call Pending.stable h₁ fun _ _ _ second _ h₂ hsecond => ?_
  obtain rfl := api_now hsecond
  refine keeps_call Pending.stable h₂ fun _ _ _ third _ h₃ hthird => ?_
  obtain rfl := api_now hthird
  refine keeps_call Pending.stable h₃ fun _ _ _ ans _ h₄ hwrite => ?_
  obtain ⟨rfl, err, rfl⟩ | ⟨same, rfl⟩ := write_cases hwrite
  · exact ⟨h₄, trivial⟩
  · have written := h₄.write rt ⟨begun, first, second, third, reconcileErr⟩ (hrt ▸ same)
    cases ans with
    | some err => exact ⟨written, trivial⟩
    | none =>
      cases reconcileErr with
      | some err => exact ⟨written, trivial⟩
      | none => exact ⟨written, trivial⟩

/-- The children's procedures change the status in memory only. -/
def KeepsVersion (rt : AgentRuntime) (r : Except GoError AgentRuntime) : Prop :=
  ∀ rt', r = .ok rt' → rt'.resourceVersion = rt.resourceVersion

theorem returns_withStatus (rt : AgentRuntime) (status : AgentRuntimeStatus)
    (p : Operator.Proc (Except GoError Unit)) :
    Returns (KeepsVersion rt) (withStatus rt status p) := by
  refine (returns_always (fun _ => trivial) p).bind fun r _ => ?_
  cases r with
  | error err => exact fun rt' e => by cases e
  | ok _ =>
    intro rt' e
    cases e
    rfl

theorem returns_error {rt : AgentRuntime} {err : GoError} :
    Returns (KeepsVersion rt) (pure (.error err) : Operator.Proc (Except GoError AgentRuntime)) :=
  fun rt' e => by cases e

theorem returns_reconcileWorkload (rt : AgentRuntime) :
    Returns (KeepsVersion rt) (reconcileWorkload parse rt) := by
  unfold reconcileWorkload
  split_ifs
  · refine (returns_always (fun _ => trivial) _).bind fun r _ => ?_
    cases r with
    | error err => exact returns_error
    | ok _ => exact returns_withStatus ..
  · refine (returns_always (fun _ => trivial) _).bind fun r _ => ?_
    cases r with
    | error err => exact returns_error
    | ok _ =>
      simp only [reconcileDeployment]
      cases buildContainers parse rt (a2aPort rt) with
      | error err => exact returns_error
      | ok containers => exact returns_withStatus ..
  · exact returns_error

theorem returns_reconcileChildren (rt : AgentRuntime) :
    Returns (fun x => x.1.resourceVersion = rt.resourceVersion) (reconcileChildren parse rt) := by
  refine (returns_withStatus ..).bind fun r₁ h₁ => ?_
  cases r₁ with
  | error err => rfl
  | ok rt₁ =>
    refine (returns_withStatus ..).bind fun r₂ h₂ => ?_
    cases r₂ with
    | error err => exact h₁ rt₁ rfl
    | ok rt₂ =>
      refine (returns_reconcileWorkload rt₂).bind fun r₃ h₃ => ?_
      have second := (h₂ rt₂ rfl).trans (h₁ rt₁ rfl)
      cases r₃ with
      | error err => exact second
      | ok rt₃ => exact (h₃ rt₃ rfl).trans second

theorem reconcileFetched_keeps {rt : AgentRuntime}
    (h : Pending setter generation rt.resourceVersion report s) :
    (reconcileFetched setter parse rt report).Keeps api (Rely setter generation)
      (Pending setter generation rt.resourceVersion report) (fun _ _ => True) s := by
  refine keeps_call Pending.stable h fun _ _ _ begun _ h₁ hbegun => ?_
  obtain rfl := api_now hbegun
  refine Keeps.bind ((keeps_lift Pending.stable (fun _ _ _ _ _ => Pending.child)
    (returns_reconcileChildren rt) h₁).mono (fun _ => id) ?_)
  intro v x hv same
  exact conclusion_keeps same hv

theorem reconcile_keeps_told (h : Told setter generation s) :
    (reconcile setter parse).Keeps api (Rely setter generation) (Told setter generation)
      (fun _ _ => True) s := by
  have stable : ∀ s t, Rely setter generation s t → Told setter generation s →
      Told setter generation t := fun _ _ rely => rely.told
  refine keeps_call stable h fun u fate t ans _ hu hapi => ?_
  obtain ⟨⟨c, got⟩, hgot, e⟩ := Option.map_eq_some_iff.mp hapi
  obtain ⟨rfl, rfl⟩ := Prod.mk.inj e
  obtain ⟨rfl, ⟨-, rfl⟩ | ⟨rt, hrt, rfl⟩ | ⟨err, rfl⟩⟩ := api_getRuntime hgot
  · exact ⟨hu, trivial⟩
  · have read : Unchanged rt.resourceVersion u.report u := by
      intro rt' hrt'
      obtain rfl := Option.some.inj (hrt.symm.trans hrt')
      exact ⟨le_rfl, fun _ => rfl⟩
    -- from here on the report that was read is the one in the cluster, or the update is refused
    exact (reconcileFetched_keeps ⟨hu, read⟩).mono (fun _ pending => pending.1) fun _ _ _ => id
  · exact ⟨hu, trivial⟩

theorem told_of_run {cluster : Cluster} {clock : ℕ} {acts : List (Loop.Act Change Fate)}
    {s : System} (h : run (systemStep setter parse) ⟨.new cluster generation clock, none⟩ acts =
      some s) : Told setter generation s.store :=
  (Loop.keeps Rely.refl Rely.trans (fun _ _ rely => rely.told) rely_change
    (fun _ => reconcile_keeps_told) h rfl).1

end Told

/-- As `Progressing` is set to true in memory first, its transition time is new after every call.
So each status update that takes effect in another second than the last one changes the conditions,
also when there is nothing to do. -/
theorem status_updates_change_conditions (setter : ConditionSetter) (parse : QuantityParser)
    (cluster : Cluster) (generation clock : ℕ) (acts : List (Loop.Act Change Fate))
    (s t : System) (act : Loop.Act Change Fate) (c latest : Call) (earlier : List Call)
    (h : run (systemStep setter parse) ⟨.new cluster generation clock, none⟩ acts = some s)
    (hstep : systemStep setter parse s act = some t)
    (written : t.store.log = s.store.log ++ [.reconcile c])
    (before : calls s.store.log = latest :: earlier) (later : c.third ≠ latest.third) :
    t.store.report.conditions ≠ s.store.report.conditions := by
  have shown := Tells.run (told_of_run h)
  have shown' := Tells.run (told_of_run (run_snoc.mpr ⟨s, h, hstep⟩))
  rw [before] at shown
  rw [written, calls_reconcile] at shown'
  intro same
  have both := shown'.progressing.symm.trans (same ▸ shown.progressing)
  simp only [Option.some.injEq, StatusCondition.mk.injEq] at both
  exact later both.2

theorem status_updates_change_conditions_lostUpdate : ∃ s t,
    run (systemStep inOrder refuseQuantity) ⟨.new emptyCluster 1 0, none⟩ lostUpdate = some s ∧
      systemStep inOrder refuseQuantity s (.call .done) = some t ∧
      t.store.report.conditions ≠ s.store.report.conditions := by
  have observed : (run (systemStep inOrder refuseQuantity) ⟨.new emptyCluster 1 0, none⟩
      lostUpdate).bind (fun s => (systemStep inOrder refuseQuantity s (.call .done)).map
        fun t => (s.store.log, t.store.log)) =
      some ([.reconcile ⟨1, 1, 1, 1, none⟩],
        [.reconcile ⟨1, 1, 1, 1, none⟩, .reconcile ⟨5, 5, 5, 5, none⟩]) := by decide +kernel
  obtain ⟨s, hs, next⟩ := Option.bind_eq_some_iff.mp observed
  obtain ⟨t, ht, e⟩ := Option.map_eq_some_iff.mp next
  obtain ⟨log, log'⟩ := Prod.mk.inj e
  refine ⟨s, t, hs, ht, status_updates_change_conditions inOrder refuseQuantity emptyCluster 1 0
    lostUpdate s t (.call .done) ⟨5, 5, 5, 5, none⟩ ⟨1, 1, 1, 1, none⟩ [] hs ht ?_ ?_ (by decide)⟩
  · rw [log, log']
    rfl
  · rw [log]
    rfl

end Conditions

end Daedalus.Operator
