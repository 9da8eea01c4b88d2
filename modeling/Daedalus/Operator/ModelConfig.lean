import Daedalus.Operator.Cluster

/-!
# Reconciling a model configuration

`ModelConfigReconciler.Reconcile` of `operator/internal/controller/modelconfig_controller.go`: the
hash of the referenced secret is written as an annotation to the runtimes that use the
configuration, and then to its status. The secrets change at any time, also during a call. SHA-256
is a parameter, by the text of its sum. Of the conditions only `Degraded` is kept.
-/
namespace Daedalus.Operator.Rotation

open Foundation Prog

/-! ## The hash of a secret -/

abbrev SecretData := List (String × List UInt8)

def utf8 (s : String) : List UInt8 := s.toList.flatMap String.utf8EncodeChar

/-- The hash of the data, its keys in order; no data has the empty hash. -/
def hashSecretData (sha256 : List UInt8 → String) (data : SecretData) : String :=
  if data.isEmpty then ""
  else "sha256:" ++ sha256 ((data.insertionSort (·.1 ≤ ·.1)).flatMap fun e =>
    utf8 e.1 ++ utf8 "=" ++ e.2 ++ utf8 "\n")

def secretRefFromModelConfig (mc : ModelConfig) : Option KeySelector :=
  mc.spec.apiKey.bind fun apiKey => apiKey.valueFrom.bind (·.secretKeyRef)

def secretKey (mc : ModelConfig) (ref : KeySelector) : Key := ⟨mc.ns, ref.name⟩

/-! ## The runtimes -/

def modelConfigHashAnnotation : String := "daedalus.dev/model-config-hash"

def runtimeKey (rt : AgentRuntime) : Key := ⟨rt.ns, rt.name⟩

/-- The hash that the annotation gives; a missing one reads as the empty hash. -/
def carriedHash (rt : AgentRuntime) : String :=
  (Table.load rt.annotations modelConfigHashAnnotation).getD ""

def annotate (rt : AgentRuntime) (hash : String) : AgentRuntime :=
  { rt with annotations := Table.store rt.annotations modelConfigHashAnnotation hash }

def referencesModelConfig (rt : AgentRuntime) (mc : ModelConfig) : Bool :=
  match rt.spec.modelConfigRef with
  | none => false
  | some ref =>
    if ref.name ≠ mc.name then false
    else (if ref.ns = "" then rt.ns else ref.ns) = mc.ns

@[simp] theorem carriedHash_annotate (rt : AgentRuntime) (hash : String) :
    carriedHash (annotate rt hash) = hash := by
  simp [carriedHash, annotate, Table.load_store]

/-- The runtimes of the cluster, each under its own name. -/
structure Fleet where
  names : List Key
  runtime : Key → AgentRuntime
  keyed : ∀ key, runtimeKey (runtime key) = key

def Fleet.items (f : Fleet) : List AgentRuntime := f.names.map f.runtime

def Fleet.update (f : Fleet) (rt : AgentRuntime) : Fleet where
  names := f.names
  runtime := Function.update f.runtime (runtimeKey rt) rt
  keyed key := by
    by_cases h : key = runtimeKey rt
    · simp [h]
    · simp [h, f.keyed]

/-! ## The API -/

structure World where
  config : Option ModelConfig
  secrets : Key → Option SecretData
  fleet : Fleet
  /-- What was last read from a secret. -/
  lastRead : Option SecretData := none
  /-- An annotation was written since a status that is not degraded was last written. -/
  unsettled : Bool := false

inductive Op where
  | getConfig
  | getSecret (key : Key)
  | listRuntimes
  | updateRuntime (rt : AgentRuntime)
  /-- Only the status is written. -/
  | updateStatus (mc : ModelConfig)

abbrev Ans : Op → Type
  | .getConfig => Got ModelConfig
  | .getSecret _ => Got SecretData
  | .listRuntimes => Except GoError (List AgentRuntime)
  | _ => Option GoError

def World.annotated (w : World) (rt : AgentRuntime) : World :=
  { w with fleet := w.fleet.update rt, unsettled := true }

def World.withStatus (w : World) (status : ModelConfigStatus) : World :=
  { w with
    config := w.config.map fun mc => { mc with status }
    unsettled := w.unsettled && status.degraded }

def api : Prog.Store Op Ans World Fate
  | .getConfig, w, fate =>
    match fate with
    | .done => some (w, w.config.elim .notFound .found)
    | .lost err => some (w, .failed err)
    | _ => none
  | .getSecret key, w, fate =>
    match fate with
    | .done =>
      some (match w.secrets key with
        | some data => ({ w with lastRead := some data }, .found data)
        | none => (w, .notFound))
    | .lost err => some (w, .failed err)
    | _ => none
  | .listRuntimes, w, fate =>
    match fate with
    | .done => some (w, .ok w.fleet.items)
    | .lost err => some (w, .error err)
    | _ => none
  | .updateRuntime rt, w, fate =>
    write w (runtimeKey rt ∈ w.fleet.names) (notFound (runtimeKey rt)) (w.annotated rt) fate
  | .updateStatus mc, w, fate =>
    write w w.config.isSome (.new (mc.name ++ " not found")) (w.withStatus mc.status) fate

section Answers

variable {w t : World} {fate : Fate}

theorem api_getConfig {ans : Got ModelConfig} (h : api .getConfig w fate = some (t, ans)) :
    t = w ∧ (ans = w.config.elim .notFound .found ∨ ∃ err, ans = .failed err) := by
  cases fate with
  | done =>
    cases h
    exact ⟨rfl, .inl rfl⟩
  | lost err =>
    cases h
    exact ⟨rfl, .inr ⟨err, rfl⟩⟩
  | noMatch err => cases h
  | unconfirmed err => cases h

theorem api_getSecret {key : Key} {ans : Got SecretData}
    (h : api (.getSecret key) w fate = some (t, ans)) :
    (∃ data, fate = .done ∧ w.secrets key = some data ∧ t = { w with lastRead := some data } ∧
      ans = .found data) ∨ (t = w ∧ (ans = .notFound ∨ ∃ err, ans = .failed err)) := by
  cases fate with
  | done =>
    cases hsecret : w.secrets key with
    | none =>
      simp only [api, hsecret, Option.some.injEq, Prod.mk.injEq] at h
      exact .inr ⟨h.1.symm, .inl h.2.symm⟩
    | some data =>
      simp only [api, hsecret, Option.some.injEq, Prod.mk.injEq] at h
      exact .inl ⟨data, rfl, rfl, h.1.symm, h.2.symm⟩
  | lost err =>
    cases h
    exact .inr ⟨rfl, .inr ⟨err, rfl⟩⟩
  | noMatch err => cases h
  | unconfirmed err => cases h

theorem api_listRuntimes {ans : Except GoError (List AgentRuntime)}
    (h : api .listRuntimes w fate = some (t, ans)) :
    t = w ∧ (ans = .ok w.fleet.items ∨ ∃ err, ans = .error err) := by
  cases fate with
  | done =>
    cases h
    exact ⟨rfl, .inl rfl⟩
  | lost err =>
    cases h
    exact ⟨rfl, .inr ⟨err, rfl⟩⟩
  | noMatch err => cases h
  | unconfirmed err => cases h

end Answers

abbrev Proc := Prog Op Ans

abbrev getConfig : Proc (Got ModelConfig) := perform Op.getConfig
abbrev getSecret (key : Key) : Proc (Got SecretData) := perform (Op.getSecret key)
abbrev listRuntimes : Proc (Except GoError (List AgentRuntime)) := perform Op.listRuntimes
abbrev updateRuntime (rt : AgentRuntime) : Proc (Option GoError) := perform (Op.updateRuntime rt)
abbrev updateStatus (mc : ModelConfig) : Proc (Option GoError) := perform (Op.updateStatus mc)

/-! ## Reconcile -/

/-- The runtimes that use the configuration are annotated one after another. -/
def annotateAll (mc : ModelConfig) (hash : String) :
    List AgentRuntime → Proc (Except GoError Unit)
  | [] => return .ok ()
  | rt :: rest =>
    if !referencesModelConfig rt mc then annotateAll mc hash rest
    else if carriedHash rt = hash then annotateAll mc hash rest
    else do
      match ← updateRuntime (annotate rt hash) with
      | some err => return .error err
      | none => annotateAll mc hash rest

def propagateHashToAgentRuntimes (mc : ModelConfig) (hash : String) :
    Proc (Except GoError Unit) := do
  match ← listRuntimes with
  | .error err => return .error (.wrap "listing AgentRuntimes" err)
  | .ok items => annotateAll mc hash items

/-- `ctrl.Result`; the time is in seconds. -/
structure Result where
  requeueAfter : ℕ := 0
  deriving DecidableEq, Repr

section Reconcile

variable (sha256 : List UInt8 → String)

def resolveSecretHash (mc : ModelConfig) : Proc (Except GoError String) :=
  match secretRefFromModelConfig mc with
  | none => return .ok ""
  | some ref => do
    match ← getSecret (secretKey mc ref) with
    | .found data => return .ok (hashSecretData sha256 data)
    | .notFound => return .error (notFound (secretKey mc ref))
    | .noMatch err | .failed err => return .error err

/-- The last step: only now is the hash persisted. -/
def persistStatus (mc : ModelConfig) : Proc (Except GoError Result) := do
  match ← updateStatus mc with
  | some err => return .error (.wrap "updating ModelConfig status" err)
  | none => return .ok {}

/-- The secret was not found: the hash is kept, and resolving is tried again in 30 seconds. -/
def persistDegraded (mc : ModelConfig) : Proc (Except GoError Result) := do
  match ← updateStatus { mc with status := { mc.status with degraded := true } } with
  | some statusErr => return .error statusErr
  | none => return .ok { requeueAfter := 30 }

def reconcile : Proc (Except GoError Result) := do
  match ← getConfig with
  | .notFound => return .ok {}
  | .noMatch err | .failed err => return .error (.wrap "fetching ModelConfig" err)
  | .found mc =>
    match ← resolveSecretHash sha256 mc with
    | .error _ => persistDegraded mc
    | .ok secretHash =>
      let resolved : ModelConfig := { mc with status := { secretHash, degraded := false } }
      if secretHash ≠ mc.status.secretHash then
        match ← propagateHashToAgentRuntimes resolved secretHash with
        | .error err => return .error (.wrap "propagating hash to AgentRuntimes" err)
        | .ok () => persistStatus resolved
      else persistStatus resolved

end Reconcile

/-! ## The system -/

/-- Someone changes, creates or deletes a secret. -/
def World.changeSecret (w : World) (change : Key × Option SecretData) : World :=
  { w with secrets := Function.update w.secrets change.1 change.2 }

abbrev System := Loop Op Ans World (Except GoError Result)

abbrev SystemAct := Loop.Act (Key × Option SecretData) Fate

def systemStep (sha256 : List UInt8 → String) : System → SystemAct → Option System :=
  Loop.step api World.changeSecret (reconcile sha256)

end Daedalus.Operator.Rotation
