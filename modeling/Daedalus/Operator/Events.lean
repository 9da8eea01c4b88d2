import Daedalus.Foundation.Controller
import Daedalus.Operator.Rotation

/-!
# Secret changes and the work queue

When `ModelConfigReconciler.Reconcile` is called: for a configuration that is changed, and for the
configurations that `mapSecretToModelConfigs` finds for a secret that is changed. Events are mapped
some time after the change. A call that fails, or asks to be repeated, puts its key back into the
queue. Here there are many configurations, their specs are edited, and runtimes come and go, which
is no event for this controller. An update of a status that the API server refuses as outdated may
succeed here, too.
-/
namespace Daedalus.Operator.Rotation

open Foundation Prog

/-! ## The configurations -/

/-- The model configurations of the cluster, each under its own name. -/
structure Configs where
  names : List Key
  entry : Key → Option (ModelConfigSpec × ModelConfigStatus)
  listed : ∀ key, (entry key).isSome → key ∈ names

def Configs.config (f : Configs) (key : Key) : Option ModelConfig :=
  (f.entry key).map fun e => { name := key.name, ns := key.ns, spec := e.1, status := e.2 }

def Configs.items (f : Configs) : List ModelConfig := f.names.filterMap f.config

def modelConfigKey (mc : ModelConfig) : Key := ⟨mc.ns, mc.name⟩

/-- A configuration is created, edited or, without a spec, deleted. -/
def Configs.edit (f : Configs) (key : Key) (spec : Option ModelConfigSpec) : Configs where
  names := f.names.insert key
  entry := Function.update f.entry key
    (spec.map fun spec => (spec, (f.entry key).elim {} (·.2)))
  listed key' h := by
    by_cases hkey : key' = key
    · simp [hkey]
    · rw [Function.update_of_ne hkey] at h
      exact List.mem_insert_of_mem (f.listed key' h)

def Configs.setStatus (f : Configs) (key : Key) (status : Option ModelConfigStatus) : Configs where
  names := f.names
  entry := Function.update f.entry key ((f.entry key).map fun e => (e.1, status.getD e.2))
  listed key' h := by
    refine f.listed key' ?_
    by_cases hkey : key' = key
    · subst hkey
      simpa using h
    · rwa [Function.update_of_ne hkey] at h

/-- What the controller sees of the cluster. -/
structure Site where
  configs : Configs
  secrets : Key → Option SecretData
  fleet : Fleet

/-- The configurations of the secret's namespace that refer to it. -/
def mapSecretToModelConfigs (s : Site) (secret : Key) : List Key :=
  ((s.configs.items.filter (·.ns = secret.ns)).filter fun mc =>
    (secretRefFromModelConfig mc).any (·.name = secret.name)).map modelConfigKey

inductive Change where
  | secret (key : Key) (data : Option SecretData)
  | config (key : Key) (spec : Option ModelConfigSpec)
  | runtimes (fleet : Fleet)

def Site.change (s : Site) : Change → Site
  | .secret key data => { s with secrets := Function.update s.secrets key data }
  | .config key spec => { s with configs := s.configs.edit key spec }
  | .runtimes fleet => { s with fleet }

/-! ## The controller -/

/-- What a call for `key` sees. -/
def Site.world (s : Site) (key : Key) : World where
  config := s.configs.config key
  secrets := s.secrets
  fleet := s.fleet

/-- What a call for `key` has written. -/
def Site.absorb (s : Site) (key : Key) (w : World) : Site :=
  { s with configs := s.configs.setStatus key (w.config.map (·.status)), fleet := w.fleet }

def requeue : Except GoError Result → Bool
  | .error _ => true
  | .ok result => 0 < result.requeueAfter

def controller (sha256 : List UInt8 → String) :
    Controller Key Change Op Ans Site Fate (Except GoError Result) where
  api key op s fate := (api op (s.world key) fate).map fun x => (s.absorb key x.1, x.2)
  program _ := reconcile sha256
  requeue := requeue
  change := Site.change
  mapped s
    | .secret key _ => (mapSecretToModelConfigs s key).toFinset
    | .config key _ => {key}
    | .runtimes _ => ∅

/-- What the reference of the configuration resolves to now: the hash of the secret, or the empty
hash without a reference. -/
def Resolves (sha256 : List UInt8 → String) (s : Site) (mc : ModelConfig) (hash : String) : Prop :=
  match secretRefFromModelConfig mc with
  | none => hash = ""
  | some ref => ∃ data, s.secrets (secretKey mc ref) = some data ∧ hash = hashSecretData sha256 data

/-- The status shows what the reference resolves to now. -/
def Current (sha256 : List UInt8 → String) (s : Site) (key : Key) : Prop :=
  ∀ mc, s.configs.config key = some mc →
    mc.status.degraded = false ∧ Resolves sha256 s mc mc.status.secretHash

/-- The configuration and the secret it refers to are as before. -/
structure Untouched (key : Key) (s s' : Site) : Prop where
  config : s'.configs.config key = s.configs.config key
  secret : ∀ mc, s.configs.config key = some mc → ∀ ref, secretRefFromModelConfig mc = some ref →
    s'.secrets (secretKey mc ref) = s.secrets (secretKey mc ref)

section Facts

variable {sha256 : List UInt8 → String} {s t : Site} {key key' : Key} {mc : ModelConfig}
  {hash : String}

theorem Configs.config_key {f : Configs} (h : f.config key = some mc) :
    modelConfigKey mc = key := by
  obtain ⟨e, -, rfl⟩ := Option.map_eq_some_iff.mp h
  rfl

/-- The mapping is complete and precise. -/
theorem mem_mapSecretToModelConfigs {secret : Key} : key ∈ mapSecretToModelConfigs s secret ↔
    ∃ mc, s.configs.config key = some mc ∧
      ∃ ref, secretRefFromModelConfig mc = some ref ∧ secretKey mc ref = secret := by
  simp only [mapSecretToModelConfigs, Configs.items, List.mem_map, List.mem_filter,
    List.mem_filterMap, decide_eq_true_eq, Option.any_eq_true]
  constructor
  · rintro ⟨mc, ⟨⟨⟨name, -, hmc⟩, hns⟩, ref, href, hname⟩, rfl⟩
    obtain rfl := Configs.config_key hmc
    refine ⟨mc, hmc, ref, href, ?_⟩
    simp [secretKey, hns, hname]
  · rintro ⟨mc, hmc, ref, href, rfl⟩
    have hlisted : key ∈ s.configs.names := by
      refine s.configs.listed key ?_
      obtain ⟨e, he, -⟩ := Option.map_eq_some_iff.mp hmc
      simp [he]
    exact ⟨mc, ⟨⟨⟨key, hlisted, hmc⟩, rfl⟩, ref, href, rfl⟩, Configs.config_key hmc⟩

theorem Configs.config_edit_of_ne {f : Configs} {spec : Option ModelConfigSpec} (h : key ≠ key') :
    (f.edit key' spec).config key = f.config key := by
  simp [Configs.config, Configs.edit, h]

theorem Configs.config_setStatus_of_ne {f : Configs} {status : Option ModelConfigStatus}
    (h : key ≠ key') : (f.setStatus key' status).config key = f.config key := by
  simp [Configs.config, Configs.setStatus, h]

theorem Configs.config_setStatus {f : Configs} {status : ModelConfigStatus} :
    (f.setStatus key (some status)).config key =
      (f.config key).map fun mc => { mc with status } := by
  simp [Configs.config, Configs.setStatus, Function.comp_def]

theorem Configs.setStatus_self (f : Configs) (key : Key) :
    f.setStatus key ((f.config key).map (·.status)) = f := by
  have same : (f.entry key).map (fun e => (e.1, ((f.config key).map (·.status)).getD e.2)) =
      f.entry key := by
    cases he : f.entry key with
    | none => rfl
    | some e => simp [Configs.config, he]
  simp [Configs.setStatus, same]

theorem Site.absorb_world : s.absorb key (s.world key) = s := by
  simp [Site.absorb, Site.world, Configs.setStatus_self]

theorem Untouched.refl (key : Key) (s : Site) : Untouched key s s := ⟨rfl, fun _ _ _ _ => rfl⟩

theorem Untouched.trans (key : Key) (s s' s'' : Site) (h : Untouched key s s')
    (h' : Untouched key s' s'') : Untouched key s s'' := by
  refine ⟨h'.config.trans h.config, ?_⟩
  intro mc hmc ref href
  rw [h'.secret mc (h.config.trans hmc) ref href, h.secret mc hmc ref href]

theorem Resolves.untouched (h : Resolves sha256 s mc hash) (hmc : s.configs.config key = some mc)
    (untouched : Untouched key s t) : Resolves sha256 t mc hash := by
  unfold Resolves at h ⊢
  cases href : secretRefFromModelConfig mc with
  | none => simpa [href] using h
  | some ref =>
    simp only [href] at h ⊢
    rw [untouched.secret mc hmc ref href]
    exact h

theorem Current.untouched (key : Key) (s t : Site) (untouched : Untouched key s t)
    (h : Current sha256 s key) : Current sha256 t key := by
  intro mc hmc
  have hmc : s.configs.config key = some mc := untouched.config ▸ hmc
  exact ⟨(h mc hmc).1, (h mc hmc).2.untouched hmc untouched⟩

/-- A change that matters to a configuration is mapped to it. -/
theorem noticed (s : Site) (e : Change) (key : Key) :
    key ∈ (controller sha256).mapped (s.change e) e ∨ Untouched key s (s.change e) := by
  cases e with
  | secret secret data =>
    by_cases hkey : key ∈ mapSecretToModelConfigs s secret
    · exact .inl (List.mem_toFinset.mpr hkey)
    · refine .inr ⟨rfl, ?_⟩
      intro mc hmc ref href
      refine Function.update_of_ne ?_ _ _
      intro same
      exact hkey (mem_mapSecretToModelConfigs.mpr ⟨mc, hmc, ref, href, same⟩)
  | config key' spec =>
    by_cases hkey : key = key'
    · exact .inl (Finset.mem_singleton.mpr hkey)
    · exact .inr ⟨Configs.config_edit_of_ne hkey, fun _ _ _ _ => rfl⟩
  | runtimes fleet => exact .inr ⟨rfl, fun _ _ _ _ => rfl⟩

/-- An event that stands for a configuration does so after other changes. -/
theorem remembered (s : Site) (e e' : Change) (key : Key)
    (h : key ∈ (controller sha256).mapped s e') :
    key ∈ (controller sha256).mapped (s.change e) e' ∨
      key ∈ (controller sha256).mapped (s.change e) e := by
  cases e' with
  | config key' spec => exact .inl h
  | runtimes fleet => exact .inl h
  | secret secret data =>
    obtain ⟨mc, hmc, refers⟩ := mem_mapSecretToModelConfigs.mp (List.mem_toFinset.mp h)
    have keeps (hconfig : (s.change e).configs.config key = s.configs.config key) :
        key ∈ (controller sha256).mapped (s.change e) (.secret secret data) :=
      List.mem_toFinset.mpr
        (mem_mapSecretToModelConfigs.mpr ⟨mc, hconfig.trans hmc, refers⟩)
    cases e with
    | secret secret' data' => exact .inl (keeps rfl)
    | runtimes fleet => exact .inl (keeps rfl)
    | config key' spec =>
      by_cases hkey : key = key'
      · exact .inr (Finset.mem_singleton.mpr hkey)
      · exact .inl (keeps (Configs.config_edit_of_ne hkey))

/-! ## One call of Reconcile -/

variable {fate : Fate}

theorem api_site {op : Op} {ans : Ans op}
    (h : (controller sha256).api key op s fate = some (t, ans)) :
    ∃ w, api op (s.world key) fate = some (w, ans) ∧ t = s.absorb key w := by
  obtain ⟨⟨w, ans'⟩, hw, e⟩ := Option.map_eq_some_iff.mp h
  cases e
  exact ⟨w, hw, rfl⟩

theorem absorb_annotated {rt : AgentRuntime} : s.absorb key ((s.world key).annotated rt) =
    { s with fleet := s.fleet.update rt } := by
  simp [Site.absorb, Site.world, World.annotated, Configs.setStatus_self]

theorem absorb_withStatus {status : ModelConfigStatus} :
    s.absorb key ((s.world key).withStatus status) =
      { s with configs := s.configs.setStatus key (some status) } := by
  cases he : s.configs.entry key with
  | none => simp [Site.absorb, Site.world, World.withStatus, Configs.setStatus, he]
  | some e =>
    simp [Site.absorb, Site.world, World.withStatus, Configs.setStatus, Configs.config, he]

/-- What a call of the API can do to the site. -/
inductive Written (key : Key) (s : Site) : Site → Prop
  | nothing : Written key s s
  | fleet (fleet : Fleet) : Written key s { s with fleet }
  | status (status : ModelConfigStatus) :
    Written key s { s with configs := s.configs.setStatus key (some status) }

theorem api_written {op : Op} {ans : Ans op}
    (h : (controller sha256).api key op s fate = some (t, ans)) : Written key s t := by
  obtain ⟨w, hw, rfl⟩ := api_site h
  cases op with
  | getConfig =>
    obtain ⟨rfl, -⟩ := api_getConfig hw
    rw [Site.absorb_world]
    exact .nothing
  | getSecret secret =>
    have same : s.absorb key w = s := by
      obtain ⟨data, -, -, rfl, -⟩ | ⟨rfl, -⟩ := api_getSecret hw
      · exact Site.absorb_world
      · exact Site.absorb_world
    rw [same]
    exact .nothing
  | listRuntimes =>
    obtain ⟨rfl, -⟩ := api_listRuntimes hw
    rw [Site.absorb_world]
    exact .nothing
  | updateRuntime rt =>
    obtain ⟨rfl, -⟩ | ⟨-, rfl⟩ := write_cases hw
    · rw [Site.absorb_world]
      exact .nothing
    · rw [absorb_annotated]
      exact .fleet _
  | updateStatus mc =>
    obtain ⟨rfl, -⟩ | ⟨-, rfl⟩ := write_cases hw
    · rw [Site.absorb_world]
      exact .nothing
    · rw [absorb_withStatus]
      exact .status _

theorem Written.config_of_ne {other : Key} (h : Written key s t) (hother : other ≠ key) :
    t.configs.config other = s.configs.config other := by
  cases h with
  | nothing => rfl
  | fleet fleet => rfl
  | status status => exact Configs.config_setStatus_of_ne hother

theorem Written.secrets (h : Written key s t) : t.secrets = s.secrets := by
  cases h <;> rfl

/-- A call says nothing new about which configurations refer to which secrets. -/
theorem Written.refers {other secret : Key} (h : Written key s t) :
    (∃ mc, t.configs.config other = some mc ∧
      ∃ ref, secretRefFromModelConfig mc = some ref ∧ secretKey mc ref = secret) ↔
    ∃ mc, s.configs.config other = some mc ∧
      ∃ ref, secretRefFromModelConfig mc = some ref ∧ secretKey mc ref = secret := by
  cases h with
  | nothing => rfl
  | fleet fleet => rfl
  | status status =>
    by_cases hother : other = key
    · subst hother
      simp only [Configs.config_setStatus, Option.map_eq_some_iff]
      constructor
      · rintro ⟨_, ⟨mc, hmc, rfl⟩, refers⟩
        exact ⟨mc, hmc, refers⟩
      · rintro ⟨mc, hmc, refers⟩
        exact ⟨{ mc with status }, ⟨mc, hmc, rfl⟩, refers⟩
    · rw [Configs.config_setStatus_of_ne hother]

theorem apart (key : Key) (op : Op) (s : Site) (fate : Fate) (t : Site) (ans : Ans op)
    (h : (controller sha256).api key op s fate = some (t, ans)) :
    (controller sha256).mapped t = (controller sha256).mapped s ∧
      ∀ other, other ≠ key → Untouched other s t := by
  have written := api_written h
  constructor
  · funext e
    cases e with
    | config key' spec => rfl
    | runtimes fleet => rfl
    | secret secret data =>
      ext other
      simp only [controller, List.mem_toFinset, mem_mapSecretToModelConfigs]
      exact written.refers
  · intro other hother
    refine ⟨written.config_of_ne hother, ?_⟩
    intro _ _ _ _
    rw [written.secrets]

/-- The configuration is `mc`. -/
def Holds (key : Key) (mc : ModelConfig) (s : Site) : Prop := s.configs.config key = some mc

theorem Holds.stable (s t : Site) (untouched : Untouched key s t) (h : Holds key mc s) :
    Holds key mc t :=
  untouched.config.trans h

/-- The hash was computed from the secret as it is now. -/
structure Fresh (sha256 : List UInt8 → String) (key : Key) (mc : ModelConfig) (hash : String)
    (s : Site) : Prop where
  holds : Holds key mc s
  resolves : Resolves sha256 s mc hash

theorem Fresh.stable (s t : Site) (untouched : Untouched key s t) (h : Fresh sha256 key mc hash s) :
    Fresh sha256 key mc hash t :=
  ⟨h.holds.stable s t untouched, h.resolves.untouched h.holds untouched⟩

theorem resolveSecretHash_fresh (h : Holds key mc s) :
    (resolveSecretHash sha256 mc).Keeps ((controller sha256).api key) (Untouched key)
      (Holds key mc) (fun t r => ∀ hash, r = .ok hash → Fresh sha256 key mc hash t) s := by
  unfold resolveSecretHash
  cases href : secretRefFromModelConfig mc with
  | none =>
    refine keeps_pure.mpr ⟨h, ?_⟩
    rintro _ ⟨⟩
    exact ⟨h, by simp [Resolves, href]⟩
  | some ref =>
    refine keeps_call Holds.stable h ?_
    intro u fate t ans _ hu hapi
    obtain ⟨w, hw, rfl⟩ := api_site hapi
    obtain ⟨data, -, hdata, rfl, rfl⟩ | ⟨rfl, rfl | ⟨err, rfl⟩⟩ := api_getSecret hw
    · have same : u.absorb key { u.world key with lastRead := some data } = u := Site.absorb_world
      rw [same]
      refine keeps_pure.mpr ⟨hu, ?_⟩
      rintro _ ⟨⟩
      refine ⟨hu, ?_⟩
      simp only [Resolves, href]
      exact ⟨data, hdata, rfl⟩
    · rw [Site.absorb_world]
      exact keeps_error hu
    · rw [Site.absorb_world]
      exact keeps_error hu

/-- The runtimes are annotated: nothing that the hash depends on is changed. -/
theorem annotateAll_fresh {mc' : ModelConfig} {rts : List AgentRuntime}
    (h : Fresh sha256 key mc hash s) :
    (annotateAll mc' hash rts).Keeps ((controller sha256).api key) (Untouched key)
      (Fresh sha256 key mc hash) (fun _ _ => True) s := by
  induction rts generalizing s with
  | nil => exact ⟨h, trivial⟩
  | cons rt rts ih =>
    simp only [annotateAll]
    split_ifs
    · exact ih h
    · exact ih h
    · refine keeps_call Fresh.stable h ?_
      intro u fate t ans _ hu hapi
      obtain ⟨w, hw, rfl⟩ := api_site hapi
      have ht : Fresh sha256 key mc hash (u.absorb key w) := by
        obtain ⟨rfl, -⟩ | ⟨-, rfl⟩ := write_cases hw
        · rwa [Site.absorb_world]
        · rw [absorb_annotated]
          exact ⟨hu.holds, hu.resolves⟩
      cases ans with
      | some err => exact ⟨ht, trivial⟩
      | none => exact ih ht

theorem propagate_fresh {mc' : ModelConfig} (h : Fresh sha256 key mc hash s) :
    (propagateHashToAgentRuntimes mc' hash).Keeps ((controller sha256).api key) (Untouched key)
      (Fresh sha256 key mc hash) (fun _ _ => True) s := by
  refine keeps_call Fresh.stable h ?_
  intro u fate t ans _ hu hapi
  obtain ⟨w, hw, rfl⟩ := api_site hapi
  obtain ⟨rfl, rfl | ⟨err, rfl⟩⟩ := api_listRuntimes hw
  · rw [Site.absorb_world]
    exact annotateAll_fresh hu
  · rw [Site.absorb_world]
    exact ⟨hu, trivial⟩

/-- A call that is not repeated has brought the status up to date. -/
def Achieves (sha256 : List UInt8 → String) (key : Key) (t : Site) (r : Except GoError Result) :
    Prop :=
  requeue r = false → Current sha256 t key

theorem persistStatus_achieves (h : Fresh sha256 key mc hash s) :
    (persistStatus { mc with status := { secretHash := hash, degraded := false } }).Keeps
      ((controller sha256).api key) (Untouched key) (fun _ => True) (Achieves sha256 key) s := by
  refine keeps_call (fun _ _ _ _ => trivial) trivial ?_
  intro u fate t ans untouched _ hapi
  obtain ⟨w, hw, rfl⟩ := api_site hapi
  cases ans with
  | some err => exact ⟨trivial, fun done => by cases done⟩
  | none =>
    obtain ⟨-, err, e⟩ | ⟨-, rfl⟩ := write_cases hw
    · cases e
    · have hu := h.stable s u untouched
      refine keeps_pure.mpr ⟨trivial, fun _ => ?_⟩
      rw [absorb_withStatus]
      intro mc' hmc'
      have hmc' : (u.configs.config key).map (fun mc =>
          { mc with status := { secretHash := hash, degraded := false } }) = some mc' :=
        Configs.config_setStatus.symm.trans hmc'
      rw [hu.holds] at hmc'
      cases hmc'
      exact ⟨rfl, hu.resolves⟩

theorem persistDegraded_achieves :
    (persistDegraded mc).Keeps ((controller sha256).api key) (Untouched key) (fun _ => True)
      (Achieves sha256 key) s := by
  refine keeps_call (fun _ _ _ _ => trivial) trivial ?_
  intro u fate t ans _ _ _
  cases ans with
  | some err => exact ⟨trivial, fun done => by cases done⟩
  | none => exact ⟨trivial, fun done => by cases done⟩

theorem reconcile_achieves (key : Key) (s : Site) :
    (reconcile sha256).Keeps ((controller sha256).api key) (Untouched key) (fun _ => True)
      (Achieves sha256 key) s := by
  refine keeps_call (fun _ _ _ _ => trivial) trivial ?_
  intro u fate t ans _ _ hapi
  obtain ⟨w, hw, rfl⟩ := api_site hapi
  obtain ⟨rfl, answer⟩ := api_getConfig hw
  rw [Site.absorb_world]
  obtain rfl | ⟨err, rfl⟩ := answer
  · cases hmc : (u.world key).config with
    | none =>
      refine keeps_pure.mpr ⟨trivial, fun _ mc hmc' => ?_⟩
      cases hmc.symm.trans hmc'
    | some mc =>
      refine Keeps.bind ((resolveSecretHash_fresh hmc).mono (fun _ _ => trivial) ?_)
      intro t r _ resolved
      cases r with
      | error err => exact persistDegraded_achieves
      | ok secretHash =>
        have fresh := resolved secretHash rfl
        dsimp only
        split_ifs
        · refine Keeps.bind ((propagate_fresh fresh).mono (fun _ _ => trivial) ?_)
          intro t r fresh _
          cases r with
          | error err => exact ⟨trivial, fun done => by cases done⟩
          | ok _ =>
            have persisted := persistStatus_achieves fresh
            exact persisted
        · have persisted := persistStatus_achieves fresh
          exact persisted
  · exact ⟨trivial, fun done => by cases done⟩

theorem controller_sound (sha256 : List UInt8 → String) :
    (controller sha256).Sound (fun _ _ => True) (Current sha256) Untouched where
  refl := Untouched.refl
  trans := Untouched.trans
  stable := Current.untouched
  noticed s e key _ := noticed s e key
  remembered s e e' key _ := remembered s e e' key
  apart := apart
  brings := reconcile_achieves

end Facts

abbrev Desk := Controller.State Key Change Op Ans Site (Except GoError Result)

abbrev DeskAct := Controller.Act Key Change Fate

/-- No change is lost. Start with all configurations in the queue, as the controller does. Whatever
becomes of secrets, configurations and API calls, as long as `mapSecretToModelConfigs` can list the
configurations: one that is not due and not being worked on shows the hash of its secret as it is
now. -/
theorem secret_changes_reach_status (sha256 : List UInt8 → String) (s t : Desk)
    (acts : List DeskAct) (key : Key) (mc : ModelConfig)
    (queued : ∀ key, (s.store.configs.config key).isSome → key ∈ s.queue) (idle : s.running = none)
    (listed : ∀ act ∈ acts, act ≠ .drop) (h : run (controller sha256).step s acts = some t)
    (settled : ¬ (controller sha256).Due t key) (free : ∀ q, t.running ≠ some (key, q))
    (present : t.store.configs.config key = some mc) :
    mc.status.degraded = false ∧ Resolves sha256 t.store mc mc.status.secretHash := by
  refine (controller_sound sha256).current_of_run ?_ idle (Controller.regular_of_mapped listed) h
    settled free mc present
  intro key
  by_cases hconfig : (s.store.configs.config key).isSome
  · exact .inl (queued key hconfig)
  · refine .inr fun mc hmc => ?_
    simp [hmc] at hconfig

/-! ## One configuration -/

def openaiKey : Key := ⟨"agents", "openai"⟩

/-- The configuration of two runtimes, in a cluster without secrets. -/
def opened : Desk where
  store :=
    { configs :=
        { names := [openaiKey]
          entry := fun key => if key = openaiKey then some (openai.spec, {}) else none
          listed := by simp +contextual }
      secrets := fun _ => none
      fleet := beginning.fleet }
  queue := {openaiKey}
  pending := []
  running := none

def rotate (data : SecretData) : DeskAct := .change (.secret ⟨"agents", "openai-key"⟩ (some data))

/-- The key is taken from the queue, and a call with so many API calls is made for it. -/
def attend (calls : ℕ) : List DeskAct :=
  .start openaiKey :: List.replicate calls (.call .done) ++ [.finish]

/-- The second key is rotated in while a call works with the first one. -/
def overtaken : List DeskAct :=
  [rotate firstKey, .deliver, .start openaiKey, .call .done, .call .done, rotate secondKey] ++
    List.replicate 4 (.call .done) ++ [.finish, .deliver] ++ attend 6

theorem secret_changes_reach_status_overtaken : ∃ t mc,
    run (controller digest).step opened overtaken = some t ∧
      t.store.configs.config openaiKey = some mc ∧ mc.status.degraded = false ∧
      Resolves digest t.store mc mc.status.secretHash := by
  have observed : (run (controller digest).step opened overtaken).map (fun t =>
      (t.queue, t.pending.length, t.running.isNone, (t.store.configs.config openaiKey).isSome)) =
        some (∅, 0, true, true) := by decide
  obtain ⟨t, ht, hobs⟩ := Option.map_eq_some_iff.mp observed
  simp only [Prod.mk.injEq, List.length_eq_zero_iff, Option.isNone_iff_eq_none,
    Option.isSome_iff_exists] at hobs
  obtain ⟨queue, pending, running, mc, hmc⟩ := hobs
  refine ⟨t, mc, ht, hmc, secret_changes_reach_status digest opened t overtaken openaiKey mc ?_ rfl
    ?_ ht ?_ ?_ hmc⟩
  · intro key hkey
    by_cases hk : key = openaiKey
    · simp [opened, hk]
    · simp [opened, Configs.config, hk] at hkey
  · intro act hact e
    subst e
    simp [overtaken, attend, rotate] at hact
  · simp [Controller.Due, queue, pending]
  · simp [running]

/-- The listing fails after a change: the status keeps the hash of the first key while the secret
has the second one, and nothing is left to be done. -/
example : (run (controller digest).step opened
    ([rotate firstKey, .deliver] ++ attend 6 ++ [rotate secondKey, .drop])).map (fun t =>
      ((t.queue, t.pending.length, t.running.isNone), t.store.configs.config openaiKey,
        decide (t.store.secrets ⟨"agents", "openai-key"⟩ = some secondKey))) =
    some ((∅, 0, true),
      some { openai with status := { secretHash := hashSecretData digest firstKey } },
      true) := by decide

end Daedalus.Operator.Rotation
