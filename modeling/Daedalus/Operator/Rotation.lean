import Daedalus.Operator.ModelConfig

/-!
# Credential rotation

The annotations are compared with the persisted hash only through the hash of the secret: a call
that finds the persisted hash again propagates nothing. A call that fails after it wrote an
annotation leaves runtimes with a hash that was never persisted. The next call repairs this, unless
the secret is back at the persisted hash. As long as no call reads a secret that is back in this
way, every call that reaches its end leaves all runtimes with the persisted hash.
-/
namespace Daedalus.Operator.Rotation

open Foundation Prog

/-- No secret is read whose hash is the persisted one while annotations of a call that failed are
around. -/
def SettledRead (sha256 : List UInt8 → String) : Op → World → Fate → Prop
  | .getSecret key, w, .done => ∀ data ∈ w.secrets key, ∀ mc ∈ w.config,
    hashSecretData sha256 data = mc.status.secretHash → w.unsettled = false
  | _, _, _ => True

instance (sha256 : List UInt8 → String) : ∀ op w fate, Decidable (SettledRead sha256 op w fate)
  | .getSecret key, w, .done => inferInstanceAs (Decidable (∀ data ∈ w.secrets key,
      ∀ mc ∈ w.config, hashSecretData sha256 data = mc.status.secretHash → w.unsettled = false))
  | .getSecret _, _, .lost _ => isTrue trivial
  | .getSecret _, _, .noMatch _ => isTrue trivial
  | .getSecret _, _, .unconfirmed _ => isTrue trivial
  | .getConfig, _, _ => isTrue trivial
  | .listRuntimes, _, _ => isTrue trivial
  | .updateRuntime _, _, _ => isTrue trivial
  | .updateStatus _, _, _ => isTrue trivial

/-- The runtimes that use the configuration carry `hash`. -/
def Annotated (mc : ModelConfig) (hash : String) (w : World) : Prop :=
  ∀ key ∈ w.fleet.names, referencesModelConfig (w.fleet.runtime key) mc →
    carriedHash (w.fleet.runtime key) = hash

instance (mc : ModelConfig) (hash : String) (w : World) : Decidable (Annotated mc hash w) :=
  inferInstanceAs (Decidable (∀ key ∈ w.fleet.names, _ → _))

/-- The hash of the secret data that was read last, empty without a reference to a secret. -/
def resolvedHash (sha256 : List UInt8 → String) (mc : ModelConfig) (w : World) : String :=
  match secretRefFromModelConfig mc with
  | none => ""
  | some _ => (w.lastRead.map (hashSecretData sha256)).getD ""

/-- Between two API calls: the configuration is `mc`, and unless annotations were written since its
status was, the runtimes carry the persisted hash. -/
structure Consistent (mc : ModelConfig) (w : World) : Prop where
  config : w.config = some mc
  settled : w.unsettled = false → Annotated mc mc.status.secretHash w
  noSecret : secretRefFromModelConfig mc = none → w.unsettled = true → mc.status.secretHash ≠ ""

/-- What others may do: change secrets. -/
def Rely (w w' : World) : Prop := ∃ secrets, w' = { w with secrets }

theorem Rely.refl (w : World) : Rely w w := ⟨w.secrets, rfl⟩

theorem Rely.trans (w w' w'' : World) (h : Rely w w') (h' : Rely w' w'') : Rely w w'' := by
  obtain ⟨_, rfl⟩ := h
  obtain ⟨secrets, rfl⟩ := h'
  exact ⟨secrets, rfl⟩

theorem rely_changeSecret (w : World) (change : Key × Option SecretData) :
    Rely w (w.changeSecret change) := ⟨_, rfl⟩

section Calls

variable {sha256 : List UInt8 → String} {mc : ModelConfig} {w w' : World} {hash : String}

theorem Consistent.stable (hrely : Rely w w') (h : Consistent mc w) : Consistent mc w' := by
  obtain ⟨secrets, rfl⟩ := hrely
  exact ⟨h.config, h.settled, h.noSecret⟩

/-- The configuration with some status. -/
def Known (mc : ModelConfig) (w : World) : Prop :=
  ∃ status : ModelConfigStatus, Consistent { mc with status } w

theorem Known.stable (hrely : Rely w w') (h : Known mc w) : Known mc w' := by
  obtain ⟨status, hw⟩ := h
  exact ⟨status, hw.stable hrely⟩

/-- What is known once the secret is resolved. -/
structure Resolved (sha256 : List UInt8 → String) (mc : ModelConfig) (hash : String) (w : World) :
    Prop extends Consistent mc w where
  resolved : resolvedHash sha256 mc w = hash
  unchanged : hash = mc.status.secretHash → w.unsettled = false

theorem Resolved.stable (hrely : Rely w w') (h : Resolved sha256 mc hash w) :
    Resolved sha256 mc hash w' := by
  have consistent := h.toConsistent.stable hrely
  obtain ⟨secrets, rfl⟩ := hrely
  exact ⟨consistent, h.resolved, h.unchanged⟩

noncomputable abbrev restricted (sha256 : List UInt8 → String) :=
  Loop.restrict (SettledRead sha256) api

theorem resolveSecretHash_keeps (h : Consistent mc w) :
    (resolveSecretHash sha256 mc).Keeps (restricted sha256) Rely (Consistent mc)
      (fun w r => ∀ hash, r = .ok hash → Resolved sha256 mc hash w) w := by
  unfold resolveSecretHash
  cases href : secretRefFromModelConfig mc with
  | none =>
    refine keeps_pure.mpr ⟨h, ?_⟩
    intro hash hr
    cases hr
    refine ⟨h, by simp [resolvedHash, href], ?_⟩
    intro same
    by_contra unsettled
    exact h.noSecret href (by simpa using unsettled) same.symm
  | some ref =>
    refine keeps_call (fun _ _ hrely hc => hc.stable hrely) h ?_
    intro u fate t ans _ hu hapi
    obtain ⟨hok, hapi⟩ := Loop.restrict_eq_some.mp hapi
    obtain ⟨data, rfl, hsecret, rfl, rfl⟩ | ⟨rfl, rfl | ⟨err, rfl⟩⟩ := api_getSecret hapi
    · have read : Consistent mc { u with lastRead := some data } :=
        ⟨hu.config, hu.settled, hu.noSecret⟩
      refine keeps_pure.mpr ⟨read, ?_⟩
      intro hash hr
      cases hr
      exact ⟨read, by simp [resolvedHash, href], hok data hsecret mc hu.config⟩
    · exact keeps_error hu
    · exact keeps_error hu

/-- A snapshot of the runtimes is worked through: each is as it was, or annotated; those with the
keys `done` carry the new hash. -/
structure Propagating (sha256 : List UInt8 → String) (mc : ModelConfig) (hash : String) (f : Fleet)
    (done : List Key) (w : World) : Prop extends Resolved sha256 mc hash w where
  changed : hash ≠ mc.status.secretHash
  names : w.fleet.names = f.names
  runtime : ∀ key, w.fleet.runtime key = f.runtime key ∨
    w.fleet.runtime key = annotate (f.runtime key) hash
  done : ∀ key ∈ done, carriedHash (w.fleet.runtime key) = hash

variable {f : Fleet} {done : List Key}

theorem Propagating.stable (hrely : Rely w w') (h : Propagating sha256 mc hash f done w) :
    Propagating sha256 mc hash f done w' := by
  have resolved := h.toResolved.stable hrely
  obtain ⟨secrets, rfl⟩ := hrely
  exact ⟨resolved, h.changed, h.names, h.runtime, h.done⟩

/-- One more runtime carries the hash. -/
theorem Propagating.found {key : Key} (h : Propagating sha256 mc hash f done w)
    (hkey : carriedHash (f.runtime key) = hash) :
    Propagating sha256 mc hash f (key :: done) w := by
  refine ⟨h.toResolved, h.changed, h.names, h.runtime, ?_⟩
  rintro k hk
  obtain rfl | hk := List.mem_cons.mp hk
  · obtain same | annotated := h.runtime k
    · rw [same, hkey]
    · rw [annotated, carriedHash_annotate]
  · exact h.done k hk

theorem Propagating.annotated (key : Key) (h : Propagating sha256 mc hash f done w) :
    Propagating sha256 mc hash f (key :: done) (w.annotated (annotate (f.runtime key) hash)) := by
  have hkey : runtimeKey (annotate (f.runtime key) hash) = key := f.keyed key
  have runtime (k : Key) : (w.annotated (annotate (f.runtime key) hash)).fleet.runtime k =
      if k = key then annotate (f.runtime key) hash else w.fleet.runtime k := by
    change Function.update w.fleet.runtime (runtimeKey (annotate (f.runtime key) hash)) _ k = _
    rw [hkey, Function.update_apply]
  refine ⟨⟨⟨h.config, nofun, ?_⟩, h.resolved, fun same => absurd same h.changed⟩, h.changed,
    h.names, ?_, ?_⟩
  · intro href _ empty
    refine h.changed (.trans ?_ empty.symm)
    rw [← h.resolved, resolvedHash, href]
  · intro k
    rw [runtime]
    split_ifs with hk
    · subst hk
      exact .inr rfl
    · exact h.runtime k
  · intro k hk
    rw [runtime]
    split_ifs with hne
    · exact carriedHash_annotate _ hash
    · exact h.done k (List.mem_of_ne_of_mem hne hk)

/-- The loop over the keys of the snapshot that are still to come. -/
theorem annotateAll_keeps {mc' : ModelConfig} (keys : List Key)
    (h : Propagating sha256 mc hash f done w) :
    (annotateAll mc' hash (keys.map f.runtime)).Keeps (restricted sha256) Rely
      (Propagating sha256 mc hash f done)
      (fun w r => r = .ok () → ∀ key ∈ keys, referencesModelConfig (f.runtime key) mc' →
        carriedHash (w.fleet.runtime key) = hash) w := by
  induction keys generalizing done w with
  | nil => exact ⟨h, by simp⟩
  | cons key keys ih =>
    have weaken {w : World} (h : Propagating sha256 mc hash f (key :: done) w) :
        Propagating sha256 mc hash f done w :=
      ⟨h.toResolved, h.changed, h.names, h.runtime,
        fun k hk => h.done k (List.mem_cons_of_mem _ hk)⟩
    -- where `key` is done, the rest of the loop is left
    have next {w : World} (h : Propagating sha256 mc hash f (key :: done) w) :
        (annotateAll mc' hash (keys.map f.runtime)).Keeps (restricted sha256) Rely
          (Propagating sha256 mc hash f done)
          (fun w r => r = .ok () → ∀ k ∈ key :: keys, referencesModelConfig (f.runtime k) mc' →
            carriedHash (w.fleet.runtime k) = hash) w := by
      refine (ih h).mono (fun _ => weaken) ?_
      intro w r hw rest hr k hk href
      obtain rfl | hk := List.mem_cons.mp hk
      · exact hw.done k List.mem_cons_self
      · exact rest hr k hk href
    simp only [List.map_cons, annotateAll]
    split_ifs with other same
    · refine (ih h).mono (fun _ => id) ?_
      intro w r _ rest hr k hk href
      obtain rfl | hk := List.mem_cons.mp hk
      · simp [href] at other
      · exact rest hr k hk href
    · exact next (h.found same)
    · refine keeps_call (fun _ _ hrely hw => hw.stable hrely) h ?_
      intro u fate t ans _ hu hapi
      obtain ⟨rfl, err, rfl⟩ | ⟨-, rfl⟩ := write_cases (Loop.restrict_eq_some.mp hapi).2
      · exact ⟨hu, nofun⟩
      · have ht := hu.annotated key
        cases ans with
        | some err => exact ⟨weaken ht, nofun⟩
        | none => exact next ht

theorem propagate_keeps {status : ModelConfigStatus} (changed : hash ≠ mc.status.secretHash)
    (h : Resolved sha256 mc hash w) :
    (propagateHashToAgentRuntimes { mc with status } hash).Keeps (restricted sha256) Rely
      (Resolved sha256 mc hash) (fun w r => r = .ok () → Annotated mc hash w) w := by
  refine keeps_call (fun _ _ hrely hw => hw.stable hrely) h ?_
  intro u fate t ans _ hu hapi
  obtain ⟨rfl, rfl | ⟨err, rfl⟩⟩ := api_listRuntimes (Loop.restrict_eq_some.mp hapi).2
  · have start : Propagating sha256 mc hash t.fleet [] t :=
      ⟨hu, changed, rfl, fun _ => .inl rfl, by simp⟩
    refine (annotateAll_keeps t.fleet.names start).mono (fun _ hw => hw.toResolved) ?_
    intro w r hw all hr key hkey href
    -- the runtime refers to the configuration as the snapshot did
    have snapshot : referencesModelConfig (t.fleet.runtime key) mc := by
      obtain runtime | runtime := hw.runtime key
      · rw [runtime] at href
        exact href
      · rw [runtime] at href
        exact href
    exact all hr key (hw.names ▸ hkey) snapshot
  · exact ⟨hu, nofun⟩

/-- Where the secret cannot be read the hash is kept, and the annotations as they are. -/
theorem persistDegraded_keeps {Q : World → Prop} (h : Consistent mc w) :
    (persistDegraded mc).Keeps (restricted sha256) Rely (Known mc)
      (fun w r => r = .ok {} → Q w) w := by
  refine keeps_call (fun _ _ hrely hw => hw.stable hrely) (⟨mc.status, h⟩ : Known mc w) ?_
  intro u fate t ans hrely _ hapi
  have hu := h.stable hrely
  obtain ⟨rfl, err, rfl⟩ | ⟨-, rfl⟩ := write_cases (Loop.restrict_eq_some.mp hapi).2
  · exact ⟨⟨mc.status, hu⟩, nofun⟩
  · have ht : Consistent { mc with status := { mc.status with degraded := true } }
        (u.withStatus { mc.status with degraded := true }) := by
      refine ⟨by simp [World.withStatus, hu.config], ?_, ?_⟩
      · intro settled
        exact hu.settled (by simpa [World.withStatus] using settled)
      · intro href unsettled
        exact hu.noSecret href (by simpa [World.withStatus] using unsettled)
    cases ans with
    | some err => exact ⟨⟨_, ht⟩, nofun⟩
    | none =>
      refine keeps_pure.mpr ⟨⟨_, ht⟩, ?_⟩
      intro hr
      cases hr

/-- The configuration is resolved, its hash is that of the data read last, and the runtimes that
use it carry the hash. -/
def Rotated (sha256 : List UInt8 → String) (mc : ModelConfig) (w : World) : Prop :=
  ∃ status : ModelConfigStatus, w.config = some { mc with status } ∧ status.degraded = false ∧
    status.secretHash = resolvedHash sha256 mc w ∧ Annotated mc status.secretHash w

theorem persistStatus_keeps (h : Resolved sha256 mc hash w) (annotated : Annotated mc hash w) :
    (persistStatus { mc with status := { secretHash := hash, degraded := false } }).Keeps
      (restricted sha256) Rely (Known mc) (fun w r => r = .ok {} → Rotated sha256 mc w) w := by
  refine keeps_call (fun _ _ hrely hw => hw.stable hrely)
    (⟨mc.status, h.toConsistent⟩ : Known mc w) ?_
  intro u fate t ans hrely _ hapi
  have hu := h.stable hrely
  have annotated : Annotated mc hash u := by
    obtain ⟨_, rfl⟩ := hrely
    exact annotated
  obtain ⟨rfl, err, rfl⟩ | ⟨-, rfl⟩ := write_cases (Loop.restrict_eq_some.mp hapi).2
  · exact ⟨⟨mc.status, hu.toConsistent⟩, nofun⟩
  · have config : (u.withStatus { secretHash := hash, degraded := false }).config =
        some { mc with status := { secretHash := hash, degraded := false } } := by
      simp [World.withStatus, hu.config]
    have ht : Consistent { mc with status := { secretHash := hash, degraded := false } }
        (u.withStatus { secretHash := hash, degraded := false }) := by
      refine ⟨config, fun _ => annotated, ?_⟩
      intro _ unsettled
      simp [World.withStatus] at unsettled
    cases ans with
    | some err => exact ⟨⟨_, ht⟩, nofun⟩
    | none => exact ⟨⟨_, ht⟩, fun _ => ⟨_, config, rfl, hu.resolved.symm, annotated⟩⟩

theorem reconcile_keeps (h : Known mc w) :
    (reconcile sha256).Keeps (restricted sha256) Rely (Known mc)
      (fun w r => r = .ok {} → Rotated sha256 mc w) w := by
  refine keeps_call (fun _ _ hrely hw => hw.stable hrely) h ?_
  intro u fate t ans _ hu hapi
  obtain ⟨rfl, answer⟩ := api_getConfig (Loop.restrict_eq_some.mp hapi).2
  obtain ⟨status, consistent⟩ := hu
  rw [consistent.config] at answer
  obtain rfl | ⟨err, rfl⟩ := answer
  · have known {w : World} (hw : Consistent { mc with status } w) : Known mc w := ⟨status, hw⟩
    refine Keeps.bind ((resolveSecretHash_keeps consistent).mono (fun _ => known) ?_)
    intro w r hw resolved
    cases r with
    | error err => exact persistDegraded_keeps hw
    | ok secretHash =>
      have resolved := resolved secretHash rfl
      dsimp only
      split_ifs with changed
      · refine Keeps.bind ((propagate_keeps changed resolved).mono
          (fun _ hw => known hw.toConsistent) ?_)
        intro w r resolved annotated
        cases r with
        | error err => exact ⟨known resolved.toConsistent, nofun⟩
        | ok _ =>
          have persisted := persistStatus_keeps resolved (annotated rfl)
          exact persisted
      · have same : secretHash = status.secretHash := not_not.mp changed
        subst same
        have persisted := persistStatus_keeps resolved (resolved.settled (resolved.unchanged rfl))
        exact persisted
  · exact ⟨⟨status, consistent⟩, nofun⟩

end Calls

/-- Start from runtimes that carry the persisted hash, as new objects do. If no call reads a secret
whose hash is back at the persisted one while annotations of a failed call are around, then after
every call that reaches its end the status is resolved, its hash is that of the data read last, and
every runtime that uses the configuration carries it. -/
theorem rotation_converges {sha256 : List UInt8 → String} {w₀ : World} {mc : ModelConfig}
    {acts : List SystemAct} {s : System} (hconfig : w₀.config = some mc)
    (settled : w₀.unsettled = false) (annotated : Annotated mc mc.status.secretHash w₀)
    (hok : Meets (systemStep sha256) (Loop.Allowed (SettledRead sha256)) ⟨w₀, none⟩ acts)
    (hrun : run (systemStep sha256) ⟨w₀, none⟩ acts = some s)
    (returned : s.result = some (.ok {})) :
    ∃ status : ModelConfigStatus, s.store.config = some { mc with status } ∧
      status.degraded = false ∧ status.secretHash = resolvedHash sha256 mc s.store ∧
      ∀ key ∈ s.store.fleet.names, referencesModelConfig (s.store.fleet.runtime key) mc →
        carriedHash (s.store.fleet.runtime key) = status.secretHash := by
  have start : Known mc w₀ := by
    refine ⟨mc.status, hconfig, fun _ => annotated, ?_⟩
    intro _ unsettled
    simp [settled] at unsettled
  have kept := Loop.keeps Rely.refl Rely.trans (fun _ _ hrely hw => Known.stable hrely hw)
    rely_changeSecret (fun _ hw => reconcile_keeps hw) (Loop.run_restrict hok hrun) start
  exact kept.of_result returned rfl

/-! ## Two runtimes -/

def openai : ModelConfig where
  name := "openai"
  ns := "agents"
  spec :=
    { apiKey := some { valueFrom := some { secretKeyRef := some ⟨"openai-key", "token"⟩ } } }

/-- Two runtimes that use the configuration, in a cluster without secrets. -/
def beginning : World where
  config := some openai
  secrets _ := none
  fleet :=
    { names := [⟨"agents", "coder"⟩, ⟨"agents", "reviewer"⟩]
      runtime := fun key =>
        { name := key.name
          ns := key.ns
          uid := key.name
          spec :=
            { container := { image := "agent:v1" }
              queue := { subject := "agent.tasks.any" }
              modelConfigRef := some { kind := "ModelConfig", name := "openai" } } }
      keyed := fun _ => rfl }

/-- Any digest that tells the two keys below apart will do. -/
def digest (bytes : List UInt8) : String := if bytes.length = 8 then "a" else "b"

def firstKey : SecretData := [("token", [1])]

def secondKey : SecretData := [("token", [1, 2])]

def store (data : SecretData) : SystemAct := .other (⟨"agents", "openai-key"⟩, some data)

/-- A call with the given number of API calls that succeed. -/
def call (calls : ℕ) : List SystemAct := .start :: List.replicate calls (.call .done)

/-- The first key is rotated in; the second one is, too, but the second runtime cannot be updated.
-/
def interrupted : List SystemAct :=
  store firstKey :: call 6 ++ store secondKey :: call 4 ++ [.call (.lost (.new "conflict"))]

theorem rotation_converges_retried : ∃ s,
    run (systemStep digest) ⟨beginning, none⟩ (interrupted ++ call 5) = some s ∧
      s.store.lastRead = some secondKey ∧
      ∃ status : ModelConfigStatus, s.store.config = some { openai with status } ∧
        status.secretHash = hashSecretData digest secondKey ∧
        ∀ key ∈ s.store.fleet.names, referencesModelConfig (s.store.fleet.runtime key) openai →
          carriedHash (s.store.fleet.runtime key) = status.secretHash := by
  have observed : (run (systemStep digest) ⟨beginning, none⟩ (interrupted ++ call 5)).map
      (fun s => (s.result.bind (·.toOption), s.store.lastRead)) =
        some (some {}, some secondKey) := by decide
  obtain ⟨s, hs, hobs⟩ := Option.map_eq_some_iff.mp observed
  obtain ⟨hres, hread⟩ := Prod.mk.inj hobs
  obtain ⟨r, returned, hr⟩ := Option.bind_eq_some_iff.mp hres
  obtain rfl := toOption_eq_some.mp hr
  have config : beginning.config = some openai := rfl
  obtain ⟨status, hconfig, -, hhash, all⟩ :=
    rotation_converges config rfl (by decide) (by decide) hs returned
  refine ⟨s, hs, hread, status, hconfig, ?_, all⟩
  rw [hhash]
  simp [resolvedHash, openai, secretRefFromModelConfig, hread]

/-- The first key is put back before the call is repeated: the next call finds the persisted hash
and ends well, and one runtime keeps the hash of the second key. -/
theorem rotation_left_behind : ∃ s,
    run (systemStep digest) ⟨beginning, none⟩ (interrupted ++ store firstKey :: call 3) = some s ∧
      s.result = some (.ok {}) ∧
      s.store.config.map (·.status.secretHash) = some (hashSecretData digest firstKey) ∧
      s.store.fleet.items.map (referencesModelConfig · openai) = [true, true] ∧
      s.store.fleet.items.map carriedHash =
        [hashSecretData digest secondKey, hashSecretData digest firstKey] ∧
      hashSecretData digest secondKey ≠ hashSecretData digest firstKey := by
  have observed : (run (systemStep digest) ⟨beginning, none⟩
      (interrupted ++ store firstKey :: call 3)).map (fun s =>
        (s.result.bind (·.toOption), s.store.config.map (·.status.secretHash),
          s.store.fleet.items.map (referencesModelConfig · openai),
          s.store.fleet.items.map carriedHash)) =
      some (some {}, some (hashSecretData digest firstKey), [true, true],
        [hashSecretData digest secondKey, hashSecretData digest firstKey]) := by decide
  obtain ⟨s, hs, hobs⟩ := Option.map_eq_some_iff.mp observed
  simp only [Prod.mk.injEq] at hobs
  obtain ⟨hres, hstatus, href, hann⟩ := hobs
  obtain ⟨r, returned, hr⟩ := Option.bind_eq_some_iff.mp hres
  obtain rfl := toOption_eq_some.mp hr
  exact ⟨s, hs, returned, hstatus, href, hann, by decide⟩

end Daedalus.Operator.Rotation
