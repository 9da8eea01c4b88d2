import Daedalus.Basic
import Daedalus.Foundation.Rounding
import Daedalus.Foundation.SyncMap

/-!
# The context tracker

`internal/contextmgmt/tracker.go`: how much of its context window each session has used, and how a
session is to be resumed. Every method holds the lock, so it is a function of the state. Times and
the settings that no method reads are left out.

The percentage is computed in `float64`. It is the integer part of the exact percentage, except that
rounding may take one off where the exact percentage is a whole number.
-/
namespace Daedalus.ContextMgmt

open Foundation

inductive ResurrectionStrategy where
  | full
  | checkpoint
  | fresh
  deriving DecidableEq, Repr

structure Config where
  tokenThreshold : ℤ
  resurrectionFullThreshold : ℤ
  resurrectionCheckpointThreshold : ℤ

def defaultConfig : Config where
  tokenThreshold := 100000
  resurrectionFullThreshold := 60
  resurrectionCheckpointThreshold := 90

structure SessionMetrics where
  sessionID : String
  taskID : String
  currentTokens : ℤ := 0
  tokenLimit : ℤ
  turnCount : ℤ := 0
  compactionCount : ℤ := 0
  deriving DecidableEq, Repr

/-! ## Usage -/

/-- The nearest number of type `float64`. -/
def float64 (q : ℚ) : ℚ := Rounding.round 52 q

/-- The conversion to an integer type, for numbers in its range. -/
def truncate (q : ℚ) : ℤ := if 0 ≤ q then ⌊q⌋ else ⌈q⌉

/-- `float64(tokens) / float64(limit) * 100`. -/
def percentage (tokens limit : ℤ) : ℚ :=
  float64 (float64 (float64 tokens / float64 limit) * 100)

def SessionMetrics.usagePercent (m : SessionMetrics) : ℤ :=
  if m.tokenLimit ≤ 0 then 0
  else if percentage m.currentTokens m.tokenLimit > 100 then 100
  else truncate (percentage m.currentTokens m.tokenLimit)

def SessionMetrics.needsCompaction (m : SessionMetrics) (threshold : ℤ) : Bool :=
  threshold ≤ m.currentTokens

/-- The next value of an `int32` counter. -/
def increment (n : ℤ) : ℤ := (n + 1).bmod (2 ^ 32)

/-! ## The tracker -/

structure Tracker where
  config : Config
  ordered : config.resurrectionFullThreshold < config.resurrectionCheckpointThreshold
  sessions : Table String SessionMetrics
  keyed : sessions.Keyed

def newTracker (config : Config) : Except GoError Tracker :=
  if h : config.resurrectionFullThreshold ≥ config.resurrectionCheckpointThreshold then
    .error (.new ("contextmgmt: fullThreshold (" ++ toString config.resurrectionFullThreshold ++
      ") must be less than checkpointThreshold (" ++
      toString config.resurrectionCheckpointThreshold ++ ")"))
  else .ok { config, ordered := not_le.mp h, sessions := [], keyed := List.nodup_nil }

theorem newTracker_eq {config : Config} {t : Tracker} (h : newTracker config = .ok t) :
    t.config = config ∧ t.sessions = [] := by
  unfold newTracker at h
  split_ifs at h
  cases h
  exact ⟨rfl, rfl⟩

namespace Tracker

def getMetrics (t : Tracker) (sessionID : String) : Option SessionMetrics :=
  t.sessions.load sessionID

def startSession (t : Tracker) (sessionID taskID : String) (tokenLimit : ℤ) : Tracker :=
  { t with
    sessions := t.sessions.store sessionID { sessionID, taskID, tokenLimit }
    keyed := t.keyed.store _ _ }

/-- Change the entry of a session, if there is one. -/
def modify (t : Tracker) (sessionID : String) (f : SessionMetrics → SessionMetrics) : Tracker :=
  match t.sessions.load sessionID with
  | none => t
  | some m => { t with sessions := t.sessions.store sessionID (f m), keyed := t.keyed.store _ _ }

def updateTokens (t : Tracker) (sessionID : String) (tokens : ℤ) : Tracker :=
  t.modify sessionID fun m =>
    { m with currentTokens := tokens, turnCount := increment m.turnCount }

def recordCompaction (t : Tracker) (sessionID : String) : Tracker :=
  t.modify sessionID fun m => { m with compactionCount := increment m.compactionCount }

/-- Stop tracking; the final metrics are what `getMetrics` returned. -/
def endSession (t : Tracker) (sessionID : String) : Tracker :=
  { t with sessions := t.sessions.delete sessionID, keyed := t.keyed.delete _ }

def selectResurrectionStrategy (t : Tracker) (usagePercent : ℤ) : ResurrectionStrategy :=
  if usagePercent < t.config.resurrectionFullThreshold then .full
  else if usagePercent < t.config.resurrectionCheckpointThreshold then .checkpoint
  else .fresh

/-- The strategy, with the error of a session without metrics. -/
def selectResurrectionStrategyForSession (t : Tracker) (sessionID : String) :
    ResurrectionStrategy × Option GoError :=
  match t.getMetrics sessionID with
  | none => (.fresh,
    some (.new ("context: no metrics for session " ++ sessionID ++ ", defaulting to fresh")))
  | some m => (t.selectResurrectionStrategy m.usagePercent, none)

/-- The sessions that should be compacted, in the order in which the map is iterated. -/
def checkCompaction (t : Tracker) : List String :=
  (t.sessions.filter (·.2.needsCompaction t.config.tokenThreshold)).map (·.1)

def activeSessionCount (t : Tracker) : ℕ := t.sessions.length

section Sessions

variable (t : Tracker) (sessionID id : String)

theorem getMetrics_startSession (taskID : String) (tokenLimit : ℤ) :
    (t.startSession sessionID taskID tokenLimit).getMetrics id =
      if id = sessionID then some { sessionID, taskID, tokenLimit } else t.getMetrics id :=
  Table.load_store _ _ _ _

theorem getMetrics_modify (f : SessionMetrics → SessionMetrics) :
    (t.modify sessionID f).getMetrics id =
      if id = sessionID then (t.getMetrics sessionID).map f else t.getMetrics id := by
  unfold modify getMetrics
  cases h : t.sessions.load sessionID with
  | none =>
    split_ifs with same
    · rw [same, h]
      rfl
    · rfl
  | some m => exact Table.load_store _ _ _ _

theorem getMetrics_endSession :
    (t.endSession sessionID).getMetrics id = if id = sessionID then none else t.getMetrics id :=
  Table.load_delete _ _ _

theorem mem_checkCompaction : id ∈ t.checkCompaction ↔
    ∃ m, t.getMetrics id = some m ∧ t.config.tokenThreshold ≤ m.currentTokens := by
  simp only [checkCompaction, List.mem_map, List.mem_filter, SessionMetrics.needsCompaction,
    decide_eq_true_eq, getMetrics, t.keyed.load_iff]
  constructor
  · rintro ⟨⟨_, m⟩, ⟨hm, reached⟩, rfl⟩
    exact ⟨m, hm, reached⟩
  · rintro ⟨m, hm, reached⟩
    exact ⟨(id, m), ⟨hm, reached⟩, rfl⟩

end Sessions

end Tracker

/-! ## The percentage -/

section Percentage

variable {tokens tokens' limit : ℤ}

theorem float64_intCast {n : ℤ} (nonneg : 0 ≤ n) (small : n < 2 ^ 53) : float64 n = n := by
  obtain ⟨k, rfl⟩ := Int.eq_ofNat_of_zero_le nonneg
  have hk : k < 2 ^ (52 + 1) := by
    norm_num
    omega
  exact_mod_cast Rounding.round_natCast hk

theorem float64_bounds {q : ℚ} (hq : 0 ≤ q) :
    q - q / 2 ^ 53 ≤ float64 q ∧ float64 q ≤ q + q / 2 ^ 53 := by
  obtain ⟨lower, upper⟩ := abs_le.mp (Rounding.abs_round_sub_le_mul (d := 52) hq)
  constructor <;> unfold float64 <;> linarith

theorem percentage_nonneg (started : 0 ≤ tokens) (known : 0 < limit) :
    0 ≤ percentage tokens limit := by
  have htokens : 0 ≤ float64 tokens := Rounding.round_nonneg (by exact_mod_cast started)
  have hlimit : 0 < float64 limit := Rounding.round_pos (by exact_mod_cast known)
  have hshare : 0 ≤ float64 (float64 tokens / float64 limit) :=
    Rounding.round_nonneg (div_nonneg htokens hlimit.le)
  exact Rounding.round_nonneg (mul_nonneg hshare (by norm_num))

theorem percentage_mono (started : 0 ≤ tokens) (known : 0 < limit) (grown : tokens ≤ tokens') :
    percentage tokens limit ≤ percentage tokens' limit := by
  have htokens : 0 ≤ float64 tokens := Rounding.round_nonneg (by exact_mod_cast started)
  have hlimit : 0 < float64 limit := Rounding.round_pos (by exact_mod_cast known)
  have hgrown : float64 tokens ≤ float64 tokens' :=
    Rounding.round_mono (by exact_mod_cast started) (by exact_mod_cast grown)
  have hshare : float64 (float64 tokens / float64 limit) ≤
      float64 (float64 tokens' / float64 limit) :=
    Rounding.round_mono (div_nonneg htokens hlimit.le)
      (div_le_div_of_nonneg_right hgrown hlimit.le)
  have hnonneg : 0 ≤ float64 (float64 tokens / float64 limit) :=
    Rounding.round_nonneg (div_nonneg htokens hlimit.le)
  exact Rounding.round_mono (mul_nonneg hnonneg (by norm_num))
    (mul_le_mul_of_nonneg_right hshare (by norm_num))

/-- Where the limit is reached, the percentage is. -/
theorem le_percentage (known : 0 < limit) (reached : limit ≤ tokens) :
    100 ≤ percentage tokens limit := by
  have exact : ∀ n : ℕ, n < 2 ^ (52 + 1) → float64 n = n := fun n => Rounding.round_natCast
  have hlimit : float64 limit ≠ 0 := (Rounding.round_pos (by exact_mod_cast known)).ne'
  calc (100 : ℚ) = float64 (float64 1 * 100) := by
        have one : float64 1 = 1 := by exact_mod_cast exact 1 (by norm_num)
        have hundred : float64 100 = 100 := by exact_mod_cast exact 100 (by norm_num)
        rw [one, one_mul, hundred]
    _ = percentage limit limit := by rw [percentage, div_self hlimit]
    _ ≤ percentage tokens limit := percentage_mono known.le known reached

/-- The error of the two roundings, for counts that are converted exactly. -/
theorem abs_percentage_sub_lt (started : 0 ≤ tokens) (known : 0 < limit) (room : tokens ≤ limit)
    (moderate : limit ≤ 2 ^ 43) :
    |percentage tokens limit - 100 * tokens / limit| < 1 / 2 ^ 44 := by
  have htokens : float64 tokens = tokens := float64_intCast started (by omega)
  have hlimit : float64 limit = limit := float64_intCast known.le (by omega)
  have known' : (0 : ℚ) < limit := by exact_mod_cast known
  set share : ℚ := tokens / limit with hshare
  have hpos : 0 ≤ share := div_nonneg (by exact_mod_cast started) known'.le
  have hone : share ≤ 1 := by
    rw [hshare, div_le_one known']
    exact_mod_cast room
  have hfloat : 0 ≤ float64 share := Rounding.round_nonneg hpos
  obtain ⟨lower, upper⟩ := float64_bounds hpos
  obtain ⟨lower', upper'⟩ := float64_bounds (mul_nonneg hfloat (by norm_num : (0 : ℚ) ≤ 100))
  have value : percentage tokens limit = float64 (float64 share * 100) := by
    rw [percentage, htokens, hlimit]
  have whole : (100 : ℚ) * tokens / limit = 100 * share := by
    rw [hshare]
    ring
  rw [value, whole, abs_lt]
  constructor <;> linarith

end Percentage

/-! ## The strategy -/

/-- The integer part of the percentage, computed exactly. -/
def SessionMetrics.exactPercent (m : SessionMetrics) : ℤ :=
  min 100 (100 * m.currentTokens / m.tokenLimit)

/-- How much of the session is given up. -/
def ResurrectionStrategy.loss : ResurrectionStrategy → ℕ
  | .full => 0
  | .checkpoint => 1
  | .fresh => 2

section Strategy

variable {m m' : SessionMetrics}

theorem usagePercent_eq (started : 0 ≤ m.currentTokens) (known : 0 < m.tokenLimit) :
    m.usagePercent = min 100 ⌊percentage m.currentTokens m.tokenLimit⌋ := by
  have nonneg := percentage_nonneg started known
  rw [SessionMetrics.usagePercent, if_neg known.not_ge, truncate, if_pos nonneg]
  split_ifs with above
  · have : (100 : ℤ) ≤ ⌊percentage m.currentTokens m.tokenLimit⌋ :=
      Int.le_floor.mpr (by exact_mod_cast above.le)
    exact (min_eq_left this).symm
  · have : ⌊percentage m.currentTokens m.tokenLimit⌋ ≤ (100 : ℤ) := by
      have := (Int.floor_le (percentage m.currentTokens m.tokenLimit)).trans (not_lt.mp above)
      exact_mod_cast this
    exact (min_eq_right this).symm

theorem usagePercent_mono (started : 0 ≤ m.currentTokens) (known : 0 < m.tokenLimit)
    (same : m'.tokenLimit = m.tokenLimit) (grown : m.currentTokens ≤ m'.currentTokens) :
    m.usagePercent ≤ m'.usagePercent := by
  rw [usagePercent_eq started known, usagePercent_eq (started.trans grown) (same ▸ known), same]
  exact min_le_min_left _ (Int.floor_mono (percentage_mono started known grown))

/-- Rounding matters only where the exact percentage is a whole number. -/
theorem usagePercent_cases (started : 0 ≤ m.currentTokens) (known : 0 < m.tokenLimit)
    (moderate : m.tokenLimit ≤ 2 ^ 43) :
    m.usagePercent = m.exactPercent ∨
      (m.tokenLimit ∣ 100 * m.currentTokens ∧ m.usagePercent = m.exactPercent - 1) := by
  rw [usagePercent_eq started known, SessionMetrics.exactPercent]
  generalize m.currentTokens = tokens at *
  generalize m.tokenLimit = limit at *
  rcases le_or_gt limit tokens with reached | room
  · have above : (100 : ℤ) ≤ ⌊percentage tokens limit⌋ :=
      Int.le_floor.mpr (by exact_mod_cast le_percentage known reached)
    have exact : 100 ≤ 100 * tokens / limit := by
      rw [Int.le_ediv_iff_mul_le known]
      linarith
    exact .inl ((min_eq_left above).trans (min_eq_left exact).symm)
  · have known' : (0 : ℚ) < limit := by exact_mod_cast known
    have moderate' : (limit : ℚ) ≤ 2 ^ 43 := by exact_mod_cast moderate
    have near : |percentage tokens limit - (100 * tokens : ℤ) / limit| < 1 / limit := by
      calc |percentage tokens limit - (100 * tokens : ℤ) / limit|
          = |percentage tokens limit - 100 * tokens / limit| := by push_cast; rfl
        _ < 1 / 2 ^ 44 := abs_percentage_sub_lt started known room.le moderate
        _ ≤ 1 / 2 ^ 43 := by norm_num
        _ ≤ 1 / limit := one_div_le_one_div_of_le known' moderate'
    have below : 100 * tokens / limit < 100 := by
      rw [Int.ediv_lt_iff_lt_mul known]
      linarith
    rw [min_eq_right below.le]
    rcases Rounding.floor_eq_ediv_or known near with same | ⟨whole, less⟩
    · exact .inl (by rw [same, min_eq_right below.le])
    · exact .inr ⟨whole, by rw [less, min_eq_right (by omega)]⟩

theorem loss_mono (t : Tracker) {p q : ℤ} (h : p ≤ q) :
    (t.selectResurrectionStrategy p).loss ≤ (t.selectResurrectionStrategy q).loss := by
  unfold Tracker.selectResurrectionStrategy
  split_ifs <;> simp [ResurrectionStrategy.loss] <;> omega

/-- One percent less makes a difference at a threshold only. -/
theorem strategy_pred (t : Tracker) (p : ℤ) :
    t.selectResurrectionStrategy (p - 1) = t.selectResurrectionStrategy p ∨
      p = t.config.resurrectionFullThreshold ∨ p = t.config.resurrectionCheckpointThreshold := by
  have ordered := t.ordered
  unfold Tracker.selectResurrectionStrategy
  split_ifs <;> simp <;> omega

end Strategy

/-- More tokens never make for a strategy that keeps more of the session. The strategy is that of
the exact percentage, except possibly where this is a whole number and equal to a threshold, as long
as the limit is one for which two roundings do not add up to more. -/
theorem strategy_follows_usage (t : Tracker) (m m' : SessionMetrics)
    (started : 0 ≤ m.currentTokens) (known : 0 < m.tokenLimit)
    (same : m'.tokenLimit = m.tokenLimit) (grown : m.currentTokens ≤ m'.currentTokens) :
    (t.selectResurrectionStrategy m.usagePercent).loss ≤
        (t.selectResurrectionStrategy m'.usagePercent).loss ∧
      (m.tokenLimit ≤ 2 ^ 43 →
        t.selectResurrectionStrategy m.usagePercent = t.selectResurrectionStrategy m.exactPercent ∨
          m.tokenLimit ∣ 100 * m.currentTokens ∧
            (m.exactPercent = t.config.resurrectionFullThreshold ∨
              m.exactPercent = t.config.resurrectionCheckpointThreshold)) := by
  refine ⟨loss_mono t (usagePercent_mono started known same grown), fun moderate => ?_⟩
  rcases usagePercent_cases started known moderate with exact | ⟨whole, less⟩
  · exact .inl (by rw [exact])
  · rw [less]
    exact (strategy_pred t m.exactPercent).imp_right fun threshold => ⟨whole, threshold⟩

def defaultTracker : Tracker where
  config := defaultConfig
  ordered := by decide
  sessions := []
  keyed := List.nodup_nil

/-- A session with the given usage of a window of 100 tokens. -/
def usageOf100 (tokens : ℤ) : SessionMetrics where
  sessionID := "s"
  taskID := "t"
  currentTokens := tokens
  tokenLimit := 100

theorem strategy_follows_usage_grown :
    (defaultTracker.selectResurrectionStrategy (usageOf100 59).usagePercent).loss ≤
        (defaultTracker.selectResurrectionStrategy (usageOf100 95).usagePercent).loss ∧
      defaultTracker.selectResurrectionStrategy (usageOf100 59).usagePercent =
        defaultTracker.selectResurrectionStrategy (usageOf100 59).exactPercent := by
  obtain ⟨fewer, exactly⟩ := strategy_follows_usage defaultTracker (usageOf100 59)
    (usageOf100 95) (by decide) (by decide) rfl (by decide)
  refine ⟨fewer, (exactly (by decide)).resolve_right ?_⟩
  rintro ⟨-, threshold⟩
  revert threshold
  decide

/-- 29 of 100 tokens count as 28 percent. -/
example : (usageOf100 29).usagePercent = 28 ∧ (usageOf100 29).exactPercent = 29 := by
  decide +kernel

end Daedalus.ContextMgmt
