import Daedalus.Branch.Naming

/-!
# Retry detection

`internal/branch/retry.go`. The detector lists the remote branches and keeps those of a feature and
an agent. It looks at the beginning of each ref before it parses it, so a ref that still has the
`origin/` of a remote never gets to the parser.
-/
namespace Daedalus.Branch

open Foundation

/-- One ref in the loop of `FindRetries`. -/
def considerRef (start : String) (found : List BranchName) (ref : String) : List BranchName :=
  if hasPrefix ref start = false then found
  else
    match parse ref with
    | .error _ => found
    | .ok b => found ++ [b]

/-- `FindRetries`, when the lister returned `listed`. -/
def findRetries (listed : Except GoError (List String)) (feature agentName : String) :
    Except GoError (List BranchName) :=
  match listed with
  | .error err => .error err
  | .ok refs =>
    let feature := sanitize feature
    let agentName := sanitize agentName
    let start := agentPrefix ++ feature ++ "/" ++ agentName ++ "/"
    .ok (refs.foldl (considerRef start) [])

/-- Whether there are earlier sessions, and how many. -/
def isRetry (listed : Except GoError (List String)) (feature agentName : String) :
    Except GoError (Bool × ℕ) :=
  match findRetries listed feature agentName with
  | .error err => .error err
  | .ok found => .ok (0 < found.length, found.length)

/-- The last of the earlier sessions. -/
def latestSession (listed : Except GoError (List String)) (feature agentName : String) :
    Except GoError (Option BranchName) :=
  match findRetries listed feature agentName with
  | .error err => .error err
  | .ok found => .ok found.getLast?

/-! ## The documented algorithm -/

/-- The branch is one of the feature and the agent. -/
def BranchName.Of (feature agentName : String) (b : BranchName) : Prop :=
  b.feature = sanitize feature ∧ b.agentName = sanitize agentName

instance (feature agentName : String) (b : BranchName) : Decidable (b.Of feature agentName) :=
  inferInstanceAs (Decidable (_ ∧ _))

/-- A ref as the documentation treats it: parse it, then compare the components. -/
def sessionOf (feature agentName ref : String) : Option BranchName :=
  (parse ref).toOption.filter (·.Of feature agentName)

/-- All refs, in the order of the list. -/
def earlierSessions (refs : List String) (feature agentName : String) : List BranchName :=
  refs.filterMap (sessionOf feature agentName)

/-- No ref of the list is the remote form, with `origin/`, of a branch of the feature and the
agent. -/
def NoRemoteForm (refs : List String) (feature agentName : String) : Prop :=
  ∀ ref ∈ refs, ∀ sessionID, sessionID ≠ "" → sanitize feature ≠ "" → sanitize agentName ≠ "" →
    ref ≠ "origin/" ++ BranchName.string ⟨sanitize feature, sanitize agentName, sessionID⟩

/-! ## One ref -/

/-- What the loop makes of a ref. -/
def retryOf (feature agentName ref : String) : Option BranchName :=
  if hasPrefix ref (agentPrefix ++ sanitize feature ++ "/" ++ sanitize agentName ++ "/") then
    (parse ref).toOption
  else none

theorem findRetries_eq (refs : List String) (feature agentName : String) :
    findRetries (.ok refs) feature agentName =
      .ok (refs.filterMap (retryOf feature agentName)) := by
  unfold findRetries
  dsimp only
  congr 1
  refine foldl_history
    (fun past found => found = past.filterMap (retryOf feature agentName)) ?_ rfl
  rintro past ref _ _ - rfl
  rw [List.filterMap_append]
  unfold considerRef
  cases hstart :
      hasPrefix ref (agentPrefix ++ sanitize feature ++ "/" ++ sanitize agentName ++ "/") with
  | false => simp [retryOf, hstart]
  | true =>
    cases hparse : parse ref with
    | error err => simp [retryOf, hstart, hparse, Except.toOption]
    | ok b => simp [retryOf, hstart, hparse, Except.toOption]

section Ref

variable {feature agentName ref : String} {b : BranchName}

theorem sessionOf_iff : sessionOf feature agentName ref = some b ↔
    b.Of feature agentName ∧ b.Separable ∧ trimPrefix ref "origin/" = b.string := by
  rw [sessionOf, Option.filter_eq_some_iff, toOption_eq_some, parse_ok_iff, decide_eq_true_iff]
  tauto

/-- The text before the session of a branch of the feature and the agent. -/
theorem toList_start (feature agentName : String) :
    (agentPrefix ++ feature ++ "/" ++ agentName ++ "/").toList =
      agentPrefix.toList ++ (feature.toList ++ '/' :: (agentName.toList ++ ['/'])) := by
  simp

/-- The loop finds the branches of the feature and the agent in their local form. -/
theorem retryOf_iff : retryOf feature agentName ref = some b ↔
    b.Of feature agentName ∧ b.Separable ∧ ref = b.string := by
  have start : hasPrefix ref (agentPrefix ++ sanitize feature ++ "/" ++ sanitize agentName ++ "/") ↔
      ∃ rest, ref.toList = agentPrefix.toList ++ ((sanitize feature).toList ++ '/' ::
        ((sanitize agentName).toList ++ '/' :: rest)) := by
    rw [hasPrefix, List.isPrefixOf_iff_prefix, toList_start]
    constructor
    · rintro ⟨rest, hrest⟩
      exact ⟨rest, by simpa using hrest.symm⟩
    · rintro ⟨rest, hrest⟩
      exact ⟨rest, by simpa using hrest.symm⟩
  constructor
  · intro h
    unfold retryOf at h
    split_ifs at h with hstart
    obtain ⟨rest, hrest⟩ := start.mp hstart
    obtain ⟨hstring, hb⟩ := parse_ok_iff.mp (toOption_eq_some.mp h)
    have unchanged : trimPrefix ref "origin/" = ref := by
      rw [trimPrefix, trimStart_of_not, String.ofList_toList]
      rw [hrest]
      simp [agentPrefix]
    have href : ref = b.string := unchanged.symm.trans hstring
    refine ⟨?_, hb, href⟩
    -- Both ways of reading the ref cut it at its first two slashes.
    rw [href, toList_string, List.append_cancel_left_eq] at hrest
    have fields := splitN_three_iff.mpr ⟨hb.feature_slash, hb.agentName_slash, hrest.symm⟩
    rw [splitN_three_iff.mpr
      ⟨(sanitize_clean feature).slash, (sanitize_clean agentName).slash, rfl⟩]
      at fields
    simp only [List.cons.injEq, String.toList_inj] at fields
    exact ⟨fields.1.symm, fields.2.1.symm⟩
  · rintro ⟨⟨hf, ha⟩, hb, rfl⟩
    have hstart := start.mpr ⟨b.sessionID.toList, by rw [toList_string, hf, ha]⟩
    rw [retryOf, if_pos hstart, toOption_eq_some, parse_ok_iff]
    exact ⟨trimPrefix_string b, hb⟩

/-- What the loop finds is a session as documented. -/
theorem sessionOf_of_retryOf (h : retryOf feature agentName ref = some b) :
    sessionOf feature agentName ref = some b := by
  obtain ⟨hof, hb, rfl⟩ := retryOf_iff.mp h
  exact sessionOf_iff.mpr ⟨hof, hb, trimPrefix_string b⟩

/-- The sessions it passes over are the remote forms. -/
theorem retryOf_missed_iff :
    (sessionOf feature agentName ref).isSome ∧ retryOf feature agentName ref = none ↔
      ∃ b : BranchName, b.Of feature agentName ∧ b.Separable ∧ ref = "origin/" ++ b.string := by
  constructor
  · rintro ⟨session, hnone⟩
    obtain ⟨b, h⟩ := Option.isSome_iff_exists.mp session
    obtain ⟨hof, hb, htrim⟩ := sessionOf_iff.mp h
    refine ⟨b, hof, hb, ?_⟩
    rw [trimPrefix, ← String.toList_inj, String.toList_ofList, trimStart_eq_iff] at htrim
    rcases htrim with hremote | ⟨_, hlocal⟩
    · rw [← String.toList_inj, String.toList_append, hremote]
    · have := retryOf_iff.mpr ⟨hof, hb, String.toList_inj.mp hlocal⟩
      simp [hnone] at this
  · rintro ⟨b, hof, hb, rfl⟩
    have session : sessionOf feature agentName ("origin/" ++ b.string) = some b :=
      sessionOf_iff.mpr ⟨hof, hb, trimPrefix_origin _⟩
    refine ⟨Option.isSome_of_eq_some session, ?_⟩
    by_contra found
    obtain ⟨c, hc⟩ := Option.ne_none_iff_exists'.mp found
    have same : c = b := Option.some.inj ((sessionOf_of_retryOf hc).symm.trans session)
    obtain ⟨_, _, hstring⟩ := retryOf_iff.mp hc
    have := congrArg (·.toList.length) hstring
    simp [same] at this
    omega

theorem noRemoteForm_iff {refs : List String} : NoRemoteForm refs feature agentName ↔
    ∀ ref ∈ refs, (sessionOf feature agentName ref).isSome →
      (retryOf feature agentName ref).isSome := by
  refine forall₂_congr fun ref _ => ⟨fun h session => ?_, fun h sessionID hs hf ha href => ?_⟩
  · by_contra missed
    obtain ⟨b, ⟨hf, ha⟩, hb, href⟩ :=
      retryOf_missed_iff.mp ⟨session, Option.not_isSome_iff_eq_none.mp missed⟩
    exact h b.sessionID hb.sessionID (hf ▸ hb.feature) (ha ▸ hb.agentName)
      (by rw [href, ← hf, ← ha])
  · have separable : BranchName.Separable ⟨sanitize feature, sanitize agentName, sessionID⟩ :=
      ⟨hf, ha, hs, (sanitize_clean feature).slash, (sanitize_clean agentName).slash⟩
    have ofBoth : BranchName.Of feature agentName
        ⟨sanitize feature, sanitize agentName, sessionID⟩ := ⟨rfl, rfl⟩
    have missed : (sessionOf feature agentName ref).isSome ∧ retryOf feature agentName ref = none :=
      retryOf_missed_iff.mpr ⟨_, ofBoth, separable, href⟩
    exact Option.not_isSome_iff_eq_none.mpr missed.2 (h missed.1)

end Ref

/-! ## Lists of refs -/

/-- `FindRetries` returns the documented list, and `IsRetry` its length, exactly when no branch of
the feature and the agent is listed in its remote form. A branch that `New` made and that is listed
in its local form is always found. -/
theorem find_retries_iff (refs : List String) (feature agentName : String) :
    (findRetries (.ok refs) feature agentName = .ok (earlierSessions refs feature agentName) ↔
      NoRemoteForm refs feature agentName) ∧
    (isRetry (.ok refs) feature agentName =
        .ok (decide (0 < (earlierSessions refs feature agentName).length),
          (earlierSessions refs feature agentName).length) ↔
      NoRemoteForm refs feature agentName) ∧
    ∀ feature' agentName' sessionID b, new feature' agentName' sessionID = .ok b →
      sanitize feature' = sanitize feature → sanitize agentName' = sanitize agentName →
      b.string ∈ refs →
        ∃ found, findRetries (.ok refs) feature agentName = .ok found ∧ b ∈ found := by
  have agree : ∀ ref b, retryOf feature agentName ref = some b →
      sessionOf feature agentName ref = some (id b) := fun _ _ => sessionOf_of_retryOf
  have lengths := length_filterMap_eq_iff agree refs
  have kept := map_filterMap_eq_iff agree refs
  rw [← noRemoteForm_iff] at lengths kept
  refine ⟨?_, ?_, ?_⟩
  · rw [findRetries_eq, Except.ok.injEq, ← kept, List.map_id, earlierSessions]
  · rw [isRetry, findRetries_eq]
    simp only [Except.ok.injEq, Prod.mk.injEq]
    constructor
    · intro same
      exact lengths.mp same.2
    · intro none
      have same : (refs.filterMap (retryOf feature agentName)).length =
          (earlierSessions refs feature agentName).length := lengths.mpr none
      exact ⟨by rw [same], same⟩
  · intro feature' agentName' sessionID b hnew hf ha hmem
    have separable := new_separable hnew
    obtain ⟨rfl, _⟩ := new_ok hnew
    refine ⟨_, findRetries_eq refs feature agentName, List.mem_filterMap.mpr ⟨_, hmem, ?_⟩⟩
    exact retryOf_iff.mpr ⟨⟨hf, ha⟩, separable, rfl⟩

/-- A longer feature, a session with a slash and another agent's branch. -/
def listedRefs : List String :=
  ["agent/ui/pi/1", "agent/ui-2/pi/2", "agent/ui/pi/3/x", "origin/agent/ui/po/4", "main"]

theorem find_retries_iff_ui :
    findRetries (.ok listedRefs) "ui" "pi" = .ok [⟨"ui", "pi", "1"⟩, ⟨"ui", "pi", "3/x"⟩] := by
  have listed : earlierSessions listedRefs "ui" "pi" =
      [⟨"ui", "pi", "1"⟩, ⟨"ui", "pi", "3/x"⟩] := by decide +kernel
  rw [← listed]
  refine (find_retries_iff listedRefs "ui" "pi").1.mpr (noRemoteForm_iff.mpr ?_)
  decide +kernel

/-- An earlier session in its remote form is overlooked. -/
theorem remote_session_missed :
    (parse "origin/agent/ui/pi/1").toOption = some ⟨"ui", "pi", "1"⟩ ∧
      (findRetries (.ok ["origin/agent/ui/pi/1"]) "ui" "pi").toOption = some [] ∧
      earlierSessions ["origin/agent/ui/pi/1"] "ui" "pi" = [⟨"ui", "pi", "1"⟩] ∧
      (isRetry (.ok ["origin/agent/ui/pi/1"]) "ui" "pi").toOption = some (false, 0) := by
  decide +kernel

end Daedalus.Branch
