import Daedalus.Basic
import Daedalus.Foundation.Run
import Daedalus.Foundation.Text

/-!
# Branch names

`internal/branch/naming.go`: the names of the branches that worker sessions push to. A name has
three components, which are sanitised so that the result is a valid git ref and can be taken apart
again. A sanitised component has no slash, and that is all the parser relies on.
-/
namespace Daedalus.Branch

open Foundation

/-- `Prefix`: the namespace of all agent worker branches. -/
def agentPrefix : String := "agent/"

/-- A structured agent worker branch name. -/
structure BranchName where
  feature : String
  agentName : String
  sessionID : String
  deriving DecidableEq, Repr

/-- Whether a rune may occur in a component of a branch name. -/
def isValidBranchChar (r : Char) : Bool :=
  if r.toNat ≤ 0x1f ∨ r.toNat = 0x7f then false
  else r ∉ [' ', '~', '^', ':', '?', '*', '[', '\\', '.', '@', '/']

/-- Invalid characters become hyphens, runs of hyphens are collapsed, and hyphens at the ends are
cut off. -/
def sanitize (s : String) : String :=
  let result := s.toList.map fun r => if isValidBranchChar r then r else '-'
  let result := collapse '-' result.length result
  String.ofList (trimBoth '-' result)

/-- Sanitise each component; none may end up empty. -/
def new (feature agentName sessionID : String) : Except GoError BranchName :=
  let b : BranchName :=
    { feature := sanitize feature, agentName := sanitize agentName,
      sessionID := sanitize sessionID }
  if b.feature = "" then .error (.new "branch: feature is empty after sanitization")
  else if b.agentName = "" then .error (.new "branch: agentName is empty after sanitization")
  else if b.sessionID = "" then .error (.new "branch: sessionID is empty after sanitization")
  else .ok b

/-- The full ref: `agent/<feature>/<agent>/<session-id>`. -/
def BranchName.string (b : BranchName) : String :=
  agentPrefix ++ b.feature ++ "/" ++ b.agentName ++ "/" ++ b.sessionID

/-- `strings.HasPrefix`. -/
def hasPrefix (s pre : String) : Bool := pre.toList.isPrefixOf s.toList

/-- `strings.TrimPrefix`. -/
def trimPrefix (s pre : String) : String := String.ofList (trimStart pre.toList s.toList)

/-- Take a ref apart; a remote ref may start with `origin/`. -/
def parse (ref : String) : Except GoError BranchName :=
  let ref := trimPrefix ref "origin/"
  if hasPrefix ref agentPrefix = false then
    .error (.new ("branch: ref " ++ ref.quote ++ " does not start with " ++ agentPrefix.quote))
  else
    match (splitN '/' 3 (trimPrefix ref agentPrefix).toList).map String.ofList with
    | [feature, agentName, sessionID] =>
      match [feature, agentName, sessionID].findIdx? (· = "") with
      | some i =>
        .error (.new ("branch: segment " ++ toString i ++ " of ref " ++ ref.quote ++ " is empty"))
      | none => .ok { feature, agentName, sessionID }
    | parts =>
      .error (.new ("branch: ref " ++ ref.quote ++ " has " ++ toString parts.length ++
        " segment(s) after prefix, want 3"))

/-! ## Sanitised components -/

/-- What a sanitised component looks like. -/
structure Clean (s : String) : Prop where
  chars : ∀ c ∈ s.toList, isValidBranchChar c
  single : ¬ ['-', '-'] <:+: s.toList
  first : s.toList.head? ≠ some '-'
  last : s.toList.getLast? ≠ some '-'

/-- The text before the loop of `Sanitize`. -/
def replaceInvalid (s : String) : List Char :=
  s.toList.map fun r => if isValidBranchChar r then r else '-'

theorem isValidBranchChar_replaceInvalid {s : String} {c : Char} (hc : c ∈ replaceInvalid s) :
    isValidBranchChar c := by
  obtain ⟨r, _, rfl⟩ := List.mem_map.mp hc
  split_ifs with hr
  · exact hr
  · decide

theorem toList_sanitize (s : String) : (sanitize s).toList =
    trimBoth '-' (collapse '-' (replaceInvalid s).length (replaceInvalid s)) := by
  simp [sanitize, replaceInvalid]

theorem sanitize_clean (s : String) : Clean (sanitize s) := by
  have text := toList_sanitize s
  have inside := trimBoth_infix '-' (collapse '-' (replaceInvalid s).length (replaceInvalid s))
  refine ⟨?_, ?_, ?_, ?_⟩
  · intro c hc
    rw [text] at hc
    exact isValidBranchChar_replaceInvalid (mem_collapse (inside.subset hc))
  · intro hpair
    rw [text] at hpair
    have := hasPair_iff.mpr (hpair.trans inside)
    rw [hasPair_collapse (le_refl _)] at this
    cases this
  · rw [text]
    exact head?_trimBoth '-' _
  · rw [text]
    exact getLast?_trimBoth '-' _

theorem Clean.slash {s : String} (h : Clean s) : '/' ∉ s.toList := by
  intro hmem
  have := h.chars '/' hmem
  simp [isValidBranchChar] at this

theorem new_ok {feature agentName sessionID : String} {b : BranchName}
    (h : new feature agentName sessionID = .ok b) :
    b = ⟨sanitize feature, sanitize agentName, sanitize sessionID⟩ ∧
      b.feature ≠ "" ∧ b.agentName ≠ "" ∧ b.sessionID ≠ "" := by
  unfold new at h
  dsimp only at h
  split_ifs at h with hf ha hs
  obtain rfl := Except.ok.inj h
  exact ⟨rfl, hf, ha, hs⟩

/-! ## Printing and parsing -/

/-- The components can be told apart: none is empty, and only the last one may have slashes. -/
structure BranchName.Separable (b : BranchName) : Prop where
  feature : b.feature ≠ ""
  agentName : b.agentName ≠ ""
  sessionID : b.sessionID ≠ ""
  feature_slash : '/' ∉ b.feature.toList
  agentName_slash : '/' ∉ b.agentName.toList

theorem toList_string (b : BranchName) : b.string.toList =
    agentPrefix.toList ++ (b.feature.toList ++ '/' :: (b.agentName.toList ++ '/' ::
      b.sessionID.toList)) := by
  simp [BranchName.string]

/-- The parser accepts the printed names whose components can be told apart, with or without
`origin/`, and nothing else. -/
theorem parse_ok_iff {ref : String} {b : BranchName} :
    parse ref = .ok b ↔ trimPrefix ref "origin/" = b.string ∧ b.Separable := by
  unfold parse
  generalize trimPrefix ref "origin/" = r
  constructor
  · intro h
    dsimp only at h
    split_ifs at h with hpre
    split at h
    · rename_i f a s hparts
      split at h
      · cases h
      · rename_i hempty
        cases h
        have fields : splitN '/' 3 (trimStart agentPrefix.toList r.toList) =
            [f.toList, a.toList, s.toList] := by
          have := congrArg (List.map String.toList) hparts
          simpa [trimPrefix, Function.comp_def] using this
        obtain ⟨hf, ha, htext⟩ := splitN_three_iff.mp fields
        have hstart : agentPrefix.toList <+: r.toList := by simpa [hasPrefix] using hpre
        obtain ⟨rest, hrest⟩ := hstart
        rw [← hrest, trimStart_append] at htext
        simp only [List.findIdx?_eq_none_iff, List.mem_cons, List.not_mem_nil, or_false,
          decide_eq_false_iff_not, forall_eq_or_imp, forall_eq] at hempty
        refine ⟨?_, hempty.1, hempty.2.1, hempty.2.2, hf, ha⟩
        rw [← String.toList_inj, toList_string, ← hrest, htext]
    · cases h
  · rintro ⟨rfl, hb⟩
    have hstart : hasPrefix b.string agentPrefix = true := by
      simp [hasPrefix, toList_string]
    have fields : (splitN '/' 3 (trimPrefix b.string agentPrefix).toList).map String.ofList =
        [b.feature, b.agentName, b.sessionID] := by
      rw [trimPrefix, toList_string, String.toList_ofList, trimStart_append,
        splitN_three_iff.mpr ⟨hb.feature_slash, hb.agentName_slash, rfl⟩]
      simp
    have full : [b.feature, b.agentName, b.sessionID].findIdx? (· = "") = none := by
      simp [List.findIdx?_eq_none_iff, hb.feature, hb.agentName, hb.sessionID]
    simp [hstart, fields, full]

/-- A name that `New` returns can be taken apart. -/
theorem new_separable {feature agentName sessionID : String} {b : BranchName}
    (h : new feature agentName sessionID = .ok b) : b.Separable := by
  obtain ⟨rfl, hf, ha, hs⟩ := new_ok h
  exact ⟨hf, ha, hs, (sanitize_clean feature).slash, (sanitize_clean agentName).slash⟩

/-- A printed name does not start with `origin/`, so nothing is cut off. -/
theorem trimPrefix_string (b : BranchName) : trimPrefix b.string "origin/" = b.string := by
  have other : ¬ "origin/".toList <+: b.string.toList := by
    rw [toList_string]
    simp [agentPrefix]
  rw [trimPrefix, trimStart_of_not other, String.ofList_toList]

theorem trimPrefix_origin (s : String) : trimPrefix ("origin/" ++ s) "origin/" = s := by
  rw [trimPrefix, String.toList_append, trimStart_append, String.ofList_toList]

/-! ## Refs of git -/

/-- The rules that git has for the names of refs. -/
structure ValidRef (ref : String) : Prop where
  components : ∀ component ∈ ref.toList.splitOn '/',
    component ≠ [] ∧ component.head? ≠ some '.' ∧ ¬ ".lock".toList <:+ component
  dots : ¬ "..".toList <:+: ref.toList
  brace : ¬ "@\x7b".toList <:+: ref.toList
  chars : ∀ c ∈ ref.toList, 0x20 ≤ c.toNat ∧ c.toNat ≠ 0x7f ∧
    c ∉ [' ', '~', '^', ':', '?', '*', '[', '\\']
  last : ref.toList.getLast? ≠ some '/' ∧ ref.toList.getLast? ≠ some '.'

theorem toList_agentPrefix : agentPrefix.toList = "agent".toList ++ ['/'] := by decide

/-- The four components of a printed name, when the last one has no slash either. -/
theorem splitOn_string {b : BranchName} (hb : b.Separable) (hs : '/' ∉ b.sessionID.toList) :
    b.string.toList.splitOn '/' =
      ["agent".toList, b.feature.toList, b.agentName.toList, b.sessionID.toList] := by
  have slash : ('/' == '/') = true := rfl
  rw [toList_string, toList_agentPrefix, List.append_assoc, List.singleton_append,
    List.splitOn_append_cons_of_beq _ _ slash, List.splitOn_append_cons_of_beq _ _ slash,
    List.splitOn_append_cons_of_beq _ _ slash, List.splitOn_eq_singleton (by decide),
    List.splitOn_eq_singleton hb.feature_slash, List.splitOn_eq_singleton hb.agentName_slash,
    List.splitOn_eq_singleton hs]
  rfl

/-- A name of clean components is a ref. -/
theorem validRef_string {b : BranchName} (hb : b.Separable) (hf : Clean b.feature)
    (ha : Clean b.agentName) (hs : Clean b.sessionID) : ValidRef b.string := by
  -- Besides the slashes, the characters are those of `agent` and valid ones.
  have chars : ∀ c ∈ b.string.toList, c = '/' ∨ isValidBranchChar c := by
    intro c hc
    rw [toList_string] at hc
    simp only [List.mem_append, List.mem_cons] at hc
    rcases hc with hc | hc | rfl | hc | rfl | hc
    · have known : ∀ c ∈ agentPrefix.toList, c = '/' ∨ isValidBranchChar c := by
        simp [agentPrefix, isValidBranchChar]
      exact known c hc
    · exact .inr (hf.chars c hc)
    · exact .inl rfl
    · exact .inr (ha.chars c hc)
    · exact .inl rfl
    · exact .inr (hs.chars c hc)
  have absent : ∀ c, c ≠ '/' → isValidBranchChar c = false → c ∉ b.string.toList := by
    intro c hne hinvalid hc
    rcases chars c hc with rfl | hvalid
    · exact hne rfl
    · simp [hinvalid] at hvalid
  have dot := absent '.' (by decide) (by decide)
  refine ⟨?_, ?_, ?_, ?_, ?_, ?_⟩
  · intro component hcomponent
    rw [splitOn_string hb hs.slash] at hcomponent
    have inside : ∀ c ∈ component, c ∈ b.string.toList := by
      intro c hc
      simp only [List.mem_cons, List.not_mem_nil, or_false] at hcomponent
      rw [toList_string]
      rcases hcomponent with rfl | rfl | rfl | rfl
      · rw [toList_agentPrefix]
        exact List.mem_append_left _ (List.mem_append_left _ hc)
      all_goals simp [hc]
    refine ⟨?_, ?_, ?_⟩
    · simp only [List.mem_cons, List.not_mem_nil, or_false] at hcomponent
      rcases hcomponent with rfl | rfl | rfl | rfl
      · decide
      · simpa using hb.feature
      · simpa using hb.agentName
      · simpa using hb.sessionID
    · intro hhead
      exact dot (inside '.' (List.mem_of_head? hhead))
    · intro hlock
      exact dot (inside '.' (hlock.subset (by decide)))
  · intro hdots
    exact dot (hdots.subset (by decide))
  · intro hbrace
    exact absent '@' (by decide) (by decide) (hbrace.subset (by decide))
  · intro c hc
    rcases chars c hc with rfl | hvalid
    · decide
    · unfold isValidBranchChar at hvalid
      split_ifs at hvalid with hcontrol
      simp only [decide_eq_true_eq, List.mem_cons, not_or] at hvalid ⊢
      exact ⟨by omega, by omega, by grind⟩
  · intro hlast
    have : b.sessionID.toList.getLast? = some '/' := by
      have hne : b.sessionID.toList ≠ [] := by simpa using hb.sessionID
      have split : b.string.toList = (agentPrefix.toList ++ (b.feature.toList ++ '/' ::
          (b.agentName.toList ++ ['/']))) ++ b.sessionID.toList := by simp [toList_string]
      rwa [split, List.getLast?_append_of_ne_nil _ hne] at hlast
    exact hs.slash (List.mem_of_getLast? this)
  · intro hlast
    exact dot (List.mem_of_getLast? hlast)

/-- Branch names round-trip and are refs. A name that `New` returns is parsed back from its ref and
from its remote ref, its ref follows the rules of git, and different names have different refs.
Conversely, a ref that is parsed is the ref of the result, apart from a leading `origin/`. -/
theorem branch_names_round_trip :
    (∀ feature agentName sessionID b, new feature agentName sessionID = .ok b →
      parse b.string = .ok b ∧ parse ("origin/" ++ b.string) = .ok b ∧ ValidRef b.string) ∧
    (∀ feature agentName sessionID feature' agentName' sessionID' b b',
      new feature agentName sessionID = .ok b → new feature' agentName' sessionID' = .ok b' →
      b ≠ b' → b.string ≠ b'.string) ∧
    ∀ ref b, parse ref = .ok b → b.string = trimPrefix ref "origin/" := by
  have parsed : ∀ feature agentName sessionID b, new feature agentName sessionID = .ok b →
      parse b.string = .ok b := by
    intro feature agentName sessionID b h
    exact parse_ok_iff.mpr ⟨trimPrefix_string b, new_separable h⟩
  refine ⟨?_, ?_, ?_⟩
  · intro feature agentName sessionID b h
    refine ⟨parsed _ _ _ b h, parse_ok_iff.mpr ⟨trimPrefix_origin _, new_separable h⟩, ?_⟩
    have separable := new_separable h
    obtain ⟨rfl, _⟩ := new_ok h
    exact validRef_string separable (sanitize_clean _) (sanitize_clean _) (sanitize_clean _)
  · intro feature agentName sessionID feature' agentName' sessionID' b b' h h' hne heq
    have back := parsed _ _ _ b h
    rw [heq, parsed _ _ _ b' h'] at back
    exact hne (Except.ok.inj back).symm
  · intro ref b h
    exact (parse_ok_iff.mp h).1.symm

theorem branch_names_round_trip_login :
    new "fix: login" "copilot" "a..b" = .ok ⟨"fix-login", "copilot", "a-b"⟩ ∧
      parse "origin/agent/fix-login/copilot/a-b" = .ok ⟨"fix-login", "copilot", "a-b"⟩ ∧
      ValidRef "agent/fix-login/copilot/a-b" := by
  have made : new "fix: login" "copilot" "a..b" = .ok ⟨"fix-login", "copilot", "a-b"⟩ := by
    have : (new "fix: login" "copilot" "a..b").toOption =
        some ⟨"fix-login", "copilot", "a-b"⟩ := by decide +kernel
    exact toOption_eq_some.mp this
  obtain ⟨_, remote, ref⟩ := branch_names_round_trip.1 _ _ _ _ made
  exact ⟨made, remote, ref⟩

end Daedalus.Branch
