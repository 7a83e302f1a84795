import GaugeDesk.Core.Fault
import GaugeDesk.Lib.Ascii
import GaugeDesk.Lib.TextLines
import Mathlib.Data.List.DropRight

/-!
# Advancement: the rules and their decision

`advancement.rs`: the facts of a settled turn (`TurnFacts`), the holds that no
configuration waives (`violatesSafety`), the operator's `writes-within` rules
(`parse`), and whether a turn advances by itself (`decide`).

    decide = some citation → paths changed, none of them config or gate, no external reads,
      and all of them within the scopes of one rule  (decide_eq_some)
-/

namespace GaugeDesk.Advancement

open TextLines List

variable {rule : WritesWithin} {paths : List String} {path : String} {facts : TurnFacts}
  {rules : AdvancementRules}

/-! ## Paths with a meaning of their own -/

/-- The last component of a path. -/
def fileName (path : String) : String := String.ofList (lastPart ['/'] path.toList)

def isConfigPath (path : String) : Bool :=
  eqIgnoreAsciiCase (fileName path) ".agent-config.json" ||
    eqIgnoreAsciiCase (fileName path) "agent-config.json"

def gateProgramPath : String := "gates/inbound.whip"

def gateEnvelopePath : String := "gates/inbound.envelope"

/-- `trim_start_matches("./")`. -/
def trimDotSlash : List Char → List Char
  | '.' :: '/' :: path => trimDotSlash path
  | path => path

def isGatePath (path : String) : Bool :=
  let normalized := String.ofList (trimDotSlash path.toList)
  normalized == gateProgramPath || normalized == gateEnvelopePath

/-! ## Facts of a turn -/

structure TurnFacts where
  changedPaths : List String
  externalReadStakeholders : List String
deriving DecidableEq, Repr

def TurnFacts.violatesSafety (facts : TurnFacts) : Option String :=
  match facts.changedPaths.find? isConfigPath with
  | some config => some ("the turn touched the policy config `" ++ config ++ "`")
  | none =>
    match facts.changedPaths.find? isGatePath with
    | some gate => some ("the turn edited the project's gate `" ++ gate ++ "`")
    | none =>
      if !facts.externalReadStakeholders.isEmpty then
        some ("the turn read content with external stake: " ++
          ", ".intercalate facts.externalReadStakeholders)
      else none

/-- What stands before the second path of a header. -/
def sideMark : List Char := [' ', 'b', '/']

/-- The path that a header of a unified diff names: what follows its last ` b/`. -/
def namedPath (line : List Char) : Option String := do
  let rest ← line.dropPrefix? "diff --git a/".toList
  let path ← afterLast sideMark rest
  some (String.ofList (trim path))

/-- One line of the loop of `changed_paths_of`. -/
def pushNamed (paths : List String) (line : List Char) : List String :=
  match namedPath line with
  | none => paths
  | some path => if path ≠ "" ∧ path ∉ paths then paths ++ [path] else paths

def TurnFacts.changedPathsOf (diff : String) : List String := (lines diff.toList).foldl pushNamed []

/-! ## Rules -/

structure WritesWithin where
  paths : List String
deriving DecidableEq, Repr

def scopeMatches (pattern path : String) : Bool :=
  match pattern.toList.dropSuffix? "/**".toList with
  | some directory => (directory ++ ['/']).isPrefixOf path.toList
  | none =>
    match pattern.toList.dropPrefix? "*".toList with
    | some ending => ending.isSuffixOf path.toList
    | none => pattern == path

/-- `serde_json::Value`, the keys of an object being distinct. -/
inductive Value where
  | null
  | bool (value : Bool)
  | number (literal : String)
  | string (text : String)
  | array (items : List Value)
  | object (members : List (String × Value))

def Value.get (key : String) : Value → Option Value
  | .object members => (members.find? fun member => member.1 == key).map (·.2)
  | _ => none

def Value.asArray : Value → Option (List Value)
  | .array items => some items
  | _ => none

def Value.asStr : Value → Option String
  | .string text => some text
  | _ => none

structure AdvancementRules where
  rules : List WritesWithin
deriving DecidableEq, Repr

/-- The scopes that a rule keeps, without the blanket one. -/
def usableScopes (items : List Value) : List String :=
  ((items.filterMap Value.asStr).map fun scope => String.ofList (trim scope.toList)).filter fun scope =>
    scope ≠ "" && scope ≠ "**"

/-- One entry of the loop of `parse`. -/
def adoptedRule (entry : Value) : Option WritesWithin :=
  if (entry.get "advance").bind Value.asStr ≠ some "writes-within" then none
  else
    match (entry.get "paths").bind Value.asArray with
    | none => none
    | some items => if (usableScopes items).isEmpty then none else some ⟨usableScopes items⟩

/-- `parse`, with `serde_json::from_str`. -/
def AdvancementRules.parse (fromStr : String → Option Value) (raw : Option String) : AdvancementRules :=
  match raw with
  | none => ⟨[]⟩
  | some raw =>
    match fromStr raw with
    | none => ⟨[]⟩
    | some doc =>
      match (doc.get "rules").bind Value.asArray with
      | none => ⟨[]⟩
      | some entries => ⟨entries.filterMap adoptedRule⟩

/-- The rule's scopes cover all paths. -/
def WritesWithin.covers (rule : WritesWithin) (paths : List String) : Bool :=
  paths.all fun path => rule.paths.any fun scope => scopeMatches scope path

def AdvancementRules.decide (rules : AdvancementRules) (facts : TurnFacts) : Option String :=
  if facts.changedPaths.isEmpty then none
  else if facts.violatesSafety.isSome then none
  else
    (rules.rules.find? fun rule => rule.covers facts.changedPaths).map fun rule =>
      "rule writes-within(" ++ ", ".intercalate rule.paths ++ ") covered " ++
        ", ".intercalate facts.changedPaths ++ "; no config touched, no external reads"

/-! ## What a decision says -/

theorem covers_iff :
    rule.covers paths = true ↔ ∀ path ∈ paths, ∃ scope ∈ rule.paths, scopeMatches scope path = true := by
  unfold WritesWithin.covers
  simp only [all_eq_true, any_eq_true]

theorem not_forall_of_find? {p : String → Bool} (h : paths.find? p = some path) :
    ¬ ∀ path ∈ paths, p path = false := by
  intro hall
  have hfalse := hall path (mem_of_find?_eq_some h)
  rw [find?_some h] at hfalse
  cases hfalse

theorem violatesSafety_eq_none : facts.violatesSafety = none ↔
      (∀ path ∈ facts.changedPaths, isConfigPath path = false ∧ isGatePath path = false) ∧
        facts.externalReadStakeholders = [] := by
  unfold TurnFacts.violatesSafety
  cases hconfig : facts.changedPaths.find? isConfigPath with
  | some config =>
    simp only [reduceCtorEq, false_iff]
    rintro ⟨hall, -⟩
    exact not_forall_of_find? hconfig fun path hpath => (hall path hpath).1
  | none =>
    cases hgate : facts.changedPaths.find? isGatePath with
    | some gate =>
      simp only [reduceCtorEq, false_iff]
      rintro ⟨hall, -⟩
      exact not_forall_of_find? hgate fun path hpath => (hall path hpath).2
    | none =>
      have hpaths : ∀ path ∈ facts.changedPaths, isConfigPath path = false ∧ isGatePath path = false := by
        intro path hpath
        exact ⟨(Bool.not_eq_true _).mp (find?_eq_none.mp hconfig path hpath),
          (Bool.not_eq_true _).mp (find?_eq_none.mp hgate path hpath)⟩
      by_cases hreads : facts.externalReadStakeholders = []
      · simpa [hreads] using hpaths
      · simp [hreads]

/-- **A decision to advance.** -/
theorem decide_eq_some {citation : String} (h : rules.decide facts = some citation) :
    facts.changedPaths ≠ [] ∧ facts.violatesSafety = none ∧
      ∃ rule ∈ rules.rules, rule.covers facts.changedPaths = true := by
  unfold AdvancementRules.decide at h
  by_cases hempty : facts.changedPaths = []
  · simp [hempty] at h
  · rw [if_neg (by simpa using hempty)] at h
    cases hsafe : facts.violatesSafety with
    | some reason => simp [hsafe] at h
    | none =>
      rw [if_neg (by simp [hsafe])] at h
      obtain ⟨rule, hfind, -⟩ := Option.map_eq_some_iff.mp h
      have hcovers := find?_some (p := fun rule : WritesWithin => rule.covers facts.changedPaths) hfind
      exact ⟨hempty, rfl, rule, mem_of_find?_eq_some hfind, hcovers⟩

theorem decide_isSome (hne : facts.changedPaths ≠ []) (hsafe : facts.violatesSafety = none)
    (hrule : rule ∈ rules.rules) (hcovers : rule.covers facts.changedPaths = true) :
    ∃ citation, rules.decide facts = some citation := by
  unfold AdvancementRules.decide
  rw [if_neg (by simpa using hne), if_neg (by simp [hsafe])]
  have hfound : (rules.rules.find? fun rule => rule.covers facts.changedPaths).isSome = true :=
    find?_isSome.mpr ⟨rule, hrule, hcovers⟩
  obtain ⟨found, hfound⟩ := Option.isSome_iff_exists.mp hfound
  rw [hfound]
  exact ⟨_, rfl⟩

theorem scopeMatches_of_plain {scope : String} (h : '*' ∉ scope.toList) :
    scopeMatches scope path = true ↔ scope = path := by
  unfold scopeMatches
  have hsuffix : scope.toList.dropSuffix? "/**".toList = none := by
    cases hs : scope.toList.dropSuffix? "/**".toList with
    | none => rfl
    | some directory =>
      obtain ⟨ending, heq, hbeq⟩ := dropSuffix?_eq_some_iff.mp hs
      rw [heq, eq_of_beq hbeq] at h
      exact absurd (mem_append_right _ (by decide)) h
  have hstar : scope.toList.dropPrefix? "*".toList = none := by
    cases hs : scope.toList.dropPrefix? "*".toList with
    | none => rfl
    | some ending =>
      obtain ⟨star, heq, hbeq⟩ := dropPrefix?_eq_some_iff.mp hs
      rw [heq, eq_of_beq hbeq] at h
      exact absurd (mem_append_left _ (by decide)) h
  rw [hsuffix, hstar]
  exact beq_iff_eq

/-! ## The paths that a diff names -/

theorem mem_pushNamed {line : List Char} :
    path ∈ pushNamed paths line ↔ path ∈ paths ∨ path ≠ "" ∧ namedPath line = some path := by
  unfold pushNamed
  cases namedPath line with
  | none => simp
  | some named =>
    by_cases hnamed : named ≠ "" ∧ named ∉ paths
    · simp only [hnamed, ne_eq, not_false_eq_true, and_self, if_true, mem_append,
        mem_singleton, Option.some.injEq]
      constructor
      · rintro (hmem | rfl)
        · exact .inl hmem
        · exact .inr ⟨hnamed.1, rfl⟩
      · rintro (hmem | ⟨-, rfl⟩)
        · exact .inl hmem
        · exact .inr rfl
    · simp only [if_neg hnamed, Option.some.injEq]
      constructor
      · exact .inl
      · rintro (hmem | ⟨hne, rfl⟩)
        · exact hmem
        · by_contra hnot
          exact hnamed ⟨hne, hnot⟩

/-- The paths of the facts are those of the lines. -/
theorem mem_changedPathsOf {diff : String} : path ∈ TurnFacts.changedPathsOf diff ↔
      path ≠ "" ∧ ∃ line ∈ lines diff.toList, namedPath line = some path := by
  have key : ∀ (ls : List (List Char)) (paths : List String),
      path ∈ ls.foldl pushNamed paths ↔
        path ∈ paths ∨ path ≠ "" ∧ ∃ line ∈ ls, namedPath line = some path := by
    intro ls
    induction ls with
    | nil => simp
    | cons line ls ih =>
      intro paths
      rw [foldl_cons, ih, mem_pushNamed]
      simp only [mem_cons, exists_eq_or_imp, and_or_left]
      exact or_assoc
  unfold TurnFacts.changedPathsOf
  rw [key]
  simp

end GaugeDesk.Advancement
