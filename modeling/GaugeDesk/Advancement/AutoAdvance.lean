import GaugeDesk.Advancement.AdvancementRules
import GaugeDesk.Core.Trimmed
import GaugeDesk.External.FolderDiff

/-!
# Advancement: what advances by itself

The facts of a folder turn are the paths read back from its rendered difference.
A header writes a path twice with ` b/` between, and is read from its last ` b/`
on, trimmed; so what is read of a path is its own last part:

    changedPathsOf (folderDiff ..) = the non-empty recovered paths  (mem_facts)

Config and gate paths keep what they are recognised by, so none of them is
changed when a turn advances; that all changed paths are within one rule's scopes
holds when every changed path is read as it is (`never_widens`).  A rule with the
scope `*` covers every path (`rule_uncovered_iff`).
-/

namespace GaugeDesk.Advancement

open TextLines External List Option Bool

/-! ## The path read from a header -/

/-- What is read of a path. -/
def recovered (path : String) : String :=
  String.ofList (trim (lastPart sideMark (stripCr path.toList)))

/-- The path is read as it is: it holds no ` b/`, and no whitespace stands at its ends. -/
def Recoverable (path : String) : Prop :=
  path ≠ "" ∧ ¬ sideMark <:+: path.toList ∧ trim path.toList = path.toList

instance : DecidablePred Recoverable := fun path =>
  inferInstanceAs (Decidable (path ≠ "" ∧ ¬ sideMark <:+: path.toList ∧ trim path.toList = path.toList))

theorem namedPath_header (path : String) : namedPath (stripCr (header path)) = some (recovered path) := by
  have hstrip : stripCr (header path) =
      "diff --git a/".toList ++ (path.toList ++ sideMark ++ stripCr path.toList) := by
    have hlast : ("diff --git a/".toList ++ path.toList ++ sideMark).getLast? ≠ some '\r' := by
      rw [getLast?_append_of_ne_nil _ (by decide)]
      decide
    exact stripCr_append hlast
  have hrest : (stripCr (header path)).dropPrefix? "diff --git a/".toList =
      some (path.toList ++ sideMark ++ stripCr path.toList) :=
    dropPrefix?_eq_some_iff.mpr ⟨_, hstrip, beq_self_eq_true _⟩
  have hfound : afterLast sideMark (path.toList ++ sideMark ++ stripCr path.toList) =
      some (lastPart sideMark (stripCr path.toList)) := afterLast_append (by decide) _ _
  unfold namedPath
  rw [hrest, bind_eq_bind, bind_some, hfound]
  rfl

theorem namedPath_of_sign {line : List Char} (h : line.head? = some '-' ∨ line.head? = some '+') :
    namedPath line = none := by
  have hnone : line.dropPrefix? "diff --git a/".toList = none := by
    cases hrest : line.dropPrefix? "diff --git a/".toList with
    | none => rfl
    | some rest =>
      obtain ⟨start, hline, hbeq⟩ := dropPrefix?_eq_some_iff.mp hrest
      have hhead : line.head? = some 'd' := by
        rw [hline, eq_of_beq hbeq]
        rfl
      rw [hhead] at h
      rcases h with h | h
      · exact absurd h (by decide)
      · exact absurd h (by decide)
  unfold namedPath
  rw [hnone]
  rfl

variable {path : String}

theorem recoverable_recovered (h : recovered path ≠ "") : Recoverable (recovered path) := by
  refine ⟨h, ?_, ?_⟩
  · unfold recovered
    rw [String.toList_ofList]
    intro hin
    exact not_infix_lastPart (by decide) (hin.trans (isInfix_trim _))
  · unfold recovered
    rw [String.toList_ofList]
    exact trim_of_trimmed (trimmed_trim _)

theorem recovered_of_recoverable (h : Recoverable path) : recovered path = path := by
  obtain ⟨-, hsep, htrim⟩ := h
  have hcr : path.toList.getLast? ≠ some '\r' := by
    intro hlast
    have hspace := (trim_eq_self.mp htrim).2 '\r' hlast
    revert hspace
    decide
  unfold recovered
  rw [stripCr_of_ne hcr, lastPart_of_not_infix (by decide) hsep, htrim, String.ofList_toList]

variable {before after : Files} {diff : String}

/-- The facts are the recovered paths of what differs. -/
def FactsRead (before after : Files) (diff : String) : Prop :=
  ∀ fact, fact ∈ TurnFacts.changedPathsOf diff ↔
    fact ≠ "" ∧ ∃ path, Differs before after path ∧ recovered path = fact

/-- **The facts of a rendered difference are the recovered paths.** -/
theorem mem_facts {fromUtf8Lossy : List UInt8 → String} {base candidate : Tree}
    (hbefore : fileMap base = .ok before) (hafter : fileMap candidate = .ok after)
    (hdiff : folderDiff fromUtf8Lossy base candidate = .ok diff)
    (hfree : ∀ path, Differs before after path → '\n' ∉ path.toList) :
    FactsRead before after diff := by
  intro fact
  obtain ⟨hheaders, hlines⟩ := mem_lines_folderDiff hbefore hafter hdiff hfree
  rw [mem_changedPathsOf]
  refine and_congr_right fun _ => ?_
  constructor
  · rintro ⟨line, hline, hnamed⟩
    rcases hlines line hline with ⟨path, hpath, rfl⟩ | hsign
    · rw [namedPath_header] at hnamed
      exact ⟨path, hpath, some.inj hnamed⟩
    · rw [namedPath_of_sign hsign] at hnamed
      cases hnamed
  · rintro ⟨path, hpath, rfl⟩
    exact ⟨_, hheaders path hpath, namedPath_header path⟩

/-! ## Config and gate paths -/

/-- Trimming keeps a last component that is trimmed. -/
theorem lastPart_trim {text : List Char} (hne : lastPart ['/'] text ≠ [])
    (h : Trimmed (lastPart ['/'] text)) : lastPart ['/'] (trim text) = lastPart ['/'] text := by
  have hend : ∀ rest : List Char, (rest ++ lastPart ['/'] text).rdropWhile isWhitespace =
      rest ++ lastPart ['/'] text := by
    intro rest
    apply rdropWhile_isWhitespace
    rw [getLast?_append_of_ne_nil rest hne]
    exact h.2
  show lastPart ['/'] ((text.dropWhile isWhitespace).rdropWhile isWhitespace) = _
  rcases lastPart_cases ['/'] text with heq | ⟨u, heq⟩
  · rw [heq] at h
    have htrim : trim text = text := trim_of_trimmed h
    exact congrArg _ htrim
  · have hdrop : text.dropWhile isWhitespace =
        u.dropWhile isWhitespace ++ ['/'] ++ lastPart ['/'] text := by
      conv_lhs => rw [heq]
      rw [append_assoc, append_assoc, dropWhile_append]
      split
      · next hempty =>
        rw [List.isEmpty_iff.mp hempty]
        rfl
      · rfl
    rw [hdrop, hend, lastPart_append (not_mem_nil)]
    exact lastPart_of_not_infix (by decide) (not_infix_lastPart (by decide))

/-- The last component of a path, when it is trimmed, is that of what is read of the path. -/
theorem fileName_recovered (hne : fileName path ≠ "")
    (hname : Trimmed (fileName path).toList) : fileName (recovered path) = fileName path := by
  unfold fileName at hne hname
  rw [String.toList_ofList] at hname
  have hne : lastPart ['/'] path.toList ≠ [] := fun hnil => hne (by rw [hnil])
  have hcr : stripCr path.toList = path.toList := by
    apply stripCr_of_ne
    rw [← getLast?_lastPart hne]
    intro hlast
    exact absurd (hname.2 '\r' hlast) (by decide)
  -- the last component stands after the last ` b/`, which ends with a slash
  have hpart : lastPart ['/'] (lastPart sideMark path.toList) = lastPart ['/'] path.toList := by
    rcases lastPart_cases sideMark path.toList with heq | ⟨u, heq⟩
    · rw [heq]
    · have hsplit : path.toList = (u ++ [' ', 'b']) ++ ['/'] ++ lastPart sideMark path.toList := by
        rw [append_assoc u]
        exact heq
      have happ := lastPart_append (not_mem_nil (a := '/')) (u ++ [' ', 'b'])
        (lastPart sideMark path.toList)
      rw [← hsplit] at happ
      exact happ.symm
  unfold fileName recovered
  rw [String.toList_ofList, hcr, lastPart_trim (by rwa [hpart]) (by rwa [hpart]), hpart]

/-- **A config path is read as one.** -/
theorem isConfigPath_recovered (h : isConfigPath path = true) :
    isConfigPath (recovered path) = true := by
  have hname : fileName path ≠ "" ∧ Trimmed (fileName path).toList := by
    have hof : ∀ name : String, name ≠ "" → Trimmed name.toList →
        name.toList.map Char.toLower = name.toList → eqIgnoreAsciiCase (fileName path) name = true →
        fileName path ≠ "" ∧ Trimmed (fileName path).toList := by
      intro name hne htrim hlower heq
      have hmap := (eq_of_beq heq).trans hlower
      refine ⟨?_, trimmed_of_lower hmap htrim⟩
      intro hempty
      rw [hempty] at hmap
      exact hne (String.toList_inj.mp hmap.symm)
    rcases or_eq_true_iff.mp h with h | h
    · exact hof _ (by decide) (trim_eq_self.mp (by decide)) (by decide) h
    · exact hof _ (by decide) (trim_eq_self.mp (by decide)) (by decide) h
  unfold isConfigPath at h ⊢
  rwa [fileName_recovered hname.1 hname.2]

theorem free_of_trimDotSlash {p : Char → Bool} (hdot : p '.' = false) (hslash : p '/' = false)
    {path : List Char} (h : ∀ c ∈ trimDotSlash path, p c = false) : ∀ c ∈ path, p c = false := by
  induction path using trimDotSlash.induct with
  | case1 path ih =>
    intro c hc
    rcases mem_cons.mp hc with rfl | hc
    · exact hdot
    · rcases mem_cons.mp hc with rfl | hc
      · exact hslash
      · exact ih h c hc
  | case2 path hnot =>
    rwa [trimDotSlash.eq_2 path hnot] at h

/-- **A gate path is read as it is.** -/
theorem recovered_gate (h : isGatePath path = true) : recovered path = path := by
  have hfree : ∀ c ∈ path.toList, isWhitespace c = false := by
    apply free_of_trimDotSlash (by decide) (by decide)
    have hgates : gateProgramPath.toList.any isWhitespace = false ∧
        gateEnvelopePath.toList.any isWhitespace = false := by
      decide
    have hany : (trimDotSlash path.toList).any isWhitespace = false := by
      rw [← String.toList_ofList (l := trimDotSlash path.toList)]
      rcases or_eq_true_iff.mp h with h | h
      · rw [eq_of_beq h]
        exact hgates.1
      · rw [eq_of_beq h]
        exact hgates.2
    exact fun c hc => (not_eq_true _).mp (any_eq_false.mp hany c hc)
  apply recovered_of_recoverable
  refine ⟨?_, ?_, trim_of_trimmed (trimmed_of_free hfree)⟩
  · rintro rfl
    revert h
    decide
  · intro hin
    have hblank : ' ' ∈ path.toList := hin.sublist.mem (by decide)
    have hspace := hfree ' ' hblank
    revert hspace
    decide

/-! ## Advancing -/

/-- **A turn never advances beyond one rule's scopes**, nor with a config or gate path changed. -/
def NeverWidens (before after : Files) (diff : String) : Prop :=
  ∀ (fromStr : String → Option Value) (raw : Option String) (external : List String) (citation : String),
    (AdvancementRules.parse fromStr raw).decide ⟨TurnFacts.changedPathsOf diff, external⟩ =
        some citation →
      (∃ rule ∈ (AdvancementRules.parse fromStr raw).rules, ∀ path, Differs before after path →
        ∃ scope ∈ rule.paths, scopeMatches scope path = true) ∧
      ∀ path, Differs before after path → isConfigPath path = false ∧ isGatePath path = false

/-- Facts that some rule with these very paths as its scopes lets advance. -/
def PlainFacts (facts : List String) : Prop :=
  facts ≠ [] ∧ ∀ fact ∈ facts, '*' ∉ fact.toList ∧ isConfigPath fact = false ∧ isGatePath fact = false

instance : DecidablePred PlainFacts := fun facts =>
  inferInstanceAs (Decidable (facts ≠ [] ∧ ∀ fact ∈ facts,
    '*' ∉ fact.toList ∧ isConfigPath fact = false ∧ isGatePath fact = false))

/-- A document of one rule with the paths as its scopes. -/
def exactDocument (paths : List String) : Value :=
  .object [("rules", .array [.object [("advance", .string "writes-within"),
    ("paths", .array (paths.map .string))]])]

theorem usableScopes_of_plain {paths : List String}
    (h : ∀ path ∈ paths, Recoverable path ∧ '*' ∉ path.toList) :
    usableScopes (paths.map .string) = paths := by
  have hstr : (paths.map Value.string).filterMap Value.asStr = paths := by
    rw [filterMap_map]
    exact filterMap_some
  have htrim : paths.map (fun scope => String.ofList (trim scope.toList)) = paths := by
    conv_rhs => rw [← map_id paths]
    apply map_congr_left
    intro path hpath
    rw [(h path hpath).1.2.2, String.ofList_toList]
    rfl
  unfold usableScopes
  rw [hstr, htrim, filter_eq_self]
  intro path hpath
  have hblanket : path ≠ "**" := by
    rintro rfl
    exact (h _ hpath).2 (by decide)
  simp [(h path hpath).1.1, hblanket]

theorem parse_exactDocument {paths : List String} (hne : paths ≠ [])
    (h : ∀ path ∈ paths, Recoverable path ∧ '*' ∉ path.toList) :
    AdvancementRules.parse (fun _ => some (exactDocument paths)) (some "") = ⟨[⟨paths⟩]⟩ := by
  have hrule : adoptedRule (.object [("advance", .string "writes-within"),
      ("paths", .array (paths.map .string))]) = some ⟨paths⟩ := by
    show (if (usableScopes (paths.map .string)).isEmpty then none
      else some (WritesWithin.mk (usableScopes (paths.map .string)))) = some ⟨paths⟩
    rw [usableScopes_of_plain h, if_neg (by simpa using hne)]
  show AdvancementRules.mk ([Value.object [("advance", .string "writes-within"),
      ("paths", .array (paths.map .string))]].filterMap adoptedRule) = _
  rw [filterMap_cons_some hrule]
  rfl

section
variable (hread : FactsRead before after diff)
include hread

/-- No config or gate path is changed when a turn advances. -/
theorem policy_untouched {rules : AdvancementRules} {external : List String} {citation : String}
    (h : rules.decide ⟨TurnFacts.changedPathsOf diff, external⟩ = some citation)
    (hpath : Differs before after path) : isConfigPath path = false ∧ isGatePath path = false := by
  obtain ⟨-, hsafe, -⟩ := decide_eq_some h
  have hfacts := (violatesSafety_eq_none.mp hsafe).1
  constructor
  · by_contra hnot
    have hconfig := isConfigPath_recovered ((not_eq_false _).mp hnot)
    have hne : recovered path ≠ "" := by
      intro hempty
      rw [hempty] at hconfig
      exact absurd hconfig (by decide)
    have hfact := (hread _).mpr ⟨hne, path, hpath, rfl⟩
    rw [(hfacts _ hfact).1] at hconfig
    cases hconfig
  · by_contra hnot
    have hgate := (not_eq_false _).mp hnot
    have hne : path ≠ "" := by
      rintro rfl
      exact absurd hgate (by decide)
    have hfact := (hread _).mpr ⟨hne, path, hpath, recovered_gate hgate⟩
    rw [(hfacts _ hfact).2] at hgate
    cases hgate

theorem neverWidens_of_recoverable
    (h : ∀ path, Differs before after path → Recoverable path) : NeverWidens before after diff := by
  intro fromStr raw external citation hadvance
  refine ⟨?_, fun path hpath => policy_untouched hread hadvance hpath⟩
  obtain ⟨-, -, rule, hrule, hcovers⟩ := decide_eq_some hadvance
  refine ⟨rule, hrule, fun path hpath => ?_⟩
  have hfact := (hread _).mpr
    ⟨(h path hpath).1, path, hpath, recovered_of_recoverable (h path hpath)⟩
  exact covers_iff.mp hcovers path hfact

theorem recoverable_of_neverWidens
    (hplain : PlainFacts (TurnFacts.changedPathsOf diff)) (h : NeverWidens before after diff) :
    ∀ path, Differs before after path → Recoverable path := by
  obtain ⟨hne, hfacts⟩ := hplain
  have hasis : ∀ fact ∈ TurnFacts.changedPathsOf diff, Recoverable fact := by
    intro fact hfact
    obtain ⟨hempty, path, -, rfl⟩ := (hread fact).mp hfact
    exact recoverable_recovered hempty
  -- the rule whose scopes are the facts themselves lets the turn advance
  have hparse := parse_exactDocument hne fun fact hfact => ⟨hasis fact hfact, (hfacts fact hfact).1⟩
  have hcovers := covers_iff.mpr fun fact hfact =>
      ⟨fact, hfact, (scopeMatches_of_plain (hfacts fact hfact).1).mpr rfl⟩
  have hsafe : (TurnFacts.mk (TurnFacts.changedPathsOf diff) []).violatesSafety = none :=
    violatesSafety_eq_none.mpr ⟨fun fact hfact => (hfacts fact hfact).2, rfl⟩
  obtain ⟨citation, hadvance⟩ : ∃ citation,
      (AdvancementRules.mk [⟨TurnFacts.changedPathsOf diff⟩]).decide
        ⟨TurnFacts.changedPathsOf diff, []⟩ = some citation :=
    decide_isSome hne hsafe (mem_singleton_self _) hcovers
  rw [← hparse] at hadvance
  obtain ⟨⟨rule, hrule, hall⟩, -⟩ := h _ _ _ _ hadvance
  rw [hparse] at hrule
  obtain rfl := mem_singleton.mp hrule
  intro path hpath
  obtain ⟨scope, hscope, hmatch⟩ := hall path hpath
  obtain rfl := (scopeMatches_of_plain (hfacts scope hscope).1).mp hmatch
  exact hasis scope hscope

end

/-- **Scopes of automatic advancement.**  When every changed path is read as it is, a turn never
advances beyond one rule's scopes; when facts could advance at all by a rule that names them, this
is needed.  No config or gate path is changed in a turn that advances. -/
theorem never_widens (fromUtf8Lossy : List UInt8 → String) (base candidate : Tree)
    (before after : Files) (diff : String) (hbefore : fileMap base = .ok before)
    (hafter : fileMap candidate = .ok after)
    (hdiff : folderDiff fromUtf8Lossy base candidate = .ok diff)
    (hfree : ∀ path, Differs before after path → '\n' ∉ path.toList) :
    ((∀ path, Differs before after path → Recoverable path) → NeverWidens before after diff) ∧
    (PlainFacts (TurnFacts.changedPathsOf diff) →
      (NeverWidens before after diff ↔ ∀ path, Differs before after path → Recoverable path)) ∧
    ∀ (rules : AdvancementRules) (external : List String) (citation : String),
      rules.decide ⟨TurnFacts.changedPathsOf diff, external⟩ = some citation →
        ∀ path, Differs before after path → isConfigPath path = false ∧ isGatePath path = false := by
  have hread := mem_facts hbefore hafter hdiff hfree
  exact ⟨neverWidens_of_recoverable hread,
    fun hplain => ⟨recoverable_of_neverWidens hread hplain, neverWidens_of_recoverable hread⟩,
    fun _ _ _ hadvance _ hpath => policy_untouched hread hadvance hpath⟩

theorem addedBytes_fit : [(1 : UInt8)].length < 2 ^ 63 := by decide

/-- One file below two directories. -/
def addedTree (outer inner name : String) : Tree :=
  .dir outer (.dir inner (.file name ⟨[1], addedBytes_fit⟩ .nil) .nil) .nil

theorem fileMap_nil : fileMap .nil = .ok ∅ := rfl

/-- The files of a tree with one, whose path is all that differs from no files. -/
theorem exists_fileMap {root : Tree}
    (h : (fileMap root).toOption.map (·.keys) = some [path]) :
    ∃ after, fileMap root = .ok after ∧ ∀ other, Differs ∅ after other ↔ other = path := by
  cases hmap : fileMap root with
  | error e =>
    rw [hmap] at h
    cases h
  | ok after =>
    rw [hmap] at h
    have hkeys : after.keys = [path] := some.inj h
    refine ⟨after, rfl, fun other => ?_⟩
    have hempty : (∅ : Files)[other]? = none := Std.TreeMap.getElem?_emptyc
    unfold Differs
    rw [hempty, ← mem_singleton, ← hkeys, Std.TreeMap.mem_keys, Std.TreeMap.mem_iff_isSome_getElem?,
      isSome_iff_ne_none]
    exact ne_comm

/-- `docs/a/y` is read as it is. -/
theorem never_widens_added : ∃ after diff, fileMap (addedTree "docs" "a" "y") = .ok after ∧
    folderDiff (fun _ => "") .nil (addedTree "docs" "a" "y") = .ok diff ∧ NeverWidens ∅ after diff := by
  obtain ⟨after, hafter, hdiffers⟩ : ∃ after, fileMap (addedTree "docs" "a" "y") = .ok after ∧
      ∀ other, Differs ∅ after other ↔ other = "docs/a/y" :=
    exists_fileMap (by decide +kernel)
  obtain ⟨diff, hdiff⟩ := folderDiff_ok (fun _ => "") fileMap_nil hafter
  refine ⟨after, diff, hafter, hdiff, (never_widens _ _ _ _ _ _ rfl hafter hdiff ?_).1 ?_⟩
  · intro path hpath
    rw [(hdiffers path).mp hpath]
    decide
  · intro path hpath
    rw [(hdiffers path).mp hpath]
    decide +kernel

/-- `secret b/docs/y` is read as `docs/y`: with the scope `docs/**` it advances. -/
theorem scope_widened : ∃ after diff, fileMap (addedTree "secret b" "docs" "y") = .ok after ∧
    folderDiff (fun _ => "") .nil (addedTree "secret b" "docs" "y") = .ok diff ∧
    (∀ path, Differs ∅ after path → '\n' ∉ path.toList) ∧
    TurnFacts.changedPathsOf diff = ["docs/y"] ∧ Differs ∅ after "secret b/docs/y" ∧
    ((AdvancementRules.parse (fun _ => some (exactDocument ["docs/**"])) (some "")).decide
      ⟨TurnFacts.changedPathsOf diff, []⟩).isSome = true ∧
    ¬ NeverWidens ∅ after diff := by
  obtain ⟨after, hafter, hdiffers⟩ : ∃ after, fileMap (addedTree "secret b" "docs" "y") = .ok after ∧
      ∀ other, Differs ∅ after other ↔ other = "secret b/docs/y" :=
    exists_fileMap (by decide +kernel)
  obtain ⟨diff, hdiff⟩ := folderDiff_ok (fun _ => "") fileMap_nil hafter
  have hfacts : TurnFacts.changedPathsOf diff = ["docs/y"] := by
    have hread : (folderDiff (fun _ => "") .nil (addedTree "secret b" "docs" "y")).toOption.map
        TurnFacts.changedPathsOf = some ["docs/y"] := by
      decide +kernel
    rw [hdiff] at hread
    exact some.inj hread
  have hadvance : ((AdvancementRules.parse (fun _ => some (exactDocument ["docs/**"])) (some "")).decide
      ⟨["docs/y"], []⟩).isSome = true := by
    decide +kernel
  refine ⟨after, diff, hafter, hdiff, ?_, hfacts, (hdiffers _).mpr rfl, by rwa [hfacts], ?_⟩
  · intro path hpath
    rw [(hdiffers path).mp hpath]
    decide
  · intro hnever
    obtain ⟨citation, hcitation⟩ := isSome_iff_exists.mp hadvance
    rw [← hfacts] at hcitation
    obtain ⟨⟨rule, hrule, hall⟩, -⟩ := hnever _ _ _ _ hcitation
    obtain ⟨scope, hscope, hmatch⟩ := hall "secret b/docs/y" ((hdiffers _).mpr rfl)
    have hnone : ∀ rule ∈ (AdvancementRules.parse (fun _ => some (exactDocument ["docs/**"]))
        (some "")).rules, ∀ scope ∈ rule.paths, scopeMatches scope "secret b/docs/y" = false := by
      decide +kernel
    rw [hnone rule hrule scope hscope] at hmatch
    cases hmatch

/-! ## Scopes that match all -/

theorem scopeMatches_star (path : String) : scopeMatches "*" path = true := rfl

/-- A character that ends no scope is a path of its own, outside of every scope but `*`. -/
theorem scopeMatches_char {scope : String} {c : Char} (hstar : scope ≠ "*") (hslash : c ≠ '/')
    (hc : scope.toList.getLast? ≠ some c) : scopeMatches scope (String.ofList [c]) = false := by
  unfold scopeMatches
  rw [show (String.ofList [c]).toList = [c] from String.toList_ofList]
  split
  · next directory _ =>
    rw [eq_false_iff, ne_eq, isPrefixOf_iff_prefix]
    intro hstart
    have hmem := hstart.subset (mem_append_right directory (mem_singleton_self '/'))
    exact hslash (mem_singleton.mp hmem).symm
  · split
    · next ending hending =>
      obtain ⟨star, hscope, hbeq⟩ := dropPrefix?_eq_some_iff.mp hending
      rw [eq_of_beq hbeq] at hscope
      rw [eq_false_iff, ne_eq, isSuffixOf_iff_suffix]
      intro hend
      rcases eq_nil_or_concat' ending with rfl | ⟨init, last, rfl⟩
      · exact hstar (String.toList_inj.mp hscope)
      · have hmem := hend.subset (mem_append_right init (mem_singleton_self last))
        obtain rfl : last = c := mem_singleton.mp hmem
        exact hc (by rw [hscope, ← append_assoc, getLast?_concat])
    · refine beq_eq_false_iff_ne.mpr ?_
      rintro rfl
      simp at hc

/-- **A rule that parsing adopts leaves a path uncovered**, when a character ends none of its scopes,
exactly if none of them is `*`. -/
theorem rule_uncovered_iff (fromStr : String → Option Value) (raw : Option String) :
    ∀ rule ∈ (AdvancementRules.parse fromStr raw).rules, ∀ c ≠ '/',
      (∀ scope ∈ rule.paths, scope.toList.getLast? ≠ some c) →
      ((∃ path ≠ "", ∀ scope ∈ rule.paths, scopeMatches scope path = false) ↔ "*" ∉ rule.paths) := by
  intro rule _ c hslash hc
  constructor
  · rintro ⟨path, -, hnone⟩ hstar
    exact false_ne_true ((hnone "*" hstar).symm.trans (scopeMatches_star path))
  · intro hstar
    refine ⟨String.ofList [c], by simp, fun scope hscope => ?_⟩
    exact scopeMatches_char (ne_of_mem_of_not_mem hscope hstar) hslash (hc scope hscope)

theorem rule_uncovered_iff_docs : ∃ path ≠ "", ∀ scope ∈ ["docs/**"], scopeMatches scope path = false :=
  (rule_uncovered_iff (fun _ => some (exactDocument ["docs/**"])) (some "") ⟨["docs/**"]⟩
    (by decide +kernel) 'x' (by decide) (by decide)).mpr (by decide)

/-- **The scope `*` is adopted**, and matches every path. -/
theorem star_adopted :
    (AdvancementRules.parse (fun _ => some (exactDocument ["*"])) (some "")).rules = [⟨["*"]⟩] ∧
      ∀ path, scopeMatches "*" path = true :=
  ⟨by decide +kernel, scopeMatches_star⟩

end GaugeDesk.Advancement
