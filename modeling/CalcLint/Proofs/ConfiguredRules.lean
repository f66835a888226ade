import CalcLint.Proofs.DiagnosticPlaces

/-!
# What a configuration can change

A configuration silences rules and gives what they report another severity, and nothing else. Each
rule hears of its own entry only, under the identifier that no other accepted rule has, so an entry
cannot change what another rule reports. A run of fixes looks at codes and places, which no
severity changes; all it can hear of a configuration is which of the two rules about balance are
switched on.
-/
namespace CalcLint

theorem acceptRulesFrom_known {seen : List String} {rule : Rule} {rest : List RuleRequest}
    {rules : List Rule} (h : acceptRulesFrom seen (.known rule :: rest) = .ok rules) :
    rule.id ∉ seen ∧
      ∃ more, acceptRulesFrom (rule.id :: seen) rest = .ok more ∧ rules = rule :: more := by
  rw [acceptRulesFrom] at h
  split at h
  · contradiction
  · rename_i hseen
    cases hrest : acceptRulesFrom (rule.id :: seen) rest with
    | error cause =>
      rw [hrest] at h
      contradiction
    | ok more =>
      rw [hrest] at h
      exact ⟨hseen, more, rfl, (Except.ok.inj h).symm⟩

/-- Accepted rules have identifiers that differ from each other and from those seen before. -/
theorem acceptRulesFrom_nodup {seen : List String} {requests : List RuleRequest}
    {rules : List Rule} (h : acceptRulesFrom seen requests = .ok rules) :
    (rules.map Rule.id).Nodup ∧ ∀ rule ∈ rules, rule.id ∉ seen := by
  induction requests generalizing seen rules with
  | nil =>
    cases h
    simp
  | cons request rest ih =>
    cases request with
    | foreign typeName => contradiction
    | known rule =>
      obtain ⟨hseen, more, hmore, rfl⟩ := acceptRulesFrom_known h
      obtain ⟨hnodup, hnew⟩ := ih hmore
      simp only [List.mem_cons, not_or] at hnew
      refine ⟨?_, ?_⟩
      · rw [List.map_cons, List.nodup_cons, List.mem_map]
        exact ⟨fun ⟨r, hr, hid⟩ => (hnew r hr).1 hid, hnodup⟩
      · intro r hr
        rcases List.mem_cons.mp hr with rfl | hr
        · exact hseen
        · exact (hnew r hr).2

/-- A diagnostic of a rule as a configuration has it: with the severity of the rule's entry, or with
the rule's own if the entry names none or an empty one. -/
def Diagnostic.under (config : LintConfig) (rule : Rule) (d : Diagnostic) : Diagnostic :=
  { d with
    severity := ((config.optionsFor rule.id).severity.filter (·.name ≠ "")).getD rule.severity }

theorem Rule.severityUnder_eq (rule : Rule) (options : RuleOptions) :
    rule.severityUnder options = (options.severity.filter (·.name ≠ "")).getD rule.severity := by
  unfold Rule.severityUnder
  cases options.severity with
  | none => rfl
  | some severity => by_cases h : severity.name = "" <;> simp [Option.filter, h]

/-- What a kind of rule finds in a scanned document, before any configuration. -/
def RuleKind.found (kind : RuleKind) (script : Script) : List (Spec × Range) :=
  match kind with
  | .blockBalance =>
    (PairCheck.faults {} Token.kind script.tokens).map fun fault => (fault.1, fault.2.range)
  | .chainBalance =>
    (chainFaults Token.kind script.tokens).map fun fault => (fault.1, fault.2.range)
  | .commaPlacement => (commaIssues script.text).map fun issue => (issue.fault.spec, issue.range)

theorem Rule.run_eq_found (rule : Rule) (config : LintConfig) (script : Script) :
    rule.run config script =
      if (config.optionsFor rule.id).enabled then
        (rule.kind.found script).map fun fault =>
          (fault.1.report none (some rule.id) fault.2).under config rule
      else [] := by
  simp only [Rule.run, Rule.apply, Rule.severityUnder_eq]
  cases rule.kind <;>
    simp [RuleKind.found, checkPair, checkChain, reportFaults, Spec.report, Diagnostic.under,
      Function.comp_def]

/-- A rule finds the same under all configurations that let it speak. -/
theorem Rule.run_eq (rule : Rule) (config : LintConfig) (script : Script) :
    rule.run config script =
      if (config.optionsFor rule.id).enabled then
        (rule.run {} script).map (Diagnostic.under config rule)
      else [] := by
  have hon : (({} : LintConfig).optionsFor rule.id).enabled = true := rfl
  rw [rule.run_eq_found config, rule.run_eq_found {}, if_pos hon, List.map_map]
  rfl

theorem Rule.run_congr {rule : Rule} {config config' : LintConfig}
    (h : config'.optionsFor rule.id = config.optionsFor rule.id) (script : Script) :
    rule.run config' script = rule.run config script := by
  rw [Rule.run, Rule.run, h]

/-- Diagnostics carry the identifier of their rule. -/
theorem Rule.rule_of_mem_run {rule : Rule} {config : LintConfig} {script : Script} {d : Diagnostic}
    (h : d ∈ rule.run config script) : d.rule = some rule.id := by
  rw [Rule.run_eq_found] at h
  split at h
  · obtain ⟨fault, _, rfl⟩ := List.mem_map.mp h
    rfl
  · contradiction

theorem lintScript_eq (config : LintConfig) (rules : List Rule) (script : Script) :
    lintScript config rules script =
      (rules.filter fun rule => (config.optionsFor rule.id).enabled).flatMap fun rule =>
        (rule.run {} script).map (Diagnostic.under config rule) := by
  induction rules with
  | nil => rfl
  | cons rule rest ih =>
    rw [lintScript] at ih ⊢
    rw [List.flatMap_cons, ih, rule.run_eq config]
    by_cases h : (config.optionsFor rule.id).enabled = true
    · rw [if_pos h, List.filter_cons, if_pos h, List.flatMap_cons]
    · rw [if_neg h, List.filter_cons, if_neg h, List.nil_append]

/-- The diagnostics of a rule are found under its own identifier, and under no other. -/
theorem Rule.run_filter (rule : Rule) (config : LintConfig) (script : Script) (id : String) :
    (rule.run config script).filter (·.rule = some id) =
      if rule.id = id then rule.run config script else [] := by
  split
  · rename_i hid
    rw [List.filter_eq_self]
    intro d hd
    rw [Rule.rule_of_mem_run hd, hid, decide_eq_true_eq]
  · rename_i hid
    rw [List.filter_eq_nil_iff]
    intro d hd
    rw [Rule.rule_of_mem_run hd, decide_eq_true_eq, Option.some.injEq]
    exact hid

/-- Among rules with identifiers of their own, the diagnostics under an identifier are those of its
rule. -/
theorem lintScript_filter_rule {rules : List Rule} (hids : (rules.map Rule.id).Nodup) {rule : Rule}
    (hrule : rule ∈ rules) (config : LintConfig) (script : Script) :
    (lintScript config rules script).filter (·.rule = some rule.id) = rule.run config script := by
  obtain ⟨front, back, rfl⟩ := List.append_of_mem hrule
  rw [List.map_append, List.map_cons, List.nodup_middle, List.nodup_cons, ← List.map_append] at hids
  have hnone : ∀ part : List Rule, (∀ r ∈ part, r ∈ front ++ back) →
      (part.flatMap fun r => (r.run config script).filter (·.rule = some rule.id)) = [] := by
    intro part hpart
    rw [List.flatMap_eq_nil_iff]
    intro r hr
    rw [Rule.run_filter, if_neg]
    intro hid
    exact hids.1 (hid ▸ List.mem_map_of_mem (hpart r hr))
  rw [lintScript, List.filter_flatMap, List.flatMap_append, List.flatMap_cons,
    hnone front (fun r hr => List.mem_append_left back hr),
    hnone back (fun r hr => List.mem_append_right front hr), Rule.run_filter, if_pos rfl,
    List.nil_append, List.append_nil]

/-- Configurations that differ in the entry of one identifier let all other rules report the
same. -/
theorem lintScript_filter_other {id : String} {config config' : LintConfig}
    (h : ∀ other ≠ id, config'.optionsFor other = config.optionsFor other) (rules : List Rule)
    (script : Script) :
    (lintScript config' rules script).filter (·.rule ≠ some id) =
      (lintScript config rules script).filter (·.rule ≠ some id) := by
  rw [lintScript, lintScript, List.filter_flatMap, List.filter_flatMap]
  apply List.flatMap_congr
  intro rule _
  by_cases hid : rule.id = id
  · have hnone : ∀ c : LintConfig, (rule.run c script).filter (·.rule ≠ some id) = [] := by
      intro c
      rw [List.filter_eq_nil_iff]
      intro d hd
      rw [Rule.rule_of_mem_run hd, hid]
      simp
    rw [hnone, hnone]
  · rw [Rule.run_congr (h rule.id hid)]

/-- A lint run with accepted rules, also when the scan of the text is handed in. -/
theorem runLint_accepted {requests : List RuleRequest} {rules : List Rule}
    (haccept : acceptRules requests = .ok rules) {text : Text} {script : Option Script}
    (hscript : ∀ s ∈ script, s.text = text) (config : LintConfig) :
    runLint text (some config) script (some requests) =
      .ok ⟨script.getD (Script.ofText text),
        lintScript config rules (script.getD (Script.ofText text))⟩ := by
  unfold runLint
  cases script with
  | none =>
    simp [haccept]
    rfl
  | some s =>
    simp [haccept, hscript s rfl]
    rfl

/-- What is inserted for the diagnostics of a kind of rule hangs on its switch alone. -/
theorem RuleKind.mendings_diagnostics (kind : RuleKind) (config : LintConfig) (text : Text) :
    (kind.diagnostics config text).filterMap Diagnostic.mending? =
      if kind.enabled config then
        (kind.faults text).filterMap fun fault =>
          (closingKeyword? fault.1.code).map (⟨fault.2.start.line, ·⟩)
      else [] := by
  unfold RuleKind.diagnostics
  split
  · rw [List.filterMap_map]
    rfl
  · rfl

/-- Misplaced commas are not mended. -/
@[simp] theorem mendings_commaPlacement (config : LintConfig) (text : Text) :
    (RuleKind.commaPlacement.diagnostics config text).filterMap Diagnostic.mending? = [] := by
  rw [RuleKind.mendings_diagnostics]
  split
  · rw [List.filterMap_eq_nil_iff]
    intro fault hfault
    have hspecs : ∀ spec ∈ RuleKind.commaPlacement.specs, closingKeyword? spec.code = none := by
      decide
    rw [hspecs fault.1 (RuleKind.spec_mem_specs hfault), Option.map_none]
  · rfl

theorem mendings_congr {config config' : LintConfig}
    (hblock : RuleKind.blockBalance.enabled config' = RuleKind.blockBalance.enabled config)
    (hchain : RuleKind.chainBalance.enabled config' = RuleKind.chainBalance.enabled config)
    (text : Text) : mendings config' text = mendings config text := by
  have hsplit : ∀ c : LintConfig, mendings c text =
      (RuleKind.blockBalance.diagnostics c text).filterMap Diagnostic.mending? ++
        ((RuleKind.chainBalance.diagnostics c text).filterMap Diagnostic.mending? ++
          (RuleKind.commaPlacement.diagnostics c text).filterMap Diagnostic.mending?) := by
    intro c
    simp [mendings, lint_eq, RuleKind.all]
  rw [hsplit, hsplit, mendings_commaPlacement, mendings_commaPlacement,
    RuleKind.mendings_diagnostics, RuleKind.mendings_diagnostics, hblock, hchain,
    ← RuleKind.mendings_diagnostics, ← RuleKind.mendings_diagnostics]

theorem fixedText_congr {config config' : LintConfig}
    (hblock : RuleKind.blockBalance.enabled config' = RuleKind.blockBalance.enabled config)
    (hchain : RuleKind.chainBalance.enabled config' = RuleKind.chainBalance.enabled config)
    (text : Text) : fixedText config' text = fixedText config text := by
  rw [fixedText, mendings_congr hblock hchain, fixedText]

/-- A configuration only filters and relabels. A lint run with accepted rules reports, rule after
rule, what the enabled ones report by default, with the severity of their entries. The diagnostics
under a rule's identifier are its own and no others, so that a change to one entry leaves those of
all other rules alone. The text that a run of fixes gives depends on two switches. -/
theorem config_filters_and_relabels {requests : List RuleRequest} {rules : List Rule}
    (haccept : acceptRules requests = .ok rules) {text : Text} {script : Option Script}
    (hscript : ∀ s ∈ script, s.text = text) (config : LintConfig) :
    (∃ result, runLint text (some config) script (some requests) = .ok result ∧
      result.script = script.getD (Script.ofText text) ∧
      result.diagnostics =
        ((rules.filter fun rule => (config.optionsFor rule.id).enabled).flatMap fun rule =>
          (rule.run {} result.script).map (Diagnostic.under config rule)) ∧
      (∀ rule ∈ rules, result.diagnostics.filter (·.rule = some rule.id) =
        if (config.optionsFor rule.id).enabled then
          (rule.run {} result.script).map (Diagnostic.under config rule)
        else []) ∧
      ∀ id config', (∀ other ≠ id, config'.optionsFor other = config.optionsFor other) →
        ∃ result', runLint text (some config') script (some requests) = .ok result' ∧
          result'.diagnostics.filter (·.rule ≠ some id) =
            result.diagnostics.filter (·.rule ≠ some id)) ∧
    ∀ config',
      RuleKind.blockBalance.enabled config' = RuleKind.blockBalance.enabled config →
      RuleKind.chainBalance.enabled config' = RuleKind.chainBalance.enabled config →
        ∃ r r', runFix text (some config) none none = .ok r ∧
          runFix text (some config') none none = .ok r' ∧ r'.fixed = r.fixed := by
  refine ⟨⟨_, runLint_accepted haccept hscript config, rfl, ?_, ?_, ?_⟩, ?_⟩
  · exact lintScript_eq config rules _
  · intro rule hrule
    rw [← rule.run_eq config]
    exact lintScript_filter_rule (acceptRulesFrom_nodup haccept).1 hrule config _
  · intro id config' hsame
    exact ⟨_, runLint_accepted haccept hscript config', lintScript_filter_other hsame rules _⟩
  · intro config' hblock hchain
    exact ⟨fixResult config text, fixResult config' text, (runFix_eq config text).1,
      (runFix_eq config' text).1, fixedText_congr hblock hchain text⟩

/-- Two rules about blocks under identifiers of their own: one is switched off, the other keeps its
severity because its entry names an empty one. -/
theorem config_relabels_renamed_rules :
    acceptRules [.known { kind := .blockBalance, id := "first", severity := .info },
        .known { kind := .commaPlacement }, .known { kind := .blockBalance, id := "second" }] =
      .ok [{ kind := .blockBalance, id := "first", severity := .info }, { kind := .commaPlacement },
        { kind := .blockBalance, id := "second" }] ∧
    ∃ result, runLint "FIX(a,)".toList
        (some ⟨[("second", { enabled := false }), ("first", { severity := some ⟨""⟩ }),
          ("commaPlacement", { severity := some .error })]⟩) none
        (some [.known { kind := .blockBalance, id := "first", severity := .info },
          .known { kind := .commaPlacement }, .known { kind := .blockBalance, id := "second" }]) =
        .ok result ∧
      result.diagnostics.map (fun d => (d.rule, d.severity.name, d.code)) =
        [(some "first", "info", "missingEndfix"),
          (some "commaPlacement", "error", "trailingComma")] := by
  have haccept : acceptRules [.known { kind := .blockBalance, id := "first", severity := .info },
      .known { kind := .commaPlacement }, .known { kind := .blockBalance, id := "second" }] =
        .ok [{ kind := .blockBalance, id := "first", severity := .info },
          { kind := .commaPlacement }, { kind := .blockBalance, id := "second" }] := by
    decide
  obtain ⟨⟨result, hrun, hscript, hdiagnostics, _⟩, _⟩ :=
    @config_filters_and_relabels _ _ haccept "FIX(a,)".toList none (by simp)
      ⟨[("second", { enabled := false }), ("first", { severity := some ⟨""⟩ }),
        ("commaPlacement", { severity := some .error })]⟩
  refine ⟨haccept, result, hrun, ?_⟩
  rw [hdiagnostics, hscript]
  cbv

end CalcLint
