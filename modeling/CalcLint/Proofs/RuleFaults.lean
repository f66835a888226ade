import CalcLint.Lint
import CalcLint.Proofs.Chain
import Mathlib.Data.List.Basic

/-!
# What each default rule finds

A rule finds specifications with the places where they apply; a configuration decides whether the
rule speaks and under which severity. Each specification belongs to one rule, so the diagnostics of
one specification are read off what its rule finds.
-/
namespace CalcLint

/-- What a kind of rule finds in a text, before any configuration. -/
def RuleKind.faults (kind : RuleKind) (text : Text) : List (Spec × Range) :=
  match kind with
  | .blockBalance =>
    (PairCheck.faults {} Token.kind (scan text)).map fun fault => (fault.1, fault.2.range)
  | .chainBalance => (chainFaults Token.kind (scan text)).map fun fault => (fault.1, fault.2.range)
  | .commaPlacement => (commaIssues text).map fun issue => (issue.fault.spec, issue.range)

/-- Whether a configuration lets the default rule of a kind speak. -/
def RuleKind.enabled (kind : RuleKind) (config : LintConfig) : Bool :=
  (config.optionsFor kind.defaultId).enabled

/-- How the default rule of a kind reports a specification under a configuration. -/
def RuleKind.report (kind : RuleKind) (config : LintConfig) (spec : Spec) (range : Range) :
    Diagnostic :=
  let rule : Rule := { kind }
  spec.report (some (rule.severityUnder (config.optionsFor rule.id))) (some rule.id) range

@[simp] theorem RuleKind.report_code (kind : RuleKind) (config : LintConfig) (spec : Spec)
    (range : Range) : (kind.report config spec range).code = spec.code := rfl

@[simp] theorem RuleKind.report_range (kind : RuleKind) (config : LintConfig) (spec : Spec)
    (range : Range) : (kind.report config spec range).range = range := rfl

/-- What the default rule of a kind reports on a text. -/
def RuleKind.diagnostics (kind : RuleKind) (config : LintConfig) (text : Text) : List Diagnostic :=
  if kind.enabled config then
    (kind.faults text).map fun fault => kind.report config fault.1 fault.2
  else []

theorem lint_eq (config : LintConfig) (text : Text) :
    lint config text = RuleKind.all.flatMap (·.diagnostics config text) := by
  have hrun : ∀ kind : RuleKind, Rule.run { kind } config (Script.ofText text) =
      kind.diagnostics config text := by
    intro kind
    cases kind <;>
      simp [Rule.run, Rule.apply, RuleKind.diagnostics, RuleKind.enabled, RuleKind.faults,
        RuleKind.report, checkPair, checkChain, reportFaults, Script.ofText, Function.comp_def]
  rw [lint, lintScript, defaultRules, List.flatMap_map]
  simp only [hrun]

/-- A rule finds only its own specifications. -/
theorem RuleKind.spec_mem_specs {kind : RuleKind} {text : Text} {fault : Spec × Range}
    (h : fault ∈ kind.faults text) : fault.1 ∈ kind.specs := by
  cases kind with
  | blockBalance =>
    obtain ⟨f, hf, rfl⟩ := List.mem_map.mp h
    simp only [PairCheck.faults, PairFaults.specified, List.mem_append, List.mem_map] at hf
    rcases hf with ⟨t, _, rfl⟩ | ⟨t, _, rfl⟩ <;> simp [RuleKind.specs]
  | chainBalance =>
    obtain ⟨f, hf, rfl⟩ := List.mem_map.mp h
    rw [chainFaults, chainFrom_eq, List.mem_append] at hf
    rcases hf with hf | hf
    · have hsub : ∀ spec ∈ chainSpecs, spec ∈ RuleKind.chainBalance.specs := by decide
      exact hsub f.1 (spec_mem_of_mem_chainMarks hf)
    · obtain ⟨frame, _, rfl⟩ := List.mem_map.mp hf
      simp [RuleKind.specs]
  | commaPlacement =>
    obtain ⟨issue, _, rfl⟩ := List.mem_map.mp h
    cases issue.fault <;> simp [RuleKind.specs, CommaFault.spec]

/-- The diagnostics of one specification. -/
def diagnosticsOf (spec : Spec) (diagnostics : List Diagnostic) : List Diagnostic :=
  diagnostics.filter (·.code = spec.code)

theorem specs_codes {kind kind' : RuleKind} {spec spec' : Spec} (h : spec ∈ kind.specs)
    (h' : spec' ∈ kind'.specs) (hcode : spec.code = spec'.code) : kind = kind' ∧ spec = spec' := by
  have hall : ∀ kind kind' : RuleKind, ∀ spec ∈ kind.specs, ∀ spec' ∈ kind'.specs,
      spec.code = spec'.code → kind = kind' ∧ spec = spec' := by
    intro kind kind'
    cases kind <;> cases kind' <;> decide
  exact hall kind kind' spec h spec' h' hcode

theorem diagnosticsOf_own {kind : RuleKind} {spec : Spec} (h : spec ∈ kind.specs)
    (config : LintConfig) (text : Text) :
    diagnosticsOf spec (kind.diagnostics config text) =
      if kind.enabled config then
        ((kind.faults text).filter (·.1 = spec)).map fun fault => kind.report config spec fault.2
      else [] := by
  unfold diagnosticsOf RuleKind.diagnostics
  split
  · have hfilter : (kind.faults text).filter (·.1.code = spec.code) =
        (kind.faults text).filter (·.1 = spec) := by
      apply List.filter_congr
      intro fault hfault
      rw [decide_eq_decide]
      constructor
      · exact fun hcode => (specs_codes (RuleKind.spec_mem_specs hfault) h hcode).2
      · exact fun heq => heq ▸ rfl
    rw [List.filter_map]
    show ((kind.faults text).filter (·.1.code = spec.code)).map
      (fun fault => kind.report config fault.1 fault.2) = _
    rw [hfilter]
    apply List.map_congr_left
    intro fault hfault
    rw [of_decide_eq_true (List.mem_filter.mp hfault).2]
  · rfl

theorem diagnosticsOf_foreign {kind kind' : RuleKind} {spec : Spec} (h : spec ∈ kind.specs)
    (hne : kind' ≠ kind) (config : LintConfig) (text : Text) :
    diagnosticsOf spec (kind'.diagnostics config text) = [] := by
  rw [diagnosticsOf, List.filter_eq_nil_iff]
  intro d hd
  unfold RuleKind.diagnostics at hd
  split at hd
  · obtain ⟨fault, hfault, rfl⟩ := List.mem_map.mp hd
    rw [RuleKind.report_code, decide_eq_true_eq]
    exact fun hcode => hne (specs_codes (RuleKind.spec_mem_specs hfault) h hcode).1
  · simp at hd

/-- The diagnostics of a specification are what its rule finds of it. -/
theorem diagnosticsOf_lint {kind : RuleKind} {spec : Spec} (h : spec ∈ kind.specs)
    (config : LintConfig) (text : Text) :
    diagnosticsOf spec (lint config text) =
      if kind.enabled config then
        ((kind.faults text).filter (·.1 = spec)).map fun fault => kind.report config spec fault.2
      else [] := by
  have hsplit : diagnosticsOf spec (lint config text) =
      diagnosticsOf spec (RuleKind.blockBalance.diagnostics config text) ++
        (diagnosticsOf spec (RuleKind.chainBalance.diagnostics config text) ++
          diagnosticsOf spec (RuleKind.commaPlacement.diagnostics config text)) := by
    simp [lint_eq, RuleKind.all, diagnosticsOf]
  rw [hsplit, ← diagnosticsOf_own h]
  cases kind <;> simp [diagnosticsOf_foreign h]

/-- The two kinds of blocks that a closer ends. -/
inductive Block where
  | fix
  | chain
  deriving DecidableEq, Repr

namespace Block

def opener : Block → Keyword
  | .fix => .fix
  | .chain => .ifHead

def closer : Block → Keyword
  | .fix => .endfix
  | .chain => .endif

/-- What is reported of an opener without a closer. -/
def missing : Block → Spec
  | .fix => .missingEndfix
  | .chain => .missingEndif

/-- What is reported of a closer without an opener. -/
def unmatched : Block → Spec
  | .fix => .unmatchedEndfix
  | .chain => .unmatchedEndif

/-- The rule that watches over a kind of block. -/
def rule : Block → RuleKind
  | .fix => .blockBalance
  | .chain => .chainBalance

theorem opener_ne_closer (b b' : Block) : b.closer ≠ b'.opener := by
  cases b <;> cases b' <;> decide

theorem closer_injective {b b' : Block} (h : b.closer = b'.closer) : b = b' := by
  cases b <;> cases b' <;> simp_all [closer]

theorem missing_mem_specs (b : Block) : b.missing ∈ b.rule.specs := by
  cases b <;> decide

theorem unmatched_mem_specs (b : Block) : b.unmatched ∈ b.rule.specs := by
  cases b <;> decide

/-- What the rule of a kind of block finds of its openers and closers is what the pair check
finds, also where the rule is the chain check. -/
theorem rule_faults (b : Block) (text : Text) :
    (b.rule.faults text).filter (·.1 = b.missing) =
        (pairFaults Token.kind b.opener b.closer (scan text)).unclosed.map
          (fun t => (b.missing, t.range)) ∧
      (b.rule.faults text).filter (·.1 = b.unmatched) =
        (pairFaults Token.kind b.opener b.closer (scan text)).stray.map
          (fun t => (b.unmatched, t.range)) := by
  cases b with
  | fix =>
    have hne : Spec.unmatchedEndfix ≠ Spec.missingEndfix := by decide
    have hne' : Spec.missingEndfix ≠ Spec.unmatchedEndfix := by decide
    constructor <;>
      simp [rule, missing, unmatched, opener, closer, RuleKind.faults, PairCheck.faults,
        PairFaults.specified, List.filter_map, hne, hne', Function.comp_def, List.filter_true,
        List.filter_false]
  | chain =>
    have hmissing := @chainFaults_missing Token Token.kind (scan text)
    have hunmatched := @chainFaults_unmatched Token Token.kind (scan text)
    constructor
    · show (RuleKind.chainBalance.faults text).filter (·.1 = .missingEndif) = _
      simp [missing, opener, closer, RuleKind.faults, List.filter_map, Function.comp_def, hmissing]
    · show (RuleKind.chainBalance.faults text).filter (·.1 = .unmatchedEndif) = _
      simp [unmatched, opener, closer, RuleKind.faults, List.filter_map, Function.comp_def,
        hunmatched]

theorem diagnosticsOf_missing (b : Block) (config : LintConfig) (text : Text) :
    diagnosticsOf b.missing (lint config text) =
      if b.rule.enabled config then
        (pairFaults Token.kind b.opener b.closer (scan text)).unclosed.map
          (fun t => b.rule.report config b.missing t.range)
      else [] := by
  rw [diagnosticsOf_lint b.missing_mem_specs, (b.rule_faults text).1, List.map_map]
  rfl

theorem diagnosticsOf_unmatched (b : Block) (config : LintConfig) (text : Text) :
    diagnosticsOf b.unmatched (lint config text) =
      if b.rule.enabled config then
        (pairFaults Token.kind b.opener b.closer (scan text)).stray.map
          (fun t => b.rule.report config b.unmatched t.range)
      else [] := by
  rw [diagnosticsOf_lint b.unmatched_mem_specs, (b.rule_faults text).2, List.map_map]
  rfl

end Block

end CalcLint
