import CalcLint.Proofs.ChainBlame
import CalcLint.Proofs.ConfiguredRules
import Mathlib

/-!
# Sorted reports

No two diagnostics of a text start at the same place: a keyword is reported at most once by the rule
that watches over its kind, a comma at most once, and no keyword starts with a comma. So the order
in which rules run shows in the order of their diagnostics only, and is lost when these are sorted.
-/
namespace CalcLint

/-- Keywords of different kinds, each taken from the stream in its order, are different. -/
theorem nodup_append_of_kind {tokens front back : List Token} (hnodup : tokens.Nodup)
    (hfront : front.Sublist tokens) (hback : back.Sublist tokens) {k : Keyword}
    (hfront' : ∀ t ∈ front, t.kind ≠ k) (hback' : ∀ t ∈ back, t.kind = k) :
    (front ++ back).Nodup := by
  refine List.nodup_append.mpr ⟨hfront.nodup hnodup, hback.nodup hnodup, ?_⟩
  rintro s hs t ht rfl
  exact hfront' s hs (hback' s ht)

theorem nodup_blockFaults {tokens : List Token} (h : tokens.Nodup) :
    ((PairCheck.faults {} Token.kind tokens).map Prod.snd).Nodup := by
  obtain ⟨hstray, hunclosed⟩ := @pairFaults_sublist Token Token.kind .fix .endfix tokens
  obtain ⟨hstray', hunclosed'⟩ := @kind_of_mem_pairFaults Token Token.kind .fix .endfix tokens
  have hsplit : (PairCheck.faults {} Token.kind tokens).map Prod.snd =
      (pairFaults Token.kind .fix .endfix tokens).stray ++
        (pairFaults Token.kind .fix .endfix tokens).unclosed := by
    simp [PairCheck.faults, PairFaults.specified, Function.comp_def]
  rw [hsplit]
  refine nodup_append_of_kind h hstray hunclosed ?_ hunclosed'
  intro t ht
  rw [hstray' t ht]
  decide

theorem nodup_chainFaults {tokens : List Token} (h : tokens.Nodup) :
    ((chainFaults Token.kind tokens).map Prod.snd).Nodup := by
  have hunclosed := (@pairFaults_sublist Token Token.kind .ifHead .endif tokens).2
  have hunclosed' := (@kind_of_mem_pairFaults Token Token.kind .ifHead .endif tokens).2
  have hsplit : (chainFaults Token.kind tokens).map Prod.snd =
      (chainMarks Token.kind [] tokens).map Prod.snd ++
        (pairFaults Token.kind .ifHead .endif tokens).unclosed := by
    simp [chainFaults_eq, Function.comp_def]
  rw [hsplit]
  refine nodup_append_of_kind h (chainMarks_sublist [] tokens) hunclosed ?_ hunclosed'
  intro t ht
  obtain ⟨fault, hfault, rfl⟩ := List.mem_map.mp ht
  have hspec := spec_mem_of_mem_chainMarks hfault
  have hkeyword := (chainMarks_keyword hfault).2
  have hall : ∀ spec ∈ chainSpecs, (spec, Keyword.ifHead) ∉ keywordSpecs := by decide
  intro hkind
  rw [hkind] at hkeyword
  exact hall fault.1 hspec hkeyword

theorem nodup_scan_starts (text : Text) : ((scan text).map (·.range.start)).Nodup := by
  rw [List.Nodup, List.pairwise_map]
  apply (scan_pairwise text).imp_of_mem
  intro s t hs _ hbefore heq
  have hline : s.line = t.line := congrArg Position.line heq
  have hcolumn : s.column = t.column := congrArg Position.character heq
  have hlength := lexeme_length_of_mem_scan hs
  have hpos := s.kind.width_pos
  rcases hbefore with hlt | ⟨_, hle⟩ <;> omega

/-- A keyword is known by the place where it starts. -/
theorem eq_of_start_eq {text : Text} {s t : Token} (hs : s ∈ scan text) (ht : t ∈ scan text)
    (h : s.range.start = t.range.start) : s = t :=
  List.inj_on_of_nodup_map (nodup_scan_starts text) hs ht h

theorem nodup_comma_starts (text : Text) : ((commaIssues text).map (·.range.start)).Nodup := by
  rw [List.Nodup, List.pairwise_map]
  apply (commaLines_pairwise tracks_start 0 (lines text)).imp
  intro i j hbefore heq
  have hline : i.line = j.line := congrArg Position.line heq
  have hcolumn : i.column = j.column := congrArg Position.character heq
  rcases hbefore with hlt | ⟨_, hlt⟩ <;> omega

/-- What one kind of rule finds starts at different places. -/
theorem nodup_fault_starts (kind : RuleKind) (text : Text) :
    ((kind.faults text).map (·.2.start)).Nodup := by
  have htokens : ∀ {found : List (Spec × Token)}, (found.map Prod.snd).Nodup →
      (∀ fault ∈ found, fault.2 ∈ scan text) →
        ((found.map fun fault => (fault.1, fault.2.range)).map (·.2.start)).Nodup := by
    intro found hnodup hmem
    have hstarts : ((found.map Prod.snd).map (·.range.start)).Nodup := by
      apply hnodup.map_on
      intro s hs t ht heq
      obtain ⟨fault, hfault, rfl⟩ := List.mem_map.mp hs
      obtain ⟨fault', hfault', rfl⟩ := List.mem_map.mp ht
      exact eq_of_start_eq (hmem fault hfault) (hmem fault' hfault') heq
    rw [List.map_map] at hstarts ⊢
    exact hstarts
  cases kind with
  | blockBalance =>
    exact htokens (nodup_blockFaults (scan_nodup text)) (fun _ h => (block_fault h).1)
  | chainBalance =>
    exact htokens (nodup_chainFaults (scan_nodup text)) (fun _ h => (chain_fault h).1)
  | commaPlacement =>
    have hstarts := nodup_comma_starts text
    rw [RuleKind.faults, List.map_map]
    exact hstarts

theorem head?_covered {text : Text} {r : Range} (h : r.InLine text) :
    (covered text r).head? = (lineAt text r.start.line)[r.start.character]? := by
  have hwidth : r.stop.character - r.start.character ≠ 0 := by
    have := h.start_lt
    omega
  rw [covered, List.head?_take, if_neg hwidth, List.head?_drop]

/-- Misplaced commas show a comma first, and nothing else that is reported does. -/
theorem Shows.head?_comma {spec : Spec} {shown : Line} (h : Shows spec shown) :
    shown.head? = some ',' ↔ spec ∈ RuleKind.commaPlacement.specs := by
  cases h with
  | keyword hspec hlexeme =>
    have hspecs : ∀ entry ∈ keywordSpecs,
        entry.1 ∉ RuleKind.commaPlacement.specs ∧ entry.2.spelling.head? ≠ some ',' := by decide
    obtain ⟨hforeign, hletter⟩ := hspecs _ hspec
    refine iff_of_false (fun hcomma => hletter ?_) hforeign
    rw [← hlexeme, List.head?_map, hcomma]
    rfl
  | trailing => exact iff_of_true rfl (by decide)
  | single => exact iff_of_true rfl (by decide)
  | pair => exact iff_of_true rfl (by decide)

/-- What is no misplaced comma is a keyword, reported under a specification for its kind. -/
theorem exists_token_of_fault {kind : RuleKind} {text : Text} {fault : Spec × Range}
    (h : fault ∈ kind.faults text) (hcomma : fault.1 ∉ RuleKind.commaPlacement.specs) :
    ∃ t ∈ scan text, (fault.1, t.kind) ∈ keywordSpecs ∧ fault.2 = t.range := by
  cases kind with
  | blockBalance =>
    obtain ⟨found, hfound, rfl⟩ := List.mem_map.mp h
    exact ⟨found.2, (block_fault hfound).1, (block_fault hfound).2, rfl⟩
  | chainBalance =>
    obtain ⟨found, hfound, rfl⟩ := List.mem_map.mp h
    exact ⟨found.2, (chain_fault hfound).1, (chain_fault hfound).2, rfl⟩
  | commaPlacement => exact absurd (RuleKind.spec_mem_specs h) hcomma

/-- Each kind of keyword is watched over by one kind of rule. -/
theorem kind_eq_of_keyword {kind kind' : RuleKind} {spec spec' : Spec} {k : Keyword}
    (h : (spec, k) ∈ keywordSpecs) (h' : (spec', k) ∈ keywordSpecs) (hspec : spec ∈ kind.specs)
    (hspec' : spec' ∈ kind'.specs) : kind = kind' := by
  have hall : ∀ kind kind' : RuleKind, ∀ entry ∈ keywordSpecs, ∀ entry' ∈ keywordSpecs,
      entry.2 = entry'.2 → entry.1 ∈ kind.specs → entry'.1 ∈ kind'.specs → kind = kind' := by
    intro kind kind'
    cases kind <;> cases kind' <;> decide
  exact hall kind kind' (spec, k) h (spec', k) h' rfl hspec hspec'

/-- What two kinds of rules find starts at different places. -/
theorem kind_eq_of_start_eq {kind kind' : RuleKind} {text : Text} {fault fault' : Spec × Range}
    (h : fault ∈ kind.faults text) (h' : fault' ∈ kind'.faults text)
    (hstart : fault.2.start = fault'.2.start) : kind = kind' := by
  have hspec := RuleKind.spec_mem_specs h
  have hspec' := RuleKind.spec_mem_specs h'
  obtain ⟨hin, hshows⟩ := fault_place h
  obtain ⟨hin', hshows'⟩ := fault_place h'
  have hcomma : fault.1 ∈ RuleKind.commaPlacement.specs ↔
      fault'.1 ∈ RuleKind.commaPlacement.specs := by
    rw [← hshows.head?_comma, ← hshows'.head?_comma, head?_covered hin, head?_covered hin', hstart]
  by_cases hmem : fault.1 ∈ RuleKind.commaPlacement.specs
  · have hkind := (specs_codes hspec hmem rfl).1
    have hkind' := (specs_codes hspec' (hcomma.mp hmem) rfl).1
    rw [hkind, hkind']
  · obtain ⟨t, ht, hkeyword, hrange⟩ := exists_token_of_fault h hmem
    obtain ⟨t', ht', hkeyword', hrange'⟩ := exists_token_of_fault h' (mt hcomma.mpr hmem)
    have heq : t = t' := by
      apply eq_of_start_eq ht ht'
      rw [← hrange, ← hrange', hstart]
    subst heq
    exact kind_eq_of_keyword hkeyword hkeyword' hspec hspec'

/-- No two diagnostics of a text start at the same place. -/
theorem nodup_lint_starts (config : LintConfig) (text : Text) :
    ((lint config text).map (·.range.start)).Nodup := by
  have hstarts : ∀ kind : RuleKind, ((kind.diagnostics config text).map (·.range.start)).Sublist
      ((kind.faults text).map (·.2.start)) := by
    intro kind
    unfold RuleKind.diagnostics
    split
    · rw [List.map_map]
      exact List.Sublist.refl _
    · exact List.nil_sublist _
  rw [lint_eq, List.map_flatMap, List.nodup_flatMap]
  refine ⟨fun kind _ => (hstarts kind).nodup (nodup_fault_starts kind text), ?_⟩
  have hkinds : RuleKind.all.Nodup := by decide
  apply List.Pairwise.imp _ hkinds
  intro kind kind' hne p hp hp'
  obtain ⟨fault, hfault, hstart⟩ := List.mem_map.mp ((hstarts kind).subset hp)
  obtain ⟨fault', hfault', hstart'⟩ := List.mem_map.mp ((hstarts kind').subset hp')
  exact hne (kind_eq_of_start_eq hfault hfault' (hstart.trans hstart'.symm))

/-- Where a position stands in reading order. -/
def Position.key (p : Position) : Nat ×ₗ Nat :=
  toLex (p.line, p.character)

@[simp] theorem Position.key_inj {p q : Position} : p.key = q.key ↔ p = q := by
  cases p
  cases q
  simp [Position.key]

theorem Position.le_iff_key {p q : Position} : p ≤ q ↔ p.key ≤ q.key := by
  rw [Position.le_def, Position.key, Position.key, Prod.Lex.toLex_le_toLex]

/-- Where a diagnostic stands in reading order. -/
def Diagnostic.key (d : Diagnostic) : (Nat ×ₗ Nat) ×ₗ (Nat ×ₗ Nat) ×ₗ String ×ₗ String :=
  toLex (d.range.start.key, toLex (d.range.stop.key, toLex (d.code, d.message)))

theorem toLex_le_iff {α β : Type} [PartialOrder α] [LE β] [DecidableEq α] {x x' : α} {y y' : β} :
    toLex (x, y) ≤ toLex (x', y') ↔ if x ≠ x' then x ≤ x' else y ≤ y' := by
  rw [Prod.Lex.toLex_le_toLex]
  split_ifs with h
  · simp [h, h.le_iff_lt]
  · rw [not_not] at h
    simp [h]

theorem Diagnostic.le_iff_key {a b : Diagnostic} : a.le b = true ↔ a.key ≤ b.key := by
  simp only [Diagnostic.key, toLex_le_iff, ne_eq, Position.key_inj, ← Position.le_iff_key]
  unfold Diagnostic.le
  split_ifs with hstart hstop hcode
  · exact decide_eq_true_iff
  · exact decide_eq_true_iff
  · rw [decide_eq_true_iff, hcode.le_iff_lt]
  · exact decide_eq_true_iff

/-- Sorted diagnostics are in reading order. -/
theorem sortDiagnostics_pairwise (diagnostics : List Diagnostic) :
    (sortDiagnostics diagnostics).Pairwise fun a b => a.key ≤ b.key := by
  have hsorted : (sortDiagnostics diagnostics).Pairwise fun a b => a.le b = true := by
    apply List.pairwise_mergeSort
    · intro a b c hab hbc
      rw [Diagnostic.le_iff_key] at hab hbc ⊢
      exact hab.trans hbc
    · intro a b
      rw [Bool.or_eq_true, Diagnostic.le_iff_key, Diagnostic.le_iff_key]
      exact le_total a.key b.key
  exact hsorted.imp Diagnostic.le_iff_key.mp

theorem start_le_of_key_le {a b : Diagnostic} (h : a.key ≤ b.key) :
    a.range.start ≤ b.range.start := by
  rw [Position.le_iff_key]
  exact Prod.Lex.monotone_fst _ _ h

/-- Diagnostics that start at different places are sorted to one list, in whatever order they
come. -/
theorem sortDiagnostics_perm {ds es : List Diagnostic} (h : ds.Perm es)
    (hstarts : (es.map (·.range.start)).Nodup) : sortDiagnostics ds = sortDiagnostics es := by
  have hds := List.mergeSort_perm ds Diagnostic.le
  have hes := List.mergeSort_perm es Diagnostic.le
  refine List.Perm.eq_of_pairwise ?_ (sortDiagnostics_pairwise ds) (sortDiagnostics_pairwise es)
    (hds.trans (h.trans hes.symm))
  intro a b ha hb hab hba
  have hstart : a.range.start = b.range.start := by
    rw [← Position.key_inj]
    exact le_antisymm (Position.le_iff_key.mp (start_le_of_key_le hab))
      (Position.le_iff_key.mp (start_le_of_key_le hba))
  exact List.inj_on_of_nodup_map hstarts (h.mem_iff.mp (hds.mem_iff.mp ha)) (hes.mem_iff.mp hb)
    hstart

/-- Sorted diagnostics that start at different places start one behind the other. -/
theorem sortDiagnostics_strict {ds : List Diagnostic} (hstarts : (ds.map (·.range.start)).Nodup) :
    (sortDiagnostics ds).Pairwise fun a b =>
      a.range.start ≤ b.range.start ∧ a.range.start ≠ b.range.start := by
  have hperm := (List.mergeSort_perm ds Diagnostic.le).map (·.range.start)
  have hne := List.pairwise_map.mp (hperm.nodup_iff.mpr hstarts)
  exact (sortDiagnostics_pairwise ds).imp₂ (fun _ _ hle hne => ⟨start_le_of_key_le hle, hne⟩) hne

/-- Rules are accepted if no identifier comes twice. -/
theorem acceptRulesFrom_of_nodup {seen : List String} {rules : List Rule}
    (hids : (rules.map Rule.id).Nodup) (hnew : ∀ rule ∈ rules, rule.id ∉ seen) :
    acceptRulesFrom seen (rules.map .known) = .ok rules := by
  induction rules generalizing seen with
  | nil => rfl
  | cons rule rest ih =>
    rw [List.map_cons, List.nodup_cons] at hids
    have hrest : acceptRulesFrom (rule.id :: seen) (rest.map .known) = .ok rest := by
      apply ih hids.2
      intro r hr
      rw [List.mem_cons, not_or]
      refine ⟨?_, hnew r (List.mem_cons_of_mem rule hr)⟩
      intro hid
      exact hids.1 (hid ▸ List.mem_map_of_mem hr)
    rw [List.map_cons, acceptRulesFrom, if_neg (hnew rule List.mem_cons_self), hrest]
    rfl

/-- A lint run with the default rules in another order reports what they report in their own. -/
theorem runLint_perm {rules : List Rule} (hrules : rules.Perm defaultRules) (config : LintConfig)
    (text : Text) :
    ∃ diagnostics,
      runLint text (some config) none (some (rules.map .known)) =
        .ok ⟨Script.ofText text, diagnostics⟩ ∧
      diagnostics.Perm (lint config text) := by
  have hids : (defaultRules.map Rule.id).Nodup := by decide
  have haccept : acceptRules (rules.map .known) = .ok rules :=
    acceptRulesFrom_of_nodup ((hrules.map Rule.id).nodup_iff.mpr hids) (by simp)
  exact ⟨_, runLint_accepted haccept (by simp) config, hrules.flatMap_right _⟩

/-- Sorted reports do not depend on the order of the rules. Under every order of the default rules a
lint run gives diagnostics that start at different places, and these are sorted, in whatever order
they come, to one list for all orders: that of all diagnostics of the text, each of which starts
behind the one before. -/
theorem sorted_report_ignores_rule_order (config : LintConfig) (text : Text) :
    ∃ sorted : List Diagnostic, sorted.Perm (lint config text) ∧
      (sorted.Pairwise fun a b =>
        a.range.start ≤ b.range.start ∧ a.range.start ≠ b.range.start) ∧
      ∀ rules : List Rule, rules.Perm defaultRules →
        ∃ result, runLint text (some config) none (some (rules.map .known)) = .ok result ∧
          result.diagnostics.Perm (lint config text) ∧
          (result.diagnostics.map (·.range.start)).Nodup ∧
          ∀ ds : List Diagnostic, ds.Perm result.diagnostics → sortDiagnostics ds = sorted := by
  have hstarts := nodup_lint_starts config text
  refine ⟨sortDiagnostics (lint config text), List.mergeSort_perm _ _,
    sortDiagnostics_strict hstarts, ?_⟩
  intro rules hrules
  obtain ⟨diagnostics, hrun, hperm⟩ := runLint_perm hrules config text
  refine ⟨_, hrun, hperm, ?_, ?_⟩
  · exact (hperm.map _).nodup_iff.mpr hstarts
  · intro ds hds
    exact sortDiagnostics_perm (hds.trans hperm) hstarts

/-- One diagnostic of each rule: rules that run backwards report a comma first, but sorted the
closer before it comes first. -/
theorem sorted_report_ignores_reversed_rules :
    ∃ result, runLint "ENDIF x(a,,b)\nFIX".toList (some {}) none
        (some (defaultRules.reverse.map .known)) = .ok result ∧
      result.diagnostics.map (·.code) = ["duplicateComma", "unmatchedEndif", "missingEndfix"] ∧
      (sortDiagnostics result.diagnostics).map (·.code) =
        ["unmatchedEndif", "duplicateComma", "missingEndfix"] ∧
      sortDiagnostics (lint {} "ENDIF x(a,,b)\nFIX".toList) =
        sortDiagnostics result.diagnostics := by
  obtain ⟨sorted, _, _, hrules⟩ :=
    sorted_report_ignores_rule_order {} "ENDIF x(a,,b)\nFIX".toList
  obtain ⟨result, hrun, hperm, _, hsort⟩ := hrules defaultRules.reverse defaultRules.reverse_perm
  have hcodes : (runLint "ENDIF x(a,,b)\nFIX".toList (some {}) none
      (some (defaultRules.reverse.map .known))).toOption.map
        (fun r => (r.diagnostics.map (·.code), (sortDiagnostics r.diagnostics).map (·.code))) =
      some (["duplicateComma", "unmatchedEndif", "missingEndfix"],
        ["unmatchedEndif", "duplicateComma", "missingEndfix"]) := by
    cbv
  rw [hrun, Except.toOption, Option.map_some, Option.some.injEq, Prod.mk.injEq] at hcodes
  refine ⟨result, hrun, hcodes.1, hcodes.2, ?_⟩
  rw [hsort _ hperm.symm, hsort _ (List.Perm.refl _)]

end CalcLint
