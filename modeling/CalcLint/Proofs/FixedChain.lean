import CalcLint.Proofs.FixedBalance
import CalcLint.Proofs.TokenOrder

/-!
# Conditional chains in a fixed text

An inserted `ENDIF` takes an `IF` off the stack, so an `ELSE` further down may meet another stack
than before. The stacks of the text and of the fixed text are followed side by side: they agree on
every `IF` behind which no `ENDIF` was inserted, and their depths differ by the number of inserted
ones.
-/
namespace CalcLint

def tokensBefore (text : Text) (t : Token) : List Token :=
  (scan text).takeWhile (· ≠ t)

/-- The `IF`s that are open in front of a token, the innermost last. -/
def openIfs (text : Text) (t : Token) : List Token :=
  (pairFaults Token.kind .ifHead .endif (tokensBefore text t)).unclosed

/-- The open `IF`s in front of a token as the chain check holds them. -/
def chainBefore (text : Text) (t : Token) : List (OpenIf Token) :=
  (tokensBefore text t).foldl (chainStack Token.kind) []

/-- What the chain check reports at a token. -/
def Token.verdict? (text : Text) (t : Token) : Option Spec :=
  chainVerdict? Token.kind (chainBefore text t) t

/-- What is reported at an `ELSE` or `ELSEIF`. -/
def elseSpecs : List Spec :=
  [.unexpectedElseif, .unexpectedElse, .duplicateElse]

/-- Whether an `ENDIF` is inserted, and found, below one of the lines from `first` to the one above
`number`. -/
def EndifBetween (text : Text) (ms : List Mending) (first number : Nat) : Prop :=
  ∃ m ∈ ms, m.closer = .endif ∧ m.swallowed text = false ∧ first ≤ m.opener ∧ m.opener < number

theorem EndifBetween.mono {text : Text} {ms : List Mending} {first number number' : Nat}
    (h : EndifBetween text ms first number) (hle : number ≤ number') :
    EndifBetween text ms first number' := by
  obtain ⟨m, hm, hk, hfree, hfirst, hlt⟩ := h
  exact ⟨m, hm, hk, hfree, hfirst, by omega⟩

theorem diagnosticsOf_else {spec : Spec} (h : spec ∈ elseSpecs) (config : LintConfig)
    (text : Text) :
    diagnosticsOf spec (lint config text) =
      if RuleKind.chainBalance.enabled config then
        ((scan text).filter (·.verdict? text = some spec)).map
          fun t => RuleKind.chainBalance.report config spec t.range
      else [] := by
  have hspecs : ∀ spec ∈ elseSpecs, spec ∈ RuleKind.chainBalance.specs ∧ .missingEndif ≠ spec := by
    decide
  obtain ⟨hmem, hmissing⟩ := hspecs spec h
  have hchain : (chainFaults Token.kind (scan text)).filter (·.1 = spec) =
      ((scan text).filter (·.verdict? text = some spec)).map (spec, ·) := by
    have hmarks := @chainMarks_filter Token Token.kind _ spec [] (scan text) (scan_nodup text)
    rw [List.foldl_nil, List.nil_append] at hmarks
    rw [chainFaults, chainFrom_eq, List.filter_append, hmarks]
    simp [List.filter_map, hmissing, Function.comp_def, Token.verdict?, chainBefore, tokensBefore]
  have hfaults : (RuleKind.chainBalance.faults text).filter (·.1 = spec) =
      ((scan text).filter (·.verdict? text = some spec)).map fun t => (spec, t.range) := by
    simp [RuleKind.faults, List.filter_map, Function.comp_def, hchain]
  rw [diagnosticsOf_lint hmem, hfaults, List.map_map]
  rfl

/-- An open `IF` of the text at its place in the fixed text. -/
def OpenIf.moved (ms : List Mending) (frame : OpenIf Token) : OpenIf Token :=
  ⟨frame.head.moved ms, frame.elseSeen⟩

/-- The stacks of the text and of the fixed text in front of line `number`: they agree from the
innermost `IF` outwards, up to `IF`s behind which an `ENDIF` was inserted. -/
def Agree (text : Text) (ms : List Mending) (number : Nat) (stack stack' : List (OpenIf Token)) :
    Prop :=
  ∃ inner outer outer', stack = inner ++ outer ∧ stack' = inner.map (OpenIf.moved ms) ++ outer' ∧
    ∀ frame ∈ outer, EndifBetween text ms frame.head.line number

theorem Agree.step {text : Text} {ms : List Mending} {number : Nat}
    {stack stack' : List (OpenIf Token)} (h : Agree text ms number stack stack') (t : Token) :
    Agree text ms number (chainStack Token.kind stack t)
      (chainStack Token.kind stack' (t.moved ms)) := by
  obtain ⟨inner, outer, outer', rfl, rfl, hold⟩ := h
  cases hk : t.kind with
  | fix => exact ⟨inner, outer, outer', by simp [chainStack, hk], by simp [chainStack, hk], hold⟩
  | endfix => exact ⟨inner, outer, outer', by simp [chainStack, hk], by simp [chainStack, hk], hold⟩
  | elseIf => exact ⟨inner, outer, outer', by simp [chainStack, hk], by simp [chainStack, hk], hold⟩
  | ifHead =>
    exact ⟨⟨t, false⟩ :: inner, outer, outer', by simp [chainStack, hk],
      by simp [chainStack, hk, OpenIf.moved], hold⟩
  | elseArm =>
    cases inner with
    | cons frame inner =>
      exact ⟨⟨frame.head, true⟩ :: inner, outer, outer', by simp [chainStack, hk],
        by simp [chainStack, hk, OpenIf.moved], hold⟩
    | nil =>
      cases outer with
      | nil => exact ⟨[], [], _, by simp [chainStack, hk], rfl, by simp⟩
      | cons frame outer =>
        refine ⟨[], ⟨frame.head, true⟩ :: outer, _, by simp [chainStack, hk], rfl, ?_⟩
        simpa using hold
  | endif =>
    cases inner with
    | cons frame inner =>
      exact ⟨inner, outer, outer', by simp [chainStack, hk], by simp [chainStack, hk], hold⟩
    | nil =>
      cases outer with
      | nil => exact ⟨[], [], _, by simp [chainStack, hk], rfl, by simp⟩
      | cons frame outer =>
        refine ⟨[], outer, _, by simp [chainStack, hk], rfl, ?_⟩
        exact fun f hf => hold f (List.mem_cons_of_mem frame hf)

theorem Agree.run {text : Text} {ms : List Mending} {number : Nat}
    {stack stack' : List (OpenIf Token)} (h : Agree text ms number stack stack')
    (tokens : List Token) :
    Agree text ms number (tokens.foldl (chainStack Token.kind) stack)
      ((tokens.map (Token.moved ms)).foldl (chainStack Token.kind) stack') := by
  induction tokens generalizing stack stack' with
  | nil => exact h
  | cons t rest ih => exact ih (h.step t)

/-- Behind a row of closers the stacks still agree: with an `ENDIF` in the row nothing is left to
agree on. -/
theorem Agree.closers {text : Text} {ms : List Mending} {number : Nat}
    {stack stack' : List (OpenIf Token)} (h : Agree text ms number stack stack')
    (hkind : ∀ m ∈ ms, ∃ b : Block, m.closer = b.closer)
    (hlines : ∀ frame ∈ stack, frame.head.line ≤ number) :
    Agree text ms (number + 1) stack
      ((closersBelow text ms number).foldl (chainStack Token.kind) stack') := by
  by_cases hendif : ∃ t ∈ closersBelow text ms number, t.kind = .endif
  · have hcount := countP_closersBelow text ms .endif number
    have hpos : 0 < (closersBelow text ms number).countP (·.kind = .endif) := by
      obtain ⟨t, ht, hk⟩ := hendif
      exact List.countP_pos_iff.mpr ⟨t, ht, decide_eq_true hk⟩
    rw [hcount, List.countP_pos_iff] at hpos
    obtain ⟨m, hm, hm'⟩ := hpos
    obtain ⟨hopener, hk, hfree⟩ := of_decide_eq_true hm'
    refine ⟨[], stack, _, rfl, rfl, ?_⟩
    intro frame hframe
    exact ⟨m, hm, hk, hfree, hopener ▸ hlines frame hframe, by omega⟩
  · have hstack : ∀ tokens : List Token, (∀ t ∈ tokens, t.kind = .endfix) →
        tokens.foldl (chainStack Token.kind) stack' = stack' := by
      intro tokens htokens
      induction tokens with
      | nil => rfl
      | cons t rest ih =>
        have ht : t.kind = .endfix := htokens t List.mem_cons_self
        have hsame : chainStack Token.kind stack' t = stack' := by simp [chainStack, ht]
        rw [List.foldl_cons, hsame]
        exact ih (fun u hu => htokens u (List.mem_cons_of_mem t hu))
    rw [hstack]
    · obtain ⟨inner, outer, outer', hstack, hstack', hold⟩ := h
      exact ⟨inner, outer, outer', hstack, hstack',
        fun frame hframe => (hold frame hframe).mono (Nat.le_succ number)⟩
    · intro t ht
      obtain ⟨m, hm, hk⟩ := exists_of_mem_closersBelow ht
      obtain ⟨b, hb⟩ := hkind m hm
      cases b with
      | fix => rw [hk, hb]; rfl
      | chain => exact absurd ⟨t, ht, by rw [hk, hb]; rfl⟩ hendif

theorem woven_mendedRows_succ (text : Text) (ms : List Mending) (number : Nat) :
    (mendedRows text ms 0 (number + 1)).woven =
      (mendedRows text ms 0 number).woven ++
        ((tokensOn text number).map (Token.moved ms) ++ closersBelow text ms number) := by
  rw [mendedRows, List.range'_concat, List.map_append, Rows.woven, List.flatMap_append]
  simp [Rows.woven, mendedRows]

theorem head_mem_of_mem_foldl {tokens : List Token} {frame : OpenIf Token}
    (h : frame ∈ tokens.foldl (chainStack Token.kind) []) : frame.head ∈ tokens := by
  have hheads := @foldl_chainStack_heads Token Token.kind [] tokens
  have hmem : frame.head ∈ (tokens.foldl (chainStack Token.kind) []).map (·.head) :=
    List.mem_map_of_mem h
  rw [hheads, List.mem_reverse] at hmem
  exact (pairFaults_sublist tokens).2.subset hmem

theorem agree_above {text : Text} {ms : List Mending}
    (hkind : ∀ m ∈ ms, ∃ b : Block, m.closer = b.closer) (number : Nat) :
    Agree text ms number ((tokensAbove text number).foldl (chainStack Token.kind) [])
      ((mendedRows text ms 0 number).woven.foldl (chainStack Token.kind) []) := by
  induction number with
  | zero => exact ⟨[], [], [], rfl, rfl, by simp⟩
  | succ number ih =>
    rw [woven_mendedRows_succ, List.foldl_append, List.foldl_append, tokensAbove_succ]
    have hrun := ih.run (tokensOn text number)
    rw [← List.foldl_append] at hrun
    apply hrun.closers hkind
    intro frame hframe
    rw [← tokensAbove_succ] at hframe
    exact Nat.le_of_lt_succ (line_of_mem_tokensAbove (head_mem_of_mem_foldl hframe))

theorem tokensBefore_eq {text : Text} {front back : List Token} {t : Token}
    (h : scan text = front ++ t :: back) : tokensBefore text t = front := by
  have hnodup := scan_nodup text
  rw [h] at hnodup
  rw [tokensBefore, h, takeWhile_ne_of_nodup hnodup]

/-- A token on its line: what stands in front of it and behind it there. -/
theorem exists_on_line {text : Text} {t : Token} (h : t ∈ scan text) :
    t.line < (lines text).length ∧ ∃ xs zs, tokensOn text t.line = xs ++ t :: zs := by
  obtain ⟨line, hline, _⟩ := line_of_mem_scan h
  refine ⟨(List.getElem?_eq_some_iff.mp hline).1, ?_⟩
  exact List.append_of_mem (List.mem_filter.mpr ⟨h, by simp⟩)

theorem tokensBefore_text {text : Text} {t : Token} {xs zs : List Token}
    (hlt : t.line < (lines text).length) (h : tokensOn text t.line = xs ++ t :: zs) :
    tokensBefore text t = tokensAbove text t.line ++ xs := by
  apply @tokensBefore_eq _ _ (zs ++ tokensFrom text (t.line + 1))
  rw [scan_eq_above (Nat.le_of_lt hlt), tokensFrom_split hlt, h]
  simp

theorem mendedRows_append (text : Text) (ms : List Mending) (number count : Nat) :
    mendedRows text ms 0 (number + count) =
      mendedRows text ms 0 number ++ mendedRows text ms number count := by
  have hrange := @List.range'_append_1 0 number count
  rw [Nat.zero_add] at hrange
  rw [mendedRows, ← hrange, List.map_append, mendedRows, mendedRows]

/-- The rows of a mended text around a token. -/
theorem mendedRows_split {text : Text} (ms : List Mending) {t : Token} {xs zs : List Token}
    (hlt : t.line < (lines text).length) (h : tokensOn text t.line = xs ++ t :: zs) :
    ∃ below, mendedRows text ms 0 (lines text).length =
      mendedRows text ms 0 t.line ++
        (xs.map (Token.moved ms) ++ (t.moved ms :: zs.map (Token.moved ms)),
          closersBelow text ms t.line) :: below := by
  obtain ⟨count, hcount⟩ := Nat.exists_eq_add_of_lt hlt
  refine ⟨mendedRows text ms (t.line + 1) count, ?_⟩
  rw [hcount, Nat.add_assoc, mendedRows_append, mendedRows_succ, h, List.map_append, List.map_cons]

/-- The rows above line `number`, and the keywords `xs` at its front. -/
def rowsBefore (text : Text) (ms : List Mending) (number : Nat) (xs : List Token) : Rows Token :=
  mendedRows text ms 0 number ++ [(xs.map (Token.moved ms), [])]

@[simp] theorem rowsBefore_plain (text : Text) (ms : List Mending) (number : Nat)
    (xs : List Token) :
    (rowsBefore text ms number xs).plain =
      (tokensAbove text number ++ xs).map (Token.moved ms) := by
  simp [rowsBefore, Rows.plain, mendedRows, tokensAbove, List.flatMap_map, List.map_flatMap]

@[simp] theorem rowsBefore_woven (text : Text) (ms : List Mending) (number : Nat)
    (xs : List Token) :
    (rowsBefore text ms number xs).woven =
      (mendedRows text ms 0 number).woven ++ xs.map (Token.moved ms) := by
  simp [rowsBefore, Rows.woven]

@[simp] theorem rowsBefore_extra (text : Text) (ms : List Mending) (number : Nat)
    (xs : List Token) :
    (rowsBefore text ms number xs).extra = (mendedRows text ms 0 number).extra := by
  simp [rowsBefore, Rows.extra]

theorem tokensBefore_fixed {config : LintConfig} {text : Text} {t : Token} {xs zs : List Token}
    (hlt : t.line < (lines text).length) (h : tokensOn text t.line = xs ++ t :: zs) :
    tokensBefore (fixedText config text) (t.moved (mendings config text)) =
      (rowsBefore text (mendings config text) t.line xs).woven := by
  obtain ⟨below, hrows⟩ := mendedRows_split (mendings config text) hlt h
  apply @tokensBefore_eq _ _ (zs.map (Token.moved (mendings config text)) ++
    (closersBelow text (mendings config text) t.line ++ Rows.woven below))
  rw [scan_fixedText, hrows, rowsBefore_woven]
  simp [Rows.woven]

/-- The depths in front of a token differ by the number of `ENDIF`s inserted above it. -/
theorem openIfs_fixed {config : LintConfig} {text : Text} {t : Token} (h : t ∈ scan text) :
    (openIfs (fixedText config text) (t.moved (mendings config text))).length +
        closersAbove text (mendings config text) .endif t.line = (openIfs text t).length := by
  obtain ⟨hlt, xs, zs, hon⟩ := exists_on_line h
  obtain ⟨below, hrows⟩ := mendedRows_split (mendings config text) hlt hon
  have hcovered := covered_fixed config text .chain
  rw [hrows] at hcovered
  have hbefore : (rowsBefore text (mendings config text) t.line xs).Covered Token.kind
      .ifHead .endif := hcovered.cut
  have hfaults := hbefore.faults.2
  rw [rowsBefore_extra, extra_mendedRows, rowsBefore_plain, pairFaults_moved,
    List.length_map] at hfaults
  rw [openIfs, tokensBefore_fixed hlt hon, openIfs, tokensBefore_text hlt hon]
  exact hfaults

theorem agree_before {config : LintConfig} {text : Text} {t : Token} (h : t ∈ scan text) :
    Agree text (mendings config text) t.line (chainBefore text t)
      (chainBefore (fixedText config text) (t.moved (mendings config text))) := by
  obtain ⟨hlt, xs, zs, hon⟩ := exists_on_line h
  have habove := @agree_above text (mendings config text)
    (fun _ hm => exists_closer_of_mem_mendings hm) t.line
  have hrun := habove.run xs
  rw [← List.foldl_append, ← List.foldl_append] at hrun
  rw [chainBefore, chainBefore, tokensBefore_text hlt hon, tokensBefore_fixed hlt hon,
    rowsBefore_woven]
  exact hrun

@[simp] theorem chainBefore_heads (text : Text) (t : Token) :
    (chainBefore text t).map (·.head) = (openIfs text t).reverse :=
  foldl_chainStack_heads [] (tokensBefore text t)

@[simp] theorem chainBefore_eq_nil_iff {text : Text} {t : Token} :
    chainBefore text t = [] ↔ (openIfs text t).length = 0 := by
  have hlength := congrArg List.length (chainBefore_heads text t)
  rw [List.length_map, List.length_reverse] at hlength
  rw [← hlength, List.length_eq_zero_iff]

/-- An `ELSE` or `ELSEIF` is unexpected where no `IF` is open. -/
theorem verdict?_unexpected_iff {text : Text} {t : Token} {spec : Spec}
    (h : (t.kind, spec) ∈
      [(Keyword.elseIf, Spec.unexpectedElseif), (Keyword.elseArm, Spec.unexpectedElse)]) :
    t.verdict? text = some spec ↔ (openIfs text t).length = 0 := by
  rw [← chainBefore_eq_nil_iff, Token.verdict?]
  have hne : Spec.duplicateElse ≠ Spec.unexpectedElse := by decide
  rcases List.mem_cons.mp h with h | h
  · obtain ⟨hk, rfl⟩ := Prod.mk.inj h
    cases chainBefore text t <;> simp [chainVerdict?, hk]
  · obtain ⟨hk, rfl⟩ := Prod.mk.inj (List.mem_singleton.mp h)
    cases chainBefore text t with
    | nil => simp [chainVerdict?, hk]
    | cons frame outer => cases hseen : frame.elseSeen <;> simp [chainVerdict?, hk, hseen, hne]

/-- Whether an `ENDIF` is inserted between a token and the innermost `IF` open in front of it. -/
def Cut (text : Text) (ms : List Mending) (t : Token) : Prop :=
  ∃ head, (openIfs text t).getLast? = some head ∧ EndifBetween text ms head.line t.line

/-- A token keeps its verdict if no `ENDIF` cuts it off its `IF`. -/
theorem verdict?_fixed {config : LintConfig} {text : Text} {t : Token} (h : t ∈ scan text)
    (hcut : ¬ Cut text (mendings config text) t) :
    (t.moved (mendings config text)).verdict? (fixedText config text) = t.verdict? text := by
  rw [Token.verdict?, Token.verdict?]
  cases hstack : chainBefore text t with
  | nil =>
    have hopen := @openIfs_fixed config text t h
    rw [chainBefore_eq_nil_iff.mp hstack] at hopen
    have hnil : chainBefore (fixedText config text) (t.moved (mendings config text)) = [] :=
      chainBefore_eq_nil_iff.mpr (by omega)
    rw [hnil]
    rfl
  | cons frame outer =>
    have hlast : (openIfs text t).getLast? = some frame.head := by
      have hheads := chainBefore_heads text t
      rw [hstack, List.map_cons] at hheads
      rw [← List.head?_reverse, ← hheads, List.head?_cons]
    obtain ⟨inner, old, outer', hsplit, hsplit', hold⟩ := @agree_before config text t h
    rw [hstack] at hsplit
    cases inner with
    | nil =>
      rw [List.nil_append] at hsplit
      exact absurd ⟨frame.head, hlast, hold frame (hsplit ▸ List.mem_cons_self)⟩ hcut
    | cons frame' inner =>
      rw [List.cons_append, List.cons.injEq] at hsplit
      rw [hsplit', ← hsplit.1]
      cases hk : t.kind <;> simp [chainVerdict?, hk, OpenIf.moved]

/-- Only an `ELSE` or `ELSEIF` gets one of the verdicts on them. -/
theorem kind_of_verdict? {text : Text} {t : Token} {spec : Spec} (hspec : spec ∈ elseSpecs)
    (h : t.verdict? text = some spec) : t.kind = .elseIf ∨ t.kind = .elseArm := by
  have hunmatched : Spec.unmatchedEndif ∉ elseSpecs := by decide
  rw [Token.verdict?] at h
  cases hk : t.kind <;> cases hstack : chainBefore text t <;> simp [chainVerdict?, hk, hstack] at h ⊢
  exact hunmatched (h ▸ hspec)

/-- The verdicts on `ELSE` and `ELSEIF` in the fixed text are verdicts on those of the text. -/
theorem else_fixedText {spec : Spec} (hspec : spec ∈ elseSpecs) (config : LintConfig)
    (text : Text) :
    diagnosticsOf spec (lint config (fixedText config text)) =
      if RuleKind.chainBalance.enabled config then
        ((scan text).filter fun t =>
          (t.moved (mendings config text)).verdict? (fixedText config text) = some spec).map
            fun t => (RuleKind.chainBalance.report config spec t.range).moved (mendings config text)
      else [] := by
  have hextra : ∀ t ∈ (mendedRows text (mendings config text) 0 (lines text).length).extra,
      decide (t.verdict? (fixedText config text) = some spec) = false := by
    intro t ht
    obtain ⟨b, hb⟩ := kind_of_mem_extra (fun _ hm => exists_closer_of_mem_mendings hm) ht
    rw [decide_eq_false_iff_not]
    intro hverdict
    have helse := kind_of_verdict? hspec hverdict
    rw [hb] at helse
    cases b <;> simp [Block.closer] at helse
  rw [diagnosticsOf_else hspec, scan_fixedText, Rows.filter_woven hextra,
    mendedRows_plain text _ (Nat.zero_add _), tokensFrom_zero, List.filter_map, List.map_map]
  rfl

end CalcLint
