import CalcLint.Proofs.ChainGrammar
import CalcLint.Proofs.Checkpoints
import CalcLint.Proofs.DyckMatching
import CalcLint.Proofs.FixedBalance

/-!
# Clean blocks of lines

Lines on which a balance check has nothing to report may be put anywhere between two lines of a
document: what the check reports stays the same, below the new lines further down by their number.
The keyword pass comes out of such lines in the state in which it entered them, and both checks come
out of their keywords with the stack they had before, whatever was open or broken there.
-/
namespace CalcLint

variable {α : Type} {kind : α → Keyword} {opener closer : Keyword}

/-- An item with which the chain check is content on some frames does not reach below them. -/
theorem chainStep_above {stack : List (OpenIf α)} {item : α}
    (h : chainVerdict? kind stack item = none) (outer : List (OpenIf α)) :
    chainVerdict? kind (stack ++ outer) item = none ∧
      chainStack kind (stack ++ outer) item = chainStack kind stack item ++ outer := by
  cases hk : kind item <;> cases stack with
  | nil => simp_all [chainVerdict?, chainStack]
  | cons frame inner => simp_all [chainVerdict?, chainStack]

/-- Nor do items, one after the other. -/
theorem chainMarks_above {stack : List (OpenIf α)} {items : List α}
    (h : chainMarks kind stack items = []) (outer : List (OpenIf α)) :
    chainMarks kind (stack ++ outer) items = [] ∧
      items.foldl (chainStack kind) (stack ++ outer) =
        items.foldl (chainStack kind) stack ++ outer := by
  induction items generalizing stack with
  | nil => exact ⟨rfl, rfl⟩
  | cons item rest ih =>
    rw [chainMarks, List.append_eq_nil_iff, List.map_eq_nil_iff] at h
    obtain ⟨hverdict, hstack⟩ := chainStep_above (Option.toList_eq_nil_iff.mp h.1) outer
    obtain ⟨hmarks, hopen⟩ := ih h.2
    rw [chainMarks, hverdict, hstack, hmarks, List.foldl_cons, hstack, hopen, List.foldl_cons]
    exact ⟨rfl, rfl⟩

theorem chainFrom_append (stack : List (OpenIf α)) (xs ys : List α) :
    chainFrom kind stack (xs ++ ys) =
      chainMarks kind stack xs ++ chainFrom kind (xs.foldl (chainStack kind) stack) ys := by
  induction xs generalizing stack with
  | nil => rfl
  | cons x rest ih =>
    rw [List.cons_append, chainFrom_cons, ih, chainMarks, List.append_assoc, List.foldl_cons]

/-- A stream on which the chain check is silent goes by without a trace. -/
theorem chainFrom_silent {items : List α} (h : chainFaults kind items = [])
    (stack : List (OpenIf α)) (rest : List α) :
    chainFrom kind stack (items ++ rest) = chainFrom kind stack rest := by
  rw [chainFaults, chainFrom_eq, List.append_eq_nil_iff, List.map_eq_nil_iff,
    List.reverse_eq_nil_iff] at h
  obtain ⟨hmarks, hopen⟩ := chainMarks_above h.1 stack
  rw [h.2] at hopen
  rw [chainFrom_append, ← List.nil_append stack, hmarks, hopen, List.nil_append]

theorem chainFaults_insert {ys : List α} (h : chainFaults kind ys = []) (xs zs : List α) :
    chainFaults kind (xs ++ (ys ++ zs)) = chainFaults kind (xs ++ zs) := by
  rw [chainFaults, chainFrom_append, chainFrom_silent h, ← chainFrom_append, chainFaults]

theorem pairFaults_insert {ys : List α} (h : pairFaults kind opener closer ys = ⟨[], []⟩)
    (xs zs : List α) :
    pairFaults kind opener closer (xs ++ (ys ++ zs)) =
      pairFaults kind opener closer (xs ++ zs) := by
  have hrest : pairFaults kind opener closer (ys ++ zs) = pairFaults kind opener closer zs := by
    rw [pairFaults_append, h]
    simp
  rw [pairFaults_append, hrest, ← pairFaults_append]

/-- What a rule about balance finds in a stream of keywords; a rule about commas finds nothing
there. -/
def RuleKind.tokenFaults (kind : RuleKind) (tokens : List Token) : List (Spec × Token) :=
  match kind with
  | .blockBalance => PairCheck.faults {} Token.kind tokens
  | .chainBalance => chainFaults Token.kind tokens
  | .commaPlacement => []

theorem RuleKind.tokenFaults_insert {kind : RuleKind} {ys : List Token}
    (h : kind.tokenFaults ys = []) (xs zs : List Token) :
    kind.tokenFaults (xs ++ (ys ++ zs)) = kind.tokenFaults (xs ++ zs) := by
  cases kind with
  | blockBalance =>
    have hpair : pairFaults Token.kind .fix .endfix ys = ⟨[], []⟩ := by
      rw [RuleKind.tokenFaults, PairCheck.faults, PairFaults.specified, List.append_eq_nil_iff,
        List.map_eq_nil_iff, List.map_eq_nil_iff] at h
      exact pairFaults_eq_nil_iff.mpr h
    exact congrArg (PairFaults.specified .missingEndfix .unmatchedEndfix)
      (pairFaults_insert hpair xs zs)
  | chainBalance => exact chainFaults_insert h xs zs
  | commaPlacement => rfl

/-- Keywords at other places have the same faults there. -/
theorem RuleKind.tokenFaults_map (kind : RuleKind) {f : Token → Token}
    (hf : ∀ t, (f t).kind = t.kind) (tokens : List Token) :
    kind.tokenFaults (tokens.map f) =
      (kind.tokenFaults tokens).map fun fault => (fault.1, f fault.2) := by
  have hkind : (fun t => (f t).kind) = Token.kind := funext hf
  cases kind with
  | blockBalance =>
    have hmap := @pairFaults_map Token Token Token.kind .fix .endfix f tokens
    rw [hkind] at hmap
    simp [RuleKind.tokenFaults, PairCheck.faults, hmap, PairFaults.specified, Function.comp_def]
  | chainBalance =>
    have hmap := @chainFrom_map Token Token Token.kind f [] tokens
    rw [hkind] at hmap
    exact hmap
  | commaPlacement => rfl

/-- A rule about balance looks at the keywords of a document only. -/
theorem Rule.run_eq_report {rule : Rule} (h : rule.kind ≠ .commaPlacement) (config : LintConfig)
    (script : Script) :
    rule.run config script =
      if (config.optionsFor rule.id).enabled then
        reportFaults (some (rule.severityUnder (config.optionsFor rule.id))) (some rule.id)
          (rule.kind.tokenFaults script.tokens)
      else [] := by
  unfold Rule.run Rule.apply
  cases hk : rule.kind with
  | blockBalance => rfl
  | chainBalance => rfl
  | commaPlacement => contradiction

def joined (document : List Line) : Text :=
  ['\n'].intercalate document

/-- The keyword pass over a text goes along the lines it was joined from. -/
@[simp] theorem scanLines_joined {document : List Line} (h : ∀ line ∈ document, '\n' ∉ line) :
    scanLines {} 0 (lines (joined document)) = scanLines {} 0 document := by
  cases document with
  | nil =>
    show scanLines {} 0 [[]] = scanLines {} 0 []
    simp [scanLines]
  | cons line below =>
    have hbare : bareLines (joined (line :: below)) = (line :: below).map bare := by
      rw [joined, bareLines_intercalate (List.cons_ne_nil line below), List.map_eq_flatMap]
      apply List.flatMap_congr
      intro l hl
      exact bareLines_of_not_mem (h l hl)
    rw [← scanLines_bare, ← bareLines, hbare, scanLines_bare]

@[simp] theorem scan_joined {document : List Line} (h : ∀ line ∈ document, '\n' ∉ line) :
    scan (joined document) = (scanLines {} 0 document).1 := by
  rw [scan, scanLines_joined h]

@[simp] theorem endsInComment_joined {document : List Line} (h : ∀ line ∈ document, '\n' ∉ line) :
    endsInComment (joined document) = (scanLines {} 0 document).2.inComment := by
  rw [endsInComment, scanLines_joined h]

/-- A keyword at its place when `count` lines are put in front of line `first`. -/
def Token.pushed (first count : Nat) (t : Token) : Token :=
  if t.line < first then t else t.down count

@[simp] theorem Token.pushed_kind (first count : Nat) (t : Token) :
    (t.pushed first count).kind = t.kind := by
  unfold Token.pushed
  split <;> rfl

/-- A diagnostic at its place when `count` lines are put in front of line `first`. -/
def Diagnostic.pushed (first count : Nat) (d : Diagnostic) : Diagnostic :=
  if d.range.start.line < first then d else { d with range := d.range.down count }

theorem Spec.report_pushed (spec : Spec) (severity : Option Severity) (rule : Option String)
    (first count : Nat) (t : Token) :
    spec.report severity rule (t.pushed first count).range =
      (spec.report severity rule t.range).pushed first count := by
  unfold Token.pushed Diagnostic.pushed
  show _ = if t.line < first then _ else _
  split <;> rfl

theorem map_pushed_above {first : Nat} {tokens : List Token} (h : ∀ t ∈ tokens, t.line < first)
    (count : Nat) : tokens.map (Token.pushed first count) = tokens := by
  calc tokens.map (Token.pushed first count)
    _ = tokens.map id := List.map_congr_left fun t ht => if_pos (h t ht)
    _ = tokens := List.map_id tokens

theorem map_pushed_below {first : Nat} {tokens : List Token} (h : ∀ t ∈ tokens, first ≤ t.line)
    (count : Nat) : tokens.map (Token.pushed first count) = tokens.map (Token.down count) :=
  List.map_congr_left fun t ht => if_neg (Nat.not_lt.mpr (h t ht))

/-- The keywords of a document into which lines are put that the keyword pass enters and leaves
outside of comments. -/
theorem scanLines_insert {above block : List Line}
    (habove : (scanLines {} 0 above).2.inComment = false)
    (hblock : (scanLines {} 0 block).2.inComment = false) (below : List Line) :
    ∃ xs zs, (scanLines {} 0 (above ++ below)).1 = xs ++ zs ∧
      (scanLines {} 0 (above ++ block ++ below)).1 =
        xs.map (Token.pushed above.length block.length) ++
          ((scanLines {} 0 block).1.map (Token.down above.length) ++
            zs.map (Token.pushed above.length block.length)) := by
  have hstart : (scanLines {} 0 above).2 = {} := congrArg ScanState.mk habove
  have hclosed : (scanLines {} 0 block).2 = {} := congrArg ScanState.mk hblock
  have hnear := scanLines_down {} 0 above.length block
  have hfar := scanLines_down {} above.length block.length below
  rw [Nat.zero_add, hclosed] at hnear
  refine ⟨(scanLines {} 0 above).1, (scanLines {} above.length below).1, ?_, ?_⟩
  · rw [scanLines_append, hstart, Nat.zero_add]
  · rw [map_pushed_above (fun t ht => by have := line_of_mem_scanLines ht; omega),
      map_pushed_below (fun t ht => (line_of_mem_scanLines ht).1), List.append_assoc,
      scanLines_append, hstart, Nat.zero_add, scanLines_append, hnear, hfar]

/-- Keywords of clean lines are as good as none. -/
theorem RuleKind.tokenFaults_joined {kind : RuleKind} {above block below : List Line}
    (hlines : ∀ line ∈ above ++ block ++ below, '\n' ∉ line)
    (habove : endsInComment (joined above) = false) (hblock : endsInComment (joined block) = false)
    (hclean : kind.tokenFaults (scan (joined block)) = []) :
    kind.tokenFaults (scan (joined (above ++ block ++ below))) =
      (kind.tokenFaults (scan (joined (above ++ below)))).map fun fault =>
        (fault.1, fault.2.pushed above.length block.length) := by
  simp only [List.forall_mem_append] at hlines
  obtain ⟨⟨hin, hput⟩, hout⟩ := hlines
  have hplain : ∀ line ∈ above ++ below, '\n' ∉ line := List.forall_mem_append.mpr ⟨hin, hout⟩
  have hwith : ∀ line ∈ above ++ block ++ below, '\n' ∉ line :=
    List.forall_mem_append.mpr ⟨List.forall_mem_append.mpr ⟨hin, hput⟩, hout⟩
  rw [endsInComment_joined hin] at habove
  rw [endsInComment_joined hput] at hblock
  rw [scan_joined hput] at hclean
  obtain ⟨xs, zs, hxs, hzs⟩ := scanLines_insert habove hblock below
  have hdown : kind.tokenFaults ((scanLines {} 0 block).1.map (Token.down above.length)) = [] := by
    have hmap := kind.tokenFaults_map (f := Token.down above.length) (fun _ => rfl)
      (scanLines {} 0 block).1
    rw [hmap, hclean, List.map_nil]
  rw [scan_joined hwith, scan_joined hplain, hzs, hxs, RuleKind.tokenFaults_insert hdown,
    ← List.map_append, RuleKind.tokenFaults_map _ (Token.pushed_kind _ _)]

/-- A rule about balance that is content with some lines reports the same with them and without. -/
theorem Rule.run_insert {rule : Rule} (hkind : rule.kind ≠ .commaPlacement)
    {above block below : List Line} (hlines : ∀ line ∈ above ++ block ++ below, '\n' ∉ line)
    (habove : endsInComment (joined above) = false) (hblock : endsInComment (joined block) = false)
    (hclean : rule.run {} (Script.ofText (joined block)) = []) (config : LintConfig) :
    rule.run config (Script.ofText (joined (above ++ block ++ below))) =
      (rule.run config (Script.ofText (joined (above ++ below)))).map
        (Diagnostic.pushed above.length block.length) := by
  have hfaults : rule.kind.tokenFaults (scan (joined block)) = [] := by
    have hon : (({} : LintConfig).optionsFor rule.id).enabled = true := rfl
    rw [Rule.run_eq_report hkind, if_pos hon, reportFaults, List.map_eq_nil_iff] at hclean
    exact hclean
  have hscan := RuleKind.tokenFaults_joined hlines habove hblock hfaults
  rw [Rule.run_eq_report hkind, Rule.run_eq_report hkind]
  split
  · simp only [Script.ofText, hscan, reportFaults, List.map_map]
    apply List.map_congr_left
    intro fault _
    exact Spec.report_pushed fault.1 _ _ _ _ fault.2
  · rfl

/-- Lines on which the rules about balance report nothing, and which the keyword pass enters and
leaves outside of comments, may be put between any lines `above` and `below`: what these rules
report does not change but for the places of what stands below, and it keeps its order. -/
theorem clean_block_disturbs_nothing {above block below : List Line}
    (hlines : ∀ line ∈ above ++ block ++ below, '\n' ∉ line)
    (habove : endsInComment (joined above) = false) (hblock : endsInComment (joined block) = false)
    {rules : List Rule} (hbalance : ∀ rule ∈ rules, rule.kind ≠ .commaPlacement)
    (hclean : lintScript {} rules (Script.ofText (joined block)) = []) (config : LintConfig) :
    lintScript config rules (Script.ofText (joined (above ++ block ++ below))) =
      (lintScript config rules (Script.ofText (joined (above ++ below)))).map
        (Diagnostic.pushed above.length block.length) := by
  rw [lintScript, List.flatMap_eq_nil_iff] at hclean
  rw [lintScript, lintScript, List.map_flatMap]
  apply List.flatMap_congr
  intro rule hrule
  exact Rule.run_insert (hbalance rule hrule) hlines habove hblock (hclean rule hrule) config

/-- A chain with its own `ELSE` and a block around a comment, put into an `IF` that has had its
`ELSE`: the second `ELSE` of the outer `IF` and the stray `ENDFIX` are found two lines further
down. -/
theorem clean_block_in_open_chain :
    (lintScript {} [{ kind := .blockBalance }, { kind := .chainBalance }]
        (Script.ofText (joined (["FIX IF".toList, "ELSE".toList] ++
          ["if elseif else endif".toList, "FIX /* ENDIF */ ENDFIX".toList] ++
            ["ELSE ENDFIX ENDFIX".toList])))).map (fun d => (d.code, d.range.start.line)) =
      [("unmatchedEndfix", 4), ("duplicateElse", 4), ("missingEndif", 0)] ∧
    lintScript {} [{ kind := .blockBalance }, { kind := .chainBalance }]
        (Script.ofText (joined (["FIX IF".toList, "ELSE".toList] ++
          ["if elseif else endif".toList, "FIX /* ENDIF */ ENDFIX".toList] ++
            ["ELSE ENDFIX ENDFIX".toList]))) =
      (lintScript {} [{ kind := .blockBalance }, { kind := .chainBalance }]
        (Script.ofText (joined (["FIX IF".toList, "ELSE".toList] ++
          ["ELSE ENDFIX ENDFIX".toList])))).map (Diagnostic.pushed 2 2) := by
  have habove : endsInComment (joined ["FIX IF".toList, "ELSE".toList]) = false := by cbv
  have hblock : endsInComment
      (joined ["if elseif else endif".toList, "FIX /* ENDIF */ ENDFIX".toList]) = false := by cbv
  have hclean : lintScript {} [{ kind := .blockBalance }, { kind := .chainBalance }]
      (Script.ofText (joined ["if elseif else endif".toList, "FIX /* ENDIF */ ENDFIX".toList])) =
        [] := by cbv
  refine ⟨by cbv, ?_⟩
  exact clean_block_disturbs_nothing (by decide) habove hblock (by decide) hclean {}

end CalcLint
