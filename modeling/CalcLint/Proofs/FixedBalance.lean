import CalcLint.Proofs.MovedTokens
import Mathlib

/-!
# The balance of a fixed text

On every line the run of fixes inserts at most as many closers as the line has openers that stay
unclosed. So no inserted closer is stray and no other closer changes; what is still missing are
the closers that fell into a comment. A further run of fixes finds nothing to do exactly when there
are none.
-/
namespace CalcLint

/-- Whether the closer of a mending falls into a block comment. -/
def Mending.swallowed (text : Text) (m : Mending) : Bool :=
  commentOpenBehind text m.opener

/-- How many closers `k` are inserted, and found, above line `number`. -/
def closersAbove (text : Text) (ms : List Mending) (k : Keyword) (number : Nat) : Nat :=
  ms.countP fun m => m.opener < number ∧ m.closer = k ∧ m.swallowed text = false

theorem exists_of_mem_closersBelow {text : Text} {ms : List Mending} {number : Nat} {t : Token}
    (h : t ∈ closersBelow text ms number) : ∃ m ∈ ms, t.kind = m.closer := by
  unfold closersBelow at h
  split at h
  · contradiction
  · obtain ⟨⟨m, i⟩, hentry, rfl⟩ := List.mem_map.mp h
    have hm := List.fst_mem_of_mem_zipIdx hentry
    exact ⟨m, (List.mem_filter.mp hm).1, rfl⟩

/-- What is put in between the rows of a text ends a block. -/
theorem kind_of_mem_extra {text : Text} {ms : List Mending} {number count : Nat} {t : Token}
    (hkind : ∀ m ∈ ms, ∃ b : Block, m.closer = b.closer)
    (h : t ∈ (mendedRows text ms number count).extra) : ∃ b : Block, t.kind = b.closer := by
  obtain ⟨row, hrow, ht⟩ := List.mem_flatMap.mp h
  obtain ⟨n, _, rfl⟩ := List.mem_map.mp hrow
  obtain ⟨m, hm, hk⟩ := exists_of_mem_closersBelow ht
  rw [hk]
  exact hkind m hm

theorem countP_closersBelow (text : Text) (ms : List Mending) (k : Keyword) (number : Nat) :
    (closersBelow text ms number).countP (·.kind = k) =
      ms.countP fun m => m.opener = number ∧ m.closer = k ∧ m.swallowed text = false := by
  have hzip : ∀ (xs : List Mending) (first : Nat),
      ((xs.zipIdx first).map fun entry => entry.1.token text entry.2).countP (·.kind = k) =
        xs.countP (·.closer = k) := by
    intro xs first
    rw [List.countP_map]
    conv => rhs; rw [← List.zipIdx_map_fst first xs, List.countP_map]
    rfl
  unfold closersBelow
  split
  · rename_i hopen
    rw [List.countP_nil, eq_comm, List.countP_eq_zero]
    intro m _
    rw [decide_eq_true_eq]
    rintro ⟨rfl, _, hfree⟩
    rw [Mending.swallowed, hopen] at hfree
    contradiction
  · rename_i hopen
    rw [hzip, List.countP_filter]
    apply List.countP_congr
    intro m _
    simp only [Bool.and_eq_true, decide_eq_true_eq]
    constructor
    · rintro ⟨hk, rfl⟩
      exact ⟨rfl, hk, Bool.eq_false_iff.mpr hopen⟩
    · rintro ⟨hn, hk, _⟩
      exact ⟨hk, hn⟩

@[simp] theorem closersAbove_succ (text : Text) (ms : List Mending) (k : Keyword) (number : Nat) :
    closersAbove text ms k (number + 1) =
      closersAbove text ms k number + (closersBelow text ms number).countP (·.kind = k) := by
  rw [countP_closersBelow]
  exact countP_opener_lt_succ (fun m => m.closer = k ∧ m.swallowed text = false) ms number

theorem extra_mendedRows (text : Text) (ms : List Mending) (k : Keyword) (count : Nat) :
    (mendedRows text ms 0 count).extra.countP (·.kind = k) = closersAbove text ms k count := by
  induction count with
  | zero => simp [mendedRows, Rows.extra, closersAbove]
  | succ count ih =>
    rw [closersAbove_succ, ← ih, mendedRows, List.range'_concat, List.map_append, Rows.extra,
      List.flatMap_append, List.countP_append]
    simp [mendedRows, Rows.extra]

theorem pairFaults_moved (opener closer : Keyword) (ms : List Mending) (tokens : List Token) :
    pairFaults Token.kind opener closer (tokens.map (Token.moved ms)) =
      ⟨(pairFaults Token.kind opener closer tokens).stray.map (Token.moved ms),
        (pairFaults Token.kind opener closer tokens).unclosed.map (Token.moved ms)⟩ :=
  pairFaults_map (Token.moved ms) tokens

/-- The openers of the first lines that stay unclosed, and those of the later lines. -/
theorem unclosed_tokensFrom {text : Text} {number : Nat} (h : number < (lines text).length)
    (b : Block) :
    (pairFaults Token.kind b.opener b.closer (tokensFrom text number)).unclosed =
      (pairFaults Token.kind b.opener b.closer (tokensOn text number)).unclosed.take
          ((pairFaults Token.kind b.opener b.closer (tokensOn text number)).unclosed.length -
            (pairFaults Token.kind b.opener b.closer (tokensFrom text (number + 1))).stray.length) ++
        (pairFaults Token.kind b.opener b.closer (tokensFrom text (number + 1))).unclosed := by
  rw [tokensFrom_split h, pairFaults_append]

/-- No line below `number` has more mendings of a kind of block than openers that the pair check of
the tokens from `number` on leaves unclosed. -/
def Justified (text : Text) (ms : List Mending) (b : Block) (number : Nat) : Prop :=
  ∀ n, number ≤ n → (ms.countP fun m => m.opener = n ∧ m.closer = b.closer) ≤
    (pairFaults Token.kind b.opener b.closer (tokensFrom text number)).unclosed.countP (·.line = n)

theorem countP_take_tokensOn {text : Text} {number n keep : Nat} (b : Block) (hne : number ≠ n) :
    ((pairFaults Token.kind b.opener b.closer (tokensOn text number)).unclosed.take keep).countP
      (·.line = n) = 0 := by
  rw [List.countP_eq_zero]
  intro t ht
  have hmem := (pairFaults_sublist (tokensOn text number)).2.subset (List.mem_of_mem_take ht)
  have hline : t.line = number := of_decide_eq_true (List.mem_filter.mp hmem).2
  rw [decide_eq_true_eq, hline]
  exact hne

theorem Justified.succ {text : Text} {ms : List Mending} {b : Block} {number : Nat}
    (hlt : number < (lines text).length) (h : Justified text ms b number) :
    Justified text ms b (number + 1) := by
  intro n hn
  have hle := h n (by omega)
  rw [unclosed_tokensFrom hlt, List.countP_append, countP_take_tokensOn b (by omega)] at hle
  omega

/-- On one line no more closers are inserted than openers stay unclosed. -/
theorem Justified.here {text : Text} {ms : List Mending} {b : Block} {number : Nat}
    (hlt : number < (lines text).length) (h : Justified text ms b number) :
    (ms.countP fun m => m.opener = number ∧ m.closer = b.closer) ≤
      (pairFaults Token.kind b.opener b.closer (tokensOn text number)).unclosed.length -
        (pairFaults Token.kind b.opener b.closer (tokensFrom text (number + 1))).stray.length := by
  have hle := h number (Nat.le_refl number)
  have hlater : (pairFaults Token.kind b.opener b.closer
      (tokensFrom text (number + 1))).unclosed.countP (·.line = number) = 0 := by
    rw [List.countP_eq_zero]
    intro t ht
    have hmem := (pairFaults_sublist (tokensFrom text (number + 1))).2.subset ht
    have hline := le_line_of_mem_tokensFrom hmem
    rw [decide_eq_true_eq]
    omega
  rw [unclosed_tokensFrom hlt, List.countP_append, hlater] at hle
  have htake := List.countP_le_length (p := fun t : Token => decide (t.line = number))
    (l := (pairFaults Token.kind b.opener b.closer (tokensOn text number)).unclosed.take
      ((pairFaults Token.kind b.opener b.closer (tokensOn text number)).unclosed.length -
        (pairFaults Token.kind b.opener b.closer (tokensFrom text (number + 1))).stray.length))
  rw [List.length_take] at htake
  omega

theorem covered_mendedRows {text : Text} {ms : List Mending} {b : Block}
    (hkind : ∀ m ∈ ms, m.closer ≠ b.opener) {number count : Nat}
    (hcount : number + count = (lines text).length) (h : Justified text ms b number) :
    (mendedRows text ms number count).Covered Token.kind b.opener b.closer := by
  induction count generalizing number with
  | zero => trivial
  | succ count ih =>
    have hlt : number < (lines text).length := by omega
    have hnext : number + 1 + count = (lines text).length := by omega
    rw [mendedRows_succ]
    refine ⟨?_, ?_, ih hnext (h.succ hlt)⟩
    · intro t ht
      obtain ⟨m, hm, hk⟩ := exists_of_mem_closersBelow ht
      rw [hk]
      exact hkind m hm
    · have hsub : (closersBelow text ms number).countP (·.kind = b.closer) ≤
          ms.countP fun m => m.opener = number ∧ m.closer = b.closer := by
        rw [countP_closersBelow]
        apply List.countP_mono_left
        intro m _ hm
        rw [decide_eq_true_eq] at hm ⊢
        exact ⟨hm.1, hm.2.1⟩
      rw [mendedRows_plain text ms hnext, pairFaults_moved, pairFaults_moved, List.length_map,
        List.length_map]
      exact hsub.trans (h.here hlt)

theorem justified_mendings (config : LintConfig) (text : Text) (b : Block) :
    Justified text (mendings config text) b 0 := by
  intro n _
  have hfilter : ((mendings config text).countP fun m => m.opener = n ∧ m.closer = b.closer) =
      ((mendings config text).filter (·.closer = b.closer)).countP (·.opener = n) := by
    rw [List.countP_filter]
    apply List.countP_congr
    intro m _
    simp
  rw [hfilter, mendings_filter_closer, tokensFrom_zero]
  split
  · rw [List.countP_map]
    exact Nat.le_refl _
  · simp

theorem covered_fixed (config : LintConfig) (text : Text) (b : Block) :
    (mendedRows text (mendings config text) 0 (lines text).length).Covered Token.kind b.opener
      b.closer := by
  apply covered_mendedRows _ (Nat.zero_add _) (justified_mendings config text b)
  intro m hm
  obtain ⟨b', hb'⟩ := exists_closer_of_mem_mendings hm
  rw [hb']
  exact Block.opener_ne_closer b' b

theorem scan_fixedText (config : LintConfig) (text : Text) :
    scan (fixedText config text) =
      (mendedRows text (mendings config text) 0 (lines text).length).woven :=
  scan_applyEdits (fun _ hm => placed_of_mem_mendings hm)

/-- The stray closers of the fixed text are those of the text. -/
theorem stray_fixedText (config : LintConfig) (text : Text) (b : Block) :
    (pairFaults Token.kind b.opener b.closer (scan (fixedText config text))).stray =
      (pairFaults Token.kind b.opener b.closer (scan text)).stray.map
        (Token.moved (mendings config text)) := by
  rw [scan_fixedText, (covered_fixed config text b).faults.1,
    mendedRows_plain text _ (Nat.zero_add _), pairFaults_moved, tokensFrom_zero]

theorem closersAbove_all (config : LintConfig) (text : Text) (k : Keyword) :
    closersAbove text (mendings config text) k (lines text).length =
      (mendings config text).countP fun m => m.closer = k ∧ m.swallowed text = false := by
  apply List.countP_congr
  intro m hm
  have hlt := (placed_of_mem_mendings hm).lt
  simp [hlt]

/-- Each inserted closer that is found closes one opener. -/
theorem unclosed_fixedText (config : LintConfig) (text : Text) (b : Block) :
    (pairFaults Token.kind b.opener b.closer (scan (fixedText config text))).unclosed.length +
        ((mendings config text).countP fun m => m.closer = b.closer ∧ m.swallowed text = false) =
      (pairFaults Token.kind b.opener b.closer (scan text)).unclosed.length := by
  have hfaults := (covered_fixed config text b).faults.2
  rw [extra_mendedRows, closersAbove_all, mendedRows_plain text _ (Nat.zero_add _),
    pairFaults_moved, tokensFrom_zero, List.length_map] at hfaults
  rw [scan_fixedText]
  exact hfaults

theorem countP_closer (config : LintConfig) (text : Text) (b : Block) :
    (mendings config text).countP (·.closer = b.closer) =
      (diagnosticsOf b.missing (lint config text)).length := by
  rw [List.countP_eq_length_filter, mendings, filter_closer_filterMap, List.length_map]

/-- What is still missing in the fixed text are the closers that fell into a comment. -/
theorem missing_fixedText (config : LintConfig) (text : Text) (b : Block) :
    (diagnosticsOf b.missing (lint config (fixedText config text))).length =
      (mendings config text).countP fun m => m.closer = b.closer ∧ m.swallowed text = true := by
  have hsplit : (mendings config text).countP (·.closer = b.closer) =
      ((mendings config text).countP fun m => m.closer = b.closer ∧ m.swallowed text = true) +
        (mendings config text).countP fun m => m.closer = b.closer ∧ m.swallowed text = false := by
    rw [List.countP_eq_countP_filter_add _ _ (fun m => m.swallowed text), List.countP_filter,
      List.countP_filter]
    congr 1 <;> (apply List.countP_congr; intro m _; simp)
  have hunclosed := unclosed_fixedText config text b
  have hcount := countP_closer config text b
  rw [b.diagnosticsOf_missing] at hcount ⊢
  split at hcount
  · rename_i henabled
    rw [if_pos henabled, List.length_map]
    rw [List.length_map] at hcount
    omega
  · rename_i henabled
    rw [if_neg henabled, List.length_nil]
    rw [List.length_nil] at hcount
    omega

def Range.down (count : Nat) (r : Range) : Range where
  start := ⟨r.start.line + count, r.start.character⟩
  stop := ⟨r.stop.line + count, r.stop.character⟩
  start_le_stop := by
    have h := r.start_le_stop
    rw [Position.le_def] at h ⊢
    dsimp only
    omega

/-- A diagnostic of the text at its place below the inserted rows. -/
def Diagnostic.moved (ms : List Mending) (d : Diagnostic) : Diagnostic :=
  { d with range := d.range.down (linesAbove ms d.range.start.line) }

theorem unmatched_fixedText (config : LintConfig) (text : Text) (b : Block) :
    diagnosticsOf b.unmatched (lint config (fixedText config text)) =
      (diagnosticsOf b.unmatched (lint config text)).map
        (Diagnostic.moved (mendings config text)) := by
  rw [b.diagnosticsOf_unmatched, b.diagnosticsOf_unmatched, stray_fixedText]
  split
  · rw [List.map_map, List.map_map]
    rfl
  · rfl

/-- A run of fixes keeps every keyword, further down by the rows above it, and adds one closer for
each action whose row does not fall into a block comment. Of the balance diagnostics, exactly as
many openers stay unclosed as closers fell into a comment, and the unmatched closers are the old
ones. -/
theorem fix_moves_keywords (config : LintConfig) (text : Text) :
    ∃ r, fix config text = .ok r ∧
      r.applied.map Action.mending? = r.mendings.map some ∧
      scan text = (List.range (lines text).length).flatMap (tokensOn text) ∧
      scan r.fixed = (List.range (lines text).length).flatMap (fun n =>
        (tokensOn text n).map (Token.moved r.mendings) ++ closersBelow text r.mendings n) ∧
      ∀ b : Block,
        (diagnosticsOf b.missing (lint config r.fixed)).length =
          (r.mendings.countP fun m => m.closer = b.closer ∧ m.swallowed text = true) ∧
        diagnosticsOf b.unmatched (lint config r.fixed) =
          (diagnosticsOf b.unmatched (lint config text)).map (Diagnostic.moved r.mendings) := by
  refine ⟨fixResult config text, fix_eq config text, ?_, ?_, ?_, ?_⟩
  · rw [mendings_fixResult]
    exact offers_map_mending? config text
  · rw [List.range_eq_range', ← tokensFrom_eq_flatMap text (Nat.zero_add _), tokensFrom_zero]
  · rw [mendings_fixResult, List.range_eq_range']
    show scan (fixedText config text) = _
    rw [scan_fixedText, Rows.woven, mendedRows, List.flatMap_map]
  · intro b
    rw [mendings_fixResult]
    exact ⟨missing_fixedText config text b, unmatched_fixedText config text b⟩

@[simp] theorem mendings_eq_nil_iff {config : LintConfig} {text : Text} :
    mendings config text = [] ↔ ∀ b : Block, diagnosticsOf b.missing (lint config text) = [] := by
  constructor
  · intro h b
    have hcount := countP_closer config text b
    rw [h, List.countP_nil] at hcount
    exact List.eq_nil_of_length_eq_zero hcount.symm
  · intro h
    rw [List.eq_nil_iff_forall_not_mem]
    intro m hm
    obtain ⟨b, hb⟩ := exists_closer_of_mem_mendings hm
    have hcount := countP_closer config text b
    rw [h b, List.length_nil, List.countP_eq_zero] at hcount
    exact hcount m hm (decide_eq_true hb)

@[simp] theorem offers_eq_nil_iff {config : LintConfig} {text : Text} :
    offers config text = [] ↔ mendings config text = [] := by
  have hlength := congrArg List.length (offers_map_mending? config text)
  rw [List.length_map, List.length_map] at hlength
  rw [← List.length_eq_zero_iff, hlength, List.length_eq_zero_iff]

/-- A run of fixes that has nothing to insert changes nothing, and only such a run. -/
@[simp] theorem fix_unchanged_iff {config : LintConfig} {text : Text} :
    fix config text = .ok ⟨text, [], false⟩ ↔ mendings config text = [] := by
  rw [fix_eq, ← offers_eq_nil_iff]
  constructor
  · intro h
    exact congrArg FixResult.applied (Except.ok.inj h)
  · intro h
    have htext : fixedText config text = text := by
      simp [fixedText, offers_eq_nil_iff.mp h]
    rw [fixResult, htext, h, bne_self_eq_false]

theorem missing_fixedText_eq_nil_iff {config : LintConfig} {text : Text} :
    (∀ b : Block, diagnosticsOf b.missing (lint config (fixedText config text)) = []) ↔
      ∀ m ∈ mendings config text, m.swallowed text = false := by
  have hcount : ∀ b : Block, diagnosticsOf b.missing (lint config (fixedText config text)) = [] ↔
      ∀ m ∈ mendings config text, ¬ (m.closer = b.closer ∧ m.swallowed text = true) := by
    intro b
    rw [← List.length_eq_zero_iff, missing_fixedText, List.countP_eq_zero]
    simp only [decide_eq_true_eq]
  constructor
  · intro h m hm
    obtain ⟨b, hb⟩ := exists_closer_of_mem_mendings hm
    rw [Bool.eq_false_iff]
    exact fun hopen => (hcount b).mp (h b) m hm ⟨hb, hopen⟩
  · intro h b
    rw [hcount]
    rintro m hm ⟨_, hopen⟩
    rw [h m hm] at hopen
    contradiction

/-- One run of fixes closes everything, and a second one does nothing, exactly when no opener that
it mends stands on a line at whose end a block comment is open. -/
theorem fix_converges_iff (config : LintConfig) (text : Text) :
    ∃ r, fix config text = .ok r ∧
      ((∀ b : Block, diagnosticsOf b.missing (lint config r.fixed) = []) ↔
        ∀ m ∈ r.mendings, m.swallowed text = false) ∧
      (fix config r.fixed = .ok ⟨r.fixed, [], false⟩ ↔
        ∀ m ∈ r.mendings, m.swallowed text = false) := by
  refine ⟨fixResult config text, fix_eq config text, ?_⟩
  rw [mendings_fixResult, fix_unchanged_iff, mendings_eq_nil_iff]
  exact ⟨missing_fixedText_eq_nil_iff, missing_fixedText_eq_nil_iff⟩

/-- An `ENDFIX` inserted inside a comment closes nothing, and the next run inserts it again. -/
theorem fix_into_open_comment :
    ∃ r, fix {} "FIX /*".toList = .ok r ∧ r.fixed = "FIX /*\nENDFIX".toList ∧
      (diagnosticsOf .missingEndfix (lint {} r.fixed)).length = 1 ∧
      fix {} r.fixed ≠ .ok ⟨r.fixed, [], false⟩ := by
  refine ⟨_, fix_eq _ _, ?_, ?_, ?_⟩
  · cbv
  · cbv
  · rw [Ne, fix_unchanged_iff]
    cbv
    simp

end CalcLint
