import CalcLint.Proofs.Checkpoints
import CalcLint.Proofs.LineEndings
import CalcLint.Proofs.MovedTokens
import Mathlib

/-!
# One missing closer after the other

The single fix mends the last opener that lacks a closer and looks at the whole text anew before the
next one. Nothing above its row changes, and the row closes one opener: perhaps another than the one
it was meant for, but what is then still open are the openers that were open before, without the
last. So it works through them from the last to the first, and comes to the text that a run of fixes
gives at once.
-/
namespace CalcLint

/-- A text with the row of one more closer. -/
def mend (text : Text) (m : Mending) : Text :=
  applyEdits text [m.edit text]

/-- The openers of a kind of block that have no closer. -/
def unclosed (b : Block) (text : Text) : List Token :=
  (pairFaults Token.kind b.opener b.closer (scan text)).unclosed

/-- New rows end as the lines of the text do: it has no carriage return at all, or one in front of
a line feed, and then none at its end. -/
def Settled (text : Text) : Prop :=
  '\r' ∉ text ∨ hasCrlf text = true ∧ text.getLast? ≠ some '\r'

theorem Settled.getLast? {text : Text} (h : Settled text) : text.getLast? ≠ some '\r' := by
  rcases h with h | h
  · exact getLast?_ne_of_not_mem h
  · exact h.2

/-- Carriage returns that all stand in front of line feeds. -/
theorem settled_of_paired {text : Text}
    (h : ∀ i < text.length, text[i]? = some '\r' → text[i + 1]? = some '\n') : Settled text := by
  by_cases hmem : '\r' ∈ text
  · right
    constructor
    · obtain ⟨front, back, rfl⟩ := List.append_of_mem hmem
      have hnext := h front.length (by simp) (by simp)
      cases back with
      | nil => simp at hnext
      | cons c rest =>
        have hc : c = '\n' := by simpa using hnext
        rw [hc]
        exact hasCrlf_append_right front _ rfl
    · intro hlast
      obtain ⟨front, rfl⟩ := List.getLast?_eq_some_iff.mp hlast
      have hnext := h front.length (by simp) (by simp)
      simp at hnext
  · exact Or.inl hmem

theorem mem_of_mem_lineAt {text : Text} {number : Nat} {c : Char} (h : c ∈ lineAt text number) :
    c ∈ text := by
  cases hpiece : (text.splitOn '\n')[number]? with
  | none => simp [lineAt, lines_getElem?, hpiece] at h
  | some piece =>
    have hmem := List.mem_of_getElem? hpiece
    rw [lineAt_eq hpiece] at h
    obtain ⟨back, hback, _⟩ := chopReturn_append piece
    have hc : c ∈ piece := hback ▸ List.mem_append_left back h
    have hflat : c ∈ ((text.splitOn '\n').map (· ++ ['\n'])).flatten :=
      List.mem_flatten.mpr ⟨_, List.mem_map_of_mem hmem, List.mem_append_left _ hc⟩
    rw [flatten_map_break (List.splitOn_ne_nil '\n' text), List.intercalate_splitOn,
      List.mem_append, List.mem_singleton] at hflat
    refine hflat.resolve_right ?_
    rintro rfl
    exact newline_not_mem_of_mem_splitOn hmem hc

/-- What a closing edit inserts: its row, and a line break on the side of the rest of the text. -/
theorem newText_cases (text : Text) (m : Mending) :
    (m.edit text).newText = m.row text ++ (LineEnding.ofText text).chars ∨
      (m.edit text).newText = (LineEnding.ofText text).chars ++ m.row text := by
  unfold Mending.edit
  split
  · exact Or.inl rfl
  · exact Or.inr rfl

theorem mend_eq (text : Text) (m : Mending) :
    ∃ o, mend text m = text.take o ++ ((m.edit text).newText ++ text.drop o) := by
  refine ⟨offsetOf (lineStarts text).toArray text.length (m.edit text).position, ?_⟩
  simp [mend, applyEdits, insertions, weave]

theorem return_not_mem_mend {text : Text} (h : '\r' ∉ text) (m : Mending) :
    '\r' ∉ mend text m := by
  have hrow : '\r' ∉ m.row text := by
    rw [Mending.row, List.mem_append, not_or]
    constructor
    · exact fun hmem => h (mem_of_mem_lineAt (List.takeWhile_subset _ hmem))
    · cases m.closer <;> decide
  have hnew : '\r' ∉ (m.edit text).newText := by
    rcases newText_cases text m with heq | heq <;>
      rw [heq, ofText_of_not_mem h] <;> simpa [LineEnding.chars] using hrow
  obtain ⟨o, heq⟩ := mend_eq text m
  rw [heq, List.mem_append, List.mem_append]
  rintro (hmem | hmem | hmem)
  · exact h (List.mem_of_mem_take hmem)
  · exact hnew hmem
  · exact h (List.mem_of_mem_drop hmem)

theorem hasCrlf_mend {text : Text} (h : hasCrlf text = true) (m : Mending) :
    hasCrlf (mend text m) = true := by
  have hending : LineEnding.ofText text = .crlf := by rw [LineEnding.ofText, h]; rfl
  have hnew : hasCrlf (m.edit text).newText = true := by
    rcases newText_cases text m with heq | heq <;> rw [heq, hending]
    · exact hasCrlf_append_right _ _ rfl
    · exact hasCrlf_append_left _ _ rfl
  obtain ⟨o, heq⟩ := mend_eq text m
  rw [heq]
  exact hasCrlf_append_right _ _ (hasCrlf_append_left _ _ hnew)

theorem getLast?_append_ne {c : Char} {xs ys : Text} (hx : xs.getLast? ≠ some c)
    (hy : ys.getLast? ≠ some c) : (xs ++ ys).getLast? ≠ some c := by
  rw [List.getLast?_append]
  cases hlast : ys.getLast? with
  | none => exact hx
  | some d =>
    rw [hlast] at hy
    exact hy

theorem getLast?_mend {text : Text} (h : text.getLast? ≠ some '\r') (m : Mending) :
    (mend text m).getLast? ≠ some '\r' := by
  have hchars : (LineEnding.ofText text).chars.getLast? ≠ some '\r' ∧
      (LineEnding.ofText text).chars ≠ [] := by
    cases LineEnding.ofText text <;> decide
  have hnew : (m.edit text).newText.getLast? ≠ some '\r' ∧ (m.edit text).newText ≠ [] := by
    rcases newText_cases text m with heq | heq <;> rw [heq]
    · exact ⟨getLast?_append_ne (getLast?_row text m) hchars.1, by simp [hchars.2]⟩
    · exact ⟨getLast?_append_ne hchars.1 (getLast?_row text m), by simp [hchars.2]⟩
  obtain ⟨o, heq⟩ := mend_eq text m
  have hdrop : (text.drop o).getLast? ≠ some '\r' := by
    rw [List.getLast?_drop]
    split
    · simp
    · exact h
  rw [heq, List.getLast?_append_of_ne_nil _ (by simp [hnew.2])]
  exact getLast?_append_ne hnew.1 hdrop

/-- A new row leaves the line ends of the text settled, and as they are. -/
theorem settled_mend {text : Text} (h : Settled text) (m : Mending) :
    Settled (mend text m) ∧ LineEnding.ofText (mend text m) = LineEnding.ofText text := by
  rcases h with h | ⟨hcrlf, hlast⟩
  · have hmend := return_not_mem_mend h m
    exact ⟨Or.inl hmend, by rw [ofText_of_not_mem hmend, ofText_of_not_mem h]⟩
  · have hmend := hasCrlf_mend hcrlf m
    exact ⟨Or.inr ⟨hmend, getLast?_mend hlast m⟩,
      by rw [LineEnding.ofText, LineEnding.ofText, hmend, hcrlf]⟩

@[simp] theorem rowsBelow_one (text : Text) (m : Mending) (number : Nat) :
    rowsBelow text [m] number = if m.opener = number then [m.row text] else [] := by
  unfold rowsBelow
  split
  · rename_i h
    rw [List.filter_cons_of_pos (by simpa using h), List.filter_nil, List.map_singleton]
  · rename_i h
    rw [List.filter_cons_of_neg (by simpa using h), List.filter_nil, List.map_nil]

section
variable {text : Text} {m : Mending} (h : Settled text) (hm : m.Placed text)
include h hm

@[simp] theorem lines_mend :
    lines (mend text m) =
      (lines text).take (m.opener + 1) ++ m.row text :: (lines text).drop (m.opener + 1) := by
  have hplaced : ∀ m' ∈ [m], m'.Placed text := by simpa using hm
  have hlines := lines_applyEdits hplaced h.getLast? (settled_mend h m).1.getLast?
  have hrows := @withRows_at (rowsBelow text [m]) 0 m.opener (lines text)
    (fun n hn => by rw [rowsBelow_one, if_neg (by omega)]) hm.lt
  rw [Nat.zero_add, rowsBelow_one, if_pos rfl] at hrows
  exact hlines.trans hrows

/-- Nothing changes above the row. -/
theorem take_lines_mend {count : Nat} (hcount : count ≤ m.opener + 1) :
    (lines (mend text m)).take count = (lines text).take count := by
  have hlen : ((lines text).take (m.opener + 1)).length = m.opener + 1 :=
    List.length_take_of_le hm.lt
  rw [lines_mend h hm, List.take_append_of_le_length (by omega), List.take_take,
    Nat.min_eq_left hcount]

theorem getElem?_lines_mend {number : Nat} (hnumber : number ≤ m.opener) :
    (lines (mend text m))[number]? = (lines text)[number]? := by
  have htake := take_lines_mend h hm (Nat.succ_le_succ hnumber)
  have hat := congrArg (·[number]?) htake
  simpa [List.getElem?_take] using hat

theorem commentOpenBehind_mend {number : Nat} (hnumber : number ≤ m.opener) :
    commentOpenBehind (mend text m) number = commentOpenBehind text number := by
  rw [commentOpenBehind, stateAt, take_lines_mend h hm (Nat.succ_le_succ hnumber),
    commentOpenBehind, stateAt]

end

/-- Of several rows the last one may be put in first. -/
theorem applyEdits_concat {text : Text} {ms : List Mending} {m : Mending} (h : Settled text)
    (hms : ∀ m' ∈ ms, m'.Placed text ∧ m'.opener ≤ m.opener) (hm : m.Placed text) :
    applyEdits text ((ms ++ [m]).map (Mending.edit text)) =
      applyEdits (mend text m) (ms.map (Mending.edit (mend text m))) := by
  obtain ⟨hsettled, hending⟩ := settled_mend h m
  have hplaced : ∀ m' ∈ ms ++ [m], m'.Placed text := by
    intro m' hmem
    rcases List.mem_append.mp hmem with hmem | hmem
    · exact (hms m' hmem).1
    · rw [List.mem_singleton.mp hmem]
      exact hm
  have hplaced' : ∀ m' ∈ ms, m'.Placed (mend text m) := by
    intro m' hmem
    obtain ⟨hold, hle⟩ := hms m' hmem
    rw [Mending.Placed, getElem?_lines_mend h hm hle]
    exact hold
  have hrows : ∀ n, rowsBelow (mend text m) ms n = rowsBelow text ms n := by
    intro n
    apply List.map_congr_left
    intro m' hmem
    have hle := (hms m' (List.mem_of_mem_filter hmem)).2
    rw [Mending.row, lineAt, getElem?_lines_mend h hm hle, Mending.row, lineAt]
  have hsplit : ∀ n, rowsBelow text (ms ++ [m]) n = rowsBelow text ms n ++ rowsBelow text [m] n := by
    intro n
    rw [rowsBelow, List.filter_append, List.map_append, rowsBelow, rowsBelow]
  have hone : wholeLines (mend text m ++ (LineEnding.ofText text).chars) =
      withRows (fun n => (rowsBelow text [m] n).map (· ++ (LineEnding.ofText text).chars)) 0
        (wholeLines (text ++ (LineEnding.ofText text).chars)) :=
    wholeLines_applyEdits (fun m' hmem => hplaced m' (List.mem_append_right ms hmem)) h.getLast?
  have hothers := wholeLines_applyEdits hplaced' hsettled.getLast?
  rw [hending, hone, withRows_withRows] at hothers
  · apply @eq_of_wholeLines_eq (LineEnding.ofText text)
    rw [hothers, wholeLines_applyEdits hplaced h.getLast?]
    apply withRows_congr
    intro n _ _
    rw [hsplit, hrows, List.map_append]
  · intro i j hij
    by_cases hi : m.opener = i
    · right
      have hnone : ms.filter (·.opener = j) = [] := by
        rw [List.filter_eq_nil_iff]
        intro m' hmem
        have hle := (hms m' hmem).2
        rw [decide_eq_true_eq]
        omega
      rw [rowsBelow, hnone, List.map_nil, List.map_nil]
    · left
      rw [rowsBelow_one, if_neg hi, List.map_nil]

theorem tokensAbove_eq {text : Text} {number : Nat} (h : number ≤ (lines text).length) :
    tokensAbove text number = (scanLines {} 0 ((lines text).take number)).1 := by
  have hscan : scan text =
      (scanLines {} 0 ((lines text).take number)).1 ++ tokensFrom text number := by
    conv => lhs; rw [scan, ← List.take_append_drop number (lines text), scanLines_append]
    rw [List.length_take, Nat.min_eq_left h, Nat.zero_add]
    rfl
  rw [scan_eq_above h] at hscan
  exact List.append_cancel_right hscan

/-- The keywords of the mended text: the new closer stands between the keywords above its row and
those below it, which are one line further down. -/
theorem scan_mend {text : Text} {m : Mending} (h : Settled text) (hm : m.Placed text)
    (hfree : commentOpenBehind text m.opener = false) :
    scan (mend text m) =
      tokensAbove text (m.opener + 1) ++
        m.token text (m.opener + 1) :: (tokensFrom text (m.opener + 1)).map (Token.down 1) := by
  have hlen : ((lines text).take (m.opener + 1)).length = m.opener + 1 :=
    List.length_take_of_le hm.lt
  have hstate : (stateAt text (m.opener + 1)).inComment = false := hfree
  rw [scan, lines_mend h hm, scanLines_append, hlen, Nat.zero_add, ← stateAt, scanLines,
    scanLine_row, hstate, tokensAbove_eq hm.lt, scanLines_down]
  rfl

theorem placed_of_mem_unclosed {b : Block} {text : Text} {t : Token} (h : t ∈ unclosed b text) :
    (⟨t.line, b.closer⟩ : Mending).Placed text :=
  line_of_mem_scan ((pairFaults_sublist (scan text)).2.subset h)

/-- The new closer leaves the openers open that were open before, but for the last one. -/
theorem unclosed_mend {b : Block} {text : Text} {t : Token} (h : Settled text)
    (hlast : (unclosed b text).getLast? = some t) (hfree : commentOpenBehind text t.line = false) :
    unclosed b (mend text ⟨t.line, b.closer⟩) = (unclosed b text).dropLast := by
  have hm := placed_of_mem_unclosed (List.mem_of_getLast? hlast)
  have hscan := scan_eq_above hm.lt
  -- The last open opener stands above the row, so none below it is open.
  have hbelow : (pairFaults Token.kind b.opener b.closer
      (tokensFrom text (t.line + 1))).unclosed = [] := by
    by_contra hne
    rw [unclosed, hscan, pairFaults_append, List.getLast?_append_of_ne_nil _ hne] at hlast
    have hmem := (pairFaults_sublist _).2.subset (List.mem_of_getLast? hlast)
    have hle := le_line_of_mem_tokensFrom hmem
    omega
  have hdown : pairFaults Token.kind b.opener b.closer
      ((tokensFrom text (t.line + 1)).map (Token.down 1)) =
        ⟨(pairFaults Token.kind b.opener b.closer (tokensFrom text (t.line + 1))).stray.map
            (Token.down 1),
          (pairFaults Token.kind b.opener b.closer (tokensFrom text (t.line + 1))).unclosed.map
            (Token.down 1)⟩ :=
    pairFaults_map (Token.down 1) _
  have hkind : (Mending.token text ⟨t.line, b.closer⟩ (t.line + 1)).kind ≠ b.opener :=
    Block.opener_ne_closer b b
  have hcloser : (Mending.token text ⟨t.line, b.closer⟩ (t.line + 1)).kind = b.closer := rfl
  rw [unclosed, scan_mend h hm hfree, unclosed, hscan]
  exact pairFaults_insert_closer hkind hcloser (by rw [hdown, List.length_map]) hbelow
    (by rw [hdown, hbelow, List.map_nil])

theorem line_le_of_unclosed {b : Block} {text : Text} {front : List Token} {t s : Token}
    (h : unclosed b text = front ++ [t]) (hs : s ∈ front) : s.line ≤ t.line := by
  have hpair := (scan_pairwise text).sublist (@pairFaults_sublist _ Token.kind b.opener b.closer _).2
  rw [← unclosed, h, List.pairwise_append] at hpair
  rcases hpair.2.2 s hs t (by simp) with hlt | ⟨heq, _⟩ <;> omega

theorem diagnosticsOf_unclosed (config : LintConfig) (text : Text)
    (h : RuleKind.blockBalance.enabled config = true) :
    diagnosticsOf .missingEndfix (lint config text) =
      (unclosed .fix text).map fun t =>
        RuleKind.blockBalance.report config .missingEndfix t.range := by
  have hmissing := Block.fix.diagnosticsOf_missing config text
  rw [Block.rule, h] at hmissing
  exact hmissing

theorem fixLast_unclosed (text : Text) :
    fixLast text (lint {} text) =
      .ok ((unclosed .fix text).getLast?.map fun t => mend text ⟨t.line, .endfix⟩) := by
  rw [fixLast_eq, diagnosticsOf_unclosed {} text rfl, List.getLast?_map, Option.map_map]
  rfl

/-- The closers that a run of fixes inserts when it looks at `FIX` alone. -/
theorem mendings_fix_only {config : LintConfig} (text : Text)
    (hblock : RuleKind.blockBalance.enabled config = true)
    (hchain : RuleKind.chainBalance.enabled config = false) :
    mendings config text = (unclosed .fix text).map fun t => ⟨t.line, .endfix⟩ := by
  have hfix := mendings_filter_closer config text .fix
  have hnone := mendings_filter_closer config text .chain
  rw [Block.rule, if_pos hblock] at hfix
  rw [Block.rule, hchain, if_neg (by simp), List.filter_eq_nil_iff] at hnone
  rw [List.filter_eq_self.mpr] at hfix
  · exact hfix
  · intro m hm
    obtain ⟨b, hb⟩ := exists_closer_of_mem_mendings hm
    cases b with
    | fix => simpa using hb
    | chain => exact absurd (by simpa using hb) (hnone m hm)

/-- One single fix: it takes the last of the open openers away, and changes nothing that the fixes
for the others depend on. -/
theorem mend_last {text : Text} {front : List Token} {t : Token} (h : Settled text)
    (hopen : unclosed .fix text = front ++ [t])
    (hfree : ∀ s ∈ unclosed .fix text, commentOpenBehind text s.line = false) :
    unclosed .fix (mend text ⟨t.line, .endfix⟩) = front ∧
      (∀ s ∈ front, commentOpenBehind (mend text ⟨t.line, .endfix⟩) s.line = false) ∧
      applyEdits text ((unclosed .fix text).map fun s => Mending.edit text ⟨s.line, .endfix⟩) =
        applyEdits (mend text ⟨t.line, .endfix⟩)
          (front.map fun s => Mending.edit (mend text ⟨t.line, .endfix⟩) ⟨s.line, .endfix⟩) := by
  have hlast : (unclosed .fix text).getLast? = some t := by rw [hopen, List.getLast?_concat]
  have hmem : t ∈ unclosed .fix text := List.mem_of_getLast? hlast
  have hm : (⟨t.line, .endfix⟩ : Mending).Placed text := placed_of_mem_unclosed hmem
  have hfront : ∀ s ∈ front, s ∈ unclosed .fix text := by
    intro s hs
    rw [hopen]
    exact List.mem_append_left [t] hs
  refine ⟨?_, ?_, ?_⟩
  · have hdrop := unclosed_mend h hlast (hfree t hmem)
    rw [hopen, List.dropLast_concat] at hdrop
    exact hdrop
  · intro s hs
    rw [commentOpenBehind_mend h hm (line_le_of_unclosed hopen hs)]
    exact hfree s (hfront s hs)
  · have hconcat := @applyEdits_concat text (front.map fun s => ⟨s.line, .endfix⟩) ⟨t.line, .endfix⟩
      h (fun m hmap => by
        obtain ⟨s, hs, rfl⟩ := List.mem_map.mp hmap
        exact ⟨placed_of_mem_unclosed (hfront s hs), line_le_of_unclosed hopen hs⟩) hm
    rw [List.map_append, List.map_map, List.map_map] at hconcat
    rw [hopen, List.map_append]
    exact hconcat

/-- All single fixes: as many as there are open openers, then none; the text they end with is the
one with the edits of all of them. -/
theorem fixLast_run {text : Text} (h : Settled text)
    (hfree : ∀ t ∈ unclosed .fix text, commentOpenBehind text t.line = false) :
    ∃ texts : Nat → Text, texts 0 = text ∧
      (∀ i < (unclosed .fix text).length,
        fixLast (texts i) (lint {} (texts i)) = .ok (some (texts (i + 1))) ∧
          unclosed .fix (texts (i + 1)) = (unclosed .fix (texts i)).dropLast) ∧
      unclosed .fix (texts (unclosed .fix text).length) = [] ∧
      texts (unclosed .fix text).length =
        applyEdits text ((unclosed .fix text).map fun t => Mending.edit text ⟨t.line, .endfix⟩) := by
  induction hopen : unclosed .fix text using List.reverseRecOn generalizing text with
  | nil =>
    refine ⟨fun _ => text, rfl, ?_, hopen, ?_⟩
    · intro i hi
      contradiction
    · simp [applyEdits, insertions, weave]
  | append_singleton front t ih =>
    obtain ⟨hrest, hfree', hedits⟩ := mend_last h hopen hfree
    obtain ⟨texts, hstart, hstep, hend, hfixed⟩ :=
      ih (settled_mend h ⟨t.line, .endfix⟩).1 (by rwa [hrest]) hrest
    have hfirst : fixLast text (lint {} text) = .ok (some (mend text ⟨t.line, .endfix⟩)) := by
      rw [fixLast_unclosed, hopen, List.getLast?_concat]
      rfl
    have hcount : (front ++ [t]).length = front.length + 1 := by simp
    refine ⟨Nat.rec text fun i _ => texts i, rfl, ?_, ?_, ?_⟩
    · intro i hi
      cases i with
      | zero =>
        show fixLast text (lint {} text) = .ok (some (texts 0)) ∧
          unclosed .fix (texts 0) = (unclosed .fix text).dropLast
        rw [hstart, hrest, hopen, List.dropLast_concat]
        exact ⟨hfirst, rfl⟩
      | succ i => exact hstep i (by omega)
    · rw [hcount]
      exact hend
    · rw [hcount, ← hopen, hedits]
      exact hfixed

/-- Single fixes, one after the other, agree with a run of fixes that looks at `FIX` alone. Each
takes the last missing `ENDFIX` away and leaves the other diagnostics in their places; when none is
left the single fix has nothing to do, and the text is the one that the run of fixes gives. -/
theorem fixLast_agrees_with_fix {config : LintConfig}
    (hblock : RuleKind.blockBalance.enabled config = true)
    (hchain : RuleKind.chainBalance.enabled config = false) {text : Text}
    (hreturns : ∀ i < text.length, text[i]? = some '\r' → text[i + 1]? = some '\n')
    (hfree : ∀ d ∈ diagnosticsOf .missingEndfix (lint {} text),
      commentOpenBehind text d.range.start.line = false) :
    ∃ (n : Nat) (texts : Nat → Text),
      n = (diagnosticsOf .missingEndfix (lint {} text)).length ∧ texts 0 = text ∧
      (∀ i < n, fixLast (texts i) (lint {} (texts i)) = .ok (some (texts (i + 1))) ∧
        diagnosticsOf .missingEndfix (lint {} (texts (i + 1))) =
          (diagnosticsOf .missingEndfix (lint {} (texts i))).dropLast) ∧
      fixLast (texts n) (lint {} (texts n)) = .ok none ∧
      ∃ r, fix config text = .ok r ∧ r.fixed = texts n := by
  have hdiagnostics := fun t => diagnosticsOf_unclosed {} t rfl
  have hfree' : ∀ t ∈ unclosed .fix text, commentOpenBehind text t.line = false := by
    intro t ht
    rw [hdiagnostics] at hfree
    exact hfree _ (List.mem_map_of_mem ht)
  obtain ⟨texts, hstart, hstep, hend, hfixed⟩ := fixLast_run (settled_of_paired hreturns) hfree'
  refine ⟨(unclosed .fix text).length, texts, ?_, hstart, ?_, ?_, fixResult config text,
    fix_eq config text, ?_⟩
  · rw [hdiagnostics, List.length_map]
  · intro i hi
    obtain ⟨hnext, hopen⟩ := hstep i hi
    refine ⟨hnext, ?_⟩
    rw [hdiagnostics, hdiagnostics, hopen, List.map_dropLast]
  · rw [fixLast_unclosed, hend]
    rfl
  · rw [hfixed]
    show applyEdits text ((mendings config text).map (Mending.edit text)) = _
    rw [mendings_fix_only text hblock hchain, List.map_map]
    rfl

/-- Three openers, two of them on the last line: the first row goes behind that line, the second
between the line and that row. -/
theorem fixLast_agrees_on_last_line :
    ∃ texts : Nat → Text, texts 0 = "FIX\r\n  FIX FIX".toList ∧
      (∀ i < 3, fixLast (texts i) (lint {} (texts i)) = .ok (some (texts (i + 1)))) ∧
      fixLast (texts 3) (lint {} (texts 3)) = .ok none ∧
      texts 3 = "FIX\r\nENDFIX\r\n  FIX FIX\r\n  ENDFIX\r\n  ENDFIX".toList := by
  have hcount : (diagnosticsOf .missingEndfix (lint {} "FIX\r\n  FIX FIX".toList)).length = 3 := by
    cbv
  have hfree : ∀ d ∈ diagnosticsOf .missingEndfix (lint {} "FIX\r\n  FIX FIX".toList),
      commentOpenBehind "FIX\r\n  FIX FIX".toList d.range.start.line = false := by
    have hall : (diagnosticsOf .missingEndfix (lint {} "FIX\r\n  FIX FIX".toList)).all
        (fun d => !commentOpenBehind "FIX\r\n  FIX FIX".toList d.range.start.line) = true := by
      cbv
    intro d hd
    simpa using List.all_eq_true.mp hall d hd
  obtain ⟨n, texts, hn, hstart, hstep, hend, r, hr, hfixed⟩ :=
    @fixLast_agrees_with_fix ⟨[("ifEndifBalance", { enabled := false })]⟩ rfl rfl
      "FIX\r\n  FIX FIX".toList (by decide) hfree
  rw [hcount] at hn
  subst hn
  refine ⟨texts, hstart, fun i hi => (hstep i hi).1, hend, ?_⟩
  rw [← hfixed]
  rw [fix_eq] at hr
  cases hr
  cbv

end CalcLint
