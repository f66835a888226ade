import CalcLint.Proofs.ClosingRows
import CalcLint.Proofs.RuleFaults

/-!
# A run of fixes

Every diagnostic that can be mended stands at an opener of the text, so no offer fails: a run of
fixes always gives a result. Its actions are one for each missing closer, in the order of the
diagnostics, and the fixed text is the text with one row more for each of them.
-/
namespace CalcLint

/-- What is to be inserted for a diagnostic. -/
def Diagnostic.mending? (d : Diagnostic) : Option Mending :=
  (closingKeyword? d.code).map (⟨d.range.start.line, ·⟩)

/-- What an action inserts, and below which line. -/
def Action.mending? (a : Action) : Option Mending :=
  a.diagnostic.mending?

/-- What a run of fixes has inserted, action by action. -/
def FixResult.mendings (r : FixResult) : List Mending :=
  r.applied.filterMap Action.mending?

/-- What is to be inserted for the diagnostics of a text. -/
def mendings (config : LintConfig) (text : Text) : List Mending :=
  (lint config text).filterMap Diagnostic.mending?

@[simp] theorem closingKeyword?_eq_some_iff {code : String} {k : Keyword} :
    closingKeyword? code = some k ↔ ∃ b : Block, code = b.missing.code ∧ k = b.closer := by
  constructor
  · intro h
    by_cases hfix : code = Block.fix.missing.code
    · refine ⟨.fix, hfix, ?_⟩
      rw [hfix] at h
      exact (Option.some.inj h).symm
    by_cases hchain : code = Block.chain.missing.code
    · refine ⟨.chain, hchain, ?_⟩
      rw [hchain] at h
      exact (Option.some.inj h).symm
    · have hnone : closingKeyword? code = none := by
        simp only [Block.missing] at hfix hchain
        simp [closingKeyword?, closingKeywords, Ne.symm hfix, Ne.symm hchain]
      rw [hnone] at h
      contradiction
  · rintro ⟨b, rfl, rfl⟩
    cases b <;> rfl

@[simp] theorem mending?_eq_some_iff {d : Diagnostic} {m : Mending} :
    d.mending? = some m ↔
      d.range.start.line = m.opener ∧ ∃ b : Block, d.code = b.missing.code ∧ m.closer = b.closer := by
  obtain ⟨opener, closer⟩ := m
  rw [Diagnostic.mending?, Option.map_eq_some_iff]
  constructor
  · rintro ⟨k, hk, heq⟩
    cases heq
    exact ⟨rfl, closingKeyword?_eq_some_iff.mp hk⟩
  · rintro ⟨rfl, hb⟩
    exact ⟨closer, closingKeyword?_eq_some_iff.mpr hb, rfl⟩

/-- The closers of one kind that are to be inserted belong to the diagnostics of one
specification. -/
theorem filter_closer_filterMap (b : Block) (ds : List Diagnostic) :
    (ds.filterMap Diagnostic.mending?).filter (·.closer = b.closer) =
      (diagnosticsOf b.missing ds).map fun d => ⟨d.range.start.line, b.closer⟩ := by
  induction ds with
  | nil => rfl
  | cons d rest ih =>
    by_cases hd : d.code = b.missing.code
    · have hsome : d.mending? = some ⟨d.range.start.line, b.closer⟩ :=
        mending?_eq_some_iff.mpr ⟨rfl, b, hd, rfl⟩
      have hrest : diagnosticsOf b.missing (d :: rest) = d :: diagnosticsOf b.missing rest := by
        simp [diagnosticsOf, hd]
      rw [List.filterMap_cons_some hsome, List.filter_cons_of_pos (by simp), ih, hrest,
        List.map_cons]
    · have hrest : diagnosticsOf b.missing (d :: rest) = diagnosticsOf b.missing rest := by
        simp [diagnosticsOf, hd]
      rw [hrest, ← ih]
      cases hm : d.mending? with
      | none => rw [List.filterMap_cons_none hm]
      | some m =>
        obtain ⟨_, b', hcode, hcloser⟩ := mending?_eq_some_iff.mp hm
        have hne : m.closer ≠ b.closer := by
          rw [hcloser]
          intro heq
          rw [Block.closer_injective heq] at hcode
          exact hd hcode
        rw [List.filterMap_cons_some hm, List.filter_cons_of_neg (by simp [hne])]

/-- The closers of one kind that are to be inserted are those its pair check misses. -/
theorem mendings_filter_closer (config : LintConfig) (text : Text) (b : Block) :
    (mendings config text).filter (·.closer = b.closer) =
      if b.rule.enabled config then
        (pairFaults Token.kind b.opener b.closer (scan text)).unclosed.map
          fun t => ⟨t.line, b.closer⟩
      else [] := by
  rw [mendings, filter_closer_filterMap, b.diagnosticsOf_missing]
  split
  · rw [List.map_map]
    rfl
  · rfl

theorem exists_closer_of_mem_mendings {config : LintConfig} {text : Text} {m : Mending}
    (h : m ∈ mendings config text) : ∃ b : Block, m.closer = b.closer := by
  obtain ⟨d, _, hd⟩ := List.mem_filterMap.mp h
  obtain ⟨_, b, _, hb⟩ := mending?_eq_some_iff.mp hd
  exact ⟨b, hb⟩

theorem line_of_mem_scan {text : Text} {t : Token} (h : t ∈ scan text) :
    ∃ line, (lines text)[t.line]? = some line ∧ line ≠ [] := by
  obtain ⟨i, line, hline, w, hw, rfl⟩ := mem_scanLines.mp h
  refine ⟨line, by simpa [Word.onLine] using hline, ?_⟩
  rintro rfl
  rw [scanLine_nil] at hw
  exact List.not_mem_nil hw

/-- Closers are inserted below lines that hold a keyword. -/
theorem exists_token_of_mem_mendings {config : LintConfig} {text : Text} {m : Mending}
    (h : m ∈ mendings config text) : ∃ t ∈ scan text, t.line = m.opener := by
  obtain ⟨b, hb⟩ := exists_closer_of_mem_mendings h
  have hmem : m ∈ (mendings config text).filter (·.closer = b.closer) :=
    List.mem_filter.mpr ⟨h, by simp [hb]⟩
  rw [mendings_filter_closer] at hmem
  split at hmem
  · obtain ⟨t, ht, rfl⟩ := List.mem_map.mp hmem
    exact ⟨t, (pairFaults_sublist (scan text)).2.subset ht, rfl⟩
  · contradiction

theorem placed_of_mem_mendings {config : LintConfig} {text : Text} {m : Mending}
    (h : m ∈ mendings config text) : m.Placed text := by
  obtain ⟨t, ht, hline⟩ := exists_token_of_mem_mendings h
  rw [Mending.Placed, ← hline]
  exact line_of_mem_scan ht

theorem Mending.Placed.lt {text : Text} {m : Mending} (h : m.Placed text) :
    m.opener < (lines text).length := by
  obtain ⟨line, hline, _⟩ := h
  exact (List.getElem?_eq_some_iff.mp hline).1

/-- The offer for a diagnostic whose line the text has. -/
def offer? (text : Text) (d : Diagnostic) : Option Action :=
  d.mending?.map fun m =>
    { title := "Insert " ++ m.closer.name, diagnostic := d, edits := [m.edit text] }

theorem insertClosing_eq {text : Text} {m : Mending} (h : m.Placed text) :
    insertClosing (lines text).toArray m.opener m.closer.spelling (LineEnding.ofText text).chars =
      .ok (m.edit text) := by
  obtain ⟨line, hline, _⟩ := h
  have hat : lineAt text m.opener = line := by rw [lineAt, hline, Option.getD_some]
  unfold insertClosing Mending.edit Mending.row
  rw [List.getElem?_toArray, hline, hat, List.size_toArray]
  dsimp only
  split
  · rfl
  · rw [List.append_assoc]

theorem quickFix?_eq {text : Text} {d : Diagnostic}
    (h : ∀ m, d.mending? = some m → m.Placed text) :
    quickFix? (lines text).toArray (LineEnding.ofText text) d = (offer? text d).map .ok := by
  unfold quickFix? offer?
  cases hk : closingKeyword? d.code with
  | none => simp [Diagnostic.mending?, hk]
  | some k =>
    have hm : d.mending? = some ⟨d.range.start.line, k⟩ := by simp [Diagnostic.mending?, hk]
    have hinsert := insertClosing_eq (h _ hm)
    rw [hm, Option.map_some, Option.map_some, Option.map_some]
    dsimp only at hinsert ⊢
    rw [hinsert]
    rfl

theorem quickFixes_eq {text : Text} {ds : List Diagnostic}
    (h : ∀ m ∈ ds.filterMap Diagnostic.mending?, m.Placed text) :
    quickFixes text ds = .ok (ds.filterMap (offer? text)) := by
  have hoffers : ds.filterMap (quickFix? (lines text).toArray (LineEnding.ofText text)) =
      (ds.filterMap (offer? text)).map .ok := by
    rw [List.map_filterMap]
    apply List.filterMap_congr
    intro d hd
    exact quickFix?_eq (fun m hm => h m (List.mem_filterMap.mpr ⟨d, hd, hm⟩))
  show (ds.filterMap (quickFix? (lines text).toArray (LineEnding.ofText text))).mapM id = _
  rw [hoffers, List.mapM_map]
  exact @List.mapM_pure (Except LineError) _ _ _ _ _ id |>.trans (by rw [List.map_id]; rfl)

/-- The actions of a run of fixes on a text. -/
def offers (config : LintConfig) (text : Text) : List Action :=
  (lint config text).filterMap (offer? text)

@[simp] theorem offers_map_mending? (config : LintConfig) (text : Text) :
    (offers config text).map Action.mending? = (mendings config text).map some := by
  unfold offers mendings
  rw [List.map_filterMap, List.map_filterMap]
  apply List.filterMap_congr
  intro d _
  cases hm : d.mending? <;> simp [offer?, hm, Action.mending?]

theorem edits_offers (config : LintConfig) (text : Text) :
    (offers config text).flatMap (·.edits) = (mendings config text).map (Mending.edit text) := by
  unfold offers mendings
  induction lint config text with
  | nil => rfl
  | cons d rest ih =>
    cases hm : d.mending? with
    | none => simpa [offer?, hm] using ih
    | some m => simpa [offer?, hm] using ih

def fixedText (config : LintConfig) (text : Text) : Text :=
  applyEdits text ((mendings config text).map (Mending.edit text))

/-- The result of a run of fixes: an action for each missing closer, and the text with the edits of
the actions. -/
def fixResult (config : LintConfig) (text : Text) : FixResult :=
  ⟨fixedText config text, offers config text, fixedText config text != text⟩

@[simp] theorem fix_eq (config : LintConfig) (text : Text) :
    fix config text = .ok (fixResult config text) := by
  have hoffers : quickFixes text (lint config text) = .ok (offers config text) :=
    quickFixes_eq (fun m hm => placed_of_mem_mendings hm)
  unfold fix applyFixes fixResult fixedText
  rw [hoffers, ← edits_offers]
  rfl

@[simp] theorem mendings_fixResult (config : LintConfig) (text : Text) :
    (fixResult config text).mendings = mendings config text := by
  have hmap := congrArg (List.filterMap id) (offers_map_mending? config text)
  simpa [FixResult.mendings, fixResult, List.filterMap_map] using hmap

/-- The single fix never fails: it gives the row of the last missing `ENDFIX`, if one is missing. -/
theorem fixLast_eq (config : LintConfig) (text : Text) :
    fixLast text (lint config text) =
      .ok ((diagnosticsOf .missingEndfix (lint config text)).getLast?.map fun d =>
        applyEdits text [Mending.edit text ⟨d.range.start.line, .endfix⟩]) := by
  cases hd : (diagnosticsOf .missingEndfix (lint config text)).getLast? with
  | none =>
    have hlast : ((lint config text).filter (·.code == Spec.missingEndfix.code)).getLast? = none := hd
    rw [fixLast, hlast]
    rfl
  | some d =>
    have hlast : ((lint config text).filter (·.code == Spec.missingEndfix.code)).getLast? = some d :=
      hd
    obtain ⟨hmem, hcode⟩ := List.mem_filter.mp (List.mem_of_getLast? hd)
    have hm : d.mending? = some ⟨d.range.start.line, .endfix⟩ :=
      mending?_eq_some_iff.mpr ⟨rfl, .fix, of_decide_eq_true hcode, rfl⟩
    have hplaced : ∀ m ∈ [d].filterMap Diagnostic.mending?, m.Placed text := by
      intro m hmend
      apply @placed_of_mem_mendings config
      rw [List.filterMap_cons_some hm, List.filterMap_nil, List.mem_singleton] at hmend
      exact List.mem_filterMap.mpr ⟨d, hmem, hmend ▸ hm⟩
    have hoffer : [d].filterMap (offer? text) =
        [{ title := "Insert " ++ Keyword.endfix.name, diagnostic := d,
           edits := [Mending.edit text ⟨d.range.start.line, .endfix⟩] }] := by
      simp [offer?, hm]
    rw [fixLast, hlast]
    show (quickFixes text [d]).bind _ = _
    rw [quickFixes_eq hplaced, hoffer]
    rfl

end CalcLint
