import CalcLint.Proofs.ChainBlame
import CalcLint.Proofs.FixedChain
import Mathlib

/-!
# The second `ELSE` of an `IF`

The verdict on a keyword of a text is what there is to blame it for in the matching of positions. So
an `ELSE` is a duplicate if another one in front of it has the same innermost open `IF`. A fix takes
over all `ELSE`s of a text, in their order, and adds none, but it may change which `IF` is the
innermost for them.
-/
namespace CalcLint

theorem foldl_chainStack_map {α β : Type} {kind : α → Keyword} (f : β → α)
    (stack : List (OpenIf β)) (items : List β) :
    (items.map f).foldl (chainStack kind) (stack.map (OpenIf.map f)) =
      (items.foldl (chainStack fun b => kind (f b)) stack).map (OpenIf.map f) := by
  induction items generalizing stack with
  | nil => rfl
  | cons item rest ih => simp [ih]

variable {text : Text} {t u : Token} {p q : Nat}

theorem tokensBefore_eq_take (ht : (scan text)[p]? = some t) :
    tokensBefore text t = (scan text).take p := by
  obtain ⟨hlt, rfl⟩ := List.getElem?_eq_some_iff.mp ht
  apply @tokensBefore_eq _ _ ((scan text).drop (p + 1))
  rw [← List.drop_eq_getElem_cons hlt, List.take_append_drop]

/-- A token stands in front of another if its position is smaller. -/
theorem mem_tokensBefore_iff (ht : (scan text)[p]? = some t) :
    u ∈ tokensBefore text t ↔ ∃ q < p, (scan text)[q]? = some u := by
  rw [tokensBefore_eq_take ht, List.mem_iff_getElem?]
  simp [List.getElem?_take]

theorem chainBefore_eq (ht : (scan text)[p]? = some t) :
    chainBefore text t =
      (chainStackAt Token.kind (scan text) p).map (OpenIf.map Prod.fst) := by
  have hmap := @foldl_chainStack_map Token (Token × Nat) Token.kind Prod.fst []
    ((scan text).take p).zipIdx
  rw [List.zipIdx_map_fst, List.map_nil] at hmap
  rw [chainBefore, tokensBefore_eq_take ht, hmap, chainStackAt]

/-- The verdict on a keyword is what there is to blame it for where it stands. -/
theorem verdict?_eq_some_iff (ht : (scan text)[p]? = some t) {spec : Spec} :
    t.verdict? text = some spec ↔
      spec ≠ .missingEndif ∧ Blamed ((scan text).map Token.kind) spec p := by
  have hverdict := @chainVerdict?_map Token (Token × Nat) Token.kind Prod.fst
    (chainStackAt Token.kind (scan text) p) (t, p)
  rw [Token.verdict?, chainBefore_eq ht, ← chainVerdict?_iff_blamed ht, ← hverdict]

/-- The innermost `IF` open in front of a keyword is the last of those open at its position. -/
theorem innermostOpen_iff (ht : (scan text)[p]? = some t) {i : Nat} {head : Token}
    (hhead : (scan text)[i]? = some head) :
    InnermostOpen ((scan text).map Token.kind) p i ↔ (openIfs text t).getLast? = some head := by
  have hheads := chainBefore_heads text t
  rw [chainBefore_eq ht, List.map_map] at hheads
  rw [← List.head?_reverse, ← hheads]
  cases hstack : chainStackAt Token.kind (scan text) p with
  | nil =>
    have hnone := chainStackAt_eq_nil_iff.mp hstack i
    exact iff_of_false (fun h => hnone h.1) (by simp)
  | cons frame outer =>
    have hinner := innermost_of_cons hstack
    have hmem : frame.head ∈ (chainStackAt Token.kind (scan text) p).map (·.head) := by
      rw [hstack]
      exact List.mem_cons_self
    have hframe := (mem_chainStackAt_heads.mp hmem).1
    have hfirst : (frame.head.1 = head) ↔ i = frame.head.2 := by
      constructor
      · rintro rfl
        have hlt := (List.getElem?_eq_some_iff.mp hhead).1
        exact (List.getElem?_inj hlt (scan_nodup text)).mp (hhead.trans hframe.symm)
      · rintro rfl
        exact Option.some.inj (hframe.symm.trans hhead)
    simp only [List.map_cons, List.head?_cons, Option.some.injEq, Function.comp_apply, OpenIf.map,
      hfirst]
    exact ⟨fun h => h.unique hinner, fun h => h ▸ hinner⟩

theorem blamed_duplicateElse_iff {word : List Keyword} :
    Blamed word .duplicateElse p ↔ word[p]? = some .elseArm ∧
      ∃ q i, q < p ∧ word[q]? = some .elseArm ∧ InnermostOpen word q i ∧
        InnermostOpen word p i := by
  constructor
  · intro h
    generalize hspec : Spec.duplicateElse = spec at h
    cases h with
    | duplicateElse helse hq helse' hinner' hinner =>
      exact ⟨helse, _, _, hq, helse', hinner', hinner⟩
    | unexpectedElseif => exact absurd hspec (by decide)
    | unexpectedElse => exact absurd hspec (by decide)
    | unmatchedEndif => exact absurd hspec (by decide)
    | missingEndif => exact absurd hspec (by decide)
  · rintro ⟨helse, q, i, hq, helse', hinner', hinner⟩
    exact .duplicateElse helse hq helse' hinner' hinner

/-- An `ELSE` is a duplicate if one in front of it has the same innermost open `IF`. -/
theorem verdict?_duplicate_iff (ht : t ∈ scan text) :
    t.verdict? text = some .duplicateElse ↔ t.kind = .elseArm ∧
      ∃ u ∈ tokensBefore text t, u.kind = .elseArm ∧
        ∃ head, (openIfs text u).getLast? = some head ∧ (openIfs text t).getLast? = some head := by
  obtain ⟨p, hp⟩ := List.mem_iff_getElem?.mp ht
  have hkind : ∀ {q : Nat} {x : Token}, (scan text)[q]? = some x → ∀ k,
      ((scan text).map Token.kind)[q]? = some k ↔ x.kind = k := by
    intro q x hq k
    rw [List.getElem?_map, hq, Option.map_some, Option.some.injEq]
  rw [verdict?_eq_some_iff hp, blamed_duplicateElse_iff]
  constructor
  · rintro ⟨-, helse, q, i, hq, helse', hinner', hinner⟩
    obtain ⟨u, hu, hukind⟩ := Option.map_eq_some_iff.mp (List.getElem?_map ▸ helse')
    obtain ⟨head, hhead, -⟩ := Option.map_eq_some_iff.mp (List.getElem?_map ▸ hinner.1.2.1)
    exact ⟨(hkind hp _).mp helse, u, (mem_tokensBefore_iff hp).mpr ⟨q, hq, hu⟩, hukind, head,
      (innermostOpen_iff hu hhead).mp hinner', (innermostOpen_iff hp hhead).mp hinner⟩
  · rintro ⟨helse, u, hu, hukind, head, hinner', hinner⟩
    obtain ⟨q, hq, hu⟩ := (mem_tokensBefore_iff hp).mp hu
    have hmem : head ∈ scan text :=
      (List.takeWhile_sublist _).subset
        ((pairFaults_sublist _).2.subset (List.mem_of_getLast? hinner))
    obtain ⟨i, hi⟩ := List.mem_iff_getElem?.mp hmem
    exact ⟨by decide, (hkind hp _).mpr helse, q, i, hq, (hkind hu _).mpr hukind,
      (innermostOpen_iff hu hi).mpr hinner', (innermostOpen_iff hp hi).mpr hinner⟩

theorem moved_mem_scan_fixedText {config : LintConfig} (ht : t ∈ scan text) :
    t.moved (mendings config text) ∈ scan (fixedText config text) := by
  obtain ⟨hlt, xs, zs, hon⟩ := exists_on_line ht
  obtain ⟨below, hrows⟩ := mendedRows_split (mendings config text) hlt hon
  rw [scan_fixedText, hrows]
  simp [Rows.woven]

/-- The `ELSE`s in front of a token of a fixed text are those in front of it in the text. -/
theorem mem_tokensBefore_fixed {config : LintConfig} (ht : t ∈ scan text) {k : Keyword}
    (hk : ∀ b : Block, k ≠ b.closer) :
    (u ∈ tokensBefore (fixedText config text) (t.moved (mendings config text)) ∧ u.kind = k) ↔
      ∃ v ∈ tokensBefore text t, v.kind = k ∧ u = v.moved (mendings config text) := by
  obtain ⟨hlt, xs, zs, hon⟩ := exists_on_line ht
  have hextra : ∀ x ∈ (rowsBefore text (mendings config text) t.line xs).extra,
      decide (x.kind = k) = false := by
    intro x hx
    rw [rowsBefore_extra] at hx
    obtain ⟨b, hb⟩ := kind_of_mem_extra (fun _ hm => exists_closer_of_mem_mendings hm) hx
    rw [decide_eq_false_iff_not, hb]
    exact (hk b).symm
  have hfilter := Rows.filter_woven hextra
  rw [rowsBefore_plain, ← tokensBefore_text hlt hon, ← tokensBefore_fixed hlt hon] at hfilter
  have hmem : u ∈ _ ↔ u ∈ _ := iff_of_eq (congrArg (u ∈ ·) hfilter)
  simp only [List.mem_filter, List.mem_map, decide_eq_true_eq] at hmem
  rw [hmem]
  constructor
  · rintro ⟨⟨v, hv, rfl⟩, hkind⟩
    exact ⟨v, hv, hkind, rfl⟩
  · rintro ⟨v, hv, hkind, rfl⟩
    exact ⟨⟨v, hv, rfl⟩, hkind⟩

/-- What makes an `ELSE` of a text a duplicate in the fixed text: an `ELSE` in front of it that has
there the same innermost open `IF`. -/
theorem verdict?_duplicate_fixed_iff {config : LintConfig} (ht : t ∈ scan text) :
    (t.moved (mendings config text)).verdict? (fixedText config text) = some .duplicateElse ↔
      t.kind = .elseArm ∧ ∃ u ∈ tokensBefore text t, u.kind = .elseArm ∧
        ∃ head,
          (openIfs (fixedText config text) (u.moved (mendings config text))).getLast? = some head ∧
          (openIfs (fixedText config text) (t.moved (mendings config text))).getLast? =
            some head := by
  have hcloser : ∀ b : Block, Keyword.elseArm ≠ b.closer := by
    intro b
    cases b <;> decide
  rw [verdict?_duplicate_iff (moved_mem_scan_fixedText ht)]
  apply and_congr Iff.rfl
  constructor
  · rintro ⟨v, hv, hkind, hsame⟩
    obtain ⟨u, hu, hukind, rfl⟩ := (mem_tokensBefore_fixed ht hcloser).mp ⟨hv, hkind⟩
    exact ⟨u, hu, hukind, hsame⟩
  · rintro ⟨u, hu, hukind, hsame⟩
    obtain ⟨hv, hkind⟩ := (mem_tokensBefore_fixed ht hcloser).mpr ⟨u, hu, hukind, rfl⟩
    exact ⟨_, hv, hkind, hsame⟩

end CalcLint
