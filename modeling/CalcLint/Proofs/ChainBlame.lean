import CalcLint.Proofs.ChainGrammar
import CalcLint.Proofs.DyckMatching

/-!
# Whom the chain check blames

An `ENDIF` closes the `IF` before it with which it encloses a balanced stretch. This says which
`IF`s are open in front of a position, and which of them is the innermost, without any stack. The
stack of the chain check holds just these `IF`s, and marks those to which an `ELSE` has belonged;
so the check blames each keyword for what it is in this matching.
-/
namespace CalcLint

variable {α : Type} {kind : α → Keyword} {opener closer : Keyword}

/-- The `ENDIF` at `j` closes the `IF` at `i`: what stands between them is balanced. -/
def Closes (word : List Keyword) (i j : Nat) : Prop :=
  i < j ∧ word[i]? = some .ifHead ∧ word[j]? = some .endif ∧
    Balanced .ifHead .endif (word.extract (i + 1) j)

/-- The `IF` at `i` is open in front of position `p`: no `ENDIF` before `p` closes it. -/
def OpenIn (word : List Keyword) (p i : Nat) : Prop :=
  i < p ∧ word[i]? = some .ifHead ∧ ∀ j < p, ¬ Closes word i j

/-- The `IF` at `i` is the last of those open in front of position `p`. -/
def InnermostOpen (word : List Keyword) (p i : Nat) : Prop :=
  OpenIn word p i ∧ ∀ i', OpenIn word p i' → i' ≤ i

/-- What there is to blame the keyword at position `p` for. -/
inductive Blamed (word : List Keyword) : Spec → Nat → Prop
  | unexpectedElseif {p : Nat} : word[p]? = some .elseIf → (∀ i, ¬ OpenIn word p i) →
      Blamed word .unexpectedElseif p
  | unexpectedElse {p : Nat} : word[p]? = some .elseArm → (∀ i, ¬ OpenIn word p i) →
      Blamed word .unexpectedElse p
  | duplicateElse {q p i : Nat} : word[p]? = some .elseArm → q < p → word[q]? = some .elseArm →
      InnermostOpen word q i → InnermostOpen word p i → Blamed word .duplicateElse p
  | unmatchedEndif {p : Nat} : word[p]? = some .endif → (∀ i, ¬ OpenIn word p i) →
      Blamed word .unmatchedEndif p
  | missingEndif {p : Nat} : word[p]? = some .ifHead → (∀ j, ¬ Closes word p j) →
      Blamed word .missingEndif p

theorem InnermostOpen.unique {word : List Keyword} {p i i' : Nat} (h : InnermostOpen word p i)
    (h' : InnermostOpen word p i') : i = i' :=
  Nat.le_antisymm (h'.2 i h.1) (h.2 i' h'.1)

/-- An `IF` is blamed for nothing but its missing `ENDIF`. -/
theorem Blamed.eq_missingEndif {word : List Keyword} {spec : Spec} {p : Nat}
    (h : Blamed word spec p) (hp : word[p]? = some .ifHead) : spec = .missingEndif := by
  cases h <;> simp_all

section
variable {word front back : List Keyword} {k : Keyword} {a j p : Nat}

theorem stretch_split (ha : a ≤ j) (hj : j < p) (hk : word[j]? = some k) :
    (word.take p).drop a = word.extract a j ++ k :: (word.take p).drop (j + 1) := by
  obtain ⟨hlt, rfl⟩ := List.getElem?_eq_some_iff.mp hk
  have hlength : j < (word.take p).length := by rw [List.length_take]; omega
  have hhead : word.extract a j = ((word.take p).drop a).take (j - a) := by
    rw [List.drop_take, List.take_take, List.extract, Nat.min_eq_left (by omega)]
  have htail : ((word.take p).drop a).drop (j - a) = word[j] :: (word.take p).drop (j + 1) := by
    rw [List.drop_drop, Nat.add_sub_of_le ha, List.drop_eq_getElem_cons hlength, List.getElem_take]
  rw [hhead, ← htail, List.take_append_drop]

theorem of_stretch_eq (h : (word.take p).drop a = front ++ k :: back) :
    a + front.length < p ∧ word[a + front.length]? = some k ∧
      word.extract a (a + front.length) = front ∧
        (word.take p).drop (a + front.length + 1) = back := by
  have hlength := congrArg List.length h
  simp only [List.length_drop, List.length_take, List.length_append, List.length_cons] at hlength
  have hp : a + front.length < p := by omega
  have hk := congrArg (fun l : List Keyword => l[front.length]?) h
  have hfront := congrArg (fun l : List Keyword => l.take front.length) h
  simp [hp] at hk
  simp [List.drop_take, List.take_take] at hfront
  have hback := congrArg (fun l : List Keyword => l.drop (front.length + 1)) h
  simp only [List.drop_drop, List.drop_length_add_append, List.drop_one, List.tail_cons] at hback
  refine ⟨hp, hk, ?_, hback⟩
  rw [List.extract, Nat.add_sub_cancel_left]
  rwa [Nat.min_eq_left (by omega)] at hfront

end

/-- A closer is stray when a balanced stretch leads up to it. -/
theorem stray_eq_nil_iff_balanced (h : opener ≠ closer) {word : List Keyword} :
    (pairFaults id opener closer word).stray = [] ↔
      ∀ front back, word = front ++ closer :: back → ¬ Balanced opener closer front := by
  constructor
  · intro hstray front back hword hbalanced
    rw [← List.map_id front, ← pairFaults_eq_nil_iff_balanced h] at hbalanced
    have hcloser : pairFaults id opener closer (closer :: back) = _ :=
      @pairFaults_closer Keyword id opener closer closer h.symm rfl back
    rw [hword, pairFaults_append, hbalanced, hcloser] at hstray
    simp at hstray
  · intro hnone
    by_contra hstray
    obtain ⟨front, x, back, hword, _, rfl, hfront⟩ := exists_first_stray hstray
    rw [pairFaults_eq_nil_iff_balanced h, List.map_id] at hfront
    exact hnone front back hword hfront

theorem unclosedAt_iff_stray (h : opener ≠ closer) {word : List Keyword} {i : Nat} :
    UnclosedAt opener closer word i ↔ word[i]? = some opener ∧
      (pairFaults id opener closer (word.drop (i + 1))).stray = [] := by
  rw [unclosedAt_iff, stray_eq_nil_iff h, List.map_id]

/-- The open `IF`s in front of a position are the unclosed ones of what stands in front of it. -/
theorem openIn_iff {word : List Keyword} {p i : Nat} :
    OpenIn word p i ↔ UnclosedAt .ifHead .endif (word.take p) i := by
  have hkinds : Keyword.ifHead ≠ .endif := by decide
  rw [unclosedAt_iff_stray hkinds, stray_eq_nil_iff_balanced hkinds, List.getElem?_take]
  constructor
  · rintro ⟨hlt, hi, hopen⟩
    refine ⟨by simpa [hlt] using hi, ?_⟩
    intro front back hstretch hbalanced
    obtain ⟨hj, hk, hfront, _⟩ := of_stretch_eq hstretch
    exact hopen (i + 1 + front.length) hj ⟨by omega, hi, hk, hfront.symm ▸ hbalanced⟩
  · rintro ⟨hi, hopen⟩
    have hlt : i < p := by
      by_contra hge
      simp [hge] at hi
    rw [if_pos hlt] at hi
    refine ⟨hlt, hi, ?_⟩
    rintro j hj ⟨hij, _, hk, hbalanced⟩
    exact hopen _ _ (stretch_split hij hj hk) hbalanced

/-- An `IF` that no `ENDIF` closes is unclosed. -/
theorem forall_not_closes_iff {word : List Keyword} {i : Nat} (hi : word[i]? = some .ifHead) :
    (∀ j, ¬ Closes word i j) ↔ UnclosedAt .ifHead .endif word i := by
  have hlt : i < word.length := (List.getElem?_eq_some_iff.mp hi).1
  have hopen := @openIn_iff word word.length i
  rw [List.take_length] at hopen
  rw [← hopen]
  constructor
  · exact fun h => ⟨hlt, hi, fun j _ => h j⟩
  · rintro ⟨_, _, h⟩ j hj
    exact h j (List.getElem?_eq_some_iff.mp hj.2.2.1).1 hj

theorem blamed_missingEndif_iff {word : List Keyword} {p : Nat} :
    Blamed word .missingEndif p ↔ UnclosedAt .ifHead .endif word p := by
  constructor
  · intro h
    generalize hspec : Spec.missingEndif = spec at h
    cases h with
    | missingEndif hp hnone => exact (forall_not_closes_iff hp).mp hnone
    | unexpectedElseif => exact absurd hspec (by decide)
    | unexpectedElse => exact absurd hspec (by decide)
    | duplicateElse => exact absurd hspec (by decide)
    | unmatchedEndif => exact absurd hspec (by decide)
  · intro hunclosed
    exact .missingEndif hunclosed.1 ((forall_not_closes_iff hunclosed.1).mpr hunclosed)

/-- Matching is last in, first out: an `ENDIF` closes the innermost `IF` that is open there. -/
theorem closes_iff_innermost {word : List Keyword} {i j : Nat} :
    Closes word i j ↔ word[j]? = some .endif ∧ InnermostOpen word j i := by
  have hkinds : Keyword.ifHead ≠ .endif := by decide
  have hbetween : word.extract (i + 1) j = (word.take j).drop (i + 1) := (List.drop_take).symm
  have hbalanced : Balanced .ifHead .endif (word.extract (i + 1) j) ↔
      pairFaults id .ifHead .endif ((word.take j).drop (i + 1)) = ⟨[], []⟩ := by
    rw [pairFaults_eq_nil_iff_balanced hkinds, List.map_id, hbetween]
  rw [Closes, hbalanced, pairFaults_eq_nil_iff]
  constructor
  · rintro ⟨hij, hi, hj, hstray, hunclosed⟩
    have hopen : OpenIn word j i := by
      rw [openIn_iff, unclosedAt_iff_stray hkinds, List.getElem?_take, if_pos hij]
      exact ⟨hi, hstray⟩
    refine ⟨hj, hopen, ?_⟩
    intro i' hopen'
    by_contra hlt
    -- An `IF` still open behind `i` would be unclosed in the balanced stretch.
    have hsplit := stretch_split (Nat.lt_of_not_le hlt) hopen'.1 hopen'.2.1
    rw [openIn_iff, unclosedAt_iff_stray hkinds] at hopen'
    have hinner := @pairFaults_opener Keyword id .ifHead .endif .ifHead rfl
      ((word.take j).drop (i' + 1))
    rw [hsplit, pairFaults_append, List.append_eq_nil_iff, hinner, hopen'.2] at hunclosed
    simp at hunclosed
  · rintro ⟨hj, hopen, hlast⟩
    have hstray := openIn_iff.mp hopen
    rw [unclosedAt_iff_stray hkinds] at hstray
    refine ⟨hopen.1, hopen.2.1, hj, hstray.2, ?_⟩
    by_contra hunclosed
    obtain ⟨front, x, back, hstretch, hx, hback⟩ := exists_last_unclosed hunclosed
    obtain ⟨hlt, hhead, _, hrest⟩ := of_stretch_eq hstretch
    have hinner : OpenIn word j (i + 1 + front.length) := by
      rw [openIn_iff, unclosedAt_iff_stray hkinds, List.getElem?_take, if_pos hlt, hhead, hrest,
        hback]
      exact ⟨congrArg some hx, rfl⟩
    have hle := hlast _ hinner
    omega

theorem pairwise_snd_of_sublist {items : List α} {part : List (α × Nat)}
    (h : part.Sublist items.zipIdx) : part.Pairwise fun q q' => q.2 < q'.2 := by
  have hrange : (items.zipIdx.map Prod.snd).Pairwise (· < ·) := by
    rw [List.zipIdx_map_snd]
    exact List.pairwise_lt_range'
  exact (List.pairwise_map.mp hrange).sublist h

/-- The stack of the chain check in front of position `p`; items are held with their positions. -/
def chainStackAt (kind : α → Keyword) (items : List α) (p : Nat) : List (OpenIf (α × Nat)) :=
  (items.take p).zipIdx.foldl (chainStack fun q => kind q.1) []

section
variable {items : List α} {p : Nat}

theorem chainStackAt_succ {x : α} (h : items[p]? = some x) :
    chainStackAt kind items (p + 1) =
      chainStack (fun q => kind q.1) (chainStackAt kind items p) (x, p) := by
  have hlength : (items.take p).length = p :=
    List.length_take_of_le (Nat.le_of_lt (List.getElem?_eq_some_iff.mp h).1)
  rw [chainStackAt, List.take_add_one, h, Option.toList_some, List.zipIdx_append, hlength,
    List.foldl_append, chainStackAt]
  simp

@[simp] theorem chainStackAt_end (h : items[p]? = none) :
    chainStackAt kind items (p + 1) = chainStackAt kind items p := by
  rw [chainStackAt, List.take_add_one, h, Option.toList_none, List.append_nil, chainStackAt]

/-- The heads on the stack are the openers that are unclosed, the innermost first. -/
theorem chainStackAt_heads (kind : α → Keyword) (items : List α) (p : Nat) :
    (chainStackAt kind items p).map (·.head) = ((items.take p).zipIdx.filter fun q =>
      UnclosedAt .ifHead .endif ((items.map kind).take p) q.2).reverse := by
  have hheads := @foldl_chainStack_heads (α × Nat) (fun q => kind q.1) [] (items.take p).zipIdx
  have hunclosed := @unclosed_zipIdx α kind .ifHead .endif (by decide) (items.take p)
  rw [List.map_take, pairFaults] at hunclosed
  rw [chainStackAt, hheads, List.map_nil, hunclosed]

theorem mem_chainStackAt_heads {q : α × Nat} :
    q ∈ (chainStackAt kind items p).map (·.head) ↔
      items[q.2]? = some q.1 ∧ OpenIn (items.map kind) p q.2 := by
  rw [chainStackAt_heads, List.mem_reverse, List.mem_filter, decide_eq_true_eq, ← openIn_iff,
    List.mem_zipIdx_iff_getElem?, List.getElem?_take]
  apply and_congr_left
  intro hopen
  rw [if_pos hopen.1]

theorem chainStackAt_pairwise (kind : α → Keyword) (items : List α) (p : Nat) :
    ((chainStackAt kind items p).map (·.head)).Pairwise fun q q' => q'.2 < q.2 := by
  rw [chainStackAt_heads, List.pairwise_reverse]
  exact pairwise_snd_of_sublist List.filter_sublist

@[simp] theorem chainStackAt_eq_nil_iff :
    chainStackAt kind items p = [] ↔ ∀ i, ¬ OpenIn (items.map kind) p i := by
  rw [← List.map_eq_nil_iff (f := (·.head)), List.eq_nil_iff_forall_not_mem]
  constructor
  · intro hnone i hopen
    obtain ⟨x, hx, _⟩ := Option.map_eq_some_iff.mp (List.getElem?_map ▸ hopen.2.1)
    exact hnone (x, i) (mem_chainStackAt_heads.mpr ⟨hx, hopen⟩)
  · intro hnone q hq
    exact hnone q.2 (mem_chainStackAt_heads.mp hq).2

theorem innermost_of_cons {frame : OpenIf (α × Nat)} {outer : List (OpenIf (α × Nat))}
    (h : chainStackAt kind items p = frame :: outer) :
    InnermostOpen (items.map kind) p frame.head.2 := by
  have hpairwise := chainStackAt_pairwise kind items p
  have hmem : ∀ q, q ∈ (frame :: outer).map (·.head) ↔ _ := fun q =>
    h ▸ @mem_chainStackAt_heads α kind items p q
  rw [h, List.map_cons, List.pairwise_cons] at hpairwise
  refine ⟨((hmem frame.head).mp (by simp)).2, ?_⟩
  intro i hopen
  obtain ⟨x, hx, _⟩ := Option.map_eq_some_iff.mp (List.getElem?_map ▸ hopen.2.1)
  have hi := (hmem (x, i)).mpr ⟨hx, hopen⟩
  rw [List.map_cons, List.mem_cons] at hi
  rcases hi with hi | hi
  · rw [← hi]
  · exact Nat.le_of_lt (hpairwise.1 (x, i) hi)

/-- An `ELSE` before position `p` that belongs to the `IF` at `i`. -/
def ElseBefore (word : List Keyword) (p i : Nat) : Prop :=
  ∃ q < p, word[q]? = some .elseArm ∧ InnermostOpen word q i

theorem elseBefore_succ_iff {word : List Keyword} {i : Nat}
    (h : word[p]? = some .elseArm → ¬ InnermostOpen word p i) :
    ElseBefore word (p + 1) i ↔ ElseBefore word p i := by
  constructor
  · rintro ⟨q, hq, helse, hinner⟩
    have hne : q ≠ p := by
      rintro rfl
      exact h helse hinner
    exact ⟨q, by omega, helse, hinner⟩
  · rintro ⟨q, hq, helse, hinner⟩
    exact ⟨q, by omega, helse, hinner⟩

/-- One step of the chain check keeps the marks on its stack right. -/
theorem elseSeen_step {x : α} (hx : items[p]? = some x)
    (ih : ∀ frame ∈ chainStackAt kind items p,
      frame.elseSeen = true ↔ ElseBefore (items.map kind) p frame.head.2) :
    ∀ frame ∈ chainStackAt kind items (p + 1),
      frame.elseSeen = true ↔ ElseBefore (items.map kind) (p + 1) frame.head.2 := by
  intro frame hframe
  have hword : (items.map kind)[p]? = some (kind x) := by rw [List.getElem?_map, hx]; rfl
  rw [chainStackAt_succ hx] at hframe
  by_cases helse : kind x = .elseArm
  · -- The innermost frame gets its mark; the others keep theirs.
    cases hstack : chainStackAt kind items p with
    | nil => simp [hstack, chainStack, helse] at hframe
    | cons top outer =>
      have hinner := innermost_of_cons hstack
      rw [hstack] at ih hframe
      have hcases : frame = ⟨top.head, true⟩ ∨ frame ∈ outer := by
        simpa [chainStack, helse] using hframe
      rcases hcases with rfl | hframe
      · exact ⟨fun _ => ⟨p, Nat.lt_succ_self p, by rw [hword, helse], hinner⟩, fun _ => rfl⟩
      · rw [ih frame (List.mem_cons_of_mem top hframe), elseBefore_succ_iff]
        intro _ hframe'
        have hpairwise := chainStackAt_pairwise kind items p
        rw [hstack, List.map_cons, List.pairwise_cons] at hpairwise
        have hlt := hpairwise.1 frame.head (List.mem_map_of_mem hframe)
        exact Nat.ne_of_lt hlt (hframe'.unique hinner)
  · have hold : ∀ frame ∈ chainStackAt kind items p,
        frame.elseSeen = true ↔ ElseBefore (items.map kind) (p + 1) frame.head.2 := by
      intro frame hframe
      rw [ih frame hframe, elseBefore_succ_iff]
      intro hp
      rw [hword] at hp
      exact absurd (Option.some.inj hp) helse
    by_cases hif : kind x = .ifHead
    · have hcases : frame = ⟨(x, p), false⟩ ∨ frame ∈ chainStackAt kind items p := by
        simpa [chainStack, hif] using hframe
      rcases hcases with rfl | hframe
      · refine ⟨fun h => absurd h (by simp), ?_⟩
        rintro ⟨q, hq, _, hinner⟩
        have hlt : p < q := hinner.1.1
        omega
      · exact hold frame hframe
    · apply hold
      cases hk : kind x <;> cases hstack : chainStackAt kind items p <;>
        simp_all [chainStack]

/-- A frame is marked when an `ELSE` has belonged to its `IF`. -/
theorem elseSeen_iff (kind : α → Keyword) (items : List α) (p : Nat) :
    ∀ frame ∈ chainStackAt kind items p,
      frame.elseSeen = true ↔ ElseBefore (items.map kind) p frame.head.2 := by
  induction p with
  | zero => simp [chainStackAt]
  | succ p ih =>
    cases hx : items[p]? with
    | some x => exact elseSeen_step hx ih
    | none =>
      intro frame hframe
      rw [chainStackAt_end hx] at hframe
      rw [ih frame hframe, elseBefore_succ_iff]
      intro hp
      rw [List.getElem?_map, hx] at hp
      contradiction

/-- The verdict of the chain check on an item is what there is to blame it for. -/
theorem chainVerdict?_iff_blamed {x : α} (hx : items[p]? = some x) {spec : Spec} :
    chainVerdict? (fun q => kind q.1) (chainStackAt kind items p) (x, p) = some spec ↔
      spec ≠ .missingEndif ∧ Blamed (items.map kind) spec p := by
  have hword : (items.map kind)[p]? = some (kind x) := by rw [List.getElem?_map, hx]; rfl
  constructor
  · intro h
    cases hstack : chainStackAt kind items p with
    | nil =>
      have hnone := chainStackAt_eq_nil_iff.mp hstack
      rw [hstack] at h
      cases hk : kind x <;> rw [hk] at hword <;> simp [chainVerdict?, hk] at h <;> subst h
      · exact ⟨by decide, .unexpectedElseif hword hnone⟩
      · exact ⟨by decide, .unexpectedElse hword hnone⟩
      · exact ⟨by decide, .unmatchedEndif hword hnone⟩
    | cons frame outer =>
      rw [hstack] at h
      cases hk : kind x <;> simp [chainVerdict?, hk] at h
      obtain ⟨hseen, rfl⟩ := h
      have hmem : frame ∈ chainStackAt kind items p := hstack ▸ List.mem_cons_self
      obtain ⟨q, hq, helse, hinner⟩ := (elseSeen_iff kind items p frame hmem).mp hseen
      rw [hk] at hword
      exact ⟨by decide, .duplicateElse hword hq helse hinner (innermost_of_cons hstack)⟩
  · rintro ⟨hspec, hblamed⟩
    have hkind : ∀ {k}, (items.map kind)[p]? = some k → kind x = k :=
      fun hp => Option.some.inj (hword.symm.trans hp)
    cases hblamed with
    | unexpectedElseif hp hnone =>
      rw [chainStackAt_eq_nil_iff.mpr hnone]
      simp [chainVerdict?, hkind hp]
    | unexpectedElse hp hnone =>
      rw [chainStackAt_eq_nil_iff.mpr hnone]
      simp [chainVerdict?, hkind hp]
    | unmatchedEndif hp hnone =>
      rw [chainStackAt_eq_nil_iff.mpr hnone]
      simp [chainVerdict?, hkind hp]
    | missingEndif hp hnone => contradiction
    | @duplicateElse q _ i hp hq helse hinnerq hinnerp =>
      cases hstack : chainStackAt kind items p with
      | nil => exact absurd hinnerp.1 (chainStackAt_eq_nil_iff.mp hstack i)
      | cons frame outer =>
        have hmem : frame ∈ chainStackAt kind items p := hstack ▸ List.mem_cons_self
        have hhead := (innermost_of_cons hstack).unique hinnerp
        have hseen := (elseSeen_iff kind items p frame hmem).mpr
          ⟨q, hq, helse, hhead.symm ▸ hinnerq⟩
        simp [chainVerdict?, hkind hp, hseen]

end

theorem mem_chainMarks_iff {stack : List (OpenIf α)} {items : List α} {f : Spec × α} :
    f ∈ chainMarks kind stack items ↔ ∃ front back, items = front ++ f.2 :: back ∧
      chainVerdict? kind (front.foldl (chainStack kind) stack) f.2 = some f.1 := by
  obtain ⟨spec, x⟩ := f
  induction items generalizing stack with
  | nil => simp [chainMarks]
  | cons item rest ih =>
    rw [chainMarks, List.mem_append, ih]
    constructor
    · rintro (h | ⟨front, back, rfl, hverdict⟩)
      · simp at h
        exact ⟨[], rest, by rw [h.2]; rfl, h.2 ▸ h.1⟩
      · exact ⟨item :: front, back, rfl, hverdict⟩
    · rintro ⟨front, back, hsplit, hverdict⟩
      cases front with
      | nil =>
        cases hsplit
        left
        simpa using hverdict
      | cons y front =>
        cases hsplit
        exact Or.inr ⟨front, back, rfl, hverdict⟩

/-- What is reported along the way stands in the order of the stream, each item at most once. -/
theorem chainMarks_sublist (stack : List (OpenIf α)) (items : List α) :
    ((chainMarks kind stack items).map (·.2)).Sublist items := by
  induction items generalizing stack with
  | nil => simp [chainMarks]
  | cons item rest ih =>
    have hrest := ih (chainStack kind stack item)
    cases hverdict : chainVerdict? kind stack item with
    | none => simpa [chainMarks, hverdict] using hrest.cons item
    | some spec => simpa [chainMarks, hverdict] using hrest

theorem mem_chainMarks_zipIdx {items : List α} {f : Spec × α × Nat} :
    f ∈ chainMarks (fun q => kind q.1) [] items.zipIdx ↔
      f.2 ∈ items.zipIdx ∧ f.1 ≠ .missingEndif ∧ Blamed (items.map kind) f.1 f.2.2 := by
  obtain ⟨spec, x, p⟩ := f
  rw [mem_chainMarks_iff, List.mk_mem_zipIdx_iff_getElem?]
  constructor
  · rintro ⟨front, back, hsplit, hverdict⟩
    obtain ⟨above, below, rfl, rfl, hbelow⟩ := List.zipIdx_eq_append_iff.mp hsplit
    obtain ⟨y, more, rfl⟩ : ∃ y more, below = y :: more := by
      cases below with
      | nil => simp at hbelow
      | cons y more => exact ⟨y, more, rfl⟩
    simp at hbelow
    obtain ⟨⟨rfl, rfl⟩, _⟩ := hbelow
    have hx : (above ++ x :: more)[above.length]? = some x := by simp
    refine ⟨hx, (chainVerdict?_iff_blamed hx).mp ?_⟩
    rwa [chainStackAt, List.take_left]
  · rintro ⟨hx, hblamed⟩
    exact ⟨_, _, (zipIdx_split hx).2, (chainVerdict?_iff_blamed hx).mpr hblamed⟩

/-- The reports along the way come first, and then the `IF`s that the pair check leaves unclosed. -/
theorem chainFaults_eq (items : List α) :
    chainFaults kind items = chainMarks kind [] items ++
      (pairFaults kind .ifHead .endif items).unclosed.map (Spec.missingEndif, ·) := by
  have hheads := congrArg List.reverse (@foldl_chainStack_heads α kind [] items)
  rw [List.reverse_reverse, List.map_nil] at hheads
  rw [chainFaults, chainFrom_eq, pairFaults, ← hheads, ← List.map_reverse, List.map_map]
  rfl

theorem mem_missing_zipIdx {items : List α} {f : Spec × α × Nat} :
    f ∈ (pairFaults (fun q => kind q.1) .ifHead .endif items.zipIdx).unclosed.map
        (Spec.missingEndif, ·) ↔
      f.2 ∈ items.zipIdx ∧ f.1 = .missingEndif ∧ Blamed (items.map kind) f.1 f.2.2 := by
  obtain ⟨spec, q⟩ := f
  rw [unclosed_zipIdx (by decide)]
  simp only [List.mem_map, List.mem_filter, decide_eq_true_eq, Prod.mk.injEq]
  constructor
  · rintro ⟨_, ⟨hq, hunclosed⟩, rfl, rfl⟩
    exact ⟨hq, rfl, blamed_missingEndif_iff.mpr hunclosed⟩
  · rintro ⟨hq, rfl, hblamed⟩
    exact ⟨q, ⟨hq, blamed_missingEndif_iff.mp hblamed⟩, rfl, rfl⟩

theorem checkChain_zipIdx (severity : Option Severity) (rule : Option String)
    (tokens : List Token) :
    checkChain severity rule tokens =
      (chainFaults (fun q => q.1.kind) tokens.zipIdx).map
        fun f => f.1.report severity rule f.2.1.range := by
  have hmap := @chainFrom_map Token (Token × Nat) Token.kind Prod.fst [] tokens.zipIdx
  rw [List.map_nil, List.zipIdx_map_fst] at hmap
  rw [checkChain, chainFaults, hmap, reportFaults, List.map_map]
  rfl

/-- The chain check is silent exactly on sequences of chains. In general it blames each keyword for
what it is in the matching of `IF`s and `ENDIF`s, which is last in, first out: first, in the order
of the stream, the keywords that something is wrong with where they stand, then, in this order
again, the `IF`s without an `ENDIF`; and no keyword twice. -/
theorem checkChain_blames (severity : Option Severity) (rule : Option String)
    (tokens : List Token) :
    (checkChain severity rule tokens = [] ↔
      Phrase.chains.Derives ((tokens.map Token.kind).filter Keyword.inChain)) ∧
    (∀ i j, Closes (tokens.map Token.kind) i j ↔
      (tokens.map Token.kind)[j]? = some .endif ∧ InnermostOpen (tokens.map Token.kind) j i) ∧
    ∃ along missing : List (Spec × Token × Nat),
      checkChain severity rule tokens =
        (along ++ missing).map (fun f => f.1.report severity rule f.2.1.range) ∧
      (∀ f, f ∈ along ↔ f.2 ∈ tokens.zipIdx ∧ f.1 ≠ .missingEndif ∧
        Blamed (tokens.map Token.kind) f.1 f.2.2) ∧
      (∀ f, f ∈ missing ↔ f.2 ∈ tokens.zipIdx ∧ f.1 = .missingEndif ∧
        Blamed (tokens.map Token.kind) f.1 f.2.2) ∧
      along.Pairwise (fun f g => f.2.2 < g.2.2) ∧
      missing.Pairwise (fun f g => f.2.2 < g.2.2) ∧
      ((along ++ missing).map (·.2.2)).Nodup := by
  have hsilent : checkChain severity rule tokens = [] ↔ chainFaults Token.kind tokens = [] := by
    rw [checkChain, reportFaults, List.map_eq_nil_iff]
  refine ⟨hsilent.trans chainFaults_eq_nil_iff, fun i j => closes_iff_innermost,
    chainMarks (fun q => q.1.kind) [] tokens.zipIdx,
    (pairFaults (fun q => q.1.kind) .ifHead .endif tokens.zipIdx).unclosed.map
      (Spec.missingEndif, ·), ?_⟩
  have halong := pairwise_snd_of_sublist
    (@chainMarks_sublist (Token × Nat) (fun q => q.1.kind) [] tokens.zipIdx)
  have hbehind := pairwise_snd_of_sublist
    (@pairFaults_sublist (Token × Nat) (fun q => q.1.kind) .ifHead .endif tokens.zipIdx).2
  rw [List.pairwise_map] at halong
  refine ⟨?_, fun f => mem_chainMarks_zipIdx, fun f => mem_missing_zipIdx, halong,
    List.pairwise_map.mpr hbehind, ?_⟩
  · rw [checkChain_zipIdx, chainFaults_eq]
  · rw [List.map_append, List.nodup_append]
    refine ⟨List.pairwise_map.mpr (halong.imp Nat.ne_of_lt),
      List.pairwise_map.mpr (List.pairwise_map.mpr (hbehind.imp Nat.ne_of_lt)), ?_⟩
    intro p hp p' hp' hsame
    obtain ⟨f, hf, rfl⟩ := List.mem_map.mp hp
    obtain ⟨g, hg, rfl⟩ := List.mem_map.mp hp'
    obtain ⟨_, hspec, hblamed⟩ := mem_chainMarks_zipIdx.mp hf
    obtain ⟨_, hmissing, hblamed'⟩ := mem_missing_zipIdx.mp hg
    rw [hmissing] at hblamed'
    exact hspec (hblamed.eq_missingEndif (hsame ▸ (blamed_missingEndif_iff.mp hblamed').1))

end CalcLint
