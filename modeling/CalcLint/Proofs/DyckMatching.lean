import CalcLint.Proofs.Matching
import Mathlib.Combinatorics.Enumerative.DyckWord
import Mathlib.Data.List.Sigma

/-!
# The pair check computes the Dyck matching

The pair check keeps a stack and nothing else. Its faults have a description without one: an opener
stays unclosed when no stretch behind it has more closers than openers, and a closer is stray when
every stretch that ends with it has. Both come from the balance of a stretch, which is the number of
its stray closers less the number of its unclosed openers.
-/
namespace CalcLint

variable {α : Type} {kind : α → Keyword} {opener closer : Keyword}

theorem pairFaults_eq_nil_iff {items : List α} :
    pairFaults kind opener closer items = ⟨[], []⟩ ↔
      (pairFaults kind opener closer items).stray = [] ∧
        (pairFaults kind opener closer items).unclosed = [] := by
  cases pairFaults kind opener closer items
  simp

/-- Stray closers less unclosed openers are closers less openers. -/
theorem pairFaults_count (h : opener ≠ closer) (items : List α) :
    (pairFaults kind opener closer items).stray.length + (items.map kind).count opener =
      (pairFaults kind opener closer items).unclosed.length + (items.map kind).count closer := by
  induction items with
  | nil => simp
  | cons item rest ih =>
    by_cases ho : kind item = opener
    · rw [pairFaults_opener ho]
      simp [ho, h]
      omega
    by_cases hc : kind item = closer
    · rw [pairFaults_closer ho hc]
      simp [hc, h.symm]
      omega
    · rw [pairFaults_other ho hc]
      simpa [ho, hc] using ih

/-- In front of the first stray closer everything is matched. -/
theorem exists_first_stray {items : List α} (h : (pairFaults kind opener closer items).stray ≠ []) :
    ∃ front x back, items = front ++ x :: back ∧ kind x ≠ opener ∧ kind x = closer ∧
      pairFaults kind opener closer front = ⟨[], []⟩ := by
  induction items using List.reverseRecOn with
  | nil => simp at h
  | append_singleton items x ih =>
    by_cases hstray : (pairFaults kind opener closer items).stray = []
    · rw [pairFaults_append, hstray] at h
      by_cases ho : kind x = opener
      · simp [pairFaults_opener ho] at h
      by_cases hc : kind x = closer
      · have hopen : (pairFaults kind opener closer items).unclosed = [] := by
          simpa [pairFaults_closer ho hc] using h
        exact ⟨items, x, [], rfl, ho, hc, pairFaults_eq_nil_iff.mpr ⟨hstray, hopen⟩⟩
      · simp [pairFaults_other ho hc] at h
    · obtain ⟨front, y, back, rfl, hfront⟩ := ih hstray
      exact ⟨front, y, back ++ [x], by simp, hfront⟩

/-- Behind the last unclosed opener everything is matched. -/
theorem exists_last_unclosed {items : List α}
    (h : (pairFaults kind opener closer items).unclosed ≠ []) :
    ∃ front x back, items = front ++ x :: back ∧ kind x = opener ∧
      pairFaults kind opener closer back = ⟨[], []⟩ := by
  induction items with
  | nil => simp at h
  | cons item rest ih =>
    by_cases hopen : (pairFaults kind opener closer rest).unclosed = []
    · by_cases ho : kind item = opener
      · rw [pairFaults_opener ho, hopen] at h
        have hstray : (pairFaults kind opener closer rest).stray = [] := by
          by_contra hne
          have hpos := List.length_pos_iff.mpr hne
          rw [Nat.sub_eq_zero_of_le hpos] at h
          simp at h
        exact ⟨[], item, rest, rfl, ho, pairFaults_eq_nil_iff.mpr ⟨hstray, hopen⟩⟩
      by_cases hc : kind item = closer
      · simp [pairFaults_closer ho hc, hopen] at h
      · simp [pairFaults_other ho hc, hopen] at h
    · obtain ⟨front, x, back, rfl, hback⟩ := ih hopen
      exact ⟨item :: front, x, back, rfl, hback⟩

/-- No closer is stray when no prefix has more closers than openers. -/
theorem stray_eq_nil_iff (h : opener ≠ closer) {items : List α} :
    (pairFaults kind opener closer items).stray = [] ↔
      ∀ k, ((items.map kind).take k).count closer ≤ ((items.map kind).take k).count opener := by
  constructor
  · intro hstray k
    have hsplit := @pairFaults_append α kind opener closer (items.take k) (items.drop k)
    rw [List.take_append_drop] at hsplit
    rw [hsplit, List.append_eq_nil_iff] at hstray
    have hcount := @pairFaults_count α kind opener closer h (items.take k)
    rw [hstray.1, List.length_nil, List.map_take] at hcount
    omega
  · intro hle
    by_contra hstray
    obtain ⟨front, x, back, rfl, _, hc, hfront⟩ := exists_first_stray hstray
    have hcount := @pairFaults_count α kind opener closer h front
    have hshort : ((front ++ x :: back).map kind).take (front.length + 1) =
        front.map kind ++ [closer] := by
      simp [List.take_append, hc]
    have hlast := hle (front.length + 1)
    rw [hshort] at hlast
    rw [hfront] at hcount
    simp [h.symm] at hlast hcount
    omega

/-- No opener is unclosed when no suffix has more openers than closers. -/
theorem unclosed_eq_nil_iff (h : opener ≠ closer) {items : List α} :
    (pairFaults kind opener closer items).unclosed = [] ↔
      ∀ k, ((items.map kind).drop k).count opener ≤ ((items.map kind).drop k).count closer := by
  constructor
  · intro hopen k
    have hsplit := @pairFaults_append α kind opener closer (items.take k) (items.drop k)
    rw [List.take_append_drop] at hsplit
    rw [hsplit, List.append_eq_nil_iff] at hopen
    have hcount := @pairFaults_count α kind opener closer h (items.drop k)
    rw [hopen.2, List.length_nil, List.map_drop] at hcount
    omega
  · intro hle
    by_contra hopen
    obtain ⟨front, x, back, rfl, ho, hback⟩ := exists_last_unclosed hopen
    have hcount := @pairFaults_count α kind opener closer h back
    have hsuffix : ((front ++ x :: back).map kind).drop front.length = opener :: back.map kind := by
      simp [ho]
    have hlast := hle front.length
    rw [hsuffix] at hlast
    rw [hback] at hcount
    simp [h] at hlast hcount
    omega

section
variable {front back : List α} {x : α}

/-- An opener stays unclosed when no closer behind it is left over for it. -/
theorem mem_unclosed_iff (h : (front ++ x :: back).Nodup) :
    x ∈ (pairFaults kind opener closer (front ++ x :: back)).unclosed ↔
      kind x = opener ∧ (pairFaults kind opener closer back).stray = [] := by
  obtain ⟨_, hback, hdisjoint⟩ := List.nodup_append.mp h
  have hfront : x ∉ (pairFaults kind opener closer front).unclosed := fun hx =>
    hdisjoint x ((pairFaults_sublist front).2.subset hx) x List.mem_cons_self rfl
  have hlater : x ∉ (pairFaults kind opener closer back).unclosed := fun hx =>
    (List.nodup_cons.mp hback).1 ((pairFaults_sublist back).2.subset hx)
  have htake : ∀ n, x ∉ (pairFaults kind opener closer front).unclosed.take n :=
    fun n hx => hfront (List.mem_of_mem_take hx)
  rw [pairFaults_append, List.mem_append, or_iff_right (htake _)]
  by_cases ho : kind x = opener
  · cases hstray : (pairFaults kind opener closer back).stray <;>
      simp [pairFaults_opener ho, hstray, ho, hlater]
  by_cases hc : kind x = closer
  · simp [pairFaults_closer ho hc, ho, hlater]
  · simp [pairFaults_other ho hc, ho, hlater]

/-- A closer is stray when no opener in front of it is left over for it. -/
theorem mem_stray_iff (h : (front ++ x :: back).Nodup) (hkinds : opener ≠ closer) :
    x ∈ (pairFaults kind opener closer (front ++ x :: back)).stray ↔
      kind x = closer ∧ (pairFaults kind opener closer front).unclosed = [] := by
  obtain ⟨_, hback, hdisjoint⟩ := List.nodup_append.mp h
  have hfront : x ∉ (pairFaults kind opener closer front).stray := fun hx =>
    hdisjoint x ((pairFaults_sublist front).1.subset hx) x List.mem_cons_self rfl
  have hlater : x ∉ (pairFaults kind opener closer back).stray := fun hx =>
    (List.nodup_cons.mp hback).1 ((pairFaults_sublist back).1.subset hx)
  have hdrop : ∀ n, x ∉ (pairFaults kind opener closer back).stray.drop n :=
    fun n hx => hlater (List.mem_of_mem_drop hx)
  rw [pairFaults_append, List.mem_append, or_iff_right hfront]
  by_cases ho : kind x = opener
  · simp [pairFaults_opener ho, ho, hkinds, hdrop]
  by_cases hc : kind x = closer
  · cases hopen : (pairFaults kind opener closer front).unclosed <;>
      simp [pairFaults_closer ho hc, hc, hdrop]
  · simp [pairFaults_other ho hc, hc, hdrop]

end

/-- The opener at position `i` has no stretch behind it with more closers than openers. -/
def UnclosedAt (opener closer : Keyword) (word : List Keyword) (i : Nat) : Prop :=
  word[i]? = some opener ∧ ∀ j < word.length, i < j →
    (word.extract (i + 1) (j + 1)).count closer ≤ (word.extract (i + 1) (j + 1)).count opener

/-- Every stretch that ends with the closer at position `j` has more closers than openers. -/
def StrayAt (opener closer : Keyword) (word : List Keyword) (j : Nat) : Prop :=
  word[j]? = some closer ∧ ∀ i ≤ j,
    (word.extract i (j + 1)).count opener < (word.extract i (j + 1)).count closer

instance (opener closer : Keyword) (word : List Keyword) (i : Nat) :
    Decidable (UnclosedAt opener closer word i) :=
  inferInstanceAs (Decidable (_ ∧ _))

instance (opener closer : Keyword) (word : List Keyword) (j : Nat) :
    Decidable (StrayAt opener closer word j) :=
  inferInstanceAs (Decidable (_ ∧ _))

/-- The stretches behind position `i` are the prefixes of what follows it. -/
theorem unclosedAt_iff {word : List Keyword} {i : Nat} :
    UnclosedAt opener closer word i ↔ word[i]? = some opener ∧
      ∀ k, ((word.drop (i + 1)).take k).count closer ≤
        ((word.drop (i + 1)).take k).count opener := by
  apply and_congr_right
  intro _
  constructor
  · intro hle k
    by_cases hzero : min k (word.length - (i + 1)) = 0
    · rw [List.take_eq_take_min, List.length_drop, hzero]
      simp
    · have hlast := hle (i + min k (word.length - (i + 1))) (by omega) (by omega)
      have hwidth : i + min k (word.length - (i + 1)) + 1 - (i + 1) =
          min k (word.length - (i + 1)) := by omega
      rwa [List.extract, hwidth, ← List.length_drop, ← List.take_eq_take_min] at hlast
  · intro hle j _ _
    exact hle (j + 1 - (i + 1))

/-- The stretches up to a closer at position `j` are the suffixes of what stands in front of it,
and the closer. -/
theorem strayAt_iff (h : opener ≠ closer) {word : List Keyword} {j : Nat} :
    StrayAt opener closer word j ↔ word[j]? = some closer ∧
      ∀ k, ((word.take j).drop k).count opener ≤ ((word.take j).drop k).count closer := by
  apply and_congr_right
  intro hj
  have hstretch : ∀ i ≤ j, word.extract i (j + 1) = (word.take j).drop i ++ [closer] := by
    intro i hi
    have hlt : j < word.length := (List.getElem?_eq_some_iff.mp hj).1
    have hlength : (word.take j).length = j := List.length_take_of_le (Nat.le_of_lt hlt)
    rw [List.extract, List.take_drop, Nat.add_sub_of_le (by omega), List.take_add_one, hj,
      Option.toList_some, List.drop_append_of_le_length (by omega)]
  constructor
  · intro hlt k
    by_cases hk : k ≤ j
    · have hstep := hlt k hk
      rw [hstretch k hk] at hstep
      simp [h.symm] at hstep
      omega
    · rw [List.drop_of_length_le (by rw [List.length_take]; omega)]
      simp
  · intro hle i hi
    rw [hstretch i hi]
    have hstep := hle i
    simp [h.symm]
    omega

/-- What stands at a position, with what stands in front of it and behind it. -/
theorem zipIdx_split {items : List α} {x : α} {i : Nat} (h : items[i]? = some x) :
    items = items.take i ++ x :: items.drop (i + 1) ∧
      items.zipIdx = (items.take i).zipIdx ++ (x, i) :: (items.drop (i + 1)).zipIdx (i + 1) := by
  obtain ⟨hlt, rfl⟩ := List.getElem?_eq_some_iff.mp h
  have hsplit : items = items.take i ++ items[i] :: items.drop (i + 1) := by
    rw [← List.drop_eq_getElem_cons hlt, List.take_append_drop]
  refine ⟨hsplit, ?_⟩
  have hlength : (items.take i).length = i := List.length_take_of_le (Nat.le_of_lt hlt)
  calc items.zipIdx = (items.take i ++ items[i] :: items.drop (i + 1)).zipIdx := by rw [← hsplit]
    _ = _ := by rw [List.zipIdx_append, List.zipIdx_cons, hlength, Nat.zero_add]

theorem zipIdx_nodup (items : List α) : items.zipIdx.Nodup :=
  List.Nodup.of_map Prod.snd (List.nodup_zipIdx_map_snd items)

theorem map_kind_zipIdx (items : List α) (n : Nat) :
    (items.zipIdx n).map (fun p => kind p.1) = items.map kind := by
  have h := congrArg (List.map kind) (List.zipIdx_map_fst n items)
  rwa [List.map_map] at h

section
variable {items : List α} {p : α × Nat}

theorem mem_unclosed_zipIdx (h : opener ≠ closer) (hp : p ∈ items.zipIdx) :
    p ∈ (pairFaults (fun q => kind q.1) opener closer items.zipIdx).unclosed ↔
      UnclosedAt opener closer (items.map kind) p.2 := by
  obtain ⟨x, i⟩ := p
  have hx : items[i]? = some x := List.mk_mem_zipIdx_iff_getElem?.mp hp
  have hsplit := (zipIdx_split hx).2
  have hnodup := hsplit ▸ zipIdx_nodup items
  rw [hsplit, mem_unclosed_iff hnodup, stray_eq_nil_iff h, map_kind_zipIdx, List.map_drop,
    unclosedAt_iff, List.getElem?_map, hx]
  simp

theorem mem_stray_zipIdx (h : opener ≠ closer) (hp : p ∈ items.zipIdx) :
    p ∈ (pairFaults (fun q => kind q.1) opener closer items.zipIdx).stray ↔
      StrayAt opener closer (items.map kind) p.2 := by
  obtain ⟨x, i⟩ := p
  have hx : items[i]? = some x := List.mk_mem_zipIdx_iff_getElem?.mp hp
  have hsplit := (zipIdx_split hx).2
  have hnodup := hsplit ▸ zipIdx_nodup items
  rw [hsplit, mem_stray_iff hnodup h, unclosed_eq_nil_iff h, map_kind_zipIdx, List.map_take,
    strayAt_iff h, List.getElem?_map, hx]
  simp

/-- A part of a stream without repetitions, in its order, is a filter of the stream. -/
theorem eq_filter_of_sublist {part stream : List α} (hpart : part.Sublist stream)
    (hnodup : stream.Nodup) {p : α → Bool} (hp : ∀ x ∈ stream, x ∈ part ↔ p x = true) :
    part = stream.filter p := by
  induction hpart with
  | slnil => rfl
  | cons x hrest ih =>
    obtain ⟨hx, hnodup⟩ := List.nodup_cons.mp hnodup
    have hskip : ¬ p x = true := fun hpx =>
      hx (hrest.subset ((hp x List.mem_cons_self).mpr hpx))
    rw [List.filter_cons_of_neg hskip]
    exact ih hnodup (fun y hy => hp y (List.mem_cons_of_mem x hy))
  | cons_cons x hrest ih =>
    obtain ⟨hx, hnodup⟩ := List.nodup_cons.mp hnodup
    rw [List.filter_cons_of_pos ((hp x List.mem_cons_self).mp List.mem_cons_self)]
    congr 1
    apply ih hnodup
    intro y hy
    have hne : y ≠ x := fun heq => hx (heq ▸ hy)
    simpa [hne] using hp y (List.mem_cons_of_mem x hy)

theorem unclosed_zipIdx (h : opener ≠ closer) (items : List α) :
    (pairFaults (fun q => kind q.1) opener closer items.zipIdx).unclosed =
      items.zipIdx.filter fun p => UnclosedAt opener closer (items.map kind) p.2 :=
  eq_filter_of_sublist (pairFaults_sublist _).2 (zipIdx_nodup items)
    (fun _ hp => (mem_unclosed_zipIdx h hp).trans (decide_eq_true_iff).symm)

theorem stray_zipIdx (h : opener ≠ closer) (items : List α) :
    (pairFaults (fun q => kind q.1) opener closer items.zipIdx).stray =
      items.zipIdx.filter fun p => StrayAt opener closer (items.map kind) p.2 :=
  eq_filter_of_sublist (pairFaults_sublist _).1 (zipIdx_nodup items)
    (fun _ hp => (mem_stray_zipIdx h hp).trans (decide_eq_true_iff).symm)

end

/-- A keyword as a bracket: an opener goes up, a closer goes down. -/
def bracket? (opener closer k : Keyword) : Option DyckStep :=
  if k = opener then some .U else if k = closer then some .D else none

/-- The openers and closers of a stream, as brackets. -/
def brackets (opener closer : Keyword) (word : List Keyword) : List DyckStep :=
  word.filterMap (bracket? opener closer)

def Balanced (opener closer : Keyword) (word : List Keyword) : Prop :=
  ∃ w : DyckWord, w.toList = brackets opener closer word

theorem count_brackets (h : opener ≠ closer) (word : List Keyword) :
    (brackets opener closer word).count .U = word.count opener ∧
      (brackets opener closer word).count .D = word.count closer := by
  induction word with
  | nil => simp [brackets]
  | cons k rest ih =>
    by_cases ho : k = opener
    · simpa [brackets, bracket?, ho, h] using ih
    by_cases hc : k = closer
    · simpa [brackets, bracket?, hc, h.symm] using ih
    · simpa [brackets, bracket?, ho, hc] using ih

theorem balanced_iff (h : opener ≠ closer) {word : List Keyword} :
    Balanced opener closer word ↔ word.count opener = word.count closer ∧
      ∀ k, (word.take k).count closer ≤ (word.take k).count opener := by
  constructor
  · rintro ⟨w, hw⟩
    constructor
    · have hcount := w.count_U_eq_count_D
      rwa [hw, (count_brackets h word).1, (count_brackets h word).2] at hcount
    · intro k
      obtain ⟨n, hn⟩ : ∃ n, brackets opener closer (word.take k) = w.toList.take n := by
        rw [hw]
        exact ⟨_, List.prefix_iff_eq_take.mp ((List.take_prefix k word).filterMap _)⟩
      have hle := w.count_D_le_count_U n
      rwa [← hn, (count_brackets h _).1, (count_brackets h _).2] at hle
  · rintro ⟨hcount, hle⟩
    refine ⟨⟨brackets opener closer word, ?_, ?_⟩, rfl⟩
    · rw [(count_brackets h word).1, (count_brackets h word).2, hcount]
    · intro n
      obtain ⟨front, hfront, hn⟩ := List.prefix_filterMap_iff.mp
        (List.take_prefix n (brackets opener closer word))
      have hk := hle front.length
      rw [← List.prefix_iff_eq_take.mp hfront] at hk
      rw [hn]
      exact (count_brackets h front).1 ▸ (count_brackets h front).2 ▸ hk

/-- The pair check finds nothing to report when the brackets are balanced. -/
theorem pairFaults_eq_nil_iff_balanced (h : opener ≠ closer) {items : List α} :
    pairFaults kind opener closer items = ⟨[], []⟩ ↔
      Balanced opener closer (items.map kind) := by
  have hcount := @pairFaults_count α kind opener closer h items
  rw [pairFaults_eq_nil_iff, balanced_iff h, stray_eq_nil_iff h, and_comm]
  apply and_congr_left
  intro hle
  rw [(stray_eq_nil_iff h).mpr hle, List.length_nil] at hcount
  rw [← List.length_eq_zero_iff]
  omega

/-- The closers of a stream that are stray, with their positions. -/
def PairCheck.strays (check : PairCheck) (tokens : List Token) : List (Token × Nat) :=
  tokens.zipIdx.filter fun p => StrayAt check.opener check.closer (tokens.map Token.kind) p.2

/-- The openers of a stream that stay unclosed, with their positions. -/
def PairCheck.unclosed (check : PairCheck) (tokens : List Token) : List (Token × Nat) :=
  tokens.zipIdx.filter fun p => UnclosedAt check.opener check.closer (tokens.map Token.kind) p.2

theorem checkPair_zipIdx (check : PairCheck) (severity : Option Severity) (rule : Option String)
    (tokens : List Token) :
    checkPair check severity rule tokens =
      ((pairFaults (fun p => p.1.kind) check.opener check.closer tokens.zipIdx).stray.map
          fun p => check.unmatched.report severity rule p.1.range) ++
        (pairFaults (fun p => p.1.kind) check.opener check.closer tokens.zipIdx).unclosed.map
          fun p => check.missing.report severity rule p.1.range := by
  have hmap := @pairFaults_map Token (Token × Nat) Token.kind check.opener check.closer Prod.fst
    tokens.zipIdx
  rw [List.zipIdx_map_fst] at hmap
  rw [checkPair, PairCheck.faults, hmap]
  simp [reportFaults, PairFaults.specified, Function.comp_def]

/-- The pair check reports the stray closers and then the unclosed openers of the Dyck matching,
each in the order of the stream. It is silent on balanced streams only, and it reports as many more
closers than openers as the stream has. -/
theorem checkPair_reports_dyck_faults (check : PairCheck) (h : check.opener ≠ check.closer)
    (severity : Option Severity) (rule : Option String) (tokens : List Token) :
    checkPair check severity rule tokens =
        ((check.strays tokens).map fun p => check.unmatched.report severity rule p.1.range) ++
        ((check.unclosed tokens).map fun p => check.missing.report severity rule p.1.range) ∧
      (checkPair check severity rule tokens = [] ↔
        Balanced check.opener check.closer (tokens.map Token.kind)) ∧
      ((check.strays tokens).length : Int) - (check.unclosed tokens).length =
        (tokens.map Token.kind).count check.closer -
          (tokens.map Token.kind).count check.opener := by
  have hstray := @stray_zipIdx Token Token.kind _ _ h tokens
  have hunclosed := @unclosed_zipIdx Token Token.kind _ _ h tokens
  rw [checkPair_zipIdx, PairCheck.strays, PairCheck.unclosed, ← hstray, ← hunclosed]
  refine ⟨rfl, ?_, ?_⟩
  · rw [List.append_eq_nil_iff, List.map_eq_nil_iff, List.map_eq_nil_iff, ← pairFaults_eq_nil_iff,
      pairFaults_eq_nil_iff_balanced h, map_kind_zipIdx]
  · have hcount := @pairFaults_count (Token × Nat) (fun p => p.1.kind) _ _ h tokens.zipIdx
    rw [map_kind_zipIdx] at hcount
    omega

/-- In `ENDFIX FIX FIX ENDFIX` the first token is a stray closer and the second an unclosed
opener. -/
theorem checkPair_reports_endfix_fix :
    ({} : PairCheck).opener ≠ ({} : PairCheck).closer ∧
      checkPair {} none none
          [⟨.endfix, 0, 0, "ENDFIX".toList⟩, ⟨.fix, 1, 0, "FIX".toList⟩,
            ⟨.fix, 2, 2, "FIX".toList⟩, ⟨.endfix, 3, 0, "ENDFIX".toList⟩] =
        [Spec.unmatchedEndfix.report none none (Range.onLine 0 0 6),
          Spec.missingEndfix.report none none (Range.onLine 1 0 3)] := by
  have hkinds : ({} : PairCheck).opener ≠ ({} : PairCheck).closer := by decide
  refine ⟨hkinds, ?_⟩
  rw [(checkPair_reports_dyck_faults {} hkinds none none _).1]
  decide

end CalcLint
