import CalcLint.Balance

/-!
# How the pair check composes

What the pair check finds in a stream is two lists: closers that look for an opener in front of the
stream, and openers that look for a closer behind it. Both are found segment by segment: the
closers a segment leaves stray use up the openers left unclosed in front of it. Everything said
about longer streams follows from this one law.
-/
namespace CalcLint

variable {α β : Type} {kind : α → Keyword} {opener closer : Keyword}

@[simp] theorem pairFrom_opener {item : α} (h : kind item = opener) (stack rest : List α) :
    pairFrom kind opener closer stack (item :: rest) =
      pairFrom kind opener closer (item :: stack) rest := by
  cases stack <;> simp only [pairFrom, if_pos h]

@[simp] theorem pairFrom_closer_cons {item : α} (ho : kind item ≠ opener) (hc : kind item = closer)
    (top : α) (outer rest : List α) :
    pairFrom kind opener closer (top :: outer) (item :: rest) =
      pairFrom kind opener closer outer rest := by
  simp only [pairFrom, if_neg ho, if_pos hc]

@[simp] theorem pairFrom_closer_nil {item : α} (ho : kind item ≠ opener) (hc : kind item = closer)
    (rest : List α) :
    pairFrom kind opener closer [] (item :: rest) =
      ⟨item :: (pairFaults kind opener closer rest).stray,
        (pairFaults kind opener closer rest).unclosed⟩ := by
  simp only [pairFrom, if_neg ho, if_pos hc, pairFaults]

@[simp] theorem pairFrom_other {item : α} (ho : kind item ≠ opener) (hc : kind item ≠ closer)
    (stack rest : List α) :
    pairFrom kind opener closer stack (item :: rest) =
      pairFrom kind opener closer stack rest := by
  cases stack <;> simp only [pairFrom, if_neg ho, if_neg hc]

@[simp] theorem pairFaults_nil : pairFaults kind opener closer ([] : List α) = ⟨[], []⟩ := rfl

/-- A stack in front of a stream loses as many openers as the stream has stray closers. -/
theorem pairFrom_eq (stack items : List α) :
    pairFrom kind opener closer stack items =
      ⟨(pairFaults kind opener closer items).stray.drop stack.length,
        (stack.drop (pairFaults kind opener closer items).stray.length).reverse ++
          (pairFaults kind opener closer items).unclosed⟩ := by
  induction items generalizing stack with
  | nil => simp [pairFrom]
  | cons item rest ih =>
    by_cases ho : kind item = opener
    · have hone : pairFaults kind opener closer (item :: rest) =
          pairFrom kind opener closer [item] rest := pairFrom_opener ho [] rest
      rw [pairFrom_opener ho, hone, ih (item :: stack), ih [item]]
      cases (pairFaults kind opener closer rest).stray <;> simp
    by_cases hc : kind item = closer
    · have hone : pairFaults kind opener closer (item :: rest) =
          ⟨item :: (pairFaults kind opener closer rest).stray,
            (pairFaults kind opener closer rest).unclosed⟩ := pairFrom_closer_nil ho hc rest
      rw [hone]
      cases stack with
      | nil => simp [pairFrom_closer_nil ho hc]
      | cons top outer => simp [pairFrom_closer_cons ho hc, ih outer]
    · have hone : pairFaults kind opener closer (item :: rest) =
          pairFaults kind opener closer rest := pairFrom_other ho hc [] rest
      rw [pairFrom_other ho hc, hone, ih stack]

theorem pairFrom_append (stack xs ys : List α) :
    pairFrom kind opener closer stack (xs ++ ys) =
      ⟨(pairFrom kind opener closer stack xs).stray ++
          (pairFrom kind opener closer (pairFrom kind opener closer stack xs).unclosed.reverse
            ys).stray,
        (pairFrom kind opener closer (pairFrom kind opener closer stack xs).unclosed.reverse
          ys).unclosed⟩ := by
  induction xs generalizing stack with
  | nil => simp [pairFrom]
  | cons item rest ih =>
    rw [List.cons_append]
    by_cases ho : kind item = opener
    · simp only [pairFrom_opener ho, ih]
    by_cases hc : kind item = closer
    · cases stack with
      | nil => simp only [pairFrom_closer_nil ho hc, pairFaults, ih, List.cons_append]
      | cons top outer => simp only [pairFrom_closer_cons ho hc, ih]
    · simp only [pairFrom_other ho hc, ih]

/-- The stray closers of the second part use up the unclosed openers of the first, the latest
first. -/
theorem pairFaults_append (xs ys : List α) :
    pairFaults kind opener closer (xs ++ ys) =
      ⟨(pairFaults kind opener closer xs).stray ++
          (pairFaults kind opener closer ys).stray.drop
            (pairFaults kind opener closer xs).unclosed.length,
        (pairFaults kind opener closer xs).unclosed.take
            ((pairFaults kind opener closer xs).unclosed.length -
              (pairFaults kind opener closer ys).stray.length) ++
          (pairFaults kind opener closer ys).unclosed⟩ := by
  have h := @pairFrom_append α kind opener closer [] xs ys
  rw [pairFrom_eq (pairFrom kind opener closer [] xs).unclosed.reverse] at h
  simpa [pairFaults, List.drop_reverse] using h

theorem pairFaults_opener {item : α} (h : kind item = opener) (rest : List α) :
    pairFaults kind opener closer (item :: rest) =
      ⟨(pairFaults kind opener closer rest).stray.drop 1,
        [item].take (1 - (pairFaults kind opener closer rest).stray.length) ++
          (pairFaults kind opener closer rest).unclosed⟩ := by
  have hone : pairFaults kind opener closer [item] = ⟨[], [item]⟩ := pairFrom_opener h [] []
  rw [← List.singleton_append, pairFaults_append, hone]
  simp

@[simp] theorem pairFaults_closer {item : α} (ho : kind item ≠ opener) (hc : kind item = closer)
    (rest : List α) :
    pairFaults kind opener closer (item :: rest) =
      ⟨item :: (pairFaults kind opener closer rest).stray,
        (pairFaults kind opener closer rest).unclosed⟩ :=
  pairFrom_closer_nil ho hc rest

@[simp] theorem pairFaults_other {item : α} (ho : kind item ≠ opener) (hc : kind item ≠ closer)
    (rest : List α) :
    pairFaults kind opener closer (item :: rest) = pairFaults kind opener closer rest :=
  pairFrom_other ho hc [] rest

/-- In a stream without openers every closer is stray. -/
theorem pairFaults_of_no_opener {items : List α} (h : ∀ x ∈ items, kind x ≠ opener) :
    pairFaults kind opener closer items = ⟨items.filter (kind · = closer), []⟩ := by
  induction items with
  | nil => rfl
  | cons item rest ih =>
    have hrest := ih (fun x hx => h x (List.mem_cons_of_mem item hx))
    have ho : kind item ≠ opener := h item List.mem_cons_self
    by_cases hc : kind item = closer
    · simp [pairFaults_closer ho hc, hrest, hc]
    · simp [pairFaults_other ho hc, hrest, hc]

/-- A renaming of the items that keeps their kinds renames the faults. -/
theorem pairFaults_map (f : β → α) (items : List β) :
    pairFaults kind opener closer (items.map f) =
      ⟨(pairFaults (fun x => kind (f x)) opener closer items).stray.map f,
        (pairFaults (fun x => kind (f x)) opener closer items).unclosed.map f⟩ := by
  induction items with
  | nil => rfl
  | cons item rest ih =>
    rw [List.map_cons]
    by_cases ho : kind (f item) = opener
    · rw [pairFaults_opener ho, ih, @pairFaults_opener β (fun x => kind (f x)) _ _ _ ho]
      simp [List.map_take]
    by_cases hc : kind (f item) = closer
    · rw [pairFaults_closer ho hc, ih, @pairFaults_closer β (fun x => kind (f x)) _ _ _ ho hc]
      simp
    · rw [pairFaults_other ho hc, ih, @pairFaults_other β (fun x => kind (f x)) _ _ _ ho hc]

/-- Both kinds of faults are items of the stream, in its order. -/
theorem pairFaults_sublist (items : List α) :
    (pairFaults kind opener closer items).stray.Sublist items ∧
      (pairFaults kind opener closer items).unclosed.Sublist items := by
  induction items with
  | nil => simp
  | cons item rest ih =>
    obtain ⟨hs, hu⟩ := ih
    by_cases ho : kind item = opener
    · rw [pairFaults_opener ho]
      refine ⟨((List.drop_sublist 1 _).trans hs).cons item, ?_⟩
      exact ((List.take_sublist _ [item]).append hu)
    by_cases hc : kind item = closer
    · rw [pairFaults_closer ho hc]
      exact ⟨hs.cons_cons item, hu.cons item⟩
    · rw [pairFaults_other ho hc]
      exact ⟨hs.cons item, hu.cons item⟩

/-- Stray are closers only, and unclosed are openers only. -/
theorem kind_of_mem_pairFaults (items : List α) :
    (∀ x ∈ (pairFaults kind opener closer items).stray, kind x = closer) ∧
      ∀ x ∈ (pairFaults kind opener closer items).unclosed, kind x = opener := by
  induction items with
  | nil => simp
  | cons item rest ih =>
    obtain ⟨hs, hu⟩ := ih
    by_cases ho : kind item = opener
    · rw [pairFaults_opener ho]
      refine ⟨fun x hx => hs x (List.mem_of_mem_drop hx), fun x hx => ?_⟩
      rcases List.mem_append.mp hx with hx | hx
      · rw [List.mem_singleton.mp (List.mem_of_mem_take hx)]
        exact ho
      · exact hu x hx
    by_cases hc : kind item = closer
    · rw [pairFaults_closer ho hc]
      refine ⟨fun x hx => ?_, hu⟩
      rcases List.mem_cons.mp hx with hx | hx
      · rw [hx]
        exact hc
      · exact hs x hx
    · rw [pairFaults_other ho hc]
      exact ⟨hs, hu⟩

/-- A closer in front of a part in which nothing stays open closes the last opener that was open,
whichever opener it was meant for. -/
theorem pairFaults_insert_closer {item : α} (ho : kind item ≠ opener) (hc : kind item = closer)
    {xs ys ys' : List α}
    (hstray : (pairFaults kind opener closer ys').stray.length =
      (pairFaults kind opener closer ys).stray.length)
    (hnone : (pairFaults kind opener closer ys).unclosed = [])
    (hnone' : (pairFaults kind opener closer ys').unclosed = []) :
    (pairFaults kind opener closer (xs ++ item :: ys')).unclosed =
      (pairFaults kind opener closer (xs ++ ys)).unclosed.dropLast := by
  rw [pairFaults_append, pairFaults_closer ho hc, pairFaults_append, hnone, hnone']
  simp only [List.append_nil, List.length_cons, hstray, List.dropLast_eq_take, List.length_take,
    List.take_take]
  congr 1
  omega

/-- A stream cut into rows; behind each row stands what is to be inserted there. -/
abbrev Rows (α : Type) := List (List α × List α)

/-- The stream without the insertions. -/
def Rows.plain (rows : Rows α) : List α :=
  rows.flatMap (·.1)

def Rows.extra (rows : Rows α) : List α :=
  rows.flatMap (·.2)

/-- The stream with the insertions. -/
def Rows.woven (rows : Rows α) : List α :=
  rows.flatMap fun row => row.1 ++ row.2

theorem Rows.filter_woven {rows : Rows α} {p : α → Bool} (h : ∀ x ∈ rows.extra, p x = false) :
    rows.woven.filter p = rows.plain.filter p := by
  induction rows with
  | nil => rfl
  | cons row rest ih =>
    have hrow : row.2.filter p = [] := by
      rw [List.filter_eq_nil_iff]
      intro x hx
      rw [h x (List.mem_flatMap.mpr ⟨row, List.mem_cons_self, hx⟩)]
      simp
    have hrest : (Rows.woven rest).filter p = (Rows.plain rest).filter p :=
      ih (fun x hx => h x (by simpa [Rows.extra] using Or.inr (by simpa [Rows.extra] using hx)))
    simp only [Rows.woven, Rows.plain] at hrest ⊢
    simp only [List.flatMap_cons, List.filter_append, hrow, hrest, List.append_nil]

/-- Nowhere are more closers inserted than the row above has openers that stay unclosed to the end
of the plain stream. -/
def Rows.Covered (kind : α → Keyword) (opener closer : Keyword) : Rows α → Prop
  | [] => True
  | row :: rest =>
    (∀ x ∈ row.2, kind x ≠ opener) ∧
      row.2.countP (kind · = closer) ≤ (pairFaults kind opener closer row.1).unclosed.length -
        (pairFaults kind opener closer (Rows.plain rest)).stray.length ∧
      Rows.Covered kind opener closer rest

/-- Covered closers may close other openers than those they are meant for, but they turn no closer
stray and rescue none, and each of them closes one opener. -/
theorem Rows.Covered.faults {rows : Rows α} (h : rows.Covered kind opener closer) :
    (pairFaults kind opener closer rows.woven).stray =
        (pairFaults kind opener closer rows.plain).stray ∧
      (pairFaults kind opener closer rows.woven).unclosed.length +
          rows.extra.countP (kind · = closer) =
        (pairFaults kind opener closer rows.plain).unclosed.length := by
  induction rows with
  | nil => simp [Rows.woven, Rows.plain, Rows.extra]
  | cons row rest ih =>
    obtain ⟨hno, hle, hrest⟩ := h
    obtain ⟨hstray, hopen⟩ := ih hrest
    have hwoven : Rows.woven (row :: rest) = row.1 ++ (row.2 ++ Rows.woven rest) := by
      simp [Rows.woven]
    have hplain : Rows.plain (row :: rest) = row.1 ++ Rows.plain rest := by simp [Rows.plain]
    have hextra : Rows.extra (row :: rest) = row.2 ++ Rows.extra rest := by simp [Rows.extra]
    have hclose := @pairFaults_of_no_opener α kind opener closer row.2 hno
    have hcount : (row.2.filter (kind · = closer)).length = row.2.countP (kind · = closer) :=
      List.countP_eq_length_filter.symm
    have htail : pairFaults kind opener closer (row.2 ++ Rows.woven rest) =
        ⟨row.2.filter (kind · = closer) ++ (pairFaults kind opener closer (Rows.plain rest)).stray,
          (pairFaults kind opener closer (Rows.woven rest)).unclosed⟩ := by
      rw [pairFaults_append, hclose, ← hstray]
      simp
    rw [hwoven, hplain, hextra, pairFaults_append, htail, pairFaults_append, List.countP_append]
    constructor
    · simp only [List.append_cancel_left_eq]
      by_cases hzero : row.2.countP (kind · = closer) = 0
      · rw [List.eq_nil_of_length_eq_zero (hcount.trans hzero), List.nil_append]
      · rw [List.drop_of_length_le (by rw [List.length_append]; omega),
          List.drop_of_length_le (by omega)]
    · simp only [List.length_append, List.length_take]
      omega

/-- Cutting the stream off inside a row, with nothing inserted there, leaves it covered. -/
theorem Rows.Covered.cut {above below : Rows α} {xs zs ys : List α}
    (h : Rows.Covered kind opener closer (above ++ (xs ++ zs, ys) :: below)) :
    Rows.Covered kind opener closer (above ++ [(xs, [])]) := by
  induction above with
  | nil => exact ⟨by simp, by simp, trivial⟩
  | cons row rest ih =>
    rw [List.cons_append] at h ⊢
    obtain ⟨hno, hle, hrest⟩ := h
    refine ⟨hno, ?_, ih hrest⟩
    have hsplit : Rows.plain (rest ++ (xs ++ zs, ys) :: below) =
        Rows.plain (rest ++ [(xs, [])]) ++ (zs ++ Rows.plain below) := by simp [Rows.plain]
    rw [hsplit, pairFaults_append, List.length_append] at hle
    omega

end CalcLint
