import CalcLint.Proofs.Matching

/-!
# The chain check, item by item

At each item the chain check may report something, and it changes its stack of open `IF`s. What it
reports in the end is what it reported along the way and the `IF`s left on the stack. The heads on
the stack are those of the pair check for `IF` and `ENDIF`; an `ELSE` only marks the innermost one.
-/
namespace CalcLint

variable {α : Type} {kind : α → Keyword}

/-- What the chain check reports at an item, with the open `IF`s on the stack. -/
def chainVerdict? (kind : α → Keyword) (stack : List (OpenIf α)) (item : α) : Option Spec :=
  match kind item, stack with
  | .elseIf, [] => some .unexpectedElseif
  | .elseArm, [] => some .unexpectedElse
  | .elseArm, frame :: _ => if frame.elseSeen then some .duplicateElse else none
  | .endif, [] => some .unmatchedEndif
  | _, _ => none

def chainStack (kind : α → Keyword) (stack : List (OpenIf α)) (item : α) : List (OpenIf α) :=
  match kind item, stack with
  | .ifHead, stack => ⟨item, false⟩ :: stack
  | .elseArm, frame :: outer => ⟨frame.head, true⟩ :: outer
  | .endif, _ :: outer => outer
  | _, stack => stack

theorem chainFrom_cons (stack : List (OpenIf α)) (item : α) (rest : List α) :
    chainFrom kind stack (item :: rest) =
      (chainVerdict? kind stack item).toList.map (·, item) ++
        chainFrom kind (chainStack kind stack item) rest := by
  cases hk : kind item <;> cases stack with
  | nil => simp [chainFrom, chainVerdict?, chainStack, hk]
  | cons frame outer =>
    obtain ⟨head, seen⟩ := frame
    cases seen <;> simp [chainFrom, chainVerdict?, chainStack, hk]

def chainMarks (kind : α → Keyword) : List (OpenIf α) → List α → List (Spec × α)
  | _, [] => []
  | stack, item :: rest =>
    (chainVerdict? kind stack item).toList.map (·, item) ++
      chainMarks kind (chainStack kind stack item) rest

theorem chainFrom_eq (stack : List (OpenIf α)) (items : List α) :
    chainFrom kind stack items =
      chainMarks kind stack items ++
        (items.foldl (chainStack kind) stack).reverse.map fun frame =>
          (.missingEndif, frame.head) := by
  induction items generalizing stack with
  | nil => rfl
  | cons item rest ih => rw [chainFrom_cons, ih, chainMarks, List.foldl_cons, List.append_assoc]

/-- The heads on the stack are the openers the pair check has open. -/
@[simp] theorem foldl_chainStack_heads (stack : List (OpenIf α)) (items : List α) :
    (items.foldl (chainStack kind) stack).map (·.head) =
      (pairFrom kind .ifHead .endif (stack.map (·.head)) items).unclosed.reverse := by
  induction items generalizing stack with
  | nil => simp [pairFrom]
  | cons item rest ih =>
    rw [List.foldl_cons, ih]
    cases hk : kind item <;> cases stack <;> simp [chainStack, pairFrom, hk]

/-- Along the way a closer is reported exactly where the pair check finds it stray. -/
theorem chainMarks_unmatched (stack : List (OpenIf α)) (items : List α) :
    (chainMarks kind stack items).filter (·.1 = .unmatchedEndif) =
      (pairFrom kind .ifHead .endif (stack.map (·.head)) items).stray.map
        (Spec.unmatchedEndif, ·) := by
  have h1 : Spec.unexpectedElseif ≠ Spec.unmatchedEndif := by decide
  have h2 : Spec.unexpectedElse ≠ Spec.unmatchedEndif := by decide
  have h3 : Spec.duplicateElse ≠ Spec.unmatchedEndif := by decide
  induction items generalizing stack with
  | nil => simp [pairFrom, chainMarks]
  | cons item rest ih =>
    rw [chainMarks, List.filter_append, ih]
    cases hk : kind item <;> cases stack with
    | nil => simp [chainVerdict?, chainStack, pairFrom, hk, h1, h2]
    | cons frame outer =>
      obtain ⟨head, seen⟩ := frame
      cases seen <;> simp [chainVerdict?, chainStack, pairFrom, hk, h3]

/-- In a stream without repetitions an item is where its front ends. -/
theorem takeWhile_ne_of_nodup [DecidableEq α] {front rest : List α} {x : α}
    (h : (front ++ x :: rest).Nodup) : (front ++ x :: rest).takeWhile (· ≠ x) = front := by
  have hne : ∀ y ∈ front, y ≠ x := by
    rintro y hy rfl
    exact (List.nodup_append.mp h).2.2 y hy y List.mem_cons_self rfl
  rw [List.takeWhile_append_of_pos (by simpa using hne), List.takeWhile_cons_of_neg (by simp),
    List.append_nil]

/-- In a stream without repetitions what is reported along the way is the verdict on each item
behind those in front of it. -/
theorem chainMarks_filter [DecidableEq α] (spec : Spec) {front items : List α}
    (h : (front ++ items).Nodup) :
    (chainMarks kind (front.foldl (chainStack kind) []) items).filter (·.1 = spec) =
      (items.filter fun x => chainVerdict? kind
        (((front ++ items).takeWhile (· ≠ x)).foldl (chainStack kind) []) x = some spec).map
          (spec, ·) := by
  induction items generalizing front with
  | nil => rfl
  | cons item rest ih =>
    have hnext : front ++ item :: rest = (front ++ [item]) ++ rest := by simp
    have hrest := ih (hnext ▸ h)
    rw [List.foldl_append, List.foldl_cons, List.foldl_nil, ← hnext] at hrest
    rw [chainMarks, List.filter_append, hrest, List.filter_cons,
      takeWhile_ne_of_nodup h]
    cases chainVerdict? kind (front.foldl (chainStack kind) []) item with
    | none => simp
    | some found => by_cases hfound : found = spec <;> simp [hfound]

/-- The specifications that the chain check reports along the way. -/
def chainSpecs : List Spec :=
  [.unexpectedElseif, .unexpectedElse, .duplicateElse, .unmatchedEndif]

theorem chainVerdict?_mem {stack : List (OpenIf α)} {item : α} {spec : Spec}
    (h : chainVerdict? kind stack item = some spec) : spec ∈ chainSpecs := by
  unfold chainVerdict? at h
  split at h
  · cases h; decide
  · cases h; decide
  · split at h
    · cases h; decide
    · contradiction
  · cases h; decide
  · contradiction

theorem spec_mem_of_mem_chainMarks {stack : List (OpenIf α)} {items : List α} {f : Spec × α}
    (h : f ∈ chainMarks kind stack items) : f.1 ∈ chainSpecs := by
  induction items generalizing stack with
  | nil => simp [chainMarks] at h
  | cons item rest ih =>
    rw [chainMarks, List.mem_append] at h
    rcases h with h | h
    · obtain ⟨spec, hspec, rfl⟩ := List.mem_map.mp h
      exact chainVerdict?_mem (Option.mem_toList.mp hspec)
    · exact ih h

/-- The `ENDIF`s that the chain check misses are those the pair check misses. -/
theorem chainFaults_missing (items : List α) :
    (chainFaults kind items).filter (·.1 = .missingEndif) =
      (pairFaults kind .ifHead .endif items).unclosed.map (Spec.missingEndif, ·) := by
  have hmarks : (chainMarks kind [] items).filter (·.1 = .missingEndif) = [] := by
    rw [List.filter_eq_nil_iff]
    intro f hf
    have hnot : ∀ spec ∈ chainSpecs, spec ≠ .missingEndif := by decide
    simpa using hnot f.1 (spec_mem_of_mem_chainMarks hf)
  have hheads := @foldl_chainStack_heads α kind [] items
  rw [chainFaults, chainFrom_eq, List.filter_append, hmarks, List.nil_append,
    List.filter_eq_self.mpr (by simp), pairFaults, ← List.reverse_reverse
      (pairFrom kind .ifHead .endif [] items).unclosed]
  simp only [List.map_nil] at hheads
  rw [← hheads, ← List.map_reverse, List.map_map]
  rfl

/-- The `ENDIF`s that the chain check finds unmatched are those the pair check finds stray. -/
theorem chainFaults_unmatched (items : List α) :
    (chainFaults kind items).filter (·.1 = .unmatchedEndif) =
      (pairFaults kind .ifHead .endif items).stray.map (Spec.unmatchedEndif, ·) := by
  have hmissing : Spec.missingEndif ≠ Spec.unmatchedEndif := by decide
  rw [chainFaults, chainFrom_eq, List.filter_append, chainMarks_unmatched]
  simp [List.filter_map, hmissing, pairFaults, Function.comp_def]

end CalcLint
