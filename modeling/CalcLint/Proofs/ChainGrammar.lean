import CalcLint.Proofs.Chain

/-!
# The grammar of conditional chains

The chain check is silent on the words of a context-free language: chains one after the other, each
an `IF` and an `ENDIF` around a body of further chains, any number of `ELSEIF`s and at most one
`ELSE`. A derivation is followed by the check without a trace on its stack. The other way round, a
word on which the check stays silent splits into one body for each `IF` that is open in front of it,
and the derivations of these bodies grow from the end of the word to its front.
-/
namespace CalcLint

variable {α β : Type} {kind : α → Keyword}

/-- The phrases of the grammar. A body counts the `ELSE`s that stand in it and in no chain of it. -/
inductive Phrase where
  | chains
  | chain
  | body (elses : Nat)
  deriving DecidableEq, Repr

/-- The words that derive from a phrase. -/
inductive Phrase.Derives : Phrase → List Keyword → Prop
  | noChain : Derives .chains []
  | moreChains {u v : List Keyword} :
      Derives .chain u → Derives .chains v → Derives .chains (u ++ v)
  | enclose {n : Nat} {w : List Keyword} :
      Derives (.body n) w → n ≤ 1 → Derives .chain (.ifHead :: (w ++ [.endif]))
  | emptyBody : Derives (.body 0) []
  | nested {n : Nat} {u v : List Keyword} :
      Derives .chain u → Derives (.body n) v → Derives (.body n) (u ++ v)
  | elseIf {n : Nat} {v : List Keyword} :
      Derives (.body n) v → Derives (.body n) (.elseIf :: v)
  | elseArm {n : Nat} {v : List Keyword} :
      Derives (.body n) v → Derives (.body (n + 1)) (.elseArm :: v)

/-- Whether a keyword belongs to conditional chains. -/
def Keyword.inChain : Keyword → Bool
  | .fix => false
  | .endfix => false
  | _ => true

/-- An open `IF` under another name. -/
def OpenIf.map (f : β → α) (frame : OpenIf β) : OpenIf α :=
  ⟨f frame.head, frame.elseSeen⟩

@[simp] theorem chainVerdict?_map (f : β → α) (stack : List (OpenIf β)) (item : β) :
    chainVerdict? kind (stack.map (OpenIf.map f)) (f item) =
      chainVerdict? (fun x => kind (f x)) stack item := by
  cases hk : kind (f item) <;> cases stack <;> simp [chainVerdict?, hk, OpenIf.map]

@[simp] theorem chainStack_map (f : β → α) (stack : List (OpenIf β)) (item : β) :
    chainStack kind (stack.map (OpenIf.map f)) (f item) =
      (chainStack (fun x => kind (f x)) stack item).map (OpenIf.map f) := by
  cases hk : kind (f item) <;> cases stack <;> simp [chainStack, hk, OpenIf.map]

/-- A renaming of the items that keeps their kinds renames the faults. -/
@[simp] theorem chainFrom_map (f : β → α) (stack : List (OpenIf β)) (items : List β) :
    chainFrom kind (stack.map (OpenIf.map f)) (items.map f) =
      (chainFrom (fun x => kind (f x)) stack items).map fun fault => (fault.1, f fault.2) := by
  induction items generalizing stack with
  | nil => simp [chainFrom, OpenIf.map, Function.comp_def, ← List.map_reverse]
  | cons item rest ih =>
    simp [chainFrom_cons, ih, Function.comp_def]

/-- The chain check does not look at `FIX` and `ENDFIX`. -/
theorem chainFrom_inChain (stack : List (OpenIf α)) (items : List α) :
    chainFrom kind stack (items.filter fun x => (kind x).inChain) = chainFrom kind stack items := by
  induction items generalizing stack with
  | nil => rfl
  | cons item rest ih =>
    by_cases hin : (kind item).inChain = true
    · rw [List.filter_cons, if_pos hin, chainFrom_cons, ih, ← chainFrom_cons]
    · have hskip : chainFrom kind stack (item :: rest) = chainFrom kind stack rest := by
        cases hk : kind item <;> simp_all [chainFrom, Keyword.inChain]
      rw [List.filter_cons, if_neg hin, ih, hskip]

/-- What the chain check makes of a word that derives from a phrase. -/
def Phrase.Passed : Phrase → List Keyword → Prop
  | .chains, w => ∀ stack rest, chainFrom id stack (w ++ rest) = chainFrom id stack rest
  | .chain, w => ∀ stack rest, chainFrom id stack (w ++ rest) = chainFrom id stack rest
  | .body n, w => ∀ (frame : OpenIf Keyword) (outer : List (OpenIf Keyword)) (rest : List Keyword),
      n + frame.elseSeen.toNat ≤ 1 →
        chainFrom id (frame :: outer) (w ++ rest) =
          chainFrom id (⟨frame.head, frame.elseSeen || decide (0 < n)⟩ :: outer) rest

theorem Phrase.Derives.passed {phrase : Phrase} {w : List Keyword} (h : phrase.Derives w) :
    phrase.Passed w := by
  induction h with
  | noChain => exact fun _ _ => rfl
  | moreChains _ _ hu hv =>
    intro stack rest
    rw [List.append_assoc, hu, hv]
  | enclose _ hn hw =>
    intro stack rest
    rw [List.cons_append, List.append_assoc, chainFrom_cons]
    simp [chainVerdict?, chainStack, hw ⟨.ifHead, false⟩ stack _ (by simpa using hn),
      chainFrom_cons]
  | emptyBody =>
    intro frame outer rest _
    simp
  | nested _ _ hu hv =>
    intro frame outer rest hn
    rw [List.append_assoc, hu, hv frame outer rest hn]
  | elseIf _ hv =>
    intro frame outer rest hn
    rw [List.cons_append, chainFrom_cons]
    simpa [chainVerdict?, chainStack] using hv frame outer rest hn
  | elseArm _ hv =>
    intro frame outer rest hn
    -- The frame has seen no `ELSE` yet, and the rest of the body holds none.
    obtain ⟨head, seen⟩ := frame
    cases seen with
    | true => simp at hn
    | false =>
      rw [List.cons_append, chainFrom_cons]
      simpa [chainVerdict?, chainStack] using hv ⟨head, true⟩ outer rest (by simpa using hn)

/-- A word that closes the open `IF`s: one body for each of them, the innermost first, and further
chains. Of each open `IF` is known whether its `ELSE` has been seen. -/
inductive Completes : List Bool → List Keyword → Prop
  | done {w : List Keyword} : Phrase.chains.Derives w → Completes [] w
  | close {n : Nat} {seen : Bool} {outer : List Bool} {b w : List Keyword} :
      (Phrase.body n).Derives b → n + seen.toNat ≤ 1 → Completes outer w →
        Completes (seen :: outer) (b ++ .endif :: w)

theorem Completes.chain {seens : List Bool} {u w : List Keyword} (hu : Phrase.chain.Derives u)
    (hw : Completes seens w) : Completes seens (u ++ w) := by
  cases hw with
  | done hw => exact .done (.moreChains hu hw)
  | close hb hn hw =>
    rw [← List.append_assoc]
    exact .close (.nested hu hb) hn hw

theorem Completes.ifHead {seens : List Bool} {w : List Keyword} (h : Completes (false :: seens) w) :
    Completes seens (.ifHead :: w) := by
  cases h with
  | @close n _ _ b w hb hn hw =>
    have hchain := Completes.chain (.enclose hb (by simpa using hn)) hw
    simpa using hchain

theorem Completes.elseIf {seen : Bool} {outer : List Bool} {w : List Keyword}
    (h : Completes (seen :: outer) w) : Completes (seen :: outer) (.elseIf :: w) := by
  cases h with
  | close hb hn hw => exact .close (.elseIf hb) hn hw

theorem Completes.elseArm {outer : List Bool} {w : List Keyword}
    (h : Completes (true :: outer) w) : Completes (false :: outer) (.elseArm :: w) := by
  cases h with
  | close hb hn hw => exact .close (.elseArm hb) (by simpa using hn) hw

theorem Completes.endif {outer : List Bool} {w : List Keyword} (h : Completes outer w)
    (seen : Bool) : Completes (seen :: outer) (.endif :: w) :=
  .close (b := []) .emptyBody (by cases seen <;> simp) h

/-- A word on which the check stays silent completes the `IF`s that are open in front of it. -/
theorem completes_of_silent {stack : List (OpenIf Keyword)} {word : List Keyword}
    (hword : ∀ k ∈ word, k.inChain = true) (h : chainFrom id stack word = []) :
    Completes (stack.map (·.elseSeen)) word := by
  induction word generalizing stack with
  | nil =>
    have hstack : stack = [] := by simpa [chainFrom] using h
    rw [hstack]
    exact .done .noChain
  | cons k rest ih =>
    have hrest : ∀ x ∈ rest, x.inChain = true := fun x hx => hword x (List.mem_cons_of_mem k hx)
    rw [chainFrom_cons, List.append_eq_nil_iff] at h
    obtain ⟨hmark, hsilent⟩ := h
    have hnext := ih hrest hsilent
    cases k with
    | fix => exact absurd (hword .fix List.mem_cons_self) (by decide)
    | endfix => exact absurd (hword .endfix List.mem_cons_self) (by decide)
    | ifHead => exact Completes.ifHead (by simpa [chainStack] using hnext)
    | elseIf =>
      cases stack with
      | nil => simp [chainVerdict?] at hmark
      | cons frame outer => exact Completes.elseIf (by simpa [chainStack] using hnext)
    | elseArm =>
      cases stack with
      | nil => simp [chainVerdict?] at hmark
      | cons frame outer =>
        have hunseen : frame.elseSeen = false := by simpa [chainVerdict?] using hmark
        rw [List.map_cons, hunseen]
        exact Completes.elseArm (by simpa [chainStack] using hnext)
    | endif =>
      cases stack with
      | nil => simp [chainVerdict?] at hmark
      | cons frame outer => exact Completes.endif (by simpa [chainStack] using hnext) frame.elseSeen

/-- The chain check is silent exactly on the sequences of chains. -/
theorem chainFaults_eq_nil_iff {items : List α} :
    chainFaults kind items = [] ↔
      Phrase.chains.Derives ((items.map kind).filter Keyword.inChain) := by
  have hkinds := @chainFrom_map Keyword α id kind [] items
  have hword := @chainFrom_inChain Keyword id [] (items.map kind)
  have hsame : chainFaults kind items = [] ↔
      chainFrom id [] ((items.map kind).filter Keyword.inChain) = [] := by
    simp only [id_eq] at hword
    rw [List.map_nil] at hkinds
    rw [hword, hkinds, List.map_eq_nil_iff]
    rfl
  rw [hsame]
  constructor
  · intro hsilent
    have hcomplete := completes_of_silent (fun k hk => (List.mem_filter.mp hk).2) hsilent
    cases hcomplete with
    | done hderives => exact hderives
  · intro hderives
    have hpassed := hderives.passed [] []
    rwa [List.append_nil] at hpassed

end CalcLint
