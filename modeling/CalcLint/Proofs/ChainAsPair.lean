import CalcLint.Proofs.ChainBlame

/-!
# The chain check as a pair check

Of `IF` and `ENDIF` the chain check says what the pair check for these two says, in the same order:
the heads on its stack are the openers on the other's, and what it has to say of `ELSE` and `ELSEIF`
is said under other codes. So the arms of a chain, wherever they stand, have no part in which `IF`
and which `ENDIF` is reported.
-/
namespace CalcLint

variable {α : Type} {kind : α → Keyword} {opener closer : Keyword}

/-- The pair check passes over everything that is neither opener nor closer. -/
theorem pairFrom_filter {p : α → Bool}
    (h : ∀ x, kind x = opener ∨ kind x = closer → p x = true) (stack items : List α) :
    pairFrom kind opener closer stack (items.filter p) =
      pairFrom kind opener closer stack items := by
  induction items generalizing stack with
  | nil => rfl
  | cons item rest ih =>
    by_cases ho : kind item = opener
    · rw [List.filter_cons_of_pos (h item (Or.inl ho)), pairFrom_opener ho, pairFrom_opener ho, ih]
    by_cases hc : kind item = closer
    · rw [List.filter_cons_of_pos (h item (Or.inr hc))]
      cases stack with
      | nil => rw [pairFrom_closer_nil ho hc, pairFrom_closer_nil ho hc, pairFaults, pairFaults, ih]
      | cons top outer => rw [pairFrom_closer_cons ho hc, pairFrom_closer_cons ho hc, ih]
    · rw [pairFrom_other ho hc]
      by_cases hp : p item = true
      · rw [List.filter_cons_of_pos hp, pairFrom_other ho hc, ih]
      · rw [List.filter_cons_of_neg hp, ih]

/-- Whether a keyword begins an arm of a chain that is already open. -/
def Keyword.isArm : Keyword → Bool
  | .elseIf => true
  | .elseArm => true
  | _ => false

/-- The pair check for `IF` and `ENDIF`, reporting as the chain check does. -/
def endifPair : PairCheck where
  opener := .ifHead
  closer := .endif
  missing := .missingEndif
  unmatched := .unmatchedEndif

/-- The specifications that are about an `IF` or an `ENDIF`. -/
def endifSpecs : List Spec :=
  [.missingEndif, .unmatchedEndif]

theorem endifPair_faults_filter (items : List α) :
    endifPair.faults kind (items.filter fun x => !(kind x).isArm) =
      endifPair.faults kind items := by
  have harms : ∀ x, kind x = .ifHead ∨ kind x = .endif → (!(kind x).isArm) = true := by
    rintro x (hx | hx) <;> rw [hx] <;> rfl
  have hpairs : pairFaults kind .ifHead .endif (items.filter fun x => !(kind x).isArm) =
      pairFaults kind .ifHead .endif items := pairFrom_filter harms [] items
  rw [PairCheck.faults, PairCheck.faults]
  exact congrArg (PairFaults.specified .missingEndif .unmatchedEndif) hpairs

/-- Along the way the chain check reports nothing of an `IF`, and of an `ENDIF` what the pair check
reports; at the end both report the openers that are left. -/
theorem chainFaults_endif (items : List α) :
    (chainFaults kind items).filter (fun fault => fault.1 ∈ endifSpecs) =
      endifPair.faults kind items := by
  have hmarks : (chainMarks kind [] items).filter (fun fault => fault.1 ∈ endifSpecs) =
      (chainMarks kind [] items).filter (·.1 = .unmatchedEndif) := by
    have hspec : ∀ spec ∈ chainSpecs,
        decide (spec ∈ endifSpecs) = decide (spec = .unmatchedEndif) := by
      decide
    apply List.filter_congr
    intro fault hfault
    exact hspec fault.1 (spec_mem_of_mem_chainMarks hfault)
  have hmissing : ((pairFaults kind .ifHead .endif items).unclosed.map
      (Spec.missingEndif, ·)).filter (fun fault => fault.1 ∈ endifSpecs) =
        (pairFaults kind .ifHead .endif items).unclosed.map (Spec.missingEndif, ·) := by
    rw [List.filter_eq_self]
    intro fault hfault
    obtain ⟨x, _, rfl⟩ := List.mem_map.mp hfault
    simp [endifSpecs]
  rw [chainFaults_eq, List.filter_append, hmarks, chainMarks_unmatched, hmissing]
  rfl

theorem spec_mem_of_mem_chainFaults {items : List α} {fault : Spec × α}
    (h : fault ∈ chainFaults kind items) : fault.1 ∈ .missingEndif :: chainSpecs := by
  rw [chainFaults_eq, List.mem_append] at h
  rcases h with h | h
  · exact List.mem_cons_of_mem _ (spec_mem_of_mem_chainMarks h)
  · obtain ⟨x, _, rfl⟩ := List.mem_map.mp h
    exact List.mem_cons_self

/-- The diagnostics that are about an `IF` or an `ENDIF`. -/
def endifDiagnostics (diagnostics : List Diagnostic) : List Diagnostic :=
  diagnostics.filter fun d => d.code ∈ endifSpecs.map Spec.code

@[simp] theorem endifDiagnostics_checkChain (severity : Option Severity) (rule : Option String)
    (tokens : List Token) :
    endifDiagnostics (checkChain severity rule tokens) =
      checkPair endifPair severity rule tokens := by
  -- Among the specifications of the chain check a code tells which one is meant.
  have hcode : ∀ spec ∈ Spec.missingEndif :: chainSpecs,
      decide (spec.code ∈ endifSpecs.map Spec.code) = decide (spec ∈ endifSpecs) := by
    decide
  have hfilter : (chainFaults Token.kind tokens).filter
      (fun fault => fault.1.code ∈ endifSpecs.map Spec.code) =
        (chainFaults Token.kind tokens).filter (fun fault => fault.1 ∈ endifSpecs) := by
    apply List.filter_congr
    intro fault hfault
    exact hcode fault.1 (spec_mem_of_mem_chainFaults hfault)
  rw [endifDiagnostics, checkChain, reportFaults, List.filter_map]
  show reportFaults severity rule ((chainFaults Token.kind tokens).filter
    (fun fault => fault.1.code ∈ endifSpecs.map Spec.code)) = _
  rw [hfilter, chainFaults_endif, checkPair]

/-- What the chain check reports of `IF` and `ENDIF` is the report of the pair check for these two,
diagnostic by diagnostic, and it stays the same when the `ELSE`s and `ELSEIF`s are taken away. -/
theorem checkChain_agrees_with_checkPair (severity : Option Severity) (rule : Option String)
    (tokens : List Token) :
    endifDiagnostics (checkChain severity rule tokens) =
        checkPair endifPair severity rule tokens ∧
      endifDiagnostics (checkChain severity rule (tokens.filter fun t => !t.kind.isArm)) =
        endifDiagnostics (checkChain severity rule tokens) := by
  constructor
  · exact endifDiagnostics_checkChain severity rule tokens
  · rw [endifDiagnostics_checkChain, endifDiagnostics_checkChain, checkPair, checkPair,
      endifPair_faults_filter]

end CalcLint
