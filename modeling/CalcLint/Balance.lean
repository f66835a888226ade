import CalcLint.Diagnostic
import CalcLint.Token

/-!
# Balance of openers and closers

Two stack machines over a stream of keywords. The pair check matches one kind of opener with one
kind of closer, last in first out. The chain check does the same for `IF` and `ENDIF` and also
follows which open `IF` has had its `ELSE`. Both work on anything that has a keyword, and report
the offending items themselves; where an item stands matters only for its diagnostic.
-/
namespace CalcLint

/-- What the pair check finds: closers without an opener, and openers without a closer. -/
structure PairFaults (α : Type) where
  stray : List α
  unclosed : List α
  deriving DecidableEq, Repr

/-- The pair check, with the openers still open on the stack, innermost first. -/
def pairFrom (kind : α → Keyword) (opener closer : Keyword) : List α → List α → PairFaults α
  | stack, [] => ⟨[], stack.reverse⟩
  | stack, item :: rest =>
    if kind item = opener then pairFrom kind opener closer (item :: stack) rest
    else if kind item = closer then
      match stack with
      | _ :: outer => pairFrom kind opener closer outer rest
      | [] =>
        let later := pairFrom kind opener closer [] rest
        ⟨item :: later.stray, later.unclosed⟩
    else pairFrom kind opener closer stack rest

/-- Match openers and closers. Only depth counts: a closer closes the latest opener. -/
def pairFaults (kind : α → Keyword) (opener closer : Keyword) (items : List α) : PairFaults α :=
  pairFrom kind opener closer [] items

/-- The faults of a pair check with their specifications: stray closers come first. -/
def PairFaults.specified (missing unmatched : Spec) (f : PairFaults α) : List (Spec × α) :=
  f.stray.map (unmatched, ·) ++ f.unclosed.map (missing, ·)

/-- An `IF` that is open, and whether its `ELSE` has been seen. -/
structure OpenIf (α : Type) where
  head : α
  elseSeen : Bool := false
  deriving DecidableEq, Repr

/-- The chain check, with the open `IF`s on the stack, innermost first. -/
def chainFrom (kind : α → Keyword) : List (OpenIf α) → List α → List (Spec × α)
  | stack, [] => stack.reverse.map fun frame => (.missingEndif, frame.head)
  | stack, item :: rest =>
    match kind item, stack with
    | .ifHead, stack => chainFrom kind (⟨item, false⟩ :: stack) rest
    | .elseIf, [] => (.unexpectedElseif, item) :: chainFrom kind [] rest
    | .elseIf, stack => chainFrom kind stack rest
    | .elseArm, [] => (.unexpectedElse, item) :: chainFrom kind [] rest
    | .elseArm, frame :: outer =>
      if frame.elseSeen then (.duplicateElse, item) :: chainFrom kind (frame :: outer) rest
      else chainFrom kind (⟨frame.head, true⟩ :: outer) rest
    | .endif, [] => (.unmatchedEndif, item) :: chainFrom kind [] rest
    | .endif, _ :: outer => chainFrom kind outer rest
    | .fix, stack => chainFrom kind stack rest
    | .endfix, stack => chainFrom kind stack rest

/-- Check the chains `IF`, `ELSEIF`, `ELSE`, `ENDIF`. An `ELSEIF` may stand anywhere inside an open
`IF`, also behind its `ELSE`. -/
def chainFaults (kind : α → Keyword) (items : List α) : List (Spec × α) :=
  chainFrom kind [] items

def reportFaults (severity : Option Severity) (rule : Option String)
    (faults : List (Spec × Token)) : List Diagnostic :=
  faults.map fun fault => fault.1.report severity rule fault.2.range

/-- What the pair check looks for and how it reports. -/
structure PairCheck where
  opener : Keyword := .fix
  closer : Keyword := .endfix
  missing : Spec := .missingEndfix
  unmatched : Spec := .unmatchedEndfix
  deriving DecidableEq, Repr

def PairCheck.faults (check : PairCheck) (kind : α → Keyword) (items : List α) : List (Spec × α) :=
  (pairFaults kind check.opener check.closer items).specified check.missing check.unmatched

def checkPair (check : PairCheck) (severity : Option Severity) (rule : Option String)
    (tokens : List Token) : List Diagnostic :=
  reportFaults severity rule (check.faults Token.kind tokens)

def checkChain (severity : Option Severity) (rule : Option String) (tokens : List Token) :
    List Diagnostic :=
  reportFaults severity rule (chainFaults Token.kind tokens)

/-- A keyword whose place was given from outside and has not been checked. -/
structure Marker where
  kind : Keyword
  line : Int
  column : Int
  lexeme : Line
  deriving DecidableEq, Repr

/-- The characters a marker claims to cover. -/
def Marker.range (m : Marker) : Except RangeError Range :=
  Range.ofInts m.line m.column m.line (m.column + m.lexeme.length)

/-- Report faults of markers. Only a marker that is reported needs a valid place. -/
def reportMarkerFaults (severity : Option Severity) (rule : Option String)
    (faults : List (Spec × Marker)) : Except RangeError (List Diagnostic) :=
  faults.mapM fun fault => (fault.1.report severity rule ·) <$> fault.2.range

end CalcLint
