import CalcLint.Fix

/-!
# Editing sessions

A session holds a text and, once one is chosen, a configuration. Its operations are the ways in
which an editor changes the text: replacing it, inserting into it, and taking fixes.
-/
namespace CalcLint

/-- A text being edited, and the configuration under which it is linted. -/
structure Session where
  text : Text
  config : LintConfig := {}
  deriving DecidableEq, Repr

namespace Session

def diagnostics (s : Session) : List Diagnostic :=
  lint s.config s.text

def edit (s : Session) (edits : List Edit) : Session :=
  { s with text := applyEdits s.text edits }

/-- Mend every missing closer; also gives what was applied. -/
def fix (s : Session) : Except LineError (Session × FixResult) := do
  let result ← CalcLint.fix s.config s.text
  return ({ s with text := result.fixed }, result)

/-- Mend the last missing `ENDFIX` that the default configuration reports; also tells whether there
was one. -/
def fixLast (s : Session) : Except LineError (Session × Bool) := do
  match ← CalcLint.fixLast s.text (lint {} s.text) with
  | none => return (s, false)
  | some text => return ({ s with text }, true)

/-- Take the offer number `index`, if there is one; also tells how many offers there were. -/
def act (s : Session) (index : Nat) : Except LineError (Session × Nat) := do
  let actions ← quickFixes s.text s.diagnostics
  match actions[index]? with
  | none => return (s, actions.length)
  | some action => return (s.edit action.edits, actions.length)

end Session

end CalcLint
