import CalcLint.Text.Digit
import CalcLint.Text.Quoted

/-!
# Command-line arguments

A grammar names the options of a command and says how many operands it takes. Options may stand
before and behind the operands. A long option may be shortened as long as it stays unique and takes
its value behind an equals sign or as the next argument; a lone `--` behind the equals sign leaves
it without a value. Short options without values may be joined behind one dash, and the letters
joined to one may also stand behind an equals sign. The argument `--` ends the options. Operands are
taken in one run: arguments that come after it has ended are left over.

Every argument is first classified on its own, so an ambiguous option is an error wherever it
stands. Options then take effect from left to right.
-/
namespace CalcLint

/-- What values an option takes. -/
inductive ValueKind where
  | any
  | choice (values : List String)
  | integer
  deriving DecidableEq, Repr

/-- The complaint about a value, if it cannot be used. -/
def ValueKind.complaint? (kind : ValueKind) (value : String) : Option String :=
  match kind with
  | .any => none
  | .choice values =>
    if value ∈ values then none
    else
      let choices := ", ".intercalate (values.map quoted)
      some s!"invalid choice: {quoted value} (choose from {choices})"
  | .integer =>
    if isIntegerNumeral value.toList then none else some s!"invalid int value: {quoted value}"

/-- What an option does. -/
inductive OptionUse where
  /-- It is given or not. -/
  | flag
  /-- It ends the command at once. -/
  | stop
  /-- It carries a value. -/
  | value (kind : ValueKind)
  deriving DecidableEq, Repr

/-- An option with all its names. -/
structure OptionSpec where
  names : List String
  use : OptionUse
  deriving DecidableEq, Repr

namespace OptionSpec

/-- The name under which an option is looked up: its last one. -/
def key (o : OptionSpec) : String :=
  o.names.getLast?.getD ""

/-- All names of an option, as error messages show them. -/
def label (o : OptionSpec) : String :=
  "/".intercalate o.names

def takesValue (o : OptionSpec) : Bool :=
  match o.use with
  | .value _ => true
  | _ => false

end OptionSpec

/-- How many operands a command takes. -/
inductive OperandShape where
  /-- Exactly one. -/
  | one
  /-- One or more. -/
  | many
  /-- One, and then all further arguments, options included. -/
  | rest
  deriving DecidableEq, Repr

/-- The options and operands of a command. -/
structure Grammar where
  options : List OptionSpec
  operand : String
  shape : OperandShape
  deriving Repr

inductive UsageError where
  | ambiguous (argument : String) (candidates : List String)
  | ignoredValue (option : String) (value : String)
  | missingValue (option : String)
  | badValue (subject complaint : String)
  | missing (operand : String)
  | unrecognized (arguments : List String)
  deriving DecidableEq, Repr

def UsageError.message : UsageError → String
  | .ambiguous argument candidates =>
    let candidates := ", ".intercalate candidates
    s!"ambiguous option: {argument} could match {candidates}"
  | .ignoredValue option value => s!"argument {option}: ignored explicit argument {quoted value}"
  | .missingValue option => s!"argument {option}: expected one argument"
  | .badValue subject complaint => s!"argument {subject}: {complaint}"
  | .missing operand => s!"the following arguments are required: {operand}"
  | .unrecognized arguments =>
    let arguments := " ".intercalate arguments
    s!"unrecognized arguments: {arguments}"

/-- Why reading arguments ends early: an error, or an option that ends the command. -/
inductive Halt where
  | usage (error : UsageError)
  | stop (option : String)
  deriving DecidableEq, Repr

/-- What an argument holds behind the name of an option. -/
inductive Attachment where
  | nothing
  /-- A value behind an equals sign. -/
  | value (v : String)
  /-- Characters behind the letter of a short option, perhaps with an equals sign between. -/
  | joined (letters : List Char)
  deriving DecidableEq, Repr

/-- What an argument is, taken on its own. -/
inductive ArgumentClass where
  | operand
  | separator
  | option (spec : OptionSpec) (attached : Attachment)
  | unknownOption
  deriving DecidableEq, Repr

def ArgumentClass.isOption : ArgumentClass → Bool
  | .option _ _ => true
  | .unknownOption => true
  | _ => false

/-- An argument with its class. -/
abbrev Argument := String × ArgumentClass

/-- The options that one argument stands for: some without values, and a last one, perhaps with a
value. -/
structure Expansion where
  flags : List OptionSpec := []
  last : OptionSpec
  value : Option String := none
  deriving DecidableEq, Repr

namespace Grammar

/-- All names of options, each with its option. -/
def names (g : Grammar) : List (String × OptionSpec) :=
  g.options.flatMap fun o => o.names.map (·, o)

/-- Split an argument at its first equals sign. -/
def splitValue (argument : String) : String × Attachment :=
  let chars := argument.toList
  let name := chars.takeWhile (· != '=')
  match chars.drop name.length with
  | [] => (argument, .nothing)
  | _ :: value => (String.ofList name, .value (String.ofList value))

/-- What a value behind an equals sign is to the option of a given name: letters joined to a short
one, unless it is empty. -/
def attach (name value : String) : Attachment :=
  if name.startsWith "--" || value = "" then .value value else .joined value.toList

/-- The options an argument may be short for, with what is attached to it. -/
def readings (g : Grammar) (argument : String) : List (String × OptionSpec × Attachment) :=
  if argument.startsWith "--" then
    let split := splitValue argument
    (g.names.filter fun entry => entry.1.startsWith split.1).map fun entry =>
      (entry.1, entry.2, split.2)
  else
    let short := String.ofList (argument.toList.take 2)
    let letters := argument.toList.drop 2
    g.names.filterMap fun entry =>
      if entry.1 = short then some (entry.1, entry.2, .joined letters)
      else if entry.1.startsWith argument then some (entry.1, entry.2, .nothing)
      else none

/-- Classify an argument that no separator precedes. An argument that begins with a dash and names
no option is an unknown option, unless it is a lone dash, a negative number or holds a space. -/
def classify (g : Grammar) (argument : String) : Except Halt ArgumentClass :=
  if !argument.startsWith "-" then .ok .operand
  else
    match g.names.lookup argument with
    | some o => .ok (.option o .nothing)
    | none =>
      if argument.length = 1 then .ok .operand
      else
        let split := splitValue argument
        match split.2, g.names.lookup split.1 with
        | .value v, some o => .ok (.option o (attach split.1 v))
        | _, _ =>
          match g.readings argument with
          | [(_, o, attached)] => .ok (.option o attached)
          | [] =>
            if isNegativeNumber argument.toList || argument.toList.contains ' ' then .ok .operand
            else .ok .unknownOption
          | several => .error (.usage (.ambiguous argument (several.map (·.1))))

/-- Classify arguments: behind the first `--` all are operands. -/
def classifyAll (g : Grammar) : List String → Except Halt (List Argument)
  | [] => .ok []
  | argument :: rest =>
    if argument = "--" then .ok ((argument, .separator) :: rest.map (·, .operand))
    else do
      let c ← g.classify argument
      let more ← g.classifyAll rest
      return (argument, c) :: more

/-- How many arguments at the front form the run of operands; none if no operand is among them. -/
def operandCount (g : Grammar) (arguments : List Argument) : Nat :=
  let separators := (arguments.takeWhile (·.2 == .separator)).length
  match arguments.drop separators with
  | (_, .operand) :: rest =>
    let more := match g.shape with
      | .one => (rest.takeWhile (·.2 == .separator)).length
      | .many => (rest.takeWhile (!·.2.isOption)).length
      | .rest => rest.length
    separators + 1 + more
  | _ => 0

/-- The operands of a run: the separator is dropped unless everything is passed on. -/
def operandValues (g : Grammar) (arguments : List Argument) : List String :=
  let values := arguments.map (·.1)
  match g.shape with
  | .rest => values
  | _ => values.erase "--"

/-- Take apart the characters behind the letter of the short option `o`: its value if it takes one,
and otherwise the letters of further short options. -/
def unjoin (g : Grammar) (o : OptionSpec) : List Char → Except Halt Expansion
  | [] => .ok { last := o }
  | c :: more =>
    let letters := String.ofList (c :: more)
    if o.takesValue then .ok { last := o, value := some letters }
    else
      match g.names.lookup (String.ofList ['-', c]) with
      | none => .error (.usage (.ignoredValue o.label letters))
      | some next => do
        let e ← g.unjoin next more
        return { e with flags := o :: e.flags }

def expand (g : Grammar) (o : OptionSpec) : Attachment → Except Halt Expansion
  | .nothing => .ok { last := o }
  | .value v =>
    if o.takesValue then .ok { last := o, value := some v }
    else .error (.usage (.ignoredValue o.label v))
  | .joined letters => g.unjoin o letters

end Grammar

/-- What arguments say of an option that takes a value. -/
inductive Setting where
  /-- It is not given. -/
  | absent
  /-- It is given without a value. -/
  | empty
  | value (v : String)
  deriving DecidableEq, Repr

/-- What arguments say: the options in their order with their values, the operands, and what is left
over. -/
structure Parsed where
  given : List (String × Option String) := []
  operands : Option (List String) := none
  extras : List String := []
  deriving DecidableEq, Repr

namespace Parsed

def has (p : Parsed) (key : String) : Bool :=
  p.given.any (·.1 == key)

/-- What was said of an option last. -/
def setting (p : Parsed) (key : String) : Setting :=
  match p.given.reverse.lookup key with
  | none => .absent
  | some none => .empty
  | some (some v) => .value v

/-- Record an option. A lone `--` counts as no value. -/
def give (p : Parsed) (o : OptionSpec) (value : Option String) : Except Halt Parsed :=
  let value := value.filter (· != "--")
  let p := { p with given := p.given ++ [(o.key, value)] }
  match o.use, value with
  | .stop, _ => .error (.stop o.key)
  | .value kind, some v =>
    match kind.complaint? v with
    | some complaint => .error (.usage (.badValue o.label complaint))
    | none => .ok p
  | _, _ => .ok p

def giveAll (p : Parsed) : List OptionSpec → Except Halt Parsed
  | [] => .ok p
  | o :: rest => do (← p.give o none).giveAll rest

/-- Record the run of `count` operands at the front. -/
def take (p : Parsed) (g : Grammar) (count : Nat) (arguments : List Argument) : Parsed :=
  { p with operands := some (g.operandValues (arguments.take count)) }

def leave (p : Parsed) (extras : List String) : Parsed :=
  { p with extras := p.extras ++ extras }

end Parsed

namespace Grammar

/-- The length of the run of operands at the front, if operands are still to come. -/
def pendingCount (g : Grammar) (p : Parsed) (arguments : List Argument) : Nat :=
  if p.operands.isSome then 0 else g.operandCount arguments

/-- Read classified arguments from left to right. -/
def consume (g : Grammar) (p : Parsed) (arguments : List Argument) : Except Halt Parsed :=
  match arguments with
  | [] => .ok p
  | (argument, c) :: rest =>
    if ((argument, c) :: rest).all (!·.2.isOption) then
      let count := g.pendingCount p ((argument, c) :: rest)
      let p := if count = 0 then p else p.take g count ((argument, c) :: rest)
      .ok (p.leave ((((argument, c) :: rest).drop count).map (·.1)))
    else
      match c with
      | .unknownOption => g.consume (p.leave [argument]) rest
      | .option o attached => do
        let e ← g.expand o attached
        let p ← p.giveAll e.flags
        if e.last.takesValue then
          match e.value, rest with
          | some v, rest => g.consume (← p.give e.last (some v)) rest
          | none, (v, .operand) :: rest => g.consume (← p.give e.last (some v)) rest
          | none, _ => .error (.usage (.missingValue e.last.label))
        else g.consume (← p.give e.last none) rest
      | _ =>
        let count := g.pendingCount p ((argument, c) :: rest)
        if count = 0 then
          g.consume (p.leave (argument :: (rest.takeWhile (!·.2.isOption)).map (·.1)))
            (rest.dropWhile (!·.2.isOption))
        else
          g.consume (p.take g count ((argument, c) :: rest)) (((argument, c) :: rest).drop count)
termination_by arguments.length
decreasing_by
  all_goals simp only [List.length_cons, List.length_drop]
  all_goals try omega
  have := (List.dropWhile_sublist (l := rest) (fun a : Argument => !a.2.isOption)).length_le
  omega

/-- Read the arguments of a command. What is left over is for the caller to judge. -/
def parse (g : Grammar) (arguments : List String) : Except Halt Parsed := do
  let p ← g.consume {} (← g.classifyAll arguments)
  if p.operands.isNone then throw (.usage (.missing g.operand))
  return p

end Grammar

/-- Refuse arguments that are left over. -/
def refuseExtras (extras : List String) : Except Halt Unit :=
  if extras.isEmpty then .ok () else .error (.usage (.unrecognized extras))

end CalcLint
