import CalcLint.Config
import Mathlib

/-!
# Decoding a configuration

An entry has up to three parts that can be wrong: its shape, its switch and its severity. Each is
judged by itself. A part that is wrong counts as absent and is warned about, and the others keep
their say. Entries are independent of each other in the same way: what a rule is told hangs on its
own entry only, and the warnings follow the entries.
-/
namespace CalcLint

/-- The severities that a configuration may name. -/
def configurable : List Severity :=
  [.error, .warning, .info]

/-- The name is that of the severity, each letter in either case. -/
def SpellsSeverity (name : String) (severity : Severity) : Prop :=
  List.Forall₂ (fun c d => c = d ∨ c = d.toUpper) name.toList severity.name.toList

/-- The name of a severity in any letter case. -/
def NamesSeverity (name : String) : Prop :=
  ∃ severity ∈ configurable, SpellsSeverity name severity

theorem toLower_eq_iff {c d : Char} (hd : d.toLower = d) :
    c.toLower = d ↔ c = d ∨ c = d.toUpper := by
  constructor
  · rintro rfl
    by_cases hupper : c.isUpper = true
    · have hself : c.toUpper = c :=
        Char.toUpper_eq_of_not_isLower (Char.not_isLower_of_isUpper hupper)
      rw [Char.toUpper_toLower_eq_toUpper, hself]
      exact Or.inr rfl
    · exact Or.inl (Char.toLower_eq_of_not_isUpper hupper).symm
  · rintro (rfl | rfl)
    · exact hd
    · rw [Char.toLower_toUpper_eq_toLower, hd]

theorem map_toLower_eq_iff {name letters : List Char} (h : ∀ d ∈ letters, d.toLower = d) :
    name.map Char.toLower = letters ↔
      List.Forall₂ (fun c d => c = d ∨ c = d.toUpper) name letters := by
  induction name generalizing letters with
  | nil => cases letters <;> simp
  | cons c name ih =>
    cases letters with
    | nil => simp
    | cons d letters =>
      rw [List.map_cons, List.cons.injEq, List.forall₂_cons,
        toLower_eq_iff (h d List.mem_cons_self), ih fun e he => h e (List.mem_cons_of_mem d he)]

@[simp] theorem mem_known_iff {severity : Severity} :
    severity ∈ Severity.known ↔ severity ∈ configurable := by
  simp [Severity.known, configurable, or_comm]

/-- A severity is read from its name in any letter case, and from nothing else. -/
@[simp] theorem ofName?_eq_some_iff {name : String} {severity : Severity} :
    Severity.ofName? name = some severity ↔
      severity ∈ configurable ∧ SpellsSeverity name severity := by
  have hlower : ∀ s ∈ Severity.known, ∀ d ∈ s.name.toList, d.toLower = d := by
    simp [Severity.known, Severity.error, Severity.info, Severity.warning]
  have hreads : ∀ s, Severity.ofName? name = some s →
      (s.name.toList == name.toList.map Char.toLower) = true := fun s h =>
    List.find?_some (p := fun s : Severity => s.name.toList == name.toList.map Char.toLower) h
  have hspells : ∀ s ∈ Severity.known,
      (s.name.toList == name.toList.map Char.toLower) = true ↔ SpellsSeverity name s := by
    intro s hs
    rw [beq_iff_eq, eq_comm]
    exact map_toLower_eq_iff (hlower s hs)
  rw [← mem_known_iff]
  constructor
  · intro h
    have hmem := List.mem_of_find?_eq_some h
    exact ⟨hmem, (hspells severity hmem).mp (hreads severity h)⟩
  · rintro ⟨hmem, hname⟩
    cases hfind : Severity.ofName? name with
    | none =>
      exact absurd ((hspells severity hmem).mpr hname) (List.find?_eq_none.mp hfind severity hmem)
    | some other =>
      -- Two severities with the same letters have the same name.
      have hother := beq_iff_eq.mp (hreads other hfind)
      have hsame := beq_iff_eq.mp ((hspells severity hmem).mpr hname)
      have hnames : other.name = severity.name := String.toList_inj.mp (hother.trans hsame.symm)
      cases other
      cases severity
      cases hnames
      rfl

theorem namesSeverity_iff {name : String} :
    NamesSeverity name ↔ (Severity.ofName? name).isSome = true := by
  rw [Option.isSome_iff_exists]
  simp only [ofName?_eq_some_iff]
  rfl

instance (name : String) : Decidable (NamesSeverity name) :=
  decidable_of_iff _ namesSeverity_iff.symm

/-- What is judged about an entry. -/
inductive EntryPart where
  | shape
  | switch
  | severity
  deriving DecidableEq, Repr

namespace EntryPart

/-- The parts in the order in which they are judged. -/
def all : List EntryPart :=
  [.shape, .switch, .severity]

/-- What an entry gives for a part. A switch alone and the name of a severity alone stand for the
table that holds nothing else. -/
def given? : EntryPart → Value → Option Value
  | .shape, entry => some entry
  | .switch, .bool enabled => some (.bool enabled)
  | .switch, .table entries => entries.lookup "enabled"
  | .severity, .text name => some (.text name)
  | .severity, .table entries => entries.lookup "severity"
  | _, _ => none

/-- Whether what is given for a part can be used. Null is one way to give no severity, but it is no
switch. -/
def accepts : EntryPart → Value → Bool
  | .shape, .bool _ => true
  | .shape, .text _ => true
  | .shape, .table _ => true
  | .switch, .bool _ => true
  | .severity, .null => true
  | .severity, .text name => decide (NamesSeverity name)
  | _, _ => false

def warning (rule : String) : EntryPart → Value → ConfigWarning
  | .shape => .notATable rule
  | .switch => .badSwitch rule
  | .severity => .badSeverity rule

/-- What an entry gives for a part that cannot be used. -/
def malformed? (part : EntryPart) (entry : Value) : Option Value :=
  (part.given? entry).filter fun given => !part.accepts given

end EntryPart

/-- The parts of an entry that cannot be used, each with what is given for it. -/
def malformedParts (entry : Value) : List (EntryPart × Value) :=
  EntryPart.all.flatMap fun part => (part.malformed? entry).toList.map (part, ·)

/-- The switch that is meant by what is given for it. -/
def switchOf : Option Value → Bool
  | some (.bool enabled) => enabled
  | _ => true

/-- The severity that is meant by what is given for it. -/
def severityOf : Option Value → Option Severity
  | some (.text name) => Severity.ofName? name
  | _ => none

/-- The options that an entry asks for, each from its own part. -/
def optionsOf (entry : Value) : RuleOptions where
  enabled := switchOf (EntryPart.switch.given? entry)
  severity := severityOf (EntryPart.severity.given? entry)

/-- An entry that nothing is wrong with: a switch, the name of a severity, or a table of both in
which either may be missing and null may stand for the severity. -/
inductive WellFormedEntry : Value → Prop where
  | switch (enabled : Bool) : WellFormedEntry (.bool enabled)
  | severity {name : String} (named : NamesSeverity name) : WellFormedEntry (.text name)
  | table {entries : Table}
      (switch : ∀ given, entries.lookup "enabled" = some given → ∃ enabled, given = .bool enabled)
      (severity : ∀ given, entries.lookup "severity" = some given →
        given = .null ∨ ∃ name, given = .text name ∧ NamesSeverity name) :
      WellFormedEntry (.table entries)

/-- What is warned about because of an entry. -/
def entryWarnings (known : List String) (entry : String × Value) : List ConfigWarning :=
  if entry.1 ∈ known then
    (malformedParts entry.2).map fun bad => bad.1.warning entry.1 bad.2
  else [.unknownRule entry.1]

theorem decodeSwitch_eq (rule : String) (entries : Table) :
    decodeSwitch rule entries =
      (switchOf (entries.lookup "enabled"),
        (EntryPart.switch.malformed? (.table entries)).toList.map (.badSwitch rule)) := by
  rw [decodeSwitch, EntryPart.malformed?, EntryPart.given?]
  cases entries.lookup "enabled" with
  | none => rfl
  | some given => cases given <;> rfl

theorem decodeSeverity_eq (rule : String) {given : Value} (h : given ≠ .null) :
    decodeSeverity rule given =
      (severityOf (some given),
        ((some given).filter fun value => !EntryPart.severity.accepts value).toList.map
          (.badSeverity rule)) := by
  cases given with
  | null => contradiction
  | text name =>
    have haccepts : EntryPart.severity.accepts (.text name) = (Severity.ofName? name).isSome := by
      simp [EntryPart.accepts, namesSeverity_iff]
    rw [decodeSeverity, severityOf, Option.filter_some, haccepts]
    cases Severity.ofName? name <;> rfl
  | _ => rfl

theorem decodeSeverityEntry_eq (rule : String) (entries : Table) :
    decodeSeverityEntry rule entries =
      (severityOf (entries.lookup "severity"),
        (EntryPart.severity.malformed? (.table entries)).toList.map (.badSeverity rule)) := by
  rw [decodeSeverityEntry, EntryPart.malformed?, EntryPart.given?]
  cases entries.lookup "severity" with
  | none => rfl
  | some given =>
    cases given with
    | null => rfl
    | _ => exact decodeSeverity_eq rule (by simp)

/-- Decoding an entry reads each part by itself and warns about those that cannot be used. -/
theorem decodeOptions_eq (rule : String) (entry : Value) :
    decodeOptions rule entry =
      (optionsOf entry, (malformedParts entry).map fun bad => bad.1.warning rule bad.2) := by
  have hwarnings : (malformedParts entry).map (fun bad => bad.1.warning rule bad.2) =
      (EntryPart.shape.malformed? entry).toList.map (.notATable rule) ++
        ((EntryPart.switch.malformed? entry).toList.map (.badSwitch rule) ++
          (EntryPart.severity.malformed? entry).toList.map (.badSeverity rule)) := by
    simp [malformedParts, EntryPart.all, EntryPart.warning, Function.comp_def]
  rw [hwarnings]
  cases entry with
  | text name =>
    rw [decodeOptions, decodeSeverity_eq rule (by simp)]
    rfl
  | table entries =>
    rw [decodeOptions, decodeSwitch_eq, decodeSeverityEntry_eq]
    rfl
  | _ => rfl

@[simp] theorem mem_malformedParts {entry : Value} {bad : EntryPart × Value} :
    bad ∈ malformedParts entry ↔
      bad.1.given? entry = some bad.2 ∧ bad.1.accepts bad.2 = false := by
  obtain ⟨part, given⟩ := bad
  have hall : part ∈ EntryPart.all := by cases part <;> decide
  simp only [malformedParts, List.mem_flatMap, List.mem_map, Option.mem_toList,
    EntryPart.malformed?, Option.filter_eq_some_iff, Prod.mk.injEq]
  constructor
  · rintro ⟨_, _, _, ⟨hgiven, hbad⟩, rfl, rfl⟩
    exact ⟨hgiven, by simpa using hbad⟩
  · rintro ⟨hgiven, hbad⟩
    exact ⟨part, hall, given, ⟨hgiven, by simpa using hbad⟩, rfl, rfl⟩

@[simp] theorem accepts_switch_iff {given : Value} :
    EntryPart.switch.accepts given = true ↔ ∃ enabled, given = .bool enabled := by
  cases given <;> simp [EntryPart.accepts]

@[simp] theorem accepts_severity_iff {given : Value} :
    EntryPart.severity.accepts given = true ↔
      given = .null ∨ ∃ name, given = .text name ∧ NamesSeverity name := by
  cases given <;> simp [EntryPart.accepts]

/-- An entry without malformed parts is well-formed. -/
@[simp] theorem malformedParts_eq_nil_iff {entry : Value} :
    malformedParts entry = [] ↔ WellFormedEntry entry := by
  have hnone : malformedParts entry = [] ↔
      ∀ (part : EntryPart) (given : Value), part.given? entry = some given →
        part.accepts given = true := by
    rw [List.eq_nil_iff_forall_not_mem]
    simp only [mem_malformedParts, Prod.forall, not_and, Bool.not_eq_false]
  rw [hnone]
  constructor
  · intro h
    cases entry with
    | bool enabled => exact .switch enabled
    | text name => exact .severity (by simpa [EntryPart.accepts] using h .severity _ rfl)
    | table entries =>
      exact .table (fun given hgiven => accepts_switch_iff.mp (h .switch given hgiven))
        (fun given hgiven => accepts_severity_iff.mp (h .severity given hgiven))
    | _ => exact absurd (h .shape _ rfl) (by simp [EntryPart.accepts])
  · intro h part given hgiven
    cases h with
    | switch enabled => cases part <;> cases hgiven <;> rfl
    | severity named => cases part <;> cases hgiven <;> simp [EntryPart.accepts, named]
    | table switch severity =>
      cases part with
      | shape => cases hgiven; rfl
      | switch => exact accepts_switch_iff.mpr (switch given hgiven)
      | severity => exact accepts_severity_iff.mpr (severity given hgiven)

/-- The options have the default for a part. -/
def EntryPart.AtDefault (options : RuleOptions) : EntryPart → Prop
  | .shape => options = {}
  | .switch => options.enabled = true
  | .severity => options.severity = none

theorem atDefault_of_malformed {entry given : Value} {part : EntryPart}
    (hgiven : part.given? entry = some given) (hbad : part.accepts given = false) :
    part.AtDefault (optionsOf entry) := by
  cases part with
  | shape =>
    cases hgiven
    cases entry with
    | bool _ | text _ | table _ => contradiction
    | _ => rfl
  | switch =>
    show switchOf (EntryPart.switch.given? entry) = true
    rw [hgiven]
    cases given with
    | bool _ => contradiction
    | _ => rfl
  | severity =>
    show severityOf (EntryPart.severity.given? entry) = none
    rw [hgiven]
    cases given with
    | text name =>
      have hname : ¬ NamesSeverity name := by simpa [EntryPart.accepts] using hbad
      rwa [namesSeverity_iff, Option.not_isSome_iff_eq_none] at hname
    | _ => rfl

@[simp] theorem switchOf_eq_false_iff {given : Option Value} :
    switchOf given = false ↔ given = some (.bool false) := by
  unfold switchOf
  split
  · simp
  · rename_i hother
    simpa using hother false

@[simp] theorem severityOf_eq_some_iff {given : Option Value} {severity : Severity} :
    severityOf given = some severity ↔
      ∃ name, given = some (.text name) ∧
        severity ∈ configurable ∧ SpellsSeverity name severity := by
  unfold severityOf
  split
  · simp
  · rename_i hother
    simp only [reduceCtorEq, false_iff, not_exists, not_and]
    intro name hname
    exact absurd hname (hother name)

/-- Decoding keeps the entries of known rules in their order, and warns in the order of the
entries. -/
theorem decode_eq (known : List String) (table : Table) :
    LintConfig.decode known table =
      (⟨(table.filter (·.1 ∈ known)).map fun entry => (entry.1, optionsOf entry.2)⟩,
        table.flatMap (entryWarnings known)) := by
  induction table with
  | nil => rfl
  | cons entry rest ih =>
    obtain ⟨rule, given⟩ := entry
    rw [LintConfig.decode, ih, decodeOptions_eq, List.flatMap_cons, entryWarnings]
    by_cases hknown : rule ∈ known <;> simp [hknown]

theorem lookup_known (known : List String) (table : Table) (id : String) :
    ((table.filter (·.1 ∈ known)).map fun entry => (entry.1, optionsOf entry.2)).lookup id =
      if id ∈ known then (table.lookup id).map optionsOf else none := by
  induction table with
  | nil => simp
  | cons entry rest ih =>
    obtain ⟨rule, given⟩ := entry
    by_cases hid : id = rule
    · subst hid
      by_cases hknown : id ∈ known
      · simp [hknown]
      · simp only [hknown, if_false] at ih
        simp [hknown, ih]
    · have hne : (id == rule) = false := beq_false_of_ne hid
      by_cases hknown : rule ∈ known <;> simp [hknown, List.lookup_cons, hne, ih]

theorem optionsFor_decode (known : List String) (table : Table) (id : String) :
    (LintConfig.decode known table).1.optionsFor id =
      if id ∈ known then ((table.lookup id).map optionsOf).getD {} else {} := by
  rw [LintConfig.optionsFor, decode_eq, lookup_known]
  split <;> rfl

/-- Looking a rule up in a table without duplicates finds its entry wherever it stands. -/
theorem lookup_eq_some_iff_mem {table : Table} (h : (table.map Prod.fst).Nodup) {id : String}
    {entry : Value} : table.lookup id = some entry ↔ (id, entry) ∈ table := by
  rw [List.lookup_eq_some_iff]
  constructor
  · rintro ⟨front, back, rfl, _⟩
    simp
  · intro hmem
    obtain ⟨front, back, rfl⟩ := List.append_of_mem hmem
    refine ⟨front, back, rfl, ?_⟩
    intro other hother
    rw [List.map_append, List.map_cons, List.nodup_append] at h
    exact bne_iff_ne.mpr (h.2.2 other.1 (List.mem_map_of_mem hother) id List.mem_cons_self).symm

theorem lookup_perm {table table' : Table} (hperm : table'.Perm table)
    (hkeys : (table.map Prod.fst).Nodup) (id : String) : table'.lookup id = table.lookup id := by
  have hkeys' : (table'.map Prod.fst).Nodup := (hperm.map Prod.fst).nodup_iff.mpr hkeys
  ext entry
  rw [lookup_eq_some_iff_mem hkeys, lookup_eq_some_iff_mem hkeys', hperm.mem_iff]

theorem length_flatMap_entryWarnings (known : List String) (table : Table) :
    (table.flatMap (entryWarnings known)).length =
      table.countP (·.1 ∉ known) +
        ((table.filter (·.1 ∈ known)).map fun entry => (malformedParts entry.2).length).sum := by
  induction table with
  | nil => rfl
  | cons entry rest ih =>
    rw [List.flatMap_cons, List.length_append, ih, entryWarnings]
    by_cases hknown : entry.1 ∈ known
    · rw [if_pos hknown, List.countP_cons_of_neg (by simpa using hknown),
        List.filter_cons_of_pos (by simpa using hknown), List.map_cons, List.sum_cons,
        List.length_map]
      omega
    · rw [if_neg hknown, List.countP_cons_of_pos (by simpa using hknown),
        List.filter_cons_of_neg (by simpa using hknown), List.length_singleton]
      omega

@[simp] theorem entryWarnings_eq_nil_iff {known : List String} {entry : String × Value} :
    entryWarnings known entry = [] ↔ entry.1 ∈ known ∧ WellFormedEntry entry.2 := by
  rw [entryWarnings, ← malformedParts_eq_nil_iff]
  split <;> simp_all

/-- Decoding a table gives a configuration, whatever the table holds. It stores exactly the rules
that are known and have an entry, with severities that exist. What a rule is told hangs on its own
entry only, part by part: a malformed part takes its default, and a rule that is unknown or has no
entry takes all of them. There is one warning for each unknown rule and for each malformed part of
the others, in the order of the entries; so there is none exactly when every entry is well-formed
and for a known rule. -/
theorem decode_is_tolerant_and_local (known : List String) (table : Table) :
    ∃ config warnings, LintConfig.decode known table = (config, warnings) ∧
    config.rules.map Prod.fst = (table.map Prod.fst).filter (· ∈ known) ∧
    (∀ stored ∈ config.rules, ∀ severity, stored.2.severity = some severity →
      severity ∈ [Severity.error, .warning, .info]) ∧
    (∀ id entry, id ∈ known → table.lookup id = some entry →
      ((config.optionsFor id).enabled = false ↔
        EntryPart.switch.given? entry = some (.bool false)) ∧
      (∀ severity, (config.optionsFor id).severity = some severity ↔
        ∃ name, EntryPart.severity.given? entry = some (.text name) ∧
          severity ∈ [Severity.error, .warning, .info] ∧ SpellsSeverity name severity) ∧
      ∀ bad ∈ malformedParts entry, bad.1.AtDefault (config.optionsFor id)) ∧
    (∀ id, id ∉ known ∨ table.lookup id = none → config.optionsFor id = {}) ∧
    (∀ table' id, table'.lookup id = table.lookup id →
      (LintConfig.decode known table').1.optionsFor id = config.optionsFor id) ∧
    ((table.map Prod.fst).Nodup → ∀ table' : Table, table'.Perm table → ∀ id,
      (LintConfig.decode known table').1.optionsFor id = config.optionsFor id) ∧
    warnings = table.flatMap (entryWarnings known) ∧
    warnings.length = table.countP (·.1 ∉ known) +
      ((table.filter (·.1 ∈ known)).map fun entry => (malformedParts entry.2).length).sum ∧
    (warnings = [] ↔ ∀ entry ∈ table, entry.1 ∈ known ∧ WellFormedEntry entry.2) := by
  refine ⟨_, _, rfl, ?_, ?_, ?_, ?_, ?_, ?_, ?_, ?_, ?_⟩
  · rw [decode_eq, List.map_map, List.filter_map]
    rfl
  · intro stored hstored severity hseverity
    rw [decode_eq] at hstored
    obtain ⟨entry, _, rfl⟩ := List.mem_map.mp hstored
    obtain ⟨_, _, hmem, _⟩ := severityOf_eq_some_iff.mp hseverity
    exact hmem
  · intro id entry hknown hentry
    have hoptions : (LintConfig.decode known table).1.optionsFor id = optionsOf entry := by
      rw [optionsFor_decode, if_pos hknown, hentry]
      rfl
    rw [hoptions]
    refine ⟨switchOf_eq_false_iff, fun severity => severityOf_eq_some_iff, ?_⟩
    intro bad hbad
    obtain ⟨hgiven, hrefused⟩ := mem_malformedParts.mp hbad
    exact atDefault_of_malformed hgiven hrefused
  · intro id hid
    rw [optionsFor_decode]
    rcases hid with hunknown | habsent
    · rw [if_neg hunknown]
    · rw [habsent, Option.map_none, Option.getD_none, ite_self]
  · intro table' id hlookup
    rw [optionsFor_decode, optionsFor_decode, hlookup]
  · intro hkeys table' hperm id
    rw [optionsFor_decode, optionsFor_decode, lookup_perm hperm hkeys]
  · rw [decode_eq]
  · rw [decode_eq]
    exact length_flatMap_entryWarnings known table
  · rw [decode_eq, List.flatMap_eq_nil_iff]
    simp only [entryWarnings_eq_nil_iff]

/-- A number for a switch and a severity in capitals, below an entry for a rule that does not exist,
in either order of the two entries. -/
theorem decode_keeps_severity_beside_bad_switch :
    ∃ config warnings,
      LintConfig.decode ["ifEndifBalance"]
        [("ghost", .bool false),
          ("ifEndifBalance", .table [("enabled", .int 0), ("severity", .text "WARNING")])] =
        (config, warnings) ∧
      config.optionsFor "ifEndifBalance" = ⟨true, some .warning⟩ ∧
      config.optionsFor "ghost" = {} ∧
      (LintConfig.decode ["ifEndifBalance"]
        [("ifEndifBalance", .table [("enabled", .int 0), ("severity", .text "WARNING")]),
          ("ghost", .bool false)]).1.optionsFor "ifEndifBalance" = ⟨true, some .warning⟩ ∧
      warnings.length = 2 := by
  obtain ⟨config, warnings, hdecode, _, _, hparts, hdefault, _, hperm, _, hcount, _⟩ :=
    decode_is_tolerant_and_local ["ifEndifBalance"]
      [("ghost", .bool false),
        ("ifEndifBalance", .table [("enabled", .int 0), ("severity", .text "WARNING")])]
  obtain ⟨hswitch, hseverity, _⟩ := hparts "ifEndifBalance"
    (.table [("enabled", .int 0), ("severity", .text "WARNING")]) (by decide) rfl
  have hnamed : Severity.ofName? "WARNING" = some .warning := by cbv
  have henabled : (config.optionsFor "ifEndifBalance").enabled = true := by
    rw [← Bool.not_eq_false, hswitch]
    simp [EntryPart.given?]
  have hoptions : config.optionsFor "ifEndifBalance" = ⟨true, some .warning⟩ :=
    congrArg₂ RuleOptions.mk henabled
      ((hseverity .warning).mpr ⟨"WARNING", rfl, ofName?_eq_some_iff.mp hnamed⟩)
  refine ⟨config, warnings, hdecode, hoptions, hdefault "ghost" (Or.inl (by decide)), ?_, ?_⟩
  · rw [hperm (by decide) _ (List.Perm.swap _ _ _), hoptions]
  · have hvalid : NamesSeverity "WARNING" := namesSeverity_iff.mpr (by rw [hnamed]; rfl)
    have hbad : malformedParts (.table [("enabled", .int 0), ("severity", .text "WARNING")]) =
        [(.switch, .int 0)] := by
      simp [malformedParts, EntryPart.all, EntryPart.malformed?, EntryPart.given?,
        EntryPart.accepts, Option.filter_some, List.lookup, hvalid]
    simp [hcount, hbad]

end CalcLint
