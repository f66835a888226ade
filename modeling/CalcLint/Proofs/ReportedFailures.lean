import CalcLint.CommandLine
import CalcLint.Proofs.FixRun
import Mathlib

/-!
# Which failures a run reports

A run meets at most one failure: what is wrong with its configuration, else what is wrong with the
first file it cannot read, else what is wrong with storing what it has changed. Most failures become
a line on the error channel and exit code 2. A few are passed on to the caller instead, among them
an encoding of which nothing is known, and they are the only way in which a run gives no exit code.
-/
namespace CalcLint

section Steps

variable {ε ε' α β : Type}

@[simp] theorem bind_eq_ok_iff {x : Except ε α} {f : α → Except ε β} {b : β} :
    x >>= f = .ok b ↔ ∃ a, x = .ok a ∧ f a = .ok b := by
  cases x <;> simp [bind, Except.bind]

@[simp] theorem bind_eq_error_iff {x : Except ε α} {f : α → Except ε β} {e : ε} :
    x >>= f = .error e ↔ x = .error e ∨ ∃ a, x = .ok a ∧ f a = .error e := by
  cases x <;> simp [bind, Except.bind]

@[simp] theorem mapError_eq_ok_iff {x : Except ε α} {g : ε → ε'} {a : α} :
    x.mapError g = .ok a ↔ x = .ok a := by
  cases x <;> simp [Except.mapError]

@[simp] theorem mapError_eq_error_iff {x : Except ε α} {g : ε → ε'} {e : ε'} :
    x.mapError g = .error e ↔ ∃ cause, x = .error cause ∧ g cause = e := by
  cases x <;> simp [Except.mapError]

end Steps

variable {host : Host} {disk : Disk} {encoding : Setting} {path : Path}

@[simp] theorem readFrom_eq_nullInPath_iff :
    readFrom disk path = .error .nullInPath ↔ path.hasNull = true := by
  cases hnull : path.hasNull with
  | true => simp [readFrom, hnull]
  | false => simp [readFrom, hnull]

@[simp] theorem readFrom_eq_fault_iff {fault : FileFault} :
    readFrom disk path = .error (.fault fault) ↔
      path.hasNull = false ∧ disk path = .error fault := by
  cases hnull : path.hasNull with
  | true => simp [readFrom, hnull]
  | false => simp [readFrom, hnull]

@[simp] theorem readFrom_eq_ok_iff {bytes : Bytes} :
    readFrom disk path = .ok bytes ↔ path.hasNull = false ∧ disk path = .ok bytes := by
  cases hnull : path.hasNull with
  | true => simp [readFrom, hnull]
  | false => simp [readFrom, hnull]

/-- A file can be opened: if it cannot be read, that shows only then. -/
def Opens (disk : Disk) (path : Path) : Prop :=
  path.hasNull = false ∧ ∀ fault, disk path = .error fault → fault.isLate = true

theorem openFrom_eq_error_iff {cause : ReadError} :
    openFrom disk path = .error cause ↔
      path.hasNull = true ∧ .nullInPath = cause ∨
      path.hasNull = false ∧
        ∃ fault, disk path = .error fault ∧ fault.isLate = false ∧ .fault fault = cause := by
  cases hnull : path.hasNull with
  | true => simp [openFrom, readFrom, hnull]
  | false =>
    cases hread : disk path with
    | ok bytes => simp [openFrom, readFrom, hnull, hread, Except.mapError]
    | error fault =>
      cases hlate : fault.isLate <;> simp [openFrom, readFrom, hnull, hread, hlate, Except.mapError]

@[simp] theorem openFrom_eq_ok_iff {opened : Except FileFault Bytes} :
    openFrom disk path = .ok opened ↔ Opens disk path ∧ disk path = opened := by
  cases hnull : path.hasNull with
  | true => simp [openFrom, readFrom, Opens, hnull]
  | false =>
    cases hread : disk path with
    | ok bytes => simp [openFrom, readFrom, Opens, hnull, hread, Except.mapError]
    | error fault =>
      cases hlate : fault.isLate <;>
        simp [openFrom, readFrom, Opens, hnull, hread, hlate, Except.mapError]

theorem encodingName_eq_error_iff {cause : Escape} :
    encodingName encoding = .error cause ↔
      encoding = .empty ∧ cause = .emptyEncoding ∨
      ∃ name, encoding = .value name ∧ '\x00' ∈ name.toList ∧ cause = .nullInEncoding := by
  cases encoding with
  | absent => simp [encodingName]
  | empty => simp [encodingName, eq_comm]
  | value name =>
    by_cases hnull : '\x00' ∈ name.toList
    · simp [encodingName, hnull, eq_comm]
    · simp [encodingName, hnull]

theorem readScript_eq_ok_iff {text : Text} :
    readScript host disk encoding path = .ok text ↔
      ∃ name codec bytes, encodingName encoding = .ok name ∧ host.codec name = .ok codec ∧
        path.hasNull = false ∧ disk path = .ok bytes ∧ codec.decode bytes = .ok text := by
  simp only [readScript, Host.codecOf, bind_eq_ok_iff, mapError_eq_ok_iff, openFrom_eq_ok_iff,
    Opens]
  constructor
  · rintro ⟨name, hname, opened, ⟨⟨hplain, -⟩, hread⟩, codec, hcodec, bytes, hbytes, hdecoded⟩
    exact ⟨name, codec, bytes, hname, hcodec, hplain, hread.trans hbytes, hdecoded⟩
  · rintro ⟨name, codec, bytes, hname, hcodec, hplain, hread, hdecoded⟩
    exact ⟨name, hname, .ok bytes, ⟨⟨hplain, by simp [hread]⟩, hread⟩, codec, hcodec, bytes, rfl,
      hdecoded⟩

/-- What is wrong with the configuration that is set, the checks in the order they are made. -/
inductive ConfigFails (host : Host) (disk : Disk) : Setting → Failure → Prop
  | empty : ConfigFails host disk .empty (.escape .emptyConfig)
  | nullInPath {path : String} (null : (Path.ofString path).hasNull = true) :
    ConfigFails host disk (.value path) (.escape .nullInPath)
  | unreadable {path : String} {fault : FileFault} (plain : (Path.ofString path).hasNull = false)
    (read : disk (Path.ofString path) = .error fault) :
    ConfigFails host disk (.value path) (.config (.unreadable (Path.ofString path) fault))
  | undecodable {path : String} {bytes : Bytes} {cause : DecodeError}
    (plain : (Path.ofString path).hasNull = false) (read : disk (Path.ofString path) = .ok bytes)
    (decoded : decodeUtf8 bytes = .error cause) :
    ConfigFails host disk (.value path) (.undecodable cause)
  | invalid {path : String} {bytes : Bytes} {text : Text}
    (plain : (Path.ofString path).hasNull = false) (read : disk (Path.ofString path) = .ok bytes)
    (decoded : decodeUtf8 bytes = .ok text) (document : Toml.readDocument text = .error .invalid) :
    ConfigFails host disk (.value path)
      (.config (.invalid (Path.ofString path) (host.complaint text)))
  | longInteger {path : String} {bytes : Bytes} {text : Text} {digits : Nat}
    (plain : (Path.ofString path).hasNull = false) (read : disk (Path.ofString path) = .ok bytes)
    (decoded : decodeUtf8 bytes = .ok text)
    (document : Toml.readDocument text = .error (.longInteger digits)) :
    ConfigFails host disk (.value path) (.escape (.longInteger digits))

/-- What is wrong with a script under the encoding that is set, the checks in the order they are
made: a file is opened before its encoding is looked up, and read afterwards. -/
inductive ScriptFails (host : Host) (disk : Disk) : Setting → Path → Failure → Prop
  | emptyEncoding {path : Path} : ScriptFails host disk .empty path (.escape .emptyEncoding)
  | nullInEncoding {name : String} {path : Path} (null : '\x00' ∈ name.toList) :
    ScriptFails host disk (.value name) path (.escape .nullInEncoding)
  | nullInPath {encoding : Setting} {name : String} {path : Path}
    (named : encodingName encoding = .ok name) (null : path.hasNull = true) :
    ScriptFails host disk encoding path (.escape .nullInPath)
  | unopened {encoding : Setting} {name : String} {path : Path} {fault : FileFault}
    (named : encodingName encoding = .ok name) (plain : path.hasNull = false)
    (read : disk path = .error fault) (early : fault.isLate = false) :
    ScriptFails host disk encoding path (.file path fault)
  | noCodec {encoding : Setting} {name : String} {path : Path} {cause : CodecMissing}
    (named : encodingName encoding = .ok name) (opens : Opens disk path)
    (missing : host.codec name = .error cause) :
    ScriptFails host disk encoding path (.escape (.noCodec name cause))
  | brokenOff {encoding : Setting} {name : String} {path : Path} {fault : FileFault} {codec : Codec}
    (named : encodingName encoding = .ok name) (opens : Opens disk path)
    (known : host.codec name = .ok codec) (read : disk path = .error fault) :
    ScriptFails host disk encoding path (.file path fault)
  | undecodable {encoding : Setting} {name : String} {path : Path} {bytes : Bytes} {codec : Codec}
    {cause : DecodeError} (named : encodingName encoding = .ok name)
    (plain : path.hasNull = false) (read : disk path = .ok bytes)
    (known : host.codec name = .ok codec)
    (decoded : codec.decode bytes = .error (.undecodable cause)) :
    ScriptFails host disk encoding path (.undecodable cause)
  | refused {encoding : Setting} {name : String} {path : Path} {bytes : Bytes} {codec : Codec}
    {reason : String} (named : encodingName encoding = .ok name)
    (plain : path.hasNull = false) (read : disk path = .ok bytes)
    (known : host.codec name = .ok codec)
    (decoded : codec.decode bytes = .error (.refused reason)) :
    ScriptFails host disk encoding path (.escape (.unreadable reason))

/-- What is wrong with the first of some files with which anything is wrong. -/
inductive FirstFails (host : Host) (disk : Disk) (encoding : Setting) :
    List String → Failure → Prop
  | here {file : String} {rest : List String} {failure : Failure}
    (fails : ScriptFails host disk encoding (Path.ofString file) failure) :
    FirstFails host disk encoding (file :: rest) failure
  | later {file : String} {rest : List String} {failure : Failure}
    (reads : ∀ other, ¬ ScriptFails host disk encoding (Path.ofString file) other)
    (fails : FirstFails host disk encoding rest failure) :
    FirstFails host disk encoding (file :: rest) failure

/-- What is wrong with writing back what a command has changed: the encoding cannot store it. -/
inductive WriteFails (host : Host) (disk : Disk) (encoding : Setting) (config : LintConfig) :
    Command → Failure → Prop
  | unwritable {file : String} {last : Bool} {text : Text} {r : FixOutcome} {name : String}
    {codec : Codec} {reason : String}
    (reads : readScript host disk encoding (Path.ofString file) = .ok text)
    (mends : fixText config last text = .ok r) (changes : r.fixed ≠ text)
    (named : encodingName encoding = .ok name) (known : host.codec name = .ok codec)
    (stores : codec.encode r.fixed = .error reason) :
    WriteFails host disk encoding config (.fix file last true) (.escape (.unwritable reason))

/-- The files a command reads, in order. -/
def Command.files : Command → List String
  | .check files _ _ => files
  | .fix file _ _ => [file]
  | .tokens file => [file]

/-- What an invocation meets that keeps it from its end. -/
inductive Invocation.Meets (host : Host) (disk : Disk) (invocation : Invocation) : Failure → Prop
  | config {failure : Failure} (fails : ConfigFails host disk invocation.config failure) :
    Meets host disk invocation failure
  | script {failure : Failure} (loads : ∀ other, ¬ ConfigFails host disk invocation.config other)
    (fails : FirstFails host disk invocation.encoding invocation.command.files failure) :
    Meets host disk invocation failure
  | writing {loaded : LintConfig × List ConfigWarning} {failure : Failure}
    (loads : loadSetting host disk invocation.config = .ok loaded)
    (fails : WriteFails host disk invocation.encoding loaded.1 invocation.command failure) :
    Meets host disk invocation failure

/-- A script is refused for what is wrong with it, and for nothing else. -/
@[simp] theorem readScript_eq_error_iff {failure : Failure} :
    readScript host disk encoding path = .error failure ↔
      ScriptFails host disk encoding path failure := by
  simp only [readScript, Host.codecOf, bind_eq_error_iff, mapError_eq_error_iff, mapError_eq_ok_iff]
  constructor
  · rintro (⟨cause, hname, rfl⟩ | ⟨name, hname, ⟨error, hopen, rfl⟩ | ⟨opened, hopen, h⟩⟩)
    · obtain ⟨rfl, rfl⟩ | ⟨name, rfl, hnull, rfl⟩ := encodingName_eq_error_iff.mp hname
      · exact .emptyEncoding
      · exact .nullInEncoding hnull
    · obtain ⟨hnull, rfl⟩ | ⟨hplain, fault, hread, hearly, rfl⟩ := openFrom_eq_error_iff.mp hopen
      · exact .nullInPath hname hnull
      · exact .unopened hname hplain hread hearly
    · obtain ⟨hopens, rfl⟩ := openFrom_eq_ok_iff.mp hopen
      obtain ⟨_, ⟨cause, hmissing, rfl⟩, rfl⟩ | ⟨codec, hknown, h⟩ := h
      · exact .noCodec hname hopens hmissing
      · obtain ⟨fault, hread, rfl⟩ | ⟨bytes, hread, cause, hdecoded, rfl⟩ := h
        · exact .brokenOff hname hopens hknown hread
        · cases cause with
          | undecodable cause => exact .undecodable hname hopens.1 hread hknown hdecoded
          | refused reason => exact .refused hname hopens.1 hread hknown hdecoded
  · intro h
    cases h with
    | emptyEncoding => exact .inl ⟨_, rfl, rfl⟩
    | nullInEncoding null =>
      exact .inl ⟨_, encodingName_eq_error_iff.mpr (.inr ⟨_, rfl, null, rfl⟩), rfl⟩
    | nullInPath named null =>
      exact .inr ⟨_, named, .inl ⟨_, openFrom_eq_error_iff.mpr (.inl ⟨null, rfl⟩), rfl⟩⟩
    | unopened named plain read early =>
      exact .inr ⟨_, named,
        .inl ⟨_, openFrom_eq_error_iff.mpr (.inr ⟨plain, _, read, early, rfl⟩), rfl⟩⟩
    | noCodec named opens missing =>
      exact .inr ⟨_, named, .inr ⟨_, openFrom_eq_ok_iff.mpr ⟨opens, rfl⟩,
        .inl ⟨_, ⟨_, missing, rfl⟩, rfl⟩⟩⟩
    | brokenOff named opens known read =>
      exact .inr ⟨_, named, .inr ⟨_, openFrom_eq_ok_iff.mpr ⟨opens, rfl⟩,
        .inr ⟨_, known, .inl ⟨_, read, rfl⟩⟩⟩⟩
    | undecodable named plain read known decoded =>
      exact .inr ⟨_, named, .inr ⟨_, openFrom_eq_ok_iff.mpr ⟨⟨plain, by simp [read]⟩, rfl⟩,
        .inr ⟨_, known, .inr ⟨_, read, _, decoded, rfl⟩⟩⟩⟩
    | refused named plain read known decoded =>
      exact .inr ⟨_, named, .inr ⟨_, openFrom_eq_ok_iff.mpr ⟨⟨plain, by simp [read]⟩, rfl⟩,
        .inr ⟨_, known, .inr ⟨_, read, _, decoded, rfl⟩⟩⟩⟩

/-- A configuration is refused for what is wrong with it, and for nothing else. -/
@[simp] theorem loadSetting_eq_error_iff {config : Setting} {failure : Failure} :
    loadSetting host disk config = .error failure ↔ ConfigFails host disk config failure := by
  constructor
  · intro h
    cases config with
    | absent => cases h
    | empty => cases h; exact .empty
    | value path =>
      simp only [loadSetting, loadConfig] at h
      split at h
      · rename_i hread
        cases h
        exact .nullInPath (readFrom_eq_nullInPath_iff.mp hread)
      · rename_i fault hread
        cases h
        obtain ⟨hplain, hdisk⟩ := readFrom_eq_fault_iff.mp hread
        exact .unreadable hplain hdisk
      · rename_i bytes hread
        obtain ⟨hplain, hdisk⟩ := readFrom_eq_ok_iff.mp hread
        split at h
        · rename_i cause hdecoded
          cases h
          exact .undecodable hplain hdisk hdecoded
        · rename_i text hdecoded
          split at h
          · rename_i hdocument
            cases h
            exact .invalid hplain hdisk hdecoded hdocument
          · rename_i digits hdocument
            cases h
            exact .longInteger hplain hdisk hdecoded hdocument
          · cases h
  · intro h
    cases h with
    | empty => rfl
    | nullInPath null =>
      simp only [loadSetting, loadConfig, readFrom_eq_nullInPath_iff.mpr null, Except.mapError,
        Failure.ofLoadError]
    | unreadable plain read =>
      simp only [loadSetting, loadConfig, readFrom_eq_fault_iff.mpr ⟨plain, read⟩, Except.mapError,
        Failure.ofLoadError]
    | undecodable plain read decoded =>
      simp only [loadSetting, loadConfig, readFrom_eq_ok_iff.mpr ⟨plain, read⟩, decoded,
        Except.mapError, Failure.ofLoadError]
    | invalid plain read decoded document =>
      simp only [loadSetting, loadConfig, readFrom_eq_ok_iff.mpr ⟨plain, read⟩, decoded, document,
        Except.mapError, Failure.ofLoadError]
    | longInteger plain read decoded document =>
      simp only [loadSetting, loadConfig, readFrom_eq_ok_iff.mpr ⟨plain, read⟩, decoded, document,
        Except.mapError, Failure.ofLoadError]

/-- Linting stops at the first file that cannot be read. -/
@[simp] theorem lintFiles_eq_some_iff {config : LintConfig}
    {files : List String} {failure : Failure} :
    (lintFiles host disk encoding config files).2 = some failure ↔
      FirstFails host disk encoding files failure := by
  induction files with
  | nil =>
    constructor
    · intro h; cases h
    · intro h; cases h
  | cons file rest ih =>
    cases hread : readScript host disk encoding (Path.ofString file) with
    | error cause =>
      have hfails := readScript_eq_error_iff.mp hread
      simp only [lintFiles, hread, Option.some.injEq]
      constructor
      · rintro rfl
        exact .here hfails
      · intro h
        cases h with
        | here fails =>
          rw [← readScript_eq_error_iff, hread] at fails
          exact Except.error.inj fails
        | later reads _ => exact absurd hfails (reads cause)
    | ok text =>
      have hreads : ∀ other, ¬ ScriptFails host disk encoding (Path.ofString file) other := by
        intro other hother
        rw [← readScript_eq_error_iff, hread] at hother
        cases hother
      simp only [lintFiles, hread, ih]
      constructor
      · exact .later hreads
      · intro h
        cases h with
        | here fails => exact absurd fails (hreads failure)
        | later _ fails => exact fails

@[simp] theorem firstFails_singleton {file : String}
    {failure : Failure} :
    FirstFails host disk encoding [file] failure ↔
      readScript host disk encoding (Path.ofString file) = .error failure := by
  rw [readScript_eq_error_iff]
  constructor
  · intro h
    cases h with
    | here fails => exact fails
    | later _ fails => cases fails
  · exact .here

/-- Every text can be mended: no diagnostic points beside it. -/
theorem exists_fixText (config : LintConfig) (last : Bool) (text : Text) :
    ∃ r, fixText config last text = .ok r := by
  cases last with
  | false =>
    unfold fixText
    rw [fix_eq]
    exact ⟨_, rfl⟩
  | true =>
    unfold fixText
    rw [fixLast_eq]
    cases (diagnosticsOf .missingEndfix (lint config text)).getLast? with
    | none => exact ⟨_, rfl⟩
    | some d => exact ⟨_, rfl⟩

/-- A text that is written back to where one was read can only be refused by the codec in use. -/
theorem scriptBytes_eq_error_iff {text fixed : Text} {cause : Escape}
    (hread : readScript host disk encoding path = .ok text) :
    scriptBytes host encoding fixed = .error cause ↔
      ∃ name codec reason, encodingName encoding = .ok name ∧ host.codec name = .ok codec ∧
        codec.encode fixed = .error reason ∧ .unwritable reason = cause := by
  obtain ⟨name, codec, _, hname, hcodec, -⟩ := readScript_eq_ok_iff.mp hread
  simp [scriptBytes, Host.codecOf, hname, hcodec]

/-- What a fix does with a file it can read: it shows the mended text, or it is told to write and
leaves the file alone, or overwrites it, or empties it and fails. -/
theorem fixCommand_cases (config : LintConfig) {file : String} (last write : Bool) {text : Text}
    (hread : readScript host disk encoding (Path.ofString file) = .ok text) :
    ∃ r result, fixText config last text = .ok r ∧
      fixCommand host disk encoding config file last write = result ∧
      (write = false ∧ result.ending = .ok 0 ∧ result.writes = [] ∧
          result.output = String.ofList r.fixed ∨
        write = true ∧ r.fixed = text ∧ result.ending = .ok 0 ∧ result.writes = [] ∨
        write = true ∧ r.fixed ≠ text ∧ result.ending = .ok 0 ∧
          (∃ bytes, scriptBytes host encoding r.fixed = .ok bytes ∧
            result.writes = [(Path.ofString file, bytes)]) ∨
        write = true ∧ r.fixed ≠ text ∧ result.writes = [(Path.ofString file, [])] ∧
          ∃ cause, scriptBytes host encoding r.fixed = .error cause ∧
            result.ending = .error (.escape cause)) := by
  obtain ⟨r, hr⟩ := exists_fixText config last text
  refine ⟨r, _, hr, rfl, ?_⟩
  simp only [fixCommand, hread, hr]
  cases write with
  | false => exact .inl ⟨rfl, rfl, rfl, rfl⟩
  | true =>
    by_cases hsame : r.fixed = text
    · exact .inr (.inl (by simp [hsame]))
    · cases hbytes : scriptBytes host encoding r.fixed with
      | ok bytes => exact .inr (.inr (.inl (by simp [hsame])))
      | error cause => exact .inr (.inr (.inr (by simp [hsame])))

/-- Writing back what a fix has changed fails for the codec, and for the very text that was to be
written. -/
theorem writeFails_fix_iff {config : LintConfig} {file : String} {last write : Bool} {text : Text}
    {r : FixOutcome} {failure : Failure}
    (hread : readScript host disk encoding (Path.ofString file) = .ok text)
    (hmends : fixText config last text = .ok r) :
    WriteFails host disk encoding config (.fix file last write) failure ↔
      write = true ∧ r.fixed ≠ text ∧
        ∃ cause, scriptBytes host encoding r.fixed = .error cause ∧ failure = .escape cause := by
  simp only [scriptBytes_eq_error_iff hread]
  constructor
  · intro h
    cases h with
    | unwritable reads mends changes named known stores =>
      cases hread.symm.trans reads
      cases hmends.symm.trans mends
      exact ⟨rfl, changes, _, ⟨_, _, _, named, known, stores, rfl⟩, rfl⟩
  · rintro ⟨rfl, changes, _, ⟨_, _, _, named, known, stores, rfl⟩, rfl⟩
    exact .unwritable hread hmends changes named known stores

/-- How a command ends: early for the first file it cannot read or for what it cannot write back,
else with exit code 0 or 1. -/
theorem Command.run_ending (host : Host) (disk : Disk) (encoding : Setting) (config : LintConfig)
    (command : Command) :
    (∀ failure, (command.run host disk encoding config).ending = .error failure ↔
      FirstFails host disk encoding command.files failure ∨
        WriteFails host disk encoding config command failure) ∧
    ∀ exit, (command.run host disk encoding config).ending = .ok exit → exit ≤ 1 := by
  cases command with
  | check files format order =>
    have hwrites : ∀ failure,
        ¬ WriteFails host disk encoding config (.check files format order) failure :=
      fun failure h => by cases h
    simp only [Command.run, checkCommand, Command.files, hwrites, or_false,
      ← @lintFiles_eq_some_iff host disk encoding config]
    cases (lintFiles host disk encoding config files).2 with
    | none =>
      refine ⟨by simp, ?_⟩
      intro exit h
      cases h
      split <;> omega
    | some failure => simp
  | fix file last write =>
    simp only [Command.run, Command.files, firstFails_singleton]
    cases hread : readScript host disk encoding (Path.ofString file) with
    | error failure =>
      have hwrites : ∀ other,
          ¬ WriteFails host disk encoding config (.fix file last write) other := by
        intro other h
        cases h with
        | unwritable reads => cases hread.symm.trans reads
      simp [fixCommand, hread, hwrites]
    | ok text =>
      obtain ⟨r, result, hmends, hresult, hcases⟩ := fixCommand_cases config last write hread
      rw [hresult]
      simp only [writeFails_fix_iff hread hmends]
      obtain ⟨hwrite, hend, -⟩ | ⟨hwrite, hsame, hend, -⟩ | ⟨hwrite, -, hend, bytes, hbytes, -⟩ |
        ⟨hwrite, hne, -, cause, hcause, hend⟩ := hcases
      · simp [hend, hwrite]
      · simp [hend, hsame]
      · simp [hend, hbytes]
      · simp [hend, hwrite, hne, hcause, eq_comm]
  | tokens file =>
    have hwrites : ∀ failure, ¬ WriteFails host disk encoding config (.tokens file) failure :=
      fun failure h => by cases h
    simp only [Command.run, tokensCommand, Command.files, hwrites, or_false, firstFails_singleton]
    cases readScript host disk encoding (Path.ofString file) with
    | error failure => simp
    | ok text => simp

/-- How an invocation ends: early for what it meets, else with exit code 0 or 1. -/
theorem Invocation.run_ending (host : Host) (disk : Disk) (invocation : Invocation) :
    (∀ failure, (invocation.run host disk).ending = .error failure ↔
      invocation.Meets host disk failure) ∧
    ∀ exit, (invocation.run host disk).ending = .ok exit → exit ≤ 1 := by
  unfold Invocation.run
  cases hload : loadSetting host disk invocation.config with
  | error cause =>
    have hfails := loadSetting_eq_error_iff.mp hload
    refine ⟨?_, by simp⟩
    intro failure
    simp only [Except.error.injEq]
    constructor
    · rintro rfl
      exact .config hfails
    · intro h
      cases h with
      | config fails =>
        rw [← loadSetting_eq_error_iff, hload] at fails
        exact Except.error.inj fails
      | script loads _ => exact absurd hfails (loads cause)
      | writing loads _ => cases hload.symm.trans loads
  | ok loaded =>
    have hloads : ∀ other, ¬ ConfigFails host disk invocation.config other := by
      intro other hother
      rw [← loadSetting_eq_error_iff, hload] at hother
      cases hother
    obtain ⟨hearly, hexit⟩ :=
      invocation.command.run_ending host disk invocation.encoding loaded.1
    refine ⟨?_, hexit⟩
    intro failure
    constructor
    · intro h
      obtain hfails | hfails := (hearly failure).mp h
      · exact .script hloads hfails
      · exact .writing hload hfails
    · intro h
      cases h with
      | config fails => exact absurd fails (hloads failure)
      | script _ fails => exact (hearly failure).mpr (.inl fails)
      | writing loads fails =>
        cases hload.symm.trans loads
        exact (hearly failure).mpr (.inr fails)

/-- Under a configuration that loads, an invocation runs its command. -/
theorem Invocation.run_loaded {invocation : Invocation}
    {loaded : LintConfig × List ConfigWarning}
    (hload : loadSetting host disk invocation.config = .ok loaded) :
    invocation.run host disk =
      { invocation.command.run host disk invocation.encoding loaded.1 with
        notes := configNotes loaded.2 ++
          (invocation.command.run host disk invocation.encoding loaded.1).notes } := by
  unfold Invocation.run
  rw [hload]

/-- The outcome of a run that is not cut short shows its exit code, its output and its writes. -/
theorem Invocation.outcome_of_ending_ok {invocation : Invocation} {exit : Nat}
    (h : (invocation.run host disk).ending = .ok exit) :
    ∃ log, invocation.outcome host disk =
      .ok ⟨exit, (invocation.run host disk).output, log, (invocation.run host disk).writes⟩ := by
  simp only [Invocation.outcome, h]
  exact ⟨_, rfl⟩

/-- A failure is reported: exit code 2, and its line is the last on the error channel. -/
def Outcome.Reports (outcome : Outcome) (encoding : Setting) (failure : Failure) : Prop :=
  outcome.exit = 2 ∧
    ∃ log line, failure.report encoding = .ok line ∧ outcome.stderr = log ++ line ++ "\n"

/-- An invocation gives no outcome exactly when it meets a failure that is passed on. -/
@[simp] theorem Invocation.outcome_eq_error_iff {invocation : Invocation} {cause : Escape} :
    invocation.outcome host disk = .error cause ↔ invocation.Meets host disk (.escape cause) := by
  rw [← (invocation.run_ending host disk).1]
  cases hend : (invocation.run host disk).ending with
  | ok exit => simp [Invocation.outcome, hend]
  | error failure =>
    cases failure <;> simp [Invocation.outcome, hend, Failure.report, Except.map]

/-- The outcome of an invocation reports what the invocation meets, and shows exit code 0 or 1 if
that is nothing. -/
theorem Invocation.outcome_eq_ok {invocation : Invocation} {outcome : Outcome}
    (h : invocation.outcome host disk = .ok outcome) :
    (∀ failure, invocation.Meets host disk failure → outcome.Reports invocation.encoding failure) ∧
    ((∀ failure, ¬ invocation.Meets host disk failure) → outcome.exit ≤ 1) := by
  obtain ⟨hearly, hexit⟩ := invocation.run_ending host disk
  simp only [← hearly]
  cases hend : (invocation.run host disk).ending with
  | ok exit =>
    simp only [Invocation.outcome, hend] at h
    cases h
    exact ⟨by simp, fun _ => hexit exit hend⟩
  | error failure =>
    refine ⟨?_, fun hnone => absurd rfl (hnone failure)⟩
    rintro _ ⟨rfl⟩
    simp only [Invocation.outcome, hend] at h
    cases hreport : failure.report invocation.encoding with
    | error cause => rw [hreport] at h; cases h
    | ok line =>
      rw [hreport] at h
      cases h
      exact ⟨rfl, _, line, hreport, rfl⟩

theorem Invocation.Meets.unique {invocation : Invocation} {one two : Failure}
    (hone : invocation.Meets host disk one) (htwo : invocation.Meets host disk two) :
    one = two := by
  rw [← (invocation.run_ending host disk).1] at hone htwo
  exact Except.error.inj (hone.symm.trans htwo)

theorem run_of_parse {arguments : List String} {invocation : Invocation}
    (h : Invocation.parse arguments = .ok invocation) :
    run host disk arguments = invocation.outcome host disk := by
  simp only [run, h]

/-- When arguments are accepted, the program gives an exit code, and reports with exit code 2
whatever it meets, exactly when it meets no failure that is passed on; what its caller then gets is
that failure. Exit code 2 stands for nothing else. -/
theorem run_reports_iff_no_escape {arguments : List String} {invocation : Invocation}
    (accepted : Invocation.parse arguments = .ok invocation) :
    ((∃ outcome, run host disk arguments = .ok outcome ∧ outcome.exit ≤ 2 ∧
        ∀ failure, invocation.Meets host disk failure →
          outcome.Reports invocation.encoding failure) ↔
      ∀ cause, ¬ invocation.Meets host disk (.escape cause)) ∧
    (∀ cause, run host disk arguments = .error cause ↔ invocation.Meets host disk (.escape cause)) ∧
    ∀ outcome, run host disk arguments = .ok outcome →
      (outcome.exit = 2 ↔ ∃ failure, invocation.Meets host disk failure) := by
  have hrun : run host disk arguments = invocation.outcome host disk := by
    simp only [run, accepted]
  rw [hrun]
  have htwo : ∀ outcome, invocation.outcome host disk = .ok outcome →
      (outcome.exit = 2 ↔ ∃ failure, invocation.Meets host disk failure) := by
    intro outcome h
    obtain ⟨hreports, hexit⟩ := Invocation.outcome_eq_ok h
    constructor
    · intro hexit2
      by_contra hnone
      have hle := hexit (not_exists.mp hnone)
      omega
    · rintro ⟨failure, hmeets⟩
      exact (hreports failure hmeets).1
  refine ⟨⟨?_, ?_⟩, fun cause => Invocation.outcome_eq_error_iff, htwo⟩
  · rintro ⟨outcome, houtcome, -⟩ cause hmeets
    rw [Invocation.outcome_eq_error_iff.mpr hmeets] at houtcome
    cases houtcome
  · intro hnone
    cases h : invocation.outcome host disk with
    | error cause => exact absurd (Invocation.outcome_eq_error_iff.mp h) (hnone cause)
    | ok outcome =>
      obtain ⟨hreports, hexit⟩ := Invocation.outcome_eq_ok h
      refine ⟨outcome, rfl, ?_, hreports⟩
      by_cases hmeets : ∃ failure, invocation.Meets host disk failure
      · exact ((htwo outcome h).mpr hmeets).le
      · exact (hexit (not_exists.mp hmeets)).trans (by decide)

/-- A byte that is not ASCII, in a file that is to be read as such under another name of ASCII, is
reported. -/
theorem run_reports_byte_beyond_ascii :
    ∃ outcome, run .bare (FileTree.read ⟨[(["a.csc"], some [0x46, 0xE9])]⟩)
        ["--encoding", "US-ASCII", "check", "a.csc"] = .ok outcome ∧
      outcome.Reports (.value "US-ASCII") (.undecodable ⟨"ascii", 0xE9, 1, 1, .notAscii⟩) := by
  have hknown : Encoding.ofName? "US-ASCII" = some .ascii := by decide +kernel
  have hmeets : Invocation.Meets .bare (FileTree.read ⟨[(["a.csc"], some [0x46, 0xE9])]⟩)
      { encoding := .value "US-ASCII", command := .check ["a.csc"] .text .byRule }
      (.undecodable ⟨"ascii", 0xE9, 1, 1, .notAscii⟩) := by
    refine .script (fun _ h => by cases h) (.here ?_)
    have hread : FileTree.read ⟨[(["a.csc"], some [0x46, 0xE9])]⟩ (Path.ofString "a.csc") =
        .ok [0x46, 0xE9] := by cbv
    exact .undecodable rfl rfl hread (Host.codec_of_known hknown _) rfl
  have haccepted : Invocation.parse ["--encoding", "US-ASCII", "check", "a.csc"] =
      .ok { encoding := .value "US-ASCII", command := .check ["a.csc"] .text .byRule } := by cbv
  obtain ⟨outcome, houtcome, -, hreports⟩ :=
    (run_reports_iff_no_escape haccepted).1.mpr (fun _ h => by cases hmeets.unique h)
  exact ⟨outcome, houtcome, hreports _ hmeets⟩

/-- The name of an encoding of which nothing is known is accepted, but the failure it causes is not
reported. -/
theorem unknown_encoding_escapes :
    Invocation.parse ["--encoding", "klingon", "check", "a.csc"] =
        .ok { encoding := .value "klingon", command := .check ["a.csc"] .text .byRule } ∧
      run .bare (FileTree.read ⟨[(["a.csc"], some [0x46, 0x49, 0x58])]⟩)
        ["--encoding", "klingon", "check", "a.csc"] = .error (.noCodec "klingon" .unknown) := by
  have haccepted : Invocation.parse ["--encoding", "klingon", "check", "a.csc"] =
      .ok { encoding := .value "klingon", command := .check ["a.csc"] .text .byRule } := by cbv
  refine ⟨haccepted, ?_⟩
  simp only [run, haccepted]
  refine Invocation.outcome_eq_error_iff.mpr (.script (fun _ h => by cases h) (.here ?_))
  have hread : FileTree.read ⟨[(["a.csc"], some [0x46, 0x49, 0x58])]⟩ (Path.ofString "a.csc") =
      .ok [0x46, 0x49, 0x58] := by cbv
  have hmissing : Host.bare.codec "klingon" = .error .unknown := by
    have hname : Encoding.ofName? "klingon" = none := by decide +kernel
    simp only [Host.codec, hname, Host.bare]
  exact .noCodec rfl ⟨rfl, by simp [hread]⟩ hmissing

end CalcLint
