import CalcLint.Proofs.ReportedFailures
import CalcLint.Proofs.Utf8

/-!
# When a configuration file loads

A configuration file loads, or is refused with an error that names it, unless something stops the
loading before the document is judged: a null character in the path, bytes that are no UTF-8, or an
integer with too many digits. These three are failures of another kind.
-/
namespace CalcLint

/-- A path cannot be asked for, cannot be read, or leads to bytes that are the written form of a
text or of none. -/
theorem file_cases (disk : Disk) (path : Path) :
    path.hasNull = true ∨ path.hasNull = false ∧
      ((∃ fault, disk path = .error fault) ∨ (∃ text, disk path = .ok (encodeUtf8 text)) ∨
        ∃ bytes, disk path = .ok bytes ∧ ∀ text, bytes ≠ encodeUtf8 text) := by
  cases hnull : path.hasNull with
  | true => exact .inl rfl
  | false =>
    refine .inr ⟨rfl, ?_⟩
    cases hread : disk path with
    | error fault => exact .inl ⟨fault, rfl⟩
    | ok bytes =>
      by_cases htext : ∃ text, bytes = encodeUtf8 text
      · obtain ⟨text, rfl⟩ := htext
        exact .inr (.inl ⟨text, rfl⟩)
      · exact .inr (.inr ⟨bytes, rfl, not_exists.mp htext⟩)

variable (host : Host) {disk : Disk} {path : Path}

theorem loadConfig_of_null (hnull : path.hasNull = true) :
    loadConfig host disk path = .error .nullInPath := by
  simp only [loadConfig, readFrom_eq_nullInPath_iff.mpr hnull]

theorem loadConfig_of_fault (hplain : path.hasNull = false) {fault : FileFault}
    (hread : disk path = .error fault) :
    loadConfig host disk path = .error (.config (.unreadable path fault)) := by
  simp only [loadConfig, readFrom_eq_fault_iff.mpr ⟨hplain, hread⟩]

theorem loadConfig_of_garbled (hplain : path.hasNull = false) {bytes : Bytes}
    (hread : disk path = .ok bytes) (hgarbled : ∀ text, bytes ≠ encodeUtf8 text) :
    ∃ cause, loadConfig host disk path = .error (.undecodable cause) := by
  obtain ⟨cause, hcause⟩ := exists_decodeUtf8_error_iff.mpr hgarbled
  refine ⟨cause, ?_⟩
  simp only [loadConfig, readFrom_eq_ok_iff.mpr ⟨hplain, hread⟩, hcause]

theorem loadConfig_of_text (hplain : path.hasNull = false) {text : Text}
    (hread : disk path = .ok (encodeUtf8 text)) :
    loadConfig host disk path =
      match Toml.readDocument text with
      | .error .invalid => .error (.config (.invalid path (host.complaint text)))
      | .error (.longInteger digits) => .error (.longInteger digits)
      | .ok document => .ok (configOfDocument path document) := by
  have hbytes := readFrom_eq_ok_iff.mpr ⟨hplain, hread⟩
  cases hdocument : Toml.readDocument text with
  | ok document => simp only [loadConfig, hbytes, decodeUtf8_encodeUtf8, hdocument]
  | error fault =>
    cases fault <;> simp only [loadConfig, hbytes, decodeUtf8_encodeUtf8, hdocument]

/-- Loading gives a configuration, or an error that names the configuration file, exactly when the
path holds no null character and the file, if it can be read, is the UTF-8 form of a text in which
no integer is too long. Which of the two it gives, and with what, hangs on the file and on its
document; a file that is no UTF-8 gives neither. -/
theorem loadConfig_settles_iff (host : Host) (disk : Disk) (path : Path) :
    (((∃ loaded, loadConfig host disk path = .ok loaded) ∨
        ∃ cause, loadConfig host disk path = .error (.config cause)) ↔
      path.hasNull = false ∧ ∀ bytes, disk path = .ok bytes →
        ∃ text, bytes = encodeUtf8 text ∧
          ∀ digits, Toml.readDocument text ≠ .error (.longInteger digits)) ∧
    (∀ loaded, loadConfig host disk path = .ok loaded ↔
      path.hasNull = false ∧ ∃ text document, disk path = .ok (encodeUtf8 text) ∧
        Toml.readDocument text = .ok document ∧ loaded = configOfDocument path document) ∧
    (∀ cause, loadConfig host disk path = .error (.config cause) ↔
      path.hasNull = false ∧
        ((∃ fault, disk path = .error fault ∧ cause = .unreadable path fault) ∨
          ∃ text, disk path = .ok (encodeUtf8 text) ∧
            Toml.readDocument text = .error .invalid ∧
            cause = .invalid path (host.complaint text))) ∧
    ((∃ cause, loadConfig host disk path = .error (.undecodable cause)) ↔
      path.hasNull = false ∧ ∃ bytes, disk path = .ok bytes ∧ ∀ text, bytes ≠ encodeUtf8 text) := by
  obtain hnull | ⟨hplain, ⟨fault, hread⟩ | ⟨text, hread⟩ | ⟨bytes, hread, hgarbled⟩⟩ :=
    file_cases disk path
  · simp [loadConfig_of_null host hnull, hnull]
  · simp [loadConfig_of_fault host hplain hread, hplain, hread, eq_comm]
  · have hinj : ∀ other, encodeUtf8 text = encodeUtf8 other ↔ text = other :=
      fun other => ⟨encodeUtf8_injective, congrArg encodeUtf8⟩
    rw [loadConfig_of_text host hplain hread]
    simp only [hread, hplain]
    cases hdocument : Toml.readDocument text with
    | ok document => simp [hinj, hdocument, eq_comm]
    | error fault =>
      cases fault with
      | invalid => simp [hinj, hdocument, eq_comm]
      | longInteger digits => simp [hinj, hdocument]
  · obtain ⟨cause, hload⟩ := loadConfig_of_garbled host hplain hread hgarbled
    simp [hload, hplain, hread, hgarbled]

/-- A configuration file of one byte that begins no character is not refused as a configuration
file. -/
theorem garbled_config_is_no_config_error :
    loadConfig .bare (FileTree.read ⟨[(["rules.toml"], some [0xFF])]⟩) (Path.ofString "rules.toml") =
      .error (.undecodable ⟨"utf-8", 0xFF, 0, 1, .invalidStart⟩) := by
  have hread : FileTree.read ⟨[(["rules.toml"], some [0xFF])]⟩ (Path.ofString "rules.toml") =
      .ok [0xFF] := by cbv
  have hdecoded : decodeUtf8 [0xFF] = .error ⟨"utf-8", 0xFF, 0, 1, .invalidStart⟩ := by
    rw [decodeUtf8, decodeUtf8From]
    rfl
  have hplain : (Path.ofString "rules.toml").hasNull = false := by cbv
  simp only [loadConfig, readFrom_eq_ok_iff.mpr ⟨hplain, hread⟩, hdecoded]

end CalcLint
