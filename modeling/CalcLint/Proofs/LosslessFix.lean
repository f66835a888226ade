import CalcLint.Proofs.FileWrites
import CalcLint.Proofs.ReportedFailures
import CalcLint.Proofs.Utf8

/-!
# A fix loses nothing

Mending a file puts pieces into it and leaves every byte of it in place. What the program prints of
the mended text is what it would write, and it writes nothing when nothing is to be mended, when it
is not told to, or when it fails.
-/
namespace CalcLint

/-- What is put into a text for a missing closer: the indentation of one of its lines, the closer,
and one line break behind them or in front of them. -/
inductive ClosingPiece (text : Text) : Text → Prop
  | above {line : Line} {closer : Keyword} (ending : LineEnding) (hline : line ∈ lines text)
      (hcloser : closer ∈ [Keyword.endfix, .endif]) :
      ClosingPiece text (indentation line ++ closer.spelling ++ ending.chars)
  | below {line : Line} {closer : Keyword} (ending : LineEnding) (hline : line ∈ lines text)
      (hcloser : closer ∈ [Keyword.endfix, .endif]) :
      ClosingPiece text (ending.chars ++ (indentation line ++ closer.spelling))

theorem Mending.closingPiece {text : Text} {m : Mending} (hplaced : m.Placed text)
    (hcloser : ∃ b : Block, m.closer = b.closer) : ClosingPiece text (m.edit text).newText := by
  obtain ⟨line, hline, _⟩ := hplaced
  have hat : lineAt text m.opener = line := by rw [lineAt, hline, Option.getD_some]
  have hmem : line ∈ lines text := List.mem_of_getElem? hline
  have hkeyword : m.closer ∈ [Keyword.endfix, .endif] := by
    obtain ⟨b, hb⟩ := hcloser
    rw [hb]
    cases b <;> decide
  unfold Mending.edit Mending.row
  rw [hat]
  split
  · exact .above _ hmem hkeyword
  · exact .below _ hmem hkeyword

/-- A stretch of a file, and the piece that a fix puts in behind it. -/
structure Stretch where
  kept : Bytes
  inserted : Text

/-- Woven pieces stand behind stretches of the text, which together with a rest make up the text. -/
theorem exists_stretches_weave (start : Nat) (pieces : List (Nat × Text)) (text : Text) :
    ∃ stretches : List Stretch, ∃ rest : Bytes,
      stretches.map Stretch.inserted = pieces.map Prod.snd ∧
      encodeUtf8 text = stretches.flatMap Stretch.kept ++ rest ∧
      encodeUtf8 (weave start pieces text) =
        stretches.flatMap (fun s => s.kept ++ encodeUtf8 s.inserted) ++ rest := by
  induction pieces generalizing start text with
  | nil => exact ⟨[], encodeUtf8 text, rfl, rfl, rfl⟩
  | cons entry more ih =>
    obtain ⟨offset, piece⟩ := entry
    obtain ⟨stretches, rest, hpieces, htext, hwoven⟩ := ih offset (text.drop (offset - start))
    refine ⟨⟨encodeUtf8 (text.take (offset - start)), piece⟩ :: stretches, rest, ?_, ?_, ?_⟩
    · rw [List.map_cons, List.map_cons, hpieces]
    · rw [List.flatMap_cons, List.append_assoc, ← htext, ← encodeUtf8_append,
        List.take_append_drop]
    · rw [weave, encodeUtf8_append, encodeUtf8_append, hwoven]
      simp only [List.flatMap_cons, List.append_assoc]

theorem exists_stretches_applyEdits (text : Text) (edits : List Edit) :
    ∃ stretches : List Stretch, ∃ rest : Bytes,
      (stretches.map Stretch.inserted).Perm (edits.map Edit.newText) ∧
      encodeUtf8 text = stretches.flatMap Stretch.kept ++ rest ∧
      encodeUtf8 (applyEdits text edits) =
        stretches.flatMap (fun s => s.kept ++ encodeUtf8 s.inserted) ++ rest := by
  obtain ⟨stretches, rest, hpieces, htext, hwoven⟩ :=
    exists_stretches_weave 0 (insertions text edits) text
  refine ⟨stretches, rest, ?_, htext, hwoven⟩
  rw [hpieces]
  exact map_snd_insertions_perm text edits

/-- The diagnostics that a fix mends: every missing closer, or the last missing `ENDFIX` only. -/
def mendable (last : Bool) (diagnostics : List Diagnostic) : List Diagnostic :=
  if last then (diagnosticsOf .missingEndfix diagnostics).getLast?.toList
  else diagnostics.filter fun d =>
    d.code = Spec.missingEndfix.code ∨ d.code = Spec.missingEndif.code

theorem exists_mending?_iff {d : Diagnostic} :
    (∃ m, d.mending? = some m) ↔
      d.code = Spec.missingEndfix.code ∨ d.code = Spec.missingEndif.code := by
  simp only [mending?_eq_some_iff]
  constructor
  · rintro ⟨m, _, b, hcode, _⟩
    cases b with
    | fix => exact .inl hcode
    | chain => exact .inr hcode
  · rintro (hcode | hcode)
    · exact ⟨⟨d.range.start.line, .endfix⟩, rfl, .fix, hcode, rfl⟩
    · exact ⟨⟨d.range.start.line, .endif⟩, rfl, .chain, hcode, rfl⟩

theorem mem_of_mem_mendable {last : Bool} {diagnostics : List Diagnostic} {d : Diagnostic}
    (h : d ∈ mendable last diagnostics) : d ∈ diagnostics ∧ ∃ m, d.mending? = some m := by
  rw [exists_mending?_iff]
  unfold mendable at h
  split at h
  · have hlast := List.mem_of_getLast? (Option.mem_toList.mp h)
    obtain ⟨hmem, hcode⟩ := List.mem_filter.mp hlast
    exact ⟨hmem, .inl (of_decide_eq_true hcode)⟩
  · obtain ⟨hmem, hcode⟩ := List.mem_filter.mp h
    exact ⟨hmem, of_decide_eq_true hcode⟩

/-- The closers that a fix puts into a text. -/
def chosen (config : LintConfig) (last : Bool) (text : Text) : List Mending :=
  (mendable last (lint config text)).filterMap Diagnostic.mending?

@[simp] theorem length_chosen (config : LintConfig) (last : Bool) (text : Text) :
    (chosen config last text).length = (mendable last (lint config text)).length := by
  rw [chosen, List.filterMap_length_eq_length]
  intro d hd
  exact Option.isSome_iff_exists.mpr (mem_of_mem_mendable hd).2

theorem mem_mendings_of_mem_chosen {config : LintConfig} {last : Bool} {text : Text} {m : Mending}
    (h : m ∈ chosen config last text) : m ∈ mendings config text := by
  obtain ⟨d, hd, hm⟩ := List.mem_filterMap.mp h
  exact List.mem_filterMap.mpr ⟨d, (mem_of_mem_mendable hd).1, hm⟩

/-- A fix always succeeds, and gives the text with its chosen closers. -/
theorem exists_fixText_eq (config : LintConfig) (last : Bool) (text : Text) :
    ∃ r, fixText config last text = .ok r ∧
      r.fixed = applyEdits text ((chosen config last text).map (Mending.edit text)) := by
  cases last with
  | false =>
    have hchosen : chosen config false text = mendings config text := by
      unfold chosen mendable mendings
      rw [if_neg Bool.false_ne_true, List.filterMap_filter]
      apply List.filterMap_congr
      intro d _
      split
      · rfl
      · rename_i hcode
        symm
        rw [Option.eq_none_iff_forall_ne_some]
        intro m hm
        exact hcode (decide_eq_true (exists_mending?_iff.mp ⟨m, hm⟩))
    unfold fixText
    rw [fix_eq, hchosen]
    exact ⟨_, rfl, rfl⟩
  | true =>
    unfold fixText chosen mendable
    rw [fixLast_eq]
    cases hlast : (diagnosticsOf .missingEndfix (lint config text)).getLast? with
    | none => exact ⟨_, rfl, (applyEdits_nil text).symm⟩
    | some d =>
      obtain ⟨_, hcode⟩ := List.mem_filter.mp (List.mem_of_getLast? hlast)
      have hm : d.mending? = some ⟨d.range.start.line, .endfix⟩ :=
        mending?_eq_some_iff.mpr ⟨rfl, .fix, of_decide_eq_true hcode, rfl⟩
      refine ⟨_, rfl, ?_⟩
      simp [hm]

/-- A fixed file is the file with closing pieces put in, one for each diagnostic mended. -/
theorem exists_stretches_fixed (config : LintConfig) (last : Bool) (text : Text) :
    ∃ stretches : List Stretch, ∃ rest : Bytes,
      (∀ s ∈ stretches, ClosingPiece text s.inserted) ∧
      stretches.length = (mendable last (lint config text)).length ∧
      encodeUtf8 text = stretches.flatMap Stretch.kept ++ rest ∧
      encodeUtf8 (applyEdits text ((chosen config last text).map (Mending.edit text))) =
        stretches.flatMap (fun s => s.kept ++ encodeUtf8 s.inserted) ++ rest := by
  obtain ⟨stretches, rest, hpieces, htext, hfixed⟩ :=
    exists_stretches_applyEdits text ((chosen config last text).map (Mending.edit text))
  refine ⟨stretches, rest, ?_, ?_, htext, hfixed⟩
  · intro s hs
    have hmem := hpieces.subset (List.mem_map_of_mem hs)
    rw [List.map_map] at hmem
    obtain ⟨m, hm, hpiece⟩ := List.mem_map.mp hmem
    have hmending := mem_mendings_of_mem_chosen hm
    rw [← hpiece]
    exact m.closingPiece (placed_of_mem_mendings hmending) (exists_closer_of_mem_mendings hmending)
  · have hlength := hpieces.length_eq
    rw [List.length_map, List.length_map, List.length_map, length_chosen] at hlength
    exact hlength

/-- The encoding in use, if it is one that every host has. -/
def encodingOf? (encoding : Setting) : Option Encoding :=
  (encodingName encoding).toOption.bind Encoding.ofName?

section Runs

variable {host : Host} {disk : Disk} {encoding : Setting} {invocation : Invocation} {file : String}
  {last write : Bool}

@[simp] theorem encodingOf?_eq_some_iff {e : Encoding} :
    encodingOf? encoding = some e ↔
      ∃ name, encodingName encoding = .ok name ∧ Encoding.ofName? name = some e := by
  unfold encodingOf?
  cases encodingName encoding <;> simp [Except.toOption]

/-- A script in UTF-8 is read as the text of which it is the written form. -/
theorem readScript_utf8_iff (hencoding : encodingOf? encoding = some .utf8) {path : Path}
    {bytes : Bytes} (hbytes : readFrom disk path = .ok bytes) {text : Text} :
    readScript host disk encoding path = .ok text ↔ bytes = encodeUtf8 text := by
  obtain ⟨name, hname, hknown⟩ := encodingOf?_eq_some_iff.mp hencoding
  obtain ⟨hplain, hread⟩ := readFrom_eq_ok_iff.mp hbytes
  rw [readScript_eq_ok_iff, ← decodeUtf8_eq_ok_iff]
  simp [hname, hplain, hread, Host.codec_of_known hknown, Encoding.codec, Encoding.decode]

theorem scriptBytes_utf8 (hencoding : encodingOf? encoding = some .utf8) (text : Text) :
    scriptBytes host encoding text = .ok (encodeUtf8 text) := by
  obtain ⟨name, hname, hknown⟩ := encodingOf?_eq_some_iff.mp hencoding
  simp [scriptBytes, Host.codecOf, hname, Host.codec_of_known hknown, Encoding.codec,
    Encoding.encode]

/-- What a fix of a file in UTF-8 prints and writes when its configuration loads. -/
theorem outcome_of_fix (hcommand : invocation.command = .fix file last write)
    (hencoding : encodingOf? invocation.encoding = some .utf8)
    {loaded : LintConfig × List ConfigWarning}
    (hload : loadSetting host disk invocation.config = .ok loaded) {text : Text}
    (hread : readScript host disk invocation.encoding (Path.ofString file) = .ok text) :
    ∃ outcome fixed, invocation.outcome host disk = .ok outcome ∧ outcome.exit = 0 ∧
      fixed = applyEdits text ((chosen loaded.1 last text).map (Mending.edit text)) ∧
      (write = false → outcome.stdout = String.ofList fixed) ∧
      (invocation.run host disk).writes =
        if write && fixed != text then [(Path.ofString file, encodeUtf8 fixed)] else [] := by
  obtain ⟨r, hr, hfixed⟩ := exists_fixText_eq loaded.1 last text
  obtain ⟨_, result, hmends, hresult, hcases⟩ := fixCommand_cases loaded.1 last write hread
  cases hr.symm.trans hmends
  have hrun := Invocation.run_loaded hload
  rw [hcommand, Command.run, hresult] at hrun
  have hend : result.ending = .ok 0 ∧ (write = false → result.output = String.ofList r.fixed) ∧
      result.writes =
        if write && r.fixed != text then [(Path.ofString file, encodeUtf8 r.fixed)] else [] := by
    obtain ⟨rfl, hend, hwrites, houtput⟩ | ⟨rfl, hsame, hend, hwrites⟩ |
      ⟨rfl, hne, hend, bytes, hbytes, hwrites⟩ | ⟨rfl, -, -, cause, hcause, -⟩ := hcases
    · simp [hend, hwrites, houtput]
    · simp [hend, hwrites, hsame]
    · rw [scriptBytes_utf8 hencoding] at hbytes
      cases hbytes
      simp [hend, hwrites, hne]
    · rw [scriptBytes_utf8 hencoding] at hcause
      cases hcause
  obtain ⟨log, houtcome⟩ :=
    @Invocation.outcome_of_ending_ok host disk invocation 0 (by rw [hrun]; exact hend.1)
  refine ⟨_, r.fixed, houtcome, rfl, hfixed, ?_, ?_⟩
  · rw [hrun]
    exact hend.2.1
  · rw [hrun]
    exact hend.2.2

/-- A fix of a file in UTF-8 writes at most its own file, and only if it is told to, can read that
file, and ends with exit code 0. -/
theorem writes_of_fix (hcommand : invocation.command = .fix file last write)
    (hencoding : encodingOf? invocation.encoding = some .utf8) :
    (invocation.run host disk).writes = [] ∨ write = true ∧
      (∃ text, readScript host disk invocation.encoding (Path.ofString file) = .ok text) ∧
      (∃ outcome, invocation.outcome host disk = .ok outcome ∧ outcome.exit = 0) ∧
      ∃ bytes, (invocation.run host disk).writes = [(Path.ofString file, bytes)] := by
  cases hload : loadSetting host disk invocation.config with
  | error failure =>
    left
    simp only [Invocation.run, hload]
  | ok loaded =>
    cases hread : readScript host disk invocation.encoding (Path.ofString file) with
    | error failure =>
      left
      simp only [Invocation.run_loaded hload, hcommand, Command.run, fixCommand, hread]
    | ok text =>
      obtain ⟨outcome, fixed, houtcome, hexit, -, -, hwrites⟩ :=
        outcome_of_fix hcommand hencoding hload hread
      cases hwrite : write && fixed != text with
      | false =>
        rw [hwrite, if_neg Bool.false_ne_true] at hwrites
        exact .inl hwrites
      | true =>
        rw [hwrite, if_pos rfl] at hwrites
        exact .inr ⟨(Bool.and_eq_true_iff.mp hwrite).1, ⟨text, rfl⟩, ⟨outcome, houtcome, hexit⟩, _,
          hwrites⟩

end Runs

section Files

variable {host : Host} {tree : FileTree} {arguments : List String} {invocation : Invocation}

theorem after_of_parse (hparse : Invocation.parse arguments = .ok invocation) :
    tree.after host arguments = tree.writeAll (invocation.run host tree.read).writes := by
  simp only [FileTree.after, writesOf, hparse]

/-- A fix of a file in UTF-8 leaves all files alone, unless it is told to write, can read its file,
and ends with exit code 0; then it overwrites that file at most. -/
theorem after_of_fix {file : String} {last write : Bool}
    (hparse : Invocation.parse arguments = .ok invocation)
    (hcommand : invocation.command = .fix file last write)
    (hencoding : encodingOf? invocation.encoding = some .utf8) :
    tree.after host arguments = tree ∨ write = true ∧
      (∃ text, readScript host tree.read invocation.encoding (Path.ofString file) = .ok text) ∧
      (∃ outcome, run host tree.read arguments = .ok outcome ∧ outcome.exit = 0) ∧
      ∃ bytes, tree.after host arguments = tree.write (Path.ofString file) bytes := by
  rw [after_of_parse hparse, run_of_parse hparse]
  obtain hnone | ⟨hwrite, hread, houtcome, bytes, hbytes⟩ :=
    @writes_of_fix host tree.read invocation file last write hcommand hencoding
  · left
    rw [hnone, FileTree.writeAll, List.foldl_nil]
  · right
    rw [hbytes, FileTree.writeAll, List.foldl_cons, List.foldl_nil]
    exact ⟨hwrite, hread, houtcome, bytes, rfl⟩

/-- After a fix that is told to write, its file holds the UTF-8 form of the fixed text. -/
theorem readFrom_after_fix {path : Path} {text fixed : Text}
    (hparse : Invocation.parse arguments = .ok invocation)
    (hwrites : (invocation.run host tree.read).writes =
      if fixed != text then [(path, encodeUtf8 fixed)] else [])
    (hread : readFrom tree.read path = .ok (encodeUtf8 text)) :
    readFrom (tree.after host arguments).read path = .ok (encodeUtf8 fixed) := by
  obtain ⟨hplain, hdisk⟩ := readFrom_eq_ok_iff.mp hread
  rw [after_of_parse hparse, hwrites]
  by_cases hsame : fixed = text
  · rw [hsame, bne_self_eq_false, if_neg Bool.false_ne_true]
    exact hread
  · rw [if_pos (bne_iff_ne.mpr hsame)]
    obtain ⟨location, hlocate⟩ := FileTree.read_eq_ok_iff.mp hdisk
    have hnew := (FileTree.read_write hdisk (encodeUtf8 fixed) path).1
      ⟨location, _, _, hlocate, hlocate⟩
    exact readFrom_eq_ok_iff.mpr ⟨hplain, hnew⟩

end Files

/-- Fixing a file in UTF-8 loses nothing. Only a fix that is told to write changes anything, and
then only its file; a file that is no UTF-8, or a run that does not end with exit code 0, leaves
that as it was. Otherwise the printed text is what is written, and the file is in it, with a closing
piece put in for each diagnostic that is mended. -/
theorem fix_is_lossless {host : Host} {tree : FileTree} {plain writing : List String}
    {verbose : Bool} {config encoding : Setting} {file : String} {last : Bool} {bytes : Bytes}
    (hplain : Invocation.parse plain =
      .ok { verbose, config, encoding, command := .fix file last false })
    (hwriting : Invocation.parse writing =
      .ok { verbose, config, encoding, command := .fix file last true })
    (hencoding : encodingOf? encoding = some .utf8)
    (hbytes : readFrom tree.read (Path.ofString file) = .ok bytes) :
    tree.after host plain = tree ∧
    (∀ other, ¬ tree.SameFile (Path.ofString file) other →
      (tree.after host writing).read other = tree.read other) ∧
    ((∀ text, bytes ≠ encodeUtf8 text) ∨
        (∀ outcome, run host tree.read writing = .ok outcome → outcome.exit ≠ 0) →
      tree.after host writing = tree) ∧
    ∀ text loaded, bytes = encodeUtf8 text → loadSetting host tree.read config = .ok loaded →
      ∃ shown written content,
        run host tree.read plain = .ok shown ∧ shown.exit = 0 ∧
        run host tree.read writing = .ok written ∧ written.exit = 0 ∧
        readFrom (tree.after host writing).read (Path.ofString file) = .ok content ∧
        shown.stdout.toUTF8 = content.toByteArray ∧
        (mendable last (lint loaded.1 text) = [] → tree.after host writing = tree) ∧
        ∃ stretches : List Stretch, ∃ rest : Bytes,
          (∀ s ∈ stretches, ClosingPiece text s.inserted) ∧
          stretches.length = (mendable last (lint loaded.1 text)).length ∧
          bytes = stretches.flatMap Stretch.kept ++ rest ∧
          content = stretches.flatMap (fun s => s.kept ++ encodeUtf8 s.inserted) ++ rest := by
  obtain ⟨_, hdisk⟩ := readFrom_eq_ok_iff.mp hbytes
  refine ⟨?_, ?_, ?_, ?_⟩
  · obtain hsame | ⟨hwrite, -⟩ :=
      @after_of_fix host tree plain _ file last false hplain rfl hencoding
    · exact hsame
    · exact absurd hwrite Bool.false_ne_true
  · intro other hother
    obtain hsame | ⟨-, -, -, new, hnew⟩ :=
      @after_of_fix host tree writing _ file last true hwriting rfl hencoding
    · rw [hsame]
    · rw [hnew]
      exact (FileTree.read_write hdisk new other).2 hother
  · intro hfails
    obtain hsame | ⟨-, ⟨text, htext⟩, ⟨outcome, hrun, hexit⟩, -⟩ :=
      @after_of_fix host tree writing _ file last true hwriting rfl hencoding
    · exact hsame
    · obtain hgarbled | hfails := hfails
      · exact absurd ((readScript_utf8_iff hencoding hbytes).mp htext) (hgarbled text)
      · exact absurd hexit (hfails outcome hrun)
  · rintro text loaded rfl hload
    have hread := (@readScript_utf8_iff host _ _ hencoding _ _ hbytes text).mpr rfl
    obtain ⟨shown, fixed, hshown, hexit, hfixed, hstdout, -⟩ :=
      @outcome_of_fix host tree.read { verbose, config, encoding, command := .fix file last false }
        file last false rfl hencoding loaded hload text hread
    obtain ⟨written, _, hwritten, hexit', rfl, -, hwrites⟩ :=
      @outcome_of_fix host tree.read { verbose, config, encoding, command := .fix file last true }
        file last true rfl hencoding loaded hload text hread
    rw [← run_of_parse hplain] at hshown
    rw [← run_of_parse hwriting] at hwritten
    rw [← hfixed] at hwrites
    have hcontent := readFrom_after_fix hwriting hwrites hbytes
    obtain ⟨stretches, rest, hpieces, hlength, htext, hstretches⟩ :=
      exists_stretches_fixed loaded.1 last text
    refine ⟨shown, written, encodeUtf8 fixed, hshown, hexit, hwritten, hexit', hcontent, ?_, ?_,
      stretches, rest, hpieces, hlength, htext, ?_⟩
    · rw [hstdout rfl]
      exact String.toByteArray_ofList
    · intro hnone
      have hchosen : chosen loaded.1 last text = [] := by rw [chosen, hnone, List.filterMap_nil]
      have hsame : fixed = text := by simp [hfixed, hchosen]
      rw [after_of_parse hwriting, hwrites, hsame, bne_self_eq_false]
      rfl
    · rw [hfixed]
      exact hstretches

/-- A file with a character of two bytes, a `FIX` on its first line and an `IF` on its last. -/
theorem fix_is_lossless_two_closers :
    ∃ shown content,
      run .bare (FileTree.read ⟨[(["a"], some (encodeUtf8 "éFIX\r\nIF".toList))]⟩) ["fix", "a"] =
        .ok shown ∧
      readFrom (FileTree.after ⟨[(["a"], some (encodeUtf8 "éFIX\r\nIF".toList))]⟩ .bare
        ["fix", "-w", "a"]).read (Path.ofString "a") = .ok content ∧
      shown.stdout.toUTF8 = content.toByteArray ∧
      ∃ stretches : List Stretch, ∃ rest : Bytes, stretches.length = 2 ∧
        encodeUtf8 "éFIX\r\nIF".toList = stretches.flatMap Stretch.kept ++ rest ∧
        content = stretches.flatMap (fun s => s.kept ++ encodeUtf8 s.inserted) ++ rest := by
  have hplain : Invocation.parse ["fix", "a"] = .ok { command := .fix "a" false false } := by
    decide +kernel
  have hwriting : Invocation.parse ["fix", "-w", "a"] = .ok { command := .fix "a" false true } := by
    decide +kernel
  have hbytes : readFrom (FileTree.read ⟨[(["a"], some (encodeUtf8 "éFIX\r\nIF".toList))]⟩)
      (Path.ofString "a") = .ok (encodeUtf8 "éFIX\r\nIF".toList) := by
    cbv
  have hmendable : (mendable false (lint {} "éFIX\r\nIF".toList)).length = 2 := by
    decide +kernel
  have hencoding : encodingOf? .absent = some .utf8 := by decide +kernel
  obtain ⟨-, -, -, hvalid⟩ := fix_is_lossless hplain hwriting hencoding hbytes
  obtain ⟨shown, _, content, hshown, -, -, -, hcontent, hprinted, -, stretches, rest, -, hlength,
    htext, hstretches⟩ := hvalid "éFIX\r\nIF".toList ({}, []) rfl rfl
  exact ⟨shown, content, hshown, hcontent, hprinted, stretches, rest, hlength.trans hmendable,
    htext, hstretches⟩

end CalcLint
