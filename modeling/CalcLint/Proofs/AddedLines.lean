import CalcLint.Proofs.FixRun
import CalcLint.Proofs.SimultaneousEdits

/-!
# A run of fixes adds lines and nothing else

Each action of a run of fixes stands for one new line directly below the line of its opener. Up to
the carriage returns at the ends of lines, which depend on how the text ends its lines, the fixed
text is the text with these lines put in. It is longer than the text as soon as there is an action.
-/
namespace CalcLint

namespace Action

/-- The line of the opener for which an action inserts a closer. -/
def opener (a : Action) : Nat :=
  a.diagnostic.range.start.line

/-- The closer that an action inserts. -/
def closer (a : Action) : Keyword :=
  if a.diagnostic.code = Spec.missingEndfix.code then .endfix else .endif

/-- The line that an action adds: the indentation of the opener's line, and the closer. -/
def row (text : Text) (a : Action) : Line :=
  indentation (lineAt text a.opener) ++ a.closer.spelling

/-- An action is for a missing closer, and its opener stands on a line of the text. -/
structure Mends (text : Text) (a : Action) : Prop where
  code : a.diagnostic.code = Spec.missingEndfix.code ∨ a.diagnostic.code = Spec.missingEndif.code
  opener_lt : a.opener < (lines text).length

/-- What an action for a missing closer inserts. -/
@[simp] theorem mending?_eq {a : Action}
    (h : a.diagnostic.code = Spec.missingEndfix.code ∨
      a.diagnostic.code = Spec.missingEndif.code) : a.mending? = some ⟨a.opener, a.closer⟩ := by
  have hne : Spec.missingEndif.code ≠ Spec.missingEndfix.code := by decide
  rw [mending?, mending?_eq_some_iff]
  refine ⟨rfl, ?_⟩
  rcases h with hfix | hchain
  · exact ⟨.fix, hfix, by simp [closer, hfix, Block.closer]⟩
  · exact ⟨.chain, hchain, by simp [closer, hchain, hne, Block.closer]⟩

end Action

section
variable {config : LintConfig} {text : Text}

theorem mends_of_mem_offers {a : Action} (h : a ∈ offers config text) : a.Mends text := by
  obtain ⟨d, hd, hoffer⟩ := List.mem_filterMap.mp h
  obtain ⟨m, hm, rfl⟩ := Option.map_eq_some_iff.mp hoffer
  have hplaced := (placed_of_mem_mendings (List.mem_filterMap.mpr ⟨d, hd, hm⟩)).lt
  obtain ⟨hline, b, hcode, _⟩ := mending?_eq_some_iff.mp hm
  constructor
  · cases b with
    | fix => exact .inl hcode
    | chain => exact .inr hcode
  · rw [← hline] at hplaced
    exact hplaced

/-- The closers of a run are those of its actions, in their order. -/
theorem mendings_eq_map_offers (config : LintConfig) (text : Text) :
    mendings config text = (offers config text).map fun a => ⟨a.opener, a.closer⟩ := by
  have hoffers := offers_map_mending? config text
  have heach : (offers config text).map Action.mending? =
      ((offers config text).map fun a => (⟨a.opener, a.closer⟩ : Mending)).map some := by
    rw [List.map_map]
    apply List.map_congr_left
    intro a ha
    exact Action.mending?_eq (mends_of_mem_offers ha).code
  rw [heach] at hoffers
  exact (List.map_injective_iff.mpr (fun _ _ => Option.some.inj) hoffers).symm

theorem rowsBelow_mendings (config : LintConfig) (text : Text) (number : Nat) :
    rowsBelow text (mendings config text) number =
      ((offers config text).filter (·.opener = number)).map (Action.row text) := by
  rw [rowsBelow, mendings_eq_map_offers, List.filter_map, List.map_map]
  rfl

theorem sublist_withRows (rows : Nat → List Line) (number : Nat) (document : List Line) :
    document.Sublist (withRows rows number document) := by
  induction document generalizing number with
  | nil => exact List.Sublist.refl _
  | cons line below ih =>
    exact ((ih (number + 1)).trans (List.sublist_append_right _ _)).cons_cons line

theorem Mending.newText_ne_nil (text : Text) (m : Mending) : (m.edit text).newText ≠ [] := by
  have hrow : m.row text ≠ [] := by
    rw [Mending.row]
    cases m.closer <;> simp [Keyword.spelling]
  unfold Mending.edit
  split
  · exact List.append_ne_nil_of_left_ne_nil hrow _
  · exact List.append_ne_nil_of_right_ne_nil _ hrow

/-- A text grows under its fixes exactly if there are any. -/
@[simp] theorem length_lt_fixedText_iff :
    text.length < (fixedText config text).length ↔ offers config text ≠ [] := by
  rw [fixedText, length_applyEdits, mendings_eq_map_offers, List.map_map, List.map_map]
  cases hoffers : offers config text with
  | nil => simp
  | cons a more =>
    have hpos := List.length_pos_iff.mpr (Mending.newText_ne_nil text ⟨a.opener, a.closer⟩)
    rw [List.map_cons, List.sum_cons]
    simp only [Function.comp_apply]
    constructor
    · simp
    · omega

@[simp] theorem fixedText_ne_iff : fixedText config text ≠ text ↔ offers config text ≠ [] := by
  rw [← length_lt_fixedText_iff]
  constructor
  · intro hne
    rw [length_lt_fixedText_iff]
    intro hnil
    apply hne
    simp [fixedText, mendings_eq_map_offers, hnil]
  · intro hlt heq
    rw [heq] at hlt
    exact Nat.lt_irrefl _ hlt

end

/-- A run of fixes only adds whole lines. Up to carriage returns at the ends of lines, every line of
the text is followed by one line for each action whose opener stands on it, in the order of the
actions: its indentation and the closer. The run reports a change exactly if it has applied an
action, and exactly then the text has grown. -/
theorem fix_adds_whole_lines (config : LintConfig) (text : Text) :
    ∃ r, fix config text = .ok r ∧
      (∀ a ∈ r.applied, a.Mends text) ∧
      bareLines r.fixed =
        withRows (fun l => (r.applied.filter (·.opener = l)).map (Action.row text)) 0
          (bareLines text) ∧
      (bareLines text).Sublist (bareLines r.fixed) ∧
      (r.changed = true ↔ r.applied ≠ []) ∧
      (r.applied ≠ [] ↔ text.length < r.fixed.length) := by
  have hlines : bareLines (fixedText config text) =
      withRows (rowsBelow text (mendings config text)) 0 (bareLines text) :=
    bareLines_applyEdits (fun m hm => placed_of_mem_mendings hm)
  refine ⟨fixResult config text, fix_eq config text, fun a ha => mends_of_mem_offers ha, ?_, ?_, ?_,
    length_lt_fixedText_iff.symm⟩
  · have hrows : rowsBelow text (mendings config text) = _ :=
      funext (rowsBelow_mendings config text)
    rw [hrows] at hlines
    exact hlines
  · show (bareLines text).Sublist (bareLines (fixedText config text))
    rw [hlines]
    exact sublist_withRows _ 0 _
  · exact bne_iff_ne.trans fixedText_ne_iff

end CalcLint
