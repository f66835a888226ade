import CalcLint.Report
import Mathlib

/-!
# JSON texts

A JSON value is known by its text. Texts of values are read from the front: where two lists of
characters are the same, and each begins with the text of a value, these values are the same, and so
is what follows them. Only the text of a number has to be followed by something else than a digit.
-/
namespace CalcLint

theorem hexDigits_one {n : Nat} (h : n < 16) : hexDigits 1 n = [n.digitChar] := by
  rw [hexDigits, Nat.toDigits_of_lt_base h]
  rfl

theorem hexDigits_succ {width : Nat} (hwidth : 0 < width) (n : Nat) :
    hexDigits (width + 1) n = hexDigits width (n / 16) ++ [(n % 16).digitChar] := by
  by_cases hn : n < 16
  · rw [hexDigits, hexDigits, Nat.toDigits_of_lt_base hn, Nat.div_eq_of_lt hn, Nat.mod_eq_of_lt hn,
      Nat.toDigits_zero, List.length_singleton, List.length_singleton, Nat.add_sub_cancel]
    obtain ⟨k, rfl⟩ := Nat.exists_eq_succ_of_ne_zero hwidth.ne'
    simp [List.replicate_succ']
  · rw [hexDigits, hexDigits, Nat.toDigits_of_base_le (by decide) (not_lt.mp hn),
      List.length_append, List.length_singleton, Nat.add_sub_add_right, List.append_assoc]

@[simp] theorem length_hexDigits {width n : Nat} (hwidth : 0 < width) (h : n < 16 ^ width) :
    (hexDigits width n).length = width := by
  have hlength := Nat.toDigits_length 16 n width hwidth h
  rw [hexDigits, List.length_append, List.length_replicate]
  omega

theorem hexDigits_inj {width m n : Nat} (hwidth : 0 < width) (hm : m < 16 ^ width)
    (hn : n < 16 ^ width) (h : hexDigits width m = hexDigits width n) : m = n := by
  have hdigit : ∀ a < 16, ∀ b < 16, a.digitChar = b.digitChar → a = b := by decide
  induction width, hwidth using Nat.le_induction generalizing m n with
  | base =>
    rw [hexDigits_one hm, hexDigits_one hn, List.singleton_inj] at h
    exact hdigit m hm n hn h
  | succ width hwidth ih =>
    rw [hexDigits_succ hwidth, hexDigits_succ hwidth] at h
    obtain ⟨hfront, hlast⟩ := List.append_inj' h rfl
    have hdiv : m / 16 = n / 16 := by
      apply ih _ _ hfront
      · exact Nat.div_lt_of_lt_mul (by rwa [← pow_succ'])
      · exact Nat.div_lt_of_lt_mul (by rwa [← pow_succ'])
    have hmod := hdigit (m % 16) (Nat.mod_lt m (by decide)) (n % 16) (Nat.mod_lt n (by decide))
      (List.singleton_inj.mp hlast)
    rw [← Nat.div_add_mod m 16, hdiv, hmod, Nat.div_add_mod]

/-- What follows a number in a JSON text. -/
def NoDigitNext (rest : List Char) : Prop :=
  ∀ c ∈ rest.head?, c.isDigit = false

theorem takeWhile_digits {n : Nat} {rest : List Char} (h : NoDigitNext rest) :
    (Nat.toDigits 10 n ++ rest).takeWhile Char.isDigit = Nat.toDigits 10 n := by
  have hall : ∀ c ∈ Nat.toDigits 10 n, c.isDigit = true := by
    intro c hc
    exact Nat.isDigit_of_mem_toDigits (by decide) (by decide) hc
  have hrest : rest.takeWhile Char.isDigit = [] := by
    cases rest with
    | nil => rfl
    | cons c more => rw [List.takeWhile_cons, h c rfl, if_neg Bool.false_ne_true]
  rw [List.takeWhile_append_of_pos hall, hrest, List.append_nil]

theorem number_append_inj {m n : Nat} {r s : List Char} (hr : NoDigitNext r) (hs : NoDigitNext s)
    (h : Nat.toDigits 10 m ++ r = Nat.toDigits 10 n ++ s) : m = n ∧ r = s := by
  have hdigits : Nat.toDigits 10 m = Nat.toDigits 10 n := by
    rw [← takeWhile_digits hr, h, takeWhile_digits hs]
  rw [hdigits, List.append_cancel_left_eq] at h
  refine ⟨?_, h⟩
  rw [← @Nat.ofDigitChars_ten_toDigits m, hdigits, Nat.ofDigitChars_ten_toDigits]

theorem unitEscape_append_inj {m n : Nat} {r s : List Char} (hm : m < 0x10000) (hn : n < 0x10000)
    (h : unitEscape m ++ r = unitEscape n ++ s) : m = n ∧ r = s := by
  have hlength : (hexDigits 4 m).length = (hexDigits 4 n).length := by
    rw [length_hexDigits (by decide) hm, length_hexDigits (by decide) hn]
  simp only [unitEscape, List.cons_append, List.cons.injEq, true_and] at h
  obtain ⟨hdigits, hrest⟩ := List.append_inj h hlength
  exact ⟨hexDigits_inj (by decide) hm hn hdigits, hrest⟩

/-- A character as escapes of its UTF-16 units. -/
def charEscape (c : Char) : List Char :=
  if c.toNat < 0x10000 then unitEscape c.toNat
  else
    unitEscape (0xD800 + (c.toNat - 0x10000) / 0x400) ++
      unitEscape (0xDC00 + (c.toNat - 0x10000) % 0x400)

theorem charEscape_append_inj {c d : Char} {r s : List Char}
    (h : charEscape c ++ r = charEscape d ++ s) : c = d ∧ r = s := by
  have hc : c.toNat < 0xD800 ∨ 0xDFFF < c.toNat ∧ c.toNat < 0x110000 := c.valid
  have hd : d.toNat < 0xD800 ∨ 0xDFFF < d.toNat ∧ d.toNat < 0x110000 := d.valid
  unfold charEscape at h
  split_ifs at h with hsmall hsmall' hsmall'
  · obtain ⟨hnat, hrest⟩ := unitEscape_append_inj hsmall hsmall' h
    exact ⟨Char.toNat_inj.mp hnat, hrest⟩
  · -- the first unit of a pair is no character
    rw [List.append_assoc] at h
    have hnat := (unitEscape_append_inj hsmall (by omega) h).1
    omega
  · rw [List.append_assoc] at h
    have hnat := (unitEscape_append_inj (by omega) hsmall' h).1
    omega
  · rw [List.append_assoc, List.append_assoc] at h
    obtain ⟨hhigh, hrest⟩ := unitEscape_append_inj (by omega) (by omega) h
    obtain ⟨hlow, hrest⟩ := unitEscape_append_inj (by omega) (by omega) hrest
    exact ⟨Char.toNat_inj.mp (by omega), hrest⟩

theorem charEscape_start (c : Char) : ∃ digits, charEscape c = '\\' :: 'u' :: digits := by
  unfold charEscape unitEscape
  split
  · exact ⟨_, rfl⟩
  · rw [List.cons_append, List.cons_append]
    exact ⟨_, rfl⟩

/-- The character that a letter behind a backslash stands for. -/
def unescaped : Char → Char
  | 'n' => '\n'
  | 'r' => '\r'
  | 't' => '\t'
  | 'b' => '\x08'
  | 'f' => '\x0c'
  | c => c

/-- The forms that a character has in a JSON string. -/
inductive JsonForm : Char → List Char → Prop
  | short {letter : Char} (h : letter ≠ 'u') : JsonForm (unescaped letter) ['\\', letter]
  | plain {c : Char} (hquote : c ≠ '"') (hbackslash : c ≠ '\\') : JsonForm c [c]
  | escaped {c : Char} : JsonForm c (charEscape c)

theorem jsonChar_form (c : Char) : JsonForm c (jsonChar c) := by
  by_cases hmark : c = '"' ∨ c = '\\'
  · have hform : JsonForm (unescaped c) ['\\', c] :=
      .short (by rcases hmark with rfl | rfl <;> decide)
    have hsame : unescaped c = c := by rcases hmark with rfl | rfl <;> rfl
    rw [hsame] at hform
    rwa [jsonChar, if_pos hmark]
  · unfold jsonChar
    rw [if_neg hmark]
    rw [not_or] at hmark
    split_ifs with hn hr ht hb hf hprintable hunit
    · exact hn ▸ @JsonForm.short 'n' (by decide)
    · exact hr ▸ @JsonForm.short 'r' (by decide)
    · exact ht ▸ @JsonForm.short 't' (by decide)
    · exact hb ▸ @JsonForm.short 'b' (by decide)
    · exact hf ▸ @JsonForm.short 'f' (by decide)
    · exact .plain hmark.1 hmark.2
    · have hescape : charEscape c = unitEscape c.toNat := if_pos hunit
      exact hescape ▸ .escaped
    · have hescape : charEscape c = unitEscape (0xD800 + (c.toNat - 0x10000) / 0x400) ++
          unitEscape (0xDC00 + (c.toNat - 0x10000) % 0x400) := if_neg hunit
      exact hescape ▸ .escaped

/-- A form tells by its first two characters which one it is. -/
theorem JsonForm.append_inj {c d : Char} {x y r s : List Char} (hx : JsonForm c x)
    (hy : JsonForm d y) (h : x ++ r = y ++ s) : c = d ∧ r = s := by
  obtain ⟨digits, hc⟩ := charEscape_start c
  obtain ⟨digits', hd⟩ := charEscape_start d
  cases hx with
  | short => cases hy <;> grind
  | plain => cases hy <;> grind
  | escaped =>
    cases hy with
    | short => grind
    | plain => grind
    | escaped => exact charEscape_append_inj h

theorem JsonForm.ne_quote {c : Char} {x : List Char} (h : JsonForm c x) (r s : List Char) :
    x ++ r ≠ '"' :: s := by
  obtain ⟨digits, hc⟩ := charEscape_start c
  cases h with
  | short => simp
  | plain hquote => simp [hquote]
  | escaped => simp [hc]

theorem characters_append_inj {cs ds r s : List Char}
    (h : cs.flatMap jsonChar ++ '"' :: r = ds.flatMap jsonChar ++ '"' :: s) : cs = ds ∧ r = s := by
  induction cs generalizing ds with
  | nil =>
    cases ds with
    | nil => simpa using h
    | cons d ds =>
      rw [List.flatMap_cons, List.append_assoc] at h
      exact absurd h.symm ((jsonChar_form d).ne_quote _ _)
  | cons c cs ih =>
    cases ds with
    | nil =>
      rw [List.flatMap_cons, List.append_assoc] at h
      exact absurd h ((jsonChar_form c).ne_quote _ _)
    | cons d ds =>
      rw [List.flatMap_cons, List.flatMap_cons, List.append_assoc, List.append_assoc] at h
      obtain ⟨rfl, hmore⟩ := (jsonChar_form c).append_inj (jsonChar_form d) h
      obtain ⟨rfl, hrest⟩ := ih hmore
      exact ⟨rfl, hrest⟩

theorem jsonString_append_inj {a b : String} {r s : List Char}
    (h : (jsonString a).toList ++ r = (jsonString b).toList ++ s) : a = b ∧ r = s := by
  simp only [jsonString, String.toList_ofList, List.cons_append, List.append_assoc,
    List.nil_append, List.cons.injEq, true_and] at h
  obtain ⟨hchars, hrest⟩ := characters_append_inj h
  exact ⟨String.toList_inj.mp hchars, hrest⟩

/-- A line break and the indentation of a level. -/
def margin (depth : Nat) : List Char :=
  '\n' :: List.replicate (2 * depth) ' '

/-- The parts behind the first. -/
def furtherParts (depth : Nat) (parts : List String) : List Char :=
  parts.flatMap fun part => ',' :: (margin depth ++ part.toList)

theorem toList_intercalate_cons (depth : Nat) (part : String) (parts : List String) :
    (("," ++ String.ofList (margin depth)).intercalate (part :: parts)).toList =
      part.toList ++ furtherParts depth parts := by
  induction parts generalizing part with
  | nil => simp [furtherParts]
  | cons next more ih =>
    rw [String.intercalate_cons_cons, String.toList_append, ih]
    simp [furtherParts]

theorem toList_bracketed_cons (depth : Nat) (opening closing part : String) (parts : List String) :
    (bracketed depth opening closing (part :: parts)).toList =
      opening.toList ++ (margin (depth + 1) ++ (part.toList ++
        (furtherParts (depth + 1) parts ++ (margin depth ++ closing.toList)))) := by
  have hparts := toList_intercalate_cons (depth + 1) part parts
  rw [margin] at hparts
  simp only [bracketed, List.isEmpty_cons, Bool.false_eq_true, if_false, String.toList_append,
    hparts, String.toList_ofList, margin, List.append_assoc]

/-- The text of a value shows where it ends, if no digit follows it. -/
def EndsItself {α : Type} (write : α → String) (x : α) : Prop :=
  ∀ (y : α) (r s : List Char), NoDigitNext r → NoDigitNext s →
    (write x).toList ++ r = (write y).toList ++ s → x = y ∧ r = s

theorem noDigitNext_furtherParts (inner outer : Nat) (parts : List String) (rest : List Char) :
    NoDigitNext (furtherParts inner parts ++ (margin outer ++ rest)) := by
  intro c hc
  cases parts with
  | nil =>
    cases hc
    rfl
  | cons part more =>
    cases hc
    rfl

theorem furtherParts_append_inj {α : Type} {write : α → String} {xs ys : List α}
    (hwrite : ∀ x ∈ xs, EndsItself write x) {inner outer : Nat} {r s : List Char}
    (h : furtherParts inner (xs.map write) ++ (margin outer ++ r) =
      furtherParts inner (ys.map write) ++ (margin outer ++ s)) : xs = ys ∧ r = s := by
  have hcons : ∀ (z : α) (zs : List α) (rest : List Char),
      furtherParts inner ((z :: zs).map write) ++ rest =
        ',' :: (margin inner ++ ((write z).toList ++
          (furtherParts inner (zs.map write) ++ rest))) := by
    intro z zs rest
    simp [furtherParts]
  induction xs generalizing ys with
  | nil =>
    cases ys with
    | nil => simpa [furtherParts] using h
    | cons y ys =>
      rw [hcons] at h
      simp [furtherParts, margin] at h
  | cons x xs ih =>
    cases ys with
    | nil =>
      rw [hcons] at h
      simp [furtherParts, margin] at h
    | cons y ys =>
      rw [hcons, hcons, List.cons.injEq, List.append_cancel_left_eq] at h
      obtain ⟨rfl, hmore⟩ := hwrite x List.mem_cons_self y _ _ (noDigitNext_furtherParts _ _ _ _)
        (noDigitNext_furtherParts _ _ _ _) h.2
      obtain ⟨rfl, hrest⟩ := ih (fun z hz => hwrite z (List.mem_cons_of_mem x hz)) hmore
      exact ⟨rfl, hrest⟩

theorem bracketed_append_inj {α : Type} {write : α → String} {xs ys : List α}
    (hwrite : ∀ x ∈ xs, EndsItself write x) (depth : Nat) {opening closing : String} {c : Char}
    (hclosing : closing.toList = [c]) (hc : c ≠ '\n') {r s : List Char}
    (h : (bracketed depth opening closing (xs.map write)).toList ++ r =
      (bracketed depth opening closing (ys.map write)).toList ++ s) : xs = ys ∧ r = s := by
  have hnil : ∀ rest : List Char, (bracketed depth opening closing []).toList ++ rest =
      opening.toList ++ (c :: rest) := by
    intro rest
    simp [bracketed, hclosing]
  have hcons : ∀ (z : α) (zs : List α) (rest : List Char),
      (bracketed depth opening closing ((z :: zs).map write)).toList ++ rest =
        opening.toList ++ (margin (depth + 1) ++ ((write z).toList ++
          (furtherParts (depth + 1) (zs.map write) ++ (margin depth ++ c :: rest)))) := by
    intro z zs rest
    rw [List.map_cons, toList_bracketed_cons, hclosing]
    simp
  cases xs with
  | nil =>
    cases ys with
    | nil => simpa using h
    | cons y ys =>
      rw [List.map_nil, hnil, hcons, List.append_cancel_left_eq] at h
      exact absurd (List.cons.inj h).1 hc
  | cons x xs =>
    cases ys with
    | nil =>
      rw [List.map_nil, hnil, hcons, List.append_cancel_left_eq] at h
      exact absurd (List.cons.inj h).1.symm hc
    | cons y ys =>
      rw [hcons, hcons, List.append_cancel_left_eq, List.append_cancel_left_eq] at h
      obtain ⟨rfl, hmore⟩ := hwrite x List.mem_cons_self y _ _ (noDigitNext_furtherParts _ _ _ _)
        (noDigitNext_furtherParts _ _ _ _) h
      obtain ⟨rfl, hrest⟩ :=
        furtherParts_append_inj (fun z hz => hwrite z (List.mem_cons_of_mem x hz)) hmore
      exact ⟨rfl, (List.cons.inj hrest).2⟩

namespace JsonTree

@[simp] theorem prettyItems_eq (depth : Nat) (items : List JsonTree) :
    prettyItems depth items = items.map (pretty depth) := by
  induction items with
  | nil => rfl
  | cons item rest ih => rw [prettyItems, ih, List.map_cons]

/-- How a member of an object is written. -/
def prettyMember (depth : Nat) (member : String × JsonTree) : String :=
  jsonString member.1 ++ ": " ++ pretty depth member.2

@[simp] theorem prettyMembers_eq (depth : Nat) (members : List (String × JsonTree)) :
    prettyMembers depth members = members.map (prettyMember depth) := by
  induction members with
  | nil => rfl
  | cons member rest ih => rw [prettyMembers, ih, List.map_cons, prettyMember]

/-- The characters with which the text of a value of this kind may begin. -/
def begins : JsonTree → Char → Bool
  | .null, c => c == 'n'
  | .number _, c => c.isDigit
  | .string _, c => c == '"'
  | .array _, c => c == '['
  | .object _, c => c == '\x7b'

theorem head?_bracketed (depth : Nat) {opening : String} {c : Char} (h : opening.toList = [c])
    (closing : String) (parts : List String) :
    (bracketed depth opening closing parts).toList.head? = some c := by
  unfold bracketed
  split <;> simp [h]

theorem exists_begins (depth : Nat) (tree : JsonTree) :
    ∃ c, (tree.pretty depth).toList.head? = some c ∧ tree.begins c = true := by
  cases tree with
  | null => exact ⟨'n', by simp [pretty], rfl⟩
  | number n =>
    obtain ⟨c, rest, hdigits⟩ := List.exists_cons_of_ne_nil (@Nat.toDigits_ne_nil n 10)
    have hdigit : c.isDigit = true :=
      Nat.isDigit_of_mem_toDigits (by decide) (by decide) (hdigits ▸ List.mem_cons_self)
    exact ⟨c, by simp [pretty, hdigits], hdigit⟩
  | string s => exact ⟨'"', by simp [pretty, jsonString], rfl⟩
  | array items =>
    rw [pretty]
    exact ⟨'[', head?_bracketed depth rfl _ _, rfl⟩
  | object members =>
    rw [pretty]
    exact ⟨'\x7b', head?_bracketed depth rfl _ _, rfl⟩

theorem exists_begins_of_append {depth : Nat} {a b : JsonTree} {r s : List Char}
    (h : (a.pretty depth).toList ++ r = (b.pretty depth).toList ++ s) :
    ∃ c, a.begins c = true ∧ b.begins c = true := by
  obtain ⟨c, hc, ha⟩ := exists_begins depth a
  obtain ⟨d, hd, hb⟩ := exists_begins depth b
  have hhead := congrArg List.head? h
  rw [List.head?_append, List.head?_append, hc, hd, Option.some_or, Option.some_or,
    Option.some.injEq] at hhead
  exact ⟨c, ha, hhead ▸ hb⟩

theorem prettyMember_endsItself {depth : Nat} {member : String × JsonTree}
    (h : EndsItself (pretty depth) member.2) : EndsItself (prettyMember depth) member := by
  intro other r s hr hs htext
  simp only [prettyMember, String.toList_append, List.append_assoc] at htext
  obtain ⟨hname, htext⟩ := jsonString_append_inj htext
  obtain ⟨hvalue, hrest⟩ := h other.2 r s hr hs (List.append_cancel_left htext)
  exact ⟨Prod.ext hname hvalue, hrest⟩

/-- What holds of a value if it holds of all its parts holds of every value. -/
theorem parts_induction {P : JsonTree → Prop} (null : P .null) (number : ∀ n, P (.number n))
    (string : ∀ s, P (.string s)) (array : ∀ items, (∀ x ∈ items, P x) → P (.array items))
    (object : ∀ members, (∀ m ∈ members, P m.2) → P (.object members)) : ∀ tree, P tree
  | .null => null
  | .number n => number n
  | .string s => string s
  | .array items => array items fun x _ => parts_induction null number string array object x
  | .object members => object members fun m hm =>
    have hsmaller : sizeOf m.2 < 1 + sizeOf members := by
      have hmember := List.sizeOf_lt_of_mem hm
      have hpair : sizeOf m = 1 + sizeOf m.1 + sizeOf m.2 := rfl
      omega
    parts_induction null number string array object m.2

/-- The text of a value shows where it ends. -/
theorem pretty_endsItself (depth : Nat) (a : JsonTree) : EndsItself (pretty depth) a := by
  induction a using parts_induction generalizing depth with
  | null =>
    intro b r s hr hs h
    obtain ⟨c, ha, hb⟩ := exists_begins_of_append h
    cases b with
    | null => exact ⟨rfl, List.append_cancel_left h⟩
    | _ => simp_all [begins]
  | number m =>
    intro b r s hr hs h
    obtain ⟨c, ha, hb⟩ := exists_begins_of_append h
    cases b with
    | number n =>
      simp only [pretty, Nat.toString_eq_ofList_toDigits, String.toList_ofList] at h
      obtain ⟨rfl, hrest⟩ := number_append_inj hr hs h
      exact ⟨rfl, hrest⟩
    | _ => simp_all [begins]
  | string x =>
    intro b r s hr hs h
    obtain ⟨c, ha, hb⟩ := exists_begins_of_append h
    cases b with
    | string y =>
      rw [pretty, pretty] at h
      obtain ⟨rfl, hrest⟩ := jsonString_append_inj h
      exact ⟨rfl, hrest⟩
    | _ => simp_all [begins]
  | array xs ih =>
    intro b r s hr hs h
    obtain ⟨c, ha, hb⟩ := exists_begins_of_append h
    cases b with
    | array ys =>
      rw [pretty, pretty, prettyItems_eq, prettyItems_eq] at h
      obtain ⟨rfl, hrest⟩ :=
        bracketed_append_inj (fun x hx => ih x hx (depth + 1)) depth rfl (by decide) h
      exact ⟨rfl, hrest⟩
    | _ => simp_all [begins]
  | object xs ih =>
    intro b r s hr hs h
    obtain ⟨c, ha, hb⟩ := exists_begins_of_append h
    cases b with
    | object ys =>
      rw [pretty, pretty, prettyMembers_eq, prettyMembers_eq] at h
      obtain ⟨rfl, hrest⟩ := bracketed_append_inj
        (fun x hx => prettyMember_endsItself (ih x hx (depth + 1))) depth rfl (by decide) h
      exact ⟨rfl, hrest⟩
    | _ => simp_all [begins]

/-- A value is known by its text. -/
theorem pretty_injective {depth : Nat} {a b : JsonTree} (h : a.pretty depth = b.pretty depth) :
    a = b := by
  have hend : NoDigitNext [] := by simp [NoDigitNext]
  exact (pretty_endsItself depth a b [] [] hend hend (by rw [h])).1

end JsonTree

end CalcLint
