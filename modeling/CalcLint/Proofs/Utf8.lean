import CalcLint.Encoding
import Mathlib.Tactic.SplitIfs

/-!
# Texts and their UTF-8 form

Reading and writing UTF-8 are inverse to each other. The reader takes one character at a time, and
what it takes is exactly what is written for that character: the bounds on the second byte leave no
other form. So bytes are read if and only if they are the written form of a text, and then as that
text.
-/
namespace CalcLint

@[simp] theorem utf8Tail_cons {low high need bits seen : Nat} {b : UInt8} {rest : Bytes}
    (h : low ≤ b.toNat ∧ b.toNat ≤ high) :
    utf8Tail low high (need + 1) bits seen (b :: rest) =
      utf8Tail 0x80 0xBF need (64 * bits + (b.toNat - 0x80)) (seen + 1) rest := by
  rw [utf8Tail, if_pos h]

/-- A character that needs more bytes has a continuation byte next. -/
theorem exists_of_utf8Tail_succ {low high need bits seen count : Nat} {bytes after : Bytes}
    {c : Char} (h : utf8Tail low high (need + 1) bits seen bytes = .char c count after) :
    ∃ b rest, bytes = b :: rest ∧ (low ≤ b.toNat ∧ b.toNat ≤ high) ∧
      utf8Tail 0x80 0xBF need (64 * bits + (b.toNat - 0x80)) (seen + 1) rest =
        .char c count after := by
  cases bytes with
  | nil => cases h
  | cons b rest =>
    rw [utf8Tail] at h
    split at h
    · rename_i hb
      exact ⟨b, rest, rfl, hb, h⟩
    · cases h

theorem eq_of_utf8Tail_zero {low high bits seen count : Nat} {bytes after : Bytes} {c : Char}
    (h : utf8Tail low high 0 bits seen bytes = .char c count after) :
    c = Char.ofNat bits ∧ bytes = after := by
  cases h
  exact ⟨rfl, rfl⟩

/-- The least second byte behind a first one. -/
def secondLow (lead : Nat) : Nat :=
  if lead = 0xE0 then 0xA0 else if lead = 0xF0 then 0x90 else 0x80

/-- The greatest second byte behind a first one. -/
def secondHigh (lead : Nat) : Nat :=
  if lead = 0xED then 0x9F else if lead = 0xF4 then 0x8F else 0xBF

theorem second_iff {lead n : Nat} :
    secondLow lead ≤ n ∧ n ≤ secondHigh lead ↔
      (0x80 ≤ n ∧ n ≤ 0xBF) ∧ (lead = 0xE0 → 0xA0 ≤ n) ∧ (lead = 0xED → n ≤ 0x9F) ∧
        (lead = 0xF0 → 0x90 ≤ n) ∧ (lead = 0xF4 → n ≤ 0x8F) := by
  unfold secondLow secondHigh
  split_ifs <;> omega

theorem utf8Step_one {b : UInt8} {rest : Bytes} (h : b.toNat < 0x80) :
    utf8Step b rest = .char (Char.ofNat b.toNat) 1 rest := by
  rw [utf8Step, if_pos h]

theorem utf8Step_two {b : UInt8} {rest : Bytes} (h : 0xC2 ≤ b.toNat ∧ b.toNat < 0xE0) :
    utf8Step b rest =
      utf8Tail (secondLow b.toNat) (secondHigh b.toNat) 1 (b.toNat - 0xC0) 1 rest := by
  have hlow : secondLow b.toNat = 0x80 := by rw [secondLow, if_neg (by omega), if_neg (by omega)]
  have hhigh : secondHigh b.toNat = 0xBF := by
    rw [secondHigh, if_neg (by omega), if_neg (by omega)]
  rw [utf8Step, if_neg (by omega), if_neg (by omega), if_pos h.2, hlow, hhigh]

theorem utf8Step_three {b : UInt8} {rest : Bytes} (h : 0xE0 ≤ b.toNat ∧ b.toNat < 0xF0) :
    utf8Step b rest =
      utf8Tail (secondLow b.toNat) (secondHigh b.toNat) 2 (b.toNat - 0xE0) 1 rest := by
  rw [utf8Step, if_neg (by omega), if_neg (by omega), if_neg (by omega)]
  by_cases hfirst : b.toNat = 0xE0
  · rw [if_pos hfirst, hfirst]
    rfl
  · by_cases hsurrogate : b.toNat = 0xED
    · rw [if_neg hfirst, if_pos hsurrogate, hsurrogate]
      rfl
    · rw [if_neg hfirst, if_neg hsurrogate, if_pos h.2, secondLow, secondHigh, if_neg hfirst,
        if_neg (by omega), if_neg hsurrogate, if_neg (by omega)]

theorem utf8Step_four {b : UInt8} {rest : Bytes} (h : 0xF0 ≤ b.toNat ∧ b.toNat ≤ 0xF4) :
    utf8Step b rest =
      utf8Tail (secondLow b.toNat) (secondHigh b.toNat) 3 (b.toNat - 0xF0) 1 rest := by
  rw [utf8Step, if_neg (by omega), if_neg (by omega), if_neg (by omega), if_neg (by omega),
    if_neg (by omega), if_neg (by omega)]
  by_cases hfirst : b.toNat = 0xF0
  · rw [if_pos hfirst, hfirst]
    rfl
  · by_cases hlast : b.toNat = 0xF4
    · rw [if_neg hfirst, if_neg (by omega), if_pos hlast, hlast]
      rfl
    · rw [if_neg hfirst, if_pos (by omega), secondLow, secondHigh, if_neg (by omega),
        if_neg hfirst, if_neg (by omega), if_neg hlast]

theorem utf8Step_fault {b : UInt8} {rest : Bytes}
    (h : 0x80 ≤ b.toNat ∧ b.toNat < 0xC2 ∨ 0xF4 < b.toNat) :
    utf8Step b rest = .fault .invalidStart 1 := by
  rcases h with h | h
  · rw [utf8Step, if_neg (by omega), if_pos h.2]
  · rw [utf8Step, if_neg (by omega), if_neg (by omega), if_neg (by omega), if_neg (by omega),
      if_neg (by omega), if_neg (by omega), if_neg (by omega), if_neg (by omega), if_neg (by omega)]

@[simp] theorem val_toNat_ofNat {n : Nat} (h : n < 0xD800 ∨ 0xDFFF < n ∧ n < 0x110000) :
    (Char.ofNat n).val.toNat = n := by
  rw [Char.ofNat, dif_pos h]
  rfl

theorem ofNat_eq_byte {n : Nat} {b : UInt8} (h : n = b.toNat) : UInt8.ofNat n = b := by
  rw [h, UInt8.ofNat_toNat]

/-- What is read as a character is what is written for it. -/
theorem eq_encode_of_utf8Step {b : UInt8} {rest after : Bytes} {c : Char} {count : Nat}
    (h : utf8Step b rest = .char c count after) :
    b :: rest = String.utf8EncodeChar c ++ after := by
  have hcases : b.toNat < 0x80 ∨ (0xC2 ≤ b.toNat ∧ b.toNat < 0xE0) ∨
      (0xE0 ≤ b.toNat ∧ b.toNat < 0xF0) ∨ (0xF0 ≤ b.toNat ∧ b.toNat ≤ 0xF4) ∨
      (0x80 ≤ b.toNat ∧ b.toNat < 0xC2 ∨ 0xF4 < b.toNat) := by
    omega
  rcases hcases with hb | hb | hb | hb | hb
  · rw [utf8Step_one hb] at h
    cases h
    have hval := val_toNat_ofNat (n := b.toNat) (by omega)
    simp only [String.utf8EncodeChar, hval]
    rw [if_pos (by omega), UInt8.ofNat_toNat, List.singleton_append]
  · rw [utf8Step_two hb] at h
    obtain ⟨x, rest, rfl, hx, h⟩ := exists_of_utf8Tail_succ h
    obtain ⟨hc, rfl⟩ := eq_of_utf8Tail_zero h
    rw [second_iff] at hx
    have hval := val_toNat_ofNat (n := 64 * (b.toNat - 0xC0) + (x.toNat - 0x80)) (by omega)
    simp only [String.utf8EncodeChar, hc, hval]
    rw [if_neg (by omega), if_pos (by omega), ofNat_eq_byte (b := b) (by omega),
      ofNat_eq_byte (b := x) (by omega)]
    rfl
  · rw [utf8Step_three hb] at h
    obtain ⟨x, rest, rfl, hx, h⟩ := exists_of_utf8Tail_succ h
    obtain ⟨y, rest, rfl, hy, h⟩ := exists_of_utf8Tail_succ h
    obtain ⟨hc, rfl⟩ := eq_of_utf8Tail_zero h
    rw [second_iff] at hx
    -- The bounds on `x` keep the number out of the surrogates and above the shorter forms.
    have hval := val_toNat_ofNat
      (n := 64 * (64 * (b.toNat - 0xE0) + (x.toNat - 0x80)) + (y.toNat - 0x80)) (by omega)
    simp only [String.utf8EncodeChar, hc, hval]
    rw [if_neg (by omega), if_neg (by omega), if_pos (by omega), ofNat_eq_byte (b := b) (by omega),
      ofNat_eq_byte (b := x) (by omega), ofNat_eq_byte (b := y) (by omega)]
    rfl
  · rw [utf8Step_four hb] at h
    obtain ⟨x, rest, rfl, hx, h⟩ := exists_of_utf8Tail_succ h
    obtain ⟨y, rest, rfl, hy, h⟩ := exists_of_utf8Tail_succ h
    obtain ⟨z, rest, rfl, hz, h⟩ := exists_of_utf8Tail_succ h
    obtain ⟨hc, rfl⟩ := eq_of_utf8Tail_zero h
    rw [second_iff] at hx
    have hval := val_toNat_ofNat
      (n := 64 * (64 * (64 * (b.toNat - 0xF0) + (x.toNat - 0x80)) + (y.toNat - 0x80)) +
        (z.toNat - 0x80)) (by omega)
    simp only [String.utf8EncodeChar, hc, hval]
    rw [if_neg (by omega), if_neg (by omega), if_neg (by omega), ofNat_eq_byte (b := b) (by omega),
      ofNat_eq_byte (b := x) (by omega), ofNat_eq_byte (b := y) (by omega),
      ofNat_eq_byte (b := z) (by omega)]
    rfl
  · rw [utf8Step_fault hb] at h
    cases h

/-- What is written for a character is read as it. -/
theorem exists_utf8Step_encode (c : Char) (after : Bytes) :
    ∃ b rest count, String.utf8EncodeChar c ++ after = b :: rest ∧
      utf8Step b rest = .char c count after := by
  have hvalid : c.val.toNat < 0xD800 ∨ 0xDFFF < c.val.toNat ∧ c.val.toNat < 0x110000 := c.valid
  have hofNat : ∀ n, n = c.val.toNat → Char.ofNat n = c := by
    rintro n rfl
    exact Char.ofNat_toNat c
  have hbyte : ∀ n < 256, (UInt8.ofNat n).toNat = n := fun n hn => UInt8.toNat_ofNat_of_lt' hn
  simp only [String.utf8EncodeChar]
  generalize c.val.toNat = v at *
  split_ifs with hone htwo hthree <;> simp only [List.cons_append, List.nil_append]
  · have hb := hbyte v (by omega)
    refine ⟨_, _, 1, rfl, ?_⟩
    rw [utf8Step_one (by omega), hb, hofNat v rfl]
  · have hb := hbyte (v / 64 % 32 + 192) (by omega)
    have hx := hbyte (v % 64 + 128) (by omega)
    refine ⟨_, _, 2, rfl, ?_⟩
    rw [utf8Step_two (by omega), utf8Tail_cons (by rw [second_iff]; omega), utf8Tail, hb, hx,
      hofNat _ (by omega)]
  · have hb := hbyte (v / 4096 % 16 + 224) (by omega)
    have hx := hbyte (v / 64 % 64 + 128) (by omega)
    have hy := hbyte (v % 64 + 128) (by omega)
    refine ⟨_, _, 3, rfl, ?_⟩
    rw [utf8Step_three (by omega), utf8Tail_cons (by rw [second_iff]; omega),
      utf8Tail_cons (by omega), utf8Tail, hb, hx, hy, hofNat _ (by omega)]
  · have hb := hbyte (v / 262144 % 8 + 240) (by omega)
    have hx := hbyte (v / 4096 % 64 + 128) (by omega)
    have hy := hbyte (v / 64 % 64 + 128) (by omega)
    have hz := hbyte (v % 64 + 128) (by omega)
    refine ⟨_, _, 4, rfl, ?_⟩
    rw [utf8Step_four (by omega), utf8Tail_cons (by rw [second_iff]; omega),
      utf8Tail_cons (by omega), utf8Tail_cons (by omega), utf8Tail, hb, hx, hy, hz,
      hofNat _ (by omega)]

@[simp] theorem encodeUtf8_append (one two : Text) :
    encodeUtf8 (one ++ two) = encodeUtf8 one ++ encodeUtf8 two :=
  List.flatMap_append

/-- From any state the reader gives what it has read and a text of which the bytes are the written
form. -/
theorem decodeUtf8From_eq_ok_iff {position : Nat} {read text : Text} {bytes : Bytes} :
    decodeUtf8From position read bytes = .ok text ↔
      ∃ more, bytes = encodeUtf8 more ∧ text = read.reverse ++ more := by
  constructor
  · intro h
    fun_induction decodeUtf8From position read bytes with
    | case1 position read =>
      cases h
      exact ⟨[], rfl, (List.append_nil _).symm⟩
    | case2 position read b rest c count after hstep ih =>
      obtain ⟨more, rfl, rfl⟩ := ih h
      refine ⟨c :: more, ?_, by simp⟩
      rw [eq_encode_of_utf8Step hstep]
      rfl
    | case3 => cases h
  · rintro ⟨more, rfl, rfl⟩
    induction more generalizing position read with
    | nil => simp [encodeUtf8, decodeUtf8From]
    | cons c more ih =>
      obtain ⟨b, rest, count, hbytes, hstep⟩ := exists_utf8Step_encode c (encodeUtf8 more)
      have hcons : encodeUtf8 (c :: more) = b :: rest := hbytes
      rw [hcons, decodeUtf8From]
      split
      · rename_i hstep'
        cases hstep.symm.trans hstep'
        rw [ih]
        simp
      · rename_i hstep'
        cases hstep.symm.trans hstep'

/-- Bytes are read as a text exactly when they are its written form. -/
@[simp] theorem decodeUtf8_eq_ok_iff {bytes : Bytes} {text : Text} :
    decodeUtf8 bytes = .ok text ↔ bytes = encodeUtf8 text := by
  rw [decodeUtf8, decodeUtf8From_eq_ok_iff]
  simp

@[simp] theorem decodeUtf8_encodeUtf8 (text : Text) : decodeUtf8 (encodeUtf8 text) = .ok text :=
  decodeUtf8_eq_ok_iff.mpr rfl

theorem encodeUtf8_injective {one two : Text} (h : encodeUtf8 one = encodeUtf8 two) : one = two := by
  have hone := decodeUtf8_encodeUtf8 one
  rw [h, decodeUtf8_encodeUtf8] at hone
  exact (Except.ok.inj hone).symm

theorem exists_decodeUtf8_error_iff {bytes : Bytes} :
    (∃ cause, decodeUtf8 bytes = .error cause) ↔ ∀ text, bytes ≠ encodeUtf8 text := by
  simp only [ne_eq, ← decodeUtf8_eq_ok_iff]
  cases decodeUtf8 bytes <;> simp

end CalcLint
