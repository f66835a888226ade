import CalcLint.Text.Lines

/-!
# Texts as bytes

Four ways to store a text, and the names they are known by. Reading is strict: the first byte
sequence that stands for no character is reported with its place. UTF-8 also has a reading that
never fails, in which each such sequence, taken as long as possible, becomes the replacement
character.
-/
namespace CalcLint

/-- The content of a file. -/
abbrev Bytes := List UInt8

/-- Why bytes stand for no character. -/
inductive DecodeFault where
  | invalidStart
  | invalidContinuation
  | unexpectedEnd
  | notAscii
  /-- What an encoding beside the four says. -/
  | other (reason : String)
  deriving DecidableEq, Repr

def DecodeFault.message : DecodeFault → String
  | .invalidStart => "invalid start byte"
  | .invalidContinuation => "invalid continuation byte"
  | .unexpectedEnd => "unexpected end of data"
  | .notAscii => "ordinal not in range(128)"
  | .other reason => reason

/-- Bytes that stand for no character: the first of them, its position, how many they are. -/
structure DecodeError where
  codec : String
  byte : UInt8
  position : Nat
  count : Nat
  fault : DecodeFault
  deriving DecidableEq, Repr

def byteDigits (b : UInt8) : List Char :=
  let digit (n : Nat) : Char := Char.ofNat (if n < 10 then 48 + n else 87 + n)
  [digit (b.toNat / 16), digit (b.toNat % 16)]

def DecodeError.message (e : DecodeError) : String :=
  let place :=
    if e.count = 1 then s!"byte 0x{String.ofList (byteDigits e.byte)} in position {e.position}"
    else s!"bytes in position {e.position}-{e.position + e.count - 1}"
  s!"'{e.codec}' codec can't decode {place}: {e.fault.message}"

/-- What the first bytes hold: a character of `count` bytes and the bytes behind it, or `count`
bytes that stand for no character. -/
inductive Utf8Step where
  | char (c : Char) (count : Nat) (rest : Bytes)
  | fault (cause : DecodeFault) (count : Nat)

/-- Read `need` continuation bytes, the first of them from `low` to `high`, behind `seen` bytes of
the same character whose bits are `bits`. -/
def utf8Tail (low high : Nat) : (need bits seen : Nat) → Bytes → Utf8Step
  | 0, bits, seen, rest => .char (Char.ofNat bits) seen rest
  | _ + 1, _, seen, [] => .fault .unexpectedEnd seen
  | need + 1, bits, seen, b :: rest =>
    if low ≤ b.toNat ∧ b.toNat ≤ high then
      utf8Tail 0x80 0xBF need (64 * bits + (b.toNat - 0x80)) (seen + 1) rest
    else .fault .invalidContinuation seen

/-- Read the character that begins with byte `b`. The bounds on its second byte rule out surrogates,
numbers that have a shorter form, and numbers beyond the last character. -/
def utf8Step (b : UInt8) (rest : Bytes) : Utf8Step :=
  let n := b.toNat
  if n < 0x80 then .char (Char.ofNat n) 1 rest
  else if n < 0xC2 then .fault .invalidStart 1
  else if n < 0xE0 then utf8Tail 0x80 0xBF 1 (n - 0xC0) 1 rest
  else if n = 0xE0 then utf8Tail 0xA0 0xBF 2 (n - 0xE0) 1 rest
  else if n = 0xED then utf8Tail 0x80 0x9F 2 (n - 0xE0) 1 rest
  else if n < 0xF0 then utf8Tail 0x80 0xBF 2 (n - 0xE0) 1 rest
  else if n = 0xF0 then utf8Tail 0x90 0xBF 3 (n - 0xF0) 1 rest
  else if n < 0xF4 then utf8Tail 0x80 0xBF 3 (n - 0xF0) 1 rest
  else if n = 0xF4 then utf8Tail 0x80 0x8F 3 (n - 0xF0) 1 rest
  else .fault .invalidStart 1

theorem utf8Tail_length {low high need bits seen count : Nat} {bytes rest : Bytes} {c : Char}
    (h : utf8Tail low high need bits seen bytes = .char c count rest) :
    rest.length ≤ bytes.length := by
  fun_induction utf8Tail low high need bits seen bytes with
  | case1 => cases h; exact Nat.le_refl _
  | case2 => cases h
  | case3 _ _ _ _ _ b bs _ ih => have := ih h; simp only [List.length_cons]; omega
  | case4 => cases h

theorem utf8Step_length {b : UInt8} {count : Nat} {bytes rest : Bytes} {c : Char}
    (h : utf8Step b bytes = .char c count rest) : rest.length ≤ bytes.length := by
  unfold utf8Step at h
  simp only at h
  repeat' split at h
  all_goals first
    | exact utf8Tail_length h
    | (cases h; exact Nat.le_refl _)
    | cases h

/-- Read the bytes from `position` on; `text` is what was read before, last character first. -/
def decodeUtf8From (position : Nat) (text : Text) (bytes : Bytes) : Except DecodeError Text :=
  match bytes with
  | [] => .ok text.reverse
  | b :: rest =>
    match _ : utf8Step b rest with
    | .char c count after => decodeUtf8From (position + count) (c :: text) after
    | .fault cause count => .error ⟨"utf-8", b, position, count, cause⟩
termination_by bytes.length
decreasing_by
  have := utf8Step_length ‹_›
  simp only [List.length_cons]
  omega

def decodeUtf8 (bytes : Bytes) : Except DecodeError Text :=
  decodeUtf8From 0 [] bytes

/-- Read UTF-8 with replacement characters; `text` is what was read before, last character
first. -/
def decodeUtf8LossyFrom (text : Text) (bytes : Bytes) : Text :=
  match bytes with
  | [] => text.reverse
  | b :: rest =>
    match _ : utf8Step b rest with
    | .char c _ after => decodeUtf8LossyFrom (c :: text) after
    | .fault _ count => decodeUtf8LossyFrom ('\uFFFD' :: text) (rest.drop (count - 1))
termination_by bytes.length
decreasing_by
  · have := utf8Step_length ‹_›
    simp only [List.length_cons]
    omega
  · simp only [List.length_drop, List.length_cons]
    omega

/-- Read UTF-8, each sequence that stands for no character as the replacement character. -/
def decodeUtf8Lossy (bytes : Bytes) : Text :=
  decodeUtf8LossyFrom [] bytes

def encodeUtf8 (text : Text) : Bytes :=
  text.flatMap String.utf8EncodeChar

/-- The encodings a script may be stored in. -/
inductive Encoding where
  | utf8
  | utf8Signed
  | latin1
  | ascii
  deriving DecidableEq, Repr

namespace Encoding

def all : List Encoding :=
  [.utf8, .utf8Signed, .latin1, .ascii]

/-- The name of an encoding in the form in which names are compared. -/
def name : Encoding → String
  | .utf8 => "utf_8"
  | .utf8Signed => "utf_8_sig"
  | .latin1 => "latin_1"
  | .ascii => "ascii"

/-- Other names of an encoding, in the same form. -/
def aliases : Encoding → List String
  | .utf8 => ["u8", "utf", "utf8", "utf8_ucs2", "utf8_ucs4", "cp65001"]
  | .utf8Signed => []
  | .latin1 => [
    "8859", "cp819", "csisolatin1", "ibm819", "iso8859", "iso8859_1", "iso_8859_1",
    "iso_8859_1_1987", "iso_ir_100", "l1", "latin", "latin1"]
  | .ascii => [
    "646", "ansi_x3.4_1968", "ansi_x3_4_1968", "ansi_x3.4_1986", "cp367", "csascii", "ibm367",
    "iso646_us", "iso_646.irv_1991", "iso_ir_6", "us", "us_ascii"]

/-- ASCII letters and digits, and the dot, are kept when names are compared. -/
def isNameChar (c : Char) : Bool :=
  c.isAlphanum || c == '.'

/-- The form of a name in which it is compared: in small letters, with one underscore for all that
stands between kept characters. `gap` tells whether something was left out behind a kept one. -/
def plainChars (gap : Bool) : List Char → List Char
  | [] => []
  | c :: rest =>
    if isNameChar c then
      let kept := c.toLower :: plainChars false rest
      if gap then '_' :: kept else kept
    else plainChars true rest

def plainName (name : String) : String :=
  String.ofList (plainChars false (name.toList.dropWhile (!isNameChar ·)))

/-- The encoding of a given name. An alias may have underscores where it should have dots. -/
def ofName? (name : String) : Option Encoding :=
  let plain := plainName name
  let undotted := plain.map fun c => if c = '.' then '_' else c
  all.find? fun e => e.name == plain || e.aliases.contains plain || e.aliases.contains undotted

/-- The bytes that sign a text as UTF-8. -/
def signature : Bytes :=
  [0xEF, 0xBB, 0xBF]

/-- Read signed UTF-8. The signature is not part of the text and not counted in positions; bytes
that are only the beginning of a signature hold no text. -/
def decodeSigned (bytes : Bytes) : Except DecodeError Text :=
  if signature.isPrefixOf bytes then decodeUtf8 (bytes.drop signature.length)
  else if bytes.isPrefixOf signature then .ok []
  else decodeUtf8 bytes

def decodeLatin1 (bytes : Bytes) : Text :=
  bytes.map fun b => Char.ofNat b.toNat

def decodeAscii (bytes : Bytes) : Except DecodeError Text :=
  match bytes.zipIdx.find? fun entry => decide (0x80 ≤ entry.1) with
  | some (b, position) => .error ⟨"ascii", b, position, 1, .notAscii⟩
  | none => .ok (decodeLatin1 bytes)

/-- Read a text. -/
def decode : Encoding → Bytes → Except DecodeError Text
  | .utf8, bytes => decodeUtf8 bytes
  | .utf8Signed, bytes => decodeSigned bytes
  | .latin1, bytes => .ok (decodeLatin1 bytes)
  | .ascii, bytes => decodeAscii bytes

/-- Write a text. One-byte encodings are only used for texts whose characters they have. -/
def encode : Encoding → Text → Bytes
  | .utf8, text => encodeUtf8 text
  | .utf8Signed, text => signature ++ encodeUtf8 text
  | .latin1, text => text.map fun c => c.toNat.toUInt8
  | .ascii, text => text.map fun c => c.toNat.toUInt8

end Encoding

end CalcLint
