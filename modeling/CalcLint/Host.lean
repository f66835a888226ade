import CalcLint.Encoding

/-!
# The host

What a run takes from the system below it: encodings beside the four that are always there, and the
words for what is wrong with a document. Nothing is assumed about either.
-/
namespace CalcLint

/-- Why bytes give no text: some of them stand for no character, or they are refused as a whole. -/
inductive CodecFault where
  | undecodable (cause : DecodeError)
  | refused (reason : String)
  deriving DecidableEq, Repr

/-- A way to store texts. Storing a text may fail for a reason. -/
structure Codec where
  decode : Bytes → Except CodecFault Text
  encode : Text → Except String Bytes

def Encoding.codec (e : Encoding) : Codec where
  decode bytes := (e.decode bytes).mapError .undecodable
  encode text := .ok (e.encode text)

/-- Why there is no way to store texts under a name. -/
inductive CodecMissing where
  | unknown
  /-- The name stands for something else than a way to store texts. -/
  | notText
  deriving DecidableEq, Repr

def CodecMissing.message (name : String) : CodecMissing → String
  | .unknown => s!"unknown encoding: {name}"
  | .notText =>
    s!"'{name}' is not a text encoding; use codecs.open() to handle arbitrary codecs"

structure Host where
  /-- What the host has under a name. -/
  codecs : String → Except CodecMissing Codec
  /-- What the host says about a text that is no document. -/
  complaint : Text → String

/-- The codec of a name; the host is asked only for names it can give a meaning to. -/
def Host.codec (host : Host) (name : String) : Except CodecMissing Codec :=
  match Encoding.ofName? name with
  | some e => .ok e.codec
  | none => host.codecs name

/-- A host with no encodings of its own and one complaint about all documents. -/
def Host.bare : Host where
  codecs _ := .error .unknown
  complaint _ := "not a document"

@[simp] theorem Host.codec_of_known {name : String} {e : Encoding}
    (h : Encoding.ofName? name = some e) (host : Host) : host.codec name = .ok e.codec := by
  simp [Host.codec, h]

end CalcLint
