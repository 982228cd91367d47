import ApiDoc.Text.Lines
import ApiDoc.Text.Quoted

/-!
# Character encodings

From the bytes of a file to its characters. A byte that does not fit the encoding ends the reading
with the place of the fault and the bytes that belong to it; nothing is replaced or skipped. In
what has been read every kind of line end counts as a line feed.

Five encodings are written out. Others are given from outside, as what they make of bytes
(`Codec`), by their names.
-/

namespace ApiDoc.Text

/-- The encodings that are written out. -/
inductive Charset where
  /-- UTF-8; a byte order mark is a character like any other. -/
  | utf8
  /-- UTF-8 with a byte order mark in front that is dropped. -/
  | utf8Signed
  /-- Every byte is the character of the same number. -/
  | latin1
  /-- The bytes below 128. -/
  | ascii
  /-- Two bytes for each unit, the lower one first. -/
  | utf16le
deriving Repr, DecidableEq, Inhabited

namespace Charset

/-- The name of an encoding in messages. The mark of signed UTF-8 is taken off before the bytes are
read as plain UTF-8. -/
def label : Charset → String
  | utf8 => "utf-8"
  | utf8Signed => "utf-8"
  | latin1 => "latin-1"
  | ascii => "ascii"
  | utf16le => "utf-16-le"

/-- A name in lower case. Of letters, digits and dots it keeps all, and it has one low line between
two of them for what else stands there. -/
def normalizeName (cs : List Char) : List Char :=
  (cs.foldl step ([], false)).1.reverse
where
  /-- One more character; the flag tells whether other signs have come since the last one kept. -/
  step (acc : List Char × Bool) (c : Char) : List Char × Bool :=
    if c.isAlphanum || c = '.' then
      (c.toLower :: (if acc.2 && !acc.1.isEmpty then '_' :: acc.1 else acc.1), false)
    else (acc.1, true)

/-- The names of the ways to write bytes by other bytes, which are no encodings of characters. -/
def byteCodings : List String :=
  ["base64", "base64_codec", "base_64", "bz2", "bz2_codec", "hex", "hex_codec", "quopri",
    "quopri_codec", "quoted_printable", "quotedprintable", "rot13", "rot_13", "uu", "uu_codec",
    "zip", "zlib", "zlib_codec"]

/-- Does a name stand for a way to write bytes by other bytes? -/
def isByteCoding (name : String) : Bool :=
  byteCodings.contains (String.ofList (normalizeName name.toList))

/-- The encoding that a name stands for, by its common names. The encoding of the place of use is
UTF-8. -/
def ofName? (name : String) : Option Charset :=
  let norm := String.ofList (normalizeName name.toList)
  if name = "locale" then some utf8
  else if ["utf_8", "utf8", "u8", "utf", "utf8_ucs2", "utf8_ucs4", "cp65001"].contains norm then
    some utf8
  else if ["utf_8_sig"].contains norm then some utf8Signed
  else if ["latin_1", "latin1", "latin", "l1", "8859", "cp819", "csisolatin1", "ibm819",
      "iso8859", "iso8859_1", "iso_8859_1", "iso_8859_1_1987", "iso_ir_100"].contains norm then
    some latin1
  else if ["ascii", "646", "ansi_x3.4_1968", "ansi_x3_4_1968", "ansi_x3.4_1986", "cp367",
      "csascii", "ibm367", "iso646_us", "iso_646.irv_1991", "iso_ir_6", "us",
      "us_ascii"].contains norm then
    some ascii
  else if ["utf_16_le", "utf_16le", "unicodelittleunmarked"].contains norm then some utf16le
  else none

end Charset

inductive DecodeReason where
  | invalidStart
  | invalidContinuation
  | unexpectedEnd
  | outOfRange
  | truncated
  | illegalEncoding
  | illegalSurrogate
  | other (text : String)
deriving Repr, DecidableEq, Inhabited

def DecodeReason.text : DecodeReason → String
  | invalidStart => "invalid start byte"
  | invalidContinuation => "invalid continuation byte"
  | unexpectedEnd => "unexpected end of data"
  | outOfRange => "ordinal not in range(128)"
  | truncated => "truncated data"
  | illegalEncoding => "illegal encoding"
  | illegalSurrogate => "illegal UTF-16 surrogate"
  | other text => text

/-- A fault in the bytes of a text: the encoding they do not fit, where it starts, how many bytes
belong to it, and the first of them. -/
structure DecodeError where
  label : String
  position : Nat
  width : Nat
  byte : UInt8
  reason : DecodeReason
deriving Repr, DecidableEq, Inhabited

def DecodeError.message (e : DecodeError) : String :=
  "'" ++ e.label ++ "' codec can't decode " ++
    (if e.width = 1 then
      "byte 0x" ++ String.ofList (hex 2 e.byte.toNat) ++ " in position " ++ toString e.position
    else
      "bytes in position " ++ toString e.position ++ "-" ++ toString (e.position + e.width - 1)) ++
    ": " ++ e.reason.text

/-! ## UTF-8 -/

/-- What a lead byte announces: the number of bytes that follow, its own bits, and the range of the
next byte. -/
structure Lead where
  count : Nat
  bits : Nat
  low : UInt8
  high : UInt8

/-- The lead bytes of sequences of two, three and four bytes. The range of the second byte rules
out overlong forms, surrogates and numbers beyond the last character. -/
def lead? (b : UInt8) : Option Lead :=
  if b < 0xC2 then none
  else if b < 0xE0 then some ⟨1, b.toNat - 0xC0, 0x80, 0xBF⟩
  else if b < 0xF0 then
    some ⟨2, b.toNat - 0xE0, if b = 0xE0 then 0xA0 else 0x80, if b = 0xED then 0x9F else 0xBF⟩
  else if b < 0xF5 then
    some ⟨3, b.toNat - 0xF0, if b = 0xF0 then 0x90 else 0x80, if b = 0xF4 then 0x8F else 0xBF⟩
  else none

/-- The bytes after a lead byte: the number of the character and what follows, or the reason why
there is none and how many of the bytes were good. -/
def readContinuation : (count : Nat) → (value : Nat) → (low high : UInt8) → (seen : Nat) →
    List UInt8 → Except (DecodeReason × Nat) (Nat × List UInt8)
  | 0, value, _, _, _, bytes => .ok (value, bytes)
  | _ + 1, _, _, _, seen, [] => .error (.unexpectedEnd, seen)
  | count + 1, value, low, high, seen, b :: bytes =>
    if low ≤ b ∧ b ≤ high then
      readContinuation count (value * 64 + (b.toNat - 0x80)) 0x80 0xBF (seen + 1) bytes
    else .error (.invalidContinuation, seen)

theorem length_readContinuation {count value seen : Nat} {low high : UInt8}
    {bytes rest : List UInt8} {n : Nat}
    (h : readContinuation count value low high seen bytes = .ok (n, rest)) :
    rest.length ≤ bytes.length := by
  fun_induction readContinuation count value low high seen bytes with
  | case1 => cases h; exact Nat.le_refl _
  | case2 => cases h
  | case3 _ _ _ _ _ _ _ _ ih => have := ih h; simp; omega
  | case4 => cases h

/-- The characters of UTF-8 bytes that start at the given position of their file. -/
def decodeUtf8 (position : Nat) (bytes : List UInt8) : Except DecodeError (List Char) :=
  match bytes with
  | [] => .ok []
  | b :: rest =>
    if b < 0x80 then
      match decodeUtf8 (position + 1) rest with
      | .error e => .error e
      | .ok cs => .ok (Char.ofNat b.toNat :: cs)
    else
      match lead? b with
      | none => .error ⟨Charset.utf8.label, position, 1, b, .invalidStart⟩
      | some l =>
        match h : readContinuation l.count l.bits l.low l.high 1 rest with
        | .error (reason, width) => .error ⟨Charset.utf8.label, position, width, b, reason⟩
        | .ok (n, rest') =>
          have : rest'.length ≤ rest.length := length_readContinuation h
          match decodeUtf8 (position + 1 + l.count) rest' with
          | .error e => .error e
          | .ok cs => .ok (Char.ofNat n :: cs)
termination_by bytes.length

/-- The bytes without a byte order mark at their start, or without a beginning of one that is all
there is. -/
def dropSignature : List UInt8 → List UInt8
  | [0xEF] => []
  | [0xEF, 0xBB] => []
  | 0xEF :: 0xBB :: 0xBF :: rest => rest
  | bytes => bytes

/-! ## The other encodings -/

def decodeAscii (position : Nat) : List UInt8 → Except DecodeError (List Char)
  | [] => .ok []
  | b :: rest =>
    if b < 0x80 then
      match decodeAscii (position + 1) rest with
      | .error e => .error e
      | .ok cs => .ok (Char.ofNat b.toNat :: cs)
    else .error ⟨Charset.ascii.label, position, 1, b, .outOfRange⟩

def unit16 (low high : UInt8) : Nat :=
  low.toNat + 256 * high.toNat

def isHighSurrogate (u : Nat) : Bool := 0xD800 ≤ u && u < 0xDC00

def isLowSurrogate (u : Nat) : Bool := 0xDC00 ≤ u && u < 0xE000

def utf16Error (position width : Nat) (byte : UInt8) (reason : DecodeReason) :
    Except DecodeError (List Char) :=
  .error ⟨Charset.utf16le.label, position, width, byte, reason⟩

/-- The characters of UTF-16 bytes, lower byte first. -/
def decodeUtf16 (position : Nat) : List UInt8 → Except DecodeError (List Char)
  | [] => .ok []
  | [a] => utf16Error position 1 a .truncated
  | a :: b :: c :: d :: rest =>
    let u := unit16 a b
    let v := unit16 c d
    if isHighSurrogate u then
      if isLowSurrogate v then
        match decodeUtf16 (position + 4) rest with
        | .error e => .error e
        | .ok cs => .ok (Char.ofNat (0x10000 + (u - 0xD800) * 0x400 + (v - 0xDC00)) :: cs)
      else utf16Error position 2 a .illegalSurrogate
    else if isLowSurrogate u then utf16Error position 2 a .illegalEncoding
    else
      match decodeUtf16 (position + 2) (c :: d :: rest) with
      | .error e => .error e
      | .ok cs => .ok (Char.ofNat u :: cs)
  | a :: b :: rest =>
    let u := unit16 a b
    if isHighSurrogate u then utf16Error position (2 + rest.length) a .unexpectedEnd
    else if isLowSurrogate u then utf16Error position 2 a .illegalEncoding
    else
      match decodeUtf16 (position + 2) rest with
      | .error e => .error e
      | .ok cs => .ok (Char.ofNat u :: cs)
termination_by bytes => bytes.length

def Charset.decode (charset : Charset) (bytes : List UInt8) : Except DecodeError (List Char) :=
  match charset with
  | utf8 => decodeUtf8 0 bytes
  | utf8Signed => decodeUtf8 0 (dropSignature bytes)
  | latin1 => .ok (bytes.map fun b => Char.ofNat b.toNat)
  | ascii => decodeAscii 0 bytes
  | utf16le => decodeUtf16 0 bytes

/-- The text of characters that were read: all its lines end with line feeds. -/
def textOf (cs : List Char) : String :=
  String.ofList (normalizeNewlines cs)

def Charset.readText (charset : Charset) (bytes : List UInt8) : Except DecodeError String :=
  (charset.decode bytes).map textOf

/-! ## Encodings from outside -/

/-- How reading in some encoding fails: at a fault in the bytes, or in a way of its own. -/
inductive CodecError where
  | bytes (e : DecodeError)
  | other (message : String)
deriving Repr, DecidableEq, Inhabited

/-- An encoding, as what it makes of the bytes of a file. -/
structure Codec where
  decode : List UInt8 → Except CodecError (List Char)

def Codec.readText (codec : Codec) (bytes : List UInt8) : Except CodecError String :=
  (codec.decode bytes).map textOf

def Charset.codec (charset : Charset) : Codec where
  decode bytes := (charset.decode bytes).mapError .bytes

/-- The encodings that are known by name beside those written out. -/
abbrev Codecs := String → Option Codec

def Codecs.find? (codecs : Codecs) (name : String) : Option Codec :=
  match Charset.ofName? name with
  | some charset => some charset.codec
  | none => if Charset.isByteCoding name then none else codecs name

end ApiDoc.Text
