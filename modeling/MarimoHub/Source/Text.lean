import Mathlib.Data.Rat.Floor

/-!
# Cutting text at a byte budget

`text.ts`. A well-formed string is the list of its code points; a number is exact, and `none` where
it is not a number.
-/

namespace MarimoHub.Source.Texts

/-- `new TextEncoder().encode(value)`. -/
def encode (value : List Char) : List UInt8 := value.flatMap String.utf8EncodeChar

def byteOrderMark : Char := '\uFEFF'

def dropMark : List Char → List Char
  | [] => []
  | first :: rest => if first = byteOrderMark then rest else first :: rest

/-- `new TextDecoder().decode(bytes)`, which drops a leading byte order mark. `none` stands for
bytes that are no encoding, which it would mend with replacement characters. -/
def decode (bytes : List UInt8) : Option (List Char) :=
  bytes.toByteArray.utf8Decode?.map fun text => dropMark text.toList

def byteBudget (maxBytes : Option ℚ) : Nat := maxBytes.elim 0 (⌊·⌋₊)

def isContinuationByte (byte : UInt8) : Bool := byte &&& 0xc0 = 0x80

/-- The loop of `utf8HeadBytes`. Past the last byte `encoded[end]` is `undefined`. -/
def headEnd (encoded : List UInt8) : Nat → Nat
  | 0 => 0
  | n + 1 => if encoded[n + 1]?.any isContinuationByte then headEnd encoded n else n + 1

def utf8HeadBytes (encoded : List UInt8) (maxBytes : Option ℚ) : Option (List Char) :=
  decode (encoded.take (headEnd encoded (min encoded.length (byteBudget maxBytes))))

def utf8Head (value : List Char) (maxBytes : Option ℚ) : Option (List Char) :=
  if maxBytes.any (((encode value).length : ℚ) ≤ ·) then some value
  else utf8HeadBytes (encode value) maxBytes

def utf8Tail (value : List Char) (maxBytes : Option ℚ) : Option (List Char) :=
  let encoded := encode value
  let budget := byteBudget maxBytes
  if encoded.length ≤ budget then some value
  else decode ((encoded.drop (encoded.length - budget)).dropWhile isContinuationByte)

end MarimoHub.Source.Texts
