import AdbBridge.Library.Checked
import AdbBridge.Library.Numeral

namespace AdbBridge
namespace Cjson

open Library Library.Numeral Library.Checked

/-!
# The parser of cJSON

The functions from `cJSON_Parse` down to `parse_hex4`, over the indexes of the buffer
they read.  Every access to the buffer, and every store into the memory of a string, is
checked against the size of the array.  A function that returns `false`
refuses.  Allocations succeed.
-/

/-! ## Items -/

/-- A `cJSON` with its children in their order.  The text of a string, and of a name, is
what was stored in front of the terminator. -/
inductive Item (Double : Type) where
  | null
  | false
  | true
  | number (valuedouble : Double) (valueint : Int)
  | string (valuestring : List UInt8)
  | array (child : List (Item Double))
  | object (child : List (List UInt8 × Item Double))

/-- The floating point operations of the C library that the parser uses: `strtod`, with
the number of characters it took, the comparisons with `INT_MAX` and `INT_MIN`, and the
conversion to `int`. -/
structure Doubles (Double : Type) where
  strtod : List UInt8 -> Double × Nat
  atLeastIntMax : Double -> Bool
  atMostIntMin : Double -> Bool
  toInt : Double -> Int
  strtod_le : forall text, (strtod text).2 ≤ text.length

variable {Double : Type}

/-- The field `valueint` of a number, with saturation in case of overflow. -/
def Doubles.valueint (doubles : Doubles Double) (number : Double) : Int :=
  if doubles.atLeastIntMax number then 2147483647
  else if doubles.atMostIntMin number then -2147483648
  else doubles.toInt number

/-! ## The buffer -/

/-- `parse_buffer`; its length is that of the content. -/
structure ParseBuffer where
  content : List UInt8
  offset : Nat
  depth : Nat

def nestingLimit : Nat := 1000

namespace ParseBuffer

def canAccess (buffer : ParseBuffer) (index : Nat) : Bool := buffer.offset + index < buffer.content.length

/-- The byte at the offset is accessible and is this one. -/
def sees (buffer : ParseBuffer) (byte : UInt8) : Bool := buffer.content[buffer.offset]? == some byte

/-- `can_read` with `strncmp`: the text stands at the offset. -/
def seesText (buffer : ParseBuffer) (text : List UInt8) : Bool :=
  (buffer.content.drop buffer.offset).take text.length == text

/-- The offset is moved on. -/
def advance (buffer : ParseBuffer) (count : Nat) : ParseBuffer :=
  { buffer with offset := buffer.offset + count }

/-- Behind the bracket of an array or the brace of an object, one level deeper. -/
def enter (buffer : ParseBuffer) : ParseBuffer :=
  { buffer with offset := buffer.offset + 1, depth := buffer.depth + 1 }

/-- At the character in front. -/
def stepBack (buffer : ParseBuffer) : ParseBuffer := { buffer with offset := buffer.offset - 1 }

/-- Behind the closing bracket or brace. -/
def leave (buffer : ParseBuffer) : ParseBuffer :=
  { buffer with offset := buffer.offset + 1, depth := buffer.depth - 1 }

def skipWhitespace (buffer : ParseBuffer) : ParseBuffer :=
  if buffer.canAccess 0 then
    let behind := buffer.offset + ((buffer.content.drop buffer.offset).takeWhile (· ≤ 32)).length
    { buffer with offset := if behind = buffer.content.length then behind - 1 else behind }
  else buffer

def skipUtf8Bom (buffer : ParseBuffer) : ParseBuffer :=
  if buffer.canAccess 4 && buffer.seesText [0xEF, 0xBB, 0xBF] then buffer.advance 3 else buffer

end ParseBuffer

/-! ## Strings -/

/-- The digit of `parse_hex4`. -/
def hexDigitOf (byte : UInt8) : Option Nat :=
  if 48 ≤ byte ∧ byte ≤ 57 then some (byte.toNat - 48)
  else if 65 ≤ byte ∧ byte ≤ 70 then some (10 + byte.toNat - 65)
  else if 97 ≤ byte ∧ byte ≤ 102 then some (10 + byte.toNat - 97)
  else none

/-- The loop of `parse_hex4` with `count` digits to go. -/
def parseHexDigits (content : List UInt8) : Nat -> Nat -> Nat -> Except Stop Nat
  | 0, _, value => pure value
  | count + 1, input, value => do
      let byte ← read content input
      match hexDigitOf byte with
      | some digit =>
          parseHexDigits content count (input + 1)
            (if 0 < count then (value + digit) <<< 4 else value + digit)
      | none => pure 0

/-- `parse_hex4`, which returns 0 if one of the characters is no digit. -/
def parseHex4 (content : List UInt8) (input : Nat) : Except Stop Nat := parseHexDigits content 4 input 0

/-- A byte behind the first one of a sequence. -/
def continuationByte (codepoint : Nat) : UInt8 := UInt8.ofNat ((codepoint ||| 0x80) &&& 0xBF)

/-- The loop that encodes from the last byte to the second. -/
def encodeContinuations : Nat -> Nat -> List UInt8 -> Nat × List UInt8
  | 0, codepoint, encoded => (codepoint, encoded)
  | count + 1, codepoint, encoded =>
      encodeContinuations count (codepoint >>> 6) (continuationByte codepoint :: encoded)

/-- The bytes of a code point in a sequence of the given length with the given mark. -/
def encodeSequence (utf8Length firstByteMark codepoint : Nat) : List UInt8 :=
  let rest := encodeContinuations (utf8Length - 1) codepoint []
  (if 1 < utf8Length then UInt8.ofNat ((rest.1 ||| firstByteMark) &&& 0xFF)
    else UInt8.ofNat (rest.1 &&& 0x7F)) :: rest.2

/-- The encoding of a code point; there is none beyond `0x10FFFF`. -/
def encodeCodepoint (codepoint : Nat) : Except Stop (List UInt8) :=
  if codepoint < 0x80 then pure (encodeSequence 1 0 codepoint)
  else if codepoint < 0x800 then pure (encodeSequence 2 0xC0 codepoint)
  else if codepoint < 0x10000 then pure (encodeSequence 3 0xE0 codepoint)
  else if codepoint ≤ 0x10FFFF then pure (encodeSequence 4 0xF0 codepoint)
  else .error .refused

/-- `utf16_literal_to_utf8`: the length of the literal and its encoding. -/
def utf16LiteralToUtf8 (content : List UInt8) (inputPointer inputEnd : Nat) :
    Except Stop (Nat × List UInt8) := do
  refuseIf (inputEnd < inputPointer + 6)
  let firstCode ← parseHex4 content (inputPointer + 2)
  refuseIf (0xDC00 ≤ firstCode ∧ firstCode ≤ 0xDFFF)
  if 0xD800 ≤ firstCode ∧ firstCode ≤ 0xDBFF then
    let secondSequence := inputPointer + 6
    refuseIf (inputEnd < secondSequence + 6)
    let backslash ← read content secondSequence
    refuseIf (backslash ≠ 92)
    let letter ← read content (secondSequence + 1)
    refuseIf (letter ≠ 117)
    let secondCode ← parseHex4 content (secondSequence + 2)
    refuseIf (secondCode < 0xDC00 ∨ 0xDFFF < secondCode)
    let encoded ← encodeCodepoint (0x10000 + (((firstCode &&& 0x3FF) <<< 10) ||| (secondCode &&& 0x3FF)))
    pure (12, encoded)
  else
    let encoded ← encodeCodepoint firstCode
    pure (6, encoded)

/-- The loop that looks for the closing quote: where it stands, and how many backslashes
were passed. -/
def findStringEnd (content : List UInt8) : Nat -> Nat -> Nat -> Except Stop (Nat × Nat)
  | 0, _, _ => .error .unfinished
  | fuel + 1, inputEnd, skippedBytes =>
      match content[inputEnd]? with
      | none => .error .refused
      | some byte =>
          if byte = 34 then pure (inputEnd, skippedBytes)
          else if byte = 92 then
            if content.length ≤ inputEnd + 1 then .error .refused
            else findStringEnd content fuel (inputEnd + 2) (skippedBytes + 1)
          else findStringEnd content fuel (inputEnd + 1) skippedBytes

/-- A store at `output_pointer` into memory of `size` bytes. -/
def emit (size : Nat) (output bytes : List UInt8) : Except Stop (List UInt8) :=
  if output.length + bytes.length ≤ size then pure (output ++ bytes) else .error .outside

/-- The switch over the character behind a backslash: how many characters the escape has,
and what it is written as. -/
def unescapeSequence (content : List UInt8) (inputPointer inputEnd : Nat) :
    Except Stop (Nat × List UInt8) := do
  let kind ← read content (inputPointer + 1)
  if kind = 98 then pure (2, [8])
  else if kind = 102 then pure (2, [12])
  else if kind = 110 then pure (2, [10])
  else if kind = 114 then pure (2, [13])
  else if kind = 116 then pure (2, [9])
  else if kind = 34 ∨ kind = 92 ∨ kind = 47 then pure (2, [kind])
  else if kind = 117 then utf16LiteralToUtf8 content inputPointer inputEnd
  else .error .refused

/-- The loop through the string literal. -/
def unescapeString (content : List UInt8) (inputEnd size : Nat) :
    Nat -> Nat -> List UInt8 -> Except Stop (List UInt8)
  | 0, _, _ => .error .unfinished
  | fuel + 1, inputPointer, output =>
      if inputPointer < inputEnd then do
        let byte ← read content inputPointer
        if byte ≠ 92 then
          let output ← emit size output [byte]
          unescapeString content inputEnd size fuel (inputPointer + 1) output
        else
          let escape ← unescapeSequence content inputPointer inputEnd
          let output ← emit size output escape.2
          unescapeString content inputEnd size fuel (inputPointer + escape.1) output
      else pure output

/-- `parse_string`: the text in front of the terminator of `valuestring`. -/
def parseString (buffer : ParseBuffer) : Except Stop (List UInt8 × ParseBuffer) := do
  let quote ← read buffer.content buffer.offset
  refuseIf (quote ≠ 34)
  let found ← findStringEnd buffer.content (buffer.content.length + 1) (buffer.offset + 1) 0
  let size := found.1 - buffer.offset - found.2 + 1
  let output ← unescapeString buffer.content found.1 size (buffer.content.length + 1) (buffer.offset + 1) []
  let _terminated ← emit size output [0]
  pure (output, { buffer with offset := found.1 + 1 })

/-! ## Values -/

/-- A character that `parse_number` copies. -/
def isNumberChar (byte : UInt8) : Bool :=
  isDigit byte || byte == 43 || byte == 45 || byte == 101 || byte == 69 || byte == 46

def parseNumber (doubles : Doubles Double) (buffer : ParseBuffer) :
    Except Stop (Item Double × ParseBuffer) :=
  let number := doubles.strtod ((buffer.content.drop buffer.offset).takeWhile isNumberChar)
  if number.2 = 0 then .error .refused
  else pure (.number number.1 (doubles.valueint number.1), buffer.advance number.2)

mutual

def parseValue (doubles : Doubles Double) : Nat -> ParseBuffer -> Except Stop (Item Double × ParseBuffer)
  | 0, _ => .error .unfinished
  | fuel + 1, buffer =>
      if buffer.seesText (ascii "null") then pure (.null, buffer.advance 4)
      else if buffer.seesText (ascii "false") then pure (.false, buffer.advance 5)
      else if buffer.seesText (ascii "true") then pure (.true, buffer.advance 4)
      else if buffer.sees 34 then do
        let string ← parseString buffer
        pure (.string string.1, string.2)
      else if buffer.sees 45 || (buffer.content[buffer.offset]?).any isDigit then parseNumber doubles buffer
      else if buffer.sees 91 then parseArray doubles fuel buffer
      else if buffer.sees 123 then parseObject doubles fuel buffer
      else .error .refused

def parseArray (doubles : Doubles Double) : Nat -> ParseBuffer -> Except Stop (Item Double × ParseBuffer)
  | 0, _ => .error .unfinished
  | fuel + 1, buffer => do
      refuseIf (nestingLimit ≤ buffer.depth)
      let bracket ← read buffer.content buffer.offset
      refuseIf (bracket ≠ 91)
      let inside := buffer.enter.skipWhitespace
      if inside.sees 93 then pure (.array [], inside.leave)
      else
        refuseIf (inside.canAccess 0 = false)
        -- back to the character in front of the first element
        let elements ← parseElements doubles fuel inside.stepBack
        refuseIf (elements.2.sees 93 = false)
        pure (.array elements.1, elements.2.leave)

/-- The loop over the elements of an array. -/
def parseElements (doubles : Doubles Double) :
    Nat -> ParseBuffer -> Except Stop (List (Item Double) × ParseBuffer)
  | 0, _ => .error .unfinished
  | fuel + 1, buffer => do
      let element ← parseValue doubles fuel (buffer.advance 1).skipWhitespace
      let next := element.2.skipWhitespace
      if next.sees 44 then
        let others ← parseElements doubles fuel next
        pure (element.1 :: others.1, others.2)
      else pure ([element.1], next)

def parseObject (doubles : Doubles Double) : Nat -> ParseBuffer -> Except Stop (Item Double × ParseBuffer)
  | 0, _ => .error .unfinished
  | fuel + 1, buffer => do
      refuseIf (nestingLimit ≤ buffer.depth)
      refuseIf (buffer.sees 123 = false)
      let inside := buffer.enter.skipWhitespace
      if inside.sees 125 then pure (.object [], inside.leave)
      else
        refuseIf (inside.canAccess 0 = false)
        -- back to the character in front of the first member
        let members ← parseMembers doubles fuel inside.stepBack
        refuseIf (members.2.sees 125 = false)
        pure (.object members.1, members.2.leave)

/-- The loop over the members of an object. -/
def parseMembers (doubles : Doubles Double) :
    Nat -> ParseBuffer -> Except Stop (List (List UInt8 × Item Double) × ParseBuffer)
  | 0, _ => .error .unfinished
  | fuel + 1, buffer => do
      refuseIf (buffer.canAccess 1 = false)
      let name ← parseString (buffer.advance 1).skipWhitespace
      let colon := name.2.skipWhitespace
      refuseIf (colon.sees 58 = false)
      let value ← parseValue doubles fuel (colon.advance 1).skipWhitespace
      let next := value.2.skipWhitespace
      if next.sees 44 then
        let others ← parseMembers doubles fuel next
        pure ((name.1, value.1) :: others.1, others.2)
      else pure ([(name.1, value.1)], next)

end

/-- `cJSON_ParseWithLengthOpts` without `require_null_terminated`. -/
def parseWithLengthOpts (doubles : Doubles Double) (content : List UInt8) : Except Stop (Item Double) := do
  refuseIf (content = [])
  let value ← parseValue doubles (3 * content.length + 1)
    (ParseBuffer.skipUtf8Bom ⟨content, 0, 0⟩).skipWhitespace
  pure value.1

/-- `cJSON_Parse` of the C string in a block of memory. -/
def parse (doubles : Doubles Double) (memory : List UInt8) : Except Stop (Item Double) :=
  parseWithLengthOpts doubles (cString memory ++ [0])

end Cjson
end AdbBridge
