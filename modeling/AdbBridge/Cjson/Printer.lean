import AdbBridge.Cjson.Bounds
import AdbBridge.Handler.ExecReply

namespace AdbBridge
namespace Cjson

open Library Library.Numeral Library.Checked

/-!
# The printer of cJSON

`cJSON_Print` and `cJSON_PrintUnformatted` write an item into a buffer that grows.
Every part asks `ensure` for the room it is going to use, stores without further checks,
and most leave it to `strlen` to find out how much was written.  The buffer is
memory with checked accesses here; `itemText` is the text that it comes to.
-/

variable {Double : Type}

def intMax : Nat := 2147483647

/-- What `print_number` asks of a number and gets from `sprintf`: `general` is the text
with 15 significant digits, or with 17 where these do not give the number back. -/
structure NumberFormat (Double : Type) where
  isNanOrInf : Double -> Bool
  equalsInt : Double -> Int -> Bool
  general : Double -> List UInt8
  general_noZero : forall number, (0 : UInt8) ∉ general number

/-! ## The text of an item -/

/-- The text of `print_number`. -/
def numberText (numbers : NumberFormat Double) (valuedouble : Double) (valueint : Int) : List UInt8 :=
  if numbers.isNanOrInf valuedouble then ascii "null"
  else if numbers.equalsInt valuedouble valueint then formatDec valueint
  else numbers.general valuedouble

/-- The tabulators in front of a member, or of a closing brace. -/
def indent (format : Bool) (depth : Nat) : List UInt8 := if format then List.replicate depth 9 else []

/-- What is printed behind an element that is not the last one. -/
def arrayComma (format : Bool) : List UInt8 := if format then [44, 32] else [44]

/-- What is printed behind the name of a member. -/
def nameColon (format : Bool) : List UInt8 := if format then [58, 9] else [58]

/-- What is printed behind an opening brace, and behind a member. -/
def lineEnd (format : Bool) : List UInt8 := if format then [10] else []

mutual

/-- The text of an item inside of `depth` arrays and objects. -/
def itemText (numbers : NumberFormat Double) (format : Bool) (depth : Nat) : Item Double -> List UInt8
  | .null => ascii "null"
  | .false => ascii "false"
  | .true => ascii "true"
  | .number valuedouble valueint => numberText numbers valuedouble valueint
  | .string valuestring => Handler.printStringPtr (cString valuestring)
  | .array child => 91 :: (elementsText numbers format (depth + 1) child ++ [93])
  | .object child =>
      123 :: (lineEnd format ++ (membersText numbers format (depth + 1) child ++
        (indent format depth ++ [125])))

def elementsText (numbers : NumberFormat Double) (format : Bool) (depth : Nat) :
    List (Item Double) -> List UInt8
  | [] => []
  | item :: next =>
      itemText numbers format depth item ++
        ((if next.isEmpty then [] else arrayComma format) ++ elementsText numbers format depth next)

def membersText (numbers : NumberFormat Double) (format : Bool) (depth : Nat) :
    List (List UInt8 × Item Double) -> List UInt8
  | [] => []
  | (name, item) :: next =>
      indent format depth ++ (Handler.printStringPtr (cString name) ++ (nameColon format ++
        (itemText numbers format depth item ++ ((if next.isEmpty then [] else [44]) ++ (lineEnd format ++
          membersText numbers format depth next)))))

end

/-! ## The buffer -/

/-- `printbuffer`; its length is that of the memory. -/
structure PrintBuffer where
  buffer : List UInt8
  offset : Nat
  depth : Nat
  format : Bool

/-- The allocator: which sizes it provides, and what fresh memory holds. -/
structure Memory where
  available : Nat -> Bool
  fresh : Nat -> UInt8

def Memory.grow (memory : Memory) (block : List UInt8) (size : Nat) : List UInt8 :=
  block ++ (List.range (size - block.length)).map memory.fresh

def ensure (memory : Memory) (needed : Nat) (p : PrintBuffer) : Except Stop PrintBuffer := do
  refuseIf (0 < p.buffer.length ∧ p.buffer.length ≤ p.offset)
  refuseIf (intMax < needed)
  let total := needed + (p.offset + 1)
  if total ≤ p.buffer.length then pure p
  else
    refuseIf (intMax < total)
    let newsize := if intMax / 2 < total then intMax else total * 2
    refuseIf (memory.available newsize = false)
    pure { p with buffer := memory.grow p.buffer newsize }

/-- Stores through `output_pointer`, which stands `index` bytes behind the offset. -/
def put (index : Nat) (bytes : List UInt8) (p : PrintBuffer) : Except Stop PrintBuffer := do
  let buffer ← store p.buffer (p.offset + index) bytes
  pure { p with buffer := buffer }

/-- The offset is moved on. -/
def PrintBuffer.advance (p : PrintBuffer) (count : Nat) : PrintBuffer := { p with offset := p.offset + count }

/-- `strlen` of what stands in a block from an index on. -/
def strlen (block : List UInt8) (index : Nat) : Except Stop Nat :=
  if 0 ∈ block.drop index then pure (cString (block.drop index)).length else .error .outside

def updateOffset (p : PrintBuffer) : Except Stop PrintBuffer := do
  let length ← strlen p.buffer p.offset
  pure (p.advance length)

/-! ## Numbers and strings -/

def printNumber (memory : Memory) (numbers : NumberFormat Double) (valuedouble : Double) (valueint : Int)
    (p : PrintBuffer) : Except Stop PrintBuffer := do
  let numberBuffer := numberText numbers valuedouble valueint
  refuseIf (25 < numberBuffer.length)
  let p ← ensure memory (numberBuffer.length + 1) p
  let p ← put 0 numberBuffer p
  let p ← put numberBuffer.length [0] p
  pure (p.advance numberBuffer.length)

/-- The switch over a character that needs to be escaped; without a letter of its own it
is printed as a code point. -/
def escapeLetter (byte : UInt8) : Option UInt8 :=
  if byte = 92 then some 92
  else if byte = 34 then some 34
  else if byte = 8 then some 98
  else if byte = 12 then some 102
  else if byte = 10 then some 110
  else if byte = 13 then some 114
  else if byte = 9 then some 116
  else none

/-- The loop that copies a string, at `output_pointer`. -/
def copyEscaped : List UInt8 -> List UInt8 -> Nat -> Except Stop (List UInt8)
  | [], buffer, _ => pure buffer
  | byte :: rest, buffer, outputPointer =>
      if 31 < byte ∧ byte ≠ 34 ∧ byte ≠ 92 then do
        let buffer ← store buffer outputPointer [byte]
        copyEscaped rest buffer (outputPointer + 1)
      else do
        let buffer ← store buffer outputPointer [92]
        match escapeLetter byte with
        | some letter =>
            let buffer ← store buffer (outputPointer + 1) [letter]
            copyEscaped rest buffer (outputPointer + 2)
        | none =>
            -- `sprintf` puts a NUL behind the digits
            let buffer ← store buffer (outputPointer + 1) (117 :: (formatHex04 byte.toNat ++ [0]))
            copyEscaped rest buffer (outputPointer + 6)

/-- `print_string_ptr` of a C string. -/
def printStringPtr (memory : Memory) (input : List UInt8) (p : PrintBuffer) : Except Stop PrintBuffer := do
  let escapeCharacters := Handler.escapeCharacters input
  let outputLength := input.length + escapeCharacters
  let p ← ensure memory (outputLength + 3) p
  if escapeCharacters = 0 then
    let p ← put 0 [34] p
    let p ← put 1 input p
    let p ← put (outputLength + 1) [34] p
    put (outputLength + 2) [0] p
  else
    let p ← put 0 [34] p
    let buffer ← copyEscaped input p.buffer (p.offset + 1)
    let p ← put (outputLength + 1) [34] { p with buffer := buffer }
    put (outputLength + 2) [0] p

/-! ## Values -/

/-- `strcpy` of a literal name. -/
def printLiteral (memory : Memory) (text : List UInt8) (p : PrintBuffer) : Except Stop PrintBuffer := do
  let p ← ensure memory (text.length + 1) p
  put 0 (text ++ [0]) p

/-- The comma behind an element, if there is a next one. -/
def printArrayComma (memory : Memory) (isLast : Bool) (p : PrintBuffer) : Except Stop PrintBuffer :=
  if isLast then pure p
  else do
    let length := if p.format then 2 else 1
    let p ← ensure memory (length + 1) p
    let p ← put 0 (arrayComma p.format ++ [0]) p
    pure (p.advance length)

/-- The tabulators in front of a member. -/
def printIndent (memory : Memory) (p : PrintBuffer) : Except Stop PrintBuffer :=
  if p.format then do
    let p ← ensure memory p.depth p
    let p ← put 0 (List.replicate p.depth 9) p
    pure (p.advance p.depth)
  else pure p

/-- The colon behind a name. -/
def printColon (memory : Memory) (p : PrintBuffer) : Except Stop PrintBuffer := do
  let length := if p.format then 2 else 1
  let p ← ensure memory length p
  let p ← put 0 (nameColon p.format) p
  pure (p.advance length)

/-- The comma behind a member, if there is a next one, and the end of the line. -/
def printMemberEnd (memory : Memory) (isLast : Bool) (p : PrintBuffer) : Except Stop PrintBuffer := do
  let length := (if p.format then 1 else 0) + (if isLast then 0 else 1)
  let p ← ensure memory (length + 1) p
  let p ← put 0 ((if isLast then [] else [44]) ++ (lineEnd p.format ++ [0])) p
  pure (p.advance length)

mutual

def printValue (memory : Memory) (numbers : NumberFormat Double) :
    Item Double -> PrintBuffer -> Except Stop PrintBuffer
  | .null, p => printLiteral memory (ascii "null") p
  | .false, p => printLiteral memory (ascii "false") p
  | .true, p => printLiteral memory (ascii "true") p
  | .number valuedouble valueint, p => printNumber memory numbers valuedouble valueint p
  | .string valuestring, p => printStringPtr memory (cString valuestring) p
  -- `print_array`
  | .array child, p => do
      refuseIf (nestingLimit ≤ p.depth)
      let p ← ensure memory 1 p
      let p ← put 0 [91] p
      let p ← printElements memory numbers child { p.advance 1 with depth := p.depth + 1 }
      let p ← ensure memory 2 p
      let p ← put 0 [93, 0] p
      pure { p with depth := p.depth - 1 }
  -- `print_object`
  | .object child, p => do
      refuseIf (nestingLimit ≤ p.depth)
      let length := if p.format then 2 else 1
      let p ← ensure memory (length + 1) p
      let p ← put 0 (123 :: lineEnd p.format) p
      let p ← printMembers memory numbers child { p.advance length with depth := p.depth + 1 }
      let p ← ensure memory (if p.format then p.depth + 1 else 2) p
      let p ← put 0 (indent p.format (p.depth - 1) ++ [125, 0]) p
      pure { p with depth := p.depth - 1 }

/-- The loop over the elements of an array. -/
def printElements (memory : Memory) (numbers : NumberFormat Double) :
    List (Item Double) -> PrintBuffer -> Except Stop PrintBuffer
  | [], p => pure p
  | item :: next, p => do
      let p ← printValue memory numbers item p
      let p ← updateOffset p
      let p ← printArrayComma memory next.isEmpty p
      printElements memory numbers next p

/-- The loop over the members of an object. -/
def printMembers (memory : Memory) (numbers : NumberFormat Double) :
    List (List UInt8 × Item Double) -> PrintBuffer -> Except Stop PrintBuffer
  | [], p => pure p
  | (name, item) :: next, p => do
      let p ← printIndent memory p
      let p ← printStringPtr memory (cString name) p
      let p ← updateOffset p
      let p ← printColon memory p
      let p ← printValue memory numbers item p
      let p ← updateOffset p
      let p ← printMemberEnd memory next.isEmpty p
      printMembers memory numbers next p

end

/-- `print`: the block that is returned. -/
def print (memory : Memory) (numbers : NumberFormat Double) (format : Bool) (item : Item Double) :
    Except Stop (List UInt8) := do
  refuseIf (memory.available 256 = false)
  let p ← printValue memory numbers item ⟨memory.grow [] 256, 0, 0, format⟩
  let p ← updateOffset p
  refuseIf (memory.available (p.offset + 1) = false)
  pure (p.buffer.take (p.offset + 1))

end Cjson
end AdbBridge
