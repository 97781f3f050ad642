import AdbBridge.Cjson.Bounds
import AdbBridge.Library.Blocks

namespace AdbBridge
namespace Cjson

open Library Library.Numeral Library.Blocks
open Library.Checked (Stop Meets read refuseIf bind_eq_ok_iff)

/-!
# The parser over pointers

The same functions as they allocate and link the `cJSON` structures, with `cJSON_Delete`, over
a memory in which each structure and each string is a block of its own, and an allocator that may refuse at any
call.  What `parse_string` and `parse_number` make of the text is taken from the parser over the
buffer; a result without a buffer is `false`.
-/

/-! ## Structures -/

/-- The field `type` without its flags. -/
inductive Kind where
  | invalid
  | false
  | true
  | null
  | number
  | string
  | array
  | object
deriving DecidableEq, Repr

/-- A `cJSON`, with the flags `cJSON_IsReference` and `cJSON_StringIsConst` of `type`.  A `valuedouble`
that was not set is zero. -/
structure Record (Double : Type) where
  next : Option Nat
  prev : Option Nat
  child : Option Nat
  kind : Kind
  isReference : Bool
  stringIsConst : Bool
  valuestring : Option Nat
  valueint : Int
  valuedouble : Option Double
  string : Option Nat

/-- A structure as `memset` leaves it. -/
def Record.zero {Double : Type} : Record Double :=
  ⟨none, none, none, .invalid, Bool.false, Bool.false, none, 0, none, none⟩

/-- A block of memory. -/
inductive Cell (Double : Type) where
  | item (record : Record Double)
  | text (bytes : List UInt8)

variable {Double : Type}

/-- A structure is read through a pointer. -/
def loadItem (item : Nat) : Program (Cell Double) (Record Double) := do
  let cell ← load item
  match cell with
  | .item record => pure record
  | .text _ => Blocks.stop .outside

/-- Fields of a structure are written. -/
def modifyItem (item : Nat) (change : Record Double -> Record Double) : Program (Cell Double) Unit := do
  let record ← loadItem item
  store item (.item (change record))

/-- `cJSON_New_Item` -/
def newItem : Program (Cell Double) (Option Nat) := malloc (.item Record.zero)

/-- `cJSON_Delete`: the item and those behind it, each with its children. -/
def deleteItems : Nat -> Option Nat -> Program (Cell Double) Unit
  | _, none => pure ()
  | 0, some _ => Blocks.stop .unfinished
  | fuel + 1, some item => do
      let record ← loadItem item
      deleteItems fuel (if record.isReference then none else record.child)
      freeIfAny (if record.isReference then none else record.valuestring)
      freeIfAny (if record.stringIsConst then none else record.string)
      free item
      deleteItems fuel record.next

/-- `cJSON_Delete`, which cannot visit more items than there are blocks. -/
def cJSONDelete (item : Option Nat) : Program (Cell Double) Unit := fun memory =>
  deleteItems (memory.blocks.length + 1) item memory

/-! ## Texts and numbers -/

/-- The first half of `parse_string`, in front of the allocation: where the literal ends, and how many
backslashes it has. -/
def stringExtent (buffer : ParseBuffer) : Except Stop (Nat × Nat) := do
  let quote ← read buffer.content buffer.offset
  refuseIf (quote ≠ 34)
  findStringEnd buffer.content (buffer.content.length + 1) (buffer.offset + 1) 0

/-- The second half, which fills the memory that was allocated. -/
def stringOutput (buffer : ParseBuffer) (found : Nat × Nat) : Except Stop (List UInt8) := do
  let size := found.1 - buffer.offset - found.2 + 1
  let output ← unescapeString buffer.content found.1 size (buffer.content.length + 1) (buffer.offset + 1) []
  let _terminated ← emit size output [0]
  pure output

/-- `parse_string` -/
def parseStringAt (item : Nat) (buffer : ParseBuffer) : Program (Cell Double) (Option ParseBuffer) := do
  let extent ← attempt (stringExtent buffer)
  match extent with
  | none => pure none
  | some found =>
      let block ← malloc (.text [])
      match block with
      | none => pure none
      | some block =>
          let output ← attempt (stringOutput buffer found)
          match output with
          | none =>
              free block
              pure none
          | some output =>
              store block (.text output)
              modifyItem item (fun record => { record with kind := .string, valuestring := some block })
              pure (some { buffer with offset := found.1 + 1 })

/-- The fields that `parse_number` sets. -/
def Record.setNumber (parsed : Item Double) (record : Record Double) : Record Double :=
  match parsed with
  | .number valuedouble valueint =>
      { record with kind := .number, valuedouble := some valuedouble, valueint := valueint }
  | _ => record

/-- `parse_number`, with the copy of the text that it allocates for `strtod`. -/
def parseNumberAt (doubles : Doubles Double) (item : Nat) (buffer : ParseBuffer) :
    Program (Cell Double) (Option ParseBuffer) := do
  let numberCString ← malloc (.text ((buffer.content.drop buffer.offset).takeWhile isNumberChar))
  match numberCString with
  | none => pure none
  | some numberCString =>
      let number ← attempt (parseNumber doubles buffer)
      match number with
      | none =>
          free numberCString
          pure none
      | some number =>
          modifyItem item (Record.setNumber number.1)
          free numberCString
          pure (some number.2)

/-! ## Values -/

/-- `suffix_object` -/
def suffixObject (prev item : Nat) : Program (Cell Double) Unit := do
  modifyItem prev (fun record => { record with next := some item })
  modifyItem item (fun record => { record with prev := some prev })

/-- A new item is attached behind the current one, if there is one. -/
def attach (current : Option Nat) (item : Nat) : Program (Cell Double) Unit :=
  match current with
  | none => pure ()
  | some current => suffixObject current item

/-- `head->prev = current_item` -/
def closeRing (head current : Option Nat) : Program (Cell Double) Unit :=
  match head with
  | none => pure ()
  | some head => modifyItem head (fun record => { record with prev := current })

/-- The labels `success` and `fail` of `parse_array` and `parse_object`, behind the loop with what it
parsed, the head of the list and the last item. -/
def finishContainer (item : Nat) (kind : Kind) (close : UInt8)
    (parsed : Option ParseBuffer × Option Nat × Option Nat) : Program (Cell Double) (Option ParseBuffer) :=
  match parsed.1.filter (fun next => next.sees close) with
  | some next => do
      closeRing parsed.2.1 parsed.2.2
      modifyItem item (fun record => { record with kind := kind, child := parsed.2.1 })
      pure (some next.leave)
  | none => do
      cJSONDelete parsed.2.1
      pure none

/-- A simple value. -/
def setItem (item : Nat) (change : Record Double -> Record Double) (next : ParseBuffer) :
    Program (Cell Double) (Option ParseBuffer) := do
  modifyItem item change
  pure (some next)

/-- `current_item->string = current_item->valuestring`, and no `valuestring`. -/
def Record.takeName (record : Record Double) : Record Double :=
  { record with string := record.valuestring, valuestring := none }

mutual

/-- `parse_value` -/
def parseValueAt (doubles : Doubles Double) :
    Nat -> Nat -> ParseBuffer -> Program (Cell Double) (Option ParseBuffer)
  | 0, _, _ => Blocks.stop .unfinished
  | fuel + 1, item, buffer =>
      if buffer.seesText (ascii "null") then
        setItem item (fun record => { record with kind := .null }) (buffer.advance 4)
      else if buffer.seesText (ascii "false") then
        setItem item (fun record => { record with kind := .false }) (buffer.advance 5)
      else if buffer.seesText (ascii "true") then
        setItem item (fun record => { record with kind := .true, valueint := 1 }) (buffer.advance 4)
      else if buffer.sees 34 then parseStringAt item buffer
      else if buffer.sees 45 ||
        (buffer.content[buffer.offset]?).any isDigit then parseNumberAt doubles item buffer
      else if buffer.sees 91 then parseArrayAt doubles fuel item buffer
      else if buffer.sees 123 then parseObjectAt doubles fuel item buffer
      else pure none

/-- `parse_array` -/
def parseArrayAt (doubles : Doubles Double) :
    Nat -> Nat -> ParseBuffer -> Program (Cell Double) (Option ParseBuffer)
  | 0, _, _ => Blocks.stop .unfinished
  | fuel + 1, item, buffer =>
      if nestingLimit ≤ buffer.depth then pure none
      else do
        let bracket ← Blocks.lift (read buffer.content buffer.offset)
        if bracket ≠ 91 then pure none
        else
          let inside := buffer.enter.skipWhitespace
          if inside.sees 93 then finishContainer item .array 93 (some inside, none, none)
          else if inside.canAccess 0 = Bool.false then pure none
          else do
            let parsed ← parseElementsAt doubles fuel none none inside.stepBack
            finishContainer item .array 93 parsed

/-- The loop over the elements, with the head of the list and the current item. -/
def parseElementsAt (doubles : Doubles Double) : Nat -> Option Nat -> Option Nat -> ParseBuffer ->
    Program (Cell Double) (Option ParseBuffer × Option Nat × Option Nat)
  | 0, _, _, _ => Blocks.stop .unfinished
  | fuel + 1, head, current, buffer => do
      let allocated ← newItem
      match allocated with
      | none => pure (none, head, current)
      | some item => do
          attach current item
          let parsed ← parseValueAt doubles fuel item (buffer.advance 1).skipWhitespace
          match parsed with
          | none => pure (none, head.or (some item), some item)
          | some behind =>
              let next := behind.skipWhitespace
              if next.sees 44 then parseElementsAt doubles fuel (head.or (some item)) (some item) next
              else pure (some next, head.or (some item), some item)

/-- `parse_object` -/
def parseObjectAt (doubles : Doubles Double) :
    Nat -> Nat -> ParseBuffer -> Program (Cell Double) (Option ParseBuffer)
  | 0, _, _ => Blocks.stop .unfinished
  | fuel + 1, item, buffer =>
      if nestingLimit ≤ buffer.depth then pure none
      else if buffer.sees 123 = Bool.false then pure none
      else
        let inside := buffer.enter.skipWhitespace
        if inside.sees 125 then finishContainer item .object 125 (some inside, none, none)
        else if inside.canAccess 0 = Bool.false then pure none
        else do
          let parsed ← parseMembersAt doubles fuel none none inside.stepBack
          finishContainer item .object 125 parsed

/-- The loop over the members. -/
def parseMembersAt (doubles : Doubles Double) : Nat -> Option Nat -> Option Nat -> ParseBuffer ->
    Program (Cell Double) (Option ParseBuffer × Option Nat × Option Nat)
  | 0, _, _, _ => Blocks.stop .unfinished
  | fuel + 1, head, current, buffer => do
      let allocated ← newItem
      match allocated with
      | none => pure (none, head, current)
      | some item => do
          attach current item
          let failed := (none, head.or (some item), some item)
          if buffer.canAccess 1 = Bool.false then pure failed
          else
            let name ← parseStringAt item (buffer.advance 1).skipWhitespace
            match name with
            | none => pure failed
            | some behindName =>
                let colon := behindName.skipWhitespace
                modifyItem item Record.takeName
                if colon.sees 58 = Bool.false then pure failed
                else
                  let parsed ← parseValueAt doubles fuel item (colon.advance 1).skipWhitespace
                  match parsed with
                  | none => pure failed
                  | some behind =>
                      let next := behind.skipWhitespace
                      if next.sees 44 then parseMembersAt doubles fuel (head.or (some item)) (some item) next
                      else pure (some next, head.or (some item), some item)

end

/-- `cJSON_ParseWithLengthOpts` without `require_null_terminated`. -/
def parseWithLengthOptsAt (doubles : Doubles Double) (content : List UInt8) :
    Program (Cell Double) (Option Nat) :=
  if content = [] then pure none
  else do
    let allocated ← newItem
    match allocated with
    | none => pure none
    | some item =>
        let parsed ← parseValueAt doubles (3 * content.length + 1) item
          (ParseBuffer.skipUtf8Bom ⟨content, 0, 0⟩).skipWhitespace
        match parsed with
        | none =>
            cJSONDelete (some item)
            pure none
        | some _ => pure (some item)

end Cjson
end AdbBridge
