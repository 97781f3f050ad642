import AdbBridge.Library.Numeral

namespace Library
namespace ChunkedCoding

open Numeral

/-!
# The chunked transfer coding of HTTP

Two presentations of the coding are kept apart.  A sender that writes plain
chunks (a hexadecimal size, no extension, no trailers) is described by
`encodeChunk`, and `decodeChunks` is the receiver that accepts exactly such
bodies: complete chunks, the zero chunk as the last one, nothing after it.
`Message` is the full syntax a sender may use, with size fields of any width,
extensions and trailers; it is the reference for incremental readers.
-/

/-- The line end of HTTP. -/
def crlf : List UInt8 := [13, 10]

/-- One chunk as a sender writes it: size line, payload, line end. -/
def encodeChunk (payload : List UInt8) : List UInt8 :=
  formatHex payload.length ++ crlf ++ (payload ++ crlf)

/-- The zero chunk that ends a body without trailers. -/
def lastChunk : List UInt8 := ascii "0\r\n\r\n"

theorem encodeChunk_nil : encodeChunk [] = lastChunk := by decide

theorem length_encodeChunk (payload : List UInt8) :
    (encodeChunk payload).length = (formatHex payload.length).length + payload.length + 4 := by
  simp only [encodeChunk, crlf, List.length_append, List.length_cons, List.length_nil]
  omega

/-- Cut a given number of bytes followed by a line end off the input. -/
def readPayload (size : Nat) (input : List UInt8) : Option (List UInt8 × List UInt8) :=
  if size ≤ input.length then
    match input.drop size with
    | 13 :: 10 :: rest => some (input.take size, rest)
    | _ => none
  else none

/-- Read one chunk: its payload and the input after it. -/
def readChunk (input : List UInt8) : Option (List UInt8 × List UInt8) :=
  if input.takeWhile isHexDigit = [] then none
  else
    match input.dropWhile isHexDigit with
    | 13 :: 10 :: rest => readPayload (digitsValue 16 (input.takeWhile isHexDigit)) rest
    | _ => none

/-- The payloads of a complete body, read with the given amount of fuel.  The
body must end with its zero chunk. -/
def decodeWith : Nat -> List UInt8 -> Option (List (List UInt8))
  | 0, _ => none
  | fuel + 1, input =>
      match readChunk input with
      | some ([], []) => some []
      | some (first :: payload, rest) =>
          (decodeWith fuel rest).map (fun later => (first :: payload) :: later)
      | _ => none

/-- The payloads of a complete body. -/
def decodeChunks (body : List UInt8) : Option (List (List UInt8)) :=
  decodeWith (body.length + 1) body

/-- The content of a complete body: its payloads in order. -/
def decodeBody (body : List UInt8) : Option (List UInt8) :=
  (decodeChunks body).map List.flatten

/-! ## Decoding inverts encoding -/

theorem readPayload_append (payload rest : List UInt8) :
    readPayload payload.length (payload ++ crlf ++ rest) = some (payload, rest) := by
  have fits : payload.length ≤ (payload ++ crlf ++ rest).length := by
    rw [List.append_assoc, List.length_append]
    exact Nat.le_add_right _ _
  rw [readPayload, if_pos fits, List.append_assoc, List.drop_left, List.take_left]
  rfl

/-- Behind a size line the payload is read. -/
theorem readChunk_sizeLine (size : Nat) (rest : List UInt8) :
    readChunk (formatHex size ++ crlf ++ rest) = readPayload size rest := by
  have shape : formatHex size ++ crlf ++ rest = formatHex size ++ (13 :: 10 :: rest) := by
    simp only [crlf, List.append_assoc, List.cons_append, List.nil_append]
  have digits : forall byte, byte ∈ formatHex size -> isHexDigit byte = true :=
    fun _ member => isHexDigit_of_mem_formatHex member
  have number : (formatHex size ++ crlf ++ rest).takeWhile isHexDigit = formatHex size := by
    rw [shape, List.takeWhile_append_of_pos digits, List.takeWhile_cons_of_neg (by decide),
      List.append_nil]
  have tail : (formatHex size ++ crlf ++ rest).dropWhile isHexDigit = 13 :: 10 :: rest := by
    rw [shape, List.dropWhile_append_of_pos digits, List.dropWhile_cons_of_neg (by decide)]
  rw [readChunk, number, if_neg (formatHex_ne_nil _), tail]
  simp only [digitsValue_formatHex]

/-- A chunk is read back whole, whatever follows it. -/
theorem readChunk_encodeChunk (payload rest : List UInt8) :
    readChunk (encodeChunk payload ++ rest) = some (payload, rest) := by
  rw [encodeChunk, List.append_assoc, readChunk_sizeLine]
  exact readPayload_append payload rest

private theorem decodeWith_encode (chunks : List (List UInt8))
    (nonempty : forall chunk, chunk ∈ chunks -> chunk ≠ []) (fuel : Nat)
    (enough : chunks.length < fuel) :
    decodeWith fuel (chunks.flatMap encodeChunk ++ lastChunk) = some chunks := by
  induction chunks generalizing fuel with
  | nil =>
      cases fuel with
      | zero => exact absurd enough (Nat.not_lt_zero _)
      | succ fuel =>
          have read : readChunk lastChunk = some ([], []) := by
            have plain := readChunk_encodeChunk [] []
            rwa [encodeChunk_nil, List.append_nil] at plain
          rw [List.flatMap_nil, List.nil_append, decodeWith, read]
  | cons chunk later inductionHypothesis =>
      cases fuel with
      | zero => exact absurd enough (Nat.not_lt_zero _)
      | succ fuel =>
          have tail := inductionHypothesis
            (fun other member => nonempty other (List.mem_cons_of_mem chunk member)) fuel
            (Nat.lt_of_succ_lt_succ enough)
          cases chunk with
          | nil => exact absurd rfl (nonempty [] List.mem_cons_self)
          | cons first payload =>
              rw [List.flatMap_cons, List.append_assoc, decodeWith, readChunk_encodeChunk]
              simp only [tail, Option.map_some]

/-- The number of chunks is bounded by the length of their encoding. -/
theorem length_le_length_flatMap_encodeChunk (chunks : List (List UInt8)) :
    chunks.length ≤ (chunks.flatMap encodeChunk).length := by
  induction chunks with
  | nil => exact Nat.le_refl 0
  | cons chunk later inductionHypothesis =>
      rw [List.flatMap_cons, List.length_append, List.length_cons, length_encodeChunk]
      omega

/-- A body written as nonempty chunks and the zero chunk is read back as
exactly these chunks. -/
theorem decodeChunks_encode (chunks : List (List UInt8))
    (nonempty : forall chunk, chunk ∈ chunks -> chunk ≠ []) :
    decodeChunks (chunks.flatMap encodeChunk ++ lastChunk) = some chunks := by
  apply decodeWith_encode chunks nonempty
  have bound := length_le_length_flatMap_encodeChunk chunks
  rw [List.length_append]
  omega

theorem decodeBody_encode (chunks : List (List UInt8))
    (nonempty : forall chunk, chunk ∈ chunks -> chunk ≠ []) :
    decodeBody (chunks.flatMap encodeChunk ++ lastChunk) = some chunks.flatten := by
  rw [decodeBody, decodeChunks_encode chunks nonempty, Option.map_some]

/-! ## Bodies that are not complete -/

/-- A chunk that is not followed by a line end is not read. -/
theorem readChunk_unended {size : Nat} {front rest : List UInt8} {last : UInt8}
    (length : front.length = size + 1) (unended : last ≠ 10) :
    readChunk (formatHex size ++ crlf ++ (front ++ last :: rest)) = none := by
  have one : (front.drop size).length = 1 := by
    rw [List.length_drop]
    omega
  rcases List.length_eq_one_iff.mp one with ⟨byte, isByte⟩
  have behind : (front ++ last :: rest).drop size = byte :: last :: rest := by
    rw [List.drop_append_of_le_length (by omega), isByte, List.singleton_append]
  rw [readChunk_sizeLine, readPayload, behind]
  split
  · split
    next same => exact absurd (List.cons.inj (List.cons.inj same).2).1 unended
    · rfl
  · rfl

/-- A body in which nonempty chunks are followed by what is not a chunk is not complete. -/
theorem decodeChunks_of_unread {chunks : List (List UInt8)} {tail : List UInt8}
    (nonempty : forall chunk, chunk ∈ chunks -> chunk ≠ []) (unread : readChunk tail = none) :
    decodeChunks (chunks.flatMap encodeChunk ++ tail) = none := by
  have all : forall fuel, decodeWith fuel (chunks.flatMap encodeChunk ++ tail) = none := by
    intro fuel
    induction chunks generalizing fuel with
    | nil =>
        cases fuel with
        | zero => rfl
        | succ fuel => rw [List.flatMap_nil, List.nil_append, decodeWith, unread]
    | cons chunk later inductionHypothesis =>
        cases fuel with
        | zero => rfl
        | succ fuel =>
            have tail := inductionHypothesis
              (fun other member => nonempty other (List.mem_cons_of_mem chunk member)) fuel
            cases chunk with
            | nil => exact absurd rfl (nonempty [] List.mem_cons_self)
            | cons first payload =>
                rw [List.flatMap_cons, List.append_assoc, decodeWith, readChunk_encodeChunk]
                dsimp only
                rw [tail, Option.map_none]
  exact all _

example : decodeBody (ascii "3\r\nabc\r\n2\r\nde\r\n0\r\n\r\n") = some (ascii "abcde") := by decide

/-! ## The full syntax -/

/-- What may follow the digits of a size line up to its carriage return:
nothing, or blanks and extensions, none of which contains a newline. -/
structure Extension where
  text : List UInt8
  noNewline : 10 ∉ text
  starts : forall byte, text.head? = some byte -> byte = 59 ∨ byte = 32 ∨ byte = 9

/-- A size field: at least one hexadecimal digit, at most `width` of them. -/
structure SizeField (width : Nat) where
  digits : List UInt8
  nonempty : digits ≠ []
  narrow : digits.length ≤ width
  digit : forall byte, byte ∈ digits -> isHexDigit byte = true

/-- The size a field denotes. -/
def SizeField.size {width : Nat} (field : SizeField width) : Nat := digitsValue 16 field.digits

/-- A data chunk: its size line announces its payload, which is not empty and
whose length is representable in a `long`. -/
structure Chunk (width : Nat) where
  field : SizeField width
  extension : Extension
  payload : List UInt8
  announced : field.size = payload.length
  nonempty : payload ≠ []
  fits : (payload.length : Int) ≤ longMax

/-- A complete message in the chunked coding. -/
structure Message (width : Nat) where
  chunks : List (Chunk width)
  lastField : SizeField width
  lastZero : lastField.size = 0
  lastExtension : Extension
  trailers : List (List UInt8)

variable {width : Nat}

/-- A size line without its newline. -/
def sizeLine (field : SizeField width) (extension : Extension) : List UInt8 :=
  field.digits ++ (extension.text ++ [13])

namespace Message

/-- The content the message carries. -/
def content (message : Message width) : List UInt8 :=
  message.chunks.flatMap Chunk.payload

/-- The next size line when the given chunks are still to be sent, without its newline. -/
def lineFrom (message : Message width) : List (Chunk width) -> List UInt8
  | [] => sizeLine message.lastField message.lastExtension
  | chunk :: _ => sizeLine chunk.field chunk.extension

/-- What the sender writes for the given chunks and the end of the message. -/
def renderFrom (message : Message width) : List (Chunk width) -> List UInt8
  | [] => message.lineFrom [] ++ 10 :: (message.trailers.flatMap (fun line => line ++ crlf) ++ crlf)
  | chunk :: later =>
      message.lineFrom (chunk :: later) ++ 10 :: (chunk.payload ++ (crlf ++ renderFrom message later))

/-- What follows the newline of the next size line. -/
def afterLine (message : Message width) : List (Chunk width) -> List UInt8
  | [] => message.trailers.flatMap (fun line => line ++ crlf) ++ crlf
  | chunk :: later => chunk.payload ++ (crlf ++ message.renderFrom later)

/-- What the sender writes for the message. -/
def render (message : Message width) : List UInt8 := message.renderFrom message.chunks

theorem renderFrom_eq (message : Message width) (chunks : List (Chunk width)) :
    message.renderFrom chunks = message.lineFrom chunks ++ 10 :: message.afterLine chunks := by
  cases chunks <;> rfl

end Message

/-- A size line holds no newline, so an incremental reader finds its end. -/
theorem newline_not_mem_sizeLine (field : SizeField width) (extension : Extension) :
    10 ∉ sizeLine field extension := by
  intro member
  rcases List.mem_append.mp member with inDigits | later
  · exact absurd (field.digit 10 inDigits) (by decide)
  · rcases List.mem_append.mp later with inExtension | inEnd
    · exact extension.noNewline inExtension
    · exact absurd (List.mem_singleton.mp inEnd) (by decide)

theorem newline_not_mem_lineFrom (message : Message width) (chunks : List (Chunk width)) :
    10 ∉ message.lineFrom chunks := by
  cases chunks with
  | nil => exact newline_not_mem_sizeLine _ _
  | cons chunk later => exact newline_not_mem_sizeLine _ _

/-- `strtol` on a size line cut after the width of its field yields the size. -/
theorem strtol_take_sizeLine (field : SizeField width) (extension : Extension)
    (fits : (field.size : Int) ≤ longMax) :
    strtol 16 ((sizeLine field extension).take width) = field.size := by
  have cut : (sizeLine field extension).take width =
      field.digits ++ (extension.text ++ [13]).take (width - field.digits.length) := by
    rw [sizeLine, List.take_append, List.take_of_length_le field.narrow]
  rw [cut]
  apply strtol_hexDigits field.nonempty field.digit _ fits
  intro byte first
  have inLine : (extension.text ++ [13]).head? = some byte := by
    rw [List.head?_take] at first
    split at first
    · exact absurd first (by simp)
    · exact first
  cases shape : extension.text with
  | nil =>
      rw [shape] at inLine
      have same : 13 = byte := Option.some.inj inLine
      subst same
      decide
  | cons start rest =>
      rw [shape] at inLine
      have same : start = byte := Option.some.inj inLine
      rcases extension.starts byte (by rw [shape, ← same]; rfl) with mark | mark | mark <;>
        (subst mark; decide)

end ChunkedCoding
end Library
