import AdbBridge.Library.Incremental
import AdbBridge.Library.Numeral
import Mathlib.Data.List.Nodup

namespace AdbBridge
namespace Client

open Library Library.Numeral Library.Incremental

/-!
# The frames of `CDPSocket`

`_onData` cuts the stream behind a forward into WebSocket frames, whatever pieces it arrives in,
and `_sendFrame` writes them.  A request waits in `callbacks` until a text frame with its number
comes.
-/

namespace CdpSocket

/-! ## `_onData` -/

/-- `readUInt16BE` and `readBigUInt64BE`. -/
def readUIntBE (bytes : List UInt8) : Nat := bytes.foldl (fun value byte => value * 256 + byte.toNat) 0

structure Frame where
  opcode : UInt8
  payload : List UInt8
deriving DecidableEq, Repr

/-- The loop that takes the mask off a payload. -/
def unmask (mask payload : List UInt8) : List UInt8 :=
  payload.mapIdx (fun i byte => byte ^^^ mask.getD (i % 4) 0)

/-- The variable `offset` behind the length, for the seven bits of the second byte. -/
def lengthEnd (short : UInt8) : Nat := if short = 126 then 4 else if short = 127 then 10 else 2

/-- `Buffer.slice`, with the length. -/
def slice (buffer : List UInt8) (start length : Nat) : List UInt8 := (buffer.drop start).take length

/-- The variable `payloadLen`. -/
def payloadLength (short : UInt8) (buffer : List UInt8) : Nat :=
  if short = 126 then readUIntBE (slice buffer 2 2)
  else if short = 127 then readUIntBE (slice buffer 2 8)
  else short.toNat

/-- The variable `maskLen`. -/
def maskLength (second : UInt8) : Nat := if second &&& 0x80 ≠ 0 then 4 else 0

/-- The first frame of a buffer that begins with these bytes, and what is left of the buffer. -/
def frameOf (first second : UInt8) (buffer : List UInt8) : Option (Frame × List UInt8) :=
  let short := second &&& 0x7f
  let payloadLen := payloadLength short buffer
  let offset := lengthEnd short + maskLength second
  if buffer.length < lengthEnd short then none
  else if buffer.length < offset + payloadLen then none
  else
    let mask := slice buffer (lengthEnd short) (maskLength second)
    let payload := slice buffer offset payloadLen
    some (⟨first &&& 0x0f, if second &&& 0x80 ≠ 0 then unmask mask payload else payload⟩,
      buffer.drop (offset + payloadLen))

/-- The first frame of the buffer. -/
def nextFrame (buffer : List UInt8) : Option (Frame × List UInt8) :=
  match buffer with
  | first :: second :: _ => frameOf first second buffer
  | _ => none

theorem two_le_lengthEnd (short : UInt8) : 2 ≤ lengthEnd short := by
  rw [lengthEnd]
  split_ifs <;> decide

theorem slice_append {buffer : List UInt8} {start length : Nat} (inside : start + length ≤ buffer.length)
    (more : List UInt8) : slice (buffer ++ more) start length = slice buffer start length := by
  rw [slice, List.drop_append_of_le_length (by omega), List.take_append_of_le_length (by
    rw [List.length_drop]
    omega)]
  rfl

theorem payloadLength_append {short : UInt8} {buffer : List UInt8} (enough : lengthEnd short ≤ buffer.length)
    (more : List UInt8) : payloadLength short (buffer ++ more) = payloadLength short buffer := by
  rw [lengthEnd] at enough
  rw [payloadLength, payloadLength]
  split_ifs at enough ⊢
  · rw [slice_append enough]
  · rw [slice_append enough]
  · rfl

/-- What there is of a frame is enough to tell it, however the buffer goes on. -/
theorem frameOf_some {first second : UInt8} {buffer rest : List UInt8} {frame : Frame}
    (found : frameOf first second buffer = some (frame, rest)) :
    lengthEnd (second &&& 0x7f) ≤ buffer.length ∧
      lengthEnd (second &&& 0x7f) + maskLength second + payloadLength (second &&& 0x7f) buffer ≤ buffer.length ∧
      rest = buffer.drop (lengthEnd (second &&& 0x7f) + maskLength second +
        payloadLength (second &&& 0x7f) buffer) := by
  by_cases short : buffer.length < lengthEnd (second &&& 0x7f)
  · rw [frameOf, if_pos short] at found
    cases found
  · by_cases long : buffer.length <
        lengthEnd (second &&& 0x7f) + maskLength second + payloadLength (second &&& 0x7f) buffer
    · rw [frameOf, if_neg short, if_pos long] at found
      cases found
    · rw [frameOf, if_neg short, if_neg long] at found
      exact ⟨Nat.not_lt.mp short, Nat.not_lt.mp long, (Prod.mk.inj (Option.some.inj found)).2.symm⟩

theorem frameOf_append {first second : UInt8} {buffer rest : List UInt8} {frame : Frame}
    (found : frameOf first second buffer = some (frame, rest)) (more : List UInt8) :
    frameOf first second (buffer ++ more) = some (frame, rest ++ more) := by
  rcases frameOf_some found with ⟨lengthInside, whole, _⟩
  rw [frameOf, if_neg (Nat.not_lt.mpr lengthInside), if_neg (Nat.not_lt.mpr whole)] at found
  have parts := Prod.mk.inj (Option.some.inj found)
  have same := payloadLength_append lengthInside more
  have mask := @slice_append buffer (lengthEnd (second &&& 0x7f)) (maskLength second) (by omega) more
  have payload := slice_append whole more
  rw [frameOf]
  dsimp only
  rw [same, if_neg (by rw [List.length_append]; omega), if_neg (by rw [List.length_append]; omega), mask,
    payload,
    List.drop_append_of_le_length whole, ← parts.1, ← parts.2]

/-- The format that `_onData` reads. -/
def frames : Format UInt8 Frame where
  next := nextFrame
  shorter := by
    intro buffer frame rest found
    rcases buffer with _ | ⟨first, _ | ⟨second, others⟩⟩
    · cases found
    · cases found
    · have shape := frameOf_some found
      have two := two_le_lengthEnd (second &&& 0x7f)
      rw [shape.2.2, List.length_drop]
      omega
  extends_ := by
    intro buffer frame rest found more
    rcases buffer with _ | ⟨first, _ | ⟨second, others⟩⟩
    · cases found
    · cases found
    · exact frameOf_append found more

/-! ## Frames on the wire -/

/-- `writeUInt16BE` and `writeBigUInt64BE`: the last bytes of a number, the first of them in front. -/
def writeUIntBE : Nat -> Nat -> List UInt8
  | 0, _ => []
  | count + 1, value => writeUIntBE count (value / 256) ++ [UInt8.ofNat (value % 256)]

theorem length_writeUIntBE (count value : Nat) : (writeUIntBE count value).length = count := by
  induction count generalizing value with
  | zero => rfl
  | succ count inductionHypothesis =>
      rw [writeUIntBE, List.length_append, inductionHypothesis, List.length_singleton]

theorem readUIntBE_writeUIntBE {count value : Nat} (small : value < 256 ^ count) :
    readUIntBE (writeUIntBE count value) = value := by
  induction count generalizing value with
  | zero =>
      rw [Nat.pow_zero] at small
      rw [Nat.lt_one_iff.mp small]
      rfl
  | succ count inductionHypothesis =>
      have front : value / 256 < 256 ^ count := Nat.div_lt_of_lt_mul (by rwa [Nat.mul_comm, ← Nat.pow_succ])
      have isFront := inductionHypothesis front
      rw [readUIntBE] at isFront
      have last : (UInt8.ofNat (value % 256)).toNat = value % 256 :=
        UInt8.toNat_ofNat_of_lt' (Nat.mod_lt value (by decide))
      rw [writeUIntBE, readUIntBE, List.foldl_append, isFront, List.foldl_cons, List.foldl_nil, last]
      omega

/-- The three ways to write a length. -/
inductive LengthForm where
  | short
  | medium
  | long
deriving DecidableEq, Repr

/-- The lengths that can be written so; a longer one is not exact as a `Number`. -/
def LengthForm.limit : LengthForm -> Nat
  | .short => 126
  | .medium => 65536
  | .long => 9007199254740992

/-- The seven bits of the second byte. -/
def LengthForm.code (form : LengthForm) (length : Nat) : Nat :=
  match form with
  | .short => length
  | .medium => 126
  | .long => 127

/-- The bytes of the length behind the second byte. -/
def LengthForm.extension (form : LengthForm) (length : Nat) : List UInt8 :=
  match form with
  | .short => []
  | .medium => writeUIntBE 2 length
  | .long => writeUIntBE 8 length

/-- A frame as a peer may send it: any flags beside the opcode, any form of the length that is
wide enough, with or without a mask. -/
structure WireFrame where
  first : UInt8
  form : LengthForm
  mask : Option (List UInt8)
  payload : List UInt8
  fits : payload.length < form.limit
  maskFits : forall key, mask = some key -> key.length = 4

namespace WireFrame

variable (wire : WireFrame)

def second : UInt8 := UInt8.ofNat (wire.form.code wire.payload.length + if wire.mask.isSome then 128 else 0)

/-- The payload with the mask on it. -/
def body : List UInt8 := wire.mask.elim wire.payload (fun key => unmask key wire.payload)

def encode : List UInt8 :=
  [wire.first, wire.second] ++ (wire.form.extension wire.payload.length ++ (wire.mask.getD [] ++ wire.body))

/-- What is to be made of the frame. -/
def frame : Frame := ⟨wire.first &&& 0x0f, wire.payload⟩

end WireFrame

theorem length_unmask (mask payload : List UInt8) : (unmask mask payload).length = payload.length :=
  List.length_mapIdx

/-- A mask that is put on twice is off. -/
theorem unmask_unmask (mask payload : List UInt8) : unmask mask (unmask mask payload) = payload := by
  apply List.ext_getElem
  · rw [length_unmask, length_unmask]
  · intro i inside _
    simp only [unmask, List.getElem_mapIdx]
    rw [UInt8.xor_assoc, UInt8.xor_self, UInt8.xor_zero]

theorem LengthForm.code_lt {form : LengthForm} {length : Nat} (fits : length < form.limit) :
    form.code length < 128 := by
  cases form with
  | short => exact Nat.lt_trans fits (by decide)
  | medium => exact (by decide : 126 < 128)
  | long => exact (by decide : 127 < 128)

theorem second_bits : forall code, code < 128 ->
    UInt8.ofNat (code + 0) &&& 0x7f = UInt8.ofNat code ∧ UInt8.ofNat (code + 0) &&& 0x80 = 0 ∧
      UInt8.ofNat (code + 128) &&& 0x7f = UInt8.ofNat code ∧ UInt8.ofNat (code + 128) &&& 0x80 ≠ 0 := by
  decide

theorem short_ne : forall code, code < 126 ->
    UInt8.ofNat code ≠ 126 ∧ UInt8.ofNat code ≠ 127 ∧ (UInt8.ofNat code).toNat = code := by
  decide

theorem lengthEnd_code {form : LengthForm} {length : Nat} (fits : length < form.limit) :
    lengthEnd (UInt8.ofNat (form.code length)) = 2 + (form.extension length).length := by
  cases form with
  | short =>
      have differs := short_ne length fits
      rw [LengthForm.code, lengthEnd, if_neg differs.1, if_neg differs.2.1]
      rfl
  | medium => rw [LengthForm.extension, length_writeUIntBE]; rfl
  | long => rw [LengthForm.extension, length_writeUIntBE]; rfl

theorem slice_middle (front middle behind : List UInt8) {start length : Nat} (isStart : start = front.length)
    (isLength : length = middle.length) : slice (front ++ (middle ++ behind)) start length = middle := by
  rw [slice, isStart, isLength, List.drop_left, List.take_left]

theorem payloadLength_code {form : LengthForm} {length : Nat} (fits : length < form.limit)
    (first second : UInt8)
    (rest : List UInt8) :
    payloadLength (UInt8.ofNat (form.code length)) ([first, second] ++ (form.extension length ++ rest)) =
      length := by
  cases form with
  | short =>
      have differs := short_ne length fits
      rw [LengthForm.code, payloadLength, if_neg differs.1, if_neg differs.2.1]
      exact differs.2.2
  | medium =>
      rw [LengthForm.code, LengthForm.extension, payloadLength, if_pos (by decide),
        show slice ([first, second] ++ (writeUIntBE 2 length ++ rest)) 2 2 = writeUIntBE 2 length from
          slice_middle _ _ rest rfl (length_writeUIntBE 2 length).symm]
      exact readUIntBE_writeUIntBE (Nat.lt_of_lt_of_le fits (by decide))
  | long =>
      rw [LengthForm.code, LengthForm.extension, payloadLength, if_neg (by decide), if_pos (by decide),
        show slice ([first, second] ++ (writeUIntBE 8 length ++ rest)) 2 8 = writeUIntBE 8 length from
          slice_middle _ _ rest rfl (length_writeUIntBE 8 length).symm]
      exact readUIntBE_writeUIntBE (Nat.lt_of_lt_of_le fits (by decide))

/-- What the second byte says. -/
theorem WireFrame.second_says (wire : WireFrame) :
    wire.second &&& 0x7f = UInt8.ofNat (wire.form.code wire.payload.length) ∧
      maskLength wire.second = (wire.mask.getD []).length ∧
      (wire.second &&& 0x80 ≠ 0 ↔ wire.mask.isSome = true) := by
  have bits := second_bits _ (LengthForm.code_lt wire.fits)
  rw [WireFrame.second, maskLength]
  cases isMask : wire.mask with
  | none =>
      rw [Option.isSome_none, if_neg Bool.false_ne_true, bits.1, bits.2.1]
      exact ⟨rfl, rfl, fun differs => absurd rfl differs, fun impossible => by cases impossible⟩
  | some key =>
      rw [Option.isSome_some, if_pos rfl, if_pos bits.2.2.2, bits.2.2.1, Option.getD_some,
        wire.maskFits key isMask]
      exact ⟨rfl, rfl, fun _ => rfl, fun _ => bits.2.2.2⟩

theorem WireFrame.length_body (wire : WireFrame) : wire.body.length = wire.payload.length := by
  rw [WireFrame.body]
  cases wire.mask with
  | none => rfl
  | some key => exact length_unmask key wire.payload

/-- A frame is read back, whatever follows it. -/
theorem nextFrame_encode (wire : WireFrame) (rest : List UInt8) :
    nextFrame (wire.encode ++ rest) = some (wire.frame, rest) := by
  rcases wire.second_says with ⟨short, maskLen, masked⟩
  have isEnd := lengthEnd_code wire.fits
  have shape : wire.encode ++ rest = [wire.first, wire.second] ++ (wire.form.extension wire.payload.length ++
      (wire.mask.getD [] ++ (wire.body ++ rest))) := by
    rw [WireFrame.encode]
    simp only [List.append_assoc]
  have size := congrArg List.length shape
  simp only [List.length_append, List.length_cons, List.length_nil, wire.length_body] at size
  have isLength := payloadLength_code wire.fits wire.first wire.second
    (wire.mask.getD [] ++ (wire.body ++ rest))
  have mask : slice (wire.encode ++ rest) (2 + (wire.form.extension wire.payload.length).length)
      (wire.mask.getD []).length = wire.mask.getD [] := by
    rw [shape, ← List.append_assoc]
    exact slice_middle _ _ _ (by rw [List.length_append]; rfl) rfl
  have payload : slice (wire.encode ++ rest) (2 + (wire.form.extension wire.payload.length).length +
      (wire.mask.getD []).length) wire.payload.length = wire.body := by
    rw [shape, ← List.append_assoc, ← List.append_assoc]
    exact slice_middle _ _ _ (by rw [List.length_append, List.length_append]; rfl) wire.length_body.symm
  have behind : (wire.encode ++ rest).drop (2 + (wire.form.extension wire.payload.length).length +
      (wire.mask.getD []).length + wire.payload.length) = rest := by
    have whole : wire.encode.length = 2 + (wire.form.extension wire.payload.length).length +
        (wire.mask.getD []).length + wire.payload.length := by omega
    rw [← whole, List.drop_left]
  have unmasked : (if wire.second &&& 0x80 ≠ 0 then unmask (wire.mask.getD []) wire.body else wire.body) =
      wire.payload := by
    rw [WireFrame.body]
    cases isMask : wire.mask with
    | none =>
        rw [isMask, Option.isSome_none] at masked
        exact if_neg (fun differs => Bool.false_ne_true (masked.mp differs))
    | some key =>
        rw [isMask, Option.isSome_some] at masked
        rw [if_pos (masked.mpr rfl)]
        exact unmask_unmask key wire.payload
  have starts : nextFrame (wire.encode ++ rest) = frameOf wire.first wire.second (wire.encode ++ rest) := rfl
  rw [← shape] at isLength
  rw [starts, frameOf]
  dsimp only
  rw [short, isEnd, maskLen, isLength, if_neg (by rw [List.length_append]; omega),
    if_neg (by rw [List.length_append]; omega), mask, payload, behind, unmasked]
  rfl

/-! ## `_sendFrame` -/

/-- `_sendFrame` of the bytes of a message. -/
def sendFrame (payload : List UInt8) : List UInt8 :=
  if payload.length < 126 then [0x81, UInt8.ofNat payload.length] ++ payload
  else if payload.length < 65536 then [0x81, 126] ++ (writeUIntBE 2 payload.length ++ payload)
  else [0x81, 127] ++ (writeUIntBE 8 payload.length ++ payload)

/-- It is a text frame in the shortest form, without a mask. -/
theorem sendFrame_encodes {payload : List UInt8} (fits : payload.length < 9007199254740992) :
    Exists fun wire : WireFrame => wire.encode = sendFrame payload ∧ wire.frame = ⟨1, payload⟩ := by
  have opcode : (⟨0x81 &&& 0x0f, payload⟩ : Frame) = ⟨1, payload⟩ := congrArg (Frame.mk · payload) (by decide)
  rw [sendFrame]
  split_ifs with short medium
  · exact ⟨⟨0x81, .short, none, payload, short, fun _ impossible => by cases impossible⟩, rfl, opcode⟩
  · exact ⟨⟨0x81, .medium, none, payload, medium, fun _ impossible => by cases impossible⟩, rfl, opcode⟩
  · exact ⟨⟨0x81, .long, none, payload, fits, fun _ impossible => by cases impossible⟩, rfl, opcode⟩

/-! ## Requests and answers -/

/-- What `JSON.parse` and `msg.id` yield for the payload of a text frame. -/
inductive Message where
  | throws
  | other
  | id (number : Nat)
deriving DecidableEq, Repr

/-- The fields of the socket besides its buffer, and the calls of the callbacks so far. -/
structure Requests where
  id : Nat
  callbacks : List Nat
  resolved : List (Nat × List UInt8)
deriving DecidableEq, Repr

variable (message : List UInt8 -> Message)

/-- What is done with a frame, and whether the socket takes no more: it was destroyed, or the exception that
nobody catches ended the process. -/
def onFrame (requests : Requests) (frame : Frame) : Requests × Bool :=
  if frame.opcode = 1 then
    match message frame.payload with
    | .throws => (requests, true)
    | .other => (requests, false)
    | .id number =>
        if number ≠ 0 ∧ number ∈ requests.callbacks then
          ({ requests with
              callbacks := requests.callbacks.erase number
              resolved := requests.resolved ++ [(number, frame.payload)] }, false)
        else (requests, false)
  else (requests, frame.opcode == 8)

/-- `send` up to `_sendFrame`. -/
def send (requests : Requests) : Requests :=
  { requests with id := requests.id + 1, callbacks := requests.callbacks ++ [requests.id + 1] }

/-- What happens at the socket: a request is sent, or a piece of the stream arrives. -/
inductive Event where
  | send
  | data (chunk : List UInt8)

/-- `_onData` and `send`. -/
def onEvent (socket : Reader UInt8 Requests) : Event -> Reader UInt8 Requests
  | .send => { socket with state := send socket.state }
  | .data chunk => frames.receive (onFrame message) socket chunk

/-- A new `CDPSocket`. -/
def fresh : Reader UInt8 Requests := ⟨[], ⟨0, [], []⟩, false⟩

/-- The answer to a request, as far as it is looked at. -/
def answerTo (digit : UInt8) : List UInt8 := ascii "\x7b\"id\":" ++ [digit] ++ ascii "\x7d"

/-- `JSON.parse` on the answers to the first two requests. -/
def parseAnswer (payload : List UInt8) : Message :=
  if payload = answerTo 49 then .id 1 else if payload = answerTo 50 then .id 2 else .throws

/-- A masked text frame, and a frame that closes. -/
def answerWire : WireFrame :=
  ⟨0x81, .short, some [1, 2, 3, 4], answerTo 49, by decide, fun _ same => by cases same; rfl⟩

def closeWire : WireFrame := ⟨0x88, .short, none, [], by decide, fun _ impossible => by cases impossible⟩

/-- They arrive in two pieces, the first of which ends inside of the mask. -/
def pieces : List (List UInt8) :=
  [[0x81, 0x88, 1, 2], [3, 4, 0x7a, 0x20, 0x6a, 0x60, 0x23, 0x38, 0x32, 0x79, 0x88, 0]]

/-- The bytes of a message that a `Buffer` can hold. -/
def Outgoing : Type := { payload : List UInt8 // payload.length < 9007199254740992 }

/-- Messages that are sent one after another are received as these messages, in their order. -/
theorem messages_received (payloads : List Outgoing) {chunks : List (List UInt8)}
    (stream : chunks.flatten = payloads.flatMap (fun payload => sendFrame payload.1)) (requests : Requests) :
    ((chunks.foldl (frames.receive (onFrame message)) ⟨[], requests, false⟩).state,
        (chunks.foldl (frames.receive (onFrame message)) ⟨[], requests, false⟩).stopped) =
      Format.handleAll (onFrame message) requests (payloads.map (fun payload => ⟨1, payload.1⟩)) := by
  have encodes : forall (payload : Outgoing) rest,
      frames.next (sendFrame payload.1 ++ rest) = some (⟨1, payload.1⟩, rest) := by
    intro payload rest
    rcases sendFrame_encodes payload.2 with ⟨wire, isSent, isFrame⟩
    rw [← isSent, ← isFrame]
    exact nextFrame_encode wire rest
  exact Format.receive_encoded encodes Format.next_nil (by rw [stream, List.append_nil]) requests

/-- Two messages, the second of which is cut behind its first byte. -/
def twoMessages : List (List UInt8) := [sendFrame (answerTo 49) ++ [0x81], 8 :: answerTo 50]

theorem messages_received_two :
    ((twoMessages.foldl (frames.receive (onFrame parseAnswer)) ⟨[], ⟨2, [1, 2], []⟩, false⟩).state,
        (twoMessages.foldl (frames.receive (onFrame parseAnswer)) ⟨[], ⟨2, [1, 2], []⟩, false⟩).stopped) =
      (⟨2, [], [(1, answerTo 49), (2, answerTo 50)]⟩, false) :=
  (messages_received parseAnswer [⟨answerTo 49, by decide⟩, ⟨answerTo 50, by decide⟩] (by decide)
    ⟨2, [1, 2], []⟩).trans (by decide)

/-! ## Every request has one answer at most -/

/-- The numbers given out so far are those of the requests that wait and of those that were answered, each
once; and an answer has the number of its request. -/
structure Answered (requests : Requests) : Prop where
  waitOnce : requests.callbacks.Nodup
  answeredOnce : (requests.resolved.map Prod.fst).Nodup
  apart : forall number, number ∈ requests.callbacks -> number ∉ requests.resolved.map Prod.fst
  numbers : forall number, (number ∈ requests.callbacks ∨ number ∈ requests.resolved.map Prod.fst) ↔
    1 ≤ number ∧ number ≤ requests.id
  byNumber : forall answer, answer ∈ requests.resolved -> message answer.2 = .id answer.1

variable {message}

theorem answered_send {requests : Requests} (before : Answered message requests) :
    Answered message (send requests) := by
  have new : forall number, number ∈ requests.callbacks ∨ number ∈ requests.resolved.map Prod.fst ->
      number ≠ requests.id + 1 := fun number known => by
    have bound := (before.numbers number).mp known
    omega
  refine ⟨?_, before.answeredOnce, ?_, ?_, before.byNumber⟩
  · exact List.nodup_append.mpr ⟨before.waitOnce, List.nodup_singleton _, fun number waits other isNew => by
      rw [List.mem_singleton.mp isNew]
      exact new number (Or.inl waits)⟩
  · intro number waits answered
    rcases List.mem_append.mp waits with old | isNew
    · exact before.apart number old answered
    · exact new number (Or.inr answered) (List.mem_singleton.mp isNew)
  · intro number
    change (number ∈ requests.callbacks ++ [requests.id + 1] ∨ _) ↔ 1 ≤ number ∧ number ≤ requests.id + 1
    have known := before.numbers number
    rw [List.mem_append, List.mem_singleton]
    constructor
    · rintro ((waits | isNew) | answered)
      · have bound := known.mp (Or.inl waits)
        omega
      · omega
      · have bound := known.mp (Or.inr answered)
        omega
    · intro bound
      by_cases isNew : number = requests.id + 1
      · exact Or.inl (Or.inr isNew)
      · rcases known.mpr (by omega) with waits | answered
        · exact Or.inl (Or.inl waits)
        · exact Or.inr answered

theorem answered_onFrame {requests : Requests} (before : Answered message requests) (frame : Frame) :
    Answered message (onFrame message requests frame).1 := by
  rw [onFrame]
  split_ifs
  · cases isMessage : message frame.payload with
    | throws => exact before
    | other => exact before
    | id number =>
        dsimp only
        split_ifs with waits
        · have notAnswered := before.apart number waits.2
          refine ⟨before.waitOnce.erase number, ?_, ?_, ?_, ?_⟩
          · rw [List.map_append, List.map_singleton]
            exact List.nodup_append.mpr ⟨before.answeredOnce, List.nodup_singleton _,
              fun other answered last isLast => by
              rintro rfl
              rw [List.mem_singleton.mp isLast] at answered
              exact notAnswered answered⟩
          · intro other stillWaits answered
            rw [before.waitOnce.mem_erase_iff] at stillWaits
            rw [List.map_append, List.map_singleton, List.mem_append, List.mem_singleton] at answered
            rcases answered with earlier | now
            · exact before.apart other stillWaits.2 earlier
            · exact stillWaits.1 now
          · intro other
            change (other ∈ requests.callbacks.erase number ∨ _) ↔ _
            rw [← before.numbers other, before.waitOnce.mem_erase_iff, List.map_append, List.map_singleton,
              List.mem_append, List.mem_singleton]
            by_cases isThis : other = number
            · rw [isThis]
              exact ⟨fun _ => Or.inl waits.2, fun _ => Or.inr (Or.inr rfl)⟩
            · simp only [ne_eq, isThis, not_false_eq_true, true_and, or_false]
          · intro answer answered
            rcases List.mem_append.mp answered with earlier | now
            · exact before.byNumber answer earlier
            · rw [List.mem_singleton.mp now]
              exact isMessage
        · exact before
  · exact before

/-- Whatever is sent and whatever arrives, in any order: no request is answered twice, every answer has the
number of a request that was sent, and the requests without one wait. -/
theorem answered_run (message : List UInt8 -> Message) (events : List Event) :
    Answered message (events.foldl (onEvent message) fresh).state := by
  have keeps : forall (events : List Event) (socket : Reader UInt8 Requests), Answered message socket.state ->
      Answered message (events.foldl (onEvent message) socket).state := by
    intro events
    induction events with
    | nil => exact fun _ before => before
    | cons event events inductionHypothesis =>
        intro socket before
        apply inductionHypothesis
        cases event with
        | send => exact answered_send before
        | data chunk =>
            have step : forall requests frame, Answered message requests ->
                Answered message (onFrame message requests frame).1 :=
                  fun _ frame now => answered_onFrame now frame
            exact Format.receive_preserves step before chunk
  refine keeps events fresh ⟨List.nodup_nil, List.nodup_nil, ?_, ?_, ?_⟩
  · exact fun _ waits => absurd waits List.not_mem_nil
  · intro number
    constructor
    · rintro (waits | answered)
      · cases waits
      · cases answered
    · intro bound
      have none : number ≤ 0 := bound.2
      omega
  · exact fun _ answered => absurd answered List.not_mem_nil

/-! ## Pieces between two requests -/

/-- Pieces that arrive without a request between them are joined. -/
def joinChunks : List Event -> List Event
  | [] => []
  | .send :: rest => .send :: joinChunks rest
  | .data chunk :: rest =>
      match joinChunks rest with
      | .data more :: others => .data (chunk ++ more) :: others
      | others => .data chunk :: others

theorem agree_onEvent {first second : Reader UInt8 Requests} (agree : Format.Agree first second)
    (event : Event) :
    Format.Agree (onEvent message first event) (onEvent message second event) := by
  cases event with
  | send => exact ⟨congrArg send agree.1, agree.2⟩
  | data chunk => exact agree.receive chunk

theorem agree_run {first second : Reader UInt8 Requests} (agree : Format.Agree first second)
    (events : List Event) :
    Format.Agree (events.foldl (onEvent message) first) (events.foldl (onEvent message) second) := by
  induction events generalizing first second with
  | nil => exact agree
  | cons event events inductionHypothesis => exact inductionHypothesis (agree_onEvent agree event)

/-- A run and the run with joined pieces come to the same requests and answers. -/
theorem run_joinChunks (message : List UInt8 -> Message) (events : List Event)
    (socket : Reader UInt8 Requests) :
    Format.Agree (events.foldl (onEvent message) socket) ((joinChunks events).foldl
      (onEvent message) socket) := by
  induction events generalizing socket with
  | nil => exact Format.Agree.refl _
  | cons event events inductionHypothesis =>
      cases event with
      | send => exact inductionHypothesis _
      | data chunk =>
          have later := inductionHypothesis (onEvent message socket (.data chunk))
          rw [List.foldl_cons, joinChunks]
          split
          next more others isJoined =>
            rw [isJoined] at later
            exact later.trans (agree_run (Format.receive_receive socket chunk more) others)
          next => exact later

end CdpSocket
end Client
end AdbBridge
