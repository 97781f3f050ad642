import AdbBridge.Executor.PipeSteps

namespace AdbBridge
namespace Executor
namespace PipeLoop

open Library Library.Numeral Library.ChunkedCoding

/-!
# The request body on its way to the child

The reader of `exec_run_pipe` decodes the body one `SSL_read` at a time, keeps
at most one buffer of it and writes it to the stdin pipe in pieces.  `Expects`
relates a state of the reader to what the client still sends: it holds of a
payload when the reader, fed with the bytes to come, would decode exactly this
payload.  The invariant is that the bytes written, the bytes buffered and the
expected payload make up the body.

After the loop the stdin pipe is closed in any case.  The loop itself closes it
only when the body is through; it is left earlier when TLS or `poll` fails.
-/

/-! ## Bodies -/

/-- A request body as the client announces and sends it. -/
inductive RequestBody where
  | sized (content : List UInt8) (nonempty : content ≠ [])
  | chunked (message : Message brHdrSize)

/-- The bytes the child is to read from its stdin. -/
def RequestBody.content : RequestBody -> List UInt8
  | .sized content _ => content
  | .chunked message => message.content

/-- The bytes the client sends after the headers. -/
def RequestBody.wire : RequestBody -> List UInt8
  | .sized content _ => content
  | .chunked message => message.render

/-- The call got the announcement of this body: its `Content-Length`, or
`Transfer-Encoding: chunked`. -/
def Call.Announces (call : Call) : RequestBody -> Prop
  | .sized content _ => call.chunked = false ∧ call.contentLength = content.length
  | .chunked _ => call.chunked = true

/-! ## What a state of the reader expects -/

/-- The reader in the given state, fed with `incoming`, decodes `payload`.
When the reader has stopped, nothing more is decoded; if it cannot have stopped
early (`strict`) the payload is exhausted. -/
inductive Expects (strict : Prop) (chunked : Bool) :
    BrState -> List UInt8 -> Int -> List UInt8 -> List UInt8 -> Prop where
  | header (framed : chunked = true) (message : Message brHdrSize)
      (chunks : List (Chunk brHdrSize)) (seen left rest : List UInt8) (remaining : Int)
      (line : message.lineFrom chunks = seen ++ left) :
      Expects strict chunked .header (seen.take brHdrSize) remaining
        (left ++ 10 :: (message.afterLine chunks ++ rest)) (chunks.flatMap Chunk.payload)
  | chunkData (framed : chunked = true) (data : List UInt8) (some : data ≠ [])
      (message : Message brHdrSize) (chunks : List (Chunk brHdrSize)) (rest : List UInt8) :
      Expects strict chunked .data [] data.length
        (data ++ (crlf ++ (message.renderFrom chunks ++ rest))) (data ++ chunks.flatMap Chunk.payload)
  | trailer (framed : chunked = true) (left : List UInt8) (noNewline : 10 ∉ left)
      (message : Message brHdrSize) (chunks : List (Chunk brHdrSize)) (rest : List UInt8)
      (remaining : Int) :
      Expects strict chunked .trailer [] remaining
        (left ++ 10 :: (message.renderFrom chunks ++ rest)) (chunks.flatMap Chunk.payload)
  | final (remaining : Int) (incoming : List UInt8) :
      Expects strict chunked .final [] remaining incoming []
  | plainData (plain : chunked = false) (data : List UInt8) (some : data ≠ []) (rest : List UInt8) :
      Expects strict chunked .data [] data.length (data ++ rest) data
  | done (hdr : List UInt8) (remaining : Int) (incoming payload : List UInt8)
      (whole : strict -> payload = []) :
      Expects strict chunked .done hdr remaining incoming payload

/-- The reader of a loop state, with the bytes to come. -/
def Loop.Expects (strict : Prop) (call : Call) (loop : Loop) (incoming payload : List UInt8) : Prop :=
  PipeLoop.Expects strict call.chunked loop.brState loop.brHdr loop.brRemaining incoming payload

/-- Before the first byte the reader expects the body. -/
theorem start_expects (strict : Prop) {call : Call} {body : RequestBody}
    (announced : call.Announces body) (rest : List UInt8) :
    call.loop.Expects strict call (body.wire ++ rest) body.content := by
  cases body with
  | sized content nonempty =>
      have positive : 0 < (content.length : Int) :=
        Int.natCast_pos.mpr (List.length_pos_iff.mpr nonempty)
      simp only [Loop.Expects, Call.loop, Call.brState, announced.1, announced.2, Bool.false_eq_true,
        if_false, if_pos positive, RequestBody.wire, RequestBody.content]
      exact .plainData rfl content nonempty rest
  | chunked message =>
      have framed : call.chunked = true := announced
      simp only [Loop.Expects, Call.loop, Call.brState, framed, if_true, RequestBody.wire,
        Message.render, Message.renderFrom_eq, List.append_assoc, List.cons_append]
      exact .header rfl message message.chunks [] _ rest (-1) rfl

/-! ## One `SSL_read` -/

variable {strict : Prop} {call : Call}

/-- A framing byte: the reader moves on in the size line, or to the state its
complete size line calls for. -/
theorem headerByte_expects {loop : Loop} {byte : UInt8} {incoming payload : List UInt8}
    (state : loop.brState = .header)
    (expects : loop.Expects strict call (byte :: incoming) payload) :
    (loop.headerByte byte).Expects strict call incoming payload ∧
      (loop.headerByte byte).stdinBuf = loop.stdinBuf ∧
      (loop.headerByte byte).bodyEof = loop.bodyEof ∧
      (loop.headerByte byte).brState ≠ .done := by
  unfold Loop.Expects at expects
  rw [state] at expects
  generalize hdrEq : loop.brHdr = hdr at expects
  generalize remEq : loop.brRemaining = remaining at expects
  generalize wireEq : byte :: incoming = wire at expects
  cases expects with
  | header framed message chunks seen left rest _ line =>
      have noNewline := newline_not_mem_lineFrom message chunks
      cases left with
      | nil =>
          have parts := List.cons.inj wireEq
          rw [parts.1, parts.2]
          have whole : message.lineFrom chunks = seen := line.trans (List.append_nil seen)
          unfold Loop.headerByte
          rw [if_pos rfl, hdrEq, ← whole]
          cases chunks with
          | nil =>
              have size : strtol 16 ((message.lineFrom []).take brHdrSize) = 0 := by
                rw [Message.lineFrom, strtol_take_sizeLine _ _ (by rw [message.lastZero]; decide),
                  message.lastZero]
                rfl
              simp only [size, if_true, Loop.Expects]
              exact ⟨.final _ _, trivial, trivial, nofun⟩
          | cons chunk later =>
              have size : strtol 16 ((message.lineFrom (chunk :: later)).take brHdrSize) =
                  chunk.payload.length := by
                rw [Message.lineFrom, strtol_take_sizeLine _ _ (by rw [chunk.announced]; exact chunk.fits),
                  chunk.announced]
              have notZero : (chunk.payload.length : Int) ≠ 0 :=
                Int.natCast_ne_zero.mpr (fun none => chunk.nonempty (List.length_eq_zero_iff.mp none))
              simp only [size, if_neg notZero, Loop.Expects, Message.afterLine, List.append_assoc]
              exact ⟨.chunkData framed chunk.payload chunk.nonempty message later rest, trivial, trivial,
                nofun⟩
      | cons first others =>
          have parts := List.cons.inj wireEq
          have notNewline : byte ≠ 10 := by
            rintro rfl
            apply noNewline
            rw [line, parts.1]
            exact List.mem_append_right _ List.mem_cons_self
          have moved : message.lineFrom chunks = (seen ++ [byte]) ++ others := by
            rw [line, parts.1, List.append_assoc, List.singleton_append]
          have next : Expects strict call.chunked .header ((seen ++ [byte]).take brHdrSize) remaining
              incoming (chunks.flatMap Chunk.payload) := by
            rw [parts.2]
            exact .header framed message chunks _ others rest remaining moved
          unfold Loop.headerByte
          rw [if_neg notNewline]
          by_cases short : loop.brHdr.length < brHdrSize
          · rw [if_pos short]
            rw [hdrEq, List.length_take] at short
            have kept : seen.take brHdrSize = seen := List.take_of_length_le (by omega)
            have grown : (seen ++ [byte]).take brHdrSize = seen ++ [byte] :=
              List.take_of_length_le (by rw [List.length_append, List.length_singleton]; omega)
            rw [grown] at next
            refine ⟨?_, rfl, rfl, by rw [state]; nofun⟩
            simp only [Loop.Expects, state, hdrEq, remEq, kept]
            exact next
          · rw [if_neg short]
            rw [hdrEq, List.length_take] at short
            have full : (seen ++ [byte]).take brHdrSize = seen.take brHdrSize :=
              List.take_append_of_le_length (by omega)
            rw [full] at next
            refine ⟨?_, rfl, rfl, by rw [state]; nofun⟩
            simp only [Loop.Expects, state, hdrEq, remEq]
            exact next

/-- A framing byte after a chunk, or after the zero chunk. -/
theorem trailerByte_expects {loop : Loop} {byte : UInt8} {incoming payload : List UInt8}
    (state : loop.brState = .trailer ∨ loop.brState = .final) (running : loop.bodyEof = false)
    (expects : loop.Expects strict call (byte :: incoming) payload) :
    (loop.trailerByte byte).Expects strict call incoming payload ∧
      (loop.trailerByte byte).stdinBuf = loop.stdinBuf ∧
      ((loop.trailerByte byte).bodyEof = true -> (loop.trailerByte byte).brState = .done) := by
  have notEof : loop.bodyEof ≠ true := by rw [running]; nofun
  unfold Loop.Expects at expects
  generalize hdrEq : loop.brHdr = hdr at expects
  generalize remEq : loop.brRemaining = remaining at expects
  generalize wireEq : byte :: incoming = wire at expects
  rcases state with trailer | final
  · rw [trailer] at expects
    cases expects with
    | trailer framed left noNewline message chunks rest _ =>
        cases left with
        | nil =>
            have parts := List.cons.inj wireEq
            unfold Loop.trailerByte
            rw [if_pos parts.1]
            simp only [trailer, Loop.Expects, hdrEq, remEq, parts.2, Message.renderFrom_eq,
              List.append_assoc, List.cons_append]
            exact ⟨.header framed message chunks [] _ rest _ rfl, trivial,
              fun eof => absurd eof notEof⟩
        | cons first others =>
            have parts := List.cons.inj wireEq
            have notNewline : byte ≠ 10 := by
              rintro rfl
              exact noNewline (parts.1 ▸ List.mem_cons_self)
            unfold Loop.trailerByte
            rw [if_neg notNewline]
            refine ⟨?_, rfl, fun eof => absurd eof notEof⟩
            simp only [trailer, Loop.Expects, hdrEq, remEq, parts.2]
            exact .trailer framed others (fun member => noNewline (List.mem_cons_of_mem first member))
              message chunks rest _
  · rw [final] at expects
    cases expects with
    | final _ _ =>
        unfold Loop.trailerByte
        by_cases newline : byte = 10
        · rw [if_pos newline]
          simp only [final, Loop.Expects, hdrEq, remEq]
          exact ⟨.done _ _ _ _ (fun _ => rfl), trivial, fun _ => trivial⟩
        · rw [if_neg newline]
          refine ⟨?_, rfl, fun eof => absurd eof notEof⟩
          simp only [final, Loop.Expects, hdrEq, remEq]
          exact .final _ _

/-- Bytes that are no longer than the first of two parts begin that part. -/
theorem exists_left {bytes incoming data tail : List UInt8} (same : bytes ++ incoming = data ++ tail)
    (short : bytes.length ≤ data.length) :
    Exists fun left => data = bytes ++ left ∧ incoming = left ++ tail ∧
      (data.length : Int) - bytes.length = left.length := by
  rcases List.append_eq_append_iff.mp same with ⟨left, whole, rest⟩ | ⟨extra, whole, rest⟩
  · refine ⟨left, whole, rest, ?_⟩
    rw [whole, List.length_append]
    omega
  · have none : extra = [] := by
      apply List.eq_nil_of_length_eq_zero
      rw [whole, List.length_append] at short
      omega
    subst none
    rw [List.append_nil] at whole
    exact ⟨[], by rw [whole, List.append_nil], rest.symm, by rw [whole]; exact Int.sub_self _⟩

/-- Body bytes: they leave the expected payload and enter the buffer. -/
theorem dataBytes_expects {loop : Loop} {bytes incoming payload : List UInt8}
    (state : loop.brState = .data) (running : loop.bodyEof = false)
    (asked : (bytes.length : Int) ≤ loop.brRemaining)
    (expects : loop.Expects strict call (bytes ++ incoming) payload) :
    Exists fun later =>
      (loop.dataBytes call bytes).Expects strict call incoming later ∧ payload = bytes ++ later ∧
        ((loop.dataBytes call bytes).bodyEof = true -> (loop.dataBytes call bytes).brState = .done) := by
  unfold Loop.Expects at expects
  rw [state] at expects
  generalize hdrEq : loop.brHdr = hdr at expects
  generalize remEq : loop.brRemaining = remaining at expects asked
  generalize wireEq : bytes ++ incoming = wire at expects
  cases expects with
  | chunkData framed data some message chunks rest =>
      rcases exists_left wireEq (Int.ofNat_le.mp asked) with ⟨left, whole, same, remaining⟩
      refine ⟨left ++ chunks.flatMap Chunk.payload, ?_, by rw [whole, List.append_assoc], ?_⟩
      · by_cases through : left = []
        · subst through
          have zero : loop.brRemaining - bytes.length = 0 := by rw [remEq, remaining]; rfl
          simp only [Loop.Expects, Loop.dataBytes, zero, if_true, if_pos framed, hdrEq, same,
            List.nil_append]
          exact .trailer framed [13] (by decide) message chunks rest 0
        · have more : loop.brRemaining - bytes.length ≠ 0 := by
            rw [remEq, remaining]
            exact Int.natCast_ne_zero.mpr (fun none => through (List.length_eq_zero_iff.mp none))
          simp only [Loop.Expects, Loop.dataBytes, if_neg more, hdrEq, same]
          rw [remEq, remaining]
          exact .chunkData framed left through message chunks rest
      · intro eof
        simp [Loop.dataBytes, running, framed] at eof
  | plainData plain data some rest =>
      rcases exists_left wireEq (Int.ofNat_le.mp asked) with ⟨left, whole, same, remaining⟩
      refine ⟨left, ?_, whole, ?_⟩
      · by_cases through : left = []
        · subst through
          have zero : loop.brRemaining - bytes.length = 0 := by rw [remEq, remaining]; rfl
          simp only [Loop.Expects, Loop.dataBytes, zero, if_true, plain, Bool.false_eq_true, if_false]
          exact .done _ _ _ _ (fun _ => rfl)
        · have more : loop.brRemaining - bytes.length ≠ 0 := by
            rw [remEq, remaining]
            exact Int.natCast_ne_zero.mpr (fun none => through (List.length_eq_zero_iff.mp none))
          simp only [Loop.Expects, Loop.dataBytes, if_neg more, hdrEq, same]
          rw [remEq, remaining]
          exact .plainData plain left through rest
      · intro eof
        have zero : loop.brRemaining - bytes.length = 0 := by
          simpa [Loop.dataBytes, running, plain] using eof
        simp only [Loop.dataBytes, zero, if_true, plain, Bool.false_eq_true, if_false]

/-- One successful `SSL_read`: the buffer and the payload still expected keep
their sum, and the buffer its bound. -/
theorem accept_expects {loop : Loop} {bytes incoming payload : List UInt8}
    (some : bytes ≠ []) (asked : bytes.length ≤ loop.readCap)
    (small : loop.stdinBuf.length ≤ stdinBufSize) (eof : loop.bodyEof = true -> loop.brState = .done)
    (expects : loop.Expects strict call (bytes ++ incoming) payload) :
    Exists fun later =>
      (loop.accept call bytes).Expects strict call incoming later ∧
        (loop.accept call bytes).stdinBuf ++ later = loop.stdinBuf ++ payload ∧
        (loop.accept call bytes).stdinBuf.length ≤ stdinBufSize ∧
        ((loop.accept call bytes).bodyEof = true -> (loop.accept call bytes).brState = .done) := by
  have running : loop.brState ≠ .done -> loop.bodyEof = false := by
    intro notDone
    exact Bool.eq_false_iff.mpr (fun through => notDone (eof through))
  have single : loop.readCap = 1 -> Exists fun byte => bytes = [byte] := by
    intro one
    apply List.length_eq_one_iff.mp
    have positive := List.length_pos_iff.mpr some
    omega
  cases state : loop.brState with
  | header =>
      rcases single (by rw [Loop.readCap, state]) with ⟨byte, same⟩
      subst same
      have moved := headerByte_expects state expects
      refine ⟨payload, ?_⟩
      simp only [Loop.accept, state, List.foldl_cons, List.foldl_nil]
      refine ⟨moved.1, by rw [moved.2.1], by rw [moved.2.1]; exact small, ?_⟩
      intro through
      rw [moved.2.2.1, running (by rw [state]; nofun)] at through
      exact absurd through (by decide)
  | data =>
      have positive := List.length_pos_iff.mpr some
      simp only [Loop.readCap, state] at asked
      rcases dataBytes_expects state (running (by rw [state]; nofun)) (by omega) expects with
        ⟨later, moved, whole, through⟩
      refine ⟨later, ?_⟩
      simp only [Loop.accept, state]
      refine ⟨moved, ?_, ?_, through⟩
      · rw [whole, ← List.append_assoc]
        rfl
      · change (loop.stdinBuf ++ bytes).length ≤ stdinBufSize
        rw [List.length_append]
        omega
  | trailer =>
      rcases single (by rw [Loop.readCap, state]) with ⟨byte, same⟩
      subst same
      have moved := trailerByte_expects (Or.inl state) (running (by rw [state]; nofun)) expects
      refine ⟨payload, ?_⟩
      simp only [Loop.accept, state, List.foldl_cons, List.foldl_nil]
      exact ⟨moved.1, by rw [moved.2.1], by rw [moved.2.1]; exact small, moved.2.2⟩
  | final =>
      rcases single (by rw [Loop.readCap, state]) with ⟨byte, same⟩
      subst same
      have moved := trailerByte_expects (Or.inr state) (running (by rw [state]; nofun)) expects
      refine ⟨payload, ?_⟩
      simp only [Loop.accept, state, List.foldl_cons, List.foldl_nil]
      exact ⟨moved.1, by rw [moved.2.1], by rw [moved.2.1]; exact small, moved.2.2⟩
  | done =>
      refine ⟨payload, ?_⟩
      simp only [Loop.accept, state]
      refine ⟨?_, trivial, small, fun _ => trivial⟩
      unfold Loop.Expects at expects ⊢
      rw [state] at expects ⊢
      cases expects with
      | done _ _ _ _ whole => exact .done _ _ _ _ whole

/-! ## The invariant -/

/-- Where the body of a call stands, wherever the parent is.  `strict` says that
neither `SSL_read` nor a write to the stdin pipe fails, `clean` that neither TLS
nor `poll` fails on the sending side. -/
structure BodyHeld (strict clean : Prop) (call : Call) (content : List UInt8) (state : State) :
    Prop where
  small : state.loop.stdinBuf.length ≤ stdinBufSize
  split : Exists fun payload =>
    state.loop.Expects strict call state.incoming payload ∧
      state.stdinWritten ++ (state.loop.stdinBuf ++ payload) = content
  eof : state.loop.bodyEof = true -> state.loop.brState = .done
  drained : strict -> state.loop.stdinClosed = true -> state.stdinWritten = content
  fd : state.pc ≠ .returned -> state.loop.stdinFd = false -> state.loop.stdinClosed = true
  noError : clean -> state.loop.sslError = false

/-- The invariant of the body: at the end of an iteration a drained body has
closed the stdin pipe, and on the clean path it is closed when the loop is left. -/
structure BodyInv (strict clean : Prop) (call : Call) (content : List UInt8) (state : State) : Prop
    extends BodyHeld strict clean call content state where
  closedUp : state.pc = .top ∨ state.pc = .reap -> state.loop.bodyEof = true ->
    state.loop.stdinBuf = [] -> state.loop.stdinClosed = true
  through : clean -> state.pc.leaving = true -> state.loop.stdinClosed = true

variable {clean : Prop} {content : List UInt8} {state next : State}

theorem start_bodyInv {body : RequestBody} (announced : call.Announces body) (rest : List UInt8) :
    BodyInv strict clean call body.content (call.start (body.wire ++ rest)) where
  small := Nat.zero_le _
  split := ⟨body.content, start_expects strict announced rest, rfl⟩
  eof := fun through => eq_of_beq through
  drained := by
    intro _ closed
    have finished : call.brState = .done := eq_of_beq closed
    cases body with
    | sized content nonempty =>
        have positive : 0 < (content.length : Int) :=
          Int.natCast_pos.mpr (List.length_pos_iff.mpr nonempty)
        rw [Call.brState, if_neg (by simp [announced.1]), announced.2, if_pos positive] at finished
        exact absurd finished nofun
    | chunked message =>
        have framed : call.chunked = true := announced
        simp [Call.brState, framed] at finished
  fd := by
    intro _ closed
    simpa [Call.start, Call.loop] using closed
  noError := fun _ => rfl
  closedUp := fun _ through _ => through
  through := fun _ leaves => absurd leaves (by simp [Call.start, Pc.leaving])

/-- The rest of an iteration restores the invariant. -/
theorem BodyHeld.rest {ready : Ready} (rest : Rest ready state next)
    (held : BodyHeld strict clean call content state) (running : state.pc.leaving = false) :
    BodyInv strict clean call content next := by
  have notReturned := ne_returned_of_not_leaving running
  rcases held.split with ⟨payload, expects, whole⟩
  cases rest with
  | next pc wantRead wantWrite within =>
      have stays := not_leaving_of_inIteration within
      refine ⟨⟨held.small, ⟨payload, expects, whole⟩, held.eof, held.drained,
        fun _ => held.fd notReturned, held.noError⟩, ?_, ?_⟩
      · rintro (same | same) <;> (subst same; exact absurd within id)
      · intro _ leaves
        exact absurd leaves (by simp [stays])
  | last pc wantRead wantWrite ends =>
      have stays : pc.leaving = false := by
        rcases ends with same | same <;> (subst same; rfl)
      by_cases closes : (state.loop.bodyEof && state.loop.stdinBuf.isEmpty &&
          !state.loop.stdinClosed) = true
      · have parts := closes
        simp only [Bool.and_eq_true, List.isEmpty_iff] at parts
        simp only [Loop.closeStdin, if_pos closes]
        refine ⟨⟨held.small, ⟨payload, expects, whole⟩, held.eof, ?_, fun _ _ => rfl,
          held.noError⟩, fun _ _ _ => rfl, fun _ _ => rfl⟩
        intro holds _
        have none : payload = [] := by
          unfold Loop.Expects at expects
          rw [held.eof parts.1.1] at expects
          cases expects with
          | done _ _ _ _ exhausted => exact exhausted holds
        rw [none, parts.1.2, List.append_nil, List.append_nil] at whole
        exact whole
      · simp only [Loop.closeStdin, if_neg closes]
        refine ⟨⟨held.small, ⟨payload, expects, whole⟩, held.eof, held.drained,
          fun _ => held.fd notReturned, held.noError⟩, ?_, ?_⟩
        · intro _ eof empty
          by_contra opened
          apply closes
          rw [show state.loop.bodyEof = true from eof, show state.loop.stdinBuf = [] from empty,
            Bool.eq_false_iff.mpr opened]
          rfl
        · intro _ leaves
          exact absurd leaves (by simp [stays])

/-- Leaving the loop keeps the invariant, if on the clean path the stdin pipe
is closed already. -/
theorem BodyHeld.left (left : Left state next) (held : BodyHeld strict clean call content state)
    (notReturned : state.pc ≠ .returned) (closed : clean -> state.loop.stdinClosed = true) :
    BodyInv strict clean call content next := by
  cases left with
  | kill =>
      exact ⟨⟨held.small, held.split, held.eof, held.drained, fun _ => held.fd notReturned,
        held.noError⟩, nofun, fun holds _ => closed holds⟩
  | flush noError some =>
      exact ⟨⟨held.small, held.split, held.eof, held.drained, fun _ => held.fd notReturned,
        held.noError⟩, nofun, fun holds _ => closed holds⟩
  | terminate noError none =>
      exact ⟨⟨held.small, held.split, held.eof, held.drained, fun _ => held.fd notReturned,
        held.noError⟩, nofun, fun holds _ => closed holds⟩
  | failed error =>
      exact ⟨⟨held.small, held.split, held.eof, held.drained, fun impossible => absurd rfl impossible,
        held.noError⟩, nofun, fun holds _ => closed holds⟩

/-! ## One step -/

/-- The output side owns three fields of the loop. -/
theorem output_eq (call : Call) (loop : Loop) (isErr : Bool) (bytes : List UInt8) :
    Exists fun stdoutDone => Exists fun stderrDone => Exists fun sseBuf =>
      loop.output call isErr bytes =
        { loop with stdoutDone := stdoutDone, stderrDone := stderrDone, sseBuf := sseBuf } := by
  unfold Loop.output
  split_ifs <;> exact ⟨_, _, _, rfl⟩

/-- Nothing to poll at the head of the loop means that the body is through. -/
theorem BodyInv.closed_of_pollsNothing (inv : BodyInv strict clean call content state)
    (top : state.pc = .top) (nothing : state.loop.pollsNothing false = true) :
    state.loop.stdinClosed = true := by
  simp only [Loop.pollsNothing, Loop.pollsSsl, Loop.needRead, Loop.pollsStdin, Bool.and_eq_true,
    Bool.not_eq_true', Bool.or_eq_false_iff, Bool.and_eq_false_iff, Bool.not_eq_false',
    decide_eq_false_iff_not, List.isEmpty_iff] at nothing
  rcases nothing.1.1.2 with closed | empty
  · exact closed
  · rcases nothing.1.1.1.1.1.1.1 with eof | full
    · exact inv.closedUp (Or.inl top) eof empty
    · rw [empty] at full
      exact absurd (by decide) full

/-- One step keeps the invariant of the body. -/
theorem step_bodyInv {event : Event} (stepped : step call state event = some next)
    (reads : strict -> event.bodyFails = false) (sends : clean -> event.sendOrPollFails = false)
    (inv : BodyInv strict clean call content state) : BodyInv strict clean call content next := by
  have held := inv.toBodyHeld
  rcases inv.split with ⟨payload, expects, whole⟩
  cases transition_of_step stepped with
  | writeOut block pipe wrote => exact ⟨⟨held.1, held.2, held.3, held.4, held.5, held.6⟩, inv.2, inv.3⟩
  | writeErr block pipe wrote => exact ⟨⟨held.1, held.2, held.3, held.4, held.5, held.6⟩, inv.2, inv.3⟩
  | closeOut => exact ⟨⟨held.1, held.2, held.3, held.4, held.5, held.6⟩, inv.2, inv.3⟩
  | closeErr => exact ⟨⟨held.1, held.2, held.3, held.4, held.5, held.6⟩, inv.2, inv.3⟩
  | exit status running => exact ⟨⟨held.1, held.2, held.3, held.4, held.5, held.6⟩, inv.2, inv.3⟩
  | interrupted pending top => exact inv
  | polled pending sslIn sslOut stdinOut outIn errIn _ top _ _ rest =>
      exact BodyHeld.rest rest held (not_leaving_of_eq top rfl)
  | pollFailed pending _ top left =>
      refine BodyHeld.left left held (by simp [top]) ?_
      intro holds
      exact absurd (sends holds) (by simp [Event.sendOrPollFails])
  | ended _ top ends left =>
      refine BodyHeld.left left held (by simp [top]) ?_
      intro holds
      simp only [Loop.continues, inv.noError holds, Bool.not_false, Bool.true_and,
        Bool.or_eq_false_iff, Bool.not_eq_false'] at ends
      exact ends.1.1.1.2
  | idle _ top nothing exited left =>
      exact BodyHeld.left left held (by simp [top]) (fun _ => inv.closed_of_pollsNothing top nothing)
  | waits top nothing running =>
      exact ⟨⟨held.1, held.2, held.3, held.4, fun _ => held.fd (by simp [top]), held.6⟩, nofun,
        fun _ _ => inv.closed_of_pollsNothing top nothing⟩
  | sslGot ready count _ at_ positive asked sent rest =>
      have length : (state.incoming.take count).length = count := List.length_take_of_le sent
      have fed : state.loop.Expects strict call
          (state.incoming.take count ++ state.incoming.drop count) payload := by
        rw [List.take_append_drop]
        exact expects
      rcases accept_expects (List.ne_nil_of_length_pos (by rw [length]; exact positive))
        (by rw [length]; exact asked) held.small held.eof fed with ⟨later, moved, same, small, eof⟩
      rcases accept_eq_withReader call state.loop (state.incoming.take count) with
        ⟨brState, brRemaining, brHdr, bodyEof, stdinBuf, owned⟩
      refine BodyHeld.rest rest ⟨small, ⟨later, moved, by rw [same]; exact whole⟩, eof, ?_, ?_, ?_⟩
        (not_leaving_of_eq at_ rfl)
      · rw [owned]
        exact held.drained
      · rw [owned]
        exact held.fd
      · rw [owned]
        exact held.noError
  | sslWants ready result _ at_ wants rest => exact BodyHeld.rest rest held (not_leaving_of_eq at_ rfl)
  | sslReadFailed ready _ at_ rest =>
      refine BodyHeld.rest rest ⟨held.1, ⟨payload, .done _ _ _ _ ?_, whole⟩, fun _ => rfl, held.4,
        held.5, held.6⟩ (not_leaving_of_eq at_ rfl)
      intro holds
      exact absurd (reads holds) (by simp [Event.bodyFails])
  | sslWrote ready count _ at_ positive within rest =>
      exact BodyHeld.rest rest ⟨held.1, held.2, held.3, held.4, held.5, held.6⟩
        (not_leaving_of_eq at_ rfl)
  | sslWriteWants ready _ at_ rest => exact BodyHeld.rest rest held (not_leaving_of_eq at_ rfl)
  | sslWriteFailed ready _ at_ left =>
      have impossible : clean -> False := by
        intro holds
        exact absurd (sends holds) (by simp [Event.sendOrPollFails])
      exact BodyHeld.left left ⟨held.1, held.2, held.3, held.4, held.5, fun holds =>
        (impossible holds).elim⟩ (by simp [at_]) (fun holds => (impossible holds).elim)
  | stdinWrote ready count _ at_ positive within rest =>
      refine BodyHeld.rest rest ⟨?_, ⟨payload, expects, ?_⟩, held.3, ?_, held.5, held.6⟩
        (not_leaving_of_eq at_ rfl)
      · have small := held.small
        simp only [List.length_drop]
        omega
      · rw [List.append_assoc, ← List.append_assoc (state.loop.stdinBuf.take count),
          List.take_append_drop]
        exact whole
      · -- with the pipe closed everything is written, so nothing is left to write
        intro holds closed
        rw [← held.drained holds closed, List.append_right_eq_self] at whole
        rw [(List.append_eq_nil_iff.mp whole).1] at within
        exact absurd (Nat.le_zero.mp within) (Nat.pos_iff_ne_zero.mp positive)
  | stdinAgain ready _ at_ rest => exact BodyHeld.rest rest held (not_leaving_of_eq at_ rfl)
  | stdinFailed ready _ at_ rest =>
      refine BodyHeld.rest rest ⟨held.1, held.2, held.3, ?_, fun _ _ => rfl, held.6⟩
        (not_leaving_of_eq at_ rfl)
      intro holds
      exact absurd (reads holds) (by simp [Event.bodyFails])
  | readOut errIn count bytes pipe _ at_ got rest =>
      rcases output_eq call state.loop false bytes with ⟨_, _, _, owned⟩
      rw [owned] at rest
      exact BodyHeld.rest rest ⟨held.1, held.2, held.3, held.4, fun _ => held.fd (by simp [at_]),
        held.6⟩ rfl
  | readErr count bytes pipe _ at_ got rest =>
      rcases output_eq call state.loop true bytes with ⟨_, _, _, owned⟩
      rw [owned] at rest
      exact BodyHeld.rest rest ⟨held.1, held.2, held.3, held.4, fun _ => held.fd (by simp [at_]),
        held.6⟩ rfl
  | notReaped at_ =>
      exact ⟨⟨held.1, held.2, held.3, held.4, fun _ => held.fd (by simp [at_]), held.6⟩,
        fun _ => inv.closedUp (Or.inr at_), nofun⟩
  | reaps status at_ zombie =>
      exact ⟨⟨held.1, held.2, held.3, held.4, fun _ => held.fd (by simp [at_]), held.6⟩,
        fun _ => inv.closedUp (Or.inr at_), nofun⟩
  | waitFailed _ at_ left =>
      exact BodyHeld.left left held (by simp [at_]) (fun holds => inv.through holds (by rw [at_]; rfl))
  | waitReaps status _ at_ zombie left =>
      exact BodyHeld.left left ⟨held.1, held.2, held.3, held.4, held.5, held.6⟩
        (by simp [State.reaped, at_]) (fun holds => inv.through holds (by rw [at_]; rfl))
  | killUnreaped _ at_ left =>
      exact BodyHeld.left left ⟨held.1, held.2, held.3, held.4, held.5, held.6⟩
        (by simp [at_]) (fun holds => inv.through holds (by rw [at_]; rfl))
  | killReaps status _ at_ zombie left =>
      exact BodyHeld.left left ⟨held.1, held.2, held.3, held.4, held.5, held.6⟩
        (by simp [at_]) (fun holds => inv.through holds (by rw [at_]; rfl))
  | flushed result bytes at_ accepted =>
      exact ⟨⟨held.1, held.2, held.3, held.4, fun _ => held.fd (by simp [at_]), held.6⟩, nofun,
        fun holds _ => inv.through holds (by rw [at_]; rfl)⟩
  | terminated result bytes at_ accepted =>
      exact ⟨⟨held.1, held.2, held.3, held.4, fun impossible => absurd rfl impossible, held.6⟩, nofun,
        fun holds _ => inv.through holds (by rw [at_]; rfl)⟩

/-! ## Whole calls -/

/-- In every state of a call the bytes written to the child and the bytes
buffered are a prefix of the body, and the buffer keeps its bound.  If no read
of the body and no write to the pipe failed, the stdin pipe is closed only once
the whole body is written, or by the end of a call whose client or `poll` failed. -/
theorem execRunPipe_body_delivered {body : RequestBody} (announced : call.Announces body)
    {rest : List UInt8} {events : List Event} {state : State}
    (run : Machine.exec (step call) (call.start (body.wire ++ rest)) events = some state) :
    state.stdinWritten ++ state.loop.stdinBuf <+: body.content ∧
      state.loop.stdinBuf.length ≤ stdinBufSize ∧
      ((forall event, event ∈ events -> event.bodyFails = false) -> state.loop.stdinFd = false ->
        state.stdinWritten = body.content ∨
          (state.pc = .returned ∧
            Exists fun event => event ∈ events ∧ event.sendOrPollFails = true)) := by
  let strict := forall event, event ∈ events -> event.bodyFails = false
  let clean := forall event, event ∈ events -> event.sendOrPollFails = false
  have member : Machine.AllSteps (step call) (fun _ event => event ∈ events)
      (call.start (body.wire ++ rest)) events :=
    Machine.allSteps_of_forall (fun event => event ∈ events) (fun _ listed => listed)
  have inv : BodyInv strict clean call body.content state :=
    Machine.invariant_exec_of_allSteps
      (fun _ _ _ listed stepped holds =>
        step_bodyInv stepped (fun reads => reads _ listed) (fun sends => sends _ listed) holds)
      run member (start_bodyInv announced rest)
  rcases inv.split with ⟨payload, _, whole⟩
  refine ⟨⟨payload, by rw [List.append_assoc]; exact whole⟩, inv.small, ?_⟩
  intro reads closed
  by_cases returned : state.pc = .returned
  · by_cases sends : clean
    · exact Or.inl (inv.drained reads (inv.through sends (by rw [returned]; rfl)))
    · refine Or.inr ⟨returned, ?_⟩
      by_contra none
      apply sends
      intro event listed
      by_contra fails
      exact none ⟨event, listed, by simpa using fails⟩
  · exact Or.inl (inv.drained reads (inv.fd returned closed))

/-- A call for the two body bytes "ab". -/
def twoBytes : Call := ⟨2, false, true, fun _ => 0⟩

/-- The body of `twoBytes`. -/
def abBody : RequestBody := .sized (ascii "ab") (by decide)

theorem execRunPipe_body_delivered_ab : ascii "a" ++ ascii "b" <+: ascii "ab" :=
  (execRunPipe_body_delivered (show twoBytes.Announces abBody from ⟨rfl, rfl⟩)
    (by decide : Machine.exec (step twoBytes) (twoBytes.start (abBody.wire ++ []))
      [.poll false (.ready true false false false false), .sslRead (.got 2), .waitpid false,
        .poll false (.ready false false true false false), .stdinWrite (.wrote 1)] =
      some ⟨.reap, ⟨.done, 0, [], true, false, true, false, false, false, -1, false, ascii "b", [],
        false, false⟩, .fresh, .fresh, .running, [], [], ascii "a"⟩)).1

/-- The client stops accepting output before it sent its body: the child is
killed and the call returns. -/
def abortedCall : List Event :=
  [.childWrite false (ascii "x"), .poll false (.ready false false false true false), .read 1,
    .waitpid false, .poll false (.ready false true false false false), .sslWrite .failed,
    .childExit (.signaled 9), .waitpid true]

/-- Nothing of the body reached the child, no read of the body and no write to
the pipe failed, and the stdin pipe is closed. -/
theorem execRunPipe_closes_stdin_early :
    (Machine.exec (step twoBytes) (twoBytes.start abBody.wire) abortedCall).map
        (fun state => (state.pc, state.loop.stdinFd, state.stdinWritten)) =
      some (.returned, false, []) ∧
    abortedCall.all (fun event => !event.bodyFails) = true ∧ abBody.content = ascii "ab" := by
  decide

end PipeLoop
end Executor
end AdbBridge
