import AdbBridge.Executor.PipeSteps

namespace AdbBridge
namespace Executor
namespace PipeLoop

open Library Library.Numeral Library.ChunkedCoding

/-!
# Raw output of `exec_run_pipe`

In raw mode every read of stdout is framed as one chunk, but only if the whole
chunk fits behind what the output buffer still holds; otherwise the read bytes
are dropped.  The client's copy is therefore complete exactly when every chunk
found room, which depends on how fast the client drains the buffer.

The invariant carries the list of the chunks framed so far.  Its relation to
the bytes taken from the pipe is a parameter: equality is preserved by the
steps whose chunk fits, and being shorter is preserved by every step.
-/

/-- Raw framing writes a chunk of the chunked coding. -/
theorem rawFrame_of_fits {sseBuf bytes : List UInt8}
    (fits : sseBuf.length + ((formatHex bytes.length).length + 2) + bytes.length + 2 ≤ sseBufSize) :
    rawFrame sseBuf bytes = sseBuf ++ encodeChunk bytes := by
  have condition : sseBuf.length + (formatHex bytes.length ++ [13, 10]).length + bytes.length + 2 ≤
      sseBufSize := by
    simpa only [List.length_append, List.length_cons, List.length_nil] using fits
  rw [rawFrame, if_pos condition, encodeChunk, crlf, List.append_assoc, List.append_assoc]

theorem rawFrame_of_not_fits {sseBuf bytes : List UInt8}
    (full : ¬ sseBuf.length + ((formatHex bytes.length).length + 2) + bytes.length + 2 ≤ sseBufSize) :
    rawFrame sseBuf bytes = sseBuf := by
  have condition : ¬ sseBuf.length + (formatHex bytes.length ++ [13, 10]).length + bytes.length + 2 ≤
      sseBufSize := by
    simpa only [List.length_append, List.length_cons, List.length_nil] using full
  rw [rawFrame, if_neg condition]

/-- The condition on a step: a read of stdout that returns bytes finds room
for their chunk in the output buffer. -/
def ChunkFits (state : State) : Event -> Prop
  | .read count =>
      match state.pc with
      | .readOut _ =>
          count = 0 ∨
            state.loop.sseBuf.length + ((formatHex count).length + 2) + count + 2 ≤ sseBufSize
      | _ => True
  | _ => True

instance (state : State) (event : Event) : Decidable (ChunkFits state event) := by
  unfold ChunkFits
  split
  · split <;> infer_instance
  · infer_instance

/-- The parent is going to read stdout in this iteration. -/
def Pc.readsOut : Pc -> Bool
  | .sslRead ready | .sslWrite ready | .stdinWrite ready => ready.outIn
  | .readOut _ => true
  | _ => false

/-- Where the output of a raw call stands.  `related` compares the content of
the chunks framed so far with the bytes read from stdout so far. -/
structure RawInv (related : List UInt8 -> List UInt8 -> Prop) (state : State) : Prop where
  noError : state.loop.sslError = false
  atEof : state.loop.stdoutDone = true -> state.out.unread = [] ∧ state.out.closed = true
  readable : state.pc.readsOut = true -> state.out.Readable
  through : state.pc.leaving = true -> state.loop.stdoutDone = true ∧ state.loop.sseBuf = []
  framed : Exists fun chunks : List (List UInt8) => Exists fun taken =>
    (forall chunk, chunk ∈ chunks -> chunk ≠ []) ∧ state.out.Delivered taken ∧
      related chunks.flatten taken ∧
      state.delivered ++ state.loop.sseBuf =
        chunks.flatMap encodeChunk ++ (if state.pc = .returned then lastChunk else [])

variable {call : Call} {related : List UInt8 -> List UInt8 -> Prop}

theorem start_rawInv (incoming : List UInt8) (reflexive : related [] []) :
    RawInv related (call.start incoming) where
  noError := rfl
  atEof := fun impossible => absurd impossible (by simp [Call.start, Call.loop])
  readable := fun impossible => absurd impossible (by simp [Call.start, Pc.readsOut])
  through := fun impossible => absurd impossible (by simp [Call.start, Pc.leaving])
  framed := ⟨[], [], by simp, rfl, reflexive, rfl⟩

theorem readsOut_of_inIteration {ready : Ready} {pc : Pc} (within : pc.InIteration ready)
    (reads : pc.readsOut = true) : ready.outIn = true := by
  cases pc with
  | sslRead given => exact within ▸ reads
  | sslWrite given => exact within ▸ reads
  | stdinWrite given => exact within ▸ reads
  | readOut errIn => exact within.1
  | readErr => exact absurd reads (by simp [Pc.readsOut])
  | top => exact absurd within id
  | waitBlocking => exact absurd within id
  | reap => exact absurd within id
  | kill => exact absurd within id
  | flush => exact absurd within id
  | terminate => exact absurd within id
  | returned => exact absurd within id

theorem closeStdin_output (loop : Loop) :
    loop.closeStdin.sslError = loop.sslError ∧ loop.closeStdin.stdoutDone = loop.stdoutDone ∧
      loop.closeStdin.sseBuf = loop.sseBuf := by
  unfold Loop.closeStdin
  split <;> exact ⟨rfl, rfl, rfl⟩

/-- The moves between two system calls of an iteration keep the invariant. -/
theorem RawInv.rest {ready : Ready} {state next : State} (rest : Rest ready state next)
    (inv : RawInv related state) (running : state.pc.leaving = false)
    (readable : ready.outIn = true -> state.out.Readable) : RawInv related next := by
  have notReturned := ne_returned_of_not_leaving running
  rcases inv.framed with ⟨chunks, taken, nonempty, delivered, relation, bytes⟩
  rw [if_neg notReturned] at bytes
  cases rest with
  | next pc wantRead wantWrite within =>
      have stays := not_leaving_of_inIteration within
      refine ⟨inv.noError, inv.atEof, ?_, ?_, chunks, taken, nonempty, delivered, relation, ?_⟩
      · intro reads
        exact readable (readsOut_of_inIteration within reads)
      · intro leaves
        exact absurd leaves (by simp [stays])
      · rw [if_neg (ne_returned_of_not_leaving stays)]
        exact bytes
  | last pc wantRead wantWrite ends =>
      have kept := closeStdin_output state.loop
      have stays : pc.leaving = false ∧ pc.readsOut = false := by
        rcases ends with same | same <;> (subst same; exact ⟨rfl, rfl⟩)
      refine ⟨?_, ?_, ?_, ?_, chunks, taken, nonempty, delivered, relation, ?_⟩
      · exact kept.1.trans inv.noError
      · intro done
        exact inv.atEof (kept.2.1.symm.trans done)
      · intro reads
        exact absurd reads (by simp [stays.2])
      · intro leaves
        exact absurd leaves (by simp [stays.1])
      · rw [if_neg (ne_returned_of_not_leaving stays.1)]
        exact (congrArg (state.delivered ++ ·) kept.2.2).trans bytes

/-- Leaving the loop keeps the invariant, if stdout is at its end and the
output buffer is empty. -/
theorem RawInv.left {state next : State} (left : Left state next) (inv : RawInv related state)
    (notReturned : state.pc ≠ .returned)
    (through : state.loop.stdoutDone = true ∧ state.loop.sseBuf = []) : RawInv related next := by
  rcases inv.framed with ⟨chunks, taken, nonempty, delivered, relation, bytes⟩
  rw [if_neg notReturned] at bytes
  cases left with
  | kill =>
      exact ⟨inv.noError, inv.atEof, fun impossible => absurd impossible (by simp [Pc.readsOut]),
        fun _ => through, chunks, taken, nonempty, delivered, relation, bytes⟩
  | flush noError some => exact absurd through.2 some
  | terminate noError none =>
      exact ⟨inv.noError, inv.atEof, fun impossible => absurd impossible (by simp [Pc.readsOut]),
        fun _ => through, chunks, taken, nonempty, delivered, relation, bytes⟩
  | failed error => exact absurd (inv.noError.symm.trans error) (by decide)

/-- The bytes of a read find room for their chunk behind the buffered output. -/
def HasRoom (sseBuf bytes : List UInt8) : Prop :=
  sseBuf.length + ((formatHex bytes.length).length + 2) + bytes.length + 2 ≤ sseBufSize

/-- A read of stdout in raw mode, with the relation of contents before and
after it.  The position is set to a neutral one, since the parent no longer
waits for stdout. -/
theorem RawInv.readOut {state : State} {pipe : OutputPipe} {bytes : List UInt8} {count : Nat}
    {errIn : Bool} {after : List UInt8 -> List UInt8 -> Prop} (raw : call.raw = true)
    (inv : RawInv related state) (at_ : state.pc = .readOut errIn)
    (got : state.out.read outBufSize count = some (bytes, pipe))
    (none : bytes = [] -> forall content taken, related content taken -> after content taken)
    (kept : HasRoom state.loop.sseBuf bytes ->
      forall content taken, related content taken -> after (content ++ bytes) (taken ++ bytes))
    (lost : bytes ≠ [] -> ¬ HasRoom state.loop.sseBuf bytes ->
      forall content taken, related content taken -> after content (taken ++ bytes)) :
    RawInv after
      { state with pc := .top, out := pipe, loop := state.loop.output call false bytes } := by
  rcases inv.framed with ⟨chunks, taken, nonempty, delivered, relation, wire⟩
  have readable := inv.readable (by rw [at_]; rfl)
  rw [if_neg (by simp [at_])] at wire
  rcases OutputPipe.read_eq_some got with ⟨noBytes, _, empty, same⟩ | ⟨length, positive, _, split, _, _⟩
  · subst noBytes
    subst same
    refine ⟨inv.noError, ?_, nofun, nofun, chunks, taken, nonempty, delivered,
      none rfl _ _ relation, wire⟩
    intro _
    refine ⟨empty, ?_⟩
    rcases readable with some | closed
    · exact absurd empty some
    · exact closed
  · have someBytes : bytes ≠ [] := List.ne_nil_of_length_pos (length ▸ positive)
    have output : state.loop.output call false bytes =
        { state.loop with sseBuf := rawFrame state.loop.sseBuf bytes } := by
      simp only [Loop.output, if_neg someBytes, if_pos raw, Bool.false_eq_true, if_false]
    have notDone : state.loop.stdoutDone = false := by
      apply Bool.eq_false_iff.mpr
      intro done
      have noBytes := (inv.atEof done).1
      rw [split] at noBytes
      exact someBytes (List.append_eq_nil_iff.mp noBytes).1
    have moved := delivered.read got
    rw [output]
    refine ⟨inv.noError, fun done => absurd (notDone.symm.trans done) (by decide), nofun, nofun, ?_⟩
    by_cases room : HasRoom state.loop.sseBuf bytes
    · refine ⟨chunks ++ [bytes], taken ++ bytes, ?_, moved, ?_, ?_⟩
      · intro chunk member
        rcases List.mem_append.mp member with old | new
        · exact nonempty chunk old
        · exact List.mem_singleton.mp new ▸ someBytes
      · rw [List.flatten_append, List.flatten_singleton]
        exact kept room _ _ relation
      · rw [if_neg nofun, rawFrame_of_fits room, List.flatMap_append, ← List.append_assoc, wire,
          List.append_nil, List.append_nil, List.flatMap_cons, List.flatMap_nil, List.append_nil]
    · refine ⟨chunks, taken ++ bytes, nonempty, moved, lost someBytes room _ _ relation, ?_⟩
      rw [rawFrame_of_not_fits room]
      exact wire

/-! ## One step -/

/-- A read returns as many bytes as it reports. -/
theorem length_of_read {pipe next : OutputPipe} {cap count : Nat} {bytes : List UInt8}
    (got : pipe.read cap count = some (bytes, next)) : bytes.length = count := by
  rcases OutputPipe.read_eq_some got with ⟨noBytes, zero, _, _⟩ | ⟨length, _, _, _, _, _⟩
  · rw [noBytes, zero, List.length_nil]
  · exact length

/-- In raw mode a read of stderr leaves the output side alone. -/
theorem output_stderr_of_raw (raw : call.raw = true) (loop : Loop) (bytes : List UInt8) :
    Exists fun stderrDone =>
      loop.output call true bytes = { loop with stderrDone := stderrDone } := by
  by_cases noBytes : bytes = []
  · exact ⟨true, by rw [Loop.output, if_pos noBytes, if_pos rfl]⟩
  · exact ⟨loop.stderrDone, by rw [Loop.output, if_neg noBytes, if_pos raw, if_pos rfl]⟩

/-- Nothing to poll means that stdout is at its end and the output is sent. -/
theorem through_of_pollsNothing {loop : Loop} {pending : Bool}
    (nothing : loop.pollsNothing pending = true) :
    loop.stdoutDone = true ∧ loop.sseBuf = [] := by
  simp only [Loop.pollsNothing, Loop.pollsSsl, Loop.needWrite, Bool.and_eq_true,
    Bool.not_eq_true', Bool.or_eq_false_iff, Bool.not_eq_false'] at nothing
  exact ⟨nothing.1.2, List.isEmpty_iff.mp nothing.1.1.1.1.1.1.2⟩

/-- Without a TLS error the loop condition fails only when all is through. -/
theorem through_of_not_continues {loop : Loop} (noError : loop.sslError = false)
    (ends : loop.continues = false) : loop.stdoutDone = true ∧ loop.sseBuf = [] := by
  simp only [Loop.continues, noError, Bool.not_false, Bool.true_and, Bool.or_eq_false_iff,
    Bool.not_eq_false'] at ends
  exact ⟨ends.1.1.2, List.isEmpty_iff.mp ends.2⟩

/-- A block written by the child is unread after the others. -/
theorem unread_of_write {pipe next : OutputPipe} {block : List UInt8}
    (wrote : pipe.write block = some next) :
    pipe.closed = false ∧ next.unread = pipe.unread ++ block ∧ next.closed = false := by
  unfold OutputPipe.write at wrote
  split at wrote
  · exact absurd wrote (by simp)
  next notClosed =>
    have opened := Bool.eq_false_iff.mpr notClosed
    have same := Option.some.inj wrote
    subst same
    exact ⟨opened, rfl, opened⟩

/-- One step of a raw call in which neither TLS nor `poll` fails keeps the
invariant, if a chunk that is framed fits or the relation admits losses. -/
theorem step_rawInv (raw : call.raw = true)
    (append : forall content taken more, related content taken ->
      related (content ++ more) (taken ++ more))
    {state next : State} {event : Event} (stepped : step call state event = some next)
    (clean : event.sendOrPollFails = false)
    (fits : ChunkFits state event ∨
      forall content taken more, related content taken -> related content (taken ++ more))
    (inv : RawInv related state) : RawInv related next := by
  rcases inv.framed with ⟨chunks, taken, nonempty, delivered, relation, wire⟩
  cases transition_of_step stepped with
  | writeErr block pipe wrote => exact ⟨inv.noError, inv.atEof, inv.readable, inv.through, inv.framed⟩
  | writeOut block pipe wrote =>
      have grown := unread_of_write wrote
      refine ⟨inv.noError, ?_, ?_, inv.through, chunks, taken, nonempty, delivered.write wrote,
        relation, wire⟩
      · intro done
        exact absurd (grown.1.symm.trans (inv.atEof done).2) (by decide)
      · intro reads
        rcases inv.readable reads with some | closed
        · exact Or.inl (by simp [grown.2.1, some])
        · exact absurd (grown.1.symm.trans closed) (by decide)
  | closeErr => exact ⟨inv.noError, inv.atEof, inv.readable, inv.through, inv.framed⟩
  | closeOut =>
      exact ⟨inv.noError, fun done => ⟨(inv.atEof done).1, rfl⟩, fun _ => Or.inr rfl, inv.through,
        chunks, taken, nonempty, delivered, relation, wire⟩
  | exit status running => exact ⟨inv.noError, inv.atEof, inv.readable, inv.through, inv.framed⟩
  | interrupted pending top => exact inv
  | polled pending sslIn sslOut stdinOut outIn errIn _ top outReadable _ rest =>
      exact RawInv.rest rest inv (not_leaving_of_eq top rfl) outReadable
  | pollFailed pending _ top left => exact absurd clean (by simp [Event.sendOrPollFails])
  | ended _ top ends left =>
      exact RawInv.left left inv (ne_returned_of_not_leaving (not_leaving_of_eq top rfl))
        (through_of_not_continues inv.noError ends)
  | idle _ top nothing exited left =>
      exact RawInv.left left inv (ne_returned_of_not_leaving (not_leaving_of_eq top rfl))
        (through_of_pollsNothing nothing)
  | waits top nothing running =>
      rw [if_neg (ne_returned_of_not_leaving (not_leaving_of_eq top rfl))] at wire
      exact ⟨inv.noError, inv.atEof, nofun, fun _ => through_of_pollsNothing nothing, chunks, taken,
        nonempty, delivered, relation, wire⟩
  | sslGot ready count _ at_ positive asked sent rest =>
      rcases accept_eq_withReader call state.loop (state.incoming.take count) with
        ⟨brState, brRemaining, brHdr, bodyEof, stdinBuf, owned⟩
      rw [owned] at rest
      exact RawInv.rest rest ⟨inv.noError, inv.atEof, inv.readable, inv.through, inv.framed⟩
        (not_leaving_of_eq at_ rfl) (fun out => inv.readable (by rw [at_]; exact out))
  | sslWants ready result _ at_ wants rest =>
      exact RawInv.rest rest inv (not_leaving_of_eq at_ rfl)
        (fun out => inv.readable (by rw [at_]; exact out))
  | sslReadFailed ready _ at_ rest =>
      exact RawInv.rest rest ⟨inv.noError, inv.atEof, inv.readable, inv.through, inv.framed⟩
        (not_leaving_of_eq at_ rfl) (fun out => inv.readable (by rw [at_]; exact out))
  | sslWrote ready count _ at_ positive held rest =>
      have running : state.pc.leaving = false := not_leaving_of_eq at_ rfl
      refine RawInv.rest rest ⟨inv.noError, inv.atEof, inv.readable,
        fun leaves => absurd leaves (by simp [running]), chunks, taken, nonempty, delivered,
        relation, ?_⟩ running (fun out => inv.readable (by rw [at_]; exact out))
      rw [List.append_assoc, List.take_append_drop]
      exact wire
  | sslWriteWants ready _ at_ rest =>
      exact RawInv.rest rest inv (not_leaving_of_eq at_ rfl)
        (fun out => inv.readable (by rw [at_]; exact out))
  | sslWriteFailed ready _ at_ left => exact absurd clean (by simp [Event.sendOrPollFails])
  | stdinWrote ready count _ at_ positive held rest =>
      exact RawInv.rest rest ⟨inv.noError, inv.atEof, inv.readable, inv.through, inv.framed⟩
        (not_leaving_of_eq at_ rfl) (fun out => inv.readable (by rw [at_]; exact out))
  | stdinAgain ready _ at_ rest =>
      exact RawInv.rest rest inv (not_leaving_of_eq at_ rfl)
        (fun out => inv.readable (by rw [at_]; exact out))
  | stdinFailed ready _ at_ rest =>
      exact RawInv.rest rest ⟨inv.noError, inv.atEof, inv.readable, inv.through, inv.framed⟩
        (not_leaving_of_eq at_ rfl) (fun out => inv.readable (by rw [at_]; exact out))
  | readOut errIn count bytes pipe _ at_ got rest =>
      refine RawInv.rest rest (inv.readOut raw at_ got ?_ ?_ ?_) rfl nofun
      · exact fun _ _ _ same => same
      · exact fun _ content taken => append content taken bytes
      · intro someBytes full
        rcases fits with room | lossy
        · have length := length_of_read got
          simp only [ChunkFits, at_, ← length] at room
          exact absurd (room.resolve_left (fun none => someBytes (List.length_eq_zero_iff.mp none))) full
        · exact fun content taken => lossy content taken bytes
  | readErr count bytes pipe _ at_ got rest =>
      rcases output_stderr_of_raw raw state.loop bytes with ⟨stderrDone, owned⟩
      rw [owned] at rest
      rw [if_neg (ne_returned_of_not_leaving (not_leaving_of_eq at_ rfl))] at wire
      exact RawInv.rest rest ⟨inv.noError, inv.atEof, nofun, nofun, chunks, taken, nonempty,
        delivered, relation, wire⟩ rfl nofun
  | notReaped at_ =>
      rw [if_neg (ne_returned_of_not_leaving (not_leaving_of_eq at_ rfl))] at wire
      exact ⟨inv.noError, inv.atEof, nofun, nofun, chunks, taken, nonempty, delivered, relation, wire⟩
  | reaps status at_ zombie =>
      rw [if_neg (ne_returned_of_not_leaving (not_leaving_of_eq at_ rfl))] at wire
      exact ⟨inv.noError, inv.atEof, nofun, nofun, chunks, taken, nonempty, delivered, relation, wire⟩
  | waitFailed _ at_ left =>
      exact RawInv.left left inv (by simp [at_]) (inv.through (by rw [at_]; rfl))
  | waitReaps status _ at_ zombie left =>
      exact RawInv.left left ⟨inv.noError, inv.atEof, inv.readable, inv.through, inv.framed⟩
        (by simp [State.reaped, at_]) (inv.through (by rw [at_]; rfl))
  | killUnreaped _ at_ left =>
      exact RawInv.left left ⟨inv.noError, inv.atEof, inv.readable, inv.through, inv.framed⟩
        (by simp [at_]) (inv.through (by rw [at_]; rfl))
  | killReaps status _ at_ zombie left =>
      exact RawInv.left left ⟨inv.noError, inv.atEof, inv.readable, inv.through, inv.framed⟩
        (by simp [at_]) (inv.through (by rw [at_]; rfl))
  | flushed result bytes at_ accepted =>
      have through := inv.through (by rw [at_]; rfl)
      cases result with
      | cut count => exact absurd clean (by simp [Event.sendOrPollFails])
      | all =>
          have sent : state.loop.sseBuf = bytes := Option.some.inj accepted
          rw [if_neg (by simp [at_])] at wire
          refine ⟨inv.noError, inv.atEof, nofun, fun _ => ⟨through.1, rfl⟩, chunks, taken, nonempty,
            delivered, relation, ?_⟩
          rw [List.append_nil, ← sent]
          exact wire
  | terminated result bytes at_ accepted =>
      have through := inv.through (by rw [at_]; rfl)
      cases result with
      | cut count => exact absurd clean (by simp [Event.sendOrPollFails])
      | all =>
          have sent : termination call state.loop.exitCode = bytes := Option.some.inj accepted
          rw [if_neg (by simp [at_]), through.2, List.append_nil, List.append_nil] at wire
          rw [termination, if_pos raw] at sent
          refine ⟨inv.noError, inv.atEof, nofun, fun _ => through, chunks, taken, nonempty,
            delivered, relation, ?_⟩
          change state.delivered ++ bytes ++ state.loop.sseBuf = chunks.flatMap encodeChunk ++ lastChunk
          rw [through.2, List.append_nil, ← sent, wire]

/-! ## Whole calls -/

/-- The client of a returned raw call decodes the content of its chunks. -/
theorem RawInv.decode {state : State} (inv : RawInv related state) (returned : state.pc = .returned) :
    Exists fun content =>
      decodeBody state.delivered = some content ∧ related content state.out.written := by
  rcases inv.framed with ⟨chunks, taken, nonempty, delivered, relation, wire⟩
  have through := inv.through (by rw [returned]; rfl)
  rw [through.2, List.append_nil, if_pos returned] at wire
  refine ⟨chunks.flatten, ?_, ?_⟩
  · rw [wire, decodeBody_encode chunks nonempty]
  · rw [delivered.eq_written (inv.atEof through.1).1]
    exact relation

/-- If every chunk finds room, the client receives what the child wrote. -/
theorem raw_complete (raw : call.raw = true) {incoming : List UInt8} {events : List Event}
    {final : State} (run : Machine.exec (step call) (call.start incoming) events = some final)
    (returned : final.pc = .returned)
    (clean : forall event, event ∈ events -> event.sendOrPollFails = false)
    (fits : Machine.AllSteps (step call) ChunkFits (call.start incoming) events) :
    decodeBody final.delivered = some final.out.written := by
  have inv : RawInv Eq final := Machine.invariant_exec_of_allSteps
    (fun _ _ _ both stepped holds => step_rawInv raw
      (fun _ _ more same => congrArg (· ++ more) same) stepped both.2 (Or.inl both.1) holds)
    run (fits.and (Machine.allSteps_of_forall (fun event => Event.sendOrPollFails event = false) clean))
    (start_rawInv incoming rfl)
  rcases inv.decode returned with ⟨content, decoded, same⟩
  exact same ▸ decoded

/-- A relation between contents that a loss keeps survives any run. -/
theorem raw_lossy (raw : call.raw = true)
    (append : forall content taken more, related content taken ->
      related (content ++ more) (taken ++ more))
    (lossy : forall content taken more, related content taken -> related content (taken ++ more))
    {state final : State} {events : List Event}
    (run : Machine.exec (step call) state events = some final)
    (clean : forall event, event ∈ events -> event.sendOrPollFails = false)
    (inv : RawInv related state) : RawInv related final :=
  Machine.invariant_exec_of_allSteps
    (fun _ _ _ fine stepped holds => step_rawInv raw append stepped fine (Or.inr lossy) holds)
    run (Machine.allSteps_of_forall (fun event => Event.sendOrPollFails event = false) clean) inv

/-- A read whose chunk finds no room turns a content that was no longer than
the bytes read into one that is shorter. -/
theorem step_drops (raw : call.raw = true) {state next : State} {event : Event}
    (stepped : step call state event = some next) (dropped : ¬ ChunkFits state event)
    (inv : RawInv (fun content taken => content.length ≤ taken.length) state) :
    RawInv (fun content taken => content.length < taken.length) next := by
  cases transition_of_step stepped with
  | readOut errIn count bytes pipe _ at_ got rest =>
      have length := length_of_read got
      simp only [ChunkFits, at_, ← length, not_or] at dropped
      refine RawInv.rest rest (inv.readOut raw at_ got ?_ ?_ ?_) rfl nofun
      · intro none
        exact absurd (List.length_eq_zero_iff.mpr none) dropped.1
      · intro room
        exact absurd room dropped.2
      · intro someBytes _ content taken shorter
        have positive := List.length_pos_iff.mpr someBytes
        rw [List.length_append]
        exact Nat.lt_of_le_of_lt shorter (Nat.lt_add_of_pos_right positive)
  | readErr count bytes pipe _ at_ got rest =>
      simp only [ChunkFits, at_, not_true_eq_false] at dropped
  | _ => exact absurd trivial dropped

/-- A raw call that returns without a failure of TLS or `poll` has sent a
complete chunked body whose content is exactly what the child wrote to stdout
if and only if every read of stdout found room for its chunk. -/
theorem execRunPipe_raw_lossless_iff (raw : call.raw = true) {incoming : List UInt8}
    {events : List Event} {final : State}
    (run : Machine.exec (step call) (call.start incoming) events = some final)
    (returned : final.pc = .returned)
    (clean : forall event, event ∈ events -> event.sendOrPollFails = false) :
    decodeBody final.delivered = some final.out.written ↔
      Machine.AllSteps (step call) ChunkFits (call.start incoming) events := by
  constructor
  · intro complete
    by_contra missed
    rcases Machine.exists_step_of_not_allSteps run missed with
      ⟨before, event, after, middle, next, split, reached, dropped, stepped, rest⟩
    have cleanBefore : forall event, event ∈ before -> event.sendOrPollFails = false :=
      fun event member => clean event (by rw [split]; exact List.mem_append_left _ member)
    have cleanAfter : forall event, event ∈ after -> event.sendOrPollFails = false :=
      fun event member => clean event (by
        rw [split]
        exact List.mem_append_right _ (List.mem_cons_of_mem _ member))
    have upTo : RawInv (fun content taken => content.length ≤ taken.length) middle :=
      raw_lossy raw (fun _ _ _ le => by simp [le]) (fun _ _ _ le => by rw [List.length_append]; omega)
        reached cleanBefore (start_rawInv incoming (Nat.le_refl 0))
    have shorter : RawInv (fun content taken => content.length < taken.length) final :=
      raw_lossy raw (fun _ _ _ lt => by simp [lt]) (fun _ _ _ lt => by rw [List.length_append]; omega)
        rest cleanAfter (step_drops raw stepped dropped upTo)
    rcases shorter.decode returned with ⟨content, decoded, short⟩
    have same := Option.some.inj (decoded.symm.trans complete)
    rw [same] at short
    exact Nat.lt_irrefl _ short
  · exact raw_complete raw run returned clean

/-- A raw call without a request body. -/
def rawCall : Call := ⟨0, false, true, fun _ => 0⟩

theorem execRunPipe_raw_lossless_iff_hi :
    decodeBody (ascii "2\r\nhi\r\n0\r\n\r\n") = some (ascii "hi") :=
  (execRunPipe_raw_lossless_iff rfl
    (by decide : Machine.exec (step rawCall) (rawCall.start [])
      [.childWrite false (ascii "hi"), .poll false (.ready false false false true false), .read 2,
        .waitpid false, .childExit (.exited 0), .childClose false, .childClose true,
        .poll false (.ready false true false true true), .sslWrite (.wrote 7), .read 0, .read 0,
        .waitpid true, .leave, .finalWrite .all] =
      some ⟨.returned, ⟨.done, 0, [], true, true, false, true, true, true, 0, false, [], [], false, false⟩,
        ⟨[], ascii "hi", true⟩, ⟨[], [], true⟩, .reaped, [], ascii "2\r\nhi\r\n0\r\n\r\n", []⟩)
    rfl (by decide)).mpr (by decide)

/-- The raw call at the head of its loop, with the child running and every
byte the child wrote so far read. -/
def drained (sseBuf written : List UInt8) : State :=
  { rawCall.start [] with
    loop := { rawCall.loop with sseBuf := sseBuf }
    out := ⟨[], written, false⟩ }

/-- A round in which the client accepts nothing: the child writes a block and
the parent reads it. -/
def blockedRound (block : List UInt8) : List Event :=
  [.childWrite false block, .poll false (.ready false false false true false), .read block.length,
    .waitpid false]

theorem blockedRound_exec (sseBuf written : List UInt8) {block : List UInt8} (someBytes : block ≠ [])
    (small : block.length ≤ outBufSize) :
    Machine.exec (step rawCall) (drained sseBuf written) (blockedRound block) =
      some (drained (rawFrame sseBuf block) (written ++ block)) := by
  have notZero : block.length ≠ 0 := fun none => someBytes (List.length_eq_zero_iff.mp none)
  have wrote : step rawCall (drained sseBuf written) (.childWrite false block) =
      some { drained sseBuf written with out := ⟨block, written ++ block, false⟩ } := by
    simp [step, childStep, drained, OutputPipe.write]
  have polled : step rawCall { drained sseBuf written with out := ⟨block, written ++ block, false⟩ }
      (.poll false (.ready false false false true false)) =
      some { drained sseBuf written with out := ⟨block, written ++ block, false⟩, pc := .readOut false } := by
    simp [step, topStep, drained, rawCall, Call.start, Call.loop, Call.brState, Loop.continues,
      Loop.pollsNothing, State.ready, OutputPipe.Readable, someBytes, State.afterPoll,
      State.afterSslRead, State.afterSslWrite, State.afterStdinWrite]
  have read : step rawCall
      { drained sseBuf written with out := ⟨block, written ++ block, false⟩, pc := .readOut false }
      (.read block.length) =
      some { drained (rawFrame sseBuf block) (written ++ block) with pc := .reap } := by
    simp [step, drained, OutputPipe.read, notZero, small, Loop.output, someBytes, rawCall,
      State.afterReads, Loop.closeStdin, Call.start, Call.loop, Call.brState]
  have waited : step rawCall { drained (rawFrame sseBuf block) (written ++ block) with pc := .reap }
      (.waitpid false) = some (drained (rawFrame sseBuf block) (written ++ block)) := by
    simp [step, waitpidStep, drained, Call.start]
  rw [blockedRound, Machine.exec_cons_of_step wrote, Machine.exec_cons_of_step polled,
    Machine.exec_cons_of_step read, Machine.exec_cons_of_step waited, Machine.exec_nil]

/-- The rest of the call: the child exits, the client drains the buffer at last
and both outputs reach their end. -/
def lateDrain (buffered : Nat) : List Event :=
  [.childExit (.exited 0), .childClose false, .childClose true,
    .poll false (.ready false true false true true), .sslWrite (.wrote buffered), .read 0, .read 0,
    .waitpid true, .leave, .finalWrite .all]

theorem lateDrain_exec {sseBuf : List UInt8} (written : List UInt8) (someBytes : sseBuf ≠ []) :
    Machine.exec (step rawCall) (drained sseBuf written) (lateDrain sseBuf.length) =
      some ⟨.returned, ⟨.done, 0, [], true, true, false, true, true, true, 0, false, [], [], false, false⟩,
        ⟨[], written, true⟩, ⟨[], [], true⟩, .reaped, [], sseBuf ++ lastChunk, []⟩ := by
  have notZero : 0 < sseBuf.length := List.length_pos_iff.mpr someBytes
  let exited : State := { drained sseBuf written with
    child := .zombie (.exited 0), out := ⟨[], written, true⟩, err := ⟨[], [], true⟩ }
  let emptied : State := { exited with
    loop := { exited.loop with sseBuf := [] }, delivered := sseBuf, pc := .readOut true }
  have ended : Machine.exec (step rawCall) (drained sseBuf written)
      [.childExit (.exited 0), .childClose false, .childClose true] = some exited := rfl
  have polled : step rawCall exited (.poll false (.ready false true false true true)) =
      some { exited with pc := .sslWrite ⟨true, false, true, false, true, true⟩ } := by
    simp [exited, step, topStep, drained, rawCall, Call.start, Call.loop, Call.brState, Loop.continues,
      Loop.pollsNothing, Loop.pollsSsl, Loop.needWrite, State.ready, OutputPipe.Readable, someBytes,
      State.afterPoll, State.afterSslRead]
  have accepted : step rawCall { exited with pc := .sslWrite ⟨true, false, true, false, true, true⟩ }
      (.sslWrite (.wrote sseBuf.length)) = some emptied := by
    have all : 0 < sseBuf.length ∧ sseBuf.length ≤ exited.loop.sseBuf.length := ⟨notZero, Nat.le_refl _⟩
    simp only [step]
    rw [sslWriteStep, if_pos all]
    simp [exited, emptied, drained, rawCall, Call.start, State.afterSslWrite, State.afterStdinWrite]
  have left : Machine.exec (step rawCall) emptied [.read 0, .read 0, .waitpid true, .leave, .finalWrite .all] =
      some ⟨.returned, ⟨.done, 0, [], true, true, false, true, true, true, 0, false, [], [], false, false⟩,
        ⟨[], written, true⟩, ⟨[], [], true⟩, .reaped, [], sseBuf ++ lastChunk, []⟩ := rfl
  have parts : lateDrain sseBuf.length = [.childExit (.exited 0), .childClose false, .childClose true] ++
      .poll false (.ready false true false true true) :: .sslWrite (.wrote sseBuf.length) ::
        [.read 0, .read 0, .waitpid true, .leave, .finalWrite .all] := rfl
  rw [parts, Machine.exec_append, ended, Option.bind_some, Machine.exec_cons_of_step polled,
    Machine.exec_cons_of_step accepted, left]

/-- Two full reads while the client accepts nothing: the chunk of the second
one does not fit behind the first, and the client gets the first block only. -/
theorem execRunPipe_raw_drops_block : Exists fun final =>
    Machine.exec (step rawCall) (rawCall.start [])
      (blockedRound (List.replicate 65536 97) ++ (blockedRound (List.replicate 65536 98) ++
        lateDrain 65545)) = some final ∧
      final.pc = .returned ∧
      (forall event, event ∈ blockedRound (List.replicate 65536 97) ++
        (blockedRound (List.replicate 65536 98) ++ lateDrain 65545) ->
          event.sendOrPollFails = false) ∧
      final.out.written = List.replicate 65536 97 ++ List.replicate 65536 98 ∧
      decodeBody final.delivered = some (List.replicate 65536 97) ∧
      decodeBody final.delivered ≠ some final.out.written := by
  generalize firstBlock : (List.replicate 65536 97 : List UInt8) = first
  generalize secondBlock : (List.replicate 65536 98 : List UInt8) = second
  have firstLength : first.length = 65536 := by rw [← firstBlock, List.length_replicate]
  have secondLength : second.length = 65536 := by rw [← secondBlock, List.length_replicate]
  have someFirst : first ≠ [] := List.ne_nil_of_length_pos (by omega)
  have someSecond : second ≠ [] := List.ne_nil_of_length_pos (by omega)
  have header : (formatHex 65536).length = 5 := by decide
  have framed : rawFrame [] first = encodeChunk first := by
    rw [rawFrame_of_fits (by rw [firstLength, header]; decide), List.nil_append]
  have buffered : (encodeChunk first).length = 65545 := by
    rw [length_encodeChunk, firstLength, header]
  have dropped : rawFrame (encodeChunk first) second = encodeChunk first :=
    rawFrame_of_not_fits (by rw [buffered, secondLength, header]; decide)
  have someChunk : encodeChunk first ≠ [] := List.ne_nil_of_length_pos (by omega)
  have decoded : decodeBody (encodeChunk first ++ lastChunk) = some first := by
    have plain := decodeBody_encode [first] (by simp [someFirst])
    simpa using plain
  have start : rawCall.start [] = drained [] [] := rfl
  have ran : Machine.exec (step rawCall) (rawCall.start [])
      (blockedRound first ++ (blockedRound second ++ lateDrain 65545)) =
      some ⟨.returned, ⟨.done, 0, [], true, true, false, true, true, true, 0, false, [], [], false, false⟩,
        ⟨[], first ++ second, true⟩, ⟨[], [], true⟩, .reaped, [], encodeChunk first ++ lastChunk, []⟩ := by
    rw [Machine.exec_append, start, blockedRound_exec [] [] someFirst (by rw [firstLength]; decide),
      Option.bind_some, Machine.exec_append, framed, List.nil_append,
      blockedRound_exec (encodeChunk first) first someSecond (by rw [secondLength]; decide),
      Option.bind_some, dropped, ← buffered]
    exact lateDrain_exec (first ++ second) someChunk
  refine ⟨_, ran, rfl, ?_, rfl, decoded, ?_⟩
  · simp [blockedRound, lateDrain, Event.sendOrPollFails]
  · intro same
    have lengths := congrArg List.length (Option.some.inj (decoded.symm.trans same))
    rw [List.length_append] at lengths
    omega

end PipeLoop
end Executor
end AdbBridge
