import AdbBridge.Library.Region
import AdbBridge.Server.Client

namespace AdbBridge
namespace Server

open Library Library.Numeral

/-!
# The two read loops in their buffers

`read_until_crnlcrnl` and `read_body` store what they read into arrays of
`REQUEST_BUF` bytes.  Here the arrays are explicit and a store outside of one is
`none`.  Both loops refine the functions on byte lists by which the rest of the
server is modelled, and together they cut the stream: the first takes the header
block and the second the body, and neither takes a byte more.
-/

/-! ## The loops on the arrays -/

/-- `read_until_crnlcrnl` with `*len` bytes in the array: the array, the length
and the connection afterwards, or the result -1. -/
def readUntilInto : List Nat -> List UInt8 -> Region requestBuf -> Nat ->
    Option (Option (Region requestBuf × Nat × Tls))
  | [], _, _, _ => some none
  | answer :: answers, incoming, buf, len =>
      if len < requestBuf - 1 then
        match sslRead answer 1 incoming with
        | none => some none
        | some (bytes, rest) => do
            let buf ← buf.write len bytes
            let buf ← buf.write (len + 1) [0]
            if 4 ≤ len + 1 ∧ (buf.bytes.drop (len + 1 - 4)).take 4 = ascii "\r\n\r\n" then
              some (some (buf, len + 1, ⟨rest, answers⟩))
            else readUntilInto answers rest buf (len + 1)
      else some none

/-- The loop of `read_body` with `*len` bytes in the array.  `SSL_read` is given
the room for all that is still wanted, which must lie in the array. -/
def receiveInto (contentLength : Nat) : List Nat -> List UInt8 -> Region requestBuf -> Nat ->
    Option (Region requestBuf × Nat × Tls)
  | [], incoming, buf, len => some (buf, len, ⟨incoming, []⟩)
  | answer :: answers, incoming, buf, len =>
      if len < contentLength then
        if len + (contentLength - len) ≤ requestBuf then
          match sslRead answer (contentLength - len) incoming with
          | none => some (buf, len, ⟨incoming, answers⟩)
          | some (bytes, rest) => do
              let buf ← buf.write len bytes
              receiveInto contentLength answers rest buf (len + bytes.length)
        else none
      else some (buf, len, ⟨incoming, answer :: answers⟩)

/-- `read_body` on the array. -/
def readBodyInto (tls : Tls) (contentLength : Int) (buf : Region requestBuf) :
    Option (Region requestBuf × Nat × Tls) :=
  if contentLength ≤ 0 then some (buf, 0, tls)
  else do
    let limit := if (requestBuf : Int) ≤ contentLength then requestBuf - 1 else contentLength.toNat
    let (buf, len, tls) ← receiveInto limit tls.answers tls.incoming buf 0
    let buf ← buf.write len [0]
    return (buf, len, tls)

/-! ## The arrays hold what the byte lists say -/

variable {answers : List Nat} {incoming held bytes rest text : List UInt8} {buf : Region requestBuf}

/-- A successful read takes at least one byte and at most what was asked for from
the front of the stream. -/
theorem sslRead_eq_some {answer cap : Nat} (read : sslRead answer cap incoming = some (bytes, rest)) :
    incoming = bytes ++ rest ∧ 0 < bytes.length ∧ bytes.length ≤ cap := by
  have bounded := length_sslRead_le read
  unfold sslRead at read
  dsimp only at read
  split at read
  · exact absurd read nofun
  next some =>
    have parts := Prod.mk.inj (Option.some.inj read)
    refine ⟨?_, ?_, bounded⟩
    · rw [← parts.1, ← parts.2, List.take_append_drop]
    · rw [← parts.1, List.length_take]
      omega

/-- The array holds a text, behind it the terminator. -/
def Holds : Option (List UInt8 × Tls) -> Option (Region requestBuf × Nat × Tls) -> Prop
  | none, none => True
  | some (text, tls), some (buf, len, after) =>
      len = text.length ∧ after = tls ∧ text ++ [0] <+: buf.bytes
  | _, _ => False

/-- The comparison of the last four bytes in the array. -/
theorem memcmp_iff {memory pattern : List UInt8} (begins : text <+: memory) (size : pattern.length = 4) :
    (4 ≤ text.length ∧ (memory.drop (text.length - 4)).take 4 = pattern) ↔
      pattern.isSuffixOf text = true := by
  rcases begins with ⟨more, whole⟩
  rw [List.isSuffixOf_iff_suffix, ← whole]
  constructor
  · rintro ⟨long, same⟩
    have last : (text.drop (text.length - 4)).length = 4 := by
      rw [List.length_drop]
      omega
    rw [List.drop_append_of_le_length (by omega), List.take_append_of_le_length (by omega),
      List.take_of_length_le (by omega)] at same
    rw [← same]
    exact List.drop_suffix _ _
  · intro ends
    have long := ends.length_le
    have last := (List.suffix_iff_eq_drop.mp ends).symm
    rw [size] at last
    refine ⟨by omega, ?_⟩
    rw [List.drop_append_of_le_length (by omega), last, List.take_append_of_le_length (by omega),
      List.take_of_length_le (by omega)]

/-- `read_until_crnlcrnl` keeps to its array and reads what the byte lists say. -/
theorem readUntilInto_refines (answers : List Nat) (incoming : List UInt8) (begins : held <+: buf.bytes) :
    Exists fun result => readUntilInto answers incoming buf held.length = some result ∧
      Holds (readUntilCrnlcrnl answers incoming held) result := by
  induction answers generalizing incoming held buf with
  | nil => exact ⟨none, rfl, trivial⟩
  | cons answer answers inductionHypothesis =>
      rw [readUntilInto, readUntilCrnlcrnl]
      by_cases room : held.length < requestBuf - 1
      · rw [if_pos room, if_pos room]
        cases read : sslRead answer 1 incoming with
        | none => exact ⟨none, rfl, trivial⟩
        | some result =>
            rcases result with ⟨bytes, rest⟩
            rcases sslRead_eq_some read with ⟨_, some, one⟩
            have grown : (held ++ bytes).length = held.length + 1 := by
              rw [List.length_append]
              omega
            rcases Region.write_begins begins (by omega : held.length + bytes.length ≤ requestBuf) with
              ⟨stored, isStored, holdsBytes⟩
            have closes : (held ++ bytes).length + [(0 : UInt8)].length ≤ requestBuf := by
              rw [grown, List.length_singleton]
              omega
            rcases Region.write_begins holdsBytes closes with ⟨closed, isClosed, holdsZero⟩
            rw [grown] at isClosed
            simp only [isStored, isClosed, Option.bind_eq_bind, Option.bind_some]
            have compared := memcmp_iff ((List.prefix_append _ _).trans holdsZero)
              (rfl : (ascii "\r\n\r\n").length = 4)
            rw [grown] at compared
            by_cases ends : (ascii "\r\n\r\n").isSuffixOf (held ++ bytes) = true
            · rw [if_pos (compared.mpr ends), if_pos ends]
              exact ⟨_, rfl, grown.symm, rfl, holdsZero⟩
            · rw [if_neg (fun same => ends (compared.mp same)), if_neg ends, ← grown]
              exact inductionHypothesis rest ((List.prefix_append _ _).trans holdsZero)
      · rw [if_neg room, if_neg room]
        exact ⟨none, rfl, trivial⟩

/-- `read_body` keeps to its array and reads what the byte lists say. -/
theorem receiveInto_refines (answers : List Nat) (incoming : List UInt8) {want : Nat}
    (begins : held <+: buf.bytes) (inside : held.length + want ≤ requestBuf) :
    Exists fun after => receiveInto (held.length + want) answers incoming buf held.length =
        some (after, held.length + (receive answers incoming want).1.length,
          (receive answers incoming want).2) ∧
      held ++ (receive answers incoming want).1 <+: after.bytes := by
  induction answers generalizing incoming held buf want with
  | nil =>
      have nothing : receive [] incoming want = ([], ⟨incoming, []⟩) := by cases want <;> rfl
      rw [nothing, receiveInto, List.append_nil]
      exact ⟨buf, rfl, begins⟩
  | cons answer answers inductionHypothesis =>
      rw [receiveInto]
      cases want with
      | zero =>
          rw [if_neg (by omega), receive, List.append_nil]
          exact ⟨buf, rfl, begins⟩
      | succ want =>
          rw [if_pos (by omega), if_pos (by omega), Nat.add_sub_cancel_left, receive]
          cases read : sslRead answer (want + 1) incoming with
          | none =>
              dsimp only
              rw [List.append_nil]
              exact ⟨buf, rfl, begins⟩
          | some result =>
              rcases result with ⟨bytes, rest⟩
              rcases sslRead_eq_some read with ⟨_, _, most⟩
              rcases Region.write_begins begins (by omega : held.length + bytes.length ≤ requestBuf) with
                ⟨stored, isStored, holdsBytes⟩
              have shifted : held.length + (want + 1) = (held ++ bytes).length + (want + 1 - bytes.length) := by
                rw [List.length_append]
                omega
              rcases inductionHypothesis rest holdsBytes (shifted ▸ inside) with
                ⟨after, isAfter, holdsAll⟩
              rw [← shifted, List.length_append] at isAfter
              simp only [isStored, Option.bind_eq_bind, Option.bind_some]
              refine ⟨after, ?_, ?_⟩
              · rw [isAfter, List.length_append, Nat.add_assoc]
              · rw [← List.append_assoc]
                exact holdsAll

/-! ## What is cut off the stream -/

/-- A read gets at least one byte as long as there are any, and the connection
answers as often as there are bytes. -/
def Tls.Delivers (tls : Tls) : Prop :=
  (forall answer, answer ∈ tls.answers -> 0 < answer) ∧ tls.incoming.length ≤ tls.answers.length

/-- The shortest prefix of a stream that ends in an empty line. -/
structure HeaderBlock (stream block : List UInt8) : Prop where
  isPrefix : block <+: stream
  ends : ascii "\r\n\r\n" <:+ block
  shortest : forall other, other <+: stream -> ascii "\r\n\r\n" <:+ other -> block.length ≤ other.length

theorem Tls.Delivers.tail {answer : Nat} (delivers : Tls.Delivers ⟨bytes ++ rest, answer :: answers⟩)
    (some : 0 < bytes.length) : Tls.Delivers ⟨rest, answers⟩ := by
  have enough := delivers.2
  simp only [List.length_append, List.length_cons] at enough
  exact ⟨fun other member => delivers.1 other (List.mem_cons_of_mem _ member), by
    dsimp only
    omega⟩

/-- A call gets bytes if there are any. -/
theorem sslRead_of_positive {answer cap : Nat} (positive : 0 < answer) (room : 0 < cap)
    (more : incoming ≠ []) : Exists fun bytes => Exists fun rest =>
      sslRead answer cap incoming = some (bytes, rest) := by
  have available := List.length_pos_iff.mpr more
  refine ⟨_, _, if_neg ?_⟩
  omega

theorem sslRead_nil (answer cap : Nat) : sslRead answer cap [] = none :=
  if_pos (by rw [List.length_nil]; omega)

/-- The body loop gets as many bytes as it wants or as there are. -/
theorem receive_of_delivers (want : Nat) (delivers : Tls.Delivers ⟨incoming, answers⟩) :
    (receive answers incoming want).1 = incoming.take want ∧
      (receive answers incoming want).2.incoming = incoming.drop want := by
  induction answers generalizing incoming want with
  | nil =>
      have empty : incoming = [] := List.length_eq_zero_iff.mp (Nat.le_zero.mp delivers.2)
      subst empty
      cases want <;> exact ⟨rfl, rfl⟩
  | cons answer answers inductionHypothesis =>
      cases want with
      | zero => exact ⟨rfl, rfl⟩
      | succ want =>
          rw [receive]
          by_cases more : incoming = []
          · subst more
            rw [sslRead_nil]
            exact ⟨rfl, rfl⟩
          · rcases sslRead_of_positive (delivers.1 answer List.mem_cons_self) (Nat.succ_pos want) more with
              ⟨bytes, rest, read⟩
            rcases sslRead_eq_some read with ⟨whole, some, most⟩
            subst whole
            have later := inductionHypothesis (want + 1 - bytes.length) (delivers.tail some)
            rw [read]
            dsimp only
            rw [later.1, later.2, List.take_append, List.drop_append, List.take_of_length_le most,
              List.drop_eq_nil_of_le most, List.nil_append]
            exact ⟨rfl, rfl⟩

/-- A block that was read ends where the first empty line does. -/
theorem readUntilCrnlcrnl_sound {block : List UInt8} {after : Tls}
    (delivers : Tls.Delivers ⟨incoming, answers⟩)
    (read : readUntilCrnlcrnl answers incoming held = some (block, after)) :
    Exists fun taken => block = held ++ taken ∧ incoming = taken ++ after.incoming ∧
      ascii "\r\n\r\n" <:+ block ∧ block.length ≤ requestBuf - 1 ∧ after.Delivers ∧
      forall shorter, shorter <+: taken -> shorter ≠ [] -> ascii "\r\n\r\n" <:+ held ++ shorter ->
        shorter = taken := by
  induction answers generalizing incoming held with
  | nil => cases read
  | cons answer answers inductionHypothesis =>
      rw [readUntilCrnlcrnl] at read
      split at read
      next room =>
        split at read
        · cases read
        next bytes rest got =>
          rcases sslRead_eq_some got with ⟨whole, some, one⟩
          rcases List.length_eq_one_iff.mp (Nat.le_antisymm one some) with ⟨byte, single⟩
          subst whole single
          have later := delivers.tail some
          split at read
          next ends =>
            have parts := Prod.mk.inj (Option.some.inj read)
            rw [← parts.1, ← parts.2]
            refine ⟨[byte], rfl, rfl, List.isSuffixOf_iff_suffix.mp ends, ?_, later, ?_⟩
            · rw [List.length_append, List.length_singleton]
              omega
            · intro shorter isPrefix some _
              exact (List.prefix_cons_iff.mp isPrefix).resolve_left some |>.elim
                (fun rest found => by rw [found.1, List.prefix_nil.mp found.2])
          next goesOn =>
            rcases inductionHypothesis later read with ⟨taken, isBlock, rest_eq, ends, fits, remains, first⟩
            refine ⟨byte :: taken, by rw [isBlock, List.append_assoc]; rfl,
              by rw [List.singleton_append, List.cons_append, rest_eq], ends, fits, remains, ?_⟩
            intro shorter isPrefix some endsShorter
            rcases (List.prefix_cons_iff.mp isPrefix).resolve_left some with ⟨more, same, isPrefixMore⟩
            subst same
            by_cases none : more = []
            · subst none
              exact absurd (List.isSuffixOf_iff_suffix.mpr endsShorter) goesOn
            · rw [first more isPrefixMore none (by
                rw [List.append_assoc]
                exact endsShorter)]
      · cases read

/-- The block that ends with the first empty line is read if it fits. -/
theorem readUntilCrnlcrnl_complete {taken : List UInt8}
    (delivers : Tls.Delivers ⟨taken ++ rest, answers⟩) (some : taken ≠ [])
    (ends : ascii "\r\n\r\n" <:+ held ++ taken) (fits : (held ++ taken).length ≤ requestBuf - 1)
    (first : forall shorter, shorter <+: taken -> shorter ≠ [] ->
      ascii "\r\n\r\n" <:+ held ++ shorter -> shorter = taken) :
    Exists fun after =>
      readUntilCrnlcrnl answers (taken ++ rest) held = Option.some (held ++ taken, after) := by
  induction answers generalizing taken held with
  | nil =>
      have bounded := delivers.2
      rw [List.length_nil, List.length_append] at bounded
      exact absurd (List.length_eq_zero_iff.mp (by omega)) some
  | cons answer answers inductionHypothesis =>
      cases taken with
      | nil => exact absurd rfl some
      | cons byte taken =>
          have positive := delivers.1 answer List.mem_cons_self
          have one : sslRead answer 1 (byte :: taken ++ rest) = Option.some ([byte], taken ++ rest) := by
            rw [sslRead, List.cons_append, List.length_cons,
              show min answer (min 1 ((taken ++ rest).length + 1)) = 1 by omega]
            rfl
          have front : Tls.Delivers ⟨[byte] ++ (taken ++ rest), answer :: answers⟩ := delivers
          have later := front.tail Nat.one_pos
          rw [List.length_append, List.length_cons] at fits
          rw [readUntilCrnlcrnl, if_pos (by omega), one]
          dsimp only
          have assoc : held ++ byte :: taken = held ++ [byte] ++ taken := by
            rw [List.append_assoc]
            rfl
          by_cases now : (ascii "\r\n\r\n").isSuffixOf (held ++ [byte]) = true
          · have last := first [byte] ⟨taken, rfl⟩ (List.cons_ne_nil _ _) (List.isSuffixOf_iff_suffix.mp now)
            rw [if_pos now, assoc, (List.cons.inj last).2.symm, List.append_nil]
            exact ⟨_, rfl⟩
          · rw [if_neg now, assoc]
            rw [assoc] at ends
            have goesOn : taken ≠ [] := by
              intro none
              rw [none, List.append_nil] at ends
              exact now (List.isSuffixOf_iff_suffix.mpr ends)
            refine inductionHypothesis later goesOn ends (by
              rw [List.length_append, List.length_append, List.length_singleton]
              omega) ?_
            intro shorter isPrefix more endsShorter
            have extended := first (byte :: shorter) (List.cons_prefix_cons.mpr ⟨rfl, isPrefix⟩)
              (List.cons_ne_nil _ _) (by
                rw [List.append_assoc] at endsShorter
                exact endsShorter)
            exact (List.cons.inj extended).2

variable {tls after : Tls} {block : List UInt8}

/-- What `read_until_crnlcrnl` reads is the header block. -/
theorem headerBlock_of_read (delivers : tls.Delivers)
    (read : readUntilCrnlcrnl tls.answers tls.incoming [] = some (block, after)) :
    HeaderBlock tls.incoming block ∧ block.length ≤ requestBuf - 1 ∧
      tls.incoming = block ++ after.incoming ∧ after.Delivers := by
  rcases readUntilCrnlcrnl_sound delivers read with ⟨taken, isBlock, whole, ends, fits, remains, first⟩
  rw [List.nil_append] at isBlock
  subst isBlock
  have isPrefix : block <+: tls.incoming := ⟨after.incoming, whole.symm⟩
  refine ⟨⟨isPrefix, ends, ?_⟩, fits, whole, remains⟩
  intro other otherPrefix otherEnds
  by_contra shorter
  have inBlock := List.prefix_of_prefix_length_le otherPrefix isPrefix (by omega)
  have some : other ≠ [] := by
    intro none
    subst none
    exact absurd (List.suffix_nil.mp otherEnds) (by decide)
  have same := first other inBlock some otherEnds
  subst same
  exact shorter (Nat.le_refl _)

/-- A header block that fits is read. -/
theorem read_of_headerBlock (delivers : tls.Delivers) (isBlock : HeaderBlock tls.incoming block)
    (fits : block.length ≤ requestBuf - 1) : Exists fun after =>
      readUntilCrnlcrnl tls.answers tls.incoming [] = some (block, after) := by
  rcases isBlock.isPrefix with ⟨rest, whole⟩
  have some : block ≠ [] := by
    intro none
    subst none
    exact absurd (List.suffix_nil.mp isBlock.ends) (by decide)
  rcases tls with ⟨incoming, answers⟩
  dsimp only at whole delivers isBlock ⊢
  subst whole
  refine readUntilCrnlcrnl_complete delivers some isBlock.ends fits ?_
  intro shorter isPrefix _ ends
  have least := isBlock.shortest shorter (isPrefix.trans (List.prefix_append _ _)) ends
  exact isPrefix.eq_of_length_le least

/-- `read_body` with a positive length keeps to its array and stores the next
bytes of the stream, as many as there are up to the length and the array's room. -/
theorem readBodyInto_cuts (delivers : tls.Delivers) {contentLength : Int} (positive : 0 < contentLength)
    (body : Region requestBuf) : Exists fun final => Exists fun after =>
      readBodyInto tls contentLength body =
          some (final, (tls.incoming.take (min contentLength.toNat (requestBuf - 1))).length, after) ∧
        tls.incoming.take (min contentLength.toNat (requestBuf - 1)) ++ [0] <+: final.bytes ∧
        after.incoming = tls.incoming.drop (min contentLength.toNat (requestBuf - 1)) := by
  have size : requestBuf = 65536 := rfl
  have limit : (if (requestBuf : Int) ≤ contentLength then requestBuf - 1 else contentLength.toNat) =
      min contentLength.toNat (requestBuf - 1) := by
    split <;> omega
  rcases tls with ⟨incoming, answers⟩
  have received := receive_of_delivers (min contentLength.toNat (requestBuf - 1)) delivers
  have begins : [] <+: body.bytes := List.nil_prefix
  have inside : ([] : List UInt8).length + min contentLength.toNat (requestBuf - 1) ≤ requestBuf := by
    rw [List.length_nil]
    omega
  rcases receiveInto_refines answers incoming begins inside with ⟨stored, isStored, holdsBytes⟩
  rw [received.1, List.nil_append] at holdsBytes
  rw [received.1, List.length_nil, Nat.zero_add, Nat.zero_add] at isStored
  have closes : (incoming.take (min contentLength.toNat (requestBuf - 1))).length + [(0 : UInt8)].length ≤
      requestBuf := by
    rw [List.length_take, List.length_singleton]
    omega
  rcases Region.write_begins holdsBytes closes with ⟨final, isFinal, holdsZero⟩
  refine ⟨final, _, ?_, holdsZero, received.2⟩
  rw [readBodyInto, if_neg (Int.not_le.mpr positive), limit]
  simp only [isStored, isFinal, Option.bind_eq_bind, Option.bind_some]
  rfl

/-- However the bytes arrive, neither loop stores outside of its array.
`read_until_crnlcrnl` succeeds if and only if the first empty line ends within
the first 65535 bytes, and then holds the block up to there.  A `read_body` that
follows holds the next bytes, and neither consumes more than it holds. -/
theorem read_cuts_exactly (delivers : tls.Delivers) (buf : Region requestBuf) :
    Exists fun result => readUntilInto tls.answers tls.incoming buf 0 = some result ∧
      (result.isSome = true ↔
        Exists fun block => HeaderBlock tls.incoming block ∧ block.length ≤ 65535) ∧
      forall filled len after, result = some (filled, len, after) ->
        Exists fun block => Exists fun rest =>
          HeaderBlock tls.incoming block ∧ tls.incoming = block ++ rest ∧ len = block.length ∧
          block ++ [0] <+: filled.bytes ∧ after.incoming = rest ∧
          forall (contentLength : Int) (body : Region requestBuf), 0 < contentLength ->
            Exists fun final => Exists fun last =>
              readBodyInto after contentLength body =
                some (final, (rest.take (min contentLength.toNat 65535)).length, last) ∧
              rest.take (min contentLength.toNat 65535) ++ [0] <+: final.bytes ∧
              last.incoming = rest.drop (min contentLength.toNat 65535) := by
  have begins : [] <+: buf.bytes := List.nil_prefix
  rcases readUntilInto_refines tls.answers tls.incoming begins with ⟨result, isResult, holds⟩
  refine ⟨result, isResult, ?_, ?_⟩
  · cases read : readUntilCrnlcrnl tls.answers tls.incoming [] with
    | none =>
        have failed : result = none := by
          cases result with
          | none => rfl
          | some other =>
              rw [read] at holds
              exact holds.elim
        subst failed
        refine ⟨fun impossible => absurd impossible Bool.false_ne_true, ?_⟩
        rintro ⟨block, isBlock, fits⟩
        rcases read_of_headerBlock delivers isBlock fits with ⟨_, found⟩
        rw [read] at found
        cases found
    | some found =>
        rcases headerBlock_of_read delivers read with ⟨isBlock, fits, _⟩
        refine ⟨fun _ => ⟨found.1, isBlock, fits⟩, fun _ => ?_⟩
        cases result with
        | none =>
            rw [read] at holds
            exact holds.elim
        | some other => rfl
  · rintro filled len after rfl
    cases read : readUntilCrnlcrnl tls.answers tls.incoming [] with
    | none =>
        rw [read] at holds
        exact holds.elim
    | some found =>
        rcases found with ⟨block, connection⟩
        rw [read] at holds
        rcases holds with ⟨length, same, holdsBlock⟩
        subst same
        rcases headerBlock_of_read delivers read with ⟨isBlock, _, whole, remains⟩
        exact ⟨block, after.incoming, isBlock, whole, length, holdsBlock, rfl,
          fun contentLength body positive => readBodyInto_cuts remains positive body⟩

/-- An array of zeros. -/
def blankArray : Region requestBuf := ⟨List.replicate requestBuf 0, List.length_replicate⟩

theorem read_cuts_exactly_exec :
    Exists fun result => readUntilInto execRequest.answers execRequest.incoming blankArray 0 = some result ∧
      (result.isSome = true ↔
        Exists fun block => HeaderBlock execRequest.incoming block ∧ block.length ≤ 65535) ∧
      forall filled len after, result = some (filled, len, after) ->
        Exists fun block => Exists fun rest =>
          HeaderBlock execRequest.incoming block ∧ execRequest.incoming = block ++ rest ∧
          len = block.length ∧ block ++ [0] <+: filled.bytes ∧ after.incoming = rest ∧
          Exists fun final => Exists fun last =>
            readBodyInto after 16 blankArray = some (final, (rest.take 16).length, last) ∧
              rest.take 16 ++ [0] <+: final.bytes ∧ last.incoming = rest.drop 16 := by
  have delivers : execRequest.Delivers :=
    ⟨fun answer member => by
      rw [(List.mem_replicate.mp member).2]
      decide, by decide⟩
  rcases read_cuts_exactly delivers blankArray with ⟨result, isResult, succeeds, cuts⟩
  refine ⟨result, isResult, succeeds, ?_⟩
  intro filled len after isRead
  rcases cuts filled len after isRead with ⟨block, rest, isBlock, whole, length, stored, left, body⟩
  exact ⟨block, rest, isBlock, whole, length, stored, left, body 16 blankArray (by decide)⟩

end Server
end AdbBridge
