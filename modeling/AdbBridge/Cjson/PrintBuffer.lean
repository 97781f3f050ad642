import AdbBridge.Cjson.Printer

namespace AdbBridge
namespace Cjson

open Library Library.Numeral Library.Checked

/-!
# The printer stays inside its buffer

Each part finds room for what it stores, and the NUL that `strlen` looks for is there
each time.  So printing never leaves the buffer, however often it is moved and whatever the
fresh memory holds; if it returns a string, that is the text of the item, and it
returns one unless memory is short, the text has more than `INT_MAX` bytes or the
item is nested too deep.
-/

variable {Double : Type}

/-! ## What the buffer holds -/

/-- The buffer begins with what was printed, and behind the offset with what was written since. -/
structure Stands (held written : List UInt8) (p : PrintBuffer) : Prop where
  begins : held ++ written <+: p.buffer
  offset : p.offset = held.length
  inside : held.length < p.buffer.length

/-- The nesting and the format are those from before. -/
def Alike (before after : PrintBuffer) : Prop := after.depth = before.depth ∧ after.format = before.format

/-- Allocations succeed, and `needed` more bytes than `count` can be asked for. -/
def Room (memory : Memory) (count : Nat) : Prop :=
  (forall size, memory.available size = true) ∧ count ≤ intMax

variable {memory : Memory} {numbers : NumberFormat Double} {held written bytes : List UInt8}
  {before p : PrintBuffer} {sure : Prop}

theorem Room.le {count other : Nat} (room : Room memory count) (smaller : other ≤ count) : Room memory other :=
  ⟨room.1, Nat.le_trans smaller room.2⟩

theorem prefix_grow (block : List UInt8) (size : Nat) : block <+: memory.grow block size :=
  List.prefix_append _ _

theorem length_grow (memory : Memory) (block : List UInt8) {size : Nat} (larger : block.length ≤ size) :
    (memory.grow block size).length = size := by
  rw [Memory.grow, List.length_append, List.length_map, List.length_range]
  omega

/-- After `ensure` the room is there, and what was printed still stands. -/
theorem yields_ensure {needed : Nat} (stands : Stands held [] p)
    (room : sure -> Room memory (held.length + needed + 1)) :
    Yields sure (ensure memory needed p) (fun after =>
      Stands held [] after ∧ Alike p after ∧ held.length + needed < after.buffer.length) := by
  have isOffset := stands.offset
  have inside := stands.inside
  rw [ensure]
  apply yields_refuseIf (fun _ => by omega)
  intro _
  apply yields_refuseIf
  · intro isSure
    have bound := (room isSure).2
    omega
  · intro _
    rw [isOffset]
    dsimp only
    by_cases fits : needed + (held.length + 1) ≤ p.buffer.length
    · rw [if_pos fits]
      exact yields_ok ⟨stands, ⟨rfl, rfl⟩, by omega⟩
    · rw [if_neg fits]
      apply yields_refuseIf
      · intro isSure
        have bound := (room isSure).2
        omega
      · intro small
        apply yields_refuseIf
        · intro isSure
          rw [(room isSure).1]
          decide
        · intro _
          have larger : needed + (held.length + 1) ≤
              (if intMax / 2 < needed + (held.length + 1) then intMax else
                  (needed + (held.length + 1)) * 2) := by
            split_ifs <;> omega
          have length := length_grow memory p.buffer
            (Nat.le_trans (Nat.le_of_lt (Nat.lt_of_not_le fits)) larger)
          refine yields_ok ⟨⟨stands.begins.trans (prefix_grow _ _), rfl, ?_⟩, ⟨rfl, rfl⟩, ?_⟩
          · change _ < (memory.grow p.buffer _).length
            rw [length]
            omega
          · change _ < (memory.grow p.buffer _).length
            rw [length]
            omega

/-- A store behind what was written. -/
theorem yields_put (bytes : List UInt8) (index : Nat) (stands : Stands held written p)
    (isIndex : index = written.length)
    (room : held.length + index + bytes.length ≤ p.buffer.length) :
    Yields sure (put index bytes p) (fun after => Stands held (written ++ bytes) after ∧ Alike p after ∧
      after.buffer.length = p.buffer.length) := by
  have length : (held ++ written).length = p.offset + index := by
    rw [List.length_append, stands.offset, isIndex]
  rcases store_begins stands.begins bytes (by
    rw [length, stands.offset]
    exact room) with ⟨after, stored, begins, sameLength⟩
  rw [put, ← length, stored, ok_bind]
  refine yields_ok ⟨⟨?_, stands.offset, ?_⟩, ⟨rfl, rfl⟩, sameLength⟩
  · rw [← List.append_assoc]
    exact begins
  · rw [sameLength]
    exact stands.inside

/-- The offset is moved behind what was written. -/
theorem Stands.advance (stands : Stands held (written ++ bytes) p)
    (inside : held.length + written.length < p.buffer.length) :
    Stands (held ++ written) bytes (p.advance written.length) := by
  refine ⟨?_, ?_, ?_⟩
  · rw [List.append_assoc]
    exact stands.begins
  · rw [PrintBuffer.advance, stands.offset, List.length_append]
  · rw [List.length_append]
    exact inside

theorem Stands.pass (stands : Stands held written p) (inside : held.length + written.length < p.buffer.length) :
    Stands (held ++ written) [] (p.advance written.length) := by
  rw [← List.append_nil written] at stands
  exact stands.advance inside

/-- The depth is no part of what stands. -/
theorem Stands.deepen {depth : Nat} (stands : Stands held written p) :
    Stands held written { p with depth := depth } := ⟨stands.begins, stands.offset, stands.inside⟩

/-- What a part leaves behind for `update_offset`: the end of its text with a NUL. -/
def Printed (held text : List UInt8) (before after : PrintBuffer) : Prop :=
  Exists fun front => Exists fun back => front ++ back = text ∧ (0 : UInt8) ∉ back ∧
    Stands (held ++ front) (back ++ [0]) after ∧ Alike before after

/-- `update_offset` finds the end of the text. -/
theorem yields_updateOffset {text : List UInt8} (printed : Printed held text before p) :
    Yields sure (updateOffset p) (fun after => Stands (held ++ text) [] after ∧ Alike before after ∧
      held ++ (text ++ [0]) <+: after.buffer) := by
  rcases printed with ⟨front, back, isText, noZero, stands, alike⟩
  rcases stands.begins with ⟨behind, whole⟩
  have found : p.buffer.drop p.offset = back ++ 0 :: behind := by
    rw [← whole, stands.offset, List.append_assoc (held ++ front), List.drop_left, List.append_assoc]
    rfl
  have stop : cString (back ++ 0 :: behind) = back :=
    cString_append_zero (fun byte member => fun zero => noZero (zero ▸ member))
  rw [updateOffset, strlen, found, if_pos (by simp), stop]
  have text_ : held ++ text = (held ++ front) ++ back := by rw [← isText, List.append_assoc]
  have length := congrArg List.length whole
  simp only [List.length_append, List.length_singleton] at length
  refine yields_ok ⟨⟨?_, ?_, ?_⟩, alike, ?_⟩
  · change _ <+: p.buffer
    rw [List.append_nil, text_]
    exact ⟨0 :: behind, by rw [← whole]; simp⟩
  · rw [PrintBuffer.advance, stands.offset, text_, @List.length_append _ (held ++ front)]
  · change _ < p.buffer.length
    rw [text_]
    simp only [List.length_append]
    omega
  · change _ <+: p.buffer
    rw [← List.append_assoc, text_, List.append_assoc]
    exact stands.begins

/-! ## Parts without children -/

theorem Alike.trans {first second third : PrintBuffer} (earlier : Alike first second)
    (later : Alike second third) : Alike first third :=
  ⟨later.1.trans earlier.1, later.2.trans earlier.2⟩

theorem yields_printLiteral {text : List UInt8} (noZero : (0 : UInt8) ∉ text) (stands : Stands held [] p)
    (room : sure -> Room memory (held.length + text.length + 2)) :
    Yields sure (printLiteral memory text p) (Printed held text p) := by
  rw [printLiteral]
  apply (yields_ensure stands (fun isSure => room isSure)).bind
  rintro wide ⟨stands, alike, fits⟩
  apply (yields_put (text ++ [0]) 0 stands rfl (by
    rw [List.length_append, List.length_singleton]
    omega)).mono id
  rintro after ⟨stands, later, _⟩
  refine ⟨[], text, rfl, noZero, ?_, alike.trans later⟩
  rw [List.append_nil]
  exact stands

theorem numberText_noZero (numbers : NumberFormat Double) (valuedouble : Double) (valueint : Int) :
    (0 : UInt8) ∉ numberText numbers valuedouble valueint := by
  rw [numberText]
  split_ifs
  · decide
  · exact fun zero => absurd (formatDec_bounds zero).1 (by decide)
  · exact numbers.general_noZero valuedouble

theorem yields_printNumber {valuedouble : Double} {valueint : Int} (stands : Stands held [] p)
    (room : sure -> Room memory (held.length + (numberText numbers valuedouble valueint).length + 2))
    (fits : sure -> (numberText numbers valuedouble valueint).length ≤ 25) :
    Yields sure (printNumber memory numbers valuedouble valueint p)
      (Printed held (numberText numbers valuedouble valueint) p) := by
  rw [printNumber]
  apply yields_refuseIf (fun isSure => Nat.not_lt.mpr (fits isSure))
  intro _
  apply (yields_ensure stands (fun isSure => room isSure)).bind
  rintro wide ⟨stands, alike, fits⟩
  apply (yields_put _ 0 stands rfl (by omega)).bind
  rintro filled ⟨stands, filledAlike, filledLength⟩
  rw [List.nil_append] at stands
  apply (yields_put [0] (numberText numbers valuedouble valueint).length stands rfl (by
    rw [List.length_singleton, filledLength]
    omega)).bind
  rintro ended ⟨stands, endedAlike, endedLength⟩
  refine yields_ok ⟨_, [], List.append_nil _, List.not_mem_nil, ?_, (alike.trans filledAlike).trans endedAlike⟩
  exact stands.advance (by omega)

/-! ## Strings -/

theorem escapeByte_letter {byte letter : UInt8} (isLetter : escapeLetter byte = some letter) :
    Handler.escapeByte byte = [92, letter] := by
  unfold escapeLetter at isLetter
  split_ifs at isLetter <;> subst byte <;> cases Option.some.inj isLetter <;> rfl

theorem escapeByte_codepoint {byte : UInt8} (noLetter : escapeLetter byte = none)
    (special : ¬ (31 < byte ∧ byte ≠ 34 ∧ byte ≠ 92)) :
    Handler.escapeByte byte = 92 :: 117 :: formatHex04 byte.toNat := by
  unfold escapeLetter at noLetter
  split_ifs at noLetter with backslash quote backspace formFeed newline carriage tab
  rw [Handler.escapeByte, if_neg special, if_neg backslash, if_neg quote, if_neg backspace, if_neg formFeed,
    if_neg newline, if_neg carriage, if_neg tab]

/-- What is written for a byte has no NUL. -/
theorem escapeByte_noZero {byte : UInt8} (notZero : byte ≠ 0) : (0 : UInt8) ∉ Handler.escapeByte byte := by
  rcases Handler.escapeByte_cases byte with ⟨written, _⟩ | ⟨kind, written, _, means⟩ | ⟨written, _, _⟩
  · rw [written]
    exact fun zero => notZero (List.mem_singleton.mp zero).symm
  · rw [written]
    intro zero
    simp only [List.mem_cons, List.not_mem_nil, or_false] at zero
    rcases zero with backslash | isKind
    · cases backslash
    · rw [← isKind] at means
      cases means
  · rw [written]
    intro zero
    have digits := (formatHex04_of_lt (Nat.lt_trans byte.toNat_lt (show 256 < 65536 by decide))).2.1
    rcases List.mem_cons.mp zero with backslash | zero
    · cases backslash
    · rcases List.mem_cons.mp zero with letter | digit
      · cases letter
      · exact absurd (List.all_eq_true.mp digits 0 digit) (by decide)

theorem printStringPtr_noZero {input : List UInt8} (noZero : (0 : UInt8) ∉ input) :
    (0 : UInt8) ∉ Handler.printStringPtr input := by
  rw [Handler.printStringPtr_eq]
  intro zero
  rcases List.mem_cons.mp zero with quote | zero
  · cases quote
  · rcases List.mem_append.mp zero with zero | quote
    · rcases List.mem_flatMap.mp zero with ⟨byte, member, zero⟩
      exact escapeByte_noZero (fun isZero => noZero (isZero ▸ member)) zero
    · cases List.mem_singleton.mp quote

theorem zero_notMem_cString (memory : List UInt8) : (0 : UInt8) ∉ cString memory :=
  fun zero => absurd (List.mem_takeWhile_imp zero) (by decide)

/-- The copying loop stores what it was counted to, and one NUL behind it at most. -/
theorem copyEscaped_begins {buffer : List UInt8} (input : List UInt8) (begins : held <+: buffer)
    (room : held.length + (input.flatMap Handler.escapeByte).length + 1 ≤ buffer.length) :
    Exists fun after => copyEscaped input buffer held.length = .ok after ∧
      held ++ input.flatMap Handler.escapeByte <+: after ∧ after.length = buffer.length := by
  induction input generalizing held buffer with
  | nil =>
      refine ⟨buffer, rfl, ?_, rfl⟩
      rw [List.flatMap_nil, List.append_nil]
      exact begins
  | cons byte input inductionHypothesis =>
      rw [List.flatMap_cons, List.length_append] at room
      rw [List.flatMap_cons, ← List.append_assoc, copyEscaped]
      by_cases plain : 31 < byte ∧ byte ≠ 34 ∧ byte ≠ 92
      · have written : Handler.escapeByte byte = [byte] := by rw [Handler.escapeByte, if_pos plain]
        rw [written, List.length_singleton] at room
        rcases store_begins begins [byte] (by rw [List.length_singleton]; omega) with
          ⟨after, stored, extended, length⟩
        have next := inductionHypothesis extended (by
          rw [length, List.length_append, List.length_singleton]
          omega)
        rw [List.length_append, List.length_singleton, length] at next
        rw [if_pos plain, stored, ok_bind, written]
        exact next
      · rw [if_neg plain]
        cases isLetter : escapeLetter byte with
        | some letter =>
            have written := escapeByte_letter isLetter
            rw [written, List.length_cons, List.length_singleton] at room
            rcases store_begins begins [92] (by rw [List.length_singleton]; omega) with
              ⟨middle, stored, extended, middleLength⟩
            rcases store_begins extended [letter] (by
              rw [middleLength, List.length_append, List.length_singleton, List.length_singleton]
              omega) with ⟨after, storedLetter, both, length⟩
            rw [List.append_assoc] at both
            have next := inductionHypothesis both (by
              rw [length, middleLength, List.length_append]
              change held.length + 2 + _ + 1 ≤ _
              omega)
            rw [List.length_append, length, middleLength] at next
            rw [List.length_append, List.length_singleton] at storedLetter
            rw [stored, ok_bind, written]
            dsimp only
            rw [storedLetter, ok_bind]
            exact next
        | none =>
            have written := escapeByte_codepoint isLetter plain
            have four := (formatHex04_of_lt (Nat.lt_trans byte.toNat_lt (show 256 < 65536 by decide))).1
            have size : (Handler.escapeByte byte).length = 6 := by
              rw [written, List.length_cons, List.length_cons, four]
            rw [size] at room
            rcases store_begins begins [92] (by rw [List.length_singleton]; omega) with
              ⟨middle, stored, extended, middleLength⟩
            rcases store_begins extended (117 :: (formatHex04 byte.toNat ++ [0])) (by
              rw [middleLength, List.length_append, List.length_singleton, List.length_cons, List.length_append,
                four, List.length_singleton]
              omega) with ⟨after, storedDigits, both, length⟩
            have kept : held ++ Handler.escapeByte byte <+: after := by
              rw [written]
              refine List.IsPrefix.trans ⟨[0], ?_⟩ both
              simp
            have next := inductionHypothesis kept (by
              rw [length, middleLength, List.length_append, size]
              omega)
            rw [List.length_append, size, length, middleLength] at next
            rw [List.length_append, List.length_singleton] at storedDigits
            rw [stored, ok_bind]
            dsimp only
            rw [storedDigits, ok_bind]
            exact next

theorem yields_printStringPtr {input : List UInt8} (noZero : (0 : UInt8) ∉ input) (stands : Stands held [] p)
    (room : sure -> Room memory (held.length + (Handler.printStringPtr input).length + 2)) :
    Yields sure (printStringPtr memory input p) (Printed held (Handler.printStringPtr input) p) := by
  have counted := Handler.length_escaped input
  have length : (Handler.printStringPtr input).length = input.length + Handler.escapeCharacters input + 2 := by
    rw [Handler.printStringPtr_eq, List.length_cons, List.length_append, List.length_singleton, counted]
  rw [printStringPtr]
  apply (yields_ensure stands (fun isSure => (room isSure).le (by omega))).bind
  rintro wide ⟨stands, alike, fits⟩
  have finish : forall {q : PrintBuffer} {copied : List UInt8}, Stands held (34 :: copied) q -> Alike p q ->
      copied.length = input.length + Handler.escapeCharacters input -> q.buffer.length = wide.buffer.length ->
      Handler.printStringPtr input = 34 :: (copied ++ [34]) ->
      Yields sure (put (input.length + Handler.escapeCharacters input + 1) [34] q >>=
        fun p => put (input.length + Handler.escapeCharacters input + 2) [0] p)
        (Printed held (Handler.printStringPtr input) p) := by
    intro q copied copiedStands copiedAlike copiedLength sameLength isText
    apply (yields_put [34] _ copiedStands (by rw [List.length_cons, copiedLength]) (by
      rw [List.length_singleton, sameLength]
      omega)).bind
    rintro closed ⟨closedStands, closedAlike, closedLength⟩
    apply (yields_put [0] _ closedStands (by
      rw [List.length_append, List.length_cons, List.length_singleton, copiedLength]) (by
      rw [List.length_singleton, closedLength, sameLength]
      omega)).mono id
    rintro ended ⟨endedStands, endedAlike, _⟩
    refine ⟨[], Handler.printStringPtr input, rfl, printStringPtr_noZero noZero, ?_,
      (copiedAlike.trans closedAlike).trans endedAlike⟩
    rw [List.append_nil, isText]
    exact endedStands
  split_ifs with none
  · apply (yields_put [34] 0 stands rfl (by rw [List.length_singleton]; omega)).bind
    rintro opened ⟨openedStands, openedAlike, openedLength⟩
    apply (yields_put input 1 openedStands rfl (by rw [openedLength]; omega)).bind
    rintro copied ⟨copiedStands, copiedAlike, copiedLength⟩
    rw [List.nil_append, List.singleton_append] at copiedStands
    exact finish copiedStands ((alike.trans openedAlike).trans copiedAlike) (by omega)
      (copiedLength.trans openedLength) (by rw [Handler.printStringPtr, if_pos none])
  · apply (yields_put [34] 0 stands rfl (by rw [List.length_singleton]; omega)).bind
    rintro opened ⟨openedStands, openedAlike, openedLength⟩
    rw [List.nil_append] at openedStands
    rcases copyEscaped_begins input openedStands.begins (by
      rw [List.length_append, List.length_singleton, counted, openedLength]
      omega) with ⟨after, copied, begins, copiedLength⟩
    rw [List.length_append, List.length_singleton] at copied
    rw [openedStands.offset, copied, ok_bind]
    refine finish ⟨?_, rfl, ?_⟩ (alike.trans openedAlike) counted
      (copiedLength.trans openedLength) (Handler.printStringPtr_eq input)
    · rw [List.append_assoc] at begins
      exact begins
    · rw [← copiedLength] at openedLength
      change held.length < after.length
      rw [copiedLength]
      exact openedStands.inside

/-! ## Between the children -/

/-- A text is stored, perhaps with a NUL, and the offset is moved behind it. -/
theorem yields_append (sure : Prop) (text behind : List UInt8) {count : PrintBuffer -> Nat}
    (stands : Stands held [] p)
    (alike : Alike before p) (counts : forall after, Alike p after -> count after = text.length)
    (inside : held.length + text.length < p.buffer.length)
    (fits : held.length + text.length + behind.length ≤ p.buffer.length) :
    Yields sure (put 0 (text ++ behind) p >>= fun p => pure (p.advance (count p))) (fun after =>
      Stands (held ++ text) [] after ∧ Alike before after) := by
  apply (yields_put (text ++ behind) 0 stands rfl (by rw [List.length_append]; omega)).bind
  rintro after ⟨stored, later, sameLength⟩
  rw [counts after later]
  rw [List.nil_append] at stored
  have moved := stored.advance (by rw [sameLength]; exact inside)
  refine yields_ok ⟨⟨?_, moved.offset, moved.inside⟩, alike.trans later⟩
  rw [List.append_nil]
  exact (List.prefix_append _ _).trans moved.begins

theorem length_arrayComma (format : Bool) : (arrayComma format).length = if format then 2 else 1 := by
  cases format <;> rfl

theorem length_nameColon (format : Bool) : (nameColon format).length = if format then 2 else 1 := by
  cases format <;> rfl

theorem yields_printArrayComma {isLast : Bool} (stands : Stands held [] p)
    (room : sure -> Room memory (held.length + (if isLast then [] else arrayComma p.format).length + 2)) :
    Yields sure (printArrayComma memory isLast p) (fun after =>
      Stands (held ++ if isLast then [] else arrayComma p.format) [] after ∧ Alike p after) := by
  rw [printArrayComma]
  cases isLast with
  | true =>
      rw [if_pos rfl, if_pos rfl, List.append_nil]
      exact yields_ok ⟨stands, rfl, rfl⟩
  | false =>
      rw [if_neg Bool.false_ne_true] at room
      rw [if_neg Bool.false_ne_true, if_neg Bool.false_ne_true, ← length_arrayComma]
      apply (yields_ensure stands (fun isSure => room isSure)).bind
      rintro wide ⟨stands, alike, fits⟩
      rw [alike.2]
      exact yields_append _ _ [0] stands alike (fun _ _ => rfl) (by omega)
        (by rw [List.length_singleton]; omega)

theorem yields_printIndent (stands : Stands held [] p)
    (room : sure -> Room memory (held.length + (indent p.format p.depth).length + 2)) :
    Yields sure (printIndent memory p) (fun after =>
      Stands (held ++ indent p.format p.depth) [] after ∧ Alike p after) := by
  rw [printIndent]
  rw [indent] at room ⊢
  split_ifs with format
  · simp only [if_pos format, List.length_replicate] at room
    apply (yields_ensure stands (fun isSure => (room isSure).le (by omega))).bind
    rintro wide ⟨stands, alike, fits⟩
    have appended := yields_append sure (List.replicate p.depth 9) [] stands alike
      (fun after later => later.1.trans (alike.1.trans List.length_replicate.symm))
      (by rw [List.length_replicate]; omega) (by rw [List.length_replicate, List.length_nil]; omega)
    rw [List.append_nil] at appended
    rw [alike.1]
    exact appended
  · rw [List.append_nil]
    exact yields_ok ⟨stands, rfl, rfl⟩

theorem yields_printColon (stands : Stands held [] p)
    (room : sure -> Room memory (held.length + (nameColon p.format).length + 2)) :
    Yields sure (printColon memory p) (fun after =>
      Stands (held ++ nameColon p.format) [] after ∧ Alike p after) := by
  rw [printColon, ← length_nameColon]
  apply (yields_ensure stands (fun isSure => (room isSure).le (by omega))).bind
  rintro wide ⟨stands, alike, fits⟩
  rw [alike.2]
  have appended := yields_append sure (nameColon p.format) [] stands alike (fun _ _ => rfl)
    (by omega) (by rw [List.length_nil]; omega)
  rw [List.append_nil] at appended
  exact appended

theorem length_memberEnd (isLast format : Bool) :
    ((if isLast then [] else [44]) ++ lineEnd format).length =
      (if format then 1 else 0) + (if isLast then 0 else 1) := by
  cases isLast <;> cases format <;> rfl

theorem yields_printMemberEnd {isLast : Bool} (stands : Stands held [] p)
    (room : sure -> Room memory (held.length + ((if isLast then [] else [44]) ++
        lineEnd p.format).length + 2)) :
    Yields sure (printMemberEnd memory isLast p) (fun after =>
      Stands (held ++ ((if isLast then [] else [44]) ++ lineEnd p.format)) [] after ∧ Alike p after) := by
  rw [printMemberEnd, ← length_memberEnd]
  apply (yields_ensure stands (fun isSure => room isSure)).bind
  rintro wide ⟨stands, alike, fits⟩
  rw [alike.2, ← List.append_assoc]
  exact yields_append _ _ [0] stands alike (fun _ _ => rfl) (by omega) (by rw [List.length_singleton]; omega)

/-- A closing bracket or brace ends with a NUL and is left to `update_offset`. -/
theorem yields_close {needed : Nat} (text closing : List UInt8) {stored : PrintBuffer -> List UInt8}
    (stands : Stands (held ++ text) [] p) (deeper : p.depth = before.depth + 1 ∧ p.format = before.format)
    (noZero : (0 : UInt8) ∉ closing) (isNeeded : needed = closing.length + 1)
    (isStored : forall after, Alike p after -> stored after = closing ++ [0])
    (room : sure -> Room memory (held.length + (text.length + closing.length) + 2)) :
    Yields sure (ensure memory needed p >>= fun p => put 0 (stored p) p >>= fun p =>
      pure { p with depth := p.depth - 1 }) (Printed held (text ++ closing) before) := by
  apply (yields_ensure stands (fun isSure => (room isSure).le (by rw [List.length_append]; omega))).bind
  rintro wide ⟨stands, wideAlike, fits⟩
  rw [isStored wide wideAlike]
  apply (yields_put (closing ++ [0]) 0 stands rfl (by
    have length : (closing ++ [0]).length = closing.length + 1 := List.length_append
    omega)).bind
  rintro after ⟨afterStands, later, _⟩
  rw [List.nil_append] at afterStands
  refine yields_ok ⟨text, closing, rfl, noZero, afterStands.deepen, ?_, ?_⟩
  · change after.depth - 1 = before.depth
    rw [later.1, wideAlike.1, deeper.1, Nat.add_sub_cancel]
  · change after.format = before.format
    rw [later.2, wideAlike.2, deeper.2]

/-! ## Values -/

mutual

/-- Every number of the item has a text of 25 bytes at most. -/
def Item.NumbersFit (numbers : NumberFormat Double) : Item Double -> Prop
  | .null => True
  | .false => True
  | .true => True
  | .number valuedouble valueint => (numberText numbers valuedouble valueint).length ≤ 25
  | .string _ => True
  | .array child => ElementsFit numbers child
  | .object child => MembersFit numbers child

def ElementsFit (numbers : NumberFormat Double) : List (Item Double) -> Prop
  | [] => True
  | item :: next => item.NumbersFit numbers ∧ ElementsFit numbers next

def MembersFit (numbers : NumberFormat Double) : List (List UInt8 × Item Double) -> Prop
  | [] => True
  | (_, item) :: next => item.NumbersFit numbers ∧ MembersFit numbers next

end

/-- What holds of printing an item. -/
def ValuePrints (memory : Memory) (numbers : NumberFormat Double) (item : Item Double) : Prop :=
  forall held p, Stands held [] p ->
    Yields (Room memory (held.length + (itemText numbers p.format p.depth item).length + 2) ∧
        item.NumbersFit numbers ∧ item.nesting + p.depth ≤ nestingLimit)
      (printValue memory numbers item p) (Printed held (itemText numbers p.format p.depth item) p)

/-- What holds of a loop that prints children. -/
def ChildrenPrint {Child : Type} (memory : Memory) (text : Bool -> Nat -> Child -> List UInt8)
    (fit : Child -> Prop) (nesting : Child -> Nat) (loop : Child -> PrintBuffer -> Except Stop PrintBuffer)
    (children : Child) : Prop :=
  forall held p, Stands held [] p ->
    Yields (Room memory (held.length + (text p.format p.depth children).length + 2) ∧
        fit children ∧ nesting children + p.depth ≤ nestingLimit)
      (loop children p) (fun after => Stands (held ++ text p.format p.depth children) [] after ∧ Alike p after)

variable {item : Item Double}

theorem printElements_nil : ChildrenPrint memory (elementsText numbers) (ElementsFit numbers)
    nestingOfElements (printElements memory numbers) [] := by
  intro held p stands
  rw [printElements, elementsText, List.append_nil]
  exact yields_ok ⟨stands, rfl, rfl⟩

theorem printElements_cons {next : List (Item Double)} (value : ValuePrints memory numbers item)
    (rest : ChildrenPrint memory (elementsText numbers) (ElementsFit numbers) nestingOfElements
      (printElements memory numbers) next) :
    ChildrenPrint memory (elementsText numbers) (ElementsFit numbers) nestingOfElements
      (printElements memory numbers) (item :: next) := by
  intro held p stands
  rw [printElements, elementsText]
  simp only [ElementsFit, nestingOfElements, List.length_append]
  apply ((value held p stands).mono
    (fun isSure => ⟨isSure.1.le (by omega), isSure.2.1.1, by omega⟩) (fun _ => id)).bind
  intro printed isPrinted
  apply (yields_updateOffset isPrinted).bind
  rintro moved ⟨movedStands, movedAlike, _⟩
  apply (yields_printArrayComma movedStands (fun isSure => isSure.1.le (by
    rw [movedAlike.2, List.length_append]
    omega))).bind
  rintro comma ⟨commaStands, commaAlike⟩
  have alike := movedAlike.trans commaAlike
  apply ((rest _ comma commaStands).mono (fun isSure => ⟨isSure.1.le (by
    rw [alike.1, alike.2, movedAlike.2, List.length_append, List.length_append]
    omega), isSure.2.1.2, by rw [alike.1]; omega⟩) (fun _ => id)).mono id
  rintro after ⟨afterStands, afterAlike⟩
  rw [alike.1, alike.2, movedAlike.2, List.append_assoc, List.append_assoc] at afterStands
  exact ⟨afterStands, alike.trans afterAlike⟩

theorem printMembers_nil : ChildrenPrint memory (membersText numbers) (MembersFit numbers)
    nestingOfMembers (printMembers memory numbers) [] := by
  intro held p stands
  rw [printMembers, membersText, List.append_nil]
  exact yields_ok ⟨stands, rfl, rfl⟩

theorem printMembers_cons {name : List UInt8} {next : List (List UInt8 × Item Double)}
    (value : ValuePrints memory numbers item)
    (rest : ChildrenPrint memory (membersText numbers) (MembersFit numbers) nestingOfMembers
      (printMembers memory numbers) next) :
    ChildrenPrint memory (membersText numbers) (MembersFit numbers) nestingOfMembers
      (printMembers memory numbers) ((name, item) :: next) := by
  intro held p stands
  rw [printMembers, membersText]
  simp only [MembersFit, nestingOfMembers, List.length_append]
  apply (yields_printIndent stands (fun isSure => isSure.1.le (by omega))).bind
  rintro indented ⟨indentedStands, indentedAlike⟩
  apply (yields_printStringPtr (zero_notMem_cString name) indentedStands (fun isSure => isSure.1.le (by
    rw [List.length_append]
    omega))).bind
  intro named isNamed
  apply (yields_updateOffset isNamed).bind
  rintro behindName ⟨nameStands, nameAlike, _⟩
  have untilName := indentedAlike.trans nameAlike
  apply (yields_printColon nameStands (fun isSure => isSure.1.le (by
    rw [untilName.2, List.length_append, List.length_append]
    omega))).bind
  rintro colon ⟨colonStands, colonAlike⟩
  have untilColon := untilName.trans colonAlike
  rw [untilName.2] at colonStands
  apply ((value _ colon colonStands).mono (fun isSure => ⟨isSure.1.le (by
    rw [untilColon.1, untilColon.2, List.length_append, List.length_append, List.length_append]
    omega), isSure.2.1.1, by rw [untilColon.1]; omega⟩) (fun _ => id)).bind
  intro printed isPrinted
  apply (yields_updateOffset isPrinted).bind
  rintro moved ⟨movedStands, movedAlike, _⟩
  have untilValue := untilColon.trans movedAlike
  rw [untilColon.1, untilColon.2] at movedStands
  apply (yields_printMemberEnd movedStands (fun isSure => isSure.1.le (by
    rw [untilValue.2]
    simp only [List.length_append]
    omega))).bind
  rintro ended ⟨endedStands, endedAlike⟩
  have untilEnd := untilValue.trans endedAlike
  rw [untilValue.2] at endedStands
  apply ((rest _ ended endedStands).mono (fun isSure => ⟨isSure.1.le (by
    rw [untilEnd.1, untilEnd.2]
    simp only [List.length_append]
    omega), isSure.2.1.2, by rw [untilEnd.1]; omega⟩) (fun _ => id)).mono id
  rintro after ⟨afterStands, afterAlike⟩
  rw [untilEnd.1, untilEnd.2] at afterStands
  simp only [List.append_assoc] at afterStands
  exact ⟨afterStands, untilEnd.trans afterAlike⟩

theorem printArray_prints {child : List (Item Double)}
    (elements : ChildrenPrint memory (elementsText numbers) (ElementsFit numbers) nestingOfElements
      (printElements memory numbers) child) : ValuePrints memory numbers (.array child) := by
  intro held p stands
  rw [printValue, itemText]
  simp only [Item.NumbersFit, Item.nesting, List.length_append, List.length_cons]
  apply yields_refuseIf (fun isSure => by omega)
  intro _
  apply (yields_ensure stands (fun isSure => isSure.1.le (by omega))).bind
  rintro wide ⟨wideStands, wideAlike, fits⟩
  apply (yields_put [91] 0 wideStands rfl (by rw [List.length_singleton]; omega)).bind
  rintro opened ⟨openedStands, openedAlike, openedLength⟩
  have alike := wideAlike.trans openedAlike
  have inside := openedStands.pass (by
    rw [openedLength]
    exact fits)
  apply ((elements _ _ inside.deepen).mono (fun isSure => ⟨isSure.1.le (by
    change (held ++ [91]).length + (elementsText numbers opened.format (opened.depth + 1) child).length + 2 ≤ _
    rw [alike.1, alike.2, List.length_append, List.length_singleton]
    omega), isSure.2.1, by
    change _ + (opened.depth + 1) ≤ _
    rw [alike.1]
    omega⟩) (fun _ => id)).bind
  rintro filled ⟨filledStands, filledAlike⟩
  change Stands (_ ++ elementsText numbers opened.format (opened.depth + 1) child) [] filled at filledStands
  rw [alike.1, alike.2, List.append_assoc] at filledStands
  exact yields_close ([91] ++ elementsText numbers p.format (p.depth + 1) child) [93]
    filledStands ⟨filledAlike.1.trans (congrArg (· + 1) alike.1), filledAlike.2.trans alike.2⟩ (by decide) rfl
    (fun _ _ => rfl) (fun isSure => isSure.1.le (by
      simp only [List.length_append, List.length_singleton, List.length_nil]
      omega))

theorem length_lineEnd (format : Bool) (byte : UInt8) :
    (byte :: lineEnd format).length = if format then 2 else 1 := by
  cases format <;> rfl

theorem length_indent_close (format : Bool) (depth : Nat) :
    (if format then depth + 1 + 1 else 2) = (indent format depth ++ [125]).length + 1 := by
  cases format
  · rfl
  · rw [indent, if_pos rfl, if_pos rfl, List.length_append, List.length_replicate, List.length_singleton]

theorem indent_noZero (format : Bool) (depth : Nat) : (0 : UInt8) ∉ indent format depth := by
  intro zero
  rw [indent] at zero
  split_ifs at zero
  · cases List.eq_of_mem_replicate zero
  · cases zero

theorem closing_noZero (format : Bool) (depth : Nat) : (0 : UInt8) ∉ indent format depth ++ [125] := by
  intro zero
  rcases List.mem_append.mp zero with zero | brace
  · exact indent_noZero format depth zero
  · cases List.mem_singleton.mp brace

theorem printObject_prints {child : List (List UInt8 × Item Double)}
    (members : ChildrenPrint memory (membersText numbers) (MembersFit numbers) nestingOfMembers
      (printMembers memory numbers) child) : ValuePrints memory numbers (.object child) := by
  intro held p stands
  have opening := length_lineEnd p.format 123
  have openingLine : (lineEnd p.format).length + 1 = if p.format then 2 else 1 := opening
  have closing := length_indent_close p.format p.depth
  rw [List.length_append] at closing
  rw [printValue, itemText]
  simp only [Item.NumbersFit, Item.nesting, List.length_append, List.length_cons]
  apply yields_refuseIf (fun isSure => by omega)
  intro _
  apply (yields_ensure stands (fun isSure => isSure.1.le (by omega))).bind
  rintro wide ⟨wideStands, wideAlike, fits⟩
  apply (yields_put (123 :: lineEnd wide.format) 0 wideStands rfl (by
    rw [wideAlike.2, opening]
    omega)).bind
  rintro opened ⟨openedStands, openedAlike, openedLength⟩
  have alike := wideAlike.trans openedAlike
  rw [List.nil_append, wideAlike.2] at openedStands
  have inside := openedStands.pass (by
    rw [openedLength, opening]
    omega)
  rw [opening] at inside
  apply ((members _ _ inside.deepen).mono (fun isSure => ⟨isSure.1.le (by
    change (held ++ 123 :: lineEnd p.format).length +
      (membersText numbers opened.format (opened.depth + 1) child).length + 2 ≤ _
    rw [alike.1, alike.2, List.length_append, opening]
    omega), isSure.2.1, by
    change _ + (opened.depth + 1) ≤ _
    rw [alike.1]
    omega⟩) (fun _ => id)).bind
  rintro filled ⟨filledStands, filledAlike⟩
  change Stands (_ ++ membersText numbers opened.format (opened.depth + 1) child) [] filled at filledStands
  have filledDepth : filled.depth = p.depth + 1 := filledAlike.1.trans (congrArg (· + 1) alike.1)
  have filledFormat : filled.format = p.format := filledAlike.2.trans alike.2
  rw [alike.1, alike.2, List.append_assoc] at filledStands
  have isText : (123 :: (lineEnd p.format ++ (membersText numbers p.format (p.depth + 1) child ++
      (indent p.format p.depth ++ [125])))) =
      (123 :: lineEnd p.format ++ membersText numbers p.format (p.depth + 1) child) ++
        (indent p.format p.depth ++ [125]) := by
    rw [List.append_assoc]
    rfl
  rw [isText]
  exact yields_close _ _ filledStands ⟨filledDepth, filledFormat⟩ (closing_noZero p.format p.depth)
    (by rw [filledFormat, filledDepth]; exact length_indent_close p.format p.depth)
    (fun after later => by
      rw [later.1, later.2, filledDepth, filledFormat, Nat.add_sub_cancel, List.append_assoc]
      rfl)
    (fun isSure => isSure.1.le (by
      simp only [List.length_append, List.length_nil, List.length_cons]
      omega))

mutual

/-- Printing an item stays inside, and is sure of its text. -/
theorem value_prints (item : Item Double) : ValuePrints memory numbers item := by
  cases item with
  | null =>
      intro held p stands
      rw [printValue, itemText]
      exact yields_printLiteral (by decide) stands (fun isSure => isSure.1)
  | «false» =>
      intro held p stands
      rw [printValue, itemText]
      exact yields_printLiteral (by decide) stands (fun isSure => isSure.1)
  | «true» =>
      intro held p stands
      rw [printValue, itemText]
      exact yields_printLiteral (by decide) stands (fun isSure => isSure.1)
  | number valuedouble valueint =>
      intro held p stands
      rw [printValue, itemText, Item.NumbersFit]
      exact yields_printNumber stands (fun isSure => isSure.1) (fun isSure => isSure.2.1)
  | string valuestring =>
      intro held p stands
      rw [printValue, itemText]
      exact yields_printStringPtr (zero_notMem_cString valuestring) stands (fun isSure => isSure.1)
  | array child => exact printArray_prints (elements_print child)
  | object child => exact printObject_prints (members_print child)

theorem elements_print (child : List (Item Double)) :
    ChildrenPrint memory (elementsText numbers) (ElementsFit numbers) nestingOfElements
      (printElements memory numbers) child := by
  cases child with
  | nil => exact printElements_nil
  | cons item next => exact printElements_cons (value_prints item) (elements_print next)

theorem members_print (child : List (List UInt8 × Item Double)) :
    ChildrenPrint memory (membersText numbers) (MembersFit numbers) nestingOfMembers
      (printMembers memory numbers) child := by
  cases child with
  | nil => exact printMembers_nil
  | cons member next =>
      rcases member with ⟨name, item⟩
      exact printMembers_cons (value_prints item) (members_print next)

end

/-- `cJSON_Print` and `cJSON_PrintUnformatted` never read or store outside of their buffer.  A
block that they return is the text of the item and a NUL; and they return one if memory
suffices, the text is short of `INT_MAX` by two, no number takes more than 25 bytes and the
nesting keeps to its limit. -/
theorem print_yields (memory : Memory) (numbers : NumberFormat Double) (format : Bool) (item : Item Double) :
    Yields (Room memory ((itemText numbers format 0 item).length + 2) ∧ item.NumbersFit numbers ∧
        item.nesting ≤ nestingLimit)
      (print memory numbers format item) (fun printed => printed = itemText numbers format 0 item ++ [0]) := by
  rw [print]
  apply yields_refuseIf (fun isSure => by rw [isSure.1.1]; decide)
  intro _
  have length := length_grow memory [] (Nat.zero_le 256)
  have start : Stands [] [] ⟨memory.grow [] 256, 0, 0, format⟩ :=
    ⟨List.nil_prefix, rfl, by rw [length]; decide⟩
  apply ((value_prints item [] _ start).mono (fun isSure => ⟨isSure.1.le (by
    rw [List.length_nil, Nat.zero_add]), isSure.2.1, isSure.2.2⟩) (fun _ => id)).bind
  intro printed isPrinted
  apply (yields_updateOffset isPrinted).bind
  rintro moved ⟨stands, _, ended⟩
  apply yields_refuseIf (fun isSure => by rw [isSure.1.1]; decide)
  intro _
  rw [List.nil_append] at stands ended
  have offset := stands.offset
  refine yields_ok ?_
  have whole := List.prefix_iff_eq_take.mp ended
  rw [List.length_append, List.length_singleton, ← offset] at whole
  exact whole.symm

end Cjson
end AdbBridge
