import AdbBridge.Server.RequestStores

namespace AdbBridge
namespace Server

open Library Library.Numeral

/-!
# The first line of a request

`parse_request_line` is handed the whole header block as one string and looks for
spaces and for its end only.  As long as the first line has two spaces it sees nothing
else: the method ends at the first and the target at the second.  With fewer it goes on
in the lines behind.
-/

/-! ## Up to the second space -/

/-- What the first loop copies: the bytes before the first space, as far as they fit. -/
def methodOf (line : List UInt8) : List UInt8 :=
  (line.takeWhile (fun byte => byte != 32)).take (methodCap - 1)

variable {placement : Placement} {line method target : List UInt8}

/-- A text without a NUL stands in front of a string as it is. -/
theorem cString_append_of_free {text : List UInt8} (free : (0 : UInt8) ∉ text) (rest : List UInt8) :
    cString (text ++ rest) = text ++ cString rest :=
  cString_append (fun _ member isZero => free (isZero ▸ member)) rest

theorem cString_cons_space (rest : List UInt8) : cString (32 :: rest) = 32 :: cString rest := rfl

/-- A line is rejected if and only if none of its first 16 bytes is a space. -/
theorem parseRequestLine_eq_none_iff :
    parseRequestLine placement line = none ↔ (32 : UInt8) ∉ line.take 16 := by
  have isMethod : (line.takeWhile (fun byte => byte != 32)).take (methodCap - 1) = methodOf line := rfl
  unfold parseRequestLine
  dsimp only
  rw [isMethod]
  by_cases space : (32 : UInt8) ∈ line
  · have split := Search.split_at_first space
    have free := Search.not_mem_takeWhile (32 : UInt8) line
    generalize line.takeWhile (fun byte => byte != 32) = method at split free
    generalize line.drop (method.length + 1) = rest at split
    have whole : line.takeWhile (fun byte => byte != 32) = method := by
      rw [split, Search.takeWhile_append_cons free]
    rw [methodOf, whole, split]
    by_cases short : method.length ≤ 15
    · have kept : method.take (methodCap - 1) = method := List.take_of_length_le short
      rw [kept, List.drop_left]
      refine iff_of_false (Option.some_ne_none _) (not_not_intro ?_)
      have room : 16 - method.length = (15 - method.length) + 1 := by omega
      rw [List.take_append, room, List.take_succ_cons]
      exact List.mem_append_right _ List.mem_cons_self
    · have cut : (method.take (methodCap - 1)).length = 15 := by
        rw [List.length_take]
        exact Nat.min_eq_left (Nat.le_of_lt (Nat.not_le.mp short))
      have beyond : forall rest' : List UInt8, (method ++ 32 :: rest).drop 15 ≠ 32 :: rest' := by
        intro rest' same
        rw [List.drop_append_of_le_length (Nat.le_of_lt (Nat.not_le.mp short))] at same
        have first := List.drop_eq_getElem_cons (Nat.not_le.mp short)
        rw [first, List.cons_append] at same
        exact free ((List.cons.inj same).1 ▸ List.getElem_mem _)
      rw [cut, List.take_append_of_le_length (Nat.not_le.mp short)]
      refine iff_of_true ?_ (fun member => free (List.mem_of_mem_take member))
      split
      next rest' same => exact absurd same (beyond rest')
      next => rfl
  · refine iff_of_true ?_ (fun member => space (List.mem_of_mem_take member))
    split
    next rest same =>
      exact absurd (List.mem_of_mem_drop (same ▸ List.mem_cons_self)) space
    next => rfl

/-- The strings of a target without a NUL. -/
theorem requestLine_storeTarget (placement : Placement) (method : List UInt8)
    (noSpace : (32 : UInt8) ∉ target) (noZero : (0 : UInt8) ∉ target) :
    (storeTarget placement ⟨[], none⟩ target).requestLine method =
      ⟨method, (pathOf target).take (1023 - placement.displacement).toNat,
        (queryOf target).take (queryCap - 1)⟩ := by
  have free : forall {text : List UInt8}, text ⊆ target -> forall byte, byte ∈ text -> byte ≠ 0 := by
    intro text part byte member zero
    exact noZero (zero ▸ part member)
  have pathFree : forall byte, byte ∈ (pathOf target).take (1023 - placement.displacement).toNat -> byte ≠ 0 :=
    free (fun byte member => (List.takeWhile_prefix _).subset (List.mem_of_mem_take member))
  have queryFree : forall byte, byte ∈ (queryOf target).take (queryCap - 1) -> byte ≠ 0 :=
    free (fun byte member => List.mem_of_mem_drop (List.mem_of_mem_take member))
  rw [storeTarget_eq placement noSpace, Target.requestLine]
  by_cases mark : (63 : UInt8) ∈ target
  · simp only [if_pos mark]
    rw [cString_append_zero pathFree, Search.drop_length_append, cString_eq_self queryFree,
      List.take_take, Nat.min_self]
  · have noQuery : queryOf target = [] := by
      rw [queryOf, pathOf_eq_self mark]
      exact List.drop_eq_nil_of_le (Nat.le_succ _)
    rw [pathOf_eq_self mark] at pathFree
    simp only [if_neg mark]
    rw [cString_eq_self pathFree, noQuery, pathOf_eq_self mark]
    rfl

/-- Behind the second space nothing is read: a line with two spaces is rejected for its
method alone, and otherwise its strings come out of the method and the target. -/
theorem parseRequestLine_two_spaces (placement : Placement) (methodFree : (32 : UInt8) ∉ method)
    (targetFree : (32 : UInt8) ∉ target) (rest : List UInt8) :
    parseRequestLine placement (cString (method ++ 32 :: (target ++ 32 :: rest))) =
      if method.length ≤ 15 ∧ (0 : UInt8) ∉ method then
        some ⟨method, (pathOf (cString target)).take (1023 - placement.displacement).toNat,
          (queryOf (cString target)).take (queryCap - 1)⟩
      else none := by
  by_cases zero : (0 : UInt8) ∈ method
  · rw [if_neg (fun both => both.2 zero), parseRequestLine_eq_none_iff, cString_append_of_zero zero]
    exact fun member => methodFree ((List.takeWhile_prefix _).subset (List.mem_of_mem_take member))
  · rw [cString_append_of_free zero, cString_cons_space]
    by_cases short : method.length ≤ 15
    · rw [if_pos ⟨short, zero⟩]
      have kept :
          (method ++ 32 :: cString (target ++ 32 :: rest)).takeWhile (fun byte => byte != 32) = method :=
        Search.takeWhile_append_cons methodFree _
      have ended : (cString (target ++ 32 :: rest)).takeWhile (fun byte => byte != 32) = cString target := by
        by_cases cut : (0 : UInt8) ∈ target
        · rw [cString_append_of_zero cut]
          exact Search.takeWhile_of_absent (fun member => targetFree ((List.takeWhile_prefix _).subset member))
        · rw [cString_append_of_free cut, cString_cons_space, Search.takeWhile_append_cons targetFree]
          exact (cString_eq_self (fun byte member isZero => cut (isZero ▸ member))).symm
      have noSpace : (32 : UInt8) ∉ cString target := fun member =>
        targetFree ((List.takeWhile_prefix _).subset member)
      have noZero : (0 : UInt8) ∉ cString target := Search.not_mem_takeWhile 0 target
      have uncut : method.take (methodCap - 1) = method := List.take_of_length_le short
      rw [parseRequestLine, kept, uncut, List.drop_left]
      simp only
      rw [← storeTarget_takeWhile, ended, requestLine_storeTarget placement method noSpace noZero]
    · rw [if_neg (fun both => short both.1), parseRequestLine_eq_none_iff,
        List.take_append_of_le_length (Nat.not_le.mp short)]
      exact fun member => methodFree (List.mem_of_mem_take member)

/-! ## The round trip -/

/-- A request target: the path, with the query behind a `?` if there is one. -/
def targetText (path : List UInt8) : Option (List UInt8) -> List UInt8
  | none => path
  | some query => path ++ 63 :: query

/-- The text of a request from the method up to the second space, and what follows. -/
def requestText (method path : List UInt8) (query : Option (List UInt8)) (rest : List UInt8) : List UInt8 :=
  method ++ 32 :: (targetText path query ++ 32 :: rest)

/-- The first `?` of a target is the one in front of its query. -/
theorem pathOf_targetText {path : List UInt8} (free : (63 : UInt8) ∉ path) (query : Option (List UInt8)) :
    pathOf (targetText path query) = path ∧ queryOf (targetText path query) = query.getD [] := by
  have path' : pathOf (targetText path query) = path := by
    cases query with
    | none => exact pathOf_eq_self free
    | some query =>
        rw [targetText, pathOf, Search.takeWhile_append_cons free]
  refine ⟨path', ?_⟩
  rw [queryOf, path']
  cases query with
  | none => exact List.drop_eq_nil_of_le (Nat.le_succ _)
  | some query =>
      rw [targetText, Search.drop_length_append]
      rfl

/-- A target is made of the bytes of its path, of its query, and a `?`. -/
theorem not_mem_targetText {byte : UInt8} {path : List UInt8} {query : Option (List UInt8)}
    (notMark : byte ≠ 63) (inPath : byte ∉ path) (inQuery : forall text, query = some text -> byte ∉ text) :
    byte ∉ targetText path query := by
  cases query with
  | none => exact inPath
  | some query =>
      rw [targetText, List.mem_append, List.mem_cons, not_or, not_or]
      exact ⟨inPath, notMark, inQuery query rfl⟩

/-- A request line whose method fits its array, and whose target fits the array of the
path, is taken apart as it was put together, and nothing is stored outside of the arrays,
if the array of the path lies below the request buffer. -/
theorem parseRequestLine_requestText {path : List UInt8} {query : Option (List UInt8)} (rest : List UInt8)
    (below : placement.displacement < 0)
    (shortMethod : method.length ≤ 15) (plainMethod : (32 : UInt8) ∉ method ∧ (0 : UInt8) ∉ method)
    (plainPath : (32 : UInt8) ∉ path ∧ (63 : UInt8) ∉ path ∧ (0 : UInt8) ∉ path)
    (plainQuery : forall text, query = some text -> (32 : UInt8) ∉ text ∧ (0 : UInt8) ∉ text)
    (fits : (targetText path query).length ≤ 1023) :
    parseRequestLine placement (cString (requestText method path query rest)) =
        some ⟨method, path, query.getD []⟩ ∧
      forall store, store ∈ requestStores placement (cString (requestText method path query rest)) ->
        store.2 < store.1.capacity := by
  have noSpace : (32 : UInt8) ∉ targetText path query :=
    not_mem_targetText (by decide) plainPath.1 (fun text isQuery => (plainQuery text isQuery).1)
  have noZero : (0 : UInt8) ∉ targetText path query :=
    not_mem_targetText (by decide) plainPath.2.2 (fun text isQuery => (plainQuery text isQuery).2)
  have whole : cString (targetText path query) = targetText path query :=
    cString_eq_self (fun byte member zero => noZero (zero ▸ member))
  have parts := pathOf_targetText plainPath.2.1 query
  have lengths : path.length ≤ 1023 ∧ (query.getD []).length ≤ 1023 := by
    rw [← parts.1, ← parts.2, queryOf, List.length_drop]
    exact ⟨Nat.le_trans (List.takeWhile_prefix _).length_le fits, Nat.le_trans (Nat.sub_le _ _) fits⟩
  constructor
  · have queryUncut : (query.getD []).take (queryCap - 1) = query.getD [] :=
      List.take_of_length_le lengths.2
    rw [requestText, parseRequestLine_two_spaces placement plainMethod.1 noSpace,
      if_pos ⟨shortMethod, plainMethod.2⟩, whole, parts.1, parts.2, queryUncut,
      List.take_of_length_le (by omega)]
  · rw [requestStores_inside_iff]
    intro target isTarget
    have line : cString (requestText method path query rest) =
        method ++ 32 :: (targetText path query ++ 32 :: cString rest) := by
      rw [requestText, cString_append_of_free plainMethod.2, cString_cons_space,
        cString_append_of_free noZero, cString_cons_space]
    have uncut : method.take (methodCap - 1) = method := List.take_of_length_le shortMethod
    rw [requestTarget, line, Search.takeWhile_append_cons plainMethod.1, uncut, List.drop_left] at isTarget
    simp only at isTarget
    rw [Search.takeWhile_append_cons noSpace] at isTarget
    rw [← Option.some.inj isTarget, TargetFits, if_pos below]
    exact Nat.lt_succ_of_le fits

/-- A query with a `?` and an equals sign in it. -/
theorem parseRequestLine_requestText_two_marks :
    parseRequestLine ⟨-1024, Or.inl (Int.le_refl _)⟩ (cString
      (ascii "POST /api/upload?path=/a?b HTTP/1.1\r\n")) =
      some ⟨ascii "POST", ascii "/api/upload", ascii "path=/a?b"⟩ :=
  (@parseRequestLine_requestText ⟨-1024, Or.inl (Int.le_refl _)⟩ (ascii "POST") (ascii "/api/upload")
    (some (ascii "path=/a?b")) (ascii "HTTP/1.1\r\n") (by decide) (by decide) (by decide) (by decide)
    (fun text isQuery => Option.some.inj isQuery ▸ by decide) (by decide)).1

/-! ## Nothing but the first line -/

/-- The bytes of a header block before its first line end. -/
def firstLine (block : List UInt8) : List UInt8 := Search.beforeFirst (ascii "\r\n") block

/-- The strings are those of a first line of the form method, space, target, space,
version, and come out with anything else behind the line too. -/
structure FromFirstLine (layout : Layout) (block : List UInt8) (parsed : RequestLine) : Prop where
  form : Exists fun target => Exists fun version =>
    firstLine block = parsed.method ++ 32 :: (target ++ 32 :: version) ∧
      (32 : UInt8) ∉ parsed.method ∧ (32 : UInt8) ∉ target ∧
      parsed.path <+: target ∧ parsed.query <:+: target
  alone : forall rest result, MayParse layout (cString (firstLine block ++ rest)) result ->
    result = some parsed

/-- A text with two spaces, cut at the first and the second. -/
theorem split_at_two_spaces {text : List UInt8} (two : 2 ≤ text.count 32) :
    Exists fun method => Exists fun target => Exists fun version =>
      text = method ++ 32 :: (target ++ 32 :: version) ∧ (32 : UInt8) ∉ method ∧ (32 : UInt8) ∉ target := by
  have first : (32 : UInt8) ∈ text := List.count_pos_iff.mp (by omega)
  have split := Search.split_at_first first
  have methodFree := Search.not_mem_takeWhile (32 : UInt8) text
  generalize text.takeWhile (fun byte => byte != 32) = method at split methodFree
  generalize text.drop (method.length + 1) = rest at split
  have later : (32 : UInt8) ∈ rest := by
    rw [split, List.count_append, List.count_eq_zero.mpr methodFree, List.count_cons_self] at two
    exact List.count_pos_iff.mp (by omega)
  have second := Search.split_at_first later
  have targetFree := Search.not_mem_takeWhile (32 : UInt8) rest
  rw [second] at split
  exact ⟨method, _, _, split, methodFree, targetFree⟩

/-- The target of a line with two spaces ends at the second. -/
theorem requestTarget_two_spaces (methodFree : (32 : UInt8) ∉ method) (targetFree : (32 : UInt8) ∉ target)
    (accepted : method.length ≤ 15 ∧ (0 : UInt8) ∉ method) (rest : List UInt8) :
    requestTarget (cString (method ++ 32 :: (target ++ 32 :: rest))) = some (cString target) := by
  have uncut : method.take (methodCap - 1) = method := List.take_of_length_le accepted.1
  have ended : (cString (target ++ 32 :: rest)).takeWhile (fun byte => byte != 32) = cString target := by
    by_cases cut : (0 : UInt8) ∈ target
    · rw [cString_append_of_zero cut]
      exact Search.takeWhile_of_absent (fun member => targetFree ((List.takeWhile_prefix _).subset member))
    · rw [cString_append_of_free cut, cString_cons_space, Search.takeWhile_append_cons targetFree]
      exact (cString_eq_self (fun byte member isZero => cut (isZero ▸ member))).symm
  rw [cString_append_of_free accepted.2, cString_cons_space, requestTarget,
    Search.takeWhile_append_cons methodFree, uncut, List.drop_left]
  simp only [ended]

variable {layout : Layout}

/-- A first line with two spaces is all that is read of the block, if its target keeps
clear of what lies behind the array. -/
theorem fromFirstLine_of_two_spaces {block : List UInt8} {parsed : RequestLine}
    (two : 2 ≤ (firstLine block).count 32) (harmless : Harmless layout (cString block))
    (accepted : parseRequestLine layout.toPlacement (cString block) = some parsed) :
    FromFirstLine layout block parsed := by
  rcases split_at_two_spaces two with ⟨method, target, version, split, methodFree, targetFree⟩
  rcases Search.beforeFirst_prefix (ascii "\r\n") block with ⟨tail, whole⟩
  have line : forall rest, firstLine block ++ rest = method ++ 32 :: (target ++ 32 :: (version ++ rest)) := by
    intro rest
    rw [split, List.append_assoc, List.cons_append, List.append_assoc, List.cons_append]
  have isBlock : block = method ++ 32 :: (target ++ 32 :: (version ++ tail)) := by
    rw [← line, firstLine, whole]
  have any : forall rest, parseRequestLine layout.toPlacement (cString (firstLine block ++ rest)) =
      if method.length ≤ 15 ∧ (0 : UInt8) ∉ method then
        some ⟨method, (pathOf (cString target)).take (1023 - layout.displacement).toNat,
          (queryOf (cString target)).take (queryCap - 1)⟩
      else none := by
    intro rest
    rw [line]
    exact parseRequestLine_two_spaces layout.toPlacement methodFree targetFree (version ++ rest)
  have here := any tail
  rw [firstLine, whole, accepted] at here
  by_cases fits : method.length ≤ 15 ∧ (0 : UInt8) ∉ method
  · rw [if_pos fits] at here
    have printed : cString target <+: target := List.takeWhile_prefix _
    have parts := Option.some.inj here
    have clear : TargetClear layout (cString target) := by
      rw [isBlock, harmless_iff] at harmless
      exact harmless _ (requestTarget_two_spaces methodFree targetFree fits _)
    refine ⟨⟨target, version, ?_⟩, fun rest result may => ?_⟩
    · rw [parts]
      refine ⟨split, methodFree, targetFree, ?_, ?_⟩
      · exact (List.take_prefix _ _).trans ((List.takeWhile_prefix _).trans printed)
      · exact ((List.take_prefix _ _).isInfix.trans (List.drop_suffix _ _).isInfix).trans printed.isInfix
    · have result' : result = parseRequestLine layout.toPlacement (cString (firstLine block ++ rest)) := by
        apply may
        rw [line, harmless_iff, requestTarget_two_spaces methodFree targetFree fits]
        intro other isTarget
        exact Option.some.inj isTarget ▸ clear
      rw [result', any rest, if_pos fits, parts]
  · rw [if_neg fits] at here
    cases here

/-- A rejected line has no target. -/
theorem requestTarget_eq_none (rejected : (32 : UInt8) ∉ line.take 16) : requestTarget line = none := by
  have noLine := (@parseRequestLine_eq_none_iff ⟨-1024, Or.inl (Int.le_refl _)⟩ line).mpr rejected
  unfold requestTarget
  split
  next rest followed =>
    unfold parseRequestLine at noLine
    dsimp only at noLine
    rw [followed] at noLine
    cases noLine
  next => rfl

/-- What is accepted comes out of the first line if and only if that line has two spaces
and its target keeps clear of what lies behind the array of the path, or the block has
no space among its first 16 bytes, so that it is rejected. -/
theorem fromFirstLine_iff (layout : Layout) (block : List UInt8) :
    (forall parsed, MayParse layout (cString block) (some parsed) -> FromFirstLine layout block parsed) ↔
      (2 ≤ (firstLine block).count 32 ∧
        forall target, requestTarget (cString block) = some target -> TargetClear layout target) ∨
      (32 : UInt8) ∉ (cString block).take 16 := by
  rw [← harmless_iff]
  constructor
  · intro fromFirst
    by_cases rejected : (32 : UInt8) ∉ (cString block).take 16
    · exact Or.inr rejected
    · cases accepted : parseRequestLine layout.toPlacement (cString block) with
      | none => exact absurd (parseRequestLine_eq_none_iff.mp accepted) rejected
      | some parsed =>
          have comes := fromFirst parsed (fun _ => accepted.symm)
          rcases comes.form with ⟨target, version, split, _⟩
          refine Or.inl ⟨?_, ?_⟩
          · rw [split]
            simp only [List.count_append, List.count_cons_self]
            omega
          · -- otherwise the call might come to a rejection as well
            by_contra harms
            rcases Search.beforeFirst_prefix (ascii "\r\n") block with ⟨tail, whole⟩
            have rejects := comes.alone tail none
            rw [firstLine, whole] at rejects
            exact absurd (rejects (fun harmless => absurd harmless harms)) nofun
  · rintro (⟨two, harmless⟩ | rejected) parsed may
    · exact fromFirstLine_of_two_spaces two harmless (may harmless).symm
    · have harmless : Harmless layout (cString block) := by
        rw [harmless_iff, requestTarget_eq_none rejected]
        exact fun _ isTarget => absurd isTarget nofun
      have accepted := may harmless
      rw [parseRequestLine_eq_none_iff.mpr rejected] at accepted
      cases accepted

/-- A request line without a version, and a header with a space in its value. -/
def unversionedBlock : List UInt8 := ascii "GET /x\r\nHost: a b\r\n\r\n"

theorem belowBuffer_disjoint : (-1024 : Int) ≤ -1024 ∨ 65536 ≤ (-1024 : Int) := Or.inl (Int.le_refl _)

/-- The array of the path just below the request buffer. -/
def belowBuffer : Layout := ⟨⟨-1024, belowBuffer_disjoint⟩, 0, fun _ => Int.le_refl 0⟩

/-- It is accepted, with the line end and the name of the header in the path. -/
theorem later_line_in_path :
    (firstLine unversionedBlock).count 32 = 1 ∧
      (forall result, MayParse belowBuffer (cString unversionedBlock) result ↔
        result = some ⟨ascii "GET", ascii "/x\r\nHost:", []⟩) ∧
      ¬ forall parsed, MayParse belowBuffer (cString unversionedBlock) (some parsed) ->
        FromFirstLine belowBuffer unversionedBlock parsed := by
  have accepted : parseRequestLine belowBuffer.toPlacement (cString unversionedBlock) =
      some ⟨ascii "GET", ascii "/x\r\nHost:", []⟩ := by decide
  have harmless : Harmless belowBuffer (cString unversionedBlock) := by
    rw [harmless_iff]
    intro target isTarget
    have known : requestTarget (cString unversionedBlock) = some (ascii "/x\r\nHost:") := by decide
    rw [← Option.some.inj (known.symm.trans isTarget), TargetClear]
    decide
  have one : (firstLine unversionedBlock).count 32 = 1 := by decide
  refine ⟨one, fun result => ⟨fun may => (may harmless).trans accepted, fun same _ => same.trans accepted.symm⟩,
    fun fromFirst => ?_⟩
  rcases (fromFirst _ (fun _ => accepted.symm)).form with ⟨target, version, split, _⟩
  have spaces := congrArg (List.count 32) split
  simp only [List.count_append, List.count_cons_self] at spaces
  omega

end Server
end AdbBridge
