import AdbBridge.Library.Numeral

namespace AdbBridge
namespace Server

open Library Library.Numeral

/-!
# The request line and the headers

`parse_request_line` copies the method, the path and the query of the first line
into three arrays.  Path and query share the array `path`: at the first `?` a
terminator is stored, and the query is collected behind it and copied to `query`
at the end.  The bound on the path compares the moving pointer `path` with the
start of the line, so what is kept of the path depends on where the two arrays
lie; this is the only way in which it depends on it.

`stored` is the memory from the array `path` on as the function has written it, also
past the end of the array.  It reads as it was written only while the stores past the
end hit nothing else that is in use; where they do is the subject of `RequestStores`.
-/

/-- `path - line` at the call: the two arrays, of 1024 and 65536 bytes, do not overlap. -/
structure Placement where
  displacement : Int
  disjoint : displacement ≤ -1024 ∨ 65536 ≤ displacement

def methodCap : Nat := 16

def pathCap : Nat := 1024

def queryCap : Nat := 1024

/-- The bytes stored from `path` on, with the index of `q_start` once a `?` was seen. -/
structure Target where
  stored : List UInt8
  qStart : Option Nat
deriving DecidableEq, Repr

/-- The loop over the request target; it ends at a space or at the end of the string. -/
def storeTarget (placement : Placement) : Target -> List UInt8 -> Target
  | target, [] => target
  | target, byte :: rest =>
      if byte = 32 then target
      else
        match target.qStart with
        | none =>
            if byte = 63 then
              storeTarget placement ⟨target.stored ++ [0], some (target.stored.length + 1)⟩ rest
            else if placement.displacement + target.stored.length < pathCap - 1 then
              storeTarget placement ⟨target.stored ++ [byte], none⟩ rest
            else storeTarget placement target rest
        | some qStart =>
            if (target.stored.length : Int) - qStart < queryCap - 1 then
              storeTarget placement ⟨target.stored ++ [byte], some qStart⟩ rest
            else storeTarget placement target rest

/-- The three strings of a request line. -/
structure RequestLine where
  method : List UInt8
  path : List UInt8
  query : List UInt8
deriving DecidableEq, Repr

/-- The strings in the arrays after the loop: `query` is filled by `strncpy`. -/
def Target.requestLine (target : Target) (method : List UInt8) : RequestLine where
  method := method
  path := cString target.stored
  query :=
    match target.qStart with
    | none => []
    | some qStart => (cString (target.stored.drop qStart)).take (queryCap - 1)

/-- `parse_request_line` on a string; `none` is the result -1. -/
def parseRequestLine (placement : Placement) (line : List UInt8) : Option RequestLine :=
  let method := (line.takeWhile (fun byte => byte != 32)).take (methodCap - 1)
  match line.drop method.length with
  | 32 :: rest => some ((storeTarget placement ⟨[], none⟩ rest).requestLine method)
  | _ => none

/-! ## Header lookup -/

/-- `strstr`: the text from the first occurrence of the needle on. -/
def strstr (needle : List UInt8) : List UInt8 -> Option (List UInt8)
  | [] => if needle = [] then some [] else none
  | byte :: rest =>
      if needle.isPrefixOf (byte :: rest) then some (byte :: rest) else strstr needle rest

/-- The text behind the first occurrence of a field name, in its usual spelling
or else in lower case, without the blanks that follow. -/
def fieldValue (name lower headers : List UInt8) : Option (List UInt8) :=
  ((strstr name headers).or (strstr lower headers)).map
    (fun found => (found.drop name.length).dropWhile (fun byte => byte == 32))

def getContentLength (headers : List UInt8) : Int :=
  match fieldValue (ascii "Content-Length:") (ascii "content-length:") headers with
  | none => -1
  | some value => strtol 10 value

def isChunked (headers : List UInt8) : Bool :=
  match fieldValue (ascii "Transfer-Encoding:") (ascii "transfer-encoding:") headers with
  | none => false
  | some value => (ascii "chunked").isPrefixOf value

/-- The condition under which `100 Continue` is sent. -/
def expectsContinue (method headers : List UInt8) : Bool :=
  method == ascii "POST" &&
    ((strstr (ascii "Expect: 100-continue") headers).isSome ||
      (strstr (ascii "expect: 100-continue") headers).isSome)

/-- The length is a `long`. -/
theorem getContentLength_isLong (headers : List UInt8) :
    -9223372036854775808 ≤ getContentLength headers ∧ getContentLength headers < 9223372036854775808 := by
  unfold getContentLength
  split
  · exact ⟨by decide, by decide⟩
  next value _ =>
    have bounds := strtol_isLong 10 value
    have most : longMax = 9223372036854775807 := rfl
    omega

/-! ## What the loop keeps of a target -/

variable {placement : Placement}

/-- The path is kept as long as its last byte is below the bound. -/
theorem storeTarget_path {stored text : List UInt8} (rest : List UInt8)
    (plain : forall byte, byte ∈ text -> byte ≠ 32 ∧ byte ≠ 63)
    (fits : placement.displacement + stored.length + text.length ≤ pathCap - 1) :
    storeTarget placement ⟨stored, none⟩ (text ++ rest) =
      storeTarget placement ⟨stored ++ text, none⟩ rest := by
  induction text generalizing stored with
  | nil => rw [List.nil_append, List.append_nil]
  | cons byte text inductionHypothesis =>
      have here := plain byte List.mem_cons_self
      rw [List.length_cons] at fits
      have below : placement.displacement + stored.length < pathCap - 1 := by omega
      rw [List.cons_append, storeTarget, if_neg here.1]
      simp only [if_neg here.2, if_pos below]
      rw [inductionHypothesis (fun other member => plain other (List.mem_cons_of_mem _ member)),
        List.append_assoc, List.singleton_append]
      rw [List.length_append, List.length_singleton]
      omega

/-- Nothing of the path is kept if the array lies above the line. -/
theorem storeTarget_path_above {stored text : List UInt8} (rest : List UInt8)
    (plain : forall byte, byte ∈ text -> byte ≠ 32 ∧ byte ≠ 63)
    (above : pathCap - 1 ≤ placement.displacement + stored.length) :
    storeTarget placement ⟨stored, none⟩ (text ++ rest) =
      storeTarget placement ⟨stored, none⟩ rest := by
  induction text with
  | nil => rfl
  | cons byte text inductionHypothesis =>
      have here := plain byte List.mem_cons_self
      rw [List.cons_append, storeTarget, if_neg here.1]
      simp only [if_neg here.2, if_neg (Int.not_lt.mpr above)]
      exact inductionHypothesis (fun other member => plain other (List.mem_cons_of_mem _ member))

/-- The first `?` ends the path. -/
theorem storeTarget_mark (stored rest : List UInt8) :
    storeTarget placement ⟨stored, none⟩ (63 :: rest) =
      storeTarget placement ⟨stored ++ [0], some (stored.length + 1)⟩ rest := by
  rw [storeTarget, if_neg (by decide)]
  simp only [if_true]

/-- A space ends the target. -/
theorem storeTarget_space (target : Target) (rest : List UInt8) :
    storeTarget placement target (32 :: rest) = target := by
  rw [storeTarget, if_pos rfl]

/-- Of the query the first 1023 bytes are kept. -/
theorem storeTarget_query (before : List UInt8) {kept text : List UInt8} (rest : List UInt8)
    (plain : forall byte, byte ∈ text -> byte ≠ 32) (short : kept.length ≤ queryCap - 1) :
    storeTarget placement ⟨before ++ kept, some before.length⟩ (text ++ rest) =
      storeTarget placement ⟨before ++ (kept ++ text).take (queryCap - 1), some before.length⟩ rest := by
  induction text generalizing kept with
  | nil => rw [List.nil_append, List.append_nil, List.take_of_length_le short]
  | cons byte text inductionHypothesis =>
      have later : forall other, other ∈ text -> other ≠ 32 := fun other member =>
        plain other (List.mem_cons_of_mem _ member)
      have used : ((before ++ kept).length : Int) - before.length = kept.length := by
        rw [List.length_append]
        omega
      rw [List.cons_append, storeTarget, if_neg (plain byte List.mem_cons_self)]
      simp only [used]
      by_cases room : kept.length < queryCap - 1
      · have below : (kept.length : Int) < queryCap - 1 := by
          have known : queryCap = 1024 := rfl
          omega
        rw [if_pos below, List.append_assoc, inductionHypothesis later (by
          rw [List.length_append, List.length_singleton]
          omega), List.append_assoc, List.singleton_append]
      · have full : ¬ (kept.length : Int) < queryCap - 1 := by
          have known : queryCap = 1024 := rfl
          omega
        rw [if_neg full, inductionHypothesis later short]
        congr 2
        rw [List.take_append_of_le_length (by omega), List.take_append_of_le_length (by omega)]

end Server
end AdbBridge
