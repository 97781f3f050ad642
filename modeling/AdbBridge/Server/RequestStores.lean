import AdbBridge.Library.Search
import AdbBridge.Server.RequestLine

namespace AdbBridge
namespace Server

open Library Library.Numeral

/-!
# Where `parse_request_line` stores

Every byte the function stores, terminators included, with its array and its
index.  The path bound compares `path` with `line`.  Below the request buffer it
admits more than the array holds, above it nothing; the query bound starts anew
behind the path, in the same array.

As long as the stores keep to the arrays, or hit nothing behind `path` that is read
again, the strings are those of `parseRequestLine`.  Once a store has hit other
memory, such as the array `query` that some builds put right behind `path`, nothing
is known of them.
-/

/-- The arrays `parse_request_line` stores into. -/
inductive OutArray where
  | method
  | path
  | query
deriving DecidableEq, Repr

/-- The sizes `handle_client` passes for them. -/
def OutArray.capacity : OutArray -> Nat
  | .method => methodCap
  | .path => pathCap
  | .query => queryCap

/-- The indexes in `path` at which the loop over the target stores. -/
def targetStores (placement : Placement) : Target -> List UInt8 -> List Nat
  | _, [] => []
  | target, byte :: rest =>
      if byte = 32 then []
      else
        match target.qStart with
        | none =>
            if byte = 63 then
              target.stored.length ::
                targetStores placement ⟨target.stored ++ [0], some (target.stored.length + 1)⟩ rest
            else if placement.displacement + target.stored.length < pathCap - 1 then
              target.stored.length :: targetStores placement ⟨target.stored ++ [byte], none⟩ rest
            else targetStores placement target rest
        | some qStart =>
            if (target.stored.length : Int) - qStart < queryCap - 1 then
              target.stored.length :: targetStores placement ⟨target.stored ++ [byte], some qStart⟩ rest
            else targetStores placement target rest

/-- The stores of the path and of the query: the loop, the terminator behind it,
and with a query the padded copy `strncpy` makes and its terminator. -/
def pathStores (placement : Placement) (rest : List UInt8) : List (OutArray × Nat) :=
  let final := storeTarget placement ⟨[], none⟩ rest
  (targetStores placement ⟨[], none⟩ rest).map (Prod.mk OutArray.path) ++
    (.path, final.stored.length) ::
      if final.qStart.isSome then
        (List.range (queryCap - 1)).map (Prod.mk OutArray.query) ++ [(.query, queryCap - 1)]
      else []

/-- The stores of a call, in their order. -/
def requestStores (placement : Placement) (line : List UInt8) : List (OutArray × Nat) :=
  let method := (line.takeWhile (fun byte => byte != 32)).take (methodCap - 1)
  [(.query, 0), (.path, 0), (.method, 0)] ++
    (List.range method.length).map (Prod.mk OutArray.method) ++ [(.method, method.length)] ++
      match line.drop method.length with
      | 32 :: rest => pathStores placement rest
      | _ => []

/-! ## What a call may come to -/

/-- Where `handle_client` has the array `path`, and how many bytes behind the array hold
nothing that is read again.  A frame that is not known has none. -/
structure Layout extends Placement where
  spare : Nat
  clear : displacement < 0 -> displacement + pathCap + spare ≤ 0

/-- A store hits its array, or a spare byte behind `path`. -/
def Within (spare : Nat) (store : OutArray × Nat) : Prop :=
  store.2 < store.1.capacity + if store.1 = .path then spare else 0

theorem within_zero (store : OutArray × Nat) : Within 0 store ↔ store.2 < store.1.capacity := by
  rw [Within, ite_self, Nat.add_zero]

theorem Within.of_lt {spare : Nat} {store : OutArray × Nat} (inside : store.2 < store.1.capacity) :
    Within spare store :=
  Nat.lt_of_lt_of_le inside (Nat.le_add_right _ _)

/-- All stores of a call do. -/
def Harmless (layout : Layout) (line : List UInt8) : Prop :=
  forall store, store ∈ requestStores layout.toPlacement line -> Within layout.spare store

/-- The results a call may have. -/
def MayParse (layout : Layout) (line : List UInt8) (result : Option RequestLine) : Prop :=
  Harmless layout line -> result = parseRequestLine layout.toPlacement line

/-! ## The loop stores one byte behind the other -/

variable {placement : Placement}

theorem targetStores_eq_range (target : Target) (text : List UInt8) :
    target.stored.length ≤ (storeTarget placement target text).stored.length ∧
      targetStores placement target text = List.range' target.stored.length
        ((storeTarget placement target text).stored.length - target.stored.length) := by
  induction text generalizing target with
  | nil =>
      rw [storeTarget, targetStores, Nat.sub_self]
      exact ⟨Nat.le_refl _, rfl⟩
  | cons byte rest inductionHypothesis =>
      have stores : forall next : Target, next.stored.length = target.stored.length + 1 ->
          target.stored.length ≤ (storeTarget placement next rest).stored.length ∧
            target.stored.length :: targetStores placement next rest =
              List.range' target.stored.length
                ((storeTarget placement next rest).stored.length - target.stored.length) := by
        intro next longer
        have later := inductionHypothesis next
        rw [longer] at later
        refine ⟨by omega, ?_⟩
        rw [later.2, ← List.range'_succ]
        congr 1
        omega
      have grown : forall byte : UInt8, (target.stored ++ [byte]).length = target.stored.length + 1 :=
        fun byte => by rw [List.length_append, List.length_singleton]
      rw [storeTarget, targetStores]
      by_cases space : byte = 32
      · rw [if_pos space, if_pos space, Nat.sub_self]
        exact ⟨Nat.le_refl _, rfl⟩
      · rw [if_neg space, if_neg space]
        cases qStart : target.qStart with
        | none =>
            by_cases mark : byte = 63
            · simp only [if_pos mark]
              exact stores _ (grown 0)
            · simp only [if_neg mark]
              split
              · exact stores _ (grown byte)
              · exact inductionHypothesis target
        | some start =>
            dsimp only
            split
            · exact stores _ (grown byte)
            · exact inductionHypothesis target

/-- The stores of path and query go as far as the final terminator. -/
theorem pathStores_within_iff (spare : Nat) (rest : List UInt8) :
    (forall store, store ∈ pathStores placement rest -> Within spare store) ↔
      (storeTarget placement ⟨[], none⟩ rest).stored.length < pathCap + spare := by
  constructor
  · intro within
    exact within (.path, _) (List.mem_append_right _ List.mem_cons_self)
  · intro fits store member
    rcases List.mem_append.mp member with inLoop | behind
    · rcases List.mem_map.mp inLoop with ⟨index, stored, same⟩
      rw [(targetStores_eq_range _ rest).2, List.mem_range'_1] at stored
      rw [← same]
      change index < pathCap + spare
      rw [List.length_nil] at stored
      omega
    · rcases List.mem_cons.mp behind with terminator | inQuery
      · rw [terminator]
        exact fits
      · split at inQuery
        · rcases List.mem_append.mp inQuery with copied | last
          · rcases List.mem_map.mp copied with ⟨index, below, same⟩
            rw [← same]
            exact Within.of_lt (Nat.lt_of_lt_of_le (List.mem_range.mp below) (Nat.sub_le _ _))
          · rw [List.mem_singleton.mp last]
            exact Within.of_lt (by decide)
        · cases inQuery

/-! ## How far the loop gets -/

/-- Of the path as much is kept as the placement admits. -/
theorem storeTarget_kept {stored text : List UInt8} (rest : List UInt8)
    (plain : forall byte, byte ∈ text -> byte ≠ 32 ∧ byte ≠ 63) :
    storeTarget placement ⟨stored, none⟩ (text ++ rest) =
      storeTarget placement
        ⟨stored ++ text.take (1023 - placement.displacement - stored.length).toNat, none⟩ rest := by
  have size : pathCap = 1024 := rfl
  by_cases fits : placement.displacement + stored.length + text.length ≤ pathCap - 1
  · rw [storeTarget_path rest plain fits, List.take_of_length_le (by omega)]
  · by_cases above : pathCap - 1 ≤ placement.displacement + stored.length
    · rw [storeTarget_path_above rest plain above, show
        (1023 - placement.displacement - stored.length).toNat = 0 by omega, List.take_zero,
        List.append_nil]
    · -- the part that fits is kept, and with it the bound is reached
      have cut := List.take_append_drop (1023 - placement.displacement - stored.length).toNat text
      have firstPlain : forall byte, byte ∈ text.take (1023 - placement.displacement - stored.length).toNat ->
          byte ≠ 32 ∧ byte ≠ 63 := fun byte member => plain byte (List.mem_of_mem_take member)
      have lastPlain : forall byte, byte ∈ text.drop (1023 - placement.displacement - stored.length).toNat ->
          byte ≠ 32 ∧ byte ≠ 63 := fun byte member => plain byte (List.mem_of_mem_drop member)
      have kept : (text.take (1023 - placement.displacement - stored.length).toNat).length =
          (1023 - placement.displacement - stored.length).toNat := by
        rw [List.length_take]
        omega
      have whole : text ++ rest = text.take (1023 - placement.displacement - stored.length).toNat ++
          (text.drop (1023 - placement.displacement - stored.length).toNat ++ rest) := by
        rw [← List.append_assoc, cut]
      rw [whole, storeTarget_path _ firstPlain (by omega), storeTarget_path_above rest lastPlain (by
        rw [List.length_append]
        omega)]

/-- The part of a text up to the first space or its end, and nothing but a
space behind it. -/
theorem storeTarget_takeWhile (target : Target) (rest : List UInt8) :
    storeTarget placement target (rest.takeWhile (fun byte => byte != 32)) =
      storeTarget placement target rest := by
  induction rest generalizing target with
  | nil => rfl
  | cons byte rest inductionHypothesis =>
      by_cases space : byte = 32
      · subst space
        rw [List.takeWhile_cons_of_neg (by decide), storeTarget_space]
        rfl
      · rw [List.takeWhile_cons_of_pos (by simpa using space), storeTarget, storeTarget, if_neg space,
          if_neg space]
        simp only [inductionHypothesis]

/-- The path of a target: what stands before the first `?`. -/
def pathOf (target : List UInt8) : List UInt8 := target.takeWhile (fun byte => byte != 63)

/-- The query of a target: what stands behind the first `?`. -/
def queryOf (target : List UInt8) : List UInt8 := target.drop ((pathOf target).length + 1)

/-- The index of the terminator behind path and query. -/
def terminatorIndex (placement : Placement) (target : List UInt8) : Nat :=
  min (pathOf target).length (1023 - placement.displacement).toNat +
    if (63 : UInt8) ∈ target then 1 + min (queryOf target).length 1023 else 0

/-- A target without a `?` is all path. -/
theorem pathOf_eq_self {target : List UInt8} (noMark : (63 : UInt8) ∉ target) : pathOf target = target :=
  Search.takeWhile_of_absent noMark

/-- What the loop over a target stores: of the path what the placement admits, and
behind a terminator the first 1023 bytes of the query. -/
theorem storeTarget_eq (placement : Placement) {target : List UInt8} (noSpace : (32 : UInt8) ∉ target) :
    storeTarget placement ⟨[], none⟩ target =
      if (63 : UInt8) ∈ target then
        ⟨(pathOf target).take (1023 - placement.displacement).toNat ++
          0 :: (queryOf target).take (queryCap - 1),
          some (((pathOf target).take (1023 - placement.displacement).toNat).length + 1)⟩
      else ⟨target.take (1023 - placement.displacement).toNat, none⟩ := by
  have part : forall byte, byte ∈ pathOf target -> byte ∈ target := fun byte member =>
    (List.takeWhile_prefix _).subset member
  have plain : forall byte, byte ∈ pathOf target -> byte ≠ 32 ∧ byte ≠ 63 := by
    intro byte member
    refine ⟨fun space => noSpace (space ▸ part byte member), ?_⟩
    rintro rfl
    exact Search.not_mem_takeWhile 63 target member
  have kept : forall rest : List UInt8, storeTarget placement ⟨[], none⟩ (pathOf target ++ rest) =
      storeTarget placement ⟨(pathOf target).take (1023 - placement.displacement).toNat, none⟩ rest := by
    intro rest
    rw [storeTarget_kept rest plain, List.nil_append, List.length_nil, Int.natCast_zero, Int.sub_zero]
  by_cases mark : (63 : UInt8) ∈ target
  · have split : target = pathOf target ++ 63 :: queryOf target := Search.split_at_first mark
    have queryPlain : forall byte, byte ∈ queryOf target -> byte ≠ 32 := by
      rintro byte member rfl
      exact noSpace (List.mem_of_mem_drop member)
    have collected : forall before : List UInt8,
        storeTarget placement ⟨before, some before.length⟩ (queryOf target) =
          ⟨before ++ (queryOf target).take (queryCap - 1), some before.length⟩ := by
      intro before
      have all := @storeTarget_query placement before [] (queryOf target) [] queryPlain (Nat.zero_le _)
      rwa [List.append_nil, List.append_nil, List.nil_append] at all
    have shape : storeTarget placement ⟨[], none⟩ target =
        storeTarget placement ⟨[], none⟩ (pathOf target ++ 63 :: queryOf target) := congrArg _ split
    have length : forall stored : List UInt8, stored.length + 1 = (stored ++ [(0 : UInt8)]).length :=
      fun stored => by rw [List.length_append, List.length_singleton]
    rw [if_pos mark, shape, kept, storeTarget_mark, length, collected, List.append_assoc,
      List.singleton_append]
  · have all := kept []
    rw [List.append_nil, storeTarget, pathOf_eq_self mark] at all
    rw [if_neg mark, all]

/-- Where the loop over a target ends. -/
theorem length_storeTarget (placement : Placement) {target : List UInt8} (noSpace : (32 : UInt8) ∉ target) :
    (storeTarget placement ⟨[], none⟩ target).stored.length = terminatorIndex placement target := by
  have size : queryCap = 1024 := rfl
  rw [storeTarget_eq placement noSpace, terminatorIndex]
  by_cases mark : (63 : UInt8) ∈ target
  · rw [if_pos mark, if_pos mark]
    simp only [List.length_append, List.length_take, List.length_cons]
    omega
  · rw [if_neg mark, if_neg mark, pathOf_eq_self mark, List.length_take, Nat.min_comm, Nat.add_zero]

/-! ## The bound -/

/-- The request target of a line, if a space ends its method in time. -/
def requestTarget (line : List UInt8) : Option (List UInt8) :=
  match line.drop ((line.takeWhile (fun byte => byte != 32)).take (methodCap - 1)).length with
  | 32 :: rest => some (rest.takeWhile (fun byte => byte != 32))
  | _ => none

/-- The target fits the array: as a whole if the array lies below the request
buffer, and by its query alone if the array lies above. -/
def TargetFits (placement : Placement) (target : List UInt8) : Prop :=
  if placement.displacement < 0 then target.length < 1024 else (queryOf target).length < 1023

theorem terminatorIndex_lt_iff (placement : Placement) (target : List UInt8) :
    terminatorIndex placement target < 1024 ↔ TargetFits placement target := by
  have apart := placement.disjoint
  unfold terminatorIndex TargetFits
  by_cases mark : (63 : UInt8) ∈ target
  · have split : target = pathOf target ++ 63 :: queryOf target := Search.split_at_first mark
    have length := congrArg List.length split
    rw [List.length_append, List.length_cons] at length
    rw [if_pos mark]
    by_cases lower : placement.displacement < 0
    · rw [if_pos lower]
      omega
    · rw [if_neg lower]
      omega
  · have query : (queryOf target).length = 0 := by
      rw [queryOf, pathOf_eq_self mark, List.length_drop]
      omega
    rw [if_neg mark, pathOf_eq_self mark, query]
    by_cases lower : placement.displacement < 0
    · rw [if_pos lower]
      omega
    · rw [if_neg lower]
      omega

/-- The method is cut to its array. -/
theorem methodStores_inside {line : List UInt8} {store : OutArray × Nat}
    (member : store ∈ [(OutArray.query, 0), (.path, 0), (.method, 0)] ++
      (List.range ((line.takeWhile (fun byte => byte != 32)).take (methodCap - 1)).length).map
        (Prod.mk OutArray.method) ++
      [(.method, ((line.takeWhile (fun byte => byte != 32)).take (methodCap - 1)).length)]) :
    store.2 < store.1.capacity := by
  have short : ((line.takeWhile (fun byte => byte != 32)).take (methodCap - 1)).length < methodCap := by
    have size : methodCap = 16 := rfl
    rw [List.length_take]
    omega
  rcases List.mem_append.mp member with earlier | terminator
  · rcases List.mem_append.mp earlier with initial | copied
    · have all : forall store, store ∈ [(OutArray.query, 0), (.path, 0), (.method, 0)] ->
          store.2 < store.1.capacity := forall_mem_of_all (by decide)
      exact all store initial
    · rcases List.mem_map.mp copied with ⟨index, below, same⟩
      rw [← same]
      exact Nat.lt_trans (List.mem_range.mp below) short
  · rw [List.mem_singleton.mp terminator]
    exact short

/-- How far behind `path` a call stores, unless it rejects the line. -/
theorem requestStores_within_iff (placement : Placement) (spare : Nat) (line : List UInt8) :
    (forall store, store ∈ requestStores placement line -> Within spare store) ↔
      forall target, requestTarget line = some target ->
        terminatorIndex placement target < pathCap + spare := by
  have part : (forall store, store ∈ requestStores placement line -> Within spare store) ↔
      forall rest, line.drop ((line.takeWhile (fun byte => byte != 32)).take (methodCap - 1)).length =
        32 :: rest -> forall store, store ∈ pathStores placement rest -> Within spare store := by
    constructor
    · intro within rest followed store member
      refine within store (List.mem_append_right _ ?_)
      rw [followed]
      exact member
    · intro within store member
      rcases List.mem_append.mp member with inMethod | behind
      · exact Within.of_lt (methodStores_inside inMethod)
      · split at behind
        next rest followed => exact within rest followed store behind
        next => cases behind
  have bound : forall rest : List UInt8,
      (forall store, store ∈ pathStores placement rest -> Within spare store) ↔
        terminatorIndex placement (rest.takeWhile (fun byte => byte != 32)) < pathCap + spare := by
    intro rest
    have noSpace := Search.not_mem_takeWhile (32 : UInt8) rest
    rw [pathStores_within_iff, ← storeTarget_takeWhile, length_storeTarget placement noSpace]
  rw [part]
  constructor
  · intro within target isTarget
    unfold requestTarget at isTarget
    split at isTarget
    next rest followed =>
      rw [← Option.some.inj isTarget]
      exact (bound rest).mp (within rest followed)
    next => cases isTarget
  · intro fits rest followed
    refine (bound rest).mpr (fits _ ?_)
    rw [requestTarget, followed]
    rfl

/-- The last byte stored for a target is in the array or among the spare bytes. -/
def TargetClear (layout : Layout) (target : List UInt8) : Prop :=
  terminatorIndex layout.toPlacement target < pathCap + layout.spare

theorem harmless_iff (layout : Layout) (line : List UInt8) :
    Harmless layout line ↔ forall target, requestTarget line = some target -> TargetClear layout target :=
  requestStores_within_iff layout.toPlacement layout.spare line

/-- `parse_request_line` stores inside of its three arrays if and only if it
rejects the line or the target fits: with the path array below the request buffer
a target of at most 1023 bytes, with the array above it a query of at most 1022. -/
theorem requestStores_inside_iff (placement : Placement) (line : List UInt8) :
    (forall store, store ∈ requestStores placement line -> store.2 < store.1.capacity) ↔
      forall target, requestTarget line = some target -> TargetFits placement target := by
  have within := requestStores_within_iff placement 0 line
  simp only [within_zero] at within
  rw [within]
  exact forall₂_congr fun target _ => terminatorIndex_lt_iff placement target

/-- A request whose target has 1024 bytes. -/
def longLine : List UInt8 := ascii "GET " ++ (List.replicate 1024 97 ++ ascii " HTTP/1.1\r\n\r\n")

/-- With the path array just below the request buffer the terminator of this
path is stored behind the array. -/
theorem requestStores_outside :
    (OutArray.path, 1024) ∈ requestStores ⟨-1024, Or.inl (Int.le_refl _)⟩ longLine ∧
      ¬ forall store, store ∈ requestStores ⟨-1024, Or.inl (Int.le_refl _)⟩ longLine ->
        store.2 < store.1.capacity := by
  have method : (longLine.takeWhile (fun byte => byte != 32)).take (methodCap - 1) = ascii "GET" := rfl
  have target : (List.replicate 1024 (97 : UInt8) ++ ascii " HTTP/1.1\r\n\r\n").takeWhile
      (fun byte => byte != 32) = List.replicate 1024 97 := by
    rw [List.takeWhile_append_of_pos]
    · exact List.append_nil _
    · intro byte member
      rw [(List.mem_replicate.mp member).2]
      rfl
  have noSpace : (32 : UInt8) ∉ List.replicate 1024 (97 : UInt8) := fun member =>
    absurd (List.mem_replicate.mp member).2 (by decide)
  have noMark : (63 : UInt8) ∉ List.replicate 1024 (97 : UInt8) := fun member =>
    absurd (List.mem_replicate.mp member).2 (by decide)
  have length : (storeTarget ⟨-1024, Or.inl (Int.le_refl _)⟩ ⟨[], none⟩
      (List.replicate 1024 97 ++ ascii " HTTP/1.1\r\n\r\n")).stored.length = 1024 := by
    rw [← storeTarget_takeWhile, target, length_storeTarget _ noSpace, terminatorIndex, if_neg noMark,
      pathOf_eq_self noMark, List.length_replicate]
    rfl
  have stored : (OutArray.path, 1024) ∈ requestStores ⟨-1024, Or.inl (Int.le_refl _)⟩ longLine := by
    refine List.mem_append_right _ ?_
    rw [method]
    change _ ∈ pathStores _ (List.replicate 1024 97 ++ ascii " HTTP/1.1\r\n\r\n")
    refine List.mem_append_right _ ?_
    rw [length]
    exact List.mem_cons_self
  exact ⟨stored, fun inside => Nat.lt_irrefl _ (inside _ stored)⟩

end Server
end AdbBridge
