import AdbBridge.Forward.TableRuns

namespace AdbBridge
namespace Forward

open Library Library.Numeral

/-!
# Duplicate forwards

`forward_add` refuses a forward for a host and a port, or for a path and a port,
that a record already has.  It compares the strings it is given with the strings
of the records, and a record keeps only the first 63 bytes of a host and the
first 255 of a path.

Beside the table stands what every live forward was requested with, so that a
duplicate is two requests that agree, whatever the records keep of them.
-/

/-! ## What was requested -/

/-- The arguments a live forward was created with. -/
structure Requested where
  id : Int
  unixPath : List UInt8
  host : List UInt8
  port : Int
deriving DecidableEq, Repr

/-- What a record keeps of a request. -/
def Requested.stored (request : Requested) : Int × List UInt8 × List UInt8 × Int :=
  (request.id, copied 256 request.unixPath, copied 64 request.host, request.port)

/-- What a record has kept. -/
def Tcpforward.kept (f : Tcpforward) : Int × List UInt8 × List UInt8 × Int :=
  (f.id, f.unixPath, f.host, f.port)

/-- The table with the requests of its records, in the same order. -/
structure Remembered where
  table : ForwardTable
  requested : List Requested
  stored : table.forwards.map Tcpforward.kept = requested.map Requested.stored

/-- The server before the first forward. -/
def Remembered.initial : Remembered := ⟨.initial, [], rfl⟩

variable {inetPton : InetPton} {table : ForwardTable} {unixPath host : List UInt8} {port : Int}
  {secure : Bool} {outcomes : AddOutcomes}

/-- The requests that are live after a `forward_add` that returned a code. -/
def requestedAfter (requested : List Requested) (unixPath host : List UInt8) (port code : Int) :
    List Requested :=
  if 0 < code then ⟨code, unixPath, host, port⟩ :: requested else requested

/-- `forward_add` stores what it can of the request it grants. -/
theorem stored_forwardAdd {requested : List Requested}
    (stored : table.forwards.map Tcpforward.kept = requested.map Requested.stored) :
    (forwardAdd inetPton table unixPath host port secure outcomes).1.forwards.map Tcpforward.kept =
      (requestedAfter requested unixPath host port
        (forwardAdd inetPton table unixPath host port secure outcomes).2).map Requested.stored := by
  rcases forwardAdd_cases (Prod.mk.eta (p :=
    forwardAdd inetPton table unixPath host port secure outcomes)).symm with
    ⟨negative, same, _⟩ | ⟨fd, isNext, _, linked, _⟩
  · rw [requestedAfter, if_neg (by omega), same]
    exact stored
  · have positive := table.nextPositive
    rw [requestedAfter, if_pos (by omega), linked, List.map_cons, List.map_cons, stored]
    rfl

/-- `forward_remove` forgets the request with the record. -/
theorem stored_forwardRemove {requested : List Requested} (id : Int)
    (stored : table.forwards.map Tcpforward.kept = requested.map Requested.stored) :
    (forwardRemove table id).1.forwards.map Tcpforward.kept =
      (requested.eraseP (fun request => request.id == id)).map Requested.stored := by
  have sameIds : table.ids = requested.map Requested.id := by
    have ids := congrArg (List.map Prod.fst) stored
    rw [List.map_map, List.map_map] at ids
    exact ids
  have erased : (table.forwards.eraseP (fun f => f.id == id)).map Tcpforward.kept =
      (requested.eraseP (fun request => request.id == id)).map Requested.stored := by
    have both := congrArg (List.eraseP (fun entry => entry.1 == id)) stored
    rw [List.eraseP_map, List.eraseP_map] at both
    exact both
  rcases forwardRemove_cases table id with ⟨missing, unchanged⟩ | ⟨_, _, removed, _⟩
  · have absent : id ∉ requested.map Requested.id := by
      rw [← sameIds, ← table.find_isSome_iff, missing]
      exact Bool.false_ne_true
    rw [unchanged, stored, List.eraseP_of_forall_not]
    intro request member named
    exact absent (List.mem_map.mpr ⟨request, member, beq_iff_eq.mp named⟩)
  · rw [removed]
    exact erased

/-- The table and the requests after a call. -/
def Remembered.perform (inetPton : InetPton) (state : Remembered) : Call -> Remembered
  | .add unixPath host port secure outcomes =>
      { table := (forwardAdd inetPton state.table unixPath host port secure outcomes).1
        requested := requestedAfter state.requested unixPath host port
          (forwardAdd inetPton state.table unixPath host port secure outcomes).2
        stored := stored_forwardAdd state.stored }
  | .remove id =>
      { table := (forwardRemove state.table id).1
        requested := state.requested.eraseP (fun request => request.id == id)
        stored := stored_forwardRemove id state.stored }

/-- A call on the table that remembers its requests. -/
def rememberStep (inetPton : InetPton) (state : Remembered) (call : Call) : Option Remembered :=
  if call.possible state.table = true then some (state.perform inetPton call) else none

/-- Remembering does not change what happens to the table. -/
theorem table_rememberStep (inetPton : InetPton) (state : Remembered) (call : Call) :
    (rememberStep inetPton state call).map Remembered.table = tableStep inetPton state.table call := by
  unfold rememberStep tableStep
  split
  · cases call <;> rfl
  · rfl

/-! ## When a call is granted -/

/-- The kernel and the allocator grant everything one `forward_add` asks for. -/
def AddOutcomes.granted (outcomes : AddOutcomes) : Bool :=
  outcomes.socket.isSome && outcomes.bind && outcomes.listen && outcomes.calloc

/-- No record clashes with a new forward, and there is room for it. -/
def ForwardTable.Admits (table : ForwardTable) (unixPath host : List UInt8) (port : Int) : Prop :=
  (forall f, f ∈ table.forwards -> clash unixPath host port f = none) ∧
    table.forwards.length < maxForwards

instance (table : ForwardTable) (unixPath host : List UInt8) (port : Int) :
    Decidable (table.Admits unixPath host port) :=
  inferInstanceAs (Decidable ((forall f, f ∈ table.forwards -> clash unixPath host port f = none) ∧
    table.forwards.length < maxForwards))

/-- `forward_add` succeeds if and only if the table admits the forward and every call
that it makes is granted. -/
theorem forwardAdd_positive_iff :
    0 < (forwardAdd inetPton table unixPath host port secure outcomes).2 ↔
      table.Admits unixPath host port ∧ outcomes.granted = true := by
  unfold forwardAdd ForwardTable.Admits AddOutcomes.granted
  rw [← List.findSome?_eq_none_iff]
  cases found : table.forwards.findSome? (clash unixPath host port) with
  | some code =>
      rcases List.exists_of_findSome?_eq_some found with ⟨f, _, refused⟩
      have negative := (clash_bounds refused).2
      refine ⟨fun success => absurd negative (by dsimp only at success; omega), fun all => ?_⟩
      exact absurd all.1.1 nofun
  | none =>
      have positive := table.nextPositive
      by_cases full : maxForwards ≤ table.forwards.length
      · simp [full, Nat.not_lt.mpr full]
      · rw [if_neg full]
        cases opened : outcomes.socket with
        | none => simp
        | some fd =>
            cases bound : outcomes.bind <;> cases listens : outcomes.listen <;>
              cases allocated : outcomes.calloc <;> simp [Nat.not_le.mp full, positive]

/-! ## Duplicates -/

/-- Two requests that `forward_add` promises not to grant at the same time. -/
def Requested.Duplicates (first second : Requested) : Prop :=
  first.port = second.port ∧ (first.host = second.host ∨ first.unixPath = second.unixPath)

instance (first second : Requested) : Decidable (first.Duplicates second) :=
  inferInstanceAs (Decidable (first.port = second.port ∧
    (first.host = second.host ∨ first.unixPath = second.unixPath)))

/-- No two live forwards were requested with the same host and port, or with the same
path and port. -/
def Remembered.Distinct (state : Remembered) : Prop :=
  state.requested.Pairwise (fun first second => ¬ first.Duplicates second)

instance (state : Remembered) : Decidable state.Distinct :=
  inferInstanceAs (Decidable (state.requested.Pairwise (fun first second => ¬ first.Duplicates second)))

/-- The new request is one the check is blind to: it repeats, for the same port, a host
that does not fit the 64 bytes of a record, or a path that does not fit the 256. -/
def Requested.Unseen (live : Requested) (unixPath host : List UInt8) (port : Int) : Prop :=
  live.port = port ∧ (live.host = host ∧ 63 < host.length ∨ live.unixPath = unixPath ∧ 255 < unixPath.length)

instance (live : Requested) (unixPath host : List UInt8) (port : Int) :
    Decidable (live.Unseen unixPath host port) :=
  inferInstanceAs (Decidable (live.port = port ∧
    (live.host = host ∧ 63 < host.length ∨ live.unixPath = unixPath ∧ 255 < unixPath.length)))

/-- A `forward_add` that the table admits and the kernel grants repeats no string that
is too long for its record. -/
def RepeatsNoLongString (state : Remembered) : Call -> Prop
  | .add unixPath host port _ outcomes =>
      state.table.Admits unixPath host port -> outcomes.granted = true ->
        forall live, live ∈ state.requested -> ¬ live.Unseen unixPath host port
  | .remove _ => True

instance (state : Remembered) : (call : Call) -> Decidable (RepeatsNoLongString state call)
  | .add unixPath host port _ outcomes =>
      inferInstanceAs (Decidable (state.table.Admits unixPath host port -> outcomes.granted = true ->
        forall live, live ∈ state.requested -> ¬ live.Unseen unixPath host port))
  | .remove _ => isTrue trivial

/-- A string that differs from what a record keeps of it is too long for the record. -/
theorem long_of_copied_ne {size : Nat} {text : List UInt8} (different : copied size text ≠ text) :
    size - 1 < text.length := by
  by_contra short
  exact different (List.take_of_length_le (Nat.not_lt.mp short))

/-- A forward that the table admits duplicates a live one only if the check was blind
to it. -/
theorem duplicates_iff_unseen {state : Remembered} {live : Requested} {id : Int}
    (admitted : state.table.Admits unixPath host port) (member : live ∈ state.requested) :
    (Requested.mk id unixPath host port).Duplicates live ↔ live.Unseen unixPath host port := by
  have inTable : live.stored ∈ state.table.forwards.map Tcpforward.kept := by
    rw [state.stored]
    exact List.mem_map_of_mem member
  rcases List.mem_map.mp inTable with ⟨f, recorded, kept⟩
  have same : f.unixPath = copied 256 live.unixPath ∧ f.host = copied 64 live.host ∧ f.port = live.port := by
    have parts := (Prod.mk.inj kept).2
    exact ⟨(Prod.mk.inj parts).1, (Prod.mk.inj (Prod.mk.inj parts).2).1, (Prod.mk.inj (Prod.mk.inj parts).2).2⟩
  have passes := admitted.1 f recorded
  unfold clash at passes
  rw [same.1, same.2.1, same.2.2] at passes
  split_ifs at passes with sameHost samePath
  constructor
  · rintro ⟨samePort, repeated⟩
    refine ⟨samePort.symm, repeated.imp (fun equal => ⟨equal.symm, ?_⟩) (fun equal => ⟨equal.symm, ?_⟩)⟩
    · exact long_of_copied_ne (fun fits => sameHost ⟨samePort.symm, equal ▸ fits⟩)
    · exact long_of_copied_ne (fun fits => samePath ⟨equal ▸ fits, samePort.symm⟩)
  · rintro ⟨samePort, repeated⟩
    exact ⟨samePort.symm, repeated.imp (fun equal => equal.1.symm) (fun equal => equal.1.symm)⟩

/-- A call keeps the live forwards distinct if and only if it repeats no string that is
too long for its record. -/
theorem distinct_step (inetPton : InetPton) (state : Remembered) (call : Call) (next : Remembered)
    (taken : rememberStep inetPton state call = some next) (distinct : state.Distinct) :
    next.Distinct ↔ RepeatsNoLongString state call := by
  rw [← Option.some.inj (Option.ite_none_right_eq_some.mp taken).2]
  cases call with
  | remove id =>
      exact ⟨fun _ => trivial, fun _ => distinct.sublist List.eraseP_sublist⟩
  | add unixPath host port secure outcomes =>
      change (requestedAfter state.requested unixPath host port _).Pairwise _ ↔ _
      rw [requestedAfter]
      split
      next success =>
        rcases forwardAdd_positive_iff.mp success with ⟨admitted, granted⟩
        rw [List.pairwise_cons]
        constructor
        · rintro ⟨fresh, _⟩ _ _ live member unseen
          exact fresh live member ((duplicates_iff_unseen admitted member).mpr unseen)
        · refine fun seen => ⟨fun live member duplicates => ?_, distinct⟩
          exact seen admitted granted live member ((duplicates_iff_unseen admitted member).mp duplicates)
      next failure =>
        refine ⟨fun _ admitted granted => ?_, fun _ => distinct⟩
        exact absurd (forwardAdd_positive_iff.mpr ⟨admitted, granted⟩) failure

/-- Along any sequence of calls the live forwards stay distinct if and only if no
forward is granted that repeats, for the same port, a host of more than 63 bytes or a
path of more than 255 bytes of a live one. -/
theorem distinct_throughout_iff {calls : List Call} {final : Remembered}
    (run : Machine.exec (rememberStep inetPton) .initial calls = some final) :
    Machine.exec (tableStep inetPton) .initial calls = some final.table ∧
      (Machine.Throughout (rememberStep inetPton) Remembered.Distinct .initial calls ↔
        Machine.AllSteps (rememberStep inetPton) RepeatsNoLongString .initial calls) := by
  refine ⟨?_, Machine.throughout_iff_allSteps (distinct_step inetPton) run List.Pairwise.nil⟩
  have projected := Machine.exec_map (table_rememberStep inetPton) Remembered.initial calls
  rw [run] at projected
  exact projected.symm

/-- Two forwards are created, a third is refused and the first is removed: the live ones
were distinct all the time. -/
theorem distinct_throughout_iff_four_calls :
    Machine.Throughout (rememberStep dottedQuad) Remembered.Distinct .initial fourCalls :=
  (distinct_throughout_iff (Option.some_get
    (by decide : (Machine.exec (rememberStep dottedQuad) .initial fourCalls).isSome = true)).symm).2.mpr
    (by decide)

/-- A path of 256 bytes. -/
def overlongPath : List UInt8 := 47 :: List.replicate 255 97

/-- A host of 64 bytes. -/
def overlongHost : List UInt8 := List.replicate 64 97

/-- The same path and port on two addresses of the host, and the same host with a port
that is left to `bind` twice. -/
def overlongCalls : List Call :=
  [.add overlongPath (ascii "127.0.0.1") 8080 false succeeding,
    .add overlongPath (ascii "127.0.0.2") 8080 false { succeeding with socket := some 6 },
    .add (ascii "/tmp/a") overlongHost 0 false { succeeding with socket := some 7 },
    .add (ascii "/tmp/b") overlongHost 0 false
      { succeeding with socket := some 8, ephemeral := 32769, ephemeralPositive := by decide }]

theorem overlongCalls_run : (Machine.exec (rememberStep dottedQuad) .initial overlongCalls).isSome = true := by
  decide +kernel

/-- The table they leave. -/
def afterOverlongCalls : Remembered :=
  (Machine.exec (rememberStep dottedQuad) .initial overlongCalls).get overlongCalls_run

/-- All four forwards are live, and the first two have the same path and port, the last
two the same host and port. -/
theorem duplicates_of_long_strings :
    Machine.exec (rememberStep dottedQuad) .initial overlongCalls = some afterOverlongCalls ∧
      afterOverlongCalls.requested =
        [⟨4, ascii "/tmp/b", overlongHost, 0⟩, ⟨3, ascii "/tmp/a", overlongHost, 0⟩,
          ⟨2, overlongPath, ascii "127.0.0.2", 8080⟩, ⟨1, overlongPath, ascii "127.0.0.1", 8080⟩] ∧
      ¬ afterOverlongCalls.Distinct ∧
      ¬ Machine.Throughout (rememberStep dottedQuad) Remembered.Distinct .initial overlongCalls := by
  have run : Machine.exec (rememberStep dottedQuad) .initial overlongCalls = some afterOverlongCalls :=
    (Option.some_get overlongCalls_run).symm
  have requested : afterOverlongCalls.requested =
      [⟨4, ascii "/tmp/b", overlongHost, 0⟩, ⟨3, ascii "/tmp/a", overlongHost, 0⟩,
        ⟨2, overlongPath, ascii "127.0.0.2", 8080⟩, ⟨1, overlongPath, ascii "127.0.0.1", 8080⟩] := by
    decide +kernel
  have repeated : ¬ afterOverlongCalls.Distinct := by
    unfold Remembered.Distinct
    rw [requested, List.pairwise_cons]
    intro distinct
    exact distinct.1 _ List.mem_cons_self ⟨rfl, Or.inl rfl⟩
  refine ⟨run, requested, repeated, fun throughout => repeated ?_⟩
  exact Machine.throughout_iff.mp throughout overlongCalls [] afterOverlongCalls (List.append_nil _).symm run

end Forward
end AdbBridge
