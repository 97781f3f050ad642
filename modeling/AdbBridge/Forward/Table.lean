import AdbBridge.Library.Numeral

namespace AdbBridge
namespace Forward

open Library Library.Numeral

/-!
# The table of TCP forwards

`forward_add` opens a TCP listener and puts a record of it at the head of
`g_forwards`; `forward_remove` unlinks a record and closes its listener.  Both
run under `g_forward_mutex` from beginning to end, so each is one function on the
table.  The kernel's part is explicit: the descriptors that are open with the
address each is bound to, and the outcome of every call `forward_add` makes.

The record reports the host and the port it was asked for.  The listener is
where the record says only if the host is an IPv4 literal and the port is one.
-/

/-! ## Addresses -/

/-- An IPv4 address in network order. -/
structure InAddr where
  a : UInt8
  b : UInt8
  c : UInt8
  d : UInt8
deriving DecidableEq, Repr

/-- The wildcard address, which `memset` leaves in `sin_addr`. -/
def InAddr.any : InAddr := ⟨0, 0, 0, 0⟩

/-- A `sockaddr_in`. -/
structure SockAddr where
  addr : InAddr
  port : UInt16
deriving DecidableEq, Repr

/-- `htons`: an `int` is converted to `uint16_t`, which keeps its low 16 bits. -/
def htons (port : Int) : UInt16 := UInt16.ofNat (port % 65536).toNat

/-- `inet_pton` for `AF_INET`: the address a literal denotes, or no change of
the target.  A literal, with its terminator, fits `INET_ADDRSTRLEN` bytes. -/
structure InetPton where
  parse : List UInt8 -> Option InAddr
  short : forall literal addr, parse literal = some addr -> literal.length < 16

/-- A field of a dotted quad: one to three digits of at most 255 in value,
without a leading zero. -/
def quadField (field : List UInt8) : Option UInt8 :=
  if 0 < field.length ∧ field.length ≤ 3 ∧ (field.all fun byte => 48 ≤ byte && byte ≤ 57) ∧
      (field.head? = some 48 -> field.length = 1) ∧ digitsValue 10 field ≤ 255 then
    some (UInt8.ofNat (digitsValue 10 field))
  else none

/-- The literals of `inet_pton`, as it documents them. -/
def dottedQuad : InetPton where
  parse literal :=
    if literal.length < 16 then
      match (literal.splitOn 46).map quadField with
      | [some a, some b, some c, some d] => some ⟨a, b, c, d⟩
      | _ => none
    else none
  short := by
    intro literal addr parsed
    by_contra long
    rw [if_neg long] at parsed
    exact absurd parsed nofun

/-! ## Records and descriptors -/

def maxForwards : Nat := 32

/-- A `tcpforward_t`: strings are kept up to the terminator, and each fits its array. -/
structure Tcpforward where
  id : Int
  unixPath : List UInt8
  host : List UInt8
  port : Int
  secure : Bool
  listenFd : Int
  running : Bool
  activeConnections : Nat
  unixPathFits : unixPath.length < 256
  hostFits : host.length < 64
deriving DecidableEq, Repr

/-- The globals of the table with the descriptors they refer to: `forwards` is
`g_forwards` from the head, `descriptors` holds every socket that is open, with
the address it is bound to if any. -/
structure ForwardTable where
  forwards : List Tcpforward
  nextId : Int
  descriptors : List (Nat × Option SockAddr)
  nextPositive : 0 < nextId
deriving DecidableEq, Repr

namespace ForwardTable

/-- The table when the server starts. -/
def initial : ForwardTable := ⟨[], 1, [], by decide⟩

/-- The record with an id. -/
def find (table : ForwardTable) (id : Int) : Option Tcpforward :=
  table.forwards.find? (fun f => f.id == id)

/-- The ids of the records, from the head. -/
def ids (table : ForwardTable) : List Int := table.forwards.map Tcpforward.id

theorem find_isSome_iff (table : ForwardTable) (id : Int) :
    (table.find id).isSome = true ↔ id ∈ table.ids := by
  rw [find, List.find?_isSome, ids, List.mem_map]
  simp only [beq_iff_eq]

/-- A descriptor is closed. -/
def close (table : ForwardTable) (fd : Nat) : ForwardTable :=
  { table with descriptors := table.descriptors.filter (fun entry => entry.1 != fd) }

/-- A descriptor is opened, or bound: its entry becomes the given one. -/
def setDescriptor (table : ForwardTable) (fd : Nat) (bound : Option SockAddr) : ForwardTable :=
  { table with descriptors := (fd, bound) :: (table.close fd).descriptors }

/-- The address a descriptor is bound to. -/
def boundTo (table : ForwardTable) (fd : Int) : Option SockAddr :=
  ((table.descriptors.find? (fun entry => (entry.1 : Int) == fd)).bind Prod.snd)

@[simp] theorem forwards_close (table : ForwardTable) (fd : Nat) :
    (table.close fd).forwards = table.forwards := rfl

@[simp] theorem forwards_setDescriptor (table : ForwardTable) (fd : Nat) (bound : Option SockAddr) :
    (table.setDescriptor fd bound).forwards = table.forwards := rfl

@[simp] theorem nextId_setDescriptor (table : ForwardTable) (fd : Nat) (bound : Option SockAddr) :
    (table.setDescriptor fd bound).nextId = table.nextId := rfl

@[simp] theorem boundTo_setDescriptor (table : ForwardTable) (fd : Nat) (bound : Option SockAddr) :
    (table.setDescriptor fd bound).boundTo fd = bound := by
  simp [boundTo, setDescriptor]

end ForwardTable

/-! ## `forward_add` and `forward_remove` -/

/-- What the kernel and the allocator answer to one `forward_add`: the
descriptor of `socket`, the success of `bind`, `listen` and `calloc`, and the
port `bind` picks when asked for port 0. -/
structure AddOutcomes where
  socket : Option Nat
  bind : Bool
  ephemeral : UInt16
  listen : Bool
  calloc : Bool
  ephemeralPositive : 0 < ephemeral.toNat

/-- The code a record refuses a new forward with. -/
def clash (unixPath host : List UInt8) (port : Int) (f : Tcpforward) : Option Int :=
  if f.port = port ∧ f.host = host then some (-1)
  else if f.unixPath = unixPath ∧ f.port = port then some (-2)
  else none

/-- `strncpy` of at most `size - 1` bytes into a zeroed array of `size` bytes. -/
def copied (size : Nat) (text : List UInt8) : List UInt8 := text.take (size - 1)

theorem length_copied_lt {size : Nat} (positive : 0 < size) (text : List UInt8) :
    (copied size text).length < size := by
  rw [copied, List.length_take]
  omega

/-- The address `forward_add` asks `bind` for. -/
def requestedAddr (inetPton : InetPton) (host : List UInt8) (port : Int) : SockAddr where
  addr := (inetPton.parse host).getD InAddr.any
  port := htons port

/-- The address the kernel binds for a requested one. -/
def AddOutcomes.boundAddr (outcomes : AddOutcomes) (requested : SockAddr) : SockAddr :=
  if requested.port = 0 then { requested with port := outcomes.ephemeral } else requested

/-- The record `forward_add` creates. -/
def newForward (id : Int) (unixPath host : List UInt8) (port : Int) (secure : Bool) (fd : Nat) :
    Tcpforward where
  id := id
  unixPath := copied 256 unixPath
  host := copied 64 host
  port := port
  secure := secure
  listenFd := fd
  running := true
  activeConnections := 0
  unixPathFits := length_copied_lt (by decide) unixPath
  hostFits := length_copied_lt (by decide) host

/-- The record at the head of the table, and the next id. -/
def ForwardTable.link (table : ForwardTable) (f : Tcpforward) : ForwardTable :=
  { table with
    forwards := f :: table.forwards
    nextId := table.nextId + 1
    nextPositive := Int.add_pos table.nextPositive (by decide) }

/-- `forward_add`: the table afterwards, and the id or the error code. -/
def forwardAdd (inetPton : InetPton) (table : ForwardTable) (unixPath host : List UInt8) (port : Int)
    (secure : Bool) (outcomes : AddOutcomes) : ForwardTable × Int :=
  match table.forwards.findSome? (clash unixPath host port) with
  | some code => (table, code)
  | none =>
      if maxForwards ≤ table.forwards.length then (table, -3)
      else
        match outcomes.socket with
        | none => (table, -4)
        | some fd =>
            let opened := table.setDescriptor fd none
            if outcomes.bind = false then (opened.close fd, -5)
            else
              let bound := opened.setDescriptor fd
                (some (outcomes.boundAddr (requestedAddr inetPton host port)))
              if outcomes.listen = false then (bound.close fd, -6)
              else if outcomes.calloc = false then (bound.close fd, -7)
              else (bound.link (newForward table.nextId unixPath host port secure fd), table.nextId)

/-- `forward_remove`: the table afterwards, and the code. -/
def forwardRemove (table : ForwardTable) (id : Int) : ForwardTable × Int :=
  match table.find id with
  | none => (table, -1)
  | some f =>
      let closed := if 0 ≤ f.listenFd then table.close f.listenFd.toNat else table
      ({ closed with forwards := table.forwards.eraseP (fun f => f.id == id) }, 0)

/-! ## What the two operations do -/

variable {inetPton : InetPton} {table after : ForwardTable} {unixPath host : List UInt8} {port id : Int}
  {secure : Bool} {outcomes : AddOutcomes}

/-- A call of `forward_add` either fails with a negative code and leaves the
records alone, or links one new record, whose descriptor is bound as the kernel
decided, and returns its id. -/
theorem forwardAdd_cases
    (added : forwardAdd inetPton table unixPath host port secure outcomes = (after, id)) :
    (id < 0 ∧ after.forwards = table.forwards ∧ after.nextId = table.nextId) ∨
      Exists fun fd =>
        id = table.nextId ∧ after.nextId = table.nextId + 1 ∧
          after.forwards = newForward id unixPath host port secure fd :: table.forwards ∧
          after.boundTo fd = some (outcomes.boundAddr (requestedAddr inetPton host port)) := by
  have unchanged : forall other : ForwardTable, forall code : Int, (other, code) = (after, id) ->
      code < 0 -> other.forwards = table.forwards -> other.nextId = table.nextId ->
      id < 0 ∧ after.forwards = table.forwards ∧ after.nextId = table.nextId := by
    intro other code same negative forwards nextId
    have parts := Prod.mk.inj same
    exact ⟨parts.2 ▸ negative, parts.1 ▸ forwards, parts.1 ▸ nextId⟩
  unfold forwardAdd at added
  split at added
  next code found =>
    rcases List.exists_of_findSome?_eq_some found with ⟨f, _, refused⟩
    have negative : code < 0 := by
      unfold clash at refused
      split_ifs at refused <;> (have value := Option.some.inj refused; omega)
    exact Or.inl (unchanged _ _ added negative rfl rfl)
  · split at added
    · exact Or.inl (unchanged _ _ added (by decide) rfl rfl)
    · split at added
      · exact Or.inl (unchanged _ _ added (by decide) rfl rfl)
      next fd opened =>
        dsimp only at added
        split_ifs at added
        · exact Or.inl (unchanged _ _ added (by decide) rfl rfl)
        · exact Or.inl (unchanged _ _ added (by decide) rfl rfl)
        · exact Or.inl (unchanged _ _ added (by decide) rfl rfl)
        · have parts := Prod.mk.inj added
          refine Or.inr ⟨fd, parts.2.symm, ?_, ?_, ?_⟩
          · rw [← parts.1]
            rfl
          · rw [← parts.1, ← parts.2]
            rfl
          · rw [← parts.1]
            exact ForwardTable.boundTo_setDescriptor _ _ _

/-- A successful call of `forward_add` returns the id of a new record with a bound descriptor. -/
theorem forwardAdd_find
    (added : forwardAdd inetPton table unixPath host port secure outcomes = (after, id)) (success : 0 < id) :
    Exists fun fd =>
      after.find id = some (newForward id unixPath host port secure fd) ∧
        after.boundTo fd = some (outcomes.boundAddr (requestedAddr inetPton host port)) := by
  rcases forwardAdd_cases added with ⟨failed, _⟩ | ⟨fd, _, _, linked, bound⟩
  · exact absurd success (Int.not_lt.mpr (Int.le_of_lt failed))
  · refine ⟨fd, ?_, bound⟩
    rw [ForwardTable.find, linked, List.find?_cons_of_pos (by simp [newForward])]

/-- A call of `forward_remove` either finds no record and changes nothing, or
unlinks the first record with the id. -/
theorem forwardRemove_cases (table : ForwardTable) (id : Int) :
    (table.find id = none ∧ forwardRemove table id = (table, -1)) ∨
      ((table.find id).isSome = true ∧ (forwardRemove table id).2 = 0 ∧
        (forwardRemove table id).1.forwards = table.forwards.eraseP (fun f => f.id == id) ∧
        (forwardRemove table id).1.nextId = table.nextId) := by
  unfold forwardRemove
  cases found : table.find id with
  | none => exact Or.inl ⟨rfl, rfl⟩
  | some f =>
      refine Or.inr ⟨rfl, rfl, rfl, ?_⟩
      dsimp only
      split <;> rfl

/-- `htons` is exact on port numbers and on nothing else. -/
theorem htons_toNat (port : Int) : ((htons port).toNat : Int) = port % 65536 := by
  have nonneg := Int.emod_nonneg port (by decide : (65536 : Int) ≠ 0)
  have small := Int.emod_lt_of_pos port (by decide : (0 : Int) < 65536)
  rw [htons, UInt16.toNat_ofNat']
  omega

/-- The bound port is the requested one exactly when that is a port number. -/
theorem boundAddr_port_iff (outcomes : AddOutcomes) (addr : InAddr) (port : Int) :
    ((outcomes.boundAddr ⟨addr, htons port⟩).port.toNat : Int) = port ↔ 1 ≤ port ∧ port ≤ 65535 := by
  have exact := htons_toNat port
  have picked := outcomes.ephemeralPositive
  have below := outcomes.ephemeral.toNat_lt
  unfold AddOutcomes.boundAddr
  by_cases zero : htons port = 0
  · rw [if_pos zero]
    have multiple : port % 65536 = 0 := by
      rw [← exact, zero]
      rfl
    dsimp only
    omega
  · rw [if_neg zero]
    have positive : (htons port).toNat ≠ 0 := fun none => zero (UInt16.toNat_inj.mp none)
    dsimp only
    omega

/-- The bound address is the one `inet_pton` found, or the wildcard. -/
theorem boundAddr_addr (outcomes : AddOutcomes) (requested : SockAddr) :
    (outcomes.boundAddr requested).addr = requested.addr := by
  unfold AddOutcomes.boundAddr
  split <;> rfl

/-! ## Where a forward listens -/

/-- The forward listens where it was asked to and says so: its listener is
bound to the address the host denotes and to the port itself, and its host and
port fields report the same. -/
def ListensWhereItSays (inetPton : InetPton) (table : ForwardTable) (id : Int) (host : List UInt8)
    (port : Int) : Prop :=
  Exists fun f => Exists fun bound =>
    table.find id = some f ∧ table.boundTo f.listenFd = some bound ∧
      inetPton.parse host = some bound.addr ∧ (bound.port.toNat : Int) = port ∧
      inetPton.parse f.host = some bound.addr ∧ f.port = port

/-- A successful `forward_add` listens where it says if and only if the host is
an IPv4 literal and the port is a port number. -/
theorem forwardAdd_listens_iff
    (added : forwardAdd inetPton table unixPath host port secure outcomes = (after, id))
    (success : 0 < id) :
    ListensWhereItSays inetPton after id host port ↔
      (inetPton.parse host).isSome = true ∧ 1 ≤ port ∧ port ≤ 65535 := by
  rcases forwardAdd_find added success with ⟨fd, found, bound⟩
  constructor
  · rintro ⟨f, address, entry, listens, denoted, exact, _, _⟩
    have same := Option.some.inj (found.symm.trans entry)
    subst same
    have actual := Option.some.inj (bound.symm.trans listens)
    refine ⟨by rw [denoted]; rfl, ?_⟩
    rw [← actual] at exact
    exact (boundAddr_port_iff _ _ _).mp exact
  · rintro ⟨literal, isPort⟩
    rcases Option.isSome_iff_exists.mp literal with ⟨addr, parsed⟩
    have requested : (requestedAddr inetPton host port).addr = addr := by
      rw [requestedAddr, parsed]
      rfl
    have kept : copied 64 host = host := by
      have short := inetPton.short host addr parsed
      exact List.take_of_length_le (by omega)
    have address := (boundAddr_addr outcomes (requestedAddr inetPton host port)).trans requested
    refine ⟨_, _, found, bound, ?_, (boundAddr_port_iff _ _ _).mpr isPort, ?_, rfl⟩
    · rw [address]
      exact parsed
    · change inetPton.parse (copied 64 host) = _
      rw [kept, address]
      exact parsed

/-- Everything the kernel is asked for succeeds, and a port left to `bind` is 32768. -/
def succeeding : AddOutcomes := ⟨some 5, true, 32768, true, true, by decide⟩

theorem forwardAdd_listens_iff_loopback :
    ListensWhereItSays dottedQuad
        (forwardAdd dottedQuad .initial (ascii "/tmp/s") (ascii "127.0.0.1") 8080 false succeeding).1 1
        (ascii "127.0.0.1") 8080 :=
  (forwardAdd_listens_iff
    (Prod.mk.eta (p := forwardAdd dottedQuad .initial (ascii "/tmp/s") (ascii "127.0.0.1") 8080 false
      succeeding)).symm (by decide)).mpr (by decide)

/-- A host name is no literal: the listener is bound to the wildcard address,
while the record reports the name. -/
theorem forwardAdd_localhost_binds_wildcard :
    (forwardAdd dottedQuad .initial (ascii "/tmp/s") (ascii "localhost") 8080 false succeeding).2 = 1 ∧
      (forwardAdd dottedQuad .initial (ascii "/tmp/s") (ascii "localhost") 8080 false
        succeeding).1.boundTo 5 = some ⟨InAddr.any, 8080⟩ ∧
      ¬ ListensWhereItSays dottedQuad
        (forwardAdd dottedQuad .initial (ascii "/tmp/s") (ascii "localhost") 8080 false succeeding).1 1
        (ascii "localhost") 8080 := by
  refine ⟨by decide, by decide, ?_⟩
  rintro ⟨f, bound, _, _, denoted, _⟩
  have noLiteral : dottedQuad.parse (ascii "localhost") = none := by decide
  exact absurd (noLiteral.symm.trans denoted) nofun

end Forward
end AdbBridge
