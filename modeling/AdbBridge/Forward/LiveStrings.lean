import AdbBridge.Forward.Creation
import AdbBridge.Library.Machine

namespace AdbBridge
namespace Forward

open Library Library.Numeral

/-!
# Who owns the strings of a request

`unix_path` and `host` point into the tree that `cJSON_Parse` allocated, unless the
request names no host and the handler falls back to a literal.  The tree owns its
strings: they are there until `cJSON_Delete`, and not afterwards.

`handle_tcpforward_post` deletes the tree as soon as it has the pointers and the two
numbers, and reads through the pointers from then on: `forward_add` compares, converts
and copies the strings, and the response prints them.
-/

/-! ## Accesses -/

/-- What a `const char *` of the handler points to. -/
inductive Pointer where
  | unixPath
  | host
  | defaultHost
deriving DecidableEq, Repr

/-- What happens to the tree: it is deleted, or a string is read through a pointer. -/
inductive Access where
  | delete
  | read (pointer : Pointer)
deriving DecidableEq, Repr

/-- The tree of a request. -/
inductive Tree where
  | there
  | deleted
deriving DecidableEq, Repr

/-- An access, if it is one the ownership of the strings allows: the literal can always
be read, a string of the tree only while the tree is there. -/
def treeStep : Tree -> Access -> Option Tree
  | .there, .delete => some .deleted
  | .deleted, .delete => none
  | tree, .read .defaultHost => some tree
  | .there, .read _ => some .there
  | .deleted, .read _ => none

/-- The pointer the handler keeps as `host`. -/
def ForwardRequest.hostPointer (request : ForwardRequest) : Pointer :=
  match request.host with
  | some _ => .host
  | none => .defaultHost

/-- What the duplicate check reads, record by record, until it refuses: the host where
the ports agree, and the path for every record. -/
def checkReads (unixPath host : List UInt8) (port : Int) (hostPointer : Pointer) :
    List Tcpforward -> List Pointer
  | [] => []
  | f :: rest =>
      (if f.port = port then [hostPointer] else []) ++
        if f.port = port ∧ f.host = host then []
        else .unixPath ::
          if f.unixPath = unixPath ∧ f.port = port then []
          else checkReads unixPath host port hostPointer rest

/-- What `forward_add` reads: in the duplicate check, in `inet_pton` once there is a
socket, and in the two copies once there is a record. -/
def forwardAddReads (table : ForwardTable) (unixPath host : List UInt8) (port : Int)
    (hostPointer : Pointer) (outcomes : AddOutcomes) : List Pointer :=
  checkReads unixPath host port hostPointer table.forwards ++
    match table.forwards.findSome? (clash unixPath host port) with
    | some _ => []
    | none =>
        if maxForwards ≤ table.forwards.length then []
        else
          match outcomes.socket with
          | none => []
          | some _ =>
              hostPointer ::
                if outcomes.bind = false ∨ outcomes.listen = false ∨ outcomes.calloc = false then []
                else [.unixPath, hostPointer]

/-- What `handle_tcpforward_post` does to the tree, from `cJSON_Parse` on. -/
def postAccesses (cjson : List UInt8 -> Option ForwardRequest) (released : Released)
    (inetPton : InetPton) (table : ForwardTable) (body : List UInt8) (outcomes : AddOutcomes) :
    List Access :=
  match cjson body with
  | none => []
  | some request =>
      match request.unixPath with
      | none => [.delete]
      | some unixPath =>
          match request.port with
          | none => [.delete]
          | some port =>
              let unixPath := released.atAdd unixPath
              let host := request.hostRead released.atAdd
              let added := forwardAdd inetPton table unixPath host port (request.secure.getD false) outcomes
              .delete :: (forwardAddReads table unixPath host port request.hostPointer outcomes ++
                if added.2 < 0 then [] else [.unixPath, request.hostPointer]).map Access.read

/-- Every string of the request that the handler reads is there when it is read. -/
def ReadsLiveStrings (accesses : List Access) : Prop :=
  (Machine.exec treeStep .there accesses).isSome = true

instance (accesses : List Access) : Decidable (ReadsLiveStrings accesses) :=
  inferInstanceAs (Decidable ((Machine.exec treeStep .there accesses).isSome = true))

/-! ## Reading a deleted tree -/

/-- Nothing brings a deleted tree back, so a string of it that is read at all is read
too late. -/
theorem not_live_after_delete {pointers : List Pointer} (owned : .unixPath ∈ pointers) :
    Machine.exec treeStep .deleted (pointers.map Access.read) = none := by
  induction pointers with
  | nil => cases owned
  | cons pointer rest inductionHypothesis =>
      rw [List.map_cons, Machine.exec_cons]
      cases pointer with
      | unixPath => rfl
      | host => rfl
      | defaultHost =>
          rcases List.mem_cons.mp owned with isFirst | later
          · cases isFirst
          · exact inductionHypothesis later

variable {cjson : List UInt8 -> Option ForwardRequest} {released : Released} {inetPton : InetPton}
  {table after : ForwardTable} {body : List UInt8} {outcomes : AddOutcomes} {response : Response}

/-- A request that is accepted has its path printed after the tree was deleted. -/
theorem postAccesses_accepted
    (handled : handleTcpforwardPost cjson released inetPton table body outcomes = (after, response))
    (accepted : response.status = 200) :
    Exists fun pointers : List Pointer => .unixPath ∈ pointers ∧
      postAccesses cjson released inetPton table body outcomes = .delete :: pointers.map Access.read := by
  have refused : forall {other : ForwardTable} {status : Nat} {text : List UInt8},
      (other, Response.mk status text) = (after, response) -> status = 200 := by
    intro other status text same
    rw [← (Prod.mk.inj same).2] at accepted
    exact accepted
  unfold handleTcpforwardPost at handled
  split at handled
  · exact absurd (refused handled) (by decide)
  next request isRequest =>
    split at handled
    · exact absurd (refused handled) (by decide)
    next unixPath isPath =>
      dsimp only at handled
      split at handled
      · exact absurd (refused handled) (by decide)
      next port isPort =>
        split at handled
        · exact absurd (refused handled) (by decide)
        next success =>
          unfold postAccesses
          rw [isRequest]
          dsimp only
          rw [isPath]
          dsimp only
          rw [isPort]
          refine ⟨_, List.mem_append_right _ ?_, rfl⟩
          rw [if_neg success]
          exact List.mem_cons_self

/-- No accepted request uses live strings: the record and the response are made of what
is read where the strings were. -/
theorem accepted_reads_deleted_strings
    (handled : handleTcpforwardPost cjson released inetPton table body outcomes = (after, response))
    (accepted : response.status = 200) :
    ¬ ReadsLiveStrings (postAccesses cjson released inetPton table body outcomes) ∧
    Exists fun request => Exists fun unixPath => Exists fun f =>
      cjson body = some request ∧ request.unixPath = some unixPath ∧
        after.forwards.head? = some f ∧
        f.unixPath = copied 256 (released.atAdd unixPath) ∧
        f.host = copied 64 (request.hostRead released.atAdd) ∧
        response.body = (createdText f.id (released.atEcho unixPath) (request.hostRead released.atEcho)
          f.port f.secure).take 511 := by
  rcases postAccesses_accepted handled accepted with ⟨pointers, owned, accesses⟩
  rcases handleTcpforwardPost_accepted handled accepted with
    ⟨request, unixPath, port, fd, isRequest, isPath, _, linked, printed⟩
  refine ⟨?_, request, unixPath, _, isRequest, isPath, linked, rfl, rfl, printed⟩
  rw [ReadsLiveStrings, accesses, Machine.exec_cons]
  change ¬ (Machine.exec treeStep .deleted (pointers.map Access.read)).isSome = true
  rw [not_live_after_delete owned]
  exact Bool.false_ne_true

theorem accepted_reads_deleted_strings_plain :
    ¬ ReadsLiveStrings (postAccesses (fun _ => some plainRequest) .intact dottedQuad .initial
      (ascii "\x7b\"unix_path\":\"/tmp/s\",\"port\":8080\x7d") succeeding) :=
  (accepted_reads_deleted_strings (Prod.mk.eta (p := plainPost)).symm (by decide)).1

/-- Released memory that somebody else has written to in the meantime. -/
def Released.reused : Released := ⟨fun _ => ascii "/tmp/t", fun _ => ascii "/tmp/u"⟩

/-- The forward is created for a path that is not the one of the request, and a third
one is echoed. -/
theorem other_path_forwarded :
    ¬ ReadsLiveStrings (postAccesses (fun _ => some plainRequest) .reused dottedQuad .initial
      (ascii "\x7b\"unix_path\":\"/tmp/s\",\"port\":8080\x7d") succeeding) ∧
    handleTcpforwardPost (fun _ => some plainRequest) .reused dottedQuad .initial
      (ascii "\x7b\"unix_path\":\"/tmp/s\",\"port\":8080\x7d") succeeding =
      ((ForwardTable.initial.setDescriptor 5 (some ⟨⟨127, 0, 0, 1⟩, 8080⟩)).link
        (newForward 1 (ascii "/tmp/t") (ascii "127.0.0.1") 8080 false 5),
        ⟨200, createdText 1 (ascii "/tmp/u") (ascii "127.0.0.1") 8080 false⟩) :=
  ⟨by decide, by decide⟩

end Forward
end AdbBridge
