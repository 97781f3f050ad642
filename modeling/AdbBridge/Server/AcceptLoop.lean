import AdbBridge.Library.Ledger
import AdbBridge.Library.Machine

namespace AdbBridge
namespace Server
namespace AcceptLoop

open Library

/-!
# The accept loop

`server_start` listens, sets `running` and accepts clients, one thread for each, while `server_stop`
may be called by a signal handler at any moment.  A stop ends the loop soon, but only if
it comes behind the assignment; and a client's descriptor is closed by its thread, if there is one, on
whichever way the thread leaves `handle_client`.  Only the thread that installs an update leaves in
another way: it closes the listener of the main thread and replaces the process.
-/

/-! ## The threads of the clients -/

/-- A call behind the service of a client. -/
inductive Call where
  | sslShutdown
  | sslFree
  /-- `close(job->fd)`. -/
  | closeJob
  /-- `free(job)`, in front of the return. -/
  | freeJob
  /-- `close(g_listen_fd)`, unless it is negative. -/
  | closeListener
  /-- `execv`, behind which the process exits if it fails. -/
  | execv
deriving DecidableEq, Repr

/-- The returns of `handle_client` in their order. -/
inductive Exit where
  | acceptFailed
  | unverified
  | noHeaders
  | badRequestLine
  | uploaded
  /-- With what `handle_update` returned. -/
  | updated (consumed : Bool)
  | piped
  | handled
deriving DecidableEq, Repr

/-- The calls in front of the return. -/
def Exit.calls : Exit -> List Call
  | .acceptFailed | .unverified | .noHeaders | .badRequestLine => [.sslFree, .closeJob, .freeJob]
  | .uploaded => [.sslShutdown, .sslFree, .closeJob, .freeJob]
  | .updated consumed => (if consumed then [.sslShutdown] else []) ++ [.sslFree, .closeJob, .freeJob]
  | .piped => [.sslShutdown, .sslFree, .closeJob, .freeJob]
  | .handled => [.sslShutdown, .sslFree, .closeJob, .freeJob]

/-- The end of `handle_update` with the new binary in its place. -/
def installCalls : List Call := [.sslShutdown, .sslFree, .closeListener, .execv]

/-- A thread with its client, which it serves, or the calls it still has to do. -/
structure Thread where
  jobFd : Nat
  left : Option (List Call)
deriving DecidableEq, Repr

/-! ## The machine -/

/-- Where the main thread stands in `server_start`. -/
inductive Pc where
  /-- In front of `socket`. -/
  | starting
  /-- In front of `sv->running = 1`. -/
  | listening
  /-- At the condition of the loop. -/
  | test
  | accepting
  /-- `accept4` failed, and not with `EINTR`. -/
  | failed
  /-- With a client, in front of `malloc`. -/
  | handing (clientFd : Nat)
  /-- Behind the loop. -/
  | leaving
  | returned (code : Int)
  /-- The job was not allocated and is written to. -/
  | crashed (clientFd : Nat)
  /-- The process is that of another binary, or has exited. -/
  | replaced
deriving DecidableEq, Repr

/-- The process goes on. -/
def Pc.Alive : Pc -> Prop
  | .crashed _ | .replaced => False
  | _ => True

instance : DecidablePred Pc.Alive
  | .crashed _ | .replaced => isFalse id
  | .starting | .listening | .test | .accepting | .failed | .handing _ | .leaving | .returned _ =>
      isTrue trivial

/-- The server: `running`, the listening descriptor, as the main thread and `handle_update` know
it, the threads, and the descriptors of the jobs whose thread was not created. -/
structure State where
  pc : Pc
  running : Bool
  listenFd : Option Nat
  gListenFd : Option Nat
  threads : List Thread
  orphans : List Nat
  fds : Ledger Nat
deriving DecidableEq, Repr

/-- When `server_start` is called, with some descriptors open. -/
def start (before : List Nat) : State := ⟨.starting, false, none, none, [], [], Ledger.start before⟩

/-- A thread goes on as it is said, or is no more. -/
def State.replace (state : State) (thread : Thread) (others : List Thread) : State :=
  { state with threads := others ++ state.threads.erase thread }

/-- A thread does a call. -/
def State.perform (state : State) (jobFd : Nat) : Call -> State
  | .sslShutdown | .sslFree | .freeJob => state
  | .closeJob => { state with fds := state.fds.close jobFd }
  | .closeListener =>
      match state.gListenFd with
      | some fd => { state with fds := state.fds.close fd }
      | none => state
  | .execv => { state with pc := .replaced }

/-- What becomes of a thread behind a call: without another one it has returned. -/
def remaining (jobFd : Nat) (rest : List Call) : List Thread :=
  if rest = [] then [] else [⟨jobFd, some rest⟩]

/-- A step of the main thread with what the system answers, one of a client's thread, or a stop. -/
inductive Event where
  | socketFails
  /-- `socket`, `bind` and `listen`; one of the latter may fail. -/
  | listen (fd : Nat) (succeeds : Bool)
  | assign
  | test
  | accept (clientFd : Nat)
  | interrupted
  | acceptFails
  | testAgain
  | createThread (succeeds : Bool)
  | outOfMemory
  | leave
  /-- A thread has come to one of the returns. -/
  | exit (clientFd : Nat) (way : Exit)
  /-- A thread has installed an update. -/
  | install (clientFd : Nat)
  /-- A thread does the next of its calls. -/
  | call (thread : Thread)
  | stop
deriving DecidableEq, Repr

/-- One step of the server. -/
def step (state : State) : Event -> Option State
  | .socketFails => if state.pc = .starting then some { state with pc := .returned (-1) } else none
  | .listen fd succeeds =>
      if state.pc = .starting ∧ fd ∉ state.fds.present then
        if succeeds then
          some { state with
            pc := .listening
            listenFd := some fd
            gListenFd := some fd
            fds := state.fds.add [fd] }
        else some { state with pc := .returned (-1), fds := (state.fds.add [fd]).close fd }
      else none
  | .assign => if state.pc = .listening then some { state with pc := .test, running := true } else none
  | .test =>
      if state.pc = .test then some
        { state with pc := if state.running then .accepting else .leaving } else none
  | .accept clientFd =>
      if state.pc = .accepting ∧ clientFd ∉ state.fds.present then
        some { state with pc := .handing clientFd, fds := state.fds.add [clientFd] }
      else none
  | .interrupted => if state.pc = .accepting then some { state with pc := .test } else none
  | .acceptFails => if state.pc = .accepting then some { state with pc := .failed } else none
  | .testAgain =>
      if state.pc = .failed then some { state with pc := if state.running then .test else .leaving } else none
  | .createThread succeeds =>
      match state.pc with
      | .handing clientFd =>
          if succeeds then some { state with pc := .test, threads := ⟨clientFd, none⟩ :: state.threads }
          else some { state with pc := .test, orphans := clientFd :: state.orphans }
      | _ => none
  | .outOfMemory =>
      match state.pc with
      | .handing clientFd => some { state with pc := .crashed clientFd }
      | _ => none
  | .leave =>
      match state.pc, state.listenFd with
      | .leaving, some fd => some { state with pc := .returned 0, listenFd := none, fds := state.fds.close fd }
      | _, _ => none
  | .exit clientFd way =>
      if state.pc.Alive ∧ ⟨clientFd, none⟩ ∈ state.threads then
        some (state.replace ⟨clientFd, none⟩ [⟨clientFd, some way.calls⟩])
      else none
  | .install clientFd =>
      if state.pc.Alive ∧ ⟨clientFd, none⟩ ∈ state.threads then
        some (state.replace ⟨clientFd, none⟩ [⟨clientFd, some installCalls⟩])
      else none
  | .call thread =>
      if state.pc.Alive ∧ thread ∈ state.threads then
        match thread.left with
        | some (call :: rest) =>
            some ((state.replace thread (remaining thread.jobFd rest)).perform thread.jobFd call)
        | _ => none
      else none
  | .stop => if state.pc.Alive then some { state with running := false } else none

/-! ## What a step can do -/

/-- Between the assignment and the end of the loop. -/
def Pc.InLoop : Pc -> Prop
  | .test | .accepting | .failed | .handing _ | .leaving => True
  | .starting | .listening | .returned _ | .crashed _ | .replaced => False

instance : DecidablePred Pc.InLoop
  | .test | .accepting | .failed | .handing _ | .leaving => isTrue trivial
  | .starting | .listening | .returned _ | .crashed _ | .replaced => isFalse id

/-- The steps, each with the states it leads between. -/
inductive Transition (state : State) : Event -> State -> Prop
  | socketFailed (here : state.pc = .starting) :
      Transition state .socketFails { state with pc := .returned (-1) }
  | listened (here : state.pc = .starting) (fd : Nat) (fresh : fd ∉ state.fds.present) :
      Transition state (.listen fd true)
        { state with pc := .listening, listenFd := some fd, gListenFd := some fd, fds := state.fds.add [fd] }
  | notListened (here : state.pc = .starting) (fd : Nat) (fresh : fd ∉ state.fds.present) :
      Transition state (.listen fd false)
        { state with pc := .returned (-1), fds := (state.fds.add [fd]).close fd }
  | assigned (here : state.pc = .listening) : Transition state .assign
    { state with pc := .test, running := true }
  | tested (here : state.pc = .test) :
      Transition state .test { state with pc := if state.running then .accepting else .leaving }
  | accepted (here : state.pc = .accepting) (clientFd : Nat) (fresh : clientFd ∉ state.fds.present) :
      Transition state (.accept clientFd)
        { state with pc := .handing clientFd, fds := state.fds.add [clientFd] }
  | interrupted (here : state.pc = .accepting) : Transition state .interrupted { state with pc := .test }
  | acceptFailed (here : state.pc = .accepting) : Transition state .acceptFails { state with pc := .failed }
  | testedAgain (here : state.pc = .failed) :
      Transition state .testAgain { state with pc := if state.running then .test else .leaving }
  | created (clientFd : Nat) (here : state.pc = .handing clientFd) :
      Transition state (.createThread true)
        { state with pc := .test, threads := ⟨clientFd, none⟩ :: state.threads }
  | notCreated (clientFd : Nat) (here : state.pc = .handing clientFd) :
      Transition state (.createThread false) { state with pc := .test, orphans := clientFd :: state.orphans }
  | outOfMemory (clientFd : Nat) (here : state.pc = .handing clientFd) :
      Transition state .outOfMemory { state with pc := .crashed clientFd }
  | left (here : state.pc = .leaving) (fd : Nat) (isListener : state.listenFd = some fd) :
      Transition state .leave { state with pc := .returned 0, listenFd := none, fds := state.fds.close fd }
  | exited (clientFd : Nat) (member : ⟨clientFd, none⟩ ∈ state.threads) (way : Exit) :
      Transition state (.exit clientFd way) (state.replace ⟨clientFd, none⟩ [⟨clientFd, some way.calls⟩])
  | installed (clientFd : Nat) (member : ⟨clientFd, none⟩ ∈ state.threads) :
      Transition state (.install clientFd) (state.replace ⟨clientFd, none⟩ [⟨clientFd, some installCalls⟩])
  | called (thread : Thread) (member : thread ∈ state.threads) (call : Call) (rest : List Call)
      (next : thread.left = some (call :: rest)) :
      Transition state (.call thread)
        ((state.replace thread (remaining thread.jobFd rest)).perform thread.jobFd call)
  | stopped : Transition state .stop { state with running := false }

theorem transition_of_step {state next : State} {event : Event} (taken : step state event = some next) :
    Transition state event next := by
  cases event with
  | socketFails =>
      rcases Option.ite_none_right_eq_some.mp taken with ⟨here, same⟩
      exact Option.some.inj same ▸ .socketFailed here
  | listen fd succeeds =>
      rcases Option.ite_none_right_eq_some.mp taken with ⟨⟨here, fresh⟩, same⟩
      cases succeeds with
      | true => exact Option.some.inj same ▸ .listened here fd fresh
      | false => exact Option.some.inj same ▸ .notListened here fd fresh
  | assign =>
      rcases Option.ite_none_right_eq_some.mp taken with ⟨here, same⟩
      exact Option.some.inj same ▸ .assigned here
  | test =>
      rcases Option.ite_none_right_eq_some.mp taken with ⟨here, same⟩
      exact Option.some.inj same ▸ .tested here
  | accept clientFd =>
      rcases Option.ite_none_right_eq_some.mp taken with ⟨⟨here, fresh⟩, same⟩
      exact Option.some.inj same ▸ .accepted here clientFd fresh
  | interrupted =>
      rcases Option.ite_none_right_eq_some.mp taken with ⟨here, same⟩
      exact Option.some.inj same ▸ .interrupted here
  | acceptFails =>
      rcases Option.ite_none_right_eq_some.mp taken with ⟨here, same⟩
      exact Option.some.inj same ▸ .acceptFailed here
  | testAgain =>
      rcases Option.ite_none_right_eq_some.mp taken with ⟨here, same⟩
      exact Option.some.inj same ▸ .testedAgain here
  | createThread succeeds =>
      simp only [step] at taken
      split at taken
      next clientFd here =>
        cases succeeds with
        | true => exact Option.some.inj taken ▸ .created clientFd here
        | false => exact Option.some.inj taken ▸ .notCreated clientFd here
      next => cases taken
  | outOfMemory =>
      simp only [step] at taken
      split at taken
      next clientFd here => exact Option.some.inj taken ▸ .outOfMemory clientFd here
      next => cases taken
  | leave =>
      simp only [step] at taken
      split at taken
      next fd here isListener => exact Option.some.inj taken ▸ .left here fd isListener
      next => cases taken
  | exit clientFd way =>
      rcases Option.ite_none_right_eq_some.mp taken with ⟨⟨_, member⟩, same⟩
      exact Option.some.inj same ▸ .exited clientFd member way
  | install clientFd =>
      rcases Option.ite_none_right_eq_some.mp taken with ⟨⟨_, member⟩, same⟩
      exact Option.some.inj same ▸ .installed clientFd member
  | call thread =>
      rcases Option.ite_none_right_eq_some.mp taken with ⟨⟨_, member⟩, same⟩
      split at same
      next call rest left => exact Option.some.inj same ▸ .called thread member call rest left
      next => cases same
  | stop =>
      rcases Option.ite_none_right_eq_some.mp taken with ⟨_, same⟩
      exact Option.some.inj same ▸ .stopped

/-! ## Descriptors -/

/-- The descriptor of the client that the main thread holds. -/
def Pc.client : Pc -> List Nat
  | .handing clientFd | .crashed clientFd => [clientFd]
  | _ => []

/-- The descriptor that the thread has still to close. -/
def Thread.client (thread : Thread) : List Nat :=
  match thread.left with
  | none => [thread.jobFd]
  | some calls => List.replicate (calls.count .closeJob) thread.jobFd

/-- The descriptors that somebody answers for. -/
def State.held (state : State) : List Nat :=
  state.listenFd.toList ++ (state.pc.client ++ (state.threads.flatMap Thread.client ++ state.orphans))

/-- The thread leaves the listener and the process alone. -/
def Thread.Ordinary (thread : Thread) : Prop :=
  forall calls, thread.left = some calls -> .closeListener ∉ calls ∧ .execv ∉ calls

/-- Each return closes the descriptor once, and nothing else. -/
theorem Exit.closes_once (way : Exit) (clientFd : Nat) :
    Thread.client ⟨clientFd, some way.calls⟩ = [clientFd] ∧ Thread.Ordinary ⟨clientFd, some way.calls⟩ := by
  have once : way.calls.count .closeJob = 1 ∧ .closeListener ∉ way.calls ∧ .execv ∉ way.calls := by
    cases way with
    | updated consumed => cases consumed <;> decide
    | _ => decide
  refine ⟨?_, fun calls isCalls => Option.some.inj isCalls ▸ once.2⟩
  rw [Thread.client]
  dsimp only
  rw [once.1]
  rfl

/-- Behind a call the thread has the rest to close. -/
theorem remaining_client (jobFd : Nat) (rest : List Call) :
    (remaining jobFd rest).flatMap Thread.client = List.replicate (rest.count .closeJob) jobFd := by
  rw [remaining]
  by_cases none : rest = []
  · rw [if_pos none, none]
    rfl
  · rw [if_neg none, List.flatMap_cons, List.flatMap_nil, List.append_nil]
    rfl

/-- In front of `socket` and behind the return there is no listener. -/
def Pc.Apart : Pc -> Prop
  | .starting | .returned _ => True
  | _ => False

variable {before : List Nat}

/-- The descriptors that are open are those from before and those that are held. -/
structure Keeps (before : List Nat) (state : State) : Prop where
  holds : Ledger.Holds before state.held state.fds
  apart : state.pc.Apart -> state.listenFd = none
  ordinary : forall thread, thread ∈ state.threads -> thread.Ordinary

/-- Nothing is held by the main thread but the listener. -/
theorem Keeps.moved {state : State} (keeps : Keeps before state) {pc : Pc} (running : Bool)
    (before_ : state.pc.client = []) (after : pc.client = []) (inside : pc.Apart -> state.pc.Apart) :
    Keeps before { state with pc := pc, running := running } := by
  refine ⟨?_, fun apart => keeps.apart (inside apart), keeps.ordinary⟩
  have holds := keeps.holds
  rw [State.held, before_] at holds
  rw [State.held, after]
  exact holds

/-- The client is handed to a thread, or to nobody. -/
theorem Keeps.handed {state : State} (keeps : Keeps before state) {clientFd : Nat}
    (here : state.pc = .handing clientFd) :
    Keeps before { state with pc := .test, threads := ⟨clientFd, none⟩ :: state.threads } ∧
      Keeps before { state with pc := .test, orphans := clientFd :: state.orphans } := by
  have holds := keeps.holds
  rw [State.held, here] at holds
  refine ⟨⟨holds, False.elim, ?_⟩, ⟨holds.perm ?_, False.elim, keeps.ordinary⟩⟩
  · intro thread member
    rcases List.mem_cons.mp member with same | later
    · rw [same]
      exact nofun
    · exact keeps.ordinary thread later
  · apply List.Perm.append_left
    change (clientFd :: (state.threads.flatMap Thread.client ++ state.orphans)).Perm
      (state.threads.flatMap Thread.client ++ clientFd :: state.orphans)
    exact List.perm_middle.symm

/-- What is held, with the descriptor of one thread in front. -/
theorem held_perm {state : State} {thread : Thread} (member : thread ∈ state.threads) (others : List Thread) :
    state.held.Perm (thread.client ++ (state.replace thread []).held) ∧
      (others.flatMap Thread.client ++ (state.replace thread []).held).Perm
        (state.replace thread others).held := by
  have front : forall threads : List Nat,
      (state.listenFd.toList ++ (state.pc.client ++ (threads ++
        ((state.threads.erase thread).flatMap Thread.client ++ state.orphans)))).Perm
      (threads ++ (state.replace thread []).held) := by
    intro threads
    have middle := (List.perm_append_comm_assoc state.pc.client threads
      ((state.threads.erase thread).flatMap Thread.client ++ state.orphans)).append_left state.listenFd.toList
    exact middle.trans (List.perm_append_comm_assoc _ _ _)
  constructor
  · have erased := ((List.perm_cons_erase member).flatMap_right Thread.client).append_right state.orphans
    rw [List.flatMap_cons, List.append_assoc] at erased
    exact ((erased.append_left state.pc.client).append_left state.listenFd.toList).trans (front _)
  · have same : (state.replace thread others).held = state.listenFd.toList ++ (state.pc.client ++
        (others.flatMap Thread.client ++
          ((state.threads.erase thread).flatMap Thread.client ++ state.orphans))) := by
      rw [State.held, State.replace, List.flatMap_append, List.append_assoc]
    rw [same]
    exact (front _).symm

theorem ordinary_replace {state : State} (keeps : Keeps before state) {thread : Thread} {others : List Thread}
    (ordinary : forall other, other ∈ others -> other.Ordinary) :
    forall other, other ∈ (state.replace thread others).threads -> other.Ordinary := by
  intro other isOther
  rcases List.mem_append.mp isOther with here | rest
  · exact ordinary other here
  · exact keeps.ordinary other (List.mem_of_mem_erase rest)

/-- A thread goes on with as much to close. -/
theorem Keeps.replace {state : State} (keeps : Keeps before state) {thread : Thread}
    (member : thread ∈ state.threads) {others : List Thread}
    (same : others.flatMap Thread.client = thread.client)
    (ordinary : forall other, other ∈ others -> other.Ordinary) :
    Keeps before (state.replace thread others) := by
  have held := held_perm member others
  rw [same] at held
  exact ⟨keeps.holds.perm (held.1.trans held.2), keeps.apart, ordinary_replace keeps ordinary⟩

/-- A thread closes its descriptor. -/
theorem Keeps.closed {state : State} (keeps : Keeps before state) {thread : Thread}
    (member : thread ∈ state.threads) {others : List Thread}
    (same : thread.client = thread.jobFd :: others.flatMap Thread.client)
    (ordinary : forall other, other ∈ others -> other.Ordinary) :
    Keeps before ((state.replace thread others).perform thread.jobFd .closeJob) := by
  have held := held_perm member others
  rw [same] at held
  have holds := keeps.holds.perm held.1
  exact ⟨Ledger.Holds.perm (Ledger.Holds.close holds) held.2, keeps.apart, ordinary_replace keeps ordinary⟩

/-- An ordinary thread does a call. -/
theorem Keeps.called {state : State} (keeps : Keeps before state) {thread : Thread}
    (member : thread ∈ state.threads) {call : Call} {rest : List Call}
    (left : thread.left = some (call :: rest)) :
    Keeps before ((state.replace thread (remaining thread.jobFd rest)).perform thread.jobFd call) := by
  have plain := keeps.ordinary thread member (call :: rest) left
  have client : thread.client = List.replicate ((call :: rest).count .closeJob) thread.jobFd := by
    rw [Thread.client, left]
  have ordinary : forall other, other ∈ remaining thread.jobFd rest -> other.Ordinary := by
    intro other isOther calls isCalls
    rw [remaining] at isOther
    split at isOther
    · exact absurd isOther List.not_mem_nil
    · rw [List.mem_singleton.mp isOther] at isCalls
      rw [← Option.some.inj isCalls]
      exact ⟨fun later => plain.1 (List.mem_cons_of_mem call later),
        fun later => plain.2 (List.mem_cons_of_mem call later)⟩
  have others : call ≠ .closeJob -> (remaining thread.jobFd rest).flatMap Thread.client = thread.client := by
    intro differs
    rw [remaining_client, client, List.count_cons_of_ne differs]
  cases call with
  | sslShutdown => exact keeps.replace member (others nofun) ordinary
  | sslFree => exact keeps.replace member (others nofun) ordinary
  | freeJob => exact keeps.replace member (others nofun) ordinary
  | closeListener => exact absurd List.mem_cons_self plain.1
  | execv => exact absurd List.mem_cons_self plain.2
  | closeJob =>
      apply keeps.closed member _ ordinary
      rw [remaining_client, client, List.count_cons_self]
      rfl

theorem keeps_step {state next : State} {event : Event} (taken : step state event = some next)
    (noInstall : forall clientFd, event ≠ .install clientFd) (keeps : Keeps before state) :
    Keeps before next := by
  rcases transition_of_step taken with
    here | ⟨here, fd, fresh⟩ | ⟨here, fd, fresh⟩ | here | here | ⟨here, clientFd, fresh⟩ | here |
    here | here | ⟨clientFd, here⟩ | ⟨clientFd, here⟩ | ⟨clientFd, here⟩ | ⟨here, fd, isListener⟩ |
    ⟨clientFd, member, way⟩ | ⟨clientFd, member⟩ | ⟨thread, member, call, rest, left⟩ | _
  · apply keeps.moved state.running (by rw [here]; rfl) rfl
    intro _
    rw [here]
    trivial
  · have none := keeps.apart (by rw [here]; trivial)
    have holds := keeps.holds
    rw [State.held, none, here] at holds
    exact ⟨holds.add (List.nodup_singleton fd) (by simpa using fresh), False.elim, keeps.ordinary⟩
  · have none := keeps.apart (by rw [here]; trivial)
    have added := keeps.holds.add (List.nodup_singleton fd) (by simpa using fresh)
    have holds := added.close
    rw [State.held, none, here] at holds
    refine ⟨?_, fun _ => none, keeps.ordinary⟩
    rw [State.held]
    dsimp only
    rw [none]
    exact holds
  · exact keeps.moved true (by rw [here]; rfl) rfl False.elim
  · apply keeps.moved state.running (by rw [here]; rfl)
    · split <;> rfl
    · split <;> exact False.elim
  · have added := keeps.holds.add (List.nodup_singleton clientFd) (by simpa using fresh)
    refine ⟨added.perm ?_, False.elim, keeps.ordinary⟩
    rw [State.held, here]
    change (clientFd :: (state.listenFd.toList ++
      (state.threads.flatMap Thread.client ++ state.orphans))).Perm
        (state.listenFd.toList ++ clientFd :: (state.threads.flatMap Thread.client ++ state.orphans))
    exact List.perm_middle.symm
  · exact keeps.moved state.running (by rw [here]; rfl) rfl False.elim
  · exact keeps.moved state.running (by rw [here]; rfl) rfl False.elim
  · apply keeps.moved state.running (by rw [here]; rfl)
    · split <;> rfl
    · split <;> exact False.elim
  · exact (keeps.handed here).1
  · exact (keeps.handed here).2
  · have holds := keeps.holds
    rw [State.held, here] at holds
    exact ⟨holds, False.elim, keeps.ordinary⟩
  · have holds := keeps.holds
    rw [State.held, isListener, here] at holds
    exact ⟨holds.close, fun _ => rfl, keeps.ordinary⟩
  · have once := way.closes_once clientFd
    apply keeps.replace member
    · rw [List.flatMap_cons, List.flatMap_nil, List.append_nil, once.1]
      rfl
    · intro other isOther
      rw [List.mem_singleton.mp isOther]
      exact once.2
  · exact absurd rfl (noInstall clientFd)
  · exact keeps.called member left
  · exact ⟨keeps.holds, keeps.apart, keeps.ordinary⟩

/-- The same along a run. -/
theorem keeps_history (past : List Event) (state : State) (event : Event) (next : State)
    (taken : step state event = some next)
    (keeps : (forall clientFd, .install clientFd ∉ past) -> Keeps before state)
    (noInstall : forall clientFd, .install clientFd ∉ past ++ [event]) : Keeps before next := by
  refine keeps_step taken ?_ (keeps (fun clientFd member => noInstall clientFd (List.mem_append_left _ member)))
  rintro clientFd rfl
  exact noInstall clientFd (List.mem_append_right _ List.mem_cons_self)

theorem perform_orphans (state : State) (jobFd : Nat) (call : Call) :
    (state.perform jobFd call).orphans = state.orphans := by
  cases call with
  | closeListener =>
      rw [State.perform]
      split <;> rfl
  | _ => rfl

/-- A job is an orphan for each thread that was not created. -/
theorem orphans_step (past : List Event) (state : State) (event : Event) (next : State)
    (taken : step state event = some next) (counted : state.orphans.length = past.count (.createThread false)) :
    next.orphans.length = (past ++ [event]).count (.createThread false) := by
  rw [List.count_append]
  rcases transition_of_step taken with
    _ | _ | _ | _ | _ | _ | _ | _ | _ | _ | ⟨clientFd, here⟩ | _ | _ | _ | _ |
    ⟨thread, _, call, rest, _⟩ | _
  case notCreated => exact congrArg (· + 1) counted
  case called =>
    rw [perform_orphans]
    exact counted
  all_goals exact counted

/-- In every run in which no update is installed each descriptor is open, closed once, or was open before,
and those that are open are the listener's, the client's that is handed over, and those of the jobs whose
thread has not closed them.  When `server_start` has returned and the threads have ended, no client is left
open if and only if every thread was created. -/
theorem client_descriptors (distinct : before.Nodup) {events : List Event} {final : State}
    (run : Machine.exec step (start before) events = some final)
    (noInstall : forall clientFd, .install clientFd ∉ events) :
    Ledger.Holds before final.held final.fds ∧
      ((Exists fun code => final.pc = .returned code) -> final.threads = [] ->
        (Ledger.Balanced before final.fds ↔ .createThread false ∉ events)) := by
  have begins : Keeps before (start before) :=
    ⟨Ledger.holds_start distinct, fun _ => rfl, fun _ member => absurd member List.not_mem_nil⟩
  have kept : (forall clientFd, .install clientFd ∉ [] ++ events) -> Keeps before final :=
    Machine.history_exec keeps_history run (fun _ => begins)
  have keeps := kept noInstall
  have counted : final.orphans.length = ([] ++ events).count (Event.createThread false) :=
    Machine.history_exec orphans_step run (show 0 = ([] : List Event).count _ from rfl)
  rw [List.nil_append] at counted
  refine ⟨keeps.holds, ?_⟩
  rintro ⟨code, returned⟩ ended
  have none := keeps.apart (by rw [returned]; trivial)
  have held : final.held = final.orphans := by
    rw [State.held, none, returned, ended]
    rfl
  rw [keeps.holds.balanced_iff, held, ← List.length_eq_zero_iff, counted, List.count_eq_zero]

/-- A thread does the calls in front of its return. -/
def Exit.events (way : Exit) (clientFd : Nat) : List Event :=
  .exit clientFd way :: way.calls.tails.dropLast.map (fun calls => .call ⟨clientFd, some calls⟩)

/-- A client is served, and then the server is stopped. -/
def oneClient : List Event :=
  [.listen 3 true, .assign, .test, .accept 4, .createThread true, .test] ++ Exit.handled.events 4 ++
    [.stop, .interrupted, .test, .leave]

theorem client_descriptors_one : Exists fun final =>
    Machine.exec step (start [0, 1, 2]) oneClient = some final ∧ Ledger.Balanced [0, 1, 2] final.fds := by
  refine ⟨⟨.returned 0, false, none, some 3, [], [], ⟨[0, 1, 2], [3, 4], [4, 3]⟩⟩, by decide, ?_⟩
  have run : Machine.exec step (start [0, 1, 2]) oneClient =
      some ⟨.returned 0, false, none, some 3, [], [], ⟨[0, 1, 2], [3, 4], [4, 3]⟩⟩ := by decide
  have noInstall : forall clientFd, .install clientFd ∉ oneClient := by
    intro clientFd member
    simp [oneClient, Exit.events, Exit.calls] at member
  exact ((client_descriptors (by decide) run noInstall).2 ⟨0, rfl⟩ rfl).mpr (by decide)

/-- An update closes the listener in front of `execv`, and a stop lets the main thread close the
same number, which may be another file by then. -/
example : ((Machine.exec step (start [0, 1, 2])
    [.listen 3 true, .assign, .test, .accept 4, .createThread true, .install 4, .call ⟨4, some installCalls⟩,
      .call ⟨4, some [.sslFree, .closeListener, .execv]⟩, .call ⟨4, some [.closeListener, .execv]⟩,
        .stop, .test,
      .leave]).map (fun final => final.fds.closed)) = some [3, 3] := by decide

/-! ## Stopping -/

/-- A stop was handled while the main thread was in the loop. -/
def StopInLoop (before : List Nat) (past : List Event) : Prop :=
  Exists fun early => Exists fun late => Exists fun middle => past = early ++ .stop :: late ∧
    Machine.exec step (start before) early = some middle ∧ middle.pc.InLoop

theorem StopInLoop.extend {past : List Event} (stopped : StopInLoop before past) (event : Event) :
    StopInLoop before (past ++ [event]) := by
  rcases stopped with ⟨early, late, middle, split, reached, inLoop⟩
  refine ⟨early, late ++ [event], middle, ?_, reached, inLoop⟩
  rw [split, List.append_assoc, List.cons_append]

/-- A call leaves the main thread where it is, or ends the process. -/
theorem perform_pc (state : State) (jobFd : Nat) (call : Call) :
    (state.perform jobFd call).pc = state.pc ∨ (state.perform jobFd call).pc = .replaced := by
  cases call with
  | execv => exact Or.inr rfl
  | closeListener =>
      rw [State.perform]
      split <;> exact Or.inl rfl
  | _ => exact Or.inl rfl

theorem perform_running (state : State) (jobFd : Nat) (call : Call) :
    (state.perform jobFd call).running = state.running := by
  cases call with
  | closeListener =>
      rw [State.perform]
      split <;> rfl
  | _ => rfl

/-- A loop that is to end, or has ended, was stopped while it ran. -/
structure Heeds (before : List Nat) (past : List Event) (state : State) : Prop where
  reached : Machine.exec step (start before) past = some state
  ending : state.pc.InLoop -> state.running = false -> StopInLoop before past
  ended : state.pc = .leaving ∨ state.pc = .returned 0 -> StopInLoop before past

theorem heeds_step (past : List Event) (state : State) (event : Event) (next : State)
    (taken : step state event = some next) (heeds : Heeds before past state) :
    Heeds before (past ++ [event]) next := by
  have reached : Machine.exec step (start before) (past ++ [event]) = some next := by
    rw [Machine.exec_append, heeds.reached, Option.bind_some]
    exact Machine.exec_cons_of_step taken
  have stays : state.pc.InLoop -> state.running = false -> StopInLoop before (past ++ [event]) :=
    fun inLoop stopped => (heeds.ending inLoop stopped).extend event
  -- from one place in the loop to another that is not its end
  have moves : forall pc : Pc, state.pc.InLoop -> pc ≠ .leaving -> pc ≠ .returned 0 ->
      (pc.InLoop -> state.running = false -> StopInLoop before (past ++ [event])) ∧
        (pc = .leaving ∨ pc = .returned 0 -> StopInLoop before (past ++ [event])) := by
    intro pc inLoop notLeaving notReturned
    exact ⟨fun _ => stays inLoop, fun finished => (finished.elim notLeaving notReturned).elim⟩
  -- the condition of the loop is read
  have reads : forall pc : Pc, state.pc.InLoop -> pc ≠ .leaving -> pc ≠ .returned 0 ->
      ((if state.running = true then pc else .leaving).InLoop -> state.running = false ->
        StopInLoop before (past ++ [event])) ∧
        ((if state.running = true then pc else .leaving) = .leaving ∨
          (if state.running = true then pc else .leaving) = .returned 0 ->
            StopInLoop before (past ++ [event])) := by
    intro pc inLoop notLeaving notReturned
    cases isRunning : state.running with
    | true =>
        rw [if_pos rfl]
        exact ⟨fun _ stopped => absurd stopped Bool.noConfusion, fun finished =>
          (finished.elim notLeaving notReturned).elim⟩
    | false => exact ⟨fun _ _ => stays inLoop isRunning, fun _ => stays inLoop isRunning⟩
  rcases transition_of_step taken with
    here | ⟨here, fd, fresh⟩ | ⟨here, fd, fresh⟩ | here | here | ⟨here, clientFd, fresh⟩ | here |
    here | here | ⟨clientFd, here⟩ | ⟨clientFd, here⟩ | ⟨clientFd, here⟩ | ⟨here, fd, isListener⟩ |
    ⟨clientFd, member, way⟩ | ⟨clientFd, member⟩ | ⟨thread, member, call, rest, left⟩ | _
  · exact ⟨reached, False.elim, fun finished => by simp at finished⟩
  · exact ⟨reached, False.elim, fun finished => by simp at finished⟩
  · exact ⟨reached, False.elim, fun finished => by simp at finished⟩
  · exact ⟨reached, fun _ stopped => absurd stopped Bool.noConfusion, fun finished => by simp at finished⟩
  · have read := reads .accepting (by rw [here]; trivial) (by simp) (by simp)
    exact ⟨reached, read.1, read.2⟩
  · have moved := moves (.handing clientFd) (by rw [here]; trivial) (by simp) (by simp)
    exact ⟨reached, moved.1, moved.2⟩
  · have moved := moves .test (by rw [here]; trivial) (by simp) (by simp)
    exact ⟨reached, moved.1, moved.2⟩
  · have moved := moves .failed (by rw [here]; trivial) (by simp) (by simp)
    exact ⟨reached, moved.1, moved.2⟩
  · have read := reads .test (by rw [here]; trivial) (by simp) (by simp)
    exact ⟨reached, read.1, read.2⟩
  · have moved := moves .test (by rw [here]; trivial) (by simp) (by simp)
    exact ⟨reached, moved.1, moved.2⟩
  · have moved := moves .test (by rw [here]; trivial) (by simp) (by simp)
    exact ⟨reached, moved.1, moved.2⟩
  · exact ⟨reached, False.elim, fun finished => by simp at finished⟩
  · exact ⟨reached, False.elim, fun _ => (heeds.ended (Or.inl here)).extend _⟩
  · exact ⟨reached, stays, fun finished => (heeds.ended finished).extend _⟩
  · exact ⟨reached, stays, fun finished => (heeds.ended finished).extend _⟩
  · have running := perform_running (state.replace thread (remaining thread.jobFd rest)) thread.jobFd call
    rcases perform_pc (state.replace thread (remaining thread.jobFd rest)) thread.jobFd call with
      same | replaced
    · refine ⟨reached, ?_, ?_⟩
      · rw [same, running]
        exact stays
      · rw [same]
        exact fun finished => (heeds.ended finished).extend _
    · refine ⟨reached, ?_, ?_⟩
      · rw [replaced]
        exact False.elim
      · rw [replaced]
        exact fun finished => by simp at finished
  · exact ⟨reached, fun inLoop _ => ⟨past, [], state, rfl, heeds.reached, inLoop⟩,
      fun finished => (heeds.ended finished).extend _⟩

/-- A step of the main thread. -/
def Event.isMain : Event -> Bool
  | .exit _ _ | .install _ | .call _ | .stop => false
  | _ => true

def Event.isAccept : Event -> Bool
  | .accept _ => true
  | _ => false

/-- How many steps the main thread takes from here if `running` is not set. -/
def Pc.remaining : Pc -> Nat
  | .accepting => 4
  | .handing _ => 3
  | .test | .failed => 2
  | .leaving => 1
  | _ => 0

/-- How many clients it accepts. -/
def Pc.accepts : Pc -> Nat
  | .accepting => 1
  | _ => 0

/-- The loop runs or is over, and `running` is not set. -/
def Stopping (state : State) : Prop := state.running = false ∧ state.pc ≠ .starting ∧ state.pc ≠ .listening

/-- Every step of the main thread is one of those that remain, and accepting is among them only once. -/
theorem stopping_step {state next : State} {event : Event} (taken : step state event = some next)
    (stopping : Stopping state) :
    Stopping next ∧ next.pc.remaining + (if event.isMain then 1 else 0) ≤ state.pc.remaining ∧
      next.pc.accepts + (if event.isAccept then 1 else 0) ≤ state.pc.accepts := by
  rcases stopping with ⟨stopped, notStarting, notListening⟩
  rcases transition_of_step taken with
    here | ⟨here, fd, fresh⟩ | ⟨here, fd, fresh⟩ | here | here | ⟨here, clientFd, fresh⟩ | here |
    here | here | ⟨clientFd, here⟩ | ⟨clientFd, here⟩ | ⟨clientFd, here⟩ | ⟨here, fd, isListener⟩ |
    ⟨clientFd, member, way⟩ | ⟨clientFd, member⟩ | ⟨thread, member, call, rest, left⟩ | _
  case socketFailed | listened | notListened => exact absurd here notStarting
  case assigned => exact absurd here notListening
  case tested | testedAgain =>
    rw [here, stopped, if_neg Bool.false_ne_true]
    exact ⟨⟨rfl, Pc.noConfusion, Pc.noConfusion⟩, Nat.le_refl 2, Nat.le_refl 0⟩
  case exited | installed => exact ⟨⟨stopped, notStarting, notListening⟩, Nat.le_refl _, Nat.le_refl _⟩
  case called =>
    have running := perform_running (state.replace thread (remaining thread.jobFd rest)) thread.jobFd call
    rcases perform_pc (state.replace thread (remaining thread.jobFd rest)) thread.jobFd call with
      same | replaced
    · rw [Stopping, running, same]
      exact ⟨⟨stopped, notStarting, notListening⟩, Nat.le_refl _, Nat.le_refl _⟩
    · rw [Stopping, running, replaced]
      exact ⟨⟨stopped, Pc.noConfusion, Pc.noConfusion⟩, Nat.zero_le _, Nat.zero_le _⟩
  case stopped => exact ⟨⟨rfl, notStarting, notListening⟩, Nat.le_refl _, Nat.le_refl _⟩
  all_goals
    rw [here]
    exact ⟨⟨stopped, Pc.noConfusion, Pc.noConfusion⟩, by simp [Pc.remaining, Event.isMain],
      by simp [Pc.accepts, Event.isAccept]⟩

/-- Behind a stop the main thread takes the steps that remain. -/
theorem stopping_exec {state final : State} {events : List Event}
    (run : Machine.exec step state events = some final) (stopping : Stopping state) :
    events.countP Event.isMain ≤ state.pc.remaining ∧ events.countP Event.isAccept ≤ state.pc.accepts := by
  induction events generalizing state with
  | nil => exact ⟨Nat.zero_le _, Nat.zero_le _⟩
  | cons event rest inductionHypothesis =>
      rcases Machine.exec_cons_eq_some_iff.mp run with ⟨next, taken, tail⟩
      rcases stopping_step taken stopping with ⟨after, main, accepted⟩
      have later := inductionHypothesis tail after
      rw [List.countP_cons, List.countP_cons]
      omega

/-- `server_start` returns 0 only if a stop was handled while its loop ran: those that come before
`sv->running = 1` are lost.  Behind one that is not, the main thread takes at most four more steps, and
accepts at most one more client. -/
theorem server_stops {events : List Event} {final : State}
    (run : Machine.exec step (start before) events = some final) :
    (final.pc = .returned 0 -> StopInLoop before events) ∧
      forall early late middle, events = early ++ .stop :: late ->
        Machine.exec step (start before) early = some middle -> middle.pc.InLoop ->
          late.countP Event.isMain ≤ 4 ∧ late.countP Event.isAccept ≤ 1 := by
  constructor
  · intro returned
    have begins : Heeds before [] (start before) :=
      ⟨rfl, False.elim, fun finished => by simp [start] at finished⟩
    have heeds := Machine.history_exec heeds_step run begins
    exact heeds.ended (Or.inr returned)
  · intro early late middle split reached inLoop
    rw [split, Machine.exec_append, reached, Option.bind_some] at run
    rcases Machine.exec_cons_eq_some_iff.mp run with ⟨next, taken, rest⟩
    have isNext : next = { middle with running := false } :=
      (Option.some.inj (Option.ite_none_right_eq_some.mp taken).2).symm
    have stopping : Stopping next := by
      rw [isNext]
      refine ⟨rfl, ?_, ?_⟩ <;> (intro here; rw [show middle.pc = _ from here] at inLoop; exact inLoop)
    have bounds := stopping_exec rest stopping
    have most : next.pc.remaining ≤ 4 ∧ next.pc.accepts ≤ 1 := by
      cases next.pc <;> simp [Pc.remaining, Pc.accepts]
    exact ⟨Nat.le_trans bounds.1 most.1, Nat.le_trans bounds.2 most.2⟩

/-- A stop that is handled before the loop, and one while a client is waited for. -/
theorem server_stops_one : StopInLoop [0, 1, 2] (.stop :: oneClient) :=
  (server_stops (by decide : Machine.exec step (start [0, 1, 2]) (.stop :: oneClient) =
    some ⟨.returned 0, false, none, some 3, [], [], ⟨[0, 1, 2], [3, 4], [4, 3]⟩⟩)).1 rfl

end AcceptLoop
end Server
end AdbBridge
