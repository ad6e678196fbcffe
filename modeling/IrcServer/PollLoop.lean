import IrcServer.Network

/-!
# The poll loop

`runServer` as a transition system whose state has a program counter.  A round goes over
`_pollfds` twice: before `poll`, to request `POLLOUT` for the clients that have something
to be sent, and after it, to serve the entries that are ready.  A turn of the second loop is
two steps, one for `POLLIN` and one for `POLLOUT`, since the first may end the turn.

A turn that removes its entry does not advance the index: `i--` undoes the `i++` to come,
also when `i` is 0 and wraps around.

What `poll`, `accept`, `recv` and `send` return is part of the event; nothing is assumed of
the entries that `poll` reports ready.
-/

namespace IrcServer

open Library

namespace Server

/-! ## One entry -/

/-- `_pollfds[i].events = ..` -/
def setEvents (s : Server) (i : Nat) (wantsOut : Bool) : Server :=
  { s with pollfds := s.pollfds.modify i fun p ↦ { p with wantsOut := wantsOut } }

/-- A turn of the loop before `poll`. -/
def prepareEntry (s : Server) (i : Nat) : Server :=
  match s.pollfds[i]? with
  | none => s
  | some p =>
      if p.fd = s.serverSocket then s.setEvents i false
      else
        let s := s.touch p.fd
        s.setEvents i (!(s.client p.fd).writeBuffer.isEmpty)

/-- What `poll` writes to the entries. -/
def setRevents (s : Server) (revents : Nat → Bool × Bool) : Server :=
  { s with pollfds := s.pollfds.mapIdx fun i p ↦
      { p with pollIn := (revents i).1, pollOut := (revents i).2 } }

/-- `send`, when there is something to be sent. -/
def flush (s : Server) (fd : Int) (sent : Int) : Server :=
  let s := s.touch fd
  if !(s.client fd).writeBuffer.isEmpty && 0 < sent then
    s.modify fd (·.eraseFromWriteBuffer sent.toNat)
  else s

/-- The condition under which the `POLLOUT` branch closes a connection. -/
def isFinished (s : Server) (fd : Int) : Bool :=
  (s.client fd).writeBuffer.isEmpty && (s.client fd).shouldDisconnect

/-- The bytes `send` takes. -/
def takenBySend (s : Server) (fd : Int) (sent : Int) : Bytes :=
  if !(s.client fd).writeBuffer.isEmpty && 0 < sent then
    (s.client fd).writeBuffer.take sent.toNat
  else []

/-- The entries keep their descriptors. -/
theorem map_fd_setEvents (s : Server) (i : Nat) (wantsOut : Bool) :
    (s.setEvents i wantsOut).pollfds.map PollFd.fd = s.pollfds.map PollFd.fd := by
  apply List.ext_getElem?
  intro j
  simp only [setEvents, List.getElem?_map, List.getElem?_modify]
  cases s.pollfds[j]? with
  | none => rfl
  | some p =>
      simp only [Option.map_eq_map, Option.map_some]
      split <;> rfl

theorem map_fd_setRevents (s : Server) (revents : Nat → Bool × Bool) :
    (s.setRevents revents).pollfds.map PollFd.fd = s.pollfds.map PollFd.fd := by
  apply List.ext_getElem?
  intro j
  simp only [setRevents, List.getElem?_map, List.getElem?_mapIdx, Option.map_map]
  rfl

/-- The `POLLOUT` branch sends and then closes what is finished. -/
theorem pollOut_eq (s : Server) (fd sent : Int) : s.pollOut fd sent =
    if (s.flush fd sent).isFinished fd then (s.flush fd sent).clearClient fd
    else s.flush fd sent := rfl

end Server

/-! ## The program counter -/

/-- Where the loop is, with the value of `i`. -/
inductive Phase where
  /-- Before a turn of the loop before `poll`. -/
  | prepare (i : Nat)
  /-- Before a turn of the loop after `poll`. -/
  | read (i : Nat)
  /-- Before the `POLLOUT` part of a turn. -/
  | write (i : Nat)
deriving DecidableEq

structure PollLoop where
  server : Server
  phase : Phase := .prepare 0
  /-- History: the bytes `send` has taken, for each insertion into `_clients`. -/
  taken : Nat → Bytes := fun _ ↦ []

/-- The steps of `runServer`. -/
inductive PollEvent where
  | prepare
  | poll (revents : Nat → Bool × Bool)
  /-- The `POLLIN` part of a turn, with what `accept` and `recv` return if they are called. -/
  | read (incoming : Incoming) (received : Except Errno Bytes)
  /-- The `POLLOUT` part of a turn, with what `send` returns if it is called. -/
  | write (sent : Int)
  /-- The end of a round. -/
  | round
  /-- The hash map changes its iteration order. -/
  | rehash (clients : UnorderedMap Int Client)

/-- `accept` returns a descriptor that is not open. -/
def Incoming.IsNew (s : Server) : Incoming → Prop
  | connected clientFd _ => clientFd ∉ s.clients ∧ clientFd ≠ s.serverSocket
  | _ => True

namespace PollLoop

/-- The loop when `initServer` has succeeded.  The channels are whatever they are: no line
creates one. -/
def start (serverSocket : Int) (password : Bytes) (channels : UnorderedMap Nat Channel) :
    PollLoop where
  server := { Server.initial serverSocket password with channels := channels }

/-- The `POLLIN` part of a turn. -/
def readEntry (σ : PollLoop) (i : Nat) (incoming : Incoming) (received : Except Errno Bytes) :
    PollLoop :=
  match σ.server.pollfds[i]? with
  | none => σ
  | some p =>
      if !p.pollIn then { σ with phase := .write i }
      else if p.fd = σ.server.serverSocket then
        { σ with server := σ.server.acceptClient incoming, phase := .write i }
      else
        let s := σ.server.receiveData p.fd received
        if s.pollfds.length < σ.server.pollfds.length then
          { σ with server := s, phase := .read i }
        else { σ with server := s, phase := .write i }

/-- The `POLLOUT` part of a turn. -/
def writeEntry (σ : PollLoop) (i : Nat) (sent : Int) : PollLoop :=
  match σ.server.pollfds[i]? with
  | none => σ
  | some p =>
      if p.pollOut && p.fd ≠ σ.server.serverSocket then
        let serial := ((σ.server.touch p.fd).client p.fd).serial
        let taken := Function.update σ.taken serial
          (σ.taken serial ++ (σ.server.touch p.fd).takenBySend p.fd sent)
        let s := σ.server.flush p.fd sent
        if s.isFinished p.fd then
          { server := s.clearClient p.fd, phase := .read i, taken := taken }
        else { server := s, phase := .read (i + 1), taken := taken }
      else { σ with phase := .read (i + 1) }

/-- What the loop conditions and the system calls allow. -/
def enabled (σ : PollLoop) (e : PollEvent) : Prop :=
  match e, σ.phase with
  | .prepare, .prepare i => i < σ.server.pollfds.length
  | .poll _, .prepare i => σ.server.pollfds.length ≤ i
  | .read incoming _, .read i => i < σ.server.pollfds.length ∧ incoming.IsNew σ.server
  | .write sent, .write i =>
      ∀ p ∈ σ.server.pollfds[i]?, sent ≤ (σ.server.client p.fd).writeBuffer.length
  | .round, .read i => σ.server.pollfds.length ≤ i
  | .rehash clients, _ => clients.entries.Perm σ.server.clients.entries
  | _, _ => False

instance (s : Server) : (incoming : Incoming) → Decidable (incoming.IsNew s)
  | .connected _ _ => inferInstanceAs (Decidable (_ ∧ _))
  | .acceptFailed | .fcntlFailed _ | .ntopFailed _ => isTrue trivial

instance (σ : PollLoop) (e : PollEvent) : Decidable (σ.enabled e) := by
  unfold enabled
  split <;> infer_instance

def step (σ : PollLoop) (e : PollEvent) : PollLoop :=
  match e, σ.phase with
  | .prepare, .prepare i => { σ with server := σ.server.prepareEntry i, phase := .prepare (i + 1) }
  | .poll revents, .prepare _ => { σ with server := σ.server.setRevents revents, phase := .read 0 }
  | .read incoming received, .read i => σ.readEntry i incoming received
  | .write sent, .write i => σ.writeEntry i sent
  | .round, .read _ => { σ with phase := .prepare 0 }
  | .rehash clients, _ => { σ with server := { σ.server with clients := clients } }
  | _, _ => σ

end PollLoop

/-- `runServer`.  A run is any number of rounds, with any outcome of the system calls. -/
def pollLoop : System PollLoop PollEvent where
  enabled := PollLoop.enabled
  step := PollLoop.step

instance (σ : PollLoop) (e : PollEvent) : Decidable (pollLoop.enabled σ e) :=
  inferInstanceAs (Decidable (σ.enabled e))

end IrcServer
