import IrcServer.PollLoop
import IrcServer.Library.Ledger

/-!
# The process

`main` from the construction of the server to its return: `initServer`, the outer loop of
`runServer` with its test of `_signal`, the rounds of `IrcServer.PollLoop`, and `closeAll`.
A signal may arrive between any two steps, and `poll` may fail.

The descriptors that `socket` and `accept` hand out and those that are passed to `close`
are recorded.  The kernel hands out a descriptor that is not open; nothing else is
assumed of it.  The log file belongs to a `std::ofstream` and has a descriptor of its own,
which is not recorded.
-/

namespace IrcServer

open Library

/-! ## Bringing the server up -/

/-- What the calls of `initServer` return: the first that fails, or none. -/
inductive Bringup where
  | logFailed
  | socketFailed
  | fcntlFailed (fd : Int)
  | bindFailed (fd : Int)
  | listenFailed (fd : Int)
  | listening (fd : Int)
deriving DecidableEq

namespace Bringup

/-- What `socket` returns, if it succeeds. -/
def descriptor : Bringup → Option Int
  | logFailed | socketFailed => none
  | fcntlFailed fd | bindFailed fd | listenFailed fd | listening fd => some fd

def calls (outcome : Bringup) : List (Call Int) := outcome.descriptor.toList.map .opened

/-- What `initServer` returns. -/
def succeeds : Bringup → Bool
  | listening _ => true
  | _ => false

end Bringup

namespace Server

/-- `Server::Server`. -/
def constructed (password : Bytes) : Server where
  password := password
  serverSocket := -1

/-- `Server::initServer`.  A failure leaves the socket open. -/
def initServer (s : Server) : Bringup → Server
  | .logFailed => s
  | .socketFailed => { s with serverSocket := -1 }
  | .fcntlFailed fd | .bindFailed fd | .listenFailed fd => { s with serverSocket := fd }
  | .listening fd => { s with serverSocket := fd, pollfds := s.pollfds ++ [{ fd := fd }] }

/-- The `close` calls of `Server::closeAll`. -/
def closeAll (s : Server) : List (Call Int) :=
  s.clients.entries.map (fun e ↦ .closed e.2.socketFd) ++
    if -1 ≠ s.serverSocket then [.closed s.serverSocket] else []

/-- The `close` call of `receiveData`, in `clearClient`. -/
def receiveCalls (fd : Int) : Except Errno Bytes → List (Call Int)
  | .ok [] | .error .other => [.closed fd]
  | .ok (_ :: _) | .error .again | .error .wouldBlock | .error .interrupted => []

end Server

/-! ## What a round opens and closes -/

namespace Incoming

/-- What `accept` returns, if it succeeds. -/
def descriptor : Incoming → Option Int
  | acceptFailed => none
  | fcntlFailed clientFd | ntopFailed clientFd | connected clientFd _ => some clientFd

/-- A connection that cannot be set up is closed at once. -/
def calls : Incoming → List (Call Int)
  | acceptFailed => []
  | fcntlFailed clientFd | ntopFailed clientFd => [.opened clientFd, .closed clientFd]
  | connected clientFd _ => [.opened clientFd]

end Incoming

namespace PollLoop

def readCalls (σ : PollLoop) (i : Nat) (incoming : Incoming) (received : Except Errno Bytes) :
    List (Call Int) :=
  match σ.server.pollfds[i]? with
  | none => []
  | some p =>
      if !p.pollIn then []
      else if p.fd = σ.server.serverSocket then incoming.calls
      else Server.receiveCalls p.fd received

def writeCalls (σ : PollLoop) (i : Nat) (sent : Int) : List (Call Int) :=
  match σ.server.pollfds[i]? with
  | none => []
  | some p =>
      if p.pollOut && p.fd ≠ σ.server.serverSocket then
        if (σ.server.flush p.fd sent).isFinished p.fd then [.closed p.fd] else []
      else []

/-- What a step opens and closes. -/
def calls (σ : PollLoop) (e : PollEvent) : List (Call Int) :=
  match e, σ.phase with
  | .read incoming received, .read i => σ.readCalls i incoming received
  | .write sent, .write i => σ.writeCalls i sent
  | _, _ => []

/-- `poll` is called. -/
def polls (σ : PollLoop) : Prop :=
  match σ.phase with
  | .prepare i => σ.server.pollfds.length ≤ i
  | _ => False

instance : (σ : PollLoop) → Decidable σ.polls
  | ⟨_, .prepare _, _⟩ => inferInstanceAs (Decidable (_ ≤ _))
  | ⟨_, .read _, _⟩ | ⟨_, .write _, _⟩ => isFalse id

end PollLoop

/-- The last step of a round. -/
def PollEvent.endsRound : PollEvent → Bool
  | round => true
  | _ => false

/-! ## Stages -/

/-- Where `main` is. -/
inductive Stage where
  /-- Before `initServer`. -/
  | starting
  /-- `initServer` has failed, and `main` has returned. -/
  | failed
  /-- Before the condition of the outer loop. -/
  | testing
  /-- In a round. -/
  | serving
  /-- Before `closeAll`. -/
  | leaving
  /-- `runServer` and `main` have returned. -/
  | returned
deriving DecidableEq

structure Process where
  stage : Stage
  loop : PollLoop
  /-- `Server::_signal` -/
  signal : Bool := false
  /-- History: the descriptors that were opened and closed. -/
  calls : List (Call Int) := []

inductive ProcessEvent where
  | init (outcome : Bringup)
  /-- `signalHandler` is called. -/
  | signal
  /-- The condition of the outer loop is tested. -/
  | test
  | loop (e : PollEvent)
  /-- `poll` returns -1. -/
  | pollFailed
  | closeAll

namespace Process

/-- The process before `initServer`. -/
def start (password : Bytes) : Process where
  stage := .starting
  loop := { server := .constructed password }

/-- What is open. -/
def live (π : Process) : Finset Int := Ledger.live π.calls

/-- A descriptor the kernel may hand out. -/
def IsNew (π : Process) (fd : Int) : Prop := 0 ≤ fd ∧ fd ∉ π.live

instance (π : Process) (fd : Int) : Decidable (π.IsNew fd) := inferInstanceAs (Decidable (_ ∧ _))

/-- What the loop condition and the system calls allow, within a round. -/
def allows (π : Process) (e : PollEvent) : Prop :=
  match e, π.loop.phase with
  | .read incoming _, .read i =>
      i < π.loop.server.pollfds.length ∧ ∀ fd ∈ incoming.descriptor, π.IsNew fd
  | _, _ => π.loop.enabled e

def enabled (π : Process) : ProcessEvent → Prop
  | .init outcome => π.stage = .starting ∧ ∀ fd ∈ outcome.descriptor, π.IsNew fd
  | .signal => π.stage ≠ .failed ∧ π.stage ≠ .returned
  | .test => π.stage = .testing
  | .loop e => π.stage = .serving ∧ π.allows e
  | .pollFailed => π.stage = .serving ∧ π.loop.polls
  | .closeAll => π.stage = .leaving

instance : (π : Process) → (e : PollEvent) → Decidable (π.allows e)
  | ⟨_, ⟨_, .read _, _⟩, _, _⟩, .read _ _ => inferInstanceAs (Decidable (_ ∧ _))
  | ⟨_, ⟨s, .prepare i, taken⟩, _, _⟩, .read incoming received =>
      inferInstanceAs
        (Decidable (PollLoop.enabled ⟨s, .prepare i, taken⟩ (.read incoming received)))
  | ⟨_, ⟨s, .write i, taken⟩, _, _⟩, .read incoming received =>
      inferInstanceAs (Decidable (PollLoop.enabled ⟨s, .write i, taken⟩ (.read incoming received)))
  | π, .prepare => inferInstanceAs (Decidable (π.loop.enabled .prepare))
  | π, .poll revents => inferInstanceAs (Decidable (π.loop.enabled (.poll revents)))
  | π, .write sent => inferInstanceAs (Decidable (π.loop.enabled (.write sent)))
  | π, .round => inferInstanceAs (Decidable (π.loop.enabled .round))
  | π, .rehash clients => inferInstanceAs (Decidable (π.loop.enabled (.rehash clients)))

instance (π : Process) : (e : ProcessEvent) → Decidable (π.enabled e)
  | .init _ | .loop _ | .pollFailed => inferInstanceAs (Decidable (_ ∧ _))
  | .signal => inferInstanceAs (Decidable (_ ∧ _))
  | .test => inferInstanceAs (Decidable (π.stage = .testing))
  | .closeAll => inferInstanceAs (Decidable (π.stage = .leaving))

def step (π : Process) : ProcessEvent → Process
  | .init outcome => { π with
      stage := if outcome.succeeds then .testing else .failed
      loop := { π.loop with server := π.loop.server.initServer outcome }
      calls := π.calls ++ outcome.calls }
  | .signal => { π with signal := true }
  | .test => { π with stage := if π.signal then .leaving else .serving }
  | .loop e => { π with
      stage := if e.endsRound then .testing else .serving
      loop := π.loop.step e
      calls := π.calls ++ π.loop.calls e }
  | .pollFailed => { π with stage := .leaving }
  | .closeAll => { π with stage := .returned, calls := π.calls ++ π.loop.server.closeAll }

end Process

/-- `main`.  A run is any number of rounds, with any outcome of the system calls. -/
def process : System Process ProcessEvent where
  enabled := Process.enabled
  step := Process.step

instance (π : Process) (e : ProcessEvent) : Decidable (process.enabled π e) :=
  inferInstanceAs (Decidable (π.enabled e))

end IrcServer
