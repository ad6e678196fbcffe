import IrcServer.Commands
import IrcServer.Library.Transition

/-!
# Connections

`acceptClient`, `receiveData`, `clearClient` and the `POLLOUT` branch of `runServer`,
with what the system calls return as an argument, and the transition system of what
happens to the server.

`receiveData` hands `recv`'s buffer to `appendToReadBuffer` as a `char*`, so that a
chunk ends at its first NUL.  Its loop is bounded here by the length of the read
buffer; `IrcServer.Runs` shows that the bound is never reached.
-/

namespace IrcServer

open Library

/-! ## Addresses -/

/-- `struct in_addr`. -/
structure InAddr where
  a : UInt8
  b : UInt8
  c : UInt8
  d : UInt8

/-- An octet in decimal. -/
def decimal (n : UInt8) : Bytes :=
  if n < 10 then [48 + n]
  else if n < 100 then [48 + n / 10, 48 + n % 10]
  else [48 + n / 100, 48 + n / 10 % 10, 48 + n % 10]

/-- `inet_ntop(AF_INET, ..)`. -/
def inetNtop (address : InAddr) : Bytes :=
  decimal address.a ++ lit "." ++ decimal address.b ++ lit "." ++ decimal address.c ++ lit "." ++
    decimal address.d

/-- What the system calls of `acceptClient` return. -/
inductive Incoming where
  | acceptFailed
  | fcntlFailed (clientFd : Int)
  | ntopFailed (clientFd : Int)
  | connected (clientFd : Int) (address : InAddr)

/-- The errors `receiveData` tells apart. -/
inductive Errno where
  | again
  | wouldBlock
  | interrupted
  | other

/-- The `std::string` made of a `char*`. -/
def cString (buffer : Bytes) : Bytes := buffer.takeWhile (· ≠ NUL)

/-- The first complete command is taken from the buffer, and recorded. -/
def Client.takeCommand (c : Client) : Client :=
  { c.extractCommandFromBuffer.2 with executed := c.executed ++ [c.extractCommandFromBuffer.1] }

namespace Server

/-- `Server::acceptClient`. -/
def acceptClient (s : Server) : Incoming → Server
  | .acceptFailed | .fcntlFailed _ | .ntopFailed _ => s
  | .connected clientFd address =>
      let clientIP := inetNtop address
      let s := s.insert clientFd
        { socketFd := clientFd, ipAddress := clientIP, hostname := clientIP }
      { s with pollfds := s.pollfds ++ [{ fd := clientFd }] }

/-- `Server::clearClient`. -/
def clearClient (s : Server) (fd : Int) : Server :=
  { s with
    pollfds := s.pollfds.eraseP (·.fd == fd)
    clients := s.clients.erase fd }

/-- The command the loop of `receiveData` takes next. -/
def nextCommand (s : Server) (fd : Int) : Bytes := (s.client fd).extractCommandFromBuffer.1

def takeCommand (s : Server) (fd : Int) : Server := s.modify fd (·.takeCommand)

section TakeCommand

variable (s : Server) (fd : Int)

@[simp] theorem password_takeCommand : (s.takeCommand fd).password = s.password := rfl
@[simp] theorem channels_takeCommand : (s.takeCommand fd).channels = s.channels := rfl
@[simp] theorem nextSerial_takeCommand : (s.takeCommand fd).nextSerial = s.nextSerial := rfl
@[simp] theorem dangling_takeCommand : (s.takeCommand fd).dangling = s.dangling := rfl

end TakeCommand

/-- One turn of the loop of `receiveData`. -/
def serveLine (s : Server) (fd : Int) : Server :=
  Commands.processCommand (s.takeCommand fd) fd (Parser.parse (s.nextCommand fd))

/-- The loop of `receiveData`, for at most so many turns. -/
def drain : Nat → Server → Int → Server
  | 0, s, _ => s
  | n + 1, s, fd => if (s.client fd).hasCompleteCommand then drain n (s.serveLine fd) fd else s

/-- `Server::receiveData`; `received` is what `recv` returns, with the bytes or `errno`. -/
def receiveData (s : Server) (fd : Int) (received : Except Errno Bytes) : Server :=
  match received with
  | .ok [] => s.clearClient fd
  | .ok buffer =>
      let s := (s.touch fd).modify fd (·.appendToReadBuffer (cString buffer))
      s.drain (s.client fd).readBuffer.length fd
  | .error .again | .error .wouldBlock | .error .interrupted => s
  | .error .other => s.clearClient fd

/-- The `POLLOUT` branch of `runServer`; `sent` is what `send` returns. -/
def pollOut (s : Server) (fd : Int) (sent : Int) : Server :=
  let s := s.touch fd
  let s :=
    if !(s.client fd).writeBuffer.isEmpty && 0 < sent then
      s.modify fd (·.eraseFromWriteBuffer sent.toNat)
    else s
  if (s.client fd).writeBuffer.isEmpty && (s.client fd).shouldDisconnect then s.clearClient fd
  else s

end Server

/-! ## What happens to the server -/

/-- The steps the operations above are made of. -/
inductive Event where
  /-- A connection is accepted. -/
  | accept (clientFd : Int) (address : InAddr)
  /-- Text is appended to a read buffer. -/
  | receive (fd : Int) (data : Bytes)
  /-- A complete line is taken from a read buffer and processed. -/
  | line (fd : Int)
  /-- The kernel takes bytes from a write buffer. -/
  | send (fd : Int) (sent : Nat)
  /-- A client is removed. -/
  | close (fd : Int)
  /-- The hash map changes its iteration order. -/
  | rehash (clients : UnorderedMap Int Client)

namespace Event

/-- `accept` returns a descriptor that is not open. -/
def enabled (s : Server) : Event → Prop
  | accept clientFd _ => clientFd ∉ s.clients ∧ clientFd ≠ s.serverSocket
  | receive fd _ => fd ∈ s.clients
  | line fd => (s.client fd).hasCompleteCommand = true
  | send fd sent => fd ∈ s.clients ∧ sent ≤ (s.client fd).writeBuffer.length
  | close fd => fd ∈ s.clients
  | rehash clients => clients.entries.Perm s.clients.entries

instance (s : Server) : (e : Event) → Decidable (e.enabled s)
  | accept _ _ => inferInstanceAs (Decidable (_ ∧ _))
  | receive fd _ => inferInstanceAs (Decidable (fd ∈ s.clients))
  | line fd => inferInstanceAs (Decidable ((s.client fd).hasCompleteCommand = true))
  | send _ _ => inferInstanceAs (Decidable (_ ∧ _))
  | close fd => inferInstanceAs (Decidable (fd ∈ s.clients))
  | rehash clients => inferInstanceAs (Decidable (clients.entries.Perm s.clients.entries))

def step (s : Server) : Event → Server
  | accept clientFd address => s.acceptClient (.connected clientFd address)
  | receive fd data => s.modify fd (·.appendToReadBuffer data)
  | line fd => s.serveLine fd
  | send fd sent => s.modify fd (·.eraseFromWriteBuffer sent)
  | close fd => s.clearClient fd
  | rehash clients => { s with clients := clients }

end Event

/-- The server as a transition system.  Any interleaving of the events is a run of it. -/
def network : System Server Event where
  enabled := Event.enabled
  step := Event.step

instance (s : Server) (e : Event) : Decidable (network.enabled s e) :=
  inferInstanceAs (Decidable (e.enabled s))

end IrcServer
