import IrcServer.Reply
import IrcServer.Library.UnorderedMap
import IrcServer.Library.Text

/-!
# Clients, channels and the server

The data of `Client`, `Channel` and `Server`, and the member functions the
handlers call on them.

A `Client&` a handler receives is an element of `_clients` and is named by its key,
the descriptor.  A `Client*` kept in a channel outlives the call that stored it, so
it also records which insertion into the map created the element: two clients that
had the same descriptor one after the other are different pointees
(`Server.deref`).  Dereferencing a pointer whose element is gone is undefined in the
source; here it sets `Server.dangling`, which nothing resets.  What is proved of a run
says something of the source where the flag is off at the end of the run; without
channels nothing sets it.

Two fields of a client are history variables that no definition translated from the
source reads: `executed`, the lines passed to `processCommand`, and `written`, the
texts passed to `appendToWriteBuffer`, both since the connection was accepted.
-/

namespace IrcServer

open Library

/-! ## Clients -/

/-- `Client`.  The field `_password` is left out: nothing reads or writes it. -/
structure Client where
  username : Bytes := []
  realname : Bytes := []
  nickname : Bytes := []
  hostname : Bytes := []
  readBuffer : Bytes := []
  writeBuffer : Bytes := []
  ipAddress : Bytes := []
  socketFd : Int := -1
  isAuthenticated : Bool := false
  shouldDisconnect : Bool := false
  /-- The insertion into `_clients` that created the element. -/
  serial : Nat := 0
  /-- History: the lines passed to `processCommand`. -/
  executed : List Bytes := []
  /-- History: the texts passed to `appendToWriteBuffer`. -/
  written : List Reply := []
deriving DecidableEq

namespace Client

def hasCompleteCommand (c : Client) : Bool := (find [LF] c.readBuffer).isSome

/-- The first complete command, and the client without it in its buffer. -/
def extractCommandFromBuffer (c : Client) : Bytes × Client :=
  match find [LF] c.readBuffer with
  | some pos =>
      let endPos := if 0 < pos ∧ c.readBuffer[pos - 1]? = some CR then pos - 1 else pos
      (c.readBuffer.take endPos, { c with readBuffer := c.readBuffer.drop (pos + 1) })
  | none => ([], c)

def isRegistered (c : Client) : Bool :=
  c.isAuthenticated && !c.nickname.isEmpty && !c.username.isEmpty

def appendToReadBuffer (c : Client) (data : Bytes) : Client :=
  { c with readBuffer := c.readBuffer ++ data }

def appendToWriteBuffer (c : Client) (message : Reply) : Client :=
  { c with writeBuffer := c.writeBuffer ++ message.str, written := c.written ++ [message] }

def eraseFromWriteBuffer (c : Client) (len : Nat) : Client :=
  { c with writeBuffer := c.writeBuffer.drop len }

def setAuthenticated (c : Client) (status : Bool) : Client := { c with isAuthenticated := status }

def setShouldDisconnect (c : Client) (status : Bool) : Client :=
  { c with shouldDisconnect := status }

def setNickname (c : Client) (nickname : Bytes) : Client := { c with nickname := nickname }

def setUsername (c : Client) (username : Bytes) : Client := { c with username := username }

def setRealname (c : Client) (realname : Bytes) : Client := { c with realname := realname }

theorem isRegistered_iff {c : Client} :
    c.isRegistered = true ↔ c.isAuthenticated = true ∧ c.nickname ≠ [] ∧ c.username ≠ [] := by
  simp [isRegistered, and_assoc]

end Client

/-- `Client*`: the key of an element of `_clients` and the insertion that created it. -/
structure ClientPtr where
  fd : Int
  serial : Nat
deriving DecidableEq

/-! ## Channels -/

/-- `Channel`. -/
structure Channel where
  name : Bytes
  topic : Bytes := []
  key : Bytes := []
  userLimit : Nat := 0
  operators : UnorderedSet ClientPtr := ∅
  members : UnorderedSet ClientPtr := ∅
  pendingInvites : UnorderedSet Bytes := ∅
  inviteOnly : Bool := false
  protectedTopic : Bool := false
  hasKey : Bool := false
  hasUserLimit : Bool := false

namespace Channel

/-- Everybody in the channel, in the order in which `publicMessage` visits them. -/
def occupants (chan : Channel) : List ClientPtr := chan.operators.elems ++ chan.members.elems

def isFull (chan : Channel) : Bool :=
  chan.hasUserLimit && chan.members.elems.length + chan.operators.elems.length == chan.userLimit

/-- What both overloads of `addMember` do once the key is accepted. -/
def letIn (chan : Channel) (ptr : ClientPtr) (client : Client) : Channel :=
  if chan.isFull then chan
  else if chan.inviteOnly then
    if client.username ∈ chan.pendingInvites then
      { chan with
        pendingInvites := chan.pendingInvites.erase client.username
        members := chan.members.insert ptr }
    else chan
  else { chan with members := chan.members.insert ptr }

/-- `Channel::addMember(Client&)`. -/
def addMember (chan : Channel) (ptr : ClientPtr) (client : Client) : Channel :=
  if chan.hasKey then chan else chan.letIn ptr client

/-- `Channel::addMember(Client&, std::string_view&)`. -/
def addMemberWithKey (chan : Channel) (ptr : ClientPtr) (client : Client) (key : Bytes) : Channel :=
  if chan.key ≠ key then chan else chan.letIn ptr client

def setTopic (chan : Channel) (topic : Bytes) (ptr : ClientPtr) : Channel :=
  if chan.protectedTopic ∧ ptr ∉ chan.operators then chan else { chan with topic := topic }

@[simp] theorem occupants_setTopic (chan : Channel) (topic : Bytes) (ptr : ClientPtr) :
    (chan.setTopic topic ptr).occupants = chan.occupants := by
  unfold setTopic
  split <;> rfl

end Channel

/-! ## The server -/

/-- `struct pollfd`, its event masks reduced to the two bits the program uses. -/
structure PollFd where
  fd : Int
  /-- `events & POLLOUT`; `POLLIN` is always requested. -/
  wantsOut : Bool := false
  /-- `revents & POLLIN` -/
  pollIn : Bool := false
  /-- `revents & POLLOUT` -/
  pollOut : Bool := false
deriving DecidableEq

/-- `Server`.  A channel is named by a key that stands for its address. -/
structure Server where
  password : Bytes
  serverSocket : Int
  clients : UnorderedMap Int Client := ∅
  channels : UnorderedMap Nat Channel := ∅
  pollfds : List PollFd := []
  /-- The number of insertions into `_clients` so far. -/
  nextSerial : Nat := 0
  /-- A pointer to a client that is gone has been dereferenced. -/
  dangling : Bool := false

namespace Server

/-- The server when `initServer` has succeeded. -/
def initial (serverSocket : Int) (password : Bytes) : Server where
  password := password
  serverSocket := serverSocket
  pollfds := [{ fd := serverSocket }]

/-- The client a reference obtained from `_clients[fd]` refers to. -/
def client (s : Server) (fd : Int) : Client := (s.clients.lookup fd).getD {}

/-- `_clients.insert`: an element already stored under the key stays. -/
def insert (s : Server) (fd : Int) (c : Client) : Server :=
  if fd ∈ s.clients then s
  else { s with
    clients := s.clients.emplace fd { c with serial := s.nextSerial }
    nextSerial := s.nextSerial + 1 }

/-- `_clients[fd]` inserts a default client under a key that is not there. -/
def touch (s : Server) (fd : Int) : Server := s.insert fd {}

/-- An assignment through the reference `_clients[fd]`. -/
def modify (s : Server) (fd : Int) (f : Client → Client) : Server :=
  { s with clients := s.clients.modify fd f }

/-- `appendToWriteBuffer` on `_clients[fd]`. -/
def reply (s : Server) (fd : Int) (message : Reply) : Server :=
  s.modify fd (·.appendToWriteBuffer message)

def isNicknameTaken (s : Server) (nickname : Bytes) : Bool :=
  s.clients.any (·.nickname == nickname)

def getClientByNick (s : Server) (nickname : Bytes) : Option Int :=
  s.clients.findFirst (·.nickname == nickname)

/-- The address of the client stored under `fd`. -/
def ptr (s : Server) (fd : Int) : ClientPtr := ⟨fd, (s.client fd).serial⟩

/-- The client a pointer designates, when the element it was taken from still exists. -/
def deref (s : Server) (p : ClientPtr) : Option Client :=
  (s.clients.lookup p.fd).filter (·.serial == p.serial)

/-- `appendToWriteBuffer` through a pointer. -/
def deliver (s : Server) (p : ClientPtr) (message : Reply) : Server :=
  if (s.deref p).isSome then s.reply p.fd message else { s with dangling := true }

/-- The channel a `Channel*` designates. -/
def channel (s : Server) (k : Nat) : Channel := (s.channels.lookup k).getD { name := [] }

/-- A change of the channel through a `Channel*`. -/
def modifyChannel (s : Server) (k : Nat) (f : Channel → Channel) : Server :=
  { s with channels := s.channels.modify k f }

/-- `Channel::publicMessage`. -/
def publicMessage (s : Server) (chan : Channel) (message : Reply) : Server :=
  if message.str.isEmpty then s
  else
    let s := chan.operators.elems.foldl (·.deliver · message) s
    chan.members.elems.foldl (·.deliver · message) s

theorem client_eq {s : Server} {fd : Int} {c : Client} (h : s.clients.lookup fd = some c) :
    s.client fd = c := by rw [client, h, Option.getD_some]

theorem touch_of_mem {s : Server} {fd : Int} (h : fd ∈ s.clients) : s.touch fd = s := if_pos h

section Insert

variable (s : Server) (fd : Int) (c : Client)

@[simp] theorem password_insert : (s.insert fd c).password = s.password := by
  unfold insert; split <;> rfl

@[simp] theorem channels_insert : (s.insert fd c).channels = s.channels := by
  unfold insert; split <;> rfl

@[simp] theorem dangling_insert : (s.insert fd c).dangling = s.dangling := by
  unfold insert; split <;> rfl

variable {s fd c}

theorem insert_of_notMem (h : fd ∉ s.clients) : s.insert fd c = { s with
    clients := s.clients.emplace fd { c with serial := s.nextSerial }
    nextSerial := s.nextSerial + 1 } := if_neg h

theorem lookup_insert_self (h : fd ∉ s.clients) :
    (s.insert fd c).clients.lookup fd = some { c with serial := s.nextSerial } := by
  rw [insert_of_notMem h]
  exact UnorderedMap.lookup_emplace_self h

theorem lookup_insert_of_ne {d : Int} (h : d ≠ fd) :
    (s.insert fd c).clients.lookup d = s.clients.lookup d := by
  unfold insert
  split
  · rfl
  · exact UnorderedMap.lookup_emplace_of_ne h

end Insert

section Modify

variable (s : Server) (fd : Int) (f g : Client → Client)

@[simp] theorem password_modify : (s.modify fd f).password = s.password := rfl
@[simp] theorem serverSocket_modify : (s.modify fd f).serverSocket = s.serverSocket := rfl
@[simp] theorem channels_modify : (s.modify fd f).channels = s.channels := rfl
@[simp] theorem pollfds_modify : (s.modify fd f).pollfds = s.pollfds := rfl
@[simp] theorem nextSerial_modify : (s.modify fd f).nextSerial = s.nextSerial := rfl
@[simp] theorem dangling_modify : (s.modify fd f).dangling = s.dangling := rfl

theorem lookup_modify (d : Int) : (s.modify fd f).clients.lookup d =
    if d = fd then (s.clients.lookup d).map f else s.clients.lookup d :=
  UnorderedMap.lookup_modify fd d f

@[simp] theorem lookup_modify_self :
    (s.modify fd f).clients.lookup fd = (s.clients.lookup fd).map f :=
  UnorderedMap.lookup_modify_self fd f

theorem lookup_modify_of_ne {d : Int} (h : d ≠ fd) :
    (s.modify fd f).clients.lookup d = s.clients.lookup d :=
  UnorderedMap.lookup_modify_of_ne h f

@[simp] theorem mem_modify {d : Int} : d ∈ (s.modify fd f).clients ↔ d ∈ s.clients :=
  UnorderedMap.mem_modify f

theorem modify_modify : (s.modify fd f).modify fd g = s.modify fd fun c ↦ g (f c) := by
  simp only [modify, UnorderedMap.modify_modify]

variable {s f g} in
/-- Only the client stored under the descriptor is asked of the function written. -/
theorem modify_congr {c : Client} (hc : s.clients.lookup fd = some c) (h : f c = g c) :
    s.modify fd f = s.modify fd g := by
  have hcongr : ∀ a, s.clients.lookup fd = some a → f a = g a := fun a ha ↦
    Option.some.inj (hc.symm.trans ha) ▸ h
  simp only [modify, UnorderedMap.modify_congr hcongr]

theorem modify_comm {d : Int} (h : d ≠ fd) :
    (s.modify d f).modify fd g = (s.modify fd g).modify d f := by
  simp only [modify, UnorderedMap.modify_comm h]

end Modify

/-- A reading of a client that a write does not change is not changed by the write. -/
theorem lookup_modify_map {β : Type*} {π : Client → β} {f : Client → Client}
    (hf : ∀ c, π (f c) = π c) (s : Server) (fd d : Int) :
    ((s.modify fd f).clients.lookup d).map π = (s.clients.lookup d).map π := by
  rw [lookup_modify]
  split
  · rw [Option.map_map]
    exact congrArg (Option.map · _) (funext hf)
  · rfl

theorem client_modify_self {s : Server} {fd : Int} {c : Client} {f : Client → Client}
    (h : s.clients.lookup fd = some c) : (s.modify fd f).client fd = f c :=
  client_eq (by rw [lookup_modify_self, h, Option.map_some])

theorem isSome_deref_iff {s : Server} {p : ClientPtr} :
    (s.deref p).isSome ↔ (s.clients.lookup p.fd).map (·.serial) = some p.serial := by
  cases h : s.clients.lookup p.fd <;> simp [deref, h, Option.filter]

/-- A client that is authenticated is connected. -/
theorem lookup_of_isAuthenticated {s : Server} {fd : Int}
    (h : (s.client fd).isAuthenticated = true) : s.clients.lookup fd = some (s.client fd) := by
  cases hc : s.clients.lookup fd with
  | none => simp [client, hc] at h
  | some c => rw [client_eq hc]

theorem lookup_of_isRegistered {s : Server} {fd : Int}
    (h : (s.client fd).isRegistered = true) : s.clients.lookup fd = some (s.client fd) :=
  lookup_of_isAuthenticated (Client.isRegistered_iff.mp h).1

/-- So is a client that is marked. -/
theorem lookup_of_shouldDisconnect {s : Server} {fd : Int}
    (h : (s.client fd).shouldDisconnect = true) : s.clients.lookup fd = some (s.client fd) := by
  cases hc : s.clients.lookup fd with
  | none => simp [client, hc] at h
  | some c => rw [client_eq hc]

theorem isNicknameTaken_eq_false_iff {s : Server} {n : Bytes} : s.isNicknameTaken n = false ↔
    ∀ d c, s.clients.lookup d = some c → c.nickname ≠ n := by
  simp [isNicknameTaken, UnorderedMap.any_eq_false_iff]

theorem getClientByNick_eq_some {s : Server} {n : Bytes} {d : Int}
    (h : s.getClientByNick n = some d) : ∃ c, s.clients.lookup d = some c ∧ c.nickname = n := by
  simpa using UnorderedMap.findFirst_eq_some h

end Server

end IrcServer
