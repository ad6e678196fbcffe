import IrcServer.Server

/-!
# Channel commands

`Channel::isChannelCommand` makes the command object for a name and executes it;
an exception of either step means "not a channel command" to the dispatcher.  An
`Outcome` pairs the server when a call ended with the exception it ended with, since
what was written before a `throw` stays written.

`INVITE`, `KICK`, `MODE` and `PART` only print.  `JOIN` tests
`params.size() != 1 || params.size() != 2`, which every size satisfies, so that it
always throws (`Join.execute_eq`); what follows the test is embedded all the same.
-/

namespace IrcServer

open Library

/-- `Channel::Exception` and `Channel::NameException`. -/
inductive ChannelException where
  | exception (message : Bytes)
  | nameException (message name : Bytes)
deriving DecidableEq

def ERR_NOT_CHANNEL_COMMAND : Bytes := lit "Not a channel command."
def ERR_WRONG_NUM_PARAM : Bytes := lit "Wrong number of parameters for command."
def ERR_CHANNEL_NOT_FOUND : Bytes := lit "No channel with name"

/-- `what()`, a C string. -/
def ChannelException.what : ChannelException → Bytes
  | exception message => message.takeWhile (· ≠ NUL)
  | nameException message name =>
      (message ++ lit " '" ++ name ++ lit "'.").takeWhile (· ≠ NUL)

/-- The server when a call ended, and the exception it ended with. -/
abbrev Outcome := Server × Option ChannelException

/-! ## `AChannelCommand` -/

namespace AChannelCommand

def findChannel (channels : UnorderedMap Nat Channel) (channelName : Bytes) :
    Except ChannelException Nat :=
  match channels.findFirst (·.name == channelName) with
  | some channel => .ok channel
  | none => .error (.nameException ERR_CHANNEL_NOT_FOUND channelName)

/-- `std::views::split`: the pieces between occurrences of a pattern, where the first
argument counts the letters of the last occurrence still to be passed over. -/
def splitFrom (pat : Bytes) : Nat → Bytes → List Bytes
  | _, [] => [[]]
  | skip + 1, _ :: s => splitFrom pat skip s
  | 0, c :: s =>
      if pat <+: c :: s then [] :: splitFrom pat (pat.length - 1) s
      else (splitFrom pat 0 s).modifyHead (c :: ·)

/-- The pattern is the array `","`, whose terminator is part of the range; splitting an
empty range yields no piece. -/
def splitByCommas (paramWithCommas : Bytes) : List Bytes :=
  if paramWithCommas = [] then [] else splitFrom (lit "," ++ [NUL]) 0 paramWithCommas

end AChannelCommand

/-! ## `JOIN` -/

namespace Join

/-- The loop over the channel names.  With keys, `nextKey` is set to the first of them at
the start of every turn, and the increment at its end is lost. -/
def joinChannels (s : Server) (client : Int) (keys : List Bytes) : List Bytes → Outcome
  | [] => (s, none)
  | channelName :: rest =>
      match AChannelCommand.findChannel s.channels channelName with
      | .error e => (s, some e)
      | .ok channel =>
          let addMember := fun chan : Channel ↦
            match keys with
            | nextKey :: _ =>
                if nextKey ≠ lit "x" then
                  chan.addMemberWithKey (s.ptr client) (s.client client) nextKey
                else chan.addMember (s.ptr client) (s.client client)
            | [] => chan.addMember (s.ptr client) (s.client client)
          joinChannels (s.modifyChannel channel addMember) client keys rest

/-- `Join::execute`. -/
def execute (s : Server) (client : Int) (params : List Bytes) : Outcome :=
  if params.length ≠ 1 ∨ params.length ≠ 2 then (s, some (.exception ERR_WRONG_NUM_PARAM))
  else
    let channels := AChannelCommand.splitByCommas (params.headD [])
    let keys := if params.length = 2 then AChannelCommand.splitByCommas (params.getD 1 []) else []
    match joinChannels s client keys channels with
    | (s, none) => (s, none)
    | (s, some e) => (s.reply client (.what e.what), none)

/-- The parameter test of `JOIN` rejects every parameter list. -/
theorem execute_eq (s : Server) (client : Int) (params : List Bytes) :
    execute s client params = (s, some (.exception ERR_WRONG_NUM_PARAM)) := by
  have h : params.length ≠ 1 ∨ params.length ≠ 2 := by omega
  rw [execute, if_pos h]

theorem throws (s : Server) (client : Int) (params : List Bytes) :
    (execute s client params).2 ≠ none := by
  rw [execute_eq]
  exact Option.some_ne_none _

end Join

/-! ## `TOPIC` -/

/-- `Topic::execute`. -/
def Topic.execute (s : Server) (client : Int) (params : List Bytes) : Server :=
  let nick := (s.client client).nickname
  match params with
  | [] => s.reply client (.notEnoughParameters nick (lit "TOPIC"))
  | targetName :: rest =>
      match s.channels.findFirst (·.name == targetName) with
      | none => s.reply client (.noSuchChannel nick targetName)
      | some targetChannel =>
          let chan := s.channel targetChannel
          let isOp := decide (s.ptr client ∈ chan.operators)
          let isMem := decide (s.ptr client ∈ chan.members)
          if !isOp && !isMem then s.reply client (.notOnChannel nick targetName)
          else
            match rest with
            | [] =>
                if chan.topic.isEmpty then s.reply client (.noTopic nick targetName)
                else s.reply client (.topic nick targetName chan.topic)
            | newTopic :: _ =>
                if chan.protectedTopic && !isOp then
                  s.reply client (.chanOpRequired nick targetName)
                else
                  let s := s.modifyChannel targetChannel (·.setTopic newTopic (s.ptr client))
                  s.publicMessage (s.channel targetChannel)
                    (.topicChanged nick targetName newTopic)

/-! ## `NAMES` -/

namespace Names

/-- One turn of the loops that build the list: a separating space and the name. -/
def addName (nameList name : Bytes) : Bytes :=
  (if nameList.isEmpty then nameList else nameList ++ lit " ") ++ name

/-- `getNickname` through a pointer. -/
def nicknameAt (s : Server) (p : ClientPtr) : Bytes := ((s.deref p).getD {}).nickname

/-- The operators with an `@`, then the members. -/
def nameList (s : Server) (chan : Channel) : Bytes :=
  let operators := chan.operators.elems.foldl (fun l p ↦ addName l (lit "@" ++ nicknameAt s p)) []
  chan.members.elems.foldl (fun l p ↦ addName l (nicknameAt s p)) operators

/-- The pointers the loops dereference. -/
def visit (s : Server) (chan : Channel) : Server :=
  { s with dangling := s.dangling || chan.occupants.any fun p ↦ (s.deref p).isNone }

/-- `Names::execute`. -/
def execute (s : Server) (client : Int) (params : List Bytes) : Server :=
  let nick := (s.client client).nickname
  match params with
  | [] => s.reply client (.notEnoughParameters nick (lit "NAMES"))
  | targetName :: _ =>
      match s.channels.findFirst (·.name == targetName) with
      | none => s.reply client (.endOfNames nick targetName)
      | some targetChannel =>
          let chan := s.channel targetChannel
          let s' := visit s chan
          (s'.reply client (.namReply nick targetName (nameList s chan))).reply client
            (.endOfNames nick targetName)

end Names

/-! ## Dispatch -/

/-- The classes derived from `AChannelCommand`. -/
inductive ChannelCommand where
  | invite | join | kick | mode | names | part | topic
deriving DecidableEq

namespace ChannelCommand

/-- The names `makeCommandNumber` knows, in the order of the enumeration `makeCommand`
switches on. -/
def commandStrings : List Bytes :=
  [lit "INVITE", lit "JOIN", lit "KICK", lit "MODE", lit "NAMES", lit "PART", lit "TOPIC"]

/-- The index of the name, or the number of names. -/
def makeCommandNumber (command : Bytes) : Nat := commandStrings.idxOf command

def makeCommand (command : Bytes) : Except ChannelException ChannelCommand :=
  match makeCommandNumber command with
  | 0 => .ok invite
  | 1 => .ok join
  | 2 => .ok kick
  | 3 => .ok mode
  | 4 => .ok names
  | 5 => .ok part
  | 6 => .ok topic
  | _ => .error (.exception ERR_NOT_CHANNEL_COMMAND)

/-- The virtual `execute`. -/
def execute (s : Server) (client : Int) (params : List Bytes) : ChannelCommand → Outcome
  | invite | kick | mode | part => (s, none)
  | join => Join.execute s client params
  | names => (Names.execute s client params, none)
  | topic => (Topic.execute s client params, none)

end ChannelCommand

/-- `Channel::isChannelCommand`: whether the command was handled, and the server. -/
def isChannelCommand (s : Server) (client : Int) (command : Bytes) (params : List Bytes) :
    Bool × Server :=
  match ChannelCommand.makeCommand command with
  | .error _ => (false, s)
  | .ok cmd =>
      match cmd.execute s client params with
      | (s, none) => (true, s)
      | (s, some _) => (false, s)

end IrcServer
