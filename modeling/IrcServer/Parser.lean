import IrcServer.Reply
import IrcServer.Library.Text

/-!
# The line parser

`Parser.parse` follows the constructor of `Parser` step by step: the line ending
is stripped, a prefix is taken off, the text is cut at the first `" :"`, what is
left is split at the spaces, and the trailing parameter is put at the end of the
list.  The field `_prefix` is called `pfx` here.
-/

namespace IrcServer

open Library

/-- A parsed line. -/
@[ext] structure Parser where
  /-- `_prefix` -/
  pfx : Bytes := []
  /-- `_command` -/
  command : Bytes := []
  /-- `_params` -/
  params : List Bytes := []
deriving DecidableEq

namespace Parser

/-- `std::toupper` in the "C" locale. -/
def toupper (c : UInt8) : UInt8 := if 97 ≤ c ∧ c ≤ 122 then c - 32 else c

/-- The commands `setCommand` lets through. -/
def whitelist : List Bytes :=
  [lit "PASS", lit "PING", lit "PONG", lit "QUIT", lit "NICK", lit "USER", lit "PRIVMSG",
    lit "JOIN", lit "PART", lit "TOPIC", lit "INVITE", lit "KICK", lit "MODE", lit "CAP"]

/-- The command `setCommand` stores for a word. -/
def commandOf (word : Bytes) : Bytes :=
  if word.map toupper ∈ whitelist then word.map toupper else lit "UNKNOWN"

def setCommand (p : Parser) (command : Bytes) : Parser :=
  { p with command := commandOf command }

/-- Step 1: strip the line ending. -/
def stripLineEnding (message : Bytes) : Bytes :=
  if [CR, LF] <:+ message then message.take (message.length - 2)
  else if [LF] <:+ message then message.take (message.length - 1)
  else message

/-- Step 2: the prefix, and the message without it. -/
def extractPrefix (message : Bytes) : Bytes × Bytes :=
  if message.head? = some COLON then
    match find [SPACE] message with
    | some spacePos => ((message.drop 1).take (spacePos - 1), message.drop (spacePos + 1))
    | none => (message.drop 1, [])
  else ([], message)

/-- Step 3: the message up to the first `" :"`, and the trailing parameter. -/
def cutTrailing (message : Bytes) : Bytes × Option Bytes :=
  match find [SPACE, COLON] message with
  | some trailingPos => (message.take trailingPos, some (message.drop (trailingPos + 2)))
  | none => (message, none)

/-- The body of the loop of step 4. -/
def addToken (p : Parser) (token : Bytes) : Parser :=
  if token = [] then p
  else if p.command = [] then p.setCommand token
  else { p with params := p.params ++ [token] }

/-- Step 5: append the trailing parameter. -/
def addTrailing (p : Parser) : Option Bytes → Parser
  | some trailing => { p with params := p.params ++ [trailing] }
  | none => p

/-- `Parser::Parser`. -/
def parse (message : Bytes) : Parser :=
  let message := stripLineEnding message
  let (pfx, message) := extractPrefix message
  let (message, trailing) := cutTrailing message
  ((message.splitOn SPACE).foldl addToken { pfx := pfx }).addTrailing trailing

/-- A prefix, a word in lower case, a middle parameter and a trailing one. -/
example : parse (lit ":me privmsg  bob :hi :there\r\n") =
    ⟨lit "me", lit "PRIVMSG", [lit "bob", lit "hi :there"]⟩ := by decide

end Parser

end IrcServer
