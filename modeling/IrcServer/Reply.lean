import Mathlib.Data.List.Basic

/-!
# Texts the server sends

Strings are byte strings.  `Reply` has one constructor for every text that some
handler passes to `appendToWriteBuffer`, with the values the handler puts into
it, and `Reply.str` is the text.  The first group are the builders of
`IRC::Reply` that handlers call; the others are concatenated in the handlers
themselves and keep the shape they have there, so that a numeric of the second
group has no server prefix.  The builders of their codes are in `IrcServer.Numerics`; the
other builders that no handler calls are left out.
-/

namespace IrcServer

/-- `std::string`. -/
abbrev Bytes := List UInt8

/-- The bytes of a string literal. -/
def lit (s : String) : Bytes := s.toUTF8.data.toList

/-- Literals are compared as the strings they are written as. -/
@[simp] theorem lit_inj {s t : String} : lit s = lit t ↔ s = t := by
  constructor
  · intro h
    have hbytes : s.toByteArray = t.toByteArray := ByteArray.ext (Array.toList_inj.mp h)
    exact String.toByteArray_inj.mp hbytes
  · exact congrArg lit

abbrev NUL : UInt8 := 0
abbrev LF : UInt8 := 10
abbrev CR : UInt8 := 13
abbrev SPACE : UInt8 := 32
abbrev COLON : UInt8 := 58

/-- `IRC::SERVER_NAME`. -/
def SERVER_NAME : Bytes := lit "ircserv"

/-- The texts passed to `appendToWriteBuffer`. -/
inductive Reply where
  -- builders of `IRC::Reply`
  | welcome (nick user host : Bytes)
  | errNoOrigin (nick : Bytes)
  | errUnknownCommand (nick command : Bytes)
  | errNickInUse (nick badNick : Bytes)
  | errNotRegistered (nick : Bytes)
  | errNeedMoreParams (nick command : Bytes)
  | errAlreadyRegistered (nick : Bytes)
  | errPasswordMismatch (nick : Bytes)
  -- built in `AuthCommands.cpp`
  | nickChanged (oldNickname user host nick : Bytes)
  | pong (token : Bytes)
  | closingLink (reason : Bytes)
  | noTextToSend (nick : Bytes)
  | noSuchChannel (nick target : Bytes)
  | noSuchNick (nick target : Bytes)
  | privMsg (nick user host target message : Bytes)
  -- built in the channel commands
  | notEnoughParameters (nick command : Bytes)
  | notOnChannel (nick channel : Bytes)
  | noTopic (nick channel : Bytes)
  | topic (nick channel topicText : Bytes)
  | chanOpRequired (nick channel : Bytes)
  | topicChanged (nick channel newTopic : Bytes)
  | endOfNames (nick channel : Bytes)
  | namReply (nick channel nameList : Bytes)
  | what (text : Bytes)
deriving DecidableEq

namespace Reply

/-- `IRC::Reply::target`. -/
def target (nick : Bytes) : Bytes := if nick = [] then lit "*" else nick

/-- What every builder of `IRC::Reply` starts with: the server prefix, the code
between spaces, and the target. -/
def header (code : String) (nick : Bytes) : Bytes :=
  lit ":" ++ SERVER_NAME ++ lit code ++ target nick

/-- The bytes of a reply. -/
def str : Reply → Bytes
  | welcome nick user host => header " 001 " nick ++ lit " :Welcome to the IRC Network " ++
      nick ++ lit "!" ++ user ++ lit "@" ++ host ++ lit "\r\n"
  | errNoOrigin nick => header " 409 " nick ++ lit " :No origin specified\r\n"
  | errUnknownCommand nick command =>
      header " 421 " nick ++ lit " " ++ command ++ lit " :Unknown command\r\n"
  | errNickInUse nick badNick =>
      header " 433 " nick ++ lit " " ++ badNick ++ lit " :Nickname is already in use\r\n"
  | errNotRegistered nick => header " 451 " nick ++ lit " :You have not registered\r\n"
  | errNeedMoreParams nick command =>
      header " 461 " nick ++ lit " " ++ command ++ lit " :Not enough parameters\r\n"
  | errAlreadyRegistered nick =>
      header " 462 " nick ++ lit " :Unauthorized command (already registered)\r\n"
  | errPasswordMismatch nick => header " 464 " nick ++ lit " :Password incorrect\r\n"
  | nickChanged oldNickname user host nick => lit ":" ++ oldNickname ++ lit "!" ++ user ++
      lit "@" ++ host ++ lit " NICK :" ++ nick ++ lit "\r\n"
  | pong token => lit "PONG :" ++ token ++ lit "\r\n"
  | closingLink reason => lit "ERROR :Closing Link: (" ++ reason ++ lit ")\r\n"
  | noTextToSend nick => lit "412 " ++ nick ++ lit " :No text to send\r\n"
  | noSuchChannel nick target =>
      lit "403 " ++ nick ++ lit " " ++ target ++ lit " :No such channel\r\n"
  | noSuchNick nick target =>
      lit "401 " ++ nick ++ lit " " ++ target ++ lit " :No such nick/channel\r\n"
  | privMsg nick user host target message => lit ":" ++ nick ++ lit "!" ++ user ++ lit "@" ++
      host ++ lit " PRIVMSG " ++ target ++ lit " :" ++ message ++ lit "\r\n"
  | notEnoughParameters nick command =>
      lit "461 " ++ nick ++ lit " " ++ command ++ lit " :Not enough parameters\r\n"
  | notOnChannel nick channel =>
      lit "442 " ++ nick ++ lit " " ++ channel ++ lit " :You're not on that channel\r\n"
  | noTopic nick channel =>
      lit "331 " ++ nick ++ lit " " ++ channel ++ lit " :No topic is set\r\n"
  | topic nick channel topicText =>
      lit "332 " ++ nick ++ lit " " ++ channel ++ lit " :" ++ topicText ++ lit "\r\n"
  | chanOpRequired nick channel =>
      lit "482 " ++ nick ++ lit " " ++ channel ++ lit " :You're not channel operator\r\n"
  | topicChanged nick channel newTopic =>
      lit ":" ++ nick ++ lit " TOPIC " ++ channel ++ lit " :" ++ newTopic ++ lit "\r\n"
  | endOfNames nick channel =>
      lit "366 " ++ nick ++ lit " " ++ channel ++ lit " :End of /NAMES list\r\n"
  | namReply nick channel nameList =>
      lit "353 " ++ nick ++ lit " = " ++ channel ++ lit " :" ++ nameList ++ lit "\r\n"
  | what text => text

/-- Whether a reply is the 001 welcome. -/
def isWelcome : Reply → Bool
  | welcome .. => true
  | _ => false

/-- Whether a reply is a numeric without the server prefix. -/
def isBare : Reply → Bool
  | noTextToSend .. | noSuchChannel .. | noSuchNick .. | notEnoughParameters .. | notOnChannel ..
  | noTopic .. | topic .. | chanOpRequired .. | endOfNames .. | namReply .. => true
  | _ => false

/-- All replies but the texts of exceptions are written as lines. -/
def IsLine : Reply → Prop
  | what _ => False
  | _ => True

theorem IsLine.str_ne_nil {m : Reply} (h : m.IsLine) : m.str ≠ [] := by
  cases m with
  | what text => exact h.elim
  | _ => exact List.append_ne_nil_of_right_ne_nil _ (by decide)

theorem isLine_of_isBare {m : Reply} (h : m.isBare = true) : m.IsLine := by
  cases m with
  | what text => exact absurd h Bool.false_ne_true
  | _ => trivial

end Reply

end IrcServer
