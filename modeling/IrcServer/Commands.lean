import IrcServer.ChannelCommands
import IrcServer.Parser

/-!
# Command handlers

The handlers of `AuthCommands.cpp` and the dispatcher `processCommand`.  A handler
receives the server, the descriptor that names its `Client&`, and the parsed line; the
messages printed on standard output are left out.
-/

namespace IrcServer

namespace Commands

/-- `PASS <password>` -/
def handlePass (s : Server) (client : Int) (cmd : Parser) : Server :=
  let c := s.client client
  match cmd.params with
  | [] => s.reply client (.errNeedMoreParams c.nickname cmd.command)
  | password :: _ =>
      if c.isAuthenticated then s.reply client (.errAlreadyRegistered c.nickname)
      else if password = s.password then s.modify client (·.setAuthenticated true)
      else
        (s.reply client (.errPasswordMismatch c.nickname)).modify client (·.setShouldDisconnect true)

/-- `NICK <nickname>` -/
def handleNick (s : Server) (client : Int) (cmd : Parser) : Server :=
  match cmd.params with
  | [] => s.reply client (.errNeedMoreParams [] cmd.command)
  | nickname :: _ =>
      if s.isNicknameTaken nickname then
        s.reply client (.errNickInUse (s.client client).nickname nickname)
      else if !(s.client client).isAuthenticated then s.reply client (.errNotRegistered [])
      else
        let oldNickname := (s.client client).nickname
        let wasRegistered := (s.client client).isRegistered
        let s := s.modify client (·.setNickname nickname)
        let c := s.client client
        if !wasRegistered && c.isRegistered then
          s.reply client (.welcome c.nickname c.username c.hostname)
        else if wasRegistered then
          s.reply client (.nickChanged oldNickname c.username c.hostname c.nickname)
        else s

/-- `USER <username> <mode> <unused> <realname>` -/
def handleUser (s : Server) (client : Int) (cmd : Parser) : Server :=
  let c := s.client client
  if !c.isAuthenticated then s.reply client (.errNotRegistered c.nickname)
  else if !c.username.isEmpty then s.reply client (.errAlreadyRegistered c.nickname)
  else
    match cmd.params with
    | username :: _ :: _ :: realname :: _ =>
        let s := s.modify client fun c ↦ (c.setUsername username).setRealname realname
        let c := s.client client
        if c.isRegistered then s.reply client (.welcome c.nickname c.username c.hostname) else s
    | _ => s.reply client (.errNeedMoreParams c.nickname cmd.command)

/-- `PING <token>` -/
def handlePing (s : Server) (client : Int) (cmd : Parser) : Server :=
  match cmd.params with
  | [] => s.reply client (.errNoOrigin (s.client client).nickname)
  | token :: _ => s.reply client (.pong token)

/-- `PONG <token>` -/
def handlePong (s : Server) (_client : Int) (_cmd : Parser) : Server := s

/-- `QUIT [Quit Message]` -/
def handleQuit (s : Server) (client : Int) (cmd : Parser) : Server :=
  let reason := cmd.params.headD (lit "Client quit")
  (s.reply client (.closingLink reason)).modify client (·.setShouldDisconnect true)

/-- `PRIVMSG <target> <message>` -/
def handlePrivMsg (s : Server) (client : Int) (cmd : Parser) : Server :=
  let c := s.client client
  match cmd.params with
  | [] => s.reply client (.errNeedMoreParams c.nickname cmd.command)
  | [_] => s.reply client (.noTextToSend c.nickname)
  | target :: message :: _ =>
      if message.isEmpty then s.reply client (.noTextToSend c.nickname)
      else if target.head? = some 35 then  -- `'#'`
        s.reply client (.noSuchChannel c.nickname target)
      else
        match s.getClientByNick target with
        | none => s.reply client (.noSuchNick c.nickname target)
        | some targetClient => s.reply targetClient
            (.privMsg c.nickname c.username c.hostname target message)

/-- `Commands::processCommand`. -/
def processCommand (s : Server) (client : Int) (cmd : Parser) : Server :=
  let command := cmd.command
  if command = lit "PASS" then handlePass s client cmd
  else if command = lit "NICK" then handleNick s client cmd
  else if command = lit "USER" then handleUser s client cmd
  else if command = lit "CAP" then s
  else if !(s.client client).isRegistered then
    s.reply client (.errNotRegistered (s.client client).nickname)
  else
    match isChannelCommand s client command cmd.params with
    | (true, s) => s
    | (false, s) =>
        if command = lit "PING" then handlePing s client cmd
        else if command = lit "PONG" then handlePong s client cmd
        else if command = lit "QUIT" then handleQuit s client cmd
        else if command = lit "PRIVMSG" then handlePrivMsg s client cmd
        else if command = lit "UNKNOWN" then
          s.reply client (.errUnknownCommand (s.client client).nickname command)
        else s

end Commands

end IrcServer
