import IrcServer.Names

/-!
# Forwarded messages

A forwarded `PRIVMSG` is the formatted line of a message whose prefix names the sender.
It can be read back exactly when that prefix has no space, and the user name and the
host never have one.  `handleNick` accepts a nickname from a trailing parameter, where
spaces are allowed, so that the recipient can be made to see another sender
(`parse_forwarded_iff`).
-/

namespace IrcServer

open Library Commands

variable {serverSocket : Int} {password : Bytes} {es : List Event}

/-- How a client is named in the messages it sends. -/
def Client.source (c : Client) : Bytes :=
  c.nickname ++ lit "!" ++ c.username ++ lit "@" ++ c.hostname

theorem Client.Named.notMem_source {c : Client} (h : c.Named) :
    SPACE ∉ c.source ↔ SPACE ∉ c.nickname := by
  have hbang : SPACE ∉ lit "!" := by decide
  have hat : SPACE ∉ lit "@" := by decide
  have hhost : SPACE ∉ c.hostname := fun hs ↦ absurd (h.hostname_chars _ hs) (by decide)
  simp [source, hbang, hat, hhost, h.username_space]

/-- The line `handlePrivMsg` builds is that of a message. -/
theorem str_privMsg (c : Client) (t m : Bytes) :
    (Reply.privMsg c.nickname c.username c.hostname t m).str =
      Message.format ⟨some c.source, ⟨0, lit "PRIVMSG"⟩, [⟨0, t⟩], some ⟨0, m⟩⟩ ++ [CR, LF] := by
  have hcolon : lit ":" = [COLON] := by decide
  have hcommand : lit " PRIVMSG " = SPACE :: (lit "PRIVMSG" ++ [SPACE]) := by decide
  have htrailing : lit " :" = [SPACE, COLON] := by decide
  have hcrlf : lit "\r\n" = [CR, LF] := by decide
  simp [Reply.str, Message.format, Client.source, Part.str, Part.trailing, hcolon, hcommand,
    htrailing, hcrlf]

/-- The line built is read back, if the source has no space. -/
theorem parse_privMsg {c : Client} {t m : Bytes} (hsource : SPACE ∉ c.source) (ht : IsToken t) :
    Parser.parse (Reply.privMsg c.nickname c.username c.hostname t m).str =
      ⟨c.source, lit "PRIVMSG", [t, m]⟩ := by
  have hformed : Message.WellFormed
      ⟨some c.source, ⟨0, lit "PRIVMSG"⟩, [⟨0, t⟩], some ⟨0, m⟩⟩ := by
    have hcommand : IsToken (lit "PRIVMSG") := ⟨by decide, by decide, by decide⟩
    refine ⟨?_, hcommand, ?_⟩
    · rintro pfx ⟨⟩
      exact hsource
    · intro p hp
      obtain rfl := List.mem_singleton.mp hp
      exact ht
  have hstrip := congrArg Parser.stripLineEnding (str_privMsg c t m)
  rw [Parser.stripLineEnding_crlf] at hstrip
  exact Message.parse_format_of_strip hformed hstrip

/-- The target and the text of a forwarded message, as the parser yields them. -/
theorem isToken_of_forwards {s : Server} {fd d : Int} {line t m : Bytes}
    (h : Forwards s fd (Parser.parse line) d t m) : IsToken t := by
  obtain ⟨-, ⟨rest, hp⟩, -⟩ := h
  exact Parser.isToken_of_params hp

/-- In every run, the line forwarded for a registered sender reads back as the sender's
message if and only if the sender's nickname has no space. -/
theorem parse_forwarded_iff (hv : network.Valid (Server.initial serverSocket password) es)
    {fd d : Int} {line t m : Bytes}
    (h : Forwards (network.run (Server.initial serverSocket password) es) fd
      (Parser.parse line) d t m) :
    let s := network.run (Server.initial serverSocket password) es
    ∃ r, processCommand s fd (Parser.parse line) = s.reply d r ∧
      (Parser.parse r.str = ⟨(s.client fd).source, lit "PRIVMSG", [t, m]⟩ ↔
        SPACE ∉ (s.client fd).nickname) := by
  intro s
  have hc := Server.lookup_of_isRegistered h.2.2.2.2.1
  have hnamed : (s.client fd).Named := named_of_run hv hc
  refine ⟨_, processCommand_of_forwards h, ?_⟩
  rw [← hnamed.notMem_source]
  constructor
  · intro hparse
    have hpfx := Parser.notMem_pfx
      (Reply.privMsg (s.client fd).nickname (s.client fd).username (s.client fd).hostname t m).str
    rwa [hparse] at hpfx
  · exact fun hsource ↦ parse_privMsg hsource (isToken_of_forwards h)

/-- Two clients, and a message from one to the other. -/
theorem parse_forwarded_iff_run :
    let s := network.run (Server.initial 3 (lit "pw")) [.accept 4 ⟨127, 0, 0, 1⟩,
      .receive 4 (lit "PASS pw\nNICK ann\nUSER ann 0 * :Ann\n"), .line 4, .line 4, .line 4,
      .accept 5 ⟨127, 0, 0, 1⟩, .receive 5 (lit "PASS pw\nNICK bob\n"), .line 5, .line 5]
    ∃ r, processCommand s 4 (Parser.parse (lit "PRIVMSG bob :hi there")) = s.reply 5 r ∧
      (Parser.parse r.str = ⟨(s.client 4).source, lit "PRIVMSG", [lit "bob", lit "hi there"]⟩ ↔
        SPACE ∉ (s.client 4).nickname) :=
  parse_forwarded_iff (by decide +kernel) ⟨by decide, ⟨[], by decide⟩, by decide, by decide,
    by decide +kernel, by decide +kernel⟩

/-- The nickname `root!r@h PRIVMSG bob :pay` makes the recipient see a message of `root`. -/
theorem parse_forged :
    let s := network.run (Server.initial 3 (lit "pw")) [.accept 4 ⟨127, 0, 0, 1⟩,
      .receive 4 (lit "PASS pw\nNICK :root!r@h PRIVMSG bob :pay\nUSER ann 0 * :Ann\n"),
      .line 4, .line 4, .line 4,
      .accept 5 ⟨127, 0, 0, 1⟩, .receive 5 (lit "PASS pw\nNICK bob\n"), .line 5, .line 5]
    Forwards s 4 (Parser.parse (lit "PRIVMSG bob :hi")) 5 (lit "bob") (lit "hi") ∧
    ((processCommand s 4 (Parser.parse (lit "PRIVMSG bob :hi"))).client 5).writeBuffer =
      lit ":root!r@h PRIVMSG bob :pay!ann@127.0.0.1 PRIVMSG bob :hi\r\n" ∧
    Parser.parse (lit ":root!r@h PRIVMSG bob :pay!ann@127.0.0.1 PRIVMSG bob :hi\r\n") ≠
      ⟨(s.client 4).source, lit "PRIVMSG", [lit "bob", lit "hi"]⟩ :=
  ⟨⟨by decide, ⟨[], by decide⟩, by decide, by decide, by decide +kernel, by decide +kernel⟩,
    by decide +kernel, by decide +kernel⟩

end IrcServer
