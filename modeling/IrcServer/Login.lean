import IrcServer.Identity
import IrcServer.Levels
import IrcServer.ParserLaws
import IrcServer.Stream
import Mathlib.Data.Finset.Order
import Mathlib.Data.List.TakeWhile

/-!
# Logging in

A client that has sent nothing is registered and welcomed once it has sent the password, a
nickname that nobody has and its user name, whatever the layout of the lines, the order of
the last two and the chunks they are received in; nothing else changes
(`login_completes`).  There is a way to log in exactly when the password can be sent: when
it has no LF and no NUL (`can_log_in_iff`).
-/

namespace IrcServer

open Library Commands

/-! ## Messages that ask for something -/

instance (w : Bytes) : Decidable (IsToken w) :=
  decidable_of_iff (w ≠ [] ∧ SPACE ∉ w ∧ w.head? ≠ some COLON)
    ⟨fun h ↦ ⟨h.1, h.2.1, h.2.2⟩, fun h ↦ ⟨h.ne_nil, h.notMem, h.head?_ne⟩⟩

namespace Message

/-- The line of a message with its ending. -/
def wire (m : Message) : Bytes := m.format ++ [CR, LF]

/-- The message can be sent, and is a command with these first parameters. -/
structure Asks (m : Message) (command : Bytes) (params : List Bytes) : Prop where
  wellFormed : m.WellFormed
  command_eq : Parser.commandOf m.command.text = command
  params_prefix : params <+: m.middle.map Part.text ++ (m.trailing.map Part.text).toList
  lf_notMem : ∀ t ∈ m.texts, LF ∉ t
  nul_notMem : ∀ t ∈ m.texts, NUL ∉ t

variable {m : Message} {ms : List Message} {command : Bytes} {params : List Bytes}

theorem Asks.lf_format (h : m.Asks command params) : LF ∉ m.format :=
  notMem_format (by decide) (by decide) h.lf_notMem

theorem Asks.parse (h : m.Asks command params) : (Parser.parse m.format).command = command ∧
    ∃ rest, (Parser.parse m.format).params = params ++ rest := by
  have hstrip : Parser.stripLineEnding m.format = m.format := by
    have hsuffix {t : Bytes} (ht : LF ∈ t) : ¬ t <:+ m.format :=
      fun hs ↦ h.lf_format (hs.subset ht)
    rw [Parser.stripLineEnding, if_neg (hsuffix (by decide)), if_neg (hsuffix (by decide))]
  obtain ⟨rest, hrest⟩ := h.params_prefix
  rw [parse_format_of_strip h.wellFormed hstrip]
  exact ⟨h.command_eq, rest, hrest.symm⟩

/-- Messages on the wire are their lines again. -/
theorem lines_wire (h : ∀ m ∈ ms, LF ∉ m.format) :
    lines LF CR (ms.flatMap wire) = ms.map format ∧ unfinished LF (ms.flatMap wire) = [] := by
  induction ms with
  | nil => exact ⟨rfl, rfl⟩
  | cons m ms ih =>
      obtain ⟨hm, hms⟩ := List.forall_mem_cons.mp h
      obtain ⟨hlines, hrest⟩ := ih hms
      have hcr : LF ∉ m.format ++ [CR] := by
        rw [List.mem_append, not_or]
        exact ⟨hm, by decide⟩
      have hwire : (m :: ms).flatMap wire = (m.format ++ [CR]) ++ LF :: ms.flatMap wire := by
        simp [wire]
      rw [hwire, lines_append_cons CR _ hcr, unfinished_append_cons _ hcr, chomp_concat,
        if_pos rfl, hlines, hrest]
      exact ⟨rfl, rfl⟩

theorem nul_wire (h : ∀ m ∈ ms, ∀ t ∈ m.texts, NUL ∉ t) : NUL ∉ ms.flatMap wire := by
  intro hmem
  obtain ⟨m, hm, hwire⟩ := List.mem_flatMap.mp hmem
  rcases List.mem_append.mp hwire with hformat | hend
  · exact notMem_format (by decide) (by decide) (h m hm) hformat
  · exact absurd hend (by decide)

end Message

/-! ## Registration, line by line -/

/-- The client once it has logged in with these lines. -/
def Client.loggedIn (c : Client) (nickname username realname : Bytes) (ls : List Bytes) : Client :=
  { c with
    isAuthenticated := true
    nickname := nickname
    username := username
    realname := realname
    executed := c.executed ++ ls
    written := c.written ++ [.welcome nickname username c.hostname]
    writeBuffer := c.writeBuffer ++ (Reply.welcome nickname username c.hostname).str }

namespace Server

variable {s : Server} {fd : Int} {c : Client} {n u r : Bytes} {line : Bytes} {f : Client → Client}

/-- A line that changes its sender alone. -/
theorem process_of_modify (h : processCommand s fd (Parser.parse line) = s.modify fd f) :
    process fd s line =
      s.modify fd fun c ↦ { f c with executed := (f c).executed ++ [line] } := by
  rw [process, h, intake, modify_modify]
  rfl

theorem isNicknameTaken_modify (hf : ∀ c, (f c).nickname = c.nickname) :
    (s.modify fd f).isNicknameTaken n = s.isNicknameTaken n :=
  UnorderedMap.any_modify (fun c ↦ by rw [hf c]) fd

variable {nick user : Bytes}

/-- Somebody without a name gives its nickname and its user name, in this order. -/
theorem register_nick_user (hc : s.clients.lookup fd = some c) (hauth : c.isAuthenticated = true)
    (hname : c.nickname = [] ∧ c.username = []) (hfree : s.isNicknameTaken n = false)
    (hn : n ≠ []) (hu : u ≠ [])
    (hnick : (Parser.parse nick).command = lit "NICK" ∧
      ∃ rest, (Parser.parse nick).params = [n] ++ rest)
    (huser : (Parser.parse user).command = lit "USER" ∧
      ∃ a b rest, (Parser.parse user).params = [u, a, b, r] ++ rest) :
    [nick, user].foldl (process fd) s = s.modify fd (·.loggedIn n u r [nick, user]) := by
  obtain ⟨hnick, rest, hparams⟩ := hnick
  obtain ⟨huser, a, b, rest', hparams'⟩ := huser
  have hrenames : Renames s fd (Parser.parse nick) n :=
    ⟨hnick, by rw [hparams]; rfl, hfree, by rw [client_eq hc, hauth]⟩
  have hfirst := process_of_modify (processCommand_of_renames hrenames)
  have htexts : c.renameTexts n = [] := by
    simp [Client.renameTexts, Client.isRegistered, Client.setNickname, hname.2]
  have hc' : (process fd s nick).clients.lookup fd =
      some { c with nickname := n, executed := c.executed ++ [nick] } := by
    rw [hfirst, lookup_modify_self, hc, Option.map_some, Client.renamed_eq, htexts]
    simp
  have hintro : Introduces (process fd s nick) fd (Parser.parse user) u r := by
    refine ⟨huser, ⟨a, b, rest', hparams'⟩, ?_, ?_⟩
    · rw [client_eq hc', hauth]
    · rw [client_eq hc', hname.2]
  have hsecond := process_of_modify (processCommand_of_introduces hintro)
  rw [List.foldl_cons, List.foldl_cons, List.foldl_nil, hsecond, hfirst, modify_modify]
  refine modify_congr fd hc ?_
  have htexts' : Client.introduceTexts
      { c with nickname := n, executed := c.executed ++ [nick] } u =
        [.welcome n u c.hostname] := by
    simp [Client.introduceTexts, Client.isRegistered, Client.setUsername, hauth, hn, hu]
  simpa [Client.renamed_eq, htexts, Client.introduced_eq, Client.loggedIn, htexts'] using hauth

/-- The same the other way round. -/
theorem register_user_nick (hc : s.clients.lookup fd = some c) (hauth : c.isAuthenticated = true)
    (hname : c.nickname = [] ∧ c.username = []) (hfree : s.isNicknameTaken n = false)
    (hn : n ≠ []) (hu : u ≠ [])
    (huser : (Parser.parse user).command = lit "USER" ∧
      ∃ a b rest, (Parser.parse user).params = [u, a, b, r] ++ rest)
    (hnick : (Parser.parse nick).command = lit "NICK" ∧
      ∃ rest, (Parser.parse nick).params = [n] ++ rest) :
    [user, nick].foldl (process fd) s = s.modify fd (·.loggedIn n u r [user, nick]) := by
  obtain ⟨hnick, rest, hparams⟩ := hnick
  obtain ⟨huser, a, b, rest', hparams'⟩ := huser
  have hintro : Introduces s fd (Parser.parse user) u r := by
    refine ⟨huser, ⟨a, b, rest', hparams'⟩, ?_, ?_⟩
    · rw [client_eq hc, hauth]
    · rw [client_eq hc, hname.2]
  have hfirst := process_of_modify (processCommand_of_introduces hintro)
  have htexts : c.introduceTexts u = [] := by
    simp [Client.introduceTexts, Client.isRegistered, Client.setUsername, hname.1]
  have hc' : (process fd s user).clients.lookup fd = some
      { c with username := u, realname := r, executed := c.executed ++ [user] } := by
    rw [hfirst, lookup_modify_self, hc, Option.map_some, Client.introduced_eq, htexts]
    simp
  have hfree' : (process fd s user).isNicknameTaken n = false := by
    rw [hfirst, isNicknameTaken_modify, hfree]
    intro c
    rw [Client.introduced_eq]
  have hrenames : Renames (process fd s user) fd (Parser.parse nick) n :=
    ⟨hnick, by rw [hparams]; rfl, hfree', by rw [client_eq hc', hauth]⟩
  have hsecond := process_of_modify (processCommand_of_renames hrenames)
  rw [List.foldl_cons, List.foldl_cons, List.foldl_nil, hsecond, hfirst, modify_modify]
  refine modify_congr fd hc ?_
  have htexts' : Client.renameTexts
      { c with username := u, realname := r, executed := c.executed ++ [user] } n =
        [.welcome n u c.hostname] := by
    simp [Client.renameTexts, Client.isRegistered, Client.setNickname, hauth, hname.1, hn, hu]
  simpa [Client.introduced_eq, htexts, Client.renamed_eq, Client.loggedIn, htexts'] using hauth

end Server

/-! ## The whole of it -/

section Login

variable {s : Server} {fd : Int} {c : Client} {n u a b r : Bytes}
variable {pass nick user : Message} {ms : List Message} {chunks : List Bytes}

/-- Somebody without a name, who has left nothing unread, sends the three messages. -/
theorem Server.receiveAll_login (hc : s.clients.lookup fd = some c) (hread : c.readBuffer = [])
    (hauth : c.isAuthenticated = false) (hname : c.nickname = [] ∧ c.username = [])
    (hfree : s.isNicknameTaken n = false) (hn : n ≠ []) (hu : u ≠ [])
    (hpass : pass.Asks (lit "PASS") [s.password]) (hnick : nick.Asks (lit "NICK") [n])
    (huser : user.Asks (lit "USER") [u, a, b, r])
    (hms : ms = [pass, nick, user] ∨ ms = [pass, user, nick])
    (hcuts : Cuts (ms.flatMap Message.wire) chunks) :
    s.receiveAll fd chunks = s.modify fd (·.loggedIn n u r (ms.map Message.format)) := by
  have hall : ∀ m ∈ ms, LF ∉ m.format ∧ ∀ t ∈ m.texts, NUL ∉ t := by
    intro m hm
    have hthree : m = pass ∨ m = nick ∨ m = user := by
      rcases hms with rfl | rfl
      · simpa using hm
      · simp only [List.mem_cons, List.not_mem_nil, or_false] at hm
        tauto
    rcases hthree with rfl | rfl | rfl
    · exact ⟨hpass.lf_format, hpass.nul_notMem⟩
    · exact ⟨hnick.lf_format, hnick.nul_notMem⟩
    · exact ⟨huser.lf_format, huser.nul_notMem⟩
  obtain ⟨hlines, hrest⟩ := Message.lines_wire fun m hm ↦ (hall m hm).1
  have hnul : NUL ∉ ms.flatMap Message.wire := Message.nul_wire fun m hm ↦ (hall m hm).2
  have hnone : withoutNul (ms.flatMap Message.wire) = ms.flatMap Message.wire :=
    List.filter_eq_self.mpr fun b hb ↦ by simpa using fun e : b = NUL ↦ hnul (e ▸ hb)
  have hlast : NulsLast (ms.flatMap Message.wire) :=
    fun v w hvw ↦ absurd (hvw ▸ by simp) hnul
  have hne : ms.flatMap Message.wire ≠ [] := by
    rcases hms with rfl | rfl <;> simp [Message.wire]
  rw [receiveAll_of_nulsLast hc hlast hcuts, if_neg hne, hnone, absorb, client_eq hc, hread,
    List.nil_append, hlines, hrest]
  -- The password first.
  obtain ⟨hcommand, rest, hparams⟩ := hpass.parse
  have hauthenticates : Authenticates s fd (Parser.parse pass.format) :=
    ⟨hcommand, by rw [hparams]; rfl, by rw [client_eq hc, hauth]⟩
  have hfirst := process_of_modify (processCommand_of_authenticates hauthenticates)
  have hc' : (process fd s pass.format).clients.lookup fd =
      some { c with isAuthenticated := true, executed := c.executed ++ [pass.format] } := by
    rw [hfirst, lookup_modify_self, hc]
    rfl
  have hfree' : (process fd s pass.format).isNicknameTaken n = false := by
    rw [hfirst, isNicknameTaken_modify, hfree]
    intro c
    rfl
  -- Then the two names, in either order.
  have hnames : (ms.map Message.format).foldl (process fd) s =
      (process fd s pass.format).modify fd (·.loggedIn n u r (ms.map Message.format).tail) := by
    have huser' : (Parser.parse user.format).command = lit "USER" ∧
        ∃ a b rest, (Parser.parse user.format).params = [u, a, b, r] ++ rest :=
      ⟨huser.parse.1, a, b, huser.parse.2⟩
    rcases hms with rfl | rfl
    · exact register_nick_user hc' rfl hname hfree' hn hu hnick.parse huser'
    · exact register_user_nick hc' rfl hname hfree' hn hu huser' hnick.parse
  have hhead : ms.map Message.format = pass.format :: (ms.map Message.format).tail := by
    rcases hms with rfl | rfl <;> rfl
  rw [hnames, hfirst, setBuffer, intake, modify_modify, modify_modify]
  refine modify_congr fd hc ?_
  rw [hhead]
  simp [Client.loggedIn, Client.intake, Client.setAuthenticated, hread]

/-- Only a line that presents the password authenticates anybody. -/
theorem Change.isAuthenticated {cmd : Parser} {d : Int} {f : Client → Client}
    (hf : Change s fd cmd d f) (hno : ¬ Authenticates s fd cmd) (c : Client) :
    (f c).isAuthenticated = c.isAuthenticated := by
  cases hf with
  | told ms _ => simp [Client.appendAll_eq]
  | marked => rfl
  | authenticated _ h => exact absurd h hno
  | renamed _ n _ => simp [Client.renamed_eq]
  | introduced _ u r _ => simp [Client.introduced_eq]

/-- Whoever is authenticated by lines has presented the password in one of them. -/
theorem Server.presented_of_authenticated {ls : List Bytes} (hc : s.clients.lookup fd = some c)
    (hauth : c.isAuthenticated = false)
    (h : ((ls.foldl (process fd) s).client fd).isAuthenticated = true) :
    ∃ l ∈ ls, (Parser.parse l).params.head? = some s.password := by
  induction ls generalizing s c with
  | nil =>
      rw [List.foldl_nil, client_eq hc, hauth] at h
      cases h
  | cons l ls ih =>
      have heffect := processCommand_effect s fd (Parser.parse l)
      obtain ⟨f, hf, hl⟩ := heffect.lookup fd
      have hc' : (process fd s l).clients.lookup fd =
          some { f c with executed := (f c).executed ++ [l] } := by
        rw [process, intake, lookup_modify_self, hl, hc]
        rfl
      by_cases hpresents : Authenticates s fd (Parser.parse l)
      · exact ⟨l, List.mem_cons_self, hpresents.2.1⟩
      · have hsame : (f c).isAuthenticated = false := (hf.isAuthenticated hpresents c).trans hauth
        obtain ⟨l', hl', hparams⟩ := ih hc' hsame h
        have hpassword : (process fd s l).password = s.password := heffect.password
        exact ⟨l', List.mem_cons_of_mem l hl', hparams.trans (congrArg some hpassword)⟩

/-- A client is authenticated only by a password that has no LF and no NUL. -/
theorem Server.carried_of_authenticated (hc : s.clients.lookup fd = some c)
    (hread : c.readBuffer = []) (hauth : c.isAuthenticated = false)
    {stream : Bytes} (hcuts : Cuts stream chunks)
    (h : ((s.receiveAll fd chunks).client fd).isAuthenticated = true) :
    LF ∉ s.password ∧ NUL ∉ s.password := by
  by_cases hnil : chunks = []
  · rw [hnil, receiveAll, List.foldl_nil, client_eq hc, hauth] at h
    cases h
  · rw [receiveAll_eq hc hnil fun k hk ↦ (hcuts.2 k hk).1, absorb, client_eq hc, hread,
      List.nil_append] at h
    obtain ⟨c', hc', -, -⟩ := lookup_foldl_process hc (lines LF CR (chunks.flatMap cString))
    rw [client_eq (lookup_setBuffer hc' _)] at h
    obtain ⟨l, hl, hparams⟩ := presented_of_authenticated hc hauth (client_eq hc' ▸ h)
    obtain ⟨hlf, hmem⟩ := of_mem_lines hl
    have hletters {x : UInt8} (hx : x ∈ s.password) : x ∈ l :=
      Parser.mem_of_mem_params (List.mem_of_head? hparams) hx
    refine ⟨fun hx ↦ hlf (hletters hx), fun hx ↦ ?_⟩
    obtain ⟨chunk, -, hchunk⟩ := List.mem_flatMap.mp (hmem _ (hletters hx))
    simpa using List.mem_takeWhile_imp hchunk

/-- There is always a nickname that nobody has. -/
theorem Server.exists_free (s : Server) :
    ∃ n : Bytes, s.isNicknameTaken n = false ∧ IsToken n ∧ LF ∉ n ∧ NUL ∉ n := by
  let lengths : List Nat := s.clients.entries.map fun e ↦ e.2.nickname.length
  obtain ⟨k, hk⟩ := lengths.toFinset.exists_le
  -- Longer than all of them.
  have hletters {x : UInt8} (hx : x ∈ List.replicate (k + 1) (97 : UInt8)) : x = 97 :=
    List.eq_of_mem_replicate hx
  refine ⟨List.replicate (k + 1) 97, isNicknameTaken_eq_false_iff.mpr ?_, ⟨?_, ?_, ?_⟩, ?_, ?_⟩
  · intro d c hc heq
    have hmem : c.nickname.length ∈ lengths :=
      List.mem_map.mpr ⟨⟨d, c⟩, AList.mem_lookup_iff.mp hc, rfl⟩
    have hle := hk _ (List.mem_toFinset.mpr hmem)
    rw [heq, List.length_replicate] at hle
    exact Nat.not_succ_le_self k hle
  · exact List.cons_ne_nil _ _
  · exact fun h ↦ absurd (hletters h) (by decide)
  · exact fun h ↦ absurd (hletters (List.mem_of_head? h)) (by decide)
  · exact fun h ↦ absurd (hletters h) (by decide)
  · exact fun h ↦ absurd (hletters h) (by decide)

/-- A message of words and a text, with single spaces. -/
def Message.plain (command : Bytes) (middle : List Bytes) (text : Bytes) : Message :=
  ⟨none, ⟨0, command⟩, middle.map (Part.mk 0), some ⟨0, text⟩⟩

theorem Message.asks_plain {command text : Bytes} {middle : List Bytes} (hcommand : IsToken command)
    (hword : LF ∉ command ∧ NUL ∉ command)
    (hmiddle : ∀ t ∈ middle, IsToken t ∧ LF ∉ t ∧ NUL ∉ t) (htext : LF ∉ text ∧ NUL ∉ text) :
    (plain command middle text).Asks (Parser.commandOf command) (middle ++ [text]) := by
  have hcarried : ∀ t ∈ (plain command middle text).texts, LF ∉ t ∧ NUL ∉ t := by
    intro t ht
    have htexts : t = command ∨ t ∈ middle ∨ t = text := by
      simpa [texts, plain, Function.comp_def, or_assoc] using ht
    rcases htexts with rfl | ht | rfl
    · exact hword
    · exact (hmiddle t ht).2
    · exact htext
  refine ⟨⟨?_, hcommand, ?_⟩, rfl, ?_, fun t ht ↦ (hcarried t ht).1,
    fun t ht ↦ (hcarried t ht).2⟩
  · intro w hw
    cases hw
  · intro p hp
    obtain ⟨t, ht, rfl⟩ := List.mem_map.mp hp
    exact (hmiddle t ht).1
  · simp [plain, Function.comp_def]

end Login

section Run

variable {password : Bytes} {es : List ProcessEvent}

/-- What the running process knows of a client that is not authenticated. -/
theorem unnamed_of_process (hv : process.Valid (.start password) es)
    (hrun : (process.run (.start password) es).stage.runs = true) {fd : Int} {c : Client}
    (hc : (process.run (.start password) es).loop.server.clients.lookup fd = some c)
    (hauth : c.isAuthenticated = false) :
    (process.run (.start password) es).loop.server.password = password ∧
      c.nickname = [] ∧ c.username = [] := by
  obtain ⟨d, events, hevents, herase⟩ := network_of_process hv hrun
  have hsound := sound_registry hevents
  rw [← herase] at hsound
  have hunnamed (h : c.session.nick ≠ none ∨ c.session.user ≠ none) : False :=
    absurd (hauth ▸ hsound.named fd c.session (sessions_registry hc) h) Bool.false_ne_true
  refine ⟨(congrArg Server.password herase).trans (password_run _ events), ?_, ?_⟩
  · by_contra hnick
    exact hunnamed (Or.inl fun h ↦ hnick (name?_eq_none_iff.mp h))
  · by_contra huser
    exact hunnamed (Or.inr fun h ↦ huser (name?_eq_none_iff.mp h))

/-- In every state of the running process, a client that is not authenticated and has left
nothing unread logs in with the password, a nickname that nobody has and a user name:
whatever the layout of the three messages, the order of the last two and the chunks they are
received in, it is registered under these names and welcomed once, and nothing else changes. -/
theorem login_completes (hv : process.Valid (.start password) es)
    (hrun : (process.run (.start password) es).stage.runs = true) :
    let s := (process.run (.start password) es).loop.server
    ∀ (fd : Int) (c : Client) (pass nick user : Message) (n u a b r : Bytes) (ms : List Message)
      (chunks : List Bytes), s.clients.lookup fd = some c → c.readBuffer = [] →
      c.isAuthenticated = false → s.isNicknameTaken n = false → n ≠ [] → u ≠ [] →
      pass.Asks (lit "PASS") [password] → nick.Asks (lit "NICK") [n] →
      user.Asks (lit "USER") [u, a, b, r] → (ms = [pass, nick, user] ∨ ms = [pass, user, nick]) →
      Cuts (ms.flatMap Message.wire) chunks →
      s.receiveAll fd chunks = s.modify fd (·.loggedIn n u r (ms.map Message.format)) := by
  intro s fd c pass nick user n u a b r ms chunks hc hread hauth hfree hn hu hpass hnick huser
  obtain ⟨hpassword, hname⟩ := unnamed_of_process hv hrun hc hauth
  exact Server.receiveAll_login hc hread hauth hname hfree hn hu (hpassword.symm ▸ hpass) hnick
    huser

/-- Prefixes, gaps and lower case; the user name first; the chunks cut words and endings. -/
theorem login_completes_served :
    let s := (process.run (.start (lit "pw")) (servedRun.take 5)).loop.server
    s.receiveAll 4 [lit "pass p", lit "w\r", lit "\nUSER ann 0 * :Ann A.\r\n:me ni",
        lit "ck  ann\r\n"] =
      s.modify 4 (·.loggedIn (lit "ann") (lit "ann") (lit "Ann A.")
        [lit "pass pw", lit "USER ann 0 * :Ann A.", lit ":me nick  ann"]) :=
  login_completes (by decide +kernel) (by decide +kernel) 4
    ((process.run (.start (lit "pw")) (servedRun.take 5)).loop.server.client 4)
    ⟨none, ⟨0, lit "pass"⟩, [⟨0, lit "pw"⟩], none⟩
    ⟨some (lit "me"), ⟨0, lit "nick"⟩, [⟨1, lit "ann"⟩], none⟩
    (Message.plain (lit "USER") [lit "ann", lit "0", lit "*"] (lit "Ann A."))
    (lit "ann") (lit "ann") (lit "0") (lit "*") (lit "Ann A.") _ _ (by decide +kernel)
    (by decide +kernel) (by decide +kernel) (by decide +kernel) (by decide) (by decide)
    ⟨⟨by decide, by decide, by decide⟩, by decide, List.prefix_refl _, by decide, by decide⟩
    ⟨⟨by decide, by decide, by decide⟩, by decide, List.prefix_refl _, by decide, by decide⟩
    (Message.asks_plain (by decide) (by decide) (by decide) (by decide))
    (Or.inr rfl) ⟨by decide +kernel, by decide +kernel⟩

/-- In every state of the running process, a client that is not authenticated and has left
nothing unread can become registered by what it sends exactly when the password has no LF
and no NUL. -/
theorem can_log_in_iff (hv : process.Valid (.start password) es)
    (hrun : (process.run (.start password) es).stage.runs = true) :
    let s := (process.run (.start password) es).loop.server
    ∀ fd c, s.clients.lookup fd = some c → c.readBuffer = [] → c.isAuthenticated = false →
      ((∃ stream chunks, Cuts stream chunks ∧
        ((s.receiveAll fd chunks).client fd).isRegistered = true) ↔
          LF ∉ password ∧ NUL ∉ password) := by
  intro s fd c hc hread hauth
  obtain ⟨hpassword, hname⟩ := unnamed_of_process hv hrun hc hauth
  constructor
  · rintro ⟨stream, chunks, hcuts, hreg⟩
    exact hpassword ▸ Server.carried_of_authenticated hc hread hauth hcuts
      (Client.isRegistered_iff.mp hreg).1
  · intro hcarried
    obtain ⟨n, hfree, htoken, hname'⟩ := s.exists_free
    have hn : n ≠ [] := htoken.ne_nil
    have hpass : (Message.plain (lit "PASS") [] password).Asks (lit "PASS") [s.password] := by
      rw [hpassword]
      exact Message.asks_plain (by decide) (by decide) (List.forall_mem_nil _) hcarried
    have hnick : (Message.plain (lit "NICK") [] n).Asks (lit "NICK") [n] :=
      Message.asks_plain (by decide) (by decide) (List.forall_mem_nil _) hname'
    have huser : (Message.plain (lit "USER") [n, n, n] n).Asks (lit "USER") [n, n, n, n] := by
      refine Message.asks_plain (by decide) (by decide) (fun t ht ↦ ?_) hname'
      obtain rfl : t = n := by simpa using ht
      exact ⟨htoken, hname'⟩
    have hlogin := Server.receiveAll_login hc hread hauth hname hfree hn hn hpass hnick huser
      (Or.inl rfl) (cuts_singletons _)
    have hclient := congrArg (Server.client · fd) hlogin
    refine ⟨_, _, cuts_singletons _, (congrArg Client.isRegistered hclient).trans ?_⟩
    simp only [Server.client_modify_self hc]
    exact Client.isRegistered_iff.mpr ⟨rfl, hn, hn⟩

theorem can_log_in_iff_served :
    let s := (process.run (.start (lit "pw")) (servedRun.take 5)).loop.server
    (∃ stream chunks, Cuts stream chunks ∧
      ((s.receiveAll 4 chunks).client 4).isRegistered = true) ↔
        LF ∉ lit "pw" ∧ NUL ∉ lit "pw" :=
  can_log_in_iff (by decide +kernel) (by decide +kernel) 4
    ((process.run (.start (lit "pw")) (servedRun.take 5)).loop.server.client 4)
    (by decide +kernel) (by decide +kernel) (by decide +kernel)

end Run

end IrcServer
