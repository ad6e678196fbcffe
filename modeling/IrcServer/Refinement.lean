import IrcServer.Registry
import IrcServer.Runs

/-!
# The server implements the registry

`Server.registry` reads a server as a registry of sessions: an empty nickname or user
name is a blank one, and what a session has asked is what its lines come to.  Accepting
is joining, closing is leaving, and processing a line is asking; every other event
leaves the registry as it is (`refinement`).
-/

namespace IrcServer

open Library Commands

/-- A name, blank when empty. -/
def name? (b : Bytes) : Option Bytes := if b = [] then none else some b

@[simp] theorem name?_eq_none_iff {b : Bytes} : name? b = none ↔ b = [] := by
  unfold name?
  split <;> simp_all

@[simp] theorem name?_eq_some_iff {b n : Bytes} : name? b = some n ↔ b = n ∧ n ≠ [] := by
  unfold name?
  split
  · rename_i h
    simp only [reduceCtorEq, false_iff, not_and, not_not]
    exact fun hn ↦ hn ▸ h
  · rename_i h
    exact ⟨fun hn ↦ ⟨Option.some.inj hn, Option.some.inj hn ▸ h⟩, fun hn ↦ congrArg some hn.1⟩

theorem name?_inj {a b : Bytes} : name? a = name? b ↔ a = b := by
  refine ⟨?_, congrArg name?⟩
  intro h
  by_cases hb : b = []
  · rw [name?_eq_none_iff.mpr hb, name?_eq_none_iff] at h
    exact h.trans hb.symm
  · exact (name?_eq_some_iff.mp (h.trans (name?_eq_some_iff.mpr ⟨rfl, hb⟩))).1

/-- What a parsed line asks of the registry. -/
def Parser.request (cmd : Parser) : Request Bytes :=
  if cmd.command = lit "PASS" then
    match cmd.params with
    | [] => .other
    | password :: _ => .present password
  else if cmd.command = lit "NICK" then
    match cmd.params with
    | [] => .other
    | nickname :: _ => .rename (name? nickname)
  else if cmd.command = lit "USER" then
    match cmd.params with
    | username :: _ :: _ :: _ :: _ => .introduce (name? username)
    | _ => .other
  else .other

/-- A request tells the command it comes from. -/
theorem Parser.command_of_request (cmd : Parser) :
    (∀ p, cmd.request = .present p → cmd.command = lit "PASS") ∧
      (∀ x, cmd.request = .rename x → cmd.command = lit "NICK") ∧
      (∀ x, cmd.request = .introduce x → cmd.command = lit "USER") := by
  unfold request
  split
  · rename_i hpass
    split <;> simp [hpass]
  · split
    · rename_i hnick
      split <;> simp [hnick]
    · split
      · rename_i huser
        split <;> simp [huser]
      · simp

theorem Parser.request_eq_present {cmd : Parser} {p : Bytes} : cmd.request = .present p ↔
    cmd.command = lit "PASS" ∧ cmd.params.head? = some p := by
  by_cases hpass : cmd.command = lit "PASS"
  · cases hp : cmd.params <;> simp [request, hpass, hp]
  · refine iff_of_false ?_ fun h ↦ hpass h.1
    exact fun h ↦ hpass (cmd.command_of_request.1 p h)

theorem Parser.request_eq_rename {cmd : Parser} {x : Option Bytes} : cmd.request = .rename x ↔
    cmd.command = lit "NICK" ∧ ∃ n, cmd.params.head? = some n ∧ name? n = x := by
  by_cases hnick : cmd.command = lit "NICK"
  · cases hp : cmd.params <;> simp [request, hnick, hp]
  · refine iff_of_false ?_ fun h ↦ hnick h.1
    exact fun h ↦ hnick (cmd.command_of_request.2.1 x h)

theorem Parser.request_eq_introduce {cmd : Parser} {x : Option Bytes} :
    cmd.request = .introduce x ↔ cmd.command = lit "USER" ∧
      ∃ u r, (∃ a b rest, cmd.params = u :: a :: b :: r :: rest) ∧ name? u = x := by
  by_cases huser : cmd.command = lit "USER"
  · have hrequest : cmd.request = match cmd.params with
        | username :: _ :: _ :: _ :: _ => .introduce (name? username)
        | _ => .other := by simp [request, huser]
    rw [hrequest]
    split
    · rename_i u a b r rest hp
      simp [hp, huser]
    · rename_i hshort
      simp only [reduceCtorEq, huser, true_and, false_iff]
      rintro ⟨u, r, ⟨a, b, rest, hp⟩, -⟩
      exact hshort u a b r rest hp
  · refine iff_of_false ?_ fun h ↦ huser h.1
    exact fun h ↦ huser (cmd.command_of_request.2.2 x h)

/-- The session a client stands for. -/
def Client.session (c : Client) : Session Bytes where
  authenticated := c.isAuthenticated
  nick := name? c.nickname
  user := name? c.username
  asked := c.executed.map fun l ↦ (Parser.parse l).request

/-- The registry a server stands for. -/
def Server.registry (s : Server) : Registry Int Bytes where
  password := s.password
  sessions d := (s.clients.lookup d).map Client.session

theorem Client.registered_session {c : Client} :
    c.session.Registered ↔ c.isRegistered = true := by
  simp [Session.Registered, session, isRegistered_iff]

/-- The test made for a nickname is the registry's. -/
theorem Server.free_registry {s : Server} {n : Bytes} :
    s.registry.Free (name? n) ↔ s.isNicknameTaken n = false := by
  rw [isNicknameTaken_eq_false_iff]
  constructor
  · intro h d c hc hn
    exact h d c.session (congrArg (Option.map Client.session) hc) (congrArg name? hn)
  · intro h d t ht hn
    obtain ⟨c, hc, rfl⟩ := Option.map_eq_some_iff.mp ht
    exact h d c hc (name?_inj.mp hn)

section Answers

variable {s : Server} {fd : Int} {cmd : Parser} {c : Client}

/-- What the registry makes of a session when the client stored under `fd` sends a line. -/
noncomputable def Server.answer (s : Server) (cmd : Parser) (t : Session Bytes) : Session Bytes :=
  t.respond s.password s.registry.Free cmd.request

/-- An idle line asks nothing, or is refused by the registry as it is by the server. -/
theorem answer_of_idle (h : Idle s fd cmd) (hc : s.clients.lookup fd = some c) :
    s.answer cmd c.session = c.session := by
  have hclient := Server.client_eq hc
  by_cases hpass : cmd.command = lit "PASS"
  · cases hp : cmd.params with
    | nil => simp [Server.answer, Parser.request, hpass, hp, Session.respond]
    | cons p rest =>
        by_cases heq : p = s.password
        · have hauth : c.isAuthenticated = true := by
            by_contra hna
            exact h.authenticates ⟨hpass, by simp [hp, heq], by simpa [hclient] using hna⟩
          simp [Server.answer, Parser.request, hpass, hp, Session.respond, heq, Client.session, hauth]
        · simp [Server.answer, Parser.request, hpass, hp, Session.respond, heq]
  by_cases hnick : cmd.command = lit "NICK"
  · cases hp : cmd.params with
    | nil => simp [Server.answer, Parser.request, hnick, hp, Session.respond]
    | cons n rest =>
        have hrefused : ¬ (c.session.authenticated = true ∧ s.registry.Free (name? n)) := by
          rintro ⟨hauth, hfree⟩
          exact h.renames n ⟨hnick, by simp [hp], Server.free_registry.mp hfree,
            by rw [hclient]; exact hauth⟩
        simp [Server.answer, Parser.request, hnick, hp, Session.respond, hrefused]
  by_cases huser : cmd.command = lit "USER"
  · unfold Server.answer Parser.request
    rw [if_neg hpass, if_neg hnick, if_pos huser]
    split
    · rename_i u a b r rest hp
      have hrefused : ¬ (c.session.authenticated = true ∧ c.session.user = none) := by
        rintro ⟨hauth, hnone⟩
        refine h.introduces u r ⟨huser, ⟨a, b, rest, hp⟩, ?_, ?_⟩
        · rw [hclient]; exact hauth
        · rw [hclient]; exact name?_eq_none_iff.mp hnone
      exact if_neg hrefused
    · rfl
  · simp [Server.answer, Parser.request, hpass, hnick, huser, Session.respond]

theorem answer_of_authenticates (h : Authenticates s fd cmd) :
    s.answer cmd c.session = (c.setAuthenticated true).session := by
  have hreq := Parser.request_eq_present.mpr ⟨h.1, h.2.1⟩
  simp [Server.answer, hreq, Session.respond, Client.session, Client.setAuthenticated]

theorem answer_of_renames {n : Bytes} (h : Renames s fd cmd n)
    (hc : s.clients.lookup fd = some c) : s.answer cmd c.session = (c.renamed n).session := by
  obtain ⟨hnick, hp, hfree, hauth⟩ := h
  obtain ⟨rest, hp⟩ := List.head?_eq_some_iff.mp hp
  rw [Server.client_eq hc] at hauth
  simp [Server.answer, Parser.request, hnick, hp, Session.respond, Client.session, hauth,
    Server.free_registry.mpr hfree, Client.renamed, Client.appendAll_eq, Client.setNickname]

theorem answer_of_introduces {u r : Bytes} (h : Introduces s fd cmd u r)
    (hc : s.clients.lookup fd = some c) :
    s.answer cmd c.session = (c.introduced u r).session := by
  obtain ⟨huser, ⟨a, b, rest, hp⟩, hauth, hblank⟩ := h
  rw [Server.client_eq hc] at hauth hblank
  simp [Server.answer, Parser.request, huser, hp, Session.respond, Client.session, hauth, hblank,
    Client.introduced, Client.appendAll_eq, Client.setUsername, Client.setRealname]

theorem answer_of_forwards {d : Int} {t m : Bytes} (h : Forwards s fd cmd d t m)
    (x : Session Bytes) : s.answer cmd x = x := by
  simp [Server.answer, Parser.request, h.1, Session.respond]

/-- The texts a client is sent do not matter to its session. -/
theorem session_of_talks {s s' : Server} (h : Talks s s') (d : Int) :
    (s'.clients.lookup d).map Client.session = (s.clients.lookup d).map Client.session := by
  obtain ⟨ms, -, hl⟩ := h.clients d
  rw [hl, Option.map_map]
  apply congrArg (Option.map · _)
  funext c
  simp [Client.appendAll_eq, Client.session]

/-- What a line makes of the sessions, the line itself not yet among what was asked. -/
theorem session_of_lineEffect {s' : Server} (h : LineEffect s fd cmd s') (d : Int) :
    (s'.clients.lookup d).map Client.session = (s.clients.lookup d).map fun c ↦
      if d = fd then s.answer cmd c.session else c.session := by
  have hself (hidle : Idle s fd cmd) : (s.clients.lookup d).map Client.session =
      (s.clients.lookup d).map fun c ↦ if d = fd then s.answer cmd c.session else c.session := by
    by_cases hd : d = fd
    · subst hd
      cases hc : s.clients.lookup d with
      | none => rfl
      | some c => simp [answer_of_idle hidle hc]
    · simp [hd]
  have hmodify (f : Client → Client) (hf : ∀ c, s.clients.lookup fd = some c →
      s.answer cmd c.session = (f c).session) : ((s.modify fd f).clients.lookup d).map Client.session =
      (s.clients.lookup d).map fun c ↦ if d = fd then s.answer cmd c.session else c.session := by
    by_cases hd : d = fd
    · subst hd
      cases hc : s.clients.lookup d with
      | none => simp [hc]
      | some c => simp [hc, hf c hc]
    · simp [Server.lookup_modify_of_ne s fd f hd, hd]
  cases h with
  | silent idle => exact hself idle
  | answered m idle hm => exact (session_of_talks (Talks.reply s fd hm) d).trans (hself idle)
  | marked m idle hm =>
      rw [Server.reply, Server.modify_modify]
      exact hmodify _ fun c hc ↦ answer_of_idle idle hc
  | authenticated h => exact hmodify _ fun c _ ↦ answer_of_authenticates h
  | renamed n h => exact hmodify _ fun c hc ↦ answer_of_renames h hc
  | introduced u r h => exact hmodify _ fun c hc ↦ answer_of_introduces h hc
  | forwarded t x m h =>
      refine (session_of_talks (Talks.reply s t rfl) d).trans ?_
      simp [answer_of_forwards h]
  | announced _ idle h _ => exact (session_of_talks h d).trans (hself idle)

end Answers

/-! ## The simulation -/

/-- A line that has been taken is the last thing asked. -/
theorem Client.session_takeCommand (c : Client) : c.takeCommand.session = { c.session with
    asked := c.session.asked ++ [(Parser.parse c.extractCommandFromBuffer.1).request] } := by
  have h : c.takeCommand.executed = c.executed ++ [c.extractCommandFromBuffer.1] := rfl
  rw [session, h, takeCommand_eq, List.map_append]
  rfl

/-- The line taken does not depend on what processing it did. -/
theorem extract_of_lineEffect {s s' : Server} {fd : Int} {cmd : Parser}
    (h : LineEffect s fd cmd s') {c c' : Client} (hc : s.clients.lookup fd = some c)
    (hc' : s'.clients.lookup fd = some c') :
    c'.extractCommandFromBuffer.1 = s.nextCommand fd := by
  obtain ⟨f, hf, hl⟩ := h.lookup fd
  rw [hc, hc'] at hl
  obtain rfl : c' = f c := Option.some.inj hl
  rw [Server.nextCommand, Server.client_eq hc, Client.extractCommandFromBuffer, (hf.frame c).2.1,
    Client.extractCommandFromBuffer]
  cases find [LF] c.readBuffer <;> rfl

/-- Processing a line is asking for what it comes to. -/
theorem registry_serveLine (s : Server) (fd : Int) :
    (s.serveLine fd).registry = s.registry.step (.ask fd (s.nextParsed fd).request) := by
  have heff := s.lineEffect fd
  apply Registry.ext
  · exact s.password_serveLine fd
  · intro d
    rw [Registry.step, Registry.sessions_put]
    have hsession := session_of_lineEffect heff d
    have hserve : (s.serveLine fd).clients.lookup d = if d = fd then
        ((processCommand s fd (s.nextParsed fd)).clients.lookup d).map (·.takeCommand)
        else (processCommand s fd (s.nextParsed fd)).clients.lookup d := by
      rw [Server.serveLine_eq, Server.takeCommand, Server.lookup_modify]
      rfl
    change ((s.serveLine fd).clients.lookup d).map Client.session = _
    rw [hserve]
    by_cases hd : d = fd
    · subst hd
      rw [if_pos rfl, if_pos rfl]
      change _ = ((s.clients.lookup d).map Client.session).map _
      cases hc : s.clients.lookup d with
      | none =>
          rw [hc, Option.map_none, Option.map_eq_none_iff] at hsession
          rw [hsession]
          rfl
      | some c =>
          rw [hc, Option.map_some, if_pos rfl] at hsession
          obtain ⟨c', hc', hsession⟩ := Option.map_eq_some_iff.mp hsession
          rw [hc', Option.map_some, Option.map_some, Option.map_some, Option.map_some,
            Client.session_takeCommand, extract_of_lineEffect heff hc hc', hsession,
            Server.answer, Session.asked_respond]
          rfl
    · simp only [hd, if_false] at hsession ⊢
      exact hsession

/-- The registry's view of an event. -/
def Event.action (s : Server) : Event → Option (Action Int Bytes)
  | accept clientFd _ => some (.join clientFd)
  | line fd => some (.ask fd (s.nextParsed fd).request)
  | close fd => some (.leave fd)
  | receive .. | send .. | rehash _ => none

/-- A write that does not touch the sessions. -/
theorem registry_modify (s : Server) (fd : Int) {f : Client → Client}
    (hf : ∀ c, (f c).session = c.session) : (s.modify fd f).registry = s.registry :=
  Registry.ext rfl fun d ↦ Server.lookup_modify_map hf s fd d

/-- The server implements the registry. -/
noncomputable def refinement : Simulation network (Registry.system Int Bytes) where
  abs := Server.registry
  label := Event.action
  enabled s e he a ha i hi := by
    cases e with
    | accept fd address =>
        obtain rfl : .join fd = a := Option.some.inj ha
        cases hi
        exact congrArg (Option.map _) (AList.lookup_eq_none.mpr he.1)
    | line fd =>
        obtain rfl : .ask fd _ = a := Option.some.inj ha
        cases hi
    | close fd =>
        obtain rfl : .leave fd = a := Option.some.inj ha
        cases hi
    | receive | send | rehash => cases ha
  commutes s e he := by
    cases e with
    | accept fd address =>
        apply Registry.ext (Server.password_insert s fd _)
        intro d
        change ((s.insert fd _).clients.lookup d).map _ = (Registry.put _ fd _).sessions d
        rw [Registry.sessions_put]
        by_cases hd : d = fd
        · subst hd
          rw [Server.lookup_insert_self he.1, if_pos rfl]
          rfl
        · rw [Server.lookup_insert_of_ne hd, if_neg hd]
          rfl
    | receive fd data => exact registry_modify s fd fun _ ↦ rfl
    | line fd => exact registry_serveLine s fd
    | send fd sent => exact registry_modify s fd fun _ ↦ rfl
    | close fd =>
        apply Registry.ext
        · rfl
        · intro d
          change ((s.clients.erase fd).lookup d).map _ = (Registry.put _ fd _).sessions d
          rw [Registry.sessions_put]
          by_cases hd : d = fd
          · subst hd
            rw [AList.lookup_erase, if_pos rfl]
            rfl
          · rw [AList.lookup_erase_ne hd, if_neg hd]
            rfl
    | rehash clients =>
        exact Registry.ext rfl fun d ↦ congrArg (Option.map _) (AList.perm_lookup he)

/-- An event is an action of the registry, or none. -/
theorem registry_step {s : Server} {e : Event} (he : e.enabled s) :
    (e.step s).registry = (e.action s).elim s.registry s.registry.step :=
  refinement.commutes s e he

theorem sound_registry_step {s : Server} {e : Event} (he : e.enabled s)
    (h : s.registry.Sound) : (e.step s).registry.Sound := by
  rw [registry_step he]
  cases e.action s with
  | none => exact h
  | some a => exact h.step a

/-- The registry's invariants hold of the server in every run. -/
theorem sound_registry {serverSocket : Int} {password : Bytes} {es : List Event}
    (hv : network.Valid (Server.initial serverSocket password) es) :
    (network.run (Server.initial serverSocket password) es).registry.Sound :=
  refinement.invariant (J := Registry.Sound) (fun _ a _ h ↦ h.step a) hv
    (Registry.sound_empty password)

end IrcServer
