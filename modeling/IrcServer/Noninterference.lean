import IrcServer.Dispatch
import IrcServer.Runs

/-!
# Before the password

What a line of a client that is not authenticated does is determined by the password, the
client's own record and the nicknames in use (`processCommand_eq_beforePassword`).  The
nicknames come in because `handleNick` looks for the nickname before it looks whether the
client is authenticated, the other way round than `handleUser`: the answer is 433 or 451.
So what a client is told before it gives the password is the same on two servers exactly
when it asks for no nickname that is in use on one of them only (`sameReplies_iff`).
-/

namespace IrcServer

open Library Commands

namespace Client

/-- What a line makes of a client that is not authenticated. -/
def beforePassword (password : Bytes) (taken : Bytes → Bool) (cmd : Parser) (c : Client) : Client :=
  if cmd.command = lit "PASS" then
    match cmd.params with
    | [] => c.appendToWriteBuffer (.errNeedMoreParams c.nickname cmd.command)
    | p :: _ =>
        if p = password then c.setAuthenticated true
        else (c.appendToWriteBuffer (.errPasswordMismatch c.nickname)).setShouldDisconnect true
  else if cmd.command = lit "NICK" then
    match cmd.params with
    | [] => c.appendToWriteBuffer (.errNeedMoreParams [] cmd.command)
    | n :: _ =>
        if taken n then c.appendToWriteBuffer (.errNickInUse c.nickname n)
        else c.appendToWriteBuffer (.errNotRegistered [])
  else if cmd.command = lit "CAP" then c
  else c.appendToWriteBuffer (.errNotRegistered c.nickname)

end Client

section Line

variable {s : Server} {fd : Int} {c : Client} {cmd : Parser}

theorem PassExit.eq_beforePassword {s' : Server} (he : PassExit s fd cmd s')
    (h : cmd.command = lit "PASS") (hc : s.clients.lookup fd = some c)
    (hauth : c.isAuthenticated = false) :
    s' = s.modify fd (Client.beforePassword s.password s.isNicknameTaken cmd) := by
  have hclient := Server.client_eq hc
  cases he with
  | needMoreParams hp =>
      rw [hclient]
      exact Server.modify_congr fd hc (by simp [Client.beforePassword, h, hp])
  | alreadyRegistered _ _ _ hauth' =>
      rw [hclient, hauth] at hauth'
      cases hauth'
  | authenticated rest hp =>
      exact Server.modify_congr fd hc (by simp [Client.beforePassword, h, hp])
  | passwordMismatch password rest hp _ hpass =>
      rw [hclient, Server.reply, Server.modify_modify]
      exact Server.modify_congr fd hc (by simp [Client.beforePassword, h, hp, hpass])

theorem NickExit.eq_beforePassword {s' : Server} (he : NickExit s fd cmd s')
    (h : cmd.command = lit "NICK") (hc : s.clients.lookup fd = some c)
    (hauth : c.isAuthenticated = false) :
    s' = s.modify fd (Client.beforePassword s.password s.isNicknameTaken cmd) := by
  have hclient := Server.client_eq hc
  cases he with
  | needMoreParams hp => exact Server.modify_congr fd hc (by simp [Client.beforePassword, h, hp])
  | nickInUse n rest hp htaken =>
      rw [hclient]
      exact Server.modify_congr fd hc (by simp [Client.beforePassword, h, hp, htaken])
  | notRegistered n rest hp htaken =>
      exact Server.modify_congr fd hc (by simp [Client.beforePassword, h, hp, htaken])
  | renamed _ _ _ _ hauth' =>
      rw [hclient, hauth] at hauth'
      cases hauth'

/-- Before the password, a line reads the password, its sender's record and the nicknames. -/
theorem processCommand_eq_beforePassword (cmd : Parser) (hc : s.clients.lookup fd = some c)
    (hauth : c.isAuthenticated = false) : processCommand s fd cmd =
      s.modify fd (Client.beforePassword s.password s.isNicknameTaken cmd) := by
  have hclient := Server.client_eq hc
  have hreg : (s.client fd).isRegistered = false := by simp [hclient, Client.isRegistered, hauth]
  have hdispatched := processCommand_dispatched s fd cmd
  generalize processCommand s fd cmd = s' at hdispatched
  cases hdispatched with
  | pass h => exact (handlePass_exit s fd cmd).eq_beforePassword h hc hauth
  | nick h => exact (handleNick_exit s fd cmd).eq_beforePassword h hc hauth
  | user h =>
      simp only [handleUser, hclient, hauth, Bool.not_false, if_true]
      exact Server.modify_congr fd hc (by simp [Client.beforePassword, h])
  | cap h =>
      have hid : s.modify fd id = s := by rw [Server.modify, UnorderedMap.modify_id]
      exact hid.symm.trans (Server.modify_congr fd hc (by simp [Client.beforePassword, h]))
  | unregistered h =>
      simp only [openCommands, List.mem_cons, List.not_mem_nil, or_false, not_or] at h
      rw [hclient]
      exact Server.modify_congr fd hc (by simp [Client.beforePassword, h])
  | executed _ _ hreg'
  | thrown _ _ hreg'
  | ping _ hreg'
  | pong _ hreg'
  | quit _ hreg'
  | privMsg _ hreg'
  | unknown _ hreg'
  | ignored _ hreg' =>
      exact absurd (hreg.symm.trans hreg') Bool.false_ne_true

@[simp] theorem Client.nickname_beforePassword (password : Bytes) (taken : Bytes → Bool)
    (cmd : Parser) (c : Client) : (c.beforePassword password taken cmd).nickname = c.nickname := by
  unfold beforePassword
  repeat' split
  all_goals rfl

/-- Nobody's nickname changes. -/
theorem isNicknameTaken_processCommand (cmd : Parser) (hc : s.clients.lookup fd = some c)
    (hauth : c.isAuthenticated = false) :
    (processCommand s fd cmd).isNicknameTaken = s.isNicknameTaken := by
  funext n
  rw [processCommand_eq_beforePassword cmd hc hauth]
  exact UnorderedMap.any_modify (fun c ↦ by simp) fd

end Line

/-! ## Lines of one client -/

/-- The lines of one client, processed one after the other. -/
def Server.submit (s : Server) (fd : Int) (lines : List Bytes) : Server :=
  lines.foldl (fun s line ↦ processCommand s fd (Parser.parse line)) s

/-- The line asks for no nickname that is in use on one of the servers only. -/
def Discreet (s₁ s₂ : Server) (line : Bytes) : Prop :=
  (Parser.parse line).command = lit "NICK" → ∀ n, (Parser.parse line).params.head? = some n →
    s₁.isNicknameTaken n = s₂.isNicknameTaken n

/-- A discreet line makes the same of the sender on both servers. -/
theorem beforePassword_congr {s₁ s₂ : Server} {line : Bytes} (h : Discreet s₁ s₂ line)
    (password : Bytes) (c : Client) (k : Nat) :
    Client.beforePassword password s₂.isNicknameTaken (Parser.parse line) { c with serial := k } =
      { Client.beforePassword password s₁.isNicknameTaken (Parser.parse line) c with
        serial := k } := by
  unfold Client.beforePassword
  by_cases hpass : (Parser.parse line).command = lit "PASS"
  · rw [if_pos hpass, if_pos hpass]
    cases (Parser.parse line).params with
    | nil => rfl
    | cons p rest =>
        dsimp only
        split <;> rfl
  rw [if_neg hpass, if_neg hpass]
  by_cases hnick : (Parser.parse line).command = lit "NICK"
  · rw [if_pos hnick, if_pos hnick]
    cases hp : (Parser.parse line).params with
    | nil => rfl
    | cons n rest =>
        have htaken := h hnick n (by rw [hp]; rfl)
        dsimp only
        rw [htaken]
        split <;> rfl
  rw [if_neg hnick, if_neg hnick]
  split <;> rfl

/-- The answer to a `NICK` before the password tells whether the nickname is in use. -/
theorem writeBuffer_beforePassword {cmd : Parser} {n : Bytes} (hnick : cmd.command = lit "NICK")
    (hn : cmd.params.head? = some n) (password : Bytes) (taken : Bytes → Bool) (c : Client) :
    (c.beforePassword password taken cmd).writeBuffer = c.writeBuffer ++
      (if taken n then Reply.errNickInUse c.nickname n else .errNotRegistered []).str := by
  obtain ⟨rest, hp⟩ := List.head?_eq_some_iff.mp hn
  cases htaken : taken n <;>
    simp [Client.beforePassword, hnick, hp, htaken, Client.appendToWriteBuffer]

/-- The two answers differ, whatever follows. -/
theorem Reply.errNickInUse_append_ne (nick badNick nick' x y : Bytes) :
    (errNickInUse nick badNick).str ++ x ≠ (errNotRegistered nick').str ++ y := by
  intro h
  simp only [str, header, List.append_assoc] at h
  have hcode := List.append_cancel_left (List.append_cancel_left h)
  exact absurd (List.append_inj_left hcode rfl) (by decide)

section Submit

variable {s₁ s₂ s : Server} {fd : Int} {c : Client}

/-- Lines only add to the buffer. -/
theorem writeBuffer_submit (hc : s.clients.lookup fd = some c) (lines : List Bytes) :
    ∃ w, ((s.submit fd lines).client fd).writeBuffer = c.writeBuffer ++ w := by
  induction lines generalizing s c with
  | nil => exact ⟨[], by rw [List.append_nil, ← Server.client_eq hc]; rfl⟩
  | cons line lines ih =>
      obtain ⟨f, hf, hl⟩ := (processCommand_effect s fd (Parser.parse line)).lookup fd
      obtain ⟨ms, -, hw⟩ := hf.appends c
      obtain ⟨w, hrest⟩ := ih (hl.trans (congrArg (Option.map f) hc))
      refine ⟨ms.flatMap Reply.str ++ w, ?_⟩
      rw [← List.append_assoc, ← hw]
      exact hrest

/-- A nickname in use on one of the servers only gives the servers away. -/
theorem submit_ne_of_not_discreet {line : Bytes} (hd : ¬ Discreet s₁ s₂ line) {k : Nat}
    (h₁ : s₁.clients.lookup fd = some c) (h₂ : s₂.clients.lookup fd = some { c with serial := k })
    (hauth : c.isAuthenticated = false) (lines : List Bytes) :
    ((s₁.submit fd (line :: lines)).client fd).writeBuffer ≠
      ((s₂.submit fd (line :: lines)).client fd).writeBuffer := by
  simp only [Discreet, Classical.not_imp, not_forall] at hd
  obtain ⟨hnick, n, hn, htaken⟩ := hd
  have hl₁ := congrArg (fun s : Server ↦ s.clients.lookup fd)
    (processCommand_eq_beforePassword (Parser.parse line) h₁ hauth)
  have hl₂ := congrArg (fun s : Server ↦ s.clients.lookup fd)
    (processCommand_eq_beforePassword (Parser.parse line) h₂ hauth)
  simp only [Server.lookup_modify_self, h₁, h₂, Option.map_some] at hl₁ hl₂
  obtain ⟨w₁, hw₁⟩ := writeBuffer_submit hl₁ lines
  obtain ⟨w₂, hw₂⟩ := writeBuffer_submit hl₂ lines
  intro heq
  have hbuffers := (hw₁.symm.trans heq).trans hw₂
  rw [writeBuffer_beforePassword hnick hn, writeBuffer_beforePassword hnick hn,
    List.append_assoc, List.append_assoc] at hbuffers
  have hanswers := List.append_cancel_left hbuffers
  cases htaken₁ : s₁.isNicknameTaken n with
  | true =>
      have htaken₂ : s₂.isNicknameTaken n = false := by
        rw [← Bool.not_eq_true, ← htaken₁]
        exact fun h ↦ htaken h.symm
      simp only [htaken₁, htaken₂, if_true, Bool.false_eq_true, if_false] at hanswers
      exact Reply.errNickInUse_append_ne _ _ _ _ _ hanswers
  | false =>
      have htaken₂ : s₂.isNicknameTaken n = true := by
        rw [← Bool.not_eq_false, ← htaken₁]
        exact fun h ↦ htaken h.symm
      simp only [htaken₁, htaken₂, if_true, Bool.false_eq_true, if_false] at hanswers
      exact Reply.errNickInUse_append_ne _ _ _ _ _ hanswers.symm

/-- On two servers with the same password and the same client, the lines of the client up
to the one that authenticates it are answered alike exactly when none of them asks for a
nickname that is in use on one of the servers only. -/
theorem sameReplies_iff (hpassword : s₁.password = s₂.password) {k : Nat}
    (h₁ : s₁.clients.lookup fd = some c) (h₂ : s₂.clients.lookup fd = some { c with serial := k })
    {lines : List Bytes} (hauth : ∀ i < lines.length,
      ((s₁.submit fd (lines.take i)).client fd).isAuthenticated = false) :
    ((s₁.submit fd lines).client fd).writeBuffer = ((s₂.submit fd lines).client fd).writeBuffer ↔
      ∀ line ∈ lines, Discreet s₁ s₂ line := by
  induction lines generalizing s₁ s₂ c with
  | nil =>
      refine iff_of_true ?_ (List.forall_mem_nil _)
      change (s₁.client fd).writeBuffer = (s₂.client fd).writeBuffer
      rw [Server.client_eq h₁, Server.client_eq h₂]
  | cons line lines ih =>
      have hfirst : c.isAuthenticated = false :=
        Server.client_eq h₁ ▸ hauth 0 (Nat.succ_pos _)
      by_cases hd : Discreet s₁ s₂ line
      · have hp₁ := processCommand_eq_beforePassword (Parser.parse line) h₁ hfirst
        have hp₂ := processCommand_eq_beforePassword (Parser.parse line) h₂ hfirst
        have hn₁ := isNicknameTaken_processCommand (Parser.parse line) h₁ hfirst
        have hn₂ := isNicknameTaken_processCommand (Parser.parse line) h₂ hfirst
        have hpassword' : (processCommand s₁ fd (Parser.parse line)).password =
            (processCommand s₂ fd (Parser.parse line)).password := by
          rw [hp₁, hp₂]
          exact hpassword
        have hnext := ih hpassword' (by rw [hp₁, Server.lookup_modify_self, h₁, Option.map_some])
          (by rw [hp₂, Server.lookup_modify_self, h₂, Option.map_some, ← hpassword,
            beforePassword_congr hd])
          fun i hi ↦ hauth (i + 1) (Nat.succ_lt_succ hi)
        simp only [Discreet, hn₁, hn₂] at hnext
        rw [List.forall_mem_cons]
        exact hnext.trans (and_iff_right hd).symm
      · exact iff_of_false (submit_ne_of_not_discreet hd h₁ h₂ hfirst lines)
          fun h ↦ hd (h line List.mem_cons_self)

end Submit

/-- A client alone on a server, and on one where somebody is called `bob`, asks for a
nickname that is free on both. -/
theorem sameReplies_iff_run :
    let s₁ := network.run (Server.initial 3 (lit "pw")) [.accept 4 ⟨127, 0, 0, 1⟩]
    let s₂ := network.run (Server.initial 3 (lit "pw")) [.accept 5 ⟨127, 0, 0, 1⟩,
      .receive 5 (lit "PASS pw\nNICK bob\n"), .line 5, .line 5, .accept 4 ⟨127, 0, 0, 1⟩]
    ((s₁.submit 4 [lit "NICK ann", lit "PASS pw"]).client 4).writeBuffer =
        ((s₂.submit 4 [lit "NICK ann", lit "PASS pw"]).client 4).writeBuffer ↔
      ∀ line ∈ [lit "NICK ann", lit "PASS pw"], Discreet s₁ s₂ line :=
  sameReplies_iff (c := .accepted 4 ⟨127, 0, 0, 1⟩ 0) (k := 1) (by decide +kernel)
    (by decide +kernel) (by decide +kernel) (by decide +kernel)

/-- It asks for `bob`. -/
theorem not_sameReplies :
    let s₁ := network.run (Server.initial 3 (lit "pw")) [.accept 4 ⟨127, 0, 0, 1⟩]
    let s₂ := network.run (Server.initial 3 (lit "pw")) [.accept 5 ⟨127, 0, 0, 1⟩,
      .receive 5 (lit "PASS pw\nNICK bob\n"), .line 5, .line 5, .accept 4 ⟨127, 0, 0, 1⟩]
    s₁.password = s₂.password ∧
      s₁.clients.lookup 4 = some (.accepted 4 ⟨127, 0, 0, 1⟩ 0) ∧
      s₂.clients.lookup 4 = some (.accepted 4 ⟨127, 0, 0, 1⟩ 1) ∧
      (s₁.client 4).isAuthenticated = false ∧
      ((s₁.submit 4 [lit "NICK bob"]).client 4).writeBuffer ≠
        ((s₂.submit 4 [lit "NICK bob"]).client 4).writeBuffer := by
  refine ⟨?_, ?_, ?_, ?_, ?_⟩ <;> decide +kernel

end IrcServer
