import IrcServer.Levels
import IrcServer.Messages
import IrcServer.Library.Interleaving

/-!
# Schedules

Which client is read first, and where its stream is cut, is up to the kernel.  A line
involves the client it comes from and, if it is a `PRIVMSG`, the client that has the
nickname it names.  Lines that involve no client in common commute, unless one of them is a
`NICK`.  Two schedules on which every client sends the same bytes, of each chunk those
before its first NUL, and sees the same lines in the same order therefore leave the server
in the same state (`schedules_agree`).
-/

namespace IrcServer

open Library Commands

/-! ## The buffers apart -/

/-- The client with another read buffer. -/
def Client.buffering (c : Client) (b : Bytes) : Client := { c with readBuffer := b }

namespace Server

/-- The server with other read buffers. -/
def withBuffers (s : Server) (β : Int → Bytes) : Server :=
  { s with clients := s.clients.assign fun d c ↦ c.buffering (β d) }

/-- The read buffers. -/
def buffers (s : Server) (d : Int) : Bytes := (s.client d).readBuffer

theorem withBuffers_buffers (s : Server) : s.withBuffers s.buffers = s := by
  have hself : s.clients.assign (fun d c ↦ c.buffering (s.buffers d)) = s.clients :=
    UnorderedMap.assign_eq_self fun d c hc ↦ by rw [buffers, client_eq hc, Client.buffering]
  rw [withBuffers, hself]

theorem lookup_withBuffers (s : Server) (β : Int → Bytes) (d : Int) :
    (s.withBuffers β).clients.lookup d = (s.clients.lookup d).map (·.buffering (β d)) :=
  UnorderedMap.lookup_assign _ d

/-- A write to one client, and other read buffers. -/
theorem modify_withBuffers {f g : Client → Client} {β γ : Int → Bytes} {fd : Int} (s : Server)
    (hself : ∀ c, f (c.buffering (β fd)) = (g c).buffering (γ fd))
    (hother : ∀ d, d ≠ fd → β d = γ d) :
    (s.withBuffers β).modify fd f = (s.modify fd g).withBuffers γ := by
  simp only [withBuffers, modify, UnorderedMap.modify_eq_assign, UnorderedMap.assign_assign]
  refine congrArg (fun m ↦ { s with clients := m }) (UnorderedMap.assign_congr fun d c _ ↦ ?_)
  by_cases hd : d = fd
  · subst hd
    rw [if_pos rfl, if_pos rfl, hself]
  · rw [if_neg hd, if_neg hd, hother d hd]

theorem unseen_withBuffers (β : Int → Bytes) : Unseen (·.withBuffers β) where
  password _ := rfl
  channels _ := rfl
  dangling _ := rfl
  face s d := by
    rw [lookup_withBuffers, Option.map_map]
    rfl
  isNicknameTaken _ _ := UnorderedMap.any_assign fun _ _ ↦ rfl
  getClientByNick _ _ := UnorderedMap.findFirst_assign fun _ _ ↦ rfl
  modify s d f hf := by
    refine modify_withBuffers s (fun c ↦ ?_) fun _ _ ↦ rfl
    exact hf c fun _ executed ↦ (β d, executed)
  modifyChannel _ _ _ := rfl
  setDangling _ _ := rfl

/-- What is in the buffers does not matter to the processing of a line. -/
theorem process_withBuffers (s : Server) (fd : Int) (line : Bytes) (β : Int → Bytes) :
    process fd (s.withBuffers β) line = (process fd s line).withBuffers β := by
  rw [process, processCommand_unseen (unseen_withBuffers β)]
  exact modify_withBuffers _ (fun _ ↦ rfl) fun _ _ ↦ rfl

/-- Lines of several clients are processed. -/
def processAll (s : Server) (requests : List (Int × Bytes)) : Server :=
  requests.foldl (fun s x ↦ process x.1 s x.2) s

/-- Chunks of several clients are received. -/
def receives (s : Server) (arrivals : List (Int × Bytes)) : Server :=
  arrivals.foldl (fun s x ↦ s.receiveData x.1 (.ok x.2)) s

end Server

/-! ## What arrives -/

/-- The read buffers after an arrival, as far as it is left in them. -/
def bufferedAfter (β : Int → Bytes) (x : Int × Bytes) : Int → Bytes :=
  Function.update β x.1 (unfinished LF (β x.1 ++ cString x.2))

/-- The lines that arrivals complete, with the clients they come from. -/
def requests : (Int → Bytes) → List (Int × Bytes) → List (Int × Bytes)
  | _, [] => []
  | β, x :: rest =>
      (lines LF CR (β x.1 ++ cString x.2)).map (x.1, ·) ++ requests (bufferedAfter β x) rest

/-- What arrivals leave in the read buffers. -/
def leftover (β : Int → Bytes) (arrivals : List (Int × Bytes)) : Int → Bytes :=
  arrivals.foldl bufferedAfter β

namespace Server

variable {s : Server} {fd : Int}

theorem mem_clients_processAll {d : Int} (rs : List (Int × Bytes)) :
    d ∈ (s.processAll rs).clients ↔ d ∈ s.clients := by
  induction rs generalizing s with
  | nil => exact Iff.rfl
  | cons r rs ih => exact ih.trans (mem_clients_process r.2)

theorem processAll_withBuffers (s : Server) (rs : List (Int × Bytes)) (β : Int → Bytes) :
    (s.withBuffers β).processAll rs = (s.processAll rs).withBuffers β := by
  induction rs generalizing s with
  | nil => rfl
  | cons r rs ih =>
      rw [processAll, List.foldl_cons, process_withBuffers]
      exact ih (process r.1 s r.2)

/-- One chunk: its lines are processed, and the rest is left in the buffer. -/
theorem receiveData_withBuffers (hfd : fd ∈ s.clients) (β : Int → Bytes) {chunk : Bytes}
    (hne : chunk ≠ []) : (s.withBuffers β).receiveData fd (.ok chunk) =
      (s.processAll ((lines LF CR (β fd ++ cString chunk)).map (fd, ·))).withBuffers
        (bufferedAfter β (fd, chunk)) := by
  obtain ⟨c, hc⟩ := UnorderedMap.mem_iff_lookup.mp hfd
  have hc' : (s.withBuffers β).clients.lookup fd = some (c.buffering (β fd)) := by
    rw [lookup_withBuffers, hc, Option.map_some]
  have hfold (ls : List Bytes) (t : Server) :
      ls.foldl (process fd) t = t.processAll (ls.map (fd, ·)) := by
    rw [processAll, List.foldl_map]
  have hbuf : ((s.withBuffers β).client fd).readBuffer = β fd := by
    rw [client_eq hc']
    rfl
  rw [receiveData_eq hc' hne, absorb, hbuf, hfold, processAll_withBuffers]
  have hmodify (t : Server) : t.modify fd id = t := by rw [modify, UnorderedMap.modify_id]
  rw [setBuffer, intake, modify_withBuffers (g := id) (γ := bufferedAfter β (fd, chunk)), hmodify]
  · intro c
    simp [Client.intake, Client.buffering, bufferedAfter]
  · intro d hd
    exact (Function.update_of_ne hd _ β).symm

/-- Chunks of several clients: the lines they complete are processed in the order in which
they are completed. -/
theorem receives_withBuffers {arrivals : List (Int × Bytes)}
    (h : ∀ x ∈ arrivals, x.1 ∈ s.clients ∧ x.2 ≠ []) (β : Int → Bytes) :
    (s.withBuffers β).receives arrivals =
      (s.processAll (requests β arrivals)).withBuffers (leftover β arrivals) := by
  induction arrivals generalizing s β with
  | nil => rfl
  | cons x arrivals ih =>
      obtain ⟨⟨hfd, hne⟩, hrest⟩ := List.forall_mem_cons.mp h
      rw [receives, List.foldl_cons, receiveData_withBuffers hfd β hne]
      have hstay : ∀ y ∈ arrivals, y.1 ∈ (s.processAll
          ((lines LF CR (β x.1 ++ cString x.2)).map (x.1, ·))).clients ∧ y.2 ≠ [] := fun y hy ↦
        ⟨(mem_clients_processAll _).mpr (hrest y hy).1, (hrest y hy).2⟩
      refine (ih hstay (bufferedAfter β x)).trans ?_
      rw [requests, processAll, processAll, processAll, List.foldl_append]
      rfl

theorem receives_eq {arrivals : List (Int × Bytes)}
    (h : ∀ x ∈ arrivals, x.1 ∈ s.clients ∧ x.2 ≠ []) : s.receives arrivals =
      (s.processAll (requests s.buffers arrivals)).withBuffers (leftover s.buffers arrivals) := by
  have hall := receives_withBuffers h s.buffers
  rwa [withBuffers_buffers] at hall

end Server

/-- The bytes a client sends, each chunk up to its first NUL. -/
def bytesFrom (d : Int) (arrivals : List (Int × Bytes)) : Bytes :=
  (under d arrivals).flatMap cString

theorem notMem_bufferedAfter {β : Int → Bytes} (hβ : ∀ d, LF ∉ β d) (x : Int × Bytes) (d : Int) :
    LF ∉ bufferedAfter β x d := by
  by_cases hd : d = x.1
  · rw [bufferedAfter, hd, Function.update_self]
    exact notMem_unfinished LF _
  · rw [bufferedAfter, Function.update_of_ne hd]
    exact hβ d

theorem leftover_eq {β : Int → Bytes} (hβ : ∀ d, LF ∉ β d) (arrivals : List (Int × Bytes))
    (d : Int) : leftover β arrivals d = unfinished LF (β d ++ bytesFrom d arrivals) := by
  induction arrivals generalizing β with
  | nil =>
      change β d = unfinished LF (β d ++ [])
      rw [List.append_nil, unfinished_of_notMem (hβ d)]
  | cons x arrivals ih =>
      refine (ih (notMem_bufferedAfter hβ x)).trans ?_
      by_cases hd : x.1 = d
      · subst hd
        have hfrom : bytesFrom x.1 (x :: arrivals) = cString x.2 ++ bytesFrom x.1 arrivals := by
          simp [bytesFrom, under]
        rw [bufferedAfter, Function.update_self, ← unfinished_append, hfrom, List.append_assoc]
      · have hfrom : bytesFrom d (x :: arrivals) = bytesFrom d arrivals := by
          simp [bytesFrom, under, hd]
        rw [bufferedAfter, Function.update_of_ne (Ne.symm hd), hfrom]

/-! ## Lines with a client in common -/

/-- The clients a line involves: its sender, and the client that a `PRIVMSG` is addressed to. -/
def Server.parties (s : Server) (x : Int × Bytes) : List Int :=
  let cmd := Parser.parse x.2
  x.1 :: if cmd.command = lit "PRIVMSG" then (cmd.params.head?.bind s.getClientByNick).toList
    else []

/-- What a line can depend on, on a server without channels: its sender, the password, and
who has which nickname. -/
structure SameView (fd : Int) (s t : Server) : Prop where
  left : s.channels = ∅
  right : t.channels = ∅
  password : t.password = s.password
  lookup : t.clients.lookup fd = s.clients.lookup fd
  getClientByNick : ∀ n ≠ [], t.getClientByNick n = s.getClientByNick n

/-- The same is written to the same client, and nobody's nickname. -/
def Alike (d : Int) (s t s' t' : Server) : Prop :=
  ∃ f : Client → Client, (∀ c, (f c).nickname = c.nickname) ∧ s' = s.modify d f ∧
    t' = t.modify d f

namespace SameView

variable {fd : Int} {s t : Server} (h : SameView fd s t)

include h

theorem client : t.client fd = s.client fd := by rw [Server.client, Server.client, h.lookup]

theorem client_modify (f : Client → Client) :
    (t.modify fd f).client fd = (s.modify fd f).client fd := by
  simp only [Server.client, Server.lookup_modify_self, h.lookup]

end SameView

namespace Alike

variable {d : Int} {s t : Server}

theorem refl (d : Int) (s t : Server) : Alike d s t s t :=
  ⟨id, fun _ ↦ rfl, by rw [Server.modify, UnorderedMap.modify_id],
    by rw [Server.modify, UnorderedMap.modify_id]⟩

theorem modify {f : Client → Client} (hf : ∀ c, (f c).nickname = c.nickname) :
    Alike d s t (s.modify d f) (t.modify d f) := ⟨f, hf, rfl, rfl⟩

theorem modify_modify {f g : Client → Client} (hf : ∀ c, (f c).nickname = c.nickname)
    (hg : ∀ c, (g c).nickname = c.nickname) :
    Alike d s t ((s.modify d f).modify d g) ((t.modify d f).modify d g) :=
  ⟨fun c ↦ g (f c), fun c ↦ (hg (f c)).trans (hf c), s.modify_modify d f g, t.modify_modify d f g⟩

theorem reply (m : Reply) : Alike d s t (s.reply d m) (t.reply d m) := modify fun _ ↦ rfl

theorem ite {p : Prop} [Decidable p] {a b a' b' : Server} (hpos : p → Alike d s t a a')
    (hneg : ¬ p → Alike d s t b b') :
    Alike d s t (if p then a else b) (if p then a' else b') := by
  split
  · exact hpos ‹_›
  · exact hneg ‹_›

end Alike

section Handlers

variable {fd : Int} {s t : Server} (h : SameView fd s t) (cmd : Parser)

include h

theorem handlePass_alike : Alike fd s t (handlePass s fd cmd) (handlePass t fd cmd) := by
  unfold handlePass
  simp only [h.client, h.password]
  split
  · exact .reply _
  · refine .ite (fun _ ↦ .reply _) fun _ ↦ .ite (fun _ ↦ .modify fun _ ↦ rfl) fun _ ↦ ?_
    exact .modify_modify (fun _ ↦ rfl) fun _ ↦ rfl

theorem handleUser_alike : Alike fd s t (handleUser s fd cmd) (handleUser t fd cmd) := by
  unfold handleUser
  simp only [h.client]
  refine .ite (fun _ ↦ .reply _) fun _ ↦ .ite (fun _ ↦ .reply _) fun _ ↦ ?_
  split
  · simp only [h.client_modify]
    refine .ite (fun _ ↦ ?_) fun _ ↦ .modify fun _ ↦ rfl
    exact .modify_modify (fun _ ↦ rfl) fun _ ↦ rfl
  · exact .reply _

theorem handlePing_alike : Alike fd s t (handlePing s fd cmd) (handlePing t fd cmd) := by
  unfold handlePing
  simp only [h.client]
  split
  · exact .reply _
  · exact .reply _

omit h in
theorem handleQuit_alike : Alike fd s t (handleQuit s fd cmd) (handleQuit t fd cmd) :=
  .modify_modify (fun _ ↦ rfl) fun _ ↦ rfl

/-- A `PRIVMSG` is written to its sender or to the client it is addressed to. -/
theorem handlePrivMsg_alike (htarget : ∀ n m rest, cmd.params = n :: m :: rest → n ≠ []) :
    ∃ d, (d = fd ∨ cmd.params.head?.bind s.getClientByNick = some d) ∧
      Alike d s t (handlePrivMsg s fd cmd) (handlePrivMsg t fd cmd) := by
  unfold handlePrivMsg
  simp only [h.client]
  split
  · exact ⟨fd, Or.inl rfl, .reply _⟩
  · exact ⟨fd, Or.inl rfl, .reply _⟩
  · rename_i target message rest hp
    rw [h.getClientByNick target (htarget _ _ _ hp)]
    split
    · exact ⟨fd, Or.inl rfl, .reply _⟩
    · split
      · exact ⟨fd, Or.inl rfl, .reply _⟩
      · cases hd : s.getClientByNick target with
        | none => exact ⟨fd, Or.inl rfl, .reply _⟩
        | some d =>
            refine ⟨d, Or.inr ?_, .reply _⟩
            rw [hp, List.head?_cons, Option.bind_some, hd]

/-- On a server without channels a channel command answers its sender or does nothing. -/
theorem isChannelCommand_alike (command : Bytes) (params : List Bytes) :
    ∃ b s' t', isChannelCommand s fd command params = (b, s') ∧
      isChannelCommand t fd command params = (b, t') ∧ Alike fd s t s' t' ∧
      (b = false → s' = s ∧ t' = t) := by
  have hnone (name : Bytes) {s : Server} (hs : s.channels = ∅) :
      s.channels.findFirst (·.name == name) = none := by
    rw [hs]
    rfl
  unfold isChannelCommand
  cases ChannelCommand.makeCommand command with
  | error e => exact ⟨false, s, t, rfl, rfl, .refl fd s t, fun _ ↦ ⟨rfl, rfl⟩⟩
  | ok cmd =>
      cases cmd with
      | invite | kick | mode | part =>
          exact ⟨true, s, t, rfl, rfl, .refl fd s t, fun h ↦ (nomatch h)⟩
      | join =>
          simp only [ChannelCommand.execute, Join.execute_eq]
          exact ⟨false, s, t, rfl, rfl, .refl fd s t, fun _ ↦ ⟨rfl, rfl⟩⟩
      | topic =>
          refine ⟨true, _, _, rfl, rfl, ?_, fun h ↦ (nomatch h)⟩
          unfold Topic.execute
          cases params with
          | nil =>
              simp only [h.client]
              exact .reply _
          | cons name rest =>
              simp only [h.client, hnone name h.left, hnone name h.right]
              exact .reply _
      | names =>
          refine ⟨true, _, _, rfl, rfl, ?_, fun h ↦ (nomatch h)⟩
          unfold Names.execute
          cases params with
          | nil =>
              simp only [h.client]
              exact .reply _
          | cons name rest =>
              simp only [h.client, hnone name h.left, hnone name h.right]
              exact .reply _

/-- A line that is not a `NICK` is one write, to a client that it involves, and the write
depends on nothing but what the line can depend on. -/
theorem processCommand_alike (hnick : cmd.command ≠ lit "NICK")
    (htarget : ∀ n m rest, cmd.params = n :: m :: rest → n ≠ []) :
    ∃ d, (d = fd ∨ cmd.command = lit "PRIVMSG" ∧
        cmd.params.head?.bind s.getClientByNick = some d) ∧
      Alike d s t (processCommand s fd cmd) (processCommand t fd cmd) := by
  by_cases hmsg : cmd.command = lit "PRIVMSG" ∧ (s.client fd).isRegistered = true
  · obtain ⟨d, hd, halike⟩ := handlePrivMsg_alike h cmd htarget
    refine ⟨d, hd.imp_right fun hd ↦ ⟨hmsg.1, hd⟩, ?_⟩
    rwa [processCommand_privMsg hmsg.1 hmsg.2, processCommand_privMsg hmsg.1 (h.client ▸ hmsg.2)]
  · refine ⟨fd, Or.inl rfl, ?_⟩
    obtain ⟨b, s', t', hs, ht, halike, hfalse⟩ :=
      isChannelCommand_alike h cmd.command cmd.params
    unfold processCommand
    simp only [h.client, hs, ht]
    refine .ite (fun _ ↦ handlePass_alike h cmd) fun _ ↦ ?_
    refine .ite (fun hc ↦ absurd hc hnick) fun _ ↦ ?_
    refine .ite (fun _ ↦ handleUser_alike h cmd) fun _ ↦ ?_
    refine .ite (fun _ ↦ .refl fd s t) fun _ ↦ ?_
    refine .ite (fun _ ↦ .reply _) fun hreg ↦ ?_
    cases b with
    | true => exact halike
    | false =>
        obtain ⟨rfl, rfl⟩ := hfalse rfl
        refine .ite (fun _ ↦ handlePing_alike h cmd) fun _ ↦ ?_
        refine .ite (fun _ ↦ .refl fd _ _) fun _ ↦ ?_
        refine .ite (fun _ ↦ handleQuit_alike cmd) fun _ ↦ ?_
        refine .ite (fun hc ↦ absurd ⟨hc, by simpa using hreg⟩ hmsg) fun _ ↦ ?_
        simp only [h.client]
        exact .ite (fun _ ↦ .reply _) fun _ ↦ .refl fd _ _

end Handlers

/-! ## Lines that commute -/

/-- The line of a request is not a `NICK`. -/
def NamesNobody (x : Int × Bytes) : Prop := (Parser.parse x.2).command ≠ lit "NICK"

instance (x : Int × Bytes) : Decidable (NamesNobody x) := inferInstanceAs (Decidable (_ ≠ _))

/-- There are no channels, and everybody has the nickname it had. -/
structure Settled (s₀ s : Server) : Prop where
  channels : s.channels = ∅
  getClientByNick : ∀ n, s.getClientByNick n = s₀.getClientByNick n

theorem Settled.parties {s₀ s : Server} (h : Settled s₀ s) (x : Int × Bytes) :
    s.parties x = s₀.parties x := by
  have hsame : s.getClientByNick = s₀.getClientByNick := funext h.getClientByNick
  rw [Server.parties, hsame]
  rfl

section Commute

variable {s₀ s t : Server} {fd : Int}

theorem getClientByNick_modify {f : Client → Client} (hf : ∀ c, (f c).nickname = c.nickname)
    (s : Server) (d : Int) (n : Bytes) :
    (s.modify d f).getClientByNick n = s.getClientByNick n := by
  have hsame : ∀ c : Client, ((f c).nickname == n) = (c.nickname == n) := fun c ↦ by rw [hf]
  exact UnorderedMap.findFirst_modify hsame d

theorem SameView.refl (hs : s.channels = ∅) (fd : Int) : SameView fd s s :=
  ⟨hs, hs, rfl, rfl, fun _ _ ↦ rfl⟩

/-- A write to somebody else is not seen. -/
theorem SameView.modify (h : SameView fd s t) {d : Int} (hd : fd ≠ d) {f : Client → Client}
    (hf : ∀ c, (f c).nickname = c.nickname) : SameView fd s (t.modify d f) where
  left := h.left
  right := h.right
  password := h.password
  lookup := (t.lookup_modify_of_ne d f hd).trans h.lookup
  getClientByNick n hn := (getClientByNick_modify hf t d n).trans (h.getClientByNick n hn)

/-- A line that is not a `NICK` is two writes, to clients that it involves. -/
theorem process_alike (h : SameView fd s t) {line : Bytes} (hnick : NamesNobody (fd, line)) :
    ∃ d ∈ s.parties (fd, line), ∃ f g : Client → Client,
      (∀ c, (f c).nickname = c.nickname) ∧ (∀ c, (g c).nickname = c.nickname) ∧
      Server.process fd s line = (s.modify d f).modify fd g ∧
      Server.process fd t line = (t.modify d f).modify fd g := by
  obtain ⟨d, hd, f, hf, hs, ht⟩ := processCommand_alike h (Parser.parse line) hnick
    fun _ _ _ hp ↦ (Parser.isToken_of_params hp).ne_nil
  refine ⟨d, ?_, f, (·.intake fun buf executed ↦ (buf, executed ++ [line])), hf,
    fun _ ↦ rfl, ?_, ?_⟩
  · rw [Server.parties]
    rcases hd with rfl | ⟨hmsg, hd⟩
    · exact List.mem_cons_self
    · exact List.mem_cons_of_mem fd (by simp [hmsg, hd])
  · rw [Server.process, hs]
    rfl
  · rw [Server.process, ht]
    rfl

/-- Lines that are not `NICK`s commute unless they involve a client in common. -/
theorem independent_process (s₀ : Server) : Independent
    (fun s x ↦ Server.process x.1 s x.2) s₀.parties NamesNobody (Settled s₀) where
  keeps s x hx hs := by
    obtain ⟨d, -, f, g, hf, hg, heq, -⟩ := process_alike (.refl hs.channels x.1) hx
    rw [heq]
    refine ⟨hs.channels, fun n ↦ ?_⟩
    rw [getClientByNick_modify hg, getClientByNick_modify hf]
    exact hs.getClientByNick n
  someone x := ⟨x.1, List.mem_cons_self⟩
  comm s x y hx hy hs hdisj := by
    rw [← hs.parties, ← hs.parties] at hdisj
    have hx₁ : x.1 ∈ s.parties x := List.mem_cons_self
    have hy₁ : y.1 ∈ s.parties y := List.mem_cons_self
    have hne {a b : Int} (ha : a ∈ s.parties x) (hb : b ∈ s.parties y) : a ≠ b := fun hab ↦
      hdisj ha (hab ▸ hb)
    have hview (fd : Int) := SameView.refl hs.channels fd
    -- each line where the other has been processed already
    obtain ⟨e, he, f', g', hf', hg', hsy, -⟩ := process_alike (hview y.1) hy
    obtain ⟨d, hd, f, g, hf, hg, hsx, hyx⟩ :=
      process_alike (((hview x.1).modify (hne hx₁ he) hf').modify (hne hx₁ hy₁) hg') hx
    obtain ⟨e₁, he₁, f₁, g₁, hf₁, hg₁, hsy₁, hxy⟩ :=
      process_alike (((hview y.1).modify (hne hd hy₁).symm hf).modify (hne hx₁ hy₁).symm hg) hy
    calc Server.process y.1 (Server.process x.1 s x.2) y.2
        = (((s.modify d f).modify x.1 g).modify e₁ f₁).modify y.1 g₁ := by rw [hsx, hxy]
      _ = (((s.modify e₁ f₁).modify y.1 g₁).modify d f).modify x.1 g := by
          rw [Server.modify_comm _ e₁ g f₁ (hne hx₁ he₁), Server.modify_comm s e₁ f f₁ (hne hd he₁),
            Server.modify_comm _ y.1 g g₁ (hne hx₁ hy₁), Server.modify_comm _ y.1 f g₁ (hne hd hy₁)]
      _ = Server.process x.1 (Server.process y.1 s y.2) x.2 := by rw [hsy, hyx, ← hsy, hsy₁]

end Commute

/-! ## Schedules that agree -/

/-- Two schedules are alike to a client: its chunks, each up to its first NUL, make the same
bytes, and the lines that involve it are the same and come in the same order. -/
structure SameFor (s : Server) (d : Int) (l m : List (Int × Bytes)) : Prop where
  bytes : bytesFrom d l = bytesFrom d m
  lines : seenBy s.parties d (requests s.buffers l) = seenBy s.parties d (requests s.buffers m)

instance (s : Server) (d : Int) (l m : List (Int × Bytes)) : Decidable (SameFor s d l m) :=
  decidable_of_iff (bytesFrom d l = bytesFrom d m ∧
      seenBy s.parties d (requests s.buffers l) = seenBy s.parties d (requests s.buffers m))
    ⟨fun h ↦ ⟨h.1, h.2⟩, fun h ↦ ⟨h.1, h.2⟩⟩

theorem exists_of_mem_requests {β : Int → Bytes} {arrivals : List (Int × Bytes)}
    {x : Int × Bytes} (h : x ∈ requests β arrivals) : ∃ y ∈ arrivals, x.1 = y.1 := by
  induction arrivals generalizing β with
  | nil => exact absurd h List.not_mem_nil
  | cons y arrivals ih =>
      rcases List.mem_append.mp h with h | h
      · obtain ⟨line, -, rfl⟩ := List.mem_map.mp h
        exact ⟨y, List.mem_cons_self, rfl⟩
      · obtain ⟨z, hz, hxz⟩ := ih h
        exact ⟨z, List.mem_cons_of_mem y hz, hxz⟩

namespace Server

variable {s : Server} {l m : List (Int × Bytes)} {d : Int}

/-- The line of a client involves clients. -/
theorem mem_clients_of_mem_parties {x : Int × Bytes} (hx : x.1 ∈ s.clients)
    (hd : d ∈ s.parties x) : d ∈ s.clients := by
  rcases List.mem_cons.mp hd with rfl | hd
  · exact hx
  · split at hd
    · obtain ⟨n, -, hn⟩ := Option.bind_eq_some_iff.mp (Option.mem_toList.mp hd)
      obtain ⟨c, hc, -⟩ := getClientByNick_eq_some hn
      exact UnorderedMap.mem_iff_lookup.mpr ⟨c, hc⟩
    · exact absurd hd List.not_mem_nil

/-- Schedules are alike to those who are not there. -/
theorem unheard (hl : ∀ x ∈ l, x.1 ∈ s.clients ∧ x.2 ≠ []) (hd : d ∉ s.clients) :
    bytesFrom d l = [] ∧ seenBy s.parties d (requests s.buffers l) = [] := by
  constructor
  · have hnone : under d l = [] := under_of_forall_ne fun x hx heq ↦ hd (heq ▸ (hl x hx).1)
    rw [bytesFrom, hnone]
    rfl
  · refine seenBy_eq_nil_iff.mpr fun x hx hparty ↦ hd ?_
    obtain ⟨y, hy, heq⟩ := exists_of_mem_requests hx
    exact mem_clients_of_mem_parties (heq ▸ (hl y hy).1) hparty

theorem receives_congr (hchan : s.channels = ∅) (hbuf : ∀ d, LF ∉ s.buffers d)
    (hl : ∀ x ∈ l, x.1 ∈ s.clients ∧ x.2 ≠ []) (hm : ∀ x ∈ m, x.1 ∈ s.clients ∧ x.2 ≠ [])
    (hnick : ∀ x ∈ requests s.buffers l, NamesNobody x)
    (hsame : ∀ d ∈ s.clients.keys, SameFor s d l m) : s.receives l = s.receives m := by
  have hall (d : Int) : SameFor s d l m := by
    by_cases hd : d ∈ s.clients
    · exact hsame d (AList.mem_keys.mp hd)
    · obtain ⟨hbytes, hlines⟩ := unheard hl hd
      obtain ⟨hbytes', hlines'⟩ := unheard hm hd
      exact ⟨hbytes.trans hbytes'.symm, hlines.trans hlines'.symm⟩
  have hprocessed : s.processAll (requests s.buffers l) = s.processAll (requests s.buffers m) :=
    (independent_process s).foldl_eq ⟨hchan, fun _ ↦ rfl⟩ hnick fun d ↦ (hall d).lines
  have hleft : leftover s.buffers l = leftover s.buffers m := by
    funext d
    rw [leftover_eq hbuf, leftover_eq hbuf, (hall d).bytes]
  rw [receives_eq hl, receives_eq hm, hprocessed, hleft]

end Server

section Run

variable {password : Bytes} {es : List ProcessEvent}

/-- No read buffer of the running process holds a complete line. -/
theorem notMem_buffers (hv : process.Valid (.start password) es)
    (hrun : (process.run (.start password) es).stage.runs = true) (d : Int) :
    LF ∉ (process.run (.start password) es).loop.server.buffers d := by
  obtain ⟨fd, loopEvents, hloop, heq⟩ := looping_run hv hrun
  rw [heq, Server.buffers]
  cases hc : (pollLoop.run (.start fd password ∅) loopEvents).server.clients.lookup d with
  | none =>
      rw [Server.client, hc]
      exact List.not_mem_nil
  | some c =>
      rw [Server.client_eq hc, ((inbox_run hloop).hasRead d c hc).readBuffer]
      exact notMem_unfinished LF _

/-- From any state of the running process, two schedules of what its clients send leave the
server in the same state, if they complete no `NICK` line, the chunks of every client, each up
to its first NUL, make the same bytes, and every client sees the same lines, from it and to it,
in the same order. -/
theorem schedules_agree (hv : process.Valid (.start password) es)
    (hrun : (process.run (.start password) es).stage.runs = true) {l m : List (Int × Bytes)} :
    let s := (process.run (.start password) es).loop.server
    (∀ x ∈ l, x.1 ∈ s.clients ∧ x.2 ≠ []) → (∀ x ∈ m, x.1 ∈ s.clients ∧ x.2 ≠ []) →
    (∀ x ∈ requests s.buffers l, NamesNobody x) →
    (∀ d ∈ s.clients.keys, SameFor s d l m) → s.receives l = s.receives m := by
  intro s hl hm hnick hsame
  exact Server.receives_congr (channels_of_process hv hrun) (notMem_buffers hv hrun) hl hm hnick
    hsame

/-- The rounds of a loop, in a process that listens on descriptor 3. -/
def inRounds (es : List PollEvent) : List ProcessEvent :=
  .init (.listening 3) :: .test ::
    es.flatMap fun e ↦ if e.endsRound then [.loop e, .test] else [.loop e]

/-- Ann and Bob have registered.  Ann sends a line in two pieces, and Bob sends her a message
in between; or he is heard first, and she after him. -/
theorem schedules_agree_greeting :
    let s := (process.run (.start (lit "pw")) (inRounds greetingRun)).loop.server
    s.receives [(4, lit "PING x\r\nPI"), (5, lit "PING y\nPRIVMSG ann :yo\nPA"),
        (4, lit "NG z\n")] =
      s.receives [(5, lit "PING y\n"), (4, lit "PING x\r\n"), (5, lit "PRIVMSG ann :yo\n"),
        (4, lit "PING z\n"), (5, lit "PA")] :=
  schedules_agree (by decide +kernel) (by decide +kernel) (by decide +kernel) (by decide +kernel)
    (by decide +kernel) (by decide +kernel)

end Run

end IrcServer
