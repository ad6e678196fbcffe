import IrcServer.Delivery
import IrcServer.Stream
import IrcServer.Library.History

/-!
# What is read

Every chunk `recv` returns is filed under the connection it came on (`PollLoop.heard`).  The
server reads a chunk as a C string, up to its first NUL.  In every state of the poll loop the
lines processed for a client are those of all that it has read on its connection, and its
read buffer is what follows the last LF: whatever is received on other connections in
between, and however often the descriptor was used before.
-/

namespace IrcServer

open Library

namespace PollLoop

/-- The bytes `recv` returns in a step, if there are any, and the client they come from. -/
def feed (σ : PollLoop) (e : PollEvent) : Option (Int × Bytes) :=
  match e, σ.phase with
  | .read _ (.ok chunk), .read i =>
      match σ.server.pollfds[i]? with
      | none => none
      | some p =>
          if p.pollIn && p.fd ≠ σ.server.serverSocket && !chunk.isEmpty then some (p.fd, chunk)
          else none
  | _, _ => none

/-- The same, filed under the connection. -/
def heard (σ : PollLoop) (e : PollEvent) : List (Nat × Bytes) :=
  (σ.feed e).toList.map fun x ↦ ((σ.server.client x.1).serial, x.2)

theorem heard_of_none {σ : PollLoop} {e : PollEvent} (h : σ.feed e = none) : σ.heard e = [] := by
  rw [heard, h, Option.toList_none, List.map_nil]

theorem heard_of_some {σ : PollLoop} {e : PollEvent} {fd : Int} {chunk : Bytes}
    (h : σ.feed e = some (fd, chunk)) {c : Client} (hc : σ.server.clients.lookup fd = some c) :
    σ.heard e = [(c.serial, chunk)] := by
  rw [heard, h, Option.toList_some, List.map_singleton, Server.client_eq hc]

end PollLoop

/-- The bytes of the chunks, each up to its first NUL. -/
def stream (serial : Nat) (record : List (Nat × Bytes)) : Bytes :=
  (under serial record).flatMap cString

@[simp] theorem stream_append (serial : Nat) (l m : List (Nat × Bytes)) :
    stream serial (l ++ m) = stream serial l ++ stream serial m := by
  rw [stream, under_append, List.flatMap_append, stream, stream]

@[simp] theorem stream_nil (serial : Nat) : stream serial [] = [] := rfl

theorem stream_singleton_self (serial : Nat) (chunk : Bytes) :
    stream serial [(serial, chunk)] = cString chunk := by
  rw [stream, under_singleton_self, List.flatMap_singleton]

theorem stream_of_forall_ne {serial : Nat} {l : List (Nat × Bytes)}
    (h : ∀ e ∈ l, e.1 ≠ serial) : stream serial l = [] := by
  rw [stream, under_of_forall_ne h, List.flatMap_nil]

/-- A client has read a stream: its lines, and what follows the last LF. -/
structure Client.HasRead (c : Client) (text : Bytes) : Prop where
  executed : c.executed = lines LF CR text
  readBuffer : c.readBuffer = unfinished LF text

namespace Client.HasRead

variable {c c' : Client} {text : Bytes}

theorem of_eq (h : c.HasRead text) (hexec : c'.executed = c.executed)
    (hbuf : c'.readBuffer = c.readBuffer) : c'.HasRead text :=
  ⟨hexec.trans h.executed, hbuf.trans h.readBuffer⟩

/-- More of the stream is read. -/
theorem append (h : c.HasRead text) {data : Bytes}
    (hexec : c'.executed = c.executed ++ lines LF CR (c.readBuffer ++ data))
    (hbuf : c'.readBuffer = unfinished LF (c.readBuffer ++ data)) : c'.HasRead (text ++ data) where
  executed := by rw [hexec, h.executed, h.readBuffer, ← lines_append]
  readBuffer := by rw [hbuf, h.readBuffer, ← unfinished_append]

end Client.HasRead

/-! ## One step -/

/-- A client, but for what is to be sent to it. -/
def Client.unsent (c : Client) : Client := { c with writeBuffer := [] }

theorem Client.eq_of_unsent {c c' : Client} (h : c'.unsent = c.unsent) :
    c'.serial = c.serial ∧ c'.executed = c.executed ∧ c'.readBuffer = c.readBuffer ∧
      c'.written = c.written := by
  have hserial := congrArg Client.serial h
  have hexec := congrArg Client.executed h
  have hbuf := congrArg Client.readBuffer h
  have hwritten := congrArg Client.written h
  exact ⟨hserial, hexec, hbuf, hwritten⟩

/-- Nobody is read: a client that is there afterwards was there before and is the same, but
for what is to be sent, or it has just been accepted. -/
structure Quiet (σ : PollLoop) (s' : Server) : Prop where
  channels : s'.channels = σ.server.channels
  clients : ∀ d c', s'.clients.lookup d = some c' →
    (∃ c, σ.server.clients.lookup d = some c ∧ c'.unsent = c.unsent) ∨
    ∃ address, c' = .accepted d address σ.server.nextSerial

theorem Quiet.of_lookup {σ : PollLoop} {s' : Server} (hchan : s'.channels = σ.server.channels)
    (h : ∀ d c', s'.clients.lookup d = some c' → σ.server.clients.lookup d = some c') :
    Quiet σ s' := ⟨hchan, fun d c' hc' ↦ Or.inl ⟨c', h d c' hc', rfl⟩⟩

/-- A step reads one client, or nobody. -/
inductive Fetches (σ : PollLoop) (e : PollEvent) (s' : Server) : Prop where
  | quiet (hfeed : σ.feed e = none) (h : Quiet σ s')
  | read (fd : Int) (chunk : Bytes) (hfeed : σ.feed e = some (fd, chunk)) (hne : chunk ≠ [])
      (hfd : fd ∈ σ.server.clients) (h : s' = σ.server.receiveData fd (.ok chunk))

section Step

variable {σ : PollLoop} {e : PollEvent} {i : Nat}

theorem feed_read (hphase : σ.phase = .read i) (incoming : Incoming)
    (received : Except Errno Bytes) {p : PollFd} (hp : σ.server.pollfds[i]? = some p) :
    σ.feed (.read incoming received) = match received with
      | .ok chunk =>
          if p.pollIn && p.fd ≠ σ.server.serverSocket && !chunk.isEmpty then some (p.fd, chunk)
          else none
      | .error _ => none := by
  unfold PollLoop.feed
  rw [hphase]
  cases received with
  | ok chunk =>
      dsimp only
      rw [hp]
  | error => rfl

theorem readEntry_fetches (h : σ.server.InStep) (hphase : σ.phase = .read i)
    (hi : i < σ.server.pollfds.length) {incoming : Incoming} (hnew : incoming.IsNew σ.server)
    (received : Except Errno Bytes) :
    Fetches σ (.read incoming received) (σ.readEntry i incoming received).server := by
  have hp := List.getElem?_eq_getElem hi
  generalize σ.server.pollfds[i] = p at hp
  have hfeed := feed_read hphase incoming received hp
  have hnone (hoff : (p.pollIn && p.fd ≠ σ.server.serverSocket) = false) :
      σ.feed (.read incoming received) = none := by
    rw [hfeed]
    cases received with
    | ok chunk => simp only [hoff, Bool.false_and, Bool.false_eq_true, if_false]
    | error => rfl
  unfold PollLoop.readEntry
  rw [hp]
  dsimp only
  split
  · rename_i hin
    have hoff : p.pollIn = false := by simpa using hin
    exact .quiet (hnone (by simp [hoff])) (.of_lookup rfl fun _ _ hc ↦ hc)
  · rename_i hin
    split
    · rename_i hsocket
      refine .quiet (hnone (by simp [hsocket])) ?_
      cases incoming with
      | connected fd address =>
          refine ⟨Server.channels_insert σ.server fd _, fun d c' hc' ↦ ?_⟩
          by_cases hd : d = fd
          · subst hd
            have hclient := hc'.symm.trans (Server.lookup_insert_self hnew.1)
            exact Or.inr ⟨address, Option.some.inj hclient⟩
          · exact Or.inl ⟨c', (Server.lookup_insert_of_ne hd).symm.trans hc', rfl⟩
      | acceptFailed | fcntlFailed | ntopFailed => exact .of_lookup rfl fun _ _ hc ↦ hc
    · rename_i hsocket
      have hfd := h.mem_clients (List.mem_of_getElem? hp) hsocket
      have hserver : (if (σ.server.receiveData p.fd received).pollfds.length <
            σ.server.pollfds.length
          then { σ with server := σ.server.receiveData p.fd received, phase := .read i }
          else { σ with server := σ.server.receiveData p.fd received, phase := .write i } :
          PollLoop).server = σ.server.receiveData p.fd received := by
        split <;> rfl
      rw [hserver]
      have hcleared : Quiet σ (σ.server.clearClient p.fd) :=
        .of_lookup rfl fun _ _ hc ↦ (Server.lookup_of_clearClient hc).2
      rcases received with error | chunk
      · refine .quiet hfeed ?_
        cases error with
        | other => exact hcleared
        | again | wouldBlock | interrupted => exact .of_lookup rfl fun _ _ hc ↦ hc
      · by_cases hne : chunk = []
        · subst hne
          exact .quiet (hfeed.trans (if_neg (by simp))) hcleared
        · have hon : (p.pollIn && p.fd ≠ σ.server.serverSocket && !chunk.isEmpty) = true := by
            have hin' : p.pollIn = true := by simpa using hin
            simp [hin', hsocket, hne]
          exact .read p.fd chunk (hfeed.trans (if_pos hon)) hne hfd rfl

theorem writeEntry_quiet (h : σ.server.InStep) (sent : Int) :
    Quiet σ (σ.writeEntry i sent).server := by
  unfold PollLoop.writeEntry
  cases hp : σ.server.pollfds[i]? with
  | none => exact .of_lookup rfl fun _ _ hc ↦ hc
  | some p =>
      dsimp only
      split
      · rename_i hout
        have hsocket : p.fd ≠ σ.server.serverSocket := by
          simpa using (Bool.and_eq_true_iff.mp hout).2
        have hfd := h.mem_clients (List.mem_of_getElem? hp) hsocket
        have hflush : Quiet σ (σ.server.flush p.fd sent) := by
          rw [Server.flush_eq hfd]
          refine ⟨rfl, fun d c' hc' ↦ ?_⟩
          obtain ⟨c, hc, ⟨-, rfl⟩ | ⟨-, rfl⟩⟩ := Server.exists_of_lookup_modify hc'
          · exact Or.inl ⟨c, hc, rfl⟩
          · exact Or.inl ⟨c', hc, rfl⟩
        split
        · exact ⟨hflush.channels, fun d c' hc' ↦
            hflush.clients d c' (Server.lookup_of_clearClient hc').2⟩
        · exact hflush
      · exact .of_lookup rfl fun _ _ hc ↦ hc

/-- What a step of the loop does to the clients, as far as they are not written to. -/
theorem step_fetches (h : σ.server.InStep) (he : σ.enabled e) :
    Fetches σ e (σ.step e).server := by
  obtain ⟨s, phase, taken⟩ := σ
  cases e with
  | prepare =>
      cases phase with
      | prepare i =>
          refine .quiet rfl ?_
          change Quiet _ (s.prepareEntry i)
          rw [Server.InStep.prepareEntry_eq h (List.getElem?_eq_getElem he)]
          exact .of_lookup rfl fun _ _ hc ↦ hc
      | read | write => exact he.elim
  | poll revents =>
      cases phase with
      | prepare i => exact .quiet rfl (.of_lookup rfl fun _ _ hc ↦ hc)
      | read | write => exact he.elim
  | read incoming received =>
      cases phase with
      | read i => exact readEntry_fetches h rfl he.1 he.2 received
      | prepare | write => exact he.elim
  | write sent =>
      cases phase with
      | write i => exact .quiet rfl (writeEntry_quiet h sent)
      | prepare | read => exact he.elim
  | round =>
      cases phase with
      | read i => exact .quiet rfl (.of_lookup rfl fun _ _ hc ↦ hc)
      | prepare | write => exact he.elim
  | rehash clients =>
      refine .quiet ?_ (.of_lookup rfl fun _ _ hc ↦ (AList.perm_lookup he).symm.trans hc)
      cases phase <;> rfl

end Step

/-! ## What one chunk adds -/

namespace Server

variable {s : Server} {fd : Int}

/-- A line of one client, and another client. -/
theorem lookup_process_of_ne {d : Int} (hd : d ≠ fd) (line : Bytes) {c' : Client}
    (hc' : (process fd s line).clients.lookup d = some c') :
    ∃ c, s.clients.lookup d = some c ∧ c'.serial = c.serial ∧ c'.executed = c.executed ∧
      c'.readBuffer = c.readBuffer := by
  rw [process, intake, lookup_modify_of_ne _ _ _ hd] at hc'
  obtain ⟨f, hf, hl⟩ := (processCommand_effect s fd (Parser.parse line)).lookup d
  rw [hl] at hc'
  obtain ⟨c, hc, rfl⟩ := Option.map_eq_some_iff.mp hc'
  obtain ⟨hserial, hbuf, hexec, -⟩ := hf.frame c
  exact ⟨c, hc, hserial, hexec, hbuf⟩

/-- What one client sends is not read for another one. -/
theorem lookup_absorb_of_ne {d : Int} (hd : d ≠ fd) (data : Bytes) {c' : Client}
    (hc' : (s.absorb fd data).clients.lookup d = some c') :
    ∃ c, s.clients.lookup d = some c ∧ c'.serial = c.serial ∧ c'.executed = c.executed ∧
      c'.readBuffer = c.readBuffer := by
  rw [absorb, setBuffer, intake, lookup_modify_of_ne _ _ _ hd] at hc'
  generalize lines LF CR ((s.client fd).readBuffer ++ data) = ls at hc'
  induction ls generalizing s with
  | nil => exact ⟨c', hc', rfl, rfl, rfl⟩
  | cons l ls ih =>
      obtain ⟨c, hc, hserial, hexec, hbuf⟩ := ih hc'
      obtain ⟨c₀, hc₀, hserial₀, hexec₀, hbuf₀⟩ := lookup_process_of_ne hd l hc
      exact ⟨c₀, hc₀, hserial.trans hserial₀, hexec.trans hexec₀, hbuf.trans hbuf₀⟩

theorem serial_process {c c' : Client} (hc : s.clients.lookup fd = some c) (line : Bytes)
    (hc' : (process fd s line).clients.lookup fd = some c') : c'.serial = c.serial := by
  rw [process, intake, lookup_modify_self] at hc'
  obtain ⟨f, hf, hl⟩ := (processCommand_effect s fd (Parser.parse line)).lookup fd
  rw [hl, hc] at hc'
  rw [← Option.some.inj hc']
  exact (hf.frame c).1

theorem serial_foldl_process {c c' : Client} (hc : s.clients.lookup fd = some c)
    (ls : List Bytes) (hc' : (ls.foldl (process fd) s).clients.lookup fd = some c') :
    c'.serial = c.serial := by
  induction ls generalizing s c with
  | nil => exact congrArg Client.serial (Option.some.inj (hc'.symm.trans hc))
  | cons l ls ih =>
      obtain ⟨c₁, hc₁, -⟩ := lookup_process hc l
      exact (ih hc₁ hc').trans (serial_process hc l hc₁)

/-- What a client sends is read for it, on the same connection. -/
theorem lookup_absorb_self {c : Client} (hc : s.clients.lookup fd = some c) (data : Bytes) :
    ∃ c', (s.absorb fd data).clients.lookup fd = some c' ∧ c'.serial = c.serial ∧
      c'.readBuffer = unfinished LF (c.readBuffer ++ data) ∧
      c'.executed = c.executed ++ lines LF CR (c.readBuffer ++ data) := by
  obtain ⟨c', hc', hbuf, hexec⟩ := lookup_absorb hc data
  refine ⟨c', hc', ?_, hbuf, hexec⟩
  rw [absorb, setBuffer, intake, lookup_modify_self] at hc'
  obtain ⟨c'', hc'', rfl⟩ := Option.map_eq_some_iff.mp hc'
  exact (serial_foldl_process hc _ hc'' :)

end Server

/-! ## What is observed of lines -/

/-- The lines of a client that is there, processed one after the other. -/
def turns (fd : Int) : System Server Bytes where
  enabled s _ := fd ∈ s.clients
  step := Server.process fd

theorem mem_clients_process {s : Server} {fd d : Int} (line : Bytes) :
    d ∈ (Server.process fd s line).clients ↔ d ∈ s.clients := by
  obtain ⟨f, -, hl⟩ := (processCommand_effect s fd (Parser.parse line)).lookup d
  rw [Server.process, Server.intake, Server.mem_modify, ← AList.lookup_isSome, hl,
    Option.isSome_map, AList.lookup_isSome]

theorem valid_turns {s : Server} {fd : Int} (hfd : fd ∈ s.clients) (ls : List Bytes) :
    (turns fd).Valid s ls := by
  induction ls generalizing s with
  | nil => trivial
  | cons l ls ih => exact ⟨hfd, ih ((mem_clients_process l).mpr hfd)⟩

/-- What is observed of the lines that are processed in a step. -/
def PollLoop.perLine {α : Type*} (observe : Server → Int → Bytes → List α) (σ : PollLoop)
    (e : PollEvent) : List α :=
  match σ.feed e with
  | none => []
  | some (fd, chunk) => (turns fd).record (observe · fd ·) σ.server
      (lines LF CR ((σ.server.client fd).readBuffer ++ cString chunk))

/-! ## Runs -/

/-- What every client has read is what was filed under its connection, and nothing is filed
under a connection to come. -/
structure Inbox (σ : PollLoop) (record : List (Nat × Bytes)) : Prop where
  inStep : σ.server.InStep
  numbered : σ.Numbered
  old : ∀ x ∈ record, x.1 < σ.server.nextSerial
  hasRead : ∀ d c, σ.server.clients.lookup d = some c → c.HasRead (stream c.serial record)

theorem nextSerial_le_step {σ : PollLoop} (h : σ.server.InStep) {e : PollEvent}
    (he : σ.enabled e) : σ.server.nextSerial ≤ (σ.step e).server.nextSerial := by
  cases (step_effect h he).inserts with
  | nothing hserial => exact hserial.ge
  | accepted d address received _ _ hserial => exact hserial ▸ Nat.le_succ _

theorem Inbox.step {σ : PollLoop} {record : List (Nat × Bytes)} (h : Inbox σ record)
    {e : PollEvent} (he : σ.enabled e) : Inbox (σ.step e) (record ++ σ.heard e) := by
  have hle := nextSerial_le_step h.inStep he
  have hinStep := (step_effect h.inStep he).inStep h.inStep
  have hnumbered := h.numbered.step (step_effect h.inStep he)
  have hold : ∀ x ∈ record, x.1 < (σ.step e).server.nextSerial := fun x hx ↦
    (h.old x hx).trans_le hle
  cases step_fetches h.inStep he with
  | quiet hfeed hquiet =>
      rw [PollLoop.heard_of_none hfeed, List.append_nil]
      refine ⟨hinStep, hnumbered, hold, fun d c' hc' ↦ ?_⟩
      rcases hquiet.clients d c' hc' with ⟨c, hc, hsame⟩ | ⟨address, rfl⟩
      · obtain ⟨hserial, hexec, hbuf, -⟩ := Client.eq_of_unsent hsame
        rw [hserial]
        exact (h.hasRead d c hc).of_eq hexec hbuf
      · -- nothing is filed under the number of a new connection
        have hnone : stream σ.server.nextSerial record = [] :=
          stream_of_forall_ne fun x hx ↦ (h.old x hx).ne
        rw [Client.accepted, hnone]
        exact ⟨rfl, rfl⟩
  | read fd chunk hfeed hne hfd heq =>
      obtain ⟨c₀, hc₀⟩ := UnorderedMap.mem_iff_lookup.mp hfd
      rw [PollLoop.heard_of_some hfeed hc₀]
      refine ⟨hinStep, hnumbered, List.forall_mem_append.mpr ⟨hold, ?_⟩, fun d c' hc' ↦ ?_⟩
      · exact List.forall_mem_singleton.mpr ((h.numbered.lt fd c₀ hc₀).trans_le hle)
      · rw [heq, Server.receiveData_eq hc₀ hne] at hc'
        rw [stream_append]
        by_cases hd : d = fd
        · subst hd
          obtain ⟨c, hc, hserial, hbuf, hexec⟩ := Server.lookup_absorb_self hc₀ (cString chunk)
          obtain rfl := Option.some.inj (hc.symm.trans hc')
          rw [hserial, stream_singleton_self]
          exact (h.hasRead d c₀ hc₀).append hexec hbuf
        · obtain ⟨c, hc, hserial, hexec, hbuf⟩ := Server.lookup_absorb_of_ne hd _ hc'
          have hother : c₀.serial ≠ c.serial := fun hsame ↦
            hd (h.numbered.inj d fd c c₀ hc hc₀ hsame.symm)
          rw [hserial, stream_of_forall_ne (List.forall_mem_singleton.mpr hother),
            List.append_nil]
          exact (h.hasRead d c hc).of_eq hexec hbuf

section Run

variable {serverSocket : Int} {password : Bytes} {channels : UnorderedMap Nat Channel}
variable {es : List PollEvent}

theorem inbox_run (hv : pollLoop.Valid (.start serverSocket password channels) es) :
    Inbox (pollLoop.run (.start serverSocket password channels) es)
      (pollLoop.record PollLoop.heard (.start serverSocket password channels) es) :=
  hv.record_invariant (J := Inbox) (fun _ _ _ he h ↦ h.step he)
    ⟨inStep_start serverSocket password channels, numbered_start serverSocket password channels,
      List.forall_mem_nil _, fun _ _ h ↦ nomatch h⟩

/-- In every state that the loop reaches, the lines processed for a client are the lines of
the chunks that `recv` has returned on its connection, each up to its first NUL, and its read
buffer is what follows the last LF of these. -/
theorem executed_eq_lines (hv : pollLoop.Valid (.start serverSocket password channels) es) :
    let σ := pollLoop.run (.start serverSocket password channels) es
    let record := pollLoop.record PollLoop.heard (.start serverSocket password channels) es
    ∀ d c, σ.server.clients.lookup d = some c →
      c.executed = lines LF CR (stream c.serial record) ∧
      c.readBuffer = unfinished LF (stream c.serial record) := by
  intro σ record d c hc
  obtain ⟨hexec, hbuf⟩ := (inbox_run hv).hasRead d c hc
  exact ⟨hexec, hbuf⟩

/-- Two clients send their lines in pieces, in turns; the first is closed, and a third one
gets its descriptor. -/
def interleavedRun : List PollEvent :=
  [.prepare, .poll fun i ↦ (i == 0, false),
    .read (.connected 4 ⟨127, 0, 0, 1⟩) (.ok []), .write 0, .read .acceptFailed (.ok []), .write 0,
    .round, .prepare, .prepare, .poll fun _ ↦ (true, false),
    .read (.connected 5 ⟨127, 0, 0, 2⟩) (.ok []), .write 0,
    .read .acceptFailed (.ok (lit "PASS p")), .write 0, .read .acceptFailed (.ok []), .write 0,
    .round, .prepare, .prepare, .prepare, .poll fun i ↦ (i != 0, false),
    .read .acceptFailed (.ok []), .write 0, .read .acceptFailed (.ok (lit "w\r\nPI")), .write 0,
    .read .acceptFailed (.ok (lit "PING x\n")), .write 0,
    .round, .prepare, .prepare, .prepare, .poll fun i ↦ (i == 1, false),
    .read .acceptFailed (.ok []), .write 0, .read .acceptFailed (.ok []),
    .read .acceptFailed (.ok []), .write 0,
    .round, .prepare, .prepare, .poll fun i ↦ (i == 0, false),
    .read (.connected 4 ⟨127, 0, 0, 3⟩) (.ok []), .write 0, .read .acceptFailed (.ok []), .write 0,
    .read .acceptFailed (.ok []), .write 0,
    .round, .prepare, .prepare, .prepare, .poll fun i ↦ (i == 2, false),
    .read .acceptFailed (.ok []), .write 0, .read .acceptFailed (.ok []), .write 0,
    .read .acceptFailed (.ok (lit "CAP LS\r\nQU")), .write 0]

theorem executed_eq_lines_interleaved :
    let σ := pollLoop.run (.start 3 (lit "pw") ∅) interleavedRun
    let record := pollLoop.record PollLoop.heard (.start 3 (lit "pw") ∅) interleavedRun
    ∀ d c, σ.server.clients.lookup d = some c →
      c.executed = lines LF CR (stream c.serial record) ∧
      c.readBuffer = unfinished LF (stream c.serial record) :=
  executed_eq_lines (by decide +kernel)

end Run

end IrcServer
