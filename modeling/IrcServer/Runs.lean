import IrcServer.Effects
import IrcServer.Input

/-!
# Runs

What an event does to one client (`step_client`), the invariants of all runs that the
rest of the development takes for granted (`Ordinary.run`), the induction rule for one
connection (`connection_induct`), and the proof that `acceptClient`, `receiveData`,
`clearClient` and `pollOut` are runs.
-/

namespace IrcServer

open Library Commands

/-! ## One client and one line -/

/-- What one line can make of the client stored under `d`. -/
inductive Change (s : Server) (fd : Int) (cmd : Parser) (d : Int) : (Client → Client) → Prop where
  | told (ms : List Reply) (hms : ∀ m ∈ ms, m.isWelcome = false) :
      Change s fd cmd d (·.appendAll ms)
  | marked (hd : d = fd) (m : Reply) (hm : m.isWelcome = false) :
      Change s fd cmd d fun c ↦ (c.appendToWriteBuffer m).setShouldDisconnect true
  | authenticated (hd : d = fd) (h : Authenticates s fd cmd) :
      Change s fd cmd d (·.setAuthenticated true)
  | renamed (hd : d = fd) (n : Bytes) (h : Renames s fd cmd n) : Change s fd cmd d (·.renamed n)
  | introduced (hd : d = fd) (u r : Bytes) (h : Introduces s fd cmd u r) :
      Change s fd cmd d (·.introduced u r)

/-- The line does nothing to the client. -/
theorem Change.none {s : Server} {fd d : Int} {cmd : Parser} : Change s fd cmd d id := by
  have h : (fun c : Client ↦ c.appendAll []) = id := rfl
  exact h ▸ Change.told [] (by simp)

/-- A write under the sender's descriptor, seen from every client. -/
theorem Change.exists_of_modify {s : Server} {fd : Int} {cmd : Parser} {f : Client → Client}
    (hf : Change s fd cmd fd f) (d : Int) : ∃ g, Change s fd cmd d g ∧
      (s.modify fd f).clients.lookup d = (s.clients.lookup d).map g := by
  by_cases hd : d = fd
  · subst hd
    exact ⟨f, hf, Server.lookup_modify_self s d f⟩
  · exact ⟨id, .none, by rw [Server.lookup_modify_of_ne s fd f hd, Option.map_id, id]⟩

theorem LineEffect.lookup {s s' : Server} {fd : Int} {cmd : Parser} (h : LineEffect s fd cmd s')
    (d : Int) : ∃ f, Change s fd cmd d f ∧ s'.clients.lookup d = (s.clients.lookup d).map f := by
  cases h with
  | silent _ => exact ⟨id, .none, by rw [Option.map_id, id]⟩
  | answered m _ hm =>
      obtain ⟨ms, hms, hl⟩ := (Talks.reply s fd hm).clients d
      exact ⟨_, .told ms hms, hl⟩
  | marked m _ hm =>
      rw [Server.reply, Server.modify_modify]
      exact Change.exists_of_modify (.marked rfl m hm) d
  | authenticated h => exact Change.exists_of_modify (.authenticated rfl h) d
  | renamed n h => exact Change.exists_of_modify (.renamed rfl n h) d
  | introduced u r h => exact Change.exists_of_modify (.introduced rfl u r h) d
  | forwarded t x m h =>
      obtain ⟨ms, hms, hl⟩ := (Talks.reply s t (m := .privMsg (s.client fd).nickname
        (s.client fd).username (s.client fd).hostname x m) rfl).clients d
      exact ⟨_, .told ms hms, hl⟩
  | announced _ _ h _ =>
      obtain ⟨ms, hms, hl⟩ := h.clients d
      exact ⟨_, .told ms hms, hl⟩

section Change

variable {s : Server} {fd d : Int} {cmd : Parser} {f : Client → Client}

/-- No line touches these fields. -/
theorem Change.frame (hf : Change s fd cmd d f) (c : Client) :
    (f c).serial = c.serial ∧ (f c).readBuffer = c.readBuffer ∧ (f c).executed = c.executed ∧
      (f c).hostname = c.hostname ∧ (f c).socketFd = c.socketFd := by
  cases hf with
  | told ms hms => simp [Client.appendAll_eq]
  | marked hd m hm => exact ⟨rfl, rfl, rfl, rfl, rfl⟩
  | authenticated hd h => exact ⟨rfl, rfl, rfl, rfl, rfl⟩
  | renamed hd n h => simp [Client.renamed_eq]
  | introduced hd u r h => simp [Client.introduced_eq]

/-- Texts are only added, to the buffer and to the record of it. -/
theorem Change.appends (hf : Change s fd cmd d f) (c : Client) : ∃ ms : List Reply,
    (f c).written = c.written ++ ms ∧ (f c).writeBuffer = c.writeBuffer ++ ms.flatMap Reply.str := by
  cases hf with
  | told ms hms => exact ⟨ms, by simp [Client.appendAll_eq]⟩
  | marked hd m hm =>
      exact ⟨[m], by simp [Client.appendToWriteBuffer, Client.setShouldDisconnect]⟩
  | authenticated hd h => exact ⟨[], by simp [Client.setAuthenticated]⟩
  | renamed hd n h => exact ⟨c.renameTexts n, by simp [Client.renamed_eq]⟩
  | introduced hd u r h => exact ⟨c.introduceTexts u, by simp [Client.introduced_eq]⟩

/-- The mark stays. -/
theorem Change.shouldDisconnect (hf : Change s fd cmd d f) {c : Client}
    (hc : c.shouldDisconnect = true) : (f c).shouldDisconnect = true := by
  cases hf with
  | told ms hms => simpa [Client.appendAll_eq] using hc
  | marked hd m hm => rfl
  | authenticated hd h => exact hc
  | renamed hd n h => simpa [Client.renamed_eq] using hc
  | introduced hd u r h => simpa [Client.introduced_eq] using hc

/-- Only a line that takes a nickname changes one. -/
theorem Change.nickname (hf : Change s fd cmd d f) (hno : ∀ n, ¬ Renames s fd cmd n) (c : Client) :
    (f c).nickname = c.nickname := by
  cases hf with
  | told ms _ => simp [Client.appendAll_eq]
  | marked | authenticated => rfl
  | renamed _ n h => exact absurd h (hno n)
  | introduced _ u r _ => simp [Client.introduced_eq]

end Change

namespace LineEffect

variable {s s' : Server} {fd : Int} {cmd : Parser}

theorem password (h : LineEffect s fd cmd s') : s'.password = s.password := by
  cases h with
  | announced _ _ h _ => exact h.password
  | _ => rfl

theorem serverSocket (h : LineEffect s fd cmd s') : s'.serverSocket = s.serverSocket := by
  cases h with
  | announced _ _ h _ => exact h.serverSocket
  | _ => rfl

theorem pollfds (h : LineEffect s fd cmd s') : s'.pollfds = s.pollfds := by
  cases h with
  | announced _ _ h _ => exact h.pollfds
  | _ => rfl

theorem nextSerial (h : LineEffect s fd cmd s') : s'.nextSerial = s.nextSerial := by
  cases h with
  | announced _ _ h _ => exact h.nextSerial
  | _ => rfl

theorem mem_clients (h : LineEffect s fd cmd s') {d : Int} : d ∈ s'.clients ↔ d ∈ s.clients := by
  obtain ⟨f, -, hl⟩ := h.lookup d
  rw [← AList.lookup_isSome, ← AList.lookup_isSome, hl, Option.isSome_map]

theorem nickname (h : LineEffect s fd cmd s') (hno : ∀ n, ¬ Renames s fd cmd n) (d : Int) :
    (s'.client d).nickname = (s.client d).nickname := by
  obtain ⟨f, hf, hl⟩ := h.lookup d
  rw [Server.client, hl, Server.client]
  cases s.clients.lookup d with
  | none => rfl
  | some c => exact hf.nickname hno c

/-- Without channels, lines create none. -/
theorem channels (h : LineEffect s fd cmd s') (hs : s.channels = ∅) : s'.channels = ∅ := by
  cases h with
  | announced _ _ _ hne => exact absurd hs hne
  | _ => exact hs

end LineEffect

/-! ## One client and one event -/

/-- The line of a `line` event, parsed. -/
def Server.nextParsed (s : Server) (fd : Int) : Parser := Parser.parse (s.nextCommand fd)

/-- The client `acceptClient` stores. -/
def Client.accepted (fd : Int) (address : InAddr) (serial : Nat) : Client where
  socketFd := fd
  ipAddress := inetNtop address
  hostname := inetNtop address
  serial := serial

/-- What an event can make of a client that stays. -/
inductive Moved (s : Server) (e : Event) (d : Int) (c : Client) : Client → Prop where
  | io (r w : Bytes) (he : ∀ fd, e ≠ .line fd) :
      Moved s e d c { c with readBuffer := r, writeBuffer := w }
  | line (fd : Int) (he : e = .line fd) (f : Client → Client)
      (hf : Change s fd (s.nextParsed fd) d f) :
      Moved s e d c (if d = fd then (f c).takeCommand else f c)

theorem Server.lineEffect (s : Server) (fd : Int) : LineEffect s fd (s.nextParsed fd)
    (processCommand s fd (s.nextParsed fd)) := processCommand_effect s fd (s.nextParsed fd)

@[simp] theorem Server.password_serveLine (s : Server) (fd : Int) :
    (s.serveLine fd).password = s.password := by
  rw [serveLine_eq, password_takeCommand]
  exact (s.lineEffect fd).password

/-- A turn of the loop, seen from one client. -/
theorem lookup_serveLine (s : Server) (fd d : Int) : ∃ f, Change s fd (s.nextParsed fd) d f ∧
    (s.serveLine fd).clients.lookup d =
      (s.clients.lookup d).map fun c ↦ if d = fd then (f c).takeCommand else f c := by
  obtain ⟨f, hf, hl⟩ := (s.lineEffect fd).lookup d
  refine ⟨f, hf, ?_⟩
  rw [Server.serveLine_eq, Server.takeCommand, Server.lookup_modify,
    show Parser.parse (s.nextCommand fd) = s.nextParsed fd from rfl, hl]
  split
  · rw [Option.map_map]
    rfl
  · rfl

/-- After an event, a client has just been accepted, or was there before. -/
theorem step_client {s : Server} {e : Event} {d : Int} {c' : Client} (he : e.enabled s)
    (h : (e.step s).clients.lookup d = some c') :
    (∃ address, e = .accept d address ∧ s.clients.lookup d = none ∧
      c' = Client.accepted d address s.nextSerial) ∨
    ∃ c, s.clients.lookup d = some c ∧ Moved s e d c c' := by
  have hstay (hne : ∀ fd, e ≠ .line fd) (h : s.clients.lookup d = some c') :
      ∃ c, s.clients.lookup d = some c ∧ Moved s e d c c' :=
    ⟨c', h, .io c'.readBuffer c'.writeBuffer hne⟩
  have hio (hne : ∀ fd, e ≠ .line fd) (fd : Int) (r w : Client → Bytes)
      (h : (s.modify fd fun c ↦ { c with readBuffer := r c, writeBuffer := w c }).clients.lookup d =
        some c') : ∃ c, s.clients.lookup d = some c ∧ Moved s e d c c' := by
    by_cases hd : d = fd
    · subst hd
      rw [Server.lookup_modify_self] at h
      obtain ⟨c, hc, rfl⟩ := Option.map_eq_some_iff.mp h
      exact ⟨c, hc, .io _ _ hne⟩
    · rw [Server.lookup_modify_of_ne s fd _ hd] at h
      exact hstay hne h
  cases e with
  | accept fd address =>
      by_cases hd : d = fd
      · subst hd
        refine Or.inl ⟨address, rfl, AList.lookup_eq_none.mpr he.1, ?_⟩
        exact Option.some.inj (h.symm.trans (Server.lookup_insert_self he.1))
      · exact Or.inr (hstay nofun ((Server.lookup_insert_of_ne hd).symm.trans h))
  | receive fd data => exact Or.inr (hio nofun fd (·.readBuffer ++ data) (·.writeBuffer) h)
  | line fd =>
      obtain ⟨f, hf, hl⟩ := lookup_serveLine s fd d
      obtain ⟨c, hc, rfl⟩ := Option.map_eq_some_iff.mp (hl.symm.trans h)
      exact Or.inr ⟨c, hc, .line fd rfl f hf⟩
  | send fd sent => exact Or.inr (hio nofun fd (·.readBuffer) (·.writeBuffer.drop sent) h)
  | close fd =>
      have hne : d ≠ fd := by
        rintro rfl
        exact absurd (h.symm.trans (AList.lookup_erase d s.clients)) (by simp)
      exact Or.inr (hstay nofun ((AList.lookup_erase_ne hne).symm.trans h))
  | rehash clients => exact Or.inr (hstay nofun ((AList.perm_lookup he).symm.trans h))

/-- A client that stays is on the same connection. -/
theorem Moved.serial {s : Server} {e : Event} {d : Int} {c c' : Client} (h : Moved s e d c c') :
    c'.serial = c.serial := by
  cases h with
  | io r w he => rfl
  | line fd he f hf =>
      split
      · rw [Client.takeCommand_eq]
        exact (hf.frame c).1
      · exact (hf.frame c).1

/-- A client that stays keeps its mark. -/
theorem Moved.shouldDisconnect {s : Server} {e : Event} {d : Int} {c c' : Client}
    (h : Moved s e d c c') (hc : c.shouldDisconnect = true) : c'.shouldDisconnect = true := by
  cases h with
  | io r w he => exact hc
  | line fd he f hf =>
      split
      · rw [Client.takeCommand_eq]
        exact hf.shouldDisconnect hc
      · exact hf.shouldDisconnect hc

/-! ## Invariants of all runs -/

/-- What holds of the server in every state of every run. -/
structure Ordinary (s : Server) : Prop where
  /-- No line creates a channel. -/
  channels : s.channels = ∅
  /-- Every client was inserted before the next one will be. -/
  serial : ∀ d c, s.clients.lookup d = some c → c.serial < s.nextSerial

theorem ordinary_initial (serverSocket : Int) (password : Bytes) :
    Ordinary (Server.initial serverSocket password) where
  channels := rfl
  serial _ _ h := by cases h

/-- The number of insertions does not decrease. -/
theorem nextSerial_step (s : Server) (e : Event) : s.nextSerial ≤ (e.step s).nextSerial := by
  cases e with
  | accept fd address =>
      change _ ≤ (s.insert fd _).nextSerial
      unfold Server.insert
      split
      · exact le_refl _
      · exact Nat.le_succ _
  | line fd =>
      change _ ≤ (s.serveLine fd).nextSerial
      rw [Server.serveLine_eq, Server.nextSerial_takeCommand]
      exact (s.lineEffect fd).nextSerial.ge
  | receive | send | close | rehash => exact le_refl _

@[simp] theorem password_step (s : Server) (e : Event) : (e.step s).password = s.password := by
  cases e with
  | accept fd address => exact Server.password_insert s fd _
  | line fd => exact s.password_serveLine fd
  | receive | send | close | rehash => rfl

theorem Ordinary.step {s : Server} (h : Ordinary s) {e : Event} (he : e.enabled s) :
    Ordinary (e.step s) where
  channels := by
    cases e with
    | accept fd address => exact (Server.channels_insert s fd _).trans h.channels
    | line fd =>
        change (s.serveLine fd).channels = ∅
        rw [Server.serveLine_eq, Server.channels_takeCommand]
        exact (s.lineEffect fd).channels h.channels
    | receive | send | close | rehash => exact h.channels
  serial d c' hc' := by
    rcases step_client he hc' with ⟨address, rfl, hnone, rfl⟩ | ⟨c, hc, hm⟩
    · have hn : (Event.step s (.accept d address)).nextSerial = s.nextSerial + 1 :=
        congrArg Server.nextSerial (Server.insert_of_notMem he.1)
      rw [hn]
      exact Nat.lt_succ_self _
    · exact hm.serial ▸ (h.serial d c hc).trans_le (nextSerial_step s e)

section Runs

variable {s : Server} {es : List Event}

theorem Ordinary.run (h : Ordinary s) (hv : network.Valid s es) : Ordinary (network.run s es) :=
  hv.invariant (I := Ordinary) (fun _ _ he hs ↦ hs.step he) h

theorem password_run (s : Server) (es : List Event) :
    (network.run s es).password = s.password := by
  induction es generalizing s with
  | nil => rfl
  | cons e es ih => exact (ih (e.step s)).trans (password_step s e)

/-- A property of single clients that the steps satisfying `Q` keep holds of all clients
at the end of a run all of whose steps satisfy `Q`. -/
theorem client_invariant {P : Client → Prop} {Q : Server → Event → Prop}
    (hnew : ∀ d address n, P (Client.accepted d address n))
    (hstep : ∀ s e d c c', Ordinary s → e.enabled s → Q s e → s.clients.lookup d = some c →
      (e.step s).clients.lookup d = some c' → Moved s e d c c' → P c → P c')
    (hv : network.Valid s es) (hQ : network.Along Q s es) (ho : Ordinary s)
    (hs : ∀ d c, s.clients.lookup d = some c → P c) {d : Int} {c : Client}
    (hc : (network.run s es).clients.lookup d = some c) : P c := by
  have hinv := hv.invariant_along
    (I := fun s ↦ Ordinary s ∧ ∀ d c, s.clients.lookup d = some c → P c) (P := Q)
    (fun s e he hq ⟨ho, hP⟩ ↦ ⟨ho.step he, fun d c' hc' ↦ by
      rcases step_client he hc' with ⟨address, -, -, rfl⟩ | ⟨c, hc, hm⟩
      · exact hnew d address _
      · exact hstep s e d c c' ho he hq hc hc' hm (hP d c hc)⟩) hQ ⟨ho, hs⟩
  exact hinv.2 d c hc

/-- A connection that has ended does not come back. -/
theorem ended_of_run {n : Nat} {d : Int} (hv : network.Valid s es) (hn : n < s.nextSerial)
    (hs : ∀ c, s.clients.lookup d = some c → c.serial ≠ n) :
    ∀ c, (network.run s es).clients.lookup d = some c → c.serial ≠ n := by
  have hinv := hv.invariant
    (I := fun s ↦ n < s.nextSerial ∧ ∀ c, s.clients.lookup d = some c → c.serial ≠ n)
    (fun s e he ⟨hn, hs⟩ ↦ ⟨hn.trans_le (nextSerial_step s e), fun c' hc' ↦ by
      rcases step_client he hc' with ⟨address, -, -, rfl⟩ | ⟨c, hc, hm⟩
      · exact hn.ne'
      · exact hm.serial ▸ hs c hc⟩) ⟨hn, hs⟩
  exact hinv.2

/-- The induction rule for one connection: a property that holds of a client and is kept
by the steps satisfying `Q` holds for as long as the connection lasts. -/
theorem connection_induct {P : Client → Prop} {Q : Server → Event → Prop} {d : Int}
    (hstep : ∀ s e c c', Ordinary s → e.enabled s → Q s e → s.clients.lookup d = some c →
      (e.step s).clients.lookup d = some c' → Moved s e d c c' → P c → P c')
    (hv : network.Valid s es) (hQ : network.Along Q s es) (ho : Ordinary s) {c c' : Client}
    (hc : s.clients.lookup d = some c) (hP : P c)
    (hc' : (network.run s es).clients.lookup d = some c') (hserial : c'.serial = c.serial) :
    P c' := by
  induction es generalizing s c with
  | nil => exact Option.some.inj (hc.symm.trans hc') ▸ hP
  | cons e es ih =>
      have hn : c.serial < (e.step s).nextSerial :=
        (ho.serial d c hc).trans_le (nextSerial_step s e)
      by_cases hstays : ∃ c₁, (e.step s).clients.lookup d = some c₁ ∧ c₁.serial = c.serial
      · obtain ⟨c₁, hc₁, hser⟩ := hstays
        rcases step_client hv.1 hc₁ with ⟨address, -, hnone, -⟩ | ⟨c₀, hc₀, hm⟩
        · exact absurd (hc.symm.trans hnone) (by simp)
        · obtain rfl : c = c₀ := Option.some.inj (hc.symm.trans hc₀)
          exact ih hv.2 hQ.2 (ho.step hv.1) hc₁ (hstep s e c c₁ ho hv.1 hQ.1 hc hc₁ hm hP) hc'
            (hserial.trans hser.symm)
      · refine absurd hserial (ended_of_run hv.2 hn (fun c₁ hc₁ hser ↦ ?_) c' hc')
        exact hstays ⟨c₁, hc₁, hser⟩

end Runs

/-! ## The operations are runs -/

/-- Everything an operation does is a valid run. -/
def Runs (s s' : Server) : Prop := ∃ es, network.Valid s es ∧ s' = network.run s es

theorem Runs.refl (s : Server) : Runs s s := ⟨[], trivial, rfl⟩

theorem Runs.event {s : Server} {e : Event} (he : e.enabled s) : Runs s (e.step s) :=
  ⟨[e], ⟨he, trivial⟩, rfl⟩

theorem Runs.trans {s s' s'' : Server} (h : Runs s s') (h' : Runs s' s'') : Runs s s'' := by
  obtain ⟨es, hes, rfl⟩ := h
  obtain ⟨fs, hfs, rfl⟩ := h'
  exact ⟨es ++ fs, System.along_append.mpr ⟨hes, hfs⟩, (network.run_append s es fs).symm⟩

/-- A turn of the loop, for the client whose turn it is. -/
theorem lookup_serveLine_self {s : Server} {fd : Int} {c : Client}
    (hc : s.clients.lookup fd = some c) : ∃ f, Change s fd (s.nextParsed fd) fd f ∧
      (s.serveLine fd).clients.lookup fd = some (f c).takeCommand := by
  obtain ⟨f, hf, hl⟩ := lookup_serveLine s fd fd
  refine ⟨f, hf, ?_⟩
  rw [hl, hc, Option.map_some, if_pos rfl]

/-- The client whose line is processed stays connected. -/
theorem exists_lookup_serveLine {s : Server} {fd : Int} {c : Client}
    (hc : s.clients.lookup fd = some c) :
    ∃ c', (s.serveLine fd).clients.lookup fd = some c' ∧ c'.serial = c.serial := by
  obtain ⟨f, hf, hl⟩ := lookup_serveLine_self hc
  refine ⟨_, hl, ?_⟩
  rw [Client.takeCommand_eq]
  exact (hf.frame c).1

/-- The loop of `receiveData` ends: it takes one turn for every LF in the buffer. -/
theorem drain_eq_run {n : Nat} {s : Server} {fd : Int} (hfd : fd ∈ s.clients)
    (hn : (s.client fd).readBuffer.count LF ≤ n) :
    ∃ k, network.Valid s (List.replicate k (.line fd)) ∧
      s.drain n fd = network.run s (List.replicate k (.line fd)) ∧
      LF ∉ ((s.drain n fd).client fd).readBuffer := by
  induction n generalizing s with
  | zero => exact ⟨0, trivial, rfl, List.count_eq_zero.mp (Nat.le_zero.mp hn)⟩
  | succ n ih =>
      obtain ⟨c, hc⟩ := UnorderedMap.mem_iff_lookup.mp hfd
      have hclient := Server.client_eq hc
      by_cases hmem : LF ∈ c.readBuffer
      · have hcomplete : (s.client fd).hasCompleteCommand = true :=
          Client.hasCompleteCommand_iff.mpr (hclient ▸ hmem)
        obtain ⟨w, rest, hb, hw⟩ := List.eq_append_cons_of_mem hmem
        obtain ⟨f, hf, hl⟩ := lookup_serveLine_self hc
        have hrest : ((s.serveLine fd).client fd).readBuffer = rest := by
          have hfb : (f c).readBuffer = w ++ LF :: rest := (hf.frame c).2.1.trans hb
          rw [Server.client_eq hl, Client.takeCommand,
            Client.extractCommandFromBuffer_eq hfb hw]
        have hcount : rest.count LF ≤ n := by
          rw [hclient, hb, List.count_append, List.count_cons_self] at hn
          omega
        obtain ⟨k, hv, hrun, hdone⟩ :=
          ih (UnorderedMap.mem_iff_lookup.mpr ⟨_, hl⟩) (hrest ▸ hcount)
        refine ⟨k + 1, ⟨hcomplete, hv⟩, ?_⟩
        rw [Server.drain, if_pos hcomplete]
        exact ⟨hrun, hdone⟩
      · have hcomplete : ¬ (s.client fd).hasCompleteCommand = true := fun h ↦
          hmem (hclient ▸ Client.hasCompleteCommand_iff.mp h)
        rw [Server.drain, if_neg hcomplete]
        exact ⟨0, trivial, rfl, hclient ▸ hmem⟩

/-- `receiveData` does nothing, closes the connection, or receives text and processes some
lines of the client. -/
theorem receiveData_cases {s : Server} {fd : Int} (hfd : fd ∈ s.clients)
    (received : Except Errno Bytes) : s.receiveData fd received = s ∨
      s.receiveData fd received = s.clearClient fd ∨
      ∃ data k, network.Valid s (.receive fd data :: .replicate k (.line fd)) ∧
        s.receiveData fd received = network.run s (.receive fd data :: .replicate k (.line fd)) := by
  unfold Server.receiveData
  split
  · exact Or.inr (Or.inl rfl)
  · rename_i buffer _
    rw [Server.touch_of_mem hfd]
    obtain ⟨k, hv, hrun, -⟩ := drain_eq_run (n := ((s.modify fd
      (·.appendToReadBuffer (cString buffer))).client fd).readBuffer.length)
      ((Server.mem_modify s fd _).mpr hfd) List.count_le_length
    exact Or.inr (Or.inr ⟨cString buffer, k, ⟨hfd, hv⟩, hrun⟩)
  · exact Or.inl rfl
  · exact Or.inl rfl
  · exact Or.inl rfl
  · exact Or.inr (Or.inl rfl)

theorem receiveData_runs {s : Server} {fd : Int} (hfd : fd ∈ s.clients)
    (received : Except Errno Bytes) : Runs s (s.receiveData fd received) := by
  rcases receiveData_cases hfd received with h | h | ⟨data, k, hv, h⟩
  · exact h.symm ▸ .refl s
  · exact h.symm ▸ .event (e := .close fd) hfd
  · exact ⟨_, hv, h⟩

theorem acceptClient_runs {s : Server} {incoming : Incoming}
    (hnew : ∀ fd address, incoming = .connected fd address →
      fd ∉ s.clients ∧ fd ≠ s.serverSocket) : Runs s (s.acceptClient incoming) := by
  cases incoming with
  | connected fd address => exact .event (e := .accept fd address) (hnew fd address rfl)
  | _ => exact .refl s

theorem pollOut_runs {s : Server} {fd sent : Int} (hfd : fd ∈ s.clients)
    (hsent : sent ≤ (s.client fd).writeBuffer.length) : Runs s (s.pollOut fd sent) := by
  unfold Server.pollOut
  rw [Server.touch_of_mem hfd]
  dsimp only
  split
  · have hsend : Runs s (s.modify fd (·.eraseFromWriteBuffer sent.toNat)) :=
      .event (e := .send fd sent.toNat) ⟨hfd, by omega⟩
    split
    · exact hsend.trans (.event (e := .close fd) ((Server.mem_modify s fd _).mpr hfd))
    · exact hsend
  · split
    · exact .event (e := .close fd) hfd
    · exact .refl s

end IrcServer
