import IrcServer.Routing
import IrcServer.Schedules
import IrcServer.Library.Silent

/-!
# The order of the map

The order in which `_clients` is visited may change at any time, and is seen by no client:
without the changes of the order a run of the loop is still a run, and everything but the
order is the same at its end (`order_unseen`).  The one search that takes the first client it
finds looks for a nickname that is not empty, and at most one client has it.
-/

namespace IrcServer

open Library Commands

namespace Server

/-- Without channels, and no two clients have the same nickname. -/
structure Plain (s : Server) : Prop where
  channels : s.channels = ∅
  unique : s.UniqueNicknames

/-- The second server is the first with its clients in another order. -/
inductive Shuffled (s : Server) : Server → Prop where
  | mk (clients : UnorderedMap Int Client) (hperm : clients.entries.Perm s.clients.entries) :
      Shuffled s (s.reordered clients)

namespace Shuffled

variable {s t : Server} (h : Shuffled s t)

theorem refl (s : Server) : Shuffled s s := ⟨s.clients, .refl _⟩

include h

theorem symm : Shuffled t s := by
  obtain ⟨clients, hperm⟩ := h
  exact ⟨s.clients, hperm.symm⟩

theorem trans {u : Server} (h' : Shuffled t u) : Shuffled s u := by
  obtain ⟨clients, hperm⟩ := h
  obtain ⟨clients', hperm'⟩ := h'
  exact ⟨clients', hperm'.trans hperm⟩

theorem perm : t.clients.entries.Perm s.clients.entries := by
  obtain ⟨clients, hperm⟩ := h
  exact hperm

theorem lookup (d : Int) : t.clients.lookup d = s.clients.lookup d := AList.perm_lookup h.perm

theorem client (d : Int) : t.client d = s.client d := by rw [Server.client, Server.client, h.lookup]

theorem mem {d : Int} : d ∈ t.clients ↔ d ∈ s.clients := AList.mem_of_perm h.perm

theorem password : t.password = s.password := by
  obtain ⟨clients, -⟩ := h
  rfl

theorem serverSocket : t.serverSocket = s.serverSocket := by
  obtain ⟨clients, -⟩ := h
  rfl

theorem pollfds : t.pollfds = s.pollfds := by
  obtain ⟨clients, -⟩ := h
  rfl

theorem isNicknameTaken (n : Bytes) : t.isNicknameTaken n = s.isNicknameTaken n :=
  h.perm.any_eq

/-- Where at most one client has a nickname, the order does not matter to the search. -/
theorem getClientByNick (hs : s.UniqueNicknames) {n : Bytes} (hn : n ≠ []) :
    t.getClientByNick n = s.getClientByNick n := by
  refine UnorderedMap.findFirst_eq_of_perm h.perm fun d e c c' hd he hc hc' ↦ ?_
  have hcn : c.nickname = n := beq_iff_eq.mp hc
  have hcn' : c'.nickname = n := beq_iff_eq.mp hc'
  exact hs d e c c' hd he (hcn ▸ hn) (hcn.trans hcn'.symm)

/-- The same is written to the same client. -/
theorem modify (d : Int) (f : Client → Client) : Shuffled (s.modify d f) (t.modify d f) := by
  obtain ⟨clients, hperm⟩ := h
  exact ⟨clients.modify d f, hperm.map _⟩

theorem insert (d : Int) (c : Client) : Shuffled (s.insert d c) (t.insert d c) := by
  have hmem : d ∈ t.clients ↔ d ∈ s.clients := h.mem
  obtain ⟨clients, hperm⟩ := h
  unfold Server.insert
  by_cases hd : d ∈ s.clients
  · rw [if_pos hd, if_pos (hmem.mpr hd)]
    exact ⟨clients, hperm⟩
  · rw [if_neg hd, if_neg fun hmem' ↦ hd (hmem.mp hmem')]
    refine ⟨clients.emplace d { c with serial := s.nextSerial }, ?_⟩
    have hd' : d ∉ clients := fun hmem' ↦ hd (hmem.mp hmem')
    simp only [UnorderedMap.emplace, if_neg hd, if_neg hd']
    exact AList.perm_insert hperm

theorem clearClient (d : Int) : Shuffled (s.clearClient d) (t.clearClient d) := by
  obtain ⟨clients, hperm⟩ := h
  exact ⟨clients.erase d, AList.perm_erase hperm⟩

/-- The same is written to the poll vector. -/
theorem setPollfds (pollfds : List PollFd) :
    Shuffled { s with pollfds := pollfds } { t with pollfds := pollfds } := by
  obtain ⟨clients, hperm⟩ := h
  exact ⟨clients, hperm⟩

end Shuffled

/-! ## Lines -/

namespace Plain

variable {s : Server} (h : Plain s)

include h

/-- A write that leaves the nickname alone. -/
theorem modify {f : Client → Client} (hf : ∀ c, (f c).nickname = c.nickname) (d : Int) :
    Plain (s.modify d f) where
  channels := h.channels
  unique i j a b ha hb hne heq := by
    have hname (k : Int) : ((s.modify d f).clients.lookup k).map Client.nickname =
        (s.clients.lookup k).map Client.nickname := lookup_modify_map hf s d k
    have hfound {k : Int} {c : Client} (hc : (s.modify d f).clients.lookup k = some c) :
        ∃ c', s.clients.lookup k = some c' ∧ c'.nickname = c.nickname :=
      Option.map_eq_some_iff.mp ((hname k).symm.trans (congrArg _ hc))
    obtain ⟨a', ha', hna⟩ := hfound ha
    obtain ⟨b', hb', hnb⟩ := hfound hb
    exact h.unique i j a' b' ha' hb' (hna ▸ hne) (hna.trans (heq.trans hnb.symm))

/-- Somebody takes a nickname that nobody has. -/
theorem rename {f : Client → Client} {n : Bytes} (hf : ∀ c, (f c).nickname = n)
    (hfree : s.isNicknameTaken n = false) (d : Int) : Plain (s.modify d f) where
  channels := h.channels
  unique i j a b ha hb hne heq := by
    have hno := isNicknameTaken_eq_false_iff.mp hfree
    rw [lookup_modify] at ha hb
    split at ha <;> split at hb
    · rename_i hi hj
      exact hi.trans hj.symm
    · obtain ⟨a', -, rfl⟩ := Option.map_eq_some_iff.mp ha
      exact absurd (heq.symm.trans (hf a')) (hno j b hb)
    · obtain ⟨b', -, rfl⟩ := Option.map_eq_some_iff.mp hb
      exact absurd (heq.trans (hf b')) (hno i a ha)
    · exact h.unique i j a b ha hb hne heq

theorem insert (d : Int) {c : Client} (hc : c.nickname = []) : Plain (s.insert d c) where
  channels := (channels_insert s d c).trans h.channels
  unique i j a b ha hb hne heq := by
    by_cases hd : d ∈ s.clients
    · rw [Server.insert, if_pos hd] at ha hb
      exact h.unique i j a b ha hb hne heq
    · have hother {k : Int} {x : Client} (hx : (s.insert d c).clients.lookup k = some x)
          (hname : x.nickname ≠ []) : s.clients.lookup k = some x := by
        by_cases hk : k = d
        · rw [hk, lookup_insert_self hd] at hx
          exact absurd (Option.some.inj hx ▸ hc) hname
        · rwa [lookup_insert_of_ne hk] at hx
      exact h.unique i j a b (hother ha hne) (hother hb (heq ▸ hne)) hne heq

theorem clearClient (d : Int) : Plain (s.clearClient d) where
  channels := h.channels
  unique i j a b ha hb hne heq := by
    have hother {k : Int} {x : Client} (hx : (s.clearClient d).clients.lookup k = some x) :
        s.clients.lookup k = some x := by
      by_cases hk : k = d
      · rw [hk] at hx
        exact absurd ((AList.lookup_erase d s.clients).symm.trans hx) (by simp)
      · exact (AList.lookup_erase_ne hk).symm.trans hx
    exact h.unique i j a b (hother ha) (hother hb) hne heq

end Plain

end Server

/-- Two plain servers with their clients in different orders. -/
structure Twins (s t : Server) : Prop where
  plain : s.Plain
  shuffled : s.Shuffled t

namespace Twins

variable {s t : Server}

theorem ite {p : Prop} [Decidable p] {s' t' : Server} (hpos : p → Twins s t)
    (hneg : ¬ p → Twins s' t') : Twins (if p then s else s') (if p then t else t') := by
  split
  · exact hpos ‹_›
  · exact hneg ‹_›

variable (h : Twins s t)

include h

theorem client (d : Int) : t.client d = s.client d := h.shuffled.client d

theorem modify {f : Client → Client} (hf : ∀ c, (f c).nickname = c.nickname) (d : Int) :
    Twins (s.modify d f) (t.modify d f) := ⟨h.plain.modify hf d, h.shuffled.modify d f⟩

theorem reply (d : Int) (m : Reply) : Twins (s.reply d m) (t.reply d m) :=
  h.modify (f := (·.appendToWriteBuffer m)) (fun _ ↦ rfl) d

theorem touch (d : Int) : Twins (s.touch d) (t.touch d) :=
  ⟨h.plain.insert d rfl, h.shuffled.insert d {}⟩

theorem clearClient (d : Int) : Twins (s.clearClient d) (t.clearClient d) :=
  ⟨h.plain.clearClient d, h.shuffled.clearClient d⟩

theorem setPollfds (pollfds : List PollFd) :
    Twins { s with pollfds := pollfds } { t with pollfds := pollfds } :=
  ⟨⟨h.plain.channels, h.plain.unique⟩, h.shuffled.setPollfds pollfds⟩

theorem sameView (fd : Int) : SameView fd s t where
  left := h.plain.channels
  right := by
    obtain ⟨clients, -⟩ := h.shuffled
    exact h.plain.channels
  password := h.shuffled.password
  lookup := h.shuffled.lookup fd
  getClientByNick _ hn := h.shuffled.getClientByNick h.plain.unique hn

/-! ### Lines -/

theorem handleNick (fd : Int) {cmd : Parser} (hcmd : cmd.command = lit "NICK") :
    Twins (Commands.handleNick s fd cmd) (Commands.handleNick t fd cmd) := by
  by_cases hr : ∃ n, Renames s fd cmd n
  · obtain ⟨n, hr⟩ := hr
    have hr' : Renames t fd cmd n :=
      ⟨hcmd, hr.2.1, (h.shuffled.isNicknameTaken n).trans hr.2.2.1, h.client fd ▸ hr.2.2.2⟩
    rw [handleNick_of_renames hr, handleNick_of_renames hr']
    refine ⟨h.plain.rename (fun c ↦ ?_) hr.2.2.1 fd, h.shuffled.modify fd _⟩
    rw [Client.renamed_eq]
  · unfold Commands.handleNick
    cases hp : cmd.params with
    | nil => exact h.reply fd _
    | cons nickname rest =>
        simp only [h.client, h.shuffled.isNicknameTaken]
        refine .ite (fun _ ↦ h.reply fd _) fun hfree ↦ .ite (fun _ ↦ h.reply fd _) fun hauth ↦ ?_
        exact absurd ⟨nickname, hcmd, by simp [hp], by simpa using hfree, by simpa using hauth⟩ hr

/-- A line does the same to both. -/
theorem processCommand (fd : Int) (line : Bytes) :
    Twins (Commands.processCommand s fd (Parser.parse line))
      (Commands.processCommand t fd (Parser.parse line)) := by
  by_cases hnick : (Parser.parse line).command = lit "NICK"
  · have heq (s : Server) : Commands.processCommand s fd (Parser.parse line) =
        Commands.handleNick s fd (Parser.parse line) := by simp [Commands.processCommand, hnick]
    rw [heq, heq]
    exact h.handleNick fd hnick
  · obtain ⟨d, -, f, hf, hs, ht⟩ := processCommand_alike (h.sameView fd) (Parser.parse line)
      hnick fun _ _ _ hp ↦ (Parser.isToken_of_params hp).ne_nil
    rw [hs, ht]
    exact h.modify hf d

theorem serveLine (fd : Int) : Twins (s.serveLine fd) (t.serveLine fd) := by
  have htake : Twins (s.takeCommand fd) (t.takeCommand fd) := by
    refine h.modify (fun c ↦ ?_) fd
    rw [Client.takeCommand_eq]
    rfl
  have hnext : t.nextCommand fd = s.nextCommand fd := by
    rw [Server.nextCommand, h.client, Server.nextCommand]
  rw [Server.serveLine, Server.serveLine, hnext]
  exact htake.processCommand fd (s.nextCommand fd)

omit h in
theorem drain (n : Nat) (h : Twins s t) (fd : Int) : Twins (s.drain n fd) (t.drain n fd) := by
  induction n generalizing s t with
  | zero => exact h
  | succ n ih =>
      rw [Server.drain, Server.drain, h.client]
      exact .ite (fun _ ↦ ih (h.serveLine fd)) fun _ ↦ h

/-! ### The loop -/

theorem receiveData (fd : Int) (received : Except Errno Bytes) :
    Twins (s.receiveData fd received) (t.receiveData fd received) := by
  unfold Server.receiveData
  split
  · exact h.clearClient fd
  · rename_i buffer _
    have happend := (h.touch fd).modify (f := (·.appendToReadBuffer (cString buffer)))
      (fun _ ↦ rfl) fd
    simp only [happend.client]
    exact happend.drain _ fd
  · exact h
  · exact h
  · exact h
  · exact h.clearClient fd

theorem acceptClient (incoming : Incoming) :
    Twins (s.acceptClient incoming) (t.acceptClient incoming) := by
  cases incoming with
  | connected d address =>
      have hinsert (c : Client) (hc : c.nickname = []) : Twins (s.insert d c) (t.insert d c) :=
        ⟨h.plain.insert d hc, h.shuffled.insert d c⟩
      have hall := hinsert
        { socketFd := d, ipAddress := inetNtop address, hostname := inetNtop address } rfl
      simp only [Server.acceptClient, hall.shuffled.pollfds]
      exact hall.setPollfds _
  | acceptFailed | fcntlFailed _ | ntopFailed _ => exact h

theorem flush (fd sent : Int) : Twins (s.flush fd sent) (t.flush fd sent) := by
  have htouch := h.touch fd
  simp only [Server.flush, htouch.client]
  refine .ite (fun _ ↦ ?_) fun _ ↦ htouch
  exact htouch.modify (f := (·.eraseFromWriteBuffer sent.toNat)) (fun _ ↦ rfl) fd

theorem setEvents (i : Nat) (wantsOut : Bool) :
    Twins (s.setEvents i wantsOut) (t.setEvents i wantsOut) := by
  rw [Server.setEvents, Server.setEvents, h.shuffled.pollfds]
  exact h.setPollfds _

theorem prepareEntry (i : Nat) : Twins (s.prepareEntry i) (t.prepareEntry i) := by
  unfold Server.prepareEntry
  rw [h.shuffled.pollfds]
  split
  · exact h
  · rename_i p _
    rw [h.shuffled.serverSocket]
    refine .ite (fun _ ↦ h.setEvents i false) fun _ ↦ ?_
    simp only [(h.touch p.fd).client]
    exact (h.touch p.fd).setEvents i _

end Twins

namespace PollLoop

/-- Two loops at the same place, whose servers differ in the order of their clients. -/
structure Twin (σ τ : PollLoop) : Prop where
  server : Twins σ.server τ.server
  phase : τ.phase = σ.phase
  taken : τ.taken = σ.taken

/-- The hash map changes its iteration order. -/
def isRehash : PollEvent → Bool
  | .rehash _ => true
  | _ => false

namespace Twin

variable {σ τ : PollLoop} (h : Twin σ τ)

theorem ite {p : Prop} [Decidable p] {σ' τ' : PollLoop} (hpos : p → Twin σ τ)
    (hneg : ¬ p → Twin σ' τ') : Twin (if p then σ else σ') (if p then τ else τ') := by
  split
  · exact hpos ‹_›
  · exact hneg ‹_›

include h

theorem readEntry (i : Nat) (incoming : Incoming) (received : Except Errno Bytes) :
    Twin (σ.readEntry i incoming received) (τ.readEntry i incoming received) := by
  have hpollfds := h.server.shuffled.pollfds
  unfold PollLoop.readEntry
  rw [hpollfds]
  split
  · exact h
  · rename_i p _
    rw [h.server.shuffled.serverSocket]
    refine .ite (fun _ ↦ ⟨h.server, rfl, h.taken⟩) fun _ ↦ ?_
    refine .ite (fun _ ↦ ⟨h.server.acceptClient incoming, rfl, h.taken⟩) fun _ ↦ ?_
    have hreceived := h.server.receiveData p.fd received
    simp only [hreceived.shuffled.pollfds]
    exact .ite (fun _ ↦ ⟨hreceived, rfl, h.taken⟩) fun _ ↦ ⟨hreceived, rfl, h.taken⟩

theorem writeEntry (i : Nat) (sent : Int) : Twin (σ.writeEntry i sent) (τ.writeEntry i sent) := by
  have hpollfds := h.server.shuffled.pollfds
  unfold PollLoop.writeEntry
  rw [hpollfds]
  split
  · exact h
  · rename_i p _
    have hflush := h.server.flush p.fd sent
    simp only [h.server.shuffled.serverSocket, Server.takenBySend, Server.isFinished,
      (h.server.touch p.fd).client, hflush.client, h.taken]
    refine .ite (fun _ ↦ ?_) fun _ ↦ ⟨h.server, rfl, rfl⟩
    exact .ite (fun _ ↦ ⟨hflush.clearClient p.fd, rfl, rfl⟩) fun _ ↦ ⟨hflush, rfl, rfl⟩

theorem isNew {incoming : Incoming} (hnew : incoming.IsNew σ.server) :
    incoming.IsNew τ.server := by
  cases incoming with
  | connected d address =>
      exact ⟨fun hmem ↦ hnew.1 (h.server.shuffled.mem.mp hmem),
        fun heq ↦ hnew.2 (heq.trans h.server.shuffled.serverSocket)⟩
  | acceptFailed | fcntlFailed _ | ntopFailed _ => trivial

theorem enabled {e : PollEvent} (hkind : isRehash e = false) (he : σ.enabled e) :
    τ.enabled e := by
  unfold PollLoop.enabled at he ⊢
  simp only [h.phase, h.server.shuffled.pollfds, h.server.client]
  generalize σ.phase = phase at he ⊢
  cases e with
  | rehash clients => cases hkind
  | read incoming received =>
      cases phase with
      | read i => exact ⟨he.1, h.isNew he.2⟩
      | prepare _ | write _ => exact he
  | prepare | poll _ | write _ | round => cases phase <;> exact he

theorem step {e : PollEvent} (hkind : isRehash e = false) : Twin (σ.step e) (τ.step e) := by
  unfold PollLoop.step
  rw [h.phase]
  cases e with
  | rehash clients => cases hkind
  | prepare =>
      cases σ.phase with
      | prepare i => exact ⟨h.server.prepareEntry i, rfl, h.taken⟩
      | read _ | write _ => exact h
  | poll revents =>
      cases σ.phase with
      | prepare i =>
          refine ⟨?_, rfl, h.taken⟩
          simp only [Server.setRevents, h.server.shuffled.pollfds]
          exact h.server.setPollfds _
      | read _ | write _ => exact h
  | read incoming received =>
      cases σ.phase with
      | read i => exact h.readEntry i incoming received
      | prepare _ | write _ => exact h
  | write sent =>
      cases σ.phase with
      | write i => exact h.writeEntry i sent
      | prepare _ | read _ => exact h
  | round =>
      cases σ.phase with
      | read i => exact ⟨h.server, rfl, h.taken⟩
      | prepare _ | write _ => exact h

end Twin

/-- A change of the order is seen by nothing that comes later. -/
theorem silent_rehash : Silent pollLoop isRehash Twin where
  drop σ τ e h he hkind := by
    cases e with
    | rehash clients =>
        have hperm : clients.entries.Perm σ.server.clients.entries := by
          cases hphase : σ.phase <;> exact he
        have hstep : pollLoop.step σ (.rehash clients) =
            { σ with server := σ.server.reordered clients } := by
          change σ.step (.rehash clients) = _
          unfold PollLoop.step
          cases hphase : σ.phase <;> rfl
        have hshuffled : σ.server.Shuffled (σ.server.reordered clients) := ⟨clients, hperm⟩
        have hplain : (σ.server.reordered clients).Plain :=
          ⟨h.server.plain.channels, h.server.plain.unique.reordered hperm⟩
        rw [hstep]
        exact ⟨⟨hplain, hshuffled.symm.trans h.server.shuffled⟩, h.phase, h.taken⟩
    | prepare | poll _ | read _ _ | write _ | round => cases hkind
  enabled _ _ _ h he hkind := h.enabled hkind he
  step _ _ _ h _ hkind := h.step hkind

end PollLoop

section Run

variable {serverSocket : Int} {password : Bytes} {es fs : List PollEvent}

/-- Without the changes of the iteration order a run of the loop is a run, too, and two runs
that differ in nothing else end in the same state, up to the order. -/
theorem order_unseen (hv : pollLoop.Valid (.start serverSocket password ∅) es)
    (hw : pollLoop.Valid (.start serverSocket password ∅) fs)
    (hsame : es.filter (!PollLoop.isRehash ·) = fs.filter (!PollLoop.isRehash ·)) :
    let σ := pollLoop.run (.start serverSocket password ∅) es
    let τ := pollLoop.run (.start serverSocket password ∅) fs
    pollLoop.Valid (.start serverSocket password ∅) (es.filter (!PollLoop.isRehash ·)) ∧
      τ.server.clients.entries.Perm σ.server.clients.entries ∧
      τ = { σ with server := { σ.server with clients := τ.server.clients } } := by
  intro σ τ
  have hstart : PollLoop.Twin (.start serverSocket password ∅) (.start serverSocket password ∅) :=
    ⟨⟨⟨rfl, fun _ _ _ _ hc ↦ nomatch hc⟩, .refl _⟩, rfl, rfl⟩
  obtain ⟨hvalid, hσ⟩ := PollLoop.silent_rehash.run hstart hv
  obtain ⟨-, hτ⟩ := PollLoop.silent_rehash.run hstart hw
  rw [← hsame] at hτ
  have hboth : σ.server.Shuffled τ.server :=
    hσ.server.shuffled.trans hτ.server.shuffled.symm
  have hphase : τ.phase = σ.phase := hτ.phase.symm.trans hσ.phase
  have htaken : τ.taken = σ.taken := hτ.taken.symm.trans hσ.taken
  refine ⟨hvalid, hboth.perm, ?_⟩
  clear_value σ τ
  obtain ⟨s, phase, taken⟩ := σ
  obtain ⟨t, phase', taken'⟩ := τ
  obtain rfl : phase' = phase := hphase
  obtain rfl : taken' = taken := htaken
  obtain ⟨clients, -⟩ : s.Shuffled t := hboth
  rfl

/-- The clients in the opposite order. -/
def reversed (clients : UnorderedMap Int Client) : UnorderedMap Int Client where
  entries := clients.entries.reverse
  nodupKeys := (List.perm_nodupKeys (List.reverse_perm clients.entries)).mpr clients.nodupKeys

/-- Ann and Bob register, and the order of the map changes before Ann sends her messages. -/
def rehashedRun : List PollEvent :=
  greetingRun.take 28 ++ .rehash (reversed (pollLoop.run (.start 3 (lit "pw") ∅)
    (greetingRun.take 28)).server.clients) :: greetingRun.drop 28

theorem order_unseen_greeting :
    let σ := pollLoop.run (.start 3 (lit "pw") ∅) rehashedRun
    let τ := pollLoop.run (.start 3 (lit "pw") ∅) greetingRun
    pollLoop.Valid (.start 3 (lit "pw") ∅) (rehashedRun.filter (!PollLoop.isRehash ·)) ∧
      τ.server.clients.entries.Perm σ.server.clients.entries ∧
      τ = { σ with server := { σ.server with clients := τ.server.clients } } :=
  order_unseen (by decide +kernel) (by decide +kernel) rfl

end Run

end IrcServer
