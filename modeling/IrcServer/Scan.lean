import IrcServer.InStep

/-!
# The loop after `poll`

`runServer` removes entries from the vector it goes over and takes the index back by one
for each.  What this comes to is a plain traversal: every entry that was in the vector when
`poll` returned is served once, in order (`Server.serveEntry`), and an entry appended on the
way is looked at, at the end, and is not ready (`scan_visited`).

Nothing is assumed here of what the system calls return.
-/

namespace IrcServer

open Library

/-- What the system calls of a turn return, if they are called. -/
structure Returned where
  incoming : Incoming
  received : Except Errno Bytes
  sent : Int

/-- `poll` has set a bit that the loop asks for. -/
def PollFd.isReady (p : PollFd) : Bool := p.pollIn || p.pollOut

/-! ## Turns -/

namespace PollLoop

/-- A turn of the loop after `poll`: the `POLLIN` part, which may end it, and the `POLLOUT`
part. -/
def turn (σ : PollLoop) (o : Returned) : PollLoop :=
  let σ' := σ.step (.read o.incoming o.received)
  match σ'.phase with
  | .write _ => σ'.step (.write o.sent)
  | _ => σ'

/-- `i < _pollfds.size()`, before a turn. -/
def scans (σ : PollLoop) : Bool :=
  match σ.phase with
  | .read i => i < σ.server.pollfds.length
  | _ => false

/-- `_pollfds[i]`, when the index is in bounds. -/
def entry (σ : PollLoop) : Option PollFd :=
  match σ.phase with
  | .prepare i | .read i | .write i => σ.server.pollfds[i]?

/-- The entries the turns look at, one after the other. -/
def visited (σ : PollLoop) : List Returned → List PollFd
  | [] => []
  | o :: os => σ.entry.toList ++ visited (σ.turn o) os

/-- Both parts of the turn find an entry at the index, the second one the same as the
first. -/
def InBounds (σ : PollLoop) (o : Returned) : Prop :=
  ∃ p, σ.entry = some p ∧
    ∀ i, (σ.step (.read o.incoming o.received)).phase = .write i →
      (σ.step (.read o.incoming o.received)).entry = some p

end PollLoop

/-- The loop after `poll`, turn by turn. -/
def scanLoop : System PollLoop Returned where
  enabled σ _ := σ.scans = true
  step := PollLoop.turn

/-! ## Serving an entry -/

namespace Server

/-- The `POLLIN` part for an entry. -/
def readReady (s : Server) (p : PollFd) (o : Returned) : Server :=
  if !p.pollIn then s
  else if p.fd = s.serverSocket then s.acceptClient o.incoming
  else s.receiveData p.fd o.received

/-- The `POLLOUT` part for an entry. -/
def writeReady (s : Server) (p : PollFd) (o : Returned) : Server :=
  if p.pollOut && p.fd ≠ s.serverSocket then s.pollOut p.fd o.sent else s

/-- An entry is served: read if it is ready for that, and written if it is ready for that
and still there. -/
def serveEntry (s : Server) (p : PollFd) (o : Returned) : Server :=
  if (s.readReady p o).pollfds.length < s.pollfds.length then s.readReady p o
  else (s.readReady p o).writeReady p o

variable {s : Server} {p : PollFd} {o : Returned}

theorem serveEntry_of_not_ready (h : p.isReady = false) : s.serveEntry p o = s := by
  obtain ⟨hin, hout⟩ := Bool.or_eq_false_iff.mp h
  simp [serveEntry, readReady, writeReady, hin, hout]

/-- Commands leave the vector alone. -/
theorem pollfds_drain (n : Nat) (s : Server) (fd : Int) :
    (s.drain n fd).pollfds = s.pollfds ∧ (s.drain n fd).serverSocket = s.serverSocket := by
  induction n generalizing s with
  | zero => exact ⟨rfl, rfl⟩
  | succ n ih =>
      rw [drain]
      split
      · have heff := processCommand_effect (s.takeCommand fd) fd (Parser.parse (s.nextCommand fd))
        obtain ⟨hfds, hsocket⟩ := ih (s.serveLine fd)
        exact ⟨hfds.trans heff.pollfds, hsocket.trans heff.serverSocket⟩
      · exact ⟨rfl, rfl⟩

theorem pollfds_insert (s : Server) (fd : Int) (c : Client) :
    (s.insert fd c).pollfds = s.pollfds ∧ (s.insert fd c).serverSocket = s.serverSocket := by
  unfold insert
  split <;> exact ⟨rfl, rfl⟩

/-- `receiveData` removes the entry, or leaves the vector alone. -/
theorem pollfds_receiveData (s : Server) (fd : Int) (received : Except Errno Bytes) :
    (s.receiveData fd received).serverSocket = s.serverSocket ∧
      ((s.receiveData fd received).pollfds = s.pollfds ∨
        (s.receiveData fd received).pollfds = s.pollfds.eraseP (·.fd == fd)) := by
  unfold receiveData
  split
  · exact ⟨rfl, Or.inr rfl⟩
  · rename_i buffer _
    obtain ⟨hfds, hsocket⟩ := s.pollfds_insert fd {}
    obtain ⟨hfds', hsocket'⟩ := pollfds_drain
      (((s.touch fd).modify fd (·.appendToReadBuffer (cString buffer))).client fd).readBuffer.length
      ((s.touch fd).modify fd (·.appendToReadBuffer (cString buffer))) fd
    exact ⟨hsocket'.trans hsocket, Or.inl (hfds'.trans hfds)⟩
  · exact ⟨rfl, Or.inl rfl⟩
  · exact ⟨rfl, Or.inl rfl⟩
  · exact ⟨rfl, Or.inl rfl⟩
  · exact ⟨rfl, Or.inr rfl⟩

/-- `acceptClient` appends an entry that is not ready, or leaves the vector alone. -/
theorem pollfds_acceptClient (s : Server) (incoming : Incoming) :
    (s.acceptClient incoming).serverSocket = s.serverSocket ∧
      ((s.acceptClient incoming).pollfds = s.pollfds ∨
        ∃ d, (s.acceptClient incoming).pollfds = s.pollfds ++ [{ fd := d }]) := by
  cases incoming with
  | connected d address =>
      obtain ⟨hfds, hsocket⟩ := s.pollfds_insert d
        { socketFd := d, ipAddress := inetNtop address, hostname := inetNtop address }
      exact ⟨hsocket, Or.inr ⟨d, congrArg (· ++ [_]) hfds⟩⟩
  | _ => exact ⟨rfl, Or.inl rfl⟩

theorem pollfds_flush (s : Server) (fd sent : Int) :
    (s.flush fd sent).pollfds = s.pollfds ∧ (s.flush fd sent).serverSocket = s.serverSocket := by
  obtain ⟨hfds, hsocket⟩ := s.pollfds_insert fd {}
  unfold flush
  dsimp only
  split
  · exact ⟨hfds, hsocket⟩
  · exact ⟨hfds, hsocket⟩

end Server

/-! ## What a turn does to the vector -/

/-- A turn removes its entry and stays at the index, or goes on to the next index; on the
way `acceptClient` may have appended an entry. -/
inductive TurnEffect (σ : PollLoop) (i : Nat) (p : PollFd) (σ' : PollLoop) : Prop where
  | kept (hphase : σ'.phase = .read (i + 1))
      (hsocket : σ'.server.serverSocket = σ.server.serverSocket)
      (hfds : σ'.server.pollfds = σ.server.pollfds)
  | removed (hphase : σ'.phase = .read i)
      (hsocket : σ'.server.serverSocket = σ.server.serverSocket)
      (hfds : σ'.server.pollfds = σ.server.pollfds.eraseP (·.fd == p.fd))
      (hready : p.isReady = true)
  | accepted (hphase : σ'.phase = .read (i + 1))
      (hsocket : σ'.server.serverSocket = σ.server.serverSocket) (d : Int)
      (hfds : σ'.server.pollfds = σ.server.pollfds ++ [{ fd := d }])
      (hready : p.isReady = true) (hlistener : p.fd = σ.server.serverSocket)

section Turn

variable {σ : PollLoop} {i : Nat} {p : PollFd}

/-- The `POLLIN` part ends the turn if the vector has become shorter. -/
theorem readEntry_eq (hp : σ.server.pollfds[i]? = some p) (o : Returned) :
    σ.readEntry i o.incoming o.received =
      { σ with
        server := σ.server.readReady p o
        phase := if (σ.server.readReady p o).pollfds.length < σ.server.pollfds.length
          then .read i else .write i } := by
  unfold PollLoop.readEntry Server.readReady
  rw [hp]
  dsimp only
  split
  · rw [if_neg (lt_irrefl _)]
  · split
    · rw [if_neg]
      obtain ⟨-, hfds | ⟨d, hfds⟩⟩ := σ.server.pollfds_acceptClient o.incoming
      · rw [hfds]
        exact lt_irrefl _
      · rw [hfds, List.length_append]
        omega
    · split <;> rfl

/-- What the `POLLIN` part does to the vector. -/
theorem pollfds_readReady (s : Server) (p : PollFd) (o : Returned) :
    (s.readReady p o).serverSocket = s.serverSocket ∧
      ((s.readReady p o).pollfds = s.pollfds ∨
        (s.readReady p o).pollfds = s.pollfds.eraseP (·.fd == p.fd) ∧ p.isReady = true ∨
        ∃ d, (s.readReady p o).pollfds = s.pollfds ++ [{ fd := d }] ∧ p.isReady = true ∧
          p.fd = s.serverSocket) := by
  unfold Server.readReady
  split
  · exact ⟨rfl, Or.inl rfl⟩
  · rename_i hin
    have hready : p.isReady = true := by simpa [PollFd.isReady] using Or.inl hin
    split
    · rename_i hsocket
      obtain ⟨hsame, hfds | ⟨d, hfds⟩⟩ := s.pollfds_acceptClient o.incoming
      · exact ⟨hsame, Or.inl hfds⟩
      · exact ⟨hsame, Or.inr (Or.inr ⟨d, hfds, hready, hsocket⟩)⟩
    · obtain ⟨hsame, hfds | hfds⟩ := s.pollfds_receiveData p.fd o.received
      · exact ⟨hsame, Or.inl hfds⟩
      · exact ⟨hsame, Or.inr (Or.inl ⟨hfds, hready⟩)⟩

/-- The `POLLOUT` part removes the entry it is about, or goes on to the next index. -/
theorem writeEntry_cases (hp : σ.server.pollfds[i]? = some p) (o : Returned) :
    (σ.writeEntry i o.sent).server = σ.server.writeReady p o ∧
      (σ.writeEntry i o.sent).server.serverSocket = σ.server.serverSocket ∧
      ((σ.writeEntry i o.sent).phase = .read (i + 1) ∧
          (σ.writeEntry i o.sent).server.pollfds = σ.server.pollfds ∨
        (σ.writeEntry i o.sent).phase = .read i ∧
          (σ.writeEntry i o.sent).server.pollfds =
            σ.server.pollfds.eraseP (·.fd == p.fd) ∧ p.isReady = true ∧
          p.fd ≠ σ.server.serverSocket) := by
  obtain ⟨hfds, hsocket⟩ := σ.server.pollfds_flush p.fd o.sent
  unfold PollLoop.writeEntry Server.writeReady
  rw [hp]
  dsimp only
  split
  · rename_i hout
    have hready : p.isReady = true := by
      rw [PollFd.isReady, (Bool.and_eq_true_iff.mp hout).1, Bool.or_true]
    have hne : p.fd ≠ σ.server.serverSocket := by simpa using (Bool.and_eq_true_iff.mp hout).2
    rw [Server.pollOut_eq]
    split
    · exact ⟨rfl, hsocket, Or.inr ⟨rfl, congrArg _ hfds, hready, hne⟩⟩
    · exact ⟨rfl, hsocket, Or.inl ⟨rfl, hfds⟩⟩
  · exact ⟨rfl, rfl, Or.inl ⟨rfl, rfl⟩⟩

/-- An entry that is removed makes the vector shorter. -/
theorem length_eraseP_lt (hp : σ.server.pollfds[i]? = some p) :
    (σ.server.pollfds.eraseP (·.fd == p.fd)).length < σ.server.pollfds.length := by
  have hmem := List.mem_of_getElem? hp
  rw [List.length_eraseP_of_mem hmem (beq_self_eq_true p.fd)]
  exact Nat.sub_lt (List.length_pos_of_mem hmem) Nat.one_pos

theorem step_read_eq (hphase : σ.phase = .read i) (hp : σ.server.pollfds[i]? = some p)
    (o : Returned) : σ.step (.read o.incoming o.received) =
      { σ with
        server := σ.server.readReady p o
        phase := if (σ.server.readReady p o).pollfds.length < σ.server.pollfds.length
          then .read i else .write i } := by
  obtain ⟨s, phase, taken⟩ := σ
  obtain rfl : phase = .read i := hphase
  exact readEntry_eq hp o

/-- The two parts of a turn. -/
theorem turn_eq (hphase : σ.phase = .read i) (hp : σ.server.pollfds[i]? = some p)
    (o : Returned) : σ.turn o =
      if (σ.server.readReady p o).pollfds.length < σ.server.pollfds.length
      then { σ with server := σ.server.readReady p o, phase := .read i }
      else ({ σ with server := σ.server.readReady p o, phase := .write i } : PollLoop).writeEntry i
        o.sent := by
  rw [PollLoop.turn, step_read_eq hphase hp]
  by_cases hlt : (σ.server.readReady p o).pollfds.length < σ.server.pollfds.length
  · simp only [if_pos hlt]
  · simp only [if_neg hlt]
    rfl

/-- After the `POLLIN` part, if it has not ended the turn, the entry is where it was. -/
theorem entry_of_readReady (hp : σ.server.pollfds[i]? = some p) {o : Returned}
    (h : ¬ (σ.server.readReady p o).pollfds.length < σ.server.pollfds.length) :
    (σ.server.readReady p o).pollfds[i]? = some p := by
  obtain ⟨-, hfds | ⟨hfds, -⟩ | ⟨d, hfds, -⟩⟩ := pollfds_readReady σ.server p o
  · rw [hfds, hp]
  · exact absurd (hfds ▸ length_eraseP_lt hp) h
  · rw [hfds, List.getElem?_append_left (List.getElem?_eq_some_iff.mp hp).1, hp]

/-- A turn looks at its entry in bounds, and serves it. -/
theorem turn_serves (hphase : σ.phase = .read i) (hp : σ.server.pollfds[i]? = some p)
    (o : Returned) : σ.InBounds o ∧ (σ.turn o).server = σ.server.serveEntry p o := by
  constructor
  · refine ⟨p, by simp only [PollLoop.entry, hphase, hp], ?_⟩
    intro j hj
    rw [step_read_eq hphase hp] at hj ⊢
    dsimp only at hj
    split at hj
    · exact Phase.noConfusion hj
    · rename_i hlt
      simp only [if_neg hlt, PollLoop.entry, entry_of_readReady hp hlt]
  · rw [turn_eq hphase hp, Server.serveEntry]
    split
    · rfl
    · rename_i hlt
      exact (writeEntry_cases (entry_of_readReady hp hlt) o).1

theorem turn_effect (hphase : σ.phase = .read i) (hp : σ.server.pollfds[i]? = some p)
    (o : Returned) : TurnEffect σ i p (σ.turn o) := by
  obtain ⟨hsocket, hcases⟩ := pollfds_readReady σ.server p o
  rw [turn_eq hphase hp]
  split
  · rename_i hlt
    rcases hcases with hfds | ⟨hfds, hready⟩ | ⟨d, hfds, -⟩
    · exact absurd hlt (by rw [hfds]; exact lt_irrefl _)
    · exact .removed rfl hsocket hfds hready
    · exact absurd hlt (by rw [hfds, List.length_append]; omega)
  · rename_i hlt
    obtain ⟨-, hsocket', hwrite⟩ := writeEntry_cases
      (σ := { σ with server := σ.server.readReady p o, phase := .write i })
      (entry_of_readReady hp hlt) o
    have hsame := hsocket'.trans hsocket
    rcases hcases with hfds | ⟨hfds, -⟩ | ⟨d, hfds, hready, hlistener⟩
    · rcases hwrite with ⟨hphase', hfds'⟩ | ⟨hphase', hfds', hready, -⟩
      · exact .kept hphase' hsame (hfds'.trans hfds)
      · exact .removed hphase' hsame (hfds'.trans (congrArg _ hfds)) hready
    · exact absurd (hfds ▸ length_eraseP_lt hp) hlt
    · -- the entry of the server socket has no `POLLOUT` part
      rcases hwrite with ⟨hphase', hfds'⟩ | ⟨-, -, -, hne⟩
      · exact .accepted hphase' hsame d (hfds'.trans hfds) hready hlistener
      · exact absurd (hlistener.trans hsocket.symm) hne

end Turn

/-! ## Runs of the loop -/

/-- Where the loop is in the vector: the entries it is done with and that are still there,
those it has to look at, and those that were appended on the way. -/
structure Scanning (σ : PollLoop) (done todo late : List PollFd) : Prop where
  phase : σ.phase = .read done.length
  pollfds : σ.server.pollfds = done ++ (todo ++ late)
  nodup : (todo.map PollFd.fd).Nodup
  /-- `clearClient` removes the first entry with its descriptor. -/
  passed : ∀ p ∈ todo, ∀ q ∈ done, q.fd ≠ p.fd
  late : ∀ p ∈ late, p.isReady = false

/-- The entries for which the loop calls `acceptClient`. -/
def listens (serverSocket : Int) (p : PollFd) : Bool := p.isReady && p.fd == serverSocket

namespace Scanning

variable {σ : PollLoop} {p : PollFd} {done todo late rest : List PollFd} {o : Returned}

theorem getElem?_eq (h : Scanning σ done todo late) (hcons : todo ++ late = p :: rest) :
    σ.server.pollfds[done.length]? = some p := by
  rw [h.pollfds, hcons, List.getElem?_append_right le_rfl, Nat.sub_self]
  rfl

/-- The loop is over when there is nothing left to look at. -/
theorem scans_iff (h : Scanning σ done todo late) : σ.scans = true ↔ todo ++ late ≠ [] := by
  rw [PollLoop.scans, h.phase, decide_eq_true_iff, h.pollfds, List.length_append,
    Nat.lt_add_right_iff_pos, List.length_pos_iff]

/-- A turn for an entry that was there when `poll` returned. -/
theorem turn (h : Scanning σ done (p :: todo) late) (o : Returned) :
    (σ.turn o).server.serverSocket = σ.server.serverSocket ∧ ∃ done' new,
      Scanning (σ.turn o) done' todo (late ++ new) ∧
      new.length ≤ [p].countP (listens σ.server.serverSocket) := by
  have hpassed (q : PollFd) (hq : q ∈ todo) : q.fd ≠ p.fd := by
    have hnodup := h.nodup
    rw [List.map_cons, List.nodup_cons] at hnodup
    exact fun heq ↦ hnodup.1 (heq ▸ List.mem_map_of_mem hq)
  have hnext : ∀ q ∈ todo, ∀ r ∈ done ++ [p], r.fd ≠ q.fd := by
    intro q hq r hr
    rcases List.mem_append.mp hr with hr | hr
    · exact h.passed q (List.mem_cons_of_mem p hq) r hr
    · rw [List.mem_singleton.mp hr]
      exact (hpassed q hq).symm
  have hnodup : (todo.map PollFd.fd).Nodup := (List.nodup_cons.mp h.nodup).2
  have hlen : (done ++ [p]).length = done.length + 1 := List.length_append
  have heffect := turn_effect h.phase (h.getElem?_eq List.cons_append) o
  cases heffect with
  | kept hphase hsocket hfds =>
      refine ⟨hsocket, done ++ [p], [], ?_, Nat.zero_le _⟩
      refine ⟨by rw [hphase, hlen], ?_, hnodup, hnext, by rw [List.append_nil]; exact h.late⟩
      simp [hfds, h.pollfds]
  | removed hphase hsocket hfds =>
      refine ⟨hsocket, done, [], ?_, Nat.zero_le _⟩
      refine ⟨hphase, ?_, hnodup, fun q hq ↦ h.passed q (List.mem_cons_of_mem p hq), ?_⟩
      · have hdone : ∀ q ∈ done, ¬ (q.fd == p.fd) = true := fun q hq ↦ by
          simpa using h.passed p List.mem_cons_self q hq
        rw [hfds, h.pollfds, List.eraseP_append_right _ hdone, List.cons_append,
          List.eraseP_cons_of_pos (p := fun q : PollFd ↦ q.fd == p.fd) (beq_self_eq_true p.fd),
          List.append_nil]
      · rw [List.append_nil]
        exact h.late
  | accepted hphase hsocket d hfds hready hlistener =>
      refine ⟨hsocket, done ++ [p], [{ fd := d }], ?_, ?_⟩
      · refine ⟨by rw [hphase, hlen], ?_, hnodup, hnext, ?_⟩
        · simp [hfds, h.pollfds]
        · exact List.forall_mem_append.mpr ⟨h.late, List.forall_mem_singleton.mpr rfl⟩
      · simp [listens, hready, hlistener]

/-- A turn for an entry that was appended. -/
theorem turn_late (h : Scanning σ done [] (p :: late)) (o : Returned) :
    (σ.turn o).server.serverSocket = σ.server.serverSocket ∧
      Scanning (σ.turn o) (done ++ [p]) [] late := by
  have hlate := List.forall_mem_cons.mp h.late
  have heffect := turn_effect h.phase (h.getElem?_eq (List.nil_append _)) o
  cases heffect with
  | kept hphase hsocket hfds =>
      refine ⟨hsocket, by rw [hphase, List.length_append]; rfl, ?_, List.nodup_nil,
        List.forall_mem_nil _, hlate.2⟩
      simp [hfds, h.pollfds]
  | removed _ _ _ hready => exact absurd hready (by simp [hlate.1])
  | accepted _ _ _ _ hready => exact absurd hready (by simp [hlate.1])

/-- Whatever the turns return, the loop goes through the entries that were there and then
through those that were appended, and serves the former. -/
theorem run (h : Scanning σ done todo late) {os : List Returned} (hv : scanLoop.Valid σ os) :
    ∃ done' todo' late' new, Scanning (scanLoop.run σ os) done' todo' late' ∧
      σ.visited os ++ (todo' ++ late') = todo ++ (late ++ new) ∧
      (∀ p ∈ new, p.isReady = false) ∧
      new.length ≤ todo.countP (listens σ.server.serverSocket) ∧
      (scanLoop.run σ os).server =
        (todo.zip os).foldl (fun s e ↦ s.serveEntry e.1 e.2) σ.server ∧
      scanLoop.Along PollLoop.InBounds σ os := by
  induction os generalizing σ done todo late with
  | nil =>
      refine ⟨done, todo, late, [], h, ?_, List.forall_mem_nil _, Nat.zero_le _, ?_, trivial⟩
      · rw [List.append_nil]
        rfl
      · rw [List.zip_nil_right]
        rfl
  | cons o os ih =>
      obtain ⟨p, rest, hcons⟩ := List.exists_cons_of_ne_nil (h.scans_iff.mp hv.1)
      have hp := h.getElem?_eq hcons
      obtain ⟨hbounds, hserve⟩ := turn_serves h.phase hp o
      have hvisited : σ.visited (o :: os) = p :: (σ.turn o).visited os := by
        rw [PollLoop.visited, PollLoop.entry, h.phase]
        dsimp only
        rw [hp]
        rfl
      cases todo with
      | nil =>
          obtain rfl : late = p :: rest := hcons
          obtain ⟨hsocket, hturn⟩ := h.turn_late o
          obtain ⟨done', todo', late', new, hrun, hsplit, hnew, hcount, hserver, hin⟩ :=
            ih hturn hv.2
          refine ⟨done', todo', late', new, hrun, ?_, hnew, hcount, ?_, hbounds, hin⟩
          · rw [hvisited, List.cons_append, hsplit]
            rfl
          · refine hserver.trans (hserve.trans ?_)
            exact Server.serveEntry_of_not_ready (h.late p List.mem_cons_self)
      | cons q todo =>
          obtain ⟨rfl, rfl⟩ := List.cons.inj hcons
          obtain ⟨hsocket, done₁, new₁, hturn, hcount₁⟩ := h.turn o
          obtain ⟨done', todo', late', new, hrun, hsplit, hnew, hcount, hserver, hin⟩ :=
            ih hturn hv.2
          refine ⟨done', todo', late', new₁ ++ new, hrun, ?_, ?_, ?_, ?_, hbounds, hin⟩
          · rw [hvisited, List.cons_append, hsplit, List.append_assoc]
            rfl
          · refine List.forall_mem_append.mpr ⟨fun r hr ↦ ?_, hnew⟩
            exact hturn.late r (List.mem_append_right late hr)
          · rw [hsocket] at hcount
            rw [List.length_append, ← List.singleton_append, List.countP_append]
            exact Nat.add_le_add hcount₁ hcount
          · rw [List.zip_cons_cons, List.foldl_cons, ← hserve]
            exact hserver

end Scanning

/-- A turn looks at one entry. -/
theorem length_visited {σ : PollLoop} {os : List Returned}
    (h : scanLoop.Along PollLoop.InBounds σ os) : (σ.visited os).length = os.length := by
  induction os generalizing σ with
  | nil => rfl
  | cons o os ih =>
      obtain ⟨p, hp, -⟩ := h.1
      have hrest : ((σ.turn o).visited os).length = os.length := ih h.2
      rw [PollLoop.visited, hp, List.length_append, Option.toList_some, List.length_singleton,
        hrest, List.length_cons, Nat.add_comm]

namespace Server.InStep

variable {s : Server}

theorem nodup (h : s.InStep) : (s.pollfds.map PollFd.fd).Nodup := by
  obtain ⟨fds, hfds, hnodup, hmem⟩ := h.entries
  rw [hfds]
  exact List.nodup_cons.mpr ⟨fun hin ↦ h.listener ((hmem _).mp hin), hnodup⟩

/-- There is one entry for the server socket. -/
theorem countP_listens_le (h : s.InStep) : s.pollfds.countP (listens s.serverSocket) ≤ 1 := by
  have hcount : s.pollfds.countP (listens s.serverSocket) ≤
      (s.pollfds.map PollFd.fd).count s.serverSocket := by
    rw [List.count, List.countP_map]
    exact List.countP_mono_left fun p _ hp ↦ (Bool.and_eq_true_iff.mp hp).2
  exact hcount.trans (List.nodup_iff_count_le_one.mp h.nodup _)

/-- After `poll`, whatever it has set, the loop has all entries to look at. -/
theorem scanning {σ : PollLoop} (h : σ.server.InStep) (hphase : σ.phase = .read 0) :
    Scanning σ [] σ.server.pollfds [] where
  phase := hphase
  pollfds := by rw [List.append_nil, List.nil_append]
  nodup := h.nodup
  passed _ _ := List.forall_mem_nil _
  late := List.forall_mem_nil _

end Server.InStep

/-- The loop after `poll` looks once, in order and in bounds, at every entry that was in the
vector, whatever bits `poll` has set and whatever the system calls return, and then at the
entry that was appended, if one was.  It serves the former and does nothing for the latter,
and it ends. -/
theorem scan_visited {σ : PollLoop} (hs : σ.server.InStep) (hphase : σ.phase = .read 0)
    {os : List Returned} (hv : scanLoop.Valid σ os) :
    (∃ added : List PollFd, added.length ≤ 1 ∧
      (∀ p ∈ added, p.pollIn = false ∧ p.pollOut = false) ∧
      σ.visited os <+: σ.server.pollfds ++ added ∧
      ((scanLoop.run σ os).scans = false → σ.visited os = σ.server.pollfds ++ added)) ∧
    (scanLoop.run σ os).server =
      (σ.server.pollfds.zip os).foldl (fun s e ↦ s.serveEntry e.1 e.2) σ.server ∧
    scanLoop.Along PollLoop.InBounds σ os ∧ os.length ≤ σ.server.pollfds.length + 1 := by
  obtain ⟨done, todo, late, added, hrun, hsplit, hadded, hcount, hserver, hin⟩ :=
    (hs.scanning hphase).run hv
  have hlen : added.length ≤ 1 := hcount.trans hs.countP_listens_le
  rw [List.nil_append] at hsplit
  refine ⟨⟨added, hlen, ?_, ⟨todo ++ late, hsplit⟩, ?_⟩, hserver, hin, ?_⟩
  · exact fun p hp ↦ Bool.or_eq_false_iff.mp (hadded p hp)
  · intro hover
    have hnil : todo ++ late = [] := by
      by_contra hne
      exact absurd (hrun.scans_iff.mpr hne) (by rw [hover]; exact Bool.false_ne_true)
    rw [← hsplit, hnil, List.append_nil]
  · have htotal := congrArg List.length hsplit
    simp only [List.length_append, length_visited hin] at htotal
    omega

instance (σ : PollLoop) (o : Returned) : Decidable (scanLoop.enabled σ o) :=
  inferInstanceAs (Decidable (σ.scans = true))

/-- Of two clients the first has closed its connection, and the second sends a line; a third
one connects. -/
theorem scan_visited_round :
    let σ := pollLoop.run (.start 3 (lit "pw") ∅) [.prepare, .poll fun i ↦ (i == 0, false),
      .read (.connected 4 ⟨127, 0, 0, 1⟩) (.ok []), .write 0, .read .acceptFailed (.ok []),
      .write 0, .round, .prepare, .prepare, .poll fun i ↦ (i == 0, false),
      .read (.connected 5 ⟨127, 0, 0, 1⟩) (.ok []), .write 0, .read .acceptFailed (.ok []),
      .write 0, .read .acceptFailed (.ok []), .write 0, .round, .prepare, .prepare, .prepare,
      .poll fun i ↦ (true, i == 2)]
    let os : List Returned := [⟨.connected 6 ⟨127, 0, 0, 1⟩, .ok [], 0⟩, ⟨.acceptFailed, .ok [], 0⟩,
      ⟨.acceptFailed, .ok (lit "PING\n"), 0⟩, ⟨.acceptFailed, .ok [], 0⟩]
    (∃ added : List PollFd, added.length ≤ 1 ∧
      (∀ p ∈ added, p.pollIn = false ∧ p.pollOut = false) ∧
      σ.visited os <+: σ.server.pollfds ++ added ∧
      ((scanLoop.run σ os).scans = false → σ.visited os = σ.server.pollfds ++ added)) ∧
    (scanLoop.run σ os).server =
      (σ.server.pollfds.zip os).foldl (fun s e ↦ s.serveEntry e.1 e.2) σ.server ∧
    scanLoop.Along PollLoop.InBounds σ os ∧ os.length ≤ σ.server.pollfds.length + 1 :=
  scan_visited (inStep_run (by decide +kernel)) (by decide +kernel) (by decide +kernel)

end IrcServer
