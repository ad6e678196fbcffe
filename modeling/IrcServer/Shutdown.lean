import IrcServer.Delivery
import IrcServer.Descriptors
import IrcServer.Library.Ranking

/-!
# Shutdown

A signal only sets a flag, and the flag is tested between rounds.  What the process can
still do after one is bounded by the entries that are to be visited (`PollLoop.left`), and
it goes on by itself until `main` has returned, with one exception: `poll` has no timeout,
so a signal that comes between the test and the call of `poll` does not keep the process
from waiting there for an entry to become ready, once (`signal_returns`).
-/

namespace IrcServer

open Library

/-! ## What is left of a round -/

/-- The work of the loop after `poll` from an index on: two steps for an entry, and two for
the one that it may append. -/
def Server.scanWork (s : Server) (i : Nat) : Nat :=
  2 * (s.pollfds.length - i) + 2 * (s.pollfds.drop i).countP (listens s.serverSocket)

namespace PollLoop

/-- A bound on the steps until the end of the round. -/
def left (σ : PollLoop) : Nat :=
  match σ.phase with
  | .prepare i => (σ.server.pollfds.length - i) + 2 * σ.server.pollfds.length + 4
  | .read i => σ.server.scanWork i + 1
  | .write i =>
      2 * (σ.server.pollfds.length - i) +
        2 * (σ.server.pollfds.drop (i + 1)).countP (listens σ.server.serverSocket)

/-- The `POLLOUT` part of a turn is about an entry that is there. -/
def Indexed (σ : PollLoop) : Prop := ∀ i, σ.phase = .write i → i < σ.server.pollfds.length

end PollLoop

section Entry

variable {σ : PollLoop} {i : Nat} {p : PollFd}

/-- `clearClient` removes the entry at the index. -/
theorem drop_eraseP (h : σ.server.InStep) (hp : σ.server.pollfds[i]? = some p) :
    (σ.server.pollfds.eraseP (·.fd == p.fd)).drop i = σ.server.pollfds.drop (i + 1) := by
  obtain ⟨hi, heq⟩ := List.getElem?_eq_some_iff.mp hp
  have hnodup := h.nodup
  have hlen : (σ.server.pollfds.take i).length = i := List.length_take_of_le hi.le
  rw [← List.take_append_drop i σ.server.pollfds, List.drop_eq_getElem_cons hi, heq] at hnodup ⊢
  generalize σ.server.pollfds.take i = done at hnodup hlen ⊢
  generalize σ.server.pollfds.drop (i + 1) = todo at hnodup ⊢
  subst hlen
  rw [List.map_append, List.map_cons] at hnodup
  have hbefore : ∀ q ∈ done, ¬ (q.fd == p.fd) = true := by
    intro q hq hsame
    refine List.disjoint_of_nodup_append hnodup (List.mem_map_of_mem hq) ?_
    rw [beq_iff_eq.mp hsame]
    exact List.mem_cons_self
  rw [List.eraseP_append_right _ hbefore,
    List.eraseP_cons_of_pos (p := fun q : PollFd ↦ q.fd == p.fd) (beq_self_eq_true p.fd),
    List.drop_left, ← List.singleton_append, ← List.append_assoc]
  exact (List.drop_left' (by simp)).symm

/-- The work at an index is that of its entry and that after it. -/
theorem scanWork_eq (hp : σ.server.pollfds[i]? = some p) : σ.server.scanWork i =
    2 + 2 * [p].countP (listens σ.server.serverSocket) + σ.server.scanWork (i + 1) := by
  obtain ⟨hi, rfl⟩ := List.getElem?_eq_some_iff.mp hp
  unfold Server.scanWork
  rw [List.drop_eq_getElem_cons hi, ← List.singleton_append, List.countP_append]
  omega

/-- What the `POLLIN` part does to the vector and to the program counter. -/
theorem step_read_cases (hphase : σ.phase = .read i) (hp : σ.server.pollfds[i]? = some p)
    (incoming : Incoming) (received : Except Errno Bytes) :
    let σ' := σ.step (.read incoming received)
    σ'.server.serverSocket = σ.server.serverSocket ∧
      (σ'.phase = .write i ∧ σ'.server.pollfds = σ.server.pollfds ∨
        σ'.phase = .read i ∧ σ'.server.pollfds = σ.server.pollfds.eraseP (·.fd == p.fd) ∨
        σ'.phase = .write i ∧ listens σ.server.serverSocket p = true ∧
          ∃ d, σ'.server.pollfds = σ.server.pollfds ++ [{ fd := d }]) := by
  intro σ'
  obtain ⟨hsocket, hcases⟩ := pollfds_readReady σ.server p ⟨incoming, received, 0⟩
  have hstep := step_read_eq hphase hp ⟨incoming, received, 0⟩
  have hserver : σ'.server = σ.server.readReady p ⟨incoming, received, 0⟩ :=
    congrArg PollLoop.server hstep
  have hphase' : σ'.phase = if σ'.server.pollfds.length < σ.server.pollfds.length
      then .read i else .write i := hserver ▸ congrArg PollLoop.phase hstep
  rw [← hserver] at hsocket hcases
  refine ⟨hsocket, ?_⟩
  rcases hcases with hfds | ⟨hfds, -⟩ | ⟨d, hfds, hready, hlistener⟩
  · rw [hfds, if_neg (lt_irrefl _)] at hphase'
    exact Or.inl ⟨hphase', hfds⟩
  · rw [hfds, if_pos (length_eraseP_lt hp)] at hphase'
    exact Or.inr (Or.inl ⟨hphase', hfds⟩)
  · rw [hfds, List.length_append, if_neg (by omega)] at hphase'
    refine Or.inr (Or.inr ⟨hphase', ?_, d, hfds⟩)
    simp [listens, hready, hlistener]

theorem left_of_read (h : σ.phase = .read i) : σ.left = σ.server.scanWork i + 1 := by
  rw [PollLoop.left, h]

theorem left_of_write (h : σ.phase = .write i) : σ.left =
    2 * (σ.server.pollfds.length - i) +
      2 * (σ.server.pollfds.drop (i + 1)).countP (listens σ.server.serverSocket) := by
  rw [PollLoop.left, h]

theorem indexed_of_write (h : σ.phase = .write i) (hi : i < σ.server.pollfds.length) :
    σ.Indexed := by
  intro j hj
  obtain rfl : i = j := Phase.write.inj (h.symm.trans hj)
  exact hi

theorem indexed_of_read (h : σ.phase = .read i) : σ.Indexed :=
  fun _ hj ↦ Phase.noConfusion (h.symm.trans hj)

/-- The `POLLIN` part leaves less to do. -/
theorem left_step_read (h : σ.server.InStep) (hphase : σ.phase = .read i)
    (hi : i < σ.server.pollfds.length) (incoming : Incoming) (received : Except Errno Bytes) :
    (σ.step (.read incoming received)).left < σ.left ∧
      (σ.step (.read incoming received)).Indexed := by
  have hp := List.getElem?_eq_getElem hi
  generalize σ.server.pollfds[i] = p at hp
  obtain ⟨hsocket, hcases⟩ := step_read_cases hphase hp incoming received
  generalize σ.step (.read incoming received) = σ' at hsocket hcases ⊢
  have hwork := scanWork_eq hp
  rw [left_of_read hphase, hwork, Server.scanWork]
  rcases hcases with ⟨hphase', hfds⟩ | ⟨hphase', hfds⟩ | ⟨hphase', hlistens, d, hfds⟩
  · refine ⟨?_, indexed_of_write hphase' (hfds ▸ hi)⟩
    rw [left_of_write hphase', hsocket, hfds]
    omega
  · refine ⟨?_, indexed_of_read hphase'⟩
    have hlen := length_eraseP_lt hp
    rw [left_of_read hphase', Server.scanWork, hsocket, hfds, drop_eraseP h hp]
    omega
  · have hlen : σ'.server.pollfds.length = σ.server.pollfds.length + 1 := by
      rw [hfds, List.length_append, List.length_singleton]
    refine ⟨?_, indexed_of_write hphase' (by omega)⟩
    have hnew : [({ fd := d } : PollFd)].countP (listens σ.server.serverSocket) = 0 := rfl
    have hone : [p].countP (listens σ.server.serverSocket) = 1 :=
      List.countP_cons_of_pos hlistens
    rw [left_of_write hphase', hlen, hsocket, hfds,
      List.drop_append_of_le_length (show i + 1 ≤ σ.server.pollfds.length from hi),
      List.countP_append, hnew]
    omega

/-- So does the `POLLOUT` part. -/
theorem left_step_write (h : σ.server.InStep) (hphase : σ.phase = .write i)
    (hi : i < σ.server.pollfds.length) (sent : Int) :
    (σ.writeEntry i sent).left < σ.left ∧ (σ.writeEntry i sent).Indexed := by
  have hp := List.getElem?_eq_getElem hi
  generalize σ.server.pollfds[i] = p at hp
  obtain ⟨-, hsocket, hcases⟩ := writeEntry_cases hp ⟨.acceptFailed, .ok [], sent⟩
  dsimp only at hsocket hcases
  generalize σ.writeEntry i sent = σ' at hsocket hcases ⊢
  rw [left_of_write hphase]
  rcases hcases with ⟨hphase', hfds⟩ | ⟨hphase', hfds, -⟩
  · refine ⟨?_, indexed_of_read hphase'⟩
    rw [left_of_read hphase', Server.scanWork, hsocket, hfds]
    omega
  · refine ⟨?_, indexed_of_read hphase'⟩
    have hlen := length_eraseP_lt hp
    rw [left_of_read hphase', Server.scanWork, hsocket, hfds, drop_eraseP h hp]
    omega

end Entry

/-! ## Steps -/

/-- Everything but a change of the iteration order. -/
def PollEvent.counts : PollEvent → Bool
  | rehash _ => false
  | _ => true

section Step

variable {σ : PollLoop} {e : PollEvent}

/-- Where the `POLLIN` part of a turn may happen. -/
theorem phase_of_read {incoming : Incoming} {received : Except Errno Bytes}
    (he : σ.enabled (.read incoming received)) :
    ∃ i, σ.phase = .read i ∧ i < σ.server.pollfds.length := by
  obtain ⟨s, phase, taken⟩ := σ
  cases phase with
  | read i => exact ⟨i, rfl, he.1⟩
  | prepare | write => exact he.elim

theorem phase_of_write {sent : Int} (he : σ.enabled (.write sent)) : ∃ i, σ.phase = .write i := by
  obtain ⟨s, phase, taken⟩ := σ
  cases phase with
  | write i => exact ⟨i, rfl⟩
  | prepare | read => exact he.elim

theorem step_write_eq {i : Nat} (hphase : σ.phase = .write i) (sent : Int) :
    σ.step (.write sent) = σ.writeEntry i sent := by
  unfold PollLoop.step
  rw [hphase]

/-- The loop before `poll` goes on to the next entry. -/
theorem left_step_prepare (h : σ.server.InStep) (he : σ.enabled .prepare) :
    (σ.step .prepare).left < σ.left ∧ (σ.step .prepare).Indexed := by
  obtain ⟨s, phase, taken⟩ := σ
  cases phase with
  | prepare i =>
      have hi : i < s.pollfds.length := he
      have hlen : (s.prepareEntry i).pollfds.length = s.pollfds.length := by
        rw [Server.InStep.prepareEntry_eq h (List.getElem?_eq_getElem hi)]
        exact List.length_modify _ _ _
      refine ⟨?_, fun j hj ↦ Phase.noConfusion hj⟩
      change (s.prepareEntry i).pollfds.length - (i + 1) +
        2 * (s.prepareEntry i).pollfds.length + 4 < s.pollfds.length - i + 2 * s.pollfds.length + 4
      omega
  | read | write => exact he.elim

/-- `poll` returns. -/
theorem left_step_poll (h : σ.server.InStep) {revents : Nat → Bool × Bool}
    (he : σ.enabled (.poll revents)) :
    (σ.step (.poll revents)).left < σ.left ∧ (σ.step (.poll revents)).Indexed := by
  have hafter : (σ.step (.poll revents)).server.InStep := (step_effect h he).inStep h
  obtain ⟨s, phase, taken⟩ := σ
  cases phase with
  | prepare i =>
      have hlen : (s.setRevents revents).pollfds.length = s.pollfds.length := List.length_mapIdx
      have hcount : (s.setRevents revents).pollfds.countP (listens s.serverSocket) ≤ 1 :=
        hafter.countP_listens_le
      refine ⟨?_, fun j hj ↦ Phase.noConfusion hj⟩
      change 2 * ((s.setRevents revents).pollfds.length - 0) +
        2 * (s.setRevents revents).pollfds.countP (listens s.serverSocket) + 1 <
          s.pollfds.length - i + 2 * s.pollfds.length + 4
      omega
  | read | write => exact he.elim

/-- Every step within a round brings it nearer to its end. -/
theorem left_step (h : σ.server.InStep) (hindexed : σ.Indexed) (he : σ.enabled e) :
    (e.counts = true → e.endsRound = false → (σ.step e).left < σ.left) ∧
      (e.counts = false → (σ.step e).left = σ.left) ∧ (σ.step e).Indexed := by
  cases e with
  | prepare =>
      obtain ⟨hleft, hin⟩ := left_step_prepare h he
      exact ⟨fun _ _ ↦ hleft, fun hc ↦ Bool.noConfusion hc, hin⟩
  | poll revents =>
      obtain ⟨hleft, hin⟩ := left_step_poll h he
      exact ⟨fun _ _ ↦ hleft, fun hc ↦ Bool.noConfusion hc, hin⟩
  | read incoming received =>
      obtain ⟨i, hphase, hi⟩ := phase_of_read he
      obtain ⟨hleft, hin⟩ := left_step_read h hphase hi incoming received
      exact ⟨fun _ _ ↦ hleft, fun hc ↦ Bool.noConfusion hc, hin⟩
  | write sent =>
      obtain ⟨i, hphase⟩ := phase_of_write he
      obtain ⟨hleft, hin⟩ := left_step_write h hphase (hindexed i hphase) sent
      rw [step_write_eq hphase]
      exact ⟨fun _ _ ↦ hleft, fun hc ↦ Bool.noConfusion hc, hin⟩
  | round =>
      obtain ⟨s, phase, taken⟩ := σ
      cases phase with
      | read i =>
          exact ⟨fun _ hend ↦ Bool.noConfusion hend, fun hc ↦ Bool.noConfusion hc,
            fun j hj ↦ Phase.noConfusion hj⟩
      | prepare | write => exact he.elim
  | rehash clients => exact ⟨fun hc ↦ Bool.noConfusion hc, fun _ ↦ rfl, hindexed⟩

/-- A round goes on by itself, unless it has come to the call of `poll`: `accept`, `recv`
and `send` do not block. -/
theorem exists_step (h : ¬ σ.polls) : ∃ e, σ.enabled e ∧ e.counts = true ∧
    (∀ incoming received, e = .read incoming received → incoming = .acceptFailed) ∧
    ∀ revents, e ≠ .poll revents := by
  obtain ⟨s, phase, taken⟩ := σ
  cases phase with
  | prepare i =>
      have hi : i < s.pollfds.length := Nat.lt_of_not_le h
      exact ⟨.prepare, hi, rfl, nofun, nofun⟩
  | read i =>
      by_cases hi : i < s.pollfds.length
      · refine ⟨.read .acceptFailed (.ok []), ⟨hi, trivial⟩, rfl, ?_, nofun⟩
        rintro incoming received ⟨⟩
        rfl
      · exact ⟨.round, Nat.le_of_not_lt hi, rfl, nofun, nofun⟩
  | write i =>
      exact ⟨.write 0, fun _ _ ↦ Int.natCast_nonneg _, rfl, nofun, nofun⟩

end Step

/-! ## The process -/

namespace ProcessEvent

/-- Everything but a signal and a change of the iteration order. -/
def counts : ProcessEvent → Bool
  | signal => false
  | loop e => e.counts
  | _ => true

/-- A call of `poll` returns. -/
def callsPoll : ProcessEvent → Bool
  | loop (.poll _) | pollFailed => true
  | _ => false

end ProcessEvent

namespace Process

/-- `main` has returned. -/
def Ended (π : Process) : Prop := π.stage = .failed ∨ π.stage = .returned

/-- The process is at the call of `poll`, which has no timeout: it goes on when an entry is
ready or another signal interrupts the call. -/
def Waits (π : Process) : Prop := π.stage = .serving ∧ π.loop.polls

instance (π : Process) : Decidable π.Waits := inferInstanceAs (Decidable (_ ∧ _))

/-- A bound on the steps until `main` has returned, once a signal has arrived. -/
def remaining (π : Process) : Nat :=
  match π.stage with
  | .starting => 3
  | .testing => 2
  | .serving => π.loop.left + 2
  | .leaving => 1
  | .failed | .returned => 0

/-- How often `poll` can still be called then: once, in a round that has not come to it. -/
def remainingPolls (π : Process) : Nat :=
  match π.stage, π.loop.phase with
  | .serving, .prepare _ => 1
  | _, _ => 0

/-- What holds of every state that the process reaches. -/
structure Ready (password : Bytes) (π : Process) : Prop where
  sound : Ledger.Sound π.calls
  accounted : π.Accounted password
  indexed : π.loop.Indexed

section

variable {password : Bytes} {π : Process} {e : ProcessEvent}

theorem Ready.step (h : π.Ready password) (he : π.enabled e) : (π.step e).Ready password := by
  obtain ⟨hs, ha⟩ := h.accounted.step h.sound he
  refine ⟨hs, ha, ?_⟩
  have haccounted := h.accounted
  have hindexed := h.indexed
  obtain ⟨stage, loop, signal, calls⟩ := π
  cases e with
  | init outcome =>
      obtain ⟨rfl, -⟩ : stage = .starting ∧ _ := he
      obtain ⟨rfl, -⟩ : loop = _ ∧ _ := haccounted
      exact fun _ hj ↦ Phase.noConfusion hj
  | loop e =>
      obtain ⟨rfl, hallows⟩ : stage = .serving ∧ _ := he
      have hholding : Holding loop.server (Ledger.live calls) := haccounted
      exact (left_step hholding.inStep hindexed (enabled_of_allows hholding hallows)).2.2
  | signal | test | pollFailed | closeAll => exact hindexed

/-- What is left of a round is left of the process. -/
theorem remaining_loop (h : π.Ready password) {e : PollEvent} (he : π.enabled (.loop e)) :
    (e.counts = true → (π.step (.loop e)).remaining < π.remaining) ∧
      (e.counts = false → (π.step (.loop e)).remaining ≤ π.remaining) := by
  have haccounted := h.accounted
  have hindexed := h.indexed
  obtain ⟨stage, loop, signal, calls⟩ := π
  obtain ⟨rfl, hallows⟩ : stage = .serving ∧ _ := he
  have hholding : Holding loop.server (Ledger.live calls) := haccounted
  obtain ⟨hless, hsame, -⟩ :=
    left_step hholding.inStep hindexed (enabled_of_allows hholding hallows)
  have hserving (hend : e.endsRound = false) :
      (step ⟨.serving, loop, signal, calls⟩ (.loop e)).remaining = (loop.step e).left + 2 := by
    simp only [step, remaining, hend, Bool.false_eq_true, if_false]
  have hbefore : (⟨.serving, loop, signal, calls⟩ : Process).remaining = loop.left + 2 := rfl
  rw [hbefore]
  cases e with
  | round =>
      refine ⟨fun _ ↦ ?_, fun hc ↦ Bool.noConfusion hc⟩
      change 2 < loop.left + 2
      obtain ⟨s, phase, taken⟩ := loop
      cases phase with
      | read i => exact Nat.lt_add_of_pos_left (Nat.succ_pos _)
      | prepare | write => exact hallows.elim
  | rehash clients =>
      refine ⟨fun hc ↦ Bool.noConfusion hc, fun _ ↦ ?_⟩
      rw [hserving rfl, hsame rfl]
  | prepare | poll | read | write =>
      refine ⟨fun _ ↦ ?_, fun hc ↦ Bool.noConfusion hc⟩
      rw [hserving rfl]
      exact Nat.add_lt_add_right (hless rfl rfl) 2

/-- Once a signal has arrived, every step brings the process nearer to its end. -/
theorem remaining_step (h : π.Ready password) (hsignal : π.signal = true) (he : π.enabled e) :
    (e.counts = true → (π.step e).remaining < π.remaining) ∧
      (e.counts = false → (π.step e).remaining ≤ π.remaining) := by
  cases e with
  | loop e => exact remaining_loop h he
  | signal => exact ⟨fun hc ↦ Bool.noConfusion hc, fun _ ↦ le_rfl⟩
  | init outcome =>
      refine ⟨fun _ ↦ ?_, fun hc ↦ Bool.noConfusion hc⟩
      obtain ⟨stage, loop, signal, calls⟩ := π
      obtain ⟨rfl, -⟩ : stage = .starting ∧ _ := he
      cases outcome with
      | listening fd => exact Nat.lt_succ_self 2
      | _ => exact Nat.succ_pos 2
  | test =>
      refine ⟨fun _ ↦ ?_, fun hc ↦ Bool.noConfusion hc⟩
      obtain ⟨stage, loop, signal, calls⟩ := π
      obtain rfl : stage = .testing := he
      obtain rfl : signal = true := hsignal
      exact Nat.lt_succ_self 1
  | pollFailed =>
      refine ⟨fun _ ↦ ?_, fun hc ↦ Bool.noConfusion hc⟩
      obtain ⟨stage, loop, signal, calls⟩ := π
      obtain ⟨rfl, -⟩ : stage = .serving ∧ _ := he
      exact Nat.lt_add_left loop.left Nat.one_lt_two
  | closeAll =>
      refine ⟨fun _ ↦ ?_, fun hc ↦ Bool.noConfusion hc⟩
      obtain ⟨stage, loop, signal, calls⟩ := π
      obtain rfl : stage = .leaving := he
      exact Nat.one_pos

theorem remainingPolls_le_one (π : Process) : π.remainingPolls ≤ 1 := by
  unfold remainingPolls
  split <;> decide

/-- The call that the process waits in is still to come. -/
theorem Waits.remainingPolls (h : π.Waits) : π.remainingPolls = 1 := by
  obtain ⟨stage, ⟨s, phase, taken⟩, signal, calls⟩ := π
  obtain ⟨rfl, hpolls⟩ := h
  cases phase with
  | prepare i => rfl
  | read | write => exact hpolls.elim

/-- Once a signal has arrived, `poll` is called in the round that is going on, if it has not
been called yet. -/
theorem remainingPolls_step (hsignal : π.signal = true) (he : π.enabled e) :
    (e.callsPoll = true → (π.step e).remainingPolls < π.remainingPolls) ∧
      (e.callsPoll = false → (π.step e).remainingPolls ≤ π.remainingPolls) := by
  obtain ⟨stage, ⟨s, phase, taken⟩, signal, calls⟩ := π
  cases e with
  | init outcome =>
      obtain ⟨rfl, -⟩ : stage = .starting ∧ _ := he
      refine ⟨fun hc ↦ Bool.noConfusion hc, fun _ ↦ ?_⟩
      cases outcome <;> exact le_rfl
  | signal => exact ⟨fun hc ↦ Bool.noConfusion hc, fun _ ↦ le_rfl⟩
  | test =>
      obtain rfl : stage = .testing := he
      obtain rfl : signal = true := hsignal
      exact ⟨fun hc ↦ Bool.noConfusion hc, fun _ ↦ le_rfl⟩
  | pollFailed =>
      obtain ⟨rfl, hpolls⟩ : stage = .serving ∧ _ := he
      cases phase with
      | prepare i => exact ⟨fun _ ↦ Nat.one_pos, fun hc ↦ Bool.noConfusion hc⟩
      | read | write => exact hpolls.elim
  | closeAll =>
      obtain rfl : stage = .leaving := he
      exact ⟨fun hc ↦ Bool.noConfusion hc, fun _ ↦ le_rfl⟩
  | loop e =>
      obtain ⟨rfl, hallows⟩ : stage = .serving ∧ _ := he
      have hzero {phase' : Phase} (h : ∀ k, phase' ≠ .prepare k) (stage : Stage) (s : Server)
          (taken : Nat → Bytes) (calls : List (Call Int)) :
          (⟨stage, ⟨s, phase', taken⟩, signal, calls⟩ : Process).remainingPolls = 0 := by
        cases phase' with
        | prepare k => exact absurd rfl (h k)
        | read | write => cases stage <;> rfl
      cases e with
      | prepare =>
          cases phase with
          | prepare i => exact ⟨fun hc ↦ Bool.noConfusion hc, fun _ ↦ le_rfl⟩
          | read | write => exact hallows.elim
      | poll revents =>
          cases phase with
          | prepare i => exact ⟨fun _ ↦ Nat.one_pos, fun hc ↦ Bool.noConfusion hc⟩
          | read | write => exact hallows.elim
      | read incoming received =>
          cases phase with
          | read i =>
              refine ⟨fun hc ↦ Bool.noConfusion hc, fun _ ↦ (hzero (fun k ↦ ?_) _ _ _ _).le⟩
              exact PollLoop.phase_readEntry (σ := ⟨s, .read i, taken⟩) rfl incoming received
          | prepare | write => exact hallows.elim
      | write sent =>
          cases phase with
          | write i =>
              refine ⟨fun hc ↦ Bool.noConfusion hc, fun _ ↦ (hzero (fun k ↦ ?_) _ _ _ _).le⟩
              exact PollLoop.phase_writeEntry (σ := ⟨s, .write i, taken⟩) rfl sent
          | prepare | read => exact hallows.elim
      | round =>
          cases phase with
          | read i => exact ⟨fun hc ↦ Bool.noConfusion hc, fun _ ↦ le_rfl⟩
          | prepare | write => exact hallows.elim
      | rehash clients => exact ⟨fun hc ↦ Bool.noConfusion hc, fun _ ↦ le_rfl⟩

end

/-- After a signal, what can still happen is bounded. -/
def shutdown (password : Bytes) : Ranking process where
  ranked π := π.signal = true ∧ π.Ready password
  counts := ProcessEvent.counts
  rank := remaining
  invariant π e he hπ := ⟨by cases e <;> first | exact hπ.1 | rfl, hπ.2.step he⟩
  decreases _ _ he hπ := (remaining_step hπ.2 hπ.1 he).1
  keeps _ _ he hπ := (remaining_step hπ.2 hπ.1 he).2

def lastPoll : Ranking process where
  ranked π := π.signal = true
  counts := ProcessEvent.callsPoll
  rank := remainingPolls
  invariant π e _ hπ := by cases e <;> first | exact hπ | rfl
  decreases _ _ he hπ := (remainingPolls_step hπ he).1
  keeps _ _ he hπ := (remainingPolls_step hπ he).2

variable {password : Bytes} {π : Process}

theorem remaining_le (h : π.Ready password) :
    π.remaining ≤ 3 * π.loop.server.pollfds.length + 6 := by
  have haccounted := h.accounted
  obtain ⟨stage, ⟨s, phase, taken⟩, signal, calls⟩ := π
  cases stage with
  | serving =>
      have hcount := (show Holding s (Ledger.live calls) from haccounted).inStep.countP_listens_le
      have hdrop (i : Nat) : (s.pollfds.drop i).countP (listens s.serverSocket) ≤ 1 :=
        ((List.drop_sublist i s.pollfds).countP_le).trans hcount
      cases phase with
      | prepare i =>
          change s.pollfds.length - i + 2 * s.pollfds.length + 4 + 2 ≤ 3 * s.pollfds.length + 6
          omega
      | read i =>
          have := hdrop i
          change s.scanWork i + 1 + 2 ≤ 3 * s.pollfds.length + 6
          unfold Server.scanWork
          omega
      | write i =>
          have := hdrop (i + 1)
          change 2 * (s.pollfds.length - i) +
            2 * (s.pollfds.drop (i + 1)).countP (listens s.serverSocket) + 2 ≤
              3 * s.pollfds.length + 6
          omega
  | starting | testing | leaving | failed | returned =>
      change _ ≤ 3 * s.pollfds.length + 6
      simp only [remaining]
      omega

/-- Until `main` has returned, the process goes on by itself, unless it waits in `poll`. -/
theorem exists_event (h : ¬ π.Ended) (hwaits : ¬ π.Waits) :
    ∃ e, π.enabled e ∧ e.counts = true ∧ e.callsPoll = false := by
  obtain ⟨stage, loop, signal, calls⟩ := π
  cases stage with
  | starting => exact ⟨.init .logFailed, ⟨rfl, fun _ hfd ↦ nomatch hfd⟩, rfl, rfl⟩
  | testing => exact ⟨.test, rfl, rfl, rfl⟩
  | leaving => exact ⟨.closeAll, rfl, rfl, rfl⟩
  | serving =>
      obtain ⟨e, he, hcounts, hread, hpoll⟩ := exists_step fun hpolls ↦ hwaits ⟨rfl, hpolls⟩
      refine ⟨.loop e, ⟨rfl, ?_⟩, hcounts, ?_⟩
      · obtain ⟨s, phase, taken⟩ := loop
        cases e with
        | read incoming received =>
            obtain rfl := hread incoming received rfl
            cases phase with
            | read i => exact ⟨he.1, fun _ hfd ↦ nomatch hfd⟩
            | prepare | write => exact he.elim
        | prepare | poll | write | round | rehash => cases phase <;> exact he
      · cases e with
        | poll revents => exact absurd rfl (hpoll revents)
        | prepare | read | write | round | rehash => rfl
  | failed => exact absurd (Or.inl rfl) h
  | returned => exact absurd (Or.inr rfl) h

/-- Where it waits, it goes on when `poll` returns. -/
theorem exists_event_of_waits (h : π.Waits) : ∃ e, π.enabled e ∧ e.counts = true :=
  ⟨.pollFailed, h, rfl⟩

end Process

section Run

variable {password : Bytes} {es : List ProcessEvent}

theorem ready_run (hv : process.Valid (.start password) es) :
    (process.run (.start password) es).Ready password :=
  hv.invariant (I := Process.Ready password) (fun _ _ he hπ ↦ hπ.step he)
    ⟨Ledger.sound_nil, ⟨rfl, rfl⟩, fun _ hj ↦ Phase.noConfusion hj⟩

/-- After a signal, however it goes on, the process takes a number of steps that is bounded by
the entries of the poll vector; of the calls of `poll`, the one it may be waiting in included,
at most one is left, and none if the signal has not found it in a round before that call; and
it goes on by itself until `main` has returned or it waits there.  It can always be brought to
return, by letting `poll` return if it waits. -/
theorem signal_returns (hv : process.Valid (.start password) es)
    (hsignal : (process.run (.start password) es).signal = true) :
    let π := process.run (.start password) es
    π.remainingPolls ≤ 1 ∧
    ∀ fs, process.Valid π fs →
      fs.countP ProcessEvent.counts ≤ 3 * π.loop.server.pollfds.length + 6 ∧
      fs.countP ProcessEvent.callsPoll + (if (process.run π fs).Waits then 1 else 0) ≤
        π.remainingPolls ∧
      ((process.run π fs).Ended ∨ (process.run π fs).Waits ∨
        ∃ e, process.enabled (process.run π fs) e ∧ e.counts = true ∧ e.callsPoll = false) ∧
      ∃ gs, process.Valid (process.run π fs) gs ∧
        (process.run (process.run π fs) gs).Ended := by
  intro π
  have hready : π.Ready password := ready_run hv
  refine ⟨π.remainingPolls_le_one, fun fs hfs ↦ ⟨?_, ?_, ?_, ?_⟩⟩
  · have hcount := (Process.shutdown password).countP_le hfs ⟨hsignal, hready⟩
    exact (Nat.le_of_add_right_le hcount).trans (Process.remaining_le hready)
  · refine (Nat.add_le_add_left ?_ _).trans (Process.lastPoll.countP_le hfs hsignal)
    split
    · rename_i hwaits
      exact hwaits.remainingPolls.ge
    · exact Nat.zero_le _
  · by_cases hended : (process.run π fs).Ended
    · exact Or.inl hended
    · by_cases hwaits : (process.run π fs).Waits
      · exact Or.inr (Or.inl hwaits)
      · exact Or.inr (Or.inr (Process.exists_event hended hwaits))
  · have hranked := hfs.invariant (Process.shutdown password).invariant ⟨hsignal, hready⟩
    refine (Process.shutdown password).exists_run (fun π' _ hended ↦ ?_) hranked
    by_cases hwaits : π'.Waits
    · exact Process.exists_event_of_waits hwaits
    · obtain ⟨e, he, hcounts, -⟩ := Process.exists_event hended hwaits
      exact ⟨e, he, hcounts⟩

/-- The signal finds the process before the call of `poll`, which then may block. -/
theorem signal_returns_served :
    let π := process.run (.start (lit "pw")) (servedRun.take 29)
    π.remainingPolls ≤ 1 ∧
    ∀ fs, process.Valid π fs →
      fs.countP ProcessEvent.counts ≤ 3 * π.loop.server.pollfds.length + 6 ∧
      fs.countP ProcessEvent.callsPoll + (if (process.run π fs).Waits then 1 else 0) ≤
        π.remainingPolls ∧
      ((process.run π fs).Ended ∨ (process.run π fs).Waits ∨
        ∃ e, process.enabled (process.run π fs) e ∧ e.counts = true ∧ e.callsPoll = false) ∧
      ∃ gs, process.Valid (process.run π fs) gs ∧
        (process.run (process.run π fs) gs).Ended :=
  signal_returns (by decide +kernel) (by decide +kernel)

example : (process.run (.start (lit "pw")) (servedRun.take 29)).Waits := by decide +kernel

end Run

end IrcServer
