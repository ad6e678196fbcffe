import IrcServer.Framing
import IrcServer.Topics
import IrcServer.Library.Gather

/-!
# Traffic

A line makes the server append one text, if any; only `NAMES` appends two, and a topic is
announced to everybody in its channel.  The texts appended for the clients that are
connected are therefore never more than the lines that were received, times what the channels
allow (`texts_le_lines`): on the server as it is started, where there are no channels, no more
than the lines.
-/

namespace IrcServer

open Library Commands

/-- The texts that were appended for the clients that are there. -/
def Server.texts (s : Server) : List Reply := s.clients.gather Client.written

/-- No line is answered with more than `n` texts. -/
structure Server.Answers (n : Nat) (s : Server) : Prop where
  one_le : 1 ≤ n
  channels : ∀ k chan, s.channels.lookup k = some chan → 2 ≤ n ∧ chan.occupants.length ≤ n

/-! ## One line -/

namespace Server

variable {s s' : Server} {fd : Int} {n : Nat}

theorem Answers.of_channels (h : s.Answers n) (hs : s'.channels = s.channels) : s'.Answers n :=
  ⟨h.one_le, hs ▸ h.channels⟩

/-- A topic does not matter. -/
theorem Answers.of_sameRosters (h : s.Answers n) (hs : SameRosters s s') : s'.Answers n where
  one_le := h.one_le
  channels k chan' hk := by
    obtain ⟨topic, htopic⟩ := hs.exists_topic k
    obtain ⟨chan, hchan, rfl⟩ := Option.map_eq_some_iff.mp (htopic.symm.trans hk)
    exact h.channels k chan hchan

theorem length_texts_modify_le {f : Client → Client} {j : Nat}
    (hf : ∀ c, (f c).written.length ≤ c.written.length + j) :
    (s.modify fd f).texts.length ≤ s.texts.length + j := by
  refine UnorderedMap.length_gather_le fd j fun d c' hc' ↦ Or.inr ?_
  obtain ⟨c, hc, ⟨hd, rfl⟩ | ⟨hd, rfl⟩⟩ := exists_of_lookup_modify hc'
  · refine ⟨c, hc, ?_⟩
    rw [if_pos hd]
    exact hf c
  · refine ⟨c', hc, ?_⟩
    rw [if_neg hd]
    exact Nat.le_refl _

theorem length_texts_reply_le (m : Reply) : (s.reply fd m).texts.length ≤ s.texts.length + 1 :=
  length_texts_modify_le fun c ↦ by simp [Client.appendToWriteBuffer]

theorem length_texts_intake_le (fd : Int) (k : Bytes → List Bytes → Bytes × List Bytes) :
    (s.intake fd k).texts.length ≤ s.texts.length :=
  length_texts_modify_le (j := 0) fun _ ↦ Nat.le_refl _

theorem length_texts_deliver_le (p : ClientPtr) (m : Reply) :
    (s.deliver p m).texts.length ≤ s.texts.length + 1 := by
  unfold deliver
  split
  · exact length_texts_reply_le m
  · exact Nat.le_succ _

theorem length_texts_deliver_all_le (ps : List ClientPtr) (m : Reply) :
    (ps.foldl (·.deliver · m) s).texts.length ≤ s.texts.length + ps.length := by
  induction ps generalizing s with
  | nil => exact Nat.le_refl _
  | cons p ps ih =>
      have hfirst := s.length_texts_deliver_le p m
      have hrest := ih (s := s.deliver p m)
      rw [List.foldl_cons, List.length_cons]
      omega

theorem length_texts_publicMessage_le (chan : Channel) (m : Reply) :
    (s.publicMessage chan m).texts.length ≤ s.texts.length + chan.occupants.length := by
  unfold publicMessage
  split
  · exact Nat.le_add_right _ _
  · rw [← List.foldl_append]
    exact length_texts_deliver_all_le _ m

end Server

/-- At most one text is appended. -/
theorem Tells.length_texts_le {s s' : Server} {fields : List Bytes} (h : Tells s fields s') :
    s'.texts.length ≤ s.texts.length + 1 := by
  have hstay {d : Int} {c' : Client} (hc' : s'.clients.lookup d = some c')
      (hsame : (s'.clients.lookup d).map Client.written =
        (s.clients.lookup d).map Client.written) (j : Nat) :
      ∃ c, s.clients.lookup d = some c ∧ c'.written.length ≤ c.written.length + j := by
    rw [hc'] at hsame
    obtain ⟨c, hc, hw⟩ := Option.map_eq_some_iff.mp hsame.symm
    exact ⟨c, hc, hw ▸ Nat.le_add_right _ j⟩
  cases h with
  | nobody _ h =>
      refine (UnorderedMap.length_gather_le 0 0 fun d c' hc' ↦ Or.inr ?_).trans
        (Nat.le_succ _)
      exact hstay hc' (h d) _
  | somebody _ d c r hr hc hd h =>
      refine UnorderedMap.length_gather_le d 1 fun e c' hc' ↦ Or.inr ?_
      by_cases he : e = d
      · subst he
        rw [hc', Option.map_some] at hd
        refine ⟨c, hc, ?_⟩
        rw [Option.some.inj hd, if_pos rfl, List.length_append, List.length_singleton]
      · exact hstay hc' (h e he) _

section Line

variable {s s' : Server} {fd : Int} {n : Nat}

theorem Topic.length_texts_execute_le (h : s.Answers n) (params : List Bytes) :
    (Topic.execute s fd params).texts.length ≤ s.texts.length + n := by
  by_cases hsets : Topic.Sets s fd params
  · obtain ⟨k, chan, topic, hfind, hpermits⟩ := hsets
    rw [Topic.execute_of_found hfind hpermits]
    have hocc := (h.channels k chan hpermits.lookup).2
    exact (Server.length_texts_publicMessage_le _ _).trans (Nat.add_le_add_left hocc _)
  · obtain ⟨m, hm, -⟩ := Topic.execute_of_not_sets hsets
    rw [hm]
    exact (Server.length_texts_reply_le m).trans (Nat.add_le_add_left h.one_le _)

theorem Names.length_texts_execute_le (h : s.Answers n) (params : List Bytes) :
    (Names.execute s fd params).texts.length ≤ s.texts.length + n := by
  have hone := h.one_le
  have hexit := Names.execute_exit s fd params
  generalize Names.execute s fd params = s' at hexit
  cases hexit with
  | notEnoughParameters | noSuchChannel =>
      exact (Server.length_texts_reply_le _).trans (Nat.add_le_add_left hone _)
  | listed k chan rest hfinds =>
      have htwo := (h.channels k chan hfinds.lookup).1
      refine (Server.length_texts_reply_le _).trans ?_
      have hfirst : ((Names.visit s chan).reply fd (.namReply (s.client fd).nickname chan.name
          (Names.nameList s chan))).texts.length ≤ s.texts.length + 1 :=
        Server.length_texts_reply_le _
      exact (Nat.add_le_add_right hfirst 1).trans (Nat.add_le_add_left htwo _)

/-- What one line appends. -/
theorem Dispatched.length_texts_le {cmd : Parser} (hd : Dispatched s fd cmd s')
    (hfd : fd ∈ s.clients) (h : s.Answers n) : s'.texts.length ≤ s.texts.length + n := by
  have hone {t : Server} (ht : t.texts.length ≤ s.texts.length + 1) :
      t.texts.length ≤ s.texts.length + n := ht.trans (Nat.add_le_add_left h.one_le _)
  obtain ⟨c, hc⟩ := UnorderedMap.mem_iff_lookup.mp hfd
  cases hd with
  | pass => exact hone ((handlePass_exit s fd cmd).tells hc).length_texts_le
  | nick => exact hone ((handleNick_exit s fd cmd).tells hc).length_texts_le
  | user => exact hone ((handleUser_exit s fd cmd).tells hc).length_texts_le
  | ping => exact hone ((handlePing_exit s fd cmd).tells hc).length_texts_le
  | quit => exact hone (handleQuit_tells hc cmd).length_texts_le
  | privMsg => exact hone ((handlePrivMsg_exit s fd cmd).tells hc).length_texts_le
  | unregistered | unknown => exact hone (Server.length_texts_reply_le _)
  | executed c hcmd hreg _ hexec =>
      obtain rfl : (c.execute s fd cmd.params).1 = s' := congrArg Prod.fst hexec
      cases c with
      | topic => exact Topic.length_texts_execute_le h cmd.params
      | names => exact Names.length_texts_execute_le h cmd.params
      | join => exact absurd (congrArg Prod.snd hexec) (Join.throws s fd cmd.params)
      | invite | kick | mode | part => exact Nat.le_add_right _ _
  | cap | thrown | pong | ignored => exact Nat.le_add_right _ _

theorem Server.length_texts_process_le (h : s.Answers n) (hfd : fd ∈ s.clients) (line : Bytes) :
    (Server.process fd s line).texts.length ≤ s.texts.length + n :=
  (length_texts_intake_le fd _).trans
    ((processCommand_dispatched s fd (Parser.parse line)).length_texts_le hfd h)

theorem Server.Answers.process (h : s.Answers n) (fd : Int) (line : Bytes) :
    (Server.process fd s line).Answers n :=
  (h.of_sameRosters (processCommand_dispatched s fd (Parser.parse line)).sameRosters).of_channels
    rfl

/-- What the lines of a chunk append. -/
theorem Server.length_texts_foldl_process_le (h : s.Answers n) (hfd : fd ∈ s.clients)
    (ls : List Bytes) : (ls.foldl (Server.process fd) s).Answers n ∧
      (ls.foldl (Server.process fd) s).texts.length ≤ s.texts.length + n * ls.length := by
  induction ls generalizing s with
  | nil => exact ⟨h, Nat.le_refl _⟩
  | cons l ls ih =>
      obtain ⟨hanswers, hrest⟩ := ih (h.process fd l) ((mem_clients_process l).mpr hfd)
      refine ⟨hanswers, ?_⟩
      calc (ls.foldl (Server.process fd) (Server.process fd s l)).texts.length
          ≤ (Server.process fd s l).texts.length + n * ls.length := hrest
        _ ≤ s.texts.length + n + n * ls.length :=
            Nat.add_le_add_right (length_texts_process_le h hfd l) _
        _ = s.texts.length + n * (l :: ls).length := by
            rw [List.length_cons, Nat.mul_add_one]
            omega

end Line

/-! ## Runs -/

/-- The bytes of all chunks, each up to its first NUL. -/
def received (record : List (Nat × Bytes)) : Bytes := record.flatMap fun x ↦ cString x.2

/-- The texts appended so far, against the lines received so far. -/
structure Traffic (n : Nat) (σ : PollLoop) (record : List (Nat × Bytes)) : Prop where
  inbox : Inbox σ record
  answers : σ.server.Answers n
  texts_le : σ.server.texts.length ≤ n * (received record).count LF

/-- While nobody is read, nothing is appended. -/
theorem Quiet.length_texts_le {σ : PollLoop} {s' : Server} (h : Quiet σ s') :
    s'.texts.length ≤ σ.server.texts.length := by
  refine UnorderedMap.length_gather_le 0 0 fun d c' hc' ↦ ?_
  rcases h.clients d c' hc' with ⟨c, hc, hsame⟩ | ⟨address, rfl⟩
  · refine Or.inr ⟨c, hc, ?_⟩
    rw [(Client.eq_of_unsent hsame).2.2.2]
    exact Nat.le_add_right _ _
  · exact Or.inl rfl

theorem Traffic.step {n : Nat} {σ : PollLoop} {record : List (Nat × Bytes)}
    (h : Traffic n σ record) {e : PollEvent} (he : σ.enabled e) :
    Traffic n (σ.step e) (record ++ σ.heard e) := by
  suffices hrest : (σ.step e).server.Answers n ∧
      (σ.step e).server.texts.length ≤ n * (received (record ++ σ.heard e)).count LF from
    ⟨h.inbox.step he, hrest.1, hrest.2⟩
  cases step_fetches h.inbox.inStep he with
  | quiet hfeed hquiet =>
      rw [PollLoop.heard_of_none hfeed, List.append_nil]
      exact ⟨h.answers.of_channels hquiet.channels, hquiet.length_texts_le.trans h.texts_le⟩
  | read fd chunk hfeed hne hfd heq =>
      obtain ⟨c, hc⟩ := UnorderedMap.mem_iff_lookup.mp hfd
      rw [PollLoop.heard_of_some hfeed hc, heq, Server.receiveData_eq hc hne, Server.absorb,
        Server.client_eq hc]
      obtain ⟨hanswers, htexts⟩ := Server.length_texts_foldl_process_le h.answers hfd
        (lines LF CR (c.readBuffer ++ cString chunk))
      -- the buffer held no complete line, so that every line ends in the chunk
      have hbuf : c.readBuffer.count LF = 0 := by
        rw [(h.inbox.hasRead fd c hc).readBuffer]
        exact List.count_eq_zero.mpr (notMem_unfinished LF _)
      rw [length_lines, List.count_append, hbuf, Nat.zero_add] at htexts
      have hreceived : received (record ++ [(c.serial, chunk)]) =
          received record ++ cString chunk := by simp [received]
      refine ⟨hanswers.of_channels rfl, ?_⟩
      rw [hreceived, List.count_append, Nat.mul_add]
      refine (Server.length_texts_intake_le fd _).trans ?_
      exact htexts.trans (Nat.add_le_add_right h.texts_le _)

section Run

variable {serverSocket : Int} {password : Bytes} {channels : UnorderedMap Nat Channel}
variable {es : List PollEvent} {n : Nat}

/-- In every state that the loop reaches, the texts that were appended for the connected
clients are no more than `n` for each LF received on any connection, where `n` is at least 1,
and if there are channels at least 2 and the number of roles in each. -/
theorem texts_le_lines (hv : pollLoop.Valid (.start serverSocket password channels) es)
    (hn : (PollLoop.start serverSocket password channels).server.Answers n) :
    let σ := pollLoop.run (.start serverSocket password channels) es
    let record := pollLoop.record PollLoop.heard (.start serverSocket password channels) es
    σ.server.texts.length ≤ n * (received record).count LF := by
  have hstart : Traffic n (.start serverSocket password channels) [] :=
    ⟨⟨inStep_start serverSocket password channels, numbered_start serverSocket password channels,
      List.forall_mem_nil _, fun _ _ h ↦ nomatch h⟩, hn, Nat.zero_le _⟩
  exact (hv.record_invariant (J := Traffic n) (fun _ _ _ he h ↦ h.step he) hstart).texts_le

/-- A channel with two roles in it. -/
theorem answers_board : board.server.Answers 2 where
  one_le := by decide
  channels k chan hk := by
    by_cases h0 : k = 0
    · subst h0
      have hchan := (UnorderedMap.lookup_emplace_self (AList.notMem_empty 0)).symm.trans hk
      rw [← Option.some.inj hchan]
      exact ⟨Nat.le_refl 2, by decide⟩
    · cases (UnorderedMap.lookup_emplace_of_ne h0).symm.trans hk

theorem texts_le_lines_board :
    let σ := pollLoop.run board boardRun
    let record := pollLoop.record PollLoop.heard board boardRun
    σ.server.texts.length ≤ 2 * (received record).count LF :=
  texts_le_lines (by decide +kernel) answers_board

end Run

end IrcServer
