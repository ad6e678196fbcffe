import IrcServer.Roles
import IrcServer.Network

/-!
# The list of names

`Names::execute` writes the nicknames of a channel into one text, a space between any two
and an `@` before those of operators.  Both marks are letters that `handleNick` accepts in a
nickname, so that the list cannot always be read back (`readNames_iff`).
-/

namespace IrcServer

open Library

/-- `'@'` -/
abbrev AT : UInt8 := 64

/-- Who is in a channel, by nickname, and whether as an operator. -/
def Server.roles (s : Server) (chan : Channel) : List (Bytes × Bool) :=
  chan.operators.elems.map (fun p ↦ (Names.nicknameAt s p, true)) ++
    chan.members.elems.map (fun p ↦ (Names.nicknameAt s p, false))

theorem Server.forall_roles_iff {s : Server} {chan : Channel} (P : Bytes → Prop) :
    (∀ r ∈ s.roles chan, P r.1) ↔ ∀ p ∈ chan.occupants, P (Names.nicknameAt s p) := by
  simp only [roles, Channel.occupants, List.mem_append, List.mem_map, or_imp, forall_and,
    forall_exists_index, and_imp, forall_apply_eq_imp_iff₂]

namespace Names

/-! ## Writing -/

/-- How an occupant is written. -/
def writeName (role : Bytes × Bool) : Bytes := if role.2 then lit "@" ++ role.1 else role.1

theorem intercalate_append_cons (acc w : Bytes) (ws : List Bytes) :
    [SPACE].intercalate ((acc ++ SPACE :: w) :: ws) = [SPACE].intercalate (acc :: w :: ws) := by
  cases ws <;> simp [List.intercalate_cons_cons]

theorem foldl_addName {acc : Bytes} (hacc : acc ≠ []) (ws : List Bytes) :
    ws.foldl addName acc = [SPACE].intercalate (acc :: ws) := by
  have hspace : lit " " = [SPACE] := by decide
  induction ws generalizing acc with
  | nil => exact List.intercalate_singleton.symm
  | cons w ws ih =>
      have hadd : addName acc w = acc ++ SPACE :: w := by simp [addName, hacc, hspace]
      rw [List.foldl_cons, hadd, ih (List.append_ne_nil_of_left_ne_nil hacc _),
        intercalate_append_cons]

/-- The loops write the names with spaces between them, if there is something to write of
each. -/
theorem foldl_addName_nil {ws : List Bytes} (h : ∀ w ∈ ws, w ≠ []) :
    ws.foldl addName [] = [SPACE].intercalate ws := by
  cases ws with
  | nil => rfl
  | cons w ws => exact foldl_addName (h w List.mem_cons_self) ws

theorem writeName_ne_nil {role : Bytes × Bool} (h : role.1 ≠ []) : writeName role ≠ [] := by
  unfold writeName
  split
  · exact List.append_ne_nil_of_right_ne_nil _ h
  · exact h

theorem nameList_eq {s : Server} {chan : Channel} (h : ∀ r ∈ s.roles chan, r.1 ≠ []) :
    nameList s chan = [SPACE].intercalate ((s.roles chan).map writeName) := by
  have hne : ∀ w ∈ (s.roles chan).map writeName, w ≠ [] := by
    intro w hw
    obtain ⟨r, hr, rfl⟩ := List.mem_map.mp hw
    exact writeName_ne_nil (h r hr)
  rw [← foldl_addName_nil hne, Server.roles, List.map_append, List.foldl_append, List.map_map,
    List.map_map, List.foldl_map, List.foldl_map]
  rfl

/-! ## Reading -/

/-- What is read of one word. -/
def readName (w : Bytes) : Bytes × Bool := if w.head? = some AT then (w.tail, true) else (w, false)

/-- The list split at the spaces, a leading `@` read as the mark of an operator. -/
def readNames (list : Bytes) : List (Bytes × Bool) := (words SPACE list).map readName

theorem readName_writeName {r : Bytes × Bool} (h : r.2 = false → r.1.head? ≠ some AT) :
    readName (writeName r) = r := by
  obtain ⟨n, operator⟩ := r
  have hat : lit "@" = [AT] := by decide
  cases operator with
  | true => simp [writeName, readName, hat]
  | false => simp [writeName, readName, h rfl]

/-- No name that is read has a space. -/
theorem notMem_of_mem_readNames {list : Bytes} {r : Bytes × Bool} (hr : r ∈ readNames list) :
    SPACE ∉ r.1 := by
  obtain ⟨w, hw, rfl⟩ := List.mem_map.mp hr
  have hspace := (of_mem_words hw).2
  unfold readName
  split
  · exact fun hmem ↦ hspace (List.mem_of_mem_tail hmem)
  · exact hspace

/-- Without spaces in the names, every name written is one word. -/
theorem readNames_nameList {s : Server} {chan : Channel} (hne : ∀ r ∈ s.roles chan, r.1 ≠ [])
    (hspace : ∀ r ∈ s.roles chan, SPACE ∉ r.1) :
    readNames (nameList s chan) = (s.roles chan).map fun r ↦ readName (writeName r) := by
  rw [readNames, nameList_eq hne, words_intercalate, List.map_map]
  · rfl
  · intro w hw
    obtain ⟨r, hr, rfl⟩ := List.mem_map.mp hw
    refine ⟨writeName_ne_nil (hne r hr), ?_⟩
    have hat : SPACE ∉ lit "@" := by decide
    unfold writeName
    split
    · simp [hat, hspace r hr]
    · exact hspace r hr

/-- As many are read as members as there are members whose name has no `@` in front. -/
theorem countP_readNames (s : Server) (chan : Channel) :
    ((s.roles chan).map fun r ↦ readName (writeName r)).countP (fun r ↦ !r.2) =
      chan.members.elems.countP fun p ↦ (nicknameAt s p).head? ≠ some AT := by
  have hoperator (n : Bytes) : readName (writeName (n, true)) = (n, true) :=
    readName_writeName fun h ↦ absurd h.symm Bool.false_ne_true
  have hmember (n : Bytes) :
      (!(readName (writeName (n, false))).2) = decide (n.head? ≠ some AT) := by
    by_cases h : n.head? = some AT <;> simp [writeName, readName, h]
  rw [Server.roles, List.map_append, List.countP_append, List.map_map, List.map_map,
    List.countP_map, List.countP_map]
  simp [Function.comp_def, hoperator, hmember]

/-- All members are members. -/
theorem countP_roles (s : Server) (chan : Channel) :
    (s.roles chan).countP (fun r ↦ !r.2) = chan.members.elems.length := by
  simp [Server.roles, List.countP_append, List.countP_map, Function.comp_def]

/-- The list reads back as who is in the channel, and in what role, exactly when no name has
a space in it and no member's an `@` in front. -/
theorem perm_readNames_iff {s : Server} {chan : Channel} (hne : ∀ r ∈ s.roles chan, r.1 ≠ []) :
    (readNames (nameList s chan)).Perm (s.roles chan) ↔
      (∀ r ∈ s.roles chan, SPACE ∉ r.1) ∧
        ∀ p ∈ chan.members, (nicknameAt s p).head? ≠ some AT := by
  constructor
  · intro h
    have hspace : ∀ r ∈ s.roles chan, SPACE ∉ r.1 := fun r hr ↦
      notMem_of_mem_readNames (h.mem_iff.mpr hr)
    refine ⟨hspace, ?_⟩
    have hcount := h.countP_eq fun r ↦ !r.2
    rw [readNames_nameList hne hspace, countP_readNames, countP_roles,
      List.countP_eq_length] at hcount
    exact fun p hp ↦ of_decide_eq_true (hcount p hp)
  · rintro ⟨hspace, hat⟩
    have hread : ∀ r ∈ s.roles chan, readName (writeName r) = r := by
      intro r hr
      refine readName_writeName fun hmember ↦ ?_
      rcases List.mem_append.mp hr with hop | hmem
      · obtain ⟨p, -, rfl⟩ := List.mem_map.mp hop
        exact absurd hmember (by simp)
      · obtain ⟨p, hp, rfl⟩ := List.mem_map.mp hmem
        exact hat p hp
    rw [readNames_nameList hne hspace, List.map_congr_left hread, List.map_id']

end Names

/-- Of a channel whose occupants have nicknames, `NAMES` sends a list, and this reads back as
the nicknames and roles in the channel if and only if no nickname has a space in it and no
member's starts with an `@`. -/
theorem readNames_iff {s : Server} (fd : Int) {targetName : Bytes} {k : Nat}
    (hfind : s.channels.findFirst (·.name == targetName) = some k)
    (hne : ∀ p ∈ (s.channel k).occupants, Names.nicknameAt s p ≠ []) (rest : List Bytes) :
    let nick := (s.client fd).nickname
    ∃ list, Names.execute s fd (targetName :: rest) =
        ((Names.visit s (s.channel k)).reply fd (.namReply nick targetName list)).reply fd
          (.endOfNames nick targetName) ∧
      ((Names.readNames list).Perm (s.roles (s.channel k)) ↔
        (∀ p ∈ (s.channel k).occupants, SPACE ∉ Names.nicknameAt s p) ∧
          ∀ p ∈ (s.channel k).members, (Names.nicknameAt s p).head? ≠ some AT) := by
  intro nick
  refine ⟨Names.nameList s (s.channel k), by simp only [Names.execute, hfind]; rfl, ?_⟩
  have hnames := (Server.forall_roles_iff (· ≠ [])).mpr hne
  rw [Names.perm_readNames_iff hnames, Server.forall_roles_iff (SPACE ∉ ·)]

/-- The first client as operator, and the second as member. -/
def pair : Channel where
  name := lit "#c"
  operators := (∅ : UnorderedSet ClientPtr).insert ⟨4, 0⟩
  members := (∅ : UnorderedSet ClientPtr).insert ⟨5, 1⟩

/-- The two in a channel: the first is `ann`, and the second has asked for the nickname. -/
def company (nickname : Bytes) : Server :=
  let s := network.run (Server.initial 3 (lit "pw")) [.accept 4 ⟨127, 0, 0, 1⟩,
    .receive 4 (lit "PASS pw\nNICK ann\n"), .line 4, .line 4, .accept 5 ⟨127, 0, 0, 1⟩,
    .receive 5 (lit "PASS pw\nNICK " ++ nickname ++ lit "\n"), .line 5, .line 5]
  { s with channels := (∅ : UnorderedMap Nat Channel).emplace 0 pair }

/-- The member is called `bob`. -/
theorem readNames_iff_company :
    let s := company (lit "bob")
    ∃ list, Names.execute s 4 [lit "#c"] =
        ((Names.visit s (s.channel 0)).reply 4
          (.namReply (s.client 4).nickname (lit "#c") list)).reply 4
            (.endOfNames (s.client 4).nickname (lit "#c")) ∧
      ((Names.readNames list).Perm (s.roles (s.channel 0)) ↔
        (∀ p ∈ (s.channel 0).occupants, SPACE ∉ Names.nicknameAt s p) ∧
          ∀ p ∈ (s.channel 0).members, (Names.nicknameAt s p).head? ≠ some AT) :=
  readNames_iff 4 (by decide +kernel) (by decide +kernel) []

theorem disjoint_pair : pair.Disjoint := by
  intro p hp
  obtain rfl := List.mem_singleton.mp hp
  decide

/-- A member with the nickname `@bob` reads as an operator `bob`. -/
theorem not_perm_readNames_company :
    let s := company (lit "@bob")
    s.channel 0 = pair ∧ pair.Disjoint ∧
      s.roles pair = [(lit "ann", true), (lit "@bob", false)] ∧
      Names.readNames (Names.nameList s pair) = [(lit "ann", true), (lit "bob", true)] ∧
      ¬ (Names.readNames (Names.nameList s pair)).Perm (s.roles pair) := by
  have hroles : (company (lit "@bob")).roles pair =
      [(lit "ann", true), (lit "@bob", false)] := by decide +kernel
  have hread : Names.readNames (Names.nameList (company (lit "@bob")) pair) =
      [(lit "ann", true), (lit "bob", true)] := by decide +kernel
  refine ⟨rfl, disjoint_pair, hroles, hread, ?_⟩
  intro h
  rw [hroles, hread] at h
  exact absurd (h.countP_eq Prod.snd) (by decide)

end IrcServer
