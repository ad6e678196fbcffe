import IrcServer.Admission
import IrcServer.Whitelist

/-!
# The joining loop

`Join::execute` walks a list of channel names and a list of keys.  Every turn of its loop
starts at the first key again, and the exception for a channel that does not exist leaves
the loop, so that names and keys are paired by position only where neither matters
(`offers_eq_paired_iff`).

The loop is never reached: the test of the number of parameters before it throws for every
number, and the dispatcher drops the command (`join_dropped`).
-/

namespace IrcServer

open Library Commands

/-! ## The calls of the loop -/

/-- A call of `addMember` for the joining client: the channel, and the key if one is given. -/
abbrev Offer := Nat × Option Bytes

namespace Server

/-- The server after such a call. -/
def makeOffer (s : Server) (client : Int) (offer : Offer) : Server :=
  s.modifyChannel offer.1 fun chan ↦ chan.offer (s.ptr client) (s.client client) offer.2

/-- The channel with a name is found all the same. -/
@[simp] theorem findFirst_makeOffer (s : Server) (client : Int) (offer : Offer) (name : Bytes) :
    (s.makeOffer client offer).channels.findFirst (·.name == name) =
      s.channels.findFirst (·.name == name) :=
  UnorderedMap.findFirst_modify (fun chan ↦ by rw [Channel.name_offer]) offer.1

end Server

namespace Join

/-- What an entry of the list of keys stands for: `x` is for no key. -/
def keyOf (entry : Option Bytes) : Option Bytes := entry.filter (· ≠ lit "x")

/-- The calls the loop makes. -/
def offers (channels : UnorderedMap Nat Channel) (keys : List Bytes) : List Bytes → List Offer
  | [] => []
  | channelName :: rest =>
      match channels.findFirst (·.name == channelName) with
      | none => []
      | some channel => (channel, keyOf keys.head?) :: offers channels keys rest

/-- The call for a name in a position: without regard to the other names, and with the key
in the same position. -/
def pairedAt (channels : UnorderedMap Nat Channel) (keys : List Bytes) (entry : Bytes × Nat) :
    Option Offer :=
  (channels.findFirst (·.name == entry.1)).map (·, keyOf keys[entry.2]?)

/-- The calls of a loop that goes through both lists position by position. -/
def paired (channels : UnorderedMap Nat Channel) (keys : List Bytes) (names : List Bytes) :
    List Offer :=
  names.zipIdx.filterMap (pairedAt channels keys)

/-- A channel of the name exists. -/
def Named (channels : UnorderedMap Nat Channel) (channelName : Bytes) : Prop :=
  (channels.findFirst (·.name == channelName)).isSome = true

instance (channels : UnorderedMap Nat Channel) (channelName : Bytes) :
    Decidable (Named channels channelName) := inferInstanceAs (Decidable (_ = true))

/-- No channel is named after one that does not exist, and the key in the position of a
channel is the first one. -/
def FirstKeyFits (channels : UnorderedMap Nat Channel) (keys names : List Bytes) : Prop :=
  ∀ i channelName, names[i]? = some channelName → Named channels channelName →
    (∀ other ∈ names.take i, Named channels other) ∧ keyOf keys[i]? = keyOf keys.head?

theorem offers_makeOffer (s : Server) (client : Int) (offer : Offer) (keys names : List Bytes) :
    offers (s.makeOffer client offer).channels keys names = offers s.channels keys names := by
  induction names with
  | nil => rfl
  | cons channelName rest ih => simp only [offers, Server.findFirst_makeOffer, ih]

variable {s : Server} {client : Int} {keys : List Bytes} {channelName : Bytes}

theorem keyOf_some (key : Bytes) : keyOf (some key) = if key = lit "x" then none else some key := by
  by_cases hx : key = lit "x" <;> simp [keyOf, Option.filter, hx]

/-- A turn for a channel that exists makes one call. -/
theorem joinChannels_of_found {channel : Nat} (rest : List Bytes)
    (h : s.channels.findFirst (·.name == channelName) = some channel) :
    joinChannels s client keys (channelName :: rest) =
      joinChannels (s.makeOffer client (channel, keyOf keys.head?)) client keys rest := by
  rw [joinChannels, AChannelCommand.findChannel, h]
  cases keys with
  | nil => rfl
  | cons nextKey tail =>
      rw [List.head?_cons, keyOf_some]
      by_cases hx : nextKey = lit "x"
      · simp only [hx, ne_eq, not_true_eq_false, if_false, if_true]
        rfl
      · simp only [hx, ne_eq, not_false_eq_true, if_true, if_false]
        rfl

/-- A turn for one that does not exist is the last. -/
theorem joinChannels_of_missing (rest : List Bytes)
    (h : s.channels.findFirst (·.name == channelName) = none) :
    joinChannels s client keys (channelName :: rest) =
      (s, some (.nameException ERR_CHANNEL_NOT_FOUND channelName)) := by
  rw [joinChannels, AChannelCommand.findChannel, h]

/-- The loop makes these calls, one after the other, and does nothing else. -/
theorem joinChannels_eq (s : Server) (client : Int) (keys names : List Bytes) :
    (joinChannels s client keys names).1 =
      (offers s.channels keys names).foldl (·.makeOffer client ·) s := by
  induction names generalizing s with
  | nil => rfl
  | cons channelName rest ih =>
      rw [offers]
      cases hfind : s.channels.findFirst (·.name == channelName) with
      | none => rw [joinChannels_of_missing rest hfind, List.foldl_nil]
      | some channel =>
          rw [joinChannels_of_found rest hfind, ih, offers_makeOffer, List.foldl_cons]

/-- The same for a list of names that begins in a later position. -/
def FirstKeyFitsFrom (channels : UnorderedMap Nat Channel) (keys : List Bytes) (n : Nat)
    (names : List Bytes) : Prop :=
  ∀ i channelName, names[i]? = some channelName → Named channels channelName →
    (∀ other ∈ names.take i, Named channels other) ∧ keyOf keys[n + i]? = keyOf keys.head?

section

variable {channels : UnorderedMap Nat Channel} {n : Nat} {first : Bytes} {rest : List Bytes}

theorem named_of_findFirst {channel : Nat}
    (h : channels.findFirst (·.name == first) = some channel) : Named channels first := by
  rw [Named, h, Option.isSome_some]

theorem not_named_iff : ¬ Named channels first ↔ channels.findFirst (·.name == first) = none := by
  rw [Named, Option.not_isSome_iff_eq_none]

theorem pairedAt_eq_none_iff :
    pairedAt channels keys (first, n) = none ↔ ¬ Named channels first := by
  rw [pairedAt, Option.map_eq_none_iff, not_named_iff]

/-- Nothing is paired where no channel is named. -/
theorem filterMap_pairedAt_eq_nil_iff :
    (rest.zipIdx n).filterMap (pairedAt channels keys) = [] ↔
      ∀ name ∈ rest, ¬ Named channels name := by
  rw [List.filterMap_eq_nil_iff]
  constructor
  · intro h name hmem
    obtain ⟨i, hi⟩ := List.mem_iff_getElem?.mp hmem
    have hat : (name, n + i) ∈ rest.zipIdx n := List.mk_add_mem_zipIdx_iff_getElem?.mpr hi
    exact pairedAt_eq_none_iff.mp (h _ hat)
  · rintro h ⟨name, m⟩ hat
    exact pairedAt_eq_none_iff.mpr (h name (List.fst_mem_of_mem_zipIdx hat))

/-- After a missing channel the first key fits if no channel is named at all. -/
theorem firstKeyFitsFrom_missing_iff (hfirst : ¬ Named channels first) :
    FirstKeyFitsFrom channels keys n (first :: rest) ↔ ∀ name ∈ rest, ¬ Named channels name := by
  constructor
  · intro h name hmem hn
    obtain ⟨i, hi⟩ := List.mem_iff_getElem?.mp hmem
    have hbefore := (h (i + 1) name (by rwa [List.getElem?_cons_succ]) hn).1 first
    rw [List.take_succ_cons] at hbefore
    exact hfirst (hbefore List.mem_cons_self)
  · intro h i name hi hn
    rcases List.mem_cons.mp (List.mem_of_getElem? hi) with rfl | hmem
    · exact absurd hn hfirst
    · exact absurd hn (h name hmem)

/-- After a channel that exists the rest decides, one position later. -/
theorem firstKeyFitsFrom_found_iff (hfirst : Named channels first) :
    FirstKeyFitsFrom channels keys n (first :: rest) ↔
      keyOf keys[n]? = keyOf keys.head? ∧ FirstKeyFitsFrom channels keys (n + 1) rest := by
  constructor
  · intro h
    refine ⟨(h 0 first rfl hfirst).2, ?_⟩
    intro i name hi hn
    obtain ⟨hbefore, hkeys⟩ := h (i + 1) name (by rwa [List.getElem?_cons_succ]) hn
    rw [List.take_succ_cons] at hbefore
    refine ⟨fun other hother ↦ hbefore other (List.mem_cons_of_mem first hother), ?_⟩
    rwa [Nat.add_right_comm]
  · rintro ⟨hkey, hrest⟩ i name hi hn
    cases i with
    | zero => exact ⟨fun other hother ↦ absurd hother List.not_mem_nil, hkey⟩
    | succ i =>
        obtain ⟨hbefore, hkeys⟩ := hrest i name (by rwa [List.getElem?_cons_succ] at hi) hn
        refine ⟨?_, by rwa [Nat.add_right_comm] at hkeys⟩
        intro other hother
        rw [List.take_succ_cons, List.mem_cons] at hother
        rcases hother with rfl | hother
        · exact hfirst
        · exact hbefore other hother

end

/-- Where the rest of both lists is paired, from any position on. -/
theorem offers_eq_filterMap_iff (channels : UnorderedMap Nat Channel) (keys names : List Bytes)
    (n : Nat) : offers channels keys names = (names.zipIdx n).filterMap (pairedAt channels keys) ↔
      FirstKeyFitsFrom channels keys n names := by
  induction names generalizing n with
  | nil => simp [offers, FirstKeyFitsFrom]
  | cons first rest ih =>
      rw [offers, List.zipIdx_cons]
      cases hfind : channels.findFirst (·.name == first) with
      | none =>
          have hfirst := not_named_iff.mpr hfind
          rw [List.filterMap_cons_none (pairedAt_eq_none_iff.mpr hfirst), eq_comm,
            filterMap_pairedAt_eq_nil_iff, firstKeyFitsFrom_missing_iff hfirst]
      | some channel =>
          have hat : pairedAt channels keys (first, n) = some (channel, keyOf keys[n]?) := by
            rw [pairedAt, hfind, Option.map_some]
          rw [List.filterMap_cons_some hat, firstKeyFitsFrom_found_iff (named_of_findFirst hfind),
            List.cons.injEq, ih, Prod.mk.injEq, eq_self, true_and, eq_comm]

/-- Whatever the lists, the loop pairs the names of existing channels with the keys in their
positions if and only if no channel is named after a missing one and each of these keys is
the first. -/
theorem offers_eq_paired_iff (s : Server) (client : Int) (keys names : List Bytes) :
    (joinChannels s client keys names).1 =
        (offers s.channels keys names).foldl (·.makeOffer client ·) s ∧
      (offers s.channels keys names = paired s.channels keys names ↔
        FirstKeyFits s.channels keys names) := by
  refine ⟨joinChannels_eq s client keys names, ?_⟩
  rw [paired, offers_eq_filterMap_iff]
  simp only [FirstKeyFitsFrom, Nat.zero_add, FirstKeyFits]

end Join

/-- A registered client, and two channels with keys of their own. -/
def lobby : Server where
  password := lit "pw"
  serverSocket := 3
  clients := (∅ : UnorderedMap Int Client).emplace 4
    { nickname := lit "ann", username := lit "a", isAuthenticated := true }
  channels := ((∅ : UnorderedMap Nat Channel).emplace 0
    { name := lit "#a", hasKey := true, key := lit "k" }).emplace 1
    { name := lit "#b", hasKey := true, key := lit "p" }
  nextSerial := 1

/-- The key of the first channel is tried on the second one, whose own key is given. -/
theorem joinChannels_ne_paired : ¬ ∀ (s : Server) (client : Int) (keys names : List Bytes),
    keys ≠ [] → (Join.joinChannels s client keys names).1 =
      (Join.paired s.channels keys names).foldl (·.makeOffer client ·) s := by
  intro h
  have hserver := h lobby 4 [lit "k", lit "p"] [lit "#a", lit "#b"] (List.cons_ne_nil _ _)
  have hmembers := congrArg (fun s ↦ (s.channel 1).members.elems) hserver
  exact absurd hmembers (by decide +kernel)

/-! ## The line -/

/-- A line `JOIN` with one parameter. -/
def joinLine (names : List Bytes) : Bytes := lit "JOIN " ++ (lit ",").intercalate names

/-- `addMember` without a key, called on the channels of these names in turn. -/
def Server.joinAll (s : Server) (client : Int) (names : List Bytes) : Server :=
  names.foldl (fun s channelName ↦
    match s.channels.findFirst (·.name == channelName) with
    | some channel => s.makeOffer client (channel, none)
    | none => s) s

/-- The line is taken for a channel command, and joins the channels it names. -/
def Joins (s : Server) (client : Int) (names : List Bytes) : Prop :=
  (isChannelCommand s client (Parser.parse (joinLine names)).command
      (Parser.parse (joinLine names)).params).1 = true ∧
    processCommand s client (Parser.parse (joinLine names)) = s.joinAll client names

namespace Parser

/-- Only the line ending is taken off. -/
theorem exists_stripLineEnding_append (s : Bytes) :
    ∃ ending, SPACE ∉ ending ∧ s = stripLineEnding s ++ ending := by
  unfold stripLineEnding
  split
  · rename_i h
    obtain ⟨t, rfl⟩ := h
    exact ⟨[CR, LF], by decide, by simp⟩
  · split
    · rename_i h
      obtain ⟨t, rfl⟩ := h
      exact ⟨[LF], by decide, by simp⟩
    · exact ⟨[], by decide, by simp⟩

/-- A text that starts with a token and a space does so after the ending is taken off. -/
theorem exists_stripLineEnding_eq {w : Bytes} (s : Bytes) :
    ∃ t, stripLineEnding (w ++ SPACE :: s) = w ++ SPACE :: t := by
  obtain ⟨ending, hending, heq⟩ := exists_stripLineEnding_append (w ++ SPACE :: s)
  rcases List.append_eq_append_iff.mp heq with ⟨e, hstrip, hrest⟩ | ⟨e, -, hrest⟩
  · cases e with
    | nil =>
        rw [List.nil_append] at hrest
        exact absurd (hrest ▸ List.mem_cons_self) hending
    | cons b e =>
        obtain ⟨rfl, -⟩ := List.cons.inj hrest
        exact ⟨e, hstrip⟩
  · exact absurd (hrest ▸ List.mem_append_right e List.mem_cons_self) hending

/-- Cutting off a trailing parameter leaves the token at the start. -/
theorem words_cutTrailing_append {w : Bytes} (hw : IsToken w) (s : Bytes) :
    (words SPACE (cutTrailing (w ++ SPACE :: s)).1).head? = some w := by
  have hword (u : Bytes) : (words SPACE (w ++ SPACE :: u)).head? = some w := by
    rw [words_append_cons u hw.ne_nil hw.notMem, List.head?_cons]
  cases hf : find [SPACE, COLON] (w ++ SPACE :: s) with
  | none => rw [cutTrailing, hf]; exact hword s
  | some n =>
      obtain ⟨u, v, heq, hlen, -⟩ := find_eq_some (List.cons_ne_nil _ _) hf
      have hcut : (cutTrailing (w ++ SPACE :: s)).1 = u := by
        rw [cutTrailing, hf, heq, ← hlen]
        exact List.take_left
      rw [hcut]
      rcases List.append_eq_append_iff.mp heq with ⟨e, hu, hrest⟩ | ⟨e, hu, hrest⟩
      · cases e with
        | nil => rw [hu, List.append_nil, words_of_notMem hw.ne_nil hw.notMem, List.head?_cons]
        | cons b e =>
            obtain ⟨rfl, -⟩ := List.cons.inj hrest
            exact hu ▸ hword e
      · cases e with
        | nil =>
            rw [List.append_nil] at hu
            rw [← hu, words_of_notMem hw.ne_nil hw.notMem, List.head?_cons]
        | cons b e =>
            -- the space of the cut would be a letter of the token
            obtain ⟨rfl, -⟩ := List.cons.inj hrest
            exact absurd (hu ▸ List.mem_append_right u List.mem_cons_self) hw.notMem

/-- A token at the start of a line is its command word. -/
theorem commandWord_append {w : Bytes} (hw : IsToken w) (s : Bytes) :
    commandWord (w ++ SPACE :: s) = some w := by
  obtain ⟨t, ht⟩ := exists_stripLineEnding_eq (w := w) s
  have hhead : (w ++ SPACE :: t).head? ≠ some COLON := by
    rw [List.head?_append_of_ne_nil w hw.ne_nil]
    exact hw.head?_ne
  rw [commandWord, ht, extractPrefix_of_head?_ne hhead]
  exact words_cutTrailing_append hw t

end Parser

theorem command_joinLine (names : List Bytes) :
    (Parser.parse (joinLine names)).command = ChannelCommand.join.word := by
  have htoken : IsToken (lit "JOIN") := ⟨by decide, by decide, by decide⟩
  have hline : joinLine names = lit "JOIN" ++ SPACE :: (lit ",").intercalate names := by
    have hjoin : lit "JOIN " = lit "JOIN" ++ [SPACE] := by decide
    rw [joinLine, hjoin, List.append_assoc, List.singleton_append]
  rw [hline, Parser.command_eq (Parser.commandWord_append htoken _)]
  decide

/-- The exception of `JOIN` says that it is no channel command. -/
theorem isChannelCommand_join (s : Server) (client : Int) (params : List Bytes) :
    isChannelCommand s client ChannelCommand.join.word params = (false, s) := by
  have hexec : ChannelCommand.execute s client params .join =
      (s, some (.exception ERR_WRONG_NUM_PARAM)) := Join.execute_eq s client params
  rw [isChannelCommand, ChannelCommand.makeCommand_word]
  simp only [hexec]

/-- Whatever the server, the sender and the names, the line is not taken for a channel
command; from a registered client it leaves the server as it is, without an answer. -/
theorem join_dropped (s : Server) (client : Int) (names : List Bytes) :
    ¬ Joins s client names ∧ ((s.client client).isRegistered = true →
      processCommand s client (Parser.parse (joinLine names)) = s) := by
  have hcommand := command_joinLine names
  constructor
  · rintro ⟨htaken, -⟩
    rw [hcommand, isChannelCommand_join] at htaken
    exact Bool.false_ne_true htaken
  · intro hreg
    rw [processCommand_of_word hcommand hreg]
    exact congrArg Prod.fst (Join.execute_eq s client _)

/-- A registered client names a channel that exists and is open, and is not let in. -/
theorem not_joins_open : ¬ ∀ (s : Server) (client : Int) (names : List Bytes),
    (s.client client).isRegistered = true → names ≠ [] → names.Nodup →
    (∀ n ∈ names, Join.Named s.channels n ∧ SPACE ∉ n ∧ 44 ∉ n) →
      processCommand s client (Parser.parse (joinLine names)) = s.joinAll client names := by
  intro h
  have hserver := h
    { lobby with channels := (∅ : UnorderedMap Nat Channel).emplace 0 { name := lit "#c" } }
    4 [lit "#c"] (by decide +kernel) (List.cons_ne_nil _ _) (by decide)
    (by
      intro n hn
      obtain rfl := List.mem_singleton.mp hn
      exact ⟨by decide +kernel, by decide, by decide⟩)
  have hmembers := congrArg (fun s ↦ (s.channel 0).members.elems) hserver
  exact absurd hmembers (by decide +kernel)

end IrcServer
