import IrcServer.Library.Transition
import Mathlib.Logic.Function.Basic

/-!
# The registry of sessions

What registration is for, without lines, buffers or replies: somebody who connects
has a session; a session that has presented the password is authenticated; an
authenticated session may take a nickname that nobody has and may once give a user
name.  A name may be blank (`none`), and a blank nickname is free or taken like any
other, since that is the test the server makes.

The server is shown to implement this registry in `IrcServer.Refinement`.  The
invariants proved here therefore hold of the server:

* a session is authenticated exactly when the password is among what it presented;
* only authenticated sessions have a name;
* no two sessions have the same nickname;
* a registered session stays registered, unless it takes the blank nickname.

User names are not compared: two registered sessions have the same one as soon as a session
completes its registration under the user name of another (`designated_step_iff`).
-/

namespace IrcServer

open Library

universe u v

/-- What a line asks of the registry. -/
inductive Request (ν : Type v) where
  | present (password : ν)
  | rename (nick : Option ν)
  | introduce (user : Option ν)
  | other
deriving DecidableEq

/-- What the registry knows of somebody connected. -/
structure Session (ν : Type v) where
  authenticated : Bool := false
  nick : Option ν := none
  user : Option ν := none
  /-- Everything asked so far, oldest first. -/
  asked : List (Request ν) := []

namespace Session

variable {ν : Type v}

/-- Authenticated and named. -/
def Registered (t : Session ν) : Prop := t.authenticated = true ∧ t.nick ≠ none ∧ t.user ≠ none

open Classical in
/-- The session after a request, in a registry with this password and these free
nicknames. -/
noncomputable def respond (password : ν) (free : Option ν → Prop) (t : Session ν) :
    Request ν → Session ν
  | .present p => if p = password then { t with authenticated := true } else t
  | .rename n => if t.authenticated ∧ free n then { t with nick := n } else t
  | .introduce u => if t.authenticated ∧ t.user = none then { t with user := u } else t
  | .other => t

/-- The response, and the request added to what was asked. -/
noncomputable def ask (password : ν) (free : Option ν → Prop) (t : Session ν) (r : Request ν) :
    Session ν :=
  { t.respond password free r with asked := t.asked ++ [r] }

variable {password : ν} {free : Option ν → Prop} {t : Session ν} {r : Request ν}

@[simp] theorem asked_ask : (t.ask password free r).asked = t.asked ++ [r] := rfl

@[simp] theorem asked_respond : (t.respond password free r).asked = t.asked := by
  cases r with
  | other => rfl
  | _ => simp only [respond]; split <;> rfl

theorem authenticated_ask : (t.ask password free r).authenticated = true ↔
    t.authenticated = true ∨ r = .present password := by
  cases r with
  | present p => by_cases h : p = password <;> simp [ask, respond, h]
  | rename n => simp only [ask, respond, reduceCtorEq, or_false]; split <;> rfl
  | introduce u => simp only [ask, respond, reduceCtorEq, or_false]; split <;> rfl
  | other => simp [ask, respond]

/-- A nickname changes only by a request for a free one. -/
theorem nick_ask (password : ν) (free : Option ν → Prop) (t : Session ν) (r : Request ν) :
    (t.ask password free r).nick = t.nick ∨
    t.authenticated = true ∧ r = .rename (t.ask password free r).nick ∧
      free (t.ask password free r).nick := by
  cases r with
  | present p => left; simp only [ask, respond]; split <;> rfl
  | rename n =>
      by_cases h : t.authenticated = true ∧ free n
      · right; simp [ask, respond, h]
      · left; simp [ask, respond, h]
  | introduce u => left; simp only [ask, respond]; split <;> rfl
  | other => left; rfl

/-- A user name is given once, by an authenticated session. -/
theorem user_ask (password : ν) (free : Option ν → Prop) (t : Session ν) (r : Request ν) :
    (t.ask password free r).user = t.user ∨
    t.authenticated = true ∧ t.user = none := by
  cases r with
  | present p => left; simp only [ask, respond]; split <;> rfl
  | rename n => left; simp only [ask, respond]; split <;> rfl
  | introduce u =>
      by_cases h : t.authenticated = true ∧ t.user = none
      · exact Or.inr h
      · left; simp [ask, respond, h]
  | other => left; rfl

/-- The one request that takes registration away. -/
theorem registered_ask_iff (ht : t.Registered) :
    (t.ask password free r).Registered ↔ ¬ (r = .rename none ∧ free none) := by
  obtain ⟨ha, hn, hu⟩ := ht
  cases r with
  | present p => by_cases h : p = password <;> simp [Registered, ask, respond, h, ha, hn, hu]
  | rename n =>
      by_cases h : free n
      · cases n <;> simp [Registered, ask, respond, h, ha, hu]
      · have hkept : (t.ask password free (.rename n)).Registered := by
          simp [Registered, ask, respond, h, ha, hn, hu]
        refine iff_of_true hkept ?_
        rintro ⟨hr, hfree⟩
        cases hr
        exact h hfree
  | introduce u => simp [Registered, ask, respond, ha, hn, hu]
  | other => simp [Registered, ask, respond, ha, hn, hu]

end Session

/-- Sessions by connection. -/
structure Registry (ι : Type u) (ν : Type v) where
  password : ν
  sessions : ι → Option (Session ν)

/-- What happens to a registry. -/
inductive Action (ι : Type u) (ν : Type v) where
  | join (i : ι)
  | leave (i : ι)
  | ask (i : ι) (r : Request ν)

namespace Registry

variable {ι : Type u} {ν : Type v} [DecidableEq ι]

/-- Nobody has the nickname. -/
def Free (R : Registry ι ν) (n : Option ν) : Prop := ∀ j t, R.sessions j = some t → t.nick ≠ n

/-- The registry with another session under `i`. -/
def put (R : Registry ι ν) (i : ι) (t : Option (Session ν)) : Registry ι ν :=
  { R with sessions := Function.update R.sessions i t }

/-- The registry after an action. -/
noncomputable def step (R : Registry ι ν) : Action ι ν → Registry ι ν
  | .join i => R.put i (some {})
  | .leave i => R.put i none
  | .ask i r => R.put i ((R.sessions i).map (·.ask R.password R.Free r))

/-- The registry as a transition system: nobody joins twice. -/
noncomputable def system (ι : Type u) (ν : Type v) [DecidableEq ι] :
    System (Registry ι ν) (Action ι ν) where
  enabled R a := ∀ i, a = .join i → R.sessions i = none
  step := step

omit [DecidableEq ι] in
/-- The registry nobody has joined. -/
def empty (password : ν) : Registry ι ν := ⟨password, fun _ ↦ none⟩

@[simp] theorem password_put (R : Registry ι ν) (i : ι) (t : Option (Session ν)) :
    (R.put i t).password = R.password := rfl

@[simp] theorem password_step (R : Registry ι ν) (a : Action ι ν) :
    (R.step a).password = R.password := by cases a <;> rfl

theorem sessions_put (R : Registry ι ν) (i j : ι) (t : Option (Session ν)) :
    (R.put i t).sessions j = if j = i then t else R.sessions j := by
  simp [put, Function.update_apply]

omit [DecidableEq ι] in
@[ext] theorem ext {R T : Registry ι ν} (hp : R.password = T.password)
    (hs : ∀ i, R.sessions i = T.sessions i) : R = T := by
  cases R; cases T; cases hp; congr 1; exact funext hs

/-- Every action changes one session: it starts afresh, ends, or makes a request. -/
theorem sessions_step_cases {R : Registry ι ν} {a : Action ι ν} {j : ι} {t : Session ν}
    (h : (R.step a).sessions j = some t) :
    R.sessions j = some t ∨ (a = .join j ∧ t = {}) ∨
      ∃ t₀ r, a = .ask j r ∧ R.sessions j = some t₀ ∧ t = t₀.ask R.password R.Free r := by
  cases a with
  | join i =>
      rw [step, sessions_put] at h
      split at h
      · rename_i hj
        exact Or.inr (Or.inl ⟨hj ▸ rfl, (Option.some.inj h).symm⟩)
      · exact Or.inl h
  | leave i =>
      rw [step, sessions_put] at h
      split at h
      · cases h
      · exact Or.inl h
  | ask i r =>
      rw [step, sessions_put] at h
      split at h
      · rename_i hj
        obtain ⟨t₀, ht₀, rfl⟩ := Option.map_eq_some_iff.mp h
        exact Or.inr (Or.inr ⟨t₀, r, hj ▸ rfl, hj ▸ ht₀, rfl⟩)
      · exact Or.inl h

/-- The invariants of a registry. -/
structure Sound (R : Registry ι ν) : Prop where
  authenticated_iff : ∀ i t, R.sessions i = some t →
    (t.authenticated = true ↔ .present R.password ∈ t.asked)
  named : ∀ i t, R.sessions i = some t → t.nick ≠ none ∨ t.user ≠ none → t.authenticated = true
  unique : ∀ i j t u n, R.sessions i = some t → R.sessions j = some u →
    t.nick = some n → u.nick = some n → i = j

omit [DecidableEq ι] in
theorem sound_empty (password : ν) : Sound (empty password : Registry ι ν) where
  authenticated_iff _ _ h := by cases h
  named _ _ h := by cases h
  unique _ _ _ _ _ h := by cases h

/-- A nickname found after a step was there before, or has just been taken by the one
who asked and was free. -/
theorem nick_step {R : Registry ι ν} {a : Action ι ν} {j : ι} {t : Session ν} {n : ν}
    (h : (R.step a).sessions j = some t) (hn : t.nick = some n) :
    (∃ t₀, R.sessions j = some t₀ ∧ t₀.nick = some n) ∨
      ((∃ r, a = .ask j r) ∧ R.Free (some n)) := by
  rcases sessions_step_cases h with h | ⟨rfl, rfl⟩ | ⟨t₀, r, rfl, h₀, rfl⟩
  · exact Or.inl ⟨t, h, hn⟩
  · cases hn
  · rcases Session.nick_ask R.password R.Free t₀ r with
      hnick | ⟨-, -, hfree⟩
    · exact Or.inl ⟨t₀, h₀, hnick ▸ hn⟩
    · exact Or.inr ⟨⟨r, rfl⟩, hn ▸ hfree⟩

/-- The invariants are kept by every action. -/
theorem Sound.step {R : Registry ι ν} (hR : R.Sound) (a : Action ι ν) : (R.step a).Sound where
  authenticated_iff j t h := by
    rw [password_step]
    rcases sessions_step_cases h with h | ⟨rfl, rfl⟩ | ⟨t₀, r, rfl, h₀, rfl⟩
    · exact hR.authenticated_iff j t h
    · simp
    · rw [Session.authenticated_ask, Session.asked_ask, hR.authenticated_iff j t₀ h₀,
        List.mem_append, List.mem_singleton]
      exact or_congr_right eq_comm
  named j t h hname := by
    rcases sessions_step_cases h with h | ⟨rfl, rfl⟩ | ⟨t₀, r, rfl, h₀, rfl⟩
    · exact hR.named j t h hname
    · exact absurd hname (by simp)
    · refine Session.authenticated_ask.mpr (Or.inl ?_)
      rcases hname with hnick | huser
      · rcases Session.nick_ask R.password R.Free t₀ r with
          hn | ⟨ha, -, -⟩
        · exact hR.named j t₀ h₀ (Or.inl (hn ▸ hnick))
        · exact ha
      · rcases Session.user_ask R.password R.Free t₀ r with
          hu | ⟨ha, -⟩
        · exact hR.named j t₀ h₀ (Or.inr (hu ▸ huser))
        · exact ha
  unique i j t w n hi hj hti htj := by
    -- A nickname both have was taken by at most one of them in this step.
    rcases nick_step hi hti with ⟨t₀, ht₀, htn⟩ | ⟨⟨r, rfl⟩, hfree⟩
    · rcases nick_step hj htj with ⟨w₀, hw₀, hwn⟩ | ⟨-, hfree⟩
      · exact hR.unique i j t₀ w₀ n ht₀ hw₀ htn hwn
      · exact absurd htn (hfree i t₀ ht₀)
    · rcases nick_step hj htj with ⟨w₀, hw₀, hwn⟩ | ⟨⟨r', hr'⟩, -⟩
      · exact absurd hwn (hfree j w₀ hw₀)
      · cases hr'; rfl

/-- A registered session stays registered through every action but its own request for
the blank nickname while that is free. -/
theorem registered_step_iff {R : Registry ι ν} {a : Action ι ν} {j : ι} {t₀ t : Session ν}
    (h₀ : R.sessions j = some t₀) (ht₀ : t₀.Registered)
    (hjoin : a ≠ .join j) (h : (R.step a).sessions j = some t) :
    t.Registered ↔ ¬ (a = .ask j (.rename none) ∧ R.Free none) := by
  by_cases ha : ∃ r, a = .ask j r
  · obtain ⟨r, rfl⟩ := ha
    have ht : t = t₀.ask R.password R.Free r := by
      rw [step, sessions_put, if_pos rfl, h₀] at h
      exact (Option.some.inj h).symm
    rw [ht, Session.registered_ask_iff ht₀]
    simp
  · have ht : t = t₀ := by
      rcases sessions_step_cases h with h | ⟨hj, -⟩ | ⟨_, r, hr, -⟩
      · exact Option.some.inj (h.symm.trans h₀)
      · exact absurd hj hjoin
      · exact absurd ⟨r, hr⟩ ha
    exact iff_of_true (ht ▸ ht₀) fun hr ↦ ha ⟨_, hr.1⟩

end Registry

/-! ## User names -/

namespace Session

variable {ν : Type v} {password : ν} {free : Option ν → Prop} {t : Session ν} {r : Request ν}

/-- The session is registered under the user name. -/
def RegisteredAs (t : Session ν) (n : ν) : Prop := t.Registered ∧ t.user = some n

/-- The request gives the session what it lacks to be registered under the user name. -/
def Completes (free : Option ν → Prop) (t : Session ν) (r : Request ν) (n : ν) : Prop :=
  t.authenticated = true ∧ (r = .introduce (some n) ∧ t.user = none ∧ t.nick ≠ none ∨
    (∃ m, r = .rename (some m) ∧ free (some m)) ∧ t.user = some n)

/-- Who is registered under a user name after a request was so before, or has just
completed it. -/
theorem registeredAs_ask {n : ν} (hnamed : t.nick ≠ none ∨ t.user ≠ none → t.authenticated = true)
    (h : (t.ask password free r).RegisteredAs n) : t.RegisteredAs n ∨ t.Completes free r n := by
  obtain ⟨⟨ha, hn, hu⟩, huser⟩ := h
  cases r with
  | present p =>
      by_cases hp : p = password
      · simp only [ask, respond, hp, if_true] at hn hu huser
        exact Or.inl ⟨⟨hnamed (Or.inl hn), hn, hu⟩, huser⟩
      · simp only [ask, respond, hp, if_false] at ha hn hu huser
        exact Or.inl ⟨⟨ha, hn, hu⟩, huser⟩
  | rename m =>
      by_cases hfree : t.authenticated = true ∧ free m
      · simp only [ask, respond, hfree, and_self, if_true] at hn huser
        obtain ⟨m, rfl⟩ := Option.ne_none_iff_exists'.mp hn
        exact Or.inr ⟨hfree.1, Or.inr ⟨⟨m, rfl, hfree.2⟩, huser⟩⟩
      · simp only [ask, respond, hfree, if_false] at ha hn hu huser
        exact Or.inl ⟨⟨ha, hn, hu⟩, huser⟩
  | introduce u =>
      by_cases hblank : t.authenticated = true ∧ t.user = none
      · simp only [ask, respond, hblank, and_self, if_true] at hn huser
        exact Or.inr ⟨hblank.1, Or.inl ⟨congrArg Request.introduce huser, hblank.2, hn⟩⟩
      · simp only [ask, respond, hblank, if_false] at ha hn hu huser
        exact Or.inl ⟨⟨ha, hn, hu⟩, huser⟩
  | other => exact Or.inl ⟨⟨ha, hn, hu⟩, huser⟩

theorem registeredAs_of_completes {n : ν} (h : t.Completes free r n) :
    (t.ask password free r).RegisteredAs n := by
  obtain ⟨ha, ⟨rfl, hblank, hn⟩ | ⟨⟨m, rfl, hfree⟩, huser⟩⟩ := h
  · simp [RegisteredAs, Registered, ask, respond, ha, hblank, hn]
  · simp [RegisteredAs, Registered, ask, respond, ha, hfree, huser]

end Session

namespace Registry

variable {ι : Type u} {ν : Type v} [DecidableEq ι]

omit [DecidableEq ι] in
/-- A user name designates one registered session. -/
def Designated (R : Registry ι ν) : Prop :=
  ∀ i j t u n, R.sessions i = some t → R.sessions j = some u →
    t.RegisteredAs n → u.RegisteredAs n → i = j

omit [DecidableEq ι] in
/-- The action completes a registration under the user name of another registered session. -/
def Clashes (R : Registry ι ν) (a : Action ι ν) : Prop :=
  ∃ i r n t, a = .ask i r ∧ R.sessions i = some t ∧ t.Completes R.Free r n ∧
    ∃ j u, j ≠ i ∧ R.sessions j = some u ∧ u.RegisteredAs n

/-- Who is registered under a user name after an action was so before, or has just
completed it. -/
theorem registeredAs_step {R : Registry ι ν} (hR : R.Sound) {a : Action ι ν} {j : ι}
    {t : Session ν} {n : ν} (h : (R.step a).sessions j = some t) (hn : t.RegisteredAs n) :
    (∃ t₀, R.sessions j = some t₀ ∧ t₀.RegisteredAs n) ∨
      ∃ r t₀, a = .ask j r ∧ R.sessions j = some t₀ ∧ t₀.Completes R.Free r n := by
  rcases sessions_step_cases h with h | ⟨-, rfl⟩ | ⟨t₀, r, rfl, h₀, rfl⟩
  · exact Or.inl ⟨t, h, hn⟩
  · cases hn.2
  · rcases Session.registeredAs_ask (hR.named j t₀ h₀) hn with h | h
    · exact Or.inl ⟨t₀, h₀, h⟩
    · exact Or.inr ⟨r, t₀, rfl, h₀, h⟩

/-- User names keep designating one registered session unless an action makes two of them
the same. -/
theorem designated_step_iff {R : Registry ι ν} (hR : R.Sound) (hd : R.Designated)
    (a : Action ι ν) : (R.step a).Designated ↔ ¬ R.Clashes a := by
  constructor
  · rintro h ⟨i, r, n, t, rfl, ht, hc, j, u, hne, hu, hreg⟩
    have hi : (R.step (.ask i r)).sessions i = some (t.ask R.password R.Free r) := by
      rw [step, sessions_put, if_pos rfl, ht, Option.map_some]
    have hj : (R.step (.ask i r)).sessions j = some u := by
      rw [step, sessions_put, if_neg hne, hu]
    exact hne (h j i u _ n hj hi hreg (Session.registeredAs_of_completes hc))
  · intro hnot i j t u n hi hj hti huj
    -- at most one of the two has just completed its registration
    rcases registeredAs_step hR hi hti with ⟨t₀, ht₀, htn⟩ | ⟨r, t₀, rfl, ht₀, hc⟩
    · rcases registeredAs_step hR hj huj with ⟨u₀, hu₀, hun⟩ | ⟨r, u₀, rfl, hu₀, hc⟩
      · exact hd i j t₀ u₀ n ht₀ hu₀ htn hun
      · by_contra hne
        exact hnot ⟨j, r, n, u₀, rfl, hu₀, hc, i, t₀, hne, ht₀, htn⟩
    · rcases registeredAs_step hR hj huj with ⟨u₀, hu₀, hun⟩ | ⟨r', u₀, hr, -, -⟩
      · by_contra hne
        exact hnot ⟨i, r, n, t₀, rfl, ht₀, hc, j, u₀, Ne.symm hne, hu₀, hun⟩
      · cases hr
        rfl

end Registry

end IrcServer
