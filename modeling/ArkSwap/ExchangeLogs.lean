import ArkSwap.ExchangeInvariant
import ArkSwap.Lib.Carries

/-! The log of the exchange, from which anyone can read which pairs there are, what they
trade and what they hold. -/

namespace ArkSwap

open Checked ArkSwapPair

structure Listing where
  token0 : Address
  token1 : Address
  reserve0 : Nat
  reserve1 : Nat
  deriving DecidableEq

def ArkSwapPair.listing (p : ArkSwapPair) : Listing :=
  { token0 := p.token0, token1 := p.token1, reserve0 := p.reserve0, reserve1 := p.reserve1 }

namespace Event

/-- What a reader of the log makes of one more event. -/
def publish (m : Address → Option Listing) : Event → Address → Option Listing
  | .pairCreated token0 token1 pair _ =>
      Function.update m pair
        (some { token0 := token0, token1 := token1, reserve0 := 0, reserve1 := 0 })
  | .sync pair reserve0 reserve1 =>
      Function.update m pair
        ((m pair).map fun l => { l with reserve0 := reserve0, reserve1 := reserve1 })
  | _ => m

def announced : Event → Option Address
  | .pairCreated _ _ pair _ => some pair
  | _ => none

def emitter : Event → Option Address
  | .pairCreated .. => none
  | .mint pair .. | .burn pair .. | .swap pair .. | .sync pair .. => some pair

def syncOf (a : Address) : Event → Option (Nat × Nat)
  | .sync pair reserve0 reserve1 => if pair = a then some (reserve0, reserve1) else none
  | _ => none

/-- A pair reports something other than its reserves. -/
def Inert (a : Address) (e : Event) : Prop := e.emitter = some a ∧ ∀ m, e.publish m = m

theorem mint_inert (a sender : Address) (amount0 amount1 : Nat) :
    Inert a (.mint a sender amount0 amount1) := ⟨rfl, fun _ => rfl⟩

theorem burn_inert (a sender dst : Address) (amount0 amount1 : Nat) :
    Inert a (.burn a sender amount0 amount1 dst) := ⟨rfl, fun _ => rfl⟩

theorem swap_inert (a sender dst : Address) (amount0In amount1In amount0Out amount1Out : Nat) :
    Inert a (.swap a sender amount0In amount1In amount0Out amount1Out dst) := ⟨rfl, fun _ => rfl⟩

theorem Inert.announced {a : Address} {e : Event} (h : Inert a e) : e.announced = none := by
  cases e with
  | pairCreated => cases h.1
  | mint => rfl
  | burn => rfl
  | swap => rfl
  | sync => rfl

end Event

def published (events : List Event) : Address → Option Listing :=
  events.foldl Event.publish fun _ => none

theorem published_append (events events' : List Event) :
    published (events ++ events') = events'.foldl Event.publish (published events) :=
  List.foldl_append

theorem published_inert {a : Address} (m : Address → Option Listing) {events : List Event}
    (h : ∀ e ∈ events, e.Inert a) : events.foldl Event.publish m = m := by
  induction events with
  | nil => rfl
  | cons e rest ih =>
    rw [List.foldl_cons, (h e List.mem_cons_self).2, ih fun e he => h e (List.mem_cons_of_mem _ he)]

theorem publish_isSome {m : Address → Option Listing} {a : Address} (e : Event)
    (h : (m a).isSome) : (e.publish m a).isSome := by
  cases e with
  | pairCreated token0 token1 pair =>
    by_cases ha : a = pair
    · subst ha
      simp [Event.publish]
    · rwa [Event.publish, Function.update_of_ne ha]
  | sync pair =>
    by_cases ha : a = pair
    · subst ha
      simpa [Event.publish] using h
    · rwa [Event.publish, Function.update_of_ne ha]
  | mint => exact h
  | burn => exact h
  | swap => exact h

section Readings

variable {events : List Event} {a : Address} {l : Listing}

def lastSynced (events : List Event) (a : Address) : Nat × Nat :=
  ((events.filterMap (Event.syncOf a)).getLast?).getD (0, 0)

/-- No pair emits anything before it is announced. -/
def AnnouncedFirst (events : List Event) : Prop :=
  ∀ before e after a, events = before ++ e :: after → e.emitter = some a → (published before a).isSome

theorem published_isSome_append (h : (published events a).isSome) (more : List Event) :
    (published (events ++ more) a).isSome := by
  rw [published_append]
  exact List.foldlRecOn (motive := fun m => (m a).isSome) more Event.publish h
    fun m hm e _ => publish_isSome e hm

theorem announced_of_published (h : (published events a).isSome) :
    ∃ e ∈ events, e.announced = some a := by
  induction events using List.reverseRecOn with
  | nil => cases h
  | append_singleton events e ih =>
    have hold : (published events a).isSome → ∃ e' ∈ events ++ [e], e'.announced = some a := by
      intro h
      obtain ⟨e', he', ha⟩ := ih h
      exact ⟨e', List.mem_append_left _ he', ha⟩
    rw [published_append, List.foldl_cons, List.foldl_nil] at h
    cases e with
    | pairCreated token0 token1 pair =>
      by_cases ha : a = pair
      · exact ⟨_, List.mem_append_right _ List.mem_cons_self, congrArg some ha.symm⟩
      · rw [Event.publish, Function.update_of_ne ha] at h
        exact hold h
    | sync pair =>
      by_cases ha : a = pair
      · subst ha
        rw [Event.publish, Function.update_self, Option.isSome_map] at h
        exact hold h
      · rw [Event.publish, Function.update_of_ne ha] at h
        exact hold h
    | mint => exact hold h
    | burn => exact hold h
    | swap => exact hold h

theorem published_of_announced {e : Event} (he : e ∈ events) (ha : e.announced = some a) :
    (published events a).isSome := by
  obtain ⟨before, after, rfl⟩ := List.append_of_mem he
  cases e with
  | pairCreated token0 token1 pair n =>
    obtain rfl := Option.some.inj ha
    rw [List.append_cons]
    refine published_isSome_append ?_ after
    rw [published_append, List.foldl_cons, List.foldl_nil, Event.publish, Function.update_self]
    rfl
  | sync => cases ha
  | mint => cases ha
  | burn => cases ha
  | swap => cases ha

theorem AnnouncedFirst.prefix {more : List Event} (h : AnnouncedFirst (events ++ more)) :
    AnnouncedFirst events := by
  rintro before e after a rfl he
  exact h before e (after ++ more) a (by rw [List.append_assoc, List.cons_append]) he

theorem lastSynced_append (events : List Event) (e : Event) :
    lastSynced (events ++ [e]) a = (e.syncOf a).getD (lastSynced events a) := by
  rw [lastSynced, List.filterMap_append, List.getLast?_append]
  rcases hs : e.syncOf a with _ | r
  · rw [List.filterMap_cons_none hs]
    rfl
  · rw [List.filterMap_cons_some hs]
    rfl

theorem lastSynced_of_unpublished (h : AnnouncedFirst events) (ha : published events a = none) :
    lastSynced events a = (0, 0) := by
  have hnone : events.filterMap (Event.syncOf a) = [] := by
    refine List.filterMap_eq_nil_iff.mpr fun e he => ?_
    obtain ⟨before, after, rfl⟩ := List.append_of_mem he
    cases e with
    | sync pair reserve0 reserve1 =>
      refine if_neg fun hpair => ?_
      have hbefore := h before _ after a rfl (congrArg some hpair)
      have hall := published_isSome_append hbefore (.sync pair reserve0 reserve1 :: after)
      rw [ha] at hall
      cases hall
    | pairCreated => rfl
    | mint => rfl
    | burn => rfl
    | swap => rfl
  rw [lastSynced, hnone]
  rfl

/-- A listing is the one announcement of its pair with the reserves of the last Sync. -/
theorem published_eq_some (hfirst : AnnouncedFirst events)
    (honce : (events.filterMap Event.announced).Nodup) (h : published events a = some l) :
    (∃ n, Event.pairCreated l.token0 l.token1 a n ∈ events) ∧
      lastSynced events a = (l.reserve0, l.reserve1) := by
  induction events using List.reverseRecOn generalizing l with
  | nil => cases h
  | append_singleton events e ih =>
    have hfirst' := hfirst.prefix
    have honce' : (events.filterMap Event.announced).Nodup := by
      rw [List.filterMap_append] at honce
      exact honce.of_append_left
    have hold : published events a = some l → e.syncOf a = none →
        (∃ n, Event.pairCreated l.token0 l.token1 a n ∈ events ++ [e]) ∧
          lastSynced (events ++ [e]) a = (l.reserve0, l.reserve1) := by
      intro h hs
      obtain ⟨⟨n, hn⟩, hsynced⟩ := ih hfirst' honce' h
      exact ⟨⟨n, List.mem_append_left _ hn⟩, by rw [lastSynced_append, hs]; exact hsynced⟩
    rw [published_append, List.foldl_cons, List.foldl_nil] at h
    cases e with
    | pairCreated token0 token1 pair n =>
      by_cases ha : a = pair
      · subst ha
        rw [Event.publish, Function.update_self] at h
        obtain rfl := Option.some.inj h
        refine ⟨⟨n, List.mem_append_right _ List.mem_cons_self⟩, ?_⟩
        rw [lastSynced_append]
        refine lastSynced_of_unpublished hfirst' (Option.not_isSome_iff_eq_none.mp fun hsome => ?_)
        obtain ⟨e, he, hea⟩ := announced_of_published hsome
        rw [List.filterMap_append] at honce
        exact List.disjoint_of_nodup_append honce (List.mem_filterMap.mpr ⟨e, he, hea⟩)
          List.mem_cons_self
      · rw [Event.publish, Function.update_of_ne ha] at h
        exact hold h rfl
    | sync pair reserve0 reserve1 =>
      by_cases ha : a = pair
      · subst ha
        rw [Event.publish, Function.update_self] at h
        obtain ⟨l', hl', rfl⟩ := Option.map_eq_some_iff.mp h
        obtain ⟨⟨n, hn⟩, -⟩ := ih hfirst' honce' hl'
        refine ⟨⟨n, List.mem_append_left _ hn⟩, ?_⟩
        rw [lastSynced_append, Event.syncOf, if_pos rfl]
        rfl
      · rw [Event.publish, Function.update_of_ne ha] at h
        exact hold h (if_neg fun hpair => ha hpair.symm)
    | mint => exact hold h rfl
    | burn => exact hold h rfl
    | swap => exact hold h rfl

end Readings

namespace Exchange

/-- The log tells exactly which pairs the exchange has, each is announced once, and before
it emits anything. -/
structure Mirrored (w : World) : Prop where
  published : published w.logs = fun a => (w.pair a).map ArkSwapPair.listing
  announced : w.logs.filterMap Event.announced = w.factory.allPairs
  first : AnnouncedFirst w.logs

variable {env : Env} {fees : Prop} {w w' : World} {a b : Address} {p q : ArkSwapPair}
variable {events : List Event}

theorem mirrored_of_empty (hlogs : w.logs = []) (hpairs : ∀ a, w.pair a = none)
    (hall : w.factory.allPairs = []) : Mirrored w where
  published := by
    rw [hlogs]
    funext a
    rw [hpairs a]
    rfl
  announced := by rw [hlogs, hall]; rfl
  first before e after a heq := by
    rw [hlogs] at heq
    exact absurd heq.symm (List.append_ne_nil_of_right_ne_nil _ (List.cons_ne_nil _ _))

theorem Mirrored.congr (h : Mirrored w) (hlogs : w'.logs = w.logs)
    (hpair : ∀ a, (w'.pair a).map ArkSwapPair.listing = (w.pair a).map ArkSwapPair.listing)
    (hall : w'.factory.allPairs = w.factory.allPairs) : Mirrored w' where
  published := by rw [hlogs, h.published]; exact funext fun a => (hpair a).symm
  announced := by rw [hlogs, hall, h.announced]
  first before e after a heq := h.first before e after a (hlogs ▸ heq)

/-- An entry of a longer list is old, or comes after all that is old. -/
theorem append_eq_cases {α : Type} {l m before after : List α} {e : α}
    (h : l ++ m = before ++ e :: after) :
    (∃ more, l = before ++ e :: more) ∨ ∃ more, before = l ++ more ∧ e ∈ m := by
  rcases List.append_eq_append_iff.mp h with ⟨more, hbefore, hm⟩ | ⟨more, hl, hm⟩
  · exact Or.inr ⟨more, hbefore, by rw [hm]; exact List.mem_append_right _ List.mem_cons_self⟩
  · rcases more with _ | ⟨e', more⟩
    · rw [List.nil_append] at hm
      exact Or.inr ⟨[], by rw [hl, List.append_nil, List.append_nil], by
        rw [← hm]; exact List.mem_cons_self⟩
    · obtain ⟨rfl, -⟩ := List.cons.inj hm
      exact Or.inl ⟨more, hl⟩

theorem Mirrored.first_append (h : Mirrored w)
    (hevents : ∀ e ∈ events, ∀ a, e.emitter = some a → (w.pair a).isSome) {before after : List Event}
    {e : Event} (heq : w.logs ++ events = before ++ e :: after) (he : e.emitter = some a) :
    (ArkSwap.published before a).isSome := by
  rcases append_eq_cases heq with ⟨more, hlogs⟩ | ⟨more, rfl, hmem⟩
  · exact h.first before e more a hlogs he
  · refine published_isSome_append ?_ more
    rw [h.published]
    simpa using hevents e hmem a he

/-- What calls do to the log. -/
structure Logged (w w' : World) : Prop where
  grown : w.logs <+: w'.logs
  mirrored : Mirrored w → Mirrored w'

theorem Logged.refl (w : World) : Logged w w := ⟨List.prefix_rfl, id⟩

theorem Logged.trans {w'' : World} (h : Logged w w') (h' : Logged w' w'') : Logged w w'' :=
  ⟨h.grown.trans h'.grown, fun hm => h'.mirrored (h.mirrored hm)⟩

theorem Logged.quiet (hlogs : w'.logs = w.logs)
    (hpair : ∀ a, (w'.pair a).map ArkSwapPair.listing = (w.pair a).map ArkSwapPair.listing)
    (hall : w'.factory.allPairs = w.factory.allPairs) : Logged w w' :=
  ⟨hlogs ▸ List.prefix_rfl, fun h => h.congr hlogs hpair hall⟩

theorem Mirrored.synced (h : Mirrored w) (hp : w.pair b = some p) (hq : w'.pair b = some q)
    (hi : Inside b w w') (h₀ : q.token0 = p.token0) (h₁ : q.token1 = p.token1)
    (hr : Reported w w' (.sync b q.reserve0 q.reserve1 :: events))
    (hinert : ∀ e ∈ events, e.Inert b) : Mirrored w' where
  published := by
    rw [hr.logs, published_append, List.foldl_cons, published_inert _ hinert, h.published]
    funext a
    by_cases hab : a = b
    · subst hab
      rw [hq, Event.publish, Function.update_self, hp]
      simp only [Option.map_some, ArkSwapPair.listing, h₀, h₁]
    · rw [hi.pair a hab, Event.publish, Function.update_of_ne hab]
  announced := by
    have hnone : events.filterMap Event.announced = [] :=
      List.filterMap_eq_nil_iff.mpr fun e he => (hinert e he).announced
    rw [hr.logs, List.filterMap_append, List.filterMap_cons_none rfl, hnone, List.append_nil,
      h.announced, hi.factory]
  first before e after a heq he := by
    refine h.first_append (fun e he a ha => ?_) (hr.logs ▸ heq) he
    have hab : a = b := by
      rcases List.mem_cons.mp he with rfl | he
      · exact (Option.some.inj ha).symm
      · exact Option.some.inj (ha.symm.trans (hinert e he).1)
    rw [hab, hp]
    rfl

theorem Logged.synced (hp : w.pair b = some p) (hq : w'.pair b = some q) (hi : Inside b w w')
    (h₀ : q.token0 = p.token0) (h₁ : q.token1 = p.token1)
    (hr : Reported w w' (.sync b q.reserve0 q.reserve1 :: events))
    (hinert : ∀ e ∈ events, e.Inert b) : Logged w w' :=
  ⟨hr.logs ▸ List.prefix_append _ _, fun h => h.synced hp hq hi h₀ h₁ hr hinert⟩

theorem Mirrored.created {token0 token1 : Address} {n : Nat} (h : Mirrored w)
    (hpairs : w'.pair = Function.update w.pair b (some (.initial token0 token1)))
    (hall : w'.factory.allPairs = w.factory.allPairs ++ [b])
    (hlogs : w'.logs = w.logs ++ [.pairCreated token0 token1 b n]) : Mirrored w' where
  published := by
    rw [hlogs, published_append, h.published, hpairs]
    funext a
    by_cases hab : a = b
    · subst hab
      rw [Function.update_self, List.foldl_cons, Event.publish, List.foldl_nil,
        Function.update_self]
      rfl
    · rw [Function.update_of_ne hab, List.foldl_cons, Event.publish, List.foldl_nil,
        Function.update_of_ne hab]
  announced := by
    rw [hlogs, List.filterMap_append, h.announced, hall]
    rfl
  first before e after a heq he := by
    refine h.first_append (fun e he a ha => ?_) (hlogs ▸ heq) he
    rw [List.mem_singleton.mp he] at ha
    cases ha

end Exchange

end ArkSwap
