import ArkSwap.ApiPages
import ArkSwap.ExchangeMirror
import ArkSwap.IndexerTrades
import Mathlib.Data.List.ReduceOption

/-! The pages of the API over a chain that records the exchange: they list the events of the
contracts from the last one on, and a reader who turns page after page while the indexer goes
on misses none. -/

namespace ArkSwap

namespace Event

/-- The swaps of a pair and of an account, on either side. -/
def asked (pair account : Option Address) : Event → Bool
  | .swap a sender _ _ _ _ dst =>
      pair.all (fun b => a = b) && account.all fun b => sender = b || dst = b
  | _ => false

def stakes (pair : Address) (e : Event) : Bool := e.isLiquidity && e.emitter = some pair

theorem isSwap_of_asked {pair account : Option Address} {e : Event}
    (h : e.asked pair account = true) : e.isSwap = true := by
  cases e with
  | swap => rfl
  | pairCreated => cases h
  | mint => cases h
  | burn => cases h
  | sync => cases h

theorem isLiquidity_of_stakes {pair : Address} {e : Event} (h : e.stakes pair = true) :
    e.isLiquidity = true := (Bool.and_eq_true_iff.mp h).1

end Event

namespace GoInternal

open Indexer Exchange

variable {env : Env} {fees : Prop} {absent : Set Address} {w : World}
  {blocks : List (List (Nat × Transaction env fees absent))}
variable {cfg : Config} {c : Chain} {chains : Set Chain} {l : Log} {logs : List Log} {m n : Nat}
variable {db : Database}

def Log.position (l : Log) : ℕ ×ₗ ℕ := toLex (l.blockNumber, l.index)

theorem position_lt {l m : Log} : l.position < m.position ↔ l.Before m := by
  rw [Log.position, Log.position, Prod.Lex.lt_iff, Log.Before]
  exact Iff.rfl

section Listing

variable {R T : Type} {feed : Feed (Word × Nat) R} {blockOf : R → Nat} {addressOf : R → Address}
variable {rows : Table (Word × Nat) R} {value : R → T} {read : Log → Option T} {pairs : List Address}
variable {position : R → ℕ ×ₗ ℕ}

/-- What the logs of some pairs say. -/
def told (read : Log → Option T) (pairs : List Address) (logs : List Log) : List T :=
  logs.filterMap fun l => if pairs.contains l.address then read l else none

theorem told_eq : told read pairs logs =
    logs.filterMap fun l => if l.address ∈ pairs then read l else none := by
  simp only [told, List.contains_iff_mem]

/-- The same with the logs that say it. -/
def entries (read : Log → Option T) (pairs : List Address) (logs : List Log) : List (Log × T) :=
  told (fun l => (read l).map fun x => (l, x)) pairs logs

theorem told_entries {U : Type} (read : Log → Option T) (pairs : List Address) (logs : List Log)
    (f : Log → T → U) :
    told (fun l => (read l).map (f l)) pairs logs = (entries read pairs logs).map fun x => f x.1 x.2 := by
  rw [told, entries, told, List.map_filterMap]
  refine List.filterMap_congr fun l _ => ?_
  split
  · rw [Option.map_map]
    rfl
  · rfl

/-- The same with the places where they say it. -/
def chronicle (read : Log → Option T) (pairs : List Address) (logs : List Log) : List ((ℕ ×ₗ ℕ) × T) :=
  told (fun l => (read l).map fun x => (l.position, x)) pairs logs

theorem chronicle_told : (chronicle read pairs logs).map Prod.snd = told read pairs logs := by
  rw [chronicle, told, List.map_filterMap, told]
  refine List.filterMap_congr fun l _ => ?_
  split
  · rcases read l with _ | x <;> rfl
  · rfl

theorem chronicle_sorted (h : logs.Pairwise Log.Before) :
    (chronicle read pairs logs).Pairwise fun e e' => e.1 < e'.1 := by
  refine h.filterMap _ fun l m hbefore e he e' he' => ?_
  obtain ⟨-, he⟩ := Option.ite_none_right_eq_some.mp he
  obtain ⟨-, he'⟩ := Option.ite_none_right_eq_some.mp he'
  obtain ⟨x, -, rfl⟩ := Option.map_eq_some_iff.mp he
  obtain ⟨x', -, rfl⟩ := Option.map_eq_some_iff.mp he'
  exact position_lt.mpr hbefore

section Rows

variable (hnet : Chain.Network cfg chains) (hc : c ∈ chains) (hf : EventFeed feed blockOf addressOf)
variable (hsound : feed.Sound cfg c (Below n) rows) (hcomplete : feed.Complete cfg c (Below n) rows)
variable (hread : ∀ b l, (read l).map (fun x => (l.position, x)) =
  (feed.rowOf b l).map fun r => (position r, value r))
variable (hvalue : ∀ r, (position (feed.raw r), value (feed.raw r)) = (position r, value r))
variable (hpairs : ∀ a, a ∈ pairs ↔ ∃ k ev, c.Created cfg a k ev ∧ k.blockNumber < n)

include hnet hc hf hsound hcomplete hread hvalue hpairs

theorem Feed.chronicled :
    (rows.rows.map fun r => (position r, value r)).Perm (chronicle read pairs (c.below n)) := by
  rw [chronicle, told_eq]
  exact Feed.rows_perm hnet hc hf hsound hcomplete hread hvalue hpairs

/-- The rows of a feed, listed by their place in the chain, are what the logs say from the
last one on. -/
theorem Feed.newest (q : T → Bool) :
    (Pages.newestFirst position (rows.rows.filter fun r => q (value r))).map value =
      ((told read pairs (c.below n)).filter q).reverse := by
  have hwf := hnet.wellFormed c hc
  rw [← chronicle_told]
  exact Pages.newestFirst_entries (Feed.chronicled hnet hc hf hsound hcomplete hread hvalue hpairs)
    (chronicle_sorted (below_sorted hwf.blockNumber hwf.order)) q

end Rows

theorem forall₂_iff_map_eq {A B U : Type} {f : A → U} {g : B → U} {xs : List A} {ys : List B} :
    List.Forall₂ (fun x y => f x = g y) xs ys ↔ xs.map f = ys.map g := by
  rw [← List.forall₂_eq_eq_eq, List.forall₂_map_left_iff, List.forall₂_map_right_iff]

theorem Feed.dated (timeOf : R → ℕ) (hf : EventFeed feed blockOf addressOf)
    (htime : ∀ b l row, feed.rowOf b l = some (feed.raw row) → timeOf row = b.timestamp)
    (hsound : feed.Sound cfg c (Below n) rows) {row : R} (hrow : row ∈ rows.rows) :
    ∃ b, c.headerAt (blockOf row) = some b ∧ timeOf row = b.timestamp := by
  obtain ⟨k, hk⟩ := Table.mem_rows.mp hrow
  obtain ⟨-, l, b, hentry, -⟩ := hsound k row hk
  exact ⟨b, hf.block b l row hentry.row ▸ hentry.header, htime b l row hentry.row⟩

/-- So each row of the listing stands for the log in its place, the last one first. -/
theorem Feed.marked {S : Type} {say : Log → T → S} {said : R → S} (hnet : Chain.Network cfg chains)
    (hc : c ∈ chains) (hf : EventFeed feed blockOf addressOf)
    (hsound : feed.Sound cfg c (Below n) rows) (hcomplete : feed.Complete cfg c (Below n) rows)
    (hsaid : ∀ b l, (read l).map (fun x => (l.position, (l.txHash, l.index), say l x)) =
      (feed.rowOf b l).map fun r => (position r, feed.keyOf r, said r))
    (hraw : ∀ r, (position (feed.raw r), said (feed.raw r)) = (position r, said r))
    (hpairs : ∀ a, a ∈ pairs ↔ ∃ k ev, c.Created cfg a k ev ∧ k.blockNumber < n) (q : S → Bool) :
    List.Forall₂ (fun x r => (x.1.position, (x.1.txHash, x.1.index), say x.1 x.2) =
        (position r, feed.keyOf r, said r))
      ((entries read pairs (c.below n)).filter fun x => q (say x.1 x.2)).reverse
      (Pages.newestFirst position (rows.rows.filter fun r => q (said r))) := by
  have hplaced : ∀ b l, ((read l).map fun x => (l.position, (l.txHash, l.index), say l x)).map
      (fun x => (l.position, x)) =
        (feed.rowOf b l).map fun r => (position r, position r, feed.keyOf r, said r) := by
    intro b l
    have hboth := congrArg (Option.map fun x => (x.1, x)) (hsaid b l)
    rw [Option.map_map, Option.map_map] at hboth
    rw [Option.map_map]
    exact hboth
  have hnewest := Feed.newest hnet hc hf hsound hcomplete hplaced (fun r => ?_) hpairs fun x => q x.2.2
  · rw [told_entries _ _ _ fun l x => (l.position, (l.txHash, l.index), say l x), List.filter_map,
      ← List.map_reverse] at hnewest
    exact forall₂_iff_map_eq.mpr hnewest.symm
  · obtain ⟨hposition, hsame⟩ := Prod.mk.inj (hraw r)
    rw [hposition, hsame, feed.keyOf_raw]

end Listing

theorem swapRead_placed {T : Type} (f : ℕ ×ₗ ℕ → Word × Nat → Event → T) (cfg : Config) (b : Block)
    (l : Log) : (swapRead l).map (f l.position (l.txHash, l.index)) =
      (swapOf cfg b l).map fun s => f s.position s.key s.event := by
  rw [swapRead, swapOf]
  split
  · rw [Option.map_map, Option.map_map]
    rfl
  · rfl

theorem liquidityRead_placed {T : Type} (f : ℕ ×ₗ ℕ → Word × Nat → Address → Option Event → T)
    (cfg : Config) (b : Block) (l : Log) :
    (liquidityRead l).map (fun e => f l.position (l.txHash, l.index) l.address (some e)) =
      (liquidityOf cfg b l).map fun r => f r.position r.key r.pairAddress r.event := by
  rw [liquidityRead, liquidityOf]
  rcases l.topic with _ | t
  · rfl
  · cases t with
    | mint =>
      dsimp only
      rw [Option.map_map, Option.map_map]
      rfl
    | burn =>
      dsimp only
      rw [Option.map_map, Option.map_map]
      rfl
    | pairCreated => rfl
    | swap => rfl
    | sync => rfl
    | other => rfl

theorem liquidityRead_stakes {a : Address} {e : Event} (h : liquidityRead l = some e) :
    e.stakes a = decide (l.address = a) := by
  rw [liquidityRead] at h
  split at h
  · obtain ⟨ev, -, rfl⟩ := Option.map_eq_some_iff.mp h
    simp [Event.stakes, Event.isLiquidity, Event.emitter, Event.topic]
  · obtain ⟨ev, -, rfl⟩ := Option.map_eq_some_iff.mp h
    simp [Event.stakes, Event.isLiquidity, Event.emitter, Event.topic]
  · cases h

theorem liquidityOf_timestamp {b : Block} {e : LiquidityEvent} (h : liquidityOf cfg b l = some e) :
    e.timestamp = b.timestamp := by
  rw [liquidityOf] at h
  split at h
  · obtain ⟨ev, -, rfl⟩ := Option.map_eq_some_iff.mp h
    rfl
  · obtain ⟨ev, -, rfl⟩ := Option.map_eq_some_iff.mp h
    rfl
  · cases h

theorem swapRead_isSwap {e : Event} (h : swapRead l = some e) : e.isSwap = true := by
  rw [swapRead] at h
  split at h
  · obtain ⟨ev, -, rfl⟩ := Option.map_eq_some_iff.mp h
    rfl
  · cases h

/-- The events of some kind below a height, each with the log that shows it. -/
structure Recorded (factory : Address) (c : Chain) (n : ℕ) (events : List Event)
    (entries : List (Log × Event)) : Prop where
  events : entries.map Prod.snd = events
  logs : (entries.map Prod.fst).Sublist (c.below n)
  encodes : ∀ x ∈ entries, x.2.Encodes factory x.1

section Recorded

variable (hs : Grounds env) (hg : Exchange.Genesis env w) (hlogs : w.logs = [])
variable (hfactory : cfg.factoryAddress = env.factory) (hrec : Records w blocks c)

include hs hg hlogs hrec

theorem entries_recorded {read : Log → Option Event} {kind q : Event → Bool}
    (htopic : ∀ l, (read l).isSome → Chain.PairTopic l)
    (hread : ∀ (e : Event) l, e.Encodes env.factory l → read l = Option.guard (kind ·) e)
    (hq : ∀ e, q e = true → kind e = true) :
    Recorded env.factory c n ((worldAt w blocks n).logs.filter q)
      ((entries read (worldAt w blocks n).factory.allPairs (c.below n)).filter fun x => q x.2) where
  events := by
    have htold : (entries read (worldAt w blocks n).factory.allPairs (c.below n)).map Prod.snd =
        (worldAt w blocks n).logs.filter kind := by
      have hsnd := told_entries read (worldAt w blocks n).factory.allPairs (c.below n) fun _ e => e
      rw [← hsnd, told_eq]
      simp only [Option.map_id_fun', id]
      rw [read_listed hs hg hlogs hrec htopic hread, List.filterMap_eq_filter]
    have hfilter := congrArg (List.filter q) htold
    rw [List.filter_map, List.filter_filter] at hfilter
    refine hfilter.trans (List.filter_congr fun e _ => ?_)
    rcases he : q e with _ | _
    · rfl
    · rw [Bool.true_and, hq e he]
  logs := by
    refine (List.filter_sublist.map Prod.fst).trans ?_
    have hfst := told_entries read (worldAt w blocks n).factory.allPairs (c.below n) fun l _ => l
    have hkept : (told (fun l => (read l).map fun _ => l) (worldAt w blocks n).factory.allPairs
        (c.below n)) = (c.below n).filter fun l =>
          (worldAt w blocks n).factory.allPairs.contains l.address && (read l).isSome := by
      rw [told, ← List.filterMap_eq_filter]
      refine List.filterMap_congr fun l _ => ?_
      by_cases hlisted : l.address ∈ (worldAt w blocks n).factory.allPairs
      · rcases hsome : read l with _ | e <;> simp [Option.guard, hlisted, hsome]
      · simp [Option.guard, hlisted]
    rw [← hfst, hkept]
    exact List.filter_sublist
  encodes x hx := by
    obtain ⟨l, hl, hsome⟩ := List.mem_filterMap.mp (List.mem_filter.mp hx).1
    obtain ⟨hlisted, hsome⟩ := Option.ite_none_right_eq_some.mp hsome
    obtain ⟨e, he, rfl⟩ := Option.map_eq_some_iff.mp hsome
    have hours : ¬Foreign env l := fun hforeign => hforeign.2
      ⟨pooled_of_listed hs hg (List.contains_iff_mem.mp hlisted), htopic l (by rw [he]; rfl)⟩
    obtain ⟨e', -, hencodes⟩ := (shows_below hs hg hlogs hrec n).mem_right hl hours
    rw [hread e' l hencodes, Option.guard_eq_some_iff] at he
    exact he.1 ▸ hencodes

theorem swapEntries_recorded {q : Event → Bool} (hq : ∀ e, q e = true → e.isSwap = true) :
    Recorded env.factory c n ((worldAt w blocks n).logs.filter q)
      ((entries swapRead (worldAt w blocks n).factory.allPairs (c.below n)).filter fun x => q x.2) :=
  entries_recorded hs hg hlogs hrec (fun _ => swapRead_topic) (fun _ _ => swapRead_of) hq

theorem liquidityEntries_recorded {q : Event → Bool} (hq : ∀ e, q e = true → e.isLiquidity = true) :
    Recorded env.factory c n ((worldAt w blocks n).logs.filter q)
      ((entries liquidityRead (worldAt w blocks n).factory.allPairs (c.below n)).filter fun x => q x.2) :=
  entries_recorded hs hg hlogs hrec (fun _ => liquidityRead_topic) (fun _ _ => liquidityRead_of) hq

end Recorded

/-- What comes in and what goes out, as texts: tokens and amounts of a swap with one side coming in. -/
def tradeTexts (token0 token1 : Address) (amount0In amount1In amount0Out amount1Out : ℕ) :
    Option Address × Option Address × Option Text × Option Text :=
  if 0 < amount0In ∧ amount1In = 0 then
    (some token0, some token1, some (Nat.toDigits 10 amount0In), some (Nat.toDigits 10 amount1Out))
  else if 0 < amount1In ∧ amount0In = 0 then
    (some token1, some token0, some (Nat.toDigits 10 amount1In), some (Nat.toDigits 10 amount0Out))
  else (none, none, none, none)

namespace Api

/-- A row of a page shows a Swap event: its log and the time of its block, who swapped what and in
which tokens of the pair. -/
structure SwapView.Shows (c : Chain) (v : World) (x : Log × Event) (view : SwapView) : Prop where
  place : (view.txHash, view.logIndex, view.blockNumber) = (x.1.txHash, x.1.index, x.1.blockNumber)
  time : ∃ b, c.headerAt x.1.blockNumber = some b ∧ view.timestamp = b.timestamp
  event : ∃ p amount0In amount1In amount0Out amount1Out, v.pair view.pairAddress = some p ∧
    x.2 = .swap view.pairAddress view.sender amount0In amount1In amount0Out amount1Out view.recipient ∧
      (view.tokenIn, view.tokenOut, view.amountIn, view.amountOut) =
        tradeTexts p.token0 p.token1 amount0In amount1In amount0Out amount1Out

/-- The same for a Mint or a Burn event. -/
structure LiquidityView.Shows (c : Chain) (x : Log × Event) (view : LiquidityView) : Prop where
  place : (view.txHash, view.logIndex, view.blockNumber) = (x.1.txHash, x.1.index, x.1.blockNumber)
  time : ∃ b, c.headerAt x.1.blockNumber = some b ∧ view.timestamp = b.timestamp
  event : ∃ sender amount0 amount1, view.sender = some sender ∧
    view.amount0 = Nat.toDigits 10 amount0 ∧ view.amount1 = Nat.toDigits 10 amount1 ∧
      (view.eventType = .mint ∧ view.recipient = none ∧
          x.2 = .mint view.pairAddress sender amount0 amount1 ∨
        ∃ dst, view.eventType = .burn ∧ view.recipient = some dst ∧
          x.2 = .burn view.pairAddress sender amount0 amount1 dst)

end Api

theorem tellsTrade_texts {s : Swap} {token0 token1 : Address} (h : TellsTrade s token0 token1) :
    (s.tokenInAddress, s.tokenOutAddress, Api.amountString s.amountIn, Api.amountString s.amountOut) =
      tradeTexts token0 token1 s.amount0In s.amount1In s.amount0Out s.amount1Out := by
  have hin := congrArg Swap.tokenInAddress h
  have hout := congrArg Swap.tokenOutAddress h
  have hamountIn := congrArg Swap.amountIn h
  have hamountOut := congrArg Swap.amountOut h
  dsimp only at hin hout hamountIn hamountOut
  rw [hin, hout, hamountIn, hamountOut, normalizeSwap, tradeTexts]
  simp only [Nat.pos_iff_ne_zero, ne_eq, not_not, Swap.raw]
  split
  · rfl
  · split <;> rfl

section Rows

variable (hs : Grounds env) (hg : Exchange.Genesis env w) (hlogs : w.logs = [])
variable (hfactory : cfg.factoryAddress = env.factory) (hrec : Records w blocks c)
variable (hnet : Chain.Network cfg chains) (hc : c ∈ chains)
variable (hsound : Indexer.Sound cfg c n db) (hcomplete : Complete cfg c (Below n) db)

include hs hg hlogs hfactory hrec hnet hc hsound hcomplete

theorem listedSwaps_marked (pair account : Option Address) :
    List.Forall₂ (fun x s => (x.1.position, (x.1.txHash, x.1.index), x.2) =
        (s.position, s.key, s.event))
      ((entries swapRead (worldAt w blocks n).factory.allPairs (c.below n)).filter fun x =>
        x.2.asked pair account).reverse (db.listedSwaps pair account) :=
  Feed.marked hnet hc swapFeed_event hsound.swaps hcomplete.swaps
    (swapRead_placed (fun place key e => (place, key, e)) cfg) (fun _ => rfl)
    (fun _ => listed_iff_created hs hg hlogs hfactory (hnet.wellFormed c hc).blockNumber hrec)
    (Event.asked pair account)

theorem listedLiquidity_marked (pair : Address) :
    List.Forall₂ (fun x e => (x.1.position, (x.1.txHash, x.1.index), x.1.address, some x.2) =
        (e.position, e.key, e.pairAddress, e.event))
      ((entries liquidityRead (worldAt w blocks n).factory.allPairs (c.below n)).filter fun x =>
        x.2.stakes pair).reverse (db.listedLiquidity pair) := by
  have hmarked := Feed.marked hnet hc liquidityFeed_event hsound.liquidityEvents
    hcomplete.liquidityEvents (liquidityRead_placed (fun place key a e => (place, key, a, e)) cfg)
    (fun _ => rfl)
    (fun _ => listed_iff_created hs hg hlogs hfactory (hnet.wellFormed c hc).blockNumber hrec)
    fun x => decide (x.1 = pair)
  have hstakes : ∀ x ∈ entries liquidityRead (worldAt w blocks n).factory.allPairs (c.below n),
      x.2.stakes pair = decide (x.1.address = pair) := by
    intro x hx
    obtain ⟨l, -, hsome⟩ := List.mem_filterMap.mp hx
    obtain ⟨-, hsome⟩ := Option.ite_none_right_eq_some.mp hsome
    obtain ⟨e, he, rfl⟩ := Option.map_eq_some_iff.mp hsome
    exact liquidityRead_stakes he
  rw [List.filter_congr hstakes]
  exact hmarked

end Rows

section Views

variable {x : Log × Event} {v : World}

theorem swapView_shows {s : Swap} (hsound : Indexer.Sound cfg c n db) (hrow : s ∈ db.swaps.rows)
    (hmark : (x.1.position, (x.1.txHash, x.1.index), x.2) = (s.position, s.key, s.event))
    (htrade : ∃ row, db.pairs[s.pairAddress]? = some row ∧
      TellsTrade s row.token0Address row.token1Address)
    (hlisting : ∀ a, (db.pairs[a]?).map Pair.listing = (v.pair a).map ArkSwapPair.listing) :
    Api.SwapView.Shows c v x (Api.swapView (db.swapRow s)) := by
  obtain ⟨hposition, hkey, hevent⟩ : x.1.position = s.position ∧ (x.1.txHash, x.1.index) = s.key ∧
      x.2 = s.event := by simpa only [Prod.mk.injEq] using hmark
  obtain ⟨hblock, hindex⟩ := Prod.mk.inj (toLex.injective hposition)
  obtain ⟨htx, -⟩ := Prod.mk.inj hkey
  obtain ⟨row, hpair, htells⟩ := htrade
  have hboth := hlisting s.pairAddress
  rw [hpair, Option.map_some] at hboth
  obtain ⟨p, hp, hsame⟩ := Option.map_eq_some_iff.mp hboth.symm
  have h₀ : p.token0 = row.token0Address := congrArg Listing.token0 hsame
  have h₁ : p.token1 = row.token1Address := congrArg Listing.token1 hsame
  refine ⟨?_, ?_, p, _, _, _, _, hp, hevent, ?_⟩
  · rw [htx, hindex, hblock]
    rfl
  · rw [hblock]
    exact Feed.dated Swap.timestamp swapFeed_event (fun b l row h => by
      obtain ⟨-, ev, -, hraw⟩ := swapOf_eq_some.mp h
      exact (congrArg Swap.timestamp hraw).symm) hsound.swaps hrow
  · rw [h₀, h₁]
    exact tellsTrade_texts htells

theorem liquidityView_shows {e : LiquidityEvent} (hsound : Indexer.Sound cfg c n db)
    (hrow : e ∈ db.liquidityEvents.rows)
    (hmark : (x.1.position, (x.1.txHash, x.1.index), x.1.address, some x.2) =
      (e.position, e.key, e.pairAddress, e.event)) :
    Api.LiquidityView.Shows c x (Api.liquidityView e) := by
  obtain ⟨hposition, hkey, haddress, hevent⟩ : x.1.position = e.position ∧
      (x.1.txHash, x.1.index) = e.key ∧ x.1.address = e.pairAddress ∧ some x.2 = e.event := by
    simpa only [Prod.mk.injEq] using hmark
  obtain ⟨hblock, hindex⟩ := Prod.mk.inj (toLex.injective hposition)
  obtain ⟨htx, -⟩ := Prod.mk.inj hkey
  refine ⟨?_, ?_, ?_⟩
  · rw [htx, hindex, hblock]
    rfl
  · rw [hblock]
    exact Feed.dated LiquidityEvent.timestamp liquidityFeed_event (fun b l row h => by
      have hraw : row.raw.timestamp = b.timestamp := liquidityOf_timestamp h
      exact hraw) hsound.liquidityEvents hrow
  · rw [LiquidityEvent.event] at hevent
    split at hevent
    · rename_i sender htype hsender hrecipient
      exact ⟨sender, _, _, hsender, rfl, rfl, .inl ⟨htype, hrecipient, Option.some.inj hevent⟩⟩
    · rename_i sender dst htype hsender hrecipient
      exact ⟨sender, _, _, hsender, rfl, rfl, .inr ⟨dst, htype, hrecipient, Option.some.inj hevent⟩⟩
    · cases hevent

end Views

namespace Api

variable {R V : Type}

/-- A request is answered with the page it asks for of the rows as they are listed, with how many
events there were when the rows were counted; the page shows that page of the events with their
logs, the last one first. -/
structure Answered (factory : Address) (c : Chain) (n : ℕ) (rows : List R) (view : R → V)
    (shows : Log × Event → V → Prop) (counted listed : List Event) (paging : ℕ × ℕ)
    (answer : Except Failure (ListEnvelope V)) : Prop where
  answer : answer = .ok { data := (Pages.page rows paging.1 paging.2).map view,
                          pagination := ⟨paging.1, paging.2, counted.length⟩ }
  shown : ∃ entries, Recorded factory c n listed entries ∧
    List.Forall₂ shows (Pages.page entries.reverse paging.1 paging.2)
      ((Pages.page rows paging.1 paging.2).map view)

variable {counted : Database}

theorem swapsPage_data {pair account : Option Address} {limit offset : ℕ}
    {page : ListEnvelope SwapView} (hpos : 0 < limit) (hmax : limit ≤ pageLimitMax)
    (hoffset : offset < 2 ^ 63) (h : swapsPage (some (counted, db)) (Nat.toDigits 10 limit)
      (Nat.toDigits 10 offset) pair account = .ok page) :
    page.data = (Pages.page (db.listedSwaps pair account) limit offset).map fun s =>
      swapView (db.swapRow s) := by
  simp only [swapsPage, parsePaging_numerals hpos hmax hoffset, Database.swapsPage, List.map_map] at h
  exact (congrArg ListEnvelope.data (Except.ok.inj h)).symm

end Api

section Growth

variable {T : Type} {read : Log → Option T}

theorem below_grows (hmn : m ≤ n) : c.below m <+: c.below n := by
  obtain ⟨d, rfl⟩ := Nat.exists_eq_add_of_le hmn
  refine ⟨(List.range' m d).flatMap c.logsAt, ?_⟩
  rw [Chain.below, Chain.below, ← List.flatMap_append, ← List.range'_append_1, Nat.zero_add]

/-- A pair is listed before it says anything. -/
theorem listed_early (hs : Grounds env) (hg : Exchange.Genesis env w) (hlogs : w.logs = [])
    (hfactory : cfg.factoryAddress = env.factory) (hrec : Records w blocks c)
    (hnet : Chain.Network cfg chains) (hc : c ∈ chains) (hl : c.Emits l) (htopic : Chain.PairTopic l)
    (hlm : l.blockNumber < m) (hmn : m ≤ n) :
    l.address ∈ (worldAt w blocks m).factory.allPairs ↔
      l.address ∈ (worldAt w blocks n).factory.allPairs := by
  have hiff := fun n => listed_iff_created (a := l.address) (n := n) hs hg hlogs hfactory
    (hnet.wellFormed c hc).blockNumber hrec
  rw [hiff, hiff]
  constructor
  · rintro ⟨k, ev, hk, hlt⟩
    exact ⟨k, ev, hk, Nat.lt_of_lt_of_le hlt hmn⟩
  · rintro ⟨k, ev, hk, -⟩
    obtain ⟨k', ev', hk', hbefore⟩ := hnet.created_first c hc c hc l hl ⟨k, ev, hk⟩ htopic
    exact ⟨k', ev', hk', Nat.lt_of_le_of_lt (Log.Before.le hbefore) hlm⟩

theorem told_grows (hs : Grounds env) (hg : Exchange.Genesis env w) (hlogs : w.logs = [])
    (hfactory : cfg.factoryAddress = env.factory) (hrec : Records w blocks c)
    (hnet : Chain.Network cfg chains) (hc : c ∈ chains)
    (htopic : ∀ l, (read l).isSome → Chain.PairTopic l) (hmn : m ≤ n) :
    told read (worldAt w blocks m).factory.allPairs (c.below m) <+:
      told read (worldAt w blocks n).factory.allPairs (c.below n) := by
  obtain ⟨more, hmore⟩ : c.below m <+: c.below n := below_grows hmn
  refine ⟨told read (worldAt w blocks n).factory.allPairs more, ?_⟩
  rw [← hmore, told_eq, told_eq, told_eq, List.filterMap_append]
  refine congrArg (· ++ _) (List.filterMap_congr fun l hl => ?_)
  obtain ⟨hemits, hlt⟩ := (mem_below (hnet.wellFormed c hc).blockNumber).mp hl
  rcases hread : read l with _ | x
  · rw [ite_self, ite_self]
  · have hlisted := listed_early hs hg hlogs hfactory hrec hnet hc hemits
      (htopic l (by rw [hread]; rfl)) hlt hmn
    simp only [hlisted]

theorem entries_sorted {T : Type} {read : Log → Option T} {pairs : List Address}
    (h : logs.Pairwise Log.Before) :
    (entries read pairs logs).Pairwise fun x y => x.1.position < y.1.position := by
  refine h.filterMap _ fun l m hbefore x hx y hy => ?_
  obtain ⟨-, hx⟩ := Option.ite_none_right_eq_some.mp hx
  obtain ⟨-, hy⟩ := Option.ite_none_right_eq_some.mp hy
  obtain ⟨e, -, rfl⟩ := Option.map_eq_some_iff.mp hx
  obtain ⟨e', -, rfl⟩ := Option.map_eq_some_iff.mp hy
  exact position_lt.mpr hbefore

/-- What the logs below a height say is among what later logs say, before the height. -/
theorem entries_below (hs : Grounds env) (hg : Exchange.Genesis env w) (hlogs : w.logs = [])
    (hfactory : cfg.factoryAddress = env.factory) (hrec : Records w blocks c)
    (hnet : Chain.Network cfg chains) (hc : c ∈ chains)
    (htopic : ∀ l, (read l).isSome → Chain.PairTopic l) (hmn : m ≤ n) :
    (entries read (worldAt w blocks n).factory.allPairs (c.below n)).filter
        (fun x => decide (x.1.blockNumber < m)) =
      entries read (worldAt w blocks m).factory.allPairs (c.below m) := by
  have hwf := hnet.wellFormed c hc
  have hearly : ∀ l, l ∈ c.below m ↔ l ∈ c.below n ∧ l.blockNumber < m := by
    intro l
    rw [mem_below hwf.blockNumber, mem_below hwf.blockNumber]
    exact ⟨fun h => ⟨⟨h.1, Nat.lt_of_lt_of_le h.2 hmn⟩, h.2⟩, fun h => ⟨h.1.1, h.2⟩⟩
  have hlow : (c.below n).filter (fun l => decide (l.blockNumber < m)) = c.below m := by
    obtain ⟨more, hmore⟩ : c.below m <+: c.below n := below_grows hmn
    have hnodup : (c.below n).Nodup :=
      (below_sorted hwf.blockNumber hwf.order).imp fun h heq => by
        subst heq
        rcases h with h | h <;> omega
    rw [← hmore] at hnodup ⊢
    rw [List.filter_append, List.filter_eq_self.mpr, List.filter_eq_nil_iff.mpr, List.append_nil]
    · intro l hl hlt
      have hin : l ∈ c.below m := (hearly l).mpr
        ⟨hmore ▸ List.mem_append_right _ hl, of_decide_eq_true hlt⟩
      exact (List.disjoint_of_nodup_append hnodup) hin hl
    · exact fun l hl => decide_eq_true ((hearly l).mp hl).2
  rw [entries, told_eq, List.filter_filterMap, entries, told_eq, ← hlow, List.filterMap_filter]
  refine List.filterMap_congr fun l hl => ?_
  obtain ⟨hemits, -⟩ := (mem_below hwf.blockNumber).mp hl
  rcases hsome : read l with _ | x
  · simp
  · by_cases hlt : l.blockNumber < m
    · have hlisted := listed_early hs hg hlogs hfactory hrec hnet hc hemits
        (htopic l (by rw [hsome]; rfl)) hlt hmn
      by_cases hin : l.address ∈ (worldAt w blocks n).factory.allPairs <;> simp [hlisted, hin, hlt]
    · have hge := Nat.le_of_not_lt hlt
      by_cases hin : l.address ∈ (worldAt w blocks n).factory.allPairs <;> simp [hin, hlt, hge]

end Growth

section Process

variable {before after : List Step} {st₀ st : IndexerState} {steps : List Step}

section Requests

variable (hs : Grounds env) (hg : Exchange.Genesis env w) (hlogs : w.logs = [])
variable (hfactory : cfg.factoryAddress = env.factory) (hrec : Records w blocks c)
variable (hserved : Served cfg c)
variable (hdist : HashChain.Distinguishes (fun b : MinedBlock => b.header.hash) c c)
variable (hbatch : 0 < cfg.blockBatchSize)

include hs hg hlogs hfactory hrec hserved hdist hbatch

theorem swaps_shown
    (hpass : Run.Along (Process.step cfg) (Process.Watches cfg c) Process.initial steps) {db : Database}
    (hdb : (Run.run (Process.step cfg) Process.initial steps).db = db) (pair account : Option Address) :
    List.Forall₂ (Api.SwapView.Shows c (worldAt w blocks (nextBlock cfg db)))
      ((entries swapRead (worldAt w blocks (nextBlock cfg db)).factory.allPairs
        (c.below (nextBlock cfg db))).filter fun x => x.2.asked pair account).reverse
      ((db.listedSwaps pair account).map fun s => Api.swapView (db.swapRow s)) := by
  have hnet := network_of_record hs hg hlogs hfactory hrec hserved hdist
  have hindex := (Process.onReplay_initial hnet).run hnet hbatch hpass
  have htraded := fun k s => Process.run_traded (k := k) (s := s) hnet hbatch hpass
  have hsound := hindex.indexed.sound
  have hbelow := hindex.indexedBelow hnet
  rw [hdb] at hsound hbelow htraded
  obtain ⟨hlength, hmarked⟩ := List.forall₂_iff_zip.mp (listedSwaps_marked hs hg hlogs hfactory hrec
    hnet rfl hsound hbelow.complete pair account)
  refine List.forall₂_map_right_iff.mpr (List.forall₂_iff_zip.mpr ⟨hlength, fun {x s} hz => ?_⟩)
  have hrow : s ∈ db.swaps.rows :=
    (List.mem_filter.mp (Pages.mem_newestFirst.mp (List.of_mem_zip hz).2)).1
  obtain ⟨k, hk⟩ := Table.mem_rows.mp hrow
  exact swapView_shows hsound hrow (hmarked hz) (htraded k s hk)
    (listing_of_indexed hs hg hlogs hfactory hrec hnet hsound hbelow)

theorem liquidity_shown
    (hpass : Run.Along (Process.step cfg) (Process.Watches cfg c) Process.initial steps) {db : Database}
    (hdb : (Run.run (Process.step cfg) Process.initial steps).db = db) (pair : Address) :
    List.Forall₂ (Api.LiquidityView.Shows c)
      ((entries liquidityRead (worldAt w blocks (nextBlock cfg db)).factory.allPairs
        (c.below (nextBlock cfg db))).filter fun x => x.2.stakes pair).reverse
      ((db.listedLiquidity pair).map Api.liquidityView) := by
  have hnet := network_of_record hs hg hlogs hfactory hrec hserved hdist
  have hindex := (Process.onReplay_initial hnet).run hnet hbatch hpass
  have hsound := hindex.indexed.sound
  have hcomplete := (hindex.indexedBelow hnet).complete
  rw [hdb] at hsound hcomplete
  obtain ⟨hlength, hmarked⟩ := List.forall₂_iff_zip.mp (listedLiquidity_marked hs hg hlogs hfactory
    hrec hnet rfl hsound hcomplete pair)
  refine List.forall₂_map_right_iff.mpr (List.forall₂_iff_zip.mpr ⟨hlength, fun {x e} hz => ?_⟩)
  exact liquidityView_shows hsound
    (List.mem_filter.mp (Pages.mem_newestFirst.mp (List.of_mem_zip hz).2)).1 (hmarked hz)

theorem swapsPage_answered {db₀ db : Database}
    (hpass₀ : Run.Along (Process.step cfg) (Process.Watches cfg c) Process.initial before)
    (hdb₀ : (Run.run (Process.step cfg) Process.initial before).db = db₀)
    (hpass : Run.Along (Process.step cfg) (Process.Watches cfg c) Process.initial steps)
    (hdb : (Run.run (Process.step cfg) Process.initial steps).db = db) (pair account : Option Address)
    (limit offset : Text) :
    Api.Answered env.factory c (nextBlock cfg db) (db.listedSwaps pair account)
      (fun s => Api.swapView (db.swapRow s))
      (Api.SwapView.Shows c (worldAt w blocks (nextBlock cfg db)))
      ((worldAt w blocks (nextBlock cfg db₀)).logs.filter (Event.asked pair account))
      ((worldAt w blocks (nextBlock cfg db)).logs.filter (Event.asked pair account))
      (Api.parsePaging limit offset) (Api.swapsPage (some (db₀, db)) limit offset pair account) := by
  have hrecorded := fun n => swapEntries_recorded (n := n) (q := Event.asked pair account) hs hg hlogs hrec
    fun _ => Event.isSwap_of_asked
  have hcounted := (swaps_shown hs hg hlogs hfactory hrec hserved hdist hbatch hpass₀ hdb₀ pair
    account).length_eq
  have hshown := swaps_shown hs hg hlogs hfactory hrec hserved hdist hbatch hpass hdb pair account
  have htotal : (db₀.listedSwaps pair account).length =
      (db₀.swaps.rows.filter (Database.asked pair account)).length :=
    (Pages.newestFirst_perm _ _).length_eq
  refine ⟨?_, _, hrecorded _, ?_⟩
  · rw [← (hrecorded _).events, List.length_map, ← List.length_reverse, hcounted, List.length_map, htotal]
    simp only [Api.swapsPage, Database.swapsPage, List.map_map]
    rfl
  · rw [← Pages.page_map]
    exact List.forall₂_take _ (List.forall₂_drop _ hshown)

theorem pairLiquidity_answered {db₀ db : Database}
    (hpass₀ : Run.Along (Process.step cfg) (Process.Watches cfg c) Process.initial before)
    (hdb₀ : (Run.run (Process.step cfg) Process.initial before).db = db₀)
    (hpass : Run.Along (Process.step cfg) (Process.Watches cfg c) Process.initial steps)
    (hdb : (Run.run (Process.step cfg) Process.initial steps).db = db) {raw : Text} {pair : Address}
    (hraw : Api.parseAddress raw = some pair) (limit offset : Text) :
    Api.Answered env.factory c (nextBlock cfg db) (db.listedLiquidity pair) Api.liquidityView
      (Api.LiquidityView.Shows c)
      ((worldAt w blocks (nextBlock cfg db₀)).logs.filter (Event.stakes pair))
      ((worldAt w blocks (nextBlock cfg db)).logs.filter (Event.stakes pair))
      (Api.parsePaging limit offset) (Api.pairLiquidity (some (db₀, db)) raw limit offset) := by
  have hrecorded := fun n => liquidityEntries_recorded (n := n) (q := Event.stakes pair) hs hg hlogs hrec
    fun _ => Event.isLiquidity_of_stakes
  have hcounted := (liquidity_shown hs hg hlogs hfactory hrec hserved hdist hbatch hpass₀ hdb₀
    pair).length_eq
  have hshown := liquidity_shown hs hg hlogs hfactory hrec hserved hdist hbatch hpass hdb pair
  have htotal : (db₀.listedLiquidity pair).length =
      (db₀.liquidityEvents.rows.filter fun e => e.pairAddress = pair).length :=
    (Pages.newestFirst_perm _ _).length_eq
  refine ⟨?_, _, hrecorded _, ?_⟩
  · rw [← (hrecorded _).events, List.length_map, ← List.length_reverse, hcounted, List.length_map, htotal,
      Api.pairLiquidity, hraw]
    rfl
  · rw [← Pages.page_map]
    exact List.forall₂_take _ (List.forall₂_drop _ hshown)

/-- Whatever page is asked for is that page of what the contracts have logged, the last event
first, though the indexer goes on between the count and the rows. -/
theorem pages_tell
    (hpass : Run.Along (Process.step cfg) (Process.Watches cfg c) Process.initial (before ++ after))
    (hst₀ : (Run.run (Process.step cfg) Process.initial before).db.indexerState[cfg.chainID]? = some st₀)
    (hst : (Run.run (Process.step cfg) Process.initial (before ++ after)).db.indexerState[cfg.chainID]? =
      some st)
    {address : Text} {a : Address} (haddress : Spells (Api.trimSpace address) a) (limit offset : Text) :
    let db := (Run.run (Process.step cfg) Process.initial (before ++ after)).db
    let store := some ((Run.run (Process.step cfg) Process.initial before).db, db)
    let counted := (worldAt w blocks (st₀.lastProcessedBlock + 1)).logs
    let v := worldAt w blocks (st.lastProcessedBlock + 1)
    let paging := Api.parsePaging limit offset
    Api.Answered env.factory c (st.lastProcessedBlock + 1) (db.listedSwaps (some a) none)
        (fun s => Api.swapView (db.swapRow s)) (Api.SwapView.Shows c v)
        (counted.filter (Event.asked (some a) none)) (v.logs.filter (Event.asked (some a) none)) paging
        (Api.pairSwaps store address limit offset) ∧
      Api.Answered env.factory c (st.lastProcessedBlock + 1) (db.listedSwaps none (some a))
        (fun s => Api.swapView (db.swapRow s)) (Api.SwapView.Shows c v)
        (counted.filter (Event.asked none (some a))) (v.logs.filter (Event.asked none (some a))) paging
        (Api.accountSwaps store address limit offset) ∧
      Api.Answered env.factory c (st.lastProcessedBlock + 1) (db.listedLiquidity a) Api.liquidityView
        (Api.LiquidityView.Shows c) (counted.filter (Event.stakes a)) (v.logs.filter (Event.stakes a))
        paging (Api.pairLiquidity store address limit offset) := by
  have hpass₀ := (Run.along_append.mp hpass).1
  have hparsed := parseAddress_eq_some.mpr haddress
  have hswaps := fun pair account => swapsPage_answered hs hg hlogs hfactory hrec hserved hdist hbatch
    hpass₀ rfl hpass rfl pair account limit offset
  have hliquidity := pairLiquidity_answered hs hg hlogs hfactory hrec hserved hdist hbatch hpass₀ rfl
    hpass rfl hparsed limit offset
  rw [nextBlock_of_some hst₀, nextBlock_of_some hst] at hliquidity
  simp only [nextBlock_of_some hst₀, nextBlock_of_some hst] at hswaps
  intro db store counted v paging
  refine ⟨?_, ?_, hliquidity⟩
  · rw [Api.pairSwaps, hparsed]
    exact hswaps (some a) none
  · rw [Api.accountSwaps, hparsed]
    exact hswaps none (some a)

end Requests

def soldSwap : Event := .swap 10 2 1000 0 0 798 8

theorem sold_paged :
    let db := (Run.run (Process.step dayCfg) Process.initial (working sold)).db
    Api.Answered siteEnv.factory sold 3 (db.listedSwaps (some 10) none)
        (fun s => Api.swapView (db.swapRow s))
        (Api.SwapView.Shows sold (worldAt siteWorld (selling 1000) 3)) [soldSwap] [soldSwap] (50, 0)
        (Api.pairSwaps (some (db, db)) (hexText 40 10) [] []) ∧
      Api.Answered siteEnv.factory sold 3 (db.listedLiquidity 10) Api.liquidityView
        (Api.LiquidityView.Shows sold) [.mint 10 2 4000 4000] [.mint 10 2 4000 4000] (50, 0)
        (Api.pairLiquidity (some (db, db)) (hexText 40 10) [] []) := by
  obtain ⟨-, hcursor, -⟩ := working_result
  obtain ⟨-, -, hlogs⟩ := selling_logs _ List.mem_cons_self
  have hpass := working_watches
  rw [← List.append_nil (working sold)] at hpass
  have hnow := hcursor
  rw [← List.append_nil (working sold)] at hnow
  have htold := pages_tell siteEnv_grounds siteWorld_genesis rfl rfl sold_records sold_served
    sold_distinguishes (by decide) hpass hcursor hnow (parseAddress_eq_some.mp (parseAddress_hexText 10))
    [] []
  rw [List.append_nil] at htold
  obtain ⟨hswaps, -, hliquidity⟩ := htold
  have hsold : (worldAt siteWorld (selling 1000) 3).logs.filter (Event.asked (some 10) none) =
      [soldSwap] := by
    rw [hlogs]
    decide
  have hstaked : (worldAt siteWorld (selling 1000) 3).logs.filter (Event.stakes 10) =
      [.mint 10 2 4000 4000] := by
    rw [hlogs]
    decide
  rw [hsold] at hswaps
  rw [hstaked] at hliquidity
  exact ⟨hswaps, hliquidity⟩

section Walk

/-- What a reader finds who comes after each of some groups of steps. -/
def found (cfg : Config) (steps : ℕ → List Step) (k : ℕ) : Database :=
  (Run.run (Process.step cfg) Process.initial ((List.range (k + 1)).flatMap steps)).db

variable (hs : Grounds env) (hg : Exchange.Genesis env w) (hlogs : w.logs = [])
variable (hfactory : cfg.factoryAddress = env.factory) (hrec : Records w blocks c)
variable (hserved : Served cfg c)
variable (hdist : HashChain.Distinguishes (fun b : MinedBlock => b.header.hash) c c)
variable (hbatch : 0 < cfg.blockBatchSize)

include hs hg hlogs hfactory hrec hserved hdist hbatch

theorem listedSwaps_grow {steps : ℕ → List Step}
    (hpass : ∀ k, Run.Along (Process.step cfg) (Process.Watches cfg c) Process.initial
      ((List.range k).flatMap steps))
    (pair account : Option Address) (k : ℕ) :
    ((found cfg steps k).listedSwaps pair account).map Swap.key <:+
      ((found cfg steps (k + 1)).listedSwaps pair account).map Swap.key := by
  have hnet := network_of_record hs hg hlogs hfactory hrec hserved hdist
  have hindex := fun k => (Process.onReplay_initial hnet).run hnet hbatch (hpass (k + 1))
  have hnext : nextBlock cfg (found cfg steps k) ≤ nextBlock cfg (found cfg steps (k + 1)) := by
    have hsteps : (List.range (k + 2)).flatMap steps =
        (List.range (k + 1)).flatMap steps ++ steps (k + 1) := by
      rw [List.range_succ, List.flatMap_append, List.flatMap_singleton]
    have hlater := hpass (k + 2)
    rw [hsteps, Run.along_append] at hlater
    rw [found, found, hsteps, Run.run_append]
    exact (hindex k).advances hnet hbatch hlater.2
  have hkeys : ∀ k, ((found cfg steps k).listedSwaps pair account).map Swap.key =
      (((entries swapRead (worldAt w blocks (nextBlock cfg (found cfg steps k))).factory.allPairs
        (c.below (nextBlock cfg (found cfg steps k)))).filter fun x => x.2.asked pair account).map
          fun x => (x.1.txHash, x.1.index)).reverse := by
    intro k
    have hmarked := forall₂_iff_map_eq.mp (listedSwaps_marked hs hg hlogs hfactory hrec hnet rfl
      (hindex k).indexed.sound ((hindex k).indexedBelow hnet).complete pair account)
    have hkeys := congrArg (List.map fun x => x.2.1) hmarked
    rw [List.map_map, List.map_map, List.map_reverse] at hkeys
    exact hkeys.symm
  have htopic : ∀ l, ((swapRead l).map fun e => (l, e)).isSome → Chain.PairTopic l :=
    fun _ h => swapRead_topic (by rwa [Option.isSome_map] at h)
  rw [hkeys k, hkeys (k + 1), List.reverse_suffix]
  exact ((told_grows hs hg hlogs hfactory hrec hnet rfl htopic hnext).filter _).map _

/-- A reader who turns page after page, while the indexer goes on, until one is not full,
has seen every row that was there at its first request. -/
theorem walk_misses_none {steps : ℕ → List Step}
    (hpass : ∀ k, Run.Along (Process.step cfg) (Process.Watches cfg c) Process.initial
      ((List.range k).flatMap steps))
    {limit : ℕ} (hlimit : 0 < limit) (hmax : limit ≤ Api.pageLimitMax) (hoffset : n * limit < 2 ^ 63)
    {counted : ℕ → Database} {pair account : Option Address} {pages : ℕ → Api.ListEnvelope Api.SwapView}
    (hpages : ∀ k ≤ n, Api.swapsPage (some (counted k, found cfg steps k)) (Nat.toDigits 10 limit)
      (Nat.toDigits 10 (k * limit)) pair account = .ok (pages k))
    (hlast : (pages n).data.length < limit) {s : Swap} (hrow : s ∈ (found cfg steps 0).swaps.rows)
    (hasked : Database.asked pair account s = true) :
    ∃ k ≤ n, ∃ v ∈ (pages k).data, v.txHash = s.txHash ∧ v.logIndex = s.logIndex := by
  have hnet := network_of_record hs hg hlogs hfactory hrec hserved hdist
  have hgrow := listedSwaps_grow hs hg hlogs hfactory hrec hserved hdist hbatch hpass pair account
  have hdata : ∀ k ≤ n, (pages k).data = (Pages.page ((found cfg steps k).listedSwaps pair account)
      limit (k * limit)).map fun s => Api.swapView ((found cfg steps k).swapRow s) := by
    intro k hk
    have hsmall : k * limit < 2 ^ 63 := Nat.lt_of_le_of_lt (Nat.mul_le_mul_right limit hk) hoffset
    exact Api.swapsPage_data hlimit hmax hsmall (hpages k hk)
  have hshort : (Pages.page ((found cfg steps n).listedSwaps pair account) limit
      (n * limit)).length < limit := by
    rwa [hdata n (le_refl n), List.length_map] at hlast
  have hlisted : s ∈ (found cfg steps 0).listedSwaps pair account :=
    Pages.mem_newestFirst.mpr (List.mem_filter.mpr ⟨hrow, hasked⟩)
  obtain ⟨k, hk, r, hr, hkey⟩ := Pages.walk_covers_rows hgrow hlisted hshort
  obtain ⟨htx, hindex⟩ := Prod.mk.inj hkey
  refine ⟨k, hk, Api.swapView ((found cfg steps k).swapRow r), ?_, htx, hindex⟩
  rw [hdata k hk]
  exact List.mem_map_of_mem hr

end Walk

def once (k : ℕ) : List Step := if k = 0 then working sold else []

theorem sold_walked : ∃ pages : ℕ → Api.ListEnvelope Api.SwapView,
    ∃ s ∈ (found dayCfg once 0).swaps.rows, ∃ k ≤ 1, ∃ v ∈ (pages k).data,
      v.txHash = s.txHash ∧ v.logIndex = s.logIndex := by
  have honce : ∀ k, (List.range (k + 1)).flatMap once = working sold := by
    intro k
    induction k with
    | zero => rfl
    | succ k ih =>
      rw [List.range_succ, List.flatMap_append, ih]
      rfl
  have hpass : ∀ k, Run.Along (Process.step dayCfg) (Process.Watches dayCfg sold) Process.initial
      ((List.range k).flatMap once) := by
    intro k
    rcases k with _ | k
    · exact True.intro
    · rw [honce]
      exact working_watches
  obtain ⟨-, -, hrows⟩ := working_result
  have hfound : ∀ k, found dayCfg once k =
      (Run.run (Process.step dayCfg) Process.initial (working sold)).db := by
    intro k
    rw [found, honce]
  have hone : ∀ k, (found dayCfg once k).swaps.rows.length = 1 := fun k => by rw [hfound, hrows]
  obtain ⟨s, hs⟩ := List.length_eq_one_iff.mp (hone 0)
  have hanswers : ∀ k, ∃ page, Api.swapsPage (some (found dayCfg once k, found dayCfg once k))
      (Nat.toDigits 10 1) (Nat.toDigits 10 (k * 1)) none none = .ok page := fun k => ⟨_, rfl⟩
  choose pages hpages using hanswers
  have hlast : (pages 1).data.length < 1 := by
    rw [Api.swapsPage_data Nat.one_pos (by decide) (by decide) (hpages 1), List.length_map, Pages.page,
      List.length_take, List.length_drop, Database.listedSwaps,
      (Pages.newestFirst_perm _ _).length_eq]
    have hle := List.length_filter_le (Database.asked none none) (found dayCfg once 1).swaps.rows
    rw [hone 1] at hle
    omega
  refine ⟨pages, s, by rw [hs]; exact List.mem_cons_self, ?_⟩
  exact walk_misses_none siteEnv_grounds siteWorld_genesis rfl rfl sold_records sold_served
    sold_distinguishes (by decide) hpass Nat.one_pos (by decide) (by decide) (fun k _ => hpages k) hlast
    (by rw [hs]; exact List.mem_cons_self) rfl

section Recent

theorem pair_stays (hs : Grounds env) (hg : Exchange.Genesis env w) (hmn : m ≤ n) {a : Address}
    {p : ArkSwapPair} (hp : (worldAt w blocks m).pair a = some p) :
    ∃ q, (worldAt w blocks n).pair a = some q ∧ q.token0 = p.token0 ∧ q.token1 = p.token1 := by
  have hlater : worldAt w blocks n =
      Exchange.run (worldAt w blocks m) ((blocks.take n).drop m).flatten := by
    have hsplit := List.take_append_drop m (blocks.take n)
    rw [List.take_take, Nat.min_eq_left hmn] at hsplit
    rw [worldAt, ← hsplit, List.flatten_append, Exchange.run, Run.run_append]
    simp only [hsplit]
    rfl
  rw [hlater]
  obtain ⟨q, hq, hcarried⟩ := (run_keeps hs (worldAt_ordered hs hg m) _).carried a p hp
  exact ⟨q, hq, hcarried.token0, hcarried.token1⟩

theorem shows_later (hs : Grounds env) (hg : Exchange.Genesis env w) (hmn : m ≤ n)
    {x : Log × Event} {view : Api.SwapView} (h : Api.SwapView.Shows c (worldAt w blocks m) x view) :
    Api.SwapView.Shows c (worldAt w blocks n) x view := by
  obtain ⟨p, in₀, in₁, out₀, out₁, hp, hevent, htexts⟩ := h.event
  obtain ⟨q, hq, h₀, h₁⟩ := pair_stays hs hg hmn hp
  exact ⟨h.place, h.time, q, in₀, in₁, out₀, out₁, hq, hevent, h₀ ▸ h₁ ▸ htexts⟩

/-- Where time does not run backwards, the order of the feed is that of the chain. -/
theorem recency_lt (htime : ∀ m n b b', c.headerAt m = some b → c.headerAt n = some b' → m ≤ n →
      b.timestamp ≤ b'.timestamp)
    {v : World} {x x' : Log × Event} {view view' : Api.SwapView} (h : Api.SwapView.Shows c v x view)
    (h' : Api.SwapView.Shows c v x' view') (hlt : x.1.position < x'.1.position) :
    view.recency < view'.recency := by
  obtain ⟨b, hb, hseen⟩ := h.time
  obtain ⟨b', hb', hseen'⟩ := h'.time
  obtain ⟨-, hindex, hblock⟩ : _ ∧ view.logIndex = x.1.index ∧ view.blockNumber = x.1.blockNumber := by
    simpa only [Prod.mk.injEq] using h.place
  obtain ⟨-, hindex', hblock'⟩ :
      _ ∧ view'.logIndex = x'.1.index ∧ view'.blockNumber = x'.1.blockNumber := by
    simpa only [Prod.mk.injEq] using h'.place
  have hle : view.timestamp ≤ view'.timestamp := by
    rw [hseen, hseen']
    exact htime _ _ b b' hb hb' (Prod.Lex.monotone_fst _ _ hlt.le)
  refine Prod.Lex.lt_iff.mpr ?_
  rcases hle.lt_or_eq with hearlier | heq
  · exact .inl hearlier
  · refine .inr ⟨heq, ?_⟩
    change toLex (view.blockNumber, view.logIndex) < toLex (view'.blockNumber, view'.logIndex)
    rw [hblock, hindex, hblock', hindex']
    exact hlt

def poolPages (stores : Address → Api.Store) (pools : List Address) (limit : ℕ) :
    List (Option (Api.ListEnvelope Api.SwapView)) :=
  pools.map fun a =>
    AnalyticsClient.pairSwaps (stores a) (hexText 40 a.val) (some (limit : ℚ)) none

abbrev indexOf (cfg : Config) (steps : List Step) : Database :=
  (Run.run (Process.step cfg) Process.initial steps).db

/-- Each pool's rows as its request meets them, after some steps of the indexer, or none. -/
def storesOf (cfg : Config) (counted : Address → Database) (met : Address → Option (List Step))
    (a : Address) : Api.Store :=
  (met a).map fun steps => (counted a, indexOf cfg steps)

/-- A swap of the pool, from a block that the index knows after these steps. -/
def knows (cfg : Config) (a : Address) (steps : List Step) (x : Log × Event) : Bool :=
  decide (x.1.blockNumber < nextBlock cfg (indexOf cfg steps)) && x.2.asked (some a) none

theorem not_knows_of_ne {a b : Address} {steps steps' : List Step} {x : Log × Event} (hne : a ≠ b)
    (h : knows cfg a steps x = true) : knows cfg b steps' x = false := by
  obtain ⟨-, hasked⟩ := Bool.and_eq_true_iff.mp h
  rw [knows]
  cases hevent : x.2 with
  | swap pair sender in₀ in₁ out₀ out₁ dst =>
    rw [hevent] at hasked
    simp only [Event.asked, Option.all_some, Option.all_none, Bool.and_true, decide_eq_true_eq] at hasked
    simp [Event.asked, hasked, hne]
  | pairCreated => simp [Event.asked]
  | mint => simp [Event.asked]
  | burn => simp [Event.asked]
  | sync => simp [Event.asked]

variable {counted : Address → Database} {met : Address → Option (List Step)} {pools : List Address}
  {limit : ℕ}
variable (hs : Grounds env) (hg : Exchange.Genesis env w) (hlogs : w.logs = [])
variable (hfactory : cfg.factoryAddress = env.factory) (hrec : Records w blocks c)
variable (hserved : Served cfg c)
variable (hdist : HashChain.Distinguishes (fun b : MinedBlock => b.header.hash) c c)
variable (hbatch : 0 < cfg.blockBatchSize)

include hs hg hlogs hfactory hrec hserved hdist hbatch

/-- What is listed of a pool is what was known of it, in what the chain has up to any later height. -/
theorem pool_shown (hpass : Run.Along (Process.step cfg) (Process.Watches cfg c) Process.initial steps)
    (hn : nextBlock cfg (indexOf cfg steps) ≤ n) (a : Address) :
    List.Forall₂ (Api.SwapView.Shows c (worldAt w blocks n))
      (Pages.newestFirst (fun x => x.1.position)
        ((entries swapRead (worldAt w blocks n).factory.allPairs (c.below n)).filter (knows cfg a steps)))
      (((indexOf cfg steps).listedSwaps (some a) none).map fun s =>
        Api.swapView ((indexOf cfg steps).swapRow s)) := by
  have hnet := network_of_record hs hg hlogs hfactory hrec hserved hdist
  have hwf := hnet.wellFormed c rfl
  have hshown := swaps_shown hs hg hlogs hfactory hrec hserved hdist hbatch hpass rfl (some a) none
  rw [← entries_below hs hg hlogs hfactory hrec hnet rfl (fun _ => swapRead_topic) hn,
    List.filter_filter] at hshown
  have hsorted : ((entries swapRead (worldAt w blocks n).factory.allPairs (c.below n)).filter
      (knows cfg a steps)).Pairwise fun x y => x.1.position < y.1.position :=
    (entries_sorted (below_sorted hwf.blockNumber hwf.order)).filter _
  rw [Pages.newestFirst_eq (List.reverse_perm _).symm (List.pairwise_reverse.mpr hsorted)]
  refine List.Forall₂.imp (fun x view h => shows_later hs hg hn h) ?_
  have hknows : (fun x : Log × Event => x.2.asked (some a) none &&
      decide (x.1.blockNumber < nextBlock cfg (indexOf cfg steps))) = knows cfg a steps :=
    funext fun x => Bool.and_comm _ _
  rw [← hknows]
  exact hshown

theorem poolPages_shown (counted : Address → Database) (pools : List Address)
    (hpass : ∀ a steps, met a = some steps →
      Run.Along (Process.step cfg) (Process.Watches cfg c) Process.initial steps)
    (hn : ∀ a steps, met a = some steps → nextBlock cfg (indexOf cfg steps) ≤ n)
    (hpos : 0 < limit) (hmax : limit ≤ Api.pageLimitMax) :
    List.Forall₂ (Api.SwapView.Shows c (worldAt w blocks n))
      ((pools.filterMap fun a => (met a).map (knows cfg a)).flatMap fun p =>
        (Pages.newestFirst (fun x => x.1.position) ((entries swapRead
          (worldAt w blocks n).factory.allPairs (c.below n)).filter p)).take limit)
      ((poolPages (storesOf cfg counted met) pools limit).reduceOption.flatMap
        Api.ListEnvelope.data) := by
  induction pools with
  | nil => exact .nil
  | cons a pools ih =>
    rw [poolPages, List.map_cons, ← poolPages, storesOf]
    rcases hmet : met a with _ | steps
    · have hnone : AnalyticsClient.pairSwaps none (hexText 40 a.val) (some (limit : ℚ)) none = none := by
        rw [AnalyticsClient.pairSwaps, Api.pairSwaps, parseAddress_hexText]
        rfl
      rw [Option.map_none, hnone, List.reduceOption_cons_of_none, List.filterMap_cons_none (by rw [hmet]; rfl)]
      exact ih
    · rw [Option.map_some, client_pairSwaps (parseAddress_hexText a) (by simp),
        clampLimit_natCast hpos hmax, List.reduceOption_cons_of_some, List.flatMap_cons,
        List.filterMap_cons_some (by rw [hmet]; rfl), List.flatMap_cons]
      refine List.rel_append ?_ ih
      have hshown := List.forall₂_take limit (pool_shown hs hg hlogs hfactory hrec hserved hdist hbatch
        (hpass a steps hmet) (hn a steps hmet) a)
      rw [← List.map_take] at hshown
      exact hshown

/-- The feed of recent trades shows the newest swaps of all pools that answered, as far as the
index knew each of them when its request came, and no others. -/
theorem feed_recent
    (htime : ∀ m n b b', c.headerAt m = some b → c.headerAt n = some b' → m ≤ n →
      b.timestamp ≤ b'.timestamp)
    (hpass : ∀ a steps, met a = some steps →
      Run.Along (Process.step cfg) (Process.Watches cfg c) Process.initial steps)
    (hn : ∀ a steps, met a = some steps → nextBlock cfg (indexOf cfg steps) ≤ n)
    (hpools : pools.Nodup) (hpos : 0 < limit) (hmax : limit ≤ Api.pageLimitMax) :
    ∃ entries, Recorded env.factory c n ((worldAt w blocks n).logs.filter Event.isSwap) entries ∧
      List.Forall₂ (Api.SwapView.Shows c (worldAt w blocks n))
        ((entries.filter fun x => pools.any fun a => (met a).any fun steps =>
          knows cfg a steps x).reverse.take limit)
        (recentTrades (poolPages (storesOf cfg counted met) pools limit) limit) := by
  have hnet := network_of_record hs hg hlogs hfactory hrec hserved hdist
  have hwf := hnet.wellFormed c rfl
  set logged := entries swapRead (worldAt w blocks n).factory.allPairs (c.below n) with hlogged
  have hrecorded : Recorded env.factory c n ((worldAt w blocks n).logs.filter Event.isSwap) logged := by
    have hswaps : logged.filter (fun x => x.2.isSwap) = logged := by
      refine List.filter_eq_self.mpr fun x hx => ?_
      obtain ⟨l, -, hsome⟩ := List.mem_filterMap.mp hx
      obtain ⟨-, hsome⟩ := Option.ite_none_right_eq_some.mp hsome
      obtain ⟨e, he, rfl⟩ := Option.map_eq_some_iff.mp hsome
      exact swapRead_isSwap he
    have hall := swapEntries_recorded (n := n) (q := Event.isSwap) hs hg hlogs hrec fun _ h => h
    rw [← hlogged, hswaps] at hall
    exact hall
  refine ⟨logged, hrecorded, ?_⟩
  set kinds := pools.filterMap fun a => (met a).map (knows cfg a) with hkinds
  have hsorted : logged.Pairwise fun x y => x.1.position < y.1.position :=
    entries_sorted (below_sorted hwf.blockNumber hwf.order)
  have hplaces : (logged.map fun x => x.1.position).Nodup :=
    List.pairwise_map.mpr (hsorted.imp ne_of_lt)
  have happart : kinds.Pairwise fun p q => ∀ x ∈ logged, p x = true → q x = false := by
    refine List.Pairwise.filterMap _ (fun a b hne p hp q hq x _ hpx => ?_) hpools
    obtain ⟨steps, -, rfl⟩ := Option.map_eq_some_iff.mp hp
    obtain ⟨steps', -, rfl⟩ := Option.map_eq_some_iff.mp hq
    exact not_knows_of_ne hne hpx
  have hshown := poolPages_shown hs hg hlogs hfactory hrec hserved hdist hbatch counted pools hpass hn
    hpos hmax
  have hfeed := Pages.newestFirst_forall₂ (fun x => x.1.position) Api.SwapView.recency hshown
    (Pages.heads_apart hplaces happart).2 fun x view x' view' h h' hlt => recency_lt htime h h' hlt
  have hnewest := List.forall₂_take limit hfeed
  rw [← hlogged, ← hkinds, Pages.newest_of_heads hplaces happart] at hnewest
  have hany : (fun x => kinds.any fun p => p x) = fun x => pools.any fun a => (met a).any fun steps =>
      knows cfg a steps x := by
    funext x
    rw [hkinds, List.any_filterMap]
    refine congrArg _ (funext fun a => ?_)
    rcases met a with _ | steps <;> rfl
  rw [hany, Pages.newestFirst_eq (List.reverse_perm _).symm
    (List.pairwise_reverse.mpr (hsorted.filter _))] at hnewest
  exact hnewest

end Recent

/-- Pool 10 is met after the day's trading and pool 11 before it; pool 12 does not answer. -/
def metAt (a : Address) : Option (List Step) :=
  if a = 10 then some (working sold) else if a = 11 then some [] else none

theorem sold_recent : ∃ x : Log × Event, x.2 = soldSwap ∧
    List.Forall₂ (Api.SwapView.Shows sold (worldAt siteWorld (selling 1000) 3)) [x]
      (recentTrades (poolPages (storesOf dayCfg (fun _ => Database.empty) metAt) [10, 11, 12] 8) 8) := by
  obtain ⟨-, hcursor, -⟩ := working_result
  obtain ⟨-, -, hlogs⟩ := selling_logs _ List.mem_cons_self
  have hclock : ∀ n b, sold.headerAt n = some b → b.timestamp = 1000 + n := by
    intro n b hb
    rcases n with _ | _ | _ | n
    · cases hb
      rfl
    · cases hb
      rfl
    · cases hb
      rfl
    · cases hb
  have htime : ∀ m n b b', sold.headerAt m = some b → sold.headerAt n = some b' → m ≤ n →
      b.timestamp ≤ b'.timestamp := by
    intro m n b b' hb hb' hmn
    rw [hclock m b hb, hclock n b' hb']
    omega
  have hmet : ∀ a steps, metAt a = some steps → a = 10 ∧ steps = working sold ∨ a = 11 ∧ steps = [] := by
    intro a steps h
    rw [metAt] at h
    split_ifs at h with h₀ h₁
    · exact .inl ⟨h₀, (Option.some.inj h).symm⟩
    · exact .inr ⟨h₁, (Option.some.inj h).symm⟩
  have hpass : ∀ a steps, metAt a = some steps →
      Run.Along (Process.step dayCfg) (Process.Watches dayCfg sold) Process.initial steps := by
    intro a steps h
    obtain ⟨-, rfl⟩ | ⟨-, rfl⟩ := hmet a steps h
    · exact working_watches
    · exact True.intro
  have hknown : ∀ a steps, metAt a = some steps → nextBlock dayCfg (indexOf dayCfg steps) ≤ 3 := by
    intro a steps h
    obtain ⟨-, rfl⟩ | ⟨-, rfl⟩ := hmet a steps h
    · rw [indexOf, nextBlock_of_some hcursor]
    · decide
  obtain ⟨entries, hrecorded, hfeed⟩ : ∃ entries, Recorded siteEnv.factory sold 3
      ((worldAt siteWorld (selling 1000) 3).logs.filter Event.isSwap) entries ∧
      List.Forall₂ (Api.SwapView.Shows sold (worldAt siteWorld (selling 1000) 3))
        ((entries.filter fun x => [10, 11, 12].any fun a => (metAt a).any fun steps =>
          knows dayCfg a steps x).reverse.take 8)
        (recentTrades (poolPages (storesOf dayCfg (fun _ => Database.empty) metAt) [10, 11, 12] 8) 8) :=
    feed_recent siteEnv_grounds siteWorld_genesis rfl rfl sold_records sold_served sold_distinguishes
      (by decide) htime hpass hknown (by decide) (by decide) (by decide)
  have hevents : entries.map Prod.snd = [soldSwap] := by
    rw [hrecorded.events, hlogs]
    decide
  obtain ⟨x, rfl, hx⟩ := List.map_eq_singleton_iff.mp hevents
  refine ⟨x, hx, ?_⟩
  have hbelow : x.1.blockNumber < 3 :=
    ((mem_below (day_network.wellFormed sold List.mem_cons_self).blockNumber).mp
      (hrecorded.logs.subset List.mem_cons_self)).2
  have hknows : knows dayCfg 10 (working sold) x = true := by
    rw [knows, indexOf, nextBlock_of_some hcursor, hx]
    exact Bool.and_eq_true_iff.mpr ⟨decide_eq_true hbelow, by decide⟩
  have hany : ([10, 11, 12].any fun a => (metAt a).any fun steps => knows dayCfg a steps x) = true := by
    refine List.any_eq_true.mpr ⟨10, by decide, ?_⟩
    rw [show metAt 10 = some (working sold) from rfl, Option.any_some]
    exact hknows
  rw [List.filter_singleton, hany] at hfeed
  exact hfeed

end Process

end GoInternal

end ArkSwap
