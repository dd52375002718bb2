import ArkSwap.LibrarySpec
import ArkSwap.PairSwap
import ArkSwap.Router

/-! The hops of a path, each run on what the one before sent to its pool. -/

namespace ArkSwap

open Checked ArkSwapPair ArkSwapLibrary ArkSwapRouter02

/-- A pool ready to trade `x` of `a` for `y` of `b`, once the `x` have been
added to the `balance` of `a` it holds. -/
structure Hop (env : Env) (w : World) (p : ArkSwapPair) (a b : Address) (x y balance : Nat) :
    Prop where
  ne : a ≠ b
  nonzero : min a b ≠ 0
  pair : w.pair (pool env a b) = some p
  unlocked : p.unlocked = 1
  token0 : p.token0 = min a b
  token1 : p.token1 = max a b
  reserve_pos : 0 < reserveOf p a
  backed_in : reserveOf p a ≤ balance
  fits_in : balance + x ≤ Uint.max112
  backed_out : reserveOf p b ≤ w.balanceOf b (pool env a b)
  fits_out : w.balanceOf b (pool env a b) ≤ Uint.max112
  pos_in : 0 < x
  pos_out : 0 < y
  out_lt : y < reserveOf p b
  pays : ConstantProduct.Pays 1000 3 x (reserveOf p a) (reserveOf p b) y

/-- A token of the path: a ledger that adds up and whose transfers are exact. -/
structure Plain (env : Env) (w : World) (t : Address) : Prop where
  standard : Standard env t
  conserved : (w.token t).Conserved

theorem amountIn_surplus {b r o : Nat} (ho : o ≤ r) (hr : r ≤ b) :
    amountIn (b - o) r o = b - r := by
  unfold amountIn
  split <;> omega

namespace Hop

variable {env : Env} {w : World} {p : ArkSwapPair} {a b dst : Address} {x y balance : Nat}

theorem accepts (h : Hop env w p a b x y balance) :
    ConstantProduct.Accepts 1000 3 (reserveOf p a * reserveOf p b) (balance + x)
      (amountIn (balance + x) (reserveOf p a) 0) (w.balanceOf b (pool env a b) - y)
      (amountIn (w.balanceOf b (pool env a b) - y) (reserveOf p b) y) := by
  have hacc := h.pays.accepts (x := balance - reserveOf p a)
    (y := w.balanceOf b (pool env a b) - reserveOf p b) (by norm_num) h.out_lt.le
  have hin := amountIn_surplus (Nat.zero_le (reserveOf p a))
    (h.backed_in.trans (Nat.le_add_right balance x))
  rw [Nat.sub_zero] at hin
  have h₀ : balance - reserveOf p a + x = balance + x - reserveOf p a := by
    have := h.backed_in
    omega
  rw [Nat.add_sub_cancel' h.backed_in, Nat.add_sub_cancel' h.backed_out, h₀] at hacc
  rw [hin, amountIn_surplus h.out_lt.le h.backed_out]
  exact hacc

theorem in_pos (h : Hop env w p a b x y balance) :
    amountIn (balance + x) (reserveOf p a) 0 > 0 := by
  have hin := amountIn_surplus (Nat.zero_le (reserveOf p a))
    (h.backed_in.trans (Nat.le_add_right balance x))
  rw [Nat.sub_zero] at hin
  have := h.backed_in
  have := h.pos_in
  omega

theorem swap (sender : Address) (h : Hop env w p a b x y balance) (ha : Plain env w a) (hb : Plain env w b)
    (hbal : w.balanceOf a (pool env a b) = balance + x) (hda : dst ≠ a) (hdb : dst ≠ b)
    (hdp : pool env a b ≠ dst) :
    ∃ q w', ArkSwapPair.swap env w (pool env a b) sender (if a = min a b then 0 else y)
        (if a = min a b then y else 0) dst none = .ok ((), w') ∧
      w'.pair = Function.update w.pair (pool env a b) (some q) ∧
      w'.token = (w.moved b (pool env a b) dst y).token := by
  have hacc := h.accepts
  have hpos := h.in_pos
  have hfit := h.fits_in
  have hsub : w.balanceOf b (pool env a b) - y ≤ Uint.max112 := (Nat.sub_le _ _).trans h.fits_out
  have hres := h.backed_in.trans (Nat.le_add_right balance x)
  have hout : (w.moved b (pool env a b) dst y).balanceOf b (pool env a b) =
      w.balanceOf b (pool env a b) - y := by
    rw [World.balanceOf, World.moved_token]
    exact Ledger.move_src y hdp
  have hkeep : (w.moved b (pool env a b) dst y).balanceOf a (pool env a b) = balance + x := by
    rw [World.balanceOf_moved_of_ne _ _ _ _ h.ne, hbal]
  have hback := h.backed_out
  have hlt := h.out_lt
  have hr := h.reserve_pos
  rcases lt_or_gt_of_ne h.ne with hab | hab
  · obtain rfl : p.token0 = a := by rw [h.token0, min_eq_left hab.le]
    obtain rfl : p.token1 = b := by rw [h.token1, max_eq_right hab.le]
    have r₀ : reserveOf p p.token0 = p.reserve0 := if_pos rfl
    have r₁ : reserveOf p p.token1 = p.reserve1 := if_neg h.ne.symm
    rw [r₀] at hacc hpos hres hr
    rw [r₁] at hacc hback hlt
    have hpaid : paidOut w (pool env p.token0 p.token1) dst p 0 y =
        w.moved p.token1 (pool env p.token0 p.token1) dst y := by
      rw [paidOut, World.moved_zero]
    rw [if_pos (min_eq_left hab.le).symm, if_pos (min_eq_left hab.le).symm, ← hpaid]
    rw [← hpaid] at hout hkeep
    exact swap_defined _ h.pair h.unlocked ha.standard hb.standard h.ne ha.conserved hb.conserved
      (hres.trans hfit) (hback.trans h.fits_out) (.inr h.pos_out)
      hr hlt hda hdb (hbal ▸ hres) hback hkeep hout
      (.inl hpos) hacc hfit hsub
  · obtain rfl : p.token1 = a := by rw [h.token1, max_eq_left hab.le]
    obtain rfl : p.token0 = b := by rw [h.token0, min_eq_right hab.le]
    have r₀ : reserveOf p p.token0 = p.reserve0 := if_pos rfl
    have r₁ : reserveOf p p.token1 = p.reserve1 := if_neg h.ne
    rw [r₁] at hacc hpos hres hr
    rw [r₀] at hacc hback hlt
    have hm : p.token1 ≠ min p.token1 p.token0 := by rw [min_eq_right hab.le]; exact h.ne
    have hpaid : paidOut w (pool env p.token1 p.token0) dst p y 0 =
        w.moved p.token0 (pool env p.token1 p.token0) dst y := by
      rw [paidOut, World.moved_zero]
    rw [if_neg hm, if_neg hm, ← hpaid]
    rw [← hpaid] at hout hkeep
    rw [Nat.mul_comm] at hacc
    exact swap_defined _ h.pair h.unlocked hb.standard ha.standard h.ne.symm hb.conserved
      ha.conserved (hback.trans h.fits_out) (hres.trans hfit) (.inl h.pos_out) hlt
      hr hdb hda hback (hbal ▸ hres) hout hkeep (.inr hpos) hacc.swapped hsub hfit

end Hop

theorem balanceOf_moved {w : World} {t u src dst c : Address} {v : Nat} (hc : c ≠ src) :
    (w.moved u src dst v).balanceOf t c = w.balanceOf t c + if t = u ∧ c = dst then v else 0 := by
  by_cases ht : t = u
  · subst ht
    rw [World.balanceOf, World.moved_token]
    by_cases hd : c = dst
    · subst hd
      rw [if_pos ⟨rfl, rfl⟩]
      exact Ledger.move_dst v hc
    · rw [if_neg (fun h => hd h.2)]
      exact Ledger.move_of_ne v hc hd
  · rw [if_neg (fun h => ht h.1), World.balanceOf_moved_of_ne _ _ _ _ ht, Nat.add_zero]

theorem moved_balance {w : World} {u src : Address} {v : Nat} (t dst c : Address)
    (hv : v ≤ w.balanceOf u src) :
    (w.moved u src dst v).balanceOf t c + (if t = u ∧ c = src then v else 0) =
      w.balanceOf t c + if t = u ∧ c = dst then v else 0 := by
  by_cases hc : t = u ∧ c = src
  · obtain ⟨rfl, rfl⟩ := hc
    rw [if_pos ⟨rfl, rfl⟩, World.balanceOf, World.moved_token]
    have hv' : v ≤ (w.token t).balanceOf c := hv
    by_cases hd : c = dst
    · subst hd
      rw [if_pos ⟨rfl, rfl⟩, World.balanceOf]
      exact congrArg (· + v) (congrFun (Ledger.move_self hv') c)
    · rw [if_neg (fun h => hd h.2), World.balanceOf]
      exact (congrArg (· + v) (Ledger.move_src v hd)).trans (Nat.sub_add_cancel hv')
  · rw [if_neg hc, Nat.add_zero]
    by_cases hs : c = src
    · have ht : t ≠ u := fun h => hc ⟨h, hs⟩
      rw [World.balanceOf_moved_of_ne _ _ _ _ ht, if_neg (fun h => ht h.1), Nat.add_zero]
    · exact balanceOf_moved hs

/-- The pools a path trades through. -/
def poolsOf (env : Env) : List Address → List Address
  | a :: b :: path => pool env a b :: poolsOf env (b :: path)
  | _ => []

/-- Every pool of the path is ready for the input it will be sent. -/
def Waiting (env : Env) (w : World) : List Address → List Nat → Prop
  | a :: b :: path, x :: y :: amounts =>
      (∃ p, Hop env w p a b x y (w.balanceOf a (pool env a b))) ∧
        Waiting env w (b :: path) (y :: amounts)
  | [_], [_] => True
  | _, _ => False

variable {env : Env} {w w' : World} {p : ArkSwapPair} {a b dst : Address} {x y balance : Nat}

theorem Waiting.first {path : List Address} {amounts : List Nat}
    (h : Waiting env w (a :: b :: path) amounts) : a ≠ b ∧ min a b ≠ 0 := by
  match amounts, h with
  | _ :: _ :: _, ⟨⟨_, hp⟩, _⟩ => exact ⟨hp.ne, hp.nonzero⟩

theorem Hop.congr (h : Hop env w p a b x y balance)
    (hp : w'.pair (pool env a b) = w.pair (pool env a b))
    (hb : w'.balanceOf b (pool env a b) = w.balanceOf b (pool env a b)) :
    Hop env w' p a b x y balance :=
  { h with
    pair := hp.trans h.pair
    backed_out := hb ▸ h.backed_out
    fits_out := hb ▸ h.fits_out }

theorem Waiting.congr {path : List Address} {amounts : List Nat}
    (hagree : ∀ q ∈ poolsOf env path,
      w'.pair q = w.pair q ∧ ∀ t, w'.balanceOf t q = w.balanceOf t q)
    (h : Waiting env w path amounts) : Waiting env w' path amounts := by
  induction path generalizing amounts with
  | nil => exact h
  | cons a path ih =>
    cases path with
    | nil =>
      match amounts, h with
      | [_], _ => trivial
    | cons b path =>
      match amounts, h with
      | x :: y :: amounts, ⟨⟨p, hp⟩, hrest⟩ =>
        obtain ⟨hpair, hbal⟩ := hagree (pool env a b) (List.mem_cons_self ..)
        refine ⟨⟨p, ?_⟩, ih (fun q hq => hagree q (List.mem_cons_of_mem _ hq)) hrest⟩
        rw [hbal a]
        exact hp.congr hpair (hbal b)

theorem swapAmounts_cons {rest : List Address} {amounts : List Nat} {hop : Address} (hne : a ≠ b)
    (h0 : min a b ≠ 0) (hh : hopTo env dst b rest = .ok hop) :
    swapAmounts env dst w (x :: y :: amounts) (a :: b :: rest) =
      ArkSwapPair.swap env w (pool env a b) env.router (if a = min a b then 0 else y)
        (if a = min a b then y else 0) hop none >>= fun r =>
      swapAmounts env dst r.2 (y :: amounts) (b :: rest) := by
  have hsort : sortTokens a b = .ok (min a b, max a b) := sortTokens_eq_ok.mpr ⟨hne, h0, rfl⟩
  have hpool : pairFor env a b = .ok (pool env a b) := pairFor_eq_ok.mpr ⟨hne, h0, rfl⟩
  rw [swapAmounts, hsort]
  simp only [ok_bind, hh, hpool]
  by_cases hm : a = min a b
  · rw [if_pos hm, if_pos hm, if_pos hm]
  · rw [if_neg hm, if_neg hm, if_neg hm]

theorem conserved_moved {t u src : Address} {v : Nat} (hv : v ≤ w.balanceOf u src)
    (htok : w'.token = (w.moved u src dst v).token) (h : (w.token t).Conserved) :
    (w'.token t).Conserved := by
  rw [htok]
  by_cases ht : t = u
  · subst ht
    rw [World.moved_token]
    exact h.move hv
  · rw [World.moved_token_of_ne _ _ _ ht]
    exact h

theorem Plain.moved {t u src : Address} {v : Nat} (h : Plain env w t) (hv : v ≤ w.balanceOf u src)
    (htok : w'.token = (w.moved u src dst v).token) : Plain env w' t :=
  ⟨h.standard, conserved_moved hv htok h.conserved⟩

/-- After a trade whose output goes to the next pool, that pool shows its input
and the pools behind it wait as before. -/
theorem Waiting.traded {rest : List Address} {amounts : List Nat} {q : ArkSwapPair} {c : Address}
    {z : Nat} (hnd : (poolsOf env (a :: b :: c :: rest)).Nodup)
    (hpair : w'.pair = Function.update w.pair (pool env a b) (some q))
    (htok : w'.token = (w.moved b (pool env a b) (pool env b c) y).token)
    (h : Waiting env w (b :: c :: rest) (y :: z :: amounts)) :
    (∃ p₁, Hop env w' p₁ b c y z (w.balanceOf b (pool env b c))) ∧
      w'.balanceOf b (pool env b c) = w.balanceOf b (pool env b c) + y ∧
      Waiting env w' (c :: rest) (z :: amounts) := by
  obtain ⟨⟨p₁, hp₁⟩, hrest⟩ := h
  obtain ⟨hfirst, hnd'⟩ := List.nodup_cons.mp hnd
  have hother : ∀ r ∈ poolsOf env (b :: c :: rest), r ≠ pool env a b := fun r hr h =>
    hfirst (h ▸ hr)
  have hnext : pool env b c ≠ pool env a b := hother _ (List.mem_cons_self ..)
  have hstep : ∀ t d, d ≠ pool env a b → w'.balanceOf t d =
      w.balanceOf t d + if t = b ∧ d = pool env b c then y else 0 := fun t d hd => by
    rw [World.balanceOf, htok]
    exact balanceOf_moved hd
  refine ⟨⟨p₁, hp₁.congr ?_ ?_⟩, ?_, hrest.congr fun r hr => ?_⟩
  · rw [hpair, Function.update_of_ne hnext]
  · rw [hstep _ _ hnext, if_neg (fun h => hp₁.ne h.1.symm), Nat.add_zero]
  · rw [hstep _ _ hnext, if_pos ⟨rfl, rfl⟩]
  · have hr₁ : r ≠ pool env a b := hother r (List.mem_cons_of_mem _ hr)
    have hr₂ : r ≠ pool env b c := fun h => (List.nodup_cons.mp hnd').1 (h ▸ hr)
    refine ⟨by rw [hpair, Function.update_of_ne hr₁], fun t => ?_⟩
    rw [hstep t r hr₁, if_neg (fun h => hr₂ h.2), Nat.add_zero]

theorem swapAmounts_runs {rest : List Address} {amounts : List Nat} {bought : Nat}
    {last : Address}
    (hfirst : Hop env w p a b x y balance) (hbal : w.balanceOf a (pool env a b) = balance + x)
    (hrest : Waiting env w (b :: rest) (y :: amounts))
    (hnd : (poolsOf env (a :: b :: rest)).Nodup)
    (hplain : ∀ t ∈ a :: b :: rest, Plain env w t ∧ t ∉ poolsOf env (a :: b :: rest))
    (hd : dst ∉ poolsOf env (a :: b :: rest))
    (hto : ∀ pre c d, a :: b :: rest = pre ++ [c, d] → dst ≠ c ∧ dst ≠ d)
    (hlast : (b :: rest).getLast? = some last) (hbought : (y :: amounts).getLast? = some bought) :
    ∃ w', swapAmounts env dst w (x :: y :: amounts) (a :: b :: rest) = .ok w' ∧
      (∀ t, (w.token t).Conserved → (w'.token t).Conserved) ∧
      ∀ t c, c ∉ poolsOf env (a :: b :: rest) →
        w'.balanceOf t c = w.balanceOf t c + if t = last ∧ c = dst then bought else 0 := by
  have hpays := hfirst.out_lt.le.trans hfirst.backed_out
  induction rest generalizing w p a b x y balance amounts with
  | nil =>
    cases amounts with
    | cons z amounts => exact hrest.elim
    | nil =>
      obtain ⟨hda, hdb⟩ := hto [] a b rfl
      have hdp : pool env a b ≠ dst := fun h => hd (h ▸ List.mem_cons_self ..)
      obtain ⟨hpa, -⟩ := hplain a (List.mem_cons_self ..)
      obtain ⟨hpb, -⟩ := hplain b (List.mem_cons_of_mem _ (List.mem_cons_self ..))
      obtain ⟨q, w', hrun, -, htok⟩ := hfirst.swap env.router hpa hpb hbal hda hdb hdp
      obtain rfl : b = last := Option.some.inj hlast
      obtain rfl : y = bought := Option.some.inj hbought
      refine ⟨w', ?_, fun t => conserved_moved hpays htok, ?_⟩
      · rw [swapAmounts_cons hfirst.ne hfirst.nonzero rfl, hrun, ok_bind]
        simp [swapAmounts]
      · intro t c hc
        have hcp : c ≠ pool env a b := fun h => hc (h ▸ List.mem_cons_self ..)
        rw [World.balanceOf, htok]
        exact balanceOf_moved hcp
  | cons c rest ih =>
    cases amounts with
    | nil => exact hrest.elim
    | cons z amounts =>
      have hhop : hopTo env dst b (c :: rest) = .ok (pool env b c) := by
        obtain ⟨⟨p₁, hp₁⟩, -⟩ := hrest
        exact pairFor_eq_ok.mpr ⟨hp₁.ne, hp₁.nonzero, rfl⟩
      obtain ⟨hpa, hna⟩ := hplain a (List.mem_cons_self ..)
      obtain ⟨hpb, hnb⟩ := hplain b (List.mem_cons_of_mem _ (List.mem_cons_self ..))
      have hmem : pool env b c ∈ poolsOf env (a :: b :: c :: rest) :=
        List.mem_cons_of_mem _ (List.mem_cons_self ..)
      have hdp : pool env a b ≠ pool env b c := fun h =>
        (List.nodup_cons.mp hnd).1 (h ▸ List.mem_cons_self ..)
      obtain ⟨q, w₁, hrun, hpair, htok⟩ := hfirst.swap env.router hpa hpb hbal
        (ne_of_mem_of_not_mem hmem hna) (ne_of_mem_of_not_mem hmem hnb) hdp
      obtain ⟨⟨p₁, hp₁⟩, hbal₁, hrest₁⟩ := hrest.traded hnd hpair htok
      have hplain₁ : ∀ t ∈ b :: c :: rest, Plain env w₁ t ∧ t ∉ poolsOf env (b :: c :: rest) := by
        intro t ht
        obtain ⟨hp, hn⟩ := hplain t (List.mem_cons_of_mem _ ht)
        exact ⟨hp.moved hpays htok, fun h => hn (List.mem_cons_of_mem _ h)⟩
      obtain ⟨w', hrun', hcons, hend⟩ := ih hp₁ hbal₁ hrest₁ (List.nodup_cons.mp hnd).2 hplain₁
        (fun h => hd (List.mem_cons_of_mem _ h))
        (fun pre u v h => hto (a :: pre) u v (by rw [h, List.cons_append]))
        (by rwa [List.getLast?_cons_cons] at hlast) (by rwa [List.getLast?_cons_cons] at hbought)
        (hp₁.out_lt.le.trans hp₁.backed_out)
      refine ⟨w', ?_, fun t ht => hcons t (conserved_moved hpays htok ht), fun t d hc => ?_⟩
      · rw [swapAmounts_cons hfirst.ne hfirst.nonzero hhop, hrun, ok_bind]
        exact hrun'
      · have hd₀ : d ≠ pool env a b := fun h => hc (h ▸ List.mem_cons_self ..)
        have hd₁ : d ≠ pool env b c := fun h => hc (h ▸ hmem)
        rw [hend t d (fun h => hc (List.mem_cons_of_mem _ h)), World.balanceOf, htok]
        rw [← World.balanceOf, balanceOf_moved hd₀, if_neg (fun h => hd₁ h.2), Nat.add_zero]

end ArkSwap
