import ArkSwap.ExchangeMirror

/-! The running indexer: a goroutine that passes the heads of a subscription on, and the loop
that they wake. Whatever comes when, the index is what its Ticks make it, and no head that
came is left without a Tick after it. -/

namespace ArkSwap.GoInternal

/-- What the goroutine finds ready: a header, which may lack a number, the end of its
subscription, or that of its context. -/
inductive Notice where
  | head (number : Option Nat)
  | ended (err : Option String)
  | cancelled
  deriving DecidableEq

/-- The two channels of a stream. That of the heads is closed when the goroutine returns. -/
structure HeadStream where
  heads : List Nat
  closed : Bool
  errs : Option String
  deriving DecidableEq

namespace HeadStream

def headsBuffer : Nat := 32

def opened : HeadStream := { heads := [], closed := false, errs := none }

def receive (s : HeadStream) (n : Notice) : HeadStream :=
  if s.closed then s
  else
    match n with
    | .cancelled => { s with closed := true }
    | .ended err =>
        { s with errs := s.errs.or (some (err.getD "chain: newHeads subscription closed"))
                 closed := true }
    | .head none => s
    | .head (some number) =>
        -- A full buffer drops the head: the consumer is busy.
        if s.heads.length < headsBuffer then { s with heads := s.heads ++ [number] } else s

/-- A receive from the heads does not block: one is buffered, or none will come. -/
def Ready (s : HeadStream) : Prop := s.heads ≠ [] ∨ s.closed = true

instance : DecidablePred Ready := fun _ => inferInstanceAs (Decidable (_ ∨ _))

end HeadStream

inductive Phase where
  | ticking
  | waiting
  | stopped
  deriving DecidableEq

structure Runner where
  process : Process
  stream : Option HeadStream
  cancelled : Bool
  phase : Phase

/-- What happens next: the loop goes on, by a call of `Run`, by its Tick or by a case of its
select, or else the goroutine does, or the context is cancelled. -/
inductive Moment where
  | start (o : Outside) (subscribed : Bool)
  | tick (o : Outside)
  | heads
  | subErr
  | timer (subscribed : Bool)
  | done
  | notice (n : Notice)
  | cancel

namespace Runner

open Indexer Exchange

def idle : Runner := { process := Process.initial, stream := none, cancelled := false, phase := .stopped }

def subscribeHeads (wsURL : String) (subscribed : Bool) : Option HeadStream :=
  if wsURL = "" then none else if subscribed then some HeadStream.opened else none

def tickFails (cfg : Config) (o : Outside) (p : Process) : Bool :=
  match p.memory with
  | none => false
  | some ix => !(tick cfg o { ix := ix, db := p.db, calls := 0 }).1.isOk

/-- What cannot happen now changes nothing. -/
def step (cfg : Config) (wsURL : String) (r : Runner) : Moment → Runner
  | .start o subscribed =>
      if r.phase = .stopped then
        let p := Process.step cfg r.process (.restart o)
        if p.memory.isSome then
          { process := p, stream := subscribeHeads wsURL subscribed, cancelled := false,
            phase := .ticking }
        else { r with process := p }
      else r
  | .tick o =>
      if r.phase = .ticking then
        { r with process := Process.step cfg r.process (.tick o)
                 phase := if r.cancelled && tickFails cfg o r.process then .stopped else .waiting }
      else r
  | .heads =>
      match r.stream with
      | some s =>
          if r.phase = .waiting ∧ s.Ready then
            { r with stream := some { s with heads := s.heads.tail }, phase := .ticking }
          else r
      | none => r
  | .subErr =>
      if r.phase = .waiting ∧ (r.stream.bind HeadStream.errs).isSome then
        { r with stream := none, phase := .ticking }
      else r
  | .timer subscribed =>
      if r.phase = .waiting then
        { r with stream := r.stream.or (subscribeHeads wsURL subscribed), phase := .ticking }
      else r
  | .done => if r.phase = .waiting ∧ r.cancelled = true then { r with phase := .stopped } else r
  | .notice n =>
      if n = .cancelled ∧ r.cancelled = false then r
      else { r with stream := r.stream.map fun s => s.receive n }
  | .cancel => { r with cancelled := true }

def stepsOf (r : Runner) : Moment → List Step
  | .start o _ => if r.phase = .stopped then [.restart o] else []
  | .tick o => if r.phase = .ticking then [.tick o] else []
  | _ => []

variable {cfg : Config} {wsURL : String} {r : Runner} {m : Moment} {moments : List Moment}

theorem step_process (cfg : Config) (wsURL : String) (r : Runner) (m : Moment) :
    (step cfg wsURL r m).process = Run.run (Process.step cfg) r.process (stepsOf r m) := by
  cases m with
  | start o subscribed =>
    rw [step, stepsOf]
    split
    · dsimp only
      split <;> rfl
    · rfl
  | tick o =>
    rw [step, stepsOf]
    split <;> rfl
  | heads =>
    rw [step]
    split
    · split <;> rfl
    · rfl
  | subErr => rw [step]; split <;> rfl
  | timer subscribed => rw [step]; split <;> rfl
  | done => rw [step]; split <;> rfl
  | notice n => rw [step]; split <;> rfl
  | cancel => rfl

def Watches (cfg : Config) (c : Chain) (r : Runner) (m : Moment) : Prop :=
  Run.Along (Process.step cfg) (Process.Watches cfg c) r.process (stepsOf r m)

/-- What holds of the steps of a process holds of the loop, whichever cases its select
takes. -/
theorem run_refines {P : Process → Step → Prop} {r : Runner}
    (h : Run.Along (step cfg wsURL) (fun r m => Run.Along (Process.step cfg) P r.process (stepsOf r m)) r
      moments) :
    ∃ steps, (Run.run (step cfg wsURL) r moments).process = Run.run (Process.step cfg) r.process steps ∧
      Run.Along (Process.step cfg) P r.process steps :=
  ⟨_, Run.run_labels (step_process cfg wsURL) r moments, (Run.along_labels (step_process cfg wsURL)).mpr h⟩

section Index

variable {env : Env} {fees : Prop} {absent : Set Address} {w : World}
  {blocks : List (List (Nat × Transaction env fees absent))} {c : Chain} {st : IndexerState}

/-- However heads, losses of the subscription and the timer wake the loop, the index is the
state of the contracts at its cursor. -/
theorem following_mirrors (hs : Grounds env) (hg : Exchange.Genesis env w) (hlogs : w.logs = [])
    (hfactory : cfg.factoryAddress = env.factory) (hrec : Records w blocks c)
    (hserved : Served cfg c)
    (hdist : HashChain.Distinguishes (fun b : MinedBlock => b.header.hash) c c)
    (hbatch : 0 < cfg.blockBatchSize)
    (hmoments : Run.Along (step cfg wsURL) (Watches cfg c) idle moments)
    (hst : (Run.run (step cfg wsURL) idle moments).process.db.indexerState[cfg.chainID]? = some st) :
    (Run.run (step cfg wsURL) idle moments).process.db.Mirrors
      (worldAt w blocks (st.lastProcessedBlock + 1)) := by
  obtain ⟨steps, hrun, hpass⟩ := run_refines hmoments
  rw [hrun] at hst ⊢
  have hnet := network_of_record hs hg hlogs hfactory hrec hserved hdist
  have hindex := (Process.onReplay_initial hnet).run hnet hbatch hpass
  exact hindex.mirrors hs hg hlogs hfactory hrec hnet hst

end Index

def woken : List Moment :=
  [.start (Process.outside (fun _ => sold) []) true, .tick (Process.outside (fun _ => sold) [12]),
    .notice (.head (some 2)), .heads, .tick (Process.outside (fun _ => sold) [])]

theorem woken_labels : Run.labels (step dayCfg "ws://node") stepsOf idle woken = working sold := by
  have hstarted : (Process.step dayCfg Process.initial
      (.restart (Process.outside (fun _ => sold) []))).memory.isSome = true := by
    decide +kernel
  have hfirst : step dayCfg "ws://node" idle (.start (Process.outside (fun _ => sold) []) true) =
      { process := Process.step dayCfg Process.initial (.restart (Process.outside (fun _ => sold) []))
        stream := some HeadStream.opened, cancelled := false, phase := .ticking } := by
    rw [step, if_pos (show idle.phase = .stopped from rfl)]
    exact if_pos hstarted
  rw [woken, Run.labels, hfirst]
  rfl

theorem woken_mirrored :
    (Run.run (step dayCfg "ws://node") idle woken).process.db.Mirrors
      (worldAt siteWorld (selling 1000) 3) := by
  obtain ⟨-, hcursor, -⟩ := working_result
  have hprocess := step_process dayCfg "ws://node"
  have hrun : (Run.run (step dayCfg "ws://node") idle woken).process =
      Run.run (Process.step dayCfg) Process.initial (working sold) := by
    rw [← woken_labels]
    exact Run.run_labels hprocess idle woken
  have hmoments : Run.Along (step dayCfg "ws://node") (Watches dayCfg sold) idle woken := by
    refine (Run.along_labels hprocess).mp ?_
    rw [woken_labels]
    exact working_watches
  rw [← hrun] at hcursor
  exact following_mirrors siteEnv_grounds siteWorld_genesis rfl rfl sold_records sold_served
    sold_distinguishes (by decide) hmoments hcursor

section Wakes

variable {s : HeadStream} {n : Notice} {number : Nat} {before after : List Moment}

theorem receive_head (hlive : s.closed = false) :
    (s.receive (.head (some number))).heads ≠ [] := by
  simp only [HeadStream.receive, hlive, Bool.false_eq_true, if_false]
  split
  · exact List.append_ne_nil_of_right_ne_nil _ (List.cons_ne_nil _ _)
  · rename_i hfull
    intro hempty
    rw [hempty] at hfull
    exact hfull (by decide)

theorem receive_keeps (h : s.heads ≠ []) : (s.receive n).heads ≠ [] := by
  unfold HeadStream.receive
  split
  · exact h
  · split
    · exact h
    · exact h
    · exact h
    · split
      · exact List.append_ne_nil_of_left_ne_nil h _
      · exact h

def Awake (r : Runner) : Prop := r.phase = .waiting → ∃ s, r.stream = some s ∧ s.heads ≠ []

def Ticks (r : Runner) (m : Moment) : Prop := r.phase = .ticking ∧ ∃ o, m = .tick o

theorem Awake.of_phase (h : r.phase ≠ .waiting) : Awake r := fun hphase => (h hphase).elim

theorem Awake.step (cfg : Config) (wsURL : String) (m : Moment) (h : Awake r) :
    Ticks r m ∨ Awake (step cfg wsURL r m) := by
  cases m with
  | start o subscribed =>
    refine .inr ?_
    rw [Runner.step]
    split
    · rename_i hstopped
      dsimp only
      split
      · exact .of_phase fun hphase => (by cases hphase)
      · exact .of_phase fun hphase => (by rw [hstopped] at hphase; cases hphase)
    · exact h
  | tick o =>
    by_cases hphase : r.phase = .ticking
    · exact .inl ⟨hphase, o, rfl⟩
    · rw [Runner.step, if_neg hphase]
      exact .inr h
  | heads =>
    refine .inr ?_
    rw [Runner.step]
    split
    · split
      · exact .of_phase fun hphase => (by cases hphase)
      · exact h
    · exact h
  | subErr =>
    refine .inr ?_
    rw [Runner.step]
    split
    · exact .of_phase fun hphase => (by cases hphase)
    · exact h
  | timer subscribed =>
    refine .inr ?_
    rw [Runner.step]
    split
    · exact .of_phase fun hphase => (by cases hphase)
    · exact h
  | done =>
    refine .inr ?_
    rw [Runner.step]
    split
    · exact .of_phase fun hphase => (by cases hphase)
    · exact h
  | notice n =>
    refine .inr ?_
    rw [Runner.step]
    split
    · exact h
    · intro hphase
      obtain ⟨s, hs, hheads⟩ := h hphase
      exact ⟨s.receive n, by rw [hs]; rfl, receive_keeps hheads⟩
  | cancel => exact .inr h

structure Running (r : Runner) : Prop where
  phase : r.phase ≠ .stopped
  context : r.cancelled = false

theorem Running.step (cfg : Config) (wsURL : String) (hm : m ≠ .cancel) (h : Running r) :
    Running (step cfg wsURL r m) := by
  obtain ⟨hphase, hcontext⟩ := h
  cases m with
  | start o subscribed =>
    rw [Runner.step, if_neg hphase]
    exact ⟨hphase, hcontext⟩
  | tick o =>
    rw [Runner.step]
    split
    · rw [hcontext]
      exact ⟨fun hstopped => (by cases hstopped), rfl⟩
    · exact ⟨hphase, hcontext⟩
  | heads =>
    rw [Runner.step]
    split
    · split
      · exact ⟨fun hstopped => (by cases hstopped), hcontext⟩
      · exact ⟨hphase, hcontext⟩
    · exact ⟨hphase, hcontext⟩
  | subErr =>
    rw [Runner.step]
    split
    · exact ⟨fun hstopped => (by cases hstopped), hcontext⟩
    · exact ⟨hphase, hcontext⟩
  | timer subscribed =>
    rw [Runner.step]
    split
    · exact ⟨fun hstopped => (by cases hstopped), hcontext⟩
    · exact ⟨hphase, hcontext⟩
  | done =>
    rw [Runner.step, if_neg fun h => by rw [hcontext] at h; cases h.2]
    exact ⟨hphase, hcontext⟩
  | notice n =>
    rw [Runner.step]
    split
    · exact ⟨hphase, hcontext⟩
    · exact ⟨hphase, hcontext⟩
  | cancel => exact (hm rfl).elim

/-- While its context lasts the loop goes on, whatever is dropped or lost; and it does not
wait, with no head buffered, unless a Tick began after the last head that came. -/
theorem heads_answered (hrunning : Running r)
    (hlasts : ∀ m ∈ before ++ .notice (.head (some number)) :: after, m ≠ .cancel)
    (hstream : (Run.run (step cfg wsURL) r before).stream = some s) (hlive : s.closed = false) :
    let t := Run.run (step cfg wsURL) r (before ++ .notice (.head (some number)) :: after)
    Running t ∧ (t.phase = .waiting → (∀ u, t.stream = some u → u.heads = []) →
      ∃ done m rest, after = done ++ m :: rest ∧
        Ticks (Run.run (step cfg wsURL) r (before ++ .notice (.head (some number)) :: done)) m) := by
  have hrun : ∀ moments : List Moment, (∀ m ∈ moments, m ≠ .cancel) →
      Running (Run.run (step cfg wsURL) r moments) := by
    intro moments hmoments
    exact Run.run_inv_along Running (fun r m hr hm => hr.step cfg wsURL hm) hrunning
      (Run.Along.of_forall hmoments)
  refine ⟨hrun _ hlasts, fun hwaiting hempty => ?_⟩
  have hafter : ∀ done, Run.run (step cfg wsURL) r (before ++ .notice (.head (some number)) :: done) =
      Run.run (step cfg wsURL) (step cfg wsURL (Run.run (step cfg wsURL) r before)
        (.notice (.head (some number)))) done := by
    intro done
    rw [Run.run_append, Run.run_cons]
  have hawake : Awake (step cfg wsURL (Run.run (step cfg wsURL) r before)
      (.notice (.head (some number)))) := by
    intro _
    rw [step, if_neg fun h => (by cases h.1)]
    refine ⟨s.receive (.head (some number)), ?_, receive_head hlive⟩
    rw [hstream]
    rfl
  rcases Run.run_until Awake (fun r m hr => hr.step cfg wsURL m) hawake after with
    hend | ⟨done, m, rest, hsplit, hticks⟩
  · rw [← hafter] at hend
    obtain ⟨u, hu, hheads⟩ := hend hwaiting
    exact (hheads (hempty u hu)).elim
  · rw [← hafter] at hticks
    exact ⟨done, m, rest, hsplit, hticks⟩

end Wakes

def busy : Runner :=
  { process := Process.initial, stream := some { HeadStream.opened with heads := List.range 32 },
    cancelled := false, phase := .waiting }

def drained : List Moment :=
  (List.replicate 32 [.heads, .tick (Process.outside (fun _ => sold) [])]).flatten

theorem busy_answered : ∃ before m after, drained = before ++ m :: after ∧
    Ticks (Run.run (step dayCfg "ws://node") busy (.notice (.head (some 33)) :: before)) m := by
  have hdrained : (Run.run (step dayCfg "ws://node") busy (.notice (.head (some 33)) :: drained)).phase =
      .waiting ∧ (Run.run (step dayCfg "ws://node") busy (.notice (.head (some 33)) :: drained)).stream =
        some HeadStream.opened := by
    decide +kernel
  have hlasts : ∀ m ∈ [] ++ .notice (.head (some 33)) :: drained, m ≠ .cancel := by
    intro m hm
    rcases List.mem_cons.mp hm with rfl | hm
    · exact fun h => (by cases h)
    · obtain ⟨ms, hms, hm⟩ := List.mem_flatten.mp hm
      obtain rfl := (List.mem_replicate.mp hms).2
      rcases List.mem_cons.mp hm with rfl | hm
      · exact fun h => (by cases h)
      · obtain rfl := List.mem_singleton.mp hm
        exact fun h => (by cases h)
  refine (heads_answered ⟨by decide, rfl⟩ hlasts rfl rfl).2 hdrained.1 fun u hu => ?_
  obtain rfl := Option.some.inj (hdrained.2.symm.trans hu)
  rfl

end Runner

end ArkSwap.GoInternal
