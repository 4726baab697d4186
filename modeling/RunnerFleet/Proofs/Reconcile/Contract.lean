import RunnerFleet.Reconcile.Program

/-!
# What programs do in a setting

A setting says which calls are permitted in a state and which answers and states a call may lead
to.  A program meets a postcondition in a setting when each of its calls is permitted where it is
made, whatever the calls before it were answered with, and the postcondition holds where it ends.
The state may be the store, with or without others who write to it, or the calls so far.

Main results:

- `meets_bind`: programs in a row are judged one after the other.
- `Meets.of_run`, `Meets.permits_of_run`: what a program meets in a setting holds where a run in that
  setting ends, and all its calls are permitted.
- `Meets.permits_of_trace`: every call of a trace is permitted after the calls before it.
-/

namespace RunnerFleet
namespace Reconcile

/-- A call with its answer. -/
structure Exchange where
  call : Call
  answer : call.Answer

/-- What a program finds around it while it runs, in terms of states `σ`. -/
structure Setting (σ : Type) where
  /-- Whether a call may be made in a state. -/
  permits : Call → σ → Prop
  /-- Whether a call may get this answer, and which states it may lead to. -/
  answers : (c : Call) → σ → c.Answer → σ → Prop

/-- The setting in which the calls so far are the state, and any possible answer may come. -/
def Setting.history (permits : List Exchange → Call → Prop) (possible : Exchange → Prop) :
    Setting (List Exchange) where
  permits c calls := permits calls c
  answers c calls answer after := possible ⟨c, answer⟩ ∧ after = calls ++ [⟨c, answer⟩]

namespace Program

variable {α β σ τ : Type}

/-- Every call of a program is permitted, and `post` holds where the program ends. -/
def Meets (m : Setting σ) (post : α → σ → Prop) : Program α → σ → Prop
  | done value, state => post value state
  | call c next, state =>
      m.permits c state ∧
        ∀ answer after, m.answers c state answer after → (next answer).Meets m post after

/-- A program followed by another is judged by what the other does from where the first ends. -/
theorem meets_bind (m : Setting σ) (post : β → σ → Prop) (p : Program α) (next : α → Program β)
    (state : σ) :
    (p >>= next).Meets m post state ↔
      p.Meets m (fun value after => (next value).Meets m post after) state := by
  change (p.bind next).Meets m post state ↔ _
  induction p generalizing state with
  | done value => rfl
  | call c rest ih =>
      simp only [bind, Meets]
      exact and_congr Iff.rfl
        (forall_congr' fun answer => forall_congr' fun after => imp_congr Iff.rfl (ih answer after))

/-- A postcondition may be weakened. -/
theorem Meets.mono {m : Setting σ} {post post' : α → σ → Prop} {p : Program α} {state : σ}
    (h : p.Meets m post state) (hpost : ∀ value after, post value after → post' value after) :
    p.Meets m post' state := by
  induction p generalizing state with
  | done value => exact hpost value state h
  | call c rest ih => exact ⟨h.1, fun answer after hanswer => ih answer (h.2 answer after hanswer)⟩

/-- From a state that permits no less and leads no further, a program does no worse. -/
theorem Meets.of_state {m : Setting σ} {post : α → σ → Prop} {p : Program α} {state state' : σ}
    (h : p.Meets m post state) (hpost : ∀ value, post value state → post value state')
    (hpermits : ∀ c, m.permits c state → m.permits c state')
    (hanswers : ∀ c answer after, m.answers c state' answer after →
      m.answers c state answer after) :
    p.Meets m post state' := by
  cases p with
  | done value => exact hpost value h
  | call c rest =>
      refine ⟨hpermits c h.1, ?_⟩
      intro answer after hanswer
      exact h.2 answer after (hanswers c answer after hanswer)

/-! ## Runs -/

/-- The exchanges of a run, in order. -/
def exchanges (answer : (c : Call) → τ → c.Answer × τ) : Program α → τ → List Exchange
  | done _, _ => []
  | call c next, state =>
      ⟨c, (answer c state).1⟩ ::
        exchanges answer (next (answer c state).1) (answer c state).2

/-- A run whose exchanges are all good ends as the program promises for a setting in which good
exchanges may happen. -/
theorem Meets.of_run {m : Setting σ} {post : α → σ → Prop} {p : Program α}
    {answer : (c : Call) → τ → c.Answer × τ} (view : τ → σ) {good : Exchange → Prop}
    (hanswer : ∀ c state, good ⟨c, (answer c state).1⟩ →
      m.answers c (view state) (answer c state).1 (view (answer c state).2))
    {state : τ} (h : p.Meets m post (view state))
    (hgood : ∀ e ∈ p.exchanges answer state, good e) :
    post (p.run answer state).1 (view (p.run answer state).2) := by
  induction p generalizing state with
  | done value => exact h
  | call c next ih =>
      rw [run_call]
      refine ih _ ?_ ?_
      · exact h.2 _ _ (hanswer c state (hgood _ List.mem_cons_self))
      · intro e he
        exact hgood e (List.mem_cons_of_mem _ he)

/-- In a run whose exchanges are all good, every call is permitted where it is made. -/
theorem Meets.permits_of_run {m : Setting σ} {post : α → σ → Prop} {p : Program α}
    {answer : (c : Call) → τ → c.Answer × τ} (view : τ → σ) {good : Exchange → Prop}
    (hanswer : ∀ c state, good ⟨c, (answer c state).1⟩ →
      m.answers c (view state) (answer c state).1 (view (answer c state).2))
    {state : τ} (h : p.Meets m post (view state))
    (hgood : ∀ e ∈ p.exchanges answer state, good e) :
    ∀ e ∈ p.exchanges answer state, ∃ s, m.permits e.call s := by
  induction p generalizing state with
  | done value => exact fun e he => absurd he List.not_mem_nil
  | call c next ih =>
      have hfirst := hanswer c state (hgood _ List.mem_cons_self)
      intro e he
      rcases List.mem_cons.1 he with rfl | he
      · exact ⟨_, h.1⟩
      · exact ih _ (h.2 _ _ hfirst) (fun e he => hgood e (List.mem_cons_of_mem _ he)) e he

/-! ## Traces -/

/-- A program makes the calls of a trace when they are answered as the trace says; the program may
be cut off after any call. -/
inductive Trace : Program α → List Exchange → Prop where
  | cut (p : Program α) : Trace p []
  | step (c : Call) (next : c.Answer → Program α) (answer : c.Answer) {rest : List Exchange}
      (follows : Trace (next answer) rest) : Trace (call c next) (⟨c, answer⟩ :: rest)

/-- The exchanges of a run are a trace. -/
theorem trace_exchanges (answer : (c : Call) → τ → c.Answer × τ) (p : Program α) (state : τ) :
    p.Trace (p.exchanges answer state) := by
  induction p generalizing state with
  | done value => exact .cut _
  | call c next ih => exact .step c next (answer c state).1 (ih _ (answer c state).2)

/-- Every call of a trace is permitted after the calls before it. -/
theorem Meets.permits_of_trace {permits : List Exchange → Call → Prop}
    {possible : Exchange → Prop} {post : α → List Exchange → Prop} {p : Program α}
    {calls t before after : List Exchange} {e : Exchange}
    (h : p.Meets (Setting.history permits possible) post calls) (ht : p.Trace t)
    (hpossible : ∀ e ∈ t, possible e) (hsplit : t = before ++ e :: after) :
    permits (calls ++ before) e.call := by
  induction ht generalizing calls before with
  | cut p => simp at hsplit
  | step c next answer follows ih =>
      cases before with
      | nil =>
          rw [List.nil_append, List.cons.injEq] at hsplit
          rw [← hsplit.1, List.append_nil]
          exact h.1
      | cons first before =>
          rw [List.cons_append, List.cons.injEq] at hsplit
          have hfirst : possible ⟨c, answer⟩ := hpossible _ List.mem_cons_self
          have hrest := ih (h.2 answer _ ⟨hfirst, rfl⟩)
            (fun e he => hpossible e (List.mem_cons_of_mem _ he)) hsplit.2
          rw [← hsplit.1]
          simpa using hrest

end Program
end Reconcile
end RunnerFleet
