import RunnerFleet.Proofs.Reconcile.Contract
import RunnerFleet.Proofs.Store.Keyed
import RunnerFleet.Reconcile.Environment

/-!
# How calls are answered

A call that goes to the store is an operation on it, and is answered with the outcome of that
operation unless it fails without effect.  The removal of a registration goes to the Actions service
and does not touch the store.

Main results:

- `perform_store`, `perform_events`: a call leaves the store as its operation does, and announces
  what its operation announces.
- `Call.Answered.getSet`, `Call.Answered.listRunners`: what is read is what was stored.
- `answerNext_eq_some`: a program goes on only with an answer to its next call.
- `possible_exchanges`: in an environment only possible exchanges happen.
- `keeps_run`: what every call keeps, a run without faults keeps.
-/

namespace RunnerFleet
namespace Reconcile

/-! ## One call at a time -/

namespace Program

variable {α σ : Type}

/-- The next call of a program is answered: the call with its answer, what the program has yet to
do, and what came with the answer.  Nothing, if the program is done or the call has no answer. -/
def answerNext (answer : (c : Call) → Option (c.Answer × σ)) :
    Program α → Option (Exchange × Program α × σ)
  | done _ => none
  | call c next => (answer c).map fun (reply, came) => (⟨c, reply⟩, next reply, came)

/-- A program goes on only with an answer to its next call. -/
theorem answerNext_eq_some {answer : (c : Call) → Option (c.Answer × σ)} {p : Program α}
    {gone : Exchange × Program α × σ} (h : p.answerNext answer = some gone) :
    ∃ c next reply came, p = call c next ∧ answer c = some (reply, came) ∧
      gone = (⟨c, reply⟩, next reply, came) := by
  cases p with
  | done value => cases h
  | call c next =>
      obtain ⟨⟨reply, came⟩, hreply, hgone⟩ := Option.map_eq_some_iff.1 h
      exact ⟨c, next, reply, came, rfl, hreply, hgone.symm⟩

end Program

/-! ## What calls do -/

/-- The operation of the store that a call asks for, if it goes to the store. -/
def Call.operation? : Call → Option Store.Operation
  | getSet key => some (.getSet key)
  | listRunners key => some (.listRunners key)
  | createRunner runner => some (.createRunner runner)
  | deleteRunner owner name => some (.deleteRunner owner name)
  | updateStatus key status => some (.updateSetStatus key status)
  | setFinalizers key finalizers => some (.setSetFinalizers key finalizers)
  | deregister _ => none

/-- A call leaves the store as its operation does. -/
theorem perform_store (service : Actions.Service) (stamp : Stamp) (s : Store) (c : Call) :
    (c.perform service stamp s).store =
      match c.operation? with
      | some op => (s.perform stamp op).store
      | none => s := by
  cases c <;> rfl

/-- A call announces what its operation does. -/
theorem perform_events (service : Actions.Service) (stamp : Stamp) (s : Store) (c : Call) :
    (c.perform service stamp s).events =
      match c.operation? with
      | some op => (s.perform stamp op).events
      | none => [] := by
  cases c <;> rfl

/-- A call may be answered like this from one store, and lead to the other: it is carried out, or it
fails without effect. -/
def Call.Answered (c : Call) (s : Store) (answer : c.Answer) (after : Store) : Prop :=
  (∃ service stamp, answer = (c.perform service stamp s).answer ∧
    after = (c.perform service stamp s).store) ∨
  ∃ e, c.failWith e = some answer ∧ after = s

theorem answered_perform (service : Actions.Service) (stamp : Stamp) (s : Store) (c : Call) :
    c.Answered s (c.perform service stamp s).answer (c.perform service stamp s).store :=
  Or.inl ⟨service, stamp, rfl, rfl⟩

/-- A call that is carried out is answered. -/
theorem answered_serve {s : Store} (service : Actions.Service) (stamp : Stamp) (c : Call)
    (reply : c.Answer) (after : Store)
    (h : (let r := c.perform service stamp s; some (r.answer, r.store)) = some (reply, after)) :
    c.Answered s reply after := by
  injection h with h
  injection h with hreply hafter
  exact Or.inl ⟨service, stamp, hreply.symm, hafter.symm⟩

/-- A call that fails is answered. -/
theorem answered_fail {s : Store} (e : Store.Error) (c : Call) (reply : c.Answer) (after : Store)
    (h : (c.failWith e).map (fun answer => (answer, s)) = some (reply, after)) :
    c.Answered s reply after := by
  obtain ⟨answer, hfail, heq⟩ := Option.map_eq_some_iff.1 h
  injection heq with heq hafter
  exact Or.inr ⟨e, heq ▸ hfail, hafter.symm⟩

/-- After a call the store is as before, or as the operation of the call leaves it. -/
theorem Call.Answered.store {c : Call} {s after : Store} {answer : c.Answer}
    (h : c.Answered s answer after) :
    after = s ∨ ∃ op stamp, c.operation? = some op ∧ after = (s.perform stamp op).store := by
  rcases h with ⟨service, stamp, -, rfl⟩ | ⟨e, -, rfl⟩
  · rw [perform_store]
    cases c.operation? with
    | none => exact Or.inl rfl
    | some op => exact Or.inr ⟨op, stamp, rfl, rfl⟩
  · exact Or.inl rfl

/-- A call that only looks leaves the store as it was. -/
theorem Call.Answered.store_eq {c : Call} {s after : Store} {answer : c.Answer}
    (h : c.Answered s answer after) (hread : ∀ op, c.operation? = some op → op.isRead = true) :
    after = s := by
  rcases h.store with hafter | ⟨op, stamp, hop, hafter⟩
  · exact hafter
  · rw [hafter, (Store.perform_of_isRead (hread op hop)).1]

/-- Calls keep every object under its key. -/
theorem Call.Answered.keyed {c : Call} {s after : Store} {answer : c.Answer}
    (h : c.Answered s answer after) (hs : s.Keyed) : after.Keyed := by
  rcases h.store with rfl | ⟨op, stamp, -, rfl⟩
  · exact hs
  · exact hs.perform stamp op

/-- A runner set that is read is the stored one. -/
theorem Call.Answered.getSet {key : String} {s after : Store} {found : Option RunnerSet}
    (h : (Call.getSet key).Answered s (.ok found) after) : after = s ∧ s.getSet key = found := by
  rcases h with ⟨service, stamp, hanswer, hafter⟩ | ⟨e, hfail, -⟩
  · exact ⟨hafter, (Except.ok.inj hanswer).symm⟩
  · cases hfail

/-- The runners that are listed are the stored ones. -/
theorem Call.Answered.listRunners {key : String} {s after : Store} {runners : List Runner}
    (h : (Call.listRunners key).Answered s (.ok runners) after) :
    after = s ∧ s.runnersOf key = runners := by
  rcases h with ⟨service, stamp, hanswer, hafter⟩ | ⟨e, hfail, -⟩
  · exact ⟨hafter, (Except.ok.inj hanswer).symm⟩
  · cases hfail

/-- A runner whose creation goes well was not there before. -/
theorem Call.Answered.createRunner {r new : Runner} {owner : String}
    (howner : r.ownerKey = some owner) {s after : Store}
    (h : (Call.createRunner r).Answered s (.ok new) after) :
    s.runners.get? (Store.runnerKey owner r.name) = none ∧
      ∃ stamp, after = (s.perform stamp (.createRunner r)).store := by
  rcases h with ⟨service, stamp, hanswer, hafter⟩ | ⟨e, hfail, -⟩
  · refine ⟨?_, stamp, hafter⟩
    have hresult : (s.createRunner r stamp).result = .ok new := hanswer.symm
    rw [Store.createRunner, howner] at hresult
    cases hget : s.runners.get? (Store.runnerKey owner r.name) with
    | none => rfl
    | some old => simp [Store.insertNew, hget, Store.settleRunners] at hresult
  · cases hfail

/-- A runner that is not there is created. -/
theorem answer_createRunner (service : Actions.Service) (stamp : Stamp) {s : Store} {r : Runner}
    {owner : String} (howner : r.ownerKey = some owner)
    (hnone : s.runners.get? (Store.runnerKey owner r.name) = none) :
    ((Call.createRunner r).perform service stamp s).answer = .ok (Store.created stamp r) := by
  change (s.createRunner r stamp).result = _
  rw [Store.createRunner, howner]
  dsimp only
  rw [Store.insertNew, hnone]
  rfl

/-- A creation that goes wrong leaves the store as it was. -/
theorem Call.Answered.createRunner_error {r : Runner} {owner : String}
    (howner : r.ownerKey = some owner) {s after : Store} {e : Store.Error}
    (h : (Call.createRunner r).Answered s (.error e) after) : after = s := by
  rcases h with ⟨service, stamp, hanswer, hafter⟩ | ⟨e, -, hafter⟩
  · have hresult : (s.createRunner r stamp).result = .error e := hanswer.symm
    rw [hafter]
    change (s.createRunner r stamp).store = s
    rw [Store.createRunner, howner] at hresult ⊢
    cases hget : s.runners.get? (Store.runnerKey owner r.name) with
    | none => simp [Store.insertNew, hget, Store.settleRunners] at hresult
    | some old => simp [Store.insertNew, hget, Store.settleRunners]
  · exact hafter

/-- Whether the call went well. -/
def Exchange.succeeded : Exchange → Bool
  | ⟨.getSet _, .error _⟩ => false
  | ⟨.listRunners _, .error _⟩ => false
  | ⟨.createRunner _, .error _⟩ => false
  | ⟨.deleteRunner _ _, .error _⟩ => false
  | ⟨.updateStatus _ _, .error _⟩ => false
  | ⟨.setFinalizers _ _, .error _⟩ => false
  | ⟨.deregister _, .error _⟩ => false
  | _ => true

/-- The answer to the call of an exchange comes from some store that operations lead to, or the call
failed. -/
def Exchange.Possible (e : Exchange) : Prop :=
  ∃ s after, s.Reachable ∧ e.call.Answered s e.answer after

/-! ## Answers in an environment -/

/-- What an environment answers is a possible answer. -/
theorem answered_answer (c : Call) (env : Environment) :
    c.Answered env.store (Environment.answer c env).1 (Environment.answer c env).2.store := by
  have hserve : ∀ env' : Environment, env'.store = env.store →
      c.Answered env.store (env'.serve c).1 (env'.serve c).2.store := by
    intro env' hstore
    exact Or.inl ⟨env'.service, env'.stamps env'.clock, hstore ▸ rfl, hstore ▸ rfl⟩
  unfold Environment.answer
  split
  · exact hserve env rfl
  · dsimp only
    split
    · rename_i failure hfailure
      obtain ⟨e, -, hfail⟩ := Option.bind_eq_some_iff.1 hfailure
      exact Or.inr ⟨e, hfail, rfl⟩
    · exact hserve _ rfl

/-- What a call makes of a store that operations lead to is such a store. -/
theorem Call.Answered.reachable {c : Call} {s after : Store} {answer : c.Answer}
    (h : c.Answered s answer after) (hs : s.Reachable) : after.Reachable := by
  rcases h.store with rfl | ⟨op, stamp, -, rfl⟩
  · exact hs
  · exact hs.perform stamp op

/-- In an environment whose store operations led to, only possible exchanges happen. -/
theorem possible_exchanges {α : Type} (p : Program α) {env : Environment}
    (h : env.store.Reachable) :
    ∀ e ∈ p.exchanges Environment.answer env, e.Possible := by
  induction p generalizing env with
  | done value => exact fun e he => absurd he List.not_mem_nil
  | call c next ih =>
      have hanswered := answered_answer c env
      intro e he
      rcases List.mem_cons.1 he with rfl | he
      · exact ⟨env.store, _, h, hanswered⟩
      · exact ih _ (hanswered.reachable h) e he

/-- Without faults a call is carried out. -/
theorem answer_of_faultless {env : Environment} (h : env.faults = []) (c : Call) :
    Environment.answer c env = env.serve c := by
  obtain ⟨store, service, faults, stamps, clock, calls, events⟩ := env
  obtain rfl : faults = [] := h
  cases c <;> rfl

/-- What every call keeps, a run without faults keeps. -/
theorem keeps_run {α : Type} {kept : Program α → Environment → Prop}
    (hserve : ∀ {c : Call} {next : c.Answer → Program α} {env : Environment},
      kept (.call c next) env → kept (next (env.serve c).1) (env.serve c).2)
    (p : Program α) {env : Environment} (hfaults : env.faults = []) (h : kept p env) :
    kept (.done (p.run Environment.answer env).1) (p.run Environment.answer env).2 := by
  induction p generalizing env with
  | done value => exact h
  | call c next ih =>
      rw [Program.run_call, answer_of_faultless hfaults]
      exact ih _ hfaults (hserve h)

end Reconcile
end RunnerFleet
