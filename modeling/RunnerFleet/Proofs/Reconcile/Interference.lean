import RunnerFleet.Proofs.Reconcile.Calls
import RunnerFleet.Proofs.Reconcile.Twins

/-!
# Passes over different sets do not interfere

A pass over a set keeps to the territory of this set: the set itself, and the keys that begin like
those of its runners.  The territories of sets with valid names have nothing in common.  What a pass
does there depends on what it read at its beginning, and not on the identifiers and times that are
generated on the way.  Two passes over different sets therefore come to the same results, and leave
the same but for what was generated, in whatever order their calls are made.

Main results:

- `blind_bind`, `blind_proceed`: a pass does not go by what is generated.
- `Stage.step`: a pass beside others goes on as it does alone.
- `InStep.turn`, `InStep.play`: two passes that take turns are each as if they were alone.
- `passes_do_not_interfere`: they end as one after the other does, in either order.
-/

namespace RunnerFleet
namespace Reconcile

open Program Store

/-! ## Programs that do not go by what is generated -/

namespace Program

variable {α β : Type}

/-- A program goes on in the same way after answers that are alike. -/
def Blind : Program α → Prop
  | done _ => True
  | call c next => ∀ answer, (next answer).Blind ∧
      ∀ answer', c.Alike answer answer' → next answer = next answer'

theorem blind_bind {p : Program α} {next : α → Program β} (hp : p.Blind)
    (hnext : ∀ value, (next value).Blind) : (p >>= next).Blind := by
  change (p.bind next).Blind
  induction p with
  | done value => exact hnext value
  | call c rest ih =>
      intro answer
      refine ⟨ih answer (hp answer).1, fun answer' halike => ?_⟩
      exact congrArg (bind · next) ((hp answer).2 answer' halike)

/-- A call that is answered the same whenever it is answered alike. -/
theorem blind_call {c : Call} (h : ∀ answer answer', c.Alike answer answer' → answer = answer') :
    (call c done).Blind :=
  fun answer => ⟨trivial, fun answer' halike => congrArg done (h answer answer' halike)⟩

end Program

section Steps

variable {ownerKey : String}

theorem blind_discard (r : Runner) : (discard ownerKey r).Blind := by
  refine blind_bind (blind_call fun _ _ h => h) fun result => ?_
  cases result <;> exact trivial

theorem blind_cleanup (runners : List Runner) : (cleanup ownerKey runners).Blind := by
  induction runners with
  | nil => exact trivial
  | cons r rest ih => exact blind_bind (blind_discard r) fun _ => blind_bind ih fun _ => trivial

theorem blind_retire (r : Runner) : (retire ownerKey r).Blind := by
  refine blind_bind (blind_call fun _ _ h => h) fun result => ?_
  cases result with
  | error e => exact trivial
  | ok _ => exact blind_bind (blind_discard r) fun _ => trivial

theorem blind_reclaim (count : Nat) (runners : List Runner) :
    (reclaim ownerKey count runners).Blind := by
  induction runners generalizing count with
  | nil => cases count <;> exact trivial
  | cons r rest ih =>
      cases count with
      | zero => exact trivial
      | succ count =>
          rw [reclaim]
          split
          · refine blind_bind (blind_retire r) fun result => ?_
            rcases result with _ | _ | _
            · exact blind_bind (ih (count + 1)) fun _ => trivial
            · exact ih (count + 1)
            · exact blind_bind (ih count) fun _ => trivial
          · exact ih (count + 1)

variable (set : RunnerSet)

/-- New runners are created whatever they look like. -/
theorem blind_createRunners (suffixes : List String) : (createRunners set suffixes).Blind := by
  induction suffixes with
  | nil => exact trivial
  | cons suffix rest ih =>
      intro answer
      constructor
      · change (createRunners set rest >>= _).Blind
        refine blind_bind ih fun _ => ?_
        cases answer <;> exact trivial
      · intro answer' halike
        cases answer with
        | error e =>
            cases answer' with
            | error e' => rw [Except.error.inj halike]
            | ok r' => cases halike
        | ok r =>
            cases answer' with
            | error e' => cases halike
            | ok r' => rfl

theorem blind_closeGap (suffix : Nat → String) (fleet : Fleet) :
    (closeGap suffix set fleet).Blind := by
  rw [closeGap]
  split
  · exact trivial
  · exact blind_createRunners set _
  · exact blind_bind (blind_reclaim _ _) fun _ => trivial

theorem blind_writeStatus (fleet : Fleet) : (writeStatus set fleet).Blind := by
  rw [writeStatus]
  split
  · exact trivial
  · exact blind_bind (blind_call fun _ _ h => h) fun _ => trivial

/-- Only the counts of a fleet are written. -/
theorem writeStatus_congr {fleet fleet' : Fleet} (h : fleet.status = fleet'.status) :
    writeStatus set fleet = writeStatus set fleet' := by
  rw [writeStatus, writeStatus, h]

/-- What a pass does at its end: it looks at the fleet again, and writes the counts. -/
def report (fleet : Fleet) (acted : Bool) (errors : List Error) : Program (Except Error Unit) := do
  let (fleet, reviewErrors) ← review set fleet acted
  let statusErrors ← writeStatus set fleet
  return Error.collect (errors ++ reviewErrors ++ statusErrors)

theorem blind_report (fleet : Fleet) (acted : Bool) (errors : List Error) :
    (report set fleet acted errors).Blind := by
  have hwrite : ∀ fleet, (writeStatus set fleet).Blind := blind_writeStatus set
  cases acted with
  | false =>
      change (writeStatus set fleet >>= _).Blind
      exact blind_bind (hwrite fleet) fun _ => trivial
  | true =>
      -- of the runners that are listed anew, only the counts are written
      intro answer
      constructor
      · cases answer with
        | error e =>
            change (writeStatus set fleet >>= _).Blind
            exact blind_bind (hwrite fleet) fun _ => trivial
        | ok runners =>
            change (writeStatus set (Fleet.classify runners) >>= _).Blind
            exact blind_bind (hwrite (Fleet.classify runners)) fun _ => trivial
      · intro answer' halike
        cases answer with
        | error e =>
            cases answer' with
            | error e' => rw [Except.error.inj halike]
            | ok runners' => cases halike
        | ok runners =>
            cases answer' with
            | error e' => cases halike
            | ok runners' =>
                have hcounts : (Fleet.classify runners).status = (Fleet.classify runners').status :=
                  Except.ok.inj halike
                change writeStatus set (Fleet.classify runners) >>= _ =
                  writeStatus set (Fleet.classify runners') >>= _
                rw [writeStatus_congr set hcounts]

/-- A pass does not go by what is generated after its reads. -/
theorem blind_proceed (suffix : Nat → String) (runners : List Runner) :
    (proceed suffix set runners).Blind := by
  rw [proceed]
  split
  · refine blind_bind (blind_cleanup _) fun cleanupErrors => ?_
    refine blind_bind (blind_closeGap set suffix _) fun gapErrors => ?_
    exact blind_report set _ _ (cleanupErrors ++ gapErrors)
  · exact blind_bind (blind_cleanup _) fun _ => blind_bind (blind_reclaim _ _) fun _ => trivial
  · exact blind_bind (blind_call fun _ _ h => h) fun _ => trivial

end Steps

/-! ## Territories -/

/-- What a pass over a set may look at and write to: the set, and if it is stored, the keys that
begin like those of its runners. -/
def territory (s : Store) (key : String) : Place → Prop
  | .sets k => k = key
  | .runners k => (∃ set, s.getSet key = some set) ∧ ∃ name, k = runnerKey key name

/-- All runner sets that are stored have valid names. -/
def ValidNames (s : Store) : Prop :=
  ∀ key set, s.getSet key = some set →
    isValidName set.metadata.namespaceName = true ∧ isValidName set.metadata.name = true

/-- A set with valid names is stored under a valid key. -/
theorem ValidNames.isOwnerKey {s : Store} (h : ValidNames s) (hs : s.Keyed) {key : String}
    {set : RunnerSet} (hset : s.getSet key = some set) : IsOwnerKey key := by
  obtain ⟨hnamespace, hname⟩ := h key set hset
  exact ⟨_, _, hnamespace, hname, (hs.set hset).symm⟩

/-- The territories of different sets have nothing in common. -/
theorem territory_disjoint {s : Store} (h : ValidNames s) (hs : s.Keyed) {k k' : String}
    (hne : k ≠ k') {place : Place} (hplace : territory s k place) : ¬ territory s k' place := by
  intro hplace'
  cases place with
  | sets key => exact hne (hplace.symm.trans hplace')
  | runners key =>
      obtain ⟨⟨set, hset⟩, name, rfl⟩ := hplace
      obtain ⟨⟨set', hset'⟩, name', hkey⟩ := hplace'
      have hk := h.isOwnerKey hs hset
      have hk' := h.isOwnerKey hs hset'
      exact hne ((runnerKey_eq_iff hk hk' _ _).1 hkey).1

/-- The calls for a set keep to its territory. -/
theorem within_of_serves {region : Place → Prop} {set : RunnerSet} {runners : List Runner} {c : Call}
    (h : Call.Serves set runners c) (hset : region (.sets set.key))
    (hrunners : ∀ name, region (.runners (runnerKey set.key name))) : c.Within region := by
  cases h with
  | listRunners => exact .listRunners hrunners
  | createRunner suffix => exact .createRunner (newRunner_ownerKey set suffix) rfl (hrunners _)
  | deleteRunner => exact .deleteRunner (hrunners _)
  | updateStatus => exact .updateStatus hset
  | deregister => exact .deregister _

theorem uses_proceed_within {region : Place → Prop} (suffix : Nat → String) (set : RunnerSet)
    (runners : List Runner) (hset : region (.sets set.key))
    (hrunners : ∀ name, region (.runners (runnerKey set.key name))) :
    (proceed suffix set runners).Uses (Call.Within region) := by
  rw [proceed]
  split
  · refine (uses_converge set suffix runners).mono fun c hc => ?_
    exact within_of_serves hc hset hrunners
  · exact uses_drain set (fun r _ => .deleteRunner (hrunners r.name)) .deregister
  · exact uses_bind (uses_call (.setFinalizers hset)) fun _ => trivial

/-! ## A pass beside others, and alone -/

/-- What is left of a pass over a set, when one store is shared with others and the other store is
not: until it has read, the stores hold the same in its territory; then, they are twins there. -/
inductive Stage (suffix : Nat → String) (key : String) (region : Place → Prop) (s t : Store) :
    Program (Except Error Unit) → Prop where
  | opening (hset : region (.sets key))
      (hrunners : ∀ set, s.getSet key = some set → ∀ name, region (.runners (runnerKey key name)))
      (h : AgreeOn region s t) : Stage suffix key region s t (pass suffix key)
  | listing {set : RunnerSet} {rest : (Call.listRunners key).Answer → Program (Except Error Unit)}
      (hkey : set.key = key) (hset : region (.sets key))
      (hrunners : ∀ name, region (.runners (runnerKey key name)))
      (hrest : ∀ runners, rest (.ok runners) = proceed suffix set runners)
      (h : AgreeOn region s t) : Stage suffix key region s t (.call (.listRunners key) rest)
  | acting {p : Program (Except Error Unit)} (hblind : p.Blind)
      (huses : p.Uses (Call.Within region)) (h : TwinsOn region s t) : Stage suffix key region s t p

section Stage

variable {suffix : Nat → String} {key : String} {region : Place → Prop} {s t : Store}

theorem Stage.twinsOn {p : Program (Except Error Unit)} (h : Stage suffix key region s t p) :
    TwinsOn region s t := by
  cases h with
  | opening _ _ hagree | listing _ _ _ _ hagree => exact hagree.twinsOn
  | acting _ _ htwins => exact htwins

/-- What others do outside the territory does not matter. -/
theorem Stage.of_agreeOn {p : Program (Except Error Unit)} (h : Stage suffix key region s t p)
    {s' : Store} (hs : AgreeOn region s s') : Stage suffix key region s' t p := by
  cases h with
  | opening hset hrunners hagree =>
      refine .opening hset (fun set hfound => ?_) (hs.symm.trans hagree)
      exact hrunners set ((getSet_eq_of_look (hs _ hset)).trans hfound)
  | listing hkey hset hrunners hrest hagree =>
      exact .listing hkey hset hrunners hrest (hs.symm.trans hagree)
  | acting hblind huses htwins => exact .acting hblind huses (htwins.of_agreeOn hs)

/-- How a pass goes on after its first call. -/
theorem stage_opened (hs : s.Keyed) (hset : region (.sets key))
    (hrunners : ∀ set, s.getSet key = some set → ∀ name, region (.runners (runnerKey key name)))
    (h : AgreeOn region s t)
    {next : (Call.getSet key).Answer → Program (Except Error Unit)}
    (hnext : pass suffix key = .call (.getSet key) next) :
    Stage suffix key region s t (next (.ok (s.getSet key))) := by
  obtain ⟨first, hfirst, hnone, hdeleting, hlive, hheld⟩ := pass_opens suffix key
  cases hnext.symm.trans hfirst
  cases hfound : s.getSet key with
  | none =>
      rw [hnone]
      exact .acting trivial trivial h.twinsOn
  | some set =>
      cases hfinalizer : set.hasFinalizer with
      | true =>
          obtain ⟨rest, hrest, hproceed⟩ := hheld set hfinalizer
          rw [hrest]
          exact .listing (hs.set hfound) hset (hrunners set hfound) hproceed h
      | false =>
          cases hremoving : set.metadata.isDeleting with
          | true =>
              rw [hdeleting set hfinalizer hremoving]
              exact .acting trivial trivial h.twinsOn
          | false =>
              rw [hlive set hfinalizer hremoving]
              refine .acting ?_ ⟨.setFinalizers hset, fun _ => trivial⟩ h.twinsOn
              exact fun answer => ⟨trivial, fun answer' halike => by rw [show answer = answer' from halike]⟩

/-- A call of a pass keeps to its territory, and the pass goes on beside others as it does alone. -/
theorem Stage.step {c : Call} {next : c.Answer → Program (Except Error Unit)}
    (h : Stage suffix key region s t (.call c next)) (hs : s.Keyed) (ht : t.Keyed)
    (service : Actions.Service) (stamp stamp' : Stamp) :
    c.Within region ∧
      next (c.perform service stamp s).answer = next (c.perform service stamp' t).answer ∧
      Stage suffix key region (c.perform service stamp s).store (c.perform service stamp' t).store
        (next (c.perform service stamp s).answer) := by
  generalize hp : Program.call c next = p at h
  cases h with
  | opening hset hrunners hagree =>
      obtain ⟨first, hfirst, -⟩ := pass_opens suffix key
      cases hp.trans hfirst
      have hfound : s.getSet key = t.getSet key := getSet_eq_of_look (hagree _ hset)
      refine ⟨.getSet hset, ?_, stage_opened hs hset hrunners hagree hfirst⟩
      exact congrArg (fun found => first (.ok found)) hfound
  | @listing set rest hkey hset hrunners hrest hagree =>
      cases hp
      have hlisted : s.runnersOf key = t.runnersOf key :=
        hs.runnersOf_congr ht fun name => runner_eq_of_look (hagree _ (hrunners name))
      refine ⟨.listRunners hrunners, ?_, ?_⟩
      · exact congrArg (fun runners => rest (.ok runners)) hlisted
      · change Stage suffix key region s t (rest (.ok (s.runnersOf key)))
        rw [hrest]
        refine .acting (blind_proceed set suffix _) ?_ hagree.twinsOn
        exact uses_proceed_within suffix set _ (hkey ▸ hset) (hkey ▸ hrunners)
  | acting hblind huses htwins =>
      subst hp
      obtain ⟨hwithin, huses⟩ := huses
      refine ⟨hwithin, ?_, .acting (hblind _).1 (huses _) fun place hplace => ?_⟩
      · exact (hblind _).2 _ (alike_perform htwins hs ht hwithin service stamp stamp')
      · exact twinAt_perform hwithin service stamp stamp' (htwins place hplace)

end Stage

/-! ## Runs without faults -/

/-- No call fails of itself, and operations led to the store. -/
structure Quiet (service : Actions.Service) (env : Environment) : Prop where
  service : env.service = service
  faults : env.faults = []
  reached : env.store.Reachable

section Quiet

variable {service : Actions.Service} {env : Environment}

/-- Without faults a call is carried out. -/
theorem Quiet.answer_eq (h : Quiet service env) (c : Call) :
    (Environment.answer c env).1 = (c.perform service (env.stamps env.clock) env.store).answer ∧
      (Environment.answer c env).2.store =
        (c.perform service (env.stamps env.clock) env.store).store ∧
      Quiet service (Environment.answer c env).2 := by
  have hreached := (answered_answer c env).reachable h.reached
  obtain ⟨rfl, hfaults, -⟩ := h
  rw [answer_of_faultless hfaults] at hreached ⊢
  exact ⟨rfl, rfl, rfl, hfaults, hreached⟩

theorem Quiet.run {α : Type} (h : Quiet service env) (p : Program α) :
    Quiet service (p.run Environment.answer env).2 := by
  induction p generalizing env with
  | done value => exact h
  | call c next ih =>
      rw [run_call]
      exact ih _ (h.answer_eq c).2.2

end Quiet

/-! ## Two passes that take turns -/

/-- Make the next call of a program, if it is not done. -/
def Program.advance {α : Type} (p : Program α) (env : Environment) : Program α × Environment :=
  match p.answerNext fun c => some (Environment.answer c env) with
  | some (_, rest, env) => (rest, env)
  | none => (p, env)

theorem Program.advance_call {α : Type} (c : Call) (next : c.Answer → Program α)
    (env : Environment) :
    (Program.call c next).advance env =
      (next (Environment.answer c env).1, (Environment.answer c env).2) :=
  rfl

/-- What a program has come to, if it is done. -/
def Program.result? {α : Type} : Program α → Option α
  | .done value => some value
  | .call _ _ => none

theorem Program.eq_done_of_result? {α : Type} {p : Program α} {value : α}
    (h : p.result? = some value) : p = .done value := by
  cases p with
  | done value' => rw [Option.some.inj h]
  | call c next => cases h

/-- Two passes under way in one environment. -/
structure Duo where
  first : Program (Except Error Unit)
  second : Program (Except Error Unit)
  env : Environment

/-- Whose turn it is. -/
inductive Side where
  | first
  | second
deriving DecidableEq, Repr

namespace Duo

/-- One of the passes makes its next call. -/
def turn (d : Duo) : Side → Duo
  | .first =>
      let (first, env) := d.first.advance d.env
      { d with first, env }
  | .second =>
      let (second, env) := d.second.advance d.env
      { d with second, env }

/-- The passes take turns. -/
def play (d : Duo) (schedule : List Side) : Duo :=
  schedule.foldl turn d

/-- The same two passes in the other order. -/
def swap (d : Duo) : Duo :=
  ⟨d.second, d.first, d.env⟩

theorem turn_second (d : Duo) : d.turn .second = (d.swap.turn .first).swap :=
  rfl

end Duo

/-- A pass in its territory, and an environment in which to run it alone. -/
structure Soloist where
  suffix : Nat → String
  key : String
  region : Place → Prop
  solo : Environment

namespace Soloist

/-- The pass from its beginning. -/
def program (a : Soloist) : Program (Except Error Unit) :=
  pass a.suffix a.key

/-- What comes of the pass when it runs alone. -/
def outcome (a : Soloist) : Except Error Unit × Environment :=
  a.program.run Environment.answer a.solo

/-- The pass may begin beside others. -/
structure MayBegin (a : Soloist) (service : Actions.Service) (s : Store) : Prop where
  quiet : Quiet service a.solo
  set : a.region (.sets a.key)
  runners : ∀ set, s.getSet a.key = some set → ∀ name, a.region (.runners (runnerKey a.key name))
  agree : AgreeOn a.region s a.solo.store

/-- What is left of the pass beside others comes to the same, and leaves twins of what it leaves when
it runs alone. -/
def Follows (a : Soloist) (service : Actions.Service) (s : Store)
    (p : Program (Except Error Unit)) : Prop :=
  ∃ env, Quiet service env ∧ p.run Environment.answer env = a.outcome ∧
    Stage a.suffix a.key a.region s env.store p

variable {a : Soloist} {service : Actions.Service} {s : Store} {p : Program (Except Error Unit)}

theorem MayBegin.follows (h : a.MayBegin service s) : a.Follows service s a.program :=
  ⟨a.solo, h.quiet, rfl, .opening h.set h.runners h.agree⟩

/-- What others do outside the territory does not matter. -/
theorem Follows.of_agreeOn (h : a.Follows service s p) {s' : Store} (hs : AgreeOn a.region s s') :
    a.Follows service s' p := by
  obtain ⟨env, hquiet, hrun, hstage⟩ := h
  exact ⟨env, hquiet, hrun, hstage.of_agreeOn hs⟩

/-- A pass goes on beside others as it does alone, and keeps to its territory. -/
theorem Follows.advance {env : Environment} (h : a.Follows service env.store p)
    (hquiet : Quiet service env) :
    Quiet service (p.advance env).2 ∧ a.Follows service (p.advance env).2.store (p.advance env).1 ∧
      ∀ place, ¬ a.region place → (p.advance env).2.store.look place = env.store.look place := by
  cases p with
  | done value => exact ⟨hquiet, h, fun _ _ => rfl⟩
  | call c next =>
      obtain ⟨solo, hsolo, hrun, hstage⟩ := h
      obtain ⟨hanswer, hstore, hquiet'⟩ := hquiet.answer_eq c
      obtain ⟨hanswer', hstore', hsolo'⟩ := hsolo.answer_eq c
      obtain ⟨hwithin, hnext, hstage'⟩ := hstage.step hquiet.reached.keyed hsolo.reached.keyed
        service (env.stamps env.clock) (solo.stamps solo.clock)
      rw [Program.advance_call, hanswer]
      refine ⟨hquiet', ⟨(Environment.answer c solo).2, hsolo', ?_, ?_⟩, fun place hplace => ?_⟩
      · rw [hnext, ← hanswer', ← hrun, run_call]
      · rw [hstore, hstore']
        exact hstage'
      · rw [hstore]
        exact look_of_within hwithin service _ hquiet.reached.sound hplace

/-- A pass that is done has come to the same as alone. -/
theorem Follows.of_result {result : Except Error Unit} (h : a.Follows service s p)
    (hresult : p.result? = some result) :
    a.outcome.1 = result ∧ TwinsOn a.region s a.outcome.2.store := by
  obtain ⟨env, -, hrun, hstage⟩ := h
  rw [eq_done_of_result? hresult, run_done] at hrun
  rw [← hrun]
  exact ⟨rfl, hstage.twinsOn⟩

/-- A pass that runs keeps to its territory. -/
theorem Follows.look_run {env : Environment} (h : a.Follows service env.store p)
    (hquiet : Quiet service env) {place : Place} (hplace : ¬ a.region place) :
    (p.run Environment.answer env).2.store.look place = env.store.look place := by
  induction p generalizing env with
  | done value => rfl
  | call c next ih =>
      obtain ⟨hquiet', hfollows, hlook⟩ := h.advance hquiet
      exact (ih _ hfollows hquiet').trans (hlook place hplace)

/-- A pass that may begin beside others may begin alone. -/
theorem MayBegin.alone (h : a.MayBegin service s) : a.MayBegin service a.solo.store := by
  refine ⟨h.quiet, h.set, fun set hset => h.runners set ?_, fun _ _ => rfl⟩
  exact (getSet_eq_of_look (h.agree _ h.set)).trans hset

/-- A pass that runs alone keeps to its territory. -/
theorem MayBegin.look_outcome (h : a.MayBegin service s) {place : Place}
    (hplace : ¬ a.region place) :
    a.outcome.2.store.look place = a.solo.store.look place :=
  h.alone.follows.look_run h.quiet hplace

end Soloist

/-- Two passes that take turns are each as if they were alone, and change nothing outside their
territories. -/
structure InStep (a b : Soloist) (service : Actions.Service) (base : Store) (d : Duo) : Prop where
  quiet : Quiet service d.env
  first : a.Follows service d.env.store d.first
  second : b.Follows service d.env.store d.second
  outside : ∀ place, ¬ a.region place → ¬ b.region place →
    d.env.store.look place = base.look place

section InStep

variable {a b : Soloist} {service : Actions.Service} {base : Store} {d : Duo}

theorem InStep.swap (h : InStep a b service base d) : InStep b a service base d.swap :=
  ⟨h.quiet, h.second, h.first, fun place hb ha => h.outside place ha hb⟩

theorem InStep.turn_first (h : InStep a b service base d)
    (hdisjoint : ∀ place, a.region place → ¬ b.region place) :
    InStep a b service base (d.turn .first) := by
  obtain ⟨hquiet, hfollows, hlook⟩ := h.first.advance h.quiet
  refine ⟨hquiet, hfollows, ?_, ?_⟩
  · refine h.second.of_agreeOn fun place hplace => (hlook place ?_).symm
    exact fun ha => hdisjoint place ha hplace
  · intro place ha hb
    exact (hlook place ha).trans (h.outside place ha hb)

/-- A turn of either pass keeps both in step. -/
theorem InStep.turn (h : InStep a b service base d)
    (hdisjoint : ∀ place, a.region place → ¬ b.region place) (side : Side) :
    InStep a b service base (d.turn side) := by
  cases side with
  | first => exact h.turn_first hdisjoint
  | second =>
      rw [Duo.turn_second]
      exact (h.swap.turn_first fun place hb ha => hdisjoint place ha hb).swap

/-- Both passes stay in step, in whatever order they take turns. -/
theorem InStep.play (h : InStep a b service base d)
    (hdisjoint : ∀ place, a.region place → ¬ b.region place) (schedule : List Side) :
    InStep a b service base (d.play schedule) := by
  induction schedule generalizing d with
  | nil => exact h
  | cons side rest ih => exact ih (h.turn hdisjoint side)

/-- Passes that were in step to their ends leave twins of what they leave one after the other. -/
theorem InStep.twinAt (h : InStep a b service base d) {result result' : Except Error Unit}
    (hfirst : d.first.result? = some result) (hsecond : d.second.result? = some result')
    (ha : a.MayBegin service base) (hb : b.MayBegin service base) (hbase : a.solo.store = base)
    (hserial : b.solo = a.outcome.2) (place : Place) :
    TwinAt d.env.store b.outcome.2.store place := by
  have hlast : ¬ b.region place → b.outcome.2.store.look place = a.outcome.2.store.look place := by
    intro hplace
    rw [hb.look_outcome hplace, hserial]
  by_cases hregion : b.region place
  · exact (h.second.of_result hsecond).2 place hregion
  · by_cases hregion' : a.region place
    · exact ((h.first.of_result hfirst).2 place hregion').of_look rfl (hlast hregion)
    · -- neither pass has come here
      have hkept := ha.look_outcome hregion'
      rw [hbase] at hkept
      refine (TwinAt.refl base place).of_look (h.outside place hregion' hregion) ?_
      exact (hlast hregion).trans hkept

end InStep

/-! ## Passes over different sets -/

/-- What comes of a pass over one set, and then of a pass over another one: both results, and the
store after them. -/
def inTurn (suffix : Nat → String) (key : String) (suffix' : Nat → String) (key' : String)
    (env : Environment) : Except Error Unit × Except Error Unit × Store :=
  let (result, env) := (pass suffix key).run Environment.answer env
  let (result', env) := (pass suffix' key').run Environment.answer env
  (result, result', env.store)

/-- The results are those of two passes in turn, and the store is a twin of what they leave. -/
def EndsAs (outcome : Except Error Unit × Except Error Unit × Store)
    (result result' : Except Error Unit) (after : Store) : Prop :=
  outcome.1 = result ∧ outcome.2.1 = result' ∧ ∀ place, TwinAt after outcome.2.2 place

/-- A pass in the territory that it has in a store. -/
def Soloist.over (s : Store) (suffix : Nat → String) (key : String) (solo : Environment) :
    Soloist :=
  ⟨suffix, key, territory s key, solo⟩

section Serial

variable {service : Actions.Service} {base : Store} {start : Environment} {k k' : String}

/-- Two passes over different sets may begin beside each other; the second one is compared with a run
after the first one. -/
theorem mayBegin_over (suffix suffix' : Nat → String) (hstart : Quiet service start)
    (hstore : start.store = base)
    (hdisjoint : ∀ place, territory base k place → ¬ territory base k' place) :
    (Soloist.over base suffix k start).MayBegin service base ∧
      (Soloist.over base suffix' k' (Soloist.over base suffix k start).outcome.2).MayBegin
        service base := by
  have hstored : ∀ (key : String) (set : RunnerSet), base.getSet key = some set →
      ∀ name, territory base key (.runners (runnerKey key name)) :=
    fun key set hset name => ⟨⟨set, hset⟩, name, rfl⟩
  have hfirst : (Soloist.over base suffix k start).MayBegin service base :=
    ⟨hstart, rfl, hstored k, fun _ _ => hstore ▸ rfl⟩
  refine ⟨hfirst, hstart.run _, rfl, hstored k', fun place hplace => ?_⟩
  have hkept := hfirst.look_outcome fun hplace' => hdisjoint place hplace' hplace
  rw [show (Soloist.over base suffix k start).solo.store = base from hstore] at hkept
  exact hkept.symm

/-- Two passes over different sets that take turns to their ends do as one after the other. -/
theorem endsAs_of_play {env : Environment} (hquiet : Quiet service env)
    (hvalid : ValidNames env.store) (hne : k ≠ k') (suffix suffix' : Nat → String)
    {schedule : List Side} {result result' : Except Error Unit} {d : Duo}
    (hplayed : d = Duo.play ⟨pass suffix k, pass suffix' k', env⟩ schedule)
    (hfirst : d.first.result? = some result) (hsecond : d.second.result? = some result')
    (hstart : Quiet service start) (hstore : start.store = env.store) :
    EndsAs (inTurn suffix k suffix' k' start) result result' d.env.store := by
  have hdisjoint : ∀ place, territory env.store k place → ¬ territory env.store k' place :=
    fun place => territory_disjoint hvalid hquiet.reached.keyed hne
  obtain ⟨ha, hb⟩ := mayBegin_over suffix suffix' hstart hstore hdisjoint
  have hbegin : InStep _ _ service env.store ⟨pass suffix k, pass suffix' k', env⟩ :=
    ⟨hquiet, ha.follows, hb.follows, fun _ _ _ => rfl⟩
  have hended := hbegin.play hdisjoint schedule
  rw [← hplayed] at hended
  exact ⟨(hended.first.of_result hfirst).1, (hended.second.of_result hsecond).1,
    hended.twinAt hfirst hsecond ha hb hstore rfl⟩

end Serial

/-- The turns of the other pass. -/
def Side.other : Side → Side
  | .first => .second
  | .second => .first

/-- Passes that change places, and take each other's turns, do the same. -/
theorem Duo.swap_play (d : Duo) (schedule : List Side) :
    (d.play schedule).swap = d.swap.play (schedule.map Side.other) := by
  induction schedule generalizing d with
  | nil => rfl
  | cons side rest ih =>
      have hturn : (d.turn side).swap = d.swap.turn side.other := by cases side <;> rfl
      exact (ih (d.turn side)).trans (congrArg (Duo.play · (rest.map Side.other)) hturn)

/-- Passes over two different sets do not interfere.  In a store that operations led to, and in which
all sets have valid names, and without faults, let the calls of both passes be made in any order until
both are done.  Then both come to the same results, and leave the same but for generated identifiers
and times, as when one pass is made after the other, in either order, and whatever identifiers and
times are generated then. -/
theorem passes_do_not_interfere {env : Environment} (hreached : env.store.Reachable)
    (hvalid : ValidNames env.store) (hfaults : env.faults = []) {k k' : String} (hne : k ≠ k')
    (suffix suffix' : Nat → String) {schedule : List Side} {result result' : Except Error Unit}
    {d : Duo} (hplayed : d = Duo.play ⟨pass suffix k, pass suffix' k', env⟩ schedule)
    (hfirst : d.first.result? = some result) (hsecond : d.second.result? = some result')
    {start : Environment} (hstore : start.store = env.store) (hservice : start.service = env.service)
    (hstart : start.faults = []) :
    EndsAs (inTurn suffix k suffix' k' start) result result' d.env.store ∧
      EndsAs (inTurn suffix' k' suffix k start) result' result d.env.store := by
  have hquiet : Quiet env.service env := ⟨rfl, hfaults, hreached⟩
  have hstart : Quiet env.service start := ⟨hservice, hstart, hstore ▸ hreached⟩
  constructor
  · exact endsAs_of_play hquiet hvalid hne suffix suffix' hplayed hfirst hsecond hstart hstore
  · have hswapped := (congrArg Duo.swap hplayed).trans (Duo.swap_play _ schedule)
    exact endsAs_of_play (d := d.swap) hquiet hvalid hne.symm suffix' suffix hswapped hsecond hfirst
      hstart hstore

/-- An environment with a set that asks for runners, and one that is being removed and has an idle
runner. -/
def neighbours : Environment where
  store := ofOperations
    [.createSet (RunnerSet.create "ns" "new" { image := "image" }),
      .setSetFinalizers "ns/new" [RunnerSet.finalizer],
      .patchSpec "ns/new" 2 5,
      .createSet (RunnerSet.create "ns" "old" { image := "image" }),
      .setSetFinalizers "ns/old" [RunnerSet.finalizer],
      .createRunner (newRunner (RunnerSet.create "ns" "old" { image := "image" }) "a"),
      .updateRunnerStatus "ns/old" "old-runner-a" { phase := .running, runnerId := 7 },
      .deleteSet "ns/old"]
  service := fun _ => .ok ()
  stamps := fun n => { Stamp.sample with uid := toString n }

/-- In this environment two passes that take turns do as one after the other, at other times. -/
theorem neighbours_do_not_interfere :
    let d := Duo.play ⟨pass toString "ns/new", pass toString "ns/old", neighbours⟩
      [.first, .second, .second, .first, .first, .second, .first, .second, .first, .first]
    let start := { neighbours with stamps := fun _ => Stamp.sample }
    d.env.store.runners.keys = ["ns/new:new-runner-0", "ns/new:new-runner-1"] ∧
      EndsAs (inTurn toString "ns/new" toString "ns/old" start) (.ok ()) (.ok ()) d.env.store ∧
      EndsAs (inTurn toString "ns/old" toString "ns/new" start) (.ok ()) (.ok ()) d.env.store := by
  have hvalid : ValidNames neighbours.store := by
    intro key set hset
    have hall : ∀ entry ∈ neighbours.store.sets.entries,
        isValidName entry.2.metadata.namespaceName = true ∧
          isValidName entry.2.metadata.name = true := by
      decide +kernel
    exact hall (key, set) (KeyMap.mem_entries_iff_get?.2 hset)
  have hok : ∀ p : Program (Except Error Unit), p.result?.any Except.isOk = true →
      p.result? = some (.ok ()) := by
    intro p hp
    obtain ⟨_ | _, hresult, hok⟩ := (Option.any_eq_true _ _).1 hp
    · cases hok
    · exact hresult
  refine ⟨by decide +kernel, ?_⟩
  exact passes_do_not_interfere (reachable_ofOperations _) hvalid rfl (by decide) toString toString
    rfl (hok _ (by decide +kernel)) (hok _ (by decide +kernel)) rfl rfl rfl

end Reconcile
end RunnerFleet
