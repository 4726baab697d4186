import RunnerFleet.Proofs.Reconcile.Answers
import RunnerFleet.Proofs.Reconcile.Calls
import RunnerFleet.Proofs.Store.Census
import RunnerFleet.Proofs.Store.Spec

/-!
# Passes that nothing disturbs

What the steps of a pass do when nobody else writes to the store, every call to it goes well, and the
Actions service answers the removal of a registration always in the same way.  A runner is standing
while its removal was not requested; steps that delete runners are described by the names of the
standing ones that they take away.

Main results:

- `sheds_deleteRunner`, `Sheds.liveCount`: what the deletion of runners does to the standing ones.
- `Meets.run_steady`: what a program does in a run that nothing disturbs.
- `meets_cleanup_steady`, `meets_reclaim_steady`, `meets_createRunners_steady`: what the steps of a
  pass do.
- `meets_reclaim_quiet`: if the service refuses, nothing is reclaimed.
-/

namespace RunnerFleet

namespace Store

/-! ## Standing runners -/

/-- Of the standing runners of a set, those with these names are taken away. -/
structure Sheds (key : String) (names : List String) (s after : Store) : Prop where
  keyed : after.Keyed
  getSet : ∀ k, after.getSet k = s.getSet k
  standing : ∀ {r : Runner}, r.isDeleting = false →
    (r ∈ after.runnersOf key ↔ r ∈ s.runnersOf key ∧ r.name ∉ names)

section Sheds

variable {key : String} {names : List String} {s middle after : Store}

theorem Sheds.refl (h : s.Keyed) (key : String) : Sheds key [] s s :=
  ⟨h, fun _ => rfl, fun _ => by simp⟩

theorem Sheds.trans {names' : List String} (h : Sheds key names s middle)
    (h' : Sheds key names' middle after) : Sheds key (names ++ names') s after where
  keyed := h'.keyed
  getSet k := (h'.getSet k).trans (h.getSet k)
  standing hstanding := by
    rw [h'.standing hstanding, h.standing hstanding, List.mem_append, not_or, and_assoc]

/-- The deletion of a runner takes away this one. -/
theorem sheds_deleteRunner (h : s.Keyed) (key name : String) (stamp : Stamp) :
    Sheds key [name] s (s.perform stamp (.deleteRunner key name)).store := by
  have h' := h.perform stamp (.deleteRunner key name)
  refine ⟨h', fun k => getSet_perform s stamp _ k, fun {r} hstanding => ?_⟩
  rw [h'.mem_runnersOf, h.mem_runnersOf, getRunner_perform, List.mem_singleton, and_assoc]
  refine and_congr Iff.rfl ?_
  simp only [Operation.onRunner]
  by_cases hname : r.name = name
  · rw [hname, if_pos rfl]
    refine ⟨fun hleft => ?_, fun hright => absurd rfl hright.2⟩
    obtain ⟨old, -, hremoved⟩ := Option.bind_eq_some_iff.1 hleft
    simp only [removed?] at hremoved
    split at hremoved
    · cases hremoved
    · split at hremoved <;> injection hremoved with hremoved
      · rename_i hdeleting
        rw [← hremoved] at hstanding
        exact absurd hdeleting (Bool.eq_false_iff.1 hstanding)
      · rw [← hremoved] at hstanding
        cases hstanding
  · have hkey : runnerKey key r.name ≠ runnerKey key name := fun heq => hname (runnerKey_inj heq)
    rw [if_neg hkey]
    exact ⟨fun hget => ⟨hget, hname⟩, And.left⟩

/-- Live runners that are taken away are off the count. -/
theorem Sheds.liveCount (h : Sheds key names s after) (hs : s.Keyed) (hnodup : names.Nodup)
    (hlive : names ⊆ s.liveNames key) :
    after.liveCount key + names.length = s.liveCount key := by
  have hafter : ∀ name, name ∈ after.liveNames key ↔ name ∈ s.liveNames key ∧ name ∉ names := by
    intro name
    simp only [liveNames, List.mem_map, List.mem_filter, decide_eq_true_iff]
    constructor
    · rintro ⟨r, ⟨hr, hlive⟩, rfl⟩
      obtain ⟨hr, hname⟩ := (h.standing hlive.1).1 hr
      exact ⟨⟨r, ⟨hr, hlive⟩, rfl⟩, hname⟩
    · rintro ⟨⟨r, ⟨hr, hlive⟩, rfl⟩, hname⟩
      exact ⟨r, ⟨(h.standing hlive.1).2 ⟨hr, hname⟩, hlive⟩, rfl⟩
  have hperm : (names ++ after.liveNames key).Perm (s.liveNames key) := by
    refine (List.perm_ext_iff_of_nodup ?_ (hs.liveNames_nodup key)).2 fun name => ?_
    · refine List.nodup_append.2 ⟨hnodup, h.keyed.liveNames_nodup key, ?_⟩
      rintro a ha _ hb rfl
      exact ((hafter a).1 hb).2 ha
    · rw [List.mem_append, hafter]
      by_cases hname : name ∈ names
      · simp [hname, hlive hname]
      · simp [hname]
  have hlength := hperm.length_eq
  rw [List.length_append, length_liveNames, length_liveNames] at hlength
  omega

end Sheds

/-- A runner that is there after the creation of one was there before, or is up. -/
theorem mem_runnersOf_createRunner {s : Store} (h : s.Keyed) {r new : Runner} (hup : new.IsUp)
    {stamp : Stamp} {key : String}
    (hr : r ∈ (s.perform stamp (.createRunner new)).store.runnersOf key) :
    r ∈ s.runnersOf key ∨ r.IsUp := by
  obtain ⟨howner, hget⟩ := (h.perform stamp _).mem_runnersOf.1 hr
  rw [getRunner_perform] at hget
  simp only [Operation.onRunner] at hget
  split at hget
  · cases hold : s.runners.get? (runnerKey key r.name) with
    | none =>
        right
        rw [hold] at hget
        rw [← Option.some.inj hget]
        exact hup
    | some old =>
        left
        rw [hold] at hget
        exact h.mem_runnersOf.2 ⟨howner, hold.trans hget⟩
  · exact Or.inl (h.mem_runnersOf.2 ⟨howner, hget⟩)

end Store

namespace Reconcile

open Program Store

/-! ## The setting -/

/-- Whether the call went well, if it went to the store. -/
def Exchange.accepted : Exchange → Bool
  | ⟨.deregister _, _⟩ => true
  | e => e.succeeded

/-- The Actions service has answered as it always does. -/
def Exchange.Agrees (service : Actions.Service) : Exchange → Prop
  | ⟨.deregister runnerId, answer⟩ => answer = service runnerId
  | _ => True

/-- Whether a call is a write to the store. -/
def Call.isWrite : Call → Bool
  | .getSet _ | .listRunners _ | .deregister _ => false
  | .createRunner _ | .deleteRunner _ _ | .updateStatus _ _ | .setFinalizers _ _ => true

/-- The setting of a pass that is alone with the store, whose calls to the store go well, and for
which the Actions service answers in a fixed way; some calls may be forbidden. -/
def steady (service : Actions.Service) (permitted : Call → Prop) : Setting Store where
  permits c _ := permitted c
  answers c s answer after := c.Answered s answer after ∧
    Exchange.accepted ⟨c, answer⟩ = true ∧ Exchange.Agrees service ⟨c, answer⟩

/-- All calls. -/
def anyCall (_ : Call) : Prop :=
  True

/-- The calls that do not write to the store. -/
def readsOnly (c : Call) : Prop :=
  c.isWrite = false

/-- Where some calls are forbidden, a program does what it does where none are. -/
theorem Meets.anyCall {α : Type} {service : Actions.Service} {permitted : Call → Prop}
    {post : α → Store → Prop} {p : Program α} {s : Store}
    (h : p.Meets (steady service permitted) post s) : p.Meets (steady service anyCall) post s := by
  induction p generalizing s with
  | done value => exact h
  | call c next ih => exact ⟨trivial, fun answer after hanswer => ih answer (h.2 answer after hanswer)⟩

section Answers

variable {service : Actions.Service} {permitted : Call → Prop} {s after : Store}

theorem getSet_of_steady {key : String} {answer : Except Store.Error (Option RunnerSet)}
    (h : (steady service permitted).answers (.getSet key) s answer after) :
    answer = .ok (s.getSet key) ∧ after = s := by
  obtain ⟨hanswered, haccepted, -⟩ := h
  cases answer with
  | error e => cases haccepted
  | ok found =>
      obtain ⟨rfl, rfl⟩ := hanswered.getSet
      exact ⟨rfl, rfl⟩

theorem listRunners_of_steady {key : String} {answer : Except Store.Error (List Runner)}
    (h : (steady service permitted).answers (.listRunners key) s answer after) :
    answer = .ok (s.runnersOf key) ∧ after = s := by
  obtain ⟨hanswered, haccepted, -⟩ := h
  cases answer with
  | error e => cases haccepted
  | ok found =>
      obtain ⟨rfl, rfl⟩ := hanswered.listRunners
      exact ⟨rfl, rfl⟩

theorem deregister_of_steady {runnerId : Int} {answer : Except Actions.Error Unit}
    (h : (steady service permitted).answers (.deregister runnerId) s answer after) :
    answer = service runnerId ∧ after = s := by
  obtain ⟨hanswered, -, hagrees⟩ := h
  refine ⟨hagrees, ?_⟩
  rcases hanswered.store with rfl | ⟨op, -, hop, -⟩
  · rfl
  · cases hop

/-- A write that goes well is carried out. -/
theorem perform_of_steady {c : Call} {op : Operation} (hop : c.operation? = some op)
    {answer : c.Answer} (h : (steady service permitted).answers c s answer after) :
    ∃ stamp, after = (s.perform stamp op).store := by
  obtain ⟨hanswered, haccepted, -⟩ := h
  rcases hanswered with ⟨service', stamp, -, rfl⟩ | ⟨e, hfail, -⟩
  · refine ⟨stamp, ?_⟩
    rw [perform_store, hop]
  · cases c <;> cases hfail <;> cases haccepted

theorem createRunner_of_steady {r : Runner} {owner : String} (howner : r.ownerKey = some owner)
    {answer : Except Store.Error Runner}
    (h : (steady service permitted).answers (.createRunner r) s answer after) :
    s.runners.get? (runnerKey owner r.name) = none ∧
      ∃ stamp, after = (s.perform stamp (.createRunner r)).store := by
  obtain ⟨hanswered, haccepted, -⟩ := h
  cases answer with
  | error e => cases haccepted
  | ok new => exact hanswered.createRunner howner

end Answers

/-! ## Runs -/

/-- Nothing that happens in an environment changes how the Actions service answers. -/
@[simp]
theorem service_answer (c : Call) (env : Environment) :
    (Environment.answer c env).2.service = env.service := by
  unfold Environment.answer
  split
  · rfl
  · dsimp only
    split <;> rfl

@[simp]
theorem service_run {α : Type} (p : Program α) (env : Environment) :
    (p.run Environment.answer env).2.service = env.service := by
  induction p generalizing env with
  | done value => rfl
  | call c next ih =>
      rw [run_call, ih]
      exact service_answer c env

theorem agrees_exchanges {α : Type} (p : Program α) (env : Environment) :
    ∀ e ∈ p.exchanges Environment.answer env, e.Agrees env.service := by
  induction p generalizing env with
  | done value => exact fun e he => absurd he List.not_mem_nil
  | call c next ih =>
      intro e he
      rcases List.mem_cons.1 he with rfl | he
      · cases c <;> trivial
      · exact service_answer c env ▸ ih _ _ e he

/-- A run whose calls to the store go well makes only permitted calls, and ends as promised. -/
theorem Meets.run_steady {α : Type} {permitted : Call → Prop} {post : α → Store → Prop}
    {p : Program α} {env : Environment} (h : p.Meets (steady env.service permitted) post env.store)
    (haccepted : ∀ e ∈ p.exchanges Environment.answer env, e.accepted = true) :
    (∀ e ∈ p.exchanges Environment.answer env, permitted e.call) ∧
      post (p.run Environment.answer env).1 (p.run Environment.answer env).2.store := by
  have hanswer : ∀ (c : Call) (env' : Environment),
      (Exchange.accepted ⟨c, (Environment.answer c env').1⟩ = true ∧
        Exchange.Agrees env.service ⟨c, (Environment.answer c env').1⟩) →
      (steady env.service permitted).answers c env'.store (Environment.answer c env').1
        (Environment.answer c env').2.store :=
    fun c env' hgood => ⟨answered_answer c env', hgood⟩
  have hgood : ∀ e ∈ p.exchanges Environment.answer env,
      e.accepted = true ∧ e.Agrees env.service :=
    fun e he => ⟨haccepted e he, agrees_exchanges p env e he⟩
  refine ⟨fun e he => ?_, h.of_run Environment.store hanswer hgood⟩
  obtain ⟨_, hpermitted⟩ := h.permits_of_run Environment.store hanswer hgood e he
  exact hpermitted

/-! ## Steps that work -/

section Steps

variable {service : Actions.Service} {key : String} {s : Store}

theorem meets_discard_steady (hs : s.Keyed) (r : Runner) :
    (discard key r).Meets (steady service anyCall)
      (fun result after => result = .ok () ∧ Sheds key [r.name] s after) s := by
  rw [discard, meets_bind]
  refine ⟨trivial, ?_⟩
  intro answer after hanswer
  obtain ⟨stamp, rfl⟩ := perform_of_steady rfl hanswer
  have hsheds := sheds_deleteRunner hs key r.name stamp
  cases answer with
  | error e => cases hanswer.2.1
  | ok _ => exact ⟨rfl, hsheds⟩

/-- Cleaning up takes the runners away, if there are any. -/
theorem meets_cleanup_steady (hs : s.Keyed) (ended : List Runner) :
    (cleanup key ended).Meets (steady service anyCall)
      (fun _ after => Sheds key (ended.map Runner.name) s after ∧ (ended = [] → after = s)) s := by
  induction ended generalizing s with
  | nil => exact ⟨Sheds.refl hs key, fun _ => rfl⟩
  | cons r rest ih =>
      rw [cleanup, meets_bind]
      refine (meets_discard_steady hs r).mono ?_
      rintro result middle ⟨-, hfirst⟩
      rw [meets_bind]
      exact (ih hfirst.keyed).mono fun _ after hrest => ⟨hfirst.trans hrest.1, nofun⟩

/-- The runner is not reclaimed: it is not to be, or the Actions service refuses. -/
def Stays (service : Actions.Service) (r : Runner) : Prop :=
  isReclaimable r = true → ∃ e, service r.status.runnerId = .error e

/-- A runner is taken away, unless the service refuses. -/
theorem meets_retire_steady (hs : s.Keyed) (r : Runner) :
    (retire key r).Meets (steady service anyCall)
      (fun result after =>
        (result = .ok true ∧ Sheds key [r.name] s after) ∨
          (result ≠ .ok true ∧ after = s ∧ Stays service r)) s := by
  rw [retire, meets_bind]
  refine ⟨trivial, ?_⟩
  intro answer after hanswer
  obtain ⟨rfl, rfl⟩ := deregister_of_steady hanswer
  cases hservice : service r.status.runnerId with
  | error e =>
      right
      refine ⟨?_, rfl, fun _ => ⟨e, hservice⟩⟩
      split <;> simp
  | ok _ =>
      change Meets _ _ (_ >>= _) _
      rw [meets_bind]
      refine (meets_discard_steady hs r).mono ?_
      rintro result last ⟨rfl, hsheds⟩
      exact Or.inl ⟨rfl, hsheds⟩

/-- Some runners are taken away: as many as were asked for, or all that do not stay. -/
theorem meets_reclaim_steady {up : List Runner} (hs : s.Keyed) (count : Nat)
    (hnodup : (up.map Runner.name).Nodup) :
    (reclaim key count up).Meets (steady service anyCall)
      (fun _ after => ∃ names, Sheds key names s after ∧ names.Nodup ∧
        names ⊆ up.map Runner.name ∧
        (names.length = count ∨
          names.length < count ∧ ∀ r ∈ up, r.name ∉ names → Stays service r)) s := by
  induction up generalizing s count with
  | nil =>
      have hnone : ∃ names, Sheds key names s s ∧ names.Nodup ∧
          names ⊆ ([] : List Runner).map Runner.name ∧ (names.length = count ∨
            names.length < count ∧ ∀ r ∈ ([] : List Runner), r.name ∉ names → Stays service r) := by
        refine ⟨[], Sheds.refl hs key, List.nodup_nil, List.Subset.refl _, ?_⟩
        rcases Nat.eq_zero_or_pos count with rfl | hpos
        · exact Or.inl rfl
        · exact Or.inr ⟨hpos, fun r hr => absurd hr List.not_mem_nil⟩
      cases count <;> exact hnone
  | cons r rest ih =>
      obtain ⟨hfresh, hrest⟩ := List.nodup_cons.1 hnodup
      cases count with
      | zero =>
          exact ⟨[], Sheds.refl hs key, List.nodup_nil, List.nil_subset _, Or.inl rfl⟩
      | succ count =>
          -- a runner that stays leaves the rest to be looked at, with the same number to take away
          have hstays : Stays service r → (reclaim key (count + 1) rest).Meets
              (steady service anyCall)
              (fun _ after => ∃ names, Sheds key names s after ∧ names.Nodup ∧
                names ⊆ (r :: rest).map Runner.name ∧ (names.length = count + 1 ∨
                  names.length < count + 1 ∧
                    ∀ r' ∈ r :: rest, r'.name ∉ names → Stays service r')) s := by
            intro hr
            refine (ih hs (count + 1) hrest).mono ?_
            rintro _ after ⟨names, hsheds, hnames, hsubset, hdone⟩
            refine ⟨names, hsheds, hnames, List.subset_cons_of_subset _ hsubset, ?_⟩
            refine hdone.imp_right (And.imp_right fun hall => ?_)
            intro r' hr' hname
            rcases List.mem_cons.1 hr' with rfl | hr'
            · exact hr
            · exact hall r' hr' hname
          rw [reclaim]
          split
          · rw [meets_bind]
            refine (meets_retire_steady hs r).mono ?_
            rintro result middle (⟨rfl, hsheds⟩ | ⟨hresult, rfl, hr⟩)
            · change Meets _ _ (_ >>= _) _
              rw [meets_bind]
              refine (ih hsheds.keyed count hrest).mono ?_
              rintro _ after ⟨names, hsheds', hnames, hsubset, hdone⟩
              have hnew : r.name ∉ names := fun hname => hfresh (hsubset hname)
              refine ⟨[r.name] ++ names, hsheds.trans hsheds', List.nodup_cons.2 ⟨hnew, hnames⟩,
                List.cons_subset_cons _ hsubset, ?_⟩
              rcases hdone with hlength | ⟨hlength, hall⟩
              · exact Or.inl (congrArg (· + 1) hlength)
              · refine Or.inr ⟨Nat.succ_lt_succ hlength, ?_⟩
                intro r' hr' hname
                rw [List.singleton_append, List.mem_cons, not_or] at hname
                rcases List.mem_cons.1 hr' with rfl | hr'
                · exact absurd rfl hname.1
                · exact hall r' hr' hname.2
            · rcases result with e | _ | _
              · change Meets _ _ (_ >>= _) _
                rw [meets_bind]
                exact hstays hr
              · exact hstays hr
              · exact absurd rfl hresult
          · rename_i hnot
            exact hstays fun hreclaimable => absurd hreclaimable hnot

/-- Every runner is created, and is up. -/
theorem meets_createRunners_steady {set : RunnerSet} (hs : s.Keyed) (suffixes : List String) :
    (createRunners set suffixes).Meets (steady service anyCall)
      (fun _ after => after.Keyed ∧ (∀ k, after.getSet k = s.getSet k) ∧
        after.liveCount set.key = s.liveCount set.key + suffixes.length ∧
        ∀ r ∈ after.runnersOf set.key, r ∈ s.runnersOf set.key ∨ r.IsUp) s := by
  induction suffixes generalizing s with
  | nil => exact ⟨hs, fun _ => rfl, rfl, fun _ => Or.inl⟩
  | cons suffix rest ih =>
      rw [createRunners, meets_bind]
      refine ⟨trivial, ?_⟩
      intro answer after hanswer
      obtain ⟨hnew, stamp, rfl⟩ :=
        createRunner_of_steady (newRunner_ownerKey set suffix) hanswer
      have hup : (newRunner set suffix).IsUp := Or.inl rfl
      have hcount := liveCount_createRunner hs (newRunner_ownerKey set suffix) hup hnew stamp
      change Meets _ _ (_ >>= _) _
      rw [meets_bind]
      refine (ih (hs.perform stamp _)).mono ?_
      rintro errors last ⟨hkeyed, hsets, hlast, hrunners⟩
      have hpost : last.Keyed ∧ (∀ k, last.getSet k = s.getSet k) ∧
          last.liveCount set.key = s.liveCount set.key + (suffix :: rest).length ∧
          ∀ r ∈ last.runnersOf set.key, r ∈ s.runnersOf set.key ∨ r.IsUp := by
        refine ⟨hkeyed, fun k => (hsets k).trans (getSet_perform s stamp _ k), ?_, ?_⟩
        · rw [List.length_cons]
          omega
        · intro r hr
          rcases hrunners r hr with hr | hr
          · exact mem_runnersOf_createRunner hs hup hr
          · exact Or.inr hr
      cases answer <;> exact hpost

/-! ## Steps that do nothing -/

/-- Where the service refuses, the runner is left alone. -/
theorem meets_retire_quiet {r : Runner} (hrefused : ∃ e, service r.status.runnerId = .error e) :
    (retire key r).Meets (steady service readsOnly)
      (fun result after => result ≠ .ok true ∧ after = s) s := by
  obtain ⟨e, hrefused⟩ := hrefused
  rw [retire, meets_bind]
  refine ⟨rfl, ?_⟩
  intro answer after hanswer
  obtain ⟨rfl, rfl⟩ := deregister_of_steady hanswer
  rw [hrefused]
  refine ⟨?_, rfl⟩
  split <;> simp

/-- Where all runners stay, none is reclaimed. -/
theorem meets_reclaim_quiet {up : List Runner} (hup : ∀ r ∈ up, Stays service r) (count : Nat) :
    (reclaim key count up).Meets (steady service readsOnly) (fun _ after => after = s) s := by
  induction up generalizing count with
  | nil => cases count <;> exact rfl
  | cons r rest ih =>
      have hrest := ih fun r' hr' => hup r' (List.mem_cons_of_mem _ hr')
      cases count with
      | zero => exact rfl
      | succ count =>
          rw [reclaim]
          split
          · rename_i hreclaimable
            rw [meets_bind]
            refine (meets_retire_quiet (hup r List.mem_cons_self hreclaimable)).mono ?_
            rintro result middle ⟨hresult, rfl⟩
            rcases result with e | _ | _
            · change Meets _ _ (_ >>= _) _
              rw [meets_bind]
              exact (hrest (count + 1)).mono fun _ _ hafter => hafter
            · exact hrest (count + 1)
            · exact absurd rfl hresult
          · exact hrest (count + 1)

end Steps

end Reconcile
end RunnerFleet
