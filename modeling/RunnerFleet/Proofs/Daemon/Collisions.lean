import RunnerFleet.Proofs.Daemon.Origins

/-!
# How a decision is mistaken for another

A listener that has decided nothing yet gives its first decision the id zero, as the listener of
every lifetime before has done.  So a runner that was created for the first decision of one lifetime
bears the id of the first decision of any later one.

Main results:

- `holds`, `creates`: what the first two passes over a new set do.
- `collision_result`: the first decision of a lifetime, as it is taken for that of an earlier one.
-/

namespace RunnerFleet
namespace Daemon

open Reconcile Store

namespace Lives

variable {plan : Plan} {l : Lives} {set : RunnerSet}

/-- No pass is in progress, and the set is stored and not being removed. -/
structure Rests (plan : Plan) (l : Lives) (set : RunnerSet) : Prop where
  pass : l.pass = none
  stored : l.store.getSet plan.key = some set
  live : set.metadata.isDeleting = false

/-- The runners and the notes about them are as before. -/
structure Keeps (l l' : Lives) : Prop where
  runners : l'.store.runners = l.store.runners
  origins : l'.origins = l.origins

/-- There is one runner, which bears the id zero and was created for this decision. -/
structure Bears (plan : Plan) (l : Lives) (r : Runner) (o : Origin) : Prop where
  owner : r.ownerKey = some plan.key
  patchId : r.patchId = some 0
  only : ∀ k, l.store.runners.get? k = if k = runnerKey plan.key r.name then some r else none
  origin : l.origins.get? (runnerKey plan.key r.name) = some o

theorem Bears.keeps {l' : Lives} {r : Runner} {o : Origin} (h : Bears plan l r o)
    (hkeeps : Keeps l l') : Bears plan l' r o where
  owner := h.owner
  patchId := h.patchId
  only k := (congrArg (KeyMap.get? · k) hkeeps.runners).trans (h.only k)
  origin := (congrArg (KeyMap.get? · _) hkeeps.origins).trans h.origin

/-! ## Restarts -/

/-- Nothing has happened yet in this lifetime. -/
def started (plan : Plan) (l : Lives) (lifetime : Nat) : Lives :=
  { l with lifetime, listener := { bounds := plan.bounds lifetime }, pass := none }

/-- A daemon that finds its set starts with it. -/
theorem restart_eq (hset : l.store.getSet plan.key = some set) (stamp : Stamp) :
    l.step plan (.restart stamp) = l.started plan (l.lifetime + 1) := by
  rw [step, launch, hset]
  rfl

/-- One daemon after the other finds the set, and does nothing. -/
theorem restarts_eq (hset : l.store.getSet plan.key = some set) (stamp : Stamp) (n k : Nat) :
    (List.replicate k (.restart stamp)).foldl (step plan) (l.started plan n) =
      l.started plan (n + k) := by
  induction k generalizing n with
  | zero => rfl
  | succ k ih =>
      have hnext : (l.started plan n).step plan (.restart stamp) = l.started plan (n + 1) :=
        restart_eq (l := l.started plan n) hset stamp
      rw [List.replicate_succ, List.foldl_cons, hnext, ih]
      congr 1
      omega

/-! ## Decisions -/

/-- The first decision of a lifetime has the id zero. -/
theorem decides (h : Rests plan l set) (stamp : Stamp) (lifetime acquired : Nat) :
    ∃ set' l', (l.started plan lifetime).step plan (.batch stamp { acquired } none) = l' ∧
      Rests plan l' set' ∧ Keeps l l' ∧
      l'.current = ⟨lifetime, ⟨(plan.bounds lifetime).target acquired, 0⟩⟩ ∧
      l'.lifetime = lifetime ∧
      set'.spec.replicas = (plan.bounds lifetime).target acquired ∧ set'.spec.patchId = 0 ∧
      set'.metadata.finalizers = set.metadata.finalizers := by
  obtain ⟨new, hok⟩ := patchSpec_ok h.stored h.live stamp
    ((plan.bounds lifetime).target acquired) 0
  obtain ⟨set', hset', hlive', hspec⟩ :=
    spec_of_patchSpec stamp plan.key h.live ((plan.bounds lifetime).target acquired) 0
  refine ⟨set', _, takeBatch_written plan (l.started plan lifetime) stamp { acquired } nofun hok,
    ⟨rfl, ?_, hlive'⟩, ⟨?_, rfl⟩, rfl, rfl, hspec⟩
  · rw [← hset', ← h.stored]
    exact getSet_perform l.store stamp _ plan.key
  · change (l.store.perform stamp (.patchSpec plan.key _ _)).store.runners = l.store.runners
    rw [perform, present_store, settleSets_store]

/-! ## Passes -/

section Passes

/-- A pass begins. -/
theorem begin_eq (hpass : l.pass = none) (suffix : Nat → String) :
    l.step plan (.begin suffix) =
      { l with pass := some { program := Reconcile.pass suffix plan.key } } := by
  rw [step, hpass]

/-- The next call of a pass is answered. -/
theorem serve_eq (plan : Plan) (l : Lives) {c : Call}
    {next : c.Answer → Program (Except Reconcile.Error Unit)} {read : Option Origin}
    (hpass : l.pass = some ⟨.call c next, read⟩) (service : Actions.Service) (stamp : Stamp)
    {answer : c.Answer}
    (hanswer : (c.perform service stamp l.store).answer = answer) :
    l.step plan (.serve service stamp) =
      { l with
        store := (c.perform service stamp l.store).store
        pass := Progress.remaining ⟨next answer, noteRead l.current read ⟨c, answer⟩⟩
        origins := noteCreated plan.key read l.origins ⟨c, answer⟩ } := by
  subst hanswer
  rw [step, advance, hpass]
  rfl

variable (suffix : Nat → String) (service : Actions.Service) (stamp : Stamp)

/-- A pass reads its set. -/
theorem reads (h : Rests plan l set)
    {next : (Call.getSet plan.key).Answer → Program (Except Reconcile.Error Unit)}
    (hprogram : Reconcile.pass suffix plan.key = .call (.getSet plan.key) next) {c : Call}
    {rest : c.Answer → Program (Except Reconcile.Error Unit)}
    (hrest : next (.ok (some set)) = .call c rest) :
    (l.step plan (.begin suffix)).step plan (.serve service stamp) =
      { l with
        pass := some ⟨.call c rest,
          some ⟨l.current.lifetime, ⟨set.spec.replicas, set.spec.patchId⟩⟩⟩ } := by
  have hread : ((Call.getSet plan.key).perform service stamp l.store).answer = .ok (some set) :=
    congrArg Except.ok h.stored
  have hserve := serve_eq plan { l with pass := some ⟨.call (.getSet plan.key) next, none⟩ } rfl
    service stamp hread
  rw [begin_eq h.pass, hprogram, hserve, hrest]
  rfl

/-- The first pass over a set holds it. -/
theorem holds (h : Rests plan l set) (hunheld : set.hasFinalizer = false) :
    ∃ set' l',
      [.begin suffix, .serve service stamp, .serve service stamp].foldl (step plan) l = l' ∧
      Rests plan l' set' ∧ Keeps l l' ∧ l'.current = l.current ∧ l'.lifetime = l.lifetime ∧
      set'.spec = set.spec ∧ set'.hasFinalizer = true := by
  obtain ⟨next, hprogram, -, -, hopens, -⟩ := pass_opens suffix plan.key
  obtain ⟨set', hset', hlive', hspec, hfinalizers⟩ :=
    spec_of_setFinalizers stamp plan.key h.live (withFinalizer set.metadata)
  have hheld : set'.hasFinalizer = true := by
    rw [RunnerSet.hasFinalizer, Metadata.hasFinalizer, hfinalizers]
    exact List.contains_iff_mem.2 (mem_withFinalizer.2 (Or.inr rfl))
  simp only [List.foldl_cons, List.foldl_nil]
  rw [reads suffix service stamp h hprogram (hopens set hunheld h.live),
    serve_eq plan { l with pass := some _ } rfl service stamp rfl]
  refine ⟨set', _, rfl, ⟨rfl, ?_, hlive'⟩, ⟨?_, rfl⟩, rfl, rfl, hspec, hheld⟩
  · rw [← hset', ← h.stored]
    exact getSet_perform l.store stamp _ plan.key
  · change (l.store.perform stamp (.setSetFinalizers plan.key _)).store.runners = l.store.runners
    rw [perform, settleSets_store]

/-- A pass that finds no runners is about to create one. -/
theorem lists {rest : (Call.listRunners plan.key).Answer → Program (Except Reconcile.Error Unit)}
    {read : Option Origin} {r : Runner}
    {rest' : (Call.createRunner r).Answer → Program (Except Reconcile.Error Unit)}
    (hrest : rest (.ok []) = .call (.createRunner r) rest') (hnone : l.store.runners = .empty) :
    ({ l with pass := some ⟨.call (.listRunners plan.key) rest, read⟩ } : Lives).step plan
        (.serve service stamp) =
      { l with pass := some ⟨.call (.createRunner r) rest', read⟩ } := by
  have hlist : ((Call.listRunners plan.key).perform service stamp l.store).answer = .ok [] := by
    change Except.ok (l.store.runnersOf plan.key) = _
    rw [runnersOf, hnone]
    rfl
  rw [serve_eq plan { l with pass := some _ } rfl service stamp hlist, hrest]
  rfl

/-- The next pass creates a runner; it is cut off then. -/
theorem creates (h : Rests plan l set) (hheld : set.hasFinalizer = true)
    (hwanted : 0 < set.spec.replicas) (hzero : set.spec.patchId = 0) (hkey : set.key = plan.key)
    (hnone : l.store.runners = .empty) :
    ∃ r l',
      [.begin suffix, .serve service stamp, .serve service stamp, .serve service stamp,
        .abandon].foldl (step plan) l = l' ∧
      Rests plan l' set ∧ l'.lifetime = l.lifetime ∧
      Bears plan l' r ⟨l.current.lifetime, ⟨set.spec.replicas, 0⟩⟩ := by
  obtain ⟨next, hprogram, -, -, -, hopens⟩ := pass_opens suffix plan.key
  obtain ⟨rest, hrest, hlisted⟩ := hopens set hheld
  obtain ⟨rest', hrest'⟩ := proceed_nil suffix h.live hwanted
  have hlists := (hlisted []).trans hrest'
  have hcreate := answer_createRunner service stamp (s := l.store)
    (newRunner_ownerKey set (suffix 0)) (by rw [hnone]; rfl)
  simp only [List.foldl_cons, List.foldl_nil]
  rw [reads suffix service stamp h hprogram hrest, lists service stamp hlists hnone,
    serve_eq plan { l with pass := some _ } rfl service stamp hcreate]
  refine ⟨created stamp (newRunner set (suffix 0)), _, rfl, ⟨rfl, ?_, h.live⟩, rfl, ?_, ?_, ?_, ?_⟩
  · exact (getSet_perform l.store stamp (.createRunner _) plan.key).trans h.stored
  · exact congrArg some hkey
  · refine (patchId_newRunner set (suffix 0)).trans ?_
    rw [hzero]
    rfl
  · intro k
    refine (getRunner_perform l.store stamp (.createRunner _) k).trans ?_
    rw [hnone, Operation.onRunner, newRunner_ownerKey, hkey]
    simp only [Option.map_some, Option.some.injEq, eq_comm]
    rfl
  · rw [← hzero]
    exact (KeyMap.get?_insert _ _ _ _).trans (if_pos rfl)

end Passes

/-! ## A collision -/

/-- After some restarts, a runner is created for the first decision of a lifetime. -/
def firstActedOn (suffix : Nat → String) (service : Actions.Service) (stamp : Stamp)
    (lifetime acquired : Nat) : List Event :=
  List.replicate lifetime (.restart stamp) ++
    (.batch stamp { acquired } none ::
      ([.begin suffix, .serve service stamp, .serve service stamp] ++
        [.begin suffix, .serve service stamp, .serve service stamp, .serve service stamp,
          .abandon]))

/-- A runner is created for the first decision of a lifetime; the first decision of a later one
follows. -/
def collision (suffix : Nat → String) (service : Actions.Service) (stamp : Stamp)
    (earlier between acquired acquired' : Nat) : List Event :=
  firstActedOn suffix service stamp earlier acquired ++
    (.restart stamp :: (List.replicate between (.restart stamp) ++
      [.batch stamp { acquired := acquired' } none]))

variable (plan) (suffix : Nat → String) (service : Actions.Service) (stamp : Stamp)

/-- The runner for the first decision of a lifetime bears the id zero. -/
theorem firstActedOn_result (lifetime acquired : Nat)
    (hwanted : 0 < (plan.bounds lifetime).target acquired) :
    ∃ set r l,
      run plan stamp (firstActedOn suffix service stamp lifetime acquired) = l ∧
      Rests plan l set ∧ l.lifetime = lifetime ∧
      Bears plan l r ⟨lifetime, ⟨(plan.bounds lifetime).target acquired, 0⟩⟩ := by
  have hfirst : first plan stamp = (first plan stamp).started plan 0 := rfl
  have hset₀ := first_getSet plan stamp
  have hstart := restarts_eq hset₀ stamp 0 lifetime
  rw [← hfirst, Nat.zero_add] at hstart
  -- The decision.
  obtain ⟨set₁, l₁, hdecides, hrests₁, hkeeps₁, hcurrent₁, hlifetime₁, hreplicas, hid,
    hfinalizers⟩ := decides ⟨rfl, hset₀, rfl⟩ stamp lifetime acquired
  have hsound₁ : Sound plan l₁ := by
    have h := (sound_first plan stamp).steps (List.replicate lifetime (.restart stamp))
    rw [hstart] at h
    exact hdecides ▸ h.step _
  have hunheld : set₁.hasFinalizer = false := by
    rw [RunnerSet.hasFinalizer, Metadata.hasFinalizer, hfinalizers]
    rfl
  -- Two passes.
  obtain ⟨set₂, l₂, hholds, hrests₂, hkeeps₂, hcurrent₂, hlifetime₂, hspec, hheld⟩ :=
    holds suffix service stamp hrests₁ hunheld
  have hkey : set₂.key = plan.key := (hholds ▸ hsound₁.steps _).keyed.set hrests₂.stored
  have hnone : l₂.store.runners = .empty := by
    rw [hkeeps₂.runners, hkeeps₁.runners, first_eq, perform, settleSets_store]
  rw [← hspec] at hreplicas hid
  obtain ⟨r, l₃, hcreates, hrests₃, hlifetime₃, hbears⟩ :=
    creates suffix service stamp hrests₂ hheld (hreplicas ▸ hwanted) hid hkey hnone
  rw [hcurrent₂, hcurrent₁, hreplicas] at hbears
  refine ⟨set₂, r, l₃, ?_, hrests₃, hlifetime₃.trans (hlifetime₂.trans hlifetime₁), hbears⟩
  rw [run, firstActedOn, List.foldl_append, hstart, List.foldl_cons, hdecides, List.foldl_append,
    hholds, hcreates]

/-- The runner of the earlier lifetime bears the id of the decision of the later one. -/
theorem collision_result (earlier between acquired acquired' : Nat)
    (hwanted : 0 < (plan.bounds earlier).target acquired) :
    ∃ set r l,
      run plan stamp (collision suffix service stamp earlier between acquired acquired') = l ∧
      Rests plan l set ∧ set.spec.patchId = 0 ∧
      set.spec.replicas = (plan.bounds (earlier + 1 + between)).target acquired' ∧
      Bears plan l r ⟨earlier, ⟨(plan.bounds earlier).target acquired, 0⟩⟩ := by
  obtain ⟨set, r, l, hrun, hrests, hlifetime, hbears⟩ :=
    firstActedOn_result plan suffix service stamp earlier acquired hwanted
  have hrestart := restart_eq hrests.stored stamp
  rw [hlifetime] at hrestart
  have hrestarts := restarts_eq hrests.stored stamp (earlier + 1) between
  obtain ⟨set', l', hdecides, hrests', hkeeps, -, -, hreplicas, hid, -⟩ :=
    decides hrests stamp (earlier + 1 + between) acquired'
  refine ⟨set', r, l', ?_, hrests', hid, hreplicas, hbears.keeps hkeeps⟩
  rw [run] at hrun ⊢
  rw [collision, List.foldl_append, hrun, List.foldl_cons, hrestart, List.foldl_append, hrestarts,
    List.foldl_cons, hdecides, List.foldl_nil]

end Lives
end Daemon
end RunnerFleet
