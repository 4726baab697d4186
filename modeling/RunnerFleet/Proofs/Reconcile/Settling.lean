import RunnerFleet.Proofs.Reconcile.Sizing
import RunnerFleet.Proofs.Reconcile.Steady

/-!
# Passes come to rest

When nothing disturbs them, passes over the same set come to rest: from some pass on they write
nothing to the store.  It takes a pass to hold a new set, one to remove the runners that are over,
and one to close the gap that is left then.  A pass that closes a gap may leave runners above the
number that is asked for, but only such as stay; the next one leaves them too.  For a set that is
being removed it takes a pass to remove its runners, and one to release it.

Main results:

- `meets_converge_steady`, `meets_drain_steady`: what one pass achieves.
- `meets_pass_rests`: where everything is at rest, a pass writes nothing.
- `within_three`, `within_two`: how many passes it takes.
- `passes_settle`: from the fourth pass on nothing is written, and for a held set from the third.
-/

namespace RunnerFleet
namespace Reconcile

open Program Store

/-! ## Fleets in order -/

/-- The fleet of a set. -/
def fleetOf (s : Store) (key : String) : Fleet :=
  Fleet.classify (s.runnersOf key)

/-- No standing runner of the set is over. -/
def Tidy (key : String) (s : Store) : Prop :=
  ∀ r ∈ s.runnersOf key, r.isDeleting = false → r.IsUp

section Tidy

variable {key : String} {s after : Store}

theorem cleanupCandidates_of_tidy (h : Tidy key s) : (fleetOf s key).cleanupCandidates = [] := by
  refine List.eq_nil_iff_forall_not_mem.2 fun r hr => ?_
  obtain ⟨hmem, hstanding, hover⟩ := Fleet.mem_cleanupCandidates_iff.1 hr
  exact r.isOver_iff_not_isUp.1 hover (h r hmem hstanding)

/-- In a tidy fleet all runners that count are live. -/
theorem scaleTotal_of_tidy (h : Tidy key s) : (fleetOf s key).scaleTotal = s.liveCount key := by
  have hfailed : ((s.runnersOf key).countP fun r =>
      decide (r.isDeleting = false ∧ r.status.phase = .failed)) = 0 := by
    refine List.countP_eq_zero.2 fun r hr hfailed => ?_
    obtain ⟨hstanding, hphase⟩ := of_decide_eq_true hfailed
    exact r.isOver_iff_not_isUp.1 (Or.inr hphase) (h r hr hstanding)
  rw [fleetOf, Fleet.scaleTotal_classify, hfailed, Nat.add_zero]
  rfl

/-- Where the cleanup candidates are gone, the fleet is tidy. -/
theorem tidy_of_cleanup
    (h : Sheds key ((fleetOf s key).cleanupCandidates.map Runner.name) s after) :
    Tidy key after := by
  intro r hr hstanding
  obtain ⟨hmem, hname⟩ := (h.standing hstanding).1 hr
  refine Decidable.byContradiction fun hnot => hname (List.mem_map_of_mem ?_)
  exact Fleet.mem_cleanupCandidates_iff.2 ⟨hmem, hstanding, r.isOver_iff_not_isUp.2 hnot⟩

theorem tidy_of_sheds {names : List String} (h : Sheds key names s after) (hs : Tidy key s) :
    Tidy key after :=
  fun r hr hstanding => hs r ((h.standing hstanding).1 hr).1 hstanding

/-- The runners that may be reclaimed after some were taken away are those of before that are
left. -/
theorem mem_deletionOrder_of_sheds {names : List String} (h : Sheds key names s after) {r : Runner}
    (hr : r ∈ (fleetOf after key).deletionOrder) :
    r ∈ (fleetOf s key).deletionOrder ∧ r.name ∉ names := by
  obtain ⟨hmem, hstanding, hup⟩ := Fleet.mem_deletionOrder_iff.1 hr
  obtain ⟨hmem, hname⟩ := (h.standing hstanding).1 hmem
  exact ⟨Fleet.mem_deletionOrder_iff.2 ⟨hmem, hstanding, hup⟩, hname⟩

/-- The names of the runners that may be reclaimed are distinct, and live. -/
theorem deletionOrder_names (hs : s.Keyed) (key : String) :
    ((fleetOf s key).deletionOrder.map Runner.name).Nodup ∧
      ((fleetOf s key).deletionOrder.map Runner.name) ⊆ s.liveNames key := by
  have hnodup := Fleet.actedOn_names_nodup (hs.names_nodup key)
  rw [List.map_append, List.nodup_append] at hnodup
  refine ⟨hnodup.2.1, ?_⟩
  intro name hname
  obtain ⟨r, hr, rfl⟩ := List.mem_map.1 hname
  obtain ⟨hmem, hlive⟩ := Fleet.mem_deletionOrder_iff.1 hr
  exact List.mem_map_of_mem (List.mem_filter.2 ⟨hmem, decide_eq_true hlive⟩)

end Tidy

/-- The set is stored, and held, and its removal was not requested; its fleet is tidy, and its counts
are right. -/
structure InOrder (key : String) (set : RunnerSet) (s : Store) : Prop where
  keyed : s.Keyed
  stored : s.getSet key = some set
  held : set.hasFinalizer = true
  live : set.metadata.isDeleting = false
  tidy : Tidy key s
  counted : set.status = (fleetOf s key).status

/-- Nothing is missing; and if runners are spare, all runners stay. -/
def Closed (service : Actions.Service) (key : String) (set : RunnerSet) (s : Store) : Prop :=
  gap set (fleetOf s key) = .nothing ∨
    (∃ count, gap set (fleetOf s key) = .spare count) ∧
      ∀ r ∈ (fleetOf s key).deletionOrder, Stays service r

/-- A gap that is looked at in a tidy fleet. -/
theorem gap_of_tidy {key : String} {s : Store} (h : Tidy key s) (set : RunnerSet) :
    gap set (fleetOf s key) =
      if (fleetOf s key).isAdopted set.spec.patchId then .nothing
      else if s.liveCount key < set.spec.replicas then
        .missing (set.spec.replicas - s.liveCount key)
      else if set.spec.replicas < s.liveCount key then
        .spare (s.liveCount key - set.spec.replicas)
      else .nothing := by
  rw [gap, scaleTotal_of_tidy h]

/-- There is no gap where as many runners are live as are asked for. -/
theorem gap_of_liveCount_eq {key : String} {s : Store} (h : Tidy key s) {set : RunnerSet}
    (hcount : s.liveCount key = set.spec.replicas) : gap set (fleetOf s key) = .nothing := by
  rw [gap_of_tidy h, hcount]
  simp

/-! ## What a pass achieves -/

section Work

variable {service : Actions.Service} {s : Store} {set : RunnerSet}

/-- A pass that acts on a tidy fleet closes its gap, and no pass makes a fleet untidy. -/
theorem meets_closeGap_steady (suffix : Nat → String) (hs : s.Keyed) {runners : List Runner}
    (hnodup : ((Fleet.classify runners).deletionOrder.map Runner.name).Nodup)
    (htidy : Tidy set.key s) :
    (closeGap suffix set (Fleet.classify runners)).Meets (steady service anyCall)
      (fun _ after => after.Keyed ∧ (∀ k, after.getSet k = s.getSet k) ∧ Tidy set.key after ∧
        (s.runnersOf set.key = runners → Closed service set.key set after)) s := by
  rw [closeGap]
  split
  · rename_i hgap
    refine ⟨hs, fun _ => rfl, htidy, ?_⟩
    rintro rfl
    exact Or.inl hgap
  · rename_i count hgap
    refine (meets_createRunners_steady hs _).mono ?_
    rintro _ after ⟨hkeyed, hsets, hcount, hrunners⟩
    have htidy' : Tidy set.key after := by
      intro r hr hstanding
      exact (hrunners r hr).elim (fun hmem => htidy r hmem hstanding) id
    refine ⟨hkeyed, hsets, htidy', ?_⟩
    rintro rfl
    refine Or.inl (gap_of_liveCount_eq htidy' ?_)
    rw [hcount, List.length_map, List.length_range]
    have htotal := scaleTotal_of_tidy htidy
    change gap set (fleetOf s set.key) = _ at hgap
    rw [gap_of_tidy htidy] at hgap
    split at hgap
    · cases hgap
    · split at hgap
      · injection hgap with hgap
        omega
      · split at hgap <;> cases hgap
  · rename_i count hgap
    rw [meets_bind]
    refine (meets_reclaim_steady hs count hnodup).mono ?_
    rintro _ after ⟨names, hsheds, hnames, hsubset, hdone⟩
    have htidy' := tidy_of_sheds hsheds htidy
    refine ⟨hsheds.keyed, hsheds.getSet, htidy', ?_⟩
    rintro rfl
    have hlive := hsheds.liveCount hs hnames
      (List.Subset.trans hsubset (deletionOrder_names hs set.key).2)
    change gap set (fleetOf s set.key) = _ at hgap
    rw [gap_of_tidy htidy] at hgap
    have hcount : count = s.liveCount set.key - set.spec.replicas ∧
        set.spec.replicas < s.liveCount set.key := by
      split at hgap
      · cases hgap
      · split at hgap
        · cases hgap
        · split at hgap
          · rename_i hmany
            injection hgap with hgap
            exact ⟨hgap.symm, hmany⟩
          · cases hgap
    rcases hdone with hlength | ⟨hlength, hall⟩
    · exact Or.inl (gap_of_liveCount_eq htidy' (by omega))
    · -- fewer were taken away than asked for, so that those which are left stay
      rw [Closed, gap_of_tidy htidy']
      by_cases hadopted : (fleetOf after set.key).isAdopted set.spec.patchId = true
      · exact Or.inl (if_pos hadopted)
      · right
        rw [if_neg hadopted, if_neg (by omega), if_pos (by omega)]
        refine ⟨⟨_, rfl⟩, fun r hr => ?_⟩
        obtain ⟨hmem, hname⟩ := mem_deletionOrder_of_sheds hsheds hr
        exact hall r hmem hname

/-- After the counts were written, they are right. -/
theorem meets_writeStatus_steady (hs : s.Keyed) (hset : s.getSet set.key = some set)
    (hheld : set.hasFinalizer = true) (hlive : set.metadata.isDeleting = false)
    (htidy : Tidy set.key s) :
    (writeStatus set (fleetOf s set.key)).Meets (steady service anyCall)
      (fun _ after => ∃ set', InOrder set.key set' after ∧ set'.spec = set.spec ∧
        after.runners = s.runners) s := by
  rw [writeStatus]
  split
  · rename_i hcounted
    exact ⟨set, ⟨hs, hset, hheld, hlive, htidy, hcounted⟩, rfl, rfl⟩
  · rw [meets_bind]
    refine ⟨trivial, ?_⟩
    intro answer after hanswer
    obtain ⟨stamp, rfl⟩ := perform_of_steady rfl hanswer
    have hrunners : (s.perform stamp (.updateSetStatus set.key
        (fleetOf s set.key).status)).store.runners = s.runners := by
      rw [perform, present_store, settleSets_store]
    have hfleet : ∀ k, (s.perform stamp (.updateSetStatus set.key
        (fleetOf s set.key).status)).store.runnersOf k = s.runnersOf k := by
      intro k
      rw [runnersOf, runnersOf, hrunners]
    have hstored : (s.perform stamp (.updateSetStatus set.key
        (fleetOf s set.key).status)).store.getSet set.key =
          some (mapMetadata { set with status := (fleetOf s set.key).status } fun m =>
            { m with resourceVersion := m.resourceVersion + 1 }) := by
      rw [getSet_perform, hset, Operation.onSet, if_pos rfl, Option.bind_some,
        changed?_of_live hlive]
    refine ⟨_, ⟨hs.perform stamp _, hstored, hheld, hlive, ?_, ?_⟩, rfl, hrunners⟩
    · rw [Tidy, hfleet]
      exact htidy
    · exact congrArg Fleet.status (congrArg Fleet.classify (hfleet set.key).symm)

/-- A fleet that is looked at again is the one that there is. -/
theorem meets_review_steady {permitted : Call → Prop} (hlist : permitted (.listRunners set.key))
    (fleet : Fleet) :
    (review set fleet true).Meets (steady service permitted)
      (fun found after => found.1 = fleetOf s set.key ∧ after = s) s := by
  rw [review, if_pos rfl, meets_bind]
  refine ⟨hlist, ?_⟩
  intro answer after hanswer
  obtain ⟨rfl, rfl⟩ := listRunners_of_steady hanswer
  exact ⟨rfl, rfl⟩

/-- Where nothing is to be removed and nothing is missing or spare, only counts are written. -/
theorem converge_of_nothing (suffix : Nat → String) {fleet : Fleet}
    (hcandidates : fleet.cleanupCandidates = []) (hgap : gap set fleet = .nothing) :
    converge suffix set fleet =
      writeStatus set fleet >>= fun errors => .done (Error.collect errors) := by
  unfold converge closeGap
  rw [hcandidates, hgap]
  rfl

/-- After one pass a set is in order, and after a second one its gap is closed. -/
theorem meets_converge_steady (suffix : Nat → String) (hs : s.Keyed)
    (hset : s.getSet set.key = some set) (hheld : set.hasFinalizer = true)
    (hlive : set.metadata.isDeleting = false) :
    (converge suffix set (fleetOf s set.key)).Meets (steady service anyCall)
      (fun _ after => ∃ set', InOrder set.key set' after ∧
        (Tidy set.key s → Closed service set.key set' after)) s := by
  by_cases hnothing : (fleetOf s set.key).cleanupCandidates = [] ∧
      gap set (fleetOf s set.key) = .nothing
  · obtain ⟨hcandidates, hgap⟩ := hnothing
    have htidy : Tidy set.key s := by
      refine tidy_of_cleanup (s := s) ?_
      rw [hcandidates]
      exact Sheds.refl hs set.key
    rw [converge_of_nothing suffix hcandidates hgap, meets_bind]
    refine (meets_writeStatus_steady hs hset hheld hlive htidy).mono ?_
    rintro _ after ⟨set', horder, hspec, hrunners⟩
    refine ⟨set', horder, fun _ => Or.inl ?_⟩
    rw [gap, hspec, fleetOf, runnersOf, hrunners]
    exact hgap
  · have hacted : (!(fleetOf s set.key).cleanupCandidates.isEmpty ||
        decide (gap set (fleetOf s set.key) ≠ .nothing)) = true := by
      rw [Bool.or_eq_true, Bool.not_eq_true', decide_eq_true_iff]
      by_cases hcandidates : (fleetOf s set.key).cleanupCandidates = []
      · exact Or.inr fun hgap => hnothing ⟨hcandidates, hgap⟩
      · exact Or.inl (Bool.eq_false_iff.2 fun hempty => hcandidates (List.isEmpty_iff.1 hempty))
    rw [converge, meets_bind]
    refine (meets_cleanup_steady hs _).mono ?_
    rintro _ middle ⟨hsheds, hsame⟩
    have htidy := tidy_of_cleanup hsheds
    rw [meets_bind]
    refine (meets_closeGap_steady suffix hsheds.keyed (deletionOrder_names hs set.key).1
      htidy).mono ?_
    rintro _ after ⟨hkeyed, hsets, htidy', hclosed⟩
    change Meets _ _ (review set (fleetOf s set.key) (_ || _) >>= _) _
    rw [hacted, meets_bind]
    refine (meets_review_steady trivial _).mono ?_
    rintro ⟨fleet, errors⟩ last ⟨rfl, rfl⟩
    have hstored : last.getSet set.key = some set :=
      (hsets set.key).trans ((hsheds.getSet set.key).trans hset)
    change Meets _ _ (writeStatus set (fleetOf last set.key) >>= _) _
    rw [meets_bind]
    refine (meets_writeStatus_steady hkeyed hstored hheld hlive htidy').mono ?_
    rintro _ final ⟨set', horder, hspec, hrunners⟩
    refine ⟨set', horder, fun hbefore => ?_⟩
    have hmiddle : middle = s := hsame (cleanupCandidates_of_tidy hbefore)
    have hfleet : fleetOf final set.key = fleetOf last set.key := by
      rw [fleetOf, fleetOf, runnersOf, hrunners]
      rfl
    have hgap : gap set' (fleetOf final set.key) = gap set (fleetOf last set.key) := by
      rw [gap, gap, hspec, hfleet]
    rw [Closed, hgap, hfleet]
    exact hclosed (hmiddle ▸ rfl)

/-- After a pass over a set that is being removed, only runners are left that stay. -/
theorem meets_drain_steady (hs : s.Keyed) :
    (drain set (fleetOf s set.key)).Meets (steady service anyCall)
      (fun _ after => after.Keyed ∧ (∀ k, after.getSet k = s.getSet k) ∧ Tidy set.key after ∧
        ∀ r ∈ (fleetOf after set.key).deletionOrder, Stays service r) s := by
  rw [drain, meets_bind]
  refine (meets_cleanup_steady hs _).mono ?_
  rintro _ middle ⟨hsheds, -⟩
  have htidy := tidy_of_cleanup hsheds
  change Meets _ _ (_ >>= _) _
  rw [meets_bind]
  refine (meets_reclaim_steady hsheds.keyed _ (deletionOrder_names hs set.key).1).mono ?_
  rintro _ after ⟨names, hsheds', hnames, hsubset, hdone⟩
  refine ⟨hsheds'.keyed, fun k => (hsheds'.getSet k).trans (hsheds.getSet k),
    tidy_of_sheds hsheds' htidy, ?_⟩
  intro r hr
  obtain ⟨hr, hname⟩ := mem_deletionOrder_of_sheds hsheds' hr
  have hmem := (mem_deletionOrder_of_sheds hsheds hr).1
  rcases hdone with hlength | ⟨-, hall⟩
  · -- as many were taken away as there were
    have hcount : ((fleetOf s set.key).deletionOrder.map Runner.name).length = names.length := by
      rw [List.length_map, (Fleet.deletionOrder_perm _).length_eq, List.length_append, hlength]
    have hperm : names.Perm ((fleetOf s set.key).deletionOrder.map Runner.name) :=
      (hnames.subperm hsubset).perm_of_length_le (Nat.le_of_eq hcount)
    exact absurd (hperm.mem_iff.2 (List.mem_map_of_mem hmem)) hname
  · exact hall r hmem hname

end Work

/-! ## Rest -/

/-- Nothing is left to be done for a set: it is not there, or is no longer held, or it is in order
and its gap is closed, or it waits for its last runners, which stay. -/
inductive Rests (service : Actions.Service) (key : String) (s : Store) : Prop where
  | absent (missing : s.getSet key = none)
  | released {set : RunnerSet} (stored : s.getSet key = some set)
      (unheld : set.hasFinalizer = false) (deleting : set.metadata.isDeleting = true)
  | converged {set : RunnerSet} (order : InOrder key set s) (closed : Closed service key set s)
  | waiting {set : RunnerSet} (stored : s.getSet key = some set) (held : set.hasFinalizer = true)
      (deleting : set.metadata.isDeleting = true) (peopled : s.runnersOf key ≠ [])
      (tidy : Tidy key s) (stays : ∀ r ∈ (fleetOf s key).deletionOrder, Stays service r)

section Passes

variable {service : Actions.Service} {permitted : Call → Prop}
  {post : Except Error Unit → Store → Prop} {key : String} {s : Store} {set : RunnerSet}

/-- A pass over a held set goes on from what it reads. -/
theorem meets_pass_of_held (suffix : Nat → String) (hreads : ∀ c, readsOnly c → permitted c)
    (hset : s.getSet key = some set) (hheld : set.hasFinalizer = true)
    (h : (proceed suffix set (s.runnersOf key)).Meets (steady service permitted) post s) :
    (pass suffix key).Meets (steady service permitted) post s := by
  rw [pass, meets_bind]
  refine ⟨hreads _ rfl, ?_⟩
  intro answer after hanswer
  obtain ⟨rfl, rfl⟩ := getSet_of_steady hanswer
  rw [hset]
  change Meets _ _ (if set.hasFinalizer then _ else _) _
  rw [if_pos hheld, meets_bind]
  refine ⟨hreads _ rfl, ?_⟩
  intro answer listed hanswer
  obtain ⟨rfl, rfl⟩ := listRunners_of_steady hanswer
  exact h

theorem proceed_of_live (suffix : Nat → String) (hlive : set.metadata.isDeleting = false)
    (runners : List Runner) :
    proceed suffix set runners = converge suffix set (Fleet.classify runners) := by
  rw [proceed, Teardown.observe, hlive]
  rfl

theorem proceed_of_deleting (suffix : Nat → String) (hdeleting : set.metadata.isDeleting = true)
    (runners : List Runner) :
    proceed suffix set runners =
      if runners = [] then release set else drain set (Fleet.classify runners) := by
  rw [proceed, Teardown.observe, hdeleting]
  cases runners <;> rfl

/-- Where everything is at rest, a pass writes nothing. -/
theorem meets_pass_rests (h : Rests service key s) (hs : s.Keyed) (suffix : Nat → String) :
    (pass suffix key).Meets (steady service readsOnly) (fun _ after => after = s) s := by
  have hreads : ∀ c, readsOnly c → readsOnly c := fun _ => id
  cases h with
  | absent hmissing =>
      rw [pass, meets_bind]
      refine ⟨rfl, ?_⟩
      intro answer after hanswer
      obtain ⟨rfl, rfl⟩ := getSet_of_steady hanswer
      rw [hmissing]
      exact rfl
  | @released set hstored hunheld hdeleting =>
      rw [pass, meets_bind]
      refine ⟨rfl, ?_⟩
      intro answer after hanswer
      obtain ⟨rfl, rfl⟩ := getSet_of_steady hanswer
      rw [hstored]
      change Meets _ _ (if set.hasFinalizer then _ else _) _
      rw [hunheld, if_neg Bool.false_ne_true, hdeleting, if_pos rfl]
      exact rfl
  | @converged set horder hclosed =>
      obtain rfl : set.key = key := hs.set horder.stored
      refine meets_pass_of_held suffix hreads horder.stored horder.held ?_
      rw [proceed_of_live suffix horder.live]
      change Meets _ _ (converge suffix set (fleetOf s set.key)) _
      have hcandidates := cleanupCandidates_of_tidy horder.tidy
      have hstatus : writeStatus set (fleetOf s set.key) = .done [] := if_pos horder.counted
      rcases hclosed with hgap | ⟨⟨count, hgap⟩, hstays⟩
      · rw [converge_of_nothing suffix hcandidates hgap, hstatus]
        exact rfl
      · rw [converge, hcandidates, closeGap, hgap]
        change Meets _ _ ((reclaim set.key count _ >>= _) >>= _) _
        rw [meets_bind, meets_bind]
        refine (meets_reclaim_quiet hstays count).mono ?_
        rintro _ middle rfl
        change Meets _ _ (review set (fleetOf middle set.key) true >>= _) _
        rw [meets_bind]
        have hlist : readsOnly (.listRunners set.key) := rfl
        refine (meets_review_steady hlist _).mono ?_
        rintro ⟨fleet, errors⟩ last ⟨rfl, rfl⟩
        change Meets _ _ (writeStatus set (fleetOf last set.key) >>= _) _
        rw [hstatus]
        exact rfl
  | @waiting set hstored hheld hdeleting hpeopled htidy hstays =>
      obtain rfl : set.key = key := hs.set hstored
      refine meets_pass_of_held suffix hreads hstored hheld ?_
      rw [proceed_of_deleting suffix hdeleting, if_neg hpeopled]
      change Meets _ _ (drain set (fleetOf s set.key)) _
      rw [drain, cleanupCandidates_of_tidy htidy]
      change Meets _ _ (reclaim set.key _ _ >>= _) _
      rw [meets_bind]
      exact (meets_reclaim_quiet hstays _).mono fun _ _ hafter => hafter

end Passes

/-! ## How many passes it takes -/

/-- Everything is at rest after this many passes. -/
def Within (service : Actions.Service) (key : String) : Nat → Store → Prop
  | 0, s => s.Keyed ∧ Rests service key s
  | n + 1, s => ∀ suffix, (pass suffix key).Meets (steady service anyCall)
      (fun _ after => Within service key n after) s

section Within

variable {service : Actions.Service} {key : String} {s : Store} {set : RunnerSet}

theorem Within.succ {n : Nat} (h : Within service key n s) : Within service key (n + 1) s := by
  induction n generalizing s with
  | zero =>
      intro suffix
      refine (Meets.anyCall (meets_pass_rests h.2 h.1 suffix)).mono ?_
      rintro _ after rfl
      exact h
  | succ n ih => exact fun suffix => (h suffix).mono fun _ _ hafter => ih hafter

/-- A pass closes the gap of a set that is in order. -/
theorem within_one_of_inOrder (h : InOrder key set s) : Within service key 1 s := by
  obtain rfl : set.key = key := h.keyed.set h.stored
  intro suffix
  refine meets_pass_of_held suffix (fun _ _ => trivial) h.stored h.held ?_
  rw [proceed_of_live suffix h.live]
  refine (meets_converge_steady suffix h.keyed h.stored h.held h.live).mono ?_
  rintro _ after ⟨set', horder, hclosed⟩
  exact ⟨horder.keyed, .converged horder (hclosed h.tidy)⟩

/-- A pass puts a live set that is held in order. -/
theorem within_two_of_live (hs : s.Keyed) (hset : s.getSet key = some set)
    (hheld : set.hasFinalizer = true) (hlive : set.metadata.isDeleting = false) :
    Within service key 2 s := by
  obtain rfl : set.key = key := hs.set hset
  intro suffix
  refine meets_pass_of_held suffix (fun _ _ => trivial) hset hheld ?_
  rw [proceed_of_live suffix hlive]
  refine (meets_converge_steady suffix hs hset hheld hlive).mono ?_
  rintro _ after ⟨set', horder, -⟩
  exact within_one_of_inOrder horder

/-- A pass releases a set that is being removed and has no runners left. -/
theorem within_one_of_childless (hs : s.Keyed) (hset : s.getSet key = some set)
    (hheld : set.hasFinalizer = true) (hdeleting : set.metadata.isDeleting = true)
    (hnone : s.runnersOf key = []) : Within service key 1 s := by
  obtain rfl : set.key = key := hs.set hset
  intro suffix
  refine meets_pass_of_held suffix (fun _ _ => trivial) hset hheld ?_
  rw [proceed_of_deleting suffix hdeleting, if_pos hnone, release, meets_bind]
  refine ⟨trivial, ?_⟩
  intro answer after hanswer
  obtain ⟨stamp, rfl⟩ := perform_of_steady rfl hanswer
  refine ⟨hs.perform stamp _, ?_⟩
  have hget : (s.perform stamp (.setSetFinalizers set.key
      (withoutFinalizer set.metadata))).store.getSet set.key =
        changed? (fun set' => { set' with metadata :=
          { set'.metadata with finalizers := withoutFinalizer set.metadata } }) set := by
    rw [getSet_perform, hset, Operation.onSet, if_pos rfl, Option.bind_some]
  cases hleft : changed? (fun set' : RunnerSet => { set' with metadata :=
      { set'.metadata with finalizers := withoutFinalizer set.metadata } }) set with
  | none => exact .absent (hget.trans hleft)
  | some new =>
      have hnew := eq_of_changed? hleft
      refine .released (hget.trans hleft) ?_ ?_
      · have hfree : RunnerSet.finalizer ∉ withoutFinalizer set.metadata :=
          fun hmem => (mem_withoutFinalizer.1 hmem).2 rfl
        rw [hnew]
        exact Bool.eq_false_iff.2 fun hheld => hfree (List.contains_iff_mem.1 hheld)
      · rw [hnew]
        exact hdeleting

/-- A pass removes the runners of a set that is being removed, but for those that stay. -/
theorem within_two_of_deleting (hs : s.Keyed) (hset : s.getSet key = some set)
    (hheld : set.hasFinalizer = true) (hdeleting : set.metadata.isDeleting = true) :
    Within service key 2 s := by
  obtain rfl : set.key = key := hs.set hset
  by_cases hnone : s.runnersOf set.key = []
  · exact (within_one_of_childless hs hset hheld hdeleting hnone).succ
  · intro suffix
    refine meets_pass_of_held suffix (fun _ _ => trivial) hset hheld ?_
    rw [proceed_of_deleting suffix hdeleting, if_neg hnone]
    refine (meets_drain_steady hs).mono ?_
    rintro _ after ⟨hkeyed, hsets, htidy, hstays⟩
    have hafter : after.getSet set.key = some set := (hsets set.key).trans hset
    by_cases hleft : after.runnersOf set.key = []
    · exact within_one_of_childless hkeyed hafter hheld hdeleting hleft
    · exact Within.succ ⟨hkeyed, .waiting hafter hheld hdeleting hleft htidy hstays⟩

/-- It takes two passes for a set that is held. -/
theorem within_two (hs : s.Keyed) (hset : s.getSet key = some set)
    (hheld : set.hasFinalizer = true) : Within service key 2 s := by
  cases hdeleting : set.metadata.isDeleting with
  | true => exact within_two_of_deleting hs hset hheld hdeleting
  | false => exact within_two_of_live hs hset hheld hdeleting

/-- A live set that is not held is held after one pass. -/
theorem within_three_of_unheld (hs : s.Keyed) (hset : s.getSet key = some set)
    (hunheld : set.hasFinalizer = false) (hlive : set.metadata.isDeleting = false) :
    Within service key 3 s := by
  intro suffix
  rw [pass, meets_bind]
  refine ⟨trivial, ?_⟩
  intro answer after hanswer
  obtain ⟨rfl, rfl⟩ := getSet_of_steady hanswer
  rw [hset]
  change Meets _ _ (if set.hasFinalizer then _ else _) _
  rw [hunheld, if_neg Bool.false_ne_true, hlive, if_neg Bool.false_ne_true, meets_bind]
  refine ⟨trivial, ?_⟩
  intro answer held hanswer
  obtain ⟨stamp, rfl⟩ := perform_of_steady rfl hanswer
  obtain ⟨new, hnew, hnewlive, -, hfinalizers⟩ :=
    spec_of_setFinalizers stamp key hlive (withFinalizer set.metadata)
  have hstored : (after.perform stamp (.setSetFinalizers key
      (withFinalizer set.metadata))).store.getSet key = some new := by
    rw [getSet_perform, hset, hnew]
  have hheld : RunnerSet.finalizer ∈ new.metadata.finalizers := by
    rw [hfinalizers]
    exact mem_withFinalizer.2 (Or.inr rfl)
  exact within_two (hs.perform stamp _) hstored (List.contains_iff_mem.2 hheld)

/-- It takes no more than three passes, whatever is stored. -/
theorem within_three (hs : s.Keyed) : Within service key 3 s := by
  cases hset : s.getSet key with
  | none =>
      have hrests : Within service key 0 s := ⟨hs, .absent hset⟩
      exact hrests.succ.succ.succ
  | some set =>
      cases hheld : set.hasFinalizer with
      | true => exact (within_two hs hset hheld).succ
      | false =>
          cases hdeleting : set.metadata.isDeleting with
          | true =>
              have hrests : Within service key 0 s := ⟨hs, .released hset hheld hdeleting⟩
              exact hrests.succ.succ.succ
          | false => exact within_three_of_unheld hs hset hheld hdeleting

end Within

/-! ## Passes in a row -/

/-- The environment after this many passes over one set. -/
def afterPasses (suffix : Nat → Nat → String) (key : String) (env : Environment) :
    Nat → Environment
  | 0 => env
  | n + 1 => ((pass (suffix n) key).run Environment.answer (afterPasses suffix key env n)).2

/-- What happens in the pass after this many others. -/
def exchangesAfter (suffix : Nat → Nat → String) (key : String) (env : Environment) (n : Nat) :
    List Exchange :=
  (pass (suffix n) key).exchanges Environment.answer (afterPasses suffix key env n)

section Row

variable {suffix : Nat → Nat → String} {key : String} {env : Environment}

@[simp]
theorem service_afterPasses (n : Nat) :
    (afterPasses suffix key env n).service = env.service := by
  induction n with
  | zero => rfl
  | succ n ih => exact (service_run _ _).trans ih

/-- A pass whose calls to the store go well brings everything nearer to rest. -/
theorem within_afterPasses {i n : Nat}
    (haccepted : ∀ m < i + n, ∀ e ∈ exchangesAfter suffix key env m, e.accepted = true)
    (h : Within env.service key n (afterPasses suffix key env i).store) :
    Within env.service key 0 (afterPasses suffix key env (i + n)).store := by
  induction n generalizing i with
  | zero => exact h
  | succ n ih =>
      have hservice : (afterPasses suffix key env i).service = env.service :=
        service_afterPasses i
      have hmeets := h (suffix i)
      rw [← hservice] at hmeets
      have hnext := (Meets.run_steady hmeets (haccepted i (by omega))).2
      rw [hservice] at hnext
      have hrest := ih (i := i + 1) (fun m hm => haccepted m (by omega)) hnext
      have hindex : i + 1 + n = i + (n + 1) := by omega
      exact hindex ▸ hrest

/-- Where everything is at rest, it stays as it is. -/
theorem quiet_afterPasses {n : Nat} (haccepted : ∀ e ∈ exchangesAfter suffix key env n,
      e.accepted = true)
    (h : Within env.service key 0 (afterPasses suffix key env n).store) :
    (∀ e ∈ exchangesAfter suffix key env n, e.call.isWrite = false) ∧
      (afterPasses suffix key env (n + 1)).store = (afterPasses suffix key env n).store := by
  have hservice : (afterPasses suffix key env n).service = env.service := service_afterPasses n
  have hrests := h.2
  rw [← hservice] at hrests
  exact Meets.run_steady (meets_pass_rests hrests h.1 (suffix n)) haccepted

/-- Everything is at rest from some pass on. -/
theorem rests_of_within {n m : Nat} (hle : n ≤ m)
    (haccepted : ∀ i < m, ∀ e ∈ exchangesAfter suffix key env i, e.accepted = true)
    (h : Within env.service key n env.store) :
    Within env.service key 0 (afterPasses suffix key env m).store := by
  induction hle with
  | refl =>
      have hrests : Within env.service key 0 (afterPasses suffix key env (0 + n)).store :=
        within_afterPasses (fun m hm => haccepted m (by omega)) h
      rwa [Nat.zero_add] at hrests
  | @step m _ ih =>
      have hbefore := ih fun i hi => haccepted i (by omega)
      rw [(quiet_afterPasses (haccepted m (Nat.lt_succ_self m)) hbefore).2]
      exact hbefore

/-- At rest, the decision for a live set was acted on, or the set has as many runners that are
pending or running as it is asked for, or it has more and all of them stay. -/
theorem Rests.size {service : Actions.Service} {s : Store} {set : RunnerSet}
    (h : Rests service key s) (hset : s.getSet key = some set)
    (hlive : set.metadata.isDeleting = false) :
    (fleetOf s key).isAdopted set.spec.patchId = true ∨
      (fleetOf s key).pending.length + (fleetOf s key).running.length = set.spec.replicas ∨
      set.spec.replicas < (fleetOf s key).pending.length + (fleetOf s key).running.length ∧
        ∀ r ∈ (fleetOf s key).pending ++ (fleetOf s key).running,
          r.isRegistered = false ∨ r.hasJob = true ∨
            ∃ e, service r.status.runnerId = .error e := by
  have hdeleting : ∀ {set' : RunnerSet}, s.getSet key = some set' →
      set'.metadata.isDeleting ≠ true := by
    intro set' hset'
    obtain rfl : set' = set := Option.some.inj (hset'.symm.trans hset)
    exact Bool.eq_false_iff.1 hlive
  cases h with
  | absent hmissing => cases hmissing.symm.trans hset
  | released hstored _ hdel => exact absurd hdel (hdeleting hstored)
  | waiting hstored _ hdel => exact absurd hdel (hdeleting hstored)
  | converged horder hclosed =>
      obtain rfl := Option.some.inj (hset.symm.trans horder.stored)
      have hfailed : (fleetOf s key).failed = [] := by
        have hcandidates := cleanupCandidates_of_tidy horder.tidy
        rw [Fleet.cleanupCandidates, List.append_eq_nil_iff] at hcandidates
        exact hcandidates.2
      have htotal : (fleetOf s key).scaleTotal =
          (fleetOf s key).pending.length + (fleetOf s key).running.length := by
        rw [Fleet.scaleTotal, hfailed]
        rfl
      rw [Closed, gap, htotal] at hclosed
      by_cases hadopted : (fleetOf s key).isAdopted set.spec.patchId = true
      · exact Or.inl hadopted
      · right
        rw [if_neg hadopted] at hclosed
        split at hclosed
        · rcases hclosed with hgap | ⟨⟨_, hgap⟩, -⟩ <;> cases hgap
        · split at hclosed
          · rename_i hmany
            rcases hclosed with hgap | ⟨-, hstays⟩
            · cases hgap
            · refine Or.inr ⟨hmany, fun r hr => ?_⟩
              have hstay := hstays r ((Fleet.deletionOrder_perm _).mem_iff.2 hr)
              unfold Stays isReclaimable at hstay
              cases hregistered : r.isRegistered with
              | false => exact Or.inl rfl
              | true =>
                  cases hjob : r.hasJob with
                  | true => exact Or.inr (Or.inl rfl)
                  | false => exact Or.inr (Or.inr (hstay (by rw [hregistered, hjob]; rfl)))
          · exact Or.inl (by omega)

/-- While every call to the store goes well, nobody else writes, and the Actions service answers in
a fixed way, the fourth pass over a set and all later ones write nothing; so does the third one if
the set was live and held before the first.  The size of a live set is then as it should be, as far
as the Actions service and the jobs of its runners permit. -/
theorem passes_settle {n : Nat} (hreached : env.store.Reachable)
    (haccepted : ∀ m ≤ n, ∀ e ∈ exchangesAfter suffix key env m, e.accepted = true)
    (hlate : 3 ≤ n ∨ 2 ≤ n ∧ ∃ set, env.store.getSet key = some set ∧
      set.metadata.isDeleting = false ∧ set.hasFinalizer = true) :
    let now := (afterPasses suffix key env n).store
    let fleet := Fleet.classify (now.runnersOf key)
    (∀ e ∈ exchangesAfter suffix key env n, e.call.isWrite = false) ∧
    (afterPasses suffix key env (n + 1)).store = now ∧
    ∀ set, now.getSet key = some set → set.metadata.isDeleting = false →
      fleet.isAdopted set.spec.patchId = true ∨
      fleet.pending.length + fleet.running.length = set.spec.replicas ∨
      set.spec.replicas < fleet.pending.length + fleet.running.length ∧
        ∀ r ∈ fleet.pending ++ fleet.running,
          r.isRegistered = false ∨ r.hasJob = true ∨
            ∃ e, env.service r.status.runnerId = .error e := by
  have hwithin : ∃ m ≤ n, Within env.service key m env.store := by
    rcases hlate with hn | ⟨hn, set, hset, -, hheld⟩
    · exact ⟨3, hn, within_three hreached.keyed⟩
    · exact ⟨2, hn, within_two hreached.keyed hset hheld⟩
  obtain ⟨m, hle, hwithin⟩ := hwithin
  have hrests : Within env.service key 0 (afterPasses suffix key env n).store :=
    rests_of_within hle (fun i hi => haccepted i (Nat.le_of_lt hi)) hwithin
  obtain ⟨hquiet, hsame⟩ := quiet_afterPasses (haccepted n (Nat.le_refl n)) hrests
  exact ⟨hquiet, hsame, fun set hset hlive => hrests.2.size hset hlive⟩

end Row

/-- In the shorthanded environment the second pass still creates a runner, in place of the failed
one that the first has removed; the third one writes nothing. -/
theorem shorthanded_settles :
    (∃ e ∈ exchangesAfter (fun _ => toString) "ns/set" shorthanded 1, e.call.isWrite = true) ∧
    ∀ e ∈ exchangesAfter (fun _ => toString) "ns/set" shorthanded 2, e.call.isWrite = false := by
  obtain ⟨set, hset, hlive, hheld, -⟩ := exists_shorthanded_set
  have haccepted : ∀ m ≤ 2, ∀ e ∈ exchangesAfter (fun _ => toString) "ns/set" shorthanded m,
      e.accepted = true := by decide +kernel
  refine ⟨by decide +kernel, ?_⟩
  exact (passes_settle (Store.reachable_ofOperations _) haccepted
    (Or.inr ⟨Nat.le_refl 2, set, hset, hlive, hheld⟩)).1

end Reconcile
end RunnerFleet
