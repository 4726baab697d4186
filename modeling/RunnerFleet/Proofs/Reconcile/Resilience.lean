import RunnerFleet.Proofs.Reconcile.Accounting

/-!
# A pass goes on after errors

Once a pass has read a set and its runners, no call that fails keeps it from the others: all
runners that are over are deleted, all that are missing are asked for, the walk over the idle
runners goes on after each attempt that did not succeed, and at the end the runners of a live set
are listed again and its counts are written.  The result says how many calls failed.

Main results:

- `Accounts.length_eq`, `count_of_collects`: a result counts the calls that failed.
- `calls_cleanup`, `calls_createRunners`: the calls of a step, whatever they are answered with.
- `thorough_proceed`: what a pass does after its reads, whatever its calls are answered with.
- `pass_reports_and_goes_on`: the result and the calls of a pass.
-/

namespace RunnerFleet
namespace Reconcile

open Program

/-! ## The number of errors -/

/-- An error of a call is a single one, and its call is one that is reported. -/
theorem Exchange.Reports.single {e : Exchange} {error : Error} (h : e.Reports error) :
    error.count = 1 ∧ e.isTolerated = false := by
  cases h with
  | getSet | listRunners | createRunner => exact ⟨rfl, rfl⟩
  | deleteRunner _ _ present => exact ⟨rfl, present⟩
  | updateStatus _ _ present => exact ⟨rfl, present⟩
  | setFinalizers _ _ present => exact ⟨rfl, present⟩
  | deregister _ _ idle => exact ⟨rfl, idle⟩

variable {t : List Exchange} {errors : List Error}

/-- The errors of calls count as many as there are calls that are reported. -/
theorem Accounts.countAll_eq (h : Accounts t errors) :
    Error.countAll errors = t.countP (!·.isTolerated) := by
  induction h with
  | nil => rfl
  | tolerated htolerated _ ih => rw [ih, List.countP_cons_of_neg (by simp [htolerated])]
  | reported hreports _ ih =>
      obtain ⟨hcount, hfailed⟩ := hreports.single
      rw [Error.countAll, hcount, ih, List.countP_cons_of_pos (by simp [hfailed]), Nat.add_comm]

/-- There are no errors where every call is tolerated. -/
theorem Accounts.eq_nil_iff (h : Accounts t errors) :
    errors = [] ↔ ∀ e ∈ t, e.isTolerated = true := by
  induction h with
  | nil => simp
  | tolerated htolerated _ ih => simp [htolerated, ih]
  | reported hreports _ _ => simp [hreports.single.2]

theorem count_collect {error : Error} (h : Error.collect errors = .error error) :
    error.count = Error.countAll errors := by
  match errors with
  | [] => cases h
  | [e] =>
      obtain rfl : e = error := Except.error.inj h
      rfl
  | _ :: _ :: _ =>
      obtain rfl := Except.error.inj h
      rfl

theorem collect_eq_ok_iff : Error.collect errors = .ok () ↔ errors = [] := by
  match errors with
  | [] => simp [Error.collect]
  | [e] => simp [Error.collect]
  | _ :: _ :: _ => simp [Error.collect]

/-- A pass succeeds if each of its calls is tolerated, and else says how many are not. -/
theorem Collects.result {result : Except Error Unit} (h : Collects t result) :
    (result = .ok () ↔ ∀ e ∈ t, e.isTolerated = true) ∧
      ∀ error, result = .error error → error.count = t.countP (!·.isTolerated) := by
  obtain ⟨errors, haccounts, rfl⟩ := h
  refine ⟨collect_eq_ok_iff.trans haccounts.eq_nil_iff, ?_⟩
  intro error herror
  rw [count_collect herror, haccounts.countAll_eq]

/-! ## The calls of a step -/

section Steps

variable {key : String} {set : RunnerSet} {fleet : Fleet}

/-- All of these runners are deleted, whatever became of the ones before. -/
theorem calls_cleanup {ended : List Runner} (h : (cleanup key ended).Leads t (done errors)) :
    t.map Exchange.call = ended.map fun r => .deleteRunner key r.name := by
  induction ended generalizing t errors with
  | nil =>
      obtain ⟨rfl, -⟩ := leads_done.1 h
      rfl
  | cons r rest ih =>
      obtain ⟨result, first, last, rfl, hfirst, hlast⟩ := leads_bind.1 h
      obtain ⟨others, hothers, -⟩ := leads_map.1 hlast
      obtain ⟨answer, rfl, -⟩ := leads_discard hfirst
      rw [List.map_append, ih hothers]
      rfl

/-- A runner is created for each suffix, whatever became of the ones before. -/
theorem calls_createRunners {suffixes : List String}
    (h : (createRunners set suffixes).Leads t (done errors)) :
    t.map Exchange.call = suffixes.map fun suffix => .createRunner (newRunner set suffix) := by
  induction suffixes generalizing t errors with
  | nil =>
      obtain ⟨rfl, -⟩ := leads_done.1 h
      rfl
  | cons suffix rest ih =>
      obtain ⟨answer, last, others, rfl, hothers, -⟩ := leads_createRunners_cons h
      rw [List.map_cons, List.map_cons, ih hothers]

/-- The runners are listed again if the pass acted on them, and count as they were if that
fails. -/
theorem calls_review {runners : List Runner} {acted : Bool} {reviewed : Fleet × List Error}
    (h : (review set (Fleet.classify runners) acted).Leads t (done reviewed)) :
    t.map Exchange.call = (if acted then [.listRunners set.key] else []) ∧
      reviewed.1 = Fleet.classify ((firstListing t).getD runners) := by
  cases acted with
  | false =>
      obtain ⟨rfl, rfl⟩ := leads_done_done.1 h
      exact ⟨rfl, rfl⟩
  | true =>
      obtain ⟨answer, last, rfl, hlast⟩ := leads_call.1 h
      rcases answer with e | listed
      · obtain ⟨rfl, rfl⟩ := leads_done_done.1 hlast
        exact ⟨rfl, rfl⟩
      · obtain ⟨rfl, rfl⟩ := leads_done_done.1 hlast
        exact ⟨rfl, rfl⟩

theorem calls_writeStatus (h : (writeStatus set fleet).Leads t (done errors)) :
    t.map Exchange.call =
      if set.status = fleet.status then [] else [.updateStatus set.key fleet.status] := by
  rw [writeStatus] at h
  split at h
  · rename_i hsame
    obtain ⟨rfl, -⟩ := leads_done.1 h
    rw [if_pos hsame]
    rfl
  · rename_i hchanged
    obtain ⟨answer, rfl, -⟩ := leads_call_done.1 h
    rw [if_neg hchanged]
    rfl

end Steps

/-! ## The calls of a pass -/

/-- How the gap between a set and its runners is closed: each missing runner is asked for, or the
idle runners are walked over until enough of them are gone. -/
inductive Closing (suffix : Nat → String) (set : RunnerSet) (runners : List Runner) :
    List Exchange → Prop where
  | nothing (hgap : gap set (Fleet.classify runners) = .nothing) : Closing suffix set runners []
  | missing {count : Nat} {closed : List Exchange}
      (hgap : gap set (Fleet.classify runners) = .missing count)
      (created : closed.map Exchange.call =
        (List.range count).map fun i => .createRunner (newRunner set (suffix i))) :
      Closing suffix set runners closed
  | spare {count : Nat} {attempts : List Attempt}
      (hgap : gap set (Fleet.classify runners) = .spare count)
      (walk : Walk set.key count (eligibleRunners runners) attempts) :
      Closing suffix set runners (attempts.flatMap Attempt.calls)

/-- Whether a pass acts on these runners of a live set. -/
def ActsOn (set : RunnerSet) (runners : List Runner) : Prop :=
  (Fleet.classify runners).cleanupCandidates ≠ [] ∨ gap set (Fleet.classify runners) ≠ .nothing

instance (set : RunnerSet) (runners : List Runner) : Decidable (ActsOn set runners) :=
  inferInstanceAs (Decidable (_ ∨ _))

/-- The calls for a live set, step by step: every runner that is over is deleted, the gap is closed,
the runners are listed again if the pass acted on them, and the counts are written if they are not
those that the set had. -/
structure Converging (suffix : Nat → String) (set : RunnerSet) (runners : List Runner)
    (cleaned closed reviewed written : List Exchange) : Prop where
  cleaning : cleaned.map Exchange.call =
    (Fleet.classify runners).cleanupCandidates.map fun r => .deleteRunner set.key r.name
  closing : Closing suffix set runners closed
  reviewing : reviewed.map Exchange.call =
    if ActsOn set runners then [.listRunners set.key] else []
  writing : written.map Exchange.call =
    if set.status = (Fleet.classify ((firstListing reviewed).getD runners)).status then []
    else [.updateStatus set.key (Fleet.classify ((firstListing reviewed).getD runners)).status]

/-- The calls for a set that is being removed and has runners: every runner that is over is deleted,
and every idle one is tried. -/
structure Draining (key : String) (runners : List Runner) (cleaned : List Exchange)
    (attempts : List Attempt) : Prop where
  cleaning : cleaned.map Exchange.call =
    (Fleet.classify runners).cleanupCandidates.map fun r => .deleteRunner key r.name
  proper : ∀ a ∈ attempts, a.Proper key
  all : attempts.map Attempt.runner = eligibleRunners runners

/-- What a pass does after it has read a set and its runners, whatever its calls are answered
with. -/
inductive Thorough (suffix : Nat → String) (set : RunnerSet) (runners : List Runner) :
    List Exchange → Prop where
  | live {cleaned closed reviewed written : List Exchange}
      (active : set.metadata.isDeleting = false)
      (steps : Converging suffix set runners cleaned closed reviewed written) :
      Thorough suffix set runners (cleaned ++ closed ++ reviewed ++ written)
  | draining {cleaned : List Exchange} {attempts : List Attempt}
      (deleting : set.metadata.isDeleting = true) (owns : runners ≠ [])
      (steps : Draining set.key runners cleaned attempts) :
      Thorough suffix set runners (cleaned ++ attempts.flatMap Attempt.calls)
  | removable (deleting : set.metadata.isDeleting = true) (vacant : runners = [])
      (answer : Except Store.Error Unit) :
      Thorough suffix set runners
        [⟨.setFinalizers set.key (withoutFinalizer set.metadata), answer⟩]

variable {suffix : Nat → String} {set : RunnerSet} {runners : List Runner}
  {result : Except Error Unit}

theorem closing_closeGap
    (h : (closeGap suffix set (Fleet.classify runners)).Leads t (done errors)) :
    Closing suffix set runners t := by
  rw [closeGap] at h
  split at h
  · rename_i hgap
    obtain ⟨rfl, -⟩ := leads_done.1 h
    exact .nothing hgap
  · rename_i count hgap
    apply Closing.missing hgap
    rw [calls_createRunners h, List.map_map]
    rfl
  · rename_i count hgap
    obtain ⟨result, hreclaim, -⟩ := leads_map.1 h
    obtain ⟨attempts, hwalk, rfl, -⟩ := exists_walk hreclaim
    exact .spare hgap hwalk

/-- The steps of a pass over a live set. -/
theorem exists_converging
    (h : (converge suffix set (Fleet.classify runners)).Leads t (done result)) :
    ∃ cleaned closed reviewed written, t = cleaned ++ closed ++ reviewed ++ written ∧
      Converging suffix set runners cleaned closed reviewed written := by
  obtain ⟨cleanupErrors, cleaned, rest, rfl, hcleanup, h⟩ := leads_bind.1 h
  obtain ⟨gapErrors, closed, rest, rfl, hclose, h⟩ := leads_bind.1 h
  obtain ⟨counted, reviewed, written, rfl, hreview, h⟩ := leads_bind.1 h
  obtain ⟨statusErrors, hwrite, -⟩ := leads_map.1 h
  obtain ⟨hreviewed, hcounted⟩ := calls_review hreview
  have hacted : (!(Fleet.classify runners).cleanupCandidates.isEmpty ||
      decide (gap set (Fleet.classify runners) ≠ .nothing)) = decide (ActsOn set runners) := by
    rw [Bool.eq_iff_iff, decide_eq_true_iff]
    simp [ActsOn]
  refine ⟨cleaned, closed, reviewed, written, by simp, ?_⟩
  refine ⟨calls_cleanup hcleanup, closing_closeGap hclose, ?_, ?_⟩
  · rw [hreviewed, hacted]
    simp
  · rw [calls_writeStatus hwrite, hcounted]

/-- A walk that may remove as many runners as there are tries all of them. -/
theorem Walk.all_of_length_le {key : String} {count : Nat} {eligible : List Runner}
    {attempts : List Attempt} (h : Walk key count eligible attempts)
    (hcount : eligible.length ≤ count) : attempts.map Attempt.runner = eligible := by
  by_cases hlt : removals attempts < count
  · exact h.exhausted hlt
  · -- As many were removed as there are, so each of them was tried.
    have htried : removals attempts ≤ attempts.length := List.countP_le_length
    have hlength := h.inOrder.length_le
    rw [List.length_map] at hlength
    exact h.inOrder.eq_of_length (by rw [List.length_map]; omega)

theorem length_eligibleRunners_le (runners : List Runner) :
    (eligibleRunners runners).length ≤
      (Fleet.classify runners).pending.length + (Fleet.classify runners).running.length := by
  have hfilter : (eligibleRunners runners).length ≤
      (Fleet.classify runners).deletionOrder.length := List.length_filter_le _ _
  rwa [(Fleet.deletionOrder_perm _).length_eq, List.length_append] at hfilter

/-- The steps of a pass over a set that is being removed and has runners. -/
theorem exists_draining (h : (drain set (Fleet.classify runners)).Leads t (done result)) :
    ∃ (cleaned : List Exchange) (attempts : List Attempt),
      t = cleaned ++ attempts.flatMap Attempt.calls ∧
      Draining set.key runners cleaned attempts := by
  obtain ⟨cleanupErrors, cleaned, rest, rfl, hcleanup, h⟩ := leads_bind.1 h
  obtain ⟨reclaimed, hreclaim, -⟩ := leads_map.1 h
  obtain ⟨attempts, hwalk, rfl, -⟩ := exists_walk hreclaim
  have hall := hwalk.all_of_length_le (length_eligibleRunners_le runners)
  exact ⟨cleaned, attempts, rfl, calls_cleanup hcleanup, hwalk.proper, hall⟩

/-- What a pass does after its reads, whatever its calls are answered with. -/
theorem thorough_proceed (h : (proceed suffix set runners).Leads t (done result)) :
    Thorough suffix set runners t := by
  cases hdeleting : set.metadata.isDeleting with
  | false =>
      have hactive : Teardown.observe set.metadata runners.length = .active := by
        simp [Teardown.observe, hdeleting]
      rw [proceed, hactive] at h
      obtain ⟨cleaned, closed, reviewed, written, rfl, hsteps⟩ := exists_converging h
      exact .live hdeleting hsteps
  | true =>
      by_cases howns : runners = []
      · have hremovable : Teardown.observe set.metadata runners.length = .removable := by
          simp [Teardown.observe, hdeleting, howns]
        rw [proceed, hremovable] at h
        obtain ⟨answer, rfl, -⟩ := leads_call_done.1 h
        exact .removable hdeleting howns answer
      · have hdraining : Teardown.observe set.metadata runners.length = .draining := by
          simp [Teardown.observe, hdeleting, List.length_pos_iff.2 howns]
        rw [proceed, hdraining] at h
        obtain ⟨cleaned, attempts, rfl, hsteps⟩ := exists_draining h
        exact .draining hdeleting howns hsteps

/-! ## After a change -/

/-- The calls by which a pass changes its fleet. -/
def Call.Changes : Call → Prop
  | .createRunner _ | .deleteRunner _ _ | .deregister _ => True
  | _ => False

/-- The calls by which runners of a set are removed. -/
def Call.Removes (key : String) : Call → Prop
  | .deleteRunner owner _ => owner = key
  | .deregister _ => True
  | _ => False

theorem Call.Removes.changes {key : String} {c : Call} (h : c.Removes key) : c.Changes := by
  cases c with
  | deleteRunner | deregister => trivial
  | _ => exact h.elim

/-- An attempt to reclaim a runner removes this one, or tries to. -/
theorem Attempt.Proper.removes {key : String} {a : Attempt} (h : a.Proper key) :
    ∀ e ∈ a.calls, e.call.Removes key := by
  cases h with
  | removed | kept => simp [Call.Removes]
  | busy | refused => simp [Call.Removes]

theorem call_mem_of_calls {calls : List Call} {e : Exchange} (h : t.map Exchange.call = calls)
    (he : e ∈ t) : e.call ∈ calls :=
  h ▸ List.mem_map_of_mem he

theorem removes_of_deletions {key : String} {ended : List Runner}
    (h : t.map Exchange.call = ended.map fun r => .deleteRunner key r.name) :
    ∀ e ∈ t, e.call.Removes key := by
  intro e he
  obtain ⟨r, -, hr⟩ := List.mem_map.1 (call_mem_of_calls h he)
  rw [← hr]
  rfl

/-- All calls by which a gap is closed change the fleet. -/
theorem Closing.changes {closed : List Exchange} (h : Closing suffix set runners closed) :
    ∀ e ∈ closed, e.call.Changes := by
  cases h with
  | nothing => simp
  | missing _ created =>
      intro e he
      obtain ⟨i, -, hi⟩ := List.mem_map.1 (call_mem_of_calls created he)
      rw [← hi]
      trivial
  | spare _ walk =>
      intro e he
      obtain ⟨a, ha, he⟩ := List.mem_flatMap.1 he
      exact ((walk.proper a ha).removes e he).changes

/-- A pass that does not act makes no call before its status step. -/
theorem Converging.acts {cleaned closed reviewed written : List Exchange}
    (h : Converging suffix set runners cleaned closed reviewed written)
    (hcalls : cleaned ++ closed ≠ []) : ActsOn set runners := by
  by_contra hidle
  obtain ⟨hcandidates, hgap⟩ := not_or.1 hidle
  have hcleaned : cleaned = [] := by
    have hmap := h.cleaning
    rw [not_not.1 hcandidates] at hmap
    exact List.map_eq_nil_iff.1 hmap
  have hclosed : closed = [] := by
    cases h.closing with
    | nothing => rfl
    | missing hmissing => exact absurd hmissing (not_not.1 hgap ▸ Gap.noConfusion)
    | spare hspare => exact absurd hspare (not_not.1 hgap ▸ Gap.noConfusion)
  exact hcalls (by rw [hcleaned, hclosed]; rfl)

/-- After each call that changes the fleet of a live set, whatever it was answered with, the pass
goes on to list the runners again. -/
theorem Thorough.relists (h : Thorough suffix set runners t)
    (hlive : set.metadata.isDeleting = false) {before after : List Exchange} {e : Exchange}
    (hsplit : t = before ++ e :: after) (hchanges : e.call.Changes) :
    Call.listRunners set.key ∈ after.map Exchange.call := by
  cases h with
  | draining deleting => exact absurd deleting (by simp [hlive])
  | removable deleting => exact absurd deleting (by simp [hlive])
  | @live cleaned closed reviewed written _ steps =>
      -- The calls of the last two steps change nothing.
      have hlast : e ∉ reviewed ++ written := by
        intro he
        rcases List.mem_append.1 he with he | he
        · have hcall := call_mem_of_calls steps.reviewing he
          split at hcall
          · rw [List.mem_singleton.1 hcall] at hchanges
            exact hchanges
          · exact List.not_mem_nil hcall
        · have hcall := call_mem_of_calls steps.writing he
          split at hcall
          · exact List.not_mem_nil hcall
          · rw [List.mem_singleton.1 hcall] at hchanges
            exact hchanges
      rw [List.append_assoc, List.append_eq_append_iff] at hsplit
      rcases hsplit with ⟨rest, -, hrest⟩ | ⟨rest, hrest, hafter⟩
      · exact absurd (hrest ▸ List.mem_append_right _ List.mem_cons_self) hlast
      · cases rest with
        | nil => exact absurd (hafter ▸ List.mem_cons_self) hlast
        | cons first rest =>
            rw [List.cons_append, List.cons.injEq] at hafter
            have hacts : ActsOn set runners := steps.acts (by rw [hrest]; simp)
            have hrelist := steps.reviewing
            rw [if_pos hacts] at hrelist
            rw [hafter.2, List.map_append, List.map_append, hrelist]
            simp

/-! ## The pass -/

/-- A pass that has read a set and its runners goes on from these. -/
theorem leads_proceed {key : String} {rest : List Exchange}
    (h : (pass suffix key).Leads
      (⟨.getSet key, .ok (some set)⟩ :: ⟨.listRunners key, .ok runners⟩ :: rest) (done result)) :
    (proceed suffix set runners).Leads rest (done result) := by
  generalize hq : (done result : Program (Except Error Unit)) = q at h
  cases midway_of_leads h with
  | adding _ _ follows =>
      subst hq
      obtain ⟨_, hrest, -⟩ := leads_call_done.1 follows
      cases hrest
  | acting _ follows => exact follows

/-- What holds of every pass, whatever its calls are answered with.  It succeeds if each call went
well or failed in a way that is no error, and otherwise its error counts the calls that failed in
another way.  If it has read a set and its runners, it makes all the calls that these ask for, and
after each call that changes the fleet of a live set it goes on to list the runners again. -/
theorem pass_reports_and_goes_on {σ : Type} (answer : (c : Call) → σ → c.Answer × σ)
    (suffix : Nat → String) (key : String) (state : σ) :
    let calls := (pass suffix key).exchanges answer state
    let result := ((pass suffix key).run answer state).1
    (result = .ok () ↔ ∀ e ∈ calls, e.isTolerated = true) ∧
    (∀ error, result = .error error → error.count = calls.countP (!·.isTolerated)) ∧
    ∀ set runners rest,
      calls = ⟨.getSet key, .ok (some set)⟩ :: ⟨.listRunners key, .ok runners⟩ :: rest →
      Thorough suffix set runners rest ∧
      (set.metadata.isDeleting = false → ∀ before e after, rest = before ++ e :: after →
        e.call.Changes → Call.listRunners set.key ∈ after.map Exchange.call) := by
  intro calls result
  have hleads : (pass suffix key).Leads calls (done result) := leads_exchanges answer _ state
  obtain ⟨hok, hcount⟩ := (collects_pass hleads).result
  refine ⟨hok, hcount, ?_⟩
  intro set runners rest hcalls
  rw [hcalls] at hleads
  have hthorough : Thorough suffix set runners rest := thorough_proceed (leads_proceed hleads)
  refine ⟨hthorough, ?_⟩
  intro hlive before e after hsplit hchanges
  exact hthorough.relists hlive hsplit hchanges

/-- A set that asks for two more runners and has a failed one, in an environment in which nothing
can be written. -/
def paralysed : Environment where
  store := Store.ofOperations
    [.createSet (RunnerSet.create "ns" "set" { image := "image" }),
      .setSetFinalizers "ns/set" [RunnerSet.finalizer],
      .createRunner (newRunner (RunnerSet.create "ns" "set" { image := "image" }) "a"),
      .updateRunnerStatus "ns/set" "set-runner-a" { phase := .failed },
      .patchSpec "ns/set" 3 5]
  service := fun _ => .ok ()
  faults :=
    [⟨.createRunner, none, ⟨.write, "disk full"⟩, 0⟩,
      ⟨.deleteRunner, none, ⟨.write, "disk full"⟩, 0⟩,
      ⟨.updateStatus, none, ⟨.write, "disk full"⟩, 0⟩]
  stamps := fun _ => Stamp.sample

theorem exists_paralysed_set :
    ∃ set, paralysed.store.getSet "ns/set" = some set ∧ set.metadata.isDeleting = false ∧
      set.hasFinalizer = true := by
  have hset : (paralysed.store.getSet "ns/set").any (fun set =>
      decide (set.metadata.isDeleting = false ∧ set.hasFinalizer = true)) = true := by
    decide +kernel
  obtain ⟨set, hset, hfacts⟩ := (Option.any_eq_true _ _).1 hset
  exact ⟨set, hset, of_decide_eq_true hfacts⟩

/-- A pass over a set that is stored and held reads it, and lists its runners. -/
theorem exchanges_paralysed {set : RunnerSet} (hset : paralysed.store.getSet "ns/set" = some set)
    (hheld : set.hasFinalizer = true) :
    ∃ rest, (pass toString "ns/set").exchanges Environment.answer paralysed =
      ⟨.getSet "ns/set", .ok (some set)⟩ ::
        ⟨.listRunners "ns/set", .ok (paralysed.store.runnersOf "ns/set")⟩ :: rest := by
  obtain ⟨next, hpass, -, -, -, hnext⟩ := pass_opens toString "ns/set"
  obtain ⟨last, hlast, -⟩ := hnext set hheld
  have hread : (Environment.answer (.getSet "ns/set") paralysed).1 = .ok (some set) :=
    congrArg Except.ok hset
  rw [hpass, exchanges, hread, hlast]
  exact ⟨_, rfl⟩

/-- In the paralysed environment one deletion, two creations and the status write fail, and the pass
makes all of them. -/
theorem paralysed_goes_on :
    ∃ error set runners rest,
      ((pass toString "ns/set").run Environment.answer paralysed).1 = .error error ∧
      error.count = 4 ∧
      (pass toString "ns/set").exchanges Environment.answer paralysed =
        ⟨.getSet "ns/set", .ok (some set)⟩ :: ⟨.listRunners "ns/set", .ok runners⟩ :: rest ∧
      Thorough toString set runners rest := by
  obtain ⟨set, hset, -, hheld⟩ := exists_paralysed_set
  obtain ⟨rest, hcalls⟩ := exchanges_paralysed hset hheld
  obtain ⟨hok, hcount, hgoes⟩ :=
    pass_reports_and_goes_on Environment.answer toString "ns/set" paralysed
  have hfailed : ((pass toString "ns/set").exchanges Environment.answer paralysed).countP
      (!·.isTolerated) = 4 := by decide +kernel
  cases hresult : ((pass toString "ns/set").run Environment.answer paralysed).1 with
  | ok _ =>
      have hnone : ((pass toString "ns/set").exchanges Environment.answer paralysed).countP
          (!·.isTolerated) = 0 :=
        List.countP_eq_zero.2 fun e he => by simp [hok.1 hresult e he]
      cases hfailed.symm.trans hnone
  | error error =>
      exact ⟨error, set, _, rest, rfl, (hcount error hresult).trans hfailed, hcalls,
        (hgoes set _ rest hcalls).1⟩

end Reconcile
end RunnerFleet
