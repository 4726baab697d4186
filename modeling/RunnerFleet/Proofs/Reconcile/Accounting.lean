import RunnerFleet.Proofs.Reconcile.Reclaiming

/-!
# The errors of a pass are those of its calls

A call may go well, or fail in a way that is no error: what was to be removed or written is gone, or
a runner that was to be reclaimed has taken a job.  Every other failure is reported, once, and the
reports come in the order of the calls.

Main results:

- `Accounts.append`: the errors of calls in a row are those of the first and those of the others.
- `accounts_cleanup`, `accounts_createRunners`, `accounts_reclaim`: the errors of steps over many
  runners.
- `collects_pass`: the result of a pass collects the errors of its calls.
-/

namespace RunnerFleet
namespace Reconcile

open Program

/-! ## Errors of calls -/

/-- The call went well, or failed in a way that is no error. -/
def Exchange.isTolerated : Exchange → Bool
  | ⟨.getSet _, .error _⟩ => false
  | ⟨.listRunners _, .error _⟩ => false
  | ⟨.createRunner _, .error _⟩ => false
  | ⟨.deleteRunner _ _, .error e⟩ => e.isNotFound
  | ⟨.updateStatus _ _, .error e⟩ => e.isNotFound
  | ⟨.setFinalizers _ _, .error e⟩ => e.isNotFound
  | ⟨.deregister _, .error e⟩ => e.isJobStillRunning
  | _ => true

/-- The call failed, and this is the error by which that is reported. -/
inductive Exchange.Reports : Exchange → Error → Prop where
  | getSet (key : String) (e : Store.Error) : Reports ⟨.getSet key, .error e⟩ (.store e)
  | listRunners (key : String) (e : Store.Error) : Reports ⟨.listRunners key, .error e⟩ (.store e)
  | createRunner {r : Runner} {key : String} (owner : r.ownerKey = some key) (e : Store.Error) :
      Reports ⟨.createRunner r, .error e⟩ (.createRunner key e)
  | deleteRunner (owner name : String) {e : Store.Error} (present : e.isNotFound = false) :
      Reports ⟨.deleteRunner owner name, .error e⟩ (.deleteRunner name e)
  | updateStatus (key : String) (status : RunnerSetStatus) {e : Store.Error}
      (present : e.isNotFound = false) : Reports ⟨.updateStatus key status, .error e⟩ (.store e)
  | setFinalizers (key : String) (finalizers : List String) {e : Store.Error}
      (present : e.isNotFound = false) :
      Reports ⟨.setFinalizers key finalizers, .error e⟩ (.store e)
  | deregister (name : String) (runnerId : Int) {e : Actions.Error}
      (idle : e.isJobStillRunning = false) :
      Reports ⟨.deregister runnerId, .error e⟩ (.deregister name runnerId e)

/-- These are the errors of the calls, in order. -/
inductive Accounts : List Exchange → List Error → Prop where
  | nil : Accounts [] []
  | tolerated {e : Exchange} {t : List Exchange} {errors : List Error}
      (tolerated : e.isTolerated = true) (rest : Accounts t errors) : Accounts (e :: t) errors
  | reported {e : Exchange} {error : Error} {t : List Exchange} {errors : List Error}
      (reports : e.Reports error) (rest : Accounts t errors) : Accounts (e :: t) (error :: errors)

/-- The errors of calls in a row are those of the first and those of the others. -/
theorem Accounts.append {t t' : List Exchange} {errors errors' : List Error}
    (h : Accounts t errors) (h' : Accounts t' errors') :
    Accounts (t ++ t') (errors ++ errors') := by
  induction h with
  | nil => exact h'
  | tolerated tolerated _ ih => exact .tolerated tolerated ih
  | reported reports _ ih => exact .reported reports ih

/-! ## Steps -/

variable {key : String} {set : RunnerSet} {fleet : Fleet} {t : List Exchange}

theorem accounts_discard {r : Runner} {result : Except Error Unit}
    (h : (discard key r).Leads t (done result)) : Accounts t (errorsOf result) := by
  obtain ⟨answer, rfl, ⟨rfl | ⟨e, rfl, hgone⟩, rfl⟩ | ⟨e, rfl, hpresent, rfl⟩⟩ := leads_discard h
  · exact .tolerated rfl .nil
  · exact .tolerated hgone .nil
  · exact .reported (.deleteRunner key r.name hpresent) .nil

theorem accounts_cleanup {runners : List Runner} {errors : List Error}
    (h : (cleanup key runners).Leads t (done errors)) : Accounts t errors := by
  induction runners generalizing t errors with
  | nil =>
      obtain ⟨rfl, rfl⟩ := leads_done_done.1 h
      exact .nil
  | cons r rest ih =>
      obtain ⟨result, first, last, rfl, hfirst, hlast⟩ := leads_bind.1 h
      obtain ⟨others, hothers, rfl⟩ := leads_map.1 hlast
      exact (accounts_discard hfirst).append (ih hothers)

theorem accounts_createRunners {suffixes : List String} {errors : List Error}
    (h : (createRunners set suffixes).Leads t (done errors)) : Accounts t errors := by
  induction suffixes generalizing t errors with
  | nil =>
      obtain ⟨rfl, rfl⟩ := leads_done_done.1 h
      exact .nil
  | cons suffix rest ih =>
      obtain ⟨answer, last, others, rfl, hothers, ⟨⟨new, rfl⟩, rfl⟩ | ⟨e, rfl, rfl⟩⟩ :=
        leads_createRunners_cons h
      · exact .tolerated rfl (ih hothers)
      · exact .reported (.createRunner (newRunner_ownerKey set suffix) e) (ih hothers)

/-- The errors of an attempt to reclaim a runner are those of its calls. -/
theorem Attempt.Proper.accounts {a : Attempt} (h : a.Proper key) : Accounts a.calls a.errors := by
  cases h with
  | removed r answer hgone =>
      rcases hgone with rfl | ⟨e, rfl, hgone⟩
      · exact .tolerated rfl (.tolerated rfl .nil)
      · exact .tolerated rfl (.tolerated hgone .nil)
  | busy r e hworking => exact .tolerated hworking .nil
  | refused r e hidle => exact .reported (.deregister r.name r.status.runnerId hidle) .nil
  | kept r e hpresent => exact .tolerated rfl (.reported (.deleteRunner key r.name hpresent) .nil)

theorem accounts_reclaim {count : Nat} {runners : List Runner} {result : Nat × List Error}
    (h : (reclaim key count runners).Leads t (done result)) : Accounts t result.2 := by
  obtain ⟨attempts, hwalk, rfl, rfl⟩ := exists_walk h
  suffices hall : ∀ attempts : List Attempt, (∀ a ∈ attempts, a.Proper key) →
      Accounts (attempts.flatMap Attempt.calls) (attempts.flatMap Attempt.errors) by
    exact hall attempts hwalk.proper
  intro attempts
  induction attempts with
  | nil => exact fun _ => .nil
  | cons a rest ih =>
      intro hproper
      have hrest := ih fun b hb => hproper b (List.mem_cons_of_mem _ hb)
      exact (hproper a List.mem_cons_self).accounts.append hrest

theorem accounts_closeGap {suffix : Nat → String} {errors : List Error}
    (h : (closeGap suffix set fleet).Leads t (done errors)) : Accounts t errors := by
  rw [closeGap] at h
  split at h
  · obtain ⟨rfl, rfl⟩ := leads_done_done.1 h
    exact .nil
  · exact accounts_createRunners h
  · obtain ⟨result, hreclaim, rfl⟩ := leads_map.1 h
    exact accounts_reclaim hreclaim

theorem accounts_review {acted : Bool} {result : Fleet × List Error}
    (h : (review set fleet acted).Leads t (done result)) : Accounts t result.2 := by
  cases acted with
  | false =>
      obtain ⟨rfl, rfl⟩ := leads_done_done.1 h
      exact .nil
  | true =>
      obtain ⟨answer, last, rfl, hlast⟩ := leads_call.1 h
      cases answer with
      | ok runners =>
          obtain ⟨rfl, rfl⟩ := leads_done_done.1 hlast
          exact .tolerated rfl .nil
      | error e =>
          obtain ⟨rfl, rfl⟩ := leads_done_done.1 hlast
          exact .reported (.listRunners set.key e) .nil

/-- A write to an object reports every failure but that the object is gone. -/
theorem errorsOf_tolerateMissing (answer : Except Store.Error Unit) :
    SaysGone answer ∧ errorsOf (tolerateMissing answer) = [] ∨
      ∃ e, answer = .error e ∧ e.isNotFound = false ∧
        errorsOf (tolerateMissing answer) = [.store e] := by
  rcases answer with e | _
  · cases hgone : e.isNotFound with
    | true => exact Or.inl ⟨Or.inr ⟨e, rfl, hgone⟩, by rw [tolerateMissing, if_pos hgone]; rfl⟩
    | false =>
        refine Or.inr ⟨e, rfl, hgone, ?_⟩
        rw [tolerateMissing, if_neg (by rw [hgone]; exact Bool.false_ne_true)]
        rfl
  · exact Or.inl ⟨Or.inl rfl, rfl⟩

theorem accounts_writeStatus {errors : List Error}
    (h : (writeStatus set fleet).Leads t (done errors)) : Accounts t errors := by
  rw [writeStatus] at h
  split at h
  · obtain ⟨rfl, rfl⟩ := leads_done_done.1 h
    exact .nil
  · obtain ⟨answer, rfl, rfl⟩ := leads_call_done.1 h
    rcases errorsOf_tolerateMissing answer with
      ⟨rfl | ⟨e, rfl, hgone⟩, herrors⟩ | ⟨e, rfl, hpresent, herrors⟩
    · exact herrors ▸ .tolerated rfl .nil
    · exact herrors ▸ .tolerated hgone .nil
    · exact herrors ▸ .reported (.updateStatus set.key fleet.status hpresent) .nil

/-! ## The pass -/

/-- The result collects the errors of the calls. -/
def Collects (t : List Exchange) (result : Except Error Unit) : Prop :=
  ∃ errors, Accounts t errors ∧ result = Error.collect errors

theorem collects_writeFinalizers (key : String) (finalizers : List String)
    (answer : Except Store.Error Unit) :
    Collects [⟨.setFinalizers key finalizers, answer⟩] (tolerateMissing answer) := by
  have hcollect : tolerateMissing answer = Error.collect (errorsOf (tolerateMissing answer)) := by
    cases tolerateMissing answer <;> rfl
  refine ⟨_, ?_, hcollect⟩
  rcases errorsOf_tolerateMissing answer with
    ⟨rfl | ⟨e, rfl, hgone⟩, herrors⟩ | ⟨e, rfl, hpresent, herrors⟩
  · exact herrors ▸ .tolerated rfl .nil
  · exact herrors ▸ .tolerated hgone .nil
  · exact herrors ▸ .reported (.setFinalizers key finalizers hpresent) .nil

theorem collects_converge {suffix : Nat → String} {result : Except Error Unit}
    (h : (converge suffix set fleet).Leads t (done result)) : Collects t result := by
  obtain ⟨cleanupErrors, t₁, rest, rfl, hcleanup, h⟩ := leads_bind.1 h
  obtain ⟨gapErrors, t₂, rest, rfl, hgap, h⟩ := leads_bind.1 h
  obtain ⟨⟨reviewed, reviewErrors⟩, t₃, rest, rfl, hreview, h⟩ := leads_bind.1 h
  obtain ⟨statusErrors, hstatus, rfl⟩ := leads_map.1 h
  refine ⟨_, ?_, rfl⟩
  have hclosed := (accounts_cleanup hcleanup).append (accounts_closeGap hgap)
  have hreported := (accounts_review hreview).append (accounts_writeStatus hstatus)
  have hall := hclosed.append hreported
  rwa [List.append_assoc, ← List.append_assoc _ reviewErrors] at hall

theorem collects_drain {result : Except Error Unit}
    (h : (drain set fleet).Leads t (done result)) : Collects t result := by
  obtain ⟨cleanupErrors, t₁, rest, rfl, hcleanup, h⟩ := leads_bind.1 h
  obtain ⟨⟨n, reclaimErrors⟩, hreclaim, rfl⟩ := leads_map.1 h
  exact ⟨_, (accounts_cleanup hcleanup).append (accounts_reclaim hreclaim), rfl⟩

theorem collects_proceed {suffix : Nat → String} {runners : List Runner}
    {result : Except Error Unit} (h : (proceed suffix set runners).Leads t (done result)) :
    Collects t result := by
  rw [proceed] at h
  split at h
  · exact collects_converge h
  · exact collects_drain h
  · obtain ⟨answer, rfl, rfl⟩ := leads_call_done.1 h
    exact collects_writeFinalizers set.key _ answer

/-- The result of a pass collects the errors of its calls. -/
theorem collects_pass {suffix : Nat → String} {result : Except Error Unit}
    (h : (pass suffix key).Leads t (done result)) : Collects t result := by
  generalize hq : (done result : Program (Except Error Unit)) = q at h
  cases midway_of_leads h with
  | opening =>
      obtain ⟨next, hnext, -⟩ := pass_opens suffix key
      cases hq.trans hnext
  | unread e =>
      cases hq
      exact ⟨[.store e], .reported (.getSet key e) .nil, rfl⟩
  | missing =>
      cases hq
      exact ⟨[], .tolerated rfl .nil, rfl⟩
  | released =>
      cases hq
      exact ⟨[], .tolerated rfl .nil, rfl⟩
  | adding _ _ follows =>
      subst hq
      obtain ⟨answer, rfl, rfl⟩ := leads_call_done.1 follows
      obtain ⟨errors, haccounts, hresult⟩ := collects_writeFinalizers key _ answer
      exact ⟨errors, .tolerated rfl haccounts, hresult⟩
  | listing => cases hq
  | unlisted held e =>
      cases hq
      exact ⟨[.store e], .tolerated rfl (.reported (.listRunners key e) .nil), rfl⟩
  | acting held follows =>
      subst hq
      obtain ⟨errors, haccounts, hresult⟩ := collects_proceed follows
      exact ⟨errors, .tolerated rfl (.tolerated rfl haccounts), hresult⟩

end Reconcile
end RunnerFleet
