import RunnerFleet.Proofs.Reconcile.Deletion

/-!
# Transcripts of programs

A transcript has the calls that a program makes, in order, and the answers that it gets.  After a
transcript the program is left with another one to go on with, or done.  Nothing is said about where
the answers come from, so that what holds of all transcripts holds whatever answers the calls.

Main results:

- `leads_bind`, `leads_map`: a transcript of programs in a row is put together from one of each.
- `Leads.uses`: what all calls of a program have in common, those of a transcript have.
- `leads_exchanges`: what happens in a run is a transcript.
- `leads_discard`, `leads_retire`, `leads_createRunners_cons`: what a transcript of the removal of
  one runner, or of the creation of several, looks like.
- `midway_of_leads`: what a pass has done, and has left to do, after any of its transcripts.
-/

namespace RunnerFleet
namespace Reconcile

open Program

variable {α β σ : Type}

namespace Program

/-- After these calls, answered like this, what is left of a program is another one. -/
inductive Leads : Program α → List Exchange → Program α → Prop where
  | refl (p : Program α) : Leads p [] p
  | step (c : Call) (next : c.Answer → Program α) (answer : c.Answer) {rest : List Exchange}
      {q : Program α} (follows : Leads (next answer) rest q) :
      Leads (call c next) (⟨c, answer⟩ :: rest) q

/-- A program that is done makes no more calls. -/
theorem leads_done {value : α} {t : List Exchange} {q : Program α} :
    (done value).Leads t q ↔ t = [] ∧ q = done value := by
  constructor
  · intro h
    cases h
    exact ⟨rfl, rfl⟩
  · rintro ⟨rfl, rfl⟩
    exact .refl _

theorem leads_done_done {value result : α} {t : List Exchange} :
    (done value).Leads t (done result) ↔ t = [] ∧ result = value := by
  rw [leads_done, Program.done.injEq]

/-- A program that makes a call is done after a transcript that begins with this call. -/
theorem leads_call {c : Call} {next : c.Answer → Program α} {t : List Exchange} {value : α} :
    (call c next).Leads t (done value) ↔
      ∃ answer rest, t = ⟨c, answer⟩ :: rest ∧ (next answer).Leads rest (done value) := by
  constructor
  · intro h
    cases h with
    | step _ _ answer follows => exact ⟨answer, _, rfl, follows⟩
  · rintro ⟨answer, rest, rfl, h⟩
    exact .step c next answer h

/-- A program that is done after one call. -/
theorem leads_call_done {c : Call} {value : c.Answer → α} {t : List Exchange} {result : α} :
    (call c fun answer => done (value answer)).Leads t (done result) ↔
      ∃ answer, t = [⟨c, answer⟩] ∧ result = value answer := by
  rw [leads_call]
  constructor
  · rintro ⟨answer, rest, rfl, h⟩
    obtain ⟨rfl, rfl⟩ := leads_done_done.1 h
    exact ⟨answer, rfl, rfl⟩
  · rintro ⟨answer, rfl, rfl⟩
    exact ⟨answer, [], rfl, .refl _⟩

/-- A transcript goes on with the answer to the next call. -/
theorem Leads.concat {p : Program α} {t : List Exchange} {c : Call}
    {next : c.Answer → Program α} (h : p.Leads t (call c next)) (answer : c.Answer) :
    p.Leads (t ++ [⟨c, answer⟩]) (next answer) := by
  generalize hq : call c next = q at h
  induction h with
  | refl p =>
      subst hq
      exact .step c next answer (.refl _)
  | step c' next' answer' _ ih => exact .step c' next' answer' (ih hq)

/-- A transcript of programs in a row is put together from one of each. -/
theorem leads_bind {p : Program α} {next : α → Program β} {t : List Exchange} {result : β} :
    (p >>= next).Leads t (done result) ↔
      ∃ value first last, t = first ++ last ∧ p.Leads first (done value) ∧
        (next value).Leads last (done result) := by
  change (p.bind next).Leads t (done result) ↔ _
  induction p generalizing t with
  | done value =>
      constructor
      · exact fun h => ⟨value, [], t, rfl, .refl _, h⟩
      · rintro ⟨value', first, last, rfl, hfirst, hlast⟩
        obtain ⟨rfl, rfl⟩ := leads_done_done.1 hfirst
        exact hlast
  | call c rest ih =>
      constructor
      · intro h
        obtain ⟨answer, tail, rfl, htail⟩ := leads_call.1 h
        obtain ⟨value, first, last, rfl, hfirst, hlast⟩ := (ih answer).1 htail
        exact ⟨value, ⟨c, answer⟩ :: first, last, rfl, .step c rest answer hfirst, hlast⟩
      · rintro ⟨value, first, last, rfl, hfirst, hlast⟩
        obtain ⟨answer, tail, rfl, htail⟩ := leads_call.1 hfirst
        exact .step c _ answer ((ih answer).2 ⟨value, tail, last, rfl, htail, hlast⟩)

/-- To go on from a value without a call adds nothing to a transcript. -/
theorem leads_map {p : Program α} {f : α → β} {t : List Exchange} {result : β} :
    (p >>= fun value => done (f value)).Leads t (done result) ↔
      ∃ value, p.Leads t (done value) ∧ result = f value := by
  rw [leads_bind]
  constructor
  · rintro ⟨value, first, last, rfl, hfirst, hlast⟩
    obtain ⟨rfl, rfl⟩ := leads_done_done.1 hlast
    exact ⟨value, by rwa [List.append_nil], rfl⟩
  · rintro ⟨value, hvalue, rfl⟩
    exact ⟨value, t, [], (List.append_nil t).symm, hvalue, .refl _⟩

/-- A program that has one call to make makes no other. -/
theorem leads_lastCall {c c' : Call} {value : c.Answer → α}
    {next : c'.Answer → Program α} {t : List Exchange}
    (h : (call c fun answer => done (value answer)).Leads t (call c' next)) :
    t = [] ∧ call c (fun answer => done (value answer)) = call c' next := by
  generalize hq : call c' next = q at h
  cases h with
  | refl => exact ⟨rfl, rfl⟩
  | step _ _ _ follows =>
      obtain ⟨-, rfl⟩ := leads_done.1 follows
      cases hq

/-- What all calls of a program have in common, those of a transcript have, and those that are yet
to be made. -/
theorem Leads.uses {allowed : Call → Prop} {p q : Program α} {t : List Exchange}
    (h : p.Leads t q) (hp : p.Uses allowed) : (∀ e ∈ t, allowed e.call) ∧ q.Uses allowed := by
  induction h with
  | refl p => exact ⟨fun e he => absurd he List.not_mem_nil, hp⟩
  | step c next answer _ ih =>
      obtain ⟨hrest, hq⟩ := ih (hp.2 answer)
      refine ⟨fun e he => ?_, hq⟩
      rcases List.mem_cons.1 he with rfl | he
      · exact hp.1
      · exact hrest e he

/-- What happens in a run is a transcript. -/
theorem leads_exchanges (answer : (c : Call) → σ → c.Answer × σ) (p : Program α) (state : σ) :
    p.Leads (p.exchanges answer state) (done (p.run answer state).1) := by
  induction p generalizing state with
  | done value => exact .refl _
  | call c next ih => exact .step c next _ (ih _ _)

end Program

/-! ## Single steps -/

/-- The answer to the removal of an object says that there is no such object now. -/
def SaysGone (answer : Except Store.Error Unit) : Prop :=
  answer = .ok () ∨ ∃ e, answer = .error e ∧ e.isNotFound = true

/-- A runner is deleted by one call; it is no error if it is gone. -/
theorem leads_discard {key : String} {r : Runner} {t : List Exchange} {result : Except Error Unit}
    (h : (discard key r).Leads t (done result)) :
    ∃ answer, t = [⟨.deleteRunner key r.name, answer⟩] ∧
      (SaysGone answer ∧ result = .ok () ∨
        ∃ e, answer = .error e ∧ e.isNotFound = false ∧
          result = .error (.deleteRunner r.name e)) := by
  obtain ⟨answer, rest, rfl, hrest⟩ := leads_call.1 h
  cases answer with
  | ok _ =>
      obtain ⟨rfl, rfl⟩ := leads_done_done.1 hrest
      exact ⟨.ok (), rfl, Or.inl ⟨Or.inl rfl, rfl⟩⟩
  | error e =>
      obtain ⟨rfl, hresult⟩ := leads_done.1 hrest
      refine ⟨.error e, rfl, ?_⟩
      cases hgone : e.isNotFound <;> rw [hgone] at hresult <;> cases hresult
      · exact Or.inr ⟨e, rfl, hgone, rfl⟩
      · exact Or.inl ⟨Or.inr ⟨e, rfl, hgone⟩, rfl⟩

/-- A runner is retired by the removal of its registration, and its deletion if that goes well. -/
theorem leads_retire {key : String} {r : Runner} {t : List Exchange} {result : Except Error Bool}
    (h : (retire key r).Leads t (done result)) :
    (∃ e, t = [⟨.deregister r.status.runnerId, .error e⟩] ∧
      result = if e.isJobStillRunning then .ok false
        else .error (.deregister r.name r.status.runnerId e)) ∨
    ∃ rest deleted, t = ⟨.deregister r.status.runnerId, .ok ()⟩ :: rest ∧
      (discard key r).Leads rest (done deleted) ∧ result = deleted.map fun _ => true := by
  obtain ⟨answer, rest, rfl, hrest⟩ := leads_call.1 h
  cases answer with
  | ok _ =>
      have hrest : (discard key r >>= fun deleted => done (deleted.map fun _ => true)).Leads rest
          (done result) := hrest
      obtain ⟨deleted, hdiscard, rfl⟩ := leads_map.1 hrest
      exact Or.inr ⟨rest, deleted, rfl, hdiscard, rfl⟩
  | error e =>
      obtain ⟨rfl, rfl⟩ := leads_done_done.1 hrest
      exact Or.inl ⟨e, rfl, rfl⟩

/-- The first of some runners is created by one call, and the others after it. -/
theorem leads_createRunners_cons {set : RunnerSet} {suffix : String} {rest : List String}
    {t : List Exchange} {errors : List Error}
    (h : (createRunners set (suffix :: rest)).Leads t (done errors)) :
    ∃ answer last others, t = ⟨.createRunner (newRunner set suffix), answer⟩ :: last ∧
      (createRunners set rest).Leads last (done others) ∧
      ((∃ new, answer = .ok new) ∧ errors = others ∨
        ∃ e, answer = .error e ∧ errors = .createRunner set.key e :: others) := by
  obtain ⟨answer, last, rfl, hlast⟩ := leads_call.1 h
  refine ⟨answer, last, ?_⟩
  cases answer with
  | ok new =>
      have hlast : (createRunners set rest >>= fun others => done others).Leads last
          (done errors) := hlast
      obtain ⟨others, hothers, rfl⟩ := leads_map.1 hlast
      exact ⟨errors, rfl, hothers, Or.inl ⟨⟨new, rfl⟩, rfl⟩⟩
  | error e =>
      have hlast : (createRunners set rest >>= fun others =>
          done (.createRunner set.key e :: others)).Leads last (done errors) := hlast
      obtain ⟨others, hothers, rfl⟩ := leads_map.1 hlast
      exact ⟨others, rfl, hothers, Or.inr ⟨e, rfl, rfl⟩⟩

/-! ## The pass -/

/-- What a pass has done and has left to do. -/
inductive Midway (suffix : Nat → String) (key : String) :
    List Exchange → Program (Except Error Unit) → Prop where
  /-- The set was not read yet. -/
  | opening : Midway suffix key [] (pass suffix key)
  | unread (e : Store.Error) :
      Midway suffix key [⟨.getSet key, .error e⟩] (.done (.error (.store e)))
  | missing : Midway suffix key [⟨.getSet key, .ok none⟩] (.done (.ok ()))
  /-- The set is being removed, and the controller has released it. -/
  | released {set : RunnerSet} (unheld : set.hasFinalizer = false)
      (deleting : set.metadata.isDeleting = true) :
      Midway suffix key [⟨.getSet key, .ok (some set)⟩] (.done (.ok ()))
  /-- The set is about to get the finalizer, or has got it. -/
  | adding {set : RunnerSet} {rest : List Exchange} {q : Program (Except Error Unit)}
      (unheld : set.hasFinalizer = false) (live : set.metadata.isDeleting = false)
      (follows : (call (.setFinalizers key (withFinalizer set.metadata)) fun answer =>
        done (tolerateMissing answer)).Leads rest q) :
      Midway suffix key (⟨.getSet key, .ok (some set)⟩ :: rest) q
  /-- The runners of the set are about to be listed. -/
  | listing {set : RunnerSet}
      {rest : (Call.listRunners key).Answer → Program (Except Error Unit)}
      (held : set.hasFinalizer = true) :
      Midway suffix key [⟨.getSet key, .ok (some set)⟩] (.call (.listRunners key) rest)
  | unlisted {set : RunnerSet} (held : set.hasFinalizer = true) (e : Store.Error) :
      Midway suffix key [⟨.getSet key, .ok (some set)⟩, ⟨.listRunners key, .error e⟩]
        (.done (.error (.store e)))
  /-- The pass goes by what it has read. -/
  | acting {set : RunnerSet} {runners : List Runner} {rest : List Exchange}
      {q : Program (Except Error Unit)} (held : set.hasFinalizer = true)
      (follows : (proceed suffix set runners).Leads rest q) :
      Midway suffix key
        (⟨.getSet key, .ok (some set)⟩ :: ⟨.listRunners key, .ok runners⟩ :: rest) q

/-- Every transcript of a pass is one of these. -/
theorem midway_of_leads {suffix : Nat → String} {key : String} {t : List Exchange}
    {q : Program (Except Error Unit)} (h : (pass suffix key).Leads t q) :
    Midway suffix key t q := by
  cases h with
  | refl => exact .opening
  | step _ _ found follows =>
      rcases found with e | _ | set
      · obtain ⟨rfl, rfl⟩ := leads_done.1 follows
        exact .unread e
      · obtain ⟨rfl, rfl⟩ := leads_done.1 follows
        exact .missing
      · change (if set.hasFinalizer then _ else _ : Program (Except Error Unit)).Leads _ q at follows
        cases hheld : set.hasFinalizer with
        | true =>
            rw [if_pos hheld] at follows
            cases follows with
            | refl => exact .listing hheld
            | step _ _ listed follows =>
                rcases listed with e | runners
                · obtain ⟨rfl, rfl⟩ := leads_done.1 follows
                  exact .unlisted hheld e
                · exact .acting hheld follows
        | false =>
            rw [if_neg (by simp [hheld])] at follows
            cases hdeleting : set.metadata.isDeleting with
            | true =>
                rw [if_pos hdeleting] at follows
                obtain ⟨rfl, rfl⟩ := leads_done.1 follows
                exact .released hheld hdeleting
            | false =>
                rw [if_neg (by simp [hdeleting])] at follows
                exact .adding hheld hdeleting follows

/-- What a pass goes by is what it has read under the key of its set. -/
theorem Midway.mem_of_firstRead {suffix : Nat → String} {key : String} {calls : List Exchange}
    {q : Program (Except Error Unit)} (h : Midway suffix key calls q) {set : RunnerSet}
    (hread : firstRead calls = some set) : ⟨.getSet key, .ok (some set)⟩ ∈ calls := by
  cases h with
  | opening | unread | missing => cases hread
  | released | adding | listing | unlisted | acting =>
      cases hread
      exact List.mem_cons_self

/-- The call that a pass is about to make, after what it has done. -/
inductive Due (suffix : Nat → String) (key : String) :
    List Exchange → (c : Call) → (c.Answer → Program (Except Error Unit)) → Prop where
  | reading (next : (Call.getSet key).Answer → Program (Except Error Unit)) :
      Due suffix key [] (.getSet key) next
  | adding {set : RunnerSet} (unheld : set.hasFinalizer = false)
      (live : set.metadata.isDeleting = false) :
      Due suffix key [⟨.getSet key, .ok (some set)⟩]
        (.setFinalizers key (withFinalizer set.metadata))
        fun answer => done (tolerateMissing answer)
  | listing {set : RunnerSet} (held : set.hasFinalizer = true)
      (next : (Call.listRunners key).Answer → Program (Except Error Unit)) :
      Due suffix key [⟨.getSet key, .ok (some set)⟩] (.listRunners key) next
  | acting {set : RunnerSet} {runners : List Runner} {rest : List Exchange} {c : Call}
      {next : c.Answer → Program (Except Error Unit)} (held : set.hasFinalizer = true)
      (follows : (proceed suffix set runners).Leads rest (.call c next)) :
      Due suffix key
        (⟨.getSet key, .ok (some set)⟩ :: ⟨.listRunners key, .ok runners⟩ :: rest) c next

section

variable {suffix : Nat → String} {key : String} {calls : List Exchange} {c : Call}
  {next : c.Answer → Program (Except Error Unit)}

/-- A pass makes no other calls than these. -/
theorem Midway.due (h : Midway suffix key calls (.call c next)) : Due suffix key calls c next := by
  generalize hp : Program.call c next = p at h
  cases h with
  | opening =>
      obtain ⟨first, hfirst, -⟩ := pass_opens suffix key
      cases hp.trans hfirst
      exact .reading _
  | unread | missing | released | unlisted => cases hp
  | adding unheld live follows =>
      subst hp
      obtain ⟨rfl, hcall⟩ := leads_lastCall follows
      cases hcall
      exact .adding unheld live
  | listing held =>
      cases hp
      exact .listing held _
  | acting held follows =>
      subst hp
      exact .acting held follows

/-- A pass that has read no set yet is about to. -/
theorem Due.eq_getSet (h : Due suffix key calls c next) (hunread : firstRead calls = none) :
    calls = [] ∧ c = .getSet key := by
  cases h with
  | reading => exact ⟨rfl, rfl⟩
  | adding | listing | acting => cases hunread

/-- The first runners that a pass lists are those of its set. -/
theorem Due.eq_of_listRunners {k : String}
    {next : (Call.listRunners k).Answer → Program (Except Error Unit)}
    (h : Due suffix key calls (.listRunners k) next) (hunlisted : firstListing calls = none) :
    k = key := by
  cases h with
  | listing => rfl
  | acting => cases hunlisted

end

end Reconcile
end RunnerFleet
