import RunnerFleet.Proofs.Daemon.Lifetimes
import RunnerFleet.Proofs.Reconcile.Calls
import RunnerFleet.Proofs.Scaling.Decision
import RunnerFleet.Proofs.Store.Spec
import RunnerFleet.Proofs.Text.Decimal

/-!
# For which decision each runner was created

The notes kept beside the lifetimes of daemons are true: what is stored is the last decision that
was written, every runner was created for a decision that was written before, and bears its id.
Within one lifetime, decisions with the same id ask for the same number of runners.

Main results:

- `Chronicle.write`: what a listener decides agrees with what it has decided before.
- `Sound.step`: whatever happens next, the notes stay true.
-/

namespace RunnerFleet
namespace Daemon

open Reconcile Store

/-- A new runner bears the id of the decision that it was made for, if that fits into 64 bits. -/
theorem patchId_newRunner (set : RunnerSet) (suffix : String) :
    (newRunner set suffix).patchId =
      if -2 ^ 63 ≤ set.spec.patchId ∧ set.spec.patchId < 2 ^ 63 then some set.spec.patchId
      else none := by
  have hnote : (newRunner set suffix).metadata.annotations.get? Runner.patchAnnotation =
      some (toString set.spec.patchId) := by
    simp [newRunner]
  rw [Runner.patchId, hnote, Option.bind_some, Text.toInt64?_trimBlanks_toString]

namespace Lives

/-! ## The notes -/

/-- The stored set is not being removed, and is asked for what the stored decision says. -/
def Asks (key : String) (s : Store) (current : Origin) : Prop :=
  ∃ set, s.getSet key = some set ∧ set.metadata.isDeleting = false ∧
    set.spec.replicas = current.patch.replicas ∧ set.spec.patchId = current.patch.patchId

/-- Every runner of the set was created for a decision that was written and asks for runners, and
bears its id. -/
def Ledger (key : String) (s : Store) (origins : KeyMap Origin) (written : List Origin) : Prop :=
  ∀ k r, s.runners.get? k = some r → r.ownerKey = some key →
    ∃ o ∈ written, origins.get? k = some o ∧ 0 < o.patch.replicas ∧
      ∀ id, r.patchId = some id → id = o.patch.patchId

/-- What is known of the decisions that were written, and of the listener that writes them. -/
structure Chronicle (plan : Plan) (lifetime : Nat) (listener : Scaling.Listener) (current : Origin)
    (written : List Origin) : Prop where
  /-- Every number is a target within the bounds of its lifetime. -/
  target : ∀ o ∈ written, ∃ a, o.patch.replicas = (plan.bounds o.lifetime).target a
  /-- In one lifetime, the same id means the same number. -/
  consistent : ∀ o ∈ written, ∀ o' ∈ written, o.lifetime = o'.lifetime →
    o.patch.patchId = o'.patch.patchId → o.patch.replicas = o'.patch.replicas
  notAfter : ∀ o ∈ written, o.lifetime ≤ current.lifetime
  last : current ∈ written ∨ written = [] ∧ current.patch.replicas = 0
  started : current.lifetime ≤ lifetime
  bounds : listener.bounds = plan.bounds lifetime
  decided : ∀ p, listener.decision = some p → ∃ a, p.replicas = (plan.bounds lifetime).target a
  /-- What was written in this lifetime does not go beyond the last decision. -/
  own : ∀ o ∈ written, o.lifetime = lifetime → ∃ p, listener.decision = some p ∧
    o.patch.patchId ≤ p.patchId ∧ (o.patch.patchId = p.patchId → o.patch.replicas = p.replicas)
  applied : ∀ p, listener.applied = some p → current = ⟨lifetime, p⟩

/-- A pass has yet to read its set, or goes on from a decision that it has read. -/
def Reads (key : String) (written : List Origin) : Option Progress → Prop
  | none => True
  | some ⟨program, none⟩ => ∃ suffix, program = Reconcile.pass suffix key
  | some ⟨program, some o⟩ =>
      ∃ set : RunnerSet, set.key = key ∧ set.spec.replicas = o.patch.replicas ∧
        set.spec.patchId = o.patch.patchId ∧ (o ∈ written ∨ o.patch.replicas = 0) ∧
        program.Uses (Call.Follows set)

/-- The notes are true. -/
structure Sound (plan : Plan) (l : Lives) : Prop where
  keyed : l.store.Keyed
  asks : Asks plan.key l.store l.current
  ledger : Ledger plan.key l.store l.origins l.written
  chronicle : Chronicle plan l.lifetime l.listener l.current l.written
  reads : Reads plan.key l.written l.pass

/-! ## Decisions -/

section Decisions

variable {plan : Plan} {lifetime : Nat} {listener : Scaling.Listener} {current : Origin}
  {written : List Origin}

/-- A decision is a target, and agrees with what was written in the same lifetime. -/
theorem Chronicle.decisionFor (h : Chronicle plan lifetime listener current written)
    (batch : JobBatch) :
    (∃ a, (listener.decisionFor batch).replicas = (plan.bounds lifetime).target a) ∧
      ∀ o ∈ written, o.lifetime = lifetime →
        o.patch.patchId ≤ (listener.decisionFor batch).patchId ∧
          (o.patch.patchId = (listener.decisionFor batch).patchId →
            o.patch.replicas = (listener.decisionFor batch).replicas) := by
  rw [Scaling.Listener.decisionFor, h.bounds]
  cases hlast : listener.decision with
  | none =>
      refine ⟨⟨batch.acquired, rfl⟩, ?_⟩
      intro o ho hlifetime
      obtain ⟨p, hp, -⟩ := h.own o ho hlifetime
      rw [hlast] at hp
      cases hp
  | some last =>
      have htarget := h.decided last hlast
      obtain ⟨hle, heq⟩ := Scaling.next_some_patchId (plan.bounds lifetime) htarget batch
      refine ⟨Scaling.next_some_replicas _ htarget batch, ?_⟩
      intro o ho hlifetime
      obtain ⟨p, hp, hle', heq'⟩ := h.own o ho hlifetime
      obtain rfl : p = last := Option.some.inj (hp.symm.trans hlast)
      refine ⟨by omega, fun hid => ?_⟩
      exact (heq' (by omega)).trans (heq (by omega))

/-- A decision that was made, but not written. -/
theorem Chronicle.decide (h : Chronicle plan lifetime listener current written) (batch : JobBatch) :
    Chronicle plan lifetime { listener with decision := some (listener.decisionFor batch) } current
      written := by
  obtain ⟨htarget, hown⟩ := h.decisionFor batch
  refine { h with decided := ?_, own := ?_ }
  · intro p hp
    exact Option.some.inj hp ▸ htarget
  · intro o ho hlifetime
    exact ⟨_, rfl, hown o ho hlifetime⟩

/-- A decision that was made and written. -/
theorem Chronicle.write (h : Chronicle plan lifetime listener current written) (batch : JobBatch) :
    Chronicle plan lifetime
      { listener with
        decision := some (listener.decisionFor batch)
        applied := some (listener.decisionFor batch) }
      ⟨lifetime, listener.decisionFor batch⟩
      (written ++ [⟨lifetime, listener.decisionFor batch⟩]) := by
  obtain ⟨htarget, hown⟩ := h.decisionFor batch
  have hsplit : ∀ o, o ∈ written ++ [⟨lifetime, listener.decisionFor batch⟩] →
      o ∈ written ∨ o = ⟨lifetime, listener.decisionFor batch⟩ := by
    intro o ho
    simpa using ho
  refine ⟨?_, ?_, ?_, ?_, ?_, h.bounds, ?_, ?_, ?_⟩
  · intro o ho
    rcases hsplit o ho with ho | rfl
    · exact h.target o ho
    · exact htarget
  · intro o ho o' ho' hlifetime hid
    rcases hsplit o ho with ho | rfl <;> rcases hsplit o' ho' with ho' | rfl
    · exact h.consistent o ho o' ho' hlifetime hid
    · exact (hown o ho hlifetime).2 hid
    · exact ((hown o' ho' hlifetime.symm).2 hid.symm).symm
    · rfl
  · intro o ho
    rcases hsplit o ho with ho | rfl
    · exact Nat.le_trans (h.notAfter o ho) h.started
    · exact Nat.le_refl _
  · exact Or.inl (List.mem_append_right _ List.mem_cons_self)
  · exact Nat.le_refl _
  · intro p hp
    exact Option.some.inj hp ▸ htarget
  · intro o ho hlifetime
    refine ⟨_, rfl, ?_⟩
    rcases hsplit o ho with ho | rfl
    · exact hown o ho hlifetime
    · exact ⟨Int.le_refl _, fun _ => rfl⟩
  · intro p hp
    rw [Option.some.inj hp]

/-- The next daemon starts with a listener that has decided nothing. -/
theorem Chronicle.restart (h : Chronicle plan lifetime listener current written) :
    Chronicle plan (lifetime + 1) { bounds := plan.bounds (lifetime + 1) } current written where
  target := h.target
  consistent := h.consistent
  notAfter := h.notAfter
  last := h.last
  started := Nat.le_succ_of_le h.started
  bounds := rfl
  decided := fun p hp => nomatch hp
  own := by
    intro o ho hlifetime
    have hle := Nat.le_trans (h.notAfter o ho) h.started
    omega
  applied := fun p hp => nomatch hp

end Decisions

/-! ## Operations on the store -/

section Operations

variable {key : String} {s : Store} {current : Origin} {origins : KeyMap Origin}
  {written : List Origin}

/-- Only a decision changes what the set is asked for, and only a request removes it. -/
theorem Asks.perform (h : Asks key s current) (stamp : Stamp) {op : Operation}
    (hdelete : op ≠ .deleteSet key)
    (hpatch : ∀ replicas patchId, op ≠ .patchSpec key replicas patchId) :
    Asks key (s.perform stamp op).store current := by
  obtain ⟨set, hset, hlive, hreplicas, hid⟩ := h
  obtain ⟨new, hnew, hlive', hspec⟩ := spec_of_onSet stamp hlive hdelete hpatch
  refine ⟨new, ?_, hlive', ?_, ?_⟩
  · rw [getSet_perform, hset, hnew]
  · rw [hspec, hreplicas]
  · rw [hspec, hid]

/-- The write of a decision is accepted, and the set is asked for what it says. -/
theorem Asks.patchSpec (h : Asks key s current) (stamp : Stamp) (o : Origin) :
    (∃ new, (s.perform stamp (.patchSpec key o.patch.replicas o.patch.patchId)).result = .ok new) ∧
      Asks key (s.perform stamp (.patchSpec key o.patch.replicas o.patch.patchId)).store o := by
  obtain ⟨set, hset, hlive, -, -⟩ := h
  refine ⟨patchSpec_ok hset hlive stamp _ _, ?_⟩
  obtain ⟨new, hnew, hlive', hreplicas, hid, -⟩ :=
    spec_of_patchSpec stamp key hlive o.patch.replicas o.patch.patchId
  exact ⟨new, by rw [getSet_perform, hset, hnew], hlive', hreplicas, hid⟩

/-- An operation that creates no runner keeps the ledger. -/
theorem Ledger.perform (h : Ledger key s origins written) (stamp : Stamp) {op : Operation}
    (hcreate : ∀ r, op ≠ .createRunner r) :
    Ledger key (s.perform stamp op).store origins written := by
  intro k r hr howner
  rw [getRunner_perform] at hr
  rcases onRunner_cases hr with ⟨old, hold, hakin⟩ | ⟨-, new, hop, -⟩
  · obtain ⟨o, ho, hget, hpos, hid⟩ := h k old hold (hakin.owner.symm.trans howner)
    exact ⟨o, ho, hget, hpos, fun id hr => hid id (hakin.patchId.symm.trans hr)⟩
  · exact absurd hop (hcreate new)

/-- More decisions may have been written. -/
theorem Ledger.mono (h : Ledger key s origins written) (more : List Origin) :
    Ledger key s origins (written ++ more) := by
  intro k r hr howner
  obtain ⟨o, ho, hnote⟩ := h k r hr howner
  exact ⟨o, List.mem_append_left _ ho, hnote⟩

/-- A new runner is entered with the decision that it was created for. -/
theorem Ledger.createRunner {set : RunnerSet} {suffix : String} {o : Origin}
    (h : Ledger set.key s origins written) (hid : set.spec.patchId = o.patch.patchId)
    (ho : o ∈ written) (hpos : 0 < o.patch.replicas)
    (hnew : s.runners.get? (runnerKey set.key (newRunner set suffix).name) = none) (stamp : Stamp) :
    Ledger set.key (s.perform stamp (.createRunner (newRunner set suffix))).store
      (origins.insert (runnerKey set.key (newRunner set suffix).name) o) written := by
  intro k r hr howner
  rw [getRunner_perform] at hr
  rw [KeyMap.get?_insert]
  rcases onRunner_cases hr with ⟨old, hold, hakin⟩ | ⟨-, new, hop, rfl, hkey⟩
  · have hne : k ≠ runnerKey set.key (newRunner set suffix).name := by
      rintro rfl
      rw [hnew] at hold
      cases hold
    rw [if_neg hne]
    obtain ⟨o', ho', hget, hpos', hid'⟩ := h k old hold (hakin.owner.symm.trans howner)
    exact ⟨o', ho', hget, hpos', fun id hr => hid' id (hakin.patchId.symm.trans hr)⟩
  · injection hop with hop
    subst hop
    rw [newRunner_ownerKey, Option.map_some] at hkey
    rw [if_pos (Option.some.inj hkey).symm]
    refine ⟨o, ho, rfl, hpos, fun id hr => ?_⟩
    have hr := (patchId_newRunner set suffix).symm.trans hr
    split at hr
    · exact (Option.some.inj hr).symm.trans hid
    · cases hr

end Operations

/-! ## Calls of a pass -/

section Calls

variable {key : String} {s after : Store} {current : Origin} {origins : KeyMap Origin}
  {written : List Origin} {c : Call} {reply : c.Answer}

/-- No call changes what the set is asked for. -/
theorem Asks.answered (h : Asks key s current) (hanswered : c.Answered s reply after) :
    Asks key after current := by
  rcases hanswered.store with rfl | ⟨op, stamp, hop, rfl⟩
  · exact h
  · refine h.perform stamp ?_ ?_
    · rintro rfl
      cases c <;> cases hop
    · rintro replicas patchId rfl
      cases c <;> cases hop

/-- A call that creates no runner keeps the ledger. -/
theorem Ledger.answered (h : Ledger key s origins written) (hanswered : c.Answered s reply after)
    (hcreate : ∀ r, c ≠ .createRunner r) : Ledger key after origins written := by
  rcases hanswered.store with rfl | ⟨op, stamp, hop, rfl⟩
  · exact h
  · refine h.perform stamp ?_
    rintro r rfl
    cases c <;> cases hop
    exact hcreate r rfl

/-- More decisions may have been written. -/
theorem Reads.mono {pass : Option Progress} (h : Reads key written pass) (more : List Origin) :
    Reads key (written ++ more) pass := by
  rcases pass with _ | ⟨program, _ | o⟩
  · trivial
  · exact h
  · obtain ⟨set, hkey, hreplicas, hid, ho, huses⟩ := h
    exact ⟨set, hkey, hreplicas, hid, ho.imp_left (List.mem_append_left _), huses⟩

/-- A pass that is over has nothing left to do. -/
theorem Reads.remaining {p : Progress} (h : Reads key written (some p)) :
    Reads key written p.remaining := by
  rcases p with ⟨value | ⟨c, next⟩, read⟩
  · trivial
  · exact h

variable {next : c.Answer → Program (Except Reconcile.Error Unit)} {read : Option Origin}

/-- A pass goes on from the decision that it reads. -/
theorem Reads.answered (h : Reads key written (some ⟨.call c next, read⟩)) (hkeyed : s.Keyed)
    (hasks : Asks key s current) (hcurrent : current ∈ written ∨ current.patch.replicas = 0)
    (hanswered : c.Answered s reply after) :
    Reads key written (Progress.remaining ⟨next reply, noteRead current read ⟨c, reply⟩⟩) := by
  cases read with
  | none =>
      obtain ⟨suffix, hprogram⟩ := h
      obtain ⟨first, hfirst, herror, hnone, hfound⟩ := pass_eq_call suffix key
      cases hprogram.trans hfirst
      rcases reply with e | _ | set
      · rw [herror]
        trivial
      · rw [hnone]
        trivial
      · obtain ⟨set', hset, hlive, hreplicas, hid⟩ := hasks
        obtain rfl : set' = set := Option.some.inj (hset.symm.trans hanswered.getSet.2)
        have hkey : set'.key = key := hkeyed.set hset
        have hread : noteRead current none ⟨.getSet key, .ok (some set')⟩ = some current := by
          rw [noteRead, hreplicas, hid]
        rw [hread]
        refine Reads.remaining (p := ⟨first (.ok (some set')), some current⟩) ?_
        exact ⟨set', hkey, hreplicas, hid, hcurrent, hfound set' hkey hlive⟩
  | some o =>
      obtain ⟨set, hkey, hreplicas, hid, ho, hfollows, huses⟩ := h
      have hread : noteRead current (some o) ⟨c, reply⟩ = some o := by
        rcases hfollows with ⟨runners, hserves⟩ | rfl
        · cases hserves <;> rfl
        · rfl
      rw [hread]
      refine Reads.remaining (p := ⟨next reply, some o⟩) ?_
      exact ⟨set, hkey, hreplicas, hid, ho, huses reply⟩

/-- A runner that a pass creates is entered with the decision that the pass has read. -/
theorem Ledger.pass (h : Ledger key s origins written)
    (hreads : Reads key written (some ⟨.call c next, read⟩))
    (hanswered : c.Answered s reply after) :
    Ledger key after (noteCreated key read origins ⟨c, reply⟩) written := by
  cases read with
  | none =>
      obtain ⟨suffix, hprogram⟩ := hreads
      obtain ⟨first, hfirst, -⟩ := pass_eq_call suffix key
      cases hprogram.trans hfirst
      exact h.answered hanswered (fun r => nofun)
  | some o =>
      obtain ⟨set, rfl, hreplicas, hid, ho, hfollows, -⟩ := hreads
      rcases hfollows with ⟨runners, hserves⟩ | rfl
      · cases hserves with
        | createRunner suffix hwanted =>
            have hpos : 0 < o.patch.replicas := hreplicas ▸ hwanted
            rcases reply with e | new
            · rw [hanswered.createRunner_error (newRunner_ownerKey set suffix)]
              exact h
            · obtain ⟨hnew, stamp, rfl⟩ := hanswered.createRunner (newRunner_ownerKey set suffix)
              exact h.createRunner hid (ho.resolve_right (by omega)) hpos hnew stamp
        | _ => exact h.answered hanswered (fun r => nofun)
      · exact h.answered hanswered (fun r => nofun)

end Calls

/-! ## Steps -/

section Steps

variable {plan : Plan} {l : Lives}

/-- A report is taken: the decision is stored and noted, or neither. -/
theorem Sound.takeBatch (h : Sound plan l) (stamp : Stamp) (batch : JobBatch)
    (fault : Option Store.Error) : Sound plan (l.takeBatch plan stamp batch fault) := by
  by_cases happlied : l.listener.applied = some (l.listener.decisionFor batch)
  · rw [takeBatch_applied plan l stamp batch fault happlied]
    have hcurrent := h.chronicle.applied _ happlied
    refine ⟨h.keyed, hcurrent ▸ h.asks, h.ledger.mono _, ?_, h.reads.mono _⟩
    have hwrite := h.chronicle.write batch
    rw [← happlied] at hwrite ⊢
    exact hwrite
  · cases fault with
    | some e =>
        rw [takeBatch_failed plan l stamp batch e happlied]
        exact { h with chronicle := h.chronicle.decide batch }
    | none =>
        obtain ⟨⟨new, hok⟩, hasks⟩ :=
          h.asks.patchSpec stamp ⟨l.lifetime, l.listener.decisionFor batch⟩
        rw [takeBatch_written plan l stamp batch happlied hok]
        have hledger : Ledger plan.key (l.store.perform stamp (.patchSpec plan.key
            (l.listener.decisionFor batch).replicas (l.listener.decisionFor batch).patchId)).store
            l.origins l.written := h.ledger.perform stamp fun r => nofun
        exact ⟨h.keyed.perform stamp _, hasks, hledger.mono _, h.chronicle.write batch,
          h.reads.mono _⟩

/-- A pass goes on. -/
theorem Sound.advance (h : Sound plan l) {answer : (c : Call) → Option (c.Answer × Store)}
    (hanswer : ∀ c reply store, answer c = some (reply, store) → c.Answered l.store reply store) :
    Sound plan (l.advance plan answer) := by
  rcases advance_cases plan l answer with heq | ⟨c, next, read, reply, store, hpass, hreply, heq⟩
  · rw [heq]
    exact h
  · have hanswered := hanswer c reply store hreply
    have hreads := h.reads
    rw [hpass] at hreads
    have hcurrent : l.current ∈ l.written ∨ l.current.patch.replicas = 0 :=
      h.chronicle.last.imp_right And.right
    rw [heq]
    exact ⟨hanswered.keyed h.keyed, h.asks.answered hanswered,
      h.ledger.pass hreads hanswered, h.chronicle,
      hreads.answered h.keyed h.asks hcurrent hanswered⟩

/-- The next daemon keeps the set as it finds it. -/
theorem Sound.restart (h : Sound plan l) (stamp : Stamp) :
    Sound plan (l.launch plan (l.lifetime + 1) stamp) := by
  obtain ⟨set, hset, -⟩ := h.asks
  rw [launch, hset]
  exact ⟨h.keyed, h.asks, h.ledger, h.chronicle.restart, trivial⟩

/-- The first daemon stores its set. -/
theorem first_eq (plan : Plan) (stamp : Stamp) :
    first plan stamp =
      { store := (Store.perform {} stamp (.createSet (plan.config 0).runnerSet)).store
        listener := { bounds := plan.bounds 0 }
        current := ⟨0, ⟨0, 0⟩⟩ } :=
  rfl

theorem first_getSet (plan : Plan) (stamp : Stamp) :
    (first plan stamp).store.getSet plan.key =
      some (created stamp (plan.config 0).runnerSet) := by
  rw [first_eq, getSet_perform]
  exact if_pos rfl

/-- A new set asks for nothing, and has no runners. -/
theorem sound_first (plan : Plan) (stamp : Stamp) : Sound plan (first plan stamp) := by
  refine ⟨Reachable.empty.keyed.perform stamp _, ⟨_, first_getSet plan stamp, rfl, rfl, rfl⟩, ?_,
    ?_, trivial⟩
  · intro k r hr
    rw [first_eq, getRunner_perform] at hr
    cases hr
  · exact ⟨nofun, nofun, nofun, Or.inr ⟨rfl, rfl⟩, Nat.le_refl 0, rfl, nofun, nofun, nofun⟩

/-- Whatever happens next, the notes stay true. -/
theorem Sound.step (h : Sound plan l) (event : Event) : Sound plan (l.step plan event) := by
  cases event with
  | batch stamp batch fault => exact h.takeBatch stamp batch fault
  | report stamp name status =>
      exact ⟨h.keyed.perform stamp _, h.asks.perform stamp nofun (fun _ _ => nofun),
        h.ledger.perform stamp (fun _ => nofun), h.chronicle, h.reads⟩
  | begin suffix =>
      rw [Lives.step]
      split
      · exact h
      · exact { h with reads := ⟨suffix, rfl⟩ }
  | serve service stamp =>
      rw [Lives.step]
      exact h.advance (answered_serve service stamp)
  | fail e =>
      rw [Lives.step]
      exact h.advance (answered_fail e)
  | abandon => exact { h with reads := trivial }
  | restart stamp => exact h.restart stamp

/-- The notes stay true, whatever happens. -/
theorem Sound.steps (h : Sound plan l) (events : List Event) :
    Sound plan (events.foldl (Lives.step plan) l) := by
  induction events generalizing l with
  | nil => exact h
  | cons event rest ih => exact ih (h.step event)

/-- The notes are true after any events. -/
theorem sound_run (plan : Plan) (stamp : Stamp) (events : List Event) :
    Sound plan (run plan stamp events) :=
  (sound_first plan stamp).steps events

end Steps

end Lives
end Daemon
end RunnerFleet
