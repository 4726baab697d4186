import Mathlib.Data.List.Sort
import RunnerFleet.Proofs.Store.Lifespan
import RunnerFleet.Proofs.Text.ByteOrder

/-!
# Runners are found by their owners

The key of a runner joins the key of its owner and its own name by a colon.  Names of runners may
hold colons and slashes, but names of owners and namespaces hold neither, so that such a key is read
in one way only.  Whoever lists or addresses runners by the key of an owner therefore meets the
runners of this owner, and no others.

Main results:

- `runnerKey_eq_iff`: the key of a runner tells its owner and its name.
- `Keyed.mem_runnersOf_iff`: listed is every stored runner of the owner, wherever it lies.
- `looksLike_of_addressee`, `exists_look_of_addressee`: an operation on one runner reads and changes
  what lies at its place only.
- `runnersOf_of_other_owner`: no operation on runners of another owner changes the list.
- `runners_respect_ownership`: all of this for the stores that operations lead to.
-/

namespace RunnerFleet
namespace Store

/-- A key made of a valid namespace and a valid name. -/
def IsOwnerKey (key : String) : Prop :=
  ∃ namespaceName name, isValidName namespaceName = true ∧ isValidName name = true ∧
    key = namespaceName ++ "/" ++ name

/-- The namespace of a runner is valid, and so is the name of its owner. -/
def NamesOwner (r : Runner) : Prop :=
  isValidName r.metadata.namespaceName = true ∧
    ∀ owner, r.metadata.owner = some owner → isValidName owner.name = true

/-- A runner that the operation creates, if any, names its owner. -/
def Operation.CreatesOwned (s : Store) (stamp : Stamp) (op : Operation) : Prop :=
  ∀ r, op = .createRunner r → (s.perform stamp op).result.isOk = true → NamesOwner r

/-- All runners that these operations create name their owners. -/
def CreateOwned : Store → List (Stamp × Operation) → Prop
  | _, [] => True
  | s, (stamp, op) :: rest => op.CreatesOwned s stamp ∧ CreateOwned (s.perform stamp op).store rest

/-- The owner's key and the name of the runner that an operation is meant for. -/
def Operation.addressee : Operation → Option (String × String)
  | getRunner owner name => some (owner, name)
  | updateRunnerStatus owner name _ => some (owner, name)
  | setRunnerFinalizers owner name _ => some (owner, name)
  | deleteRunner owner name => some (owner, name)
  | _ => none

/-- The key of the owner whose runners an operation is about. -/
def Operation.ownerKey : Operation → Option String
  | createRunner r => r.ownerKey
  | listRunners owner => some owner
  | op => op.addressee.map Prod.fst

/-! ## Keys of runners -/

/-- Two texts that are parted by a mark which neither of their first parts holds have the same
parts. -/
theorem append_cons_inj {α : Type} {mark : α} {as bs cs ds : List α} (ha : mark ∉ as)
    (hb : mark ∉ bs) (h : as ++ mark :: cs = bs ++ mark :: ds) : as = bs ∧ cs = ds := by
  induction as generalizing bs with
  | nil =>
      cases bs with
      | nil => exact ⟨rfl, List.tail_eq_of_cons_eq h⟩
      | cons b bs => exact absurd (List.head_eq_of_cons_eq h ▸ List.mem_cons_self) hb
  | cons a as ih =>
      cases bs with
      | nil => exact absurd (List.head_eq_of_cons_eq h ▸ List.mem_cons_self) ha
      | cons b bs =>
          obtain ⟨rfl, hrest⟩ := List.cons.inj h
          obtain ⟨rfl, hcs⟩ := ih (fun hmem => ha (List.mem_cons_of_mem _ hmem))
            (fun hmem => hb (List.mem_cons_of_mem _ hmem)) hrest
          exact ⟨rfl, hcs⟩

theorem colon_notMem_of_isValidName {name : String} (h : isValidName name = true) :
    ':' ∉ name.toList := by
  intro hmem
  have hmark : name.toList.any (fun c => c == '/' || c == ':') = true :=
    List.any_eq_true.2 ⟨':', hmem, rfl⟩
  rw [isValidName, hmark, Bool.not_true, Bool.and_false] at h
  cases h

theorem IsOwnerKey.colon_notMem {key : String} (h : IsOwnerKey key) : ':' ∉ key.toList := by
  obtain ⟨namespaceName, name, hnamespace, hname, rfl⟩ := h
  simp [colon_notMem_of_isValidName hnamespace, colon_notMem_of_isValidName hname]

/-- The key of a runner tells its owner and its name. -/
theorem runnerKey_eq_iff {k k' : String} (hk : IsOwnerKey k) (hk' : IsOwnerKey k') (n n' : String) :
    runnerKey k n = runnerKey k' n' ↔ k = k' ∧ n = n' := by
  refine ⟨fun h => ?_, fun ⟨hkey, hname⟩ => hkey ▸ hname ▸ rfl⟩
  have hlists : k.toList ++ ':' :: n.toList = k'.toList ++ ':' :: n'.toList := by
    simpa [runnerKey] using congrArg String.toList h
  obtain ⟨hkeys, hnames⟩ := append_cons_inj hk.colon_notMem hk'.colon_notMem hlists
  exact ⟨String.toList_inj.1 hkeys, String.toList_inj.1 hnames⟩

/-! ## Stores in which every owner has a valid key -/

/-- Objects lie under their keys, and the owner of every runner has a valid key. -/
structure Owned (s : Store) : Prop extends Keyed s where
  owner : ∀ {key owner : String} {r : Runner}, s.runners.get? key = some r →
    r.ownerKey = some owner → IsOwnerKey owner

theorem owned_empty : Owned {} where
  toKeyed := Reachable.empty.keyed
  owner h := by simp at h

/-- A runner is created where there is none. -/
theorem createRunner_isOk {s : Store} {r : Runner} {owner : String}
    (howner : r.ownerKey = some owner)
    (hnone : s.runners.get? (runnerKey owner r.name) = none) (stamp : Stamp) :
    (s.perform stamp (.createRunner r)).result.isOk = true := by
  rw [perform, createRunner, howner]
  dsimp only
  rw [insertNew, hnone]
  rfl

theorem Owned.perform {s : Store} (h : s.Owned) (stamp : Stamp) {op : Operation}
    (hop : op.CreatesOwned s stamp) : (s.perform stamp op).store.Owned where
  toKeyed := h.toKeyed.perform stamp op
  owner := by
    intro key owner r hr howner
    rw [getRunner_perform] at hr
    rcases onRunner_cases hr with ⟨old, hold, hakin⟩ | ⟨hnone, new, rfl, rfl, hkey⟩
    · exact h.owner hold (hakin.owner ▸ howner)
    · -- a new runner was created just now, under the key that its names make
      rw [show new.ownerKey = some owner from howner] at hkey
      obtain rfl := Option.some.inj hkey
      obtain ⟨hnamespace, hname⟩ := hop new rfl (createRunner_isOk howner hnone stamp)
      obtain ⟨reference, hreference, rfl⟩ := Option.map_eq_some_iff.1 howner
      exact ⟨_, _, hnamespace, hname reference hreference, rfl⟩

theorem owned_execute {s : Store} (h : s.Owned) {script : List (Stamp × Operation)}
    (hscript : CreateOwned s script) : (s.execute script).Owned := by
  induction script generalizing s with
  | nil => exact h
  | cons step rest ih => exact ih (h.perform step.1 hscript.1) hscript.2

/-- What lies under the key of an owner and a name is a runner of this owner with this name. -/
theorem Owned.found {s : Store} (h : s.Owned) {k name : String} (hk : IsOwnerKey k) {r : Runner}
    (hr : s.runners.get? (runnerKey k name) = some r) : r.ownerKey = some k ∧ r.name = name := by
  obtain ⟨owner, howner, hkey⟩ := h.runner hr
  obtain ⟨rfl, rfl⟩ := (runnerKey_eq_iff hk (h.owner hr howner) _ _).1 hkey
  exact ⟨howner, rfl⟩

/-! ## Listing -/

/-- Stores list the same runners of an owner if they hold the same under all keys of this owner. -/
theorem Keyed.runnersOf_congr {s t : Store} (hs : s.Keyed) (ht : t.Keyed) {key : String}
    (h : ∀ name, s.runners.get? (runnerKey key name) = t.runners.get? (runnerKey key name)) :
    s.runnersOf key = t.runnersOf key := by
  have hirrefl : Std.Irrefl fun a b : Runner => runnerKey key a.name < runnerKey key b.name :=
    ⟨fun _ => String.lt_irrefl _⟩
  have hantisymm : Std.Antisymm fun a b : Runner => runnerKey key a.name < runnerKey key b.name :=
    ⟨fun _ _ hab hba => absurd hba (String.lt_asymm hab)⟩
  refine (hs.runnersOf_pairwise key).eq_of_mem_iff (ht.runnersOf_pairwise key) fun r => ?_
  rw [hs.mem_runnersOf, ht.mem_runnersOf, h]

/-- Listed is every stored runner of the owner, wherever it lies. -/
theorem Keyed.mem_runnersOf_iff {s : Store} (h : s.Keyed) {key : String} {r : Runner} :
    r ∈ s.runnersOf key ↔ r.ownerKey = some key ∧ ∃ k, s.runners.get? k = some r := by
  rw [h.mem_runnersOf]
  exact and_congr_right fun howner => ⟨fun hr => ⟨_, hr⟩, fun ⟨k, hr⟩ => h.key_eq hr howner ▸ hr⟩

/-- In a keyed store a runner of an owner lies under one key. -/
theorem Keyed.get?_iff_of_mem {s : Store} (h : s.Keyed) {k : String} {r : Runner}
    (hr : r ∈ s.runnersOf k) (key : String) :
    s.runners.get? key = some r ↔ key = runnerKey k r.name := by
  obtain ⟨howner, hget⟩ := h.mem_runnersOf.1 hr
  exact ⟨fun hkey => h.key_eq hkey howner, fun hkey => hkey ▸ hget⟩

/-! ## Operations on the runners of one owner -/

section Operation

variable {s : Store} {op : Operation} {k name : String}

/-- An operation on the runners of an owner may write to the place of such a runner only. -/
theorem exists_name_of_ownerKey (h : op.ownerKey = some k) {place : Place}
    (hplace : op.place = some place) : ∃ name, place = .runners (runnerKey k name) := by
  cases op with
  | createRunner r =>
      rw [Operation.place, Operation.request, show r.ownerKey = some k from h] at hplace
      exact ⟨r.name, (Option.some.inj hplace).symm⟩
  | updateRunnerStatus _ name _ | setRunnerFinalizers _ name _ | deleteRunner _ name =>
      cases h
      exact ⟨name, (Option.some.inj hplace).symm⟩
  | getRunner _ _ | listRunners _ => cases hplace
  | _ => cases h

/-- An operation on one runner creates none. -/
theorem createsOwned_of_addressee (stamp : Stamp) (h : op.addressee = some (k, name)) :
    op.CreatesOwned s stamp := by
  rintro r rfl
  cases h

/-- An operation on one runner asks something of the place of this runner, if anything, but not to
create it. -/
theorem request_of_addressee (h : op.addressee = some (k, name)) {request : Request} {place : Place}
    (hrequest : op.request = some (request, place)) :
    place = .runners (runnerKey k name) ∧ request ≠ .create := by
  cases op with
  | updateRunnerStatus _ _ _ | setRunnerFinalizers _ _ _ | deleteRunner _ _ =>
      cases h
      cases hrequest
      exact ⟨rfl, by simp⟩
  | getRunner _ _ => cases hrequest
  | _ => cases h

/-- An operation on one runner shows what lies at its place afterwards. -/
theorem shown_of_addressee (hs : s.Sound) (stamp : Stamp) (h : op.addressee = some (k, name))
    {answer : op.Answer} (hresult : (s.perform stamp op).result = .ok answer) :
    op.shown answer = (s.perform stamp op).store.look (.runners (runnerKey k name)) := by
  cases op with
  | getRunner _ _ =>
      cases h
      cases hresult
      rfl
  | updateRunnerStatus _ _ _ | setRunnerFinalizers _ _ _ | deleteRunner _ _ =>
      cases h
      exact ((perform_acts hs stamp rfl).of_ok hresult).2.1
  | _ => cases h

end Operation

/-! ## What an operation on one runner makes known -/

section Known

variable {α β : Type} [Stored α]

/-- What a change of a table makes known, without the table. -/
def known (c : Change α β) : β × Option WatchEvent :=
  (c.answer, c.event)

/-- A change makes known what it finds under its key only. -/
theorem known_modify {table table' : KeyMap α} {key : String}
    (h : table.get? key = table'.get? key) (change : α → α) :
    (modify table key change).map known = (modify table' key change).map known := by
  rw [modify, modify, h]
  cases table'.get? key with
  | none => rfl
  | some r =>
      dsimp only
      split <;> rfl

/-- A request for removal makes known what it finds under its key only. -/
theorem known_remove {table table' : KeyMap α} {key : String}
    (h : table.get? key = table'.get? key) (now : Timestamp) :
    (remove table key now).map known = (remove table' key now).map known := by
  rw [remove, remove, h]
  cases table'.get? key with
  | none => rfl
  | some r =>
      dsimp only
      split
      · rfl
      · split <;> rfl

/-- Two outcomes that whoever asked, and whoever watches, cannot tell apart. -/
def Outcome.LooksLike (o o' : Outcome β) : Prop :=
  o.result = o'.result ∧ o.events = o'.events

/-- An outcome tells no more than its change makes known. -/
theorem looksLike_of_known {o o' : Outcome β} {result result' : Except Error (β × Option WatchEvent)}
    (ho : o.result = result.map Prod.fst ∧ o.events = (result.toOption.bind Prod.snd).toList)
    (ho' : o'.result = result'.map Prod.fst ∧ o'.events = (result'.toOption.bind Prod.snd).toList)
    (h : result = result') : o.LooksLike o' := by
  subst h
  exact ⟨ho.1.trans ho'.1.symm, ho.2.trans ho'.2.symm⟩

theorem looksLike_settleSets (s t : Store) {result result' : Except Error (Change RunnerSet β)}
    (h : result.map known = result'.map known) :
    (s.settleSets result).LooksLike (t.settleSets result') := by
  refine looksLike_of_known ?_ ?_ h
  · cases result <;> exact ⟨rfl, rfl⟩
  · cases result' <;> exact ⟨rfl, rfl⟩

theorem looksLike_settleRunners (s t : Store) {result result' : Except Error (Change Runner β)}
    (h : result.map known = result'.map known) :
    (s.settleRunners result).LooksLike (t.settleRunners result') := by
  refine looksLike_of_known ?_ ?_ h
  · cases result <;> exact ⟨rfl, rfl⟩
  · cases result' <;> exact ⟨rfl, rfl⟩

theorem Outcome.LooksLike.present {o o' : Outcome (Option β)} (h : o.LooksLike o') (key : String) :
    (o.present key).LooksLike (o'.present key) := by
  refine ⟨?_, h.2⟩
  rw [Outcome.present, Outcome.present, h.1]

/-- What an operation on one runner makes known depends on what lies at its place only. -/
theorem looksLike_of_addressee {s t : Store} {op : Operation} {k name : String}
    (haddressee : op.addressee = some (k, name))
    (h : s.look (.runners (runnerKey k name)) = t.look (.runners (runnerKey k name)))
    (stamp : Stamp) : (s.perform stamp op).LooksLike (t.perform stamp op) := by
  have hget : s.runners.get? (runnerKey k name) = t.runners.get? (runnerKey k name) :=
    Option.map_injective (fun _ _ => Object.runner.inj) h
  cases op with
  | getRunner _ _ =>
      cases haddressee
      exact ⟨congrArg Except.ok hget, rfl⟩
  | updateRunnerStatus _ _ _ =>
      cases haddressee
      exact (looksLike_settleRunners s t (known_modify hget _)).present _
  | setRunnerFinalizers _ _ _ =>
      cases haddressee
      exact looksLike_settleRunners s t (known_modify hget _)
  | deleteRunner _ _ =>
      cases haddressee
      exact looksLike_settleRunners s t (known_remove hget stamp.now)
  | _ => cases haddressee

end Known

/-! ## What an operation on one runner changes -/

/-- The object is the runner of this owner with this name. -/
def Object.IsRunnerOf (k name : String) (o : Object) : Prop :=
  ∃ r, o = .runner r ∧ r.ownerKey = some k ∧ r.name = name

/-- What lies at the place of an owner and a name is the runner of this owner with this name. -/
theorem Owned.isRunnerOf {s : Store} (h : s.Owned) {k name : String} (hk : IsOwnerKey k)
    {o : Object} (ho : s.look (.runners (runnerKey k name)) = some o) : o.IsRunnerOf k name := by
  obtain ⟨r, hr, rfl⟩ := Option.map_eq_some_iff.1 ho
  exact ⟨r, rfl, h.found hk hr⟩

/-- An operation on one runner changes nothing but what was at its place. -/
theorem exists_look_of_addressee {s : Store} (hs : s.Sound) (stamp : Stamp) {op : Operation}
    {k name : String} (h : op.addressee = some (k, name)) {p : Place}
    (hchanged : (s.perform stamp op).store.look p ≠ s.look p) :
    p = .runners (runnerKey k name) ∧ ∃ old, s.look p = some old := by
  rcases look_perform_cases hs stamp op p with hsame | ⟨request, hrequest, -, hplace⟩
  · exact absurd hsame hchanged
  · obtain ⟨rfl, hcreate⟩ := request_of_addressee h hrequest
    exact ⟨rfl, hplace.exists_before hcreate⟩

/-- No operation on the runners of another owner changes the list. -/
theorem runnersOf_of_other_owner {s : Store} (hs : s.Reachable) (stamp : Stamp) {op : Operation}
    {k k' : String} (hk : IsOwnerKey k) (hk' : IsOwnerKey k') (hother : k' ≠ k)
    (h : op.ownerKey = some k') :
    (s.perform stamp op).store.runnersOf k = s.runnersOf k := by
  -- the lists are in order, so that it is enough to look under every key of the owner
  refine (hs.perform stamp op).keyed.runnersOf_congr hs.keyed fun name => ?_
  have hplace : op.place ≠ some (.runners (runnerKey k name)) := by
    intro hplace
    obtain ⟨name', hkey⟩ := exists_name_of_ownerKey h hplace
    exact hother ((runnerKey_eq_iff hk hk' _ _).1 (Place.runners.inj hkey)).1.symm
  exact Option.map_injective (fun _ _ => Object.runner.inj)
    (look_of_place_ne hs.sound stamp hplace)

/-- The operation has to do with the runner of this owner with this name only: this is what lies at
its place, what its answer depends on, what it shows, and what it changes. -/
structure KeepsTo (s : Store) (stamp : Stamp) (op : Operation) (k name : String) : Prop where
  finds : ∀ o, s.look (.runners (runnerKey k name)) = some o → o.IsRunnerOf k name
  reads : ∀ t : Store, t.look (.runners (runnerKey k name)) = s.look (.runners (runnerKey k name)) →
    (t.perform stamp op).LooksLike (s.perform stamp op)
  shows : ∀ answer o, (s.perform stamp op).result = .ok answer → op.shown answer = some o →
    o.IsRunnerOf k name
  changes : ∀ p, (s.perform stamp op).store.look p ≠ s.look p →
    ∃ old, s.look p = some old ∧ old.IsRunnerOf k name

/-- An operation on one runner keeps to it. -/
theorem Owned.keepsTo {s : Store} (h : s.Owned) (hs : s.Sound) (stamp : Stamp) {op : Operation}
    {k name : String} (hk : IsOwnerKey k) (haddressee : op.addressee = some (k, name)) :
    s.KeepsTo stamp op k name where
  finds _ ho := h.isRunnerOf hk ho
  reads _ ht := looksLike_of_addressee haddressee ht stamp
  shows answer o hresult ho := by
    rw [shown_of_addressee hs stamp haddressee hresult] at ho
    exact (h.perform stamp (createsOwned_of_addressee stamp haddressee)).isRunnerOf hk ho
  changes p hchanged := by
    obtain ⟨rfl, old, hold⟩ := exists_look_of_addressee hs stamp haddressee hchanged
    exact ⟨old, hold, h.isRunnerOf hk hold⟩

/-- In a store that operations lead to, exactly the stored runners of an owner are listed, each once
and in the order of the bytes of their keys.  If all runners were created with valid namespaces and
owners, then the key of a runner tells its owner and its name, an operation on one runner keeps to
the runner of this owner with this name, and no operation on the runners of another owner changes
the list. -/
theorem runners_respect_ownership :
    (∀ s : Store, s.Reachable → ∀ stamp k,
      (s.perform stamp (.listRunners k)).result = .ok (s.runnersOf k) ∧
      (∀ r, r ∈ s.runnersOf k ↔ r.ownerKey = some k ∧ ∃ key, s.runners.get? key = some r) ∧
      (∀ r ∈ s.runnersOf k, ∀ key, s.runners.get? key = some r ↔ key = runnerKey k r.name) ∧
      (s.runnersOf k).Pairwise fun a b =>
        Text.bytes (runnerKey k a.name) < Text.bytes (runnerKey k b.name)) ∧
    ∀ script : List (Stamp × Operation), CreateOwned {} script →
      ∀ s, s = execute {} script → ∀ k k', IsOwnerKey k → IsOwnerKey k' →
        (∀ n n', runnerKey k n = runnerKey k' n' ↔ k = k' ∧ n = n') ∧
        (∀ stamp op name, op.addressee = some (k, name) → s.KeepsTo stamp op k name) ∧
        ∀ stamp op, op.ownerKey = some k' → k' ≠ k →
          (s.perform stamp op).store.runnersOf k = s.runnersOf k := by
  refine ⟨fun s hs stamp k => ?_, fun script hscript s hs k k' hk hk' => ?_⟩
  · have hkeyed := hs.keyed
    refine ⟨rfl, fun r => hkeyed.mem_runnersOf_iff, fun r hr => hkeyed.get?_iff_of_mem hr, ?_⟩
    exact (hkeyed.runnersOf_pairwise k).imp (Text.lt_iff_bytes_lt _ _).1
  · have hreached : s.Reachable := hs ▸ Reachable.empty.execute script
    have howned : s.Owned := hs ▸ owned_execute owned_empty hscript
    refine ⟨runnerKey_eq_iff hk hk', ?_, ?_⟩
    · exact fun stamp op name => howned.keepsTo hreached.sound stamp hk
    · exact fun stamp op howner hother =>
        runnersOf_of_other_owner hreached stamp hk hk' hother howner

/-- A runner of a set, under any name. -/
def namedRunner (owner name : String) : Runner where
  metadata :=
    { name
      namespaceName := "ci"
      owner := some { kind := "RunnerSet", name := owner, uid := "uid" } }
  template := { image := "image" }

/-- Two sets with runners whose names look like keys. -/
def lookalikes : List (Stamp × Operation) :=
  [.createRunner (namedRunner "linux" "ci/linux:a"), .createRunner (namedRunner "mac" "linux:a"),
    .createRunner (namedRunner "linux" "a")].map (Stamp.sample, ·)

/-- Both runners of the one set are listed in order, also when the runner of the other set is
gone. -/
theorem lookalikes_respect_ownership :
    ((execute {} lookalikes).runnersOf "ci/linux").map Runner.name = ["a", "ci/linux:a"] ∧
    (((execute {} lookalikes).perform Stamp.sample
      (.deleteRunner "ci/mac" "linux:a")).store.runnersOf "ci/linux").map Runner.name =
        ["a", "ci/linux:a"] ∧
    (execute {} lookalikes).KeepsTo Stamp.sample (.deleteRunner "ci/linux" "a") "ci/linux" "a" := by
  have hlinux : IsOwnerKey "ci/linux" := ⟨"ci", "linux", by decide, by decide, by decide⟩
  have hmac : IsOwnerKey "ci/mac" := ⟨"ci", "mac", by decide, by decide, by decide⟩
  have hci : isValidName "ci" = true := by decide
  have hnamed : ∀ owner name s, isValidName owner = true →
      (Operation.createRunner (namedRunner owner name)).CreatesOwned s Stamp.sample := by
    rintro owner name s h _ ⟨⟩ -
    exact ⟨hci, fun reference hreference => Option.some.inj hreference ▸ h⟩
  have hscript : CreateOwned {} lookalikes :=
    ⟨hnamed _ _ _ (by decide), hnamed _ _ _ (by decide), hnamed _ _ _ (by decide), trivial⟩
  have hlisted : ((execute {} lookalikes).runnersOf "ci/linux").map Runner.name =
      ["a", "ci/linux:a"] := by
    decide +kernel
  obtain ⟨-, haddressed, hothers⟩ :=
    runners_respect_ownership.2 lookalikes hscript _ rfl "ci/linux" "ci/mac" hlinux hmac
  refine ⟨hlisted, ?_, ?_⟩
  · rw [hothers Stamp.sample (.deleteRunner "ci/mac" "linux:a") rfl (by decide), hlisted]
  · exact haddressed Stamp.sample (.deleteRunner "ci/linux" "a") "a" rfl

end Store
end RunnerFleet
