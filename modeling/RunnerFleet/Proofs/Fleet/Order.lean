import Mathlib.Data.List.Perm.Basic
import RunnerFleet.Proofs.Fleet.Groups

/-!
# The order of deletion

Runners are reclaimed by their age, those of unknown age before all others, and equally old ones by
their names.  This is a weak order; where names are different it is strict, and then there is only
one way to sort a fleet.

Main results:

- `comesBefore_cases`: two runners that do not come one before the other have one age and name.
- `isOlder_iff`: the order that the fleet is sorted by.
- `deletionOrder_sorted`: the deletion order is sorted.
- `deletionOrder_pairwise`, `deletionOrder_congr`: if names are different, the order is strict and
  does not depend on the listing.
-/

namespace RunnerFleet

/-- Of two different moments one is earlier. -/
theorem Timestamp.eq_of_not_lt {a b : Timestamp} (hab : ¬ a < b) (hba : ¬ b < a) : a = b := by
  have hparts : a.parts = b.parts :=
    List.le_antisymm (List.not_lt.1 hba) (List.not_lt.1 hab)
  obtain ⟨⟨year, month, day⟩, hour, minute, second, nanosecond, _, _, _⟩ := a
  obtain ⟨⟨year', month', day'⟩, hour', minute', second', nanosecond', _, _, _⟩ := b
  simp only [parts, List.cons.injEq, Int.natCast_inj, and_true] at hparts
  obtain ⟨rfl, rfl, rfl, rfl, rfl, rfl, rfl⟩ := hparts
  rfl

namespace Runner

/-- A runner comes before another: it is older, where runners of unknown age count as the oldest,
or equally old and the first of both by name. -/
def ComesBefore (a b : Runner) : Prop :=
  match a.metadata.creation, b.metadata.creation with
  | none, none => a.name < b.name
  | none, some _ => True
  | some _, none => False
  | some x, some y => x < y ∨ x = y ∧ a.name < b.name

theorem ComesBefore.trans {a b c : Runner} (hab : a.ComesBefore b) (hbc : b.ComesBefore c) :
    a.ComesBefore c := by
  unfold ComesBefore at *
  cases ha : a.metadata.creation <;> cases hb : b.metadata.creation <;>
    cases hc : c.metadata.creation <;> simp only [ha, hb, hc] at hab hbc ⊢
  · exact String.lt_trans hab hbc
  · rcases hab with hab | ⟨rfl, hab⟩ <;> rcases hbc with hbc | ⟨rfl, hbc⟩
    · exact Or.inl (Timestamp.lt_trans hab hbc)
    · exact Or.inl hab
    · exact Or.inl hbc
    · exact Or.inr ⟨rfl, String.lt_trans hab hbc⟩

theorem not_comesBefore_self (a : Runner) : ¬ a.ComesBefore a := by
  unfold ComesBefore
  cases a.metadata.creation with
  | none => exact String.lt_irrefl _
  | some x =>
      rintro (hlt | ⟨-, hlt⟩)
      · exact Timestamp.lt_irrefl x hlt
      · exact String.lt_irrefl _ hlt

/-- Of two runners one comes before the other, unless they have the same age and name. -/
theorem comesBefore_cases (a b : Runner) :
    a.ComesBefore b ∨ b.ComesBefore a ∨
      a.metadata.creation = b.metadata.creation ∧ a.name = b.name := by
  have hname : a.name < b.name ∨ b.name < a.name ∨ a.name = b.name := by
    by_cases hab : a.name < b.name
    · exact Or.inl hab
    · by_cases hba : b.name < a.name
      · exact Or.inr (Or.inl hba)
      · exact Or.inr (Or.inr (String.le_antisymm (String.not_lt.1 hba) (String.not_lt.1 hab)))
  unfold ComesBefore
  cases ha : a.metadata.creation with
  | none =>
      cases hb : b.metadata.creation with
      | none => exact hname.imp id (Or.imp id fun heq => ⟨rfl, heq⟩)
      | some y => exact Or.inl trivial
  | some x =>
      cases hb : b.metadata.creation with
      | none => exact Or.inr (Or.inl trivial)
      | some y =>
          by_cases hxy : x < y
          · exact Or.inl (Or.inl hxy)
          · by_cases hyx : y < x
            · exact Or.inr (Or.inl (Or.inl hyx))
            · obtain rfl := Timestamp.eq_of_not_lt hxy hyx
              exact hname.imp (fun hlt => Or.inr ⟨rfl, hlt⟩)
                (Or.imp (fun hlt => Or.inr ⟨rfl, hlt⟩) fun heq => ⟨rfl, heq⟩)

end Runner

namespace Fleet

/-- The order of deletion goes by whether the other one comes before. -/
theorem isOlder_iff (a b : Runner) : isOlder a b = true ↔ ¬ b.ComesBefore a := by
  unfold isOlder Runner.ComesBefore
  cases ha : a.metadata.creation with
  | none =>
      cases hb : b.metadata.creation with
      | none => simp only [Bool.not_eq_true', decide_eq_false_iff_not]
      | some y => exact ⟨fun _ => not_false, fun _ => rfl⟩
  | some x =>
      cases hb : b.metadata.creation with
      | none => exact ⟨fun h => absurd h Bool.false_ne_true, fun h => absurd trivial h⟩
      | some y =>
          simp only [Bool.or_eq_true, Bool.and_eq_true, Bool.not_eq_true', decide_eq_true_eq,
            decide_eq_false_iff_not, not_or, not_and]
          constructor
          · rintro (hxy | ⟨hyx, hname⟩)
            · refine ⟨fun hyx => Timestamp.lt_irrefl x (Timestamp.lt_trans hxy hyx), ?_⟩
              rintro rfl
              exact absurd hxy (Timestamp.lt_irrefl _)
            · exact ⟨hyx, fun _ => hname⟩
          · rintro ⟨hyx, hname⟩
            by_cases hxy : x < y
            · exact Or.inl hxy
            · exact Or.inr ⟨hyx, hname (Timestamp.eq_of_not_lt hyx hxy)⟩

instance (a b : Runner) : Decidable (a.ComesBefore b) :=
  decidable_of_iff (¬ isOlder b a = true) (by rw [isOlder_iff, not_not])

theorem isOlder_total (a b : Runner) : (isOlder a b || isOlder b a) = true := by
  rw [Bool.or_eq_true, isOlder_iff, isOlder_iff]
  by_contra hboth
  obtain ⟨hba, hab⟩ := not_or.1 hboth
  exact Runner.not_comesBefore_self a ((not_not.1 hab).trans (not_not.1 hba))

theorem isOlder_trans (a b c : Runner) (hab : isOlder a b = true) (hbc : isOlder b c = true) :
    isOlder a c = true := by
  rw [isOlder_iff] at *
  intro hca
  rcases Runner.comesBefore_cases b c with hlt | hlt | ⟨hcreation, hname⟩
  · exact hab (hlt.trans hca)
  · exact hbc hlt
  · refine hab ?_
    unfold Runner.ComesBefore at hca ⊢
    rw [hcreation, hname]
    exact hca

/-- No runner in the order of deletion comes before one that stands in front of it. -/
theorem deletionOrder_sorted (f : Fleet) :
    f.deletionOrder.Pairwise fun a b => ¬ b.ComesBefore a :=
  (List.pairwise_mergeSort isOlder_trans isOlder_total _).imp fun {a b} => (isOlder_iff a b).1

/-- If runners have different names, the order of deletion is strict. -/
theorem deletionOrder_pairwise {runners : List Runner} (h : (runners.map Runner.name).Nodup) :
    (classify runners).deletionOrder.Pairwise Runner.ComesBefore := by
  have hnames : ((classify runners).deletionOrder.map Runner.name).Nodup := by
    have hall := actedOn_names_nodup h
    rw [List.map_append] at hall
    exact (List.nodup_append.1 hall).2.1
  refine ((deletionOrder_sorted _).and (List.pairwise_map.1 hnames)).imp fun {a b} ⟨hle, hne⟩ => ?_
  rcases Runner.comesBefore_cases a b with hlt | hlt | ⟨-, hname⟩
  · exact hlt
  · exact absurd hlt hle
  · exact absurd hname hne

/-- The runners that are pending or running have only one strict order. -/
theorem deletionOrder_eq_of_pairwise {runners order : List Runner}
    (h : (runners.map Runner.name).Nodup)
    (hperm : order.Perm (runners.filter fun r => decide r.IsLive))
    (hsorted : order.Pairwise Runner.ComesBefore) :
    (classify runners).deletionOrder = order := by
  refine ((deletionOrder_perm_live runners).trans hperm.symm).eq_of_pairwise ?_
    (deletionOrder_pairwise h) hsorted
  intro a b _ _ hab hba
  exact absurd (hab.trans hba) (Runner.not_comesBefore_self a)

/-- The order of deletion does not depend on the order of the listing. -/
theorem deletionOrder_congr {runners listing : List Runner} (h : (runners.map Runner.name).Nodup)
    (hperm : listing.Perm runners) :
    (classify listing).deletionOrder = (classify runners).deletionOrder :=
  deletionOrder_eq_of_pairwise ((hperm.map Runner.name).nodup_iff.2 h)
    ((deletionOrder_perm_live runners).trans (hperm.filter _).symm) (deletionOrder_pairwise h)

end Fleet
end RunnerFleet
