import RunnerFleet.Config.Basic

/-!
# What makes a configuration valid

A configuration is checked point by point, and the first point that fails is reported.  It is valid
if no point fails.

Main results:

- `firstProblem_eq_ok_iff`: a row of checks succeeds if none of them finds a problem.
- `validate_eq_ok_iff`: what a valid configuration is like.
-/

namespace RunnerFleet
namespace Config

/-- A row of checks succeeds if none of them finds a problem. -/
theorem firstProblem_eq_ok_iff {checks : List (Bool × Problem)} :
    firstProblem checks = .ok () ↔ ∀ check ∈ checks, check.1 = false := by
  induction checks with
  | nil => simp [firstProblem]
  | cons check rest ih =>
      obtain ⟨found, problem⟩ := check
      cases found with
      | true => simp [firstProblem]
      | false => simp [firstProblem, ih]

/-- Names can be parts of keys, bounds are in order, and numbers make sense. -/
structure Valid (c : Config) : Prop where
  name : isValidName c.group.name = true
  namespaceName : isValidName c.group.namespaceName = true
  bounds : c.group.minRunners ≤ c.maxRunners
  factor : Binary64.le Binary64.one c.group.factor = true
  concurrency : c.passes.maxConcurrent ≠ 0
  waiting : c.passes.requeueBase ≤ c.passes.requeueMax

/-- The configurations that pass all checks. -/
theorem validate_eq_ok_iff {c : Config} : c.validate = .ok () ↔ c.Valid := by
  rw [validate, firstProblem_eq_ok_iff]
  constructor
  · intro h
    simp only [List.forall_mem_cons, Bool.not_eq_false', decide_eq_false_iff_not, Nat.not_lt,
      beq_eq_false_iff_ne] at h
    obtain ⟨-, -, hname, hspace, hbounds, hfactor, hconcurrency, hwaiting, -⟩ := h
    exact ⟨hname, hspace, hbounds, hfactor, hconcurrency, hwaiting⟩
  · rintro ⟨hname, hspace, hbounds, hfactor, hconcurrency, hwaiting⟩
    simp only [List.forall_mem_cons, Bool.not_eq_false', decide_eq_false_iff_not, Nat.not_lt,
      beq_eq_false_iff_ne]
    -- a name that can be part of a key is not blank
    exact ⟨isBlankText_of_isValidName hname, isBlankText_of_isValidName hspace, hname, hspace,
      hbounds, hfactor, hconcurrency, hwaiting, List.forall_mem_nil _⟩

end Config
end RunnerFleet
