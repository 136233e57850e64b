/-
# `ChipEight.Proofs.LaxValidation` — the lax validator does what is documented

All that is relied on of a validator holds of the one with lax conversions, whatever the
address of its pages.

**Proved here.**

    limits come after the conversion                   (`laxCheck_int_eq_ok_iff`)
    a class fails with the failures of its fields      (`laxConstruct_eq_error_iff`)
    the documented rules hold                          (`documented_lax`)
-/
import ChipEight.Options.Lax
import ChipEight.Proofs.Validation

namespace ChipEight

theorem FieldValue.toInt?_seed (seed : Option Int) :
    ((seed.map int).getD .null).toInt? = .ok seed := by
  cases seed <;> rfl

theorem atLeast_eq_ok_iff {least : Option Int} {n k : Int} :
    atLeast least n = .ok k ↔ n = k ∧ ∀ bound ∈ least, bound ≤ n := by
  cases least with
  | none => simp [atLeast]
  | some bound =>
      by_cases h : n < bound
      · simp [atLeast, h]
      · simp [atLeast, h, Int.not_lt.1 h]

theorem atMost_eq_ok_iff {greatest : Option Int} {n k : Int} :
    atMost greatest n = .ok k ↔ n = k ∧ ∀ bound ∈ greatest, n ≤ bound := by
  cases greatest with
  | none => simp [atMost]
  | some bound =>
      by_cases h : bound < n
      · simp [atMost, h]
      · simp [atMost, h, Int.not_lt.1 h]

namespace Validator

theorem laxCheck_int_eq_ok_iff {least greatest : Option Int} {value : FieldValue} {n : Int} :
    laxCheck (.int least greatest) value = .ok n ↔
      value.toInt = .ok n ∧ (FieldType.int least greatest).Admits n := by
  show (value.toInt >>= atLeast least >>= atMost greatest) = .ok n ↔ _
  cases value.toInt with
  | error problem => simp [bind, Except.bind]
  | ok k =>
      show (atLeast least k >>= atMost greatest) = .ok n ↔ _
      cases hleast : atLeast least k with
      | error problem =>
          have hbelow : ¬ ∀ bound ∈ least, bound ≤ k := fun h =>
            absurd (hleast.symm.trans (atLeast_eq_ok_iff.2 ⟨rfl, h⟩)) (by simp)
          constructor
          · intro h
            cases h
          · rintro ⟨⟨⟩, hadmits⟩
            exact absurd hadmits.1 hbelow
      | ok k' =>
          obtain ⟨rfl, habove⟩ := atLeast_eq_ok_iff.1 hleast
          refine atMost_eq_ok_iff.trans ⟨?_, ?_⟩
          · rintro ⟨rfl, hbelow⟩
            exact ⟨rfl, habove, hbelow⟩
          · rintro ⟨⟨⟩, hadmits⟩
            exact ⟨rfl, hadmits.2⟩

variable {s : Schema} {given : List (String × FieldValue)}

theorem laxConstruct_eq_error_iff {errors : List (FieldError s.Field Problem)} :
    laxConstruct s given = .error errors ↔ s.failures laxCheck given = errors ∧ errors ≠ [] := by
  rw [laxConstruct]
  split
  · next hnone =>
      constructor
      · intro h
        cases h
      · rintro ⟨rfl, hsome⟩
        exact absurd hnone hsome
  · next hsome =>
      constructor
      · rintro ⟨⟩
        exact ⟨rfl, hsome⟩
      · rintro ⟨rfl, -⟩
        rfl

/-- Where no field fails, each holds what becomes of it. -/
theorem settled_of_laxConstruct {r : s.Record} (h : laxConstruct s given = .ok r) (f : s.Field) :
    s.settled laxCheck given f = .ok (r f) := by
  rw [laxConstruct] at h
  split at h
  · next hnone =>
      obtain rfl := Except.ok.inj h
      have hfine := Schema.failures_eq_nil_iff.1 hnone f
      cases hsettled : s.settled laxCheck given f with
      | ok x =>
          simp only [hsettled]
          rfl
      | error e =>
          rw [hsettled] at hfine
          cases hfine
  · cases h

theorem laxCheck_given : ∀ (t : FieldType) (x : t.Carrier), t.Admits x →
    laxCheck t (t.given x) = .ok x
  | .int _ _, _, h => laxCheck_int_eq_ok_iff.2 ⟨rfl, h⟩
  | .optionalInt, seed, _ => FieldValue.toInt?_seed seed
  | .bool, _, _ => rfl

theorem documented_lax (pages : Option String) : (lax pages).Documented where
  accepts := laxCheck_given
  limited least greatest value n h := by
    obtain ⟨hn, hadmits⟩ := laxCheck_int_eq_ok_iff.1 h
    exact ⟨laxCheck_int_eq_ok_iff.2 ⟨hn, by simp, by simp⟩, hadmits⟩
  optional value seed hnull h := by
    have hmap : value.toInt.map some = .ok seed := by
      cases value with
      | null => exact absurd rfl hnull
      | _ => exact h
    cases hn : value.toInt with
    | error problem =>
        rw [hn] at hmap
        cases hmap
    | ok n =>
        rw [hn] at hmap
        exact ⟨n, (Except.ok.inj hmap).symm, laxCheck_int_eq_ok_iff.2 ⟨hn, by simp, by simp⟩⟩
  list n h := by cases (laxCheck_int_eq_ok_iff.1 h).1
  held s given r h f value hlookup := by
    have hsettled := settled_of_laxConstruct h f
    rw [Schema.settled_of_lookup hlookup] at hsettled
    cases hcheck : laxCheck (s.type f) value with
    | error problem =>
        rw [hcheck] at hsettled
        cases hsettled
    | ok x =>
        rw [hcheck] at hsettled
        exact hcheck.trans (congrArg Except.ok (Except.ok.inj hsettled))
  defaulted s given r h f hlookup := by
    have hsettled := settled_of_laxConstruct h f
    rw [Schema.settled_of_not_given hlookup] at hsettled
    exact (Except.ok.inj hsettled).symm
  raised s given errors h := (laxConstruct_eq_error_iff.1 h).2
  reported s given errors h e := by
    rw [← (laxConstruct_eq_error_iff.1 h).1]
    exact Schema.mem_failures_iff
  ordered s given errors h := by
    rw [← (laxConstruct_eq_error_iff.1 h).1]
    exact map_filterMap_sublist (fun _ _ he => (Schema.failure?_settled_iff.1 he).1) s.declared

end Validator

end ChipEight
