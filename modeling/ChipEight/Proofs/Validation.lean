/-
# `ChipEight.Proofs.Validation` — a validator settles a class field by field

What is documented of a validator speaks of a report as a whole: it holds all failures, each
of one field, and they stand in the order of the fields.  Since no field is declared twice,
there is only one such list, the failures of the fields one after the other.  So a class is
settled field by field.

**Proved here.**

    order and members make a list of failures           (`eq_of_map_sublist`)
    a report is the failures of the fields, in order    (`errors_of_construct`)
    success and failure are settled field by field      (`construct_eq_ok_iff`, `construct_eq_error_iff`)
    so are those of the options of a run                (`ofFields_eq_ok_iff`, `ofFields_eq_error_iff`)
-/
import ChipEight.Options.Basic

namespace ChipEight

/-- Two lists with the same members are the same list if their keys are all different and stand in
the same order. -/
theorem eq_of_map_sublist {α β : Type} {key : β → α} {order : List α} (horder : order.Nodup) :
    ∀ {l l' : List β}, (l.map key).Sublist order → (l'.map key).Sublist order →
      (∀ b, b ∈ l ↔ b ∈ l') → l = l' := by
  induction order with
  | nil =>
      intro l l' h h' _
      have hnil {l : List β} (h : (l.map key).Sublist []) : l = [] :=
        List.map_eq_nil_iff.1 (List.sublist_nil.1 h)
      rw [hnil h, hnil h']
  | cons a order ih =>
      obtain ⟨ha, hnodup⟩ := List.nodup_cons.1 horder
      have hkey {l : List β} {b : β} (h : (l.map key).Sublist order) (hb : b ∈ l) : key b ≠ a :=
        fun heq => ha (heq ▸ h.subset (List.mem_map_of_mem hb))
      intro l l' h h' hmem
      rcases List.sublist_cons_iff.1 h with hskip | ⟨keys, hl, htail⟩
      · rcases List.sublist_cons_iff.1 h' with hskip' | ⟨keys', hl', -⟩
        · exact ih hnodup hskip hskip' hmem
        · obtain ⟨b, rest, rfl, hb, -⟩ := List.map_eq_cons_iff.1 hl'
          exact absurd hb (hkey hskip ((hmem b).2 List.mem_cons_self))
      · obtain ⟨b, rest, rfl, hb, rfl⟩ := List.map_eq_cons_iff.1 hl
        rcases List.sublist_cons_iff.1 h' with hskip' | ⟨keys', hl', htail'⟩
        · exact absurd hb (hkey hskip' ((hmem b).1 List.mem_cons_self))
        · obtain ⟨b', rest', rfl, hb', rfl⟩ := List.map_eq_cons_iff.1 hl'
          -- only the first of a list has the first key
          have hfirst : b = b' := by
            rcases List.mem_cons.1 ((hmem b).1 List.mem_cons_self) with heq | hrest
            · exact heq
            · exact absurd hb (hkey htail' hrest)
          subst hfirst
          have hrest : ∀ c, c ∈ rest ↔ c ∈ rest' := by
            intro c
            constructor
            · intro hc
              rcases List.mem_cons.1 ((hmem c).1 (List.mem_cons_of_mem _ hc)) with rfl | hc'
              · exact absurd hb (hkey htail hc)
              · exact hc'
            · intro hc
              rcases List.mem_cons.1 ((hmem c).2 (List.mem_cons_of_mem _ hc)) with rfl | hc'
              · exact absurd hb (hkey htail' hc)
              · exact hc'
          rw [ih hnodup htail htail' hrest]

theorem map_filterMap_sublist {α β : Type} {key : β → α} {f : α → Option β}
    (hf : ∀ a b, f a = some b → key b = a) (l : List α) :
    ((l.filterMap f).map key).Sublist l := by
  induction l with
  | nil => exact List.Sublist.refl _
  | cons a l ih =>
      cases ha : f a with
      | none =>
          rw [List.filterMap_cons_none ha]
          exact ih.cons a
      | some b =>
          rw [List.filterMap_cons_some ha, List.map_cons, hf a b ha]
          exact ih.cons_cons a

namespace Schema

variable {ε : Type} {check : (t : FieldType) → FieldValue → Except ε t.Carrier} {s : Schema}
  {given : List (String × FieldValue)}

theorem settled_of_not_given {f : s.Field} (h : given.lookup (s.name f) = none) :
    s.settled check given f = .ok (s.default f) := by
  rw [settled, h]

theorem settled_of_lookup {f : s.Field} {value : FieldValue}
    (h : given.lookup (s.name f) = some value) :
    s.settled check given f =
      (check (s.type f) value).mapError fun problem => ⟨f, problem, value⟩ := by
  rw [settled, h]

theorem failure?_settled_iff {f : s.Field} {e : FieldError s.Field ε} :
    failure? (s.settled check given f) = some e ↔ e.field = f ∧
      given.lookup (s.name e.field) = some e.value ∧
      check (s.type e.field) e.value = .error e.problem := by
  cases hlookup : given.lookup (s.name f) with
  | none =>
      rw [settled_of_not_given hlookup]
      constructor
      · intro h
        cases h
      · rintro ⟨rfl, h, -⟩
        rw [hlookup] at h
        cases h
  | some value =>
      rw [settled_of_lookup hlookup]
      cases hcheck : check (s.type f) value with
      | ok x =>
          constructor
          · intro h
            cases h
          · rintro ⟨rfl, h, hfailed⟩
            rw [hlookup] at h
            rw [← Option.some.inj h, hcheck] at hfailed
            cases hfailed
      | error problem =>
          constructor
          · intro h
            obtain rfl : FieldError.mk f problem value = e := Option.some.inj h
            exact ⟨rfl, hlookup, hcheck⟩
          · rintro ⟨rfl, h, hfailed⟩
            rw [hlookup] at h
            obtain rfl : value = e.value := Option.some.inj h
            obtain rfl : problem = e.problem := Except.error.inj (hcheck.symm.trans hfailed)
            rfl

theorem mem_failures_iff {e : FieldError s.Field ε} :
    e ∈ s.failures check given ↔ given.lookup (s.name e.field) = some e.value ∧
      check (s.type e.field) e.value = .error e.problem := by
  rw [failures, List.mem_filterMap]
  constructor
  · rintro ⟨f, -, h⟩
    exact (failure?_settled_iff.1 h).2
  · intro h
    exact ⟨e.field, s.mem_declared _, failure?_settled_iff.2 ⟨rfl, h⟩⟩

theorem failures_eq_nil_iff :
    s.failures check given = [] ↔ ∀ f, failure? (s.settled check given f) = none := by
  rw [failures, List.filterMap_eq_nil_iff]
  exact ⟨fun h f => h f (s.mem_declared f), fun h f _ => h f⟩

end Schema

namespace Validator

variable {ε : Type} {v : Validator ε} {s : Schema} {given : List (String × FieldValue)}

namespace Documented

open Schema

variable (hv : v.Documented)
include hv

theorem settled_of_construct {r : s.Record} (h : v.construct s given = .ok r) (f : s.Field) :
    s.settled v.check given f = .ok (r f) := by
  cases hlookup : given.lookup (s.name f) with
  | none => rw [settled_of_not_given hlookup, hv.defaulted s given r h f hlookup]
  | some value =>
      rw [settled_of_lookup hlookup, hv.held s given r h f value hlookup]
      rfl

/-- Both lists hold all failures in the order of the fields, and there is one such list. -/
theorem errors_of_construct {errors : List (FieldError s.Field ε)}
    (h : v.construct s given = .error errors) : errors = s.failures v.check given :=
  eq_of_map_sublist s.nodup (hv.ordered s given errors h)
    (map_filterMap_sublist (fun _ _ he => (failure?_settled_iff.1 he).1) s.declared)
    fun e => (hv.reported s given errors h e).trans mem_failures_iff.symm

theorem construct_eq_ok_iff {r : s.Record} :
    v.construct s given = .ok r ↔ ∀ f, s.settled v.check given f = .ok (r f) := by
  refine ⟨fun h => hv.settled_of_construct h, fun h => ?_⟩
  cases hconstruct : v.construct s given with
  | ok r' =>
      refine congrArg Except.ok (funext fun f => ?_)
      exact Except.ok.inj ((hv.settled_of_construct hconstruct f).symm.trans (h f))
  | error errors =>
      refine absurd ?_ (hv.raised s given errors hconstruct)
      rw [hv.errors_of_construct hconstruct, failures_eq_nil_iff]
      intro f
      rw [h f]
      rfl

theorem construct_eq_error_iff {errors : List (FieldError s.Field ε)} :
    v.construct s given = .error errors ↔ s.failures v.check given = errors ∧ errors ≠ [] := by
  constructor
  · intro h
    exact ⟨(hv.errors_of_construct h).symm, hv.raised s given errors h⟩
  · rintro ⟨rfl, hsome⟩
    cases hconstruct : v.construct s given with
    | ok r =>
        refine absurd (failures_eq_nil_iff.2 fun f => ?_) hsome
        rw [hv.settled_of_construct hconstruct f]
        rfl
    | error errors => rw [hv.errors_of_construct hconstruct]

/-- An integer is accepted as itself or not at all. -/
theorem check_int_iff {least greatest : Option Int} {n m : Int} :
    v.check (.int least greatest) (.int n) = .ok m ↔
      n = m ∧ (FieldType.int least greatest).Admits n := by
  have hplain : v.check (.int none none) (.int n) = .ok n :=
    hv.accepts (.int none none) n ⟨by simp, by simp⟩
  constructor
  · intro h
    obtain ⟨hm, hadmits⟩ := hv.limited least greatest _ m h
    obtain rfl : n = m := Except.ok.inj (hplain.symm.trans hm)
    exact ⟨rfl, hadmits⟩
  · rintro ⟨rfl, hadmits⟩
    exact hv.accepts (.int least greatest) n hadmits

theorem check_int_list {least greatest : Option Int} {n : Int} :
    v.check (.int least greatest) .list ≠ .ok n :=
  fun h => hv.list n (hv.limited least greatest _ n h).1

theorem check_optionalInt_list {seed : Option Int} : v.check .optionalInt .list ≠ .ok seed := by
  intro h
  obtain ⟨n, -, hn⟩ := hv.optional .list seed (fun h => by cases h) h
  exact hv.list n hn

end Documented

end Validator

/-! ## The options of a run -/

namespace Options

theorem get_ofRecord (r : schema.Record) : (ofRecord r).get = r := by
  funext field
  cases field <;> rfl

variable {ε : Type} {v : Validator ε} {given : List (String × FieldValue)}

theorem ofFields_eq_ok {o : Options} :
    ofFields v given = .ok o ↔ v.construct schema given = .ok o.get := by
  rw [ofFields]
  cases v.construct schema given with
  | error errors =>
      constructor
      · intro h
        cases h
      · intro h
        cases h
  | ok r =>
      constructor
      · rintro ⟨⟩
        rw [get_ofRecord]
      · rintro ⟨⟩
        rfl

theorem ofFields_eq_error {errors : List (FieldError Field ε)} :
    ofFields v given = .error errors ↔ v.construct schema given = .error errors := by
  rw [ofFields]
  cases v.construct schema given with
  | error _ =>
      constructor
      · rintro ⟨⟩
        rfl
      · rintro ⟨⟩
        rfl
  | ok r =>
      constructor
      · intro h
        cases h
      · intro h
        cases h

section

variable (hv : v.Documented)
include hv

theorem ofFields_eq_ok_iff {o : Options} :
    ofFields v given = .ok o ↔ ∀ field, schema.settled v.check given field = .ok (o.get field) :=
  ofFields_eq_ok.trans hv.construct_eq_ok_iff

theorem ofFields_eq_error_iff {errors : List (FieldError Field ε)} :
    ofFields v given = .error errors ↔ schema.failures v.check given = errors ∧ errors ≠ [] :=
  ofFields_eq_error.trans hv.construct_eq_error_iff

end

end Options

end ChipEight
