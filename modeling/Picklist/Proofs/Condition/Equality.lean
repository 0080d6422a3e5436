import Mathlib.Data.List.Basic
import Picklist.Condition
import Picklist.Proofs.Equality

/-!
# Conditions and equal values

A condition looks at an entry, a key and expected values through paths, truth, emptiness and common
elements. None of these tells equal values apart, so the verdict is the same for equal ones, in
whatever order members stand.

* `Value.isTruthy_canonical`, `Value.isEmptyOrFalse_canonical`, `Value.intersects_canonical`: each
  test of a value is that of its canonical form;
* `Entry.Agrees`, `Expected.Agrees`, `Clause.Agrees`: entries with equal fields, expectations of
  equal values;
* `Clause.holds_congr`: a clause holds for one where it holds for the other;
* `Condition.passes_congr_of_ofValue`: so do the conditions that equal documents write;
* `Condition.passes_respects_equality`: all of these together.
-/

namespace Picklist

/-! ## 1. Tests of a value -/

namespace Value

theorem isNull_canonical (v : Value) : v.canonical.isNull = v.isNull := by
  cases v <;> rfl

theorem isEmpty_canonicalMembers (members : Fields) :
    (canonicalMembers members).isEmpty = members.isEmpty := by
  rw [(perm_canonicalMembers members).isEmpty_eq, List.isEmpty_map]

theorem isTruthy_canonical (v : Value) : v.canonical.isTruthy = v.isTruthy := by
  cases v with
  | number n => exact congrArg not (Number.isZero_canonical n)
  | array items => simp [canonical, isTruthy, canonicalItems_eq_map]
  | object members => exact congrArg not (isEmpty_canonicalMembers members)
  | _ => rfl

theorem isEmptyOrFalse_canonical (v : Value) :
    v.canonical.isEmptyOrFalse = v.isEmptyOrFalse := by
  cases v with
  | array items => simp [canonical, isEmptyOrFalse, canonicalItems_eq_map]
  | object members => exact isEmpty_canonicalMembers members
  | _ => rfl

/-- Whether a value is in a list depends on its canonical form. -/
theorem contains_canonical (allowed : List Value) (v : Value) :
    allowed.contains v.canonical = allowed.contains v := by
  have hsame : ∀ a : Value, v.canonical.same a = v.same a := fun a => by
    rw [Bool.eq_iff_iff, same_iff, same_iff, canonical_canonical]
  rw [Bool.eq_iff_iff, List.contains_iff_exists_mem_beq, List.contains_iff_exists_mem_beq]
  exact exists_congr fun a => and_congr_right fun _ => by
    show v.canonical.same a = true ↔ v.same a = true
    rw [hsame]

/-- The elements of a canonical form are the canonical forms of the elements, in some order. -/
theorem perm_elements_canonical (v : Value) :
    v.canonical.elements.Perm (v.elements.map canonical) := by
  cases v with
  | array items =>
    rw [canonical, elements, elements, canonicalItems_eq_map]
  | object members =>
    have h := (perm_canonicalMembers members).map Prod.snd
    rw [List.map_map] at h
    rw [canonical, elements, elements, List.map_map]
    exact h
  | _ => exact List.Perm.refl _

/-- **What a value has in common with a list depends on its canonical form.** -/
theorem intersects_canonical (v : Value) (allowed : List Value) :
    v.canonical.intersects allowed = v.intersects allowed := by
  have helements : v.canonical.elements.any (allowed.contains ·)
      = v.elements.any (allowed.contains ·) := by
    rw [(perm_elements_canonical v).any_eq, List.any_map]
    exact congrArg _ (funext fun a => contains_canonical allowed a)
  cases v with
  | object members =>
    rw [canonical] at helements ⊢
    rw [intersects, intersects, helements]
    refine congrArg (_ || ·) ?_
    rw [(perm_canonicalMembers members).any_eq, List.any_map]
    rfl
  | _ => exact congrArg (· || false) helements

/-- Equal values lead to equal values along a path. -/
theorem resolve_congr {v w : Value} (h : v.same w = true) (path : String) :
    (v.resolve path).map canonical = (w.resolve path).map canonical := by
  rw [← resolve_canonical, ← resolve_canonical, (same_iff v w).mp h]

end Value

/-! ## 2. Entries -/

namespace Entry

/-- Entries whose fields are equal, or which both have none. -/
def Agrees (entry other : Entry) : Prop :=
  entry.fields?.map Value.canonicalMembers = other.fields?.map Value.canonicalMembers

/-- Records of equal objects agree. -/
theorem agrees_of_same {entry other : Entry} {fields others : Value.Fields}
    (hfields : entry.fields? = some fields) (hothers : other.fields? = some others)
    (h : (Value.object fields).same (.object others) = true) : entry.Agrees other := by
  have hcanonical : Value.canonicalMembers fields = Value.canonicalMembers others :=
    Value.object.inj ((Value.same_iff _ _).mp h)
  unfold Agrees
  rw [hfields, hothers, Option.map_some, Option.map_some, hcanonical]

theorem agrees_canonical (v : Value) : (ofValue v).Agrees (ofValue v.canonical) := by
  cases v with
  | object members =>
    have h : Value.object (Value.canonicalMembers members) = (Value.object members).canonical := rfl
    refine agrees_of_same (rfl : _ = some members) rfl ?_
    rw [h]
    exact Value.same_canonical _
  | array items =>
    refine congrArg some ?_
    have hnumbered : (Value.numbered (Value.canonicalItems items)).map Value.canonicalMember
        = (Value.numbered items).map Value.canonicalMember := by
      rw [Value.numbered, Value.numbered, Value.canonicalItems_eq_map, List.zipIdx_map,
        List.map_map, List.map_map, List.map_map]
      refine List.map_congr_left fun m _ => ?_
      exact congrArg (Prod.mk (toString m.2)) (Value.canonical_canonical m.1)
    rw [Value.canonicalMembers_eq_sort, Value.canonicalMembers_eq_sort, hnumbered]
  | _ => rfl

/-- The entries of equal values agree. -/
theorem agrees_ofValue {v w : Value} (h : v.same w = true) : (ofValue v).Agrees (ofValue w) := by
  have hcanonical : v.canonical = w.canonical := (Value.same_iff v w).mp h
  have hv : (ofValue v).Agrees (ofValue w.canonical) := hcanonical ▸ agrees_canonical v
  exact Eq.trans hv (agrees_canonical w).symm

/-- **In entries that agree a path finds equal values.** -/
theorem present?_congr {entry other : Entry} (h : entry.Agrees other) (path : String) :
    (entry.present? path).map Value.canonical = (other.present? path).map Value.canonical := by
  have hfind : (entry.find? path).map Value.canonical = (other.find? path).map Value.canonical := by
    unfold Agrees at h
    unfold find?
    cases hfields : entry.fields? with
    | none =>
      cases hothers : other.fields? with
      | none => rfl
      | some others => rw [hfields, hothers] at h; cases h
    | some fields =>
      cases hothers : other.fields? with
      | none => rw [hfields, hothers] at h; cases h
      | some others =>
        rw [hfields, hothers, Option.map_some, Option.map_some, Option.some.injEq] at h
        refine Value.resolve_congr ((Value.same_iff _ _).mpr ?_) path
        rw [Value.canonical, Value.canonical, h]
  -- what is left out is left out of both: a canonical form is null where the value is
  have hfilter : ∀ found : Option Value, (found.filter fun v => !v.isNull).map Value.canonical
      = (found.map Value.canonical).filter fun v => !v.isNull := by
    intro found
    cases found with
    | none => rfl
    | some v =>
      rw [Option.map_some, Option.filter_some, Option.filter_some, Value.isNull_canonical]
      split <;> rfl
  rw [present?, present?, hfilter, hfilter, hfind]

end Entry

/-! ## 3. Clauses -/

namespace Expected

/-- Expectations of the same kind; of two lists, each value of one is equal to one of the other. -/
inductive Agrees : Expected → Expected → Prop where
  | truthy : Agrees .truthy .truthy
  | falsy : Agrees .falsy .falsy
  | unset : Agrees .unset .unset
  | oneOf {allowed others : List Value}
      (hsub : ∀ v ∈ allowed, ∃ w ∈ others, v.same w = true)
      (hsup : ∀ w ∈ others, ∃ v ∈ allowed, w.same v = true) :
    Agrees (.oneOf allowed) (.oneOf others)

theorem Agrees.symm {expected other : Expected} (h : expected.Agrees other) :
    other.Agrees expected := by
  cases h with
  | oneOf hsub hsup => exact .oneOf hsup hsub
  | truthy => exact .truthy
  | falsy => exact .falsy
  | unset => exact .unset

theorem Agrees.trans {first second third : Expected} (h : first.Agrees second)
    (h' : second.Agrees third) : first.Agrees third := by
  cases h with
  | truthy | falsy | unset => exact h'
  | oneOf hsub hsup =>
    cases h' with
    | oneOf hsub' hsup' =>
      refine .oneOf (fun u hu => ?_) fun w hw => ?_
      · obtain ⟨v, hv, huv⟩ := hsub u hu
        obtain ⟨w, hw, hvw⟩ := hsub' v hv
        exact ⟨w, hw, Value.same_trans huv hvw⟩
      · obtain ⟨v, hv, hwv⟩ := hsup' w hw
        obtain ⟨u, hu, hvu⟩ := hsup v hv
        exact ⟨u, hu, Value.same_trans hwv hvu⟩

/-- The elements of a value and of its canonical form are expected alike. -/
theorem agrees_elements_canonical (v : Value) :
    (oneOf v.elements).Agrees (oneOf v.canonical.elements) := by
  have hmem : ∀ w, w ∈ v.canonical.elements ↔ ∃ a ∈ v.elements, a.canonical = w := fun w => by
    rw [(Value.perm_elements_canonical v).mem_iff, List.mem_map]
  refine .oneOf (fun a ha => ?_) fun w hw => ?_
  · exact ⟨a.canonical, (hmem _).mpr ⟨a, ha, rfl⟩, Value.same_canonical a⟩
  · obtain ⟨a, ha, rfl⟩ := (hmem w).mp hw
    exact ⟨a, ha, Value.same_symm (Value.same_canonical a)⟩

theorem agrees_canonical (v : Value) : (ofValue v).Agrees (ofValue v.canonical) := by
  cases v with
  | null => exact .unset
  | bool b =>
    cases b with
    | true => exact .truthy
    | false => exact .falsy
  | number n => exact agrees_elements_canonical (.number n)
  | string s => exact agrees_elements_canonical (.string s)
  | array items => exact agrees_elements_canonical (.array items)
  | object members => exact agrees_elements_canonical (.object members)

/-- The expectations of equal values agree. -/
theorem agrees_ofValue {v w : Value} (h : v.same w = true) : (ofValue v).Agrees (ofValue w) := by
  have hcanonical : v.canonical = w.canonical := (Value.same_iff v w).mp h
  exact (agrees_canonical v).trans (hcanonical ▸ (agrees_canonical w).symm)

theorem admits_canonical (expected : Expected) (current : Option Value) :
    expected.admits (current.map Value.canonical) = expected.admits current := by
  cases current with
  | none => cases expected <;> rfl
  | some v =>
    cases expected with
    | truthy => exact Value.isTruthy_canonical v
    | falsy => exact Value.isEmptyOrFalse_canonical v
    | unset => rfl
    | oneOf allowed => exact Value.intersects_canonical v allowed

/-- Lists that hold equal values hold the same values. -/
theorem contains_congr {allowed others : List Value}
    (hsub : ∀ v ∈ allowed, ∃ w ∈ others, v.same w = true)
    (hsup : ∀ w ∈ others, ∃ v ∈ allowed, w.same v = true) (v : Value) :
    allowed.contains v = others.contains v := by
  rw [Bool.eq_iff_iff, List.contains_iff_exists_mem_beq, List.contains_iff_exists_mem_beq]
  constructor
  · intro h
    obtain ⟨a, ha, hva⟩ := h
    obtain ⟨w, hw, haw⟩ := hsub a ha
    exact ⟨w, hw, Value.same_trans hva haw⟩
  · intro h
    obtain ⟨w, hw, hvw⟩ := h
    obtain ⟨a, ha, hwa⟩ := hsup w hw
    exact ⟨a, ha, Value.same_trans hvw hwa⟩

/-- **Expectations that agree admit the same, of equal values.** -/
theorem admits_congr {expected other : Expected} {current found : Option Value}
    (h : expected.Agrees other)
    (hcurrent : current.map Value.canonical = found.map Value.canonical) :
    expected.admits current = other.admits found := by
  rw [← admits_canonical expected, ← admits_canonical other, hcurrent]
  cases h with
  | truthy | falsy | unset => rfl
  | oneOf hsub hsup => simp only [admits, Value.intersects, contains_congr hsub hsup]

end Expected

/-- Clauses on the same subject with expectations that agree. -/
structure Clause.Agrees (clause other : Clause) : Prop where
  subject : clause.subject = other.subject
  expected : clause.expected.Agrees other.expected

section Verdict

variable {entry other : Entry} {key found : Value}

theorem Subject.current?_congr (subject : Subject) (hentry : entry.Agrees other)
    (hkey : key.same found = true) :
    (subject.current? entry key).map Value.canonical
      = (subject.current? other found).map Value.canonical := by
  cases subject with
  | key => exact congrArg some ((Value.same_iff key found).mp hkey)
  | path p => exact Entry.present?_congr hentry p

/-- **Clauses that agree hold alike**, of entries that agree and equal keys. -/
theorem Clause.holds_congr {clause replaced : Clause} (h : clause.Agrees replaced)
    (hentry : entry.Agrees other) (hkey : key.same found = true) :
    clause.holds entry key = replaced.holds other found := by
  rw [holds, holds, h.subject]
  exact Expected.admits_congr h.expected (replaced.subject.current?_congr hentry hkey)

theorem Clause.all_holds_congr {clauses replaced : List Clause}
    (h : List.Forall₂ Clause.Agrees clauses replaced) (hentry : entry.Agrees other)
    (hkey : key.same found = true) :
    clauses.all (·.holds entry key) = replaced.all (·.holds other found) := by
  induction h with
  | nil => rfl
  | cons hclause _ ih => rw [List.all_cons, List.all_cons, holds_congr hclause hentry hkey, ih]

/-! ## 4. Documents -/

namespace Condition

/-- The clauses of members in their order, and of canonical members sorted by name. -/
theorem all_canonicalMembers (members : Value.Fields) (hentry : entry.Agrees other)
    (hkey : key.same found = true) :
    (members.map fun m => (⟨.ofName m.1, .ofValue m.2⟩ : Clause)).all (·.holds entry key)
      = ((Value.canonicalMembers members).map fun m =>
          (⟨.ofName m.1, .ofValue m.2⟩ : Clause)).all (·.holds other found) := by
  rw [((Value.perm_canonicalMembers members).map _).all_eq, List.map_map]
  refine Clause.all_holds_congr ?_ hentry hkey
  rw [List.forall₂_map_left_iff, List.forall₂_map_right_iff, List.forall₂_same]
  exact fun m _ => ⟨rfl, Expected.agrees_canonical m.2⟩

/-- A document writes a condition with the verdicts of the one that its canonical form writes. -/
theorem passes_ofValue_canonical (document : Value) (hentry : entry.Agrees other)
    (hkey : key.same found = true) :
    (ofValue document).map (·.passes entry key)
      = (ofValue document.canonical).map (·.passes other found) := by
  have hsingle : ∀ v : Value, [(⟨.key, .ofValue v⟩ : Clause)].all (·.holds entry key)
      = [(⟨.key, .ofValue v.canonical⟩ : Clause)].all (·.holds other found) := fun v =>
    Clause.all_holds_congr (.cons ⟨rfl, Expected.agrees_canonical v⟩ .nil) hentry hkey
  cases document with
  | null => rfl
  | bool b => rfl
  | number n => exact congrArg Except.ok (hsingle (.number n))
  | string s => exact congrArg Except.ok (hsingle (.string s))
  | array items =>
    refine congrArg Except.ok (Clause.all_holds_congr ?_ hentry hkey)
    rw [Value.canonicalItems_eq_map, List.map_map, List.forall₂_map_left_iff,
      List.forall₂_map_right_iff, List.forall₂_same]
    exact fun v _ => ⟨rfl, Expected.agrees_canonical v⟩
  | object members => exact congrArg Except.ok (all_canonicalMembers members hentry hkey)

/-- **Equal documents write conditions with the same verdicts**, or are refused alike. -/
theorem passes_congr_of_ofValue {document replaced : Value} (h : document.same replaced = true)
    (hentry : entry.Agrees other) (hkey : key.same found = true) :
    (ofValue document).map (·.passes entry key)
      = (ofValue replaced).map (·.passes other found) := by
  have hcanonical : document.canonical = replaced.canonical := (Value.same_iff _ _).mp h
  have hsame : found.same found = true := (Value.same_iff _ _).mpr rfl
  rw [passes_ofValue_canonical document hentry hkey, hcanonical,
    ← passes_ofValue_canonical replaced rfl hsame]

end Condition

end Verdict

/-- **Conditions respect equality.** Clauses with equal expected values hold alike of entries with
    equal fields and equal keys. Documents that are equal, at the top level or below, write
    conditions with the same verdicts, or are refused with the same error. Values that differ in
    the order of members alone, at any depth, are equal; as entries and as expected values they
    agree. -/
theorem Condition.passes_respects_equality :
    (∀ (clauses replaced : List Clause) (entry other : Entry) (key found : Value),
      List.Forall₂ Clause.Agrees clauses replaced → entry.Agrees other → key.same found = true →
      (Condition.clauses clauses).passes entry key
        = (Condition.clauses replaced).passes other found) ∧
    (∀ (document replaced : Value) (entry other : Entry) (key found : Value),
      document.same replaced = true → entry.Agrees other → key.same found = true →
      (ofValue document).map (·.passes entry key)
        = (ofValue replaced).map (·.passes other found)) ∧
    (∀ v w : Value, v.same w = true →
      (Entry.ofValue v).Agrees (Entry.ofValue w) ∧
        (Expected.ofValue v).Agrees (Expected.ofValue w)) ∧
    ∀ document replaced v w key : Value, document.Reorders replaced → v.Reorders w →
      (ofValue document).map (·.passes (Entry.ofValue v) key)
        = (ofValue replaced).map (·.passes (Entry.ofValue w) key) := by
  refine ⟨fun clauses replaced entry other key found hclauses hentry hkey => ?_,
    fun document replaced entry other key found h hentry hkey => ?_, fun v w h => ?_,
    fun document replaced v w key hdocument hentry => ?_⟩
  · exact Clause.all_holds_congr hclauses hentry hkey
  · exact passes_congr_of_ofValue h hentry hkey
  · exact ⟨Entry.agrees_ofValue h, Expected.agrees_ofValue h⟩
  · exact passes_congr_of_ofValue (Value.same_of_reorders hdocument)
      (Entry.agrees_ofValue (Value.same_of_reorders hentry)) ((Value.same_iff _ _).mpr rfl)

/-- A size that is expected with its members in one order is found with them in the other. -/
theorem Condition.passes_respects_equality_sizes :
    ∃ document replaced v w : Value,
      document.Reorders replaced ∧ v.Reorders w ∧
      (ofValue document).map (·.passes (Entry.ofValue v) (.string "shoe")) = .ok true ∧
      (ofValue replaced).map (·.passes (Entry.ofValue w) (.string "shoe")) = .ok true := by
  let size : Value := .object [("min", .number (.integer 38)), ("max", .number (.integer 42))]
  let turned : Value := .object [("max", .number (.integer 42)), ("min", .number (.integer 38))]
  have hturned : size.Reorders turned := .members (by decide) (List.Perm.swap _ _ [])
  have hdocument : (Value.object [("sizes", .array [size])]).Reorders
      (.object [("sizes", .array [turned])]) :=
    .member [] "sizes" [] (.item [] [] hturned)
  have hentry : (Value.object [("sizes", .array [.null, size])]).Reorders
      (.object [("sizes", .array [.null, turned])]) :=
    .member [] "sizes" [] (.item [.null] [] hturned)
  have hpasses : (ofValue (.object [("sizes", .array [size])])).map
      (·.passes (Entry.ofValue (.object [("sizes", .array [.null, size])])) (.string "shoe"))
        = .ok true := by rfl
  have hagree := passes_respects_equality.2.2.2 _ _ _ _ (.string "shoe") hdocument hentry
  exact ⟨_, _, _, _, hdocument, hentry, hpasses, hagree.symm.trans hpasses⟩

end Picklist
