import Mathlib.Data.List.DropRight
import Picklist.Condition

/-!
# Conditions built step by step

A condition is built by adding clauses and by putting a test in the place of all clauses. Each
clause narrows what passes by itself, so the order of the clauses and how often one is added do not
matter; a test only stands until the next clause.

* `Condition.Addition`, `Condition.Step`: a clause that is added, and a step of building;
* `Condition.passes_foldl_add`: the verdict of many clauses is the verdict of each;
* `Condition.standing_after`: which clauses stand after some steps;
* `Condition.after_eq_left`: so a condition is the test of the last step, or the clauses since the
  last test;
* `Condition.ofValue_object`, `Condition.ofValue_array`: a document is read as if its clauses were
  added one by one;
* `Condition.building_conjoins`: all of these together.
-/

namespace Picklist.Condition

/-! ## 1. Added clauses -/

/-- A clause that is added: on a named field, or on the key. -/
inductive Addition where
  | field (name : String) (expected : Value)
  | key (expected : Value)

/-- The clause that an addition adds. -/
def Addition.clause : Addition → Clause
  | .field name expected => ⟨.ofName name, .ofValue expected⟩
  | .key expected => ⟨.key, .ofValue expected⟩

/-- Add a clause. -/
def add (condition : Condition) : Addition → Condition
  | .field name expected => condition.with name expected
  | .key expected => condition.withKey expected

/-- The clauses that a condition has; a test has none. -/
def standing : Condition → List Clause
  | .clauses all => all
  | .predicate _ => []

theorem push_eq (condition : Condition) (clause : Clause) :
    condition.push clause = .clauses (condition.standing ++ [clause]) := by
  cases condition <;> rfl

theorem add_eq (condition : Condition) (addition : Addition) :
    condition.add addition = .clauses (condition.standing ++ [addition.clause]) := by
  cases addition <;> exact push_eq condition _

theorem foldl_add_clauses (all : List Clause) (additions : List Addition) :
    additions.foldl add (.clauses all) = .clauses (all ++ additions.map Addition.clause) := by
  induction additions generalizing all with
  | nil => rw [List.foldl_nil, List.map_nil, List.append_nil]
  | cons first rest ih =>
    rw [List.foldl_cons, add_eq, ih, List.map_cons, standing, List.append_assoc,
      List.singleton_append]

variable {entry : Entry} {key : Value}

/-- A single clause passes where it holds. -/
theorem passes_add_always (addition : Addition) :
    (always.add addition).passes entry key = addition.clause.holds entry key := by
  rw [add_eq]
  exact Bool.and_true _

/-- **The verdict of many clauses is the verdict of each.** -/
theorem passes_foldl_add (all : List Clause) (additions : List Addition) (entry : Entry)
    (key : Value) :
    (additions.foldl add (.clauses all)).passes entry key
      = ((clauses all).passes entry key
          && additions.all fun addition => (always.add addition).passes entry key) := by
  have heach : (additions.map Addition.clause).all (·.holds entry key)
      = additions.all fun addition => (always.add addition).passes entry key := by
    rw [List.all_map]
    exact congrArg additions.all (funext fun addition => (passes_add_always addition).symm)
  rw [foldl_add_clauses, passes, passes, List.all_append, heach]

/-- More clauses let less pass. -/
theorem passes_foldl_add_mono {all : List Clause} {few more : List Addition} (h : few ⊆ more)
    (hpasses : (more.foldl add (.clauses all)).passes entry key = true) :
    (few.foldl add (.clauses all)).passes entry key = true := by
  rw [passes_foldl_add, Bool.and_eq_true, List.all_eq_true] at hpasses ⊢
  exact ⟨hpasses.1, fun addition hmem => hpasses.2 addition (h hmem)⟩

/-- Neither the order of clauses nor their repetition changes the verdict. -/
theorem passes_foldl_add_congr {all : List Clause} {additions others : List Addition}
    (h : ∀ addition, addition ∈ additions ↔ addition ∈ others) :
    (additions.foldl add (.clauses all)).passes entry key
      = (others.foldl add (.clauses all)).passes entry key := by
  rw [Bool.eq_iff_iff]
  exact ⟨passes_foldl_add_mono fun addition => (h addition).mpr,
    passes_foldl_add_mono fun addition => (h addition).mp⟩

/-! ## 2. Tests between the clauses -/

/-- A step of building a condition. -/
inductive Step where
  /-- A clause is added. -/
  | add (addition : Addition)
  /-- A test takes the place of the condition. -/
  | test (test : Entry → Value → Bool)

/-- Whether the step adds a clause. -/
def Step.isAddition : Step → Bool
  | .add _ => true
  | .test _ => false

/-- The clause that the step adds. -/
def Step.clause? : Step → Option Clause
  | .add addition => some addition.clause
  | .test _ => none

/-- Take one step. -/
def take (condition : Condition) : Step → Condition
  | .add addition => condition.add addition
  | .test test => .predicate test

/-- The condition after some steps. -/
def after (condition : Condition) (steps : List Step) : Condition := steps.foldl take condition

theorem after_concat (condition : Condition) (steps : List Step) (step : Step) :
    condition.after (steps ++ [step]) = (condition.after steps).take step := by
  rw [after, List.foldl_append]
  rfl

/-- The clauses that steps leave: those that were added since the last test, in order, behind those
    of the condition itself where there was no test. -/
def remaining (condition : Condition) (steps : List Step) : List Clause :=
  (if steps.all (·.isAddition) then condition.standing else [])
    ++ (steps.rtakeWhile (·.isAddition)).filterMap (·.clause?)

theorem remaining_concat_add (condition : Condition) (steps : List Step) (addition : Addition) :
    condition.remaining (steps ++ [.add addition])
      = condition.remaining steps ++ [addition.clause] := by
  have hsince : (steps ++ [Step.add addition]).rtakeWhile (·.isAddition)
      = steps.rtakeWhile (·.isAddition) ++ [Step.add addition] :=
    List.rtakeWhile_concat_pos _ _ _ rfl
  have hall : (steps ++ [Step.add addition]).all (·.isAddition) = steps.all (·.isAddition) := by
    rw [List.all_append]
    exact Bool.and_true _
  rw [remaining, remaining, hsince, hall, List.filterMap_append, List.append_assoc]
  rfl

theorem remaining_concat_test (condition : Condition) (steps : List Step)
    (test : Entry → Value → Bool) : condition.remaining (steps ++ [.test test]) = [] := by
  have hsince : (steps ++ [Step.test test]).rtakeWhile (·.isAddition) = [] :=
    List.rtakeWhile_concat_neg _ _ _ Bool.false_ne_true
  have hall : (steps ++ [Step.test test]).all (·.isAddition) = false := by
    rw [List.all_append]
    exact Bool.and_false _
  rw [remaining, hsince, hall]
  rfl

/-- **The clauses that stand after some steps.** -/
theorem standing_after (condition : Condition) (steps : List Step) :
    (condition.after steps).standing = condition.remaining steps := by
  induction steps using List.reverseRecOn with
  | nil => exact (List.append_nil _).symm
  | append_singleton steps step ih =>
    rw [after_concat]
    cases step with
    | add addition => rw [remaining_concat_add, ← ih, take, add_eq, standing]
    | test test => rw [remaining_concat_test, take, standing]

/-- What steps leave of a condition: the test, if the last step put one, and else the clauses that
    remain. -/
def left (condition : Condition) (steps : List Step) : Condition :=
  match steps.getLast? with
  | none => condition
  | some (.test test) => .predicate test
  | some (.add _) => .clauses (condition.remaining steps)

/-- **The condition after some steps** is what they leave. -/
theorem after_eq_left (condition : Condition) (steps : List Step) :
    condition.after steps = condition.left steps := by
  cases steps using List.reverseRecOn with
  | nil => rfl
  | append_singleton steps step =>
    rw [after_concat, left, List.getLast?_concat]
    cases step with
    | add addition => rw [take, add_eq, standing_after, remaining_concat_add]
    | test test => rfl

/-! ## 3. Documents -/

theorem ofValue_object (members : Value.Fields) :
    ofValue (.object members)
      = .ok (members.foldl (fun condition m => condition.with m.1 m.2) always) := by
  have hadd : members.foldl (fun condition m => condition.with m.1 m.2) always
      = (members.map fun m => Addition.field m.1 m.2).foldl add (.clauses []) := by
    rw [List.foldl_map]
    rfl
  rw [hadd, foldl_add_clauses, List.nil_append, List.map_map]
  rfl

theorem ofValue_array (items : List Value) :
    ofValue (.array items) = .ok (items.foldl withKey always) := by
  have hadd : items.foldl withKey always = (items.map Addition.key).foldl add (.clauses []) := by
    rw [List.foldl_map]
    rfl
  rw [hadd, foldl_add_clauses, List.nil_append, List.map_map]
  rfl

/-! ## 4. Conjunction -/

/-- **Building a condition is conjunction.** A condition of clauses with one more clause, on a field
    or on the key, passes where it passed before and the clause passes by itself; so the verdict of
    many clauses is the verdict of each, in whatever order and however often they are added, and
    more of them let less pass. After any steps a condition is the test, if the last step put one,
    and else has exactly the clauses that were added since the last test, in order. A document is
    read as if the members of an object were added as clauses on fields, the items of an array as
    clauses on the key, and a text or a number as a single clause on the key. -/
theorem building_conjoins :
    (∀ (all : List Clause) (name : String) (expected : Value) (entry : Entry) (key : Value),
      ((clauses all).with name expected).passes entry key
          = ((clauses all).passes entry key && (always.with name expected).passes entry key) ∧
        ((clauses all).withKey expected).passes entry key
          = ((clauses all).passes entry key && (always.withKey expected).passes entry key)) ∧
    (∀ (additions : List Addition) (entry : Entry) (key : Value),
      (additions.foldl add always).passes entry key
        = additions.all fun addition => (always.add addition).passes entry key) ∧
    (∀ (all : List Clause) (additions others : List Addition) (entry : Entry) (key : Value),
      (∀ addition, addition ∈ additions ↔ addition ∈ others) →
      (additions.foldl add (clauses all)).passes entry key
        = (others.foldl add (clauses all)).passes entry key) ∧
    (∀ (all : List Clause) (few more : List Addition) (entry : Entry) (key : Value), few ⊆ more →
      (more.foldl add (clauses all)).passes entry key = true →
      (few.foldl add (clauses all)).passes entry key = true) ∧
    (∀ (condition : Condition) (steps : List Step),
      condition.after steps = condition.left steps) ∧
    (∀ members : Value.Fields, ofValue (.object members)
      = .ok (members.foldl (fun condition m => condition.with m.1 m.2) always)) ∧
    (∀ items : List Value, ofValue (.array items) = .ok (items.foldl withKey always)) ∧
    (∀ s : String, ofValue (.string s) = .ok (always.withKey (.string s))) ∧
    ∀ n : Number, ofValue (.number n) = .ok (always.withKey (.number n)) := by
  refine ⟨fun all name expected entry key => ⟨?_, ?_⟩, fun additions entry key => ?_,
    fun _ _ _ _ _ h => passes_foldl_add_congr h, fun _ _ _ _ _ h => passes_foldl_add_mono h,
    after_eq_left, ofValue_object, ofValue_array, fun _ => rfl, fun _ => rfl⟩
  · have hone := passes_foldl_add all [.field name expected] entry key
    rwa [List.all_cons, List.all_nil, Bool.and_true] at hone
  · have hone := passes_foldl_add all [.key expected] entry key
    rwa [List.all_cons, List.all_nil, Bool.and_true] at hone
  · have hmany := passes_foldl_add [] additions entry key
    rwa [show (clauses []).passes entry key = true from rfl, Bool.true_and] at hmany

/-- Two clauses, turned around and with one of them repeated; and a test that the next clause
    takes away. -/
theorem building_conjoins_shoe :
    ∃ (additions others : List Addition) (shoe : Entry),
      (∀ addition, addition ∈ additions ↔ addition ∈ others) ∧ additions ⊆ others ∧
      (others.foldl add always).passes shoe (.string "shoe") = true ∧
      (additions.foldl add always).passes shoe (.string "shoe") = true ∧
      (others.foldl add always).passes shoe (.string "sock") = false ∧
      (additions.foldl add always).passes shoe (.string "sock") = false ∧
      always.after [.add (.field "size" .null), .test fun _ _ => false,
        .add (.field "7" (.string "shoe"))] = .clauses [⟨.key, .oneOf [.string "shoe"]⟩] := by
  let size : Addition := .field "size" (.number (.integer 42))
  let name : Addition := .key (.string "shoe")
  let shoe : Entry := .record [("size", .number (.integer 42))]
  have hsame : ∀ addition, addition ∈ [size, name] ↔ addition ∈ [name, size, name] := by
    intro addition
    simp only [List.mem_cons, List.not_mem_nil, or_false]
    exact ⟨fun h => .inr h, fun h => h.elim .inr id⟩
  have hsub : [size, name] ⊆ [name, size, name] := fun addition => (hsame addition).mp
  obtain ⟨_, _, hcongr, hmono, hafter, _⟩ := building_conjoins
  have hshoe : ([name, size, name].foldl add always).passes shoe (.string "shoe") = true := by rfl
  have hsock : ([name, size, name].foldl add always).passes shoe (.string "sock") = false := by
    rfl
  refine ⟨[size, name], [name, size, name], shoe, hsame, hsub, hshoe,
    hmono [] _ _ _ _ hsub hshoe, hsock, (hcongr [] _ _ _ _ hsame).trans hsock, ?_⟩
  exact hafter always _

end Picklist.Condition
