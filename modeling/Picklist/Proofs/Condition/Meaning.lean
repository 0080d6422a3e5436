import Mathlib.Init
import Picklist.Condition

/-!
# What a condition document means

A document writes clauses, and each clause expects a value of what it looks at. Both are said here
without the program's clauses: what a document asks of an entry and its key, and when what is there
meets what is expected.

* `Value.Falsy`, `Value.Void`: what fails where `true` is expected, and what is as good as nothing
  where `false` is;
* `Value.Lists`: what a value holds as a list;
* `Value.Shares`: a value that has an element or a member name in common with an expected one;
* `Value.Meets`: the four kinds of expectation;
* `Value.Asks`: the clauses that a document writes;
* `Condition.ofValue_passes_iff`: a bare truth value is refused, and any other document lets an
  entry pass exactly where everything that it asks is met.

An element is in a list up to `Value.same`, that is by kind and value.
-/

namespace Picklist

namespace Value

/-! ## 1. Loose readings of one value -/

/-- False in the loose sense. -/
inductive Falsy : Value → Prop where
  | null : Falsy .null
  | no : Falsy (.bool false)
  /-- Zero, whole or real, of either sign. -/
  | zero {n : Number} (h : n.isZero = true) : Falsy (.number n)
  | emptyText : Falsy (.string "")
  | zeroText : Falsy (.string "0")
  | emptyArray : Falsy (.array [])
  | emptyObject : Falsy (.object [])

/-- As good as nothing where `false` is expected. Zero and the empty text are something. -/
inductive Void : Value → Prop where
  | null : Void .null
  | no : Void (.bool false)
  | emptyArray : Void (.array [])
  | emptyObject : Void (.object [])

/-- What a value holds as a list. -/
inductive Lists : Value → Value → Prop where
  | item {items : List Value} {v : Value} (hmem : v ∈ items) : Lists (.array items) v
  | member {members : Fields} {name : String} {v : Value} (hmem : (name, v) ∈ members) :
    Lists (.object members) v
  /-- A truth value alone. -/
  | bool {b : Bool} : Lists (.bool b) (.bool b)
  /-- A number alone. -/
  | number {n : Number} : Lists (.number n) (.number n)
  /-- A text alone. -/
  | text {s : String} : Lists (.string s) (.string s)

theorem isTruthy_eq_false_iff {v : Value} : v.isTruthy = false ↔ v.Falsy := by
  constructor
  · intro h
    cases v with
    | null => exact .null
    | bool b =>
      have hb : b = false := h
      subst hb
      exact .no
    | number n =>
      have hzero : n.isZero = true := by simpa [isTruthy] using h
      exact .zero hzero
    | string s =>
      have hs : s = "" ∨ s = "0" := by
        by_cases hempty : s = ""
        · exact .inl hempty
        · exact .inr (by simpa [isTruthy, hempty] using h)
      rcases hs with rfl | rfl
      · exact .emptyText
      · exact .zeroText
    | array items =>
      have hitems : items = [] := by simpa [isTruthy] using h
      subst hitems
      exact .emptyArray
    | object members =>
      have hmembers : members = [] := by simpa [isTruthy] using h
      subst hmembers
      exact .emptyObject
  · intro h
    cases h with
    | zero hzero => simp [isTruthy, hzero]
    | _ => rfl

theorem isTruthy_iff {v : Value} : v.isTruthy = true ↔ ¬ v.Falsy := by
  rw [← isTruthy_eq_false_iff, Bool.not_eq_false]

theorem isEmptyOrFalse_iff {v : Value} : v.isEmptyOrFalse = true ↔ v.Void := by
  constructor
  · intro h
    cases v with
    | null => exact .null
    | bool b =>
      have hb : b = false := by simpa [isEmptyOrFalse] using h
      subst hb
      exact .no
    | number n => cases h
    | string s => cases h
    | array items =>
      have hitems : items = [] := List.isEmpty_iff.mp h
      subst hitems
      exact .emptyArray
    | object members =>
      have hmembers : members = [] := List.isEmpty_iff.mp h
      subst hmembers
      exact .emptyObject
  · intro h
    cases h <;> rfl

theorem mem_elements_iff {v a : Value} : a ∈ v.elements ↔ v.Lists a := by
  constructor
  · intro h
    cases v with
    | null => cases h
    | bool b => rw [List.mem_singleton.mp h]; exact .bool
    | number n => rw [List.mem_singleton.mp h]; exact .number
    | string s => rw [List.mem_singleton.mp h]; exact .text
    | array items => exact .item h
    | object members =>
      obtain ⟨⟨name, v⟩, hmem, rfl⟩ := List.mem_map.mp h
      exact .member hmem
  · intro h
    cases h with
    | item hmem => exact hmem
    | member hmem => exact List.mem_map_of_mem hmem
    | bool | number | text => exact List.mem_singleton.mpr rfl

/-! ## 2. Two values with something in common -/

/-- Whether a value is among those that another holds as a list. -/
def IsListedBy (v expected : Value) : Prop := ∃ a, expected.Lists a ∧ v.same a = true

/-- Whether a value has something in common with an expected one. -/
inductive Shares (expected : Value) : Value → Prop where
  /-- An element of both. -/
  | element {current v : Value} (hlists : current.Lists v) (hlisted : v.IsListedBy expected) :
    Shares expected current
  /-- The name of a member. -/
  | name {members : Fields} {name : String} {v : Value} (hmem : (name, v) ∈ members)
      (hlisted : (string name).IsListedBy expected) : Shares expected (.object members)
  /-- The number that the name of a member spells. -/
  | spelled {members : Fields} {name : String} {v : Value} (hmem : (name, v) ∈ members)
      (hlisted : (ChoiceValue.ofKey name).toValue.IsListedBy expected) :
    Shares expected (.object members)

theorem contains_elements_iff {v expected : Value} :
    expected.elements.contains v = true ↔ v.IsListedBy expected := by
  rw [List.contains_iff_exists_mem_beq]
  constructor
  · intro h
    obtain ⟨a, hmem, hsame⟩ := h
    exact ⟨a, mem_elements_iff.mp hmem, hsame⟩
  · intro h
    obtain ⟨a, hlists, hsame⟩ := h
    exact ⟨a, mem_elements_iff.mpr hlists, hsame⟩

theorem intersects_iff {current expected : Value} :
    current.intersects expected.elements = true ↔ expected.Shares current := by
  have helements : current.elements.any (expected.elements.contains ·) = true ↔
      ∃ v, current.Lists v ∧ v.IsListedBy expected := by
    simp only [List.any_eq_true, mem_elements_iff, contains_elements_iff]
  unfold intersects
  rw [Bool.or_eq_true, helements]
  constructor
  · intro h
    rcases h with ⟨v, hlists, hlisted⟩ | hnames
    · exact .element hlists hlisted
    · cases current with
      | object members =>
        obtain ⟨⟨name, v⟩, hmem, hname⟩ := List.any_eq_true.mp hnames
        rw [Bool.or_eq_true, contains_elements_iff, contains_elements_iff] at hname
        rcases hname with htext | hnumber
        · exact .name hmem htext
        · exact .spelled hmem hnumber
      | _ => cases hnames
  · intro h
    cases h with
    | element hlists hlisted => exact .inl ⟨_, hlists, hlisted⟩
    | name hmem hlisted =>
      refine .inr (List.any_eq_true.mpr ⟨_, hmem, ?_⟩)
      rw [Bool.or_eq_true, contains_elements_iff]
      exact .inl hlisted
    | spelled hmem hlisted =>
      refine .inr (List.any_eq_true.mpr ⟨_, hmem, ?_⟩)
      rw [Bool.or_eq_true, contains_elements_iff, contains_elements_iff]
      exact .inr hlisted

/-! ## 3. Expectations -/

/-- Whether what is there, if anything, meets an expected value. -/
inductive Meets : Option Value → Value → Prop where
  | truthy {v : Value} (h : ¬ v.Falsy) : Meets (some v) (.bool true)
  | absent : Meets none (.bool false)
  | void {v : Value} (h : v.Void) : Meets (some v) (.bool false)
  | unset : Meets none .null
  /-- Any other expected value is a list. -/
  | shared {v expected : Value} (hbool : ∀ b, expected ≠ .bool b) (hnull : expected ≠ .null)
      (h : expected.Shares v) : Meets (some v) expected

theorem admits_truthy_iff {current : Option Value} :
    Expected.truthy.admits current = true ↔ Meets current (.bool true) := by
  constructor
  · intro h
    cases current with
    | none => cases h
    | some v => exact .truthy (isTruthy_iff.mp h)
  · intro h
    cases h with
    | truthy hv => exact isTruthy_iff.mpr hv
    | shared hbool => exact absurd rfl (hbool true)

theorem admits_falsy_iff {current : Option Value} :
    Expected.falsy.admits current = true ↔ Meets current (.bool false) := by
  constructor
  · intro h
    cases current with
    | none => exact .absent
    | some v => exact .void (isEmptyOrFalse_iff.mp h)
  · intro h
    cases h with
    | absent => rfl
    | void hv => exact isEmptyOrFalse_iff.mpr hv
    | shared hbool => exact absurd rfl (hbool false)

theorem admits_unset_iff {current : Option Value} :
    Expected.unset.admits current = true ↔ Meets current .null := by
  constructor
  · intro h
    cases current with
    | none => exact .unset
    | some v => cases h
  · intro h
    cases h with
    | unset => rfl
    | shared _ hnull => exact absurd rfl hnull

theorem admits_oneOf_iff {current : Option Value} {expected : Value}
    (hbool : ∀ b, expected ≠ .bool b) (hnull : expected ≠ .null) :
    (Expected.oneOf expected.elements).admits current = true ↔ Meets current expected := by
  constructor
  · intro h
    cases current with
    | none => cases h
    | some v => exact .shared hbool hnull (intersects_iff.mp h)
  · intro h
    cases h with
    | truthy => exact absurd rfl (hbool true)
    | absent | void => exact absurd rfl (hbool false)
    | unset => exact absurd rfl hnull
    | shared _ _ hshares => exact intersects_iff.mpr hshares

/-- **The program's test is the meaning of the expected value.** -/
theorem admits_ofValue_iff {current : Option Value} {expected : Value} :
    (Expected.ofValue expected).admits current = true ↔ Meets current expected := by
  cases expected with
  | null => exact admits_unset_iff
  | bool b =>
    cases b with
    | true => exact admits_truthy_iff
    | false => exact admits_falsy_iff
  | number n => exact admits_oneOf_iff (by simp) (by simp)
  | string s => exact admits_oneOf_iff (by simp) (by simp)
  | array items => exact admits_oneOf_iff (by simp) (by simp)
  | object members => exact admits_oneOf_iff (by simp) (by simp)

/-! ## 4. Documents -/

/-- A name that stands for the key: digits, at least one. -/
def IsPosition (name : String) : Prop := name ≠ "" ∧ ∀ c ∈ name.toList, '0' ≤ c ∧ c ≤ '9'

/-- The clauses of a document, for an entry and its key: what a clause looks at, and the value that
    it expects. `null` has none. -/
inductive Asks (entry : Entry) (key : Value) : Value → Option Value → Value → Prop where
  | text {s : String} : Asks entry key (.string s) (some key) (.string s)
  | number {n : Number} : Asks entry key (.number n) (some key) (.number n)
  | item {items : List Value} {expected : Value} (hmem : expected ∈ items) :
    Asks entry key (.array items) (some key) expected
  | position {members : Fields} {name : String} {expected : Value}
      (hmem : (name, expected) ∈ members) (hname : IsPosition name) :
    Asks entry key (.object members) (some key) expected
  | field {members : Fields} {name : String} {expected : Value}
      (hmem : (name, expected) ∈ members) (hname : ¬ IsPosition name) :
    Asks entry key (.object members) (entry.present? name) expected

variable {entry : Entry} {key : Value}

theorem ofName_of_isPosition {name : String} (h : IsPosition name) :
    Subject.ofName name = .key := by
  refine if_pos ⟨h.1, List.all_eq_true.mpr fun c hc => ?_⟩
  have hdigit : '0' ≤ c ∧ c ≤ '9' := h.2 c hc
  simpa [Char.isDigit, Char.le_def] using hdigit

theorem ofName_of_not_isPosition {name : String} (h : ¬ IsPosition name) :
    Subject.ofName name = .path name := by
  refine if_neg fun hdigits => h ⟨hdigits.1, fun c hc => ?_⟩
  have hdigit : c.isDigit = true := List.all_eq_true.mp hdigits.2 c hc
  simpa [Char.isDigit, Char.le_def] using hdigit

/-- The clauses of an object hold where everything that it asks is met. -/
theorem all_members_iff {members : Fields} :
    (members.map fun m => (⟨.ofName m.1, .ofValue m.2⟩ : Clause)).all (·.holds entry key) = true ↔
      ∀ current expected, Asks entry key (.object members) current expected →
        Meets current expected := by
  rw [List.all_map, List.all_eq_true]
  constructor
  · intro h current expected hasks
    cases hasks with
    | position hmem hname =>
      have hholds := h _ hmem
      rw [Function.comp_apply, ofName_of_isPosition hname] at hholds
      exact admits_ofValue_iff.mp hholds
    | field hmem hname =>
      have hholds := h _ hmem
      rw [Function.comp_apply, ofName_of_not_isPosition hname] at hholds
      exact admits_ofValue_iff.mp hholds
  · intro h m hmem
    rw [Function.comp_apply]
    refine admits_ofValue_iff.mpr ?_
    by_cases hname : IsPosition m.1
    · rw [ofName_of_isPosition hname]
      exact h _ _ (.position hmem hname)
    · rw [ofName_of_not_isPosition hname]
      exact h _ _ (.field hmem hname)

/-- The clauses of an array hold where each item is met by the key. -/
theorem all_items_iff {items : List Value} :
    (items.map fun expected => (⟨.key, .ofValue expected⟩ : Clause)).all (·.holds entry key)
        = true ↔
      ∀ current expected, Asks entry key (.array items) current expected →
        Meets current expected := by
  rw [List.all_map, List.all_eq_true]
  constructor
  · intro h current expected hasks
    cases hasks with
    | item hmem => exact admits_ofValue_iff.mp (h _ hmem)
  · intro h expected hmem
    exact admits_ofValue_iff.mpr (h _ _ (.item hmem))

/-- A single clause on the key holds where the key meets the expected value. -/
theorem all_single_iff {expected : Value} :
    [(⟨.key, .ofValue expected⟩ : Clause)].all (·.holds entry key) = true ↔
      Meets (some key) expected := by
  rw [List.all_cons, List.all_nil, Bool.and_true]
  exact admits_ofValue_iff

end Value

namespace Condition

open Value

theorem ofValue_eq_error_iff {document : Value} {e : SelectionError} :
    ofValue document = .error e ↔ e = .invalidCondition ∧ ∃ b, document = .bool b := by
  cases document with
  | bool b => simp [ofValue, eq_comm]
  | _ => simp [ofValue]

/-- The condition that a document writes passes where all that the document asks is met. -/
theorem passes_of_ofValue {document : Value} {condition : Condition}
    (h : ofValue document = .ok condition) (entry : Entry) (key : Value) :
    condition.passes entry key = true ↔
      ∀ current expected, Asks entry key document current expected → Meets current expected := by
  cases document with
  | null =>
    cases h
    constructor
    · intro _ current expected hasks
      cases hasks
    · intro _
      rfl
  | bool b => cases h
  | number n =>
    cases h
    refine all_single_iff.trans ?_
    constructor
    · intro hmeets current expected hasks
      cases hasks
      exact hmeets
    · intro hall
      exact hall _ _ .number
  | string s =>
    cases h
    refine all_single_iff.trans ?_
    constructor
    · intro hmeets current expected hasks
      cases hasks
      exact hmeets
    · intro hall
      exact hall _ _ .text
  | array items =>
    cases h
    exact all_items_iff
  | object members =>
    cases h
    exact all_members_iff

/-- **A condition document means what it asks.** It is refused, with the one error there is, exactly
    where it is a bare truth value. Any other document writes a condition that lets an entry pass
    exactly where everything that the document asks of the entry and its key is met; where it
    expects `null` of the key, no entry passes. -/
theorem ofValue_passes_iff (document : Value) (entry : Entry) (key : Value) :
    (∀ e, ofValue document = .error e ↔ e = .invalidCondition ∧ ∃ b, document = .bool b) ∧
      ((¬ ∃ b, document = .bool b) → ∃ condition, ofValue document = .ok condition ∧
        (condition.passes entry key = true ↔
          ∀ current expected, Asks entry key document current expected →
            Meets current expected) ∧
        (Asks entry key document (some key) .null → condition.passes entry key = false)) := by
  refine ⟨fun e => ofValue_eq_error_iff, fun hbool => ?_⟩
  cases hcondition : ofValue document with
  | error e => exact absurd (ofValue_eq_error_iff.mp hcondition).2 hbool
  | ok condition =>
    have hpasses := passes_of_ofValue hcondition entry key
    refine ⟨condition, rfl, hpasses, fun hasks => ?_⟩
    rw [Bool.eq_false_iff]
    intro h
    have hmeets : Meets (some key) .null := hpasses.mp h _ _ hasks
    cases hmeets with
    | shared _ hnull => exact hnull rfl

/-- A member name in common, read as the number that it spells, is enough. -/
theorem ofValue_passes_spelled_name :
    (¬ ∃ b, Value.object [("sizes", .array [.number (.integer 7)])] = .bool b) ∧
      ∃ condition, ofValue (.object [("sizes", .array [.number (.integer 7)])]) = .ok condition ∧
        condition.passes (.record [("sizes", .object [("7", .null)])]) (.string "shoe") = true ∧
        ∀ current expected,
          Asks (.record [("sizes", .object [("7", .null)])]) (.string "shoe")
              (.object [("sizes", .array [.number (.integer 7)])]) current expected →
            Meets current expected := by
  have hbool : ¬ ∃ b, Value.object [("sizes", .array [.number (.integer 7)])] = .bool b := by simp
  obtain ⟨condition, hcondition, hpasses, _⟩ :=
    (ofValue_passes_iff (.object [("sizes", .array [.number (.integer 7)])])
      (.record [("sizes", .object [("7", .null)])]) (.string "shoe")).2 hbool
  have htrue : condition.passes (.record [("sizes", .object [("7", .null)])]) (.string "shoe")
      = true := by
    cases hcondition
    decide
  exact ⟨hbool, condition, hcondition, htrue, hpasses.mp htrue⟩

end Condition

end Picklist
