import Mathlib.Logic.ExistsUnique
import Picklist.CommandLine
import Picklist.Proofs.Condition.Building
import Picklist.Proofs.Json.Compact

/-!
# Clauses on the command line

A clause is cut at its first equals sign. Before the sign stands a field, behind it what is expected
of the field: a JSON value, or the text itself where it is none. Clauses are added to the condition
one by one, and the first without an equals sign makes all of it fail.

* `Writes`: the field and the expected value that a clause writes;
* `clause?_eq_some_iff`: a clause is read as what it writes;
* `foldlM_addClause`: many clauses are added one by one, or fail with the first that writes nothing;
* `Command.condition_conjoins`: so the verdict of a command's condition is that of each clause.
-/

namespace Picklist.CommandLine

open Condition (always Addition add)

/-! ## 1. One clause -/

/-- What a clause writes: a field up to the first equals sign, and behind it the value that is
    expected of the field. Further equals signs belong to the value. -/
inductive Writes (text field : String) : Value → Prop where
  | json {raw : String} {expected : Value} (htext : text = field ++ "=" ++ raw)
      (hfield : '=' ∉ field.toList) (hjson : Json.read? raw = some expected) :
      Writes text field expected
  /-- What is no JSON stands for itself. -/
  | plain {raw : String} (htext : text = field ++ "=" ++ raw) (hfield : '=' ∉ field.toList)
      (hjson : Json.read? raw = none) : Writes text field (.string raw)

variable {text field raw : String} {expected : Value}

theorem writes_expectedOf (htext : text = field ++ "=" ++ raw) (hfield : '=' ∉ field.toList) :
    Writes text field (expectedOf raw) := by
  unfold expectedOf
  cases hjson : Json.read? raw with
  | none => exact .plain htext hfield hjson
  | some expected => exact .json htext hfield hjson

/-- A value without numbers may be expected as it is written compactly. -/
theorem writes_compact (htext : text = field ++ "=" ++ Json.compact expected)
    (hfield : '=' ∉ field.toList) (h : Json.Readable Json.maxDepth expected) :
    Writes text field expected :=
  .json htext hfield (Json.read?_compact h)

theorem clause?_of_eq_append (htext : text = field ++ "=" ++ raw) (hfield : '=' ∉ field.toList) :
    clause? text = some (field, expectedOf raw) := by
  have hchars : text.toList = field.toList ++ '=' :: raw.toList := by
    rw [htext, String.toList_append, String.toList_append, List.append_assoc]
    rfl
  rw [clause?, hchars, Text.splitFirst?_append_cons hfield, Option.map_some]
  simp only [String.ofList_toList]

/-- **How a clause is read.** -/
theorem clause?_eq_some_iff :
    clause? text = some (field, expected) ↔ Writes text field expected := by
  constructor
  · intro h
    obtain ⟨⟨before, after⟩, hsplit, hread⟩ := Option.map_eq_some_iff.mp h
    obtain ⟨hbefore, hchars⟩ := Text.splitFirst?_eq_some_iff.mp hsplit
    obtain ⟨rfl, rfl⟩ := Prod.mk.inj hread
    have htext : text = String.ofList before ++ "=" ++ String.ofList after := by
      rw [← String.toList_inj, hchars]
      simp
    exact writes_expectedOf htext (by rwa [String.toList_ofList])
  · intro h
    cases h with
    | json htext hfield hjson =>
      rw [clause?_of_eq_append htext hfield, expectedOf, hjson, Option.getD_some]
    | plain htext hfield hjson =>
      rw [clause?_of_eq_append htext hfield, expectedOf, hjson, Option.getD_none]

theorem clause?_eq_none_iff : clause? text = none ↔ '=' ∉ text.toList := by
  rw [clause?, Option.map_eq_none_iff]
  exact Text.splitFirst?_eq_none_iff

theorem Writes.unique {other : String} {value : Value} (h : Writes text field expected)
    (hother : Writes text other value) : (field, expected) = (other, value) :=
  Option.some.inj ((clause?_eq_some_iff.mpr h).symm.trans (clause?_eq_some_iff.mpr hother))

/-- A clause with an equals sign writes one field and one expected value. -/
theorem existsUnique_writes (h : '=' ∈ text.toList) :
    ∃! written : String × Value, Writes text written.1 written.2 := by
  cases hread : clause? text with
  | none => exact absurd h (clause?_eq_none_iff.mp hread)
  | some written =>
    have hwrites : Writes text written.1 written.2 := clause?_eq_some_iff.mp hread
    exact ⟨written, hwrites, fun other hother => hother.unique hwrites⟩

/-! ## 2. Many clauses -/

/-- Add what a clause writes; a clause that writes nothing is the failure. -/
def addClause (condition : Condition) (text : String) : Except String Condition :=
  (clause? text).elim (.error text) fun written => .ok (condition.with written.1 written.2)

/-- What clauses add, as far as they write anything. -/
def additions (clauses : List String) : List Addition :=
  clauses.filterMap fun text =>
    (clause? text).map fun written => .field written.1 written.2

theorem mem_additions_iff {clauses : List String} {addition : Addition} :
    addition ∈ additions clauses ↔
      ∃ text ∈ clauses, ∃ field expected, Writes text field expected ∧
        .field field expected = addition := by
  simp only [additions, List.mem_filterMap, Option.map_eq_some_iff, Prod.exists,
    clause?_eq_some_iff]

/-- The first clause without an equals sign. -/
def malformed? (clauses : List String) : Option String :=
  clauses.find? fun text => '=' ∉ text.toList

/-- **Clauses are added one by one, up to the first that writes nothing.** -/
theorem foldlM_addClause (start : Condition) (clauses : List String) :
    clauses.foldlM addClause start
      = (malformed? clauses).elim (.ok ((additions clauses).foldl add start)) .error := by
  induction clauses generalizing start with
  | nil => rfl
  | cons text rest ih =>
    rw [List.foldlM_cons, addClause]
    cases hread : clause? text with
    | none =>
      have hfirst : malformed? (text :: rest) = some text :=
        List.find?_cons_of_pos (decide_eq_true (clause?_eq_none_iff.mp hread))
      rw [hfirst]
      rfl
    | some written =>
      have hsign : ¬ '=' ∉ text.toList := by
        rw [← clause?_eq_none_iff, hread]
        exact Option.some_ne_none written
      have hlater : malformed? (text :: rest) = malformed? rest :=
        List.find?_cons_of_neg (by rwa [decide_eq_true_iff])
      have hadds : additions (text :: rest) = .field written.1 written.2 :: additions rest :=
        List.filterMap_cons_some (by rw [hread, Option.map_some])
      rw [hlater, hadds, List.foldl_cons]
      exact ih _

theorem condition_eq (clauses : List String) :
    condition clauses
      = (malformed? clauses).elim (.ok ((additions clauses).foldl add always)) .error := by
  rw [← foldlM_addClause]
  unfold condition
  congr 1
  funext condition text
  unfold addClause
  cases clause? text <;> rfl

/-- The verdict of what is added is that of each clause that writes anything. -/
theorem passes_additions_iff {clauses : List String} {entry : Entry} {key : Value} :
    ((additions clauses).foldl add always).passes entry key = true ↔
      ∀ text ∈ clauses, ∀ field expected, Writes text field expected →
        (always.with field expected).passes entry key = true := by
  have hall := Condition.passes_foldl_add [] (additions clauses) entry key
  rw [show (Condition.clauses []).passes entry key = true from rfl, Bool.true_and] at hall
  rw [always, hall, List.all_eq_true]
  constructor
  · intro h text hmem field expected hwrites
    exact h _ (mem_additions_iff.mpr ⟨text, hmem, field, expected, hwrites, rfl⟩)
  · intro h addition hmem
    obtain ⟨text, htext, field, expected, hwrites, rfl⟩ := mem_additions_iff.mp hmem
    exact h text htext field expected hwrites

theorem malformed?_eq_none_iff {clauses : List String} :
    malformed? clauses = none ↔ ∀ text ∈ clauses, '=' ∈ text.toList := by
  simp [malformed?]

theorem exists_malformed?_iff {clauses : List String} :
    (∃ text, malformed? clauses = some text) ↔ ∃ text ∈ clauses, '=' ∉ text.toList := by
  rw [← Option.ne_none_iff_exists', ne_eq, malformed?_eq_none_iff]
  simp only [not_forall, exists_prop]

/-! ## 3. The condition of a command -/

namespace Command

variable {command : Command}

theorem condition_eq_error_iff {failure : Failure} :
    command.condition = .error failure ↔
      ∃ text, malformed? command.clauses = some text ∧ failure = .clause text := by
  rw [Command.condition, condition_eq]
  cases malformed? command.clauses with
  | none => simp [Except.mapError]
  | some text => simp [Except.mapError, eq_comm]

theorem condition_eq_ok_iff {condition : Condition} :
    command.condition = .ok condition ↔
      malformed? command.clauses = none ∧
        condition = (additions command.clauses).foldl add always := by
  rw [Command.condition, condition_eq]
  cases malformed? command.clauses with
  | none => simp [Except.mapError, eq_comm]
  | some text => simp [Except.mapError]

/-- **The clauses of a command are a conjunction.** The condition of a command fails exactly where
    some clause has no equals sign, and the failure names the first that has none. A clause with an
    equals sign writes one field and one expected value. The condition of such clauses passes
    exactly where each clause passes by itself, also where several are on one field; so commands
    with the same clauses, in whatever order and however often, have the same verdict. -/
theorem condition_conjoins (command : Command) :
    ((∃ failure, command.condition = .error failure) ↔
      ∃ text ∈ command.clauses, '=' ∉ text.toList) ∧
    (∀ failure, command.condition = .error failure ↔
      ∃ text, malformed? command.clauses = some text ∧ failure = .clause text ∧
        failure.message = "condition '" ++ text ++ "' must look like FIELD=JSON") ∧
    (∀ text, '=' ∈ text.toList →
      ∃! written : String × Value, Writes text written.1 written.2) ∧
    ((∀ text ∈ command.clauses, '=' ∈ text.toList) →
      ∃ condition, command.condition = .ok condition ∧ ∀ entry key,
        condition.passes entry key = true ↔
          ∀ text ∈ command.clauses, ∀ field expected, Writes text field expected →
            (always.with field expected).passes entry key = true) ∧
    ∀ (other : Command) (condition : Condition),
      (∀ text, text ∈ command.clauses ↔ text ∈ other.clauses) →
      command.condition = .ok condition →
        ∃ same, other.condition = .ok same ∧
          ∀ entry key, same.passes entry key = condition.passes entry key := by
  refine ⟨?_, fun failure => ?_, fun text => existsUnique_writes, fun hsigns => ?_,
    fun other condition hclauses hcondition => ?_⟩
  · rw [← exists_malformed?_iff]
    refine ⟨fun h => ?_, fun h => ?_⟩
    · obtain ⟨failure, hfailure⟩ := h
      obtain ⟨text, hfirst, _⟩ := condition_eq_error_iff.mp hfailure
      exact ⟨text, hfirst⟩
    · obtain ⟨text, hfirst⟩ := h
      exact ⟨_, condition_eq_error_iff.mpr ⟨text, hfirst, rfl⟩⟩
  · refine condition_eq_error_iff.trans (exists_congr fun text => and_congr_right fun _ => ?_)
    refine ⟨fun h => ⟨h, ?_⟩, And.left⟩
    subst h
    rfl
  · exact ⟨_, condition_eq_ok_iff.mpr ⟨malformed?_eq_none_iff.mpr hsigns, rfl⟩,
      fun entry key => passes_additions_iff⟩
  · obtain ⟨hnone, rfl⟩ := condition_eq_ok_iff.mp hcondition
    rw [malformed?_eq_none_iff] at hnone
    have hother : malformed? other.clauses = none :=
      malformed?_eq_none_iff.mpr fun text hmem => hnone text ((hclauses text).mpr hmem)
    refine ⟨_, condition_eq_ok_iff.mpr ⟨hother, rfl⟩, fun entry key => ?_⟩
    rw [Bool.eq_iff_iff, passes_additions_iff, passes_additions_iff]
    exact forall_congr' fun text => imp_congr_left (hclauses text).symm

/-- A text and a list are expected of one field, and a text with an equals sign of the key; then the
    same the other way round. Of two clauses without an equals sign the first is named. -/
theorem condition_conjoins_fruit :
    ∃ condition same failure,
      Command.condition ⟨"shop", ["kind=fruit", "0=[\"a=b\"]", "kind=[\"fruit\",\"tree\"]"],
        .keys .all⟩ = .ok condition ∧
      condition.passes (.record [("kind", .string "fruit")]) (.string "a=b") = true ∧
      condition.passes (.record [("kind", .string "tree")]) (.string "a=b") = false ∧
      condition.passes (.record [("kind", .string "fruit")]) (.string "a") = false ∧
      Command.condition ⟨"shop", ["kind=[\"fruit\",\"tree\"]", "0=[\"a=b\"]", "kind=fruit"],
        .keys .all⟩ = .ok same ∧
      same.passes (.record [("kind", .string "fruit")]) (.string "a=b") = true ∧
      Command.condition ⟨"shop", ["kind=fruit", "sold", "new"], .keys .all⟩ = .error failure ∧
      failure.message = "condition 'sold' must look like FIELD=JSON" := by
  have hfruit : Writes "kind=fruit" "kind" (.string "fruit") :=
    .plain rfl (by decide) (Option.isNone_iff_eq_none.mp (by decide +kernel))
  have hkey : Writes "0=[\"a=b\"]" "0" (.array [.string "a=b"]) :=
    writes_compact rfl (by decide) (.array (by simp [Json.Readable.string]))
  have hkinds : Writes "kind=[\"fruit\",\"tree\"]" "kind"
      (.array [.string "fruit", .string "tree"]) :=
    writes_compact rfl (by decide) (.array (by simp [Json.Readable.string]))
  obtain ⟨_, _, _, hconjoins, hsame⟩ := condition_conjoins
    ⟨"shop", ["kind=fruit", "0=[\"a=b\"]", "kind=[\"fruit\",\"tree\"]"], .keys .all⟩
  obtain ⟨_, herror, _⟩ := condition_conjoins ⟨"shop", ["kind=fruit", "sold", "new"], .keys .all⟩
  obtain ⟨condition, hcondition, hverdict⟩ := hconjoins (by decide)
  obtain ⟨same, hreordered, hverdicts⟩ := hsame
    ⟨"shop", ["kind=[\"fruit\",\"tree\"]", "0=[\"a=b\"]", "kind=fruit"], .keys .all⟩
    condition (fun _ => List.mem_reverse.symm) hcondition
  have hpasses : condition.passes (.record [("kind", .string "fruit")]) (.string "a=b") = true := by
    refine (hverdict _ _).mpr ?_
    simp only [List.forall_mem_cons]
    refine ⟨fun field expected h => ?_, fun field expected h => ?_, fun field expected h => ?_,
      fun _ h => absurd h List.not_mem_nil⟩
    · cases h.unique hfruit
      rfl
    · cases h.unique hkey
      rfl
    · cases h.unique hkinds
      rfl
  refine ⟨condition, same, .clause "sold", hcondition, hpasses, ?_, ?_, hreordered,
    (hverdicts _ _).trans hpasses, (herror _).mpr ⟨"sold", rfl, rfl, rfl⟩, rfl⟩
  · refine Bool.eq_false_iff.mpr fun h => ?_
    cases (hverdict _ _).mp h _ List.mem_cons_self _ _ hfruit
  · refine Bool.eq_false_iff.mpr fun h => ?_
    cases (hverdict _ _).mp h _ (List.mem_cons_of_mem _ List.mem_cons_self) _ _ hkey

end Command

end Picklist.CommandLine
