import Mathlib.Init
import Picklist.Json.Reading
import Picklist.Json.Text
import Picklist.Proofs.Members
import Picklist.Proofs.Reader

/-!
# Compact text is read back

What is written as compact JSON is read as the value that was written, and what follows is left
alone. Values that hold numbers are left out here.

* `stringBody_escaped`: any text, through its escapes;
* `collect_commaSeparated`: items between commas, up to the closing bracket;
* `Readable`: the values in question, by how deep they nest;
* `value_compactChars`, `read?_compact`: a value in front of anything, and a whole text.
-/

namespace Picklist.Json

open Reader

/-! ## 1. Strings -/

/-- A control character is written by the last two of its four digits. -/
theorem numeral?_control :
    ∀ n < 0x20, Text.numeral? 16 ['0', '0', Nat.digitChar (n / 16), Nat.digitChar (n % 16)]
      = some n := by
  decide

/-- **One character** is read as its code, however it is escaped. -/
theorem stringCodes_escaped (before : List Nat) (c : Char) (rest : List Char) :
    stringCodes before (escaped c ++ rest) = stringCodes (c.toNat :: before) rest := by
  unfold escaped
  split
  -- the seven characters that have an escape of two characters
  iterate 7 rfl
  rename_i hquote hbackslash _ _ _ _ _
  split
  · rename_i hcontrol
    have hunit := numeral?_control c.toNat hcontrol
    simp only [List.cons_append, List.nil_append, stringCodes, hunit, Option.bind_some]
  · rename_i hplain
    rw [List.singleton_append, stringCodes, if_neg hplain]
    · exact hquote
    · exact fun _ _ _ _ _ hc _ => hbackslash hc
    · exact fun _ _ hc _ => hbackslash hc

/-- **A text** is read as its codes, up to the quote behind it. -/
theorem stringCodes_flatMap_escaped (before : List Nat) (chars rest : List Char) :
    stringCodes before (chars.flatMap escaped ++ '"' :: rest)
      = some (before.reverse ++ chars.map Char.toNat, rest) := by
  induction chars generalizing before with
  | nil => rw [List.flatMap_nil, List.nil_append, stringCodes, List.map_nil, List.append_nil]
  | cons c chars ih =>
    rw [List.flatMap_cons, List.append_assoc, stringCodes_escaped, ih, List.reverse_cons,
      List.append_assoc, List.singleton_append, List.map_cons]

/-- A character is no half of a pair. -/
theorem not_half (c : Char) : isHighHalf c.toNat = false ∧ isLowHalf c.toNat = false := by
  have hvalid : c.toNat < 0xD800 ∨ (0xDFFF < c.toNat ∧ c.toNat < 0x110000) := c.valid
  simp only [isHighHalf, isLowHalf, Bool.and_eq_false_iff, decide_eq_false_iff_not]
  omega

theorem charsOfCodes?_map_toNat (chars : List Char) :
    charsOfCodes? (chars.map Char.toNat) = some chars := by
  induction chars with
  | nil => rfl
  | cons c chars ih =>
    obtain ⟨hhigh, hlow⟩ := not_half c
    cases chars with
    | nil => simp [charsOfCodes?, hhigh, hlow]
    | cons second rest =>
      rw [List.map_cons] at ih
      simp only [List.map_cons, charsOfCodes?, hhigh, hlow, ih, Bool.false_eq_true, if_false,
        Option.map_some, Char.ofNat_toNat]

/-- **A quoted text** is read back, after its opening quote. -/
theorem stringBody_escaped (text : String) (rest : List Char) :
    stringBody (text.toList.flatMap escaped ++ '"' :: rest) = some (text, rest) := by
  refine bind_eq_some_iff.mpr ⟨_, rest, stringCodes_flatMap_escaped [] text.toList rest, ?_⟩
  refine bind_eq_some_iff.mpr ⟨text.toList, rest, ?_, ?_⟩
  · rw [require, List.reverse_nil, List.nil_append, charsOfCodes?_map_toNat, Option.map_some]
  · exact pure_eq_some_iff.mpr ⟨String.ofList_toList.symm, rfl⟩

/-! ## 2. Items -/

/-- What may stand between the parts of a text. -/
def blankChars : List Char := [' ', '\n', '\t', '\r']

/-- Nothing is left out where no blank is next. -/
theorem blanks_cons {c : Char} (hc : c ∉ blankChars) (rest : List Char) :
    blanks (c :: rest) = some ((), c :: rest) := by
  refine bind_eq_some_iff.mpr ⟨[], c :: rest, takeWhile_eq_some_iff.mpr ⟨rfl, ?_, ?_⟩, rfl⟩
  · exact fun _ h => absurd h List.not_mem_nil
  · intro s hs
    cases hs
    simp only [blankChars, List.mem_cons, List.not_mem_nil, or_false, not_or] at hc
    simp [hc]

theorem another_comma (closing : Char) (rest : List Char) :
    another closing (',' :: rest) = some (true, rest) := by
  refine bind_eq_some_iff.mpr ⟨(), ',' :: rest, blanks_cons (by decide) rest, ?_⟩
  exact bind_eq_some_iff.mpr ⟨true, rest, rfl, rfl⟩

theorem another_closing {closing : Char} (hblank : closing ∉ blankChars) (hcomma : closing ≠ ',')
    (rest : List Char) : another closing (closing :: rest) = some (false, rest) := by
  refine bind_eq_some_iff.mpr ⟨(), closing :: rest, blanks_cons hblank rest, ?_⟩
  refine bind_eq_some_iff.mpr ⟨false, closing :: rest, accept_of_ne hcomma rest, ?_⟩
  exact bind_eq_some_iff.mpr ⟨(), rest, expect_eq_some_iff.mpr rfl, rfl⟩

section Items

variable {α γ : Type} {item : Reader Char (α × Bool)} {closing : Char} {written : γ → List Char}
  {meant : γ → α} {l : List γ}

/-- **Items between commas**, each of which is read together with the comma or the closing bracket
    behind it. -/
theorem collectWithin_commaSeparated (hblank : closing ∉ blankChars) (hcomma : closing ≠ ',')
    (hitem : ∀ c ∈ l, ∀ tail more rest, another closing tail = some (more, rest) →
      item (written c ++ tail) = some ((meant c, more), rest))
    (hne : l ≠ []) (bound : Nat) (hbound : l.length ≤ bound) (before : List α) (rest : List Char) :
    collectWithin item bound before (commaSeparated (l.map written) ++ closing :: rest)
      = some (before.reverse ++ l.map meant, rest) := by
  induction l generalizing bound before with
  | nil => exact absurd rfl hne
  | cons c more ih =>
    rw [List.forall_mem_cons] at hitem
    obtain ⟨hc, hmore⟩ := hitem
    rw [List.length_cons] at hbound
    obtain ⟨bound, rfl⟩ := Nat.exists_eq_add_one_of_ne_zero (show bound ≠ 0 by omega)
    unfold collectWithin
    cases more with
    | nil =>
      have hlast := hc _ _ _ (another_closing hblank hcomma rest)
      refine bind_eq_some_iff.mpr ⟨(meant c, false), rest, hlast, ?_⟩
      exact pure_eq_some_iff.mpr ⟨by simp, rfl⟩
    | cons second more =>
      have htext : commaSeparated ((c :: second :: more).map written) ++ closing :: rest
          = written c ++ ',' :: (commaSeparated ((second :: more).map written)
            ++ closing :: rest) := by
        simp only [List.map_cons, commaSeparated, List.append_assoc, List.cons_append]
      have hfirst := hc _ _ _ (another_comma closing
        (commaSeparated ((second :: more).map written) ++ closing :: rest))
      have hrest := ih hmore (List.cons_ne_nil second more) bound (by omega) (meant c :: before)
      rw [List.reverse_cons, List.append_assoc, List.singleton_append, ← List.map_cons] at hrest
      rw [htext]
      exact bind_eq_some_iff.mpr ⟨(meant c, true), _, hfirst, hrest⟩

/-- There are no more items than symbols and one. -/
theorem length_le_commaSeparated (texts : List (List Char)) :
    texts.length ≤ (commaSeparated texts).length + 1 := by
  induction texts with
  | nil => simp
  | cons one more ih =>
    cases more with
    | nil => simp
    | cons second more =>
      simp only [commaSeparated, List.length_append, List.length_cons] at ih ⊢
      omega

theorem collect_commaSeparated (hblank : closing ∉ blankChars) (hcomma : closing ≠ ',')
    (hitem : ∀ c ∈ l, ∀ tail more rest, another closing tail = some (more, rest) →
      item (written c ++ tail) = some ((meant c, more), rest))
    (hne : l ≠ []) (rest : List Char) :
    collect item (commaSeparated (l.map written) ++ closing :: rest)
      = some (l.map meant, rest) := by
  have hlength := length_le_commaSeparated (l.map written)
  rw [List.length_map] at hlength
  exact collectWithin_commaSeparated hblank hcomma hitem hne _
    (by rw [List.length_append]; omega) [] rest

end Items

/-- What starts the first text starts them all. -/
theorem exists_commaSeparated_cons (c : Char) (chars : List Char) (more : List (List Char)) :
    ∃ tail, commaSeparated ((c :: chars) :: more) = c :: tail := by
  cases more with
  | nil => exact ⟨chars, rfl⟩
  | cons second more => exact ⟨_, rfl⟩

/-! ## 3. Values -/

/-- The values without numbers that repeat no name and nest at most so deep. -/
inductive Readable : Nat → Value → Prop where
  | null {depth : Nat} : Readable depth .null
  | bool {depth : Nat} (b : Bool) : Readable depth (.bool b)
  | string {depth : Nat} (s : String) : Readable depth (.string s)
  | array {depth : Nat} {items : List Value} (hitems : ∀ v ∈ items, Readable depth v) :
    Readable (depth + 1) (.array items)
  | object {depth : Nat} {members : List (String × Value)}
    (hnames : (Members.names members).Nodup) (hmembers : ∀ m ∈ members, Readable depth m.2) :
    Readable (depth + 1) (.object members)

theorem compactItems_eq_map (items : List Value) : compactItems items = items.map compactChars := by
  induction items with
  | nil => rfl
  | cons v rest ih => rw [compactItems, ih, List.map_cons]

theorem compactMembers_eq_map (members : List (String × Value)) :
    compactMembers members = members.map fun m => quoted m.1 ++ ':' :: compactChars m.2 := by
  induction members with
  | nil => rfl
  | cons m rest ih => rw [compactMembers, ih, List.map_cons]

/-- The text of such a value starts neither with a blank nor with a closing bracket. -/
theorem Readable.exists_compactChars {depth : Nat} {v : Value} (h : Readable depth v) :
    ∃ c chars, compactChars v = c :: chars ∧ c ∉ ']' :: blankChars := by
  cases h with
  | null => exact ⟨'n', _, rfl, by decide⟩
  | bool b => cases b <;> exact ⟨_, _, rfl, by decide⟩
  | string s => exact ⟨'"', _, rfl, by decide⟩
  | array => exact ⟨'[', _, rfl, by decide⟩
  | object => exact ⟨'{', _, rfl, by decide⟩

section Containers

variable {reader : Reader Char Value}

/-- **An array**, after its opening bracket, if its items are read back. -/
theorem items_compactItems {l : List Value}
    (hread : ∀ v ∈ l, ∀ rest, reader (compactChars v ++ rest) = some (v, rest))
    (hstart : ∀ v ∈ l, ∃ c chars, compactChars v = c :: chars ∧ c ∉ ']' :: blankChars)
    (rest : List Char) :
    items reader (commaSeparated (compactItems l) ++ ']' :: rest) = some (l, rest) := by
  cases l with
  | nil =>
    refine bind_eq_some_iff.mpr ⟨(), ']' :: rest, blanks_cons (by decide) rest, ?_⟩
    exact bind_eq_some_iff.mpr ⟨true, rest, rfl, rfl⟩
  | cons v more =>
    have hitems : collect (do let v ← reader; return (v, ← another ']'))
        (commaSeparated ((v :: more).map compactChars) ++ ']' :: rest)
        = some ((v :: more).map id, rest) := by
      refine collect_commaSeparated (by decide) (by decide) (fun w hw tail more rest h => ?_)
        (List.cons_ne_nil v more) rest
      exact bind_eq_some_iff.mpr ⟨w, tail, hread w hw tail,
        bind_eq_some_iff.mpr ⟨more, rest, h, rfl⟩⟩
    rw [List.map_id, ← compactItems_eq_map] at hitems
    obtain ⟨c, chars, hv, hc⟩ := hstart v List.mem_cons_self
    rw [List.mem_cons, not_or] at hc
    obtain ⟨tail, htail⟩ := exists_commaSeparated_cons c chars (compactItems more)
    rw [compactItems, hv, htail, List.cons_append] at hitems ⊢
    refine bind_eq_some_iff.mpr ⟨(), _, blanks_cons hc.2 _, ?_⟩
    exact bind_eq_some_iff.mpr ⟨false, _, accept_of_ne hc.1 _, hitems⟩

/-- **An object**, after its opening brace, if what its members hold is read back. -/
theorem members_compactMembers {l : List (String × Value)}
    (hread : ∀ m ∈ l, ∀ rest, reader (compactChars m.2 ++ rest) = some (m.2, rest))
    (rest : List Char) :
    members reader (commaSeparated (compactMembers l) ++ '}' :: rest) = some (l, rest) := by
  cases l with
  | nil =>
    refine bind_eq_some_iff.mpr ⟨(), '}' :: rest, blanks_cons (by decide) rest, ?_⟩
    exact bind_eq_some_iff.mpr ⟨true, rest, rfl, rfl⟩
  | cons m more =>
    have hmembers : collect (do
          blanks
          expect '"'
          let name ← stringBody
          blanks
          expect ':'
          let v ← reader
          return ((name, v), ← another '}'))
        (commaSeparated ((m :: more).map fun m => quoted m.1 ++ ':' :: compactChars m.2)
          ++ '}' :: rest) = some ((m :: more).map id, rest) := by
      refine collect_commaSeparated (by decide) (by decide) (fun w hw tail more rest h => ?_)
        (List.cons_ne_nil m more) rest
      rw [quoted, List.cons_append, List.cons_append, List.cons_append, List.append_assoc,
        List.append_assoc, List.singleton_append, List.cons_append]
      refine bind_eq_some_iff.mpr ⟨(), _, blanks_cons (by decide) _, ?_⟩
      refine bind_eq_some_iff.mpr ⟨(), _, expect_eq_some_iff.mpr rfl, ?_⟩
      refine bind_eq_some_iff.mpr ⟨w.1, _, stringBody_escaped w.1 _, ?_⟩
      refine bind_eq_some_iff.mpr ⟨(), _, blanks_cons (by decide) _, ?_⟩
      refine bind_eq_some_iff.mpr ⟨(), _, expect_eq_some_iff.mpr rfl, ?_⟩
      refine bind_eq_some_iff.mpr ⟨w.2, tail, hread w hw tail, ?_⟩
      exact bind_eq_some_iff.mpr ⟨more, rest, h, rfl⟩
    rw [List.map_id, ← compactMembers_eq_map] at hmembers
    obtain ⟨tail, htail⟩ := exists_commaSeparated_cons '"'
      (m.1.toList.flatMap escaped ++ ['"'] ++ ':' :: compactChars m.2) (compactMembers more)
    rw [compactMembers, quoted, List.cons_append, List.cons_append, htail, List.cons_append]
      at hmembers ⊢
    refine bind_eq_some_iff.mpr ⟨(), _, blanks_cons (by decide) _, ?_⟩
    exact bind_eq_some_iff.mpr ⟨false, _, rfl, hmembers⟩

end Containers

/-- A scalar is read at any depth. -/
theorem value_of_scalar {depth : Nat} {c : Char} {chars rest : List Char} {v : Value}
    (hc : c ∉ '[' :: '{' :: blankChars) (hscalar : scalar (c :: chars) = some (v, rest)) :
    value depth (c :: chars) = some (v, rest) := by
  rw [List.mem_cons, List.mem_cons, not_or, not_or] at hc
  obtain ⟨hbracket, hbrace, hblank⟩ := hc
  cases depth with
  | zero => exact bind_eq_some_iff.mpr ⟨(), _, blanks_cons hblank chars, hscalar⟩
  | succ depth =>
    refine bind_eq_some_iff.mpr ⟨(), _, blanks_cons hblank chars, ?_⟩
    refine bind_eq_some_iff.mpr ⟨false, c :: chars, accept_of_ne hbracket chars, ?_⟩
    exact bind_eq_some_iff.mpr ⟨false, c :: chars, accept_of_ne hbrace chars, hscalar⟩

/-- **A value is read back in front of anything**, where it may open as many containers as it
    does. -/
theorem value_compactChars {depth : Nat} {v : Value} (h : Readable depth v) (rest : List Char) :
    value depth (compactChars v ++ rest) = some (v, rest) := by
  induction h generalizing rest with
  | null => exact value_of_scalar (by decide) rfl
  | bool b => cases b <;> exact value_of_scalar (by decide) rfl
  | string s =>
    rw [compactChars, quoted, List.cons_append, List.cons_append, List.append_assoc,
      List.singleton_append]
    refine value_of_scalar (by decide) ?_
    refine bind_eq_some_iff.mpr ⟨some '"', _, rfl, ?_⟩
    refine bind_eq_some_iff.mpr ⟨'"', _, rfl, ?_⟩
    exact bind_eq_some_iff.mpr ⟨s, rest, stringBody_escaped s rest, rfl⟩
  | @array depth l hitems ih =>
    have hread := items_compactItems ih (fun v hv => (hitems v hv).exists_compactChars) rest
    rw [compactChars, List.cons_append, List.cons_append, List.append_assoc, List.singleton_append]
    refine bind_eq_some_iff.mpr ⟨(), _, blanks_cons (by decide) _, ?_⟩
    refine bind_eq_some_iff.mpr ⟨true, _, rfl, ?_⟩
    exact bind_eq_some_iff.mpr ⟨l, rest, hread, rfl⟩
  | @object depth l hnames hmembers ih =>
    have hread := members_compactMembers ih rest
    rw [compactChars, List.cons_append, List.cons_append, List.append_assoc, List.singleton_append]
    refine bind_eq_some_iff.mpr ⟨(), _, blanks_cons (by decide) _, ?_⟩
    refine bind_eq_some_iff.mpr ⟨false, _, rfl, ?_⟩
    refine bind_eq_some_iff.mpr ⟨true, _, rfl, ?_⟩
    refine bind_eq_some_iff.mpr ⟨l, rest, hread, ?_⟩
    rw [Members.ofPairs_of_nodup hnames]
    rfl

/-- **A whole text** is the value that was written. -/
theorem read?_compact {v : Value} (h : Readable maxDepth v) : read? (compact v) = some v := by
  have hread : (do let v ← value maxDepth; blanks; return v : Reader Char Value) (compactChars v)
      = some (v, []) := by
    refine bind_eq_some_iff.mpr ⟨v, [], ?_, rfl⟩
    have hvalue := value_compactChars h []
    rwa [List.append_nil] at hvalue
  rw [read?, compact, String.toList_ofList, run?, hread]

end Picklist.Json
