/-!
# Readers

A reader takes a piece off the front of a list of symbols and gives what it stands for, or refuses
the list. The symbols are the characters of a text or the tokens of a document.

* `takeWhile`, `expect`, `accept`: single steps.
* `collect`: one item after the other, as long as each says that another follows.
* `run?`: the whole list and nothing less.
-/

namespace Picklist

/-- A reader over symbols `σ` that gives an `α`. -/
abbrev Reader (σ α : Type) := StateT (List σ) Option α

namespace Reader

variable {σ α : Type}

/-- Refuses every list. -/
def refuse : Reader σ α := fun _ => none

/-- The next symbol, which stays where it is. -/
def peek : Reader σ (Option σ) := fun input => some (input.head?, input)

/-- Takes the next symbol. -/
def next : Reader σ σ
  | [] => none
  | symbol :: rest => some (symbol, rest)

/-- Takes the longest front whose symbols all pass the test. -/
def takeWhile (test : σ → Bool) : Reader σ (List σ) := fun input => some (input.span test)

/-- Takes symbols that must all pass the test, at least one. -/
def takeSome (test : σ → Bool) : Reader σ (List σ) := do
  let front ← takeWhile test
  if front.isEmpty then refuse else return front

/-- Takes the symbol if it is next, and says whether it was. -/
def accept [BEq σ] (symbol : σ) : Reader σ Bool
  | [] => some (false, [])
  | first :: rest => if first == symbol then some (true, rest) else some (false, first :: rest)

/-- Takes the symbol, which must be next. -/
def expect [BEq σ] (symbol : σ) : Reader σ Unit := do
  unless ← accept symbol do refuse

/-- Takes the symbols of a word, which must be next. -/
def expectAll [BEq σ] : List σ → Reader σ Unit
  | [] => pure ()
  | symbol :: rest => do expect symbol; expectAll rest

/-- Tries a reader; where it refuses, nothing is taken. -/
def attempt (reader : Reader σ α) : Reader σ (Option α) := fun input =>
  match reader input with
  | some (a, rest) => some (some a, rest)
  | none => some (none, input)

/-- A value that may be missing; a missing one is refused. -/
def require (value : Option α) : Reader σ α := fun input => value.map (·, input)

/-- `collect` with a bound on the number of items, and the items so far, last first. -/
def collectWithin (item : Reader σ (α × Bool)) : Nat → List α → Reader σ (List α)
  | 0, _ => refuse
  | bound + 1, before => do
    let (a, more) ← item
    if more then collectWithin item bound (a :: before) else return (a :: before).reverse

/-- Reads items one after the other; each says whether another follows. Items that take a symbol
    are at most as many as there are symbols. -/
def collect (item : Reader σ (α × Bool)) : Reader σ (List α) := fun input =>
  collectWithin item (input.length + 1) [] input

/-- What a reader gives for a list that it takes whole. -/
def run? (reader : Reader σ α) (input : List σ) : Option α :=
  match reader input with
  | some (a, []) => some a
  | _ => none

end Reader

end Picklist
