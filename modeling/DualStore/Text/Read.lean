/-! The result of reading from the front of a list: a value, and a rest that is shorter than the
list. Readers that loop recurse on the rest. -/

namespace DualStore

variable {α β τ : Type}

/-- What is left of a list, or all of it. -/
abbrev Rest {τ : Type} (input : List τ) := { rest : List τ // rest.length ≤ input.length }

namespace Rest

def all (l : List τ) : Rest l := ⟨l, Nat.le_refl _⟩

/-- All but the first `n` elements. -/
def drop (n : Nat) (l : List τ) : Rest l := ⟨l.drop n, by rw [List.length_drop]; omega⟩

/-- All but the first element. -/
def tail (a : τ) (l : List τ) : Rest (a :: l) := ⟨l, Nat.le_succ _⟩

end Rest

/-- A value read from the front of `input`, and what is left of it. -/
structure Read (α : Type) {τ : Type} (input : List τ) where
  value : α
  rest : List τ
  shorter : rest.length < input.length

namespace Read

/-- A reading that does shorten its input. -/
def of? (input : List τ) (value : α) (rest : List τ) : Option (Read α input) :=
  if h : rest.length < input.length then some ⟨value, rest, h⟩ else none

def map (f : α → β) {input : List τ} (r : Read α input) : Read β input :=
  ⟨f r.value, r.rest, r.shorter⟩

/-- The same result, seen from a longer input. -/
def widen {input longer : List τ} (r : Read α input) (h : input.length ≤ longer.length) :
    Read α longer :=
  ⟨r.value, r.rest, Nat.lt_of_lt_of_le r.shorter h⟩

/-- A second result, read from what the first one left. -/
def andThen {input : List τ} (r : Read α input) (s : Read β r.rest) : Read β input :=
  s.widen (Nat.le_of_lt r.shorter)

/-- The first element. -/
def head (a : τ) (l : List τ) : Read τ (a :: l) := ⟨a, l, Nat.lt_succ_self _⟩

/-- A value for the first element and some of those after it. -/
def past (value : α) (a : τ) {l : List τ} (rest : Rest l) : Read α (a :: l) :=
  ⟨value, rest.1, Nat.lt_succ_of_le rest.2⟩

/-- The same result, seen with one more element in front. -/
def behind (a : τ) {input : List τ} (r : Read α input) : Read α (a :: input) :=
  r.widen (Nat.le_succ _)

/-- The rest alone. -/
def toRest {input : List τ} (r : Read α input) : Rest input := ⟨r.rest, Nat.le_of_lt r.shorter⟩

end Read

theorem length_dropWhile_le (p : τ → Bool) (l : List τ) : (l.dropWhile p).length ≤ l.length :=
  (List.dropWhile_sublist p).length_le

/-- A nonempty run of elements that satisfy `p`. -/
def readRun (p : τ → Bool) : (l : List τ) → Option (Read (List τ) l)
  | [] => none
  | a :: l => if p a then
      some ⟨a :: l.takeWhile p, l.dropWhile p, Nat.lt_succ_of_le (length_dropWhile_le p l)⟩
    else none

end DualStore
