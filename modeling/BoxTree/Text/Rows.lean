namespace BoxTree.Text

/-!
# Rows of a text

* `splitOn` — the pieces between separators; a text without one is a single piece.
* `splitRows`, `rows` — the rows between line feeds, as characters and as strings.
* `dropReturn` — a row without the carriage return at its end.
-/

/-- The pieces between separators. There is always at least one. -/
def splitOn (separator : Char) : List Char → List (List Char)
  | [] => [[]]
  | c :: cs =>
    if c = separator then [] :: splitOn separator cs
    else match splitOn separator cs with
      | [] => [[c]]
      | piece :: rest => (c :: piece) :: rest

/-- The rows between line feeds. -/
def splitRows (cs : List Char) : List (List Char) := splitOn '\n' cs

/-- The rows of a string. -/
def rows (text : String) : List String := (splitRows text.toList).map String.ofList

/-- The row without the carriage return at its end, if it has one. -/
def dropReturn : List Char → List Char
  | [] => []
  | ['\r'] => []
  | c :: cs => c :: dropReturn cs

/-! ### Pieces make up the text -/

variable {separator : Char}

theorem splitOn_ne_nil (cs : List Char) : splitOn separator cs ≠ [] := by
  cases cs with
  | nil => simp [splitOn]
  | cons c cs =>
    unfold splitOn
    split
    · simp
    · split <;> simp

/-- There is one piece more than there are separators. -/
theorem length_splitOn (cs : List Char) :
    (splitOn separator cs).length = cs.count separator + 1 := by
  induction cs with
  | nil => rfl
  | cons c cs ih =>
    unfold splitOn
    by_cases h : c = separator
    · simp [h, ih]
    · have hne : splitOn separator cs ≠ [] := splitOn_ne_nil cs
      simp only [if_neg h, List.count_cons_of_ne h]
      split
      · contradiction
      · next heq => simp only [heq, List.length_cons] at ih ⊢; exact ih

end BoxTree.Text
