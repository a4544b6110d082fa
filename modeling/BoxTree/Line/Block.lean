import BoxTree.Line.Leaf

namespace BoxTree

/-!
# Blocks

A text of several rows stands between quotes, each row on a line of its own.

* `Text.dropReturns` — a text without the carriage returns that end its rows.
* `blockOf` — the lines of a block, given its rows.
-/

namespace Text

/-- The text without the carriage returns that have a line feed, or nothing, behind them. Of several in
    a row only the last one is left out. -/
def dropReturns : List Char → List Char
  | [] => []
  | c :: cs =>
    if c = '\r' ∧ (cs = [] ∨ cs.head? = some '\n') then dropReturns cs else c :: dropReturns cs

/-- Only carriage returns are left out. -/
theorem dropReturns_cons_of_ne {c : Char} (h : c ≠ '\r') (cs : List Char) :
    dropReturns (c :: cs) = c :: dropReturns cs := by
  rw [dropReturns, if_neg fun hreturn => h hreturn.1]

/-- What has another character than a line feed behind it is kept. -/
theorem dropReturns_cons_cons {d : Char} (h : d ≠ '\n') (c : Char) (cs : List Char) :
    dropReturns (c :: d :: cs) = c :: dropReturns (d :: cs) := by
  rw [dropReturns, if_neg]
  rintro ⟨-, hnil | hfeed⟩
  · exact List.cons_ne_nil d cs hnil
  · exact h (Option.some.inj hfeed)

end Text

variable (theme : Theme)

/-- A row with others behind it. -/
def markedRow (row : String) : Line :=
  ⟨[.colored (indent ++ row) theme.source, .colored rowEndText theme.rowEnd]⟩

/-- The last row. -/
def lastRow (row : String) : Line := ⟨[.colored (indent ++ row) theme.source]⟩

/-- The lines of a block: the name and the opening quotes, the marked rows and the last one, and the closing
    quotes. -/
def blockOf (name : String) (marked : List String) (last : String) : List Line :=
  ⟨[.colored name theme.name, .colored ": " theme.colon, .colored quotesText theme.quotes]⟩ ::
  (marked.map (markedRow theme) ++
    [lastRow theme last, ⟨[.colored (indent ++ quotesText) theme.quotes]⟩])

/-- A block has three lines more than marked rows. -/
theorem length_blockOf (name : String) (marked : List String) (last : String) :
    (blockOf theme name marked last).length = marked.length + 3 := by
  simp [blockOf]

/-- The marked rows, and no other lines of a block, have the mark as their second segment. -/
theorem mark_blockOf {name : String} {marked : List String} {last : String} {i : Nat} {line : Line}
    (h : (blockOf theme name marked last)[i]? = some line) :
    line.segments[1]?.map Segment.text = some rowEndText ↔ 1 ≤ i ∧ i ≤ marked.length := by
  cases i with
  | zero =>
    obtain rfl := Option.some.inj h
    exact iff_of_false (by decide : some ": " ≠ some rowEndText) (by omega)
  | succ i =>
    unfold blockOf at h
    rw [List.getElem?_cons_succ] at h
    by_cases hmarked : i < marked.length
    · rw [List.getElem?_append_left (by rwa [List.length_map]), List.getElem?_map] at h
      obtain ⟨row, -, rfl⟩ := Option.map_eq_some_iff.mp h
      exact iff_of_true rfl (by omega)
    · rw [List.getElem?_append_right (by rw [List.length_map]; omega)] at h
      obtain rfl | rfl : line = lastRow theme last ∨
          line = ⟨[.colored (indent ++ quotesText) theme.quotes]⟩ := by
        simpa using List.mem_of_getElem? h
      all_goals exact iff_of_false nofun (by omega)

end BoxTree
