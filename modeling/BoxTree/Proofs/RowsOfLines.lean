import BoxTree.Line.Block
import BoxTree.Proofs.ColorlessCalls

namespace BoxTree

/-!
# One line, one row

A text of several rows is taken apart at its line feeds, and each row gets a line of its own. So no line has a
line feed in it unless the name of a node has one, and the rows of a rendered text are its lines.

* `Text.dropReturns_append` — rows are taken apart at the line feeds.
* `childlessLines_block` — the lines of a text of several rows.
* `Line.Unbroken` — no segment has a line feed in it.
* `Forest.Linked.outline_unbroken` — the lines of an outline.
* `Text.rows_intercalate` — texts without line feeds are the rows of the text that they make up.
* `lines_are_rows` — all of it.
-/

/-! ### The rows of a text -/

namespace Text

/-- A row that a line feed or the end of the text follows loses its carriage return. -/
theorem dropReturns_append {row rest : List Char} (h : '\n' ∉ row)
    (hrest : rest = [] ∨ rest.head? = some '\n') :
    dropReturns (row ++ rest) = dropReturn row ++ dropReturns rest := by
  induction row using dropReturn.induct with
  | case1 => rfl
  | case2 => exact if_pos ⟨rfl, hrest⟩
  | case3 c row hne ih =>
    rw [dropReturn.eq_3 c row hne, List.cons_append, List.cons_append,
      ← ih (List.not_mem_of_not_mem_cons h)]
    cases row with
    | nil => exact dropReturns_cons_of_ne (fun hc => hne hc rfl) _
    | cons d row =>
      refine dropReturns_cons_cons (fun hd => h ?_) c _
      rw [hd]
      exact List.mem_cons_of_mem _ (List.mem_cons_self ..)

/-- Rows of which each has lost its carriage return make up the text without the carriage returns. -/
theorem dropReturns_rows {first : List Char} {rest : List (List Char)} (hfirst : '\n' ∉ first)
    (hrest : ∀ row ∈ rest, '\n' ∉ row) :
    dropReturns (first ++ rest.flatMap ('\n' :: ·)) =
      dropReturn first ++ rest.flatMap ('\n' :: dropReturn ·) := by
  induction rest generalizing first with
  | nil => exact dropReturns_append hfirst (Or.inl rfl)
  | cons row rest ih =>
    obtain ⟨hrow, hothers⟩ := List.forall_mem_cons.mp hrest
    rw [List.flatMap_cons, List.flatMap_cons, dropReturns_append hfirst (Or.inr rfl), List.cons_append,
      List.cons_append, dropReturns_cons_of_ne (by decide), ih hrow hothers]

/-- **The rows of a text**, each without its carriage return, make up the text without carriage returns. -/
theorem intercalate_dropReturn (cs : List Char) :
    String.intercalate "\n" ((splitRows cs).map fun row => String.ofList (dropReturn row)) =
      String.ofList (dropReturns cs) := by
  obtain ⟨first, rest, hsplit⟩ := exists_splitOn '\n' cs
  obtain ⟨hcs, hfirst, hrest⟩ := splitOn_eq_cons hsplit
  have hdropped : dropReturns cs = dropReturn first ++ rest.flatMap ('\n' :: dropReturn ·) :=
    (congrArg dropReturns hcs).trans (dropReturns_rows hfirst hrest)
  rw [splitRows, hsplit, List.map_cons, Progress.intercalate_newline, hdropped]
  refine String.toList_injective ?_
  simp [String.toList_join, List.flatMap_map]

/-- Texts are split as the library splits lists. -/
theorem splitOn_eq_splitOn (separator : Char) (cs : List Char) :
    splitOn separator cs = cs.splitOn separator := by
  induction cs with
  | nil => rfl
  | cons c cs ih =>
    obtain ⟨piece, rest, hsplit⟩ := exists_splitOn separator cs
    rw [List.splitOn_eq_splitOnP, List.splitOnP_cons_eq_if_modifyHead, ← List.splitOn_eq_splitOnP, ← ih,
      splitOn, hsplit, List.modifyHead_cons]
    simp only [beq_iff_eq]

/-- **Texts without line feeds** are the rows of the text that they make up. -/
theorem rows_intercalate {texts : List String} (hne : texts ≠ [])
    (h : ∀ text ∈ texts, '\n' ∉ text.toList) :
    rows (String.intercalate "\n" texts) = texts := by
  have hsplit : splitRows (String.intercalate "\n" texts).toList = texts.map String.toList := by
    rw [splitRows, splitOn_eq_splitOn, String.toList_intercalate]
    exact List.splitOn_intercalate '\n' (List.forall_mem_map.mpr h) (List.map_eq_nil_iff.not.mpr hne)
  rw [rows, hsplit, List.map_map]
  exact List.map_id'' (fun text => String.ofList_toList) texts

end Text

/-! ### The lines of a block -/

variable {theme : Theme} {name text : String}

/-- All rows but the last are marked. -/
theorem rowLines_concat (theme : Theme) (rows : List (List Char)) (last : List Char) :
    rowLines theme (rows ++ [last]) =
      (rows.map fun row => markedRow theme (String.ofList (Text.dropReturn row))) ++
        [lastRow theme (String.ofList (Text.dropReturn last))] := by
  induction rows with
  | nil => rfl
  | cons row rows ih =>
    have hne : rows ++ [last] ≠ [] := List.append_ne_nil_of_right_ne_nil _ (List.cons_ne_nil _ _)
    rw [List.cons_append, rowLines.eq_3 theme row _ hne, ih]
    rfl

/-- **The lines of a text of several rows** are a block of its rows, which lose one carriage return each. -/
theorem childlessLines_block (theme : Theme) (differs : text ≠ name) (several : '\n' ∈ text.toList) :
    ∃ marked last, childlessLines theme name text = blockOf theme name marked last ∧
      marked.length = text.toList.count '\n' ∧
      String.intercalate "\n" (marked ++ [last]) = String.ofList (Text.dropReturns text.toList) ∧
      ∀ row ∈ marked ++ [last], '\n' ∉ row.toList := by
  have hlength : (Text.splitRows text.toList).length = text.toList.count '\n' + 1 := Text.length_splitOn _
  have hjoined := Text.intercalate_dropReturn text.toList
  have hunbroken : ∀ row ∈ Text.splitRows text.toList, '\n' ∉ row := fun row hrow =>
    (Text.mem_splitOn hrow).2
  have hblock : childlessLines theme name text = blockLines theme name text := by
    rw [childlessLines, if_neg differs, if_pos several]
  obtain hnil | ⟨rows, last, hrows⟩ := List.eq_nil_or_concat' (Text.splitRows text.toList)
  · exact absurd hnil (Text.splitOn_ne_nil _)
  rw [hrows] at hlength hjoined hunbroken
  refine ⟨rows.map fun row => String.ofList (Text.dropReturn row), String.ofList (Text.dropReturn last),
    ?_, ?_, ?_, ?_⟩
  · rw [hblock, blockLines, hrows, rowLines_concat, List.append_assoc, blockOf, List.map_map]
    rfl
  · rw [List.length_append, List.length_singleton] at hlength
    rw [List.length_map]
    exact Nat.succ.inj hlength
  · rw [List.map_append] at hjoined
    exact hjoined
  · intro row hrow
    obtain ⟨cs, hcs, rfl⟩ : ∃ cs ∈ rows ++ [last], String.ofList (Text.dropReturn cs) = row := by
      rwa [← List.mem_map, List.map_append]
    rw [String.toList_ofList]
    exact fun hfeed => hunbroken cs hcs (Text.dropReturn_subset cs hfeed)

/-! ### Lines without line feeds -/

namespace Line

/-- No segment has a line feed in it. -/
def Unbroken (line : Line) : Prop := ∀ segment ∈ line.segments, '\n' ∉ segment.text.toList

variable {line : Line} {segments : List Segment} {color : Color}

theorem unbroken_nil : Unbroken ⟨[]⟩ := by simp [Unbroken]

theorem unbroken_cons (h : '\n' ∉ text.toList) (color : Color) (rest : Unbroken ⟨segments⟩) :
    Unbroken ⟨.colored text color :: segments⟩ := List.forall_mem_cons.mpr ⟨h, rest⟩

/-- The text of a line has no line feed if no segment has one. -/
theorem Unbroken.plain (unbroken : line.Unbroken) : '\n' ∉ line.plain.toList := by
  rw [Line.plain, String.toList_join, List.mem_flatMap]
  rintro ⟨text, htext, hfeed⟩
  obtain ⟨segment, hsegment, rfl⟩ := List.mem_map.mp htext
  exact unbroken segment hsegment hfeed

end Line

open Line

/-- The line of a node whose children follow breaks only in its name. -/
theorem openLine_unbroken (hname : '\n' ∉ name.toList) : (openLine theme name).Unbroken :=
  unbroken_cons hname _ (unbroken_cons (by decide) _ unbroken_nil)

/-- The line of a collapsed node breaks only in its name. -/
theorem collapsedLine_unbroken (hname : '\n' ∉ name.toList) : (collapsedLine theme name).Unbroken := by
  have hellipsis : Unbroken ⟨[⟨ellipsisText, .ellipsis⟩]⟩ := List.forall_mem_singleton.mpr (by decide)
  exact unbroken_cons hname _ (unbroken_cons (by decide) _ hellipsis)

/-- The lines of a block of rows without line feeds. -/
theorem blockOf_unbroken {marked : List String} {last : String} (hname : '\n' ∉ name.toList)
    (hrows : ∀ row ∈ marked ++ [last], '\n' ∉ row.toList) :
    ∀ line ∈ blockOf theme name marked last, line.Unbroken := by
  have hrow : ∀ row ∈ marked ++ [last], '\n' ∉ (indent ++ row).toList := by
    intro row hrow
    rw [String.toList_append, List.mem_append]
    exact not_or.mpr ⟨by decide, hrows row hrow⟩
  refine List.forall_mem_cons.mpr ⟨?_, List.forall_mem_append.mpr ⟨List.forall_mem_map.mpr ?_, ?_⟩⟩
  · exact unbroken_cons hname _ (unbroken_cons (by decide) _ (unbroken_cons (by decide) _ unbroken_nil))
  · intro row hmarked
    exact unbroken_cons (hrow row (List.mem_append_left _ hmarked)) _
      (unbroken_cons (by decide) _ unbroken_nil)
  · refine List.forall_mem_cons.mpr ⟨?_, List.forall_mem_singleton.mpr ?_⟩
    · exact unbroken_cons (hrow last (by simp)) _ unbroken_nil
    · exact unbroken_cons (by decide) _ unbroken_nil

/-- **The lines of a leaf** have no line feeds in them, whatever its text, if its name has none. -/
theorem childlessLines_unbroken (hname : '\n' ∉ name.toList) :
    ∀ line ∈ childlessLines theme name text, line.Unbroken := by
  by_cases hsame : text = name
  · rw [childlessLines, if_pos hsame, hsame]
    exact List.forall_mem_singleton.mpr (unbroken_cons hname _ unbroken_nil)
  · by_cases hseveral : '\n' ∈ text.toList
    · obtain ⟨marked, last, hblock, -, -, hrows⟩ := childlessLines_block theme hsame hseveral
      rw [hblock]
      exact blockOf_unbroken hname hrows
    · rw [childlessLines, if_neg hsame, if_neg hseveral]
      exact List.forall_mem_singleton.mpr
        (unbroken_cons hname _ (unbroken_cons (by decide) _ (unbroken_cons hseveral _ unbroken_nil)))

/-- **The lines of an outline** have no line feeds in them if the names of its nodes have none. -/
theorem Forest.Linked.outline_unbroken {forest : Forest} (linked : forest.Linked) {root : Nat}
    (names : ∀ id ∈ (forest.tree root).preorder, '\n' ∉ (forest.label id).name.toList)
    (theme : Theme) (source : String) (decide : Nat → Visibility) :
    ∀ line ∈ ((forest.tree root).outline theme source decide).1, line.Unbroken := by
  refine linked.outline_forall (fun piece hpiece line hline => ?_) fun id hid => ?_
  · have hfixed : ∀ text ∈ boxTexts, '\n' ∉ text.toList := by decide
    exact unbroken_cons (hfixed piece hpiece) _ hline
  · exact {
      opened := openLine_unbroken (names id hid)
      collapsed := collapsedLine_unbroken (names id hid)
      childless := fun text _ => childlessLines_unbroken (names id hid) }

/-! ### Lines of a walk -/

/-- Whatever a call of `next` answers with is one of the entries. -/
theorem Stream.Yields.mem_of_mem_pulls {κ : Type} [Cursor κ] {stream : Stream κ}
    {entries : List (Except Error Line)} (yields : stream.Yields entries) {entry : Except Error Line}
    {n : Nat} (h : some entry ∈ stream.pulls n) : entry ∈ entries := by
  rw [yields n] at h
  obtain ⟨i, -, hentry⟩ := List.mem_map.mp h
  exact List.mem_of_getElem? hentry

/-- The lines among the entries of a report are its lines. -/
theorem Report.mem_of_ok_mem_entries {report : Report} {line : Line} (h : .ok line ∈ entries report) :
    line ∈ report.1 := by
  obtain hok | herror := List.mem_append.mp h
  · obtain ⟨_, hmem, heq⟩ := List.mem_map.mp hok
    rwa [← Except.ok.inj heq]
  · obtain ⟨_, -, heq⟩ := List.mem_map.mp herror
    cases heq

/-- The rows of the text of lines without line feeds are the texts of the lines. -/
theorem rows_of_lines {lines : List Line} (unbroken : ∀ line ∈ lines, line.Unbroken) (hne : lines ≠ []) :
    Text.rows (String.intercalate "\n" (lines.map Line.plain)) = lines.map Line.plain :=
  Text.rows_intercalate (List.map_eq_nil_iff.not.mpr hne)
    (List.forall_mem_map.mpr fun line hline => (unbroken line hline).plain)

/-- **One line is one row.** A leaf whose text is not its name and has line feeds in it, `feeds` of them, has
    the lines of a block: the name with the opening quotes, a row more than there are line feeds, and the
    closing quotes. The rows, with line feeds between them, are the text without one carriage return before
    each line feed and at the end. All rows but the last, and no other lines, have the mark.

    If no name in a tree has a line feed in it, then no line that a walk yields has one, whatever the source,
    the theme and the filter, and even if the walk fails. If it does not fail, the rows of the rendered text
    are the texts of the lines; where there are none, the text is empty. -/
theorem lines_are_rows :
    (∀ (theme : Theme) (name text : String) (feeds : Nat), text ≠ name →
      text.toList.count '\n' = feeds → 1 ≤ feeds →
      let lines := childlessLines theme name text
      lines.length = feeds + 3 ∧
        (∃ marked last, lines = blockOf theme name marked last ∧ marked.length = feeds ∧
          String.intercalate "\n" (marked ++ [last]) = String.ofList (Text.dropReturns text.toList)) ∧
        ∀ i line, lines[i]? = some line →
          (line.segments[1]?.map Segment.text = some rowEndText ↔ 1 ≤ i ∧ i ≤ feeds)) ∧
    ∀ (forest : Forest) (root : Nat), forest.Grown → forest.contains root = true →
      (∀ id ∈ (forest.tree root).preorder, '\n' ∉ (forest.label id).name.toList) →
      let place : Place := ⟨forest, root⟩
      (∀ source theme filter n line,
        some (.ok line) ∈ (Stream.start place source theme filter).pulls n → '\n' ∉ line.plain.toList) ∧
      ∀ settings options source,
        let stream := walk settings options source place
        let lines := stream.lines.1
        let failure := stream.lines.2
        let text := (renderText settings options source place).1
        stream.Yields (Report.entries (lines, failure)) ∧
          (∀ error, failure = some error → text = .error error) ∧
          (failure = none → ∃ written, text = .ok written ∧
            (lines ≠ [] → Text.rows written = lines.map Line.plain) ∧ (lines = [] → written = "")) := by
  refine ⟨fun theme name text feeds differs hcount several => ?_,
    fun forest root grown inForest names => ?_⟩
  · obtain ⟨marked, last, hblock, hmarked, hjoined, -⟩ := childlessLines_block theme differs
      (List.count_pos_iff.mp (hcount.symm ▸ several))
    rw [hcount] at hmarked
    intro lines
    rw [show lines = blockOf theme name marked last from hblock]
    refine ⟨?_, ⟨marked, last, rfl, hmarked, hjoined⟩, fun i line hline => ?_⟩
    · rw [length_blockOf, hmarked]
    · rw [mark_blockOf theme hline, hmarked]
  · intro place
    have hroot : root < forest.size := of_decide_eq_true inForest
    refine ⟨fun source theme filter n line hline => ?_, fun settings options source => ?_⟩
    · obtain ⟨decide, hyields⟩ := Stream.exists_yields grown.linked hroot source theme filter
      have hmem := Report.mem_of_ok_mem_entries (hyields.mem_of_mem_pulls hline)
      exact (grown.linked.outline_unbroken names theme source decide line hmem).plain
    · intro stream lines failure text
      obtain ⟨decide, hyields⟩ : ∃ decide, stream.Yields _ :=
        Stream.exists_yields grown.linked hroot source (options.chosenTheme settings) options.filter
      have unbroken := grown.linked.outline_unbroken names (options.chosenTheme settings) source decide
      have hreport : stream.lines = _ := Stream.lines_of_yields hyields
      rw [← hreport] at hyields unbroken
      have htext : text = failure.elim (.ok (String.intercalate "\n" (lines.map Line.plain))) .error :=
        congrArg Prod.fst (renderText_eq hyields)
      refine ⟨hyields, fun error herror => ?_, fun hnone => ?_⟩
      · rw [htext, herror]
        rfl
      · rw [hnone] at htext
        refine ⟨_, htext, rows_of_lines unbroken, fun hnil => ?_⟩
        rw [hnil]
        rfl

/-- A text with a carriage return before its first line feed, two before its second one and one at its end;
    and a small tree with a leaf that spans a line feed. -/
theorem rows_of_sapling :
    let lines := childlessLines .terminal "Text" "x\r\n\r\r\n\r"
    let place : Place := ⟨.sapling, 0⟩
    lines.length = 5 ∧
      (∃ marked last, lines = blockOf .terminal "Text" marked last ∧ marked.length = 2 ∧
        String.intercalate "\n" (marked ++ [last]) = "x\n\r\n") ∧
      Forest.sapling.Grown ∧ Forest.sapling.contains 0 = true ∧
      ∃ written, (renderText {} {} "\ny" place).1 = .ok written ∧
        Text.rows written = ["Pair:", "├╴Left:", "│ └╴Leaf: '''", "│     ⮐", "│     ", "│     '''",
          "└╴Right: y"] := by
  intro lines place
  have inForest : Forest.sapling.contains 0 = true := rfl
  have names : ∀ id ∈ (Forest.sapling.tree 0).preorder, '\n' ∉ (Forest.sapling.label id).name.toList := by
    decide +kernel
  have hdropped : String.ofList (Text.dropReturns "x\r\n\r\r\n\r".toList) = "x\n\r\n" := by decide
  have hplain : (walk {} {} "\ny" place).lines.1.map Line.plain = ["Pair:", "├╴Left:", "│ └╴Leaf: '''",
      "│     ⮐", "│     ", "│     '''", "└╴Right: y"] := by decide +kernel
  have hnone : (walk {} {} "\ny" place).lines.2 = none := by decide +kernel
  obtain ⟨hblock, htree⟩ := lines_are_rows
  obtain ⟨hlength, ⟨marked, last, hlines, hmarked, hjoined⟩, -⟩ :=
    hblock .terminal "Text" "x\r\n\r\r\n\r" 2 (by decide) (by decide) (by decide)
  obtain ⟨-, -, htext⟩ := (htree .sapling 0 Forest.grown_sapling inForest names).2 {} {} "\ny"
  obtain ⟨written, hwritten, hrows, -⟩ := htext hnone
  have hne : (walk {} {} "\ny" place).lines.1 ≠ [] := by
    rintro hnil
    rw [hnil] at hplain
    cases hplain
  exact ⟨hlength, ⟨marked, last, hlines, hmarked, hjoined.trans hdropped⟩, Forest.grown_sapling, inForest,
    written, hwritten, (hrows hne).trans hplain⟩

end BoxTree
