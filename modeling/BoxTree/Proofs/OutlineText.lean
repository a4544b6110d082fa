import BoxTree.Line.Outline
import BoxTree.Proofs.TreeOfForest
import BoxTree.Proofs.WriterContent

namespace BoxTree

/-!
# The texts of an outline

Every segment of an outline has a colour, and its text comes from the name of a node, from the source, or
is one of a few fixed texts. So a terminal shows an outline as it is if it does so with the names and
the source.

* `Text.slice_subset`, `Text.dropReturn_subset` — parts of a text have no other characters.
* `childlessLines_legible` — the lines of a node.
* `Forest.Linked.outline_forall` — what holds of all lines of an outline.
* `Forest.Linked.outline_legible` — they are legible.
-/

/-! ### Parts of a text -/

namespace Text

variable {cs part : List Char}

/-- What is left when bytes are dropped stands at the end of the text. -/
theorem dropBytes?_suffix {n : Nat} (h : dropBytes? n cs = some part) : part <:+ cs := by
  induction n, cs using dropBytes?.induct with
  | case1 cs =>
    rw [dropBytes?] at h
    obtain rfl := Option.some.inj h
    exact List.suffix_rfl
  | case2 => cases h
  | case3 n c cs hle ih =>
    rw [dropBytes?, if_pos hle] at h
    exact (ih h).trans (List.suffix_cons c cs)
  | case4 n c cs hle =>
    rw [dropBytes?, if_neg hle] at h
    cases h

/-- What is taken by its bytes stands at the beginning of the text. -/
theorem takeBytes?_isPrefix {n : Nat} (h : takeBytes? n cs = some part) : part <+: cs := by
  induction n, cs using takeBytes?.induct generalizing part with
  | case1 cs =>
    rw [takeBytes?] at h
    obtain rfl := Option.some.inj h
    exact List.nil_prefix
  | case2 => cases h
  | case3 n c cs hle ih =>
    rw [takeBytes?, if_pos hle] at h
    obtain ⟨rest, hrest, rfl⟩ := Option.map_eq_some_iff.mp h
    exact List.cons_prefix_cons.mpr ⟨rfl, ih hrest⟩
  | case4 n c cs hle =>
    rw [takeBytes?, if_neg hle] at h
    cases h

/-- A part of a text has no other characters than the text. -/
theorem slice_subset {text slice : String} {start stop : Nat} (h : Text.slice text start stop = .ok slice) :
    slice.toList ⊆ text.toList := by
  unfold Text.slice slice? at h
  split at h
  · next found =>
    obtain rfl := Except.ok.inj h
    split at found
    · obtain ⟨part, hpart, rfl⟩ := Option.map_eq_some_iff.mp found
      obtain ⟨behind, hbehind, htaken⟩ := Option.bind_eq_some_iff.mp hpart
      rw [String.toList_ofList]
      exact List.Subset.trans (takeBytes?_isPrefix htaken).subset (dropBytes?_suffix hbehind).subset
    · cases found
  · cases h

/-- A row without its carriage return has no new characters. -/
theorem dropReturn_subset (cs : List Char) : dropReturn cs ⊆ cs := by
  induction cs using dropReturn.induct with
  | case1 | case2 => exact List.nil_subset _
  | case3 c cs hne ih =>
    rw [dropReturn.eq_3 c cs hne]
    exact List.cons_subset_cons c ih

end Text

namespace Encoding

variable {encoding : Encoding} {cs ds : List Char}

/-- Characters of a text that is shown as it is are shown as they are. -/
theorem Accepts.subset (accepts : encoding.Accepts cs) (h : ds ⊆ cs) : encoding.Accepts ds := by
  cases encoding with
  | terminal => exact fun hmem => accepts (h hmem)
  | plain | scriptConsole => trivial

/-- Whatever the output, a text without escape characters is shown as it is. -/
theorem accepts_of_not_mem (encoding : Encoding) (h : '\x1b' ∉ cs) : encoding.Accepts cs := by
  cases encoding with
  | terminal => exact h
  | plain | scriptConsole => trivial

/-- Texts that are shown as they are make up one that is. -/
theorem Accepts.append (first : encoding.Accepts cs) (second : encoding.Accepts ds) :
    encoding.Accepts (cs ++ ds) := by
  cases encoding with
  | terminal => exact fun hmem => (List.mem_append.mp hmem).elim first second
  | plain | scriptConsole => trivial

end Encoding

/-! ### The lines of a node -/

variable {theme : Theme} {encoding : Encoding} {name text : String}

theorem legible_nil : Line.Legible theme encoding ⟨[]⟩ := by simp [Line.Legible]

/-- A line is legible with one more coloured text in front. -/
theorem legible_cons {segments : List Segment} (accepts : encoding.Accepts text.toList) (color : Color)
    (rest : Line.Legible theme encoding ⟨segments⟩) :
    Line.Legible theme encoding ⟨.colored text color :: segments⟩ :=
  List.forall_mem_cons.mpr ⟨⟨rfl, accepts⟩, rest⟩

/-- A fixed text. -/
theorem legible_fixed {segments : List Segment} (fixed : '\x1b' ∉ text.toList) (color : Color)
    (rest : Line.Legible theme encoding ⟨segments⟩) :
    Line.Legible theme encoding ⟨.colored text color :: segments⟩ :=
  legible_cons (Encoding.accepts_of_not_mem encoding fixed) color rest

/-- The line of a node whose children follow is legible if its name is. -/
theorem openLine_legible (hname : encoding.Accepts name.toList) :
    (openLine theme name).Legible theme encoding :=
  legible_cons hname _ (legible_fixed (by decide) _ legible_nil)

/-- The line of a collapsed node is legible if its name is: the ellipsis is shown as it is. -/
theorem collapsedLine_legible (hname : encoding.Accepts name.toList) :
    (collapsedLine theme name).Legible theme encoding := by
  have hellipsis : Line.Legible theme encoding ⟨[⟨ellipsisText, .ellipsis⟩]⟩ :=
    List.forall_mem_cons.mpr ⟨⟨rfl, Encoding.accepts_of_not_mem encoding (by decide)⟩, legible_nil⟩
  exact legible_cons hname _ (legible_fixed (by decide) _ hellipsis)

/-- The rows of a text are legible if the text is. -/
theorem rowLines_legible {rows : List (List Char)} (hrows : ∀ row ∈ rows, encoding.Accepts row) :
    ∀ line ∈ rowLines theme rows, line.Legible theme encoding := by
  have hrow : ∀ row, encoding.Accepts row →
      encoding.Accepts (indent ++ String.ofList (Text.dropReturn row)).toList := by
    intro row haccepts
    rw [String.toList_append, String.toList_ofList]
    exact (Encoding.accepts_of_not_mem encoding (by decide)).append
      (haccepts.subset (Text.dropReturn_subset row))
  induction rows using rowLines.induct with
  | case1 => simp [rowLines]
  | case2 row =>
    have haccepts := hrow row (hrows row (List.mem_singleton_self row))
    exact List.forall_mem_singleton.mpr (legible_cons haccepts _ legible_nil)
  | case3 row rest hne ih =>
    obtain ⟨hfirst, hrest⟩ := List.forall_mem_cons.mp hrows
    rw [rowLines.eq_3 theme row rest hne]
    exact List.forall_mem_cons.mpr
      ⟨legible_cons (hrow row hfirst) _ (legible_fixed (by decide) _ legible_nil), ih hrest⟩

/-- The lines of a leaf are legible if its name and its text are. -/
theorem childlessLines_legible (hname : encoding.Accepts name.toList)
    (htext : encoding.Accepts text.toList) :
    ∀ line ∈ childlessLines theme name text, line.Legible theme encoding := by
  have hrows : ∀ row ∈ Text.splitRows text.toList, encoding.Accepts row := fun row hrow =>
    htext.subset (Text.mem_splitOn hrow).1
  have hquotes : Line.Legible theme encoding ⟨[.colored (indent ++ quotesText) theme.quotes]⟩ :=
    legible_fixed (by decide) _ legible_nil
  unfold childlessLines
  split
  · exact List.forall_mem_singleton.mpr (legible_cons htext _ legible_nil)
  · split
    · have hfirst : Line.Legible theme encoding
          ⟨[.colored name theme.name, .colored ": " theme.colon, .colored quotesText theme.quotes]⟩ :=
        legible_cons hname _ (legible_fixed (by decide) _ (legible_fixed (by decide) _ legible_nil))
      refine List.forall_mem_cons.mpr ⟨hfirst, fun line hline => ?_⟩
      obtain hrow | hlast := List.mem_append.mp hline
      · exact rowLines_legible hrows line hrow
      · obtain rfl := List.mem_singleton.mp hlast
        exact hquotes
    · exact List.forall_mem_singleton.mpr
        (legible_cons hname _ (legible_fixed (by decide) _ (legible_cons htext _ legible_nil)))

/-! ### The lines of a tree -/

/-- The pieces of a box. -/
def boxTexts : List String := ["├╴", "└╴", "│ ", "  "]

/-- Whatever is drawn for a node with this label has the property. -/
structure Label.DrawnAs (P : Line → Prop) (theme : Theme) (source : String) (label : Label) : Prop where
  opened : P (openLine theme label.name)
  collapsed : P (collapsedLine theme label.name)
  childless : ∀ text, Text.slice source label.start label.stop = .ok text →
    ∀ line ∈ childlessLines theme label.name text, P line

section Drawn

variable {P : Line → Prop} {source : String} {decide : Nat → Visibility}

/-- The lines in a box have a property that a line keeps behind each piece of the box. -/
theorem branched_forall {tree : Color}
    (boxed : ∀ piece ∈ boxTexts, ∀ line, P line → P ⟨.colored piece tree :: line.segments⟩)
    (isLast : Bool) {lines : List Line} (hlines : ∀ line ∈ lines, P line) :
    ∀ line ∈ branched tree isLast lines, P line := by
  cases lines with
  | nil => simp [branched]
  | cons first rest =>
    obtain ⟨hfirst, hrest⟩ := List.forall_mem_cons.mp hlines
    refine List.forall_mem_cons.mpr ⟨?_, fun line hline => ?_⟩
    · exact boxed _ (by cases isLast <;> simp [boxTexts]) first hfirst
    · obtain ⟨inner, hinner, rfl⟩ := List.mem_map.mp hline
      exact boxed _ (by cases isLast <;> simp [boxTexts]) inner (hrest inner hinner)

namespace Tree

/-- The lines of siblings have the property if those of each tree do. -/
theorem outlineAll_forall
    (boxed : ∀ piece ∈ boxTexts, ∀ line, P line → P ⟨.colored piece theme.tree :: line.segments⟩)
    {trees : List Tree}
    (htrees : ∀ tree ∈ trees, ∀ line ∈ (tree.outline theme source decide).1, P line) :
    ∀ line ∈ (outlineAll theme source decide trees).1, P line := by
  induction trees with
  | nil => simp [outlineAll]
  | cons tree rest ih =>
    obtain ⟨hfirst, hrest⟩ := List.forall_mem_cons.mp htrees
    intro line hline
    rw [outlineAll] at hline
    rcases houtline : tree.outline theme source decide with ⟨lines, _ | error⟩ <;>
      rw [houtline] at hfirst hline
    · obtain hbranch | hmore := List.mem_append.mp hline
      · exact branched_forall boxed _ hfirst line hbranch
      · exact ih hrest line hmore
    · exact branched_forall boxed _ hfirst line hline

/-- The lines of a tree have the property if those of its root and of its children do. -/
theorem outline_forall
    (boxed : ∀ piece ∈ boxTexts, ∀ line, P line → P ⟨.colored piece theme.tree :: line.segments⟩)
    {id : Nat} {label : Label} {children : List Tree} (drawn : label.DrawnAs P theme source)
    (hchildren : ∀ tree ∈ children, ∀ line ∈ (tree.outline theme source decide).1, P line) :
    ∀ line ∈ ((node id label children).outline theme source decide).1, P line := by
  rw [outline.eq_def]
  dsimp only
  cases decide id with
  | hidden => simp
  | collapsed => exact List.forall_mem_singleton.mpr drawn.collapsed
  | shown =>
    cases children with
    | nil =>
      dsimp only
      split
      · next hslice => exact drawn.childless _ hslice
      · simp
    | cons child rest =>
      exact List.forall_mem_cons.mpr ⟨drawn.opened, outlineAll_forall boxed hchildren⟩

end Tree

/-- **The lines of an outline have a property** that everything drawn for its nodes has, and that a line
    keeps behind each piece of a box. -/
theorem Forest.Linked.outline_forall {forest : Forest} (linked : forest.Linked)
    (boxed : ∀ piece ∈ boxTexts, ∀ line, P line → P ⟨.colored piece theme.tree :: line.segments⟩)
    {root : Nat}
    (drawn : ∀ id ∈ (forest.tree root).preorder, (forest.label id).DrawnAs P theme source) :
    ∀ line ∈ ((forest.tree root).outline theme source decide).1, P line := by
  induction root using linked.childInduction with
  | step root ih =>
    rw [linked.preorder_tree, List.forall_mem_cons] at drawn
    rw [linked.tree_eq]
    refine Tree.outline_forall boxed drawn.1 fun tree htree => ?_
    obtain ⟨child, hchild, rfl⟩ := List.mem_map.mp htree
    exact ih child hchild fun id hid => drawn.2 id (List.mem_flatMap.mpr ⟨child, hchild, hid⟩)

end Drawn

/-- **The lines of an outline are legible** if the names of its nodes and the source are shown as they
    are. -/
theorem Forest.Linked.outline_legible {forest : Forest} (linked : forest.Linked) {source : String}
    {decide : Nat → Visibility} {root : Nat}
    (hnames : ∀ id ∈ (forest.tree root).preorder, encoding.Accepts (forest.label id).name.toList)
    (hsource : encoding.Accepts source.toList) :
    ∀ line ∈ ((forest.tree root).outline theme source decide).1, line.Legible theme encoding := by
  refine linked.outline_forall (fun piece hpiece line hline => ?_) fun id hid => ?_
  · have hfixed : ∀ text ∈ boxTexts, '\x1b' ∉ text.toList := by decide
    exact legible_fixed (hfixed piece hpiece) _ hline
  · exact {
      opened := openLine_legible (hnames id hid)
      collapsed := collapsedLine_legible (hnames id hid)
      childless := fun text hslice =>
        childlessLines_legible (hnames id hid) (hsource.subset (Text.slice_subset hslice)) }

end BoxTree
