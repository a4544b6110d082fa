import BoxTree.Proofs.BuilderSpans
import BoxTree.Proofs.CallsTaken

namespace BoxTree

/-!
# Built documents can be rendered

The only text that a walk takes out of the source is that of a leaf, and in a built document every leaf
has one. So nothing stops a walk before its end, and it has moves enough to come there.

* `Stream.EndsWith` — a walk yields lines and no error, and comes to its end with them.
* `Tree.outlineAll_complete`, `Forest.Spans.outline_complete` — an outline ends early only at a leaf
  without a text.
* `Forest.Spans.exists_endsWith` — so a walk comes to its end.
* `document_renders` — a document that was built can be rendered from every node, in every way.
-/

/-- A walk yields these lines and no error, and comes to its end with them. Nothing is left to do once the
    calls of `next` have answered with the lines, and that is where whoever gets all lines handed over
    leaves it. -/
structure Stream.EndsWith {κ : Type} [Cursor κ] (stream : Stream κ) (lines : List Line) : Prop where
  pulls : ∀ n, stream.pulls n = (List.range n).map fun i => lines[i]?.map .ok
  stopped : ∀ n, lines.length < n → (stream.after n).task = .stop ∧ (stream.after n).pending = []
  handed : ∀ {α : Type} (take : α → Line → α) (acc : α),
    stream.consume (fun acc line => (take acc line, none)) acc =
      (lines.foldl take acc, none, stream.after (lines.length + 1))

namespace Tree

variable {theme : Theme} {source : String} {decide : Nat → Visibility}

/-- Siblings whose outlines are complete have a complete outline together. -/
theorem outlineAll_complete {trees : List Tree}
    (complete : ∀ tree ∈ trees, (tree.outline theme source decide).2 = none) :
    (outlineAll theme source decide trees).2 = none := by
  induction trees with
  | nil => rfl
  | cons tree rest ih =>
    obtain ⟨hfirst, hrest⟩ := List.forall_mem_cons.mp complete
    rw [outlineAll]
    rcases houtline : tree.outline theme source decide with ⟨lines, _ | error⟩
    · exact ih hrest
    · rw [houtline] at hfirst
      cases hfirst

/-- A leaf with a text has a complete outline. -/
theorem outline_leaf_complete {id : Nat} {label : Label}
    (slice : Text.HasSlice source label.start label.stop) :
    ((node id label []).outline theme source decide).2 = none := by
  obtain ⟨text, htext⟩ := slice.slice
  rw [outline]
  cases decide id with
  | hidden | collapsed => rfl
  | shown => simp only [htext]

/-- A node whose children have complete outlines has one. -/
theorem outline_node_complete {id : Nat} {label : Label} {child : Tree} {rest : List Tree}
    (complete : ∀ tree ∈ child :: rest, (tree.outline theme source decide).2 = none) :
    ((node id label (child :: rest)).outline theme source decide).2 = none := by
  rw [outline]
  cases decide id with
  | hidden | collapsed => rfl
  | shown => exact outlineAll_complete complete

end Tree

namespace Forest

variable {forest : Forest} {text : String} {root : Nat}

/-- **Where every span is a part of the text, every outline is complete.** -/
theorem Spans.outline_complete (spans : forest.Spans text) (theme : Theme) (decide : Nat → Visibility)
    (id : Nat) : ((forest.tree id).outline theme text decide).2 = none := by
  induction id using spans.grown.linked.childInduction with
  | step id ih =>
    rw [spans.grown.linked.tree_eq]
    cases hchildren : forest.childList id with
    | nil => exact Tree.outline_leaf_complete (spans.slices id)
    | cons child rest =>
      rw [hchildren] at ih
      refine Tree.outline_node_complete fun tree htree => ?_
      rw [← List.map_cons, List.mem_map] at htree
      obtain ⟨id, hid, rfl⟩ := htree
      exact ih id hid

/-- A walk with moves enough that yields lines and no error comes to its end with them. -/
theorem Linked.endsWith (linked : forest.Linked) {stream : Stream Place} {lines : List Line}
    (funded : stream.Funded forest root) (yields : stream.Yields (Report.entries (lines, none))) :
    stream.EndsWith lines := by
  have hentries : Report.entries (lines, none) = lines.map .ok := List.append_nil _
  refine ⟨fun n => ?_, fun n hn => ?_, fun take acc => Stream.consume_all take acc yields⟩
  · rw [yields n, hentries]
    exact List.map_congr_left fun i _ => List.getElem?_map
  · obtain ⟨htask, hpending⟩ := yields.ended_after linked funded (by rwa [hentries, List.length_map])
    exact ⟨htask, hpending⟩

/-- **Where every span is a part of the text, every walk comes to its end**, and yields no error on the
    way. -/
theorem Spans.exists_endsWith (spans : forest.Spans text) (hroot : root < forest.size) (theme : Theme)
    (filter : Filter) :
    let stream := Stream.start (⟨forest, root⟩ : Place) text theme filter
    ∃ lines : List Line, stream.Yields (Report.entries (lines, none)) ∧ stream.EndsWith lines := by
  intro stream
  obtain ⟨decide, yields⟩ := Stream.exists_yields spans.grown.linked hroot text theme filter
  have hcomplete : (forest.tree root).outline theme text decide =
      (((forest.tree root).outline theme text decide).1, none) :=
    Prod.ext rfl (spans.outline_complete theme decide root)
  rw [hcomplete] at yields
  have funded : stream.Funded forest root :=
    Stream.funded_start spans.grown.linked hroot text theme filter
  exact ⟨_, yields, spans.grown.linked.endsWith funded yields⟩

end Forest

/-- **A document that was built can be rendered.** From every node of its forest and with every theme
    and filter, the walk comes to its end: the calls of `next` answer with finitely many lines and with
    `none` ever after, and nothing is left to do then. So the tree has a text, whatever the options: that
    of the lines of the walk, which is left at its end. A rendering can only fail on a full surface. -/
theorem document_renders {steps : List Step} {document : Document}
    (built : Document.ofSteps steps = .ok document) {root : Nat}
    (inForest : document.forest.contains root = true) :
    let place : Place := ⟨document.forest, root⟩
    (∀ theme filter, ∃ lines, (Stream.start place document.text theme filter).EndsWith lines) ∧
      ∀ settings options,
        let stream := walk settings options document.text place
        ∃ lines, stream.EndsWith lines ∧
          renderText settings options document.text place =
            (.ok (String.intercalate "\n" (lines.map Line.plain)),
              (stream.after (lines.length + 1)).finish, (stream.after (lines.length + 1)).asked) ∧
          ∀ error, (render settings options document.text place).error = some error →
            error = .surfaceFull := by
  intro place
  have spans := Document.spans_ofSteps built
  have hroot : root < document.forest.size := of_decide_eq_true inForest
  constructor
  · intro theme filter
    obtain ⟨lines, -, ends⟩ := spans.exists_endsWith hroot theme filter
    exact ⟨lines, ends⟩
  · intro settings options stream
    obtain ⟨lines, yields, ends⟩ :
        ∃ lines : List Line, stream.Yields (Report.entries (lines, none)) ∧ stream.EndsWith lines :=
      spans.exists_endsWith hroot _ _
    refine ⟨lines, ends, renderText_eq yields, fun error herror => ?_⟩
    cases hmode : options.lineByLine with
    | false =>
      rw [(render_joined hmode yields).1] at herror
      exact Progress.error_flush herror
    | true =>
      rw [(render_each hmode yields).1, Report.entries, Option.toList_none, List.map_nil,
        List.append_nil] at herror
      exact Stream.feedEntries_lines (fun _ _ _ => Progress.error_flushEach) _ lines herror

/-- A document with an empty leaf, a node around no text and characters of several bytes. -/
theorem wide_document_renders :
    let steps : List Step :=
      [.start "Mot", .gap "…", .start "Vide", .leaf "Rien" "", .finish, .token "été", .finish]
    ∃ document, Document.ofSteps steps = .ok document ∧ document.forest.contains 1 = true ∧
      ∃ lines, (walk {} {} document.text (⟨document.forest, 1⟩ : Place)).EndsWith lines ∧
        (renderText {} {} document.text (⟨document.forest, 1⟩ : Place)).1 =
          .ok (String.intercalate "\n" (lines.map Line.plain)) := by
  intro steps
  obtain ⟨document, built, inForest⟩ : ∃ document, Document.ofSteps steps = .ok document ∧
      document.forest.contains 1 = true := ⟨_, rfl, rfl⟩
  obtain ⟨lines, ends, htext, -⟩ := (document_renders built inForest).2 {} {}
  exact ⟨document, built, inForest, lines, ends, congrArg Prod.fst htext⟩

end BoxTree
