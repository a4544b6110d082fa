import BoxTree.Proofs.PartNodes

namespace BoxTree

/-!
# Built documents nest as their steps do

* `Part.Single.nodesAll` — the nodes of parts that have one root.
* `Document.Nests` — a document nests as the steps that describe it do.
* `Document.nests_of_ofSteps` — every document that is built does.
* `built_document_nests` — the same, and the nodes of the document by recursion on the nesting.
-/

namespace Part

/-- Gaps have no nodes, so those behind them begin where their text ends. -/
theorem nodesAll_behind_gaps {before : List Part} (gaps : ∀ part ∈ before, part.isGap = true)
    (parent : Option Nat) (position id start : Nat) (parts : List Part) :
    nodesAll parent position id start (before ++ parts) =
      nodesAll parent position id (start + (textAll before).utf8ByteSize) parts := by
  induction before generalizing start with
  | nil => rfl
  | cons part rest ih =>
    obtain ⟨hgap, hrest⟩ := List.forall_mem_cons.mp gaps
    cases part with
    | gap text =>
      have hsize : (textAll (.gap text :: rest)).utf8ByteSize =
          text.utf8ByteSize + (textAll rest).utf8ByteSize := String.utf8ByteSize_append ..
      rw [hsize, ← Nat.add_assoc]
      exact ih hrest (start + text.utf8ByteSize)
    | leaf | token | node => cases hgap

/-- Only the root has no parent. -/
theorem Single.nodesAll {parts : List Part} (single : Single parts) :
    ∃ root start below, nodesAll none 0 0 0 parts = topNode none 0 0 start root :: below ∧
      ∀ node ∈ below, node.parent ≠ none := by
  obtain ⟨before, root, behind, rfl, solid, hbefore, hbehind⟩ := single
  have hnodes : Part.nodesAll none 0 0 0 (before ++ root :: behind) =
      root.nodes none 0 0 (textAll before).utf8ByteSize := by
    rw [nodesAll_behind_gaps hbefore, Part.nodesAll, (nodes_gaps hbehind none _ _ _).2, List.append_nil,
      Nat.zero_add]
  refine ⟨root, (textAll before).utf8ByteSize, ?_⟩
  rw [hnodes]
  cases root with
  | gap => cases solid
  | leaf | token => exact ⟨[], rfl, by simp⟩
  | node name inside => exact ⟨_, rfl, parents_nodesAll inside 0 0 1 _⟩

end Part

namespace Document

variable {document : Document} {steps : List Step}

/-- A document nests as the steps that describe it do. -/
structure Nests (document : Document) (steps : List Step) : Prop where
  /-- All texts are written, those of gaps included, also outside the root. -/
  text : document.text = Step.written steps
  root : document.root = 0
  /-- Each step that adds a node has added one, -/
  size : document.forest.size = Step.added steps
  /-- and the numbers of the nodes are in the order of nesting. -/
  preorder : document.forest.preorder document.root = .ok (List.range document.forest.size)
  /-- A node has the number of the step that added it, and the name of that step. Its steps end with those
      that finish it, its span is what they write, and its children are the nodes right inside it. -/
  node : ∀ id < document.forest.size, ∃ before part behind node,
    steps = before ++ Part.steps part ++ behind ∧ part.isGap = false ∧ Step.added before = id ∧
      document.forest.node? id = some node ∧ node.id = id ∧ node.label.name = part.name ∧
      node.children.toList = Part.roots (id + 1) part.inside ∧
      node.label.start = (Step.written before).utf8ByteSize ∧
      Text.slice document.text node.label.start node.label.stop = .ok (Step.written part.steps)
  /-- Parents name the same links as children: a node stands in the list of its parent, in its place. -/
  links : ∀ id node, document.forest.node? id = some node →
    (node.parent = none ↔ id = 0) ∧ (id = 0 → node.position = 0) ∧
      ∀ above, node.parent = some above →
        (document.forest.childList above)[node.position]? = some id
  /-- Spans of siblings are in order, none begins before the one before it ends, and all are within the span
      of their parent. -/
  spans : ∀ above,
    (∀ child ∈ document.forest.childList above,
      (document.forest.label above).start ≤ (document.forest.label child).start ∧
        (document.forest.label child).start ≤ (document.forest.label child).stop ∧
        (document.forest.label child).stop ≤ (document.forest.label above).stop) ∧
      (document.forest.childList above).Pairwise fun a b =>
        (document.forest.label a).stop ≤ (document.forest.label b).start

variable {parts : List Part}

/-- A document has a node for each part that is none of its gaps, however deep. -/
theorem size_document (parts : List Part) :
    (Part.document parts).forest.size = (Part.nestedAll parts).length := by
  rw [← Part.length_nodesAll parts none 0 0 0]
  simp [Part.document, Forest.size]

/-- The nodes of a document are those of its parts, counted from zero. -/
theorem holds_document (parts : List Part) :
    (Part.document parts).forest.Holds 0 (Part.nodesAll none 0 0 0 parts) := by
  intro i node hnode
  simpa [Part.document, Forest.node?] using hnode

/-- Every node stands among the steps and among the nodes as a part of its own. -/
theorem exists_part {id : Nat} (hid : id < (Part.document parts).forest.size) :
    ∃ (part : Part) (parent : Option Nat) (position start : Nat), part.isGap = false ∧
      (Part.document parts).forest.Holds id (part.nodes parent position id start) ∧
      ∃ before behind, Part.stepsAll parts = before ++ part.steps ++ behind ∧ Step.added before = id ∧
        start = (Step.written before).utf8ByteSize := by
  rw [size_document] at hid
  obtain ⟨part, solid, before, behind, parent, position, left, right, hsteps, hadded, hleft, hnodes⟩ :=
    Part.exists_nestedAll_of (fun part _ => Part.exists_nested part) none 0 0 0 hid
  have holds := holds_document parts
  rw [hnodes] at holds
  have hpart := holds.append.1.append.2
  rw [hleft] at hpart
  simp only [Nat.zero_add] at hpart
  exact ⟨part, parent, position, _, solid, hpart, before, behind, hsteps, hadded, rfl⟩

/-- The numbers of the nodes are in the order in which a walk of the tree comes by them. -/
theorem preorder_document (single : Part.Single parts) :
    (Part.document parts).forest.preorder 0 =
      .ok (List.range (Part.document parts).forest.size) := by
  obtain ⟨root, start, below, hnodes, -⟩ := single.nodesAll
  have holds := holds_document parts
  have hroot : (Part.document parts).forest.node? 0 = some (Part.topNode none 0 0 start root) := by
    rw [hnodes] at holds
    exact holds.cons.1
  have hall := Part.preorderFrom_roots_of (fun part _ _ _ _ _ holds => Part.preorderFrom_roots part holds)
    holds 0 []
  rw [single.roots, Nat.zero_add] at hall
  unfold Forest.preorder
  rw [hroot, size_document]
  dsimp only
  rw [show [0] = [0] ++ [] from rfl, hall, List.range_eq_range']
  simp [Forest.preorderFrom, Except.map]

/-- The span of a node is what its steps write. -/
theorem slice_document {part : Part} {before behind : List Step}
    (hsteps : Part.stepsAll parts = before ++ part.steps ++ behind) :
    Text.slice (Part.document parts).text (Step.written before).utf8ByteSize
        ((Step.written before).utf8ByteSize + part.text.utf8ByteSize) =
      .ok (Step.written part.steps) := by
  have htext : (Part.document parts).text =
      Step.written before ++ part.text ++ Step.written behind := by
    rw [← Part.written_steps, ← Step.written_append, ← Step.written_append, ← hsteps,
      Part.written_stepsAll]
    rfl
  rw [htext, ← String.utf8ByteSize_append, Text.slice, Text.slice?_append, Part.written_steps]

/-- The spans of the children of a node are in order, apart, and within the span of the node. -/
theorem spans_document (above : Nat) :
    let forest := (Part.document parts).forest
    (∀ child ∈ forest.childList above,
      (forest.label above).start ≤ (forest.label child).start ∧
        (forest.label child).start ≤ (forest.label child).stop ∧
        (forest.label child).stop ≤ (forest.label above).stop) ∧
      (forest.childList above).Pairwise fun a b => (forest.label a).stop ≤ (forest.label b).start := by
  intro forest
  by_cases habove : above < forest.size
  · obtain ⟨part, parent, position, start, solid, holds, -⟩ := exists_part habove
    obtain ⟨below, hnodes⟩ := Part.nodes_eq_cons solid parent position above start
    have hnode : forest.node? above = some (Part.topNode parent position above start part) := by
      rw [hnodes] at holds
      exact holds.cons.1
    have hchildren : forest.childList above = Part.roots (above + 1) part.inside := by
      simp [Forest.childList, Forest.children?, hnode, Part.topNode]
    have hlabel : forest.label above = ⟨part.name, start, start + part.text.utf8ByteSize⟩ := by
      rw [Forest.label_eq, hnode]
      rfl
    rw [hchildren, hlabel]
    cases part with
    | gap => cases solid
    | leaf | token => exact ⟨by simp [Part.inside, Part.roots], .nil⟩
    | node name inside => exact Part.spans_roots holds.cons.2
  · have hnone : forest.childList above = [] := by
      simp [Forest.childList, Forest.children?, Forest.node?_eq_none (Nat.not_lt.mp habove)]
    rw [hnone]
    exact ⟨by simp, .nil⟩

/-- The first node is the root, and all others have parents. -/
theorem parent_document (single : Part.Single parts) {id : Nat} {node : Node}
    (hnode : (Part.document parts).forest.node? id = some node) :
    (node.parent = none ↔ id = 0) ∧ (id = 0 → node.position = 0) := by
  obtain ⟨root, start, below, hnodes, hbelow⟩ := single.nodesAll
  have hmem : (Part.topNode none 0 0 start root :: below)[id]? = some node := by
    rw [← hnodes]
    simpa [Part.document, Forest.node?] using hnode
  cases id with
  | zero =>
    obtain rfl := Option.some.inj hmem
    exact ⟨iff_of_true rfl rfl, fun _ => rfl⟩
  | succ id =>
    have hparent := hbelow node (List.mem_of_getElem? hmem)
    exact ⟨iff_of_false hparent (Nat.succ_ne_zero id), fun h => absurd h (Nat.succ_ne_zero id)⟩

/-- **Every document that is built nests as its steps do.** -/
theorem nests_of_ofSteps (built : ofSteps (Part.stepsAll parts) = .ok document) :
    document.Nests (Part.stepsAll parts) := by
  have single := single_of_ofSteps built
  have linked := (spans_ofSteps built).grown.linked
  obtain rfl := eq_of_ofSteps built
  refine ⟨(Part.written_stepsAll parts).symm, rfl, ?_, preorder_document single, fun id hid => ?_,
    fun id node hnode => ?_, spans_document⟩
  · rw [size_document, Part.added_stepsAll]
  · obtain ⟨part, parent, position, start, solid, holds, before, behind, hsteps, hadded, rfl⟩ :=
      exists_part hid
    obtain ⟨below, hnodes⟩ := Part.nodes_eq_cons solid parent position id
      (Step.written before).utf8ByteSize
    rw [hnodes] at holds
    exact ⟨before, part, behind, _, hsteps, solid, hadded, holds.cons.1, rfl, rfl, rfl, rfl,
      slice_document hsteps⟩
  · obtain ⟨hroot, hposition⟩ := parent_document single hnode
    refine ⟨hroot, hposition, fun above habove => ?_⟩
    have hparent : (Part.document parts).forest.parent? id = some above := by
      rw [Forest.parent?, hnode]
      exact habove
    have hplace := linked.position hparent
    unfold Place.position Place.node? at hplace
    dsimp only at hplace
    rw [hnode] at hplace
    exact hplace

end Document

/-- **A document that is built nests as its steps do.** The steps are those of parts, that is of gaps and of
    nodes with the parts inside them, and whatever parts they are the steps of, the nodes of the document are
    the nodes of these, with their numbers, names, links and spans. -/
theorem built_document_nests {steps : List Step} {document : Document}
    (built : Document.ofSteps steps = .ok document) :
    document.Nests steps ∧ (∃ parts, Part.stepsAll parts = steps) ∧
      ∀ parts, Part.stepsAll parts = steps →
        document.forest.nodes.toList = Part.nodesAll none 0 0 0 parts := by
  have hparts : ∃ parts, Part.stepsAll parts = steps := by
    obtain ⟨faultless, hclosed, -⟩ :=
      (Step.spellsTree_iff _).mp ((Document.exists_ofSteps_iff _).mp ⟨document, built⟩)
    exact Part.exists_stepsAll faultless hclosed
  refine ⟨?_, hparts, ?_⟩
  · obtain ⟨parts, rfl⟩ := hparts
    exact Document.nests_of_ofSteps built
  · rintro parts rfl
    rw [Document.eq_of_ofSteps built]
    rfl

/-- A pair between gaps, the first part of which takes two bytes. -/
theorem pair_nests :
    let steps : List Step :=
      [.gap " ", .start "Pair", .leaf "Left" "ä", .gap ",", .token "b", .finish, .gap "\n"]
    let document : Document := {
      forest := ⟨#[
        { id := 0, label := ⟨"Pair", 1, 5⟩, parent := none, children := #[1, 2] },
        { id := 1, label := ⟨"Left", 1, 3⟩, parent := some 0 },
        { id := 2, label := ⟨"b", 4, 5⟩, parent := some 0, position := 1 }]⟩
      root := 0
      text := " ä,b\n" }
    Document.ofSteps steps = .ok document ∧ document.Nests steps ∧
      document.forest.nodes.toList = Part.nodesAll none 0 0 0
        [.gap " ", .node "Pair" [.leaf "Left" "ä", .gap ",", .token "b"], .gap "\n"] := by
  intro steps document
  have built : Document.ofSteps steps = .ok document := by decide +kernel
  obtain ⟨hnests, -, hnodes⟩ := built_document_nests built
  exact ⟨built, hnests, hnodes _ rfl⟩

end BoxTree
