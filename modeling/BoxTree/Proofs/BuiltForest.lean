import BoxTree.Proofs.BuilderOutcome

namespace BoxTree

/-!
# The forest of a built document

The steps of a part add the nodes of the part to the forest, and its topmost nodes to the children of the node
that is being built. Nothing else of the forest changes.

* `Forest.graft` — more nodes, some of them as children of a node that is there.
* `Builder.built` — a builder after the steps of parts, said at once.
* `Builder.builds_steps`, `Builder.builds_stepsAll` — the steps of a part, and of several, lead there.
* `Document.eq_of_ofSteps` — the document that is built is that of the parts.
-/

/-- A node with more children behind those that it has. -/
def Node.adopt (node : Node) (ids : List Nat) : Node :=
  { node with children := node.children ++ ids.toArray }

namespace Forest

variable {forest after : Forest} {label : Label} {parent : Option Nat} {id above stop i : Nat}
  {ids more : List Nat} {node : Node} {nodes others : List Node}

/-! ### Grafting -/

/-- A forest with more nodes at its end, some of them as children of a node that is there. -/
def graft (forest : Forest) (parent : Option Nat) (ids : List Nat) (nodes : List Node) : Forest :=
  ⟨forest.nodes.mapIdx (fun i node => if parent = some i then node.adopt ids else node) ++
    nodes.toArray⟩

/-- A graft adds its nodes. -/
@[simp] theorem size_graft : (forest.graft parent ids nodes).size = forest.size + nodes.length := by
  simp [graft, size]

/-- A graft puts its nodes at the end, and gives the parent its new children. -/
theorem node?_graft (i : Nat) :
    (forest.graft parent ids nodes).node? i =
      if i < forest.size then
        (forest.node? i).map fun node => if parent = some i then node.adopt ids else node
      else nodes[i - forest.size]? := by
  unfold graft node? size
  rw [Array.getElem?_append]
  simp [Array.getElem?_mapIdx]

/-- There are no nodes at numbers that are not given yet. -/
theorem node?_eq_none (h : forest.size ≤ i) : forest.node? i = none := Array.getElem?_eq_none h

/-- A graft of nothing changes nothing. -/
theorem graft_nil (forest : Forest) (parent : Option Nat) : forest.graft parent [] [] = forest := by
  refine eq_of_node?_eq fun i => ?_
  rw [node?_graft]
  split
  · cases forest.node? i <;> simp [Node.adopt]
  · next h => simp [node?_eq_none (Nat.not_lt.mp h)]

/-- Grafting twice is grafting once. -/
theorem graft_graft (hparent : ∀ above, parent = some above → above < forest.size) :
    (forest.graft parent ids nodes).graft parent more others =
      forest.graft parent (ids ++ more) (nodes ++ others) := by
  refine eq_of_node?_eq fun i => ?_
  simp only [node?_graft, size_graft]
  by_cases hold : i < forest.size
  · rw [if_pos (by omega), if_pos hold, if_pos hold, Option.map_map]
    refine congrArg (Option.map · _) (funext fun node => ?_)
    by_cases hp : parent = some i <;> simp [hp, Node.adopt]
  · have hp : parent ≠ some i := fun h => hold (hparent i h)
    rw [if_neg hold, if_neg hold, List.getElem?_append]
    by_cases hfirst : i < forest.size + nodes.length
    · rw [if_pos hfirst, if_pos (by omega)]
      simp [hp]
    · rw [if_neg hfirst, if_neg (by omega), Nat.sub_add_eq]

/-- Adding a node is grafting it. -/
theorem eq_graft_of_add (added : forest.add label parent = .ok (after, id)) :
    after = forest.graft parent [forest.size]
      [{ id := forest.size, label, parent
         position := (parent.map fun above => (forest.childList above).length).getD 0 }] := by
  obtain ⟨rfl, -, hparent⟩ := id_of_add added
  refine eq_of_node?_eq fun i => ?_
  rw [node?_add added, node?_graft]
  by_cases hold : i < forest.size
  · rw [if_neg hold.ne, if_pos hold]
    by_cases hp : parent = some i <;> cases forest.node? i <;> simp [hp, Node.adopt]
  · rw [if_neg hold]
    by_cases hi : i = forest.size
    · simp [hi]
    · have hp : parent ≠ some i := fun h => hold (hparent i h)
      have hbehind : 1 ≤ i - forest.size := by omega
      rw [if_neg hi, if_neg hp, node?_eq_none (by omega), List.getElem?_eq_none (by simpa using hbehind)]

/-- Grafting below the first node that has been grafted is grafting that node with its children. -/
theorem graft_below :
    (forest.graft parent ids (node :: nodes)).graft (some forest.size) more others =
      forest.graft parent ids (node.adopt more :: (nodes ++ others)) := by
  refine eq_of_node?_eq fun i => ?_
  simp only [node?_graft, size_graft, List.length_cons, Option.some.injEq]
  by_cases hold : i < forest.size
  · rw [if_pos (by omega), if_pos hold, if_pos hold]
    simp [hold.ne', Function.comp_def]
  · rw [if_neg hold, if_neg hold]
    by_cases hfirst : i < forest.size + (nodes.length + 1)
    · rw [if_pos hfirst]
      by_cases hi : forest.size = i
      · simp [← hi]
      · obtain ⟨k, hk⟩ := Nat.exists_eq_add_of_lt (show forest.size < i by omega)
        have hsub : i - forest.size = k + 1 := by omega
        rw [hsub, List.getElem?_cons_succ, List.getElem?_cons_succ,
          List.getElem?_append_left (by omega)]
        simp [hi]
    · obtain ⟨k, hk⟩ := Nat.exists_eq_add_of_lt (show forest.size < i by omega)
      have hsub : i - forest.size = k + 1 := by omega
      rw [if_neg hfirst, hsub, List.getElem?_cons_succ, List.getElem?_append_right (by omega)]
      congr 1
      omega

/-- Moving the end of the first node that has been grafted is grafting it with that end. -/
theorem setStop_graft :
    (forest.graft parent ids (node :: nodes)).setStop forest.size stop =
      forest.graft parent ids ({ node with label := { node.label with stop } } :: nodes) := by
  refine eq_of_node?_eq fun i => ?_
  simp only [node?_setStop, node?_graft]
  by_cases hi : i = forest.size
  · simp [hi]
  · rw [if_neg hi]
    by_cases hold : i < forest.size
    · rw [if_pos hold, if_pos hold]
    · obtain ⟨k, hk⟩ := Nat.exists_eq_add_of_lt (show forest.size < i by omega)
      have hsub : i - forest.size = k + 1 := by omega
      rw [if_neg hold, if_neg hold, hsub, List.getElem?_cons_succ, List.getElem?_cons_succ]

/-- The new children come behind those that the parent has. -/
theorem childList_graft (h : above < forest.size) :
    (forest.graft (some above) ids nodes).childList above = forest.childList above ++ ids := by
  have hnode : forest.node? above = some forest.nodes[above] := Array.getElem?_eq_getElem h
  unfold childList children?
  rw [node?_graft, if_pos h, hnode]
  simp [Node.adopt]

end Forest

/-! ### Parts -/

namespace Part

/-- There is one node for each part that is one. -/
theorem length_nodes (part : Part) (parent : Option Nat) (position id start : Nat) :
    (part.nodes parent position id start).length = part.nested.length := by
  induction part using Part.induction generalizing parent position id start with
  | gap text | leaf name text | token text => rfl
  | node name inside ih =>
    have hinside : ∀ parent position id start,
        (nodesAll parent position id start inside).length = (nestedAll inside).length := by
      induction inside with
      | nil => exact fun _ _ _ _ => rfl
      | cons part rest ihrest =>
        intro parent position id start
        rw [nodesAll, nestedAll, List.length_append, List.length_append, ih part List.mem_cons_self,
          ihrest fun part mem => ih part (List.mem_cons_of_mem _ mem)]
    rw [nodes, nested, List.length_cons, List.length_cons, hinside]

/-- Each node of parts has a record of its own. -/
theorem length_nodesAll (parts : List Part) (parent : Option Nat) (position id start : Nat) :
    (nodesAll parent position id start parts).length = (nestedAll parts).length := by
  induction parts generalizing position id start with
  | nil => rfl
  | cons part rest ih => rw [nodesAll, nestedAll, List.length_append, List.length_append, length_nodes, ih]

/-- Gaps are no nodes. -/
theorem nodes_gaps {parts : List Part} (gaps : ∀ part ∈ parts, part.isGap = true) (parent : Option Nat)
    (position id start : Nat) : roots id parts = [] ∧ nodesAll parent position id start parts = [] := by
  induction parts generalizing position id start with
  | nil => exact ⟨rfl, rfl⟩
  | cons part rest ih =>
    obtain ⟨hgap, hrest⟩ := List.forall_mem_cons.mp gaps
    cases part with
    | gap text => exact ⟨(ih hrest 0 _ 0).1, (ih hrest _ _ _).2⟩
    | leaf | token | node => cases hgap

/-- No more than one of the parts is a node, and none if there is a root already. -/
def OneRoot : Bool → List Part → Prop
  | _, [] => True
  | rooted, part :: rest =>
    if part.isGap then OneRoot rooted rest else rooted = false ∧ OneRoot true rest

/-- Behind the root there are only gaps. -/
theorem OneRoot.gaps {parts : List Part} (single : OneRoot true parts) :
    ∀ part ∈ parts, part.isGap = true := by
  induction parts with
  | nil => simp
  | cons part rest ih =>
    unfold OneRoot at single
    split at single
    · next hgap => exact List.forall_mem_cons.mpr ⟨hgap, ih single⟩
    · cases single.1

end Part

namespace Builder

variable {builder : Builder} {part : Part} {parts others : List Part}

/-- Where the next child of the innermost unfinished node will stand. -/
def position (builder : Builder) : Nat :=
  (builder.unfinished.head?.map fun above => (builder.forest.childList above).length).getD 0

/-- A builder after the steps of parts: their nodes are below the innermost unfinished one, and their text is
    written. A topmost node that is below none is the root. -/
def built (builder : Builder) (parts : List Part) : Builder :=
  let above := builder.unfinished.head?
  let ids := Part.roots builder.forest.size parts
  { builder with
    forest := builder.forest.graft above ids
      (Part.nodesAll above builder.position builder.forest.size builder.length parts)
    text := builder.text ++ Part.textAll parts
    root := if above.isNone then ids.head?.or builder.root else builder.root }

/-- There is room for the parts: below the innermost unfinished node, or else for one root. -/
structure Room (builder : Builder) (parts : List Part) : Prop where
  known : ∀ id ∈ builder.unfinished, id < builder.forest.size
  single : builder.unfinished = [] → Part.OneRoot builder.root.isSome parts

/-- Nothing is built of no parts. -/
theorem built_nil (builder : Builder) : builder.built [] = builder := by
  unfold built
  simp only [Part.roots, Part.nodesAll, Part.textAll, Forest.graft_nil, String.append_empty,
    List.head?_nil, Option.none_or, ite_self]

/-- The text grows by what is written of the parts. -/
theorem length_built (builder : Builder) (parts : List Part) :
    (builder.built parts).length = builder.length + (Part.textAll parts).utf8ByteSize :=
  String.utf8ByteSize_append ..

/-- The forest grows by the nodes of the parts. -/
theorem size_built (builder : Builder) (parts : List Part) :
    (builder.built parts).forest.size = builder.forest.size + (Part.nestedAll parts).length := by
  rw [← Part.length_nodesAll parts builder.unfinished.head? builder.position builder.forest.size
    builder.length]
  exact Forest.size_graft

/-- Where there is room, the node that is still open is one of the forest. -/
theorem Room.above (room : builder.Room parts) :
    ∀ above, builder.unfinished.head? = some above → above < builder.forest.size :=
  fun above h => room.known above (List.mem_of_mem_head? h)

/-- The next child stands behind the topmost nodes of the parts. -/
theorem Room.position_built (room : builder.Room parts) (inside : builder.unfinished ≠ []) :
    (builder.built parts).position =
      builder.position + (Part.roots builder.forest.size parts).length := by
  obtain ⟨above, outer, hunfinished⟩ := List.exists_cons_of_ne_nil inside
  have habove : above < builder.forest.size := room.above above (by simp [hunfinished])
  unfold position built
  simp only [hunfinished, List.head?_cons, Option.map_some, Option.getD_some]
  rw [Forest.childList_graft habove, List.length_append]

/-- Where there is room for parts, there is room for the first of them. -/
theorem Room.first (room : builder.Room (part :: others)) : builder.Room [part] := by
  refine ⟨room.known, fun hclosed => ?_⟩
  have hsingle := room.single hclosed
  unfold Part.OneRoot at hsingle ⊢
  split at hsingle
  · next hgap => simp [hgap, Part.OneRoot]
  · next hsolid => simp [hsolid, hsingle.1, Part.OneRoot]

/-- Where there is room for parts, there is room for the others once the first is built. -/
theorem Room.behind (room : builder.Room (part :: others)) : (builder.built [part]).Room others := by
  refine ⟨fun id mem => ?_, fun hclosed => ?_⟩
  · rw [size_built]
    exact Nat.lt_add_right _ (room.known id mem)
  · have hclosed : builder.unfinished = [] := hclosed
    have hsingle := room.single hclosed
    unfold Part.OneRoot at hsingle
    unfold built
    split at hsingle
    · next hgap => simpa [hclosed, Part.roots, hgap] using hsingle
    · next hsolid => simpa [hclosed, Part.roots, hsolid] using hsingle.2

/-- Behind a root there are only gaps. -/
theorem Room.gaps (room : builder.Room (part :: others)) (hclosed : builder.unfinished = [])
    (hsolid : part.isGap = false) : builder.root = none ∧ ∀ part ∈ others, part.isGap = true := by
  have hsingle := room.single hclosed
  unfold Part.OneRoot at hsingle
  rw [if_neg (by simp [hsolid])] at hsingle
  exact ⟨by simpa using hsingle.1, hsingle.2.gaps⟩

/-- Where the parts after the first one are built. -/
theorem Room.nodesAll_others (room : builder.Room (part :: others)) (id start : Nat) :
    Part.nodesAll builder.unfinished.head? (builder.built [part]).position id start others =
      Part.nodesAll builder.unfinished.head?
        (if part.isGap then builder.position else builder.position + 1) id start others := by
  by_cases hclosed : builder.unfinished = []
  · cases hgap : part.isGap with
    | true =>
      have hposition : (builder.built [part]).position = builder.position := by
        unfold position built
        simp [hclosed]
      rw [hposition, if_pos rfl]
    | false =>
      have hgaps := (room.gaps hclosed hgap).2
      rw [(Part.nodes_gaps hgaps _ _ id start).2, (Part.nodes_gaps hgaps _ _ id start).2]
  · rw [room.first.position_built hclosed]
    cases hgap : part.isGap <;> simp [Part.roots, hgap]

/-- Parts one after the other are parts at once. -/
theorem Room.built_cons (room : builder.Room (part :: others)) :
    (builder.built [part]).built others = builder.built (part :: others) := by
  have hsize : (builder.built [part]).forest.size = builder.forest.size + part.nested.length := by
    rw [size_built, Part.nestedAll, Part.nestedAll, List.append_nil]
  have hlength : (builder.built [part]).length = builder.length + part.text.utf8ByteSize := by
    rw [length_built, Part.textAll, Part.textAll, String.append_empty]
  have hforest : (builder.built [part]).forest.graft builder.unfinished.head?
        (Part.roots (builder.built [part]).forest.size others)
        (Part.nodesAll builder.unfinished.head? (builder.built [part]).position
          (builder.built [part]).forest.size (builder.built [part]).length others) =
      (builder.built (part :: others)).forest := by
    rw [room.nodesAll_others, hsize, hlength]
    unfold built
    dsimp only
    rw [Forest.graft_graft room.above]
    simp only [Part.roots, Part.nodesAll, List.append_nil]
  have htext : (builder.built [part]).text ++ Part.textAll others =
      (builder.built (part :: others)).text := by
    unfold built
    simp only [Part.textAll, String.append_empty, String.append_assoc]
  have hroot : (if builder.unfinished.head?.isNone then
        (Part.roots (builder.built [part]).forest.size others).head?.or (builder.built [part]).root
      else (builder.built [part]).root) = (builder.built (part :: others)).root := by
    rw [hsize]
    unfold built
    cases hunfinished : builder.unfinished with
    | cons above outer => simp
    | nil =>
      cases hgap : part.isGap with
      | true => simp [Part.roots, hgap]
      | false =>
        have hgaps := (room.gaps hunfinished hgap).2
        simp [Part.roots, hgap, (Part.nodes_gaps hgaps none 0 _ 0).1]
  unfold built at hforest htext hroot ⊢
  dsimp only at hforest htext hroot ⊢
  rw [hforest, htext, hroot]

/-! ### Runs -/

/-- A gap is written. -/
theorem write_eq_built (builder : Builder) (text : String) :
    builder.write text = builder.built [.gap text] := by
  unfold built write
  simp [Part.roots, Part.nodesAll, Part.nodes, Part.textAll, Part.text, Part.isGap, Forest.graft_nil]

/-- A leaf is added with its text. -/
theorem addLeaf_eq_built {name text : String} (room : builder.Room [.leaf name text]) :
    builder.addLeaf name text = builder.built [.leaf name text] := by
  obtain ⟨forest, hadd, hattach⟩ := attach_eq (builder.write text) room.known
    (fun hclosed => (room.gaps hclosed rfl).1) ⟨name, builder.length, (builder.write text).length⟩
  have hforest := Forest.eq_graft_of_add hadd
  have hlength : (builder.write text).length = builder.length + text.utf8ByteSize :=
    String.utf8ByteSize_append ..
  unfold addLeaf
  dsimp only
  rw [hattach, hforest, hlength]
  unfold built write
  simp [Part.roots, Part.nodesAll, Part.nodes, Part.textAll, Part.text, Part.isGap, Part.topNode]
  rfl

/-- A node as it is when it is started. -/
def newNode (builder : Builder) (name : String) : Node where
  id := builder.forest.size
  label := ⟨name, builder.length, builder.length⟩
  parent := builder.unfinished.head?
  position := builder.position

/-- A builder inside a node that has been started, and in which these nodes have been built. -/
def within (builder : Builder) (nodes : List Node) (text : String) : Builder :=
  { builder with
    forest := builder.forest.graft builder.unfinished.head? [builder.forest.size] nodes
    text
    unfinished := builder.forest.size :: builder.unfinished
    root := if builder.unfinished.head?.isNone then some builder.forest.size else builder.root }

/-- Where there is room, starting a node adds it and leaves it open. -/
theorem startNode_eq {name : String} {inside : List Part} (room : builder.Room [.node name inside]) :
    builder.startNode name = builder.within [builder.newNode name] builder.text := by
  obtain ⟨forest, hadd, hattach⟩ := attach_eq builder room.known (fun hclosed => (room.gaps hclosed rfl).1)
    ⟨name, builder.length, builder.length⟩
  unfold startNode
  rw [hattach, Forest.eq_graft_of_add hadd]
  rfl

/-- The parts inside a node become its children. -/
theorem built_within (builder : Builder) (node : Node) (inside : List Part) :
    (builder.within [node] builder.text).built inside =
      builder.within
        (node.adopt (Part.roots (builder.forest.size + 1) inside) ::
          Part.nodesAll (some builder.forest.size)
            (builder.within [node] builder.text).position (builder.forest.size + 1) builder.length inside)
        (builder.text ++ Part.textAll inside) := by
  have hsize : (builder.within [node] builder.text).forest.size = builder.forest.size + 1 :=
    Forest.size_graft
  unfold built
  rw [hsize]
  unfold within
  simp only [List.head?_cons, Forest.graft_below, Option.isNone_some, List.nil_append]
  rfl

/-- A node that has just been started has no children. -/
theorem position_within (builder : Builder) (name : String) :
    (builder.within [builder.newNode name] builder.text).position = 0 := by
  have hchildren : Forest.childList (builder.within [builder.newNode name] builder.text).forest
      builder.forest.size = [] := by
    unfold Forest.childList Forest.children? within
    rw [Forest.node?_graft, if_neg (Nat.lt_irrefl _), Nat.sub_self]
    rfl
  unfold position
  show (Forest.childList _ builder.forest.size).length = 0
  rw [hchildren, List.length_nil]

/-- The end of a node is where the text ends. -/
theorem finishNode_within (builder : Builder) (node : Node) (nodes : List Node) (text : String) :
    (builder.within (node :: nodes) text).finishNode =
      { builder with
        forest := builder.forest.graft builder.unfinished.head? [builder.forest.size]
          ({ node with label := { node.label with stop := text.utf8ByteSize } } :: nodes)
        text
        root := if builder.unfinished.head?.isNone then some builder.forest.size else builder.root } := by
  unfold finishNode within
  simp only [Forest.setStop_graft]
  rfl

/-- Steps that lead to these parts. -/
def Builds (steps : List Step) (parts : List Part) : Prop :=
  ∀ builder : Builder, builder.Room parts → builder.run steps = builder.built parts

/-- A node is built around the parts inside it. -/
theorem builds_node (name : String) {inside : List Part} (builds : Builds (Part.stepsAll inside) inside) :
    Builds (Part.steps (.node name inside)) [.node name inside] := by
  intro builder room
  have hsteps : builder.run (Part.steps (.node name inside)) =
      ((builder.startNode name).run (Part.stepsAll inside)).finishNode := by
    rw [Part.steps, ← List.singleton_append, run_append, run_append]
    rfl
  have hroom : (builder.startNode name).Room inside := by
    rw [startNode_eq room]
    refine ⟨fun id mem => ?_, fun hclosed => by cases hclosed⟩
    show id < Forest.size (Forest.graft _ _ _ _)
    rw [Forest.size_graft]
    rcases List.mem_cons.mp mem with rfl | mem
    · exact Nat.lt_succ_self _
    · exact Nat.lt_succ_of_lt (room.known id mem)
  rw [hsteps, builds _ hroom, startNode_eq room, built_within, position_within, finishNode_within,
    String.utf8ByteSize_append]
  unfold built
  simp [Part.roots, Part.nodesAll, Part.nodes, Part.textAll, Part.text, Part.isGap, Part.topNode,
    Part.name, Part.inside, Node.adopt, newNode, length]

/-- What builds each part builds all of them. -/
theorem builds_stepsAll (builds : ∀ part ∈ parts, Builds part.steps [part]) :
    Builds (Part.stepsAll parts) parts := by
  induction parts with
  | nil => exact fun builder _ => (built_nil builder).symm
  | cons part rest ih =>
    obtain ⟨hfirst, hrest⟩ := List.forall_mem_cons.mp builds
    intro builder room
    rw [Part.stepsAll, run_append, hfirst builder room.first, ih hrest _ room.behind, room.built_cons]

/-- **The steps of a part build it.** -/
theorem builds_steps (part : Part) : Builds part.steps [part] := by
  induction part using Part.induction with
  | gap text => exact fun builder _ => write_eq_built builder text
  | leaf name text => exact fun builder room => addLeaf_eq_built room
  | token text =>
    intro builder room
    exact (addLeaf_eq_built ⟨room.known, room.single⟩ :
      builder.addLeaf text text = builder.built [.leaf text text])
  | node name inside ih => exact builds_node name (builds_stepsAll ih)

end Builder

/-! ### Documents -/

namespace Part

/-- Gaps take no numbers, and no room for a root. -/
theorem roots_behind_gaps {before : List Part} (gaps : ∀ part ∈ before, part.isGap = true) (id : Nat)
    (parts : List Part) : roots id (before ++ parts) = roots id parts := by
  induction before with
  | nil => rfl
  | cons part rest ih =>
    obtain ⟨hgap, hrest⟩ := List.forall_mem_cons.mp gaps
    cases part with
    | gap text => exact ih hrest
    | leaf | token | node => cases hgap

/-- Gaps before parts make no second root. -/
theorem oneRoot_of_gaps {rooted : Bool} {before parts : List Part}
    (gaps : ∀ part ∈ before, part.isGap = true) (single : OneRoot rooted parts) :
    OneRoot rooted (before ++ parts) := by
  induction before with
  | nil => exact single
  | cons part rest ih =>
    obtain ⟨hgap, hrest⟩ := List.forall_mem_cons.mp gaps
    rw [List.cons_append, OneRoot, if_pos hgap]
    exact ih hrest

/-- A single tree between gaps has one root. -/
theorem Single.oneRoot {parts : List Part} (single : Single parts) : OneRoot false parts := by
  obtain ⟨before, root, behind, rfl, solid, hbefore, hbehind⟩ := single
  refine oneRoot_of_gaps hbefore ?_
  rw [OneRoot, if_neg (by simp [solid]), ← List.append_nil behind]
  exact ⟨rfl, oneRoot_of_gaps hbehind trivial⟩

/-- The root is the first node. -/
theorem Single.roots {parts : List Part} (single : Single parts) : roots 0 parts = [0] := by
  obtain ⟨before, root, behind, rfl, solid, hbefore, hbehind⟩ := single
  rw [roots_behind_gaps hbefore, Part.roots, (nodes_gaps hbehind none 0 _ 0).1, solid]
  rfl

/-- The document of parts. -/
def document (parts : List Part) : Document where
  forest := ⟨(nodesAll none 0 0 0 parts).toArray⟩
  root := 0
  text := textAll parts

end Part

namespace Document

variable {parts : List Part} {document : Document}

/-- Parts that a document can be built of are a single tree between gaps. -/
theorem single_of_ofSteps (built : ofSteps (Part.stepsAll parts) = .ok document) : Part.Single parts := by
  obtain ⟨faultless, -, step, mem, adds⟩ :=
    (Step.spellsTree_iff _).mp ((exists_ofSteps_iff _).mp ⟨document, built⟩)
  exact Part.single_of_faultless faultless mem adds

/-- **The document that steps describe is that of the parts that they build.** -/
theorem eq_of_ofSteps (built : ofSteps (Part.stepsAll parts) = .ok document) :
    document = Part.document parts := by
  have single := single_of_ofSteps built
  have hrun : Builder.run {} (Part.stepsAll parts) = Builder.built {} parts :=
    Builder.builds_stepsAll (fun part _ => Builder.builds_steps part) {}
      ⟨by simp, fun _ => single.oneRoot⟩
  have hbuilt : Builder.built {} parts =
      { forest := (Part.document parts).forest, text := Part.textAll parts, root := some 0 } := by
    unfold Builder.built
    simp only [show Forest.size {} = 0 from rfl, single.roots]
    simp [Forest.graft, Part.document, Builder.position, Builder.length]
  unfold ofSteps at built
  rw [hrun, hbuilt] at built
  unfold Builder.build Document.ofForest at built
  dsimp only at built
  split at built
  · exact (Except.ok.inj built).symm
  · cases built

end Document

end BoxTree
