import BoxTree.Proofs.BuiltForest

namespace BoxTree

/-!
# The nodes of parts

Each node of a part stands where its own steps stand among the steps of the part, and its span is what they
write. The children of a node are those of the parts inside it that are nodes, and all numbers in between are
those of the nodes further inside.

* `Part.written_steps` — what is written of a part is what its steps write.
* `Part.exists_nested` — where a node stands among the steps and among the nodes of a part.
* `Forest.Holds` — a forest holds nodes under their numbers.
* `Part.spans_roots` — the spans of the topmost nodes of parts are in order, and within what is written.
* `Part.preorderFrom_roots` — going through parts in order of nesting is going through their numbers.
-/

namespace Step

@[simp] theorem written_nil : written [] = "" := rfl

/-- Steps write one after the other. -/
@[simp] theorem written_append (first second : List Step) :
    written (first ++ second) = written first ++ written second := by
  unfold written
  rw [List.map_append, String.join_append]

@[simp] theorem written_cons (step : Step) (rest : List Step) :
    written (step :: rest) = step.text ++ written rest := by
  unfold written
  rw [List.map_cons, String.join_cons]

@[simp] theorem added_nil : added [] = 0 := rfl

/-- Nodes are counted step by step. -/
@[simp] theorem added_append (first second : List Step) :
    added (first ++ second) = added first + added second := List.countP_append

/-- A step adds one node or none. -/
theorem added_cons (step : Step) (rest : List Step) :
    added (step :: rest) = (if step.addsNode then 1 else 0) + added rest := by
  unfold added
  rw [List.countP_cons, Nat.add_comm]

end Step

namespace Part

/-! ### Steps and texts -/

/-- Parts write what each of them writes. -/
theorem written_stepsAll_of {parts : List Part}
    (h : ∀ part ∈ parts, Step.written part.steps = part.text) :
    Step.written (stepsAll parts) = textAll parts := by
  induction parts with
  | nil => rfl
  | cons part rest ih =>
    obtain ⟨hfirst, hrest⟩ := List.forall_mem_cons.mp h
    rw [stepsAll, textAll, Step.written_append, hfirst, ih hrest]

/-- **What is written of a part is what its steps write.** -/
theorem written_steps (part : Part) : Step.written part.steps = part.text := by
  induction part using Part.induction with
  | gap text | leaf name text | token text => simp [steps, Part.text, Step.text]
  | node name inside ih => simp [steps, Part.text, Step.text, written_stepsAll_of ih]

/-- What is written of several parts is what their steps write. -/
theorem written_stepsAll (parts : List Part) : Step.written (stepsAll parts) = textAll parts :=
  written_stepsAll_of fun part _ => written_steps part

/-- Parts add the nodes that each of them adds. -/
theorem added_stepsAll_of {parts : List Part}
    (h : ∀ part ∈ parts, Step.added part.steps = part.nested.length) :
    Step.added (stepsAll parts) = (nestedAll parts).length := by
  induction parts with
  | nil => rfl
  | cons part rest ih =>
    obtain ⟨hfirst, hrest⟩ := List.forall_mem_cons.mp h
    rw [stepsAll, nestedAll, Step.added_append, List.length_append, hfirst, ih hrest]

/-- Each node of a part is added by one step. -/
theorem added_steps (part : Part) : Step.added part.steps = part.nested.length := by
  induction part using Part.induction with
  | gap text | leaf name text | token text => rfl
  | node name inside ih =>
    simp [steps, Step.added_cons, Step.addsNode, nested, added_stepsAll_of ih, Nat.add_comm]

/-- Each node of several parts is added by one step. -/
theorem added_stepsAll (parts : List Part) : Step.added (stepsAll parts) = (nestedAll parts).length :=
  added_stepsAll_of fun part _ => added_steps part

/-! ### The place of a node -/

/-- A part that is a node stands in others: there are these steps and these nodes before it, and others
    behind it. -/
def StandsIn (part : Part) (steps : List Step) (nodes : List Node) (id start i : Nat) : Prop :=
  part.isGap = false ∧ ∃ before behind parent position left right,
    steps = before ++ part.steps ++ behind ∧ Step.added before = i ∧ left.length = i ∧
      nodes = left ++
        part.nodes parent position (id + i) (start + (Step.written before).utf8ByteSize) ++ right

/-- A part that is a node stands in itself, with nothing around it. -/
theorem standsIn_self {part : Part} (solid : part.isGap = false) (parent : Option Nat)
    (position id start : Nat) :
    StandsIn part part.steps (part.nodes parent position id start) id start 0 :=
  ⟨solid, [], [], parent, position, [], [], by simp, rfl, rfl, by simp⟩

/-- If every node of each of several parts stands in its part, it stands in them all: behind the steps and
    nodes of the parts before its own. -/
theorem exists_nestedAll_of {parts : List Part}
    (h : ∀ part ∈ parts, ∀ parent position id start, ∀ i < part.nested.length,
      ∃ sub, StandsIn sub part.steps (part.nodes parent position id start) id start i)
    (parent : Option Nat) (position id start : Nat) {i : Nat} (hi : i < (nestedAll parts).length) :
    ∃ sub, StandsIn sub (stepsAll parts) (nodesAll parent position id start parts) id start i := by
  induction parts generalizing position id start i with
  | nil => simp [nestedAll] at hi
  | cons part rest ih =>
    obtain ⟨hfirst, hrest⟩ := List.forall_mem_cons.mp h
    rw [nestedAll, List.length_append] at hi
    rw [stepsAll, nodesAll]
    by_cases hpart : i < part.nested.length
    · obtain ⟨sub, solid, before, behind, parent', position', left, right, hsteps, hadded, hleft, hnodes⟩ :=
        hfirst parent position id start i hpart
      refine ⟨sub, solid, before, behind ++ stepsAll rest, parent', position', left,
        right ++ nodesAll parent (if part.isGap then position else position + 1)
          (id + part.nested.length) (start + part.text.utf8ByteSize) rest, ?_, hadded, hleft, ?_⟩
      · rw [hsteps, List.append_assoc]
      · rw [hnodes, List.append_assoc]
    · -- The node is one of those behind the first part.
      obtain ⟨k, rfl⟩ := Nat.exists_eq_add_of_le (Nat.not_lt.mp hpart)
      obtain ⟨sub, solid, before, behind, parent', position', left, right, hsteps, hadded, hleft, hnodes⟩ :=
        ih hrest (if part.isGap then position else position + 1) (id + part.nested.length)
          (start + part.text.utf8ByteSize) (i := k) (by omega)
      refine ⟨sub, solid, part.steps ++ before, behind, parent', position',
        part.nodes parent position id start ++ left, right, by simp [hsteps], ?_, ?_, ?_⟩
      · rw [Step.added_append, added_steps, hadded]
      · rw [List.length_append, length_nodes, hleft]
      · rw [hnodes, Step.written_append, String.utf8ByteSize_append, written_steps]
        simp only [List.append_assoc, Nat.add_assoc]

/-- **Every node of a part stands in it as a part of its own.** -/
theorem exists_nested (part : Part) (parent : Option Nat) (position id start : Nat) {i : Nat}
    (hi : i < part.nested.length) :
    ∃ sub, StandsIn sub part.steps (part.nodes parent position id start) id start i := by
  induction part using Part.induction generalizing parent position id start i with
  | gap text => simp [nested] at hi
  | leaf name text | token text =>
    obtain rfl : i = 0 := Nat.lt_one_iff.mp hi
    exact ⟨_, standsIn_self rfl parent position id start⟩
  | node name inside ih =>
    cases i with
    | zero => exact ⟨_, standsIn_self rfl parent position id start⟩
    | succ i =>
      have hinside : i < (nestedAll inside).length := by
        rw [nested, List.length_cons] at hi
        omega
      obtain ⟨sub, solid, before, behind, parent', position', left, right, hsteps, hadded, hleft, hnodes⟩ :=
        exists_nestedAll_of (fun part mem parent position id start _ hi =>
          ih part mem parent position id start hi) (some id) 0 (id + 1) start hinside
      refine ⟨sub, solid, .start name :: before, behind ++ [.finish], parent', position',
        topNode parent position id start (.node name inside) :: left, right, ?_, ?_, ?_, ?_⟩
      · simp [steps, hsteps]
      · rw [Step.added_cons, hadded, Nat.add_comm]
        rfl
      · rw [List.length_cons, hleft]
      · rw [nodes, hnodes]
        simp [Step.text, Nat.add_assoc, Nat.add_comm 1]

/-- A part that is a node has its topmost node first. -/
theorem nodes_eq_cons {part : Part} (solid : part.isGap = false) (parent : Option Nat)
    (position id start : Nat) :
    ∃ below, part.nodes parent position id start = topNode parent position id start part :: below := by
  cases part with
  | gap => cases solid
  | leaf | token | node => exact ⟨_, rfl⟩

/-- If no part leaves a node without a parent, neither do several in turn. -/
theorem parents_nodesAll_of {parts : List Part}
    (h : ∀ part ∈ parts, ∀ above position id start,
      ∀ node ∈ part.nodes (some above) position id start, node.parent ≠ none)
    (above position id start : Nat) :
    ∀ node ∈ nodesAll (some above) position id start parts, node.parent ≠ none := by
  induction parts generalizing position id start with
  | nil => simp [nodesAll]
  | cons part rest ih =>
    obtain ⟨hfirst, hrest⟩ := List.forall_mem_cons.mp h
    intro node mem
    rcases List.mem_append.mp mem with mem | mem
    · exact hfirst above position id start node mem
    · exact ih hrest _ _ _ node mem

/-- Inside a node, every node has a parent. -/
theorem parents_nodes (part : Part) (above position id start : Nat) :
    ∀ node ∈ part.nodes (some above) position id start, node.parent ≠ none := by
  induction part using Part.induction generalizing above position id start with
  | gap text => simp [nodes]
  | leaf name text | token text => simp [nodes, topNode]
  | node name inside ih =>
    exact List.forall_mem_cons.mpr ⟨by simp [topNode], parents_nodesAll_of ih id 0 (id + 1) start⟩

/-- Inside a node, every node of several parts has a parent. -/
theorem parents_nodesAll (parts : List Part) (above position id start : Nat) :
    ∀ node ∈ nodesAll (some above) position id start parts, node.parent ≠ none :=
  parents_nodesAll_of (fun part _ => parents_nodes part) above position id start

end Part

/-! ### Forests with the nodes of parts -/

namespace Forest

variable {forest : Forest} {id : Nat} {node : Node} {first second : List Node}

/-- A forest holds nodes under their numbers, from `id` on. -/
def Holds (forest : Forest) (id : Nat) (nodes : List Node) : Prop :=
  ∀ i (node : Node), nodes[i]? = some node → forest.node? (id + i) = some node

/-- A forest that holds nodes holds the first of them, and the others from the number where they begin. -/
theorem Holds.append (holds : forest.Holds id (first ++ second)) :
    forest.Holds id first ∧ forest.Holds (id + first.length) second := by
  refine ⟨fun i node hnode => holds i node ?_, fun i node hnode => ?_⟩
  · rw [List.getElem?_append_left (List.getElem?_eq_some_iff.mp hnode).1]
    exact hnode
  · rw [Nat.add_assoc]
    refine holds _ node ?_
    rw [List.getElem?_append_right (Nat.le_add_right _ _), Nat.add_sub_cancel_left]
    exact hnode

/-- The first of the nodes is the one with the first number. -/
theorem Holds.cons (holds : forest.Holds id (node :: first)) :
    forest.node? id = some node ∧ forest.Holds (id + 1) first :=
  ⟨holds 0 node rfl, (show forest.Holds id ([node] ++ first) from holds).append.2⟩

end Forest

namespace Part

variable {forest : Forest}

/-- **The spans of the topmost nodes of parts** are in order, and within what is written of the parts. -/
theorem spans_roots {parts : List Part} {parent : Option Nat} {position id start : Nat}
    (holds : forest.Holds id (nodesAll parent position id start parts)) :
    (∀ child ∈ roots id parts, start ≤ (forest.label child).start ∧
        (forest.label child).start ≤ (forest.label child).stop ∧
        (forest.label child).stop ≤ start + (textAll parts).utf8ByteSize) ∧
      (roots id parts).Pairwise fun a b => (forest.label a).stop ≤ (forest.label b).start := by
  induction parts generalizing position id start with
  | nil => exact ⟨by simp [roots], .nil⟩
  | cons part rest ih =>
    obtain ⟨hpart, hrest⟩ := holds.append
    rw [length_nodes] at hrest
    obtain ⟨hwithin, hordered⟩ := ih hrest
    have hsize : (textAll (part :: rest)).utf8ByteSize =
        part.text.utf8ByteSize + (textAll rest).utf8ByteSize := String.utf8ByteSize_append ..
    cases hgap : part.isGap with
    | true =>
      simp only [roots, hgap, if_true, List.nil_append]
      refine ⟨fun child mem => ?_, hordered⟩
      have := hwithin child mem
      omega
    | false =>
      obtain ⟨below, hnodes⟩ := nodes_eq_cons hgap parent position id start
      rw [hnodes] at hpart
      have hlabel : forest.label id = ⟨part.name, start, start + part.text.utf8ByteSize⟩ := by
        rw [Forest.label_eq, hpart.cons.1]
        rfl
      simp only [roots, hgap, Bool.false_eq_true, if_false, List.singleton_append, List.forall_mem_cons,
        List.pairwise_cons]
      rw [hlabel]
      refine ⟨⟨by dsimp only; omega, fun child mem => ?_⟩, fun child mem => (hwithin child mem).1, hordered⟩
      have := hwithin child mem
      omega

/-- If going through each of several parts is going through its numbers, then going through them in turn is
    going through all their numbers. -/
theorem preorderFrom_roots_of {parts : List Part}
    (h : ∀ part ∈ parts, ∀ parent position id start,
      forest.Holds id (part.nodes parent position id start) → ∀ fuel stack,
        forest.preorderFrom (fuel + part.nested.length) (roots id [part] ++ stack) =
          (forest.preorderFrom fuel stack).map (List.range' id part.nested.length ++ ·))
    {parent : Option Nat} {position id start : Nat}
    (holds : forest.Holds id (nodesAll parent position id start parts)) (fuel : Nat) (stack : List Nat) :
    forest.preorderFrom (fuel + (nestedAll parts).length) (roots id parts ++ stack) =
      (forest.preorderFrom fuel stack).map (List.range' id (nestedAll parts).length ++ ·) := by
  induction parts generalizing position id start with
  | nil =>
    show forest.preorderFrom fuel stack = _
    cases forest.preorderFrom fuel stack <;> rfl
  | cons part rest ih =>
    obtain ⟨hfirst, hrest⟩ := List.forall_mem_cons.mp h
    obtain ⟨hpart, hbehind⟩ := holds.append
    rw [length_nodes] at hbehind
    have hlength : fuel + (nestedAll (part :: rest)).length =
        fuel + (nestedAll rest).length + part.nested.length := by
      rw [nestedAll, List.length_append]
      omega
    have hroots : roots id (part :: rest) ++ stack =
        roots id [part] ++ (roots (id + part.nested.length) rest ++ stack) := by
      simp [roots]
    rw [hlength, hroots, hfirst _ _ _ _ hpart, ih hrest hbehind, nestedAll, List.length_append,
      ← List.range'_append_1]
    cases forest.preorderFrom fuel stack with
    | error => rfl
    | ok => simp only [Except.map, List.append_assoc]

/-- **Going through parts in order of nesting is going through their numbers.** -/
theorem preorderFrom_roots (part : Part) {parent : Option Nat} {position id start : Nat}
    (holds : forest.Holds id (part.nodes parent position id start)) (fuel : Nat) (stack : List Nat) :
    forest.preorderFrom (fuel + part.nested.length) (roots id [part] ++ stack) =
      (forest.preorderFrom fuel stack).map (List.range' id part.nested.length ++ ·) := by
  induction part using Part.induction generalizing parent position id start fuel stack with
  | gap text =>
    show forest.preorderFrom fuel stack = _
    cases forest.preorderFrom fuel stack <;> rfl
  | leaf name text | token text =>
    have hnode := holds.cons.1
    show forest.preorderFrom (fuel + 1) (id :: stack) = _
    rw [Forest.preorderFrom, hnode]
    rfl
  | node name inside ih =>
    obtain ⟨hnode, hinside⟩ := holds.cons
    have hbelow := preorderFrom_roots_of (fun part mem parent position id start holds fuel stack =>
      ih part mem holds fuel stack) hinside fuel stack
    show forest.preorderFrom (fuel + (nestedAll inside).length + 1) (id :: stack) = _
    rw [Forest.preorderFrom, hnode]
    show (forest.preorderFrom _ (roots (id + 1) inside ++ stack)).map (id :: ·) = _
    rw [hbelow]
    cases forest.preorderFrom fuel stack with
    | error => rfl
    | ok => simp [Except.map, nested, List.range'_succ]

end Part

end BoxTree
