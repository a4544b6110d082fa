import BoxTree.Proofs.TreeOfForest
import BoxTree.Syntax.Tour

namespace BoxTree

/-!
# The order of visits

A walk with a stack ends, because the stack holds the roots of trees that have no node in common and each
round takes one node. A cursor that goes down, on and up comes back to where it began. Both come by the nodes
of a subtree in the order of the recursion on its tree.

* `Search.run?_tree` — the rounds that a tree takes, and what they collect.
* `Search.eq_of_run?` — the walk that is bounded beforehand does the same rounds.
* `Forest.Linked.preorder_eq` — the walk collects the preorder of the tree.
* `Tour.Passes`, `Tour.passes_tree` — what a cursor comes by, step by step, on the tour of a tree.
* `Tree.eraseDups_visits` — the nodes of a tour in the order of their first visits.
* `preorder_is_order_of_first_visits` — all of it.
-/

variable {forest : Forest} {id : Nat}

/-! ### With a stack -/

namespace Search

variable {collected stack : List Nat} {rounds : Nat}

/-- A round takes a node that is there, and puts its children on the stack. -/
theorem round_known {node : Node} (hnode : forest.node? id = some node) :
    round forest ⟨collected, stack ++ [id]⟩ =
      some (.ok ⟨collected ++ [id], stack ++ node.children.toList.reverse⟩) := by
  simp [round, hnode]

/-- A number that is not there ends the walk. -/
theorem run?_unknown (unknown : forest.node? id = none) :
    run? forest rounds ⟨collected, stack ++ [id]⟩ = some (.error (.unknownNode id)) := by
  refine run?_of_error ?_
  simp [round, unknown]

/-- A node that is there takes one round, which puts its children on the stack. -/
theorem run?_known (known : id < forest.size) :
    run? forest (rounds + 1) ⟨collected, stack ++ [id]⟩ =
      run? forest rounds ⟨collected ++ [id], stack ++ (forest.childList id).reverse⟩ := by
  have hnode : forest.node? id = some forest.nodes[id] := Array.getElem?_eq_getElem known
  have hchildren : forest.childList id = forest.nodes[id].children.toList := by
    simp [Forest.childList, Forest.children?, hnode]
  rw [run?_succ_of_ok (round_known hnode), hchildren]

/-- An empty stack ends the walk with what has been collected. -/
theorem run?_nil : run? forest rounds ⟨collected, []⟩ = some (.ok collected) := run?_of_none rfl

/-- **A tree takes as many rounds as it has nodes**, which are collected in preorder. -/
theorem run?_tree (linked : forest.Linked) (known : id < forest.size) :
    run? forest ((forest.tree id).preorder.length + rounds) ⟨collected, stack ++ [id]⟩ =
      run? forest rounds ⟨collected ++ (forest.tree id).preorder, stack⟩ := by
  induction id using linked.childInduction generalizing collected stack rounds with
  | step id ih =>
    -- The children are taken in order, since the last one was put on the stack first.
    have hchildren : ∀ (children : List Nat), (∀ child ∈ children, child ∈ forest.childList id) →
        ∀ collected,
          run? forest
              ((children.flatMap fun child => (forest.tree child).preorder).length + rounds)
              ⟨collected, stack ++ children.reverse⟩ =
            run? forest rounds
              ⟨collected ++ children.flatMap fun child => (forest.tree child).preorder, stack⟩ := by
      intro children hchildren
      induction children with
      | nil => simp
      | cons child rest ihRest =>
        intro collected
        obtain ⟨hchild, hrest⟩ := List.forall_mem_cons.mp hchildren
        rw [List.flatMap_cons, List.length_append, Nat.add_assoc, List.reverse_cons,
          ← List.append_assoc, ih child hchild (Forest.lt_size_of_mem_childList linked hchild),
          ihRest hrest, List.append_assoc]
    rw [linked.preorder_tree, List.length_cons, Nat.add_right_comm, run?_known known, Forest.below,
      hchildren _ (fun child hchild => hchild), List.append_assoc, List.singleton_append]

/-- **The walk that is bounded beforehand** does the same rounds, with the stack the other way round. -/
theorem eq_of_run? {stack : List Nat} {result : Except Error (List Nat)}
    (ends : run? forest rounds ⟨collected, stack.reverse⟩ = some result) :
    result = (forest.preorderFrom rounds stack).map (collected ++ ·) := by
  induction rounds, stack using Forest.preorderFrom.induct forest generalizing collected with
  | case1 rounds =>
    rw [List.reverse_nil, run?_nil] at ends
    rw [← Option.some.inj ends, Forest.preorderFrom, Except.map, List.append_nil]
  | case2 id rest =>
    rw [List.reverse_cons] at ends
    rw [Forest.preorderFrom]
    cases hnode : forest.node? id with
    | none =>
      rw [run?_unknown hnode] at ends
      exact (Option.some.inj ends).symm
    | some node =>
      -- There is a round to do, and none is allowed.
      rw [run?_zero_of_ok (round_known hnode)] at ends
      cases ends
  | case3 rounds id rest hnode =>
    rw [List.reverse_cons, run?_unknown hnode] at ends
    rw [Forest.preorderFrom, hnode]
    exact (Option.some.inj ends).symm
  | case4 rounds id rest node hnode ih =>
    rw [List.reverse_cons, run?_succ_of_ok (round_known hnode), ← List.reverse_append] at ends
    rw [ih ends, Forest.preorderFrom, hnode]
    dsimp only
    cases forest.preorderFrom rounds (node.children.toList ++ rest) with
    | error error => rfl
    | ok numbers => simp [Except.map]

end Search

namespace Forest

/-- The walk of a tree ends after as many rounds as the forest has nodes, if not before. -/
theorem Linked.run?_start (linked : forest.Linked) (known : id < forest.size) :
    Search.run? forest forest.size { stack := [id] } = some (.ok (forest.tree id).preorder) := by
  obtain ⟨rounds, hrounds⟩ := Nat.exists_eq_add_of_le (linked.length_preorder_tree_le known)
  have hrun := @Search.run?_tree forest id [] [] rounds linked known
  rw [← hrounds] at hrun
  exact hrun.trans Search.run?_nil

/-- **The walk collects the preorder of the tree.** -/
theorem Linked.preorder_eq (linked : forest.Linked) (known : id < forest.size) :
    forest.preorder id = .ok (forest.tree id).preorder := by
  have hresult : .ok (forest.tree id).preorder = (forest.preorderFrom forest.size [id]).map ([] ++ ·) :=
    Search.eq_of_run? (linked.run?_start known)
  have hnode : forest.node? id = some forest.nodes[id] := Array.getElem?_eq_getElem known
  unfold preorder
  rw [hnode]
  dsimp only
  cases hfrom : forest.preorderFrom forest.size [id] with
  | error error =>
    rw [hfrom] at hresult
    cases hresult
  | ok numbers =>
    rw [hfrom] at hresult
    exact hresult.symm

/-- There is no node of a number if and only if the forest does not contain it. -/
theorem node?_eq_none_iff : forest.node? id = none ↔ forest.contains id = false := by
  rw [node?, Array.getElem?_eq_none_iff, contains, decide_eq_false_iff_not, Nat.not_lt]
  rfl

end Forest

/-! ### With a cursor -/

namespace Tree

/-- A tour comes by every node once before and once behind the tours of its children. -/
theorem length_visits (tree : Tree) : tree.visits.length = 2 * tree.preorder.length := by
  induction tree using Tree.induction with
  | node id label children ih =>
    have hall : (visitsAll children).length = 2 * (preorderAll children).length := by
      induction children with
      | nil => rfl
      | cons tree rest ihRest =>
        obtain ⟨hfirst, hrest⟩ := List.forall_mem_cons.mp ih
        rw [visitsAll, preorderAll, List.length_append, List.length_append, hfirst, ihRest hrest]
        omega
    rw [visits, preorder, List.length_cons, List.length_append, List.length_singleton, List.length_cons,
      hall]
    omega

/-- Lists without a number in common keep their first visits side by side. -/
theorem eraseDups_append_of_disjoint {first second : List Nat} (disjoint : first.Disjoint second) :
    (first ++ second).eraseDups = first.eraseDups ++ second.eraseDups := by
  have hkept : second.removeAll first = second := by
    unfold List.removeAll
    rw [List.filter_eq_self]
    intro number hnumber
    simpa using fun hfirst => disjoint hfirst hnumber
  rw [List.eraseDups_append, hkept]

/-- **The order of first visits is the preorder**, if no node stands in the tree twice. -/
theorem eraseDups_visits {tree : Tree} (nodup : tree.preorder.Nodup) :
    tree.visits.eraseDups = tree.preorder := by
  induction tree using Tree.induction with
  | node id label children ih =>
    rw [preorder, List.nodup_cons] at nodup
    obtain ⟨hid, hbelow⟩ := nodup
    have hall : (visitsAll children).eraseDups = preorderAll children := by
      clear hid
      induction children with
      | nil => rfl
      | cons tree rest ihRest =>
        obtain ⟨hfirst, hrest⟩ := List.forall_mem_cons.mp ih
        obtain ⟨htree, hothers, hdisjoint⟩ := List.nodup_append'.mp hbelow
        have hvisits := hfirst htree
        have hlater := ihRest hrest hothers
        -- Tours of different trees come by different nodes.
        have hapart : tree.visits.Disjoint (visitsAll rest) := by
          intro number hmem hmem'
          rw [← List.mem_eraseDups, hvisits] at hmem
          rw [← List.mem_eraseDups, hlater] at hmem'
          exact hdisjoint hmem hmem'
        rw [visitsAll, preorderAll, eraseDups_append_of_disjoint hapart, hvisits, hlater]
    have hnot : id ∉ visitsAll children := by rwa [← List.mem_eraseDups, hall]
    have hbehind : (visitsAll children ++ [id]).filter (fun number => !number == id) =
        visitsAll children := by
      rw [List.filter_append, List.filter_eq_self.mpr]
      · simp
      · intro number hnumber
        have hne : number ≠ id := fun heq => hnot (heq ▸ hnumber)
        simpa using hne
    rw [visits, preorder, List.eraseDups_cons, hbehind, hall]

end Tree

namespace Forest

/-- What a tour comes by from a node until the node is done with. -/
def visitsDown (forest : Forest) (id : Nat) : List Nat :=
  id :: Tree.visitsAll ((forest.childList id).map forest.tree)

/-- A tour comes by the root a last time when it is done with the children. -/
theorem Linked.visits_tree (linked : forest.Linked) (id : Nat) :
    (forest.tree id).visits = forest.visitsDown id ++ [id] := by
  rw [linked.tree_eq, Tree.visits]
  rfl

end Forest

namespace Tour

section Passes

variable {κ : Type} [Cursor κ] {first middle last : Tour κ} {visits more : List κ}

/-- Steps lead from one moment of a tour to another, with the cursor at these places before each of them. -/
inductive Passes : Tour κ → List κ → Tour κ → Prop where
  | stay (tour : Tour κ) : Passes tour [] tour
  | step {first second last : Tour κ} {visits : List κ} (next : first.next? = some second)
      (passes : Passes second visits last) : Passes first (first.cursor :: visits) last

/-- Steps that follow others lead on from where these led. -/
theorem Passes.trans (passes : Passes first visits middle) (others : Passes middle more last) :
    Passes first (visits ++ more) last := by
  induction passes with
  | stay => exact others
  | step next _ ih => exact .step next (ih others)

/-- A tour that ends after some steps ends if so many are allowed. -/
theorem Passes.stops? (passes : Passes first visits last) (ends : last.next? = none) {steps : Nat}
    (hsteps : visits.length ≤ steps) : first.stops? steps = some (visits ++ [last.cursor]) := by
  induction passes generalizing steps with
  | stay => exact stops?_of_none ends
  | step next _ ih =>
    obtain ⟨steps, rfl⟩ := Nat.exists_eq_add_of_le' (Nat.one_le_of_lt hsteps)
    rw [stops?_succ_of_some next, ih ends (Nat.le_of_succ_le_succ hsteps)]
    rfl

end Passes

variable {above child depth : Nat}

/-- From a child on, a tour comes by the children behind it and goes up. -/
theorem passes_siblings (linked : forest.Linked) {rest : List Nat}
    (hparent : forest.parent? child = some above) (hlater : forest.later child = rest)
    (hdown : ∀ id ∈ child :: rest, ∀ depth,
      Passes (⟨⟨forest, id⟩, depth, false⟩ : Tour Place) ((forest.visitsDown id).map (Place.mk forest))
        ⟨⟨forest, id⟩, depth, true⟩) :
    Passes (⟨⟨forest, child⟩, depth + 1, false⟩ : Tour Place)
      ((Tree.visitsAll ((child :: rest).map forest.tree)).map (Place.mk forest))
      ⟨⟨forest, above⟩, depth, true⟩ := by
  induction rest generalizing child with
  | nil =>
    have hup : (⟨⟨forest, child⟩, depth + 1, true⟩ : Tour Place).next? =
        some ⟨⟨forest, above⟩, depth, true⟩ := by
      simp [next?, Place.nextSibling?_eq, hlater, Place.parent?_eq, hparent]
    have hpasses := (hdown child (List.mem_singleton_self child) (depth + 1)).trans (.step hup (.stay _))
    simpa [Tree.visitsAll, linked.visits_tree] using hpasses
  | cons sibling rest ih =>
    obtain ⟨hsame, hbehind⟩ := linked.later_of_later hlater
    have hon : (⟨⟨forest, child⟩, depth + 1, true⟩ : Tour Place).next? =
        some ⟨⟨forest, sibling⟩, depth + 1, false⟩ := by
      simp [next?, Place.nextSibling?_eq, hlater]
    obtain ⟨hfirst, hrest⟩ := List.forall_mem_cons.mp hdown
    have hpasses := (hfirst (depth + 1)).trans (.step hon (ih (hsame.trans hparent) hbehind hrest))
    simpa [Tree.visitsAll, linked.visits_tree] using hpasses

/-- **A tour comes by the nodes of the tree**, and comes back. -/
theorem passes_tree (linked : forest.Linked) (id depth : Nat) :
    Passes (⟨⟨forest, id⟩, depth, false⟩ : Tour Place) ((forest.visitsDown id).map (Place.mk forest))
      ⟨⟨forest, id⟩, depth, true⟩ := by
  induction id using linked.childInduction generalizing depth with
  | step id ih =>
    cases hchildren : forest.childList id with
    | nil =>
      have hleaf : (⟨⟨forest, id⟩, depth, false⟩ : Tour Place).next? =
          some ⟨⟨forest, id⟩, depth, true⟩ := by
        simp [next?, Place.firstChild?_eq, hchildren]
      rw [Forest.visitsDown, hchildren]
      exact .step hleaf (.stay _)
    | cons child rest =>
      obtain ⟨hparent, hlater⟩ := linked.later_of_childList hchildren
      have hdown : (⟨⟨forest, id⟩, depth, false⟩ : Tour Place).next? =
          some ⟨⟨forest, child⟩, depth + 1, false⟩ := by
        simp [next?, Place.firstChild?_eq, hchildren]
      rw [Forest.visitsDown, hchildren]
      exact .step hdown (passes_siblings linked hparent hlater fun id hid => ih id (hchildren ▸ hid))

end Tour

/-- **The walk of a subtree follows the first visits of a cursor.** It ends, after no more rounds than the
    forest has nodes. It fails if and only if the number belongs to no node, and reports that number.
    Otherwise it collects the preorder of the subtree, which is the node itself and then the preorders of its
    children; no number stands in it twice, and the numbers in it are those of the nodes from which the
    parents lead to the node. A cursor that begins there and goes down to the first child, on to the next
    sibling, and up where there is none, comes back after a bounded number of steps, and has come by the nodes
    for the first time in this order. -/
theorem preorder_is_order_of_first_visits {forest : Forest} (grown : forest.Grown) (id : Nat) :
    Search.run? forest forest.size { stack := [id] } = some (forest.preorder id) ∧
      (∀ error, forest.preorder id = .error error ↔
        forest.contains id = false ∧ error = .unknownNode id) ∧
      (forest.contains id = true → ∃ numbers, forest.preorder id = .ok numbers ∧
        numbers = (forest.tree id).preorder ∧
        (∃ parts, List.Forall₂ (fun child part => forest.preorder child = .ok part)
          (forest.childList id) parts ∧ numbers = id :: parts.flatten) ∧
        numbers.Nodup ∧ (∀ x, x ∈ numbers ↔ ∃ n, forest.ancestor? n x = some id) ∧
        ∃ start, ∃ visits : List Nat, Place.ofId forest id = .ok start ∧
          Tour.stops? (2 * forest.size) { cursor := start } = some (visits.map (Place.mk forest)) ∧
          visits.getLast? = some id ∧ visits.eraseDups = numbers) := by
  have linked := grown.linked
  by_cases hcontains : forest.contains id = true
  · have known : id < forest.size := of_decide_eq_true hcontains
    have hpreorder := linked.preorder_eq known
    have hchildren : List.Forall₂ (fun child part => forest.preorder child = .ok part)
        (forest.childList id) ((forest.childList id).map fun child => (forest.tree child).preorder) :=
      List.forall₂_map_right_iff.mpr (List.forall₂_same.mpr fun child hchild =>
        linked.preorder_eq (Forest.lt_size_of_mem_childList linked hchild))
    have hsteps : ((forest.visitsDown id).map (Place.mk forest)).length ≤ 2 * forest.size := by
      have hvisits := (forest.tree id).length_visits
      have hnodes := linked.length_preorder_tree_le known
      rw [linked.visits_tree, List.length_append] at hvisits
      rw [List.length_map]
      omega
    have htour := (Tour.passes_tree linked id 0).stops? rfl hsteps
    refine ⟨hpreorder ▸ linked.run?_start known, fun error => ?_, fun _ => ?_⟩
    · simp [hpreorder, hcontains]
    · refine ⟨_, hpreorder, rfl, ⟨_, hchildren, ?_⟩, linked.nodup_preorder_tree id,
        fun x => linked.mem_preorder_tree, ⟨forest, id⟩, (forest.tree id).visits, if_pos hcontains, ?_, ?_,
        Tree.eraseDups_visits (linked.nodup_preorder_tree id)⟩
      · rw [linked.preorder_tree, Forest.below, List.flatMap_def]
      · rw [htour, linked.visits_tree, List.map_append]
        rfl
      · rw [linked.visits_tree, List.getLast?_concat]
  · have hunknown : forest.contains id = false := Bool.eq_false_iff.mpr hcontains
    have hnode : forest.node? id = none := Forest.node?_eq_none_iff.mpr hunknown
    have hpreorder : forest.preorder id = .error (.unknownNode id) := by
      unfold Forest.preorder
      rw [hnode]
    refine ⟨?_, fun error => ?_, fun h => absurd h hcontains⟩
    · rw [hpreorder]
      exact @Search.run?_unknown forest id [] [] _ hnode
    · rw [hpreorder]
      simp [hunknown, eq_comm]

/-- A cursor comes by the nodes of a small tree; the walk reports a number that it does not have. -/
theorem first_visits_of_sapling :
    Forest.sapling.Grown ∧ Forest.sapling.preorder 0 = .ok [0, 1, 2, 3] ∧
      (∃ visits : List Nat, Tour.stops? 8 { cursor := (⟨.sapling, 0⟩ : Place) } =
        some (visits.map (Place.mk .sapling)) ∧ visits.eraseDups = [0, 1, 2, 3]) ∧
      Forest.sapling.preorder 4 = .error (.unknownNode 4) := by
  obtain ⟨-, -, hknown⟩ := preorder_is_order_of_first_visits Forest.grown_sapling 0
  obtain ⟨-, herror, -⟩ := preorder_is_order_of_first_visits Forest.grown_sapling 4
  obtain ⟨numbers, hnumbers, -, -, -, -, start, visits, hstart, hstops, -, hfirst⟩ := hknown rfl
  have hsame : Forest.sapling.preorder 0 = .ok [0, 1, 2, 3] := rfl
  obtain rfl : [0, 1, 2, 3] = numbers := Except.ok.inj (hsame.symm.trans hnumbers)
  obtain rfl : (⟨.sapling, 0⟩ : Place) = start := Except.ok.inj hstart
  exact ⟨Forest.grown_sapling, hsame, ⟨visits, hstops, hfirst⟩, (herror _).mpr ⟨rfl, rfl⟩⟩

end BoxTree
