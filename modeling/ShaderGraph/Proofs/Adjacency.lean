import ShaderGraph.Proofs.Latest
import ShaderGraph.Proofs.Tables

/-!
Look-ups through an index. It is made in one pass over the nodes and edges of a graph: tables by
id, and at every target the ids of the edges that end there. Reading an edge list back goes through
two tables, by the target and then by the ids; still it gives what the graph itself gives
(`Index.inputEdges_ofGraph`), for every graph.

What one edge does to the lists is said once (`Index.idsAt_connect`); that a whole pass neither
loses nor repeats anything follows by induction on the edges. With ids that occur once, the edges
into a node are therefore the entries that end there (`Graph.inputs_exact`).
-/

namespace ShaderGraph

/-- Tables for look-ups in a graph. -/
structure Index where
  nodes : Table Node
  edges : Table Edge
  /-- Under the id of a node, the ids of the edges into it. -/
  inputs : Table (List String)

namespace Index

/-- The ids that are listed under a target. -/
def idsAt (inputs : Table (List String)) (target : String) : List String :=
  (inputs.find? target).getD []

/-- Lists an edge under its target. -/
def connect (inputs : Table (List String)) (edge : Edge) : Table (List String) :=
  inputs.insert edge.target (idsAt inputs edge.target ++ [edge.id])

/-- A later entry takes the place of an earlier one with the same id, but edges are listed under
their targets one by one. -/
def ofGraph (graph : Graph) : Index where
  nodes := .ofList (graph.nodes.map fun node => (node.id, node))
  edges := .ofList (graph.edges.map fun edge => (edge.id, edge))
  inputs := graph.edges.foldl connect []

def inputEdges (index : Index) (id : String) : List Edge :=
  (idsAt index.inputs id).filterMap index.edges.find?

def inputNodes (index : Index) (id : String) : List Node :=
  (index.inputEdges id).filterMap (index.nodes.find? ·.source)

/-! ## Lists by target -/

variable {inputs : Table (List String)}

/-- **One edge** is added to one list, at its end. -/
theorem idsAt_connect (inputs : Table (List String)) (edge : Edge) (target : String) :
    idsAt (connect inputs edge) target =
      idsAt inputs target ++ if edge.target = target then [edge.id] else [] := by
  rw [idsAt, connect, Table.find?_insert]
  by_cases h : target = edge.target
  · subst h
    simp
  · simp [h, Ne.symm h, idsAt]

theorem idsAt_foldl_connect (edges : List Edge) (inputs : Table (List String)) (target : String) :
    idsAt (edges.foldl connect inputs) target =
      idsAt inputs target ++ (edges.filter (·.target == target)).map Edge.id := by
  induction edges generalizing inputs with
  | nil => simp
  | cons edge edges ih =>
    rw [List.foldl_cons, ih, idsAt_connect, List.append_assoc]
    by_cases h : edge.target = target <;> simp [h]

/-- All lists together have one id more. -/
theorem flatMap_connect (h : inputs.Ascending) (edge : Edge) :
    ((connect inputs edge).flatMap Prod.snd).Perm (inputs.flatMap Prod.snd ++ [edge.id]) := by
  obtain ⟨front, back, hinsert, hinputs⟩ :=
    h.insert_split edge.target (idsAt inputs edge.target ++ [edge.id])
  have hbefore : inputs.flatMap Prod.snd =
      front.flatMap Prod.snd ++ (idsAt inputs edge.target ++ back.flatMap Prod.snd) := by
    conv_lhs => rw [hinputs]
    cases hfound : inputs.find? edge.target <;> simp [idsAt, hfound]
  rw [connect, hinsert, hbefore]
  simp only [List.flatMap_append, List.flatMap_cons, List.append_assoc]
  exact (List.perm_append_comm.append_left _).append_left _

/-- **All edges** are listed, each as often as it is there. -/
theorem flatMap_foldl_connect (edges : List Edge) (h : inputs.Ascending) :
    ((edges.foldl connect inputs).flatMap Prod.snd).Perm
      (inputs.flatMap Prod.snd ++ edges.map Edge.id) := by
  induction edges generalizing inputs with
  | nil => simp
  | cons edge edges ih =>
    have hone := (flatMap_connect h edge).append_right (edges.map Edge.id)
    have hrest : ((edges.foldl connect (connect inputs edge)).flatMap Prod.snd).Perm
        ((connect inputs edge).flatMap Prod.snd ++ edges.map Edge.id) := ih (h.insert ..)
    simpa using hrest.trans hone

/-! ## The index of a graph -/

theorem inputEdges_ofGraph (graph : Graph) (id : String) :
    (ofGraph graph).inputEdges id = graph.inputEdges id := by
  have hids : idsAt (ofGraph graph).inputs id =
      (graph.edges.filter (·.target == id)).map Edge.id := idsAt_foldl_connect graph.edges [] id
  have hedges : (ofGraph graph).edges.find? = graph.edge? := by
    funext key
    exact (Table.find?_ofList_map Edge.id _ graph.edges key).trans (Option.map_id' ..)
  rw [inputEdges, hids, hedges, List.filterMap_map]
  rfl

theorem inputNodes_ofGraph (graph : Graph) (id : String) :
    (ofGraph graph).inputNodes id = graph.inputNodes id := by
  have hnodes : (ofGraph graph).nodes.find? = graph.node? := by
    funext key
    exact (Table.find?_ofList_map Node.id _ graph.nodes key).trans (Option.map_id' ..)
  rw [inputNodes, inputEdges_ofGraph, hnodes]
  rfl

end Index

namespace Graph

variable {graph : Graph}

/-- The last node with an id. -/
def IsLast (nodes : List Node) (id : String) (node : Node) : Prop :=
  node.id = id ∧ ∃ before after, nodes = before ++ node :: after ∧ ∀ later ∈ after, later.id ≠ id

theorem node?_eq_some {id : String} {node : Node} :
    graph.node? id = some node ↔ IsLast graph.nodes id node := by
  rw [node?, List.find?_eq_some_iff_append, beq_iff_eq, IsLast]
  refine and_congr_right fun _ => ?_
  constructor
  · rintro ⟨after, before, he, hafter⟩
    refine ⟨before.reverse, after.reverse, ?_, ?_⟩
    · rw [← List.reverse_reverse graph.nodes, he]
      simp
    · intro later hlater
      simpa using hafter later (List.mem_reverse.mp hlater)
  · rintro ⟨before, after, he, hafter⟩
    refine ⟨after.reverse, before.reverse, by simp [he], ?_⟩
    intro later hlater
    simpa using hafter later (List.mem_reverse.mp hlater)

theorem isSome_node? (graph : Graph) (id : String) :
    (graph.node? id).isSome = graph.nodes.any (·.id == id) := by
  rw [node?, Bool.eq_iff_iff, List.find?_isSome, List.any_eq_true]
  simp only [List.mem_reverse]

/-- What a partial function gives along a list, beside the members where it gives something. -/
theorem forall₂_filterMap {α β : Type} (f : α → Option β) (as : List α) :
    List.Forall₂ (fun a b => f a = some b) (as.filter fun a => (f a).isSome) (as.filterMap f) := by
  induction as with
  | nil => exact .nil
  | cons a as ih =>
    cases h : f a with
    | none => simpa [h] using ih
    | some b => simpa [h] using ih

/-- **The edges into a node.** In a graph whose edges have ids that occur once: they are the
edges with the node as their target, in the order of the graph; every edge is one of the edges into
one node and no other; and the nodes they come from are, in the same order, the last ones with the
ids of the sources, for the edges whose source is there. An index gives the same edges and nodes,
and its lists together hold the id of every edge, each once. -/
theorem inputs_exact (graph : Graph) (hids : (graph.edges.map Edge.id).Nodup) (id : String) :
    graph.inputEdges id = graph.edges.filter (·.target == id) ∧
      (∀ edge ∈ graph.edges, ∃! target, edge ∈ graph.inputEdges target) ∧
      List.Forall₂ (fun edge node => IsLast graph.nodes edge.source node)
        (graph.edges.filter fun edge =>
          edge.target == id && graph.nodes.any (·.id == edge.source))
        (graph.inputNodes id) ∧
      (Index.ofGraph graph).inputEdges id = graph.inputEdges id ∧
      (Index.ofGraph graph).inputNodes id = graph.inputNodes id ∧
      ((Index.ofGraph graph).inputs.flatMap Prod.snd).Perm (graph.edges.map Edge.id) := by
  have hedges : ∀ id, graph.inputEdges id = graph.edges.filter (·.target == id) :=
    inputEdges_of_nodup hids
  refine ⟨hedges id, ?_, ?_, Index.inputEdges_ofGraph graph id, Index.inputNodes_ofGraph graph id,
    Index.flatMap_foldl_connect graph.edges List.Pairwise.nil⟩
  · intro edge hedge
    refine ⟨edge.target, ?_, ?_⟩
    · simp [hedges, hedge]
    · intro target htarget
      rw [hedges] at htarget
      exact (beq_iff_eq.mp (List.mem_filter.mp htarget).2).symm
  · have hnodes := forall₂_filterMap (graph.node? ·.source) (graph.inputEdges id)
    simp only [isSome_node?, node?_eq_some, hedges, List.filter_filter] at hnodes
    simpa only [inputNodes, hedges, Bool.and_comm] using hnodes

/-- Two edges from an id that two nodes have, and one from an id that no node has. -/
def dangling : Graph where
  nodes := [{ id := "a", type := "float" }, { id := "b", type := "uv" },
    { id := "a", type := "time" }, { id := "n", type := "vec3" }]
  edges := [{ id := "1", source := "a", target := "n" },
    { id := "2", source := "b", target := "m" }, { id := "3", source := "gone", target := "n" },
    { id := "4", source := "b", target := "n" }, { id := "5", source := "a", target := "n" }]

theorem inputs_exact_dangling :
    (dangling.edges.map Edge.id).Nodup ∧
      dangling.inputEdges "n" = dangling.edges.filter (·.target == "n") ∧
      (dangling.inputEdges "n").map Edge.id = ["1", "3", "4", "5"] ∧
      List.Forall₂ (fun edge node => IsLast dangling.nodes edge.source node)
        (dangling.edges.filter fun edge =>
          edge.target == "n" && dangling.nodes.any (·.id == edge.source))
        (dangling.inputNodes "n") ∧
      (dangling.inputNodes "n").map Node.type = ["time", "uv", "time"] := by
  have hids : (dangling.edges.map Edge.id).Nodup := by decide
  have hexact := inputs_exact dangling hids "n"
  exact ⟨hids, hexact.1, by decide +kernel, hexact.2.2.1, by decide +kernel⟩

end Graph

end ShaderGraph
