import Mathlib.Data.List.Nodup
import ShaderGraph.Graph.Basic

/-!
Ids that occur more than once. Nodes, edges and uniforms are looked up as if only
the last entry with an id were there. The edges into a node are not: the entries
are chosen by where they end and only then looked up by their ids, so an entry that
a later one replaces still counts where it ended, as the edge that replaced it
(`inputEdges_map_some`). Such an entry is the only difference (`latest_lookups`).
-/

namespace ShaderGraph

/-- The entries that no later one with the same key replaces, in order. -/
def latest {α : Type} (key : α → String) : List α → List α
  | [] => []
  | a :: as => if as.any (key · == key a) then latest key as else a :: latest key as

section Entries

variable {α : Type} (key : α → String)

theorem latest_sublist (as : List α) : (latest key as).Sublist as := by
  induction as with
  | nil => exact .slnil
  | cons a as ih =>
    rw [latest]
    split
    · exact ih.cons a
    · exact ih.cons_cons a

theorem latest_append_sublist (as bs : List α) :
    (latest key (as ++ bs)).Sublist (as ++ latest key bs) := by
  induction as with
  | nil => exact List.Sublist.refl _
  | cons a as ih =>
    rw [List.cons_append, latest]
    split
    · exact ih.cons a
    · exact ih.cons_cons a

theorem latest_nodup (as : List α) : ((latest key as).map key).Nodup := by
  induction as with
  | nil => exact List.nodup_nil
  | cons a as ih =>
    rw [latest]
    split
    · exact ih
    · rename_i hno
      refine List.nodup_cons.mpr ⟨?_, ih⟩
      intro hmem
      obtain ⟨b, hb, hkey⟩ := List.mem_map.mp hmem
      exact hno (List.any_eq_true.mpr ⟨b, (latest_sublist key as).subset hb, by simp [hkey]⟩)

/-- **The last entry counts.** -/
theorem find?_latest (as : List α) (id : String) :
    (latest key as).reverse.find? (key · == id) = as.reverse.find? (key · == id) := by
  induction as with
  | nil => rfl
  | cons a as ih =>
    rw [latest, List.reverse_cons, List.find?_append]
    split
    · rename_i hlater
      obtain ⟨b, hb, hkey⟩ := List.any_eq_true.mp hlater
      rw [ih]
      by_cases ha : key a = id
      · -- the entry that replaces `a` is found before it
        have hsome : (as.reverse.find? (key · == id)).isSome := by
          rw [List.find?_isSome]
          exact ⟨b, List.mem_reverse.mpr hb, by simpa [ha] using hkey⟩
        obtain ⟨c, hc⟩ := Option.isSome_iff_exists.mp hsome
        rw [hc, Option.some_or]
      · have hnone : [a].find? (key · == id) = none := by simp [ha]
        rw [hnone, Option.or_none]
    · rw [List.reverse_cons, List.find?_append, ih]

/-- Under a key that occurs once there is the entry with this key. -/
theorem find?_of_nodup {as : List α} (h : (as.map key).Nodup) {a : α} (ha : a ∈ as) :
    as.reverse.find? (key · == key a) = some a := by
  have hsome : (as.reverse.find? (key · == key a)).isSome := by
    rw [List.find?_isSome]
    exact ⟨a, List.mem_reverse.mpr ha, by simp⟩
  obtain ⟨found, hfound⟩ := Option.isSome_iff_exists.mp hsome
  have hmem : found ∈ as := List.mem_reverse.mp (List.mem_of_find?_eq_some hfound)
  have hkey : key found = key a := by simpa using List.find?_some hfound
  rw [hfound, List.inj_on_of_nodup_map h hmem ha hkey]

end Entries

namespace Graph

/-- The graph with the last entry of every id only. -/
def latest (graph : Graph) : Graph where
  nodes := ShaderGraph.latest Node.id graph.nodes
  edges := ShaderGraph.latest Edge.id graph.edges
  uniforms := ShaderGraph.latest Uniform.id graph.uniforms

/-- Some entry of the graph is this edge, and a later entry has the same id. -/
def Replaced (graph : Graph) (edge : Edge) : Prop :=
  ∃ before after, graph.edges = before ++ edge :: after ∧ ∃ later ∈ after, later.id = edge.id

variable {graph : Graph}

theorem node?_latest (graph : Graph) (id : String) : graph.latest.node? id = graph.node? id :=
  find?_latest Node.id graph.nodes id

theorem edge?_latest (graph : Graph) (id : String) : graph.latest.edge? id = graph.edge? id :=
  find?_latest Edge.id graph.edges id

theorem uniform?_latest (graph : Graph) (id : String) :
    graph.latest.uniform? id = graph.uniform? id := find?_latest Uniform.id graph.uniforms id

theorem edge?_isSome {edge : Edge} (h : edge ∈ graph.edges) : (graph.edge? edge.id).isSome := by
  rw [edge?, List.find?_isSome]
  exact ⟨edge, List.mem_reverse.mpr h, by simp⟩

/-- One edge is given for every entry that ends at the node, the last one with its id. -/
theorem inputEdges_map_some (graph : Graph) (id : String) :
    (graph.inputEdges id).map some =
      (graph.edges.filter (·.target == id)).map (graph.edge? ·.id) := by
  have hall : ∀ edge ∈ graph.edges.filter (·.target == id), (graph.edge? edge.id).isSome :=
    fun edge he => edge?_isSome (List.mem_of_mem_filter he)
  unfold inputEdges
  generalize graph.edges.filter (·.target == id) = entries at hall
  induction entries with
  | nil => rfl
  | cons edge entries ih =>
    obtain ⟨hhead, htail⟩ := List.forall_mem_cons.mp hall
    obtain ⟨found, hf⟩ := Option.isSome_iff_exists.mp hhead
    simp [hf, ih htail]

theorem length_inputEdges (graph : Graph) (id : String) :
    (graph.inputEdges id).length = (graph.edges.filter (·.target == id)).length := by
  have hlength := congrArg List.length (inputEdges_map_some graph id)
  simpa using hlength

/-- With ids that occur once, the edges into a node are those that end there. -/
theorem inputEdges_of_nodup (h : (graph.edges.map Edge.id).Nodup) (id : String) :
    graph.inputEdges id = graph.edges.filter (·.target == id) := by
  apply List.map_injective_iff.mpr fun _ _ => Option.some.inj
  rw [inputEdges_map_some]
  apply List.map_congr_left
  intro edge he
  exact find?_of_nodup Edge.id h (List.mem_of_mem_filter he)

theorem inputEdges_latest (graph : Graph) (id : String) :
    graph.latest.inputEdges id = graph.latest.edges.filter (·.target == id) :=
  inputEdges_of_nodup (latest_nodup Edge.id graph.edges) id

/-- Where nothing is replaced that ended at the node, the entries there are the last ones. -/
theorem filter_latest_of_not_replaced {entries : List Edge} {id : String}
    (h : ∀ before edge after, entries = before ++ edge :: after →
      (∃ later ∈ after, later.id = edge.id) → edge.target ≠ id) :
    (ShaderGraph.latest Edge.id entries).filter (·.target == id) =
      entries.filter (·.target == id) := by
  induction entries with
  | nil => rfl
  | cons edge entries ih =>
    have htail := ih fun before other after he => h (edge :: before) other after (by rw [he]; rfl)
    rw [ShaderGraph.latest]
    split
    · rename_i hlater
      obtain ⟨later, hl, hid⟩ := List.any_eq_true.mp hlater
      have hne : edge.target ≠ id := h [] edge entries rfl ⟨later, hl, by simpa using hid⟩
      rw [htail, List.filter_cons_of_neg (by simpa using hne)]
    · simp only [List.filter_cons, htail]

/-- An entry that is replaced is missing among the last ones. -/
theorem length_filter_latest_lt {edge : Edge} (h : graph.Replaced edge) :
    (graph.latest.edges.filter (·.target == edge.target)).length <
      (graph.edges.filter (·.target == edge.target)).length := by
  obtain ⟨before, after, he, later, hl, hid⟩ := h
  have hdrop : ShaderGraph.latest Edge.id (edge :: after) = ShaderGraph.latest Edge.id after := by
    rw [ShaderGraph.latest, if_pos (List.any_eq_true.mpr ⟨later, hl, by simp [hid]⟩)]
  have hsub : graph.latest.edges.Sublist (before ++ after) := by
    have hfirst := latest_append_sublist Edge.id before (edge :: after)
    rw [hdrop, ← he] at hfirst
    exact hfirst.trans ((List.Sublist.refl before).append (latest_sublist Edge.id after))
  have hle := (hsub.filter (·.target == edge.target)).length_le
  rw [he]
  simp only [List.filter_append, List.length_append, List.filter_cons, beq_self_eq_true,
    ↓reduceIte, List.length_cons] at hle ⊢
  omega

/-- **Ids that occur more than once.** For every graph and id: nodes, edges and uniforms
are found as if only the last entry of every id were there, and in that graph the edges
into a node are the entries that end there, each once. The edges into a node of the
graph itself are as many as its entries that end there, each of them given as the last
edge with its id. They are the same as in the graph of last entries exactly when no
entry that ends at the node is replaced, and then so are the nodes they come from. -/
theorem latest_lookups (graph : Graph) (id : String) :
    graph.latest.node? id = graph.node? id ∧
      graph.latest.edge? id = graph.edge? id ∧
      graph.latest.uniform? id = graph.uniform? id ∧
      graph.latest.inputEdges id = graph.latest.edges.filter (·.target == id) ∧
      ((graph.latest.inputEdges id).map Edge.id).Nodup ∧
      (graph.inputEdges id).map some =
        (graph.edges.filter (·.target == id)).map (graph.edge? ·.id) ∧
      (graph.inputEdges id = graph.latest.inputEdges id ↔
        ∀ edge, graph.Replaced edge → edge.target ≠ id) ∧
      ((∀ edge, graph.Replaced edge → edge.target ≠ id) →
        graph.inputNodes id = graph.latest.inputNodes id) := by
  have hedges : (∀ edge, graph.Replaced edge → edge.target ≠ id) →
      graph.inputEdges id = graph.latest.inputEdges id := by
    intro hfine
    have hfilter : graph.latest.edges.filter (·.target == id) =
        graph.edges.filter (·.target == id) :=
      filter_latest_of_not_replaced fun before edge after he hlater =>
        hfine edge ⟨before, after, he, hlater⟩
    simp only [inputEdges, edge?_latest, hfilter]
  refine ⟨node?_latest graph id, edge?_latest graph id, uniform?_latest graph id,
    inputEdges_latest graph id, ?_, inputEdges_map_some graph id, ⟨?_, hedges⟩, ?_⟩
  · rw [inputEdges_latest]
    exact (latest_nodup Edge.id graph.edges).sublist
      ((List.filter_sublist (l := graph.latest.edges)).map Edge.id)
  · rintro hsame edge hreplaced rfl
    have hlt := length_filter_latest_lt hreplaced
    have hlength := congrArg List.length hsame
    rw [length_inputEdges, length_inputEdges] at hlength
    omega
  · intro hfine
    simp only [inputNodes, hedges hfine, node?_latest]

/-- An edge that was led elsewhere, and one that was drawn twice. -/
def redirected : Graph where
  nodes := [{ id := "x", type := "float" }, { id := "old", type := "add" },
    { id := "new", type := "add" }]
  edges := [{ id := "1", source := "x", target := "old" },
    { id := "1", source := "x", target := "new" },
    { id := "2", source := "x", target := "new" },
    { id := "2", source := "x", target := "new" }]

/-- The node at which the edge ended before is still given it, although it ends at another
one; and the edge that was drawn twice is given twice. -/
theorem inputEdges_redirected :
    (redirected.inputEdges "old").map (fun edge => (edge.id, edge.target)) = [("1", "new")] ∧
      (redirected.latest.inputEdges "old").map Edge.id = [] ∧
      (redirected.inputEdges "new").map Edge.id = ["1", "2", "2"] ∧
      (redirected.latest.inputEdges "new").map Edge.id = ["1", "2"] := by
  decide +kernel

end Graph

end ShaderGraph
