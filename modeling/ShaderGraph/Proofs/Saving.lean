import ShaderGraph.Proofs.Locality
import ShaderGraph.Proofs.Records

/-!
Saving a graph and reading it again. A node is saved by the fields that its data
stands for (`NodeFields.Sound.saved`); these may be others than those it was read
from, but they stand for the same data. Only one thing is lost: a literal that is a
whole number is written as an integer, and so a zero without its sign
(`Payload.saved`). What is read from a text is therefore read again as itself up to
the sign of zeros, and the shader behind a sink is the same where there is no
negative zero (`Graph.compile_reloaded`).
-/

namespace ShaderGraph
open Json

/-! ## Numbers -/

theorem Binary64.toInt?_of_zero {x : Binary64} (h : x.magnitude = 0) : ∃ n, x.toInt? = some n := by
  have hfinite : x.isFinite = true := by
    rw [isFinite, h]
    decide
  have hsignificand : x.significand = 0 := by
    rw [significand, h]
    rfl
  unfold toInt?
  simp [hfinite, hsignificand]

theorem Binary64.saved_of_ne {x : Binary64} (h : x.magnitude ≠ 0) : x.saved = x := if_neg h

/-- A saved literal reads back as its number, but for the sign of a zero. -/
theorem toBinary64?_numberJson {x : Binary64} (h : x.isFinite = true) :
    (numberJson x).toBinary64? = some x.saved := by
  unfold numberJson
  split
  · rename_i n hn
    split
    · show some (Binary64.ofInt n) = _
      rw [Binary64.ofInt_of_toInt? hn]
    · rename_i hlarge
      have hne : x.magnitude ≠ 0 := by
        intro h0
        have hsize := (Binary64.toInt?_eq_some hn).2.1
        rw [Binary64.size_eq_zero_iff.mpr h0, Nat.cast_eq_zero] at hsize
        rw [hsize] at hlarge
        exact hlarge (by decide)
      rw [Binary64.saved_of_ne hne]
      rfl
  · rename_i hnone
    have hne : x.magnitude ≠ 0 := by
      intro h0
      obtain ⟨n, hn⟩ := Binary64.toInt?_of_zero h0
      rw [hnone] at hn
      cases hn
    rw [if_pos h, Binary64.saved_of_ne hne]
    rfl

theorem numberJson_sound {x : Binary64} (h : x.isFinite = true) (room : Nat) :
    (numberJson x).Sound room := by
  unfold numberJson
  split
  · rename_i n _
    split
    · rename_i hn
      rw [show twoTo 63 = 2 ^ 63 from rfl] at hn
      exact ⟨.number ⟨by omega, by omega⟩, .number _⟩
    · exact ⟨.number h, .number _⟩
  · rw [if_pos h]
    exact ⟨.number h, .number _⟩

theorem isFinite_toBinary64? {room : Nat} {json : Json} (h : json.Fits room) {x : Binary64}
    (hx : json.toBinary64? = some x) : x.isFinite = true := by
  cases h with
  | @number _ n hn =>
    cases hx
    cases n with
    | int n =>
      obtain ⟨hlow, hhigh⟩ := hn
      exact Binary64.isFinite_ofInt (by omega)
    | float x => exact hn
  | _ => cases hx

/-! ## The fields of a node -/

namespace NodeFields

variable {room : Nat} {fields : NodeFields}

theorem find?_keepValue (h : ∀ m ∈ fields.extra, m.1 ≠ "value") :
    fields.keepValue.find? "value" = fields.value := by
  unfold keepValue
  cases fields.value with
  | none => exact Table.find?_of_absent h
  | some value => simp [Table.find?_insert]

theorem erase_keepValue (h : ∀ m ∈ fields.extra, m.1 ≠ "value") :
    fields.keepValue.erase "value" = fields.extra := by
  unfold keepValue
  cases fields.value with
  | none => exact Table.erase_of_absent h
  | some value => exact Table.erase_insert h

/-- What fields can stand for, and the fields by which that is saved: a reference to a
uniform, a function, a number, a literal that is no number, or a node without a payload. -/
inductive Shape : NodeFields → NodeData → NodeFields → Prop where
  | reference (name kind value id definitions code extra) :
      Shape ⟨name, kind, value, some id, definitions, code, extra⟩
        ⟨name, kind, .uniform id value, extra⟩ ⟨name, kind, value, some id, none, none, extra⟩
  | function (name kind value definitions code extra)
      (h : (kind = some "function" || definitions.isSome || code.isSome) = true) :
      Shape ⟨name, kind, value, none, definitions, code, extra⟩
        ⟨name, kind, .function (definitions.getD {}) (code.getD ""),
          keepValue ⟨name, kind, value, none, definitions, code, extra⟩⟩
        ⟨name, kind, value, none, some (definitions.getD {}), some (code.getD ""), extra⟩
  | number (name json x extra) (h : toBinary64? json = some x) :
      Shape ⟨name, some "float", some json, none, none, none, extra⟩
        ⟨name, some "float", .literal (some x), extra⟩
        ⟨name, some "float", some (numberJson x), none, none, none, extra⟩
  | unread (name value extra) (h : value.bind toBinary64? = none) :
      Shape ⟨name, some "float", value, none, none, none, extra⟩
        ⟨name, some "float", .literal none,
          keepValue ⟨name, some "float", value, none, none, none, extra⟩⟩
        ⟨name, some "float", value, none, none, none, extra⟩
  | plain (name kind value extra) (hfunction : kind ≠ some "function")
      (hfloat : kind ≠ some "float") :
      Shape ⟨name, kind, value, none, none, none, extra⟩
        ⟨name, kind, .empty, keepValue ⟨name, kind, value, none, none, none, extra⟩⟩
        ⟨name, kind, value, none, none, none, extra⟩

theorem shape (hvalue : ∀ m ∈ fields.extra, m.1 ≠ "value") :
    Shape fields fields.toData fields.toData.toFields := by
  have hfind := find?_keepValue hvalue
  have herase := erase_keepValue hvalue
  have hsame : fields.extra.erase "value" = fields.extra := Table.erase_of_absent hvalue
  obtain ⟨name, kind, value, uniformId, definitions, code, extra⟩ := fields
  cases uniformId with
  | some id =>
    have hfields : (toData ⟨name, kind, value, some id, definitions, code, extra⟩).toFields =
        ⟨name, kind, value, some id, none, none, extra⟩ := by
      simpa [toData, NodeData.toFields] using hsame
    rw [hfields]
    exact .reference ..
  | none =>
    by_cases h : (kind = some "function" || definitions.isSome || code.isSome) = true
    · have hdata : toData ⟨name, kind, value, none, definitions, code, extra⟩ =
          ⟨name, kind, .function (definitions.getD {}) (code.getD ""),
            keepValue ⟨name, kind, value, none, definitions, code, extra⟩⟩ := by
        simp only [toData, h, if_true]
      rw [hdata]
      simp only [NodeData.toFields, hfind, herase]
      exact .function _ _ _ _ _ _ h
    · simp only [Bool.or_eq_true, decide_eq_true_eq, not_or, Bool.not_eq_true,
        Option.isSome_eq_false_iff, Option.isNone_iff_eq_none] at h
      obtain ⟨⟨hkind, rfl⟩, rfl⟩ := h
      by_cases hfloat : kind = some "float"
      · subst hfloat
        cases hx : value.bind toBinary64? with
        | none =>
          have hdata : toData ⟨name, some "float", value, none, none, none, extra⟩ =
              ⟨name, some "float", .literal none,
                keepValue ⟨name, some "float", value, none, none, none, extra⟩⟩ := by
            simp [toData, hx]
          rw [hdata]
          simp only [NodeData.toFields, hfind, herase, Option.map_none, Option.none_or]
          exact .unread _ _ _ hx
        | some x =>
          obtain ⟨json, rfl, hx⟩ := Option.bind_eq_some_iff.mp hx
          have hdata : toData ⟨name, some "float", some json, none, none, none, extra⟩ =
              ⟨name, some "float", .literal (some x), extra⟩ := by
            simp [toData, hx]
          rw [hdata]
          simp only [NodeData.toFields, hsame, Option.map_some, Option.some_or]
          exact .number _ _ _ _ hx
      · have hdata : toData ⟨name, kind, value, none, none, none, extra⟩ =
            ⟨name, kind, .empty, keepValue ⟨name, kind, value, none, none, none, extra⟩⟩ := by
          simp [toData, hkind, hfloat]
        rw [hdata]
        simp only [NodeData.toFields, hfind, herase]
        exact .plain _ _ _ _ hkind hfloat

end NodeFields

/-- A payload after saving: only a literal changes, and of it only the sign of a zero. -/
def Payload.saved : Payload → Payload
  | .literal (some x) => .literal (some x.saved)
  | payload => payload

def NodeData.saved (data : NodeData) : NodeData := { data with payload := data.payload.saved }

namespace NodeFields

variable {room : Nat} {fields : NodeFields}

/-- **The fields that a node saves stand for what its own fields stand for**, and
what is in them can be written. -/
theorem Sound.saved (h : fields.Sound room) :
    fields.toData.toFields.Sound room ∧ fields.toData.toFields.toData = fields.toData.saved := by
  have hshape := shape (h.extra.absent (show "value" ∈ nodeDataKeys by decide))
  generalize hdata : fields.toData = data at hshape ⊢
  generalize data.toFields = saved at hshape ⊢
  cases hshape with
  | reference name kind value id definitions code extra =>
    exact ⟨⟨h.value, by simp, h.extra⟩, rfl⟩
  | function name kind value definitions code extra hfunction =>
    refine ⟨⟨h.value, ?_, h.extra⟩, ?_⟩
    · intro definition hsome
      obtain rfl : definitions.getD {} = definition := Option.some.inj hsome
      cases definitions with
      | none => exact ⟨by simp [CanonicalSockets], by simp [CanonicalSockets]⟩
      | some definition => exact h.definitions definition rfl
    · simp [toData, NodeData.saved, Payload.saved, keepValue]
  | number name json x extra hx =>
    have hfinite := isFinite_toBinary64? (h.value json rfl).fits hx
    refine ⟨⟨?_, by simp, h.extra⟩, ?_⟩
    · intro saved hsome
      obtain rfl : numberJson x = saved := Option.some.inj hsome
      exact numberJson_sound hfinite room
    · simp [toData, NodeData.saved, Payload.saved, toBinary64?_numberJson hfinite]
  | unread name value extra hx => exact ⟨h, by rw [hdata]; rfl⟩
  | plain name kind value extra hfunction hfloat => exact ⟨h, by rw [hdata]; rfl⟩

end NodeFields

/-! ## Nodes -/

/-- Data that was read off some fields. -/
def NodeData.Sound (room : Nat) (data : NodeData) : Prop :=
  ∃ fields : NodeFields, fields.Sound room ∧ fields.toData = data

namespace NodeData

variable {room : Nat} {data : NodeData}

theorem sound_default : NodeData.Sound room {} :=
  ⟨{}, ⟨by simp, by simp, Kept.nil⟩, rfl⟩

theorem decode_sound {document : Document} (hdocument : document.Fits (room + 1))
    (h : NodeData.decode document = .ok data) : data.Sound room := by
  obtain ⟨fields, hfields, h⟩ := bind_eq_ok.mp h
  cases h
  exact ⟨fields, NodeFields.decode_sound hdocument hfields, rfl⟩

theorem Sound.decode_encode (h : data.Sound room) :
    NodeData.decode (documentOf data.encode) = .ok data.saved := by
  obtain ⟨fields, hfields, rfl⟩ := h
  obtain ⟨hsound, hdata⟩ := hfields.saved
  rw [decode, encode, NodeFields.decode_encode hsound, ← hdata]
  rfl

theorem Sound.fits_encode (h : data.Sound room) (hroom : 3 ≤ room) :
    data.encode.Fits (room + 1) := by
  obtain ⟨fields, hfields, rfl⟩ := h
  exact NodeFields.fits_encode hfields.saved.1 hroom

end NodeData

def nodeKeys : List String := ["id", "type", "data"]

structure Node.Sound (room : Nat) (node : Node) : Prop where
  data : node.data.Sound room
  extra : Kept nodeKeys (room + 1) node.extra

structure NodeDraft.Sound (room : Nat) (draft : NodeDraft) : Prop where
  data : ∀ data ∈ draft.data, data.Sound room
  extra : Kept nodeKeys (room + 1) draft.extra

theorem NodeDraft.Sound.step {room : Nat} {draft draft' : NodeDraft} {key : String}
    {document : Document} (hdraft : draft.Sound room) (hdocument : document.Fits (room + 1))
    (h : draft.step key document = .ok draft') : draft'.Sound room := by
  unfold NodeDraft.step at h
  split_ifs at h with h₁ h₂ h₃
  · obtain ⟨_, _, rfl⟩ := putOnce_eq_ok h
    exact ⟨hdraft.data, hdraft.extra⟩
  · obtain ⟨_, _, rfl⟩ := putOnce_eq_ok h
    exact ⟨hdraft.data, hdraft.extra⟩
  · obtain ⟨data, hdata, rfl⟩ := putOnce_eq_ok h
    refine ⟨?_, hdraft.extra⟩
    rintro _ ⟨rfl⟩
    exact NodeData.decode_sound hdocument hdata
  · obtain ⟨json, hjson, h⟩ := bind_eq_ok.mp h
    cases h
    exact ⟨hdraft.data,
      hdraft.extra.insert (by simp [nodeKeys, h₁, h₂, h₃]) (hdocument.value hjson)⟩

namespace Node

variable {room : Nat} {node : Node}

/-- A node after saving. -/
def saved (node : Node) : Node := { node with data := node.data.saved }

theorem decode_sound {document : Document} (hdocument : document.Fits (room + 2))
    (h : Node.decode document = .ok node) : node.Sound room := by
  cases hdocument with
  | object hmembers =>
    rw [decode] at h
    obtain ⟨draft, hdraft, h⟩ := bind_eq_ok.mp h
    obtain ⟨_, _, h⟩ := bind_eq_ok.mp h
    obtain ⟨_, _, h⟩ := bind_eq_ok.mp h
    cases h
    have hsound : draft.Sound room := eachMember_keeps (fun _ _ _ _ => NodeDraft.Sound.step)
      ⟨by simp, Kept.nil⟩ hmembers hdraft
    refine ⟨?_, hsound.extra⟩
    cases hdata : draft.data with
    | none => exact NodeData.sound_default
    | some data => exact hsound.data data hdata
  | _ => exact absurd h refuse_ne_ok

theorem Sound.decode_encode (h : node.Sound room) :
    Node.decode (documentOf node.encode) = .ok node.saved := by
  have hdraft : eachMember NodeDraft.step none {} (memberDocumentsOf
      ([("id", .string node.id), ("type", .string node.type), ("data", node.data.encode)] ++
        node.extra)) =
      .ok ⟨some node.id, some node.type, some node.data.saved, node.extra⟩ := by
    simp only [memberDocumentsOf, List.cons_append, List.nil_append]
    refine Eq.trans (eachMember_cons ⟨some node.id, none, none, []⟩ rfl) ?_
    refine Eq.trans (eachMember_cons ⟨some node.id, some node.type, none, []⟩ rfl) ?_
    refine Eq.trans (eachMember_cons
      ⟨some node.id, some node.type, some node.data.saved, []⟩ ?_) ?_
    · simp [NodeDraft.step, once_none h.data.decode_encode]
    refine h.extra.eachMember (NodeDraft.mk (some node.id) (some node.type)
      (some node.data.saved)) ?_
    intro done key json hkey hjson
    simp only [nodeKeys, List.mem_cons, List.not_mem_nil, or_false, not_or] at hkey
    simp [NodeDraft.step, hkey, hjson]
  rw [encode, documentOf, decode, hdraft]
  rfl

theorem Sound.fits_encode (h : node.Sound room) (hroom : 3 ≤ room) :
    node.encode.Fits (room + 2) := by
  refine .object ?_
  simp only [List.forall_mem_append, List.forall_mem_cons]
  exact ⟨⟨.string _, .string _, h.data.fits_encode hroom, by simp⟩, h.extra.fits⟩

end Node

/-! ## Graphs -/

/-- The graph as which a saved one is read. -/
def Graph.saved (graph : Graph) : Graph := { graph with nodes := graph.nodes.map Node.saved }

structure Graph.Sound (room : Nat) (graph : Graph) : Prop where
  nodes : ∀ node ∈ graph.nodes, node.Sound room
  edges : ∀ edge ∈ graph.edges, Kept edgeKeys (room + 1) edge.extra
  uniforms : ∀ uniform ∈ graph.uniforms, uniform.Sound (room + 1)

structure GraphDraft.Sound (room : Nat) (draft : GraphDraft) : Prop where
  nodes : ∀ nodes ∈ draft.nodes, ∀ node ∈ nodes, node.Sound room
  edges : ∀ edges ∈ draft.edges, ∀ edge ∈ edges, Kept edgeKeys (room + 1) edge.extra
  uniforms : ∀ uniforms ∈ draft.uniforms, ∀ uniform ∈ uniforms, uniform.Sound (room + 1)

theorem GraphDraft.Sound.graph {room : Nat} {draft : GraphDraft} (h : draft.Sound room) :
    Graph.Sound room ⟨draft.nodes.getD [], draft.edges.getD [], draft.uniforms.getD []⟩ := by
  obtain ⟨nodes, edges, uniforms⟩ := draft
  refine ⟨?_, ?_, ?_⟩
  · cases nodes with
    | none => simp
    | some nodes => exact h.nodes nodes rfl
  · cases edges with
    | none => simp
    | some edges => exact h.edges edges rfl
  · cases uniforms with
    | none => simp
    | some uniforms => exact h.uniforms uniforms rfl

section Lists

variable {room : Nat} {document : Document} (hdocument : document.Fits (room + 3))

include hdocument

/-- The items of a list that was read off a document. -/
theorem forall_of_list {α : Type} {read : Document → Read α} {P : α → Prop} {values : List α}
    (hread : ∀ d : Document, d.Fits (room + 2) → ∀ a, read d = .ok a → P a)
    (h : Document.list read document = .ok values) : ∀ a ∈ values, P a := by
  obtain ⟨documents, rfl, hmap⟩ := list_eq_ok.mp h
  intro a ha
  obtain ⟨d, hd, hda⟩ := exists_of_mem_mapM hmap a ha
  cases hdocument with
  | array hitems => exact hread d (hitems d hd) a hda

theorem nodes_of_list {nodes : List Node} (h : Document.list Node.decode document = .ok nodes) :
    ∀ node ∈ nodes, node.Sound room :=
  forall_of_list hdocument (fun _ hd _ => Node.decode_sound hd) h

theorem edges_of_list {edges : List Edge} (h : Document.list Edge.decode document = .ok edges) :
    ∀ edge ∈ edges, Kept edgeKeys (room + 1) edge.extra :=
  forall_of_list hdocument (fun _ hd _ => Edge.decode_kept hd) h

theorem uniforms_of_list {uniforms : List Uniform}
    (h : Document.list Uniform.decode document = .ok uniforms) :
    ∀ uniform ∈ uniforms, uniform.Sound (room + 1) :=
  forall_of_list hdocument (fun _ hd _ => Uniform.decode_sound hd) h

end Lists

theorem GraphDraft.Sound.step {room : Nat} {draft draft' : GraphDraft} {key : String}
    {document : Document} (hdraft : draft.Sound room) (hdocument : document.Fits (room + 3))
    (h : draft.step key document = .ok draft') : draft'.Sound room := by
  unfold GraphDraft.step at h
  split_ifs at h
  · obtain ⟨nodes, hnodes, rfl⟩ := putOnce_eq_ok h
    refine ⟨?_, hdraft.edges, hdraft.uniforms⟩
    rintro _ ⟨rfl⟩
    exact nodes_of_list hdocument hnodes
  · obtain ⟨edges, hedges, rfl⟩ := putOnce_eq_ok h
    refine ⟨hdraft.nodes, ?_, hdraft.uniforms⟩
    rintro _ ⟨rfl⟩
    exact edges_of_list hdocument hedges
  · obtain ⟨uniforms, huniforms, rfl⟩ := putOnce_eq_ok h
    refine ⟨hdraft.nodes, hdraft.edges, ?_⟩
    rintro _ ⟨rfl⟩
    exact uniforms_of_list hdocument huniforms
  · obtain ⟨_, _, h⟩ := bind_eq_ok.mp h
    cases h
    exact hdraft

namespace Graph

variable {room : Nat} {graph : Graph}

theorem decode_sound {document : Document} (hdocument : document.Fits (room + 4))
    (h : Graph.decode document = .ok graph) : graph.Sound room := by
  cases hdocument with
  | object hmembers =>
    rw [decode] at h
    obtain ⟨draft, hdraft, h⟩ := bind_eq_ok.mp h
    cases h
    have hsound : draft.Sound room := eachMember_keeps (fun _ _ _ _ => GraphDraft.Sound.step)
      ⟨by simp, by simp, by simp⟩ hmembers hdraft
    exact hsound.graph
  | array hitems =>
    rw [decode] at h
    obtain ⟨⟨nodes, rest⟩, hnodes, h⟩ := bind_eq_ok.mp h
    obtain ⟨⟨edges, rest'⟩, hedges, h⟩ := bind_eq_ok.mp h
    obtain ⟨⟨uniforms, rest''⟩, huniforms, h⟩ := bind_eq_ok.mp h
    obtain ⟨_, _, h⟩ := bind_eq_ok.mp h
    cases h
    obtain ⟨hnodes, hrest⟩ :=
      nextItem_forall (fun d hd _ => nodes_of_list (hitems d hd)) hnodes
    obtain ⟨hedges, hrest'⟩ :=
      nextItem_forall (fun d hd _ => edges_of_list (hitems d (hrest d hd))) hedges
    obtain ⟨huniforms, _⟩ :=
      nextItem_forall (fun d hd _ => uniforms_of_list (hitems d (hrest d (hrest' d hd)))) huniforms
    have hsound : GraphDraft.Sound room ⟨nodes, edges, uniforms⟩ := ⟨hnodes, hedges, huniforms⟩
    exact hsound.graph
  | _ => exact absurd h refuse_ne_ok

theorem Sound.decode_encode (h : graph.Sound room) :
    Graph.decode (documentOf graph.encode) = .ok graph.saved := by
  have hnodes := list_documentOf (r := Node.saved) fun node hn => (h.nodes node hn).decode_encode
  have hedges := list_documentOf_self fun edge he => Edge.decode_encode (h.edges edge he)
  have huniforms := list_documentOf_self fun uniform hu =>
    Uniform.decode_encode (h.uniforms uniform hu)
  rw [encode, documentOf, decode, memberDocumentsOf, memberDocumentsOf, memberDocumentsOf,
    memberDocumentsOf, eachMember_cons ⟨some (graph.nodes.map Node.saved), none, none⟩,
    eachMember_cons ⟨some (graph.nodes.map Node.saved), some graph.edges, none⟩,
    eachMember_cons ⟨some (graph.nodes.map Node.saved), some graph.edges, some graph.uniforms⟩]
  · rfl
  · simp [GraphDraft.step, once_none huniforms]
  · simp [GraphDraft.step, once_none hedges]
  · simp [GraphDraft.step, once_none hnodes]

theorem Sound.fits_encode (h : graph.Sound room) (hroom : 3 ≤ room) :
    graph.encode.Fits (room + 4) := by
  have hlist : ∀ {α : Type} {encode : α → Json} {items : List α},
      (∀ a ∈ items, (encode a).Fits (room + 2)) →
        (Json.array (items.map encode)).Fits (room + 3) := by
    intro α encode items hitems
    refine .array fun item hi => ?_
    obtain ⟨a, ha, rfl⟩ := List.mem_map.mp hi
    exact hitems a ha
  refine .object ?_
  simp only [List.forall_mem_cons]
  exact ⟨hlist fun node hn => (h.nodes node hn).fits_encode hroom,
    hlist fun edge he => Edge.fits_encode (h.edges edge he),
    hlist fun uniform hu => Uniform.fits_encode (h.uniforms uniform hu), by simp⟩

/-- What is read from a text can be written. -/
theorem sound_of_ofText {text : String} (h : ofText text = .ok graph) : graph.Sound 123 := by
  have hfits := parse_fits text
  unfold ofText Json.read at h
  generalize parse text = result at h hfits
  obtain ⟨document, rest⟩ := result
  obtain ⟨read, hread, h⟩ := bind_eq_ok.mp h
  split at h
  · cases h
    exact decode_sound hfits hread
  · cases h

/-- A text that was printed is read off the document that it was printed from. -/
theorem ofText_pretty {json : Json} (h : json.Fits depthLimit) :
    ofText json.pretty = Graph.decode (documentOf json) := by
  unfold ofText Json.read
  rw [h.parse_pretty]
  simp only
  cases Graph.decode (documentOf json) <;> rfl

theorem Sound.ofText_text (h : graph.Sound 123) : ofText graph.text = .ok graph.saved := by
  rw [text, ofText_pretty (h.fits_encode (by decide)), h.decode_encode]

/-! ## Shaders -/

theorem node?_saved (graph : Graph) (id : String) :
    graph.saved.node? id = (graph.node? id).map Node.saved := by
  show (graph.nodes.map Node.saved).reverse.find? (fun node => node.id == id) = _
  rw [← List.map_reverse, List.find?_map]
  rfl

end Graph

/-- The zero that is told from zero by its sign only. -/
def Binary64.negativeZero : Binary64 := signed true 0

theorem Binary64.saved_eq_self {x : Binary64} (h : x ≠ negativeZero) : x.saved = x := by
  by_cases h0 : x.magnitude = 0
  · have hx := x.signed_magnitude
    rw [h0] at hx
    cases hsign : x.isNegative with
    | true => exact absurd (hsign ▸ hx).symm h
    | false => rw [saved, if_pos h0, ← hx, hsign]; rfl
  · exact saved_of_ne h0

theorem Payload.saved_eq_self {payload : Payload}
    (h : payload ≠ .literal (some Binary64.negativeZero)) : payload.saved = payload := by
  unfold saved
  split
  · rename_i x
    rw [Binary64.saved_eq_self fun hx => h (hx ▸ rfl)]
  · rfl

theorem Node.alike_saved {node : Node}
    (h : node.data.payload ≠ .literal (some Binary64.negativeZero)) : node.Alike node.saved :=
  ⟨rfl, rfl, rfl, rfl, (Payload.saved_eq_self h).symm, rfl⟩

namespace Graph

variable {graph : Graph} {sink : String}

/-- Behind a sink with no negative zero there, a graph and its saved form look the same. -/
theorem agreeOn_saved (h : ∀ node, graph.Reached sink node →
      node.data.payload ≠ .literal (some Binary64.negativeZero)) :
    graph.AgreeOn graph.saved
      {id | ∀ node, graph.node? id = some node → graph.Reached sink node} where
  node := by
    intro id hid
    rw [node?_saved]
    cases hn : graph.node? id with
    | none => exact .none
    | some node => exact .some (Node.alike_saved (h node (hid node hn)))
  edges := by
    intro id _ _
    exact List.forall₂_same.mpr fun edge _ => ⟨rfl, rfl⟩
  closed := by
    intro id hid hsome edge he source hsource
    obtain ⟨node, hn⟩ := Option.isSome_iff_exists.mp hsome
    refine (hid node hn).input (mem_inputNodes.mpr ⟨edge, ?_, hsource⟩)
    rw [node?_id hn]
    exact he
  uniform := by
    intro id _ node _ u _ _
    show Option.Rel Uniform.Alike (graph.uniform? u) (graph.uniform? u)
    cases graph.uniform? u with
    | none => exact .none
    | some uniform => exact .some ⟨rfl, rfl⟩

theorem compile_saved (registry : Registry) (h : ∀ node, graph.Reached sink node →
      node.data.payload ≠ .literal (some Binary64.negativeZero)) :
    compile registry graph.saved sink = compile registry graph sink := by
  have hrun : run registry graph sink {} = run registry graph.saved sink {} :=
    (agreeOn_saved h).run (fun _ hn => .sink hn) rfl
  simp only [compile, hrun]

/-- **A graph that was read from a text is saved and read again as itself, but for the
sign of zeros.** Behind a sink where no node holds a negative zero, the shader stays
the same, as do the errors that leave it empty and the error that stops it. -/
theorem compile_reloaded (text : String) (graph : Graph) (h : ofText text = .ok graph) :
    ofText graph.text = .ok graph.saved ∧
      ∀ (registry : Registry) (sink : String),
        (∀ node, graph.Reached sink node →
          node.data.payload ≠ .literal (some Binary64.negativeZero)) →
        compile registry graph.saved sink = compile registry graph sink :=
  ⟨(sound_of_ofText h).ofText_text, fun registry _ hnodes => compile_saved registry hnodes⟩

/-- A number that is shown. -/
def shown (x : Binary64) : Graph where
  nodes := [{ id := "f", type := "float",
              data := { name := "f", kind := some "float", payload := .literal (some x) } },
    { id := "p", type := "preview" }]
  edges := [{ id := "e", source := "f", target := "p" }]

/-- The same as JSON, with the number as it is. -/
def shownJson (x : Binary64) : Json :=
  .object [("nodes", .array [
      .object [("id", .string "f"), ("type", .string "float"), ("data", .object [
        ("name", .string "f"), ("type", .string "float"), ("value", .number (.float x))])],
      .object [("id", .string "p"), ("type", .string "preview")]]),
    ("edges", .array [
      .object [("id", .string "e"), ("source", .string "f"), ("target", .string "p")]])]

theorem shownJson_fits {x : Binary64} (h : x.isFinite = true) :
    (shownJson x).Fits depthLimit := by
  refine .object ?_
  simp only [List.forall_mem_cons]
  refine ⟨.array ?_, .array ?_, by simp⟩
  · simp only [List.forall_mem_cons]
    refine ⟨.object ?_, .object ?_, by simp⟩
    · simp only [List.forall_mem_cons]
      refine ⟨.string _, .string _, .object ?_, by simp⟩
      simp only [List.forall_mem_cons]
      exact ⟨.string _, .string _, .number h, by simp⟩
    · simp only [List.forall_mem_cons]
      exact ⟨.string _, .string _, by simp⟩
  · simp only [List.forall_mem_cons]
    refine ⟨.object ?_, by simp⟩
    simp only [List.forall_mem_cons]
    exact ⟨.string _, .string _, .string _, by simp⟩

theorem ofText_shownJson {x : Binary64} (h : x.isFinite = true) :
    ofText (shownJson x).pretty = .ok (shown x) := by
  rw [ofText_pretty (shownJson_fits h)]
  rfl

/-- The number nearest to -0.1 is read again as itself. -/
theorem compile_reloaded_tenth :
    ofText (shownJson ⟨0xbfb999999999999a⟩).pretty = .ok (shown ⟨0xbfb999999999999a⟩) ∧
      (∀ node, (shown ⟨0xbfb999999999999a⟩).Reached "p" node →
        node.data.payload ≠ .literal (some Binary64.negativeZero)) ∧
      ofText (shown ⟨0xbfb999999999999a⟩).text = .ok (shown ⟨0xbfb999999999999a⟩).saved ∧
      compile Registry.builtin (shown ⟨0xbfb999999999999a⟩).saved "p" =
        compile Registry.builtin (shown ⟨0xbfb999999999999a⟩) "p" := by
  have hread : ofText (shownJson ⟨0xbfb999999999999a⟩).pretty = .ok (shown ⟨0xbfb999999999999a⟩) :=
    ofText_shownJson (by decide)
  have hnodes : ∀ node, (shown ⟨0xbfb999999999999a⟩).Reached "p" node →
      node.data.payload ≠ .literal (some Binary64.negativeZero) := by
    intro node hr
    rcases List.mem_cons.mp (node?_mem hr.node?) with rfl | hlast
    · intro h
      injection h with h
      exact absurd (Option.some.inj h) (by decide)
    · cases List.mem_singleton.mp hlast
      exact fun h => nomatch h
  obtain ⟨hsaved, hshader⟩ := compile_reloaded _ _ hread
  exact ⟨hread, hnodes, hsaved, hshader Registry.builtin "p" hnodes⟩

/-- **A negative zero that is shown turns into zero** when the graph is saved and read again. -/
theorem reloaded_negativeZero :
    ofText (shownJson .negativeZero).pretty = .ok (shown .negativeZero) ∧
      (compile Registry.builtin (shown .negativeZero) "p").toOption.map (·.source.fragment) =
        some "void main() \x7b\n    float f = -0.;\n    gl_FragColor = vec4(vec3(f), 1.);\n\x7d\n" ∧
      ofText (shown .negativeZero).text = .ok (shown ⟨0⟩) ∧
      (compile Registry.builtin (shown ⟨0⟩) "p").toOption.map (·.source.fragment) =
        some "void main() \x7b\n    float f = 0.;\n    gl_FragColor = vec4(vec3(f), 1.);\n\x7d\n" := by
  have hread : ofText (shownJson .negativeZero).pretty = .ok (shown .negativeZero) :=
    ofText_shownJson (by decide)
  refine ⟨hread, by decide +kernel, ?_, by decide +kernel⟩
  rw [(sound_of_ofText hread).ofText_text]
  rfl

end Graph

end ShaderGraph
