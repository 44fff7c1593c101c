import ShaderGraph.Proofs.Emission
import ShaderGraph.Proofs.Members

/-!
The number of a node. Its data has one member for a value, and where the value is put depends on
the other members: into a literal, beside a reference to a uniform, or aside. The number is
found in each of these places (`NodeFields.literal?_toData`).

Data made from a uniform holds the number of the uniform and is no reference. So a generator
that hands a reference on to another one, which might do the same again (`Generates`), does so
once at most (`Generates.eq_generate`).
-/

namespace ShaderGraph
open Json

/-! ## Data that is read -/

/-- The number that stands in a text, read as a floating-point number. -/
def Json.Document.number? : Document → Option Binary64
  | .number n => n.map Number.toBinary64
  | _ => none

/-- A document has the number of its value. -/
theorem toBinary64?_of_value {document : Document} {json : Json} (h : document.value = .ok json) :
    json.toBinary64? = document.number? := by
  cases document with
  | null | bool _ =>
    cases h
    rfl
  | number n | string n =>
    cases n with
    | none => cases h
    | some n =>
      cases h
      rfl
  | array _ _ | object _ _ =>
    rw [Document.value] at h
    obtain ⟨_, _, h⟩ := bind_eq_ok.mp h
    obtain ⟨_, _, h⟩ := bind_eq_ok.mp h
    cases h
    rfl
  | buried _ | broken _ => cases h

/-- Members are read to their end. -/
theorem eachMember_complete {σ : Type} {step : σ → String → Document → Read σ} {draft last : σ}
    {cut : Option Break} {members : List (Option String × Document)}
    (h : eachMember step cut draft members = .ok last) : cut = none := by
  induction members generalizing draft with
  | nil =>
    rw [eachMember] at h
    obtain ⟨_, hcut, _⟩ := bind_eq_ok.mp h
    exact closing_eq_ok.mp hcut
  | cons m members ih =>
    obtain ⟨_ | key, document⟩ := m
    · cases h
    rw [eachMember] at h
    obtain ⟨_, _, h⟩ := bind_eq_ok.mp h
    exact ih h

namespace NodeDataDraft

variable {draft draft' last : NodeDataDraft} {cut : Option Break}
  {members : List (Option String × Document)}

theorem step_value {document : Document} (h : draft.step "value" document = .ok draft') :
    draft.value = none ∧ ∃ json, document.value = .ok json ∧ draft'.value = some json := by
  obtain ⟨_, hread, h⟩ := bind_eq_ok.mp h
  obtain ⟨hnew, json, hjson, rfl⟩ := once_eq_ok.mp hread
  cases h
  exact ⟨hnew, json, hjson, rfl⟩

theorem step_other {key : String} {document : Document} (hkey : key ≠ "value")
    (h : draft.step key document = .ok draft') : draft'.value = draft.value := by
  have hview : draft'.view "value" = draft.view "value" := (step_carries h).1 "value" hkey.symm
  exact hview

/-- **The value of a node is that of its one member for it.** -/
theorem value_of_eachMember (h : eachMember step cut draft members = .ok last) :
    (∀ d, (some "value", d) ∈ members →
      draft.value = none ∧ ∃ json, d.value = .ok json ∧ last.value = some json) ∧
      ((∀ d, (some "value", d) ∉ members) → last.value = draft.value) := by
  induction members generalizing draft with
  | nil =>
    rw [eachMember] at h
    obtain ⟨_, _, h⟩ := bind_eq_ok.mp h
    cases h
    exact ⟨by simp, fun _ => rfl⟩
  | cons m members ih =>
    obtain ⟨_ | key, document⟩ := m
    · cases h
    rw [eachMember] at h
    obtain ⟨next, hnext, h⟩ := bind_eq_ok.mp h
    obtain ⟨hlater, hnone⟩ := ih h
    by_cases hkey : key = "value"
    · subst hkey
      obtain ⟨hnew, json, hjson, hvalue⟩ := step_value hnext
      -- a second member would find the value there already
      have honce : ∀ d, (some "value", d) ∉ members := by
        intro d hd
        rw [(hlater d hd).1] at hvalue
        cases hvalue
      refine ⟨?_, fun habsent => absurd List.mem_cons_self (habsent document)⟩
      intro d hd
      rcases List.mem_cons.mp hd with hd | hd
      · cases hd
        exact ⟨hnew, json, hjson, (hnone honce).trans hvalue⟩
      · exact absurd hd (honce d)
    · have hsame := step_other hkey hnext
      refine ⟨?_, fun habsent => ?_⟩
      · intro d hd
        rcases List.mem_cons.mp hd with hd | hd
        · cases hd
          exact absurd rfl hkey
        · rw [← hsame]
          exact hlater d hd
      · rw [hnone fun d hd => habsent d (List.mem_cons_of_mem _ hd), hsame]

theorem step_extra {key : String} {document : Document} (h : draft.step key document = .ok draft')
    (hdraft : ∀ m ∈ draft.extra, m.1 ≠ "value") : ∀ m ∈ draft'.extra, m.1 ≠ "value" := by
  unfold step at h
  simp only at h
  split_ifs at h with h₁ h₂ h₃ h₄ h₅ h₆
  case neg =>
    obtain ⟨json, _, h⟩ := bind_eq_ok.mp h
    cases h
    intro m hm
    rcases Table.mem_insert hm with rfl | hm
    · exact h₃
    · exact hdraft m hm
  all_goals
    obtain ⟨_, _, rfl⟩ := putOnce_eq_ok h
    exact hdraft

/-- No value is kept among the members that are not known. -/
theorem extra_of_eachMember (h : eachMember step cut {} members = .ok last) :
    ∀ m ∈ last.extra, m.1 ≠ "value" := by
  refine eachMember_keeps (P := fun draft => ∀ m ∈ draft.extra, m.1 ≠ "value")
    (Q := fun _ => True) ?_ (by simp) (fun _ _ => trivial) h
  intro draft key document draft' hdraft _ hstep
  exact step_extra hstep hdraft

end NodeDataDraft

/-! ## Where the number is -/

/-- **The number is found wherever the value is put.** -/
theorem NodeFields.literal?_toData {fields : NodeFields}
    (h : ∀ m ∈ fields.extra, m.1 ≠ "value") :
    fields.toData.literal? = fields.value.bind Json.toBinary64? := by
  have hfind := find?_keepValue h
  have hshape := shape h
  generalize fields.toData = data at hshape
  generalize data.toFields = saved at hshape
  cases hshape with
  | reference => rfl
  | function => exact congrArg (Option.bind · Json.toBinary64?) hfind
  | number name json x extra hx => exact hx.symm
  | unread name value extra hx => exact hx.symm
  | plain => exact congrArg (Option.bind · Json.toBinary64?) hfind

theorem NodeFields.payload_toData {fields : NodeFields} (h : ∀ m ∈ fields.extra, m.1 ≠ "value")
    (hid : fields.uniformId = none) (id : String) (value : Option Json) :
    fields.toData.payload ≠ .uniform id value := by
  intro hpayload
  have href := ((shape h).uniformId_eq_some_iff id).mpr ⟨value, hpayload⟩
  rw [hid] at href
  cases href

namespace NodeData

variable (name : String) (u : Uniform)

theorem literal?_ofUniform : (ofUniform name u).literal? = u.value.toBinary64? :=
  NodeFields.literal?_toData (by simp)

theorem payload_ofUniform (id : String) (value : Option Json) :
    (ofUniform name u).payload ≠ .uniform id value :=
  NodeFields.payload_toData (by simp) rfl id value

end NodeData

/-- What data of a node is read off. -/
theorem NodeData.decode_eq_ok {document : Document} {data : NodeData}
    (h : NodeData.decode document = .ok data) :
    ∃ members, ∃ fields : NodeFields, document = .object members none ∧ data = fields.toData ∧
      (∀ m ∈ fields.extra, m.1 ≠ "value") ∧
      (∀ d, (some "value", d) ∈ members → ∃ json, d.value = .ok json ∧ fields.value = some json) ∧
      ((∀ d, (some "value", d) ∉ members) → fields.value = none) := by
  rw [NodeData.decode] at h
  obtain ⟨fields, hfields, h⟩ := bind_eq_ok.mp h
  cases h
  cases document with
  | object members cut =>
    rw [NodeFields.decode] at hfields
    obtain ⟨draft, hdraft, hfields⟩ := bind_eq_ok.mp hfields
    cases hfields
    obtain ⟨hvalue, hnone⟩ := NodeDataDraft.value_of_eachMember hdraft
    obtain rfl := eachMember_complete hdraft
    exact ⟨members, _, rfl, rfl, NodeDataDraft.extra_of_eachMember hdraft,
      fun d hd => (hvalue d hd).2, hnone⟩
  | _ => exact absurd hfields refuse_ne_ok

/-! ## Handing on -/

section HandingOn

variable {registry : Registry} {graph : Graph}

/-- The node is a reference and the generator is that of references. -/
def IsReference (g : Generator) (node : Node) : Prop :=
  g = .uniform ∧ ∃ id value, node.data.payload = .uniform id value

/-- What becomes of a node that is given to a generator, and how many times it is handed on.
A reference is handed on to the generator of the kind of its uniform, with data made from the
uniform, and that one treats it in the same way. -/
inductive Generates (registry : Registry) (graph : Graph) (pass : Pass) :
    Generator → Node → Nat → Pass × Option RunError → Prop
  | emits {g : Generator} {node : Node} (h : ¬ IsReference g node) :
      Generates registry graph pass g node 0 (g.emit graph node pass, none)
  | missing {node : Node} {id : String} {value : Option Json}
      (hpayload : node.data.payload = .uniform id value) (hu : graph.uniform? id = none) :
      Generates registry graph pass .uniform node 0 (pass, none)
  | unknown {node : Node} {id : String} {value : Option Json} {u : Uniform}
      (hpayload : node.data.payload = .uniform id value) (hu : graph.uniform? id = some u)
      (hkind : registry.find? u.kind.name = none) :
      Generates registry graph pass .uniform node 0
        (pass, some (.unknownNodeKind node.id u.kind.name))
  | handedOn {node : Node} {id : String} {value : Option Json} {u : Uniform} {target : Generator}
      {n : Nat} {outcome : Pass × Option RunError}
      (hpayload : node.data.payload = .uniform id value) (hu : graph.uniform? id = some u)
      (hkind : registry.find? u.kind.name = some target)
      (hlater : Generates registry graph pass target { node with data := .ofUniform node.name u }
        n outcome) :
      Generates registry graph pass .uniform node (n + 1) outcome

variable {pass : Pass} {g : Generator} {node : Node}

theorem generate_of_not_isReference (h : ¬ IsReference g node) :
    generate registry graph g node pass = (g.emit graph node pass, none) := by
  unfold generate
  split
  · rename_i id value hpayload
    exact absurd ⟨rfl, id, value, hpayload⟩ h
  · rfl

/-- Data made from a uniform is not handed on again. -/
theorem not_isReference_ofUniform (g : Generator) (node : Node) (u : Uniform) :
    ¬ IsReference g { node with data := .ofUniform node.name u } := by
  rintro ⟨_, id, value, hpayload⟩
  exact NodeData.payload_ofUniform node.name u id value hpayload

namespace Generates

theorem of_not_isReference {n : Nat} {outcome : Pass × Option RunError}
    (h : Generates registry graph pass g node n outcome) (hnode : ¬ IsReference g node) :
    n = 0 ∧ outcome = (g.emit graph node pass, none) := by
  cases h with
  | emits _ => exact ⟨rfl, rfl⟩
  | missing hpayload _ => exact absurd ⟨rfl, _, _, hpayload⟩ hnode
  | unknown hpayload _ _ => exact absurd ⟨rfl, _, _, hpayload⟩ hnode
  | handedOn hpayload _ _ _ => exact absurd ⟨rfl, _, _, hpayload⟩ hnode

/-- **A node is handed on once at most**, and then all is done. -/
theorem eq_generate {n : Nat} {outcome : Pass × Option RunError}
    (h : Generates registry graph pass g node n outcome) :
    n ≤ 1 ∧ outcome = generate registry graph g node pass := by
  cases h with
  | emits hnode => exact ⟨Nat.zero_le 1, (generate_of_not_isReference hnode).symm⟩
  | missing hpayload hu => exact ⟨Nat.zero_le 1, by simp [generate, hpayload, hu]⟩
  | unknown hpayload hu hkind => exact ⟨Nat.zero_le 1, by simp [generate, hpayload, hu, hkind]⟩
  | handedOn hpayload hu hkind hlater =>
    obtain ⟨rfl, rfl⟩ := hlater.of_not_isReference (not_isReference_ofUniform _ node _)
    exact ⟨Nat.le_refl 1, by simp [generate, hpayload, hu, hkind]⟩

/-- A generator does come to an end. -/
theorem of_generate (registry : Registry) (graph : Graph) (g : Generator) (node : Node)
    (pass : Pass) :
    ∃ n, Generates registry graph pass g node n (generate registry graph g node pass) := by
  unfold generate
  split
  · rename_i id value hpayload
    cases hu : graph.uniform? id with
    | none => exact ⟨0, .missing hpayload hu⟩
    | some u =>
      simp only
      cases hkind : registry.find? u.kind.name with
      | none => exact ⟨0, .unknown hpayload hu hkind⟩
      | some target =>
        have hlater := not_isReference_ofUniform target node u
        exact ⟨1, .handedOn hpayload hu hkind (.emits hlater)⟩
  · rename_i hother
    refine ⟨0, .emits ?_⟩
    rintro ⟨rfl, id, value, hpayload⟩
    exact hother id value rfl hpayload

end Generates

end HandingOn

/-- **The number of a node is that of its value.** Data that is read off a text has been read off
an object with one value at most, and the number of the data is that of the value, if this is a
number, whatever else stands in the object. Data made from a uniform has the number of the
uniform and is no reference to one. So for any registry a generator that is given a node comes
to its end, and on every way there the node is handed on once at most. -/
theorem literal_follows_value :
    (∀ document data, NodeData.decode document = .ok data →
      ∃ members, document = .object members none ∧
        (∀ d, (some "value", d) ∈ members → data.literal? = d.number?) ∧
        ((∀ d, (some "value", d) ∉ members) → data.literal? = none)) ∧
    (∀ name u, (NodeData.ofUniform name u).literal? = u.value.toBinary64? ∧
      ∀ id value, (NodeData.ofUniform name u).payload ≠ .uniform id value) ∧
    ∀ registry graph g node pass,
      (∃ n, Generates registry graph pass g node n (generate registry graph g node pass)) ∧
      ∀ n outcome, Generates registry graph pass g node n outcome →
        n ≤ 1 ∧ outcome = generate registry graph g node pass := by
  refine ⟨?_, ?_, ?_⟩
  · intro document data h
    obtain ⟨members, fields, hdocument, rfl, hextra, hvalue, hnone⟩ := NodeData.decode_eq_ok h
    refine ⟨members, hdocument, ?_, ?_⟩
    · intro d hd
      obtain ⟨json, hjson, hfield⟩ := hvalue d hd
      rw [NodeFields.literal?_toData hextra, hfield, ← toBinary64?_of_value hjson]
      rfl
    · intro habsent
      rw [NodeFields.literal?_toData hextra, hnone habsent]
      rfl
  · intro name u
    exact ⟨NodeData.literal?_ofUniform name u, NodeData.payload_ofUniform name u⟩
  · intro registry graph g node pass
    exact ⟨Generates.of_generate registry graph g node pass, fun _ _ h => h.eq_generate⟩

/-- A reference to a uniform, with code that it has no use for. -/
def cachedMembers : List (Option String × Document) :=
  [(some "value", .number (some (.int 3))), (some "uniformId", .string (some "u")),
    (some "code", .string (some "float f;"))]

theorem literal_follows_value_cached :
    ∃ data, NodeData.decode (.object cachedMembers none) = .ok data ∧
      data.literal? = some (Binary64.ofInt 3) := by
  have hdecode : NodeData.decode (.object cachedMembers none) =
      .ok { payload := .uniform "u" (some (.ofInt 3)) } := rfl
  obtain ⟨members, hmembers, hvalue, _⟩ := literal_follows_value.1 _ _ hdecode
  cases hmembers
  exact ⟨_, hdecode, hvalue (.number (some (.int 3))) List.mem_cons_self⟩

end ShaderGraph
