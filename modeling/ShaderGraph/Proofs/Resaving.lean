import ShaderGraph.Proofs.Saving

/-!
One save is enough. What is read back from a saved graph equals the graph, since numbers
are compared by value and the sign of a zero is all that saving loses
(`Graph.Sound.same_saved`); and it is saved as the graph was (`Graph.encode_saved`). So
whatever was read first, be it a text or a value, all later saves write the same.
-/

namespace ShaderGraph
open Json

/-! ## Equality by value -/

namespace Binary64

/-- Saving keeps a number, as numbers are compared. -/
theorem same_saved {x : Binary64} (h : x.isFinite = true) : x.same x.saved = true := by
  have hle : x.magnitude ≤ format.infinity := Nat.le_of_lt (of_decide_eq_true h)
  by_cases h0 : x.magnitude = 0
  · have hzero : (⟨0⟩ : Binary64).magnitude = 0 := rfl
    simp [same, saved, h0, hzero]
  · rw [saved_of_ne h0]
    simp [same, hle]

theorem same_self {x : Binary64} (h : x.isFinite = true) : x.same x = true := by
  have hle : x.magnitude ≤ format.infinity := Nat.le_of_lt (of_decide_eq_true h)
  simp [same, hle]

end Binary64

namespace Json

theorem Number.InRange.same_self {n : Number} (h : n.InRange) : n.same n = true := by
  cases n with
  | int n => simp [Number.same]
  | float x => exact Binary64.same_self h

theorem sameItems_self {items : List Json} (h : ∀ item ∈ items, item.same item = true) :
    sameItems items items = true := by
  induction items with
  | nil => rfl
  | cons item items ih =>
    obtain ⟨hitem, hitems⟩ := List.forall_mem_cons.mp h
    rw [sameItems, hitem, ih hitems]
    rfl

theorem sameMembers_self {members : List (String × Json)}
    (h : ∀ m ∈ members, m.2.same m.2 = true) : sameMembers members members = true := by
  induction members with
  | nil => rfl
  | cons m members ih =>
    obtain ⟨hm, hmembers⟩ := List.forall_mem_cons.mp h
    rw [sameMembers, hm, ih hmembers, beq_self_eq_true]
    rfl

/-- A value equals itself if no number in it is infinite or no number at all. -/
theorem Fits.same_self {room : Nat} {json : Json} (h : json.Fits room) : json.same json = true := by
  induction h with
  | null => rfl
  | bool b => simp [same]
  | number hn => exact hn.same_self
  | string s => simp [same]
  | array _ ih => exact sameItems_self ih
  | object _ ih => exact sameMembers_self ih

theorem sameMembers_of_fits {room : Nat} {members : List (String × Json)}
    (h : ∀ m ∈ members, m.2.Fits room) : sameMembers members members = true :=
  sameMembers_self fun m hm => (h m hm).same_self

theorem memberDocumentsOf_eq (members : List (String × Json)) :
    memberDocumentsOf members = members.map fun m => (some m.1, documentOf m.2) := by
  induction members with
  | nil => rfl
  | cons m members ih => rw [memberDocumentsOf, ih, List.map_cons]

/-- A value is a document that says no more than the value does. -/
theorem Fits.documentOf {room : Nat} {json : Json} (h : json.Fits room) :
    (documentOf json).Fits room := by
  induction h with
  | null => exact .null
  | bool b => exact .bool b
  | number hn =>
    refine .number fun n hsome => ?_
    cases hsome
    exact hn
  | string s => exact .string s
  | @array room items _ ih =>
    rw [Json.documentOf, documentsOf_eq]
    refine .array fun d hd => ?_
    obtain ⟨item, hi, rfl⟩ := List.mem_map.mp hd
    exact ih item hi
  | @object room members _ ih =>
    rw [Json.documentOf, memberDocumentsOf_eq]
    refine .object fun d hd => ?_
    obtain ⟨m, hm, rfl⟩ := List.mem_map.mp hd
    exact ih m hm

end Json

/-! ## Nodes -/

/-- A payload without an infinite number and without what is no number. -/
def Payload.Fits (room : Nat) : Payload → Prop
  | .literal value => ∀ x ∈ value, x.isFinite = true
  | .uniform _ value => ∀ json ∈ value, json.Fits room
  | _ => True

theorem Payload.Fits.same_saved {room : Nat} {payload : Payload} (h : payload.Fits room) :
    payload.same payload.saved = true := by
  cases payload with
  | empty => rfl
  | literal value =>
    cases value with
    | none => rfl
    | some x => exact Binary64.same_saved (h x rfl)
  | uniform id value =>
    cases value with
    | none => simp [saved, same, sameOption]
    | some json => simp [saved, same, sameOption, (h json rfl).same_self]
  | function definition code => simp [saved, same]

/-- What the payload of a node takes of its fields, and what it leaves. -/
theorem NodeFields.Sound.fits_toData {room : Nat} {fields : NodeFields} (h : fields.Sound room) :
    fields.toData.payload.Fits room ∧ ∀ m ∈ fields.toData.extra, m.2.Fits room := by
  have hkeep : ∀ m ∈ fields.keepValue, m.2.Fits room := by
    intro m hm
    unfold keepValue at hm
    split at hm
    · rename_i value hvalue
      rcases Table.mem_insert hm with rfl | hm
      · exact (h.value value hvalue).fits
      · exact h.extra.fits m hm
    · exact h.extra.fits m hm
  have hshape := shape (h.extra.absent (show "value" ∈ nodeDataKeys by decide))
  generalize fields.toData = data at hshape ⊢
  generalize data.toFields = saved at hshape
  cases hshape with
  | reference name kind value id definitions code extra =>
    exact ⟨fun json hjson => (h.value json hjson).fits, h.extra.fits⟩
  | function name kind value definitions code extra hfunction => exact ⟨trivial, hkeep⟩
  | number name json x extra hx =>
    refine ⟨?_, h.extra.fits⟩
    rintro _ ⟨rfl⟩
    exact isFinite_toBinary64? (h.value json rfl).fits hx
  | unread name value extra hx => exact ⟨by simp [Payload.Fits], hkeep⟩
  | plain name kind value extra hfunction hfloat => exact ⟨trivial, hkeep⟩

/-- A zero is written without its sign. -/
theorem numberJson_zero {x : Binary64} (h : x.magnitude = 0) : numberJson x = .ofInt 0 := by
  obtain ⟨n, hn⟩ := Binary64.toInt?_of_zero h
  have hsize := (Binary64.toInt?_eq_some hn).2.1
  rw [Binary64.size_eq_zero_iff.mpr h, Nat.cast_eq_zero, Int.natAbs_eq_zero] at hsize
  subst hsize
  rw [numberJson, hn]
  exact if_pos (by decide)

theorem numberJson_saved (x : Binary64) : numberJson x.saved = numberJson x := by
  by_cases h0 : x.magnitude = 0
  · rw [numberJson_zero h0, Binary64.saved, if_pos h0, numberJson_zero rfl]
  · rw [Binary64.saved_of_ne h0]

theorem NodeData.encode_saved (data : NodeData) : data.saved.encode = data.encode := by
  obtain ⟨name, kind, payload, extra⟩ := data
  cases payload with
  | literal value =>
    cases value with
    | none => rfl
    | some x => simp only [encode, toFields, saved, Payload.saved, Option.map_some, numberJson_saved]
  | _ => rfl

theorem NodeData.Sound.same_saved {room : Nat} {data : NodeData} (h : data.Sound room) :
    data.same data.saved = true := by
  obtain ⟨fields, hfields, rfl⟩ := h
  obtain ⟨hpayload, hextra⟩ := hfields.fits_toData
  simp [same, saved, hpayload.same_saved, sameMembers_of_fits hextra]

theorem Node.encode_saved (node : Node) : node.saved.encode = node.encode := by
  simp only [encode, saved, NodeData.encode_saved]

theorem Node.Sound.same_saved {room : Nat} {node : Node} (h : node.Sound room) :
    node.same node.saved = true := by
  simp [same, saved, h.data.same_saved, sameMembers_of_fits h.extra.fits]

/-! ## Graphs -/

theorem Edge.same_self {room : Nat} {edge : Edge} (h : Kept edgeKeys room edge.extra) :
    edge.same edge = true := by
  simp [same, sameMembers_of_fits h.fits]

theorem Uniform.Sound.same_self {room : Nat} {uniform : Uniform} (h : uniform.Sound room) :
    uniform.same uniform = true := by
  simp [same, h.value.fits.same_self, sameMembers_of_fits h.extra.fits]

namespace Graph

theorem sameList_map {α : Type} {same : α → α → Bool} {f : α → α} {items : List α}
    (h : ∀ a ∈ items, same a (f a) = true) : sameList same items (items.map f) = true := by
  induction items with
  | nil => rfl
  | cons a items ih =>
    obtain ⟨ha, hitems⟩ := List.forall_mem_cons.mp h
    rw [List.map_cons, sameList, ha, ih hitems]
    rfl

variable {room : Nat} {graph : Graph}

/-- **A graph equals its saved form.** -/
theorem Sound.same_saved (h : graph.Sound room) : graph.same graph.saved = true := by
  have hedges : sameList Edge.same graph.edges (graph.edges.map id) = true :=
    sameList_map fun edge he => Edge.same_self (h.edges edge he)
  have huniforms : sameList Uniform.same graph.uniforms (graph.uniforms.map id) = true :=
    sameList_map fun uniform hu => (h.uniforms uniform hu).same_self
  rw [List.map_id] at hedges huniforms
  simp only [same, saved, sameList_map fun node hn => (h.nodes node hn).same_saved, hedges,
    huniforms, Bool.and_self]

/-- **A graph is written as its saved form is.** -/
theorem encode_saved (graph : Graph) : graph.saved.encode = graph.encode := by
  simp only [encode, saved, List.map_map, Function.comp_def, Node.encode_saved]

/-- A graph that was read, from a text or off a value. -/
inductive Loaded (graph : Graph) : Prop
  | text {text : String} (h : ofText text = .ok graph)
  | value {room : Nat} {json : Json} (hjson : json.Fits room)
      (h : Graph.decode (documentOf json) = .ok graph)

theorem Loaded.sound (h : graph.Loaded) : ∃ room, graph.Sound room := by
  cases h with
  | text h => exact ⟨123, sound_of_ofText h⟩
  | @value room json hjson h =>
    exact ⟨room, decode_sound (hjson.mono (Nat.le_add_right room 4)).documentOf h⟩

/-- **Decoding undoes encoding, and one save is enough.** Whatever a graph was read from, it is
encoded as a value that is read as an equal graph, and that graph is encoded as the same
value. If the graph was read from a text, its own text is read so too. -/
theorem reload_same (graph : Graph) (h : graph.Loaded) :
    ∃ again, Graph.decode (documentOf graph.encode) = .ok again ∧ graph.same again = true ∧
      again.encode = graph.encode ∧
      ∀ text, ofText text = .ok graph → ofText graph.text = .ok again := by
  obtain ⟨room, hsound⟩ := h.sound
  refine ⟨graph.saved, hsound.decode_encode, hsound.same_saved, encode_saved graph, ?_⟩
  exact fun text htext => (sound_of_ofText htext).ofText_text

/-- A negative zero, a function without its code and a uniform without a value, with members
that are not known. -/
def mixedJson : Json :=
  .object [("nodes", .array [
      .object [("id", .string "f"), ("type", .string "float"), ("data", .object [
        ("type", .string "float"), ("value", .number (.float .negativeZero)), ("code", .null)])],
      .object [("id", .string "g"), ("type", .string "code"), ("data", .object [
        ("name", .string "g"), ("type", .string "function"), ("value", .null)]),
        ("position", .object [("x", .ofInt 3)])]]),
    ("edges", .array [.object [("id", .string "e"), ("source", .string "f"),
      ("target", .string "g"), ("sourceHandle", .null)]]),
    ("uniforms", .array [.object [("id", .string "1"), ("name", .string "u"),
      ("type", .string "float"), ("value", .null), ("min", .ofInt 0)]]),
    ("version", .ofInt 2)]

/-- The graph that it stands for. -/
def mixed : Graph where
  nodes := [{ id := "f", type := "float",
              data := { kind := some "float", payload := .literal (some .negativeZero) } },
    { id := "g", type := "code",
      data := { name := "g", kind := some "function", payload := .function {} "",
                extra := [("value", .null)] },
      extra := [("position", .object [("x", .ofInt 3)])] }]
  edges := [{ id := "e", source := "f", target := "g" }]
  uniforms := [{ id := "1", name := "u", kind := .float, extra := [("min", .ofInt 0)] }]

theorem mixedJson_fits : mixedJson.Fits 4 := by
  have hint : ∀ {room : Nat} (n : Int), -2 ^ 63 ≤ n ∧ n < 2 ^ 64 → (Json.ofInt n).Fits room :=
    fun _ h => .number h
  have hzero : Binary64.negativeZero.isFinite = true := by decide
  refine .object ?_
  simp only [List.forall_mem_cons]
  refine ⟨.array ?_, .array ?_, .array ?_, hint 2 (by decide), by simp⟩
  · simp only [List.forall_mem_cons]
    refine ⟨.object ?_, .object ?_, by simp⟩
    · simp only [List.forall_mem_cons]
      refine ⟨.string _, .string _, .object ?_, by simp⟩
      simp only [List.forall_mem_cons]
      exact ⟨.string _, .number hzero, .null, by simp⟩
    · simp only [List.forall_mem_cons]
      refine ⟨.string _, .string _, .object ?_, .object ?_, by simp⟩
      · simp only [List.forall_mem_cons]
        exact ⟨.string _, .string _, .null, by simp⟩
      · simp only [List.forall_mem_cons]
        exact ⟨hint 3 (by decide), by simp⟩
  · simp only [List.forall_mem_cons]
    refine ⟨.object ?_, by simp⟩
    simp only [List.forall_mem_cons]
    exact ⟨.string _, .string _, .string _, .null, by simp⟩
  · simp only [List.forall_mem_cons]
    refine ⟨.object ?_, by simp⟩
    simp only [List.forall_mem_cons]
    exact ⟨.string _, .string _, .string _, .null, hint 0 (by decide), by simp⟩

theorem reload_same_mixed :
    Graph.decode (documentOf mixedJson) = .ok mixed ∧
      ∃ again, Graph.decode (documentOf mixed.encode) = .ok again ∧ mixed.same again = true ∧
        again.encode = mixed.encode ∧
        ∀ text, ofText text = .ok mixed → ofText mixed.text = .ok again := by
  have hread : Graph.decode (documentOf mixedJson) = .ok mixed := rfl
  exact ⟨hread, reload_same mixed (.value mixedJson_fits hread)⟩

end Graph

end ShaderGraph
