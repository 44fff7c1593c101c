import ShaderGraph.Graph.Format
import ShaderGraph.Proofs.DocumentText

/-!
The parts of a graph as JSON. Each is read off the document of what it is written as
(`decode_encode`), with the members that it keeps without knowing them (`Json.Kept`),
and reading gives nothing that could not be written (`fits_encode`). The rooms count
how deep a part may still be nested.
-/

namespace ShaderGraph

namespace Json

/-! ## Lists and members -/

theorem documentsOf_eq (items : List Json) : documentsOf items = items.map documentOf := by
  induction items with
  | nil => rfl
  | cons item items ih => rw [documentsOf, ih, List.map_cons]

theorem memberDocumentsOf_append (ms ns : List (String × Json)) :
    memberDocumentsOf (ms ++ ns) = memberDocumentsOf ms ++ memberDocumentsOf ns := by
  induction ms with
  | nil => rfl
  | cons m ms ih =>
    rw [List.cons_append, memberDocumentsOf, ih, memberDocumentsOf, List.cons_append]

theorem Fits.mono {room more : Nat} {json : Json} (h : Fits room json) (hle : room ≤ more) :
    Fits more json := by
  induction h generalizing more with
  | null => exact .null
  | bool b => exact .bool b
  | number hn => exact .number hn
  | string s => exact .string s
  | array _ ih =>
    obtain ⟨more, rfl⟩ : ∃ n, more = n + 1 := ⟨more - 1, by omega⟩
    exact .array fun item hi => ih item hi (by omega)
  | object _ ih =>
    obtain ⟨more, rfl⟩ : ∃ n, more = n + 1 := ⟨more - 1, by omega⟩
    exact .object fun m hm => ih m hm (by omega)

theorem closing_eq_ok {cut : Option Break} : closing cut = .ok () ↔ cut = none := by
  cases cut <;> simp [closing, Break.raise]

theorem refuse_ne_ok {α : Type} {document : Document} {expected : String} {a : α} :
    document.refuse expected ≠ .ok a := by
  intro h
  obtain ⟨_, _, h⟩ := bind_eq_ok.mp h
  cases h

/-- A list is read off an array that is complete. -/
theorem list_eq_ok {α : Type} {read : Document → Read α} {document : Document} {values : List α} :
    Document.list read document = .ok values ↔
      ∃ documents, document = .array documents none ∧ documents.mapM read = .ok values := by
  constructor
  · intro h
    cases document with
    | array documents cut =>
      rw [Document.list] at h
      obtain ⟨read, hread, h⟩ := bind_eq_ok.mp h
      obtain ⟨_, hcut, h⟩ := bind_eq_ok.mp h
      cases h
      exact ⟨documents, by rw [closing_eq_ok.mp hcut], hread⟩
    | _ => exact absurd h refuse_ne_ok
  · rintro ⟨documents, rfl, h⟩
    rw [Document.list, h]
    rfl

theorem list_documentOf {α β : Type} {read : Document → Read β} {encode : α → Json} {r : α → β}
    {as : List α} (h : ∀ a ∈ as, read (documentOf (encode a)) = .ok (r a)) :
    Document.list read (documentOf (.array (as.map encode))) = .ok (as.map r) := by
  refine list_eq_ok.mpr ⟨as.map fun a => documentOf (encode a), ?_, mapM_map_eq_ok h⟩
  rw [documentOf, documentsOf_eq, List.map_map]
  rfl

theorem list_documentOf_self {α : Type} {read : Document → Read α} {encode : α → Json} {as : List α}
    (h : ∀ a ∈ as, read (documentOf (encode a)) = .ok a) :
    Document.list read (documentOf (.array (as.map encode))) = .ok as := by
  have hlist := list_documentOf (r := id) h
  rwa [List.map_id] at hlist

theorem once_eq_ok {α : Type} {name : String} {slot : Option α} {read : Document → Read α}
    {document : Document} {result : Option α} : once name slot read document = .ok result ↔
      slot = none ∧ ∃ a, read document = .ok a ∧ result = some a := by
  unfold once
  cases slot with
  | some a => simp
  | none =>
    cases read document <;> simp [Functor.map, Except.map, eq_comm]

theorem once_none {α : Type} {name : String} {read : Document → Read α} {document : Document}
    {a : α} (h : read document = .ok a) : once name none read document = .ok (some a) :=
  once_eq_ok.mpr ⟨rfl, a, h, rfl⟩

/-- A field that was read is in its slot. -/
theorem putOnce_eq_ok {σ α : Type} {name : String} {slot : Option α} {read : Document → Read α}
    {document : Document} {put : Option α → σ} {draft : σ}
    (h : (do return put (← once name slot read document)) = .ok draft) :
    ∃ a, read document = .ok a ∧ draft = put (some a) := by
  obtain ⟨_, hread, h⟩ := bind_eq_ok.mp h
  obtain ⟨_, a, ha, rfl⟩ := once_eq_ok.mp hread
  cases h
  exact ⟨a, ha, rfl⟩

/-- What an optional reader finds, the reader itself finds. -/
theorem optional_eq_some {α : Type} {read : Document → Read α} {document : Document} {a : α}
    (h : Document.optional read document = .ok (some a)) : read document = .ok a := by
  unfold Document.optional at h
  split at h
  · cases h
  · obtain ⟨b, hb, hab⟩ := map_eq_ok.mp h
    rwa [Option.some.inj hab] at hb

/-! ## Members of a record -/

section Members

variable {σ : Type} {step : σ → String → Document → Read σ} {cut : Option Break}
  {members : List (Option String × Document)} {draft : σ} {key : String}

theorem eachMember_cons {document : Document} (draft' : σ)
    (h : step draft key document = .ok draft') :
    eachMember step cut draft ((some key, document) :: members) =
      eachMember step cut draft' members := by
  rw [eachMember, h]
  rfl

/-- A value that is written if there is one is read back into its slot. -/
theorem eachMember_optional {value : Option Json} (put : Option Json → σ)
    (h : ∀ json ∈ value, step (put none) key (documentOf json) = .ok (put (some json))) :
    eachMember step cut (put none) (memberDocumentsOf (optionalMember key value) ++ members) =
      eachMember step cut (put value) members := by
  cases value with
  | none => rfl
  | some json => exact eachMember_cons (put (some json)) (h json rfl)

theorem eachMember_encoded {α : Type} {value : Option α} {encode : α → Json} (put : Option α → σ)
    (h : ∀ a ∈ value, step (put none) key (documentOf (encode a)) = .ok (put (some a))) :
    eachMember step cut (put none)
        (memberDocumentsOf (optionalMember key (value.map encode)) ++ members) =
      eachMember step cut (put value) members := by
  cases value with
  | none => rfl
  | some a => exact eachMember_cons (put (some a)) (h a rfl)

/-- What every step keeps, reading all members keeps. -/
theorem eachMember_keeps {P : σ → Prop} {Q : Document → Prop} {last : σ}
    (hstep : ∀ draft key document draft', P draft → Q document →
      step draft key document = .ok draft' → P draft')
    (hdraft : P draft) (hmembers : ∀ m ∈ members, Q m.2)
    (h : eachMember step cut draft members = .ok last) : P last := by
  induction members generalizing draft with
  | nil =>
    rw [eachMember] at h
    obtain ⟨_, _, h⟩ := bind_eq_ok.mp h
    cases h
    exact hdraft
  | cons m members ih =>
    obtain ⟨hm, hlater⟩ := List.forall_mem_cons.mp hmembers
    obtain ⟨key, document⟩ := m
    cases key with
    | none => cases h
    | some key =>
      rw [eachMember] at h
      obtain ⟨next, hnext, h⟩ := bind_eq_ok.mp h
      exact ih (hstep draft key document next hdraft hm hnext) hlater h

end Members

theorem nextItem_forall {α : Type} {read : Document → Read α} {cut : Option Break}
    {documents rest : List Document} {item : Option α} {P : α → Prop}
    (h : ∀ d ∈ documents, ∀ a, read d = .ok a → P a)
    (hitem : nextItem read cut documents = .ok (item, rest)) :
    (∀ a ∈ item, P a) ∧ ∀ d ∈ rest, d ∈ documents := by
  cases documents with
  | nil =>
    obtain ⟨_, _, hitem⟩ := bind_eq_ok.mp hitem
    cases hitem
    exact ⟨by simp, by simp⟩
  | cons d documents =>
    obtain ⟨a, ha, hitem⟩ := bind_eq_ok.mp hitem
    cases hitem
    refine ⟨?_, fun e he => List.mem_cons_of_mem _ he⟩
    rintro _ ⟨rfl⟩
    exact h d (List.mem_cons_self ..) a ha

/-- Members that a record keeps without knowing them. -/
structure Kept (declared : List String) (room : Nat) (fields : Fields) : Prop where
  ascending : fields.Ascending
  undeclared : ∀ m ∈ fields, m.1 ∉ declared
  sound : ∀ m ∈ fields, m.2.Sound room

namespace Kept

variable {declared : List String} {room : Nat} {fields : Fields}

theorem nil : Kept declared room [] := ⟨List.Pairwise.nil, by simp, by simp⟩

theorem insert (h : Kept declared room fields) {key : String} {json : Json} (hkey : key ∉ declared)
    (hjson : json.Sound room) : Kept declared room (fields.insert key json) := by
  refine ⟨h.ascending.insert key json, fun m hm => ?_, fun m hm => ?_⟩
  · rcases Table.mem_insert hm with rfl | hm
    · exact hkey
    · exact h.undeclared m hm
  · rcases Table.mem_insert hm with rfl | hm
    · exact hjson
    · exact h.sound m hm

theorem fits (h : Kept declared room fields) : ∀ m ∈ fields, m.2.Fits room :=
  fun m hm => (h.sound m hm).fits

theorem absent (h : Kept declared room fields) {key : String} (hkey : key ∈ declared) :
    ∀ m ∈ fields, m.1 ≠ key := by
  rintro m hm rfl
  exact h.undeclared m hm hkey

/-- Members that a record keeps are read back in order. -/
theorem eachMember {σ : Type} {step : σ → String → Document → Read σ}
    (h : Kept declared room fields) (put : Fields → σ)
    (hstep : ∀ done key json, key ∉ declared → (documentOf json).value = .ok json →
      step (put done) key (documentOf json) = .ok (put (done.insert key json))) :
    Json.eachMember step none (put []) (memberDocumentsOf fields) = .ok (put fields) := by
  have hall : ∀ (entries done : Fields), (∀ m ∈ entries, m.1 ∉ declared ∧ m.2.Ordered) →
      Json.eachMember step none (put done) (memberDocumentsOf entries) =
        .ok (put (entries.foldl (fun table m => table.insert m.1 m.2) done)) := by
    intro entries
    induction entries with
    | nil => exact fun _ _ => rfl
    | cons m entries ih =>
      intro done hentries
      obtain ⟨⟨hkey, hordered⟩, hentries⟩ := List.forall_mem_cons.mp hentries
      rw [memberDocumentsOf, eachMember_cons _ (hstep done m.1 m.2 hkey hordered.value_documentOf)]
      exact ih _ hentries
  have hfold : fields.foldl (fun table m => Table.insert table m.1 m.2) [] = fields :=
    Table.Ascending.foldl_insert h.ascending
  rw [hall fields [] fun m hm => ⟨h.undeclared m hm, (h.sound m hm).ordered⟩, hfold]

end Kept

end Json

open Json

/-! ## Sockets and definitions -/

/-- A type that is known by its name is not kept by name. -/
def DataType.Canonical (type : DataType) : Prop := .ofName type.name = type

theorem DataType.canonical_ofName (name : String) : (DataType.ofName name).Canonical := by
  generalize htype : ofName name = type
  unfold ofName at htype
  split_ifs at htype with h₁ h₂ h₃ h₄
  all_goals subst htype
  case neg => simp only [Canonical, DataType.name, ofName, h₁, h₂, h₃, h₄, ↓reduceIte]
  all_goals rfl

theorem Socket.decode_canonical {document : Document} {socket : Socket}
    (h : Socket.decode document = .ok socket) : socket.dataType.Canonical := by
  cases document with
  | object documents cut =>
    rw [decode] at h
    obtain ⟨_, _, h⟩ := bind_eq_ok.mp h
    obtain ⟨_, _, h⟩ := bind_eq_ok.mp h
    obtain ⟨_, _, h⟩ := bind_eq_ok.mp h
    cases h
    exact DataType.canonical_ofName _
  | array documents cut =>
    rw [decode] at h
    obtain ⟨_, _, h⟩ := bind_eq_ok.mp h
    obtain ⟨_, _, h⟩ := bind_eq_ok.mp h
    obtain ⟨_, _, h⟩ := bind_eq_ok.mp h
    obtain ⟨_, _, h⟩ := bind_eq_ok.mp h
    obtain ⟨_, _, h⟩ := bind_eq_ok.mp h
    cases h
    exact DataType.canonical_ofName _
  | _ => exact absurd h refuse_ne_ok

theorem Socket.decode_encode {socket : Socket} (h : socket.dataType.Canonical) :
    Socket.decode (documentOf socket.encode) = .ok socket := by
  obtain ⟨type, name⟩ := socket
  show Except.ok (⟨.ofName type.name, name⟩ : Socket) = _
  rw [show DataType.ofName type.name = type from h]

theorem Socket.fits_encode (socket : Socket) : socket.encode.Fits 1 := by
  refine .object fun m hm => ?_
  rcases List.mem_cons.mp hm with rfl | hm
  · exact .string _
  · rw [List.mem_singleton.mp hm]
    exact .string _

/-- Sockets whose types are known by their names as far as possible. -/
def CanonicalSockets (sockets : List Socket) : Prop := ∀ socket ∈ sockets, socket.dataType.Canonical

theorem canonicalSockets_of_list {document : Document} {sockets : List Socket}
    (h : Document.list Socket.decode document = .ok sockets) : CanonicalSockets sockets := by
  obtain ⟨documents, _, h⟩ := list_eq_ok.mp h
  intro socket hs
  obtain ⟨d, _, hd⟩ := exists_of_mem_mapM h socket hs
  exact Socket.decode_canonical hd

theorem canonicalSockets_getD {sockets : Option (List Socket)}
    (h : ∀ s ∈ sockets, CanonicalSockets s) : CanonicalSockets (sockets.getD []) := by
  cases sockets with
  | none => exact fun _ hs => nomatch hs
  | some sockets => exact h sockets rfl

structure Definition.Canonical (definition : Definition) : Prop where
  inputs : CanonicalSockets definition.inputs
  outputs : CanonicalSockets definition.outputs

structure DefinitionDraft.Canonical (draft : DefinitionDraft) : Prop where
  inputs : ∀ sockets ∈ draft.inputs, CanonicalSockets sockets
  outputs : ∀ sockets ∈ draft.outputs, CanonicalSockets sockets

theorem DefinitionDraft.Canonical.step {draft draft' : DefinitionDraft} {key : String}
    {document : Document} (hdraft : draft.Canonical) (h : draft.step key document = .ok draft') :
    draft'.Canonical := by
  unfold DefinitionDraft.step at h
  split_ifs at h
  · obtain ⟨sockets, hsockets, rfl⟩ := putOnce_eq_ok h
    refine ⟨?_, hdraft.outputs⟩
    rintro _ ⟨rfl⟩
    exact canonicalSockets_of_list hsockets
  · obtain ⟨sockets, hsockets, rfl⟩ := putOnce_eq_ok h
    refine ⟨hdraft.inputs, ?_⟩
    rintro _ ⟨rfl⟩
    exact canonicalSockets_of_list hsockets
  · obtain ⟨_, _, h⟩ := bind_eq_ok.mp h
    cases h
    exact hdraft

theorem Definition.decode_canonical {document : Document} {definition : Definition}
    (h : Definition.decode document = .ok definition) : definition.Canonical := by
  cases document with
  | object documents cut =>
    rw [decode] at h
    obtain ⟨draft, hdraft, h⟩ := bind_eq_ok.mp h
    cases h
    have hcanonical : draft.Canonical :=
      eachMember_keeps (Q := fun _ => True) (fun _ _ _ _ hd _ hs => hd.step hs)
        ⟨by simp, by simp⟩ (fun _ _ => trivial) hdraft
    exact ⟨canonicalSockets_getD hcanonical.inputs, canonicalSockets_getD hcanonical.outputs⟩
  | array documents cut =>
    rw [decode] at h
    obtain ⟨⟨inputs, rest⟩, hinputs, h⟩ := bind_eq_ok.mp h
    obtain ⟨⟨outputs, rest'⟩, houtputs, h⟩ := bind_eq_ok.mp h
    obtain ⟨_, _, h⟩ := bind_eq_ok.mp h
    cases h
    have hall : ∀ docs : List Document, ∀ d ∈ docs, ∀ sockets,
        Document.list Socket.decode d = .ok sockets → CanonicalSockets sockets :=
      fun _ _ _ _ => canonicalSockets_of_list
    exact ⟨canonicalSockets_getD (nextItem_forall (hall _) hinputs).1,
      canonicalSockets_getD (nextItem_forall (hall _) houtputs).1⟩
  | _ => exact absurd h refuse_ne_ok

theorem Definition.decode_encode {definition : Definition} (h : definition.Canonical) :
    Definition.decode (documentOf definition.encode) = .ok definition := by
  have hread : ∀ sockets, CanonicalSockets sockets → Document.list Socket.decode
      (documentOf (.array (sockets.map Socket.encode))) = .ok sockets :=
    fun _ hsockets => list_documentOf_self fun s hs => Socket.decode_encode (hsockets s hs)
  rw [encode, documentOf, decode, memberDocumentsOf, memberDocumentsOf, memberDocumentsOf,
    eachMember_cons ⟨some definition.inputs, none⟩,
    eachMember_cons ⟨some definition.inputs, some definition.outputs⟩]
  · rfl
  · simp [DefinitionDraft.step, once_none (hread _ h.outputs)]
  · simp [DefinitionDraft.step, once_none (hread _ h.inputs)]

theorem Definition.fits_encode (definition : Definition) : definition.encode.Fits 3 := by
  have hsockets : ∀ sockets : List Socket, (Json.array (sockets.map Socket.encode)).Fits 2 := by
    intro sockets
    refine .array fun item hi => ?_
    obtain ⟨socket, _, rfl⟩ := List.mem_map.mp hi
    exact socket.fits_encode
  refine .object fun m hm => ?_
  rcases List.mem_cons.mp hm with rfl | hm
  · exact hsockets _
  · rw [List.mem_singleton.mp hm]
    exact hsockets _

/-! ## Edges -/

def edgeKeys : List String := ["id", "source", "target", "sourceHandle", "targetHandle"]

theorem EdgeDraft.step_kept {room : Nat} {draft draft' : EdgeDraft} {key : String}
    {document : Document} (hdraft : Kept edgeKeys room draft.extra) (hdocument : document.Fits room)
    (h : draft.step key document = .ok draft') : Kept edgeKeys room draft'.extra := by
  unfold step at h
  split_ifs at h with h₁ h₂ h₃ h₄ h₅
  case neg =>
    obtain ⟨json, hjson, h⟩ := bind_eq_ok.mp h
    cases h
    exact hdraft.insert (by simp [edgeKeys, h₁, h₂, h₃, h₄, h₅]) (hdocument.value hjson)
  all_goals
    obtain ⟨_, _, h⟩ := bind_eq_ok.mp h
    cases h
    exact hdraft

theorem Edge.decode_kept {room : Nat} {document : Document} {edge : Edge}
    (hdocument : document.Fits (room + 1)) (h : Edge.decode document = .ok edge) :
    Kept edgeKeys room edge.extra := by
  cases hdocument with
  | object hmembers =>
    rw [decode] at h
    obtain ⟨draft, hdraft, h⟩ := bind_eq_ok.mp h
    obtain ⟨_, _, h⟩ := bind_eq_ok.mp h
    obtain ⟨_, _, h⟩ := bind_eq_ok.mp h
    obtain ⟨_, _, h⟩ := bind_eq_ok.mp h
    cases h
    exact eachMember_keeps (P := fun draft => Kept edgeKeys room draft.extra)
      (fun _ _ _ _ => EdgeDraft.step_kept) Kept.nil hmembers hdraft
  | _ => exact absurd h refuse_ne_ok

theorem Edge.decode_encode {room : Nat} {edge : Edge} (h : Kept edgeKeys room edge.extra) :
    Edge.decode (documentOf edge.encode) = .ok edge := by
  obtain ⟨id, source, target, sourceHandle, targetHandle, extra⟩ := edge
  have hdraft : eachMember EdgeDraft.step none {} (memberDocumentsOf
      ([("id", .string id), ("source", .string source), ("target", .string target)] ++
        optionalText "sourceHandle" sourceHandle ++ optionalText "targetHandle" targetHandle ++
        extra)) =
      .ok ⟨some id, some source, some target, sourceHandle.map some, targetHandle.map some,
        extra⟩ := by
    simp only [memberDocumentsOf_append, memberDocumentsOf, List.append_assoc, List.cons_append,
      List.nil_append, optionalText]
    refine Eq.trans (eachMember_cons ⟨some id, none, none, none, none, []⟩ rfl) ?_
    refine Eq.trans (eachMember_cons ⟨some id, some source, none, none, none, []⟩ rfl) ?_
    refine Eq.trans (eachMember_cons ⟨some id, some source, some target, none, none, []⟩ rfl) ?_
    refine Eq.trans (eachMember_encoded (fun handle : Option String => EdgeDraft.mk (some id)
      (some source) (some target) (handle.map some) none []) fun _ _ => rfl) ?_
    refine Eq.trans (eachMember_encoded (fun handle : Option String => EdgeDraft.mk (some id)
      (some source) (some target) (sourceHandle.map some) (handle.map some) []) fun _ _ => rfl) ?_
    refine h.eachMember (EdgeDraft.mk (some id) (some source) (some target) (sourceHandle.map some)
      (targetHandle.map some)) ?_
    intro done key json hkey hjson
    simp only [edgeKeys, List.mem_cons, List.not_mem_nil, or_false, not_or] at hkey
    simp [EdgeDraft.step, hkey, hjson]
  rw [encode, documentOf, decode, hdraft]
  cases sourceHandle <;> cases targetHandle <;> rfl

theorem fits_optionalMember {room : Nat} {name : String} {value : Option Json}
    (h : ∀ json ∈ value, json.Fits room) : ∀ m ∈ optionalMember name value, m.2.Fits room := by
  cases value with
  | none => exact fun _ hm => nomatch hm
  | some json =>
    intro m hm
    rw [List.mem_singleton.mp hm]
    exact h json rfl

theorem fits_optionalText {room : Nat} (name : String) (value : Option String) :
    ∀ m ∈ optionalText name value, m.2.Fits room := by
  refine fits_optionalMember fun json hjson => ?_
  obtain ⟨text, _, rfl⟩ := Option.map_eq_some_iff.mp hjson
  exact .string text

theorem Edge.fits_encode {room : Nat} {edge : Edge} (h : Kept edgeKeys room edge.extra) :
    edge.encode.Fits (room + 1) := by
  refine .object ?_
  simp only [List.forall_mem_append, List.forall_mem_cons]
  exact ⟨⟨⟨⟨.string _, .string _, .string _, by simp⟩, fits_optionalText _ _⟩,
    fits_optionalText _ _⟩, h.fits⟩

/-! ## Uniforms -/

def uniformKeys : List String := ["id", "name", "type", "value"]

/-- What a uniform holds that no one has looked at. -/
structure Uniform.Sound (room : Nat) (uniform : Uniform) : Prop where
  value : uniform.value.Sound room
  extra : Kept uniformKeys room uniform.extra

structure UniformDraft.Sound (room : Nat) (draft : UniformDraft) : Prop where
  value : ∀ json ∈ draft.value, json.Sound room
  extra : Kept uniformKeys room draft.extra

theorem UniformDraft.Sound.step {room : Nat} {draft draft' : UniformDraft} {key : String}
    {document : Document} (hdraft : draft.Sound room) (hdocument : document.Fits room)
    (h : draft.step key document = .ok draft') : draft'.Sound room := by
  unfold UniformDraft.step at h
  split_ifs at h with h₁ h₂ h₃ h₄
  · obtain ⟨_, _, rfl⟩ := putOnce_eq_ok h
    exact ⟨hdraft.value, hdraft.extra⟩
  · obtain ⟨_, _, rfl⟩ := putOnce_eq_ok h
    exact ⟨hdraft.value, hdraft.extra⟩
  · obtain ⟨_, _, rfl⟩ := putOnce_eq_ok h
    exact ⟨hdraft.value, hdraft.extra⟩
  · obtain ⟨json, hjson, rfl⟩ := putOnce_eq_ok h
    refine ⟨?_, hdraft.extra⟩
    rintro _ ⟨rfl⟩
    exact hdocument.value hjson
  · obtain ⟨json, hjson, h⟩ := bind_eq_ok.mp h
    cases h
    exact ⟨hdraft.value,
      hdraft.extra.insert (by simp [uniformKeys, h₁, h₂, h₃, h₄]) (hdocument.value hjson)⟩

theorem Uniform.decode_sound {room : Nat} {document : Document} {uniform : Uniform}
    (hdocument : document.Fits (room + 1)) (h : Uniform.decode document = .ok uniform) :
    uniform.Sound room := by
  cases hdocument with
  | object hmembers =>
    rw [decode] at h
    obtain ⟨draft, hdraft, h⟩ := bind_eq_ok.mp h
    obtain ⟨_, _, h⟩ := bind_eq_ok.mp h
    obtain ⟨_, _, h⟩ := bind_eq_ok.mp h
    obtain ⟨_, _, h⟩ := bind_eq_ok.mp h
    cases h
    have hsound : draft.Sound room := eachMember_keeps (fun _ _ _ _ => UniformDraft.Sound.step)
      ⟨by simp, Kept.nil⟩ hmembers hdraft
    refine ⟨?_, hsound.extra⟩
    cases hvalue : draft.value with
    | none => exact ⟨.null, .null⟩
    | some json => exact hsound.value json hvalue
  | _ => exact absurd h refuse_ne_ok

theorem UniformKind.decode_name (kind : UniformKind) :
    UniformKind.decode (.string (some kind.name)) = .ok kind := by
  cases kind <;> rfl

/-- The value of a uniform, unless it is null. -/
def Uniform.value? (uniform : Uniform) : Option Json :=
  if uniform.value.isNull then none else some uniform.value

theorem Uniform.getD_value? (uniform : Uniform) : uniform.value?.getD .null = uniform.value := by
  unfold value?
  cases uniform.value <;> rfl

theorem Uniform.encode_eq (uniform : Uniform) : uniform.encode =
    .object ([("id", .string uniform.id), ("name", .string uniform.name),
      ("type", .string uniform.kind.name)] ++ optionalMember "value" uniform.value? ++
      uniform.extra) := by
  unfold encode value?
  cases uniform.value <;> rfl

theorem Uniform.Sound.value? {room : Nat} {uniform : Uniform} (h : uniform.Sound room) :
    ∀ json ∈ uniform.value?, json.Sound room := by
  intro json hjson
  unfold Uniform.value? at hjson
  split at hjson
  · cases hjson
  · cases hjson
    exact h.value

theorem Uniform.decode_encode {room : Nat} {uniform : Uniform} (h : uniform.Sound room) :
    Uniform.decode (documentOf uniform.encode) = .ok uniform := by
  have hdraft : eachMember UniformDraft.step none {} (memberDocumentsOf
      ([("id", .string uniform.id), ("name", .string uniform.name),
        ("type", .string uniform.kind.name)] ++ optionalMember "value" uniform.value? ++
        uniform.extra)) =
      .ok ⟨some uniform.id, some uniform.name, some uniform.kind, uniform.value?,
        uniform.extra⟩ := by
    simp only [memberDocumentsOf_append, memberDocumentsOf, List.cons_append, List.nil_append]
    refine Eq.trans (eachMember_cons ⟨some uniform.id, none, none, none, []⟩ rfl) ?_
    refine Eq.trans (eachMember_cons ⟨some uniform.id, some uniform.name, none, none, []⟩ rfl) ?_
    refine Eq.trans (eachMember_cons
      ⟨some uniform.id, some uniform.name, some uniform.kind, none, []⟩ ?_) ?_
    · simp [UniformDraft.step, documentOf, once_none uniform.kind.decode_name]
    refine Eq.trans (eachMember_optional (fun value => UniformDraft.mk (some uniform.id)
      (some uniform.name) (some uniform.kind) value []) ?_) ?_
    · intro json hjson
      simp [UniformDraft.step, once_none (h.value? json hjson).ordered.value_documentOf]
    refine h.extra.eachMember (UniformDraft.mk (some uniform.id) (some uniform.name)
      (some uniform.kind) uniform.value?) ?_
    intro done key json hkey hjson
    simp only [uniformKeys, List.mem_cons, List.not_mem_nil, or_false, not_or] at hkey
    simp [UniformDraft.step, hkey, hjson]
  rw [encode_eq, documentOf, decode, hdraft]
  show Except.ok (⟨_, _, _, uniform.value?.getD .null, _⟩ : Uniform) = _
  rw [getD_value?]

theorem Uniform.fits_encode {room : Nat} {uniform : Uniform} (h : uniform.Sound room) :
    uniform.encode.Fits (room + 1) := by
  rw [encode_eq]
  refine .object ?_
  simp only [List.forall_mem_append, List.forall_mem_cons]
  exact ⟨⟨⟨.string _, .string _, .string _, by simp⟩,
    fits_optionalMember fun json hjson => (h.value? json hjson).fits⟩, h.extra.fits⟩

/-! ## The fields of a node -/

def nodeDataKeys : List String := ["name", "type", "value", "uniformId", "definitions", "code"]

structure NodeFields.Sound (room : Nat) (fields : NodeFields) : Prop where
  value : ∀ json ∈ fields.value, json.Sound room
  definitions : ∀ definition ∈ fields.definitions, definition.Canonical
  extra : Kept nodeDataKeys room fields.extra

structure NodeDataDraft.Sound (room : Nat) (draft : NodeDataDraft) : Prop where
  value : ∀ json ∈ draft.value, json.Sound room
  definitions : ∀ definition ∈ draft.definitions.join, definition.Canonical
  extra : Kept nodeDataKeys room draft.extra

theorem NodeDataDraft.Sound.step {room : Nat} {draft draft' : NodeDataDraft} {key : String}
    {document : Document} (hdraft : draft.Sound room) (hdocument : document.Fits room)
    (h : draft.step key document = .ok draft') : draft'.Sound room := by
  unfold NodeDataDraft.step at h
  simp only at h
  split_ifs at h with h₁ h₂ h₃ h₄ h₅ h₆
  · obtain ⟨_, _, rfl⟩ := putOnce_eq_ok h
    exact ⟨hdraft.value, hdraft.definitions, hdraft.extra⟩
  · obtain ⟨_, _, rfl⟩ := putOnce_eq_ok h
    exact ⟨hdraft.value, hdraft.definitions, hdraft.extra⟩
  · obtain ⟨json, hjson, rfl⟩ := putOnce_eq_ok h
    refine ⟨?_, hdraft.definitions, hdraft.extra⟩
    rintro _ ⟨rfl⟩
    exact hdocument.value hjson
  · obtain ⟨_, _, rfl⟩ := putOnce_eq_ok h
    exact ⟨hdraft.value, hdraft.definitions, hdraft.extra⟩
  · obtain ⟨definition, hdefinition, rfl⟩ := putOnce_eq_ok h
    refine ⟨hdraft.value, ?_, hdraft.extra⟩
    rintro d hd
    obtain rfl : definition = some d := hd
    exact Definition.decode_canonical (optional_eq_some hdefinition)
  · obtain ⟨_, _, rfl⟩ := putOnce_eq_ok h
    exact ⟨hdraft.value, hdraft.definitions, hdraft.extra⟩
  · obtain ⟨json, hjson, h⟩ := bind_eq_ok.mp h
    cases h
    refine ⟨hdraft.value, hdraft.definitions, hdraft.extra.insert ?_ (hdocument.value hjson)⟩
    simp [nodeDataKeys, h₁, h₂, h₃, h₄, h₅, h₆]

theorem NodeFields.decode_sound {room : Nat} {document : Document} {fields : NodeFields}
    (hdocument : document.Fits (room + 1)) (h : NodeFields.decode document = .ok fields) :
    fields.Sound room := by
  cases hdocument with
  | object hmembers =>
    rw [decode] at h
    obtain ⟨draft, hdraft, h⟩ := bind_eq_ok.mp h
    cases h
    have hsound : draft.Sound room := eachMember_keeps (fun _ _ _ _ => NodeDataDraft.Sound.step)
      ⟨by simp, by simp, Kept.nil⟩ hmembers hdraft
    exact ⟨hsound.value, hsound.definitions, hsound.extra⟩
  | _ => exact absurd h refuse_ne_ok

theorem NodeFields.decode_encode {room : Nat} {fields : NodeFields} (h : fields.Sound room) :
    NodeFields.decode (documentOf fields.encode) = .ok fields := by
  obtain ⟨name, kind, value, uniformId, definitions, code, extra⟩ := fields
  have hdraft : eachMember NodeDataDraft.step none {} (memberDocumentsOf
      (("name", .string name) :: optionalText "type" kind ++ optionalMember "value" value ++
        optionalText "uniformId" uniformId ++
        optionalMember "definitions" (definitions.map Definition.encode) ++
        optionalText "code" code ++ extra)) =
      .ok ⟨some name, kind.map some, value, uniformId.map some, definitions.map some, code.map some,
        extra⟩ := by
    simp only [memberDocumentsOf_append, memberDocumentsOf, List.append_assoc, List.cons_append,
      optionalText]
    refine Eq.trans (eachMember_cons ⟨some name, none, none, none, none, none, []⟩ rfl) ?_
    refine Eq.trans (eachMember_encoded (fun kind : Option String => NodeDataDraft.mk (some name)
      (kind.map some) none none none none []) fun _ _ => rfl) ?_
    refine Eq.trans (eachMember_optional (fun value => NodeDataDraft.mk (some name)
      (kind.map some) value none none none []) ?_) ?_
    · intro json hjson
      simp [NodeDataDraft.step, once_none (h.value json hjson).ordered.value_documentOf]
    refine Eq.trans (eachMember_encoded (fun uniformId : Option String =>
      NodeDataDraft.mk (some name) (kind.map some) value (uniformId.map some) none none []) fun _ _ => rfl) ?_
    refine Eq.trans (eachMember_encoded (fun definitions : Option Definition =>
      NodeDataDraft.mk (some name) (kind.map some) value (uniformId.map some) (definitions.map some)
      none []) ?_) ?_
    · intro definition hdefinition
      have hread : Document.optional Definition.decode (documentOf definition.encode) =
          .ok (some definition) := by
        show some <$> Definition.decode (documentOf definition.encode) = _
        rw [Definition.decode_encode (h.definitions definition hdefinition)]
        rfl
      simp [NodeDataDraft.step, once_none hread]
    refine Eq.trans (eachMember_encoded (fun code : Option String => NodeDataDraft.mk (some name)
      (kind.map some) value (uniformId.map some) (definitions.map some) (code.map some) [])
      fun _ _ => rfl) ?_
    refine h.extra.eachMember (NodeDataDraft.mk (some name) (kind.map some) value
      (uniformId.map some) (definitions.map some) (code.map some)) ?_
    intro done key json hkey hjson
    simp only [nodeDataKeys, List.mem_cons, List.not_mem_nil, or_false, not_or] at hkey
    simp [NodeDataDraft.step, hkey, hjson]
  rw [encode, documentOf, decode, hdraft]
  cases kind <;> cases uniformId <;> cases definitions <;> cases code <;> rfl

theorem NodeFields.fits_encode {room : Nat} {fields : NodeFields} (h : fields.Sound room)
    (hroom : 3 ≤ room) : fields.encode.Fits (room + 1) := by
  refine .object ?_
  simp only [List.forall_mem_append, List.forall_mem_cons, List.cons_append]
  refine ⟨.string _, ⟨⟨⟨⟨fits_optionalText _ _, fits_optionalMember fun json hjson =>
    (h.value json hjson).fits⟩, fits_optionalText _ _⟩, fits_optionalMember fun json hjson => ?_⟩,
    fits_optionalText _ _⟩, h.extra.fits⟩
  obtain ⟨definition, _, rfl⟩ := Option.map_eq_some_iff.mp hjson
  exact definition.fits_encode.mono hroom

end ShaderGraph
