import ShaderGraph.Proofs.Records

/-!
What becomes of each member of a record that is read and written again. A record is written
slot by slot (`recordMembers`). If reading a member fills the slot of its key and touches no
other, every slot holds in the end what the last member with its key says
(`eachMember_carries`), and so the record keeps its members (`Keeps`, `keeps_recordMembers`).
-/

namespace ShaderGraph
namespace Json

/-- The document of the last member with a key. -/
def memberAt? : List (Option String × Document) → String → Option Document
  | [], _ => none
  | (k, d) :: members, key => (memberAt? members key).or (if k = some key then some d else none)

/-- What may be written where a document stood: the value of the document, or what `changed`
allows, which is nothing if the member is left out. -/
inductive Carried (changed : String → Document → Option Json → Prop) (key : String)
    (document : Document) : Option Json → Prop
  | kept {json : Json} (h : document.value = .ok json) : Carried changed key document (some json)
  | changed {written : Option Json} (h : changed key document written) :
      Carried changed key document written

/-- A record that was read off some members and is written as others: every member that was
read is written again, as it was or as `changed` has it, and only what is `added` is new. -/
structure Keeps (members : List (Option String × Document)) (written : Fields)
    (changed : String → Document → Option Json → Prop) (added : List String) : Prop where
  nodup : written.keys.Nodup
  carried : ∀ key d, memberAt? members key = some d → Carried changed key d (written.find? key)
  new : ∀ key, memberAt? members key = none → key ∉ added → written.find? key = none

/-! ## Slots -/

/-- The members of a record: those it declares, as far as there is something to write, and
those that it does not know. -/
def recordMembers (slots : List (String × Option Json)) (extra : Fields) : Fields :=
  slots.flatMap (fun slot => optionalMember slot.1 slot.2) ++ extra

/-- What a record writes under a key. -/
def slotAt (slots : List (String × Option Json)) (extra : Fields) (key : String) : Option Json :=
  (Table.find? slots key).getD (extra.find? key)

theorem find?_append (fields more : Fields) (key : String) :
    Table.find? (fields ++ more) key = (fields.find? key).or (more.find? key) := by
  induction fields with
  | nil => rfl
  | cons m fields ih =>
    rw [List.cons_append, Table.find?, Table.find?, ih]
    split <;> rfl

theorem find?_optionalMember (name : String) (value : Option Json) (key : String) :
    Table.find? (optionalMember name value) key = if key = name then value else none := by
  cases value with
  | none => simp [optionalMember, Table.find?]
  | some json => simp [optionalMember, Table.find?]

theorem find?_recordMembers {slots : List (String × Option Json)} {extra : Fields}
    (hslots : (slots.map Prod.fst).Nodup) (hextra : ∀ m ∈ extra, m.1 ∉ slots.map Prod.fst)
    (key : String) : (recordMembers slots extra).find? key = slotAt slots extra key := by
  induction slots with
  | nil => rfl
  | cons slot slots ih =>
    obtain ⟨hslot, hslots⟩ := List.nodup_cons.mp hslots
    have hrest := ih hslots fun m hm hin => hextra m hm (List.mem_cons_of_mem _ hin)
    have hmembers : recordMembers (slot :: slots) extra =
        optionalMember slot.1 slot.2 ++ recordMembers slots extra := by
      simp [recordMembers]
    rw [hmembers, find?_append, find?_optionalMember, hrest, slotAt, slotAt, Table.find?]
    by_cases hkey : key = slot.1
    · subst hkey
      have hslots' : Table.find? slots slot.1 = none :=
        Table.find?_of_absent fun e he heq => hslot (List.mem_map.mpr ⟨e, he, heq⟩)
      have hextra' : extra.find? slot.1 = none :=
        Table.find?_of_absent fun m hm heq => hextra m hm (heq ▸ List.mem_cons_self ..)
      simp [hslots', hextra']
    · simp [hkey]

/-- A record that holds nothing writes nothing. -/
theorem slotAt_empty {slots : List (String × Option Json)} (h : ∀ slot ∈ slots, slot.2 = none)
    (key : String) : slotAt slots [] key = none := by
  induction slots with
  | nil => rfl
  | cons slot slots ih =>
    obtain ⟨hslot, hslots⟩ := List.forall_mem_cons.mp h
    change (if key = slot.1 then some slot.2 else Table.find? slots key).getD none = none
    split
    · exact hslot
    · exact ih hslots

theorem nodup_recordMembers {slots : List (String × Option Json)} {extra : Fields}
    (hslots : (slots.map Prod.fst).Nodup) (hascending : extra.Ascending)
    (hextra : ∀ m ∈ extra, m.1 ∉ slots.map Prod.fst) : (recordMembers slots extra).keys.Nodup := by
  have hsublist : ((slots.flatMap fun slot => optionalMember slot.1 slot.2).map Prod.fst).Sublist
      (slots.map Prod.fst) := by
    clear hslots hextra
    induction slots with
    | nil => exact .slnil
    | cons slot slots ih =>
      obtain ⟨name, _ | json⟩ := slot
      · exact ih.cons name
      · exact ih.cons_cons name
  have hkeys : (extra.map Prod.fst).Nodup :=
    List.pairwise_map.mpr (hascending.imp fun hlt heq => absurd (heq ▸ hlt) (lt_irrefl _))
  rw [recordMembers, Table.keys, List.map_append, List.nodup_append]
  refine ⟨hslots.sublist hsublist, hkeys, ?_⟩
  rintro key hkey _ hin rfl
  obtain ⟨m, hm, rfl⟩ := List.mem_map.mp hin
  exact hextra m hm (hsublist.subset hkey)

/-! ## Reading -/

section Reading

variable {σ : Type} {step : σ → String → Document → Read σ} {slot : σ → String → Option Json}
  {changed : String → Document → Option Json → Prop} {cut : Option Break}
  {members : List (Option String × Document)} {draft last : σ}

/-- If every step fills the slot of its key and leaves the others alone, each slot holds in the
end what the last member with its key says. -/
theorem eachMember_carries
    (hstep : ∀ draft key d draft', step draft key d = .ok draft' →
      (∀ other, other ≠ key → slot draft' other = slot draft other) ∧
        Carried changed key d (slot draft' key))
    (h : eachMember step cut draft members = .ok last) (key : String) :
    (memberAt? members key = none → slot last key = slot draft key) ∧
      ∀ d, memberAt? members key = some d → Carried changed key d (slot last key) := by
  induction members generalizing draft with
  | nil =>
    rw [eachMember] at h
    obtain ⟨_, _, h⟩ := bind_eq_ok.mp h
    cases h
    exact ⟨fun _ => rfl, by simp [memberAt?]⟩
  | cons m members ih =>
    obtain ⟨_ | k, document⟩ := m
    · cases h
    rw [eachMember] at h
    obtain ⟨next, hnext, h⟩ := bind_eq_ok.mp h
    obtain ⟨hframe, heffect⟩ := hstep draft k document next hnext
    obtain ⟨hnone, hsome⟩ := ih h
    rw [memberAt?]
    cases hlater : memberAt? members key with
    | some d' =>
      simp only [Option.some_or]
      refine ⟨by simp, fun d hd => ?_⟩
      cases hd
      exact hsome d' hlater
    | none =>
      rw [hnone hlater]
      by_cases hk : k = key
      · subst hk
        simp only [Option.none_or, ↓reduceIte]
        refine ⟨by simp, fun d hd => ?_⟩
        cases hd
        exact heffect
      · simp only [Option.none_or, Option.some.injEq, hk, ↓reduceIte]
        exact ⟨fun _ => hframe key (Ne.symm hk), by simp⟩

end Reading

end Json

open Json

theorem Json.Document.Fits.mono {room more : Nat} {document : Document}
    (h : document.Fits room) (hle : room ≤ more) : document.Fits more := by
  induction h generalizing more with
  | null => exact .null
  | bool b => exact .bool b
  | number hn => exact .number hn
  | string s => exact .string s
  | array _ ih =>
    obtain ⟨more, rfl⟩ : ∃ n, more = n + 1 := ⟨more - 1, by omega⟩
    exact .array fun d hd => ih d hd (by omega)
  | object _ ih =>
    obtain ⟨more, rfl⟩ : ∃ n, more = n + 1 := ⟨more - 1, by omega⟩
    exact .object fun m hm => ih m hm (by omega)
  | buried document => exact .buried document
  | broken cut => exact .broken cut

theorem required_eq_ok {α : Type} {name : String} {slot : Option α} {a : α} :
    required name slot = .ok a ↔ slot = some a := by
  cases slot <;> simp [required]

/-- A text is read off a document that is nothing but the text. -/
theorem text_eq_ok {document : Document} {s : String} :
    document.text = .ok s ↔ document = .string (some s) := by
  constructor
  · intro h
    unfold Document.text at h
    split at h
    · cases h
      rfl
    · exact absurd h refuse_ne_ok
  · rintro rfl
    rfl

/-- Nothing is read off a null only. -/
theorem optional_eq_none {α : Type} {read : Document → Read α} {document : Document}
    (h : document.optional read = .ok none) : document = .null := by
  unfold Document.optional at h
  split at h
  · rfl
  · obtain ⟨_, _, h⟩ := map_eq_ok.mp h
    cases h

/-- A null and a text are read off documents that are nothing else. -/
theorem value_eq_leaf {document : Document} {json : Json} (h : document.value = .ok json) :
    (json = .null → document = .null) ∧ ∀ s, json = .string s → document = .string (some s) := by
  cases document with
  | null =>
    cases h
    simp
  | bool b =>
    cases h
    simp
  | number n =>
    cases n with
    | none => cases h
    | some n =>
      cases h
      simp
  | string s =>
    cases s with
    | none => cases h
    | some s =>
      cases h
      simp
  | array documents cut =>
    rw [Document.value] at h
    obtain ⟨_, _, h⟩ := bind_eq_ok.mp h
    obtain ⟨_, _, h⟩ := bind_eq_ok.mp h
    cases h
    simp
  | object members cut =>
    rw [Document.value] at h
    obtain ⟨_, _, h⟩ := bind_eq_ok.mp h
    obtain ⟨_, _, h⟩ := bind_eq_ok.mp h
    cases h
    simp
  | buried document => cases h
  | broken cut => cases h

/-- A name out of a list is a text, or the key of an object that holds no more than a null. -/
theorem variant_eq_ok {known : List String} {document : Document} {name : String}
    (h : document.variant known = .ok name) :
    document = .string (some name) ∨ document = .object [(some name, .null)] none := by
  have hcheck : ∀ {s r : String}, Document.variant.check known s = .ok r → s = r := by
    intro s r hs
    unfold Document.variant.check at hs
    split at hs <;> cases hs
    rfl
  unfold Document.variant at h
  split at h
  · exact .inl (by rw [hcheck h])
  · cases h
  · rename_i key document more cut
    cases key with
    | none => cases h
    | some key =>
      obtain ⟨found, hfound, h⟩ := bind_eq_ok.mp h
      obtain rfl := hcheck hfound
      simp only at h
      split at h
      · cases more with
        | nil =>
          cases cut with
          | none =>
            cases h
            exact .inr rfl
          | some cut => cases h
        | cons m more => cases h
      · obtain ⟨_, hrefused, _⟩ := bind_eq_ok.mp h
        exact absurd hrefused refuse_ne_ok
  · cases h
  · cases h

theorem Json.Carried.mono {changed changed' : String → Document → Option Json → Prop}
    {key : String} {document : Document} {written : Option Json}
    (h : Carried changed key document written)
    (hmono : changed key document written → changed' key document written) :
    Carried changed' key document written := by
  cases h with
  | kept h => exact .kept h
  | changed h => exact .changed (hmono h)

section Carried

variable {changed : String → Document → Option Json → Prop} {key : String} {document : Document}

theorem carried_text {s : String} (h : document.text = .ok s) :
    Carried changed key document (some (.string s)) := by
  rw [text_eq_ok.mp h]
  exact .kept rfl

/-- A text that may be left out by a null. -/
theorem carried_optionalText {s : Option String} (h : document.optional Document.text = .ok s)
    (hnull : changed key .null none) : Carried changed key document (s.map .string) := by
  cases s with
  | none =>
    rw [optional_eq_none h]
    exact .changed hnull
  | some s => exact carried_text (optional_eq_some h)

/-- A field that is read once fills its own slot. -/
theorem putOnce_carries {σ α : Type} {name : String} {slot : Option α} {read : Document → Read α}
    {put : Option α → σ} {draft draft' : σ} {view : σ → String → Option Json}
    (h : (do return put (← once name slot read document)) = .ok draft')
    (hread : ∀ a, read document = .ok a → Carried changed key document (view (put (some a)) key))
    (hframe : ∀ a other, other ≠ key → view (put (some a)) other = view draft other) :
    (∀ other, other ≠ key → view draft' other = view draft other) ∧
      Carried changed key document (view draft' key) := by
  obtain ⟨a, ha, rfl⟩ := putOnce_eq_ok h
  exact ⟨hframe a, hread a ha⟩

/-- A member that is not declared is put under its key. -/
theorem slotAt_insert {slots : List (String × Option Json)} {extra : Fields} {json : Json}
    (hkey : key ∉ slots.map Prod.fst) (hvalue : document.value = .ok json) :
    (∀ other, other ≠ key →
        slotAt slots (extra.insert key json) other = slotAt slots extra other) ∧
      Carried changed key document (slotAt slots (extra.insert key json) key) := by
  have hslots : Table.find? slots key = none :=
    Table.find?_of_absent fun e he heq => hkey (List.mem_map.mpr ⟨e, he, heq⟩)
  constructor
  · intro other hother
    simp [slotAt, Table.find?_insert, hother]
  · simp only [slotAt, hslots, Table.find?_insert, ↓reduceIte, Option.getD_none]
    exact .kept hvalue

end Carried

/-- A record that is written slot by slot keeps what its slots carry. -/
theorem keeps_recordMembers {members : List (Option String × Document)}
    {slots : List (String × Option Json)} {declared added : List String} {extra : Fields}
    {room : Nat} {changed : String → Document → Option Json → Prop}
    (hdeclared : slots.map Prod.fst = declared) (hnodup : declared.Nodup)
    (hextra : Kept declared room extra)
    (hnew : ∀ key, memberAt? members key = none → key ∉ added → slotAt slots extra key = none)
    (hcarried : ∀ key d, memberAt? members key = some d →
      Carried changed key d (slotAt slots extra key)) :
    Keeps members (recordMembers slots extra) changed added := by
  subst hdeclared
  have hfind := find?_recordMembers hnodup hextra.undeclared
  refine ⟨nodup_recordMembers hnodup hextra.ascending hextra.undeclared, ?_, ?_⟩
  · intro key d hd
    rw [hfind]
    exact hcarried key d hd
  · intro key hnone hadded
    rw [hfind]
    exact hnew key hnone hadded

/-- A record whose steps fill one slot each, starting with none, keeps all of its members. -/
theorem keeps_of_steps {σ : Type} {step : σ → String → Document → Read σ}
    {slots : σ → List (String × Option Json)} {extra : σ → Fields}
    {changed : String → Document → Option Json → Prop} {cut : Option Break}
    {members : List (Option String × Document)} {first last : σ} {declared : List String}
    {room : Nat}
    (hstep : ∀ draft key d draft', step draft key d = .ok draft' →
      (∀ other, other ≠ key →
        slotAt (slots draft') (extra draft') other = slotAt (slots draft) (extra draft) other) ∧
        Carried changed key d (slotAt (slots draft') (extra draft') key))
    (hfirst : ∀ key, slotAt (slots first) (extra first) key = none)
    (h : eachMember step cut first members = .ok last)
    (hdeclared : (slots last).map Prod.fst = declared) (hnodup : declared.Nodup)
    (hextra : Kept declared room (extra last)) :
    Keeps members (recordMembers (slots last) (extra last)) changed [] := by
  have hcarries := @eachMember_carries σ step
    (fun draft => slotAt (slots draft) (extra draft)) changed cut members first last hstep h
  refine keeps_recordMembers hdeclared hnodup hextra (fun key hnone _ => ?_) fun key =>
    (hcarries key).2
  exact ((hcarries key).1 hnone).trans (hfirst key)

end ShaderGraph
