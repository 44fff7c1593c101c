import ShaderGraph.Json.Decode
import ShaderGraph.Proofs.Computation
import ShaderGraph.Proofs.NumberText
import ShaderGraph.Proofs.Tables

/-!
What reading a text can give. Numbers come out in their range and nesting ends at its
limit (`Json.parse_fits`), and where a value of any shape may stand, the members of
its objects come out in order (`Json.Document.Fits.value`).
-/

namespace ShaderGraph

namespace Json

/-! ## Numbers -/

theorem ofDecimal?_isFinite {negative : Bool} {digits : Nat} {exponent : Int} {x : Binary64}
    (h : Binary64.ofDecimal? negative digits exponent = some x) : x.isFinite = true := by
  unfold Binary64.ofDecimal? at h
  simp only at h
  split_ifs at h with _ _ hlt
  · cases h
    exact Binary64.isFinite_signed (by decide)
  · cases h
    exact Binary64.isFinite_signed hlt

theorem integer?_inRange {negative : Bool} {n : Nat} {number : Number}
    (h : integer? negative n = some number) : number.InRange := by
  unfold integer? at h
  rw [show twoTo 64 = 2 ^ 64 from rfl, show twoTo 63 = 2 ^ 63 from rfl] at h
  split_ifs at h with hnat hneg
  · cases h
    simp only [Bool.and_eq_true, decide_eq_true_eq] at hnat
    exact ⟨by omega, by omega⟩
  · cases h
    simp only [Bool.and_eq_true, decide_eq_true_eq] at hneg
    exact ⟨by omega, by omega⟩
  · obtain ⟨x, hx, rfl⟩ := Option.map_eq_some_iff.mp h
    exact ofDecimal?_isFinite hx

/-- Numbers are read into their range. -/
theorem numberRest_inRange {negative : Bool} {text rest : List Char} {number : Number}
    (h : numberRest negative text = .ok (some number, rest)) : number.InRange := by
  unfold numberRest at h
  obtain ⟨⟨whole, rest₁⟩, _, h⟩ := bind_eq_ok.mp h
  obtain ⟨⟨fraction, rest₂⟩, _, h⟩ := bind_eq_ok.mp h
  obtain ⟨⟨exponent, rest₃⟩, _, h⟩ := bind_eq_ok.mp h
  simp only at h
  split at h
  · obtain ⟨hn, _⟩ := Prod.mk.inj (Except.ok.inj h)
    exact integer?_inRange hn
  · obtain ⟨hn, _⟩ := Prod.mk.inj (Except.ok.inj h)
    obtain ⟨x, hx, rfl⟩ := Option.map_eq_some_iff.mp hn
    exact ofDecimal?_isFinite hx

/-! ## Values and documents -/

/-- What fits into some number of arrays and objects, one inside the other, with
every number in its range. -/
inductive Fits : Nat → Json → Prop
  | null {room : Nat} : Fits room null
  | bool {room : Nat} (b : Bool) : Fits room (bool b)
  | number {room : Nat} {n : Number} (h : n.InRange) : Fits room (number n)
  | string {room : Nat} (s : String) : Fits room (string s)
  | array {room : Nat} {items : List Json} (h : ∀ item ∈ items, Fits room item) :
      Fits (room + 1) (array items)
  | object {room : Nat} {members : List (String × Json)} (h : ∀ m ∈ members, Fits room m.2) :
      Fits (room + 1) (object members)

/-- The members of every object inside are in order. -/
inductive Ordered : Json → Prop
  | null : Ordered null
  | bool (b : Bool) : Ordered (bool b)
  | number (n : Number) : Ordered (number n)
  | string (s : String) : Ordered (string s)
  | array {items : List Json} (h : ∀ item ∈ items, Ordered item) : Ordered (array items)
  | object {members : Fields} (horder : members.Ascending) (h : ∀ m ∈ members, Ordered m.2) :
      Ordered (object members)

/-- What is read where a value of any shape may stand. -/
structure Sound (room : Nat) (json : Json) : Prop where
  fits : json.Fits room
  ordered : json.Ordered

/-- What the text of a document can hold. Nothing is asked of what is nested too
deeply to be read. -/
inductive Document.Fits : Nat → Document → Prop
  | null {room : Nat} : Fits room null
  | bool {room : Nat} (b : Bool) : Fits room (bool b)
  | number {room : Nat} {n : Option Number} (h : ∀ m ∈ n, m.InRange) : Fits room (number n)
  | string {room : Nat} (s : Option String) : Fits room (string s)
  | array {room : Nat} {documents : List Document} {cut : Option Break}
      (h : ∀ d ∈ documents, Fits room d) : Fits (room + 1) (array documents cut)
  | object {room : Nat} {documents : List (Option String × Document)} {cut : Option Break}
      (h : ∀ m ∈ documents, Fits room m.2) : Fits (room + 1) (object documents cut)
  | buried {room : Nat} (document : Document) : Fits room (buried document)
  | broken {room : Nat} (cut : Break) : Fits room (broken cut)

theorem leaf_number_fits {room : Nat} {negative : Bool} {text : List Char} :
    Document.Fits room (leaf .number (numberRest negative text)).1 := by
  cases h : numberRest negative text with
  | error cut => exact .broken cut
  | ok read =>
    obtain ⟨number, rest⟩ := read
    refine .number fun n hn => ?_
    cases hn
    exact numberRest_inRange h

theorem leaf_string_fits {room : Nat} {read : Except Break (Option String × List Char)} :
    Document.Fits room (leaf .string read).1 := by
  cases read with
  | error cut => exact .broken cut
  | ok read => exact .string _

theorem word_fits {room : Nat} {document : Document} (h : document.Fits room)
    (letters text : List Char) : Document.Fits room (word document letters text).1 := by
  unfold word
  split
  · exact h
  · exact .broken _

theorem nested_fits {depth : Nat} {document : Document}
    (h : document.Fits (depthLimit - (depth + 1) + 1)) :
    Document.Fits (depthLimit - depth) (nested depth document) := by
  unfold nested
  split
  · exact .buried _
  · rename_i hdepth
    have hroom : depthLimit - (depth + 1) + 1 = depthLimit - depth := by omega
    rwa [hroom] at h

section Step

variable {fuel : Nat}
  (hdocument : ∀ depth text, Document.Fits (depthLimit - depth) (document fuel depth text).1)

theorem document_fits_step
    (hitems : ∀ depth first text, ∀ d ∈ (items fuel depth first text).1,
      Document.Fits (depthLimit - depth) d)
    (hmembers : ∀ depth first text, ∀ m ∈ (members fuel depth first text).1,
      Document.Fits (depthLimit - depth) m.2) (depth : Nat) (text : List Char) :
    Document.Fits (depthLimit - depth) (document (fuel + 1) depth text).1 := by
  rw [document]
  split
  · exact .broken _
  · rename_i c rest _
    split_ifs
    · exact leaf_string_fits
    · exact nested_fits (.array (hitems (depth + 1) true rest))
    · exact nested_fits (.object (hmembers (depth + 1) true rest))
    · exact leaf_number_fits
    · exact leaf_number_fits
    · exact word_fits .null ..
    · exact word_fits (.bool true) ..
    · exact word_fits (.bool false) ..
    · exact .broken _

include hdocument

theorem items_fits_step
    (hitems : ∀ depth first text, ∀ d ∈ (items fuel depth first text).1,
      Document.Fits (depthLimit - depth) d) (depth : Nat) (first : Bool) (text : List Char) :
    ∀ d ∈ (items (fuel + 1) depth first text).1, Document.Fits (depthLimit - depth) d := by
  have hitem : ∀ text, ∀ d ∈ (document fuel depth text).1 ::
      (items fuel depth false (document fuel depth text).2).1,
      Document.Fits (depthLimit - depth) d := by
    intro text
    rw [List.forall_mem_cons]
    exact ⟨hdocument depth text, hitems depth false _⟩
  have hbroken : ∀ cut, ∀ d ∈ [Document.broken cut], Document.Fits (depthLimit - depth) d := by
    intro cut d hd
    rw [List.mem_singleton.mp hd]
    exact .broken cut
  rw [items]
  simp only
  split
  · simp
  · split_ifs
    · simp
    · exact hitem _
    · split
      · exact hbroken _
      · split_ifs
        · exact hbroken _
        · exact hitem _
    · simp

theorem members_fits_step
    (hmembers : ∀ depth first text, ∀ m ∈ (members fuel depth first text).1,
      Document.Fits (depthLimit - depth) m.2) (depth : Nat) (first : Bool) (text : List Char) :
    ∀ m ∈ (members (fuel + 1) depth first text).1, Document.Fits (depthLimit - depth) m.2 := by
  have hmember : ∀ (key : Option String) (text : List Char),
      ∀ m ∈ (key, (document fuel depth text).1) ::
        (members fuel depth false (document fuel depth text).2).1,
      Document.Fits (depthLimit - depth) m.2 := by
    intro key text
    rw [List.forall_mem_cons]
    exact ⟨hdocument depth text, hmembers depth false _⟩
  have hbroken : ∀ (key : Option String) cut, ∀ m ∈ [(key, Document.broken cut)],
      Document.Fits (depthLimit - depth) m.2 := by
    intro key cut m hm
    rw [List.mem_singleton.mp hm]
    exact .broken cut
  rw [members]
  simp only
  split
  · simp
  · split_ifs
    · simp
    · split
      · simp
      · split
        · exact hbroken _ _
        · split_ifs
          · exact hmember _ _
          · exact hbroken _ _
    · simp
    · split
      · simp
      · split_ifs
        · split
          · simp
          · split
            · exact hbroken _ _
            · split_ifs
              · exact hmember _ _
              · exact hbroken _ _
        · simp
    · simp

end Step

/-- What is read fits into the room that is left at its depth. -/
theorem document_fits (fuel : Nat) :
    (∀ depth text, Document.Fits (depthLimit - depth) (document fuel depth text).1) ∧
    (∀ depth first text, ∀ d ∈ (items fuel depth first text).1,
      Document.Fits (depthLimit - depth) d) ∧
    ∀ depth first text, ∀ m ∈ (members fuel depth first text).1,
      Document.Fits (depthLimit - depth) m.2 := by
  induction fuel with
  | zero =>
    refine ⟨fun _ _ => .broken _, ?_, ?_⟩
    · intro _ _ _ d hd
      cases hd
    · intro _ _ _ m hm
      cases hm
  | succ fuel ih =>
    obtain ⟨hdocument, hitems, hmembers⟩ := ih
    exact ⟨document_fits_step hitems hmembers, items_fits_step hdocument hitems,
      members_fits_step hdocument hmembers⟩

theorem parse_fits (text : String) : Document.Fits depthLimit (parse text).1 :=
  (document_fits _).1 0 text.toList

/-! ## Reading values -/

namespace Document

variable {documents : List Document} {members : List (Option String × Document)}

theorem itemValues_forall {P : Json → Prop} {items : List Json}
    (h : ∀ d ∈ documents, ∀ json, d.value = .ok json → P json)
    (hv : itemValues documents = .ok items) : ∀ item ∈ items, P item := by
  induction documents generalizing items with
  | nil =>
    cases hv
    simp
  | cons d documents ih =>
    obtain ⟨hd, hdocuments⟩ := List.forall_mem_cons.mp h
    rw [itemValues] at hv
    obtain ⟨item, hitem, hv⟩ := bind_eq_ok.mp hv
    obtain ⟨later, hlater, hv⟩ := bind_eq_ok.mp hv
    cases hv
    rw [List.forall_mem_cons]
    exact ⟨hd item hitem, ih hdocuments hlater⟩

theorem memberValues_forall {P : Json → Prop} {done fields : Fields}
    (h : ∀ m ∈ members, ∀ json, m.2.value = .ok json → P json)
    (horder : done.Ascending) (hdone : ∀ m ∈ done, P m.2)
    (hv : memberValues done members = .ok fields) :
    fields.Ascending ∧ ∀ m ∈ fields, P m.2 := by
  induction members generalizing done with
  | nil =>
    cases hv
    exact ⟨horder, hdone⟩
  | cons d members ih =>
    obtain ⟨hd, hmembers⟩ := List.forall_mem_cons.mp h
    obtain ⟨key, document⟩ := d
    cases key with
    | none => cases hv
    | some key =>
      rw [memberValues] at hv
      obtain ⟨json, hjson, hv⟩ := bind_eq_ok.mp hv
      refine ih hmembers (horder.insert key json) (fun m hm => ?_) hv
      rcases Table.mem_insert hm with rfl | hm
      · exact hd json hjson
      · exact hdone m hm

/-- A value that is read is sound where its document fits. -/
theorem Fits.value {room : Nat} {document : Document} (h : document.Fits room) {json : Json}
    (hv : document.value = .ok json) : json.Sound room := by
  induction h generalizing json with
  | null =>
    cases hv
    exact ⟨.null, .null⟩
  | bool b =>
    cases hv
    exact ⟨.bool b, .bool b⟩
  | @number _ n hn =>
    cases n with
    | none => cases hv
    | some n =>
      cases hv
      exact ⟨.number (hn n rfl), .number n⟩
  | string s =>
    cases s with
    | none => cases hv
    | some s =>
      cases hv
      exact ⟨.string s, .string s⟩
  | array _ ih =>
    rw [Document.value] at hv
    obtain ⟨items, hitems, hv⟩ := bind_eq_ok.mp hv
    obtain ⟨_, _, hv⟩ := bind_eq_ok.mp hv
    cases hv
    have hall := itemValues_forall (fun d hd _ => ih d hd) hitems
    exact ⟨.array fun item hi => (hall item hi).fits, .array fun item hi => (hall item hi).ordered⟩
  | object _ ih =>
    rw [Document.value] at hv
    obtain ⟨fields, hfields, hv⟩ := bind_eq_ok.mp hv
    obtain ⟨_, _, hv⟩ := bind_eq_ok.mp hv
    cases hv
    obtain ⟨horder, hall⟩ := memberValues_forall (fun m hm _ => ih m hm) List.Pairwise.nil
      (by simp) hfields
    exact ⟨.object fun m hm => (hall m hm).fits, .object horder fun m hm => (hall m hm).ordered⟩
  | buried _ => cases hv
  | broken _ => cases hv

end Document

end Json

end ShaderGraph
