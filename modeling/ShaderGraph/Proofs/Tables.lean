import Mathlib.Data.List.Induction
import Mathlib.Data.String.Basic
import ShaderGraph.Table

/-!
Tables by name. What a look-up finds after an insertion depends on the two keys alone
(`Table.find?_insert`), whatever the order of the entries. Insertions keep the entries in
ascending order, and a table in order is told by what it finds (`Table.Ascending.ext`).
-/

namespace ShaderGraph.Table

variable {α : Type} {table other : Table α} {key k : String} {a : α}

/-! ## Look-ups -/

theorem find?_insert (table : Table α) (key other : String) (a : α) :
    (table.insert key a).find? other = if other = key then some a else table.find? other := by
  induction table with
  | nil => simp [insert, find?]
  | cons entry table ih =>
    obtain ⟨k, b⟩ := entry
    rw [insert]
    split
    · simp [find?]
    · split
      · rename_i hk
        subst hk
        by_cases h : other = key <;> simp [find?, h]
      · rename_i hk
        simp only [find?, ih]
        by_cases h : other = k
        · subst h
          simp [Ne.symm hk]
        · simp [h]

theorem find?_insertNew (table : Table α) (key other : String) (a : α) :
    (table.insertNew key a).find? other =
      (table.find? other).or (if other = key then some a else none) := by
  unfold insertNew
  split
  · rename_i hkey
    by_cases ho : other = key
    · subst ho
      obtain ⟨b, hb⟩ := Option.isSome_iff_exists.mp hkey
      simp [hb]
    · simp [ho]
  · rename_i hkey
    rw [find?_insert]
    by_cases ho : other = key
    · subst ho
      have hnone : table.find? other = none := by simpa using hkey
      simp [hnone]
    · simp [ho]

/-- A fold that offers one entry after the other keeps the first that fits. -/
theorem find?_foldl {β : Type} {step : Table β → α → Table β} {f : α → Option β}
    {key : String} (hstep : ∀ table a, (step table a).find? key = (table.find? key).or (f a))
    (as : List α) (table : Table β) :
    (as.foldl step table).find? key = (table.find? key).or (as.findSome? f) := by
  induction as generalizing table with
  | nil => simp
  | cons a as ih =>
    rw [List.foldl_cons, ih, hstep, Option.or_assoc, List.findSome?_cons]
    cases f a <;> rfl

/-- In a table made of a list, the last entry under a key counts. -/
theorem find?_ofList (entries : List (String × α)) (key : String) :
    (ofList entries).find? key = (entries.reverse.find? (·.1 == key)).map Prod.snd := by
  induction entries using List.reverseRecOn with
  | nil => rfl
  | append_singleton entries entry ih =>
    have hinsert : ofList (entries ++ [entry]) = (ofList entries).insert entry.1 entry.2 := by
      simp [ofList]
    rw [hinsert, find?_insert, ih, List.reverse_append, List.reverse_singleton,
      List.singleton_append, List.find?_cons]
    by_cases hkey : key = entry.1
    · simp [hkey]
    · have hother : (entry.1 == key) = false := beq_eq_false_iff_ne.mpr (Ne.symm hkey)
      simp [hkey, hother]

theorem find?_ofList_map {β : Type} (key : β → String) (value : β → α) (bs : List β) (id : String) :
    (ofList (bs.map fun b => (key b, value b))).find? id =
      (bs.reverse.find? (key · == id)).map value := by
  rw [find?_ofList, ← List.map_reverse, List.find?_map, Option.map_map]
  rfl

theorem mem_of_find? (h : table.find? key = some a) : (key, a) ∈ table := by
  induction table with
  | nil => cases h
  | cons entry table ih =>
    obtain ⟨k, b⟩ := entry
    rw [find?] at h
    split at h
    · rename_i hk
      cases h
      rw [hk]
      exact List.mem_cons_self ..
    · exact List.mem_cons_of_mem _ (ih h)

theorem find?_of_absent (h : ∀ e ∈ table, e.1 ≠ key) : table.find? key = none := by
  induction table with
  | nil => rfl
  | cons f table ih =>
    obtain ⟨hhead, htail⟩ := List.forall_mem_cons.mp h
    rw [find?, if_neg (Ne.symm hhead), ih htail]

/-! ## Order -/

/-- The keys ascend, and none occurs twice. -/
def Ascending (table : Table α) : Prop := table.Pairwise fun e f => e.1 < f.1

theorem mem_insert {e : String × α} (h : e ∈ table.insert key a) : e = (key, a) ∨ e ∈ table := by
  induction table with
  | nil => simpa [insert] using h
  | cons f table ih =>
    obtain ⟨k, b⟩ := f
    unfold insert at h
    split_ifs at h
    · simpa using h
    · rcases List.mem_cons.mp h with rfl | h
      · exact .inl rfl
      · exact .inr (List.mem_cons_of_mem _ h)
    · rcases List.mem_cons.mp h with rfl | h
      · exact .inr (List.mem_cons_self ..)
      · exact (ih h).imp id (List.mem_cons_of_mem _)

theorem Ascending.insert (h : table.Ascending) (key : String) (a : α) :
    (table.insert key a).Ascending := by
  induction table with
  | nil => exact List.pairwise_singleton ..
  | cons f table ih =>
    obtain ⟨k, b⟩ := f
    obtain ⟨hhead, htail⟩ := List.pairwise_cons.mp h
    unfold Table.insert
    split_ifs with hlt heq
    · refine List.pairwise_cons.mpr ⟨fun e he => ?_, h⟩
      rcases List.mem_cons.mp he with rfl | he
      · exact hlt
      · exact lt_trans hlt (hhead e he)
    · subst heq
      exact List.pairwise_cons.mpr ⟨hhead, htail⟩
    · refine List.pairwise_cons.mpr ⟨fun e he => ?_, ih htail⟩
      rcases mem_insert he with rfl | he
      · exact lt_of_le_of_ne (not_lt.mp hlt) (Ne.symm heq)
      · exact hhead e he

/-- An entry beyond all others is put at the end. -/
theorem insert_of_lt (h : ∀ e ∈ table, e.1 < key) : table.insert key a = table ++ [(key, a)] := by
  induction table with
  | nil => rfl
  | cons f table ih =>
    obtain ⟨k, b⟩ := f
    obtain ⟨hhead, htail⟩ := List.forall_mem_cons.mp h
    unfold insert
    rw [if_neg (not_lt.mpr (le_of_lt hhead)), if_neg (ne_of_gt hhead), ih htail]
    rfl

theorem Ascending.foldl_insert {entries : Table α} (h : Ascending (table ++ entries)) :
    entries.foldl (fun table e => table.insert e.1 e.2) table = table ++ entries := by
  induction entries generalizing table with
  | nil => simp
  | cons e entries ih =>
    have hlast : ∀ f ∈ table, f.1 < e.1 := fun f hf =>
      (List.pairwise_append.mp h).2.2 f hf e (List.mem_cons_self ..)
    rw [List.foldl_cons, insert_of_lt hlast, ih (by simpa using h)]
    simp

theorem erase_of_absent (h : ∀ e ∈ table, e.1 ≠ key) : table.erase key = table :=
  List.filter_eq_self.mpr fun e he => by simpa using h e he

theorem erase_insert (h : ∀ e ∈ table, e.1 ≠ key) : (table.insert key a).erase key = table := by
  induction table with
  | nil => simp [insert, erase]
  | cons f table ih =>
    obtain ⟨k, b⟩ := f
    obtain ⟨hhead, htail⟩ := List.forall_mem_cons.mp h
    have hrest := erase_of_absent h
    have hk : key ≠ k := Ne.symm hhead
    unfold insert
    split_ifs with hlt
    · rw [erase, List.filter_cons_of_neg (by simp)]
      exact hrest
    · rw [erase, List.filter_cons_of_pos (by simpa using hhead)]
      exact congrArg _ (ih htail)

namespace Ascending

/-- An entry that replaces another stands where that was, and a new one between the others. -/
theorem insert_split (h : table.Ascending) (key : String) (a : α) :
    ∃ front back, table.insert key a = front ++ (key, a) :: back ∧
      table = front ++ ((table.find? key).map (key, ·)).toList ++ back := by
  induction table with
  | nil => exact ⟨[], [], rfl, rfl⟩
  | cons e table ih =>
    obtain ⟨k, b⟩ := e
    obtain ⟨hlow, htail⟩ := List.pairwise_cons.mp h
    rw [Table.insert, Table.find?]
    split_ifs with hlt heq heq
    · exact absurd heq (ne_of_lt hlt)
    · have hnone : Table.find? table key = none :=
        find?_of_absent fun e he => (hlt.trans (hlow e he)).ne'
      exact ⟨[], (k, b) :: table, rfl, by simp [hnone]⟩
    · subst heq
      exact ⟨[], table, rfl, rfl⟩
    · obtain ⟨front, back, hinsert, htable⟩ := ih htail
      refine ⟨(k, b) :: front, back, by rw [hinsert]; rfl, ?_⟩
      conv_lhs => rw [htable]
      simp

/-- Nothing is found before the first key. -/
theorem not_lt_of_find? (h : Ascending ((k, a) :: table))
    (hfound : Table.find? ((k, a) :: table) key ≠ none) : ¬ key < k := by
  intro hlt
  obtain ⟨hlow, _⟩ := List.pairwise_cons.mp h
  exact hfound (find?_of_absent (List.forall_mem_cons.mpr
    ⟨hlt.ne', fun e he => (hlt.trans (hlow e he)).ne'⟩))

/-- Tables that find the same are the same. -/
theorem ext (ht : table.Ascending) (ho : other.Ascending)
    (h : ∀ key, table.find? key = other.find? key) : table = other := by
  induction table generalizing other with
  | nil =>
    cases other with
    | nil => rfl
    | cons f other => simpa [find?] using h f.1
  | cons e table ih =>
    obtain ⟨k, a⟩ := e
    cases other with
    | nil => simpa [find?] using h k
    | cons f other =>
      obtain ⟨l, b⟩ := f
      -- neither first key is below the other, as the other table finds it too
      have hkl : ¬ k < l := ho.not_lt_of_find? (by rw [← h k]; simp [find?])
      have hlk : ¬ l < k := ht.not_lt_of_find? (by rw [h l]; simp [find?])
      obtain rfl : k = l := le_antisymm (not_lt.mp hlk) (not_lt.mp hkl)
      obtain rfl : a = b := by simpa [find?] using h k
      obtain ⟨hlow, htail⟩ := List.pairwise_cons.mp ht
      obtain ⟨hlow', hotail⟩ := List.pairwise_cons.mp ho
      have hrest : ∀ key, Table.find? table key = Table.find? other key := by
        intro key
        by_cases hkey : key = k
        · subst hkey
          rw [find?_of_absent fun e he => (hlow e he).ne',
            find?_of_absent fun e he => (hlow' e he).ne']
        · simpa [find?, hkey] using h key
      rw [ih htail hotail hrest]

end Ascending

end ShaderGraph.Table
