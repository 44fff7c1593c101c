/-! Computations that may fail, taken apart step by step. -/
namespace ShaderGraph

variable {ε α β : Type}

/-- Peels off the first step of a computation that ends well. -/
theorem bind_eq_ok {x : Except ε α} {f : α → Except ε β} {b : β} :
    (x >>= f) = .ok b ↔ ∃ a, x = .ok a ∧ f a = .ok b := by
  cases x with
  | error e => simp [bind, Except.bind]
  | ok a => simp [bind, Except.bind]

/-- A computation fails at its first step or after it. -/
theorem bind_eq_error {x : Except ε α} {f : α → Except ε β} {e : ε} :
    (x >>= f) = .error e ↔ x = .error e ∨ ∃ a, x = .ok a ∧ f a = .error e := by
  cases x with
  | error e => simp [bind, Except.bind]
  | ok a => simp [bind, Except.bind]

theorem map_eq_ok {x : Except ε α} {f : α → β} {b : β} :
    x.map f = .ok b ↔ ∃ a, x = .ok a ∧ f a = b := by
  cases x with
  | error e => simp [Except.map]
  | ok a => simp [Except.map]

theorem mapM_cons_eq_ok {f : α → Except ε β} {a : α} {as : List α} {bs : List β} :
    (a :: as).mapM f = .ok bs ↔
      ∃ b later, f a = .ok b ∧ as.mapM f = .ok later ∧ bs = b :: later := by
  rw [List.mapM_cons]
  constructor
  · intro h
    obtain ⟨b, hb, h⟩ := bind_eq_ok.mp h
    obtain ⟨later, hlater, h⟩ := bind_eq_ok.mp h
    cases h
    exact ⟨b, later, hb, hlater, rfl⟩
  · rintro ⟨b, later, hb, hlater, rfl⟩
    exact bind_eq_ok.mpr ⟨b, hb, bind_eq_ok.mpr ⟨later, hlater, rfl⟩⟩

theorem mapM_ok_iff {f : α → Except ε β} {as : List α} :
    (∃ bs, as.mapM f = .ok bs) ↔ ∀ a ∈ as, ∃ b, f a = .ok b := by
  induction as with
  | nil => simp [pure, Except.pure]
  | cons a as ih =>
    rw [List.forall_mem_cons, ← ih]
    constructor
    · rintro ⟨bs, h⟩
      obtain ⟨b, later, hb, hlater, _⟩ := mapM_cons_eq_ok.mp h
      exact ⟨⟨b, hb⟩, later, hlater⟩
    · rintro ⟨⟨b, hb⟩, later, hlater⟩
      exact ⟨b :: later, mapM_cons_eq_ok.mpr ⟨b, later, hb, hlater, rfl⟩⟩

/-- Results that were computed already. -/
theorem mapM_id_eq_ok {xs : List (Except ε α)} {as : List α} :
    xs.mapM id = .ok as ↔ xs = as.map .ok := by
  induction xs generalizing as with
  | nil => simp [pure, Except.pure, eq_comm]
  | cons x xs ih =>
    rw [mapM_cons_eq_ok]
    constructor
    · rintro ⟨a, later, rfl, hlater, rfl⟩
      rw [ih.mp hlater]
      rfl
    · intro h
      cases as with
      | nil => cases h
      | cons a as =>
        obtain ⟨rfl, hlater⟩ := List.cons.inj h
        exact ⟨a, as, rfl, ih.mpr hlater, rfl⟩

theorem mem_of_mapM_id_eq_error {xs : List (Except ε α)} {e : ε} (h : xs.mapM id = .error e) :
    .error e ∈ xs := by
  induction xs with
  | nil => cases h
  | cons x xs ih =>
    rw [List.mapM_cons] at h
    rcases bind_eq_error.mp h with hx | ⟨_, _, h⟩
    · exact List.mem_cons.mpr (.inl hx.symm)
    · rcases bind_eq_error.mp h with hxs | ⟨_, _, h⟩
      · exact List.mem_cons_of_mem _ (ih hxs)
      · cases h

/-- Every result comes from one of the arguments. -/
theorem exists_of_mem_mapM {f : α → Except ε β} {as : List α} {bs : List β}
    (h : as.mapM f = .ok bs) : ∀ b ∈ bs, ∃ a ∈ as, f a = .ok b := by
  induction as generalizing bs with
  | nil =>
    cases h
    simp
  | cons a as ih =>
    obtain ⟨b, later, hb, hlater, rfl⟩ := mapM_cons_eq_ok.mp h
    rw [List.forall_mem_cons]
    refine ⟨⟨a, List.mem_cons_self .., hb⟩, fun c hc => ?_⟩
    obtain ⟨a', ha', hc'⟩ := ih hlater c hc
    exact ⟨a', List.mem_cons_of_mem _ ha', hc'⟩

/-- A computation that gives a known result at each argument gives the list of them. -/
theorem mapM_map_eq_ok {γ : Type} {f : β → Except ε γ} {g : α → β} {r : α → γ} {as : List α}
    (h : ∀ a ∈ as, f (g a) = .ok (r a)) : (as.map g).mapM f = .ok (as.map r) := by
  induction as with
  | nil => rfl
  | cons a as ih =>
    obtain ⟨ha, has⟩ := List.forall_mem_cons.mp h
    exact mapM_cons_eq_ok.mpr ⟨r a, as.map r, ha, ih has, rfl⟩

end ShaderGraph
