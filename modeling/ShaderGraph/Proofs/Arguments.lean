import ShaderGraph.CommandLine.Options

/-!
Arguments in pairs. Flags stand at the even places of the arguments and each value stands behind
its flag, whatever it looks like. Reading goes two places ahead at a time, so what is said of
places in the arguments is said of places in the rest of them after one pair
(`stands_cons_cons`), and each statement follows the reading by induction on the pairs.

`parse_outcome` says which arguments are accepted, what the options are then, and which place
is to blame otherwise.
-/

namespace ShaderGraph.CommandLine

/-- The ways to write a flag. -/
def Flag.spellings : Flag → List String
  | graph => ["--graph"]
  | node => ["--node"]
  | outputDir => ["--outputdir", "--output-dir"]
  | signatures => ["--signatures"]

theorem Flag.ofText?_eq_some {text : String} {flag : Flag} :
    ofText? text = some flag ↔ text ∈ flag.spellings := by
  cases flag <;> simp only [ofText?, spellings] <;> grind

theorem Flag.ofText?_eq_none {text : String} :
    ofText? text = none ↔ ∀ flag : Flag, text ∉ flag.spellings := by
  simp only [← ofText?_eq_some, Option.eq_none_iff_forall_ne_some]

namespace Options

/-- The value that is set for a flag. -/
def get (options : Options) : Flag → Option String
  | .graph => options.graph
  | .node => options.node
  | .outputDir => options.outputDir
  | .signatures => options.signatures

theorem get_set (options : Options) (value : String) (flag other : Flag) :
    (options.set value flag).get other =
      if flag = other then some value else options.get other := by
  cases flag <;> cases other <;> rfl

theorem ext_get {a b : Options} (h : ∀ flag, a.get flag = b.get flag) : a = b := by
  cases a
  cases b
  rw [mk.injEq]
  exact ⟨h .graph, h .node, h .outputDir, h .signatures⟩

end Options

/-! ## Places -/

/-- A text stands at an even place of the arguments. -/
def Stands (arguments : List String) (i : Nat) (text : String) : Prop :=
  i % 2 = 0 ∧ arguments[i]? = some text

/-- A flag stands at an even place of the arguments, in one of its spellings. -/
def FlagAt (arguments : List String) (flag : Flag) (i : Nat) : Prop :=
  ∃ text ∈ flag.spellings, Stands arguments i text

/-- The arguments are flags and values in turn. -/
def Paired (arguments : List String) : Prop :=
  arguments.length % 2 = 0 ∧
    ∀ i text, Stands arguments i text → ∃ flag : Flag, text ∈ flag.spellings

/-- The value for a flag is the one behind its last place. A flag that has no place leaves
what was set before. -/
inductive Settles (arguments : List String) (flag : Flag) (before : Option String) :
    Option String → Prop
  | last {i : Nat} {value : String} : FlagAt arguments flag i →
      (∀ j, FlagAt arguments flag j → j ≤ i) → arguments[i + 1]? = some value →
      Settles arguments flag before (some value)
  | unset : (∀ i, ¬ FlagAt arguments flag i) → Settles arguments flag before before

/-- What is wrong at an even place: no flag is there, or nothing is behind it. -/
inductive Offends (arguments : List String) (i : Nat) : OptionsError → Prop
  | unknown {text : String} : Stands arguments i text → (∀ flag : Flag, text ∉ flag.spellings) →
      Offends arguments i (.unknownArgument text)
  | missing {flag : Flag} : FlagAt arguments flag i → i + 1 = arguments.length →
      Offends arguments i (.missingValue flag)

/-- The error at the first place where something is wrong. -/
def FirstOffence (arguments : List String) (error : OptionsError) : Prop :=
  ∃ i, Offends arguments i error ∧ ∀ j < i, ∀ earlier, ¬ Offends arguments j earlier

variable {arguments : List String} {argument value text : String} {flag : Flag} {i : Nat}
  {before after : Option String} {error : OptionsError}

theorem not_stands_nil : ¬ Stands [] i text := by
  simp [Stands]

theorem stands_singleton : Stands [argument] i text ↔ i = 0 ∧ text = argument := by
  cases i with
  | zero => simp [Stands, eq_comm]
  | succ i => simp [Stands]

/-- **One pair.** -/
theorem stands_cons_cons :
    Stands (argument :: value :: arguments) i text ↔
      (i = 0 ∧ text = argument) ∨ ∃ j, i = j + 2 ∧ Stands arguments j text := by
  rcases i with _ | _ | i
  · simp [Stands, eq_comm]
  · simp [Stands]
  · have hparity : (i + 1 + 1) % 2 = i % 2 := by omega
    simp [Stands, hparity]

theorem flagAt_cons_cons :
    FlagAt (argument :: value :: arguments) flag i ↔
      (i = 0 ∧ argument ∈ flag.spellings) ∨ ∃ j, i = j + 2 ∧ FlagAt arguments flag j := by
  simp only [FlagAt, stands_cons_cons]
  constructor
  · rintro ⟨text, hflag, ⟨rfl, rfl⟩ | ⟨j, rfl, hj⟩⟩
    · exact .inl ⟨rfl, hflag⟩
    · exact .inr ⟨j, rfl, text, hflag, hj⟩
  · rintro (⟨rfl, hflag⟩ | ⟨j, rfl, text, hflag, hj⟩)
    · exact ⟨argument, hflag, .inl ⟨rfl, rfl⟩⟩
    · exact ⟨text, hflag, .inr ⟨j, rfl, hj⟩⟩

/-! ## Accepted arguments -/

theorem paired_nil : Paired [] := ⟨rfl, fun _ _ h => absurd h not_stands_nil⟩

theorem paired_cons_cons :
    Paired (argument :: value :: arguments) ↔
      (∃ flag : Flag, argument ∈ flag.spellings) ∧ Paired arguments := by
  simp only [Paired, stands_cons_cons, List.length_cons]
  constructor
  · rintro ⟨hlength, hall⟩
    exact ⟨hall 0 argument (.inl ⟨rfl, rfl⟩), by omega,
      fun j text hj => hall (j + 2) text (.inr ⟨j, rfl, hj⟩)⟩
  · rintro ⟨hhead, hlength, hall⟩
    refine ⟨by omega, ?_⟩
    rintro i text (⟨_, rfl⟩ | ⟨j, rfl, hj⟩)
    · exact hhead
    · exact hall j text hj

theorem settles_nil : Settles [] flag before after ↔ after = before := by
  have hnone : ∀ i, ¬ FlagAt [] flag i := fun _ ⟨_, _, h⟩ => not_stands_nil h
  constructor
  · intro h
    cases h with
    | last hi => exact absurd hi (hnone _)
    | unset => rfl
  · rintro rfl
    exact .unset hnone

/-- The first pair sets a value, and the others may set it anew. -/
theorem settles_cons_cons :
    Settles (argument :: value :: arguments) flag before after ↔
      Settles arguments flag (if argument ∈ flag.spellings then some value else before) after := by
  constructor
  · intro h
    cases h with
    | @last i _ hi hlast hvalue =>
      rcases flagAt_cons_cons.mp hi with ⟨rfl, hflag⟩ | ⟨j, rfl, hj⟩
      · cases hvalue
        rw [if_pos hflag]
        refine .unset fun j hj => ?_
        have hle := hlast (j + 2) (flagAt_cons_cons.mpr (.inr ⟨j, rfl, hj⟩))
        omega
      · refine .last hj (fun k hk => ?_) hvalue
        have hle := hlast (k + 2) (flagAt_cons_cons.mpr (.inr ⟨k, rfl, hk⟩))
        omega
    | unset hnone =>
      rw [if_neg fun hflag => hnone 0 (flagAt_cons_cons.mpr (.inl ⟨rfl, hflag⟩))]
      exact .unset fun j hj => hnone (j + 2) (flagAt_cons_cons.mpr (.inr ⟨j, rfl, hj⟩))
  · intro h
    cases h with
    | @last j _ hj hlast hvalue =>
      refine .last (i := j + 2) (flagAt_cons_cons.mpr (.inr ⟨j, rfl, hj⟩)) (fun k hk => ?_) hvalue
      rcases flagAt_cons_cons.mp hk with ⟨rfl, _⟩ | ⟨k, rfl, hearlier⟩
      · omega
      · have hle := hlast k hearlier
        omega
    | unset hnone =>
      -- the place of the first pair is the last one, if it is one at all
      have honly : ∀ k, FlagAt (argument :: value :: arguments) flag k →
          k = 0 ∧ argument ∈ flag.spellings := by
        intro k hk
        rcases flagAt_cons_cons.mp hk with hfirst | ⟨j, _, hj⟩
        · exact hfirst
        · exact absurd hj (hnone j)
      by_cases hflag : argument ∈ flag.spellings
      · rw [if_pos hflag]
        exact .last (flagAt_cons_cons.mpr (.inl ⟨rfl, hflag⟩))
          (fun k hk => Nat.le_of_eq (honly k hk).1) rfl
      · rw [if_neg hflag]
        exact .unset fun k hk => hflag (honly k hk).2

/-- **Accepted arguments**, read on top of options that are set already. -/
theorem parseOver_eq_ok {options result : Options} :
    options.parseOver arguments = .ok result ↔
      Paired arguments ∧ ∀ flag, Settles arguments flag (options.get flag) (result.get flag) := by
  fun_induction Options.parseOver options arguments with
  | case1 options =>
    simp only [settles_nil, paired_nil, true_and, Except.ok.injEq]
    exact ⟨fun h _ => by rw [h], fun h => Options.ext_get fun flag => (h flag).symm⟩
  | case2 | case3 =>
    constructor
    · intro h
      cases h
    · rintro ⟨⟨hlength, _⟩, _⟩
      cases hlength
  | case4 options argument value arguments flag hflag ih =>
    have hother : ∀ other : Flag, argument ∈ other.spellings ↔ flag = other := by
      intro other
      rw [← Flag.ofText?_eq_some, hflag, Option.some.injEq]
    simp only [ih, paired_cons_cons, settles_cons_cons, Options.get_set, hother,
      exists_eq', true_and]
  | case5 options argument value arguments hflag =>
    rw [paired_cons_cons]
    constructor
    · intro h
      cases h
    · rintro ⟨⟨⟨flag, hknown⟩, _⟩, _⟩
      exact absurd hknown (Flag.ofText?_eq_none.mp hflag flag)

/-! ## Refused arguments -/

/-- Nothing is wrong with arguments in pairs. -/
theorem Offends.not_paired (h : Offends arguments i error) : ¬ Paired arguments := by
  rintro ⟨hlength, hall⟩
  cases h with
  | unknown htext hnone =>
    obtain ⟨flag, hflag⟩ := hall i _ htext
    exact hnone flag hflag
  | missing hflag hend =>
    obtain ⟨_, _, heven, _⟩ := hflag
    omega

theorem offends_cons_cons :
    Offends (argument :: value :: arguments) i error ↔
      (i = 0 ∧ error = .unknownArgument argument ∧ ∀ flag : Flag, argument ∉ flag.spellings) ∨
        ∃ j, i = j + 2 ∧ Offends arguments j error := by
  constructor
  · intro h
    cases h with
    | unknown htext hnone =>
      rcases stands_cons_cons.mp htext with ⟨rfl, rfl⟩ | ⟨j, rfl, hj⟩
      · exact .inl ⟨rfl, rfl, hnone⟩
      · exact .inr ⟨j, rfl, .unknown hj hnone⟩
    | missing hflag hend =>
      rw [List.length_cons, List.length_cons] at hend
      rcases flagAt_cons_cons.mp hflag with ⟨rfl, _⟩ | ⟨j, rfl, hj⟩
      · omega
      · exact .inr ⟨j, rfl, .missing hj (by omega)⟩
  · rintro (⟨rfl, rfl, hnone⟩ | ⟨j, rfl, hj⟩)
    · exact .unknown (stands_cons_cons.mpr (.inl ⟨rfl, rfl⟩)) hnone
    · cases hj with
      | unknown htext hnone => exact .unknown (stands_cons_cons.mpr (.inr ⟨j, rfl, htext⟩)) hnone
      | missing hflag hend =>
        refine .missing (flagAt_cons_cons.mpr (.inr ⟨j, rfl, hflag⟩)) ?_
        rw [List.length_cons, List.length_cons]
        omega

/-- Behind a flag and its value the search goes on. -/
theorem firstOffence_known (h : argument ∈ flag.spellings) :
    FirstOffence (argument :: value :: arguments) error ↔ FirstOffence arguments error := by
  have hshift : ∀ i error, Offends (argument :: value :: arguments) i error ↔
      ∃ j, i = j + 2 ∧ Offends arguments j error := by
    intro i error
    rw [offends_cons_cons]
    exact or_iff_right fun hfirst => hfirst.2.2 flag h
  simp only [FirstOffence, hshift]
  constructor
  · rintro ⟨_, ⟨j, rfl, hj⟩, hfirst⟩
    exact ⟨j, hj, fun k hk earlier hoffends => hfirst (k + 2) (by omega) earlier ⟨k, rfl, hoffends⟩⟩
  · rintro ⟨j, hj, hfirst⟩
    refine ⟨j + 2, ⟨j, rfl, hj⟩, ?_⟩
    rintro _ hk earlier ⟨k, rfl, hoffends⟩
    exact hfirst k (by omega) earlier hoffends

/-- An unknown argument in front is the first thing that is wrong. -/
theorem firstOffence_unknown (h : ∀ flag : Flag, argument ∉ flag.spellings) :
    FirstOffence (argument :: value :: arguments) error ↔ error = .unknownArgument argument := by
  have hhere : Offends (argument :: value :: arguments) 0 (.unknownArgument argument) :=
    offends_cons_cons.mpr (.inl ⟨rfl, rfl, h⟩)
  constructor
  · rintro ⟨i, hi, hfirst⟩
    rcases offends_cons_cons.mp hi with ⟨_, herror, _⟩ | ⟨j, rfl, _⟩
    · exact herror
    · exact absurd hhere (hfirst 0 (by omega) _)
  · rintro rfl
    exact ⟨0, hhere, fun j hj => absurd hj (Nat.not_lt_zero j)⟩

theorem firstOffence_singleton :
    FirstOffence [argument] error ↔ Offends [argument] 0 error := by
  have hplace : ∀ i error, Offends [argument] i error → i = 0 := by
    intro i error h
    cases h with
    | unknown htext _ => exact (stands_singleton.mp htext).1
    | missing _ hend => simpa using hend
  constructor
  · rintro ⟨i, hi, _⟩
    rwa [← hplace i error hi]
  · intro h
    exact ⟨0, h, fun j hj => absurd hj (Nat.not_lt_zero j)⟩

/-- **Refused arguments.** -/
theorem parseOver_eq_error {options : Options} :
    options.parseOver arguments = .error error ↔ FirstOffence arguments error := by
  fun_induction Options.parseOver options arguments with
  | case1 options =>
    constructor
    · intro h
      cases h
    · rintro ⟨i, hi, _⟩
      exact absurd paired_nil hi.not_paired
  | case2 options argument flag hflag =>
    have hspelled := Flag.ofText?_eq_some.mp hflag
    rw [firstOffence_singleton, Except.error.injEq]
    constructor
    · rintro rfl
      exact .missing ⟨argument, hspelled, stands_singleton.mpr ⟨rfl, rfl⟩⟩ rfl
    · intro h
      cases h with
      | unknown htext hnone =>
        rw [(stands_singleton.mp htext).2] at hnone
        exact absurd hspelled (hnone flag)
      | missing hother _ =>
        obtain ⟨text, htext, hstands⟩ := hother
        rw [(stands_singleton.mp hstands).2, ← Flag.ofText?_eq_some, hflag] at htext
        cases htext
        rfl
  | case3 options argument hflag =>
    have hnone := Flag.ofText?_eq_none.mp hflag
    rw [firstOffence_singleton, Except.error.injEq]
    constructor
    · rintro rfl
      exact .unknown (stands_singleton.mpr ⟨rfl, rfl⟩) hnone
    · intro h
      cases h with
      | unknown htext _ => rw [(stands_singleton.mp htext).2]
      | missing hother _ =>
        obtain ⟨text, htext, hstands⟩ := hother
        rw [(stands_singleton.mp hstands).2] at htext
        exact absurd htext (hnone _)
  | case4 options argument value arguments flag hflag ih =>
    rw [ih, firstOffence_known (Flag.ofText?_eq_some.mp hflag)]
  | case5 options argument value arguments hflag =>
    rw [firstOffence_unknown (Flag.ofText?_eq_none.mp hflag), Except.error.injEq, eq_comm]

/-- **Arguments of the command line.** They are accepted exactly if they are even in number and
a flag stands at every even place; whatever stands at an odd place is a value. The options are
then those that hold, for every flag, the value behind its last place, or nothing if it has no
place. Otherwise the first even place where something is wrong decides the error: the argument
there is unknown, or it is a flag and nothing is behind it. -/
theorem parse_outcome (arguments : List String) :
    ((∃ options, Options.parse arguments = .ok options) ↔ Paired arguments) ∧
      (∀ options, Options.parse arguments = .ok options ↔
        Paired arguments ∧ ∀ flag, Settles arguments flag none (options.get flag)) ∧
      ∀ error, Options.parse arguments = .error error ↔ FirstOffence arguments error := by
  have hok : ∀ options, Options.parse arguments = .ok options ↔
      Paired arguments ∧ ∀ flag, Settles arguments flag none (options.get flag) := by
    intro options
    rw [Options.parse, parseOver_eq_ok]
    have hempty : ∀ flag, ({} : Options).get flag = none := by
      intro flag
      cases flag <;> rfl
    simp only [hempty]
  have herror : ∀ error, Options.parse arguments = .error error ↔ FirstOffence arguments error :=
    fun _ => parseOver_eq_error
  refine ⟨⟨?_, ?_⟩, hok, herror⟩
  · rintro ⟨options, h⟩
    exact ((hok options).mp h).1
  · intro hpaired
    cases hparse : Options.parse arguments with
    | ok options => exact ⟨options, rfl⟩
    | error error =>
      obtain ⟨i, hi, _⟩ := (herror error).mp hparse
      exact absurd hpaired hi.not_paired

/-- Values that look like flags, a flag that is given twice, and its two spellings. -/
example : Options.parse
    ["--node", "--graph", "--outputdir", "a", "--output-dir", "--node", "--node", "b"] =
      .ok { node := some "b", outputDir := some "--node" } := by
  rfl

end ShaderGraph.CommandLine
