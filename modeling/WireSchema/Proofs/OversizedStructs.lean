import WireSchema.Proofs.Extension

/-! When there is no plan. Sizes are worked out in the order of declaration and with one memo, they
end at 64 bits, and the first one beyond the limit is told; all the same it is the exact size that
is compared, of whatever magnitude. -/
namespace WireSchema

namespace WireSize
variable {structs : Table Struct} {S : String} {m n : Nat} {a : WireSize}

/-- The number of bytes of a struct, of any magnitude. A struct that varies has none. -/
def ExactSize (structs : Table Struct) (S : String) (n : Nat) : Prop :=
  ¬ Varies structs S ∧ ∃ s ps, structs.get? S = some s ∧ Unfolds structs s.fields.values ps ∧
    bytes ps = n

theorem exactSize_unique (h : ExactSize structs S m) (h' : ExactSize structs S n) : m = n := by
  obtain ⟨-, s, ps, hs, hu, rfl⟩ := h
  obtain ⟨-, s', qs, hs', hu', rfl⟩ := h'
  rw [hs] at hs'
  cases hs'
  rw [unfolds_unique hu hu']

/-- A size of 64 bits tells the exact one, or that there is none. -/
theorem HasSize.cases_exact (h : HasSize structs S a) :
    (a = .varying ∧ ∀ n, ¬ ExactSize structs S n) ∨ ∃ n, ExactSize structs S n ∧ a = ofBytes n := by
  cases h with
  | undeclared hS =>
    refine Or.inl ⟨rfl, ?_⟩
    rintro n ⟨-, s, ps, hs, -⟩
    simp [hS] at hs
  | varies hv =>
    refine Or.inl ⟨rfl, ?_⟩
    rintro n ⟨hn, -⟩
    exact hn hv
  | @unfolds s ps hn hS hu => exact Or.inr ⟨bytes ps, ⟨hn, s, ps, hS, hu, rfl⟩, rfl⟩

theorem exactSize_of_fixed (h : HasSize structs S (.fixed n)) : ExactSize structs S n := by
  rcases h.cases_exact with ⟨⟨⟩, -⟩ | ⟨m, hm, heq⟩
  unfold ofBytes at heq
  split at heq <;> cases heq
  exact hm

theorem not_exactSize_of_varying (h : HasSize structs S .varying) : ¬ ExactSize structs S n := by
  rcases h.cases_exact with ⟨-, hno⟩ | ⟨m, -, heq⟩
  · exact hno n
  · unfold ofBytes at heq
    split at heq <;> cases heq

end WireSize

namespace Plan
open WireSize (ExactSize HasSize MemoRight Closed)
variable {structs : Table Struct} {limit n : Nat} {S : String} {memo : WireSize.Memo}
  {entries : List (String × Struct)} {e : PlanError}

/-- How a struct of that size is refused. -/
def refusal (name : String) (size limit : Nat) : PlanError :=
  if size < 2 ^ 64 then .messageTooLarge name size limit else .sizeOverflow name limit

/-- The struct is too large, and none before it is. -/
def FirstOversized (structs : Table Struct) (limit : Nat) (entries : List (String × Struct))
    (S : String) (n : Nat) : Prop :=
  ∃ before s behind, entries = before ++ (S, s) :: behind ∧ ExactSize structs S n ∧ limit < n ∧
    ∀ x ∈ before, ∀ m, ExactSize structs x.1 m → m ≤ limit

theorem fitting_ofBytes (hlimit : limit < 2 ^ 64) :
    fitting S limit (.ofBytes n) =
      if n ≤ limit then .ok (some n) else .error (refusal S n limit) := by
  unfold WireSize.ofBytes refusal
  by_cases h64 : n < 2 ^ 64
  · rw [if_pos h64, if_pos h64]
    rfl
  · have hlarge : ¬ n ≤ limit := by omega
    rw [if_neg h64, if_neg hlarge, if_neg h64]
    rfl

/-- What becomes of one struct: it has no size, one that fits, or one that does not. -/
theorem fitting_cases {a : WireSize} (hlimit : limit < 2 ^ 64) (h : HasSize structs S a) :
    (fitting S limit a = .ok none ∧ ∀ n, ¬ ExactSize structs S n) ∨
      (∃ n, ExactSize structs S n ∧ n ≤ limit ∧ fitting S limit a = .ok (some n)) ∨
      ∃ n, ExactSize structs S n ∧ limit < n ∧ fitting S limit a = .error (refusal S n limit) := by
  rcases h.cases_exact with ⟨rfl, hnone⟩ | ⟨n, hn, rfl⟩
  · exact Or.inl ⟨rfl, hnone⟩
  · rw [fitting_ofBytes hlimit]
    by_cases hle : n ≤ limit
    · exact Or.inr (Or.inl ⟨n, hn, hle, if_pos hle⟩)
    · exact Or.inr (Or.inr ⟨n, hn, by omega, if_neg hle⟩)

/-- A size that is planned for a struct is its exact one. -/
theorem fixedSize_of_planned (hlimit : limit < 2 ^ 64) {entry : String × Struct}
    {plan : StructPlan} (h : Planned structs limit entry plan) :
    plan.name = entry.1 ∧ ∀ n, plan.fixedSize = some n ↔ ExactSize structs entry.1 n := by
  obtain ⟨size, fixedSize, hsize, hfit, rfl⟩ := h
  refine ⟨rfl, ?_⟩
  intro n
  change fixedSize = some n ↔ _
  rcases fitting_cases hlimit hsize with ⟨hnone, hno⟩ | ⟨m, hm, -, hsome⟩ | ⟨m, -, -, herror⟩
  · rw [hnone] at hfit
    cases hfit
    simp [hno n]
  · rw [hsome] at hfit
    cases hfit
    constructor
    · rintro ⟨⟩
      exact hm
    · intro hn
      rw [WireSize.exactSize_unique hm hn]
  · rw [herror] at hfit
    cases hfit

/-! A struct that fits leaves the answer to those behind it, and one that is too large gives it. -/

theorem firstOversized_of_fitting {s : Struct} {T : String}
    (hle : ∀ m, ExactSize structs S m → m ≤ limit) :
    FirstOversized structs limit ((S, s) :: entries) T n ↔
      FirstOversized structs limit entries T n := by
  constructor
  · rintro ⟨before, t, behind, heq, hn, hlt, hbefore⟩
    cases before with
    | nil =>
      cases heq
      have := hle n hn
      omega
    | cons x before =>
      cases heq
      exact ⟨before, t, behind, rfl, hn, hlt, (List.forall_mem_cons.1 hbefore).2⟩
  · rintro ⟨before, t, behind, rfl, hn, hlt, hbefore⟩
    exact ⟨(S, s) :: before, t, behind, rfl, hn, hlt, List.forall_mem_cons.2 ⟨hle, hbefore⟩⟩

theorem firstOversized_of_lt {s : Struct} {T : String} {k : Nat} (hk : ExactSize structs S k)
    (hlt : limit < k) :
    FirstOversized structs limit ((S, s) :: entries) T n ↔ T = S ∧ n = k := by
  constructor
  · rintro ⟨before, t, behind, heq, hn, -, hbefore⟩
    cases before with
    | nil =>
      cases heq
      exact ⟨rfl, WireSize.exactSize_unique hn hk⟩
    | cons x before =>
      cases heq
      have := hbefore (S, s) List.mem_cons_self k hk
      omega
  · rintro ⟨rfl, rfl⟩
    exact ⟨[], s, entries, rfl, hk, hlt, by simp⟩

theorem ofStructs_of_fitting {s : Struct} {fixedSize : Option Nat}
    (hfit : fitting S limit (WireSize.ofStruct structs memo S).1 = .ok fixedSize) :
    ofStructs structs limit memo ((S, s) :: entries) = .error e ↔
      ofStructs structs limit (WireSize.ofStruct structs memo S).2 entries = .error e := by
  simp only [ofStructs, hfit, ok_bind]
  cases ofStructs structs limit (WireSize.ofStruct structs memo S).2 entries <;>
    simp [bind, Except.bind, pure, Except.pure]

theorem ofStructs_of_refused {s : Struct} {e' : PlanError}
    (hfit : fitting S limit (WireSize.ofStruct structs memo S).1 = .error e') :
    ofStructs structs limit memo ((S, s) :: entries) = .error e ↔ e = e' := by
  simp only [ofStructs, hfit, eq_comm (a := e)]
  simp [bind, Except.bind]

/-- The first struct that is too large ends the planning, whatever the memo holds by then. -/
theorem ofStructs_eq_error_iff (hlimit : limit < 2 ^ 64) (hc : Closed structs)
    (hm : MemoRight structs memo) :
    ofStructs structs limit memo entries = .error e ↔
      ∃ S n, FirstOversized structs limit entries S n ∧ e = refusal S n limit := by
  induction entries generalizing memo with
  | nil => simp [ofStructs, FirstOversized]
  | cons entry entries ih =>
    obtain ⟨name, s⟩ := entry
    obtain ⟨hsize, hm'⟩ := WireSize.ofStruct_right hc hm (S := name)
    rcases fitting_cases hlimit hsize with ⟨hfit, hno⟩ | ⟨k, hk, hle, hfit⟩ | ⟨k, hk, hlt, hfit⟩
    · have hle : ∀ m, ExactSize structs name m → m ≤ limit := fun m hm => (hno m hm).elim
      simp only [ofStructs_of_fitting hfit, firstOversized_of_fitting hle, ih hm']
    · have hle : ∀ m, ExactSize structs name m → m ≤ limit := fun m hm =>
        WireSize.exactSize_unique hk hm ▸ hle
      simp only [ofStructs_of_fitting hfit, firstOversized_of_fitting hle, ih hm']
    · simp [ofStructs_of_refused hfit, firstOversized_of_lt hk hlt]

/-- Where some struct is too large, one of them is the first. -/
theorem exists_firstOversized (hs : structs.Sound) (hS : ExactSize structs S n) (hlt : limit < n) :
    ∃ T m, FirstOversized structs limit structs.toList T m := by
  obtain ⟨-, s, ps, hget, -⟩ := id hS
  obtain ⟨before, behind, hsplit⟩ := List.append_of_mem ((Table.get?_eq_some_iff hs).1 hget)
  rw [hsplit]
  clear hsplit
  induction before with
  | nil => exact ⟨S, n, [], s, behind, rfl, hS, hlt, by simp⟩
  | cons x before ih =>
    rw [List.cons_append]
    by_cases hx : ∀ m, ExactSize structs x.1 m → m ≤ limit
    · obtain ⟨T, m, hT⟩ := ih
      exact ⟨T, m, (firstOversized_of_fitting hx).2 hT⟩
    · push Not at hx
      obtain ⟨m, hm, hlarge⟩ := hx
      exact ⟨x.1, m, (firstOversized_of_lt hm hlarge).2 ⟨rfl, rfl⟩⟩

theorem ofSchema_eq_error_iff {s : Schema} {config : ProjectConfig} :
    ofSchema s config = .error e ↔
      config.maxMessageSize = 0 ∧ e = .config .zeroMessageSize ∨ config.maxMessageSize ≠ 0 ∧
        ofStructs s.structs config.maxMessageSize {} s.structs.toList = .error e := by
  simp only [ofSchema, ProjectConfig.check]
  by_cases hzero : config.maxMessageSize = 0
  · simp [hzero, bind, Except.bind, Except.mapError, eq_comm]
  · simp only [hzero, if_false, Except.mapError, ok_bind, false_and, false_or, ne_eq,
      not_false_eq_true, true_and]
    cases ofStructs s.structs config.maxMessageSize {} s.structs.toList <;>
      simp [bind, Except.bind, pure, Except.pure]

theorem exists_firstOversized_iff (hs : structs.Sound) :
    (∃ S n, FirstOversized structs limit structs.toList S n) ↔
      ∃ S n, ExactSize structs S n ∧ limit < n := by
  constructor
  · rintro ⟨S, n, _, _, _, -, hn, hlt, -⟩
    exact ⟨S, n, hn, hlt⟩
  · rintro ⟨S, n, hn, hlt⟩
    exact exists_firstOversized hs hn hlt

theorem refusal_ne_config {c : ConfigError} : refusal S n limit ≠ .config c := by
  unfold refusal
  split <;> simp

/-- There is no plan for a limit of zero, nor for a struct beyond the limit. -/
theorem ofSchema_refused_iff {s : Schema} {config : ProjectConfig} (hc : Closed s.structs)
    (hlimit : config.maxMessageSize < 2 ^ 64) :
    ofSchema s config = .error e ↔
      config.maxMessageSize = 0 ∧ e = .config .zeroMessageSize ∨ config.maxMessageSize ≠ 0 ∧
        ∃ S n, FirstOversized s.structs config.maxMessageSize s.structs.toList S n ∧
          e = refusal S n config.maxMessageSize := by
  rw [ofSchema_eq_error_iff, ofStructs_eq_error_iff hlimit hc WireSize.memoRight_empty]

/-- A plan is refused for a limit of zero, or else for the first struct that is larger than the
limit, whether or not 64 bits hold its size. Otherwise there is a plan, and it tells the exact size
of each struct that has one. -/
theorem ofSchema_refuses_first_oversized {text : String} {log : Log} {s : Schema}
    (h : (compile text log).2 = .ok s) {config : ProjectConfig}
    (hlimit : config.maxMessageSize < 2 ^ 64) :
    (∀ e, ofSchema s config = .error (.config e) ↔
      config.maxMessageSize = 0 ∧ e = .zeroMessageSize) ∧
    (config.maxMessageSize ≠ 0 →
      ((∃ e, ofSchema s config = .error e) ↔
        ∃ S n, ExactSize s.structs S n ∧ config.maxMessageSize < n) ∧
      (∀ e, ofSchema s config = .error e ↔
        ∃ S n, FirstOversized s.structs config.maxMessageSize s.structs.toList S n ∧
          e = refusal S n config.maxMessageSize) ∧
      ((∀ S n, ExactSize s.structs S n → n ≤ config.maxMessageSize) →
        ∃ plan, ofSchema s config = .ok plan) ∧
      ∀ plan, ofSchema s config = .ok plan → List.Forall₂
        (fun entry p => p.name = entry.1 ∧
          ∀ n, p.fixedSize = some n ↔ ExactSize s.structs entry.1 n)
        s.structs.toList plan.structs) := by
  obtain ⟨doc, -, hw, rfl⟩ := compile_ok_iff.1 h
  have hc := WireSize.closed_of_wellFormed hw
  have hsound := Document.sound_elaborate_structs hw.structs_nodup
  refine ⟨?_, ?_⟩
  · intro e
    rw [ofSchema_refused_iff hc hlimit]
    constructor
    · rintro (⟨hzero, heq⟩ | ⟨-, S, n, -, heq⟩)
      · cases heq
        exact ⟨hzero, rfl⟩
      · exact absurd heq.symm refusal_ne_config
    · rintro ⟨hzero, rfl⟩
      exact Or.inl ⟨hzero, rfl⟩
  · intro hpos
    have herror (e : PlanError) : ofSchema doc.elaborate config = .error e ↔
        ∃ S n, FirstOversized doc.elaborate.structs config.maxMessageSize
          doc.elaborate.structs.toList S n ∧ e = refusal S n config.maxMessageSize := by
      simp [ofSchema_refused_iff hc hlimit, hpos]
    have hfails : (∃ e, ofSchema doc.elaborate config = .error e) ↔
        ∃ S n, ExactSize doc.elaborate.structs S n ∧ config.maxMessageSize < n := by
      rw [← exists_firstOversized_iff hsound]
      constructor
      · rintro ⟨e, he⟩
        obtain ⟨S, n, hfirst, -⟩ := (herror e).1 he
        exact ⟨S, n, hfirst⟩
      · rintro ⟨S, n, hfirst⟩
        exact ⟨_, (herror _).2 ⟨S, n, hfirst, rfl⟩⟩
    refine ⟨hfails, herror, ?_, ?_⟩
    · intro hfit
      cases hplan : ofSchema doc.elaborate config with
      | ok plan => exact ⟨plan, rfl⟩
      | error e =>
        obtain ⟨S, n, hn, hlt⟩ := hfails.1 ⟨e, hplan⟩
        have := hfit S n hn
        omega
    · intro plan hplan
      obtain ⟨-, plans, hplans, rfl⟩ := ofSchema_eq_ok_iff.1 hplan
      exact ((ofStructs_eq_ok_iff hc WireSize.memoRight_empty).1 hplans).imp fun _ _ =>
        fixedSize_of_planned hlimit

/-- The first struct has no size, the second is too large by what it contains, and the third just
fits. -/
theorem ofSchema_refuses_first_oversized_nested :
    ∃ s, (compile "struct A{t:string b:B}struct B{c:C x:double}struct C{y:double}" {}).2 = .ok s ∧
      ofSchema s { maxMessageSize := 8 } = .error (.messageTooLarge "B" 16 8) := by
  have hdoc : Document.ofText "struct A{t:string b:B}struct B{c:C x:double}struct C{y:double}" =
      .ok [.struct ⟨"A", [⟨"t", .named "string", none, ⟨1, 10⟩⟩, ⟨"b", .named "B", none, ⟨1, 19⟩⟩],
          ⟨1, 1⟩⟩,
        .struct ⟨"B", [⟨"c", .named "C", none, ⟨1, 32⟩⟩, ⟨"x", .named "double", none, ⟨1, 36⟩⟩],
          ⟨1, 23⟩⟩,
        .struct ⟨"C", [⟨"y", .named "double", none, ⟨1, 54⟩⟩], ⟨1, 45⟩⟩] := by
    decide +kernel
  obtain ⟨hw, hs⟩ := compile_of_document {} hdoc (by decide +kernel)
  refine ⟨_, hs, (((ofSchema_refuses_first_oversized hs (by decide)).2 (by decide)).2.1 _).2 ?_⟩
  have hsound := Document.sound_elaborate_structs hw.structs_nodup
  have hA := (Table.get?_eq_some_iff hsound).2 (.head _)
  have hB := (Table.get?_eq_some_iff hsound).2 (.tail _ (.head _))
  have hC := (Table.get?_eq_some_iff hsound).2 (.tail _ (.tail _ (.head _)))
  have hsizeC := WireSize.hasSize_of_fields hC (WireSize.hasFieldsSize_primitive rfl rfl)
  have hsizeB := WireSize.hasSize_of_fields hB (WireSize.hasFieldsSize_cons
    (WireSize.hasFieldsSize_struct rfl rfl hC hsizeC) (WireSize.hasFieldsSize_primitive rfl rfl))
  have hsizeA := WireSize.hasSize_of_fields hA (WireSize.hasFieldsSize_cons
    (WireSize.hasFieldsSize_primitive rfl rfl) (WireSize.hasFieldsSize_struct rfl rfl hB hsizeB))
  refine ⟨"B", 16, ⟨[_], _, [_], rfl, WireSize.exactSize_of_fixed hsizeB, by decide, ?_⟩, rfl⟩
  simpa using fun m hm => (WireSize.not_exactSize_of_varying hsizeA hm).elim

end Plan
end WireSchema
