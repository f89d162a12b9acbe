import Mathlib

/-!
# Runs of fallible machines

A machine takes operations one at a time; a step returns a new state and an
output, or stops with a fault.  A run feeds it a list of operations and stops
at the first fault.

The rules below are the two ways of reasoning about whole runs: an invariant
that each step keeps holds after every run, and a machine whose steps match
those of a total reference machine produces the reference's outputs.
-/

namespace RCoreOS.Lib.FallibleRuns

open List

variable {ε α β σ τ op out : Type}

/-- A sequence returns exactly when both parts do. -/
theorem bind_eq_ok {value : Except ε α} {next : α → Except ε β} {result : β} :
    (value >>= next) = .ok result ↔
      ∃ produced, value = .ok produced ∧ next produced = .ok result := by
  cases value with
  | error fault =>
    constructor
    · intro returned
      cases returned
    · rintro ⟨_, returned, _⟩
      cases returned
  | ok produced =>
    constructor
    · intro returned
      exact ⟨produced, rfl, returned⟩
    · rintro ⟨_, equal, returned⟩
      cases equal
      exact returned

/-- A sequence stops when the first part does, or the second after it. -/
theorem bind_eq_error
    {value : Except ε α} {next : α → Except ε β} {fault : ε} :
    (value >>= next) = .error fault ↔
      value = .error fault ∨
        ∃ produced, value = .ok produced ∧ next produced = .error fault := by
  cases value with
  | error found =>
    constructor
    · intro stopped
      cases stopped
      exact .inl rfl
    · rintro (equal | ⟨_, returned, _⟩)
      · cases equal
        rfl
      · cases returned
  | ok produced =>
    constructor
    · intro stopped
      exact .inr ⟨produced, rfl, stopped⟩
    · rintro (stopped | ⟨_, equal, stopped⟩)
      · cases stopped
      · cases equal
        exact stopped

/-- Feed the operations to the machine, collecting the outputs. -/
def run (step : σ → op → Except ε (σ × out)) (state : σ) :
    List op → Except ε (σ × List out)
  | [] => .ok (state, [])
  | first :: rest => do
      let (state, shown) ← step state first
      let (state, later) ← run step state rest
      return (state, shown :: later)

variable {step : σ → op → Except ε (σ × out)}

theorem run_cons_eq_ok
    {state after : σ} {first : op} {rest : List op} {shown : List out} :
    run step state (first :: rest) = .ok (after, shown) ↔
      ∃ between head tail,
        step state first = .ok (between, head) ∧
          run step between rest = .ok (after, tail) ∧
          shown = head :: tail := by
  simp only [run, bind_eq_ok]
  constructor
  · rintro ⟨⟨between, head⟩, stepEq, ⟨last, tail⟩, runEq, equal⟩
    cases equal
    exact ⟨between, head, tail, stepEq, runEq, rfl⟩
  · rintro ⟨between, head, tail, stepEq, runEq, rfl⟩
    exact ⟨(between, head), stepEq, (after, tail), runEq, rfl⟩

/-- A run that returns has returned after its first operations. -/
theorem run_append_eq_ok
    {first rest : List op} {state after : σ} {shown : List out} :
    run step state (first ++ rest) = .ok (after, shown) ↔
      ∃ between earlier later,
        run step state first = .ok (between, earlier) ∧
          run step between rest = .ok (after, later) ∧
          shown = earlier ++ later := by
  induction first generalizing state shown with
  | nil =>
    constructor
    · intro returned
      exact ⟨state, [], shown, rfl, returned, rfl⟩
    · rintro ⟨between, earlier, later, firstEq, restEq, rfl⟩
      cases firstEq
      exact restEq
  | cons head tail induction =>
    rw [cons_append, run_cons_eq_ok]
    constructor
    · rintro ⟨between, headOut, tailOut, stepEq, tailEq, rfl⟩
      obtain ⟨middle, earlier, later, tailRun, restRun, rfl⟩ :=
        induction.mp tailEq
      exact ⟨middle, headOut :: earlier, later,
        run_cons_eq_ok.mpr ⟨between, headOut, earlier, stepEq, tailRun, rfl⟩,
        restRun, rfl⟩
    · rintro ⟨middle, earlier, later, firstEq, restEq, rfl⟩
      obtain ⟨between, headOut, tailOut, stepEq, tailRun, rfl⟩ :=
        run_cons_eq_ok.mp firstEq
      exact ⟨between, headOut, tailOut ++ later, stepEq,
        induction.mpr ⟨middle, tailOut, later, tailRun, restEq, rfl⟩, rfl⟩

/-- An output of an extended history is the last one or an earlier one. -/
theorem concat_eq_split {shown earlier later : List out} {last head : out} :
    shown ++ [last] = earlier ++ head :: later ↔
      (later = [] ∧ shown = earlier ∧ last = head) ∨
        ∃ between,
          later = between ++ [last] ∧ shown = earlier ++ head :: between := by
  constructor
  · intro equal
    rcases eq_nil_or_concat' later with rfl | ⟨between, final, rfl⟩
    · obtain ⟨shownEq, lastEq⟩ := append_inj' equal rfl
      exact .inl ⟨rfl, shownEq, head_eq_of_cons_eq lastEq⟩
    · rw [← cons_append, ← append_assoc] at equal
      obtain ⟨shownEq, lastEq⟩ := append_inj' equal rfl
      cases lastEq
      exact .inr ⟨between, rfl, shownEq⟩
  · rintro (⟨rfl, rfl, rfl⟩ | ⟨between, rfl, rfl⟩)
    · rfl
    · rw [append_assoc, cons_append]

/-- What every step keeps about the state and the outputs made so far. -/
theorem run_history (History : σ → List out → Prop)
    (keep :
      ∀ {state after : σ} {operation : op} {earlier : List out} {shown : out},
        History state earlier → step state operation = .ok (after, shown) →
          History after (earlier ++ [shown]))
    {ops : List op} {state after : σ} {earlier shown : List out}
    (holds : History state earlier)
    (returned : run step state ops = .ok (after, shown)) :
    History after (earlier ++ shown) := by
  induction ops generalizing state earlier shown with
  | nil =>
    cases returned
    rw [append_nil]
    exact holds
  | cons first rest induction =>
    obtain ⟨between, head, tail, stepEq, restEq, rfl⟩ :=
      run_cons_eq_ok.mp returned
    rw [append_cons]
    exact induction (keep holds stepEq) restEq

/-- What every step keeps holds after every run. -/
theorem run_invariant {Invariant : σ → Prop}
    (keep :
      ∀ {state after : σ} {operation : op} {shown : out},
        Invariant state → step state operation = .ok (after, shown) →
          Invariant after)
    {ops : List op} {state after : σ} {shown : List out}
    (holds : Invariant state)
    (returned : run step state ops = .ok (after, shown)) :
    Invariant after :=
  @run_history _ _ _ _ _ (fun state _ => Invariant state) keep _ _ _ [] _
    holds returned

/-- What every step of a run keeps holds after the run. -/
theorem run_invariant_along {Invariant : σ → Prop} {Fine : op → σ → out → Prop}
    (keep :
      ∀ {state after : σ} {operation : op} {shown : out},
        Invariant state → step state operation = .ok (after, shown) →
          Fine operation after shown → Invariant after)
    {ops : List op} {state after : σ} {shown : List out}
    (fine :
      ∀ first operation rest, ops = first ++ operation :: rest →
        ∀ next earlier head later,
          run step state (first ++ [operation]) =
              .ok (next, earlier ++ [head]) →
            shown = earlier ++ head :: later → Fine operation next head)
    (holds : Invariant state)
    (returned : run step state ops = .ok (after, shown)) :
    Invariant after := by
  induction ops generalizing state shown with
  | nil =>
    cases returned
    exact holds
  | cons first rest induction =>
    obtain ⟨between, head, tail, stepEq, restEq, rfl⟩ :=
      run_cons_eq_ok.mp returned
    have firstFine : Fine first between head :=
      fine [] first rest rfl between [] head tail
        (run_cons_eq_ok.mpr ⟨between, head, [], stepEq, rfl, rfl⟩) rfl
    refine induction ?_ (keep holds stepEq firstFine) restEq
    intro earlierOps operation laterOps split next earlier shownHead later
      ran shownEq
    refine fine (first :: earlierOps) operation laterOps
      (by rw [split]; rfl) next (head :: earlier) shownHead later
      (run_cons_eq_ok.mpr
        ⟨between, head, earlier ++ [shownHead], stepEq, ran, rfl⟩)
      (by rw [shownEq]; rfl)

/--
The states that runs with allowed steps lead to, and what the runs have shown.
A step is allowed depending on the state before it and on what was shown.
-/
inductive Trace (step : σ → op → Except ε (σ × out))
    (Allowed : σ → List out → op → Prop) (start : σ) :
    σ → List out → Prop where
  | start : Trace step Allowed start start []
  | next {state after : σ} {earlier : List out} {operation : op} {shown : out}
      (trace : Trace step Allowed start state earlier)
      (allowed : Allowed state earlier operation)
      (returned : step state operation = .ok (after, shown)) :
      Trace step Allowed start after (earlier ++ [shown])

/-- What every allowed step keeps holds after every run of such steps. -/
theorem Trace.keeps
    {Allowed : σ → List out → op → Prop} {start state : σ} {shown : List out}
    (History : σ → List out → Prop) (begins : History start [])
    (keep :
      ∀ {state after : σ} {earlier : List out} {operation : op} {shown : out},
        History state earlier → Allowed state earlier operation →
          step state operation = .ok (after, shown) →
            History after (earlier ++ [shown]))
    (trace : Trace step Allowed start state shown) :
    History state shown := by
  induction trace with
  | start => exact begins
  | next _ allowed returned induction => exact keep induction allowed returned

/-- Feed the operations to a total machine. -/
def totalRun (step : τ → op → τ × out) (state : τ) : List op → τ × List out
  | [] => (state, [])
  | first :: rest =>
    let (state, shown) := step state first
    let (state, later) := totalRun step state rest
    (state, shown :: later)

/-- Steps that match a reference machine give runs that match it. -/
theorem run_refines {reference : τ → op → τ × out} {Relation : σ → τ → Prop}
    (simulate :
      ∀ {state after : σ} {abstract : τ} {operation : op} {shown : out},
        Relation state abstract →
          step state operation = .ok (after, shown) →
            Relation after (reference abstract operation).1 ∧
              shown = (reference abstract operation).2)
    {ops : List op} {state after : σ} {abstract : τ} {shown : List out}
    (related : Relation state abstract)
    (returned : run step state ops = .ok (after, shown)) :
    Relation after (totalRun reference abstract ops).1 ∧
      shown = (totalRun reference abstract ops).2 := by
  induction ops generalizing state abstract shown with
  | nil =>
    cases returned
    exact ⟨related, rfl⟩
  | cons first rest induction =>
    obtain ⟨between, head, tail, stepEq, restEq, rfl⟩ :=
      run_cons_eq_ok.mp returned
    obtain ⟨stepRelated, stepShown⟩ := simulate related stepEq
    obtain ⟨runRelated, runShown⟩ := induction stepRelated restEq
    refine ⟨runRelated, ?_⟩
    simp only [totalRun, stepShown, runShown]

/-- Every operation is allowed in the state that the machine has reached. -/
def AllowedRun (step : τ → op → τ × out) (Allowed : τ → op → Prop) :
    τ → List op → Prop
  | _, [] => True
  | state, first :: rest =>
    Allowed state first ∧ AllowedRun step Allowed (step state first).1 rest

instance instDecidableAllowedRun
    (step : τ → op → τ × out) (Allowed : τ → op → Prop)
    [∀ state operation, Decidable (Allowed state operation)] (state : τ) :
    (ops : List op) → Decidable (AllowedRun step Allowed state ops)
  | [] => isTrue trivial
  | first :: rest =>
    have := instDecidableAllowedRun step Allowed (step state first).1 rest
    inferInstanceAs (Decidable (_ ∧ _))

/-- A run is allowed when its first part is, and then its second. -/
theorem allowedRun_append
    {reference : τ → op → τ × out} {Allowed : τ → op → Prop} {abstract : τ}
    {first rest : List op} :
    AllowedRun reference Allowed abstract (first ++ rest) ↔
      AllowedRun reference Allowed abstract first ∧
        AllowedRun reference Allowed (totalRun reference abstract first).1
          rest := by
  induction first generalizing abstract with
  | nil => exact (and_iff_right trivial).symm
  | cons head tail induction =>
    rw [cons_append, AllowedRun, induction, AllowedRun, and_assoc]
    exact Iff.rfl

theorem AllowedRun.split
    {reference : τ → op → τ × out} {Allowed : τ → op → Prop} {abstract : τ}
    {first rest : List op} {operation : op}
    (allowed :
      AllowedRun reference Allowed abstract (first ++ operation :: rest)) :
    Allowed (totalRun reference abstract first).1 operation :=
  (allowedRun_append.mp allowed).2.1

theorem AllowedRun.first
    {reference : τ → op → τ × out} {Allowed : τ → op → Prop} {abstract : τ}
    {first rest : List op}
    (allowed : AllowedRun reference Allowed abstract (first ++ rest)) :
    AllowedRun reference Allowed abstract first :=
  (allowedRun_append.mp allowed).1

/-- A total machine gives one output for each operation. -/
theorem length_totalRun
    (reference : τ → op → τ × out) (abstract : τ) (ops : List op) :
    (totalRun reference abstract ops).2.length = ops.length := by
  induction ops generalizing abstract with
  | nil => rfl
  | cons head tail induction =>
    rw [totalRun, length_cons, induction, length_cons]

theorem totalRun_append
    (reference : τ → op → τ × out) (abstract : τ) (first rest : List op) :
    totalRun reference abstract (first ++ rest) =
      ((totalRun reference (totalRun reference abstract first).1 rest).1,
        (totalRun reference abstract first).2 ++
          (totalRun reference (totalRun reference abstract first).1
            rest).2) := by
  induction first generalizing abstract with
  | nil => rfl
  | cons head tail induction => simp only [cons_append, totalRun, induction]

theorem totalRun_concat
    (reference : τ → op → τ × out) (abstract : τ) (ops : List op) (last : op) :
    totalRun reference abstract (ops ++ [last]) =
      ((reference (totalRun reference abstract ops).1 last).1,
        (totalRun reference abstract ops).2 ++
          [(reference (totalRun reference abstract ops).1 last).2]) :=
  totalRun_append reference abstract ops [last]

/-- Each output of a total machine is the output of one of its steps. -/
theorem totalRun_output
    {reference : τ → op → τ × out} {abstract : τ} {ops : List op}
    {earlier later : List out} {shown : out}
    (outputs : (totalRun reference abstract ops).2 = earlier ++ shown :: later) :
    ∃ first operation rest,
      ops = first ++ operation :: rest ∧
        (totalRun reference abstract first).2 = earlier ∧
        (reference (totalRun reference abstract first).1 operation).2 = shown ∧
        (totalRun reference
            (reference (totalRun reference abstract first).1 operation).1
            rest).2 =
          later := by
  induction ops generalizing abstract earlier with
  | nil =>
    have length := congrArg List.length outputs
    rw [length_append, length_cons] at length
    cases length
  | cons head tail induction =>
    cases earlier with
    | nil =>
      obtain ⟨shownEq, laterEq⟩ := List.cons.inj outputs
      exact ⟨[], head, tail, rfl, rfl, shownEq, laterEq⟩
    | cons output earlier =>
      obtain ⟨outputEq, tailOutputs⟩ := List.cons.inj outputs
      obtain ⟨first, operation, rest, split, earlierEq, shownEq,
        laterEq⟩ := induction tailOutputs
      refine ⟨head :: first, operation, rest, by rw [split]; rfl, ?_,
        shownEq, laterEq⟩
      rw [← outputEq, ← earlierEq]
      rfl

/--
A machine that returns at every operation of a list, and whose steps match a
reference machine, gives the reference's outputs.
-/
theorem run_matches {reference : τ → op → τ × out} {Relation : σ → τ → Prop}
    {Allowed : τ → op → Prop}
    (simulate :
      ∀ {state after : σ} {abstract : τ} {operation : op} {shown : out},
        Relation state abstract → Allowed abstract operation →
          step state operation = .ok (after, shown) →
            Relation after (reference abstract operation).1 ∧
              shown = (reference abstract operation).2)
    {ops : List op} {state : σ} {abstract : τ}
    (allowed : AllowedRun reference Allowed abstract ops)
    (returns :
      ∀ first operation rest, ops = first ++ operation :: rest →
        ∀ between earlier,
          run step state first = .ok (between, earlier) →
            Relation between (totalRun reference abstract first).1 →
              ∃ result, step between operation = .ok result)
    (related : Relation state abstract) :
    ∃ after,
      run step state ops = .ok (after, (totalRun reference abstract ops).2) ∧
        Relation after (totalRun reference abstract ops).1 := by
  induction ops generalizing state abstract with
  | nil => exact ⟨state, rfl, related⟩
  | cons head tail induction =>
    obtain ⟨⟨between, shown⟩, stepEq⟩ :=
      returns [] head tail rfl state [] rfl related
    obtain ⟨betweenRelated, shownEq⟩ := simulate related allowed.1 stepEq
    have laterReturns :
        ∀ first operation rest, tail = first ++ operation :: rest →
          ∀ next earlier,
            run step between first = .ok (next, earlier) →
              Relation next
                  (totalRun reference (reference abstract head).1
                    first).1 →
                ∃ result, step next operation = .ok result := by
      intro first operation rest split next earlier ran nextRelated
      exact returns (head :: first) operation rest (by rw [split]; rfl)
        next (shown :: earlier)
        (run_cons_eq_ok.mpr ⟨between, shown, earlier, stepEq, ran, rfl⟩)
        nextRelated
    obtain ⟨after, ran, afterRelated⟩ :=
      induction allowed.2 laterReturns betweenRelated
    refine ⟨after, ?_, afterRelated⟩
    exact run_cons_eq_ok.mpr
      ⟨between, shown, _, stepEq, ran, by rw [shownEq]; rfl⟩

end RCoreOS.Lib.FallibleRuns
