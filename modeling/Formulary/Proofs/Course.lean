import Formulary.Evaluation.Evaluate

/-!
# The course of a node

What a node does when it is evaluated is told in one place: which of its children are evaluated, in
which order and under which conditions, and what the node itself does behind them.  The evaluator
follows these courses, so that what holds of every course holds of every evaluation.
-/

namespace Formulary

namespace Event

/-- The call that an event is, if it is one. -/
def call? : Event → Option (Text × List Value)
  | variableRead _ => none
  | functionRead _ => none
  | call name arguments => some (name, arguments)

end Event

namespace Outcome

/-- The calls of a run, in order. -/
def calls {σ α : Type} (outcome : Outcome σ α) : List (Text × List Value) :=
  outcome.events.filterMap Event.call?

end Outcome

namespace Run

variable {σ α β : Type}

/-- From a state of the host on, the run has a value and leaves another state behind. -/
structure Yields (run : Run σ α) (before : σ) (value : α) (after : σ) : Prop where
  result : (run before).result = .ok value
  host : (run before).host = after

theorem Yields.unique {run : Run σ α} {before after other : σ} {value also : α}
    (yields : run.Yields before value after) (again : run.Yields before also other) :
    value = also ∧ after = other :=
  ⟨Except.ok.inj (yields.result.symm.trans again.result), yields.host.symm.trans again.host⟩

private theorem Yields.not_error {run : Run σ α} {before after : σ} {value : α} {failure : Failure}
    (yields : run.Yields before value after) : (run before).result ≠ .error failure := by
  rw [yields.result]
  exact nofun

theorem bind_of_yields {first : Run σ α} {before after : σ} {value : α}
    (yields : first.Yields before value after) (next : α → Run σ β) :
    (first >>= next) before =
      ⟨(next value after).result, (next value after).host,
        (first before).events ++ (next value after).events⟩ := by
  obtain ⟨result, rfl⟩ := yields
  show andThen first next before = _
  simp only [andThen, result]

theorem bind_of_error {first : Run σ α} {before : σ} {failure : Failure}
    (failed : (first before).result = .error failure) (next : α → Run σ β) :
    (first >>= next) before = ⟨.error failure, (first before).host, (first before).events⟩ := by
  show andThen first next before = _
  simp only [andThen, failed]

theorem yields_bind_iff {first : Run σ α} {next : α → Run σ β} {before after : σ} {value : β} :
    (first >>= next).Yields before value after ↔
      ∃ middle between, first.Yields before middle between ∧
        (next middle).Yields between value after := by
  constructor
  · rintro ⟨result, host⟩
    cases outcome : (first before).result with
    | error failure =>
        rw [bind_of_error outcome] at result
        cases result
    | ok middle =>
        have yields : first.Yields before middle (first before).host := ⟨outcome, rfl⟩
        rw [bind_of_yields yields] at result host
        exact ⟨middle, _, yields, result, host⟩
  · rintro ⟨middle, between, yields, result, host⟩
    constructor
    · rw [bind_of_yields yields]
      exact result
    · rw [bind_of_yields yields]
      exact host

theorem yields_pure_iff {value also : α} {before after : σ} :
    (pure value : Run σ α).Yields before also after ↔ value = also ∧ before = after :=
  ⟨fun yields => ⟨Except.ok.inj yields.result, yields.host⟩,
    fun ⟨same, kept⟩ => ⟨congrArg Except.ok same, kept⟩⟩

private theorem bind_pure_eq (run : Run σ α) : (run >>= pure) = run := by
  funext before
  cases outcome : (run before).result with
  | error failure =>
      rw [bind_of_error outcome, ← outcome]
  | ok value =>
      rw [bind_of_yields ⟨outcome, rfl⟩]
      simp only [pure, done, List.append_nil, ← outcome]

private theorem bind_assoc_eq {γ : Type} (first : Run σ α) (second : α → Run σ β)
    (third : β → Run σ γ) :
    (first >>= second) >>= third = first >>= fun value => second value >>= third := by
  funext before
  cases outcome : (first before).result with
  | error failure =>
      have failed : ((first >>= second) before).result = .error failure := by
        rw [bind_of_error outcome]
      rw [bind_of_error failed, bind_of_error outcome, bind_of_error outcome]
  | ok value =>
      have yields : first.Yields before value (first before).host := ⟨outcome, rfl⟩
      rw [bind_of_yields yields (fun value => second value >>= third)]
      cases later : (second value (first before).host).result with
      | error failure =>
          have failed : ((first >>= second) before).result = .error failure := by
            rw [bind_of_yields yields, later]
          rw [bind_of_error failed, bind_of_error later, bind_of_yields yields]
      | ok middle =>
          have both : (first >>= second).Yields before middle
              (second value (first before).host).host := by
            constructor <;> rw [bind_of_yields yields]
            exact later
          rw [bind_of_yields both, bind_of_yields ⟨later, rfl⟩, bind_of_yields yields,
            List.append_assoc]

instance : LawfulMonad (Run σ) :=
  LawfulMonad.mk' (Run σ) bind_pure_eq (fun _ _ => rfl) bind_assoc_eq

end Run

/-- What a node does: children are evaluated one after the other, and then the node itself acts. -/
inductive Course (σ : Type) where
  /-- A function is looked up. -/
  | lookUp (function : Text) (next : Course σ)
  /-- The child of an index is evaluated, and its value says how to go on. -/
  | child (index : Nat) (expr : Expr) (next : Value → Course σ)
  /-- The node itself acts. -/
  | action (run : Run σ Value)

namespace Course

variable {σ : Type}

/-- The run of a course. -/
def run (environment : Environment σ) : Course σ → Run σ Value
  | lookUp function next => do
      Run.report (.functionRead function)
      next.run environment
  | child _ expr next => do
      let value ← expr.evaluate environment
      (next value).run environment
  | action run => run

/-- Expressions are evaluated in order, as the children from an index on. -/
def operands (next : List Value → Course σ) : Nat → List Expr → Course σ
  | _, [] => next []
  | index, expr :: rest =>
      child index expr fun value =>
        operands (fun values => next (value :: values)) (index + 1) rest

private theorem run_operands (environment : Environment σ) (next : List Value → Course σ)
    (index : Nat) (exprs : List Expr) :
    (operands next index exprs).run environment = (do
      let values ← Expr.evaluate.evaluateAll environment exprs
      (next values).run environment) := by
  induction exprs generalizing next index with
  | nil => rfl
  | cons expr rest induction =>
      simp only [operands, run, induction, Expr.evaluate.evaluateAll, bind_assoc, pure_bind]

section Progress

variable (environment : Environment σ)

/-- The course comes to a child, which is evaluated from the last state of the host on. -/
inductive Turns : Course σ → σ → Nat → Expr → σ → Prop where
  | lookUp {function next host index expr reached} (more : Turns next host index expr reached) :
      Turns (.lookUp function next) host index expr reached
  | now {index expr next host} : Turns (.child index expr next) host index expr host
  | later {first expr next host value between index other reached}
      (yields : (expr.evaluate environment).Yields host value between)
      (more : Turns (next value) between index other reached) :
      Turns (.child first expr next) host index other reached

/-- The course comes to the action of the node, which begins in the last state of the host. -/
inductive Acts : Course σ → σ → Run σ Value → σ → Prop where
  | lookUp {function next host action reached} (more : Acts next host action reached) :
      Acts (.lookUp function next) host action reached
  | now {action host} : Acts (.action action) host action host
  | later {first expr next host value between action reached}
      (yields : (expr.evaluate environment).Yields host value between)
      (more : Acts (next value) between action reached) :
      Acts (.child first expr next) host action reached

end Progress

variable {environment : Environment σ} {course : Course σ} {host reached : σ}

theorem result_of_yields {index : Nat} {expr : Expr} {next : Value → Course σ} {value : Value}
    (yields : (expr.evaluate environment).Yields host value reached) :
    ((Course.child index expr next).run environment host).result =
      ((next value).run environment reached).result := by
  rw [run, Run.bind_of_yields yields]

theorem result_of_error {index : Nat} {expr : Expr} {next : Value → Course σ} {failure : Failure}
    (failed : (expr.evaluate environment host).result = .error failure) :
    ((Course.child index expr next).run environment host).result = .error failure := by
  rw [run, Run.bind_of_error failed]

/-- A child that fails ends the course. -/
theorem Turns.fails {index : Nat} {expr : Expr} {failure : Failure}
    (turns : course.Turns environment host index expr reached)
    (failed : (expr.evaluate environment reached).result = .error failure) :
    (course.run environment host).result = .error failure := by
  induction turns with
  | lookUp more induction => exact induction failed
  | now => exact result_of_error failed
  | later yields more induction => exact (result_of_yields yields).trans (induction failed)

/-- What the action of the node gives is what the course gives. -/
theorem Acts.result_eq {action : Run σ Value} (acts : course.Acts environment host action reached) :
    (course.run environment host).result = (action reached).result := by
  induction acts with
  | lookUp more induction => exact induction
  | now => rfl
  | later yields more induction => exact (result_of_yields yields).trans induction

/-- A course fails at one of the children or by its action. -/
theorem fails_cases {failure : Failure}
    (failed : (course.run environment host).result = .error failure) :
    (∃ index expr reached, course.Turns environment host index expr reached ∧
      (expr.evaluate environment reached).result = .error failure) ∨
    (∃ action reached, course.Acts environment host action reached ∧
      (action reached).result = .error failure) := by
  induction course generalizing host with
  | lookUp function next induction =>
      obtain ⟨index, expr, reached, turns, fails⟩ | ⟨action, reached, acts, fails⟩ :=
        induction failed
      · exact .inl ⟨index, expr, reached, .lookUp turns, fails⟩
      · exact .inr ⟨action, reached, .lookUp acts, fails⟩
  | child first expr next induction =>
      cases outcome : (expr.evaluate environment host).result with
      | error other =>
          rw [result_of_error outcome] at failed
          exact .inl ⟨first, expr, host, .now, outcome.trans failed⟩
      | ok value =>
          have yields : (expr.evaluate environment).Yields host value _ := ⟨outcome, rfl⟩
          rw [result_of_yields yields] at failed
          obtain ⟨index, other, reached, turns, fails⟩ | ⟨action, reached, acts, fails⟩ :=
            induction value failed
          · exact .inl ⟨index, other, reached, .later yields turns, fails⟩
          · exact .inr ⟨action, reached, .later yields acts, fails⟩
  | action action => exact .inr ⟨action, host, .now, failed⟩

/-- The children of a course have increasing indices, none of them less than the first one. -/
def Increasing : Nat → Course σ → Prop
  | first, lookUp _ next => next.Increasing first
  | first, child index _ next => first ≤ index ∧ ∀ value, (next value).Increasing (index + 1)
  | _, action _ => True

private theorem Turns.le {first index : Nat} {expr : Expr}
    (turns : course.Turns environment host index expr reached)
    (increasing : course.Increasing first) : first ≤ index := by
  induction turns generalizing first with
  | lookUp more induction => exact induction increasing
  | now => exact increasing.1
  | later yields more induction =>
      exact Nat.le_trans increasing.1 (Nat.le_of_succ_le (induction (increasing.2 _)))

/-- A course comes to each child once at most. -/
theorem Turns.unique {first index : Nat} {expr other : Expr} {also : σ}
    (turns : course.Turns environment host index expr reached)
    (again : course.Turns environment host index other also)
    (increasing : course.Increasing first) : expr = other ∧ reached = also := by
  induction turns generalizing first with
  | lookUp more induction =>
      cases again with
      | lookUp again => exact induction again increasing
  | now =>
      cases again with
      | now => exact ⟨rfl, rfl⟩
      | later _ again => exact absurd (again.le (increasing.2 _)) (Nat.not_succ_le_self _)
  | later yields more induction =>
      cases again with
      | now => exact absurd (more.le (increasing.2 _)) (Nat.not_succ_le_self _)
      | later again_yields again =>
          obtain ⟨rfl, rfl⟩ := yields.unique again_yields
          exact induction again (increasing.2 _)

/-- No child comes behind one that fails. -/
theorem Turns.le_of_error {first index later : Nat} {expr other : Expr} {also : σ}
    {failure : Failure} (turns : course.Turns environment host index expr reached)
    (failed : (expr.evaluate environment reached).result = .error failure)
    (again : course.Turns environment host later other also)
    (increasing : course.Increasing first) : later ≤ index := by
  induction turns generalizing first with
  | lookUp more induction =>
      cases again with
      | lookUp again => exact induction failed again increasing
  | now =>
      cases again with
      | now => exact Nat.le_refl _
      | later yields => exact absurd failed yields.not_error
  | later yields more induction =>
      cases again with
      | now => exact Nat.le_of_succ_le (more.le (increasing.2 _))
      | later again_yields again =>
          obtain ⟨rfl, rfl⟩ := yields.unique again_yields
          exact induction failed again (increasing.2 _)

/-- The node itself does not act behind a child that fails. -/
theorem Turns.not_acts {index : Nat} {expr : Expr} {failure : Failure}
    (turns : course.Turns environment host index expr reached)
    (failed : (expr.evaluate environment reached).result = .error failure)
    {action : Run σ Value} {also : σ} : ¬ course.Acts environment host action also := by
  intro acts
  induction turns with
  | lookUp more induction =>
      cases acts with
      | lookUp acts => exact induction failed acts
  | now =>
      cases acts with
      | later yields => exact absurd failed yields.not_error
  | later yields more induction =>
      cases acts with
      | later acts_yields acts =>
          obtain ⟨rfl, rfl⟩ := yields.unique acts_yields
          exact induction failed acts

private theorem increasing_operands {next : List Value → Course σ} {exprs : List Expr} {index : Nat}
    (increasing : ∀ values, (next values).Increasing (index + exprs.length)) :
    (operands next index exprs).Increasing index := by
  induction exprs generalizing next index with
  | nil => exact increasing []
  | cons expr rest induction =>
      refine ⟨Nat.le_refl _, fun value => induction fun values => ?_⟩
      rw [Nat.add_right_comm]
      exact increasing (value :: values)

/-- The operands come to the action behind them exactly if all of them have values. -/
theorem acts_operands_iff {next : List Value → Course σ} {index : Nat} {exprs : List Expr}
    {action : Run σ Value} :
    (operands next index exprs).Acts environment host action reached ↔
      ∃ values between, (Expr.evaluate.evaluateAll environment exprs).Yields host values between ∧
        (next values).Acts environment between action reached := by
  induction exprs generalizing next index host with
  | nil =>
      constructor
      · intro acts
        exact ⟨[], host, ⟨rfl, rfl⟩, acts⟩
      · rintro ⟨values, between, yields, acts⟩
        obtain ⟨rfl, rfl⟩ := Run.yields_pure_iff.mp yields
        exact acts
  | cons expr rest induction =>
      simp only [operands, Expr.evaluate.evaluateAll, Run.yields_bind_iff, Run.yields_pure_iff]
      constructor
      · rintro (_ | _ | ⟨yields, acts⟩)
        obtain ⟨values, between, others, acts⟩ := induction.mp acts
        exact ⟨_, between, ⟨_, _, yields, values, between, others, rfl, rfl⟩, acts⟩
      · rintro ⟨_, _, ⟨value, middle, yields, values, between, others, rfl, rfl⟩, acts⟩
        exact .later yields (induction.mpr ⟨values, between, others, acts⟩)

private theorem turns_operands {next : List Value → Course σ} {start index : Nat}
    {exprs : List Expr} {expr : Expr}
    (turns : (operands next start exprs).Turns environment host index expr reached) :
    (∃ offset, index = start + offset ∧ exprs[offset]? = some expr) ∨
      ∃ values between, (next values).Turns environment between index expr reached := by
  induction exprs generalizing next start host with
  | nil => exact .inr ⟨[], host, turns⟩
  | cons first rest induction =>
      cases turns with
      | now => exact .inl ⟨0, rfl, rfl⟩
      | later yields more =>
          obtain ⟨offset, place, listed⟩ | ⟨values, between, turns⟩ := induction more
          · exact .inl ⟨offset + 1, by omega, listed⟩
          · exact .inr ⟨_ :: values, between, turns⟩

end Course

namespace Expr

variable {σ : Type}

/-- What a node does in an environment. -/
def course (environment : Environment σ) : Expr → Course σ
  | missing => .action (Run.fail .missingNode)
  | literal value _ => .action (pure value.toValue)
  | identifier name _ => .action (environment.readVariable name)
  | member object property computed _ =>
      .child 0 object fun value =>
        if value.isNullish then .action (Run.fail .nullPropertyAccess)
        else if computed then .child 1 property fun key => .action (pure (value.property key))
        else .action (namedProperty value property)
  | call function arguments _ =>
      .lookUp function
        (match environment.findFunction function with
        | some body =>
            Course.operands (fun values => .action (Run.invoke function body values)) 0 arguments
        | none => .action (Run.fail (.undefinedFunction function)))
  | binary operator left right _ =>
      .child 0 left fun leftValue =>
        .child 1 right fun rightValue => .action (applyBinary operator leftValue rightValue)
  | unary operator before argument _ =>
      .child 0 argument fun value => .action (applyUnary operator before value)
  | conditional test consequent alternate _ =>
      .child 0 test fun truth =>
        if truth.toBool then .child 1 consequent fun value => .action (pure value)
        else .child 2 alternate fun value => .action (pure value)
  | unsupported type _ => .action (Run.fail (.unsupportedNode type))

/-- A node is evaluated by going through its course, and marks the failures that leave it. -/
theorem evaluate_eq (environment : Environment σ) {expr : Expr} (present : expr ≠ missing) :
    expr.evaluate environment = Run.framed ((expr.course environment).run environment) := by
  cases expr with
  | missing => exact absurd rfl present
  | literal | identifier | unsupported => rfl
  | member object property computed =>
      simp only [evaluate, course, Course.run]
      congr 2
      funext value
      split
      · rfl
      · cases computed <;> rfl
  | call function arguments =>
      simp only [evaluate, course, Course.run, Environment.readFunction, bind_assoc]
      cases environment.findFunction function with
      | none => rfl
      | some body => simp only [Course.run_operands, Course.run, pure_bind]
  | binary | unary => rfl
  | conditional =>
      simp only [evaluate, course, Course.run]
      congr 2
      funext truth
      split <;> simp only [Course.run, bind_pure]

/-- The children of a node, from left to right. -/
def children : Expr → List Expr
  | missing => []
  | literal _ _ => []
  | identifier _ _ => []
  | member object property _ _ => [object, property]
  | call _ arguments _ => arguments
  | binary _ left right _ => [left, right]
  | unary _ _ argument _ => [argument]
  | conditional test consequent alternate _ => [test, consequent, alternate]
  | unsupported _ _ => []

theorem increasing_course (environment : Environment σ) (expr : Expr) :
    (expr.course environment).Increasing 0 := by
  cases expr with
  | missing | literal | identifier | unsupported => trivial
  | member object property computed =>
      refine ⟨Nat.le_refl _, fun value => ?_⟩
      dsimp only
      split
      · trivial
      · split
        · exact ⟨Nat.le_refl _, fun _ => trivial⟩
        · trivial
  | call function arguments =>
      simp only [course, Course.Increasing]
      split
      · exact Course.increasing_operands fun _ => trivial
      · trivial
  | binary => exact ⟨Nat.le_refl _, fun _ => ⟨Nat.le_refl _, fun _ => trivial⟩⟩
  | unary => exact ⟨Nat.le_refl _, fun _ => trivial⟩
  | conditional =>
      refine ⟨Nat.le_refl _, fun truth => ?_⟩
      dsimp only
      split
      · exact ⟨Nat.le_refl _, fun _ => trivial⟩
      · exact ⟨Nat.le_succ _, fun _ => trivial⟩

/-- What a course evaluates under an index is the child of that index. -/
theorem children_of_turns {environment : Environment σ} {expr child : Expr} {host reached : σ}
    {index : Nat} (turns : (expr.course environment).Turns environment host index child reached) :
    expr.children[index]? = some child := by
  cases expr with
  | missing | literal | identifier | unsupported => cases turns
  | member object property computed =>
      cases turns with
      | now => rfl
      | later yields more =>
          dsimp only at more
          split at more
          · cases more
          · split at more
            · cases more with
              | now => rfl
              | later _ more => cases more
            · cases more
  | call function arguments =>
      cases turns with
      | lookUp more =>
          split at more
          · obtain ⟨offset, rfl, listed⟩ | ⟨values, between, turns⟩ := Course.turns_operands more
            · rwa [Nat.zero_add]
            · cases turns
          · cases more
  | binary =>
      cases turns with
      | now => rfl
      | later _ more =>
          cases more with
          | now => rfl
          | later _ more => cases more
  | unary =>
      cases turns with
      | now => rfl
      | later _ more => cases more
  | conditional =>
      cases turns with
      | now => rfl
      | later _ more =>
          dsimp only at more
          split at more <;> cases more with
          | now => rfl
          | later _ more => cases more

theorem sizeOf_child {expr child : Expr} {index : Nat}
    (listed : expr.children[index]? = some child) : sizeOf child < sizeOf expr := by
  have among := List.mem_of_getElem? listed
  cases expr with
  | missing | literal | identifier | unsupported => cases among
  | call function arguments =>
      have smaller := List.sizeOf_lt_of_mem among
      simp only [children, call.sizeOf_spec] at smaller ⊢
      omega
  | member | binary | unary | conditional =>
      simp only [children, List.mem_cons, List.not_mem_nil, or_false] at among
      simp only [Expr.member.sizeOf_spec, binary.sizeOf_spec, unary.sizeOf_spec,
        conditional.sizeOf_spec]
      grind

end Expr
end Formulary
