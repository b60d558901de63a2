import Mathlib.Data.List.Forall2
import Mathlib.Data.List.Nodup
import Formulary.Proofs.Raising
import Formulary.Proofs.Tables

/-!
# The order of calls

The calls of an evaluation are those of the tree in post-order, where of every conditional only the
test and the branch that the test selects count.  A failure cuts this sequence short and no call
comes behind it; an evaluation that succeeds makes all of them, once each.
-/

namespace Formulary

namespace Expr

/--
The places of the calls of a tree in post-order.  Of each conditional only the test counts and the
branch that is chosen at its place.
-/
def callPlaces : Expr → (List Nat → Bool) → List (List Nat)
  | missing, _ => []
  | literal _ _, _ => []
  | identifier _ _, _ => []
  | member object property _ _, chosen =>
      (object.callPlaces fun place => chosen (0 :: place)).map (0 :: ·) ++
        (property.callPlaces fun place => chosen (1 :: place)).map (1 :: ·)
  | call _ arguments _, chosen => placesFrom 0 arguments chosen ++ [[]]
  | binary _ left right _, chosen =>
      (left.callPlaces fun place => chosen (0 :: place)).map (0 :: ·) ++
        (right.callPlaces fun place => chosen (1 :: place)).map (1 :: ·)
  | unary _ _ argument _, chosen =>
      (argument.callPlaces fun place => chosen (0 :: place)).map (0 :: ·)
  | conditional test consequent alternate _, chosen =>
      (test.callPlaces fun place => chosen (0 :: place)).map (0 :: ·) ++
        if chosen [] then (consequent.callPlaces fun place => chosen (1 :: place)).map (1 :: ·)
        else (alternate.callPlaces fun place => chosen (2 :: place)).map (2 :: ·)
  | unsupported _ _, _ => []
where
  /-- The places of the calls of expressions that are the children from an index on. -/
  placesFrom : Nat → List Expr → (List Nat → Bool) → List (List Nat)
    | _, [], _ => []
    | index, argument :: rest, chosen =>
        (argument.callPlaces fun place => chosen (index :: place)).map (index :: ·) ++
          placesFrom (index + 1) rest chosen

/-- In post-order the first place comes no later than the second one. -/
def NoLater : List Nat → List Nat → Prop
  | _, [] => True
  | [], _ :: _ => False
  | index :: place, other :: rest => index < other ∨ (index = other ∧ NoLater place rest)

section Definitions

variable {σ : Type} (environment : Environment σ) (expr : Expr) (host : σ)

/-- The call at a place is made, under a name and with the values of its arguments. -/
inductive Invokes (place : List Nat) (name : Text) (values : List Value) : Prop where
  | intro {arguments token reached body between}
      (reaches : Reaches environment expr host place (call name arguments token) reached)
      (found : environment.findFunction name = some body)
      (yields : (evaluate.evaluateAll environment arguments).Yields reached values between)

/-- At every conditional whose test has a value, the branch is chosen that this value selects. -/
def Agrees (chosen : List Nat → Bool) : Prop :=
  ∀ place test consequent alternate token between value after,
    Reaches environment expr host place (conditional test consequent alternate token) between →
      (test.evaluate environment).Yields between value after → chosen place = value.toBool

/-- The calls that an evaluation makes are these places of the tree, in their order. -/
structure Traced (chosen : List Nat → Bool) (invoked : List (List Nat)) : Prop where
  /-- The places are the first ones in post-order. -/
  begins : invoked <+: expr.callPlaces chosen
  /-- The calls are those of these places, one for each. -/
  calls : List.Forall₂ (fun call place => Invokes environment expr host place call.1 call.2)
    (expr.evaluate environment host).calls invoked
  /-- An evaluation that succeeds leaves no place out. -/
  whole : ∀ value, (expr.evaluate environment host).result = .ok value →
    invoked = expr.callPlaces chosen

end Definitions

variable {σ : Type} {environment : Environment σ} {expr : Expr} {host : σ}

/-- The children that are to be evaluated, in order, with their indices. -/
def schedule (branch : Bool) : Expr → List (Expr × Nat)
  | conditional test consequent alternate _ =>
      [(test, 0), if branch then (consequent, 1) else (alternate, 2)]
  | expr => expr.children.zipIdx

/-- The place of a node among those of its own calls. -/
def ownPlaces : Expr → List (List Nat)
  | call _ _ _ => [[]]
  | _ => []

/-- The places of the calls below a child. -/
def placesBelow (chosen : List Nat → Bool) (child : Expr × Nat) : List (List Nat) :=
  (child.1.callPlaces fun place => chosen (child.2 :: place)).map (child.2 :: ·)

private theorem placesFrom_eq (index : Nat) (exprs : List Expr) (chosen : List Nat → Bool) :
    callPlaces.placesFrom index exprs chosen =
      (exprs.zipIdx index).flatMap (placesBelow chosen) := by
  induction exprs generalizing index with
  | nil => rfl
  | cons expr rest induction =>
      rw [callPlaces.placesFrom, induction, List.zipIdx_cons, List.flatMap_cons, placesBelow]

private theorem callPlaces_eq (expr : Expr) (chosen : List Nat → Bool) :
    expr.callPlaces chosen =
      (expr.schedule (chosen [])).flatMap (placesBelow chosen) ++ expr.ownPlaces := by
  cases expr with
  | missing | literal | identifier | unsupported => rfl
  | call function arguments token => rw [callPlaces, placesFrom_eq]; rfl
  | member | binary | unary =>
      simp only [callPlaces, schedule, children, List.zipIdx_cons, List.zipIdx_nil,
        List.flatMap_cons, List.flatMap_nil, placesBelow, ownPlaces, List.append_nil]
  | conditional =>
      simp only [callPlaces, schedule, List.flatMap_cons, List.flatMap_nil, ownPlaces,
        List.append_nil]
      split <;> rfl

/-- Whatever is chosen, the children that are to be evaluated are children of their indices. -/
theorem children_of_schedule {branch : Bool} {child : Expr × Nat}
    (listed : child ∈ expr.schedule branch) : expr.children[child.2]? = some child.1 := by
  cases expr with
  | conditional =>
      simp only [schedule, List.mem_cons, List.not_mem_nil, or_false] at listed
      cases branch <;> obtain rfl | rfl := listed <;> rfl
  | _ => exact List.mem_zipIdx_iff_getElem?.mp listed

private theorem schedule_indices_ne (branch : Bool) (expr : Expr) :
    (expr.schedule branch).Pairwise fun child other => child.2 ≠ other.2 := by
  have distinct : ((expr.schedule branch).map Prod.snd).Nodup := by
    cases expr with
    | conditional => cases branch <;> simp [schedule]
    | _ =>
        simp only [schedule, List.zipIdx_map_snd]
        exact List.nodup_range'
  exact List.pairwise_map.mp distinct

private theorem mem_placesBelow {chosen : List Nat → Bool} {child : Expr × Nat} {place : List Nat}
    (listed : place ∈ placesBelow chosen child) : ∃ rest, place = child.2 :: rest := by
  obtain ⟨rest, -, rfl⟩ := List.mem_map.mp listed
  exact ⟨rest, rfl⟩

/-- No call is listed twice. -/
theorem nodup_callPlaces (expr : Expr) (chosen : List Nat → Bool) :
    (expr.callPlaces chosen).Nodup := by
  induction size : sizeOf expr using Nat.strongRecOn generalizing expr chosen with
  | _ size induction =>
      rw [callPlaces_eq, List.nodup_append, List.nodup_flatMap]
      refine ⟨⟨?inside, ?apart⟩, ?own, ?above⟩
      case inside =>
        intro child listed
        have smaller := sizeOf_child (children_of_schedule listed)
        have inner := induction _ (size ▸ smaller) child.1
          (fun place => chosen (child.2 :: place)) rfl
        exact inner.map List.cons_injective
      case apart =>
        refine (schedule_indices_ne (chosen []) expr).imp fun different place below also => ?_
        obtain ⟨rest, rfl⟩ := mem_placesBelow below
        obtain ⟨other, same⟩ := mem_placesBelow also
        exact different (List.cons.inj same).1
      case own => cases expr <;> simp [ownPlaces]
      case above =>
        intro place below own own_place
        obtain ⟨child, -, below⟩ := List.mem_flatMap.mp below
        obtain ⟨rest, rfl⟩ := mem_placesBelow below
        rintro rfl
        cases expr <;> simp [ownPlaces] at own_place

/-- Of a conditional the calls of one branch count, and the call that it is an argument of. -/
example (f g h : Text) (token : Token) :
    (call f [conditional missing (call g [] token) (call h [] token) token] token).callPlaces
      (fun _ => true) = [[0, 1], []] :=
  rfl

end Expr

namespace Course

open Formulary.Expr (placesBelow)

variable {σ : Type}

/-- The course evaluates these children in order, unless it ends before in a failure. -/
inductive Follows (environment : Environment σ) : Course σ → σ → List (Expr × Nat) → Prop where
  | lookUp {function next host children} (more : Follows environment next host children) :
      Follows environment (.lookUp function next) host children
  | failed {index expr next host rest failure}
      (failed : (expr.evaluate environment host).result = .error failure) :
      Follows environment (.child index expr next) host ((expr, index) :: rest)
  | yields {index expr next host rest value between}
      (yields : (expr.evaluate environment).Yields host value between)
      (more : Follows environment (next value) between rest) :
      Follows environment (.child index expr next) host ((expr, index) :: rest)
  | action {action host rest}
      (done : ((∃ value, (action host).result = .ok value) ∨ (action host).calls ≠ []) →
        ∀ child ∈ rest, ∀ chosen, placesBelow chosen child = []) :
      Follows environment (.action action) host rest

variable {environment : Environment σ} {course : Course σ} {host reached : σ}

private theorem follows_child {index : Nat} {expr : Expr} {next : Value → Course σ}
    {rest : List (Expr × Nat)}
    (more : ∀ value between, (expr.evaluate environment).Yields host value between →
      (next value).Follows environment between rest) :
    (Course.child index expr next).Follows environment host ((expr, index) :: rest) := by
  cases outcome : (expr.evaluate environment host).result with
  | error failure => exact .failed outcome
  | ok value => exact .yields ⟨outcome, rfl⟩ (more value _ ⟨outcome, rfl⟩)

private theorem follows_operands {next : List Value → Course σ} (index : Nat) (exprs : List Expr)
    (more : ∀ values between, (next values).Follows environment between []) :
    (operands next index exprs).Follows environment host (exprs.zipIdx index) := by
  induction exprs generalizing next index host with
  | nil => exact more [] host
  | cons expr rest induction =>
      exact follows_child fun value between _ =>
        induction (index + 1) fun values => more (value :: values)

end Course

namespace Expr

variable {σ : Type} {environment : Environment σ} {expr : Expr} {host : σ}

private theorem follows_action (action : Run σ Value) :
    (Course.action action).Follows environment host [] :=
  .action fun _ _ listed => by cases listed

/-- A node that fails of itself has nothing to do with the children that are left. -/
theorem follows_fail (fault : EvaluationFault) (children : List (Expr × Nat)) :
    (Course.action (Run.fail fault)).Follows environment host children := by
  refine .action fun acted => ?_
  obtain ⟨value, result⟩ | calls := acted
  · cases result
  · exact absurd rfl calls

/-- A node follows its schedule, with the branch that the test selects. -/
theorem follows_schedule (environment : Environment σ) (expr : Expr) (host : σ) (branch : Bool)
    (agrees : ∀ test consequent alternate token value after,
      expr = conditional test consequent alternate token →
        (test.evaluate environment).Yields host value after → branch = value.toBool) :
    (expr.course environment).Follows environment host (expr.schedule branch) := by
  cases expr with
  | missing | literal | identifier | unsupported => exact follows_action _
  | member object property computed token =>
      refine Course.follows_child fun value between _ => ?_
      split
      · exact follows_fail _ _
      · split
        · exact Course.follows_child fun _ _ _ => follows_action _
        · by_cases is_name : ∃ name token, property = identifier name token
          · obtain ⟨name, token, rfl⟩ := is_name
            refine .action fun _ child listed chosen => ?_
            obtain rfl := List.mem_singleton.mp listed
            rfl
          · rw [namedProperty_eq_fail value fun name token same => is_name ⟨name, token, same⟩]
            exact follows_fail _ _
  | call function arguments token =>
      refine .lookUp ?_
      split
      · exact Course.follows_operands 0 arguments fun _ _ => follows_action _
      · exact follows_fail _ _
  | binary =>
      exact Course.follows_child fun _ _ _ => Course.follows_child fun _ _ _ => follows_action _
  | unary => exact Course.follows_child fun _ _ _ => follows_action _
  | conditional test consequent alternate token =>
      refine Course.follows_child fun value between yields => ?_
      rw [agrees test consequent alternate token value between rfl yields]
      split
      · exact Course.follows_child fun _ _ _ => follows_action _
      · exact Course.follows_child fun _ _ _ => follows_action _

end Expr

/-! ## Making calls -/

namespace Course

open Formulary.Expr (placesBelow Invokes Traced)

variable {σ : Type} {environment : Environment σ} {course : Course σ} {host : σ}

/-- The call is made below a child that the course comes to. -/
def InvokesBelow (environment : Environment σ) (course : Course σ) (host : σ)
    (call : Text × List Value) (place : List Nat) : Prop :=
  ∃ index child reached rest, place = index :: rest ∧
    course.Turns environment host index child reached ∧
    Invokes environment child reached rest call.1 call.2

private theorem calls_of_yields {index : Nat} {expr : Expr} {next : Value → Course σ}
    {value : Value} {between : σ} (yields : (expr.evaluate environment).Yields host value between) :
    ((Course.child index expr next).run environment host).calls =
      (expr.evaluate environment host).calls ++ ((next value).run environment between).calls := by
  rw [run, Run.bind_of_yields yields]
  exact List.filterMap_append ..

private theorem calls_of_error {index : Nat} {expr : Expr} {next : Value → Course σ}
    {failure : Failure} (failed : (expr.evaluate environment host).result = .error failure) :
    ((Course.child index expr next).run environment host).calls =
      (expr.evaluate environment host).calls := by
  rw [run, Run.bind_of_error failed]
  rfl

private theorem invokesBelow_of_child {index : Nat} {expr : Expr}
    {next : Value → Course σ} {calls : List (Text × List Value)} {invoked : List (List Nat)}
    (made : List.Forall₂ (fun call place => Invokes environment expr host place call.1 call.2)
      calls invoked) :
    List.Forall₂ (InvokesBelow environment (.child index expr next) host) calls
      (invoked.map (index :: ·)) := by
  rw [List.forall₂_map_right_iff]
  exact made.imp fun call place invokes => ⟨index, expr, host, place, rfl, .now, invokes⟩

/--
A course makes the calls below the children that it evaluates, and behind them those of its action.
If the action gives a value or makes a call, there are no other calls below the children.
-/
theorem Follows.calls {children : List (Expr × Nat)} {chosen : List Nat → Bool}
    (follows : course.Follows environment host children)
    (traced : ∀ index child reached, course.Turns environment host index child reached →
      ∃ invoked, Traced environment child reached (fun place => chosen (index :: place)) invoked) :
    ∃ made own invoked, (course.run environment host).calls = made ++ own ∧
      List.Forall₂ (InvokesBelow environment course host) made invoked ∧
      invoked <+: children.flatMap (placesBelow chosen) ∧
      ((own = [] ∧ ∃ failure, (course.run environment host).result = .error failure) ∨
        ∃ action reached, course.Acts environment host action reached ∧
          own = (action reached).calls ∧
          (((∃ value, (action reached).result = .ok value) ∨ own ≠ []) →
            invoked = children.flatMap (placesBelow chosen))) := by
  -- The calls of a child come in front of those that the rest of the course makes.
  induction follows with
  | lookUp more induction =>
      obtain ⟨made, own, invoked, split, below, begins, ends⟩ :=
        induction fun index child reached turns => traced index child reached (.lookUp turns)
      refine ⟨made, own, invoked, split, below.imp fun call place invokes => ?_, begins, ?_⟩
      · obtain ⟨index, child, reached, rest, same, turns, invokes⟩ := invokes
        exact ⟨index, child, reached, rest, same, .lookUp turns, invokes⟩
      · obtain failed | ⟨action, reached, acts, same, whole⟩ := ends
        · exact .inl failed
        · exact .inr ⟨action, reached, .lookUp acts, same, whole⟩
  | @failed index expr next host rest failure failed =>
      obtain ⟨invoked, begins, calls, -⟩ := traced index expr host .now
      refine ⟨_, [], invoked.map (index :: ·), ?_, invokesBelow_of_child calls, ?_,
        .inl ⟨rfl, failure, ?_⟩⟩
      · rw [calls_of_error failed, List.append_nil]
      · rw [List.flatMap_cons]
        exact (begins.map _).trans (List.prefix_append _ _)
      · exact result_of_error failed
  | @yields index expr next host rest value between yields more induction =>
      obtain ⟨invoked, begins, calls, whole⟩ := traced index expr host .now
      obtain ⟨made, own, others, split, below, others_begin, ends⟩ :=
        induction fun index child reached turns => traced index child reached (.later yields turns)
      obtain rfl := whole value yields.result
      refine ⟨(expr.evaluate environment host).calls ++ made, own,
        placesBelow chosen (expr, index) ++ others, ?_, ?_, ?_, ?_⟩
      · rw [calls_of_yields yields, split, List.append_assoc]
      · refine List.rel_append (invokesBelow_of_child calls)
          (below.imp fun call place invokes => ?_)
        obtain ⟨index, child, reached, rest, same, turns, invokes⟩ := invokes
        exact ⟨index, child, reached, rest, same, .later yields turns, invokes⟩
      · rw [List.flatMap_cons]
        exact List.prefix_append_right_inj _ |>.mpr others_begin
      · obtain ⟨empty, failure, failed⟩ | ⟨action, reached, acts, same, whole⟩ := ends
        · exact .inl ⟨empty, failure, (result_of_yields yields).trans failed⟩
        · refine .inr ⟨action, reached, .later yields acts, same, fun acted => ?_⟩
          rw [whole acted, List.flatMap_cons]
  | @action action host rest done =>
      refine ⟨[], (action host).calls, [], rfl, .nil, List.nil_prefix,
        .inr ⟨action, host, .now, rfl, ?_⟩⟩
      intro acts
      exact (List.flatMap_eq_nil_iff.mpr fun child listed => done acts child listed chosen).symm

/-- The action behind the children calls no function. -/
def Silent : Course σ → Prop
  | lookUp _ next => next.Silent
  | child _ _ next => ∀ value, (next value).Silent
  | action run => ∀ host, (run host).calls = []

private theorem Acts.calls_eq_nil {action : Run σ Value} {reached : σ}
    (acts : course.Acts environment host action reached) (silent : course.Silent) :
    (action reached).calls = [] := by
  induction acts with
  | lookUp more induction => exact induction silent
  | now => exact silent _
  | later yields more induction => exact induction (silent _)

end Course

namespace Expr

variable {σ : Type} {environment : Environment σ} {expr : Expr} {host : σ}

private theorem calls_readVariable (name : Text) :
    (environment.readVariable name host).calls = [] := by
  rw [Environment.readVariable]
  cases environment.findVariable name <;> rfl

private theorem calls_namedProperty (object : Value) (property : Expr) :
    (namedProperty object property host).calls = [] := by
  cases property <;> rfl

private theorem calls_applyBinary (operator : Text) (left right : Value) :
    (applyBinary operator left right host).calls = [] := by
  rw [applyBinary]
  cases BinaryOperator.ofText? operator <;> rfl

private theorem calls_applyUnary (operator : Text) (before : Bool) (argument : Value) :
    (applyUnary operator before argument host).calls = [] := by
  cases before with
  | false => rfl
  | true =>
      rw [applyUnary, if_pos rfl]
      cases UnaryOperator.ofText? operator with
      | none => rfl
      | some known =>
          dsimp only
          cases known.result? argument <;> rfl

/-- Only calls call functions. -/
theorem silent_course (environment : Environment σ)
    (no_call : ∀ function arguments token, expr ≠ call function arguments token) :
    (expr.course environment).Silent := by
  cases expr with
  | missing | literal | unsupported => exact fun _ => rfl
  | identifier name => exact fun _ => calls_readVariable name
  | member object property computed =>
      intro value
      dsimp only
      split
      · exact fun _ => rfl
      · split
        · exact fun _ _ => rfl
        · exact fun _ => calls_namedProperty value property
  | call function arguments token => exact absurd rfl (no_call function arguments token)
  | binary operator => exact fun left right _ => calls_applyBinary operator left right
  | unary operator before => exact fun value _ => calls_applyUnary operator before value
  | conditional =>
      intro truth
      dsimp only
      split <;> exact fun _ _ => rfl

/-- What a node itself calls is its own place, if it comes to that. -/
theorem own_calls {action : Run σ Value} {reached : σ}
    (acts : (expr.course environment).Acts environment host action reached) :
    ((action reached).calls = [] ∧
      ∀ value, (action reached).result = .ok value → expr.ownPlaces = []) ∨
    ∃ name values, (action reached).calls = [(name, values)] ∧ expr.ownPlaces = [[]] ∧
      Invokes environment expr host [] name values := by
  by_cases is_call : ∃ function arguments token, expr = call function arguments token
  · obtain ⟨function, arguments, token, rfl⟩ := is_call
    obtain ⟨acts⟩ := acts
    split at acts
    · rename_i body found
      obtain ⟨values, between, yields, acts⟩ := Course.acts_operands_iff.mp acts
      cases acts
      exact .inr ⟨function, values, rfl, rfl, .intro (.root nofun) found yields⟩
    · cases acts
      exact .inl ⟨rfl, nofun⟩
  · have no_call : ∀ function arguments token, expr ≠ call function arguments token :=
      fun function arguments token same => is_call ⟨function, arguments, token, same⟩
    refine .inl ⟨acts.calls_eq_nil (silent_course environment no_call), fun value _ => ?_⟩
    cases expr with
    | call function arguments token => exact absurd rfl (no_call function arguments token)
    | _ => rfl

private theorem invokes_of_below {call : Text × List Value} {place : List Nat}
    (below : (expr.course environment).InvokesBelow environment host call place) :
    Invokes environment expr host place call.1 call.2 := by
  obtain ⟨index, child, reached, rest, rfl, turns, reaches, found, yields⟩ := below
  exact .intro (.child turns reaches) found yields

private theorem calls_evaluate (present : expr ≠ missing) :
    (expr.evaluate environment host).calls =
      ((expr.course environment).run environment host).calls := by
  rw [evaluate_eq environment present]
  rfl

private theorem Agrees.child {chosen : List Nat → Bool}
    (agrees : Agrees environment expr host chosen) {index : Nat} {child : Expr} {reached : σ}
    (turns : (expr.course environment).Turns environment host index child reached) :
    Agrees environment child reached fun place => chosen (index :: place) :=
  fun place test consequent alternate token between value after reaches yields =>
    agrees (index :: place) test consequent alternate token between value after
      (.child turns reaches) yields

private theorem result_of_acts (present : expr ≠ missing) {action : Run σ Value} {reached : σ}
    {value : Value}
    (acts : (expr.course environment).Acts environment host action reached)
    (result : (expr.evaluate environment host).result = .ok value) :
    (action reached).result = .ok value := by
  rw [evaluate_eq environment present] at result
  simp only [Run.framed, acts.result_eq] at result
  cases outcome : (action reached).result with
  | error failure =>
      rw [outcome] at result
      cases result
  | ok other =>
      rw [outcome] at result
      exact result

/-- Calls below the children and calls of the node itself, one behind the other. -/
theorem traced_of_course (present : expr ≠ missing) {chosen : List Nat → Bool}
    {made own : List (Text × List Value)} {invoked : List (List Nat)}
    (split : ((expr.course environment).run environment host).calls = made ++ own)
    (calls : List.Forall₂ (fun call place => Invokes environment expr host place call.1 call.2)
      made invoked)
    (begins : invoked <+: (expr.schedule (chosen [])).flatMap (placesBelow chosen))
    {action : Run σ Value} {reached : σ}
    (acts : (expr.course environment).Acts environment host action reached)
    (same : own = (action reached).calls)
    (whole : ((∃ value, (action reached).result = .ok value) ∨ own ≠ []) →
      invoked = (expr.schedule (chosen [])).flatMap (placesBelow chosen)) :
    ∃ invoked, Traced environment expr host chosen invoked := by
  have places := callPlaces_eq expr chosen
  rw [← calls_evaluate present] at split
  subst same
  obtain ⟨silent, no_place⟩ | ⟨name, values, own, own_place, invokes⟩ := own_calls acts
  · refine ⟨invoked, ?_, ?_, fun value result => ?_⟩
    · rw [places]
      exact begins.trans (List.prefix_append _ _)
    · rwa [split, silent, List.append_nil]
    · have acted := result_of_acts present acts result
      rw [places, no_place value acted, List.append_nil, whole (.inl ⟨value, acted⟩)]
  · have all := whole (.inr (own ▸ List.cons_ne_nil _ _))
    rw [← all, own_place] at places
    refine ⟨invoked ++ [[]], ?_, ?_, fun value result => places.symm⟩
    · exact places ▸ List.prefix_refl _
    · rw [split, own]
      exact List.rel_append calls (.cons invokes .nil)

/-- The calls of an evaluation are made in the order of the tree. -/
theorem exists_traced {chosen : List Nat → Bool} (agrees : Agrees environment expr host chosen) :
    ∃ invoked, Traced environment expr host chosen invoked := by
  induction size : sizeOf expr using Nat.strongRecOn generalizing expr host chosen with
  | _ size induction =>
      by_cases present : expr = missing
      · subst present
        exact ⟨[], List.nil_prefix, .nil, nofun⟩
      · -- The choice is followed at this node, and every child is smaller.
        have follows := follows_schedule environment expr host (chosen [])
          fun test consequent alternate token value after same yields =>
            agrees [] test consequent alternate token host value after
              (same ▸ Reaches.root (same ▸ present)) yields
        obtain ⟨made, own, invoked, split, below, begins, ends⟩ :=
          follows.calls fun index child reached turns =>
            induction _ (size ▸ sizeOf_child (children_of_turns turns)) (agrees.child turns) rfl
        have calls := below.imp fun call place => invokes_of_below
        obtain ⟨rfl, failure, failed⟩ | ⟨action, reached, acts, same, whole⟩ := ends
        · refine ⟨invoked, ?_, ?_, fun value result => ?_⟩
          · rw [callPlaces_eq]
            exact begins.trans (List.prefix_append _ _)
          · rwa [calls_evaluate present, split, List.append_nil]
          · rw [result_evaluate_of_error present failed] at result
            cases result
        · exact traced_of_course present split calls begins acts same whole

/-- There is a choice of branches that agrees with the values of the tests. -/
theorem exists_agrees (environment : Environment σ) (expr : Expr) (host : σ) :
    ∃ chosen, Agrees environment expr host chosen := by
  classical
  refine ⟨fun place => decide (∃ test consequent alternate token between value after,
    Reaches environment expr host place (conditional test consequent alternate token) between ∧
      (test.evaluate environment).Yields between value after ∧ value.toBool), ?_⟩
  intro place test consequent alternate token between value after reaches yields
  rw [Bool.eq_iff_iff, decide_eq_true_iff]
  constructor
  · rintro ⟨_, _, _, _, _, _, _, others, also, truth⟩
    obtain ⟨same, rfl⟩ := others.unique reaches
    cases same
    obtain ⟨rfl, -⟩ := also.unique yields
    exact truth
  · intro truth
    exact ⟨test, consequent, alternate, token, between, value, after, reaches, yields, truth⟩

/-- No call is made behind the node that fails. -/
theorem Invokes.noLater {place other : List Nat} {name : Text} {values : List Value}
    {failure : Failure} (invokes : Invokes environment expr host place name values)
    (fails : FailsAt environment expr host other failure) : NoLater place other := by
  obtain ⟨node, reached, raised, reaches, raises, -⟩ := fails
  obtain ⟨invoked, found, yields⟩ := invokes
  induction reaches generalizing place with
  | root => simp only [NoLater]
  | child turns more induction =>
      have failed := FailsAt.result_eq ⟨_, _, _, more, raises, rfl⟩
      cases invoked with
      | root =>
          -- The arguments of this call have values, so that none of them is the child that fails.
          exact absurd (acts_call found yields) (turns.not_acts failed)
      | child other_turns other_more =>
          have earlier := turns.le_of_error failed other_turns (increasing_course _ _)
          obtain before | rfl := Nat.lt_or_eq_of_le earlier
          · exact .inl before
          · obtain ⟨rfl, rfl⟩ := turns.unique other_turns (increasing_course _ _)
            exact .inr ⟨rfl, induction raises other_more⟩

/-- A function is looked up before any argument is evaluated. -/
theorem evaluate_undefined {function : Text} (arguments : List Expr) (token : Token)
    (unknown : environment.findFunction function = none) :
    (call function arguments token).evaluate environment host =
      ⟨.error (.evaluation (.undefinedFunction function) 1), host, [.functionRead function]⟩ := by
  simp only [evaluate, Environment.readFunction, unknown]
  rfl

/-- An object is checked before its key is evaluated. -/
theorem evaluate_nullish {object : Expr} {value : Value} {after : σ}
    (yields : (object.evaluate environment).Yields host value after) (nothing : value.isNullish)
    (property : Expr) (computed : Bool) (token : Token) :
    (member object property computed token).evaluate environment host =
      ⟨.error (.evaluation .nullPropertyAccess 1), after,
        (object.evaluate environment host).events⟩ := by
  simp only [evaluate, Run.framed, Run.bind_of_yields yields, if_pos nothing]
  simp only [Run.fail, List.append_nil]
  rfl

/-- A unary operator is checked behind its operand. -/
theorem evaluate_unary {argument : Expr} {value : Value} {after : σ}
    (yields : (argument.evaluate environment).Yields host value after)
    (operator : Text) (before : Bool) (token : Token) {fault : EvaluationFault}
    (rejected : (before = false ∧ fault = .unsupportedPostfix operator) ∨
      (before = true ∧ UnaryOperator.ofText? operator = none ∧ fault = .unknownOperator operator)) :
    (unary operator before argument token).evaluate environment host =
      ⟨.error (.evaluation fault 1), after, (argument.evaluate environment host).events⟩ := by
  simp only [evaluate, Run.framed, Run.bind_of_yields yields]
  obtain ⟨rfl, rfl⟩ | ⟨rfl, unknown, rfl⟩ := rejected
  · simp only [applyUnary, Bool.false_eq_true, if_false, Run.fail, List.append_nil]
    rfl
  · simp only [applyUnary, unknown, if_true, Run.fail, List.append_nil]
    rfl

/-- A binary operator is checked behind both of its operands. -/
theorem evaluate_binary {left right : Expr} {leftValue rightValue : Value} {between after : σ}
    (left_yields : (left.evaluate environment).Yields host leftValue between)
    (right_yields : (right.evaluate environment).Yields between rightValue after)
    {operator : Text} (token : Token) (unknown : BinaryOperator.ofText? operator = none) :
    (binary operator left right token).evaluate environment host =
      ⟨.error (.evaluation (.unknownOperator operator) 1), after,
        (left.evaluate environment host).events ++
          (right.evaluate environment between).events⟩ := by
  simp only [evaluate, Run.framed, Run.bind_of_yields left_yields,
    Run.bind_of_yields right_yields, applyBinary, unknown]
  simp only [Run.fail, List.append_nil]
  rfl

/--
The calls of an evaluation are the first ones of the tree in post-order, in which every conditional
counts for its test and the branch that the test selects; no call is listed twice, and all of them
are made if the evaluation succeeds, whatever the operators are.  If it fails, the failure is that
of the only node that fails of itself, and no call is made behind that node.  A function without a
body fails before its arguments, an object that is nothing before its key, and an operator that
there is not behind its operands.
-/
theorem evaluate_in_order (environment : Environment σ) (expr : Expr) (host : σ) :
    (∃ chosen, Agrees environment expr host chosen) ∧
    (∀ chosen, (expr.callPlaces chosen).Nodup) ∧
    (∀ chosen, Agrees environment expr host chosen →
      ∃ invoked, Traced environment expr host chosen invoked ∧
        (expr ≠ missing → ∀ failure, (expr.evaluate environment host).result = .error failure →
          ∃ place, FailsAt environment expr host place failure ∧
            (∀ other also, FailsAt environment expr host other also → other = place) ∧
            ∀ other ∈ invoked, NoLater other place)) ∧
    (∀ function arguments token, environment.findFunction function = none →
      (call function arguments token).evaluate environment host =
        ⟨.error (.evaluation (.undefinedFunction function) 1), host, [.functionRead function]⟩) ∧
    (∀ object property computed token value after,
      (object.evaluate environment).Yields host value after → value.isNullish →
      (member object property computed token).evaluate environment host =
        ⟨.error (.evaluation .nullPropertyAccess 1), after,
          (object.evaluate environment host).events⟩) ∧
    (∀ operator before argument token value after fault,
      (argument.evaluate environment).Yields host value after →
      (before = false ∧ fault = .unsupportedPostfix operator) ∨
        (before = true ∧ UnaryOperator.ofText? operator = none ∧
          fault = .unknownOperator operator) →
      (unary operator before argument token).evaluate environment host =
        ⟨.error (.evaluation fault 1), after, (argument.evaluate environment host).events⟩) ∧
    (∀ operator left right token leftValue between rightValue after,
      (left.evaluate environment).Yields host leftValue between →
      (right.evaluate environment).Yields between rightValue after →
      BinaryOperator.ofText? operator = none →
      (binary operator left right token).evaluate environment host =
        ⟨.error (.evaluation (.unknownOperator operator) 1), after,
          (left.evaluate environment host).events ++
            (right.evaluate environment between).events⟩) := by
  refine ⟨exists_agrees environment expr host, nodup_callPlaces expr, ?order, ?undefined, ?nullish,
    ?unary, ?binary⟩
  case order =>
    intro chosen agrees
    obtain ⟨invoked, traced⟩ := exists_traced agrees
    refine ⟨invoked, traced, fun present failure failed => ?_⟩
    obtain ⟨place, fails⟩ := exists_failsAt present failed
    refine ⟨place, fails, fun other also again => again.unique fails, fun other listed => ?_⟩
    obtain ⟨call, -, invokes⟩ := exists_partner traced.calls listed
    exact invokes.noLater fails
  case undefined => exact fun function => evaluate_undefined
  case nullish =>
    exact fun object property computed token value after yields nothing =>
      evaluate_nullish yields nothing property computed token
  case unary =>
    exact fun operator before argument token value after fault yields rejected =>
      evaluate_unary yields operator before token rejected
  case binary =>
    exact fun operator left right token leftValue between rightValue after left_yields
      right_yields unknown => evaluate_binary left_yields right_yields token unknown

end Expr
end Formulary
