import Reckoner.Proofs.Acceptance
import Reckoner.Proofs.Stack.Bounds
import Reckoner.Proofs.Stack.Descent

/-!
# No text exhausts the stack

Whatever the text, reading it keeps no more calls waiting than a fixed multiple of the limit on the
depth, and takes no more steps than a fixed multiple of the number of tokens. A tree that is read
is so low that a value and a text can be made of it within the same limit.

## Main definitions

* `Machine.result?`: what a machine that has halted says about a text.

## Main results

* `Machine.result?_leave`: the machine says what reading a whole text comes to;
* `Machine.halted_of_le`: it says so within a bounded number of steps;
* `folds_within_of_parse_eq_ok`: a value and a text can be made of a tree that is read;
* `reading_within_limits`: the states of the machine and its result, and the trees that are read.
-/

namespace Reckoner

namespace Machine

/-- What a machine that has halted says about the text: the end has to come next behind the
expression that was read. -/
def result? : Machine → Option (Except Failure Expr)
  | ⟨.done node, [], _, s⟩ =>
    match s.head with
    | .ok next =>
      if next.kind = .endOfInput then some (.ok node.expr)
      else some (.error (.grammar (.leftover next)))
    | .error error => some (.error (.lexical error))
  | ⟨.fail failure, [], _, _⟩ => some (.error failure)
  | _ => none

/-- What is said behind reading an expression is what reading a whole text comes to. -/
theorem result?_leave (limit : Nat) (s : Stream) :
    (leave [] 0 (Parse.expression limit (Parse.factor limit limit) s)).result? =
      some (match Parse.whole limit s with
        | .ok e _ => .ok e
        | .error failure _ => .error failure) := by
  rw [Parse.whole]
  cases hresult : Parse.expression limit (Parse.factor limit limit) s with
  | error failure rest =>
    rw [Parse.bind_of_error hresult]
    rfl
  | ok node rest =>
    rw [Parse.bind_of_ok hresult, leave, result?]
    cases hhead : rest.head with
    | error error =>
      rw [Parse.bind_of_error (Parse.peek_of_head_error hhead)]
    | ok next =>
      rw [Parse.peek_bind hhead]
      dsimp only
      split <;> rfl

/-- A machine with no call left to come back to has halted. -/
theorem step_leave_nil (limit : Nat) (result : EStateM.Result Failure Stream Node) :
    (leave [] 0 result).step limit = none := by
  cases result <;> rfl

/-- Within a number of steps that the number of tokens tells, the machine has halted with the result
of reading the text. -/
theorem halted_of_le {text : String} {count : Nat}
    (h : 30 * (Stream.ofText text).tokens.length + 28 ≤ count) :
    let final := (start (Stream.ofText text)).run depthLimit count
    final.step depthLimit = none ∧ final.depth = 0 ∧
      final.result? = some (parse text).result := by
  intro final
  have hfinal : final = leave [] 0 (Parse.expression depthLimit
      (Parse.factor depthLimit depthLimit) (Stream.ofText text)) :=
    run_of_potential_le (reaches_expression depthLimit _) (step_leave_nil _ _) h
  rw [hfinal]
  refine ⟨step_leave_nil _ _, ?_, ?_⟩
  · cases Parse.expression depthLimit (Parse.factor depthLimit depthLimit) (Stream.ofText text)
    · rfl
    · rfl
  · rw [parse, Stream.parse_result]
    exact result?_leave depthLimit _

end Machine

/-- A tree that is read is so low that its value and its text can be made within the limit. -/
theorem folds_within_of_parse_eq_ok {text : String} {e : Expr}
    (h : (parse text).result = .ok e) :
    e.height ≤ depthLimit ∧ Expr.valueFold.runWithin (depthLimit + 1) e = some e.value ∧
      Expr.renderFold.runWithin (depthLimit + 1) e = some e.render := by
  obtain ⟨ts, length, n, -, -, -, hheight⟩ := exists_derives_of_parse_eq_ok h
  have hlevels : e.height < depthLimit + 1 := Nat.lt_succ_of_le hheight
  rw [Expr.value_eq_run, Expr.render_eq_run]
  exact ⟨hheight, Expr.Fold.runWithin_eq _ hlevels, Expr.Fold.runWithin_eq _ hlevels⟩

/-- Reading a text, step by step, keeps the counter of the open factors right and within the limit,
keeps at most nine other calls between two factors, and holds no node with a wrong height; so it
fits into a stack that is a fixed multiple of the limit. Every call comes back with the counter as
it was. A chain that goes on takes a token, and between a factor and another one inside it a token
is taken, so that there is a bound on the steps as well; at that bound the result is that of reading
the text. A tree that is read is so low that its value and its text can be made within the limit. -/
theorem reading_within_limits (text : String) :
    let s := Stream.ofText text
    let moment := fun count => (Machine.start s).run depthLimit count
    (∀ count, (moment count).depth = (moment count).stack.count .factor ∧
      (moment count).depth ≤ depthLimit ∧
      (∀ stack, (moment count).stack = .factor :: stack → 0 < (moment count).depth) ∧
      (∀ calls, calls <:+: (moment count).stack → .factor ∉ calls → calls.length ≤ 9) ∧
      (∀ node ∈ (moment count).nodes, node.height = node.expr.height) ∧
      Machine.runWithin depthLimit (11 * depthLimit) count (.start s) = some (moment count)) ∧
    (∀ count task, (moment count).control = .call task → ∃ more result,
      moment (count + more) = .leave (moment count).stack (moment count).depth result) ∧
    (∀ count l left, (moment count).control = .again l left →
      (moment (count + 1)).stream.tokens.length + 1 = (moment count).stream.tokens.length ∨
      (moment (count + 1)).control = .done left ∨
      ∃ failure, (moment (count + 1)).control = .fail failure) ∧
    (∀ count more, (moment count).control = .call .factor →
      (moment (count + more)).control = .call .factor →
      (moment count).stack.length < (moment (count + more)).stack.length →
      (moment (count + more)).stream.tokens.length < (moment count).stream.tokens.length) ∧
    (∀ count, 30 * s.tokens.length + 28 ≤ count →
      (moment count).step depthLimit = none ∧ (moment count).depth = 0 ∧
      (moment count).result? = some (parse text).result) ∧
    ∀ e, (parse text).result = .ok e → e.height ≤ depthLimit ∧
      Expr.valueFold.runWithin (depthLimit + 1) e = some e.value ∧
      Expr.renderFold.runWithin (depthLimit + 1) e = some e.render := by
  intro s moment
  have hsound : ∀ count, (moment count).Sound depthLimit :=
    fun count => (Machine.sound_start depthLimit s).run count
  have hlater : ∀ count more, moment (count + more) = (moment count).run depthLimit more :=
    fun count more => Machine.run_add _ count more
  refine ⟨fun count => ?_, fun count task hcontrol => ?_, fun count l left hcontrol => ?_,
    fun count more hcontrol hmore hinside => ?_, fun count hcount => Machine.halted_of_le hcount,
    fun e hparse => folds_within_of_parse_eq_ok hparse⟩
  · have h := hsound count
    refine ⟨h.depth_eq, h.depth_le, fun stack hstack => h.depth_pos hstack, ?_, ?_, ?_⟩
    · exact fun calls hpart hcalls => h.ranked.length_le hpart hcalls
    · exact fun node hnode => (h.nodes node hnode).height_eq
    · exact (Machine.sound_start depthLimit s).runWithin_eq (by decide) count
  · obtain ⟨more, result, hmore⟩ := (hsound count).exists_run_eq_leave hcontrol
    exact ⟨more, result, (hlater count more).trans hmore⟩
  · rw [hlater]
    exact Machine.again_cases hcontrol
  · rw [hlater] at hmore hinside ⊢
    exact Machine.length_tokens_lt_of_nested hcontrol hmore hinside

end Reckoner
