import Reckoner.Proofs.Stack.Simulation

/-!
# The stack and the steps of reading

What holds of a machine in every state that it comes to: the counter is the number of open factors,
no more factors are open than the limit says, only a few other calls stand between two of them, and
the heights beside the trees are their own. So the stack is bounded by the limit, and the number of
steps by the number of tokens.

## Main definitions

* `Machine.Sound`: what holds in every state;
* `Machine.potential`: a bound on the number of steps from a state on.

## Main results

* `Machine.Sound.run`: what holds at the start holds in every state;
* `Machine.Sound.length_stack_le`: the stack is bounded by the limit;
* `Machine.potential_lt_of_move`: each step uses up some of the bound on the steps;
* `Machine.run_of_potential_le`: the machine halts within the bound.
-/

namespace Reckoner

/-- The place of a level among the levels, from the loosest on. -/
def Level.index : Level → Nat
  | .or => 0
  | .xor => 1
  | .and => 2
  | .shift => 3
  | .sum => 4
  | .product => 5

/-- How many calls a call is away from the factor that it belongs to. -/
def Frame.rank : Frame → Nat
  | .factor => 0
  | .signed | .sign _ => 1
  | .base | .exponent _ _ => 2
  | .group | .argument _ => 3
  | .level l | .operand l _ _ => l.index + 4

/-- How many calls a reader that is called is away from the factor that it belongs to. -/
def Task.rank : Task → Nat
  | .factor => 0
  | .signed => 1
  | .power => 2
  | .atom => 3
  | .level l => l.index + 4

/-- The rank of the call that is at work. One that has ended has none, which counts as zero. -/
def Control.rank : Control → Nat
  | .call task => task.rank
  | .again l _ => l.index + 4
  | .done _ | .fail _ => 0

/-- A call of rank `inner` may stand above one of rank `outer`. -/
def MayCall (inner outer : Nat) : Prop :=
  inner = 0 ∨ inner = outer + 1

/-- Every call but that of a factor is one call further away from a factor than the one below it,
and so is the one at work, which is of the given rank. -/
def Ranked : Nat → List Frame → Prop
  | _, [] => True
  | rank, frame :: stack => MayCall rank frame.rank ∧ Ranked frame.rank stack

/-- The nodes that a call has read already. -/
def Frame.nodes : Frame → List Node
  | .operand _ _ left => [left]
  | .exponent _ node => [node]
  | _ => []

/-- The node that is being worked on. -/
def Control.nodes : Control → List Node
  | .again _ left => [left]
  | .done node => [node]
  | .call _ | .fail _ => []

/-- The height beside a tree is its own, and within the limit. -/
structure Node.Sound (limit : Nat) (node : Node) : Prop where
  /-- The height beside the tree is its own. -/
  height_eq : node.height = node.expr.height
  /-- The tree is at most `limit` high. -/
  height_le : node.height ≤ limit

namespace Node.Sound

variable {limit : Nat} {left right : Node}

theorem literal (limit : Nat) (t : Token) : (Node.literal t).Sound limit :=
  ⟨rfl, Nat.zero_le _⟩

theorem unary {t : Token} (h : right.Sound limit) (hle : (Node.unary t right).height ≤ limit) :
    (Node.unary t right).Sound limit :=
  ⟨congrArg (· + 1) h.height_eq, hle⟩

theorem binary {t : Token} (hleft : left.Sound limit) (hright : right.Sound limit)
    (hle : (Node.binary t left right).height ≤ limit) : (Node.binary t left right).Sound limit :=
  ⟨by simp [Node.binary, Expr.height, hleft.height_eq, hright.height_eq], hle⟩

theorem application {t : Token} (h : right.Sound limit)
    (hle : (Node.application t right).height ≤ limit) : (Node.application t right).Sound limit :=
  ⟨congrArg (· + 1) h.height_eq, hle⟩

end Node.Sound

/-- The operands of a level are read by a call that is one further away, or by a factor. -/
theorem Level.mayCall_operand (l : Level) : MayCall l.operand.rank (l.index + 4) := by
  cases l with
  | product => exact .inl rfl
  | _ => exact .inr rfl

theorem Ranked.zero {rank : Nat} {stack : List Frame} (h : Ranked rank stack) :
    Ranked 0 stack := by
  cases stack with
  | nil => trivial
  | cons frame stack => exact ⟨.inl rfl, h.2⟩

theorem Level.index_le (l : Level) : l.index ≤ 5 := by
  cases l <;> decide

theorem Frame.rank_le (frame : Frame) : frame.rank ≤ 9 := by
  cases frame with
  | level l | operand l => exact Nat.add_le_add_right l.index_le 4
  | _ => simp [rank]

theorem Frame.rank_pos {frame : Frame} (h : frame ≠ .factor) : 0 < frame.rank := by
  cases frame with
  | factor => exact absurd rfl h
  | _ => exact Nat.succ_pos _

/-- The counter behind a call that ends is the number of open factors below it. -/
theorem Frame.restore_count (frame : Frame) (stack : List Frame) :
    frame.restore ((frame :: stack).count .factor) = stack.count .factor := by
  cases frame <;> simp [restore]

namespace Machine

variable {limit : Nat}

/-- The nodes that the machine holds: the one that is worked on, and those of the calls that
wait. -/
def nodes (m : Machine) : List Node :=
  m.control.nodes ++ m.stack.flatMap Frame.nodes

/-- What holds in every state of a machine. -/
structure Sound (limit : Nat) (m : Machine) : Prop where
  /-- The counter is the number of open factors. -/
  depth_eq : m.depth = m.stack.count .factor
  /-- No more factors are open than the limit says. -/
  depth_le : m.depth ≤ limit
  /-- The calls stand above one another as they may. -/
  ranked : Ranked m.control.rank m.stack
  /-- The nodes are as they should be. -/
  nodes : ∀ node ∈ m.nodes, node.Sound limit

theorem sound_start (limit : Nat) (s : Stream) : (start s).Sound limit :=
  ⟨rfl, Nat.zero_le _, trivial, nofun⟩

/-- A move keeps the counter what it should be. -/
theorem depth_of_move {m next : Machine} (h : Move limit m next)
    (hm : m.depth = m.stack.count .factor) (hle : m.depth ≤ limit) :
    next.depth = next.stack.count .factor ∧ next.depth ≤ limit := by
  have hrestore : ∀ {frame : Frame} {stack : List Frame} {depth : Nat},
      depth = (frame :: stack).count .factor → depth ≤ limit →
        frame.restore depth = stack.count .factor ∧ frame.restore depth ≤ limit := by
    rintro frame stack depth rfl hle
    rw [Frame.restore_count]
    exact ⟨rfl, Nat.le_trans ((List.sublist_cons_self frame stack).count_le _) hle⟩
  cases h with
  | callFactor h =>
    dsimp only at hm hle ⊢
    rw [List.count_cons_self]
    omega
  | doneFactor => exact hrestore hm hle
  | doneFail | unwind => exact hrestore hm hle
  | _ => simpa using ⟨hm, hle⟩

/-- A move leaves the calls above one another as they may stand. -/
theorem ranked_of_move {m next : Machine} (h : Move limit m next)
    (hm : Ranked m.control.rank m.stack) : Ranked next.control.rank next.stack := by
  cases h with
  -- a call that is made stands above the one that makes it, which has the rank it had at work
  | callLevel | againOperand => exact ⟨Level.mayCall_operand _, hm⟩
  | callFactor | callSigned | callPower => exact ⟨.inr rfl, hm⟩
  | callSign | callArgument | callGroup =>
    exact ⟨by simp [MayCall, Control.rank, Task.rank, Frame.rank, Level.index], hm⟩
  | doneBase => exact ⟨.inl rfl, hm.2⟩
  | doneLevel | doneOperand => exact hm.2
  -- a call that has ended has no rank
  | callLiteral | againDone | callFail | againFail => exact hm.zero
  | _ => exact hm.2.zero

/-- A move leaves the nodes as they should be. -/
theorem nodes_of_move {m next : Machine} (h : Move limit m next)
    (hm : ∀ node ∈ m.nodes, node.Sound limit) : ∀ node ∈ next.nodes, node.Sound limit := by
  cases h with
  -- what was held is held still, or less of it
  | callLevel | callFactor | callSign | callSigned | callPower | callArgument | callGroup
  | againOperand | againDone | doneLevel | doneFactor | doneSigned | doneBase | donePower
  | doneGroup | callFail => exact hm
  | againFail => exact (List.forall_mem_cons.1 hm).2
  | @doneFail _ frame _ stack =>
    have hwaiting : ∀ node ∈ frame.nodes ++ stack.flatMap Frame.nodes, node.Sound limit :=
      (List.forall_mem_cons.1 hm).2
    exact (List.forall_mem_append.1 hwaiting).2
  | @unwind frame _ stack =>
    have hwaiting : ∀ node ∈ frame.nodes ++ stack.flatMap Frame.nodes, node.Sound limit := hm
    exact (List.forall_mem_append.1 hwaiting).2
  -- a node is made of those that are held
  | callLiteral => exact List.forall_mem_cons.2 ⟨.literal limit _, hm⟩
  | doneOperand hle | doneExponent hle =>
    obtain ⟨hnode, hrest⟩ := List.forall_mem_cons.1 hm
    obtain ⟨hleft, hrest⟩ := List.forall_mem_cons.1 hrest
    exact List.forall_mem_cons.2 ⟨hleft.binary hnode hle, hrest⟩
  | doneSign hle =>
    obtain ⟨hnode, hrest⟩ := List.forall_mem_cons.1 hm
    exact List.forall_mem_cons.2 ⟨hnode.unary hle, hrest⟩
  | doneArgument hle =>
    obtain ⟨hnode, hrest⟩ := List.forall_mem_cons.1 hm
    exact List.forall_mem_cons.2 ⟨hnode.application hle, hrest⟩

namespace Sound

/-- What holds in a state holds behind a move. -/
theorem of_move {m next : Machine} (hm : m.Sound limit) (h : Move limit m next) :
    next.Sound limit := by
  obtain ⟨hdepth, hle⟩ := depth_of_move h hm.depth_eq hm.depth_le
  exact ⟨hdepth, hle, ranked_of_move h hm.ranked, nodes_of_move h hm.nodes⟩

/-- What holds at the start holds in every state. -/
theorem run {m : Machine} (hm : m.Sound limit) (count : Nat) : (m.run limit count).Sound limit := by
  induction count generalizing m with
  | zero => exact hm
  | succ count ih =>
    cases hstep : m.step limit with
    | none => rwa [run_of_halted hstep]
    | some next =>
      rw [run_succ hstep]
      exact ih (hm.of_move (move_of_step hstep))

end Sound

end Machine

/-! ### The length of the stack -/

namespace Ranked

/-- Calls that are no factors are as many as the innermost is away from its factor, at most. -/
theorem length_le_rank {frame : Frame} {calls : List Frame} (h : Ranked frame.rank calls)
    (hcalls : .factor ∉ frame :: calls) : (frame :: calls).length ≤ frame.rank := by
  induction calls generalizing frame with
  | nil => exact Frame.rank_pos fun heq => hcalls (heq ▸ .head _)
  | cons other calls ih =>
    have hpos := Frame.rank_pos fun heq => hcalls (heq ▸ .head _)
    have hle := ih h.2 fun hmem => hcalls (.tail _ hmem)
    have hmay := h.1
    rw [MayCall] at hmay
    rw [List.length_cons]
    omega

theorem of_append {rank : Nat} {calls stack : List Frame} (h : Ranked rank (calls ++ stack)) :
    Ranked rank calls ∧ Ranked 0 stack := by
  induction calls generalizing rank with
  | nil => exact ⟨trivial, h.zero⟩
  | cons frame calls ih => exact ⟨⟨h.1, (ih h.2).1⟩, (ih h.2).2⟩

/-- Between two factors there are at most nine other calls. -/
theorem length_le {rank : Nat} {calls stack : List Frame} (h : Ranked rank stack)
    (hpart : calls <:+: stack) (hcalls : .factor ∉ calls) : calls.length ≤ 9 := by
  obtain ⟨above, below, rfl⟩ := hpart
  cases calls with
  | nil => exact Nat.zero_le _
  | cons frame calls =>
    rw [List.append_assoc] at h
    exact Nat.le_trans (h.of_append.2.of_append.1.2.length_le_rank hcalls) frame.rank_le

/-- Every factor stands for at most ten calls. -/
theorem length_stack_le {rank : Nat} {stack : List Frame} (h : Ranked rank stack)
    (hrank : rank ≤ 10) :
    stack.length ≤ 10 * stack.count .factor + if rank = 0 then 9 else rank - 1 := by
  induction stack generalizing rank with
  | nil => exact Nat.zero_le _
  | cons frame stack ih =>
    have hle := ih h.2 (Nat.le_succ_of_le frame.rank_le)
    have hmay := h.1
    have hrank := frame.rank_le
    rw [MayCall] at hmay
    by_cases hframe : frame = .factor
    · subst hframe
      rw [List.count_cons_self, List.length_cons]
      simp [Frame.rank] at hle
      omega
    · have hpos := Frame.rank_pos hframe
      rw [List.count_cons_of_ne hframe, List.length_cons]
      split at hle <;> split <;> omega

end Ranked

namespace Machine

variable {limit : Nat}

/-- The stack is bounded by the limit, and by nothing else. -/
theorem Sound.length_stack_le {m : Machine} (h : m.Sound limit) :
    m.stack.length ≤ 10 * limit + 9 := by
  have hle := h.ranked.zero.length_stack_le (Nat.zero_le _)
  have hdepth := h.depth_le
  rw [h.depth_eq] at hdepth
  simp only [if_true] at hle
  omega

end Machine

/-! ### The number of steps -/

/-- How many steps a reader that is called takes at most, those aside that a token pays for. -/
def Task.steps : Task → Nat
  | .level l => 28 - 3 * l.index
  | .factor => 10
  | .signed => 7
  | .power => 4
  | .atom => 1

/-- How many steps are taken at most with what is being done, those aside that a token pays for. -/
def Control.steps : Control → Nat
  | .call task => task.steps
  | .again _ _ => 2
  | .done _ => 1
  | .fail _ => 0

theorem Task.steps_pos (task : Task) : 0 < task.steps := by
  cases task with
  | level l => cases l <;> decide
  | _ => decide

theorem Level.steps_operand (l : Level) : l.operand.steps + 3 = (Task.level l).steps := by
  cases l <;> rfl

namespace Machine

/-- A bound on the number of steps from a state on: each token pays for thirty steps, and each call
that waits for two. -/
def potential (m : Machine) : Nat :=
  30 * m.stream.tokens.length + m.control.steps + 2 * m.stack.length

/-- Each step uses up some of the bound. -/
theorem potential_lt_of_move {m next : Machine} (h : Move limit m next) :
    next.potential < m.potential := by
  cases h with
  -- the bound of a level takes in the bounds of the tighter ones
  | @callLevel l =>
    have hsteps := l.steps_operand
    simp only [potential, Control.steps, List.length_cons]
    omega
  | @againOperand l =>
    have hsteps := l.steps_operand
    have hle : (Task.level l).steps ≤ 28 := Nat.sub_le _ _
    simp only [potential, Control.steps, Stream.length_tokens_behind, List.length_cons,
      List.length_nil]
    omega
  | @callFail task =>
    have hpos := task.steps_pos
    simp only [potential, Control.steps]
    omega
  | _ =>
    -- a token that is taken pays for all that may come before the next one
    simp only [potential, Control.steps, Task.steps, Level.index, Stream.length_tokens_behind,
      List.length_cons, List.length_nil]
    omega

/-- The machine halts within the bound. -/
theorem step_run_of_potential_le {m : Machine} {count : Nat} (h : m.potential ≤ count) :
    (m.run limit count).step limit = none := by
  induction count generalizing m with
  | zero =>
    cases hstep : m.step limit with
    | none => rwa [run_of_halted hstep]
    | some next =>
      have hlt := potential_lt_of_move (move_of_step hstep)
      omega
  | succ count ih =>
    cases hstep : m.step limit with
    | none => rwa [run_of_halted hstep]
    | some next =>
      have hlt := potential_lt_of_move (move_of_step hstep)
      rw [run_succ hstep]
      exact ih (by omega)

/-- A state in which the machine halts is the one that it is in at the bound. -/
theorem run_of_potential_le {m final : Machine} (h : Reaches limit m final)
    (hfinal : final.step limit = none) {count : Nat} (hcount : m.potential ≤ count) :
    m.run limit count = final := by
  obtain ⟨steps, rfl⟩ := h
  -- both runs can be made longer without a change, and then they are equally long
  calc m.run limit count
      = (m.run limit count).run limit steps :=
        (run_of_halted (step_run_of_potential_le hcount) steps).symm
    _ = (m.run limit steps).run limit count := by
        rw [← run_add, ← run_add, Nat.add_comm]
    _ = m.run limit steps := run_of_halted hfinal count

/-! ### Steps that take tokens -/

/-- No step puts tokens back. -/
theorem length_tokens_le_of_move {m next : Machine} (h : Move limit m next) :
    next.stream.tokens.length ≤ m.stream.tokens.length := by
  have htaken : ∀ (ts : List Token) (rest : Stream),
      rest.tokens.length ≤ (rest.behind ts).tokens.length :=
    fun ts rest => Stream.length_tokens_behind ts rest ▸ Nat.le_add_left _ _
  cases h with
  | callSign | callArgument | callGroup | callLiteral | againOperand | doneBase | doneGroup
  | doneArgument => exact htaken _ _
  | callFail h | againFail h | doneFail h => exact h
  | _ => exact Nat.le_refl _

/-- A chain that goes on takes exactly one token, its operator. Otherwise it ends or fails. -/
theorem again_cases {l : Level} {left : Node} {m : Machine} (hm : m.control = .again l left) :
    (m.run limit 1).stream.tokens.length + 1 = m.stream.tokens.length ∨
      (m.run limit 1).control = .done left ∨
        ∃ failure, (m.run limit 1).control = .fail failure := by
  obtain ⟨control, stack, depth, s⟩ := m
  subst hm
  have hstep : step limit ⟨.again l left, stack, depth, s⟩ =
      some (proceed stack depth (repeat? l left s)) := rfl
  rw [run_succ hstep, run]
  have hmove : Move limit ⟨.again l left, stack, depth, s⟩
      (proceed stack depth (repeat? l left s)) := move_repeat? l left
  generalize proceed stack depth (repeat? l left s) = next at hmove
  cases hmove with
  | againOperand => exact .inl (by rw [Stream.length_tokens_behind, Nat.add_comm]; rfl)
  | againDone => exact .inr (.inl rfl)
  | againFail => exact .inr (.inr ⟨_, rfl⟩)

/-- Since a factor was called above the calls of `stack`, when `count` tokens were left, no token
has been taken, and no other factor has been called. -/
inductive Untouched (stack : List Frame) (count : Nat) : Machine → Prop
  | factor {depth : Nat} {s : Stream} (h : s.tokens.length = count) :
      Untouched stack count ⟨.call .factor, stack, depth, s⟩
  | signed {depth : Nat} {s : Stream} (h : s.tokens.length = count) :
      Untouched stack count ⟨.call .signed, .factor :: stack, depth, s⟩
  | power {depth : Nat} {s : Stream} (h : s.tokens.length = count) :
      Untouched stack count ⟨.call .power, .signed :: .factor :: stack, depth, s⟩
  | atom {depth : Nat} {s : Stream} (h : s.tokens.length = count) :
      Untouched stack count ⟨.call .atom, .base :: .signed :: .factor :: stack, depth, s⟩
  | fail {failure : Failure} {calls : List Frame} {depth : Nat} {s : Stream}
      (h : s.tokens.length ≤ count) : Untouched stack count ⟨.fail failure, calls, depth, s⟩

/-- Behind a factor that is called, the next thing but a failure is that a token is taken. -/
theorem Untouched.of_move {stack : List Frame} {count : Nat} {m next : Machine}
    (hm : Untouched stack count m) (h : Move limit m next) :
    Untouched stack count next ∨ next.stream.tokens.length < count := by
  have htaken : ∀ (t : Token) (ts : List Token) (rest : Stream),
      rest.tokens.length < (rest.behind (t :: ts)).tokens.length := by
    intro t ts rest
    rw [Stream.length_tokens_behind, List.length_cons]
    omega
  cases hm with
  | factor hcount =>
    cases h with
    | callFactor => exact .inl (.signed hcount)
    | callFail hle => exact .inl (.fail (hcount ▸ hle))
  | signed hcount =>
    cases h with
    | callSign => exact .inr (hcount ▸ htaken _ _ _)
    | callSigned => exact .inl (.power hcount)
    | callFail hle => exact .inl (.fail (hcount ▸ hle))
  | power hcount =>
    cases h with
    | callPower => exact .inl (.atom hcount)
    | callFail hle => exact .inl (.fail (hcount ▸ hle))
  | atom hcount =>
    cases h with
    | callArgument | callGroup | callLiteral => exact .inr (hcount ▸ htaken _ _ _)
    | callFail hle => exact .inl (.fail (hcount ▸ hle))
  | fail hcount =>
    cases h with
    | unwind => exact .inl (.fail hcount)

theorem untouched_run {stack : List Frame} {count : Nat} {m : Machine}
    (hm : Untouched stack count m ∨ m.stream.tokens.length < count) (steps : Nat) :
    Untouched stack count (m.run limit steps) ∨
      (m.run limit steps).stream.tokens.length < count := by
  induction steps generalizing m with
  | zero => exact hm
  | succ steps ih =>
    cases hstep : m.step limit with
    | none => rwa [run_of_halted hstep]
    | some next =>
      rw [run_succ hstep]
      have hmove := move_of_step hstep
      rcases hm with hm | hlt
      · exact ih (hm.of_move hmove)
      · exact ih (.inr (Nat.lt_of_le_of_lt (length_tokens_le_of_move hmove) hlt))

/-- Between the calls of two factors, one of which is inside the other, a token is taken. -/
theorem length_tokens_lt_of_nested {m : Machine} {steps : Nat} (hm : m.control = .call .factor)
    (hlater : (m.run limit steps).control = .call .factor)
    (hinside : m.stack.length < (m.run limit steps).stack.length) :
    (m.run limit steps).stream.tokens.length < m.stream.tokens.length := by
  obtain ⟨control, stack, depth, s⟩ := m
  subst hm
  have hcalled : Untouched stack s.tokens.length ⟨.call .factor, stack, depth, s⟩ := .factor rfl
  rcases untouched_run (.inl hcalled) steps with huntouched | hlt
  · generalize Machine.run limit steps _ = later at *
    cases huntouched with
    | factor => exact absurd hinside (Nat.lt_irrefl _)
    | _ => cases hlater
  · exact hlt

/-! ### What comes back -/

/-- While a factor is the innermost call, the counter is positive. -/
theorem Sound.depth_pos {m : Machine} (h : m.Sound limit) {stack : List Frame}
    (hstack : m.stack = .factor :: stack) : 0 < m.depth := by
  rw [h.depth_eq, hstack, List.count_cons_self]
  exact Nat.succ_pos _

/-- Every call comes back, with the calls that wait and the counter as they were. -/
theorem Sound.exists_run_eq_leave {m : Machine} (h : m.Sound limit) {task : Task}
    (hm : m.control = .call task) :
    ∃ more result, m.run limit more = leave m.stack m.depth result := by
  obtain ⟨control, stack, depth, s⟩ := m
  subst hm
  obtain ⟨result, more, hmore⟩ := exists_reaches_leave h.depth_le task stack s
  exact ⟨more, result, hmore⟩

/-! ### A bounded stack -/

/-- The state after a number of steps of a machine that has room for `budget` calls, the one that is
at work among them. Without a result the machine has run out of room. -/
def runWithin (limit budget : Nat) : Nat → Machine → Option Machine
  | 0, m => if m.stack.length < budget then some m else none
  | count + 1, m =>
    if m.stack.length < budget then
      match m.step limit with
      | some next => runWithin limit budget count next
      | none => some m
    else none

/-- With room for the calls that the limit admits, a machine does what it does with any room. -/
theorem Sound.runWithin_eq {m : Machine} (hm : m.Sound limit) {budget : Nat}
    (hbudget : 10 * limit + 9 < budget) (count : Nat) :
    runWithin limit budget count m = some (m.run limit count) := by
  have hroom : m.stack.length < budget := Nat.lt_of_le_of_lt hm.length_stack_le hbudget
  induction count generalizing m with
  | zero => rw [runWithin, if_pos hroom, Machine.run]
  | succ count ih =>
    rw [runWithin, if_pos hroom]
    cases hstep : m.step limit with
    | none => rw [run_of_halted hstep]
    | some next =>
      have hnext := hm.of_move (move_of_step hstep)
      rw [run_succ hstep]
      exact ih hnext (Nat.lt_of_le_of_lt hnext.length_stack_le hbudget)

end Machine

end Reckoner
