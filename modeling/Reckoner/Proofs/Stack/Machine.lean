import Reckoner.Proofs.Reading.Step

/-!
# Reading with an explicit stack

The readers of expressions call one another. A `Machine` does what they do one step at a time, with
the calls that wait for another one on a stack of its own, and with a counter for the factors among
them. What a reader needs of the machine it runs on can be read off its states: the length of the
stack, the value of the counter, and the number of steps.

## Main definitions

* `Task`, `Frame` and `Control`: a reader that may be called, a call that waits for another one, and
  what is being done;
* `Machine.step` and `Machine.run`: one step, and a number of them;
* `Move`: everything that a step can do.

## Main results

* `Machine.move_of_step`: a step is one of the moves.
-/

namespace Reckoner

/-- A reader that may be called. -/
inductive Task where
  /-- The operands and operators of a level. -/
  | level (l : Level)
  /-- A factor. -/
  | factor
  /-- What a factor is: a sign in front of a factor, or a power. -/
  | signed
  /-- A power. -/
  | power
  /-- An atom. -/
  | atom
  deriving DecidableEq, Repr

/-- The reader of the operands of a level. -/
def Level.operand : Level → Task
  | .or => .level .xor
  | .xor => .level .and
  | .and => .level .shift
  | .shift => .level .sum
  | .sum => .level .product
  | .product => .factor

/-- A call that waits for the node that another one reads. -/
inductive Frame where
  /-- A chain waits for its first operand. -/
  | level (l : Level)
  /-- A chain waits for the operand behind an operator. -/
  | operand (l : Level) (operator : Token) (left : Node)
  /-- A factor waits for what it is. -/
  | factor
  /-- A factor without a sign waits for the power that it is. -/
  | signed
  /-- A factor with a sign waits for its operand. -/
  | sign (operator : Token)
  /-- A power waits for its base. -/
  | base
  /-- A power waits for its exponent. -/
  | exponent (operator : Token) (base : Node)
  /-- An atom waits for the expression in its parentheses. -/
  | group
  /-- An atom waits for the argument of its function. -/
  | argument (name : Token)
  deriving DecidableEq, Repr

/-- What is being done. -/
inductive Control where
  /-- A reader begins. -/
  | call (task : Task)
  /-- A chain looks for another operator. -/
  | again (l : Level) (left : Node)
  /-- A reader has ended with a node. -/
  | done (node : Node)
  /-- A reader has failed. -/
  | fail (failure : Failure)
  deriving DecidableEq, Repr

/-- A reader in the midst of its work. -/
structure Machine where
  /-- What is being done. -/
  control : Control
  /-- The calls that wait, the innermost one first. -/
  stack : List Frame
  /-- The counter of the factors that are open. -/
  depth : Nat
  /-- What is left to read. -/
  stream : Stream
  deriving DecidableEq, Repr

/-- The counter behind a call that ends: a factor is closed, whether it was read or has failed. -/
def Frame.restore : Frame → Nat → Nat
  | factor, depth => depth - 1
  | _, depth => depth

namespace Machine

/-- How a reader begins: the calls that have to wait from now on, and what is done next. A factor
looks at the counter first, which is up to the machine. -/
def enter : Task → Parse Stream (List Frame × Control)
  | .level l => return ([.level l], .call l.operand)
  | .factor => return ([.factor], .call .signed)
  | .signed => do
    let token ← Parse.peek
    if token.kind.isSign then
      Parse.advance
      return ([.sign token], .call .factor)
    else return ([.signed], .call .power)
  | .power => return ([.base], .call .atom)
  | .atom => do
    let token ← Parse.peek
    if token.kind.isFunction then
      Parse.advance
      Parse.expect .leftParen
      return ([.argument token], .call (.level .or))
    else if token.kind = .leftParen then
      Parse.advance
      return ([.group], .call (.level .or))
    else if token.kind.isLiteral then
      Parse.advance
      return ([], .done (.literal token))
    else throw (.grammar (.missingOperand token))

/-- How a chain goes on behind its left operand. -/
def repeat? (l : Level) (left : Node) : Parse Stream (List Frame × Control) := do
  let token ← Parse.peek
  if l.holds token.kind then
    Parse.advance
    return ([.operand l token left], .call l.operand)
  else return ([], .done left)

/-- How a call goes on with the node that it has waited for. -/
def resume (limit : Nat) (node : Node) : Frame → Parse Stream (List Frame × Control)
  | .level l => return ([], .again l node)
  | .operand l operator left =>
    if (Node.binary operator left node).height ≤ limit then
      return ([], .again l (.binary operator left node))
    else Parse.tooDeep operator.span
  | .factor | .signed => return ([], .done node)
  | .sign operator => do
    return ([], .done (← Parse.checked limit (.unary operator node)))
  | .base => do
    let token ← Parse.peek
    if token.kind = .operator .power then
      Parse.advance
      return ([.exponent token node], .call .factor)
    else return ([], .done node)
  | .exponent operator base => do
    return ([], .done (← Parse.checked limit (.binary operator base node)))
  | .group => do
    Parse.expect .rightParen
    return ([], .done node)
  | .argument name => do
    Parse.expect .rightParen
    return ([], .done (← Parse.checked limit (.application name node)))

/-- The state behind a piece of work above the calls of `stack`. -/
def proceed (stack : List Frame) (depth : Nat) :
    EStateM.Result Failure Stream (List Frame × Control) → Machine
  | .ok (frames, control) rest => ⟨control, frames ++ stack, depth, rest⟩
  | .error failure rest => ⟨.fail failure, stack, depth, rest⟩

/-- One step, if the machine has not halted. The counter goes up when a factor is opened, and down
when it is closed or given up. -/
def step (limit : Nat) : Machine → Option Machine
  | ⟨.call .factor, stack, depth, s⟩ =>
    if depth = limit then
      some (proceed stack depth ((do Parse.tooDeep (← Parse.peek).span : Parse Stream _) s))
    else some (proceed stack (depth + 1) (enter .factor s))
  | ⟨.call task, stack, depth, s⟩ => some (proceed stack depth (enter task s))
  | ⟨.again l left, stack, depth, s⟩ => some (proceed stack depth (repeat? l left s))
  | ⟨.done node, frame :: stack, depth, s⟩ =>
    some (proceed stack (frame.restore depth) (resume limit node frame s))
  | ⟨.fail failure, frame :: stack, depth, s⟩ =>
    some ⟨.fail failure, stack, frame.restore depth, s⟩
  | ⟨.done _, [], _, _⟩ | ⟨.fail _, [], _, _⟩ => none

/-- The state after a number of steps. A machine that has halted stays as it is. -/
def run (limit : Nat) : Nat → Machine → Machine
  | 0, m => m
  | count + 1, m =>
    match m.step limit with
    | some next => run limit count next
    | none => m

/-- A machine that is about to read an expression. -/
def start (s : Stream) : Machine :=
  ⟨.call (.level .or), [], 0, s⟩

end Machine

/-- Everything that a step can do. A step that takes tokens away says so by what is left. -/
inductive Move (limit : Nat) : Machine → Machine → Prop
  /-- A chain calls the reader of its first operand. -/
  | callLevel {l : Level} {stack : List Frame} {depth : Nat} {s : Stream} :
      Move limit ⟨.call (.level l), stack, depth, s⟩ ⟨.call l.operand, .level l :: stack, depth, s⟩
  /-- A factor is opened. -/
  | callFactor {stack : List Frame} {depth : Nat} {s : Stream} (h : depth ≠ limit) :
      Move limit ⟨.call .factor, stack, depth, s⟩ ⟨.call .signed, .factor :: stack, depth + 1, s⟩
  /-- A sign is taken. -/
  | callSign {t : Token} {stack : List Frame} {depth : Nat} {rest : Stream} :
      Move limit ⟨.call .signed, stack, depth, rest.behind [t]⟩
        ⟨.call .factor, .sign t :: stack, depth, rest⟩
  /-- There is no sign. -/
  | callSigned {stack : List Frame} {depth : Nat} {s : Stream} :
      Move limit ⟨.call .signed, stack, depth, s⟩ ⟨.call .power, .signed :: stack, depth, s⟩
  /-- A power calls the reader of its base. -/
  | callPower {stack : List Frame} {depth : Nat} {s : Stream} :
      Move limit ⟨.call .power, stack, depth, s⟩ ⟨.call .atom, .base :: stack, depth, s⟩
  /-- A name and a parenthesis are taken. -/
  | callArgument {name opening : Token} {stack : List Frame} {depth : Nat} {rest : Stream} :
      Move limit ⟨.call .atom, stack, depth, rest.behind [name, opening]⟩
        ⟨.call (.level .or), .argument name :: stack, depth, rest⟩
  /-- A parenthesis is taken. -/
  | callGroup {opening : Token} {stack : List Frame} {depth : Nat} {rest : Stream} :
      Move limit ⟨.call .atom, stack, depth, rest.behind [opening]⟩
        ⟨.call (.level .or), .group :: stack, depth, rest⟩
  /-- A literal is taken. -/
  | callLiteral {t : Token} {stack : List Frame} {depth : Nat} {rest : Stream} :
      Move limit ⟨.call .atom, stack, depth, rest.behind [t]⟩
        ⟨.done (.literal t), stack, depth, rest⟩
  /-- A chain takes an operator and calls the reader of the operand behind it. -/
  | againOperand {l : Level} {left : Node} {t : Token} {stack : List Frame} {depth : Nat}
      {rest : Stream} :
      Move limit ⟨.again l left, stack, depth, rest.behind [t]⟩
        ⟨.call l.operand, .operand l t left :: stack, depth, rest⟩
  /-- A chain ends. -/
  | againDone {l : Level} {left : Node} {stack : List Frame} {depth : Nat} {s : Stream} :
      Move limit ⟨.again l left, stack, depth, s⟩ ⟨.done left, stack, depth, s⟩
  /-- A chain has its first operand. -/
  | doneLevel {l : Level} {node : Node} {stack : List Frame} {depth : Nat} {s : Stream} :
      Move limit ⟨.done node, .level l :: stack, depth, s⟩ ⟨.again l node, stack, depth, s⟩
  /-- A chain has another operand. -/
  | doneOperand {l : Level} {t : Token} {left node : Node} {stack : List Frame} {depth : Nat}
      {s : Stream} (h : (Node.binary t left node).height ≤ limit) :
      Move limit ⟨.done node, .operand l t left :: stack, depth, s⟩
        ⟨.again l (.binary t left node), stack, depth, s⟩
  /-- A factor is closed. -/
  | doneFactor {node : Node} {stack : List Frame} {depth : Nat} {s : Stream} :
      Move limit ⟨.done node, .factor :: stack, depth, s⟩ ⟨.done node, stack, depth - 1, s⟩
  /-- A factor is the power that was read. -/
  | doneSigned {node : Node} {stack : List Frame} {depth : Nat} {s : Stream} :
      Move limit ⟨.done node, .signed :: stack, depth, s⟩ ⟨.done node, stack, depth, s⟩
  /-- A sign has its operand. -/
  | doneSign {t : Token} {node : Node} {stack : List Frame} {depth : Nat} {s : Stream}
      (h : (Node.unary t node).height ≤ limit) :
      Move limit ⟨.done node, .sign t :: stack, depth, s⟩ ⟨.done (.unary t node), stack, depth, s⟩
  /-- A power takes its operator and calls the reader of its exponent. -/
  | doneBase {t : Token} {node : Node} {stack : List Frame} {depth : Nat} {rest : Stream} :
      Move limit ⟨.done node, .base :: stack, depth, rest.behind [t]⟩
        ⟨.call .factor, .exponent t node :: stack, depth, rest⟩
  /-- A power is its base. -/
  | donePower {node : Node} {stack : List Frame} {depth : Nat} {s : Stream} :
      Move limit ⟨.done node, .base :: stack, depth, s⟩ ⟨.done node, stack, depth, s⟩
  /-- A power has its exponent. -/
  | doneExponent {t : Token} {base node : Node} {stack : List Frame} {depth : Nat} {s : Stream}
      (h : (Node.binary t base node).height ≤ limit) :
      Move limit ⟨.done node, .exponent t base :: stack, depth, s⟩
        ⟨.done (.binary t base node), stack, depth, s⟩
  /-- A closing parenthesis is taken. -/
  | doneGroup {node : Node} {closing : Token} {stack : List Frame} {depth : Nat} {rest : Stream} :
      Move limit ⟨.done node, .group :: stack, depth, rest.behind [closing]⟩
        ⟨.done node, stack, depth, rest⟩
  /-- A closing parenthesis is taken behind the argument of a function. -/
  | doneArgument {name closing : Token} {node : Node} {stack : List Frame} {depth : Nat}
      {rest : Stream} (h : (Node.application name node).height ≤ limit) :
      Move limit ⟨.done node, .argument name :: stack, depth, rest.behind [closing]⟩
        ⟨.done (.application name node), stack, depth, rest⟩
  /-- A reader fails as it begins. -/
  | callFail {task : Task} {failure : Failure} {stack : List Frame} {depth : Nat} {s rest : Stream}
      (h : rest.tokens.length ≤ s.tokens.length) :
      Move limit ⟨.call task, stack, depth, s⟩ ⟨.fail failure, stack, depth, rest⟩
  /-- A chain fails behind an operator. -/
  | againFail {l : Level} {left : Node} {failure : Failure} {stack : List Frame} {depth : Nat}
      {s rest : Stream} (h : rest.tokens.length ≤ s.tokens.length) :
      Move limit ⟨.again l left, stack, depth, s⟩ ⟨.fail failure, stack, depth, rest⟩
  /-- A call fails with the node that it has waited for. -/
  | doneFail {node : Node} {frame : Frame} {failure : Failure} {stack : List Frame} {depth : Nat}
      {s rest : Stream} (h : rest.tokens.length ≤ s.tokens.length) :
      Move limit ⟨.done node, frame :: stack, depth, s⟩
        ⟨.fail failure, stack, frame.restore depth, rest⟩
  /-- A call fails since the one that it has waited for did. -/
  | unwind {frame : Frame} {failure : Failure} {stack : List Frame} {depth : Nat} {s : Stream} :
      Move limit ⟨.fail failure, frame :: stack, depth, s⟩
        ⟨.fail failure, stack, frame.restore depth, s⟩

namespace Machine

section Proceed

variable {limit count depth : Nat} {m : Machine} {stack : List Frame} {s : Stream}

/-- Looking at the next token comes first: the work fails if there is none to be read. -/
theorem move_peek_bind {f : Token → Parse Stream (List Frame × Control)}
    (hfail : ∀ ⦃failure rest⦄, rest.tokens.length ≤ count →
      Move limit m ⟨.fail failure, stack, depth, rest⟩)
    (hs : s.tokens.length ≤ count)
    (hf : ∀ ⦃t⦄, s.head = .ok t → Move limit m (proceed stack depth (f t s))) :
    Move limit m (proceed stack depth ((Parse.peek >>= f) s)) := by
  cases hhead : s.head with
  | ok t =>
    rw [Parse.peek_bind hhead]
    exact hf hhead
  | error error =>
    rw [Parse.bind_of_error (Parse.peek_of_head_error hhead)]
    exact hfail hs

/-- The token is gone even if none can be read behind it. -/
theorem move_advance_bind {t : Token} {f : Unit → Parse Stream (List Frame × Control)}
    (hfail : ∀ ⦃failure rest⦄, rest.tokens.length ≤ count →
      Move limit m ⟨.fail failure, stack, depth, rest⟩)
    (hs : s.tokens.length ≤ count) (hhead : s.head = .ok t) (ht : t.kind ≠ .endOfInput)
    (hf : ∀ ⦃rest⦄, s = rest.behind [t] → Move limit m (proceed stack depth (f () rest))) :
    Move limit m (proceed stack depth ((Parse.advance >>= f) s)) := by
  obtain ⟨rest, rfl⟩ := Stream.exists_behind_of_head hhead ht
  cases hrest : rest.head with
  | ok next =>
    rw [Parse.bind_of_ok (Parse.advance_of_ok hrest)]
    exact hf rfl
  | error error =>
    rw [Parse.bind_of_error (Parse.advance_of_error hrest)]
    exact hfail (Nat.le_trans (by simp [Stream.behind]) hs)

theorem move_expect_bind {kind : Kind} {f : Unit → Parse Stream (List Frame × Control)}
    (hfail : ∀ ⦃failure rest⦄, rest.tokens.length ≤ count →
      Move limit m ⟨.fail failure, stack, depth, rest⟩)
    (hs : s.tokens.length ≤ count) (hkind : kind ≠ .endOfInput)
    (hf : ∀ ⦃t rest⦄, s = rest.behind [t] → Move limit m (proceed stack depth (f () rest))) :
    Move limit m (proceed stack depth ((Parse.expect kind >>= f) s)) := by
  rw [Parse.expect, bind_assoc]
  refine move_peek_bind hfail hs fun t hhead => ?_
  split
  case isTrue ht => exact move_advance_bind hfail hs hhead (ht ▸ hkind) fun rest hrest => hf hrest
  case isFalse => exact hfail hs

/-- A node that is checked is passed on if it is not too high. -/
theorem move_checked_bind {node : Node} {f : Node → Parse Stream (List Frame × Control)}
    (hfail : ∀ ⦃failure rest⦄, rest.tokens.length ≤ count →
      Move limit m ⟨.fail failure, stack, depth, rest⟩)
    (hs : s.tokens.length ≤ count)
    (hf : node.height ≤ limit → Move limit m (proceed stack depth (f node s))) :
    Move limit m (proceed stack depth ((Parse.checked limit node >>= f) s)) := by
  rcases Nat.lt_or_ge limit node.height with hlt | hle
  · rw [Parse.bind_of_error (Parse.checked_of_lt hlt s)]
    exact hfail hs
  · rw [Parse.bind_of_ok (Parse.checked_of_le hle s)]
    exact hf hle

end Proceed

variable {limit depth : Nat} {stack : List Frame} {s : Stream}

/-- How a reader begins that looks at no counter. -/
theorem move_enter {task : Task} (hfactor : task ≠ .factor) :
    Move limit ⟨.call task, stack, depth, s⟩ (proceed stack depth (enter task s)) := by
  have hfail : ∀ ⦃failure rest⦄, rest.tokens.length ≤ s.tokens.length →
      Move limit ⟨.call task, stack, depth, s⟩ ⟨.fail failure, stack, depth, rest⟩ :=
    fun _ _ => .callFail
  cases task with
  | level l => exact .callLevel
  | factor => exact absurd rfl hfactor
  | power => exact .callPower
  | signed =>
    refine move_peek_bind hfail (Nat.le_refl _) fun t hhead => ?_
    split
    case isTrue hsign =>
      have hkind := Kind.ne_endOfInput_of hsign rfl
      refine move_advance_bind hfail (Nat.le_refl _) hhead hkind ?_
      rintro rest rfl
      exact .callSign
    case isFalse => exact .callSigned
  | atom =>
    refine move_peek_bind hfail (Nat.le_refl _) fun t hhead => ?_
    split
    case isTrue hfunction =>
      have hkind := Kind.ne_endOfInput_of hfunction rfl
      refine move_advance_bind hfail (Nat.le_refl _) hhead hkind ?_
      rintro rest rfl
      refine move_expect_bind hfail (by simp [Stream.behind]) (by decide) ?_
      rintro opening rest rfl
      exact Stream.behind_behind _ _ rest ▸ .callArgument
    case isFalse =>
      split
      case isTrue hopening =>
        refine move_advance_bind hfail (Nat.le_refl _) hhead (by simp [hopening]) ?_
        rintro rest rfl
        exact .callGroup
      case isFalse =>
        split
        case isTrue hliteral =>
          have hkind := Kind.ne_endOfInput_of hliteral rfl
          refine move_advance_bind hfail (Nat.le_refl _) hhead hkind ?_
          rintro rest rfl
          exact .callLiteral
        case isFalse => exact hfail (Nat.le_refl _)

theorem move_repeat? (l : Level) (left : Node) :
    Move limit ⟨.again l left, stack, depth, s⟩ (proceed stack depth (repeat? l left s)) := by
  have hfail : ∀ ⦃failure rest⦄, rest.tokens.length ≤ s.tokens.length →
      Move limit ⟨.again l left, stack, depth, s⟩ ⟨.fail failure, stack, depth, rest⟩ :=
    fun _ _ => .againFail
  refine move_peek_bind hfail (Nat.le_refl _) fun t hhead => ?_
  split
  case isTrue hholds =>
    have hkind := Kind.ne_endOfInput_of hholds rfl
    refine move_advance_bind hfail (Nat.le_refl _) hhead hkind ?_
    rintro rest rfl
    exact .againOperand
  case isFalse => exact .againDone

theorem move_resume (node : Node) (frame : Frame) :
    Move limit ⟨.done node, frame :: stack, depth, s⟩
      (proceed stack (frame.restore depth) (resume limit node frame s)) := by
  have hfail : ∀ ⦃failure rest⦄, rest.tokens.length ≤ s.tokens.length →
      Move limit ⟨.done node, frame :: stack, depth, s⟩
        ⟨.fail failure, stack, frame.restore depth, rest⟩ :=
    fun _ _ => .doneFail
  cases frame with
  | level l => exact .doneLevel
  | factor => exact .doneFactor
  | signed => exact .doneSigned
  | operand l t left =>
    rw [resume]
    split
    case isTrue hle => exact .doneOperand hle
    case isFalse => exact hfail (Nat.le_refl _)
  | sign t => exact move_checked_bind hfail (Nat.le_refl _) fun hle => .doneSign hle
  | base =>
    refine move_peek_bind hfail (Nat.le_refl _) fun t hhead => ?_
    split
    case isTrue hkind =>
      refine move_advance_bind hfail (Nat.le_refl _) hhead (by simp [hkind]) ?_
      rintro rest rfl
      exact .doneBase
    case isFalse => exact .donePower
  | exponent t base => exact move_checked_bind hfail (Nat.le_refl _) fun hle => .doneExponent hle
  | group =>
    refine move_expect_bind hfail (Nat.le_refl _) (by decide) ?_
    rintro closing rest rfl
    exact .doneGroup
  | argument name =>
    refine move_expect_bind hfail (Nat.le_refl _) (by decide) ?_
    rintro closing rest rfl
    exact move_checked_bind hfail (by simp [Stream.behind]) fun hle => .doneArgument hle

/-- A step is one of the moves. -/
theorem move_of_step {m next : Machine} (h : m.step limit = some next) : Move limit m next := by
  obtain ⟨control, stack, depth, s⟩ := m
  cases control with
  | call task =>
    by_cases hfactor : task = .factor
    · subst hfactor
      rw [step] at h
      split at h
      case isTrue =>
        obtain rfl := Option.some.inj h
        exact move_peek_bind (fun _ _ => .callFail) (Nat.le_refl _) fun _ _ =>
          .callFail (Nat.le_refl _)
      case isFalse hdepth =>
        obtain rfl := Option.some.inj h
        exact .callFactor hdepth
    · have hstep : step limit ⟨.call task, stack, depth, s⟩ =
          some (proceed stack depth (enter task s)) := by
        cases task with
        | factor => exact absurd rfl hfactor
        | level | signed | power | atom => rfl
      obtain rfl := Option.some.inj (hstep.symm.trans h)
      exact move_enter hfactor
  | again l left =>
    obtain rfl := Option.some.inj h
    exact move_repeat? l left
  | done node =>
    cases stack with
    | nil => cases h
    | cons frame stack =>
      obtain rfl := Option.some.inj h
      exact move_resume node frame
  | fail failure =>
    cases stack with
    | nil => cases h
    | cons frame stack =>
      obtain rfl := Option.some.inj h
      exact .unwind

end Machine

end Reckoner
