import Reckoner.Proofs.Reading.Complete
import Reckoner.Proofs.Stack.Machine

/-!
# The machine does what the readers do

A machine that calls a reader comes to the result of this reader, with the stack and the counter as
they were before the call. So it is whether the reader succeeds or fails.

## Main definitions

* `Machine.Reaches`: the machine comes to a state in some number of steps;
* `Machine.Runs depth task p`: a call of `task` with the counter at `depth` comes to the result of
  `p`.

## Main results

* `Machine.runs_factor`: a factor is read with as many factors inside as the counter leaves;
* `Machine.reaches_expression`: a machine that starts comes to the result of reading an expression.
-/

namespace Reckoner

/-- The nonterminal of a level. -/
def Level.nonterminal : Level → Nonterminal
  | .or => .complexExpr
  | .xor => .xorExpr
  | .and => .andExpr
  | .shift => .shiftExpr
  | .sum => .arithExpr
  | .product => .term

namespace Machine

variable {limit depth : Nat}

/-- The state behind a reader. -/
def leave (stack : List Frame) (depth : Nat) : EStateM.Result Failure Stream Node → Machine
  | .ok node rest => ⟨.done node, stack, depth, rest⟩
  | .error failure rest => ⟨.fail failure, stack, depth, rest⟩

theorem run_of_halted {m : Machine} (h : m.step limit = none) (count : Nat) :
    m.run limit count = m := by
  cases count with
  | zero => rfl
  | succ count => rw [run, h]

theorem run_succ {m next : Machine} (h : m.step limit = some next) (count : Nat) :
    m.run limit (count + 1) = next.run limit count := by
  rw [run, h]

theorem run_add (m : Machine) (first second : Nat) :
    m.run limit (first + second) = (m.run limit first).run limit second := by
  induction first generalizing m with
  | zero => rw [Nat.zero_add, run]
  | succ first ih =>
    cases hstep : m.step limit with
    | none => rw [run_of_halted hstep, run_of_halted hstep, run_of_halted hstep]
    | some next => rw [Nat.succ_add, run_succ hstep, run_succ hstep, ih]

/-- The machine comes to a state in some number of steps. -/
def Reaches (limit : Nat) (m m' : Machine) : Prop :=
  ∃ count, m.run limit count = m'

theorem Reaches.refl (m : Machine) : Reaches limit m m :=
  ⟨0, rfl⟩

theorem Reaches.trans {m m' m'' : Machine} (h : Reaches limit m m') (h' : Reaches limit m' m'') :
    Reaches limit m m'' := by
  obtain ⟨first, rfl⟩ := h
  obtain ⟨second, rfl⟩ := h'
  exact ⟨first + second, run_add m first second⟩

/-- A run goes on behind its first step. -/
theorem Reaches.head {m m' m'' : Machine} (h : m.step limit = some m')
    (h' : Reaches limit m' m'') : Reaches limit m m'' := by
  obtain ⟨count, rfl⟩ := h'
  exact ⟨count + 1, run_succ h count⟩

/-- A call of the task comes to the result of the reader, whatever waits for it. -/
def Runs (limit depth : Nat) (task : Task) (p : Parse Stream Node) : Prop :=
  ∀ (stack : List Frame) (s : Stream),
    Reaches limit ⟨.call task, stack, depth, s⟩ (leave stack depth (p s))

/-- A call that waits for a reader comes to what it does behind that reader: `frame` is the call,
and `p` and `f` are what is done for it and by it. -/
theorem reaches_bind {task : Task} {p : Parse Stream Node} {f : Node → Parse Stream Node}
    {frame : Frame} {stack : List Frame} {inner outer : Nat} {s : Stream}
    (hp : Runs limit inner task p)
    (hrestore : frame.restore inner = outer)
    (hf : ∀ node rest, Reaches limit ⟨.done node, frame :: stack, inner, rest⟩
      (leave stack outer (f node rest))) :
    Reaches limit ⟨.call task, frame :: stack, inner, s⟩ (leave stack outer ((p >>= f) s)) := by
  refine (hp (frame :: stack) s).trans ?_
  cases hresult : p s with
  | ok node rest =>
    rw [Parse.bind_of_ok hresult]
    exact hf node rest
  | error failure rest =>
    -- the failure is passed on, and the call that waited ends with it
    rw [Parse.bind_of_error hresult]
    exact .head rfl (hrestore ▸ .refl _)

/-- A machine that looks at the next token fails if there is none to be read. -/
theorem reaches_peek_bind {m : Machine} {stack : List Frame} {s : Stream}
    {work : Token → Parse Stream (List Frame × Control)} {f : Token → Parse Stream Node}
    (hstep : m.step limit = some (proceed stack depth ((Parse.peek >>= work) s)))
    (hf : ∀ t, s.head = .ok t →
      Reaches limit (proceed stack depth (work t s)) (leave stack depth (f t s))) :
    Reaches limit m (leave stack depth ((Parse.peek >>= f) s)) := by
  refine .head hstep ?_
  cases hhead : s.head with
  | ok t =>
    rw [Parse.peek_bind hhead, Parse.peek_bind hhead]
    exact hf t hhead
  | error error =>
    have hpeek := Parse.peek_of_head_error hhead
    rw [Parse.bind_of_error hpeek, Parse.bind_of_error hpeek]
    exact .refl _

/-- A machine does what comes first as the reader does. -/
theorem reaches_proceed_bind {α : Type} {stack : List Frame} {s : Stream} {p : Parse Stream α}
    {work : α → Parse Stream (List Frame × Control)} {f : α → Parse Stream Node}
    (hf : ∀ a rest, Reaches limit (proceed stack depth (work a rest))
      (leave stack depth (f a rest))) :
    Reaches limit (proceed stack depth ((p >>= work) s)) (leave stack depth ((p >>= f) s)) := by
  cases hresult : p s with
  | ok a rest =>
    rw [Parse.bind_of_ok hresult, Parse.bind_of_ok hresult]
    exact hf a rest
  | error failure rest =>
    rw [Parse.bind_of_error hresult, Parse.bind_of_error hresult]
    exact .refl _

/-- A node is checked as by the reader. -/
theorem reaches_checked (node : Node) (stack : List Frame) (s : Stream) :
    Reaches limit
      (proceed stack depth
        ((do return ([], .done (← Parse.checked limit node)) : Parse Stream _) s))
      (leave stack depth (Parse.checked limit node s)) := by
  cases hchecked : Parse.checked limit node s with
  | ok node' rest =>
    rw [Parse.bind_of_ok hchecked]
    exact .refl _
  | error failure rest =>
    rw [Parse.bind_of_error hchecked]
    exact .refl _

/-- A chain goes on as its reader does. The induction is on what is left of the limit on the height,
as for the reader. -/
theorem reaches_chain {l : Level} {p : Parse Stream Node} (hp : Runs limit depth l.operand p)
    (left : Node) (stack : List Frame) (s : Stream) :
    Reaches limit ⟨.again l left, stack, depth, s⟩
      (leave stack depth (Parse.chain limit l p left s)) := by
  induction hk : limit - left.height using Nat.strongRecOn generalizing left s with
  | ind k ih =>
    rw [Parse.chain]
    refine reaches_peek_bind rfl fun t hhead => ?_
    split
    case isFalse => exact .refl _
    case isTrue =>
      refine reaches_proceed_bind fun _ rest => ?_
      refine reaches_bind hp rfl fun node rest' => .head rfl ?_
      rw [resume]
      split
      case isTrue hle =>
        refine ih _ ?_ _ rest' rfl
        simp only [Node.binary] at hle ⊢
        omega
      case isFalse => exact .refl _

theorem runs_level {l : Level} {p : Parse Stream Node} (hp : Runs limit depth l.operand p) :
    Runs limit depth (.level l) (do Parse.chain limit l p (← p)) :=
  fun stack _ => .head rfl <| reaches_bind hp rfl fun node rest =>
    .head rfl (reaches_chain hp node stack rest)

variable {inner : Parse Stream Node}

/-- The operators of a level are read as those of its nonterminal. -/
theorem runs_reader (hinner : Runs limit depth .factor inner) (l : Level) :
    Runs limit depth (.level l) (l.nonterminal.reader limit inner) := by
  have hproduct : Runs limit depth (.level .product) _ := runs_level hinner
  have hsum : Runs limit depth (.level .sum) _ := runs_level hproduct
  have hshift : Runs limit depth (.level .shift) _ := runs_level hsum
  have hand : Runs limit depth (.level .and) _ := runs_level hshift
  have hxor : Runs limit depth (.level .xor) _ := runs_level hand
  cases l with
  | or => exact runs_level hxor
  | xor => exact hxor
  | and => exact hand
  | shift => exact hshift
  | sum => exact hsum
  | product => exact hproduct

theorem runs_expression (hinner : Runs limit depth .factor inner) :
    Runs limit depth (.level .or) (Parse.expression limit inner) :=
  runs_reader hinner .or

theorem runs_atom (hinner : Runs limit depth .factor inner) :
    Runs limit depth .atom (Parse.atom limit inner) := by
  intro stack s
  refine reaches_peek_bind rfl fun t _ => ?_
  split
  case isTrue =>
    refine reaches_proceed_bind fun _ _ => ?_
    refine reaches_proceed_bind fun _ _ => ?_
    refine reaches_bind (runs_expression hinner) rfl fun node _ => .head rfl ?_
    exact reaches_proceed_bind fun _ rest => reaches_checked _ stack rest
  case isFalse =>
    split
    case isTrue =>
      refine reaches_proceed_bind fun _ _ => ?_
      refine reaches_bind (runs_expression hinner) rfl fun node _ => .head rfl ?_
      exact reaches_proceed_bind fun _ _ => .refl _
    case isFalse =>
      split
      case isTrue => exact reaches_proceed_bind fun _ _ => .refl _
      case isFalse => exact .refl _

theorem runs_power (hinner : Runs limit depth .factor inner) :
    Runs limit depth .power (Parse.power limit inner) := by
  refine fun stack s => .head rfl <| reaches_bind (runs_atom hinner) rfl fun base _ => ?_
  refine reaches_peek_bind rfl fun t _ => ?_
  split
  case isTrue =>
    refine reaches_proceed_bind fun _ _ => ?_
    exact reaches_bind hinner rfl fun exponent rest => .head rfl (reaches_checked _ stack rest)
  case isFalse => exact .refl _

theorem runs_signed (hinner : Runs limit depth .factor inner) :
    Runs limit depth .signed (Parse.signed limit inner) := by
  intro stack s
  refine reaches_peek_bind rfl fun t _ => ?_
  split
  case isTrue =>
    refine reaches_proceed_bind fun _ _ => ?_
    exact reaches_bind hinner rfl fun operand rest => .head rfl (reaches_checked _ stack rest)
  case isFalse =>
    -- the power is all that there is, so that what waits for it only passes it on
    rw [← bind_pure (Parse.power limit inner)]
    exact reaches_bind (runs_power hinner) rfl fun node rest => .head rfl (.refl _)

/-- A factor is read with as many factors inside one another as the counter leaves. -/
theorem runs_factor {left : Nat} (h : depth + left = limit) :
    Runs limit depth .factor (Parse.factor limit left) := by
  induction left generalizing depth with
  | zero =>
    intro stack s
    have hstep : step limit ⟨.call .factor, stack, depth, s⟩ =
        some (proceed stack depth ((do Parse.tooDeep (← Parse.peek).span : Parse Stream _) s)) :=
      if_pos (by omega)
    exact reaches_peek_bind hstep fun t _ => .refl _
  | succ left ih =>
    intro stack s
    have hstep : step limit ⟨.call .factor, stack, depth, s⟩ =
        some ⟨.call .signed, .factor :: stack, depth + 1, s⟩ :=
      if_neg (by omega)
    -- the counter is one more inside, and as before behind the factor
    have hfactor : Runs limit (depth + 1) .factor (Parse.factor limit left) := ih (by omega)
    rw [Parse.factor, ← bind_pure (Parse.signed limit _)]
    exact .head hstep <| reaches_bind (runs_signed hfactor) rfl fun node rest =>
      .head rfl (.refl _)

/-- A machine that starts comes to the result of reading an expression, with nothing on its stack
and no factor open. -/
theorem reaches_expression (limit : Nat) (s : Stream) :
    Reaches limit (start s)
      (leave [] 0 (Parse.expression limit (Parse.factor limit limit) s)) :=
  runs_expression (runs_factor (Nat.zero_add limit)) [] s

/-- A call comes back with the stack and the counter as they were, whether it succeeds or fails. -/
theorem exists_reaches_leave (h : depth ≤ limit) (task : Task) (stack : List Frame) (s : Stream) :
    ∃ result, Reaches limit ⟨.call task, stack, depth, s⟩ (leave stack depth result) := by
  have hfactor : Runs limit depth .factor (Parse.factor limit (limit - depth)) :=
    runs_factor (Nat.add_sub_cancel' h)
  cases task with
  | level l => exact ⟨_, runs_reader hfactor l stack s⟩
  | factor => exact ⟨_, hfactor stack s⟩
  | signed => exact ⟨_, runs_signed hfactor stack s⟩
  | power => exact ⟨_, runs_power hfactor stack s⟩
  | atom => exact ⟨_, runs_atom hfactor stack s⟩

end Machine

end Reckoner
