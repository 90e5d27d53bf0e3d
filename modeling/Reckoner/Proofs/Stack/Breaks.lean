import Reckoner.Proofs.StackSafety

/-!
# Where a limit is broken

The limits take part in two kinds of steps only: when a factor is called, and when all parts of a
node have been read. What such a step comes to under some limit can be told from the state alone. So
machines with different limits do the same up to the first state that breaks one of the limits, and
there the machine that keeps it fails.

## Main definitions

* `Machine.Completes m e`: the parts of a node have been read, and its tree would be `e`;
* `Machine.Breaks limit m`: the next step breaks a limit;
* `Machine.BreaksAt limit m span`: it does so by as little as possible, at a place in the text.

## Main results

* `Machine.step_cases`: what a step has to do with the limit;
* `Machine.step_eq_of_not_breaks`: the next step is the same under two limits up to a broken one;
* `Machine.exists_fail_iff`: a machine fails for a limit at the first state that breaks one.
-/

namespace Reckoner

/-- A tree is one higher than the trees below its root, at most. -/
theorem Expr.height_le_of_operands {e : Expr} {n : Nat}
    (h : ∀ operand ∈ e.operands, operand.height ≤ n) : e.height ≤ n + 1 := by
  unfold operands at h
  unfold height
  split at h
  all_goals simp at h ⊢
  all_goals omega

/-- The token of a call is what the call takes it for. -/
def Frame.Marked : Frame → Prop
  | operand l t _ => l.holds t.kind
  | sign t => t.kind.isSign
  | exponent t _ => t.kind = .operator .power
  | argument name => name.kind.isFunction
  | level _ | factor | signed | base | group => True

namespace Machine

/-- All parts of a node have been read, and its tree is `e`. Behind the argument of a function the
closing parenthesis is there as well, and a token behind it. -/
inductive Completes : Machine → Expr → Prop
  | operand {l : Level} {t : Token} {left node : Node} {stack : List Frame} {depth : Nat}
      {s : Stream} : Completes ⟨.done node, .operand l t left :: stack, depth, s⟩
        (.binary t left.expr node.expr)
  | sign {t : Token} {node : Node} {stack : List Frame} {depth : Nat} {s : Stream} :
      Completes ⟨.done node, .sign t :: stack, depth, s⟩ (.unary t node.expr)
  | exponent {t : Token} {base node : Node} {stack : List Frame} {depth : Nat} {s : Stream} :
      Completes ⟨.done node, .exponent t base :: stack, depth, s⟩ (.binary t base.expr node.expr)
  | argument {name closing next : Token} {node : Node} {stack : List Frame} {depth : Nat}
      {rest : Stream} (hclosing : closing.kind = .rightParen) (hnext : rest.head = .ok next) :
      Completes ⟨.done node, .argument name :: stack, depth, rest.behind [closing]⟩
        (.application name node.expr)

/-- The next step breaks a limit: it opens a factor inside too many others, or makes too high a
tree. -/
inductive Breaks (limit : Nat) (m : Machine) : Prop
  | factor (h : m.control = .call .factor) (hopen : limit ≤ m.stack.count .factor)
  | node {e : Expr} (h : m.Completes e) (hheight : limit < e.height)

/-- The next step breaks a limit by one, at the given place: a factor would have to start at the
next token, inside as many others as there may be, or the tree of an operator or a function would be
one too high, and the trees right below it are not. -/
inductive BreaksAt (limit : Nat) (m : Machine) : Span → Prop
  | factor {next : Token} (h : m.control = .call .factor)
      (hopen : m.stack.count .factor = limit) (hnext : m.stream.head = .ok next) :
      BreaksAt limit m next.span
  | node {e : Expr} (h : m.Completes e) (hheight : e.height = limit + 1)
      (hoperands : ∀ operand ∈ e.operands, operand.height ≤ limit)
      (hkind : (∃ o, e.token.kind = .operator o) ∨ ∃ f, e.token.kind = .function f) :
      BreaksAt limit m e.token.span

/-- The tokens of all calls that wait are what the calls take them for. -/
def Marked (m : Machine) : Prop :=
  ∀ frame ∈ m.stack, frame.Marked

variable {limit limit' : Nat} {m : Machine} {e : Expr} {span : Span}

theorem BreaksAt.breaks (h : m.BreaksAt limit span) : m.Breaks limit := by
  cases h with
  | factor h hopen _ => exact .factor h (Nat.le_of_eq hopen.symm)
  | node h hheight _ _ => exact .node h (by omega)

end Machine

/-! ### Work that has nothing to do with a limit -/

namespace Parse

variable {α β : Type} {P : α → Prop} {Q : β → Prop}

/-- The results of a reader have a property, and it does not fail for a limit. -/
structure Gives (P : α → Prop) (p : Parse Stream α) : Prop where
  ok : ∀ ⦃s rest : Stream⦄ ⦃a : α⦄, p s = .ok a rest → P a
  error : ∀ ⦃s rest : Stream⦄ ⦃failure : Failure⦄, p s = .error failure rest →
    ∀ span, failure ≠ .grammar (.tooDeep span)

theorem gives_pure {a : α} (h : P a) : Gives P (pure a : Parse Stream α) := by
  constructor
  · intro s rest a' hok
    cases hok
    exact h
  · intro s rest failure herror
    cases herror

theorem gives_throw {failure : Failure} (h : ∀ span, failure ≠ .grammar (.tooDeep span)) :
    Gives P (throw failure : Parse Stream α) := by
  constructor
  · intro s rest a hok
    cases hok
  · intro s rest failure' herror
    cases herror
    exact h

theorem Gives.bind {p : Parse Stream α} {f : α → Parse Stream β} (hp : Gives P p)
    (hf : ∀ a, P a → Gives Q (f a)) : Gives Q (p >>= f) := by
  constructor
  · intro s rest b hok
    cases hresult : p s with
    | ok a rest' =>
      rw [bind_of_ok hresult] at hok
      exact (hf a (hp.ok hresult)).ok hok
    | error failure rest' =>
      rw [bind_of_error hresult] at hok
      cases hok
  · intro s rest failure herror
    cases hresult : p s with
    | ok a rest' =>
      rw [bind_of_ok hresult] at herror
      exact (hf a (hp.ok hresult)).error herror
    | error failure' rest' =>
      rw [bind_of_error hresult] at herror
      cases herror
      exact hp.error hresult

theorem gives_peek : Gives (fun _ => True) peek := by
  constructor
  · intros
    trivial
  · intro s rest failure herror
    cases hhead : s.head with
    | ok t =>
      rw [peek_of_head hhead] at herror
      cases herror
    | error error =>
      rw [peek_of_head_error hhead] at herror
      cases herror
      exact nofun

theorem gives_advance : Gives (fun _ => True) advance := by
  have hpeek : Gives (fun _ => True) (discard peek : Parse Stream Unit) :=
    gives_peek.bind fun _ _ => gives_pure trivial
  constructor
  · intros
    trivial
  · intro s rest failure herror
    -- all that can fail is the look at what comes behind the token
    have hbehind : (discard peek : Parse Stream Unit) { s with tokens := s.tokens.tail } =
        .error failure rest := herror
    exact hpeek.error hbehind

theorem gives_expect (kind : Kind) : Gives (fun _ => True) (expect kind) := by
  refine gives_peek.bind fun t _ => ?_
  split
  · exact gives_advance
  · exact gives_throw nofun

/-- A token that is asked for is there with another one behind it, or the reader fails. -/
theorem expect_cases {kind : Kind} (hkind : kind ≠ .endOfInput) (s : Stream) :
    (∃ (t : Token) (rest : Stream) (next : Token), s = rest.behind [t] ∧ t.kind = kind ∧
        rest.head = .ok next) ∨
      ∃ failure rest, expect kind s = .error failure rest := by
  cases hhead : s.head with
  | error error => exact .inr ⟨_, _, bind_of_error (peek_of_head_error hhead)⟩
  | ok t =>
    by_cases ht : t.kind = kind
    · obtain ⟨rest, rfl⟩ := Stream.exists_behind_of_head hhead (ht ▸ hkind)
      cases hrest : rest.head with
      | ok next => exact .inl ⟨t, rest, next, rfl, ht, hrest⟩
      | error error => exact .inr ⟨_, _, (expect_of_eq ht rest).trans (advance_of_error hrest)⟩
    · exact .inr ⟨_, _, expect_of_ne hhead ht⟩

end Parse

namespace Machine

variable {limit limit' depth : Nat} {m next : Machine} {stack : List Frame} {s : Stream} {e : Expr}
  {span : Span}

/-- What work comes to if it does not fail: marked calls wait for another one, or no more calls are
made. -/
inductive Goes : List Frame × Control → Prop
  | call {frame : Frame} {task : Task} (h : frame.Marked) : Goes ([frame], .call task)
  | again {l : Level} {left : Node} : Goes ([], .again l left)
  | done {node : Node} : Goes ([], .done node)

theorem Goes.marked {result : List Frame × Control} (h : Goes result) :
    ∀ frame ∈ result.1, frame.Marked := by
  cases h with
  | call h => exact List.forall_mem_singleton.2 h
  | again | done => exact List.forall_mem_nil _

theorem Goes.ne_fail {result : List Frame × Control} (h : Goes result) (failure : Failure) :
    result.2 ≠ .fail failure := by
  intro heq
  cases h with
  | call | again | done => cases heq

theorem gives_enter {task : Task} (h : task ≠ .factor) : Parse.Gives Goes (enter task) := by
  cases task with
  | factor => exact absurd rfl h
  | level l => exact Parse.gives_pure (.call trivial)
  | power => exact Parse.gives_pure (.call trivial)
  | signed =>
    refine Parse.gives_peek.bind fun t _ => ?_
    split
    case isTrue hsign => exact Parse.gives_advance.bind fun _ _ => Parse.gives_pure (.call hsign)
    case isFalse => exact Parse.gives_pure (.call trivial)
  | atom =>
    refine Parse.gives_peek.bind fun t _ => ?_
    split
    case isTrue hfunction =>
      refine Parse.gives_advance.bind fun _ _ => (Parse.gives_expect _).bind fun _ _ => ?_
      exact Parse.gives_pure (.call hfunction)
    case isFalse =>
      split
      · exact Parse.gives_advance.bind fun _ _ => Parse.gives_pure (.call trivial)
      · split
        · exact Parse.gives_advance.bind fun _ _ => Parse.gives_pure .done
        · exact Parse.gives_throw nofun

theorem gives_repeat? (l : Level) (left : Node) : Parse.Gives Goes (repeat? l left) := by
  refine Parse.gives_peek.bind fun t _ => ?_
  split
  case isTrue hholds => exact Parse.gives_advance.bind fun _ _ => Parse.gives_pure (.call hholds)
  case isFalse => exact Parse.gives_pure .done

/-- Of the calls that wait, those that complete no node go on in a way that has nothing to do with a
limit. -/
theorem gives_resume (node : Node) :
    (∀ l, Parse.Gives Goes (resume limit node (.level l))) ∧
    Parse.Gives Goes (resume limit node .factor) ∧ Parse.Gives Goes (resume limit node .signed) ∧
    Parse.Gives Goes (resume limit node .base) ∧ Parse.Gives Goes (resume limit node .group) := by
  refine ⟨fun l => Parse.gives_pure .again, Parse.gives_pure .done, Parse.gives_pure .done, ?_, ?_⟩
  · refine Parse.gives_peek.bind fun t _ => ?_
    split
    case isTrue hpower => exact Parse.gives_advance.bind fun _ _ => Parse.gives_pure (.call hpower)
    case isFalse => exact Parse.gives_pure .done
  · exact (Parse.gives_expect _).bind fun _ _ => Parse.gives_pure .done

/-- The next step is the same under every limit. It makes no calls but marked ones, and fails for a
limit only if that has happened before. -/
structure Unlimited (m : Machine) : Prop where
  step_eq : ∀ limit limit', m.step limit = m.step limit'
  marked : ∀ ⦃limit next⦄, m.step limit = some next → m.Marked → next.Marked
  failed : ∀ ⦃limit next span⦄, m.step limit = some next →
    next.control = .fail (.grammar (.tooDeep span)) →
      m.control = .fail (.grammar (.tooDeep span))

theorem unlimited_of_halted (h : ∀ limit, m.step limit = none) : m.Unlimited := by
  constructor
  · intro limit limit'
    rw [h, h]
  · intro limit next hnext
    rw [h] at hnext
    cases hnext
  · intro limit next span hnext
    rw [h] at hnext
    cases hnext

/-- Work that has nothing to do with a limit makes a step that has not. -/
theorem unlimited_of_gives {work : Parse Stream (List Frame × Control)}
    (hwork : Parse.Gives Goes work)
    (hstep : ∀ limit, m.step limit = some (proceed stack depth (work s)))
    (hstack : stack ⊆ m.stack) : m.Unlimited := by
  have hmarked : m.Marked → ∀ frame ∈ stack, frame.Marked :=
    fun hmarked frame hframe => hmarked frame (hstack hframe)
  constructor
  · intro limit limit'
    rw [hstep, hstep]
  · intro limit next hnext hm
    rw [hstep, Option.some.injEq] at hnext
    subst hnext
    cases hresult : work s with
    | ok result rest =>
      exact List.forall_mem_append.2 ⟨(hwork.ok hresult).marked, hmarked hm⟩
    | error failure rest => exact hmarked hm
  · intro limit next span hnext hfail
    rw [hstep, Option.some.injEq] at hnext
    subst hnext
    cases hresult : work s with
    | ok result rest =>
      rw [hresult] at hfail
      exact absurd hfail ((hwork.ok hresult).ne_fail _)
    | error failure rest =>
      rw [hresult] at hfail
      exact absurd (Control.fail.inj hfail) (hwork.error hresult span)

/-- A state that completes nothing goes on with a node in a way that has nothing to do with a
limit. -/
theorem unlimited_done {node : Node} {frame : Frame}
    (h : ∀ e, ¬Completes ⟨.done node, frame :: stack, depth, s⟩ e) :
    Unlimited ⟨.done node, frame :: stack, depth, s⟩ := by
  have hstack : stack ⊆ frame :: stack := List.subset_cons_self frame stack
  obtain ⟨hlevel, hfactor, hsigned, hbase, hgroup⟩ := @gives_resume 0 node
  cases frame with
  | operand => exact absurd .operand (h _)
  | sign => exact absurd .sign (h _)
  | exponent => exact absurd .exponent (h _)
  | level l => exact unlimited_of_gives (hlevel l) (fun _ => rfl) hstack
  | factor => exact unlimited_of_gives hfactor (fun _ => rfl) hstack
  | signed => exact unlimited_of_gives hsigned (fun _ => rfl) hstack
  | base => exact unlimited_of_gives hbase (fun _ => rfl) hstack
  | group => exact unlimited_of_gives hgroup (fun _ => rfl) hstack
  | argument name =>
    rcases Parse.expect_cases (by decide : Kind.rightParen ≠ .endOfInput) s with
      ⟨closing, rest, next, rfl, hclosing, hnext⟩ | ⟨failure, rest, hexpect⟩
    · exact absurd (.argument hclosing hnext) (h _)
    -- without the closing parenthesis no height is looked at
    · have hresume : ∀ limit, resume limit node (.argument name) s = .error failure rest :=
        fun _ => Parse.bind_of_error hexpect
      have hresume' : resume 0 node .group s = .error failure rest := Parse.bind_of_error hexpect
      have hstep : ∀ limit, step limit ⟨.done node, .argument name :: stack, depth, s⟩ =
          some (proceed stack depth (resume 0 node .group s)) := by
        intro limit
        rw [step, hresume, hresume']
        rfl
      exact unlimited_of_gives hgroup hstep hstack

/-- What a step has to do with the limit: it opens a factor, or it completes a node, or nothing. -/
theorem step_cases (m : Machine) :
    m.control = .call .factor ∨ (∃ e, m.Completes e) ∨ m.Unlimited := by
  obtain ⟨control, stack, depth, s⟩ := m
  cases control with
  | call task =>
    by_cases hfactor : task = .factor
    · exact .inl (congrArg Control.call hfactor)
    have hstep : ∀ limit, step limit ⟨.call task, stack, depth, s⟩ =
        some (proceed stack depth (enter task s)) := by
      intro limit
      cases task with
      | factor => exact absurd rfl hfactor
      | level | signed | power | atom => rfl
    exact .inr (.inr (unlimited_of_gives (gives_enter hfactor) hstep (List.Subset.refl stack)))
  | again l left =>
    exact .inr (.inr (unlimited_of_gives (gives_repeat? l left) (fun _ => rfl)
      (List.Subset.refl stack)))
  | done node =>
    cases stack with
    | nil => exact .inr (.inr (unlimited_of_halted fun _ => rfl))
    | cons frame stack =>
      by_cases hcompletes : ∃ e, Completes ⟨.done node, frame :: stack, depth, s⟩ e
      · exact .inr (.inl hcompletes)
      · exact .inr (.inr (unlimited_done (not_exists.1 hcompletes)))
  | fail failure =>
    cases stack with
    | nil => exact .inr (.inr (unlimited_of_halted fun _ => rfl))
    | cons frame stack =>
      refine .inr (.inr ⟨fun _ _ => rfl, ?_, ?_⟩)
      · intro limit next hnext hmarked
        obtain rfl := Option.some.inj hnext
        exact (List.forall_mem_cons.1 hmarked).2
      · intro limit next span hnext hfail
        obtain rfl := Option.some.inj hnext
        exact hfail

/-- A checked node is passed on or fails, by its height. -/
theorem proceed_checked (limit : Nat) (stack : List Frame) (depth : Nat) (node : Node)
    (s : Stream) :
    proceed stack depth ((do return ([], .done (← Parse.checked limit node)) : Parse Stream _) s) =
      if node.height ≤ limit then ⟨.done node, stack, depth, s⟩
      else ⟨.fail (.grammar (.tooDeep node.expr.token.span)), stack, depth, s⟩ := by
  split
  case isTrue hle =>
    rw [Parse.bind_of_ok (Parse.checked_of_le hle s)]
    rfl
  case isFalse hlt =>
    rw [Parse.bind_of_error (Parse.checked_of_lt (Nat.lt_of_not_le hlt) s)]
    rfl

/-- A node that is completed is made if it is not too high, and is complained of otherwise. -/
theorem Completes.exists_step (h : m.Completes e)
    (hm : ∀ node ∈ m.nodes, node.height = node.expr.height) :
    ∃ (made : Control) (depth : Nat) (s : Stream), (∀ failure, made ≠ .fail failure) ∧
      ∀ limit, m.step limit = some (if e.height ≤ limit then ⟨made, m.stack.tail, depth, s⟩
        else ⟨.fail (.grammar (.tooDeep e.token.span)), m.stack.tail, depth, s⟩) := by
  cases h with
  | @operand l t left node stack depth s =>
    have hheight :
        (Node.binary t left node).height = (Expr.binary t left.expr node.expr).height := by
      simp [Node.binary, Expr.height, hm left (by simp [nodes, Control.nodes, Frame.nodes]),
        hm node (by simp [nodes, Control.nodes])]
    refine ⟨.again l (.binary t left node), depth, s, by simp, fun limit => ?_⟩
    rw [step, resume, hheight]
    split <;> rfl
  | @sign t node stack depth s =>
    have hheight : (Node.unary t node).height = (Expr.unary t node.expr).height :=
      congrArg (· + 1) (hm node (by simp [nodes, Control.nodes]))
    refine ⟨.done (.unary t node), depth, s, by simp, fun limit => ?_⟩
    rw [← hheight]
    exact congrArg some (proceed_checked limit stack depth (.unary t node) s)
  | @exponent t base node stack depth s =>
    have hheight :
        (Node.binary t base node).height = (Expr.binary t base.expr node.expr).height := by
      simp [Node.binary, Expr.height, hm base (by simp [nodes, Control.nodes, Frame.nodes]),
        hm node (by simp [nodes, Control.nodes])]
    refine ⟨.done (.binary t base node), depth, s, by simp, fun limit => ?_⟩
    rw [← hheight]
    exact congrArg some (proceed_checked limit stack depth (.binary t base node) s)
  | @argument name closing next node stack depth rest hclosing hnext =>
    have hheight : (Node.application name node).height =
        (Expr.application name node.expr).height :=
      congrArg (· + 1) (hm node (by simp [nodes, Control.nodes]))
    refine ⟨.done (.application name node), depth, rest, by simp, fun limit => ?_⟩
    have hexpect : Parse.expect .rightParen (rest.behind [closing]) = .ok () rest :=
      (Parse.expect_of_eq hclosing rest).trans (Parse.advance_of_ok hnext)
    rw [← hheight, step, resume, Parse.bind_of_ok hexpect]
    exact congrArg some (proceed_checked limit stack depth (.application name node) rest)

/-- Making a tree of trees that are not too high passes the limit by one at most. -/
theorem Completes.operands_le (h : m.Completes e) (hm : m.Sound limit) :
    ∀ operand ∈ e.operands, operand.height ≤ limit := by
  have hle : ∀ node ∈ m.nodes, node.expr.height ≤ limit := by
    intro node hnode
    rw [← (hm.nodes node hnode).height_eq]
    exact (hm.nodes node hnode).height_le
  intro operand hoperand
  cases h with
  | operand | exponent =>
    simp only [Expr.operands, List.mem_cons, List.not_mem_nil, or_false] at hoperand
    rcases hoperand with rfl | rfl
    all_goals exact hle _ (by simp [nodes, Control.nodes, Frame.nodes])
  | sign | argument =>
    obtain rfl := List.mem_singleton.1 hoperand
    exact hle _ (by simp [nodes, Control.nodes])

/-- The token of a node that is completed is an operator or the name of a function. -/
theorem Completes.kind (h : m.Completes e) (hm : m.Marked) :
    (∃ o, e.token.kind = .operator o) ∨ ∃ f, e.token.kind = .function f := by
  cases h with
  | operand =>
    obtain ⟨o, -, hkind⟩ := Level.holds_iff.1 (List.forall_mem_cons.1 hm).1
    exact .inl ⟨o, hkind⟩
  | sign =>
    obtain ⟨o, -, hkind⟩ := Kind.isSign_iff.1 (List.forall_mem_cons.1 hm).1
    exact .inl ⟨o, hkind⟩
  | exponent => exact .inl ⟨.power, (List.forall_mem_cons.1 hm).1⟩
  | argument => exact .inr (Kind.isFunction_iff.1 (List.forall_mem_cons.1 hm).1)

/-- How a factor is called, unless as many are open as there may be. -/
theorem step_factor (h : m.control = .call .factor) (hm : m.depth ≠ limit) :
    m.step limit = some ⟨.call .signed, .factor :: m.stack, m.depth + 1, m.stream⟩ := by
  obtain ⟨control, stack, depth, s⟩ := m
  subst h
  exact if_neg hm

/-- A factor that is one too many fails at the next token, if there is one to be read. -/
theorem step_factor_eq (h : m.control = .call .factor) (hm : m.depth = limit) :
    m.step limit = some ⟨.fail (match m.stream.head with
      | .ok t => .grammar (.tooDeep t.span)
      | .error error => .lexical error), m.stack, m.depth, m.stream⟩ := by
  obtain ⟨control, stack, depth, s⟩ := m
  subst h
  rw [step, if_pos hm]
  cases hhead : s.head with
  | ok t =>
    rw [Parse.peek_bind hhead]
    rfl
  | error error =>
    rw [Parse.bind_of_error (Parse.peek_of_head_error hhead)]
    rfl

/-! ### Steps -/

theorem Sound.height_eq (hm : m.Sound limit) : ∀ node ∈ m.nodes, node.height = node.expr.height :=
  fun node hnode => (hm.nodes node hnode).height_eq

/-- A state that breaks no limit does the same under a greater one. -/
theorem step_eq_of_not_breaks (hm : m.Sound limit) (hle : limit ≤ limit') (h : ¬m.Breaks limit) :
    m.step limit' = m.step limit := by
  rcases step_cases m with hcontrol | ⟨e, hcompletes⟩ | hunlimited
  -- a factor that may be opened under the lower limit may be opened under the higher one
  · have hdepth : m.depth < limit := by
      rw [hm.depth_eq]
      exact Nat.lt_of_not_le fun hopen => h (.factor hcontrol hopen)
    rw [step_factor hcontrol (by omega), step_factor hcontrol (by omega)]
  -- and so it is with a node
  · obtain ⟨made, depth, s, -, hstep⟩ := hcompletes.exists_step hm.height_eq
    have hheight : e.height ≤ limit := Nat.le_of_not_lt fun hlt => h (.node hcompletes hlt)
    rw [hstep, hstep, if_pos hheight, if_pos (Nat.le_trans hheight hle)]
  · exact hunlimited.step_eq _ _

/-- A state that breaks a limit fails. -/
theorem Breaks.exists_step (h : m.Breaks limit) (hm : m.Sound limit) :
    ∃ next failure, m.step limit = some next ∧ next.control = .fail failure := by
  cases h with
  | factor hcontrol hopen =>
    have hdepth : m.depth = limit := Nat.le_antisymm hm.depth_le (hm.depth_eq ▸ hopen)
    exact ⟨_, _, step_factor_eq hcontrol hdepth, rfl⟩
  | node hcompletes hheight =>
    obtain ⟨made, depth, s, -, hstep⟩ := hcompletes.exists_step hm.height_eq
    rw [hstep, if_neg (Nat.not_le.2 hheight)]
    exact ⟨_, _, rfl, rfl⟩

/-- It fails for the limit, at the place where it breaks it. -/
theorem BreaksAt.exists_step (h : m.BreaksAt limit span) (hm : m.Sound limit) :
    ∃ next, m.step limit = some next ∧ next.control = .fail (.grammar (.tooDeep span)) := by
  cases h with
  | factor hcontrol hopen hnext =>
    rw [step_factor_eq hcontrol (hm.depth_eq.trans hopen), hnext]
    exact ⟨_, rfl, rfl⟩
  | node hcompletes hheight _ _ =>
    obtain ⟨made, depth, s, -, hstep⟩ := hcompletes.exists_step hm.height_eq
    rw [hstep, if_neg (by omega)]
    exact ⟨_, rfl, rfl⟩

/-- The state in front of a failure for a limit breaks the limit, by one, and at the place of the
failure. -/
theorem breaksAt_of_step (hm : m.Sound limit) (hmarked : m.Marked)
    (hnot : ∀ failure, m.control ≠ .fail failure) (hstep : m.step limit = some next)
    (hfail : next.control = .fail (.grammar (.tooDeep span))) : m.BreaksAt limit span := by
  rcases step_cases m with hcontrol | ⟨e, hcompletes⟩ | hunlimited
  · by_cases hdepth : m.depth = limit
    · rw [step_factor_eq hcontrol hdepth, Option.some.injEq] at hstep
      subst hstep
      cases hhead : m.stream.head with
      | ok t =>
        rw [hhead] at hfail
        cases hfail
        exact .factor hcontrol (hm.depth_eq ▸ hdepth) hhead
      | error error =>
        -- without a next token there is no place to complain of
        rw [hhead] at hfail
        cases hfail
    · rw [step_factor hcontrol hdepth, Option.some.injEq] at hstep
      subst hstep
      cases hfail
  · obtain ⟨made, depth, s, hmade, heq⟩ := hcompletes.exists_step hm.height_eq
    rw [heq, Option.some.injEq] at hstep
    subst hstep
    -- the parts were checked when they were made, so that the limit is passed by one at most
    have hoperands := hcompletes.operands_le hm
    have hheight := Expr.height_le_of_operands hoperands
    split at hfail
    case isTrue => exact absurd hfail (hmade _)
    case isFalse hlt =>
      cases hfail
      exact .node hcompletes (by omega) hoperands (hcompletes.kind hmarked)
  · exact absurd (hunlimited.failed hstep hfail) (hnot _)

/-- Steps make only calls that are marked. -/
theorem Marked.of_step (hm : m.Marked) (hheights : ∀ node ∈ m.nodes, node.height = node.expr.height)
    (hstep : m.step limit = some next) : next.Marked := by
  rcases step_cases m with hcontrol | ⟨e, hcompletes⟩ | hunlimited
  · by_cases hdepth : m.depth = limit
    · rw [step_factor_eq hcontrol hdepth, Option.some.injEq] at hstep
      subst hstep
      exact hm
    · rw [step_factor hcontrol hdepth, Option.some.injEq] at hstep
      subst hstep
      exact List.forall_mem_cons.2 ⟨trivial, hm⟩
  · obtain ⟨made, depth, s, -, heq⟩ := hcompletes.exists_step hheights
    rw [heq, Option.some.injEq] at hstep
    have htail : ∀ frame ∈ m.stack.tail, frame.Marked :=
      fun frame hframe => hm frame (List.mem_of_mem_tail hframe)
    subst hstep
    split
    · exact htail
    · exact htail
  · exact hunlimited.marked hstep hm

/-! ### Runs -/

/-- A failure is passed on until the machine halts. -/
theorem control_run_of_fail {failure : Failure} (h : m.control = .fail failure) (count : Nat) :
    (m.run limit count).control = .fail failure := by
  induction count generalizing m with
  | zero => exact h
  | succ count ih =>
    obtain ⟨control, stack, depth, s⟩ := m
    subst h
    cases stack with
    | nil => rfl
    | cons frame stack => exact ih rfl

/-- A machine that fails for a limit comes to a state that breaks it, and no state before this one
does. The induction is on the steps up to the failure. -/
theorem exists_breaksAt_of_fail {count : Nat} (hm : m.Sound limit) (hmarked : m.Marked)
    (hnot : ∀ failure, m.control ≠ .fail failure) (hle : limit ≤ limit')
    (hfail : (m.run limit count).control = .fail (.grammar (.tooDeep span))) :
    ∃ moment, (m.run limit' moment).BreaksAt limit span ∧
      ∀ earlier < moment, ¬(m.run limit' earlier).Breaks limit := by
  induction count generalizing m with
  | zero => exact absurd hfail (hnot _)
  | succ count ih =>
    cases hstep : m.step limit with
    | none =>
      rw [run_of_halted hstep] at hfail
      exact absurd hfail (hnot _)
    | some next =>
      rw [run_succ hstep] at hfail
      by_cases hnext : ∃ failure, next.control = .fail failure
      -- the failure begins here
      · obtain ⟨failure, hnext⟩ := hnext
        rw [control_run_of_fail hnext, Control.fail.injEq] at hfail
        subst hfail
        exact ⟨0, breaksAt_of_step hm hmarked hnot hstep hnext, nofun⟩
      -- the failure begins later, so that no limit is broken here
      · have hbreaks : ¬m.Breaks limit := by
          intro hbreaks
          obtain ⟨next', failure, hstep', hfailure⟩ := hbreaks.exists_step hm
          obtain rfl := Option.some.inj (hstep'.symm.trans hstep)
          exact hnext ⟨failure, hfailure⟩
        have hstep' : m.step limit' = some next :=
          (step_eq_of_not_breaks hm hle hbreaks).trans hstep
        obtain ⟨moment, hat, hearlier⟩ := ih (hm.of_move (move_of_step hstep))
          (hmarked.of_step hm.height_eq hstep) (not_exists.1 hnext) hfail
        refine ⟨moment + 1, run_succ hstep' moment ▸ hat, fun earlier hlt => ?_⟩
        cases earlier with
        | zero => exact hbreaks
        | succ earlier =>
          rw [run_succ hstep']
          exact hearlier earlier (Nat.lt_of_succ_lt_succ hlt)

/-- A machine fails for a limit at the place where another machine, with a greater limit, breaks it
for the first time. -/
theorem exists_fail_of_breaksAt {moment : Nat} (hm : m.Sound limit) (hle : limit ≤ limit')
    (hat : (m.run limit' moment).BreaksAt limit span)
    (hearlier : ∀ earlier < moment, ¬(m.run limit' earlier).Breaks limit) :
    ∃ count, (m.run limit count).control = .fail (.grammar (.tooDeep span)) := by
  induction moment generalizing m with
  | zero =>
    have hat : m.BreaksAt limit span := hat
    obtain ⟨next, hstep, hfail⟩ := hat.exists_step hm
    exact ⟨1, by rwa [run_succ hstep]⟩
  | succ moment ih =>
    have hbreaks : ¬m.Breaks limit := hearlier 0 (Nat.succ_pos moment)
    have hsame := step_eq_of_not_breaks hm hle hbreaks
    cases hstep : m.step limit with
    | none =>
      rw [run_of_halted (hsame.trans hstep)] at hat
      exact absurd hat.breaks hbreaks
    | some next =>
      rw [hstep] at hsame
      rw [run_succ hsame] at hat
      obtain ⟨count, hfail⟩ := ih (hm.of_move (move_of_step hstep)) hat fun earlier hlt => by
        rw [← run_succ hsame]
        exact hearlier (earlier + 1) (Nat.succ_lt_succ hlt)
      exact ⟨count + 1, run_succ hstep count ▸ hfail⟩

/-- A machine fails for its limit at the first state that breaks the limit, and there at the place
where it is broken. The states up to this one are those of any machine with a greater limit. -/
theorem exists_fail_iff (hm : m.Sound limit) (hmarked : m.Marked)
    (hnot : ∀ failure, m.control ≠ .fail failure) (hle : limit ≤ limit') :
    (∃ count, (m.run limit count).control = .fail (.grammar (.tooDeep span))) ↔
      ∃ moment, (m.run limit' moment).BreaksAt limit span ∧
        ∀ earlier < moment, ¬(m.run limit' earlier).Breaks limit := by
  constructor
  · rintro ⟨count, hfail⟩
    exact exists_breaksAt_of_fail hm hmarked hnot hle hfail
  · rintro ⟨moment, hat, hearlier⟩
    exact exists_fail_of_breaksAt hm hle hat hearlier

/-- A machine that has halted has ended with a node or with a failure, and no call waits. -/
theorem eq_of_halted (h : m.step limit = none) :
    (∃ node depth s, m = ⟨.done node, [], depth, s⟩) ∨
      ∃ failure depth s, m = ⟨.fail failure, [], depth, s⟩ := by
  obtain ⟨control, stack, depth, s⟩ := m
  cases control with
  | call task =>
    cases task with
    | factor =>
      rcases Decidable.em (depth = limit) with hdepth | hdepth
      · rw [step_factor_eq rfl hdepth] at h
        cases h
      · rw [step_factor rfl hdepth] at h
        cases h
    | level | signed | power | atom => cases h
  | again => cases h
  | done node =>
    cases stack with
    | nil => exact .inl ⟨node, depth, s, rfl⟩
    | cons => cases h
  | fail failure =>
    cases stack with
    | nil => exact .inr ⟨failure, depth, s, rfl⟩
    | cons => cases h

/-- What a machine that has halted says about a text is a limit exactly if it has failed for it. -/
theorem result?_eq_tooDeep_iff (h : m.step limit = none) :
    m.result? = some (.error (.grammar (.tooDeep span))) ↔
      m.control = .fail (.grammar (.tooDeep span)) := by
  rcases eq_of_halted h with ⟨node, depth, s, rfl⟩ | ⟨failure, depth, s, rfl⟩
  · have hresult : ∀ span, result? ⟨.done node, [], depth, s⟩ ≠
        some (.error (.grammar (.tooDeep span))) := by
      intro span
      -- behind an expression only the next token can be wrong
      rw [result?]
      split
      · split
        all_goals simp
      · simp
    simpa using hresult span
  · simp [result?]

/-- A text is too deep exactly if the machine that reads it fails for the limit. -/
theorem parse_tooDeep_iff_exists_fail (text : String) (span : Span) :
    (parse text).result = .error (.grammar (.tooDeep span)) ↔
      ∃ count, ((start (Stream.ofText text)).run depthLimit count).control =
        .fail (.grammar (.tooDeep span)) := by
  let bound := 30 * (Stream.ofText text).tokens.length + 28
  obtain ⟨hhalted, -, hresult⟩ := halted_of_le (Nat.le_refl bound)
  have hiff := @result?_eq_tooDeep_iff _ _ span hhalted
  rw [hresult, Option.some.injEq] at hiff
  rw [hiff]
  refine ⟨fun hfail => ⟨bound, hfail⟩, ?_⟩
  rintro ⟨count, hfail⟩
  -- whenever the failure begins, it is there in the end
  have hlater := @control_run_of_fail depthLimit _ _ hfail bound
  rwa [← run_add, Nat.add_comm, run_add, run_of_halted hhalted] at hlater

end Machine

end Reckoner
