import Reckoner.Proofs.Reading.Step

/-!
# Reading from a tape

A reader does with a tape what it does with the stream that is left of it, and takes the same tokens
away. What it leaves is a tape on which these tokens have been read, each once, and the next one if
it can be. For this the reader must not go on behind the end of the text, where there would be
nothing to take away, but something to read: before it takes a token away, it looks what it is.

## Main definitions

* `Tape.after ts rest`: the tape when the tokens `ts` have been taken away and `rest` is left;
* `Recorded before s result result'`: the second result leaves the tape of what the first one
  leaves;
* `Records p q`: reading from tapes by `p` is reading from streams by `q`.

## Main results

* `Records.bind`, `records_peek_bind`, `recorded_advance_bind`: readers in a row;
* `records_chain`, `records_factor` and their like: each reader records itself;
* `records_whole`: so does the reader of whole texts;
* `Stream.parse_result` and `Stream.exists_parse_read`: what comes of reading a stream, and what is
  read of it.
-/

namespace Reckoner

namespace Tape

/-- The tape when some tokens have been taken away and `rest` is left. -/
def after (ts : List Token) (rest : Stream) : Tape :=
  load ts.reverse rest

/-- The next token of a tape is that of the stream that is left. -/
theorem head_after (ts : List Token) (rest : Stream) : Supply.head (after ts rest) = rest.head := by
  have hrest : (after ts rest).rest = rest := by
    unfold after load
    split <;> rfl
  exact congrArg Stream.head hrest

/-- A token that is taken away has been read, and now the next one is. -/
theorem tail_after (ts : List Token) (t : Token) (rest : Stream) :
    (after ts (rest.behind [t])).tail = after (ts ++ [t]) rest := by
  have hread : after ts (rest.behind [t]) = ⟨t :: ts.reverse, rest.behind [t]⟩ := rfl
  rw [hread, after, List.reverse_append]
  rfl

end Tape

namespace Parse

variable {α β : Type}

/-- What a result leaves of the stream. -/
def left : EStateM.Result Failure Stream α → Stream
  | .ok _ rest => rest
  | .error _ rest => rest

/-- The results are the same, and the tape that the second one leaves is that of the stream that the
first one leaves. The tokens `before` had been taken away when `s` was left. -/
inductive Recorded (before : List Token) (s : Stream) :
    EStateM.Result Failure Stream α → EStateM.Result Failure Tape α → Prop
  | ok {a : α} {rest : Stream} {ts : List Token} (hs : s = rest.behind ts) :
      Recorded before s (.ok a rest) (.ok a (.after (before ++ ts) rest))
  | error {failure : Failure} {rest : Stream} {ts : List Token} (hs : s = rest.behind ts) :
      Recorded before s (.error failure rest) (.error failure (.after (before ++ ts) rest))

/-- Reading from tapes by `p` is reading from streams by `q`. -/
def Records (p : Parse Tape α) (q : Parse Stream α) : Prop :=
  ∀ before s, Recorded before s (q s) (p (.after before s))

section

variable {before : List Token} {s : Stream}

/-- Tokens that were taken away before may be counted as taken away. -/
theorem Recorded.of_behind {ts : List Token} {rest : Stream}
    {result : EStateM.Result Failure Stream α} {result' : EStateM.Result Failure Tape α}
    (h : Recorded (before ++ ts) rest result result') :
    Recorded before (rest.behind ts) result result' := by
  cases h with
  | ok hs =>
    rw [List.append_assoc]
    exact .ok (by rw [hs, Stream.behind_behind])
  | error hs =>
    rw [List.append_assoc]
    exact .error (by rw [hs, Stream.behind_behind])

theorem records_pure (a : α) : Records (pure a) (pure a) := by
  intro before s
  have h : Recorded before s (.ok a s) (.ok a (.after (before ++ []) s)) := .ok rfl
  rwa [List.append_nil] at h

theorem records_throw (failure : Failure) :
    Records (throw failure : Parse Tape α) (throw failure) := by
  intro before s
  have h : Recorded (α := α) before s (.error failure s)
      (.error failure (.after (before ++ []) s)) := .error rfl
  rwa [List.append_nil] at h

theorem Recorded.bind {p : Parse Tape α} {q : Parse Stream α} {f : α → Parse Tape β}
    {g : α → Parse Stream β} (h : Recorded before s (q s) (p (.after before s)))
    (hf : ∀ a, Records (f a) (g a)) :
    Recorded before s ((q >>= g) s) ((p >>= f) (.after before s)) := by
  simp only [Bind.bind, EStateM.bind]
  generalize q s = result, p (.after before s) = result' at h
  cases h with
  | error hs => exact .error hs
  | @ok a rest ts hs =>
    rw [hs]
    exact (hf a (before ++ ts) rest).of_behind

theorem Records.bind {p : Parse Tape α} {q : Parse Stream α} {f : α → Parse Tape β}
    {g : α → Parse Stream β} (h : Records p q) (hf : ∀ a, Records (f a) (g a)) :
    Records (p >>= f) (q >>= g) :=
  fun before s => (h before s).bind hf

/-! ### The smallest readers -/

/-- What is done behind a look at the next token may rest on its being this one. -/
theorem records_peek_bind {f : Token → Parse Tape β} {g : Token → Parse Stream β}
    (h : ∀ t before s, s.head = .ok t → Recorded before s (g t s) (f t (.after before s))) :
    Records (peek >>= f) (peek >>= g) := by
  intro before s
  -- both readers see the same token, or fail for the same error
  have htape := Tape.head_after before s
  cases hhead : s.head with
  | ok t =>
    rw [peek_bind hhead, bind_of_ok (peek_of_supply (htape.trans hhead))]
    exact h t before s hhead
  | error error =>
    rw [bind_of_error (peek_of_head_error hhead),
      bind_of_error (peek_of_supply_error (htape.trans hhead))]
    exact records_throw (.lexical error) before s

theorem records_peek : Records peek peek := by
  have h : Records (peek >>= fun t => pure t) (peek >>= fun t => pure t) :=
    records_peek_bind fun t before s _ => records_pure t before s
  simpa using h

/-- A token is taken away from a tape as from a stream, if it does not stand for the end. -/
theorem recorded_advance {t : Token} (hhead : s.head = .ok t) (hkind : t.kind ≠ .endOfInput) :
    Recorded before s (advance s) (advance (.after before s)) := by
  obtain ⟨rest, rfl⟩ := Stream.exists_behind_of_head hhead hkind
  have hpeek : Records (discard peek : Parse Tape Unit) (discard peek) :=
    records_peek.bind fun _ => records_pure ()
  -- behind the token that is taken away, both look at the next one
  have htape : advance (Tape.after before (rest.behind [t])) =
      (discard peek : Parse Tape Unit) (.after (before ++ [t]) rest) :=
    congrArg (discard peek : Parse Tape Unit) (Tape.tail_after before t rest)
  rw [advance_apply, htape]
  exact (hpeek (before ++ [t]) rest).of_behind

theorem records_expect {kind : Kind} (h : kind ≠ .endOfInput) :
    Records (expect kind) (expect kind) := by
  refine records_peek_bind fun t before s hhead => ?_
  split
  next hkind => exact recorded_advance hhead (hkind ▸ h)
  next => exact records_throw _ before s

theorem records_checked (limit : Nat) (node : Node) :
    Records (checked limit node) (checked limit node) := by
  unfold checked
  split
  · exact records_pure node
  · exact records_throw _

end

/-! ### The larger readers -/

variable {limit : Nat} {p inner : Parse Tape Node} {q inner' : Parse Stream Node}

theorem records_chain (level : Level) (hp : Records p q) (left : Node) :
    Records (chain limit level p left) (chain limit level q left) := by
  -- a chain goes on with a higher tree, up to the limit
  induction hk : limit - left.height using Nat.strongRecOn generalizing left with
  | ind k ih =>
    rw [chain, chain]
    refine records_peek_bind fun t before s hhead => ?_
    split
    next hholds =>
      have hkind := Kind.ne_endOfInput_of hholds rfl
      refine (recorded_advance hhead hkind).bind fun _ => hp.bind fun right => ?_
      split
      case isTrue hle =>
        refine ih _ ?_ _ rfl
        simp only [Node.binary] at hle ⊢
        omega
      case isFalse => exact records_throw _
    next => exact records_pure left before s

theorem records_expression (h : Records inner inner') :
    Records (expression limit inner) (expression limit inner') := by
  rw [expression, expression]
  induction Level.all with
  | nil => exact h
  | cons level levels ih => exact ih.bind fun left => records_chain level ih left

theorem records_atom (h : Records inner inner') :
    Records (atom limit inner) (atom limit inner') := by
  have hexpression : Records (expression limit inner) (expression limit inner') :=
    records_expression h
  have hopening : Records (expect .leftParen) (expect .leftParen) := records_expect nofun
  have hclosing : Records (expect .rightParen) (expect .rightParen) := records_expect nofun
  refine records_peek_bind fun t before s hhead => ?_
  -- each test that lets the reader take the token away fails at the end of the text
  split
  next hname =>
    refine (recorded_advance hhead (Kind.ne_endOfInput_of hname rfl)).bind fun _ => ?_
    refine hopening.bind fun _ => hexpression.bind fun argument => ?_
    exact hclosing.bind fun _ => records_checked limit _
  next =>
    split
    next hkind =>
      refine (recorded_advance hhead (by rw [hkind]; decide)).bind fun _ => ?_
      exact hexpression.bind fun node => hclosing.bind fun _ => records_pure node
    next =>
      split
      next hliteral =>
        have hkind := Kind.ne_endOfInput_of hliteral rfl
        exact (recorded_advance hhead hkind).bind fun _ => records_pure _
      next => exact records_throw _ before s

theorem records_power (h : Records inner inner') :
    Records (power limit inner) (power limit inner') := by
  refine (records_atom h).bind fun base => records_peek_bind fun t before s hhead => ?_
  split
  next hkind =>
    refine (recorded_advance hhead (by rw [hkind]; decide)).bind fun _ => ?_
    exact h.bind fun _ => records_checked limit _
  next => exact records_pure base before s

theorem records_signed (h : Records inner inner') :
    Records (signed limit inner) (signed limit inner') := by
  refine records_peek_bind fun t before s hhead => ?_
  split
  next hsign =>
    refine (recorded_advance hhead (Kind.ne_endOfInput_of hsign rfl)).bind fun _ => ?_
    exact h.bind fun _ => records_checked limit _
  next => exact records_power h before s

theorem records_factor (limit depth : Nat) :
    Records (factor limit depth) (factor limit depth) := by
  induction depth with
  | zero => exact records_peek.bind fun _ => records_throw _
  | succ depth ih => exact records_signed ih

/-- Reading a whole text from a tape is reading it from a stream. -/
theorem records_whole (limit : Nat) : Records (whole limit) (whole limit) := by
  refine (records_expression (records_factor limit limit)).bind fun node => ?_
  refine records_peek_bind fun t before s _ => ?_
  split
  · exact records_pure node.expr before s
  · exact records_throw _ before s

end Parse

/-! ### What is read of a stream -/

namespace Stream

theorem recorded_parse (s : Stream) :
    Parse.Recorded [] s (Parse.whole depthLimit s) (Parse.whole depthLimit (Tape.start s)) :=
  Parse.records_whole depthLimit [] s

/-- The expression that a stream forms, or the reason why there is none, is what the reader
gives. -/
theorem parse_result (s : Stream) :
    s.parse.result = match Parse.whole depthLimit s with
      | .ok e _ => .ok e
      | .error failure _ => .error failure := by
  have hrecorded := s.recorded_parse
  rw [parse]
  generalize Parse.whole depthLimit s = result,
    Parse.whole depthLimit (Tape.start s) = result' at hrecorded
  cases hrecorded with
  | ok | error => rfl

/-- The tokens that have been read are those that the reader takes away, and the next one. -/
theorem exists_parse_read (s : Stream) :
    ∃ ts, s = (Parse.left (Parse.whole depthLimit s)).behind ts ∧
      s.parse.read = (Tape.after ts (Parse.left (Parse.whole depthLimit s))).read := by
  have hrecorded := s.recorded_parse
  rw [parse]
  generalize Parse.whole depthLimit s = result,
    Parse.whole depthLimit (Tape.start s) = result' at hrecorded
  cases hrecorded with
  | ok hs | error hs => exact ⟨_, hs, rfl⟩

end Stream

end Reckoner
