import Reckoner.Calculation
import Reckoner.Proofs.Words

/-!
# Operators on words

The operators on bits and integer division compute on words of 32 bits, although every value between
them is a float. A tree of such operators is computed here by a machine of its own, which cuts its
operands down to words once and knows no floats from there on. The evaluator comes to the float of
the word that the machine comes to, and fails where the machine divides by zero.

## Main definitions

* `WordOperator.combine?`: what an operator makes of two words;
* `WordTree`: a tree of operators on words, over any operands that have a value;
* `WordTree.compute`: what the machine computes;
* `WordTree.divisions`: the integer divisions of a tree, in the order of evaluation.

## Main results

* `Token.unaryValue_flip` and `WordOperator.binaryValue_eq`: one operator on floats, by its words;
* `WordTree.simulates`: the evaluator and the machine keep together;
* `WordTree.compute_eq_error_iff`: the machine fails at the first division with a divisor of zero;
* `WordTree.value_eq_compute`: the value of a tree of operators on words.
-/

namespace Reckoner

/-- An operator between two words. -/
inductive WordOperator where
  | and
  | or
  | xor
  | leftShift
  | rightShift
  | floorDivide
  deriving DecidableEq, Repr

namespace WordOperator

/-- The operator of the language that an operator on words is. -/
def operator : WordOperator → Operator
  | and => .and
  | or => .or
  | xor => .xor
  | leftShift => .leftShift
  | rightShift => .rightShift
  | floorDivide => .floorDivide

/-- By how many bits a word moves another one: its value modulo 32, also if it is negative. -/
def shiftCount (word : BitVec 32) : Nat :=
  (word.toInt % 32).toNat

/-- What an operator makes of two words in two's complement. A word that is moved to the right keeps
its sign, a quotient is cut down toward zero, and there is none by zero. -/
def combine? : WordOperator → BitVec 32 → BitVec 32 → Option (BitVec 32)
  | and, l, r => some (l &&& r)
  | or, l, r => some (l ||| r)
  | xor, l, r => some (l ^^^ r)
  | leftShift, l, r => some (l <<< shiftCount r)
  | rightShift, l, r => some (l.sshiftRight (shiftCount r))
  | floorDivide, l, r => if r = 0 then none else some (.ofInt 32 (l.toInt.tdiv r.toInt))

/-- The least word has no quotient by minus one, so that it stays. -/
example : floorDivide.combine? (BitVec.intMin 32) (-1) = some (BitVec.intMin 32) := by decide

/-- An operator lacks a result only if it divides by zero. -/
theorem combine?_eq_none_iff {o : WordOperator} {l r : BitVec 32} :
    o.combine? l r = none ↔ o = floorDivide ∧ r = 0 := by
  cases o <;> simp [combine?]

end WordOperator

/-- A tree of operators on words. Its operands are any expressions that have a value. -/
inductive WordTree where
  /-- An expression that has a value. -/
  | operand (e : Expr) (x : Float) (h : e.value = .ok x)
  /-- The complement of a word. -/
  | flip (token : Token) (h : token.kind = .operator .flip) (operand : WordTree)
  /-- An operator between two words. -/
  | link (o : WordOperator) (token : Token) (h : token.kind = .operator o.operator)
      (left right : WordTree)

namespace WordTree

/-- The tree as an expression. -/
def expr : WordTree → Expr
  | .operand e _ _ => e
  | .flip token _ t => .unary token t.expr
  | .link _ token _ l r => .binary token l.expr r.expr

/-- Whether there is an operator in a tree. -/
def hasOperator : WordTree → Bool
  | .operand _ _ _ => false
  | .flip _ _ _ | .link _ _ _ _ _ => true

/-- What a machine computes that works on words only. Each operand is cut down to a word once. The
machine fails at a division by zero, whose token it gives. -/
def compute : WordTree → Except Token (BitVec 32)
  | .operand _ x _ => .ok (.ofInt 32 (Number.truncated x))
  | .flip _ _ t => do
    let word ← t.compute
    return ~~~word
  | .link o token _ l r => do
    let left ← l.compute
    let right ← r.compute
    match o.combine? left right with
    | some word => return word
    | none => throw token

/-- The integer divisions of a tree, each with its divisor, in the order of evaluation: those in the
left operand, those in the right one, and then the node itself. -/
def divisions : WordTree → List (Token × WordTree)
  | .operand _ _ _ => []
  | .flip _ _ t => t.divisions
  | .link o token _ l r =>
    l.divisions ++ r.divisions ++ if o = .floorDivide then [(token, r)] else []

end WordTree

/-- The float of a word in two's complement. -/
def Number.ofBitVec (word : BitVec 32) : Float :=
  Number.ofWord (.ofBitVec word)

/-! ### One operator -/

namespace Number

/-- The bits of the word of a float are those of the number to which the float is cut down. -/
theorem toBitVec_toWord (x : Float) : (toWord x).toBitVec = .ofInt 32 (truncated x) := by
  rw [← toInt_toWord, ← Int32.toInt_toBitVec, BitVec.ofInt_toInt]

theorem toBitVec_toWord_ofBitVec (word : BitVec 32) :
    (toWord (ofBitVec word)).toBitVec = word := by
  rw [ofBitVec, toWord_ofWord, Int32.toBitVec_ofBitVec]

end Number

/-- Shifts count modulo 32. -/
theorem WordOperator.toNat_smod (word : BitVec 32) :
    (word.smod 32).toNat = WordOperator.shiftCount word := by
  have hsmod : (word.smod 32).toInt = word.toInt % 32 := by
    rw [BitVec.toInt_smod, Int.fmod_eq_emod_of_nonneg _ (by decide)]
    rfl
  have hlow := Int.emod_nonneg word.toInt (b := 32) (by decide)
  have htoNat := BitVec.toInt_eq_toNat_cond (word.smod 32)
  have hlt := (word.smod 32).isLt
  rw [shiftCount, ← hsmod]
  omega

/-- The quotient of two words is that of their values, brought back into the range of the words. -/
theorem WordOperator.ofInt_tdiv (l r : BitVec 32) :
    BitVec.ofInt 32 (l.toInt.tdiv r.toInt) = l.sdiv r := by
  rw [← BitVec.toInt_inj, BitVec.toInt_ofInt, BitVec.toInt_sdiv]

/-- The complement of a float is that of its word. -/
theorem Token.unaryValue_flip {token : Token} (h : token.kind = .operator .flip) (x : Float) :
    token.unaryValue x = .ok (Number.ofBitVec (~~~(Number.toWord x).toBitVec)) := by
  rw [unaryValue, h]
  rfl

/-- An operator on words computes from floats what it makes of their words. -/
theorem WordOperator.binaryValue_eq {o : WordOperator} {token : Token}
    (h : token.kind = .operator o.operator) (x y : Float) :
    token.binaryValue x y =
      match o.combine? (Number.toWord x).toBitVec (Number.toWord y).toBitVec with
      | some word => .ok (Number.ofBitVec word)
      | none => .error (.divisionByZero token.span) := by
  rw [Token.binaryValue, h]
  cases o with
  | and | or | xor => rfl
  | leftShift =>
    rw [combine?, ← toNat_smod]
    rfl
  | rightShift =>
    rw [combine?, ← toNat_smod]
    rfl
  | floorDivide =>
    -- a word is zero if its bits are
    have hiff : Number.toWord y = 0 ↔ (Number.toWord y).toBitVec = 0 := Int32.toBitVec_inj.symm
    simp only [operator, Kind.operator?, Option.bind_some, Operator.binary?, combine?, ofInt_tdiv]
    by_cases hzero : Number.toWord y = 0
    · rw [if_pos hzero, if_pos (hiff.1 hzero)]
    · rw [if_neg hzero, if_neg (mt hiff.2 hzero)]
      rfl

/-! ### Trees of operators -/

namespace WordTree

/-- The evaluator and the machine keep together: from a word the one has a float that is cut down to
it, and where the other fails it fails too. -/
inductive Simulates : Except Token (BitVec 32) → Except EvalError Float → Prop
  /-- The machine has a word, and the evaluator has a float for it. -/
  | ok {word : BitVec 32} {x : Float} (h : (Number.toWord x).toBitVec = word) :
      Simulates (.ok word) (.ok x)
  /-- The machine fails at a division, and so does the evaluator. -/
  | error (token : Token) : Simulates (.error token) (.error (.divisionByZero token.span))

/-- What the evaluator gives when the machine gives a result. -/
def result : Except Token (BitVec 32) → Except EvalError Float
  | .ok word => .ok (Number.ofBitVec word)
  | .error token => .error (.divisionByZero token.span)

theorem simulates_result (r : Except Token (BitVec 32)) : Simulates r (result r) := by
  cases r with
  | ok word => exact .ok (Number.toBitVec_toWord_ofBitVec word)
  | error token => exact .error token

/-- The complement of a tree with which the machine keeps together. -/
theorem value_flip {token : Token} (h : token.kind = .operator .flip) {t : WordTree}
    (ht : Simulates t.compute t.expr.value) :
    (flip token h t).expr.value = result (flip token h t).compute := by
  rw [expr, Expr.value, compute]
  generalize t.compute = r, t.expr.value = v at ht
  cases ht with
  | error token => rfl
  | ok hx =>
    obtain rfl := hx
    exact Token.unaryValue_flip h _

/-- An operator between two trees with which the machine keeps together. -/
theorem value_link {o : WordOperator} {token : Token} (h : token.kind = .operator o.operator)
    {l r : WordTree} (hl : Simulates l.compute l.expr.value)
    (hr : Simulates r.compute r.expr.value) :
    (link o token h l r).expr.value = result (link o token h l r).compute := by
  rw [expr, Expr.value, compute]
  generalize l.compute = left, l.expr.value = x at hl
  generalize r.compute = right, r.expr.value = y at hr
  cases hl with
  | error token => rfl
  | ok hx =>
    cases hr with
    | error token => rfl
    | ok hy =>
      obtain rfl := hx
      obtain rfl := hy
      refine (WordOperator.binaryValue_eq h _ _).trans ?_
      change _ = result (match o.combine? _ _ with
        | some word => .ok word
        | none => .error token)
      split <;> rfl

theorem simulates (t : WordTree) : Simulates t.compute t.expr.value := by
  induction t with
  | operand e x h =>
    rw [expr, h]
    exact .ok (Number.toBitVec_toWord x)
  | flip token h t ih => exact value_flip h ih ▸ simulates_result _
  | link o token h l r ihl ihr => exact value_link h ihl ihr ▸ simulates_result _

/-- The value of a tree with an operator is what the machine makes of it. -/
theorem value_eq_result {t : WordTree} (h : t.hasOperator) : t.expr.value = result t.compute := by
  cases t with
  | operand => cases h
  | flip token hkind t => exact value_flip hkind t.simulates
  | link o token hkind l r => exact value_link hkind l.simulates r.simulates

/-! ### The first division by zero -/

/-- Whether the machine computes the word zero from a tree. -/
def isZero (t : WordTree) : Bool :=
  match t.compute with
  | .ok word => word == 0
  | .error _ => false

theorem isZero_iff {t : WordTree} : t.isZero ↔ t.compute = .ok 0 := by
  rw [isZero]
  cases t.compute <;> simp

/-- The first division with a divisor of zero. -/
def fault? (t : WordTree) : Option (Token × WordTree) :=
  t.divisions.find? fun node => node.2.isZero

/-- A node is a division by zero itself exactly if its operator makes nothing of the two words. -/
theorem find?_node {o : WordOperator} (token : Token) {r : WordTree} (left : BitVec 32)
    {right : BitVec 32} (hright : r.compute = .ok right) :
    (List.find? (fun node => node.2.isZero)
        (if o = .floorDivide then [(token, r)] else [])).map Prod.fst =
      match o.combine? left right with
      | some _ => none
      | none => some token := by
  cases hcombine : o.combine? left right with
  | none =>
    obtain ⟨rfl, rfl⟩ := WordOperator.combine?_eq_none_iff.1 hcombine
    simp [isZero, hright]
  | some word =>
    by_cases hdivide : o = .floorDivide
    · have hnonzero : ¬right = 0#32 := fun hzero => by
        rw [WordOperator.combine?_eq_none_iff.2 ⟨hdivide, hzero⟩] at hcombine
        cases hcombine
      simp [hdivide, isZero, hright, hnonzero]
    · simp [hdivide]

/-- The machine fails at the first division with a divisor of zero, and nowhere else. -/
theorem fault?_map_fst (t : WordTree) :
    t.fault?.map Prod.fst = match t.compute with
      | .ok _ => none
      | .error token => some token := by
  induction t with
  | operand e x h => rfl
  | flip token h t ih =>
    rw [fault?] at ih
    rw [fault?, divisions, ih, compute]
    cases t.compute <;> rfl
  | link o token h l r ihl ihr =>
    rw [fault?] at ihl ihr
    rw [fault?, divisions, List.find?_append, List.find?_append, Option.map_or, Option.map_or, ihl,
      ihr, compute]
    -- an error in an operand comes first, and without one the node itself is left
    cases l.compute with
    | error token => rfl
    | ok left =>
      cases hright : r.compute with
      | error token => rfl
      | ok right =>
        refine (find?_node token left hright).trans ?_
        change _ = match (match o.combine? left right with
          | some word => Except.ok word
          | none => .error token) with
          | .ok _ => none
          | .error token => some token
        cases o.combine? left right <;> rfl

/-- The machine fails exactly if some division has a divisor of zero, and then at the first one. -/
theorem compute_eq_error_iff {t : WordTree} {token : Token} :
    t.compute = .error token ↔ ∃ before divisor after,
      t.divisions = before ++ (token, divisor) :: after ∧ divisor.compute = .ok 0 ∧
        ∀ node ∈ before, node.2.compute ≠ .ok 0 := by
  have hfault := t.fault?_map_fst
  rw [fault?] at hfault
  constructor
  · intro herror
    rw [herror] at hfault
    obtain ⟨⟨_, divisor⟩, hfind, rfl⟩ := Option.map_eq_some_iff.1 hfault
    obtain ⟨hzero, before, after, hdivisions, hbefore⟩ := List.find?_eq_some_iff_append.1 hfind
    exact ⟨before, divisor, after, hdivisions, isZero_iff.1 hzero,
      fun node hnode => isZero_iff.not.1 (by simpa using hbefore node hnode)⟩
  · rintro ⟨before, divisor, after, hdivisions, hzero, hbefore⟩
    have hfind : (t.divisions.find? fun node => node.2.isZero) = some (token, divisor) :=
      List.find?_eq_some_iff_append.2 ⟨isZero_iff.2 hzero, before, after, hdivisions,
        fun node hnode => by simpa using isZero_iff.not.2 (hbefore node hnode)⟩
    rw [hfind] at hfault
    -- the token that was found is that of the failure
    cases hcompute : t.compute with
    | ok word =>
      rw [hcompute] at hfault
      cases hfault
    | error token' =>
      rw [hcompute] at hfault
      exact congrArg Except.error (Option.some.inj hfault).symm

/-- The value of a tree of operators on words is the float of the word that the machine computes. It
has none exactly if some division has a divisor of zero, and the error is at the first such division
in the order of evaluation. -/
theorem value_eq_compute {t : WordTree} (h : t.hasOperator) :
    t.expr.value = (match t.compute with
      | .ok word => .ok (Number.ofBitVec word)
      | .error token => .error (.divisionByZero token.span)) ∧
    ∀ token, t.compute = .error token ↔ ∃ before divisor after,
      t.divisions = before ++ (token, divisor) :: after ∧ divisor.compute = .ok 0 ∧
        ∀ node ∈ before, node.2.compute ≠ .ok 0 :=
  ⟨value_eq_result h, fun _ => compute_eq_error_iff⟩

/-- A dividend far below the words is cut down to the least one, which minus one leaves as it is. -/
theorem value_least_by_minus_one :
    let dividend : Expr := .unary ⟨.operator .minus, "-", ⟨0, 1⟩⟩
      (.literal ⟨.number, "10000000000.0", ⟨1, 11⟩⟩)
    let zero : Expr := .literal ⟨.number, "0.0", ⟨17, 1⟩⟩
    let divisor : Expr := .unary ⟨.operator .flip, "~", ⟨16, 1⟩⟩ zero
    let quotient : Expr := .binary ⟨.operator .floorDivide, "//", ⟨13, 2⟩⟩ dividend divisor
    (parse "-10000000000 // ~0").result = .ok quotient ∧ dividend.value = .ok (-10000000000) ∧
      zero.value = .ok 0 ∧ quotient.value = .ok (-2147483648) := by
  intro dividend zero divisor quotient
  have hdividend : Number.truncated (-10000000000) = Number.leastWord := by decide +kernel
  have hzero : Number.truncated 0 = 0 := by decide +kernel
  let tree : WordTree := .link .floorDivide ⟨.operator .floorDivide, "//", ⟨13, 2⟩⟩ rfl
    (.operand dividend (-10000000000) (by decide +kernel))
    (.flip ⟨.operator .flip, "~", ⟨16, 1⟩⟩ rfl (.operand zero 0 (by decide +kernel)))
  have hcompute : tree.compute = .ok (BitVec.intMin 32) := by
    simp only [tree, compute, hdividend, hzero]
    rfl
  have hvalue := (value_eq_compute (t := tree) rfl).1
  rw [hcompute] at hvalue
  exact ⟨by decide +kernel, by decide +kernel, by decide +kernel, hvalue.trans (by decide +kernel)⟩

end WordTree

end Reckoner
