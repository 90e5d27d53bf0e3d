import Reckoner.Proofs.Reading.Tape

/-!
# The tokens that readers ask for

A reader knows the tokens that it took away and the one that comes next, and asks for no other. This
shows on streams that break off: if no more than the tokens that were taken away can be read, the
reader meets the error behind them, and if the next one can be read too, the reader does the same as
on the whole stream, whatever comes behind.

## Main definitions

* `Stream.breakOff count error s`: the stream with an error behind its first `count` tokens;
* `Takes p s ts`: the reader takes the tokens away from the stream, and asks for the one behind;
* `Frugal p`: so it is on every stream.

## Main results

* `Frugal.bind` and `Frugal.ite`: frugal readers in a row and by cases;
* `frugal_chain`, `frugal_factor` and their like: the readers are frugal;
* `frugal_whole`: so is the reader of whole texts.
-/

namespace Reckoner

namespace Stream

/-- The stream that breaks off with an error behind `count` tokens, where the end of the text counts
as a token. -/
def breakOff (count : Nat) (error : LexicalError) (s : Stream) : Stream :=
  if count ≤ s.tokens.length then ⟨s.tokens.take count, .failure error⟩ else s

variable {count : Nat} {error : LexicalError}

theorem breakOff_of_lt {s : Stream} (h : s.tokens.length < count) : s.breakOff count error = s :=
  if_neg (Nat.not_le.2 h)

/-- Tokens in front of the place where a stream breaks off are not concerned. -/
theorem breakOff_behind {ts : List Token} {rest : Stream} (h : ts.length ≤ count) :
    (rest.behind ts).breakOff count error =
      (rest.breakOff (count - ts.length) error).behind ts := by
  have hle : count ≤ (rest.behind ts).tokens.length ↔ count - ts.length ≤ rest.tokens.length := by
    rw [length_tokens_behind]
    omega
  rw [breakOff, breakOff, ite_cond_congr (propext hle)]
  split
  · rw [behind, behind, List.take_append, List.take_of_length_le h]
  · rfl

/-- A stream breaks off in the middle of its listing. -/
theorem listing_breakOff (count : Nat) (error : LexicalError) (s : Stream) :
    (s.breakOff count error).listing = s.listing.take count := by
  rw [breakOff]
  split
  next h =>
    rw [listing, listing, List.take_append_of_le_length h]
    exact List.append_nil _
  next h =>
    refine (List.take_of_length_le ?_).symm
    have hending : s.ending.length ≤ 1 := by
      rw [ending]
      split <;> simp
    rw [listing, List.length_append]
    omega

end Stream

namespace Parse

variable {α β : Type}

/-- A result with what is left broken off. -/
def breakOffLeft (count : Nat) (error : LexicalError) :
    EStateM.Result Failure Stream α → EStateM.Result Failure Stream α
  | .ok a rest => .ok a (rest.breakOff count error)
  | .error failure rest => .error failure (rest.breakOff count error)

/-- The reader takes the tokens `ts` away from the stream, and asks for the one behind them and for
no other. -/
structure Takes (p : Parse Stream α) (s : Stream) (ts : List Token) : Prop where
  /-- What is left is what comes behind the tokens. -/
  eq_behind : s = (left (p s)).behind ts
  /-- If the scanner fails at the one behind or at one of them but the first, so does the reader. -/
  asks : ∀ ⦃count : Nat⦄ (error : LexicalError), 0 < count → count ≤ ts.length →
    ∃ rest, p (s.breakOff count error) = .error (.lexical error) rest
  /-- If it fails further back, the reader does the same. -/
  asks_only : ∀ ⦃count : Nat⦄ (error : LexicalError), ts.length < count →
    p (s.breakOff count error) = breakOffLeft (count - ts.length) error (p s)

/-- From each stream the reader takes some tokens away, and asks for the one behind them and for no
other. -/
def Frugal (p : Parse Stream α) : Prop :=
  ∀ s, ∃ ts, Takes p s ts

section

variable {p : Parse Stream α} {s : Stream}

/-- A reader that leaves the stream as it is takes no tokens. -/
theorem takes_nil (hleft : left (p s) = s)
    (h : ∀ count error, 0 < count → p (s.breakOff count error) = breakOffLeft count error (p s)) :
    Takes p s [] :=
  ⟨hleft.symm, fun _ _ hpos hle => absurd hle (Nat.not_le.2 hpos), fun count error => h count error⟩

/-- Where there are no tokens, there is nothing to break off. -/
theorem takes_of_no_tokens {stop : Stop} (hleft : left (p ⟨[], stop⟩) = ⟨[], stop⟩) :
    Takes p ⟨[], stop⟩ [] := by
  refine takes_nil hleft fun count error hpos => ?_
  have hwhole : (⟨[], stop⟩ : Stream).breakOff count error = ⟨[], stop⟩ :=
    Stream.breakOff_of_lt hpos
  rw [hwhole]
  cases hresult : p ⟨[], stop⟩ with
  | ok a rest | error failure rest =>
    rw [hresult] at hleft
    obtain rfl : rest = ⟨[], stop⟩ := hleft
    rw [breakOffLeft, hwhole]

theorem frugal_pure (a : α) : Frugal (pure a : Parse Stream α) :=
  fun _ => ⟨[], takes_nil rfl fun _ _ _ => rfl⟩

theorem frugal_throw (failure : Failure) : Frugal (throw failure : Parse Stream α) :=
  fun _ => ⟨[], takes_nil rfl fun _ _ _ => rfl⟩

theorem frugal_tooDeep (span : Span) : Frugal (tooDeep span : Parse Stream α) :=
  frugal_throw _

theorem Frugal.ite {q : Parse Stream α} {c : Prop} [Decidable c] (hp : Frugal p) (hq : Frugal q) :
    Frugal (if c then p else q) := by
  split
  · exact hp
  · exact hq

/-- What readers in a row take away, if the first one succeeds. -/
theorem Takes.bind {f : α → Parse Stream β} {a : α} {rest : Stream} {ts us : List Token}
    (hp : Takes p s ts) (hok : p s = .ok a rest) (hf : Takes (f a) rest us) :
    Takes (p >>= f) s (ts ++ us) := by
  have hs : s = rest.behind ts := by
    have h := hp.eq_behind
    rwa [hok] at h
  refine ⟨?_, fun count error hpos hle => ?_, fun count error hlt => ?_⟩
  · rw [bind_of_ok hok, ← Stream.behind_behind, ← hf.eq_behind]
    exact hs
  · rw [List.length_append] at hle
    by_cases hfirst : count ≤ ts.length
    -- the first reader meets the error
    · obtain ⟨rest', hmeets⟩ := hp.asks error hpos hfirst
      exact ⟨rest', bind_of_error hmeets⟩
    · have hbroken := hp.asks_only error (Nat.lt_of_not_le hfirst)
      rw [hok] at hbroken
      have hpos' : 0 < count - ts.length := Nat.sub_pos_of_lt (Nat.lt_of_not_le hfirst)
      obtain ⟨rest', hmeets⟩ := hf.asks error hpos' (by omega)
      exact ⟨rest', (bind_of_ok hbroken).trans hmeets⟩
  · rw [List.length_append] at hlt ⊢
    have hbroken := hp.asks_only error (Nat.lt_of_le_of_lt (Nat.le_add_right _ _) hlt)
    rw [hok] at hbroken
    rw [bind_of_ok hbroken, bind_of_ok hok, hf.asks_only error (by omega), Nat.sub_sub]

/-- Behind a failure no more is asked for. -/
theorem Takes.bind_error {f : α → Parse Stream β} {failure : Failure} {rest : Stream}
    {ts : List Token} (hp : Takes p s ts) (herror : p s = .error failure rest) :
    Takes (p >>= f) s ts := by
  refine ⟨?_, fun count error hpos hle => ?_, fun count error hlt => ?_⟩
  · have h := hp.eq_behind
    rw [herror] at h
    rw [bind_of_error herror]
    exact h
  · obtain ⟨rest', hmeets⟩ := hp.asks error hpos hle
    exact ⟨rest', bind_of_error hmeets⟩
  · have hbroken := hp.asks_only error hlt
    rw [herror] at hbroken
    rw [bind_of_error hbroken, bind_of_error herror]
    rfl

theorem Frugal.bind {f : α → Parse Stream β} (hp : Frugal p) (hf : ∀ a, Frugal (f a)) :
    Frugal (p >>= f) := by
  intro s
  obtain ⟨ts, htakes⟩ := hp s
  cases hresult : p s with
  | error failure rest => exact ⟨ts, htakes.bind_error hresult⟩
  | ok a rest =>
    obtain ⟨us, htakes'⟩ := hf a rest
    exact ⟨ts ++ us, htakes.bind hresult htakes'⟩

end

/-! ### The smallest readers -/

/-- Looking at the next token takes nothing away. -/
theorem takes_peek (s : Stream) : Takes peek s [] := by
  obtain ⟨tokens, stop⟩ := s
  cases tokens with
  | cons t ts =>
    refine takes_nil rfl fun count error hpos => ?_
    -- the first token is in front of the place where the stream breaks off
    have hbroken := @Stream.breakOff_behind count error [t] ⟨ts, stop⟩ hpos
    have hwhole : (⟨t :: ts, stop⟩ : Stream) = Stream.behind [t] ⟨ts, stop⟩ := rfl
    rw [hwhole, hbroken, peek_of_head (Stream.head_behind_cons t [] _),
      peek_of_head (Stream.head_behind_cons t [] _), breakOffLeft, hbroken]
  | nil => exact takes_of_no_tokens (by cases stop <;> rfl)

theorem frugal_peek : Frugal peek :=
  fun s => ⟨[], takes_peek s⟩

theorem takes_discard_peek (s : Stream) : Takes (discard peek : Parse Stream Unit) s [] := by
  have hpeek := takes_peek s
  change Takes (peek >>= fun _ => pure ()) s []
  cases hresult : peek s with
  | error failure rest => exact hpeek.bind_error hresult
  | ok t rest => exact hpeek.bind hresult (takes_nil rfl fun _ _ _ => rfl)

/-- Taking a token away asks for the one behind it. -/
theorem frugal_advance : Frugal advance := by
  rintro ⟨tokens, stop⟩
  cases tokens with
  | nil => exact ⟨[], takes_of_no_tokens (by cases stop <;> rfl)⟩
  | cons t ts =>
    have hpeek := takes_discard_peek ⟨ts, stop⟩
    have hwhole : (⟨t :: ts, stop⟩ : Stream) = Stream.behind [t] ⟨ts, stop⟩ := rfl
    refine ⟨[t], ?_, fun count error hpos hle => ?_, fun count error hlt => ?_⟩
    · rw [hwhole, advance_apply]
      exact congrArg (Stream.behind [t]) hpeek.eq_behind
    · -- the stream breaks off behind the token that is taken away
      obtain rfl : count = 1 := Nat.le_antisymm hle hpos
      rw [hwhole, Stream.breakOff_behind (Nat.le_refl 1)]
      exact ⟨_, advance_of_error rfl⟩
    · rw [hwhole, Stream.breakOff_behind (Nat.le_of_lt hlt), advance_apply, advance_apply]
      exact hpeek.asks_only error (Nat.sub_pos_of_lt hlt)

theorem frugal_expect (kind : Kind) : Frugal (expect kind) :=
  frugal_peek.bind fun _ => frugal_advance.ite (frugal_throw _)

theorem frugal_checked (limit : Nat) (node : Node) : Frugal (checked limit node) :=
  (frugal_pure node).ite (frugal_tooDeep _)

/-! ### The larger readers -/

variable {limit : Nat} {p inner : Parse Stream Node}

theorem frugal_chain (level : Level) (hp : Frugal p) (left : Node) :
    Frugal (chain limit level p left) := by
  -- a chain goes on with a higher tree, up to the limit
  induction hk : limit - left.height using Nat.strongRecOn generalizing left with
  | ind k ih =>
    rw [chain]
    refine frugal_peek.bind fun t => Frugal.ite ?_ (frugal_pure left)
    refine frugal_advance.bind fun _ => hp.bind fun right => ?_
    split
    case isTrue hle =>
      refine ih _ ?_ _ rfl
      simp only [Node.binary] at hle ⊢
      omega
    case isFalse => exact frugal_tooDeep _

theorem frugal_expression (hinner : Frugal inner) : Frugal (expression limit inner) := by
  rw [expression]
  induction Level.all with
  | nil => exact hinner
  | cons level levels ih => exact ih.bind fun left => frugal_chain level ih left

theorem frugal_atom (hinner : Frugal inner) : Frugal (atom limit inner) := by
  have hexpression : Frugal (expression limit inner) := frugal_expression hinner
  refine frugal_peek.bind fun t => Frugal.ite ?_ (Frugal.ite ?_ (Frugal.ite ?_ (frugal_throw _)))
  · refine frugal_advance.bind fun _ => (frugal_expect .leftParen).bind fun _ => ?_
    refine hexpression.bind fun argument => (frugal_expect .rightParen).bind fun _ => ?_
    exact frugal_checked limit _
  · refine frugal_advance.bind fun _ => hexpression.bind fun node => ?_
    exact (frugal_expect .rightParen).bind fun _ => frugal_pure node
  · exact frugal_advance.bind fun _ => frugal_pure _

theorem frugal_power (hinner : Frugal inner) : Frugal (power limit inner) := by
  refine (frugal_atom hinner).bind fun base => frugal_peek.bind fun t => ?_
  refine Frugal.ite ?_ (frugal_pure base)
  exact frugal_advance.bind fun _ => hinner.bind fun _ => frugal_checked limit _

theorem frugal_signed (hinner : Frugal inner) : Frugal (signed limit inner) := by
  refine frugal_peek.bind fun t => Frugal.ite ?_ (frugal_power hinner)
  exact frugal_advance.bind fun _ => hinner.bind fun _ => frugal_checked limit _

theorem frugal_factor (limit depth : Nat) : Frugal (factor limit depth) := by
  induction depth with
  | zero => exact frugal_peek.bind fun _ => frugal_tooDeep _
  | succ depth ih => exact frugal_signed ih

/-- Reading a whole text asks for no token without need. -/
theorem frugal_whole (limit : Nat) : Frugal (whole limit) := by
  refine (frugal_expression (frugal_factor limit limit)).bind fun node => ?_
  exact frugal_peek.bind fun t => (frugal_pure node.expr).ite (frugal_throw _)

end Parse

end Reckoner
