import Reckoner.Proofs.Diagnostics
import Reckoner.Proofs.Reading.Demand

/-!
# The journal of a calculation

The journal holds the tokens that were read, and these are the tokens that the reader cannot do
without: if the scanner failed at one of them, the reader would fail for that, and what comes behind
them has no part in the result. The expression and its value follow if there are any.

## Main definitions

* `Event.record`: what the journal says about an event, and how important it is;
* `Stream.Demand s result read asked`: how many tokens are read for a result, and for how many the
  scanner is asked.

## Main results

* `Scanner.run_replicate_pull`: a scanner that is asked for tokens answers what its stream holds;
* `Stream.parse_breakOff_of_le`, `Stream.parse_breakOff_of_lt`: what is read if the scanner fails at
  a token that is asked for, or behind it;
* `Stream.demand_of_takes`: how many tokens each result takes;
* `journal_exact`: what the journal of a calculation holds.
-/

namespace Reckoner

/-- What the journal says about an event, and how important it is. -/
def Event.record (event : Event) : Severity × String :=
  (event.severity, event.message)

namespace Stream

/-- How many tokens of a stream are read for a result, and for how many the scanner is asked. These
numbers differ if the scanner fails. -/
inductive Demand (s : Stream) : Except Failure Expr → (read asked : Nat) → Prop
  /-- An expression takes all tokens, and the end of the text once. -/
  | ok {e : Expr} {length : Nat} (hlisting : s.listing = s.tokens ++ [.endOfInput length])
      (hkinds : ∀ t ∈ s.tokens, t.kind ≠ .endOfInput) :
      Demand s (.ok e) (s.tokens.length + 1) (s.tokens.length + 1)
  /-- In front of an error of the scanner all tokens are read. -/
  | lexical {error : LexicalError} (hstop : s.stop = .failure error) :
      Demand s (.error (.lexical error)) s.tokens.length (s.tokens.length + 1)
  /-- Nothing is read behind the token that an error is about. -/
  | grammar {error : GrammarError} {found : Token} {k : Nat} (hfound : error.found? = some found)
      (hget : s.listing[k]? = some found) :
      Demand s (.error (.grammar error)) (k + 1) (k + 1)
  /-- If a limit is passed, nothing is read behind the token that comes next, and the limit is
  passed at one of those that have been read. -/
  | tooDeep {span : Span} {rest : Stream} {taken : List Token} {current t : Token}
      (hwhole : Parse.whole depthLimit s = .error (.grammar (.tooDeep span)) rest)
      (hs : s = rest.behind taken) (hcurrent : rest.head = .ok current)
      (hmem : t ∈ taken ++ [current]) (hspan : span = t.span) :
      Demand s (.error (.grammar (.tooDeep span))) (taken.length + 1) (taken.length + 1)

end Stream

/-! ### The answers of a scanner -/

theorem Stream.answers_behind (ts : List Token) (rest : Stream) :
    (rest.behind ts).answers = ts.map .ok ++ rest.answers := by
  rw [answers, answers, behind, List.map_append, List.append_assoc]

/-- Of a scanner's last answer, none or one is asked for. -/
theorem Scanner.run_replicate_pull_le_one {cursor next : Cursor}
    {answer : Except LexicalError Token} (hscan : cursor.scan = (answer, next)) (finished : Bool)
    {count : Nat} (h : count ≤ 1) :
    ((⟨cursor, finished⟩ : Scanner).run (.replicate count .pull)).1 =
      ([answer].take count).map some := by
  obtain rfl | rfl : count = 0 ∨ count = 1 := Nat.le_one_iff_eq_zero_or_eq_one.1 h
  · rfl
  · rw [List.replicate_one, run_cons, perform_pull, hscan]
    rfl

/-- A scanner that is asked for one token after another answers what its stream holds. -/
theorem Scanner.run_replicate_pull (cursor : Cursor) (finished : Bool) {count : Nat}
    (h : count ≤ (Stream.scanFrom [] cursor).answers.length) :
    ((⟨cursor, finished⟩ : Scanner).run (.replicate count .pull)).1 =
      ((Stream.scanFrom [] cursor).answers.take count).map some := by
  obtain ⟨offset, text⟩ := cursor
  induction offset, text using Cursor.scan_induction generalizing count with
  | error hscan =>
    rw [Stream.scanFrom_of_error hscan] at h ⊢
    exact run_replicate_pull_le_one hscan finished h
  | ending _ hscan =>
    rw [Stream.scanFrom_of_endOfInput hscan rfl] at h ⊢
    exact run_replicate_pull_le_one hscan finished h
  | token _ hscan hkind ih =>
    -- the first answer is the token, and the others are those of the rest
    rw [Stream.scanFrom_nil_of_token hscan hkind, Stream.answers_behind] at h ⊢
    cases count with
    | zero => rfl
    | succ count =>
      rw [List.replicate_succ, run_cons, perform_pull, hscan]
      exact congrArg _ (ih (Nat.le_of_succ_le_succ h))

/-! ### Streams that break off -/

/-- The tokens that have been taken away have been read, and the next one if it can be. -/
theorem Tape.read_after (ts : List Token) (rest : Stream) :
    (after ts rest).read = (rest.behind ts).listing.take (ts.length + 1) := by
  rw [Stream.listing_behind, List.take_length_add_append, after, load]
  cases hhead : rest.head with
  | ok t =>
    obtain ⟨us, hlisting⟩ := Stream.listing_of_head hhead
    simp [read, hlisting]
  | error error =>
    obtain rfl := Stream.eq_of_head_error hhead
    simp [read, Stream.listing, Stream.ending]

namespace Stream

variable {s : Stream} {ts : List Token}

/-- What is read of a stream, if the reader takes the tokens `ts` away from it. -/
theorem read_parse (h : s = (Parse.left (Parse.whole depthLimit s)).behind ts) :
    s.parse.read = s.listing.take (ts.length + 1) := by
  obtain ⟨us, hs, hread⟩ := s.exists_parse_read
  -- the same tokens have been taken away, since the same is left
  have hus : us = ts := List.append_cancel_right (congrArg tokens (hs.symm.trans h))
  rw [hread, Tape.read_after, ← hs, hus]

/-- If the scanner fails at a token that is asked for, the reader fails for that. -/
theorem parse_breakOff_of_le (h : Parse.Takes (Parse.whole depthLimit) s ts) {count : Nat}
    (hle : count ≤ ts.length) (error : LexicalError) :
    (s.breakOff count error).parse.result = .error (.lexical error) := by
  have hmeets : ∃ rest, Parse.whole depthLimit (s.breakOff count error) =
      .error (.lexical error) rest := by
    rcases Nat.eq_zero_or_pos count with rfl | hpos
    · exact ⟨_, Parse.bind_of_error (Parse.expression_of_head_error rfl)⟩
    · exact h.asks error hpos hle
  obtain ⟨rest, hwhole⟩ := hmeets
  rw [parse_result, hwhole]

/-- If it fails behind them, the reader does the same. -/
theorem parse_breakOff_of_lt (h : Parse.Takes (Parse.whole depthLimit) s ts) {count : Nat}
    (hlt : ts.length < count) (error : LexicalError) :
    (s.breakOff count error).parse.read = s.parse.read ∧
      (s.breakOff count error).parse.result = s.parse.result := by
  have hwhole := h.asks_only error hlt
  constructor
  · have hbehind : s.breakOff count error =
        (Parse.left (Parse.whole depthLimit (s.breakOff count error))).behind ts := by
      have hbroken := congrArg (breakOff count error) h.eq_behind
      rw [breakOff_behind (Nat.le_of_lt hlt)] at hbroken
      rw [hwhole, hbroken]
      cases Parse.whole depthLimit s <;> rfl
    rw [read_parse hbehind, read_parse h.eq_behind, listing_breakOff, List.take_take,
      Nat.min_eq_left hlt]
  · rw [parse_result, parse_result, hwhole]
    cases Parse.whole depthLimit s <;> rfl

/-- The next token can be read at a failure, unless the failure is that it cannot. -/
theorem eq_lexical_of_head_error {failure : Failure} {rest : Stream} {error : LexicalError}
    (h : Parse.Takes (Parse.whole depthLimit) s ts)
    (hwhole : Parse.whole depthLimit s = .error failure rest) (hhead : rest.head = .error error) :
    failure = .lexical error := by
  have hs := h.eq_behind
  rw [hwhole] at hs
  obtain rfl := eq_of_head_error hhead
  -- the stream is the one that breaks off behind the tokens that have been taken away
  have hbroken : s.breakOff ts.length error = s := by
    rw [hs, Parse.left, breakOff_behind (Nat.le_refl _), Nat.sub_self]
    rfl
  have hresult := parse_breakOff_of_le h (Nat.le_refl _) error
  rw [hbroken, parse_result, hwhole] at hresult
  exact Except.error.inj hresult

end Stream

/-! ### What is read -/

namespace Stream

variable {s rest : Stream} {ts : List Token}

/-- The listing of a stream has one token more than have been taken away, if one comes next. -/
theorem take_listing_of_head {current : Token} (hs : s = rest.behind ts)
    (hhead : rest.head = .ok current) : s.listing.take (ts.length + 1) = ts ++ [current] := by
  obtain ⟨us, hlisting⟩ := listing_of_head hhead
  rw [hs, listing_behind, hlisting, List.take_append, List.take_of_length_le (Nat.le_succ _),
    Nat.add_sub_cancel_left, List.take_succ_cons, List.take_zero]

/-- A limit is passed at one of the tokens that have been read. -/
theorem exists_span_of_tooDeep_read {span : Span} {current : Token}
    (h : Parse.Takes (Parse.whole depthLimit) s ts) (hs : s = rest.behind ts)
    (hwhole : Parse.whole depthLimit s = .error (.grammar (.tooDeep span)) rest)
    (hhead : rest.head = .ok current) : ∃ t ∈ ts ++ [current], span = t.span := by
  -- the scanner may as well fail behind those tokens
  have hbroken := (parse_breakOff_of_lt h (Nat.lt_succ_self _) (.strayCharacter default 0)).2
  rw [parse_result s, hwhole] at hbroken
  have hspan := exists_span_of_tooDeep hbroken
  rwa [listing_breakOff, take_listing_of_head hs hhead] at hspan

/-- How many tokens of a stream are read, by the result. -/
theorem demand_of_takes (hkinds : ∀ t ∈ s.tokens, t.kind ≠ .endOfInput)
    (h : Parse.Takes (Parse.whole depthLimit) s ts) :
    ∃ read, s.Demand s.parse.result read (ts.length + 1) ∧ s.parse.read = s.listing.take read := by
  have hread := read_parse h.eq_behind
  have hconcludes := Parse.concludes_whole depthLimit s
  have hbehind := h.eq_behind
  rw [parse_result]
  cases hwhole : Parse.whole depthLimit s with
  | ok e rest =>
    rw [hwhole] at hconcludes hbehind
    cases hconcludes with
    | ok _ _ _ _ hnext hend =>
      -- nothing is left but the end, so that all tokens have been taken away
      obtain ⟨length, rfl⟩ := eq_nil_of_head_endOfInput hkinds hbehind hnext hend
      have htokens : s.tokens = ts := hbehind ▸ List.append_nil ts
      have hlisting : s.listing = s.tokens ++ [.endOfInput length] := by
        rw [htokens, hbehind]
        exact listing_behind ts _
      rw [← htokens] at hread ⊢
      exact ⟨_, .ok hlisting hkinds, hread⟩
  | error failure rest =>
    rw [hwhole] at hconcludes hbehind
    cases hconcludes with
    | error _ _ hrefuses =>
      cases hrefuses with
      | @lexical error hhead =>
        -- the scanner is asked once more than there are tokens
        obtain rfl := eq_of_head_error hhead
        have htokens : s.tokens = ts := hbehind ▸ List.append_nil ts
        have hlisting : s.listing = ts := by
          rw [hbehind]
          exact (listing_behind ts _).trans (List.append_nil ts)
        rw [hlisting, List.take_of_length_le (Nat.le_succ _)] at hread
        rw [← htokens]
        refine ⟨_, .lexical (hbehind ▸ rfl), ?_⟩
        rw [hread, hlisting, htokens, List.take_length]
      | @grammar found hhead _ _ =>
        obtain ⟨us, hlisting⟩ := listing_of_head hhead
        refine ⟨_, .grammar (Outlook.found?_complaint _ found) ?_, hread⟩
        rw [hbehind, Parse.left, listing_behind, hlisting,
          List.getElem?_append_right (Nat.le_refl _), Nat.sub_self]
        rfl
      | tooDeep span =>
        -- the next token can be read, or else the failure would be another one
        cases hhead : rest.head with
        | error error => cases eq_lexical_of_head_error h hwhole hhead
        | ok current =>
          obtain ⟨t, hmem, hspan⟩ := exists_span_of_tooDeep_read h hbehind hwhole hhead
          exact ⟨_, .tooDeep hwhole hbehind hhead hmem hspan, hread⟩

theorem Demand.read_le {result : Except Failure Expr} {read asked : Nat}
    (h : s.Demand result read asked) : read ≤ s.listing.length := by
  cases h with
  | ok hlisting => rw [hlisting, List.length_append, List.length_singleton]
  | lexical => exact (List.prefix_append s.tokens s.ending).length_le
  | grammar _ hget => exact (List.getElem?_eq_some_iff.1 hget).1
  | tooDeep _ hs hcurrent =>
    obtain ⟨us, hlisting⟩ := listing_of_head hcurrent
    rw [hs, listing_behind, hlisting, List.length_append, List.length_cons]
    omega

end Stream

/-- The journal of a calculation. -/
theorem journal_eq (text : String) :
    (calculate text).journal = (parse text).read.map .scanned ++
      (parse text).result.toOption.toList.map (.parsed text) ++
      (valueOf text).toOption.toList.map (.evaluated text) := by
  cases hparse : (parse text).result with
  | error failure => simp [valueOf, calculate, hparse, Except.toOption]
  | ok e => cases hvalue : e.value <;> simp [valueOf, calculate, hparse, hvalue, Except.toOption]

/-- The journal holds the tokens that are read, each once and in their order, then the expression if
there is one, and then the value if there is one. How many tokens these are is up to the result, and
they are what the scanner answers if it is asked as often as the reader asks. If the scanner failed
before it has been asked as often, that would be the result, and if it failed later, nothing would
change. -/
theorem journal_exact (text : String) :
    ∃ read asked, (Stream.ofText text).Demand (parse text).result read asked ∧
      (calculate text).journal = ((Stream.ofText text).listing.take read).map .scanned ++
        (parse text).result.toOption.toList.map (.parsed text) ++
        (valueOf text).toOption.toList.map (.evaluated text) ∧
      (calculate text).journal.map Event.record =
        ((Stream.ofText text).listing.take read).map
          (fun t => (.trace, "scanned " ++ t.listing)) ++
        (parse text).result.toOption.toList.map
          (fun e => (.debug, "parsed `" ++ text ++ "` as " ++ e.render)) ++
        (valueOf text).toOption.toList.map
          (fun x => (.debug, "evaluated `" ++ text ++ "` to " ++ Number.text x)) ∧
      read ≤ (Stream.ofText text).listing.length ∧ (Stream.ofText text).listing.Nodup ∧
      ((Scanner.ofText text).run (.replicate asked .pull)).1 =
        ((Stream.ofText text).answers.take asked).map some ∧
      ∀ count error,
        (count < asked → ((Stream.ofText text).breakOff count error).parse.result =
          .error (.lexical error)) ∧
        (asked ≤ count →
          ((Stream.ofText text).breakOff count error).parse.read = (parse text).read ∧
          ((Stream.ofText text).breakOff count error).parse.result = (parse text).result) := by
  obtain ⟨ts, htakes⟩ := Parse.frugal_whole depthLimit (Stream.ofText text)
  obtain ⟨read, hdemand, hread⟩ := Stream.demand_of_takes Stream.kind_ne_endOfInput_of_mem htakes
  have hjournal := journal_eq text
  rw [parse, hread] at hjournal
  refine ⟨read, ts.length + 1, hdemand, hjournal, ?_, hdemand.read_le,
    (Stream.ordered_ofText text).nodup_listing, ?_, fun count error => ?_⟩
  · rw [hjournal, List.map_append, List.map_append, List.map_map, List.map_map, List.map_map]
    rfl
  -- the scanner has an answer for each token that is taken away, and one behind them
  · have hle : ts.length + 1 ≤ (Stream.ofText text).answers.length := by
      have hlength := congrArg (fun s => s.tokens.length) htakes.eq_behind
      rw [Stream.length_tokens_behind] at hlength
      rw [Stream.answers, List.length_append, List.length_map, List.length_singleton]
      omega
    exact Scanner.run_replicate_pull _ false hle
  · exact ⟨fun hlt => Stream.parse_breakOff_of_le htakes (Nat.le_of_lt_succ hlt) error,
      fun hle => Stream.parse_breakOff_of_lt htakes hle error⟩

/-- The scanner is not asked for what stands behind a numeral that may not come. -/
example : (calculate "(1 2 @").journal.map Event.message =
    ["scanned LEFT_PARENTHESIS (", "scanned NUMBER 1.0", "scanned NUMBER 2.0"] := by
  decide +kernel

end Reckoner
