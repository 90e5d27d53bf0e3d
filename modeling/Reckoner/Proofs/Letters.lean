import Reckoner.Proofs.Unreadable

/-!
# Runs of letters

A run of letters is read name by name, each time as the longest name that there is, and the scanner
never goes back. It still finds the names that make up a run, whenever there are any: where one name
begins with another, the letter behind the shorter one is a letter that no name begins with. So a
shorter name could not be followed by a name, and there is one way at most to take a run apart.

## Main definitions

* `Names place run ts`: the run is made of names, one behind the other, and `ts` are their tokens;
* `Scanner.Answers s answers last`: the scanner gives these answers, and is `last` afterwards.

## Main results

* `head?_symbol_ne_of_append`: the letter by which a name is longer than another begins no name;
* `longest_of_names`: the first of the names is the longest lexeme in its place;
* `Scanner.pull_of_letters`: one step of the scanner in a run of letters;
* `Scanner.answers_of_letters`: what a scanner answers from the first letter of a run to its end.
-/

namespace Reckoner

/-- The run is made of names in any letter case, one behind the other, and the tokens stand for
them. The run begins `place` bytes behind the beginning of the text. -/
inductive Names : Nat → List Char → List Token → Prop
  /-- There is nothing left of the run. -/
  | nil (place : Nat) : Names place [] []
  /-- A name comes next, and the other names follow at once. -/
  | cons {place : Nat} {kind : Kind} {name rest : List Char} {ts : List Token}
      (hkind : kind ∈ keywords) (hname : name.map Char.toUpper = kind.symbol.toList)
      (hrest : Names (place + utf8Length name) rest ts) :
      Names place (name ++ rest)
        (⟨kind, Lexeme.textOfKind kind, ⟨place, utf8Length name⟩⟩ :: ts)

/-- Asked for one token after another, the scanner gives these answers, and is `last` afterwards. -/
def Scanner.Answers (s : Scanner) (answers : List (Except LexicalError Token)) (last : Scanner) :
    Prop :=
  s.run (.replicate answers.length .pull) = (answers.map some, last)

/-! ### Names that begin with names -/

/-- The letter by which a name is longer than another one is the first letter of no name. -/
theorem head?_symbol_ne_of_append {short long other : Kind} (hshort : short ∈ keywords)
    (hlong : long ∈ keywords) (hother : other ∈ keywords) {c : Char} {tail : List Char}
    (h : long.symbol.toList = short.symbol.toList ++ c :: tail) :
    other.symbol.toList.head? ≠ some c := by
  have hall : keywords.all fun short => keywords.all fun long => keywords.all fun other =>
      let behind := long.symbol.toList.drop short.symbol.toList.length
      short.symbol.toList.isPrefixOf long.symbol.toList →
        behind = [] ∨ other.symbol.toList.head? ≠ behind.head? := by decide +kernel
  have hnames := List.all_eq_true.1
    (List.all_eq_true.1 (List.all_eq_true.1 hall short hshort) long hlong) other hother
  have hbegins : short.symbol.toList.isPrefixOf long.symbol.toList := by
    rw [List.isPrefixOf_iff_prefix, h]
    exact List.prefix_append _ _
  have hbehind : long.symbol.toList.drop short.symbol.toList.length = c :: tail := by
    rw [h, List.drop_left]
  have hdiffer := of_decide_eq_true hnames hbegins
  rw [hbehind] at hdiffer
  exact hdiffer.resolve_left (List.cons_ne_nil _ _)

/-- What begins with a letter and is a lexeme is a name, and consists of letters. -/
theorem Spells.mem_keywords {kind : Kind} {c : Char} {chars : List Char}
    (h : Spells kind (c :: chars)) (hc : isLetter c) :
    kind ∈ keywords ∧ ∀ d ∈ c :: chars, isLetter d := by
  have hkind : kind ∈ Kind.vocabulary := by
    refine h.number_or_mem_vocabulary.resolve_left fun hnumber => ?_
    have hdigit := (isDigit_iff c).1 (h.isDigit_head_iff.2 hnumber)
    exact not_isLetter_of_lt (by omega) hc
  rcases mem_keywords_or_marks hkind with ⟨hname, hletters⟩ | hmarks
  · refine ⟨hname, fun d hd => ?_⟩
    obtain ⟨hlow, hhigh⟩ := hletters _ (h.toUpper_mem_symbol hkind hd)
    exact isLetter_of_upper hlow hhigh
  · obtain ⟨hrange, hnot, -⟩ := hmarks _ (h.toUpper_mem_symbol hkind (.head _))
    rw [eq_of_toUpper hrange] at hnot
    exact absurd hc hnot

/-- A name begins with a letter. -/
theorem exists_cons_of_name {kind : Kind} (hkind : kind ∈ keywords) {name : List Char}
    (hname : name.map Char.toUpper = kind.symbol.toList) :
    ∃ c tail, name = c :: tail ∧ isLetter c ∧ ∀ d ∈ name, isLetter d := by
  have hspells := (spells_iff_of_mem_vocabulary (mem_vocabulary_of_mem_keywords hkind)).2 hname
  obtain ⟨c, tail, rfl⟩ := List.exists_cons_of_ne_nil hspells.ne_nil
  have hall : keywords.all fun kind => kind.symbol.toList.all fun c =>
      65 ≤ c.toNat ∧ c.toNat ≤ 90 := by decide +kernel
  have hletters : ∀ d ∈ c :: tail, isLetter d := fun d hd => by
    have hupper : d.toUpper ∈ kind.symbol.toList := hname ▸ List.mem_map_of_mem hd
    have hrange := List.all_eq_true.1 (List.all_eq_true.1 hall kind hkind) _ hupper
    obtain ⟨hlow, hhigh⟩ := of_decide_eq_true hrange
    exact isLetter_of_upper hlow hhigh
  exact ⟨c, tail, rfl, hletters c (.head _), hletters⟩

namespace Names

variable {place : Nat} {run after : List Char} {ts us : List Token}

theorem isLetter_of_mem (h : Names place run ts) : ∀ c ∈ run, isLetter c := by
  induction h with
  | nil => simp
  | cons hkind hname hrest ih =>
    intro c hc
    obtain ⟨-, -, -, -, hletters⟩ := exists_cons_of_name hkind hname
    exact (List.mem_append.1 hc).elim (hletters c) (ih c)

/-- The first letter of names, in upper case, is the first letter of a name. -/
theorem exists_head?_symbol {c : Char} (h : Names place (c :: run) ts) :
    ∃ kind ∈ keywords, kind.symbol.toList.head? = some c.toUpper := by
  generalize htext : c :: run = text at h
  cases h with
  | nil => cases htext
  | @cons _ kind name rest _ hkind hname hrest =>
    obtain ⟨d, tail, rfl, -⟩ := exists_cons_of_name hkind hname
    obtain ⟨rfl, -⟩ := List.cons.inj htext
    exact ⟨kind, hkind, by rw [← hname]; rfl⟩

end Names

/-- The first of some names is the longest lexeme in its place, if no letter follows the names. -/
theorem longest_of_names {place : Nat} {kind : Kind} {name rest after : List Char}
    {ts : List Token} (hkind : kind ∈ keywords)
    (hname : name.map Char.toUpper = kind.symbol.toList) (hrest : Names place rest ts)
    (hafter : ∀ c tail, after = c :: tail → ¬isLetter c) : Longest kind name (rest ++ after) := by
  have hmem := mem_vocabulary_of_mem_keywords hkind
  refine ⟨(spells_iff_of_mem_vocabulary hmem).2 hname, fun other longer hother hbegin => ?_⟩
  by_contra hlt
  obtain ⟨more, rfl⟩ := List.prefix_of_prefix_length_le (List.prefix_append name _) hbegin
    (Nat.le_of_not_le hlt)
  obtain ⟨c, tail, rfl, hc, -⟩ := exists_cons_of_name hkind hname
  obtain ⟨hother', hletters⟩ := hother.mem_keywords hc
  -- the longer name goes on with a letter, with which the rest would have to begin
  cases more with
  | nil => simp at hlt
  | cons d more =>
    have hmore := (List.prefix_append_right_inj _).1 hbegin
    have hsymbol : other.symbol.toList =
        kind.symbol.toList ++ d.toUpper :: more.map Char.toUpper := by
      rw [← (spells_iff_of_mem_vocabulary (mem_vocabulary_of_mem_keywords hother')).1 hother,
        List.map_append, hname, List.map_cons]
    cases rest with
    | nil =>
      obtain ⟨tail', hafter'⟩ := hmore
      exact hafter d _ hafter'.symm (hletters d (by simp))
    | cons e rest =>
      obtain rfl := (List.cons_prefix_cons.1 hmore).1
      obtain ⟨next, hnext, hhead⟩ := hrest.exists_head?_symbol
      exact head?_symbol_ne_of_append hkind hother' hnext hsymbol hhead

/-- Two longest lexemes in one place are the same. -/
theorem Longest.unique {kind other : Kind} {lexeme lexeme' after after' : List Char}
    (h : Longest kind lexeme after) (h' : Longest other lexeme' after')
    (htext : lexeme ++ after = lexeme' ++ after') :
    kind = other ∧ lexeme = lexeme' ∧ after = after' := by
  have hle := h.length_le other lexeme' h'.spells ⟨after', htext.symm⟩
  have hge := h'.length_le kind lexeme h.spells ⟨after, htext⟩
  obtain ⟨rfl, rfl⟩ := List.append_inj htext (Nat.le_antisymm hge hle)
  exact ⟨h.spells.unique h'.spells, rfl, rfl⟩

/-- There is one way to take a run apart. -/
theorem Names.unique {place : Nat} {run : List Char} {ts us : List Token}
    (h : Names place run ts) (h' : Names place run us) : ts = us := by
  induction h generalizing us with
  | nil =>
    generalize hrun : ([] : List Char) = run at h'
    cases h' with
    | nil => rfl
    | cons hkind hname hrest =>
      obtain ⟨c, tail, rfl, -⟩ := exists_cons_of_name hkind hname
      cases hrun
  | @cons place kind name rest ts hkind hname hrest ih =>
    generalize hrun : name ++ rest = run at h'
    cases h' with
    | nil =>
      obtain ⟨c, tail, rfl, -⟩ := exists_cons_of_name hkind hname
      cases hrun
    | cons hkind' hname' hrest' =>
      -- both first names are the longest one
      have hend : ∀ c tail, [] = c :: tail → ¬isLetter c := by simp
      have hlongest := longest_of_names hkind hname hrest hend
      have hlongest' := longest_of_names hkind' hname' hrest' hend
      rw [List.append_nil] at hlongest hlongest'
      obtain ⟨rfl, rfl, rfl⟩ := hlongest.unique hlongest' hrun
      rw [ih hrest']

namespace Scanner

variable {s last : Scanner} {place : Nat} {run after : List Char} {ts : List Token}
  {finished : Bool}

theorem answers_nil : s.Answers [] last ↔ last = s := by
  rw [Answers, List.length_nil, List.replicate_zero, Scanner.run, List.map_nil, Prod.mk.injEq]
  simp [eq_comm]

/-- The first answer is that to the next call, and the others follow. -/
theorem answers_cons {answer : Except LexicalError Token}
    {answers : List (Except LexicalError Token)} :
    s.Answers (answer :: answers) last ↔ s.pull.1 = answer ∧ s.pull.2.Answers answers last := by
  rw [Answers, Answers, List.length_cons, List.replicate_succ, run_cons, perform, List.map_cons,
    Prod.ext_iff, Prod.ext_iff, List.cons.injEq, Option.some.injEq, and_assoc]

/-- A scanner that goes on alike gives the same answers. -/
theorem answers_congr {s' : Scanner} (h : s.pull = s'.pull)
    {answers : List (Except LexicalError Token)} (hne : answers ≠ []) :
    s.Answers answers last ↔ s'.Answers answers last := by
  obtain ⟨answer, answers, rfl⟩ := List.exists_cons_of_ne_nil hne
  rw [answers_cons, answers_cons, h]

/-- At the first letter of a run the longest name is read, or else the run begins with no name, and
the error gives all of it. -/
theorem pull_of_letters (place : Nat) (finished : Bool) (hne : run ≠ [])
    (hrun : MaximalRun isLetter run after) :
    (∃ kind name rest, run = name ++ rest ∧ kind ∈ keywords ∧
      name.map Char.toUpper = kind.symbol.toList ∧ Longest kind name (rest ++ after) ∧
      (⟨⟨place, run ++ after⟩, finished⟩ : Scanner).pull =
        (.ok ⟨kind, Lexeme.textOfKind kind, ⟨place, utf8Length name⟩⟩,
          ⟨⟨place + utf8Length name, rest ++ after⟩, finished⟩)) ∨
      ¬BeginsWithName run ∧
      (⟨⟨place, run ++ after⟩, finished⟩ : Scanner).pull.1 =
        .error (.unknownWord (String.ofList run) place) := by
  obtain ⟨c, tail, rfl⟩ := List.exists_cons_of_ne_nil hne
  have hc : isLetter c := hrun.all c (.head _)
  -- no blanks stand in front of a letter
  have hblanks : ∀ {blanks more : List Char}, (∀ b ∈ blanks, isBlank b) →
      c :: tail ++ after = blanks ++ more → blanks = [] := by
    intro blanks more hblank htext
    cases blanks with
    | nil => rfl
    | cons b blanks =>
      obtain ⟨rfl, -⟩ := List.cons.inj htext
      exact absurd hc (not_isLetter_of_isBlank (hblank c (.head _)))
  rcases hscan : (⟨place, c :: tail ++ after⟩ : Cursor).scan with ⟨error | token, next⟩
  · obtain ⟨blanks, d, rest, htext, hblank, -, herror⟩ :=
      Cursor.scan_eq_error_iff.1 (congrArg Prod.fst hscan)
    obtain rfl := hblanks hblank htext
    obtain ⟨rfl, rfl⟩ := List.cons.inj htext
    obtain ⟨word, behind, hword, hmaximal, hname, rfl⟩ := herror.of_isLetter hc
    obtain ⟨rfl, -⟩ := hrun.unique hmaximal hword
    refine .inr ⟨fun ⟨kind, hkind, front, hfront, hsymbol⟩ => hname ?_, congrArg Prod.fst hscan⟩
    exact ⟨kind, hkind, front, hfront.trans (List.prefix_append _ after), hsymbol⟩
  · rcases Cursor.leads_of_scan_eq_ok hscan with
      ⟨hblank, -⟩ | ⟨blanks, lexeme, behind, htext, h, hnext⟩
    · exact absurd hc (not_isLetter_of_isBlank (hblank c (.head _)))
    obtain rfl := hblanks h.blank (htext.trans (List.append_assoc ..))
    rw [List.nil_append] at htext
    obtain ⟨d, name, rfl⟩ := List.exists_cons_of_ne_nil h.longest.spells.ne_nil
    obtain rfl : c = d := (List.cons.inj htext).1
    obtain ⟨hkind, hletters⟩ := h.longest.spells.mem_keywords hc
    have hmem := mem_vocabulary_of_mem_keywords hkind
    obtain ⟨rest, hrest, rfl⟩ := hrun.exists_append hletters htext
    refine .inl ⟨token.kind, c :: name, rest, hrest, hkind,
      (spells_iff_of_mem_vocabulary hmem).1 h.longest.spells, h.longest, ?_⟩
    have htoken : token = ⟨token.kind, Lexeme.textOfKind token.kind,
        ⟨place, utf8Length (c :: name)⟩⟩ := by
      have hspan := h.span_eq
      rw [utf8Length_nil, Nat.add_zero] at hspan
      rw [← (Lexeme.canonicalText_iff hmem _ _).1 h.canonical, ← hspan]
    rw [pull, hscan, hnext, ← htoken]
    rfl

/-- Names are read as their tokens, up to the end of the run. -/
theorem answers_of_names (h : Names place run ts)
    (hafter : ∀ c tail, after = c :: tail → ¬isLetter c) :
    (⟨⟨place, run ++ after⟩, finished⟩ : Scanner).Answers (ts.map .ok)
      ⟨⟨place + utf8Length run, after⟩, finished⟩ := by
  induction h with
  | nil => exact answers_nil.2 rfl
  | @cons place kind name rest ts hkind hname hrest ih =>
    have hlongest := longest_of_names hkind hname hrest hafter
    have hletters := (Names.cons hkind hname hrest).isLetter_of_mem
    obtain ⟨c, tail, hne, -⟩ := exists_cons_of_name hkind hname
    rcases pull_of_letters place finished (by simp [hne])
        ⟨hletters, hafter⟩ with ⟨other, name', rest', hrun, -, -, hlongest', hpull⟩ | ⟨hnone, -⟩
    · -- the longest name is the first one
      obtain ⟨rfl, rfl, hbehind⟩ := hlongest.unique hlongest' (by
        rw [← List.append_assoc, hrun, List.append_assoc])
      rw [List.map_cons, answers_cons, hpull, ← hbehind, utf8Length_append, ← Nat.add_assoc]
      exact ⟨rfl, ih⟩
    · exact absurd ⟨kind, hkind, name, List.prefix_append _ _, hname⟩ hnone

/-- A run that is passed without an error is made of names. -/
theorem exists_names_of_answers (hrun : MaximalRun isLetter run after)
    (h : (⟨⟨place, run ++ after⟩, finished⟩ : Scanner).Answers (ts.map .ok) last)
    (hlast : place + utf8Length run ≤ last.cursor.offset) : ∃ us, Names place run us := by
  induction ts generalizing place run with
  | nil =>
    -- nothing has been read, so that nothing was to be passed
    obtain rfl := answers_nil.1 h
    cases run with
    | nil => exact ⟨[], .nil place⟩
    | cons c run =>
      have hpos := c.utf8Size_pos
      rw [utf8Length_cons] at hlast
      dsimp only at hlast
      omega
  | cons t ts ih =>
    by_cases hne : run = []
    · exact ⟨[], hne ▸ .nil place⟩
    rw [List.map_cons, answers_cons] at h
    rcases pull_of_letters place finished hne hrun with
      ⟨kind, name, rest, rfl, hkind, hname, -, hpull⟩ | ⟨-, hpull⟩
    · rw [hpull] at h
      rw [utf8Length_append, ← Nat.add_assoc] at hlast
      have hrest : MaximalRun isLetter rest after :=
        ⟨fun c hc => hrun.all c (List.mem_append_right _ hc), hrun.ends⟩
      obtain ⟨us, hnames⟩ := ih hrest h.2 hlast
      exact ⟨_, .cons hkind hname hnames⟩
    · rw [hpull] at h
      cases h.1

/-- A run that is not made of names is read name by name, up to a rest that begins with no name. -/
theorem exists_answers_of_not_names (finished : Bool) (hrun : MaximalRun isLetter run after)
    (h : ¬∃ ts, Names place run ts) :
    ∃ (front word : List Char) (ts : List Token) (last : Scanner), run = front ++ word ∧
      word ≠ [] ∧ Names place front ts ∧ ¬BeginsWithName word ∧
      (⟨⟨place, run ++ after⟩, finished⟩ : Scanner).Answers
        (ts.map .ok ++ [.error (.unknownWord (String.ofList word) (place + utf8Length front))])
        last := by
  induction hk : run.length using Nat.strongRecOn generalizing place run with
  | ind k ih =>
    have hne : run ≠ [] := by
      rintro rfl
      exact h ⟨[], .nil place⟩
    rcases pull_of_letters place finished hne hrun with
      ⟨kind, name, rest, rfl, hkind, hname, -, hpull⟩ | ⟨hnone, hpull⟩
    · have hrest : MaximalRun isLetter rest after :=
        ⟨fun c hc => hrun.all c (List.mem_append_right _ hc), hrun.ends⟩
      have hshorter : rest.length < k := by
        obtain ⟨c, tail, rfl, -⟩ := exists_cons_of_name hkind hname
        rw [← hk, List.length_append, List.length_cons]
        omega
      obtain ⟨front, word, ts, last, rfl, hword, hnames, hnone, hanswers⟩ :=
        ih _ hshorter hrest (fun ⟨ts, hts⟩ => h ⟨_, .cons hkind hname hts⟩) rfl
      refine ⟨name ++ front, word, _, last, (List.append_assoc ..).symm, hword,
        .cons hkind hname hnames, hnone, ?_⟩
      rw [List.map_cons, List.cons_append, answers_cons, hpull, utf8Length_append, ← Nat.add_assoc]
      exact ⟨rfl, hanswers⟩
    · refine ⟨[], run, [], (⟨⟨place, run ++ after⟩, finished⟩ : Scanner).pull.2, rfl, hne,
        .nil place, hnone, ?_⟩
      rw [List.map_nil, List.nil_append, answers_cons, hpull]
      exact ⟨rfl, answers_nil.2 rfl⟩

/-- From the first letter of a run on, a scanner passes the run without an error if and only if the
run is made of names. Then it answers with the tokens of these names, which are the only ones that
the run is made of. If the run is not made of names, the scanner answers with the tokens of names at
its beginning, and then with an error that gives all of the rest, which begins with no name. -/
theorem answers_of_letters (s : Scanner) {blanks run after : List Char}
    (hrest : s.cursor.rest = blanks ++ run ++ after) (hblanks : ∀ c ∈ blanks, isBlank c)
    (hne : run ≠ []) (hrun : MaximalRun isLetter run after) :
    let place := s.cursor.offset + utf8Length blanks
    ((∃ (ts : List Token) (last : Scanner), s.Answers (ts.map .ok) last ∧
        place + utf8Length run ≤ last.cursor.offset) ↔ ∃ ts, Names place run ts) ∧
    (∀ ts : List Token, Names place run ts →
      s.Answers (ts.map .ok) ⟨⟨place + utf8Length run, after⟩, s.finished⟩ ∧
        ∀ us, Names place run us → us = ts) ∧
    ((¬∃ ts, Names place run ts) →
      ∃ (front word : List Char) (ts : List Token) (last : Scanner), run = front ++ word ∧
        word ≠ [] ∧ Names place front ts ∧ ¬BeginsWithName word ∧
        s.Answers
          (ts.map .ok ++ [.error (.unknownWord (String.ofList word) (place + utf8Length front))])
          last) := by
  intro place
  -- the blanks make no difference to the next call
  have hpull : s.pull = (⟨⟨place, run ++ after⟩, s.finished⟩ : Scanner).pull := by
    obtain ⟨⟨offset, text⟩, finished⟩ := s
    dsimp only at hrest
    rw [pull, pull, hrest, List.append_assoc, Cursor.scan_append_of_blank hblanks]
  have hcalls : ∀ {ts : List Token}, Names place run ts →
      (ts.map .ok : List (Except LexicalError Token)) ≠ [] := by
    intro ts h htokens
    obtain rfl := List.map_eq_nil_iff.1 htokens
    cases h
    exact hne rfl
  have hnames : ∀ ts : List Token, Names place run ts →
      s.Answers (ts.map .ok) ⟨⟨place + utf8Length run, after⟩, s.finished⟩ := fun ts hts =>
    (answers_congr hpull (hcalls hts)).2 (answers_of_names hts hrun.ends)
  refine ⟨⟨?_, ?_⟩, fun ts hts => ⟨hnames ts hts, fun us hus => hus.unique hts⟩, fun hnone => ?_⟩
  · rintro ⟨ts, last, hanswers, hlast⟩
    suffices hcall : (ts.map .ok : List (Except LexicalError Token)) ≠ [] from
      exists_names_of_answers hrun ((answers_congr hpull hcall).1 hanswers) hlast
    -- without a call the place is that in front of the blanks
    intro htokens
    rw [htokens] at hanswers
    obtain rfl := answers_nil.1 hanswers
    obtain ⟨c, run, rfl⟩ := List.exists_cons_of_ne_nil hne
    have hpos := c.utf8Size_pos
    rw [utf8Length_cons] at hlast
    omega
  · rintro ⟨ts, hts⟩
    exact ⟨ts, _, hnames ts hts, Nat.le_refl _⟩
  · obtain ⟨front, word, ts, last, hsplit, hword, hfront, hname, hanswers⟩ :=
      exists_answers_of_not_names s.finished hrun hnone
    exact ⟨front, word, ts, last, hsplit, hword, hfront, hname,
      (answers_congr hpull (by simp)).2 hanswers⟩

/-- The run `sinhpi` is read as two names, although its first three letters are a name as well. -/
theorem answers_of_letters_sinhpi :
    let ts : List Token :=
      [⟨.function .sinh, "SINH", ⟨1, 4⟩⟩, ⟨.pi, "3.141592653589793", ⟨5, 2⟩⟩]
    (ofText " sinhpi+1").cursor.rest = [' '] ++ "sinhpi".toList ++ ['+', '1'] ∧
      MaximalRun isLetter "sinhpi".toList ['+', '1'] ∧
      (ofText " sinhpi+1").Answers (ts.map .ok) ⟨⟨7, ['+', '1']⟩, false⟩ ∧
      ∀ us, Names 1 "sinhpi".toList us → us = ts := by
  intro ts
  have hrest : (ofText " sinhpi+1").cursor.rest = [' '] ++ "sinhpi".toList ++ ['+', '1'] := by
    decide
  have hrun : MaximalRun isLetter "sinhpi".toList ['+', '1'] := by
    refine ⟨List.all_eq_true.1 (by decide +kernel), fun c rest hc => ?_⟩
    obtain ⟨rfl, -⟩ := List.cons.inj hc
    decide +kernel
  have hnames : Names 1 "sinhpi".toList ts :=
    @Names.cons 1 (.function .sinh) "sinh".toList "pi".toList _ (by decide) (by decide) <|
      @Names.cons 5 .pi "pi".toList [] _ (by decide) (by decide) (.nil 7)
  obtain ⟨-, hmade, -⟩ := answers_of_letters (ofText " sinhpi+1") hrest
    (List.all_eq_true.1 (by decide)) (by decide) hrun
  exact ⟨hrest, hrun, hmade ts hnames⟩

end Scanner

end Reckoner
