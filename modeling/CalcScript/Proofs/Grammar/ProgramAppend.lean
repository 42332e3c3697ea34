import CalcScript.Proofs.Grammar.ProgramExtension

/-!
# Programs one behind the other

> `readProgram_append`: behind the text of a program, what is read of another text is what is read
> of it by itself, without the blanks it begins with; and where it is rejected, it is rejected at
> the same place.

The statements of the first text are the same in the longer one (`statement_same`), except that the
blanks behind the last semicolon run on. Nothing has failed beyond them. From there on the rest of
the longer text reads like the second text (`Overlap.behind`).
-/

namespace CalcScript.Grammar.Program

open Packrat

variable {α : Type} {code code' : Array Char} {rest : List Char} {p q : Nat}

/-! ## Blanks that run on -/

theorem notStarting_dropWhile (accepts : Char → Bool) (w : List Char) :
    NotStarting accepts (w.dropWhile accepts) := by
  intro c hc
  have h := List.head?_dropWhile_not accepts w
  rw [hc] at h
  exact h

/-- A text is the blanks it begins with and the rest of it. -/
theorem length_eq_blanks_add (w : List Char) :
    w.length = (w.takeWhile isBlank).length + (w.dropWhile isBlank).length := by
  rw [← List.length_append, List.takeWhile_append_dropWhile]

/-- Blanks are read to their end, and nothing fails beyond it. -/
theorem someBlanks_read (reader : Reader Name Result) {t w : List Char}
    (h : TextFrom code p (t ++ w)) (ht : ∀ c ∈ t, isBlank c = true) (hw : NotStarting isBlank w) :
    ∃ o reach, someBlanks.read code reader p = some (.matched o (p + t.length) reach) ∧
      reach ≤ p + t.length := by
  rw [someBlanks, Form.read, blanks, Form.read, Matcher.stop?, Lexeme.stop?_eq h,
    Lexeme.taken?_singleton]
  cases t with
  | nil =>
    rw [List.nil_append, Piece.taken?_many1_eq_none hw]
    exact ⟨_, _, rfl, Nat.le_refl p⟩
  | cons c t =>
    rw [Piece.taken?_many1 (List.cons_ne_nil c t) ht hw]
    exact ⟨_, _, rfl, Nat.zero_le _⟩

/-- If blanks are read to the end of a code, there is nothing but blanks. -/
theorem isBlank_of_matches {o : Option String}
    (h : someBlanks.Matches code (reads code) p o code.size) :
    ∀ c ∈ code.toList.drop p, isBlank c = true := by
  have hend : code.toList.drop code.size = [] := by
    rw [List.drop_eq_nil_iff, Array.length_toList]
  rcases Form.matches_optional.mp h with ⟨text, hblanks, -⟩ | ⟨-, -, hp⟩
  · obtain ⟨t, ⟨_, htext⟩, ⟨t₁, t₂, rfl, ⟨_, hall⟩, rfl⟩, _⟩ := Form.Matches.lexeme hblanks
    rw [TextFrom, hend, List.append_nil, List.append_nil] at htext
    rw [htext]
    exact hall
  · rw [← hp, hend]
    intro c hc
    cases hc

/-- Where the blanks end that follow on a code. -/
def blanksEnd (code : Array Char) (rest : List Char) : Nat :=
  code.size + (rest.takeWhile isBlank).length

theorem size_le_blanksEnd (code : Array Char) (rest : List Char) :
    code.size ≤ blanksEnd code rest := Nat.le_add_right _ _

/-- Blanks at the end of a code run on in one that goes on. -/
theorem someBlanks_read_on (hcode : code'.toList = code.toList ++ rest) {o : Option String}
    (h : someBlanks.Matches code (reads code) p o code.size) :
    ∃ o' reach, someBlanks.read code' (reads code') p =
        some (.matched o' (blanksEnd code rest) reach) ∧ reach ≤ blanksEnd code rest := by
  have hp := (matches_advances h).1
  have htext : TextFrom code' p
      ((code.toList.drop p ++ rest.takeWhile isBlank) ++ rest.dropWhile isBlank) := by
    rw [TextFrom, hcode, List.append_assoc, List.takeWhile_append_dropWhile,
      List.drop_append_of_le_length (by rw [Array.length_toList]; exact hp)]
  have hall : ∀ c ∈ code.toList.drop p ++ rest.takeWhile isBlank, isBlank c = true := by
    intro c hc
    rcases List.mem_append.mp hc with hc | hc
    · exact isBlank_of_matches h c hc
    · exact List.all_eq_true.mp List.all_takeWhile c hc
  have hend : p + (code.toList.drop p ++ rest.takeWhile isBlank).length = blanksEnd code rest := by
    rw [blanksEnd, List.length_append, List.length_drop, Array.length_toList]
    omega
  rw [← hend]
  exact someBlanks_read (reads code') htext hall (notStarting_dropWhile isBlank rest)

/-- The last statement is the same in a code that goes on, but the blanks behind it run on. -/
theorem terminatedOne_read_last (hcode : code'.toList = code.toList ++ rest) {s : Node}
    (h : (terminatedOne (rule .statement)).Matches code (reads code) p s code.size) :
    ∃ reach, (terminatedOne (rule .statement)).read code' (reads code') p =
        some (.matched s (blanksEnd code rest) reach) ∧ reach ≤ blanksEnd code rest := by
  obtain ⟨o, m, hhead, hblanks⟩ := Form.matches_before.mp h
  have hp := (matches_advances hhead).1
  have hm := (matches_advances hblanks).1
  have hsame : (terminatedHead (rule .statement)).Same reads code code' p :=
    terminatedHead_same hcode hhead fun i j _ hends => statement_same hcode hends
  obtain ⟨reach, hread⟩ := hhead
  have hreach := (Form.read_advances (Grammar.readRule_advances loops_layered.takes _) _ p _
    hread).2.2.1
  have hhead' : (terminatedHead (rule .statement)).read code' (reads code') p =
      some (.matched s m reach) := hsame.trans hread
  obtain ⟨o', reach', hblanks', hreach'⟩ := someBlanks_read_on hcode hblanks
  have hend := size_le_blanksEnd code rest
  refine ⟨max (max reach (max reach' 0)) 0, ?_, by omega⟩
  show Form.read code' _ (.map Prod.fst (.pair (terminatedHead (rule .statement)) someBlanks)) p = _
  rw [Form.read, Form.read, hhead', Reading.andThen_matched, hblanks', Reading.andThen_matched]
  rfl

/-! ## The statements of the first text -/

/-- Statements that are read to the end of a code are read in a code that goes on, and then what is
behind them and the blanks that follow. -/
theorem statements_read_append (hcode : code'.toList = code.toList ++ rest) {items : List Node}
    (hne : items ≠ []) (hq : q = code.size)
    (h : (terminatedOne (rule .statement)).MatchesEach code (reads code) p items q) :
    ∃ reach ≤ blanksEnd code rest, ∀ rounds,
      readMany ((terminatedOne (rule .statement)).read code' (reads code'))
          (rounds + items.length) p =
        (readMany ((terminatedOne (rule .statement)).read code' (reads code')) rounds
          (blanksEnd code rest)).map
          fun rd => (rd.map (items ++ ·)).after reach := by
  induction h with
  | nil => exact absurd rfl hne
  | @cons p m q s items head tail ih =>
    subst hq
    have hpm := (matches_advances head).2.2 (by decide)
    have hsize := size_le_blanksEnd code rest
    cases tail with
    | nil =>
      obtain ⟨reach, hread, hreach⟩ := terminatedOne_read_last hcode head
      refine ⟨reach, hreach, fun rounds => ?_⟩
      show readMany _ (rounds + 1) p = _
      rw [readMany, hread]
      dsimp only
      rw [if_neg (by omega)]
      rfl
    | @cons _ m' _ s' items' head' tail' =>
      obtain ⟨reach', hreach', hrest⟩ := ih (List.cons_ne_nil s' items') rfl
      -- the semicolon of the next statement stands behind the blanks after this one
      obtain ⟨_, _, hnext, _⟩ := Form.matches_before.mp head'
      obtain ⟨i, j, ⟨_, hbefore⟩, hends, -⟩ := terminatedHead_matches hnext
      have hmi := (matches_advances hbefore).1
      have hij := hends.le
      have hlt := hends.lt_size
      have hsame := terminatedOne_same hcode head (by decide) hends.semicolon (by omega)
        fun i' j' _ hends' => statement_same hcode hends'
      obtain ⟨reach, hread⟩ := head
      have hreach := (Form.read_advances (Grammar.readRule_advances loops_layered.takes _) _ p _
        hread).2.2.1
      have hread' : (terminatedOne (rule .statement)).read code' (reads code') p =
          some (.matched s m reach) := hsame.trans hread
      refine ⟨max reach reach', by omega, fun rounds => ?_⟩
      show readMany _ (rounds + (s' :: items').length + 1) p = _
      rw [readMany, hread']
      dsimp only
      rw [if_neg (by omega), hrest, Option.map_map]
      refine Option.map_congr fun rd _ => ?_
      cases rd with
      | matched a stop n => exact congrArg (Reading.matched _ _) (Nat.max_assoc _ _ _).symm
      | failed n => exact congrArg Reading.failed (Nat.max_assoc _ _ _).symm
      | error message => rfl

/-- There are no more statements than characters. -/
theorem length_le_of_matchesEach {items : List Node}
    (h : (terminatedOne (rule .statement)).MatchesEach code (reads code) p items q) :
    p + items.length ≤ q := by
  induction h with
  | nil p => exact Nat.le_refl p
  | cons head _ ih =>
    have hlt := (matches_advances head).2.2 (by decide)
    rw [List.length_cons]
    omega

/-! ## The whole of both texts -/

theorem matches_endOfInput {u : Unit}
    (h : (Form.endOfInput : Part Unit).Matches code (reads code) p u q) : p = code.size := by
  obtain ⟨reach, h⟩ := h
  rw [Form.read] at h
  by_cases hp : p = code.size
  · exact hp
  · rw [if_neg hp] at h
    cases h

theorem read_statements_eq (code : Array Char) (p : Nat) :
    (rule .statements).read code (reads code) p =
      readMany ((terminatedOne (rule .statement)).read code (reads code)) (code.size + 1) p := by
  rw [Form.read, reads, Grammar.reader_eq loops_layered]
  rfl

theorem whole_read_eq (text : List Char) :
    whole.read text.toArray (reads text.toArray) 0 = some (descend conversionError? text) :=
  Grammar.read_eq_readForm loops_layered text.toArray whole 0

/-- A program is read as its statements if these end with the code, and else a failure lies where
they end. -/
theorem descend_eq {text : List Char} {items : List Node} {stop reach : Nat}
    (h : (rule .statements).read text.toArray (reads text.toArray) 0 =
      some (.matched items stop reach)) :
    descend conversionError? text =
      if stop = text.length then .matched items stop reach else .failed (max reach stop) := by
  refine Option.some.inj ((whole_read_eq text).symm.trans ?_)
  show Form.read _ _ (.map Prod.fst (.pair (rule .statements) .endOfInput)) 0 = _
  rw [Form.read, Form.read, h, Reading.andThen_matched, Form.read, List.size_toArray]
  by_cases hstop : stop = text.length
  · rw [if_pos hstop, if_pos hstop]
    show some (Reading.matched items stop (max (max reach (max 0 0)) 0)) = _
    rw [Nat.max_self, Nat.max_zero, Nat.max_zero]
  · rw [if_neg hstop, if_neg hstop]
    rfl

/-- An error in the statements is an error of the program. -/
theorem descend_eq_error {text : List Char} {message : String}
    (h : (rule .statements).read text.toArray (reads text.toArray) 0 = some (.error message)) :
    descend conversionError? text = .error message := by
  refine Option.some.inj ((whole_read_eq text).symm.trans ?_)
  show Form.read _ _ (.map Prod.fst (.pair (rule .statements) .endOfInput)) 0 = _
  rw [Form.read, Form.read, h]
  rfl

/-- Statements are read behind another text as they are by themselves, with as many rounds as there
are characters left. -/
theorem statements_carried (first second : List Char) {rounds : Nat}
    (hrounds : second.length < rounds) :
    Carried (· ≤ second.length) first.length
      ((rule .statements).read second.toArray (reads second.toArray) 0)
      (readMany ((terminatedOne (rule .statement)).read (first ++ second).toArray
        (reads (first ++ second).toArray)) rounds first.length) := by
  have hrules : ∀ r : Name, true = true →
      (loops r).form.madeOf (fun _ => true) true (fun _ => true) = true := fun r _ => by
    cases r <;> rfl
  have hstep : ∀ p, p ≤ second.length → Carried (· ≤ second.length) first.length
      ((terminatedOne (rule .statement)).read second.toArray (reads second.toArray) p)
      ((terminatedOne (rule .statement)).read (first ++ second).toArray
        (reads (first ++ second).toArray) (p + first.length)) := fun p hp =>
    (Overlap.behind first second).read_carried loops_layered hrules _ rfl p hp
  have hsize : second.toArray.size = second.length := List.size_toArray
  have hsize' : (first ++ second).toArray.size = first.length + second.length := by
    rw [List.size_toArray, List.length_append]
  have hinside : ∀ p, p ≤ second.length →
      p ≤ second.toArray.size ∧ p + first.length ≤ (first ++ second).toArray.size := by
    intro p hp
    omega
  have hcarried := Carried.many hinside
    (Form.read_advances (Grammar.readRule_advances loops_layered.takes _) _) hstep
    (second.toArray.size + 1) rounds 0 (Nat.zero_le _) (by omega) (by omega)
  rw [Nat.zero_add] at hcarried
  rw [read_statements_eq]
  exact hcarried

/-- Behind the statements of a text, another text is read as it is by itself, without the blanks it
begins with. -/
theorem read_statements_append {first : List Char} (second : List Char) {items : List Node}
    {rd : Reading (List Node)} (hne : items ≠ [])
    (hfirst : (terminatedOne (rule .statement)).MatchesEach first.toArray (reads first.toArray) 0
      items first.toArray.size)
    (hbehind : (rule .statements).read (second.dropWhile isBlank).toArray
      (reads (second.dropWhile isBlank).toArray) 0 = some rd) :
    ∃ begun ≤ blanksEnd first.toArray second, ∃ rd', rd.Moved (blanksEnd first.toArray second) rd' ∧
      (rule .statements).read (first ++ second).toArray (reads (first ++ second).toArray) 0 =
        some ((rd'.map (items ++ ·)).after begun) := by
  have hcode : (first ++ second).toArray.toList = first.toArray.toList ++ second := rfl
  have hsize : first.toArray.size = first.length := List.size_toArray
  have hsize' : (first ++ second).toArray.size = first.length + second.length := by
    rw [List.size_toArray, List.length_append]
  have hcount := length_le_of_matchesEach hfirst
  have hblanks := length_eq_blanks_add second
  obtain ⟨begun, hbegun, happend⟩ := statements_read_append hcode hne rfl hfirst
  -- the rounds that are left when the statements of the first text have been read
  obtain ⟨rounds, hrounds⟩ :
      ∃ rounds, (first ++ second).toArray.size + 1 = rounds + items.length :=
    ⟨(first ++ second).toArray.size + 1 - items.length, by omega⟩
  have hleft : (second.dropWhile isBlank).length < rounds := by omega
  have hcarried := statements_carried (first ++ second.takeWhile isBlank) _ hleft
  rw [List.append_assoc, List.takeWhile_append_dropWhile, List.length_append, ← hsize] at hcarried
  obtain ⟨-, rd', hrd, hmoved⟩ := hcarried _ hbehind
  refine ⟨begun, hbegun, rd', hmoved, ?_⟩
  rw [read_statements_eq, hrounds, happend, blanksEnd, hrd]
  rfl

/-- A text behind the text of a program is read as it is by itself, without the blanks it begins
with. -/
theorem descend_append {first : List Char} (second : List Char) {items : List Node}
    (hne : first ≠ [])
    (hfirst : ∃ q, whole.Matches first.toArray (reads first.toArray) 0 items q) :
    match descend conversionError? (second.dropWhile isBlank) with
    | .matched items' _ _ => ∃ stop reach,
      descend conversionError? (first ++ second) = .matched (items ++ items') stop reach
    | .failed reach =>
      descend conversionError? (first ++ second) =
        .failed (reach + blanksEnd first.toArray second)
    | .error message => descend conversionError? (first ++ second) = .error message := by
  obtain ⟨_, hfirst⟩ := hfirst
  obtain ⟨_, q, hstatements, hend⟩ := Form.matches_before.mp hfirst
  obtain rfl : q = first.toArray.size := matches_endOfInput hend
  have heach := (matches_rule.mp hstatements).many
  have hitems : items ≠ [] := by
    rintro rfl
    generalize hsize : first.toArray.size = size at heach
    cases heach
    exact hne (List.length_eq_zero_iff.mp hsize)
  obtain ⟨rd, hrd⟩ : ∃ rd, (rule .statements).read (second.dropWhile isBlank).toArray
      (reads (second.dropWhile isBlank).toArray) 0 = some rd :=
    ⟨_, Grammar.read_eq_readForm loops_layered _ (rule .statements) 0⟩
  obtain ⟨begun, hbegun, rd', hmoved, hall⟩ := read_statements_append second hitems heach hrd
  rcases readMany_cases ((read_statements_eq _ _).symm.trans hrd) with
    ⟨items', stop, reach, rfl⟩ | ⟨message, rfl⟩
  · obtain ⟨reach', rfl, hmax⟩ := hmoved.eq_matched
    have hlength : (first ++ second).length =
        (second.dropWhile isBlank).length + blanksEnd first.toArray second := by
      rw [List.length_append, length_eq_blanks_add second, blanksEnd, List.size_toArray]
      omega
    rw [descend_eq hrd, descend_eq hall, hlength]
    by_cases hstop : stop = (second.dropWhile isBlank).length
    · rw [if_pos hstop, if_pos (by omega)]
      exact ⟨_, _, rfl⟩
    · rw [if_neg hstop, if_neg (by omega)]
      exact congrArg Reading.failed (by omega)
  · obtain rfl := hmoved.eq_error
    rw [descend_eq_error hrd]
    exact descend_eq_error hall

end CalcScript.Grammar.Program

namespace CalcScript

open Grammar Grammar.Program Packrat

/-- A source without the blanks it begins with. -/
def withoutLeadingBlanks (source : String) : String :=
  String.ofList (source.toList.dropWhile isBlank)

/-- What a source is read as is settled by its text. -/
theorem descend_settles {source : String} {text : List Char} (htext : source.toList = text)
    (h : ¬NestedTooDeeply (readProgram source)) :
    (descend conversionError? text).Settles id (readProgram source) := by
  subst htext
  exact readWith_settled rules_unroll loops_layered whole source source.toList id h

/-- A text behind the text of a program is read as it is by itself, without the blanks it begins
with. -/
theorem readProgram_behind {first second : String} {body : List Node} (hne : first ≠ "")
    (hread : readProgram first = .ok body)
    (hdepth : ¬NestedTooDeeply (readProgram (first ++ second)))
    (hdepth' : ¬NestedTooDeeply (readProgram (withoutLeadingBlanks second))) :
    (∀ behind, readProgram (withoutLeadingBlanks second) = .ok behind →
      readProgram (first ++ second) = .ok (body ++ behind)) ∧
    (∀ r, readProgram (withoutLeadingBlanks second) = .error (.rejected r) →
      ∃ r', readProgram (first ++ second) = .error (.rejected r') ∧ r'.cause = .invalid ∧
        r'.index =
          first.length + (second.length - (withoutLeadingBlanks second).length) + r.index) ∧
    (∀ message, readProgram (withoutLeadingBlanks second) = .error (.failure message) →
      readProgram (first ++ second) = .error (.failure message)) := by
  have hfirst : ∃ q, whole.Matches first.toList.toArray (reads first.toList.toArray) 0 body q :=
    (readWith_eq_ok_iff rules_unroll loops_layered (not_nestedTooDeeply hread)).mp hread
  have happend := descend_append second.toList (fun h => hne (String.toList_inj.mp h)) hfirst
  have hall : (descend conversionError? (first.toList ++ second.toList)).Settles id
      (readProgram (first ++ second)) := descend_settles String.toList_append hdepth
  have hbehind : (descend conversionError? (second.toList.dropWhile isBlank)).Settles id
      (readProgram (withoutLeadingBlanks second)) := descend_settles String.toList_ofList hdepth'
  -- from here on it does not matter how the outcomes have come about
  generalize readProgram (withoutLeadingBlanks second) = o at hbehind ⊢
  generalize readProgram (first ++ second) = o' at hall ⊢
  cases hrd : descend conversionError? (second.toList.dropWhile isBlank) with
  | matched behind stop reach =>
    rw [hrd] at happend hbehind
    obtain ⟨stop', reach', happend⟩ := happend
    obtain rfl : o = .ok behind := hbehind
    rw [happend] at hall
    refine ⟨fun behind' h => ?_, nofun, nofun⟩
    cases h
    exact hall
  | failed reach =>
    rw [hrd] at happend hbehind
    have hfailed : descend conversionError? (first.toList ++ second.toList) = .failed _ := happend
    rw [hfailed] at hall
    obtain ⟨r, rfl, -, -, hindex⟩ := hbehind
    obtain ⟨r', hr', hcause, -, hindex'⟩ := hall
    refine ⟨nofun, fun r₁ h => ?_, nofun⟩
    cases h
    refine ⟨r', hr', hcause, ?_⟩
    have hblanks := length_eq_blanks_add second.toList
    rw [hindex, hindex', blanksEnd, List.size_toArray, withoutLeadingBlanks,
      String.length_ofList, ← String.length_toList, ← String.length_toList]
    show reach + _ = _ + _ + reach
    omega
  | error message =>
    rw [hrd] at happend hbehind
    have herror : descend conversionError? (first.toList ++ second.toList) = .error message := happend
    rw [herror] at hall
    obtain rfl : o = .error (.failure message) := hbehind
    refine ⟨nofun, nofun, fun message' h => ?_⟩
    cases h
    exact hall

/-- **Programs can be read one after the other.** Behind a text that is not empty and is read as a
program, another text is accepted exactly if it is accepted by itself, without the blanks it begins
with. Its statements then follow those of the first text; and if it is rejected, the rejection
points to the same place in it. -/
theorem readProgram_append {first second : String} {body : List Node} (hne : first ≠ "")
    (hread : readProgram first = .ok body)
    (hdepth : ¬NestedTooDeeply (readProgram (first ++ second)))
    (hdepth' : ¬NestedTooDeeply (readProgram (withoutLeadingBlanks second))) :
    ((∃ all, readProgram (first ++ second) = .ok all) ↔
      ∃ behind, readProgram (withoutLeadingBlanks second) = .ok behind) ∧
    (∀ behind, readProgram (withoutLeadingBlanks second) = .ok behind →
      readProgram (first ++ second) = .ok (body ++ behind)) ∧
    (∀ r, readProgram (withoutLeadingBlanks second) = .error (.rejected r) →
      ∃ r', readProgram (first ++ second) = .error (.rejected r') ∧ r'.cause = .invalid ∧
        r'.index =
          first.length + (second.length - (withoutLeadingBlanks second).length) + r.index) := by
  obtain ⟨haccepted, hrejected, hfailing⟩ := readProgram_behind hne hread hdepth hdepth'
  refine ⟨⟨fun ⟨all, hall⟩ => ?_, fun ⟨behind, h⟩ => ⟨_, haccepted behind h⟩⟩, haccepted,
    hrejected⟩
  cases h : readProgram (withoutLeadingBlanks second) with
  | ok behind => exact ⟨behind, rfl⟩
  | error u =>
    cases u with
    | rejected r =>
      obtain ⟨r', hr', -⟩ := hrejected r h
      rw [hall] at hr'
      cases hr'
    | failure message =>
      have hfailure := hfailing message h
      rw [hall] at hfailure
      cases hfailure

/-- Blanks, and a definition whose last statement is not finished. -/
def unfinishedBehind : String := "\n function f(n) { g(n); y };"

/-- It stands behind an assignment. -/
theorem readProgram_append_unfinished :
    ∃ body r r', readProgram "x = 1; " = .ok body ∧
      readProgram (withoutLeadingBlanks unfinishedBehind) = .error (.rejected r) ∧
      readProgram ("x = 1; " ++ unfinishedBehind) = .error (.rejected r') ∧
      r'.cause = .invalid ∧ r'.index = 7 + 2 + r.index := by
  have hfirst : (readProgram "x = 1; ").isOk = true := by decide +kernel
  have hsecond : rejectedAt (readProgram (withoutLeadingBlanks unfinishedBehind)) =
      some (.invalid, 24, 24) := by
    decide +kernel
  have hdepth : ¬NestedTooDeeply (readProgram ("x = 1; " ++ unfinishedBehind)) := by
    decide +kernel
  have hdepth' : ¬NestedTooDeeply
      (readProgram (withoutLeadingBlanks unfinishedBehind)) := by
    decide +kernel
  cases hread : readProgram "x = 1; " with
  | error u => rw [hread] at hfirst; cases hfirst
  | ok body =>
    obtain ⟨r, hr, -⟩ := exists_of_rejectedAt hsecond
    obtain ⟨-, -, hrejected⟩ := readProgram_append (by decide) hread hdepth hdepth'
    obtain ⟨r', hr', hcause, hindex⟩ := hrejected r hr
    exact ⟨body, r, r', rfl, hr, hr', hcause, hindex⟩

end CalcScript
