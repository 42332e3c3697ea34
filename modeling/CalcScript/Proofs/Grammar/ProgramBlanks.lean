import CalcScript.Proofs.Grammar.ProgramAppend

/-!
# Two programs as one

> `readProgram_joined`: the texts of two programs, one behind the other, are the text of a program
> with the statements of both.

What is read of a text behind another is what is read of it without the blanks it begins with
(`descend_append`). If it is a program, these blanks do not matter: its first statement may begin
behind them, and ends where it has ended (`terminatedOne_behind_blanks`).
-/

namespace CalcScript.Grammar.Program

open Packrat

variable {code : Array Char} {p q : Nat}

/-- A statement behind blanks is a statement without them too. -/
theorem terminatedOne_behind_blanks {t w : List Char} {s : Node}
    (htext : TextFrom code p (t ++ w)) (ht : ∀ c ∈ t, isBlank c = true)
    (hw : NotStarting isBlank w)
    (h : (terminatedOne (rule .statement)).Matches code (reads code) p s q) :
    (terminatedOne (rule .statement)).Matches code (reads code) (p + t.length) s q := by
  obtain ⟨o, m, hhead, hblanks⟩ := Form.matches_before.mp h
  obtain ⟨c, j, hspaced, hsemicolon⟩ := Form.matches_before.mp hhead
  obtain ⟨o', e, hbegin, hbehind⟩ := Form.matches_before.mp hspaced
  obtain ⟨o₀, i, hbefore, hstatement⟩ := Form.matches_andThen.mp hbegin
  obtain ⟨o₁, n, hread, -⟩ := someBlanks_read (reads code) htext ht hw
  obtain ⟨-, rfl⟩ := hbefore.unique ⟨n, hread⟩
  -- behind the blanks there are no more of them
  obtain ⟨o₂, n', hnone, -⟩ := someBlanks_read (reads code) (t := []) htext.drop
    (fun c hc => absurd hc List.not_mem_nil) hw
  have hbegin' : (someBlanks *> rule .statement).Matches code (reads code) (p + t.length) s e :=
    Form.matches_andThen.mpr ⟨o₂, p + t.length, ⟨n', hnone⟩, hstatement⟩
  have hspaced' := Form.matches_before.mpr ⟨o', e, hbegin', hbehind⟩
  have hhead' := Form.matches_before.mpr ⟨c, j, hspaced', hsemicolon⟩
  exact Form.matches_before.mpr ⟨o, m, hhead', hblanks⟩

/-- The statements of a text, if there are any, are read alike from where its first blanks end. -/
theorem statements_from_blanksEnd {text : List Char} {items : List Node} {stop reach : Nat}
    (hne : items ≠ [])
    (h : (rule .statements).read text.toArray (reads text.toArray) 0 =
      some (.matched items stop reach)) :
    ∃ reach', readMany ((terminatedOne (rule .statement)).read text.toArray (reads text.toArray))
        (text.toArray.size + 1) (text.takeWhile isBlank).length =
          some (.matched items stop reach') := by
  rw [read_statements_eq, readMany] at h
  cases hone : (terminatedOne (rule .statement)).read text.toArray (reads text.toArray) 0 with
  | none => rw [hone] at h; cases h
  | some rd =>
    cases rd with
    | failed n =>
      rw [hone] at h
      cases h
      exact absurd rfl hne
    | error message =>
      rw [hone] at h
      cases h
    | matched s m n =>
      rw [hone] at h
      have hm := (matches_advances ⟨n, hone⟩).2.2 (by decide)
      have htext : TextFrom text.toArray 0 (text.takeWhile isBlank ++ text.dropWhile isBlank) :=
        List.takeWhile_append_dropWhile.symm
      obtain ⟨n', hone'⟩ := terminatedOne_behind_blanks htext
        (List.all_eq_true.mp List.all_takeWhile) (notStarting_dropWhile isBlank text) ⟨n, hone⟩
      rw [Nat.zero_add] at hone'
      have hm' := (matches_advances ⟨n', hone'⟩).2.2 (by decide)
      rw [readMany, hone']
      dsimp only at h ⊢
      rw [if_neg (by omega)] at h
      rw [if_neg (by omega)]
      obtain ⟨rd, hrest, hrd⟩ := Option.map_eq_some_iff.mp h
      obtain ⟨items', stop', reach', rfl⟩ | ⟨message, rfl⟩ := readMany_cases hrest
      · cases hrd
        rw [hrest]
        exact ⟨_, rfl⟩
      · cases hrd

/-- Statements are always read, some of them or none, unless there is an error. -/
theorem read_statements_cases (text : List Char) :
    (∃ items stop reach, (rule .statements).read text.toArray (reads text.toArray) 0 =
      some (.matched items stop reach)) ∨
    ∃ message, (rule .statements).read text.toArray (reads text.toArray) 0 =
      some (.error message) := by
  have hread : (rule .statements).read text.toArray (reads text.toArray) 0 = some _ :=
    Grammar.read_eq_readForm loops_layered text.toArray (rule .statements) 0
  rcases readMany_cases ((read_statements_eq _ _).symm.trans hread) with
    ⟨items, stop, reach, hrd⟩ | ⟨message, hrd⟩
  · exact .inl ⟨items, stop, reach, hread.trans (congrArg some hrd)⟩
  · exact .inr ⟨message, hread.trans (congrArg some hrd)⟩

/-- The statements of a program fill its text. -/
theorem read_statements_of_descend {text : List Char} {items : List Node} {stop reach : Nat}
    (h : descend conversionError? text = .matched items stop reach) :
    ∃ reach', (rule .statements).read text.toArray (reads text.toArray) 0 =
      some (.matched items text.length reach') := by
  rcases read_statements_cases text with ⟨items', stop', reach', hread⟩ | ⟨message, hread⟩
  · rw [descend_eq hread] at h
    by_cases hstop : stop' = text.length
    · rw [if_pos hstop] at h
      cases h
      rw [← hstop]
      exact ⟨_, hread⟩
    · rw [if_neg hstop] at h
      cases h
  · rw [descend_eq_error hread] at h
    cases h

/-- A program behind blanks is the same program without them. -/
theorem descend_dropWhile {text : List Char} {items : List Node} {stop reach : Nat}
    (h : descend conversionError? text = .matched items stop reach) :
    ∃ stop' reach', descend conversionError? (text.dropWhile isBlank) = .matched items stop' reach' := by
  obtain ⟨reach₁, hread⟩ := read_statements_of_descend h
  by_cases hne : items = []
  · -- only the empty text has no statements
    subst hne
    have heach := (matches_rule.mp ⟨reach₁, hread⟩).many
    generalize hlength : text.length = length at heach
    cases heach
    obtain rfl := List.length_eq_zero_iff.mp hlength
    exact ⟨_, _, h⟩
  · obtain ⟨reach₂, hfrom⟩ := statements_from_blanksEnd hne hread
    have hlength := length_eq_blanks_add text
    have hleft : (text.dropWhile isBlank).length < text.toArray.size + 1 := by
      rw [List.size_toArray]
      omega
    have hcarried := statements_carried (text.takeWhile isBlank) _ hleft
    rw [List.takeWhile_append_dropWhile] at hcarried
    rcases read_statements_cases (text.dropWhile isBlank) with
      ⟨items', stop', reach', hread'⟩ | ⟨message, hread'⟩
    · obtain ⟨-, rd, hrd, hmoved⟩ := hcarried _ hread'
      cases hrd.symm.trans hfrom
      obtain ⟨rfl, hstop, -⟩ := hmoved
      rw [descend_eq hread', if_pos (by omega)]
      exact ⟨_, _, rfl⟩
    · obtain ⟨-, rd, hrd, hmoved⟩ := hcarried _ hread'
      cases hrd.symm.trans hfrom
      exact hmoved.elim

end CalcScript.Grammar.Program

namespace CalcScript

open Grammar Grammar.Program Packrat

/-- The empty source is the program without statements. -/
theorem readProgram_empty : readProgram "" = .ok [] := rfl

/-- What is accepted as a program is read as one. -/
theorem descend_of_readProgram {source : String} {body : List Node}
    (hread : readProgram source = .ok body) :
    ∃ stop reach, descend conversionError? source.toList = .matched body stop reach := by
  have hsettled : (descend conversionError? source.toList).Settles id (readProgram source) :=
    descend_settles rfl (not_nestedTooDeeply hread)
  rw [hread] at hsettled
  cases hrd : descend conversionError? source.toList with
  | matched items stop reach =>
    rw [hrd] at hsettled
    cases (hsettled : Except.ok body = .ok items)
    exact ⟨stop, reach, rfl⟩
  | failed reach =>
    rw [hrd] at hsettled
    obtain ⟨r, hr, -⟩ := hsettled
    cases hr
  | error message =>
    rw [hrd] at hsettled
    have hfailure : (.ok body : Except Unreadable _) = .error (.failure message) := hsettled
    cases hfailure

/-- **Two programs, one behind the other, are one program.** It has the statements of the first and
then those of the second. -/
theorem readProgram_joined {first second : String} {body body' : List Node}
    (hread : readProgram first = .ok body) (hread' : readProgram second = .ok body')
    (hdepth : ¬NestedTooDeeply (readProgram (first ++ second))) :
    readProgram (first ++ second) = .ok (body ++ body') := by
  by_cases hne : first = ""
  · subst hne
    obtain rfl : body = [] := Except.ok.inj (hread.symm.trans readProgram_empty)
    rw [String.empty_append]
    exact hread'
  · have hfirst : ∃ q, whole.Matches first.toList.toArray (reads first.toList.toArray) 0 body q :=
      (readWith_eq_ok_iff rules_unroll loops_layered (not_nestedTooDeeply hread)).mp hread
    have happend := descend_append second.toList (fun h => hne (String.toList_inj.mp h)) hfirst
    obtain ⟨_, _, hsecond⟩ := descend_of_readProgram hread'
    obtain ⟨_, _, hbehind⟩ := descend_dropWhile hsecond
    rw [hbehind] at happend
    obtain ⟨_, _, hall⟩ := happend
    have hsettled : (descend conversionError? (first.toList ++ second.toList)).Settles id
        (readProgram (first ++ second)) := descend_settles String.toList_append hdepth
    rw [hall] at hsettled
    exact hsettled

end CalcScript
