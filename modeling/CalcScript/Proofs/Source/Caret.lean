import CalcScript.Proofs.Packrat.Consistency
import CalcScript.Proofs.Source.Settled

/-!
# Where the caret points

> `rejections_point`: the diagnostic of invalid input has three lines, and the caret in the third
> stands below the character at which reading gave up, or one column behind the line above it if
> reading gave up at the end.

An arithmetic expression is read without its blanks, and the position is mapped back: what stands
before it in the source is what stands before it in the text that was read, apart from blanks
(`BelongsTo`).
-/

namespace CalcScript

open Packrat

/-! ## Three lines -/

/-- The column in which the caret for a position stands. -/
def caretColumn (index : Nat) : Nat :=
  index - (index - windowReach) + if 0 < index - windowReach then ellipsis.length else 0

/-- The message is that of invalid input, in three lines, and the caret in the last line points to
the position: it stands below the character at the position, which is shown as a space if it is a
line end; and for the position behind all characters, it stands one column behind the line above. -/
def PointsTo (message : String) (source : List Char) (index : Nat) : Prop :=
  ∃ shown column,
    message.toList.splitOn '\n' =
      ["[Parser error] Invalid input".toList, shown, List.replicate column ' ' ++ ['^']] ∧
    (∀ c, source[index]? = some c → shown[column]? = some (if c = '\n' then ' ' else c)) ∧
    (index = source.length → column = shown.length)

section

variable {source : List Char} {index : Nat}

theorem caret_eq (index : Nat) : caret index = List.replicate (caretColumn index) ' ' ++ ['^'] := rfl

theorem lineEnd_not_mem_caret (index : Nat) : '\n' ∉ caret index := by
  intro hmem
  rw [caret_eq] at hmem
  rcases List.mem_append.mp hmem with hmem | hmem
  · cases List.eq_of_mem_replicate hmem
  · exact absurd hmem (by decide)

/-- The window shows no line end. -/
theorem lineEnd_not_mem_window (source : List Char) (index : Nat) : '\n' ∉ window source index := by
  have hdots : ∀ shown : Prop, [Decidable shown] → '\n' ∉ (if shown then ellipsis else []) := by
    intro shown _
    split <;> decide
  have hchars : ∀ text : List Char, '\n' ∉ text.map shownInWindow := by
    intro text hmem
    obtain ⟨c, -, hc⟩ := List.mem_map.mp hmem
    rw [shownInWindow] at hc
    split at hc
    · cases hc
    · next hne => exact hne hc
  intro hmem
  rw [window] at hmem
  rcases List.mem_append.mp hmem with hmem | hmem
  · rcases List.mem_append.mp hmem with hmem | hmem
    · exact hdots _ hmem
    · exact hchars _ hmem
  · exact hdots _ hmem

/-- The caret stands below the character at the position. -/
theorem window_getElem? (h : index < source.length) :
    (window source index)[caretColumn index]? = (source[index]?).map shownInWindow := by
  have hreach : windowReach = 10 := rfl
  rw [window, caretColumn]
  generalize hpre : (if 0 < index - windowReach then ellipsis else []) = pre
  have hlength : (if 0 < index - windowReach then ellipsis.length else 0) = pre.length := by
    rw [← hpre]
    split <;> rfl
  rw [hlength]
  have hstop : index < min source.length (index + windowReach) := by omega
  have hmid : index - (index - windowReach) + pre.length <
      (pre ++ ((source.take (min source.length (index + windowReach))).drop
        (index - windowReach)).map shownInWindow).length := by
    rw [List.length_append, List.length_map, List.length_drop, List.length_take]
    omega
  rw [List.getElem?_append_left hmid, List.getElem?_append_right (by omega), Nat.add_sub_cancel,
    List.getElem?_map, List.getElem?_drop, List.getElem?_take_of_lt (by omega)]
  congr 2
  omega

/-- The caret for the position behind all characters stands behind the window. -/
theorem length_window : (window source source.length).length = caretColumn source.length := by
  have hreach : windowReach = 10 := rfl
  rw [window, caretColumn]
  rw [Nat.min_eq_left (by omega), if_neg (Nat.lt_irrefl _), List.append_nil, List.length_append,
    List.length_map, List.length_drop, List.length_take]
  split
  · omega
  · rw [List.length_nil]
    omega

theorem diagnostic_toList (reason : String) (source : List Char) (index : Nat) :
    (diagnostic reason source index).toList = ['\n'].intercalate
      ["[Parser error] ".toList ++ reason.toList, window source index, caret index] := by
  unfold diagnostic
  simp only [String.toList_append, String.toList_ofList, List.intercalate, List.intersperse,
    List.flatten_cons, List.flatten_nil, List.append_assoc, List.append_nil]
  rfl

/-- A diagnostic of invalid input points to its position. -/
theorem diagnostic_pointsTo (source : List Char) (index : Nat) :
    PointsTo (diagnostic RejectionCause.invalid.reason source index) source index := by
  refine ⟨window source index, caretColumn index, ?_, fun c hc => ?_, ?_⟩
  · rw [diagnostic_toList, List.splitOn_intercalate, caret_eq]
    · rfl
    · rw [List.forall_mem_cons, List.forall_mem_cons, List.forall_mem_singleton]
      exact ⟨by decide, lineEnd_not_mem_window source index, lineEnd_not_mem_caret index⟩
    · exact List.cons_ne_nil _ _
  · obtain ⟨hlt, -⟩ := List.getElem?_eq_some_iff.mp hc
    rw [window_getElem? hlt, hc]
    rfl
  · rintro rfl
    exact length_window.symm

end

/-! ## Positions in a source and in what remains of it -/

/-- The position is the one behind the last character that is no blank, or the start if there is no
such character. -/
def IsBehindLast (source : List Char) (k : Nat) : Prop :=
  (∃ before c after, source = before ++ c :: after ∧ isBlank c = false ∧
    isBlankText after = true ∧ k = before.length + 1) ∨
  (isBlankText source = true ∧ k = 0)

/-- The position `k` of a source is the one that belongs to the position `i` of the source without
its blanks: the same stands before it, and the same character stands at it. -/
structure BelongsTo (source : List Char) (i k : Nat) : Prop where
  inside : k ≤ source.length
  before : withoutBlanks (source.take k) = (withoutBlanks source).take i
  within : i < (withoutBlanks source).length → source[k]? = (withoutBlanks source)[i]?
  behind : i = (withoutBlanks source).length → IsBehindLast source k

theorem withoutBlanks_append (text rest : List Char) :
    withoutBlanks (text ++ rest) = withoutBlanks text ++ withoutBlanks rest :=
  List.filter_append text rest

theorem withoutBlanks_cons_of_isBlank {c : Char} {rest : List Char} (h : isBlank c = true) :
    withoutBlanks (c :: rest) = withoutBlanks rest := by
  rw [withoutBlanks, List.filter_cons, h]
  rfl

theorem withoutBlanks_cons {c : Char} {rest : List Char} (h : isBlank c = false) :
    withoutBlanks (c :: rest) = c :: withoutBlanks rest := by
  rw [withoutBlanks, List.filter_cons, h]
  rfl

theorem isBlankText_iff {text : List Char} : isBlankText text = true ↔ withoutBlanks text = [] := by
  rw [isBlankText, List.all_eq_true, withoutBlanks, List.filter_eq_nil_iff]
  refine forall₂_congr fun c _ => ?_
  cases isBlank c <;> simp

/-- At a position that is kept, a character stands that is no blank, behind as many others as its
number says. -/
theorem exists_of_keptPositions {p : Nat} (text : List Char) :
    ∀ pos i, (keptPositions pos text)[i]? = some p →
      ∃ before c after, text = before ++ c :: after ∧ isBlank c = false ∧
        (withoutBlanks before).length = i ∧ p = pos + before.length := by
  induction text with
  | nil => intro pos i h; cases h
  | cons d rest ih =>
    intro pos i h
    rw [keptPositions] at h
    cases hd : isBlank d with
    | true =>
      rw [hd, if_pos rfl] at h
      obtain ⟨before, c, after, rfl, hc, hi, hp⟩ := ih _ _ h
      refine ⟨d :: before, c, after, rfl, hc, ?_, ?_⟩
      · rw [withoutBlanks_cons_of_isBlank hd, hi]
      · rw [hp, List.length_cons]
        omega
    | false =>
      rw [hd, if_neg Bool.false_ne_true] at h
      cases i with
      | zero =>
        cases h
        exact ⟨[], d, rest, rfl, hd, rfl, rfl⟩
      | succ i =>
        obtain ⟨before, c, after, rfl, hc, hi, hp⟩ := ih _ _ h
        refine ⟨d :: before, c, after, rfl, hc, ?_, ?_⟩
        · rw [withoutBlanks_cons hd, List.length_cons, hi]
        · rw [hp, List.length_cons]
          omega

/-- The position behind the last character that is no blank belongs to the end. -/
theorem IsBehindLast.belongsTo {source : List Char} {k : Nat} (h : IsBehindLast source k) :
    BelongsTo source (withoutBlanks source).length k := by
  refine ⟨?_, ?_, fun hlt => absurd rfl (Nat.ne_of_lt hlt), fun _ => h⟩
  · rcases h with ⟨before, c, after, rfl, -, -, rfl⟩ | ⟨-, rfl⟩
    · rw [List.length_append, List.length_cons]
      omega
    · exact Nat.zero_le _
  · rw [List.take_length]
    rcases h with ⟨before, c, after, rfl, hc, hafter, rfl⟩ | ⟨hblank, rfl⟩
    · have hsplit : before ++ c :: after = (before ++ [c]) ++ after := by
        rw [List.append_assoc, List.singleton_append]
      have hlength : before.length + 1 = (before ++ [c]).length := by
        rw [List.length_append, List.length_singleton]
      rw [hsplit, hlength, List.take_left, withoutBlanks_append (before ++ [c]),
        isBlankText_iff.mp hafter, List.append_nil]
    · rw [List.take_zero, isBlankText_iff.mp hblank]
      rfl

/-- Behind the text without blanks, the position is the one behind the last character of it. -/
theorem sourcePosition_isBehindLast (source : List Char) :
    IsBehindLast source (sourcePosition source (withoutBlanks source).length) := by
  have hlength := length_keptPositions source 0
  rw [sourcePosition, ← hlength, List.getElem?_eq_none (Nat.le_refl _)]
  cases hlast : (keptPositions 0 source).getLast? with
  | none =>
    rw [List.getLast?_eq_none_iff.mp hlast] at hlength
    exact .inr ⟨isBlankText_iff.mpr (List.eq_nil_of_length_eq_zero hlength.symm), rfl⟩
  | some p =>
    rw [List.getLast?_eq_getElem?] at hlast
    obtain ⟨before, c, after, rfl, hc, hi, hp⟩ := exists_of_keptPositions source 0 _ hlast
    have hlt := (List.getElem?_eq_some_iff.mp hlast).1
    -- no character behind this one is kept, since the numbers are used up
    rw [withoutBlanks_append, withoutBlanks_cons hc, List.length_append, List.length_cons] at hlength
    have hafter : (withoutBlanks after).length = 0 := by omega
    refine .inl ⟨before, c, after, rfl, hc, ?_, ?_⟩
    · exact isBlankText_iff.mpr (List.eq_nil_of_length_eq_zero hafter)
    · show p + 1 = before.length + 1
      omega

/-- A position in the text without blanks belongs to the position that it is mapped back to. -/
theorem sourcePosition_belongsTo {source : List Char} {i : Nat}
    (h : i ≤ (withoutBlanks source).length) : BelongsTo source i (sourcePosition source i) := by
  rcases Nat.eq_or_lt_of_le h with rfl | hlt
  · exact (sourcePosition_isBehindLast source).belongsTo
  · obtain ⟨p, hkept⟩ : ∃ p, (keptPositions 0 source)[i]? = some p := by
      rw [← length_keptPositions source 0] at hlt
      exact ⟨_, List.getElem?_eq_getElem hlt⟩
    rw [sourcePosition, hkept]
    obtain ⟨before, c, after, rfl, hc, rfl, rfl⟩ := exists_of_keptPositions source 0 i hkept
    have hsplit : withoutBlanks (before ++ c :: after) =
        withoutBlanks before ++ c :: withoutBlanks after := by
      rw [withoutBlanks_append, withoutBlanks_cons hc]
    rw [Nat.zero_add]
    refine ⟨?_, ?_, fun _ => ?_, fun heq => absurd heq (Nat.ne_of_lt hlt)⟩
    · rw [List.length_append]
      exact Nat.le_add_right _ _
    · rw [List.take_left, hsplit, List.take_left]
    · rw [hsplit, List.getElem?_append_right (Nat.le_refl _),
        List.getElem?_append_right (Nat.le_refl _), Nat.sub_self, Nat.sub_self]
      rfl

/-! ## Rejected sources -/

/-- A rejection carries the source, and its message points to its position in it. -/
structure Rejection.PointsInto (r : Rejection) (source : String) : Prop where
  keeps : r.source = source
  inside : r.index ≤ source.toList.length
  message : PointsTo r.message source.toList r.index

theorem Rejection.pointsInto {r : Rejection} {source : String} (hcause : r.cause = .invalid)
    (hsource : r.source = source) (hinside : r.index ≤ source.toList.length) :
    r.PointsInto source := by
  refine ⟨hsource, hinside, ?_⟩
  rw [Rejection.message, hcause, hsource]
  exact diagnostic_pointsTo source.toList r.index

/-- Invalid input is rejected with the position at which recognition has failed furthest, which lies
inside the text that was read. -/
theorem readWith_invalid {ρ : Type} [DecidableEq ρ] {Res : ρ → Type} {α : Type}
    {G : Grammar ρ Res} {whole : Form ρ Res α} {source : String} {code : List Char}
    {toSource : Nat → Nat} {r : Rejection}
    (h : readWith G whole source code toSource = .error (.rejected r))
    (hcause : r.cause = .invalid) :
    r.source = source ∧ r.index = toSource r.reached ∧ r.reached ≤ code.length ∧
      ∃ s, G.parse code.toArray nestingBudget whole .start = .failed s ∧
        s.furthest = r.reached := by
  rw [readWith] at h
  cases ho : G.parse code.toArray nestingBudget whole .start with
  | matched a s =>
    rw [ho] at h
    cases h
  | stopped cause s =>
    rw [ho] at h
    cases cause with
    | tooDeep => cases h; cases hcause
    | error message => cases h
  | failed s =>
    rw [ho] at h
    cases h
    have hs : G.Attempted code.toArray (G.parse code.toArray nestingBudget whole .start).state :=
      .attempt (.rewind .start) whole nestingBudget (by
        show (G.parse code.toArray nestingBudget whole .start).Finished
        rw [ho]
        trivial)
    rw [ho] at hs
    exact ⟨rfl, rfl, hs.consistent.furthest, s, rfl, rfl⟩

/-- **The caret points to where reading gave up.** A source that is rejected as invalid input is
kept as it is, and the message points to a position in it. In a program this is the position at
which recognition has failed furthest; in an arithmetic expression it is the one that belongs to
the position at which recognition of the text without blanks has failed furthest. -/
theorem rejections_point (source : String) (r : Rejection) (hcause : r.cause = .invalid) :
    (readProgram source = .error (.rejected r) →
      r.PointsInto source ∧ r.index = r.reached ∧
      ∃ s, Grammar.Program.rules.parse source.toList.toArray nestingBudget Grammar.Program.whole
        .start = .failed s ∧ s.furthest = r.reached) ∧
    (readArithmetic source = .error (.rejected r) →
      r.PointsInto source ∧ BelongsTo source.toList r.reached r.index ∧
      r.reached ≤ (withoutBlanks source.toList).length ∧
      ∃ s, Grammar.Arithmetic.rules.parse (withoutBlanks source.toList).toArray nestingBudget
        Grammar.Arithmetic.whole .start = .failed s ∧ s.furthest = r.reached) := by
  constructor
  · intro h
    obtain ⟨hsource, hindex, hreached, hfailed⟩ := readWith_invalid h hcause
    exact ⟨Rejection.pointsInto hcause hsource (hindex ▸ hreached), hindex, hfailed⟩
  · intro h
    obtain ⟨hsource, hindex, hreached, hfailed⟩ := readWith_invalid h hcause
    have hbelongs := sourcePosition_belongsTo hreached
    rw [← hindex] at hbelongs
    exact ⟨Rejection.pointsInto hcause hsource hbelongs.inside, hbelongs, hreached, hfailed⟩

/-- A call that breaks off in its second line, and a term that lacks its second factor. -/
theorem rejections_point_brokenOff :
    (∃ r, r.cause = .invalid ∧ readProgram "f(1,\n2" = .error (.rejected r) ∧ r.PointsInto "f(1,\n2" ∧
      r.index = 6) ∧
    ∃ r, r.cause = .invalid ∧ readArithmetic "1 +\n(2 / ) * 3" = .error (.rejected r) ∧
      r.PointsInto "1 +\n(2 / ) * 3" ∧ BelongsTo "1 +\n(2 / ) * 3".toList 5 9 := by
  constructor
  · obtain ⟨r, hread, hcause, -, hindex⟩ := exists_of_rejectedAt
      (show rejectedAt (readProgram "f(1,\n2") = some (.invalid, 6, 6) by decide +kernel)
    exact ⟨r, hcause, hread, ((rejections_point _ r hcause).1 hread).1, hindex⟩
  · obtain ⟨r, hread, hcause, hreached, hindex⟩ := exists_of_rejectedAt
      (show rejectedAt (readArithmetic "1 +\n(2 / ) * 3") = some (.invalid, 5, 9) by
        decide +kernel)
    obtain ⟨hpoints, hbelongs, -⟩ := (rejections_point _ r hcause).2 hread
    rw [hreached, hindex] at hbelongs
    exact ⟨r, hcause, hread, hpoints, hbelongs⟩

end CalcScript
