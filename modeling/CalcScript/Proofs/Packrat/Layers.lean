import CalcScript.Proofs.Packrat.Advance

/-!
# Layered grammars: reading always ends

Layers give each rule a rank. A grammar is layered if a rule, before it has taken a character, calls
only rules of smaller rank. So calls inside calls at one position go down the layers, and everything
else happens at later positions:

> `Grammar.readRule_isSome`: in a layered grammar every rule call has a reading.

`Grammar.reader` reads to the depth of calls that this needs. It satisfies the equations of the
grammar, `Grammar.reader_eq`, without any mention of depth.
-/

namespace CalcScript.Packrat

/-- Layers of rules: what the rules take is said along with their ranks. -/
structure Layers (ρ : Type) where
  /-- The rule takes a character whenever it matches. -/
  takes : ρ → Bool
  rank : ρ → Nat
  height : Nat
  rank_lt : ∀ r, rank r < height

variable {ρ : Type} {Res : ρ → Type} {α β : Type}

/-- All rules that the form may call before it has taken a character have ranks below `k`. -/
def Form.startsBelow (L : Layers ρ) (k : Nat) : {α : Type} → Form ρ Res α → Bool
  | _, .pattern _ => true
  | _, .endOfInput => true
  | _, .skip _ => true
  | _, .fail => true
  | _, .pair f g => f.startsBelow L k && (f.takes L.takes || g.startsBelow L k)
  | _, .map _ f => f.startsBelow L k
  | _, .refine _ f => f.startsBelow L k
  | _, .checked _ f => f.startsBelow L k
  | _, .orElse f g => f.startsBelow L k && g.startsBelow L k
  | _, .optional f => f.startsBelow L k
  | _, .many f => f.startsBelow L k
  | _, .call r => L.rank r < k

/-- A grammar whose rules begin with calls of smaller rank only. -/
structure Grammar.Layered (G : Grammar ρ Res) (L : Layers ρ) : Prop where
  takes : ∀ r, L.takes r = true → (G r).form.takes L.takes = true
  starts : ∀ r, (G r).form.startsBelow L (L.rank r) = true

/-- The calls that may be made from `pos` on by what may begin with calls of rank below `k`. -/
def Layers.Beyond (L : Layers ρ) (pos k : Nat) (r : ρ) (q : Nat) : Prop :=
  pos < q ∨ (q = pos ∧ L.rank r < k)

/-- What is beyond a call that is itself beyond `pos` is beyond `pos`. -/
theorem Layers.Beyond.trans {L : Layers ρ} {pos k q k' : Nat} {r : ρ} {p : Nat}
    (hq : pos < q ∨ (q = pos ∧ k' ≤ k)) (h : L.Beyond q k' r p) : L.Beyond pos k r p := by
  rcases h with h | ⟨rfl, h⟩
  · exact Or.inl (by omega)
  · rcases hq with hq | ⟨rfl, hk⟩
    · exact Or.inl hq
    · exact Or.inr ⟨rfl, by omega⟩

/-- If all ranks are below `k`, forms begin with calls of rank below `k`. -/
theorem Form.startsBelow_of_forall {L : Layers ρ} {k : Nat} (hk : ∀ r, L.rank r < k)
    (form : Form ρ Res α) : form.startsBelow L k = true := by
  induction form with
  | pair f g ihf ihg => simp [Form.startsBelow, ihf, ihg]
  | orElse f g ihf ihg => simp [Form.startsBelow, ihf, ihg]
  | map k f ih => exact ih
  | refine k f ih => exact ih
  | checked e f ih => exact ih
  | optional f ih => exact ih
  | many f ih => exact ih
  | call r => exact decide_eq_true (hk r)
  | _ => rfl

/-! ## Where the parts of a form are read -/

/-- The form may be read at `p` by what may begin at `pos` with calls of rank below `k`. -/
def Form.StartsBeyond (L : Layers ρ) (pos k : Nat) (form : Form ρ Res α) (p : Nat) : Prop :=
  pos < p ∨ (p = pos ∧ form.startsBelow L k = true)

/-- A sequence starts where its first form does. -/
theorem Form.StartsBeyond.left {L : Layers ρ} {pos k p : Nat} {f : Form ρ Res α}
    {g : Form ρ Res β} (h : (Form.pair f g).StartsBeyond L pos k p) : f.StartsBeyond L pos k p := by
  rcases h with h | ⟨rfl, h⟩
  · exact Or.inl h
  · rw [Form.startsBelow, Bool.and_eq_true] at h
    exact Or.inr ⟨rfl, h.1⟩

/-- The second form of a pair is read behind what the first has taken. -/
theorem Form.StartsBeyond.right {L : Layers ρ} {pos k p size stop reach : Nat} {f : Form ρ Res α}
    {g : Form ρ Res β} {a : α} (h : (Form.pair f g).StartsBeyond L pos k p)
    (hadv : (Reading.matched a stop reach).Advances size p (f.takes L.takes)) :
    g.StartsBeyond L pos k stop := by
  obtain ⟨hle, _, _, htakes⟩ := hadv
  rcases h with h | ⟨rfl, h⟩
  · exact Or.inl (by omega)
  · rw [Form.startsBelow, Bool.and_eq_true, Bool.or_eq_true] at h
    rcases h.2 with ht | hg
    · exact Or.inl (htakes ht)
    · rcases Nat.eq_or_lt_of_le hle with he | hlt
      · exact Or.inr ⟨he.symm, hg⟩
      · exact Or.inl hlt

/-- A choice starts where its first alternative does. -/
theorem Form.StartsBeyond.first {L : Layers ρ} {pos k p : Nat} {f g : Form ρ Res α}
    (h : (Form.orElse f g).StartsBeyond L pos k p) : f.StartsBeyond L pos k p := by
  rcases h with h | ⟨rfl, h⟩
  · exact Or.inl h
  · rw [Form.startsBelow, Bool.and_eq_true] at h
    exact Or.inr ⟨rfl, h.1⟩

/-- It starts where its second does as well. -/
theorem Form.StartsBeyond.second {L : Layers ρ} {pos k p : Nat} {f g : Form ρ Res α}
    (h : (Form.orElse f g).StartsBeyond L pos k p) : g.StartsBeyond L pos k p := by
  rcases h with h | ⟨rfl, h⟩
  · exact Or.inl h
  · rw [Form.startsBelow, Bool.and_eq_true] at h
    exact Or.inr ⟨rfl, h.2⟩

/-- What may be read somewhere may be read at any later position. -/
theorem Form.StartsBeyond.later {L : Layers ρ} {pos k p q : Nat} {f : Form ρ Res α}
    (h : f.StartsBeyond L pos k p) (hle : p ≤ q) : f.StartsBeyond L pos k q := by
  rcases h with h | ⟨rfl, h⟩
  · exact Or.inl (by omega)
  · rcases Nat.eq_or_lt_of_le hle with he | hlt
    · exact Or.inr ⟨he.symm, h⟩
    · exact Or.inl hlt

/-- A call starts with a rule of a lower rank, or further on. -/
theorem Form.StartsBeyond.call {L : Layers ρ} {pos k p : Nat} {r : ρ}
    (h : (Form.call r : Form ρ Res (Res r)).StartsBeyond L pos k p) : L.Beyond pos k r p := by
  rcases h with h | ⟨rfl, h⟩
  · exact Or.inl h
  · exact Or.inr ⟨rfl, of_decide_eq_true h⟩

/-! ## Every call has a reading -/

/-- There is a reading, and if it is a match, it ends at a position of which `P` holds. -/
def Reading.Within (P : Nat → Prop) (o : Option (Reading α)) : Prop :=
  ∃ rd, o = some rd ∧ ∀ a q n, rd = .matched a q n → P q

namespace Reading.Within

variable {P Q : Nat → Prop} {p q n : Nat} {a : α} {o : Option (Reading α)}

/-- A match that ends at such a position. -/
theorem matched (h : P q) : Within P (some (.matched a q n)) :=
  ⟨_, rfl, fun b q' n' heq => by cases heq; exact h⟩

/-- A failure ends nowhere. -/
theorem failed (n : Nat) : Within P (some (.failed n : Reading α)) :=
  ⟨_, rfl, fun b q' n' heq => by cases heq⟩

/-- Neither does an error. -/
theorem error (message : String) : Within P (some (.error message : Reading α)) :=
  ⟨_, rfl, fun b q' n' heq => by cases heq⟩

/-- A weaker condition on the end holds as well. -/
theorem imp (himp : ∀ q, P q → Q q) (h : Within P o) : Within Q o := by
  obtain ⟨rd, hrd, hmatch⟩ := h
  exact ⟨rd, hrd, fun a q n heq => himp q (hmatch a q n heq)⟩

/-- A sequence ends where the second form does, behind a match of the first. -/
theorem andThen {next : α → Nat → Option (Reading β)} (h : Within P o)
    (hnext : ∀ a q, P q → Within Q (next a q)) : Within Q (Reading.andThen o next) := by
  obtain ⟨rd, rfl, hmatch⟩ := h
  cases rd with
  | failed reach => exact .failed reach
  | error message => exact .error message
  | matched a q reach =>
    obtain ⟨rd', hrd', hmatch'⟩ := hnext a q (hmatch a q reach rfl)
    rw [andThen_matched, hrd']
    cases rd' with
    | failed reach' => exact .failed _
    | error message => exact .error message
    | matched b q' reach' => exact .matched (hmatch' b q' reach' rfl)

/-- A choice ends where one of its alternatives does. -/
theorem orElse {o' : Option (Reading α)} (h : Within P o) (h' : Within P o') :
    Within P (Reading.orElse p o o') := by
  obtain ⟨rd, rfl, hmatch⟩ := h
  cases rd with
  | matched a q reach => exact .matched (hmatch a q reach rfl)
  | error message => exact .error message
  | failed reach =>
    obtain ⟨rd', rfl, hmatch'⟩ := h'
    cases rd' with
    | failed reach' => exact .failed _
    | error message => exact .error message
    | matched a q reach' => exact .matched (hmatch' a q reach' rfl)

end Reading.Within

/-- A repetition is read where its step is, as long as the step keeps to such positions. -/
theorem readMany_within {P : Nat → Prop} {step : Nat → Option (Reading α)}
    (hstep : ∀ p, P p → Reading.Within P (step p)) :
    ∀ rounds p, P p → Reading.Within P (readMany step rounds p) := by
  intro rounds
  induction rounds with
  | zero => intro p hp; exact .matched hp
  | succ rounds ih =>
    intro p hp
    obtain ⟨rd, hrd, hmatch⟩ := hstep p hp
    rw [readMany, hrd]
    cases rd with
    | failed reach => exact .matched hp
    | error message => exact .error message
    | matched a q reach =>
      have hq := hmatch a q reach rfl
      dsimp only
      split
      next => exact .matched hq
      next =>
        obtain ⟨rest, hrest, hmatch'⟩ := ih q hq
        rw [hrest]
        cases rest with
        | failed reach' => exact .failed _
        | error message => exact .error message
        | matched as q' reach' => exact .matched (hmatch' as q' reach' rfl)

/-- A repetition is read to its end if its rounds are. -/
theorem readMany_isSome {size start limit : Nat} {taking : Bool}
    {step : Nat → Option (Reading α)} (hsize : size ≤ limit)
    (hadv : ∀ pos x, step pos = some x → x.Advances size pos taking)
    (hstep : ∀ pos, start ≤ pos → pos ≤ limit → (step pos).isSome = true) (rounds pos : Nat)
    (hpos : start ≤ pos) (hlim : pos ≤ limit) : (readMany step rounds pos).isSome = true := by
  -- no step leaves the positions from the start to the limit
  have hwithin : ∀ pos, start ≤ pos ∧ pos ≤ limit →
      Reading.Within (fun q => start ≤ q ∧ q ≤ limit) (step pos) := by
    rintro pos ⟨hpos, hlim⟩
    obtain ⟨rd, hrd⟩ := Option.isSome_iff_exists.mp (hstep pos hpos hlim)
    refine ⟨rd, hrd, ?_⟩
    rintro a q n rfl
    obtain ⟨hle, hmax, -⟩ := hadv pos _ hrd
    omega
  obtain ⟨rd, hrd, -⟩ := readMany_within hwithin rounds pos ⟨hpos, hlim⟩
  rw [hrd]
  rfl

/-- A form is read if the calls are that it may make. -/
theorem Form.read_isSome {code : Array Char} {reader : Reader ρ Res} {L : Layers ρ} {pos k : Nat}
    (hr : reader.Advances code.size L.takes)
    (hcalls : ∀ r q, L.Beyond pos k r q → q ≤ max pos code.size → (reader r q).isSome = true)
    (form : Form ρ Res α) :
    ∀ p, form.StartsBeyond L pos k p → p ≤ max pos code.size →
      (form.read code reader p).isSome = true := by
  induction form with
  | pattern m => intro p _ _; rw [Form.read]; split <;> rfl
  | endOfInput => intro p _ _; rw [Form.read]; split <;> rfl
  | skip a => intro p _ _; rfl
  | fail => intro p _ _; rfl
  | pair f g ihf ihg =>
    intro p hp hmax
    rw [Form.read]
    obtain ⟨x, hx⟩ := Option.isSome_iff_exists.mp (ihf p hp.left hmax)
    rw [hx]
    cases x with
    | failed reach => rfl
    | error message => rfl
    | matched a stop reach =>
      have hadv := Form.read_advances hr f p _ hx
      have hstop : stop ≤ max pos code.size := by have := hadv.2.1; omega
      obtain ⟨y, hy⟩ := Option.isSome_iff_exists.mp (ihg stop (hp.right hadv) hstop)
      rw [Reading.andThen_matched, hy]
      cases y <;> rfl
  | map h f ih =>
    intro p hp hmax
    obtain ⟨x, hx⟩ := Option.isSome_iff_exists.mp (ih p hp hmax)
    rw [Form.read, hx]
    cases x <;> rfl
  | refine h f ih =>
    intro p hp hmax
    obtain ⟨x, hx⟩ := Option.isSome_iff_exists.mp (ih p hp hmax)
    rw [Form.read, hx]
    cases x with
    | failed reach => rfl
    | error message => rfl
    | matched a stop reach => rw [Reading.andThen_matched]; split <;> rfl
  | checked e f ih =>
    intro p hp hmax
    obtain ⟨x, hx⟩ := Option.isSome_iff_exists.mp (ih p hp hmax)
    rw [Form.read, hx]
    cases x with
    | failed reach => rfl
    | error message => rfl
    | matched a stop reach => rw [Reading.andThen_matched]; split <;> rfl
  | orElse f g ihf ihg =>
    intro p hp hmax
    obtain ⟨x, hx⟩ := Option.isSome_iff_exists.mp (ihf p hp.first hmax)
    rw [Form.read, hx]
    cases x with
    | matched a stop reach => rfl
    | error message => rfl
    | failed reach => rw [Reading.orElse, Option.isSome_map]; exact ihg p hp.second hmax
  | optional f ih =>
    intro p hp hmax
    obtain ⟨x, hx⟩ := Option.isSome_iff_exists.mp (ih p hp hmax)
    rw [Form.read, hx]
    cases x <;> rfl
  | many f ih =>
    intro p hp hmax
    rw [Form.read]
    exact readMany_isSome (Nat.le_max_right pos code.size) (Form.read_advances hr f)
      -- no round starts before the first, so the calls of the form may be made in each
      (fun q hq hlim => ih q (Form.StartsBeyond.later hp hq) hlim) _ p (Nat.le_refl p) hmax
  | call r => intro p hp hmax; exact hcalls r p hp.call hmax

namespace Grammar

variable {G : Grammar ρ Res} {L : Layers ρ} {code : Array Char}

/-- In a layered grammar every call has a reading: each step of depth goes down a layer or on to a
later position. -/
theorem readRule_isSome (hG : G.Layered L) :
    ∀ (depth : Nat) (r : ρ) (pos : Nat), (code.size - pos) * L.height + L.rank r < depth →
      (G.readRule code depth r pos).isSome = true := by
  intro depth
  induction depth with
  | zero => intro r pos h; omega
  | succ depth ih =>
    intro r pos h
    refine Form.read_isSome (readRule_advances hG.takes depth)
      (fun r' q hq hmax => ?_) (G r).form pos (Or.inr ⟨rfl, hG.starts r⟩) (Nat.le_max_left _ _)
    rcases hq with hq | ⟨rfl, hrank⟩
    · have hlt := L.rank_lt r'
      -- a later position has one character less before it, which is worth a whole height
      have hmul : (code.size - q + 1) * L.height ≤ (code.size - pos) * L.height :=
        Nat.mul_le_mul_right _ (by omega)
      rw [Nat.succ_mul] at hmul
      exact ih r' q (by omega)
    · exact ih r' q (by omega)

/-- The reader of a grammar: it reads calls to a depth that layers of a given height never need. -/
def reader (G : Grammar ρ Res) (code : Array Char) (height : Nat) : Reader ρ Res :=
  G.readRule code (height * (code.size + 1))

/-- In a layered grammar every call is read. -/
theorem reader_isSome (hG : G.Layered L) (code : Array Char) (r : ρ) (pos : Nat) :
    (G.reader code L.height r pos).isSome = true := by
  refine readRule_isSome hG _ r pos ?_
  have hlt := L.rank_lt r
  have hmul : (code.size - pos) * L.height ≤ code.size * L.height :=
    Nat.mul_le_mul_right _ (Nat.sub_le _ _)
  rw [Nat.mul_succ, Nat.mul_comm L.height]
  omega

/-- The reader of a layered grammar reads a rule as it reads the rule's form. -/
theorem reader_eq (hG : G.Layered L) (r : ρ) (pos : Nat) :
    G.reader code L.height r pos = (G r).form.read code (G.reader code L.height) pos := by
  obtain ⟨rd, hrd⟩ := Option.isSome_iff_exists.mp (reader_isSome hG code r pos)
  rw [hrd]
  exact (readRule_eq_form hrd).symm

/-- What a layered grammar reads a form as. -/
def readForm (hG : G.Layered L) (code : Array Char) (form : Form ρ Res α) (pos : Nat) :
    Reading α :=
  (form.read code (G.reader code L.height) pos).get
    (Form.read_isSome (readRule_advances hG.takes _) (fun r q _ _ => reader_isSome hG code r q)
      form pos (Or.inr ⟨rfl, Form.startsBelow_of_forall L.rank_lt form⟩) (Nat.le_max_left _ _))

/-- A form is read as `readForm` says. -/
theorem read_eq_readForm (hG : G.Layered L) (code : Array Char) (form : Form ρ Res α)
    (pos : Nat) :
    form.read code (G.reader code L.height) pos = some (G.readForm hG code form pos) :=
  (Option.some_get _).symm

end Grammar

end CalcScript.Packrat
