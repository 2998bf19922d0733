import HatCircle.Proofs.Canonical

/-!
# Matching parentheses

Two parentheses match if what stands between them is balanced: it closes what it opens, and
nothing else. A pair that opens inside of a balanced text closes there (`Balanced.exists_closing`),
so in a text with sound groups a pair is that of a group, and without the pair the groups are
still sound (`Grouped.ungroup`).

In plain lexemes the parentheses are lexemes of their own. So a phrase with a pair of them taken
out is a phrase again, with the same tokens (`Phrase.exists_ungrouped`).
-/

namespace HatCircle

/-! ### Balanced texts -/

/-- As many parentheses are closed as are opened, and up to each place no more. -/
structure Balanced (text : List Char) : Prop where
  closed : text.count ')' = text.count '('
  opened : ∀ front, front <+: text → front.count ')' ≤ front.count '('

namespace Balanced

variable {text inner outer front back rest : List Char}

theorem nil : Balanced [] := by
  refine ⟨rfl, fun front hfront => ?_⟩
  rw [List.prefix_nil.1 hfront]
  exact Nat.le_refl _

theorem append (hfront : Balanced front) (hback : Balanced back) : Balanced (front ++ back) := by
  constructor
  · rw [List.count_append, List.count_append, hfront.closed, hback.closed]
  · intro part hpart
    rcases List.prefix_or_prefix_of_prefix hpart (List.prefix_append front back) with
      hwithin | ⟨more, rfl⟩
    · exact hfront.opened part hwithin
    · have hmore := hback.opened more ((List.prefix_append_right_inj front).1 hpart)
      rw [List.count_append, List.count_append, hfront.closed]
      exact Nat.add_le_add_left hmore _

theorem singleton {c : Char} (hopening : c ≠ '(') (hclosing : c ≠ ')') : Balanced [c] := by
  constructor
  · rw [List.count_singleton, List.count_singleton]
    simp [hopening, hclosing]
  · intro part hpart
    have hzero : part.count ')' = 0 := by
      rw [List.count_eq_zero]
      intro hmem
      exact hclosing (List.mem_singleton.1 (hpart.subset hmem)).symm
    omega

theorem group (h : Balanced inner) : Balanced ('(' :: (inner ++ [')'])) := by
  constructor
  · simp [List.count_append, h.closed]
  · intro part hpart
    rcases List.prefix_cons_iff.1 hpart with rfl | ⟨part, rfl, hbehind⟩
    · exact Nat.le_refl _
    · rcases List.prefix_concat_iff.1 hbehind with rfl | hwithin
      · simp [List.count_append, h.closed]
      · have := h.opened part hwithin
        simp only [List.count_cons_self, List.count_cons_of_ne (by decide : '(' ≠ ')')]
        omega

/-- A balanced text ends before a parenthesis that it does not open. -/
theorem not_closing_behind (h : Balanced inner) : ¬ Balanced (inner ++ ')' :: rest) := by
  intro houter
  have hopened := houter.opened (inner ++ [')']) ⟨rest, by simp⟩
  have hclosed := h.closed
  simp [List.count_append] at hopened
  omega

/-- An opening parenthesis has one partner. -/
theorem eq_of_closing (hinner : Balanced inner) (houter : Balanced outer)
    (h : inner ++ ')' :: back = outer ++ ')' :: rest) : inner = outer ∧ back = rest := by
  rcases List.append_eq_append_iff.1 h with ⟨middle, rfl, hmiddle⟩ | ⟨middle, rfl, hmiddle⟩
  · cases middle with
    | nil => exact ⟨(List.append_nil inner).symm, (List.cons.inj hmiddle).2⟩
    | cons c middle =>
        obtain ⟨rfl, -⟩ := List.cons.inj hmiddle
        exact absurd houter hinner.not_closing_behind
  · cases middle with
    | nil => exact ⟨List.append_nil outer, (List.cons.inj hmiddle).2.symm⟩
    | cons c middle =>
        obtain ⟨rfl, -⟩ := List.cons.inj hmiddle
        exact absurd hinner houter.not_closing_behind

/-- What opens inside of a balanced text closes there. -/
theorem exists_closing (hinner : Balanced inner) (houter : Balanced (front ++ '(' :: outer))
    (h : inner ++ ')' :: back = outer ++ ')' :: rest) :
    ∃ middle, outer = inner ++ ')' :: middle ∧ back = middle ++ ')' :: rest := by
  have hclosed := houter.closed
  have hfront := houter.opened front (List.prefix_append ..)
  simp only [List.count_append, List.count_cons_self,
    List.count_cons_of_ne (by decide : '(' ≠ ')')] at hclosed
  rcases List.append_eq_append_iff.1 h with ⟨middle, rfl, hmiddle⟩ | ⟨middle, rfl, hmiddle⟩
  · cases middle with
    | nil =>
        have := hinner.closed
        rw [List.append_nil] at hclosed
        omega
    | cons c middle =>
        obtain ⟨rfl, rfl⟩ := List.cons.inj hmiddle
        exact ⟨middle, rfl, rfl⟩
  · -- the inner text would close a parenthesis that is opened in front of it
    have hopened := hinner.opened outer (List.prefix_append ..)
    omega

theorem compact (h : Balanced text) : Balanced (Text.compact text) := by
  have hcount : ∀ {c : Char} (part : List Char), isBlank c = false →
      (Text.compact part).count c = part.count c :=
    fun part hc => List.count_filter (by rw [hc]; rfl)
  constructor
  · rw [hcount _ (by decide), hcount _ (by decide), h.closed]
  · intro part hpart
    obtain ⟨front, hfront, rfl⟩ := List.prefix_filter_iff.1 hpart
    rw [← Text.compact, hcount _ (by decide), hcount _ (by decide)]
    exact h.opened front hfront

end Balanced

theorem Grouped.balanced {text : List Char} (h : Grouped text) : Balanced text := by
  induction h with
  | nil => exact .nil
  | char hopening hclosing _ ih => exact (Balanced.singleton hopening hclosing).append ih
  | group _ _ _ ihinner ihrest => simpa using ihinner.group.append ihrest

/-! ### Groups without their parentheses -/

section Ungroup

variable {front inner back : List Char}

theorem EndsWell.ungroup (hinner : EndsWell inner)
    (h : EndsWell (front ++ '(' :: (inner ++ ')' :: back))) :
    EndsWell (front ++ (inner ++ back)) := by
  refine ⟨by simp [hinner.ne_nil], fun c hc => ?_, fun c hc => ?_⟩
  · cases front with
    | nil =>
        rw [List.nil_append, List.head?_append_of_ne_nil _ hinner.ne_nil] at hc
        exact hinner.head c hc
    | cons d front => exact h.head c hc
  · cases back with
    | nil =>
        rw [List.append_nil, List.getLast?_append_of_ne_nil _ hinner.ne_nil] at hc
        exact hinner.last c hc
    | cons d back =>
        refine h.last c ?_
        rw [← List.append_assoc, List.getLast?_append_of_ne_nil _ (List.cons_ne_nil _ _)] at hc
        have hsplit : front ++ '(' :: (inner ++ ')' :: d :: back) =
            (front ++ '(' :: (inner ++ [')'])) ++ d :: back := by simp
        rwa [hsplit, List.getLast?_append_of_ne_nil _ (List.cons_ne_nil _ _)]

/-- A pair of parentheses encloses a group, and the text without it has sound groups. -/
theorem Grouped.ungroup (h : Grouped (front ++ '(' :: (inner ++ ')' :: back)))
    (hinner : Balanced inner) :
    Grouped inner ∧ EndsWell inner ∧ Grouped (front ++ (inner ++ back)) := by
  generalize htext : front ++ '(' :: (inner ++ ')' :: back) = text at h
  induction h generalizing front back with
  | nil => simp at htext
  | char hopening hclosing _ ih =>
      cases front with
      | nil => exact absurd (List.cons.inj htext).1.symm hopening
      | cons d front =>
          obtain ⟨rfl, hrest⟩ := List.cons.inj htext
          obtain ⟨hgrouped, hends, hbare⟩ := ih hrest
          exact ⟨hgrouped, hends, .char hopening hclosing hbare⟩
  | @group first rest hfirst hends hrest ihfirst ihrest =>
      cases front with
      | nil =>
          obtain ⟨rfl, rfl⟩ :=
            hinner.eq_of_closing hfirst.balanced (List.cons.inj htext).2
          exact ⟨hfirst, hends, hfirst.append hrest⟩
      | cons d front =>
          obtain ⟨rfl, hbehind⟩ := List.cons.inj htext
          rcases List.append_eq_append_iff.1 hbehind with
            ⟨middle, rfl, hmiddle⟩ | ⟨middle, rfl, hmiddle⟩
          · -- the pair opens inside of the group
            cases middle with
            | nil => exact absurd (List.cons.inj hmiddle).1 (by decide)
            | cons c outer =>
                obtain ⟨rfl, hinside⟩ := List.cons.inj hmiddle
                obtain ⟨middle, rfl, rfl⟩ := hinner.exists_closing hfirst.balanced hinside
                obtain ⟨hgrouped, hends', hbare⟩ := ihfirst rfl
                refine ⟨hgrouped, hends', ?_⟩
                simpa using Grouped.group hbare (hends'.ungroup hends) hrest
          · -- the pair opens behind the group
            cases middle with
            | nil => exact absurd (List.cons.inj hmiddle).1 (by decide)
            | cons c middle =>
                obtain ⟨rfl, hafter⟩ := List.cons.inj hmiddle
                obtain ⟨hgrouped, hends', hbare⟩ := ihrest hafter.symm
                refine ⟨hgrouped, hends', ?_⟩
                simpa using Grouped.group hfirst hends hbare

end Ungroup

/-! ### Phrases without a pair of parentheses -/

namespace Phrase

variable {puzzle : Puzzle} {level : Level}

/-- How many groups there are in the phrase, at any depth. -/
def groupCount {level : Level} : Phrase level → Nat
  | .number _ => 0
  | .variable _ => 0
  | .group inner => inner.groupCount + 1
  | .factor body => body.groupCount
  | .times lhs rhs => lhs.groupCount + rhs.groupCount
  | .product body => body.groupCount
  | .join lhs _ _ rhs => lhs.groupCount + rhs.groupCount

theorem count_opening (phrase : Phrase level) :
    phrase.lexemes.count .opening = phrase.groupCount := by
  induction phrase with
  | number digits => rfl
  | «variable» name => rfl
  | group inner ih => simp [lexemes, groupCount, List.count_append, ih]
  | factor body ih => exact ih
  | times lhs rhs ihl ihr => simp [lexemes, groupCount, List.count_append, ihl, ihr]
  | product body ih => exact ih
  | join lhs op additive rhs ihl ihr => simp [lexemes, groupCount, List.count_append, ihl, ihr]

/-- A phrase with a pair of parentheses taken out is a phrase with the same tokens. -/
theorem exists_ungrouped (wf : puzzle.WellFormed) {phrase : Phrase .sum}
    (h : phrase.Admitted puzzle) {front inner back : List Char}
    (htext : phrase.text = front ++ '(' :: (inner ++ ')' :: back)) (hinner : Balanced inner) :
    ∃ bare : Phrase .sum, bare.Admitted puzzle ∧ bare.text = front ++ (inner ++ back) ∧
      Lexeme.tokens bare.lexemes = Lexeme.tokens phrase.lexemes ∧
      bare.groupCount < phrase.groupCount := by
  have hplain := phrase.plain_lexemes wf h
  have hgrouped := (phrase.grouped_text hplain).1
  have hadmitted := phrase.admitted_iff_lexemes.1 h
  have horder := phrase.alternate_tokens
  have hcount := phrase.count_opening
  rw [htext] at hgrouped
  rw [← phrase.spell_lexemes] at htext
  obtain ⟨before, behind, hsplit, rfl, hbehind⟩ := Lexeme.exists_split_opening hplain htext
  rw [hsplit] at hplain hadmitted horder hcount
  have hplain' : ∀ lexeme ∈ behind, lexeme.Plain := fun lexeme hmem =>
    hplain lexeme (by simp [hmem])
  obtain ⟨inside, after, rfl, rfl, rfl⟩ := Lexeme.exists_split_closing hplain' hbehind
  have hkept : ∀ lexeme ∈ before ++ (inside ++ after),
      lexeme ∈ before ++ .opening :: (inside ++ .closing :: after) := by
    intro lexeme hmem
    simp only [List.mem_append, List.mem_cons] at hmem ⊢
    tauto
  have htokens : Lexeme.tokens (before ++ .opening :: (inside ++ .closing :: after)) =
      Lexeme.tokens (before ++ (inside ++ after)) := by simp
  rw [htokens] at horder
  have hsound : Lexeme.Sound (before ++ (inside ++ after)) := by
    refine ⟨fun lexeme hmem => hplain lexeme (hkept lexeme hmem), ?_, horder.chain⟩
    rw [Lexeme.spell_append, Lexeme.spell_append]
    exact (hgrouped.ungroup hinner).2.2
  obtain ⟨bare, hbare⟩ := exists_phrase hsound (Lexeme.endsWell_spell hsound.plain horder)
  refine ⟨bare, bare.admitted_iff_lexemes.2 ?_, ?_, ?_, ?_⟩
  · rw [hbare]
    exact fun lexeme hmem => hadmitted lexeme (hkept lexeme hmem)
  · rw [← bare.spell_lexemes, hbare, Lexeme.spell_append, Lexeme.spell_append]
  · rw [hbare, hsplit, htokens]
  · rw [← bare.count_opening, hbare, ← hcount]
    simp only [List.count_append, List.count_cons_self]
    rw [List.count_cons_of_ne (by decide)]
    omega

end Phrase

end HatCircle
