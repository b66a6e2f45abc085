import Mathlib.Data.List.Infix
import ScriptEngine.Xml.Read

/-!
# Pieces of markup

What the reader takes for a piece of markup, said without the reader: a comment, an instruction or a
literal section is a text between two words, the second of which is not in it before its end; the
brackets of a type declaration match; and a tag has no `>` outside of its quotes.

A piece does one thing to the elements that are open, which `Takes` lists. So `readMarkup_eq_ok_iff`
says everything that can follow a `<`: the reader goes on just if a piece of markup is there, and
then it does what the piece stands for.
-/

namespace ScriptEngine.Xml

/-! ### Where a piece ends -/

/-- The text of a tag: its quotes are closed, and there is no `>` outside of them. -/
inductive TagText : List Char → Prop
  | nil : TagText []
  | char {c : Char} {s : List Char} : c ≠ '>' → c ≠ '"' → c ≠ '\'' → TagText s → TagText (c :: s)
  | quoted {q : Char} {inner s : List Char} : q = '"' ∨ q = '\'' → q ∉ inner → TagText s →
      TagText (q :: (inner ++ q :: s))

/-- A text without `>` and without quotes can stand in a tag. -/
theorem tagText_of_forall {t : List Char} (h : ∀ c ∈ t, c ≠ '>' ∧ c ≠ '"' ∧ c ≠ '\'') :
    TagText t := by
  induction t with
  | nil => exact .nil
  | cons c t ih =>
    obtain ⟨⟨hgt, hquote, hapos⟩, ht⟩ := List.forall_mem_cons.mp h
    exact .char hgt hquote hapos (ih ht)

/-- What is left of the text of a tag where a quote may be open. -/
def TagRest : Option Char → List Char → Prop
  | none, t => TagText t
  | some q, t => ∃ inner s, t = inner ++ q :: s ∧ q ∉ inner ∧ TagText s

/-- What the search for the end of a tag finds: the text it had passed, what was left of the tag,
and the `>` that ends it. -/
theorem tagRest_of_tagFrom {quote : Option Char} {acc s tag rest : List Char}
    (h : tagFrom quote acc s = some (tag, rest)) :
    ∃ t, tag = acc.reverse ++ t ∧ s = t ++ '>' :: rest ∧ TagRest quote t := by
  induction s generalizing quote acc with
  | nil => exact nomatch h
  | cons c s ih =>
    -- what is found behind the first character
    have hrest {quote'} (h : tagFrom quote' (c :: acc) s = some (tag, rest)) :
        ∃ t, tag = acc.reverse ++ c :: t ∧ c :: s = (c :: t) ++ '>' :: rest ∧ TagRest quote' t := by
      obtain ⟨t, rfl, rfl, ht⟩ := ih h
      exact ⟨t, by rw [List.reverse_cons, List.append_assoc, List.singleton_append], rfl, ht⟩
    cases quote with
    | some q =>
      -- inside a quote only the same quote says anything; a `>` there is a character as others are
      obtain ⟨t, htag, hs, ht⟩ := hrest h
      refine ⟨c :: t, htag, hs, ?_⟩
      split at ht
      · next heq => exact ⟨[], t, by rw [heq, List.nil_append], List.not_mem_nil, ht⟩
      · next hne =>
        obtain ⟨inner, u, rfl, hq, hu⟩ := ht
        exact ⟨c :: inner, u, rfl, List.not_mem_cons_of_ne_of_not_mem (Ne.symm hne) hq, hu⟩
    | none =>
      rw [tagFrom] at h
      -- outside of quotes the character ends the tag, opens a quote or belongs to the tag
      split at h
      · next hc =>
        cases h
        exact ⟨[], (List.append_nil _).symm, by rw [hc, List.nil_append], .nil⟩
      · next hc =>
        obtain ⟨t, htag, hs, ht⟩ := hrest h
        refine ⟨c :: t, htag, hs, ?_⟩
        split at ht
        · next hquote =>
          obtain ⟨inner, u, rfl, hq, hu⟩ := ht
          exact .quoted hquote hq hu
        · next hquote => exact .char hc (fun h => hquote (.inl h)) (fun h => hquote (.inr h)) ht

/-- A quote is passed up to where it is closed. -/
theorem tagFrom_quoted {q : Char} {inner : List Char} (hq : q ∉ inner) (acc s : List Char) :
    tagFrom (some q) acc (inner ++ q :: s) = tagFrom none (q :: (inner.reverse ++ acc)) s := by
  induction inner generalizing acc with
  | nil =>
    rw [List.nil_append, tagFrom, if_pos rfl]
    rfl
  | cons c inner ih =>
    obtain ⟨hne, hq⟩ := List.ne_and_not_mem_of_not_mem_cons hq
    rw [List.cons_append, tagFrom, if_neg (Ne.symm hne), ih hq, List.reverse_cons,
      List.append_assoc, List.singleton_append]

/-- The search for the end of a tag passes a whole text of a tag and stops at the `>` behind it. -/
theorem TagText.tagFrom {t : List Char} (ht : TagText t) (acc rest : List Char) :
    tagFrom none acc (t ++ '>' :: rest) = some (acc.reverse ++ t, rest) := by
  induction ht generalizing acc with
  | nil =>
    rw [List.append_nil]
    rfl
  | @char c s hgt hquote hapos _ ih =>
    rw [List.cons_append, Xml.tagFrom, if_neg hgt, if_neg (not_or.mpr ⟨hquote, hapos⟩), ih,
      List.reverse_cons, List.append_assoc, List.singleton_append]
  | @quoted q inner s hquote hq _ ih =>
    -- a quote does not end a tag, so the second branch is the one taken
    have hgt : q ≠ '>' := by
      obtain rfl | rfl := hquote <;> decide
    rw [List.cons_append, List.append_assoc, List.cons_append, Xml.tagFrom, if_neg hgt,
      if_pos hquote, tagFrom_quoted hq, ih]
    simp

/-- A tag ends at the first `>` outside of quotes. -/
theorem tagFrom_eq_some_iff {s tag rest : List Char} :
    tagFrom none [] s = some (tag, rest) ↔ s = tag ++ '>' :: rest ∧ TagText tag := by
  constructor
  · intro h
    obtain ⟨t, rfl, hs, ht⟩ := tagRest_of_tagFrom h
    exact ⟨hs, ht⟩
  · rintro ⟨rfl, htag⟩
    exact htag.tagFrom [] rest

/-- `closeFrom_eq_some_iff` where some text was passed: it counts for the condition, and no `>` of
the rest came before the one found. -/
theorem closeFrom_eq_some_iff_append {p : List Char → Bool} {acc s body rest : List Char} :
    closeFrom p acc s = some (body, rest) ↔
      ∃ t, body = acc.reverse ++ t ∧ s = t ++ '>' :: rest ∧ p (t.reverse ++ acc) = true ∧
        ∀ a b, t = a ++ '>' :: b → ¬ p (a.reverse ++ acc) = true := by
  induction s generalizing acc with
  | nil =>
    refine iff_of_false nofun ?_
    rintro ⟨t, -, hs, -⟩
    exact List.append_ne_nil_of_right_ne_nil t (List.cons_ne_nil _ _) hs.symm
  | cons c s ih =>
    rw [closeFrom]
    split
    · next hend =>
      obtain ⟨rfl, hp⟩ : c = '>' ∧ p acc = true := by simpa using hend
      -- the search ends here, so nothing is left; a longer text would have this `>` in it
      constructor
      · intro h
        cases h
        exact ⟨[], (List.append_nil _).symm, rfl, hp, fun a b h => by cases a <;> exact nomatch h⟩
      · rintro ⟨t, rfl, hs, -, hfirst⟩
        cases t with
        | nil =>
          cases hs
          rw [List.append_nil]
        | cons d t =>
          obtain ⟨rfl, -⟩ := List.cons.inj hs
          exact absurd hp (hfirst [] t rfl)
    · next hend =>
      rw [ih]
      constructor
      · -- one character more in front: a split there is one of the rest, or the end that was refused
        rintro ⟨t, rfl, rfl, hp, hfirst⟩
        refine ⟨c :: t, by simp, rfl, by simpa using hp, fun a b hsplit => ?_⟩
        cases a with
        | nil =>
          obtain ⟨rfl, -⟩ := List.cons.inj hsplit
          simpa using hend
        | cons d a =>
          obtain ⟨rfl, htail⟩ := List.cons.inj hsplit
          simpa using hfirst a b htail
      -- a text that the search finds behind the first character cannot be empty: that was refused
      · rintro ⟨t, rfl, hs, hp, hfirst⟩
        cases t with
        | nil =>
          obtain ⟨rfl, -⟩ := List.cons.inj hs
          exact absurd (by simpa using hp) hend
        | cons d t =>
          obtain ⟨rfl, rfl⟩ := List.cons.inj hs
          refine ⟨t, by simp, rfl, by simpa using hp, fun a b h => ?_⟩
          have hfirst := hfirst (c :: a) b (by rw [h]; rfl)
          simpa using hfirst

/-- The end is the first `>` of which the text before it satisfies the condition. -/
theorem closeFrom_eq_some_iff {p : List Char → Bool} {s body rest : List Char} :
    closeFrom p [] s = some (body, rest) ↔ s = body ++ '>' :: rest ∧ p body.reverse = true ∧
      ∀ a b, body = a ++ '>' :: b → ¬ p a.reverse = true := by
  rw [closeFrom_eq_some_iff_append]
  simp

/-- The text of a declaration in which brackets are open: its brackets match. -/
inductive Bracketed : ℕ → List Char → Prop
  | nil : Bracketed 0 []
  | opens {depth : ℕ} {s : List Char} : Bracketed (depth + 1) s → Bracketed depth ('<' :: s)
  | closes {depth : ℕ} {s : List Char} : Bracketed depth s → Bracketed (depth + 1) ('>' :: s)
  | char {depth : ℕ} {c : Char} {s : List Char} : c ≠ '<' → c ≠ '>' → Bracketed depth s →
      Bracketed depth (c :: s)

/-- In what the search for the end of a declaration passes, the brackets match. -/
theorem Bracketed.of_declarationFrom {depth : ℕ} {acc s body rest : List Char}
    (h : declarationFrom depth acc s = some (body, rest)) :
    ∃ t, body = acc.reverse ++ t ∧ s = t ++ '>' :: rest ∧ Bracketed depth t := by
  induction s generalizing depth acc with
  | nil => exact nomatch h
  | cons c s ih =>
    -- what is found behind the first character
    have hrest {depth'} (h : declarationFrom depth' (c :: acc) s = some (body, rest)) :
        ∃ t, body = acc.reverse ++ c :: t ∧ c :: s = (c :: t) ++ '>' :: rest ∧
          Bracketed depth' t := by
      obtain ⟨t, rfl, rfl, ht⟩ := ih h
      exact ⟨t, by rw [List.reverse_cons, List.append_assoc, List.singleton_append], rfl, ht⟩
    rw [declarationFrom.eq_def] at h
    dsimp only at h
    split at h
    · next hc =>
      obtain ⟨t, hbody, hs, ht⟩ := hrest h
      exact ⟨c :: t, hbody, hs, hc ▸ .opens ht⟩
    · next hlt =>
      split at h
      · next hc =>
        -- without a bracket that is open this is the end, else it closes the last one
        split at h
        · cases h
          exact ⟨[], (List.append_nil _).symm, by rw [hc, List.nil_append], .nil⟩
        · obtain ⟨t, hbody, hs, ht⟩ := hrest h
          exact ⟨c :: t, hbody, hs, hc ▸ .closes ht⟩
      · next hgt =>
        obtain ⟨t, hbody, hs, ht⟩ := hrest h
        exact ⟨c :: t, hbody, hs, .char hlt hgt ht⟩

/-- The search for the end of a declaration passes a text in which the brackets match. -/
theorem Bracketed.declarationFrom {depth : ℕ} {t : List Char} (ht : Bracketed depth t)
    (acc rest : List Char) :
    declarationFrom depth acc (t ++ '>' :: rest) = some (acc.reverse ++ t, rest) := by
  induction ht generalizing acc with
  | nil =>
    rw [List.append_nil]
    rfl
  | opens _ ih =>
    rw [List.cons_append, Xml.declarationFrom.eq_def]
    dsimp only
    rw [if_pos rfl, ih]
    simp
  | closes _ ih =>
    rw [List.cons_append, Xml.declarationFrom.eq_def]
    dsimp only
    rw [if_neg (by decide), if_pos rfl, ih]
    simp
  | char hlt hgt _ ih =>
    rw [List.cons_append, Xml.declarationFrom.eq_def]
    dsimp only
    rw [if_neg hlt, if_neg hgt, ih]
    simp

/-- A declaration ends at the first `>` that no bracket in it needs. -/
theorem declarationFrom_eq_some_iff {s body rest : List Char} :
    declarationFrom 0 [] s = some (body, rest) ↔ s = body ++ '>' :: rest ∧ Bracketed 0 body := by
  constructor
  · intro h
    obtain ⟨t, rfl, hs, ht⟩ := Bracketed.of_declarationFrom h
    exact ⟨hs, ht⟩
  · rintro ⟨rfl, hbody⟩
    exact hbody.declarationFrom [] rest

/-! ### Comments, instructions, literal sections -/

/-- The piece is the text between two words, and the second one is not in it before its end. -/
def Delimited (first last text m : List Char) : Prop :=
  m = first ++ (text ++ last) ∧ ¬ last <:+: text ++ last.dropLast

/-- What is behind some characters, none of which is a `>`. -/
theorem forall_split_append_iff {front s : List Char} (hfront : '>' ∉ front)
    {P : List Char → Prop} :
    (∀ a b, front ++ s = a ++ '>' :: b → P a) ↔ ∀ a b, s = a ++ '>' :: b → P (front ++ a) := by
  constructor
  · rintro h a b rfl
    exact h (front ++ a) b (by rw [List.append_assoc])
  · intro h a b hab
    -- the split lies behind the first characters, or the `>` would be one of them
    obtain ⟨c, rfl, hs⟩ | ⟨c, rfl, hc⟩ := List.append_eq_append_iff.mp hab
    · exact h c b hs
    · cases c with
      | nil =>
        have hP := h [] b hc.symm
        simpa using hP
      | cons d c =>
        obtain ⟨rfl, -⟩ := List.cons.inj hc
        exact absurd (List.mem_append_right a List.mem_cons_self) hfront

/-- A word is not in a text. -/
theorem not_infix_iff {w s : List Char} :
    ¬ w ++ ['>'] <:+: s ↔ ∀ a b, s = a ++ '>' :: b → ¬ w <:+ a := by
  constructor
  · rintro h a b rfl ⟨c, rfl⟩
    exact h ⟨c, b, by simp⟩
  · rintro h ⟨c, b, rfl⟩
    exact h (c ++ w) b (by simp) ⟨c, rfl⟩

/-- A piece that begins with some characters and ends with a word and a `>`. -/
theorem closeFrom_delimited_iff {p : List Char → Bool} {front w : List Char} (hfront : '>' ∉ front)
    (hp : ∀ a, p (front ++ a).reverse = true ↔ w <:+ a) {s inner rest : List Char} :
    closeFrom p [] s = some (front ++ inner, rest) ↔
      ∃ text m, inner = text ++ w ∧ Delimited ('<' :: front) (w ++ ['>']) text m ∧
        '<' :: s = m ++ rest := by
  rw [closeFrom_eq_some_iff, hp, forall_split_append_iff hfront]
  simp only [hp]
  rw [← not_infix_iff]
  constructor
  · rintro ⟨rfl, ⟨text, rfl⟩, hfirst⟩
    exact ⟨text, _, rfl, ⟨rfl, by rwa [List.dropLast_concat]⟩, by simp⟩
  · rintro ⟨text, _, rfl, ⟨rfl, hfirst⟩, hs⟩
    rw [List.dropLast_concat] at hfirst
    exact ⟨by simpa using hs, List.suffix_append _ _, hfirst⟩

/-- The text passed is kept the other way round, so its last two characters are the first two. -/
theorem take_two_reverse_iff {c d : Char} {a : List Char} :
    (a.reverse.take 2 == [d, c]) = true ↔ [c, d] <:+ a := by
  rw [beq_iff_eq, eq_comm, ← List.reverse_prefix, List.prefix_iff_eq_take]
  rfl

/-- A word ends what is behind some characters, none of which it has. -/
theorem suffix_append_iff {w front a : List Char} (hdisjoint : List.Disjoint w front) :
    w <:+ front ++ a ↔ w <:+ a := by
  refine ⟨fun h => ?_, fun h => h.trans (List.suffix_append _ _)⟩
  obtain h' | ⟨c, rfl⟩ := List.suffix_or_suffix_of_suffix h (List.suffix_append front a)
  · exact h'
  -- the word would begin before the characters, with one that they have
  · obtain ⟨b, hb⟩ := h
    rw [← List.append_assoc, List.append_cancel_right_eq] at hb
    cases c with
    | nil => exact List.suffix_refl _
    | cons d c =>
      refine absurd ?_ (hdisjoint (List.mem_append_left a List.mem_cons_self))
      rw [← hb]
      exact List.mem_append_right b List.mem_cons_self

/-- A comment. -/
def Comment (m : List Char) : Prop := ∃ text, Delimited ['<', '!', '-', '-'] ['-', '-', '>'] text m

/-- A literal section, which stands for its text as it is. -/
def Literal (text m : List Char) : Prop :=
  Delimited ['<', '!', '[', 'C', 'D', 'A', 'T', 'A', '['] [']', ']', '>'] text m

/-- An instruction. Its question marks are two. -/
def Instruction (m : List Char) : Prop :=
  ∃ text, Delimited ['<', '?'] ['?', '>'] text m ∧ text.head? ≠ some '>'

/-- A type declaration, which names a type. -/
def TypeDeclaration (m : List Char) : Prop :=
  ∃ body, m = '<' :: '!' :: (body ++ ['>']) ∧ Bracketed 0 ('!' :: body) ∧
    startsWithWord "!DOCTYPE".toList ('!' :: body) = true ∧ ¬ (body.drop 7).all isSpace = true

/-- The end that the reader looks for in a comment. -/
theorem comment_iff {s inner rest : List Char} :
    closeFrom (fun acc => 4 < acc.length && acc.take 2 == ['-', '-']) [] s =
        some (['!', '-', '-'] ++ inner, rest) ↔
      ∃ text m, inner = text ++ ['-', '-'] ∧
        Delimited ['<', '!', '-', '-'] ['-', '-', '>'] text m ∧ '<' :: s = m ++ rest := by
  refine closeFrom_delimited_iff (by decide) fun a => ?_
  rw [Bool.and_eq_true, decide_eq_true_eq, take_two_reverse_iff, List.length_reverse,
    List.length_append]
  change 4 < 3 + a.length ∧ _ ↔ _
  -- the dashes that begin a comment do not end it
  constructor
  · rintro ⟨hlength, h⟩
    refine List.suffix_of_suffix_length_le h (List.suffix_append _ a) ?_
    change 2 ≤ a.length
    omega
  · intro h
    have hlength : 2 ≤ a.length := h.length_le
    exact ⟨by omega, h.trans (List.suffix_append _ a)⟩

/-- The end that the reader looks for in a literal section. -/
theorem literal_iff {s inner rest : List Char} :
    closeFrom (fun acc => acc.take 2 == [']', ']']) [] s =
        some (['!', '[', 'C', 'D', 'A', 'T', 'A', '['] ++ inner, rest) ↔
      ∃ text m, inner = text ++ [']', ']'] ∧ Literal text m ∧ '<' :: s = m ++ rest := by
  refine closeFrom_delimited_iff (by decide) fun a => ?_
  rw [take_two_reverse_iff]
  exact suffix_append_iff (by simp)

/-- The first question mark of an instruction is not the last one. -/
theorem delimited_question_iff {text m : List Char} :
    Delimited ['<'] ['?', '>'] ('?' :: text) m ↔
      Delimited ['<', '?'] ['?', '>'] text m ∧ text.head? ≠ some '>' := by
  -- the second word can begin at the first question mark only if a `>` is right behind it
  have hfirst : ['?', '>'] <+: '?' :: (text ++ ['?']) ↔ text.head? = some '>' := by
    rw [List.cons_prefix_cons, and_iff_right rfl]
    cases text with
    | nil => decide
    | cons c text => simp [List.cons_prefix_cons, eq_comm]
  change _ = _ ∧ ¬ ['?', '>'] <:+: '?' :: (text ++ ['?']) ↔
    (_ = _ ∧ ¬ ['?', '>'] <:+: text ++ ['?']) ∧ _
  rw [List.infix_cons_iff, hfirst, not_or, and_assoc, and_comm (a := ¬ text.head? = _)]
  rfl

/-- The end that the reader looks for in an instruction, which is refused if its question marks are
one. -/
theorem instruction_iff {s rest : List Char} :
    (∃ body, closeFrom (fun acc => acc.head? == some '?') [] ('?' :: s) = some (body, rest) ∧
        ¬ body.length < 2) ↔ ∃ m, Instruction m ∧ '<' :: '?' :: s = m ++ rest := by
  have hends : ∀ a : List Char, (([] ++ a).reverse.head? == some '?') = true ↔ ['?'] <:+ a := by
    intro a
    rw [List.nil_append, beq_iff_eq, List.head?_reverse, List.getLast?_eq_some_iff]
    exact exists_congr fun _ => eq_comm
  have hclose : ∀ body, closeFrom (fun acc => acc.head? == some '?') [] ('?' :: s) =
      some (body, rest) ↔ ∃ text m, body = text ++ ['?'] ∧ Delimited ['<'] ['?', '>'] text m ∧
        '<' :: '?' :: s = m ++ rest :=
    fun body => closeFrom_delimited_iff List.not_mem_nil hends
  constructor
  · rintro ⟨body, h, hlength⟩
    obtain ⟨text, m, rfl, hm, hs⟩ := (hclose body).mp h
    cases text with
    | nil => exact absurd (by decide) hlength
    | cons c text =>
      obtain rfl : '?' = c := by
        rw [hm.1] at hs
        exact (List.cons.inj (List.cons.inj hs).2).1
      exact ⟨m, ⟨text, delimited_question_iff.mp hm⟩, hs⟩
  · rintro ⟨m, ⟨text, hm⟩, hs⟩
    refine ⟨_, (hclose _).mpr ⟨_, m, rfl, delimited_question_iff.mpr hm, hs⟩, ?_⟩
    simp

/-- The end that the reader looks for in a type declaration, which is refused without a name. -/
theorem typeDeclaration_iff {s rest : List Char} :
    (∃ body, declarationFrom 0 [] ('!' :: s) = some (body, rest) ∧
        startsWithWord "!DOCTYPE".toList body = true ∧ ¬ (body.drop 8).all isSpace = true) ↔
      ∃ m, TypeDeclaration m ∧ '<' :: '!' :: s = m ++ rest := by
  simp only [declarationFrom_eq_some_iff]
  constructor
  · rintro ⟨body, ⟨hs, hbody⟩, hword, hname⟩
    cases body with
    | nil => exact nomatch hs
    | cons c body =>
      obtain ⟨rfl, rfl⟩ := List.cons.inj hs
      exact ⟨_, ⟨body, rfl, hbody, hword, hname⟩, by simp⟩
  · rintro ⟨_, ⟨body, rfl, hbody, hword, hname⟩, hs⟩
    refine ⟨'!' :: body, ⟨?_, hbody⟩, hword, hname⟩
    simpa using hs

/-! ### Tags -/

/-- Neither a closing tag nor another piece of markup begins so. -/
def Opens (tag : List Char) : Prop := ∀ c ∈ tag.head?, c ≠ '!' ∧ c ≠ '/' ∧ c ≠ '?'

/-- The end of a tag is nothing that other markup begins with. -/
theorem opens_append_iff {tag rest : List Char} : Opens (tag ++ '>' :: rest) ↔ Opens tag := by
  cases tag with
  | nil => exact iff_of_true (by rintro c ⟨⟩; decide) nofun
  | cons c tag => exact Iff.rfl

/-- A tag that opens an element. -/
def StartTag (e : Open) (m : List Char) : Prop :=
  ∃ tag, m = '<' :: (tag ++ ['>']) ∧ TagText tag ∧ Opens tag ∧ tag.getLast? ≠ some '/' ∧
    Open.ofTag tag = .ok e

/-- A tag that is an element without contents. -/
def EmptyTag (e : Open) (m : List Char) : Prop :=
  ∃ tag, m = '<' :: (tag ++ ['/', '>']) ∧ TagText (tag ++ ['/']) ∧ Opens (tag ++ ['/']) ∧
    Open.ofTag tag = .ok e

/-- The name in a closing tag: the text behind the slash without the spaces at its end, unless there
is nothing else. -/
def closingName (body : List Char) : List Char :=
  if body.all isSpace then body else Text.dropEndWhile isSpace body

/-- A tag that closes the elements of a name. -/
def EndTag (name m : List Char) : Prop :=
  ∃ body, m = '<' :: '/' :: (body ++ ['>']) ∧ TagText body ∧ closingName body = name

/-- The slash of a closing tag is one more character of its text. -/
theorem tagText_slash_iff {body : List Char} : TagText ('/' :: body) ↔ TagText body := by
  constructor
  · intro h
    cases h with
    | char _ _ _ h => exact h
    | quoted hquote => exact absurd hquote (by decide)
  · exact .char (by decide) (by decide) (by decide)

/-! ### What a piece does -/

/-- What a piece of markup makes of the elements that are open, with `rest` behind it. -/
inductive Takes (stack : List Open) (rest : List Char) : List Char → Progress → Prop
  | comment {m : List Char} : Comment m → Takes stack rest m (.more stack rest)
  | instruction {m : List Char} : Instruction m → Takes stack rest m (.more stack rest)
  | typeDeclaration {m : List Char} : TypeDeclaration m → Takes stack rest m (.more stack rest)
  | literal {text m : List Char} : Literal text m →
      Takes stack rest m (.more (addText text stack) rest)
  | startTag {e : Open} {m : List Char} : StartTag e m →
      Takes stack rest m (.more (e :: stack) rest)
  | emptyTag {e : Open} {m : List Char} : EmptyTag e m →
      Takes stack rest m (close e.name e.finish rest stack)
  | endTag {e : Open} {outer : List Open} {m : List Char} : stack = e :: outer → EndTag e.name m →
      Takes stack rest m (close e.name e.finish rest outer)

/-- Every piece begins with a `<`. -/
theorem Takes.exists_cons {stack : List Open} {rest m : List Char} {p : Progress}
    (h : Takes stack rest m p) : ∃ s, m = '<' :: s := by
  cases h with
  | instruction h =>
    obtain ⟨_, ⟨rfl, -⟩, -⟩ := h
    exact ⟨_, rfl⟩
  | literal h =>
    obtain ⟨rfl, -⟩ := h
    exact ⟨_, rfl⟩
  | comment h | typeDeclaration h | startTag h | emptyTag h | endTag _ h =>
    obtain ⟨_, rfl, -⟩ := h
    exact ⟨_, rfl⟩

/-- Where the reader goes on, it does so behind the piece. -/
theorem Takes.rest_eq {stack stack' : List Open} {rest rest' m : List Char}
    (h : Takes stack rest m (.more stack' rest')) : rest' = rest := by
  -- `close` alone can end the document, so the elements around decide the other two cases
  generalize hp : Progress.more stack' rest' = p at h
  cases h with
  | emptyTag =>
    cases stack with
    | nil => exact nomatch hp
    | cons => exact (Progress.more.inj hp).2
  | @endTag _ outer =>
    cases outer with
    | nil => exact nomatch hp
    | cons => exact (Progress.more.inj hp).2
  | _ => exact (Progress.more.inj hp).2

section

variable {stack : List Open} {s rest m : List Char} {p : Progress}

/-- What the reader takes behind `<!` is a comment, a literal section or a type declaration. -/
theorem takes_of_readBang (h : readBang stack ('!' :: s) = .ok p) :
    ∃ m rest, '<' :: '!' :: s = m ++ rest ∧ Takes stack rest m p := by
  unfold readBang at h
  rw [List.drop_one, List.tail_cons] at h
  split at h
  -- the second character says which of the three it can be
  case h_1 =>
    split at h
    · next body rest hclose =>
      split at h
      · next hstarts =>
        cases h
        obtain ⟨inner, hinner⟩ := Option.isSome_iff_exists.mp hstarts
        rw [Text.stripPrefix?_eq_some_iff] at hinner
        rw [hinner] at hclose
        obtain ⟨text, m, -, hm, hs⟩ := comment_iff.mp hclose
        exact ⟨m, rest, hs, .comment ⟨text, hm⟩⟩
      · exact nomatch h
    · exact nomatch h
  case h_2 =>
    split at h
    · next body rest hclose =>
      split at h
      · next inner hinner =>
        cases h
        rw [Text.stripPrefix?_eq_some_iff] at hinner
        rw [hinner] at hclose
        obtain ⟨text, m, rfl, hm, hs⟩ := literal_iff.mp hclose
        refine ⟨m, rest, hs, ?_⟩
        have htake : (text ++ [']', ']']).take ((text ++ [']', ']']).length - 2) = text := by
          simp
        rw [htake]
        exact .literal hm
      · exact nomatch h
    · exact nomatch h
  case h_3 =>
    split at h
    · split at h
      · next body rest hclose =>
        split at h
        · next hword =>
          split at h
          · exact nomatch h
          · next hname =>
            cases h
            obtain ⟨m, hm, hs⟩ := typeDeclaration_iff.mp ⟨body, hclose, hword, hname⟩
            exact ⟨m, rest, hs, .typeDeclaration hm⟩
        · exact nomatch h
      · exact nomatch h
    · exact nomatch h
  case h_4 => exact nomatch h

/-- What the reader takes behind `<?` is an instruction. -/
theorem takes_of_readInstruction (h : readInstruction stack ('?' :: s) = .ok p) :
    ∃ m rest, '<' :: '?' :: s = m ++ rest ∧ Takes stack rest m p := by
  unfold readInstruction at h
  split at h
  · next body rest hclose =>
    split at h
    · exact nomatch h
    · next hlength =>
      cases h
      obtain ⟨m, hm, hs⟩ := instruction_iff.mp ⟨body, hclose, hlength⟩
      exact ⟨m, rest, hs, .instruction hm⟩
  · exact nomatch h

/-- What the reader takes behind `</` is the closing tag of the innermost open element. -/
theorem takes_of_readEnd (h : readEnd stack ('/' :: s) = .ok p) :
    ∃ m rest, '<' :: '/' :: s = m ++ rest ∧ Takes stack rest m p := by
  unfold readEnd at h
  split at h
  · exact nomatch h
  · next tag rest htag =>
    obtain ⟨hs, htext⟩ := tagFrom_eq_some_iff.mp htag
    cases tag with
    | nil => exact nomatch hs
    | cons c body =>
      obtain ⟨rfl, rfl⟩ := List.cons.inj hs
      cases stack with
      | nil => exact nomatch h
      | cons e outer =>
        -- the name that the reader compares is the one that `closingName` describes
        change (if e.name = closingName body then Except.ok (close e.name e.finish rest outer)
          else Except.error _) = _ at h
        split at h
        · next hname =>
          cases h
          refine ⟨_, rest, ?_, .endTag rfl ⟨body, rfl, tagText_slash_iff.mp htext, hname.symm⟩⟩
          simp
        · exact nomatch h

/-- What the reader takes elsewhere is a tag that opens an element or is a whole one. -/
theorem takes_of_readStart (hopens : Opens s) (h : readStart stack s = .ok p) :
    ∃ m rest, '<' :: s = m ++ rest ∧ Takes stack rest m p := by
  unfold readStart at h
  split at h
  · exact nomatch h
  · next tag rest htag =>
    obtain ⟨rfl, htext⟩ := tagFrom_eq_some_iff.mp htag
    rw [opens_append_iff] at hopens
    -- a slash before the end, which is not in the tag's own text, makes it a whole element
    split at h
    · next hlast =>
      obtain ⟨tag, rfl⟩ := List.getLast?_eq_some_iff.mp (beq_iff_eq.mp hlast)
      rw [List.dropLast_concat] at h
      split at h
      · next e he =>
        cases h
        exact ⟨_, rest, by simp, .emptyTag ⟨tag, rfl, htext, hopens, he⟩⟩
      · exact nomatch h
    · next hlast =>
      split at h
      · next e he =>
        cases h
        have hlast : tag.getLast? ≠ some '/' := fun h => hlast (beq_iff_eq.mpr h)
        exact ⟨_, rest, by simp, .startTag ⟨tag, rfl, htext, hopens, hlast, he⟩⟩
      · exact nomatch h

/-- The reader takes pieces of markup only. -/
theorem takes_of_readMarkup (h : readMarkup stack s = .ok p) :
    ∃ m rest, '<' :: s = m ++ rest ∧ Takes stack rest m p := by
  unfold readMarkup at h
  split at h
  · exact nomatch h
  · exact takes_of_readBang h
  · exact takes_of_readEnd h
  · exact takes_of_readInstruction h
  -- the first character is none of the three, as it has been looked for above
  · next hnil hbang hslash hquestion =>
    refine takes_of_readStart (fun c hc => ?_) h
    cases s with
    | nil => exact nomatch hc
    | cons d s =>
      cases hc
      exact ⟨fun h => hbang s (h ▸ rfl), fun h => hslash s (h ▸ rfl),
        fun h => hquestion s (h ▸ rfl)⟩

/-- A comment changes nothing. -/
theorem readMarkup_of_comment (hm : Comment m) (hs : '<' :: s = m ++ rest) :
    readMarkup stack s = .ok (.more stack rest) := by
  obtain ⟨text, hm⟩ := hm
  have hclose := comment_iff.mpr ⟨text, m, rfl, hm, hs⟩
  obtain ⟨s, rfl⟩ : ∃ s', s = '!' :: '-' :: s' := by
    rw [hm.1] at hs
    exact ⟨_, (List.cons.inj hs).2⟩
  rw [readMarkup, readBang, List.drop_one, List.tail_cons, hclose]
  rfl

/-- A literal section is text, whatever is in it. -/
theorem readMarkup_of_literal {text : List Char} (hm : Literal text m) (hs : '<' :: s = m ++ rest) :
    readMarkup stack s = .ok (.more (addText text stack) rest) := by
  have hclose := literal_iff.mpr ⟨text, m, rfl, hm, hs⟩
  have htake : (text ++ [']', ']']).take ((text ++ [']', ']']).length - 2) = text := by simp
  obtain ⟨s, rfl⟩ : ∃ s', s = '!' :: '[' :: s' := by
    rw [hm.1] at hs
    exact ⟨_, (List.cons.inj hs).2⟩
  rw [readMarkup, readBang, List.drop_one, List.tail_cons, hclose]
  exact congrArg (fun text => Except.ok (Progress.more (addText text stack) rest)) htake

/-- A letter which is the fourth one in lower case is so in one of two ways. -/
theorem eq_of_toLower_eq {c : Char} (h : c.toLower = 'd') : c = 'D' ∨ c = 'd' := by
  unfold Char.toLower at h
  split at h
  · left
    have hval := congrArg Char.val h
    apply Char.ext
    change c.val = 68
    change c.val + 32 = 100 at hval
    exact (UInt32.add_left_inj 32).mp hval
  · exact .inr h

/-- The word of a declaration has the letter by which the reader knows it. -/
theorem second_of_startsWithWord {first second : Char} {s : List Char}
    (h : startsWithWord "!DOCTYPE".toList (first :: second :: s) = true) :
    second = 'D' ∨ second = 'd' := by
  have hword : "!DOCTYPE".toList = ['!', 'D', 'O', 'C', 'T', 'Y', 'P', 'E'] := rfl
  rw [startsWithWord, hword, beq_iff_eq] at h
  simp only [List.length_cons, List.length_nil, List.take_succ_cons, List.map_cons,
    List.cons.injEq] at h
  exact eq_of_toLower_eq h.2.1

/-- A type declaration changes nothing. -/
theorem readMarkup_of_typeDeclaration (hm : TypeDeclaration m) (hs : '<' :: s = m ++ rest) :
    readMarkup stack s = .ok (.more stack rest) := by
  obtain ⟨s, rfl⟩ : ∃ s', s = '!' :: s' := by
    obtain ⟨body, rfl, -⟩ := hm
    exact ⟨_, (List.cons.inj hs).2⟩
  obtain ⟨body, hclose, hword, hname⟩ := typeDeclaration_iff.mpr ⟨m, hm, hs⟩
  obtain ⟨hbody, -⟩ := declarationFrom_eq_some_iff.mp hclose
  -- the reader looks at the second character, which the word gives
  match body with
  | [] | [_] => exact absurd rfl hname
  | first :: second :: body =>
    obtain ⟨rfl, rfl⟩ := List.cons.inj hbody
    have hletter := second_of_startsWithWord hword
    change readBang stack ('!' :: second :: (body ++ '>' :: rest)) = _
    have hclose : declarationFrom 0 [] ('!' :: second :: (body ++ '>' :: rest)) =
        some ('!' :: second :: body, rest) := hclose
    unfold readBang
    rw [hclose]
    dsimp only
    rw [if_pos hword, if_neg hname]
    obtain rfl | rfl := hletter <;> rfl

/-- An instruction changes nothing. -/
theorem readMarkup_of_instruction (hm : Instruction m) (hs : '<' :: s = m ++ rest) :
    readMarkup stack s = .ok (.more stack rest) := by
  obtain ⟨s, rfl⟩ : ∃ s', s = '?' :: s' := by
    obtain ⟨text, ⟨rfl, -⟩, -⟩ := hm
    exact ⟨_, (List.cons.inj hs).2⟩
  obtain ⟨body, hclose, hlength⟩ := instruction_iff.mpr ⟨m, hm, hs⟩
  rw [readMarkup, readInstruction, hclose]
  exact if_neg hlength

/-- The closing tag of the innermost element closes it. -/
theorem readMarkup_of_endTag {e : Open} {outer : List Open} (hm : EndTag e.name m)
    (hs : '<' :: s = m ++ rest) :
    readMarkup (e :: outer) s = .ok (close e.name e.finish rest outer) := by
  obtain ⟨body, rfl, htext, hname⟩ := hm
  obtain ⟨-, rfl⟩ := List.cons.inj hs
  have htag : tagFrom none [] ('/' :: (body ++ ['>']) ++ rest) = some ('/' :: body, rest) :=
    tagFrom_eq_some_iff.mpr ⟨by simp, tagText_slash_iff.mpr htext⟩
  change readEnd (e :: outer) ('/' :: (body ++ ['>']) ++ rest) = _
  rw [readEnd, htag]
  exact if_pos hname.symm

/-- A tag that begins with no other piece's character is read as one that opens an element. -/
theorem readMarkup_of_opens {tag : List Char} (hopens : Opens tag) :
    readMarkup stack (tag ++ '>' :: rest) = readStart stack (tag ++ '>' :: rest) := by
  have hopens : Opens (tag ++ '>' :: rest) := opens_append_iff.mpr hopens
  generalize hs : tag ++ '>' :: rest = s at hopens
  cases s with
  | nil => exact absurd hs (List.append_ne_nil_of_right_ne_nil tag (List.cons_ne_nil _ _))
  | cons c s =>
    obtain ⟨hbang, hslash, hquestion⟩ := hopens c rfl
    rw [readMarkup]
    · exact List.cons_ne_nil _ _
    · exact fun _ h => hbang (List.cons.inj h).1
    · exact fun _ h => hslash (List.cons.inj h).1
    · exact fun _ h => hquestion (List.cons.inj h).1

/-- A tag that opens an element puts it on top of the open ones. -/
theorem readMarkup_of_startTag {e : Open} (hm : StartTag e m) (hs : '<' :: s = m ++ rest) :
    readMarkup stack s = .ok (.more (e :: stack) rest) := by
  obtain ⟨tag, rfl, htext, hopens, hlast, he⟩ := hm
  obtain rfl : s = tag ++ '>' :: rest := by simpa using hs
  have hlast : ¬ (tag.getLast? == some '/') = true := fun h => hlast (beq_iff_eq.mp h)
  rw [readMarkup_of_opens hopens, readStart, tagFrom_eq_some_iff.mpr ⟨rfl, htext⟩]
  dsimp only
  rw [if_neg hlast, he]

/-- An element without contents is closed where it is opened. -/
theorem readMarkup_of_emptyTag {e : Open} (hm : EmptyTag e m) (hs : '<' :: s = m ++ rest) :
    readMarkup stack s = .ok (close e.name e.finish rest stack) := by
  obtain ⟨tag, rfl, htext, hopens, he⟩ := hm
  obtain rfl : s = (tag ++ ['/']) ++ '>' :: rest := by simpa using hs
  rw [readMarkup_of_opens hopens, readStart, tagFrom_eq_some_iff.mpr ⟨rfl, htext⟩]
  dsimp only
  rw [List.getLast?_concat, BEq.rfl, if_pos rfl, List.dropLast_concat, he]

/-- **What can follow a `<`.** The reader goes on just if a piece of markup is there, and it does what
the piece stands for. -/
theorem readMarkup_eq_ok_iff :
    readMarkup stack s = .ok p ↔ ∃ m rest, '<' :: s = m ++ rest ∧ Takes stack rest m p := by
  refine ⟨takes_of_readMarkup, ?_⟩
  rintro ⟨m, rest, hs, htakes⟩
  cases htakes with
  | comment hm => exact readMarkup_of_comment hm hs
  | instruction hm => exact readMarkup_of_instruction hm hs
  | typeDeclaration hm => exact readMarkup_of_typeDeclaration hm hs
  | literal hm => exact readMarkup_of_literal hm hs
  | startTag hm => exact readMarkup_of_startTag hm hs
  | emptyTag hm => exact readMarkup_of_emptyTag hm hs
  | endTag hstack hm =>
    subst hstack
    exact readMarkup_of_endTag hm hs

end

end ScriptEngine.Xml
