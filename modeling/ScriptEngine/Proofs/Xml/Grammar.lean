import ScriptEngine.Proofs.Xml.Reading

/-!
# The grammar of documents

Contents of elements are text with pieces of markup in it, and the tags of elements among these nest
(`Contents`, `Element`). A `Document` is one element with a prolog before it, and with no more than
spaces, comments and instructions behind it; of a text that only `Begins` so, what is behind the
element can be anything, and there may be text before it.

The grammar is not ambiguous: the text before a piece of markup ends with the first `<`, and of two
pieces of markup neither begins with the other (`Markup.unique`). So where a text begins with an
element, there is one way to say what is before the element and what is behind it
(`Around.unique`), and this alone decides whether the text is a document (`document_iff`).
-/

namespace ScriptEngine.Xml

/-! ### The grammar -/

/-- Text between pieces of markup, the references of which stand for characters. -/
def CharData (t : List Char) : Prop := '<' ∉ t ∧ ∃ text, unescape t = .ok text

/-- A piece of markup that is no tag. -/
inductive Flat : List Char → Prop
  | comment {m : List Char} : Comment m → Flat m
  | instruction {m : List Char} : Instruction m → Flat m
  | typeDeclaration {m : List Char} : TypeDeclaration m → Flat m
  | literal {text m : List Char} : Literal text m → Flat m

/-- What stands between the tags of an element. -/
inductive Contents : List Char → Prop
  | text {t : List Char} : CharData t → Contents t
  | flat {t m s : List Char} : CharData t → Flat m → Contents s → Contents (t ++ (m ++ s))
  | empty {t m s : List Char} {e : Open} : CharData t → EmptyTag e m → Contents s →
      Contents (t ++ (m ++ s))
  | nested {t first inner last s : List Char} {e : Open} : CharData t → StartTag e first →
      Contents inner → EndTag e.name last → Contents s →
      Contents (t ++ (first ++ (inner ++ (last ++ s))))

/-- An element: a tag without contents, or contents between an opening tag and a closing tag of the
same name. -/
inductive Element : List Char → Prop
  | empty {m : List Char} {e : Open} : EmptyTag e m → Element m
  | nested {first inner last : List Char} {e : Open} : StartTag e first → Contents inner →
      EndTag e.name last → Element (first ++ (inner ++ last))

/-- Text of one kind with pieces of markup of another in it. -/
inductive Around (T M : List Char → Prop) : List Char → Prop
  | text {t : List Char} : T t → Around T M t
  | piece {t m s : List Char} : T t → M m → Around T M s → Around T M (t ++ (m ++ s))

/-- An element is at the beginning of the text, behind text and markup of any kind. -/
def Begins (s : List Char) : Prop :=
  ∃ front element rest, s = front ++ (element ++ rest) ∧ Around CharData Flat front ∧
    Element element

/-- Spaces, comments and instructions. -/
def Misc : List Char → Prop := Around (∀ c ∈ ·, isSpace c = true) fun m => Comment m ∨ Instruction m

/-- What may be before the element of a document. -/
def Prolog (s : List Char) : Prop :=
  Misc s ∨ ∃ front m rest, s = front ++ (m ++ rest) ∧ Misc front ∧ TypeDeclaration m ∧ Misc rest

/-- A document: one element, a prolog before it, and no more than spaces, comments and instructions
behind it. -/
def Document (s : List Char) : Prop :=
  ∃ front element rest, s = front ++ (element ++ rest) ∧ Prolog front ∧ Element element ∧ Misc rest

/-! ### Documents begin with an element -/

/-- Text without references is read as it is. -/
theorem unescapeFrom_of_notMem {t : List Char} (ht : '&' ∉ t) {total fuel : ℕ}
    (hfuel : t.length ≤ fuel) (place : ℕ) : unescapeFrom total fuel place t = .ok t := by
  -- on the text, of which each character takes a step
  induction t generalizing fuel place with
  | nil => cases fuel <;> rfl
  | cons c t ih =>
    obtain ⟨fuel, rfl⟩ : ∃ n, fuel = n + 1 :=
      Nat.exists_eq_add_one.mpr (Nat.lt_of_lt_of_le (Nat.succ_pos _) hfuel)
    obtain ⟨hc, ht⟩ := List.ne_and_not_mem_of_not_mem_cons ht
    rw [unescapeFrom, if_neg (Ne.symm hc), ih ht (Nat.le_of_succ_le_succ hfuel)]
    rfl

/-- Spaces are text. -/
theorem charData_of_isSpace {t : List Char} (ht : ∀ c ∈ t, isSpace c = true) : CharData t := by
  have hnot {x : Char} (hx : isSpace x = false) : x ∉ t := fun hmem => by
    rw [ht x hmem] at hx
    exact nomatch hx
  exact ⟨hnot rfl, t, unescapeFrom_of_notMem (hnot rfl) (Nat.le_refl _) 0⟩

section

variable {T M : List Char → Prop} {s : List Char}

/-- What is around an element may be weakened. -/
theorem Around.mono {T' M' : List Char → Prop} (h : Around T M s) (hT : ∀ t, T t → T' t)
    (hM : ∀ m, M m → M' m) : Around T' M' s := by
  induction h with
  | text ht => exact .text (hT _ ht)
  | piece ht hm _ ih => exact .piece (hT _ ht) (hM _ hm) ih

/-- One more piece of markup can be put at the end, with what is around it. -/
theorem Around.append {m rest : List Char} (h : Around T M s) (hm : M m) (hrest : Around T M rest) :
    Around T M (s ++ (m ++ rest)) := by
  induction h with
  | text ht => exact .piece ht hm hrest
  | piece ht hm' _ ih => simpa using Around.piece ht hm' ih

end

/-- Without markup there are no more than spaces. -/
theorem Misc.isSpace_of_notMem {s : List Char} (h : Misc s) (hs : '<' ∉ s) :
    ∀ c ∈ s, isSpace c = true := by
  cases h with
  | text ht => exact ht
  | piece _ hm _ =>
    refine absurd ?_ hs
    obtain ⟨_, rfl, -⟩ | ⟨_, ⟨rfl, -⟩, -⟩ := hm <;> simp

/-- Spaces, comments and instructions are text and flat markup. -/
theorem Misc.around {s : List Char} (h : Misc s) : Around CharData Flat s :=
  Around.mono h (fun _ => charData_of_isSpace) fun _ hm => hm.elim .comment .instruction

/-- So is a prolog, which may have a type declaration. -/
theorem Prolog.around {s : List Char} (h : Prolog s) : Around CharData Flat s := by
  obtain h | ⟨front, m, rest, rfl, hfront, hm, hrest⟩ := h
  · exact h.around
  · exact hfront.around.append (.typeDeclaration hm) hrest.around

/-- A document begins with an element. -/
theorem Document.begins {s : List Char} (h : Document s) : Begins s := by
  obtain ⟨front, element, rest, rfl, hfront, helement, -⟩ := h
  exact ⟨front, element, rest, rfl, hfront.around, helement⟩

/-! ### Markup that is no tag -/

/-- Adding text leaves the names of open elements. -/
theorem map_name_addText (text : List Char) (stack : List Open) :
    (addText text stack).map (·.name) = stack.map (·.name) := by
  cases stack <;> rfl

/-- The same elements are open behind flat markup as before it. -/
theorem Flat.exists_takes {m : List Char} (h : Flat m) (stack : List Open) (rest : List Char) :
    ∃ stack', Takes stack rest m (.more stack' rest) ∧
      stack'.map (·.name) = stack.map (·.name) := by
  cases h with
  | comment hm => exact ⟨stack, .comment hm, rfl⟩
  | instruction hm => exact ⟨stack, .instruction hm, rfl⟩
  | typeDeclaration hm => exact ⟨stack, .typeDeclaration hm, rfl⟩
  | literal hm => exact ⟨_, .literal hm, map_name_addText _ stack⟩

/-- What the reader takes is flat markup or one of the three kinds of tags, each with its effect on
the stack. -/
theorem Takes.flat_or_tag {stack : List Open} {rest m : List Char} {p : Progress}
    (h : Takes stack rest m p) :
    (Flat m ∧ ∃ stack', p = .more stack' rest ∧ stack'.map (·.name) = stack.map (·.name)) ∨
    (∃ e, StartTag e m ∧ p = .more (e :: stack) rest) ∨
    (∃ e, EmptyTag e m ∧ p = close e.name e.finish rest stack) ∨
    ∃ e outer, stack = e :: outer ∧ EndTag e.name m ∧ p = close e.name e.finish rest outer := by
  cases h with
  | comment hm => exact .inl ⟨.comment hm, _, rfl, rfl⟩
  | instruction hm => exact .inl ⟨.instruction hm, _, rfl, rfl⟩
  | typeDeclaration hm => exact .inl ⟨.typeDeclaration hm, _, rfl, rfl⟩
  | literal hm => exact .inl ⟨.literal hm, _, rfl, map_name_addText _ stack⟩
  | startTag hm => exact .inr (.inl ⟨_, hm, rfl⟩)
  | emptyTag hm => exact .inr (.inr (.inl ⟨_, hm, rfl⟩))
  | endTag hstack hm => exact .inr (.inr (.inr ⟨_, _, hstack, hm, rfl⟩))

/-! ### There is one way -/

/-- What a piece of markup is to the elements around it. -/
inductive Kind where
  | flat
  | starts
  | empty
  | ends

/-- A piece of markup of each kind. -/
inductive Markup : Kind → List Char → Prop
  | flat {m : List Char} : Flat m → Markup .flat m
  | starts {m : List Char} {e : Open} : StartTag e m → Markup .starts m
  | empty {m : List Char} {e : Open} : EmptyTag e m → Markup .empty m
  | ends {name m : List Char} : EndTag name m → Markup .ends m

section

variable {k k' : Kind} {t t' m m' rest rest' : List Char}

/-- What the reader takes at the beginning of a text is determined by the text. -/
theorem Takes.unique {stack : List Open} {p p' : Progress} (h : Takes stack rest m p)
    (h' : Takes stack rest' m' p') (heq : m ++ rest = m' ++ rest') : p = p' := by
  obtain ⟨s, rfl⟩ := h.exists_cons
  have hread := readMarkup_eq_ok_iff.mpr ⟨_, rest, (List.cons_append ..).symm, h⟩
  have hread' := readMarkup_eq_ok_iff.mpr ⟨m', rest', heq, h'⟩
  exact Except.ok.inj (hread.symm.trans hread')

/-- Markup that is no closing tag leaves something to read where an element is open. -/
theorem Markup.exists_takes (h : Markup k m) (hk : k ≠ .ends) (e : Open) (rest : List Char) :
    ∃ stack, Takes [e] rest m (.more stack rest) := by
  cases h with
  | ends => exact absurd rfl hk
  | starts hm => exact ⟨_, .startTag hm⟩
  | empty hm => exact ⟨_, .emptyTag hm⟩
  | flat hm =>
    obtain ⟨stack, htakes, -⟩ := hm.exists_takes [e] rest
    exact ⟨stack, htakes⟩

/-- What the reader has come to where no element was open tells the kind of the markup. -/
def Progress.kind : Progress → Kind
  | .more [] _ => .flat
  | .more (_ :: _) _ => .starts
  | .complete _ _ => .empty

/-- Where nothing is open, every other piece of markup can be taken, and its kind be seen. -/
theorem Markup.exists_takes_nil (h : Markup k m) (hk : k ≠ .ends) (rest : List Char) :
    ∃ p, Takes [] rest m p ∧ p.kind = k := by
  cases h with
  | ends => exact absurd rfl hk
  | starts hm => exact ⟨_, .startTag hm, rfl⟩
  | empty hm => exact ⟨_, .emptyTag hm, rfl⟩
  | flat hm =>
    obtain ⟨stack, htakes, hstack⟩ := hm.exists_takes [] rest
    obtain rfl : stack = [] := List.map_eq_nil_iff.mp hstack
    exact ⟨_, htakes, rfl⟩

/-- A closing tag is no other markup. -/
theorem EndTag.ne {name : List Char} (h : EndTag name m) (h' : Markup k m') (hk : k ≠ .ends) :
    m ++ rest ≠ m' ++ rest' := by
  intro heq
  -- where one element of the name is open, the tag ends the reader, and no other markup does
  have hends : Takes [⟨name, .empty, []⟩] rest m (close _ _ rest []) := .endTag rfl h
  obtain ⟨stack, htakes⟩ := h'.exists_takes hk ⟨name, .empty, []⟩ rest'
  exact nomatch hends.unique htakes heq

/-- A closing tag ends at its bracket, so it is determined by the text. -/
theorem EndTag.unique {name name' : List Char} (h : EndTag name m) (h' : EndTag name' m')
    (heq : m ++ rest = m' ++ rest') : m = m' ∧ rest = rest' := by
  obtain ⟨body, rfl, hbody, -⟩ := h
  obtain ⟨body', rfl, hbody', -⟩ := h'
  have heq : body ++ '>' :: rest = body' ++ '>' :: rest' := by simpa using heq
  have htag : tagFrom none [] (body ++ '>' :: rest) = some (body, rest) := hbody.tagFrom [] rest
  -- both bodies are what the reader takes for the tag
  have htag' := tagFrom_eq_some_iff.mpr ⟨heq, hbody'⟩
  obtain ⟨rfl, rfl⟩ := Prod.mk.inj (Option.some.inj (htag.symm.trans htag'))
  exact ⟨rfl, rfl⟩

/-- Of two pieces of markup, neither begins with the other. -/
theorem Markup.unique (h : Markup k m) (h' : Markup k' m') (heq : m ++ rest = m' ++ rest') :
    k = k' ∧ m = m' ∧ rest = rest' := by
  -- closing tags are compared by themselves, and all other markup by what the reader makes of it
  by_cases hk : k = .ends
  · subst hk
    cases h with
    | ends hm =>
      by_cases hk' : k' = .ends
      · subst hk'
        cases h' with
        | ends hm' => exact ⟨rfl, hm.unique hm' heq⟩
      · exact absurd heq (hm.ne h' hk')
  · by_cases hk' : k' = .ends
    · subst hk'
      cases h' with
      | ends hm' => exact absurd heq.symm (hm'.ne h hk)
    · -- with nothing open, the reader tells the kind; with an element open, what is behind
      obtain ⟨p, hp, rfl⟩ := h.exists_takes_nil hk rest
      obtain ⟨p', hp', rfl⟩ := h'.exists_takes_nil hk' rest'
      obtain ⟨stack, htakes⟩ := h.exists_takes hk ⟨[], .empty, []⟩ rest
      obtain ⟨stack', htakes'⟩ := h'.exists_takes hk' ⟨[], .empty, []⟩ rest'
      obtain rfl : rest = rest' := (Progress.more.inj (htakes.unique htakes' heq)).2
      exact ⟨congrArg _ (hp.unique hp' heq), List.append_cancel_right heq, rfl⟩

/-- Markup begins with the bracket. -/
theorem Markup.head? (h : Markup k m) (rest : List Char) : (m ++ rest).head? = some '<' := by
  obtain ⟨s, rfl⟩ : ∃ s, m = '<' :: s := by
    by_cases hk : k = .ends
    · subst hk
      cases h with
      | ends hm =>
        obtain ⟨body, rfl, -⟩ := hm
        exact ⟨_, rfl⟩
    · obtain ⟨p, hp, -⟩ := h.exists_takes_nil hk []
      exact hp.exists_cons
  rfl

/-- The text before markup ends where the markup begins. -/
theorem CharData.unique (ht : CharData t) (ht' : CharData t') (hm : m.head? = some '<')
    (hm' : m'.head? = some '<') (heq : t ++ m = t' ++ m') : t = t' ∧ m = m' := by
  obtain ⟨s, rfl⟩ := List.head?_eq_some_iff.mp hm
  obtain ⟨s', rfl⟩ := List.head?_eq_some_iff.mp hm'
  -- the text is all that stands before the first bracket
  obtain rfl : t = t' := by
    rw [← takeWhile_text ht.1 s, heq, takeWhile_text ht'.1 s']
  exact ⟨rfl, List.append_cancel_left heq⟩

/-- Text and the markup behind it are determined together. -/
theorem Markup.unique_behind (h : Markup k m) (h' : Markup k' m') (ht : CharData t)
    (ht' : CharData t') (heq : t ++ (m ++ rest) = t' ++ (m' ++ rest')) :
    k = k' ∧ t = t' ∧ m = m' ∧ rest = rest' := by
  obtain ⟨rfl, hbehind⟩ := ht.unique ht' (h.head? rest) (h'.head? rest') heq
  obtain ⟨hk, hm, hrest⟩ := h.unique h' hbehind
  exact ⟨hk, rfl, hm, hrest⟩

end

/-- How many elements are open behind a piece of markup, of `depth` and one before it. -/
def Kind.depth (depth : ℕ) : Kind → ℕ
  | .flat | .empty => depth + 1
  | .starts => depth + 2
  | .ends => depth

/-- The text closes as many elements as are open, and `rest` is behind that. -/
inductive Leaves : ℕ → List Char → List Char → Prop
  | done (rest : List Char) : Leaves 0 rest rest
  | step {k : Kind} {depth : ℕ} {t m s rest : List Char} : CharData t → Markup k m →
      Leaves (k.depth depth) s rest → Leaves (depth + 1) (t ++ (m ++ s)) rest

/-- What is behind the closing of all open elements is determined by the text. -/
theorem Leaves.unique {depth : ℕ} {s rest rest' : List Char} (h : Leaves depth s rest)
    (h' : Leaves depth s rest') : rest = rest' := by
  -- on the first way: each step takes the same text and markup in the second one
  induction h with
  | done =>
    cases h'
    rfl
  | @step _ _ t m s _ ht hm _ ih =>
    generalize hs : t ++ (m ++ s) = s' at h'
    cases h' with
    | step ht' hm' hleaves =>
      obtain ⟨rfl, -, -, rfl⟩ := hm.unique_behind hm' ht ht' hs
      exact ih hleaves

/-- Contents and the closing tag behind them close one element. -/
theorem Contents.leaves {inner name last : List Char} (h : Contents inner)
    (hlast : EndTag name last) {depth : ℕ} {s rest : List Char} (hs : Leaves depth s rest) :
    Leaves (depth + 1) (inner ++ (last ++ s)) rest := by
  -- on the contents: an element in them opens one more, which its own tag closes
  induction h generalizing name last depth s with
  | text ht => exact .step ht (.ends hlast) hs
  | flat ht hm _ ih => simpa using Leaves.step ht (.flat hm) (ih hlast hs)
  | empty ht hm _ ih => simpa using Leaves.step ht (.empty hm) (ih hlast hs)
  | nested ht hm _ hend _ ih ih' =>
    simpa using Leaves.step ht (.starts hm) (ih hend (ih' hlast hs))

section

variable {m m' front front' rest rest' : List Char}

/-- An element begins with the bracket. -/
theorem Element.head? (h : Element m) (rest : List Char) : (m ++ rest).head? = some '<' := by
  cases h with
  | empty hm => exact (Markup.empty hm).head? rest
  | nested hm =>
    rw [List.append_assoc]
    exact (Markup.starts hm).head? _

/-- Of two elements, neither begins with the other. -/
theorem Element.unique (h : Element m) (h' : Element m') (heq : m ++ rest = m' ++ rest') :
    m = m' ∧ rest = rest' := by
  -- the first tag decides on the form, and then the depth where the element ends
  obtain rfl : rest = rest' := by
    cases h with
    | empty hm =>
      cases h' with
      | empty hm' => exact (Markup.unique (.empty hm) (.empty hm') heq).2.2
      | nested hm' =>
        exact nomatch (Markup.unique (.empty hm) (.starts hm') (by simpa using heq)).1
    | nested hm hinner hlast =>
      cases h' with
      | empty hm' =>
        exact nomatch (Markup.unique (.starts hm) (.empty hm') (by simpa using heq)).1
      | nested hm' hinner' hlast' =>
        obtain ⟨-, -, heq⟩ := Markup.unique (.starts hm) (.starts hm') (by simpa using heq)
        have hleaves := hinner.leaves hlast (.done rest)
        rw [heq] at hleaves
        exact hleaves.unique (hinner'.leaves hlast' (.done rest'))
  exact ⟨List.append_cancel_right heq, rfl⟩

/-- An element is no flat markup. -/
theorem Element.ne_flat (h : Element m) (h' : Flat m') : m ++ rest ≠ m' ++ rest' := by
  intro heq
  cases h with
  | empty hm => exact nomatch (Markup.unique (.empty hm) (.flat h') heq).1
  | nested hm => exact nomatch (Markup.unique (.starts hm) (.flat h') (by simpa using heq)).1

/-- **There is one way to say what is before the element and what is behind it.** -/
theorem Around.unique (h : Around CharData Flat front) (h' : Around CharData Flat front')
    (hm : Element m) (hm' : Element m') (heq : front ++ (m ++ rest) = front' ++ (m' ++ rest')) :
    front = front' ∧ m = m' ∧ rest = rest' := by
  -- on what is before the first element, piece by piece
  induction h generalizing front' with
  | text ht =>
    cases h' with
    | text ht' =>
      obtain ⟨rfl, hbehind⟩ := ht.unique ht' (hm.head? rest) (hm'.head? rest') heq
      exact ⟨rfl, hm.unique hm' hbehind⟩
    -- one begins its element where the other has flat markup
    | piece ht' hflat _ =>
      rw [List.append_assoc, List.append_assoc] at heq
      have hbehind := (ht.unique ht' (hm.head? rest) ((Markup.flat hflat).head? _) heq).2
      exact absurd hbehind (hm.ne_flat hflat)
  | piece ht hflat _ ih =>
    cases h' with
    | text ht' =>
      rw [List.append_assoc, List.append_assoc] at heq
      have hbehind := (ht'.unique ht (hm'.head? rest') ((Markup.flat hflat).head? _) heq.symm).2
      exact absurd hbehind (hm'.ne_flat hflat)
    | piece ht' hflat' h' =>
      obtain ⟨-, rfl, rfl, hbehind⟩ :=
        Markup.unique_behind (.flat hflat) (.flat hflat') ht ht' (by simpa using heq)
      obtain ⟨rfl, hrest⟩ := ih h' hbehind
      exact ⟨rfl, hrest⟩

/-- **Only what is around the element decides whether a text is a document.** -/
theorem document_iff (hfront : Around CharData Flat front) (hm : Element m) :
    Document (front ++ (m ++ rest)) ↔ Prolog front ∧ Misc rest := by
  constructor
  · rintro ⟨front', m', rest', heq, hfront', hm', hrest'⟩
    obtain ⟨rfl, rfl, rfl⟩ := hfront.unique hfront'.around hm hm' heq
    exact ⟨hfront', hrest'⟩
  · rintro ⟨hprolog, hrest⟩
    exact ⟨front, m, rest, rfl, hprolog, hm, hrest⟩

end

end ScriptEngine.Xml
