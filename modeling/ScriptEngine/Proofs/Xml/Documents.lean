import ScriptEngine.Proofs.Containers
import ScriptEngine.Proofs.Xml.Grammar

/-!
# Which texts are read as documents

The reader has a stack of open elements and no grammar. What it takes has one nevertheless. A stack
stands for what is still missing: a text `Closes` some names if it is the contents of the innermost
element, its closing tag, and then what closes the others. One step of the reader is one production of
the grammar (`readFrom_succ_eq_ok_iff`), so induction over the steps gives the grammar from a run
(`closes_of_readFrom`), and induction over the grammar gives the run from it
(`Contents.completes`).

With no element open, the reader drops text and literal sections, and it ends with the first element,
whatever is behind it. So it takes each text that begins with an element, and does not see whether
the text is a document (`unmarshal_document_iff`).
-/

namespace ScriptEngine.Xml

/-! ### One step -/

/-- **What one step of the reader does.** It takes text, of which it replaces the references, and the
piece of markup behind it. -/
theorem readFrom_succ_eq_ok_iff {fuel : ℕ} {stack : List Open} {s : List Char}
    {r : List Char × Content} :
    readFrom (fuel + 1) stack s = .ok r ↔
      ∃ t text m rest p, s = t ++ (m ++ rest) ∧ '<' ∉ t ∧ unescape t = .ok text ∧
        Takes (addText text stack) rest m p ∧ p.proceed fuel = .ok r := by
  constructor
  · intro h
    -- the branches of the step that fail do not give the result, so one of two is left
    rw [readFrom] at h
    split at h
    · cases h
    · next text htext =>
      split at h
      · cases h
      · next c s' hdrop =>
        -- what stops the text is a `<`
        have hc : ¬ (c != '<') = true := by
          have hhead := List.head?_dropWhile_not (· != '<') s
          rw [hdrop] at hhead
          simpa using hhead
        obtain rfl : c = '<' := by simpa using hc
        have ht : '<' ∉ s.takeWhile (· != '<') := fun hmem => by
          simpa using List.mem_takeWhile_imp hmem
        have hsplit : s = s.takeWhile (· != '<') ++ '<' :: s' := by
          rw [← hdrop, List.takeWhile_append_dropWhile]
        split at h
        · cases h
        · next name c hmarkup =>
          obtain ⟨m, rest, hs, htakes⟩ := readMarkup_eq_ok_iff.mp hmarkup
          exact ⟨_, text, m, rest, _, by rw [← hs, ← hsplit], ht, htext, htakes, h⟩
        · next stack rest hmarkup =>
          obtain ⟨m, rest, hs, htakes⟩ := readMarkup_eq_ok_iff.mp hmarkup
          exact ⟨_, text, m, rest, _, by rw [← hs, ← hsplit], ht, htext, htakes, h⟩
  · rintro ⟨t, text, m, rest, p, rfl, ht, htext, htakes, hproceed⟩
    obtain ⟨m', rfl⟩ := htakes.exists_cons
    have hmarkup : readMarkup (addText text stack) (m' ++ rest) = .ok p :=
      readMarkup_eq_ok_iff.mpr ⟨'<' :: m', rest, rfl, htakes⟩
    have hread := readFrom_text ht htext fuel stack (m' ++ rest)
    rw [hmarkup] at hread
    exact hread.trans hproceed

/-- The reader needs no more steps than there are characters. -/
theorem readFrom_of_length_lt {fuel : ℕ} {stack : List Open} {s : List Char}
    {r : List Char × Content} (h : readFrom fuel stack s = .ok r) {n : ℕ} (hn : s.length < n) :
    readFrom n stack s = .ok r := by
  -- on the steps of the run: each takes a character at least
  induction fuel generalizing stack s n with
  | zero => exact nomatch h
  | succ fuel ih =>
    obtain ⟨n, rfl⟩ := Nat.exists_eq_add_one.mpr (Nat.zero_lt_of_lt hn)
    obtain ⟨t, text, m, rest, p, rfl, ht, htext, htakes, hproceed⟩ := readFrom_succ_eq_ok_iff.mp h
    refine readFrom_succ_eq_ok_iff.mpr ⟨t, text, m, rest, p, rfl, ht, htext, htakes, ?_⟩
    cases p with
    | complete name c => exact hproceed
    | more stack' rest' =>
      -- a piece of markup has at least one character
      obtain ⟨m', rfl⟩ := htakes.exists_cons
      obtain rfl := htakes.rest_eq
      refine ih hproceed ?_
      simp only [List.length_append, List.length_cons] at hn
      omega

/-! ### From a run to the grammar -/

/-- The text closes the elements of the names, the innermost first, and goes on in any way. -/
inductive Closes : List (List Char) → List Char → Prop
  | nil (rest : List Char) : Closes [] rest
  | cons {name inner last s : List Char} {names : List (List Char)} : Contents inner →
      EndTag name last → Closes names s → Closes (name :: names) (inner ++ (last ++ s))

section

variable {name t m s : List Char} {names : List (List Char)} {e : Open}

/-- Flat markup in front belongs to the contents of the innermost element. -/
theorem Closes.flat (ht : CharData t) (hm : Flat m) (h : Closes (name :: names) s) :
    Closes (name :: names) (t ++ (m ++ s)) := by
  cases h with
  | cons hinner hlast hs => simpa using Closes.cons (.flat ht hm hinner) hlast hs

/-- So does an element without contents. -/
theorem Closes.empty (ht : CharData t) (hm : EmptyTag e m) (h : Closes (name :: names) s) :
    Closes (name :: names) (t ++ (m ++ s)) := by
  cases h with
  | cons hinner hlast hs => simpa using Closes.cons (.empty ht hm hinner) hlast hs

/-- An element that is opened in front is closed first, and belongs to the contents around it. -/
theorem Closes.nested (ht : CharData t) (hm : StartTag e m)
    (h : Closes (e.name :: name :: names) s) :
    Closes (name :: names) (t ++ (m ++ s)) := by
  cases h with
  | cons hinner hlast hs =>
    cases hs with
    | cons houter hlast' hs =>
      simpa using Closes.cons (.nested ht hm hinner hlast houter) hlast' hs

/-- A closing tag in front closes the innermost element. -/
theorem Closes.last (ht : CharData t) (hm : EndTag name m) (h : Closes names s) :
    Closes (name :: names) (t ++ (m ++ s)) :=
  .cons (.text ht) hm h

end

/-- A closed element is the document, or the reader goes on in the one around it. -/
theorem proceed_close {name : List Char} {c : Content} {rest : List Char} {stack : List Open}
    {fuel : ℕ} {r : List Char × Content} (h : (close name c rest stack).proceed fuel = .ok r) :
    stack = [] ∨ ∃ stack', stack'.map (·.name) = stack.map (·.name) ∧
      readFrom fuel stack' rest = .ok r := by
  cases stack with
  | nil => exact .inl rfl
  | cons e outer => exact .inr ⟨e.adopt name c :: outer, rfl, h⟩

/-- A reader that comes to the end has closed all elements that were open. -/
theorem closes_of_readFrom {fuel : ℕ} {stack : List Open} {name : List Char}
    {names : List (List Char)} (hnames : stack.map (·.name) = name :: names) {s : List Char}
    {r : List Char × Content} (h : readFrom fuel stack s = .ok r) : Closes (name :: names) s := by
  -- on the steps: each one is a production, whose rest is closed by the steps that are left
  induction fuel generalizing stack name names s with
  | zero => exact nomatch h
  | succ fuel ih =>
    obtain ⟨t, text, m, rest, p, rfl, ht, htext, htakes, hproceed⟩ := readFrom_succ_eq_ok_iff.mp h
    have hdata : CharData t := ⟨ht, text, htext⟩
    rw [← map_name_addText text] at hnames
    obtain ⟨hm, stack', rfl, hstack'⟩ | ⟨e, hm, rfl⟩ | ⟨e, hm, rfl⟩ | ⟨e, outer, hstack, hm, rfl⟩ :=
      htakes.flat_or_tag
    -- flat markup leaves the names as they are
    · exact .flat hdata hm (ih (hstack'.trans hnames) hproceed)
    -- an opening tag puts one name in front
    · exact .nested hdata hm (ih (by rw [List.map_cons, hnames]) hproceed)
    · -- an element is open, so one without contents does not end the reader
      obtain hempty | ⟨stack', hstack', hread⟩ := proceed_close hproceed
      · rw [hempty] at hnames
        exact nomatch hnames
      · exact .empty hdata hm (ih (hstack'.trans hnames) hread)
    -- a closing tag takes the first name away
    · rw [hstack] at hnames
      obtain ⟨rfl, rfl⟩ := List.cons.inj hnames
      refine .last hdata hm ?_
      -- the reader ends if this was the last one, and needs nothing of what is behind it
      obtain rfl | ⟨stack', hstack', hread⟩ := proceed_close hproceed
      · exact .nil rest
      · cases outer with
        | nil => exact .nil rest
        | cons e' outer => exact ih hstack' hread

/-- A reader that comes to the end with nothing open has met an element. -/
theorem begins_of_readFrom {fuel : ℕ} {s : List Char} {r : List Char × Content}
    (h : readFrom fuel [] s = .ok r) : Begins s := by
  -- on the steps, of which those before the first tag are around the element
  induction fuel generalizing s with
  | zero => exact nomatch h
  | succ fuel ih =>
    obtain ⟨t, text, m, rest, p, rfl, ht, htext, htakes, hproceed⟩ := readFrom_succ_eq_ok_iff.mp h
    have hdata : CharData t := ⟨ht, text, htext⟩
    obtain ⟨hm, stack', rfl, hstack'⟩ | ⟨e, hm, rfl⟩ | ⟨e, hm, -⟩ | ⟨e, outer, hstack, -⟩ :=
      htakes.flat_or_tag
    · obtain rfl : stack' = [] := List.map_eq_nil_iff.mp hstack'
      obtain ⟨front, element, rest, rfl, hfront, helement⟩ := ih hproceed
      exact ⟨_, element, rest, by simp, .piece hdata hm hfront, helement⟩
    -- the tag opens the element, and the rest of the run closes it
    · cases closes_of_readFrom rfl hproceed with
      | @cons _ _ _ rest _ hinner hlast _ =>
        exact ⟨t, _, rest, by simp, .text hdata, .nested hm hinner hlast⟩
    · exact ⟨t, m, rest, rfl, .text hdata, .empty hm⟩
    · exact nomatch hstack

/-! ### From the grammar to a run -/

/-- Whichever elements of these names are open, the reader comes to the end. -/
def Completes (names : List (List Char)) (s : List Char) : Prop :=
  ∀ stack : List Open, stack.map (·.name) = names → ∃ fuel r, readFrom fuel stack s = .ok r

section

variable {name t m s : List Char} {names : List (List Char)} {e : Open}

/-- A step and what comes after it. -/
theorem Completes.step (ht : CharData t)
    (h : ∀ stack : List Open, stack.map (·.name) = names →
      ∃ p, Takes stack s m p ∧ ∃ fuel r, p.proceed fuel = .ok r) :
    Completes names (t ++ (m ++ s)) := by
  intro stack hstack
  obtain ⟨hlt, text, htext⟩ := ht
  obtain ⟨p, htakes, fuel, r, hproceed⟩ := h (addText text stack) (by rw [map_name_addText, hstack])
  exact ⟨fuel + 1, r, readFrom_succ_eq_ok_iff.mpr ⟨t, text, m, s, p, rfl, hlt, htext, htakes,
    hproceed⟩⟩

/-- Flat markup leads to a stack with the same names. -/
theorem Completes.flat (ht : CharData t) (hm : Flat m) (h : Completes names s) :
    Completes names (t ++ (m ++ s)) := by
  refine .step ht fun stack hstack => ?_
  obtain ⟨stack', htakes, hstack'⟩ := hm.exists_takes stack s
  exact ⟨_, htakes, h stack' (hstack'.trans hstack)⟩

/-- An opening tag leads to a stack with one more. -/
theorem Completes.start (ht : CharData t) (hm : StartTag e m) (h : Completes (e.name :: names) s) :
    Completes names (t ++ (m ++ s)) :=
  .step ht fun stack hstack => ⟨_, .startTag hm, h (e :: stack) (by rw [List.map_cons, hstack])⟩

/-- Where the last element is closed, the reader is at the end. -/
theorem Completes.close (h : names = [] ∨ Completes names s) (c : Content) {stack : List Open}
    (hstack : stack.map (·.name) = names) :
    ∃ fuel r, (close name c s stack).proceed fuel = .ok r := by
  cases stack with
  | nil => exact ⟨0, (name, c), rfl⟩
  | cons e outer =>
    obtain rfl | h := h
    · exact nomatch hstack
    · exact h _ hstack

/-- An element without contents is closed at once. -/
theorem Completes.empty (ht : CharData t) (hm : EmptyTag e m) (h : names = [] ∨ Completes names s) :
    Completes names (t ++ (m ++ s)) :=
  .step ht fun _ hstack => ⟨_, .emptyTag hm, Completes.close h e.finish hstack⟩

/-- A closing tag closes the innermost element, whose name it has. -/
theorem Completes.last (ht : CharData t) (hm : EndTag name m) (h : names = [] ∨ Completes names s) :
    Completes (name :: names) (t ++ (m ++ s)) := by
  refine .step ht fun stack hstack => ?_
  cases stack with
  | nil => exact nomatch hstack
  | cons e outer =>
    obtain ⟨rfl, houter⟩ := List.cons.inj hstack
    exact ⟨_, .endTag rfl hm, Completes.close h e.finish houter⟩

end

/-- Contents and a closing tag bring the reader out of the innermost element. -/
theorem Contents.completes {inner : List Char} (h : Contents inner) {name last s : List Char}
    {names : List (List Char)} (hlast : EndTag name last) (hs : names = [] ∨ Completes names s) :
    Completes (name :: names) (inner ++ (last ++ s)) := by
  -- on the contents: what is nested is completed before the contents go on behind it
  induction h generalizing name names last s with
  | text ht => exact .last ht hlast hs
  | flat ht hm _ ih => simpa using Completes.flat ht hm (ih hlast hs)
  | empty ht hm _ ih => simpa using Completes.empty ht hm (.inr (ih hlast hs))
  | nested ht hm _ hend _ ih ih' =>
    simpa using Completes.start ht hm (ih hend (.inr (ih' hlast hs)))

/-- Before the first element the reader drops what it takes. -/
theorem Begins.completes {s : List Char} (h : Begins s) : Completes [] s := by
  obtain ⟨front, element, rest, rfl, hfront, helement⟩ := h
  induction hfront with
  | text ht =>
    cases helement with
    | empty hm => exact .empty ht hm (.inl rfl)
    | nested hm hinner hlast =>
      simpa using Completes.start ht hm (hinner.completes hlast (.inl rfl))
  | piece ht hm _ ih => simpa using Completes.flat ht hm ih

/-- A text without the mark of byte order it may begin with. -/
def withoutMark : List Char → List Char
  | [] => []
  | c :: rest => if c.toNat = 0xFEFF then rest else c :: rest

/-- The reader begins behind the mark, with a step for each character. -/
theorem read_eq (s : List Char) :
    read s = readFrom ((withoutMark s).length + 1) [] (withoutMark s) := by
  cases s <;> rfl

/-- **The reader takes the texts that begin with an element.** -/
theorem read_eq_ok_iff {s : List Char} : (∃ r, read s = .ok r) ↔ Begins (withoutMark s) := by
  rw [read_eq]
  constructor
  · rintro ⟨r, h⟩
    exact begins_of_readFrom h
  · intro h
    obtain ⟨fuel, r, hread⟩ := h.completes [] rfl
    exact ⟨r, readFrom_of_length_lt hread (Nat.lt_succ_self _)⟩

/-! ### Making values -/

mutual

/-- A content becomes a value, whatever is stored already. -/
theorem toValue_makes : ∀ c : Content, Makes (toValue c) fun _ _ => True
  | .nothing | .text _ => by
    simp only [toValue]
    exact .pure fun _ => trivial
  | .parts members => by
    simp only [toValue]
    refine (memberValues_makes members).bind fun entries s => ?_
    obtain ⟨r, t, hnew, -, hst⟩ := newHash_keeps (.ofList entries) s
    exact ⟨_, t, hnew, trivial, hst⟩
  | .several items => by
    simp only [toValue]
    refine (itemValues_makes items).bind fun values s => ?_
    obtain ⟨r, t, hnew, -, hst⟩ := newArrayOf_keeps values s
    exact ⟨_, t, hnew, trivial, hst⟩

/-- So do several contents. -/
theorem itemValues_makes : ∀ items : List Content, Makes (itemValues items) fun _ _ => True
  | [] => by
    simp only [itemValues]
    exact .pure fun _ => trivial
  | c :: rest => by
    simp only [itemValues]
    exact (toValue_makes c).bind fun _ => (itemValues_makes rest).bind fun _ =>
      .pure fun _ => trivial

/-- So do the members of an element. -/
theorem memberValues_makes :
    ∀ members : List (String × Content), Makes (memberValues members) fun _ _ => True
  | [] => by
    simp only [memberValues]
    exact .pure fun _ => trivial
  | (_, c) :: rest => by
    simp only [memberValues]
    exact (toValue_makes c).bind fun _ => (memberValues_makes rest).bind fun _ =>
      .pure fun _ => trivial

end

section

variable {text : String} {s : State}

/-- A document that is read becomes a hash with the name of its element. -/
theorem unmarshal_of_ok {name : List Char} {c : Content} (h : read text.toList = .ok (name, c))
    (E : Engine) (site : CallSite) :
    ∃ r t v, Builtin.run E site [.text text] .xmlUnmarshal s = .done (.hash r) t ∧
      t.heap.hashes.get? r = some (.ofList [(.text (String.ofList name), v)]) := by
  obtain ⟨v, t, hmake, -, -⟩ := toValue_makes c s
  obtain ⟨r, u, hnew, hr, -⟩ := newHash_keeps (.ofList [(.text (String.ofList name), v)]) t
  have harity : site.exactly 1 [.text text] s = .done () s := rfl
  have htext : site.textArg [.text text] 0 s = .done text s := rfl
  refine ⟨r, u, v, ?_, hr⟩
  refine (Eval.bind_of_done harity _).trans ((Eval.bind_of_done htext _).trans ?_)
  rw [h]
  exact (Eval.bind_of_done hmake _).trans hnew

/-- A text that is not read fails with the flaw that is found. -/
theorem unmarshal_of_error {e : Flaw} (h : read text.toList = .error e) (E : Engine)
    (site : CallSite) :
    Builtin.run E site [.text text] .xmlUnmarshal s =
      .stop (.fault ⟨.xml e.message, site.span⟩) s := by
  have harity : site.exactly 1 [.text text] s = .done () s := rfl
  have htext : site.textArg [.text text] 0 s = .done text s := rfl
  refine (Eval.bind_of_done harity _).trans ((Eval.bind_of_done htext _).trans ?_)
  rw [h]
  rfl

/-- **A text that is read begins with an element, and need not end with it.** For every text, without
a mark of byte order, `xml.unmarshal` fails with an XML error and changes nothing if it does not begin
with an element, as all documents do. Otherwise `xml.unmarshal` gives a hash, and the text is a
document just if there is no more than a prolog before the element, and no more than spaces, comments
and instructions behind it. -/
theorem unmarshal_document_iff (text : String) (s : State) (E : Engine) (site : CallSite) :
    (¬ Begins (withoutMark text.toList) ∧ ∃ message,
      Builtin.run E site [.text text] .xmlUnmarshal s =
        .stop (.fault ⟨.xml message, site.span⟩) s) ∨
    ∃ front element rest, withoutMark text.toList = front ++ (element ++ rest) ∧
      Around CharData Flat front ∧ Element element ∧
      (∃ r t, Builtin.run E site [.text text] .xmlUnmarshal s = .done (.hash r) t) ∧
      (Document (withoutMark text.toList) ↔ Prolog front ∧ Misc rest) := by
  cases hread : read text.toList with
  -- a text that begins with an element would have been read
  | error e =>
    refine .inl ⟨fun h => ?_, e.message, unmarshal_of_error hread E site⟩
    obtain ⟨r, h⟩ := read_eq_ok_iff.mpr h
    rw [hread] at h
    exact nomatch h
  | ok r =>
    obtain ⟨name, c⟩ := r
    -- the grammar says how the text is split, and its rest is what decides
    obtain ⟨front, element, rest, hbody, hfront, helement⟩ := read_eq_ok_iff.mp ⟨_, hread⟩
    obtain ⟨r, t, -, hrun, -⟩ := unmarshal_of_ok (s := s) hread E site
    refine .inr ⟨front, element, rest, hbody, hfront, helement, ⟨r, t, hrun⟩, ?_⟩
    rw [hbody]
    exact document_iff hfront helement

/-- What is behind the element is neither read nor missed. -/
theorem unmarshal_drops_rest :
    ¬ Document (withoutMark "<a/>junk".toList) ∧
      ∀ s, ∃ r t, Builtin.run (.level 1) ⟨State.root, .unknown, "unmarshal"⟩ [.text "<a/>junk"]
          .xmlUnmarshal s = .done (.hash r) t ∧
        t.heap.hashes.get? r = some (.ofList [(.text "a", .nil)]) := by
  refine ⟨fun h => ?_, fun s => ⟨_, _, rfl, Table.get?_add_self _ _⟩⟩
  have helement : Element (emptyElement ['a']) := .empty (emptyTag_name rfl)
  have hfront : Around CharData Flat [] := .text (charData_of_isSpace nofun)
  have hrest : Misc "junk".toList := ((document_iff hfront helement).mp h).2
  exact absurd (hrest.isSpace_of_notMem (by decide) 'j' (by decide)) (by decide)

end

end ScriptEngine.Xml
