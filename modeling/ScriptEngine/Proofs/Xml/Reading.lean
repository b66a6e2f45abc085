import Mathlib.Data.List.TakeWhile
import ScriptEngine.Proofs.Xml.Markup

/-!
# What the reader makes of written markup

The reader goes through a document one tag at a time, with the text before it, and keeps the
elements that are open on a stack. Names of elements have none of the characters that mean something
in a tag (`NameChar`), and neither does escaped text have a character that begins one. So each tag
that is written is read back as it was written: what opens an element puts it on the stack
(`readFrom_start`), and what closes one gives its contents to the element around it
(`readFrom_end`, `readFrom_empty`).

Hence reading the text of some elements one after another, wherever it is in a document, amounts to
the innermost open element adopting them (`ReadsChildren`); and texts that read so can be put
together (`ReadsChildren.append`).
-/

namespace ScriptEngine.Xml

/-! ### Names -/

/-- A character that names are made of. -/
def NameChar (c : Char) : Prop :=
  (Text.isLetter c || Text.isNumeral c || c == '_' || c == '-' || c == '.') = true

instance : DecidablePred NameChar := fun _ => inferInstanceAs (Decidable (_ = true))

/-- Names are made of such characters, the first of them included. -/
theorem nameChar_of_isName {name : List Char} (h : isName name = true) :
    ∀ c ∈ name, NameChar c := by
  cases name with
  | nil => nofun
  | cons first rest =>
    rw [isName, Bool.and_eq_true, List.all_eq_true] at h
    refine List.forall_mem_cons.mpr ⟨?_, h.2⟩
    have hfirst := h.1
    unfold NameChar
    rw [Bool.or_eq_true] at hfirst
    obtain hletter | hunderscore := hfirst
    · rw [hletter]
      rfl
    · rw [hunderscore, Bool.or_true]
      rfl

/-- A character of a name is none that cannot be in one. -/
theorem NameChar.ne {c x : Char} (hc : NameChar c) (hx : ¬ NameChar x) : c ≠ x := by
  rintro rfl
  exact hx hc

/-- Names have no white space. -/
theorem NameChar.not_space {c : Char} (hc : NameChar c) : isSpace c = false := by
  unfold isSpace
  simp only [Bool.or_eq_false_iff, beq_eq_false_iff_ne]
  exact ⟨⟨⟨hc.ne (by decide), hc.ne (by decide)⟩, hc.ne (by decide)⟩, hc.ne (by decide)⟩

/-- A name is not empty. -/
theorem ne_nil_of_isName {name : List Char} (h : isName name = true) : name ≠ [] := by
  rintro rfl
  exact nomatch h

/-! ### Text -/

/-- What a character is escaped as does not begin markup. -/
theorem ne_of_mem_escapeChar {c d : Char} (hd : d ∈ escapeChar c) : d ≠ '<' := by
  unfold escapeChar at hd
  rintro rfl
  split at hd <;> revert hd
  case h_6 hne _ _ _ _ =>
    intro hd
    exact hne (List.mem_singleton.mp hd).symm
  all_goals decide

/-- No markup begins in escaped text. -/
theorem ne_of_mem_escape {s : List Char} : ∀ c ∈ escape s, c ≠ '<' := by
  intro c hc
  obtain ⟨d, -, hcd⟩ := List.mem_flatMap.mp hc
  exact ne_of_mem_escapeChar hcd

/-- The reader goes on from each reference to the rest of the text. -/
theorem unescapeFrom_escape {total : ℕ} (s : List Char) {fuel : ℕ} (hfuel : s.length ≤ fuel)
    (place : ℕ) : unescapeFrom total fuel place (escape s) = .ok s := by
  -- on the text: each character of it is one step of the reader, so the length bounds the steps
  induction s generalizing fuel place with
  | nil => cases fuel <;> rfl
  | cons c rest ih =>
    obtain ⟨fuel, rfl⟩ : ∃ n, fuel = n + 1 :=
      Nat.exists_eq_add_one.mpr (Nat.lt_of_lt_of_le (Nat.succ_pos _) hfuel)
    have hrest := fun place => ih (Nat.le_of_succ_le_succ hfuel) place
    change unescapeFrom total (fuel + 1) place (escapeChar c ++ escape rest) = _
    unfold escapeChar
    -- the five characters that are escaped are read from their references, all others as they are
    split
    case h_6 hlt hgt hapos hamp hquot =>
      rw [List.singleton_append, unescapeFrom, if_neg hamp, hrest]
      rfl
    all_goals
      change Except.map _ (unescapeFrom total fuel _ (escape rest)) = _
      rw [hrest]
      rfl

/-- Escaping makes a text no shorter. -/
theorem length_le_length_escape (s : List Char) : s.length ≤ (escape s).length := by
  induction s with
  | nil => exact Nat.zero_le _
  | cons c rest ih =>
    have hpos : 1 ≤ (escapeChar c).length := by
      unfold escapeChar
      split <;> exact Nat.succ_le_succ (Nat.zero_le _)
    change rest.length + 1 ≤ (escapeChar c ++ escape rest).length
    rw [List.length_append]
    omega

/-- References are read as the characters they stand for. -/
theorem unescape_escape (s : List Char) : unescape (escape s) = .ok s :=
  unescapeFrom_escape s (length_le_length_escape s) 0

/-! ### Tags -/

variable {name : List Char}

/-- No character of a name ends a tag or begins a quote. -/
theorem NameChar.ne_of_tag {c : Char} (hc : NameChar c) : c ≠ '>' ∧ c ≠ '"' ∧ c ≠ '\'' :=
  ⟨hc.ne (by decide), hc.ne (by decide), hc.ne (by decide)⟩

/-- A name is not taken for other markup. -/
theorem opens_name (hname : ∀ c ∈ name, NameChar c) (hne : name ≠ []) (rest : List Char) :
    Opens (name ++ rest) := by
  cases name with
  | nil => exact absurd rfl hne
  | cons c name =>
    rintro _ ⟨⟩
    have hc := hname c List.mem_cons_self
    exact ⟨hc.ne (by decide), hc.ne (by decide), hc.ne (by decide)⟩

/-- A tag that is a name opens an element without attributes. -/
theorem ofTag_name (hname : ∀ c ∈ name, NameChar c) : Open.ofTag name = .ok ⟨name, .empty, []⟩ := by
  have hspace : ∀ c ∈ name, (!isSpace c) = true := fun c hc => by
    rw [(hname c hc).not_space]
    rfl
  have htake : name.takeWhile (!isSpace ·) = name := List.takeWhile_eq_self_iff.mpr hspace
  have hdrop : name.dropWhile (!isSpace ·) = [] := List.dropWhile_eq_nil_iff.mpr hspace
  rw [Open.ofTag, htake, hdrop]
  rfl

/-- A closing tag has no blanks behind the name, so nothing is cut off. -/
theorem dropEndWhile_isSpace (hname : ∀ c ∈ name, NameChar c) :
    Text.dropEndWhile isSpace name = name := by
  unfold Text.dropEndWhile
  cases hreverse : name.reverse with
  -- the text is empty, or its last character is one of a name
  | nil => rw [List.dropWhile_nil, ← hreverse, List.reverse_reverse]
  | cons c rest =>
    have hc : NameChar c := hname c (List.mem_reverse.mp (hreverse ▸ List.mem_cons_self))
    rw [List.dropWhile_cons_of_neg (by rw [hc.not_space]; exact Bool.false_ne_true), ← hreverse,
      List.reverse_reverse]

/-- A name between brackets is a tag that opens an element. -/
theorem startTag_name (hname : isName name = true) :
    StartTag ⟨name, .empty, []⟩ ('<' :: (name ++ ['>'])) := by
  have hchars := nameChar_of_isName hname
  have hopens : Opens name := by simpa using opens_name hchars (ne_nil_of_isName hname) []
  -- the tag does not end as that of an empty element would
  have hlast : name.getLast? ≠ some '/' := fun h =>
    (hchars _ (List.mem_of_getLast? h)).ne (x := '/') (by decide) rfl
  exact ⟨name, rfl, tagText_of_forall fun c hc => (hchars c hc).ne_of_tag, hopens, hlast,
    ofTag_name hchars⟩

/-- With a slash at the end, it is one without contents. -/
theorem emptyTag_name (hname : isName name = true) :
    EmptyTag ⟨name, .empty, []⟩ (emptyElement name) := by
  have hchars := nameChar_of_isName hname
  refine ⟨name, rfl, tagText_of_forall fun c hc => ?_, opens_name hchars (ne_nil_of_isName hname) _,
    ofTag_name hchars⟩
  -- one character more than those of the name is in this tag
  obtain hc | hc := List.mem_append.mp hc
  · exact (hchars c hc).ne_of_tag
  · rw [List.mem_singleton.mp hc]
    decide

/-- With a slash in front, it closes the element. -/
theorem endTag_name (hname : isName name = true) : EndTag name ('<' :: '/' :: (name ++ ['>'])) := by
  have hchars := nameChar_of_isName hname
  refine ⟨name, rfl, tagText_of_forall fun c hc => (hchars c hc).ne_of_tag, ?_⟩
  rw [closingName, dropEndWhile_isSpace hchars, ite_self]

/-! ### One tag after another -/

/-- What the reader comes to after a piece of markup. -/
def Progress.proceed (fuel : ℕ) : Progress → Except Flaw (List Char × Content)
  | .more stack rest => readFrom fuel stack rest
  | .complete name c => .ok (name, c)

/-- Adding no text changes nothing. -/
theorem addText_nil (stack : List Open) : addText [] stack = stack := by
  cases stack with
  | nil => rfl
  | cons e outer => rw [addText, Open.addText, List.append_nil]

/-- The text before a tag ends where the tag begins. -/
theorem takeWhile_text {t : List Char} (ht : '<' ∉ t) (s : List Char) :
    (t ++ '<' :: s).takeWhile (· != '<') = t := by
  have hne : ∀ c ∈ t, (c != '<') = true := fun c hc => bne_iff_ne.mpr fun h => ht (h ▸ hc)
  rw [List.takeWhile_append_of_pos hne, List.takeWhile_cons_of_neg (by decide), List.append_nil]

/-- What is left is the tag. -/
theorem dropWhile_text {t : List Char} (ht : '<' ∉ t) (s : List Char) :
    (t ++ '<' :: s).dropWhile (· != '<') = '<' :: s := by
  have hne : ∀ c ∈ t, (c != '<') = true := fun c hc => bne_iff_ne.mpr fun h => ht (h ▸ hc)
  rw [List.dropWhile_append_of_pos hne, List.dropWhile_cons_of_neg (by decide)]

/-- The reader takes the text before a tag, and then the tag. -/
theorem readFrom_text {t text : List Char} (ht : '<' ∉ t) (htext : unescape t = .ok text) (fuel : ℕ)
    (stack : List Open) (s : List Char) :
    readFrom (fuel + 1) stack (t ++ '<' :: s) =
      (readMarkup (addText text stack) s).bind (Progress.proceed fuel) := by
  -- the text is taken as the element's own first, and the tag decides what comes next
  rw [readFrom, takeWhile_text ht, dropWhile_text ht, htext]
  dsimp only
  cases readMarkup (addText text stack) s with
  | error e => rfl
  | ok progress => cases progress <;> rfl

/-- Escaped text is text without a tag in it. -/
theorem readFrom_escape (text : List Char) (fuel : ℕ) (stack : List Open) (s : List Char) :
    readFrom (fuel + 1) stack (escape text ++ '<' :: s) =
      (readMarkup (addText text stack) s).bind (Progress.proceed fuel) :=
  readFrom_text (fun h => ne_of_mem_escape _ h rfl) (unescape_escape text) fuel stack s

/-- The reader takes a tag with no text before it. -/
theorem readFrom_tag (fuel : ℕ) (stack : List Open) (s : List Char) :
    readFrom (fuel + 1) stack ('<' :: s) =
      (readMarkup stack s).bind (Progress.proceed fuel) := by
  have h := readFrom_escape [] fuel stack s
  -- no text is the text that is escaped as nothing
  rwa [addText_nil] at h

/-- An opening tag puts an element on the stack. -/
theorem readFrom_start (hname : isName name = true) (fuel : ℕ) (stack : List Open)
    (rest : List Char) :
    readFrom (fuel + 1) stack ('<' :: (name ++ '>' :: rest)) =
      readFrom fuel (⟨name, .empty, []⟩ :: stack) rest := by
  have hsplit : '<' :: (name ++ '>' :: rest) = ('<' :: (name ++ ['>'])) ++ rest := by simp
  rw [readFrom_tag, readMarkup_of_startTag (startTag_name hname) hsplit]
  rfl

/-- An element without contents is closed at once. -/
theorem readFrom_empty (hname : isName name = true) (fuel : ℕ) (stack : List Open)
    (rest : List Char) :
    readFrom (fuel + 1) stack (emptyElement name ++ rest) =
      (close name .nothing rest stack).proceed fuel := by
  have hsplit : '<' :: (name ++ ['/', '>'] ++ rest) = emptyElement name ++ rest := rfl
  rw [← hsplit, readFrom_tag, readMarkup_of_emptyTag (emptyTag_name hname) hsplit]
  rfl

/-- A closing tag, with the text before it, finishes the innermost element. -/
theorem readFrom_end {e : Open} (hname : isName e.name = true) (text : List Char) (fuel : ℕ)
    (outer : List Open) (rest : List Char) :
    readFrom (fuel + 1) (e :: outer) (escape text ++ '<' :: '/' :: (e.name ++ '>' :: rest)) =
      (close e.name (e.addText text).finish rest outer).proceed fuel := by
  -- the name is that of the element on top, whatever text was added to it
  have hend : EndTag (e.addText text).name ('<' :: '/' :: (e.name ++ ['>'])) := endTag_name hname
  have hsplit : '<' :: '/' :: (e.name ++ '>' :: rest) =
      ('<' :: '/' :: (e.name ++ ['>'])) ++ rest := by simp
  rw [readFrom_escape, addText, readMarkup_of_endTag hend hsplit]
  rfl

/-! ### Elements inside of elements -/

/-- The elements of one name that a part consists of. -/
def Content.elements : Content → List Content
  | .several items => items
  | c => [c]

/-- An element takes in children, one after another. -/
def Open.adoptAll (e : Open) (children : List (List Char × Content)) : Open :=
  children.foldl (fun e child => e.adopt child.1 child.2) e

/-- Children are taken in one after another. -/
theorem Open.adoptAll_append (e : Open) (children more : List (List Char × Content)) :
    e.adoptAll (children ++ more) = (e.adoptAll children).adoptAll more :=
  List.foldl_append

/-- Taking in children leaves the name and the text of an element. -/
theorem Open.name_adoptAll (e : Open) (children : List (List Char × Content)) :
    (e.adoptAll children).name = e.name ∧ (e.adoptAll children).text = e.text := by
  induction children generalizing e with
  | nil => exact ⟨rfl, rfl⟩
  | cons child children ih => exact ih (e.adopt child.1 child.2)

/-- The text is markup, and wherever it is, reading it amounts to closing an element with these
contents. -/
def ReadsElement (name : List Char) (c : Content) (text : List Char) : Prop :=
  text.head? = some '<' ∧ ∃ n ≤ text.length, ∀ fuel stack rest,
    readFrom (fuel + n) stack (text ++ rest) = (close name c rest stack).proceed fuel

/-- Inside of an element, reading the text amounts to taking in children. -/
def ReadsChildren (children : List (List Char × Content)) (text : List Char) : Prop :=
  ∃ n ≤ text.length, ∀ fuel e outer rest,
    readFrom (fuel + n) (e :: outer) (text ++ rest) =
      readFrom fuel (e.adoptAll children :: outer) rest

/-- Where nothing is read, no child is taken in. -/
theorem ReadsChildren.nil : ReadsChildren [] [] := ⟨0, Nat.le_refl _, fun _ _ _ _ => rfl⟩

/-- An element is one child of the one around it. -/
theorem ReadsElement.child {c : Content} {text : List Char} (h : ReadsElement name c text) :
    ReadsChildren [(name, c)] text := by
  obtain ⟨-, n, hn, hread⟩ := h
  exact ⟨n, hn, fun fuel e outer rest => hread fuel (e :: outer) rest⟩

/-- One text after another. -/
theorem ReadsChildren.append {children more : List (List Char × Content)} {text text' : List Char}
    (h : ReadsChildren children text) (h' : ReadsChildren more text') :
    ReadsChildren (children ++ more) (text ++ text') := by
  obtain ⟨n, hn, hread⟩ := h
  obtain ⟨m, hm, hread'⟩ := h'
  refine ⟨m + n, ?_, fun fuel e outer rest => ?_⟩
  · rw [List.length_append, Nat.add_comm]
    exact Nat.add_le_add hn hm
  -- the steps of the two add up, with what is read second coming first
  · rw [List.append_assoc, ← Nat.add_assoc, hread, hread', e.adoptAll_append]

/-- An element is at least two characters longer than its contents. -/
theorem length_element (name body : List Char) : body.length + 2 ≤ (element name body).length := by
  simp only [element, List.length_cons, List.length_append]
  omega

/-- Its two tags are around its contents, and the rest comes after. -/
theorem element_append (name body rest : List Char) :
    element name body ++ rest =
      '<' :: (name ++ '>' :: (body ++ '<' :: '/' :: (name ++ '>' :: rest))) := by
  simp [element]

/-- An element without contents is one tag. -/
theorem readsElement_nothing (hname : isName name = true) :
    ReadsElement name .nothing (emptyElement name) :=
  ⟨rfl, 1, Nat.succ_le_succ (Nat.zero_le _), fun fuel stack rest =>
    readFrom_empty hname fuel stack rest⟩

/-- A text that is not empty and has no blanks at its ends is what is left of it. -/
theorem finish_text {text : String} (hne : text ≠ "") (htrim : Text.trim text.toList = text.toList) :
    Open.finish ⟨name, .empty, text.toList⟩ = .text text := by
  have hnonempty : text.isEmpty = false := by
    rw [← Bool.not_eq_true, String.isEmpty_iff]
    exact hne
  unfold Open.finish
  dsimp only
  rw [htrim, String.ofList_toList, hnonempty]
  rfl

/-- An element with text. -/
theorem readsElement_text (hname : isName name = true) {text : String} (hne : text ≠ "")
    (htrim : Text.trim text.toList = text.toList) :
    ReadsElement name (.text text) (element name (escape text.toList)) := by
  refine ⟨rfl, 2, (Nat.le_add_left _ _).trans (length_element _ _), fun fuel stack rest => ?_⟩
  -- one step for each tag, of which the second takes the text before it
  rw [element_append, readFrom_start hname, readFrom_end hname, Open.addText, List.nil_append,
    finish_text hne htrim]

/-- An element with children. -/
theorem readsElement_children (hname : isName name = true) {c : Content} {body : List Char}
    {children : List (List Char × Content)} (hbody : ReadsChildren children body)
    (hfinish : (Open.adoptAll ⟨name, .empty, []⟩ children).finish = c) :
    ReadsElement name c (element name body) := by
  obtain ⟨n, hn, hread⟩ := hbody
  refine ⟨rfl, 1 + n + 1, ?_, fun fuel stack rest => ?_⟩
  · have hlength := length_element name body
    omega
  · have hstart := readFrom_start hname (fuel + 1 + n) stack
      (body ++ '<' :: '/' :: (name ++ '>' :: rest))
    -- no text is left when the element is closed
    have hend := readFrom_end (e := Open.adoptAll ⟨name, .empty, []⟩ children)
      (by rwa [(Open.name_adoptAll _ _).1]) [] fuel stack rest
    have htext : ∀ e : Open, e.addText [] = e := fun e => by rw [Open.addText, List.append_nil]
    rw [(Open.name_adoptAll _ _).1, htext, hfinish] at hend
    rw [element_append, ← Nat.add_assoc, ← Nat.add_assoc, hstart, hread]
    exact hend

/-! ### The parts of an element -/

section

variable {e : Open} {k : String} {front : List (String × Content)}

/-- Among the parts, the name is looked up behind those of other names. -/
theorem get?_adopted (hk : k ∉ front.map (·.1)) {rest : List (String × Content)}
    (he : e.parts.entries = front ++ rest) : e.parts.get? k = Assoc.lookup k rest := by
  rw [Assoc.get?, he, Assoc.lookup_append_of_notMem hk]

/-- It is put there, too. -/
theorem entries_insert (hk : k ∉ front.map (·.1)) {rest : List (String × Content)}
    (he : e.parts.entries = front ++ rest) (c : Content) :
    (e.parts.insert k c).entries = front ++ Assoc.put k c rest := by
  change Assoc.put k c e.parts.entries = _
  rw [he, Assoc.put_append_of_notMem hk]

/-- The first child of a name is a part. -/
theorem entries_adopt_first (hk : k ∉ front.map (·.1)) (he : e.parts.entries = front)
    (c : Content) : (e.adopt k.toList c).parts.entries = front ++ [(k, c)] := by
  rw [← List.append_nil front] at he
  unfold Open.adopt
  dsimp only
  rw [String.ofList_toList, get?_adopted hk he, entries_insert hk he]
  rfl

/-- The second one makes an array of it. -/
theorem entries_adopt_second (hk : k ∉ front.map (·.1)) {c : Content}
    (he : e.parts.entries = front ++ [(k, c)]) (hc : ∀ items, c ≠ .several items) (d : Content) :
    (e.adopt k.toList d).parts.entries = front ++ [(k, .several [c, d])] := by
  have hlookup : Assoc.lookup k [(k, c)] = some c := if_pos rfl
  have hput : ∀ x, Assoc.put k x [(k, c)] = [(k, x)] := fun x => if_pos rfl
  unfold Open.adopt
  dsimp only
  rw [String.ofList_toList, get?_adopted hk he, entries_insert hk he, hlookup, hput]
  -- a part that is no array is made one by the second child
  cases c with
  | several items => exact absurd rfl (hc items)
  | _ => rfl

/-- All others go to its end. -/
theorem entries_adoptAll_more (hk : k ∉ front.map (·.1)) {items : List Content}
    (he : e.parts.entries = front ++ [(k, .several items)]) (more : List Content) :
    (e.adoptAll (more.map (k.toList, ·))).parts.entries =
      front ++ [(k, .several (items ++ more))] := by
  -- on the children that are left, for every array so far
  induction more generalizing e items with
  | nil =>
    rw [List.append_nil]
    exact he
  | cons d more ih =>
    have hlookup : Assoc.lookup k [(k, Content.several items)] = some (.several items) := if_pos rfl
    have hput : ∀ x, Assoc.put k x [(k, Content.several items)] = [(k, x)] := fun x => if_pos rfl
    have hadopt : (e.adopt k.toList d).parts.entries = front ++ [(k, .several (items ++ [d]))] := by
      unfold Open.adopt
      dsimp only
      rw [String.ofList_toList, get?_adopted hk he, entries_insert hk he, hlookup, hput]
    have hsplit : items ++ d :: more = (items ++ [d]) ++ more := by simp
    rw [hsplit]
    exact ih hadopt

end

/-- A document is the text of an element. -/
theorem ReadsElement.read_eq {c : Content} {text : List Char} (h : ReadsElement name c text) :
    read text = .ok (name, c) := by
  obtain ⟨hhead, n, hn, hread⟩ := h
  -- a document that begins with a tag has no byte order mark
  have hbom : read text = readFrom (text.length + 1) [] text := by
    cases text with
    | nil => exact nomatch hhead
    | cons first rest =>
      rw [Option.some.inj hhead]
      rfl
  -- the reader has a step for each character, and elements need no more
  obtain ⟨fuel, hfuel⟩ := Nat.exists_eq_add_of_le' (hn.trans (Nat.le_succ _))
  have hall := hread fuel [] []
  rw [List.append_nil, ← hfuel] at hall
  exact hbom.trans hall

end ScriptEngine.Xml
