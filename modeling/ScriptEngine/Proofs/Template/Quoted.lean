import ScriptEngine.Proofs.Equality.Operator
import ScriptEngine.Proofs.Template.RoundTrip

/-!
# What is read back of a text in quotes

The verb `%q` writes a text in double quotes, with escapes for what has no visible form of its own,
and reads one without regard to escapes: it takes what stands between two double quotes. So it is the
written form that comes back, and of that only what is in front of the first quote (`readBack`).

A character is read back as it was if it stands for itself (`Plain`). Every other one is written with
two characters at least, so a text without quotes is read back as it was just if all of its characters
are plain: the written form of any other one is longer than the text itself
(`readBack_eq_self_iff`).
-/

namespace ScriptEngine.Template

/-! ### Characters in quotes -/

/-- A character that stands for itself between double quotes: it is neither the quote nor the
backslash, and it has a visible form of its own. -/
def Plain (c : Char) : Prop :=
  c ≠ '"' ∧ c ≠ '\\' ∧ Text.isExtending c = false ∧ Text.isUnprintable c = false

instance : DecidablePred Plain := fun c =>
  inferInstanceAs (Decidable
    (c ≠ '"' ∧ c ≠ '\\' ∧ Text.isExtending c = false ∧ Text.isUnprintable c = false))

theorem Plain.escapeChar_eq {c : Char} (h : Plain c) : Text.escapeChar '"' c = [c] := by
  obtain ⟨hquote, hback, hextending, hunprintable⟩ := h
  -- the characters with escapes of their own are controls
  have ne : ∀ {x : Char}, Text.isUnprintable x = true → c ≠ x := by
    rintro x hx rfl
    exact Bool.eq_false_iff.mp hunprintable hx
  rw [Text.escapeChar, if_neg (ne (by decide)), if_neg (ne (by decide)), if_neg (ne (by decide)),
    if_neg (ne (by decide)), if_neg (not_or.mpr ⟨hback, hquote⟩), hextending, hunprintable]
  rfl

/-- What does not stand for itself takes more than one character. -/
theorem two_le_length_escapeChar {c : Char} (h : ¬ Plain c) :
    2 ≤ (Text.escapeChar '"' c).length := by
  unfold Text.escapeChar
  split_ifs with _ _ _ _ hshort hcode
  iterate 5 exact le_rfl
  · simp only [Text.codeEscape, List.length_append, List.length_cons]
    omega
  · rw [Bool.or_eq_true, not_or, Bool.not_eq_true, Bool.not_eq_true] at hcode
    rw [not_or] at hshort
    exact absurd ⟨hshort.2, hshort.1, hcode⟩ h

theorem quote_notMem_toDigits (n : ℕ) : '"' ∉ Nat.toDigits 16 n := fun hmem => by
  obtain ⟨-, hfold⟩ := natOfDigits?_eq_some_iff.mp
    (natOfDigits?_zeros_digits 'x' (by decide) le_rfl 0 n)
  exact absurd (isSome_of_foldl_extended hfold _ hmem) (by decide)

/-- The only character that is written with a quote is the quote. -/
theorem quote_notMem_escapeChar {c : Char} (h : c ≠ '"') : '"' ∉ Text.escapeChar '"' c := by
  unfold Text.escapeChar
  split_ifs
  iterate 4 decide
  · simp [Ne.symm h]
  · simp [Text.codeEscape, quote_notMem_toDigits]
  · simp [Ne.symm h]

/-! ### Texts in quotes -/

/-- A text as it stands between double quotes. -/
def escaped (s : List Char) : List Char := s.flatMap (Text.escapeChar '"')

theorem quoted_eq (s : List Char) : Text.quoted s = '"' :: (escaped s ++ ['"']) := rfl

theorem length_le_length_escaped (s : List Char) : s.length ≤ (escaped s).length := by
  induction s with
  | nil => exact le_rfl
  | cons c s ih =>
    have hc : 1 ≤ (Text.escapeChar '"' c).length := by
      by_cases h : Plain c
      · rw [h.escapeChar_eq]
        exact le_rfl
      · exact (two_le_length_escapeChar h).trans' one_le_two
    rw [escaped, List.flatMap_cons, List.length_append, List.length_cons, Nat.add_comm]
    exact Nat.add_le_add hc ih

/-- A text stands for itself between quotes if its characters do, and not otherwise. -/
theorem escaped_eq_self_iff {s : List Char} : escaped s = s ↔ ∀ c ∈ s, Plain c := by
  induction s with
  | nil => exact ⟨fun _ => nofun, fun _ => rfl⟩
  | cons c s ih =>
    have hcons : escaped (c :: s) = Text.escapeChar '"' c ++ escaped s := rfl
    rw [List.forall_mem_cons, ← ih, hcons]
    refine ⟨fun h => ?_, fun ⟨hc, hs⟩ => by rw [hc.escapeChar_eq, hs]; rfl⟩
    -- there is no room for a character that takes two
    have hplain : Plain c := by
      by_contra hc
      have hlength := congrArg List.length h
      have htwo := two_le_length_escapeChar hc
      have hrest := length_le_length_escaped s
      rw [List.length_append, List.length_cons] at hlength
      omega
    rw [hplain.escapeChar_eq] at h
    exact ⟨hplain, (List.cons.inj h).2⟩

theorem quote_notMem_escaped {s : List Char} (h : '"' ∉ s) : '"' ∉ escaped s := fun hmem => by
  obtain ⟨c, hc, hquote⟩ := List.mem_flatMap.mp hmem
  exact quote_notMem_escapeChar (ne_of_mem_of_not_mem hc h) hquote

/-! ### Reading -/

/-- What is read of a text in quotes: its written form, up to the backslash in front of the first
quote. -/
def readBack (s : List Char) : List Char :=
  escaped (s.takeWhile (· != '"')) ++ if '"' ∈ s then ['\\'] else []

theorem readBack_of_quote_notMem {s : List Char} (h : '"' ∉ s) : readBack s = escaped s := by
  have hall : s.takeWhile (· != '"') = s :=
    List.takeWhile_eq_self_iff.mpr fun c hc => bne_iff_ne.mpr (ne_of_mem_of_not_mem hc h)
  rw [readBack, if_neg h, List.append_nil, hall]

theorem quote_notMem_readBack (s : List Char) : '"' ∉ readBack s := by
  have hfront : '"' ∉ s.takeWhile (· != '"') := fun hmem =>
    absurd (List.mem_takeWhile_imp hmem) (by decide)
  rw [readBack, List.mem_append, not_or]
  refine ⟨quote_notMem_escaped hfront, ?_⟩
  split <;> decide

/-- **A text is read back as it was if all of its characters are plain, and not otherwise.** -/
theorem readBack_eq_self_iff {s : List Char} : readBack s = s ↔ ∀ c ∈ s, Plain c := by
  by_cases hquote : '"' ∈ s
  · refine iff_of_false (fun h => ?_) fun h => (h _ hquote).1 rfl
    exact quote_notMem_readBack s (h.symm ▸ hquote)
  · rw [readBack_of_quote_notMem hquote, escaped_eq_self_iff]

theorem exists_split_of_quote_mem {s : List Char} (h : '"' ∈ s) :
    ∃ rest, s = s.takeWhile (· != '"') ++ '"' :: rest := by
  have hdrop : s.dropWhile (· != '"') ≠ [] := fun hnil =>
    absurd (List.dropWhile_eq_nil_iff.mp hnil _ h) (by decide)
  obtain ⟨c, rest, hcons⟩ := List.exists_cons_of_ne_nil hdrop
  have hc : c = '"' := by
    have hhead := List.head_dropWhile_not (· != '"') hdrop
    simpa [hcons] using hhead
  refine ⟨rest, ?_⟩
  rw [← hc] at hcons ⊢
  rw [← hcons, hc, List.takeWhile_append_dropWhile]

/-- What is read is followed by a quote, the first one. -/
theorem exists_escaped_eq (s : List Char) :
    ∃ rest, escaped s ++ ['"'] = readBack s ++ '"' :: rest := by
  by_cases hquote : '"' ∈ s
  · obtain ⟨rest, hrest⟩ := exists_split_of_quote_mem hquote
    refine ⟨escaped rest ++ ['"'], ?_⟩
    have hescape : Text.escapeChar '"' '"' = ['\\', '"'] := rfl
    conv_lhs => rw [hrest]
    rw [readBack, if_pos hquote, escaped, List.flatMap_append, List.flatMap_cons, hescape]
    simp [escaped]
  · exact ⟨[], by rw [readBack_of_quote_notMem hquote]⟩

/-- A text in quotes is read up to the first quote. -/
theorem scanVerb?_quoted (s : List Char) :
    ∃ rest, scanVerb? 'q' (Text.quoted s) = some (.text (String.ofList (readBack s)), rest) := by
  obtain ⟨rest, hsplit⟩ := exists_escaped_eq s
  have hfront : ∀ c ∈ readBack s, (c != '"') = true := fun c hc =>
    bne_iff_ne.mpr (ne_of_mem_of_not_mem hc (quote_notMem_readBack s))
  have hend : ∀ c ∈ ('"' :: rest).head?, (c != '"') = false := by
    rintro _ ⟨⟩
    rfl
  have htake := Text.takeWhile_run hfront hend
  have hdrop := Text.dropWhile_run hfront hend
  refine ⟨rest, ?_⟩
  rw [quoted_eq, hsplit, scanVerb?]
  rw [htake, hdrop]

/-- A template of the one verb reads what is in quotes. -/
theorem scan?_quoted (s : List Char) :
    scan? (String.ofList (Text.quoted s)) "%q" =
      some [.text (String.ofList (readBack s))] := by
  obtain ⟨rest, hread⟩ := scanVerb?_quoted s
  have hscan : scan? (String.ofList (Text.quoted s)) "%q" =
      (scanVerb? 'q' (Text.quoted s)).bind fun r =>
        (scanChars? [] r.2).bind fun vs => some (r.1 :: vs) := by
    rw [scan?, String.toList_ofList, String.toList_ofList]
    rfl
  rw [hscan, hread]
  rfl

/-- A verb without a width asks for no room. -/
theorem fill_quoted (s : State) (t : String) :
    fill s "%q" [.text t] = some (String.ofList (Text.quoted t.toList)) := by
  have hpieces : pieces "%q".toList = [.verb .plain 'q'] := by decide
  have hpad : Spec.plain.pad (Text.quoted t.toList) false = some (Text.quoted t.toList) := by
    have hmissing : Spec.plain.missing (Text.quoted t.toList) = 0 := Nat.zero_sub _
    have hfilled : Spec.plain.filled (Text.quoted t.toList) false =
        List.replicate (Spec.plain.missing (Text.quoted t.toList)) ' ' ++ Text.quoted t.toList := rfl
    rw [Spec.pad, hfilled, hmissing]
    rfl
  have hrendered : rendered s .plain 'q' (.text t) = some (Text.quoted t.toList) := hpad
  have hfill : fillPieces s [.verb .plain 'q'] [.text t] =
      (rendered s .plain 'q' (.text t)).bind fun text => some (text ++ []) := rfl
  rw [fill, hpieces, hfill, hrendered, Option.bind_some, List.append_nil, Option.map_some]

/-- **A text survives its quotes if all of its characters are plain, and not otherwise.** For every
text, `sprintf` with the verb `%q` gives the text in quotes, and `sscanf` with that verb gives an array
of one text: what is read back of the quoted one. It is the text that was written just if each of its
characters is neither the double quote nor the backslash and has a visible form of its own. -/
theorem sscanf_quoted_iff (t : String) (E : Engine) (site site' : CallSite) (s s' : State) :
    ∃ text r u, Builtin.run E site [.text "%q", .text t] .sprintf s = .done (.text text) s ∧
      Builtin.run E site' [.text text, .text "%q"] .sscanf s' = .done (.array r) u ∧
      u.heap.arrays.get? r = some #[.text (String.ofList (readBack t.toList))] ∧
      (u.heap.arrays.get? r = some #[.text t] ↔ ∀ c ∈ t.toList, Plain c) := by
  obtain ⟨r, u, hnew, hr, -⟩ := newArrayOf_keeps [.text (String.ofList (readBack t.toList))] s'
  refine ⟨_, r, u, ?_, (sscanf_eq E site' (scan?_quoted t.toList) s').trans hnew, hr, ?_⟩
  · rw [sprintf_eq, fill_quoted]
  · rw [hr, ← readBack_eq_self_iff]
    refine ⟨fun h => ?_, fun h => by rw [h, String.ofList_toList]⟩
    have htext : String.ofList (readBack t.toList) = t := by simpa using h
    have hchars := congrArg String.toList htext
    rwa [String.toList_ofList] at hchars

/-- A quote inside of a text ends what is read: of `a"b` comes back `a` and a backslash. -/
theorem quote_inside_cut :
    ∃ r u, Builtin.run (.level 1) ⟨State.root, .unknown, "sprintf"⟩ [.text "%q", .text "a\"b"]
        .sprintf State.blank = .done (.text "\"a\\\"b\"") State.blank ∧
      Builtin.run (.level 1) ⟨State.root, .unknown, "sscanf"⟩ [.text "\"a\\\"b\"", .text "%q"]
        .sscanf State.blank = .done (.array r) u ∧
      u.heap.arrays.get? r = some #[.text "a\\"] ∧
      u.heap.arrays.get? r ≠ some #[.text "a\"b"] := by
  obtain ⟨r, u, hread, hr⟩ : ∃ r u, Builtin.run (.level 1) ⟨State.root, .unknown, "sscanf"⟩
      [.text "\"a\\\"b\"", .text "%q"] .sscanf State.blank = .done (.array r) u ∧
      u.heap.arrays.get? r = some #[.text "a\\"] := ⟨_, _, rfl, rfl⟩
  refine ⟨r, u, rfl, hread, hr, fun h => ?_⟩
  have htext : "a\\" = "a\"b" := by simpa using hr.symm.trans h
  exact absurd htext (by decide)

end ScriptEngine.Template
