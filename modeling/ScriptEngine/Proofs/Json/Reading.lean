import ScriptEngine.Json.Read
import ScriptEngine.Proofs.Text.Numeral

/-!
# Documents are read as what was written

The reader takes what it is given from the front, so a document is read (`Reads`) where its text is
followed by what may stand behind a value (`Ends`): a comma, a closing bracket, or nothing. Every step
of the reader either goes into a value or takes in a character, which bounds the steps by twice the
length of the text.

Items and members are read up to the one that closes them by induction on what stands behind the
first (`readItems_commaParts`, `readMembers_commaParts`). The members read so far are entries under
different names, so that the next one goes behind them. A whole document is put together by induction
on the tree (`Exact.reads`), as deep as the reader goes.
-/

namespace ScriptEngine.Json

/-! ### Strings -/

/-- Past an ASCII character the place is one further. -/
theorem past_ascii {d : Char} (hd : d.utf8Size = 1) (s rest : List Char) (place : ℕ) :
    Cursor.past ⟨s, place⟩ d rest = ⟨rest, place + 1⟩ := by
  rw [Cursor.past, hd]

/-- The code of a control character has two digits, which are those of the number in base 16. -/
theorem hexPair_eq {n : ℕ} (hn : n < 32) :
    hexPair n = [(n / 16).digitChar, (n % 16).digitChar] := by
  have all : ∀ n < 32, hexPair n = [(n / 16).digitChar, (n % 16).digitChar] := by decide
  exact all n hn

/-- A hexadecimal digit is read as its value. -/
theorem hexDigit?_digitChar {d : ℕ} (hd : d < 16) : hexDigit? d.digitChar = some d := by
  have all : ∀ d < 16, hexDigit? d.digitChar = some d := by decide
  exact all d hd

/-- A control character is read from the digits of its code. -/
theorem readCode_hexPair {n : ℕ} (hn : n < 32) (rest : List Char) (place : ℕ) :
    readCode ⟨'0' :: '0' :: (hexPair n ++ rest), place⟩ =
      .ok (Char.ofNat n, ⟨rest, place + 4⟩) := by
  have hhex : readHex ⟨'0' :: '0' :: (hexPair n ++ rest), place⟩ = .ok (n, ⟨rest, place + 4⟩) := by
    have hzero : hexDigit? '0' = some 0 := rfl
    have hvalue : ((0 * 16 + 0) * 16 + n / 16) * 16 + n % 16 = n := by omega
    rw [hexPair_eq hn, readHex]
    dsimp only [List.cons_append, List.nil_append]
    rw [hzero, hexDigit?_digitChar (by omega), hexDigit?_digitChar (by omega)]
    dsimp only
    rw [hvalue]
  -- a control character is no half of a pair, so its code is read alone
  have htrail : isTrail n = false := by
    rw [isTrail, Bool.and_eq_false_iff]
    exact .inl (decide_eq_false (by omega))
  have hlead : isLead n = false := by
    rw [isLead, Bool.and_eq_false_iff]
    exact .inl (decide_eq_false (by omega))
  rw [readCode, hhex]
  change (if isTrail n = true then _ else if isLead n = true then _ else _) = _
  rw [htrail, hlead]
  rfl

/-- A character is read from what it stands as in a string. -/
theorem readTextFrom_escapeChar (c : Char) (fuel : ℕ) (acc rest : List Char) (place : ℕ) :
    ∃ place', readTextFrom (fuel + 1) acc ⟨escapeChar c ++ rest, place⟩ =
      readTextFrom fuel (c :: acc) ⟨rest, place'⟩ := by
  have code : ∀ {n}, c.toNat = n → c = Char.ofNat n := fun h => by rw [← h, Char.ofNat_toNat]
  unfold escapeChar
  -- each short escape has its own character; the rest is a control character's code or the
  -- character
  split_ifs with hquote hback hb ht hn hf hr hcontrol
  · subst hquote
    exact ⟨_, rfl⟩
  · subst hback
    exact ⟨_, rfl⟩
  · obtain rfl := code hb
    exact ⟨_, rfl⟩
  · subst ht
    exact ⟨_, rfl⟩
  · subst hn
    exact ⟨_, rfl⟩
  · obtain rfl := code hf
    exact ⟨_, rfl⟩
  · subst hr
    exact ⟨_, rfl⟩
  · refine ⟨place + 1 + 1 + 4, ?_⟩
    have hescape : readEscape ⟨'u' :: '0' :: '0' :: (hexPair c.toNat ++ rest), place + 1⟩ =
        .ok (c, ⟨rest, place + 1 + 1 + 4⟩) := by
      refine (readCode_hexPair hcontrol rest (place + 1 + 1)).trans ?_
      rw [Char.ofNat_toNat]
    change readTextFrom (fuel + 1) acc
      ⟨'\\' :: 'u' :: '0' :: '0' :: (hexPair c.toNat ++ rest), place⟩ = _
    rw [readTextFrom]
    dsimp only
    rw [if_neg (by decide), if_pos rfl, past_ascii rfl, hescape]
  · refine ⟨place + c.utf8Size, ?_⟩
    rw [List.singleton_append, readTextFrom]
    dsimp only
    rw [if_neg hquote, if_neg hback, if_neg hcontrol]
    rfl

/-- The characters of a string are read one after the other, up to the closing quote. Each takes one
step. -/
theorem readTextFrom_escape (s : List Char) {fuel : ℕ} (hfuel : s.length < fuel)
    (acc rest : List Char) (place : ℕ) :
    ∃ place', readTextFrom fuel acc ⟨s.flatMap escapeChar ++ '"' :: rest, place⟩ =
      .ok (String.ofList (acc.reverse ++ s), ⟨rest, place'⟩) := by
  induction s generalizing fuel acc place with
  | nil =>
    obtain ⟨fuel, rfl⟩ := Nat.exists_eq_add_one.mpr hfuel
    refine ⟨place + 1, ?_⟩
    rw [List.append_nil]
    rfl
  | cons c s ih =>
    obtain ⟨fuel, rfl⟩ := Nat.exists_eq_add_one.mpr (Nat.zero_lt_of_lt hfuel)
    rw [List.flatMap_cons, List.append_assoc]
    obtain ⟨place', hstep⟩ := readTextFrom_escapeChar c fuel acc
      (s.flatMap escapeChar ++ '"' :: rest) place
    obtain ⟨place'', hrest⟩ := ih (Nat.lt_of_succ_lt_succ hfuel) (c :: acc) place'
    refine ⟨place'', hstep.trans (hrest.trans ?_)⟩
    rw [List.reverse_cons, List.append_assoc, List.singleton_append]

/-- A string's text is not shorter than the string, so its length bounds the steps. -/
theorem length_le_length_escape (s : List Char) : s.length ≤ (s.flatMap escapeChar).length := by
  induction s with
  | nil => exact le_rfl
  | cons c s ih =>
    have hc : 0 < (escapeChar c).length := by
      unfold escapeChar
      split_ifs <;> exact Nat.succ_pos _
    rw [List.flatMap_cons, List.length_append, List.length_cons]
    omega

/-- A string is read behind its first quote. -/
theorem readText_quote (s : String) (rest : List Char) (place : ℕ) :
    ∃ place', readText ⟨s.toList.flatMap escapeChar ++ '"' :: rest, place⟩ =
      .ok (s, ⟨rest, place'⟩) := by
  have hfuel : s.toList.length < (s.toList.flatMap escapeChar ++ '"' :: rest).length + 1 := by
    have := length_le_length_escape s.toList
    rw [List.length_append, List.length_cons]
    omega
  obtain ⟨place', hread⟩ := readTextFrom_escape s.toList hfuel [] rest place
  refine ⟨place', hread.trans ?_⟩
  rw [List.reverse_nil, List.nil_append, String.ofList_toList]

/-! ### Numbers -/

/-- What may follow a value in a document. -/
def Ends (rest : List Char) : Prop := ∀ c ∈ rest.head?, c = ',' ∨ c = ']' ∨ c = '\x7d'

/-- Digits are all taken in if their number has 64 bits. -/
theorem takeDigits_eq (ds : List Char) {acc : ℕ}
    (h : Nat.ofDigitChars 10 ds acc ≤ 18446744073709551615) :
    takeDigits acc ds = (Nat.ofDigitChars 10 ds acc, []) := by
  induction ds generalizing acc with
  | nil => rfl
  | cons d ds ih =>
    have hnext : acc * 10 + (d.toNat - 48) = 10 * acc + (d.toNat - '0'.toNat) := by
      -- both are the digit's value, as the code of `0` is 48
      rw [mul_comm]
      rfl
    have hle := Text.le_ofDigitChars ds (10 * acc + (d.toNat - '0'.toNat))
    rw [Nat.ofDigitChars_cons] at h ⊢
    rw [takeDigits, hnext, if_neg (by omega), ih h]

/-- There is a first digit of a number. -/
theorem exists_cons_toDigits (n : ℕ) :
    ∃ d ds, Nat.toDigits 10 n = d :: ds ∧ d.isDigit = true := by
  obtain ⟨d, ds, hcons⟩ := List.exists_cons_of_ne_nil (Nat.toDigits_ne_nil (b := 10) (n := n))
  exact ⟨d, ds, hcons, Text.allDigits_toDigits n d (by rw [hcons]; exact List.mem_cons_self)⟩

/-- The digits of a number of 64 bits are taken in as the number. -/
theorem takeDigits_toDigits {n : ℕ} (hn : n ≤ 18446744073709551615) :
    takeDigits 0 (Nat.toDigits 10 n) = (n, []) := by
  have hvalue := Nat.ofDigitChars_ten_toDigits (n := n)
  rw [takeDigits_eq _ (hvalue.trans_le hn), hvalue]

/-- The digits of a number are taken together. A zero in front is taken alone. -/
theorem digits_run {d : Char} {ds rest : List Char} (hds : Text.AllDigits (d :: ds))
    (hzero : d = '0' → ds = []) (hrest : ∀ c ∈ rest.head?, c.isDigit = false) (place : ℕ) :
    (if d = '0' then (['0'], (⟨(d :: ds ++ rest).drop 1, place + 1⟩ : Cursor))
      else Cursor.digits ⟨d :: ds ++ rest, place⟩) =
        (d :: ds, ⟨rest, place + (d :: ds).length⟩) := by
  split
  · next h =>
    obtain rfl := hzero h
    subst h
    rfl
  · rw [Cursor.digits, Text.takeWhile_run hds hrest, Text.dropWhile_run hds hrest]

/-- A zero is the only digit of its number. -/
theorem digits_toDigits {n : ℕ} {d : Char} {ds rest : List Char}
    (hcons : Nat.toDigits 10 n = d :: ds) (hrest : ∀ c ∈ rest.head?, c.isDigit = false)
    (place : ℕ) :
    (if d = '0' then (['0'], (⟨(d :: ds ++ rest).drop 1, place + 1⟩ : Cursor))
      else Cursor.digits ⟨d :: ds ++ rest, place⟩) =
        (d :: ds, ⟨rest, place + (d :: ds).length⟩) := by
  have hds := Text.allDigits_toDigits n
  rw [hcons] at hds
  refine digits_run hds (fun h => ?_) hrest place
  -- a number that is not zero does not begin with a zero
  obtain rfl : n = 0 := n.eq_zero_or_pos.resolve_right fun hpos =>
    Text.head?_toDigits_ne_zero hpos d (by rw [hcons]; rfl) h
  exact (List.cons.inj hcons).2.symm

/-- The digits of a number are read up to what ends a value. -/
theorem readNumber_toDigits (negative : Bool) {n : ℕ} (hn : n ≤ 18446744073709551615)
    {rest : List Char} (hrest : Ends rest) (place : ℕ) :
    ∃ c : Cursor, c.rest = rest ∧
      readNumber negative ⟨Nat.toDigits 10 n ++ rest, place⟩ =
        if !negative then .ok (.int n, c)
        else if n = 0 ∨ 9223372036854775808 < n then .ok (.real (-(Float.ofNat n)), c)
        else .ok (.int (-(n : ℤ)), c) := by
  have hend : ∀ c ∈ rest.head?, c.isDigit = false := fun c hc => by
    obtain rfl | rfl | rfl := hrest c hc <;> rfl
  have hhead : (rest.head?.map Char.isDigit).getD false = false := by
    cases rest with
    | nil => rfl
    | cons c rest => exact hend c rfl
  have htake := takeDigits_toDigits hn
  obtain ⟨d, ds, hcons, hd⟩ := exists_cons_toDigits n
  have hdigits := digits_toDigits hcons hend place
  rw [hcons] at htake ⊢
  refine ⟨⟨rest, place + (d :: ds).length⟩, rfl, ?_⟩
  unfold readNumber
  dsimp only [List.cons_append] at hdigits ⊢
  rw [hd, Bool.not_true, if_neg Bool.false_ne_true, hdigits]
  dsimp only
  rw [hhead, Bool.and_false, if_neg Bool.false_ne_true, htake]
  dsimp only
  -- a fraction or an exponent does not follow
  split
  · exact absurd (hrest _ rfl) (by decide)
  · exact absurd (hrest _ rfl) (by decide)
  · exact absurd (hrest _ rfl) (by decide)
  · rfl

/-! ### Single values -/

/-- What a value may start with. -/
def Starts (c : Char) : Prop :=
  Cursor.isBlank c = false ∧ c ≠ ',' ∧ c ≠ ']' ∧ c ≠ '\x7d'

instance (c : Char) : Decidable (Starts c) :=
  inferInstanceAs (Decidable (Cursor.isBlank c = false ∧ c ≠ ',' ∧ c ≠ ']' ∧ c ≠ '\x7d'))

/-- A digit can be the first character of a value. -/
theorem starts_of_isDigit {d : Char} (hd : d.isDigit = true) : Starts d := by
  have ne : ∀ {x : Char}, x.isDigit = false → d ≠ x := Text.ne_of_isDigit hd
  refine ⟨?_, ne rfl, ne rfl, ne rfl⟩
  simp only [Cursor.isBlank, Bool.or_eq_false_iff, beq_eq_false_iff_ne]
  exact ⟨⟨⟨ne rfl, ne rfl⟩, ne rfl⟩, ne rfl⟩

/-- No blank is skipped in front of a character that is none. -/
theorem skip_cons {c : Char} (hc : Cursor.isBlank c = false) (s : List Char) (place : ℕ) :
    Cursor.skip ⟨c :: s, place⟩ = ⟨c :: s, place⟩ := by
  rw [Cursor.skip, List.dropWhile_cons, List.takeWhile_cons, hc]
  rfl

/-- A document is read from its text where something follows that ends it. The steps are bounded by
the length of the text: each character opens a value or leads to one. -/
def Reads (depth : ℕ) (j : Json) : Prop :=
  ∀ {fuel : ℕ} {rest : List Char} (place : ℕ), 2 * j.chars.length ≤ fuel → Ends rest →
    ∃ place', readValue fuel depth ⟨j.chars ++ rest, place⟩ = .ok (j, ⟨rest, place'⟩)

variable {depth : ℕ}

/-- The word `null` is read as it is. -/
theorem reads_null : Reads depth null := by
  rintro fuel rest place hfuel -
  obtain ⟨fuel, rfl⟩ := Nat.exists_eq_add_one.mpr (Nat.zero_lt_of_lt hfuel)
  exact ⟨_, rfl⟩

/-- Both truth values are read as they are. -/
theorem reads_bool (b : Bool) : Reads depth (bool b) := by
  rintro fuel rest place hfuel -
  cases b with
  | false =>
    obtain ⟨fuel, rfl⟩ := Nat.exists_eq_add_one.mpr (Nat.zero_lt_of_lt hfuel)
    exact ⟨_, rfl⟩
  | true =>
    obtain ⟨fuel, rfl⟩ := Nat.exists_eq_add_one.mpr (Nat.zero_lt_of_lt hfuel)
    exact ⟨_, rfl⟩

/-- The text of an integer is its sign and its digits. -/
theorem chars_int (n : ℤ) :
    chars (int n) = Text.Sign.text (if n < 0 then some .minus else none) ++
      Nat.toDigits 10 n.natAbs := by
  rw [chars, Text.toList_toString]

/-- A digit says that a number is ahead. -/
theorem readValue_digit {d : Char} (hd : d.isDigit = true) (fuel : ℕ) (s : List Char)
    (place : ℕ) :
    readValue (fuel + 1) depth ⟨d :: s, place⟩ = readNumber false ⟨d :: s, place⟩ := by
  rw [readValue, skip_cons (starts_of_isDigit hd).1]
  dsimp only
  split <;> simp_all

/-- An integer of 64 bits is read as it is. Signed and unsigned ones are. -/
theorem reads_int {n : ℤ} (hmin : -9223372036854775808 ≤ n) (hmax : n < 18446744073709551616) :
    Reads depth (int n) := by
  intro fuel rest place hfuel hrest
  have hdigits : n.natAbs ≤ 18446744073709551615 := by omega
  have hpos : 0 < (chars (int n)).length := by
    rw [chars_int, List.length_append]
    exact Nat.add_pos_right _ (List.length_pos_iff.mpr Nat.toDigits_ne_nil)
  obtain ⟨fuel, rfl⟩ : ∃ f, fuel = f + 1 := ⟨fuel - 1, by omega⟩
  rw [chars_int]
  -- the sign is taken in before the digits are, so a negative number is read one place further
  by_cases hneg : n < 0
  · rw [if_pos hneg]
    obtain ⟨⟨_, place'⟩, rfl, hread⟩ := readNumber_toDigits true hdigits hrest (place + 1)
    rw [Bool.not_true, if_neg Bool.false_ne_true, if_neg (by omega)] at hread
    refine ⟨place', Eq.trans rfl (hread.trans ?_)⟩
    have habs : -(n.natAbs : ℤ) = n := by omega
    rw [habs]
  · rw [if_neg hneg]
    obtain ⟨⟨_, place'⟩, rfl, hread⟩ := readNumber_toDigits false hdigits hrest place
    refine ⟨place', ?_⟩
    obtain ⟨d, ds, hcons, hd⟩ := exists_cons_toDigits n.natAbs
    have habs : (n.natAbs : ℤ) = n := by omega
    rw [hcons] at hread ⊢
    refine (readValue_digit hd fuel _ place).trans (hread.trans ?_)
    rw [habs]
    rfl

/-- A string is read as it is. -/
theorem reads_text (s : String) : Reads depth (text s) := by
  rintro fuel rest place hfuel -
  obtain ⟨fuel, rfl⟩ := Nat.exists_eq_add_one.mpr (Nat.zero_lt_of_lt hfuel)
  obtain ⟨place', hread⟩ := readText_quote s rest (place + 1)
  refine ⟨place', ?_⟩
  have htext : chars (text s) ++ rest = '"' :: (s.toList.flatMap escapeChar ++ '"' :: rest) := by
    rw [chars, quote, List.cons_append, List.append_assoc, List.singleton_append]
  rw [htext, readValue, skip_cons rfl]
  dsimp only
  rw [past_ascii rfl, hread]
  rfl

/-! ### Arrays -/

/-- Parts with a comma before each. -/
def commaParts (parts : List (List Char)) : List Char := parts.flatMap (',' :: ·)

/-- The items of an array are the first one, and the others with a comma before each. -/
theorem itemChars_cons (j : Json) (items : List Json) :
    itemChars (j :: items) = j.chars ++ commaParts (items.map chars) := by
  induction items generalizing j with
  | nil => exact (List.append_nil j.chars).symm
  | cons k items ih =>
    rw [itemChars, ih k]
    · rfl
    · exact List.cons_ne_nil k items

/-- What follows an item or a member ends it. -/
theorem ends_commaParts {close : Char} (hclose : close = ']' ∨ close = '\x7d')
    (parts : List (List Char)) (rest : List Char) : Ends (commaParts parts ++ close :: rest) := by
  cases parts with
  | nil =>
    rintro _ ⟨⟩
    exact .inr hclose
  | cons part parts =>
    rintro _ ⟨⟩
    exact .inl rfl

/-- A document that is read as an item: its text starts as one does. -/
structure ReadsPart (depth : ℕ) (j : Json) : Prop where
  starts : ∃ c cs, j.chars = c :: cs ∧ Starts c
  reads : Reads depth j

/-- A closing bracket ends the array. -/
theorem readItems_close (fuel : ℕ) (first : Bool) (acc : List Json) (rest : List Char) (place : ℕ) :
    readItems (fuel + 1) depth first acc ⟨']' :: rest, place⟩ =
      .ok (.array acc.reverse, ⟨rest, place + 1⟩) := rfl

/-- The first item. -/
theorem readItems_first {j : Json} (hj : ReadsPart depth j) {fuel : ℕ}
    (hfuel : 2 * j.chars.length ≤ fuel) {rest : List Char} (hrest : Ends rest) (acc : List Json)
    (place : ℕ) :
    ∃ place', readItems (fuel + 1) depth true acc ⟨j.chars ++ rest, place⟩ =
      readItems fuel depth false (j :: acc) ⟨rest, place'⟩ := by
  obtain ⟨c, cs, hcons, hblank, hcomma, hclose, -⟩ := hj.starts
  obtain ⟨place', hread⟩ := hj.reads place hfuel hrest
  refine ⟨place', ?_⟩
  rw [hcons] at hread ⊢
  rw [List.cons_append] at hread ⊢
  rw [readItems, skip_cons hblank]
  dsimp only
  -- an item starts neither with the closing bracket nor with a comma
  split
  · next h => cases h
  · next h => exact absurd (List.cons.inj h).1 hclose
  · next h => exact absurd (List.cons.inj h).1 hcomma
  · rw [if_pos rfl, hread]

/-- An item behind a comma. -/
theorem readItems_comma {j : Json} (hj : ReadsPart depth j) {fuel : ℕ}
    (hfuel : 2 * j.chars.length ≤ fuel) {rest : List Char} (hrest : Ends rest) (acc : List Json)
    (place : ℕ) :
    ∃ place', readItems (fuel + 1) depth false acc ⟨',' :: (j.chars ++ rest), place⟩ =
      readItems fuel depth false (j :: acc) ⟨rest, place'⟩ := by
  obtain ⟨c, cs, hcons, hblank, hcomma, hclose, -⟩ := hj.starts
  obtain ⟨place', hread⟩ := hj.reads (place + 1) hfuel hrest
  refine ⟨place', ?_⟩
  rw [hcons] at hread ⊢
  rw [List.cons_append] at hread ⊢
  rw [readItems, skip_cons rfl]
  dsimp only
  split
  · next h => cases h
  · next h => exact absurd (List.cons.inj h).1 (by decide)
  · next h =>
    obtain ⟨-, rfl⟩ := List.cons.inj h
    rw [if_neg Bool.false_ne_true, past_ascii rfl, skip_cons hblank]
    dsimp only
    -- behind the comma an item is wanted: a closing bracket would be a flaw
    split
    · next h => cases h
    · next h => exact absurd (List.cons.inj h).1 hclose
    · rw [hread]
  · next h => exact absurd rfl (h _)

/-- Items up to the end of the array, behind the first. -/
theorem readItems_commaParts {items : List Json} (hitems : ∀ j ∈ items, ReadsPart depth j)
    {fuel : ℕ} (hfuel : 2 * (commaParts (items.map chars)).length < fuel) (acc : List Json)
    (rest : List Char) (place : ℕ) :
    ∃ place', readItems fuel depth false acc
        ⟨commaParts (items.map chars) ++ ']' :: rest, place⟩ =
      .ok (array (acc.reverse ++ items), ⟨rest, place'⟩) := by
  induction items generalizing fuel acc place with
  | nil =>
    obtain ⟨fuel, rfl⟩ := Nat.exists_eq_add_one.mpr hfuel
    rw [List.append_nil]
    exact ⟨_, readItems_close fuel false acc rest place⟩
  | cons j items ih =>
    obtain ⟨hj, hitems⟩ := List.forall_mem_cons.mp hitems
    have hparts : commaParts ((j :: items).map chars) =
        ',' :: (j.chars ++ commaParts (items.map chars)) := rfl
    rw [hparts, List.length_cons, List.length_append] at hfuel
    obtain ⟨fuel, rfl⟩ : ∃ f, fuel = f + 1 := ⟨fuel - 1, by omega⟩
    obtain ⟨place', hstep⟩ := readItems_comma hj (by omega : 2 * j.chars.length ≤ fuel)
      (ends_commaParts (.inl rfl) (items.map chars) rest) acc place
    obtain ⟨place'', hrest⟩ := ih hitems
      (by omega : 2 * (commaParts (items.map chars)).length < fuel) (j :: acc) place'
    refine ⟨place'', ?_⟩
    rw [hparts, List.cons_append, List.append_assoc, hstep, hrest, List.reverse_cons,
      List.append_assoc, List.singleton_append]

/-- An array is read if its items are. -/
theorem reads_array {items : List Json} (hitems : ∀ j ∈ items, ReadsPart depth j) :
    Reads (depth + 1) (array items) := by
  rintro fuel rest place hfuel -
  have hchars : chars (array items) = '[' :: (itemChars items ++ [']']) := by rw [chars]
  rw [hchars, List.length_cons, List.length_append, List.length_singleton] at hfuel
  -- one step into the array, and one for the first item
  obtain ⟨fuel, rfl⟩ : ∃ f, fuel = f + 2 := ⟨fuel - 2, by omega⟩
  have hopen : ∀ s, readValue (fuel + 2) (depth + 1) ⟨'[' :: s, place⟩ =
      readItems (fuel + 1) depth true [] ⟨s, place + 1⟩ := fun _ => rfl
  rw [hchars, List.cons_append, List.append_assoc, List.singleton_append, hopen]
  cases items with
  | nil => exact ⟨_, readItems_close fuel true [] rest (place + 1)⟩
  | cons j items =>
    obtain ⟨hj, hitems⟩ := List.forall_mem_cons.mp hitems
    rw [itemChars_cons, List.length_append] at hfuel
    obtain ⟨place', hfirst⟩ := readItems_first hj (by omega : 2 * j.chars.length ≤ fuel)
      (ends_commaParts (.inl rfl) (items.map chars) rest) [] (place + 1)
    obtain ⟨place'', hrest⟩ := readItems_commaParts hitems
      (by omega : 2 * (commaParts (items.map chars)).length < fuel) [j] rest place'
    refine ⟨place'', ?_⟩
    rw [itemChars_cons, List.append_assoc, hfirst, hrest]
    rfl

/-! ### Objects -/

/-- A name and a value as they stand in an object. -/
def memberText (m : String × Json) : List Char := quote m.1.toList ++ ':' :: m.2.chars

/-- The members of an object are the first one, and the others with a comma before each. -/
theorem memberChars_cons (m : String × Json) (members : List (String × Json)) :
    memberChars (m :: members) = memberText m ++ commaParts (members.map memberText) := by
  induction members generalizing m with
  | nil => exact (List.append_nil (memberText m)).symm
  | cons n members ih =>
    calc
      memberChars (m :: n :: members) =
          quote m.1.toList ++ ':' :: (m.2.chars ++ ',' :: memberChars (n :: members)) := by
        rw [memberChars]
        exact List.cons_ne_nil n members
      _ = memberText m ++ ',' :: memberChars (n :: members) := by
        rw [memberText, List.append_assoc, List.cons_append]
      _ = memberText m ++ commaParts ((n :: members).map memberText) := by
        rw [ih n]
        rfl

/-- A member is as long as its name, a colon and its value. -/
theorem length_memberText (m : String × Json) :
    (memberText m).length = (quote m.1.toList).length + (m.2.chars.length + 1) := by
  rw [memberText, List.length_append, List.length_cons]

/-- Reads a member behind the first quote of its name, and the members after it. -/
def readMember (fuel depth : ℕ) (acc : Assoc String Json) (c : Cursor) : Reader Json :=
  match readText c with
  | .error e => .error e
  | .ok (name, c) =>
    match c.skip.rest with
    | [] => c.skip.flawAhead .endInObject
    | ':' :: rest =>
      match readValue fuel depth (c.skip.past ':' rest) with
      | .ok (j, c) => readMembers fuel depth false (acc.insert name j) c
      | .error e => .error e
    | _ => c.skip.flawAhead .wantsColon

/-- A closing brace ends the object. -/
theorem readMembers_close (fuel : ℕ) (first : Bool) (acc : Assoc String Json) (rest : List Char)
    (place : ℕ) :
    readMembers (fuel + 1) depth first acc ⟨'\x7d' :: rest, place⟩ =
      .ok (.object acc.entries, ⟨rest, place + 1⟩) := rfl

/-- A quote says that the first member is ahead. -/
theorem readMembers_first (fuel : ℕ) (acc : Assoc String Json) (s : List Char) (place : ℕ) :
    readMembers (fuel + 1) depth true acc ⟨'"' :: s, place⟩ =
      readMember fuel depth acc ⟨s, place + 1⟩ := rfl

/-- A quote behind a comma says that the next member is ahead. -/
theorem readMembers_comma (fuel : ℕ) (acc : Assoc String Json) (s : List Char) (place : ℕ) :
    readMembers (fuel + 1) depth false acc ⟨',' :: '"' :: s, place⟩ =
      readMember fuel depth acc ⟨s, place + 1 + 1⟩ := rfl

/-- A member whose name and value are read goes into the members. -/
theorem readMember_eq {name : String} {j : Json} {c c' : Cursor} {fuel : ℕ} {s : List Char}
    {place : ℕ} (hname : readText c = .ok (name, ⟨':' :: s, place⟩))
    (hvalue : readValue fuel depth ⟨s, place + 1⟩ = .ok (j, c')) (acc : Assoc String Json) :
    readMember fuel depth acc c = readMembers fuel depth false (acc.insert name j) c' := by
  rw [readMember, hname]
  dsimp only
  rw [skip_cons rfl]
  change (match readValue fuel depth ⟨s, place + 1⟩ with
    | .ok (j, c) => readMembers fuel depth false (acc.insert name j) c
    | .error e => .error e) = _
  rw [hvalue]

/-- A member is read as it stands in an object, behind the first quote of its name. -/
theorem readMember_text {m : String × Json} (hm : Reads depth m.2) {fuel : ℕ}
    (hfuel : 2 * m.2.chars.length ≤ fuel) {rest : List Char} (hrest : Ends rest) :
    ∃ s, memberText m ++ rest = '"' :: s ∧ ∀ acc place, ∃ place',
      readMember fuel depth acc ⟨s, place⟩ =
        readMembers fuel depth false (acc.insert m.1 m.2) ⟨rest, place'⟩ := by
  refine ⟨m.1.toList.flatMap escapeChar ++ '"' :: ':' :: (m.2.chars ++ rest), ?_, ?_⟩
  · rw [memberText, quote]
    simp only [List.cons_append, List.append_assoc, List.nil_append]
  · intro acc place
    obtain ⟨place', hname⟩ := readText_quote m.1 (':' :: (m.2.chars ++ rest)) place
    -- the name is read up to its quote, then a colon, then the value up to what ends it
    obtain ⟨place'', hvalue⟩ := hm (place' + 1) hfuel hrest
    exact ⟨place'', readMember_eq hname hvalue acc⟩

/-- Members up to the end of the object, behind the first. -/
theorem readMembers_commaParts {members : List (String × Json)}
    (hmembers : ∀ m ∈ members, Reads depth m.2) {fuel : ℕ}
    (hfuel : 2 * (commaParts (members.map memberText)).length < fuel) {acc : Assoc String Json}
    (hnodup : ((acc.entries ++ members).map (·.1)).Nodup) (rest : List Char) (place : ℕ) :
    ∃ place', readMembers fuel depth false acc
        ⟨commaParts (members.map memberText) ++ '\x7d' :: rest, place⟩ =
      .ok (object (acc.entries ++ members), ⟨rest, place'⟩) := by
  induction members generalizing fuel acc place with
  | nil =>
    obtain ⟨fuel, rfl⟩ := Nat.exists_eq_add_one.mpr hfuel
    rw [List.append_nil]
    exact ⟨_, readMembers_close fuel false acc rest place⟩
  | cons m members ih =>
    obtain ⟨hm, hmembers⟩ := List.forall_mem_cons.mp hmembers
    have hparts : commaParts ((m :: members).map memberText) =
        ',' :: (memberText m ++ commaParts (members.map memberText)) := rfl
    rw [hparts, List.length_cons, List.length_append, length_memberText] at hfuel
    obtain ⟨fuel, rfl⟩ : ∃ f, fuel = f + 1 := ⟨fuel - 1, by omega⟩
    obtain ⟨s, hs, hread⟩ := readMember_text hm (by omega : 2 * m.2.chars.length ≤ fuel)
      (ends_commaParts (.inr rfl) (members.map memberText) rest)
    obtain ⟨place', hstep⟩ := hread acc (place + 1 + 1)
    -- so the new name does not write over a member that has been read
    have hnew : m.1 ∉ acc.keys := by
      rw [List.map_append, List.map_cons] at hnodup
      exact fun hmem => (List.nodup_append.mp hnodup).2.2 _ hmem _ List.mem_cons_self rfl
    -- a new name goes behind those before it
    have hsplit : acc.entries ++ m :: members = (acc.insert m.1 m.2).entries ++ members := by
      rw [Assoc.entries_insert_of_notMem hnew, List.append_assoc, List.singleton_append]
    rw [hsplit] at hnodup ⊢
    obtain ⟨place'', hrest⟩ := ih hmembers
      (by omega : 2 * (commaParts (members.map memberText)).length < fuel) hnodup place'
    refine ⟨place'', ?_⟩
    rw [hparts, List.cons_append, List.append_assoc, hs, readMembers_comma, hstep, hrest]

/-- An object is read if its members' values are, and no two members have one name. -/
theorem reads_object {members : List (String × Json)} (hnodup : (members.map (·.1)).Nodup)
    (hmembers : ∀ m ∈ members, Reads depth m.2) : Reads (depth + 1) (object members) := by
  rintro fuel rest place hfuel -
  have hchars : chars (object members) = '\x7b' :: (memberChars members ++ ['\x7d']) := by rw [chars]
  rw [hchars, List.length_cons, List.length_append, List.length_singleton] at hfuel
  -- one step into the object, and one for the first member
  obtain ⟨fuel, rfl⟩ : ∃ f, fuel = f + 2 := ⟨fuel - 2, by omega⟩
  have hopen : ∀ s, readValue (fuel + 2) (depth + 1) ⟨'\x7b' :: s, place⟩ =
      readMembers (fuel + 1) depth true .empty ⟨s, place + 1⟩ := fun _ => rfl
  rw [hchars, List.cons_append, List.append_assoc, List.singleton_append, hopen]
  cases members with
  | nil => exact ⟨_, readMembers_close fuel true .empty rest (place + 1)⟩
  | cons m members =>
    obtain ⟨hm, hmembers⟩ := List.forall_mem_cons.mp hmembers
    rw [memberChars_cons, List.length_append, length_memberText] at hfuel
    obtain ⟨s, hs, hread⟩ := readMember_text hm (by omega : 2 * m.2.chars.length ≤ fuel)
      (ends_commaParts (.inr rfl) (members.map memberText) rest)
    obtain ⟨place', hfirst⟩ := hread .empty (place + 1 + 1)
    have hentries : (Assoc.insert .empty m.1 m.2).entries = [m] :=
      Assoc.entries_insert_of_notMem List.not_mem_nil m.2
    have hnames : (((Assoc.insert .empty m.1 m.2).entries ++ members).map (·.1)).Nodup := by
      rwa [hentries]
    obtain ⟨place'', hrest⟩ := readMembers_commaParts hmembers
      (by omega : 2 * (commaParts (members.map memberText)).length < fuel) hnames rest place'
    refine ⟨place'', ?_⟩
    rw [memberChars_cons, List.append_assoc, hs, readMembers_first, hfirst, hrest, hentries]
    rfl

/-! ### Documents -/

/-- Documents without doubles, of which the integers have 64 bits and the members of an object
different names. -/
inductive Exact : Json → Prop
  | null : Exact null
  | bool (b : Bool) : Exact (bool b)
  | int {n : ℤ} : -9223372036854775808 ≤ n → n < 18446744073709551616 → Exact (int n)
  | text (s : String) : Exact (text s)
  | array {items : List Json} : (∀ j ∈ items, Exact j) → Exact (array items)
  | object {members : List (String × Json)} : (members.map (·.1)).Nodup →
      (∀ m ∈ members, Exact m.2) → Exact (object members)

/-- At most so many arrays and objects are inside of each other. -/
def Within : ℕ → Json → Prop
  | 0, array _ => False
  | 0, object _ => False
  | depth + 1, array items => ∀ j ∈ items, Within depth j
  | depth + 1, object members => ∀ m ∈ members, Within depth m.2
  | _, _ => True

/-- The text of a document starts as a value does. -/
theorem Exact.starts {j : Json} (h : j.Exact) : ∃ c cs, j.chars = c :: cs ∧ Starts c := by
  cases h with
  | null => exact ⟨_, _, rfl, by decide⟩
  | bool b => cases b <;> exact ⟨_, _, rfl, by decide⟩
  | @int n _ _ =>
    obtain ⟨d, ds, hcons, hd⟩ := exists_cons_toDigits n.natAbs
    rw [chars_int, hcons]
    split
    · exact ⟨_, _, rfl, by decide⟩
    · exact ⟨_, _, rfl, starts_of_isDigit hd⟩
  | text s => exact ⟨_, _, rfl, by decide⟩
  | array _ => exact ⟨_, _, rfl, by decide⟩
  | object _ _ => exact ⟨_, _, rfl, by decide⟩

/-- Every exact document is read from its text, as deep as the reader goes. -/
theorem Exact.reads {j : Json} (h : j.Exact) {depth : ℕ} (hdepth : Within depth j) :
    Reads depth j := by
  induction h generalizing depth with
  | null => exact reads_null
  | bool b => exact reads_bool b
  | int hmin hmax => exact reads_int hmin hmax
  | text s => exact reads_text s
  | array hitems ih =>
    cases depth with
    | zero => exact hdepth.elim
    | succ depth => exact reads_array fun j hj => ⟨(hitems j hj).starts, ih j hj (hdepth j hj)⟩
  | object hnodup _ ih =>
    cases depth with
    | zero => exact hdepth.elim
    | succ depth => exact reads_object hnodup fun m hm => ih m hm (hdepth m hm)

/-- **The text of a document is read as the document.** -/
theorem Exact.ofText_toText {j : Json} (h : j.Exact) (hdepth : Within maxDepth j) :
    ofText j.toText = .ok j := by
  -- nothing stands behind the document, which ends it too
  have hend : Ends [] := nofun
  obtain ⟨place, hread⟩ := h.reads hdepth 0 (Nat.le_add_right (2 * j.chars.length) 4) hend
  rw [List.append_nil] at hread
  have hdocument : readDocument j.chars = .ok j := by
    rw [readDocument, hread]
    rfl
  rw [ofText, toText, String.toList_ofList, hdocument]

end ScriptEngine.Json
