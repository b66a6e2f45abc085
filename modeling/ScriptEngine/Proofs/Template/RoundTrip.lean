import Mathlib.Data.List.DropRight
import ScriptEngine.Builtin.Library
import ScriptEngine.Proofs.Containers
import ScriptEngine.Proofs.Run.Ends
import ScriptEngine.Proofs.Template.Layout

/-!
# Templates read back what they wrote

An `Item` is a value with a verb that fits it, and a layout. The text of an item is read back by its
verb without the layout: the scanner skips the blanks in front, a number takes its sign and zeros, and
what follows is left (`Item.readsAs`). Blanks behind a text are left over too, and skipped before the
next verb, so the scanner goes through items with blanks between them by induction on the list
(`scanChars?_join`), and its state is what is left of the text, up to blanks at the front.
-/

namespace ScriptEngine.Template

/-! ### Items -/

/-- A value with a verb that fits it: an integer, a truth value, or a text that is not empty and has
no blanks in it. -/
inductive Datum where
  | integer (verb : Char) (base : ℕ) (hbase : base? verb = some base) (n : Int64)
  | bool (b : Bool)
  | word (t : String) (hne : t ≠ "") (hsolid : ∀ c ∈ t.toList, Text.isBlank c = false)

namespace Datum

/-- The verb that fits the value. -/
def verb : Datum → Char
  | integer verb _ _ _ => verb
  | bool _ => 't'
  | word _ _ _ => 's'

/-- The value as an argument. -/
def value : Datum → Value
  | integer _ _ _ n => .int n
  | bool b => .bool b
  | word t _ _ => .text t

/-- Whether it is written as a number. -/
def numeric : Datum → Bool
  | integer _ _ _ _ => true
  | _ => false

/-- How it is written if no width is asked for. -/
def natural (flags : List Char) : Datum → List Char
  | integer verb base _ n =>
    (Spec.ofFlags flags).signed (n < 0) (digits verb base n.toInt.natAbs)
  | bool b => (Key.boolText b).toList
  | word t _ _ => t.toList

end Datum

/-- A value with a verb that fits it, and a layout. -/
structure Item where
  layout : Layout
  datum : Datum

namespace Item

/-- The verb with its layout, as in a template. -/
def format (i : Item) : List Char := '%' :: (i.layout.chars ++ [i.datum.verb])

/-- The verb without a layout. -/
def bare (i : Item) : List Char := ['%', i.datum.verb]

/-- How it is written if no width is asked for. -/
def natural (i : Item) : List Char := i.datum.natural i.layout.flags

/-- How it is written. -/
def text (i : Item) : List Char := i.layout.spec.filled i.natural i.datum.numeric

/-- A text has the width asked for, or its natural length if that is more. -/
theorem length_text (i : Item) : i.text.length = max (i.layout.width.getD 0) i.natural.length := by
  rw [text, Spec.length_filled, Layout.width_spec]

/-- The host has room for what fills it up. -/
def Fits (i : Item) : Prop := i.layout.width.getD 0 - i.natural.length ≤ maxRow

instance : DecidablePred Fits := fun _ => Nat.decLe _ _

/-- The text is filled up where there is room, and the host is aborted elsewhere. -/
theorem pad_spec (i : Item) :
    i.layout.spec.pad i.natural i.datum.numeric = if i.Fits then some i.text else none := by
  unfold Spec.pad Spec.missing Fits
  rw [Layout.width_spec]
  rfl

end Item

/-- The first of several parts is followed by a blank and the others. -/
theorem join_cons_cons (part : Item → List Char) (i j : Item) (items : List Item) :
    Text.join [' '] ((i :: j :: items).map part) =
      part i ++ ' ' :: Text.join [' '] ((j :: items).map part) :=
  List.append_assoc _ _ _

/-! ### The verbs of integers -/

section

variable {verb : Char} {base : ℕ}

/-- The verbs of integers and their bases. -/
theorem base?_cases (h : base? verb = some base) :
    (verb = 'd' ∧ base = 10) ∨ (verb = 'x' ∧ base = 16) ∨ (verb = 'X' ∧ base = 16) ∨
      (verb = 'o' ∧ base = 8) ∨ (verb = 'b' ∧ base = 2) := by
  unfold base? at h
  split at h <;> simp_all

/-- The bases are those whose digits have letters of one case. -/
theorem base_bounds (h : base? verb = some base) : 1 < base ∧ base ≤ 16 := by
  have := base?_cases h
  omega

/-- An integer is written with its sign and the digits of its base. -/
theorem body?_integer (h : base? verb = some base) (s : State) (spec : Spec) (n : Int64) :
    body? s spec verb (.int n) =
      some (spec.signed (n < 0) (digits verb base n.toInt.natAbs), true) := by
  obtain ⟨rfl, rfl⟩ | ⟨rfl, rfl⟩ | ⟨rfl, rfl⟩ | ⟨rfl, rfl⟩ | ⟨rfl, rfl⟩ := base?_cases h <;> rfl

/-- An integer is read in the base of its verb. -/
theorem scanVerb?_integer (h : base? verb = some base) (s : List Char) :
    scanVerb? verb s = scanInteger? base s := by
  obtain ⟨rfl, rfl⟩ | ⟨rfl, rfl⟩ | ⟨rfl, rfl⟩ | ⟨rfl, rfl⟩ | ⟨rfl, rfl⟩ := base?_cases h <;> rfl

end

/-- Verbs are letters, so no layout takes one for a flag or a width. -/
theorem Datum.isAlpha_verb (d : Datum) : d.verb.isAlpha = true := by
  cases d with
  | integer verb base hbase n =>
    change verb.isAlpha = true
    obtain ⟨rfl, -⟩ | ⟨rfl, -⟩ | ⟨rfl, -⟩ | ⟨rfl, -⟩ | ⟨rfl, -⟩ := base?_cases hbase <;> rfl
  | bool b => rfl
  | word t _ _ => rfl

/-- A verb is no percent sign, which would stand for itself. -/
theorem Datum.verb_ne_percent (d : Datum) : d.verb ≠ '%' := fun h => by
  have hverb := d.isAlpha_verb
  rw [h] at hverb
  exact absurd hverb (by decide)

/-- The verb is not the one that reads a blank. -/
theorem Datum.verb_ne_c (d : Datum) : d.verb ≠ 'c' := by
  cases d with
  | integer verb base hbase n =>
    change verb ≠ 'c'
    obtain ⟨rfl, -⟩ | ⟨rfl, -⟩ | ⟨rfl, -⟩ | ⟨rfl, -⟩ | ⟨rfl, -⟩ := base?_cases hbase <;> decide
  | bool b => exact (by decide : 't' ≠ 'c')
  | word t _ _ => exact (by decide : 's' ≠ 'c')

/-! ### Writing -/

/-- The verb fits the value, and asks for its natural text. -/
theorem body?_natural (i : Item) (s : State) :
    body? s i.layout.spec i.datum.verb i.datum.value = some (i.natural, i.datum.numeric) := by
  obtain ⟨l, d⟩ := i
  cases d with
  | integer verb base hbase n =>
    refine (body?_integer hbase s l.spec n).trans ?_
    rw [l.signed_spec]
    rfl
  | bool b => rfl
  | word t _ _ =>
    -- there is no precision to cut the text at
    change some (body?.cut l.spec t.toList, false) = _
    rw [body?.cut, l.precision_spec]
    rfl

/-- What an item is written as, if there is room. -/
theorem rendered_item (i : Item) (s : State) :
    rendered s i.layout.spec i.datum.verb i.datum.value = if i.Fits then some i.text else none := by
  rw [rendered, body?_natural]
  exact i.pad_spec

/-- An empty template has no pieces. -/
theorem piecesWithin_nil (fuel : ℕ) : piecesWithin fuel [] = [] := by
  cases fuel <;> rfl

/-- The piece of an item in a template is its verb with its layout. -/
theorem piecesWithin_format (i : Item) (fuel : ℕ) (rest : List Char) :
    piecesWithin (fuel + 1) (i.format ++ rest) =
      .verb i.layout.spec i.datum.verb :: piecesWithin fuel rest := by
  have hformat : i.format ++ rest = '%' :: (i.layout.chars ++ i.datum.verb :: rest) := by
    rw [Item.format, List.cons_append, List.append_assoc, List.singleton_append]
  rw [hformat, piecesWithin, if_pos rfl, i.layout.readSpec_append i.datum.isAlpha_verb]
  dsimp only
  rw [if_neg i.datum.verb_ne_percent]

/-- The piece of an item takes its value from the arguments. -/
theorem fillPieces_item (i : Item) (s : State) (pieces : List Piece) (args : List Value) :
    fillPieces s (.verb i.layout.spec i.datum.verb :: pieces) (i.datum.value :: args) =
      if i.Fits then (fillPieces s pieces args).map (i.text ++ ·) else none := by
  have hfill : fillPieces s (.verb i.layout.spec i.datum.verb :: pieces) (i.datum.value :: args) =
      (rendered s i.layout.spec i.datum.verb i.datum.value).bind fun text =>
        (fillPieces s pieces args).map (text ++ ·) := rfl
  rw [hfill, rendered_item]
  split <;> rfl

/-- A template of items is filled with their texts, if there is room for all of them. -/
theorem fillPieces_join (s : State) (items : List Item) {fuel : ℕ}
    (hfuel : (Text.join [' '] (items.map Item.format)).length ≤ fuel) :
    fillPieces s (piecesWithin fuel (Text.join [' '] (items.map Item.format)))
        (items.map (·.datum.value)) =
      if ∀ i ∈ items, i.Fits then some (Text.join [' '] (items.map Item.text)) else none := by
  induction items generalizing fuel with
  -- the template and the texts are joined in the same way, so the list is taken apart with one item
  -- at least left
  | nil =>
    change fillPieces s (piecesWithin fuel []) [] = _
    rw [piecesWithin_nil, if_pos (fun _ hi => nomatch hi)]
    rfl
  | cons i items ih =>
    cases items with
    | nil =>
      obtain ⟨fuel, rfl⟩ := Nat.exists_eq_add_one.mpr ((Nat.succ_pos _).trans_le hfuel)
      change fillPieces s (piecesWithin (fuel + 1) i.format) [i.datum.value] = _
      rw [← List.append_nil i.format, piecesWithin_format, fillPieces_item, piecesWithin_nil]
      simp only [List.forall_mem_singleton]
      split
      · exact congrArg some (List.append_nil i.text)
      · rfl
    | cons j items =>
      rw [join_cons_cons, List.length_append, List.length_cons] at hfuel
      -- a step for the verb, and one for the blank behind it
      have hpos : 0 < i.format.length := Nat.succ_pos _
      obtain ⟨fuel, rfl⟩ : ∃ f, fuel = f + 2 := ⟨fuel - 2, by omega⟩
      have hrest := ih (by omega : (Text.join [' '] ((j :: items).map Item.format)).length ≤ fuel)
      obtain ⟨template, htemplate⟩ :
          ∃ t, Text.join [' '] ((j :: items).map Item.format) = t := ⟨_, rfl⟩
      have hblank (args : List Value) :
          fillPieces s (piecesWithin (fuel + 1) (' ' :: template)) args =
            (fillPieces s (piecesWithin fuel template) args).map (' ' :: ·) := by
        have hpieces : piecesWithin (fuel + 1) (' ' :: template) =
            .literal ' ' :: piecesWithin fuel template := if_neg (by decide)
        rw [hpieces]
        rfl
      rw [htemplate] at hrest
      rw [join_cons_cons, join_cons_cons, htemplate, piecesWithin_format, List.map_cons,
        fillPieces_item, hblank, hrest]
      -- there is room for all if there is for the first one and for the rest
      by_cases hi : i.Fits
      · by_cases hall : ∀ j' ∈ j :: items, j'.Fits
        · rw [if_pos hi, if_pos hall, if_pos (List.forall_mem_cons.mpr ⟨hi, hall⟩)]
          rfl
        · rw [if_pos hi, if_neg hall, if_neg fun h => hall (List.forall_mem_cons.mp h).2]
          rfl
      · rw [if_neg hi, if_neg fun h => hi (List.forall_mem_cons.mp h).1]

/-! ### Reading -/

/-- A text is read by a verb as a value, wherever a blank follows or nothing, and what is left is
what follows up to blanks. -/
def ReadsAs (verb : Char) (v : Value) (text : List Char) : Prop :=
  ∀ rest : List Char, (∀ c ∈ rest.head?, Text.isBlank c = true) →
    ∃ back, scanVerb? verb ((text ++ rest).dropWhile Text.isBlank) = some (v, back) ∧
      back.dropWhile Text.isBlank = rest.dropWhile Text.isBlank

section

variable {verb : Char} {v : Value} {text : List Char}

/-- Blanks are blanks. -/
theorem isBlank_of_mem_blanks (k : ℕ) : ∀ c ∈ List.replicate k ' ', Text.isBlank c = true :=
  fun c hc => by
    rw [List.eq_of_mem_replicate hc]
    rfl

/-- Blanks in front of a text are skipped by the verb. -/
theorem ReadsAs.blanks_append (h : ReadsAs verb v text) (k : ℕ) :
    ReadsAs verb v (List.replicate k ' ' ++ text) := fun rest hrest => by
  rw [List.append_assoc, List.dropWhile_append_of_pos (isBlank_of_mem_blanks k)]
  exact h rest hrest

/-- Blanks behind a text are left over, and skipped before whatever follows. -/
theorem ReadsAs.append_blanks (h : ReadsAs verb v text) (k : ℕ) :
    ReadsAs verb v (text ++ List.replicate k ' ') := fun rest hrest => by
  -- what follows the text begins with a blank in either case
  have hhead : ∀ c ∈ (List.replicate k ' ' ++ rest).head?, Text.isBlank c = true := by
    cases k with
    | zero => exact hrest
    | succ k =>
      rintro _ ⟨⟩
      rfl
  obtain ⟨back, hread, hback⟩ := h (List.replicate k ' ' ++ rest) hhead
  rw [List.dropWhile_append_of_pos (isBlank_of_mem_blanks k)] at hback
  rw [List.append_assoc]
  exact ⟨back, hread, hback⟩

/-- It is enough to read a text that does not start with a blank. -/
theorem ReadsAs.of_scanVerb? {c : Char} (hc : Text.isBlank c = false)
    (h : ∀ rest : List Char, (∀ c ∈ rest.head?, Text.isBlank c = true) →
      scanVerb? verb (c :: text ++ rest) = some (v, rest)) : ReadsAs verb v (c :: text) :=
  fun rest hrest => by
    refine ⟨rest, ?_, rfl⟩
    rw [List.cons_append, List.dropWhile_cons_of_neg (Bool.eq_false_iff.mp hc)]
    exact h rest hrest

/-- A text without blanks is read as it is. -/
theorem readsAs_word {t : String} (hne : t ≠ "") (hsolid : ∀ c ∈ t.toList, Text.isBlank c = false) :
    ReadsAs 's' (.text t) t.toList := by
  obtain ⟨c, cs, ht⟩ : ∃ c cs, t.toList = c :: cs :=
    List.exists_cons_of_ne_nil fun h => hne (String.toList_eq_nil_iff.mp h)
  rw [ht] at hsolid ⊢
  refine .of_scanVerb? (hsolid c List.mem_cons_self) fun rest hrest => ?_
  -- the run of characters goes on up to what follows, which begins with a blank
  have hrun : ∀ d ∈ c :: cs, (!Text.isBlank d) = true := fun d hd => by
    rw [hsolid d hd]
    rfl
  have hend : ∀ d ∈ rest.head?, (!Text.isBlank d) = false := fun d hd => by
    rw [hrest d hd]
    rfl
  have hword : run? (!Text.isBlank ·) (c :: cs ++ rest) = some (c :: cs, rest) := by
    rw [run?, Text.takeWhile_run hrun hend, Text.dropWhile_run hrun hend]
    rfl
  change (run? (!Text.isBlank ·) (c :: cs ++ rest)).map _ = _
  rw [hword, ← ht]
  exact congrArg (fun t => some (Value.text t, rest)) String.ofList_toList

/-- A truth value is read from its word. -/
theorem readsAs_bool (b : Bool) : ReadsAs 't' (.bool b) (Key.boolText b).toList := by
  cases b with
  | false => exact .of_scanVerb? rfl fun _ _ => rfl
  | true => exact .of_scanVerb? rfl fun _ _ => rfl

variable {base : ℕ}

/-- A sign and digits are read as the integer they denote, wherever a blank ends them. -/
theorem readsAs_numeral (h : base? verb = some base) (sign : Option Text.Sign) {ds : List Char}
    {k : ℕ} {n : Int64} (hds : natOfDigits? base ds = some k)
    (hn : n.toInt = Text.Sign.factor sign * k) :
    ReadsAs verb (.int n) (Text.Sign.text sign ++ ds) := by
  have hscan : ∀ rest : List Char, (∀ c ∈ rest.head?, Text.isBlank c = true) →
      scanVerb? verb (Text.Sign.text sign ++ ds ++ rest) = some (.int n, rest) := fun rest hrest => by
    rw [scanVerb?_integer h]
    exact scanInteger?_numeral hds hn fun c hc => digitIn?_of_isBlank (hrest c hc)
  match sign with
  | some .plus => exact .of_scanVerb? rfl hscan
  | some .minus => exact .of_scanVerb? rfl hscan
  -- without a sign the first digit decides that the text does not begin with a blank
  | none =>
    obtain ⟨c, ds', d, rfl, hc⟩ := exists_cons_of_natOfDigits? hds
    refine .of_scanVerb? (Bool.eq_false_iff.mpr fun hblank => ?_) hscan
    rw [digitIn?_of_isBlank hblank] at hc
    exact nomatch hc

/-- An integer is read as what it is, with its sign or what stands in place of one, and with zeros
behind that. -/
theorem readsAs_signed (h : base? verb = some base) (spec : Spec) (n : Int64) (k : ℕ) :
    ReadsAs verb (.int n)
      (spec.signed (n < 0) (List.replicate k '0' ++ digits verb base n.toInt.natAbs)) := by
  obtain ⟨hlow, hhigh⟩ := base_bounds h
  have hds := natOfDigits?_zeros_digits verb hlow hhigh k n.toInt.natAbs
  -- a minus, a plus, a blank in place of one, or nothing stands in front of the digits
  unfold Spec.signed
  split
  · next hneg =>
    have hlt : n.toInt < 0 := Int64.lt_iff_toInt_lt.mp (of_decide_eq_true hneg)
    exact readsAs_numeral h (some .minus) hds (by simp only [Text.Sign.factor]; omega)
  · next hpos =>
    have hle : 0 ≤ n.toInt := by
      have := mt Int64.lt_iff_toInt_lt.mpr (mt decide_eq_true hpos)
      exact not_lt.mp this
    have hn : n.toInt = 1 * (n.toInt.natAbs : ℤ) := by omega
    split
    · exact readsAs_numeral h (some .plus) hds hn
    · split
      · exact (readsAs_numeral h none hds hn).blanks_append 1
      · exact readsAs_numeral h none hds hn

/-- A text that is filled up with blanks is read as before. -/
theorem ReadsAs.filled (h : ReadsAs verb v text) (spec : Spec) :
    ReadsAs verb v (spec.filled text false) := by
  unfold Spec.filled
  split
  · exact h.append_blanks _
  · rw [Bool.and_false, if_neg Bool.false_ne_true]
    exact h.blanks_append _

end

/-- **What an item is written as is read as its value.** -/
theorem Item.readsAs (i : Item) : ReadsAs i.datum.verb i.datum.value i.text := by
  obtain ⟨l, d⟩ := i
  cases d with
  | integer verb base hbase n =>
    obtain ⟨hlow, hhigh⟩ := base_bounds hbase
    have hread := readsAs_signed hbase l.spec n
    obtain ⟨c, ds, d, hds, hc⟩ := exists_cons_of_natOfDigits?
      (natOfDigits?_zeros_digits verb hlow hhigh 0 n.toInt.natAbs)
    change digits verb base n.toInt.natAbs = c :: ds at hds
    have hnone := hread 0
    change ReadsAs verb (.int n)
      (l.spec.filled ((Spec.ofFlags l.flags).signed (n < 0) (digits verb base n.toInt.natAbs)) true)
    rw [hds] at hread hnone ⊢
    rw [← l.signed_spec]
    -- the first digit is no sign, so zeros are filled in behind the sign and not in front of one
    have hsign : ¬ (c = '-' ∨ c = '+' ∨ c = ' ') := by
      have := ne_sign_of_digitIn? hc
      tauto
    obtain ⟨k, hfilled | hfilled | hfilled⟩ := l.spec.filled_signed (n < 0) ds hsign
    · rw [hfilled]
      exact hnone.append_blanks k
    · rw [hfilled]
      exact hnone.blanks_append k
    · rw [hfilled]
      exact hread k
  | bool b => exact (readsAs_bool b).filled l.spec
  | word t hne hsolid => exact (readsAs_word hne hsolid).filled l.spec

/-- A verb skips blanks, reads its value and leaves the rest to what follows. -/
theorem scanChars?_bare (i : Item) (template s : List Char) :
    scanChars? (i.bare ++ template) s =
      (scanVerb? i.datum.verb (s.dropWhile Text.isBlank)).bind fun r =>
        (scanChars? template r.2).map (r.1 :: ·) := by
  have hverb : scanChars? (i.bare ++ template) s =
      if i.datum.verb = '%' then (Text.stripPrefix? ['%'] s).bind (scanChars? template)
      else
        (scanVerb? i.datum.verb
          (if i.datum.verb = 'c' then s else s.dropWhile Text.isBlank)).bind fun r =>
            (scanChars? template r.2).bind fun vs => some (r.1 :: vs) := rfl
  rw [hverb, if_neg i.datum.verb_ne_percent, if_neg i.datum.verb_ne_c]
  exact congrArg (Option.bind _) (funext fun r => Option.map_eq_bind.symm)

/-- Items with blanks between them are read one by one. -/
theorem scanChars?_join (items : List Item) {s : List Char}
    (hs : s.dropWhile Text.isBlank =
      (Text.join [' '] (items.map Item.text)).dropWhile Text.isBlank) :
    scanChars? (Text.join [' '] (items.map Item.bare)) s = some (items.map (·.datum.value)) := by
  induction items generalizing s with
  | nil => rfl
  | cons i items ih =>
    cases items with
    | nil =>
      obtain ⟨back, hread, -⟩ := i.readsAs [] nofun
      rw [List.append_nil] at hread
      change s.dropWhile Text.isBlank = i.text.dropWhile Text.isBlank at hs
      change scanChars? i.bare s = _
      rw [← List.append_nil i.bare, scanChars?_bare, hs, hread]
      rfl
    | cons j items =>
      rw [join_cons_cons] at hs ⊢
      obtain ⟨texts, htexts⟩ : ∃ t, Text.join [' '] ((j :: items).map Item.text) = t := ⟨_, rfl⟩
      obtain ⟨template, htemplate⟩ :
          ∃ t, Text.join [' '] ((j :: items).map Item.bare) = t := ⟨_, rfl⟩
      rw [htexts] at hs ih
      rw [htemplate] at ih ⊢
      -- behind the first item a blank stands, before the next one
      obtain ⟨back, hread, hback⟩ := i.readsAs (' ' :: texts) fun _ h => by
        cases h
        rfl
      -- the blank of the template skips those that are left of the item
      have hblank : scanChars? (' ' :: template) back =
          scanChars? template (back.dropWhile Text.isBlank) := rfl
      have hleft : (back.dropWhile Text.isBlank).dropWhile Text.isBlank =
          texts.dropWhile Text.isBlank := by
        rw [List.dropWhile_idempotent, hback]
        rfl
      rw [scanChars?_bare, hs, hread, Option.bind_some, hblank, ih hleft]
      rfl

/-! ### There and back -/

/-- Parts of a text or template with blanks between them. -/
def spaced (parts : List (List Char)) : String := String.ofList (Text.join [' '] parts)

/-- `sprintf` answers with the filled template, or aborts if there is no room for one of its texts. -/
theorem sprintf_eq (E : Engine) (site : CallSite) (template : String) (args : List Value) (s : State) :
    Builtin.run E site (.text template :: args) .sprintf s =
      match fill s template args with
      | some text => .done (.text text) s
      | none => .stop (.abort "capacity overflow") s := by
  have harity : site.atLeast 1 (.text template :: args) s = .done () s := by
    have hcount : (Arity.atLeast 1).accepts (Value.text template :: args).length = true := by
      rw [Arity.accepts, decide_eq_true_eq]
      exact Nat.succ_pos args.length
    rw [CallSite.atLeast, CallSite.arity, if_pos hcount]
    rfl
  have htext : site.textArg (.text template :: args) 0 s = .done template s := rfl
  have hfilled : site.filled (.text template :: args) s =
      match fill s template args with
      | some text => .done text s
      | none => .stop (.abort "capacity overflow") s := by
    rw [CallSite.filled, Eval.bind_of_done harity, Eval.bind_of_done htext, Eval.gets_bind_apply]
    dsimp only [List.tail_cons]
    cases fill s template args <;> rfl
  have hrun : Builtin.run E site (.text template :: args) .sprintf s =
      (site.filled (.text template :: args) >>= fun text => pure (.text text)) s := rfl
  rw [hrun, Eval.bind_apply, hfilled]
  cases fill s template args <;> rfl

/-- What `sscanf` reads is answered as a new array. -/
theorem sscanf_eq (E : Engine) (site : CallSite) {input template : String} {values : List Value}
    (h : scan? input template = some values) (s : State) :
    Builtin.run E site [.text input, .text template] .sscanf s = Eval.newArrayOf values s := by
  have harity : site.exactly 2 [.text input, .text template] s = .done () s := rfl
  have hinput : site.textArg [.text input, .text template] 0 s = .done input s := rfl
  have htemplate : site.textArg [.text input, .text template] 1 s = .done template s := rfl
  refine (Eval.bind_of_done harity _).trans ?_
  rw [Builtin.scanned, Eval.bind_of_done hinput, Eval.bind_of_done htemplate, h]

/-- A template of items is filled with their texts, or the host is aborted. -/
theorem fill_join (s : State) (items : List Item) :
    fill s (spaced (items.map Item.format)) (items.map (·.datum.value)) =
      if ∀ i ∈ items, i.Fits then some (spaced (items.map Item.text)) else none := by
  rw [fill, pieces, spaced, String.toList_ofList, fillPieces_join s items le_rfl]
  split <;> rfl

/-- **Templates read back what they wrote, as far as the host has room for it.** Let each item be a
value with a verb that fits it, flags and a width.

If no width asks for more than `maxRow` blanks or zeros, then `sprintf` of the verbs with blanks
between them gives texts with blanks between them: for each item the text that `sprintf` gives for it
alone, which has as many characters as the width asks for, or as the value has without one if those
are more. And `sscanf` of that text gives an array of just the values, if its template has the verbs
without flags and widths.

Otherwise `sprintf` ends the host. -/
theorem sscanf_sprintf (items : List Item) (E : Engine) (site site' : CallSite) (s s' : State) :
    ((∀ i ∈ items, i.Fits) ∧ ∃ texts : List (List Char),
      List.Forall₂ (fun i text =>
        Builtin.run E site [.text (String.ofList i.format), i.datum.value] .sprintf s =
          .done (.text (String.ofList text)) s ∧
        text.length = max (i.layout.width.getD 0) i.natural.length) items texts ∧
      Builtin.run E site (.text (spaced (items.map Item.format)) :: items.map (·.datum.value))
        .sprintf s = .done (.text (spaced texts)) s ∧
      ∃ r t, Builtin.run E site' [.text (spaced texts), .text (spaced (items.map Item.bare))]
          .sscanf s' = .done (.array r) t ∧
        t.heap.arrays.get? r = some (items.map (·.datum.value)).toArray) ∨
    (∃ i ∈ items, ¬ i.Fits) ∧
      Builtin.run E site (.text (spaced (items.map Item.format)) :: items.map (·.datum.value))
        .sprintf s = .stop (.abort "capacity overflow") s := by
  by_cases hall : ∀ i ∈ items, i.Fits
  · refine .inl ⟨hall, items.map Item.text, ?each, ?all, ?back⟩
    case each =>
      refine List.forall₂_map_right_iff.mpr (List.forall₂_same.mpr fun i hi => ⟨?_, i.length_text⟩)
      have hfill := fill_join s [i]
      rw [if_pos (List.forall_mem_singleton.mpr (hall i hi))] at hfill
      have hone : fill s (String.ofList i.format) [i.datum.value] =
          some (String.ofList i.text) := hfill
      rw [sprintf_eq, hone]
    case all => rw [sprintf_eq, fill_join, if_pos hall]
    -- the template without layouts reads the texts one by one, and the values are put into an array
    case back =>
      have hscan : scan? (spaced (items.map Item.text)) (spaced (items.map Item.bare)) =
          some (items.map (·.datum.value)) := by
        rw [scan?, spaced, spaced, String.toList_ofList, String.toList_ofList]
        exact scanChars?_join items rfl
      obtain ⟨r, t, hnew, hr, -⟩ := newArrayOf_keeps (items.map (·.datum.value)) s'
      exact ⟨r, t, (sscanf_eq E site' hscan s').trans hnew, hr⟩
  · refine .inr ⟨by simpa using hall, ?_⟩
    rw [sprintf_eq, fill_join, if_neg hall]

/-- **A width that fits a machine word ends the host.** It asks for more blanks in front of the
digit than can be laid out. -/
theorem sprintf_overflows :
    ∃ i : Item, i.layout.flags = [] ∧ i.layout.width = some 18446744073709551615 ∧
      i.datum.verb = 'd' ∧ i.datum.value = .int 7 ∧
      ∀ (E : Engine) (site : CallSite) (s : State),
        Builtin.run E site [.text (String.ofList i.format), i.datum.value] .sprintf s =
          .stop (.abort "capacity overflow") s := by
  let i : Item := ⟨⟨[], some 18446744073709551615, nofun, by simp⟩, .integer 'd' 10 rfl 7⟩
  have hfits : ¬ i.Fits := by decide
  refine ⟨i, rfl, rfl, rfl, rfl, fun E site s => ?_⟩
  have hfill := fill_join s [i]
  rw [if_neg fun h => hfits (List.forall_mem_singleton.mp h)] at hfill
  have hone : fill s (String.ofList i.format) [i.datum.value] = none := hfill
  rw [sprintf_eq, hone]

end ScriptEngine.Template
