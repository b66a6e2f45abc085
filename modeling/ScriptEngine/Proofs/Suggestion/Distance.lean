import Mathlib.Order.Bounds.Basic
import Mathlib.Order.MinMax
import Mathlib.Tactic.Common
import ScriptEngine.Suggestion

/-!
# The distance between two texts

`editDistance` is the least number of edits of one character that turn one text into the other
(`editDistance_isLeast`). Edits can be made anywhere and in any order, so two things are shown
apart.

* A sequence of edits can be rearranged into an *alignment*, which goes through both texts from the
  left and costs no more (`Edits.exists_aligned`); and an alignment can be carried out by as many
  edits as it costs (`Aligned.edits`). The point is that alignments compose (`Aligned.trans`).
* The least cost of an alignment obeys the recurrence that the cells are computed by
  (`isLeast_both`). A complete row holds the least costs between what has been read and all initial
  parts of the other text (`Tells`), whatever was in its cells before: the invariant of the inner
  loop speaks of the cells written so far only.

Both the cells and the recurrence look at the last characters of initial parts, while alignments grow
at the front. So the invariants speak of initial parts in reverse; at the end both texts are turned
round (`aligned_reverse_iff`).
-/

namespace ScriptEngine.Suggestion

/-! ### Edits -/

/-- One character is inserted, deleted or replaced. -/
inductive Edit : List Char → List Char → Prop
  | insert (before after : List Char) (c : Char) : Edit (before ++ after) (before ++ c :: after)
  | delete (before after : List Char) (c : Char) : Edit (before ++ c :: after) (before ++ after)
  | replace (before after : List Char) (c d : Char) :
      Edit (before ++ c :: after) (before ++ d :: after)

/-- So many edits, one after the other, turn one text into the other. -/
inductive Edits : ℕ → List Char → List Char → Prop
  | none (a : List Char) : Edits 0 a a
  | more {n : ℕ} {a b c : List Char} : Edit a b → Edits n b c → Edits (n + 1) a c

/-- Two texts are gone through side by side. Every character that is skipped on one side costs one,
and so does every pair of different characters. -/
inductive Aligned : ℕ → List Char → List Char → Prop
  | nil : Aligned 0 [] []
  | both {n : ℕ} {a b : List Char} (c d : Char) :
      Aligned n a b → Aligned (n + if c = d then 0 else 1) (c :: a) (d :: b)
  | left {n : ℕ} {a b : List Char} (c : Char) : Aligned n a b → Aligned (n + 1) (c :: a) b
  | right {n : ℕ} {a b : List Char} (d : Char) : Aligned n a b → Aligned (n + 1) a (d :: b)

variable {m n : ℕ} {a b c : List Char}

/-! ### Alignments compose -/

namespace Aligned

/-- The same character in front costs nothing. -/
theorem same (x : Char) (h : Aligned n a b) : Aligned n (x :: a) (x :: b) := by
  have hboth := h.both x x
  rwa [if_pos rfl] at hboth

/-- A text is aligned with itself at no cost. -/
protected theorem refl (a : List Char) : Aligned 0 a a := by
  induction a with
  | nil => exact .nil
  | cons x a ih => exact ih.same x

/-- Both sides can be exchanged. -/
protected theorem symm (h : Aligned n a b) : Aligned n b a := by
  induction h with
  | nil => exact .nil
  | both x y _ ih =>
    have hboth := ih.both y x
    simp only [eq_comm] at hboth ⊢
    exact hboth
  | left x _ ih => exact ih.right x
  | right y _ ih => exact ih.left y

/-- Alignments can be put one behind the other. -/
theorem append {a' b' : List Char} (h : Aligned m a b) (h' : Aligned n a' b') :
    Aligned (m + n) (a ++ a') (b ++ b') := by
  induction h with
  | nil => rwa [Nat.zero_add]
  | both x y _ ih =>
    rw [Nat.add_right_comm]
    exact ih.both x y
  | left x _ ih =>
    rw [Nat.add_right_comm]
    exact ih.left x
  | right y _ ih =>
    rw [Nat.add_right_comm]
    exact ih.right y

/-- An alignment can be read from the right. -/
theorem reverse (h : Aligned n a b) : Aligned n a.reverse b.reverse := by
  induction h with
  | nil => exact .nil
  | both x y _ ih =>
    -- the first pair comes last
    have hlast := ih.append (Aligned.nil.both x y)
    rwa [Nat.zero_add, ← List.reverse_cons, ← List.reverse_cons] at hlast
  | left x _ ih =>
    have hlast := ih.append (Aligned.nil.left x)
    rwa [List.append_nil, ← List.reverse_cons] at hlast
  | right y _ ih =>
    have hlast := ih.append (Aligned.nil.right y)
    rwa [List.append_nil, ← List.reverse_cons] at hlast

/-- **Alignments compose,** at no more than their costs together. What is skipped on an outer side is
skipped; otherwise both go through the text in the middle, and the cases are about its first
character: it is met from both sides, or skipped on the way to it. -/
theorem trans : ∀ {m n : ℕ} {a b c : List Char}, Aligned m a b → Aligned n b c →
    ∃ k ≤ m + n, Aligned k a c
  | _, _, _, _, _, .nil, h' => ⟨_, by omega, h'⟩
  | _, _, _, _, _, .left x h, h' => by
    obtain ⟨k, hk, hac⟩ := h.trans h'
    exact ⟨k + 1, by omega, hac.left x⟩
  | _, _, _, _, _, h, .right z h' => by
    obtain ⟨k, hk, hac⟩ := h.trans h'
    exact ⟨k + 1, by omega, hac.right z⟩
  | _, _, _, _, _, .right y h, .left _ h' => by
    obtain ⟨k, hk, hac⟩ := h.trans h'
    exact ⟨k, by omega, hac⟩
  | _, _, _, _, _, .right y h, .both _ z h' => by
    obtain ⟨k, hk, hac⟩ := h.trans h'
    exact ⟨k + 1, by omega, hac.right z⟩
  | _, _, _, _, _, .both x y h, .left _ h' => by
    obtain ⟨k, hk, hac⟩ := h.trans h'
    exact ⟨k + 1, by omega, hac.left x⟩
  | _, _, _, _, _, .both x y h, .both _ z h' => by
    obtain ⟨k, hk, hac⟩ := h.trans h'
    refine ⟨_, ?_, hac.both x z⟩
    -- different ends differ from the middle on one side at least
    by_cases hxy : x = y
    · subst hxy
      omega
    · rw [if_neg hxy]
      split <;> omega
termination_by _ _ a b c => a.length + b.length + c.length

end Aligned

/-- So the cost does not depend on the end from which texts are read. -/
theorem aligned_reverse_iff : Aligned n a.reverse b.reverse ↔ Aligned n a b := by
  constructor
  · intro h
    have hback := h.reverse
    rwa [List.reverse_reverse, List.reverse_reverse] at hback
  · exact Aligned.reverse

/-- Only equal texts are aligned at no cost. -/
theorem aligned_zero_iff : Aligned 0 a b ↔ a = b := by
  constructor
  · intro h
    generalize hn : 0 = n at h
    induction h with
    | nil => rfl
    | both x y _ ih =>
      -- a pair that costs nothing is one of equal characters
      by_cases hxy : x = y
      · subst hxy
        rw [ih (by omega)]
      · rw [if_neg hxy] at hn
        omega
    | left x _ _ => omega
    | right y _ _ => omega
  · rintro rfl
    exact .refl a

/-! ### Edits and alignments -/

/-- One edit is an alignment that costs one at most. -/
theorem Edit.exists_aligned (h : Edit a b) : ∃ k ≤ 1, Aligned k a b := by
  -- what stands before and after the edit is the same on both sides
  have amid {k : ℕ} {a b : List Char} (before : List Char) (h : Aligned k a b) :
      Aligned k (before ++ a) (before ++ b) := by
    have happend := (Aligned.refl before).append h
    rwa [Nat.zero_add] at happend
  cases h with
  | insert before after x => exact ⟨1, le_rfl, amid before ((Aligned.refl after).right x)⟩
  | delete before after x => exact ⟨1, le_rfl, amid before ((Aligned.refl after).left x)⟩
  | replace before after x y =>
    refine ⟨_, ?_, amid before ((Aligned.refl after).both x y)⟩
    split <;> omega

/-- **Edits can be rearranged into an alignment.** -/
theorem Edits.exists_aligned (h : Edits n a b) : ∃ k ≤ n, Aligned k a b := by
  -- on the edits: the alignment of the first is composed with that of the others
  induction h with
  | none a => exact ⟨0, le_rfl, .refl a⟩
  | more hedit _ ih =>
    obtain ⟨i, hi, hfirst⟩ := hedit.exists_aligned
    obtain ⟨j, hj, hrest⟩ := ih
    obtain ⟨k, hk, htogether⟩ := hfirst.trans hrest
    exact ⟨k, by omega, htogether⟩

/-- An edit can be made behind one more character. -/
theorem Edit.cons (x : Char) (h : Edit a b) : Edit (x :: a) (x :: b) := by
  cases h with
  | insert before after y => exact .insert (x :: before) after y
  | delete before after y => exact .delete (x :: before) after y
  | replace before after y z => exact .replace (x :: before) after y z

/-- So can many. -/
theorem Edits.cons (x : Char) (h : Edits n a b) : Edits n (x :: a) (x :: b) := by
  induction h with
  | none a => exact .none (x :: a)
  | more hedit _ ih => exact .more (hedit.cons x) ih

/-- **An alignment can be carried out,** from the left to the right. -/
theorem Aligned.edits (h : Aligned n a b) : Edits n a b := by
  induction h with
  | nil => exact .none []
  | @both n a b x y _ ih =>
    -- a pair of equal characters is left as it is, and all else costs one edit
    by_cases hxy : x = y
    · subst hxy
      rw [if_pos rfl]
      exact ih.cons x
    · rw [if_neg hxy]
      exact .more (.replace [] a x y) (ih.cons y)
  | @left n a b x _ ih => exact .more (.delete [] a x) ih
  | @right n a b y _ ih => exact .more (.insert [] a y) (ih.cons y)

/-- The least number of edits is the least cost of an alignment. -/
theorem isLeast_edits (h : IsLeast {k | Aligned k a b} n) : IsLeast {k | Edits k a b} n := by
  refine ⟨h.1.edits, ?_⟩
  intro k hk
  obtain ⟨j, hj, haligned⟩ := Edits.exists_aligned hk
  exact (h.2 haligned).trans hj

/-! ### The recurrence -/

/-- From nothing, every character has to be inserted. -/
theorem isLeast_nil_left (b : List Char) : IsLeast {k | Aligned k [] b} b.length := by
  induction b with
  | nil => exact ⟨.nil, fun _ _ => Nat.zero_le _⟩
  | cons y b ih =>
    refine ⟨ih.1.right y, ?_⟩
    -- only what is skipped on the right can come first
    rintro _ (_ | _ | _ | ⟨_, h⟩)
    exact Nat.succ_le_succ (ih.2 h)

/-- To nothing, every character has to be deleted. -/
theorem isLeast_nil_right (a : List Char) : IsLeast {k | Aligned k a []} a.length := by
  have hleast := isLeast_nil_left a
  exact ⟨hleast.1.symm, fun _ h => hleast.2 h.symm⟩

/-- **How a cell follows from its neighbours:** two first characters are met together, or one of them
is skipped. -/
theorem isLeast_both {x y : Char} {diagonal above left : ℕ}
    (hdiagonal : IsLeast {k | Aligned k a b} diagonal)
    (habove : IsLeast {k | Aligned k a (y :: b)} above)
    (hleft : IsLeast {k | Aligned k (x :: a) b} left) :
    IsLeast {k | Aligned k (x :: a) (y :: b)}
      (min (min (diagonal + if x = y then 0 else 1) (above + 1)) (left + 1)) := by
  constructor
  -- the least of the three is attained by the alignment that it comes from
  · rcases min_choice (min (diagonal + if x = y then 0 else 1) (above + 1)) (left + 1) with h | h
    · rcases min_choice (diagonal + if x = y then 0 else 1) (above + 1) with h' | h'
      · rw [h, h']
        exact hdiagonal.1.both x y
      · rw [h, h']
        exact habove.1.left x
    · rw [h]
      exact hleft.1.right y
  -- every alignment begins in one of the three ways
  · intro k hk
    cases hk with
    | both _ _ h =>
      have := hdiagonal.2 h
      omega
    | left _ h =>
      have := habove.2 h
      omega
    | right _ h =>
      have := hleft.2 h
      omega

/-! ### Rows -/

/-- What holds before a loop and is kept by each of its rounds holds after it. -/
theorem foldl_invariant {α : Type} {n : ℕ} {f : α → Fin n → α} {x : α} {P : ℕ → α → Prop}
    (hstart : P 0 x) (hround : ∀ (j : Fin n) y, P j y → P (j + 1) (f y j)) :
    P n (Fin.foldl n f x) := by
  induction n with
  | zero =>
    rw [Fin.foldl_zero]
    exact hstart
  | succ n ih =>
    rw [Fin.foldl_succ_last]
    exact hround (Fin.last n) _ (ih fun j y h => hround j.castSucc y h)

/-- The first cells of a row, up to that of `last`, hold the least costs between the text `a` and the
initial parts of `b`. -/
def Tells (b : Array Char) (a : List Char) (last : ℕ) (row : Vector ℕ (b.size + 1)) : Prop :=
  ∀ j (hj : j < b.size + 1), j ≤ last →
    IsLeast {k | Aligned k a.reverse (b.toList.take j).reverse} row[j]

variable {cs : Array Char}

/-- The first row tells the cost of inserting. -/
theorem tells_start (cs : Array Char) : Tells cs [] cs.size (Vector.ofFn (·.val)) := by
  intro j hj _
  have hleast := isLeast_nil_left (cs.toList.take j).reverse
  rw [List.length_reverse, List.length_take, Array.length_toList, min_eq_left (by omega)] at hleast
  rw [Vector.getElem_ofFn]
  exact hleast

/-- **A row is written over any cells.** When the loop has come to a cell, what it reads has been
written in this row or stands in the one above. -/
theorem tells_write {above : Vector ℕ (cs.size + 1)} (habove : Tells cs a cs.size above) (x : Char)
    (cells : Vector ℕ (cs.size + 1)) :
    Tells cs (a ++ [x]) cs.size (Rows.write cs above a.length x cells) := by
  have hreverse : (a ++ [x]).reverse = x :: a.reverse := by
    rw [List.reverse_append, List.reverse_singleton, List.singleton_append]
  refine foldl_invariant (P := Tells cs (a ++ [x])) ?start ?round
  case start =>
    intro j hj hle
    -- the first cell of a row is for the empty part of the other text
    obtain rfl : j = 0 := Nat.le_zero.mp hle
    have hleast := isLeast_nil_right (a ++ [x]).reverse
    rw [List.length_reverse, List.length_append, List.length_singleton] at hleast
    rw [Vector.getElem_set_self, List.take_zero, List.reverse_nil]
    exact hleast
  case round =>
    intro i row hrow j hj hle
    have hi := i.isLt
    rw [Vector.getElem_set]
    -- the cell that has just been written, or one that was written before
    by_cases hji : i.val + 1 = j
    · subst hji
      have hlast : (cs.toList.take (i.val + 1)).reverse = cs[i] :: (cs.toList.take i.val).reverse := by
        rw [List.take_succ_eq_append_getElem (by simp), List.reverse_append,
          List.reverse_singleton, List.singleton_append, Array.getElem_toList]
        rfl
      have hdiagonal := habove i.val (by omega) (by omega)
      have hup := habove (i.val + 1) (by omega) (by omega)
      have hleft := hrow i.val (by omega) le_rfl
      rw [if_pos rfl, hreverse, hlast]
      rw [hlast] at hup
      rw [hreverse] at hleft
      exact isLeast_both hdiagonal hup hleft
    · rw [if_neg hji]
      exact hrow j hj (by omega)

/-- The rows go with the characters read. -/
theorem tells_read (spare : Vector ℕ (cs.size + 1)) (a : List Char) :
    Tells cs a cs.size (Rows.read cs spare a).complete := by
  have along : ∀ (rest before : List Char) (rows : Rows cs.size),
      Tells cs before cs.size rows.complete →
      Tells cs (before ++ rest) cs.size
        ((rest.zipIdx before.length).foldl (Rows.advance cs) rows).complete := by
    intro rest
    -- on the characters that are left to be read
    induction rest with
    | nil =>
      intro before rows h
      rwa [List.append_nil]
    | cons x rest ih =>
      intro before rows h
      have hnext := ih (before ++ [x]) (Rows.advance cs rows (x, before.length))
        (tells_write h x rows.spare)
      rw [List.append_assoc, List.singleton_append, List.length_append] at hnext
      exact hnext
  exact along a [] _ (tells_start cs)

/-! ### The distance -/

/-- The cells of the complete row are the least costs to all initial parts. -/
theorem isLeast_read (spare : Vector ℕ (cs.size + 1)) (a : List Char) {j : ℕ} (hj : j ≤ cs.size) :
    IsLeast {k | Aligned k a (cs.toList.take j)} (Rows.read cs spare a).complete[j] := by
  have hleast := tells_read spare a j (by omega) hj
  simp only [aligned_reverse_iff] at hleast
  exact hleast

/-- The last of them is the distance. -/
theorem isLeast_editDistance (a b : List Char) : IsLeast {k | Aligned k a b} (editDistance a b) := by
  have hleast := isLeast_read (Vector.replicate (b.toArray.size + 1) 0) a le_rfl
  rw [List.take_of_length_le (by simp)] at hleast
  exact hleast

/-- **The distance of two texts is the least number of edits** of one character that turn one into
the other. So it is the same both ways, it is zero for equal texts only, and a detour is no shorter.
Nothing of it is left over from the cells that are used again: whatever they hold at the start, the
row that is complete when `a` has been read holds the distances of `a` to all initial parts of
`b`. -/
theorem editDistance_isLeast (a b c : List Char) :
    IsLeast {n | Edits n a b} (editDistance a b) ∧
    editDistance a b = editDistance b a ∧
    (editDistance a b = 0 ↔ a = b) ∧
    editDistance a c ≤ editDistance a b + editDistance b c ∧
    ∀ (spare : Vector ℕ (b.length + 1)) (j : ℕ) (hj : j < b.length + 1),
      (Rows.read b.toArray spare a).complete[j] = editDistance a (b.take j) := by
  have hab := isLeast_editDistance a b
  refine ⟨isLeast_edits hab, ?symmetric, ?zero, ?triangle, ?cells⟩
  -- the same alignment can be read from both sides
  case symmetric =>
    have hba := isLeast_editDistance b a
    exact le_antisymm (hab.2 hba.1.symm) (hba.2 hab.1.symm)
  case zero =>
    rw [← aligned_zero_iff]
    constructor
    · intro h
      rw [← h]
      exact hab.1
    · intro h
      exact Nat.le_zero.mp (hab.2 h)
  -- one by way of `b` is composed of two
  case triangle =>
    obtain ⟨k, hk, hac⟩ := hab.1.trans (isLeast_editDistance b c).1
    exact ((isLeast_editDistance a c).2 hac).trans hk
  case cells =>
    intro spare j hj
    have hcell : IsLeast {k | Aligned k a (b.take j)} (Rows.read b.toArray spare a).complete[j] :=
      isLeast_read spare a (Nat.le_of_lt_succ hj)
    exact hcell.unique (isLeast_editDistance a (b.take j))

example : editDistance "kitten".toList "sitting".toList = 3 := by decide

end ScriptEngine.Suggestion
