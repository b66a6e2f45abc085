import Mathlib.Data.List.Infix
import ScriptEngine.Proofs.Containers
import ScriptEngine.Proofs.Run.Answers

/-!
# Texts in parts

A separator that is not empty cuts a text into the parts around its occurrences, which are found from
the left and do not overlap (`Text.Parts`). Every text has such parts (`exists_parts`), and splitting
finds them, all of them or the first few (`Parts.splitFrom_none`, `Parts.splitFrom_some`). So splitting,
joining and replacing are about the same occurrences (`parts_cohere`): the parts joined by the separator
are the text, and a replacement joins them by another text.
-/

namespace ScriptEngine.Text

variable {sep s p part : List Char} {parts : List (List Char)}

/-! ### Parts -/

/-- The parts of a text around the occurrences of `sep`: an occurrence ends where `sep` is met for the
first time behind the one before. -/
inductive Parts (sep : List Char) : List Char → List (List Char) → Prop
  | last {p : List Char} : ¬ sep <:+: p → Parts sep p [p]
  | cons {p s : List Char} {parts : List (List Char)} : ¬ sep <:+: p ++ sep.dropLast →
      Parts sep s parts → Parts sep (p ++ (sep ++ s)) (p :: parts)

/-- A text in which there is an occurrence has a first one. -/
theorem exists_first (hsep : sep ≠ []) (h : sep <:+: s) :
    ∃ p rest, s = p ++ (sep ++ rest) ∧ ¬ sep <:+: p ++ sep.dropLast := by
  induction s with
  | nil => exact absurd (List.eq_nil_of_infix_nil h) hsep
  | cons c s ih =>
    by_cases hfront : sep <+: c :: s
    · obtain ⟨rest, hrest⟩ := hfront
      -- an occurrence does not fit into a text that is shorter by one
      refine ⟨[], rest, hrest.symm, fun hin => ?_⟩
      have hlength := hin.length_le
      rw [List.nil_append, List.length_dropLast] at hlength
      have hpos := List.length_pos_of_ne_nil hsep
      omega
    · obtain ⟨p, rest, rfl, hp⟩ := ih ((List.infix_cons_iff.mp h).resolve_left hfront)
      refine ⟨c :: p, rest, rfl, fun hin => ?_⟩
      -- an occurrence that begins at `c` would be one at the front of the whole text
      refine (List.infix_cons_iff.mp hin).elim (fun hpre => hfront (hpre.trans ?_)) hp
      have hdrop : sep.dropLast <+: sep ++ rest :=
        (List.dropLast_prefix sep).trans (List.prefix_append sep rest)
      exact (List.prefix_append_right_inj (c :: p)).mpr hdrop

/-- **Every text has parts**, by induction on its length. -/
theorem exists_parts (hsep : sep ≠ []) (s : List Char) : ∃ parts, Parts sep s parts := by
  induction hn : s.length using Nat.strong_induction_on generalizing s with
  | _ n ih =>
    by_cases h : sep <:+: s
    -- by induction on the length: what is behind the first occurrence is shorter
    · obtain ⟨p, rest, rfl, hp⟩ := exists_first hsep h
      have hpos := List.length_pos_of_ne_nil hsep
      rw [List.length_append, List.length_append] at hn
      obtain ⟨parts, hparts⟩ := ih rest.length (by omega) rest rfl
      exact ⟨p :: parts, .cons hp hparts⟩
    · exact ⟨[s], .last h⟩

namespace Parts

/-- There is one part at least. -/
theorem ne_nil (h : Parts sep s parts) : parts ≠ [] := by
  cases h <;> exact List.cons_ne_nil _ _

/-- No part has the separator in it. -/
theorem not_infix (h : Parts sep s parts) : ∀ p ∈ parts, ¬ sep <:+: p := by
  induction h with
  | last hp => exact List.forall_mem_singleton.mpr hp
  | cons hp _ ih =>
    -- a part is shorter than the text in which no occurrence ends
    exact List.forall_mem_cons.mpr ⟨fun hin => hp (hin.trans (List.prefix_append _ _).isInfix), ih⟩

end Parts

/-- To join is to put the separator behind every part but the last. -/
theorem join_cons (h : parts ≠ []) : join sep (p :: parts) = p ++ (sep ++ join sep parts) := by
  obtain ⟨q, parts, rfl⟩ := List.exists_cons_of_ne_nil h
  exact List.append_assoc p sep _

/-- **The parts joined again are the text.** -/
theorem Parts.join_eq (h : Parts sep s parts) : join sep parts = s := by
  induction h with
  | last hp => rfl
  | cons hp hparts ih => rw [join_cons hparts.ne_nil, ih]

/-! ### Splitting finds the parts -/

/-- Once the limit is used up, the rest stays in one part. -/
theorem splitFrom_zero (sep part s : List Char) :
    splitFrom sep (some 0) 0 part s = [part.reverse ++ s] := by
  induction s generalizing part with
  | nil => rw [splitFrom, List.append_nil]
  | cons c s ih => simpa [splitFrom] using ih (c :: part)

/-- The characters of an occurrence that has been met are passed over. -/
theorem splitFrom_skip (sep w part s : List Char) (limit : Option ℕ) :
    splitFrom sep limit w.length part (w ++ s) = splitFrom sep limit 0 part s := by
  induction w with
  | nil => rfl
  | cons c w ih => exact ih

/-- A text without an occurrence is the rest of the present part. -/
theorem splitFrom_last (h : ¬ sep <:+: s) (part : List Char) (limit : Option ℕ) :
    splitFrom sep limit 0 part s = [part.reverse ++ s] := by
  induction s generalizing part with
  | nil => rw [splitFrom, List.append_nil]
  | cons c s ih =>
    have hfront : startsWith (c :: s) sep = false :=
      Bool.eq_false_iff.mpr fun hpre => h (startsWith_iff.mp hpre).isInfix
    have hrest := ih (fun hin => h (List.infix_cons hin)) (c :: part)
    rw [splitFrom, hfront, Bool.and_false, if_neg Bool.false_ne_true, hrest, List.reverse_cons,
      List.append_assoc, List.singleton_append]

/-- The present part ends at the first occurrence. -/
theorem splitFrom_cons (hsep : sep ≠ []) (h : ¬ sep <:+: p ++ sep.dropLast) (part s : List Char)
    {limit : Option ℕ} (hlimit : limit ≠ some 0) :
    splitFrom sep limit 0 part (p ++ (sep ++ s)) =
      (part.reverse ++ p) :: splitFrom sep (limit.map (· - 1)) 0 [] s := by
  induction p generalizing part with
  | nil =>
    -- the first character of the separator is the one met, the others are skipped
    obtain ⟨c, w, rfl⟩ := List.exists_cons_of_ne_nil hsep
    have hfront : startsWith (c :: (w ++ s)) (c :: w) = true :=
      startsWith_iff.mpr (List.prefix_append (c :: w) s)
    have hskip := splitFrom_skip (c :: w) w [] s (limit.map (· - 1))
    rw [List.nil_append, List.append_nil, List.cons_append, splitFrom, hfront, Bool.and_true,
      if_pos (bne_iff_ne.mpr hlimit), List.length_cons, Nat.add_sub_cancel, hskip]
  | cons c p ih =>
    have hfront : startsWith (c :: (p ++ (sep ++ s))) sep = false := by
      refine Bool.eq_false_iff.mpr fun hpre => h ?_
      -- an occurrence at `c` ends before the one behind `p` does
      refine (List.prefix_of_prefix_length_le (startsWith_iff.mp hpre) ?_ ?_).isInfix
      · have hdrop : sep.dropLast <+: sep ++ s :=
          (List.dropLast_prefix sep).trans (List.prefix_append sep s)
        exact (List.prefix_append_right_inj (c :: p)).mpr hdrop
      · rw [List.length_append, List.length_dropLast, List.length_cons]
        omega
    have hrest := ih (fun hin => h (List.infix_cons hin)) (c :: part)
    rw [List.cons_append, splitFrom, hfront, Bool.and_false, if_neg Bool.false_ne_true, hrest,
      List.reverse_cons, List.append_assoc, List.singleton_append]

namespace Parts

/-- **Without a limit all parts are found.** -/
theorem splitFrom_none (hsep : sep ≠ []) (h : Parts sep s parts) :
    splitFrom sep none 0 [] s = parts := by
  induction h with
  | last hp => exact splitFrom_last hp [] none
  | cons hp _ ih =>
    -- without a limit it never runs out
    have hlimit : (none : Option ℕ) ≠ some 0 := nofun
    rw [splitFrom_cons hsep hp [] _ hlimit, Option.map_none, ih]
    rfl

/-- The number of occurrences around which there are these parts. -/
theorem exists_length (h : Parts sep s parts) : ∃ gaps, parts.length = gaps + 1 :=
  ⟨parts.length - 1, (Nat.sub_add_cancel (List.length_pos_of_ne_nil h.ne_nil)).symm⟩

/-- With a limit the parts behind the last occurrence that counts stay together. -/
theorem splitFrom_some (hsep : sep ≠ []) (h : Parts sep s parts) (limit : ℕ) :
    splitFrom sep (some limit) 0 [] s =
      parts.take (min limit (parts.length - 1)) ++
        [join sep (parts.drop (min limit (parts.length - 1)))] := by
  induction h generalizing limit with
  | last hp =>
    rw [splitFrom_last hp, List.length_singleton, Nat.sub_self, Nat.min_zero]
    rfl
  | @cons p s parts hp hparts ih =>
    cases limit with
    | zero =>
      -- nothing is cut any more: the rest is the parts joined again
      rw [splitFrom_zero, Nat.zero_min, List.drop_zero, join_cons hparts.ne_nil, hparts.join_eq]
      rfl
    | succ limit =>
      obtain ⟨gaps, hgaps⟩ := hparts.exists_length
      -- one of the gaps is used up by the occurrence at the front
      have hmin : min (limit + 1) ((p :: parts).length - 1) = min limit (parts.length - 1) + 1 := by
        rw [List.length_cons, hgaps]
        omega
      have hlimit : some (limit + 1) ≠ some 0 := nofun
      rw [splitFrom_cons hsep hp [] s hlimit, hmin, Option.map_some, Nat.add_sub_cancel, ih limit]
      rfl

end Parts

/-! ### The methods -/

/-- The parts put together again, with `new` in the first `k` gaps between them and `old` in the
others. -/
def rejoin (old new : String) (k : ℕ) (parts : List String) : String :=
  String.intercalate new (parts.take k ++ [String.intercalate old (parts.drop k)])

/-- Joining is what the library has as `List.intercalate`. -/
theorem join_eq_intercalate (sep : List Char) (parts : List (List Char)) :
    join sep parts = sep.intercalate parts := by
  induction parts with
  | nil => rfl
  | cons p parts ih =>
    -- the separator stands only between parts, so a last one is told apart
    cases parts with
    | nil => exact (List.append_nil p).symm
    | cons q parts =>
      rw [join_cons (List.cons_ne_nil q parts), ih]
      rfl

/-- Joining as texts is joining as lists of characters. -/
theorem ofList_join (sep : String) (parts : List (List Char)) :
    String.ofList (join sep.toList parts) = String.intercalate sep (parts.map String.ofList) := by
  rw [← String.toList_inj, String.toList_ofList, String.toList_intercalate, List.map_map,
    join_eq_intercalate]
  have hmap : parts.map (String.toList ∘ String.ofList) = parts :=
    (List.map_congr_left fun p _ => String.toList_ofList).trans (List.map_id parts)
  rw [hmap]

/-- The same of parts joined by two different texts. -/
theorem ofList_rejoin (old new : String) (k : ℕ) (parts : List (List Char)) :
    String.ofList (join new.toList (parts.take k ++ [join old.toList (parts.drop k)])) =
      rejoin old new k (parts.map String.ofList) := by
  rw [rejoin, ofList_join, List.map_append, List.map_take, List.map_singleton, ofList_join,
    List.map_drop]

/-- A text is its characters put together. -/
theorem intercalate_chars (t : String) :
    String.intercalate "" (t.toList.map Char.toString) = t := by
  have hjoin (cs : List Char) : join [] (cs.map fun c => [c]) = cs := by
    induction cs with
    | nil => rfl
    | cons c cs ih =>
      cases cs with
      | nil => rfl
      | cons d cs => exact congrArg (c :: ·) ih
  have hsingles : (t.toList.map fun c => [c]).map String.ofList = t.toList.map Char.toString := by
    rw [List.map_map]
    rfl
  rw [← hsingles, ← ofList_join, String.toList_empty, hjoin, String.ofList_toList]

variable {E : Engine} {scope : Ref .scope} {span : Span}

/-- The method `split`, at a separator that is not empty. -/
theorem invoke_split {sep : String} (hsep : sep ≠ "") (t : String) :
    Dispatch.invoke E scope (.text t) "split" [.text sep] span =
      Eval.newArrayOf (((split sep.toList t.toList).map String.ofList).map Value.text) := by
  have hempty : sep.isEmpty = false := by simpa using hsep
  rw [Dispatch.invoke_method (.text t) trivial rfl rfl, List.map_map]
  -- the empty separator is the one that the method treats apart
  change (if sep.isEmpty then _ else _) = _
  rw [hempty]
  rfl

/-- At the empty one it gives the characters. -/
theorem invoke_split_empty (t : String) :
    Dispatch.invoke E scope (.text t) "split" [.text ""] span =
      Eval.newArrayOf ((t.toList.map Char.toString).map Value.text) := by
  rw [Dispatch.invoke_method (.text t) trivial rfl rfl, List.map_map]
  rfl

/-- The method `join`, of an array of texts. -/
theorem invoke_join {r : Ref .array} {parts : List String} {u : State}
    (h : u.heap.arrays.get? r = some (parts.map Value.text).toArray) (sep : String) :
    Dispatch.invoke E scope (.array r) "join" [.text sep] span u =
      .done (.text (String.intercalate sep parts)) u := by
  have hitems : Eval.arrayItems r u = .done (parts.map Value.text).toArray u :=
    congrArg (fun items => Run.done (Option.getD items #[]) u) h
  rw [Dispatch.invoke_method (.array r) trivial rfl rfl]
  refine (Eval.bind_of_done (a := ()) (t := u) rfl _).trans ?_
  refine (Eval.bind_of_done (a := sep) (t := u) rfl _).trans ?_
  -- the conversions of the arguments answer at once and leave the state
  refine (Eval.bind_of_done hitems _).trans ?_
  have hinspect : (parts.map Value.text).map u.inspect = parts :=
    (List.map_map).trans ((List.map_congr_left fun p _ => rfl).trans (List.map_id parts))
  exact congrArg (fun ps => Run.done (Value.text (String.intercalate sep ps)) u) hinspect

/-- The method `replace` without a count. -/
theorem invoke_replace (t old new : String) :
    Dispatch.invoke E scope (.text t) "replace" [.text old, .text new] span =
      pure (Method.charsValue (replace old.toList new.toList none t.toList)) := by
  rw [Dispatch.invoke_method (.text t) trivial rfl rfl]
  rfl

/-- The method `replace` with a count, where a negative one is no limit. -/
theorem invoke_replace_count (t old new : String) {count : Value} {n : Int64}
    (hn : count.asInt? = some n) :
    Dispatch.invoke E scope (.text t) "replace" [.text old, .text new, count] span =
      pure (Method.charsValue (replace old.toList new.toList
        (if n < 0 then none else some n.toInt.toNat) t.toList)) := by
  -- the count is converted by the method itself, before it is looked at
  have hint : CallSite.intArg ⟨scope, span, "replace"⟩ [.text old, .text new, count] 2 = pure n :=
    CallSite.intArg_eq_pure rfl hn
  rw [Dispatch.invoke_method (.text t) trivial rfl rfl]
  funext s
  have hcount : (if [Value.text old, .text new, count].length = 3 then
      CallSite.intArg ⟨scope, span, "replace"⟩ [.text old, .text new, count] 2
      -- the two branches of the method agree, as there are three arguments
      else pure (-1)) s = .done n s := congrFun hint s
  exact (Eval.bind_of_done hcount _).trans rfl

/-- **Splitting, joining and replacing are about the same occurrences.** Splitting a text gives an array
of parts, and joining them by the separator the text. If the separator is not empty, these are the parts
around its occurrences; none of them has it inside, and to replace it is to join the parts by the new
text, or with a count that is not negative, to put the new text into the first gaps only, as many as the
count says and as there are. -/
theorem parts_cohere (E : Engine) (scope : Ref .scope) (span : Span) (t sep : String) (s : State) :
    ∃ (parts : List String) (r : Ref .array) (u : State),
      Dispatch.invoke E scope (.text t) "split" [.text sep] span s = .done (.array r) u ∧
      u.heap.arrays.get? r = some (parts.map Value.text).toArray ∧
      Dispatch.invoke E scope (.array r) "join" [.text sep] span u = .done (.text t) u ∧
      (sep ≠ "" →
        Parts sep.toList t.toList (parts.map String.toList) ∧
        (∀ p ∈ parts, ¬ sep.toList <:+: p.toList) ∧
        ∀ (new : String) (v : State), ∃ replaced : String,
          Dispatch.invoke E scope (.array r) "join" [.text new] span u =
            .done (.text replaced) u ∧
          Dispatch.invoke E scope (.text t) "replace" [.text sep, .text new] span v =
            .done (.text replaced) v ∧
          ∀ (count : Value) (n : Int64), count.asInt? = some n →
            Dispatch.invoke E scope (.text t) "replace" [.text sep, .text new, count] span v =
              .done (.text (if n < 0 then replaced
                else rejoin sep new (min n.toInt.toNat (parts.length - 1)) parts)) v) := by
  by_cases hsep : sep = ""
  -- the empty separator cuts between any two characters
  case pos =>
    subst hsep
    obtain ⟨r, u, hnew, hr, -⟩ := newArrayOf_keeps ((t.toList.map Char.toString).map Value.text) s
    refine ⟨t.toList.map Char.toString, r, u, ?_, hr, ?_, fun h => absurd rfl h⟩
    · rw [invoke_split_empty, hnew]
    · rw [invoke_join hr, intercalate_chars]
  -- the other ones cut around their occurrences
  case neg =>
    have hne : sep.toList ≠ [] := by simpa using hsep
    obtain ⟨cut, hcut⟩ := exists_parts hne t.toList
    have hsplit : split sep.toList t.toList = cut := hcut.splitFrom_none hne
    obtain ⟨r, u, hnew, hr, -⟩ := newArrayOf_keeps ((cut.map String.ofList).map Value.text) s
    have hchars : (cut.map String.ofList).map String.toList = cut := by
      rw [List.map_map]
      exact (List.map_congr_left fun p _ => String.toList_ofList).trans (List.map_id cut)
    have hold : sep.toList.isEmpty = false := by simpa using hne
    refine ⟨cut.map String.ofList, r, u, ?split, hr, ?join, fun _ => ⟨?parts, ?inside,
      fun new v => ⟨_, invoke_join hr new, ?all, fun count n hn => ?some⟩⟩⟩
    case split => rw [invoke_split hsep, hsplit, hnew]
    case join => rw [invoke_join hr, ← ofList_join, hcut.join_eq, String.ofList_toList]
    case parts => rwa [hchars]
    case inside =>
      intro p hp
      obtain ⟨q, hq, rfl⟩ := List.mem_map.mp hp
      rw [String.toList_ofList]
      exact hcut.not_infix q hq
    case all =>
      rw [invoke_replace, replace, hold, if_neg Bool.false_ne_true, hcut.splitFrom_none hne]
      exact congrArg (fun w => Run.done (Value.text w) v) (ofList_join new cut)
    case some =>
      rw [invoke_replace_count t sep new hn, replace, hold, if_neg Bool.false_ne_true]
      -- a negative count stands for all of them
      split
      · rw [hcut.splitFrom_none hne]
        exact congrArg (fun w => Run.done (Value.text w) v) (ofList_join new cut)
      · rw [hcut.splitFrom_some hne, List.length_map]
        exact congrArg (fun w => Run.done (Value.text w) v) (ofList_rejoin sep new _ cut)

/-- Two occurrences side by side, of which the first one is replaced. -/
theorem parts_cohere_overlapping :
    ("aa" : String) ≠ "" ∧ (Value.int 1).asInt? = some 1 ∧
      ∃ (r : Ref .array) (u : State),
        Dispatch.invoke .idle State.root (.text "aaaab") "split" [.text "aa"] .unknown .blank =
          .done (.array r) u ∧
        u.heap.arrays.get? r = some #[.text "", .text "", .text "b"] ∧
        Dispatch.invoke .idle State.root (.text "aaaab") "replace"
          [.text "aa", .text "x", .int 1] .unknown .blank = .done (.text "xaab") .blank := by
  have hsep : ("aa" : String) ≠ "" := by decide
  have hcount : (Value.int 1).asInt? = some 1 := rfl
  obtain ⟨parts, r, u, hsplit, hr, -, hcoheres⟩ :=
    parts_cohere .idle State.root .unknown "aaaab" "aa" .blank
  obtain ⟨hparts, -, hreplace⟩ := hcoheres hsep
  obtain ⟨_, -, -, hsome⟩ := hreplace "x" .blank
  have hcut : parts.map String.toList = [[], [], ['b']] :=
    (hparts.splitFrom_none (by decide)).symm.trans (by decide)
  obtain rfl : parts = ["", "", "b"] := by
    refine List.map_injective_iff.mpr (fun _ _ => String.toList_inj.mp) (hcut.trans ?_)
    decide
  exact ⟨hsep, hcount, r, u, hsplit, hr, (hsome _ _ hcount).trans (by rfl)⟩

end ScriptEngine.Text
