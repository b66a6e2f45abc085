import Mathlib.Data.List.Basic
import Mathlib.Logic.Relation
import ScriptEngine.Machine.State

/-!
# How deep values are nested

What goes down into values bounds its depth by the size of the heap (`Heap.depth`). Where nothing is
inside itself, no container is met twice on the way down, so the depth is enough
(`State.nested_depth`): one level for each container, and one for what is in the last of them.
-/

namespace ScriptEngine

/-! ### Levels -/

section

variable {α : Type} {R : α → α → Prop}

/-- What one can go down from for ever is inside itself. -/
theorem not_inside {a : α} (h : Acc R a) : ¬ Relation.TransGen R a a := by
  have hacc := h.transGen
  clear h
  induction hacc with
  | intro a _ ih => exact fun hloop => ih a hloop hloop

/-- There are no more levels below something than there are things that have something below them. -/
theorem of_inside {P : ℕ → α → Prop} (hstep : ∀ n a, (∀ b, R b a → P n b) → P (n + 1) a) {a : α}
    (ha : Acc R a) {available : List α}
    (hin : ∀ b c, Relation.ReflTransGen R b a → R c b → b ∈ available) :
    P (available.length + 1) a := by
  classical
  induction ha generalizing available with
  | intro a hacc ih =>
    refine hstep _ _ fun b hb => ?_
    have hmem : a ∈ available := hin a b .refl hb
    -- further down `a` itself is not met again
    have hinside : ∀ c d, Relation.ReflTransGen R c b → R d c → c ∈ available.erase a := by
      intro c d hc hd
      have hne : c ≠ a := by
        rintro rfl
        exact not_inside (.intro c hacc) (Relation.TransGen.tail' hc hb)
      exact (List.mem_erase_of_ne hne).mpr (hin c d (hc.tail hb) hd)
    have hlength : (available.erase a).length + 1 = available.length := by
      rw [List.length_erase_of_mem hmem]
      exact Nat.succ_pred_eq_of_pos (List.length_pos_of_mem hmem)
    exact hlength ▸ ih b hb hinside

end

namespace State

variable {s : State}

/-- What a value holds: the items of an array, a tuple or a list and the values of a hash. -/
def contents (s : State) : Value → List Value
  | .array r => ((s.heap.arrays.get? r).getD #[]).toList
  | .tuple r => ((s.heap.tuples.get? r).getD #[]).toList
  | .list r => ((s.heap.lists.get? r).getD #[]).toList
  | .hash r => ((s.heap.hashes.get? r).getD .empty).values
  | _ => []

/-- `w` is held by `v` itself. -/
def HeldBy (s : State) (w v : Value) : Prop := w ∈ s.contents v

/-- A value and what it holds, and so on, reaches at most `n` levels down. -/
def Nested (s : State) : ℕ → Value → Prop
  | 0, _ => False
  | n + 1, v => ∀ w ∈ s.contents v, s.Nested n w

/-- Whatever is nested has a level of its own. -/
theorem Nested.exists_succ {n : ℕ} {v : Value} (h : s.Nested n v) : ∃ m, n = m + 1 := by
  cases n with
  | zero => exact h.elim
  | succ n => exact ⟨n, rfl⟩

theorem Nested.succ {n : ℕ} {v : Value} (h : s.Nested n v) : s.Nested (n + 1) v := by
  induction n generalizing v with
  | zero => exact h.elim
  | succ n ih => exact fun w hw => ih (h w hw)

theorem Nested.mono {n m : ℕ} {v : Value} (h : s.Nested n v) (hnm : n ≤ m) : s.Nested m v := by
  induction hnm with
  | refl => exact h
  | step _ ih => exact ih.succ

/-- All containers. -/
def containers (s : State) : List Value :=
  (List.range s.heap.arrays.size).map (.array ⟨·⟩) ++
    (List.range s.heap.tuples.size).map (.tuple ⟨·⟩) ++
    (List.range s.heap.hashes.size).map (.hash ⟨·⟩) ++
    (List.range s.heap.lists.size).map (.list ⟨·⟩)

theorem length_containers (s : State) :
    s.containers.length + s.heap.objects.size + 1 = s.heap.depth := by
  unfold containers Heap.depth
  simp only [List.length_append, List.length_map, List.length_range]

/-- What holds something is a container. -/
theorem mem_containers {v w : Value} (h : s.HeldBy w v) : v ∈ s.containers := by
  have bound : ∀ {store : Store} {α β : Type} {t : Table store α} {r : Ref store} {empty : α}
      {f : α → List β} {b : β}, f empty = [] → b ∈ f ((t.get? r).getD empty) →
      r.index ∈ List.range t.size := by
    intro store α β t r empty f b hempty hb
    refine List.mem_range.mpr ?_
    by_contra hlt
    have hnone : t.get? r = none := Array.getElem?_eq_none (Nat.not_lt.mp hlt)
    rw [hnone, Option.getD_none, hempty] at hb
    exact absurd hb List.not_mem_nil
  unfold containers
  rw [List.mem_append, List.mem_append, List.mem_append]
  cases v with
  | array r => exact .inl (.inl (.inl (List.mem_map.mpr ⟨_, bound (f := Array.toList) rfl h, rfl⟩)))
  | tuple r => exact .inl (.inl (.inr (List.mem_map.mpr ⟨_, bound (f := Array.toList) rfl h, rfl⟩)))
  | hash r => exact .inl (.inr (List.mem_map.mpr ⟨_, bound (f := Assoc.values) rfl h, rfl⟩))
  | list r => exact .inr (List.mem_map.mpr ⟨_, bound (f := Array.toList) rfl h, rfl⟩)
  | _ => exact absurd h List.not_mem_nil

/-- The depth is enough. -/
theorem nested_depth {v : Value} (hv : Acc s.HeldBy v) : s.Nested s.heap.depth v := by
  have hnested : s.Nested (s.containers.length + 1) v :=
    of_inside (fun _ _ => id) hv fun _ _ _ hw => mem_containers hw
  have hdepth := s.length_containers
  exact hnested.mono (by omega)

end State

end ScriptEngine
