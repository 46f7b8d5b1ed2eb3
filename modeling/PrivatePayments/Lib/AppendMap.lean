import Mathlib.Data.List.Nodup
import Mathlib.Logic.Function.Basic

/-!
# PrivatePayments.Lib.AppendMap

Maps from keys to lists of values that grow at their ends.

`extend` gives each key the values that a list of entries has for it; a key without values gets
no list. The order of the entries only matters among those of one key, and not at all as long as
no two of them with values share their key (`extend_perm`).
-/

/-- A map from keys to lists of values. -/
abbrev AppendMap (κ β : Type*) := κ → Option (List β)

namespace AppendMap

variable {κ β : Type*} [DecidableEq κ] {m : AppendMap κ β} {k : κ}
  {entries entries' : List (κ × List β)}

/-- The map without keys. -/
def empty : AppendMap κ β := fun _ => none

/-- A value more at the end of a key. -/
def push (m : AppendMap κ β) (k : κ) (x : β) : AppendMap κ β :=
  Function.update m k (some ((m k).getD [] ++ [x]))

/-- The values of a key, in order. -/
def collect (k : κ) (entries : List (κ × List β)) : List β :=
  (entries.filter fun entry => entry.1 = k).flatMap Prod.snd

/-- The values of the entries at the ends of their keys. -/
def extend (m : AppendMap κ β) (entries : List (κ × List β)) : AppendMap κ β := fun k =>
  if (collect k entries).isEmpty then m k else some ((m k).getD [] ++ collect k entries)

/-- No two entries with values share their key. -/
def DistinctKeys (entries : List (κ × List β)) : Prop :=
  ((entries.filter fun entry => !entry.2.isEmpty).map Prod.fst).Nodup

instance (entries : List (κ × List β)) : Decidable (DistinctKeys entries) :=
  inferInstanceAs (Decidable (List.Nodup _))

/-! ## Values of a key -/

@[simp] theorem collect_nil : collect k ([] : List (κ × List β)) = [] := rfl

@[simp] theorem collect_append :
    collect k (entries ++ entries') = collect k entries ++ collect k entries' := by
  simp [collect]

@[simp] theorem collect_cons {k' : κ} {xs : List β} :
    collect k ((k', xs) :: entries) = (if k' = k then xs else []) ++ collect k entries := by
  by_cases h : k' = k <;> simp [collect, h]

/-- Entries without values add nothing to a key. -/
theorem collect_filter :
    collect k (entries.filter fun entry => !entry.2.isEmpty) = collect k entries := by
  induction entries with
  | nil => rfl
  | cons entry entries ih =>
      obtain ⟨k', xs⟩ := entry
      cases xs <;> simp [ih]

/-! ## Extensions -/

@[simp] theorem extend_nil : extend m [] = m := by
  funext k
  simp [extend]

/-- An entry without values leaves no trace. -/
@[simp] theorem extend_empty : extend m [(k, [])] = m := by
  funext k'
  simp [extend]

theorem extend_congr (h : ∀ k, collect k entries = collect k entries') :
    extend m entries = extend m entries' := by
  funext k
  rw [extend, extend, h]

theorem extend_append : extend m (entries ++ entries') = extend (extend m entries) entries' := by
  funext k
  cases hold : collect k entries with
  | nil => simp [extend, hold]
  | cons x xs => cases hnew : collect k entries' <;> simp [extend, hold, hnew]

/-- Extensions one after the other. -/
theorem foldl_extend {α : Type*} (f : α → List (κ × List β)) (l : List α) :
    l.foldl (fun m a => extend m (f a)) m = extend m (l.flatMap f) := by
  induction l generalizing m with
  | nil => exact extend_nil.symm
  | cons a l ih => rw [List.foldl_cons, ih, List.flatMap_cons, extend_append]

theorem push_eq_extend {x : β} : push m k x = extend m [(k, [x])] := by
  funext k'
  by_cases h : k' = k
  · subst h
    simp [push, extend]
  · simp [push, extend, h, Ne.symm h]

/-- The values of one key may be split into entries. -/
theorem extend_split {xs ys : List β} :
    extend m [(k, xs ++ ys)] = extend (extend m [(k, xs)]) [(k, ys)] := by
  rw [← extend_append]
  refine extend_congr fun k' => ?_
  by_cases h : k = k' <;> simp [h]

/-! ## The order of the entries -/

omit [DecidableEq κ] in
theorem DistinctKeys.sublist (h : DistinctKeys entries) (hsub : entries'.Sublist entries) :
    DistinctKeys entries' :=
  List.Nodup.sublist ((hsub.filter _).map Prod.fst) h

/-- At most one of the entries with values is of a given key. -/
theorem DistinctKeys.length_le_one (h : DistinctKeys entries) (k : κ) :
    ((entries.filter fun entry => !entry.2.isEmpty).filter
      fun entry => entry.1 = k).length ≤ 1 := by
  generalize hown : (entries.filter fun entry => !entry.2.isEmpty).filter
    (fun entry => entry.1 = k) = own
  have hnodup : (own.map Prod.fst).Nodup :=
    List.Nodup.sublist ((hown ▸ List.filter_sublist).map Prod.fst) h
  have hkeys : own.map Prod.fst = List.replicate own.length k := by
    refine List.eq_replicate_iff.mpr ⟨List.length_map Prod.fst, fun k' hk' => ?_⟩
    obtain ⟨entry, hentry, rfl⟩ := List.mem_map.mp hk'
    rw [← hown] at hentry
    simpa using (List.mem_filter.mp hentry).2
  rw [hkeys] at hnodup
  exact List.nodup_replicate.mp hnodup

theorem collect_perm (h : DistinctKeys entries) (hperm : entries.Perm entries') (k : κ) :
    collect k entries = collect k entries' := by
  have hown := (hperm.filter fun entry => !entry.2.isEmpty).filter fun entry => entry.1 = k
  rw [← collect_filter, ← @collect_filter _ _ _ _ entries', collect, collect]
  rcases Nat.le_one_iff_eq_zero_or_eq_one.mp (h.length_le_one k) with hzero | hone
  · rw [List.length_eq_zero_iff] at hzero
    rw [hzero] at hown ⊢
    rw [hown.nil_eq]
  · obtain ⟨entry, hentry⟩ := List.length_eq_one_iff.mp hone
    rw [hentry] at hown ⊢
    rw [List.singleton_perm.mp hown]

theorem extend_perm (h : DistinctKeys entries) (hperm : entries.Perm entries') :
    extend m entries = extend m entries' :=
  extend_congr (collect_perm h hperm)

end AppendMap
