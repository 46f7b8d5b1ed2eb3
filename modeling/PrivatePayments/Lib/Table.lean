import Mathlib.Data.List.Sort
import Mathlib.Data.List.Nodup
import Mathlib.Data.Prod.Lex

/-!
# PrivatePayments.Lib.Table

Tables of a relational store, as lists of rows in the order of insertion.

* `Table.insert` appends a row under the next free row number;
* `Table.insertNew` is `INSERT … ON CONFLICT(key) DO NOTHING`: a row whose key is taken is
  dropped without an error;
* `Table.orderBy` is `ORDER BY`.

What a sequence of `insertNew` leaves depends on the columns alone (`columns_insertAllNew`),
so the facts about it are stated for lists: a table that was filled this way from the empty
one holds a sublist of what was offered, and all of it exactly when no key came twice
(`addAllNew_nil_eq_iff`).
-/

/-- A row: the number the store gave it, and its columns. -/
structure Table.Row (α : Type*) where
  rowid : Nat
  columns : α
  deriving DecidableEq, Repr

/-- A table, in the order of insertion. -/
abbrev Table (α : Type*) := List (Table.Row α)

namespace Table

section Definitions

variable {α κ : Type*} [DecidableEq κ]

/-- The rows without their numbers. -/
def columns (t : Table α) : List α := t.map Row.columns

/-- One more than the largest number in use. -/
def nextRowid (t : Table α) : Nat := t.foldr (fun row n => max row.rowid n) 0 + 1

/-- `INSERT` -/
def insert (t : Table α) (c : α) : Table α := t ++ [⟨nextRowid t, c⟩]

/-- `INSERT … ON CONFLICT(key) DO NOTHING` -/
def insertNew (key : α → κ) (t : Table α) (c : α) : Table α :=
  if key c ∈ (columns t).map key then t else insert t c

/-- `insertNew` for every element of a list. -/
def insertAllNew (key : α → κ) (t : Table α) (cs : List α) : Table α :=
  cs.foldl (insertNew key) t

/-- `insertNew` on the columns. -/
def addNew (key : α → κ) (l : List α) (c : α) : List α :=
  if key c ∈ l.map key then l else l ++ [c]

/-- `insertAllNew` on the columns. -/
def addAllNew (key : α → κ) (l : List α) (cs : List α) : List α := cs.foldl (addNew key) l

/-- `UPDATE … SET … WHERE p` -/
def update (p : α → Bool) (f : α → α) (t : Table α) : Table α :=
  t.map fun row => if p row.columns then { row with columns := f row.columns } else row

/-- The row with the largest number. -/
def latest (t : Table α) : Option (Row α) :=
  t.foldl (fun best row =>
    match best with
    | none => some row
    | some b => if b.rowid < row.rowid then some row else some b) none

/-- The row numbers grow in the order of insertion. -/
def Ordered (t : Table α) : Prop := t.Pairwise fun a b => a.rowid < b.rowid

/-- `ORDER BY f` -/
def orderBy {β : Type*} [LinearOrder β] (f : α → β) (l : List α) : List α :=
  l.insertionSort fun a b => f a ≤ f b

end Definitions

variable {α κ : Type*} [DecidableEq κ] {key : α → κ} {t : Table α} {l cs : List α} {c x : α}

/-! ## Columns -/

@[simp] theorem columns_nil : columns ([] : Table α) = [] := rfl

@[simp] theorem columns_insert : columns (insert t c) = columns t ++ [c] := by
  simp [columns, insert]

theorem mem_columns {r : Row α} (h : r ∈ t) : r.columns ∈ columns t := List.mem_map_of_mem h

theorem columns_insertNew : columns (insertNew key t c) = addNew key (columns t) c := by
  unfold insertNew addNew
  split
  · rfl
  · exact columns_insert

theorem columns_insertAllNew :
    columns (insertAllNew key t cs) = addAllNew key (columns t) cs := by
  induction cs generalizing t with
  | nil => rfl
  | cons c cs ih =>
      show columns (insertAllNew key (insertNew key t c) cs) = _
      rw [ih, columns_insertNew]
      rfl

/-! ## Filling a table without duplicates -/

@[simp] theorem addAllNew_nil : addAllNew key l [] = l := rfl

theorem addAllNew_cons : addAllNew key l (c :: cs) = addAllNew key (addNew key l c) cs := rfl

theorem addAllNew_append (ds : List α) :
    addAllNew key l (cs ++ ds) = addAllNew key (addAllNew key l cs) ds :=
  List.foldl_append

theorem addNew_of_mem (h : key c ∈ l.map key) : addNew key l c = l := if_pos h

theorem addNew_of_notMem (h : key c ∉ l.map key) : addNew key l c = l ++ [c] := if_neg h

theorem addNew_sublist : (addNew key l c).Sublist (l ++ [c]) := by
  unfold addNew
  split
  · exact List.sublist_append_left l [c]
  · exact List.Sublist.refl _

theorem prefix_addNew : l <+: addNew key l c := by
  unfold addNew
  split
  · exact List.prefix_refl l
  · exact List.prefix_append l [c]

theorem mem_or_eq_of_mem_addNew (h : x ∈ addNew key l c) : x ∈ l ∨ x = c := by
  simpa using addNew_sublist.subset h

theorem key_mem_addNew : key c ∈ (addNew key l c).map key := by
  by_cases h : key c ∈ l.map key
  · rw [addNew_of_mem h]
    exact h
  · rw [addNew_of_notMem h]
    simp

theorem nodup_addNew (h : (l.map key).Nodup) : ((addNew key l c).map key).Nodup := by
  by_cases hc : key c ∈ l.map key
  · rw [addNew_of_mem hc]
    exact h
  · rw [addNew_of_notMem hc, List.map_append, List.nodup_append]
    refine ⟨h, List.nodup_singleton _, ?_⟩
    intro a ha b hb
    obtain rfl : b = key c := by simpa using hb
    exact fun hab => hc (hab ▸ ha)

/-- Only what was there or was offered is kept, in that order. -/
theorem addAllNew_sublist : (addAllNew key l cs).Sublist (l ++ cs) := by
  induction cs generalizing l with
  | nil => simp
  | cons c cs ih =>
      have hstep : (addNew key l c ++ cs).Sublist (l ++ [c] ++ cs) :=
        List.Sublist.append addNew_sublist (List.Sublist.refl cs)
      rw [addAllNew_cons]
      exact ih.trans (by simpa using hstep)

/-- No row is removed. -/
theorem prefix_addAllNew : l <+: addAllNew key l cs := by
  induction cs generalizing l with
  | nil => exact List.prefix_refl l
  | cons c cs ih => exact prefix_addNew.trans ih

theorem mem_addAllNew_of_mem (h : x ∈ l) : x ∈ addAllNew key l cs :=
  prefix_addAllNew.subset h

theorem mem_or_mem_of_mem_addAllNew (h : x ∈ addAllNew key l cs) : x ∈ l ∨ x ∈ cs :=
  List.mem_append.mp (addAllNew_sublist.subset h)

/-- Every offered key is present afterwards. -/
theorem key_mem_addAllNew (h : c ∈ cs) : key c ∈ (addAllNew key l cs).map key := by
  induction cs generalizing l with
  | nil => cases h
  | cons d cs ih =>
      rw [addAllNew_cons]
      cases h with
      | head => exact List.map_subset key prefix_addAllNew.subset key_mem_addNew
      | tail _ h => exact ih h

/-- The keys stay distinct. -/
theorem nodup_addAllNew (h : (l.map key).Nodup) : ((addAllNew key l cs).map key).Nodup := by
  induction cs generalizing l with
  | nil => exact h
  | cons c cs ih => exact ih (nodup_addNew h)

/-- Without a conflict everything is appended. -/
theorem addAllNew_of_nodup (h : ((l ++ cs).map key).Nodup) : addAllNew key l cs = l ++ cs := by
  induction cs generalizing l with
  | nil => simp
  | cons c cs ih =>
      have hc : key c ∉ l.map key := by
        intro hmem
        rw [List.map_append, List.nodup_append] at h
        exact h.2.2 _ hmem _ (by simp) rfl
      rw [addAllNew_cons, addNew_of_notMem hc, ih (by simpa using h)]
      simp

/-- A table filled from the empty one holds all that was offered exactly when no key came
twice. -/
theorem addAllNew_nil_eq_iff : addAllNew key [] cs = cs ↔ (cs.map key).Nodup := by
  constructor
  · intro h
    rw [← h]
    exact nodup_addAllNew List.nodup_nil
  · intro h
    exact addAllNew_of_nodup (by simpa using h)

/-- A unique key finds its row. -/
theorem find?_key (h : (l.map key).Nodup) (hx : x ∈ l) :
    l.find? (fun y => key y = key x) = some x := by
  induction l with
  | nil => cases hx
  | cons y l ih =>
      obtain ⟨hy, hl⟩ := List.nodup_cons.mp h
      cases hx with
      | head => simp
      | tail _ hx =>
          have hne : key y ≠ key x := fun heq => hy (heq ▸ List.mem_map_of_mem hx)
          rw [List.find?_cons_of_neg (by simpa using hne), ih hl hx]

/-! ## Row numbers -/

theorem rowid_lt_nextRowid {r : Row α} (h : r ∈ t) : r.rowid < nextRowid t := by
  unfold nextRowid
  induction t with
  | nil => cases h
  | cons q t ih =>
      cases h with
      | head => simp only [List.foldr_cons]; omega
      | tail _ h =>
          have := ih h
          simp only [List.foldr_cons]
          omega

theorem nextRowid_pos : 0 < nextRowid t := Nat.succ_pos _

theorem ordered_nil : Ordered ([] : Table α) := List.Pairwise.nil

theorem Ordered.insert (h : Ordered t) : Ordered (insert t c) := by
  unfold Ordered Table.insert
  rw [List.pairwise_append]
  refine ⟨h, List.pairwise_singleton _ _, ?_⟩
  intro a ha b hb
  obtain rfl : b = ⟨nextRowid t, c⟩ := by simpa using hb
  exact rowid_lt_nextRowid ha

theorem Ordered.insertNew (h : Ordered t) : Ordered (insertNew key t c) := by
  unfold Table.insertNew
  split
  · exact h
  · exact h.insert

theorem Ordered.insertAllNew (h : Ordered t) : Ordered (insertAllNew key t cs) := by
  induction cs generalizing t with
  | nil => exact h
  | cons c cs ih => exact ih h.insertNew

/-- In an ordered table a row number finds its row. -/
theorem find?_rowid (h : Ordered t) {r : Row α} (hr : r ∈ t) :
    t.find? (fun row => row.rowid = r.rowid) = some r := by
  induction t with
  | nil => cases hr
  | cons q t ih =>
      obtain ⟨hq, ht⟩ := List.pairwise_cons.mp h
      cases hr with
      | head => simp
      | tail _ hr => rw [List.find?_cons_of_neg (by simpa using (hq r hr).ne), ih ht hr]

/-- The latest row is a row. -/
theorem latest_mem {r : Row α} (h : latest t = some r) : r ∈ t := by
  have hfold : ∀ (t : Table α) (best : Option (Row α)),
      t.foldl (fun best row =>
        match best with
        | none => some row
        | some b => if b.rowid < row.rowid then some row else some b) best = some r →
      best = some r ∨ r ∈ t := by
    intro t
    induction t with
    | nil => exact fun best h => .inl h
    | cons row t ih =>
        intro best h
        rcases ih _ h with hbest | hmem
        · cases best with
          | none => exact .inr (by simp_all)
          | some b =>
              by_cases hlt : b.rowid < row.rowid
              · exact .inr (by simp_all)
              · exact .inl (by simpa [hlt] using hbest)
        · exact .inr (List.mem_cons_of_mem row hmem)
  rcases hfold t none h with hnone | hmem
  · cases hnone
  · exact hmem

/-- A table with rows has a latest one. -/
theorem exists_latest (h : t ≠ []) : ∃ r, latest t = some r := by
  have hfold : ∀ (t : Table α) (best : Row α), ∃ r,
      t.foldl (fun best row =>
        match best with
        | none => some row
        | some b => if b.rowid < row.rowid then some row else some b) (some best) = some r := by
    intro t
    induction t with
    | nil => exact fun best => ⟨best, rfl⟩
    | cons row t ih =>
        intro best
        by_cases hlt : best.rowid < row.rowid
        · simpa [hlt] using ih row
        · simpa [hlt] using ih best
  cases t with
  | nil => exact absurd rfl h
  | cons row t => exact hfold t row

/-! ## Updates -/

/-- An update that keeps what a search looks at keeps what it finds, up to the update. -/
theorem find?_columns_update {p q : α → Bool} {f : α → α} (h : ∀ x, p x = true → q (f x) = q x) :
    (columns (update p f t)).find? q =
      ((columns t).find? q).map fun x => if p x then f x else x := by
  have hcolumns : columns (update p f t) = (columns t).map fun x => if p x then f x else x := by
    unfold columns update
    rw [List.map_map, List.map_map]
    refine List.map_congr_left fun row _ => ?_
    by_cases hp : p row.columns = true
    · simp [hp]
    · simp [hp]
  have hsame : (q ∘ fun x => if p x then f x else x) = q := by
    funext x
    by_cases hp : p x = true
    · simp [hp, h x hp]
    · simp [hp]
  rw [hcolumns, List.find?_map, hsame]

/-! ## Sorted reads -/

section OrderBy

variable {β : Type*} [LinearOrder β] {f : α → β}

theorem orderBy_perm : (orderBy f l).Perm l := List.perm_insertionSort _ l

theorem orderBy_pairwise : (orderBy f l).Pairwise fun a b => f a ≤ f b :=
  haveI : Std.Total fun a b : α => f a ≤ f b := ⟨fun a b => le_total (f a) (f b)⟩
  haveI : IsTrans α fun a b => f a ≤ f b := ⟨fun _ _ _ => le_trans⟩
  List.pairwise_insertionSort _ l

/-- The sorted read of a permutation of a strictly increasing list is that list. -/
theorem orderBy_eq_of_perm (hperm : l.Perm cs) (hcs : cs.Pairwise fun a b => f a < f b) :
    orderBy f l = cs := by
  refine List.Perm.eq_of_pairwise ?_ orderBy_pairwise (hcs.imp le_of_lt)
    (orderBy_perm.trans hperm)
  intro a b ha hb hab hba
  have ha' : a ∈ cs := hperm.subset (orderBy_perm.subset ha)
  have hkeys : (cs.map f).Nodup := List.Pairwise.map f (fun _ _ h => ne_of_lt h) hcs
  exact List.inj_on_of_nodup_map hkeys ha' hb (le_antisymm hab hba)

/-- With distinct keys the sorted read is strict. -/
theorem orderBy_pairwise_lt (h : (l.map f).Nodup) :
    (orderBy f l).Pairwise fun a b => f a < f b := by
  have hnodup : ((orderBy f l).map f).Nodup := (orderBy_perm.map f).nodup_iff.mpr h
  rw [List.Nodup, List.pairwise_map] at hnodup
  exact orderBy_pairwise.imp₂ (fun _ _ hle hne => lt_of_le_of_ne hle hne) hnodup

end OrderBy

/-! ## Reading in pages

A reader that takes the first rows past a high-water mark and then moves the mark to the
largest number it has seen goes through a table without a gap. -/

section Pages

variable {f : α → Nat} {last : Nat}

/-- The largest number among rows that were read, or the mark. -/
def highWater (f : α → Nat) (last : Nat) (l : List α) : Nat :=
  l.foldl (fun m x => max m (f x)) last

@[simp] theorem highWater_nil : highWater f last [] = last := rfl

theorem highWater_cons : highWater f last (x :: l) = highWater f (max last (f x)) l := rfl

theorem le_highWater : last ≤ highWater f last l := by
  induction l generalizing last with
  | nil => exact Nat.le_refl last
  | cons x l ih => exact (Nat.le_max_left last (f x)).trans ih

theorem le_highWater_of_mem (hx : x ∈ l) : f x ≤ highWater f last l := by
  induction l generalizing last with
  | nil => cases hx
  | cons y l ih =>
      rw [highWater_cons]
      rcases List.mem_cons.mp hx with rfl | hx
      · exact (Nat.le_max_right last (f x)).trans le_highWater
      · exact ih hx

theorem highWater_mem_or : highWater f last l = last ∨ ∃ x ∈ l, f x = highWater f last l := by
  induction l generalizing last with
  | nil => exact .inl rfl
  | cons x l ih =>
      rw [highWater_cons]
      have hrest : highWater f (max last (f x)) l = max last (f x) ∨
          ∃ y ∈ l, f y = highWater f (max last (f x)) l := ih
      rcases hrest with h | ⟨y, hy, hfy⟩
      · rcases Nat.le_total last (f x) with hle | hle
        · exact .inr ⟨x, List.mem_cons_self, by rw [h, Nat.max_eq_right hle]⟩
        · exact .inl (by rw [h, Nat.max_eq_left hle])
      · exact .inr ⟨y, List.mem_cons_of_mem x hy, hfy⟩

/-- What lies past the new mark is what was not read. -/
theorem filter_highWater_take (h : l.Pairwise fun a b => f a < f b) (hlast : ∀ x ∈ l, last < f x)
    (n : Nat) : l.filter (fun x => highWater f last (l.take n) < f x) = l.drop n := by
  induction n generalizing l last with
  | zero => exact List.filter_eq_self.mpr fun x hx => decide_eq_true (hlast x hx)
  | succ n ih =>
      cases l with
      | nil => rfl
      | cons x l =>
          obtain ⟨hx, hl⟩ := List.pairwise_cons.mp h
          have hmax : max last (f x) = f x := Nat.max_eq_right (hlast x List.mem_cons_self).le
          have hread : ¬ highWater f (f x) (l.take n) < f x := Nat.not_lt.mpr le_highWater
          rw [List.take_succ_cons, highWater_cons, hmax, List.drop_succ_cons, ← ih hl hx]
          simp [hread]

end Pages

end Table
