import Mathlib.Data.List.Perm.Subperm
import Mathlib.Data.List.Nodup
import Mathlib.Data.Set.Function

/-!
# PrivatePayments.Lib.SparseTree

Compressed sparse Merkle trees over any type of keys whose bits are given.

A subtree with one entry is that entry's leaf, at the highest place where it is alone.
`Canonical` says so; the entries then determine the tree (`Canonical.eq_build`), so its
digest does not depend on how it was built.

Insertion and deletion work along the path of a key: `walk` takes the tree apart into
the path and the subtree in its slot, `plug` puts another subtree there, and `prune`
does the same but collapses what has fewer than two entries left.
-/

namespace SparseTree

/-- A binary tree with entries at the leaves. -/
inductive Tree (K V : Type)
  | empty
  | leaf (key : K) (value : V)
  | node (left right : Tree K V)
  deriving DecidableEq

/-- The way from the root to a slot: at each level, the direction and the sibling. -/
abbrev Path (K V : Type) := List (Bool × Tree K V)

namespace Tree

variable {K V : Type}

/-- The entries, from left to right. -/
def entries : Tree K V → List (K × V)
  | empty => []
  | leaf k v => [(k, v)]
  | node l r => l.entries ++ r.entries

/-- The keys of the entries. -/
def keys (t : Tree K V) : List K := t.entries.map Prod.fst

@[simp] theorem entries_empty : (empty : Tree K V).entries = [] := rfl

@[simp] theorem entries_leaf (k : K) (v : V) : (leaf k v).entries = [(k, v)] := rfl

@[simp] theorem entries_node (l r : Tree K V) : (node l r).entries = l.entries ++ r.entries := rfl

@[simp] theorem keys_empty : (empty : Tree K V).keys = [] := rfl

@[simp] theorem keys_leaf (k : K) (v : V) : (leaf k v).keys = [k] := rfl

@[simp] theorem keys_node (l r : Tree K V) : (node l r).keys = l.keys ++ r.keys := by
  simp [keys]

@[simp] theorem length_keys (t : Tree K V) : t.keys.length = t.entries.length := by
  simp [keys]

theorem mem_keys {t : Tree K V} {k : K} : k ∈ t.keys ↔ ∃ v, (k, v) ∈ t.entries := by
  simp [keys]

/-- Whether the tree is an inner node. -/
def isNode : Tree K V → Bool
  | node _ _ => true
  | _ => false

@[simp] theorem isNode_empty : (empty : Tree K V).isNode = false := rfl

@[simp] theorem isNode_leaf (k : K) (v : V) : (leaf k v).isNode = false := rfl

@[simp] theorem isNode_node (l r : Tree K V) : (node l r).isNode = true := rfl

/-! ## Paths -/

/-- A node from the child in a direction and its sibling. -/
def graft (b : Bool) (child sibling : Tree K V) : Tree K V :=
  if b then node sibling child else node child sibling

/-- The tree with `t` in the slot at the end of a path. -/
def plug : Path K V → Tree K V → Tree K V
  | [], t => t
  | (b, s) :: p, t => graft b (plug p t) s

/-- The path that the bits `b` take from level `n`, and the subtree in its slot. -/
def walk (b : ℕ → Bool) : ℕ → Tree K V → Path K V × Tree K V
  | n, node l r =>
      if b n then ((true, l) :: (walk b (n + 1) r).1, (walk b (n + 1) r).2)
      else ((false, r) :: (walk b (n + 1) l).1, (walk b (n + 1) l).2)
  | _, empty => ([], empty)
  | _, leaf k v => ([], leaf k v)

/-- The directions of the path are the bits `b` from level `n` on. -/
def Follows (b : ℕ → Bool) : ℕ → Path K V → Prop
  | _, [] => True
  | n, (c, _) :: p => c = b n ∧ Follows b (n + 1) p

@[simp] theorem plug_nil (t : Tree K V) : plug [] t = t := rfl

@[simp] theorem plug_cons (b : Bool) (s t : Tree K V) (p : Path K V) :
    plug ((b, s) :: p) t = graft b (plug p t) s := rfl

theorem plug_append : ∀ (p q : Path K V) (t : Tree K V), plug (p ++ q) t = plug p (plug q t)
  | [], _, _ => rfl
  | (b, s) :: p, q, t => by simp [plug_append p q t]

@[simp] theorem isNode_graft (b : Bool) (c s : Tree K V) : (graft b c s).isNode = true := by
  cases b <;> rfl

@[simp] theorem follows_nil (b : ℕ → Bool) (n : ℕ) : Follows b n ([] : Path K V) := trivial

@[simp] theorem follows_cons {b : ℕ → Bool} {n : ℕ} {c : Bool} {s : Tree K V} {p : Path K V} :
    Follows b n ((c, s) :: p) ↔ c = b n ∧ Follows b (n + 1) p := Iff.rfl

theorem follows_append {b : ℕ → Bool} : ∀ {n : ℕ} {p q : Path K V},
    Follows b n (p ++ q) ↔ Follows b n p ∧ Follows b (n + p.length) q
  | n, [], q => by simp
  | n, (c, s) :: p, q => by
      rw [List.cons_append, follows_cons, follows_cons, follows_append, List.length_cons,
        and_assoc, Nat.add_right_comm, Nat.add_assoc n]

theorem Follows.getElem? {b : ℕ → Bool} : ∀ {n i : ℕ} {p : Path K V} {c : Bool × Tree K V},
    Follows b n p → p[i]? = some c → c.1 = b (n + i)
  | _, _, [], _, _, hi => by simp at hi
  | n, 0, (c, s) :: p, _, h, hi => by
      simp only [List.getElem?_cons_zero, Option.some.injEq] at hi
      rw [← hi]
      exact h.1
  | n, i + 1, (c, s) :: p, _, h, hi => by
      rw [List.getElem?_cons_succ] at hi
      rw [Follows.getElem? h.2 hi]
      congr 1
      omega

/-- What `walk` returns puts the tree together again. -/
theorem plug_walk (b : ℕ → Bool) : ∀ (n : ℕ) (t : Tree K V),
    plug (walk b n t).1 (walk b n t).2 = t
  | n, node l r => by
      cases hb : b n
      · simp [walk, hb, graft, plug_walk b (n + 1) l]
      · simp [walk, hb, graft, plug_walk b (n + 1) r]
  | _, empty => rfl
  | _, leaf _ _ => rfl

theorem follows_walk (b : ℕ → Bool) : ∀ (n : ℕ) (t : Tree K V), Follows b n (walk b n t).1
  | n, node l r => by
      cases hb : b n
      · simp [walk, hb, follows_walk b (n + 1) l]
      · simp [walk, hb, follows_walk b (n + 1) r]
  | _, empty => trivial
  | _, leaf _ _ => trivial

theorem isNode_walk (b : ℕ → Bool) : ∀ (n : ℕ) (t : Tree K V), (walk b n t).2.isNode = false
  | n, node l r => by
      cases hb : b n
      · simp [walk, hb, isNode_walk b (n + 1) l]
      · simp [walk, hb, isNode_walk b (n + 1) r]
  | _, empty => rfl
  | _, leaf _ _ => rfl

/-- A path ends at a leaf or at an empty slot. -/
theorem walk_ne_node {b : ℕ → Bool} {n : ℕ} {t l r : Tree K V} {p : Path K V} :
    walk b n t ≠ (p, node l r) := by
  intro hw
  have hslot := isNode_walk b n t
  rw [hw] at hslot
  cases hslot

theorem slot_ne_node {b : ℕ → Bool} {n : ℕ} {t l r : Tree K V} :
    (walk b n t).2 ≠ node l r :=
  fun hslot => walk_ne_node (Prod.ext rfl hslot)

theorem graft_ne_empty (b : Bool) (c s : Tree K V) : graft b c s ≠ empty := by
  cases b <;> nofun

/-- The entries of a tree are those of the slot and those of the siblings. -/
theorem entries_graft (b : Bool) (c s : Tree K V) :
    (graft b c s).entries.Perm (c.entries ++ s.entries) := by
  cases b
  · exact List.Perm.refl _
  · exact List.perm_append_comm

theorem mem_keys_graft {b : Bool} {c s : Tree K V} {k : K} :
    k ∈ (graft b c s).keys ↔ k ∈ c.keys ∨ k ∈ s.keys := by
  cases b <;> simp [graft, or_comm]

theorem mem_keys_plug {k : K} {t : Tree K V} : ∀ {p : Path K V},
    k ∈ (plug p t).keys ↔ k ∈ t.keys ∨ ∃ c ∈ p, k ∈ c.2.keys
  | [] => by simp
  | (b, s) :: p => by
      rw [plug_cons, mem_keys_graft, mem_keys_plug, or_assoc]
      simp [or_comm]

/-- A key that is not in the tree is not the one that its walk ends at. -/
theorem ne_of_walk_leaf {b : ℕ → Bool} {n : ℕ} {t : Tree K V} {p : Path K V} {k key : K} {v : V}
    (hw : walk b n t = (p, leaf k v)) (habsent : key ∉ t.keys) : k ≠ key := by
  intro heq
  have hplug := plug_walk b n t
  rw [hw] at hplug
  exact habsent (heq ▸ hplug ▸ mem_keys_plug.mpr (.inl (by simp)))

theorem entries_plug : ∀ (p : Path K V) (t : Tree K V),
    (plug p t).entries.Perm (t.entries ++ p.flatMap fun c => c.2.entries)
  | [], t => by simp
  | (b, s) :: p, t => by
      have ih := entries_plug p t
      calc (graft b (plug p t) s).entries
          _ |>.Perm ((plug p t).entries ++ s.entries) := entries_graft b _ s
          _ |>.Perm ((t.entries ++ p.flatMap fun c => c.2.entries) ++ s.entries) :=
            ih.append_right _
          _ |>.Perm (t.entries ++ ((p.flatMap fun c => c.2.entries) ++ s.entries)) := by
            rw [List.append_assoc]
          _ |>.Perm (t.entries ++ (s.entries ++ p.flatMap fun c => c.2.entries)) :=
            List.perm_append_comm.append_left _

/-! ## Canonical trees -/

section Canonical

variable (bit : K → ℕ → Bool)

/-- The tree is compressed and sorted from level `n` on: an inner node has at least two
entries, and the bit of a key at the level of the node says on which side it is. -/
def Canonical : ℕ → Tree K V → Prop
  | n, node l r =>
      2 ≤ l.entries.length + r.entries.length ∧
      (∀ k ∈ l.keys, bit k n = false) ∧ (∀ k ∈ r.keys, bit k n = true) ∧
      Canonical (n + 1) l ∧ Canonical (n + 1) r
  | _, _ => True

/-- The keys of the tree have the bits `b` at the `m` levels from `n` on. -/
def Along (b : ℕ → Bool) (n m : ℕ) (t : Tree K V) : Prop :=
  ∀ k ∈ t.keys, ∀ i < m, bit k (n + i) = b (n + i)

variable {bit}

@[simp] theorem canonical_empty (n : ℕ) : (empty : Tree K V).Canonical bit n := trivial

@[simp] theorem canonical_leaf (n : ℕ) (k : K) (v : V) : (leaf k v).Canonical bit n := trivial

/-- `Canonical` read in the direction of a path. -/
theorem canonical_graft {n : ℕ} {b : Bool} {c s : Tree K V} :
    (graft b c s).Canonical bit n ↔
      2 ≤ c.entries.length + s.entries.length ∧
      (∀ k ∈ c.keys, bit k n = b) ∧ (∀ k ∈ s.keys, bit k n = !b) ∧
      c.Canonical bit (n + 1) ∧ s.Canonical bit (n + 1) := by
  cases b with
  | false => exact Iff.rfl
  | true =>
    simp only [graft, if_true, Canonical, Bool.not_true]
    rw [Nat.add_comm s.entries.length]
    constructor
    · rintro ⟨h2, hl, hr, cl, cr⟩
      exact ⟨h2, hr, hl, cr, cl⟩
    · rintro ⟨h2, hl, hr, cl, cr⟩
      exact ⟨h2, hr, hl, cr, cl⟩

/-- A canonical tree that is not empty has an entry. -/
theorem Canonical.entries_ne_nil {n : ℕ} {t : Tree K V} (h : t.Canonical bit n)
    (ht : t ≠ empty) : t.entries ≠ [] := by
  cases t with
  | empty => exact absurd rfl ht
  | leaf k v => simp
  | node l r =>
    intro hnil
    have h2 := h.1
    rw [← List.length_append, ← entries_node, hnil] at h2
    simp at h2

theorem Canonical.exists_key {n : ℕ} {t : Tree K V} (h : t.Canonical bit n)
    (ht : t ≠ empty) : ∃ k, k ∈ t.keys := by
  obtain ⟨e, he⟩ := List.exists_mem_of_ne_nil _ (h.entries_ne_nil ht)
  exact ⟨e.1, List.mem_map_of_mem he⟩

theorem Canonical.nodup_keys {t : Tree K V} : ∀ {n : ℕ}, t.Canonical bit n → t.keys.Nodup := by
  induction t with
  | empty => intro _ _; simp
  | leaf k v => intro _ _; simp
  | node l r ihl ihr =>
    intro n h
    obtain ⟨-, hl, hr, cl, cr⟩ := h
    rw [keys_node]
    refine List.Nodup.append (ihl cl) (ihr cr) ?_
    intro k hkl hkr
    have hk := hl k hkl
    rw [hr k hkr] at hk
    cases hk

/-- The slot of a canonical tree is canonical. -/
theorem Canonical.slot : ∀ {n : ℕ} {p : Path K V} {t : Tree K V},
    (plug p t).Canonical bit n → t.Canonical bit (n + p.length)
  | _, [], _, h => h
  | n, (b, s) :: p, t, h => by
      have ih := Canonical.slot (canonical_graft.mp h).2.2.2.1
      rw [List.length_cons, ← Nat.add_assoc, Nat.add_right_comm]
      exact ih

/-- The keys in the slot have the bits of the path. -/
theorem Canonical.along {b : ℕ → Bool} : ∀ {n : ℕ} {p : Path K V} {t : Tree K V},
    (plug p t).Canonical bit n → Follows b n p → Along bit b n p.length t
  | _, [], _, _, _ => fun _ _ _ hi => absurd hi (Nat.not_lt_zero _)
  | n, (c, s) :: p, t, h, hf => by
      obtain ⟨-, hc, -, ct, -⟩ := canonical_graft.mp h
      intro k hk i hi
      cases i with
      | zero => rw [Nat.add_zero, hc k (mem_keys_plug.mpr (Or.inl hk)), hf.1]
      | succ i =>
        have ih := Canonical.along ct hf.2 k hk i (by simpa using hi)
        rwa [Nat.add_right_comm, Nat.add_assoc] at ih

/-- An entry whose key has the bits of the path is in the slot. -/
theorem Canonical.mem_slot {b : ℕ → Bool} {k : K} {v : V} (hk : ∀ i, bit k i = b i) :
    ∀ {n : ℕ} {p : Path K V} {t : Tree K V}, (plug p t).Canonical bit n → Follows b n p →
      ((k, v) ∈ (plug p t).entries ↔ (k, v) ∈ t.entries)
  | _, [], _, _, _ => Iff.rfl
  | n, (c, s) :: p, t, h, hf => by
      obtain ⟨-, -, hs, ct, -⟩ := canonical_graft.mp h
      rw [plug_cons, (entries_graft c (plug p t) s).mem_iff, List.mem_append,
        Canonical.mem_slot hk ct hf.2]
      refine or_iff_left ?_
      intro hmem
      have hbit := hs k (mem_keys.mpr ⟨v, hmem⟩)
      rw [hk n, hf.1] at hbit
      cases hb : b n <;> simp [hb] at hbit

/-- A path ends in a leaf when some number of its bits is that of the leaf's key alone. -/
theorem Canonical.walk_eq_leaf_iff {b : ℕ → Bool} {k : K} {v : V} {t : Tree K V} :
    ∀ {n : ℕ}, t.Canonical bit n →
      ((walk b n t).2 = leaf k v ↔
        (k, v) ∈ t.entries ∧
          ∃ d, ∀ k' ∈ t.keys, (∀ i < d, bit k' (n + i) = b (n + i)) ↔ k' = k) := by
  induction t with
  | empty => intro n _; simp [walk]
  | leaf k₁ v₁ =>
      intro n _
      constructor
      · rintro ⟨⟩
        exact ⟨by simp, 0, fun k' hk' => by simpa using hk'⟩
      · rintro ⟨hmem, -⟩
        cases List.mem_singleton.mp hmem
        rfl
  | node l r ihl ihr =>
      intro n h
      have hnodup := h.nodup_keys
      obtain ⟨h2, hl, hr, cl, cr⟩ := h
      -- the side of the path, the other side, and what is said about them
      have hside : ∀ {c s : Tree K V} {x : Bool}, (∀ k' ∈ c.keys, bit k' n = x) →
          (∀ k' ∈ s.keys, bit k' n = !x) → b n = x →
          (∀ k', k' ∈ (node l r).keys ↔ k' ∈ c.keys ∨ k' ∈ s.keys) →
          (∀ e, e ∈ (node l r).entries ↔ e ∈ c.entries ∨ e ∈ s.entries) →
          (((k, v) ∈ c.entries ∧
              ∃ d, ∀ k' ∈ c.keys, (∀ i < d, bit k' (n + 1 + i) = b (n + 1 + i)) ↔ k' = k) ↔
            ((k, v) ∈ (node l r).entries ∧
              ∃ d, ∀ k' ∈ (node l r).keys, (∀ i < d, bit k' (n + i) = b (n + i)) ↔ k' = k)) := by
        intro c s x hc hs hx hkeys hentries
        have hsplit : ∀ (k' : K) (d : ℕ), (∀ i < d + 1, bit k' (n + i) = b (n + i)) ↔
            bit k' n = x ∧ ∀ i < d, bit k' (n + 1 + i) = b (n + 1 + i) := by
          intro k' d
          rw [Nat.forall_lt_succ_left, Nat.add_zero, hx]
          refine and_congr_right fun _ => forall_congr' fun i => imp_congr_right fun _ => ?_
          rw [Nat.add_right_comm, Nat.add_assoc]
        constructor
        · rintro ⟨hmem, d, hd⟩
          refine ⟨(hentries _).mpr (Or.inl hmem), d + 1, fun k' hk' => ?_⟩
          rw [hsplit]
          rcases (hkeys k').mp hk' with hk' | hk'
          · rw [hd k' hk']
            exact and_iff_right (hc k' hk')
          · refine iff_of_false (fun h => ?_) ?_
            · rw [hs k' hk'] at h
              cases x <;> cases h.1
            · rintro rfl
              have hbit := hc k' (mem_keys.mpr ⟨v, hmem⟩)
              rw [hs k' hk'] at hbit
              cases x <;> cases hbit
        · rintro ⟨hmem, d, hd⟩
          have hkmem : k ∈ (node l r).keys := mem_keys.mpr ⟨v, hmem⟩
          cases d with
          | zero =>
              -- then there is only one key, but an inner node has two entries
              have hall : ∀ k' ∈ (node l r).keys, k' = k := fun k' hk' =>
                (hd k' hk').mp fun i hi => absurd hi (Nat.not_lt_zero i)
              have hone : (node l r).keys.length ≤ 1 :=
                (hnodup.subperm fun k' hk' =>
                  List.mem_singleton.mpr (hall k' hk')).length_le
              rw [keys, List.length_map, entries_node, List.length_append] at hone
              omega
          | succ d =>
              have hbits := (hsplit k d).mp ((hd k hkmem).mpr rfl)
              have hkc : (k, v) ∈ c.entries := by
                rcases (hentries _).mp hmem with hc' | hs'
                · exact hc'
                · have hbit := hs k (mem_keys.mpr ⟨v, hs'⟩)
                  rw [hbits.1] at hbit
                  cases x <;> cases hbit
              refine ⟨hkc, d, fun k' hk' => ?_⟩
              have hd' := hd k' ((hkeys k').mpr (Or.inl hk'))
              rw [hsplit, and_iff_right (hc k' hk')] at hd'
              exact hd'
      cases hb : b n with
      | false =>
          rw [walk, hb]
          refine (ihl cl).trans (hside hl (by simpa using hr) hb (fun k' => ?_) fun e => ?_)
          · rw [keys_node, List.mem_append]
          · rw [entries_node, List.mem_append]
      | true =>
          rw [walk, hb]
          refine (ihr cr).trans (hside hr (by simpa using hl) hb (fun k' => ?_) fun e => ?_)
          · rw [keys_node, List.mem_append, or_comm]
          · rw [entries_node, List.mem_append, or_comm]

theorem Along.tail {b : ℕ → Bool} {n m : ℕ} {t : Tree K V} (h : Along bit b n (m + 1) t) :
    Along bit b (n + 1) m t := by
  intro k hk i hi
  have hki := h k hk (i + 1) (Nat.succ_lt_succ hi)
  rwa [← Nat.add_assoc, Nat.add_right_comm] at hki

/-- What is put into the slot along the path stays on its side of each node. -/
theorem side_plug {b : ℕ → Bool} {n : ℕ} {p : Path K V} {t t' : Tree K V} {m : ℕ}
    (h : ∀ k ∈ (plug p t).keys, bit k n = b n) (ha : Along bit b n (m + 1) t') :
    ∀ k ∈ (plug p t').keys, bit k n = b n := by
  intro k hk
  rcases mem_keys_plug.mp hk with ht | hp
  · exact ha k ht 0 (Nat.succ_pos m)
  · exact h k (mem_keys_plug.mpr (Or.inr hp))

/-- Another subtree in the slot, with no fewer entries and all of them along the path. -/
theorem Canonical.replace {b : ℕ → Bool} : ∀ {n : ℕ} {p : Path K V} {t t' : Tree K V},
    (plug p t).Canonical bit n → Follows b n p → t'.Canonical bit (n + p.length) →
      Along bit b n p.length t' → t.entries.length ≤ t'.entries.length →
      (plug p t').Canonical bit n
  | _, [], _, _, _, _, h', _, _ => h'
  | n, (c, s) :: p, t, t', h, hf, h', ha, hle => by
      obtain ⟨h2, hc, hs, ct, cs⟩ := canonical_graft.mp h
      obtain ⟨rfl, hf⟩ := hf
      have ih := Canonical.replace ct hf
        (by rwa [List.length_cons, ← Nat.add_assoc, Nat.add_right_comm] at h') ha.tail hle
      refine canonical_graft.mpr ⟨?_, side_plug hc ha, hs, ih, cs⟩
      rw [(entries_plug p t).length_eq, List.length_append] at h2
      rw [(entries_plug p t').length_eq, List.length_append]
      omega

/-! ## Collapsing -/

/-- A node of two subtrees that is compressed when it has fewer than two entries. -/
def join (b : Bool) (child sibling : Tree K V) : Tree K V :=
  match child, sibling with
  | empty, empty => empty
  | empty, leaf k v => leaf k v
  | leaf k v, empty => leaf k v
  | child, sibling => graft b child sibling

/-- `plug`, compressed. -/
def prune : Path K V → Tree K V → Tree K V
  | [], t => t
  | (b, s) :: p, t => join b (prune p t) s

@[simp] theorem prune_nil (t : Tree K V) : prune [] t = t := rfl

@[simp] theorem prune_cons (b : Bool) (s t : Tree K V) (p : Path K V) :
    prune ((b, s) :: p) t = join b (prune p t) s := rfl

theorem prune_append : ∀ (p q : Path K V) (t : Tree K V),
    prune (p ++ q) t = prune p (prune q t)
  | [], _, _ => rfl
  | (b, s) :: p, q, t => by simp [prune_append p q t]

@[simp] theorem join_empty_leaf (b : Bool) (k : K) (v : V) :
    join b empty (leaf k v) = leaf k v := rfl

/-- Without a sibling there is nothing to join a leaf or an empty slot with. -/
theorem join_empty_right (b : Bool) {t : Tree K V} (h : t.isNode = false) :
    join b t empty = t := by
  cases t with
  | node l r => cases h
  | _ => rfl

theorem join_of_isNode_left (b : Bool) {t s : Tree K V} (h : t.isNode = true) :
    join b t s = graft b t s := by
  cases t with
  | node l r => rfl
  | _ => cases h

theorem join_of_isNode_right (b : Bool) {t s : Tree K V} (h : s.isNode = true) :
    join b t s = graft b t s := by
  cases s with
  | node l r => cases t <;> rfl
  | _ => cases h

theorem join_of_ne_empty (b : Bool) {t s : Tree K V} (ht : t ≠ empty) (hs : s ≠ empty) :
    join b t s = graft b t s := by
  cases t with
  | empty => exact absurd rfl ht
  | node l r => rfl
  | leaf k v =>
    cases s with
    | empty => exact absurd rfl hs
    | _ => rfl

theorem join_eq_empty {b : Bool} {t s : Tree K V} (h : join b t s = empty) :
    t = empty ∧ s = empty := by
  cases t <;> cases s <;> cases b <;> first | exact ⟨rfl, rfl⟩ | cases h

theorem prune_eq_empty {t : Tree K V} : ∀ {p : Path K V}, prune p t = empty →
    t = empty ∧ ∀ c ∈ p, c.2 = empty
  | [], h => ⟨h, by simp⟩
  | (b, s) :: p, h => by
      obtain ⟨hp, hs⟩ := join_eq_empty h
      obtain ⟨ht, hc⟩ := prune_eq_empty hp
      exact ⟨ht, List.forall_mem_cons.mpr ⟨hs, hc⟩⟩

theorem entries_join (b : Bool) (c s : Tree K V) :
    (join b c s).entries.Perm (c.entries ++ s.entries) := by
  cases c <;> cases s <;> first | exact entries_graft b _ _ | simp [join]

theorem entries_prune : ∀ (p : Path K V) (t : Tree K V),
    (prune p t).entries.Perm (plug p t).entries
  | [], _ => List.Perm.refl _
  | (b, s) :: p, t =>
      ((entries_join b _ s).trans ((entries_prune p t).append_right _)).trans
        (entries_graft b _ s).symm

theorem mem_keys_prune {p : Path K V} {t : Tree K V} {k : K} :
    k ∈ (prune p t).keys ↔ k ∈ (plug p t).keys :=
  ((entries_prune p t).map Prod.fst).mem_iff

theorem Canonical.join {n : ℕ} {b : Bool} {c s : Tree K V} (hc : ∀ k ∈ c.keys, bit k n = b)
    (hs : ∀ k ∈ s.keys, bit k n = !b) (cc : c.Canonical bit (n + 1))
    (cs : s.Canonical bit (n + 1)) : (join b c s).Canonical bit n := by
  have node2 {l r : Tree K V} (h : (node l r).Canonical bit (n + 1)) :
      2 ≤ l.entries.length + r.entries.length := h.1
  cases c with
  | empty =>
    cases s with
    | node l r => exact canonical_graft.mpr ⟨by simpa using node2 cs, hc, hs, cc, cs⟩
    | _ => trivial
  | leaf k v =>
    cases s with
    | empty => trivial
    | leaf k' v' => exact canonical_graft.mpr ⟨by simp, hc, hs, cc, cs⟩
    | node l r =>
      refine canonical_graft.mpr ⟨?_, hc, hs, cc, cs⟩
      have := node2 cs
      rw [entries_node, List.length_append]
      omega
  | node l r =>
    refine canonical_graft.mpr ⟨?_, hc, hs, cc, cs⟩
    have := node2 cc
    rw [entries_node, List.length_append]
    omega

/-- Another subtree in the slot, whatever its size, when the path is collapsed. -/
theorem Canonical.prune {b : ℕ → Bool} : ∀ {n : ℕ} {p : Path K V} {t t' : Tree K V},
    (plug p t).Canonical bit n → Follows b n p → t'.Canonical bit (n + p.length) →
      Along bit b n p.length t' → (prune p t').Canonical bit n
  | _, [], _, _, _, _, h', _ => h'
  | n, (c, s) :: p, t, t', h, hf, h', ha => by
      obtain ⟨-, hc, hs, ct, cs⟩ := canonical_graft.mp h
      obtain ⟨rfl, hf⟩ := hf
      have ih := Canonical.prune ct hf
        (by rwa [List.length_cons, ← Nat.add_assoc, Nat.add_right_comm] at h') ha.tail
      exact Canonical.join (fun k hk => side_plug hc ha k (mem_keys_prune.mp hk)) hs ih cs

/-- The deepest sibling of a canonical tree makes up for what the slot lacks. -/
theorem Canonical.last_sibling {n : ℕ} {p : Path K V} {c : Bool × Tree K V} {t : Tree K V}
    (h : (plug (p ++ [c]) t).Canonical bit n) :
    2 ≤ t.entries.length + c.2.entries.length := by
  rw [plug_append] at h
  exact (canonical_graft.mp h.slot).1

/-- A canonical tree is no deeper than the bits that tell its keys apart. -/
theorem Canonical.length_le {b : ℕ → Bool} {depth : ℕ}
    (hbit : ∀ k k', (∀ i < depth, bit k i = bit k' i) → k = k') {p : Path K V} {t : Tree K V}
    (h : (plug p t).Canonical bit 0) (hf : Follows b 0 p) : p.length ≤ depth := by
  rcases List.eq_nil_or_concat' p with rfl | ⟨q, c, rfl⟩
  · exact Nat.zero_le _
  rw [plug_append] at h
  obtain ⟨hf, -⟩ := follows_append.mp hf
  have hnd := h.slot.nodup_keys
  have h2 : 2 ≤ (plug [c] t).keys.length := by
    have hlast := (canonical_graft.mp h.slot).1
    rw [length_keys, plug_cons, (entries_graft _ _ _).length_eq, List.length_append]
    exact hlast
  obtain ⟨k, k', rest, hkeys⟩ : ∃ k k' rest, (plug [c] t).keys = k :: k' :: rest := by
    match hk : (plug [c] t).keys, h2 with
    | k :: k' :: rest, _ => exact ⟨k, k', rest, rfl⟩
  rw [hkeys] at hnd
  have hne : k ≠ k' := fun he => by simp [he] at hnd
  by_contra hlt
  rw [List.length_append, List.length_singleton] at hlt
  refine hne (hbit k k' fun i hi => ?_)
  have ha := h.along hf
  have hk := ha k (by simp [hkeys]) i (by omega)
  have hk' := ha k' (by simp [hkeys]) i (by omega)
  rw [Nat.zero_add] at hk hk'
  rw [hk, hk']

/-! ## Two leaves in one slot -/

/-- The path below a slot at level `n` that leads to a place for a new leaf beside the
leaf `old`, when the two keys have the first `m` bits in common. -/
def fork (b : ℕ → Bool) (old : Tree K V) : ℕ → ℕ → Path K V
  | n, 0 => [(b n, old)]
  | n, m + 1 => (b n, empty) :: fork b old (n + 1) m

@[simp] theorem length_fork (b : ℕ → Bool) (old : Tree K V) :
    ∀ n m, (fork b old n m).length = m + 1
  | _, 0 => rfl
  | n, m + 1 => by simp [fork, length_fork b old (n + 1) m]

theorem follows_fork (b : ℕ → Bool) (old : Tree K V) : ∀ n m, Follows b n (fork b old n m)
  | _, 0 => ⟨rfl, trivial⟩
  | n, m + 1 => ⟨rfl, follows_fork b old (n + 1) m⟩

theorem flatMap_fork (b : ℕ → Bool) (old : Tree K V) :
    ∀ n m, ((fork b old n m).flatMap fun c => c.2.entries) = old.entries
  | _, 0 => by simp [fork]
  | n, m + 1 => by simp [fork, flatMap_fork b old (n + 1) m]

theorem mem_fork {b : ℕ → Bool} {old : Tree K V} {c : Bool × Tree K V} : ∀ {n m : ℕ},
    c ∈ fork b old n m → c.2 = empty ∨ c.2 = old
  | _, 0, h => by
      rw [List.mem_singleton.mp h]
      exact Or.inr rfl
  | _, m + 1, h => by
      rcases List.mem_cons.mp h with rfl | h
      · exact Or.inl rfl
      · exact mem_fork h

theorem exists_mem_fork (b : ℕ → Bool) (old : Tree K V) : ∀ n m, ∃ c ∈ fork b old n m, c.2 = old
  | n, 0 => ⟨(b n, old), List.mem_singleton_self _, rfl⟩
  | n, m + 1 => by
      obtain ⟨c, hc, hold⟩ := exists_mem_fork b old (n + 1) m
      exact ⟨c, List.mem_cons_of_mem _ hc, hold⟩

theorem mem_keys_fork {b : ℕ → Bool} {k k' k₁ : K} {v v' : V} {n m : ℕ} :
    k₁ ∈ (plug (fork b (leaf k' v') n m) (leaf k v)).keys ↔ k₁ = k ∨ k₁ = k' := by
  have hperm := (entries_plug (fork b (leaf k' v') n m) (leaf k v)).map Prod.fst
  rw [keys, hperm.mem_iff, flatMap_fork]
  simp

theorem canonical_fork {k k' : K} {v v' : V} : ∀ {n m : ℕ},
    (∀ i < m, bit k' (n + i) = bit k (n + i)) → bit k' (n + m) ≠ bit k (n + m) →
      (plug (fork (bit k) (leaf k' v') n m) (leaf k v)).Canonical bit n
  | n, 0, _, hne => by
      refine canonical_graft.mpr ⟨by simp, by simp, ?_, trivial, trivial⟩
      intro k₁ hk
      rw [keys_leaf, List.mem_singleton] at hk
      rw [hk]
      cases hb : bit k n <;> cases hb' : bit k' n <;> simp_all
  | n, m + 1, heq, hne => by
      have ih : (plug (fork (bit k) (leaf k' v') (n + 1) m) (leaf k v)).Canonical bit (n + 1) := by
        refine canonical_fork (fun i hi => ?_) ?_
        · have := heq (i + 1) (by omega)
          rwa [← Nat.add_assoc, Nat.add_right_comm] at this
        · rwa [← Nat.add_assoc, Nat.add_right_comm] at hne
      refine canonical_graft.mpr ⟨?_, ?_, by simp, ih, trivial⟩
      · rw [(entries_plug _ _).length_eq, List.length_append, flatMap_fork]
        simp
      · intro k₁ hk
        rcases mem_keys_fork.mp hk with rfl | rfl
        · rfl
        · exact heq 0 (by omega)

/-! ## Subtrees -/

/-- The subtrees, the tree itself included. -/
def subtrees : Tree K V → List (Tree K V)
  | node l r => node l r :: (l.subtrees ++ r.subtrees)
  | t => [t]

/-- The nodes of a path, from the root down, with `t` in its slot. -/
def spine : Path K V → Tree K V → List (Tree K V)
  | [], _ => []
  | c :: p, t => plug (c :: p) t :: spine p t

theorem spine_append : ∀ (p q : Path K V) (t : Tree K V),
    spine (p ++ q) t = spine p (plug q t) ++ spine q t
  | [], _, _ => rfl
  | c :: p, q, t => by
      rw [List.cons_append, spine, spine, spine_append p q t, List.cons_append,
        ← plug_append (c :: p) q t, List.cons_append]

theorem mem_subtrees_self (t : Tree K V) : t ∈ t.subtrees := by
  cases t <;> simp [subtrees]

theorem mem_subtrees_graft {b : Bool} {c s w : Tree K V} :
    w ∈ (graft b c s).subtrees ↔ w = graft b c s ∨ w ∈ c.subtrees ∨ w ∈ s.subtrees := by
  cases b
  · simp [graft, subtrees]
  · simp [graft, subtrees, or_comm (a := w ∈ c.subtrees)]

/-- Collapsing keeps the subtrees of both sides. -/
theorem mem_subtrees_join {b : Bool} {c s w : Tree K V} (hw : w ≠ empty)
    (h : w ∈ c.subtrees ∨ w ∈ s.subtrees) : w ∈ (join b c s).subtrees := by
  cases c with
  | empty =>
    have hs : w ∈ s.subtrees := h.resolve_left fun hc => hw (List.mem_singleton.mp hc)
    cases s with
    | node l r => exact mem_subtrees_graft.mpr (Or.inr (Or.inr hs))
    | _ => exact hs
  | leaf k v =>
    cases s with
    | empty => exact h.resolve_right fun hs => hw (List.mem_singleton.mp hs)
    | _ => exact mem_subtrees_graft.mpr (Or.inr h)
  | node l r => exact mem_subtrees_graft.mpr (Or.inr h)

theorem mem_subtrees_prune {w t : Tree K V} (hw : w ≠ empty) : ∀ {p : Path K V},
    (∃ c ∈ p, w ∈ c.2.subtrees) → w ∈ (prune p t).subtrees
  | [], h => by simp at h
  | (b, s) :: p, h => by
      rw [List.exists_mem_cons_iff] at h
      exact mem_subtrees_join hw (h.symm.imp_left (mem_subtrees_prune hw))

theorem mem_subtrees_plug {w t : Tree K V} : ∀ {p : Path K V},
    w ∈ (plug p t).subtrees ↔ w ∈ spine p t ∨ w ∈ t.subtrees ∨ ∃ c ∈ p, w ∈ c.2.subtrees
  | [] => by simp [spine]
  | (b, s) :: p => by
      rw [plug_cons, mem_subtrees_graft, mem_subtrees_plug, spine, List.mem_cons, plug_cons]
      rw [List.exists_mem_cons_iff, or_assoc, or_assoc, or_assoc, or_comm (a := ∃ c ∈ p, _)]

theorem sizeOf_le_of_mem_subtrees {w t : Tree K V} (h : w ∈ t.subtrees) :
    sizeOf w ≤ sizeOf t := by
  induction t with
  | node l r ihl ihr =>
    simp only [subtrees, List.mem_cons, List.mem_append] at h
    rcases h with rfl | hl | hr
    · exact le_refl _
    · have := ihl hl
      simp only [node.sizeOf_spec]
      omega
    · have := ihr hr
      simp only [node.sizeOf_spec]
      omega
  | _ => rw [List.mem_singleton.mp h]

theorem mem_subtrees_trans {w u t : Tree K V} (hw : w ∈ u.subtrees) (hu : u ∈ t.subtrees) :
    w ∈ t.subtrees := by
  induction t with
  | node l r ihl ihr =>
    simp only [subtrees, List.mem_cons, List.mem_append] at hu
    rcases hu with rfl | hl | hr
    · exact hw
    · simp [subtrees, ihl hl]
    · simp [subtrees, ihr hr]
  | _ =>
    rw [List.mem_singleton.mp hu] at hw
    exact hw

/-- No tree is a subtree of its children. -/
theorem graft_ne_of_mem_subtrees {b : Bool} {c s w : Tree K V}
    (h : w ∈ c.subtrees ∨ w ∈ s.subtrees) : w ≠ graft b c s := by
  rintro rfl
  have hle : sizeOf (graft b c s) ≤ sizeOf c ∨ sizeOf (graft b c s) ≤ sizeOf s :=
    h.imp sizeOf_le_of_mem_subtrees sizeOf_le_of_mem_subtrees
  cases b <;> simp only [graft, if_true, Bool.false_eq_true, if_false, node.sizeOf_spec] at hle <;>
    omega

theorem Canonical.of_mem_subtrees {t w : Tree K V} : ∀ {n : ℕ}, t.Canonical bit n →
    w ∈ t.subtrees → ∃ m, w.Canonical bit m := by
  induction t with
  | node l r ihl ihr =>
    intro n h hw
    simp only [subtrees, List.mem_cons, List.mem_append] at hw
    rcases hw with rfl | hl | hr
    · exact ⟨n, h⟩
    · exact ihl h.2.2.2.1 hl
    · exact ihr h.2.2.2.2 hr
  | _ => exact fun _ hw => ⟨0, by rw [List.mem_singleton.mp hw]; trivial⟩

theorem keys_subset_of_mem_subtrees {t w : Tree K V} (h : w ∈ t.subtrees) :
    w.keys ⊆ t.keys := by
  induction t with
  | node l r ihl ihr =>
    simp only [subtrees, List.mem_cons, List.mem_append] at h
    rw [keys_node]
    rcases h with rfl | hl | hr
    · rw [keys_node]
      exact List.Subset.refl _
    · exact fun k hk => List.mem_append_left _ (ihl hl hk)
    · exact fun k hk => List.mem_append_right _ (ihr hr hk)
  | _ => rw [List.mem_singleton.mp h]; exact List.Subset.refl _

theorem mem_subtrees_of_mem_spine {p : Path K V} {t w : Tree K V} (h : w ∈ spine p t) :
    w ∈ (plug p t).subtrees := mem_subtrees_plug.mpr (Or.inl h)

/-- The nodes of a path contain what is in the slot. -/
theorem keys_subset_of_mem_spine {t w : Tree K V} : ∀ {p : Path K V}, w ∈ spine p t →
    t.keys ⊆ w.keys
  | (b, s) :: p, h => by
      rcases List.mem_cons.mp h with rfl | h
      · exact fun k hk => mem_keys_plug.mpr (Or.inl hk)
      · exact keys_subset_of_mem_spine h

theorem isNode_of_mem_spine {t w : Tree K V} : ∀ {p : Path K V}, w ∈ spine p t →
    w.isNode = true
  | (b, s) :: p, h => by
      rcases List.mem_cons.mp h with rfl | h
      · exact isNode_graft b _ s
      · exact isNode_of_mem_spine h

/-- The siblings of a path are apart from its nodes. -/
theorem Canonical.not_mem_spine : ∀ {n : ℕ} {p : Path K V} {t w : Tree K V},
    (plug p t).Canonical bit n → w ≠ empty → (∃ c ∈ p, w ∈ c.2.subtrees) → w ∉ spine p t
  | n, (b, s) :: p, t, w, h, hw, hmem => by
      obtain ⟨-, hc, hs, ct, cs⟩ := canonical_graft.mp h
      have hne : w ≠ plug ((b, s) :: p) t := by
        refine graft_ne_of_mem_subtrees ?_
        obtain ⟨c, hcp, hwc⟩ := hmem
        rcases List.mem_cons.mp hcp with rfl | hcp
        · exact Or.inr hwc
        · exact Or.inl (mem_subtrees_plug.mpr (Or.inr (Or.inr ⟨c, hcp, hwc⟩)))
      have htail : w ∉ spine p t := by
        intro hsp
        obtain ⟨c, hcp, hwc⟩ := hmem
        rcases List.mem_cons.mp hcp with rfl | hcp
        · -- the sibling and the child at this level have no key in common
          obtain ⟨m, cw⟩ := cs.of_mem_subtrees hwc
          obtain ⟨k, hk⟩ := cw.exists_key hw
          have h₁ := hs k (keys_subset_of_mem_subtrees hwc hk)
          rw [hc k (keys_subset_of_mem_subtrees (mem_subtrees_of_mem_spine hsp) hk)] at h₁
          cases b <;> cases h₁
        · exact Canonical.not_mem_spine ct hw ⟨c, hcp, hwc⟩ hsp
      exact fun hsp => (List.mem_cons.mp hsp).elim hne htail

/-! ## The tree of a list of entries -/

variable (bit) in
/-- The canonical tree of some entries at level `n`; `fuel` is how many bits of the keys
are left. -/
def build : ℕ → ℕ → List (K × V) → Tree K V
  | _, _, [] => empty
  | _, _, [(k, v)] => leaf k v
  | 0, _, _ => empty
  | fuel + 1, n, es =>
      node (build fuel (n + 1) (es.filter fun e => !bit e.1 n))
        (build fuel (n + 1) (es.filter fun e => bit e.1 n))

theorem build_succ {fuel n : ℕ} {es : List (K × V)} (h : 2 ≤ es.length) :
    build bit (fuel + 1) n es =
      node (build bit fuel (n + 1) (es.filter fun e => !bit e.1 n))
        (build bit fuel (n + 1) (es.filter fun e => bit e.1 n)) := by
  match es, h with
  | _ :: _ :: _, _ => rfl

/-- The entries of a canonical tree determine it. -/
theorem Canonical.eq_build {depth : ℕ}
    (hbit : ∀ k k', (∀ i < depth, bit k i = bit k' i) → k = k') {t : Tree K V} :
    ∀ {n fuel : ℕ} {es : List (K × V)}, t.Canonical bit n → n + fuel = depth →
      (∀ k ∈ t.keys, ∀ k' ∈ t.keys, ∀ i < n, bit k i = bit k' i) → t.entries.Perm es →
        build bit fuel n es = t := by
  induction t with
  | empty =>
    intro n fuel es _ _ _ hes
    rw [(List.nil_perm.mp hes : es = [])]
    cases fuel <;> rfl
  | leaf k v =>
    intro n fuel es _ _ _ hes
    rw [← (List.singleton_perm.mp hes : [(k, v)] = es)]
    cases fuel <;> rfl
  | node l r ihl ihr =>
    intro n fuel es h hn hsame hes
    have hnd := h.nodup_keys
    obtain ⟨h2, hl, hr, cl, cr⟩ := h
    have hlen : 2 ≤ es.length := by
      rw [← hes.length_eq, entries_node, List.length_append]
      exact h2
    cases fuel with
    | zero =>
      -- two keys with all their bits in common
      exfalso
      match hk : (node l r).keys with
      | [] | [_] =>
        have := congrArg List.length hk
        rw [length_keys, hes.length_eq] at this
        simp only [List.length_nil, List.length_singleton] at this
        omega
      | k :: k' :: rest =>
        rw [hk] at hnd
        have he : k = k' := hbit k k' fun i hi =>
          hsame k (by simp [hk]) k' (by simp [hk]) i (by omega)
        simp [he] at hnd
    | succ fuel =>
      have hbl : ∀ e ∈ l.entries, bit e.1 n = false := fun e he => hl e.1 (List.mem_map_of_mem he)
      have hbr : ∀ e ∈ r.entries, bit e.1 n = true := fun e he => hr e.1 (List.mem_map_of_mem he)
      have hfl : ((node l r).entries.filter fun e => !bit e.1 n) = l.entries := by
        rw [entries_node, List.filter_append, List.filter_eq_self.mpr (by simpa using hbl),
          List.filter_eq_nil_iff.mpr (by simpa using hbr), List.append_nil]
      have hfr : ((node l r).entries.filter fun e => bit e.1 n) = r.entries := by
        rw [entries_node, List.filter_append, List.filter_eq_nil_iff.mpr (by simpa using hbl),
          List.filter_eq_self.mpr (by simpa using hbr), List.nil_append]
      have hstep {c : Tree K V} {side : Bool} (hc : ∀ k ∈ c.keys, bit k n = side)
          (hsub : c.keys ⊆ (node l r).keys) :
          ∀ k ∈ c.keys, ∀ k' ∈ c.keys, ∀ i < n + 1, bit k i = bit k' i := by
        intro k hk k' hk' i hi
        rcases Nat.lt_succ_iff_lt_or_eq.mp hi with hi | rfl
        · exact hsame k (hsub hk) k' (hsub hk') i hi
        · rw [hc k hk, hc k' hk']
      rw [build_succ hlen,
        ihl cl (by omega) (hstep hl (by simp)) (hfl ▸ hes.filter _),
        ihr cr (by omega) (hstep hr (by simp)) (hfr ▸ hes.filter _)]

end Canonical

/-! ## Digests -/

/-- What the digest of a tree that is not empty is computed from. -/
inductive Call (K V H : Type)
  | leaf (key : K) (value : V)
  | node (left right : H)
  deriving DecidableEq

section Digest

variable {H : Type} (hash : Call K V H → H) (zero : H)

/-- The digest of a tree. -/
def digest : Tree K V → H
  | empty => zero
  | leaf k v => hash (.leaf k v)
  | node l r => hash (.node l.digest r.digest)

/-- The calls behind the digest of a tree. -/
def calls : Tree K V → List (Call K V H)
  | empty => []
  | leaf k v => [.leaf k v]
  | node l r => .node (l.digest hash zero) (r.digest hash zero) :: (l.calls ++ r.calls)

/-- The digest above a slot, from the digests of the siblings. -/
def climb (b : ℕ → Bool) : ℕ → List H → H → H
  | _, [], h => h
  | n, s :: siblings, h =>
      let h := climb b (n + 1) siblings h
      if b n then hash (.node s h) else hash (.node h s)

/-- The calls on the way up from a slot. -/
def climbCalls (b : ℕ → Bool) : ℕ → List H → H → List (Call K V H)
  | _, [], _ => []
  | n, s :: siblings, h =>
      let h' := climb hash b (n + 1) siblings h
      (if b n then .node s h' else .node h' s) :: climbCalls b (n + 1) siblings h

variable {hash zero}

theorem calls_subset_of_mem_subtrees {t w : Tree K V} (h : w ∈ t.subtrees) :
    w.calls hash zero ⊆ t.calls hash zero := by
  induction t with
  | node l r ihl ihr =>
    simp only [subtrees, List.mem_cons, List.mem_append] at h
    rcases h with rfl | hl | hr
    · exact List.Subset.refl _
    · exact fun c hc => List.mem_cons_of_mem _ (List.mem_append_left _ (ihl hl hc))
    · exact fun c hc => List.mem_cons_of_mem _ (List.mem_append_right _ (ihr hr hc))
  | _ => rw [List.mem_singleton.mp h]; exact List.Subset.refl _

theorem calls_subset_join (b : Bool) (c s : Tree K V) :
    c.calls hash zero ⊆ (join b c s).calls hash zero := by
  cases c with
  | empty => exact List.nil_subset _
  | leaf k v =>
    cases s with
    | empty => exact List.Subset.refl _
    | _ => exact calls_subset_of_mem_subtrees (mem_subtrees_graft.mpr (Or.inr (Or.inl (by simp [subtrees]))))
  | node l r =>
    exact calls_subset_of_mem_subtrees
      (mem_subtrees_graft.mpr (Or.inr (Or.inl (mem_subtrees_self _))))

theorem digest_graft (b : Bool) (c s : Tree K V) :
    (graft b c s).digest hash zero =
      if b then hash (.node (s.digest hash zero) (c.digest hash zero))
      else hash (.node (c.digest hash zero) (s.digest hash zero)) := by
  cases b <;> rfl

/-- The digest of a tree is found by climbing any path of it. -/
theorem digest_plug {b : ℕ → Bool} : ∀ {n : ℕ} {p : Path K V} {t : Tree K V}, Follows b n p →
    (plug p t).digest hash zero =
      climb hash b n (p.map fun c => c.2.digest hash zero) (t.digest hash zero)
  | _, [], _, _ => rfl
  | n, (c, s) :: p, t, hf => by
      obtain ⟨rfl, hf⟩ := hf
      rw [plug_cons, digest_graft, digest_plug hf]
      rfl

section CollisionFree

variable {S : Set (Call K V H)} (hS : Set.InjOn hash S) (h0 : ∀ c ∈ S, hash c ≠ zero)

include h0 in
theorem digest_eq_zero {t : Tree K V} (ht : ∀ c ∈ t.calls hash zero, c ∈ S) :
    t.digest hash zero = zero ↔ t = empty := by
  cases t with
  | empty => simp [digest]
  | leaf k v => simpa [digest] using h0 _ (ht _ (by simp [calls]))
  | node l r => simpa [digest] using h0 _ (ht _ (by simp [calls]))

include hS h0 in
/-- Without collisions the digest determines the tree. -/
theorem digest_inj {t : Tree K V} : ∀ {u : Tree K V}, (∀ c ∈ t.calls hash zero, c ∈ S) →
    (∀ c ∈ u.calls hash zero, c ∈ S) → t.digest hash zero = u.digest hash zero → t = u := by
  induction t with
  | empty =>
    intro u _ hu h
    exact ((digest_eq_zero h0 hu).mp h.symm).symm
  | leaf k v =>
    intro u ht hu h
    cases u with
    | empty => exact (digest_eq_zero h0 ht).mp h
    | leaf k' v' =>
      have hc := hS (ht _ (by simp [calls])) (hu _ (by simp [calls])) h
      rw [(Call.leaf.inj hc).1, (Call.leaf.inj hc).2]
    | node l r =>
      cases hS (ht _ (by simp [calls])) (hu _ (by simp [calls])) h
  | node l r ihl ihr =>
    intro u ht hu h
    cases u with
    | empty => exact (digest_eq_zero h0 ht).mp h
    | leaf k' v' => cases hS (ht _ (by simp [calls])) (hu _ (by simp [calls])) h
    | node l' r' =>
      have hc := Call.node.inj (hS (ht _ (by simp [calls])) (hu _ (by simp [calls])) h)
      have hl : l = l' := ihl (fun c hc => ht c (by simp [calls, hc]))
        (fun c hc => hu c (by simp [calls, hc])) hc.1
      have hr : r = r' := ihr (fun c hc => ht c (by simp [calls, hc]))
        (fun c hc => hu c (by simp [calls, hc])) hc.2
      rw [hl, hr]

include hS h0 in
/-- A climb from the digest of an empty slot or of a leaf that ends in the digest of a
tree goes along a path of the tree, from that slot. -/
theorem walk_of_climb {b : ℕ → Bool} {slot : Tree K V} (hslot : slot.isNode = false)
    (hcalls : ∀ c ∈ slot.calls hash zero, c ∈ S) {siblings : List H} :
    ∀ {n : ℕ} {t : Tree K V}, (∀ c ∈ t.calls hash zero, c ∈ S) →
      (∀ c ∈ climbCalls hash b n siblings (slot.digest hash zero), c ∈ S) →
      climb hash b n siblings (slot.digest hash zero) = t.digest hash zero →
        ((walk b n t).1.map fun c => c.2.digest hash zero) = siblings ∧ (walk b n t).2 = slot := by
  induction siblings with
  | nil =>
    intro n t ht _ h
    rw [← digest_inj hS h0 hcalls ht h]
    cases slot with
    | node l r => cases hslot
    | _ => exact ⟨rfl, rfl⟩
  | cons s siblings ih =>
    intro n t ht hc h
    rw [climb] at h
    rw [climbCalls, List.forall_mem_cons] at hc
    cases hb : b n with
    | false =>
      simp only [hb, Bool.false_eq_true, if_false] at h hc
      cases t with
      | empty => exact absurd h (h0 _ hc.1)
      | leaf k v => cases hS hc.1 (ht _ (by simp [calls])) h
      | node l r =>
        have hn := Call.node.inj (hS hc.1 (ht _ (by simp [calls])) h)
        obtain ⟨hpath, hend⟩ := ih (fun c hm => ht c (by simp [calls, hm])) hc.2 hn.1
        rw [walk, hb]
        exact ⟨by simp [hpath, hn.2], hend⟩
    | true =>
      simp only [hb, if_true] at h hc
      cases t with
      | empty => exact absurd h (h0 _ hc.1)
      | leaf k v => cases hS hc.1 (ht _ (by simp [calls])) h
      | node l r =>
        have hn := Call.node.inj (hS hc.1 (ht _ (by simp [calls])) h)
        obtain ⟨hpath, hend⟩ := ih (fun c hm => ht c (by simp [calls, hm])) hc.2 hn.2
        rw [walk, hb]
        exact ⟨by simp [hpath, hn.1], hend⟩

end CollisionFree

end Digest

end Tree

end SparseTree
