import Mathlib.Data.Nat.Bitwise
import Mathlib.Data.Set.Function
import Mathlib.Data.List.GetD
import Mathlib.Tactic.Ring

/-!
# PrivatePayments.Lib.PerfectTree

Perfect binary trees of hashes over an arbitrary compression function.

A tree is its leaf function `f : ℕ → α`; `node h f l i` is the value of the `i`-th node
of level `l`, counted from the leaves. Levels and positions are plain numbers, so the
trees of all depths share their nodes, and the bits of a position are the directions of
the path above it.

The library has three parts: which leaves a node depends on; authentication paths, with
completeness and position binding; and the incremental update that keeps one left
sibling for each level (`carry`), with the invariant it maintains (`Frontier`).
-/

namespace PerfectTree

variable {α : Type*} (h : α → α → α)

/-- The node at position `i` of level `l`. -/
def node (f : ℕ → α) : ℕ → ℕ → α
  | 0, i => f i
  | l + 1, i => h (node f l (2 * i)) (node f l (2 * i + 1))

/-- The root of the tree of a given depth. -/
def root (f : ℕ → α) (depth : ℕ) : α := node h f depth 0

/-- The leaf function of a list that is padded with `z` on the right. -/
def padded (z : α) (leaves : List α) : ℕ → α := fun i => leaves.getD i z

/-- The hash of the subtree of a level whose leaves are all `z`. -/
def constNode (z : α) : ℕ → α
  | 0 => z
  | l + 1 => h (constNode z l) (constNode z l)

@[simp] theorem node_zero (f : ℕ → α) (i : ℕ) : node h f 0 i = f i := rfl

theorem node_succ (f : ℕ → α) (l i : ℕ) :
    node h f (l + 1) i = h (node h f l (2 * i)) (node h f l (2 * i + 1)) := rfl

/-- A leaf of a padded list is one of the list or the padding. -/
theorem padded_mem_or_eq (z : α) (leaves : List α) (i : ℕ) :
    padded z leaves i ∈ leaves ∨ padded z leaves i = z := by
  unfold padded
  by_cases hi : i < leaves.length
  · rw [List.getD_eq_getElem _ _ hi]
    exact .inl (List.getElem_mem hi)
  · exact .inr (List.getD_eq_default _ _ (not_lt.mp hi))

/-! ### What a node depends on -/

/-- A node depends only on the leaves below it. -/
theorem node_congr {f g : ℕ → α} : ∀ {l i : ℕ},
    (∀ j, i * 2 ^ l ≤ j → j < (i + 1) * 2 ^ l → f j = g j) → node h f l i = node h g l i := by
  intro l
  induction l with
  | zero => intro i hfg; exact hfg i (by simp) (by simp)
  | succ l ih =>
      intro i hfg
      have hlow : i * 2 ^ (l + 1) = 2 * i * 2 ^ l := by ring
      have hhigh : (i + 1) * 2 ^ (l + 1) = (2 * i + 1 + 1) * 2 ^ l := by ring
      have hmid : (2 * i + 1) * 2 ^ l = 2 * i * 2 ^ l + 2 ^ l := by ring
      have hend : (2 * i + 1 + 1) * 2 ^ l = 2 * i * 2 ^ l + 2 ^ l + 2 ^ l := by ring
      rw [hlow, hhigh] at hfg
      rw [node_succ, node_succ, ih, ih]
      · exact fun j hlo hhi => hfg j (by omega) (by omega)
      · exact fun j hlo hhi => hfg j (by omega) (by omega)

/-- A node is the root of the tree over the leaves from its first one on. -/
theorem node_eq_root_shift (f : ℕ → α) (l i : ℕ) :
    node h f l i = root h (fun j => f (i * 2 ^ l + j)) l := by
  suffices hshift : ∀ l k s, node h (fun j => f (s * 2 ^ l + j)) l k = node h f l (s + k) by
    rw [root, hshift, Nat.add_zero]
  intro l
  induction l with
  | zero => intro k s; simp
  | succ l ih =>
      intro k s
      have hleaves : (fun j => f (s * 2 ^ (l + 1) + j)) = fun j => f (2 * s * 2 ^ l + j) := by
        funext j
        rw [pow_succ]
        ring_nf
      rw [node_succ, node_succ, hleaves, ih, ih, show 2 * s + 2 * k = 2 * (s + k) by ring,
        show 2 * s + (2 * k + 1) = 2 * (s + k) + 1 by ring]

theorem node_const (z : α) (l i : ℕ) : node h (fun _ => z) l i = constNode h z l := by
  induction l generalizing i with
  | zero => rfl
  | succ l ih => rw [node_succ, ih, ih]; rfl

/-- A node to the right of all given leaves is the empty subtree of its level. -/
theorem node_padded_of_le {z : α} {leaves : List α} {l i : ℕ} (hi : leaves.length ≤ i * 2 ^ l) :
    node h (padded z leaves) l i = constNode h z l := by
  rw [← node_const h z l i]
  refine node_congr h fun j hlo _ => ?_
  exact List.getD_eq_default _ _ (le_trans hi hlo)

/-- Appending leaves does not change the nodes to their left. -/
theorem node_padded_append {z : α} {leaves more : List α} {l i : ℕ}
    (hi : (i + 1) * 2 ^ l ≤ leaves.length) :
    node h (padded z (leaves ++ more)) l i = node h (padded z leaves) l i := by
  refine node_congr h fun j _ hhi => ?_
  exact List.getD_append _ _ _ _ (lt_of_lt_of_le hhi hi)

/-! ### Authentication paths -/

/-- The other child of the parent of position `i`. -/
def sibling (i : ℕ) : ℕ := if i % 2 = 1 then i - 1 else i + 1

/-- One step up: the bit of the position says on which side the running hash is. -/
def combine (i : ℕ) (cur s : α) : α := if i % 2 = 1 then h s cur else h cur s

/-- The root that a leaf, its siblings from the leaf upwards and its position give. -/
def foldPath : α → List α → ℕ → α
  | cur, [], _ => cur
  | cur, s :: path, i => foldPath (combine h i cur s) path (i / 2)

/-- The siblings of the path from position `i` of level `l` over `n` levels. -/
def siblings (f : ℕ → α) (l i : ℕ) : ℕ → List α
  | 0 => []
  | n + 1 => node h f l (sibling i) :: siblings f (l + 1) (i / 2) n

@[simp] theorem foldPath_nil (cur : α) (i : ℕ) : foldPath h cur [] i = cur := rfl

@[simp] theorem foldPath_cons (cur s : α) (path : List α) (i : ℕ) :
    foldPath h cur (s :: path) i = foldPath h (combine h i cur s) path (i / 2) := rfl

/-- The two children of the parent of a position, in order, are the position's node and
its sibling's. -/
theorem combine_node (f : ℕ → α) (l i : ℕ) :
    combine h i (node h f l i) (node h f l (sibling i)) = node h f (l + 1) (i / 2) := by
  rw [node_succ]
  unfold combine sibling
  by_cases hi : i % 2 = 1
  · rw [if_pos hi, if_pos hi, show 2 * (i / 2) = i - 1 by omega, show i - 1 + 1 = i by omega]
  · rw [if_neg hi, if_neg hi, show 2 * (i / 2) = i by omega]

@[simp] theorem length_siblings (f : ℕ → α) (l i n : ℕ) : (siblings h f l i n).length = n := by
  induction n generalizing l i with
  | zero => rfl
  | succ n ih => rw [siblings, List.length_cons, ih]

/-- Completeness: the siblings of a position lead from its node to the node above. -/
theorem foldPath_siblings (f : ℕ → α) (l i n : ℕ) :
    foldPath h (node h f l i) (siblings h f l i n) i = node h f (l + n) (i / 2 ^ n) := by
  induction n generalizing l i with
  | zero => simp [siblings]
  | succ n ih =>
      rw [siblings, foldPath_cons, combine_node, ih, Nat.div_div_eq_div_mul, ← pow_succ',
        show l + 1 + n = l + (n + 1) by omega]

/-- A path looks at as many bits of the position as it is long. -/
theorem foldPath_mod (cur : α) (path : List α) (i : ℕ) :
    foldPath h cur path (i % 2 ^ path.length) = foldPath h cur path i := by
  induction path generalizing cur i with
  | nil => rfl
  | cons s path ih =>
      have hbit : i % 2 ^ (path.length + 1) % 2 = i % 2 := by
        rw [pow_succ', Nat.mod_mul_right_mod]
      have hrest : i % 2 ^ (path.length + 1) / 2 = i / 2 % 2 ^ path.length := by
        rw [pow_succ', Nat.mod_mul_right_div_self]
      rw [foldPath_cons, foldPath_cons, List.length_cons, hrest, ih, combine, combine, hbit]

/-- The pairs that are hashed along a path. -/
def pathPairs : α → List α → ℕ → List (α × α)
  | _, [], _ => []
  | cur, s :: path, i =>
      (if i % 2 = 1 then (s, cur) else (cur, s)) :: pathPairs (combine h i cur s) path (i / 2)

/-- A path in two parts. -/
theorem foldPath_append (cur : α) (path more : List α) (i : ℕ) :
    foldPath h cur (path ++ more) i =
      foldPath h (foldPath h cur path i) more (i / 2 ^ path.length) := by
  induction path generalizing cur i with
  | nil => simp
  | cons s path ih =>
      rw [List.cons_append, foldPath_cons, ih, foldPath_cons, List.length_cons,
        Nat.div_div_eq_div_mul, ← pow_succ']

theorem pathPairs_append (cur : α) (path more : List α) (i : ℕ) :
    pathPairs h cur (path ++ more) i =
      pathPairs h cur path i ++ pathPairs h (foldPath h cur path i) more (i / 2 ^ path.length) := by
  induction path generalizing cur i with
  | nil => simp [pathPairs]
  | cons s path ih =>
      rw [List.cons_append, pathPairs, ih, pathPairs, foldPath_cons, List.length_cons,
        List.cons_append, Nat.div_div_eq_div_mul, ← pow_succ']

/-- A path that is not empty ends in the hash of one of its pairs. -/
theorem exists_pair_of_ne_nil (cur : α) {path : List α} (i : ℕ) (hne : path ≠ []) :
    ∃ q ∈ pathPairs h cur path i, foldPath h cur path i = h q.1 q.2 := by
  induction path generalizing cur i with
  | nil => exact absurd rfl hne
  | cons s path ih =>
      cases path with
      | nil =>
          refine ⟨_, List.mem_cons_self, ?_⟩
          rw [foldPath_cons, foldPath_nil, combine]
          split <;> rfl
      | cons t path =>
          obtain ⟨q, hq, heq⟩ := ih (combine h i cur s) (i / 2) (List.cons_ne_nil t path)
          exact ⟨q, List.mem_cons_of_mem _ hq, heq⟩

/-- The pairs that are hashed in a tree. -/
def treePairs (f : ℕ → α) (depth : ℕ) : Set (α × α) :=
  { q | ∃ l i, l < depth ∧ i < 2 ^ (depth - (l + 1)) ∧
      q = (node h f l (2 * i), node h f l (2 * i + 1)) }

section Binding

variable {h} {S : Set (α × α)} (hS : Set.InjOn (fun q => h q.1 q.2) S)

include hS

/-- Position binding from an inner level: a path whose hashes do not collide with those
of the tree and that ends in a node of the tree started in a node of the tree. -/
theorem foldPath_binding_from {f : ℕ → α} (path : List α) : ∀ {cur : α} {l i : ℕ},
    (∀ q ∈ pathPairs h cur path i, q ∈ S) →
    (∀ m < path.length, (node h f (l + m) (2 * (i / 2 ^ (m + 1))),
      node h f (l + m) (2 * (i / 2 ^ (m + 1)) + 1)) ∈ S) →
    foldPath h cur path i = node h f (l + path.length) (i / 2 ^ path.length) →
    cur = node h f l i := by
  induction path with
  | nil => intro cur l i _ _ hroot; simpa using hroot
  | cons s path ih =>
      intro cur l i hpath htree hroot
      -- the induction hypothesis binds the parent, then one hash is inverted
      have hparent : combine h i cur s = node h f (l + 1) (i / 2) := by
        refine ih (fun q hq => hpath q (List.mem_cons_of_mem _ hq)) ?_ ?_
        · intro m hm
          have := htree (m + 1) (by simpa using hm)
          rwa [show l + (m + 1) = l + 1 + m by omega, pow_succ' 2 (m + 1),
            ← Nat.div_div_eq_div_mul] at this
        · rw [foldPath_cons, List.length_cons, pow_succ', ← Nat.div_div_eq_div_mul,
            show l + (path.length + 1) = l + 1 + path.length by omega] at hroot
          exact hroot
      have htop := htree 0 (by simp)
      have hhead := hpath _ (List.mem_cons_self)
      simp only [Nat.add_zero, zero_add, pow_one] at htop
      rw [node_succ] at hparent
      unfold combine at hparent
      by_cases hi : i % 2 = 1
      · rw [if_pos hi] at hparent hhead
        have heq := hS hhead htop hparent
        rw [Prod.mk.injEq] at heq
        rw [heq.2, show 2 * (i / 2) + 1 = i by omega]
      · rw [if_neg hi] at hparent hhead
        have heq := hS hhead htop hparent
        rw [Prod.mk.injEq] at heq
        rw [heq.1, show 2 * (i / 2) = i by omega]

/-- A path that is not longer than the tree is deep and ends in its root starts at a node of
the tree. -/
theorem foldPath_binding_deep {f : ℕ → α} {cur : α} {path : List α} {i depth : ℕ}
    (hlen : path.length ≤ depth) (hi : i < 2 ^ path.length)
    (hpath : ∀ q ∈ pathPairs h cur path i, q ∈ S) (htree : treePairs h f depth ⊆ S)
    (hroot : foldPath h cur path i = root h f depth) :
    cur = node h f (depth - path.length) i := by
  refine foldPath_binding_from hS path hpath (fun m hm => ?_) ?_
  · refine htree ⟨depth - path.length + m, i / 2 ^ (m + 1), by omega, ?_, rfl⟩
    rw [Nat.div_lt_iff_lt_mul (Nat.two_pow_pos _), ← pow_add,
      show depth - (depth - path.length + m + 1) + (m + 1) = path.length by omega]
    exact hi
  · rw [hroot, root, Nat.sub_add_cancel hlen, Nat.div_eq_of_lt hi]

/-- **Position binding.** A path of full length that ends in the root of a tree starts
at the leaf of its position. -/
theorem foldPath_binding {f : ℕ → α} {leaf : α} {path : List α} {i depth : ℕ}
    (hlen : path.length = depth) (hi : i < 2 ^ depth)
    (hpath : ∀ q ∈ pathPairs h leaf path i, q ∈ S) (htree : treePairs h f depth ⊆ S)
    (hroot : foldPath h leaf path i = root h f depth) : leaf = f i := by
  have hnode := foldPath_binding_deep hS hlen.le (hlen ▸ hi) hpath htree hroot
  rwa [hlen, Nat.sub_self, node_zero] at hnode

/-- A path that is longer than the tree is deep and ends in its root passes a leaf, which is
the hash of a pair. -/
theorem foldPath_binding_shallow {f : ℕ → α} {cur : α} {path : List α} {i depth : ℕ}
    (hlen : depth < path.length) (hi : i < 2 ^ path.length)
    (hpath : ∀ q ∈ pathPairs h cur path i, q ∈ S) (htree : treePairs h f depth ⊆ S)
    (hroot : foldPath h cur path i = root h f depth) :
    ∃ j, ∃ q ∈ pathPairs h cur path i, f j = h q.1 q.2 := by
  obtain ⟨low, high, rfl, hlow⟩ : ∃ low high, path = low ++ high ∧
      low.length = path.length - depth :=
    ⟨_, _, (List.take_append_drop (path.length - depth) path).symm, by
      rw [List.length_take]
      omega⟩
  rw [List.length_append] at hlow hlen hi
  have hhigh : high.length = depth := by omega
  rw [pathPairs_append] at hpath ⊢
  rw [foldPath_append] at hroot
  have hindex : i / 2 ^ low.length < 2 ^ depth := by
    rw [Nat.div_lt_iff_lt_mul (Nat.two_pow_pos _), ← pow_add, ← hhigh, Nat.add_comm]
    exact hi
  have hleaf := foldPath_binding hS hhigh hindex
    (fun q hq => hpath q (List.mem_append_right _ hq)) htree hroot
  have hne : low ≠ [] := List.ne_nil_of_length_pos (by omega)
  obtain ⟨q, hq, heq⟩ := exists_pair_of_ne_nil h cur i hne
  exact ⟨_, q, List.mem_append_left _ hq, hleaf.symm.trans heq⟩

end Binding

/-! ### The incremental update -/

/-- Appending on the right: from a node of level `l` upwards over `n` levels, pair a
right child with the stored left sibling, and store a left child and pair it with the
empty subtree. Returns the node above and the stored siblings. -/
def carry (zero : ℕ → α) : (n l i : ℕ) → α → (ℕ → α) → α × (ℕ → α)
  | 0, _, _, cur, filled => (cur, filled)
  | n + 1, l, i, cur, filled =>
      if i % 2 = 1 then carry zero n (l + 1) (i / 2) (h (filled l) cur) filled
      else carry zero n (l + 1) (i / 2) (h cur (zero l)) (Function.update filled l cur)

/-- The stored siblings of the `n` levels from `l` on, when `i` nodes of level `l` are
complete: at each level where the count is odd, the last complete node is stored. -/
def Frontier (f : ℕ → α) (n l i : ℕ) (filled : ℕ → α) : Prop :=
  ∀ k < n, (i / 2 ^ k) % 2 = 1 → filled (l + k) = node h f (l + k) (i / 2 ^ k - 1)

/-- Everything to the right of node `i` of level `l` is empty, over `n` levels. -/
def EmptyRight (zero : ℕ → α) (f : ℕ → α) (n l i : ℕ) : Prop :=
  ∀ k < n, (i / 2 ^ k) % 2 = 0 → node h f (l + k) (i / 2 ^ k + 1) = zero (l + k)

variable {h}

theorem Frontier.tail {f : ℕ → α} {n l i : ℕ} {filled : ℕ → α}
    (hf : Frontier h f (n + 1) l i filled) : Frontier h f n (l + 1) (i / 2) filled := by
  intro k hkn hk
  rw [Nat.div_div_eq_div_mul, ← pow_succ'] at hk ⊢
  rw [show l + 1 + k = l + (k + 1) by omega]
  exact hf (k + 1) (by omega) hk

theorem EmptyRight.tail {zero : ℕ → α} {f : ℕ → α} {n l i : ℕ}
    (hz : EmptyRight h zero f (n + 1) l i) : EmptyRight h zero f n (l + 1) (i / 2) := by
  intro k hkn hk
  rw [Nat.div_div_eq_div_mul, ← pow_succ'] at hk ⊢
  rw [show l + 1 + k = l + (k + 1) by omega]
  exact hz (k + 1) (by omega) hk

/-- A left child meets the empty subtree of its level. -/
theorem EmptyRight.combine {zero : ℕ → α} {f : ℕ → α} {n l i : ℕ}
    (hz : EmptyRight h zero f (n + 1) l i) (hi : i % 2 ≠ 1) :
    h (node h f l i) (zero l) = node h f (l + 1) (i / 2) := by
  have hright : node h f l (i + 1) = zero l := by
    simpa using hz 0 (by omega) (by simpa using hi)
  rw [node_succ, show 2 * (i / 2) = i by omega, hright]

/-- A right child meets the stored left sibling. -/
theorem Frontier.combine {f : ℕ → α} {n l i : ℕ} {filled : ℕ → α}
    (hf : Frontier h f (n + 1) l i filled) (hi : i % 2 = 1) :
    h (filled l) (node h f l i) = node h f (l + 1) (i / 2) := by
  have hleft : filled l = node h f l (i - 1) := by
    simpa using hf 0 (by omega) (by simpa using hi)
  rw [node_succ, hleft, show 2 * (i / 2) = i - 1 by omega, show i - 1 + 1 = i by omega]

/-- Storing the sibling of a lower level does not disturb the levels above. -/
theorem Frontier.update {f : ℕ → α} {n l i : ℕ} {filled : ℕ → α} {v : α}
    (hf : Frontier h f n (l + 1) i filled) :
    Frontier h f n (l + 1) i (Function.update filled l v) := by
  intro k hkn hk
  rw [Function.update_of_ne (by omega)]
  exact hf k hkn hk

/-- One more complete node: at every level the count stays, or it grows by one from an
even count. -/
theorem succ_div_two_pow (i k : ℕ) :
    (i + 1) / 2 ^ k = i / 2 ^ k ∨ (i + 1) / 2 ^ k = i / 2 ^ k + 1 := by
  rw [Nat.succ_div]
  split <;> simp

/-- `carry` leaves the stored siblings of lower levels alone. -/
theorem carry_filled_of_lt {zero : ℕ → α} (n : ℕ) : ∀ {l i k : ℕ} {cur : α} {filled : ℕ → α},
    k < l → (carry h zero n l i cur filled).2 k = filled k := by
  induction n with
  | zero => intro l i k cur filled _; rfl
  | succ n ih =>
      intro l i k cur filled hk
      unfold carry
      split
      · exact ih (by omega)
      · rw [ih (by omega), Function.update_of_ne (by omega)]

/-- `carry` computes the node above, when the stored siblings are right and everything
to the right is empty. -/
theorem carry_fst {zero : ℕ → α} {f : ℕ → α} (n : ℕ) : ∀ {l i : ℕ} {filled : ℕ → α},
    Frontier h f n l i filled → EmptyRight h zero f n l i →
    (carry h zero n l i (node h f l i) filled).1 = node h f (l + n) (i / 2 ^ n) := by
  induction n with
  | zero => intro l i filled _ _; simp [carry]
  | succ n ih =>
      intro l i filled hf hz
      unfold carry
      rw [show l + (n + 1) = l + 1 + n by omega, pow_succ', ← Nat.div_div_eq_div_mul]
      by_cases hi : i % 2 = 1
      · rw [if_pos hi, hf.combine hi]
        exact ih hf.tail hz.tail
      · rw [if_neg hi, hz.combine hi]
        exact ih hf.tail.update hz.tail

/-- `carry` stores the node of every level that it leaves through a left child. -/
theorem carry_snd {zero : ℕ → α} {f : ℕ → α} (n : ℕ) : ∀ {l i : ℕ} {filled : ℕ → α},
    Frontier h f n l i filled → EmptyRight h zero f n l i →
    ∀ k < n, (carry h zero n l i (node h f l i) filled).2 (l + k) =
      if (i / 2 ^ k) % 2 = 1 then filled (l + k) else node h f (l + k) (i / 2 ^ k) := by
  induction n with
  | zero => intro l i filled _ _ k hk; omega
  | succ n ih =>
      intro l i filled hf hz k hk
      unfold carry
      by_cases hi : i % 2 = 1
      · rw [if_pos hi, hf.combine hi]
        cases k with
        | zero => rw [carry_filled_of_lt n (by omega), pow_zero, Nat.div_one, if_pos hi]
        | succ k =>
            have := ih hf.tail hz.tail k (by omega)
            rwa [Nat.div_div_eq_div_mul, ← pow_succ',
              show l + 1 + k = l + (k + 1) by omega] at this
      · rw [if_neg hi, hz.combine hi]
        cases k with
        | zero =>
            rw [carry_filled_of_lt n (by omega), pow_zero, Nat.div_one, if_neg hi]
            simp
        | succ k =>
            have := ih (hf.tail.update (v := node h f l i)) hz.tail k (by omega)
            rwa [Nat.div_div_eq_div_mul, ← pow_succ', show l + 1 + k = l + (k + 1) by omega,
              Function.update_of_ne (by omega)] at this

/-- **The frontier is maintained.** After `carry` has appended node `i` of level `l`, the
stored siblings are right for `i + 1` complete nodes. -/
theorem carry_frontier {zero : ℕ → α} {f : ℕ → α} {n l i : ℕ} {filled : ℕ → α}
    (hf : Frontier h f n l i filled) (hz : EmptyRight h zero f n l i) :
    Frontier h f n l (i + 1) (carry h zero n l i (node h f l i) filled).2 := by
  intro k hkn hk
  rw [carry_snd n hf hz k hkn]
  rcases succ_div_two_pow i k with heq | heq
  · rw [heq] at hk ⊢
    rw [if_pos hk]
    exact hf k hkn hk
  · rw [heq] at hk ⊢
    rw [if_neg (by omega), Nat.add_sub_cancel]

/-- The frontier only speaks about complete nodes, which appended leaves do not touch. -/
theorem Frontier.append {z : α} {leaves more : List α} {n l i : ℕ} {filled : ℕ → α}
    (hf : Frontier h (padded z leaves) n l i filled) (hi : i * 2 ^ l ≤ leaves.length) :
    Frontier h (padded z (leaves ++ more)) n l i filled := by
  intro k hkn hk
  rw [hf k hkn hk, node_padded_append]
  have hpos : 1 ≤ i / 2 ^ k := Nat.pos_of_ne_zero fun h0 => by simp [h0] at hk
  calc (i / 2 ^ k - 1 + 1) * 2 ^ (l + k) = i / 2 ^ k * 2 ^ k * 2 ^ l := by
        rw [Nat.sub_add_cancel hpos]; ring
    _ ≤ i * 2 ^ l := Nat.mul_le_mul_right _ (Nat.div_mul_le_self i (2 ^ k))
    _ ≤ leaves.length := hi

/-- When node `i` of level `l` is the last one with a leaf, everything to its right is
empty. -/
theorem emptyRight_padded {z : α} {leaves : List α} {n l i : ℕ}
    (hi : leaves.length ≤ (i + 1) * 2 ^ l) :
    EmptyRight h (constNode h z) (padded z leaves) n l i := by
  intro k _ _
  refine node_padded_of_le h ?_
  have hdiv : i < (i / 2 ^ k + 1) * 2 ^ k := by
    rw [mul_comm]
    exact Nat.lt_mul_div_succ i (Nat.two_pow_pos k)
  calc leaves.length ≤ (i + 1) * 2 ^ l := hi
    _ ≤ (i / 2 ^ k + 1) * 2 ^ k * 2 ^ l := Nat.mul_le_mul_right _ hdiv
    _ = (i / 2 ^ k + 1) * 2 ^ (l + k) := by ring

end PerfectTree
