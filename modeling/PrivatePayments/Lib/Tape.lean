import PrivatePayments.Lib.Outcome
import Mathlib.Data.List.Basic

/-!
# PrivatePayments.Lib.Tape

Readers of a list of items with a position.

* `Reads p x items a`: from position `p` on, `x` reads exactly `items`, and reads them as `a`,
  whatever stands before and after them. Such facts compose along the concatenation of what is
  read, so a decoder is compared with its encoder one field at a time.
* `Takes x n`: `x` moves by `n`, and fails only where fewer items are left.
* `Keeps x P`: `x` leaves the items alone, gives a value with `P`, and fails only softly.

The errors are of two kinds. A reader that ends in a fatal error says nothing about what it reads;
the soft errors are the others.
-/

/-- Items, and the position of the next one. -/
structure Tape (β : Type) where
  data : List β
  position : Nat

namespace Tape

variable {ε α β γ : Type} {bound p n m : Nat} {Fatal Soft : ε → Prop}

/-- The same reader `n` times. -/
def readMany (x : EStateM ε (Tape β) α) : Nat → EStateM ε (Tape β) (List α)
  | 0 => return []
  | n + 1 => do
      let a ← x
      let rest ← readMany x n
      return a :: rest

/-- The current position. -/
def getPosition : EStateM ε (Tape β) Nat := do
  let tape ← get
  return tape.position

/-! ## Reading what was written -/

/-- From `p` on, `x` reads exactly `items` as `a`, or ends in a fatal error. -/
def Reads (bound : Nat) (Fatal : ε → Prop) (p : Nat) (x : EStateM ε (Tape β) α) (items : List β)
    (a : α) : Prop :=
  ∀ pre post : List β, pre.length = p → (pre ++ items ++ post).length ≤ bound →
    Outcome x ⟨pre ++ items ++ post, p⟩
      (fun a' tape => a' = a ∧ tape = ⟨pre ++ items ++ post, p + items.length⟩)
      fun e _ => Fatal e

theorem Reads.pure {a : α} : Reads bound Fatal p (Pure.pure a : EStateM ε (Tape β) α) [] a := by
  intro pre post hpre hbound
  exact Outcome.pure ⟨rfl, rfl⟩

theorem Reads.bind {x : EStateM ε (Tape β) α} {f : α → EStateM ε (Tape β) γ} {items items' : List β}
    {a : α} {c : γ} (hx : Reads bound Fatal p x items a)
    (hf : Reads bound Fatal (p + items.length) (f a) items' c) :
    Reads bound Fatal p (x >>= f) (items ++ items') c := by
  intro pre post hpre hbound
  have hleft : pre ++ (items ++ items') ++ post = pre ++ items ++ (items' ++ post) := by simp
  have hright : pre ++ (items ++ items') ++ post = (pre ++ items) ++ items' ++ post := by simp
  rw [hleft] at hbound ⊢
  refine Outcome.bind (hx pre (items' ++ post) hpre hbound) ?_
  rintro a' tape ⟨rfl, rfl⟩
  rw [← hleft, hright] at hbound ⊢
  refine (hf (pre ++ items) post (by rw [List.length_append, hpre]) hbound).imp ?_ fun _ _ he => he
  rintro c' tape ⟨hc, rfl⟩
  exact ⟨hc, by rw [List.length_append, Nat.add_assoc]⟩

/-- The last step of a reader reads nothing. -/
theorem Reads.bind_pure {x : EStateM ε (Tape β) α} {f : α → EStateM ε (Tape β) γ} {items : List β}
    {a : α} {c : γ} (hx : Reads bound Fatal p x items a)
    (hf : Reads bound Fatal (p + items.length) (f a) [] c) :
    Reads bound Fatal p (x >>= f) items c := by
  have h := hx.bind hf
  rwa [List.append_nil] at h

/-- A step that reads nothing. -/
theorem Reads.bind_nil {x : EStateM ε (Tape β) α} {f : α → EStateM ε (Tape β) γ} {items : List β}
    {a : α} {c : γ} (hx : Reads bound Fatal p x [] a) (hf : Reads bound Fatal p (f a) items c) :
    Reads bound Fatal p (x >>= f) items c :=
  hx.bind hf

theorem Reads.getPosition : Reads bound Fatal p (getPosition : EStateM ε (Tape β) Nat) [] p := by
  intro pre post hpre hbound
  exact Outcome.get_bind (Outcome.pure ⟨rfl, rfl⟩)

theorem Reads.throw {e : ε} {items : List β} {a : α} (h : Fatal e) :
    Reads bound Fatal p (MonadExcept.throw e : EStateM ε (Tape β) α) items a :=
  fun _ _ _ _ => Outcome.throw h

/-- A list is read element by element. -/
theorem Reads.many {x : EStateM ε (Tape β) α} {encode : α → List β} {values : List α}
    (hx : ∀ a ∈ values, ∀ p, Reads bound Fatal p x (encode a) a) :
    Reads bound Fatal p (readMany x values.length) (values.flatMap encode) values := by
  induction values generalizing p with
  | nil => exact Reads.pure
  | cons a values ih =>
      rw [List.flatMap_cons]
      refine (hx a List.mem_cons_self p).bind ?_
      exact (ih fun b hb => hx b (List.mem_cons_of_mem a hb)).bind_pure Reads.pure

/-! ## Moving on -/

/-- `x` moves by `n` and only fails, softly, where fewer items are left. -/
def Takes (Soft : ε → Prop) (data : List β) (x : EStateM ε (Tape β) α) (n : Nat) : Prop :=
  ∀ p, Outcome x ⟨data, p⟩ (fun _ tape => tape = ⟨data, p + n⟩)
    fun e _ => Soft e ∧ data.length < p + n

theorem Takes.pure {data : List β} {a : α} :
    Takes Soft data (Pure.pure a : EStateM ε (Tape β) α) 0 :=
  fun _ => Outcome.pure rfl

theorem Takes.bind {data : List β} {x : EStateM ε (Tape β) α} {f : α → EStateM ε (Tape β) γ}
    (hx : Takes Soft data x n) (hf : ∀ a, Takes Soft data (f a) m) :
    Takes Soft data (x >>= f) (n + m) := by
  intro p
  have hstart := (hx p).imp (fun _ _ h => h)
    fun e _ (h : Soft e ∧ data.length < p + n) =>
      (⟨h.1, by omega⟩ : Soft e ∧ data.length < p + (n + m))
  refine Outcome.bind hstart ?_
  rintro a tape rfl
  have hend := hf a (p + n)
  rwa [Nat.add_assoc] at hend

/-- A step without a value reads what it takes. -/
theorem Takes.reads {x : EStateM ε (Tape β) Unit} {items : List β}
    (hx : ∀ data : List β, data.length ≤ bound → Takes Soft data x items.length) :
    Reads bound Fatal p x items () := by
  rintro pre post rfl hbound
  refine (hx _ hbound pre.length).imp ?_ ?_
  · rintro _ _ rfl
    exact ⟨rfl, rfl⟩
  · rintro e _ ⟨-, hend⟩
    simp only [List.length_append] at hend
    omega

theorem Takes.many {data : List β} {x : EStateM ε (Tape β) α} (hx : Takes Soft data x n)
    (count : Nat) : Takes Soft data (readMany x count) (count * n) := by
  induction count with
  | zero =>
      rw [Nat.zero_mul]
      exact Takes.pure
  | succ count ih =>
      rw [Nat.succ_mul, Nat.add_comm (count * n)]
      exact hx.bind fun a => ih.bind fun rest => Takes.pure

/-- `x` leaves the items as they are, gives a value with `P`, and only fails softly. -/
def Keeps (Soft : ε → Prop) (data : List β) (x : EStateM ε (Tape β) α) (P : α → Prop) : Prop :=
  ∀ p, Outcome x ⟨data, p⟩ (fun a tape => tape.data = data ∧ P a) fun e _ => Soft e

variable {data : List β} {P : α → Prop} {R : γ → Prop}

theorem Takes.keeps {x : EStateM ε (Tape β) α} (hx : Takes Soft data x n) :
    Keeps Soft data x fun _ => True := by
  intro p
  refine (hx p).imp ?_ fun _ _ he => he.1
  rintro a tape rfl
  exact ⟨rfl, trivial⟩

theorem Keeps.pure {a : α} (h : P a) :
    Keeps Soft data (Pure.pure a : EStateM ε (Tape β) α) P :=
  fun _ => Outcome.pure ⟨rfl, h⟩

theorem Keeps.throw {e : ε} (h : Soft e) :
    Keeps Soft data (MonadExcept.throw e : EStateM ε (Tape β) α) P :=
  fun _ => Outcome.throw h

theorem Keeps.bind {x : EStateM ε (Tape β) α} {f : α → EStateM ε (Tape β) γ}
    (hx : Keeps Soft data x P) (hf : ∀ a, P a → Keeps Soft data (f a) R) :
    Keeps Soft data (x >>= f) R := by
  intro p
  refine Outcome.bind (hx p) ?_
  rintro a ⟨data', p'⟩ ⟨hdata', ha⟩
  obtain rfl : data = data' := hdata'.symm
  exact hf a ha p'

theorem Keeps.ite {c : Prop} [Decidable c] {x y : EStateM ε (Tape β) α}
    (hx : c → Keeps Soft data x P) (hy : ¬ c → Keeps Soft data y P) :
    Keeps Soft data (if c then x else y) P :=
  fun p => Outcome.ite (fun hc => hx hc p) fun hc => hy hc p

theorem Keeps.getPosition :
    Keeps Soft data (getPosition : EStateM ε (Tape β) Nat) fun _ => True :=
  fun _ => Outcome.get_bind (Outcome.pure ⟨rfl, trivial⟩)

end Tape
