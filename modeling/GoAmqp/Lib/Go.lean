import Mathlib.Tactic.Common

set_option autoImplicit false

/-! # The run-time behaviour of Go that the models rely on

A Go call returns, returns an error, or panics. `Fault` collects the ways a modelled call can end
other than by returning: an error value, an index or slice expression out of range, the use of an
unhashable value as a map key, a nil pointer being followed, and, for recursive code modelled with a
depth bound, the bound being reached. Slicing and indexing are checked here as the run-time checks them.

Go maps keyed by a comparable type are functions to `Option`; a map whose entries are iterated over
is a list of entries in the order one iteration sees them. -/

namespace GoAmqp.Lib

/-- How a call of Go code ends if it does not return a result. -/
inductive Fault where
  /-- a returned error value, with its text -/
  | err (msg : String)
  /-- run-time panic: index or slice bounds out of range -/
  | outOfRange
  /-- run-time panic: hash of unhashable type -/
  | unhashable
  /-- run-time panic: nil pointer dereference -/
  | nilDeref
  /-- the recursion bound of the model was reached -/
  | depth
deriving DecidableEq, Repr

section Slices

variable {σ α : Type}

/-- The index expression `b[i]`. -/
def index (b : List α) (i : Nat) : EStateM Fault σ α :=
  match b[i]? with
  | some x => pure x
  | none => throw .outOfRange

/-- The slice expression `b[i:j]`. -/
def slice (b : List α) (i j : Nat) : EStateM Fault σ (List α) :=
  if i ≤ j ∧ j ≤ b.length then pure ((b.take j).drop i) else throw .outOfRange

/-- Return the error `msg`. -/
def fail (msg : String) : EStateM Fault σ α := throw (.err msg)

theorem index_of_lt {b : List α} {i : Nat} {x : α} (h : b[i]? = some x) :
    (index b i : EStateM Fault σ α) = pure x := by
  simp [index, h]

theorem slice_of_le {b : List α} {i j : Nat} (hij : i ≤ j) (hj : j ≤ b.length) :
    (slice b i j : EStateM Fault σ (List α)) = pure ((b.take j).drop i) := by
  simp [slice, hij, hj]

end Slices

/-! ## Association lists as maps -/

section Entries

variable {κ β : Type}

/-- Assign `v` to key `k`, where `eq` is the key type's `==`: the value of a present key is
    replaced, a new key is added. -/
def mapAssign (eq : κ → κ → Bool) (k : κ) (v : β) : List (κ × β) → List (κ × β)
  | [] => [(k, v)]
  | (k', v') :: m => if eq k' k then (k', v) :: m else (k', v') :: mapAssign eq k v m

/-- Assigning a key that no entry has adds one entry. -/
theorem mapAssign_of_fresh (eq : κ → κ → Bool) (k : κ) (v : β) (m : List (κ × β))
    (h : ∀ e ∈ m, eq e.1 k = false) : mapAssign eq k v m = m ++ [(k, v)] := by
  induction m with
  | nil => rfl
  | cons e m ih =>
    obtain ⟨k', v'⟩ := e
    have hhead : eq k' k = false := h (k', v') (List.mem_cons_self ..)
    have htail := ih (fun e he => h e (List.mem_cons_of_mem _ he))
    simp [mapAssign, hhead, htail]

/-- Assigning entries with distinct keys one after the other. -/
theorem foldl_mapAssign_append {eq : κ → κ → Bool} (es : List (κ × β)) :
    ∀ acc : List (κ × β), (acc ++ es).Pairwise (fun e e' => eq e.1 e'.1 = false) →
      es.foldl (fun m e => mapAssign eq e.1 e.2 m) acc = acc ++ es := by
  induction es with
  | nil => simp
  | cons e es ih =>
    intro acc h
    have hfresh : ∀ e' ∈ acc, eq e'.1 e.1 = false := fun e' he' =>
      (List.pairwise_append.mp h).2.2 e' he' e (List.mem_cons_self ..)
    have hassoc : acc ++ e :: es = (acc ++ [e]) ++ es := by simp
    rw [List.foldl_cons, mapAssign_of_fresh eq _ _ _ hfresh, hassoc]
    exact ih _ (hassoc ▸ h)

theorem foldl_mapAssign {ε : Type*} (eq : κ → κ → Bool) (key : ε → κ) (val : ε → β) {es : List ε}
    (h : es.Pairwise fun e e' => eq (key e) (key e') = false) :
    es.foldl (fun m e => mapAssign eq (key e) (val e) m) [] = es.map fun e => (key e, val e) := by
  have hall := foldl_mapAssign_append (es.map fun e => (key e, val e)) [] (List.pairwise_map.mpr h)
  rwa [List.foldl_map] at hall

end Entries

/-! ## Number formats in error texts -/

/-- A lower-case hexadecimal digit. -/
def hexDigit (n : Nat) : Char := if n < 10 then Char.ofNat (48 + n) else Char.ofNat (87 + n)

/-- A byte in hexadecimal, zero-padded to two digits (`%02x`). -/
def hex2 (b : UInt8) : String := String.ofList [hexDigit (b.toNat / 16), hexDigit (b.toNat % 16)]

/-- A byte in hexadecimal without padding (`%x`). -/
def hex1 (b : UInt8) : String :=
  if b.toNat < 16 then String.ofList [hexDigit b.toNat] else hex2 b

end GoAmqp.Lib
