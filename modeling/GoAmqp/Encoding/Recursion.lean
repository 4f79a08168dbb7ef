import GoAmqp.Encoding.Onward
import Mathlib.Data.List.Forall2

set_option autoImplicit false

/-! # `ReadAny` as a recursion on the unread bytes

`readAny` closes the recursion of `ReadAny` with a bound on the depth. Here the bound is taken away.
A decoder that is given two nested `ReadAny`s which agree on less than `n` bytes does the same with
both on less than `n` bytes, and a decoder called by `ReadAny` itself, which reads a type code before
any nested call, on less than `n + 1`. So `ReadAny` is the function that is defined by well-founded
recursion on the number of unread bytes (`readAnyBelow`), with every nested call in front of strictly
fewer of them. -/

namespace GoAmqp

open Lib Buffer

/-! ## Records -/

section Records

variable {σ τ α : Type} {n : Nat}

instance (m m' : BufM α) [h : Agrees Buffer.left n m m'] :
    Agrees leftInto n (onBuffer m : IntoM σ α) (onBuffer m') := by
  constructor
  intro s hlt
  show onBuffer m s = onBuffer m' s
  unfold onBuffer
  rw [h.eq s.2 hlt]

instance (part : σ → τ) (put : τ → σ → σ) (m m' : IntoM τ α) [h : Agrees leftInto n m m'] :
    Agrees leftInto n (zoom part put m) (zoom part put m') := by
  constructor
  intro s hlt
  show zoom part put m s = zoom part put m' s
  unfold zoom
  rw [h.eq (part s.1, s.2) hlt]

instance (zero : σ) (m m' : IntoM σ Unit) [h : Agrees leftInto n m m'] :
    Agrees Buffer.left n (runNew zero m) (runNew zero m') := by
  constructor
  intro r hlt
  show runNew zero m r = runNew zero m' r
  unfold runNew
  rw [h.eq (zero, r) hlt]

instance (m m' : IntoM σ Unit) [Agrees leftInto n m m'] : Agrees leftInto n (orNull m) (orNull m') := by
  unfold orNull
  infer_instance

instance (read read' : BufM α) [Agrees Buffer.left n read read'] [Steps Onward read']
    (put : α → σ → σ) : Agrees leftInto n (assign read put) (assign read' put) := by
  unfold assign
  infer_instance

instance (part : σ → Option τ) (put : Option τ → σ → σ) (zero : τ) (m m' : IntoM τ Unit)
    [Agrees leftInto n m m'] :
    Agrees leftInto n (assignPtr part put zero m) (assignPtr part put zero m') := by
  unfold assignPtr
  infer_instance

/-- Two fields that differ in their nested `ReadAny` only. -/
structure SameField (n : Nat) (f f' : UnmarshalField σ) : Prop where
  handleNull : f.handleNull = f'.handleNull
  steps : Steps OnwardInto f'.field
  agrees : Agrees leftInto n f.field f'.field

/-- The two tables do the same, field by field, on buffers with at most `n` bytes left. -/
class FieldsAgree (n : Nat) (fields fields' : List (UnmarshalField σ)) : Prop where
  same : List.Forall₂ (SameField n) fields fields'

instance : FieldsAgree n ([] : List (UnmarshalField σ)) [] := ⟨.nil⟩

instance (m m' : IntoM σ Unit) (h : Option (σ → Except String σ)) (fs fs' : List (UnmarshalField σ))
    [Steps OnwardInto m'] [Agrees leftInto n m m'] [hfs : FieldsAgree n fs fs'] :
    FieldsAgree n (⟨m, h⟩ :: fs) (⟨m', h⟩ :: fs') :=
  ⟨.cons ⟨rfl, inferInstance, inferInstance⟩ hfs.same⟩

theorem SameField.null {f f' : UnmarshalField σ} (h : SameField n f f') : f.null = f'.null := by
  unfold UnmarshalField.null
  rw [h.handleNull]

theorem SameField.unmarshalField {f f' : UnmarshalField σ} (h : SameField n f f') (i : Nat) :
    Agrees leftInto n (unmarshalField i f) (unmarshalField i f') := by
  have hfield := h.agrees
  unfold GoAmqp.unmarshalField
  rw [h.null]
  infer_instance

variable {fields fields' : List (UnmarshalField σ)}

theorem agrees_unmarshalFields (i : Nat) (h : List.Forall₂ (SameField n) fields fields') :
    Agrees leftInto n (unmarshalFields i fields) (unmarshalFields i fields') := by
  induction h generalizing i with
  | nil => exact .refl
  | cons hf _ ih =>
    have hround := hf.unmarshalField i
    have hstep := hf.steps
    have hrest := ih (i + 1)
    unfold unmarshalFields
    infer_instance

theorem nullFields_eq (h : List.Forall₂ (SameField n) fields fields') : nullFields fields = nullFields fields' := by
  induction h with
  | nil => rfl
  | cons hf _ ih => rw [nullFields, nullFields, hf.null, ih]

theorem steps_of_same (h : List.Forall₂ (SameField n) fields fields') : ∀ f ∈ fields', Steps OnwardInto f.field := by
  induction h with
  | nil => exact fun _ h => absurd h List.not_mem_nil
  | cons hf _ ih => exact List.forall_mem_cons.mpr ⟨hf.steps, ih⟩

section Composite

variable {fields fields' : List (UnmarshalField σ)}

theorem agrees_present (h : FieldsAgree n fields fields') (k : Nat) :
    Agrees leftInto n (unmarshalFields 0 (fields.take k)) (unmarshalFields 0 (fields'.take k)) :=
  agrees_unmarshalFields 0 (List.forall₂_take k h.same)

theorem steps_present (h : FieldsAgree n fields fields') (k : Nat) :
    Steps OnwardInto (unmarshalFields 0 (fields'.take k)) :=
  steps_unmarshalFields 0 (steps_of_same (List.forall₂_take k h.same))

theorem absent_eq (h : FieldsAgree n fields fields') (k : Nat) :
    nullFields (fields.drop k) = nullFields (fields'.drop k) :=
  nullFields_eq (List.forall₂_drop k h.same)

variable [h : FieldsAgree n fields fields']

instance (type_ : UInt8) :
    Agrees leftInto n (unmarshalComposite type_ fields) (unmarshalComposite type_ fields') := by
  have hpresent := agrees_present h
  have hsteps := steps_present h
  unfold unmarshalComposite
  simp only [absent_eq h, h.same.length_eq]
  infer_instance

/-- The header has been read before the first field. -/
theorem agrees_unmarshalComposite (type_ : UInt8) :
    Agrees leftInto (n + 1) (unmarshalComposite type_ fields) (unmarshalComposite type_ fields') := by
  have hpresent := agrees_present h
  have hsteps := steps_present h
  unfold unmarshalComposite
  simp only [absent_eq h, h.same.length_eq]
  infer_instance

end Composite

end Records

/-! ## Maps and lists -/

section ReadAny

variable {n : Nat}

instance {μ : Type} (round round' : μ → BufM μ) [∀ m, Steps Onward (round' m)]
    [∀ m, Agrees Buffer.left n (round m) (round' m)] (bound : Nat) (i count : UInt32) (m : μ) :
    Agrees Buffer.left n (mapLoop round bound i count m) (mapLoop round' bound i count m) := by
  induction bound generalizing i m with
  | zero => exact .refl
  | succ bound ih =>
    unfold mapLoop
    infer_instance

instance {κ β : Type} (round round' : List (κ × β) → BufM (List (κ × β)))
    [∀ m, Steps Onward (round' m)] [∀ m, Agrees Buffer.left n (round m) (round' m)] :
    Agrees Buffer.left n (unmarshalMap round) (unmarshalMap round') := by
  unfold unmarshalMap
  infer_instance

theorem agrees_unmarshalMap {κ β : Type} (round round' : List (κ × β) → BufM (List (κ × β)))
    [∀ m, Steps Onward (round' m)] [∀ m, Agrees Buffer.left n (round m) (round' m)] :
    Agrees Buffer.left (n + 1) (unmarshalMap round) (unmarshalMap round') := by
  unfold unmarshalMap
  infer_instance

variable (f g : BufM Value) [Steps Onward g] [Agrees Buffer.left n f g]

instance : Agrees Buffer.left n (unmarshalMapStringAny f) (unmarshalMapStringAny g) := by
  unfold unmarshalMapStringAny
  infer_instance

instance : Agrees Buffer.left n (unmarshalAnnotations f) (unmarshalAnnotations g) := by
  unfold unmarshalAnnotations
  infer_instance

instance : Agrees leftInto n (unmarshalError f) (unmarshalError g) := by
  unfold unmarshalError
  infer_instance

/-! ## The decoders that `ReadAny` calls -/

theorem agrees_unmarshalList : Agrees Buffer.left (n + 1) (unmarshalList f) (unmarshalList g) := by
  unfold unmarshalList
  infer_instance

theorem agrees_readAnyMap : Agrees Buffer.left (n + 1) (readAnyMap f) (readAnyMap g) := by
  have hmap : Agrees Buffer.left (n + 1) (unmarshalMapAnyAny f) (unmarshalMapAnyAny g) := agrees_unmarshalMap ..
  unfold readAnyMap
  infer_instance

theorem agrees_readDescribed : Agrees Buffer.left (n + 1) (readDescribed f) (readDescribed g) := by
  have hany : Agrees Buffer.left n (unmarshalAny f) (unmarshalAny g) := by
    unfold unmarshalAny
    infer_instance
  have hdescribed : Agrees Buffer.left (n + 1) (unmarshalDescribed f) (unmarshalDescribed g) := by
    unfold unmarshalDescribed
    infer_instance
  unfold readDescribed
  infer_instance

theorem agrees_unmarshalError : Agrees leftInto (n + 1) (unmarshalError f) (unmarshalError g) :=
  agrees_unmarshalComposite ..

theorem agrees_unmarshalState (code : UInt8) :
    Agrees Buffer.left (n + 1) (unmarshalState f code) (unmarshalState g code) := by
  have hrejected : Agrees leftInto (n + 1) (unmarshalStateRejected f) (unmarshalStateRejected g) :=
    agrees_unmarshalComposite ..
  have hmodified : Agrees leftInto (n + 1) (unmarshalStateModified f) (unmarshalStateModified g) :=
    agrees_unmarshalComposite ..
  unfold unmarshalState
  infer_instance

theorem agrees_compositeReader (code : UInt8) :
    Agrees Buffer.left (n + 1) (compositeReader f code) (compositeReader g code) := by
  have herror := agrees_unmarshalError (n := n) f g
  have hstate := agrees_unmarshalState (n := n) f g code
  have hdescribed := agrees_readDescribed (n := n) f g
  unfold compositeReader
  infer_instance

theorem agrees_readComposite : Agrees Buffer.left (n + 1) (readComposite f) (readComposite g) := by
  have hdescribed := agrees_readDescribed (n := n) f g
  have hreader := agrees_compositeReader (n := n) f g
  unfold readComposite
  infer_instance

theorem agrees_anyReader (type_ : UInt8) : Agrees Buffer.left (n + 1) (anyReader f type_) (anyReader g type_) := by
  have hcomposite := agrees_readComposite (n := n) f g
  have hlist := agrees_unmarshalList (n := n) f g
  have hmap := agrees_readAnyMap (n := n) f g
  unfold anyReader
  infer_instance

theorem agrees_readAnyBody : Agrees Buffer.left (n + 1) (readAnyBody f) (readAnyBody g) := by
  have hreader := agrees_anyReader (n := n) f g
  unfold readAnyBody
  infer_instance

end ReadAny

/-! ## The recursion -/

/-- With less than `n` bytes left, `n` nested calls are as good as any larger number. -/
theorem agrees_readAnyDepth (n : Nat) {d d' : Nat} (hd : n ≤ d) (hd' : n ≤ d') :
    Agrees Buffer.left n (readAnyDepth d) (readAnyDepth d') := by
  induction n generalizing d d' with
  | zero => exact ⟨fun _ hlt => absurd hlt (Nat.not_lt_zero _)⟩
  | succ n ih =>
    obtain ⟨d, rfl⟩ := Nat.exists_eq_add_of_le' hd
    obtain ⟨d', rfl⟩ := Nat.exists_eq_add_of_le' hd'
    have hnested := ih (Nat.le_add_left n d) (Nat.le_add_left n d')
    exact agrees_readAnyBody (readAnyDepth (d + n)) (readAnyDepth (d' + n))

theorem run_readAny (r : Buffer) : readAny.run r = (readAnyDepth (r.left + 1)).run r := by
  have hlen : len.run r = .ok r.left r := rfl
  rw [readAny, EStateM.run_bind, hlen]

theorem run_readAny_of_lt {r : Buffer} {d : Nat} (h : r.left < d) : readAny.run r = (readAnyDepth d).run r := by
  rw [run_readAny]
  exact (agrees_readAnyDepth (r.left + 1) (Nat.le_refl _) h).eq r (Nat.lt_succ_self _)

/-- `ReadAny` is its own nested call. -/
theorem run_readAny_eq (r : Buffer) : readAny.run r = (readAnyBody readAny).run r := by
  have hnested : Agrees Buffer.left r.left (readAnyDepth r.left) readAny :=
    ⟨fun r' hlt => (run_readAny_of_lt hlt).symm⟩
  rw [run_readAny, readAnyDepth]
  exact (agrees_readAnyBody (readAnyDepth r.left) readAny).eq r (Nat.lt_succ_self _)

/-- `ReadAny` by well-founded recursion: a nested call that does not find less than `n` unread bytes
    stops the run. -/
def readAnyBelow (n : Nat) : BufM Value := readAnyBody fun r =>
  if r.left < n then readAnyBelow r.left r else .error .depth r
termination_by n

theorem run_readAnyBelow {n : Nat} {r : Buffer} (h : r.left ≤ n) : (readAnyBelow n).run r = readAny.run r := by
  induction n using Nat.strongRecOn generalizing r with
  | ind n ih =>
    have hnested : Agrees Buffer.left n
        (fun r => if r.left < n then readAnyBelow r.left r else .error .depth r) readAny := by
      constructor
      intro r' hlt
      show (if r'.left < n then (readAnyBelow r'.left).run r' else _) = _
      rw [if_pos hlt]
      exact ih r'.left hlt (Nat.le_refl _)
    rw [run_readAny_eq, readAnyBelow]
    exact (agrees_readAnyBody _ readAny).eq r (Nat.lt_succ_of_le h)

end GoAmqp
