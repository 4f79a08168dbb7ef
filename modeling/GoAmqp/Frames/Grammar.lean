import GoAmqp.Encoding.Grammar
import GoAmqp.Frames.Types

set_option autoImplicit false

/-! # Frame bodies under the strict grammar

Every performative and every SASL frame is a composite, so its encoder emits one item as soon as the
encoders of its fields do. A transfer is followed by its payload, which is not part of the
composite. -/

namespace GoAmqp

open Lib Buffer

/-! ## Fields -/

variable {S : Prop}

theorem emits_forM {α : Type} {P : Bytes → Prop} {R : Nat → Bytes → Prop} (hnil : R 0 [])
    (hcons : ∀ n bs cs, P bs → R n cs → R (n + 1) (bs ++ cs)) {f : α → BufM Unit} (a : List α)
    (h : ∀ x ∈ a, Emits S P (f x)) : Emits S (R a.length) (a.forM f) := by
  induction a with
  | nil => exact Writes.pure.emits fun _ => hnil
  | cons x a ih =>
    obtain ⟨hx, ha⟩ := List.forall_mem_cons.mp h
    exact hx.bind (ih ha) (hcons a.length)

/-- An entry of a map. -/
def Pair (bs : Bytes) : Prop := ∃ k v, Item k ∧ Item v ∧ bs = k ++ v

theorem emits_forM_pairs {α : Type} {f : α → BufM Unit} (a : List α) (h : ∀ x ∈ a, Emits S Pair (f x)) :
    Emits S (Pairs a.length) (a.forM f) := by
  refine emits_forM .nil (fun n bs cs hbs hcs => ?_) a h
  obtain ⟨k, v, hk, hv, rfl⟩ := hbs
  rw [List.append_assoc]
  exact .cons hk hv hcs

theorem Emits.entry {key value : BufM Unit} (hk : Emits S Item key) (hv : Emits S Item value) :
    Emits S Pair (do key; value) :=
  hk.bind hv fun k v hk hv => ⟨k, v, hk, hv, rfl⟩

@[simp] theorem emits_marshalUint16 (n : UInt16) : Emits S Item (marshalUint16 n) :=
  (writes_uint16 _ n).emits_fixed (by decide) rfl

@[simp] theorem emits_marshalUint8 (n : UInt8) : Emits S Item (marshalUint8 n) :=
  (Writes.appendBytes _).emits_fixed (by decide) rfl

@[simp] theorem emits_marshalMilliseconds (d : Duration) : Emits S Item (marshalMilliseconds d) := emits_writeUint32 _

@[simp] theorem emits_marshalSymbolMap (m : SymbolMap) (h : S → SingleKeyed m) : Emits S Item (marshalSymbolMap m) :=
  emits_writeMap (emits_marshalSymbolEntries m h)

/-- The values in the states write one item each. -/
def SingleUnsettled (u : Unsettled) : Prop := ∀ e ∈ u, ∀ s, e.2 = some s → SingleState s

def SingleFilter (f : Filter) : Prop := ∀ e ∈ f, ∀ d, e.2 = some d → d.1.Single ∧ d.2.Single

@[simp] theorem emits_marshalUnsettled (u : Unsettled) (h : S → SingleUnsettled u) :
    Emits S Item (marshalUnsettled u) := by
  refine emits_writeMap (emits_forM_pairs u fun e he => .entry (emits_writeString e.1) ?_)
  split
  · exact (Writes.appendBytes _).emits_fixed (by decide) rfl
  · next s hs => exact emits_marshalState s fun hS => h hS e he s hs

@[simp] theorem emits_marshalFilter (f : Filter) (h : S → SingleFilter f) : Emits S Item (marshalFilter f) := by
  refine emits_writeMap (emits_forM_pairs f fun e he => .entry (emits_marshalSymbol e.1) ?_)
  split
  · exact .inl (refuses_throw _)
  · next d hd => exact emits_marshal _ fun hS => h hS e he d hd

@[simp] theorem emitsItem_ptrField {α : Type} {write : α → BufM Unit} (o : Option α)
    (h : ∀ a, o = some a → Emits S Item (write a)) : (ptrField write o).EmitsItem S := by
  cases o with
  | none => simp [ptrField]
  | some a => simp [ptrField, h]

theorem emitsItem_ptr {α : Type} {write : α → BufM Unit} {Q : α → Prop}
    (hwrite : ∀ a, (S → Q a) → Emits S Item (write a)) (o : Option α) (h : S → ∀ a, o = some a → Q a) :
    (ptrField write o).EmitsItem S :=
  emitsItem_ptrField o fun a ha => hwrite a fun hS => h hS a ha

/-! ## Frame bodies -/

def Source.Single (s : Source) : Prop := SingleKeyed s.dynamicNodeProperties ∧ SingleFilter s.filter

def Target.Single (t : Target) : Prop := SingleKeyed t.dynamicNodeProperties

/-- Each value in the body that writes itself writes one item. -/
def FrameBody.Single : FrameBody → Prop
  | .open_ b => SingleKeyed b.properties
  | .begin_ b => ∀ p, b.properties = some p → SingleKeyed p
  | .attach b => (∀ s, b.source = some s → s.Single) ∧ (∀ t, b.target = some t → t.Single) ∧
      SingleUnsettled b.unsettled ∧ SingleKeyed b.properties
  | .flow b => SingleKeyed b.properties
  | .transfer b => ∀ s, b.state = some s → SingleState s
  | .disposition b => ∀ s, b.state = some s → SingleState s
  | .detach b => ∀ e, b.error = some e → SingleError e
  | .end_ b => ∀ e, b.error = some e → SingleError e
  | .close b => ∀ e, b.error = some e → SingleError e
  | _ => True

@[simp] theorem emits_source (s : Source) (h : S → s.Single) : Emits S Item s.marshal :=
  emits_marshalComposite (by simp [emits_marshalSymbolMap _ fun hS => (h hS).1,
    emits_marshalFilter _ fun hS => (h hS).2])

@[simp] theorem emits_target (t : Target) (h : S → t.Single) : Emits S Item t.marshal :=
  emits_marshalComposite (by simp [emits_marshalSymbolMap _ h])

@[simp] theorem emits_performTransfer (t : PerformTransfer) (h : S → (FrameBody.transfer t).Single) :
    Emits S Item t.marshalComposite :=
  emits_marshalComposite (by simp [emitsItem_ptr emits_marshalState _ h])

/-- The bytes of a frame body: one item and, behind a transfer, the payload. -/
def FrameBody.Emitted (b : FrameBody) (bs : Bytes) : Prop := ∃ item, Item item ∧
  bs = item ++ match b with
    | .transfer t => t.payload
    | _ => []

/-- A body without a payload. -/
theorem Emits.body {m : BufM Unit} (h : Emits S Item m) : Emits S (fun bs => ∃ item, Item item ∧ bs = item ++ []) m :=
  h.mono fun bs hbs => ⟨bs, hbs, (List.append_nil bs).symm⟩

theorem emits_frameBody (b : FrameBody) (h : S → b.Single) : Emits S b.Emitted b.marshal := by
  cases b with
  | transfer t =>
    have hpayload : Emits S (· = t.payload) (appendBytes t.payload) := (Writes.appendBytes _).emits fun _ => rfl
    refine (emits_performTransfer t h).bind hpayload ?_
    rintro item _ hitem rfl
    exact ⟨item, hitem, rfl⟩
  | open_ b | flow b => exact .body (emits_marshalComposite (by simp [emits_marshalSymbolMap _ h]))
  | begin_ b => exact .body (emits_marshalComposite (by simp [emitsItem_ptr emits_marshalSymbolMap _ h]))
  | attach b =>
    have hsource := emitsItem_ptr emits_source b.source fun hS => (h hS).1
    have htarget := emitsItem_ptr emits_target b.target fun hS => (h hS).2.1
    have hunsettled := emits_marshalUnsettled b.unsettled fun hS => (h hS).2.2.1
    have hproperties := emits_marshalSymbolMap b.properties fun hS => (h hS).2.2.2
    exact .body (emits_marshalComposite (by simp [hsource, htarget, hunsettled, hproperties]))
  | disposition b => exact .body (emits_marshalComposite (by simp [emitsItem_ptr emits_marshalState _ h]))
  | detach b | end_ b | close b =>
    exact .body (emits_marshalComposite (by simp [emitsItem_ptr emits_marshalError _ h]))
  | saslInit b | saslMechanisms b | saslChallenge b | saslResponse b | saslOutcome b =>
    have hitem : Emits S Item b.marshal := emits_marshalComposite (by simp)
    exact hitem.body

end GoAmqp
