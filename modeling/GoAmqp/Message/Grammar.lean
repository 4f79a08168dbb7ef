import GoAmqp.Frames.Grammar
import GoAmqp.Message

set_option autoImplicit false

/-! # Messages under the strict grammar

A message is a sequence of described sections, each one item. With the values and the frame bodies
this is everything that the encoder is used for: `marshal_sizes_exact`. -/

namespace GoAmqp

open Lib Buffer List

/-! ## Sections -/

/-- Items one behind the other. -/
def Sequence (bs : Bytes) : Prop := ∃ n, Items n bs

theorem Sequence.nil : Sequence [] := ⟨0, .nil⟩

theorem Sequence.append {bs cs : Bytes} (hbs : Sequence bs) (hcs : Sequence cs) : Sequence (bs ++ cs) := by
  obtain ⟨_, xs, -, hxs, rfl⟩ := hbs
  obtain ⟨_, ys, -, hys, rfl⟩ := hcs
  exact ⟨_, xs ++ ys, rfl, forall_mem_append.mpr ⟨hxs, hys⟩, flatten_append.symm⟩

theorem Item.sequence {bs : Bytes} (h : Item bs) : Sequence bs := ⟨1, [bs], rfl, by simpa using h, by simp⟩

/-- The bytes of some sections: if there are none, `A` holds, which says that none of the sections is set. -/
def Parts (S A : Prop) (bs : Bytes) : Prop := (bs = [] → A) ∧ (S → Sequence bs)

variable {S : Prop}

theorem Emits.seq {A B : Prop} {m : BufM Unit} {f : Unit → BufM Unit} (hm : Emits True (Parts S A) m)
    (hf : Emits True (Parts S B) (f ())) : Emits True (Parts S (A ∧ B)) (m >>= f) := by
  refine hm.bind hf fun bs cs hbs hcs => ⟨fun hnil => ?_, fun hS => (hbs.2 hS).append (hcs.2 hS)⟩
  obtain ⟨hb, hc⟩ := append_eq_nil_iff.mp hnil
  exact ⟨hbs.1 hb, hcs.1 hc⟩

section Sections

variable {α : Type} {write : α → BufM Unit}

theorem emits_writeOptional (o : Option α) (h : ∀ a, o = some a → Emits True (Section_ S) (write a)) :
    Emits True (Parts S (o = none)) (writeOptional write o) := by
  cases o with
  | none => exact Writes.pure.emits fun _ => ⟨fun _ => rfl, fun _ => .nil⟩
  | some a => exact (h a rfl).mono fun bs hbs => ⟨fun hnil => absurd hnil hbs.1, fun hS => (hbs.2 hS).sequence⟩

theorem emits_sections (a : List α) (h : ∀ x ∈ a, Emits True (Section_ S) (write x)) :
    Emits True (Parts S (a = [])) (a.forM write) := by
  have hall := emits_forM (R := fun n => Parts S (n = 0)) ⟨fun _ => rfl, fun _ => .nil⟩
    (fun n bs cs hbs hcs => ⟨fun hnil => absurd (append_eq_nil_iff.mp hnil).1 hbs.1,
      fun hS => (hbs.2 hS).sequence.append (hcs.2 hS)⟩) a h
  exact hall.mono fun bs hbs => ⟨fun hnil => length_eq_zero_iff.mp (hbs.1 hnil), hbs.2⟩

theorem emits_writeSection (code : UInt8) {a : α} (h : Emits S Item (write a)) :
    Emits True (Section_ S) (writeSection code write a) := by
  have hitem : Emits True (fun bs => S → Item bs) (write a) :=
    h.imp_right fun ⟨bs, hw, hitem⟩ => ⟨bs, hw, fun hlt _ => hitem hlt⟩
  exact hitem.after [0x0, TypeCode.smallUlong, code] fun bs hbs =>
    ⟨by simp, fun hS => .described (item_descriptor code) (hbs hS)⟩

end Sections

theorem emits_messageHeader (h : MessageHeader) : Emits True (Section_ S) h.marshal := emits_compositeSection (by simp)

theorem emits_messageProperties (p : MessageProperties) (hid : S → p.messageID.Single)
    (hcorrelation : S → p.correlationID.Single) : Emits True (Section_ S) p.marshal :=
  emits_compositeSection (by simp [emits_marshal _ hid, emits_marshal _ hcorrelation])

/-- Each value in the message that writes itself writes one item. -/
structure Sections.Single (m : Sections) : Prop where
  annotations : ∀ a, some a ∈ [m.deliveryAnnotations, m.annotations, m.footer] → SingleEntries a
  properties : ∀ p, m.properties = some p → p.messageID.Single ∧ p.correlationID.Single
  applicationProperties : ∀ p, m.applicationProperties = some p → SingleKeyed p
  value : m.value.Single
  sequence : ∀ xs ∈ m.sequence, SingleElements xs

/-- A message is a sequence of sections, and nothing is written only if it has none. -/
theorem emits_message (m : Sections) (h : S → m.Single) : Emits True (Parts S (m = .zero)) m.marshal := by
  have hannotations (code : UInt8) {o : Option Annotations}
      (ho : o ∈ [m.deliveryAnnotations, m.annotations, m.footer]) :
      Emits True (Parts S (o = none)) (writeOptional (writeSection code marshalAnnotations) o) := by
    refine emits_writeOptional o ?_
    rintro a rfl
    exact emits_writeSection code
      (emits_writeMap (emits_marshalAnnotationEntries a fun hS => (h hS).annotations a ho))
  suffices hall : Emits True (Parts S (m.header = none ∧ m.deliveryAnnotations = none ∧ m.annotations = none ∧
      m.properties = none ∧ m.applicationProperties = none ∧ m.data = [] ∧ m.value.optional = none ∧
      m.sequence = [] ∧ m.footer = none)) m.marshal by
    refine hall.mono fun bs hbs => ⟨fun hnil => ?_, hbs.2⟩
    obtain ⟨header, delivery, annotations, properties, application, data, value, sequence, footer⟩ := m
    obtain ⟨rfl, rfl, rfl, rfl, rfl, rfl, hvalue, rfl, rfl⟩ := hbs.1 hnil
    cases value <;> first | rfl | cases hvalue
  refine (emits_writeOptional _ fun a _ => emits_messageHeader a).seq ?_
  refine (hannotations _ (by simp)).seq ?_
  refine (hannotations _ (by simp)).seq ?_
  refine (emits_writeOptional _ fun p hp => emits_messageProperties p (fun hS => ((h hS).properties p hp).1)
    fun hS => ((h hS).properties p hp).2).seq ?_
  refine (emits_writeOptional _ fun p hp => emits_writeSection _
    (emits_marshal (.mapString p) fun hS => (h hS).applicationProperties p hp)).seq ?_
  refine (emits_sections _ fun d _ => emits_writeSection _ (emits_writeBinary d)).seq ?_
  refine (emits_writeOptional _ fun v hv => emits_writeSection _ (emits_marshal v fun hS => ?_)).seq ?_
  · rw [← (Value.optional_eq_some hv).1]
    exact (h hS).value
  refine (emits_sections _ fun xs hxs => emits_writeSection _
    (emits_marshal (.list xs) fun hS => (h hS).sequence xs hxs)).seq ?_
  exact hannotations _ (by simp)

/-! ## Everything that is encoded -/

/-- **Size and count fields are exact.** Whatever the buffer already holds, a `Marshal` that succeeds
    has appended some bytes to it. If these are less than 2^32 and every value that writes itself writes
    one item, those of a value or of a composite are one item of the strict grammar, those of a frame body
    one item and the payload of a transfer, and those of a message a sequence of items; and a reader finds
    the end of every item by its type code and size field. -/
theorem marshal_sizes_exact (w w' : Buffer) (hw : w.WF) :
    (∀ v : Value, v.Single → (marshal v).run w = .ok () w' →
      ∃ bs, w' = w.append bs ∧ (bs.length < 2 ^ 32 → Item bs)) ∧
    (∀ (code : UInt8) (fields : List (Value × Bool)), (∀ f ∈ fields, f.2 = false → f.1.Single) →
      (marshalComposite code (fields.map fun f => ⟨marshal f.1, f.2⟩)).run w = .ok () w' →
        ∃ bs, w' = w.append bs ∧ (bs.length < 2 ^ 32 → Item bs)) ∧
    (∀ b : FrameBody, b.Single → b.marshal.run w = .ok () w' →
      ∃ bs, w' = w.append bs ∧ (bs.length < 2 ^ 32 → b.Emitted bs)) ∧
    (∀ m : Sections, m.Single → m.marshal.run w = .ok () w' →
      ∃ bs, w' = w.append bs ∧ (bs.length < 2 ^ 32 → Sequence bs)) ∧
    ∀ bs rest, Item bs → boundary (bs ++ rest) = some bs.length := by
  refine ⟨fun v h => (emits_marshal v id).of_run h hw, fun code fields h => ?_,
    fun b h => (emits_frameBody b id).of_run h hw, fun m h hrun => ?_, fun bs rest h => h.boundary_append rest⟩
  · refine (emits_marshalComposite (S := True) ?_).of_run trivial hw
    exact forall_mem_map.mpr fun f hf hset => emits_marshal f.1 fun _ => h f hf hset
  · obtain ⟨bs, happ, hparts⟩ := (emits_message m id).of_run trivial hw hrun
    exact ⟨bs, happ, fun hlt => (hparts hlt).2 h⟩

/-- The value whose `Marshal` is `m`, by what it does to an empty buffer. The methods of this library do
    the same to every other buffer: they satisfy `Emits`. -/
def Marshaler.of (type_ : String) (m : BufM Unit) : Marshaler :=
  match m.run (.new []) with
  | .ok _ w => ⟨type_, w.b, none⟩
  | .error f w => ⟨type_, w.b, some f⟩

/-- A method that emits an item makes a value that writes one. -/
theorem single_of_emits (type_ : String) {m : BufM Unit} (h : Emits True Item m) : (Marshaler.of type_ m).Single := by
  unfold Marshaler.of
  cases hrun : m.run (.new []) with
  | error f w => exact nofun
  | ok u w =>
    obtain ⟨bs, rfl, hitem⟩ := h.of_run trivial (Nat.zero_le _) hrun
    exact fun _ => hitem

/-- A list in which a map, an array and the header of a message stand. -/
def nestedList : Value := .list [.mapString [([107], .uint32 300)], .arraySymbol [[97], []],
  .marshaler (.of "*amqp.MessageHeader" (MessageHeader.marshal { MessageHeader.zero with durable := true }))]

def nestedListBytes : Bytes := [
  0xd0, 0, 0, 0, 43, 0, 0, 0, 3,
  0xd1, 0, 0, 0, 12, 0, 0, 0, 2, 0xa1, 1, 107, 0x70, 0, 0, 1, 44,
  0xe0, 5, 2, 0xa3, 1, 97, 0,
  0, 0x53, 0x70, 0xd0, 0, 0, 0, 7, 0, 0, 0, 2, 0x41, 0x50, 0]

/-- Written behind three bytes, of which one has been read. -/
theorem marshal_sizes_exact_nested :
    let w : Buffer := ⟨[7, 8, 9], 1⟩
    (marshal nestedList).run w = .ok () (w.append nestedListBytes) ∧
      ∃ bs, w.append nestedListBytes = w.append bs ∧ (bs.length < 2 ^ 32 → Item bs) := by
  have hrun : (marshal nestedList).run ⟨[7, 8, 9], 1⟩
      = .ok () (Buffer.append ⟨[7, 8, 9], 1⟩ nestedListBytes) := rfl
  have hwf : (⟨[7, 8, 9], 1⟩ : Buffer).WF := Nat.le_add_left 1 2
  have hsingle : nestedList.Single :=
    ⟨⟨trivial, trivial⟩, trivial, single_of_emits _ (emits_marshalComposite (by simp)), trivial⟩
  exact ⟨hrun, (marshal_sizes_exact _ _ hwf).1 nestedList hsingle hrun⟩

/-- `[]any{&Message{}}`: an empty message writes nothing, so the list says that it has one element and has none. -/
theorem message_in_list_has_no_bytes :
    (marshal (.list [.marshaler (.of "*amqp.Message" Sections.zero.marshal)])).run (.new [])
      = .ok () (.new [0xd0, 0, 0, 0, 4, 0, 0, 0, 1]) ∧
    ¬ Item [0xd0, 0, 0, 0, 4, 0, 0, 0, 1] := by
  have hstarts {codes : List UInt8} (h : StartsWith codes [0xd0, 0, 0, 0, 4, 0, 0, 0, 1]) : 0xd0 ∈ codes := by
    obtain ⟨t, tail, hbs, ht⟩ := h
    rwa [(List.cons.inj hbs).1]
  refine ⟨rfl, fun h => ?_⟩
  cases h with
  | fixed hc _ => exact absurd hc (by decide)
  | @var code8 code32 _ _ hc hform =>
    have hcode := hstarts hform.starts
    simp only [variableCodes, mem_cons, Prod.mk.injEq, not_mem_nil, or_false] at hc
    rcases hc with ⟨rfl, rfl⟩ | ⟨rfl, rfl⟩ | ⟨rfl, rfl⟩ <;> exact absurd hcode (by decide)
  | @list items _ hitems hform =>
    obtain ⟨-, -⟩ | hform := hform
    suffices hnone : ∀ bs, CompoundForm TypeCode.list8 TypeCode.list32 items.length items.flatten bs →
        bs ≠ [0xd0, 0, 0, 0, 4, 0, 0, 0, 1] from hnone _ hform rfl
    intro bs hform hbs
    cases hform with
    | short => cases (List.cons.inj hbs).1
    | long =>
      -- nothing stands behind the count, and an item has at least one byte
      have hlen := congrArg List.length hbs
      simp only [length_cons, length_append, length_be32, length_nil] at hlen
      cases items with
      | nil => cases hbs
      | cons x xs =>
        have hpos := (hitems x (mem_cons_self ..)).pos
        rw [flatten_cons, length_append] at hlen
        omega
  | map _ _ hform => exact absurd (hstarts hform.starts) (by decide)
  | array _ hform => exact absurd (hstarts hform.starts) (by decide)

end GoAmqp
