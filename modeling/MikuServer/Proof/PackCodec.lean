import MikuServer.Impl.MessageSend
import MikuServer.Proof.MessageCodec

/-!
# What the room server sends, as objects of the generated classes

`Pack` has a message's values, and `Pack.message` is the object in which they are
set. Its `ByteSize` is the one that the sizes of the packets are computed with,
and the object is parsed from what it is serialized to (`Pack.parse_serialize`).
-/

namespace Miku

open Protobuf WireFormat

namespace FieldValue

def size : FieldValue → Nat
  | .enum v => v.size
  | .int v => int32Size v
  | .bool _ => boolSize
  | .str s => stringSize s.length

/-- The value is one that its type in the program has. -/
def InRange : FieldValue → Prop
  | .int v => -2 ^ 31 ≤ v ∧ v < 2 ^ 31
  | .str s => s.length < 2 ^ 31
  | _ => True

theorem toInt_cell_enum (v : EnumMsgID) : (cint v.value).toInt = v.value := by
  cases v <;> rfl

theorem fits {v : FieldValue} (h : v.InRange) : v.type.Fits v.cell := by
  cases v with
  | enum v =>
    change enumMsgIDIsValid (cint v.value).toInt = true
    cases v <;> rfl
  | int v => trivial
  | bool v =>
    cases v
    · exact .inl rfl
    · exact .inr rfl
  | str s => exact h

theorem size_cell [Runtime] [Runtime.Documented] {v : FieldValue} (h : v.InRange) : v.type.size v.cell = v.size := by
  have hsize (type : DeclaredType) (w : Value) := Runtime.Documented.valueSize_eq type w
  cases v with
  | enum v => exact (hsize .enum _).trans (congrArg int32Size (toInt_cell_enum v))
  | int v => exact (hsize .int32 _).trans (congrArg int32Size (toInt_cint h.1 h.2))
  | bool v => rfl
  | str s => exact hsize .string _

end FieldValue

/-- The fields of a class, all of them `required`. -/
def fieldsOf (vs : List FieldValue) : List ScalarField := vs.map fun v => .required v.type

theorem cellsFit_setAll {vs : List FieldValue} (h : ∀ v ∈ vs, v.InRange) :
    CellsFit (fieldsOf vs) (vs.map fun v => some v.cell) := by
  induction vs with
  | nil => exact .nil
  | cons v vs ih =>
    rw [List.forall_mem_cons] at h
    refine .cons ?_ (ih h.2)
    rintro w ⟨⟩
    exact FieldValue.fits h.1

theorem cellsSize_setAll [Runtime] [Runtime.Documented] {vs : List FieldValue} (h : ∀ v ∈ vs, v.InRange) :
    MessageType.cellsSize (fieldsOf vs) (vs.map fun v => some v.cell) = fieldsSize (vs.map FieldValue.size) := by
  induction vs with
  | nil => rfl
  | cons v vs ih =>
    rw [List.forall_mem_cons] at h
    have ih := ih h.2
    change 1 + v.type.size v.cell + MessageType.cellsSize (fieldsOf vs) (vs.map fun v => some v.cell) = _
    rw [List.map_cons, fieldsSize_cons, FieldValue.size_cell h.1, ih]

theorem hasRequired_setAll (vs : List FieldValue) (items : List Message) :
    MessageType.isInitialized.hasRequired (fieldsOf vs) (setAll vs items) = true := by
  refine List.all_eq_true.mpr fun p hp => ?_
  obtain ⟨v, -, hv⟩ := List.mem_map.mp (List.of_mem_zip hp).2
  rw [← hv, Option.isSome_some, Bool.or_true]

/-- The elements of a list are of one class. -/
structure IsItem (fields : List ScalarField) (vs : List FieldValue) : Prop where
  fields_eq : fieldsOf vs = fields
  inRange : ∀ v ∈ vs, v.InRange

/-! ## A class with and without a list -/

section

variable {vs : List FieldValue} {fields : List ScalarField} {items : List (List FieldValue)}
  {hlen : (fieldsOf vs).length < 15} {hlen' : fields.length < 16}

theorem list_isInitialized (hi : ∀ e ∈ items, IsItem fields e) :
    (MessageType.list (fieldsOf vs) (.flat fields hlen') hlen).isInitialized
      (setAll vs (items.map fun e => setAll e [])) = true := by
  rw [MessageType.isInitialized, Bool.and_eq_true]
  refine ⟨hasRequired_setAll _ _, ?_⟩
  change (items.map fun e => setAll e []).all _ = true
  rw [List.all_map, List.all_eq_true]
  intro e he
  obtain ⟨rfl, -⟩ := hi e he
  exact hasRequired_setAll e []

variable [Runtime]

theorem flat_fits (h : ∀ v ∈ vs, v.InRange) (hlen : (fieldsOf vs).length < 16) (depth : Nat) :
    (MessageType.flat (fieldsOf vs) hlen).Fits depth (setAll vs []) :=
  ⟨cellsFit_setAll h, rfl, fun _ hu => absurd hu List.not_mem_nil⟩

theorem list_fits (h : ∀ v ∈ vs, v.InRange) (hi : ∀ e ∈ items, IsItem fields e) {depth : Nat} (hd : depth ≠ 0) :
    (MessageType.list (fieldsOf vs) (.flat fields hlen') hlen).Fits depth
      (setAll vs (items.map fun e => setAll e [])) := by
  refine ⟨cellsFit_setAll h, ?_, fun _ hu => absurd hu List.not_mem_nil⟩
  change ∀ e ∈ items.map fun e => setAll e [], _
  rw [List.forall_mem_map]
  intro e he
  obtain ⟨rfl, hr⟩ := hi e he
  exact ⟨hd, flat_fits hr hlen' _⟩

variable [Runtime.Documented]

theorem flat_byteSize (h : ∀ v ∈ vs, v.InRange) (hlen : (fieldsOf vs).length < 16) :
    (MessageType.flat (fieldsOf vs) hlen).byteSize (setAll vs []) = fieldsSize (vs.map FieldValue.size) := by
  change MessageType.cellsSize (fieldsOf vs) (vs.map fun v => some v.cell) + Runtime.unknownFieldsSize [] = _
  rw [cellsSize_setAll h, MessageType.unknownFieldsSize_nil, Nat.add_zero]

theorem list_byteSize (h : ∀ v ∈ vs, v.InRange) (hi : ∀ e ∈ items, IsItem fields e) :
    (MessageType.list (fieldsOf vs) (.flat fields hlen') hlen).byteSize (setAll vs (items.map fun e => setAll e [])) =
      fieldsSize (vs.map FieldValue.size ++ items.map fun e => stringSize (fieldsSize (e.map FieldValue.size))) := by
  have hsum : (1 * (items.map fun e => setAll e []).length +
      ((items.map fun e => setAll e []).map fun e =>
        Runtime.messageSize ((MessageType.flat fields hlen').byteSize e)).sum) =
      fieldsSize (items.map fun e => stringSize (fieldsSize (e.map FieldValue.size))) := by
    induction items with
    | nil => rfl
    | cons e items ih =>
      rw [List.forall_mem_cons] at hi
      obtain ⟨⟨rfl, hr⟩, hi⟩ := hi
      have ih := ih hi
      simp only [List.map_cons, List.length_cons, List.sum_cons, fieldsSize_cons, flat_byteSize hr,
        Runtime.Documented.messageSize_eq] at ih ⊢
      omega
  rw [fieldsSize_append, ← hsum, ← cellsSize_setAll h]
  change _ + Runtime.unknownFieldsSize [] = _
  rw [MessageType.unknownFieldsSize_nil]
  exact Nat.add_zero _

end

/-! ## The messages -/

namespace Pack

/-- The numbers are numbers that the program has. -/
structure InRange (p : Pack) : Prop where
  values : ∀ v ∈ p.values, v.InRange
  items : ∀ e ∈ p.items, ∀ v ∈ e, v.InRange

/-- The class is that of the values. -/
theorem type_cases (p : Pack) :
    (∃ h, p.type = .flat (fieldsOf p.values) h ∧ p.items = []) ∨
      ∃ fields h h', p.type = .list (fieldsOf p.values) (.flat fields h') h ∧ ∀ e ∈ p.items, fieldsOf e = fields := by
  cases p
  case userInfoListID m =>
    refine .inr ⟨_, Nat.le_of_ble_eq_true rfl, by decide, rfl, ?_⟩
    change ∀ e ∈ m.userInfoList.map StruUserInfo.values, _
    rw [List.forall_mem_map]
    exact fun _ _ => rfl
  case roomMicInfoID m =>
    refine .inr ⟨_, Nat.le_of_ble_eq_true rfl, by decide, rfl, ?_⟩
    change ∀ e ∈ m.micList.map StruMicInfo.values, _
    rw [List.forall_mem_map]
    exact fun _ _ => rfl
  all_goals exact .inl ⟨Nat.le_of_ble_eq_true rfl, rfl, rfl⟩

theorem byteSize_values (p : Pack) : p.byteSize =
    fieldsSize (p.values.map FieldValue.size ++ p.items.map fun e => stringSize (fieldsSize (e.map FieldValue.size))) := by
  cases p
  case userInfoListID m =>
    change fieldsSize _ = fieldsSize (_ ++ (m.userInfoList.map StruUserInfo.values).map _)
    rw [List.map_map]
    rfl
  case roomMicInfoID m =>
    change fieldsSize _ = fieldsSize (_ ++ (m.micList.map StruMicInfo.values).map _)
    rw [List.map_map]
    rfl
  all_goals rfl

section

variable [Runtime] [Runtime.Documented]

/-- The object of a message, and its size. -/
theorem message_ok {p : Pack} (h : p.InRange) :
    p.type.Fits 64 p.message ∧ p.type.isInitialized p.message = true ∧ p.type.byteSize p.message = p.byteSize := by
  rw [byteSize_values, message]
  obtain ⟨hlen, ht, hi⟩ | ⟨fields, hlen, hlen', ht, hi⟩ := p.type_cases
  · rw [ht, hi]
    refine ⟨flat_fits h.values hlen _, hasRequired_setAll _ _, ?_⟩
    rw [List.map_nil, flat_byteSize h.values hlen, List.map_nil, List.append_nil]
  · have hitems : ∀ e ∈ p.items, IsItem fields e := fun e he => ⟨hi e he, h.items e he⟩
    rw [ht]
    exact ⟨list_fits h.values hitems (by decide), list_isInitialized hitems, list_byteSize h.values hitems⟩

/-- `ByteSize` of a message is the number of bytes that are written for it, and it is parsed from them
with the values that were set. -/
theorem parse_serialize {p : Pack} (h : p.InRange) (hs : p.byteSize < 2 ^ 31) :
    (p.type.serialize p.message).length = p.byteSize ∧
      p.type.parseFromArray (p.type.serialize p.message) (cint p.byteSize) = some p.message := by
  obtain ⟨hfit, hinit, hsize⟩ := message_ok h
  have hlen : (p.type.serialize p.message).length = p.byteSize := by
    rw [← hsize]
    exact MessageType.length_serialize hfit (by omega)
  refine ⟨hlen, ?_⟩
  rw [MessageType.parseFromArray_eq_some, toInt_cint (by omega) (by omega), Int.toNat_natCast, ← hlen, List.take_length]
  exact ⟨MessageType.merge_serialize hfit (by omega), hinit⟩

end

/-- The microphones of a room, with one holder. -/
def micList : Pack := .roomMicInfoID ⟨.roomMicInfoID, 1, 2, [⟨.micInfo, 1, [97, 98], [99]⟩]⟩

theorem parse_serialize_micList :
    (micList.type.serialize micList.message).length = micList.byteSize ∧
      micList.type.parseFromArray (micList.type.serialize micList.message) (cint micList.byteSize) =
        some micList.message := by
  refine parse_serialize ⟨?_, ?_⟩ (by decide)
  · simp [micList, values, FieldValue.InRange]
  · simp [micList, items, StruMicInfo.values, FieldValue.InRange]

end Pack

end Miku
