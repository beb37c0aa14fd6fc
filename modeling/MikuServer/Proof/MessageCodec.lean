import Mathlib.Data.List.Forall2
import MikuServer.Framework.CodedRuntime
import MikuServer.Impl.MessageCodec

/-!
# What is sent is what is parsed

With any runtime that is as documented, the jumps of the generated code are the
loop without them (`parseFromArray_eq_parse`), and an object whose fields are of
their types is parsed from what it is serialized to (`merge_serialize`), in as many
bytes as its `ByteSize` says (`length_serialize`).
-/

namespace Miku.Protobuf

open WireFormat MessageReader

/-! ## Values -/

/-- A value is of a field's type. -/
def FieldType.Fits : FieldType → Value → Prop
  | .int32, .num _ => True
  | .bool, .num v => v = 0 ∨ v = 1
  | .enum isValid, .num v => isValid v.toInt = true
  | .string, .str s => s.length < 2 ^ 31
  | _, _ => False

theorem FieldType.Fits.declared {type : FieldType} {v : Value} (h : type.Fits v) : type.declared.Fits v := by
  cases type <;> cases v <;> first | exact h | trivial

/-- It is one that an enumeration has. -/
theorem FieldType.Fits.check_eq {type : FieldType} {v : Value} (h : type.Fits v) : type.check v = .inl v := by
  cases type <;> cases v <;> try rfl
  exact if_pos h

/-- What a field's reader leaves is of the field's type. -/
theorem FieldType.fits_of_check {type : FieldType} {v w : Value} (h : type.declared.Fits v)
    (hc : type.check v = .inl w) : type.Fits w := by
  cases type <;> cases v <;> try exact h.elim
  case int32.num v =>
    cases hc
    trivial
  case bool.num v =>
    cases hc
    exact h
  case enum.num isValid v =>
    rw [check] at hc
    split_ifs at hc with hv
    cases hc
    exact hv
  case string.str s =>
    cases hc
    exact h

/-- Only an enumeration has numbers that it does not have. -/
theorem FieldType.check_inr {type : FieldType} {v : Value} {x : CInt} (h : type.check v = .inr x) :
    ∃ isValid, type = .enum isValid ∧ v = .num x ∧ isValid x.toInt = false := by
  cases type with
  | int32 => cases h
  | bool => cases h
  | enum isValid =>
    cases v with
    | num v =>
      rw [check] at h
      split_ifs at h with hv
      cases h
      exact ⟨isValid, rfl, rfl, Bool.eq_false_iff.mpr hv⟩
    | str s => cases h
  | string => cases h

theorem FieldType.wireType_lt (type : FieldType) : type.wireType < 8 := by cases type <;> simp [FieldType.wireType]

/-! ## Objects -/

/-- The cells are of the types of the fields. -/
def CellsFit (fields : List ScalarField) (cells : List (Option Value)) : Prop :=
  List.Forall₂ (fun f c => ∀ v ∈ c, f.type.Fits v) fields cells

theorem cellsFit_set {fields : List ScalarField} {cells : List (Option Value)} (h : CellsFit fields cells) {n : Nat}
    {f : ScalarField} {v : Value} (hf : fields[n]? = some f) (hv : f.type.Fits v) :
    CellsFit fields (cells.set n (some v)) := by
  induction h generalizing n with
  | nil => exact .nil
  | @cons g c fields cells hc hrest ih =>
    cases n with
    | zero =>
      cases hf
      refine .cons ?_ hrest
      intro w hw
      cases hw
      exact hv
    | succ n => exact .cons hc (ih hf)

theorem cellsFit_replicate (fields : List ScalarField) : CellsFit fields (List.replicate fields.length none) := by
  induction fields with
  | nil => exact .nil
  | cons f fields ih => exact .cons (by intro v hv; cases hv) ih

theorem isSome_of_hasRequired {fields : List ScalarField} {cells : List (Option Value)} (h : CellsFit fields cells)
    (hreq : ∀ f ∈ fields, f.isRequired = true)
    (hi : ((fields.zip cells).all fun f => !f.1.isRequired || f.2.isSome) = true) : ∀ c ∈ cells, c.isSome = true := by
  induction h with
  | nil =>
    intro c hc
    cases hc
  | @cons f c fields cells _ _ ih =>
    rw [List.zip_cons_cons, List.all_cons, Bool.and_eq_true, hreq f List.mem_cons_self] at hi
    intro d hd
    rcases List.mem_cons.mp hd with rfl | hd
    · exact hi.1
    · exact ih (fun g hg => hreq g (List.mem_cons_of_mem _ hg)) hi.2 d hd

namespace Message

/-- The cells from the place `n` on are set. -/
def storeCells : Nat → List (Option Value) → Message → Message
  | _, [], m => m
  | n, some v :: cells, m => storeCells (n + 1) cells (m.setCell n v)
  | n, none :: cells, m => storeCells (n + 1) cells m

def addItems (self : Message) (items : List Message) : Message := items.foldl addItem self

def addUnknowns (self : Message) (us : List UnknownField) : Message := us.foldl addUnknown self

theorem addItems_eq (items items' : List Message) (cells : List (Option Value)) (us : List UnknownField) :
    (mk cells items us).addItems items' = mk cells (items ++ items') us := by
  induction items' generalizing items with
  | nil => rw [List.append_nil]; rfl
  | cons e items' ih =>
    have := ih (items ++ [e])
    rwa [List.append_assoc] at this

theorem addUnknowns_eq (us us' : List UnknownField) (cells : List (Option Value)) (items : List Message) :
    (mk cells items us).addUnknowns us' = mk cells items (us ++ us') := by
  induction us' generalizing us with
  | nil => rw [List.append_nil]; rfl
  | cons u us' ih =>
    have := ih (us ++ [u])
    rwa [List.append_assoc] at this

theorem storeCells_eq (before cells : List (Option Value)) (items : List Message) (us : List UnknownField) :
    storeCells before.length cells (mk (before ++ List.replicate cells.length none) items us) =
      mk (before ++ cells) items us := by
  induction cells generalizing before with
  | nil => rfl
  | cons c cells ih =>
    have ih := ih (before ++ [c])
    simp only [List.length_append, List.length_singleton, List.append_assoc, List.singleton_append] at ih
    cases c with
    | none => exact ih
    | some v =>
      have hset : (before ++ List.replicate (cells.length + 1) none).set before.length (some v) =
          before ++ some v :: List.replicate cells.length none := by
        rw [List.set_append_right _ _ (Nat.le_refl _), Nat.sub_self, List.replicate_succ, List.set_cons_zero]
      rw [storeCells, setCell]
      simp only [Message.cells, Message.items, Message.unknownFields, List.length_cons, hset]
      exact ih

/-- An object is what its parts make of a cleared one. -/
theorem rebuild {m : Message} {n : Nat} (h : m.cells.length = n) :
    ((storeCells 0 m.cells (mk (List.replicate n none) [] [])).addItems m.items).addUnknowns m.unknownFields = m := by
  obtain ⟨cells, items, us⟩ := m
  have hstore := storeCells_eq [] cells [] []
  rw [show cells.length = n from h, List.nil_append, List.nil_append] at hstore
  simp only [Message.cells, Message.items, Message.unknownFields]
  rw [show storeCells 0 cells (mk (List.replicate n none) [] []) = mk cells [] [] from hstore, addItems_eq,
    addUnknowns_eq, List.nil_append, List.nil_append]

end Message

/-! ## The fields of a class -/

namespace MessageType

section

variable [Runtime]

/-- The loop without the jumps, for a class and for the messages in its objects. -/
def reader (t : MessageType) (depth : Nat) : MessageReader Message := t.readerWith MessageReader.merge depth

/-- `ParseFromArray` by the loop without the jumps. -/
def parse (t : MessageType) (data : List Byte) (size : CInt) : Option Message :=
  Runtime.parseFromArray (fun depth input => (t.reader depth).merge t.new input) t.isInitialized data size

theorem reader_fields {t : MessageType} {depth n : Nat} {f : ScalarField} (h : t.fields[n]? = some f) :
    (t.reader depth).fields[n]? = some (scalarReader n f.type) := by
  cases t with
  | flat fields _ =>
    rw [reader, readerWith, List.getElem?_mapIdx, show fields[n]? = some f from h, Option.map_some]
  | list fields item _ =>
    have hn : n < fields.length := (List.getElem?_eq_some_iff.mp h).1
    rw [reader, readerWith, List.getElem?_append_left (by rwa [List.length_mapIdx]), List.getElem?_mapIdx,
      show fields[n]? = some f from h, Option.map_some]

theorem reader_items {fields : List ScalarField} {item : MessageType} {h : fields.length < 15} {depth : Nat} :
    ((list fields item h).reader depth).fields[fields.length]? =
      some (itemReader depth fun depth input => (item.reader depth).merge item.new input) := by
  rw [reader, readerWith, List.getElem?_append_right (by rw [List.length_mapIdx]), List.length_mapIdx, Nat.sub_self]
  rfl

theorem reader_unknown (t : MessageType) (depth : Nat) : (t.reader depth).unknown = readUnknown depth := by
  cases t <;> rfl

/-- The unknown fields that reading leaves: those without a declaration, and the numbers that an
enumeration does not have. -/
def Keeps (t : MessageType) (depth : Nat) (u : UnknownField) : Prop :=
  u.Fits depth ∧
    ((t.reader depth).declared u.tag = none ∨
      ∃ (n : Nat) (f : ScalarField) (isValid : Int → Bool) (x : CInt), t.fields[n]? = some f ∧ f.type = .enum isValid ∧
        isValid x.toInt = false ∧ u = .varint (n + 1) (x.signExtend 64).toNat)

/-- An object whose fields are of their types; the messages in it are at most `depth` deep. -/
def Fits : MessageType → Nat → Message → Prop
  | .flat fields h, depth, m =>
    CellsFit fields m.cells ∧ m.items = [] ∧ ∀ u ∈ m.unknownFields, (flat fields h).Keeps depth u
  | .list fields item h, depth, m =>
    CellsFit fields m.cells ∧ (∀ e ∈ m.items, depth ≠ 0 ∧ item.Fits (depth - 1) e) ∧
      ∀ u ∈ m.unknownFields, (list fields item h).Keeps depth u

theorem fits_new (t : MessageType) (depth : Nat) : t.Fits depth t.new := by
  cases t with
  | flat fields _ => exact ⟨cellsFit_replicate fields, rfl, fun _ hu => absurd hu List.not_mem_nil⟩
  | list fields item _ =>
    exact ⟨cellsFit_replicate fields, fun _ he => absurd he List.not_mem_nil, fun _ hu => absurd hu List.not_mem_nil⟩

theorem Fits.addUnknown {t : MessageType} {depth : Nat} {m : Message} {u : UnknownField} (h : t.Fits depth m)
    (hu : t.Keeps depth u) : t.Fits depth (m.addUnknown u) := by
  have hus {us : List UnknownField} (h : ∀ u ∈ us, t.Keeps depth u) : ∀ v ∈ us ++ [u], t.Keeps depth v := by
    intro v hv
    rcases List.mem_append.mp hv with hv | hv
    · exact h v hv
    · rw [List.mem_singleton.mp hv]
      exact hu
  cases t with
  | flat fields _ => exact ⟨h.1, h.2.1, hus h.2.2⟩
  | list fields item _ => exact ⟨h.1, h.2.1, hus h.2.2⟩

/-- A declared field that is not `repeated`. -/
theorem Fits.store {t : MessageType} {depth n : Nat} {m : Message} {f : ScalarField} {v : Value}
    (h : t.Fits depth m) (hf : t.fields[n]? = some f) (hv : f.type.declared.Fits v) :
    t.Fits depth (m.store n (f.type.check v)) := by
  rcases hc : f.type.check v with w | x
  · have hw := FieldType.fits_of_check hv hc
    cases t with
    | flat fields _ => exact ⟨cellsFit_set h.1 hf hw, h.2.1, h.2.2⟩
    | list fields item _ => exact ⟨cellsFit_set h.1 hf hw, h.2.1, h.2.2⟩
  · obtain ⟨isValid, htype, -, hx⟩ := FieldType.check_inr hc
    have hn : n < 16 := by
      have hlt := (List.getElem?_eq_some_iff.mp hf).1
      cases t with
      | flat fields hlen => exact Nat.lt_trans hlt hlen
      | list fields item hlen => exact Nat.lt_trans hlt (Nat.lt_succ_of_lt hlen)
    refine h.addUnknown ⟨⟨by omega, by omega, toNat_signExtend_lt x⟩, .inr ⟨n, f, isValid, x, hf, htype, hx, rfl⟩⟩

theorem Fits.addItem {fields : List ScalarField} {item : MessageType} {hlen : fields.length < 15} {depth : Nat}
    {m e : Message} (h : (list fields item hlen).Fits depth m) (hd : depth ≠ 0) (he : item.Fits (depth - 1) e) :
    (list fields item hlen).Fits depth (m.addItem e) := by
  refine ⟨h.1, fun e' he' => ?_, h.2.2⟩
  rcases List.mem_append.mp he' with he' | he'
  · exact h.2.1 e' he'
  · rw [List.mem_singleton.mp he']
    exact ⟨hd, he⟩

end

end MessageType

/-! ## The jumps -/

section Jumps

variable [Runtime] [Runtime.Documented] {σ : Type} {R : MessageReader σ}

/-- A jump is the turn of the tag that it skips. -/
theorem expectField_spec {n m : Nat} {input rest : List Byte} (h : expectField R n input = some (m, rest)) (s : σ) :
    m < R.fields.length ∧ rest.length < input.length ∧
      R.merge s input = (R.readAt m s rest).bind fun r => R.merge r.1 r.2 := by
  obtain ⟨f, hf, h⟩ := Option.bind_eq_some_iff.mp h
  obtain ⟨rest', he, h⟩ := Option.map_eq_some_iff.mp h
  cases h
  have ht := Runtime.Documented.readTag_of_expectTag (makeTag_lt hf).1 he
  refine ⟨(List.getElem?_eq_some_iff.mp hf).1, Runtime.readTag_lt ht, ?_⟩
  rw [merge_of_readTag ht, declared_makeTag hf]

theorem expectNext_spec {n m : Nat} {input rest : List Byte} (h : expectNext R n input = some (m, rest)) (s : σ) :
    m < R.fields.length ∧ rest.length < input.length ∧
      R.merge s input = (R.readAt m s rest).bind fun r => R.merge r.1 r.2 := by
  rw [expectNext, Option.or_eq_some_iff] at h
  rcases h with h | ⟨-, h⟩
  · obtain ⟨f, -, h⟩ := Option.bind_eq_some_iff.mp h
    split_ifs at h
    exact expectField_spec h s
  · exact expectField_spec h s

/-- The loop, and the label of a field, on an input of `n` bytes. -/
theorem mergeFrom_eq (n : Nat) :
    (∀ (s : σ) (input : List Byte) (fuel : Nat), input.length ≤ n → 2 * input.length < fuel →
      mergeFrom R fuel none s input = R.merge s input) ∧
    ∀ (i : Nat) (s : σ) (input : List Byte) (fuel : Nat), input.length ≤ n → 2 * input.length + 1 < fuel →
      mergeFrom R fuel (some i) s input = (R.readAt i s input).bind fun r => R.merge r.1 r.2 := by
  induction n using Nat.strongRecOn with
  | ind n ih =>
    have head (s : σ) (input : List Byte) (fuel : Nat) (hn : input.length ≤ n) (hf : 2 * input.length < fuel) :
        mergeFrom R fuel none s input = R.merge s input := by
      obtain ⟨fuel, rfl⟩ := Nat.exists_eq_succ_of_ne_zero (show fuel ≠ 0 by omega)
      rcases ht : Runtime.readTag input with _ | ⟨tag, rest⟩
      · rw [merge_of_readTag_none ht]
        simp only [mergeFrom, ht]
      · have hlt := Runtime.readTag_lt ht
        have ih := ih rest.length (by omega)
        rw [merge_of_readTag ht]
        rcases hd : R.declared tag with _ | i
        · simp only [mergeFrom, ht, hd]
          split
          · rfl
          · refine Option.bind_congr fun r hr => ?_
            have hle := R.unknown_le hr
            exact ih.1 r.1 r.2 fuel hle (by omega)
        · simp only [mergeFrom, ht, hd]
          exact ih.2 i s rest fuel (Nat.le_refl _) (by omega)
    refine ⟨head, fun i s input fuel hn hf => ?_⟩
    obtain ⟨fuel, rfl⟩ := Nat.exists_eq_succ_of_ne_zero (show fuel ≠ 0 by omega)
    rw [mergeFrom]
    refine Option.bind_congr fun r hr => ?_
    have hle := readAt_le hr
    rcases he : expectNext R i r.2 with _ | ⟨m, rest⟩
    · dsimp only
      split_ifs with hend
      · rw [Runtime.Documented.eq_nil_of_expectAtEnd hend.2, merge_nil]
      · exact head r.1 r.2 fuel (by omega) (by omega)
    · obtain ⟨-, hlt, hmerge⟩ := expectNext_spec he r.1
      rw [hmerge]
      exact (ih rest.length (by omega)).2 m r.1 rest fuel (Nat.le_refl _) (by omega)

theorem mergePartialFromCodedStream_eq :
    (mergePartialFromCodedStream : MessageReader σ → σ → List Byte → Option (σ × Bool)) = MessageReader.merge := by
  funext R s input
  exact (mergeFrom_eq input.length).1 s input _ (Nat.le_refl _) (Nat.lt_succ_self _)

end Jumps

namespace MessageType

section

variable [Runtime] [Runtime.Documented]

theorem parseFromArray_eq_some {t : MessageType} {data : List Byte} {size : CInt} {m : Message} :
    t.parseFromArray data size = some m ↔
      (t.reader 64).merge t.new (data.take size.toInt.toNat) = some (m, true) ∧ t.isInitialized m = true := by
  rw [parseFromArray, mergePartialFromCodedStream_eq]
  exact Runtime.Documented.parseFromArray_eq_some

/-- Whatever the bytes are, the jumps make no difference. -/
theorem parseFromArray_eq_parse (t : MessageType) (data : List Byte) (size : CInt) :
    t.parseFromArray data size = t.parse data size := by
  rw [parseFromArray, mergePartialFromCodedStream_eq]
  rfl

end

/-- The fields of the request in another order, and one with bytes that it does not need. -/
theorem parseFromArray_eq_parse_offMic :
    struUserOffMicRQ.parseFromArray [24, 3, 8, 0x81, 0x2f, 16, 0x87, 0] 8 =
        some (.mk [some (.num 6017), some (.num 7), some (.num 3)] [] []) ∧
      struUserOffMicRQ.parseFromArray [24, 3, 8, 0x81, 0x2f, 16, 0x87, 0] 8 =
        struUserOffMicRQ.parse [24, 3, 8, 0x81, 0x2f, 16, 0x87, 0] 8 :=
  ⟨rfl, parseFromArray_eq_parse ..⟩

end MessageType

/-! ## What is written -/

section Written

variable [Runtime] [Runtime.Documented]

theorem FieldType.length_writeValue {type : FieldType} {v : Value} (h : type.Fits v) :
    (Runtime.writeValue type.declared v).length = type.size v := by
  rw [Runtime.Documented.length_writeValue h.declared]
  cases type
  case bool => rfl
  all_goals exact (Runtime.Documented.valueSize_eq _ _).symm

theorem scalarReader_write {type : FieldType} {v : Value} (h : type.Fits v) (n : Nat) (m : Message)
    (rest : List Byte) :
    (scalarReader n type).read m (Runtime.writeValue type.declared v ++ rest) = some (m.setCell n v, rest) := by
  simp only [scalarReader, Runtime.Documented.readValue_write rest h.declared, Option.map_some, h.check_eq,
    Message.store]

theorem scalarReader_take_none {type : FieldType} {v : Value} (h : type.Fits v) (n : Nat) (m : Message) {k : Nat}
    (hk : k < (Runtime.writeValue type.declared v).length) :
    (scalarReader n type).read m ((Runtime.writeValue type.declared v).take k) = none := by
  simp only [scalarReader, Runtime.Documented.readValue_take h.declared hk, Option.map_none]

end Written

namespace MessageType

section

variable [Runtime] [Runtime.Documented]

/-! ### Sizes -/

theorem length_writeCells {fields : List ScalarField} {cells : List (Option Value)} (h : CellsFit fields cells)
    {number : Nat} (hn : number + fields.length ≤ 16) :
    (writeCells number fields cells).length = cellsSize fields cells := by
  induction h generalizing number with
  | nil => rfl
  | @cons f c fields cells hc _ ih =>
    rw [List.length_cons] at hn
    have ih : (writeCells (number + 1) fields cells).length = cellsSize fields cells := ih (by omega)
    cases c with
    | none =>
      change (writeCells (number + 1) fields cells).length = 0 + cellsSize fields cells
      rw [ih, Nat.zero_add]
    | some v =>
      have hw := FieldType.wireType_lt f.type
      have htag : makeTag number f.type.wireType < 128 := by
        unfold makeTag
        omega
      change (writeField number f.type v ++ writeCells (number + 1) fields cells).length =
        1 + f.type.size v + cellsSize fields cells
      rw [List.length_append, writeField, List.length_append, Runtime.Documented.length_writeTag htag,
        FieldType.length_writeValue (hc v rfl), ih]

theorem length_items {item : MessageType} {tag : Nat} (ht : tag < 128) {items : List Message}
    (h : ∀ e ∈ items, (item.serialize e).length = item.byteSize e ∧ item.byteSize e < 2 ^ 32) :
    (items.flatMap fun e => Runtime.writeTag tag ++ Runtime.writeMessage (item.byteSize e) (item.serialize e)).length =
      1 * items.length + (items.map fun e => Runtime.messageSize (item.byteSize e)).sum := by
  induction items with
  | nil => rfl
  | cons e items ih =>
    obtain ⟨hlen, hlt⟩ := h e List.mem_cons_self
    have ih := ih fun e he => h e (List.mem_cons_of_mem _ he)
    have hmsg : (Runtime.writeMessage (item.byteSize e) (item.serialize e)).length =
        Runtime.messageSize (item.byteSize e) := by
      rw [← hlen, Runtime.Documented.length_writeMessage (by rwa [hlen]), Runtime.Documented.messageSize_eq]
    rw [List.flatMap_cons, List.length_append, ih, List.length_append, Runtime.Documented.length_writeTag ht, hmsg,
      List.map_cons, List.sum_cons, List.length_cons]
    omega

theorem unknownFieldsSize_nil : Runtime.unknownFieldsSize [] = 0 := by
  rw [Runtime.Documented.unknownFieldsSize_eq, Runtime.Documented.writeUnknownFields_nil, List.length_nil]

theorem byteSize_item_le {fields : List ScalarField} {item : MessageType} {h : fields.length < 15} {m e : Message}
    (he : e ∈ m.items) : item.byteSize e ≤ (list fields item h).byteSize m := by
  have hle := List.le_sum_of_mem (List.mem_map_of_mem (f := fun e => Runtime.messageSize (item.byteSize e)) he)
  have hlt : item.byteSize e ≤ Runtime.messageSize (item.byteSize e) := by
    rw [Runtime.Documented.messageSize_eq]
    exact Nat.le_of_lt (lt_stringSize _)
  rw [byteSize]
  omega

/-- `ByteSize` is the number of bytes that are written. -/
theorem length_serialize {t : MessageType} {depth : Nat} {m : Message} (h : t.Fits depth m)
    (hs : t.byteSize m < 2 ^ 32) : (t.serialize m).length = t.byteSize m := by
  induction t generalizing depth m with
  | flat fields hlen =>
    rw [serialize, byteSize, List.length_append, length_writeCells h.1 (by omega),
      Runtime.Documented.unknownFieldsSize_eq]
  | list fields item hlen ih =>
    have hitems : ∀ e ∈ m.items, (item.serialize e).length = item.byteSize e ∧ item.byteSize e < 2 ^ 32 := by
      intro e he
      have hlt := Nat.lt_of_le_of_lt (byteSize_item_le (h := hlen) he) hs
      exact ⟨ih (h.2.1 e he).2 hlt, hlt⟩
    have htag : makeTag (fields.length + 1) 2 < 128 := by
      unfold makeTag
      omega
    rw [serialize, byteSize, List.length_append, List.length_append, length_writeCells h.1 (by omega),
      length_items htag hitems, Runtime.Documented.unknownFieldsSize_eq]

/-! ### Reading what was written -/

theorem isPiece_cells {t : MessageType} {depth n : Nat} {fields : List ScalarField} {cells : List (Option Value)}
    (h : CellsFit fields cells) (hn : t.fields.drop n = fields) :
    IsPiece (t.reader depth) (writeCells (n + 1) fields cells) (Message.storeCells n cells) := by
  induction h generalizing n with
  | nil => exact isPiece_nil
  | @cons f c fields cells hc _ ih =>
    have hf : t.fields[n]? = some f := by rw [← List.head?_drop, hn, List.head?_cons]
    have ih := ih (n := n + 1) (by rw [← List.tail_drop, hn, List.tail_cons])
    cases c with
    | none => exact ih
    | some v =>
      exact (isPiece_field (reader_fields hf) (scalarReader_write (hc v rfl) n)).append ih

/-- A field that was kept is kept again. -/
theorem isPiece_unknownField {t : MessageType} {depth : Nat} {u : UnknownField} (h : t.Keeps depth u) :
    ∃ bytes, (∀ us, Runtime.writeUnknownFields (u :: us) = bytes ++ Runtime.writeUnknownFields us) ∧
      IsPiece (t.reader depth) bytes fun m => m.addUnknown u := by
  obtain ⟨hu, hd | ⟨n, f, isValid, x, hf, htype, hx, rfl⟩⟩ := h
  · obtain ⟨bytes, hwrite, hskip⟩ := Runtime.Documented.exists_writeUnknownField hu
    obtain ⟨h0, h1⟩ := tag_of_fits hu
    refine ⟨_, hwrite, isPiece_unknown h0 h1 hd ?_ fun m rest => ?_⟩
    · rw [UnknownField.tag, makeTag_mod (wireType_lt u)]
      exact wireType_ne_endGroup u
    · rw [reader_unknown, readUnknown, hskip, Option.map_some]
  · refine ⟨_, Runtime.Documented.writeUnknownFields_enum (n + 1) x, ?_⟩
    have hread (m : Message) (rest : List Byte) :
        (scalarReader n f.type).read m (Runtime.writeValue .enum (.num x) ++ rest) =
          some (m.addUnknown (.varint (n + 1) (x.signExtend 64).toNat), rest) := by
      have hvalue : Runtime.readValue .enum (Runtime.writeValue .enum (.num x) ++ rest) = some (.num x, rest) :=
        Runtime.Documented.readValue_write rest trivial
      simp only [scalarReader, htype, FieldType.declared, hvalue, Option.map_some, FieldType.check, hx,
        Bool.false_eq_true, if_false, Message.store]
    have hr := isPiece_field (R := t.reader depth) (reader_fields hf) hread
    rwa [scalarReader, htype] at hr

theorem isPiece_unknownFields {t : MessageType} {depth : Nat} {us : List UnknownField} (h : ∀ u ∈ us, t.Keeps depth u) :
    IsPiece (t.reader depth) (Runtime.writeUnknownFields us) fun m => m.addUnknowns us := by
  induction us with
  | nil =>
    rw [Runtime.Documented.writeUnknownFields_nil]
    exact isPiece_nil
  | cons u us ih =>
    obtain ⟨bytes, hwrite, hp⟩ := isPiece_unknownField (h u List.mem_cons_self)
    rw [hwrite]
    exact hp.append (ih fun v hv => h v (List.mem_cons_of_mem _ hv))

theorem merge_serialize {t : MessageType} {depth : Nat} {m : Message} (h : t.Fits depth m)
    (hs : t.byteSize m < 2 ^ 31) : (t.reader depth).merge t.new (t.serialize m) = some (m, true) := by
  induction t generalizing depth m with
  | flat fields hlen =>
    obtain ⟨hcells, hitems, hus⟩ := h
    have hp := (show IsPiece ((flat fields hlen).reader depth) _ _ from isPiece_cells (n := 0) hcells rfl).append
      (isPiece_unknownFields hus)
    have hm := Message.rebuild (m := m) hcells.length_eq.symm
    rw [hitems] at hm
    rw [serialize, hp.merge_eq]
    exact congrArg (fun m => some (m, true)) hm
  | list fields item hlen ih =>
    obtain ⟨hcells, hitems, hus⟩ := h
    have hitem : ∀ e ∈ m.items, IsPiece ((list fields item hlen).reader depth)
        (Runtime.writeTag (makeTag (fields.length + 1) 2) ++ Runtime.writeMessage (item.byteSize e) (item.serialize e))
        fun m => m.addItem e := by
      intro e he
      obtain ⟨hd, hfit⟩ := hitems e he
      have hlt := Nat.lt_of_le_of_lt (byteSize_item_le (h := hlen) he) hs
      have hsize := length_serialize hfit (Nat.lt_trans hlt (by decide))
      refine isPiece_field (reader_items (h := hlen)) fun m rest => ?_
      have hread : Runtime.readMessage depth (fun depth input => (item.reader depth).merge item.new input)
          (Runtime.writeMessage (item.serialize e).length (item.serialize e) ++ rest) = some (e, rest) :=
        Runtime.Documented.readMessage_write rest hd (hsize.symm ▸ hlt) (ih hfit hlt)
      rw [hsize] at hread
      simp only [itemReader, hread, Option.map_some]
    have hp := ((show IsPiece ((list fields item hlen).reader depth) _ _ from isPiece_cells (n := 0) hcells rfl).append
      (isPiece_flatMap hitem)).append (isPiece_unknownFields hus)
    rw [serialize, hp.merge_eq]
    exact congrArg (fun m => some (m, true)) (Message.rebuild hcells.length_eq.symm)

theorem serializeToArray_eq {t : MessageType} {depth : Nat} {m : Message} {data : List Byte} {size : CInt}
    (h : t.Fits depth m) (hs : t.byteSize m ≤ size.toInt) (hd : size.toInt ≤ data.length) :
    t.serializeToArray m data size = some (true, t.serialize m ++ data.drop (t.byteSize m)) := by
  have hmax := (toInt_bounds size).2
  have hlen := length_serialize h (by omega)
  rw [serializeToArray, Runtime.Documented.serializeToArray_eq, if_neg (by omega),
    memcpy_front rfl (by omega) (Nat.le_refl _), List.take_length, hlen, Option.map_some]

/-- An object in a buffer that holds it, and the bytes behind it. -/
theorem parseFromArray_serializeToArray {t : MessageType} {m : Message} {data : List Byte} {size : CInt}
    (h : t.Fits 64 m) (hi : t.isInitialized m = true) (hs : t.byteSize m ≤ size.toInt)
    (hd : size.toInt ≤ data.length) :
    ∃ data', t.serializeToArray m data size = some (true, data') ∧ data'.length = data.length ∧
      data'.drop (t.byteSize m) = data.drop (t.byteSize m) ∧ t.parseFromArray data' (cint (t.byteSize m)) = some m := by
  have hmax := (toInt_bounds size).2
  have hlen := length_serialize h (by omega)
  refine ⟨_, serializeToArray_eq h hs hd, ?_, ?_, ?_⟩
  · rw [List.length_append, hlen, List.length_drop]
    omega
  · rw [← hlen, List.drop_left]
  · rw [parseFromArray_eq_some, toInt_cint (by omega) (by omega), Int.toNat_natCast]
    refine ⟨?_, hi⟩
    rw [← hlen, List.take_left]
    exact merge_serialize h (by omega)

end

/-- A request to leave the microphone, and a text that its class does not know. -/
def offMic (us : List UnknownField) : Message := .mk [some (.num 6017), some (.num 7), some (.num 3)] [] us

theorem offMic_fits : struUserOffMicRQ.Fits 64 (offMic []) ∧
    struUserOffMicRQ.Fits 64 (offMic [.lengthDelimited 7 [65]]) := by
  have hcells : CellsFit struUserOffMicRQ.fields (offMic []).cells := by
    refine .cons ?_ (.cons ?_ (.cons ?_ .nil)) <;> rintro v ⟨⟩
    · rfl
    · trivial
    · trivial
  refine ⟨⟨hcells, rfl, fun _ hu => absurd hu List.not_mem_nil⟩, hcells, rfl, fun u hu => ?_⟩
  rw [List.mem_singleton.mp hu]
  exact ⟨⟨by decide, by decide⟩, .inl rfl⟩

theorem parseFromArray_serializeToArray_offMic :
    ∃ data', struUserOffMicRQ.serializeToArray (offMic [.lengthDelimited 7 [65]]) (List.replicate 16 1) 16 =
        some (true, data') ∧ data'.length = (List.replicate 16 (1 : Byte)).length ∧
      data'.drop (struUserOffMicRQ.byteSize (offMic [.lengthDelimited 7 [65]])) =
        (List.replicate 16 1).drop (struUserOffMicRQ.byteSize (offMic [.lengthDelimited 7 [65]])) ∧
      struUserOffMicRQ.parseFromArray data' (cint (struUserOffMicRQ.byteSize (offMic [.lengthDelimited 7 [65]]))) =
        some (offMic [.lengthDelimited 7 [65]]) :=
  parseFromArray_serializeToArray offMic_fits.2 rfl (by decide) (by decide)

/-! ## What is read can be written -/

section

variable [Runtime] [Runtime.Documented]

/-- A field without a declaration. -/
theorem Fits.unknown {t : MessageType} {depth tag : Nat} {m m' : Message} {input rest : List Byte}
    (h : t.Fits depth m) (h0 : tag ≠ 0) (h1 : tag < 2 ^ 32) (hd : (t.reader depth).declared tag = none)
    (hr : (t.reader depth).unknown m tag input = some (m', rest)) : t.Fits depth m' := by
  rw [reader_unknown] at hr
  obtain ⟨r, hskip, he⟩ := Option.map_eq_some_iff.mp hr
  cases he
  obtain ⟨hfit, htag⟩ := Runtime.Documented.fits_of_skipField h0 h1 hskip
  exact h.addUnknown ⟨hfit, .inl (by rwa [htag])⟩

/-- The fields of a class, and the list of messages behind them. -/
theorem readAt_cases {t : MessageType} {depth n : Nat} {m m' : Message} {input rest : List Byte}
    (h : (t.reader depth).readAt n m input = some (m', rest)) :
    (∃ f v, t.fields[n]? = some f ∧ f.type.declared.Fits v ∧ m' = m.store n (f.type.check v)) ∨
      ∃ fields item hlen e bytes, t = list fields item hlen ∧ depth ≠ 0 ∧
        (item.reader (depth - 1)).merge item.new bytes = some (e, true) ∧ m' = m.addItem e := by
  obtain ⟨F, hF, h⟩ := Option.bind_eq_some_iff.mp h
  rcases hf : t.fields[n]? with _ | f
  · refine .inr ?_
    have hn := List.getElem?_eq_none_iff.mp hf
    cases t with
    | flat fields hlen =>
      rw [reader, readerWith, List.getElem?_eq_none (by rwa [List.length_mapIdx])] at hF
      cases hF
    | list fields item hlen =>
      have hn : n = fields.length := by
        have hlt := (List.getElem?_eq_some_iff.mp hF).1
        rw [reader, readerWith, List.length_append, List.length_mapIdx, List.length_singleton] at hlt
        exact Nat.le_antisymm (Nat.le_of_lt_succ hlt) hn
      rw [hn, reader_items] at hF
      cases hF
      obtain ⟨r, hr, he⟩ := Option.map_eq_some_iff.mp h
      cases he
      obtain ⟨hd, bytes, hm⟩ := Runtime.Documented.parsed_of_readMessage hr
      exact ⟨fields, item, hlen, r.1, bytes, rfl, hd, hm, rfl⟩
  · refine .inl ?_
    rw [reader_fields hf] at hF
    cases hF
    obtain ⟨r, hr, he⟩ := Option.map_eq_some_iff.mp h
    cases he
    exact ⟨f, r.1, rfl, Runtime.Documented.fits_of_readValue hr, rfl⟩

/-- What is read is of the fields' types. -/
theorem fits_of_merge {t : MessageType} {depth : Nat} {m m' : Message} {input : List Byte} {atEnd : Bool}
    (h : (t.reader depth).merge m input = some (m', atEnd)) (hm : t.Fits depth m) : t.Fits depth m' := by
  induction t generalizing depth m m' input atEnd with
  | flat fields hlen =>
    refine merge_inv h (P := (flat fields hlen).Fits depth) (fun hs hr => ?_) (fun hs h0 h1 hd hr => ?_) hm
    · obtain ⟨f, v, hf, hv, rfl⟩ | ⟨_, _, _, _, _, ht, -⟩ := readAt_cases hr
      · exact hs.store hf hv
      · cases ht
    · exact hs.unknown h0 h1 hd hr
  | list fields item hlen ih =>
    refine merge_inv h (P := (list fields item hlen).Fits depth) (fun hs hr => ?_) (fun hs h0 h1 hd hr => ?_) hm
    · obtain ⟨f, v, hf, hv, rfl⟩ | ⟨_, _, _, e, _, ht, hd, he, rfl⟩ := readAt_cases hr
      · exact hs.store hf hv
      · cases ht
        exact hs.addItem hd (ih he (fits_new item _))
    · exact hs.unknown h0 h1 hd hr

/-- What is parsed, and written again, is parsed to the same object, whatever the bytes were and
whatever there was in them that the class does not know. -/
theorem parseFromArray_reserialize {t : MessageType} {data : List Byte} {size : CInt} {m : Message}
    (h : t.parseFromArray data size = some m) (hs : t.byteSize m < 2 ^ 31) :
    t.parseFromArray (t.serialize m) (cint (t.byteSize m)) = some m := by
  obtain ⟨hm, hi⟩ := parseFromArray_eq_some.mp h
  have hfit := fits_of_merge hm (fits_new t 64)
  have hlen := length_serialize hfit (Nat.lt_trans hs (by decide))
  rw [parseFromArray_eq_some, toInt_cint (by omega) (by omega), Int.toNat_natCast, ← hlen, List.take_length]
  exact ⟨merge_serialize hfit hs, hi⟩

end

/-- The text stands before the fields, and a number takes more bytes than it needs. -/
theorem parseFromArray_reserialize_offMic :
    struUserOffMicRQ.parseFromArray (struUserOffMicRQ.serialize (offMic [.lengthDelimited 7 [65]]))
      (cint (struUserOffMicRQ.byteSize (offMic [.lengthDelimited 7 [65]]))) = some (offMic [.lengthDelimited 7 [65]]) :=
  parseFromArray_reserialize
    (show struUserOffMicRQ.parseFromArray [0x3a, 1, 65, 24, 3, 8, 0x81, 0x2f, 16, 0x87, 0] 11 = _ from rfl) (by decide)

/-! ## A beginning of a message -/

section

variable [Runtime] [Runtime.Documented]

/-- Where the bytes end inside of the fields, they are refused, or the field that comes next has no
value. -/
theorem merge_take_cells {t : MessageType} {depth n : Nat} {fields : List ScalarField} {cells : List (Option Value)}
    (h : CellsFit fields cells) (hn : t.fields.drop n = fields) (hsome : ∀ c ∈ cells, c.isSome = true) {m m' : Message}
    (hm : m.cells.drop n = List.replicate fields.length none) {k : Nat}
    (hk : k < (writeCells (n + 1) fields cells).length) {atEnd : Bool}
    (hr : (t.reader depth).merge m ((writeCells (n + 1) fields cells).take k) = some (m', atEnd)) :
    ∃ (i : Nat) (f : ScalarField), t.fields[i]? = some f ∧ m'.cells[i]? = some none := by
  induction h generalizing n m k with
  | nil => exact absurd hk (Nat.not_lt_zero k)
  | @cons f c fields cells hc _ ih =>
    have hf : t.fields[n]? = some f := by rw [← List.head?_drop, hn, List.head?_cons]
    obtain ⟨v, rfl⟩ := Option.isSome_iff_exists.mp (hsome c List.mem_cons_self)
    have hwrite : writeCells (n + 1) (f :: fields) (some v :: cells) =
        writeField (n + 1) f.type v ++ writeCells (n + 2) fields cells := rfl
    rw [hwrite] at hr hk
    have hp : IsPiece (t.reader depth) (writeField (n + 1) f.type v) fun m => m.setCell n v :=
      isPiece_field (reader_fields hf) (scalarReader_write (hc v rfl) n)
    rcases Nat.lt_or_ge k (writeField (n + 1) f.type v).length with hlt | hge
    · rw [List.take_append_of_le_length (Nat.le_of_lt hlt)] at hr
      rcases Nat.eq_zero_or_pos k with rfl | hpos
      · rw [List.take_zero, merge_nil] at hr
        cases hr
        refine ⟨n, f, hf, ?_⟩
        rw [← List.head?_drop, hm, List.length_cons, List.replicate_succ, List.head?_cons]
      · have hnone : (t.reader depth).merge m
            ((writeField (n + 1) f.type v).take k) = none :=
          merge_take_none (reader_fields hf) (fun m _ hk => scalarReader_take_none (hc v rfl) n m hk) m hpos hlt
        rw [hnone] at hr
        cases hr
    · rw [List.take_append, List.take_of_length_le hge, hp.merge_append] at hr
      have hk : k - (writeField (n + 1) f.type v).length <
          (writeCells (n + 1 + 1) fields cells).length := by
        rw [List.length_append] at hk
        exact Nat.sub_lt_left_of_lt_add hge hk
      refine ih (n := n + 1) (by rw [← List.tail_drop, hn, List.tail_cons])
        (fun c hc => hsome c (List.mem_cons_of_mem _ hc)) ?_ hk hr
      rw [Message.setCell, Message.cells, List.drop_set_of_lt (Nat.lt_succ_self n), ← List.tail_drop, hm,
        List.length_cons, List.replicate_succ, List.tail_cons]

/-- An object all of whose fields are required is not parsed from a part of its bytes. -/
theorem parseFromArray_take_eq_none {fields : List ScalarField} {hlen : fields.length < 16} {m : Message}
    (h : (flat fields hlen).Fits 64 m) (hreq : ∀ f ∈ fields, f.isRequired = true)
    (hi : (flat fields hlen).isInitialized m = true) (hu : m.unknownFields = [])
    (hs : (flat fields hlen).byteSize m < 2 ^ 31) {k : Nat} (hk : k < (flat fields hlen).byteSize m) :
    (flat fields hlen).parseFromArray ((flat fields hlen).serialize m) (cint k) = none := by
  have hmax := Nat.lt_trans hk hs
  have hwrite : (flat fields hlen).serialize m = writeCells 1 fields m.cells := by
    rw [serialize, hu, Runtime.Documented.writeUnknownFields_nil, List.append_nil]
  rw [← length_serialize h (Nat.lt_trans hs (by decide)), hwrite] at hk
  refine Option.eq_none_iff_forall_ne_some.mpr fun m' hp => ?_
  obtain ⟨hmerge, hi'⟩ := parseFromArray_eq_some.mp hp
  rw [toInt_cint (by omega) (by omega), Int.toNat_natCast, hwrite] at hmerge
  obtain ⟨i, f, hf, hnone⟩ := merge_take_cells (n := 0) h.1 rfl (isSome_of_hasRequired h.1 hreq hi) rfl hk hmerge
  have hmem : (f, none) ∈ fields.zip m'.cells := by
    refine List.mem_of_getElem? (i := i) ?_
    rw [List.getElem?_zip_eq_some]
    exact ⟨hf, hnone⟩
  have := List.all_eq_true.mp hi' _ hmem
  rw [hreq f (List.mem_of_getElem? hf)] at this
  cases this

end

/-- A byte is missing. -/
theorem parseFromArray_take_eq_none_offMic :
    struUserOffMicRQ.parseFromArray (struUserOffMicRQ.serialize (offMic [])) (cint (6 : Nat)) = none :=
  parseFromArray_take_eq_none offMic_fits.1 (by decide) rfl rfl (by decide) (by decide)

end MessageType

end Miku.Protobuf
