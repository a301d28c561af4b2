import GoBinacoin.Rlp.TypedWrite

/-! Go values of any type that can be encoded. What the generated writers read of a type by
reflection stands in the value; the encoding is the recursive definition of RLP.
-/

namespace GoBinacoin.Rlp

open BigEndian Program EncBuf

/-- What the writer of a struct reads of a field besides its value. -/
structure FieldInfo where
  optional : Bool := false
  isZero : Bool := false
  deriving DecidableEq

/-- A value, by the writer that `makeWriter` chooses for its type. -/
inductive GoValue where
  | rawValue (b : Bytes)
  | bigInt (i : Option Int)
  | nilPtr (nilKind : Kind)
  | ptr (elem : GoValue)
  /-- A type with `EncodeRLP`: what it writes, with `Write` or `Encode`, and what it returns. -/
  | encoder (written : List GoValue) (err : Option EncodeErr)
  | uint (i : UInt64)
  | bool (b : Bool)
  | string (b : Bytes)
  | bytes (b : Bytes)
  | byteArray (b : Bytes)
  | slice (tail : Bool) (elems : List GoValue)
  | struct (infos : List FieldInfo) (fields : List GoValue)
  | nilInterface
  | interface (elem : GoValue)
  | other (typ : String)

def firstOptionalField (infos : List FieldInfo) : Nat := infos.findIdx FieldInfo.optional

/-- The loop that looks for the last field, from the end: how many fields are written. -/
def writtenFields (infos : List FieldInfo) : Nat → Nat
  | 0 => 0
  | n + 1 =>
      if firstOptionalField infos ≤ n ∧ infos[n]?.any FieldInfo.isZero then writtenFields infos n
      else n + 1

mutual
/-- The writer of the value's type, applied to the value. -/
def writeValue : GoValue → EncBuf → Except EncodeErr EncBuf
  | .rawValue b, w => .ok { w with str := w.str ++ b }
  | .bigInt i, w => w.writeBigIntPtr i
  | .nilPtr nilKind, w => .ok (w.writeNil nilKind)
  | .ptr elem, w => writeValue elem w
  | .encoder written err, w => do
      let w ← writeValues written.length written w
      match err with
      | none => return w
      | some err => .error err
  | .uint i, w => .ok (w.encodeUint i.toNat)
  | .bool b, w => .ok { w with str := w.str ++ [if b then 0x01 else 0x80] }
  | .string b, w | .bytes b, w => .ok (w.encodeString b)
  | .byteArray b, w => .ok (w.writeByteArray b)
  | .slice tail elems, w =>
      if tail then writeValues elems.length elems w
      else do
        let w' ← writeValues elems.length elems w.list.1
        return w'.listEnd w.list.2
  | .struct infos fields, w => do
      let w' ← writeValues (writtenFields infos infos.length) fields w.list.1
      return w'.listEnd w.list.2
  | .nilInterface, w => .ok { w with str := w.str ++ [0xC0] }
  | .interface elem, w => writeValue elem w
  | .other typ, _ => .error (.notSerializable typ)

/-- The first values of a list, one after the other. -/
def writeValues : Nat → List GoValue → EncBuf → Except EncodeErr EncBuf
  | 0, _, w => .ok w
  | _, [], w => .ok w
  | n + 1, v :: vs, w => do writeValues n vs (← writeValue v w)
end

mutual
/-- The recursive definition of RLP. Integers are strings without leading zeros. -/
def GoValue.encode : GoValue → Bytes
  | .rawValue b => b
  | .bigInt i => encodeStr (minimalBE (i.getD 0).toNat)
  | .nilPtr nilKind => if nilKind = .string then encodeStr [] else encodeList []
  | .ptr elem | .interface elem => elem.encode
  | .encoder written _ => encodeValues written.length written
  | .uint i => encodeStr (minimalBE i.toNat)
  | .bool b => encodeStr (if b then [1] else [])
  | .string b | .bytes b | .byteArray b => encodeStr b
  | .slice tail elems =>
      if tail then encodeValues elems.length elems
      else encodeList (encodeValues elems.length elems)
  | .struct infos fields => encodeList (encodeValues (writtenFields infos infos.length) fields)
  | .nilInterface => encodeList []
  | .other _ => []

def encodeValues : Nat → List GoValue → Bytes
  | 0, _ => []
  | _, [] => []
  | n + 1, v :: vs => v.encode ++ encodeValues n vs
end

/-- If a writer succeeds it adds an encoding, the same to every buffer. -/
def Emits (write : EncBuf → Except EncodeErr EncBuf) (b : Bytes) : Prop :=
  ∀ w w', write w = .ok w' → ∃ f : EncBuf, f.Encodes b ∧ ∀ u, write u = .ok (u.append f)

section Emits

variable {write next : EncBuf → Except EncodeErr EncBuf} {b c : Bytes}

theorem emits_raw (b : Bytes) : Emits (fun w => .ok { w with str := w.str ++ b }) b :=
  fun _ _ _ => ⟨{ str := b }, .raw b, fun u => by simp [append]⟩

theorem emits_nothing : Emits .ok [] :=
  fun _ _ _ => ⟨{}, .empty, fun u => by simp [append]⟩

theorem emits_string (small : (encodeStr b).length < 2 ^ 64)
    : Emits (fun w => .ok (w.encodeString b)) (encodeStr b) :=
  fun _ _ _ => ⟨_, .raw _, fun u =>
    congrArg Except.ok (encodeString_eq u ((encodeStr_length_le b).trans_lt small))⟩

theorem Emits.congr (emits : Emits write b) (same : ∀ w, next w = write w) : Emits next b := by
  rwa [funext same]

theorem Emits.bind (first : Emits write b) (second : Emits next c)
    : Emits (fun w => write w >>= next) (b ++ c) := by
  intro w w' run
  obtain ⟨middle, one, two⟩ := except_bind_ok.mp run
  obtain ⟨f, encodes, writes⟩ := first w middle one
  obtain ⟨g, later, others⟩ := second middle w' two
  refine ⟨f.append g, encodes.append later, fun u => ?_⟩
  rw [← append_assoc]
  exact except_bind_ok.mpr ⟨_, writes u, others _⟩

theorem encodeList_small (small : (encodeList b).length < 2 ^ 64) : b.length < 2 ^ 64 := by
  rw [encodeList, List.length_append] at small
  omega

theorem Emits.list (emits : Emits write b) (small : (encodeList b).length < 2 ^ 64)
    : Emits (fun w => do
        let w' ← write w.list.1
        return w'.listEnd w.list.2) (encodeList b) := by
  have payload := encodeList_small small
  intro w w' run
  obtain ⟨middle, inside, -⟩ := except_bind_ok.mp run
  obtain ⟨f, encodes, writes⟩ := emits _ _ inside
  refine ⟨f.inList, encodes.list payload, fun u => ?_⟩
  rw [← listEnd_append (encodes.size ▸ payload)]
  exact except_bind_ok.mpr ⟨_, writes _, rfl⟩

end Emits

mutual
/-- Every writer adds the encoding of its value; mutual induction over the value and the values
in it.
-/
theorem emits_writeValue (v : GoValue) (small : v.encode.length < 2 ^ 64)
    : Emits (writeValue v) v.encode := by
  cases v with
  | rawValue b =>
    simp only [writeValue, GoValue.encode]
    exact emits_raw b
  | bigInt i =>
    rw [GoValue.encode] at small ⊢
    intro w w' run
    have nonneg : 0 ≤ i.getD 0 := by
      cases i with
      | none => exact le_rfl
      | some i =>
        rw [writeValue, writeBigIntPtr] at run
        exact (writeBigInt_ok_iff.mp run).1
    refine (emits_string small).congr (fun u => ?_) w w' run
    cases i with
    | none => exact congrArg Except.ok (encodeString_nil u).symm
    | some i => exact writeBigInt_eq u nonneg
  | nilPtr nilKind =>
    simp only [writeValue, GoValue.encode, EncBuf.writeNil] at small ⊢
    split
    · exact emits_raw _
    · exact emits_nothing.list (by decide)
  | ptr elem | interface elem =>
    rw [GoValue.encode] at small ⊢
    exact (emits_writeValue elem small).congr fun w => by rw [writeValue]
  | encoder written err =>
    rw [GoValue.encode] at small ⊢
    intro w w' run
    have inside := emits_writeValues written.length written small
    rw [writeValue] at run
    obtain ⟨middle, wrote, returned⟩ := except_bind_ok.mp run
    cases err with
    | some err => cases returned
    | none =>
      obtain ⟨f, encodes, writes⟩ := inside w middle wrote
      exact ⟨f, encodes, fun u => by rw [writeValue, writes]; rfl⟩
  | uint i =>
    rw [GoValue.encode] at small ⊢
    exact (emits_string small).congr fun w => by
      rw [writeValue, encodeUint_eq w i.toNat_lt]
  | bool b =>
    simp only [writeValue, GoValue.encode] at small ⊢
    cases b <;> exact emits_raw _
  | string b | bytes b =>
    rw [GoValue.encode] at small ⊢
    exact (emits_string small).congr fun w => by rw [writeValue]
  | byteArray b =>
    rw [GoValue.encode] at small ⊢
    exact (emits_string small).congr fun w => by rw [writeValue, writeByteArray_eq]
  | slice tail elems =>
    simp only [writeValue, GoValue.encode] at small ⊢
    cases tail with
    | true => exact emits_writeValues elems.length elems small
    | false => exact (emits_writeValues elems.length elems (encodeList_small small)).list small
  | struct infos fields =>
    rw [GoValue.encode] at small ⊢
    exact ((emits_writeValues _ fields (encodeList_small small)).list small).congr fun w => by
      rw [writeValue]
  | nilInterface =>
    simp only [writeValue, GoValue.encode]
    exact emits_raw _
  | other typ =>
    intro w w' run
    cases run

/-- Several values are written one after the other. -/
theorem emits_writeValues (n : Nat) (vs : List GoValue)
    (small : (encodeValues n vs).length < 2 ^ 64)
    : Emits (writeValues n vs) (encodeValues n vs) := by
  cases vs with
  | nil =>
    have none : encodeValues n [] = [] := by cases n <;> rw [encodeValues]; simp
    rw [none]
    exact emits_nothing.congr fun w => by cases n <;> rw [writeValues]; simp
  | cons v vs =>
    cases n with
    | zero =>
      rw [encodeValues]
      exact emits_nothing.congr fun w => by rw [writeValues]
    | succ n =>
      rw [encodeValues, List.length_append] at small
      have first := emits_writeValue v (by omega)
      have others := emits_writeValues n vs (by omega)
      rw [encodeValues]
      exact (first.bind others).congr fun w => by rw [writeValues]
end

/-! The typed writers are cases of it. -/

mutual
def Ty.goValue : (t : Ty) → t.Val → GoValue
  | .uint64, i => .uint i
  | .bigInt, i => .bigInt (some i)
  | .bytes, b => .bytes b
  | .byteArray _ _, b => .byteArray b.1
  | .nilPtr elem, none => .nilPtr (defaultNilKind elem)
  | .nilPtr elem, some v => .ptr (elem.goValue v)
  | .slice _ elem, vs => .slice false (List.map elem.goValue vs)
  | .struct _ fields, v =>
      .struct (List.replicate (fields.goValues v).length {}) (fields.goValues v)

def Fields.goValues : (fields : Fields) → fields.Val → List GoValue
  | .nil, _ => []
  | .cons _ ty rest, (v, vs) => ty.goValue v :: rest.goValues vs
end

/-- A struct without optional fields is written whole. -/
theorem writtenFields_replicate (n : Nat) : writtenFields (List.replicate n {}) n = n := by
  cases n with
  | zero => rfl
  | succ n =>
    have first : firstOptionalField (List.replicate (n + 1) {})
        = (List.replicate (n + 1) _).length :=
      List.findIdx_eq_length.mpr fun info member => by rw [List.eq_of_mem_replicate member]
    rw [writtenFields, first, List.length_replicate, if_neg (by omega)]

theorem writeElems_eq {α : Type} {write : α → EncBuf → Except EncodeErr EncBuf}
    {value : α → GoValue} (same : ∀ v w, write v w = writeValue (value v) w) (vs : List α)
    (w : EncBuf)
    : writeElems write vs w = writeValues (vs.map value).length (vs.map value) w := by
  induction vs generalizing w with
  | nil => simp [writeElems, writeValues]
  | cons v vs ih =>
    simp only [writeElems, List.map_cons, List.length_cons, writeValues, same]
    exact bind_congr ih

mutual
/-- A typed value is written as the Go value it stands for. -/
theorem makeWriter_eq (t : Ty) (v : t.Val) (w : EncBuf)
    : makeWriter t v w = writeValue (t.goValue v) w := by
  match t with
  | .uint64 | .bigInt | .bytes | .byteArray _ _ =>
    simp only [makeWriter, Ty.goValue, writeValue, writeBigIntPtr]
  | .nilPtr elem =>
    cases v with
    | none => simp only [makeWriter, Ty.goValue, writeValue]
    | some v =>
      simp only [makeWriter, Ty.goValue, writeValue]
      exact makeWriter_eq elem v w
  | .slice _ elem =>
    have elements := writeElems_eq (makeWriter_eq elem) v w.list.1
    simp only [makeWriter, Ty.goValue, writeValue, Bool.false_eq_true, if_false]
    rw [← elements]
  | .struct _ fields =>
    simp only [makeWriter, Ty.goValue, writeValue, List.length_replicate, writtenFields_replicate,
      writeFields_eq fields v]

theorem writeFields_eq (fields : Fields) (v : fields.Val) (w : EncBuf)
    : writeFields fields v w = writeValues (fields.goValues v).length (fields.goValues v) w := by
  match fields with
  | .nil => simp only [writeFields, Fields.goValues, List.length_nil, writeValues]
  | .cons _ ty rest =>
    obtain ⟨v, vs⟩ := v
    simp only [writeFields, Fields.goValues, List.length_cons, writeValues, makeWriter_eq ty v w]
    exact bind_congr (writeFields_eq rest vs)
end

end GoBinacoin.Rlp
