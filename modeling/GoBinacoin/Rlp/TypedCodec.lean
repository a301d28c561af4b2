import GoBinacoin.Rlp.TypedStrings

/-! The generated decoders accept exactly the encodings of values: for every type whose nil
pointers cannot be mistaken for values, decoding an encoding gives the value back, and
nothing else is decoded.
-/

namespace GoBinacoin.Rlp

open BigEndian Program Stream

/-- The empty value of a kind. -/
def emptyItem : Kind → Item
  | .list => .list []
  | _ => .str []

mutual
/-- The generic value with the same encoding. -/
def Ty.item : (t : Ty) → t.Val → Item
  | .uint64, i => .str (minimalBE (UInt64.toNat i))
  | .bigInt, i => .str (minimalBE (Int.toNat i))
  | .bytes, b => .str b
  | .byteArray _ _, b => .str b.1
  | .nilPtr elem, none => emptyItem (defaultNilKind elem)
  | .nilPtr elem, some v => elem.item v
  | .slice _ elem, vs => .list (List.map elem.item vs)
  | .struct _ fields, v => .list (fields.items v)

def Fields.items : (fields : Fields) → fields.Val → List Item
  | .nil, _ => []
  | .cons _ ty rest, (v, vs) => ty.item v :: rest.items vs
end

mutual
/-- No integer is negative. -/
def Ty.Writable : (t : Ty) → t.Val → Prop
  | .bigInt, i => Int.le 0 i
  | .nilPtr elem, some v => elem.Writable v
  | .slice _ elem, vs => List.Forall elem.Writable vs
  | .struct _ fields, v => fields.Writable v
  | _, _ => True

def Fields.Writable : (fields : Fields) → fields.Val → Prop
  | .nil, _ => True
  | .cons _ ty rest, (v, vs) => ty.Writable v ∧ rest.Writable vs
end

/-- Types without an empty value, to which pointers with the tag "nil" may point. -/
def Ty.neverEmpty : Ty → Bool
  | .byteArray _ length => 0 < length
  | .struct _ (.cons _ _ _) => true
  | _ => false

mutual
/-- No pointer of the type can be mistaken for the value it points to. -/
def Ty.safe : Ty → Bool
  | .nilPtr elem => elem.neverEmpty && elem.safe
  | .slice _ elem => elem.safe
  | .struct _ fields => fields.safe
  | _ => true

def Fields.safe : Fields → Bool
  | .nil => true
  | .cons _ ty rest => ty.safe && rest.safe
end

/-- The method asks for the header first, and reports the end of a list only then. -/
structure Reads {α : Type} (method : Stream → Result α) : Prop where
  peeks : ∀ {s next : Stream} {header : Kind × Nat},
    s.kind = (.ok header, next) → method next = method s
  eol_iff : ∀ {s next : Stream},
    method s = (.error .eol, next) ↔ s.kind = (.error .eol, next)

/-- Looking at the kind first makes no difference, and only the kind ends the list. -/
theorem reads_bytes : Reads bytes where
  peeks read := bytes_kind read
  eol_iff := by
    intro s next
    rcases read : s.kind with ⟨e | ⟨_ | _ | _, size⟩, middle⟩
    · simp [bytes, read]
    · simp [bytes, read]
    · simp only [bytes, read]
      split
      · rename_i failed
        simp [(readFull_error failed).notEol]
      · split <;> simp
    · simp [bytes, read]

/-- The same for unsigned integers. -/
theorem reads_uint (maxbits : Nat) : Reads (uint maxbits) where
  peeks read := by simp only [uint, read, kind_again read]
  eol_iff := by
    intro s next
    rcases read : s.kind with ⟨e | ⟨_ | _ | _, size⟩, middle⟩
    · simp [uint, read]
    · simp only [uint, read]
      split <;> simp
    · simp only [uint, read]
      split
      · simp
      · split
        · simp
        · rename_i failed
          simp [(readUint_error failed).notEol]
        · split <;> simp
    · simp [uint, read]

/-- The same for big integers. -/
theorem reads_bigInt : Reads bigInt where
  peeks read := by simp only [bigInt, read, kind_again read]
  eol_iff := by
    have kept {buffer : Bytes} {left next : Stream}
        : setBytes buffer left ≠ (.error .eol, next) := by
      unfold setBytes
      split <;> simp
    intro s next
    rcases read : s.kind with ⟨e | ⟨_ | _ | _, size⟩, middle⟩
    · simp [bigInt, read]
    · simp [bigInt, read, kept]
    · simp only [bigInt, read]
      split
      · simp [kept]
      · split
        · rename_i failed
          simp [(readFull_error failed).notEol]
        · split <;> simp [kept]
    · simp [bigInt, read]

theorem reads_list : Reads list where
  peeks read := list_kind read
  eol_iff := by
    intro s next
    rcases read : s.kind with ⟨e | ⟨_ | _ | _, size⟩, middle⟩ <;> simp [list, read]

theorem wrapStreamError_eol_iff {e : Err} {typ : String}
    : wrapStreamError e typ = .stream .eol ↔ e = .eol := by
  cases e <;> simp [wrapStreamError]

theorem addErrorContext_eol_iff {e : Failure} {ctx : String}
    : addErrorContext e ctx = .stream .eol ↔ e = .stream .eol := by
  cases e <;> simp [addErrorContext]

variable {α : Type}

section Translated

variable {method : Stream → Result α} {translate : Err → Failure}

theorem translated_eq_ok {s next : Stream} {a : α}
    : translated translate method s = (.ok a, next) ↔ method s = (.ok a, next) := by
  unfold translated
  rcases method s with ⟨_ | _, left⟩ <;> simp

theorem translated_eq_error {s next : Stream} {e : Failure}
    : translated translate method s = (.error e, next)
      ↔ ∃ found, method s = (.error found, next) ∧ translate found = e := by
  unfold translated
  rcases method s with ⟨_ | _, left⟩ <;> simp [and_comm]

theorem Reads.wrapped_eol_iff (reads : Reads method) {typ : String} {s next : Stream}
    : wrapped typ method s = (.error (.stream .eol), next) ↔ s.kind = (.error .eol, next) := by
  rw [wrapped, translated_eq_error, ← reads.eol_iff]
  constructor
  · rintro ⟨found, failed, same⟩
    rwa [wrapStreamError_eol_iff.mp same] at failed
  · intro failed
    exact ⟨_, failed, rfl⟩

theorem Reads.wrapped_peeks (reads : Reads method) {typ : String} {s next : Stream}
    {header : Kind × Nat} (read : s.kind = (.ok header, next))
    : wrapped typ method next = wrapped typ method s := by
  simp only [wrapped, translated, reads.peeks read]

end Translated

/-- The decoder accepts exactly the encodings of the normal values, each as its value. -/
structure Codes {α : Type} (decode : Decoder α) (item : α → Item) (normal : α → Prop)
    : Prop where
  sound : ∀ {s next : Stream} {a : α}, s.Ready → decode s = (.ok a, next) →
    normal a ∧ Consumed (item a).encode s next
  complete : ∀ {s : Stream} {rest : Bytes} {a : α}, s.Ready → normal a →
    s.Fits (item a).encode.length → s.r = (item a).encode ++ rest →
    ∃ next, decode s = (.ok a, next)
  eol_iff : ∀ {s next : Stream},
    decode s = (.error (.stream .eol), next) ↔ s.kind = (.error .eol, next)
  peeks : ∀ {s next : Stream} {header : Kind × Nat},
    s.kind = (.ok header, next) → decode next = decode s

/-- The same for what is inside a list of a given size. -/
structure CodesAll {α : Type} (decodeAll : Nat → Decoder α) (items : α → List Item)
    (normal : α → Prop) : Prop where
  sound : ∀ (size : Nat) {s next : Stream} {a : α}, s.Ready →
    decodeAll size s = (.ok a, next) →
    normal a ∧ Consumed (encodeAll (items a)) s next
  complete : ∀ {s : Stream} {rest : Bytes} {a : α}, s.Ready → normal a →
    s.listLimit = some (encodeAll (items a)).length → s.r = encodeAll (items a) ++ rest →
    ∃ next, decodeAll (encodeAll (items a)).length s = (.ok a, next)
  noEol : ∀ (size : Nat) {s next : Stream},
    decodeAll size s ≠ (.error (.stream .eol), next)

variable {β : Type} {decode : Decoder α} {normal : α → Prop} {s next : Stream}

/-- A decoder of strings: it accepts what `Bytes` accepts, if the string is well formed. -/
theorem Codes.ofBytes {bytes : α → Bytes}
    (accepts : ∀ {s next : Stream} {a : α}, s.Ready →
      (decode s = (.ok a, next) ↔ normal a ∧ s.bytes = (.ok (bytes a), next)))
    (eol_iff : ∀ {s next : Stream},
      decode s = (.error (.stream .eol), next) ↔ s.kind = (.error .eol, next))
    (peeks : ∀ {s next : Stream} {header : Kind × Nat},
      s.kind = (.ok header, next) → decode next = decode s)
    : Codes decode (fun a => .str (bytes a)) normal where
  sound ready run := by
    obtain ⟨isNormal, read⟩ := (accepts ready).mp run
    rw [Item.encode]
    exact ⟨isNormal, bytes_consumed ready read⟩
  complete ready isNormal fits input := by
    rw [Item.encode] at fits input
    obtain ⟨next, read⟩ := bytes_encodeStr ready fits input
    exact ⟨next, (accepts ready).mpr ⟨isNormal, read⟩⟩
  eol_iff := eol_iff
  peeks := peeks

theorem converted_eq_ok {f : α → β} {b : β}
    : (decode >>= fun a => pure (f a)) s = (.ok b, next)
      ↔ ∃ a, decode s = (.ok a, next) ∧ f a = b := by
  rw [bind_eq_ok]
  constructor
  · rintro ⟨a, middle, run, returned⟩
    obtain ⟨value, rfl⟩ := pure_eq_ok.mp returned
    exact ⟨a, run, value⟩
  · rintro ⟨a, run, value⟩
    exact ⟨a, next, run, pure_eq_ok.mpr ⟨value, rfl⟩⟩

theorem converted_eq_error {f : α → β} {e : Failure}
    : (decode >>= fun a => pure (f a)) s = (.error e, next) ↔ decode s = (.error e, next) := by
  rw [bind_eq_error]
  constructor
  · rintro (failed | ⟨a, middle, -, returned⟩)
    · exact failed
    · cases returned
  · exact Or.inl

theorem converted_congr {f : α → β} (same : decode next = decode s)
    : (decode >>= fun a => pure (f a)) next = (decode >>= fun a => pure (f a)) s := by
  show Prog.bind _ _ next = Prog.bind _ _ s
  simp only [Prog.bind, same]

theorem codes_byteSlice : Codes decodeByteSlice .str (fun _ => True) := by
  refine Codes.ofBytes ?_ reads_bytes.wrapped_eol_iff reads_bytes.wrapped_peeks
  intro s next b _
  rw [decodeByteSlice, wrapped, translated_eq_ok, true_and]

/-- A big integer is coded by its minimal digits; a negative one is not. -/
theorem codes_bigInt
    : Codes decodeBigInt (fun i => .str (minimalBE i.toNat)) (fun i => Int.le 0 i) := by
  refine Codes.ofBytes (fun ready => ?_) (converted_eq_error.trans reads_bigInt.wrapped_eol_iff)
    (fun read => converted_congr (reads_bigInt.wrapped_peeks read))
  rw [decodeBigInt, converted_eq_ok]
  simp only [wrapped, translated_eq_ok, bigInt_ok_iff ready]
  constructor
  · rintro ⟨n, ⟨b, read, leading, rfl⟩, rfl⟩
    refine ⟨Int.natCast_nonneg _, ?_⟩
    rw [Int.toNat_natCast, minimalBE_ofBE leading]
    exact read
  · rintro ⟨nonneg, read⟩
    exact ⟨_, ⟨_, read, minimalBE_head _, (ofBE_minimalBE _).symm⟩, Int.toNat_of_nonneg nonneg⟩

/-- An unsigned integer is coded by its minimal digits. -/
theorem codes_uint : Codes decodeUint (fun i => .str (minimalBE i.toNat)) (fun _ => True) := by
  refine Codes.ofBytes (fun ready => ?_)
    (converted_eq_error.trans (reads_uint 64).wrapped_eol_iff)
    (fun read => converted_congr ((reads_uint 64).wrapped_peeks read))
  rw [decodeUint, converted_eq_ok, true_and]
  simp only [wrapped, translated_eq_ok, uint_ok_iff ready]
  constructor
  · rintro ⟨n, ⟨b, read, short, leading, rfl⟩, rfl⟩
    have small : ofBE b < 2 ^ 64 := by
      calc ofBE b < 256 ^ b.length := ofBE_lt b
        _ ≤ 256 ^ 8 := Nat.pow_le_pow_right (by decide) short
        _ = 2 ^ 64 := by decide
    rw [UInt64.toNat_ofNat', Nat.mod_eq_of_lt small, minimalBE_ofBE leading]
    exact read
  · intro read
    refine ⟨_, ⟨_, read, ?_, minimalBE_head _, (ofBE_minimalBE _).symm⟩, UInt64.ofNat_toNat⟩
    exact minimalBE_length (by simpa using UInt64.toNat_lt _) (by decide)

/-- An array is coded by its bytes. -/
theorem codes_byteArray (typ : String) (length : Nat)
    : Codes (decodeByteArray typ length) (fun b => .str b.1) (fun _ => True) := by
  refine Codes.ofBytes (fun ready => ?_) ?_ ?_
  · rw [decodeByteArray_ok_iff ready, true_and]
  · intro s next
    rcases read : s.kind with ⟨e | ⟨_ | _ | _, size⟩, middle⟩
    · simp [decodeByteArray, read]
    · simp only [decodeByteArray, read]
      split_ifs <;> simp
    · simp only [decodeByteArray, read]
      split_ifs
      · simp
      · simp
      · split
        · rename_i failed
          simp [(readFull_error failed).notEol]
        · split_ifs <;> simp [wrapStreamError]
    · simp [decodeByteArray, read, wrapStreamError]
  · intro s next header read
    simp only [decodeByteArray, read, kind_again read]

variable {size : Nat} {items : List Item} {middle : Stream} {rest : Bytes}

/-- A header and elements of its size are the encoding of a list. -/
theorem Stream.Heads.consumed_list (heads : s.Heads .list size middle) (ready : s.Ready)
    (length : (encodeAll items).length = size) (elements : Consumed (encodeAll items) middle next)
    : Consumed (Item.list items).encode s next := by
  have encoded : (Item.list items).encode
      = headOf .list size middle.byteval ++ encodeAll items := by
    simp [Item.encode, headOf, length]
  rw [encoded]
  refine ⟨?_, ?_, elements.fresh⟩
  · rw [heads.input, elements.input, List.append_assoc]
  · rw [List.length_append]
    exact heads.after.trans elements.after ready.bounded

/-- A list is entered behind its header. -/
theorem Stream.list_ok {inside : Stream} (ready : s.Ready) (run : s.list = (.ok size, inside))
    : ∃ middle, s.Heads .list size middle ∧ inside = middle.enter size := by
  rcases read : s.kind with ⟨e | ⟨_ | _ | _, found⟩, middle⟩
  · simp [list, read] at run
  · simp [list, read] at run
  · simp [list, read] at run
  · obtain ⟨heads, ahead, -⟩ := kind_ok ready.sound ready.bounded ready.fresh read
    rw [← list_kind read, list_ahead ahead] at run
    cases run
    exact ⟨middle, heads, rfl⟩

theorem Stream.list_encode (ready : s.Ready) (fits : s.Fits (Item.list items).encode.length)
    (input : s.r = (Item.list items).encode ++ rest)
    : ∃ middle, s.list = (.ok (encodeAll items).length, middle.enter (encodeAll items).length)
      ∧ s.Heads .list (encodeAll items).length middle ∧ middle.r = encodeAll items ++ rest := by
  obtain ⟨middle, kind, heads, ahead, left⟩ :=
    kind_headed ready (by decide) (encode_list items) fits input
  refine ⟨middle, ?_, heads, left⟩
  rw [← list_kind kind, list_ahead ahead]

/-- A list is coded if its elements are. -/
theorem CodesAll.list {decodeAll : Nat → Decoder α} {items : α → List Item}
    (elements : CodesAll decodeAll items normal) (typ : String)
    {leave : Err → Failure} (leaves : ∀ {e}, e ≠ .eol → leave e ≠ .stream .eol)
    : Codes (decodeList typ leave decodeAll) (fun a => .list (items a)) normal where
  sound := by
    intro s next a ready run
    simp only [decodeList, wrapped, bind_eq_ok, translated_eq_ok] at run
    obtain ⟨size, inside, entered, value, left, decoded, done, last, ended, returned⟩ := run
    obtain ⟨rfl, rfl⟩ := pure_eq_ok.mp returned
    obtain ⟨middle, heads, rfl⟩ := list_ok ready entered
    obtain ⟨enterReady, -⟩ := heads.enter_ready ready
    obtain ⟨isNormal, consumed⟩ := elements.sound _ enterReady decoded
    have closed : endList (items value) left = (.ok (.list (items value)), last) := by
      simp [endList, ended]
    obtain ⟨-, length, behind⟩ :=
      endList_ok (s := middle) enterReady.bounded heads.small consumed closed
    exact ⟨isNormal, heads.consumed_list ready length behind⟩
  complete := by
    intro s rest a ready isNormal fits input
    obtain ⟨middle, entered, heads, left⟩ := list_encode ready fits input
    obtain ⟨enterReady, -⟩ := heads.enter_ready ready
    obtain ⟨inside, decoded⟩ := elements.complete enterReady isNormal rfl left
    obtain ⟨-, consumed⟩ := elements.sound _ enterReady decoded
    have stack : inside.stack = 0 :: advance (encodeAll (items a)).length middle.stack := by
      rw [consumed.after.stack]
      simp [enter, advance, subU64_of_le (Nat.le_refl _) heads.small]
    obtain ⟨last, ended⟩ : ∃ last, inside.listEnd = (.ok (), last) := by
      unfold listEnd
      rw [stack]
      exact ⟨_, rfl⟩
    refine ⟨last, bind_eq_ok.mpr ⟨_, _, translated_eq_ok.mpr entered, ?_⟩⟩
    refine bind_eq_ok.mpr ⟨a, inside, decoded, ?_⟩
    exact bind_eq_ok.mpr ⟨(), _, translated_eq_ok.mpr ended, rfl⟩
  eol_iff := by
    intro s next
    rw [decodeList, bind_eq_error, reads_list.wrapped_eol_iff]
    constructor
    · rintro (atEnd | ⟨size, inside, -, later⟩)
      · exact atEnd
      · exfalso
        rcases bind_eq_error.mp later with failed | ⟨value, left, -, ending⟩
        · exact elements.noEol _ failed
        · rcases bind_eq_error.mp ending with failed | ⟨-, last, -, returned⟩
          · obtain ⟨e, ended, same⟩ := translated_eq_error.mp failed
            exact leaves (listEnd_error ended).notEol same
          · cases returned
    · exact Or.inl
  peeks := by
    intro s next header read
    show Prog.bind _ _ next = Prog.bind _ _ s
    simp only [Prog.bind, reads_list.wrapped_peeks read]

section Elements

variable {item : α → Item}

/-- The end of a list is no error of its elements. -/
theorem decodeElems_noEol (fuel i : Nat) (s next : Stream)
    : decodeElems decode fuel i s ≠ (.error (.stream .eol), next) := by
  induction fuel generalizing i s with
  | zero =>
    intro run
    cases run
  | succ fuel ih =>
    intro run
    simp only [decodeElems] at run
    split at run
    · cases run
    · rename_i e middle notEol failed
      simp only [Prod.mk.injEq, Except.error.injEq, addErrorContext_eol_iff] at run
      exact notEol run.1
    · split at run
      · rename_i failed
        cases run
        exact ih _ _ failed
      · cases run

variable (codes : Codes decode item normal)
include codes

theorem Codes.eol_consumed (ready : s.Ready) (run : decode s = (.error (.stream .eol), next))
    : Consumed [] s next := by
  rcases kind_error ready.fresh (codes.eol_iff.mp run) with ⟨-, rfl, -⟩ | plain
  · exact Consumed.nil ready.sound ready.fresh
  · exact absurd rfl plain.notEol

theorem Codes.decode_atEnd (ready : s.Ready) (atEnd : s.listLimit = some 0)
    : decode s = (.error (.stream .eol), s) :=
  codes.eol_iff.mpr (kind_atEnd ready atEnd)

/-- The first of the elements of a list, and what it leaves for the others. -/
theorem Codes.first_complete {rest : Bytes} {a : α} {items : List Item}
    (ready : s.Ready) (isNormal : normal a)
    (limit : s.listLimit = some (encodeAll (item a :: items)).length)
    (input : s.r = encodeAll (item a :: items) ++ rest)
    : ∃ middle, decode s = (.ok a, middle) ∧ middle.Ready
      ∧ middle.listLimit = some (encodeAll items).length ∧ middle.r = encodeAll items ++ rest := by
  rw [encodeAll_cons] at limit input
  rw [List.length_append] at limit
  rw [List.append_assoc] at input
  have fits : s.Fits (item a).encode.length := by
    intro found member
    have same := Option.some.inj (limit.symm.trans member)
    omega
  obtain ⟨middle, first⟩ := codes.complete ready isNormal fits input
  obtain ⟨-, consumed⟩ := codes.sound ready first
  exact ⟨middle, first, consumed.ready ready, consumed.after.listLimit_eq ready.sound limit,
    List.append_cancel_left (consumed.input.symm.trans input)⟩

/-- Elements that were decoded one by one; induction on the rounds. -/
theorem Codes.decodeElems_sound (fuel i : Nat) {vs : List α} (ready : s.Ready)
    (run : decodeElems decode fuel i s = (.ok vs, next))
    : List.Forall normal vs ∧ Consumed (encodeAll (vs.map item)) s next := by
  induction fuel generalizing i s vs with
  | zero => cases run
  | succ fuel ih =>
    simp only [decodeElems] at run
    split at run
    · rename_i ended
      cases run
      exact ⟨trivial, by simpa using codes.eol_consumed ready ended⟩
    · cases run
    · rename_i v middle first
      obtain ⟨isNormal, consumed⟩ := codes.sound ready first
      split at run
      · cases run
      · rename_i rest left others
        cases run
        obtain ⟨areNormal, behind⟩ := ih (i + 1) (consumed.ready ready) others
        refine ⟨(List.forall_cons _ _ _).mpr ⟨isNormal, areNormal⟩, ?_⟩
        rw [List.map_cons, encodeAll_cons]
        exact consumed.trans behind ready.bounded

/-- Every list of encodings is decoded; induction on the elements. -/
theorem Codes.decodeElems_complete (vs : List α) (fuel i : Nat) {s : Stream} {rest : Bytes}
    (ready : s.Ready) (areNormal : List.Forall normal vs)
    (limit : s.listLimit = some (encodeAll (vs.map item)).length)
    (input : s.r = encodeAll (vs.map item) ++ rest)
    (enough : (encodeAll (vs.map item)).length < fuel)
    : ∃ next, decodeElems decode fuel i s = (.ok vs, next) := by
  match fuel, vs with
  | 0, _ => omega
  | fuel + 1, [] => exact ⟨s, by simp [decodeElems, codes.decode_atEnd ready limit]⟩
  | fuel + 1, v :: vs =>
    rw [List.map_cons, encodeAll_cons, List.length_append] at enough
    obtain ⟨isNormal, othersNormal⟩ := (List.forall_cons _ _ _).mp areNormal
    obtain ⟨middle, first, ready, limit, left⟩ := codes.first_complete ready isNormal limit input
    have positive := (item v).encode_pos
    obtain ⟨next, others⟩ :=
      Codes.decodeElems_complete vs fuel (i + 1) ready othersNormal limit left (by omega)
    exact ⟨next, by simp only [decodeElems, first, others]⟩

/-- The elements of a slice are coded one after the other. -/
theorem Codes.elements
    : CodesAll (decodeSized decode) (fun vs => vs.map item) (List.Forall normal) where
  sound := by
    intro size s next vs ready run
    unfold decodeSized at run
    split at run
    · cases run
      exact ⟨trivial, by simpa using Consumed.nil ready.sound ready.fresh⟩
    · exact codes.decodeElems_sound _ _ ready run
  complete := by
    intro s rest vs ready areNormal limit input
    unfold decodeSized
    split
    · rename_i empty
      rcases vs with _ | ⟨v, vs⟩
      · exact ⟨s, rfl⟩
      · have positive := (item v).encode_pos
        rw [List.map_cons, encodeAll_cons, List.length_append] at empty
        omega
    · refine codes.decodeElems_complete vs _ _ ready areNormal limit input ?_
      rw [input, List.length_append]
      omega
  noEol := by
    intro size s next run
    unfold decodeSized at run
    split at run
    · cases run
    · exact decodeElems_noEol _ _ _ _ run

end Elements

/-! Pointers. -/

/-- The header of an encoding tells a list from a string, and how much there is to it. -/
theorem Stream.kind_encode {v : Item} (ready : s.Ready)
    (fits : s.Fits v.encode.length) (input : s.r = v.encode ++ rest)
    : ∃ kind size next, s.kind = (.ok (kind, size), next)
      ∧ (kind ≠ .byte ∧ size = 0 ↔ v = .str [] ∨ v = .list [])
      ∧ (kind = .list ↔ ∃ items, v = .list items)
      ∧ ∀ items, v = .list items → size = (encodeAll items).length := by
  cases v with
  | list items =>
    obtain ⟨middle, kind, -⟩ := kind_headed ready (by decide) (encode_list items) fits input
    refine ⟨.list, _, middle, kind, ?_, by simp, by simp⟩
    rcases items with _ | ⟨item, items⟩
    · simp
    · have positive := item.encode_pos
      rw [encodeAll_cons, List.length_append]
      constructor
      · rintro ⟨-, zero⟩
        omega
      · rintro (isString | isEmpty)
        · cases isString
        · cases isEmpty
  | str b =>
    rw [Item.encode] at fits input
    rcases single : singleByte b with _ | _
    · obtain ⟨middle, kind, -⟩ :=
        kind_headed ready (by decide) (encodeStr_headed single) fits input
      exact ⟨.string, _, middle, kind, by simp⟩
    · match b, single with
      | [byte], single =>
        obtain ⟨middle, kind, -⟩ := kind_single ready single fits input
        exact ⟨.byte, 0, middle, kind, by simp⟩

/-- An empty value is a header without content. -/
theorem Stream.Heads.consumed_empty {kind : Kind}
    (heads : s.Heads kind 0 middle) (notByte : kind ≠ .byte)
    : Consumed (emptyItem kind).encode s { middle with kindAhead := none } := by
  have encoded : (emptyItem kind).encode = headOf kind 0 middle.byteval := by
    cases kind with
    | byte => exact absurd rfl notByte
    | string => simp [emptyItem, Item.encode, encodeStr, singleByte, headOf]
    | list => simp [emptyItem, Item.encode, headOf]
  rw [encoded]
  have after := heads.after
  exact ⟨heads.input, ⟨after.enough, after.r, after.remaining, after.stack, after.limited⟩, rfl⟩

/-- A pointer is coded by its element, and nil by an empty value that no element has. -/
theorem Codes.nilPtr {item : α → Item}
    (codes : Codes decode item normal) (typ : String) {nilKind : Kind} (nil : nilKind ≠ .byte)
    (neverEmpty : ∀ {a}, normal a → item a ≠ .str [] ∧ item a ≠ .list [])
    : Codes (decodeNilPtr typ nilKind decode) (fun ptr => ptr.elim (emptyItem nilKind) item)
        (fun ptr => ∀ a ∈ ptr, normal a) where
  sound := by
    intro s next ptr ready run
    unfold decodeNilPtr at run
    split at run
    · cases run
    · rename_i kind size middle read
      obtain ⟨heads, -, -⟩ := kind_ok ready.sound ready.bounded ready.fresh read
      split at run
      · rename_i empty
        split at run
        · cases run
        · rename_i same
          cases run
          obtain rfl : kind = nilKind := Decidable.not_not.mp same
          obtain ⟨notByte, rfl⟩ := empty
          exact ⟨by simp, heads.consumed_empty notByte⟩
      · rw [codes.peeks read] at run
        split at run
        · cases run
        · rename_i v left decoded
          cases run
          obtain ⟨isNormal, consumed⟩ := codes.sound ready decoded
          exact ⟨by simpa using isNormal, consumed⟩
  complete := by
    intro s rest ptr ready isNormal fits input
    obtain ⟨kind, size, middle, read, empty, isList, -⟩ := kind_encode ready fits input
    simp only [decodeNilPtr, read]
    rcases ptr with _ | a
    · have found : kind ≠ .byte ∧ size = 0 := by
        rw [empty]
        cases nilKind <;> simp [emptyItem]
      have same : kind = nilKind := by
        cases nilKind with
        | byte => exact absurd rfl nil
        | list => exact isList.mpr ⟨[], rfl⟩
        | string =>
          have notList : kind ≠ .list := fun list => by simpa [emptyItem] using isList.mp list
          cases kind with
          | byte => exact absurd rfl found.1
          | list => exact absurd rfl notList
          | string => rfl
      rw [if_pos found, if_neg (by simpa using same)]
      exact ⟨_, rfl⟩
    · have normalValue : normal a := isNormal a rfl
      have nonempty : ¬ (kind ≠ .byte ∧ size = 0) := by
        rw [empty]
        exact not_or.mpr (neverEmpty normalValue)
      obtain ⟨next, decoded⟩ := codes.complete ready normalValue fits input
      rw [if_neg nonempty, codes.peeks read, decoded]
      exact ⟨next, rfl⟩
  eol_iff := by
    intro s next
    rcases read : s.kind with ⟨e | header, middle⟩
    · simp [decodeNilPtr, read, wrapStreamError_eol_iff]
    · simp only [decodeNilPtr, read]
      split
      · split <;> simp
      · rw [codes.peeks read]
        split
        · rename_i e left failed
          have notEol : e ≠ .stream .eol := by
            rintro rfl
            have ended := codes.eol_iff.mp failed
            rw [read] at ended
            cases ended
          simp [notEol]
        · simp
  peeks := by
    intro s next header read
    simp only [decodeNilPtr, read, kind_again read]

/-! Structs. -/

/-- A field and the fields behind it. -/
theorem Codes.field {item : α → Item} {decodeRest : Decoder β} {items : β → List Item}
    {normals : β → Prop} (first : Codes decode item normal)
    (others : CodesAll (fun _ => decodeRest) items normals) (typ name : String)
    : CodesAll (fun _ => decodeField typ name decode decodeRest) (fun v => item v.1 :: items v.2)
        (fun v => normal v.1 ∧ normals v.2) where
  sound := by
    intro size s next v ready run
    simp only [decodeField] at run
    split at run
    · cases run
    · cases run
    · rename_i v middle decoded
      obtain ⟨isNormal, consumed⟩ := first.sound ready decoded
      split at run
      · cases run
      · rename_i vs left decodedRest
        cases run
        obtain ⟨areNormal, behind⟩ := others.sound size (consumed.ready ready) decodedRest
        refine ⟨⟨isNormal, areNormal⟩, ?_⟩
        rw [encodeAll_cons]
        exact consumed.trans behind ready.bounded
  complete := by
    intro s tail v ready isNormal limit input
    obtain ⟨middle, decoded, ready, limit, left⟩ :=
      first.first_complete ready isNormal.1 limit input
    obtain ⟨next, decodedRest⟩ := others.complete ready isNormal.2 limit left
    exact ⟨next, by simp only [decodeField, decoded, decodedRest]⟩
  noEol := by
    intro size s next run
    simp only [decodeField] at run
    split at run
    · cases run
    · rename_i e middle notEol failed
      simp only [Prod.mk.injEq, Except.error.injEq, addErrorContext_eol_iff] at run
      exact notEol run.1
    · split at run
      · rename_i failed
        cases run
        exact others.noEol size failed
      · cases run

/-- A type that is never empty has no value with an empty item. -/
theorem Ty.item_nonempty {t : Ty} (neverEmpty : t.neverEmpty = true) (v : t.Val)
    : t.item v ≠ .str [] ∧ t.item v ≠ .list [] := by
  match t, neverEmpty with
  | .byteArray name length, positive =>
    have width : v.1.length = length := v.2
    have positive : 0 < length := by simpa [Ty.neverEmpty] using positive
    refine ⟨?_, by simp [Ty.item]⟩
    intro empty
    have none : v.1 = [] := by simpa [Ty.item] using empty
    rw [none] at width
    simp only [List.length_nil] at width
    omega
  | .struct name (.cons field ty rest), _ =>
    obtain ⟨v, vs⟩ := v
    exact ⟨by simp [Ty.item], by simp [Ty.item, Fields.items]⟩

mutual
/-- The decoder of a safe type reads the writable values, by induction on the type. -/
theorem codes_makeDecoder (t : Ty) (safe : t.safe = true)
    : Codes (makeDecoder t) t.item t.Writable := by
  match t with
  | .uint64 => exact codes_uint
  | .bigInt => exact codes_bigInt
  | .bytes => exact codes_byteSlice
  | .byteArray name length => exact codes_byteArray name length
  | .nilPtr elem =>
    obtain ⟨neverEmpty, elemSafe⟩ : elem.neverEmpty = true ∧ elem.safe = true := by
      simpa [Ty.safe] using safe
    have nil : defaultNilKind elem ≠ .byte := by cases elem <;> simp [defaultNilKind]
    have pointer := (codes_makeDecoder elem elemSafe).nilPtr ("*" ++ elem.name) nil
      (fun {v} _ => elem.item_nonempty neverEmpty v)
    have sameItem : (fun ptr : Option elem.Val =>
          ptr.elim (emptyItem (defaultNilKind elem)) elem.item)
        = (Ty.nilPtr elem).item := by
      funext ptr
      cases ptr <;> rfl
    have sameNormal : (fun ptr : Option elem.Val => ∀ v ∈ ptr, elem.Writable v)
        = (Ty.nilPtr elem).Writable := by
      funext ptr
      cases ptr <;> simp [Ty.Writable]
    rw [sameItem, sameNormal] at pointer
    exact pointer
  | .slice name elem =>
    exact (codes_makeDecoder elem (by simpa [Ty.safe] using safe)).elements.list name
      (fun notEol same => notEol (Failure.stream.inj same))
  | .struct name fields =>
    exact (codesAll_decodeFields name fields (by simpa [Ty.safe] using safe)).list name
      (fun notEol same => notEol (wrapStreamError_eol_iff.mp same))

/-- The decoders of the fields of a struct, by induction on the fields. -/
theorem codesAll_decodeFields (typ : String) (fields : Fields) (safe : fields.safe = true)
    : CodesAll (fun _ => decodeFields typ fields) fields.items fields.Writable := by
  match fields with
  | .nil =>
    refine ⟨?_, fun {s} _ _ _ _ _ _ => ⟨s, rfl⟩, fun _ _ _ run => by cases run⟩
    intro size s next v ready run
    obtain ⟨-, rfl⟩ := pure_eq_ok.mp run
    exact ⟨trivial, by simpa [Fields.items] using Consumed.nil ready.sound ready.fresh⟩
  | .cons name ty rest =>
    obtain ⟨tySafe, restSafe⟩ : ty.safe = true ∧ rest.safe = true := by
      simpa [Fields.safe] using safe
    exact (codes_makeDecoder ty tySafe).field (codesAll_decodeFields typ rest restSafe) typ name
end

end GoBinacoin.Rlp
