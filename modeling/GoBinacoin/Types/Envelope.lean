import GoBinacoin.Types.Transaction

/-! Both encodings of transactions are canonical: the accepted byte strings correspond one
to one to the transaction data that can be encoded at all.
-/

namespace GoBinacoin.Types

open Rlp BigEndian Program Stream TxData

namespace TxData

/-- The list of the fields. -/
def item (d : TxData) : Item := d.ty.item d.val

/-- None of the integers is negative. -/
def Writable (d : TxData) : Prop := d.ty.Writable d.val

/-- The integers that RLP could not encode if they were negative. -/
def integers : TxData → List Int
  | .legacy tx => [tx.gasPrice, tx.value, tx.v, tx.r, tx.s]
  | .accessList tx => [tx.chainID, tx.gasPrice, tx.value, tx.v, tx.r, tx.s]
  | .dynamicFee tx => [tx.chainID, tx.gasTipCap, tx.gasFeeCap, tx.value, tx.v, tx.r, tx.s]

/-- The binary form. -/
def binary (d : TxData) : Bytes :=
  if d.txType = legacyTxType then d.item.encode else d.txType :: d.item.encode

/-- The RLP form. -/
def rlpItem (d : TxData) : Item :=
  if d.txType = legacyTxType then d.item else .str d.binary

theorem toAddr_writable (ptr : (Ty.nilPtr addressTy).Val) : (Ty.nilPtr addressTy).Writable ptr := by
  cases ptr <;> trivial

theorem accessList_writable (list : accessListTy.Val) : accessListTy.Writable list := by
  refine List.forall_iff_forall_mem.mpr fun tuple _ => ?_
  exact ⟨trivial, List.forall_iff_forall_mem.mpr fun _ _ => trivial, trivial⟩

variable (d : TxData)

/-- A transaction is writable exactly if none of its integers is negative. -/
theorem writable_iff : d.Writable ↔ ∀ i ∈ d.integers, 0 ≤ i := by
  cases d with
  | legacy tx =>
    simp only [integers, List.forall_mem_cons, List.not_mem_nil, false_imp_iff, implies_true,
      and_true]
    constructor
    · rintro ⟨-, gasPrice, -, -, value, -, v, r, s, -⟩
      exact ⟨gasPrice, value, v, r, s⟩
    · rintro ⟨gasPrice, value, v, r, s⟩
      exact ⟨trivial, gasPrice, trivial, toAddr_writable _, value, trivial, v, r, s, trivial⟩
  | accessList tx =>
    simp only [integers, List.forall_mem_cons, List.not_mem_nil, false_imp_iff, implies_true,
      and_true]
    constructor
    · rintro ⟨chainID, -, gasPrice, -, -, value, -, -, v, r, s, -⟩
      exact ⟨chainID, gasPrice, value, v, r, s⟩
    · rintro ⟨chainID, gasPrice, value, v, r, s⟩
      exact ⟨chainID, trivial, gasPrice, trivial, toAddr_writable _, value, trivial,
        accessList_writable _, v, r, s, trivial⟩
  | dynamicFee tx =>
    simp only [integers, List.forall_mem_cons, List.not_mem_nil, false_imp_iff, implies_true,
      and_true]
    constructor
    · rintro ⟨chainID, -, gasTipCap, gasFeeCap, -, -, value, -, -, v, r, s, -⟩
      exact ⟨chainID, gasTipCap, gasFeeCap, value, v, r, s⟩
    · rintro ⟨chainID, gasTipCap, gasFeeCap, value, v, r, s⟩
      exact ⟨chainID, trivial, gasTipCap, gasFeeCap, trivial, toAddr_writable _, value, trivial,
        accessList_writable _, v, r, s, trivial⟩

theorem binary_length_le : d.binary.length ≤ d.rlpItem.encode.length := by
  unfold rlpItem
  split
  · rename_i legacy
    rw [binary, if_pos legacy]
  · rw [Item.encode]
    exact encodeStr_length_le _

theorem item_length_le : d.item.encode.length ≤ d.binary.length := by
  unfold binary
  split
  · rfl
  · simp

end TxData

variable {tx : Transaction} {b : Bytes} {d : TxData} {old : Caches} {keccak : Bytes → Hash}

theorem encodeTyped_ok_iff (small : tx.inner.item.encode.length < 2 ^ 64)
    : tx.encodeTyped [] = .ok b
      ↔ tx.inner.Writable ∧ b = tx.inner.txType :: tx.inner.item.encode := by
  rw [Transaction.encodeTyped, encodeOnto_ok_iff small]
  rfl

/-- Exactly the writable transactions are marshalled. -/
theorem marshalBinary_ok_iff (small : tx.inner.binary.length < 2 ^ 64)
    : tx.marshalBinary = .ok b ↔ tx.inner.Writable ∧ b = tx.inner.binary := by
  have itemSmall := tx.inner.item_length_le.trans_lt small
  unfold Transaction.marshalBinary binary Transaction.type
  split
  · rename_i legacy
    rw [encodeBytesOf_ok_iff itemSmall]
    rfl
  · exact encodeTyped_ok_iff itemSmall

theorem rlpError_ok_iff {α : Type} {outcome : Except Failure α} {v : α}
    : rlpError outcome = .ok v ↔ outcome = .ok v := by
  cases outcome <;> simp [rlpError]

section Records

variable {α : Type} {t : Ty} (record : α ≃ t.Val)

variable (safe : t.safe = true)
include safe

theorem decodeRecord_ok
    {v : t.Val} (small : b.length < 2 ^ 64) (run : rlpError (decodeBytesInto t b) = .ok v)
    : t.Writable (record (record.symm v)) ∧ (t.item (record (record.symm v))).encode = b := by
  rw [record.apply_symm_apply]
  exact decodeBytesInto_ok safe small (rlpError_ok_iff.mp run)

theorem decodeRecord_encode {a : α}
    (writable : t.Writable (record a)) (small : (t.item (record a)).encode.length < 2 ^ 64)
    : rlpError (decodeBytesInto t (t.item (record a)).encode) = .ok (record a) :=
  rlpError_ok_iff.mpr (decodeBytesInto_encode safe writable small)

end Records

/-- A typed transaction is decoded from its binary form only. -/
theorem decodeTyped_ok (small : b.length < 2 ^ 64) (run : decodeTyped b = .ok d)
    : d.Writable ∧ d.txType ≠ legacyTxType ∧ d.binary = b := by
  unfold decodeTyped at run
  split at run
  · cases run
  · rename_i txType payload
    have payloadSmall : payload.length < 2 ^ 64 := by
      rw [List.length_cons] at small
      omega
    split at run
    · rename_i isAccessList
      obtain ⟨v, decoded, returned⟩ := except_bind_ok.mp run
      obtain ⟨writable, encoded⟩ := decodeRecord_ok accessListTxVal rfl payloadSmall decoded
      cases returned
      have typed : accessListTxType ≠ legacyTxType := by decide
      refine ⟨writable, typed, ?_⟩
      rw [isAccessList, ← encoded]
      exact if_neg typed
    · split at run
      · rename_i isDynamicFee
        obtain ⟨v, decoded, returned⟩ := except_bind_ok.mp run
        obtain ⟨writable, encoded⟩ := decodeRecord_ok dynamicFeeTxVal rfl payloadSmall decoded
        cases returned
        have typed : dynamicFeeTxType ≠ legacyTxType := by decide
        refine ⟨writable, typed, ?_⟩
        rw [isDynamicFee, ← encoded]
        exact if_neg typed
      · cases run

variable {payload : Bytes} {items : List Item} {size : Nat} {s : Stream}

theorem decodeTyped_accessList {v : accessListTxTy.Val}
    (decoded : rlpError (decodeBytesInto accessListTxTy payload) = .ok v)
    : decodeTyped (accessListTxType :: payload) = .ok (.accessList (accessListTxVal.symm v)) := by
  unfold decodeTyped
  dsimp only
  rw [if_pos rfl, decoded]
  rfl

theorem decodeTyped_dynamicFee {v : dynamicFeeTxTy.Val}
    (decoded : rlpError (decodeBytesInto dynamicFeeTxTy payload) = .ok v)
    : decodeTyped (dynamicFeeTxType :: payload) = .ok (.dynamicFee (dynamicFeeTxVal.symm v)) := by
  unfold decodeTyped
  dsimp only
  rw [if_neg (by decide), if_pos rfl, decoded]
  rfl

/-- The binary form of a typed transaction is decoded. -/
theorem decodeTyped_binary (small : d.binary.length < 2 ^ 64)
    (writable : d.Writable) (typed : d.txType ≠ legacyTxType)
    : decodeTyped d.binary = .ok d := by
  have itemSmall := d.item_length_le.trans_lt small
  rw [binary, if_neg typed]
  cases d with
  | legacy tx => exact absurd rfl typed
  | accessList tx =>
    have decoded := decodeRecord_encode accessListTxVal rfl writable itemSmall
    have found := decodeTyped_accessList decoded
    rw [accessListTxVal.symm_apply_apply] at found
    exact found
  | dynamicFee tx =>
    have decoded := decodeRecord_encode dynamicFeeTxVal rfl writable itemSmall
    have found := decodeTyped_dynamicFee decoded
    rw [dynamicFeeTxVal.symm_apply_apply] at found
    exact found

/-- A list starts with a byte that no type has. -/
theorem encode_list_head (small : (Item.list items).encode.length < 2 ^ 64)
    : (Item.list items).encode.head?.any (fun byte => byte > 0x7f) = true := by
  rw [Item.encode, List.length_append] at small
  have fits : (encodeAll items).length < 2 ^ 64 := by omega
  have width : byteLen (encodeAll items).length ≤ 8 := byteLen_le (by decide) (by simpa using fits)
  rw [Item.encode, header]
  split
  all_goals
    simp only [List.cons_append, List.head?_cons, Option.any_some, decide_eq_true_eq, gt_iff_lt,
      UInt8.lt_iff_toNat_lt, UInt8.toNat_add, UInt8.toNat_ofNat', UInt8.reduceToNat]
    omega

theorem setDecoded_hash {inner : TxData} : (setDecoded old inner size).caches.hash = old.hash := by
  unfold setDecoded
  split <;> rfl

/-- A transaction is decoded from its binary form only; a cached hash stays. -/
theorem unmarshalBinary_ok (small : b.length < 2 ^ 64) (run : unmarshalBinary old b = .ok tx)
    : tx.inner.Writable ∧ tx.inner.binary = b ∧ tx.caches.hash = old.hash := by
  unfold unmarshalBinary at run
  split at run
  · obtain ⟨v, decoded, returned⟩ := except_bind_ok.mp run
    obtain ⟨writable, encoded⟩ := decodeRecord_ok legacyTxVal rfl small decoded
    cases returned
    exact ⟨writable, encoded, setDecoded_hash⟩
  · obtain ⟨inner, decoded, returned⟩ := except_bind_ok.mp run
    obtain ⟨writable, -, encoded⟩ := decodeTyped_ok small decoded
    cases returned
    exact ⟨writable, encoded, setDecoded_hash⟩

/-- The binary form of a transaction is decoded. -/
theorem unmarshalBinary_binary (old : Caches) (small : d.binary.length < 2 ^ 64)
    (writable : d.Writable)
    : unmarshalBinary old d.binary = .ok (setDecoded old d d.binary.length) := by
  unfold unmarshalBinary
  cases d with
  | legacy tx =>
    have isList : (legacy tx).binary.head?.any (fun byte => byte > 0x7f) = true :=
      encode_list_head small
    have decoded := decodeRecord_encode legacyTxVal rfl writable small
    have same : (legacy tx).binary = (legacyTxTy.item (legacyTxVal tx)).encode := rfl
    rw [if_pos isList, same, decoded]
    show Except.ok (setDecoded old (.legacy (legacyTxVal.symm (legacyTxVal tx))) _) = _
    rw [legacyTxVal.symm_apply_apply]
  | accessList | dynamicFee =>
    rw [if_neg (by exact Bool.false_ne_true), decodeTyped_binary small writable (by rintro ⟨⟩)]
    rfl

/-- Exactly the writable transactions are encoded. -/
theorem encodeRLP_ok_iff {w w' : EncBuf} (small : tx.inner.rlpItem.encode.length < 2 ^ 64)
    : tx.encodeRLP w = .ok w' ↔ tx.inner.Writable ∧ w' = EncBuf.write tx.inner.rlpItem w := by
  have itemSmall := tx.inner.item_length_le.trans_lt (tx.inner.binary_length_le.trans_lt small)
  by_cases legacy : tx.inner.txType = legacyTxType
  · rw [Transaction.encodeRLP, Transaction.type, if_pos legacy, rlpItem, if_pos legacy]
    exact writes_makeWriter _ _ _ _
  · rw [Transaction.encodeRLP, Transaction.type, if_neg legacy, rlpItem, if_neg legacy, binary,
      if_neg legacy, except_bind_ok]
    simp only [encodeTyped_ok_iff itemSmall]
    constructor
    · rintro ⟨buf, ⟨writable, rfl⟩, wrote⟩
      exact ⟨writable, (Except.ok.inj wrote).symm⟩
    · rintro ⟨writable, rfl⟩
      exact ⟨_, ⟨writable, rfl⟩, rfl⟩

theorem encodeToBytes_ok_iff (small : tx.inner.rlpItem.encode.length < 2 ^ 64)
    : tx.encodeToBytes = .ok b ↔ tx.inner.Writable ∧ b = tx.inner.rlpItem.encode :=
  encodeBytesWith_ok_iff (fun _ => encodeRLP_ok_iff small) small

/-- What `rlp.DecodeBytes` decodes is what `DecodeRLP` decodes of the whole input. -/
theorem decodeBytes_ok_iff
    : decodeBytes old b = .ok tx
      ↔ ∃ next, decodeRLP old (ofBytes b (uint64 b.length)) = (.ok tx, next)
        ∧ next.r = [] := by
  rw [decodeBytes, decodeBytesWith_ok_iff]
  refine exists_congr fun next => and_congr_left fun _ => ?_
  unfold decodeTransaction
  cases decodeRLP old (ofBytes b (uint64 b.length)) with
  | mk outcome left => cases outcome <;> simp

/-- A transaction is decoded from its encoding only; a cached hash stays. -/
theorem decodeRLP_ok {next : Stream} (ready : s.Ready) (run : decodeRLP old s = (.ok tx, next))
    : tx.inner.Writable ∧ Consumed tx.inner.rlpItem.encode s next
      ∧ tx.caches.hash = old.hash := by
  unfold decodeRLP at run
  split at run
  · cases run
  · rename_i size middle read
    rw [(codes_decode (t := legacyTxTy) rfl).peeks read] at run
    split at run
    · cases run
    · rename_i v left decoded
      obtain ⟨writable, consumed⟩ := (codes_decode (t := legacyTxTy) rfl).sound ready decoded
      cases run
      rw [← legacyTxVal.apply_symm_apply v] at writable consumed
      exact ⟨writable, consumed, setDecoded_hash⟩
  · rename_i size middle read
    rw [bytes_kind read] at run
    split at run
    · cases run
    · rename_i b left bytes
      have consumed := bytes_consumed ready bytes
      have small : b.length < 2 ^ 64 :=
        ((encodeStr_length_le b).trans consumed.after.enough).trans_lt ready.bounded
      split at run
      · cases run
      · rename_i inner decoded
        obtain ⟨writable, typed, rfl⟩ := decodeTyped_ok small decoded
        cases run
        refine ⟨writable, ?_, setDecoded_hash⟩
        have form : inner.rlpItem = .str inner.binary := if_neg typed
        show Consumed inner.rlpItem.encode s next
        rw [form, Item.encode]
        exact consumed
  · cases run

/-- A transaction is decoded from its encoding only; a cached hash stays. -/
theorem decodeBytes_ok (small : b.length < 2 ^ 64) (run : decodeBytes old b = .ok tx)
    : tx.inner.Writable ∧ tx.inner.rlpItem.encode = b ∧ tx.caches.hash = old.hash := by
  obtain ⟨next, decoded, atEnd⟩ := decodeBytes_ok_iff.mp run
  obtain ⟨writable, consumed, kept⟩ := decodeRLP_ok (ofBytes_ready small) decoded
  have input := consumed.input
  rw [atEnd, List.append_nil] at input
  exact ⟨writable, input.symm, kept⟩

theorem listSize_encodeAll (small : (Item.list items).encode.length < 2 ^ 64)
    : listSize (encodeAll items).length = (Item.list items).encode.length := by
  rw [Item.encode, List.length_append] at small ⊢
  rw [header_length (by omega)] at small ⊢
  exact Nat.mod_eq_of_lt small

/-- The encoding of a transaction is decoded. -/
theorem decodeRLP_encode {rest : Bytes} (old : Caches) (ready : s.Ready)
    (writable : d.Writable) (fits : s.Fits d.rlpItem.encode.length)
    (input : s.r = d.rlpItem.encode ++ rest)
    : ∃ next, decodeRLP old s = (.ok (setDecoded old d d.binary.length), next) := by
  obtain ⟨kind, size, middle, read, -, isList, measured⟩ := Stream.kind_encode ready fits input
  by_cases legacy : d.txType = legacyTxType
  · have form : d.rlpItem = d.item := if_pos legacy
    rw [form] at fits input isList measured
    match d, legacy with
    | .legacy tx, _ =>
      obtain rfl : kind = .list := isList.mpr ⟨_, rfl⟩
      have codes := codes_decode (t := legacyTxTy) rfl
      have writable : legacyTxTy.Writable (legacyTxVal tx) := writable
      obtain ⟨next, decoded⟩ := codes.complete ready writable fits input
      rw [← codes.peeks read] at decoded
      have whole : listSize size = (TxData.legacy tx).binary.length := by
        have bounded := ready.bounded
        rw [input, List.length_append] at bounded
        rw [measured _ rfl]
        exact listSize_encodeAll (Nat.lt_of_le_of_lt (Nat.le_add_right _ _) bounded)
      simp only [decodeRLP, read, decoded, legacyTxVal.symm_apply_apply, whole]
      exact ⟨next, rfl⟩
  · have form : d.rlpItem = .str d.binary := if_neg legacy
    have typed : d.binary = d.txType :: d.item.encode := if_neg legacy
    rw [form, Item.encode] at fits input
    have small : d.binary.length < 2 ^ 64 := by
      have bounded := ready.bounded
      have header := encodeStr_length_le d.binary
      rw [input, List.length_append] at bounded
      omega
    obtain ⟨next, bytes⟩ := Stream.bytes_encodeStr ready fits input
    have bytesAgain := (Stream.bytes_kind read).trans bytes
    have decoded := decodeTyped_binary small writable legacy
    match kind, read with
    | .list, read =>
      obtain ⟨items, isItems⟩ := isList.mp rfl
      rw [form] at isItems
      cases isItems
    | .byte, read =>
      -- A single byte is no typed transaction, which has at least a header behind its type.
      simp only [Stream.bytes, read] at bytes
      have length := congrArg List.length (Except.ok.inj (Prod.mk.inj bytes).1)
      have positive := d.item.encode_pos
      simp only [typed, List.length_cons, List.length_nil] at length
      omega
    | .string, read =>
      simp only [decodeRLP, read, bytesAgain, decoded]
      exact ⟨next, rfl⟩

/-- The encoding of a transaction is decoded. -/
theorem decodeBytes_rlpItem (old : Caches)
    (small : d.rlpItem.encode.length < 2 ^ 64) (writable : d.Writable)
    : decodeBytes old d.rlpItem.encode = .ok (setDecoded old d d.binary.length) := by
  have ready := ofBytes_ready small
  obtain ⟨next, decoded⟩ :=
    decodeRLP_encode old ready writable (ofBytes_fits _) (List.append_nil _).symm
  obtain ⟨-, consumed, -⟩ := decodeRLP_ok ready decoded
  refine decodeBytes_ok_iff.mpr ⟨next, decoded, ?_⟩
  exact List.append_cancel_left (consumed.input.symm.trans (List.append_nil _).symm)

/-- A remembered hash is the hash of the data. -/
def Transaction.Coherent (keccak : Bytes → Hash) (tx : Transaction) : Prop :=
  ∀ h ∈ tx.caches.hash, h = tx.inner.hash keccak

/-- A cached hash is the hash. -/
theorem Transaction.Coherent.hash_eq (coherent : tx.Coherent keccak)
    : (tx.hash keccak).1 = tx.inner.hash keccak ∧ (tx.hash keccak).2.Coherent keccak := by
  unfold Transaction.hash
  split
  · rename_i h remembered
    exact ⟨coherent h remembered, coherent⟩
  · refine ⟨rfl, ?_⟩
    intro h member
    exact (Option.some.inj member).symm

theorem coherent_of_empty (empty : tx.caches.hash = none) : tx.Coherent keccak := by
  intro h member
  rw [empty] at member
  cases member

theorem hash_of_sameData {tx' : Transaction}
    (coherent : tx.Coherent keccak) (coherent' : tx'.Coherent keccak) (same : tx'.inner = tx.inner)
    : (tx'.hash keccak).1 = (tx.hash keccak).1 := by
  rw [coherent.hash_eq.1, coherent'.hash_eq.1, same]

/-- Both encodings of a transaction, decoded into a new transaction, give back its data and
its hash; and what either decoder accepts is what the matching encoder makes of the result,
so that different byte strings never have the same content. A transaction without negative
integers can be encoded.
-/
theorem envelopes_canonical (keccak : Bytes → Hash)
    : (∀ tx : Transaction, tx.Coherent keccak → tx.inner.rlpItem.encode.length < 2 ^ 64 →
        (∀ b, tx.marshalBinary = .ok b →
          ∃ tx', unmarshalBinary {} b = .ok tx' ∧ tx'.inner = tx.inner
            ∧ (tx'.hash keccak).1 = (tx.hash keccak).1)
        ∧ (∀ b, tx.encodeToBytes = .ok b →
          ∃ tx', decodeBytes {} b = .ok tx' ∧ tx'.inner = tx.inner
            ∧ (tx'.hash keccak).1 = (tx.hash keccak).1)
        ∧ ((∀ i ∈ tx.inner.integers, 0 ≤ i) →
            (∃ b, tx.marshalBinary = .ok b) ∧ ∃ b, tx.encodeToBytes = .ok b))
      ∧ (∀ (b : Bytes) (tx : Transaction), b.length < 2 ^ 64 →
          unmarshalBinary {} b = .ok tx → tx.marshalBinary = .ok b)
      ∧ (∀ (b : Bytes) (tx : Transaction), b.length < 2 ^ 64 →
          decodeBytes {} b = .ok tx → tx.encodeToBytes = .ok b)
      ∧ (∀ (b b' : Bytes) (tx tx' : Transaction), b.length < 2 ^ 64 → b'.length < 2 ^ 64 →
          unmarshalBinary {} b = .ok tx → unmarshalBinary {} b' = .ok tx' →
          tx.inner = tx'.inner → b = b')
      ∧ (∀ (b b' : Bytes) (tx tx' : Transaction), b.length < 2 ^ 64 → b'.length < 2 ^ 64 →
          decodeBytes {} b = .ok tx → decodeBytes {} b' = .ok tx' →
          tx.inner = tx'.inner → b = b') := by
  refine ⟨?_, ?_, ?_, ?_, ?_⟩
  · intro tx coherent small
    have binarySmall := tx.inner.binary_length_le.trans_lt small
    refine ⟨?_, ?_, ?_⟩
    · intro b encoded
      obtain ⟨writable, rfl⟩ := (marshalBinary_ok_iff binarySmall).mp encoded
      have decoded := unmarshalBinary_binary {} binarySmall writable
      obtain ⟨-, -, empty⟩ := unmarshalBinary_ok binarySmall decoded
      exact ⟨_, decoded, rfl, hash_of_sameData coherent (coherent_of_empty empty) rfl⟩
    · intro b encoded
      obtain ⟨writable, rfl⟩ := (encodeToBytes_ok_iff small).mp encoded
      have decoded := decodeBytes_rlpItem {} small writable
      obtain ⟨-, -, empty⟩ := decodeBytes_ok small decoded
      exact ⟨_, decoded, rfl, hash_of_sameData coherent (coherent_of_empty empty) rfl⟩
    · intro nonneg
      have writable := tx.inner.writable_iff.mpr nonneg
      exact ⟨⟨_, (marshalBinary_ok_iff binarySmall).mpr ⟨writable, rfl⟩⟩,
        ⟨_, (encodeToBytes_ok_iff small).mpr ⟨writable, rfl⟩⟩⟩
  · intro b tx small decoded
    obtain ⟨writable, rfl, -⟩ := unmarshalBinary_ok small decoded
    exact (marshalBinary_ok_iff small).mpr ⟨writable, rfl⟩
  · intro b tx small decoded
    obtain ⟨writable, rfl, -⟩ := decodeBytes_ok small decoded
    exact (encodeToBytes_ok_iff small).mpr ⟨writable, rfl⟩
  · intro b b' tx tx' small small' decoded decoded' same
    obtain ⟨-, form, -⟩ := unmarshalBinary_ok small decoded
    obtain ⟨-, form', -⟩ := unmarshalBinary_ok small' decoded'
    rw [← form, ← form', same]
  · intro b b' tx tx' small small' decoded decoded' same
    obtain ⟨-, form, -⟩ := decodeBytes_ok small decoded
    obtain ⟨-, form', -⟩ := decodeBytes_ok small' decoded'
    rw [← form, ← form', same]

/-- An access list transaction that calls account 3 and names one of its slots. -/
def sampleTx : Transaction :=
  newTx (.accessList {
    chainID := 61
    nonce := 7
    gasPrice := 2 ^ 70
    gas := 30000
    toAddr := some 3
    value := 0
    data := [0x80]
    accessList := [{ address := 3, storageKeys := [1] }]
    v := 1
    r := 5
    s := 6
  })

/-- The transaction is encoded, and its encoding is decoded to it. -/
theorem envelopes_canonical_sample
    : ∃ b, sampleTx.marshalBinary = .ok b
      ∧ ∃ tx', unmarshalBinary {} b = .ok tx' ∧ tx'.inner = sampleTx.inner
        ∧ (tx'.hash bytesToHash).1 = (sampleTx.hash bytesToHash).1 := by
  have small : sampleTx.inner.rlpItem.encode.length < 2 ^ 64 := by decide +kernel
  have nonneg : ∀ i ∈ sampleTx.inner.integers, 0 ≤ i := by decide
  have canonical :=
    (envelopes_canonical bytesToHash).1 sampleTx (coherent_of_empty rfl) small
  obtain ⟨b, encoded⟩ := (canonical.2.2 nonneg).1
  exact ⟨b, encoded, canonical.1 b encoded⟩

theorem size_newTx (small : d.item.encode.length < 2 ^ 64) (writable : d.Writable)
    : (newTx d).size.1 = d.item.encode.length := by
  have encoded : encodeOnto d.ty d.val [] = .ok d.item.encode :=
    (encodeOnto_ok_iff small).mpr ⟨writable, rfl⟩
  have counted : (newTx d).size.1 = ((encodeOnto d.ty d.val []).toOption.getD []).length := rfl
  rw [counted, encoded]
  rfl

theorem size_setDecoded (positive : 0 < size) : (setDecoded {} d size).size.1 = size := by
  simp [setDecoded, positive, Transaction.size]

/-- Both decodings of a transaction report the length of its binary form. `NewTx` leaves the
size to `Size`, which encodes the data without the type byte, so that it reports the same
exactly for legacy transactions, and one byte less for the others. The pool then takes one
slot less for the built transaction if its data fills whole slots.
-/
theorem received_sizes (nonneg : ∀ i ∈ d.integers, 0 ≤ i)
    (small : d.rlpItem.encode.length < 2 ^ 64)
    : ∃ b c decoded unmarshalled,
        (newTx d).encodeToBytes = .ok b ∧ decodeBytes {} b = .ok decoded
        ∧ (newTx d).marshalBinary = .ok c ∧ unmarshalBinary {} c = .ok unmarshalled
        ∧ decoded.inner = d ∧ unmarshalled.inner = d
        ∧ decoded.size.1 = unmarshalled.size.1
        ∧ unmarshalled.size.1 = (newTx d).size.1 + (if d.txType = legacyTxType then 0 else 1)
        ∧ (numSlots decoded = numSlots (newTx d)
            ↔ d.txType = legacyTxType ∨ ¬ txSlotSize ∣ (newTx d).size.1)
        ∧ (numSlots unmarshalled = numSlots (newTx d)
            ↔ d.txType = legacyTxType ∨ ¬ txSlotSize ∣ (newTx d).size.1) := by
  have writable := d.writable_iff.mpr nonneg
  have binarySmall := d.binary_length_le.trans_lt small
  have itemSmall := d.item_length_le.trans_lt binarySmall
  have built := size_newTx itemSmall writable
  have decoded : (setDecoded {} d d.binary.length).size.1 = d.binary.length :=
    size_setDecoded (d.item.encode_pos.trans_le d.item_length_le)
  have length : d.binary.length
      = d.item.encode.length + (if d.txType = legacyTxType then 0 else 1) := by
    unfold binary
    split <;> rfl
  have slots : numSlots (setDecoded {} d d.binary.length) = numSlots (newTx d)
      ↔ d.txType = legacyTxType ∨ ¬ txSlotSize ∣ (newTx d).size.1 := by
    rw [numSlots, numSlots, decoded, built, length]
    by_cases legacy : d.txType = legacyTxType
    · simp [legacy]
    · simp only [legacy, if_false, false_or, txSlotSize, Nat.reduceMul]
      omega
  let received := setDecoded {} d d.binary.length
  refine ⟨d.rlpItem.encode, d.binary, received, received,
    (encodeToBytes_ok_iff small).mpr ⟨writable, rfl⟩,
    decodeBytes_rlpItem {} small writable, (marshalBinary_ok_iff binarySmall).mpr ⟨writable, rfl⟩,
    unmarshalBinary_binary {} binarySmall writable, rfl, rfl, rfl, ?_, slots, slots⟩
  exact decoded.trans (built ▸ length)

/-- The sizes of the sample transaction. -/
theorem received_sizes_sample
    : ∃ b tx, sampleTx.marshalBinary = .ok b ∧ unmarshalBinary {} b = .ok tx
      ∧ tx.size.1 = sampleTx.size.1 + 1 := by
  obtain ⟨-, c, -, tx, -, -, encoded, decoded, -, -, -, size, -⟩ :=
    received_sizes (d := sampleTx.inner) (by decide) (by decide +kernel)
  exact ⟨c, tx, encoded, decoded, size⟩

/-- The sample transaction has 102 bytes where it was built and 103 where it was received. -/
theorem sampleTx_sizes
    : sampleTx.size.1 = 102
      ∧ (sampleTx.marshalBinary.toOption.bind fun b =>
          (unmarshalBinary {} b).toOption.map (·.size.1)) = some 103 := by
  decide +kernel

end GoBinacoin.Types
