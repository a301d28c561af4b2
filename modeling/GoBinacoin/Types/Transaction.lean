import GoBinacoin.Rlp.TypedWrite

/-! Transactions of the three types and their two encodings: the binary form, which is the
RLP list of a legacy transaction or a type byte in front of the list of a typed one, and the
RLP form, in which typed transactions are wrapped into a string.
-/

namespace GoBinacoin.Types

open Rlp BigEndian Program

/-- Transaction type IDs. -/
def legacyTxType : UInt8 := 0
def accessListTxType : UInt8 := 1
def dynamicFeeTxType : UInt8 := 2

structure AccessTuple where
  address : Address
  storageKeys : List Hash
  deriving DecidableEq

abbrev AccessList := List AccessTuple

structure LegacyTx where
  nonce : UInt64
  gasPrice : Int
  gas : UInt64
  toAddr : Option Address
  value : Int
  data : Bytes
  v : Int
  r : Int
  s : Int
  deriving DecidableEq

structure AccessListTx where
  chainID : Int
  nonce : UInt64
  gasPrice : Int
  gas : UInt64
  toAddr : Option Address
  value : Int
  data : Bytes
  accessList : AccessList
  v : Int
  r : Int
  s : Int
  deriving DecidableEq

structure DynamicFeeTx where
  chainID : Int
  nonce : UInt64
  gasTipCap : Int
  gasFeeCap : Int
  gas : UInt64
  toAddr : Option Address
  value : Int
  data : Bytes
  accessList : AccessList
  v : Int
  r : Int
  s : Int
  deriving DecidableEq

/-- The consensus contents of a transaction. `copy` initialises every integer, so that
there are no nil pointers among them.
-/
inductive TxData where
  | legacy (tx : LegacyTx)
  | accessList (tx : AccessListTx)
  | dynamicFee (tx : DynamicFeeTx)
  deriving DecidableEq

def TxData.txType : TxData → UInt8
  | .legacy _ => legacyTxType
  | .accessList _ => accessListTxType
  | .dynamicFee _ => dynamicFeeTxType

def addressTy : Ty := .byteArray "common.Address" 20

def hashTy : Ty := .byteArray "common.Hash" 32

def accessTupleTy : Ty :=
  .struct "types.AccessTuple"
    (.cons "Address" addressTy
    (.cons "StorageKeys" (.slice "[]common.Hash" hashTy)
    .nil))

def accessListTy : Ty := .slice "types.AccessList" accessTupleTy

def legacyTxTy : Ty :=
  .struct "types.LegacyTx"
    (.cons "Nonce" .uint64
    (.cons "GasPrice" .bigInt
    (.cons "Gas" .uint64
    (.cons "To" (.nilPtr addressTy)
    (.cons "Value" .bigInt
    (.cons "Data" .bytes
    (.cons "V" .bigInt
    (.cons "R" .bigInt
    (.cons "S" .bigInt
    .nil)))))))))

def accessListTxTy : Ty :=
  .struct "types.AccessListTx"
    (.cons "ChainID" .bigInt
    (.cons "Nonce" .uint64
    (.cons "GasPrice" .bigInt
    (.cons "Gas" .uint64
    (.cons "To" (.nilPtr addressTy)
    (.cons "Value" .bigInt
    (.cons "Data" .bytes
    (.cons "AccessList" accessListTy
    (.cons "V" .bigInt
    (.cons "R" .bigInt
    (.cons "S" .bigInt
    .nil)))))))))))

def dynamicFeeTxTy : Ty :=
  .struct "types.DynamicFeeTx"
    (.cons "ChainID" .bigInt
    (.cons "Nonce" .uint64
    (.cons "GasTipCap" .bigInt
    (.cons "GasFeeCap" .bigInt
    (.cons "Gas" .uint64
    (.cons "To" (.nilPtr addressTy)
    (.cons "Value" .bigInt
    (.cons "Data" .bytes
    (.cons "AccessList" accessListTy
    (.cons "V" .bigInt
    (.cons "R" .bigInt
    (.cons "S" .bigInt
    .nil))))))))))))

theorem addressBytes_length (a : Address) : (addressBytes a).length = 20 := length_toBE _ _

theorem bytesToAddress_addressBytes (a : Address) : bytesToAddress (addressBytes a) = a := by
  apply BitVec.eq_of_toNat_eq
  rw [bytesToAddress, addressBytes, ofBE_toBE, BitVec.toNat_ofNat]
  have bound := a.isLt
  omega

theorem toBE_ofNat_ofBE {width : Nat} {b : Bytes} (length : b.length = width)
    : toBE width (BitVec.ofNat (8 * width) (ofBE b)).toNat = b := by
  have small : ofBE b < 2 ^ (8 * width) := by
    rw [pow_mul, ← length]
    exact ofBE_lt b
  rw [BitVec.toNat_ofNat, Nat.mod_eq_of_lt small, ← length, toBE_ofBE]

/-- Fixed-size byte arrays of the field types. -/
abbrev FixedBytes (length : Nat) := { b : Bytes // b.length = length }

def addressVal : Address ≃ FixedBytes 20 where
  toFun a := ⟨addressBytes a, addressBytes_length a⟩
  invFun b := bytesToAddress b.1
  left_inv := bytesToAddress_addressBytes
  right_inv b := Subtype.ext (toBE_ofNat_ofBE b.2)

def hashVal : Hash ≃ FixedBytes 32 where
  toFun h := ⟨hashBytes h, hashBytes_length h⟩
  invFun b := bytesToHash b.1
  left_inv := bytesToHash_hashBytes
  right_inv b := Subtype.ext (toBE_ofNat_ofBE b.2)

/-- The fields of a struct in the order of its type. -/
def accessTupleVal : AccessTuple ≃ FixedBytes 20 × List (FixedBytes 32) × Unit where
  toFun t := (addressVal t.address, t.storageKeys.map hashVal, ())
  invFun v := ⟨addressVal.symm v.1, v.2.1.map hashVal.symm⟩
  left_inv t := by simp
  right_inv v := by simp

def accessListVal : AccessList ≃ List (FixedBytes 20 × List (FixedBytes 32) × Unit) where
  toFun l := l.map accessTupleVal
  invFun v := v.map accessTupleVal.symm
  left_inv l := by simp
  right_inv v := by simp

def toAddrVal : Option Address ≃ Option (FixedBytes 20) := Equiv.optionCongr addressVal

def legacyTxVal : LegacyTx ≃ legacyTxTy.Val where
  toFun tx :=
    (tx.nonce, tx.gasPrice, tx.gas, toAddrVal tx.toAddr, tx.value, tx.data, tx.v, tx.r, tx.s, ())
  invFun := fun (nonce, gasPrice, gas, toAddr, value, data, v, r, s, _) =>
    ⟨nonce, gasPrice, gas, toAddrVal.symm toAddr, value, data, v, r, s⟩
  left_inv tx := by simp
  right_inv := by
    rintro ⟨nonce, gasPrice, gas, (toAddr : Option (FixedBytes 20)), value, data, v, r, s, -⟩
    exact congrArg (fun found => (nonce, gasPrice, gas, found, value, data, v, r, s, ()))
      (toAddrVal.apply_symm_apply toAddr)

def accessListTxVal : AccessListTx ≃ accessListTxTy.Val where
  toFun tx :=
    (tx.chainID, tx.nonce, tx.gasPrice, tx.gas, toAddrVal tx.toAddr, tx.value, tx.data,
      accessListVal tx.accessList, tx.v, tx.r, tx.s, ())
  invFun := fun (chainID, nonce, gasPrice, gas, toAddr, value, data, list, v, r, s, _) =>
    ⟨chainID, nonce, gasPrice, gas, toAddrVal.symm toAddr, value, data,
      accessListVal.symm list, v, r, s⟩
  left_inv tx := by simp
  right_inv := by
    rintro ⟨chainID, nonce, gasPrice, gas, (toAddr : Option (FixedBytes 20)), value, data,
      (list : List (FixedBytes 20 × List (FixedBytes 32) × Unit)), v, r, s, -⟩
    exact congrArg₂
      (fun found tuples =>
        (chainID, nonce, gasPrice, gas, found, value, data, tuples, v, r, s, ()))
      (toAddrVal.apply_symm_apply toAddr) (accessListVal.apply_symm_apply list)

def dynamicFeeTxVal : DynamicFeeTx ≃ dynamicFeeTxTy.Val where
  toFun tx :=
    (tx.chainID, tx.nonce, tx.gasTipCap, tx.gasFeeCap, tx.gas, toAddrVal tx.toAddr, tx.value,
      tx.data, accessListVal tx.accessList, tx.v, tx.r, tx.s, ())
  invFun :=
    fun (chainID, nonce, gasTipCap, gasFeeCap, gas, toAddr, value, data, list, v, r, s, _) =>
    ⟨chainID, nonce, gasTipCap, gasFeeCap, gas, toAddrVal.symm toAddr, value, data,
      accessListVal.symm list, v, r, s⟩
  left_inv tx := by simp
  right_inv := by
    rintro ⟨chainID, nonce, gasTipCap, gasFeeCap, gas, (toAddr : Option (FixedBytes 20)), value,
      data, (list : List (FixedBytes 20 × List (FixedBytes 32) × Unit)), v, r, s, -⟩
    exact congrArg₂
      (fun found tuples =>
        (chainID, nonce, gasTipCap, gasFeeCap, gas, found, value, data, tuples, v, r, s, ()))
      (toAddrVal.apply_symm_apply toAddr) (accessListVal.apply_symm_apply list)

def TxData.ty : TxData → Ty
  | .legacy _ => legacyTxTy
  | .accessList _ => accessListTxTy
  | .dynamicFee _ => dynamicFeeTxTy

def TxData.val : (d : TxData) → d.ty.Val
  | .legacy tx => legacyTxVal tx
  | .accessList tx => accessListTxVal tx
  | .dynamicFee tx => dynamicFeeTxVal tx

/-- The signers, each with the chain id it was made for. -/
inductive Signer where
  | frontier
  | homestead
  | eip155 (chainId : Int)
  | eip2930 (chainId : Int)
  | london (chainId : Int)
  deriving DecidableEq, Repr

/-- What a transaction remembers once it was computed. -/
structure Caches where
  hash : Option Hash := none
  size : Option Nat := none
  sender : Option (Signer × Address) := none
  deriving DecidableEq

structure Transaction where
  inner : TxData
  caches : Caches := {}
  deriving DecidableEq

inductive TxErr where
  | rlp (e : Failure)
  | emptyTypedTx
  | txTypeNotSupported
  deriving DecidableEq

def Transaction.type (tx : Transaction) : UInt8 := tx.inner.txType

/-- `setDecoded` on a transaction with the given caches. -/
def setDecoded (old : Caches) (inner : TxData) (size : Nat) : Transaction :=
  { inner := inner, caches := if size > 0 then { old with size := some size } else old }

def newTx (inner : TxData) : Transaction := setDecoded {} inner 0

/-- `encodeTyped` appends the type and the list to a buffer. -/
def Transaction.encodeTyped (tx : Transaction) (buf : Bytes) : Except EncodeErr Bytes :=
  encodeOnto tx.inner.ty tx.inner.val (buf ++ [tx.type])

def Transaction.marshalBinary (tx : Transaction) : Except EncodeErr Bytes :=
  if tx.type = legacyTxType then encodeBytesOf tx.inner.ty tx.inner.val else tx.encodeTyped []

/-- `EncodeRLP`, as the encoder of the package calls it on its own buffer. -/
def Transaction.encodeRLP (tx : Transaction) (w : EncBuf) : Except EncodeErr EncBuf :=
  if tx.type = legacyTxType then
    makeWriter tx.inner.ty tx.inner.val w
  else do
    let buf ← tx.encodeTyped []
    return w.encodeString buf

/-- `rlp.EncodeToBytes` of a transaction. -/
def Transaction.encodeToBytes (tx : Transaction) : Except EncodeErr Bytes :=
  encodeBytesWith tx.encodeRLP

def rlpError {α : Type} : Except Failure α → Except TxErr α
  | .ok v => .ok v
  | .error e => .error (.rlp e)

def decodeTyped (b : Bytes) : Except TxErr TxData :=
  match b with
  | [] => .error .emptyTypedTx
  | txType :: payload =>
      if txType = accessListTxType then do
        let inner ← rlpError (decodeBytesInto accessListTxTy payload)
        return .accessList (accessListTxVal.symm inner)
      else if txType = dynamicFeeTxType then do
        let inner ← rlpError (decodeBytesInto dynamicFeeTxTy payload)
        return .dynamicFee (dynamicFeeTxVal.symm inner)
      else
        .error .txTypeNotSupported

/-- `UnmarshalBinary` into a transaction with the given caches. -/
def unmarshalBinary (old : Caches) (b : Bytes) : Except TxErr Transaction :=
  if b.head?.any (fun byte => byte > 0x7f) then do
    let data ← rlpError (decodeBytesInto legacyTxTy b)
    return setDecoded old (.legacy (legacyTxVal.symm data)) b.length
  else do
    let inner ← decodeTyped b
    return setDecoded old inner b.length

def listSize (contentSize : Nat) : Nat := uint64 (headsize contentSize + contentSize)

/-- `DecodeRLP` into a transaction with the given caches. -/
def decodeRLP (old : Caches) : Prog Stream TxErr Transaction := fun s =>
  match s.kind with
  | (.error e, s) => (.error (.rlp (.stream e)), s)
  | (.ok (.list, size), s) =>
      match Stream.decode legacyTxTy s with
      | (.error e, s) => (.error (.rlp e), s)
      | (.ok inner, s) =>
          (.ok (setDecoded old (.legacy (legacyTxVal.symm inner)) (listSize size)), s)
  | (.ok (.string, _), s) =>
      match s.bytes with
      | (.error e, s) => (.error (.rlp (.stream e)), s)
      | (.ok b, s) =>
          match decodeTyped b with
          | .error e => (.error e, s)
          | .ok inner => (.ok (setDecoded old inner b.length), s)
  | (.ok (.byte, _), s) => (.error (.rlp (.stream .expectedList)), s)

/-- `Stream.Decode` adds the target to the context of errors. -/
def decodeContext : TxErr → TxErr
  | .rlp (.decode err) =>
      .rlp (.decode (if err.ctx = [] then err
        else { err with ctx := err.ctx ++ ["(types.Transaction)"] }))
  | e => e

/-- `Stream.Decode` into a transaction. -/
def decodeTransaction (old : Caches) : Prog Stream TxErr Transaction := fun s =>
  match decodeRLP old s with
  | (.error e, s) => (.error (decodeContext e), s)
  | (.ok tx, s) => (.ok tx, s)

/-- `rlp.DecodeBytes` into a transaction. -/
def decodeBytes (old : Caches) (b : Bytes) : Except TxErr Transaction :=
  decodeBytesWith (.rlp (.stream .moreThanOneValue)) (decodeTransaction old) b

/-- `rlpHash`; what cannot be encoded adds nothing to the hashed data. -/
def rlpHash (keccak : Bytes → Hash) (t : Ty) (v : t.Val) : Hash :=
  keccak ((encodeOnto t v []).toOption.getD [])

def prefixedRlpHash (keccak : Bytes → Hash) (first : UInt8) (t : Ty) (v : t.Val) : Hash :=
  keccak ((encodeOnto t v [first]).toOption.getD [first])

/-- The hash of transaction data. -/
def TxData.hash (keccak : Bytes → Hash) (d : TxData) : Hash :=
  if d.txType = legacyTxType then rlpHash keccak d.ty d.val
  else prefixedRlpHash keccak d.txType d.ty d.val

/-- `Hash` returns the remembered hash, or computes and remembers it. -/
def Transaction.hash (keccak : Bytes → Hash) (tx : Transaction) : Hash × Transaction :=
  match tx.caches.hash with
  | some h => (h, tx)
  | none =>
      let h := tx.inner.hash keccak
      (h, { tx with caches := { tx.caches with hash := some h } })

/-- `Size` returns the remembered size, or counts the bytes of the encoded data. -/
def Transaction.size (tx : Transaction) : Nat × Transaction :=
  match tx.caches.size with
  | some size => (size, tx)
  | none =>
      let c := ((encodeOnto tx.inner.ty tx.inner.val []).toOption.getD []).length
      (c, { tx with caches := { tx.caches with size := some c } })

/-- The data size of a slot of the pool. -/
def txSlotSize : Nat := 32 * 1024

def numSlots (tx : Transaction) : Nat := (tx.size.1 + txSlotSize - 1) / txSlotSize

end GoBinacoin.Types
