import GoBinacoin.Types.Transaction

/-! Signers: which hash is signed for a transaction, how the signature is packed into its
V, R and S values, and how the sender is recovered from them.
-/

namespace GoBinacoin.Types

open Rlp BigEndian

/-- `deriveChainId`, with a path for 64 bits in `uint64` arithmetic. -/
def deriveChainId (v : Int) : Int :=
  if bitLen v.natAbs ≤ 64 then
    let u := v.natAbs
    if u = 27 ∨ u = 28 then 0 else (subU64 u 35 / 2 : Nat)
  else
    (v - 35) / 2

namespace TxData

def chainID : TxData → Int
  | .legacy tx => deriveChainId tx.v
  | .accessList tx => tx.chainID
  | .dynamicFee tx => tx.chainID

def accessTuples : TxData → AccessList
  | .legacy _ => []
  | .accessList tx => tx.accessList
  | .dynamicFee tx => tx.accessList

def data : TxData → Bytes
  | .legacy tx => tx.data
  | .accessList tx => tx.data
  | .dynamicFee tx => tx.data

def gas : TxData → UInt64
  | .legacy tx => tx.gas
  | .accessList tx => tx.gas
  | .dynamicFee tx => tx.gas

def gasPrice : TxData → Int
  | .legacy tx => tx.gasPrice
  | .accessList tx => tx.gasPrice
  | .dynamicFee tx => tx.gasFeeCap

def gasTipCap : TxData → Int
  | .legacy tx => tx.gasPrice
  | .accessList tx => tx.gasPrice
  | .dynamicFee tx => tx.gasTipCap

def gasFeeCap : TxData → Int
  | .legacy tx => tx.gasPrice
  | .accessList tx => tx.gasPrice
  | .dynamicFee tx => tx.gasFeeCap

def value : TxData → Int
  | .legacy tx => tx.value
  | .accessList tx => tx.value
  | .dynamicFee tx => tx.value

def nonce : TxData → UInt64
  | .legacy tx => tx.nonce
  | .accessList tx => tx.nonce
  | .dynamicFee tx => tx.nonce

def toAddr : TxData → Option Address
  | .legacy tx => tx.toAddr
  | .accessList tx => tx.toAddr
  | .dynamicFee tx => tx.toAddr

/-- `rawSignatureValues`: V, R and S. -/
def rawSignatureValues : TxData → Int × Int × Int
  | .legacy tx => (tx.v, tx.r, tx.s)
  | .accessList tx => (tx.v, tx.r, tx.s)
  | .dynamicFee tx => (tx.v, tx.r, tx.s)

/-- `setSignatureValues`. Legacy transactions have no field for the chain id. -/
def setSignatureValues (chainID v r s : Int) : TxData → TxData
  | .legacy tx => .legacy { tx with v := v, r := r, s := s }
  | .accessList tx => .accessList { tx with chainID := chainID, v := v, r := r, s := s }
  | .dynamicFee tx => .dynamicFee { tx with chainID := chainID, v := v, r := r, s := s }

end TxData

def isProtectedV (v : Int) : Bool :=
  if bitLen v.natAbs ≤ 8 then
    let u := v.natAbs
    u ≠ 27 && u ≠ 28 && u ≠ 1 && u ≠ 0
  else
    true

/-- `Protected`. -/
def Transaction.isProtected (tx : Transaction) : Bool :=
  match tx.inner with
  | .legacy tx => isProtectedV tx.v
  | _ => true

/-- The functions of the package `crypto` that signers use. -/
structure Crypto where
  Key : Type
  keccak : Bytes → Hash
  /-- `Sign`, which returns R, S and the recovery id. -/
  sign : Hash → Key → Option Bytes
  /-- `Ecrecover` returns the uncompressed public key. -/
  ecrecover : Hash → Bytes → Option Bytes
  /-- `FromECDSAPub` of the public key. -/
  publicKey : Key → Bytes

def secp256k1N : Nat := 0xfffffffffffffffffffffffffffffffebaaedce6af48a03bbfd25e8cd0364141

def secp256k1halfN : Nat := secp256k1N / 2

def validateSignatureValues (v : UInt8) (r s : Int) (homestead : Bool) : Bool :=
  if r < 1 || s < 1 then false
  else if homestead && s > secp256k1halfN then false
  else r < secp256k1N && s < secp256k1N && (v = 0 || v = 1)

/-- The address of a public key. -/
def addressOf (C : Crypto) (pub : Bytes) : Address :=
  bytesToAddress ((hashBytes (C.keccak (pub.drop 1))).drop 12)

/-- `PubkeyToAddress` of a private key's public key. -/
def Crypto.address (C : Crypto) (key : C.Key) : Address := addressOf C (C.publicKey key)

inductive SignErr where
  | invalidSig
  | invalidChainId
  | txTypeNotSupported
  | invalidPublicKey
  | crypto
  deriving DecidableEq, Repr

/-- A number in the last bytes of a buffer of 32 bytes. -/
def leftPad32 (b : Bytes) : Bytes := List.replicate (32 - b.length) 0 ++ b

def recoverPlain (C : Crypto) (sighash : Hash) (r s vb : Int) (homestead : Bool)
    : Except SignErr Address :=
  if bitLen vb.natAbs > 8 then
    .error .invalidSig
  else
    let v : UInt8 := UInt8.ofNat (subU64 vb.natAbs 27)
    if !validateSignatureValues v r s homestead then
      .error .invalidSig
    else
      let sig := leftPad32 (minimalBE r.natAbs) ++ leftPad32 (minimalBE s.natAbs) ++ [v]
      match C.ecrecover sighash sig with
      | none => .error .crypto
      | some pub => if pub.head? = some 4 then .ok (addressOf C pub) else .error .invalidPublicKey

/-- R, S and the recovery id of a signature; V is the recovery id and 27. -/
structure Signature where
  r : Int
  s : Int
  recid : UInt8
  deriving DecidableEq, Repr

/-- `decodeSignature`, which stops the program on signatures of another length. -/
def decodeSignature (sig : Bytes) : Signature :=
  {
    r := (ofBE (sig.take 32) : Nat)
    s := (ofBE ((sig.drop 32).take 32) : Nat)
    recid := sig[64]?.getD 0
  }

/-- The V value `decodeSignature` returns. -/
def Signature.plainV (sig : Signature) : Int := ((sig.recid + 27).toNat : Nat)

/-- The fields that every payload has from the nonce to the data. A slice of interfaces is
written as a struct with these fields is.
-/
def callFields (fees : Fields → Fields) (rest : Fields) : Fields :=
  .cons "" .uint64 (fees
    (.cons "" .uint64 (.cons "" (.nilPtr addressTy) (.cons "" .bigInt (.cons "" .bytes rest)))))

def frontierPayload : Ty :=
  .struct "[]interface {}" (callFields (.cons "" .bigInt) .nil)

def eip155Payload : Ty :=
  .struct "[]interface {}" (callFields (.cons "" .bigInt)
    (.cons "" .bigInt (.cons "" .uint64 (.cons "" .uint64 .nil))))

def accessListPayload : Ty :=
  .struct "[]interface {}" (.cons "" .bigInt (callFields (.cons "" .bigInt)
    (.cons "" accessListTy .nil)))

def dynamicFeePayload : Ty :=
  .struct "[]interface {}" (.cons "" .bigInt
    (callFields (fun rest => .cons "" .bigInt (.cons "" .bigInt rest))
      (.cons "" accessListTy .nil)))

section Hashes

variable (C : Crypto)

def frontierHash (d : TxData) : Hash :=
  rlpHash C.keccak frontierPayload
    (d.nonce, d.gasPrice, d.gas, toAddrVal d.toAddr, d.value, d.data, ())

def eip155Hash (chainId : Int) (d : TxData) : Hash :=
  rlpHash C.keccak eip155Payload
    (d.nonce, d.gasPrice, d.gas, toAddrVal d.toAddr, d.value, d.data, chainId, (0 : UInt64),
      (0 : UInt64), ())

def eip2930Hash (chainId : Int) (d : TxData) : Hash :=
  if d.txType = legacyTxType then
    rlpHash C.keccak eip155Payload
      (d.nonce, d.gasPrice, d.gas, toAddrVal d.toAddr, d.value, d.data, chainId, (0 : UInt64),
        (0 : UInt64), ())
  else if d.txType = accessListTxType then
    prefixedRlpHash C.keccak d.txType accessListPayload
      (chainId, d.nonce, d.gasPrice, d.gas, toAddrVal d.toAddr, d.value, d.data,
        accessListVal d.accessTuples, ())
  else
    0

def londonHash (chainId : Int) (d : TxData) : Hash :=
  if d.txType ≠ dynamicFeeTxType then
    eip2930Hash C chainId d
  else
    prefixedRlpHash C.keccak d.txType dynamicFeePayload
      (chainId, d.nonce, d.gasTipCap, d.gasFeeCap, d.gas, toAddrVal d.toAddr, d.value, d.data,
        accessListVal d.accessTuples, ())

def Signer.hash : Signer → TxData → Hash
  | .frontier, d => frontierHash C d
  | .homestead, d => frontierHash C d
  | .eip155 chainId, d => eip155Hash C chainId d
  | .eip2930 chainId, d => eip2930Hash C chainId d
  | .london chainId, d => londonHash C chainId d

end Hashes

/-- `ChainID`; the first two signers have none. -/
def Signer.chainID : Signer → Option Int
  | .frontier => none
  | .homestead => none
  | .eip155 chainId => some chainId
  | .eip2930 chainId => some chainId
  | .london chainId => some chainId

/-- The R, S and V values of a signature. -/
abbrev Values := Int × Int × Int

def frontierSignatureValues (d : TxData) (sig : Signature) : Except SignErr Values :=
  if d.txType ≠ legacyTxType then .error .txTypeNotSupported else .ok (sig.r, sig.s, sig.plainV)

def eip155SignatureValues (chainId : Int) (d : TxData) (sig : Signature)
    : Except SignErr Values :=
  if d.txType ≠ legacyTxType then
    .error .txTypeNotSupported
  else if chainId ≠ 0 then
    .ok (sig.r, sig.s, ((sig.recid + 35).toNat : Nat) + 2 * chainId)
  else
    .ok (sig.r, sig.s, sig.plainV)

/-- Typed transactions keep the recovery id. A chain id of zero was not specified. -/
def typedSignatureValues (chainId own : Int) (sig : Signature) : Except SignErr Values :=
  if own ≠ 0 ∧ own ≠ chainId then .error .invalidChainId
  else .ok (sig.r, sig.s, (sig.recid.toNat : Nat))

def eip2930SignatureValues (chainId : Int) (d : TxData) (sig : Signature)
    : Except SignErr Values :=
  match d with
  | .legacy _ => eip155SignatureValues chainId d sig
  | .accessList tx => typedSignatureValues chainId tx.chainID sig
  | .dynamicFee _ => .error .txTypeNotSupported

def londonSignatureValues (chainId : Int) (d : TxData) (sig : Signature)
    : Except SignErr Values :=
  match d with
  | .dynamicFee tx => typedSignatureValues chainId tx.chainID sig
  | d => eip2930SignatureValues chainId d sig

def Signer.signatureValues : Signer → TxData → Signature → Except SignErr Values
  | .frontier, d, sig => frontierSignatureValues d sig
  | .homestead, d, sig => frontierSignatureValues d sig
  | .eip155 chainId, d, sig => eip155SignatureValues chainId d sig
  | .eip2930 chainId, d, sig => eip2930SignatureValues chainId d sig
  | .london chainId, d, sig => londonSignatureValues chainId d sig

/-- `WithSignature`. The signers without a chain id only take legacy transactions. -/
def Transaction.withSignature (tx : Transaction) (signer : Signer) (sig : Bytes)
    : Except SignErr Transaction := do
  let (r, s, v) ← signer.signatureValues tx.inner (decodeSignature sig)
  return { inner := tx.inner.setSignatureValues (signer.chainID.getD 0) v r s }

def signTx (C : Crypto) (tx : Transaction) (signer : Signer) (key : C.Key)
    : Except SignErr Transaction :=
  match C.sign (signer.hash C tx.inner) key with
  | none => .error .crypto
  | some sig => tx.withSignature signer sig

section Senders

variable (C : Crypto)

def frontierSender (tx : Transaction) (homestead : Bool) : Except SignErr Address :=
  if tx.type ≠ legacyTxType then
    .error .txTypeNotSupported
  else
    let (v, r, s) := tx.inner.rawSignatureValues
    recoverPlain C (frontierHash C tx.inner) r s v homestead

def homesteadSender (tx : Transaction) : Except SignErr Address := frontierSender C tx true

def eip155Sender (chainId : Int) (tx : Transaction) : Except SignErr Address :=
  if tx.type ≠ legacyTxType then
    .error .txTypeNotSupported
  else if !tx.isProtected then
    homesteadSender C tx
  else if tx.inner.chainID ≠ chainId then
    .error .invalidChainId
  else
    let (v, r, s) := tx.inner.rawSignatureValues
    recoverPlain C (eip155Hash C chainId tx.inner) r s (v - 2 * chainId - 8) true

def eip2930Sender (chainId : Int) (tx : Transaction) : Except SignErr Address :=
  let (v, r, s) := tx.inner.rawSignatureValues
  if tx.type = legacyTxType then
    if !tx.isProtected then
      homesteadSender C tx
    else if tx.inner.chainID ≠ chainId then
      .error .invalidChainId
    else
      recoverPlain C (eip2930Hash C chainId tx.inner) r s (v - 2 * chainId - 8) true
  else if tx.type = accessListTxType then
    if tx.inner.chainID ≠ chainId then
      .error .invalidChainId
    else
      recoverPlain C (eip2930Hash C chainId tx.inner) r s (v + 27) true
  else
    .error .txTypeNotSupported

def londonSender (chainId : Int) (tx : Transaction) : Except SignErr Address :=
  if tx.type ≠ dynamicFeeTxType then
    eip2930Sender C chainId tx
  else
    let (v, r, s) := tx.inner.rawSignatureValues
    if tx.inner.chainID ≠ chainId then
      .error .invalidChainId
    else
      recoverPlain C (londonHash C chainId tx.inner) r s (v + 27) true

/-- The method `Sender` of a signer. -/
def Signer.sender : Signer → Transaction → Except SignErr Address
  | .frontier, tx => frontierSender C tx false
  | .homestead, tx => homesteadSender C tx
  | .eip155 chainId, tx => eip155Sender C chainId tx
  | .eip2930 chainId, tx => eip2930Sender C chainId tx
  | .london chainId, tx => londonSender C chainId tx

/-- The address is remembered together with the signer it was derived with. -/
def deriveSender (signer : Signer) (tx : Transaction) : Except SignErr Address × Transaction :=
  match signer.sender C tx with
  | .error e => (.error e, tx)
  | .ok addr => (.ok addr, { tx with caches := { tx.caches with sender := some (signer, addr) } })

/-- The function `Sender`. -/
def sender (signer : Signer) (tx : Transaction) : Except SignErr Address × Transaction :=
  match tx.caches.sender with
  | some (remembered, addr) =>
      if remembered = signer then (.ok addr, tx) else deriveSender C signer tx
  | none => deriveSender C signer tx

end Senders

end GoBinacoin.Types
