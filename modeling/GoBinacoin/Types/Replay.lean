import GoBinacoin.Types.Signing

/-! Replay protection: a transaction signed for one chain has its sender under the signers
of that chain, and none under the signers of any other.
-/

namespace GoBinacoin.Types

open Rlp BigEndian Program TxData Transaction

/-- The ranges of a valid signature. -/
structure InRange (r s : Nat) (recid : UInt8) : Prop where
  rPositive : 1 ≤ r
  rSmall : r < secp256k1N
  sPositive : 1 ≤ s
  sLow : s ≤ secp256k1halfN
  isBit : recid = 0 ∨ recid = 1

/-- What is assumed of the curve: a signature has its R and S in range, with S in the lower
half, a recovery id of zero or one, and recovering from the signed hash gives the public key
of the signing key.
-/
structure Crypto.Recovers (C : Crypto) : Prop where
  recovers : ∀ {h : Hash} {key : C.Key} {sig : Bytes}, C.sign h key = some sig →
    ∃ (r s : Nat) (recid : UInt8), InRange r s recid ∧ sig = toBE 32 r ++ toBE 32 s ++ [recid]
      ∧ C.ecrecover h sig = some (C.publicKey key)
  uncompressed : ∀ key, (C.publicKey key).head? = some 4

theorem ofBE_zeros (k : Nat) (b : Bytes) : ofBE (List.replicate k 0 ++ b) = ofBE b := by
  induction k with
  | zero => rfl
  | succ k ih =>
    rw [List.replicate_succ, List.cons_append, ofBE_cons, ih]
    simp

theorem leftPad32_minimalBE {n : Nat} (small : n < 2 ^ 256)
    : leftPad32 (minimalBE n) = toBE 32 n := by
  have short : (minimalBE n).length ≤ 32 := minimalBE_length (by simpa using small) (by decide)
  have width : (leftPad32 (minimalBE n)).length = 32 := by
    simp only [leftPad32, List.length_append, List.length_replicate]
    omega
  have value : ofBE (leftPad32 (minimalBE n)) = n := by
    rw [leftPad32, ofBE_zeros, ofBE_minimalBE]
  rw [← toBE_ofBE (leftPad32 (minimalBE n)), width, value]

theorem secp256k1N_lt : secp256k1N < 2 ^ 256 := by decide

section Recovery

variable {C : Crypto} {r s : Nat} {recid : UInt8}

/-- The parts of a signature are read back. -/
theorem decodeSignature_toBE (rSmall : r < 2 ^ 256) (sSmall : s < 2 ^ 256)
    : decodeSignature (toBE 32 r ++ toBE 32 s ++ [recid]) = ⟨r, s, recid⟩ := by
  have value {n : Nat} (small : n < 2 ^ 256) : ofBE (toBE 32 n) = n := by
    rw [ofBE_toBE]
    exact Nat.mod_eq_of_lt (by simpa using small)
  have rWidth := length_toBE 32 r
  have sWidth := length_toBE 32 s
  generalize rBytes : toBE 32 r = rs at *
  generalize sBytes : toBE 32 s = ss at *
  have first : (rs ++ ss ++ [recid]).take 32 = rs := by
    rw [List.append_assoc, List.take_left' rWidth]
  have second : ((rs ++ ss ++ [recid]).drop 32).take 32 = ss := by
    rw [List.append_assoc, List.drop_left' rWidth, List.take_left' sWidth]
  have last : (rs ++ ss ++ [recid])[64]? = some recid := by
    have width : (rs ++ ss).length = 64 := by simp [rWidth, sWidth]
    rw [← width]
    exact List.getElem?_concat_length
  simp only [decodeSignature, first, second, last, Option.getD_some]
  rw [← rBytes, ← sBytes, value rSmall, value sSmall]

variable (range : InRange r s recid)
include range

theorem InRange.sSmall : s < secp256k1N := range.sLow.trans_lt (by decide)

/-- Values in range are valid. -/
theorem InRange.valid : validateSignatureValues recid r s true = true := by
  have rLow : ¬ (r : Int) < 1 := by
    have := range.rPositive
    omega
  have sLow : ¬ (s : Int) < 1 := by
    have := range.sPositive
    omega
  have sHigh : ¬ (s : Int) > secp256k1halfN := by
    rw [gt_iff_lt, Nat.cast_lt, Nat.not_lt]
    exact range.sLow
  have rBound : (r : Int) < secp256k1N := Nat.cast_lt.mpr range.rSmall
  have sBound : (s : Int) < secp256k1N := Nat.cast_lt.mpr range.sSmall
  simp [validateSignatureValues, rLow, sLow, sHigh, rBound, sBound, range.isBit]

/-- Values in range are put together to the signature they came from. -/
theorem InRange.recoverPlain_eq {h : Hash} {pub : Bytes}
    (recovered : C.ecrecover h (toBE 32 r ++ toBE 32 s ++ [recid]) = some pub)
    (uncompressed : pub.head? = some 4)
    : recoverPlain C h r s (27 + (recid.toNat : Nat)) true = .ok (addressOf C pub) := by
  have low : recid.toNat ≤ 1 := by
    rcases range.isBit with rfl | rfl <;> decide
  have tag : (27 + (recid.toNat : Int)).natAbs = 27 + recid.toNat := by omega
  have short : ¬ bitLen (27 + recid.toNat) > 8 := by
    rw [Nat.not_lt, bitLen_le_iff]
    omega
  have plain : UInt8.ofNat (subU64 (27 + recid.toNat) 27) = recid := by
    rw [subU64_of_le (by omega) (by omega), Nat.add_sub_cancel_left, UInt8.ofNat_toNat]
  have rBytes := leftPad32_minimalBE (range.rSmall.trans secp256k1N_lt)
  have sBytes := leftPad32_minimalBE (range.sSmall.trans secp256k1N_lt)
  unfold recoverPlain
  rw [tag, if_neg short]
  simp only [plain, range.valid, Bool.not_true, Bool.false_eq_true, if_false, Int.natAbs_natCast,
    rBytes, sBytes, recovered, uncompressed, if_true]

end Recovery

section VValues

variable {c : Int} {bit : Nat}

/-- The chain is derived from the value it was put into. -/
theorem deriveChainId_eq (positive : 0 < c) (isBit : bit ≤ 1)
    : deriveChainId (35 + bit + 2 * c) = c := by
  have value : ((35 + bit + 2 * c : Int).natAbs : Int) = 35 + bit + 2 * c := by omega
  unfold deriveChainId
  split
  · rename_i fits
    rw [bitLen_le_iff] at fits
    have notPlain : ¬ ((35 + bit + 2 * c : Int).natAbs = 27
        ∨ (35 + bit + 2 * c : Int).natAbs = 28) := by omega
    simp only [notPlain, if_false]
    rw [subU64_of_le (by omega) fits]
    omega
  · omega

theorem isProtectedV_eq (positive : 0 < c) (isBit : bit ≤ 1)
    : isProtectedV (35 + bit + 2 * c) = true := by
  unfold isProtectedV
  split
  · simp only [Bool.and_eq_true, decide_eq_true_eq]
    omega
  · rfl

/-- A protected value is refused where none is expected. -/
theorem recoverPlain_protected (C : Crypto) (h : Hash) (r s : Int) (homestead : Bool)
    (positive : 0 < c) (isBit : bit ≤ 1)
    : recoverPlain C h r s (35 + bit + 2 * c) homestead = .error .invalidSig := by
  unfold recoverPlain
  split
  · rfl
  · rename_i fits
    rw [Nat.not_lt, bitLen_le_iff] at fits
    have wrong : validateSignatureValues
        (UInt8.ofNat (subU64 (35 + bit + 2 * c : Int).natAbs 27)) r s homestead = false := by
      have high : 2 ≤ (UInt8.ofNat (subU64 (35 + bit + 2 * c : Int).natAbs 27)).toNat := by
        rw [subU64_of_le (by omega) (by omega), UInt8.toNat_ofNat']
        omega
      have notBit : ∀ v : UInt8, 2 ≤ v.toNat → (v = 0 || v = 1) = false := by
        intro v large
        have notZero : v ≠ 0 := by
          rintro rfl
          exact absurd large (by decide)
        have notOne : v ≠ 1 := by
          rintro rfl
          exact absurd large (by decide)
        simp [notZero, notOne]
      simp only [validateSignatureValues, notBit _ high, Bool.and_false]
      split <;> simp
    simp [wrong]

end VValues

/-- The order in which the signers came into use. -/
def Signer.rank : Signer → Nat
  | .frontier => 0
  | .homestead => 1
  | .eip155 _ => 2
  | .eip2930 _ => 3
  | .london _ => 4

/-- The types of transactions a signer knows. -/
def Signer.supports : Signer → TxData → Bool
  | _, .legacy _ => true
  | .eip2930 _, .accessList _ => true
  | .london _, .accessList _ => true
  | .london _, .dynamicFee _ => true
  | _, _ => false

/-- The chain id of a typed transaction is the given one, or was not specified. -/
def TxData.mayBelongTo (chainId : Int) : TxData → Prop
  | .legacy _ => True
  | .accessList tx => tx.chainID = 0 ∨ tx.chainID = chainId
  | .dynamicFee tx => tx.chainID = 0 ∨ tx.chainID = chainId

/-- The V value that a signer of a chain gives to a recovery id. -/
def TxData.chainV (chainId : Int) (recid : UInt8) : TxData → Int
  | .legacy _ => 35 + (recid.toNat : Nat) + 2 * chainId
  | _ => (recid.toNat : Nat)

/-- The data that a signer of chain `c` makes. -/
def TxData.signedFor (d : TxData) (c : Int) (recid : UInt8) (r s : Int) : TxData :=
  d.setSignatureValues c (d.chainV c recid) r s

/-- The hash that the signers of a chain sign, for the types they know. -/
def TxData.chainHash (C : Crypto) (chainId : Int) (d : TxData) : Hash := londonHash C chainId d

section OneChain

variable {C : Crypto} {c : Int} {signer : Signer} {d : TxData}

/-- The types that a signer of the chain knows. -/
inductive Known (c : Int) : Signer → TxData → Prop where
  | eip155 (tx : LegacyTx) : Known c (.eip155 c) (.legacy tx)
  | eip2930 (tx : LegacyTx) : Known c (.eip2930 c) (.legacy tx)
  | accessList (tx : AccessListTx) : Known c (.eip2930 c) (.accessList tx)
  | london (d : TxData) : Known c (.london c) d

/-- What a signer does with a transaction it supports. -/
theorem Signer.known (made : signer.chainID = some c) (knows : signer.supports d = true)
    : Known c signer d := by
  cases signer with
  | frontier => cases made
  | homestead => cases made
  | eip155 chainId =>
    obtain rfl := Option.some.inj made
    cases d with
    | legacy tx => exact .eip155 tx
    | accessList tx => cases knows
    | dynamicFee tx => cases knows
  | eip2930 chainId =>
    obtain rfl := Option.some.inj made
    cases d with
    | legacy tx => exact .eip2930 tx
    | accessList tx => exact .accessList tx
    | dynamicFee tx => cases knows
  | london chainId =>
    obtain rfl := Option.some.inj made
    exact .london d

/-- The types that it does not know. -/
inductive Unknown : Signer → TxData → Prop where
  | accessList (c : Int) (tx : AccessListTx) : Unknown (.eip155 c) (.accessList tx)
  | eip155 (c : Int) (tx : DynamicFeeTx) : Unknown (.eip155 c) (.dynamicFee tx)
  | eip2930 (c : Int) (tx : DynamicFeeTx) : Unknown (.eip2930 c) (.dynamicFee tx)

/-- It refuses every other one. -/
theorem Signer.unknown (made : signer.chainID = some c) (unknown : signer.supports d = false)
    : Unknown signer d := by
  cases signer with
  | frontier => cases made
  | homestead => cases made
  | eip155 chainId =>
    cases d with
    | legacy tx => cases unknown
    | accessList tx => exact .accessList chainId tx
    | dynamicFee tx => exact .eip155 chainId tx
  | eip2930 chainId =>
    cases d with
    | legacy tx => cases unknown
    | accessList tx => cases unknown
    | dynamicFee tx => exact .eip2930 chainId tx
  | london chainId => cases d <;> cases unknown

theorem Signer.hash_eq (made : signer.chainID = some c) (knows : signer.supports d = true)
    : signer.hash C d = d.chainHash C c := by
  cases known made knows <;> rfl

theorem TxData.chainHash_setSignatureValues (chainID v r s : Int)
    : (d.setSignatureValues chainID v r s).chainHash C c = d.chainHash C c := by
  cases d <;> rfl

variable {sig : Signature} {values : Values}

/-- A typed transaction is signed for its own chain only. -/
theorem typedSignatureValues_ok_iff {own : Int}
    : typedSignatureValues c own sig = .ok values
      ↔ (own = 0 ∨ own = c) ∧ values = (sig.r, sig.s, ((sig.recid.toNat : Nat) : Int)) := by
  unfold typedSignatureValues
  split
  · rename_i foreign
    simp only [reduceCtorEq, false_iff]
    rintro ⟨accepted, -⟩
    rcases accepted with zero | same
    · exact foreign.1 zero
    · exact foreign.2 same
  · rename_i accepted
    have belongs : own = 0 ∨ own = c := by
      by_contra foreign
      exact accepted (not_or.mp foreign)
    rw [Except.ok.injEq, eq_comm]
    simp [belongs]

/-- The chain goes into the recovery value. -/
theorem eip155SignatureValues_ok_iff (tx : LegacyTx)
    (positive : 0 < c) (isBit : sig.recid = 0 ∨ sig.recid = 1)
    : eip155SignatureValues c (.legacy tx) sig = .ok values
      ↔ values = (sig.r, sig.s, 35 + (sig.recid.toNat : Nat) + 2 * c) := by
  have nonzero : c ≠ 0 := by omega
  have packed : (sig.recid + 35).toNat = 35 + sig.recid.toNat := by
    rcases isBit with bit | bit <;> rw [bit] <;> decide
  simp only [eip155SignatureValues, txType, ne_eq, not_true_eq_false, if_false, nonzero,
    not_false_eq_true, if_true, packed, Except.ok.injEq, eq_comm]
  push_cast
  rfl

theorem Signer.signatureValues_of_not_supports (made : signer.chainID = some c)
    (unknown : signer.supports d = false)
    : signer.signatureValues d sig = .error .txTypeNotSupported := by
  cases Signer.unknown made unknown <;> rfl

theorem Signer.signatureValues_of_supports (made : signer.chainID = some c)
    (knows : signer.supports d = true)
    : signer.signatureValues d sig = londonSignatureValues c d sig := by
  cases known made knows <;> rfl

/-- Every transaction that may belong to the chain is signed for it. -/
theorem londonSignatureValues_ok_iff (positive : 0 < c) (isBit : sig.recid = 0 ∨ sig.recid = 1)
    : londonSignatureValues c d sig = .ok values
      ↔ d.mayBelongTo c ∧ values = (sig.r, sig.s, d.chainV c sig.recid) := by
  cases d with
  | legacy tx =>
    exact (eip155SignatureValues_ok_iff tx positive isBit).trans (iff_of_eq (true_and _).symm)
  | accessList tx => exact typedSignatureValues_ok_iff
  | dynamicFee tx => exact typedSignatureValues_ok_iff

theorem Signer.signatureValues_ok_iff (positive : 0 < c)
    (made : signer.chainID = some c) (isBit : sig.recid = 0 ∨ sig.recid = 1)
    : signer.signatureValues d sig = .ok values
      ↔ signer.supports d = true ∧ d.mayBelongTo c
        ∧ values = (sig.r, sig.s, d.chainV c sig.recid) := by
  rcases knows : signer.supports d with _ | _
  · simp [signatureValues_of_not_supports made knows]
  · rw [signatureValues_of_supports made knows, londonSignatureValues_ok_iff positive isBit]
    simp

/-- Signing succeeds for the types the signer knows, on its own chain, and gives data with
the values of the signature.
-/
theorem signTx_ok_iff (ecdsa : C.Recovers) (positive : 0 < c) (made : signer.chainID = some c)
    {tx signed : Transaction} {key : C.Key}
    : signTx C tx signer key = .ok signed
      ↔ signer.supports tx.inner = true ∧ tx.inner.mayBelongTo c
        ∧ ∃ sig, C.sign (signer.hash C tx.inner) key = some sig
          ∧ signed = {
              inner := tx.inner.signedFor c (decodeSignature sig).recid (decodeSignature sig).r
                (decodeSignature sig).s
            } := by
  unfold signTx
  rcases signs : C.sign (signer.hash C tx.inner) key with _ | sig
  · simp
  obtain ⟨r, s, recid, range, bytes, -⟩ := ecdsa.recovers signs
  have isBit : (decodeSignature sig).recid = 0 ∨ (decodeSignature sig).recid = 1 := by
    rw [bytes, decodeSignature_toBE (range.rSmall.trans secp256k1N_lt)
      (range.sSmall.trans secp256k1N_lt)]
    exact range.isBit
  simp only [withSignature, except_bind_ok, made, Option.getD_some,
    Signer.signatureValues_ok_iff positive made isBit, Option.some.injEq, exists_eq_left']
  constructor
  · rintro ⟨values, ⟨knows, belongs, rfl⟩, returned⟩
    exact ⟨knows, belongs, (Except.ok.inj returned).symm⟩
  · rintro ⟨knows, belongs, rfl⟩
    exact ⟨_, ⟨knows, belongs, rfl⟩, rfl⟩

theorem Signer.sender_of_not_supports {tx : Transaction} (made : signer.chainID = some c)
    (unknown : signer.supports tx.inner = false)
    : signer.sender C tx = .error .txTypeNotSupported := by
  obtain ⟨inner, caches⟩ := tx
  cases Signer.unknown made unknown <;> rfl

section Senders

variable (C c) (caches : Caches)

variable (tx : LegacyTx)

theorem eip155Sender_legacy
    : eip155Sender C c ⟨.legacy tx, caches⟩
      = if !isProtectedV tx.v then homesteadSender C ⟨.legacy tx, caches⟩
        else if deriveChainId tx.v ≠ c then .error .invalidChainId
        else recoverPlain C ((legacy tx).chainHash C c) tx.r tx.s (tx.v - 2 * c - 8) true := by
  have hash : (legacy tx).chainHash C c = eip155Hash C c (.legacy tx) := rfl
  simp only [eip155Sender, type, txType, ne_eq, not_true_eq_false, if_false,
    isProtected, chainID, rawSignatureValues, hash]
  rfl

theorem eip2930Sender_legacy
    : eip2930Sender C c ⟨.legacy tx, caches⟩ = eip155Sender C c ⟨.legacy tx, caches⟩ := by
  have hash : (legacy tx).chainHash C c = eip2930Hash C c (.legacy tx) := rfl
  rw [eip155Sender_legacy, hash]
  simp only [eip2930Sender, type, txType, if_true, isProtected, chainID, rawSignatureValues]
  rfl

theorem eip2930Sender_accessList (tx : AccessListTx)
    : eip2930Sender C c ⟨.accessList tx, caches⟩
      = if tx.chainID ≠ c then .error .invalidChainId
        else recoverPlain C ((accessList tx).chainHash C c) tx.r tx.s (tx.v + 27) true := by
  have typed : accessListTxType ≠ legacyTxType := by decide
  have hash : (accessList tx).chainHash C c = eip2930Hash C c (.accessList tx) := rfl
  simp only [eip2930Sender, type, txType, typed, if_false, if_true,
    chainID, rawSignatureValues, hash]
  rfl

theorem londonSender_legacy
    : londonSender C c ⟨.legacy tx, caches⟩ = eip155Sender C c ⟨.legacy tx, caches⟩ := by
  have other : legacyTxType ≠ dynamicFeeTxType := by decide
  rw [← eip2930Sender_legacy]
  exact if_pos other

theorem londonSender_accessList (tx : AccessListTx)
    : londonSender C c ⟨.accessList tx, caches⟩ = eip2930Sender C c ⟨.accessList tx, caches⟩ := by
  have other : accessListTxType ≠ dynamicFeeTxType := by decide
  exact if_pos other

theorem londonSender_dynamicFee (tx : DynamicFeeTx)
    : londonSender C c ⟨.dynamicFee tx, caches⟩
      = if tx.chainID ≠ c then .error .invalidChainId
        else recoverPlain C ((dynamicFee tx).chainHash C c) tx.r tx.s (tx.v + 27) true := by
  have hash : (dynamicFee tx).chainHash C c = londonHash C c (.dynamicFee tx) := rfl
  simp only [londonSender, type, txType, ne_eq, not_true_eq_false, if_false,
    chainID, rawSignatureValues, hash]
  rfl

end Senders

/-- Every signer of a chain recovers the sender of the types it knows in the same way. -/
theorem Signer.sender_of_supports {tx : Transaction} (made : signer.chainID = some c)
    (knows : signer.supports tx.inner = true)
    : signer.sender C tx = londonSender C c tx := by
  obtain ⟨inner, caches⟩ := tx
  cases known made knows with
  | eip155 tx => exact (londonSender_legacy C _ caches tx).symm
  | eip2930 tx =>
    rw [londonSender_legacy, ← eip2930Sender_legacy]
    rfl
  | accessList tx => exact (londonSender_accessList C _ caches tx).symm
  | london d => rfl

section Signed

variable {recid : UInt8} {r s : Int} {caches : Caches}

theorem toNat_le_of_bit (isBit : recid = 0 ∨ recid = 1) : recid.toNat ≤ 1 := by
  rcases isBit with rfl | rfl <;> decide

/-- A transaction signed for a chain is checked against the chain id first. -/
theorem londonSender_signedFor (c' : Int) (positive : 0 < c) (isBit : recid = 0 ∨ recid = 1)
    : londonSender C c' ⟨d.signedFor c recid r s, caches⟩
      = if c ≠ c' then .error .invalidChainId
        else recoverPlain C (d.chainHash C c') r s (27 + (recid.toNat : Nat)) true := by
  have hash : (d.signedFor c recid r s).chainHash C c' = d.chainHash C c' :=
    chainHash_setSignatureValues _ _ _ _
  cases d with
  | legacy tx =>
    have isProtected : isProtectedV (35 + (recid.toNat : Nat) + 2 * c) = true :=
      isProtectedV_eq positive (toNat_le_of_bit isBit)
    have own : deriveChainId (35 + (recid.toNat : Nat) + 2 * c) = c :=
      deriveChainId_eq positive (toNat_le_of_bit isBit)
    rw [← hash]
    refine (londonSender_legacy C c' caches _).trans ((eip155Sender_legacy C c' caches _).trans ?_)
    simp only [chainV, isProtected, own, Bool.not_true, Bool.false_eq_true, if_false]
    split
    · rfl
    · rename_i same
      have plain : (35 + (recid.toNat : Nat) + 2 * c : Int) - 2 * c' - 8
          = 27 + (recid.toNat : Nat) := by
        have := Decidable.not_not.mp same
        omega
      rw [plain]
      rfl
  | accessList tx =>
    rw [← hash, Int.add_comm 27]
    exact (londonSender_accessList C c' caches _).trans (eip2930Sender_accessList C c' caches _)
  | dynamicFee tx =>
    rw [← hash, Int.add_comm 27]
    exact londonSender_dynamicFee C c' caches _

/-- The signers without a chain id take no transaction that was signed for a chain. -/
theorem frontierSender_signedFor (homestead : Bool) (positive : 0 < c)
    (isBit : recid = 0 ∨ recid = 1)
    : ∃ e, frontierSender C ⟨d.signedFor c recid r s, caches⟩ homestead = .error e := by
  cases d with
  | legacy tx =>
    exact ⟨.invalidSig, recoverPlain_protected C _ r s homestead positive (toNat_le_of_bit isBit)⟩
  | accessList tx => exact ⟨.txTypeNotSupported, rfl⟩
  | dynamicFee tx => exact ⟨.txTypeNotSupported, rfl⟩

end Signed

end OneChain

/-- The remembered sender is the one its signer derives. -/
def Transaction.Remembers (C : Crypto) (tx : Transaction) : Prop :=
  ∀ entry ∈ tx.caches.sender, entry.1.sender C tx = .ok entry.2

variable {C : Crypto} {tx : Transaction}

variable (signer : Signer)

/-- Caches do not matter to the sender. -/
theorem Signer.sender_congr {tx tx' : Transaction} (same : tx'.inner = tx.inner)
    : signer.sender C tx' = signer.sender C tx := by
  obtain ⟨inner, caches⟩ := tx
  obtain ⟨inner', caches'⟩ := tx'
  obtain rfl : inner' = inner := same
  cases signer with
  | frontier => rfl
  | homestead => rfl
  | eip155 chainId => rfl
  | eip2930 chainId => rfl
  | london chainId => rfl

/-- The sender that is cached is the one derived. -/
theorem deriveSender_remembers (remembers : tx.Remembers C)
    : (deriveSender C signer tx).1 = signer.sender C tx
      ∧ (deriveSender C signer tx).2.Remembers C
      ∧ (deriveSender C signer tx).2.inner = tx.inner := by
  unfold deriveSender
  split
  · rename_i e failed
    exact ⟨failed.symm, remembers, rfl⟩
  · rename_i addr derived
    refine ⟨derived.symm, ?_, rfl⟩
    intro entry member
    obtain rfl := Option.some.inj member
    rw [← derived]
    exact signer.sender_congr rfl

/-- With the cache the sender is the same. -/
theorem sender_remembers (remembers : tx.Remembers C)
    : (sender C signer tx).1 = signer.sender C tx ∧ (sender C signer tx).2.Remembers C
      ∧ (sender C signer tx).2.inner = tx.inner := by
  unfold sender
  split
  · rename_i remembered addr found
    split
    · rename_i same
      refine ⟨?_, remembers, rfl⟩
      rw [← same]
      exact (remembers _ found).symm
    · exact deriveSender_remembers signer remembers
  · exact deriveSender_remembers signer remembers

/-- A transaction after any calls of `Sender` on it. -/
def afterSenders (C : Crypto) (calls : List Signer) (tx : Transaction) : Transaction :=
  calls.foldl (fun tx signer => (sender C signer tx).2) tx

/-- Calls of `Sender` leave no trace in later answers; induction on the calls. -/
theorem sender_afterSenders (calls : List Signer) (signer : Signer) (remembers : tx.Remembers C)
    : (sender C signer (afterSenders C calls tx)).1 = signer.sender C tx := by
  induction calls generalizing tx with
  | nil => exact (sender_remembers signer remembers).1
  | cons call calls ih =>
    obtain ⟨-, stillRemembers, same⟩ := sender_remembers call remembers
    exact (ih stillRemembers).trans (signer.sender_congr same)

/-- A later signer supports what an earlier one does. -/
theorem Signer.supports_mono {signer later : Signer} {c : Int} {d : TxData}
    (made : later.chainID = some c) (order : signer.rank ≤ later.rank)
    (knows : signer.supports d = true)
    : later.supports d = true := by
  cases d with
  | legacy tx => cases later <;> rfl
  | accessList tx =>
    cases signer <;> cases knows
    all_goals
      cases later with
      | frontier => cases made
      | homestead => cases made
      | eip155 chainId => simp [rank] at order
      | eip2930 chainId => rfl
      | london chainId => rfl
  | dynamicFee tx =>
    cases signer <;> cases knows
    cases later with
    | frontier => cases made
    | homestead => cases made
    | eip155 chainId => simp [rank] at order
    | eip2930 chainId => simp [rank] at order
    | london chainId => rfl

/-- A signer of a chain signs what it knows and what may belong to its chain. Whatever calls
of `Sender` were made before, the signed transaction has the address of the key under every
signer of the chain from that signer on, and is refused by every signer that is not for the
chain.
-/
theorem signature_binds_chain (C : Crypto) (ecdsa : C.Recovers) {c : Int} (positive : 0 < c)
    {signer : Signer} (made : signer.chainID = some c) (tx : Transaction) (key : C.Key)
    : ((∃ signed, signTx C tx signer key = .ok signed)
        ↔ signer.supports tx.inner = true ∧ tx.inner.mayBelongTo c
          ∧ (C.sign (signer.hash C tx.inner) key).isSome = true)
      ∧ ∀ signed, signTx C tx signer key = .ok signed → ∀ calls : List Signer,
          (∀ later : Signer, later.chainID = some c → signer.rank ≤ later.rank →
            (sender C later (afterSenders C calls signed)).1 = .ok (C.address key))
          ∧ (∀ other : Signer, other.chainID ≠ some c →
            ∃ e, (sender C other (afterSenders C calls signed)).1 = .error e) := by
  refine ⟨?_, ?_⟩
  · simp only [signTx_ok_iff ecdsa positive made, Option.isSome_iff_exists]
    constructor
    · rintro ⟨signed, knows, belongs, sig, signs, -⟩
      exact ⟨knows, belongs, sig, signs⟩
    · rintro ⟨knows, belongs, sig, signs⟩
      exact ⟨_, knows, belongs, sig, signs, rfl⟩
  · intro signed run calls
    obtain ⟨knows, -, sig, signs, rfl⟩ := (signTx_ok_iff ecdsa positive made).mp run
    rw [Signer.hash_eq made knows] at signs
    obtain ⟨r, s, recid, range, bytes, recovered⟩ := ecdsa.recovers signs
    rw [bytes] at recovered
    rw [bytes, decodeSignature_toBE (range.rSmall.trans secp256k1N_lt)
      (range.sSmall.trans secp256k1N_lt)]
    dsimp only
    have remembers : Remembers C
        { inner := tx.inner.signedFor c recid r s } := by
      intro entry member
      cases member
    have supported (later : Signer)
        : later.supports (tx.inner.signedFor c recid r s) = later.supports tx.inner := by
      cases tx.inner <;> cases later <;> rfl
    refine ⟨?_, ?_⟩
    · intro later madeLater order
      refine (sender_afterSenders calls later remembers).trans ?_
      have knowsLater := Signer.supports_mono madeLater order knows
      rw [Signer.sender_of_supports madeLater ((supported later).trans knowsLater),
        londonSender_signedFor c positive range.isBit, if_neg (by simp)]
      exact range.recoverPlain_eq recovered (ecdsa.uncompressed key)
    · intro other foreign
      rw [sender_afterSenders calls other remembers]
      rcases chain : other.chainID with _ | c'
      · cases other with
        | frontier => exact frontierSender_signedFor false positive range.isBit
        | homestead => exact frontierSender_signedFor true positive range.isBit
        | eip155 chainId => cases chain
        | eip2930 chainId => cases chain
        | london chainId => cases chain
      · have different : c ≠ c' := by
          rintro rfl
          exact foreign chain
        rcases knowsOther : other.supports (tx.inner.signedFor c recid r s) with _ | _
        · exact ⟨_, Signer.sender_of_not_supports chain knowsOther⟩
        · rw [Signer.sender_of_supports chain knowsOther,
            londonSender_signedFor c' positive range.isBit, if_pos different]
          exact ⟨_, rfl⟩

/-- The bit that names one of two keys. -/
def keyBit (key : Bool) : UInt8 := if key then 1 else 0

/-- A scheme with two keys, whose signatures name the key. -/
def twoKeys : Crypto where
  Key := Bool
  keccak := bytesToHash
  sign _ key := some (toBE 32 1 ++ toBE 32 1 ++ [keyBit key])
  ecrecover _ sig := sig.getLast?.map (fun recid => [4, recid])
  publicKey key := [4, keyBit key]

theorem twoKeys_recovers : twoKeys.Recovers where
  recovers {_ key sig} signs := by
    have bytes := Option.some.inj signs
    refine ⟨1, 1, keyBit key, ⟨le_rfl, by decide, le_rfl, by decide, ?_⟩, bytes.symm, ?_⟩
    · cases key
      · exact Or.inl rfl
      · exact Or.inr rfl
    · rw [← bytes]
      simp [twoKeys]
  uncompressed _ := rfl

/-- A transfer signed for a chain id of more than 64 bits. -/
theorem signature_binds_chain_large
    : let tx := newTx (.legacy ⟨0, 1, 21000, some 3, 5, [], 0, 0, 0⟩)
      ∃ signed, signTx twoKeys tx (.eip155 (2 ^ 70)) true = .ok signed
        ∧ (sender twoKeys (.london (2 ^ 70)) signed).1 = .ok (twoKeys.address true)
        ∧ ∃ e, (sender twoKeys (.eip155 (2 ^ 70 + 1)) signed).1 = .error e := by
  intro tx
  have made : (Signer.eip155 (2 ^ 70)).chainID = some (2 ^ 70) := rfl
  have binds := signature_binds_chain twoKeys twoKeys_recovers (by decide) made tx true
  obtain ⟨signed, run⟩ := binds.1.mpr ⟨rfl, trivial, rfl⟩
  obtain ⟨own, foreign⟩ := binds.2 signed run []
  exact ⟨signed, run, own (.london (2 ^ 70)) rfl (by decide),
    foreign (.eip155 (2 ^ 70 + 1)) (by decide)⟩

end GoBinacoin.Types
