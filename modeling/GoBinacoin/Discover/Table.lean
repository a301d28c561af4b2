import GoBinacoin.Common.Types
import Mathlib.Data.Nat.Size

/-! The node table of the discovery protocol: buckets of nodes by distance, with limits on how
many nodes of one subnet a bucket and the table hold.
-/

namespace GoBinacoin.Discover

/-- `net.IP`: four or sixteen bytes, or none. -/
abbrev IP := Bytes

def v4InV6Prefix : Bytes := List.replicate 10 0 ++ [0xff, 0xff]

def to4 (ip : IP) : Option IP :=
  if ip.length = 4 then some ip
  else if ip.length = 16 ∧ ip.take 12 = v4InV6Prefix then some (ip.drop 12)
  else none

/-- `IP.Equal`: an IPv4 address and the same address in IPv6 form are equal. -/
def ipEqual (ip x : IP) : Bool :=
  if ip.length = x.length then ip = x
  else if ip.length = 4 ∧ x.length = 16 then x.take 12 = v4InV6Prefix ∧ ip = x.drop 12
  else if ip.length = 16 ∧ x.length = 4 then ip.take 12 = v4InV6Prefix ∧ ip.drop 12 = x
  else false

/-- The leading bits of an address, in whole bytes. -/
def leading (bits : Nat) (ip : IP) : Bytes :=
  let mask : UInt8 := ~~~(0xff >>> UInt8.ofNat (bits % 8))
  ip.take (bits / 8) ++ if mask ≠ 0 then ((ip.drop (bits / 8)).take 1).map (· &&& mask) else []

/-- A network of a `Netlist`, by its address and the number of common bits. -/
structure IPNet where
  ip : IP
  bits : Nat

def IPNet.contains (n : IPNet) (ip : IP) : Bool :=
  ip.length = n.ip.length ∧ leading n.bits ip = leading n.bits n.ip

def lan4 : List IPNet :=
  [⟨[0, 0, 0, 0], 8⟩, ⟨[10, 0, 0, 0], 8⟩, ⟨[172, 16, 0, 0], 12⟩, ⟨[192, 168, 0, 0], 16⟩]

def lan6 : List IPNet :=
  [⟨0xfe :: 0x80 :: List.replicate 14 0, 10⟩, ⟨0xfc :: List.replicate 15 0, 7⟩]

def isLoopback (ip : IP) : Bool :=
  match to4 ip with
  | some ip4 => ip4.head? = some 127
  | none => ipEqual ip (List.replicate 15 0 ++ [1])

def isLAN (ip : IP) : Bool :=
  isLoopback ip
  || match to4 ip with
    | some v4 => lan4.any (·.contains v4)
    | none => lan6.any (·.contains ip)

/-- `DistinctNetSet`; the fields `Subnet` and `Limit` never change. -/
structure DistinctNetSet (subnet limit : Nat) where
  members : GoMap Bytes Nat := GoMap.empty

/-- The key of a subnet: `'4'` or `'6'`, then the leading bits of the address. -/
def subnetKey (subnet : Nat) (ip : IP) : Bytes :=
  match to4 ip with
  | some ip4 => 0x34 :: leading (min subnet (ip4.length * 8)) ip4
  | none => 0x36 :: leading (min subnet (ip.length * 8)) ip

def DistinctNetSet.add {subnet limit : Nat} (s : DistinctNetSet subnet limit) (ip : IP)
    : Bool × DistinctNetSet subnet limit :=
  let key := subnetKey subnet ip
  let n := (s.members key).getD 0
  if n < limit then (true, ⟨s.members.set key (n + 1)⟩) else (false, s)

def DistinctNetSet.remove {subnet limit : Nat} (s : DistinctNetSet subnet limit) (ip : IP)
    : DistinctNetSet subnet limit :=
  let key := subnetKey subnet ip
  match s.members key with
  | some n => if n = 1 then ⟨s.members.delete key⟩ else ⟨s.members.set key (n - 1)⟩
  | none => s

def bucketSize : Nat := 16

def maxReplacements : Nat := 10

def hashBits : Nat := 256

def nBuckets : Nat := hashBits / 15

def bucketMinDistance : Nat := hashBits - nBuckets

def bucketIPLimit : Nat := 2

def bucketSubnet : Nat := 24

def tableIPLimit : Nat := 10

def tableSubnet : Nat := 24

/-- What the table reads of a node. -/
structure Node where
  id : Hash
  ip : IP
  seq : Nat := 0
  deriving DecidableEq

structure Bucket where
  entries : List Node := []
  replacements : List Node := []
  ips : DistinctNetSet bucketSubnet bucketIPLimit := {}

structure Table where
  self : Hash
  buckets : Fin nBuckets → Bucket := fun _ => {}
  ips : DistinctNetSet tableSubnet tableIPLimit := {}
  initDone : Bool := false

/-- `enode.LogDist`: the number of bits without the leading zeros of the difference. -/
def logDist (a b : Hash) : Nat := (a ^^^ b).toNat.size

theorem logDist_le (a b : Hash) : logDist a b ≤ hashBits := Nat.size_le.mpr (a ^^^ b).isLt

/-- `bucket`, as an index. -/
def bucketOf (self id : Hash) : Fin nBuckets :=
  if near : logDist self id ≤ bucketMinDistance then ⟨0, by decide⟩
  else
    ⟨logDist self id - bucketMinDistance - 1, by
      have := logDist_le self id
      unfold bucketMinDistance nBuckets hashBits at *
      omega⟩

def Table.setBucket (t : Table) (i : Fin nBuckets) (b : Bucket) : Table :=
  { t with buckets := Function.update t.buckets i b }

def Table.addIP (t : Table) (i : Fin nBuckets) (ip : IP) : Bool × Table :=
  if ip.length = 0 then (false, t)
  else if isLAN ip then (true, t)
  else
    match t.ips.add ip with
    | (false, _) => (false, t)
    | (true, ips) =>
        match (t.buckets i).ips.add ip with
        | (false, _) => (false, { t with ips := ips.remove ip })
        | (true, own) => (true, { t with ips := ips }.setBucket i { t.buckets i with ips := own })

def Table.removeIP (t : Table) (i : Fin nBuckets) (ip : IP) : Table :=
  if isLAN ip then t
  else
    { t with ips := t.ips.remove ip }.setBucket i
      { t.buckets i with ips := (t.buckets i).ips.remove ip }

def contains (ns : List Node) (id : Hash) : Bool := ns.any (·.id = id)

/-- `pushNode`: the new list, and the node that had to go. -/
def pushNode (list : List Node) (n : Node) (limit : Nat) : List Node × Option Node :=
  if list.length < limit then (n :: list, none) else (n :: list.dropLast, list.getLast?)

def deleteNode (list : List Node) (id : Hash) : List Node := list.eraseP (·.id = id)

namespace Table

def addReplacement (t : Table) (i : Fin nBuckets) (n : Node) : Table :=
  if contains (t.buckets i).replacements n.id then t
  else
    match t.addIP i n.ip with
    | (false, t) => t
    | (true, t) =>
        let pushed := pushNode (t.buckets i).replacements n maxReplacements
        let t := t.setBucket i { t.buckets i with replacements := pushed.1 }
        match pushed.2 with
        | none => t
        | some removed => t.removeIP i removed.ip

def deleteInBucket (t : Table) (i : Fin nBuckets) (n : Node) : Table :=
  (t.setBucket i { t.buckets i with entries := deleteNode (t.buckets i).entries n.id }).removeIP
    i n.ip

/-- The node moves to the front of the entries and takes the place of its old record. -/
def toFront (t : Table) (i : Fin nBuckets) (n : Node) : Table :=
  t.setBucket i { t.buckets i with entries := n :: deleteNode (t.buckets i).entries n.id }

def bumpInBucket (t : Table) (i : Fin nBuckets) (n : Node) : Bool × Table :=
  match (t.buckets i).entries.find? (·.id = n.id) with
  | none => (false, t)
  | some entry =>
      if ipEqual n.ip entry.ip then (true, t.toFront i n)
      else
        match (t.removeIP i entry.ip).addIP i n.ip with
        | (false, t) => (false, (t.addIP i entry.ip).2)
        | (true, t) => (true, t.toFront i n)

/-- `replace`; `pick` is the random number. -/
def replace (t : Table) (i : Fin nBuckets) (last : Node) (pick : Nat) : Table :=
  let b := t.buckets i
  if b.entries.getLast?.map (·.id) ≠ some last.id then t
  else
    match b.replacements[pick % b.replacements.length]? with
    | none => t.deleteInBucket i last
    | some r =>
        (t.setBucket i { b with
          replacements := deleteNode b.replacements r.id
          entries := b.entries.dropLast ++ [r] }).removeIP i last.ip

/-- The common end of adding a node, with the new entries of its bucket. -/
def addEntry (t : Table) (n : Node) (push : List Node → List Node) : Table :=
  let i := bucketOf t.self n.id
  if bucketSize ≤ (t.buckets i).entries.length then t.addReplacement i n
  else
    match t.addIP i n.ip with
    | (false, t) => t
    | (true, t) =>
        t.setBucket i { t.buckets i with
          entries := push (t.buckets i).entries
          replacements := deleteNode (t.buckets i).replacements n.id }

def addSeenNode (t : Table) (n : Node) : Table :=
  if n.id = t.self then t
  else if contains (t.buckets (bucketOf t.self n.id)).entries n.id then t
  else t.addEntry n (· ++ [n])

def addVerifiedNode (t : Table) (n : Node) : Table :=
  if !t.initDone then t
  else if n.id = t.self then t
  else
    match t.bumpInBucket (bucketOf t.self n.id) n with
    | (true, t) => t
    | (false, t) => t.addEntry n fun entries => (pushNode entries n bucketSize).1

def delete (t : Table) (n : Node) : Table :=
  t.deleteInBucket (bucketOf t.self n.id) n

/-- The end of `doRevalidate`, once `last`, picked from bucket `i`, has been pinged. A reply
carries the sequence number of its record, and `record` is the answer to a request for a newer
one, which may fail too.
-/
def revalidated (t : Table) (i : Fin nBuckets) (last : Node) (reply : Option Nat)
    (record : Option Node) (pick : Nat)
    : Table :=
  match reply with
  | some remoteSeq =>
      (t.bumpInBucket i (if last.seq < remoteSeq then record.getD last else last)).2
  | none => t.replace i last pick

end Table

inductive Event where
  | initialized
  | seen (n : Node)
  | verified (n : Node)
  | delete (n : Node)
  | revalidated (i : Fin nBuckets) (last : Node) (reply : Option Nat) (record : Option Node)
    (pick : Nat)

def Table.handle (t : Table) : Event → Table
  | .initialized => { t with initDone := true }
  | .seen n => t.addSeenNode n
  | .verified n => t.addVerifiedNode n
  | .delete n => t.delete n
  | .revalidated i last reply record pick => t.revalidated i last reply record pick

end GoBinacoin.Discover
