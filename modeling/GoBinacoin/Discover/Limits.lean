import GoBinacoin.Discover.Table
import GoBinacoin.Lib.Counter
import Mathlib.Algebra.BigOperators.Fin

/-! What the counters of the node table count. -/

namespace GoBinacoin.Discover

open Counter

/-- The subnet under which an address is counted; addresses of local networks are not. -/
def counted (ip : IP) : Option Bytes :=
  if isLAN ip then none else some (subnetKey bucketSubnet ip)

def Node.key (n : Node) : Option Bytes := counted n.ip

def Bucket.held (b : Bucket) : List Node := b.entries ++ b.replacements

/-- Equal addresses have the same IPv4 form. -/
theorem to4_of_ipEqual {ip x : IP} (equal : ipEqual ip x = true)
    : to4 ip = to4 x ∧ (to4 ip = none → ip = x) := by
  unfold ipEqual at equal
  unfold to4
  split at equal
  · obtain rfl : ip = x := by simpa using equal
    exact ⟨rfl, fun _ => rfl⟩
  · split at equal
    · rename_i sizes
      have mapped : x.take 12 = v4InV6Prefix ∧ ip = x.drop 12 := by simpa using equal
      simp [sizes, mapped.1, ← mapped.2]
    · split at equal
      · rename_i sizes
        have mapped : ip.take 12 = v4InV6Prefix ∧ ip.drop 12 = x := by simpa using equal
        simp [sizes, mapped.1, mapped.2]
      · cases equal

theorem counted_of_ipEqual {ip x : IP} (equal : ipEqual ip x = true) : counted ip = counted x := by
  obtain ⟨same, whole⟩ := to4_of_ipEqual equal
  cases short : to4 ip with
  | none => rw [whole short]
  | some ip4 => simp only [counted, isLAN, isLoopback, subnetKey, ← same, short]

theorem ne_nil_of_ipEqual {ip x : IP} (equal : ipEqual ip x = true) (present : x ≠ [])
    : ip ≠ [] := by
  rintro rfl
  obtain ⟨-, whole⟩ := to4_of_ipEqual equal
  exact present (whole rfl).symm

/-- The set counts exactly this, within its limit. -/
structure Fits {subnet limit : Nat} (s : DistinctNetSet subnet limit) (f : Bytes → Nat)
    : Prop where
  holds : Holds s.members f
  within : ∀ k, f k ≤ limit

section NetSets

variable {subnet limit : Nat} {s : DistinctNetSet subnet limit} {f f' : Bytes → Nat} {ip : IP}

variable (fits : Fits s f)
include fits

theorem Fits.add_eq (ip : IP)
    : s.add ip
      = if f (subnetKey subnet ip) < limit then
          (true, ⟨s.members.set (subnetKey subnet ip) (f (subnetKey subnet ip) + 1)⟩)
        else (false, s) := by
  simp only [DistinctNetSet.add, fits.holds.getD]

theorem Fits.add_full (full : limit ≤ f (subnetKey subnet ip)) : s.add ip = (false, s) := by
  rw [fits.add_eq, if_neg (Nat.not_lt.mpr full)]

/-- With room left, an address is added, and removing it again changes nothing. -/
theorem Fits.add_room (room : f (subnetKey subnet ip) < limit)
    : ∃ s', s.add ip = (true, s') ∧ s'.remove ip = s
      ∧ ∀ f', (∀ k, f' k = f k + weight (some (subnetKey subnet ip)) k) → Fits s' f' := by
  have present := fits.holds (subnetKey subnet ip)
  refine ⟨_, (fits.add_eq ip).trans (if_pos room), ?_, fun f' more => ⟨?_, fun k => ?_⟩⟩
  · simp only [DistinctNetSet.remove, GoMap.set_self]
    unfold entry at present
    split at present
    · rename_i zero
      rw [if_pos (by omega), GoMap.delete_set _ _ _ present]
    · rename_i some
      rw [if_neg (by omega), Nat.add_sub_cancel, GoMap.set_set_self _ _ _ _ present]
  · have own : f' (subnetKey subnet ip) = f (subnetKey subnet ip) + 1 := by
      rw [more, weight_pos rfl]
    have written := fits.holds.write f' (subnetKey subnet ip) fun j ne => by
      rw [more, weight, if_neg (by simpa using ne.symm), Nat.add_zero]
    rwa [own, entry, if_neg (Nat.succ_ne_zero _)] at written
  · rw [more, weight]
    split
    · rename_i same
      obtain rfl := Option.some.inj same
      exact room
    · exact fits.within k

/-- Removing an address that is counted takes one from its subnet. -/
theorem Fits.remove (less : ∀ k, f' k + weight (some (subnetKey subnet ip)) k = f k)
    : Fits (s.remove ip) f' := by
  have own := less (subnetKey subnet ip)
  rw [weight_pos rfl] at own
  have present : s.members (subnetKey subnet ip) = some (f (subnetKey subnet ip)) := by
    rw [fits.holds, entry, if_neg (by omega)]
  have written := fits.holds.write f' (subnetKey subnet ip) fun j ne => by
    rw [← less j, weight, if_neg (by simpa using ne.symm), Nat.add_zero]
  refine ⟨?_, fun k => ?_⟩
  · simp only [DistinctNetSet.remove, present]
    unfold entry at written
    split
    · rwa [if_pos (by omega)] at written
    · rw [if_neg (by omega)] at written
      rwa [← own, Nat.add_sub_cancel]
  · have := less k
    have := fits.within k
    omega

end NetSets

/-- The counters of a table hold these numbers, by bucket and subnet. -/
structure Counts (t : Table) (F : Fin nBuckets → Bytes → Nat) : Prop where
  table : Fits t.ips fun k => ∑ i, F i k
  bucket : ∀ i, Fits (t.buckets i).ips (F i)

/-- One subnet less and another one more in a bucket. -/
def Shift (i : Fin nBuckets) (gone come : Option Bytes) (F F' : Fin nBuckets → Bytes → Nat)
    : Prop :=
  ∀ j k, F' j k + (if j = i then weight gone k else 0) = F j k + if j = i then weight come k else 0

/-- Two tables that hold the same nodes. -/
structure SameNodes (t t' : Table) : Prop where
  self : t'.self = t.self
  entries : ∀ j, (t'.buckets j).entries = (t.buckets j).entries
  replacements : ∀ j, (t'.buckets j).replacements = (t.buckets j).replacements

/-- An address is refused where a limit is reached. -/
def Refused (F : Fin nBuckets → Bytes → Nat) (i : Fin nBuckets) (ip : IP) : Prop :=
  ip = []
  ∨ ∃ k, counted ip = some k ∧ (tableIPLimit ≤ ∑ j, F j k ∨ bucketIPLimit ≤ F i k)

section Counters

variable {t : Table} {F F' : Fin nBuckets → Bytes → Nat} {i : Fin nBuckets} {ip : IP}
  {gone come : Option Bytes}

theorem SameNodes.refl (t : Table) : SameNodes t t := ⟨rfl, fun _ => rfl, fun _ => rfl⟩

theorem SameNodes.trans {t' t'' : Table} (first : SameNodes t t') (second : SameNodes t' t'')
    : SameNodes t t'' where
  self := second.self.trans first.self
  entries j := (second.entries j).trans (first.entries j)
  replacements j := (second.replacements j).trans (first.replacements j)

theorem sameNodes_setIps (t : Table) (i : Fin nBuckets)
    (ips : DistinctNetSet tableSubnet tableIPLimit)
    (own : DistinctNetSet bucketSubnet bucketIPLimit)
    : SameNodes t ({ t with ips := ips }.setBucket i { t.buckets i with ips := own }) := by
  refine ⟨rfl, fun j => ?_, fun j => ?_⟩
  all_goals
    simp only [Table.setBucket, Function.update_apply]
    split
    · rename_i same
      rw [same]
    · rfl

variable (shift : Shift i gone come F F')
include shift

theorem Shift.own (k : Bytes) : F' i k + weight gone k = F i k + weight come k := by
  simpa using shift i k

theorem Shift.other {j : Fin nBuckets} (ne : j ≠ i) : F' j = F j := by
  funext k
  simpa [ne] using shift j k

theorem Shift.sum (k : Bytes) : ∑ j, F' j k + weight gone k = ∑ j, F j k + weight come k := by
  have sums := congrArg (fun f => ∑ j, f j) (funext fun j => shift j k)
  simpa [Finset.sum_add_distrib] using sums

omit shift

theorem Counts.setIps (counts : Counts t F) (shift : Shift i gone come F F')
    {ips : DistinctNetSet tableSubnet tableIPLimit}
    {own : DistinctNetSet bucketSubnet bucketIPLimit}
    (table : Fits ips fun k => ∑ j, F' j k) (bucket : Fits own (F' i))
    : Counts ({ t with ips := ips }.setBucket i { t.buckets i with ips := own }) F' := by
  refine ⟨table, fun j => ?_⟩
  rcases eq_or_ne j i with rfl | ne
  · simpa [Table.setBucket] using bucket
  · rw [shift.other ne]
    simpa [Table.setBucket, ne] using counts.bucket j

theorem counted_lan (lan : isLAN ip = true) : counted ip = none := if_pos lan

theorem counted_wan (wan : ¬isLAN ip = true) : counted ip = some (subnetKey bucketSubnet ip) :=
  if_neg wan

theorem Shift.same (shift : Shift i gone gone F F') : F' = F := by
  funext j k
  exact Nat.add_right_cancel (shift j k)

/-- Where a limit is reached, adding an address changes nothing. -/
theorem Counts.addIP_refused (counts : Counts t F) (refused : Refused F i ip)
    : t.addIP i ip = (false, t) := by
  unfold Table.addIP
  rcases refused with rfl | ⟨k, own, full⟩
  · rfl
  · split
    · rfl
    · have wan : ¬isLAN ip = true := fun lan => by
        rw [counted_lan lan] at own
        cases own
      rw [if_neg wan]
      rw [counted_wan wan] at own
      obtain rfl := Option.some.inj own
      by_cases tableFull : tableIPLimit ≤ ∑ j, F j (subnetKey tableSubnet ip)
      · rw [counts.table.add_full tableFull]
      · obtain ⟨ips, added, back, -⟩ := counts.table.add_room (Nat.not_le.mp tableFull)
        rw [added, (counts.bucket i).add_full (full.resolve_left tableFull)]
        simp only [back]

/-- Elsewhere the address is counted in the table and in the bucket. -/
theorem Counts.addIP_taken (counts : Counts t F) (taken : ¬Refused F i ip)
    : ∃ t', t.addIP i ip = (true, t') ∧ SameNodes t t'
      ∧ ∀ F', Shift i none (counted ip) F F' → Counts t' F' := by
  unfold Refused at taken
  push Not at taken
  obtain ⟨present, room⟩ := taken
  unfold Table.addIP
  rw [if_neg (by simpa using present)]
  by_cases lan : isLAN ip = true
  · rw [if_pos lan, counted_lan lan]
    exact ⟨t, rfl, .refl t, fun F' shift => shift.same ▸ counts⟩
  · rw [if_neg lan]
    obtain ⟨tableRoom, bucketRoom⟩ := room _ (counted_wan lan)
    obtain ⟨ips, added, -, table⟩ := counts.table.add_room tableRoom
    obtain ⟨own, addedOwn, -, bucket⟩ := (counts.bucket i).add_room bucketRoom
    rw [added, addedOwn]
    refine ⟨_, rfl, sameNodes_setIps t i ips own, fun F' shift => counts.setIps shift ?_ ?_⟩
    · refine table _ fun k => ?_
      have sum := shift.sum k
      rw [counted_wan lan, weight_none, Nat.add_zero] at sum
      exact sum
    · exact bucket _ fun k => by simpa [counted_wan lan] using shift.own k

/-- Adding an address moves no node. -/
theorem sameNodes_addIP (t : Table) (i : Fin nBuckets) (ip : IP)
    : SameNodes t (t.addIP i ip).2 := by
  unfold Table.addIP
  split
  · exact .refl t
  split
  · exact .refl t
  split
  · exact .refl t
  split
  · exact ⟨rfl, fun _ => rfl, fun _ => rfl⟩
  · exact sameNodes_setIps t i _ _

/-- An address is refused or taken; exact counters stay so. -/
theorem addIP_cases (t : Table) (i : Fin nBuckets) (ip : IP)
    : (∃ t', t.addIP i ip = (false, t') ∧ SameNodes t t' ∧ ∀ F, Counts t F → t' = t)
      ∨ ∃ t', t.addIP i ip = (true, t') ∧ SameNodes t t' ∧ ip ≠ []
        ∧ ∀ F, Counts t F
          → ¬Refused F i ip ∧ ∀ F', Shift i none (counted ip) F F' → Counts t' F' := by
  have same := sameNodes_addIP t i ip
  rcases result : t.addIP i ip with ⟨_ | _, t'⟩
  · rw [result] at same
    refine .inl ⟨t', rfl, same, fun F counts => ?_⟩
    by_cases refused : Refused F i ip
    · rw [counts.addIP_refused refused] at result
      exact (Prod.mk.inj result).2.symm
    · obtain ⟨_, added, -⟩ := counts.addIP_taken refused
      rw [added] at result
      cases result
  · rw [result] at same
    refine .inr ⟨t', rfl, same, ?_, fun F counts => ?_⟩
    · rintro rfl
      cases result
    · have taken : ¬Refused F i ip := by
        intro refused
        rw [counts.addIP_refused refused] at result
        cases result
      obtain ⟨_, added, -, more⟩ := counts.addIP_taken taken
      rw [added] at result
      cases result
      exact ⟨taken, more⟩

/-- The counters leave no room for an address. -/
def Table.Full (t : Table) (i : Fin nBuckets) (ip : IP) : Prop :=
  ip = []
  ∨ isLAN ip = false
    ∧ (tableIPLimit ≤ (t.ips.members (subnetKey tableSubnet ip)).getD 0
      ∨ bucketIPLimit ≤ ((t.buckets i).ips.members (subnetKey bucketSubnet ip)).getD 0)

/-- An address is refused exactly if it is empty or a counter is at its limit. -/
theorem addIP_eq_false_iff (t : Table) (i : Fin nBuckets) (ip : IP)
    : (t.addIP i ip).1 = false ↔ t.Full i ip := by
  unfold Table.addIP Table.Full DistinctNetSet.add
  rcases ip with _ | ⟨b, rest⟩
  · simp
  rcases lan : isLAN (b :: rest) with _ | _
  · by_cases table : (t.ips.members (subnetKey tableSubnet (b :: rest))).getD 0 < tableIPLimit
    · by_cases own : ((t.buckets i).ips.members (subnetKey bucketSubnet (b :: rest))).getD 0
          < bucketIPLimit
      · simp [table, own]
      · simp [table, own, Nat.not_lt.mp own]
    · simp [table, Nat.not_lt.mp table]
  · simp

section Growth

variable {subnet limit : Nat} (s : DistinctNetSet subnet limit)

/-- Adding an address lowers no counter. -/
theorem DistinctNetSet.le_add (ip : IP) (k : Bytes)
    : (s.members k).getD 0 ≤ ((s.add ip).2.members k).getD 0 := by
  unfold DistinctNetSet.add
  dsimp only
  split
  · rcases eq_or_ne k (subnetKey subnet ip) with rfl | ne
    · simp [GoMap.set_self]
    · dsimp only
      rw [GoMap.set_of_ne _ _ ne]
  · exact Nat.le_refl _

/-- Taking back an address that was just added lowers no counter. -/
theorem DistinctNetSet.le_remove_add {s' : DistinctNetSet subnet limit}
    (added : s.add ip = (true, s')) (k : Bytes)
    : (s.members k).getD 0 ≤ ((s'.remove ip).members k).getD 0 := by
  unfold DistinctNetSet.add at added
  dsimp only at added
  split at added <;> cases added
  simp only [DistinctNetSet.remove, GoMap.set_self]
  rcases eq_or_ne k (subnetKey subnet ip) with rfl | ne
  · split
    · rename_i one
      simp [GoMap.delete_self, show (s.members (subnetKey subnet ip)).getD 0 = 0 by omega]
    · simp [GoMap.set_self]
  · split
    · dsimp only
      rw [GoMap.delete_of_ne _ ne, GoMap.set_of_ne _ _ ne]
    · dsimp only
      rw [GoMap.set_of_ne _ _ ne, GoMap.set_of_ne _ _ ne]

end Growth

/-- Where there is no room for an address, another one makes none. -/
theorem Table.Full.addIP (full : t.Full i ip) (other : IP) : (t.addIP i other).2.Full i ip := by
  have grows : (∀ k, (t.ips.members k).getD 0 ≤ ((t.addIP i other).2.ips.members k).getD 0)
      ∧ ∀ k, ((t.buckets i).ips.members k).getD 0
        ≤ (((t.addIP i other).2.buckets i).ips.members k).getD 0 := by
    unfold Table.addIP
    split
    · exact ⟨fun _ => Nat.le_refl _, fun _ => Nat.le_refl _⟩
    split
    · exact ⟨fun _ => Nat.le_refl _, fun _ => Nat.le_refl _⟩
    split
    · exact ⟨fun _ => Nat.le_refl _, fun _ => Nat.le_refl _⟩
    rename_i ips added
    split
    · exact ⟨t.ips.le_remove_add added, fun _ => Nat.le_refl _⟩
    · rename_i own addedOwn
      have table := t.ips.le_add other
      have bucket := (t.buckets i).ips.le_add other
      rw [added] at table
      rw [addedOwn] at bucket
      refine ⟨table, fun k => ?_⟩
      simpa [Table.setBucket] using bucket k
  refine full.imp id (And.imp_right (Or.imp ?_ ?_))
  · exact fun more => more.trans (grows.1 _)
  · exact fun more => more.trans (grows.2 _)

theorem sameNodes_removeIP (t : Table) (i : Fin nBuckets) (ip : IP)
    : SameNodes t (t.removeIP i ip) := by
  unfold Table.removeIP
  split
  · exact .refl t
  · exact sameNodes_setIps t i _ _

/-- Removing an address that is counted takes one from both counters. -/
theorem Counts.removeIP (counts : Counts t F) (shift : Shift i (counted ip) none F F')
    : Counts (t.removeIP i ip) F' := by
  unfold Table.removeIP
  by_cases lan : isLAN ip = true
  · rw [if_pos lan]
    rw [counted_lan lan] at shift
    exact shift.same ▸ counts
  · rw [if_neg lan]
    rw [counted_wan lan] at shift
    refine counts.setIps shift (counts.table.remove fun k => ?_)
      ((counts.bucket i).remove fun k => ?_)
    · have sum := shift.sum k
      rw [weight_none, Nat.add_zero] at sum
      exact sum
    · simpa using shift.own k

end Counters

end GoBinacoin.Discover
