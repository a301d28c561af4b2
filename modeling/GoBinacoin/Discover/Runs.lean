import GoBinacoin.Discover.Limits

/-! The node table along a run. An event replaces nodes of one bucket; the counters stay exact as
long as what they lose and gain is what the bucket loses and gains.
-/

namespace GoBinacoin.Discover

open Counter Table

/-- A bucket holds few nodes, distinct and at its distance, all of them with an address. -/
structure BucketOk (localID : Hash) (i : Fin nBuckets) (b : Bucket) : Prop where
  entries : b.entries.length ≤ bucketSize
  replacements : b.replacements.length ≤ maxReplacements
  distinct : (b.held.map Node.id).Nodup
  placed : ∀ n ∈ b.held, bucketOf localID n.id = i ∧ n.id ≠ localID ∧ n.ip ≠ []

/-- The numbers of nodes held, by bucket and subnet. -/
def Table.tallies (t : Table) (i : Fin nBuckets) : Bytes → Nat :=
  tally Node.key (t.buckets i).held

/-- All buckets are in order. -/
def Ordered (t : Table) : Prop := ∀ i, BucketOk t.self i (t.buckets i)

/-- The buckets are in order and the counters are exact. -/
structure Valid (t : Table) : Prop where
  buckets : Ordered t
  counts : Counts t t.tallies

/-- What a change of the table keeps: the buckets are in order, and under a condition exact counters
are exact again.
-/
structure Keeps (cond : Prop) (t t' : Table) : Prop where
  self : t'.self = t.self
  ordered : Ordered t'
  counts : cond → Counts t t.tallies → Counts t' t'.tallies

/-- The nodes of a table after a change of one bucket. -/
structure Relisted (t t' : Table) (i : Fin nBuckets) (entries replacements : List Node)
    : Prop where
  self : t'.self = t.self
  entries : (t'.buckets i).entries = entries
  replacements : (t'.buckets i).replacements = replacements
  others
    : ∀ j, j ≠ i
      → (t'.buckets j).entries = (t.buckets j).entries
        ∧ (t'.buckets j).replacements = (t.buckets j).replacements

variable {t : Table} {i : Fin nBuckets} {n : Node}

section Changes

variable {t' t'' : Table} {entries replacements : List Node} {F F' : Fin nBuckets → Bytes → Nat}
  {gone come : Option Bytes} {cond : Prop}

theorem Keeps.refl (ordered : Ordered t) : Keeps cond t t := ⟨rfl, ordered, fun _ counts => counts⟩

theorem Keeps.trans (first : Keeps cond t t') (second : Keeps cond t' t'') : Keeps cond t t'' where
  self := second.self.trans first.self
  ordered := second.ordered
  counts allowed counts := second.counts allowed (first.counts allowed counts)

theorem Relisted.of_set (same : SameNodes t t') (entries replacements : List Node)
    : Relisted t (t'.setBucket i ⟨entries, replacements, (t'.buckets i).ips⟩) i entries
        replacements where
  self := same.self
  entries := by simp [setBucket]
  replacements := by simp [setBucket]
  others j ne := by
    simp only [setBucket, Function.update_of_ne ne]
    exact ⟨same.entries j, same.replacements j⟩

theorem Relisted.then (relisted : Relisted t t' i entries replacements) (same : SameNodes t' t'')
    : Relisted t t'' i entries replacements where
  self := same.self.trans relisted.self
  entries := (same.entries i).trans relisted.entries
  replacements := (same.replacements i).trans relisted.replacements
  others j ne :=
    ⟨(same.entries j).trans (relisted.others j ne).1,
      (same.replacements j).trans (relisted.others j ne).2⟩

theorem Counts.setNodes (counts : Counts t F) (entries replacements : List Node)
    : Counts (t.setBucket i ⟨entries, replacements, (t.buckets i).ips⟩) F := by
  refine ⟨counts.table, fun j => ?_⟩
  rcases eq_or_ne j i with rfl | ne
  · simpa [setBucket] using counts.bucket j
  · simpa [setBucket, ne] using counts.bucket j

theorem Shift.gain_first (shift : Shift i gone come F F')
    : ∃ F₁, Shift i none come F F₁ ∧ Shift i gone none F₁ F' := by
  refine ⟨fun j k => F j k + if j = i then weight come k else 0, fun j k => ?_, fun j k => ?_⟩
  · simp
  · have := shift j k
    simpa using this

theorem exists_loss (enough : ∀ k, weight gone k ≤ F i k) : ∃ F₁, Shift i gone none F F₁ := by
  refine ⟨fun j k => F j k - if j = i then weight gone k else 0, fun j k => ?_⟩
  have bound : (if j = i then weight gone k else 0) ≤ F j k := by
    split
    · rename_i same
      exact same ▸ enough k
    · exact Nat.zero_le _
  simp [Nat.sub_add_cancel bound]

theorem Shift.after_loss {F₁ : Fin nBuckets → Bytes → Nat} (shift : Shift i gone come F F')
    (loss : Shift i gone none F F₁)
    : Shift i none come F₁ F' := by
  intro j k
  have both := shift j k
  have first := loss j k
  simp only [weight_none, ite_self, Nat.add_zero] at first ⊢
  omega

theorem SameNodes.held (same : SameNodes t t') (j : Fin nBuckets)
    : (t'.buckets j).held = (t.buckets j).held := by
  rw [Bucket.held, same.entries, same.replacements, Bucket.held]

theorem SameNodes.tallies (same : SameNodes t t') : t'.tallies = t.tallies :=
  funext fun j => by rw [Table.tallies, same.held, Table.tallies]

/-- A change of the counters alone. -/
theorem SameNodes.keeps (same : SameNodes t t') (ordered : Ordered t)
    (counts : cond → Counts t t.tallies → Counts t' t.tallies)
    : Keeps cond t t' := by
  refine ⟨same.self, fun j => ?_, same.tallies ▸ counts⟩
  have ok := ordered j
  rw [same.self]
  exact ⟨same.entries j ▸ ok.entries, same.replacements j ▸ ok.replacements,
    same.held j ▸ ok.distinct, same.held j ▸ ok.placed⟩

/-- In one bucket a node goes and another one comes. -/
theorem Ordered.relist (ordered : Ordered t) (gone come : Option Node) (rest : List Node)
    (relisted : Relisted t t' i entries replacements)
    (old : (t.buckets i).held.Perm (gone.toList ++ rest))
    (new : (entries ++ replacements).Perm (come.toList ++ rest))
    (few : entries.length ≤ bucketSize) (fewReplacements : replacements.length ≤ maxReplacements)
    (fresh : ∀ n, come = some n → ∀ m ∈ rest, m.id ≠ n.id)
    (welcome : ∀ n, come = some n → bucketOf t.self n.id = i ∧ n.id ≠ t.self ∧ n.ip ≠ [])
    (counts
      : cond → Counts t t.tallies
        → ∀ F', Shift i (gone.bind Node.key) (come.bind Node.key) t.tallies F' → Counts t' F')
    : Keeps cond t t' := by
  have held : (t'.buckets i).held = entries ++ replacements := by
    rw [Bucket.held, relisted.entries, relisted.replacements]
  have other (j : Fin nBuckets) (ne : j ≠ i) : (t'.buckets j).held = (t.buckets j).held := by
    rw [Bucket.held, (relisted.others j ne).1, (relisted.others j ne).2, Bucket.held]
  refine ⟨relisted.self, fun j => ?_, fun allowed exactly => counts allowed exactly _ fun j k => ?_⟩
  · rw [relisted.self]
    rcases eq_or_ne j i with rfl | ne
    · have ok := ordered j
      have distinct := (old.map Node.id).nodup_iff.mp ok.distinct
      rw [List.map_append] at distinct
      refine ⟨relisted.entries ▸ few, relisted.replacements ▸ fewReplacements, ?_,
        fun n member => ?_⟩
      · rw [held, (new.map Node.id).nodup_iff]
        rcases come with _ | n
        · simpa using distinct.of_append_right
        · simp only [Option.toList_some, List.cons_append, List.nil_append, List.map_cons,
            List.nodup_cons]
          refine ⟨fun present => ?_, distinct.of_append_right⟩
          obtain ⟨m, member, same⟩ := List.mem_map.mp present
          exact fresh n rfl m member same
      · rw [held, new.mem_iff, List.mem_append] at member
        rcases member with entering | staying
        · exact welcome n (by simpa using entering)
        · exact ok.placed n (old.mem_iff.mpr (List.mem_append_right _ staying))
    · have ok := ordered j
      exact ⟨(relisted.others j ne).1 ▸ ok.entries, (relisted.others j ne).2 ▸ ok.replacements,
        other j ne ▸ ok.distinct, other j ne ▸ ok.placed⟩
  · rcases eq_or_ne j i with rfl | ne
    · have single (o : Option Node) : tally Node.key o.toList k = weight (o.bind Node.key) k := by
        cases o <;> simp
      simp only [tallies, if_true, held, tally_perm old, tally_perm new, tally_append, single]
      omega
    · simp only [tallies, if_neg ne, other j ne]

end Changes

/-- Deleting by ID takes out one node, if there is one with the ID. -/
theorem deleteNode_perm (l : List Node) (id : Hash)
    : ∃ gone : Option Node, l.Perm (gone.toList ++ deleteNode l id)
      ∧ (∀ x, gone = some x → x.id = id) ∧ (gone = none → ∀ x ∈ l, x.id ≠ id) := by
  rcases found : l.find? (·.id = id) with _ | y
  · have missing : ∀ x ∈ l, x.id ≠ id := by simpa using found
    refine ⟨none, ?_, nofun, fun _ => missing⟩
    rw [deleteNode, List.eraseP_of_forall_not (by simpa using missing)]
    exact .refl _
  · have own := List.find?_some found
    exact ⟨some y, perm_eraseP found, by simpa using own, nofun⟩

variable {l : List Node}

theorem deleteNode_fresh {id : Hash} (distinct : (l.map Node.id).Nodup)
    : ∀ m ∈ deleteNode l id, m.id ≠ id := by
  obtain ⟨gone, perm, own, missing⟩ := deleteNode_perm l id
  intro m member
  rcases gone with _ | y
  · exact missing rfl m (perm.mem_iff.mpr member)
  · have apart := (perm.map Node.id).nodup_iff.mp distinct
    intro same
    exact (List.nodup_cons.mp apart).1 (List.mem_map.mpr ⟨m, member, same.trans (own y rfl).symm⟩)

/-- Deleting a member takes out that one only. -/
theorem deleteNode_perm_of_mem {x : Node} (distinct : (l.map Node.id).Nodup) (member : x ∈ l)
    : l.Perm (x :: deleteNode l x.id) := by
  obtain ⟨gone, perm, own, missing⟩ := deleteNode_perm l x.id
  rcases gone with _ | y
  · exact absurd rfl (missing rfl x member)
  · have other : y ∈ l := perm.mem_iff.mpr (by simp)
    rwa [List.inj_on_of_nodup_map distinct other member (own y rfl)] at perm

theorem length_deleteNode_le (l : List Node) (id : Hash) : (deleteNode l id).length ≤ l.length :=
  List.length_eraseP_le

section Operations

theorem BucketOk.distinct_parts {b : Bucket} {localID : Hash} (ok : BucketOk localID i b)
    : (b.entries.map Node.id).Nodup ∧ (b.replacements.map Node.id).Nodup := by
  have distinct := ok.distinct
  rw [Bucket.held, List.map_append] at distinct
  exact ⟨distinct.of_append_left, distinct.of_append_right⟩

/-- A node that is not held yet is welcome where it belongs. -/
structure Guest (t : Table) (i : Fin nBuckets) (n : Node) : Prop where
  place : bucketOf t.self n.id = i
  other : n.id ≠ t.self
  absent : ∀ m ∈ (t.buckets i).entries, m.id ≠ n.id

theorem Guest.welcome (guest : Guest t i n) (present : n.ip ≠ [])
    : ∀ m, some n = some m → bucketOf t.self m.id = i ∧ m.id ≠ t.self ∧ m.ip ≠ [] := by
  rintro m ⟨⟩
  exact ⟨guest.place, guest.other, present⟩

theorem Guest.fresh {others : List Node} (guest : Guest t i n) (apart : ∀ m ∈ others, m.id ≠ n.id)
    : ∀ m, some n = some m → ∀ x ∈ (t.buckets i).entries ++ others, x.id ≠ m.id := by
  rintro m ⟨⟩ x member
  rcases List.mem_append.mp member with entry | other
  · exact guest.absent x entry
  · exact apart x other

variable {cond : Prop}

/-- A replacement is pushed to the front, and the last one may have to go. -/
theorem Ordered.addReplacement (ordered : Ordered t) (guest : Guest t i n)
    : Keeps cond t (t.addReplacement i n) := by
  have ok := ordered i
  unfold Table.addReplacement
  split
  · exact .refl ordered
  · rename_i unlisted
    have unlisted : ∀ m ∈ (t.buckets i).replacements, m.id ≠ n.id := by
      simpa [contains] using unlisted
    rcases addIP_cases t i n.ip with
      ⟨t₁, refused, same, back⟩ | ⟨t₁, added, same, present, counts⟩
    · rw [refused]
      exact same.keeps ordered fun _ exactly => (back _ exactly).symm ▸ exactly
    · have relisted (replacements : List Node) :=
        Relisted.of_set (i := i) same (t.buckets i).entries replacements
      have welcome := guest.welcome present
      simp only [added, same.replacements, same.entries, pushNode]
      by_cases room : (t.buckets i).replacements.length < maxReplacements
      · simp only [if_pos room]
        refine ordered.relist none (some n) (t.buckets i).held (relisted _) (.refl _)
          List.perm_middle ok.entries room (guest.fresh unlisted) welcome
          fun _ exactly F' shift => ?_
        exact ((counts _ exactly).2 F' shift).setNodes _ _
      · -- the list is full, so that its last node has to go
        have nonempty : (t.buckets i).replacements ≠ [] := by
          intro empty
          rw [empty] at room
          exact room (by decide)
        obtain ⟨before, last, split⟩ :=
          (List.eq_nil_or_concat' (t.buckets i).replacements).resolve_left nonempty
        have few := ok.replacements
        simp only [if_neg room]
        simp only [split, List.dropLast_concat, List.getLast?_concat]
        rw [split, List.length_append, List.length_singleton] at few
        refine ordered.relist (some last) (some n) ((t.buckets i).entries ++ before)
          ((relisted _).then (sameNodes_removeIP _ _ _)) ?_ List.perm_middle ok.entries few ?_
          welcome fun _ exactly F' shift => ?_
        · rw [Bucket.held, split, ← List.append_assoc]
          exact List.perm_append_singleton _ _
        · exact guest.fresh fun x member => unlisted x (split ▸ List.mem_append_left _ member)
        · obtain ⟨F₁, gain, loss⟩ := shift.gain_first
          exact (((counts _ exactly).2 F₁ gain).setNodes _ _).removeIP loss

/-- A node that becomes an entry takes no counted node out of the replacements. -/
def Table.Unlisted (t : Table) (n : Node) : Prop :=
  (t.buckets (bucketOf t.self n.id)).entries.length < bucketSize
  → ¬Refused t.tallies (bucketOf t.self n.id) n.ip
  → ∀ x ∈ (t.buckets (bucketOf t.self n.id)).replacements, x.id = n.id → x.key = none

/-- A new entry, or a replacement where the entries are full. -/
theorem Ordered.addEntry {push : List Node → List Node} (ordered : Ordered t)
    (guest : Guest t (bucketOf t.self n.id) n) (unlisted : cond → t.Unlisted n)
    (pushed : ∀ l, l.length < bucketSize → (push l).Perm (n :: l))
    : Keeps cond t (t.addEntry n push) := by
  have ok := ordered (bucketOf t.self n.id)
  simp only [Table.addEntry]
  split
  · exact ordered.addReplacement guest
  · rename_i notFull
    have room := Nat.not_le.mp notFull
    rcases addIP_cases t (bucketOf t.self n.id) n.ip with
      ⟨t₁, refused, same, back⟩ | ⟨t₁, added, same, present, counts⟩
    · rw [refused]
      exact same.keeps ordered fun _ exactly => (back _ exactly).symm ▸ exactly
    · obtain ⟨gone, perm, own, -⟩ :=
        deleteNode_perm (t.buckets (bucketOf t.self n.id)).replacements n.id
      simp only [added, same.entries, same.replacements]
      refine ordered.relist gone (some n) _ (.of_set same _ _)
        ((perm.append_left _).trans (List.perm_append_comm_assoc _ _ _))
        ((pushed _ room).append_right _) ?_ ((length_deleteNode_le _ _).trans ok.replacements)
        (guest.fresh (deleteNode_fresh ok.distinct_parts.2)) (guest.welcome present)
        fun allowed exactly F' shift => ?_
      · rw [(pushed _ room).length_eq]
        exact room
      · obtain ⟨taken, more⟩ := counts _ exactly
        have uncounted : gone.bind Node.key = none := by
          rcases gone with _ | x
          · rfl
          · have member := perm.mem_iff.mpr (List.mem_append_left _ (List.mem_singleton_self x))
            exact unlisted allowed room taken x member (own x rfl)
        rw [uncounted] at shift
        exact (more F' shift).setNodes _ _

/-- The node that is taken out is counted as the one it is taken for. -/
def Table.Settles (t : Table) (i : Fin nBuckets) (n : Node) : Prop :=
  (∀ x ∈ (t.buckets i).entries, x.id = n.id → x.key = n.key)
  ∧ ((∀ x ∈ (t.buckets i).entries, x.id ≠ n.id) → ∀ k, n.key = some k → t.ips.members k = none)

/-- An address of a subnet without a count is removed in vain. -/
theorem removeIP_none (counts : Counts t t.tallies)
    (none : ∀ k, n.key = some k → t.ips.members k = none)
    : t.removeIP i n.ip = t := by
  unfold removeIP
  split
  · rfl
  · rename_i wan
    have empty := none _ (counted_wan wan)
    have zero : t.tallies i (subnetKey bucketSubnet n.ip) = 0 := by
      have total := counts.table.holds.getD (subnetKey bucketSubnet n.ip)
      rw [empty] at total
      exact (Finset.sum_eq_zero_iff.mp total.symm) i (Finset.mem_univ i)
    have own := (counts.bucket i).holds (subnetKey bucketSubnet n.ip)
    rw [zero] at own
    have first : t.ips.remove n.ip = t.ips := by
      simp only [DistinctNetSet.remove]
      rw [show t.ips.members (subnetKey tableSubnet n.ip) = _ from empty]
    have second : (t.buckets i).ips.remove n.ip = (t.buckets i).ips := by
      simp only [DistinctNetSet.remove]
      rw [own]
      rfl
    rw [first, second]
    simp [setBucket]

/-- A deletion keeps the order; the limits need that the address to take out is settled. -/
theorem Ordered.deleteInBucket (ordered : Ordered t) (settles : cond → t.Settles i n)
    : Keeps cond t (t.deleteInBucket i n) := by
  have ok := ordered i
  obtain ⟨gone, perm, own, missing⟩ := deleteNode_perm (t.buckets i).entries n.id
  unfold Table.deleteInBucket
  rcases gone with _ | x
  · have absent := missing rfl
    have unchanged : deleteNode (t.buckets i).entries n.id = (t.buckets i).entries :=
      List.eraseP_of_forall_not (by simpa using absent)
    rw [unchanged]
    have same : t.setBucket i { t.buckets i with entries := (t.buckets i).entries } = t := by
      simp [Table.setBucket]
    rw [same]
    refine (sameNodes_removeIP t i n.ip).keeps ordered fun allowed exactly => ?_
    rw [removeIP_none exactly ((settles allowed).2 absent)]
    exact exactly
  · have member : x ∈ (t.buckets i).entries := perm.mem_iff.mpr (by simp)
    refine ordered.relist (some x) none _
      ((Relisted.of_set (.refl t) _ _).then (sameNodes_removeIP _ _ _)) (perm.append_right _)
      (.refl _) ((length_deleteNode_le _ _).trans ok.entries) ok.replacements
      (by rintro _ ⟨⟩) (by rintro _ ⟨⟩) fun allowed exactly F' shift => ?_
    rw [Option.bind_some, (settles allowed).1 x member (own x rfl)] at shift
    exact (exactly.setNodes _ _).removeIP shift

theorem Table.weight_le (t : Table) {x : Node} (member : x ∈ (t.buckets i).entries) (k : Bytes)
    : weight x.key k ≤ t.tallies i k :=
  weight_le_tally (List.mem_append_left _ member) k

/-- Moving an entry to the front keeps the limits if the counters follow its address. -/
theorem Ordered.toFront {t₁ : Table} {entry : Node} (ordered : Ordered t)
    (member : entry ∈ (t.buckets i).entries) (sameID : entry.id = n.id) (present : n.ip ≠ [])
    (same : SameNodes t t₁)
    (counts
      : Counts t t.tallies → ∀ F', Shift i entry.key n.key t.tallies F' → Counts t₁ F')
    : Keeps cond t (t₁.toFront i n) := by
  have ok := ordered i
  have placed := ok.placed entry (List.mem_append_left _ member)
  have perm := deleteNode_perm_of_mem ok.distinct_parts.1 member
  rw [sameID] at perm placed
  simp only [Table.toFront, same.entries, same.replacements]
  refine ordered.relist (some entry) (some n) _ (.of_set same _ _) (perm.append_right _) (.refl _)
    ?_ ok.replacements ?_ ?_ fun _ exactly F' shift => (counts exactly F' shift).setNodes _ _
  · have few := ok.entries
    rwa [perm.length_eq] at few
  · rintro m ⟨⟩ x staying
    have apart := ok.distinct
    rw [Bucket.held, ((perm.append_right _).map Node.id).nodup_iff] at apart
    intro again
    exact (List.nodup_cons.mp apart).1 (List.mem_map.mpr ⟨x, staying, again.trans sameID.symm⟩)
  · rintro m ⟨⟩
    exact ⟨placed.1, placed.2.1, present⟩

/-- What a bump leads to. If it fails for a node that is held, then for want of room for its new
address, and the same nodes are held.
-/
theorem Ordered.bumpInBucket (ordered : Ordered t) (i : Fin nBuckets) (n : Node)
    : Keeps cond t (t.bumpInBucket i n).2
      ∧ ((t.bumpInBucket i n).1 = false
        → SameNodes t (t.bumpInBucket i n).2
          ∧ ((∀ m ∈ (t.buckets i).entries, m.id ≠ n.id)
            ∨ (t.bumpInBucket i n).2.Full i n.ip)) := by
  unfold Table.bumpInBucket
  cases found : (t.buckets i).entries.find? (·.id = n.id) with
  | none => exact ⟨.refl ordered, fun _ => ⟨.refl t, .inl (by simpa using found)⟩⟩
  | some entry =>
    have member := List.mem_of_find?_eq_some found
    have sameID : entry.id = n.id := by simpa using List.find?_some found
    have located := ((ordered i).placed entry (List.mem_append_left _ member)).2.2
    dsimp only
    by_cases equal : ipEqual n.ip entry.ip = true
    · rw [if_pos equal]
      refine ⟨ordered.toFront member sameID (ne_nil_of_ipEqual equal located) (.refl t)
        fun exactly F' shift => ?_, nofun⟩
      have key : n.key = entry.key := counted_of_ipEqual equal
      rw [key] at shift
      exact shift.same ▸ exactly
    · rw [if_neg equal]
      obtain ⟨F₁, loss⟩ := exists_loss (t.weight_le member)
      have gain : Shift i none entry.key F₁ t.tallies := Shift.after_loss (fun _ _ => rfl) loss
      have same₁ := sameNodes_removeIP t i entry.ip
      rcases addIP_cases (t.removeIP i entry.ip) i n.ip with
        ⟨t₁, refused, same, back⟩ | ⟨t₁, added, same, present, counts⟩
      · have full : t₁.Full i n.ip := by
          have before := (addIP_eq_false_iff _ i n.ip).mp (congrArg Prod.fst refused)
          have after := before.addIP n.ip
          rwa [refused] at after
        have same₂ := (same₁.trans same).trans (sameNodes_addIP t₁ i entry.ip)
        simp only [refused]
        refine ⟨same₂.keeps ordered fun _ exactly => ?_, fun _ =>
          ⟨same₂, .inr (full.addIP entry.ip)⟩⟩
        have counts₁ := exactly.removeIP loss
        rw [back _ counts₁]
        -- the old address was counted, so that there is room to put it back
        have unrefused : ¬Refused F₁ i entry.ip := by
          rintro (empty | ⟨k, counted, full⟩)
          · exact located empty
          · have one : weight entry.key k = 1 := weight_pos counted
            have sum := gain.sum k
            have here := gain.own k
            rw [weight_none, Nat.add_zero, one] at sum here
            have := exactly.table.within k
            have := (exactly.bucket i).within k
            omega
        obtain ⟨t₂, added, -, counts₂⟩ := counts₁.addIP_taken unrefused
        rw [added]
        exact counts₂ _ gain
      · rw [added]
        exact ⟨ordered.toFront member sameID present (same₁.trans same) fun exactly F' shift =>
          (counts _ (exactly.removeIP loss)).2 F' (shift.after_loss loss), nofun⟩

/-- The last entry of a bucket gives way to a replacement, or is deleted. -/
theorem Ordered.replace {last : Node} (ordered : Ordered t) (pick : Nat)
    (settles
      : cond → (t.buckets i).entries.getLast?.map (·.id) = some last.id → t.Settles i last)
    : Keeps cond t (t.replace i last pick) := by
  have ok := ordered i
  simp only [Table.replace]
  split
  · exact .refl ordered
  · rename_i isLast
    have isLast := not_not.mp isLast
    rcases chosen : (t.buckets i).replacements[pick % (t.buckets i).replacements.length]? with _ | r
    · exact ordered.deleteInBucket fun allowed => settles allowed isLast
    obtain ⟨dead, found, sameID⟩ := Option.map_eq_some_iff.mp isLast
    obtain ⟨before, split⟩ := List.getLast?_eq_some_iff.mp found
    have member : r ∈ (t.buckets i).replacements := List.mem_of_getElem? chosen
    have perm := deleteNode_perm_of_mem ok.distinct_parts.2 member
    have few := ok.entries
    rw [split, List.length_append] at few
    refine ordered.relist (some dead) none
      (before ++ r :: deleteNode (t.buckets i).replacements r.id)
      ((Relisted.of_set (.refl t) _ _).then (sameNodes_removeIP _ _ _)) ?_ ?_ ?_
      ((length_deleteNode_le _ _).trans ok.replacements) nofun
      nofun fun allowed exactly F' shift => ?_
    · rw [Bucket.held, split, List.append_assoc]
      exact ((perm.append_left _).append_left _).trans List.perm_middle
    · simp [split]
    · simpa [split] using few
    · have key := (settles allowed isLast).1 dead (List.mem_of_getLast? found) sameID
      rw [Option.bind_some, key] at shift
      exact (exactly.setNodes _ _).removeIP shift

end Operations

def Table.run (t : Table) (events : List Event) : Table := events.foldl handle t

/-- A node that is not an entry yet can become one. -/
def Table.Admits (t : Table) (n : Node) : Prop :=
  n.id ≠ t.self
  → (∀ m ∈ (t.buckets (bucketOf t.self n.id)).entries, m.id ≠ n.id)
  → t.Unlisted n

/-- The event takes out of the counters what it takes out of the bucket. -/
def Table.Allows (t : Table) : Event → Prop
  | .initialized => True
  | .seen n => t.Admits n
  | .verified n => t.initDone = true → t.Admits n
  | .delete n => t.Settles (bucketOf t.self n.id) n
  | .revalidated i last reply _ _ =>
      reply = none → (t.buckets i).entries.getLast?.map (·.id) = some last.id → t.Settles i last

/-- Every event of a run is one the table allows when it comes. -/
def Table.AllowsAll (t : Table) : List Event → Prop
  | [] => True
  | event :: events => t.Allows event ∧ (t.handle event).AllowsAll events

/-- A new table satisfies the limits. -/
theorem valid_new (localID : Hash) : Valid { self := localID } := by
  refine ⟨fun i => ⟨by simp, by simp, by simp [Bucket.held], by simp [Bucket.held]⟩, ?_,
    fun i => ?_⟩
  · exact ⟨fun k => by simp [tallies, Bucket.held, entry], fun k => by
      simp [tallies, Bucket.held]⟩
  · exact ⟨fun k => rfl, fun k => Nat.zero_le _⟩

/-- A node whose address finds no room is not added. -/
theorem keeps_addEntry_full {cond : Prop} (ordered : Ordered t) (push : List Node → List Node)
    (full : t.Full (bucketOf t.self n.id) n.ip)
    : Keeps cond t (t.addEntry n push) := by
  rcases addIP_cases t (bucketOf t.self n.id) n.ip with
    ⟨t₁, refused, same, back⟩ | ⟨t₁, added, -⟩
  · have kept : Keeps cond t t₁ :=
      same.keeps ordered fun _ exactly => (back _ exactly).symm ▸ exactly
    simp only [addEntry, addReplacement, refused]
    split
    · split
      · exact .refl ordered
      · exact kept
    · exact kept
  · rw [← addIP_eq_false_iff, added] at full
    cases full

/-- A verified node; that it is admitted matters only once the table is initialised. -/
theorem Ordered.addVerifiedNode (ordered : Ordered t)
    : Keeps (t.initDone = true → t.Admits n) t (t.addVerifiedNode n) := by
  unfold Table.addVerifiedNode
  split
  · exact .refl ordered
  · rename_i done
    split
    · exact .refl ordered
    · rename_i other
      have bump : Keeps (t.initDone = true → t.Admits n) t
          (t.bumpInBucket (bucketOf t.self n.id) n).2 ∧ _ :=
        ordered.bumpInBucket (bucketOf t.self n.id) n
      split
      · rename_i t₁ bumped
        rw [bumped] at bump
        exact bump.1
      · rename_i t₁ bumped
        rw [bumped] at bump
        obtain ⟨kept, failed⟩ := bump
        obtain ⟨same, why⟩ := failed rfl
        refine kept.trans ?_
        have place : bucketOf t₁.self n.id = bucketOf t.self n.id := by rw [same.self]
        rcases why with absent | full
        · refine kept.ordered.addEntry ⟨rfl, same.self ▸ other, ?_⟩ (fun admits => ?_)
            fun l room => ?_
          · rw [place, same.entries]
            exact absent
          · unfold Table.Unlisted
            rw [place, same.entries, same.replacements, same.tallies]
            exact admits (by simpa using done) other absent
          · rw [pushNode, if_pos room]
        · rw [← place] at full
          exact keeps_addEntry_full kept.ordered _ full

/-- Every event keeps the buckets in order, and an allowed one keeps the counters exact. -/
theorem Ordered.handle (ordered : Ordered t) (event : Event)
    : Keeps (t.Allows event) t (t.handle event) := by
  cases event with
  | initialized =>
    exact ⟨rfl, ordered, fun _ counts => ⟨counts.table, counts.bucket⟩⟩
  | seen n =>
    simp only [Table.handle, Table.addSeenNode]
    split
    · exact .refl ordered
    · rename_i other
      split
      · exact .refl ordered
      · rename_i absent
        have absent : ∀ m ∈ (t.buckets (bucketOf t.self n.id)).entries, m.id ≠ n.id := by
          simpa [contains] using absent
        exact ordered.addEntry ⟨rfl, other, absent⟩ (fun admits => admits other absent) fun l _ =>
          List.perm_append_singleton n l
  | verified n => exact ordered.addVerifiedNode
  | delete n => exact ordered.deleteInBucket id
  | revalidated i last reply record pick =>
    cases reply with
    | some remoteSeq => exact (ordered.bumpInBucket i _).1
    | none => exact ordered.replace pick fun allowed => allowed rfl

/-- A whole run, by induction on the events. -/
theorem Ordered.run (ordered : Ordered t) (events : List Event)
    : Keeps (t.AllowsAll events) t (t.run events) := by
  induction events generalizing t with
  | nil => exact .refl ordered
  | cons event events ih =>
    have first := ordered.handle event
    have others := ih first.ordered
    exact ⟨others.self.trans first.self, others.ordered, fun allowed counts =>
      others.counts allowed.2 (first.counts allowed.1 counts)⟩

/-- Along every run the buckets are in order. If its events take out of the counters what they take
out of a bucket, the counters are exact and within the limits.
-/
theorem table_limits_exact (localID : Hash) (events : List Event)
    : (run { self := localID } events).self = localID
      ∧ Ordered (run { self := localID } events)
      ∧ (AllowsAll { self := localID } events → Valid (run { self := localID } events)) := by
  have start := valid_new localID
  have kept := start.buckets.run events
  exact ⟨kept.self, kept.ordered, fun allowed => ⟨kept.ordered, kept.counts allowed start.counts⟩⟩

/-- A node at the largest distance from the local node `0`, with an address in `1.2.3.0/24`. -/
def neighbour (number : Nat) : Node :=
  {
    id := BitVec.ofNat 256 (2 ^ 255 + number)
    ip := [1, 2, 3, UInt8.ofNat number]
  }

/-- The bucket of the largest distance. -/
def farthest : Fin nBuckets := ⟨16, by decide⟩

/-- Two nodes are seen, one answers from a new address, one is deleted. -/
theorem table_limits_exact_neighbours
    : Valid (run { self := 0 }
        [.seen (neighbour 1), .seen (neighbour 2),
          .revalidated farthest (neighbour 2) (some 1)
            (some { neighbour 2 with ip := [1, 2, 4, 1] }) 0,
          .delete (neighbour 1)]) := by
  refine (table_limits_exact 0 _).2.2
    ⟨?_, ?_, nofun, ⟨?_, fun absent => absurd absent ?_⟩, trivial⟩
  · intro _ _ _ _
    decide +kernel
  · intro _ _ _ _
    decide +kernel
  · decide +kernel
  · decide +kernel

/-- After the deletion of a node that is not in the table, a bucket takes a third node of a
subnet.
-/
theorem absent_node_uncounted
    : ¬ Valid (run { self := 0 }
        [.seen (neighbour 1), .seen (neighbour 2), .delete (neighbour 9),
          .seen (neighbour 3)]) := by
  intro valid
  have within := (valid.counts.bucket farthest).within [0x34, 1, 2, 3]
  revert within
  decide +kernel

end GoBinacoin.Discover
