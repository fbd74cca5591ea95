import GridKV.ForStd.FirstSeen
import GridKV.Model.HashRing

/-!
# Where the ring places a key

`Get` and `GetN` walk around the ring from the key and take the nodes in the order in which
they are first met (`visits`).  As long as no two nodes share a hash, that order depends
on the set of the nodes only, not on how `Update` has listed and sorted them, and leaving
nodes out of the ring leaves them out of the order (`visits_filter`).  So members with the
same view agree on every key, and a node that joins only takes keys over.  The replicas of
a key are the beginning of that order (`getN_of_update`).
-/

namespace GridKV

open Go List

namespace HashRing

variable {ring : HashRing}

/-! ### The walk -/

/-- The nodes in the order in which the walk from the key first meets them. -/
def visits (ring : HashRing) (key : GoString) : List GoString :=
  (ring.walk (ring.findNode (ring.hashHi key))).eraseDups

theorem walk_eq_rotate (idx : Nat) :
    ring.walk idx = (ring.nodes.rotate idx).map RingNode.nodeID := by
  rw [← List.filterMap_range_getElem?, length_rotate, walk]
  apply filterMap_congr
  intro i hi
  rw [getElem?_rotate (mem_range.mp hi), Nat.add_comm]

theorem findNode_lt (ring : HashRing) (hne : ring.nodes ≠ []) (hash : UInt64) :
    ring.findNode hash < ring.nodes.length := by
  unfold findNode
  dsimp only
  split
  · exact length_pos_iff.mpr hne
  · rename_i hlt
    exact Nat.lt_of_not_ge hlt

/-- Nodes at or after the key come first, then the walk wraps around. -/
theorem rotate_findNode (hash : UInt64) :
    ring.nodes.rotate (ring.findNode hash) =
      ring.nodes.filter (fun node => node.hash ≥ hash) ++
        ring.nodes.filter fun node => ! decide (node.hash ≥ hash) := by
  obtain ⟨hdrop, htake⟩ := List.findIdx_split (p := fun node => node.hash ≥ hash) ring.sorted
    fun a b hle ha => by
      simp only [ge_iff_le, decide_eq_true_eq] at ha ⊢
      exact UInt64.le_trans ha hle
  have hle : ring.nodes.findIdx (fun node => node.hash ≥ hash) ≤ ring.nodes.length :=
    findIdx_le_length
  rw [← hdrop, ← htake, ← rotate_eq_drop_append_take hle]
  unfold findNode
  dsimp only
  split
  · -- Behind the last node the walk starts over.
    rename_i hlast
    rw [Nat.le_antisymm hle hlast, rotate_zero, rotate_length]
  · rfl

/-- The walk meets a node where it first meets one of its virtual nodes. -/
theorem visits_eq (key : GoString) :
    ring.visits key =
      ((ring.nodes.eraseDups.filter (fun node => node.hash ≥ ring.hashHi key) ++
        ring.nodes.eraseDups.filter fun node => ! decide (node.hash ≥ ring.hashHi key)).map
          RingNode.nodeID).eraseDups := by
  rw [visits, walk_eq_rotate, rotate_findNode, ← List.eraseDups_map_eraseDups,
    List.eraseDups_append_filter_not]

/-- The loop of `GetN` goes on with the nodes it has not seen. -/
theorem collect_eq_take {n : Nat} {seen : List GoString} (hle : seen.eraseDups.length ≤ n)
    (ids : List GoString) :
    collect n seen.eraseDups ids = (seen ++ ids).eraseDups.take n := by
  induction ids generalizing seen with
  | nil => rw [collect, append_nil, take_of_length_le hle]
  | cons id ids ih =>
    have happend : seen ++ id :: ids = seen ++ [id] ++ ids := by simp
    have hseen := seen.eraseDups_concat id
    unfold collect
    split
    · rename_i hlt
      rw [happend]
      by_cases hid : id ∈ seen
      · rw [if_pos hid] at hseen
        rw [if_pos (mem_eraseDups.mpr hid), ← hseen, ih (hseen ▸ hle)]
      · rw [if_neg hid] at hseen
        rw [if_neg fun h => hid (mem_eraseDups.mp h), ← hseen, ih]
        rw [hseen, length_append, length_singleton]
        exact hlt
    · -- There are enough: what is collected is the beginning of everything.
      rename_i henough
      have hlength : seen.eraseDups.length = n := by omega
      rw [eraseDups_append, ← hlength, take_left]

theorem getN_eq (key : GoString) (n : Int) : ring.getN key n = (ring.visits key).take n.toNat := by
  unfold getN
  split
  · rename_i hnone
    obtain hnil | hn := hnone
    · have hwalk : ring.visits key = [] := by
        rw [visits, walk_eq_rotate, hnil, rotate_nil]
        rfl
      rw [hwalk, take_nil]
    · rw [Int.toNat_of_nonpos hn, take_zero]
  · -- Nothing has been seen at the start.
    have hstart : ([] : List GoString).eraseDups.length ≤ n.toNat := Nat.zero_le _
    exact collect_eq_take hstart _

/-- The owner is the first node the walk meets. -/
theorem get_eq (ring : HashRing) (key : GoString) :
    ring.get key = (ring.visits key).head?.getD [] := by
  rw [visits, List.head?_eraseDups, walk_eq_rotate, head?_map]
  unfold get
  split
  · rename_i hnil
    rw [hnil, rotate_nil]
    rfl
  · rename_i hne
    rw [head?_rotate (ring.findNode_lt hne _)]

/-! ### Two rings -/

/-- The virtual nodes of one ring are those of the nodes of the other that satisfy `p`. -/
theorem visits_filter_of_eraseDups {ring' : HashRing} {p : GoString → Bool} {key : GoString}
    (hhash : ring'.hashHi = ring.hashHi)
    (hnodes : ring.nodes.eraseDups = ring'.nodes.eraseDups.filter fun node => p node.nodeID) :
    ring.visits key = (ring'.visits key).filter p := by
  have hcomm : ∀ q : RingNode → Bool, ring.nodes.eraseDups.filter q =
      (ring'.nodes.eraseDups.filter q).filter fun node => p node.nodeID := by
    intro q
    rw [hnodes, filter_comm]
  have hmap : ∀ nodes : List RingNode, (nodes.filter fun node => p node.nodeID).map
      RingNode.nodeID = (nodes.map RingNode.nodeID).filter p := by
    intro nodes
    rw [filter_map]
    rfl
  rw [visits_eq, visits_eq, hhash, hcomm, hcomm, ← filter_append, hmap,
    List.eraseDups_filter]

end HashRing

namespace RingConfig

variable {cfg cfg' : RingConfig} {ids ids' : List GoString}

/-- No two nodes have virtual nodes with the same hash. -/
def DistinctHashes (cfg : RingConfig) (ids : List GoString) : Prop :=
  ∀ id ∈ ids, ∀ id' ∈ ids, ∀ v ∈ cfg.vnodes id, ∀ v' ∈ cfg.vnodes id', v.hash = v'.hash → id = id'

theorem nodeID_of_mem_vnodes {id : GoString} {v : RingNode} (h : v ∈ cfg.vnodes id) :
    v.nodeID = id := by
  obtain ⟨i, -, rfl⟩ := mem_map.mp h
  rfl

theorem mem_nodes_build {v : RingNode} :
    v ∈ (cfg.build ids).nodes ↔ v.nodeID ∈ ids ∧ v ∈ cfg.vnodes v.nodeID := by
  show v ∈ cfg.sort (ids.flatMap cfg.vnodes) ↔ _
  rw [(cfg.sort_perm _).mem_iff, mem_flatMap]
  constructor
  · rintro ⟨id, hid, hv⟩
    obtain rfl := nodeID_of_mem_vnodes hv
    exact ⟨hid, hv⟩
  · exact fun h => ⟨v.nodeID, h⟩

/-- The ring of some nodes has exactly these nodes. -/
theorem mem_build {id : GoString} : id ∈ (cfg.build ids).nodeIDs ↔ id ∈ ids := by
  rw [HashRing.nodeIDs, mem_map]
  constructor
  · rintro ⟨v, hv, rfl⟩
    exact (mem_nodes_build.mp hv).1
  · -- Every node has at least the virtual node 0.
    intro hid
    have hvnode : (⟨cfg.hashHi (id ++ [58] ++ runeString 0), id⟩ : RingNode) ∈ cfg.vnodes id :=
      mem_map.mpr ⟨0, mem_range.mpr cfg.virtualNodes_pos, rfl⟩
    exact ⟨_, mem_nodes_build.mpr ⟨hid, hvnode⟩, rfl⟩

/-- The walk meets every node. -/
theorem mem_visits_build {id key : GoString} : id ∈ (cfg.build ids).visits key ↔ id ∈ ids := by
  rw [HashRing.visits, mem_eraseDups, HashRing.walk_eq_rotate, map_rotate,
    mem_rotate]
  exact mem_build

theorem length_visits_build (key : GoString) :
    ((cfg.build ids).visits key).length = ids.toFinset.card := by
  have hnodup : ((cfg.build ids).visits key).Nodup := List.nodup_eraseDups _
  rw [← toFinset_card_of_nodup hnodup]
  congr 1
  ext id
  rw [mem_toFinset, mem_toFinset, mem_visits_build]

/-- Two rings over the same hashes, one of which has the nodes of the other that satisfy
    `p`. -/
theorem visits_filter (hhash : cfg'.hashHi = cfg.hashHi)
    (hvirtual : cfg'.virtualNodes = cfg.virtualNodes) {p : GoString → Bool}
    (hids : ∀ id, id ∈ ids ↔ id ∈ ids' ∧ p id = true) (hdistinct : cfg.DistinctHashes ids)
    (key : GoString) : (cfg.build ids).visits key = ((cfg'.build ids').visits key).filter p := by
  have hvnodes : cfg'.vnodes = cfg.vnodes := by
    funext id
    rw [vnodes, vnodes, hhash, hvirtual]
  apply HashRing.visits_filter_of_eraseDups hhash
  rw [← List.eraseDups_filter]
  refine List.eraseDups_eq_of_pairwise ?_ ?_ (cfg.build ids).sorted
    ((cfg'.build ids').sorted.sublist filter_sublist)
  · intro v
    rw [mem_filter, mem_nodes_build, mem_nodes_build, hids, hvnodes]
    tauto
  · -- Virtual nodes with the same hash belong to one node, and are the same.
    intro v hv v' hv' hle hge
    rw [mem_nodes_build] at hv hv'
    have hhashes : v.hash = v'.hash := UInt64.le_antisymm hle hge
    have hid := hdistinct _ hv.1 _ hv'.1 v hv.2 v' hv'.2 hhashes
    cases v
    cases v'
    simp_all

end RingConfig

namespace VersionedRing

variable {cfg cfg' : RingConfig} {ring ring' : VersionedRing} {version version' : Int64}
  {ids ids' : List GoString}

/-- An accepted update publishes the ring of its nodes. -/
theorem data_of_update (h : (ring.update cfg version ids).2 = true) :
    (ring.update cfg version ids).1.data = cfg.build ids := by
  unfold update at h ⊢
  by_cases hold : version ≤ ring.version
  · simp [hold] at h
  · by_cases hids : ids = []
    · have hnil : cfg.sort [] = [] := perm_nil.mp (cfg.sort_perm [])
      simp [hold, hids, RingConfig.build, hnil]
    · simp [hold, hids]

/-- **Placement depends on membership only.**  Two updates that were accepted, by the same
    ring or by two with the same hashes, and that list the same nodes: `Get` and `GetN` agree
    on every key. -/
theorem placement_eq (hhash : cfg'.hashHi = cfg.hashHi)
    (hvirtual : cfg'.virtualNodes = cfg.virtualNodes)
    (hupdate : (ring.update cfg version ids).2 = true)
    (hupdate' : (ring'.update cfg' version' ids').2 = true)
    (hids : ∀ id, id ∈ ids ↔ id ∈ ids') (hdistinct : cfg.DistinctHashes ids)
    (key : GoString) (n : Int) :
    (ring.update cfg version ids).1.data.get key =
        (ring'.update cfg' version' ids').1.data.get key ∧
      (ring.update cfg version ids).1.data.getN key n =
        (ring'.update cfg' version' ids').1.data.getN key n := by
  have hvisits := RingConfig.visits_filter hhash hvirtual (p := fun _ => true)
    (by simpa using hids) hdistinct key
  rw [filter_true] at hvisits
  rw [data_of_update hupdate, data_of_update hupdate', HashRing.get_eq, HashRing.get_eq,
    HashRing.getN_eq, HashRing.getN_eq, hvisits]
  exact ⟨rfl, rfl⟩

/-- One of the sorts that `sort.Slice` may be. -/
def byHash (nodes : List RingNode) : List RingNode :=
  nodes.insertionSort fun a b => a.hash ≤ b.hash

theorem byHash_perm (nodes : List RingNode) : (byHash nodes).Perm nodes :=
  perm_insertionSort _ nodes

theorem byHash_sorted (nodes : List RingNode) :
    (byHash nodes).Pairwise fun a b => a.hash ≤ b.hash := by
  have : Std.Total fun a b : RingNode => a.hash ≤ b.hash := ⟨fun a b => UInt64.le_total _ _⟩
  have : IsTrans RingNode fun a b => a.hash ≤ b.hash := ⟨fun a b c => UInt64.le_trans⟩
  exact pairwise_insertionSort _ nodes

/-- Two virtual nodes for each node, hashed to the length of their keys. -/
def lengthRing : RingConfig where
  hashHi key := UInt64.ofNat key.length
  configured := 2
  sort := byHash
  sort_perm := byHash_perm
  sort_sorted := byHash_sorted

/-- Nodes with names of different lengths have different hashes. -/
theorem distinctHashes_lengthRing : lengthRing.DistinctHashes [ascii "bb", ascii "a"] := by
  unfold RingConfig.DistinctHashes
  decide

/-- The same two nodes in another order, one of them twice. -/
theorem placement_eq_reordered :
    (lengthRing.newHashRing.update lengthRing 1 [ascii "bb", ascii "a"]).1.data.getN
        (ascii "k") 2 =
      (lengthRing.newHashRing.update lengthRing 2
        [ascii "a", ascii "bb", ascii "a"]).1.data.getN (ascii "k") 2 :=
  (placement_eq rfl rfl rfl rfl (by simp [or_comm]) distinctHashes_lengthRing (ascii "k") 2).2

/-- **Minimal disruption.**  When a node `x` joins, a key stays with its owner or goes to
    `x`, and the replicas other than `x` are the first of those the key had. -/
theorem placement_of_join (hhash : cfg'.hashHi = cfg.hashHi)
    (hvirtual : cfg'.virtualNodes = cfg.virtualNodes)
    (hupdate : (ring.update cfg version ids).2 = true)
    (hupdate' : (ring'.update cfg' version' ids').2 = true) {x : GoString} (hx : x ∉ ids)
    (hids : ∀ id, id ∈ ids' ↔ id = x ∨ id ∈ ids) (hdistinct : cfg.DistinctHashes ids')
    (key : GoString) (n : Int) :
    ((ring'.update cfg' version' ids').1.data.get key = x ∨
        (ring'.update cfg' version' ids').1.data.get key =
          (ring.update cfg version ids).1.data.get key) ∧
      ((ring'.update cfg' version' ids').1.data.getN key n).filter (fun id => id ≠ x) <+:
        (ring.update cfg version ids).1.data.getN key n := by
  have hothers : ∀ id, id ∈ ids ↔ id ∈ ids' ∧ decide (id ≠ x) = true := by
    intro id
    rw [hids, decide_eq_true_eq]
    constructor
    · exact fun hid => ⟨.inr hid, fun heq => hx (heq ▸ hid)⟩
    · exact fun hid => hid.1.resolve_left hid.2
  have hsub : cfg.DistinctHashes ids := fun id hid id' hid' =>
    hdistinct id ((hids id).mpr (.inr hid)) id' ((hids id').mpr (.inr hid'))
  have hvisits := RingConfig.visits_filter hhash hvirtual hothers hsub key
  rw [data_of_update hupdate, data_of_update hupdate', HashRing.get_eq, HashRing.get_eq,
    HashRing.getN_eq, HashRing.getN_eq, hvisits]
  refine ⟨?_, List.filter_take_isPrefix _ _ _⟩
  cases hwalk : (cfg'.build ids').visits key with
  | nil => exact .inr rfl
  | cons first rest =>
    by_cases hfirst : first = x
    · exact .inl hfirst
    · right
      rw [filter_cons_of_pos (by simpa using hfirst)]
      rfl

/-- The node `bb` joins `a`. -/
theorem placement_of_join_second :
    (lengthRing.newHashRing.update lengthRing 1 [ascii "bb", ascii "a"]).1.data.get (ascii "k") =
        ascii "bb" ∨
      (lengthRing.newHashRing.update lengthRing 1 [ascii "bb", ascii "a"]).1.data.get (ascii "k") =
        (lengthRing.newHashRing.update lengthRing 1 [ascii "a"]).1.data.get (ascii "k") :=
  (placement_of_join rfl rfl rfl rfl (by decide) (by simp) distinctHashes_lengthRing (ascii "k")
    2).1

/-- **Replica selection.**  On the ring of an accepted update, `GetN` picks different nodes of
    the list, as many as asked for or as there are, the owner first; asking for more adds
    nodes behind those. -/
theorem getN_of_update (hupdate : (ring.update cfg version ids).2 = true) (key : GoString)
    {n m : Int} (hn : 0 < n) (hnm : n ≤ m) :
    ((ring.update cfg version ids).1.data.getN key n).Nodup ∧
      (∀ id ∈ (ring.update cfg version ids).1.data.getN key n, id ∈ ids) ∧
      ((ring.update cfg version ids).1.data.getN key n).length =
        min n.toNat ids.toFinset.card ∧
      ((ring.update cfg version ids).1.data.getN key n).head?.getD [] =
        (ring.update cfg version ids).1.data.get key ∧
      (ring.update cfg version ids).1.data.getN key n <+:
        (ring.update cfg version ids).1.data.getN key m := by
  have hnodup : ((cfg.build ids).visits key).Nodup := List.nodup_eraseDups _
  rw [data_of_update hupdate, HashRing.getN_eq, HashRing.getN_eq, HashRing.get_eq]
  refine ⟨hnodup.sublist (take_sublist ..), ?_, ?_, ?_, ?_⟩
  · intro id hid
    exact RingConfig.mem_visits_build.mp (mem_of_mem_take hid)
  · rw [length_take, RingConfig.length_visits_build]
  · have hpos : n.toNat ≠ 0 := by omega
    rw [head?_take, if_neg hpos]
  · exact take_prefix_take_left (by omega)

/-- Three replicas of two nodes, one of which is listed twice. -/
theorem getN_of_update_three :
    ((lengthRing.newHashRing.update lengthRing 1
      [ascii "bb", ascii "a", ascii "bb"]).1.data.getN (ascii "k") 3).length = 2 :=
  (getN_of_update rfl (ascii "k") (by decide) (le_refl 3)).2.2.1.trans (by decide)

end VersionedRing

end GridKV
