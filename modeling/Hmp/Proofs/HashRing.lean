import Hmp.Spec.HashRing
import Mathlib.Data.List.Find
import Mathlib.Data.List.Sort

/-! The list that `hmp_hash_init` builds holds every node once, in the order of the keys and, among
equal keys, of the configuration. -/

namespace HMP

/-! ## Insertion by key -/

namespace HashNode

def Below (a b : HashNode) : Prop := a.key < b.key

instance : DecidableRel Below := fun a b => inferInstanceAs (Decidable (a.key < b.key))

/-- The order of the ring. -/
def Before (a b : HashNode) : Prop := a.key < b.key ∨ a.key = b.key ∧ a.nodeId < b.nodeId

theorem Before.trans {a b c : HashNode} (h₁ : a.Before b) (h₂ : b.Before c) : a.Before c := by
  rcases h₁ with h₁ | ⟨he, h₁⟩ <;> rcases h₂ with h₂ | ⟨he', h₂⟩
  · exact .inl (UInt32.lt_trans h₁ h₂)
  · exact .inl (he' ▸ h₁)
  · exact .inl (he ▸ h₂)
  · exact .inr ⟨he.trans he', h₁.trans h₂⟩

theorem Before.key_le {a b : HashNode} (h : a.Before b) : a.key ≤ b.key := by
  rcases h with h | ⟨he, -⟩
  · exact UInt32.le_of_lt h
  · exact UInt32.le_of_eq he

theorem Before.of_not_below {a x : HashNode} (h : ¬ x.Below a) (hid : a.nodeId < x.nodeId) :
    a.Before x := by
  rcases UInt32.lt_or_eq_of_le (UInt32.not_lt.mp h) with hlt | heq
  · exact .inl hlt
  · exact .inr ⟨heq, hid⟩

end HashNode

open HashNode

/-- A node of larger id goes behind those with its key. -/
theorem pairwise_orderedInsert {l : List HashNode} {x : HashNode} (h : l.Pairwise Before)
    (hid : ∀ a ∈ l, a.nodeId < x.nodeId) : (l.orderedInsert Below x).Pairwise Before := by
  induction l with
  | nil => exact List.pairwise_singleton _ _
  | cons a l ih =>
    obtain ⟨ha, hl⟩ := List.pairwise_cons.mp h
    by_cases hx : x.Below a
    · rw [List.orderedInsert_cons_of_le _ _ hx]
      refine List.pairwise_cons.mpr ⟨fun b hb => ?_, h⟩
      rcases List.mem_cons.mp hb with rfl | hb
      · exact .inl hx
      · exact Before.trans (.inl hx) (ha b hb)
    · rw [List.orderedInsert_of_not_le _ _ hx]
      refine List.pairwise_cons.mpr ⟨fun b hb => ?_, ih hl fun c hc => hid c (List.mem_cons_of_mem _ hc)⟩
      rcases (List.mem_orderedInsert _).mp hb with rfl | hb
      · exact .of_not_below hx (hid a List.mem_cons_self)
      · exact ha b hb

theorem orderedInsert_append {l : List HashNode} {x : HashNode} (r : List HashNode)
    (h : ∀ a ∈ l, ¬ x.Below a) :
    (l ++ r).orderedInsert Below x = l ++ r.orderedInsert Below x := by
  induction l with
  | nil => rfl
  | cons a l ih =>
    rw [List.cons_append, List.orderedInsert_of_not_le _ _ (h a List.mem_cons_self),
      ih fun b hb => h b (List.mem_cons_of_mem _ hb), List.cons_append]

/-- The search of the loop finds the place of an insertion: at the end, if nothing comes behind. -/
theorem orderedInsert_of_find_none {node : ℕ → HashNode} {x : HashNode} {ps : List ℕ}
    (h : ps.find? (fun p => x.Below (node p)) = none) :
    (ps.map node).orderedInsert Below x = ps.map node ++ [x] := by
  have hall : ∀ a ∈ ps.map node, ¬ x.Below a := by
    intro a ha hbelow
    obtain ⟨p, hp, rfl⟩ := List.mem_map.mp ha
    exact List.find?_eq_none.mp h p hp (decide_eq_true hbelow)
  have hinsert := orderedInsert_append [] hall
  rwa [List.append_nil] at hinsert

theorem orderedInsert_of_find_some {node : ℕ → HashNode} {x : HashNode} {ps : List ℕ} {tmp : ℕ}
    (h : ps.find? (fun p => x.Below (node p)) = some tmp) :
    ∃ as bs, ps = as ++ tmp :: bs ∧
      (ps.map node).orderedInsert Below x = as.map node ++ x :: (tmp :: bs).map node := by
  obtain ⟨htmp, as, bs, rfl, has⟩ := List.find?_eq_some_iff_append.mp h
  have hall : ∀ a ∈ as.map node, ¬ x.Below a := by
    intro a ha hbelow
    obtain ⟨p, hp, rfl⟩ := List.mem_map.mp ha
    simpa [hbelow] using has p hp
  refine ⟨as, bs, rfl, ?_⟩
  rw [List.map_append, orderedInsert_append _ hall, List.map_cons,
    List.orderedInsert_cons_of_le _ _ (of_decide_eq_true htmp)]

/-! ## The loop -/

namespace HashList

/-- The list at the head holds the nodes `l`, in this order. -/
def Holds (s : HashList) (l : List HashNode) : Prop :=
  ∃ ps, s.heads.Ring 0 ps ∧ ps.map s.node = l ∧ (∀ p ∈ ps, p < s.next) ∧ ps.length < s.next

theorem Holds.ring {s : HashList} {l : List HashNode} (h : s.Holds l) : s.ring = some l := by
  obtain ⟨ps, hring, hmap, -, hlen⟩ := h
  rw [HashList.ring, hring.entries hlen, Option.map_some, hmap]

/-- A new node has got its place among the others. -/
theorem holds_splice {s : HashList} {as bs : List ℕ} {L : ListHeads ℕ} (x : HashNode)
    (hring : L.Ring 0 (as ++ s.next :: bs)) (hlt : ∀ p ∈ as ++ bs, p < s.next)
    (hlen : (as ++ bs).length < s.next) :
    Holds { heads := L, node := Function.update s.node s.next x, next := s.next + 1 }
      (as.map s.node ++ x :: bs.map s.node) := by
  have hnode : ∀ p ∈ as ++ bs, Function.update s.node s.next x p = s.node p := fun p hp =>
    Function.update_of_ne (Nat.ne_of_lt (hlt p hp)) ..
  refine ⟨as ++ s.next :: bs, hring, ?_, fun p hp => ?_, ?_⟩
  · dsimp only
    rw [List.map_append, List.map_cons, Function.update_self,
      List.map_congr_left fun p hp => hnode p (List.mem_append_left _ hp),
      List.map_congr_left fun p hp => hnode p (List.mem_append_right _ hp)]
  · rcases List.mem_append.mp hp with hp | hp
    · exact (hlt p (List.mem_append_left _ hp)).trans (Nat.lt_succ_self _)
    · rcases List.mem_cons.mp hp with rfl | hp
      · exact Nat.lt_succ_self _
      · exact (hlt p (List.mem_append_right _ hp)).trans (Nat.lt_succ_self _)
  · simp only [List.length_append, List.length_cons] at hlen ⊢
    omega

/-- The body of the loop inserts by key. -/
theorem Holds.insert {s : HashList} {l : List HashNode} (config : HmpConfig) (i : ℕ)
    (h : s.Holds l) :
    ∃ s', s.insert config i = some s' ∧ s'.Holds (l.orderedInsert Below (hashNode config i)) := by
  obtain ⟨ps, hring, rfl, hlt, hlen⟩ := h
  have hnew : s.next ∉ 0 :: ps := by
    intro hm
    rcases List.mem_cons.mp hm with h0 | hm
    · omega
    · exact Nat.lt_irrefl _ (hlt _ hm)
  have hring' := hring.init_other hnew
  have hnode : ∀ p ∈ ps, Function.update s.node s.next (hashNode config i) p = s.node p :=
    fun p hp => Function.update_of_ne (Nat.ne_of_lt (hlt p hp)) ..
  simp only [HashList.insert, hring'.listEmpty, Function.update_self]
  by_cases hps : ps = []
  · subst hps
    exact ⟨_, rfl, @holds_splice _ [] [] _ _ (hring'.listAdd hnew) hlt hlen⟩
  · rw [if_neg (by simpa using hps), hring'.find (hlen.trans (Nat.lt_succ_self _)), Option.map_some]
    have hsearch : ps.find? (fun p =>
          (hashNode config i).key < (Function.update s.node s.next (hashNode config i) p).key) =
        ps.find? fun p => (hashNode config i).Below (s.node p) :=
      List.find?_congr fun p hp => by rw [hnode p hp]; rfl
    rw [hsearch]
    cases hfind : ps.find? fun p => (hashNode config i).Below (s.node p) with
    | none =>
      have hend := hring'
      rw [← List.append_nil ps] at hend
      have hadd := hend.listAddTail (by simpa using hnew) (b := 0) (r := []) rfl
      refine ⟨_, rfl, ?_⟩
      rw [orderedInsert_of_find_none hfind]
      exact holds_splice _ hadd (by simpa using hlt) (by simpa using hlen)
    | some tmp =>
      obtain ⟨as, bs, rfl, hinsert⟩ := orderedInsert_of_find_some hfind
      have hadd := hring'.listAddTail hnew (b := tmp) (r := bs ++ [0]) rfl
      refine ⟨_, rfl, ?_⟩
      rw [hinsert]
      exact holds_splice _ hadd hlt hlen

end HashList

/-- After `n` rounds the list holds the first `n` nodes. -/
theorem hashInsert_range (config : HmpConfig) (L : ListHeads ℕ) (n : ℕ) :
    ∃ s l, (List.range n).foldlM (HashList.insert config)
        { heads := L.initListHead 0, node := fun _ => { key := 0, nodeId := 0 } } = some s ∧
      s.Holds l ∧ l.Pairwise Before ∧ l.Perm ((List.range n).map (hashNode config)) := by
  induction n with
  | zero =>
    exact ⟨_, [], rfl, ⟨[], ListHeads.ring_init, rfl, by simp, Nat.one_pos⟩, .nil, .refl _⟩
  | succ n ih =>
    obtain ⟨s, l, hs, hholds, hsorted, hperm⟩ := ih
    obtain ⟨s', hs', hholds'⟩ := hholds.insert config n
    refine ⟨s', _, ?_, hholds', pairwise_orderedInsert hsorted fun a ha => ?_, ?_⟩
    · rw [List.range_succ, List.foldlM_append, hs]
      simpa using hs'
    · obtain ⟨k, hk, rfl⟩ := List.mem_map.mp (hperm.mem_iff.mp ha)
      exact List.mem_range.mp hk
    · rw [List.range_succ, List.map_append]
      exact ((List.perm_orderedInsert _ _ _).trans (hperm.cons _)).trans
        (List.perm_append_singleton _ _).symm

theorem hashRing_spec (config : HmpConfig) (L : ListHeads ℕ) :
    ∃ ring, hashRing config L = some ring ∧ ring.Pairwise Before ∧
      ring.Perm ((List.range config.nodeCnt).map (hashNode config)) := by
  obtain ⟨s, l, hs, hholds, hsorted, hperm⟩ := hashInsert_range config L config.nodeCnt
  exact ⟨l, by rw [hashRing, hmpHashInit, hs, Option.bind_some, hholds.ring], hsorted, hperm⟩

/-! ## Two configurations of the same nodes -/

/-- The nodes in the order of the ring. -/
theorem ring_endpoints {config : HmpConfig} {ring : List HashNode} (hsorted : ring.Pairwise Before)
    (hperm : ring.Perm ((List.range config.nodeCnt).map (hashNode config))) :
    (ring.map fun h => config.endpoint h.nodeId).Perm config.endpoints ∧
      (ring.map fun h => config.endpoint h.nodeId).Pairwise
        (fun d e => endpointKey d ≤ endpointKey e) := by
  have hkey : ∀ h ∈ ring, endpointKey (config.endpoint h.nodeId) = h.key := by
    intro h hh
    obtain ⟨i, -, rfl⟩ := List.mem_map.mp (hperm.mem_iff.mp hh)
    rfl
  refine ⟨?_, List.pairwise_map.mpr (hsorted.imp_of_mem fun ha hb hab => ?_)⟩
  · have := hperm.map fun h => config.endpoint h.nodeId
    rwa [List.map_map] at this
  · rw [hkey _ ha, hkey _ hb]
    exact hab.key_le

/-- The ring is ascending in the keys, holds one entry for each node, keeps the order of the
configuration among equal keys, and depends on nothing but the nodes if their keys are distinct. -/
theorem hash_ring_sorted (config : HmpConfig) (L : ListHeads ℕ) :
    ∃ ring, hashRing config L = some ring ∧
      ring.Pairwise (fun a b => a.key ≤ b.key) ∧
      ring.Perm ((List.range config.nodeCnt).map (hashNode config)) ∧
      ring.Pairwise (fun a b => a.key = b.key → a.nodeId < b.nodeId) ∧
      ∀ config' L' ring', hashRing config' L' = some ring' →
        config'.endpoints.Perm config.endpoints → (config.endpoints.map endpointKey).Nodup →
        ring'.map (fun h => config'.endpoint h.nodeId) =
          ring.map fun h => config.endpoint h.nodeId := by
  obtain ⟨ring, hring, hsorted, hperm⟩ := hashRing_spec config L
  refine ⟨ring, hring, hsorted.imp Before.key_le, hperm, hsorted.imp fun hab he => ?_, ?_⟩
  · rcases hab with hlt | ⟨-, hid⟩
    · exact absurd (he ▸ hlt) (UInt32.lt_irrefl _)
    · exact hid
  · intro config' L' ring' hring' hnodes hnodup
    obtain ⟨ring'', heq, hsorted', hperm'⟩ := hashRing_spec config' L'
    obtain rfl : ring' = ring'' := Option.some.inj (hring'.symm.trans heq)
    obtain ⟨hp, hs⟩ := ring_endpoints hsorted hperm
    obtain ⟨hp', hs'⟩ := ring_endpoints hsorted' hperm'
    refine List.Perm.eq_of_pairwise (fun a b ha hb hab hba => ?_) hs' hs
      (hp'.trans (hnodes.trans hp.symm))
    exact List.inj_on_of_nodup_map hnodup ((hp'.trans hnodes).mem_iff.mp ha) (hp.mem_iff.mp hb)
      (UInt32.le_antisymm hab hba)

/-- The two nodes of `config.xml`, in the order that `swap` says. -/
def sampleNodes (swap : Bool) : HmpConfig :=
  { nodeInfos := fun i => { addr := if (i = 0) = swap then "192.168.31.183" else "192.168.31.182"
                            port := 2345 }
    curnodeId := 0, nodeCnt := 2 }

/-- Both orders give the same list of nodes. -/
theorem hash_ring_sample :
    ∃ ring ring', hashRing (sampleNodes false) ⟨id, id⟩ = some ring ∧
      hashRing (sampleNodes true) ⟨id, id⟩ = some ring' ∧
      ring'.map (fun h => (sampleNodes true).endpoint h.nodeId) =
        ring.map fun h => (sampleNodes false).endpoint h.nodeId := by
  obtain ⟨ring, hring, -, -, -, horder⟩ := hash_ring_sorted (sampleNodes false) ⟨id, id⟩
  obtain ⟨ring', hring', -⟩ := hashRing_spec (sampleNodes true) ⟨id, id⟩
  exact ⟨ring, ring', hring, hring', horder _ _ _ hring' (by decide) (by decide)⟩

end HMP
