import Web3Storage.Primitives.Mmr

/-!
# Hash terms

A term writes down how a hash was computed: from the bytes of a leaf, from two children, from two
peaks, or given as it is. `hash` evaluates a term and `preimages` lists what is hashed on the way. The
three prefixes tell the kinds of node apart, so two terms with one hash agree as far as they are known
(`agrees_of_hash`), whatever their shapes, if the hash function does not collide on their preimages. No
function into 32 bytes is free of collisions everywhere, so the condition names the preimages at hand.

The functions of the mountain range are polymorphic in their nodes. Over terms they give the term of
the root of some leaves (`rangeTerm`) and the term that a verifier computes from a leaf and given items
(`provenTerm`).
-/

set_option autoImplicit false
set_option relaxedAutoImplicit false

namespace Web3Storage.Primitives

open Foundations

/-- The kinds of nodes with two parts. -/
inductive PairKind
  | children
  | peaks
  deriving DecidableEq

/-- The byte before the two parts. -/
def PairKind.tag : PairKind → UInt8
  | .children => nodePrefix
  | .peaks => peakPrefix

theorem PairKind.tag_inj {kind kind' : PairKind} (h : kind.tag = kind'.tag) : kind = kind' := by
  cases kind with
  | children =>
    cases kind' with
    | children => rfl
    | peaks => cases h
  | peaks =>
    cases kind' with
    | children => cases h
    | peaks => rfl

theorem PairKind.tag_ne_leafPrefix (kind : PairKind) : leafPrefix ≠ kind.tag := by
  cases kind with
  | children => decide
  | peaks => decide

/-- How a hash was computed. -/
inductive HashTerm
  | given (hash : H256)
  | leaf (data : Bytes)
  | pair (kind : PairKind) (left right : HashTerm)

namespace HashTerm

instance : Inhabited HashTerm := ⟨.given default⟩

variable (blake2256 : Bytes → H256)

/-- The hash of a term. -/
def hash : HashTerm → H256
  | .given hash => hash
  | .leaf data => hashLeaf blake2256 data
  | .pair kind left right => hashPair blake2256 kind.tag left.hash right.hash

/-- What is hashed for two parts behind a byte. -/
def pairBytes (tag : UInt8) (left right : H256) : Bytes := tag :: (left.bytes ++ right.bytes)

/-- What is hashed for a term. -/
def preimages : HashTerm → List Bytes
  | .given _ => []
  | .leaf data => [leafPrefix :: data]
  | .pair kind left right =>
    pairBytes kind.tag (left.hash blake2256) (right.hash blake2256) ::
      (left.preimages ++ right.preimages)

/-- The leaves of a term, from left to right. -/
def leaves : HashTerm → List Bytes
  | .given _ => []
  | .leaf data => [data]
  | .pair _ left right => left.leaves ++ right.leaves

/-- No hash in a term is given. -/
def Complete : HashTerm → Prop
  | .given _ => False
  | .leaf _ => True
  | .pair _ left right => left.Complete ∧ right.Complete

/-- A term is as another says, where that one is known, and has the hashes given there. -/
def Agrees : HashTerm → HashTerm → Prop
  | term, .given hash => term.hash blake2256 = hash
  | .leaf data, .leaf data' => data = data'
  | .pair kind left right, .pair kind' left' right' =>
    kind = kind' ∧ left.Agrees left' ∧ right.Agrees right'
  | _, _ => False

variable {blake2256}

@[simp] theorem agrees_given {term : HashTerm} {hash : H256} :
    term.Agrees blake2256 (.given hash) ↔ term.hash blake2256 = hash := by
  cases term with
  | given other => rfl
  | leaf data => rfl
  | pair kind left right => rfl

theorem pairBytes_inj {tag tag' : UInt8} {left right left' right' : H256}
    (h : pairBytes tag left right = pairBytes tag' left' right') :
    tag = tag' ∧ left = left' ∧ right = right' := by
  rw [pairBytes, pairBytes, List.cons.injEq] at h
  obtain ⟨htag, h⟩ := h
  obtain ⟨hleft, hright⟩ := List.append_inj h (by rw [H256.length_bytes, H256.length_bytes])
  exact ⟨htag, H256.ext_bytes hleft, H256.ext_bytes hright⟩

/-- Terms with one hash agree. Assumes: the hash function does not collide on a set that has the
preimages of both. -/
theorem agrees_of_hash {known : Set Bytes} (hfree : Set.InjOn blake2256 known) {term other : HashTerm}
    (hcomplete : term.Complete) (hterm : ∀ bytes ∈ term.preimages blake2256, bytes ∈ known)
    (hother : ∀ bytes ∈ other.preimages blake2256, bytes ∈ known)
    (h : term.hash blake2256 = other.hash blake2256) : term.Agrees blake2256 other := by
  induction other generalizing term with
  | given hash => exact agrees_given.mpr h
  | leaf data' =>
    cases term with
    | given hash => exact hcomplete.elim
    | leaf data =>
      have hsame := hfree (hterm _ List.mem_cons_self) (hother _ List.mem_cons_self) h
      exact (List.cons.inj hsame).2
    | pair kind left right =>
      have hsame := hfree (hterm _ List.mem_cons_self) (hother _ List.mem_cons_self) h
      exact (kind.tag_ne_leafPrefix (List.cons.inj hsame).1.symm).elim
  | pair kind' left' right' ihleft ihright =>
    cases term with
    | given hash => exact hcomplete.elim
    | leaf data =>
      have hsame := hfree (hterm _ List.mem_cons_self) (hother _ List.mem_cons_self) h
      exact (kind'.tag_ne_leafPrefix (List.cons.inj hsame).1).elim
    | pair kind left right =>
      have hsame := hfree (hterm _ List.mem_cons_self) (hother _ List.mem_cons_self) h
      obtain ⟨htag, hleft, hright⟩ := pairBytes_inj hsame
      refine ⟨PairKind.tag_inj htag, ?_, ?_⟩
      · apply ihleft hcomplete.1 _ _ hleft
        · intro bytes hbytes
          exact hterm _ (List.mem_cons_of_mem _ (List.mem_append_left _ hbytes))
        · intro bytes hbytes
          exact hother _ (List.mem_cons_of_mem _ (List.mem_append_left _ hbytes))
      · apply ihright hcomplete.2 _ _ hright
        · intro bytes hbytes
          exact hterm _ (List.mem_cons_of_mem _ (List.mem_append_right _ hbytes))
        · intro bytes hbytes
          exact hother _ (List.mem_cons_of_mem _ (List.mem_append_right _ hbytes))

/-- Terms in which nothing is given are the same when they agree. -/
theorem eq_of_agrees {term other : HashTerm} (hcomplete : other.Complete)
    (h : term.Agrees blake2256 other) : term = other := by
  induction other generalizing term with
  | given hash => exact hcomplete.elim
  | leaf data' =>
    cases term with
    | given hash => exact h.elim
    | leaf data => exact congrArg HashTerm.leaf h
    | pair kind left right => exact h.elim
  | pair kind' left' right' ihleft ihright =>
    cases term with
    | given hash => exact h.elim
    | leaf data => exact h.elim
    | pair kind left right =>
      obtain ⟨rfl, hleft, hright⟩ := h
      rw [ihleft hcomplete.1 hleft, ihright hcomplete.2 hright]

/-- The hash of a term in which nothing is given is the hash of a preimage. -/
theorem Complete.exists_preimage {term : HashTerm} (h : term.Complete) :
    ∃ bytes ∈ term.preimages blake2256, term.hash blake2256 = blake2256 bytes := by
  cases term with
  | given hash => exact h.elim
  | leaf data => exact ⟨_, List.mem_cons_self, rfl⟩
  | pair kind left right => exact ⟨_, List.mem_cons_self, rfl⟩

/-! ### Terms of a range -/

/-- Combine the terms of two nodes of a mountain. -/
def merge (left right : HashTerm) : HashTerm := .pair .children left right

/-- Combine the term of a peak with that of what is bagged to its right, which is passed first. -/
def mergePeaks (right left : HashTerm) : HashTerm := .pair .peaks left right

theorem hash_merge (left right : HashTerm) :
    (merge left right).hash blake2256 =
      hashChildren blake2256 (left.hash blake2256) (right.hash blake2256) :=
  rfl

theorem hash_mergePeaks (right left : HashTerm) :
    (mergePeaks right left).hash blake2256 =
      (storageMerge blake2256).mergePeaks (right.hash blake2256) (left.hash blake2256) :=
  rfl

theorem hash_default : (default : HashTerm).hash blake2256 = default :=
  rfl

/-- What all leaves of a mountain have and combining keeps, its root has. -/
theorem treeRoot_of_leaves {property : HashTerm → Prop}
    (hmerge : ∀ left right, property left → property right → property (merge left right)) {h : ℕ}
    {terms : List HashTerm} (hlength : terms.length = 2 ^ h)
    (hterms : ∀ term ∈ terms, property term) : property (MountainRange.treeRoot merge h terms) := by
  induction h generalizing terms with
  | zero =>
    obtain ⟨term, rfl⟩ := List.length_eq_one_iff.mp hlength
    exact hterms term List.mem_cons_self
  | succ h ih =>
    have hpow : 2 ^ (h + 1) = 2 ^ h * 2 := pow_succ 2 h
    apply hmerge
    · exact ih (by rw [List.length_take]; omega) fun term hterm ↦
        hterms term (List.mem_of_mem_take hterm)
    · exact ih (by rw [List.length_drop]; omega) fun term hterm ↦
        hterms term (List.mem_of_mem_drop hterm)

/-- The root of a range of complete terms is complete. -/
theorem complete_root {bound : ℕ} {terms : List HashTerm} (hterms : ∀ term ∈ terms, term.Complete)
    {top : HashTerm} (h : MountainRange.root merge mergePeaks bound terms = some top) :
    top.Complete := by
  induction bound generalizing terms top with
  | zero => cases h
  | succ bound ih =>
    unfold MountainRange.root at h
    split_ifs at h with hpeak
    · have hlength : (terms.take (2 ^ bound)).length = 2 ^ bound := List.length_take_of_le hpeak
      have htree := treeRoot_of_leaves (fun _ _ hleft hright ↦ ⟨hleft, hright⟩) hlength
        fun term hterm ↦ hterms term (List.mem_of_mem_take hterm)
      cases hroot : MountainRange.root merge mergePeaks bound (terms.drop (2 ^ bound)) with
      | none =>
        rw [hroot] at h
        cases h
        exact htree
      | some right =>
        rw [hroot] at h
        cases h
        exact ⟨htree, ih (fun term hterm ↦ hterms term (List.mem_of_mem_drop hterm)) hroot⟩
    · exact ih hterms h

/-- The leaves of the root of a mountain are those of its terms. -/
theorem leaves_treeRoot {h : ℕ} {terms : List HashTerm} (hlength : terms.length = 2 ^ h) :
    (MountainRange.treeRoot merge h terms).leaves = terms.flatMap leaves := by
  induction h generalizing terms with
  | zero =>
    obtain ⟨term, rfl⟩ := List.length_eq_one_iff.mp hlength
    rw [List.flatMap_singleton]
    rfl
  | succ h ih =>
    have hpow : 2 ^ (h + 1) = 2 ^ h * 2 := pow_succ 2 h
    change (MountainRange.treeRoot merge h (terms.take (2 ^ h))).leaves ++
      (MountainRange.treeRoot merge h (terms.drop (2 ^ h))).leaves = _
    rw [ih (by rw [List.length_take]; omega), ih (by rw [List.length_drop]; omega),
      ← List.flatMap_append, List.take_append_drop]

/-- The leaves of the root of a range are those of its terms. -/
theorem leaves_root {bound : ℕ} {terms : List HashTerm} (hlength : terms.length < 2 ^ bound)
    {top : HashTerm} (h : MountainRange.root merge mergePeaks bound terms = some top) :
    top.leaves = terms.flatMap leaves := by
  induction bound generalizing terms top with
  | zero => cases h
  | succ bound ih =>
    have hpow : 2 ^ (bound + 1) = 2 ^ bound * 2 := pow_succ 2 bound
    unfold MountainRange.root at h
    split_ifs at h with hpeak
    · have htree := leaves_treeRoot (List.length_take_of_le hpeak)
      have hbelow : (terms.drop (2 ^ bound)).length < 2 ^ bound := by
        rw [List.length_drop]
        omega
      cases hroot : MountainRange.root merge mergePeaks bound (terms.drop (2 ^ bound)) with
      | none =>
        rw [hroot] at h
        cases h
        have hnil := (MountainRange.root_eq_none_iff merge mergePeaks hbelow).mp hroot
        rw [htree, List.take_of_length_le (List.drop_eq_nil_iff.mp hnil)]
      | some right =>
        rw [hroot] at h
        cases h
        change (MountainRange.treeRoot merge bound (terms.take (2 ^ bound))).leaves ++
          right.leaves = _
        rw [htree, ih hbelow hroot, ← List.flatMap_append, List.take_append_drop]
    · exact ih (Nat.lt_of_not_le hpeak) h

end HashTerm

/-! ### The terms of the protocol -/

variable {blake2256 : Bytes → H256}

/-- The terms of some leaves. -/
def leafTerms (leaves : List MmrLeaf) : List HashTerm := leaves.map fun leaf ↦ .leaf leaf.encode

/-- The term of the root of the range over some leaves. -/
def rangeTerm (leaves : List MmrLeaf) : Option HashTerm :=
  MountainRange.root HashTerm.merge HashTerm.mergePeaks 64 (leafTerms leaves)

/-- The term that a verifier computes from a leaf and the items of a proof. -/
def provenTerm (n index : ℕ) (proof : MmrProof) : Option HashTerm :=
  MountainRange.recompute HashTerm.merge HashTerm.mergePeaks 64 n index (.leaf proof.leaf.encode)
    (proof.items.map .given)

/-- What is hashed for the range over some leaves. -/
def rangePreimages (blake2256 : Bytes → H256) (leaves : List MmrLeaf) : List Bytes :=
  (rangeTerm leaves).elim [] (·.preimages blake2256)

/-- What a verifier hashes for a proof. -/
def provenPreimages (blake2256 : Bytes → H256) (n index : ℕ) (proof : MmrProof) : List Bytes :=
  (provenTerm n index proof).elim [] (·.preimages blake2256)

theorem map_hash_leafTerms (leaves : List MmrLeaf) :
    (leafTerms leaves).map (·.hash blake2256) = leafHashes blake2256 leaves := by
  rw [leafTerms, leafHashes, List.map_map]
  rfl

/-- The term of the root has its hash. -/
theorem hash_rangeTerm (leaves : List MmrLeaf) :
    (rangeTerm leaves).map (·.hash blake2256) =
      MountainRange.root (hashChildren blake2256) (storageMerge blake2256).mergePeaks 64
        (leafHashes blake2256 leaves) := by
  rw [rangeTerm, ← MountainRange.root_map HashTerm.hash_merge HashTerm.hash_mergePeaks
    HashTerm.hash_default, map_hash_leafTerms]

/-- The term of a verifier has the hash that it computes. -/
theorem hash_provenTerm (n index : ℕ) (proof : MmrProof) :
    (provenTerm n index proof).map (·.hash blake2256) =
      MountainRange.recompute (hashChildren blake2256) (storageMerge blake2256).mergePeaks 64 n index
        (hashLeaf blake2256 proof.leaf.encode) proof.items := by
  have hitems : (proof.items.map HashTerm.given).map (·.hash blake2256) = proof.items := by
    rw [List.map_map]
    exact List.map_id _
  rw [provenTerm, ← MountainRange.recompute_map HashTerm.hash_merge HashTerm.hash_mergePeaks, hitems]
  rfl

theorem complete_rangeTerm {leaves : List MmrLeaf} {top : HashTerm} (h : rangeTerm leaves = some top) :
    top.Complete := by
  refine HashTerm.complete_root ?_ h
  intro term hterm
  obtain ⟨leaf, -, rfl⟩ := List.mem_map.mp hterm
  trivial

theorem leaves_rangeTerm {leaves : List MmrLeaf} (hlength : leaves.length < 2 ^ 64) {top : HashTerm}
    (h : rangeTerm leaves = some top) : top.leaves = leaves.map (·.encode) := by
  have hterms : (leafTerms leaves).length < 2 ^ 64 := by rwa [leafTerms, List.length_map]
  rw [HashTerm.leaves_root hterms h, leafTerms, List.flatMap_map]
  exact List.flatMap_pure_eq_map _ _

end Web3Storage.Primitives
