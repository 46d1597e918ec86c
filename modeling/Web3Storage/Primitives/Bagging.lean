import Web3Storage.Primitives.Mmr

/-!
# Bagging peaks

The root of a mountain range from its peaks. The external library bags them; what the source relies on
is `IsBagging`, the loop it documents: the two rightmost peaks are replaced by their combination until
one is left.
-/

set_option autoImplicit false
set_option relaxedAutoImplicit false

namespace Web3Storage.Primitives

open Foundations

/-- Bagging as the library does it: no peaks are an error, one peak is the result, and of more the two
rightmost are combined first, the right-hand one passed first. -/
structure IsBagging (baggingPeaksHashes : Merge → List H256 → Option H256) : Prop where
  nil_eq : ∀ combine, baggingPeaksHashes combine [] = none
  singleton_eq : ∀ combine peak, baggingPeaksHashes combine [peak] = some peak
  concat_eq : ∀ combine peaks left right, baggingPeaksHashes combine (peaks ++ [left, right]) =
    baggingPeaksHashes combine (peaks ++ [combine.mergePeaks right left])

/-- Combine peaks into the root of their range. No peaks give the zero root. -/
def bagPeaks (blake2256 : Bytes → H256) (baggingPeaksHashes : Merge → List H256 → Option H256)
    (peaks : List H256) : H256 :=
  (baggingPeaksHashes (storageMerge blake2256) peaks).getD H256.zero

/-- Bagging of the peaks, given from the right. -/
def bagReversed (combine : Merge) : List H256 → Option H256
  | [] => none
  | [peak] => some peak
  | right :: left :: rest => bagReversed combine (combine.mergePeaks right left :: rest)
termination_by peaks => peaks.length

/-- Bagging with a list of peaks as the stack. -/
def standardBagging (combine : Merge) (peaks : List H256) : Option H256 :=
  bagReversed combine peaks.reverse

theorem standardBagging_isBagging : IsBagging standardBagging where
  nil_eq combine := by
    rw [standardBagging, List.reverse_nil, bagReversed]
  singleton_eq combine peak := by
    rw [standardBagging, List.reverse_singleton, bagReversed]
  concat_eq combine peaks left right := by
    have hreverse : (peaks ++ [left, right]).reverse = right :: left :: peaks.reverse := by simp
    have hreverse' : (peaks ++ [combine.mergePeaks right left]).reverse =
        combine.mergePeaks right left :: peaks.reverse := by simp
    rw [standardBagging, standardBagging, hreverse, hreverse', bagReversed]

/-- Bagging folds the peaks from the right, starting with the last. -/
theorem IsBagging.concat_singleton {baggingPeaksHashes : Merge → List H256 → Option H256}
    (h : IsBagging baggingPeaksHashes) (combine : Merge) (peaks : List H256) (last : H256) :
    baggingPeaksHashes combine (peaks ++ [last]) =
      some (peaks.foldr (fun peak rest ↦ combine.mergePeaks rest peak) last) := by
  induction peaks using List.reverseRecOn generalizing last with
  | nil => exact h.singleton_eq combine last
  | append_singleton peaks left ih =>
    rw [List.append_assoc, List.singleton_append, h.concat_eq, ih, List.foldr_append]
    rfl

end Web3Storage.Primitives
