import DiceLaw.Table.Convolution

/-!
# Sums of a random number of samples

A table is sampled as many times as an outcome of another table says, and the samples are added.

## Main definitions

* `Table.addSamples`: more samples added to a sum of samples
* `Table.sumSamples`: the sums for ascending counts, each grown from the one before
* `Table.sampleSum`, `Table.sampleSumAll`: sums of a random number of samples
-/

namespace DiceLaw

namespace Table

/-- A sum with the given number of independent samples added. -/
def addSamples (sample : Table) : Nat → Table → Table
  | 0, t => t
  | n + 1, t => addSamples sample n (combine (· + ·) t sample)

/-- The sums of samples for counts in ascending order, each with its weight. The sum of `done`
samples is at hand, and every sum is grown from the one before. -/
def sumSamples (sample : Table) (sum : Table) (done : Nat) : List Entry → Table
  | [] => empty
  | (count, w) :: rest =>
    let grown := addSamples sample (count.toNat - done) sum
    grown.scale w + sumSamples sample grown count.toNat rest

/-- The sum of as many independent samples as an outcome of `count` says. Counts below zero are
refused, the least one first. -/
def sampleSum (count sample : Table) : Except LawError Table :=
  match count.entries.head? with
  | some (least, _) =>
    if least < 0 then .error (.negativeCount least)
    else .ok (sumSamples sample (sure 0) 0 count.entries)
  | none => .ok empty

/-- Sums of samples from left to right: each sum counts the samples of the next table. -/
def sampleSumAll (tables : List Table) : Except LawError Table :=
  chain sampleSum tables

end Table

end DiceLaw
