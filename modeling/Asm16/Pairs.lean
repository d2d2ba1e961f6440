/-!
# Sequences of pairs

Sequences are chained and filtered, and a reader may break off early. `Pairs.take` tells what the
reader gets and how many pairs had to be drawn from the sources for it.
-/

namespace Asm16.Pairs

variable {α : Type}

/-- Some sequences one after another. -/
def chain (seqs : List (List α)) : List α := seqs.flatten

/-- Draws from a sequence up to the `n`-th element that passes; with `n` zero, which no element is
counted as, to its end. Returns the elements taken and the number drawn. -/
def take (keep : α → Bool) (n : Nat) : List α → List α × Nat
  | [] => ([], 0)
  | x :: rest =>
    if keep x then
      if n = 1 then ([x], 1)
      else
        let (taken, drawn) := take keep (n - 1) rest
        (x :: taken, drawn + 1)
    else
      let (taken, drawn) := take keep n rest
      (taken, drawn + 1)

/-- Without a number, all elements that pass are taken and all are drawn. -/
theorem take_zero (keep : α → Bool) (xs : List α) :
    take keep 0 xs = (xs.filter keep, xs.length) := by
  induction xs with
  | nil => rfl
  | cons x rest ih => by_cases h : keep x <;> simp [take, h, ih]

end Asm16.Pairs
