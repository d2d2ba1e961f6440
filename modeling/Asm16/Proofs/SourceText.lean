import Asm16.Reading
import Mathlib.Data.List.TakeWhile

/-!
# Texts written line by line

`documentText` writes lines as a document. A line that ends in a carriage return gets another one
before its line feed, since reading leaves one out. The lines of a document can be written
(`writable_of_mem_sourceLines`), and what is written is read back (`sourceLines_documentText`).
-/

namespace Asm16

/-- A line before its line feed. -/
def paddedLine (raw : Bytes) : Bytes :=
  if raw.getLast? = some (byte '\r') then raw ++ [byte '\r'] else raw

/-- A document with the given lines. -/
def documentText (raws : List Bytes) : Bytes :=
  raws.flatMap fun raw => paddedLine raw ++ [byte '\n']

/-- A line that can stand in a document. -/
structure Writable (raw : Bytes) : Prop where
  not_mem : byte '\n' ∉ raw
  length_lt : (paddedLine raw).length < lineLimit

/-! ## Parts of a text -/

theorem splitOn_cons (c b : UInt8) (s : Bytes) : Bytes.splitOn c (b :: s) =
    if b = c then [] :: s.splitOn c
    else match s.splitOn c with
      | part :: more => (b :: part) :: more
      | [] => [[b]] := rfl

theorem splitOn_append {c : UInt8} {line : Bytes} (h : c ∉ line) (rest : Bytes) :
    Bytes.splitOn c (line ++ c :: rest) = line :: rest.splitOn c := by
  induction line with
  | nil => rw [List.nil_append, splitOn_cons, if_pos rfl]
  | cons b line ih =>
    obtain ⟨hb, hline⟩ := List.ne_and_not_mem_of_not_mem_cons h
    rw [List.cons_append, splitOn_cons, if_neg hb.symm, ih hline]

theorem splitOn_ne_nil (c : UInt8) (s : Bytes) : s.splitOn c ≠ [] := by
  cases s with
  | nil => exact List.cons_ne_nil _ _
  | cons b s =>
    rw [splitOn_cons]
    split
    · exact List.cons_ne_nil _ _
    · split <;> exact List.cons_ne_nil _ _

theorem not_mem_of_mem_splitOn {c : UInt8} {s part : Bytes} (h : part ∈ s.splitOn c) :
    c ∉ part := by
  induction s generalizing part with
  | nil =>
    rw [List.mem_singleton.1 h]
    exact List.not_mem_nil
  | cons b s ih =>
    rw [splitOn_cons] at h
    split at h
    · rcases List.mem_cons.1 h with rfl | h
      · exact List.not_mem_nil
      · exact ih h
    · rename_i hb
      split at h
      · rename_i first more hparts
        rw [hparts] at ih
        rcases List.mem_cons.1 h with rfl | h
        · exact List.not_mem_cons_of_ne_of_not_mem (Ne.symm hb) (ih List.mem_cons_self)
        · exact ih (List.mem_cons_of_mem _ h)
      · rw [List.mem_singleton.1 h]
        exact fun hc => hb (List.mem_singleton.1 hc).symm

/-! ## Lines of a text -/

/-- Reading leaves out what writing has added. -/
theorem chomp_paddedLine (raw : Bytes) :
    (if (paddedLine raw).getLast? = some (byte '\r') then (paddedLine raw).dropLast
      else paddedLine raw) = raw := by
  unfold paddedLine
  by_cases h : raw.getLast? = some (byte '\r')
  · simp [h]
  · simp only [if_neg h]

theorem splitOn_documentText {raws : List Bytes} (h : ∀ raw ∈ raws, Writable raw) :
    Bytes.splitOn (byte '\n') (documentText raws) = raws.map paddedLine ++ [[]] := by
  induction raws with
  | nil => rfl
  | cons raw rest ih =>
    obtain ⟨hraw, hrest⟩ := List.forall_mem_cons.1 h
    have hmem : byte '\n' ∉ paddedLine raw := by
      unfold paddedLine
      split
      · simpa using hraw.not_mem
      · exact hraw.not_mem
    rw [documentText, List.flatMap_cons, List.append_assoc, List.singleton_append,
      splitOn_append hmem, List.map_cons, List.cons_append]
    exact congrArg _ (ih hrest)

/-- What is written is read back. -/
theorem sourceLines_documentText {raws : List Bytes} (h : ∀ raw ∈ raws, Writable raw) :
    sourceLines (documentText raws) = (raws, false) := by
  have hfits : ∀ line ∈ raws.map paddedLine, decide (line.length < lineLimit) = true := by
    intro line hline
    obtain ⟨raw, hraw, rfl⟩ := List.mem_map.1 hline
    exact decide_eq_true (h raw hraw).length_lt
  simp only [sourceLines, splitOn_documentText h, List.getLast?_append, List.getLast?_singleton,
    Option.some_or, if_true, List.dropLast_concat]
  refine Prod.ext ?_ ?_
  · rw [List.takeWhile_eq_self_iff.2 hfits, List.map_map]
    refine (List.map_congr_left fun raw _ => ?_).trans (List.map_id raws)
    exact chomp_paddedLine raw
  · simp only [List.any_eq_false]
    intro line hline
    simp [hfits line hline]

/-- A line put in front of a text is its first line. -/
theorem sourceLines_append {line : Bytes} (hlf : byte '\n' ∉ line) (hcr : byte '\r' ∉ line)
    (hlen : line.length < lineLimit) (text : Bytes) :
    sourceLines (line ++ byte '\n' :: text) =
      (line :: (sourceLines text).1, (sourceLines text).2) := by
  have hlast : line.getLast? ≠ some (byte '\r') := fun h => hcr (List.mem_of_getLast? h)
  obtain ⟨part, more, hparts⟩ := List.exists_cons_of_ne_nil (splitOn_ne_nil (byte '\n') text)
  have hfits : decide (line.length < lineLimit) = true := decide_eq_true hlen
  simp only [sourceLines, splitOn_append hlf, hparts, List.getLast?_cons_cons,
    List.dropLast_cons_cons]
  split <;>
    simp only [List.takeWhile_cons, hfits, if_true, List.map_cons, if_neg hlast, List.any_cons,
      Bool.not_true, Bool.false_or]

theorem writable_of_mem_sourceLines {text raw : Bytes} (h : raw ∈ (sourceLines text).1) :
    Writable raw := by
  obtain ⟨line, hline, rfl⟩ := List.mem_map.1 h
  have hfits : line.length < lineLimit := by
    have := List.all_eq_true.1 List.all_takeWhile line hline
    simpa using this
  have hmem : byte '\n' ∉ line := by
    refine not_mem_of_mem_splitOn (s := text) ?_
    have hline := (List.takeWhile_sublist _).subset hline
    split at hline
    · exact List.dropLast_subset _ hline
    · exact hline
  by_cases hcr : line.getLast? = some (byte '\r')
  · simp only [if_pos hcr]
    obtain ⟨front, rfl⟩ := List.getLast?_eq_some_iff.1 hcr
    rw [List.dropLast_concat]
    refine ⟨fun hfront => hmem (List.mem_append_left _ hfront), ?_⟩
    unfold paddedLine
    split
    · exact hfits
    · rw [List.length_append] at hfits
      exact Nat.lt_of_le_of_lt (Nat.le_add_right _ _) hfits
  · simp only [if_neg hcr]
    refine ⟨hmem, ?_⟩
    rwa [paddedLine, if_neg hcr]

end Asm16
