import Asm16.Proofs.Lexing
import Mathlib.Data.List.SplitBy

/-!
# The words of a text

A text is cut into its words, the maximal runs of word bytes, and the bytes between them
(`pieces`). Every text is empty, or begins with a byte of no word, or with a word that ends there;
arguments about words go by these cases (`textInduction`).

Substitution acts on the pieces one by one (`replaceWord_eq_flatMap`). A piece that it puts in keeps
its distance to the words beside it, so the words of the result are the words of the text with those
of the replacement in place of the key (`words_replaceWord`). White space at the ends of a text
belongs to no word (`words_trim`).
-/

namespace Asm16

/-- Two bytes side by side are of one word. -/
def joins (a b : UInt8) : Bool := isWordByte a && isWordByte b

/-- A text cut into its words and the bytes between them, one by one. -/
def pieces (s : Bytes) : List Bytes := s.splitBy joins

/-- The words of a text, in order. -/
def words (s : Bytes) : List Bytes := (pieces s).filter (·.all isWordByte)

/-- A run of word bytes. -/
structure IsWord (w : Bytes) : Prop where
  ne_nil : w ≠ []
  all : ∀ c ∈ w, isWordByte c = true

theorem not_isWord_cons {c : UInt8} (hc : isWordByte c = false) (rest : Bytes) :
    ¬IsWord (c :: rest) := by
  intro h
  rw [h.all c List.mem_cons_self] at hc
  cases hc

theorem isWord_of_isDefineKey {key : Bytes} (h : isDefineKey key = true) : IsWord key := by
  cases key with
  | nil => cases h
  | cons c rest =>
    obtain ⟨hc, hrest⟩ := Bool.and_eq_true_iff.1 h
    have hstart : isWordByte c = true := by
      unfold isNameStart at hc
      unfold isWordByte
      grind
    exact ⟨List.cons_ne_nil c rest,
      List.forall_mem_cons.2 ⟨hstart, fun d hd => List.all_eq_true.1 hrest d hd⟩⟩

/-! ## Cutting a text -/

section Cutting

variable {c : UInt8} {w rest s t : Bytes}

theorem pieces_append (h : ∀ a ∈ s.getLast?, ∀ b ∈ t.head?, joins a b = false) :
    pieces (s ++ t) = pieces s ++ pieces t :=
  List.splitBy_append h

@[simp] theorem pieces_nil : pieces [] = [] := rfl

theorem pieces_cons (hc : isWordByte c = false) (rest : Bytes) :
    pieces (c :: rest) = [c] :: pieces rest := by
  refine pieces_append (s := [c]) fun a ha b _ => ?_
  obtain rfl := Option.some.inj ha
  simp [joins, hc]

theorem pieces_of_isWord (hw : IsWord w) : pieces w = [w] := by
  refine List.splitBy_of_isChain hw.ne_nil (List.Pairwise.isChain ?_)
  refine List.pairwise_of_forall_mem_list fun a ha b hb => ?_
  simp [joins, hw.all a ha, hw.all b hb]

theorem pieces_isWord_append (hw : IsWord w)
    (hr : ∀ c, rest.head? = some c → isWordByte c = false) :
    pieces (w ++ rest) = w :: pieces rest := by
  rw [pieces_append, pieces_of_isWord hw, List.singleton_append]
  intro a _ b hb
  simp [joins, hr b hb]

/-- A text that begins with a byte of a word begins with a word that ends there. -/
theorem exists_isWord_append {c : UInt8} (hc : isWordByte c = true) (t : Bytes) :
    ∃ w rest, c :: t = w ++ rest ∧ IsWord w ∧
      ∀ d, rest.head? = some d → isWordByte d = false := by
  refine ⟨c :: t.takeWhile isWordByte, t.dropWhile isWordByte, ?_, ⟨List.cons_ne_nil _ _, ?_⟩,
    head?_dropWhile isWordByte t⟩
  · rw [List.cons_append, List.takeWhile_append_dropWhile]
  · exact List.forall_mem_cons.2 ⟨hc, List.all_eq_true.1 List.all_takeWhile⟩

/-- A text is empty, or begins with a byte of no word, or with a word that ends there. -/
theorem textInduction {motive : Bytes → Prop} (nil : motive [])
    (cons : ∀ c rest, isWordByte c = false → motive rest → motive (c :: rest))
    (append : ∀ w rest, IsWord w → (∀ c, rest.head? = some c → isWordByte c = false) →
      motive rest → motive (w ++ rest)) (s : Bytes) : motive s := by
  induction hn : s.length using Nat.strongRecOn generalizing s with
  | ind n ih =>
    cases s with
    | nil => exact nil
    | cons c rest =>
      cases hc : isWordByte c with
      | false => exact cons c rest hc (ih rest.length (by simp [← hn]) rest rfl)
      | true =>
        obtain ⟨w, more, hsplit, hw, hr⟩ := exists_isWord_append hc rest
        have hlen : 0 < w.length := List.length_pos_of_ne_nil hw.ne_nil
        rw [hsplit] at hn ⊢
        refine append w more hw hr (ih more.length ?_ more rfl)
        rw [← hn, List.length_append]
        omega

end Cutting

/-! ## The words of joined texts -/

section Words

variable {c : UInt8} {w rest s t : Bytes}

@[simp] theorem words_nil : words [] = [] := rfl

theorem words_cons (hc : isWordByte c = false) (rest : Bytes) : words (c :: rest) = words rest := by
  simp [words, pieces_cons hc, hc]

theorem words_of_isWord (hw : IsWord w) : words w = [w] := by
  rw [words, pieces_of_isWord hw]
  exact List.filter_eq_self.2 fun p hp =>
    List.mem_singleton.1 hp ▸ List.all_eq_true.2 hw.all

theorem words_isWord_append (hw : IsWord w)
    (hr : ∀ c, rest.head? = some c → isWordByte c = false) :
    words (w ++ rest) = w :: words rest := by
  rw [words, pieces_isWord_append hw hr, List.filter_cons_of_pos]
  · rfl
  · exact List.all_eq_true.2 hw.all

/-- Words end at a byte of no word. -/
theorem words_append (s : Bytes) (ht : ∀ c, t.head? = some c → isWordByte c = false) :
    words (s ++ t) = words s ++ words t := by
  rw [words, pieces_append, List.filter_append]
  · rfl
  · intro a _ b hb
    simp [joins, ht b hb]

/-- Bytes of no word around a text change nothing about its words. -/
theorem words_surrounded {front back : Bytes} (hf : ∀ c ∈ front, isWordByte c = false)
    (hb : ∀ c ∈ back, isWordByte c = false) (s : Bytes) : words (front ++ s ++ back) = words s := by
  have hback : words back = [] := by
    induction back with
    | nil => rfl
    | cons c rest ih =>
      obtain ⟨hc, hrest⟩ := List.forall_mem_cons.1 hb
      rw [words_cons hc, ih hrest]
  rw [words_append _ fun c hc => hb c (List.mem_of_head? hc), hback, List.append_nil]
  induction front with
  | nil => rfl
  | cons c rest ih =>
    obtain ⟨hc, hrest⟩ := List.forall_mem_cons.1 hf
    rw [List.cons_append, words_cons hc, ih hrest]

end Words

/-! ## Substitution -/

section Substitution

variable {key value : Bytes}

theorem replaceWordFrom_nil (inside : Bool) : replaceWordFrom key value inside [] = [] := by
  rw [replaceWordFrom]

theorem replaceWordFrom_of_eq_some {inside : Bool} {c : UInt8} {rest after : Bytes}
    (h : (if inside || key.isEmpty then none else afterWord? key (c :: rest)) = some after) :
    replaceWordFrom key value inside (c :: rest) =
      value ++ replaceWordFrom key value true after := by
  rw [replaceWordFrom]
  split
  · rename_i after' h'
    rw [Option.some.inj (h.symm.trans h')]
  · rename_i h'
    cases h.symm.trans h'

theorem replaceWordFrom_of_eq_none {inside : Bool} {c : UInt8} {rest : Bytes}
    (h : (if inside || key.isEmpty then none else afterWord? key (c :: rest)) = none) :
    replaceWordFrom key value inside (c :: rest) =
      c :: replaceWordFrom key value (isWordByte c) rest := by
  rw [replaceWordFrom]
  split
  · rename_i h'
    cases h.symm.trans h'
  · rfl

/-- Inside a word nothing is substituted. -/
theorem replaceWordFrom_inside {w rest : Bytes} (hw : ∀ c ∈ w, isWordByte c = true) :
    replaceWordFrom key value true (w ++ rest) = w ++ replaceWordFrom key value true rest := by
  induction w with
  | nil => rfl
  | cons c w ih =>
    obtain ⟨hc, hw⟩ := List.forall_mem_cons.1 hw
    rw [List.cons_append, replaceWordFrom_of_eq_none (by simp), hc, ih hw]
    rfl

/-- What follows the key as a word : the key is the whole word at the front. -/
theorem afterWord?_append (hkey : IsWord key) {w rest : Bytes} (hw : IsWord w)
    (hr : ∀ c, rest.head? = some c → isWordByte c = false) :
    afterWord? key (w ++ rest) = if w = key then some rest else none := by
  have htail : rest.head?.any isWordByte = false := by
    cases hhead : rest.head? with
    | none => rfl
    | some c => exact hr c hhead
  unfold afterWord? Bytes.after?
  split
  · rename_i after hafter
    split at hafter
    · rename_i hprefix
      obtain ⟨more, hmore⟩ := List.isPrefixOf_iff_prefix.1 hprefix
      obtain rfl : more = after := by
        rw [← hmore, List.drop_left] at hafter
        exact Option.some.inj hafter
      by_cases hnext : more.head?.any isWordByte = true
      · rw [if_pos hnext, if_neg]
        rintro rfl
        obtain rfl := List.append_cancel_left hmore
        rw [htail] at hnext
        cases hnext
      · -- both runs end before a byte of no word, so they are the same run
        have hstop : ∀ c, more.head? = some c → isWordByte c = false := by
          intro c hc
          simpa [hc] using hnext
        have hsame : w = key := by
          rw [← takeWhile_append_of_head? hw.all hr, ← hmore,
            takeWhile_append_of_head? hkey.all hstop]
        subst hsame
        rw [if_neg hnext, if_pos rfl, List.append_cancel_left hmore]
    · cases hafter
  · rename_i hnone
    rw [if_neg]
    rintro rfl
    simp at hnone

theorem afterWord?_cons (hkey : IsWord key) {c : UInt8} (hc : isWordByte c = false) (rest : Bytes) :
    afterWord? key (c :: rest) = none := by
  obtain ⟨k, more, rfl⟩ := List.exists_cons_of_ne_nil hkey.ne_nil
  have hk : k ≠ c := by
    rintro rfl
    exact not_isWord_cons hc more hkey
  simp [afterWord?, Bytes.after?, hk]

theorem replaceWordFrom_cons (hkey : IsWord key) {c : UInt8} (hc : isWordByte c = false)
    (inside : Bool) (rest : Bytes) :
    replaceWordFrom key value inside (c :: rest) = c :: replaceWord key value rest := by
  rw [replaceWordFrom_of_eq_none (by simp [afterWord?_cons hkey hc]), hc, replaceWord]

/-- Behind a word it makes no difference that there is one. -/
theorem replaceWordFrom_eq (hkey : IsWord key) (inside : Bool) {rest : Bytes}
    (hr : ∀ c, rest.head? = some c → isWordByte c = false) :
    replaceWordFrom key value inside rest = replaceWord key value rest := by
  cases rest with
  | nil => rw [replaceWord, replaceWordFrom_nil, replaceWordFrom_nil]
  | cons c rest =>
    rw [replaceWord, replaceWordFrom_cons hkey (hr c rfl), replaceWordFrom_cons hkey (hr c rfl)]

theorem replaceWord_append (hkey : IsWord key) {w rest : Bytes} (hw : IsWord w)
    (hr : ∀ c, rest.head? = some c → isWordByte c = false) :
    replaceWord key value (w ++ rest) =
      (if w = key then value else w) ++ replaceWord key value rest := by
  have hafter := afterWord?_append hkey hw hr
  obtain ⟨c, more, rfl⟩ := List.exists_cons_of_ne_nil hw.ne_nil
  obtain ⟨hc, hmore⟩ := List.forall_mem_cons.1 hw.all
  have hne : key.isEmpty = false := by simpa using hkey.ne_nil
  by_cases hkw : c :: more = key
  · rw [if_pos hkw] at hafter ⊢
    rw [replaceWord, List.cons_append, replaceWordFrom_of_eq_some (by simpa [hne] using hafter),
      replaceWordFrom_eq hkey _ hr]
  · rw [if_neg hkw] at hafter ⊢
    rw [replaceWord, List.cons_append, replaceWordFrom_of_eq_none (by simpa [hne] using hafter), hc,
      replaceWordFrom_inside hmore, replaceWordFrom_eq hkey _ hr]
    rfl

/-- Substitution acts on the pieces of a text one by one. -/
theorem replaceWord_eq_flatMap (hkey : IsWord key) (s : Bytes) :
    replaceWord key value s = (pieces s).flatMap fun p => if p = key then value else p := by
  induction s using textInduction with
  | nil => rw [replaceWord, replaceWordFrom_nil, pieces_nil, List.flatMap_nil]
  | cons c rest hc ih =>
    have hne : [c] ≠ key := by
      rintro rfl
      exact not_isWord_cons hc [] hkey
    rw [replaceWord, replaceWordFrom_cons hkey hc, ih, pieces_cons hc, List.flatMap_cons,
      if_neg hne, List.singleton_append]
  | append w rest hw hr ih =>
    rw [replaceWord_append hkey hw hr, ih, pieces_isWord_append hw hr, List.flatMap_cons]

theorem head?_replaceWord (hkey : IsWord key) {rest : Bytes}
    (hr : ∀ c, rest.head? = some c → isWordByte c = false) :
    ∀ c, (replaceWord key value rest).head? = some c → isWordByte c = false := by
  cases rest with
  | nil => simp [replaceWord, replaceWordFrom_nil]
  | cons d rest =>
    intro c hc
    rw [replaceWord, replaceWordFrom_cons hkey (hr d rfl)] at hc
    exact hr c hc

/-- The words after a substitution are those of the text, with the words of the replacement in place
of the key. -/
theorem words_replaceWord (hkey : IsWord key) (s : Bytes) :
    words (replaceWord key value s) =
      (words s).flatMap fun w => if w = key then words value else [w] := by
  induction s using textInduction with
  | nil => rw [replaceWord, replaceWordFrom_nil, words_nil, List.flatMap_nil]
  | cons c rest hc ih =>
    rw [replaceWord, replaceWordFrom_cons hkey hc, words_cons hc, words_cons hc, ih]
  | append w rest hw hr ih =>
    rw [replaceWord_append hkey hw hr, words_append _ (head?_replaceWord hkey hr), ih,
      words_isWord_append hw hr, List.flatMap_cons, apply_ite words, words_of_isWord hw]

/-- A text without the key stays as it is. -/
theorem replaceWord_of_not_mem (hkey : IsWord key) {s : Bytes} (h : key ∉ words s) :
    replaceWord key value s = s := by
  have hpiece : ∀ p ∈ pieces s, (if p = key then value else p) = p := by
    intro p hp
    rw [if_neg]
    rintro rfl
    exact h (List.mem_filter.2 ⟨hp, List.all_eq_true.2 hkey.all⟩)
  rw [replaceWord_eq_flatMap hkey, List.flatMap_def, List.map_congr_left hpiece, List.map_id']
  exact List.flatten_splitBy joins s

end Substitution

/-! ## White space around a text -/

/-- Bytes of white space characters. -/
theorem isWordByte_of_mem_blanks : ∀ front ∈ blanks, ∀ c ∈ front, isWordByte c = false := by
  decide +kernel

theorem dropAll_of_none {fronts : List Bytes} {s : Bytes} (h : afterAny? fronts s = none) :
    dropAll fronts s = s := by
  rw [dropAll]
  split
  · rfl
  · rename_i ht
    rw [h] at ht
    cases ht

theorem dropAll_of_some {fronts : List Bytes} {s t : Bytes} (h : afterAny? fronts s = some t) :
    dropAll fronts s = dropAll fronts t := by
  rw [dropAll]
  split
  · rename_i hnone
    rw [h] at hnone
    cases hnone
  · rename_i u hu
    rw [h] at hu
    rw [Option.some.inj hu]

/-- What is cut off the beginning of a text consists of the sequences that are cut off. -/
theorem exists_dropAll {fronts : List Bytes} {p : UInt8 → Prop}
    (h : ∀ front ∈ fronts, ∀ c ∈ front, p c) (s : Bytes) :
    ∃ x, s = x ++ dropAll fronts s ∧ ∀ c ∈ x, p c := by
  fun_induction dropAll fronts s with
  | case1 s _ => exact ⟨[], rfl, by simp⟩
  | case2 s t ht ih =>
    obtain ⟨x, hx, hp⟩ := ih
    obtain ⟨front, hmem, hfront⟩ := List.exists_of_findSome?_eq_some ht
    split at hfront
    · cases hfront
    · unfold Bytes.after? at hfront
      split at hfront
      · rename_i hprefix
        have hs : s = front ++ t := by
          rw [← Option.some.inj hfront]
          exact (List.prefix_iff_eq_append.1 (List.isPrefixOf_iff_prefix.1 hprefix)).symm
        refine ⟨front ++ x, by rw [hs, List.append_assoc, ← hx], ?_⟩
        exact List.forall_mem_append.2 ⟨h front hmem, hp⟩
      · cases hfront

/-- Trimming cuts off bytes of white space characters at both ends. -/
theorem exists_trim {p : UInt8 → Prop} (h : ∀ front ∈ blanks, ∀ c ∈ front, p c) (s : Bytes) :
    ∃ front back, s = front ++ trim s ++ back ∧ (∀ c ∈ front, p c) ∧ ∀ c ∈ back, p c := by
  obtain ⟨front, hfront, hf⟩ := exists_dropAll h s
  have hreversed : ∀ front ∈ blanks.map List.reverse, ∀ c ∈ front, p c := by
    intro x hx c hc
    obtain ⟨y, hy, rfl⟩ := List.mem_map.1 hx
    exact h y hy c (List.mem_reverse.1 hc)
  obtain ⟨back, hback, hb⟩ := exists_dropAll hreversed (dropAll blanks s).reverse
  refine ⟨front, back.reverse, ?_, hf, fun c hc => hb c (List.mem_reverse.1 hc)⟩
  calc s = front ++ (dropAll blanks s).reverse.reverse := by rw [List.reverse_reverse, ← hfront]
    _ = front ++ trim s ++ back.reverse := by
      rw [hback, List.reverse_append, List.append_assoc]
      rfl

theorem words_trim (s : Bytes) : words (trim s) = words s := by
  obtain ⟨front, back, hs, hf, hb⟩ := exists_trim isWordByte_of_mem_blanks s
  conv_rhs => rw [hs]
  exact (words_surrounded hf hb _).symm

end Asm16
