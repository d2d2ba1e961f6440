import Asm16.Proofs.Applied
import Asm16.Proofs.Words

/-!
# Whole words

What `pieces` makes of a text is said here without it : words and single bytes of no word, so that
no two words stand side by side (`WordCut`). There is one such cut of a text (`wordCut_iff`).

A text is rewritten word by word if the bytes between the words stay. Whatever then stands in place
of a word keeps its distance to the words beside it, so the new text is cut where the old one was,
and within what is new (`wordCut_flatMap`). The substitution of a define is of this kind : it takes
the key for a whole word only, and joins no two words even if the replacement is empty
(`Define.replace_whole_words`).
-/

namespace Asm16

/-! ## The cut of a text -/

/-- A text cut into words and the single bytes between them. No word stands beside another, so each
is as long as it can be. -/
structure WordCut (s : Bytes) (ps : List Bytes) : Prop where
  flatten_eq : ps.flatten = s
  isPiece : ∀ p ∈ ps, IsWord p ∨ ∃ c, isWordByte c = false ∧ p = [c]
  apart : ps.IsChain fun p q => ¬(IsWord p ∧ IsWord q)

namespace WordCut

variable {s w : Bytes} {ps : List Bytes}

theorem tail {p : Bytes} (h : WordCut s (p :: ps)) : WordCut ps.flatten ps :=
  ⟨rfl, fun q hq => h.isPiece q (List.mem_cons_of_mem p hq), h.apart.tail⟩

/-- Behind a word a text is at its end, or goes on with a byte of no word. -/
theorem head?_tail (h : WordCut s (w :: ps)) (hw : IsWord w) :
    ∀ c, ps.flatten.head? = some c → isWordByte c = false := by
  cases ps with
  | nil => simp
  | cons p ps =>
    rcases h.isPiece p (by simp) with hp | ⟨c, hc, rfl⟩
    · exact absurd ⟨hw, hp⟩ (List.isChain_cons_cons.1 h.apart).1
    · simp [hc]

/-- The first piece of a text begins with the first byte of the text. -/
theorem not_isWord_head (h : WordCut s ps) (hs : ∀ c, s.head? = some c → isWordByte c = false) :
    ∀ p ∈ ps.head?, ¬IsWord p := by
  intro p hp hword
  obtain ⟨more, rfl⟩ := List.head?_eq_some_iff.1 hp
  obtain ⟨c, rest, rfl⟩ := List.exists_cons_of_ne_nil hword.ne_nil
  have hc := hs c (by rw [← h.flatten_eq, List.flatten_cons, List.cons_append, List.head?_cons])
  exact not_isWord_cons hc rest hword

theorem cons {c : UInt8} (hc : isWordByte c = false) (h : WordCut s ps) :
    WordCut (c :: s) ([c] :: ps) where
  flatten_eq := by rw [List.flatten_cons, h.flatten_eq, List.singleton_append]
  isPiece := List.forall_mem_cons.2 ⟨.inr ⟨c, hc, rfl⟩, h.isPiece⟩
  apart := List.isChain_cons.2 ⟨fun _ _ hboth => not_isWord_cons hc [] hboth.1, h.apart⟩

theorem append (hw : IsWord w) (hs : ∀ c, s.head? = some c → isWordByte c = false)
    (h : WordCut s ps) : WordCut (w ++ s) (w :: ps) where
  flatten_eq := by rw [List.flatten_cons, h.flatten_eq]
  isPiece := List.forall_mem_cons.2 ⟨.inl hw, h.isPiece⟩
  apart := List.isChain_cons.2 ⟨fun q hq hboth => h.not_isWord_head hs q hq hboth.2, h.apart⟩

end WordCut

section Pieces

variable {s : Bytes} {ps : List Bytes}

theorem wordCut_pieces (s : Bytes) : WordCut s (pieces s) := by
  induction s using textInduction with
  | nil => exact ⟨rfl, by simp, .nil⟩
  | cons c rest hc ih =>
    rw [pieces_cons hc]
    exact ih.cons hc
  | append w rest hw hr ih =>
    rw [pieces_isWord_append hw hr]
    exact ih.append hw hr

/-- There is one way to cut a text. -/
theorem wordCut_iff : WordCut s ps ↔ ps = pieces s := by
  refine ⟨fun h => ?_, fun h => h ▸ wordCut_pieces s⟩
  induction ps generalizing s with
  | nil => rw [← h.flatten_eq, List.flatten_nil, pieces_nil]
  | cons p ps ih =>
    rw [← h.flatten_eq, List.flatten_cons]
    rcases h.isPiece p List.mem_cons_self with hp | ⟨c, hc, rfl⟩
    · rw [pieces_isWord_append hp (h.head?_tail hp), ← ih h.tail]
    · rw [List.singleton_append, pieces_cons hc, ← ih h.tail]

theorem pieces_of_mem_pieces {p : Bytes} (hp : p ∈ pieces s) : pieces p = [p] := by
  rcases (wordCut_pieces s).isPiece p hp with hword | ⟨c, hc, rfl⟩
  · exact pieces_of_isWord hword
  · rw [pieces_cons hc, pieces_nil]

end Pieces

/-! ## Rewriting word by word -/

section Rewriting

variable {f : Bytes → Bytes} (hf : ∀ c, isWordByte c = false → f [c] = [c])
include hf

theorem head?_flatMap_pieces {s : Bytes} (hs : ∀ c, s.head? = some c → isWordByte c = false) :
    ∀ c, ((pieces s).flatMap f).head? = some c → isWordByte c = false := by
  cases s with
  | nil => simp
  | cons d rest =>
    have hd := hs d rfl
    intro c hc
    rw [pieces_cons hd, List.flatMap_cons, hf d hd] at hc
    exact hs c hc

/-- What stands in place of a word keeps its distance to the words beside it. -/
theorem wordCut_flatMap (s : Bytes) :
    WordCut ((pieces s).flatMap f) ((pieces s).flatMap fun p => pieces (f p)) := by
  refine wordCut_iff.2 ?_
  induction s using textInduction with
  | nil => rfl
  | cons c rest hc ih =>
    rw [pieces_cons hc, List.flatMap_cons, List.flatMap_cons, hf c hc, List.singleton_append,
      pieces_cons hc, pieces_cons hc, pieces_nil, List.singleton_append, ih]
  | append w rest hw hr ih =>
    rw [pieces_isWord_append hw hr, List.flatMap_cons, List.flatMap_cons, pieces_append, ih]
    -- behind the word the text goes on with a byte that stays
    intro a _ b hb
    simp [joins, head?_flatMap_pieces hf hr b hb]

end Rewriting

/-! ## Substitution -/

section Substitution

variable {key value : Bytes} (hkey : IsWord key) (s : Bytes)
include hkey

theorem wordCut_replaceWord : WordCut (replaceWord key value s)
    ((pieces s).flatMap fun p => if p = key then pieces value else [p]) := by
  have hbetween : ∀ c, isWordByte c = false → (if [c] = key then value else [c]) = [c] := by
    intro c hc
    rw [if_neg]
    rintro rfl
    exact not_isWord_cons hc [] hkey
  have hpiece : ∀ p ∈ pieces s, pieces (if p = key then value else p) =
      if p = key then pieces value else [p] := by
    intro p hp
    rw [apply_ite pieces, pieces_of_mem_pieces hp]
  have hcut := wordCut_flatMap (f := fun p => if p = key then value else p) hbetween s
  rwa [← replaceWord_eq_flatMap hkey, List.flatMap_congr hpiece] at hcut

/-- Every word that is there after a substitution comes from the text or from the replacement. -/
theorem mem_words_replaceWord {w : Bytes} (hw : w ∈ words (replaceWord key value s)) :
    (w ∈ words s ∧ w ≠ key) ∨ (w ∈ words value ∧ key ∈ words s) := by
  rw [words_replaceWord hkey] at hw
  obtain ⟨v, hv, hmem⟩ := List.mem_flatMap.1 hw
  by_cases hvkey : v = key
  · rw [if_pos hvkey] at hmem
    exact .inr ⟨hmem, hvkey ▸ hv⟩
  · rw [if_neg hvkey, List.mem_singleton] at hmem
    subst hmem
    exact .inl ⟨hv, hvkey⟩

end Substitution

/-- A define stands in for the words equal to its key and for nothing else : every other word and
byte is kept, and no two words are joined. Its replacement is the text that was given, without the
white space around it, and is put in as it is. -/
theorem Define.replace_whole_words {key value : Bytes} {site : Option Site} {d : Define}
    (hd : Define.make key value site = .ok d) (s : Bytes) :
    WordCut s (pieces s) ∧
      d.replace s = (pieces s).flatMap (fun p => if p = key then trim value else p) ∧
      WordCut (d.replace s)
        ((pieces s).flatMap fun p => if p = key then pieces (trim value) else [p]) ∧
      words (d.replace s) = (words s).flatMap (fun w => if w = key then words value else [w]) ∧
      (key ∉ words s → d.replace s = s) ∧
      ∀ w ∈ words (d.replace s), (w ∈ words s ∧ w ≠ key) ∨ (w ∈ words value ∧ key ∈ words s) := by
  obtain ⟨hvalid, rfl⟩ := Define.make_eq_ok.1 hd
  have hkey : IsWord key := isWord_of_isDefineKey hvalid
  refine ⟨wordCut_pieces s, replaceWord_eq_flatMap hkey s, wordCut_replaceWord hkey s, ?_,
    replaceWord_of_not_mem hkey, fun w hw => ?_⟩
  · rw [Define.replace, words_replaceWord hkey, words_trim]
  · rw [← words_trim value]
    exact mem_words_replaceWord hkey s hw

/-- The key stands in the replacement too, in a longer word, and behind a letter that is none of
the alphabet's. With nothing to put in, the words beside the key stay two. -/
theorem Define.sample_replace_whole_words :
    Define.make "K" " <K> " = .ok ⟨"K", "<K>", none⟩ ∧ Define.make "K" "" = .ok ⟨"K", "", none⟩ ∧
      Define.replace ⟨"K", "<K>", none⟩ "K_1 éK,K" = "K_1 é<K>,<K>" ∧
      words (Define.replace ⟨"K", "", none⟩ "a K(K)b") = ["a", "b"] := by
  have hfull : Define.make "K" " <K> " = .ok ⟨"K", "<K>", none⟩ := by decide +kernel
  have hempty : Define.make "K" "" = .ok ⟨"K", "", none⟩ := by decide +kernel
  obtain ⟨-, hreplace, -⟩ := Define.replace_whole_words hfull "K_1 éK,K"
  obtain ⟨-, -, -, hwords, -⟩ := Define.replace_whole_words hempty "a K(K)b"
  exact ⟨hfull, hempty, hreplace.trans (by decide +kernel), hwords.trans (by decide +kernel)⟩

end Asm16
