import Asm16.Proofs.Decoding
import Mathlib.Tactic.SplitIfs

/-!
# Reading an image as instructions

A list of words is empty, or holds the first words of an instruction whose last ones are missing, or
begins with all words of an instruction. Arguments about a sweep go by these cases
(`Code.wordsInduction`). A sweep over any words finds instructions that stand one behind the other
(`Code.Consecutive`), and stops at the end or at an instruction that is cut short
(`Code.exists_sweep`).

`Image.codes_tile` is the statement for the words of an image between two addresses. It also says
what a consumer gets to see, who may be done before the last instruction.
-/

namespace Asm16

/-! ## Sweeps -/

namespace Code

/-- The words of an instruction whose last words are missing. -/
def CutShort (ws : List UInt16) : Prop := ∃ w rest, ws = w :: rest ∧ rest.length < need ⟨w, []⟩

theorem need_le (c : Code) : c.need ≤ 2 := by
  unfold need
  split <;> split <;> decide

theorem decode?_of_cutShort {ws : List UInt16} (h : CutShort ws) : decode? ws = none := by
  obtain ⟨w, rest, rfl, hlt⟩ := h
  exact if_neg (by simpa using hlt)

theorem wordsInduction {motive : List UInt16 → Prop} (nil : motive [])
    (cut : ∀ ws, CutShort ws → motive ws)
    (code : ∀ (c : Code) (rest : List UInt16), c.immediates.length = c.need → motive rest →
      motive (c.words ++ rest)) (ws : List UInt16) : motive ws := by
  induction hn : ws.length using Nat.strongRecOn generalizing ws with
  | ind n ih =>
    cases ws with
    | nil => exact nil
    | cons w rest =>
      by_cases h : need ⟨w, []⟩ ≤ rest.length
      · have hsplit : w :: rest =
            words ⟨w, rest.take (need ⟨w, []⟩)⟩ ++ rest.drop (need ⟨w, []⟩) := by
          rw [words, List.cons_append, List.take_append_drop]
        rw [hsplit]
        refine code _ _ (List.length_take_of_le h) (ih _ ?_ _ rfl)
        rw [← hn, List.length_drop, List.length_cons]
        omega
      · exact cut _ ⟨w, rest, rfl, Nat.lt_of_not_le h⟩

/-- Instructions that stand one behind the other from address `addr` to `stop`, each with as many
words behind its first as it takes. -/
inductive Consecutive : Nat → List (Nat × Code) → Nat → Prop
  | nil (addr : Nat) : Consecutive addr [] addr
  | cons {addr stop : Nat} {c : Code} {rest : List (Nat × Code)}
      (hneed : c.immediates.length = c.need)
      (h : Consecutive (addr + 1 + c.immediates.length) rest stop) :
      Consecutive addr ((addr, c) :: rest) stop

section Consecutive

variable {addr stop : Nat} {entries : List (Nat × Code)}

theorem Consecutive.stop_eq (h : Consecutive addr entries stop) :
    stop = addr + (entries.flatMap (·.2.words)).length := by
  induction h with
  | nil => rfl
  | @cons addr stop c rest _ _ ih =>
    have hwords : c.words.length = c.immediates.length + 1 := rfl
    rw [List.flatMap_cons, List.length_append, hwords]
    omega

theorem Consecutive.inside (h : Consecutive addr entries stop) :
    ∀ e ∈ entries, addr ≤ e.1 ∧ e.1 + e.2.words.length ≤ stop := by
  induction h with
  | nil => simp
  | @cons addr stop c rest _ h ih =>
    refine List.forall_mem_cons.2 ⟨⟨Nat.le_refl _, ?_⟩, fun e he => ?_⟩
    · have hstop := h.stop_eq
      show addr + (c.immediates.length + 1) ≤ stop
      omega
    · have hrest := ih e he
      omega

end Consecutive

theorem sweep_of_cutShort {ws : List UInt16} (h : CutShort ws) (addr : Nat) :
    sweep addr ws = [] := by
  have hnone := decode?_of_cutShort h
  obtain ⟨w, rest, rfl, -⟩ := h
  rw [sweep, hnone]

theorem sweep_code {c : Code} (h : c.immediates.length = c.need) (addr : Nat) (rest : List UInt16) :
    sweep addr (c.words ++ rest) =
      (addr, c) :: sweep (addr + 1 + c.immediates.length) rest := by
  have hdecode : decode? (c.words ++ rest) = some c := decode?_append h.symm rest
  have hlen : addr + c.words.length = addr + 1 + c.immediates.length := by
    rw [words, List.length_cons]
    omega
  rw [sweep_append hdecode rfl, hlen]

/-- A sweep finds consecutive instructions with all words up to where it ends. What is left there,
if anything, is cut short. -/
theorem exists_sweep (addr : Nat) (ws : List UInt16) : ∃ last tail,
    Consecutive addr (sweep addr ws) last ∧ (sweep addr ws).flatMap (·.2.words) ++ tail = ws ∧
      (tail = [] ∨ CutShort tail) := by
  induction ws using wordsInduction generalizing addr with
  | nil =>
    rw [sweep]
    exact ⟨addr, [], .nil addr, rfl, .inl rfl⟩
  | cut ws h =>
    rw [sweep_of_cutShort h]
    exact ⟨addr, ws, .nil addr, rfl, .inr h⟩
  | code c rest hneed ih =>
    obtain ⟨last, tail, hcons, hwords, htail⟩ := ih (addr + 1 + c.immediates.length)
    rw [sweep_code hneed]
    refine ⟨last, tail, .cons hneed hcons, ?_, htail⟩
    rw [List.flatMap_cons, List.append_assoc, hwords]

/-! ## Consumers -/

section Consumers

variable {σ : Type} {consume : σ → Nat × Code → ForInStep σ}

/-- A consumer that is shown some instructions from state `s` on asks for more after each of them,
and is in another state behind the last. -/
inductive Asks (consume : σ → Nat × Code → ForInStep σ) : σ → List (Nat × Code) → σ → Prop
  | nil (s : σ) : Asks consume s [] s
  | cons {s t u : σ} {e : Nat × Code} {rest : List (Nat × Code)} (he : consume s e = .yield t)
      (h : Asks consume t rest u) : Asks consume s (e :: rest) u

theorem visit_of_cutShort {ws : List UInt16} (h : CutShort ws) (s : σ) (addr : Nat) :
    visit consume s addr ws = s := by
  have hnone := decode?_of_cutShort h
  obtain ⟨w, rest, rfl, -⟩ := h
  rw [visit, hnone]

section Shown

variable {c : Code} (hneed : c.immediates.length = c.need) {s t : σ} {addr : Nat}
  (rest : List UInt16)

include hneed

theorem visit_of_yield (h : consume s (addr, c) = .yield t) :
    visit consume s addr (c.words ++ rest) =
      visit consume t (addr + 1 + c.immediates.length) rest := by
  have hdecode : decode? (c.word :: (c.immediates ++ rest)) = some c :=
    decode?_append hneed.symm rest
  rw [words, List.cons_append, visit, hdecode]
  simp only [h, List.drop_left, words, List.length_cons, Nat.add_right_comm, Nat.add_assoc]

theorem visit_of_done (h : consume s (addr, c) = .done t) :
    visit consume s addr (c.words ++ rest) = t := by
  have hdecode : decode? (c.word :: (c.immediates ++ rest)) = some c :=
    decode?_append hneed.symm rest
  rw [words, List.cons_append, visit, hdecode]
  simp only [h]

end Shown

/-- A consumer that asks for more to the end is shown all that a sweep finds. -/
theorem visit_of_asks {ws : List UInt16} {addr : Nat} {s t : σ}
    (h : Asks consume s (sweep addr ws) t) : visit consume s addr ws = t := by
  induction ws using wordsInduction generalizing addr s with
  | nil =>
    rw [sweep] at h
    cases h
    rw [visit]
  | cut ws hcut =>
    rw [sweep_of_cutShort hcut] at h
    cases h
    exact visit_of_cutShort hcut _ addr
  | code c rest hneed ih =>
    rw [sweep_code hneed] at h
    obtain _ | ⟨he, h⟩ := h
    rw [visit_of_yield hneed rest he]
    exact ih h

/-- A consumer that is done is shown nothing behind the instruction it is done with. -/
theorem visit_of_asks_done {ws : List UInt16} {addr : Nat} {seen more : List (Nat × Code)}
    {e : Nat × Code} {s t u : σ} (hsweep : sweep addr ws = seen ++ e :: more)
    (h : Asks consume s seen t) (hdone : consume t e = .done u) : visit consume s addr ws = u := by
  induction ws using wordsInduction generalizing addr s seen with
  | nil =>
    rw [sweep] at hsweep
    simp at hsweep
  | cut ws hcut =>
    rw [sweep_of_cutShort hcut] at hsweep
    simp at hsweep
  | code c rest hneed ih =>
    rw [sweep_code hneed] at hsweep
    cases h with
    | nil =>
      obtain ⟨rfl, -⟩ := List.cons.inj hsweep
      exact visit_of_done hneed rest hdone
    | cons he h =>
      obtain ⟨rfl, hrest⟩ := List.cons.inj hsweep
      rw [visit_of_yield hneed rest he]
      exact ih hrest h

end Consumers

end Code

/-! ## Images -/

namespace Image

section Slices

variable (img : Image) (start : Nat)

theorem length_slice (stop : Nat) : (img.slice start stop).length = min stop img.size - start := by
  rw [slice, Array.length_toList, Array.size_extract]
  rfl

theorem getElem?_slice (stop i : Nat) : (img.slice start stop)[i]? =
    if start + i < stop then img.words[start + i]? else none := by
  rw [slice, Array.getElem?_toList, Array.getElem?_extract]
  split <;> split <;> simp_all <;> omega

/-- The front of a slice is a slice. -/
theorem take_slice {stop last : Nat} (h : last - start ≤ (img.slice start stop).length) :
    (img.slice start stop).take (last - start) = img.slice start last := by
  rw [length_slice] at h
  refine List.ext_getElem? fun i => ?_
  rw [List.getElem?_take, getElem?_slice, getElem?_slice]
  by_cases hi : i < last - start
  · rw [if_pos hi, if_pos (by omega), if_pos (by omega)]
  · rw [if_neg hi, if_neg (by omega)]

end Slices

/-- The word at address `addr`, which is below `stop`, is that of an instruction with words at
`stop` or behind it. -/
def Overruns (img : Image) (addr : Nat) (stop : Int) : Prop :=
  ∃ w, img.words[addr]? = some w ∧ addr < stop ∧ stop ≤ addr + Code.need ⟨w, []⟩

/-- Instructions that tile the words of an image from address `start` to `last`. They end at `stop`,
or where the image does, or one or two words before that with an instruction that has no room. -/
structure TiledBy (img : Image) (start : Nat) (stop : Int) (entries : List (Nat × Code))
    (last : Nat) : Prop where
  consecutive : Code.Consecutive start entries last
  words_eq : entries.flatMap (·.2.words) = img.slice start last
  inside : ∀ e ∈ entries, start ≤ e.1 ∧ (e.1 + e.2.words.length : Int) ≤ min stop img.size
  ends : (last : Int) = max (start : Int) (min stop img.size) ∨
    (min stop img.size - last = 1 ∨ min stop img.size - last = 2) ∧
      img.Overruns last (min stop img.size)

theorem exists_tiledBy (img : Image) (start : Nat) (stop : Int) :
    ∃ last, img.TiledBy start stop (img.codes start stop.toNat) last := by
  obtain ⟨last, tail, hcons, hwords, htail⟩ :=
    Code.exists_sweep start (img.slice start stop.toNat)
  rw [← codes] at hcons hwords
  generalize img.codes start stop.toNat = entries at hcons hwords ⊢
  have hlast := hcons.stop_eq
  have hlen := congrArg List.length hwords
  rw [List.length_append, length_slice] at hlen
  refine ⟨last, hcons, ?_, fun e he => ?_, ?_⟩
  · have hfront : (img.slice start stop.toNat).take (last - start) = img.slice start last :=
      take_slice img start (by rw [length_slice]; omega)
    rw [← hfront, ← hwords]
    exact (List.take_left' (by omega)).symm
  · have hinside := hcons.inside e he
    have hpos : 0 < e.2.words.length := Nat.succ_pos _
    exact ⟨hinside.1, by omega⟩
  · rcases htail with rfl | ⟨w, rest, rfl, hlt⟩
    · rw [List.length_nil] at hlen
      exact .inl (by omega)
    · rw [List.length_cons] at hlen
      have hneed := Code.need_le ⟨w, []⟩
      have hw : (img.slice start stop.toNat)[last - start]? = some w := by
        rw [← hwords, hlast, Nat.add_sub_cancel_left, List.getElem?_append_right (Nat.le_refl _),
          Nat.sub_self]
        rfl
      rw [getElem?_slice, if_pos (by omega), Nat.add_sub_cancel' (by omega)] at hw
      exact .inr ⟨by omega, w, hw, by omega, by omega⟩

/-- Only the words between the two addresses count. -/
theorem codes_congr {img other : Image} {start stop : Nat}
    (h : ∀ addr, start ≤ addr → addr < stop → other.words[addr]? = img.words[addr]?) :
    other.codes start stop = img.codes start stop := by
  have hslice : other.slice start stop = img.slice start stop := by
    refine List.ext_getElem? fun i => ?_
    rw [getElem?_slice, getElem?_slice]
    split_ifs with hi
    · exact h _ (Nat.le_add_right _ _) hi
    · rfl
  rw [codes, codes, hslice]

/-- The instructions of an image between two addresses tile its words, whatever they are, and depend
on no others. A consumer sees them in order : all of them if it asks for more each time, and those
up to the one it is done with if not. -/
theorem codes_tile (img : Image) (start : Nat) (stop : Int) :
    (∃ last, img.TiledBy start stop (img.codes start stop.toNat) last) ∧
    (∀ other : Image, (∀ addr : Nat, start ≤ addr → (addr : Int) < stop →
        other.words[addr]? = img.words[addr]?) →
      other.codes start stop.toNat = img.codes start stop.toNat) ∧
    ∀ (σ : Type) (consume : σ → Nat × Code → ForInStep σ) (s t : σ),
      (Code.Asks consume s (img.codes start stop.toNat) t →
        img.visit start stop.toNat consume s = t) ∧
      ∀ seen e more u, img.codes start stop.toNat = seen ++ e :: more →
        Code.Asks consume s seen t → consume t e = .done u →
        img.visit start stop.toNat consume s = u := by
  refine ⟨exists_tiledBy img start stop, fun other h => codes_congr fun addr h₀ h₁ => ?_,
    fun σ consume s t => ⟨fun h => ?_, fun seen e more u hcodes h hdone => ?_⟩⟩
  · exact h addr h₀ (by omega)
  · exact Code.visit_of_asks h
  · exact Code.visit_of_asks_done hcodes h hdone

/-- `SET A, 0x30`, `JSR B` and the first two words of `SET [0x1000], 0x2000`. -/
def cutImage : Image := ⟨#[0x7c01, 0x0030, 0x0420, 0x7fc1, 0x2000], by decide⟩

/-- A consumer that has seen enough after `n` instructions. -/
def upTo (n : Nat) (seen : List (Nat × Code)) (e : Nat × Code) :
    ForInStep (List (Nat × Code)) :=
  if seen.length + 1 < n then .yield (seen ++ [e]) else .done (seen ++ [e])

/-- The end of the image cuts the last instruction short, and the consumer sees one of the two
before it. -/
theorem cutImage_codes_tile :
    cutImage.codes 0 9 = [(0, ⟨0x7c01, [0x0030]⟩), (2, ⟨0x0420, []⟩)] ∧
      cutImage.TiledBy 0 9 (cutImage.codes 0 9) 3 ∧
      cutImage.visit 0 9 (upTo 1) [] = (cutImage.codes 0 9).take 1 := by
  have hcodes : cutImage.codes 0 9 = [(0, ⟨0x7c01, [0x0030]⟩), (2, ⟨0x0420, []⟩)] := by
    have hslice : cutImage.slice 0 9 = Code.words ⟨0x7c01, [0x0030]⟩ ++
        (Code.words ⟨0x0420, []⟩ ++ [0x7fc1, 0x2000]) := by decide
    rw [codes, hslice, Code.sweep_code (by decide), Code.sweep_code (by decide),
      Code.sweep_of_cutShort ⟨_, _, rfl, by decide⟩]
    rfl
  obtain ⟨⟨last, htiled⟩, -, hvisit⟩ := codes_tile cutImage 0 9
  have hlast : last = 3 := by
    rw [htiled.consecutive.stop_eq]
    show 0 + ((cutImage.codes 0 9).flatMap (·.2.words)).length = 3
    rw [hcodes]
    rfl
  refine ⟨hcodes, hlast ▸ htiled, ?_⟩
  rw [hcodes]
  exact (hvisit _ (upTo 1) [] []).2 [] (0, ⟨0x7c01, [0x0030]⟩) _ _ hcodes (.nil []) rfl

end Image

end Asm16
