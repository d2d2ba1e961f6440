import Asm16.Assembly
import Asm16.Proofs.Applied
import Asm16.Proofs.Words
import Mathlib.Data.List.Nodup
import Mathlib.Logic.Function.Iterate
import Mathlib.Logic.Relation

/-!
# Keys that expansion leaves

`Defines.expand` stops when a whole sweep changes nothing, which is not the same as that no key is
left : two defines can undo each other within one sweep. It takes no more than that. A sweep acts on
the words of a text one by one and on nothing else (`sweep_append`), never takes away a byte between
words (`gapCount_le_sweep`), and if it adds none, does not add a word either
(`length_words_sweep_le`). So a text that a sweep leaves as it is has only words that a sweep leaves
as they are (`sweep_eq_of_mem_words`).

A text from which substitution comes to a cycle of keys does so after any number of sweeps
(`comesTo_sweep`). It is refused, unless a key of that kind is left in it.
-/

namespace Asm16

/-! ## Tables -/

namespace Defines

/-- A table that is made by adding one define after another. -/
inductive Built : Defines → Prop
  | empty (limit : Int) : Built ⟨limit, []⟩
  | add {ds ds' : Defines} {key value : Bytes} {site : Option Site} {d : Define} (h : Built ds)
      (hd : Define.make key value site = .ok d) (ha : ds.add d = .ok ds') : Built ds'

/-- Defines made before any source is read are built. -/
theorem Built.addDefines {ds ds' : Defines} (h : ds.Built) {pairs : List (Bytes × Bytes)}
    (ha : Assembler.addDefines ds pairs = .ok ds') : ds'.Built := by
  induction pairs generalizing ds with
  | nil =>
    obtain rfl := Except.ok.inj ha
    exact h
  | cons pair rest ih =>
    obtain ⟨d, hd, ha⟩ := bind_eq_ok.1 ha
    obtain ⟨next, hnext, ha⟩ := bind_eq_ok.1 ha
    exact ih (h.add hd hnext) ha

/-- Keys are words, and no two defines have the same. -/
structure Keyed (entries : List Define) : Prop where
  isWord : ∀ d ∈ entries, IsWord d.key
  nodup : (entries.map (·.key)).Nodup

theorem Built.keyed {ds : Defines} (h : ds.Built) : Keyed ds.entries := by
  induction h with
  | empty limit => exact ⟨by simp, List.nodup_nil⟩
  | add _ hd ha ih =>
    obtain ⟨hkey, rfl⟩ := Define.make_eq_ok.1 hd
    obtain ⟨hnew, rfl⟩ := add_eq_ok.1 ha
    refine ⟨List.forall_mem_append.2 ⟨ih.isWord, ?_⟩, ?_⟩
    · simpa using isWord_of_isDefineKey hkey
    · rw [List.map_append, List.map_singleton, List.nodup_append]
      refine ⟨ih.nodup, List.nodup_singleton _, ?_⟩
      simpa using hnew

theorem Keyed.eq_of_key_eq {entries : List Define} (h : Keyed entries) {d e : Define}
    (hd : d ∈ entries) (he : e ∈ entries) (hkey : d.key = e.key) : d = e :=
  List.inj_on_of_nodup_map h.nodup hd he hkey

end Defines

/-! ## A sweep acts on the words -/

theorem replaceWord_append_of_head? {key value : Bytes} (hkey : IsWord key) (s : Bytes) {t : Bytes}
    (ht : ∀ c, t.head? = some c → isWordByte c = false) :
    replaceWord key value (s ++ t) = replaceWord key value s ++ replaceWord key value t := by
  have hpieces : pieces (s ++ t) = pieces s ++ pieces t := by
    refine pieces_append fun a _ b hb => ?_
    simp [joins, ht b hb]
  simp only [replaceWord_eq_flatMap hkey, hpieces, List.flatMap_append]

/-- The number of bytes of a text that belong to no word. -/
def gapCount (s : Bytes) : Nat := s.countP (!isWordByte ·)

theorem gapCount_append (s t : Bytes) : gapCount (s ++ t) = gapCount s + gapCount t :=
  List.countP_append

theorem gapCount_cons {c : UInt8} (hc : isWordByte c = false) (s : Bytes) :
    gapCount (c :: s) = gapCount s + 1 := by
  simp [gapCount, hc]

theorem gapCount_eq_zero {s : Bytes} : gapCount s = 0 ↔ ∀ c ∈ s, isWordByte c = true := by
  simp [gapCount]

/-- A text without gaps is empty or a word. -/
theorem words_eq_of_gapCount {s : Bytes} (h : gapCount s = 0) :
    s = [] ∨ IsWord s ∧ words s = [s] := by
  by_cases hs : s = []
  · exact .inl hs
  · have hword : IsWord s := ⟨hs, gapCount_eq_zero.1 h⟩
    exact .inr ⟨hword, words_of_isWord hword⟩

namespace Defines

variable {entries : List Define} {c : UInt8} {s t : Bytes}

theorem sweep_nil (hw : ∀ d ∈ entries, IsWord d.key) : sweep entries [] = [] := by
  induction entries with
  | nil => rfl
  | cons d rest ih =>
    rw [sweep, List.foldl_cons, Define.replace, replaceWord, replaceWordFrom_nil]
    exact ih (List.forall_mem_cons.1 hw).2

theorem sweep_cons (hw : ∀ d ∈ entries, IsWord d.key) (hc : isWordByte c = false) (s : Bytes) :
    sweep entries (c :: s) = c :: sweep entries s := by
  induction entries generalizing s with
  | nil => rfl
  | cons d rest ih =>
    obtain ⟨hd, hrest⟩ := List.forall_mem_cons.1 hw
    have hreplace : d.replace (c :: s) = c :: d.replace s := replaceWordFrom_cons hd hc false s
    rw [sweep, List.foldl_cons, hreplace]
    exact ih hrest (d.replace s)

theorem sweep_append (hw : ∀ d ∈ entries, IsWord d.key) (s : Bytes)
    (ht : ∀ c, t.head? = some c → isWordByte c = false) :
    sweep entries (s ++ t) = sweep entries s ++ sweep entries t := by
  induction entries generalizing s t with
  | nil => rfl
  | cons d rest ih =>
    obtain ⟨hd, hrest⟩ := List.forall_mem_cons.1 hw
    have hreplace : d.replace (s ++ t) = d.replace s ++ d.replace t :=
      replaceWord_append_of_head? hd s ht
    rw [sweep, List.foldl_cons, hreplace]
    exact ih hrest (d.replace s) (head?_replaceWord hd ht)

theorem head?_sweep (hw : ∀ d ∈ entries, IsWord d.key)
    (ht : ∀ c, t.head? = some c → isWordByte c = false) : (sweep entries t).head? = t.head? := by
  cases t with
  | nil => rw [sweep_nil hw]
  | cons c rest => rw [sweep_cons hw (ht c rfl), List.head?_cons, List.head?_cons]

/-! ## Texts that a sweep leaves as they are -/

/-- A sweep takes away no byte between words. -/
theorem gapCount_le_sweep (hw : ∀ d ∈ entries, IsWord d.key) (s : Bytes) :
    gapCount s ≤ gapCount (sweep entries s) := by
  induction s using textInduction with
  | nil => exact Nat.zero_le _
  | cons c rest hc ih =>
    rw [sweep_cons hw hc, gapCount_cons hc, gapCount_cons hc]
    exact Nat.add_le_add_right ih 1
  | append w rest hword hr ih =>
    rw [sweep_append hw w hr, gapCount_append, gapCount_append, gapCount_eq_zero.2 hword.all]
    omega

/-- A sweep that adds no byte between words adds no word. -/
theorem length_words_sweep_le (hw : ∀ d ∈ entries, IsWord d.key)
    (h : gapCount (sweep entries s) = gapCount s) :
    (words (sweep entries s)).length ≤ (words s).length := by
  induction s using textInduction with
  | nil => rw [sweep_nil hw]
  | cons c rest hc ih =>
    rw [sweep_cons hw hc] at h ⊢
    rw [gapCount_cons hc, gapCount_cons hc] at h
    rw [words_cons hc, words_cons hc]
    exact ih (Nat.succ.inj h)
  | append w rest hword hr ih =>
    have hle := gapCount_le_sweep hw rest
    rw [sweep_append hw w hr] at h ⊢
    rw [gapCount_append, gapCount_append, gapCount_eq_zero.2 hword.all] at h
    have hrest := ih (by omega)
    have hone : (words (sweep entries w)).length ≤ 1 := by
      rcases words_eq_of_gapCount (s := sweep entries w) (by omega) with hnil | ⟨-, hwords⟩
      · simp [hnil]
      · simp [hwords]
    rw [words_append _ (by rwa [head?_sweep hw hr]), words_isWord_append hword hr,
      List.length_append, List.length_cons]
    omega

/-- If a sweep leaves a text as it is, it leaves every word of it as it is. -/
theorem sweep_eq_of_mem_words (hw : ∀ d ∈ entries, IsWord d.key) (h : sweep entries s = s) :
    ∀ w ∈ words s, sweep entries w = w := by
  induction s using textInduction with
  | nil => simp
  | cons c rest hc ih =>
    rw [sweep_cons hw hc] at h
    rw [words_cons hc]
    exact ih (List.cons.inj h).2
  | append w rest hword hr ih =>
    rw [sweep_append hw w hr] at h
    have hr' : ∀ c, (sweep entries rest).head? = some c → isWordByte c = false := by
      rwa [head?_sweep hw hr]
    -- no byte between words may come from `w`, and then its word may not go either
    have hgaps : gapCount (sweep entries w) + gapCount (sweep entries rest) = gapCount rest := by
      rw [← gapCount_append, h, gapCount_append, gapCount_eq_zero.2 hword.all, Nat.zero_add]
    have hle := gapCount_le_sweep hw rest
    have hcount : (words (sweep entries w)).length + (words (sweep entries rest)).length =
        (words rest).length + 1 := by
      rw [← List.length_append, ← words_append _ hr', h, words_isWord_append hword hr,
        List.length_cons]
    have hlength := length_words_sweep_le hw (s := rest) (by omega)
    have hsame : sweep entries w = w := by
      rcases words_eq_of_gapCount (s := sweep entries w) (by omega) with hnil | ⟨hword', -⟩
      · rw [hnil, words_nil, List.length_nil] at hcount
        omega
      · calc sweep entries w
            = (sweep entries w ++ sweep entries rest).takeWhile isWordByte :=
              (takeWhile_append_of_head? hword'.all hr').symm
          _ = w := by rw [h, takeWhile_append_of_head? hword.all hr]
    rw [hsame] at h
    rw [words_isWord_append hword hr]
    exact List.forall_mem_cons.2 ⟨hsame, ih (List.append_cancel_left h)⟩

/-! ## Sweep after sweep -/

/-- What is left in the end comes from sweeps, and one more changes nothing. -/
theorem settle_eq_some {n : Nat} {changed b : Bool} (h : settle entries n s changed = some (t, b)) :
    sweep entries t = t ∧ ∃ k, (sweep entries)^[k] s = t := by
  fun_induction settle entries n s changed with
  | case1 n s changed next hs =>
    obtain ⟨rfl, -⟩ := Prod.mk.inj (Option.some.inj h)
    exact ⟨hs, 0, rfl⟩
  | case2 => cases h
  | case3 s changed next hs n ih =>
    obtain ⟨hfixed, k, hk⟩ := ih h
    exact ⟨hfixed, k + 1, hk⟩

theorem settle_of_expand {ds : Defines} {b : Bool} (h : ds.expand s = .ok (t, b)) :
    settle ds.entries ds.sweeps s false = some (t, b) := by
  unfold expand at h
  split at h
  · rename_i hsettle
    rw [hsettle, Except.ok.inj h]
  · cases h

/-! ## Cycles -/

/-- The word `b` stands in the replacement text of the key `a`. -/
def Feeds (entries : List Define) (a b : Bytes) : Prop :=
  ∃ d ∈ entries, d.key = a ∧ b ∈ words d.value

/-- Substitution in `s` comes to the word `k`. -/
def ComesTo (entries : List Define) (s k : Bytes) : Prop :=
  ∃ w ∈ words s, Relation.ReflTransGen (Feeds entries) w k

/-- Substitution in `s` comes to a key that comes back to itself. -/
def ComesToCycle (entries : List Define) (s : Bytes) : Prop :=
  ∃ k, ComesTo entries s k ∧ Relation.TransGen (Feeds entries) k k

variable {k : Bytes}

theorem comesTo_replace (h : Keyed entries) (hk : Relation.TransGen (Feeds entries) k k)
    {d : Define} (hd : d ∈ entries) (hs : ComesTo entries s k) :
    ComesTo entries (d.replace s) k := by
  obtain ⟨w, hmem, hreach⟩ := hs
  have hwords : words (d.replace s) =
      (words s).flatMap fun w => if w = d.key then words d.value else [w] :=
    words_replaceWord (h.isWord d hd) s
  by_cases hkey : w = d.key
  · -- the key is replaced, and the way to `k` goes on from a word of its replacement text
    obtain ⟨next, ⟨e, he, hekey, hnext⟩, hrest⟩ :=
      Relation.TransGen.head'_iff.1 (Relation.TransGen.trans_right hreach hk)
    obtain rfl : e = d := h.eq_of_key_eq he hd (hekey.trans hkey)
    refine ⟨next, ?_, hrest⟩
    rw [hwords]
    exact List.mem_flatMap.2 ⟨w, hmem, by rwa [if_pos hkey]⟩
  · refine ⟨w, ?_, hreach⟩
    rw [hwords]
    exact List.mem_flatMap.2 ⟨w, hmem, by simp [hkey]⟩

theorem comesTo_sweep (h : Keyed entries) (hk : Relation.TransGen (Feeds entries) k k)
    {used : List Define} (hused : ∀ d ∈ used, d ∈ entries) (hs : ComesTo entries s k) :
    ComesTo entries (sweep used s) k := by
  induction used generalizing s with
  | nil => exact hs
  | cons d rest ih =>
    obtain ⟨hd, hrest⟩ := List.forall_mem_cons.1 hused
    exact ih hrest (comesTo_replace h hk hd hs)

theorem comesTo_iterate (h : Keyed entries) (hk : Relation.TransGen (Feeds entries) k k)
    (hs : ComesTo entries s k) (n : Nat) : ComesTo entries ((sweep entries)^[n] s) k := by
  induction n generalizing s with
  | zero => exact hs
  | succ n ih => exact ih (comesTo_sweep h hk (fun _ hd => hd) hs)

/-- A text that comes to a cycle has a key. -/
theorem ComesTo.exists_key (hs : ComesTo entries s k)
    (hk : Relation.TransGen (Feeds entries) k k) : ∃ d ∈ entries, d.key ∈ words s := by
  obtain ⟨w, hmem, hreach⟩ := hs
  obtain ⟨_, ⟨d, hd, rfl, -⟩, -⟩ :=
    Relation.TransGen.head'_iff.1 (Relation.TransGen.trans_right hreach hk)
  exact ⟨d, hd, hmem⟩

/-! ## What is left -/

/-- A key that is left after an expansion is one that a sweep carries to itself. -/
theorem Keyed.sweep_key_eq {limit : Int} {b : Bool} (h : Keyed entries)
    (hexpand : expand ⟨limit, entries⟩ s = .ok (t, b)) {d : Define} (hd : d.key ∈ words t) :
    sweep entries d.key = d.key :=
  sweep_eq_of_mem_words h.isWord (settle_eq_some (settle_of_expand hexpand)).1 d.key hd

/-- A sweep carries no key to itself exactly if no key is left after any expansion, whatever the
limit, and every text from which substitution comes to a cycle of keys is refused. -/
theorem expand_leaves_no_key_iff {ds : Defines} (h : ds.Built) :
    (∀ d ∈ ds.entries, sweep ds.entries d.key ≠ d.key) ↔
      (∀ (limit : Int) (s t : Bytes) (changed : Bool),
        { ds with limit }.expand s = .ok (t, changed) → ∀ d ∈ ds.entries, d.key ∉ words t) ∧
      ∀ (limit : Int) (s : Bytes), ComesToCycle ds.entries s →
        { ds with limit }.expand s = .error (.endless s) := by
  have hkeyed := h.keyed
  refine ⟨fun hmoves => ⟨?_, ?_⟩, ?_⟩
  · intro limit s t changed hexpand d hd hleft
    exact hmoves d hd (hkeyed.sweep_key_eq hexpand hleft)
  · rintro limit s ⟨k, hs, hk⟩
    cases hexpand : { ds with limit }.expand s with
    | ok r =>
      obtain ⟨t, changed⟩ := r
      obtain ⟨-, n, rfl⟩ := settle_eq_some (settle_of_expand hexpand)
      obtain ⟨d, hd, hleft⟩ := (comesTo_iterate hkeyed hk hs n).exists_key hk
      exact absurd (hkeyed.sweep_key_eq hexpand hleft) (hmoves d hd)
    | error e =>
      unfold expand at hexpand
      split at hexpand
      · cases hexpand
      · rw [← Except.error.inj hexpand]
  · rintro ⟨hnone, -⟩ d hd hsame
    have hexpand : { ds with limit := 0 }.expand d.key = .ok (d.key, false) := by
      rw [expand, settle.eq_def, if_pos hsame]
    refine hnone 0 d.key d.key false hexpand d hd ?_
    rw [words_of_isWord (hkeyed.isWord d hd)]
    exact List.mem_singleton_self _

/-- A define that comes to a cycle of two others. -/
def tangled : Defines := ⟨0, [⟨"A", "B+B", none⟩, ⟨"B", "(C)", none⟩, ⟨"C", "B", none⟩]⟩

/-- The cycle grows with every sweep, and a text that comes to it is refused. -/
theorem tangled_expand_leaves_no_key : tangled.Built ∧
    (∀ d ∈ tangled.entries, sweep tangled.entries d.key ≠ d.key) ∧
    ComesToCycle tangled.entries "A*2" ∧ tangled.expand "A*2" = .error (.endless "A*2") := by
  have hadd : Assembler.addDefines ⟨0, []⟩ [("A", "B+B"), ("B", "(C)"), ("C", "B")] =
      .ok tangled := by decide +kernel
  have hbuilt : tangled.Built := (Built.empty 0).addDefines hadd
  have hmoves : ∀ d ∈ tangled.entries, sweep tangled.entries d.key ≠ d.key := by decide +kernel
  have hfeeds {a b : Bytes} (h : ∃ d ∈ tangled.entries, d.key = a ∧ b ∈ words d.value) :
      Feeds tangled.entries a b := h
  have hBC : Feeds tangled.entries "B" "C" := hfeeds (by decide +kernel)
  have hCB : Feeds tangled.entries "C" "B" := hfeeds (by decide +kernel)
  have hcycle : ComesToCycle tangled.entries "A*2" :=
    ⟨"B", ⟨"A", by decide +kernel, .single (hfeeds (by decide +kernel))⟩, .tail (.single hBC) hCB⟩
  exact ⟨hbuilt, hmoves, hcycle, ((expand_leaves_no_key_iff hbuilt).1 hmoves).2 0 _ hcycle⟩

/-- Two defines that undo each other. -/
def swapped : Defines := ⟨0, [⟨"A", "B", none⟩, ⟨"B", "A", none⟩]⟩

/-- No define stands for itself, and a key is left : a sweep carries it to the other one and
back. -/
theorem swapped_leaves_key : swapped.Built ∧ (∀ d ∈ swapped.entries, d.value ≠ d.key) ∧
    swapped.expand "A" = .ok ("A", false) ∧
    ∃ d ∈ swapped.entries, d.key ∈ words "A" ∧ sweep swapped.entries d.key = d.key := by
  have hadd : Assembler.addDefines ⟨0, []⟩ [("A", "B"), ("B", "A")] = .ok swapped := by
    decide +kernel
  exact ⟨(Built.empty 0).addDefines hadd, by decide +kernel, by decide +kernel, by decide +kernel⟩

end Defines

end Asm16
