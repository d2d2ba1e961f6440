import Asm16.Proofs.Grammar
import Asm16.Proofs.Normalized

/-!
# Symbols as they are written

`Spelled syms s` says that a text writes symbols one after another, numbers by any of their
literals, with spaces and tabs between them as it likes.

A normalised text that is cut into symbols (`cut_of_scan`) was spelled by them before it was
normalised (`spelled_of_cut`). Not every spelling is cut back into its symbols, since `1 2` may be
written `12` and `* *` may be written `**`; but the symbols of an expression are (`Derives.scans`),
as a number never follows a number in it, nor an operator an operator other than a sign.
-/

namespace Asm16.Arith

open Numeral

/-! ## Spellings -/

/-- Spaces and tabs. -/
def IsGap (g : Bytes) : Prop := ∀ c ∈ g, c = byte ' ' ∨ c = byte '\t'

namespace Symbol

/-- A symbol that is no number. -/
def isMark : Symbol → Bool
  | int _ => false
  | _ => true

/-- The ways to write a symbol. -/
inductive Spells : Symbol → Bytes → Prop
  | int {n : Nat} {w : Bytes} (h : Literal w n) : Spells (int n) w
  | mark {symbol : Symbol} (h : symbol.isMark = true) : Spells symbol symbol.spelling

/-- The bytes of a mark. -/
theorem spelling_of_isMark {symbol : Symbol} (h : symbol.isMark = true) : symbol.spelling ≠ [] ∧
    ∀ c ∈ symbol.spelling, isWordByte c = false ∧ isArithmeticByte c = true := by
  cases symbol with
  | int n => cases h
  | _ => decide +kernel

end Symbol

/-- A text writes symbols. -/
inductive Spelled : List Symbol → Bytes → Prop
  | nil {g : Bytes} (hg : IsGap g) : Spelled [] g
  | cons {symbol : Symbol} {syms : List Symbol} {g w t : Bytes} (hg : IsGap g)
    (hw : symbol.Spells w) (h : Spelled syms t) : Spelled (symbol :: syms) (g ++ w ++ t)

@[simp] theorem UnaryOp.isMark_symbol (op : UnaryOp) : op.symbol.isMark = true := by
  cases op <;> rfl

@[simp] theorem Operator.isMark_symbol (op : Operator) : op.symbol.isMark = true := by
  cases op <;> rfl

theorem isWordByte_of_mem_spelling {symbol : Symbol} (h : symbol.isMark = true) :
    ∀ c ∈ symbol.spelling, isWordByte c = false :=
  fun c hc => ((Symbol.spelling_of_isMark h).2 c hc).1

theorem isGap_nil : IsGap [] := by simp [IsGap]

theorem IsGap.append {g g' : Bytes} (h : IsGap g) (h' : IsGap g') : IsGap (g ++ g') :=
  List.forall_mem_append.2 ⟨h, h'⟩

theorem IsGap.wordless {g : Bytes} (h : IsGap g) : ∀ c ∈ g, isWordByte c = false := by
  intro c hc
  rcases h c hc with rfl | rfl <;> rfl

theorem Spelled.gap_append {syms : List Symbol} {g s : Bytes} (hg : IsGap g) (h : Spelled syms s) :
    Spelled syms (g ++ s) := by
  cases h with
  | nil hg' => exact .nil (hg.append hg')
  | cons hg' hw h =>
    rw [← List.append_assoc, ← List.append_assoc]
    exact .cons (hg.append hg') hw h

theorem Spelled.append {syms syms' : List Symbol} {s s' : Bytes} (h : Spelled syms s)
    (h' : Spelled syms' s') : Spelled (syms ++ syms') (s ++ s') := by
  induction h with
  | nil hg => exact h'.gap_append hg
  | cons hg hw _ ih =>
    rw [List.append_assoc]
    exact .cons hg hw ih

theorem Spelled.exists_append {syms syms' : List Symbol} {s : Bytes}
    (h : Spelled (syms ++ syms') s) : ∃ t t', s = t ++ t' ∧ Spelled syms t ∧ Spelled syms' t' := by
  induction syms generalizing s with
  | nil => exact ⟨[], s, rfl, .nil isGap_nil, h⟩
  | cons symbol syms ih =>
    cases h with
    | @cons _ _ g w t hg hw h =>
      obtain ⟨u, u', rfl, hu, hu'⟩ := ih h
      exact ⟨g ++ w ++ u, u', by simp, .cons hg hw hu, hu'⟩

/-! ## What a text is cut into -/

/-- A text is cut into symbols without a fault. -/
inductive Cut : List Symbol → Bytes → Prop
  | nil : Cut [] []
  | blank {syms : List Symbol} {c : UInt8} {s : Bytes} (hc : c = byte ' ' ∨ c = byte '\t')
    (h : Cut syms s) : Cut syms (c :: s)
  | int {syms : List Symbol} {ds s : Bytes} (hne : ds ≠ []) (hds : IsPlain ds)
    (hs : ∀ c, s.head? = some c → isDigit c = false) (h : Cut syms s) :
    Cut (.int (Stream.digitsValue ds) :: syms) (ds ++ s)
  | mark {syms : List Symbol} {symbol : Symbol} {s : Bytes} (hm : symbol.isMark = true)
    (h : Cut syms s) :
    Cut (symbol :: syms) (symbol.spelling ++ s)

theorem single?_spelling : ∀ c : UInt8, ∀ symbol ∈ Stream.single? c,
    symbol.isMark = true ∧ symbol.spelling = [c] :=
  forall_byte (by decide +kernel)

theorem double?_spelling : ∀ c : UInt8, ∀ symbol ∈ Stream.double? c,
    symbol.isMark = true ∧ symbol.spelling = [c, c] :=
  forall_byte (by decide +kernel)

theorem cut_of_scan {column depth k : Nat} {s : Bytes} {syms : List Symbol}
    (h : Leads syms (Stream.scan column depth s) (.done k)) : Cut syms s := by
  fun_induction Stream.scan column depth s generalizing syms with
  | case1 column depth =>
    cases h
    exact .nil
  | case2 column depth c rest hc ih => exact .blank hc (ih h)
  | case3 => cases h
  | case4 column depth c rest hblank hc =>
    rename_i ds stop hflaw ih
    cases h with
    | cons h =>
      have hsplit : c :: rest = ds ++ rest.dropWhile isDigit := by
        rw [List.cons_append, List.takeWhile_append_dropWhile]
      have hds : ∀ d ∈ ds, isDigit d = true :=
        List.forall_mem_cons.2 ⟨hc, List.all_eq_true.1 List.all_takeWhile⟩
      rw [hsplit]
      exact .int (List.cons_ne_nil _ _) ⟨hds, literalFlaw?_eq_none.1 hflaw⟩
        (head?_dropWhile isDigit rest) (ih h)
  | case5 column depth rest _ _ ih =>
    cases h with
    | cons h => exact .mark rfl (ih h)
  | case6 => cases h
  | case7 column depth rest _ _ _ _ ih =>
    cases h with
    | cons h => exact .mark rfl (ih h)
  | case8 column depth c rest _ _ _ _ symbol hsymbol ih =>
    cases h with
    | cons h =>
      split at hsymbol
      · rename_i hhead
        obtain ⟨u, rfl⟩ := List.head?_eq_some_iff.1 hhead
        obtain ⟨hm, hs⟩ := double?_spelling c symbol hsymbol
        have hcut := Cut.mark hm (ih h)
        rwa [hs] at hcut
      · cases hsymbol
  | case9 column depth c rest _ _ _ _ symbol hsymbol _ ih =>
    cases h with
    | cons h =>
      obtain ⟨hm, hs⟩ := single?_spelling c symbol hsymbol
      have hcut := Cut.mark hm (ih h)
      rwa [hs] at hcut
  | case10 => cases h

theorem Cut.arithmetic {syms : List Symbol} {s : Bytes} (h : Cut syms s) :
    ∀ c ∈ s, isArithmeticByte c = true := by
  induction h with
  | nil => simp
  | blank hc _ ih =>
    refine List.forall_mem_cons.2 ⟨?_, ih⟩
    rcases hc with rfl | rfl <;> rfl
  | int _ hds _ _ ih =>
    refine List.forall_mem_append.2 ⟨fun c hc => ?_, ih⟩
    rw [isArithmeticByte, hds.digits c hc, Bool.true_or]
  | mark hm _ ih =>
    exact List.forall_mem_append.2 ⟨fun c hc => ((Symbol.spelling_of_isMark hm).2 c hc).2, ih⟩

/-- The word bytes a text can be cut at are digits. -/
theorem Cut.isDigit_of_head? {syms : List Symbol} {s : Bytes} (h : Cut syms s) {c : UInt8}
    (hc : s.head? = some c) (hw : isWordByte c = true) : isDigit c = true := by
  cases h with
  | nil => cases hc
  | blank hblank h =>
    obtain rfl := Option.some.inj hc
    rcases hblank with rfl | rfl <;> cases hw
  | int hne hds _ _ =>
    rw [List.head?_append_of_ne_nil _ hne] at hc
    exact hds.digits c (List.mem_of_head? hc)
  | mark hm h =>
    obtain ⟨hne, hbytes⟩ := Symbol.spelling_of_isMark hm
    rw [List.head?_append_of_ne_nil _ hne] at hc
    rw [(hbytes c (List.mem_of_head? hc)).1] at hw
    cases hw

/-- Bytes of no word at the front of a normalised text were there before. -/
theorem exists_of_normalize_eq_append {t v u : Bytes} (hv : ∀ c ∈ v, isWordByte c = false)
    (h : normalize t = v ++ u) : ∃ t', t = v ++ t' ∧ normalize t' = u := by
  induction v generalizing t with
  | nil => exact ⟨t, rfl, h⟩
  | cons c v ih =>
    obtain ⟨hc, hmore⟩ := List.forall_mem_cons.1 hv
    cases t with
    | nil =>
      rw [normalize_nil] at h
      cases h
    | cons d t =>
      cases hd : isWordByte d with
      | false =>
        rw [normalize_cons hd] at h
        obtain ⟨rfl, hrest⟩ := List.cons.inj h
        obtain ⟨t', rfl, hu⟩ := ih hmore hrest
        exact ⟨t', rfl, hu⟩
      | true =>
        obtain ⟨b, w, hw, hb⟩ := keepsFront_normalize.word hd t
        rw [hw] at h
        obtain ⟨rfl, -⟩ := List.cons.inj h
        rw [hc] at hb
        cases hb

theorem eq_nil_of_normalize {t : Bytes} (h : normalize t = []) : t = [] := by
  cases t with
  | nil => rfl
  | cons c t =>
    cases hc : isWordByte c with
    | false =>
      rw [normalize_cons hc] at h
      cases h
    | true =>
      obtain ⟨d, u, hu, -⟩ := keepsFront_normalize.word hc t
      rw [hu] at h
      cases h

theorem head?_normalize {rest : Bytes} (hr : ∀ c, rest.head? = some c → isWordByte c = false) :
    ∀ c, (normalize rest).head? = some c → isWordByte c = false := by
  cases rest with
  | nil => simp
  | cons d rest =>
    intro c hc
    rw [normalize_cons (hr d rfl)] at hc
    exact hr c hc

/-- Plain digits at the front of a normalised text were a literal before. -/
theorem exists_of_normalize_eq_digits {t ds u : Bytes} (hne : ds ≠ []) (hds : IsPlain ds)
    (hu : ∀ c, u.head? = some c → isWordByte c = false) (h : normalize t = ds ++ u) :
    ∃ w t', t = w ++ t' ∧ Literal w (Stream.digitsValue ds) ∧ normalize t' = u := by
  have hword : ∀ c ∈ ds, isWordByte c = true := by
    intro c hc
    simp [isWordByte, hds.digits c hc]
  obtain ⟨d, more, rfl⟩ := List.exists_cons_of_ne_nil hne
  cases t with
  | nil =>
    rw [normalize_nil] at h
    cases h
  | cons c t =>
    have hc : isWordByte c = true := by
      by_contra hc
      rw [Bool.not_eq_true] at hc
      rw [normalize_cons hc] at h
      obtain ⟨rfl, -⟩ := List.cons.inj h
      rw [hword c List.mem_cons_self] at hc
      cases hc
    obtain ⟨w, rest, hsplit, hw, hr⟩ := exists_isWord_append hc t
    -- both are the word the normalised text begins with
    have hsame : normalizeWord w = d :: more := by
      rw [hsplit, normalize_isWord_append hw hr] at h
      have htake := congrArg (List.takeWhile isWordByte) h
      rwa [takeWhile_append_of_head? (isWord_normalizeWord hw).all (head?_normalize hr),
        takeWhile_append_of_head? hword hu] at htake
    rw [hsplit, normalize_isWord_append hw hr, hsame] at h
    rw [← hsame] at hds ⊢
    exact ⟨w, rest, hsplit, literal_of_isPlain hw hds, List.append_cancel_left h⟩

/-- A text whose normal form is cut into symbols is spelled by them. -/
theorem spelled_of_cut {syms : List Symbol} {t : Bytes} (h : Cut syms (normalize t)) :
    Spelled syms t := by
  generalize hu : normalize t = u at h
  induction h generalizing t with
  | nil =>
    obtain rfl := eq_nil_of_normalize hu
    exact .nil isGap_nil
  | @blank syms c s hc h ih =>
    have hword : ∀ b ∈ [c], isWordByte b = false := by
      rintro b hb
      obtain rfl := List.mem_singleton.1 hb
      rcases hc with rfl | rfl <;> rfl
    obtain ⟨t', rfl, ht'⟩ := exists_of_normalize_eq_append hword hu
    exact (ih ht').gap_append fun b hb => List.mem_singleton.1 hb ▸ hc
  | @int syms ds s hne hds hs h ih =>
    have hword : ∀ c, s.head? = some c → isWordByte c = false := by
      intro c hc
      by_contra hw
      have hdigit := h.isDigit_of_head? hc (Bool.not_eq_false _ ▸ hw)
      rw [hs c hc] at hdigit
      cases hdigit
    obtain ⟨w, t', rfl, hw, ht'⟩ := exists_of_normalize_eq_digits hne hds hword hu
    exact .cons isGap_nil (.int hw) (ih ht')
  | @mark syms symbol s hm h ih =>
    obtain ⟨t', rfl, ht'⟩ := exists_of_normalize_eq_append (isWordByte_of_mem_spelling hm) hu
    exact .cons isGap_nil (.mark hm) (ih ht')

/-! ## Expressions are cut into their symbols -/

section Scan

variable {column depth : Nat} {u : Bytes}

theorem scan_gap {g : Bytes} (hg : IsGap g) (u : Bytes) (column depth : Nat) :
    ∃ column', Stream.scan column depth (g ++ u) = Stream.scan column' depth u := by
  induction g generalizing column with
  | nil => exact ⟨column, rfl⟩
  | cons c g ih =>
    obtain ⟨hc, hg⟩ := List.forall_mem_cons.1 hg
    obtain ⟨column', h⟩ := ih hg (column + 1)
    exact ⟨column', by rw [List.cons_append, Stream.scan, if_pos hc, h]⟩

theorem scan_plain (column depth : Nat) {ds : Bytes} (hne : ds ≠ []) (hds : IsPlain ds)
    (hu : ∀ c, u.head? = some c → isDigit c = false) : ∃ stop,
      Stream.scan column depth (ds ++ u) =
        .more (.int (Stream.digitsValue ds)) column stop (Stream.scan stop depth u) := by
  obtain ⟨c, more, rfl⟩ := List.exists_cons_of_ne_nil hne
  obtain ⟨hc, hmore⟩ := List.forall_mem_cons.1 hds.digits
  have hblank : ¬(c = byte ' ' ∨ c = byte '\t') := by
    rintro (rfl | rfl) <;> cases hc
  rw [List.cons_append, Stream.scan, if_neg hblank, if_pos hc]
  simp only [takeWhile_append_of_head? hmore hu, dropWhile_append_of_head? hmore hu,
    literalFlaw?_eq_none.2 hds.zeros]
  exact ⟨_, rfl⟩

/-- The bytes of operators are no blanks, digits or parentheses. -/
theorem single?_spec : ∀ c : UInt8, (Stream.single? c).isSome = true →
    ¬(c = byte ' ' ∨ c = byte '\t') ∧ ¬isDigit c = true ∧ c ≠ byte '(' ∧ c ≠ byte ')' :=
  forall_byte (by decide +kernel)

theorem scan_single {c : UInt8} {symbol : Symbol} (h : Stream.single? c = some symbol)
    (hu : u.head? = some c → Stream.double? c = none) :
    Stream.scan column depth (c :: u) =
      .more symbol column (column + 1) (Stream.scan (column + 1) depth u) := by
  obtain ⟨hblank, hdigit, hopen, hclose⟩ := single?_spec c (by rw [h]; rfl)
  have hnone : (if u.head? = some c then Stream.double? c else none) = none := by
    split
    · exact hu ‹_›
    · rfl
  rw [Stream.scan, if_neg hblank, if_neg hdigit, if_neg hopen, if_neg hclose, hnone, h]

theorem scan_double {c : UInt8} {symbol : Symbol} (h : Stream.double? c = some symbol)
    (hc : (Stream.single? c).isSome = true) :
    Stream.scan column depth (c :: c :: u) =
      .more symbol column (column + 2) (Stream.scan (column + 2) depth u) := by
  obtain ⟨hblank, hdigit, hopen, hclose⟩ := single?_spec c hc
  rw [Stream.scan, if_neg hblank, if_neg hdigit, if_neg hopen, if_neg hclose, List.head?_cons,
    if_pos rfl, h]
  rfl

theorem scan_sign (op : UnaryOp) (column depth : Nat) (u : Bytes) : ∃ stop,
    Stream.scan column depth (op.symbol.spelling ++ u) =
      .more op.symbol column stop (Stream.scan stop depth u) := by
  cases op with
  | plus => exact ⟨_, scan_single (c := byte '+') rfl fun _ => rfl⟩
  | minus => exact ⟨_, scan_single (c := byte '-') rfl fun _ => rfl⟩
  | complement => exact ⟨_, scan_single (c := byte '~') rfl fun _ => rfl⟩

/-- An operator is cut off as a whole if the next byte does not make it longer. -/
theorem scan_operator (op : Operator) (column depth : Nat)
    (hu : ∀ c, u.head? = some c → c ≠ byte '*' ∧ c ≠ byte '/') : ∃ stop,
      Stream.scan column depth (op.symbol.spelling ++ u) =
        .more op.symbol column stop (Stream.scan stop depth u) := by
  cases op with
  | or => exact ⟨_, scan_single (c := byte '|') rfl fun _ => rfl⟩
  | and => exact ⟨_, scan_single (c := byte '&') rfl fun _ => rfl⟩
  | shiftLeft => exact ⟨_, scan_double (c := byte '<') rfl rfl⟩
  | shiftRight => exact ⟨_, scan_double (c := byte '>') rfl rfl⟩
  | add => exact ⟨_, scan_single (c := byte '+') rfl fun _ => rfl⟩
  | sub => exact ⟨_, scan_single (c := byte '-') rfl fun _ => rfl⟩
  | mul => exact ⟨_, scan_single (c := byte '*') rfl fun h => absurd rfl (hu _ h).1⟩
  | div => exact ⟨_, scan_single (c := byte '/') rfl fun h => absurd rfl (hu _ h).2⟩
  | floorDiv => exact ⟨_, scan_double (c := byte '/') rfl rfl⟩
  | mod => exact ⟨_, scan_single (c := byte '%') rfl fun _ => rfl⟩

theorem scan_open (column depth : Nat) (u : Bytes) :
    Stream.scan column depth (byte '(' :: u) =
      .more .parenOpen column (column + 1) (Stream.scan (column + 1) (depth + 1) u) := by
  rw [Stream.scan, if_neg (by decide), if_neg (by decide), if_pos rfl]

theorem scan_close (column depth : Nat) (u : Bytes) :
    Stream.scan column (depth + 1) (byte ')' :: u) =
      .more .parenClose column (column + 1) (Stream.scan (column + 1) depth u) := by
  rw [Stream.scan, if_neg (by decide), if_neg (by decide), if_neg (by decide), if_pos rfl,
    if_neg (Nat.succ_ne_zero depth), Nat.add_sub_cancel]

end Scan

/-- A text before `rest` is cut into symbols, from one depth to another. -/
def Scans (syms : List Symbol) (depth depth' : Nat) (t rest : Bytes) : Prop :=
  ∀ column, ∃ column', Leads syms (Stream.scan column depth (normalize (t ++ rest)))
    (Stream.scan column' depth' (normalize rest))

namespace Scans

variable {syms syms' : List Symbol} {d d' d'' : Nat} {t t' rest : Bytes}

theorem append (h : Scans syms d d' t (t' ++ rest)) (h' : Scans syms' d' d'' t' rest) :
    Scans (syms ++ syms') d d'' (t ++ t') rest := by
  intro column
  obtain ⟨column', hleads⟩ := h column
  obtain ⟨column'', hleads'⟩ := h' column'
  rw [← List.append_assoc] at hleads
  exact ⟨column'', hleads.append hleads'⟩

theorem gap {g : Bytes} (hg : IsGap g) (d : Nat) (rest : Bytes) : Scans [] d d g rest := by
  intro column
  obtain ⟨column', h⟩ := scan_gap hg (normalize rest) column d
  rw [normalize_of_forall hg.wordless, h]
  exact ⟨column', .nil⟩

theorem literal {w : Bytes} {n : Nat} (hw : Literal w n) (hn : n < intLimit)
    (hr : ∀ c, rest.head? = some c → isWordByte c = false) : Scans [.int n] d d w rest := by
  intro column
  obtain ⟨hplain, hvalue⟩ := isPlain_of_literal hw hn
  have hne : normalizeWord w ≠ [] := (isWord_normalizeWord (isWord_of_literal hw)).ne_nil
  have hdigit : ∀ c, (normalize rest).head? = some c → isDigit c = false := by
    intro c hc
    have hword := head?_normalize hr c hc
    unfold isWordByte at hword
    grind
  obtain ⟨stop, h⟩ := scan_plain column d hne hplain hdigit
  rw [normalize_isWord_append (isWord_of_literal hw) hr, h, hvalue]
  exact ⟨stop, leads_singleton⟩

theorem sign (op : UnaryOp) (d : Nat) (rest : Bytes) :
    Scans [op.symbol] d d op.symbol.spelling rest := by
  intro column
  obtain ⟨stop, h⟩ := scan_sign op column d (normalize rest)
  rw [normalize_of_forall (isWordByte_of_mem_spelling (by simp)), h]
  exact ⟨stop, leads_singleton⟩

theorem operator (op : Operator) (d : Nat)
    (hr : ∀ c, rest.head? = some c → c ≠ byte '*' ∧ c ≠ byte '/') :
    Scans [op.symbol] d d op.symbol.spelling rest := by
  intro column
  have hback : ∀ b, isWordByte b = false → (normalize rest).head? = some b →
      rest.head? = some b := by
    intro b hb h
    obtain ⟨u, hu⟩ := List.head?_eq_some_iff.1 h
    obtain ⟨t', rfl, -⟩ := exists_of_normalize_eq_append (v := [b]) (by simpa using hb) hu
    rfl
  obtain ⟨stop, h⟩ := scan_operator (u := normalize rest) op column d fun c hc => by
    constructor
    · rintro rfl
      exact (hr _ (hback _ rfl hc)).1 rfl
    · rintro rfl
      exact (hr _ (hback _ rfl hc)).2 rfl
  rw [normalize_of_forall (isWordByte_of_mem_spelling (by simp)), h]
  exact ⟨stop, leads_singleton⟩

theorem parenOpen (d : Nat) (rest : Bytes) :
    Scans [.parenOpen] d (d + 1) (Symbol.spelling .parenOpen) rest := by
  intro column
  have hspelling : Symbol.spelling .parenOpen = [byte '('] := rfl
  rw [hspelling, List.singleton_append, normalize_cons rfl, scan_open]
  exact ⟨_, leads_singleton⟩

theorem parenClose (d : Nat) (rest : Bytes) :
    Scans [.parenClose] (d + 1) d (Symbol.spelling .parenClose) rest := by
  intro column
  have hspelling : Symbol.spelling .parenClose = [byte ')'] := rfl
  rw [hspelling, List.singleton_append, normalize_cons rfl, scan_close]
  exact ⟨_, leads_singleton⟩

end Scans

theorem Spelled.exists_mark {symbol : Symbol} {syms : List Symbol} {t : Bytes}
    (h : Spelled (symbol :: syms) t) (hm : symbol.isMark = true) :
    ∃ g t', t = g ++ symbol.spelling ++ t' ∧ IsGap g ∧ Spelled syms t' := by
  cases h with
  | @cons _ _ g w t' hg hw h =>
    cases hw with
    | int _ => cases hm
    | mark _ => exact ⟨g, t', rfl, hg, h⟩

/-- The text of an expression begins with none of the bytes that are written twice. -/
theorem Spelled.head?_ne {syms : List Symbol} {symbol : Symbol} {t rest : Bytes}
    (h : Spelled (symbol :: syms) t) (hs : symbol.Opens) :
    ∀ c, (t ++ rest).head? = some c → c ≠ byte '*' ∧ c ≠ byte '/' := by
  cases h with
  | @cons _ _ g w t hg hw _ =>
    intro c hc
    cases g with
    | cons b g =>
      obtain rfl := Option.some.inj hc
      rcases hg b List.mem_cons_self with rfl | rfl <;> decide
    | nil =>
      cases hw with
      | int hw =>
        obtain ⟨b, w, rfl⟩ := List.exists_cons_of_ne_nil (isWord_of_literal hw).ne_nil
        obtain rfl := Option.some.inj hc
        have hb := (isWord_of_literal hw).all b List.mem_cons_self
        constructor <;> rintro rfl <;> cases hb
      | mark hm =>
        cases symbol with
        | int n => cases hm
        | parenOpen | plus | minus | tilde =>
          obtain rfl := Option.some.inj hc
          decide
        | _ => exact hs.elim

/-- Neither a gap nor a mark goes on with a word. -/
theorem IsGap.head?_append {g rest : Bytes} (hg : IsGap g)
    (hr : ∀ c, rest.head? = some c → isWordByte c = false) :
    ∀ c, (g ++ rest).head? = some c → isWordByte c = false := by
  cases g with
  | nil => exact hr
  | cons b g =>
    intro c hc
    obtain rfl := Option.some.inj hc
    exact hg.wordless b List.mem_cons_self

theorem head?_spelling_append (symbol : Symbol) (hm : symbol.isMark = true) (rest : Bytes) :
    ∀ c, (symbol.spelling ++ rest).head? = some c → isWordByte c = false := by
  intro c hc
  rw [List.head?_append_of_ne_nil _ (Symbol.spelling_of_isMark hm).1] at hc
  exact isWordByte_of_mem_spelling hm c (List.mem_of_head? hc)

/-- The text of an expression is cut into the symbols of the expression, and the depth is the same
after them as before. -/
theorem Derives.scans {rank : Nat} {syms : List Symbol} {e : Expr} (h : Derives rank syms e)
    {t rest : Bytes} (ht : Spelled syms t) (hr : ∀ c, rest.head? = some c → isWordByte c = false)
    (d : Nat) : Scans syms d d t rest := by
  induction h generalizing t rest d with
  | @literal _ n hn =>
    cases ht with
    | @cons _ _ g w t hg hw ht =>
      cases ht with
      | nil hg' =>
        cases hw with
        | mark hm => cases hm
        | int hw =>
          exact ((Scans.gap hg d _).append (.literal hw hn (hg'.head?_append hr))).append
            (.gap hg' d rest)
  | @paren _ syms e he ih =>
    obtain ⟨g, t, rfl, hg, ht⟩ := ht.exists_mark rfl
    obtain ⟨inner, t, rfl, hinner, ht⟩ := ht.exists_append
    obtain ⟨g', t, rfl, hg', ht⟩ := ht.exists_mark rfl
    cases ht with
    | nil hg'' =>
      have hnext := hg'.head?_append (head?_spelling_append .parenClose rfl (t ++ rest))
      rw [← List.append_assoc, ← List.append_assoc] at hnext
      have hclose := ((Scans.gap hg' (d + 1) _).append (.parenClose d _)).append (.gap hg'' d rest)
      exact ((Scans.gap hg d _).append (.parenOpen d _)).append
        ((ih hinner hnext (d + 1)).append hclose)
  | @unary _ op syms a ha ih =>
    obtain ⟨g, t, rfl, hg, ht⟩ := ht.exists_mark op.isMark_symbol
    exact ((Scans.gap hg d _).append (.sign op d _)).append (ih ht hr d)
  | @binary rank op xs ys a b hop ha hb iha ihb =>
    obtain ⟨left, right, rfl, hleft, hright⟩ := ht.exists_append
    obtain ⟨g, u, rfl, hg, hu⟩ := hright.exists_mark op.isMark_symbol
    obtain ⟨symbol, syms, rfl, hopens⟩ := hb.exists_cons
    have hnext := hg.head?_append (head?_spelling_append op.symbol op.isMark_symbol (u ++ rest))
    rw [← List.append_assoc, ← List.append_assoc] at hnext
    exact (iha hleft hnext d).append
      (((Scans.gap hg d _).append (.operator op d (hu.head?_ne hopens))).append (ihb hu hr d))

/-- An expression is read from a normalised text if it is spelled by the text. -/
theorem exists_leads_scan_iff {t : Bytes} {e : Expr} :
    (∃ syms column, Leads syms (Stream.scan 1 0 (normalize t)) (.done column) ∧ Derives 0 syms e) ↔
      ∃ syms, Spelled syms t ∧ Derives 0 syms e := by
  constructor
  · rintro ⟨syms, column, hleads, hderives⟩
    exact ⟨syms, spelled_of_cut (cut_of_scan hleads), hderives⟩
  · rintro ⟨syms, hspelled, hderives⟩
    have hend : ∀ c, ([] : Bytes).head? = some c → isWordByte c = false := by simp
    obtain ⟨column, hleads⟩ := hderives.scans hspelled hend 0 1
    rw [List.append_nil, normalize_nil, Stream.scan] at hleads
    exact ⟨syms, column, hleads, hderives⟩

end Asm16.Arith
