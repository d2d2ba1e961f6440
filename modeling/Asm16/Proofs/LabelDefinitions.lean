import Asm16.Proofs.Printed
import Asm16.Proofs.Words

/-!
# The two spellings of a label definition

A label is defined by its name with a colon before it or behind it. A name is a word that does not
begin with a digit, with a dot before it if the label is local, and ends before a byte of no word
(`identifier?_eq_some_iff`). It holds no colon, so it is found again in either spelling
(`Marked.name_eq`).

The two spellings are read by different steps, and the second one could be a directive until its
colon is seen. Both steps leave the state of the line as it was (`lexemes_colon_name`,
`lexemes_name_colon`), and a text beside the colon that is no name is not what they read
(`isIdentifier_of_colon_front`, `isIdentifier_of_colon_back`).
-/

namespace Asm16

/-! ## Names -/

/-- The name of a label : a word, behind a dot if the label is local. -/
def labelName (isLocal : Bool) (word : Bytes) : Bytes :=
  if isLocal then byte '.' :: word else word

theorem Lexer.stops_nil : Stops [] := by simp [Stops]

section Names

open Lexer

variable {isLocal : Bool} {word s name after t : Bytes}

theorem not_mem_of_isDefineKey (hw : isDefineKey word = true) {c : UInt8}
    (hc : isWordByte c = false) : c ∉ word := by
  intro hmem
  rw [(isWord_of_isDefineKey hw).all c hmem] at hc
  cases hc

theorem head?_labelName (hw : isDefineKey word = true) :
    decide ((labelName isLocal word).head? = some (byte '.')) = isLocal := by
  cases isLocal with
  | true => rfl
  | false =>
    refine decide_eq_false fun hdot => ?_
    exact not_mem_of_isDefineKey hw (c := byte '.') rfl (List.mem_of_head? hdot)

theorem colon_not_mem_labelName (hw : isDefineKey word = true) :
    byte ':' ∉ labelName isLocal word := by
  have hword : byte ':' ∉ word := not_mem_of_isDefineKey hw rfl
  cases isLocal with
  | true => exact List.not_mem_cons_of_ne_of_not_mem (by decide) hword
  | false => exact hword

theorem isDefineKey_of_nameStart {c : UInt8} (hc : isNameStart c = true) (rest : Bytes) :
    isDefineKey (c :: rest.takeWhile isWordByte) = true :=
  Bool.and_eq_true_iff.2 ⟨hc, List.all_takeWhile⟩

/-- What the name at the front of a text is made of, and where it ends. -/
theorem identifier?_eq_some_iff : identifier? s = some (name, after) ↔
    ∃ isLocal word, isDefineKey word = true ∧ name = labelName isLocal word ∧ s = name ++ after ∧
      Stops after := by
  constructor
  · intro h
    have happend := identifier?_append h
    cases s with
    | nil => cases h
    | cons c rest =>
      by_cases hc : c = byte '.'
      · subst hc
        rw [identifier?_dot] at h
        split at h
        · rename_i hstart
          obtain ⟨rfl, rfl⟩ := Prod.mk.inj (Option.some.inj h)
          cases rest with
          | nil => cases hstart
          | cons d rest =>
            have hd : isNameStart d = true := hstart
            have hword : isWordByte d = true := (isWord_of_isDefineKey
              (isDefineKey_of_nameStart hd rest)).all d List.mem_cons_self
            refine ⟨true, (d :: rest).takeWhile isWordByte, ?_, rfl, happend.symm,
              head?_dropWhile isWordByte _⟩
            rw [List.takeWhile_cons_of_pos hword]
            exact isDefineKey_of_nameStart hd rest
        · cases h
      · rw [identifier?_cons hc] at h
        split at h
        · rename_i hstart
          obtain ⟨rfl, rfl⟩ := Prod.mk.inj (Option.some.inj h)
          exact ⟨false, _, isDefineKey_of_nameStart hstart rest, rfl, happend.symm,
            head?_dropWhile isWordByte _⟩
        · cases h
  · rintro ⟨isLocal, word, hw, rfl, rfl, hstops⟩
    have hbytes := (isWord_of_isDefineKey hw).all
    cases word with
    | nil => cases hw
    | cons c rest =>
      obtain ⟨hc, -⟩ := Bool.and_eq_true_iff.1 hw
      have hrest : ∀ d ∈ rest, isWordByte d = true := fun d hd =>
        hbytes d (List.mem_cons_of_mem _ hd)
      cases isLocal with
      | true =>
        show identifier? (byte '.' :: (c :: rest ++ after)) = some (byte '.' :: c :: rest, after)
        rw [identifier?_dot, takeWhile_append_of_head? hbytes hstops,
          dropWhile_append_of_head? hbytes hstops]
        exact if_pos hc
      | false =>
        have hdot : c ≠ byte '.' := by
          rintro rfl
          cases hc
        show identifier? (c :: (rest ++ after)) = some (c :: rest, after)
        rw [identifier?_cons hdot, takeWhile_append_of_head? hrest hstops,
          dropWhile_append_of_head? hrest hstops]
        exact if_pos hc

theorem isIdentifier_iff : isIdentifier t = true ↔ identifier? t = some (t, []) := by
  unfold isIdentifier
  constructor
  · intro h
    split at h
    · rename_i name rest hname
      obtain rfl := List.isEmpty_iff.1 h
      have happend := identifier?_append hname
      rw [List.append_nil] at happend
      rw [hname, happend]
    · cases h
  · intro h
    rw [h]
    rfl

/-- A name is one before any text it ends at. -/
theorem identifier?_append_of_stops (h : identifier? s = some (name, after)) {rest : Bytes}
    (hr : Stops rest) : identifier? (name ++ rest) = some (name, rest) := by
  obtain ⟨isLocal, word, hw, hname, -, -⟩ := identifier?_eq_some_iff.1 h
  exact identifier?_eq_some_iff.2 ⟨isLocal, word, hw, hname, rfl, hr⟩

theorem identifier?_self (h : identifier? s = some (name, after)) :
    identifier? name = some (name, []) := by
  have hself := identifier?_append_of_stops h stops_nil
  rwa [List.append_nil] at hself

theorem colon_not_mem_of_identifier? (h : identifier? s = some (name, after)) :
    byte ':' ∉ name := by
  obtain ⟨isLocal, word, hw, rfl, -, -⟩ := identifier?_eq_some_iff.1 h
  exact colon_not_mem_labelName hw

theorem ne_nil_of_identifier? (h : identifier? s = some (name, after)) : name ≠ [] := by
  obtain ⟨isLocal, word, hw, rfl, -, -⟩ := identifier?_eq_some_iff.1 h
  cases isLocal with
  | true => exact List.cons_ne_nil _ _
  | false => exact (isWord_of_isDefineKey hw).ne_nil

theorem first_of_identifier? {c : UInt8} (h : identifier? (c :: t) = some (name, after)) :
    isBlank c = false ∧ c ≠ byte ';' := by
  obtain ⟨isLocal, word, hw, rfl, hs, -⟩ := identifier?_eq_some_iff.1 h
  cases isLocal with
  | true =>
    obtain ⟨rfl, -⟩ := List.cons.inj hs
    decide
  | false =>
    cases word with
    | nil => cases hw
    | cons d word =>
      obtain ⟨rfl, -⟩ := List.cons.inj hs
      have hc : isWordByte c = true := (isWord_of_isDefineKey hw).all c List.mem_cons_self
      refine ⟨isBlank_of_isWordByte hc, ?_⟩
      rintro rfl
      cases hc

end Names

/-! ## Definitions -/

/-- The ways to write the name of a label : alone, or with a colon before it or behind it. -/
inductive Marked (t : Bytes) : Bytes → Prop
  | alone : Marked t t
  | front : Marked t (byte ':' :: t)
  | back : Marked t (t ++ [byte ':'])

/-- A text without a colon at its beginning. -/
def withoutFront : Bytes → Bytes
  | [] => []
  | c :: rest => if c = byte ':' then rest else c :: rest

/-- A text without a colon at its end. -/
def withoutBack (s : Bytes) : Bytes :=
  if s.getLast? = some (byte ':') then s.dropLast else s

theorem Lexeme.name_eq_without {l : Lexeme} (hk : l.kind = .labelDef ∨ l.kind = .labelUse) :
    l.name = withoutBack (withoutFront l.text) := by
  have hback (s : Bytes) : withoutBack s = (s.getLast?.elim [] fun c =>
      if c = byte ':' then s.dropLast else s) := by
    cases h : s.getLast? with
    | none => simp [withoutBack, List.getLast?_eq_none_iff.1 h]
    | some c => simp [withoutBack, h]
  rw [hback]
  unfold Lexeme.name
  rcases hk with hk | hk <;> rw [hk] <;> cases l.text with
  | nil => rfl
  | cons c rest =>
    simp only [withoutFront]
    split <;> split <;> simp_all

theorem withoutFront_of_not_mem {t : Bytes} (ht : byte ':' ∉ t) (s : Bytes) (hs : t ≠ []) :
    withoutFront (t ++ s) = t ++ s := by
  obtain ⟨c, rest, rfl⟩ := List.exists_cons_of_ne_nil hs
  refine if_neg ?_
  rintro rfl
  exact ht List.mem_cons_self

theorem withoutBack_of_not_mem {t : Bytes} (ht : byte ':' ∉ t) : withoutBack t = t :=
  if_neg fun hlast => ht (List.mem_of_getLast? hlast)

/-- The name of a label is what is written beside the colon. -/
theorem Marked.name_eq {t : Bytes} {l : Lexeme} (h : Marked t l.text) (ht : byte ':' ∉ t)
    (hne : t ≠ []) (hk : l.kind = .labelDef ∨ l.kind = .labelUse) : l.name = t := by
  rw [Lexeme.name_eq_without hk]
  generalize l.text = text at h
  cases h with
  | alone =>
    have hfront := withoutFront_of_not_mem ht [] hne
    rw [List.append_nil] at hfront
    rw [hfront, withoutBack_of_not_mem ht]
  | front => exact withoutBack_of_not_mem ht
  | back =>
    rw [withoutFront_of_not_mem ht _ hne, withoutBack, if_pos List.getLast?_concat,
      List.dropLast_concat]

namespace Lexer

variable {t rest : Bytes}

theorem labelDef_spec {text s after : Bytes} (h : Marked t text)
    (ht : identifier? s = some (t, after)) :
    (labelDef text).name = t ∧ (labelDef text).isLocal = decide (t.head? = some (byte '.')) := by
  have hname : (labelDef text).name = t :=
    Marked.name_eq (l := labelDef text) h (colon_not_mem_of_identifier? ht)
      (ne_nil_of_identifier? ht) (.inl rfl)
  have hlocal : (labelDef text).isLocal =
      decide ((labelDef text).name.head? = some (byte '.')) := rfl
  exact ⟨hname, by rw [hlocal, hname]⟩

theorem stepAt_line {st : State} (hst : st.stage = .line) {c : UInt8} (hblank : isBlank c = false)
    (hsemi : c ≠ byte ';') (rest : Bytes) : stepAt st c rest = lineStep st c rest := by
  rw [stepAt, if_neg (by simp [hblank]), if_neg hsemi, if_pos hst]

theorem lexemes_colon_name (ht : isIdentifier t = true) (hr : Stops rest) :
    lexemes (byte ':' :: (t ++ rest)) = labelDef (byte ':' :: t) :: lexemes rest := by
  have hid := identifier?_append_of_stops (isIdentifier_iff.1 ht) hr
  rw [lexemes, run_cons, step, stepAt_line rfl rfl (by decide), lineStep_colon, hid]
  rfl

theorem lexemes_name_colon (ht : isIdentifier t = true) (rest : Bytes) :
    lexemes (t ++ byte ':' :: rest) = labelDef (t ++ [byte ':']) :: lexemes rest := by
  have hid := identifier?_append_of_stops (isIdentifier_iff.1 ht)
    (stops_cons (c := byte ':') rfl rest)
  cases t with
  | nil => cases ht
  | cons c t =>
    rw [List.cons_append] at hid ⊢
    obtain ⟨hblank, hsemi⟩ := first_of_identifier? hid
    rw [lexemes, run_cons, step, stepAt_line rfl hblank hsemi, lineStep_label hid]
    rfl

theorem head?_kind_directive? {st : State} {c : UInt8} {rest : Bytes} {s : Step}
    (h : directive? st c rest = some s) : s.emitted.head?.map (·.kind) = some .directive := by
  simp only [directive?] at h
  split at h
  · cases h
  split at h
  · cases h
  · obtain rfl := Option.some.inj h
    rfl
  · obtain rfl := Option.some.inj h
    rfl

/-- The line begins with the definition of `t`. -/
def DefinesFirst (t s : Bytes) : Prop :=
  ∃ l, (lexemes s).head? = some l ∧ l.kind = .labelDef ∧ l.name = t

theorem isIdentifier_of_colon_front (h : DefinesFirst t (byte ':' :: t)) :
    isIdentifier t = true := by
  obtain ⟨l, hl, hk, hname⟩ := h
  rw [lexemes, run_cons, step, stepAt_line rfl rfl (by decide), lineStep_colon] at hl
  cases hid : identifier? t with
  | none =>
    rw [hid] at hl
    obtain rfl := Option.some.inj hl
    cases hk
  | some p =>
    obtain ⟨name, after⟩ := p
    rw [hid] at hl
    obtain rfl := Option.some.inj hl
    obtain rfl : name = t := (labelDef_spec .front hid).1.symm.trans hname
    obtain rfl : after = [] := List.append_right_eq_self.1 (identifier?_append hid)
    exact isIdentifier_iff.2 hid

theorem isIdentifier_of_colon_back (h : DefinesFirst t (t ++ [byte ':'])) :
    isIdentifier t = true := by
  obtain ⟨l, hl, hk, hname⟩ := h
  cases t with
  | nil =>
    rw [List.nil_append, lexemes, run_cons] at hl
    obtain rfl := Option.some.inj hl
    cases hk
  | cons c r =>
    rw [List.cons_append, lexemes, run_cons, step] at hl
    have hblank : isBlank c = false := by
      refine Bool.eq_false_iff.2 fun hc => ?_
      rw [stepAt, if_pos hc] at hl
      obtain rfl := Option.some.inj hl
      cases hk
    have hsemi : c ≠ byte ';' := by
      rintro rfl
      obtain rfl := Option.some.inj hl
      cases hk
    rw [stepAt_line rfl hblank hsemi] at hl
    have hstep := lineStep_spec {} c (r ++ [byte ':'])
    generalize lineStep {} c (r ++ [byte ':']) = s at hstep hl
    cases hstep with
    | directive _ hd =>
      have hkind := head?_kind_directive? hd
      cases he : s.emitted with
      | nil => simp [he] at hkind
      | cons d more =>
        rw [he] at hl hkind
        obtain rfl := Option.some.inj hl
        have hdirective : d.kind = .directive := Option.some.inj hkind
        rw [hk] at hdirective
        cases hdirective
    | colon hc hid =>
      -- the name would begin with the colon it is marked by
      obtain rfl := Option.some.inj hl
      have hbad := colon_not_mem_of_identifier? hid
      rw [(labelDef_spec (hc ▸ .front) hid).1] at hname
      rw [hname, hc] at hbad
      exact absurd List.mem_cons_self hbad
    | label hid =>
      obtain rfl := Option.some.inj hl
      rw [(labelDef_spec .back hid).1] at hname
      subst hname
      exact isIdentifier_iff.2 (identifier?_self hid)
    | word hkind _ =>
      obtain rfl := Option.some.inj hl
      simp only [plain] at hk
      subst hk
      cases hkind
    | loneColon | loneDot | other =>
      obtain rfl := Option.some.inj hl
      cases hk

end Lexer

/-- The tokens of a line that defines `t` and holds nothing else. -/
def IsDefinition (t : Bytes) (ts : List Token) : Prop :=
  ∃ d e, ts = [d, e] ∧ d.kind = .labelDef ∧ d.name = t ∧ e.kind = .eof

theorem lex_cons {s rest : Bytes} {l : Lexeme} (h : lexemes s = l :: lexemes rest) (mode : Mode) :
    lex mode s = ⟨l, 0, mode, []⟩ :: Lexer.place mode l.text.length (lexemes rest) := by
  rw [lex, h, Lexer.place, Nat.zero_add]

theorem definesFirst_of_isDefinition {mode : Mode} {t s : Bytes} (h : IsDefinition t (lex mode s)) :
    Lexer.DefinesFirst t s := by
  obtain ⟨d, e, hlex, hk, hname, -⟩ := h
  unfold lex at hlex
  cases hl : lexemes s with
  | nil =>
    rw [hl] at hlex
    cases hlex
  | cons l rest =>
    rw [hl] at hlex
    obtain ⟨rfl, -⟩ := List.cons.inj hlex
    exact ⟨l, by rw [hl]; rfl, hk, hname⟩

theorem lexemes_nil : lexemes [] = [Lexer.mark .eof] := by
  rw [lexemes, Lexer.run]
  rfl

theorem isDefinition_of_lexemes {mode : Mode} {t text s : Bytes} (ht : isIdentifier t = true)
    (hm : Marked t text) (h : lexemes s = Lexer.labelDef text :: lexemes []) :
    IsDefinition t (lex mode s) := by
  rw [lex_cons h, lexemes_nil]
  exact ⟨_, _, rfl, rfl, (Lexer.labelDef_spec hm (isIdentifier_iff.1 ht)).1, rfl⟩

/-- A name may be defined with the colon before it or behind it. Exactly the names are read as
definitions in the one and in the other way. Before any text that does not go on with the name the
two definitions have the same place, name and locality, and what comes behind them is read alike. -/
theorem lex_labelDef (mode : Mode) (t : Bytes) :
    (isIdentifier t = true ↔ IsDefinition t (lex mode (byte ':' :: t))) ∧
    (isIdentifier t = true ↔ IsDefinition t (lex mode (t ++ [byte ':']))) ∧
    (isIdentifier t = true → ∀ rest : Bytes, (∀ c, rest.head? = some c → isWordByte c = false) →
      ∃ d d' ts, lex mode (byte ':' :: t ++ rest) = d :: ts ∧
        lex mode (t ++ byte ':' :: rest) = d' :: ts ∧
        d.kind = .labelDef ∧ d'.kind = .labelDef ∧ d.start = d'.start ∧ d.stop = d'.stop ∧
        d.name = t ∧ d'.name = t ∧ d.isLocal = d'.isLocal) := by
  refine ⟨⟨fun ht => ?_, fun h => ?_⟩, ⟨fun ht => ?_, fun h => ?_⟩, fun ht rest hr => ?_⟩
  · refine isDefinition_of_lexemes ht .front ?_
    simpa using Lexer.lexemes_colon_name ht Lexer.stops_nil
  · exact Lexer.isIdentifier_of_colon_front (definesFirst_of_isDefinition h)
  · exact isDefinition_of_lexemes ht .back (Lexer.lexemes_name_colon ht [])
  · exact Lexer.isIdentifier_of_colon_back (definesFirst_of_isDefinition h)
  · have hid := isIdentifier_iff.1 ht
    obtain ⟨hfront, hlocal⟩ := Lexer.labelDef_spec .front hid
    obtain ⟨hback, hlocal'⟩ := Lexer.labelDef_spec .back hid
    have hlength : (Lexer.labelDef (t ++ [byte ':'])).text.length =
        (Lexer.labelDef (byte ':' :: t)).text.length :=
      List.length_append.trans (List.length_cons ..).symm
    have hlex := lex_cons (Lexer.lexemes_colon_name ht hr) mode
    have hlex' := lex_cons (Lexer.lexemes_name_colon ht rest) mode
    rw [hlength] at hlex'
    exact ⟨_, _, _, hlex, hlex', rfl, rfl, rfl, congrArg (0 + ·) hlength.symm, hfront, hback,
      hlocal.trans hlocal'.symm⟩

/-- A name that is also a directive word, before a directive of that word : the first one is a label
in either spelling. -/
theorem org_lex_labelDef :
    IsDefinition ".org" (lex .initial ":.org") ∧ IsDefinition ".org" (lex .initial ".org:") ∧
    ∃ d d' ts, lex .initial ":.org.org 4" = d :: ts ∧ lex .initial ".org:.org 4" = d' :: ts ∧
      d.kind = .labelDef ∧ d'.kind = .labelDef ∧ d.start = d'.start ∧ d.stop = d'.stop ∧
      d.name = ".org" ∧ d'.name = ".org" ∧ d.isLocal = d'.isLocal := by
  obtain ⟨hfront, hback, hrest⟩ := lex_labelDef .initial ".org"
  have hid : isIdentifier ".org" = true := by decide
  exact ⟨hfront.1 hid, hback.1 hid, hrest hid ".org 4" (Lexer.stops_cons rfl "org 4")⟩

end Asm16
