import Asm16.Proofs.Strings

/-!
# Data lines of strings

A line `DAT` with escaped strings, separated by commas, has one data value for each string, with one
string token that holds the text of the string (`map_toLexeme_lex_stringData`). A semicolon, a comma
or a bracket between quotes is part of the text. The line takes one word for each character, and the
word is the code of the character modulo `0x10000` (`stringData_roundTrip`).
-/

namespace Asm16

open Lexer

/-- A text as a string literal. -/
def quoted (s : String) : Bytes := byte '"' :: escaped (Bytes.ofString s) ++ [byte '"']

/-- A data line with string literals. -/
def stringData (ss : List String) : Bytes := "DAT " ++ Bytes.join [byte ','] (ss.map quoted)

/-- The words of a text : the codes of its characters modulo `0x10000`. -/
def codeWords (s : String) : List UInt16 :=
  s.toList.map fun c => UInt16.ofNat (c.toNat % 0x10000)

/-- The lexeme of a string literal. -/
def stringLexeme (s : String) : Lexeme := ⟨.string, quoted s, none, false, Bytes.ofString s⟩

/-- A data value that is a string. -/
def stringValue (s : String) : List Lexeme := [mark .dataStart, stringLexeme s, mark .dataEnd]

/-- Data values that are strings, with separators between them. -/
def stringValues (ss : List String) : List Lexeme :=
  List.intercalate [plain .separator [byte ',']] (ss.map stringValue)

namespace Lexer

/-! ## Lexing -/

/-- A state among data values; `inValue` tells whether one is open. -/
def amongData (inValue trailing afterValue : Bool) : State :=
  ⟨.data, 0, none, inValue, trailing, afterValue⟩

/-- A string literal opens a value and is read up to its own closing quote. -/
theorem sense_quoted (trailing v : Bool) (s : String) (rest : Bytes) :
    sense (amongData false trailing v) (quoted s ++ rest) =
      mark .dataStart :: stringLexeme s :: sense (amongData true false true) rest := by
  have hbefore : before (escaped (Bytes.ofString s) ++ byte '"' :: rest) rest =
      escaped (Bytes.ofString s) ++ [byte '"'] := by
    have hsuffix : rest <:+ escaped (Bytes.ofString s) ++ byte '"' :: rest :=
      (List.suffix_cons _ _).trans (List.suffix_append _ _)
    refine List.append_cancel_right ((before_append hsuffix).trans ?_)
    rw [List.append_assoc]
    rfl
  have hstring : stringStep (amongData true false v) (byte '"')
      (escaped (Bytes.ofString s) ++ byte '"' :: rest) =
        ⟨[stringLexeme s], amongData true false v, rest⟩ := by
    rw [stringStep, string?_escaped]
    simp only [hbefore]
    rfl
  have hstep : stepAt (amongData false trailing v) (byte '"')
      (escaped (Bytes.ofString s) ++ byte '"' :: rest) =
        ⟨[mark .dataStart, stringLexeme s], amongData true false v, rest⟩ := by
    have hvalue : valueStep (amongData true false v) (byte '"')
        (escaped (Bytes.ofString s) ++ byte '"' :: rest) =
          ⟨[stringLexeme s], amongData true false v, rest⟩ := hstring
    rw [stepAt_data rfl rfl (by decide), operandStep, if_neg (by decide),
      if_pos ⟨rfl, by simp [amongData]⟩]
    exact congrArg (fun t : Step => { t with emitted := mark .dataStart :: t.emitted }) hvalue
  rw [quoted, List.cons_append, List.cons_append, List.append_assoc, List.singleton_append,
    sense_cons, step, hstep]
  rfl

theorem sense_dataComma (v : Bool) (rest : Bytes) :
    sense (amongData true false v) (byte ',' :: rest) =
      mark .dataEnd :: plain .separator [byte ','] :: sense (amongData false true false) rest := by
  rw [sense_cons]
  rfl

theorem sense_dataEnd (v : Bool) : sense (amongData true false v) [] = [mark .dataEnd] := by
  rw [sense, run]
  rfl

theorem sense_stringValues (trailing v : Bool) (s : String) (ss : List String) :
    sense (amongData false trailing v) (Bytes.join [byte ','] ((s :: ss).map quoted)) =
      stringValues (s :: ss) := by
  induction ss generalizing s trailing v with
  | nil =>
    have h := sense_quoted trailing v s []
    rw [List.append_nil, sense_dataEnd] at h
    exact h
  | cons s' ss ih =>
    have hjoin : Bytes.join [byte ','] ((s :: s' :: ss).map quoted) =
        quoted s ++ byte ',' :: Bytes.join [byte ','] ((s' :: ss).map quoted) := by
      simp [Bytes.join]
    rw [hjoin, sense_quoted, sense_dataComma, ih]
    rfl

end Lexer

theorem map_toLexeme_lex_stringData (mode : Mode) (ss : List String) :
    (significantTokens (lex mode (stringData ss))).map Token.toLexeme =
      plain .directive "DAT" :: stringValues ss := by
  have hsense : (significantTokens (lex mode (stringData ss))).map Token.toLexeme =
      sense {} (stringData ss) := map_toLexeme_significantTokens (stringData ss)
  have hline (s : Bytes) : sense {} ("DAT " ++ s) =
      plain .directive "DAT" :: sense (amongData false false false) s := by
    show sense {} (byte 'D' :: byte 'A' :: byte 'T' :: byte ' ' :: s) = _
    rw [sense_cons, ← sense_blank (amongData false false false) (c := byte ' ') rfl]
    rfl
  rw [hsense, stringData, hline]
  cases ss with
  | nil =>
    show _ :: sense (amongData false false false) [] = _
    rw [sense, run]
    rfl
  | cons s ss => rw [sense_stringValues]

theorem stringValues_cons_cons (s s' : String) (ss : List String) : stringValues (s :: s' :: ss) =
    stringValue s ++ plain .separator [byte ','] :: stringValues (s' :: ss) := rfl

theorem kind_of_mem_stringValues {ss : List String} :
    ∀ l ∈ stringValues ss, l.kind ∈ [Kind.dataStart, .string, .dataEnd, .separator] := by
  have hvalue (s : String) :
      ∀ l ∈ stringValue s, l.kind ∈ [Kind.dataStart, .string, .dataEnd, .separator] := by
    simp [stringValue, stringLexeme, mark]
  induction ss with
  | nil => simp [stringValues]
  | cons s ss ih =>
    cases ss with
    | nil => exact hvalue s
    | cons s' ss =>
      rw [stringValues_cons_cons]
      exact List.forall_mem_append.2 ⟨hvalue s, List.forall_mem_cons.2 ⟨by simp [plain], ih⟩⟩

theorem kind_of_mem_lex_stringData {mode : Mode} {ss : List String} {t : Token}
    (ht : t ∈ significantTokens (lex mode (stringData ss))) :
    t.kind ∈ [Kind.directive, .dataStart, .string, .dataEnd, .separator] := by
  have hmem : t.toLexeme ∈ plain .directive "DAT" :: stringValues ss := by
    rw [← map_toLexeme_lex_stringData mode ss]
    exact List.mem_map_of_mem ht
  rcases List.mem_cons.1 hmem with heq | hmem
  · rw [heq]
    exact List.mem_cons_self
  · exact List.mem_cons_of_mem _ (kind_of_mem_stringValues _ hmem)

theorem errorTokens_lex_stringData (mode : Mode) (ss : List String) :
    errorTokens (lex mode (stringData ss)) = [] := by
  refine List.filter_eq_nil_iff.2 fun t ht hkind => ?_
  have hkind : t.kind = .error := eq_of_beq hkind
  have hsignificant : t ∈ significantTokens (lex mode (stringData ss)) :=
    List.mem_filter.2 ⟨ht, by rw [hkind]; rfl⟩
  simpa [hkind] using kind_of_mem_lex_stringData hsignificant

/-! ## Lines -/

/-- The tokens of a line without label uses are those of its text. -/
theorem Line.Scanned.map_toLexeme_eq {l : Line} {mode : Mode} (h : l.Scanned mode)
    (huse : ∀ t ∈ significantTokens (lex mode l.text), t.kind ≠ .labelUse) :
    l.significant.map Token.toLexeme =
      (significantTokens (lex mode l.text)).map Token.toLexeme := by
  have hbare {ts : List Token} (hts : ∀ t ∈ ts, t.kind ≠ .labelUse) :
      (ts.map Token.bare).map Token.toLexeme = ts.map Token.toLexeme := by
    rw [List.map_map]
    refine List.map_congr_left fun t ht => ?_
    rw [Function.comp_apply, Token.bare, if_neg (hts t ht)]
  have hkinds : ∀ t ∈ l.significant, t.kind ≠ .labelUse := by
    intro t ht
    have hmem : t.bare ∈ (significantTokens (lex mode l.text)).map Token.bare :=
      h.significant_eq ▸ List.mem_map_of_mem ht
    obtain ⟨u, hu, hut⟩ := List.mem_map.1 hmem
    have hkind : u.kind = t.kind := congrArg (·.kind) hut
    exact hkind ▸ huse u hu
  rw [← hbare hkinds, h.significant_eq, hbare huse]

theorem exists_dataRuns_stringValue {ts : List Token} {s : String} {more : List Lexeme}
    (h : ts.map Token.toLexeme = stringValue s ++ more) :
    ∃ t rest, t.toLexeme = stringLexeme s ∧ rest.map Token.toLexeme = more ∧
      dataRuns none ts = (dataRuns none rest).map ([t] :: ·) := by
  obtain ⟨a, ts, rfl, ha, h⟩ := List.map_eq_cons_iff.1 h
  obtain ⟨t, ts, rfl, ht, h⟩ := List.map_eq_cons_iff.1 h
  obtain ⟨b, rest, rfl, hb, h⟩ := List.map_eq_cons_iff.1 h
  have hka : a.kind = .dataStart := congrArg Lexeme.kind ha
  have hkt : t.kind = .string := congrArg Lexeme.kind ht
  have hkb : b.kind = .dataEnd := congrArg Lexeme.kind hb
  exact ⟨t, rest, ht, h, by simp [dataRuns, hka, hkt, hkb]⟩

/-- Each string is a data value of its own. -/
theorem exists_dataRuns_stringValues {ss : List String} {ts : List Token}
    (h : ts.map Token.toLexeme = stringValues ss) :
    ∃ runs, dataRuns none ts = some runs ∧
      runs.map (·.map Token.toLexeme) = ss.map fun s => [stringLexeme s] := by
  induction ss generalizing ts with
  | nil =>
    rw [List.map_eq_nil_iff.1 h]
    exact ⟨[], rfl, rfl⟩
  | cons s ss ih =>
    cases ss with
    | nil =>
      have h : ts.map Token.toLexeme = stringValue s ++ [] := h
      obtain ⟨t, rest, ht, hrest, hruns⟩ := exists_dataRuns_stringValue h
      rw [List.map_eq_nil_iff.1 hrest] at hruns
      exact ⟨[[t]], hruns, by simp [ht]⟩
    | cons s' ss =>
      rw [stringValues_cons_cons] at h
      obtain ⟨t, rest, ht, hrest, hruns⟩ := exists_dataRuns_stringValue h
      obtain ⟨d, rest, rfl, hd, hrest⟩ := List.map_eq_cons_iff.1 hrest
      obtain ⟨runs, hmore, hmap⟩ := ih hrest
      have hkd : d.kind = .separator := congrArg Lexeme.kind hd
      have hskip : dataRuns none (d :: rest) = dataRuns none rest := by simp [dataRuns, hkd]
      rw [hskip, hmore] at hruns
      exact ⟨[t] :: runs, hruns, by simp [ht, hmap]⟩

section Values

variable {run : List Token} {s : String}

theorem loneString?_of_map (h : run.map Token.toLexeme = [stringLexeme s]) :
    loneString? run = some (Bytes.ofString s) := by
  obtain ⟨t, rfl, ht⟩ := List.map_eq_singleton_iff.1 h
  have hkind : t.kind = .string := congrArg Lexeme.kind ht
  have hcontents : t.contents = Bytes.ofString s := congrArg Lexeme.contents ht
  rw [loneString?, if_pos hkind, hcontents]

theorem dataSize_of_map (h : run.map Token.toLexeme = [stringLexeme s]) :
    dataSize run = s.length := by
  simp only [dataSize, loneString?_of_map h, Utf8.chars_ofString, String.length_toList]

theorem encodeValue_of_map (text : Bytes) (h : run.map Token.toLexeme = [stringLexeme s]) :
    encodeValue text run = .ok (codeWords s) := by
  have hmod (c : Char) : UInt16.ofNat (c.toNat % 0x10000) = UInt16.ofNat c.toNat :=
    UInt16.ofNat_mod_size
  simp only [encodeValue, loneString?_of_map h, Utf8.chars_ofString, codeWords, hmod]

variable {runs : List (List Token)} {ss : List String}

theorem dataSizes_of_map (h : runs.map (·.map Token.toLexeme) = ss.map fun s => [stringLexeme s]) :
    dataSizes runs = (ss.map String.length).sum := by
  induction ss generalizing runs with
  | nil =>
    rw [List.map_eq_nil_iff.1 h]
    rfl
  | cons s ss ih =>
    obtain ⟨run, rest, rfl, hrun, hrest⟩ := List.map_eq_cons_iff.1 h
    rw [dataSizes, dataSize_of_map hrun, ih hrest]
    rfl

theorem encodeValues_of_map (text : Bytes)
    (h : runs.map (·.map Token.toLexeme) = ss.map fun s => [stringLexeme s]) :
    encodeValues text runs = .ok (ss.flatMap codeWords) := by
  induction ss generalizing runs with
  | nil =>
    rw [List.map_eq_nil_iff.1 h]
    rfl
  | cons s ss ih =>
    obtain ⟨run, rest, rfl, hrun, hrest⟩ := List.map_eq_cons_iff.1 h
    rw [encodeValues, encodeValue_of_map text hrun, ih hrest]
    rfl

end Values

namespace Line

variable {l : Line} {mode : Mode} {ss : List String}

theorem exists_dataValues_stringData (h : l.Scanned mode) (htext : l.text = stringData ss) :
    l.kind? = some .data ∧ ∃ runs, l.dataValues = .ok runs ∧
      runs.map (·.map Token.toLexeme) = ss.map fun s => [stringLexeme s] := by
  have hlex := map_toLexeme_lex_stringData mode ss
  have huse : ∀ t ∈ significantTokens (lex mode (stringData ss)), t.kind ≠ .labelUse := by
    intro t ht hkind
    simpa [hkind] using kind_of_mem_lex_stringData ht
  rw [← htext] at hlex huse
  have hline := (h.map_toLexeme_eq huse).trans hlex
  constructor
  · obtain ⟨d, ts, hts, hd, -⟩ := List.map_eq_cons_iff.1 hlex
    have hkeyword : DirectiveKind.ofKeyword? (directiveKeyword "DAT") = some .data := by
      decide +kernel
    have hk : d.kind = .directive := congrArg Lexeme.kind hd
    have ht : d.text = "DAT" := congrArg Lexeme.text hd
    rw [kind?, h.directive_eq, ← Directive.ofTokens?_significantTokens, hts,
      Directive.ofTokens?_cons hk, ht, hkeyword]
    rfl
  · obtain ⟨d, ts, hts, hd, hvalues⟩ := List.map_eq_cons_iff.1 hline
    obtain ⟨runs, hruns, hmap⟩ := exists_dataRuns_stringValues hvalues
    have hk : d.kind = .directive := congrArg Lexeme.kind hd
    have hskip : dataRuns none l.significant = some runs := by
      rw [hts, ← hruns]
      simp [dataRuns, hk]
    exact ⟨runs, by rw [dataValues, hskip], hmap⟩

theorem measure_stringData (h : l.Scanned mode) (htext : l.text = stringData ss) (offset : Int) :
    l.measure offset = .ok (((ss.map String.length).sum : Nat), none) := by
  obtain ⟨hkind, runs, hruns, hmap⟩ := exists_dataValues_stringData h htext
  obtain ⟨d, hd, hk⟩ := Option.map_eq_some_iff.1 hkind
  simp only [measure, hd, hk, hruns, ok_bind, dataSizes_of_map hmap]

theorem encode_stringData (h : l.Scanned mode) (htext : l.text = stringData ss) :
    l.encode = .ok (.words (ss.flatMap codeWords)) := by
  obtain ⟨hkind, runs, hruns, hmap⟩ := exists_dataValues_stringData h htext
  simp only [encode, hkind, hruns, ok_bind, encodeValues_of_map l.text hmap]

end Line

/-- Strings come back from a data line. It has no error and, for each string, one data value with
one string token that holds the string. It takes a word for each character of the strings, in order,
and so does every such line of an accepted program. -/
theorem stringData_roundTrip (ss : List String) :
    (∀ mode, errorTokens (lex mode (stringData ss)) = [] ∧
      (significantTokens (lex mode (stringData ss))).map Token.toLexeme =
        plain .directive "DAT" :: stringValues ss) ∧
    (∀ (l : Line) (mode : Mode), l.Scanned mode → l.text = stringData ss →
      (∃ runs, l.dataValues = .ok runs ∧
        runs.map (·.map Token.toLexeme) = ss.map fun s => [stringLexeme s]) ∧
      (∀ offset, l.measure offset = .ok (((ss.map String.length).sum : Nat), none)) ∧
      l.encode = .ok (.words (ss.flatMap codeWords))) ∧
    ∀ (asm : Assembler) (name text : Bytes) (a : Assembly), asm.Accepts name text a →
      ∀ l ∈ a.lines, l.text = stringData ss →
        l.size = ((ss.map String.length).sum : Nat) ∧
        l.encode = .ok (.words (ss.flatMap codeWords)) := by
  refine ⟨fun mode => ⟨errorTokens_lex_stringData mode ss, map_toLexeme_lex_stringData mode ss⟩,
    fun l mode h htext => ⟨(Line.exists_dataValues_stringData h htext).2,
      Line.measure_stringData h htext, Line.encode_stringData h htext⟩, ?_⟩
  intro asm name text a ha l hl htext
  obtain ⟨mode, h⟩ := Assembler.exists_scanned ha l hl
  have hsize := (Assembler.laid_of_accepts ha).measure_eq hl
  rw [Line.measure_stringData h htext] at hsize
  exact ⟨(Prod.mk.inj (Except.ok.inj hsize)).1.symm, Line.encode_stringData h htext⟩

/-- What ends a line or a value elsewhere, both escaped bytes, an empty string, control characters
and a character beyond the range of a word. -/
def sampleStrings : List String := ["a;b,\"[\\", "", "\t\x00é😀"]

theorem sample_stringData_roundTrip : ∃ a,
    sampleAssembler.Accepts "m" (stringData sampleStrings) a ∧ a.lines.length = 1 ∧
    ∀ l ∈ a.lines, l.size = 11 ∧ l.encode = .ok (.words
      [0x61, 0x3b, 0x62, 0x2c, 0x22, 0x5b, 0x5c, 0x09, 0x00, 0xe9, 0xf600]) := by
  obtain ⟨a, ha, hp⟩ := sampleAssembler.exists_accepts "m" (stringData sampleStrings)
    (fun a => a.lines.length == 1 && a.lines.all (·.text == stringData sampleStrings))
    (by decide +kernel)
  obtain ⟨hone, htext⟩ := Bool.and_eq_true_iff.1 hp
  refine ⟨a, ha, eq_of_beq hone, fun l hl => ?_⟩
  exact (stringData_roundTrip sampleStrings).2.2 _ _ _ a ha l hl
    (eq_of_beq (List.all_eq_true.1 htext l hl))

end Asm16
