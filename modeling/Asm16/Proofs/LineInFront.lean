import Asm16.Proofs.Inlining
import Asm16.Proofs.Parting
import Asm16.Proofs.SingleLine

/-!
# A line in front of a program

`originText n` is a line that goes forward to address `n`. It is put in front of a program, and the
program is read behind it as it was read before (`Assembler.exists_reads_behind`) : the line defines
nothing that later lines could see, so the progress of reading stays `Alike`. All that changes is
the numbers of the lines in the root document (`Line.lowered`); included documents begin with line
one wherever they are included.
-/

namespace Asm16

open Numeral Arith

/-! ## The line -/

/-- A line that goes forward to address `n`. -/
def originText (n : Nat) : Bytes := ".org " ++ decimal n

namespace Lexer

theorem dropWhile_isBlank {w : Bytes} (hw : ∀ c ∈ w, isWordByte c = true) :
    w.dropWhile isBlank = w ∧ w.takeWhile isBlank = [] := by
  cases w with
  | nil => exact ⟨rfl, rfl⟩
  | cons c rest =>
    have hc : ¬isBlank c = true := by simp [isBlank_of_isWordByte (hw c List.mem_cons_self)]
    exact ⟨List.dropWhile_cons_of_neg hc, List.takeWhile_cons_of_neg hc⟩

theorem directive?_origin (n : Nat) : directive? {} (byte '.') ("org " ++ decimal n) =
    some ⟨[plain .directive ".org", plain .whitespace " ", plain .parameters (decimal n)],
      { stage := .done }, []⟩ := by
  have hw := isWord_decimal n
  obtain ⟨hdrop, htake⟩ := dropWhile_isBlank hw.all
  have hend : (decimal n).dropEnd isBlank = decimal n := by
    simpa [Bytes.dropEnd] using
      dropEnd_append (fun c hc => isBlank_of_isWordByte (hw.all c hc)) ([] : Bytes)
  have hparams : parameterText none (decimal n) = decimal n := by
    simpa [parameterText] using parameterText_append hw.all []
  have hletters : (("org " : Bytes) ++ decimal n).takeWhile isLetter = "org" := rfl
  have hafter : (("org " : Bytes) ++ decimal n).dropWhile isLetter = byte ' ' :: decimal n := rfl
  have hspace : (byte ' ' :: decimal n).takeWhile isBlank = " " := by
    rw [List.takeWhile_cons_of_pos rfl, htake]
    rfl
  have hbody : (byte ' ' :: decimal n).dropWhile isBlank = decimal n := by
    rw [List.dropWhile_cons_of_pos rfl, hdrop]
  have hform : directiveForm? (Bytes.lower "org") = some .parameters := by decide +kernel
  have hnext : ¬(byte ' ' :: decimal n).head?.any (fun d => d = byte ':' || isWordByte d) :=
    Bool.false_ne_true
  simp only [directive?, hletters, hafter, hspace, hbody, hparams, hend, hform]
  rw [if_neg hnext, List.isEmpty_eq_false_iff.2 hw.ne_nil, List.drop_length]
  rfl

theorem lexemes_originText (n : Nat) : lexemes (originText n) =
    [plain .directive ".org", plain .whitespace " ", plain .parameters (decimal n), mark .eof] := by
  have hbytes : originText n = byte '.' :: ("org " ++ decimal n) := rfl
  rw [lexemes, hbytes, run, step, stepAt, if_neg (by decide), if_neg (by decide), if_pos rfl,
    lineStep, if_pos (.inr rfl), directive?_origin, run]
  rfl

theorem kind_of_mem_originText {n : Nat} {t : Token} (ht : t ∈ lex .initial (originText n)) :
    t.kind = .directive ∨ t.kind = .whitespace ∨ t.kind = .parameters ∨ t.kind = .eof := by
  rw [lex, lexemes_originText] at ht
  simp only [place, List.mem_cons, List.not_mem_nil, or_false] at ht
  rcases ht with rfl | rfl | rfl | rfl <;> simp [plain, mark]

theorem ofTokens?_originText (n : Nat) : Directive.ofTokens? (lex .initial (originText n)) =
    some ⟨.origin, ".org", decimal n⟩ := by
  have hkeyword : DirectiveKind.ofKeyword? (directiveKeyword ".org") = some .origin := by
    decide +kernel
  rw [lex, lexemes_originText]
  simp only [place, plain, mark, Directive.ofTokens?, if_true, hkeyword]
  rfl

end Lexer

theorem Arith.evaluate_decimal {n : Nat} (hn : n < intLimit) : evaluate (decimal n) = .ok n := by
  have hspelled : Spelled [.int n] (decimal n) := by
    simpa using Spelled.cons (g := []) (by simp [IsGap]) (.int (literal_decimal n))
      (.nil (g := []) (by simp [IsGap]))
  refine Arith.evaluate_eq_ok.2 ⟨_, _, hspelled.trim.2 hspelled, .literal hn, rfl, ?_⟩
  unfold FitsInt
  omega

/-- A line that goes forward to address `n`, at the beginning of a document. -/
def originLine (doc : Document) (n : Nat) : Line :=
  ⟨doc, 1, originText n, originText n, lex .initial (originText n),
    some ⟨.origin, ".org", decimal n⟩, 0, 0, none⟩

theorem measure_originLine (doc : Document) {n : Nat} (hn : n < intLimit) :
    (originLine doc n).measure 0 = .ok ((n : Int), none) := by
  have hevaluate : Directive.evaluate ⟨.origin, ".org", decimal n⟩ = .ok (n : Int) := by
    rw [Directive.evaluate, evaluate_decimal hn]
  have hwrap : wrap (n : Int) = n := wrap_eq_self (Int.natCast_nonneg n) (Int.ofNat_lt.2 hn)
  simp only [Line.measure, originLine, hevaluate, ok_bind]
  rw [if_neg (by omega), Int.sub_zero, hwrap]

theorem lexErrors_originLine (doc : Document) (n : Nat) : (originLine doc n).lexErrors = [] := by
  have hnone : errorTokens (lex .initial (originText n)) = [] := by
    refine List.filter_eq_nil_iff.2 fun t ht => ?_
    rcases Lexer.kind_of_mem_originText ht with h | h | h | h <;> simp [h]
  rw [Line.lexErrors, originLine, hnone, List.map_nil]

theorem readLine_originText (doc : Document) (n : Nat) {p : Progress}
    (hp : p.defines.entries = []) : (readLine doc 1 (originText n) p).result =
      .ok (originLine doc n, { p with count := p.count + 1 }) := by
  have hdefine : (Directive.ofTokens? (lex .initial (originText n))).map (·.kind) ≠
      some .define := by
    rw [Lexer.ofTokens?_originText]
    exact nofun
  have hlabels : ∀ t ∈ lex .initial (originText n), t.kind ≠ .labelDef ∧ t.kind ≠ .labelUse := by
    intro t ht
    rcases Lexer.kind_of_mem_originText ht with h | h | h | h <;> simp [h]
  obtain ⟨l, hl, hread⟩ := readLine_of_forall doc 1 hp hdefine hlabels
  rw [Lexer.ofTokens?_originText] at hl
  obtain rfl : l = originLine doc n := hl
  rw [hread, Progress.behind, lexErrors_originLine, List.append_nil]

theorem length_originText_lt {n : Nat} (hn : n < intLimit) : (originText n).length < lineLimit := by
  have hdigits : (decimal n).length ≤ 19 := by
    rw [decimal, digits, List.length_map, Nat.length_toDigits_le_iff (by decide) (by decide)]
    exact Nat.lt_trans hn (by decide)
  have hlength : (originText n).length = 5 + (decimal n).length := List.length_append
  unfold lineLimit
  omega

theorem not_mem_originText (n : Nat) {c : UInt8} (hc : c = byte '\n' ∨ c = byte '\r') :
    c ∉ originText n := by
  intro hmem
  rcases List.mem_append.1 hmem with h | h
  · rcases hc with rfl | rfl <;> revert h <;> decide +kernel
  · have := (isWord_decimal n).all c h
    rcases hc with rfl | rfl <;> cases this

theorem sourceLines_originText {n : Nat} (hn : n < intLimit) (text : Bytes) :
    sourceLines (originText n ++ byte '\n' :: text) =
      (originText n :: (sourceLines text).1, (sourceLines text).2) :=
  sourceLines_append (not_mem_originText n (.inl rfl)) (not_mem_originText n (.inr rfl))
    (length_originText_lt hn) text

/-! ## Reading behind it -/

/-- The number of lines that stand in front of a document when one stands in front of the program :
they are in front of the root document only. -/
def Document.lead (doc : Document) : Nat := if doc.parents = [] then 1 else 0

/-- A line, with the number it has when another line stands in front of the program. -/
def Line.lowered (l : Line) : Line := { l with number := l.number + l.document.lead }

theorem Line.eq_of_placeless {l l₀ : Line} (h : l₀.placeless = l.placeless) :
    l₀ = { l with document := l₀.document, number := l₀.number } :=
  congrArg (fun m : Line => { m with document := l₀.document, number := l₀.number }) h

/-- The same place when another line stands in front of the program. -/
structure Place.Lowered (s₀ s : Place) : Prop where
  document_eq : s₀.document = s.document
  cut_eq : s₀.cut = s.cut
  number_eq : s₀.number = s.number + s.document.lead
  raws_eq : s₀.raws = s.raws
  alike : s₀.progress.Alike s.progress

namespace Place

variable {s s₀ after : Place} {line : Line}

theorem lowered_opening {p p₀ : Progress} (h : p₀.Alike p) (name text : Bytes) (doc : Document) :
    Lowered (.opening ⟨name, doc.chain⟩ text p₀) (.opening ⟨name, doc.chain⟩ text p) :=
  ⟨rfl, rfl, rfl, rfl, h⟩

theorem Lowered.behind {p p₀ : Progress} (h : s₀.Lowered s) (hp : p₀.Alike p) :
    Lowered { s₀ with progress := p₀ } { s with progress := p } :=
  { h with alike := hp }

theorem Takes.lowered (ht : s.Takes line after) (h : s₀.Lowered s) :
    ∃ after₀, s₀.Takes line.lowered after₀ ∧ after₀.Lowered after := by
  obtain ⟨raw, rest, q, hraws, hline, rfl⟩ := ht
  obtain ⟨line₀, q₀, hline₀, hsame, hq⟩ := readLine_alike h.alike hline s₀.document s₀.number
  have hlowered : line₀ = line.lowered := by
    obtain ⟨r, ds, -, -, rfl, -⟩ := readLine_eq_ok.1 hline
    obtain ⟨r₀, ds₀, -, -, rfl, -⟩ := readLine_eq_ok.1 hline₀
    rw [Line.eq_of_placeless hsame, Line.lowered, h.document_eq, h.number_eq]
  refine ⟨⟨s₀.document, s₀.cut, s₀.number + 1, rest, q₀⟩,
    ⟨raw, rest, q₀, h.raws_eq.trans hraws, hlowered ▸ hline₀, rfl⟩, h.document_eq, h.cut_eq, ?_,
    rfl, hq⟩
  show s₀.number + 1 = s.number + 1 + s.document.lead
  rw [h.number_eq, Nat.add_right_comm]

end Place

/-- Behind another line in front of the program, a document is read the same way. -/
theorem Reads.lowered {source : Option Source} {s s₀ : Place} {r : Except Error Extent}
    {extent : Extent} (hr : Reads source s r) (he : r = .ok extent) (h : s₀.Lowered s) :
    ∃ extent₀, Reads source s₀ (.ok extent₀) ∧
      extent₀.lines = extent.lines.map Line.lowered ∧
      extent₀.progress.Alike extent.progress := by
  induction hr generalizing s₀ extent with
  | done hs hcut =>
    obtain rfl := Except.ok.inj he
    exact ⟨_, .done (h.raws_eq.trans hs) (h.cut_eq.trans hcut), rfl, h.alike⟩
  -- the rules that end in an error
  | tooLong | refused | missing | cycle | inner => cases he
  | plain ht hi _ ih =>
    obtain ⟨more, rfl, rfl⟩ := map_eq_ok.1 he
    obtain ⟨after₀, ht₀, hafter⟩ := ht.lowered h
    obtain ⟨more₀, hmore₀, hlines, halike⟩ := ih rfl hafter
    refine ⟨_, .plain ht₀ hi hmore₀, ?_, halike⟩
    rw [Extent.followedBy_lines, Extent.followedBy_lines, hlines]
    rfl
  | within ht hi hc _ _ ihe ihr =>
    obtain ⟨more, rfl, rfl⟩ := map_eq_ok.1 he
    obtain ⟨after₀, ht₀, hafter⟩ := ht.lowered h
    -- an included document starts at its own first line in both readings
    obtain ⟨inner₀, hinner₀, hinner, hprogress⟩ :=
      ihe rfl (Place.lowered_opening hafter.alike _ _ _)
    obtain ⟨more₀, hmore₀, hlines, halike⟩ := ihr rfl (hafter.behind hprogress)
    refine ⟨_, .within ht₀ hi (h.document_eq ▸ hc) (h.document_eq ▸ hinner₀) hmore₀, ?_, halike⟩
    rw [Extent.followedBy_lines, Extent.followedBy_lines, hlines, hinner, List.map_cons,
      List.map_append]

/-- Reading a program behind a line that goes forward. -/
theorem Assembler.exists_reads_behind {asm : Assembler} {name text : Bytes} {defines : Defines}
    {extent : Extent} (hd : defines.entries = []) {n : Nat} (hn : n < intLimit)
    (hr : Reads asm.source (asm.opening name text defines) (.ok extent)) :
    ∃ extent₀, Reads asm.source (asm.opening name (originText n ++ byte '\n' :: text) defines)
        (.ok extent₀) ∧
      extent₀.lines = originLine ⟨Path.clean name, []⟩ n :: extent.lines.map Line.lowered := by
  have hlines := sourceLines_originText hn text
  have hline := readLine_originText ⟨Path.clean name, []⟩ n (p := asm.start defines) hd
  have ht : (asm.opening name (originText n ++ byte '\n' :: text) defines).Takes
      (originLine ⟨Path.clean name, []⟩ n) ⟨⟨Path.clean name, []⟩, (sourceLines text).2, 2,
        (sourceLines text).1, { asm.start defines with count := 1 }⟩ := by
    rw [opening, Place.opening, hlines]
    exact ⟨_, _, _, rfl, hline, rfl⟩
  have hafter : Place.Lowered ⟨⟨Path.clean name, []⟩, (sourceLines text).2, 2,
      (sourceLines text).1, { asm.start defines with count := 1 }⟩
      (asm.opening name text defines) := ⟨rfl, rfl, rfl, rfl, rfl, rfl, rfl, rfl⟩
  obtain ⟨more, hmore, hlowered, -⟩ := hr.lowered rfl hafter
  refine ⟨_, .plain ht rfl hmore, ?_⟩
  rw [Extent.followedBy_lines, hlowered]
  rfl

end Asm16
